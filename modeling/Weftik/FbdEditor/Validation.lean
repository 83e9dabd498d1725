import Weftik.FbdEditor.Model
import Weftik.Lib.DepthFirst

/-!
# The Validation of Function Block Diagrams

`validateGraph` looks for wires whose nodes or pins do not exist, for pins used in the wrong
direction, for different data types, for feedback loops, and for nodes without wires. The
wrong types and the lonely nodes are warnings.

## Main definitions

* `FbdEditor.validateGraph`: the findings, and whether the graph is valid.
* `FbdEditor.FbdGraph.Fits`: a wire leads from an output to an input.

## Main results

* `FbdEditor.no_wire_errors_iff`: when the checks of the wires find no error.
* `FbdEditor.not_transGen_of_validateGraph`: a valid graph has no feedback loop.
-/

open Relation

namespace Weftik.FbdEditor

inductive ValidationSeverity
  | error
  | warning
  deriving DecidableEq, Repr

structure ValidationFinding where
  severity : ValidationSeverity
  message : String
  deriving DecidableEq, Repr

structure ValidationResult where
  valid : Bool
  findings : List ValidationFinding
  deriving DecidableEq, Repr

namespace FbdGraph

/-- The first node with an id. -/
def findNode (graph : FbdGraph) (nodeId : String) : Option Node :=
  graph.nodes.find? fun n => n.id == nodeId

/-- The node of an id in a map that has been filled in the order of the nodes. -/
def nodeById (graph : FbdGraph) (nodeId : String) : Option Node :=
  graph.nodes.reverse.find? fun n => n.id == nodeId

variable (graph : FbdGraph)

/-- Edges whose nodes do not exist. -/
def danglingEdges (edge : Edge) : List ValidationFinding :=
  (if (graph.nodeById edge.sourceId).isNone then
    [⟨.error, "Dangling edge source: \"" ++ edge.id ++
      "\" references non-existent source node \"" ++ edge.sourceId ++ "\""⟩]
  else []) ++
  if (graph.nodeById edge.targetId).isNone then
    [⟨.error, "Dangling edge target: \"" ++ edge.id ++
      "\" references non-existent target node \"" ++ edge.targetId ++ "\""⟩]
  else []

/-- The findings about one end of an edge: `allowed` are the directions of its pin. -/
def portFindings (side used kind expected : String) (allowed : PinDirection → Bool)
    (edge : Edge) (nodeId portName : String) : List ValidationFinding :=
  match graph.nodeById nodeId with
  | none => []
  | some node =>
      match node.findPin portName with
      | none =>
          [⟨.error, "Dangling " ++ side ++ " port: edge \"" ++ edge.id ++
            "\" references non-existent port \"" ++ portName ++ "\" on node \"" ++ node.id ++
            "\" (type: " ++ node.type ++ ")"⟩]
      | some pin =>
          if allowed pin.direction then []
          else
            [⟨.error, "Invalid " ++ side ++ " pin direction: edge \"" ++ edge.id ++ "\" " ++
              used ++ " \"" ++ portName ++ "\" on \"" ++ node.id ++ "\" which is an " ++ kind ++
              " pin (must be " ++ expected ++ " or Bidi)"⟩]

def sourceFindings (edge : Edge) : List ValidationFinding :=
  graph.portFindings "source" "sources from" "Input" "Output" PinDirection.isSource edge
    edge.sourceId edge.sourcePortName

def targetFindings (edge : Edge) : List ValidationFinding :=
  graph.portFindings "target" "targets" "Output" "Input" PinDirection.isTarget edge
    edge.targetId edge.targetPortName

/-- The pins of an edge have different types; an `INT` into a `REAL` is no exception. -/
def typeFindings (edge : Edge) : List ValidationFinding :=
  match graph.nodeById edge.sourceId, graph.nodeById edge.targetId with
  | some sourceNode, some targetNode =>
      match sourceNode.findPin edge.sourcePortName, targetNode.findPin edge.targetPortName with
      | some sourcePin, some targetPin =>
          if sourcePin.dataType = targetPin.dataType then []
          else
            [⟨.warning, "Type mismatch: edge \"" ++ edge.id ++ "\" connects " ++
              sourcePin.dataType ++ " (\"" ++ edge.sourcePortName ++ "\" on \"" ++
              sourceNode.id ++ "\") to " ++ targetPin.dataType ++ " (\"" ++
              edge.targetPortName ++ "\" on \"" ++ targetNode.id ++ "\")"⟩]
      | _, _ => []
  | _, _ => []

/-- The findings about the wires. -/
def wireFindings : List ValidationFinding :=
  graph.edges.flatMap graph.danglingEdges ++
    graph.edges.flatMap fun edge =>
      graph.sourceFindings edge ++ graph.targetFindings edge ++ graph.typeFindings edge

/-- The successors of a node. -/
def adj (nodeId : String) : List String :=
  if graph.nodes.any fun n => n.id == nodeId then
    (graph.edges.filter fun e => e.sourceId == nodeId).map Edge.targetId
  else []

/-- The ids that the search for feedback loops can come to. -/
def mentioned : List String := graph.nodes.map Node.id ++ graph.edges.map Edge.targetId

def detectCycles : List (List String) :=
  DepthFirst.detectCycles graph.adj (DepthFirst.fuelFor graph.adj graph.mentioned)
    (graph.nodes.map Node.id)

def feedbackFindings : List ValidationFinding :=
  graph.detectCycles.map fun cycle =>
    ⟨.error, "Feedback loop detected: " ++ " → ".intercalate cycle⟩

def disconnectedFindings : List ValidationFinding :=
  (graph.nodes.filter fun n =>
    !graph.edges.any fun e => e.sourceId == n.id || e.targetId == n.id).map fun n =>
      ⟨.warning, "Disconnected node: \"" ++ n.id ++ "\" (type: " ++ n.type ++
        ") has no connections"⟩

end FbdGraph

def validateGraph (graph : FbdGraph) : ValidationResult :=
  let findings :=
    graph.wireFindings ++ graph.feedbackFindings ++ graph.disconnectedFindings
  ⟨!findings.any fun f => f.severity == .error, findings⟩

/-! ### What a valid graph is -/

namespace FbdGraph

variable {graph : FbdGraph}

/-- A pin of the graph that satisfies a condition on the directions. -/
def HasPin (graph : FbdGraph) (allowed : PinDirection → Bool) (nodeId portName : String) : Prop :=
  ∃ node, graph.nodeById nodeId = some node ∧
    ∃ pin, node.findPin portName = some pin ∧ allowed pin.direction = true

/-- The edge leads from a pin that may be a source to a pin that may be a target. -/
def Fits (graph : FbdGraph) (edge : Edge) : Prop :=
  graph.HasPin PinDirection.isSource edge.sourceId edge.sourcePortName ∧
    graph.HasPin PinDirection.isTarget edge.targetId edge.targetPortName

variable {edge : Edge} {side used kind expected : String}

theorem portFindings_eq_nil_iff {allowed : PinDirection → Bool} {nodeId portName : String} :
    (graph.nodeById nodeId).isNone = false ∧
        graph.portFindings side used kind expected allowed edge nodeId portName = [] ↔
      graph.HasPin allowed nodeId portName := by
  rw [portFindings, HasPin]
  cases hnode : graph.nodeById nodeId with
  | none => simp
  | some node =>
      cases hpin : node.findPin portName with
      | none => simp [hpin]
      | some pin => simp [hpin]

theorem severity_portFindings {allowed : PinDirection → Bool} {nodeId portName : String} :
    ∀ f ∈ graph.portFindings side used kind expected allowed edge nodeId portName,
      f.severity = .error := by
  intro f hf
  rw [portFindings] at hf
  cases hnode : graph.nodeById nodeId with
  | none => rw [hnode] at hf; cases hf
  | some node =>
      rw [hnode] at hf
      dsimp only at hf
      cases hpin : node.findPin portName with
      | none =>
          rw [hpin] at hf
          obtain rfl := List.mem_singleton.mp hf
          rfl
      | some pin =>
          rw [hpin] at hf
          dsimp only at hf
          by_cases hallowed : allowed pin.direction = true
          · rw [if_pos hallowed] at hf
            cases hf
          · rw [if_neg hallowed] at hf
            obtain rfl := List.mem_singleton.mp hf
            rfl

theorem severity_danglingEdges : ∀ f ∈ graph.danglingEdges edge, f.severity = .error := by
  intro f hf
  rw [danglingEdges, List.mem_append] at hf
  rcases hf with hf | hf
  · by_cases hnone : (graph.nodeById edge.sourceId).isNone = true
    · rw [if_pos hnone] at hf
      obtain rfl := List.mem_singleton.mp hf
      rfl
    · rw [if_neg hnone] at hf
      cases hf
  · by_cases hnone : (graph.nodeById edge.targetId).isNone = true
    · rw [if_pos hnone] at hf
      obtain rfl := List.mem_singleton.mp hf
      rfl
    · rw [if_neg hnone] at hf
      cases hf

theorem severity_typeFindings : ∀ f ∈ graph.typeFindings edge, f.severity ≠ .error := by
  intro f hf
  rw [typeFindings] at hf
  cases hsource : graph.nodeById edge.sourceId with
  | none => rw [hsource] at hf; cases hf
  | some source =>
      cases htarget : graph.nodeById edge.targetId with
      | none => rw [hsource, htarget] at hf; cases hf
      | some target =>
          rw [hsource, htarget] at hf
          dsimp only at hf
          cases hsp : source.findPin edge.sourcePortName with
          | none => rw [hsp] at hf; cases hf
          | some sp =>
              cases htp : target.findPin edge.targetPortName with
              | none => rw [hsp, htp] at hf; cases hf
              | some tp =>
                  rw [hsp, htp] at hf
                  dsimp only at hf
                  by_cases htype : sp.dataType = tp.dataType
                  · rw [if_pos htype] at hf
                    cases hf
                  · rw [if_neg htype] at hf
                    obtain rfl := List.mem_singleton.mp hf
                    exact fun h => nomatch h

end FbdGraph

open FbdGraph

/-! ### The nodes of an id -/

theorem find?_id_iff {nodes : List Node} (hnodup : (nodes.map Node.id).Nodup) {id : String}
    {n : Node} : nodes.find? (fun n => n.id == id) = some n ↔ n ∈ nodes ∧ n.id = id := by
  constructor
  · intro h
    exact ⟨List.mem_of_find?_eq_some h, by simpa using List.find?_some h⟩
  · rintro ⟨hmem, rfl⟩
    cases hfind : nodes.find? fun m => m.id == n.id with
    | none => exact absurd (List.find?_eq_none.mp hfind n hmem) (by simp)
    | some m =>
        have hid : m.id = n.id := by simpa using List.find?_some hfind
        rw [List.inj_on_of_nodup_map hnodup (List.mem_of_find?_eq_some hfind) hmem hid]

theorem findNode_iff {graph : FbdGraph} (hnodup : (graph.nodes.map Node.id).Nodup) {id : String}
    {n : Node} : graph.findNode id = some n ↔ n ∈ graph.nodes ∧ n.id = id :=
  find?_id_iff hnodup

theorem nodeById_iff {graph : FbdGraph} (hnodup : (graph.nodes.map Node.id).Nodup) {id : String}
    {n : Node} : graph.nodeById id = some n ↔ n ∈ graph.nodes ∧ n.id = id := by
  rw [FbdGraph.nodeById, find?_id_iff (by simpa using hnodup), List.mem_reverse]

variable {graph : FbdGraph}

theorem eq_nil_of_severity {l : List ValidationFinding}
    (hall : ∀ f ∈ l, f.severity = .error) : (∀ f ∈ l, f.severity ≠ .error) ↔ l = [] := by
  constructor
  · intro h
    exact List.eq_nil_iff_forall_not_mem.mpr fun f hf => h f hf (hall f hf)
  · rintro rfl f hf
    cases hf

theorem danglingEdges_eq_nil_iff {e : Edge} :
    graph.danglingEdges e = [] ↔
      (graph.nodeById e.sourceId).isNone = false ∧ (graph.nodeById e.targetId).isNone = false := by
  rw [danglingEdges, List.append_eq_nil_iff, ite_eq_right_iff, ite_eq_right_iff]
  simp only [List.cons_ne_nil, imp_false, Bool.not_eq_true]

/-- The checks of a wire find no error iff it fits. -/
theorem fits_iff {e : Edge} :
    graph.Fits e ↔ graph.danglingEdges e = [] ∧ graph.sourceFindings e = [] ∧
      graph.targetFindings e = [] := by
  have hsource : (graph.nodeById e.sourceId).isNone = false ∧ graph.sourceFindings e = [] ↔
      graph.HasPin PinDirection.isSource e.sourceId e.sourcePortName := portFindings_eq_nil_iff
  have htarget : (graph.nodeById e.targetId).isNone = false ∧ graph.targetFindings e = [] ↔
      graph.HasPin PinDirection.isTarget e.targetId e.targetPortName := portFindings_eq_nil_iff
  rw [Fits, ← hsource, ← htarget, danglingEdges_eq_nil_iff, and_assoc, and_assoc,
    and_left_comm (a := graph.sourceFindings e = [])]

/-- The checks of the wires find no error iff every wire fits. -/
theorem no_wire_errors_iff :
    (∀ f ∈ graph.wireFindings, f.severity ≠ .error) ↔ ∀ e ∈ graph.edges, graph.Fits e := by
  simp only [wireFindings, List.mem_append, List.mem_flatMap]
  constructor
  · intro h e he
    refine fits_iff.mpr ⟨?_, ?_, ?_⟩
    · rw [← eq_nil_of_severity severity_danglingEdges]
      exact fun f hf => h f (Or.inl ⟨e, he, hf⟩)
    · refine (eq_nil_of_severity severity_portFindings).mp ?_
      exact fun f hf => h f (Or.inr ⟨e, he, Or.inl (Or.inl hf)⟩)
    · refine (eq_nil_of_severity severity_portFindings).mp ?_
      exact fun f hf => h f (Or.inr ⟨e, he, Or.inl (Or.inr hf)⟩)
  · rintro h f (⟨e, he, hf⟩ | ⟨e, he, (hf | hf) | hf⟩)
    · rw [(fits_iff.mp (h e he)).1] at hf
      cases hf
    · rw [(fits_iff.mp (h e he)).2.1] at hf
      cases hf
    · rw [(fits_iff.mp (h e he)).2.2] at hf
      cases hf
    · exact severity_typeFindings f hf

/-- There is an edge from the first node to the second. -/
def FbdGraph.Wired (graph : FbdGraph) (u v : String) : Prop :=
  ∃ e ∈ graph.edges, e.sourceId = u ∧ e.targetId = v

theorem mem_adj_iff {u v : String} :
    v ∈ graph.adj u ↔ u ∈ graph.nodes.map Node.id ∧ graph.Wired u v := by
  rw [adj]
  by_cases hu : (graph.nodes.any fun n => n.id == u) = true
  · rw [if_pos hu]
    have hmem : u ∈ graph.nodes.map Node.id := by simpa using hu
    simp [Wired, hmem, and_assoc]
  · rw [if_neg hu]
    have hmem : u ∉ graph.nodes.map Node.id := by simpa using hu
    simp [hmem]

/-- The graph is valid iff its wires fit and the search for feedback loops finds none. -/
theorem validateGraph_valid_iff :
    (validateGraph graph).valid = true ↔
      (∀ e ∈ graph.edges, graph.Fits e) ∧ graph.detectCycles = [] := by
  have hvalid : (validateGraph graph).valid = true ↔
      ∀ f ∈ graph.wireFindings ++ graph.feedbackFindings ++ graph.disconnectedFindings,
        f.severity ≠ .error := by
    simp only [validateGraph, Bool.not_eq_true', List.any_eq_false, beq_iff_eq, ne_eq]
  have hfeedback : (∀ f ∈ graph.feedbackFindings, f.severity ≠ .error) ↔
      graph.detectCycles = [] := by
    rw [eq_nil_of_severity, feedbackFindings, List.map_eq_nil_iff]
    intro f hf
    obtain ⟨cycle, -, rfl⟩ := List.mem_map.mp hf
    rfl
  have hdisconnected : ∀ f ∈ graph.disconnectedFindings, f.severity ≠ .error := by
    intro f hf
    obtain ⟨n, -, rfl⟩ := List.mem_map.mp hf
    exact fun h => nomatch h
  rw [hvalid, ← no_wire_errors_iff, ← hfeedback]
  simp only [List.mem_append]
  exact ⟨fun h => ⟨fun f hf => h f (Or.inl (Or.inl hf)), fun f hf => h f (Or.inl (Or.inr hf))⟩,
    fun ⟨hwire, hloop⟩ f hf => by
      rcases hf with (hf | hf) | hf
      · exact hwire f hf
      · exact hloop f hf
      · exact hdisconnected f hf⟩

theorem nodeById_mem {nodeId : String} {node : Node} (h : graph.nodeById nodeId = some node) :
    node ∈ graph.nodes ∧ node.id = nodeId :=
  ⟨List.mem_reverse.mp (List.mem_of_find?_eq_some h), by simpa using List.find?_some h⟩

/-- A valid graph has no feedback loop. -/
theorem not_transGen_of_validateGraph (h : (validateGraph graph).valid = true) (v : String) :
    ¬ TransGen graph.Wired v v := by
  obtain ⟨hfits, hquiet⟩ := validateGraph_valid_iff.mp h
  have hnode : ∀ {u w}, graph.Wired u w → u ∈ graph.nodes.map Node.id := by
    rintro u w ⟨e, he, rfl, rfl⟩
    obtain ⟨node, hnode, -⟩ := (hfits e he).1
    obtain ⟨hmem, hid⟩ := nodeById_mem hnode
    exact hid ▸ List.mem_map_of_mem hmem
  have hclosed : ∀ u ∈ graph.mentioned, ∀ w ∈ graph.adj u, w ∈ graph.mentioned := by
    intro u _ w hw
    obtain ⟨-, e, he, -, rfl⟩ := mem_adj_iff.mp hw
    exact List.mem_append_right _ (List.mem_map_of_mem he)
  intro hcycle
  obtain ⟨w, hw, -⟩ := TransGen.head'_iff.mp hcycle
  refine DepthFirst.not_transGen_of_detectCycles hclosed
    (fun u hu => List.mem_append_left _ hu) hquiet (hnode hw) ?_
  exact TransGen.mono (fun u w huw => mem_adj_iff.mpr ⟨hnode huw, huw⟩) v v hcycle

end Weftik.FbdEditor
