import Weftik.FbdEditor.Validation
import Weftik.Lib.Transition

/-!
# Editing Function Block Diagrams

The operations of the editor return a new graph or throw. They keep every wire between an
output and an input, except that a gate whose type changes keeps the wires of the pins that
it loses (a function block drops them), and nothing keeps a second wire out of an input pin
that has one.

## Main definitions

* `FbdEditor.apply`: the operations.
* `FbdEditor.Diagram`: what the editor promises of a diagram.
* `FbdEditor.Keeps`: the operations that keep the promise.

## Main results

* `FbdEditor.Consistent.step`: what every operation keeps of the ids and the pins.
* `FbdEditor.diagram_iff`: the operations after which the graph is still a diagram.
* `FbdEditor.reachesDiagrams_iff`: the runs that reach only diagrams.
-/

open Transition

namespace Weftik.FbdEditor

/-- The graph, and the counter of the ids. -/
structure Editor where
  graph : FbdGraph
  nextId : ℕ
  deriving DecidableEq, Repr

structure ConnectPinsParams where
  sourceNodeId : String
  sourcePortName : String
  targetNodeId : String
  targetPortName : String
  deriving DecidableEq, Repr

/-- An operation with its parameters; positions are left out. -/
inductive Operation
  | createGate (gateType : GateType)
  | createFunctionBlock (fbType : String)
  | deleteElement (elementId : String)
  | connectPins (params : ConnectPinsParams)
  | disconnectPin (nodeId portName : String)
  | changeGateType (elementId : String) (newGateType : GateType)
  | changeFbType (fbId newFbType : String)
  deriving DecidableEq, Repr

def PinDirection.text : PinDirection → String
  | .output => "Output"
  | .input => "Input"
  | .bidi => "Bidi"

/-- The pin that an operation names. -/
def validatePin (graph : FbdGraph) (nodeId portName role : String) : Except String Pin :=
  match graph.findNode nodeId with
  | none => .error (role ++ " node not found: " ++ nodeId)
  | some node =>
      match node.findPin portName with
      | none =>
          .error (role ++ " port \"" ++ portName ++ "\" not found on " ++ node.type ++ " \"" ++
            nodeId ++ "\"")
      | some pin => .ok pin

/-- The node list with the node of an id exchanged, the first one if there are several. -/
def replaceNode (nodes : List Node) (nodeId : String) (node : Node) : List Node :=
  match nodes.findIdx? fun n => n.id == nodeId with
  | none => nodes
  | some i => nodes.set i { node with id := nodeId }

def createGateOp (s : Editor) (gateType : GateType) : Editor :=
  let (gate, nextId) := createGate gateType s.nextId
  ⟨{ s.graph with nodes := s.graph.nodes ++ [gate] }, nextId⟩

def connectPins (s : Editor) (p : ConnectPinsParams) : Except String Editor := do
  let srcPin ← validatePin s.graph p.sourceNodeId p.sourcePortName "source"
  let tgtPin ← validatePin s.graph p.targetNodeId p.targetPortName "target"
  if !srcPin.direction.isSource then
    .error ("Source pin \"" ++ p.sourcePortName ++ "\" is " ++ srcPin.direction.text ++
      ", must be Output/Bidi")
  else if !tgtPin.direction.isTarget then
    .error ("Target pin \"" ++ p.targetPortName ++ "\" is " ++ tgtPin.direction.text ++
      ", must be Input/Bidi")
  else if srcPin.dataType ≠ tgtPin.dataType ∧
      ¬(srcPin.dataType = "INT" ∧ tgtPin.dataType = "REAL") then
    .error ("Type mismatch: " ++ srcPin.dataType ++ " → " ++ tgtPin.dataType)
  else if s.graph.edges.any fun e =>
      e.sourceId == p.sourceNodeId && e.sourcePortName == p.sourcePortName &&
        e.targetId == p.targetNodeId && e.targetPortName == p.targetPortName then
    .ok s
  else
    let (id, nextId) := generateId "signal" s.nextId
    let edge : Edge := ⟨id, p.sourceNodeId, p.sourcePortName, p.targetNodeId, p.targetPortName⟩
    .ok ⟨{ s.graph with edges := s.graph.edges ++ [edge] }, nextId⟩

def disconnectPin (s : Editor) (nodeId portName : String) : Except String Editor :=
  match s.graph.findNode nodeId with
  | none => .error ("Node not found: " ++ nodeId)
  | some _ =>
      .ok
        { s with
          graph.edges := s.graph.edges.filter fun e =>
            !((e.sourceId == nodeId && e.sourcePortName == portName) ||
              (e.targetId == nodeId && e.targetPortName == portName)) }

def deleteElement (s : Editor) (elementId : String) : Except String Editor :=
  match s.graph.findNode elementId with
  | none => .error ("Element not found: " ++ elementId)
  | some _ =>
      .ok
        { s with
          graph.nodes := s.graph.nodes.filter fun n => n.id != elementId
          graph.edges := s.graph.edges.filter fun e =>
            e.sourceId != elementId && e.targetId != elementId }

/-- The wires of the gate stay as they are. -/
def changeGateType (s : Editor) (elementId : String) (newGateType : GateType) :
    Except String Editor :=
  match s.graph.findNode elementId with
  | some ⟨_, .gate gateType, _, _⟩ =>
      if gateType = newGateType then .ok s
      else
        let (newGate, nextId) := createGate newGateType s.nextId
        .ok ⟨{ s.graph with nodes := replaceNode s.graph.nodes elementId newGate }, nextId⟩
  | _ => .error ("Not a gate: " ++ elementId)

variable (toUpperCase : String → String)

/-- The wires of the pins that the new type does not have are removed. -/
def changeFbType (s : Editor) (fbId newFbType : String) : Except String Editor :=
  match s.graph.findNode fbId with
  | some ⟨_, .fb fbType, _, _⟩ =>
      if fbType = newFbType then .ok s
      else
        let (newFb, nextId) := createFbWithPins toUpperCase newFbType s.nextId
        let validPins := (newFb.inputPorts ++ newFb.outputPorts).map Pin.name
        .ok
          ⟨{ s.graph with
              nodes := replaceNode s.graph.nodes fbId newFb
              edges := s.graph.edges.filter fun e =>
                !((e.sourceId == fbId && !validPins.contains e.sourcePortName) ||
                  (e.targetId == fbId && !validPins.contains e.targetPortName)) }, nextId⟩
  | _ => .error ("Not an FB: " ++ fbId)

def createFunctionBlock (s : Editor) (fbType : String) : Editor :=
  let (fb, nextId) := createFbWithPins toUpperCase fbType s.nextId
  ⟨{ s.graph with nodes := s.graph.nodes ++ [fb] }, nextId⟩

/-- The editor after an operation. -/
def apply (s : Editor) : Operation → Except String Editor
  | .createGate gateType => .ok (createGateOp s gateType)
  | .createFunctionBlock fbType => .ok (createFunctionBlock toUpperCase s fbType)
  | .deleteElement elementId => deleteElement s elementId
  | .connectPins params => connectPins s params
  | .disconnectPin nodeId portName => disconnectPin s nodeId portName
  | .changeGateType elementId newGateType => changeGateType s elementId newGateType
  | .changeFbType fbId newFbType => changeFbType toUpperCase s fbId newFbType

/-- A step is an operation that succeeds. -/
def step (s : Editor) (op : Operation) : Option Editor := (apply toUpperCase s op).toOption

/-- An empty graph, at any value of the counter. -/
def emptyEditor (id : String) (nextId : ℕ) : Editor := ⟨⟨id, [], []⟩, nextId⟩

/-! ### What the editor promises -/

/-- Two wires into one pin. -/
def Edge.SameTarget (e e' : Edge) : Prop :=
  e.targetId = e'.targetId ∧ e.targetPortName = e'.targetPortName

instance (e e' : Edge) : Decidable (e.SameTarget e') := inferInstanceAs (Decidable (_ ∧ _))

instance : Std.Symm fun e e' : Edge => ¬e.SameTarget e' :=
  ⟨fun _ _ h h' => h ⟨h'.1.symm, h'.2.symm⟩⟩

/-- The checks of the wires find no error, and each input pin has at most one wire. -/
structure Diagram (graph : FbdGraph) : Prop where
  wires : ∀ f ∈ graph.wireFindings, f.severity ≠ .error
  single : graph.edges.Pairwise fun e e' => ¬e.SameTarget e'

variable {graph : FbdGraph}

theorem diagram_iff_and :
    Diagram graph ↔ (∀ f ∈ graph.wireFindings, f.severity ≠ .error) ∧
      graph.edges.Pairwise fun e e' => ¬e.SameTarget e' :=
  ⟨fun h => ⟨h.wires, h.single⟩, fun h => ⟨h.1, h.2⟩⟩

instance (graph : FbdGraph) : Decidable (Diagram graph) := decidable_of_iff' _ diagram_iff_and

/-- The operations that keep the promise: a wire goes into a pin that has no other one, and
a gate whose type changes keeps the pins that have wires. -/
def Keeps (s : Editor) : Operation → Prop
  | .connectPins p =>
      ∀ e ∈ s.graph.edges, e.targetId = p.targetNodeId → e.targetPortName = p.targetPortName →
        e.sourceId = p.sourceNodeId ∧ e.sourcePortName = p.sourcePortName
  | .changeGateType elementId newGateType =>
      ∀ e ∈ s.graph.edges, e.targetId = elementId →
        e.targetPortName ∈ getDefaultInputPinNames newGateType
  | _ => True

/-! ### The ids and the pins -/

/-- The id has been given out. -/
def Issued (nextId : ℕ) (kinds : List String) (id : String) : Prop :=
  ∃ kind ∈ kinds, ∃ number ≤ nextId, id = idOf kind number

/-- The ids differ and have been given out, and every node has the pins of its kind. -/
structure Consistent (s : Editor) : Prop where
  nodes : (s.graph.nodes.map Node.id).Nodup
  issued : ∀ n ∈ s.graph.nodes, Issued s.nextId ["gate", "fb"] n.id
  made : ∀ n ∈ s.graph.nodes, n.Made toUpperCase
  edges : (s.graph.edges.map Edge.id).Nodup
  issuedEdges : ∀ e ∈ s.graph.edges, Issued s.nextId ["signal"] e.id

variable {toUpperCase} {s t : Editor} {id : String} {nextId : ℕ}

theorem Issued.mono {nextId' : ℕ} {kinds : List String} (h : Issued nextId kinds id)
    (hle : nextId ≤ nextId') : Issued nextId' kinds id := by
  obtain ⟨kind, hkind, number, hnumber, rfl⟩ := h
  exact ⟨kind, hkind, number, hnumber.trans hle, rfl⟩

theorem idOf_gate_ne_fb (m n : ℕ) : idOf "gate" m ≠ idOf "fb" n := by
  intro h
  have hhead := congrArg (fun id => id.toList.head?) h
  simp [idOf, String.toList_append] at hhead

/-- A new id has not been given out. -/
theorem Issued.ne_idOf (h : Issued nextId ["gate", "fb"] id) {kind : String}
    (hkind : kind ∈ ["gate", "fb"]) : id ≠ idOf kind (nextId + 1) := by
  obtain ⟨kind', hkind', number, hnumber, rfl⟩ := h
  have hsame : idOf kind number ≠ idOf kind (nextId + 1) := fun heq => by
    have := idOf_injective heq
    omega
  rcases List.mem_pair.mp hkind with rfl | rfl <;> rcases List.mem_pair.mp hkind' with rfl | rfl
  · exact hsame
  · exact (idOf_gate_ne_fb _ _).symm
  · exact idOf_gate_ne_fb _ _
  · exact hsame

theorem Issued.ne_signal (h : Issued nextId ["signal"] id) : id ≠ idOf "signal" (nextId + 1) := by
  obtain ⟨kind, hkind, number, hnumber, rfl⟩ := h
  obtain rfl := List.mem_singleton.mp hkind
  intro heq
  have := idOf_injective heq
  omega

/-! ### The nodes of an id -/

theorem hasPin_iff (hnodup : (graph.nodes.map Node.id).Nodup) {allowed : PinDirection → Bool}
    {name : String} :
    graph.HasPin allowed id name ↔ ∃ n ∈ graph.nodes, n.id = id ∧
      ∃ pin, n.findPin name = some pin ∧ allowed pin.direction = true := by
  simp only [FbdGraph.HasPin, nodeById_iff hnodup, and_assoc]

/-- A node after the node of an id has been exchanged. -/
def retyped (nodeId : String) (node n : Node) : Node :=
  if n.id = nodeId then { node with id := nodeId } else n

@[simp] theorem retyped_id (nodeId : String) (node n : Node) :
    (retyped nodeId node n).id = n.id := by
  rw [retyped]
  by_cases h : n.id = nodeId
  · rw [if_pos h, h]
  · rw [if_neg h]

variable {nodes : List Node}

theorem replaceNode_eq_map (hnodup : (nodes.map Node.id).Nodup) (nodeId : String) (node : Node) :
    replaceNode nodes nodeId node = nodes.map (retyped nodeId node) := by
  induction nodes with
  | nil => rfl
  | cons n nodes ih =>
      rw [List.map_cons, List.nodup_cons] at hnodup
      have ih := ih hnodup.2
      rw [replaceNode] at ih
      rw [replaceNode, List.findIdx?_cons, List.map_cons]
      by_cases hid : n.id = nodeId
      · have hrest : nodes.map (retyped nodeId node) = nodes := by
          rw [List.map_congr_left (g := id) fun m hm => ?_, List.map_id]
          refine if_neg fun hm' => hnodup.1 ?_
          rw [hid, ← hm']
          exact List.mem_map_of_mem hm
        simp [hid, hrest, retyped]
      · rw [← ih, retyped, if_neg hid]
        cases hfind : nodes.findIdx? fun m => m.id == nodeId <;> simp [hid]

theorem map_id_replaceNode (hnodup : (nodes.map Node.id).Nodup) (nodeId : String) (node : Node) :
    (replaceNode nodes nodeId node).map Node.id = nodes.map Node.id := by
  rw [replaceNode_eq_map hnodup, List.map_map]
  exact List.map_congr_left fun n _ => retyped_id nodeId node n

/-! ### What the operations do -/

theorem deleteElement_ok {elementId : String} (h : deleteElement s elementId = .ok t) :
    t = { s with
          graph.nodes := s.graph.nodes.filter fun n => n.id != elementId
          graph.edges := s.graph.edges.filter fun e =>
            e.sourceId != elementId && e.targetId != elementId } := by
  rw [deleteElement] at h
  cases hnode : s.graph.findNode elementId with
  | none => rw [hnode] at h; cases h
  | some n =>
      rw [hnode] at h
      exact (Except.ok.inj h).symm

theorem disconnectPin_ok {nodeId portName : String} (h : disconnectPin s nodeId portName = .ok t) :
    t = { s with
          graph.edges := s.graph.edges.filter fun e =>
            !((e.sourceId == nodeId && e.sourcePortName == portName) ||
              (e.targetId == nodeId && e.targetPortName == portName)) } := by
  rw [disconnectPin] at h
  cases hnode : s.graph.findNode nodeId with
  | none => rw [hnode] at h; cases h
  | some n =>
      rw [hnode] at h
      exact (Except.ok.inj h).symm

theorem validatePin_ok {nodeId portName role : String} {pin : Pin}
    (h : validatePin graph nodeId portName role = .ok pin) :
    ∃ n, graph.findNode nodeId = some n ∧ n.findPin portName = some pin := by
  rw [validatePin] at h
  cases hnode : graph.findNode nodeId with
  | none => rw [hnode] at h; cases h
  | some n =>
      rw [hnode] at h
      dsimp only at h
      cases hpin : n.findPin portName with
      | none => rw [hpin] at h; cases h
      | some p =>
          rw [hpin] at h
          exact ⟨n, rfl, hpin.trans (congrArg some (Except.ok.inj h))⟩

/-- The wire that `connectPins` draws. -/
def ConnectPinsParams.edge (p : ConnectPinsParams) (id : String) : Edge :=
  ⟨id, p.sourceNodeId, p.sourcePortName, p.targetNodeId, p.targetPortName⟩

/-- The test for a wire between the same pins. -/
theorem ConnectPinsParams.exists_edge_iff (p : ConnectPinsParams) {edges : List Edge} :
    (∃ id, p.edge id ∈ edges) ↔
      (edges.any fun e =>
        e.sourceId == p.sourceNodeId && e.sourcePortName == p.sourcePortName &&
          e.targetId == p.targetNodeId && e.targetPortName == p.targetPortName) = true := by
  rw [List.any_eq_true]
  constructor
  · rintro ⟨id, hmem⟩
    exact ⟨_, hmem, by simp [edge]⟩
  · rintro ⟨e, he, heq⟩
    simp only [Bool.and_eq_true, beq_iff_eq] at heq
    obtain ⟨⟨⟨h₁, h₂⟩, h₃⟩, h₄⟩ := heq
    exact ⟨e.id, by rwa [edge, ← h₁, ← h₂, ← h₃, ← h₄]⟩

theorem connectPins_ok {p : ConnectPinsParams} (h : connectPins s p = .ok t) :
    (∃ n, s.graph.findNode p.sourceNodeId = some n ∧ n.IsSource p.sourcePortName) ∧
      (∃ n, s.graph.findNode p.targetNodeId = some n ∧ n.IsTarget p.targetPortName) ∧
      ((∃ id, p.edge id ∈ s.graph.edges) ∧ t = s ∨
        (∀ id, p.edge id ∉ s.graph.edges) ∧
          t = ⟨{ s.graph with
                  edges := s.graph.edges ++ [p.edge (idOf "signal" (s.nextId + 1))] },
                s.nextId + 1⟩) := by
  rw [connectPins] at h
  cases hsrc : validatePin s.graph p.sourceNodeId p.sourcePortName "source" with
  | error e => rw [hsrc] at h; cases h
  | ok srcPin =>
      cases htgt : validatePin s.graph p.targetNodeId p.targetPortName "target" with
      | error e => rw [hsrc, htgt] at h; cases h
      | ok tgtPin =>
          rw [hsrc, htgt] at h
          obtain ⟨m, hm, hmpin⟩ := validatePin_ok hsrc
          obtain ⟨n, hn, hnpin⟩ := validatePin_ok htgt
          change ite _ _ _ = _ at h
          cases hsource : srcPin.direction.isSource with
          | false => rw [hsource] at h; cases h
          | true =>
              cases htarget : tgtPin.direction.isTarget with
              | false => rw [hsource, htarget] at h; cases h
              | true =>
                  rw [hsource, htarget, if_neg (by decide), if_neg (by decide)] at h
                  refine ⟨⟨m, hm, srcPin, hmpin, hsource⟩, ⟨n, hn, tgtPin, hnpin, htarget⟩, ?_⟩
                  rw [ite_eq_iff] at h
                  obtain ⟨-, h⟩ | ⟨-, h⟩ := h
                  · cases h
                  · rw [ite_eq_iff] at h
                    obtain ⟨hdup, h⟩ | ⟨hdup, h⟩ := h
                    · exact Or.inl ⟨p.exists_edge_iff.mpr hdup, (Except.ok.inj h).symm⟩
                    · refine Or.inr ⟨?_, (Except.ok.inj h).symm⟩
                      rwa [← not_exists, p.exists_edge_iff]

theorem changeGateType_ok {elementId : String} {newGateType : GateType}
    (h : changeGateType s elementId newGateType = .ok t) :
    ∃ n gateType, s.graph.findNode elementId = some n ∧ n.kind = .gate gateType ∧
      (gateType = newGateType ∧ t = s ∨
        gateType ≠ newGateType ∧
          t = ⟨{ s.graph with
                  nodes := replaceNode s.graph.nodes elementId
                    (createGate newGateType s.nextId).1 }, s.nextId + 1⟩) := by
  rw [changeGateType] at h
  cases hnode : s.graph.findNode elementId with
  | none => rw [hnode] at h; cases h
  | some n =>
      obtain ⟨id, kind, inputs, outputs⟩ := n
      cases kind with
      | fb fbType => rw [hnode] at h; cases h
      | gate gateType =>
          rw [hnode] at h
          refine ⟨_, gateType, rfl, rfl, ?_⟩
          by_cases hsame : gateType = newGateType
          · dsimp only at h
            rw [if_pos hsame] at h
            exact Or.inl ⟨hsame, (Except.ok.inj h).symm⟩
          · dsimp only at h
            rw [if_neg hsame] at h
            exact Or.inr ⟨hsame, (Except.ok.inj h).symm⟩

/-- The wires that a function block of a new type keeps. -/
def keptWires (toUpperCase : String → String) (edges : List Edge) (fbId newFbType : String) :
    List Edge :=
  let validPins := (fbInputs toUpperCase newFbType ++ fbOutputs toUpperCase newFbType).map Pin.name
  edges.filter fun e =>
    !((e.sourceId == fbId && !validPins.contains e.sourcePortName) ||
      (e.targetId == fbId && !validPins.contains e.targetPortName))

theorem changeFbType_ok {fbId newFbType : String}
    (h : changeFbType toUpperCase s fbId newFbType = .ok t) :
    ∃ n fbType, s.graph.findNode fbId = some n ∧ n.kind = .fb fbType ∧
      (t = s ∨
        t = ⟨{ s.graph with
                nodes := replaceNode s.graph.nodes fbId
                  (createFbWithPins toUpperCase newFbType s.nextId).1
                edges := keptWires toUpperCase s.graph.edges fbId newFbType }, s.nextId + 1⟩) := by
  rw [changeFbType] at h
  cases hnode : s.graph.findNode fbId with
  | none => rw [hnode] at h; cases h
  | some n =>
      obtain ⟨id, kind, inputs, outputs⟩ := n
      cases kind with
      | gate gateType => rw [hnode] at h; cases h
      | fb fbType =>
          rw [hnode] at h
          refine ⟨_, fbType, rfl, rfl, ?_⟩
          dsimp only at h
          by_cases hsame : fbType = newFbType
          · rw [if_pos hsame] at h
            exact Or.inl (Except.ok.inj h).symm
          · rw [if_neg hsame] at h
            exact Or.inr (Except.ok.inj h).symm

/-! ### What every operation keeps -/

variable {n : Node}

/-- A new node. -/
theorem Consistent.addNode (hs : Consistent toUpperCase s) {kind : String}
    (hkind : kind ∈ ["gate", "fb"]) (hid : n.id = idOf kind (s.nextId + 1))
    (hmade : n.Made toUpperCase) :
    Consistent toUpperCase ⟨{ s.graph with nodes := s.graph.nodes ++ [n] }, s.nextId + 1⟩ where
  nodes := by
    rw [List.map_append, List.nodup_append]
    refine ⟨hs.nodes, List.nodup_singleton _, fun id hmem id' hmem' => ?_⟩
    obtain ⟨m, hm, rfl⟩ := List.mem_map.mp hmem
    rw [List.mem_singleton.mp hmem', hid]
    exact (hs.issued m hm).ne_idOf hkind
  issued m hm := by
    rcases List.mem_append.mp hm with hm | hm
    · exact (hs.issued m hm).mono (Nat.le_succ _)
    · rw [List.mem_singleton.mp hm]
      exact ⟨kind, hkind, _, le_rfl, hid⟩
  made m hm := by
    rcases List.mem_append.mp hm with hm | hm
    · exact hs.made m hm
    · rwa [List.mem_singleton.mp hm]
  edges := hs.edges
  issuedEdges e he := (hs.issuedEdges e he).mono (Nat.le_succ _)

/-- Some nodes and some edges less. -/
theorem Consistent.sublist (hs : Consistent toUpperCase s) {edges : List Edge}
    (hnodes : nodes.Sublist s.graph.nodes) (hedges : edges.Sublist s.graph.edges) :
    Consistent toUpperCase { s with graph.nodes := nodes, graph.edges := edges } where
  nodes := hs.nodes.sublist (hnodes.map _)
  issued n hn := hs.issued n (hnodes.subset hn)
  made n hn := hs.made n (hnodes.subset hn)
  edges := hs.edges.sublist (hedges.map _)
  issuedEdges e he := hs.issuedEdges e (hedges.subset he)

/-- A node of a new type. -/
theorem Consistent.replace (hs : Consistent toUpperCase s) {edges : List Edge}
    (hmade : n.Made toUpperCase) (hedges : edges.Sublist s.graph.edges) :
    Consistent toUpperCase
      ⟨{ s.graph with nodes := replaceNode s.graph.nodes id n, edges }, s.nextId + 1⟩ where
  nodes := by
    rw [map_id_replaceNode hs.nodes]
    exact hs.nodes
  issued m hm := by
    rw [replaceNode_eq_map hs.nodes] at hm
    obtain ⟨m', hm', rfl⟩ := List.mem_map.mp hm
    rw [retyped_id]
    exact (hs.issued m' hm').mono (Nat.le_succ _)
  made m hm := by
    rw [replaceNode_eq_map hs.nodes] at hm
    obtain ⟨m', hm', rfl⟩ := List.mem_map.mp hm
    rw [retyped]
    by_cases hid : m'.id = id
    · rw [if_pos hid]
      exact hmade
    · rw [if_neg hid]
      exact hs.made m' hm'
  edges := hs.edges.sublist (hedges.map _)
  issuedEdges e he := (hs.issuedEdges e (hedges.subset he)).mono (Nat.le_succ _)

/-- A new wire. -/
theorem Consistent.addEdge (hs : Consistent toUpperCase s) {e : Edge}
    (hid : e.id = idOf "signal" (s.nextId + 1)) :
    Consistent toUpperCase ⟨{ s.graph with edges := s.graph.edges ++ [e] }, s.nextId + 1⟩ where
  nodes := hs.nodes
  issued n hn := (hs.issued n hn).mono (Nat.le_succ _)
  made := hs.made
  edges := by
    rw [List.map_append, List.nodup_append]
    refine ⟨hs.edges, List.nodup_singleton _, fun id hmem id' hmem' => ?_⟩
    obtain ⟨e', he', rfl⟩ := List.mem_map.mp hmem
    rw [List.mem_singleton.mp hmem', hid]
    exact (hs.issuedEdges e' he').ne_signal
  issuedEdges e' he' := by
    rcases List.mem_append.mp he' with he' | he'
    · exact (hs.issuedEdges e' he').mono (Nat.le_succ _)
    · rw [List.mem_singleton.mp he']
      exact ⟨"signal", by simp, _, le_rfl, hid⟩

theorem createGate_made (gateType : GateType) (nextId : ℕ) :
    (createGate gateType nextId).1.Made toUpperCase := ⟨rfl, rfl⟩

theorem createFbWithPins_made (fbType : String) (nextId : ℕ) :
    (createFbWithPins toUpperCase fbType nextId).1.Made toUpperCase := ⟨rfl, rfl⟩

theorem step_eq_some {op : Operation} (h : step toUpperCase s op = some t) :
    apply toUpperCase s op = .ok t := by
  rw [step] at h
  cases happly : apply toUpperCase s op with
  | error e => rw [happly] at h; cases h
  | ok u =>
      rw [happly] at h
      exact congrArg Except.ok (Option.some.inj h)

theorem Consistent.step (hs : Consistent toUpperCase s) {op : Operation}
    (h : step toUpperCase s op = some t) : Consistent toUpperCase t := by
  have happly := step_eq_some h
  cases op with
  | createGate gateType =>
      obtain rfl := Except.ok.inj happly
      exact hs.addNode (by simp) rfl (createGate_made gateType s.nextId)
  | createFunctionBlock fbType =>
      obtain rfl := Except.ok.inj happly
      exact hs.addNode (by simp) rfl (createFbWithPins_made fbType s.nextId)
  | deleteElement elementId =>
      rw [deleteElement_ok happly]
      exact hs.sublist List.filter_sublist List.filter_sublist
  | connectPins p =>
      obtain ⟨-, -, ⟨-, rfl⟩ | ⟨-, rfl⟩⟩ := connectPins_ok happly
      · exact hs
      · exact hs.addEdge rfl
  | disconnectPin nodeId portName =>
      rw [disconnectPin_ok happly]
      exact hs.sublist (List.Sublist.refl _) List.filter_sublist
  | changeGateType elementId newGateType =>
      obtain ⟨n, gateType, -, -, ⟨-, rfl⟩ | ⟨-, rfl⟩⟩ := changeGateType_ok happly
      · exact hs
      · exact hs.replace (createGate_made newGateType s.nextId) (List.Sublist.refl _)
  | changeFbType fbId newFbType =>
      obtain ⟨n, fbType, -, -, rfl | rfl⟩ := changeFbType_ok happly
      · exact hs
      · exact hs.replace (createFbWithPins_made newFbType s.nextId) List.filter_sublist

/-! ### What keeps the diagram -/

/-- The name of a source is the name of an output pin. -/
theorem Node.Made.outputName (hmade : n.Made toUpperCase) {name : String} (h : n.IsSource name) :
    isOutputName name = true := by
  obtain ⟨p, hp, rfl⟩ := List.mem_map.mp (hmade.isSource_iff.mp h)
  rw [hmade.2] at hp
  exact (NodeKind.of_mem_outputs hp).2

/-- The name of a target is not the name of an output pin. -/
theorem Node.Made.not_outputName (hmade : n.Made toUpperCase) {name : String}
    (h : n.IsTarget name) : isOutputName name = false := by
  obtain ⟨p, hp, rfl⟩ := List.mem_map.mp (hmade.isTarget_iff.mp h)
  rw [hmade.1] at hp
  exact (NodeKind.of_mem_inputs hp).2

theorem Consistent.fits_iff (hs : Consistent toUpperCase s) {e : Edge} :
    s.graph.Fits e ↔
      (∃ n ∈ s.graph.nodes, n.id = e.sourceId ∧ n.IsSource e.sourcePortName) ∧
        ∃ n ∈ s.graph.nodes, n.id = e.targetId ∧ n.IsTarget e.targetPortName := by
  rw [FbdGraph.Fits, hasPin_iff hs.nodes, hasPin_iff hs.nodes]
  rfl

/-- A wire whose nodes stay. -/
theorem Consistent.fits_of_nodes (hs : Consistent toUpperCase s) (ht : Consistent toUpperCase t)
    {e : Edge} (hnodes : ∀ n ∈ s.graph.nodes, n.id = e.sourceId ∨ n.id = e.targetId →
      n ∈ t.graph.nodes) (h : s.graph.Fits e) : t.graph.Fits e := by
  obtain ⟨⟨m, hm, hmid, hsource⟩, n, hn, hnid, htarget⟩ := hs.fits_iff.mp h
  exact ht.fits_iff.mpr ⟨⟨m, hnodes m hm (Or.inl hmid), hmid, hsource⟩, n,
    hnodes n hn (Or.inr hnid), hnid, htarget⟩

/-- A wire after a node has a new type. -/
theorem Consistent.fits_replace (hs : Consistent toUpperCase s) (ht : Consistent toUpperCase t)
    (hmade : n.Made toUpperCase) (id : String)
    (hnodes : t.graph.nodes = replaceNode s.graph.nodes id n) {e : Edge} (h : s.graph.Fits e) :
    t.graph.Fits e ↔
      (e.sourceId = id → e.sourcePortName ∈ n.outputPorts.map Pin.name) ∧
        (e.targetId = id → e.targetPortName ∈ n.inputPorts.map Pin.name) := by
  obtain ⟨⟨m₁, hm₁, hid₁, hsource⟩, m₂, hm₂, hid₂, htarget⟩ := hs.fits_iff.mp h
  have hmem : ∀ m ∈ s.graph.nodes, retyped id n m ∈ t.graph.nodes := by
    intro m hm
    rw [hnodes, replaceNode_eq_map hs.nodes]
    exact List.mem_map_of_mem hm
  have hback : ∀ m ∈ t.graph.nodes, m.id = id → m = { n with id := id } := by
    intro m hm hmid
    rw [hnodes, replaceNode_eq_map hs.nodes] at hm
    obtain ⟨m', hm', rfl⟩ := List.mem_map.mp hm
    rw [retyped_id] at hmid
    exact if_pos hmid
  rw [ht.fits_iff]
  constructor
  · rintro ⟨⟨k₁, hk₁, hkid₁, hk₁source⟩, k₂, hk₂, hkid₂, hk₂target⟩
    refine ⟨fun hid => ?_, fun hid => ?_⟩
    · rw [hback k₁ hk₁ (hkid₁.trans hid)] at hk₁source
      exact hmade.isSource_iff.mp hk₁source
    · rw [hback k₂ hk₂ (hkid₂.trans hid)] at hk₂target
      exact hmade.isTarget_iff.mp hk₂target
  · rintro ⟨hout, hin⟩
    refine ⟨⟨retyped id n m₁, hmem m₁ hm₁, by rw [retyped_id, hid₁], ?_⟩,
      retyped id n m₂, hmem m₂ hm₂, by rw [retyped_id, hid₂], ?_⟩
    · rw [retyped]
      by_cases hid : m₁.id = id
      · rw [if_pos hid]
        exact hmade.isSource_iff.mpr (hout (hid₁.symm.trans hid))
      · rwa [if_neg hid]
    · rw [retyped]
      by_cases hid : m₂.id = id
      · rw [if_pos hid]
        exact hmade.isTarget_iff.mpr (hin (hid₂.symm.trans hid))
      · rwa [if_neg hid]

/-- A wire that a function block of a new type keeps fits. -/
theorem Consistent.fits_keptWires (hs : Consistent toUpperCase s) (ht : Consistent toUpperCase t)
    {fbId newFbType : String}
    (hnodes : t.graph.nodes = replaceNode s.graph.nodes fbId
        (createFbWithPins toUpperCase newFbType nextId).1)
    {e : Edge} (h : s.graph.Fits e) (he : e ∈ keptWires toUpperCase s.graph.edges fbId newFbType) :
    t.graph.Fits e := by
  have hmade : (createFbWithPins toUpperCase newFbType nextId).1.Made toUpperCase :=
    createFbWithPins_made newFbType nextId
  obtain ⟨⟨m, hm, hmid, hsource⟩, n, hn, hnid, htarget⟩ := hs.fits_iff.mp h
  have hout := (hs.made m hm).outputName hsource
  have hin := (hs.made n hn).not_outputName htarget
  obtain ⟨-, hkept⟩ := List.mem_filter.mp he
  simp only [Bool.not_eq_true', Bool.or_eq_false_iff, Bool.and_eq_false_iff, beq_eq_false_iff_ne,
    Bool.not_eq_false', List.contains_iff_mem, List.map_append, List.mem_append] at hkept
  refine (hs.fits_replace ht hmade fbId hnodes h).mpr ⟨fun hid => ?_, fun hid => ?_⟩
  · rcases hkept.1.resolve_left (absurd hid) with hmem | hmem
    · obtain ⟨p, hp, hname⟩ := List.mem_map.mp hmem
      have hname' := (fbInputs_tellDirections hp).2
      rw [hname, hout] at hname'
      cases hname'
    · exact hmem
  · rcases hkept.2.resolve_left (absurd hid) with hmem | hmem
    · exact hmem
    · obtain ⟨p, hp, hname⟩ := List.mem_map.mp hmem
      have hname' := (fbOutputs_tellDirections hp).2
      rw [hname, hin] at hname'
      cases hname'

theorem gateInputs_names (gateType : GateType) :
    (gateInputs gateType).map Pin.name = getDefaultInputPinNames gateType := by
  rw [gateInputs, List.map_map]
  exact List.map_id _

/-- The pins of a gate that a wire uses. -/
theorem Consistent.gate_ends (hs : Consistent toUpperCase s) {gateType : GateType}
    (hn : s.graph.findNode id = some n) (hkind : n.kind = .gate gateType) {e : Edge}
    (h : s.graph.Fits e) :
    (e.sourceId = id → e.sourcePortName ∈ gateOutputs.map Pin.name) ∧
      (e.targetId = id → e.targetPortName ∈ getDefaultInputPinNames gateType) := by
  obtain ⟨hmem, hnid⟩ := (findNode_iff hs.nodes).mp hn
  have hmade := hs.made n hmem
  obtain ⟨⟨m₁, hm₁, hid₁, hsource⟩, m₂, hm₂, hid₂, htarget⟩ := hs.fits_iff.mp h
  refine ⟨fun hid => ?_, fun hid => ?_⟩
  · obtain rfl := List.inj_on_of_nodup_map hs.nodes hm₁ hmem (by rw [hid₁, hid, hnid])
    have hname := hmade.isSource_iff.mp hsource
    rwa [hmade.2, hkind] at hname
  · obtain rfl := List.inj_on_of_nodup_map hs.nodes hm₂ hmem (by rw [hid₂, hid, hnid])
    have hname := hmade.isTarget_iff.mp htarget
    rwa [hmade.1, hkind, NodeKind.inputs, gateInputs_names] at hname

theorem diagram_iff_fits :
    Diagram graph ↔ (∀ e ∈ graph.edges, graph.Fits e) ∧
      graph.edges.Pairwise fun e e' => ¬e.SameTarget e' := by
  rw [diagram_iff_and, no_wire_errors_iff]

/-- The graph after an operation is a diagram iff the operation keeps the promise. -/
theorem diagram_iff (hs : Consistent toUpperCase s) (hd : Diagram s.graph) {op : Operation}
    (h : step toUpperCase s op = some t) : Diagram t.graph ↔ Keeps s op := by
  have ht := hs.step h
  have happly := step_eq_some h
  obtain ⟨hfits, hsingle⟩ := diagram_iff_fits.mp hd
  rw [diagram_iff_fits]
  cases op with
  | createGate gateType =>
      obtain rfl := Except.ok.inj happly
      refine iff_of_true ⟨fun e he => ?_, hsingle⟩ trivial
      exact hs.fits_of_nodes ht (fun n hn _ => List.mem_append_left _ hn) (hfits e he)
  | createFunctionBlock fbType =>
      obtain rfl := Except.ok.inj happly
      refine iff_of_true ⟨fun e he => ?_, hsingle⟩ trivial
      exact hs.fits_of_nodes ht (fun n hn _ => List.mem_append_left _ hn) (hfits e he)
  | deleteElement elementId =>
      obtain rfl := deleteElement_ok happly
      refine iff_of_true ⟨fun e he => ?_, hsingle.sublist List.filter_sublist⟩ trivial
      obtain ⟨he, hkept⟩ := List.mem_filter.mp he
      simp only [Bool.and_eq_true, bne_iff_ne, ne_eq] at hkept
      refine hs.fits_of_nodes ht (fun n hn hid => List.mem_filter.mpr ⟨hn, ?_⟩) (hfits e he)
      rcases hid with hid | hid
      · simpa [hid] using hkept.1
      · simpa [hid] using hkept.2
  | connectPins p =>
      obtain ⟨⟨m, hm, hsource⟩, ⟨n, hn, htarget⟩, ⟨⟨id, hdup⟩, rfl⟩ | ⟨hnew, rfl⟩⟩ :=
        connectPins_ok happly
      · -- the wire is there already, and no other one ends at the pin
        refine iff_of_true ⟨hfits, hsingle⟩ fun e he hid hname => ?_
        have hsame : e = p.edge id := by
          by_contra hne
          exact hsingle.forall he hdup hne ⟨hid, hname⟩
        rw [hsame]
        exact ⟨rfl, rfl⟩
      · have hfits' : ∀ e ∈ s.graph.edges ++ [p.edge (idOf "signal" (s.nextId + 1))],
            FbdGraph.Fits ⟨s.graph.id, s.graph.nodes,
              s.graph.edges ++ [p.edge (idOf "signal" (s.nextId + 1))]⟩ e := by
          intro e he
          rcases List.mem_append.mp he with he | he
          · exact hs.fits_of_nodes ht (fun n hn _ => hn) (hfits e he)
          · obtain rfl := List.mem_singleton.mp he
            obtain ⟨hmem, hid⟩ := (findNode_iff hs.nodes).mp hm
            obtain ⟨hmem', hid'⟩ := (findNode_iff hs.nodes).mp hn
            exact ht.fits_iff.mpr ⟨⟨m, hmem, hid, hsource⟩, n, hmem', hid', htarget⟩
        rw [List.pairwise_append]
        constructor
        · rintro ⟨-, -, -, hcross⟩ e he hid hname
          exact absurd ⟨hid, hname⟩ (hcross e he _ List.mem_cons_self)
        · intro hkeeps
          refine ⟨hfits', hsingle, List.pairwise_singleton _ _, fun e he e' he' => ?_⟩
          obtain rfl := List.mem_singleton.mp he'
          rintro ⟨hid, hname⟩
          obtain ⟨hsid, hsname⟩ := hkeeps e he hid hname
          refine hnew e.id ?_
          have hsame : p.edge e.id = e := by
            rw [ConnectPinsParams.edge, ← hsid, ← hsname]
            exact congrArg₂ (Edge.mk e.id e.sourceId e.sourcePortName) hid.symm hname.symm
          rwa [hsame]
  | disconnectPin nodeId portName =>
      obtain rfl := disconnectPin_ok happly
      refine iff_of_true ⟨fun e he => ?_, hsingle.sublist List.filter_sublist⟩ trivial
      exact hs.fits_of_nodes ht (fun n hn _ => hn) (hfits e (List.mem_filter.mp he).1)
  | changeGateType elementId newGateType =>
      obtain ⟨n, gateType, hn, hkind, ⟨rfl, rfl⟩ | ⟨-, rfl⟩⟩ := changeGateType_ok happly
      · exact iff_of_true ⟨hfits, hsingle⟩ fun e he =>
          (hs.gate_ends hn hkind (hfits e he)).2
      · have hreplace := fun e he => hs.fits_replace ht (createGate_made newGateType s.nextId)
          elementId rfl (hfits e he)
        constructor
        · rintro ⟨hfits', -⟩ e he hid
          rw [← gateInputs_names]
          exact ((hreplace e he).mp (hfits' e he)).2 hid
        · intro hkeeps
          refine ⟨fun e he => (hreplace e he).mpr ⟨?_, fun hid => ?_⟩, hsingle⟩
          · exact (hs.gate_ends hn hkind (hfits e he)).1
          · have hname := hkeeps e he hid
            rw [← gateInputs_names] at hname
            exact hname
  | changeFbType fbId newFbType =>
      obtain ⟨n, fbType, -, -, rfl | rfl⟩ := changeFbType_ok happly
      · exact iff_of_true ⟨hfits, hsingle⟩ trivial
      · refine iff_of_true ⟨fun e he => ?_, hsingle.sublist List.filter_sublist⟩ trivial
        exact hs.fits_keptWires ht rfl (hfits e (List.mem_filter.mp he).1) he

/-- Every graph on the way of a run is a diagram. -/
def ReachesDiagrams (toUpperCase : String → String) (id : String) (nextId : ℕ)
    (ops : List Operation) : Prop :=
  ∀ pre rest s, ops = pre ++ rest →
    run (step toUpperCase) (emptyEditor id nextId) pre = some s → Diagram s.graph

theorem emptyEditor_consistent (id : String) (nextId : ℕ) :
    Consistent toUpperCase (emptyEditor id nextId) :=
  ⟨List.nodup_nil, nofun, nofun, List.nodup_nil, nofun⟩

/-- A run of operations that succeed reaches only diagrams iff each of them keeps the
promise. -/
theorem reachesDiagrams_iff (toUpperCase : String → String) (id : String) (nextId : ℕ)
    (ops : List Operation)
    (hrun : (run (step toUpperCase) (emptyEditor id nextId) ops).isSome = true) :
    ReachesDiagrams toUpperCase id nextId ops ↔
      EveryStep (step toUpperCase) Keeps (emptyEditor id nextId) ops :=
  reached_iff_everyStep (fun _ _ _ hs hstep => hs.step hstep)
    (fun _ _ _ hs hd hstep => diagram_iff hs hd hstep) (emptyEditor_consistent id nextId)
    ⟨nofun, .nil⟩ hrun

/-- A wire between two gates, of which the second one gets a type that has the pin. -/
theorem reachesDiagrams_iff_retyped :
    ReachesDiagrams String.toUpper "fbdgraph-1" 1
        [.createGate .and, .createGate .or, .connectPins ⟨"gate-2", "OUT", "gate-3", "IN1"⟩,
          .changeGateType "gate-3" .mux, .disconnectPin "gate-2" "OUT"] ↔
      EveryStep (step String.toUpper) Keeps (emptyEditor "fbdgraph-1" 1)
        [.createGate .and, .createGate .or, .connectPins ⟨"gate-2", "OUT", "gate-3", "IN1"⟩,
          .changeGateType "gate-3" .mux, .disconnectPin "gate-2" "OUT"] :=
  reachesDiagrams_iff String.toUpper "fbdgraph-1" 1 _ (by decide)

theorem not_reachesDiagrams {ops : List Operation}
    (h : (run (step toUpperCase) (emptyEditor id nextId) ops).map (fun s =>
        decide (Diagram s.graph)) = some false) :
    ¬ReachesDiagrams toUpperCase id nextId ops := by
  intro hreach
  obtain ⟨s, hs, hdiagram⟩ := Option.map_eq_some_iff.mp h
  exact of_decide_eq_false hdiagram (hreach ops [] s (List.append_nil _).symm hs)

/-- Two wires into one pin, and a gate that loses the pin of its wire. -/
theorem two_wires_and_lost_pin :
    ¬ReachesDiagrams String.toUpper "fbdgraph-1" 1
        [.createGate .and, .createGate .or, .createGate .not,
          .connectPins ⟨"gate-2", "OUT", "gate-4", "IN"⟩,
          .connectPins ⟨"gate-3", "OUT", "gate-4", "IN"⟩] ∧
      ¬ReachesDiagrams String.toUpper "fbdgraph-1" 1
        [.createGate .and, .createGate .or, .connectPins ⟨"gate-2", "OUT", "gate-3", "IN1"⟩,
          .changeGateType "gate-3" .not] :=
  ⟨not_reachesDiagrams (by decide), not_reachesDiagrams (by decide)⟩

end Weftik.FbdEditor
