import Weftik.FbdEditor.Accumulator

/-!
# The Meaning of a Diagram

Every wire of a diagram has a value: the function of its source gate, applied to the values
of the wires into that gate, where an input without a wire is `FALSE`. The text computes
the values of the wires, except that a gate stores its output into the variable of a single
wire: of two wires that leave a gate, the second one keeps the value that its variable had
before the scan.

## Main definitions

* `FbdEditor.FbdGraph.IsValuation`: values of the wires as the diagram gives them.
* `FbdEditor.FbdGraph.Computes`: the text gives the wires these values.

## Main results

* `FbdEditor.isValuation_unique`: a diagram without feedback loops has one valuation.
* `FbdEditor.computes_iff`: the text computes the values iff no two wires leave one gate.
-/

open Machine Kahn

namespace Weftik.FbdEditor

namespace FbdGraph

variable (graph : FbdGraph)

/-- The value at an input pin: that of the wire into it, or `FALSE`. -/
def pinValue (value : Edge → Bool) (nodeId portName : String) : Bool :=
  match graph.edges.find? fun e => e.targetId == nodeId && e.targetPortName == portName with
  | some edge => value edge
  | none => false

/-- Each wire has the value of the function of its source gate, applied to the values at the
input pins of the gate. -/
def IsValuation (value : Edge → Bool) : Prop :=
  ∀ e ∈ graph.edges, ∀ n ∈ graph.nodes, n.id = e.sourceId → ∀ gateType, n.kind = .gate gateType →
    value e = gateType.eval (n.inputPorts.map fun pin => graph.pinValue value n.id pin.name)

/-- The variable of a wire in a memory. -/
def wireValue (memory : String → Bool) (edge : Edge) : Bool :=
  memory ((graph.labelOf edge.id).getD "")

/-- Whatever the memory holds at first, the lines of the text come to an end and leave in the
variables of the wires the values that the diagram gives them. -/
def Computes : Prop :=
  ∀ acc memory, ∃ s, Exec (IlState.step graph.ilLines) ⟨0, acc, memory⟩ (.ok s) ∧
    graph.IsValuation (graph.wireValue s.memory)

/-- A graph that the validation accepts, with at most one wire into each pin, made of gates
that have the pins of their types, and with unique ids. -/
structure GateDiagram (graph : FbdGraph) : Prop where
  valid : (validateGraph graph).valid = true
  single : graph.edges.Pairwise fun e e' =>
    ¬(e.targetId = e'.targetId ∧ e.targetPortName = e'.targetPortName)
  gates : graph.OfGates
  distinct : graph.Distinct

/-- No two wires leave the same node. -/
def OneWire : Prop := (graph.edges.map Edge.sourceId).Nodup

variable {graph}

theorem GateDiagram.fits (h : graph.GateDiagram) : ∀ e ∈ graph.edges, graph.Fits e :=
  (validateGraph_valid_iff.mp h.valid).1

theorem GateDiagram.sortable (h : graph.GateDiagram) : graph.Sortable :=
  sortable_of_validateGraph h.distinct.nodes h.valid

variable {e : Edge}

/-- The gate at the source of a wire. -/
theorem GateDiagram.source (h : graph.GateDiagram) (he : e ∈ graph.edges) :
    ∃ n ∈ graph.nodes, n.id = e.sourceId := by
  obtain ⟨n, hn, hid⟩ := List.mem_map.mp (h.sortable.ends e he).1
  exact ⟨n, hn, hid⟩

theorem GateDiagram.kind (h : graph.GateDiagram) {n : Node} (hn : n ∈ graph.nodes) :
    ∃ gateType, n.kind = .gate gateType := by
  obtain ⟨gateType, hkind, -, -⟩ := h.gates n hn
  exact ⟨gateType, hkind⟩

theorem pinValue_congr {value value' : Edge → Bool} {id : String}
    (h : ∀ e ∈ graph.edges, e.targetId = id → value e = value' e) (portName : String) :
    graph.pinValue value id portName = graph.pinValue value' id portName := by
  rw [pinValue, pinValue]
  cases hfind : graph.edges.find? fun e => e.targetId == id && e.targetPortName == portName with
  | none => rfl
  | some e =>
      have hkey := List.find?_some hfind
      rw [Bool.and_eq_true] at hkey
      exact h e (List.mem_of_find?_eq_some hfind) (eq_of_beq hkey.1)

/-- The values that the diagram gives the wires are unique. -/
theorem isValuation_unique (h : graph.GateDiagram) {value value' : Edge → Bool}
    (hvalue : graph.IsValuation value) (hvalue' : graph.IsValuation value') :
    ∀ e ∈ graph.edges, value e = value' e := by
  -- a wire has one value when the wires into its source gate have
  have hgate : ∀ id, (∀ e ∈ graph.edges, e.targetId = id → value e = value' e) →
      ∀ e ∈ graph.edges, e.sourceId = id → value e = value' e := by
    intro id hinputs e he hid
    obtain ⟨n, hn, hnid⟩ := h.source he
    obtain ⟨gateType, hkind⟩ := h.kind hn
    rw [hvalue e he n hn hnid gateType hkind, hvalue' e he n hn hnid gateType hkind]
    have hpins : ∀ name, graph.pinValue value n.id name = graph.pinValue value' n.id name :=
      pinValue_congr (by rwa [hnid, hid])
    simp only [hpins]
  have hnode : ∀ id, graph.multigraph.Fed graph.seeds id →
      ∀ e ∈ graph.edges, e.sourceId = id → value e = value' e := by
    intro id hfed
    induction hfed with
    | seed hseed =>
        exact hgate _ fun e he hid => absurd ⟨e, he, rfl, hid⟩ ((mem_seeds.mp hseed).2 e.sourceId)
    | edges _ _ ih => exact hgate _ fun e he hid => ih e.sourceId ⟨e, he, rfl, hid⟩ e he rfl
  intro e he
  exact hnode e.sourceId ((h.sortable.fed _).mpr (h.sortable.ends e he).1) e he rfl

/-! ### The variables -/

theorem lookup_of_mem {l : List (String × String)} (hkeys : (l.map Prod.fst).Nodup)
    {k v : String} (h : (k, v) ∈ l) : l.lookup k = some v := by
  obtain ⟨l₁, l₂, rfl⟩ := List.append_of_mem h
  rw [List.map_append, List.nodup_append] at hkeys
  refine List.lookup_eq_some_iff.mpr ⟨l₁, l₂, rfl, fun p hp => ?_⟩
  refine bne_iff_ne.mpr fun heq => hkeys.2.2 p.1 (List.mem_map_of_mem hp) k (by simp) heq.symm

/-- The variable of the wire with a number. -/
def numbered (k : ℕ) : String := "tmp_OUT_" ++ k.repr

theorem numbered_injective {i j : ℕ} (h : numbered i = numbered j) : i = j := by
  rw [numbered, numbered, String.append_right_inj] at h
  exact Nat.repr_injective h

theorem GateDiagram.wireLabel (h : graph.GateDiagram) (he : e ∈ graph.edges) (k : ℕ) :
    graph.wireLabel e k = numbered k := by
  obtain ⟨n, hn, hsource⟩ := (h.fits e he).1
  obtain ⟨gateType, hkind, hin, hout⟩ := h.gates n (nodeById_mem hn).1
  have hmade : n.Made (fun name => name) := by
    rw [Node.Made, hkind]
    exact ⟨hin, hout⟩
  obtain ⟨p, hp, hname⟩ := List.mem_map.mp (hmade.isSource_iff.mp hsource)
  rw [hout] at hp
  obtain rfl := List.mem_singleton.mp hp
  obtain ⟨pin, hpin, -⟩ := hsource
  have hpname : pin.name = e.sourcePortName := by simpa using List.find?_some hpin
  have hall : (some n).bind (fun n => n.findPin e.sourcePortName) = some pin := hpin
  rw [FbdGraph.wireLabel, hn, hall]
  dsimp only
  rw [hpname, ← hname]
  rfl

/-- The variable of a wire has its number. -/
theorem GateDiagram.labelOf (h : graph.GateDiagram) {k : ℕ} (hk : graph.edges[k]? = some e) :
    graph.labelOf e.id = some (numbered k) := by
  have hkeys : (graph.edges.zipIdx.map fun p => (p.1.id, graph.wireLabel p.1 p.2)).map Prod.fst =
      graph.edges.map Edge.id := by
    rw [List.map_map]
    change graph.edges.zipIdx.map (Edge.id ∘ Prod.fst) = _
    rw [← List.map_map, List.zipIdx_map_fst]
  refine lookup_of_mem ?_ (List.mem_reverse.mpr (List.mem_map.mpr ⟨(e, k), ?_, ?_⟩))
  · rw [List.map_reverse, hkeys, List.nodup_reverse]
    exact h.distinct.edges
  · exact List.mk_mem_zipIdx_iff_getElem?.mpr hk
  · rw [h.wireLabel (List.mem_of_getElem? hk)]

/-- The variable of a wire. -/
theorem GateDiagram.exists_labelOf (h : graph.GateDiagram) (he : e ∈ graph.edges) :
    ∃ k, graph.edges[k]? = some e ∧ graph.labelOf e.id = some (numbered k) := by
  obtain ⟨k, hk⟩ := List.getElem?_of_mem he
  exact ⟨k, hk, h.labelOf hk⟩

/-- Two wires have two variables. -/
theorem GateDiagram.labelOf_inj (h : graph.GateDiagram) {e' : Edge} (he : e ∈ graph.edges)
    (he' : e' ∈ graph.edges) (heq : graph.labelOf e.id = graph.labelOf e'.id) : e = e' := by
  obtain ⟨k, hk, hlabel⟩ := h.exists_labelOf he
  obtain ⟨k', hk', hlabel'⟩ := h.exists_labelOf he'
  rw [hlabel, hlabel'] at heq
  rw [numbered_injective (Option.some.inj heq), hk'] at hk
  exact (Option.some.inj hk).symm

theorem numbered_ne_gate_out (k : ℕ) (id : String) : numbered k ≠ "gate_out_" ++ id := by
  intro heq
  have hhead := congrArg (fun name => name.toList.head?) heq
  simp [numbered, String.toList_append] at hhead

theorem numbered_ne_false (k : ℕ) : numbered k ≠ "FALSE" := by
  intro heq
  have hhead := congrArg (fun name => name.toList.head?) heq
  simp [numbered, String.toList_append] at hhead

variable {label : String}

/-- A node stores its output into the variable of a wire iff the wire is the first one that
leaves it. -/
theorem GateDiagram.outLabel_eq_iff (h : graph.GateDiagram) (he : e ∈ graph.edges)
    (hlabel : graph.labelOf e.id = some label) (id : String) :
    label = graph.outLabel id ↔ graph.findOutgoingEdge id = some e := by
  obtain ⟨k, -, hk⟩ := h.exists_labelOf he
  obtain rfl : numbered k = label := Option.some.inj (hk.symm.trans hlabel)
  rw [outLabel]
  cases hfind : graph.findOutgoingEdge id with
  | none => simp [numbered_ne_gate_out]
  | some e' =>
      have he' : e' ∈ graph.edges := List.mem_of_find?_eq_some hfind
      obtain ⟨k', -, hk'⟩ := h.exists_labelOf he'
      dsimp only
      rw [hk', Option.getD_some, Option.some.injEq]
      constructor
      · intro heq
        exact h.labelOf_inj he' he (by rw [hk', hk, heq])
      · rintro rfl
        exact Option.some.inj (hk.symm.trans hk')

theorem source_of_findOutgoingEdge {id : String} (h : graph.findOutgoingEdge id = some e) :
    e ∈ graph.edges ∧ e.sourceId = id :=
  ⟨List.mem_of_find?_eq_some h, by simpa using List.find?_some h⟩

/-- The operands that a node reads are the variables of the wires into it. -/
theorem GateDiagram.mem_inputValues (h : graph.GateDiagram) (he : e ∈ graph.edges)
    (hlabel : graph.labelOf e.id = some label) {node : Node}
    (hmem : label ∈ graph.inputValues node "FALSE") : e.targetId = node.id := by
  obtain ⟨k, -, hk⟩ := h.exists_labelOf he
  obtain rfl : numbered k = label := Option.some.inj (hk.symm.trans hlabel)
  obtain ⟨pin, -, hpin⟩ := List.mem_map.mp hmem
  cases hfind : (graph.incomingEdges node.id).find? fun e => e.targetPortName == pin.name with
  | none =>
      rw [hfind] at hpin
      exact absurd hpin.symm (numbered_ne_false k)
  | some e' =>
      rw [hfind] at hpin
      obtain ⟨he', htarget⟩ := List.mem_filter.mp (List.mem_of_find?_eq_some hfind)
      obtain ⟨k', -, hk'⟩ := h.exists_labelOf he'
      dsimp only at hpin
      rw [hk', Option.getD_some] at hpin
      rw [h.labelOf_inj he he' (by rw [hk, hk', hpin])]
      exact eq_of_beq htarget

/-- What a node reads at a pin is the value of the wire into it. -/
theorem GateDiagram.readOperand_inputValues (h : graph.GateDiagram) (memory : String → Bool)
    (node : Node) : (graph.inputValues node "FALSE").map (readOperand memory) =
      node.inputPorts.map fun pin => graph.pinValue (graph.wireValue memory) node.id pin.name := by
  rw [inputValues, List.map_map]
  refine List.map_congr_left fun pin _ => ?_
  have hfilter : (graph.incomingEdges node.id).find? (fun e => e.targetPortName == pin.name) =
      graph.edges.find? fun e => e.targetId == node.id && e.targetPortName == pin.name := by
    rw [incomingEdges, List.find?_filter]
    simp only [Bool.decide_and, Bool.decide_eq_true]
  rw [Function.comp_apply, hfilter, pinValue]
  cases hfind : graph.edges.find? fun e =>
      e.targetId == node.id && e.targetPortName == pin.name with
  | none => rfl
  | some e =>
      obtain ⟨k, -, hk⟩ := h.exists_labelOf (List.mem_of_find?_eq_some hfind)
      dsimp only
      rw [wireValue, hk, Option.getD_some, Option.getD_some, readOperand,
        if_neg (numbered_ne_false k)]

/-! ### The stores of the nodes -/

/-- A variable into which no node stores. -/
theorem foldl_store_of_ne {nodes : List Node} (h : ∀ n ∈ nodes, label ≠ graph.outLabel n.id)
    (memory : String → Bool) : nodes.foldl graph.store memory label = memory label := by
  induction nodes generalizing memory with
  | nil => rfl
  | cons n nodes ih =>
      rw [List.foldl_cons, ih fun m hm => h m (List.mem_cons_of_mem _ hm)]
      exact if_neg (h n List.mem_cons_self)

/-- The output of a node depends on the operands that it reads. -/
theorem output_congr {node : Node} {memory memory' : String → Bool}
    (h : ∀ v ∈ graph.inputValues node "FALSE", memory v = memory' v) :
    graph.output memory node = graph.output memory' node := by
  have hmap : (graph.inputValues node "FALSE").map (readOperand memory) =
      (graph.inputValues node "FALSE").map (readOperand memory') := by
    refine List.map_congr_left fun v hv => ?_
    rw [readOperand, readOperand, h v hv]
  rw [output, output, hmap]

/-- A variable that no node reads or stores does not matter to the others. -/
theorem foldl_store_congr (label : String) {nodes : List Node}
    (hread : ∀ n ∈ nodes, label ∉ graph.inputValues n "FALSE") {memory memory' : String → Bool}
    (h : ∀ v, v ≠ label → memory v = memory' v) :
    ∀ v, v ≠ label → nodes.foldl graph.store memory v = nodes.foldl graph.store memory' v := by
  induction nodes generalizing memory memory' with
  | nil => exact h
  | cons n nodes ih =>
      refine ih (fun m hm => hread m (List.mem_cons_of_mem _ hm)) fun v hv => ?_
      have houtput : graph.output memory n = graph.output memory' n :=
        output_congr fun w hw => h w fun heq => hread n List.mem_cons_self (heq ▸ hw)
      rw [store, store, houtput, h v hv]

/-- The place of a node in the order: the wires into it come from nodes before it, and those
out of it lead to nodes after it. -/
structure Placed (graph : FbdGraph) (node : Node) (before after : List Node) : Prop where
  sorted_eq : graph.sorted = before ++ node :: after
  distinct : ∀ n ∈ after, n.id ≠ node.id
  inputs : ∀ e ∈ graph.edges, e.targetId = node.id → ∀ n ∈ node :: after, e.sourceId ≠ n.id
  outputs : ∀ e ∈ graph.edges, e.sourceId = node.id → ∀ n ∈ before ++ [node], e.targetId ≠ n.id

theorem GateDiagram.sorted_nodup (h : graph.GateDiagram) : (graph.sorted.map Node.id).Nodup :=
  ((h.sortable.sorted_perm.map Node.id).nodup_iff).mpr h.distinct.nodes

theorem GateDiagram.exists_placed (h : graph.GateDiagram) {node : Node}
    (hn : node ∈ graph.nodes) : ∃ before after, graph.Placed node before after := by
  obtain ⟨before, after, hsplit⟩ := List.append_of_mem (h.sortable.sorted_perm.mem_iff.mpr hn)
  have hnodup := h.sorted_nodup
  have hpairwise := h.sortable.sorted_pairwise
  rw [hsplit, List.map_append, List.map_cons, List.nodup_append, List.nodup_cons] at hnodup
  rw [hsplit, List.pairwise_append, List.pairwise_cons] at hpairwise
  have hloop : ¬graph.Wired node.id node.id := fun hw =>
    h.sortable.acyclic node.id (Relation.TransGen.single hw)
  refine ⟨before, after, hsplit, fun n hn' heq => ?_, fun e he hid n hn' heq => ?_,
    fun e he hid n hn' heq => ?_⟩
  · exact hnodup.2.1.1 (heq ▸ List.mem_map_of_mem hn')
  · rcases List.mem_cons.mp hn' with rfl | hn'
    · exact hloop ⟨e, he, heq, hid⟩
    · exact hpairwise.2.1.1 n hn' ⟨e, he, heq, hid⟩
  · rcases List.mem_append.mp hn' with hn' | hn'
    · exact hpairwise.2.2 n hn' node List.mem_cons_self ⟨e, he, hid, heq⟩
    · rw [List.mem_singleton.mp hn'] at heq
      exact hloop ⟨e, he, hid, heq⟩

/-- The text ends, and stores the outputs of the nodes. -/
theorem GateDiagram.exec (h : graph.GateDiagram) (acc : Bool) (memory : String → Bool) :
    ∃ s, Exec (IlState.step graph.ilLines) ⟨0, acc, memory⟩ (.ok s) ∧
      s.memory = graph.sorted.foldl graph.store memory := by
  refine exec_ilLines (fun n hn => ?_) h.sorted_nodup acc memory
  obtain ⟨gateType, hkind, hpins, -⟩ := h.gates n (h.sortable.sorted_perm.mem_iff.mp hn)
  exact ⟨gateType, hkind, hpins⟩

/-- The variable of a wire holds, in the end, what was in it when its source gate was done. -/
theorem GateDiagram.foldl_store_after (h : graph.GateDiagram) (he : e ∈ graph.edges)
    (hlabel : graph.labelOf e.id = some label) {nodes : List Node}
    (hnodes : ∀ n ∈ nodes, e.sourceId ≠ n.id) (memory : String → Bool) :
    nodes.foldl graph.store memory label = memory label := by
  refine foldl_store_of_ne (fun n hn heq => hnodes n hn ?_) memory
  exact (source_of_findOutgoingEdge ((h.outLabel_eq_iff he hlabel n.id).mp heq)).2

/-- The first wire that leaves a gate has, in the end, what the gate computes when its turn
comes. -/
theorem GateDiagram.foldl_store_first (h : graph.GateDiagram) (he : e ∈ graph.edges) {node : Node}
    (hid : node.id = e.sourceId) (hlabel : graph.labelOf e.id = some label)
    (hfirst : graph.findOutgoingEdge node.id = some e) {before after : List Node}
    (hplaced : graph.Placed node before after) (memory : String → Bool) :
    graph.sorted.foldl graph.store memory label =
      graph.output (before.foldl graph.store memory) node := by
  rw [hplaced.sorted_eq, List.foldl_append, List.foldl_cons, h.foldl_store_after he hlabel]
  · rw [store, if_pos ((h.outLabel_eq_iff he hlabel node.id).mpr hfirst)]
  · exact fun n hn heq => hplaced.distinct n hn (by rw [← heq, hid])

/-- When no two wires leave one gate, the text computes the values of the wires. -/
theorem GateDiagram.computes (h : graph.GateDiagram) (hone : graph.OneWire) :
    graph.Computes := by
  intro acc memory
  obtain ⟨s, hexec, hmemory⟩ := h.exec acc memory
  refine ⟨s, hexec, fun e he n hn hid gateType hkind => ?_⟩
  obtain ⟨before, after, hplaced⟩ := h.exists_placed hn
  obtain ⟨k, -, hlabel⟩ := h.exists_labelOf he
  have hfirst : graph.findOutgoingEdge n.id = some e := by
    cases hfind : graph.findOutgoingEdge n.id with
    | none => exact absurd (List.find?_eq_none.mp hfind e he) (by simp [hid])
    | some e' =>
        obtain ⟨he', hid'⟩ := source_of_findOutgoingEdge hfind
        rw [List.inj_on_of_nodup_map hone he' he (hid'.trans hid)]
  -- the wires into the gate are done when its turn comes
  have hinputs : ∀ e' ∈ graph.edges, e'.targetId = n.id →
      graph.wireValue (before.foldl graph.store memory) e' = graph.wireValue s.memory e' := by
    intro e' he' htarget
    obtain ⟨k', -, hlabel'⟩ := h.exists_labelOf he'
    rw [wireValue, wireValue, hlabel', hmemory, hplaced.sorted_eq, List.foldl_append]
    exact (h.foldl_store_after he' hlabel' (hplaced.inputs e' he' htarget) _).symm
  rw [wireValue, hlabel, hmemory, Option.getD_some,
    h.foldl_store_first he hid hlabel hfirst hplaced, output, hkind]
  dsimp only
  rw [h.readOperand_inputValues, ← hmemory]
  simp only [pinValue_congr hinputs]

/-- A second wire out of a gate keeps the value that its variable had before. -/
theorem GateDiagram.oneWire (h : graph.GateDiagram) (hcomputes : graph.Computes) :
    graph.OneWire := by
  refine (List.nodup_map_iff_inj_on h.distinct.edges.of_map).mpr fun e he e' he' hsame => ?_
  by_contra hne
  obtain ⟨n, hn, hid⟩ := h.source he
  obtain ⟨gateType, hkind⟩ := h.kind hn
  obtain ⟨first, hfirst⟩ : ∃ first, graph.findOutgoingEdge n.id = some first := by
    cases hfind : graph.findOutgoingEdge n.id with
    | none => exact absurd (List.find?_eq_none.mp hfind e he) (by simp [hid])
    | some first => exact ⟨first, rfl⟩
  obtain ⟨hfirstmem, hfirstid⟩ := source_of_findOutgoingEdge hfirst
  -- one of the two wires is not the first one
  obtain ⟨second, hsecond, hsecondid, hsecondne⟩ :
      ∃ second ∈ graph.edges, second.sourceId = n.id ∧ second ≠ first := by
    by_cases heq : e = first
    · exact ⟨e', he', by rw [← hsame, hid], fun h => hne (heq.trans h.symm)⟩
    · exact ⟨e, he, hid.symm, heq⟩
  obtain ⟨before, after, hplaced⟩ := h.exists_placed hn
  obtain ⟨k, -, hlabel⟩ := h.exists_labelOf hfirstmem
  obtain ⟨l, -, hlabel'⟩ := h.exists_labelOf hsecond
  have hunstored : ∀ m ∈ graph.sorted, numbered l ≠ graph.outLabel m.id := by
    intro m _ heq
    have hfind := (h.outLabel_eq_iff hsecond hlabel' m.id).mp heq
    have hmid : m.id = n.id := by
      rw [← (source_of_findOutgoingEdge hfind).2, hsecondid]
    rw [hmid, hfirst] at hfind
    exact hsecondne (Option.some.inj hfind).symm
  have hunread : ∀ m ∈ before ++ [n], numbered l ∉ graph.inputValues m "FALSE" := fun m hm hmem =>
    hplaced.outputs second hsecond hsecondid m hm (h.mem_inputValues hsecond hlabel' hmem)
  -- what the gate computes does not depend on the variable of the second wire
  let value := graph.output (before.foldl graph.store fun _ => false) n
  let memory : String → Bool := fun v => if v = numbered l then !value else false
  have hvalue : graph.output (before.foldl graph.store memory) n = value := by
    refine output_congr fun v hv => ?_
    refine foldl_store_congr (numbered l)
      (fun m hm => hunread m (List.mem_append_left _ hm)) (fun w hw => if_neg hw) v fun heq => ?_
    exact hunread n (by simp) (heq ▸ hv)
  obtain ⟨s, hexec, hvaluation⟩ := hcomputes false memory
  obtain ⟨s', hexec', hmemory⟩ := h.exec false memory
  obtain rfl : s = s' := Except.ok.inj (hexec.deterministic hexec')
  have heq : graph.wireValue s.memory first = graph.wireValue s.memory second :=
    (hvaluation first hfirstmem n hn hfirstid.symm gateType hkind).trans
      (hvaluation second hsecond n hn hsecondid.symm gateType hkind).symm
  rw [wireValue, wireValue, hlabel, hlabel', hmemory, Option.getD_some, Option.getD_some,
    h.foldl_store_first hfirstmem hfirstid.symm hlabel hfirst hplaced, hvalue,
    foldl_store_of_ne hunstored] at heq
  simp [memory] at heq

end FbdGraph

open FbdGraph

instance (graph : FbdGraph) : Decidable graph.OneWire :=
  inferInstanceAs (Decidable (List.Nodup _))

theorem gateDiagram_of_checks {graph : FbdGraph} (hvalid : (validateGraph graph).valid = true)
    (hsingle : graph.edges.Pairwise fun e e' =>
      ¬(e.targetId = e'.targetId ∧ e.targetPortName = e'.targetPortName))
    (hgates : ∀ n ∈ graph.nodes, n ∈ [GateType.and, .or, .xor, .not, .mux].map fun gateType =>
      ⟨n.id, .gate gateType, gateInputs gateType, gateOutputs⟩)
    (hnodes : (graph.nodes.map Node.id).Nodup) (hedges : (graph.edges.map Edge.id).Nodup) :
    graph.GateDiagram where
  valid := hvalid
  single := hsingle
  gates n hn := by
    obtain ⟨gateType, -, heq⟩ := List.mem_map.mp (hgates n hn)
    exact ⟨gateType, by rw [← heq], by rw [← heq], by rw [← heq]⟩
  distinct := ⟨hnodes, hedges⟩

/-- The text of a diagram computes the values of its wires iff no two wires leave one gate. -/
theorem computes_iff (graph : FbdGraph) (h : graph.GateDiagram) :
    graph.Computes ↔ graph.OneWire :=
  ⟨h.oneWire, h.computes⟩

/-- A multiplexer between two inverters. -/
def chain : FbdGraph :=
  ⟨"fbdgraph-1", [(createGate .not 1).1, (createGate .mux 2).1, (createGate .not 3).1],
    [⟨"signal-5", "gate-2", "OUT", "gate-3", "IN0"⟩, ⟨"signal-6", "gate-3", "OUT", "gate-4", "IN"⟩]⟩

theorem computes_iff_chain : chain.Computes ↔ chain.OneWire :=
  computes_iff chain (gateDiagram_of_checks (by decide) (by decide) (by decide) (by decide)
    (by decide))

/-- An inverter whose output goes to both inputs of a gate. -/
def fanOut : FbdGraph :=
  ⟨"fbdgraph-1", [(createGate .not 1).1, (createGate .and 2).1],
    [⟨"signal-4", "gate-2", "OUT", "gate-3", "IN1"⟩,
        ⟨"signal-5", "gate-2", "OUT", "gate-3", "IN2"⟩]⟩

theorem fanOut_not_computes : fanOut.GateDiagram ∧ ¬fanOut.Computes := by
  have hdiagram : fanOut.GateDiagram :=
    gateDiagram_of_checks (by decide) (by decide) (by decide) (by decide) (by decide)
  exact ⟨hdiagram, fun hcomputes => absurd (hdiagram.oneWire hcomputes) (by decide)⟩

/-- Two runs of the text of `chain` from different memories. -/
theorem isValuation_unique_chain :
    ∃ s s' : IlState, chain.IsValuation (chain.wireValue s.memory) ∧
      ∀ e ∈ chain.edges, chain.wireValue s.memory e = chain.wireValue s'.memory e := by
  have h : chain.GateDiagram :=
    gateDiagram_of_checks (by decide) (by decide) (by decide) (by decide) (by decide)
  obtain ⟨s, -, hs⟩ := h.computes (by decide) false fun _ => false
  obtain ⟨s', -, hs'⟩ := h.computes (by decide) true fun _ => true
  exact ⟨s, s', hs, isValuation_unique h hs hs'⟩

end Weftik.FbdEditor
