import Weftik.Lib.Kahn
import Weftik.Platform

/-!
# Contact Networks

The contact network of a ladder rung: nodes, edges that carry contacts, and for each node
the indices of the edges that leave it. A topological order of the nodes is computed when
it is asked for and the network has changed; the traversal starts at the left rail when
one is set, and otherwise at the nodes without incoming edges.

## Main definitions

* `ContactNetwork`: the network, with the invariants of its index lists.
* `addNode`, `addEdge`, `setLeftRail`, `setOutputNode`: the operations on it.
* `topologicalOrder`: the cached order, rebuilt when the network is dirty.

## Main results

* `rebuildTopo_ok`, `rebuildTopo_order`: the order is that of Kahn's traversal.
-/

open Machine

namespace Weftik.Ld

/-- A node is the number of nodes before it. -/
abbrev NodeId := ℕ

/-- A contact: normally open, normally closed, or a detector of edges of its variable. -/
inductive Contact
  | no (var : String)
  | nc (var : String)
  | posEdge (var : String)
  | negEdge (var : String)
  deriving DecidableEq

/-- The variable of a contact. -/
def Contact.varName : Contact → String
  | .no v | .nc v | .posEdge v | .negEdge v => v

/-- A node of the network. -/
structure ContactNode where
  id : NodeId
  deriving DecidableEq

/-- A directed edge with its contact. -/
structure ContactEdge where
  source : NodeId
  target : NodeId
  contact : Contact
  deriving DecidableEq

/-- The network: its nodes and edges, the two ends of the rung, the indices of the edges
that leave each node, and the order of the nodes with a flag that asks for a new one. -/
structure ContactNetwork where
  nodes : List ContactNode
  edges : List ContactEdge
  leftRail : Option NodeId
  outputNode : Option NodeId
  outgoing : List (List ℕ)
  topoOrder : List NodeId
  dirty : Bool
  length_outgoing : outgoing.length = nodes.length
  outgoing_lt : ∀ out ∈ outgoing, ∀ i ∈ out, i < edges.length
  outgoing_eq : ∀ v, (outgoing.getD v []).filterMap (fun i => edges[i]?) =
    edges.filter fun e => e.source = v

/-- The panic of an index out of bounds. -/
def indexPanic (len index : ℕ) : Panic :=
  .message ("index out of bounds: the len is " ++ toString len ++ " but the index is " ++
    toString index)

namespace ContactNetwork

/-- The empty network. -/
def new : ContactNetwork where
  nodes := []
  edges := []
  leftRail := none
  outputNode := none
  outgoing := []
  topoOrder := []
  dirty := false
  length_outgoing := rfl
  outgoing_lt := nofun
  outgoing_eq _ := rfl

/-! ### Operations -/

theorem getD_append_nil (outgoing : List (List ℕ)) (v : ℕ) :
    (outgoing ++ [[]]).getD v [] = outgoing.getD v [] := by
  rw [List.getD_eq_getElem?_getD, List.getD_eq_getElem?_getD]
  rcases lt_trichotomy v outgoing.length with h | rfl | h
  · rw [List.getElem?_append_left h]
  · rw [List.getElem?_concat_length, List.getElem?_eq_none le_rfl]
    rfl
  · rw [List.getElem?_eq_none h.le, List.getElem?_eq_none (by simp; omega)]

/-- Add a node; its identifier is returned. -/
def addNode (net : ContactNetwork) : ContactNetwork × NodeId :=
  ({ net with
      nodes := net.nodes ++ [⟨net.nodes.length⟩]
      outgoing := net.outgoing ++ [[]]
      dirty := true
      length_outgoing := by
        rw [List.length_append, List.length_append, net.length_outgoing]
        rfl
      outgoing_lt := by
        intro out hout
        rcases List.mem_append.mp hout with hout | hout
        · exact net.outgoing_lt out hout
        · obtain rfl := List.mem_singleton.mp hout
          exact nofun
      outgoing_eq := by
        intro v
        rw [getD_append_nil]
        exact net.outgoing_eq v },
    net.nodes.length)

/-- The indices of the new edge and of the old ones. -/
theorem outgoing_addEdge (net : ContactNetwork) (e : ContactEdge)
    (hs : e.source < net.outgoing.length) (v : NodeId) :
    ((net.outgoing.modify e.source (· ++ [net.edges.length])).getD v []).filterMap
        (fun i => (net.edges ++ [e])[i]?) =
      (net.edges ++ [e]).filter fun e => e.source = v := by
  have hold : (net.outgoing.getD v []).filterMap (fun i => (net.edges ++ [e])[i]?) =
      net.edges.filter fun e => e.source = v := by
    rw [← net.outgoing_eq v]
    refine List.filterMap_congr fun i hi => ?_
    rw [List.getD_eq_getElem?_getD] at hi
    cases hout : net.outgoing[v]? with
    | none => rw [hout] at hi; cases hi
    | some out =>
        rw [hout, Option.getD_some] at hi
        exact List.getElem?_append_left (net.outgoing_lt out (List.mem_of_getElem? hout) i hi)
  rw [List.getD_eq_getElem?_getD, List.getElem?_modify, List.filter_append, ← hold,
    List.getD_eq_getElem?_getD]
  by_cases hv : e.source = v
  · subst hv
    rw [List.getElem?_eq_getElem hs]
    simp
  · simp [hv]

/-- The network with one more edge, from one of its nodes. -/
def insertEdge (net : ContactNetwork) (source target : NodeId) (contact : Contact)
    (hs : source < net.outgoing.length) : ContactNetwork :=
  { net with
    edges := net.edges ++ [⟨source, target, contact⟩]
    outgoing := net.outgoing.modify source (· ++ [net.edges.length])
    dirty := true
    length_outgoing := by rw [List.length_modify, net.length_outgoing]
    outgoing_lt := by
      intro out hout i hi
      rw [List.length_append, List.length_singleton]
      obtain ⟨v, hv⟩ := List.mem_iff_getElem?.mp hout
      rw [List.getElem?_modify] at hv
      cases hold : net.outgoing[v]? with
      | none => rw [hold] at hv; cases hv
      | some old =>
          have hlt := net.outgoing_lt old (List.mem_of_getElem? hold) i
          rw [hold] at hv
          obtain rfl := Option.some.inj hv
          split at hi
          · rcases List.mem_append.mp hi with hi | hi
            · have := hlt hi
              omega
            · have := List.mem_singleton.mp hi
              omega
          · have := hlt hi
            omega
    outgoing_eq := net.outgoing_addEdge ⟨source, target, contact⟩ hs }

/-- Add an edge; the source must be a node of the network. -/
def addEdge (net : ContactNetwork) (source target : NodeId) (contact : Contact) :
    Except Panic ContactNetwork :=
  if hs : source < net.outgoing.length then .ok (net.insertEdge source target contact hs)
  else .error (indexPanic net.outgoing.length source)

/-- Set the node at which power enters. -/
def setLeftRail (net : ContactNetwork) (node : NodeId) : ContactNetwork :=
  { net with leftRail := some node }

/-- Set the node at which power leaves. -/
def setOutputNode (net : ContactNetwork) (node : NodeId) : ContactNetwork :=
  { net with outputNode := some node }

/-- The edges that leave a node. -/
def outgoingEdges (net : ContactNetwork) (node : NodeId) : List ContactEdge :=
  (net.outgoing.getD node []).filterMap fun i => net.edges[i]?

/-! ### The topological order -/

/-- The nodes at which the traversal starts: the left rail, or without one the nodes
without incoming edges, with the last one first. -/
def seeds (net : ContactNetwork) : Option NodeId → List NodeId
  | some lr => [lr]
  | none =>
      ((List.range net.nodes.length).filter fun v =>
        net.edges.countP (fun e => e.target = v) = 0).reverse

/-- The state before the first round. -/
def topoStart (net : ContactNetwork) : Kahn.State NodeId where
  inDegree v := net.edges.countP fun e => e.target = v
  queue := net.seeds net.leftRail
  order := []

/-- One round: the next node of the queue is put into the order, and the targets of its
edges are relaxed. -/
def topoStep (net : ContactNetwork) (s : Kahn.State NodeId) :
    Result (Kahn.State NodeId) Panic :=
  match s.queue with
  | [] => .done s
  | node :: queue =>
      if node < net.outgoing.length then
        .next (((net.outgoingEdges node).map ContactEdge.target).foldl Kahn.relax
          { s with queue := queue, order := s.order ++ [node] })
      else .fail (indexPanic net.outgoing.length node)

/-- Rebuild the order; `none` when the fuel runs out. A target that is no node panics
already when the incoming edges are counted. -/
def rebuildTopo (net : ContactNetwork) (fuel : ℕ) : Option (Except Panic ContactNetwork) :=
  match net.edges.find? fun e => net.nodes.length ≤ e.target with
  | some e => some (.error (indexPanic net.nodes.length e.target))
  | none =>
      (run net.topoStep fuel net.topoStart).map fun o =>
        (fun s => { net with topoOrder := s.order, dirty := false }) <$> o

/-- The network with an order that is up to date. -/
def topologicalOrder (net : ContactNetwork) (fuel : ℕ) :
    Option (Except Panic ContactNetwork) :=
  if net.dirty then net.rebuildTopo fuel else some (.ok net)

/-- More fuel does not change the order. -/
theorem topologicalOrder_mono {net : ContactNetwork} {fuel fuel' : ℕ}
    {o : Except Panic ContactNetwork} (hle : fuel ≤ fuel')
    (h : net.topologicalOrder fuel = some o) : net.topologicalOrder fuel' = some o := by
  rw [topologicalOrder] at h ⊢
  split at h
  · rename_i hdirty
    rw [if_pos hdirty]
    rw [rebuildTopo] at h ⊢
    split at h
    · exact h
    · obtain ⟨s, hrun, hs⟩ := Option.map_eq_some_iff.mp h
      rw [run_mono hle hrun, Option.map_some, hs]
  · rename_i hdirty
    rwa [if_neg hdirty]

/-! ### The order is that of Kahn's traversal -/

/-- The network as a multigraph. -/
def graph (net : ContactNetwork) : Kahn.Multigraph NodeId ContactEdge :=
  ⟨net.edges, ContactEdge.source, ContactEdge.target⟩

/-- Every edge ends at a node, and so does the left rail, if there is one. -/
structure InBounds (net : ContactNetwork) : Prop where
  target_lt : ∀ e ∈ net.edges, e.target < net.nodes.length
  leftRail_lt : ∀ r, net.leftRail = some r → r < net.nodes.length

variable {net : ContactNetwork}

theorem out_graph (v : NodeId) : net.graph.out v = net.outgoingEdges v :=
  (net.outgoing_eq v).symm

theorem topoStart_eq : net.topoStart = Kahn.start net.graph (net.seeds net.leftRail) := by
  rw [topoStart, Kahn.start]
  congr 1
  funext v
  simp [Kahn.Multigraph.pending, graph]

/-- A round does what a round of Kahn's traversal does, unless the node has no index
list. -/
theorem topoStep_agree (s : Kahn.State NodeId) :
    (∃ e, net.topoStep s = .fail e) ∨ net.topoStep s = Kahn.step Panic net.graph s := by
  rw [topoStep, Kahn.step]
  cases s.queue with
  | nil => exact Or.inr rfl
  | cons v queue =>
      by_cases hv : v < net.outgoing.length
      · right
        simp only [if_pos hv, Kahn.visit, out_graph]
        rfl
      · exact Or.inl ⟨_, if_neg hv⟩

/-- While the queue holds nodes only, no round fails. -/
theorem topoStep_eq {s : Kahn.State NodeId}
    (hs : ∀ v ∈ s.queue, v < net.nodes.length) :
    net.topoStep s = Kahn.step Panic net.graph s := by
  rcases net.topoStep_agree s with ⟨e, hfail⟩ | heq
  · rw [topoStep] at hfail
    cases hqueue : s.queue with
    | nil => rw [hqueue] at hfail; cases hfail
    | cons v queue =>
        have hv := hs v (hqueue ▸ List.mem_cons_self)
        rw [← net.length_outgoing] at hv
        simp only [hqueue, if_pos hv] at hfail
        cases hfail
  · exact heq

/-- In a network within its bounds, the queue holds nodes only. -/
theorem queue_lt (hbounds : net.InBounds) {s s' : Kahn.State NodeId}
    (hstep : Kahn.step Panic net.graph s = .next s')
    (hs : ∀ v ∈ s.queue, v < net.nodes.length) : ∀ v ∈ s'.queue, v < net.nodes.length := by
  intro w hw
  rw [Kahn.step] at hstep
  cases hqueue : s.queue with
  | nil => rw [hqueue] at hstep; cases hstep
  | cons v queue =>
      simp only [hqueue] at hstep
      obtain rfl := Result.next.inj hstep
      rcases Kahn.mem_queue_foldl_relax hw with hw | hw
      · obtain ⟨e, he, -, rfl⟩ := Kahn.Multigraph.mem_out_tgt.mp hw
        exact hbounds.target_lt e he
      · exact hs w (hqueue ▸ List.mem_cons_of_mem v hw)

/-- The seeds are nodes. -/
theorem seeds_lt (hbounds : net.InBounds) :
    ∀ v ∈ net.seeds net.leftRail, v < net.nodes.length := by
  intro v hv
  cases hrail : net.leftRail with
  | some r =>
      rw [hrail] at hv
      obtain rfl := List.mem_singleton.mp hv
      exact hbounds.leftRail_lt v hrail
  | none =>
      rw [hrail, seeds, List.mem_reverse] at hv
      exact List.mem_range.mp (List.mem_filter.mp hv).1

/-- The seeds without a left rail are the nodes without incoming edges. -/
theorem mem_seeds_none {v : NodeId} :
    v ∈ net.seeds none ↔ v < net.nodes.length ∧ ∀ u, ¬ net.graph.Edge u v := by
  rw [seeds, List.mem_reverse, List.mem_filter, List.mem_range, decide_eq_true_eq,
    List.countP_eq_zero]
  refine and_congr_right fun _ => ⟨?_, ?_⟩
  · rintro h u ⟨e, he, -, htgt⟩
    exact h e he (decide_eq_true htgt)
  · intro h e he htgt
    exact h e.source ⟨e, he, rfl, of_decide_eq_true htgt⟩

theorem nodup_seeds (rail : Option NodeId) : (net.seeds rail).Nodup := by
  cases rail with
  | some r => exact List.nodup_singleton r
  | none => exact List.nodup_reverse.mpr (List.nodup_range.filter _)

/-- In an acyclic network no edge leads from a fed node into a seed. -/
theorem not_fed_of_edge_seed (hacyclic : net.graph.Acyclic) (rail : Option NodeId) :
    ∀ u w, net.graph.Edge u w → w ∈ net.seeds rail →
      ¬ net.graph.Fed (net.seeds rail) u := by
  cases rail with
  | some r => exact Kahn.Multigraph.singleton_seed hacyclic r
  | none => exact fun u w hedge hw => absurd hedge ((mem_seeds_none.mp hw).2 u)

/-- The order is up to date for a left rail: it has the fed nodes, each before the nodes to
which it has edges. -/
def OrderedFrom (net : ContactNetwork) (rail : Option NodeId) (order : List NodeId) : Prop :=
  (∀ v, v ∈ order ↔ net.graph.Fed (net.seeds rail) v) ∧ net.graph.Sorted order

/-- In a network within its bounds the order is the one of Kahn's traversal. -/
theorem rebuildTopo_of_exec (hbounds : net.InBounds) {s : Kahn.State NodeId}
    (hexec : Exec (Kahn.step Panic net.graph)
      (Kahn.start net.graph (net.seeds net.leftRail)) (.ok s)) :
    ∃ fuel, net.rebuildTopo fuel = some (.ok { net with
      topoOrder := s.order, dirty := false }) := by
  have hexec' : Exec net.topoStep net.topoStart (.ok s) := by
    rw [topoStart_eq]
    exact hexec.congr (fun s hs => topoStep_eq hs) (fun s s' => queue_lt hbounds)
      (seeds_lt hbounds)
  obtain ⟨fuel, hfuel⟩ := exec_iff_run.mp hexec'
  have hnone : (net.edges.find? fun e => net.nodes.length ≤ e.target) = none := by
    rw [List.find?_eq_none]
    intro e he hle
    have hlt := hbounds.target_lt e he
    exact absurd (of_decide_eq_true hle) (not_le.mpr hlt)
  refine ⟨fuel, ?_⟩
  simp only [rebuildTopo, hnone, hfuel]
  rfl

/-- In an acyclic network within its bounds the order is rebuilt. -/
theorem rebuildTopo_ok (hbounds : net.InBounds) (hacyclic : net.graph.Acyclic) :
    ∃ fuel order, net.rebuildTopo fuel = some (.ok { net with
      topoOrder := order, dirty := false }) ∧ net.OrderedFrom net.leftRail order := by
  obtain ⟨s, hexec, hmem, hsorted⟩ := Kahn.kahn_exec Panic
    (not_fed_of_edge_seed hacyclic net.leftRail) (nodup_seeds net.leftRail)
  obtain ⟨fuel, hfuel⟩ := rebuildTopo_of_exec hbounds hexec
  exact ⟨fuel, s.order, hfuel, hmem, hsorted⟩

/-- Rebuilding changes the order and the flag only, and the order of an acyclic network is
up to date then. -/
theorem rebuildTopo_order {fuel : ℕ} {net' : ContactNetwork}
    (h : net.rebuildTopo fuel = some (.ok net')) :
    ∃ order, net' = { net with topoOrder := order, dirty := false } ∧
      (net.graph.Acyclic → net.OrderedFrom net.leftRail order) := by
  rw [rebuildTopo] at h
  split at h
  · cases h
  · obtain ⟨o, hrun, ho⟩ := Option.map_eq_some_iff.mp h
    cases o with
    | error e => cases ho
    | ok s =>
        refine ⟨s.order, (Except.ok.inj ho).symm, fun hacyclic => ?_⟩
        obtain ⟨s', hexec, hmem, hsorted⟩ := Kahn.kahn_exec Panic
          (not_fed_of_edge_seed hacyclic net.leftRail) (nodup_seeds net.leftRail)
        have hexec' := (exec_of_run hrun).of_agree topoStep_agree
        rw [topoStart_eq] at hexec'
        obtain rfl := Except.ok.inj (hexec.deterministic hexec')
        exact ⟨hmem, hsorted⟩

end ContactNetwork

end Weftik.Ld
