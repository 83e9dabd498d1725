import Weftik.FbdEditor.Compile
import Weftik.Lib.Kahn

/-!
# The Order of the Nodes

The sort of a graph without feedback loops puts every node after the nodes whose wires lead
into it. The queue is first in, first out, which only changes the order of the queue.

## Main definitions

* `FbdEditor.FbdGraph.Distinct`: ids that are unique, as those of the editor are.
* `FbdEditor.FbdGraph.multigraph`: the nodes and the wires.

## Main results

* `FbdEditor.sorted_perm`: the sort loses no node.
* `FbdEditor.sorted_pairwise`: no wire leads back in the order.
-/

open Machine Kahn Relation

namespace Weftik.FbdEditor

namespace FbdGraph

/-- The ids of the nodes and those of the edges are unique. -/
structure Distinct (graph : FbdGraph) : Prop where
  nodes : (graph.nodes.map Node.id).Nodup
  edges : (graph.edges.map Edge.id).Nodup

/-- The wires as a multigraph on the ids. -/
def multigraph (graph : FbdGraph) : Multigraph String Edge :=
  ⟨graph.edges, Edge.sourceId, Edge.targetId⟩

/-- The ids of the nodes without edges into them. -/
def seeds (graph : FbdGraph) : List String :=
  (graph.nodes.filter fun n => (graph.incomingEdges n.id).isEmpty).map Node.id

/-- The state of the sort is one of the traversal, up to the order of the queue. -/
structure Sorting.Like (graph : FbdGraph) (s : Sorting) (k : State String) : Prop where
  inDegree : ∀ n ∈ graph.nodes, s.inDegree n.id = some (k.inDegree n.id : ℤ)
  queue : s.queue.Perm k.queue
  sorted : s.sorted.map Node.id = k.order
  nodes : ∀ n ∈ s.sorted, n ∈ graph.nodes

variable {graph : FbdGraph} {s : Sorting} {k : State String}

theorem Sorting.Like.decrement (h : s.Like graph k) {e : Edge} {n : Node}
    (hn : n ∈ graph.nodes) (hid : n.id = e.targetId) (hpos : 1 ≤ k.inDegree e.targetId) :
    (s.decrement e).Like graph (relax k e.targetId) := by
  have hdeg : s.inDegree e.targetId = some (k.inDegree e.targetId : ℤ) :=
    hid ▸ h.inDegree n hn
  refine ⟨fun m hm => ?_, ?_, h.sorted, h.nodes⟩
  · rw [Sorting.decrement, relax, hdeg]
    by_cases hm' : m.id = e.targetId
    · simp only [hm', if_true, Function.update_self, Option.getD_some]
      exact congrArg some (by omega)
    · simp only [hm', if_false, Function.update_of_ne hm']
      exact h.inDegree m hm
  · rw [Sorting.decrement, relax, hdeg, Option.getD_some]
    dsimp only
    by_cases hzero : k.inDegree e.targetId - 1 = 0
    · rw [if_pos (by omega), if_pos hzero]
      exact (List.perm_append_singleton _ _).trans (h.queue.cons _)
    · rw [if_neg (by omega), if_neg hzero]
      exact h.queue

theorem sorted_foldl_decrement (edges : List Edge) (s : Sorting) :
    (edges.foldl Sorting.decrement s).sorted = s.sorted := by
  induction edges generalizing s with
  | nil => rfl
  | cons e edges ih => exact ih (s.decrement e)

/-- The sorted nodes are nodes of the graph. -/
theorem mem_nodes_of_mem_sorted {graph : FbdGraph} {n : Node} (h : n ∈ graph.sorted) :
    n ∈ graph.nodes := by
  have hstep : ∀ s t : Sorting, graph.sortStep s = .next t → (∀ m ∈ s.sorted, m ∈ graph.nodes) →
      ∀ m ∈ t.sorted, m ∈ graph.nodes := by
    intro s t hnext hs
    rw [sortStep] at hnext
    split at hnext
    · cases hnext
    · obtain rfl := Result.next.inj hnext
      rw [sorted_foldl_decrement]
      split
      · rename_i node hnode
        exact List.forall_mem_append.mpr
          ⟨hs, List.forall_mem_singleton.mpr (nodeById_mem hnode).1⟩
      · exact hs
  have hdone : ∀ s t : Sorting, graph.sortStep s = .done t → (∀ m ∈ s.sorted, m ∈ graph.nodes) →
      ∀ m ∈ t.sorted, m ∈ graph.nodes := by
    intro s t hdone hs
    rw [sortStep] at hdone
    split at hdone
    · exact Result.done.inj hdone ▸ hs
    · cases hdone
  rw [sorted] at h
  split at h
  · rename_i t ht
    exact (exec_of_run ht).invariant hstep hdone (List.forall_mem_nil _) n h
  · cases h

theorem Sorting.Like.foldl_decrement (h : s.Like graph k) {edges : List Edge}
    (hends : ∀ e ∈ edges, ∃ n ∈ graph.nodes, n.id = e.targetId)
    (hle : ∀ w, (edges.map Edge.targetId).count w ≤ k.inDegree w) :
    (edges.foldl Sorting.decrement s).Like graph ((edges.map Edge.targetId).foldl relax k) := by
  induction edges generalizing s k with
  | nil => exact h
  | cons e edges ih =>
      obtain ⟨n, hn, hid⟩ := hends e List.mem_cons_self
      have hcount : ∀ w, (edges.map Edge.targetId).count w +
          (if e.targetId = w then 1 else 0) ≤ k.inDegree w := by
        intro w
        have := hle w
        rw [List.map_cons, List.count_cons] at this
        simpa using this
      refine ih (h.decrement hn hid ?_) (fun e' he' => hends e' (List.mem_cons_of_mem _ he'))
        fun w => ?_
      · have := hcount e.targetId
        rw [if_pos rfl] at this
        omega
      · have := hcount w
        rw [relax]
        dsimp only
        by_cases hw : w = e.targetId
        · rw [hw, if_pos rfl] at this
          rw [hw, Function.update_self]
          omega
        · rw [Function.update_of_ne hw]
          omega

/-! ### The sort -/

theorem mem_seeds {w : String} :
    w ∈ graph.seeds ↔ w ∈ graph.nodes.map Node.id ∧ ∀ u, ¬graph.Wired u w := by
  rw [seeds, List.mem_map, List.mem_map]
  constructor
  · rintro ⟨n, hn, rfl⟩
    obtain ⟨hn, hnone⟩ := List.mem_filter.mp hn
    refine ⟨⟨n, hn, rfl⟩, ?_⟩
    rintro u ⟨e, he, -, heq⟩
    have hempty : graph.incomingEdges n.id = [] := List.isEmpty_iff.mp hnone
    have hmem : e ∈ graph.incomingEdges n.id := List.mem_filter.mpr ⟨he, by simp [heq]⟩
    rw [hempty] at hmem
    cases hmem
  · rintro ⟨⟨n, hn, rfl⟩, hnone⟩
    refine ⟨n, List.mem_filter.mpr ⟨hn, List.isEmpty_iff.mpr ?_⟩, rfl⟩
    refine List.filter_eq_nil_iff.mpr fun e he heq => hnone e.sourceId ⟨e, he, rfl, ?_⟩
    exact eq_of_beq heq

theorem sortStart_like : graph.sortStart.Like graph (start graph.multigraph graph.seeds) where
  inDegree n hn := by
    have hany : (graph.nodes.any fun m => m.id == n.id) = true :=
      List.any_eq_true.mpr ⟨n, hn, beq_self_eq_true n.id⟩
    have hpending : graph.multigraph.pending [] n.id = (graph.incomingEdges n.id).length := by
      rw [Multigraph.pending, List.countP_eq_length_filter, incomingEdges]
      simp [multigraph, Bool.beq_eq_decide_eq]
    change (if _ then some _ else none) = some ((graph.multigraph.pending [] n.id : ℕ) : ℤ)
    rw [if_pos hany, hpending]
  queue := List.Perm.refl _
  sorted := rfl
  nodes := nofun

/-- What the sort needs of a graph: nodes with unique ids, and edges between them without
loops. -/
structure Sortable (graph : FbdGraph) : Prop where
  nodes : (graph.nodes.map Node.id).Nodup
  ends : ∀ e ∈ graph.edges,
    e.sourceId ∈ graph.nodes.map Node.id ∧ e.targetId ∈ graph.nodes.map Node.id
  acyclic : graph.multigraph.Acyclic

/-- The graphs that the validation accepts can be sorted. -/
theorem sortable_of_validateGraph (hnodes : (graph.nodes.map Node.id).Nodup)
    (hvalid : (validateGraph graph).valid = true) : graph.Sortable where
  nodes := hnodes
  ends e he := by
    obtain ⟨⟨m, hm, -⟩, n, hn, -⟩ := (validateGraph_valid_iff.mp hvalid).1 e he
    obtain ⟨hm, hmid⟩ := nodeById_mem hm
    obtain ⟨hn, hnid⟩ := nodeById_mem hn
    exact ⟨hmid ▸ List.mem_map_of_mem hm, hnid ▸ List.mem_map_of_mem hn⟩
  acyclic := not_transGen_of_validateGraph hvalid

theorem not_fed_seed : ∀ u w, graph.multigraph.Edge u w → w ∈ graph.seeds →
    ¬graph.multigraph.Fed graph.seeds u :=
  fun u _ hedge hw => absurd hedge ((mem_seeds.mp hw).2 u)

variable (hgraph : graph.Sortable)
include hgraph

theorem Sortable.fed : ∀ w, graph.multigraph.Fed graph.seeds w ↔ w ∈ graph.nodes.map Node.id := by
  refine fun w => ⟨fun h => ?_, fed_of_acyclic hgraph.acyclic ?_ ?_ w⟩
  · cases h with
    | seed h => exact (mem_seeds.mp h).1
    | edges hsome _ =>
        obtain ⟨u, e, he, -, rfl⟩ := hsome
        exact (hgraph.ends e he).2
  · rintro u w ⟨e, he, rfl, rfl⟩
    exact (hgraph.ends e he).1
  · exact fun w hw hnone => mem_seeds.mpr ⟨hw, hnone⟩

/-- A round of the sort is one of the traversal. -/
theorem Sortable.sortStep (h : s.Like graph k) (hk : Inv graph.multigraph graph.seeds k) :
    (∃ t, graph.sortStep s = .done t) ∨ ∃ t k', graph.sortStep s = .next t ∧ t.Like graph k' ∧
      Inv graph.multigraph graph.seeds k' ∧ t.sorted.length = s.sorted.length + 1 := by
  rw [FbdGraph.sortStep]
  cases hqueue : s.queue with
  | nil => exact Or.inl ⟨s, rfl⟩
  | cons id queue =>
      refine Or.inr ?_
      have hperm : k.queue.Perm (id :: queue) := by
        rw [← hqueue]
        exact h.queue.symm
      have hk' : Inv graph.multigraph graph.seeds { k with queue := id :: queue } :=
        hk.perm rfl hperm.symm rfl
      have hmem : id ∈ graph.nodes.map Node.id := by
        rw [← hgraph.fed]
        exact hk'.fed id (by simp)
      obtain ⟨n, hn, rfl⟩ := List.mem_map.mp hmem
      dsimp only
      rw [(nodeById_iff hgraph.nodes).mpr ⟨hn, rfl⟩]
      have hlike : (⟨s.inDegree, queue, s.sorted ++ [n]⟩ : Sorting).Like graph
          ⟨k.inDegree, queue, k.order ++ [n.id]⟩ := by
        refine ⟨h.inDegree, List.Perm.refl _, ?_, fun m hm => ?_⟩
        · rw [List.map_append, h.sorted]
          rfl
        · rcases List.mem_append.mp hm with hm | hm
          · exact h.nodes m hm
          · rwa [List.mem_singleton.mp hm]
      have hnew : n.id ∉ k.order := fun hmem =>
        (List.nodup_append.mp hk'.nodup).2.2 n.id hmem n.id List.mem_cons_self rfl
      have hcount : ∀ w, ((graph.edges.filter fun e =>
          e.sourceId == n.id).map Edge.targetId).count w
          ≤ k.inDegree w := by
        intro w
        have hpending : graph.multigraph.pending k.order w = _ :=
          Multigraph.pending_concat hnew
        have hdegree := hk.degree w
        change ((graph.multigraph.out n.id).map graph.multigraph.tgt).count w ≤ k.inDegree w
        omega
      have hends : ∀ e ∈ graph.edges.filter fun e => e.sourceId == n.id,
          ∃ m ∈ graph.nodes, m.id = e.targetId := fun e he =>
        List.mem_map.mp (hgraph.ends e (List.mem_filter.mp he).1).2
      refine ⟨_, _, rfl, hlike.foldl_decrement hends hcount, inv_visit not_fed_seed hk', ?_⟩
      rw [sorted_foldl_decrement, List.length_append, List.length_singleton]

/-- A state of the sort on its way. -/
def Sorting.OnTheWay (graph : FbdGraph) (s : Sorting) : Prop :=
  ∃ k : State String, s.Like graph k ∧ Inv graph.multigraph graph.seeds k

theorem Sortable.length_le (h : s.OnTheWay graph) : s.sorted.length ≤ graph.nodes.length := by
  obtain ⟨k, hlike, hk⟩ := h
  have hnodup : (s.sorted.map Node.id).Nodup := by
    rw [hlike.sorted]
    exact (List.nodup_append.mp hk.nodup).1
  have hsub : s.sorted.map Node.id ⊆ graph.nodes.map Node.id := by
    intro w hw
    rw [hlike.sorted] at hw
    exact hgraph.fed w |>.mp (hk.fed w (List.mem_append_left _ hw))
  simpa using (hnodup.subperm hsub).length_le

/-- The sort has one node more in each round, and ends when there are no more. -/
theorem Sortable.sorted_onTheWay :
    ∃ t : Sorting, graph.sorted = t.sorted ∧ t.OnTheWay graph ∧ t.queue = [] := by
  have hround : ∀ s : Sorting, s.OnTheWay graph →
      (∃ t, graph.sortStep s = .done t) ∨ ∃ t, graph.sortStep s = .next t ∧ t.OnTheWay graph ∧
        graph.nodes.length - t.sorted.length < graph.nodes.length - s.sorted.length := by
    rintro s ⟨k, hlike, hk⟩
    rcases hgraph.sortStep hlike hk with hdone | ⟨t, k', hnext, hlike', hk', hlength⟩
    · exact Or.inl hdone
    · have hle := hgraph.length_le ⟨k', hlike', hk'⟩
      exact Or.inr ⟨t, hnext, ⟨k', hlike', hk'⟩, by omega⟩
  have hstart : graph.sortStart.OnTheWay graph :=
    ⟨_, sortStart_like, inv_start (hgraph.nodes.sublist (List.filter_sublist.map _))⟩
  have hnext : ∀ s t : Sorting, graph.sortStep s = .next t → s.OnTheWay graph →
      t.OnTheWay graph := by
    rintro s t hnext ⟨k, hlike, hk⟩
    rcases hgraph.sortStep hlike hk with ⟨u, hdone⟩ | ⟨u, k', hnext', hlike', hk', -⟩
    · rw [hdone] at hnext
      cases hnext
    · rw [hnext'] at hnext
      obtain rfl := Result.next.inj hnext
      exact ⟨k', hlike', hk'⟩
  have hdone : ∀ s t : Sorting, graph.sortStep s = .done t → s.OnTheWay graph →
      t.OnTheWay graph ∧ t.queue = [] := by
    intro s t hdone hs
    rw [FbdGraph.sortStep] at hdone
    cases hqueue : s.queue with
    | nil =>
        rw [hqueue] at hdone
        obtain rfl := Result.done.inj hdone
        exact ⟨hs, hqueue⟩
    | cons id queue =>
        rw [hqueue] at hdone
        cases hdone
  have hrun : ∃ t, run graph.sortStep (graph.nodes.length + graph.edges.length + 1)
      graph.sortStart = some (.ok t) := run_of_decreasing hround hstart (by omega)
  obtain ⟨t, ht⟩ := hrun
  exact ⟨t, by rw [sorted, ht], (exec_of_run ht).invariant hnext hdone hstart⟩

/-- The sort loses no node and doubles none. -/
theorem Sortable.sorted_perm : graph.sorted.Perm graph.nodes := by
  obtain ⟨t, ht, ⟨k, hlike, hk⟩, hempty⟩ := hgraph.sorted_onTheWay
  have hnil : k.queue = [] := List.perm_nil.mp (hempty ▸ hlike.queue.symm)
  have hnodup : (t.sorted.map Node.id).Nodup := by
    rw [hlike.sorted]
    exact (List.nodup_append.mp hk.nodup).1
  have hmem : ∀ w, w ∈ k.order ↔ w ∈ graph.nodes.map Node.id := by
    intro w
    rw [hk.mem_order_iff hnil, hgraph.fed]
  rw [ht]
  refine (List.perm_ext_iff_of_nodup hnodup.of_map hgraph.nodes.of_map).mpr fun n => ?_
  refine ⟨hlike.nodes n, fun hn => ?_⟩
  have hid := (hmem n.id).mpr (List.mem_map_of_mem hn)
  rw [← hlike.sorted] at hid
  obtain ⟨m, hm, hmid⟩ := List.mem_map.mp hid
  rwa [← List.inj_on_of_nodup_map hgraph.nodes (hlike.nodes m hm) hn hmid]

/-- No wire leads back in the order. -/
theorem Sortable.sorted_pairwise :
    graph.sorted.Pairwise fun m n => ¬graph.Wired n.id m.id := by
  obtain ⟨t, ht, ⟨k, hlike, hk⟩, -⟩ := hgraph.sorted_onTheWay
  have hsorted := hk.sorted
  rw [Multigraph.Sorted, ← hlike.sorted, List.pairwise_map] at hsorted
  rw [ht]
  exact hsorted

end FbdGraph

end Weftik.FbdEditor
