import Weftik.FbdEditor.Meaning
import Weftik.Lib.GreyPath

/-!
# Feedback Loops

The validation searches the wires depth-first, and the sort counts the wires into each node.
The first finds a loop exactly when the graph has one, each loop that it shows runs along
wires, and a graph in which it finds none is sorted completely.

## Main definitions

* `FbdEditor.FbdGraph.WiredWithin`: the wires between nodes that exist.

## Main results

* `FbdEditor.feedback_found_exactly`: the search and the sort of one graph.
-/

open Relation

namespace Weftik.FbdEditor

namespace FbdGraph

/-- There is an edge from the first node to the second, and the graph has both. -/
def WiredWithin (graph : FbdGraph) (u v : String) : Prop :=
  u ∈ graph.nodes.map Node.id ∧ v ∈ graph.nodes.map Node.id ∧ graph.Wired u v

/-- The edges of a walk are between nodes of the graph when it leads to one. -/
theorem isChain_wiredWithin {graph : FbdGraph} {v : String} {walk : List String}
    (h : (walk ++ [v]).IsChain fun u w => w ∈ graph.adj u) (hv : v ∈ graph.nodes.map Node.id) :
    (walk ++ [v]).IsChain graph.WiredWithin := by
  induction walk with
  | nil => exact List.isChain_singleton _
  | cons u walk ih =>
      have hrest := ih h.tail
      cases walk with
      | nil =>
          obtain ⟨hu, hwired⟩ := mem_adj_iff.mp (List.isChain_cons_cons.mp h).1
          exact List.isChain_cons_cons.mpr ⟨⟨hu, hv, hwired⟩, hrest⟩
      | cons w walk =>
          obtain ⟨hu, hwired⟩ := mem_adj_iff.mp (List.isChain_cons_cons.mp h).1
          have hw : w ∈ graph.nodes.map Node.id := by
            cases walk with
            | nil => exact (List.isChain_cons_cons.mp hrest).1.1
            | cons x walk => exact (List.isChain_cons_cons.mp hrest).1.1
          exact List.isChain_cons_cons.mpr ⟨⟨hu, hw, hwired⟩, hrest⟩

theorem transGen_wiredWithin {graph : FbdGraph} {u v : String}
    (h : TransGen (fun u w => w ∈ graph.adj u) u v) (hv : v ∈ graph.nodes.map Node.id) :
    TransGen graph.WiredWithin u v := by
  induction h using TransGen.head_induction_on with
  | single hedge =>
      obtain ⟨hu, hwired⟩ := mem_adj_iff.mp hedge
      exact .single ⟨hu, hv, hwired⟩
  | head hedge _ ih =>
      obtain ⟨hu, hwired⟩ := mem_adj_iff.mp hedge
      obtain ⟨w, hw, -⟩ := TransGen.head'_iff.mp ih
      exact .head ⟨hu, hw.1, hwired⟩ ih

variable (graph : FbdGraph)

/-- The cycles of the search are those of the graph restricted to its nodes. -/
theorem exists_transGen_adj_iff :
    (∃ v, TransGen (fun u w => w ∈ graph.adj u) v v) ↔ ∃ v, TransGen graph.WiredWithin v v := by
  constructor
  · rintro ⟨v, hcycle⟩
    obtain ⟨w, hw, -⟩ := TransGen.head'_iff.mp hcycle
    exact ⟨v, transGen_wiredWithin hcycle (mem_adj_iff.mp hw).1⟩
  · rintro ⟨v, hcycle⟩
    exact ⟨v, TransGen.mono (fun u w h => mem_adj_iff.mpr ⟨h.1, h.2.2⟩) v v hcycle⟩

theorem mentioned_closed : ∀ u ∈ graph.mentioned, ∀ w ∈ graph.adj u, w ∈ graph.mentioned := by
  intro u _ w hw
  obtain ⟨-, e, he, -, rfl⟩ := mem_adj_iff.mp hw
  exact List.mem_append_right _ (List.mem_map_of_mem he)

theorem mentioned_nodes : ∀ u ∈ graph.nodes.map Node.id, u ∈ graph.mentioned :=
  fun _ hu => List.mem_append_left _ hu

/-- What is reported is a closed walk along the wires between the nodes. -/
theorem closed_of_mem_detectCycles {cycle : List String} (h : cycle ∈ graph.detectCycles) :
    ∃ v walk, cycle = v :: (walk ++ [v]) ∧ cycle.IsChain graph.WiredWithin := by
  obtain ⟨v, walk, rfl, hchain⟩ := DepthFirst.closedWalk_of_mem_detectCycles
    graph.mentioned_closed graph.mentioned_nodes h
  have hv : v ∈ graph.nodes.map Node.id := by
    cases walk with
    | nil => exact (mem_adj_iff.mp (List.isChain_cons_cons.mp hchain).1).1
    | cons w walk => exact (mem_adj_iff.mp (List.isChain_cons_cons.mp hchain).1).1
  refine ⟨v, walk, rfl, ?_⟩
  rw [← List.cons_append] at hchain ⊢
  exact isChain_wiredWithin hchain hv

variable {graph}

/-- A node of the order comes after the sources of its wires. -/
theorem Sortable.source_before (hgraph : graph.Sortable) {before after : List Node} {n : Node}
    (hsorted : graph.sorted = before ++ n :: after) {e : Edge} (he : e ∈ graph.edges)
    (hid : e.targetId = n.id) : ∃ m ∈ before, m.id = e.sourceId := by
  obtain ⟨m, hm, hmid⟩ := List.mem_map.mp (hgraph.ends e he).1
  have hwired : graph.Wired m.id n.id := ⟨e, he, hmid.symm, hid⟩
  have hmem : m ∈ before ++ n :: after := hsorted ▸ hgraph.sorted_perm.mem_iff.mpr hm
  have hpairwise := hgraph.sorted_pairwise
  rw [hsorted, List.pairwise_append, List.pairwise_cons] at hpairwise
  rcases List.mem_append.mp hmem with hmem | hmem
  · exact ⟨m, hmem, hmid⟩
  · rcases List.mem_cons.mp hmem with rfl | hmem
    · exact absurd (TransGen.single hwired) (hgraph.acyclic m.id)
    · exact absurd hwired (hpairwise.2.1.1 m hmem)

end FbdGraph

open FbdGraph

/-- The search for feedback loops terminates, it finds some exactly when the wires between
the nodes have a cycle, and each one that it finds is a closed walk along them. The sort of
a graph that the validation accepts has every node once, after the sources of its wires. -/
theorem feedback_found_exactly (graph : FbdGraph)
    (hnodes : (graph.nodes.map Node.id).Nodup) :
    DepthFirst.Terminates graph.adj (DepthFirst.fuelFor graph.adj graph.mentioned)
        (graph.nodes.map Node.id) ∧
      (graph.detectCycles ≠ [] ↔ ∃ v, TransGen graph.WiredWithin v v) ∧
      (∀ cycle ∈ graph.detectCycles,
        ∃ v walk, cycle = v :: (walk ++ [v]) ∧ cycle.IsChain graph.WiredWithin) ∧
      ((validateGraph graph).valid = true →
        graph.sorted.Perm graph.nodes ∧
          ∀ before n after, graph.sorted = before ++ n :: after →
            ∀ e ∈ graph.edges, e.targetId = n.id → ∃ m ∈ before, m.id = e.sourceId) := by
  refine ⟨DepthFirst.terminates graph.mentioned_closed graph.mentioned_nodes, ?_,
    fun cycle => graph.closed_of_mem_detectCycles, fun hvalid => ?_⟩
  · rw [← graph.exists_transGen_adj_iff]
    exact DepthFirst.detectCycles_ne_nil_iff graph.mentioned_closed graph.mentioned_nodes
      fun v w hw => (mem_adj_iff.mp hw).1
  · have hgraph := sortable_of_validateGraph hnodes hvalid
    exact ⟨hgraph.sorted_perm, fun before n after hsorted e he hid =>
      hgraph.source_before hsorted he hid⟩

theorem feedback_found_exactly_chain :
    (chain.nodes.map Node.id).Nodup ∧ (validateGraph chain).valid = true ∧
      chain.sorted.Perm chain.nodes :=
  have hnodes : (chain.nodes.map Node.id).Nodup := by decide
  have hvalid : (validateGraph chain).valid = true := by decide
  ⟨hnodes, hvalid, ((feedback_found_exactly chain hnodes).2.2.2 hvalid).1⟩

end Weftik.FbdEditor
