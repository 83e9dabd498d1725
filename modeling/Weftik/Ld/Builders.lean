import Weftik.Ld.PowerFlow

/-!
# Builders of Contact Networks

Two builders make a network from lists of contacts: one puts the contacts in series, the
other puts branches in parallel, each of them a list of contacts in series.

## Main definitions

* `buildSerialNetwork`, `buildParallelNetwork`: the builders.
* `branchEdges`, `parallelEdges`: the edges that they make.

## Main results

* `buildSerialNetwork_isBuilt`, `buildParallelNetwork_isBuilt`: what the builders return.
-/

open Machine

namespace Weftik.Ld

/-! ### The builders -/

/-- One more contact in series, from the node reached so far to a new one. -/
def addContact (state : ContactNetwork × NodeId) (contact : Contact) :
    Except Panic (ContactNetwork × NodeId) := do
  let (net, next) := state.1.addNode
  let net ← net.addEdge state.2 next contact
  pure (net, next)

/-- `build_serial_network`. -/
def buildSerialNetwork (contacts : List Contact) : Except Panic ContactNetwork := do
  let (net, left) := ContactNetwork.new.addNode
  let (net, prev) ← contacts.foldlM addContact (net.setLeftRail left, left)
  pure (net.setOutputNode prev)

/-- One more contact of a branch of the given length: the last one leads to the output. -/
def addBranchContact (output len : ℕ) (state : ContactNetwork × NodeId)
    (entry : Contact × ℕ) : Except Panic (ContactNetwork × NodeId) := do
  let (net, next) := if entry.2 = len - 1 then (state.1, output) else state.1.addNode
  let net ← net.addEdge state.2 next entry.1
  pure (net, next)

/-- One more branch from the left rail to the output. -/
def addBranch (left output : NodeId) (net : ContactNetwork) (branch : List Contact) :
    Except Panic ContactNetwork := do
  let (net, _) ← branch.zipIdx.foldlM (addBranchContact output branch.length) (net, left)
  pure net

/-- `build_parallel_network`. -/
def buildParallelNetwork (branches : List (List Contact)) : Except Panic ContactNetwork := do
  let (net, left) := ContactNetwork.new.addNode
  let (net, output) := (net.setLeftRail left).addNode
  branches.foldlM (addBranch left output) (net.setOutputNode output)

/-! ### What the builders build -/

/-- The edges of some contacts in series, from a node to the output; the nodes between them
are numbered from `next` on. -/
def branchEdges (output : NodeId) : NodeId → NodeId → List Contact → List ContactEdge
  | _, _, [] => []
  | prev, _, [c] => [⟨prev, output, c⟩]
  | prev, next, c :: c' :: cs =>
      ⟨prev, next, c⟩ :: branchEdges output next (next + 1) (c' :: cs)

/-- The edges of some branches from the node `0` to the node `1`. -/
def parallelEdges : NodeId → List (List Contact) → List ContactEdge
  | _, [] => []
  | next, b :: bs => branchEdges 1 0 next b ++ parallelEdges (next + (b.length - 1)) bs

/-- The network has the given nodes and edges, and no order yet. -/
structure IsBuilt (net : ContactNetwork) (size : ℕ) (edges : List ContactEdge)
    (leftRail outputNode : Option NodeId) : Prop where
  length_nodes : net.nodes.length = size
  edges_eq : net.edges = edges
  leftRail_eq : net.leftRail = leftRail
  outputNode_eq : net.outputNode = outputNode
  dirty : net.dirty = true

section Build

variable {net : ContactNetwork} {size : ℕ} {edges : List ContactEdge}
  {leftRail outputNode : Option NodeId}

theorem IsBuilt.addNode (h : IsBuilt net size edges leftRail outputNode) :
    IsBuilt net.addNode.1 (size + 1) edges leftRail outputNode ∧ net.addNode.2 = size :=
  ⟨⟨List.length_append.trans (congrArg (· + 1) h.length_nodes), h.edges_eq, h.leftRail_eq,
    h.outputNode_eq, rfl⟩, h.length_nodes⟩

theorem IsBuilt.addEdge (h : IsBuilt net size edges leftRail outputNode) {source : NodeId}
    (hs : source < size) (target : NodeId) (c : Contact) :
    ∃ net', net.addEdge source target c = .ok net' ∧
      IsBuilt net' size (edges ++ [⟨source, target, c⟩]) leftRail outputNode := by
  have hlt : source < net.outgoing.length := by
    rw [net.length_outgoing, h.length_nodes]
    exact hs
  refine ⟨_, dif_pos hlt, h.length_nodes, ?_, h.leftRail_eq, h.outputNode_eq, rfl⟩
  exact congrArg (· ++ [_]) h.edges_eq

/-- A contact in series leads to a new node. -/
theorem IsBuilt.addContact (h : IsBuilt net size edges leftRail outputNode) {prev : NodeId}
    (hprev : prev < size) (c : Contact) :
    ∃ net', addContact (net, prev) c = .ok (net', size) ∧
      IsBuilt net' (size + 1) (edges ++ [⟨prev, size, c⟩]) leftRail outputNode := by
  obtain ⟨hnode, hid⟩ := h.addNode
  obtain ⟨net', hedge, hnet'⟩ := hnode.addEdge (Nat.lt_succ_of_lt hprev) size c
  refine ⟨net', ?_, hnet'⟩
  simp only [Ld.addContact, hid, hedge]
  rfl

/-- The contacts in series lead to the last node. -/
theorem IsBuilt.addContacts {prev : NodeId} (contacts : List Contact)
    (h : IsBuilt net (prev + 1) edges leftRail outputNode) :
    ∃ net', contacts.foldlM Ld.addContact (net, prev) = .ok (net', prev + contacts.length) ∧
      IsBuilt net' (prev + contacts.length + 1)
        (edges ++ branchEdges (prev + contacts.length) prev (prev + 1) contacts)
        leftRail outputNode := by
  induction contacts generalizing net prev edges with
  | nil => exact ⟨net, rfl, by rwa [branchEdges, List.append_nil]⟩
  | cons c contacts ih =>
      obtain ⟨net₁, hadd, hnet₁⟩ := h.addContact (Nat.lt_succ_self prev) c
      obtain ⟨net', hrest, hnet'⟩ := ih hnet₁
      have hlength : prev + 1 + contacts.length = prev + (c :: contacts).length :=
        Nat.add_right_comm prev 1 contacts.length
      refine ⟨net', ?_, ?_⟩
      · rw [List.foldlM_cons, hadd, ← hlength]
        exact hrest
      · rw [← hlength]
        rw [List.append_assoc] at hnet'
        cases contacts with
        | nil => exact hnet'
        | cons c' contacts => exact hnet'

/-- The network that the serial builder returns. -/
theorem buildSerialNetwork_isBuilt (contacts : List Contact) :
    ∃ net, buildSerialNetwork contacts = .ok net ∧
      IsBuilt net (contacts.length + 1) (branchEdges contacts.length 0 1 contacts) (some 0)
        (some contacts.length) := by
  have hrail : IsBuilt (ContactNetwork.new.addNode.1.setLeftRail 0) (0 + 1) [] (some 0) none :=
    ⟨rfl, rfl, rfl, rfl, rfl⟩
  obtain ⟨net, hadd, hnet⟩ := hrail.addContacts contacts
  rw [Nat.zero_add, List.nil_append] at hnet
  rw [Nat.zero_add] at hadd
  refine ⟨net.setOutputNode contacts.length, ?_,
    ⟨hnet.length_nodes, hnet.edges_eq, hnet.leftRail_eq, rfl, hnet.dirty⟩⟩
  have hnew : ContactNetwork.new.addNode.2 = 0 := rfl
  simp only [buildSerialNetwork, hnew, hadd]
  rfl

/-- The rest of a branch leads to the output. -/
theorem IsBuilt.addBranchContacts {output prev : NodeId} (branch : List Contact) {len i : ℕ}
    (hlen : i + branch.length = len) (hprev : prev < size) (houtput : output < size)
    (h : IsBuilt net size edges leftRail outputNode) :
    ∃ net' last, (branch.zipIdx i).foldlM (addBranchContact output len) (net, prev) =
        .ok (net', last) ∧
      IsBuilt net' (size + (branch.length - 1)) (edges ++ branchEdges output prev size branch)
        leftRail outputNode := by
  induction branch generalizing net size edges prev i with
  | nil => exact ⟨net, prev, rfl, by simpa [branchEdges] using h⟩
  | cons c branch ih =>
      rw [List.length_cons] at hlen
      cases branch with
      | nil =>
          have hlast : i = len - 1 := by
            rw [List.length_nil] at hlen
            omega
          obtain ⟨net', hedge, hnet'⟩ := h.addEdge hprev output c
          refine ⟨net', output, ?_, hnet'⟩
          simp only [List.zipIdx_cons, List.zipIdx_nil, List.foldlM_cons, List.foldlM_nil,
            addBranchContact, if_pos hlast, hedge]
          rfl
      | cons c' branch =>
          have hinner : i ≠ len - 1 := by
            rw [List.length_cons] at hlen
            omega
          obtain ⟨hnode, hid⟩ := h.addNode
          obtain ⟨net₁, hedge, hnet₁⟩ := hnode.addEdge (Nat.lt_succ_of_lt hprev) size c
          obtain ⟨net', last, hrest, hnet'⟩ := ih (i := i + 1) (by omega)
            (Nat.lt_succ_self size) (Nat.lt_succ_of_lt houtput) hnet₁
          refine ⟨net', last, ?_, ?_⟩
          · have hstep : addBranchContact output len (net, prev) (c, i) = .ok (net₁, size) := by
              simp only [addBranchContact, if_neg hinner, hid, hedge]
              rfl
            rw [List.zipIdx_cons, List.foldlM_cons, hstep]
            exact hrest
          · have hsize : size + ((c :: c' :: branch).length - 1) =
                size + 1 + ((c' :: branch).length - 1) := by
              simp only [List.length_cons]
              omega
            rw [hsize, branchEdges]
            rwa [List.append_assoc] at hnet'

end Build

/-- The number of nodes between the two ends of some branches. -/
def innerNodes (branches : List (List Contact)) : ℕ :=
  (branches.map fun b => b.length - 1).sum

/-- The network that the parallel builder returns. -/
theorem buildParallelNetwork_isBuilt (branches : List (List Contact)) :
    ∃ net, buildParallelNetwork branches = .ok net ∧
      IsBuilt net (2 + innerNodes branches) (parallelEdges 2 branches) (some 0) (some 1) := by
  have hbranches : ∀ (branches : List (List Contact)) {net : ContactNetwork} {size : ℕ}
      {edges : List ContactEdge}, 2 ≤ size → IsBuilt net size edges (some 0) (some 1) →
      ∃ net', branches.foldlM (addBranch 0 1) net = .ok net' ∧
        IsBuilt net' (size + innerNodes branches) (edges ++ parallelEdges size branches)
          (some 0) (some 1) := by
    intro branches
    induction branches with
    | nil =>
        intro net size edges _ h
        exact ⟨net, rfl, by rwa [parallelEdges, List.append_nil]⟩
    | cons b branches ih =>
        intro net size edges hsize h
        have hleft : 0 < size := by omega
        have hright : 1 < size := by omega
        obtain ⟨net₁, last, hadd, hnet₁⟩ :=
          h.addBranchContacts b (Nat.zero_add b.length) hleft hright
        obtain ⟨net', hrest, hnet'⟩ := ih (by omega) hnet₁
        refine ⟨net', ?_, ?_⟩
        · have hstep : addBranch 0 1 net b = .ok net₁ := by
            simp only [addBranch, hadd]
            rfl
          rw [List.foldlM_cons, hstep]
          exact hrest
        · rw [List.append_assoc, Nat.add_assoc] at hnet'
          exact hnet'
  exact hbranches branches le_rfl ⟨rfl, rfl, rfl, rfl, rfl⟩

end Weftik.Ld
