import Weftik.Lib.DepthFirst

/-!
# The Grey Path

The grey nodes of a depth-first search are those on the stack, and the parents lead from the
top of the stack down to the root along edges. An edge from the top into a grey node
therefore closes a walk, and the walk along the parents comes to that node before the stack
is used up.

## Main definitions

* `ClosedWalk`: a walk along edges that ends where it starts.
* `Terminates`: every search at a root ends, and so does every walk along the parents.

## Main results

* `terminates`: the search terminates when its nodes are closed under successors.
* `closedWalk_of_mem_detectCycles`: what the search reports are closed walks.
* `detectCycles_ne_nil_iff`: the search reports something iff a cycle goes through a root.
-/

open Machine Relation

namespace DepthFirst

variable {α : Type} {succ : α → List α}

/-- A walk along edges, of one edge or more, that ends where it starts. -/
def ClosedWalk (succ : α → List α) (cycle : List α) : Prop :=
  ∃ v walk, cycle = v :: (walk ++ [v]) ∧ cycle.IsChain fun u w => w ∈ succ u

theorem transGen_of_isChain {v w : α} {walk : List α}
    (h : (v :: (walk ++ [w])).IsChain fun u w => w ∈ succ u) :
    TransGen (fun u w => w ∈ succ u) v w := by
  induction walk generalizing v with
  | nil => exact .single (List.isChain_cons_cons.mp h).1
  | cons u walk ih =>
      obtain ⟨hedge, hrest⟩ := List.isChain_cons_cons.mp h
      exact .head hedge (ih hrest)

/-- A closed walk goes through a cycle. -/
theorem ClosedWalk.exists_transGen {cycle : List α} (h : ClosedWalk succ cycle) :
    ∃ v, TransGen (fun u w => w ∈ succ u) v v := by
  obtain ⟨v, walk, rfl, hchain⟩ := h
  exact ⟨v, transGen_of_isChain hchain⟩

section

variable [DecidableEq α]

/-! ### The invariant of the search -/

/-- The grey nodes are those on the stack, the parents lead down the stack along edges, and
what has been reported are closed walks. -/
structure GreyPath (succ : α → List α) (s : State α) : Prop where
  grey : ∀ v, s.colour v = .grey ↔ v ∈ s.stack.map Frame.node
  nodup : (s.stack.map Frame.node).Nodup
  path : (s.stack.map Frame.node).IsChain fun u w => s.parent u = some w ∧ u ∈ succ w
  closed : ∀ cycle ∈ s.cycles, ClosedWalk succ cycle

/-- The parents up to a node of the path are the nodes before it. -/
theorem parentsUpTo_path {parent : α → Option α} {target : α} {before after : List α}
    (hpath : (before ++ target :: after).IsChain fun u w => parent u = some w ∧ u ∈ succ w)
    (hnew : target ∉ before) {fuel : ℕ} (hfuel : before.length ≤ fuel) :
    parentsUpTo parent target fuel (before ++ target :: after).head? = before := by
  induction before generalizing fuel with
  | nil =>
      cases fuel with
      | zero => rfl
      | succ fuel => exact if_pos rfl
  | cons u before ih =>
      cases fuel with
      | zero => cases hfuel
      | succ fuel =>
          have hne : u ≠ target := fun h => hnew (h ▸ List.mem_cons_self)
          have hparent : parent u = (before ++ target :: after).head? := by
            cases before with
            | nil => exact (List.isChain_cons_cons.mp hpath).1.1
            | cons w before => exact (List.isChain_cons_cons.mp hpath).1.1
          have hrest := ih hpath.tail (fun h => hnew (List.mem_cons_of_mem _ h))
            (Nat.le_of_succ_le_succ hfuel)
          rw [List.cons_append, List.head?_cons, parentsUpTo, if_neg hne, hparent, hrest]

variable {s t : State α} {frame : Frame α} {rest : List (Frame α)} {neighbour : α}

omit [DecidableEq α] in
/-- A grey node splits the path. -/
theorem GreyPath.split (hs : GreyPath succ s) (hgrey : s.colour neighbour = .grey) :
    ∃ before after, s.stack.map Frame.node = before ++ neighbour :: after ∧
      neighbour ∉ before := by
  obtain ⟨before, after, hsplit⟩ := List.append_of_mem ((hs.grey neighbour).mp hgrey)
  have hnodup := hs.nodup
  rw [hsplit] at hnodup
  refine ⟨before, after, hsplit, fun hmem => ?_⟩
  exact (List.nodup_append.mp hnodup).2.2 neighbour hmem neighbour List.mem_cons_self rfl

/-- The walk along the parents comes to a grey node before the stack is used up. -/
theorem GreyPath.parentsUpTo (hs : GreyPath succ s) {before after : List α}
    (hsplit : s.stack.map Frame.node = before ++ neighbour :: after) (hnew : neighbour ∉ before)
    (hstack : s.stack = frame :: rest) {fuel : ℕ} (hfuel : s.stack.length ≤ fuel) :
    DepthFirst.parentsUpTo s.parent neighbour fuel (some frame.node) = before := by
  have hhead : (before ++ neighbour :: after).head? = some frame.node := by
    rw [← hsplit, hstack]
    rfl
  have hlength : before.length ≤ s.stack.length := by
    rw [← List.length_map (f := Frame.node), hsplit, List.length_append]
    exact Nat.le_add_right _ _
  have hpath := hs.path
  rw [hsplit] at hpath
  rw [← hhead]
  exact parentsUpTo_path hpath hnew (hlength.trans hfuel)

/-- An edge from the top of the stack into a grey node closes a walk. -/
theorem GreyPath.closedWalk (hs : GreyPath succ s) (hstack : s.stack = frame :: rest)
    (hedge : neighbour ∈ succ frame.node) (hgrey : s.colour neighbour = .grey) :
    ClosedWalk succ (s.cycle frame.node neighbour) := by
  obtain ⟨before, after, hsplit, hnew⟩ := hs.split hgrey
  have hpath := hs.path
  rw [hsplit] at hpath
  have hup : (before ++ [neighbour]).IsChain fun u w => u ∈ succ w := by
    rw [List.append_cons] at hpath
    exact hpath.left_of_append.imp fun u w h => h.2
  have hcycle : s.cycle frame.node neighbour =
      (neighbour :: (before ++ [neighbour])).reverse := by
    rw [State.cycle, hs.parentsUpTo hsplit hnew hstack le_rfl, List.cons_append]
  refine ⟨neighbour, before.reverse, ?_, ?_⟩
  · rw [hcycle]
    simp
  · rw [hcycle, List.isChain_reverse]
    cases before with
    | nil =>
        have hframe : frame.node = neighbour := by
          rw [hstack] at hsplit
          exact (List.cons.inj hsplit).1
        exact List.isChain_cons_cons.mpr ⟨hframe ▸ hedge, hup⟩
    | cons u before =>
        have hframe : frame.node = u := by
          rw [hstack] at hsplit
          exact (List.cons.inj hsplit).1
        exact List.isChain_cons_cons.mpr ⟨hframe ▸ hedge, hup⟩

/-- A step keeps the grey path. -/
theorem GreyPath.step (hs : GreyPath succ s) (h : DepthFirst.step succ s = .next t) :
    GreyPath succ t := by
  have hgrey := hs.grey
  have hnodup := hs.nodup
  have hpath := hs.path
  cases step_moves h with
  | @finish frame rest hstack hnext =>
      rw [hstack, List.map_cons] at hgrey hnodup hpath
      refine ⟨fun v => ?_, hnodup.tail, hpath.tail, hs.closed⟩
      by_cases hv : v = frame.node
      · simp [hv, (List.nodup_cons.mp hnodup).1]
      · change s.paint frame.node .black v = .grey ↔ _
        rw [paint_of_ne s _ hv, hgrey v, List.mem_cons]
        exact or_iff_right hv
  | @descend frame rest neighbour parent hstack hnext hwhite =>
      have hparent : parent = fun v => if v = neighbour then some frame.node else s.parent v := by
        rw [DepthFirst.step, hstack] at h
        dsimp only at h
        rw [hnext] at h
        dsimp only at h
        rw [hwhite] at h
        exact (congrArg State.parent (Result.next.inj h)).symm
      rw [hstack, List.map_cons] at hgrey hnodup hpath
      have hnew : neighbour ∉ frame.node :: rest.map Frame.node := by
        rw [← hgrey, hwhite]
        rintro ⟨⟩
      refine ⟨fun v => ?_, List.nodup_cons.mpr ⟨hnew, hnodup⟩, ?_, hs.closed⟩
      · by_cases hv : v = neighbour
        · simp [hv]
        · change s.paint neighbour .grey v = .grey ↔ _
          rw [paint_of_ne s _ hv, hgrey v]
          exact (List.mem_cons.trans (or_iff_right hv)).symm
      · subst hparent
        refine List.isChain_cons_cons.mpr ⟨⟨if_pos rfl, List.mem_of_getElem? hnext⟩, ?_⟩
        -- the nodes that were on the stack keep their parents
        refine hpath.imp_of_mem_imp fun u w hu _ hparent => ⟨?_, hparent.2⟩
        have hne : u ≠ neighbour := fun h => hnew (h ▸ hu)
        exact (if_neg hne).trans hparent.1
  | @report frame rest neighbour cycle hstack hnext hgreyNeighbour =>
      have hcycle : cycle = s.cycle frame.node neighbour := by
        rw [DepthFirst.step, hstack] at h
        dsimp only at h
        rw [hnext] at h
        dsimp only at h
        rw [hgreyNeighbour] at h
        have hcycles := congrArg State.cycles (Result.next.inj h)
        exact (List.singleton_inj.mp (List.append_cancel_left hcycles)).symm
      have hclosed := hs.closedWalk hstack (List.mem_of_getElem? hnext) hgreyNeighbour
      rw [hstack, List.map_cons] at hgrey hnodup hpath
      refine ⟨hgrey, hnodup, hpath, fun c hc => ?_⟩
      rcases List.mem_append.mp hc with hc | hc
      · exact hs.closed c hc
      · rw [List.mem_singleton.mp hc, hcycle]
        exact hclosed
  | @skip frame rest neighbour hstack hnext _ =>
      rw [hstack, List.map_cons] at hgrey hnodup hpath
      exact ⟨hgrey, hnodup, hpath, hs.closed⟩

/-! ### The searches at the roots -/

/-- Between two searches. -/
def AtRest (succ : α → List α) (s : State α) : Prop := GreyPath succ s ∧ s.stack = []

theorem AtRest.enter (hs : AtRest succ s) (root : α) : GreyPath succ (s.enter root) := by
  obtain ⟨hs, hempty⟩ := hs
  refine ⟨fun v => ?_, List.nodup_singleton _, List.isChain_singleton _, hs.closed⟩
  by_cases hv : v = root
  · simp [State.enter, hv]
  · change s.paint root .grey v = .grey ↔ _
    rw [paint_of_ne s _ hv, hs.grey v, hempty]
    simp [State.enter, hv]

omit [DecidableEq α] in
theorem atRest_start : AtRest succ (start : State α) :=
  ⟨⟨fun v => by simp [start], List.nodup_nil, List.isChain_nil, nofun⟩, rfl⟩

variable {all roots : List α}

theorem AtRest.visit (hclosed : ∀ v ∈ all, ∀ w ∈ succ v, w ∈ all) (hs : AtRest succ s)
    {root : α} (hroot : root ∈ all) :
    AtRest succ (DepthFirst.visit succ (fuelFor succ all) s root) := by
  by_cases hwhite : s.colour root = .white
  · rw [DepthFirst.visit, if_pos hwhite]
    refine (dfs_exec hclosed hroot hwhite).invariant (I := GreyPath succ)
      (fun _ _ hnext hu => hu.step hnext) (fun u v hdone hu => ?_) (hs.enter root)
    obtain ⟨rfl, hempty⟩ := step_done hdone
    exact ⟨hu, hempty⟩
  · rw [DepthFirst.visit, if_neg hwhite]
    exact hs

theorem atRest_foldl_visit (hclosed : ∀ v ∈ all, ∀ w ∈ succ v, w ∈ all)
    (hroots : ∀ v ∈ roots, v ∈ all) (hs : AtRest succ s) :
    AtRest succ (roots.foldl (visit succ (fuelFor succ all)) s) := by
  induction roots generalizing s with
  | nil => exact hs
  | cons root roots ih =>
      exact ih (fun v hv => hroots v (List.mem_cons_of_mem _ hv))
        (hs.visit hclosed (hroots root List.mem_cons_self))

/-- Every search at one of the roots ends, and every walk along the parents that it does on
its way ends: further fuel makes it no longer. -/
def Terminates (succ : α → List α) (fuel : ℕ) (roots : List α) : Prop :=
  ∀ before root after, roots = before ++ root :: after →
    let s := before.foldl (visit succ fuel) start
    s.colour root = .white →
      Exec (step succ) (s.enter root) (.ok (dfs succ fuel s root)) ∧
        ∀ t, Steps (step succ) (s.enter root) t → ∀ frame rest neighbour,
          t.stack = frame :: rest → (succ frame.node)[frame.next]? = some neighbour →
          t.colour neighbour = .grey → ∀ more ≥ t.stack.length,
            parentsUpTo t.parent neighbour more (some frame.node) =
              parentsUpTo t.parent neighbour t.stack.length (some frame.node)

/-- The search terminates when its nodes are closed under successors. -/
theorem terminates (hclosed : ∀ v ∈ all, ∀ w ∈ succ v, w ∈ all)
    (hroots : ∀ v ∈ roots, v ∈ all) : Terminates succ (fuelFor succ all) roots := by
  rintro before root after rfl s hwhite
  have hroot : root ∈ all := hroots root (by simp)
  have hs : AtRest succ s :=
    atRest_foldl_visit hclosed (fun v hv => hroots v (List.mem_append_left _ hv)) atRest_start
  refine ⟨dfs_exec hclosed hroot hwhite, ?_⟩
  intro t ht frame rest neighbour hstack _ hgrey more hmore
  have hpath : GreyPath succ t :=
    ht.invariant (fun _ _ hnext hu => hu.step hnext) (hs.enter root)
  obtain ⟨up, down, hsplit, hnew⟩ := hpath.split hgrey
  rw [hpath.parentsUpTo hsplit hnew hstack hmore, hpath.parentsUpTo hsplit hnew hstack le_rfl]

/-- What the search reports are closed walks. -/
theorem closedWalk_of_mem_detectCycles (hclosed : ∀ v ∈ all, ∀ w ∈ succ v, w ∈ all)
    (hroots : ∀ v ∈ roots, v ∈ all) {cycle : List α}
    (h : cycle ∈ detectCycles succ (fuelFor succ all) roots) : ClosedWalk succ cycle :=
  (atRest_foldl_visit hclosed hroots atRest_start).1.closed cycle h

/-- The search reports something iff a cycle goes through a root, when every node with a
successor is a root. -/
theorem detectCycles_ne_nil_iff (hclosed : ∀ v ∈ all, ∀ w ∈ succ v, w ∈ all)
    (hroots : ∀ v ∈ roots, v ∈ all) (hsource : ∀ v w, w ∈ succ v → v ∈ roots) :
    detectCycles succ (fuelFor succ all) roots ≠ [] ↔
      ∃ v, TransGen (fun u w => w ∈ succ u) v v := by
  constructor
  · intro hfound
    obtain ⟨cycle, hcycle⟩ := List.exists_mem_of_ne_nil _ hfound
    exact (closedWalk_of_mem_detectCycles hclosed hroots hcycle).exists_transGen
  · rintro ⟨v, hcycle⟩ hquiet
    obtain ⟨w, hw, -⟩ := TransGen.head'_iff.mp hcycle
    exact not_transGen_of_detectCycles hclosed hroots hquiet (hsource v w hw) hcycle

end

end DepthFirst
