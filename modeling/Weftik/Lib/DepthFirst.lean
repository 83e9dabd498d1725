import Weftik.Lib.Machine

/-!
# Depth-First Search for Cycles

The search with three colours: a node is white until it is visited, grey while it is on the
stack, and black when all its successors have been looked at. An edge into a grey node
closes a cycle, which is read off the parents of the nodes and reported.

Each step takes one unit from a potential: every frame of the stack has one unit for each
edge that it has not looked at and one for its end, and every white node has its units for
later. A search that reports nothing leaves the black nodes in post-order, where every
successor of a node comes before it; so no cycle goes through them.

## Main definitions

* `step`: one round of the search.
* `detectCycles`: the search from each of some roots that is still white.
* `PostOrder`: the order in which the nodes become black.

## Main results

* `dfs_exec`: the search from a root ends within the fuel.
* `not_transGen_of_detectCycles`: when nothing is reported, no cycle goes through a root.
-/

open Machine Relation

namespace DepthFirst

variable {α : Type}

/-- What the search knows of a node. -/
inductive Colour
  | white
  | grey
  | black
  deriving DecidableEq, Repr

/-- A node on the path of the search, and the first of its successors that has not been
looked at. -/
structure Frame (α : Type) where
  node : α
  next : ℕ

/-- The search; the top of the stack comes first. -/
structure State (α : Type) where
  colour : α → Colour
  parent : α → Option α
  stack : List (Frame α)
  cycles : List (List α)

section

variable [DecidableEq α] (succ : α → List α)

/-- The parents of a node up to another one. -/
def parentsUpTo (parent : α → Option α) (target : α) : ℕ → Option α → List α
  | 0, _ => []
  | _ + 1, none => []
  | fuel + 1, some current =>
      if current = target then []
      else current :: parentsUpTo parent target fuel (parent current)

/-- The cycle that an edge from the top of the stack closes. -/
def State.cycle (s : State α) (node neighbour : α) : List α :=
  (neighbour :: parentsUpTo s.parent neighbour s.stack.length (some node) ++ [neighbour]).reverse

/-- The colours after a change of one. -/
def State.paint (s : State α) (node : α) (colour : Colour) : α → Colour :=
  fun v => if v = node then colour else s.colour v

/-- One round of the search. -/
def step (s : State α) : Result (State α) Empty :=
  match s.stack with
  | [] => .done s
  | frame :: rest =>
      match (succ frame.node)[frame.next]? with
      | none => .next { s with colour := s.paint frame.node .black, stack := rest }
      | some neighbour =>
          let stack := { frame with next := frame.next + 1 } :: rest
          match s.colour neighbour with
          | .grey =>
              .next { s with stack, cycles := s.cycles ++ [s.cycle frame.node neighbour] }
          | .white =>
              .next
                { s with
                  colour := s.paint neighbour .grey
                  parent := fun v => if v = neighbour then some frame.node else s.parent v
                  stack := ⟨neighbour, 0⟩ :: stack }
          | .black => .next { s with stack }

/-- The search at a root. -/
def State.enter (s : State α) (root : α) : State α :=
  { s with colour := s.paint root .grey, stack := [⟨root, 0⟩] }

/-- The search from a root. -/
def dfs (fuel : ℕ) (s : State α) (root : α) : State α :=
  match run (step succ) fuel (s.enter root) with
  | some (.ok t) => t
  | _ => s

/-- The search from a root that is still white. -/
def visit (fuel : ℕ) (s : State α) (root : α) : State α :=
  if s.colour root = .white then dfs succ fuel s root else s

/-- Nothing has been visited. -/
def start : State α := ⟨fun _ => .white, fun _ => none, [], []⟩

/-- The cycles that the search from each of the roots reports. -/
def detectCycles (fuel : ℕ) (roots : List α) : List (List α) :=
  (roots.foldl (visit succ fuel) start).cycles

/-- Enough fuel for a search among some nodes. -/
def fuelFor (nodes : List α) : ℕ := (nodes.map fun v => (succ v).length + 1).sum + 1

end

/-! ### Post-order -/

/-- The nodes, the last one first, in an order in which all successors of a node come before
it. -/
inductive PostOrder (succ : α → List α) : List α → Prop
  | nil : PostOrder succ []
  | cons {v : α} {order : List α} :
      (∀ w ∈ succ v, w ∈ order) → v ∉ order → PostOrder succ order → PostOrder succ (v :: order)

variable {succ : α → List α} {order : List α}

theorem PostOrder.closed (h : PostOrder succ order) {u w : α} (hu : u ∈ order)
    (hw : w ∈ succ u) : w ∈ order := by
  induction h with
  | nil => cases hu
  | cons hsucc _ _ ih =>
      rcases List.mem_cons.mp hu with rfl | hu
      · exact List.mem_cons_of_mem _ (hsucc w hw)
      · exact List.mem_cons_of_mem _ (ih hu)

theorem PostOrder.closed_path (h : PostOrder succ order) {u w : α} (hu : u ∈ order)
    (hpath : ReflTransGen (fun u w => w ∈ succ u) u w) : w ∈ order := by
  induction hpath with
  | refl => exact hu
  | tail _ hw ih => exact h.closed ih hw

/-- No cycle goes through a node of a post-order. -/
theorem PostOrder.not_transGen (h : PostOrder succ order) {u : α} (hu : u ∈ order) :
    ¬ TransGen (fun u w => w ∈ succ u) u u := by
  induction h with
  | nil => cases hu
  | cons hsucc hnew hrest ih =>
      rcases List.mem_cons.mp hu with rfl | hu
      · intro hcycle
        obtain ⟨w, hw, hpath⟩ := TransGen.head'_iff.mp hcycle
        exact hnew (hrest.closed_path (hsucc w hw) hpath)
      · exact ih hu

/-! ### The search ends -/

variable [DecidableEq α]

@[simp] theorem paint_self (s : State α) (v : α) (c : Colour) : s.paint v c v = c := if_pos rfl

theorem paint_of_ne (s : State α) {v w : α} (c : Colour) (h : w ≠ v) :
    s.paint v c w = s.colour w :=
  if_neg h

/-- Nodes that contain all that the search can come to. -/
def Closed (succ : α → List α) (nodes : Finset α) : Prop := ∀ v ∈ nodes, ∀ w ∈ succ v, w ∈ nodes

/-- The stack holds nodes that have been visited, and has not looked at more edges than
there are. -/
def State.Bounded (succ : α → List α) (nodes : Finset α) (s : State α) : Prop :=
  ∀ f ∈ s.stack, f.node ∈ nodes ∧ s.colour f.node ≠ .white ∧ f.next ≤ (succ f.node).length

/-- The steps that the search still does. -/
def State.potential (succ : α → List α) (nodes : Finset α) (s : State α) : ℕ :=
  (s.stack.map fun f => (succ f.node).length + 1 - f.next).sum +
    ∑ v ∈ nodes with s.colour v = .white, ((succ v).length + 1)

variable {nodes : Finset α}

/-- The white nodes after one of them has been painted. -/
theorem sum_paint (nodes : Finset α) {s : State α} {v : α} (hv : v ∈ nodes)
    (hwhite : s.colour v = .white)
    {c : Colour} (hc : c ≠ .white) (f : α → ℕ) :
    (∑ w ∈ nodes with s.paint v c w = .white, f w) + f v =
      ∑ w ∈ nodes with s.colour w = .white, f w := by
  have herase : (nodes.filter fun w => s.paint v c w = .white) =
      (nodes.filter fun w => s.colour w = .white).erase v := by
    ext w
    rw [Finset.mem_erase, Finset.mem_filter, Finset.mem_filter]
    by_cases hwv : w = v
    · rw [hwv, paint_self]
      simp [hc]
    · rw [paint_of_ne s c hwv]
      simp [hwv]
  rw [herase]
  exact Finset.sum_erase_add _ _ (Finset.mem_filter.mpr ⟨hv, hwhite⟩)

/-- The white nodes after a node that is not white has been painted black. -/
theorem sum_paint_of_not_white (nodes : Finset α) {s : State α} {v : α}
    (hv : s.colour v ≠ .white) {c : Colour}
    (hc : c ≠ .white) (f : α → ℕ) :
    (∑ w ∈ nodes with s.paint v c w = .white, f w) =
      ∑ w ∈ nodes with s.colour w = .white, f w := by
  congr 1
  ext w
  rw [Finset.mem_filter, Finset.mem_filter]
  by_cases hwv : w = v
  · rw [hwv, paint_self]
    simp [hc, hv]
  · rw [paint_of_ne s c hwv]

/-- What a step does: the top of the stack is finished, or an edge of it is looked at. -/
inductive Moves (succ : α → List α) (s : State α) : State α → Prop
  | finish {frame : Frame α} {rest : List (Frame α)} :
      s.stack = frame :: rest → (succ frame.node)[frame.next]? = none →
      Moves succ s { s with colour := s.paint frame.node .black, stack := rest }
  | descend {frame : Frame α} {rest : List (Frame α)} {neighbour : α}
      (parent : α → Option α) :
      s.stack = frame :: rest → (succ frame.node)[frame.next]? = some neighbour →
      s.colour neighbour = .white →
      Moves succ s
        { s with
          colour := s.paint neighbour .grey
          parent
          stack := ⟨neighbour, 0⟩ :: { frame with next := frame.next + 1 } :: rest }
  | report {frame : Frame α} {rest : List (Frame α)} {neighbour : α} (cycle : List α) :
      s.stack = frame :: rest → (succ frame.node)[frame.next]? = some neighbour →
      s.colour neighbour = .grey →
      Moves succ s
        { s with
          stack := { frame with next := frame.next + 1 } :: rest
          cycles := s.cycles ++ [cycle] }
  | skip {frame : Frame α} {rest : List (Frame α)} {neighbour : α} :
      s.stack = frame :: rest → (succ frame.node)[frame.next]? = some neighbour →
      s.colour neighbour = .black →
      Moves succ s { s with stack := { frame with next := frame.next + 1 } :: rest }

theorem step_moves {s t : State α} (h : step succ s = .next t) : Moves succ s t := by
  rw [step] at h
  cases hstack : s.stack with
  | nil => rw [hstack] at h; cases h
  | cons frame rest =>
      rw [hstack] at h
      dsimp only at h
      cases hnext : (succ frame.node)[frame.next]? with
      | none =>
          rw [hnext] at h
          cases h
          exact .finish hstack hnext
      | some neighbour =>
          rw [hnext] at h
          dsimp only at h
          cases hcolour : s.colour neighbour with
          | white =>
              rw [hcolour] at h
              cases h
              exact .descend _ hstack hnext hcolour
          | grey =>
              rw [hcolour] at h
              cases h
              exact .report _ hstack hnext hcolour
          | black =>
              rw [hcolour] at h
              cases h
              exact .skip hstack hnext hcolour

/-- A step is possible as long as the stack is not empty. -/
theorem step_done {s t : State α} (h : step succ s = .done t) : t = s ∧ s.stack = [] := by
  rw [step] at h
  cases hstack : s.stack with
  | nil =>
      rw [hstack] at h
      cases h
      exact ⟨rfl, rfl⟩
  | cons frame rest =>
      rw [hstack] at h
      dsimp only at h
      cases hnext : (succ frame.node)[frame.next]? with
      | none => rw [hnext] at h; cases h
      | some neighbour =>
          rw [hnext] at h
          dsimp only at h
          cases hcolour : s.colour neighbour <;> rw [hcolour] at h <;> cases h

theorem paint_not_white {s : State α} {v w : α} {c : Colour} (hc : c ≠ .white)
    (hv : s.colour v ≠ .white) : s.paint w c v ≠ .white := by
  by_cases hvw : v = w
  · rw [hvw, paint_self]
    exact hc
  · rwa [paint_of_ne s c hvw]

/-- No step makes a node white. -/
theorem Moves.not_white {s t : State α} (h : Moves succ s t) {v : α}
    (hv : s.colour v ≠ .white) : t.colour v ≠ .white := by
  cases h with
  | finish _ _ => exact paint_not_white (by decide) hv
  | descend _ _ _ _ => exact paint_not_white (by decide) hv
  | report _ _ _ _ => exact hv
  | skip _ _ _ => exact hv

omit [DecidableEq α] in
/-- The frames after an edge of the top one has been looked at. -/
theorem State.Bounded.look {s : State α} (hs : s.Bounded succ nodes) {frame : Frame α}
    {rest : List (Frame α)} {neighbour : α} (hstack : s.stack = frame :: rest)
    (hnext : (succ frame.node)[frame.next]? = some neighbour) :
    ∀ f ∈ { frame with next := frame.next + 1 } :: rest,
      f.node ∈ nodes ∧ s.colour f.node ≠ .white ∧ f.next ≤ (succ f.node).length := by
  rw [State.Bounded, hstack] at hs
  intro f hf
  rcases List.mem_cons.mp hf with rfl | hf
  · obtain ⟨hnode, hvisited, -⟩ := hs frame List.mem_cons_self
    exact ⟨hnode, hvisited, (List.getElem?_eq_some_iff.mp hnext).1⟩
  · exact hs f (List.mem_cons_of_mem _ hf)

theorem Moves.bounded (hclosed : Closed succ nodes) {s t : State α}
    (hs : s.Bounded succ nodes) (h : Moves succ s t) : t.Bounded succ nodes := by
  have hkeep : ∀ v, s.colour v ≠ .white → t.colour v ≠ .white := fun v => h.not_white
  cases h with
  | finish hstack _ =>
      rw [State.Bounded, hstack] at hs
      intro f hf
      obtain ⟨hnode, hvisited, hle⟩ := hs f (List.mem_cons_of_mem _ hf)
      exact ⟨hnode, hkeep _ hvisited, hle⟩
  | descend _ hstack hnext hwhite =>
      intro f hf
      rcases List.mem_cons.mp hf with rfl | hf
      · have hframe := (hs.look hstack hnext _ List.mem_cons_self).1
        exact ⟨hclosed _ hframe _ (List.mem_of_getElem? hnext), by simp, Nat.zero_le _⟩
      · obtain ⟨hnode, hvisited, hle⟩ := hs.look hstack hnext f hf
        exact ⟨hnode, hkeep _ hvisited, hle⟩
  | report _ hstack hnext _ => exact hs.look hstack hnext
  | skip hstack hnext _ => exact hs.look hstack hnext

omit [DecidableEq α] in
/-- The units of a stack. -/
theorem potential_cons {s : State α} {frame : Frame α} {rest : List (Frame α)}
    (hstack : s.stack = frame :: rest) :
    s.potential succ nodes = (succ frame.node).length + 1 - frame.next +
      (rest.map fun f => (succ f.node).length + 1 - f.next).sum +
        ∑ v ∈ nodes with s.colour v = .white, ((succ v).length + 1) := by
  rw [State.potential, hstack, List.map_cons, List.sum_cons]

/-- A step takes one unit from the potential. -/
theorem Moves.potential_lt (hclosed : Closed succ nodes) {s t : State α}
    (hs : s.Bounded succ nodes) (h : Moves succ s t) :
    t.potential succ nodes < s.potential succ nodes := by
  cases h with
  | @finish frame rest hstack hnext =>
      obtain ⟨-, hvisited, hle⟩ := hs frame (hstack ▸ List.mem_cons_self)
      have hsum := sum_paint_of_not_white nodes hvisited (c := .black) (by decide)
        fun v => (succ v).length + 1
      rw [potential_cons hstack, State.potential]
      dsimp only
      rw [hsum]
      omega
  | @descend frame rest neighbour _ hstack hnext hwhite =>
      have hlt := (List.getElem?_eq_some_iff.mp hnext).1
      have hframe := (hs frame (hstack ▸ List.mem_cons_self)).1
      have hneighbour := hclosed _ hframe _ (List.mem_of_getElem? hnext)
      have hsum := sum_paint nodes hneighbour hwhite (c := .grey) (by decide)
        fun v => (succ v).length + 1
      rw [potential_cons hstack, potential_cons rfl, List.map_cons, List.sum_cons]
      dsimp only at hsum ⊢
      omega
  | @report frame rest neighbour _ hstack hnext _ =>
      have hlt := (List.getElem?_eq_some_iff.mp hnext).1
      rw [potential_cons hstack, potential_cons rfl]
      dsimp only
      omega
  | @skip frame rest neighbour hstack hnext _ =>
      have hlt := (List.getElem?_eq_some_iff.mp hnext).1
      rw [potential_cons hstack, potential_cons rfl]
      dsimp only
      omega

theorem sum_toFinset_le (f : α → ℕ) (l : List α) : ∑ v ∈ l.toFinset, f v ≤ (l.map f).sum := by
  induction l with
  | nil => exact le_rfl
  | cons a l ih =>
      rw [List.toFinset_cons, List.map_cons, List.sum_cons]
      by_cases ha : a ∈ l.toFinset
      · rw [Finset.insert_eq_of_mem ha]
        omega
      · rw [Finset.sum_insert ha]
        omega

/-- The search from a white root ends, with an empty stack. -/
theorem dfs_exec {all : List α} (hclosed : ∀ v ∈ all, ∀ w ∈ succ v, w ∈ all)
    {s : State α} {root : α} (hroot : root ∈ all) (hwhite : s.colour root = .white) :
    Exec (step succ) (s.enter root) (.ok (dfs succ (fuelFor succ all) s root)) := by
  have hnodes : Closed succ all.toFinset := fun v hv w hw =>
    List.mem_toFinset.mpr (hclosed v (List.mem_toFinset.mp hv) w hw)
  have hbounded : (s.enter root).Bounded succ all.toFinset := by
    intro f hf
    obtain rfl := List.mem_singleton.mp hf
    exact ⟨List.mem_toFinset.mpr hroot, by simp [State.enter], Nat.zero_le _⟩
  have hpotential : (s.enter root).potential succ all.toFinset < fuelFor succ all := by
    have hsum := sum_paint all.toFinset (List.mem_toFinset.mpr hroot) hwhite (c := .grey)
      (by decide) fun v => (succ v).length + 1
    have hle := sum_toFinset_le (fun v => (succ v).length + 1) all
    have hfilter : ∑ v ∈ all.toFinset with s.colour v = .white, ((succ v).length + 1) ≤
        ∑ v ∈ all.toFinset, ((succ v).length + 1) :=
      Finset.sum_le_sum_of_subset (Finset.filter_subset _ _)
    rw [potential_cons rfl, State.enter, fuelFor]
    dsimp only at hsum ⊢
    rw [List.map_nil, List.sum_nil]
    omega
  have hdecreases : ∀ u : State α, u.Bounded succ all.toFinset →
      (∃ v, step succ u = .done v) ∨ ∃ v, step succ u = .next v ∧ v.Bounded succ all.toFinset ∧
        v.potential succ all.toFinset < u.potential succ all.toFinset := by
    intro u hu
    cases hstep : step succ u with
    | next v =>
        have hmoves := step_moves hstep
        exact Or.inr ⟨v, rfl, hmoves.bounded hnodes hu, hmoves.potential_lt hnodes hu⟩
    | done v => exact Or.inl ⟨v, rfl⟩
    | fail e => exact e.elim
  obtain ⟨t, ht⟩ := run_of_decreasing hdecreases hbounded hpotential
  rw [dfs, ht]
  exact exec_of_run ht

/-! ### What the search leaves -/

/-- The edges that the frames of a stack have looked at lead to finished nodes or to the
frame above. -/
def Examined (succ : α → List α) (order : List α) : Option α → List (Frame α) → Prop
  | _, [] => True
  | above, f :: rest =>
      (∀ w ∈ (succ f.node).take f.next, w ∈ order ∨ above = some w) ∧
        Examined succ order (some f.node) rest

/-- A search that has reported nothing: the black nodes are in post-order, and the grey ones
are on the stack. -/
structure Traversed (succ : α → List α) (order : List α) (s : State α) : Prop where
  postOrder : PostOrder succ order
  black : ∀ v, s.colour v = .black ↔ v ∈ order
  grey : ∀ v, s.colour v = .grey ↔ v ∈ s.stack.map Frame.node
  nodup : (s.stack.map Frame.node).Nodup
  examined : Examined succ order none s.stack

omit [DecidableEq α] in
theorem Examined.mono {order order' : List α} {above above' : Option α}
    {stack : List (Frame α)} (h : Examined succ order above stack)
    (horder : ∀ w ∈ order, w ∈ order')
    (habove : ∀ w, above = some w → w ∈ order' ∨ above' = some w) :
    Examined succ order' above' stack := by
  induction stack generalizing above above' with
  | nil => trivial
  | cons f rest ih =>
      refine ⟨fun w hw => ?_, ih h.2 fun w hw => Or.inr hw⟩
      rcases h.1 w hw with hw | hw
      · exact Or.inl (horder w hw)
      · exact habove w hw

omit [DecidableEq α] in
/-- A further edge of the top frame, into a finished node or into the frame above. -/
theorem Examined.look {above above' : Option α} {frame : Frame α} {rest : List (Frame α)}
    {neighbour : α} (h : Examined succ order above (frame :: rest))
    (hnext : (succ frame.node)[frame.next]? = some neighbour)
    (hneighbour : neighbour ∈ order ∨ above' = some neighbour)
    (habove : ∀ w, above = some w → w ∈ order ∨ above' = some w) :
    Examined succ order above' ({ frame with next := frame.next + 1 } :: rest) := by
  refine ⟨fun w hw => ?_, h.2⟩
  rw [List.take_add_one, hnext] at hw
  rcases List.mem_append.mp hw with hw | hw
  · rcases h.1 w hw with hw | hw
    · exact Or.inl hw
    · exact habove w hw
  · obtain rfl := List.mem_singleton.mp hw
    exact hneighbour

/-- A step that reports nothing. -/
theorem Traversed.move {s t : State α} (hs : Traversed succ order s) (h : Moves succ s t)
    (hquiet : t.cycles = []) : ∃ order', Traversed succ order' t := by
  cases h with
  | @finish frame rest hstack hnext =>
      have hexamined := hs.examined
      have hnodup := hs.nodup
      rw [hstack] at hexamined
      rw [hstack, List.map_cons, List.nodup_cons] at hnodup
      have hgrey : s.colour frame.node = .grey := (hs.grey _).mpr (by rw [hstack]; simp)
      have hnew : frame.node ∉ order := by
        intro hmem
        rw [(hs.black _).mpr hmem] at hgrey
        cases hgrey
      have hall : ∀ w ∈ succ frame.node, w ∈ order := by
        intro w hw
        rw [List.getElem?_eq_none_iff] at hnext
        rw [← List.take_of_length_le hnext] at hw
        rcases hexamined.1 w hw with hw | hw
        · exact hw
        · cases hw
      refine ⟨frame.node :: order, .cons hall hnew hs.postOrder, fun v => ?_, fun v => ?_,
        hnodup.2, hexamined.2.mono (fun w hw => List.mem_cons_of_mem _ hw) fun w hw => ?_⟩
      · by_cases hv : v = frame.node
        · simp [hv]
        · change s.paint frame.node .black v = .black ↔ _
          rw [paint_of_ne s _ hv, hs.black v, List.mem_cons]
          simp [hv]
      · by_cases hv : v = frame.node
        · simp [hv, hnodup.1]
        · change s.paint frame.node .black v = .grey ↔ _
          rw [paint_of_ne s _ hv, hs.grey v, hstack, List.map_cons, List.mem_cons]
          simp [hv]
      · obtain rfl := Option.some.inj hw
        exact Or.inl List.mem_cons_self
  | @descend frame rest neighbour _ hstack hnext hwhite =>
      have hexamined := hs.examined
      have hnodup := hs.nodup
      rw [hstack] at hexamined hnodup
      have hnew : neighbour ∉ (frame :: rest).map Frame.node := by
        intro hmem
        rw [← hstack, ← hs.grey, hwhite] at hmem
        cases hmem
      have hfresh : neighbour ∉ order := by
        intro hmem
        rw [← hs.black, hwhite] at hmem
        cases hmem
      refine ⟨order, hs.postOrder, fun v => ?_, fun v => ?_, ?_, ?_, ?_⟩
      · by_cases hv : v = neighbour
        · simp [hv, hfresh]
        · change s.paint neighbour .grey v = .black ↔ _
          rw [paint_of_ne s _ hv, hs.black v]
      · by_cases hv : v = neighbour
        · simp [hv]
        · change s.paint neighbour .grey v = .grey ↔ _
          rw [paint_of_ne s _ hv, hs.grey v, hstack]
          simp [hv]
      · exact List.nodup_cons.mpr ⟨hnew, hnodup⟩
      · intro w hw
        rw [List.take_zero] at hw
        cases hw
      · exact hexamined.look hnext (Or.inr rfl) fun w hw => nomatch hw
  | report cycle _ _ _ => exact absurd hquiet (by simp)
  | @skip frame rest neighbour hstack hnext hblack =>
      have hexamined := hs.examined
      have hnodup := hs.nodup
      rw [hstack] at hexamined hnodup
      refine ⟨order, hs.postOrder, hs.black, fun v => ?_, hnodup, ?_⟩
      · rw [hs.grey v, hstack]
        rfl
      · exact hexamined.look hnext (Or.inl ((hs.black _).mp hblack)) fun w hw => nomatch hw

/-- The cycles that are reported stay reported. -/
theorem Moves.quiet {s t : State α} (h : Moves succ s t) (ht : t.cycles = []) :
    s.cycles = [] := by
  cases h with
  | finish _ _ => exact ht
  | descend _ _ _ _ => exact ht
  | report _ _ _ _ => exact (List.append_eq_nil_iff.mp ht).1
  | skip _ _ _ => exact ht

/-- A search that ends and has reported nothing. -/
theorem exec_traversed {s t : State α} (h : Exec (step succ) s (.ok t)) (hquiet : t.cycles = [])
    (hs : s.cycles = [] → ∃ order, Traversed succ order s) :
    s.cycles = [] ∧ (∃ order, Traversed succ order t) ∧ t.stack = [] ∧
      ∀ v, s.colour v ≠ .white → t.colour v ≠ .white := by
  generalize ho : (Except.ok t : Except Empty (State α)) = o at h
  induction h with
  | done hd =>
      cases ho
      obtain ⟨rfl, hempty⟩ := step_done hd
      exact ⟨hquiet, hs hquiet, hempty, fun v hv => hv⟩
  | fail _ => cases ho
  | next hn _ ih =>
      have hmoves := step_moves hn
      obtain ⟨hquiet', horder, hempty, hkeep⟩ := ih (fun hquiet' => by
        obtain ⟨order, horder⟩ := hs (hmoves.quiet hquiet')
        exact horder.move hmoves hquiet') ho
      exact ⟨hmoves.quiet hquiet', horder, hempty, fun v hv => hkeep v (hmoves.not_white hv)⟩

/-- Between two searches, when nothing has been reported. -/
def Resting (succ : α → List α) (s : State α) : Prop :=
  s.cycles = [] → s.stack = [] ∧ ∃ order, Traversed succ order s

theorem Traversed.enter {s : State α} (hs : Traversed succ order s) (hempty : s.stack = [])
    {root : α} (hwhite : s.colour root = .white) : Traversed succ order (s.enter root) := by
  have hnew : root ∉ order := by
    intro hmem
    rw [← hs.black, hwhite] at hmem
    cases hmem
  refine ⟨hs.postOrder, fun v => ?_, fun v => ?_, List.nodup_singleton _, ?_, trivial⟩
  · by_cases hv : v = root
    · simp [State.enter, hv, hnew]
    · change s.paint root .grey v = .black ↔ _
      rw [paint_of_ne s _ hv, hs.black v]
  · by_cases hv : v = root
    · simp [State.enter, hv]
    · change s.paint root .grey v = .grey ↔ _
      rw [paint_of_ne s _ hv, hs.grey v, hempty]
      simp [State.enter, hv]
  · intro w hw
    rw [List.take_zero] at hw
    cases hw

/-- A search at one of the roots, when nothing is reported. -/
theorem visit_resting {all : List α} (hclosed : ∀ v ∈ all, ∀ w ∈ succ v, w ∈ all)
    {s t : State α} {root : α} (hroot : root ∈ all) (hs : Resting succ s)
    (ht : visit succ (fuelFor succ all) s root = t) :
    Resting succ t ∧
      (t.cycles = [] → s.cycles = [] ∧ ∀ v, s.colour v ≠ .white ∨ v = root →
        t.colour v ≠ .white) := by
  by_cases hwhite : s.colour root = .white
  · rw [visit, if_pos hwhite] at ht
    have hexec := dfs_exec hclosed hroot hwhite
    rw [ht] at hexec
    have hstart : (s.enter root).cycles = [] → ∃ order, Traversed succ order (s.enter root) := by
      intro hquiet
      obtain ⟨hempty, order, horder⟩ := hs hquiet
      exact ⟨order, horder.enter hempty hwhite⟩
    refine ⟨fun hquiet => ?_, fun hquiet => ?_⟩
    · obtain ⟨-, horder, hempty, -⟩ := exec_traversed hexec hquiet hstart
      exact ⟨hempty, horder⟩
    · obtain ⟨hquiet', -, -, hkeep⟩ := exec_traversed hexec hquiet hstart
      refine ⟨hquiet', fun v hv => hkeep v ?_⟩
      by_cases hvr : v = root
      · simp [State.enter, hvr]
      · exact paint_not_white (by decide) (hv.resolve_right hvr)
  · rw [visit, if_neg hwhite] at ht
    subst ht
    refine ⟨hs, fun hquiet => ⟨hquiet, fun v hv => ?_⟩⟩
    rcases hv with hv | rfl
    · exact hv
    · exact hwhite

/-- The searches at some of the roots, when nothing is reported. -/
theorem foldl_visit_resting {all : List α} (hclosed : ∀ v ∈ all, ∀ w ∈ succ v, w ∈ all)
    {roots : List α} (hroots : ∀ v ∈ roots, v ∈ all) {s : State α} (hs : Resting succ s) :
    Resting succ (roots.foldl (visit succ (fuelFor succ all)) s) ∧
      ((roots.foldl (visit succ (fuelFor succ all)) s).cycles = [] →
        s.cycles = [] ∧ ∀ v, s.colour v ≠ .white ∨ v ∈ roots →
          (roots.foldl (visit succ (fuelFor succ all)) s).colour v ≠ .white) := by
  induction roots generalizing s with
  | nil => exact ⟨hs, fun hquiet => ⟨hquiet, fun v hv => hv.resolve_right (by simp)⟩⟩
  | cons root roots ih =>
      obtain ⟨hrest, hvisit⟩ :=
        visit_resting hclosed (hroots root List.mem_cons_self) hs rfl
      obtain ⟨hrest', hfold⟩ := ih (fun v hv => hroots v (List.mem_cons_of_mem _ hv)) hrest
      refine ⟨hrest', fun hquiet => ?_⟩
      obtain ⟨hquiet', hfold⟩ := hfold hquiet
      obtain ⟨hquiet'', hvisit⟩ := hvisit hquiet'
      refine ⟨hquiet'', fun v hv => hfold v ?_⟩
      rw [List.mem_cons] at hv
      by_cases hmem : v ∈ roots
      · exact Or.inr hmem
      · refine Or.inl (hvisit v ?_)
        rcases hv with hv | hv | hv
        · exact Or.inl hv
        · exact Or.inr hv
        · exact absurd hv hmem

/-- When nothing is reported, the roots lie on no cycle. -/
theorem not_transGen_of_detectCycles {all roots : List α}
    (hclosed : ∀ v ∈ all, ∀ w ∈ succ v, w ∈ all) (hroots : ∀ v ∈ roots, v ∈ all)
    (hquiet : detectCycles succ (fuelFor succ all) roots = []) {v : α} (hv : v ∈ roots) :
    ¬ TransGen (fun u w => w ∈ succ u) v v := by
  have hstart : Resting succ (start : State α) := fun _ =>
    ⟨rfl, [], .nil, fun v => by simp [start], fun v => by simp [start], List.nodup_nil, trivial⟩
  obtain ⟨hrest, hfold⟩ := foldl_visit_resting hclosed hroots hstart
  obtain ⟨hempty, order, horder⟩ := hrest hquiet
  refine horder.postOrder.not_transGen ((horder.black v).mp ?_)
  have hvisited := (hfold hquiet).2 v (Or.inr hv)
  cases hcolour : (roots.foldl (visit succ (fuelFor succ all)) start).colour v with
  | white => exact absurd hcolour hvisited
  | grey =>
      have hmem := (horder.grey v).mp hcolour
      rw [hempty] at hmem
      cases hmem
  | black => rfl

end DepthFirst
