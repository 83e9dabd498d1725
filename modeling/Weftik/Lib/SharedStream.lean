import Mathlib

/-!
# A Stream that Several Writers Share

A writer hands over a frame, and the stream takes it in pieces. Writers that take turns
piece by piece tear each other's frames; a frame arrives in one piece when its writer
goes on only while no other one is within a frame. Every value that has arrived carries the
number of the call that has written it, so that equal frames are told apart.

## Main definitions

* `SharedStream.Pipe`: what has arrived, and the calls that go on.
* `SharedStream.Whole`: what has arrived is frames, and the beginning of one.
* `SharedStream.Quiet`: no other writer is within a frame.

## Main results

* `SharedStream.Ordered.write`: a writer that goes on alone keeps the frames whole.
-/

namespace SharedStream

variable {ι α : Type}

/-- A call that goes on: its number, its frame, and how much of it has been taken. -/
structure Call (α : Type) where
  id : ℕ
  frame : List α
  sent : ℕ

/-- The stream: the values that have arrived, the calls that are done, in the order in
which they were, the number of the next call, and the call of each writer. -/
structure Pipe (ι α : Type) where
  received : List (ℕ × α)
  completed : List (ℕ × List α)
  next : ℕ
  writing : ι → Option (Call α)

/-- Values with the number of their call. -/
def tag (id : ℕ) (values : List α) : List (ℕ × α) := values.map fun v => (id, v)

/-- The frames of some calls, one after the other. -/
def frames (calls : List (ℕ × List α)) : List (ℕ × α) := calls.flatMap fun c => tag c.1 c.2

/-- What has arrived of a call. -/
def Call.arrived (c : Call α) : List (ℕ × α) := tag c.id (c.frame.take c.sent)

/-- A stream that nobody has written to. -/
def Pipe.new : Pipe ι α := ⟨[], [], 0, fun _ => none⟩

/-- A writer hands over a frame. -/
def Pipe.begin [DecidableEq ι] (s : Pipe ι α) (w : ι) (frame : List α) : Pipe ι α :=
  { s with
    next := s.next + 1
    writing := Function.update s.writing w (some ⟨s.next, frame, 0⟩) }

/-- The stream takes some more of the frame of a writer. With the last of it, the call
returns. -/
def Pipe.write [DecidableEq ι] (s : Pipe ι α) (w : ι) (n : ℕ) : Option (Pipe ι α) :=
  match s.writing w with
  | none => none
  | some c =>
      if 0 < n ∧ c.sent + n ≤ c.frame.length then
        let received := s.received ++ tag c.id ((c.frame.drop c.sent).take n)
        if c.sent + n = c.frame.length then
          some { s with
            received := received
            completed := s.completed ++ [(c.id, c.frame)]
            writing := Function.update s.writing w none }
        else
          some { s with
            received := received
            writing := Function.update s.writing w (some { c with sent := c.sent + n }) }
      else none

/-- What has arrived is the frames of the calls that are done, each complete and in one
piece, and then what there is of the frame of one that goes on. -/
def Whole (s : Pipe ι α) : Prop :=
  s.received = frames s.completed ∨
  ∃ w c, s.writing w = some c ∧ s.received = frames s.completed ++ c.arrived

/-- No other writer is within a frame. -/
def Quiet (s : Pipe ι α) (w : ι) : Prop :=
  ∀ other, other ≠ w → ∀ c, s.writing other = some c → c.sent = 0

/-- What has arrived of the call of a writer. -/
def Pipe.arrived (s : Pipe ι α) (w : ι) : List (ℕ × α) :=
  match s.writing w with
  | none => []
  | some c => c.arrived

/-- The invariant: at most one writer is within a frame, and what has arrived of it comes
after the frames of the calls that are done. -/
def Ordered (s : Pipe ι α) : Prop :=
  ∃ w, Quiet s w ∧ s.received = frames s.completed ++ s.arrived w

variable {s t : Pipe ι α} {w : ι}

theorem Ordered.whole (h : Ordered s) : Whole s := by
  obtain ⟨w, -, hreceived⟩ := h
  rw [Pipe.arrived] at hreceived
  cases hw : s.writing w with
  | none =>
      rw [hw, List.append_nil] at hreceived
      exact Or.inl hreceived
  | some c =>
      rw [hw] at hreceived
      exact Or.inr ⟨w, c, hw, hreceived⟩

theorem ordered_new (w : ι) : Ordered (Pipe.new : Pipe ι α) :=
  ⟨w, fun _ _ _ h => (nomatch h), rfl⟩

/-- Nothing has arrived of a call of which nothing has been taken. -/
theorem arrived_eq_nil (h : ∀ c, s.writing w = some c → c.sent = 0) : s.arrived w = [] := by
  rw [Pipe.arrived]
  cases hw : s.writing w with
  | none => rfl
  | some c =>
      change c.arrived = []
      rw [Call.arrived, h c hw, List.take_zero]
      rfl

/-- If no other writer than `w` is within a frame, then what has arrived ends with that of
its call. -/
theorem Ordered.received_eq (h : Ordered s) (hquiet : Quiet s w) :
    s.received = frames s.completed ++ s.arrived w := by
  obtain ⟨v, hv, hreceived⟩ := h
  by_cases hvw : v = w
  · rw [← hvw, hreceived]
  · rw [hreceived, arrived_eq_nil (hquiet v hvw), arrived_eq_nil (hv w fun h => hvw h.symm)]

/-- What has arrived of a call, and the next piece of it. -/
theorem arrived_append (c : Call α) (n : ℕ) :
    c.arrived ++ tag c.id ((c.frame.drop c.sent).take n) =
      tag c.id (c.frame.take (c.sent + n)) := by
  rw [Call.arrived, tag, tag, tag, ← List.map_append, List.take_add]

theorem frames_append (calls : List (ℕ × List α)) (c : ℕ × List α) :
    frames (calls ++ [c]) = frames calls ++ tag c.1 c.2 := by
  rw [frames, frames, List.flatMap_append, List.flatMap_singleton]

variable [DecidableEq ι]

/-- The calls of the other writers are not touched by a call that begins. -/
theorem writing_begin {other : ι} (hother : other ≠ w) (frame : List α) :
    (s.begin w frame).writing other = s.writing other :=
  Function.update_of_ne hother _ _

/-- The calls of the other writers are not touched by a write. -/
theorem writing_write {other : ι} (hother : other ≠ w) {n : ℕ}
    (h : s.write w n = some t) : t.writing other = s.writing other := by
  rw [Pipe.write] at h
  split at h
  · cases h
  · split at h
    · split at h
      · obtain rfl := Option.some.inj h
        exact Function.update_of_ne hother _ _
      · obtain rfl := Option.some.inj h
        exact Function.update_of_ne hother _ _
    · cases h

/-- A writer that is not within a call may begin one. -/
theorem Ordered.begin (h : Ordered s) (hidle : s.writing w = none) (frame : List α) :
    Ordered (s.begin w frame) := by
  obtain ⟨v, hv, hreceived⟩ := h
  refine ⟨v, fun other hother c hc => ?_, ?_⟩
  · by_cases hw : other = w
    · rw [hw] at hc
      obtain rfl := Option.some.inj ((Function.update_self w _ s.writing).symm.trans hc)
      rfl
    · exact hv other hother c ((Function.update_of_ne hw _ s.writing).symm.trans hc)
  · by_cases hw : v = w
    · subst hw
      have hbegun : (s.begin v frame).arrived v = [] :=
        arrived_eq_nil fun c hc => by
          obtain rfl := Option.some.inj ((Function.update_self v _ s.writing).symm.trans hc)
          rfl
      rw [hbegun]
      rw [Pipe.arrived, hidle] at hreceived
      exact hreceived
    · have hother : (s.begin w frame).arrived v = s.arrived v := by
        rw [Pipe.arrived, Pipe.begin]
        dsimp only
        rw [Function.update_of_ne hw]
        rfl
      rw [hother]
      exact hreceived

/-- Another writer's call is not touched by a change of `w`'s. -/
theorem Quiet.update (h : Quiet s w) (c : Option (Call α)) {u : Pipe ι α}
    (hu : u.writing = Function.update s.writing w c) : Quiet u w := by
  intro other hother c' hc'
  rw [hu, Function.update_of_ne hother] at hc'
  exact h other hother c' hc'

/-- A writer that goes on while no other one is within a frame. -/
theorem Ordered.write (h : Ordered s) (hquiet : Quiet s w) {n : ℕ}
    (hwrite : s.write w n = some t) : Ordered t := by
  have hreceived := h.received_eq hquiet
  rw [Pipe.arrived] at hreceived
  rw [Pipe.write] at hwrite
  cases hw : s.writing w with
  | none => rw [hw] at hwrite; cases hwrite
  | some c =>
      rw [hw] at hwrite hreceived
      dsimp only at hwrite hreceived
      split at hwrite
      · split at hwrite
        · rename_i hdone
          obtain rfl := Option.some.inj hwrite
          refine ⟨w, hquiet.update none rfl, ?_⟩
          rw [Pipe.arrived]
          dsimp only
          rw [Function.update_self, hreceived, frames_append, List.append_assoc,
            arrived_append, hdone, List.take_length, List.append_nil]
        · obtain rfl := Option.some.inj hwrite
          refine ⟨w, hquiet.update _ rfl, ?_⟩
          rw [Pipe.arrived]
          dsimp only
          rw [Function.update_self, hreceived, List.append_assoc, arrived_append]
          rfl
      · cases hwrite

end SharedStream
