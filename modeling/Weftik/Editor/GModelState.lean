import Weftik.Lib.History

/-!
# Undo and Redo of the Diagram Editors

The ladder editor and the function block editor keep the snapshots of a diagram as texts,
with a pointer to the current one, in two classes that were copied from each other: the one
appends a snapshot and moves the pointer unless it has evicted the oldest, the other evicts
first and sets the pointer to the last snapshot. Both refine a bounded history.

## Main definitions

* `Editor.LdGModelState`, `Editor.FbdGModelState`: the two classes.
* `Editor.Op`, `Editor.Answer`: the operations, and what a class answers.
* `Editor.Reference`: the history that the classes refine.

## Main results

* `Editor.gmodelState_history`: the classes answer like the history.
-/

namespace Weftik.Editor

/-- How the graphs of an editor are written as texts and read back, and the empty graph. A
text that is no graph is an error. -/
structure Codec (G : Type) where
  toJSON : G → String
  fromJSON : String → Except String G
  create : G

/-- `MAX_UNDO`. -/
def maxUndo : ℕ := 50

/-- The operations on a class. A mutation may throw. -/
inductive Op (G : Type)
  | applyOperation (mutate : G → Except String G)
  | undo
  | redo
  | markClean

/-- What an operation answers: a graph or the error that it throws, `null`, or nothing. -/
inductive Answer (G : Type)
  | graph (result : Except String G)
  | null
  | done

/-- The snapshot at an index; an index without snapshot is read as `undefined`. -/
def readSnapshot {G : Type} (codec : Codec G) (snapshots : List String) (pointer : ℤ) :
    Except String G :=
  match snapshots[pointer.toNat]? with
  | some text => codec.fromJSON text
  | none => .error "\"undefined\" is not valid JSON"

/-! ### The ladder editor -/

/-- `LdGModelState`. -/
structure LdGModelState where
  snapshots : List String
  pointer : ℤ
  dirty : Bool

namespace LdGModelState

variable {G : Type} (codec : Codec G) (s : LdGModelState)

/-- `pushSnapshot`. -/
def pushSnapshot (graph : G) : LdGModelState :=
  let snapshots := s.snapshots ++ [codec.toJSON graph]
  if snapshots.length > maxUndo then { s with snapshots := snapshots.tail }
  else { s with snapshots := snapshots, pointer := s.pointer + 1 }

/-- The constructor. -/
def new (initial : Option G) : LdGModelState :=
  pushSnapshot codec ⟨[], -1, false⟩ (initial.getD codec.create)

/-- The getter `graph`. -/
def graph : Except String G :=
  if s.pointer < 0 then .ok codec.create
  else readSnapshot codec s.snapshots s.pointer

/-- `applyOperation`. -/
def applyOperation (mutate : G → Except String G) : Answer G × LdGModelState :=
  match s.graph codec >>= mutate with
  | .error e => (.graph (.error e), s)
  | .ok next =>
      let cut := { s with snapshots := s.snapshots.take (s.pointer + 1).toNat }
      (.graph (.ok next), { cut.pushSnapshot codec next with dirty := true })

/-- `undo`. -/
def undo : Answer G × LdGModelState :=
  if s.pointer ≤ 0 then (.null, s)
  else
    let back := { s with pointer := s.pointer - 1, dirty := true }
    (.graph (back.graph codec), back)

/-- `redo`. -/
def redo : Answer G × LdGModelState :=
  if s.pointer ≥ s.snapshots.length - 1 then (.null, s)
  else
    let forth := { s with pointer := s.pointer + 1, dirty := true }
    (.graph (forth.graph codec), forth)

/-- `undoDepth`. -/
def undoDepth : ℤ := s.pointer

/-- `redoDepth`. -/
def redoDepth : ℤ := s.snapshots.length - 1 - s.pointer

/-- An operation of the editor. -/
def step (s : LdGModelState) : Op G → Answer G × LdGModelState
  | .applyOperation mutate => s.applyOperation codec mutate
  | .undo => s.undo codec
  | .redo => s.redo codec
  | .markClean => (.done, { s with dirty := false })

end LdGModelState

/-! ### The function block editor -/

/-- `FbdGModelState`. -/
structure FbdGModelState where
  snapshots : List String
  pointer : ℤ
  dirty : Bool

namespace FbdGModelState

variable {G : Type} (codec : Codec G) (s : FbdGModelState)

/-- `pushSnapshot`. -/
def pushSnapshot (graph : G) : FbdGModelState :=
  let kept := s.snapshots.take (s.pointer + 1).toNat
  let evicted := if kept.length ≥ maxUndo then kept.tail else kept
  let snapshots := evicted ++ [codec.toJSON graph]
  { s with snapshots := snapshots, pointer := snapshots.length - 1 }

/-- The constructor. -/
def new (initial : Option G) : FbdGModelState :=
  pushSnapshot codec ⟨[], -1, false⟩ (initial.getD codec.create)

/-- The getter `graph`. -/
def graph : Except String G :=
  if s.pointer < 0 ∨ s.pointer ≥ s.snapshots.length then .ok codec.create
  else readSnapshot codec s.snapshots s.pointer

/-- `applyOperation`. -/
def applyOperation (mutate : G → Except String G) : Answer G × FbdGModelState :=
  match s.graph codec >>= mutate with
  | .error e => (.graph (.error e), s)
  | .ok next =>
      let cut := { s with snapshots := s.snapshots.take (s.pointer + 1).toNat }
      (.graph (.ok next), { cut.pushSnapshot codec next with dirty := true })

/-- `canUndo`. -/
def canUndo : Bool := decide (s.pointer > 0)

/-- `canRedo`. -/
def canRedo : Bool := decide (s.pointer < s.snapshots.length - 1)

/-- `undo`. -/
def undo : Answer G × FbdGModelState :=
  if !s.canUndo then (.null, s)
  else
    let back := { s with pointer := s.pointer - 1, dirty := true }
    (.graph (back.graph codec), back)

/-- `redo`. -/
def redo : Answer G × FbdGModelState :=
  if !s.canRedo then (.null, s)
  else
    let forth := { s with pointer := s.pointer + 1, dirty := true }
    (.graph (forth.graph codec), forth)

/-- An operation of the editor. -/
def step (s : FbdGModelState) : Op G → Answer G × FbdGModelState
  | .applyOperation mutate => s.applyOperation codec mutate
  | .undo => s.undo codec
  | .redo => s.redo codec
  | .markClean => (.done, { s with dirty := false })

end FbdGModelState

/-! ### The reference history -/

/-- A history of at most 50 snapshots, with a cursor. -/
abbrev Reference : Type := History String maxUndo

namespace Reference

variable {G : Type} (codec : Codec G) (r : Reference)

/-- The history of one snapshot. -/
def new (initial : Option G) : Reference :=
  History.start (by decide) (codec.toJSON (initial.getD codec.create))

/-- The current graph. -/
def graph : Except String G := codec.fromJSON r.current

/-- An operation on the history. -/
def step (r : Reference) : Op G → Answer G × Reference
  | .applyOperation mutate =>
      match r.graph codec >>= mutate with
      | .error e => (.graph (.error e), r)
      | .ok next => (.graph (.ok next), r.edit (codec.toJSON next))
  | .undo => if r.canUndo then (.graph (graph codec r.undo), r.undo) else (.null, r)
  | .redo => if r.canRedo then (.graph (graph codec r.redo), r.redo) else (.null, r)
  | .markClean => (.done, r)

end Reference

/-- The answers to some operations, and the state after them. -/
def runOps {σ G : Type} (step : σ → Op G → Answer G × σ) : σ → List (Op G) → List (Answer G) × σ
  | s, [] => ([], s)
  | s, op :: ops =>
      ((step s op).1 :: (runOps step (step s op).2 ops).1, (runOps step (step s op).2 ops).2)

/-! ### The refinement -/

/-- The class holds the snapshots of the history, and points to its cursor. -/
structure LdGModelState.Refines (s : LdGModelState) (r : Reference) : Prop where
  snapshots : s.snapshots = r.items
  pointer : s.pointer = r.cursor

@[inherit_doc LdGModelState.Refines]
structure FbdGModelState.Refines (s : FbdGModelState) (r : Reference) : Prop where
  snapshots : s.snapshots = r.items
  pointer : s.pointer = r.cursor

section

variable {G : Type} (codec : Codec G)

theorem readSnapshot_cursor (r : Reference) :
    readSnapshot codec r.items r.cursor = r.graph codec := by
  rw [readSnapshot, Int.toNat_natCast, r.getElem?_cursor]
  rfl

/-- A snapshot that is appended, and the oldest one evicted when there are too many. -/
theorem edit_items (r : Reference) (text : String) :
    (r.edit text).items =
      if r.cursor + 1 < maxUndo then r.appended text else (r.appended text).tail := by
  have hlt := r.cursor_lt
  have hle := r.length_le
  change (r.appended text).drop (r.cursor + 2 - maxUndo) = _
  split
  · rw [Nat.sub_eq_zero_of_le (by omega), List.drop_zero]
  · rw [show r.cursor + 2 - maxUndo = 1 by omega, List.drop_one]

theorem edit_cursor (r : Reference) (text : String) :
    (r.edit text).cursor = if r.cursor + 1 < maxUndo then r.cursor + 1 else r.cursor := by
  have hlt := r.cursor_lt
  have hle := r.length_le
  change r.cursor + 1 - (r.cursor + 2 - maxUndo) = _
  split <;> omega

variable {r : Reference}

/-- The redo tail is cut off in front of an edit. -/
theorem take_pointer {snapshots : List String} {pointer : ℤ} (hs : snapshots = r.items)
    (hp : pointer = r.cursor) :
    snapshots.take (pointer + 1).toNat = r.items.take (r.cursor + 1) := by
  rw [hs, hp, ← Int.natCast_succ, Int.toNat_natCast]

theorem LdGModelState.Refines.graph {s : LdGModelState} (h : s.Refines r) :
    s.graph codec = r.graph codec := by
  rw [LdGModelState.graph, if_neg (by rw [h.pointer]; omega), h.snapshots, h.pointer,
    readSnapshot_cursor]

variable {s : FbdGModelState}

theorem FbdGModelState.Refines.graph (h : s.Refines r) : s.graph codec = r.graph codec := by
  have hlt := r.cursor_lt
  rw [FbdGModelState.graph, if_neg (by rw [h.pointer, h.snapshots]; omega), h.snapshots,
    h.pointer, readSnapshot_cursor]

theorem LdGModelState.Refines.undoDepth_pos_iff {s : LdGModelState} (h : s.Refines r) :
    0 < s.undoDepth ↔ r.canUndo = true := by
  rw [LdGModelState.undoDepth, h.pointer, History.canUndo, decide_eq_true_iff]
  omega

theorem LdGModelState.Refines.redoDepth_pos_iff {s : LdGModelState} (h : s.Refines r) :
    0 < s.redoDepth ↔ r.canRedo = true := by
  have hlt := r.cursor_lt
  rw [LdGModelState.redoDepth, h.pointer, h.snapshots, History.canRedo, decide_eq_true_iff]
  omega

theorem FbdGModelState.Refines.canUndo (h : s.Refines r) : s.canUndo = r.canUndo := by
  rw [FbdGModelState.canUndo, h.pointer, History.canUndo, decide_eq_decide]
  omega

theorem FbdGModelState.Refines.canRedo (h : s.Refines r) : s.canRedo = r.canRedo := by
  have hlt := r.cursor_lt
  rw [FbdGModelState.canRedo, h.pointer, h.snapshots, History.canRedo, decide_eq_decide]
  omega

/-- The ladder editor appends a snapshot, and moves the pointer unless it evicts one. -/
theorem LdGModelState.Refines.push {s : LdGModelState} (h : s.Refines r) (graph : G)
    (dirty : Bool) :
    Refines { LdGModelState.pushSnapshot codec
        { s with snapshots := s.snapshots.take (s.pointer + 1).toNat } graph with dirty := dirty }
      (r.edit (codec.toJSON graph)) := by
  have hlen : (r.items.take (r.cursor + 1) ++ [codec.toJSON graph]).length = r.cursor + 2 :=
    r.length_appended _
  rw [take_pointer h.snapshots h.pointer, LdGModelState.pushSnapshot]
  dsimp only
  rw [hlen]
  by_cases hroom : r.cursor + 1 < maxUndo
  · rw [if_neg (by omega)]
    refine ⟨?_, ?_⟩
    · rw [edit_items, if_pos hroom]
      rfl
    · rw [edit_cursor, if_pos hroom]
      change s.pointer + 1 = _
      rw [h.pointer]
      rfl
  · rw [if_pos (by omega)]
    refine ⟨?_, ?_⟩
    · rw [edit_items, if_neg hroom]
      rfl
    · rw [edit_cursor, if_neg hroom]
      exact h.pointer

/-- The function block editor evicts a snapshot before it appends one, and points to the last. -/
theorem FbdGModelState.Refines.push (h : s.Refines r) (graph : G) (dirty : Bool) :
    Refines { FbdGModelState.pushSnapshot codec
        { s with snapshots := s.snapshots.take (s.pointer + 1).toNat } graph with dirty := dirty }
      (r.edit (codec.toJSON graph)) := by
  have hlt := r.cursor_lt
  have hle := r.length_le
  have hlen : (r.items.take (r.cursor + 1)).length = r.cursor + 1 := by
    rw [List.length_take]
    omega
  rw [take_pointer h.snapshots h.pointer, FbdGModelState.pushSnapshot]
  dsimp only
  rw [h.pointer, ← Int.natCast_succ, Int.toNat_natCast, List.take_take, Nat.min_self, hlen]
  by_cases hroom : r.cursor + 1 < maxUndo
  · rw [if_neg (by omega)]
    refine ⟨?_, ?_⟩
    · rw [edit_items, if_pos hroom]
      rfl
    · rw [edit_cursor, if_pos hroom]
      dsimp only
      rw [List.length_append, hlen, List.length_singleton]
      omega
  · rw [if_pos (by omega)]
    refine ⟨?_, ?_⟩
    · rw [edit_items, if_neg hroom, History.appended, List.tail_append_of_ne_nil]
      exact List.ne_nil_of_length_pos (by omega)
    · rw [edit_cursor, if_neg hroom]
      dsimp only
      rw [List.length_append, List.length_tail, hlen, List.length_singleton]
      omega

theorem LdGModelState.applyOperation_throws {s : LdGModelState} {mutate : G → Except String G}
    {e : String} (h : s.graph codec >>= mutate = .error e) :
    (s.applyOperation codec mutate).2 = s := by
  rw [LdGModelState.applyOperation, h]

theorem FbdGModelState.applyOperation_throws {mutate : G → Except String G} {e : String}
    (h : s.graph codec >>= mutate = .error e) : (s.applyOperation codec mutate).2 = s := by
  rw [FbdGModelState.applyOperation, h]

/-- An operation of the ladder editor is the operation on the history. -/
theorem LdGModelState.Refines.step {s : LdGModelState} (h : s.Refines r) (op : Op G) :
    (s.step codec op).1 = (Reference.step codec r op).1 ∧
      (s.step codec op).2.Refines (Reference.step codec r op).2 := by
  have hlt := r.cursor_lt
  cases op with
  | applyOperation mutate =>
      rw [LdGModelState.step, LdGModelState.applyOperation, h.graph codec, Reference.step]
      cases r.graph codec >>= mutate with
      | error e => exact ⟨rfl, h⟩
      | ok next => exact ⟨rfl, h.push codec next true⟩
  | undo =>
      rw [LdGModelState.step, LdGModelState.undo, Reference.step, History.canUndo]
      by_cases hpos : 0 < r.cursor
      · have hback : Refines { s with pointer := s.pointer - 1, dirty := true } r.undo :=
          ⟨h.snapshots, by
            change s.pointer - 1 = ((r.cursor - 1 : ℕ) : ℤ)
            rw [h.pointer]
            omega⟩
        rw [if_neg (by rw [h.pointer]; omega), decide_eq_true hpos, if_pos rfl]
        exact ⟨congrArg Answer.graph (hback.graph codec), hback⟩
      · rw [if_pos (by rw [h.pointer]; omega), decide_eq_false hpos]
        exact ⟨rfl, h⟩
  | redo =>
      rw [LdGModelState.step, LdGModelState.redo, Reference.step, History.canRedo]
      by_cases hroom : r.cursor + 1 < r.items.length
      · have hforth : Refines { s with pointer := s.pointer + 1, dirty := true } r.redo := by
          rw [History.redo, dif_pos hroom]
          exact ⟨h.snapshots, by
            change s.pointer + 1 = ((r.cursor + 1 : ℕ) : ℤ)
            rw [h.pointer]
            rfl⟩
        rw [if_neg (by rw [h.pointer, h.snapshots]; omega), decide_eq_true hroom, if_pos rfl]
        exact ⟨congrArg Answer.graph (hforth.graph codec), hforth⟩
      · rw [if_pos (by rw [h.pointer, h.snapshots]; omega), decide_eq_false hroom]
        exact ⟨rfl, h⟩
  | markClean => exact ⟨rfl, h.snapshots, h.pointer⟩

/-- An operation of the function block editor is the operation on the history. -/
theorem FbdGModelState.Refines.step (h : s.Refines r) (op : Op G) :
    (s.step codec op).1 = (Reference.step codec r op).1 ∧
      (s.step codec op).2.Refines (Reference.step codec r op).2 := by
  have hlt := r.cursor_lt
  cases op with
  | applyOperation mutate =>
      rw [FbdGModelState.step, FbdGModelState.applyOperation, h.graph codec, Reference.step]
      cases r.graph codec >>= mutate with
      | error e => exact ⟨rfl, h⟩
      | ok next => exact ⟨rfl, h.push codec next true⟩
  | undo =>
      rw [FbdGModelState.step, FbdGModelState.undo, Reference.step, h.canUndo]
      cases hcan : r.canUndo with
      | false => exact ⟨rfl, h⟩
      | true =>
          have hpos : 0 < r.cursor := of_decide_eq_true hcan
          have hback : Refines { s with pointer := s.pointer - 1, dirty := true } r.undo :=
            ⟨h.snapshots, by
              change s.pointer - 1 = ((r.cursor - 1 : ℕ) : ℤ)
              rw [h.pointer]
              omega⟩
          exact ⟨congrArg Answer.graph (hback.graph codec), hback⟩
  | redo =>
      rw [FbdGModelState.step, FbdGModelState.redo, Reference.step, h.canRedo]
      cases hcan : r.canRedo with
      | false => exact ⟨rfl, h⟩
      | true =>
          have hroom : r.cursor + 1 < r.items.length := of_decide_eq_true hcan
          have hforth : Refines { s with pointer := s.pointer + 1, dirty := true } r.redo := by
            rw [History.redo, dif_pos hroom]
            exact ⟨h.snapshots, by
              change s.pointer + 1 = ((r.cursor + 1 : ℕ) : ℤ)
              rw [h.pointer]
              rfl⟩
          exact ⟨congrArg Answer.graph (hforth.graph codec), hforth⟩
  | markClean => exact ⟨rfl, h.snapshots, h.pointer⟩

end

/-! ### What the users of a class see -/

/-- A class, as its users see it. -/
structure UndoRedo (G : Type) where
  State : Type
  new : State
  step : State → Op G → Answer G × State
  graph : State → Except String G
  canUndo : State → Bool
  canRedo : State → Bool

section

variable {G : Type} (codec : Codec G) (initial : Option G)

/-- The ladder editor: it can undo and redo when the depths are positive. -/
def ldEditor : UndoRedo G where
  State := LdGModelState
  new := .new codec initial
  step := LdGModelState.step codec
  graph := LdGModelState.graph codec
  canUndo s := decide (0 < s.undoDepth)
  canRedo s := decide (0 < s.redoDepth)

/-- The function block editor. -/
def fbdEditor : UndoRedo G where
  State := FbdGModelState
  new := .new codec initial
  step := FbdGModelState.step codec
  graph := FbdGModelState.graph codec
  canUndo := FbdGModelState.canUndo
  canRedo := FbdGModelState.canRedo

/-- The history. -/
def reference : UndoRedo G where
  State := Reference
  new := .new codec initial
  step := Reference.step codec
  graph := Reference.graph codec
  canUndo := History.canUndo
  canRedo := History.canRedo

namespace UndoRedo

variable (m : UndoRedo G)

/-- The answers to some operations, from the beginning. -/
def answers (ops : List (Op G)) : List (Answer G) := (runOps m.step m.new ops).1

/-- The state after some operations. -/
def after (ops : List (Op G)) : m.State := (runOps m.step m.new ops).2

/-- The state after a further operation. -/
def next (s : m.State) (op : Op G) : m.State := (m.step s op).2

/-- The class and another one answer alike, show the same graph, and can undo and redo at the
same times. -/
structure Alike (m' : UndoRedo G) : Prop where
  answers : ∀ ops, m.answers ops = m'.answers ops
  graph : ∀ ops, m.graph (m.after ops) = m'.graph (m'.after ops)
  canUndo : ∀ ops, m.canUndo (m.after ops) = m'.canUndo (m'.after ops)
  canRedo : ∀ ops, m.canRedo (m.after ops) = m'.canRedo (m'.after ops)

/-- Undo right after an edit restores the graph, redo after undo restores it again, and a
mutation that throws changes nothing. -/
structure Restores : Prop where
  undo : ∀ ops mutate next, m.graph (m.after ops) >>= mutate = .ok next →
    m.graph (m.next (m.next (m.after ops) (.applyOperation mutate)) .undo) = m.graph (m.after ops)
  redo : ∀ ops, m.canUndo (m.after ops) = true →
    m.graph (m.next (m.next (m.after ops) .undo) .redo) = m.graph (m.after ops)
  redoEdit : ∀ ops mutate next, m.graph (m.after ops) >>= mutate = .ok next →
    m.graph (m.next (m.next (m.next (m.after ops) (.applyOperation mutate)) .undo) .redo) =
      m.graph (m.next (m.after ops) (.applyOperation mutate))
  throws : ∀ ops mutate e, m.graph (m.after ops) >>= mutate = .error e →
    m.next (m.after ops) (.applyOperation mutate) = m.after ops

/-- A class simulates the history when a relation of their states holds at the beginning
and is kept by every operation; a mutation that throws leaves the state as it is. -/
structure Simulates (R : m.State → Reference → Prop) : Prop where
  new : R m.new (Reference.new codec initial)
  step : ∀ s r op, R s r →
    (m.step s op).1 = (Reference.step codec r op).1 ∧
      R (m.step s op).2 (Reference.step codec r op).2
  graph : ∀ s r, R s r → m.graph s = r.graph codec
  canUndo : ∀ s r, R s r → m.canUndo s = r.canUndo
  canRedo : ∀ s r, R s r → m.canRedo s = r.canRedo
  throws : ∀ s mutate e, m.graph s >>= mutate = .error e →
    m.next s (.applyOperation mutate) = s

variable {codec initial m} {R : m.State → Reference → Prop} {r : Reference} {s : m.State}

theorem Simulates.runOps (h : Simulates codec initial m R) (hs : R s r) (ops : List (Op G)) :
    (runOps m.step s ops).1 = (runOps (Reference.step codec) r ops).1 ∧
      R (runOps m.step s ops).2 (runOps (Reference.step codec) r ops).2 := by
  induction ops generalizing s r with
  | nil => exact ⟨rfl, hs⟩
  | cons op ops ih =>
      obtain ⟨hanswer, hnext⟩ := h.step s r op hs
      obtain ⟨hanswers, hafter⟩ := ih hnext
      exact ⟨congrArg₂ List.cons hanswer hanswers, hafter⟩

theorem Simulates.alike (h : Simulates codec initial m R) :
    m.Alike (reference codec initial) where
  answers ops := (h.runOps h.new ops).1
  graph ops := h.graph _ _ (h.runOps h.new ops).2
  canUndo ops := h.canUndo _ _ (h.runOps h.new ops).2
  canRedo ops := h.canRedo _ _ (h.runOps h.new ops).2

theorem Simulates.next (h : Simulates codec initial m R) (hs : R s r) (op : Op G) :
    R (m.next s op) (Reference.step codec r op).2 :=
  (h.step s r op hs).2

/-- A class that has done an edit holds the edited history. -/
theorem Simulates.edit (h : Simulates codec initial m R) (hs : R s r)
    {mutate : G → Except String G} {next : G} (happly : m.graph s >>= mutate = .ok next) :
    R (m.next s (.applyOperation mutate)) (r.edit (codec.toJSON next)) := by
  have hnext := h.next hs (.applyOperation mutate)
  rw [h.graph s r hs] at happly
  rw [Reference.step, happly] at hnext
  exact hnext

theorem Simulates.undo (h : Simulates codec initial m R) (hs : R s r) (hcan : r.canUndo = true) :
    R (m.next s .undo) r.undo := by
  have hnext := h.next hs .undo
  rw [Reference.step, if_pos hcan] at hnext
  exact hnext

theorem Simulates.redo (h : Simulates codec initial m R) (hs : R s r) (hcan : r.canRedo = true) :
    R (m.next s .redo) r.redo := by
  have hnext := h.next hs .redo
  rw [Reference.step, if_pos hcan] at hnext
  exact hnext

theorem Simulates.graph_redo_undo (h : Simulates codec initial m R) (hs : R s r)
    (hcan : r.canUndo = true) : m.graph (m.next (m.next s .undo) .redo) = m.graph s := by
  have hredo := h.redo (h.undo hs hcan) (r.canRedo_undo hcan)
  rw [h.graph _ _ hredo, r.redo_undo hcan, h.graph s r hs]

/-- What the history restores, a class that simulates it restores. -/
theorem Simulates.restores (h : Simulates codec initial m R) : m.Restores where
  undo ops mutate next happly := by
    have hs : R (m.after ops) _ := (h.runOps h.new ops).2
    have hundo := h.undo (h.edit hs happly) (History.canUndo_edit (by decide) _ _)
    rw [h.graph _ _ hundo, h.graph _ _ hs, Reference.graph, Reference.graph,
      History.current_undo_edit (by decide)]
  redo ops hcan := by
    have hs : R (m.after ops) _ := (h.runOps h.new ops).2
    exact h.graph_redo_undo hs ((h.canUndo _ _ hs).symm.trans hcan)
  redoEdit ops mutate next happly := by
    have hs : R (m.after ops) _ := (h.runOps h.new ops).2
    exact h.graph_redo_undo (h.edit hs happly) (History.canUndo_edit (by decide) _ _)
  throws ops mutate e happly := h.throws _ mutate e happly

end UndoRedo

theorem ldEditor_simulates :
    (ldEditor codec initial).Simulates codec initial LdGModelState.Refines where
  new := ⟨rfl, rfl⟩
  step _ _ op hs := hs.step codec op
  graph _ _ hs := hs.graph codec
  canUndo _ r hs := by
    rw [← Bool.decide_coe r.canUndo]
    exact decide_eq_decide.mpr hs.undoDepth_pos_iff
  canRedo _ r hs := by
    rw [← Bool.decide_coe r.canRedo]
    exact decide_eq_decide.mpr hs.redoDepth_pos_iff
  throws _ _ _ happly := LdGModelState.applyOperation_throws codec happly

theorem fbdEditor_simulates :
    (fbdEditor codec initial).Simulates codec initial FbdGModelState.Refines where
  new := ⟨rfl, rfl⟩
  step _ _ op hs := hs.step codec op
  graph _ _ hs := hs.graph codec
  canUndo _ _ hs := hs.canUndo
  canRedo _ _ hs := hs.canRedo
  throws _ _ _ happly := FbdGModelState.applyOperation_throws codec happly

/-- Whatever the operations, the two classes answer like the bounded history and so like
each other; undo and redo restore the graphs, and a mutation that throws changes nothing. -/
theorem gmodelState_history :
    ((ldEditor codec initial).Alike (reference codec initial) ∧
      (ldEditor codec initial).Restores) ∧
    ((fbdEditor codec initial).Alike (reference codec initial) ∧
      (fbdEditor codec initial).Restores) ∧
    (ldEditor codec initial).Alike (fbdEditor codec initial) := by
  have hld := (ldEditor_simulates codec initial).alike
  have hfbd := (fbdEditor_simulates codec initial).alike
  refine ⟨⟨hld, (ldEditor_simulates codec initial).restores⟩,
    ⟨hfbd, (fbdEditor_simulates codec initial).restores⟩, ?_⟩
  exact ⟨fun ops => (hld.answers ops).trans (hfbd.answers ops).symm,
    fun ops => (hld.graph ops).trans (hfbd.graph ops).symm,
    fun ops => (hld.canUndo ops).trans (hfbd.canUndo ops).symm,
    fun ops => (hld.canRedo ops).trans (hfbd.canRedo ops).symm⟩

end

end Weftik.Editor
