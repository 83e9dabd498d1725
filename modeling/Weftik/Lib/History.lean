import Mathlib

/-!
# Bounded Histories

A history of snapshots with a cursor. An edit drops what has been undone, appends a
snapshot, and evicts the oldest one when there are too many; undo and redo move the cursor.

## Main definitions

* `History`: the snapshots, the cursor, and their bounds.
* `History.edit`, `History.undo`, `History.redo`: the operations.

## Main results

* `History.current_undo_edit`: undo takes an edit back.
* `History.redo_undo`: redo takes an undo back.
-/

/-- At most `limit` snapshots, the oldest one first, and a cursor to one of them. -/
@[ext]
structure History (α : Type) (limit : ℕ) where
  items : List α
  cursor : ℕ
  cursor_lt : cursor < items.length
  length_le : items.length ≤ limit

namespace History

variable {α : Type} {limit : ℕ}

theorem limit_pos (h : History α limit) : 0 < limit :=
  Nat.lt_of_le_of_lt (Nat.zero_le _) (Nat.lt_of_lt_of_le h.cursor_lt h.length_le)

/-- A history of one snapshot. -/
def start (hlimit : 0 < limit) (a : α) : History α limit :=
  ⟨[a], 0, Nat.one_pos, hlimit⟩

/-- The snapshot at the cursor. -/
def current (h : History α limit) : α := h.items.get ⟨h.cursor, h.cursor_lt⟩

/-- Is there an older snapshot? -/
def canUndo (h : History α limit) : Bool := decide (0 < h.cursor)

/-- Is there a snapshot that has been undone? -/
def canRedo (h : History α limit) : Bool := decide (h.cursor + 1 < h.items.length)

/-- The snapshots up to the cursor and a further one. -/
def appended (h : History α limit) (a : α) : List α := h.items.take (h.cursor + 1) ++ [a]

theorem length_appended (h : History α limit) (a : α) :
    (h.appended a).length = h.cursor + 2 := by
  have hlt := h.cursor_lt
  rw [appended, List.length_append, List.length_take, List.length_singleton]
  omega

/-- Drop what has been undone, append a snapshot, and evict the oldest one if there are more
than the limit. -/
def edit (h : History α limit) (a : α) : History α limit where
  items := (h.appended a).drop (h.cursor + 2 - limit)
  cursor := h.cursor + 1 - (h.cursor + 2 - limit)
  cursor_lt := by
    have hpos := h.limit_pos
    rw [List.length_drop, length_appended]
    omega
  length_le := by
    rw [List.length_drop, length_appended]
    omega

/-- Go back by one snapshot, if there is an older one. -/
def undo (h : History α limit) : History α limit :=
  { h with
    cursor := h.cursor - 1
    cursor_lt := Nat.lt_of_le_of_lt (Nat.sub_le _ _) h.cursor_lt }

/-- Go forward by one snapshot, if there is one that has been undone. -/
def redo (h : History α limit) : History α limit :=
  if hlt : h.cursor + 1 < h.items.length then { h with cursor := h.cursor + 1, cursor_lt := hlt }
  else h

theorem getElem?_cursor (h : History α limit) : h.items[h.cursor]? = some h.current :=
  List.getElem?_eq_getElem h.cursor_lt

theorem current_eq {h : History α limit} {a : α} (ha : h.items[h.cursor]? = some a) :
    h.current = a :=
  Option.some.inj (h.getElem?_cursor.symm.trans ha)

/-- The snapshot of an edit, and the one before it, in the appended list. -/
theorem getElem?_appended (h : History α limit) (a : α) :
    (h.appended a)[h.cursor + 1]? = some a ∧ (h.appended a)[h.cursor]? = some h.current := by
  have hlt := h.cursor_lt
  have hlen : (h.items.take (h.cursor + 1)).length = h.cursor + 1 := by
    rw [List.length_take]
    omega
  constructor
  · rw [appended, List.getElem?_append_right (Nat.le_of_eq hlen), hlen, Nat.sub_self]
    rfl
  · rw [appended, List.getElem?_append_left (by omega), List.getElem?_take_of_lt (by omega)]
    exact h.getElem?_cursor

/-- Undo takes an edit back. -/
theorem current_undo_edit (hlimit : 1 < limit) (h : History α limit) (a : α) :
    (h.edit a).undo.current = h.current := by
  refine current_eq ?_
  change ((h.appended a).drop (h.cursor + 2 - limit))[h.cursor + 1 - (h.cursor + 2 - limit) - 1]?
    = _
  rw [List.getElem?_drop, show h.cursor + 2 - limit + (h.cursor + 1 - (h.cursor + 2 - limit) - 1) =
    h.cursor by omega]
  exact (h.getElem?_appended a).2

/-- Redo takes an undo back. -/
theorem redo_undo (h : History α limit) (hundo : h.canUndo = true) : h.undo.redo = h := by
  have hpos : 0 < h.cursor := of_decide_eq_true hundo
  have hcursor : h.cursor - 1 + 1 = h.cursor := Nat.sub_add_cancel hpos
  have hlt : h.undo.cursor + 1 < h.undo.items.length := by
    change h.cursor - 1 + 1 < h.items.length
    rw [hcursor]
    exact h.cursor_lt
  rw [redo, dif_pos hlt]
  exact History.ext rfl hcursor

/-- An undo can be redone. -/
theorem canRedo_undo (h : History α limit) (hundo : h.canUndo = true) :
    h.undo.canRedo = true := by
  have hpos : 0 < h.cursor := of_decide_eq_true hundo
  have hlt := h.cursor_lt
  refine decide_eq_true ?_
  change h.cursor - 1 + 1 < h.items.length
  omega

/-- An edit can be undone. -/
theorem canUndo_edit (hlimit : 1 < limit) (h : History α limit) (a : α) :
    (h.edit a).canUndo = true := by
  refine decide_eq_true ?_
  change 0 < h.cursor + 1 - (h.cursor + 2 - limit)
  omega

end History
