import Mathlib

/-!
# Bounded Queues

A queue that holds at most as many values as its depth says. When it is full, a further value
pushes out the oldest one, is dropped itself, or is refused.

## Main definitions

* `BoundedQueue`: the queue, with its bound.
* `BoundedQueue.put`: a further value, and whether it is in the queue afterwards.
* `BoundedQueue.take`: the oldest value.

## Main results

* `BoundedQueue.put_of_lt`: every policy puts a value where there is room.
* `BoundedQueue.keepOldest_of_full`, `BoundedQueue.keepNewest_of_full`: a full queue.
-/

/-- What happens to a value that comes to a full queue. -/
inductive Overflow
  | dropOldest
  | dropNewest
  | refuse
  deriving DecidableEq

/-- A queue of at most `depth` values, the oldest one first. -/
structure BoundedQueue (α : Type) (depth : ℕ) where
  items : List α
  length_le : items.length ≤ depth

namespace BoundedQueue

variable {α : Type} {depth : ℕ}

/-- A queue without values. -/
def empty : BoundedQueue α depth := ⟨[], Nat.zero_le _⟩

/-- Is there no room? -/
def isFull (q : BoundedQueue α depth) : Bool := q.items.length == depth

/-- The last `depth` of the values and a further one. -/
def keepNewest (q : BoundedQueue α depth) (a : α) : BoundedQueue α depth :=
  ⟨(q.items ++ [a]).drop (q.items.length + 1 - depth), by
    rw [List.length_drop, List.length_append, List.length_singleton]
    omega⟩

/-- The first `depth` of the values and a further one. -/
def keepOldest (q : BoundedQueue α depth) (a : α) : BoundedQueue α depth :=
  ⟨(q.items ++ [a]).take depth, List.length_take_le _ _⟩

/-- The queue after a further value, and whether that value is in it. A value that is refused
or dropped leaves the queue as it is. -/
def put : Overflow → BoundedQueue α depth → α → BoundedQueue α depth × Bool
  | .dropOldest, q, a => (q.keepNewest a, depth != 0)
  | .dropNewest, q, a => (q.keepOldest a, !q.isFull)
  | .refuse, q, a => (q.keepOldest a, !q.isFull)

/-- The oldest value, if there is one, and the queue without it. -/
def take (q : BoundedQueue α depth) : Option α × BoundedQueue α depth :=
  (q.items.head?, ⟨q.items.tail, by
    rw [List.length_tail]
    exact (Nat.sub_le _ 1).trans q.length_le⟩)

theorem items_keepNewest (q : BoundedQueue α depth) (a : α) :
    (q.keepNewest a).items = (q.items ++ [a]).drop (q.items.length + 1 - depth) :=
  rfl

theorem items_keepOldest (q : BoundedQueue α depth) (a : α) :
    (q.keepOldest a).items = (q.items ++ [a]).take depth :=
  rfl

theorem isFull_eq_false {q : BoundedQueue α depth} : q.isFull = false ↔ q.items.length < depth := by
  have := q.length_le
  rw [isFull, beq_eq_false_iff_ne]
  omega

theorem length_eq_of_isFull {q : BoundedQueue α depth} (h : q.isFull = true) :
    q.items.length = depth :=
  beq_iff_eq.mp h

/-- Where there is room, every policy puts the value at the end. -/
theorem put_of_lt (overflow : Overflow) {q : BoundedQueue α depth} (h : q.items.length < depth)
    (a : α) : (put overflow q a).1.items = q.items ++ [a] ∧ (put overflow q a).2 = true := by
  have hroom := isFull_eq_false.mpr h
  have hnewest : (q.items ++ [a]).drop (q.items.length + 1 - depth) = q.items ++ [a] := by
    rw [Nat.sub_eq_zero_of_le h, List.drop_zero]
  have holdest : (q.items ++ [a]).take depth = q.items ++ [a] := by
    refine List.take_of_length_le ?_
    rw [List.length_append, List.length_singleton]
    exact h
  cases overflow with
  | dropOldest => exact ⟨hnewest, bne_iff_ne.mpr (Nat.ne_of_gt (Nat.zero_lt_of_lt h))⟩
  | dropNewest => exact ⟨holdest, by rw [put, hroom]; rfl⟩
  | refuse => exact ⟨holdest, by rw [put, hroom]; rfl⟩

/-- A full queue that keeps its oldest values stays as it is. -/
theorem keepOldest_of_full {q : BoundedQueue α depth} (h : q.isFull = true) (a : α) :
    (q.keepOldest a).items = q.items := by
  have hlength := length_eq_of_isFull h
  rw [items_keepOldest, List.take_append_of_le_length hlength.ge, List.take_of_length_le hlength.le]

/-- A full queue that keeps its newest values loses the oldest one. -/
theorem keepNewest_of_full {q : BoundedQueue α depth} (h : q.isFull = true) (hdepth : depth ≠ 0)
    (a : α) : (q.keepNewest a).items = q.items.tail ++ [a] := by
  have hlength := length_eq_of_isFull h
  have hne : q.items ≠ [] := fun hnil => hdepth (by rw [← hlength, hnil, List.length_nil])
  rw [items_keepNewest, hlength, Nat.add_sub_cancel_left, List.drop_one,
      List.tail_append_of_ne_nil hne]

end BoundedQueue
