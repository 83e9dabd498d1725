import Mathlib

/-!
# The Ring Buffer of the Metrics

The runtime keeps the durations of its last cycles in a ring of atomic cells. A counter of all
pushes says where the next value goes, modulo the number of cells, and reading begins with the
oldest cell.

## Main definitions

* `RingBuffer`: the cells and the counter.
* `RingBuffer.push`, `RingBuffer.read`, `RingBuffer.reset`: the operations.
* `RingBuffer.Holds`: the cells hold the last of some values.

## Main results

* `RingBuffer.Holds.push`: a push keeps the window of the last values.
* `RingBuffer.read_pushes`: what is read after any number of pushes.
-/

namespace Weftik

/-- The cells, and the number of pushes as a `usize`. -/
structure RingBuffer (n : ℕ) where
  buf : Vector UInt64 n
  cursor : UInt64
  deriving DecidableEq

namespace RingBuffer

variable {n : ℕ}

/-- A buffer of zeros. -/
def new (n : ℕ) : RingBuffer n := ⟨Vector.replicate n 0, 0⟩

/-- Write a value over the oldest one. The counter wraps around. -/
def push (b : RingBuffer n) (value : UInt64) : RingBuffer n where
  buf := b.buf.setIfInBounds (b.cursor.toNat % n) value
  cursor := b.cursor + 1

/-- The cell from which the values are read: the first one until the buffer is full. -/
def readStart (b : RingBuffer n) : ℕ := if b.cursor.toNat < n then 0 else b.cursor.toNat % n

/-- All values, the oldest one first. -/
def read (b : RingBuffer n) : List UInt64 :=
  (List.range n).map fun i => b.buf[(b.readStart + i) % n]?.getD 0

/-- Zero all cells and the counter. -/
def reset (b : RingBuffer n) : RingBuffer n := ⟨b.buf.map fun _ => 0, 0⟩

/-! ### The window -/

/-- The counter is the number of the values; each of the last `n` values is in its cell, and
the cells that were never written are zero. -/
structure Holds (b : RingBuffer n) (values : List UInt64) : Prop where
  cursor : b.cursor.toNat = values.length
  written : ∀ i < values.length, values.length ≤ i + n → b.buf[i % n]? = values[i]?
  zero : ∀ i < n, values.length ≤ i → b.buf[i]? = some 0

theorem holds_new (n : ℕ) : (new n).Holds [] where
  cursor := rfl
  written _ hi _ := absurd hi (Nat.not_lt_zero _)
  zero i hi _ := by simp [new, hi]

/-- Two of `n` consecutive numbers have different remainders. -/
theorem mod_ne_mod {i k : ℕ} (hi : i < k) (hk : k < i + n) : i % n ≠ k % n := by
  intro heq
  have hdvd : n ∣ k - i := Nat.dvd_of_mod_eq_zero (Nat.sub_mod_eq_zero_of_mod_eq heq.symm)
  have hle := Nat.le_of_dvd (Nat.sub_pos_of_lt hi) hdvd
  omega

variable {values : List UInt64}

/-- A push moves the window by one, before, at and after a wrap. -/
theorem Holds.push {b : RingBuffer n} (h : b.Holds values) (hn : 0 < n)
    (hlt : values.length + 1 < 2 ^ 64) (value : UInt64) :
    (b.push value).Holds (values ++ [value]) where
  cursor := by
    rw [RingBuffer.push, UInt64.toNat_add, h.cursor, List.length_append, List.length_singleton]
    exact Nat.mod_eq_of_lt hlt
  written i hi hwindow := by
    rw [List.length_append, List.length_singleton] at hi hwindow
    rw [RingBuffer.push, h.cursor, Vector.getElem?_setIfInBounds]
    rcases Nat.lt_succ_iff_lt_or_eq.mp hi with hold | rfl
    · rw [if_neg (Ne.symm (mod_ne_mod hold (by omega))), h.written i hold (by omega),
        List.getElem?_append_left hold]
    · rw [if_pos rfl, if_pos (Nat.mod_lt _ hn), List.getElem?_concat_length]
  zero i hi hfree := by
    rw [List.length_append, List.length_singleton] at hfree
    -- a cell that was never written is not the one that is written now
    have hcell : values.length % n = values.length := Nat.mod_eq_of_lt (by omega)
    rw [RingBuffer.push, h.cursor, Vector.getElem?_setIfInBounds, hcell, if_neg (by omega)]
    exact h.zero i hi (by omega)

/-- The window after any number of pushes that the counter can count. -/
theorem holds_foldl_push (hn : 0 < n) (hlt : values.length < 2 ^ 64) :
    (values.foldl push (new n)).Holds values := by
  induction values using List.reverseRecOn with
  | nil => exact holds_new n
  | append_singleton values value ih =>
      rw [List.length_append, List.length_singleton] at hlt
      rw [List.foldl_append]
      exact (ih (by omega)).push hn hlt value

/-- Reading begins at the oldest value of the window. -/
theorem Holds.getElem?_read {b : RingBuffer n} (h : b.Holds values) {i : ℕ} (hi : i < n) :
    b.buf[(b.readStart + i) % n]? =
      (values.drop (values.length - n) ++ List.replicate (n - values.length) 0)[i]? := by
  rw [readStart, h.cursor]
  by_cases hfull : values.length < n
  · rw [if_pos hfull, Nat.zero_add, Nat.mod_eq_of_lt hi, Nat.sub_eq_zero_of_le (Nat.le_of_lt hfull),
      List.drop_zero]
    by_cases hwritten : i < values.length
    · have hcell := h.written i hwritten (by omega)
      rw [Nat.mod_eq_of_lt hi] at hcell
      rw [hcell, List.getElem?_append_left hwritten]
    · rw [h.zero i hi (by omega), List.getElem?_append_right (by omega),
        List.getElem?_replicate_of_lt (by omega)]
  · -- the `i`-th value of the window stands `n` cells further on, in the same cell
    have hcell : (values.length % n + i) % n = (values.length - n + i) % n := by
      rw [Nat.mod_add_mod, ← Nat.add_mod_right (values.length - n + i)]
      congr 1
      omega
    rw [if_neg hfull, hcell, h.written _ (by omega) (by omega),
      List.getElem?_append_left (by rw [List.length_drop]; omega), List.getElem?_drop]

/-- After any number of pushes that the counter can count, the last `n` of the values are read
in the order of the pushes, and then a zero for each cell that was never written. -/
theorem read_pushes {n : ℕ} (hn : 0 < n) {values : List UInt64} (hlt : values.length < 2 ^ 64) :
    (values.foldl push (new n)).read =
      values.drop (values.length - n) ++ List.replicate (n - values.length) 0 := by
  have hholds := holds_foldl_push hn hlt
  refine List.ext_getElem? fun i => ?_
  rw [read, List.getElem?_map]
  by_cases hi : i < n
  · have hlength : i < (values.drop (values.length - n) ++
        List.replicate (n - values.length) 0).length := by
      rw [List.length_append, List.length_drop, List.length_replicate]
      omega
    rw [List.getElem?_range hi, Option.map_some, hholds.getElem?_read hi,
      List.getElem?_eq_getElem hlength, Option.getD_some]
  · rw [List.getElem?_eq_none (by rw [List.length_range]; omega), Option.map_none,
      List.getElem?_eq_none]
    rw [List.length_append, List.length_drop, List.length_replicate]
    omega

/-- Six pushes into a ring of four cells. -/
theorem read_pushes_four :
    ([1, 2, 3, 4, 5, 6].foldl push (new 4)).read = [3, 4, 5, 6] :=
  read_pushes (by decide) (by decide)

end RingBuffer

end Weftik
