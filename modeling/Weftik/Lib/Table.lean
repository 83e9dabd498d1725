import Mathlib

/-!
# Tables and Their Writes

A table maps keys to optional values, and is written entry by entry. What a key holds after
a list of writes is the last entry under it, or what it held before.

## Main definitions

* `writes`: a table after a list of entries has been written.
* `last`: the last entry under a key.
* `IsKeys`: an enumeration of the keys of a table.

## Main results

* `writes_apply`: a key after the writes.
* `last_append`: the last entry of two lists of writes.
* `exists_isKeys_writes`: finitely many writes leave finitely many keys.
-/

namespace Table

variable {κ ν : Type} [DecidableEq κ]

/-- The table after the entries have been written, in order. -/
def writes (t : κ → Option ν) (entries : List (κ × ν)) : κ → Option ν :=
  entries.foldl (fun t e => Function.update t e.1 (some e.2)) t

/-- The last entry under a key. -/
def last : List (κ × ν) → κ → Option ν
  | [], _ => none
  | e :: entries, k => (last entries k).or (if e.1 = k then some e.2 else none)

/-- The list enumerates the keys of the table, in some order. -/
structure IsKeys (t : κ → Option ν) (keys : List κ) : Prop where
  nodup : keys.Nodup
  mem_iff : ∀ k, k ∈ keys ↔ (t k).isSome

@[simp] theorem writes_nil (t : κ → Option ν) : writes t [] = t := rfl

@[simp] theorem last_nil (k : κ) : last ([] : List (κ × ν)) k = none := rfl

@[simp] theorem last_cons (e : κ × ν) (entries : List (κ × ν)) (k : κ) :
    last (e :: entries) k = (last entries k).or (if e.1 = k then some e.2 else none) := rfl

theorem writes_append (t : κ → Option ν) (a b : List (κ × ν)) :
    writes t (a ++ b) = writes (writes t a) b :=
  List.foldl_append

theorem last_append (a b : List (κ × ν)) (k : κ) :
    last (a ++ b) k = (last b k).or (last a k) := by
  induction a with
  | nil => rw [List.nil_append, last_nil, Option.or_none]
  | cons e a ih => rw [List.cons_append, last_cons, ih, Option.or_assoc, last_cons]

/-- What a key holds after the writes. -/
theorem writes_apply (t : κ → Option ν) (entries : List (κ × ν)) (k : κ) :
    writes t entries k = (last entries k).or (t k) := by
  induction entries generalizing t with
  | nil => rfl
  | cons e entries ih =>
      rw [last_cons, Option.or_assoc]
      refine (ih _).trans (congrArg _ ?_)
      change Function.update t e.1 (some e.2) k = _
      by_cases h : e.1 = k
      · rw [← h, Function.update_self, if_pos rfl, Option.some_or]
      · rw [Function.update_of_ne (Ne.symm h), if_neg h, Option.none_or]

theorem writes_apply_of_last {entries : List (κ × ν)} {k : κ} (h : last entries k = none)
    (t : κ → Option ν) : writes t entries k = t k := by
  rw [writes_apply, h, Option.none_or]

/-- The writes of one list after another. -/
theorem writes_flatMap {α : Type} (t : κ → Option ν) (as : List α) (f : α → List (κ × ν)) :
    as.foldl (fun t a => writes t (f a)) t = writes t (as.flatMap f) := by
  induction as generalizing t with
  | nil => rfl
  | cons a as ih => rw [List.foldl_cons, ih, List.flatMap_cons, writes_append]

/-- Lists that write at most one value under a key. -/
theorem last_flatMap_cases {α : Type} {as : List α} {f : α → List (κ × ν)} {k : κ} {v : ν}
    (h : ∀ a ∈ as, last (f a) k = none ∨ last (f a) k = some v) :
    last (as.flatMap f) k = none ∨ last (as.flatMap f) k = some v := by
  induction as with
  | nil => exact Or.inl rfl
  | cons a as ih =>
      rw [List.flatMap_cons, last_append]
      rcases ih fun b hb => h b (List.mem_cons_of_mem a hb) with hrest | hrest
      · rw [hrest, Option.none_or]
        exact h a List.mem_cons_self
      · exact Or.inr (by rw [hrest, Option.some_or])

/-- Lists that write at most one value under a key, one of which does write it. -/
theorem last_flatMap {α : Type} {as : List α} {f : α → List (κ × ν)} {k : κ} {v : ν}
    (h : ∀ a ∈ as, last (f a) k = none ∨ last (f a) k = some v)
    {a : α} (ha : a ∈ as) (hlast : last (f a) k = some v) :
    last (as.flatMap f) k = some v := by
  induction as with
  | nil => cases ha
  | cons b as ih =>
      have hrest : ∀ c ∈ as, last (f c) k = none ∨ last (f c) k = some v :=
        fun c hc => h c (List.mem_cons_of_mem b hc)
      rw [List.flatMap_cons, last_append]
      rcases List.mem_cons.mp ha with rfl | ha
      · rcases last_flatMap_cases hrest with hnone | hsome
        · rw [hnone, Option.none_or, hlast]
        · rw [hsome, Option.some_or]
      · rw [ih hrest ha, Option.some_or]

theorem last_eq_none_iff {entries : List (κ × ν)} {k : κ} :
    last entries k = none ↔ k ∉ entries.map Prod.fst := by
  induction entries with
  | nil => simp
  | cons e entries ih =>
      rw [last_cons, Option.or_eq_none_iff, ih, List.map_cons, List.mem_cons, not_or, and_comm]
      refine and_congr_left fun _ => ?_
      by_cases h : e.1 = k
      · simp [h]
      · simp [h, Ne.symm h]

/-- With one entry for each key, the last entry is the entry. -/
theorem last_eq_some_of_mem {entries : List (κ × ν)} (h : (entries.map Prod.fst).Nodup)
    {e : κ × ν} (he : e ∈ entries) : last entries e.1 = some e.2 := by
  induction entries with
  | nil => cases he
  | cons e' entries ih =>
      obtain ⟨hnot, hnodup⟩ := List.nodup_cons.mp h
      rw [last_cons]
      rcases List.mem_cons.mp he with rfl | he
      · rw [last_eq_none_iff.mpr hnot, if_pos rfl, Option.none_or]
      · rw [ih hnodup he, Option.some_or]

/-- Finitely many writes to an empty table leave finitely many keys. -/
theorem exists_isKeys_writes (entries : List (κ × ν)) :
    ∃ keys, IsKeys (writes (fun _ => none) entries) keys := by
  refine ⟨(entries.map Prod.fst).dedup, List.nodup_dedup _, fun k => ?_⟩
  rw [List.mem_dedup, writes_apply, Option.or_none, ← not_iff_not, ← last_eq_none_iff,
    Option.not_isSome_iff_eq_none]

end Table
