import Mathlib

/-!
# Maps as Sorted Lists

A finite map as the list of its entries in the order of their keys, each key at most once:
what iterating over an ordered map gives. The order is part of the value, so two maps with
the same entries are the same list.

## Main definitions

* `SortedMap`: the map, with the proof that its keys increase.
* `SortedMap.insert`: the map with an entry replaced or added.

## Main results

* `SortedMap.sorted_insertEntry`: an insertion keeps the order.
* `SortedMap.mem_insert`: where the entries of the map come from.
-/

/-- The entries of a map in the order of their keys. -/
structure SortedMap (κ ν : Type) [LinearOrder κ] where
  entries : List (κ × ν)
  sorted : entries.Pairwise fun a b => a.1 < b.1

namespace SortedMap

variable {κ ν : Type} [LinearOrder κ]

/-- The map without entries. -/
def empty : SortedMap κ ν := ⟨[], .nil⟩

/-- The entries after one has been inserted. -/
def insertEntry (k : κ) (v : ν) : List (κ × ν) → List (κ × ν)
  | [] => [(k, v)]
  | e :: entries =>
      if k < e.1 then (k, v) :: e :: entries
      else if k = e.1 then (k, v) :: entries
      else e :: insertEntry k v entries

theorem mem_insertEntry {k : κ} {v : ν} {e : κ × ν} {entries : List (κ × ν)}
    (h : e ∈ insertEntry k v entries) : e = (k, v) ∨ e ∈ entries := by
  induction entries with
  | nil => exact Or.inl (List.mem_singleton.mp h)
  | cons d entries ih =>
      rw [insertEntry] at h
      split at h
      · exact List.mem_cons.mp h
      · split at h
        · exact (List.mem_cons.mp h).imp_right (List.mem_cons_of_mem d)
        · rcases List.mem_cons.mp h with rfl | h
          · exact Or.inr List.mem_cons_self
          · exact (ih h).imp_right (List.mem_cons_of_mem d)

theorem sorted_insertEntry (k : κ) (v : ν) {entries : List (κ × ν)}
    (h : entries.Pairwise fun a b => a.1 < b.1) :
    (insertEntry k v entries).Pairwise fun a b => a.1 < b.1 := by
  induction entries with
  | nil => exact List.pairwise_singleton _ _
  | cons e entries ih =>
      obtain ⟨hfirst, hrest⟩ := List.pairwise_cons.mp h
      rw [insertEntry]
      split
      · rename_i hlt
        refine List.pairwise_cons.mpr ⟨fun d hd => ?_, h⟩
        rcases List.mem_cons.mp hd with rfl | hd
        · exact hlt
        · exact lt_trans hlt (hfirst d hd)
      · rename_i hge
        split
        · rename_i heq
          refine List.pairwise_cons.mpr ⟨fun d hd => ?_, hrest⟩
          rw [heq]
          exact hfirst d hd
        · rename_i hne
          refine List.pairwise_cons.mpr ⟨fun d hd => ?_, ih hrest⟩
          rcases mem_insertEntry hd with rfl | hd
          · exact lt_of_le_of_ne (not_lt.mp hge) (Ne.symm hne)
          · exact hfirst d hd

/-- The map with an entry replaced, or added when the key has none. -/
def insert (m : SortedMap κ ν) (k : κ) (v : ν) : SortedMap κ ν :=
  ⟨insertEntry k v m.entries, sorted_insertEntry k v m.sorted⟩

/-- An entry of the map after an insertion is the new one or an old one. -/
theorem mem_insert {m : SortedMap κ ν} {k : κ} {v : ν} {e : κ × ν}
    (h : e ∈ (m.insert k v).entries) : e = (k, v) ∨ e ∈ m.entries :=
  mem_insertEntry h

end SortedMap
