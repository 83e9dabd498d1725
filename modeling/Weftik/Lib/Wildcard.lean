import Mathlib

/-!
# Patterns with a Wildcard

A pattern is a text in which one character, the wildcard, stands for any text and every
other one for itself. A pattern is matched piece by piece: what two patterns in a row match
are the texts in a row, a pattern without the wildcard matches itself only, and the part
behind the last wildcard ends every text that matches.

## Main definitions

* `Wild`: the texts that a pattern matches.

## Main results

* `wild_append_iff`: two patterns in a row.
* `wild_of_prefix`: a text that begins with the pattern, read literally.
* `Wild.isInfix_trimBoth`: a text that matches a pattern with wildcards at its ends only.
-/

namespace Wildcard

variable {α : Type} {star : α} {p q n m : List α}

/-- The texts that a pattern matches. -/
inductive Wild (star : α) : List α → List α → Prop
  | nil : Wild star [] []
  | star {p n : List α} (skipped : List α) :
      Wild star p n → Wild star (star :: p) (skipped ++ n)
  | char {c : α} {p n : List α} : c ≠ star → Wild star p n → Wild star (c :: p) (c :: n)

/-! ### Two patterns in a row -/

/-- What two patterns match, one after the other. -/
theorem Wild.append (hp : Wild star p n) (hq : Wild star q m) :
    Wild star (p ++ q) (n ++ m) := by
  induction hp with
  | nil => exact hq
  | star skipped _ ih =>
      rw [List.append_assoc]
      exact .star skipped ih
  | char hc _ ih => exact .char hc ih

/-- Two patterns in a row match two texts in a row. -/
theorem wild_append_iff :
    Wild star (p ++ q) n ↔ ∃ n₁ n₂, n = n₁ ++ n₂ ∧ Wild star p n₁ ∧ Wild star q n₂ := by
  constructor
  · intro h
    induction p generalizing n with
    | nil => exact ⟨[], n, rfl, .nil, h⟩
    | cons c p ih =>
        cases h with
        | star skipped h =>
            obtain ⟨n₁, n₂, rfl, h₁, h₂⟩ := ih h
            exact ⟨skipped ++ n₁, n₂, (List.append_assoc ..).symm, .star skipped h₁, h₂⟩
        | char hc h =>
            obtain ⟨n₁, n₂, rfl, h₁, h₂⟩ := ih h
            exact ⟨c :: n₁, n₂, rfl, .char hc h₁, h₂⟩
  · rintro ⟨n₁, n₂, rfl, h₁, h₂⟩
    exact h₁.append h₂

/-! ### Parts of a pattern -/

/-- A pattern matches itself, every wildcard the wildcard. -/
theorem wild_self [DecidableEq α] (star : α) (p : List α) : Wild star p p := by
  induction p with
  | nil => exact .nil
  | cons c p ih =>
      by_cases hc : c = star
      · subst hc
        exact .star [c] ih
      · exact .char hc ih

/-- A pattern without the wildcard matches itself only. -/
theorem Wild.eq_of_notMem (h : Wild star p n) (hp : star ∉ p) : n = p := by
  induction h with
  | nil => rfl
  | star => exact absurd List.mem_cons_self hp
  | char _ _ ih => rw [ih fun hmem => hp (List.mem_cons_of_mem _ hmem)]

/-- A pattern of wildcards matches every text. -/
theorem wild_of_forall_eq (hp : ∀ c ∈ p, c = star) (hne : p ≠ []) (n : List α) :
    Wild star p n := by
  induction p generalizing n with
  | nil => exact absurd rfl hne
  | cons c p ih =>
      obtain rfl := hp c List.mem_cons_self
      rw [← List.append_nil n]
      refine .star n ?_
      cases p with
      | nil => exact .nil
      | cons d p => exact ih (fun e he => hp e (List.mem_cons_of_mem c he)) nofun []

/-- A part at the end of a pattern without the wildcard ends the text. -/
theorem Wild.suffix (h : Wild star (p ++ q) n) (hq : star ∉ q) : q <:+ n := by
  obtain ⟨n₁, n₂, rfl, -, h₂⟩ := wild_append_iff.mp h
  exact ⟨n₁, by rw [h₂.eq_of_notMem hq]⟩

/-- A part of a pattern without the wildcard is a part of the text. -/
theorem Wild.isInfix (h : Wild star (p ++ (m ++ q)) n) (hm : star ∉ m) : m <:+: n := by
  obtain ⟨n₁, _, rfl, -, h⟩ := wild_append_iff.mp h
  obtain ⟨n₂, n₃, rfl, h₂, -⟩ := wild_append_iff.mp h
  exact ⟨n₁, n₃, by rw [h₂.eq_of_notMem hm, List.append_assoc]⟩

/-! ### Wildcards at the ends -/

variable [DecidableEq α]

/-- The pattern without the wildcards at its end, read literally. -/
def trimEnd (star : α) (p : List α) : List α := p.rdropWhile (· == star)

/-- The pattern without the wildcards at its two ends, read literally. -/
def trimBoth (star : α) (p : List α) : List α :=
  (p.dropWhile (· == star)).rdropWhile (· == star)

/-- The part of the pattern behind its last wildcard. -/
def lastPart (star : α) (p : List α) : List α := p.rtakeWhile (· != star)

/-- The part behind the last wildcard has none. -/
theorem notMem_lastPart (p : List α) : star ∉ lastPart star p := by
  intro hmem
  have hne := List.mem_rtakeWhile_imp hmem
  exact (bne_iff_ne.mp hne) rfl

/-- A pattern with a wildcard ends with its last part, behind a wildcard. -/
theorem exists_append_lastPart (h : star ∈ p) :
    ∃ q, p = q ++ star :: lastPart star p := by
  have hparts := List.rdropWhile_append_rtakeWhile (p := (· != star)) (l := p)
  have hne : p.rdropWhile (· != star) ≠ [] := by
    intro hnil
    exact bne_iff_ne.mp (List.rdropWhile_eq_nil_iff.mp hnil star h) rfl
  have hlast := List.rdropWhile_last_not (· != star) p hne
  rw [bne_iff_ne, not_not] at hlast
  refine ⟨(p.rdropWhile (· != star)).dropLast, ?_⟩
  nth_rewrite 1 [← hparts, ← List.dropLast_append_getLast hne]
  rw [hlast, List.append_assoc]
  rfl

/-- A text that a pattern matches ends with the part behind the last wildcard. -/
theorem Wild.lastPart_suffix (h : Wild star p n) : lastPart star p <:+ n := by
  have hparts : p.rdropWhile (· != star) ++ lastPart star p = p :=
    List.rdropWhile_append_rtakeWhile
  rw [← hparts] at h
  exact h.suffix (notMem_lastPart p)

/-- A text that begins with the pattern, read literally, and ends with its last part is
matched: a wildcard at the end takes the rest of the text, another last one takes itself and
what stands before the last part. -/
theorem wild_of_prefix (hstar : star ∈ p) (hp : trimEnd star p <+: n)
    (hlast : lastPart star p <:+ n) : Wild star p n := by
  obtain ⟨q, hq⟩ := exists_append_lastPart hstar
  by_cases hnil : lastPart star p = []
  · have hparts : trimEnd star p ++ p.rtakeWhile (· == star) = p :=
      List.rdropWhile_append_rtakeWhile
    have hne : p.rtakeWhile (· == star) ≠ [] := by
      rw [hq, hnil, List.rtakeWhile_concat_pos (· == star) _ _ (beq_self_eq_true star)]
      exact List.append_ne_nil_of_right_ne_nil _ (List.cons_ne_nil star [])
    obtain ⟨w, rfl⟩ := hp
    have hrest : Wild star (p.rtakeWhile (· == star)) w :=
      wild_of_forall_eq (fun c hc =>
          eq_of_beq (List.mem_rtakeWhile_imp (p := (· == star)) hc)) hne w
    have hwild := (wild_self star (trimEnd star p)).append hrest
    rwa [hparts] at hwild
  · have hself : trimEnd star p = p := by
      refine List.rdropWhile_eq_self_iff.mpr fun hne heq => ?_
      have hmem : p.getLast hne ∈ lastPart star p := by
        have hsuffix : lastPart star p <:+ p := List.rtakeWhile_suffix _ _
        rw [← hsuffix.getLast hnil]
        exact List.getLast_mem hnil
      exact notMem_lastPart p (eq_of_beq heq ▸ hmem)
    rw [hself] at hp
    obtain ⟨w, rfl⟩ := hp
    have hend : lastPart star p <:+ lastPart star p ++ w := by
      refine List.suffix_of_suffix_length_le hlast ⟨q ++ [star], ?_⟩ (by simp)
      rw [List.append_assoc, ← List.append_assoc [star]]
      change q ++ (star :: lastPart star p ++ w) = p ++ w
      rw [← List.append_assoc, ← hq]
    obtain ⟨z, hz⟩ := hend
    have hwild : Wild star (q ++ star :: lastPart star p)
        (q ++ ((star :: z) ++ lastPart star p)) :=
      (wild_self star q).append (.star _ (wild_self star _))
    have htext : q ++ ((star :: z) ++ lastPart star p) = p ++ w := by
      rw [List.cons_append, hz]
      nth_rewrite 2 [hq]
      simp
    rwa [← hq, htext] at hwild

/-- The pattern without the wildcards at its two ends is a part of it without those at its
end. -/
theorem trimBoth_isInfix_trimEnd (p : List α) : trimBoth star p <:+: trimEnd star p := by
  have hparts := List.takeWhile_append_dropWhile (p := (· == star)) (l := p)
  by_cases hnil : trimBoth star p = []
  · exact ⟨[], trimEnd star p, by rw [hnil]; rfl⟩
  · refine ⟨p.takeWhile (· == star), [], ?_⟩
    rw [List.append_nil, trimEnd]
    nth_rewrite 3 [← hparts]
    rw [List.rdropWhile, List.reverse_append, List.dropWhile_append, if_neg ?_,
      List.reverse_append, List.reverse_reverse]
    · rfl
    · intro hempty
      refine hnil ?_
      rw [trimBoth, List.rdropWhile, List.isEmpty_iff.mp hempty, List.reverse_nil]

/-- A pattern between wildcards. -/
theorem exists_append_trimBoth (star : α) (p : List α) :
    ∃ before behind, p = before ++ (trimBoth star p ++ behind) := by
  refine ⟨p.takeWhile (· == star), (p.dropWhile (· == star)).rtakeWhile (· == star), ?_⟩
  rw [trimBoth, List.rdropWhile_append_rtakeWhile, List.takeWhile_append_dropWhile]

/-- A text that a pattern with wildcards at its ends only matches has the rest of the pattern
as a part. -/
theorem Wild.isInfix_trimBoth (h : Wild star p n) (hinner : star ∉ trimBoth star p) :
    trimBoth star p <:+: n := by
  obtain ⟨before, behind, hp⟩ := exists_append_trimBoth star p
  rw [hp] at h
  exact h.isInfix hinner

end Wildcard
