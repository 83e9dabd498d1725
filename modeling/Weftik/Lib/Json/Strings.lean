import Weftik.Lib.Json.Reader

/-!
# Strings in JSON Texts

What is read of a string, for two ways to write it: with a backslash before each quotation
mark and each backslash, and with nothing before any character.

## Main definitions

* `Json.escape`: the text of a string with its backslashes.
* `Json.IsPlain`: the characters that stand for themselves.

## Main results

* `Json.readChars_escape`, `Json.readChars_escape_control`: the string is read back, unless
  it has a control character.
* `Json.readChars_raw`: what is read of a string in which nothing is escaped.
-/

namespace Json

/-! ### Reading strings -/

/-- A character in a string, with a backslash before a quotation mark or a backslash. -/
def escapeChar (c : Char) : List Char := if c = '"' ∨ c = '\\' then ['\\', c] else [c]

/-- The text of a string. -/
def escape (s : List Char) : List Char := s.flatMap escapeChar

/-- A character that stands for itself in a string. -/
def IsPlain (c : Char) : Prop := c ≠ '"' ∧ c ≠ '\\' ∧ ¬ IsControl c

instance (c : Char) : Decidable (IsPlain c) :=
  inferInstanceAs (Decidable (c ≠ '"' ∧ c ≠ '\\' ∧ ¬ IsControl c))

/-- The characters of a text are plain when all of them are found so. -/
theorem isPlain_of_all {s : List Char} (h : s.all (fun c => decide (IsPlain c)) = true) :
    ∀ c ∈ s, IsPlain c :=
  fun c hc => of_decide_eq_true (List.all_eq_true.mp h c hc)

theorem not_isControl {s : List Char} (h : ∀ c ∈ s, IsPlain c) : ∀ c ∈ s, ¬ IsControl c :=
  fun c hc => (h c hc).2.2

theorem escapeChar_of_isPlain {c : Char} (h : IsPlain c) : escapeChar c = [c] :=
  if_neg (not_or.mpr ⟨h.1, h.2.1⟩)

theorem escape_cons (c : Char) (s : List Char) : escape (c :: s) = escapeChar c ++ escape s :=
  List.flatMap_cons

theorem length_escapeChar_pos (c : Char) : 0 < (escapeChar c).length := by
  rw [escapeChar]
  split <;> exact Nat.zero_lt_succ _

/-- Nothing is escaped in a string of plain characters. -/
theorem escape_eq_self {s : List Char} (h : ∀ c ∈ s, IsPlain c) : escape s = s := by
  induction s with
  | nil => rfl
  | cons c s ih =>
      obtain ⟨hc, hs⟩ := List.forall_mem_cons.mp h
      rw [escape_cons, escapeChar_of_isPlain hc, ih hs]
      rfl

/-- A character that is no control character is read from its text. -/
theorem readChars_escapeChar {c : Char} (hc : ¬ IsControl c) (fuel : ℕ) (cs : List Char) :
    readChars (fuel + 1) (escapeChar c ++ cs) =
      (readChars fuel cs).map fun p => (c :: p.1, p.2) := by
  by_cases hspecial : c = '"' ∨ c = '\\'
  · have hescape : readEscape (c :: cs) = some (c, cs) := by
      rw [readEscape, if_pos (hspecial.elim Or.inl fun h => Or.inr (Or.inl h))]
    rw [escapeChar, if_pos hspecial, List.cons_append, List.cons_append, List.nil_append,
      readChars, if_neg (by decide), if_pos rfl, hescape]
  · obtain ⟨hquote, hslash⟩ := not_or.mp hspecial
    rw [escapeChar, if_neg hspecial, List.cons_append, List.nil_append, readChars,
      if_neg hquote, if_neg hslash, if_neg hc]

/-- A control character is not read: no text is written for it. -/
theorem readChars_control {c : Char} (hc : IsControl c) (fuel : ℕ) (cs : List Char) :
    readChars fuel (escapeChar c ++ cs) = none := by
  have hquote : c ≠ '"' := by
    rintro rfl
    exact absurd hc (by decide)
  have hslash : c ≠ '\\' := by
    rintro rfl
    exact absurd hc (by decide)
  cases fuel with
  | zero => rfl
  | succ fuel =>
      rw [escapeChar, if_neg (not_or.mpr ⟨hquote, hslash⟩), List.cons_append, List.nil_append,
        readChars, if_neg hquote, if_neg hslash, if_pos hc]

/-- A string without control characters is read back from its text. -/
theorem readChars_escape {s : List Char} (hs : ∀ c ∈ s, ¬ IsControl c) {fuel : ℕ}
    (hfuel : (escape s).length < fuel) (rest : List Char) :
    readChars fuel (escape s ++ '"' :: rest) = some (s, rest) := by
  induction s generalizing fuel with
  | nil =>
      cases fuel with
      | zero => exact absurd hfuel (Nat.not_lt_zero _)
      | succ fuel => exact if_pos rfl
  | cons c s ih =>
      obtain ⟨hc, hs⟩ := List.forall_mem_cons.mp hs
      rw [escape_cons, List.length_append] at hfuel
      have hpos := length_escapeChar_pos c
      cases fuel with
      | zero => exact absurd hfuel (Nat.not_lt_zero _)
      | succ fuel =>
          rw [escape_cons, List.append_assoc, readChars_escapeChar hc, ih hs (by omega)]
          rfl

/-- A string with a control character is not read from its text. -/
theorem readChars_escape_control {s : List Char} (hs : ∃ c ∈ s, IsControl c) (fuel : ℕ)
    (rest : List Char) : readChars fuel (escape s ++ rest) = none := by
  induction s generalizing fuel with
  | nil => simp at hs
  | cons c s ih =>
      rw [escape_cons, List.append_assoc]
      by_cases hc : IsControl c
      · exact readChars_control hc fuel _
      · have hrest : ∃ c ∈ s, IsControl c := by
          obtain ⟨d, hd, hcontrol⟩ := hs
          rcases List.mem_cons.mp hd with rfl | hd
          · exact absurd hcontrol hc
          · exact ⟨d, hd, hcontrol⟩
        cases fuel with
        | zero => rfl
        | succ fuel =>
            rw [readChars_escapeChar hc, ih hrest]
            rfl

/-- A string is read from one quotation mark to the other. -/
theorem readString_escape {s : List Char} (hs : ∀ c ∈ s, ¬ IsControl c) (rest : List Char) :
    readString ('"' :: (escape s ++ '"' :: rest)) = some (s, rest) := by
  refine readChars_escape hs ?_ rest
  rw [List.length_append]
  omega

/-! ### Strings in which nothing is escaped -/

/-- Hexadecimal digits end before a quotation mark. -/
theorem readHex_append {s rest after : List Char} {unit : ℕ}
    (h : readHex (s ++ '"' :: rest) = some (unit, after)) :
    ∃ s', s'.length < s.length ∧ after = s' ++ '"' :: rest := by
  have hquote : hexDigit '"' = none := by decide
  match s with
  | [] | [a] | [a, b] | [a, b, c] =>
      -- The quotation mark is one of the four characters, if there are four at all.
      rcases rest with _ | ⟨_, _ | ⟨_, _ | ⟨_, rest⟩⟩⟩ <;>
        simp [readHex, hquote] at h
  | a :: b :: c :: d :: s =>
      refine ⟨s, by simp only [List.length_cons]; omega, ?_⟩
      simp only [List.cons_append, readHex, Option.bind_eq_bind, Option.bind_eq_some_iff,
        Option.some.injEq, Prod.mk.injEq] at h
      obtain ⟨-, -, -, -, -, -, -, -, -, rfl⟩ := h
      rfl

theorem expect_eq_some {c : Char} {cs after : List Char} :
    expect c cs = some after ↔ cs = c :: after := by
  cases cs with
  | nil => simp [expect]
  | cons d cs => by_cases hd : d = c <;> simp [expect, hd]

/-- What has to come before a quotation mark, and is none, leaves the quotation mark. -/
theorem expect_append {c : Char} (hc : c ≠ '"') {s rest after : List Char}
    (h : expect c (s ++ '"' :: rest) = some after) :
    ∃ s', s'.length < s.length ∧ after = s' ++ '"' :: rest := by
  cases s with
  | nil => exact absurd (List.cons.inj (expect_eq_some.mp h)).1.symm hc
  | cons d s =>
      exact ⟨s, Nat.lt_succ_self _, (List.cons.inj (expect_eq_some.mp h)).2.symm⟩

/-- A code unit, or two, end before a quotation mark. -/
theorem readUnicode_append {s rest after : List Char} {c : Char}
    (h : readUnicode (s ++ '"' :: rest) = some (c, after)) :
    ∃ s', s'.length < s.length ∧ after = s' ++ '"' :: rest := by
  simp only [readUnicode, Option.bind_eq_bind, Option.bind_eq_some_iff, Prod.exists] at h
  obtain ⟨unit, after₁, hunit, h⟩ := h
  obtain ⟨s₁, hlt₁, rfl⟩ := readHex_append hunit
  split_ifs at h with hchar hhigh
  · obtain ⟨-, rfl⟩ := Prod.mk.inj (Option.some.inj h)
    exact ⟨s₁, hlt₁, rfl⟩
  · -- The low surrogate.
    simp only [Option.bind_eq_some_iff, Prod.exists] at h
    obtain ⟨after₂, hslash, after₃, hu, low, after₄, hlow, h⟩ := h
    obtain ⟨s₂, hlt₂, rfl⟩ := expect_append (by decide) hslash
    obtain ⟨s₃, hlt₃, rfl⟩ := expect_append (by decide) hu
    obtain ⟨s₄, hlt₄, rfl⟩ := readHex_append hlow
    split_ifs at h
    obtain ⟨-, rfl⟩ := Prod.mk.inj (Option.some.inj h)
    exact ⟨s₄, by omega, rfl⟩

/-- After a backslash the quotation mark is taken, or it is left. -/
theorem readEscape_append {s rest after : List Char} {c : Char}
    (h : readEscape (s ++ '"' :: rest) = some (c, after)) :
    (s = [] ∧ after = rest) ∨ ∃ s', s'.length < s.length ∧ after = s' ++ '"' :: rest := by
  cases s with
  | nil =>
      rw [List.nil_append, readEscape, if_pos (Or.inl rfl)] at h
      exact Or.inl ⟨rfl, (Prod.mk.inj (Option.some.inj h)).2.symm⟩
  | cons d s =>
      refine Or.inr ?_
      rw [List.cons_append, readEscape] at h
      split_ifs at h
      all_goals first
        | exact ⟨s, Nat.lt_succ_self _, (Prod.mk.inj (Option.some.inj h)).2.symm⟩
        | obtain ⟨s', hlt, rfl⟩ := readUnicode_append h
          exact ⟨s', Nat.lt_succ_of_lt hlt, rfl⟩

/-- A string of plain characters is read as it is, up to its quotation mark. -/
theorem eq_of_readChars {s rest text after : List Char} (hs : ∀ c ∈ s, IsPlain c) {fuel : ℕ}
    (h : readChars fuel (s ++ '"' :: rest) = some (text, after)) : text = s ∧ after = rest := by
  induction s generalizing fuel text with
  | nil =>
      cases fuel with
      | zero => cases h
      | succ fuel =>
          obtain ⟨rfl, rfl⟩ := Prod.mk.inj (Option.some.inj h)
          exact ⟨rfl, rfl⟩
  | cons c s ih =>
      obtain ⟨⟨hquote, hslash, hcontrol⟩, hs⟩ := List.forall_mem_cons.mp hs
      cases fuel with
      | zero => cases h
      | succ fuel =>
          rw [List.cons_append, readChars, if_neg hquote, if_neg hslash, if_neg hcontrol,
            Option.map_eq_some_iff] at h
          obtain ⟨⟨tail, after'⟩, htail, heq⟩ := h
          obtain ⟨rfl, rfl⟩ := Prod.mk.inj heq
          obtain ⟨rfl, rfl⟩ := ih hs htail
          exact ⟨rfl, rfl⟩

/-- What is read of a string in which nothing is escaped: the string itself, when its
characters are plain; or less, since a quotation mark ends it early or a backslash is taken
away; or more, when a backslash at its end takes the quotation mark, and the string goes on
to the next one. -/
theorem readChars_raw {s middle rest text after : List Char} (hmiddle : ∀ c ∈ middle, IsPlain c)
    {fuel : ℕ} (h : readChars fuel (s ++ '"' :: (middle ++ '"' :: rest)) = some (text, after)) :
    (∀ c ∈ s, IsPlain c) ∨ text.length < s.length ∨ after = rest := by
  induction fuel generalizing s text with
  | zero => cases h
  | succ fuel ih =>
      cases s with
      | nil => exact Or.inl (by simp)
      | cons c s =>
          rw [List.cons_append, readChars] at h
          split_ifs at h with hquote hslash hcontrol
          · obtain ⟨rfl, -⟩ := Prod.mk.inj (Option.some.inj h)
            exact Or.inr (Or.inl (Nat.zero_lt_succ _))
          · split at h
            · cases h
            · rename_i e cs hescape
              obtain ⟨⟨tail, after'⟩, htail, heq⟩ := Option.map_eq_some_iff.mp h
              obtain ⟨rfl, rfl⟩ := Prod.mk.inj heq
              rcases readEscape_append hescape with ⟨-, rfl⟩ | ⟨s', hlt, rfl⟩
              · exact Or.inr (Or.inr (eq_of_readChars hmiddle htail).2)
              · -- Two characters or more are read as one.
                refine Or.inr ?_
                rcases ih htail with hplain | hless | hafter
                · have hlength := congrArg List.length (eq_of_readChars hplain htail).1
                  refine Or.inl ?_
                  simp only [List.length_cons]
                  omega
                · refine Or.inl ?_
                  simp only [List.length_cons]
                  omega
                · exact Or.inr hafter
          · obtain ⟨⟨tail, after'⟩, htail, heq⟩ := Option.map_eq_some_iff.mp h
            obtain ⟨rfl, rfl⟩ := Prod.mk.inj heq
            rcases ih htail with hplain | hlt | hafter
            · exact Or.inl (List.forall_mem_cons.mpr ⟨⟨hquote, hslash, hcontrol⟩, hplain⟩)
            · exact Or.inr (Or.inl (Nat.succ_lt_succ hlt))
            · exact Or.inr (Or.inr hafter)

end Json
