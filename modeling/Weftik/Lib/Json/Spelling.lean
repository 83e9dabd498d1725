import Weftik.Lib.Json.Strings

/-!
# Texts that Spell a Value

A text spells a value when the value is read from it wherever a value may stand. Integers,
numbers in scientific notation, booleans, escaped strings and objects of such texts do.

## Main definitions

* `Json.Spells`: a text that is read as a value wherever a value may stand.
* `Json.Unreadable`: a text with which no value begins.

## Main results

* `Json.spells_int`, `Json.spells_scientific`, `Json.spells_string`, `Json.spells_object`:
  what spells a value.
* `Json.unreadable_string`: the text of a string that has a control character.
* `Json.parse_of_spells`: a whole text.
-/

namespace Json

/-! ### Reading numbers -/

/-- What may follow a number: nothing that the number would go on with. -/
def EndsNumber (rest : List Char) : Prop :=
  ∀ c ∈ rest.head?, c.isDigit = false ∧ c ≠ '.' ∧ c ≠ 'e' ∧ c ≠ 'E'

theorem endsNumber_cons {c : Char}
    (hc : c.isDigit = false ∧ c ≠ '.' ∧ c ≠ 'e' ∧ c ≠ 'E') (cs : List Char) :
    EndsNumber (c :: cs) := by
  rintro d hd
  obtain rfl := Option.some.inj hd
  exact hc

/-- The sign of a number as text. -/
def signText (negative : Bool) : List Char := if negative then ['-'] else []

/-- The digits of an integer, after its sign. -/
def intText (n : ℤ) : List Char := signText (decide (n < 0)) ++ Nat.toDigits 10 n.natAbs

/-- A number in scientific notation, with one digit before the point. -/
def scientificText (negative : Bool) (lead : Char) (fraction : List Char) (exponent : ℤ) :
    List Char :=
  signText negative ++
    lead :: ((if fraction = [] then [] else '.' :: fraction) ++ 'e' :: intText exponent)

theorem toList_toString_int (n : ℤ) : (toString n).toList = intText n := by
  rw [Int.toString_eq_repr, Int.repr_eq_if, intText]
  by_cases hn : n < 0
  · have habs : (-n).toNat = n.natAbs := by omega
    rw [if_neg (by omega), decide_eq_true hn, String.toList_append, Nat.toList_repr, habs]
    rfl
  · have habs : n.toNat = n.natAbs := by omega
    rw [if_pos (by omega), decide_eq_false hn, Nat.toList_repr, habs]
    rfl

theorem toList_toString_nat (n : ℕ) : (toString n).toList = intText n := by
  rw [intText, decide_eq_false (by omega)]
  exact Nat.toList_repr

/-- The digits of a text that begins with some and goes on with something else. -/
theorem readDigits_append {digits rest : List Char} (hne : digits ≠ [])
    (hdigits : ∀ c ∈ digits, c.isDigit = true) (hrest : ∀ c ∈ rest.head?, c.isDigit = false) :
    readDigits (digits ++ rest) = some (digits, rest) := by
  have htake : (digits ++ rest).takeWhile Char.isDigit = digits := by
    rw [List.takeWhile_append_of_pos hdigits]
    cases rest with
    | nil => simp
    | cons c rest => simp [hrest c rfl]
  have hdrop : (digits ++ rest).dropWhile Char.isDigit = rest := by
    rw [List.dropWhile_append_of_pos hdigits]
    cases rest with
    | nil => rfl
    | cons c rest => simp [hrest c rfl]
  rw [readDigits, htake, hdrop, if_neg hne]

/-- The digits of a positive number do not begin with a zero. -/
theorem head_toDigits {n : ℕ} (hn : 0 < n) : (Nat.toDigits 10 n).head? ≠ some '0' := by
  induction n using Nat.base_induction 10 (by decide) with
  | single m hm =>
      rw [Nat.toDigits_of_lt_base hm, List.head?_cons]
      simp only [ne_eq, Option.some.injEq, Nat.digitChar_eq_zero]
      omega
  | digit m k hk hm ih =>
      rw [← Nat.toDigits_append_toDigits (by decide) hm hk,
        List.head?_append_of_ne_nil _ Nat.toDigits_ne_nil]
      exact ih hm

/-- An integer part that begins with a zero only when it is the zero. -/
theorem readInteger_append {digits rest : List Char} (hne : digits ≠ [])
    (hdigits : ∀ c ∈ digits, c.isDigit = true)
    (hzero : digits.head? = some '0' → digits = ['0'])
    (hrest : ∀ c ∈ rest.head?, c.isDigit = false) :
    readInteger (digits ++ rest) = some (digits, rest) := by
  rw [readInteger.eq_def]
  split
  · rename_i cs heq
    have hhead : digits.head? = some '0' := by
      rw [← List.head?_append_of_ne_nil digits hne, heq]
      rfl
    rw [hzero hhead] at heq ⊢
    rw [← (List.cons.inj heq).2]
    rfl
  · exact readDigits_append hne hdigits hrest

theorem isDigit_of_mem_toDigits {n : ℕ} {c : Char} (hc : c ∈ Nat.toDigits 10 n) :
    c.isDigit = true :=
  Nat.isDigit_of_mem_toDigits (by decide) (by decide) hc

theorem toDigits_of_head {n : ℕ} (h : (Nat.toDigits 10 n).head? = some '0') :
    Nat.toDigits 10 n = ['0'] := by
  rcases Nat.eq_zero_or_pos n with rfl | hn
  · exact Nat.toDigits_zero 10
  · exact absurd h (head_toDigits hn)

/-- A sign, and then digits. -/
theorem readMinus_append (negative : Bool) {digits : List Char} (hne : digits ≠ [])
    (hdigits : ∀ c ∈ digits, c.isDigit = true) (rest : List Char) :
    readMinus (signText negative ++ (digits ++ rest)) = (negative, digits ++ rest) := by
  cases negative with
  | true => rfl
  | false =>
      change readMinus (digits ++ rest) = _
      rw [readMinus.eq_def]
      split
      · rename_i cs heq
        have hminus : '-' ∈ digits.head? := by
          rw [← List.head?_append_of_ne_nil digits hne, heq]
          rfl
        exact absurd (hdigits _ (List.mem_of_mem_head? hminus)) (by decide)
      · rfl

/-- A text without a plus sign may have a minus sign. -/
theorem readSign_append (negative : Bool) {digits : List Char} (hne : digits ≠ [])
    (hdigits : ∀ c ∈ digits, c.isDigit = true) (rest : List Char) :
    readSign (signText negative ++ (digits ++ rest)) = (negative, digits ++ rest) := by
  rw [← readMinus_append negative hne hdigits, readSign.eq_def]
  split
  · rename_i cs heq
    cases negative with
    | true => exact absurd (List.cons.inj heq).1 (by decide)
    | false =>
        have hplus : '+' ∈ digits.head? := by
          rw [← List.head?_append_of_ne_nil digits hne]
          exact congrArg List.head? heq
        exact absurd (hdigits _ (List.mem_of_mem_head? hplus)) (by decide)
  · rfl

/-- The exponent of a number. -/
theorem readExponent_intText (exponent : ℤ) {rest : List Char}
    (hrest : ∀ c ∈ rest.head?, c.isDigit = false) :
    readExponent ('e' :: (intText exponent ++ rest)) = some (exponent, rest) := by
  have hdigits : ∀ c ∈ Nat.toDigits 10 exponent.natAbs, c.isDigit = true :=
    fun c => isDigit_of_mem_toDigits
  have hsigned : signed (decide (exponent < 0)) exponent.natAbs = exponent := by
    rw [signed]
    split_ifs with h <;> simp only [decide_eq_true_eq] at h <;> omega
  rw [readExponent, if_pos (Or.inl rfl), intText, List.append_assoc,
    readSign_append _ Nat.toDigits_ne_nil hdigits,
    readDigits_append Nat.toDigits_ne_nil hdigits hrest, Option.map_some, ofDigits,
    Nat.ofDigitChars_ten_toDigits, hsigned]

/-- No exponent. -/
theorem readExponent_of_ends {rest : List Char} (h : EndsNumber rest) :
    readExponent rest = some (0, rest) := by
  cases rest with
  | nil => rfl
  | cons c rest =>
      obtain ⟨-, -, hlower, hupper⟩ := h c rfl
      exact if_neg (not_or.mpr ⟨hlower, hupper⟩)

/-- No point. -/
theorem readFraction_of_ne {rest : List Char} (h : '.' ∉ rest.head?) :
    readFraction rest = some ([], rest) := by
  rw [readFraction.eq_def]
  split
  · exact absurd rfl h
  · rfl

/-- A number is a sign, an integer part, and what there is of a fraction and an exponent. -/
theorem readNumber_append (negative : Bool) {integer fraction tail tail' rest : List Char}
    {exponent : ℤ} (hne : integer ≠ []) (hdigits : ∀ c ∈ integer, c.isDigit = true)
    (hzero : integer.head? = some '0' → integer = ['0'])
    (htail : ∀ c ∈ tail.head?, c.isDigit = false)
    (hfraction : readFraction tail = some (fraction, tail'))
    (hexponent : readExponent tail' = some (exponent, rest)) :
    readNumber (signText negative ++ (integer ++ tail)) =
      some (⟨negative, ofDigits (integer ++ fraction), exponent - fraction.length⟩, rest) := by
  simp only [readNumber, readMinus_append negative hne hdigits,
    readInteger_append hne hdigits hzero htail, hfraction, hexponent, Option.bind_eq_bind,
    Option.bind_some]

/-! ### Spelling values -/

/-- A text that is read as a value wherever a value may stand. -/
def Spells (text : List Char) (v : Json) : Prop :=
  ∀ (fuel : ℕ) (rest : List Char), text.length < fuel → EndsNumber rest →
    readValue fuel (text ++ rest) = some (v, rest)

/-- A text with which no value begins. -/
def Unreadable (text : List Char) : Prop :=
  ∀ (fuel : ℕ) (rest : List Char), readValue fuel (text ++ rest) = none

theorem skipWhite_cons {c : Char} (h : isWhite c = false) (cs : List Char) :
    skipWhite (c :: cs) = c :: cs :=
  List.dropWhile_cons_of_neg (by rw [h]; decide)

/-- A value that begins like a number is a number. -/
theorem readValue_number {c : Char} (hc : c = '-' ∨ c.isDigit = true) (fuel : ℕ)
    (cs : List Char) :
    readValue (fuel + 1) (c :: cs) =
      (readNumber (c :: cs)).map fun p => (.number p.1, p.2) := by
  have hother : ∀ d : Char, d ≠ '-' → d.isDigit = false → c ≠ d := by
    rintro d hminus hdigit rfl
    rcases hc with rfl | hc
    · exact hminus rfl
    · exact absurd hc (by rw [hdigit]; decide)
  have hwhite : isWhite c = false := by
    simp only [isWhite, beq_eq_false_iff_ne, Bool.or_eq_false_iff]
    exact ⟨⟨⟨hother _ (by decide) (by decide), hother _ (by decide) (by decide)⟩,
      hother _ (by decide) (by decide)⟩, hother _ (by decide) (by decide)⟩
  simp only [readValue, skipWhite_cons hwhite, if_neg (hother '\x7b' (by decide) (by decide)),
    if_neg (hother '[' (by decide) (by decide)), if_neg (hother '"' (by decide) (by decide)),
    if_neg (hother 't' (by decide) (by decide)), if_neg (hother 'f' (by decide) (by decide)),
    if_neg (hother 'n' (by decide) (by decide))]

/-- The text of a number begins with a minus or a digit. -/
theorem signText_append_cons (negative : Bool) {digits : List Char} (hne : digits ≠ [])
    (hdigits : ∀ c ∈ digits, c.isDigit = true) (rest : List Char) :
    ∃ c cs, signText negative ++ (digits ++ rest) = c :: cs ∧ (c = '-' ∨ c.isDigit = true) := by
  cases negative with
  | true => exact ⟨'-', _, rfl, Or.inl rfl⟩
  | false =>
      obtain ⟨c, cs, rfl⟩ := List.exists_cons_of_ne_nil hne
      exact ⟨c, cs ++ rest, rfl, Or.inr (hdigits c (List.mem_cons_self ..))⟩

/-- A number is spelled by its sign, its integer part and the rest. -/
theorem spells_number (negative : Bool) (integer fraction tail : List Char) (exponent : ℤ)
    (hne : integer ≠ []) (hdigits : ∀ c ∈ integer, c.isDigit = true)
    (hzero : integer.head? = some '0' → integer = ['0'])
    (htail : ∀ rest, EndsNumber rest → (∀ c ∈ (tail ++ rest).head?, c.isDigit = false) ∧
      ∃ tail', readFraction (tail ++ rest) = some (fraction, tail') ∧
        readExponent tail' = some (exponent, rest)) :
    Spells (signText negative ++ (integer ++ tail))
      (.number ⟨negative, ofDigits (integer ++ fraction), exponent - fraction.length⟩) := by
  intro fuel rest hfuel hrest
  obtain ⟨hhead, tail', hfraction, hexponent⟩ := htail rest hrest
  have hread := readNumber_append negative hne hdigits hzero hhead hfraction hexponent
  obtain ⟨c, cs, heq, hc⟩ := signText_append_cons negative hne hdigits (tail ++ rest)
  obtain ⟨fuel, rfl⟩ : ∃ n, fuel = n + 1 := Nat.exists_eq_succ_of_ne_zero (by omega)
  rw [List.append_assoc, List.append_assoc, heq, readValue_number hc, ← heq, hread]
  rfl

/-- The digits of an integer spell it. -/
theorem spells_int (n : ℤ) : Spells (intText n) (.number (.ofInt n)) := by
  have h := spells_number (decide (n < 0)) (Nat.toDigits 10 n.natAbs) [] [] 0
    Nat.toDigits_ne_nil (fun c => isDigit_of_mem_toDigits) toDigits_of_head
    (fun rest hrest => ⟨fun c hc => (hrest c hc).1, rest,
      readFraction_of_ne fun hdot => (hrest '.' hdot).2.1 rfl, readExponent_of_ends hrest⟩)
  rw [List.append_nil, ofDigits, Nat.ofDigitChars_ten_toDigits] at h
  exact h

/-- A number in scientific notation. -/
theorem spells_scientific (negative : Bool) {lead : Char} (hlead : lead.isDigit = true)
    {fraction : List Char} (hfraction : ∀ c ∈ fraction, c.isDigit = true) (exponent : ℤ) :
    Spells (scientificText negative lead fraction exponent)
      (.number ⟨negative, ofDigits (lead :: fraction), exponent - fraction.length⟩) := by
  refine spells_number negative [lead] fraction _ exponent (List.cons_ne_nil _ _)
    (fun c hc => (List.mem_singleton.mp hc).symm ▸ hlead)
    (fun h => congrArg (fun c => [c]) (Option.some.inj h)) fun rest hrest => ?_
  have hexponent : readExponent ('e' :: (intText exponent ++ rest)) = some (exponent, rest) :=
    readExponent_intText exponent fun c hc => (hrest c hc).1
  by_cases hnil : fraction = []
  · subst hnil
    refine ⟨?_, _, ?_, hexponent⟩
    · simp
    · rfl
  · rw [if_neg hnil]
    refine ⟨?_, _, ?_, hexponent⟩
    · simp
    · change readDigits (fraction ++ 'e' :: intText exponent ++ rest) = _
      rw [List.append_assoc]
      exact readDigits_append hnil hfraction (by simp)

theorem spells_true : Spells "true".toList (.bool true) := by
  intro fuel rest hfuel _
  obtain ⟨fuel, rfl⟩ : ∃ n, fuel = n + 1 := Nat.exists_eq_succ_of_ne_zero (by omega)
  rfl

theorem spells_false : Spells "false".toList (.bool false) := by
  intro fuel rest hfuel _
  obtain ⟨fuel, rfl⟩ : ∃ n, fuel = n + 1 := Nat.exists_eq_succ_of_ne_zero (by omega)
  rfl

/-- The text of a string, from one quotation mark to the other. -/
def stringText (s : List Char) : List Char := '"' :: (escape s ++ ['"'])

/-- A value that begins with a quotation mark is a string. -/
theorem readValue_string (fuel : ℕ) (cs : List Char) :
    readValue (fuel + 1) ('"' :: cs) =
      (readChars (cs.length + 1) cs).map fun p => (.string p.1, p.2) := by
  rw [readValue, skipWhite_cons (by decide)]
  rfl

theorem stringText_append (s rest : List Char) :
    stringText s ++ rest = '"' :: (escape s ++ '"' :: rest) := by
  simp [stringText]

/-- A string without control characters is read from its text. -/
theorem readValue_stringText {s : List Char} (hs : ∀ c ∈ s, ¬ IsControl c) (fuel : ℕ)
    (rest : List Char) :
    readValue (fuel + 1) (stringText s ++ rest) = some (.string s, rest) := by
  have hlt : (escape s).length < (escape s ++ '"' :: rest).length + 1 := by
    rw [List.length_append]
    omega
  rw [stringText_append, readValue_string, readChars_escape hs hlt]
  rfl

theorem spells_string {s : List Char} (hs : ∀ c ∈ s, ¬ IsControl c) :
    Spells (stringText s) (.string s) := by
  intro fuel rest hfuel _
  obtain ⟨fuel, rfl⟩ : ∃ n, fuel = n + 1 := Nat.exists_eq_succ_of_ne_zero (by omega)
  exact readValue_stringText hs fuel rest

/-- Nothing begins with the text of a string that has a control character. -/
theorem unreadable_string {s : List Char} (hs : ∃ c ∈ s, IsControl c) :
    Unreadable (stringText s) := by
  intro fuel rest
  cases fuel with
  | zero => rfl
  | succ fuel =>
      rw [stringText_append, readValue_string, readChars_escape_control hs]
      rfl

/-! ### Spelling objects -/

/-- The text of the members of an object, each a key and the text of its value. -/
def membersText : List (List Char × List Char) → List Char
  | [] => []
  | [(key, text)] => stringText key ++ ':' :: text
  | (key, text) :: members => stringText key ++ ':' :: (text ++ ',' :: membersText members)

/-- The text of an object. -/
def objectText (members : List (List Char × List Char)) : List Char :=
  '\x7b' :: (membersText members ++ ['\x7d'])

/-- A member is its key, its value, and then another member or the end. -/
theorem readMembers_key {key : List Char} (hkey : ∀ c ∈ key, ¬ IsControl c)
    (value : Reader Json) (fuel : ℕ) (cs : List Char) :
    readMembers value (fuel + 1) (stringText key ++ ':' :: cs) =
      (value cs).bind fun p => match skipWhite p.2 with
        | ',' :: cs => (readMembers value fuel cs).map fun q => ((key, p.1) :: q.1, q.2)
        | '\x7d' :: cs => some ([(key, p.1)], cs)
        | _ => none := by
  rw [stringText_append, readMembers, skipWhite_cons (by decide), readString_escape hkey]
  rfl

/-- An object that has a key is read by its members. -/
theorem readValue_object (key cs : List Char) (fuel : ℕ) :
    readValue (fuel + 1) ('\x7b' :: (stringText key ++ cs)) =
      (readMembers (readValue fuel) fuel (stringText key ++ cs)).map
        fun p => (.object p.1, p.2) := by
  rw [stringText, List.cons_append, readValue, skipWhite_cons (by decide)]
  rfl

/-- Members are read from their text. -/
theorem readMembers_membersText {members : List (List Char × List Char × Json)}
    (hne : members ≠ [])
    (hkeys : ∀ m ∈ members, ∀ c ∈ m.1, ¬ IsControl c)
    (hspells : ∀ m ∈ members, Spells m.2.1 m.2.2) (depth fuel : ℕ)
    (hdepth : (membersText (members.map fun m => (m.1, m.2.1))).length < depth)
    (hfuel : (membersText (members.map fun m => (m.1, m.2.1))).length < fuel)
    (rest : List Char) :
    readMembers (readValue depth) fuel
        (membersText (members.map fun m => (m.1, m.2.1)) ++ '\x7d' :: rest) =
      some (members.map fun m => (m.1, m.2.2), rest) := by
  induction members generalizing fuel with
  | nil => exact absurd rfl hne
  | cons m members ih =>
      obtain ⟨key, text, v⟩ := m
      obtain ⟨hkey, hkeys⟩ := List.forall_mem_cons.mp hkeys
      obtain ⟨hv, hspells⟩ := List.forall_mem_cons.mp hspells
      replace hv : Spells text v := hv
      obtain ⟨fuel, rfl⟩ : ∃ n, fuel = n + 1 := Nat.exists_eq_succ_of_ne_zero (by omega)
      cases members with
      | nil =>
          simp only [List.map_cons, List.map_nil, membersText, List.length_append,
            List.length_cons] at hdepth ⊢
          have hread := hv depth ('\x7d' :: rest) (by omega) (endsNumber_cons (by decide) _)
          rw [List.append_assoc, List.cons_append, readMembers_key hkey, hread]
          rfl
      | cons next members =>
          simp only [List.map_cons, membersText, List.length_append, List.length_cons]
            at hdepth hfuel ih ⊢
          have hread := hv depth (',' :: (membersText ((next :: members).map fun m => (m.1, m.2.1))
            ++ '\x7d' :: rest)) (by omega) (endsNumber_cons (by decide) _)
          have hmembers := ih (List.cons_ne_nil _ _) hkeys hspells fuel (by omega) (by omega)
          rw [List.append_assoc, List.cons_append, List.append_assoc, List.cons_append,
            readMembers_key hkey]
          rw [List.map_cons] at hread
          rw [hread]
          exact congrArg (Option.map fun q => ((key, v) :: q.1, q.2)) hmembers

/-- An object is spelled by its members. -/
theorem spells_object {members : List (List Char × List Char × Json)} (hne : members ≠ [])
    (hkeys : ∀ m ∈ members, ∀ c ∈ m.1, ¬ IsControl c)
    (hspells : ∀ m ∈ members, Spells m.2.1 m.2.2) :
    Spells (objectText (members.map fun m => (m.1, m.2.1)))
      (.object (members.map fun m => (m.1, m.2.2))) := by
  intro fuel rest hfuel _
  obtain ⟨fuel, rfl⟩ : ∃ n, fuel = n + 1 := Nat.exists_eq_succ_of_ne_zero (by omega)
  rw [objectText, List.length_cons, List.length_append] at hfuel
  have hread := readMembers_membersText hne hkeys hspells fuel fuel (by omega) (by omega)
    rest
  obtain ⟨key, cs, heq⟩ : ∃ key cs,
      membersText (members.map fun m => (m.1, m.2.1)) ++ '\x7d' :: rest =
        stringText key ++ cs := by
    match members with
    | [(key, text, v)] => exact ⟨key, _, List.append_assoc ..⟩
    | (key, text, v) :: next :: members => exact ⟨key, _, List.append_assoc ..⟩
  rw [objectText, List.cons_append, List.append_assoc, List.singleton_append, heq,
    readValue_object, ← heq]
  exact congrArg (Option.map fun p => (Json.object p.1, p.2)) hread

/-- An object of two members. -/
theorem spells_pair {key₁ key₂ text₁ text₂ : List Char} {v₁ v₂ : Json}
    (hkey₁ : ∀ c ∈ key₁, ¬ IsControl c) (hkey₂ : ∀ c ∈ key₂, ¬ IsControl c)
    (h₁ : Spells text₁ v₁) (h₂ : Spells text₂ v₂) :
    Spells (objectText [(key₁, text₁), (key₂, text₂)])
      (.object [(key₁, v₁), (key₂, v₂)]) := by
  have hkeys : ∀ m ∈ [(key₁, text₁, v₁), (key₂, text₂, v₂)], ∀ c ∈ m.1, ¬ IsControl c := by
    simp only [List.forall_mem_cons]
    exact ⟨hkey₁, hkey₂, by simp⟩
  have hspells : ∀ m ∈ [(key₁, text₁, v₁), (key₂, text₂, v₂)], Spells m.2.1 m.2.2 := by
    simp only [List.forall_mem_cons]
    exact ⟨h₁, h₂, by simp⟩
  exact spells_object (List.cons_ne_nil _ _) hkeys hspells

/-! ### Whole texts -/

/-- A text that spells a value is that value. -/
theorem parse_of_spells {text : List Char} {v : Json} (h : Spells text v) :
    parse text = some v := by
  have hread := h (text.length + 1) [] (Nat.lt_succ_self _) fun c hc => nomatch hc
  rw [List.append_nil] at hread
  rw [parse, hread]
  rfl

end Json
