import Weftik.Lib.Json.Spelling
import Weftik.Modbus.Mapping

/-!
# The Debug Text of a Value

The derived `Debug` text of a value, which goes into messages and into recorded scenes. The
texts of floats and of strings are the standard library's.

## Main definitions

* `DebugText`: the texts of floats and strings.
* `HalValue.debug`: the text of a value.
* `parseInt`: `str::parse` of an integer, before it is cut to a type.
* `exactText`: the texts of the exact platform.
-/

namespace Weftik

variable {P : Platform}

/-! ### The standard library -/

/-- The `Debug` text of floats and strings, and the floats that are parsed. The text of a
float is read as the same float, but there is one text for all that are not numbers, which is
read as one of them. -/
structure DebugText (P : Platform) where
  debugF32 : P.F32 → List Char
  debugF64 : P.F64 → List Char
  debugStr : String → List Char
  parseF32 : List Char → Option P.F32
  parseF64 : List Char → Option P.F64
  nan32 : P.F32
  nan64 : P.F64
  reads32 : ∀ x, parseF32 (debugF32 x) = some (if P.f32.eq x x then x else nan32)
  reads64 : ∀ x, parseF64 (debugF64 x) = some (if P.f64.eq x x then x else nan64)

/-! ### The text of a value -/

/-- The text of a variant with one field. -/
def variant (name : String) (field : List Char) : List Char :=
  name.toList ++ '(' :: (field ++ [')'])

/-- The text of a list of bytes. -/
def debugBytes (bytes : List UInt8) : List Char :=
  '[' :: ((", ".toList.intercalate (bytes.map fun b => Nat.toDigits 10 b.toNat)) ++ [']'])

/-- The text of the variant with named fields. -/
def debugArray (elementType : HalPinType) (data : List UInt8) : List Char :=
  "Array \x7b element_type: ".toList ++ (Modbus.debugName elementType).toList ++
    ", data: ".toList ++ debugBytes data ++ " \x7d".toList

/-- The derived `Debug` text of a value. -/
def HalValue.debug (T : DebugText P) : HalValue P → List Char
  | .bool b => variant "Bool" (if b then "true".toList else "false".toList)
  | .s8 n => variant "S8" (Json.intText n.toInt)
  | .u8 n => variant "U8" (Nat.toDigits 10 n.toNat)
  | .s16 n => variant "S16" (Json.intText n.toInt)
  | .u16 n => variant "U16" (Nat.toDigits 10 n.toNat)
  | .s32 n => variant "S32" (Json.intText n.toInt)
  | .u32 n => variant "U32" (Nat.toDigits 10 n.toNat)
  | .s64 n => variant "S64" (Json.intText n.toInt)
  | .u64 n => variant "U64" (Nat.toDigits 10 n.toNat)
  | .f32 x => variant "F32" (T.debugF32 x)
  | .f64 x => variant "F64" (T.debugF64 x)
  | .blob bytes => variant "Blob" (debugBytes bytes)
  | .string text => variant "String" (T.debugStr text)
  | .array elementType data => debugArray elementType data

/-! ### Numbers that are read -/

/-- The number with the given digits, at least one. -/
def parseDigits (cs : List Char) : Option ℕ :=
  if cs ≠ [] ∧ cs.all Char.isDigit then some (Nat.ofDigitChars 10 cs 0) else none

/-- An integer with or without a sign. -/
def parseInt : List Char → Option ℤ
  | '-' :: cs => (parseDigits cs).map fun n : ℕ => -(n : ℤ)
  | '+' :: cs => (parseDigits cs).map fun n : ℕ => (n : ℤ)
  | cs => (parseDigits cs).map fun n : ℕ => (n : ℤ)

/-- The digits of a number are read as the number. -/
theorem parseDigits_toDigits (n : ℕ) : parseDigits (Nat.toDigits 10 n) = some n := by
  have hall : (Nat.toDigits 10 n).all Char.isDigit = true :=
    List.all_eq_true.mpr fun c hc => Json.isDigit_of_mem_toDigits hc
  rw [parseDigits, if_pos ⟨Nat.toDigits_ne_nil, hall⟩, Nat.ofDigitChars_ten_toDigits]

/-- A number without a sign. -/
theorem parseInt_toDigits (n : ℕ) : parseInt (Nat.toDigits 10 n) = some (n : ℤ) := by
  have hdigits := parseDigits_toDigits n
  rw [parseInt]
  · rw [hdigits]
    rfl
  · intro cs hcs
    exact absurd (Json.isDigit_of_mem_toDigits (hcs ▸ List.mem_cons_self)) (by decide)
  · intro cs hcs
    exact absurd (Json.isDigit_of_mem_toDigits (hcs ▸ List.mem_cons_self)) (by decide)

/-- The text of an integer is read as the integer. -/
theorem parseInt_intText (n : ℤ) : parseInt (Json.intText n) = some n := by
  by_cases hn : n < 0
  · rw [Json.intText, decide_eq_true hn, Json.signText, if_pos rfl, List.singleton_append,
      parseInt, parseDigits_toDigits, Option.map_some]
    congr 1
    omega
  · rw [Json.intText, decide_eq_false hn]
    change parseInt ([] ++ Nat.toDigits 10 n.natAbs) = some n
    rw [List.nil_append, parseInt_toDigits]
    congr 1
    omega

/-! ### The exact platform -/

/-- A fraction as text. -/
def fractionText (q : ℚ) : List Char :=
  Json.intText q.num ++ '/' :: Nat.toDigits 10 q.den

/-- The fraction of a text. -/
def parseFraction (cs : List Char) : Option ℚ :=
  match parseInt (cs.takeWhile (· ≠ '/')), parseDigits ((cs.dropWhile (· ≠ '/')).drop 1) with
  | some n, some d => some (n / d)
  | _, _ => none

/-- A fraction is read back from its text. -/
theorem parseFraction_fractionText (q : ℚ) : parseFraction (fractionText q) = some q := by
  have hslash : ∀ c ∈ Json.intText q.num, decide (c ≠ '/') = true := by
    intro c hc
    rw [Json.intText, Json.signText] at hc
    rcases List.mem_append.mp hc with hc | hc
    · split at hc
      · obtain rfl := List.mem_singleton.mp hc
        decide
      · cases hc
    · refine decide_eq_true ?_
      rintro rfl
      exact absurd (Json.isDigit_of_mem_toDigits hc) (by decide)
  rw [parseFraction, fractionText, List.takeWhile_append_of_pos hslash,
    List.dropWhile_append_of_pos hslash, List.takeWhile_cons_of_neg (by decide),
    List.dropWhile_cons_of_neg (by decide), List.append_nil, parseInt_intText]
  change (match some q.num, parseDigits (Nat.toDigits 10 q.den) with
    | some n, some d => some ((n : ℚ) / d)
    | _, _ => none) = some q
  rw [parseDigits_toDigits]
  exact congrArg some (Rat.num_div_den q)

/-- The texts of the exact platform. -/
def exactText : DebugText .exact where
  debugF32 := fractionText
  debugF64 := fractionText
  debugStr text := text.toList
  parseF32 := parseFraction
  parseF64 := parseFraction
  nan32 := (0 : ℚ)
  nan64 := (0 : ℚ)
  reads32 q :=
    (parseFraction_fractionText q).trans
      (congrArg some (if_pos (decide_eq_true (Eq.refl (q : ℚ)))).symm)
  reads64 q :=
    (parseFraction_fractionText q).trans
      (congrArg some (if_pos (decide_eq_true (Eq.refl (q : ℚ)))).symm)

end Weftik
