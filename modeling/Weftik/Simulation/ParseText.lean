import Weftik.DebugText
import Weftik.Lib.Text

/-!
# Values Parsed from Their Text

A scene is recorded as text, the derived `Debug` text of every value, and played back from
it. The parser knows five of the fourteen variants, and reads the contents between the name of
the variant and the last parenthesis with `str::parse`.

## Main definitions

* `Simulation.parseU32`, `Simulation.parseI32`: `str::parse` of two integer types.
* `Simulation.parseHalValue`: the parser.

## Main results

* `Simulation.parseHalValue_debug_iff`: the values that are read back.
-/

namespace Weftik.Simulation

variable {P : Platform}

/-! ### The parser -/

/-- `parse::<u32>`, which takes no minus sign. -/
def parseU32 (cs : List Char) : Option UInt32 :=
  if cs.head? = some '-' then none
  else (parseInt cs).bind fun n => if n < 2 ^ 32 then some (UInt32.ofNat n.toNat) else none

/-- `parse::<i32>`. -/
def parseI32 (cs : List Char) : Option Int32 :=
  (parseInt cs).bind fun n =>
    if -2 ^ 31 ≤ n ∧ n < 2 ^ 31 then some (Int32.ofInt n) else none

/-- What stands between the name of a variant with its parenthesis and a parenthesis at the
end. -/
def fieldOf (name : String) (s : List Char) : Option (List Char) :=
  ((name.toList ++ ['(']).isPrefixOf? s).bind fun rest =>
    if rest.getLast? = some ')' then some rest.dropLast else none

/-- `parse_hal_value`: the value of a text. -/
def parseHalValue (T : DebugText P) (text : List Char) : Option (HalValue P) :=
  let s := Text.trim P.white text
  match fieldOf "Bool" s with
  | some inner => some (.bool (inner == "true".toList))
  | none =>
    match fieldOf "U32" s with
    | some inner => (parseU32 inner).map .u32
    | none =>
      match fieldOf "S32" s with
      | some inner => (parseI32 inner).map .s32
      | none =>
        match fieldOf "F32" s with
        | some inner => (T.parseF32 inner).map .f32
        | none =>
          match fieldOf "F64" s with
          | some inner => (T.parseF64 inner).map .f64
          | none => none

/-! ### Numbers -/

attribute [local simp] parseHalValue HalValue.debug

/-- The text of a `u32` number. -/
theorem parseU32_toDigits (n : UInt32) : parseU32 (Nat.toDigits 10 n.toNat) = some n := by
  have hminus : ¬ (Nat.toDigits 10 n.toNat).head? = some '-' := by
    intro hhead
    exact absurd (Json.isDigit_of_mem_toDigits (List.mem_of_head? hhead)) (by decide)
  have hlt : (n.toNat : ℤ) < 2 ^ 32 := by exact_mod_cast n.toNat_lt
  rw [parseU32, if_neg hminus, parseInt_toDigits, Option.bind_some, if_pos hlt,
    Int.toNat_natCast, UInt32.ofNat_toNat]

/-- The text of an `i32` number. -/
theorem parseI32_intText (n : Int32) : parseI32 (Json.intText n.toInt) = some n := by
  have hbounds : -2 ^ 31 ≤ n.toInt ∧ n.toInt < 2 ^ 31 := ⟨n.le_toInt, n.toInt_lt⟩
  rw [parseI32, parseInt_intText, Option.bind_some, if_pos hbounds, Int32.ofInt_toInt]

/-! ### What is read back -/

/-- The field of a variant with its name. -/
theorem fieldOf_variant (name : String) (field : List Char) :
    fieldOf name (variant name field) = some field := by
  have hrest : (name.toList ++ ['(']).isPrefixOf? (variant name field) =
      some (field ++ [')']) := by
    rw [List.isPrefixOf?_eq_some_iff_append_eq, variant]
    simp
  rw [fieldOf, hrest, Option.bind_some, List.getLast?_concat, if_pos rfl,
    List.dropLast_concat]

/-- A text that begins with the name of another variant has no such field. -/
theorem fieldOf_other {name other : String} (field : List Char)
    (h : ¬ (name.toList ++ ['(']) <+: (other.toList ++ ['(']))
    (h' : ¬ (other.toList ++ ['(']) <+: (name.toList ++ ['('])) :
    fieldOf name (variant other field) = none := by
  have hnone : (name.toList ++ ['(']).isPrefixOf? (variant other field) = none := by
    refine Option.eq_none_iff_forall_ne_some.mpr fun rest hrest => ?_
    rw [List.isPrefixOf?_eq_some_iff_append_eq] at hrest
    have hother : (other.toList ++ ['(']) <+: variant other field :=
      ⟨field ++ [')'], by rw [variant, List.append_assoc, List.singleton_append]⟩
    rcases List.prefix_or_prefix_of_prefix ⟨rest, hrest⟩ hother with hle | hle
    · exact h hle
    · exact h' hle
  rw [fieldOf, hnone, Option.bind_none]

/-- The text of a variant has no white space at its ends. -/
theorem trim_variant (name : String) (field : List Char)
    (hname : name.toList.head?.any fun c =>
      decide (c.val < 128) && decide (c ∉ [' ', '\t', '\n', '\x0b', '\x0c', '\r'])) :
    Text.trim P.white (variant name field) = variant name field := by
  have hwhite : ∀ c : Char, c.val < 128 → c ∉ [' ', '\t', '\n', '\x0b', '\x0c', '\r'] →
      P.white c = false := by
    intro c hascii hc
    rw [P.white_ascii c hascii]
    exact decide_eq_false hc
  have hclose : P.white ')' = false := hwhite ')' (by decide) (by decide)
  rw [variant]
  cases hcs : name.toList with
  | nil =>
      rw [hcs] at hname
      cases hname
  | cons c cs =>
      rw [hcs, List.head?_cons, Option.any_some, Bool.and_eq_true, decide_eq_true_iff,
        decide_eq_true_iff] at hname
      have hend : c :: cs ++ '(' :: (field ++ [')']) = c :: ((cs ++ '(' :: field) ++ [')']) := by
        simp
      rw [hend, Text.trim_cons_of_not (hwhite c hname.1 hname.2), List.rdropWhile_concat_neg]
      exact fun h => Bool.false_ne_true (hclose.symm.trans h)

/-- The values that are read back from their text. -/
def Readable (T : DebugText P) : HalValue P → Prop
  | .bool _ | .u32 _ | .s32 _ => True
  | .f32 x => P.f32.eq x x = true ∨ x = T.nan32
  | .f64 x => P.f64.eq x x = true ∨ x = T.nan64
  | _ => False

/-- Only five variants are read. -/
theorem parseHalValue_variants {T : DebugText P} {text : List Char} {v : HalValue P}
    (h : parseHalValue T text = some v) :
    (∃ b, v = .bool b) ∨ (∃ n, v = .u32 n) ∨ (∃ n, v = .s32 n) ∨ (∃ x, v = .f32 x) ∨
      ∃ x, v = .f64 x := by
  rw [parseHalValue] at h
  split at h
  · exact Or.inl ⟨_, (Option.some.inj h).symm⟩
  · split at h
    · obtain ⟨n, -, rfl⟩ := Option.map_eq_some_iff.mp h
      exact Or.inr (Or.inl ⟨n, rfl⟩)
    · split at h
      · obtain ⟨n, -, rfl⟩ := Option.map_eq_some_iff.mp h
        exact Or.inr (Or.inr (Or.inl ⟨n, rfl⟩))
      · split at h
        · obtain ⟨x, -, rfl⟩ := Option.map_eq_some_iff.mp h
          exact Or.inr (Or.inr (Or.inr (Or.inl ⟨x, rfl⟩)))
        · split at h
          · obtain ⟨x, -, rfl⟩ := Option.map_eq_some_iff.mp h
            exact Or.inr (Or.inr (Or.inr (Or.inr ⟨x, rfl⟩)))
          · cases h

/-- The text of a boolean. -/
theorem parseHalValue_bool (T : DebugText P) (b : Bool) :
    parseHalValue T (HalValue.debug T (.bool b)) = some (.bool b) := by
  rw [parseHalValue, HalValue.debug, trim_variant "Bool" _ (by decide),
    fieldOf_variant]
  have htext : ((if b then "true".toList else "false".toList) == "true".toList) = b := by
    cases b <;> decide
  exact congrArg (fun c => some (HalValue.bool c)) htext

/-- The text of a `u32` number. -/
theorem parseHalValue_u32 (T : DebugText P) (n : UInt32) :
    parseHalValue T (HalValue.debug T (.u32 n)) = some (.u32 n) := by
  rw [parseHalValue, HalValue.debug, trim_variant "U32" _ (by decide),
    fieldOf_other _ (by decide) (by decide), fieldOf_variant]
  exact congrArg (Option.map _) (parseU32_toDigits n)

/-- The text of an `i32` number. -/
theorem parseHalValue_s32 (T : DebugText P) (n : Int32) :
    parseHalValue T (HalValue.debug T (.s32 n)) = some (.s32 n) := by
  rw [parseHalValue, HalValue.debug, trim_variant "S32" _ (by decide),
    fieldOf_other _ (by decide) (by decide), fieldOf_other _ (by decide) (by decide),
    fieldOf_variant]
  exact congrArg (Option.map _) (parseI32_intText n)

/-- The text of an `f32` number is read as `str::parse` reads its digits. -/
theorem parseHalValue_f32 (T : DebugText P) (x : P.F32) :
    parseHalValue T (HalValue.debug T (.f32 x)) =
      some (.f32 (if P.f32.eq x x then x else T.nan32)) := by
  rw [parseHalValue, HalValue.debug, trim_variant "F32" _ (by decide),
    fieldOf_other _ (by decide) (by decide), fieldOf_other _ (by decide) (by decide),
    fieldOf_other _ (by decide) (by decide), fieldOf_variant]
  exact congrArg (Option.map _) (T.reads32 x)

/-- The text of an `f64` number is read as `str::parse` reads its digits. -/
theorem parseHalValue_f64 (T : DebugText P) (x : P.F64) :
    parseHalValue T (HalValue.debug T (.f64 x)) =
      some (.f64 (if P.f64.eq x x then x else T.nan64)) := by
  rw [parseHalValue, HalValue.debug, trim_variant "F64" _ (by decide),
    fieldOf_other _ (by decide) (by decide), fieldOf_other _ (by decide) (by decide),
    fieldOf_other _ (by decide) (by decide), fieldOf_other _ (by decide) (by decide),
    fieldOf_variant]
  exact congrArg (Option.map _) (T.reads64 x)

/-- A value is read back from its text if and only if it is readable. -/
theorem parseHalValue_debug_iff (T : DebugText P) (v : HalValue P) :
    parseHalValue T (HalValue.debug T v) = some v ↔ Readable T v := by
  cases v with
  | bool b => exact iff_of_true (parseHalValue_bool T b) trivial
  | u32 n => exact iff_of_true (parseHalValue_u32 T n) trivial
  | s32 n => exact iff_of_true (parseHalValue_s32 T n) trivial
  | f32 x =>
      rw [parseHalValue_f32, Readable]
      by_cases hx : P.f32.eq x x = true
      · rw [if_pos hx]
        exact iff_of_true rfl (Or.inl hx)
      · rw [if_neg hx, Option.some.injEq, HalValue.f32.injEq, eq_comm]
        exact (or_iff_right hx).symm
  | f64 x =>
      rw [parseHalValue_f64, Readable]
      by_cases hx : P.f64.eq x x = true
      · rw [if_pos hx]
        exact iff_of_true rfl (Or.inl hx)
      · rw [if_neg hx, Option.some.injEq, HalValue.f64.injEq, eq_comm]
        exact (or_iff_right hx).symm
  | s8 | u8 | s16 | u16 | s64 | u64 | blob | string | array =>
      refine iff_of_false (fun h => ?_) id
      rcases parseHalValue_variants h with ⟨_, hv⟩ | ⟨_, hv⟩ | ⟨_, hv⟩ | ⟨_, hv⟩ | ⟨_, hv⟩ <;>
        cases hv

end Weftik.Simulation
