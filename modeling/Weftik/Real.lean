import Weftik.Platform

/-!
# Real Arithmetic

The platform on which the generators of motion code compute without rounding: a float is a
real number, and the functions are the functions of analysis. The casts to and from `u32`
are those of the language, saturating and truncating.

## Main definitions

* `Platform.real`: the platform, for either overflow profile.
* `FloatMath.real`: its functions.

## Main results

* `FloatOps.real_lt_iff` and its siblings: the comparisons.
-/

open scoped Classical

namespace Weftik

/-- Real numbers as a floating-point type: every operation is exact. -/
noncomputable def FloatOps.real : FloatOps ℝ where
  lit m e := (m : ℝ) / 10 ^ e
  arith
    | .add, a, b => a + b
    | .sub, a, b => a - b
    | .mul, a, b => a * b
    | .div, a, b => a / b
    | .rem, a, b => a - b * (if 0 ≤ a / b then ⌊a / b⌋ else ⌈a / b⌉ : ℤ)
  neg a := -a
  eq a b := decide (a = b)
  cmp a b := some (if a < b then .lt else if a = b then .eq else .gt)

/-- The platform of real arithmetic, with ASCII text. -/
noncomputable abbrev Platform.real (overflowChecks : Bool) : Platform where
  overflowChecks := overflowChecks
  F32 := ℝ
  F64 := ℝ
  decEqF32 := inferInstance
  decEqF64 := inferInstance
  f32 := FloatOps.real
  f64 := FloatOps.real
  toBits32 x := UInt32.ofNat ⌊x⌋.natAbs
  ofBits32 n := n.toNat
  toBits64 x := UInt64.ofNat ⌊x⌋.natAbs
  ofBits64 n := n.toNat
  narrow := id
  upper := Platform.exact.upper
  white := Platform.exact.white
  upper_ascii := Platform.exact.upper_ascii
  white_ascii := Platform.exact.white_ascii

/-- The functions on real numbers. A message shows the integer part of a number. -/
noncomputable def FloatMath.real (overflowChecks : Bool) :
    FloatMath (Platform.real overflowChecks) where
  sqrt := fun x : ℝ => Real.sqrt x
  abs := fun x : ℝ => (|x| : ℝ)
  ceil := fun x : ℝ => ((⌈x⌉ : ℤ) : ℝ)
  max := fun x y : ℝ => (Max.max x y : ℝ)
  min := fun x y : ℝ => (Min.min x y : ℝ)
  asU32 := fun x : ℝ => UInt32.ofNat (Min.min ⌊x⌋₊ (2 ^ 32 - 1))
  ofU32 n := (n.toNat : ℝ)
  square := fun x : ℝ => x ^ 2
  hypot := fun x y : ℝ => Real.sqrt (x ^ 2 + y ^ 2)
  atan2 := fun y x : ℝ => Complex.arg ⟨x, y⟩
  acos := fun x : ℝ => Real.arccos x
  cos := fun x : ℝ => Real.cos x
  sin := fun x : ℝ => Real.sin x
  pi := Real.pi
  display := fun x : ℝ => toString ⌊x⌋

/-! ### The operations -/

namespace FloatOps

@[simp] theorem real_zero : FloatOps.real.zero = 0 := by
  simp [FloatOps.zero, FloatOps.real]

@[simp] theorem real_lit (m e : ℕ) : FloatOps.real.lit m e = (m : ℝ) / 10 ^ e := rfl

@[simp] theorem real_add (a b : ℝ) : FloatOps.real.add a b = a + b := rfl

@[simp] theorem real_sub (a b : ℝ) : FloatOps.real.sub a b = a - b := rfl

@[simp] theorem real_mul (a b : ℝ) : FloatOps.real.mul a b = a * b := rfl

@[simp] theorem real_div (a b : ℝ) : FloatOps.real.div a b = a / b := rfl

@[simp] theorem real_eq (a b : ℝ) : FloatOps.real.eq a b = decide (a = b) := rfl

theorem real_cmp (a b : ℝ) :
    FloatOps.real.cmp a b = some (if a < b then .lt else if a = b then .eq else .gt) :=
  rfl

@[simp] theorem real_lt (a b : ℝ) : FloatOps.real.lt a b = decide (a < b) := by
  rw [lt, real_cmp]
  rcases lt_trichotomy a b with h | rfl | h
  · simp [h]
  · simp
  · simp [h.not_gt, h.ne']

@[simp] theorem real_gt (a b : ℝ) : FloatOps.real.gt a b = decide (b < a) := by
  rw [gt, real_cmp]
  rcases lt_trichotomy a b with h | rfl | h
  · simp [h, h.le]
  · simp
  · simp [h, h.not_gt, h.ne']

@[simp] theorem real_ge (a b : ℝ) : FloatOps.real.ge a b = decide (b ≤ a) := by
  rw [ge, real_cmp]
  rcases lt_trichotomy a b with h | rfl | h
  · simp [h]
  · simp
  · simp [h.le, h.not_gt, h.ne']

end FloatOps

/-! ### The cast to `u32` -/

/-- What `x.ceil() as u32` gives: the number of whole units that cover `x`, as far as they
fit. -/
noncomputable def units (x : ℝ) : ℕ := Min.min ⌈x⌉₊ (2 ^ 32 - 1)

theorem units_pos {x : ℝ} (h : 0 < x) : 0 < units x :=
  lt_min (Nat.ceil_pos.mpr h) (by norm_num)

/-- One unit covers exactly the numbers up to one. -/
theorem units_eq_one_iff {x : ℝ} (h : 0 < x) : units x = 1 ↔ x ≤ 1 := by
  have hceil : 0 < ⌈x⌉₊ := Nat.ceil_pos.mpr h
  have hle : ⌈x⌉₊ ≤ 1 ↔ x ≤ 1 := by rw [Nat.ceil_le, Nat.cast_one]
  rw [units, ← hle]
  omega

theorem toNat_asU32_ceil (c : Bool) (x : ℝ) :
    ((FloatMath.real c).asU32 ((FloatMath.real c).ceil x)).toNat = units x := by
  change (UInt32.ofNat (Min.min ⌊((⌈x⌉ : ℤ) : ℝ)⌋₊ (2 ^ 32 - 1))).toNat = _
  rw [UInt32.toNat_ofNat_of_lt' (by rw [UInt32.size]; omega), units]
  congr 1
  rw [← Int.floor_toNat, Int.floor_intCast, Int.ceil_toNat]

end Weftik
