import Mathlib

/-!
# Turns About a Point in the Plane

The points of the plane are complex numbers. A point turns about a centre by an angle, counter-
clockwise if the angle is positive. Two points at the same distance of the centre are on one
circle, and the angle of a turn between them is known up to full turns. The centres of the
circles through two points lie on the bisector of their chord, and the side of the chord decides
which of the two arcs is the shorter one.

## Main definitions

* `turned`: a point after a turn.
* `ccw`, `cw`: an angle up to a full turn, in one direction.
* `bisector`: the points at the same distance of two others.

## Main results

* `turned_arg_iff`: when the turn between two directions leads from point to point.
* `turned_inj`: small turns are known from where they lead.
* `sin_turn`, `im_div_bisector`: the side of the chord, from the turn and from the centre.
* `le_pi_iff`, `neg_pi_le_iff`: which arcs are at most half a circle.
-/

open Complex

namespace Turns

variable {c z w : ℂ} {φ ψ : ℝ}

/-- A point after a turn about a centre. -/
noncomputable def turned (c z : ℂ) (φ : ℝ) : ℂ := c + (z - c) * exp (φ * I)

@[simp] theorem turned_zero (c z : ℂ) : turned c z 0 = z := by
  rw [turned, ofReal_zero, zero_mul, exp_zero, mul_one, add_sub_cancel]

theorem turned_sub (c z : ℂ) (φ : ℝ) : turned c z φ - c = (z - c) * exp (φ * I) :=
  add_sub_cancel_left _ _

/-- A turn keeps the distance. -/
theorem norm_turned_sub (c z : ℂ) (φ : ℝ) : ‖turned c z φ - c‖ = ‖z - c‖ := by
  rw [turned_sub, norm_mul, norm_exp_ofReal_mul_I, mul_one]

/-- Full turns make no difference. -/
theorem turned_periodic (c z : ℂ) : Function.Periodic (turned c z) (2 * Real.pi) := by
  intro φ
  have hexp : exp (((φ + 2 * Real.pi : ℝ) : ℂ) * I) = exp (φ * I) := by
    push_cast
    rw [add_mul, exp_add, exp_two_pi_mul_I, mul_one]
  rw [turned, turned, hexp]

/-- Turns that differ by less than a full turn lead to different points. -/
theorem turned_inj (hz : z ≠ c) (h : turned c z φ = turned c z ψ)
    (hlt : |φ - ψ| < 2 * Real.pi) : φ = ψ := by
  have hexp : exp (φ * I) = exp (ψ * I) :=
    mul_left_cancel₀ (sub_ne_zero.mpr hz) (add_left_cancel h)
  obtain ⟨n, hn⟩ := exp_eq_exp_iff_exists_int.mp hexp
  have hreal : φ = ψ + n * (2 * Real.pi) := by
    have him := congrArg Complex.im hn
    simpa using him
  have habs : |(n : ℝ)| * (2 * Real.pi) < 1 * (2 * Real.pi) := by
    rw [← abs_of_pos Real.two_pi_pos, ← abs_mul, one_mul, abs_of_pos Real.two_pi_pos]
    rwa [show φ - ψ = n * (2 * Real.pi) by rw [hreal]; ring] at hlt
  have hone : |(n : ℝ)| < 1 := lt_of_mul_lt_mul_right habs Real.two_pi_pos.le
  have hzero : n = 0 := by
    rw [← Int.cast_abs, ← Int.cast_one, Int.cast_lt] at hone
    exact Int.abs_lt_one_iff.mp hone
  rw [hreal, hzero, Int.cast_zero, zero_mul, add_zero]

/-! ### Directions -/

/-- The turn from the direction of a point to another one, in polar coordinates. -/
theorem turned_polar (c z : ℂ) (θ : ℝ) :
    turned c z (θ - arg (z - c)) = c + ‖z - c‖ * exp (θ * I) := by
  have hpolar := norm_mul_exp_arg_mul_I (z - c)
  have hexp : exp (((θ - arg (z - c) : ℝ) : ℂ) * I) * exp (arg (z - c) * I) = exp (θ * I) := by
    rw [← exp_add]
    congr 1
    push_cast
    ring
  rw [turned]
  congr 1
  nth_rewrite 1 [← hpolar]
  rw [mul_assoc, mul_comm (exp (arg (z - c) * I)), hexp]

/-- The turn between two directions leads from point to point iff they are on one circle. -/
theorem turned_arg_iff :
    turned c z (arg (w - c) - arg (z - c)) = w ↔ ‖w - c‖ = ‖z - c‖ := by
  constructor
  · intro h
    rw [← norm_turned_sub c z (arg (w - c) - arg (z - c)), h]
  · intro h
    rw [turned_polar, ← h, norm_mul_exp_arg_mul_I, add_sub_cancel]

/-- The counter-clockwise angle of two directions. -/
noncomputable def ccw (φ : ℝ) : ℝ := if φ < 0 then φ + 2 * Real.pi else φ

/-- The clockwise angle of two directions, not positive. -/
noncomputable def cw (φ : ℝ) : ℝ := if 0 < φ then φ - 2 * Real.pi else φ

theorem turned_ccw (c z : ℂ) (φ : ℝ) : turned c z (ccw φ) = turned c z φ := by
  rw [ccw]
  split
  · exact turned_periodic c z φ
  · rfl

theorem turned_cw (c z : ℂ) (φ : ℝ) : turned c z (cw φ) = turned c z φ := by
  rw [cw]
  split
  · exact (turned_periodic c z).sub_eq φ
  · rfl

theorem ccw_bounds (h : |φ| < 2 * Real.pi) : 0 ≤ ccw φ ∧ ccw φ < 2 * Real.pi := by
  obtain ⟨hlow, hhigh⟩ := abs_lt.mp h
  rw [ccw]
  split <;> constructor <;> linarith

theorem cw_bounds (h : |φ| < 2 * Real.pi) : -(2 * Real.pi) < cw φ ∧ cw φ ≤ 0 := by
  obtain ⟨hlow, hhigh⟩ := abs_lt.mp h
  rw [cw]
  split <;> constructor <;> linarith

/-- The difference of two directions is less than a full turn. -/
theorem abs_arg_sub_lt (a b : ℂ) : |arg a - arg b| < 2 * Real.pi := by
  rw [abs_lt]
  constructor <;> linarith [neg_pi_lt_arg a, arg_le_pi a, neg_pi_lt_arg b, arg_le_pi b]

/-! ### Halves of a circle -/

/-- The sine of a turn, from where it leads. -/
theorem sin_turn (hz : z ≠ c) (φ : ℝ) : Real.sin φ = ((turned c z φ - c) / (z - c)).im := by
  rw [turned_sub, mul_div_cancel_left₀ _ (sub_ne_zero.mpr hz), exp_ofReal_mul_I_im]

theorem le_pi_iff (h₀ : 0 ≤ φ) (h : φ < 2 * Real.pi) : φ ≤ Real.pi ↔ 0 ≤ Real.sin φ := by
  constructor
  · exact Real.sin_nonneg_of_nonneg_of_le_pi h₀
  · intro hsin
    by_contra hlt
    have hneg := Real.sin_neg_of_neg_of_neg_pi_lt (show φ - 2 * Real.pi < 0 by linarith)
      (by linarith [not_le.mp hlt])
    rw [Real.sin_sub_two_pi] at hneg
    exact absurd hsin hneg.not_ge

theorem neg_pi_le_iff (h₀ : φ ≤ 0) (h : -(2 * Real.pi) < φ) :
    -Real.pi ≤ φ ↔ Real.sin φ ≤ 0 := by
  have hneg := le_pi_iff (neg_nonneg.mpr h₀) (neg_lt.mp h)
  rw [Real.sin_neg, neg_nonneg] at hneg
  rw [← hneg, neg_le]

/-- The chord of a turn. -/
theorem norm_turned_sub_self (c z : ℂ) (φ : ℝ) :
    ‖turned c z φ - z‖ = ‖z - c‖ * |2 * Real.sin (φ / 2)| := by
  have hself : turned c z φ - z = (z - c) * (exp (I * φ) - 1) := by
    rw [turned, mul_comm I]
    ring
  rw [hself, norm_mul, norm_exp_I_mul_ofReal_sub_one, Real.norm_eq_abs]

/-! ### Circles through two points -/

/-- The point on the bisector of two others, to the left of the way from the first to the second
one if the number is positive. -/
noncomputable def bisector (z w : ℂ) (k : ℝ) : ℂ := (z + w) / 2 + k * (I * (w - z))

theorem bisector_re (z w : ℂ) (k : ℝ) :
    (bisector z w k).re = (z.re + w.re) / 2 + k * -(w.im - z.im) := by
  rw [bisector, add_re, re_ofReal_mul, I_mul_re, sub_im, ← ofReal_ofNat, div_ofReal_re, add_re]

theorem bisector_im (z w : ℂ) (k : ℝ) :
    (bisector z w k).im = (z.im + w.im) / 2 + k * (w.re - z.re) := by
  rw [bisector, add_im, im_ofReal_mul, I_mul_im, sub_re, ← ofReal_ofNat, div_ofReal_im, add_im]

theorem sub_bisector (z w : ℂ) (k : ℝ) :
    z - bisector z w k = -((w - z) * (1 / 2 + k * I)) ∧
      w - bisector z w k = (w - z) * (1 / 2 - k * I) := by
  constructor <;>
  · rw [bisector]
    ring

/-- A point on the bisector is at the same distance of the two others. -/
theorem norm_sub_bisector (z w : ℂ) (k : ℝ) :
    ‖z - bisector z w k‖ = ‖w - z‖ * √(1 / 4 + k ^ 2) ∧
      ‖w - bisector z w k‖ = ‖w - z‖ * √(1 / 4 + k ^ 2) := by
  have hnorm : ∀ t : ℝ, t ^ 2 = k ^ 2 → ‖(1 / 2 + t * I : ℂ)‖ = √(1 / 4 + k ^ 2) := by
    intro t ht
    rw [show (1 / 2 + t * I : ℂ) = ((1 / 2 : ℝ) : ℂ) + (t : ℝ) * I by push_cast; rfl,
      norm_add_mul_I, ht]
    norm_num
  obtain ⟨hz, hw⟩ := sub_bisector z w k
  have hminus := hnorm (-k) (neg_sq k)
  rw [ofReal_neg, neg_mul, ← sub_eq_add_neg] at hminus
  rw [hz, hw, norm_neg, norm_mul, norm_mul, hnorm k rfl, hminus]
  exact ⟨rfl, rfl⟩

/-- The side of the chord on which the centre lies. -/
theorem im_div_bisector (h : w ≠ z) (k : ℝ) :
    ((w - bisector z w k) / (z - bisector z w k)).im = k / (1 / 4 + k ^ 2) := by
  obtain ⟨hz, hw⟩ := sub_bisector z w k
  have hpos : (0 : ℝ) < 1 / 4 + k ^ 2 := by positivity
  have hne : (1 / 2 + k * I : ℂ) ≠ 0 := by
    intro hzero
    have hre := congrArg Complex.re hzero
    norm_num at hre
  have hratio : (w - bisector z w k) / (z - bisector z w k) =
      ((k ^ 2 - 1 / 4 : ℝ) + (k : ℝ) * I) / ((1 / 4 + k ^ 2 : ℝ) : ℂ) := by
    have hposC : ((1 / 4 + k ^ 2 : ℝ) : ℂ) ≠ 0 := ofReal_ne_zero.mpr hpos.ne'
    rw [hz, hw, neg_mul_eq_mul_neg, mul_div_mul_left _ _ (sub_ne_zero.mpr h),
      div_eq_div_iff (neg_ne_zero.mpr hne) hposC]
    push_cast
    linear_combination (k : ℂ) ^ 2 * I_sq
  have him : ((k : ℂ) * I).im = k := by simp
  rw [hratio, div_ofReal_im, add_im, ofReal_im, zero_add, him]

end Turns
