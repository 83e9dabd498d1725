import Weftik.Motion.Layout
import Weftik.Real

/-!
# Motion Profiles over Real Arithmetic

What the generator computes without rounding: the length of the move, its speed, and how
many cycles the acceleration and the cruise take, before these are rounded up to whole
cycles.

## Main definitions

* `pathLength`, `speed`, `accelCycles`, `cruiseLength`, `cruiseCycles`: the quantities of a
  move.

## Main results

* `accelCycles_add_cruiseCycles`: the two durations cover the length of the move.
* `hasLoop_real`: a move with an acceleration has a loop.
-/

namespace Weftik.Motion.TrapezoidalProfile

variable {c : Bool} (p : TrapezoidalProfile (Platform.real c))

/-- The length of the move. -/
noncomputable def pathLength : ℝ := √(p.dx ^ 2 + p.dy ^ 2 + p.dz ^ 2)

/-- The speed of the cruise: the feed rate, or `100`, per second. -/
noncomputable def speed : ℝ := (if 0 < p.feedrate then p.feedrate else 100) / 60

/-- The number of cycles of the acceleration, which need not be whole. -/
noncomputable def accelCycles : ℝ := p.speed / p.acceleration / p.dt

/-- What the acceleration and the deceleration leave of the move. -/
noncomputable def cruiseLength : ℝ := p.pathLength - p.speed ^ 2 / p.acceleration

/-- The number of cycles of the cruise, which need not be whole. -/
noncomputable def cruiseCycles : ℝ := p.cruiseLength / p.speed / p.dt

/-- A displacement that the generator takes for a movement of its axis. -/
def Noticed (d : ℝ) : Prop := 1 / (10 : ℕ) ^ 9 < |d|

theorem speed_pos : 0 < p.speed := by
  rw [speed]
  split
  · linarith
  · norm_num

/-- A move with a displacement has a length. -/
theorem pathLength_pos (h : p.dx ≠ 0 ∨ p.dy ≠ 0 ∨ p.dz ≠ 0) : 0 < p.pathLength := by
  refine Real.sqrt_pos.mpr ?_
  rcases h with h | h | h
  · nlinarith [pow_pos (abs_pos.mpr h) 2, sq_abs p.dx, sq_nonneg p.dy, sq_nonneg p.dz]
  · nlinarith [pow_pos (abs_pos.mpr h) 2, sq_abs p.dy, sq_nonneg p.dx, sq_nonneg p.dz]
  · nlinarith [pow_pos (abs_pos.mpr h) 2, sq_abs p.dz, sq_nonneg p.dx, sq_nonneg p.dy]

/-! ### What the generator computes -/

@[simp] theorem distance_real : p.distance (FloatMath.real c) = p.pathLength := by
  have h : p.dx * p.dx + p.dy * p.dy + p.dz * p.dz = p.dx ^ 2 + p.dy ^ 2 + p.dz ^ 2 := by ring
  exact congrArg Real.sqrt h

@[simp] theorem vTarget_real : p.vTarget = p.speed := by
  have h : p.vTarget = (if decide ((0 : ℝ) < p.feedrate) = true then p.feedrate else
      (100 : ℕ) / 10 ^ 0) / ((60 : ℕ) / 10 ^ 0) := by
    rw [vTarget, FloatOps.real_gt, FloatOps.real_zero]
    rfl
  rw [h, speed]
  simp

@[simp] theorem tAccel_real : p.tAccel = p.speed / p.acceleration := by
  rw [tAccel, vTarget_real]
  rfl

theorem toNat_cyclesAccel : (p.cyclesAccel (FloatMath.real c)).toNat = units p.accelCycles := by
  rw [cyclesAccel, tAccel_real]
  exact toNat_asU32_ceil c _

theorem distCruise_real (h : p.acceleration ≠ 0) :
    p.distCruise (FloatMath.real c) = p.cruiseLength := by
  have hdist : p.distAccel = ((5 : ℕ) : ℝ) / 10 ^ 1 * p.acceleration *
      (p.speed / p.acceleration) * (p.speed / p.acceleration) := by
    rw [distAccel, tAccel_real]
    rfl
  have hcruise : p.distCruise (FloatMath.real c) =
      p.pathLength - ((2 : ℕ) : ℝ) / 10 ^ 0 * p.distAccel := by
    rw [distCruise, distance_real]
    rfl
  rw [hcruise, hdist, cruiseLength]
  push_cast
  field_simp
  ring

theorem toNat_cyclesCruise (h : p.acceleration ≠ 0) :
    (p.cyclesCruise (FloatMath.real c)).toNat = units p.cruiseCycles := by
  rw [cyclesCruise, distCruise_real p h, vTarget_real]
  exact toNat_asU32_ceil c _

theorem moves_real (d : ℝ) : moves (FloatMath.real c) d = true ↔ Noticed d := by
  rw [moves, FloatOps.real_gt, decide_eq_true_iff, Noticed, FloatOps.real_lit, Nat.cast_one]
  rfl

theorem distance_lt_real :
    (Platform.real c).f64.lt (p.distance (FloatMath.real c)) ((Platform.real c).f64.lit 1 9) =
      decide (p.pathLength < 1 / 10 ^ 9) := by
  rw [distance_real, FloatOps.real_lt, FloatOps.real_lit, Nat.cast_one]

theorem isLong_real (h : p.acceleration ≠ 0) :
    p.isLong (FloatMath.real c) = true ↔ 0 < p.cruiseLength := by
  rw [isLong, distCruise_real p h, FloatOps.real_gt, FloatOps.real_zero, decide_eq_true_iff]

/-! ### The durations -/

variable {p}

theorem accelCycles_pos (ha : 0 < p.acceleration) (hdt : 0 < p.dt) : 0 < p.accelCycles :=
  div_pos (div_pos p.speed_pos ha) hdt

theorem cruiseCycles_pos (hlong : 0 < p.cruiseLength) (hdt : 0 < p.dt) : 0 < p.cruiseCycles :=
  div_pos (div_pos hlong p.speed_pos) hdt

/-- At the speed of the cruise, the two durations cover the length of the move. -/
theorem accelCycles_add_cruiseCycles (ha : 0 < p.acceleration) (hdt : 0 < p.dt) :
    (p.accelCycles + p.cruiseCycles) * (p.speed * p.dt) = p.pathLength := by
  have hspeed := p.speed_pos
  rw [accelCycles, cruiseCycles, cruiseLength]
  field_simp
  ring

theorem toNat_cyclesAccel_pos (ha : 0 < p.acceleration) (hdt : 0 < p.dt) :
    0 < (p.cyclesAccel (FloatMath.real c)).toNat := by
  rw [toNat_cyclesAccel]
  exact units_pos (accelCycles_pos ha hdt)

theorem toNat_cyclesCruise_pos (ha : 0 < p.acceleration) (hdt : 0 < p.dt)
    (hlong : 0 < p.cruiseLength) : 0 < (p.cyclesCruise (FloatMath.real c)).toNat := by
  rw [toNat_cyclesCruise p ha.ne']
  exact units_pos (cruiseCycles_pos hlong hdt)

/-- A move with an acceleration has a loop. -/
theorem hasLoop_real (ha : 0 < p.acceleration) (hdt : 0 < p.dt) :
    p.hasLoop (FloatMath.real c) = true := by
  have hpos := toNat_cyclesAccel_pos (c := c) ha hdt
  have hcycles : p.cyclesAccel (FloatMath.real c) ≠ 0 := by
    intro hzero
    rw [hzero] at hpos
    exact absurd hpos (lt_irrefl 0)
  simp [hasLoop, hcycles]

end Weftik.Motion.TrapezoidalProfile
