import Weftik.GCode.Arcs

/-!
# Which Arcs Follow Their Circle

An arc block is to end where the modal state goes, turning in its direction through at most one
full turn, about the centre that its offsets give or at the distance that its radius gives; and
a radius is to take the shorter of the two arcs if it is positive. The compiler puts the centre
of a radius on the same side of the chord for both directions, and it does not check that the
offsets lead to a circle through the end.

## Main definitions

* `ArcBlock`: an arc block, in a modal state.
* `Turns`, `FollowsCircle`: the property of the code of a block.
* `KeepsCircle`: the blocks that have it.

## Main results

* `followsCircle_iff`: which blocks follow their circle.
-/

open Turns

namespace Weftik.GCode

open Motion

variable {c : Bool}

/-- The code of an arc command is that of its arc. -/
theorem emitMotion_arc {P : Platform} {M : FloatMath P} {cmd : GCodeCommand P}
    {state : ModalState P} {out : Emitted P} {g : ℕ} (hcode : cmd.gCode = some g)
    (hg : g = 2 ∨ g = 3) :
    emitMotion M cmd state out =
      match emitArc M g state (state.advance cmd) cmd with
      | .ok insts => pure (out.extend insts)
      | .error e => .error (.unsupported e) := by
  rcases hg with rfl | rfl <;>
  · rw [emitMotion, hcode]
    rfl

/-- A `G2` or `G3` block, in a modal state. -/
structure ArcBlock (c : Bool) where
  state : ModalState (Platform.real c)
  cmd : GCodeCommand (Platform.real c)
  g : ℕ
  kind : cmd.kind = .motion
  code : cmd.gCode = some g
  arc : g = 2 ∨ g = 3

namespace ArcBlock

variable (b : ArcBlock c)

/-- The position before the block. -/
noncomputable def start : Position (Platform.real c) := b.state.position

/-- The position that the modal state goes to. -/
noncomputable def target : Position (Platform.real c) := (b.state.advance b.cmd).position

/-- The angle of the arc of the block about a centre. -/
noncomputable def sweep (p : Plane) (center : ℂ) : ℝ :=
  arcAngle b.g center (p.point b.start) (p.point b.target)

/-- The swept angle fits the radius of the block, if it has one and its chord does not exceed
two radii: the ends are at the distance of the radius from the centre, and the arc is at most
half a circle just if the radius is positive. -/
def FitsRadius (p : Plane) (center : ℂ) (angle : ℝ) : Prop :=
  b.cmd.hasOffsets = false → ∀ r : ℝ, b.cmd.r = some r →
    0 < p.chord b.start b.target → p.chord b.start b.target ≤ (2 : ℕ) * |r| →
      ‖p.point b.start - center‖ = |r| ∧ ‖p.point b.target - center‖ = |r| ∧
        (|angle| ≤ Real.pi ↔ 0 < r)

/-- The code goes through a turn of an angle about the centre, in a number of equal steps: in
the direction of the block, at most once around, to the target. -/
structure Turns (insts : List (Instruction (Platform.real c))) (p : Plane) (center : ℂ)
    (angle : ℝ) (n : ℕ) : Prop where
  plane : Plane.ofCode b.state.plane = some p
  path : insts = pathCode p (arcPath p b.start b.target center angle n)
  steps : |angle| ≤ n * (Real.pi / 6)
  direction : if b.g = 2 then angle ≤ 0 else 0 ≤ angle
  once : |angle| ≤ 2 * Real.pi
  ends : (arcPath p b.start b.target center angle n).getLast?.getD b.start = b.target
  centered : calculateArcCenter (FloatMath.real c) (p.axes b.start b.target) b.cmd b.state.plane =
    .ok (center.re, center.im)
  offsets : b.cmd.hasOffsets = true → center = p.point b.start + p.offset b.cmd
  radius : b.FitsRadius p center angle

/-- The code follows the circle of the block. -/
def FollowsCircle (insts : List (Instruction (Platform.real c))) : Prop :=
  ∃ p center angle n, b.Turns insts p center angle n

/-- The blocks that follow their circle. The offsets lead to a centre about which the target is
the start turned in the direction of the block, by an angle that is not taken for none, and the
chord is not taken for none either unless it is. Or else the radius leads to a centre for which
the direction of the block is the right one: a chord longer than two radii is taken for a
diameter, `G3` takes the shorter or the longer arc by the sign of the radius, and `G2` does so
only for half a circle. -/
inductive KeepsCircle : Prop
  | offsets {p : Plane} {angle : ℝ} : Plane.ofCode b.state.plane = some p →
      b.cmd.hasOffsets = true →
      p.chord b.start b.target = 0 ∨ 1 / 10 ^ 6 ≤ p.chord b.start b.target →
      1 / 10 ^ 9 ≤ angle → angle ≤ 2 * Real.pi →
      turned (p.point b.start + p.offset b.cmd) (p.point b.start)
        (if b.g = 2 then -angle else angle) = p.point b.target → KeepsCircle
  | diameter {p : Plane} {r : ℝ} : Plane.ofCode b.state.plane = some p →
      b.cmd.hasOffsets = false → b.cmd.r = some r →
      1 / 10 ^ 6 ≤ p.chord b.start b.target → 2 * |r| < p.chord b.start b.target → KeepsCircle
  | shorter {p : Plane} {r : ℝ} : Plane.ofCode b.state.plane = some p →
      b.cmd.hasOffsets = false → b.cmd.r = some r → b.g = 3 →
      1 / 10 ^ 6 ≤ p.chord b.start b.target → p.chord b.start b.target ≤ 2 * r →
      1 / 10 ^ 9 ≤ 2 * Real.arcsin (p.chord b.start b.target / (2 * r)) → KeepsCircle
  | longer {p : Plane} {r : ℝ} : Plane.ofCode b.state.plane = some p →
      b.cmd.hasOffsets = false → b.cmd.r = some r → b.g = 3 → r < 0 →
      1 / 10 ^ 6 ≤ p.chord b.start b.target → p.chord b.start b.target < 2 * |r| → KeepsCircle
  | half {p : Plane} {r : ℝ} : Plane.ofCode b.state.plane = some p →
      b.cmd.hasOffsets = false → b.cmd.r = some r → b.g = 2 → 0 < r →
      1 / 10 ^ 6 ≤ p.chord b.start b.target → p.chord b.start b.target = 2 * r → KeepsCircle

variable {b}

/-! ### The points of a path -/

variable {insts : List (Instruction (Platform.real c))}

/-- The code of an arc block is that of its arc. -/
theorem emitCommand_eq_ok_iff {out : Emitted (Platform.real c)} :
    emitCommand (FloatMath.real c) b.cmd b.state out = .ok (out.extend insts) ↔
      emitArc (FloatMath.real c) b.g b.state (b.state.advance b.cmd) b.cmd = .ok insts := by
  have hinj : ∀ {insts' : List (Instruction (Platform.real c))},
      out.extend insts' = out.extend insts ↔ insts' = insts := by
    intro insts'
    constructor
    · intro h
      exact List.append_cancel_left (congrArg Emitted.instructions h)
    · exact congrArg out.extend
  rw [emitCommand, b.kind]
  dsimp only
  rw [emitMotion_arc b.code b.arc]
  cases emitArc (FloatMath.real c) b.g b.state (b.state.advance b.cmd) b.cmd with
  | error e => simp only [reduceCtorEq]
  | ok insts' =>
      constructor
      · exact fun h => congrArg Except.ok (hinj.mp (Except.ok.inj h))
      · exact fun h => congrArg Except.ok (hinj.mpr (Except.ok.inj h))

theorem point_atPoint (p : Plane) (z : ℂ) (l : ℝ) : p.point (p.atPoint (c := c) z l) = z := by
  rw [Plane.point, Plane.atPoint, Plane.place_first, Plane.place_second]

theorem atPoint_eq_iff (p : Plane) (z : ℂ) (l : ℝ) (pos : Position (Platform.real c)) :
    p.atPoint z l = pos ↔ z = p.point pos ∧ l = coord pos p.third := by
  constructor
  · rintro rfl
    exact ⟨(point_atPoint p z l).symm, (p.place_third (P := Platform.real c) z.re z.im l).symm⟩
  · rintro ⟨rfl, rfl⟩
    exact p.place_coord pos

/-- Where a path ends. -/
theorem getLast_arcPath (p : Plane) (start target : Position (Platform.real c)) (center : ℂ)
    (angle : ℝ) {n : ℕ} (hn : 0 < n) :
    (arcPath p start target center angle n).getLast?.getD start = target ↔
      turned center (p.point start) angle = p.point target := by
  obtain ⟨n, rfl⟩ := Nat.exists_eq_succ_of_ne_zero hn.ne'
  have hpos : ((n + 1 : ℕ) : ℝ) ≠ 0 := Nat.cast_ne_zero.mpr (Nat.succ_ne_zero n)
  rw [arcPath, List.range_succ, List.map_append, List.map_singleton, List.getLast?_concat,
    Option.getD_some, mul_div_cancel₀ _ hpos, mul_div_cancel₀ _ hpos, atPoint_eq_iff,
    add_sub_cancel, and_iff_left rfl]

/-- A path of small steps shows its angle. -/
theorem arcPath_inj {p : Plane} {start target : Position (Platform.real c)} {center : ℂ}
    (hcenter : p.point start ≠ center) {angle angle' : ℝ} {n n' : ℕ}
    (hsteps : |angle| ≤ n * (Real.pi / 6)) (hsteps' : |angle'| ≤ n' * (Real.pi / 6))
    (h : arcPath p start target center angle n = arcPath p start target center angle' n') :
    n = n' ∧ angle = angle' := by
  have hlen := congrArg List.length h
  rw [arcPath, arcPath, List.length_map, List.length_map, List.length_range,
    List.length_range] at hlen
  subst hlen
  refine ⟨rfl, ?_⟩
  cases n with
  | zero =>
      rw [Nat.cast_zero, zero_mul] at hsteps hsteps'
      rw [abs_nonpos_iff.mp hsteps, abs_nonpos_iff.mp hsteps']
  | succ n =>
      have hfirst := congrArg List.head? h
      simp only [arcPath, List.range_succ_eq_map, List.map_cons, List.head?_cons] at hfirst
      have hpoint := ((atPoint_eq_iff p _ _ _).mp (Option.some.inj hfirst)).1
      rw [point_atPoint, zero_add, Nat.cast_one, one_mul, one_mul] at hpoint
      have hpos : (0 : ℝ) < (n + 1 : ℕ) := Nat.cast_pos.mpr (Nat.succ_pos n)
      have hsmall : ∀ {a : ℝ}, |a| ≤ (n + 1 : ℕ) * (Real.pi / 6) →
          |a / (n + 1 : ℕ)| ≤ Real.pi / 6 := by
        intro a ha
        rw [abs_div, abs_of_pos hpos, div_le_iff₀ hpos, mul_comm]
        exact ha
      have hlt : |angle / (n + 1 : ℕ) - angle' / (n + 1 : ℕ)| < 2 * Real.pi := by
        refine (abs_sub _ _).trans_lt ?_
        linarith [hsmall hsteps, hsmall hsteps', Real.pi_pos]
      have heq := turned_inj hcenter hpoint hlt
      exact (div_left_inj' hpos.ne').mp heq

/-! ### The angle of an arc -/

theorem arcAngle_bounds (hg : b.g = 2 ∨ b.g = 3) (center start target : ℂ) :
    (if b.g = 2 then arcAngle b.g center start target ≤ 0
      else 0 ≤ arcAngle b.g center start target) ∧
      |arcAngle b.g center start target| ≤ 2 * Real.pi := by
  have hpi := Real.pi_pos
  have hlt := abs_arg_sub_lt (target - center) (start - center)
  obtain ⟨hccw₀, hccw⟩ := ccw_bounds hlt
  obtain ⟨hcw, hcw₀⟩ := cw_bounds hlt
  rw [arcAngle_eq]
  rcases hg with hg | hg
  · rw [hg, if_pos rfl, if_pos rfl, if_pos rfl]
    split
    · exact ⟨by linarith, abs_le.mpr ⟨by linarith, by linarith⟩⟩
    · exact ⟨hcw₀, abs_le.mpr ⟨hcw.le, by linarith⟩⟩
  · have hthree : ¬(3 : ℕ) = 2 := by decide
    rw [hg, if_neg hthree, if_neg hthree, if_neg hthree]
    split
    · exact ⟨by linarith, abs_le.mpr ⟨by linarith, le_rfl⟩⟩
    · exact ⟨hccw₀, abs_le.mpr ⟨by linarith, hccw.le⟩⟩

/-- The angle leads to the target iff the target is on the circle; a chord that is taken for
none has to be none. -/
theorem turned_arcAngle_iff (g : ℕ) (center start target : ℂ) :
    turned center start (arcAngle g center start target) = target ↔
      if ‖target - start‖ < 1 / 10 ^ 6 then target = start
      else ‖target - center‖ = ‖start - center‖ := by
  rw [arcAngle_eq]
  have hturn : turned center start (2 * Real.pi) = start := by
    have hperiodic := turned_periodic center start 0
    rwa [zero_add, turned_zero] at hperiodic
  have hback : turned center start (-2 * Real.pi) = start := by
    have hperiodic := (turned_periodic center start).sub_eq 0
    rwa [zero_sub, turned_zero, ← neg_mul] at hperiodic
  split
  · split
    · rw [hback, eq_comm]
    · rw [hturn, eq_comm]
  · split
    · rw [turned_cw, turned_arg_iff]
    · rw [turned_ccw, turned_arg_iff]

theorem arcStep_bounds (radius : ℝ) : 0 < arcStep radius ∧ arcStep radius ≤ Real.pi / 6 := by
  have hpi := Real.pi_pos
  rw [arcStep_eq]
  split
  · rename_i hradius
    have hpos : 0 < radius := lt_trans (by norm_num) hradius
    have harccos : 0 < Real.arccos (1 - 5 / 10 ^ 3 / radius) :=
      Real.arccos_pos.mpr (sub_lt_self 1 (by positivity))
    exact ⟨lt_min (by linarith) (by linarith), min_le_right _ _⟩
  · exact ⟨by linarith, le_rfl⟩

/-- The steps of an arc are small. -/
theorem abs_le_arcPoints (radius : ℝ) {angle : ℝ} (h : |angle| ≤ 2 * Real.pi) :
    |angle| ≤ arcPoints radius angle * (Real.pi / 6) := by
  obtain ⟨hpos, hle⟩ := arcStep_bounds radius
  have hpi := Real.pi_pos
  have hunits : (units (|angle| / arcStep radius) : ℝ) ≤ arcPoints radius angle :=
    Nat.cast_le.mpr (le_max_left _ _)
  have hshare : |angle| ≤ units (|angle| / arcStep radius) * (Real.pi / 6) := by
    rw [units]
    rcases min_cases ⌈|angle| / arcStep radius⌉₊ (2 ^ 32 - 1) with ⟨heq, -⟩ | ⟨heq, -⟩
    · rw [heq]
      have hceil := Nat.le_ceil (|angle| / arcStep radius)
      rw [div_le_iff₀ hpos] at hceil
      exact hceil.trans (mul_le_mul_of_nonneg_left hle (Nat.cast_nonneg _))
    · rw [heq]
      norm_num
      linarith
  exact hshare.trans (mul_le_mul_of_nonneg_right hunits (by positivity))

/-! ### What the property comes to -/

/-- An accepted block follows its circle iff its angle is not taken for none and leads to the
target, and fits its radius. -/
theorem followsCircle_iff_angle {p : Plane} (hp : Plane.ofCode b.state.plane = some p)
    {center : ℂ}
    (hcenter : calculateArcCenter (FloatMath.real c) (p.axes b.start b.target) b.cmd b.state.plane =
        .ok (center.re, center.im))
    (hradius : 1 / 10 ^ 9 ≤ ‖p.point b.start - center‖)
    (h : emitArc (FloatMath.real c) b.g b.state (b.state.advance b.cmd) b.cmd = .ok insts) :
    b.FollowsCircle insts ↔ 1 / 10 ^ 9 ≤ |b.sweep p center| ∧
      turned center (p.point b.start) (b.sweep p center) = p.point b.target ∧
        b.FitsRadius p center (b.sweep p center) := by
  obtain ⟨center', hcenter', -, hinsts⟩ := (emitArc_real hp).mp h
  have hsame : ∀ {center₁ center₂ : ℂ}, calculateArcCenter (FloatMath.real c)
      (p.axes b.start b.target) b.cmd b.state.plane = .ok (center₁.re, center₁.im) →
      calculateArcCenter (FloatMath.real c) (p.axes b.start b.target) b.cmd b.state.plane =
        .ok (center₂.re, center₂.im) → center₁ = center₂ := by
    intro center₁ center₂ h₁ h₂
    obtain ⟨hre, him⟩ := Prod.mk.inj (Except.ok.inj (h₁.symm.trans h₂))
    exact Complex.ext hre him
  obtain rfl := hsame hcenter' hcenter
  obtain ⟨hdirection, honce⟩ := arcAngle_bounds b.arc center' (p.point b.start) (p.point b.target)
  have hne : p.point b.start ≠ center' := by
    rintro heq
    rw [heq, sub_self, norm_zero] at hradius
    norm_num at hradius
  -- the plane and the centre of a turn are those of the block
  have hturns : ∀ {p' : Plane} {center₁ : ℂ} {angle₁ : ℝ} {n : ℕ},
      b.Turns insts p' center₁ angle₁ n → p' = p ∧ center₁ = center' := by
    intro p' center₁ angle₁ n hturn
    obtain rfl := Option.some.inj (hturn.plane.symm.trans hp)
    exact ⟨rfl, hsame hturn.centered hcenter⟩
  have hangle : b.sweep p center' = arcAngle b.g center' (p.point b.start) (p.point b.target) :=
    rfl
  rw [← hangle] at hdirection honce
  replace hinsts : insts = if |b.sweep p center'| < 1 / 10 ^ 9 then [] else
      pathCode p (arcPath p b.start b.target center' (b.sweep p center')
        (arcPoints ‖p.point b.start - center'‖ (b.sweep p center'))) := hinsts
  generalize b.sweep p center' = angle at *
  by_cases hsmall : |angle| < 1 / 10 ^ 9
  · have hnil : insts = [] := hinsts.trans (if_pos hsmall)
    refine ⟨?_, fun hall => absurd hall.1 hsmall.not_ge⟩
    rintro ⟨p', center₁, angle₁, n, hturn⟩
    obtain ⟨rfl, rfl⟩ := hturns hturn
    have hpath : arcPath p' b.start b.target center₁ angle₁ n = [] :=
      pathCode_inj (p := p') (hturn.path.symm.trans hnil)
    have hends := hturn.ends
    rw [hpath] at hends
    have hstart : b.start = b.target := hends
    rw [hangle, arcAngle_eq, hstart, sub_self, norm_zero, if_pos (by norm_num)] at hsmall
    have hpi := Real.two_le_pi
    split at hsmall
    · rw [neg_mul, abs_neg, abs_of_pos Real.two_pi_pos] at hsmall
      linarith
    · rw [abs_of_pos Real.two_pi_pos] at hsmall
      linarith
  · have hpath : insts = pathCode p (arcPath p b.start b.target center' angle
        (arcPoints ‖p.point b.start - center'‖ angle)) := hinsts.trans (if_neg hsmall)
    have hpos := arcPoints_pos ‖p.point b.start - center'‖ angle
    have hsteps := abs_le_arcPoints ‖p.point b.start - center'‖ honce
    constructor
    · rintro ⟨p', center₁, angle₁, n, hturn⟩
      obtain ⟨rfl, rfl⟩ := hturns hturn
      obtain ⟨rfl, rfl⟩ := arcPath_inj hne hturn.steps hsteps
        (pathCode_inj (hturn.path.symm.trans hpath))
      exact ⟨not_lt.mp hsmall, (getLast_arcPath p' _ _ _ _ hpos).mp hturn.ends, hturn.radius⟩
    · rintro ⟨-, hends, hfits⟩
      refine ⟨p, center', angle, _, hp, hpath, hsteps, hdirection, honce,
        (getLast_arcPath p _ _ _ _ hpos).mpr hends, hcenter, fun hoffsets => ?_, hfits⟩
      exact hsame hcenter (center_of_offsets hp hoffsets b.start b.target)

/-! ### Offsets -/

/-- A turn in the direction of the block that leads to the target is the one of the arc. -/
theorem abs_arcAngle_of_turned (hg : b.g = 2 ∨ b.g = 3) {center start target : ℂ}
    (hcenter : start ≠ center) (hne : target ≠ start) {angle : ℝ} (hpos : 0 < angle)
    (hle : angle ≤ 2 * Real.pi)
    (hends : turned center start (arcAngle b.g center start target) = target)
    (hturn : turned center start (if b.g = 2 then -angle else angle) = target) :
    |arcAngle b.g center start target| = angle := by
  obtain ⟨hdirection, honce⟩ := arcAngle_bounds hg center start target
  have hzero : arcAngle b.g center start target ≠ 0 := by
    intro hzero
    rw [hzero, turned_zero] at hends
    exact hne hends.symm
  generalize arcAngle b.g center start target = swept at *
  have hsame := fun hlt => turned_inj hcenter (hends.trans hturn.symm) hlt
  split at hdirection
  · rw [if_pos ‹b.g = 2›] at hsame
    have hneg : swept < 0 := lt_of_le_of_ne hdirection hzero
    rw [abs_of_neg hneg] at honce ⊢
    rw [hsame (abs_lt.mpr ⟨by linarith, by linarith⟩), neg_neg]
  · rw [if_neg ‹¬b.g = 2›] at hsame
    have hpos' : 0 < swept := lt_of_le_of_ne hdirection hzero.symm
    rw [abs_of_pos hpos'] at honce ⊢
    exact hsame (abs_lt.mpr ⟨by linarith, by linarith⟩)

/-- A block with offsets follows its circle iff a turn leads to the target that is not taken for
none. -/
theorem followsCircle_iff_offsets {p : Plane} (hp : Plane.ofCode b.state.plane = some p)
    (hoffsets : b.cmd.hasOffsets = true)
    (h : emitArc (FloatMath.real c) b.g b.state (b.state.advance b.cmd) b.cmd = .ok insts) :
    b.FollowsCircle insts ↔
      (p.chord b.start b.target = 0 ∨ 1 / 10 ^ 6 ≤ p.chord b.start b.target) ∧
        ∃ angle, 1 / 10 ^ 9 ≤ angle ∧ angle ≤ 2 * Real.pi ∧
          turned (p.point b.start + p.offset b.cmd) (p.point b.start)
            (if b.g = 2 then -angle else angle) = p.point b.target := by
  have hcenter := center_of_offsets hp hoffsets b.start b.target
  obtain ⟨center', hcenter', hradius, -⟩ := (emitArc_real hp).mp h
  obtain ⟨hre, him⟩ := Prod.mk.inj (Except.ok.inj (hcenter'.symm.trans hcenter))
  obtain rfl := Complex.ext hre him
  rw [followsCircle_iff_angle hp hcenter hradius h]
  have hfits : ∀ center angle, b.FitsRadius p center angle := by
    intro center angle hno
    rw [hoffsets] at hno
    cases hno
  rw [and_iff_left (hfits _ _), sweep, turned_arcAngle_iff]
  have hiff := turned_arcAngle_iff b.g (p.point b.start + p.offset b.cmd) (p.point b.start)
    (p.point b.target)
  obtain ⟨hdirection, honce⟩ := arcAngle_bounds b.arc (p.point b.start + p.offset b.cmd)
    (p.point b.start) (p.point b.target)
  have hne : p.point b.start ≠ p.point b.start + p.offset b.cmd := by
    intro heq
    have hzero : ‖p.point b.start - (p.point b.start + p.offset b.cmd)‖ = 0 := by
      rw [← heq, sub_self, norm_zero]
    have hpos : (0 : ℝ) < 1 / 10 ^ 9 := by norm_num
    exact absurd (hpos.trans_le hradius) hzero.not_gt
  generalize p.point b.start + p.offset b.cmd = center at *
  have hangle : ∀ {angle : ℝ}, (if b.g = 2 then angle ≤ 0 else 0 ≤ angle) →
      (if b.g = 2 then -|angle| else |angle|) = angle := by
    intro angle hangle
    split at hangle
    · rw [if_pos ‹b.g = 2›, abs_of_nonpos hangle, neg_neg]
    · rw [if_neg ‹¬b.g = 2›, abs_of_nonneg hangle]
  constructor
  · rintro ⟨hlarge, hends⟩
    refine ⟨?_, _, hlarge, honce, ?_⟩
    · split at hends
      · exact .inl (by rw [Plane.chord, hends, sub_self, norm_zero])
      · exact .inr (not_lt.mp ‹_›)
    · rw [hangle hdirection]
      exact hiff.mpr hends
  · rintro ⟨hnone | hchord, angle, hlow, hhigh, hturn⟩
    · have hsame : p.point b.target = p.point b.start := sub_eq_zero.mp (norm_eq_zero.mp hnone)
      have hfull : ‖p.point b.target - p.point b.start‖ < 1 / 10 ^ 6 := by
        rw [hsame, sub_self, norm_zero]
        norm_num
      rw [if_pos hfull]
      refine ⟨hlow.trans (hhigh.trans ?_), hsame⟩
      rw [arcAngle_eq, if_pos hfull]
      split
      · rw [neg_mul, abs_neg]
        exact le_abs_self _
      · exact le_abs_self _
    · have hfull : ¬‖p.point b.target - p.point b.start‖ < 1 / 10 ^ 6 := not_lt.mpr hchord
      rw [if_neg hfull] at hiff ⊢
      have hcircle : ‖p.point b.target - center‖ = ‖p.point b.start - center‖ := by
        rw [← hturn, norm_turned_sub]
      have hapart : p.point b.target ≠ p.point b.start := by
        intro heq
        rw [Plane.chord, heq, sub_self, norm_zero] at hchord
        norm_num at hchord
      refine ⟨?_, hcircle⟩
      have hpos : (0 : ℝ) < 1 / 10 ^ 9 := by norm_num
      rw [abs_arcAngle_of_turned b.arc hne hapart (hpos.trans_le hlow) hhigh
        (hiff.mpr hcircle) hturn]
      exact hlow

/-! ### Radii -/

section

variable {r chord : ℝ}

theorem arcSide_eq_zero (hle : 2 * |r| ≤ chord) : arcSide r chord = 0 := by
  have hsquare : |r| * |r| ≤ chord / 2 * (chord / 2) :=
    mul_self_le_mul_self (abs_nonneg r) (by linarith)
  rw [arcSide_eq, max_eq_right (sub_nonpos.mpr hsquare), Real.sqrt_zero, mul_zero, zero_div]

theorem arcSide_sign (hpos : 0 < chord) (hlt : chord < 2 * |r|) :
    if 0 < r then 0 < arcSide r chord else arcSide r chord < 0 := by
  have hsquare : chord / 2 * (chord / 2) < |r| * |r| :=
    mul_self_lt_mul_self (by linarith) (by linarith)
  have hsqrt : 0 < √(max (|r| * |r| - chord / 2 * (chord / 2)) 0) :=
    Real.sqrt_pos.mpr (lt_max_of_lt_left (sub_pos.mpr hsquare))
  rw [arcSide_eq]
  split
  · rw [one_mul]
    exact div_pos hsqrt hpos
  · rw [neg_one_mul, neg_div]
    exact neg_lt_zero.mpr (div_pos hsqrt hpos)

/-- The centre lies to the left of the chord, or on it, just for a positive radius, or a chord of
two radii at least. -/
theorem arcSide_nonneg_iff (hpos : 0 < chord) :
    0 ≤ arcSide r chord ↔ 0 < r ∨ 2 * |r| ≤ chord := by
  rcases le_or_gt (2 * |r|) chord with hle | hlt
  · exact ⟨fun _ => .inr hle, fun _ => (arcSide_eq_zero hle).ge⟩
  · have hsign := arcSide_sign hpos hlt
    rw [or_iff_left hlt.not_ge]
    split at hsign
    · exact ⟨fun _ => ‹0 < r›, fun _ => hsign.le⟩
    · exact ⟨fun h => absurd hsign h.not_gt, fun h => absurd h ‹¬0 < r›⟩

theorem arcSide_nonpos_iff (hpos : 0 < chord) :
    arcSide r chord ≤ 0 ↔ ¬0 < r ∨ 2 * |r| ≤ chord := by
  rcases le_or_gt (2 * |r|) chord with hle | hlt
  · exact ⟨fun _ => .inr hle, fun _ => (arcSide_eq_zero hle).le⟩
  · have hsign := arcSide_sign hpos hlt
    rw [or_iff_left hlt.not_ge]
    split at hsign
    · exact ⟨fun h => absurd hsign h.not_gt, fun h => absurd ‹0 < r› h⟩
    · exact ⟨fun _ => ‹¬0 < r›, fun _ => hsign.le⟩

/-- The centre is at the distance of the radius from the ends of a chord of two radii at most. -/
theorem chord_mul_arcSide (hpos : 0 < chord) (hle : chord ≤ 2 * |r|) :
    chord * √(1 / 4 + arcSide r chord ^ 2) = |r| := by
  have hsquare : 0 ≤ |r| * |r| - chord / 2 * (chord / 2) :=
    sub_nonneg.mpr (mul_self_le_mul_self (by linarith) (by linarith))
  have hsign : (if 0 < r then (1 : ℝ) else -1) ^ 2 = 1 := by
    split <;> norm_num
  have hside : arcSide r chord ^ 2 = (|r| * |r| - chord / 2 * (chord / 2)) / chord ^ 2 := by
    rw [arcSide_eq, div_pow, mul_pow, hsign, one_mul, max_eq_left hsquare, Real.sq_sqrt hsquare]
  have hsum : 1 / 4 + arcSide r chord ^ 2 = (|r| / chord) ^ 2 := by
    rw [hside]
    field_simp
    ring
  rw [hsum, Real.sqrt_sq (by positivity), mul_div_cancel₀ _ hpos.ne']

end

section

variable {p : Plane}

theorem point_ne_of_chord (hchord : 1 / 10 ^ 6 ≤ p.chord b.start b.target) :
    p.point b.target ≠ p.point b.start := by
  intro heq
  rw [Plane.chord, heq, sub_self, norm_zero] at hchord
  norm_num at hchord

theorem point_ne_bisector (hchord : 1 / 10 ^ 6 ≤ p.chord b.start b.target) (k : ℝ) :
    p.point b.start ≠ bisector (p.point b.start) (p.point b.target) k := by
  have hpos : 0 < p.chord b.start b.target := lt_of_lt_of_le (by norm_num) hchord
  have hroot : (0 : ℝ) < √(1 / 4 + k ^ 2) := Real.sqrt_pos.mpr (by positivity)
  refine sub_ne_zero.mp (norm_pos_iff.mp ?_)
  rw [(norm_sub_bisector _ _ k).1]
  exact mul_pos hpos hroot

/-- The arc about a centre on the bisector leads to the target. -/
theorem turned_bisector (hchord : 1 / 10 ^ 6 ≤ p.chord b.start b.target) (k : ℝ) :
    turned (bisector (p.point b.start) (p.point b.target) k) (p.point b.start)
      (b.sweep p (bisector (p.point b.start) (p.point b.target) k)) = p.point b.target := by
  have hfull : ¬‖p.point b.target - p.point b.start‖ < 1 / 10 ^ 6 := not_lt.mpr hchord
  obtain ⟨hstart, htarget⟩ := norm_sub_bisector (p.point b.start) (p.point b.target) k
  rw [sweep, turned_arcAngle_iff, if_neg hfull, htarget, hstart]

/-- The arc about a centre on the bisector is at most half a circle just if the centre lies on
the inner side of the chord, seen in the direction of the block. -/
theorem abs_sweep_le_pi_iff (hchord : 1 / 10 ^ 6 ≤ p.chord b.start b.target) (k : ℝ) :
    |b.sweep p (bisector (p.point b.start) (p.point b.target) k)| ≤ Real.pi ↔
      if b.g = 2 then k ≤ 0 else 0 ≤ k := by
  have hfull : ¬‖p.point b.target - p.point b.start‖ < 1 / 10 ^ 6 := not_lt.mpr hchord
  have hsin := sin_turn (point_ne_bisector hchord k)
    (b.sweep p (bisector (p.point b.start) (p.point b.target) k))
  rw [turned_bisector hchord k, im_div_bisector (point_ne_of_chord hchord) k] at hsin
  have hpos : (0 : ℝ) < 1 / 4 + k ^ 2 := by positivity
  have hlt := abs_arg_sub_lt
    (p.point b.target - bisector (p.point b.start) (p.point b.target) k)
    (p.point b.start - bisector (p.point b.start) (p.point b.target) k)
  rw [sweep, arcAngle_eq, if_neg hfull] at hsin ⊢
  split at hsin
  · obtain ⟨hlow, hhigh⟩ := cw_bounds hlt
    rw [if_pos ‹b.g = 2›, if_pos ‹b.g = 2›, abs_of_nonpos hhigh, neg_le, neg_pi_le_iff hhigh hlow,
      hsin, div_le_iff₀ hpos, zero_mul]
  · obtain ⟨hlow, hhigh⟩ := ccw_bounds hlt
    rw [if_neg ‹¬b.g = 2›, if_neg ‹¬b.g = 2›, abs_of_nonneg hlow, le_pi_iff hlow hhigh, hsin,
      le_div_iff₀ hpos, zero_mul]

/-- The angle of the arc about a centre on the bisector, from the chord. -/
theorem abs_sin_sweep (hchord : 1 / 10 ^ 6 ≤ p.chord b.start b.target) (k : ℝ) :
    √(1 / 4 + k ^ 2) *
      |2 * Real.sin (b.sweep p (bisector (p.point b.start) (p.point b.target) k) / 2)| = 1 := by
  have hpos : 0 < p.chord b.start b.target := lt_of_lt_of_le (by norm_num) hchord
  have hself := norm_turned_sub_self (bisector (p.point b.start) (p.point b.target) k)
    (p.point b.start) (b.sweep p (bisector (p.point b.start) (p.point b.target) k))
  rw [turned_bisector hchord k, (norm_sub_bisector _ _ k).1, mul_assoc] at hself
  exact mul_left_cancel₀ hpos.ne' (hself.symm.trans (mul_one _).symm)

/-- The half circle about the middle of the chord is not taken for none. -/
theorem le_abs_sweep_middle (hchord : 1 / 10 ^ 6 ≤ p.chord b.start b.target) :
    1 / 10 ^ 9 ≤ |b.sweep p (bisector (p.point b.start) (p.point b.target) 0)| := by
  have hsin := abs_sin_sweep hchord 0
  have hroot : √(1 / 4 + (0 : ℝ) ^ 2) = 1 / 2 := by
    rw [show (1 / 4 + (0 : ℝ) ^ 2) = (1 / 2) ^ 2 by norm_num, Real.sqrt_sq (by norm_num)]
  rw [hroot, abs_mul, abs_two] at hsin
  generalize b.sweep p _ = angle at *
  have hle : |Real.sin (angle / 2)| ≤ |angle| / 2 := by
    rw [← abs_two, ← abs_div, abs_two]
    exact Real.abs_sin_le_abs
  linarith

/-- The shorter arc, from the chord and the radius. -/
theorem abs_sweep_shorter (hchord : 1 / 10 ^ 6 ≤ p.chord b.start b.target) {r : ℝ} (hr : 0 < r)
    (hle : p.chord b.start b.target ≤ 2 * |r|)
    (hhalf : |b.sweep p (bisector (p.point b.start) (p.point b.target)
      (arcSide r (p.chord b.start b.target)))| ≤ Real.pi) :
    |b.sweep p (bisector (p.point b.start) (p.point b.target)
        (arcSide r (p.chord b.start b.target)))| =
      2 * Real.arcsin (p.chord b.start b.target / (2 * r)) := by
  have hpos : 0 < p.chord b.start b.target := lt_of_lt_of_le (by norm_num) hchord
  have hsin := abs_sin_sweep hchord (arcSide r (p.chord b.start b.target))
  have hroot := chord_mul_arcSide hpos hle
  rw [abs_of_pos hr] at hroot
  generalize b.sweep p _ = angle at *
  generalize √(1 / 4 + arcSide r (p.chord b.start b.target) ^ 2) = root at *
  have hnonneg : 0 ≤ Real.sin (|angle| / 2) :=
    Real.sin_nonneg_of_nonneg_of_le_pi (by positivity) (by linarith [Real.pi_pos])
  have habs : |Real.sin (angle / 2)| = Real.sin (|angle| / 2) := by
    rw [← abs_of_nonneg hnonneg]
    rcases abs_choice angle with h | h
    · rw [h]
    · rw [h, neg_div, Real.sin_neg, abs_neg]
  rw [abs_mul, abs_two, habs] at hsin
  have hshare : p.chord b.start b.target / (2 * r) = Real.sin (|angle| / 2) := by
    rw [div_eq_iff (by positivity), ← hroot]
    linear_combination (-p.chord b.start b.target) * hsin
  rw [hshare, Real.arcsin_sin (by linarith [abs_nonneg angle, Real.pi_pos]) (by linarith)]
  ring

/-- The arc about the centre that the radius gives is at most half a circle just if the sign of
the radius fits the direction, or the chord is two radii at least. -/
theorem abs_sweep_arcSide_iff (hchord : 1 / 10 ^ 6 ≤ p.chord b.start b.target) (r : ℝ) :
    |b.sweep p (bisector (p.point b.start) (p.point b.target)
        (arcSide r (p.chord b.start b.target)))| ≤ Real.pi ↔
      (if b.g = 2 then ¬0 < r else 0 < r) ∨ 2 * |r| ≤ p.chord b.start b.target := by
  have hpos : 0 < p.chord b.start b.target := lt_of_lt_of_le (by norm_num) hchord
  rw [abs_sweep_le_pi_iff hchord]
  split
  · exact arcSide_nonpos_iff hpos
  · exact arcSide_nonneg_iff hpos

/-- The arc about the centre that the radius gives fits the radius iff its size does. -/
theorem fitsRadius_iff (hchord : 1 / 10 ^ 6 ≤ p.chord b.start b.target)
    (hoffsets : b.cmd.hasOffsets = false) {r : ℝ} (hr : b.cmd.r = some r) (angle : ℝ) :
    b.FitsRadius p (bisector (p.point b.start) (p.point b.target)
        (arcSide r (p.chord b.start b.target))) angle ↔
      (p.chord b.start b.target ≤ 2 * |r| → (|angle| ≤ Real.pi ↔ 0 < r)) := by
  have hpos : 0 < p.chord b.start b.target := lt_of_lt_of_le (by norm_num) hchord
  obtain ⟨hstart, htarget⟩ := norm_sub_bisector (p.point b.start) (p.point b.target)
    (arcSide r (p.chord b.start b.target))
  unfold ArcBlock.FitsRadius
  simp only [Nat.cast_ofNat]
  constructor
  · intro h hle
    exact (h hoffsets r hr hpos hle).2.2
  · intro h _ r' hr' _ hle
    obtain rfl : r = r' := Option.some.inj (hr.symm.trans hr')
    refine ⟨hstart.trans ?_, htarget.trans ?_, h hle⟩ <;>
    · rw [← Plane.chord, chord_mul_arcSide hpos hle]

/-- A block with a radius follows its circle iff its chord is not taken for none, and it is a
diameter or its direction is the right one for the side of the centre. -/
theorem followsCircle_iff_radius (hp : Plane.ofCode b.state.plane = some p)
    (hoffsets : b.cmd.hasOffsets = false) {r : ℝ} (hr : b.cmd.r = some r)
    {insts : List (Instruction (Platform.real c))}
    (h : emitArc (FloatMath.real c) b.g b.state (b.state.advance b.cmd) b.cmd = .ok insts) :
    b.FollowsCircle insts ↔ 1 / 10 ^ 6 ≤ p.chord b.start b.target ∧
      (2 * |r| < p.chord b.start b.target ∨
        b.g = 3 ∧ p.chord b.start b.target ≤ 2 * r ∧
          1 / 10 ^ 9 ≤ 2 * Real.arcsin (p.chord b.start b.target / (2 * r)) ∨
        b.g = 3 ∧ r < 0 ∧ p.chord b.start b.target < 2 * |r| ∨
        b.g = 2 ∧ 0 < r ∧ p.chord b.start b.target = 2 * r) := by
  obtain ⟨center, hcenter, hradius, -⟩ := (emitArc_real hp).mp h
  obtain ⟨hapart, -, rfl⟩ := (center_of_radius p _ hoffsets hr b.start b.target center).mp hcenter
  rw [followsCircle_iff_angle hp hcenter hradius h]
  change 1 / 10 ^ 9 ≤ p.chord b.start b.target at hapart
  by_cases hchord : 1 / 10 ^ 6 ≤ p.chord b.start b.target
  swap
  · have hfull : ‖p.point b.target - p.point b.start‖ < 1 / 10 ^ 6 := not_le.mp hchord
    refine ⟨?_, fun h => absurd h.1 hchord⟩
    rintro ⟨-, hends, -⟩
    rw [sweep, turned_arcAngle_iff, if_pos hfull] at hends
    rw [Plane.chord, hends, sub_self, norm_zero] at hapart
    norm_num at hapart
  have hpos : 0 < p.chord b.start b.target := lt_of_lt_of_le (by norm_num) hchord
  have hturn := turned_bisector hchord (arcSide r (p.chord b.start b.target))
  have hhalf := abs_sweep_arcSide_iff hchord r
  have hfits := fitsRadius_iff hchord hoffsets hr
    (b.sweep p (bisector (p.point b.start) (p.point b.target)
      (arcSide r (p.chord b.start b.target))))
  have hmiddle : 2 * |r| ≤ p.chord b.start b.target → 1 / 10 ^ 9 ≤
      |b.sweep p (bisector (p.point b.start) (p.point b.target)
        (arcSide r (p.chord b.start b.target)))| := by
    intro hle
    rw [arcSide_eq_zero hle]
    exact le_abs_sweep_middle hchord
  have hshorter := fun hpositive hle =>
    abs_sweep_shorter (r := r) hchord hpositive hle
  rw [and_iff_right hturn, hfits, and_iff_right hchord]
  generalize b.sweep p _ = angle at *
  generalize p.chord b.start b.target = chord at *
  rcases lt_or_ge (2 * |r|) chord with hlong | hle
  · exact ⟨fun _ => .inl hlong, fun _ => ⟨hmiddle hlong.le, fun hle => absurd hlong hle.not_gt⟩⟩
  rw [or_iff_right hle.not_gt]
  rcases b.arc with hg | hg
  · have hthree : b.g ≠ 3 := by omega
    rw [if_pos hg] at hhalf
    constructor
    · rintro ⟨-, hfit⟩
      have hpositive : 0 < r := by
        by_contra hneg
        exact hneg ((hfit hle).mp (hhalf.mpr (.inl hneg)))
      have hlow : 2 * |r| ≤ chord :=
        (hhalf.mp ((hfit hle).mpr hpositive)).resolve_left (not_not_intro hpositive)
      rw [abs_of_pos hpositive] at hlow hle
      exact .inr (.inr ⟨hg, hpositive, le_antisymm hle hlow⟩)
    · rintro (⟨hg', -⟩ | ⟨hg', -⟩ | ⟨-, hpositive, heq⟩)
      · exact absurd hg' hthree
      · exact absurd hg' hthree
      · have hlow : 2 * |r| ≤ chord := by rw [abs_of_pos hpositive, heq]
        exact ⟨hmiddle hlow, fun _ => ⟨fun _ => hpositive, fun _ => hhalf.mpr (.inr hlow)⟩⟩
  · have htwo : b.g ≠ 2 := by omega
    rw [if_neg htwo] at hhalf
    rcases lt_or_ge 0 r with hpositive | hnonpos
    · have habs := hshorter hpositive hle (hhalf.mpr (.inl hpositive))
      rw [abs_of_pos hpositive] at hle
      rw [habs]
      constructor
      · exact fun h => .inl ⟨hg, hle, h.1⟩
      · rintro (⟨-, -, hsmall⟩ | ⟨-, hneg, -⟩ | ⟨hg', -⟩)
        · refine ⟨hsmall, fun _ => ⟨fun _ => hpositive, fun _ => ?_⟩⟩
          rw [← habs]
          exact hhalf.mpr (.inl hpositive)
        · exact absurd hneg hpositive.not_gt
        · exact absurd hg' htwo
    · have hneg : r < 0 := by
        refine lt_of_le_of_ne hnonpos ?_
        rintro rfl
        rw [abs_zero, mul_zero] at hle
        exact absurd hpos hle.not_gt
      constructor
      · rintro ⟨-, hfit⟩
        refine .inr (.inl ⟨hg, hneg, lt_of_le_of_ne hle ?_⟩)
        rintro heq
        exact absurd ((hfit hle).mp (hhalf.mpr (.inr heq.ge))) hnonpos.not_gt
      · rintro (⟨-, hle', -⟩ | ⟨-, -, hlt⟩ | ⟨hg', -⟩)
        · exact absurd (hpos.trans_le hle') (by linarith)
        · have hlong : ¬|angle| ≤ Real.pi := by
            rw [hhalf]
            rintro (hpositive | hlow)
            · exact absurd hpositive hnonpos.not_gt
            · exact absurd hlt hlow.not_gt
          refine ⟨?_, fun _ => ⟨fun h => absurd h hlong, fun h => absurd h hnonpos.not_gt⟩⟩
          linarith [not_le.mp hlong, Real.two_le_pi]
        · exact absurd hg' htwo

end

/-! ### Which blocks follow their circle -/

/-- An accepted arc has a plane, and offsets or a radius. -/
theorem exists_plane
    (h : emitArc (FloatMath.real c) b.g b.state (b.state.advance b.cmd) b.cmd = .ok insts) :
    ∃ p, Plane.ofCode b.state.plane = some p ∧
      (b.cmd.hasOffsets = true ∨ b.cmd.hasOffsets = false ∧ ∃ r : ℝ, b.cmd.r = some r) := by
  cases hp : Plane.ofCode b.state.plane with
  | none =>
      rw [emitArc_eq, planeAxes_eq, hp] at h
      cases h
  | some p =>
      refine ⟨p, rfl, ?_⟩
      cases hoffsets : b.cmd.hasOffsets with
      | true => exact .inl rfl
      | false =>
          refine .inr ⟨rfl, ?_⟩
          cases hr : b.cmd.r with
          | some r => exact ⟨r, rfl⟩
          | none =>
              have hnone : ¬(b.cmd.i.isSome || b.cmd.j.isSome || b.cmd.k.isSome) = true := by
                rw [show (b.cmd.i.isSome || b.cmd.j.isSome || b.cmd.k.isSome) = false from
                  hoffsets]
                exact Bool.false_ne_true
              obtain ⟨center, hcenter, -⟩ := (emitArc_real hp).mp h
              rw [calculateArcCenter, if_neg hnone, hr] at hcenter
              cases hcenter

/-- A block is accepted if it has a centre away from the start. -/
theorem exists_emitCommand {p : Plane} (hp : Plane.ofCode b.state.plane = some p) {center : ℂ}
    (hcenter : calculateArcCenter (FloatMath.real c) (p.axes b.start b.target) b.cmd
      b.state.plane = .ok (center.re, center.im))
    (hradius : 1 / 10 ^ 9 ≤ ‖p.point b.start - center‖) (out : Emitted (Platform.real c)) :
    ∃ insts, emitCommand (FloatMath.real c) b.cmd b.state out = .ok (out.extend insts) :=
  ⟨_, emitCommand_eq_ok_iff.mpr ((emitArc_real hp).mpr ⟨center, hcenter, hradius, rfl⟩)⟩

/-- An accepted arc block follows its circle iff its offsets lead to a circle through the
target, or its radius to one for which the direction of the block is the right one. -/
theorem followsCircle_iff {out : Emitted (Platform.real c)}
    {insts : List (Instruction (Platform.real c))}
    (h : emitCommand (FloatMath.real c) b.cmd b.state out = .ok (out.extend insts)) :
    b.FollowsCircle insts ↔ b.KeepsCircle := by
  rw [emitCommand_eq_ok_iff] at h
  constructor
  · intro hfollows
    obtain ⟨p, hp, hoffsets | ⟨hoffsets, r, hr⟩⟩ := exists_plane h
    · obtain ⟨hchord, angle, hlow, hhigh, hturn⟩ :=
        (followsCircle_iff_offsets hp hoffsets h).mp hfollows
      exact .offsets hp hoffsets hchord hlow hhigh hturn
    · obtain ⟨hchord, hcases⟩ := (followsCircle_iff_radius hp hoffsets hr h).mp hfollows
      rcases hcases with hlong | ⟨hg, hle, hsmall⟩ | ⟨hg, hneg, hlt⟩ | ⟨hg, hpos, heq⟩
      · exact .diameter hp hoffsets hr hchord hlong
      · exact .shorter hp hoffsets hr hg hchord hle hsmall
      · exact .longer hp hoffsets hr hg hneg hchord hlt
      · exact .half hp hoffsets hr hg hpos hchord heq
  · intro hkeeps
    cases hkeeps with
    | offsets hp hoffsets hchord hlow hhigh hturn =>
        exact (followsCircle_iff_offsets hp hoffsets h).mpr ⟨hchord, _, hlow, hhigh, hturn⟩
    | diameter hp hoffsets hr hchord hlong =>
        exact (followsCircle_iff_radius hp hoffsets hr h).mpr ⟨hchord, .inl hlong⟩
    | shorter hp hoffsets hr hg hchord hle hsmall =>
        exact (followsCircle_iff_radius hp hoffsets hr h).mpr
          ⟨hchord, .inr (.inl ⟨hg, hle, hsmall⟩)⟩
    | longer hp hoffsets hr hg hneg hchord hlt =>
        exact (followsCircle_iff_radius hp hoffsets hr h).mpr
          ⟨hchord, .inr (.inr (.inl ⟨hg, hneg, hlt⟩))⟩
    | half hp hoffsets hr hg hpos hchord heq =>
        exact (followsCircle_iff_radius hp hoffsets hr h).mpr
          ⟨hchord, .inr (.inr (.inr ⟨hg, hpos, heq⟩))⟩

/-- `G3 X2 I1` from the origin. -/
noncomputable def halfCircle : ArcBlock false where
  state := .new
  cmd := { GCodeCommand.ofCodes (some 3) none 1 with x := some ((2 : ℕ) : ℝ), i := some (1 : ℝ) }
  g := 3
  kind := rfl
  code := rfl
  arc := .inr rfl

/-- `G2 X1 Y1 R1` from the origin. -/
noncomputable def quarterCircle : ArcBlock false where
  state := .new
  cmd := { GCodeCommand.ofCodes (some 2) none 1 with
    x := some (1 : ℝ), y := some (1 : ℝ), r := some (1 : ℝ) }
  g := 2
  kind := rfl
  code := rfl
  arc := .inl rfl

theorem halfCircle_points : Plane.xy.point halfCircle.start = 0 ∧
    Plane.xy.point halfCircle.target = 2 ∧
      Plane.xy.point halfCircle.start + Plane.xy.offset halfCircle.cmd = 1 := by
  have hzero : (FloatOps.real.zero : ℝ) = 0 := FloatOps.real_zero
  refine ⟨Complex.ext hzero hzero, Complex.ext ?_ ?_, Complex.ext ?_ ?_⟩
  · exact Nat.cast_ofNat
  · exact hzero
  · exact (congrArg (· + (1 : ℝ)) hzero).trans (zero_add 1)
  · exact (congrArg (· + (0 : ℝ)) hzero).trans (zero_add 0)

theorem halfCircle_keeps : halfCircle.KeepsCircle := by
  obtain ⟨hstart, htarget, hcenter⟩ := halfCircle_points
  have hpi := Real.two_le_pi
  have hthree : ¬halfCircle.g = 2 := by decide
  refine .offsets (p := .xy) rfl rfl (.inr ?_) (show (1 : ℝ) / 10 ^ 9 ≤ Real.pi from ?_)
    (by linarith) ?_
  · rw [Plane.chord, hstart, htarget, sub_zero]
    norm_num
  · linarith
  · rw [hcenter, hstart, htarget, if_neg hthree, turned, Complex.exp_pi_mul_I]
    norm_num

/-- A half circle. -/
theorem halfCircle_follows : ∃ insts,
    emitCommand (FloatMath.real false) halfCircle.cmd halfCircle.state ⟨[], []⟩ =
      .ok (Emitted.extend ⟨[], []⟩ insts) ∧ halfCircle.FollowsCircle insts := by
  obtain ⟨hstart, -, hcenter⟩ := halfCircle_points
  have hradius : 1 / 10 ^ 9 ≤ ‖Plane.xy.point halfCircle.start -
      (Plane.xy.point halfCircle.start + Plane.xy.offset halfCircle.cmd)‖ := by
    rw [hcenter, hstart]
    norm_num
  obtain ⟨insts, haccepted⟩ := exists_emitCommand (b := halfCircle) (p := .xy) rfl
    (center_of_offsets (p := .xy) rfl rfl _ _) hradius ⟨[], []⟩
  exact ⟨insts, haccepted, (followsCircle_iff haccepted).mpr halfCircle_keeps⟩

theorem quarterCircle_chord :
    Plane.xy.chord quarterCircle.start quarterCircle.target = √2 := by
  have hzero : (FloatOps.real.zero : ℝ) = 0 := FloatOps.real_zero
  have hstart : Plane.xy.point quarterCircle.start = 0 := Complex.ext hzero hzero
  have htarget : Plane.xy.point quarterCircle.target = ⟨1, 1⟩ := rfl
  rw [Plane.chord, hstart, htarget, norm_eq_sqrt, Complex.zero_re, Complex.zero_im]
  norm_num

/-- The quarter of a circle is not taken: `G2` goes the long way round. -/
theorem quarterCircle_not_follows : ∃ insts,
    emitCommand (FloatMath.real false) quarterCircle.cmd quarterCircle.state ⟨[], []⟩ =
      .ok (Emitted.extend ⟨[], []⟩ insts) ∧ ¬quarterCircle.FollowsCircle insts := by
  have hchord := quarterCircle_chord
  have hone : 1 < √2 := by
    rw [Real.lt_sqrt zero_le_one]
    norm_num
  have htwo : √2 < 2 := by
    rw [Real.sqrt_lt' two_pos]
    norm_num
  have hoffsets : quarterCircle.cmd.hasOffsets = false := rfl
  have hcenter := (center_of_radius .xy quarterCircle.state.plane hoffsets (r := 1) rfl
    quarterCircle.start quarterCircle.target _).mpr
    ⟨by rw [hchord]; linarith, by rw [hchord, abs_one]; linarith, rfl⟩
  have hradius : 1 / 10 ^ 9 ≤ ‖Plane.xy.point quarterCircle.start -
      bisector (Plane.xy.point quarterCircle.start) (Plane.xy.point quarterCircle.target)
        (arcSide 1 (Plane.xy.chord quarterCircle.start quarterCircle.target))‖ := by
    rw [(norm_sub_bisector _ _ _).1, ← Plane.chord, chord_mul_arcSide
      (by rw [hchord]; linarith) (by rw [hchord, abs_one]; linarith), abs_one]
    norm_num
  obtain ⟨insts, haccepted⟩ := exists_emitCommand (b := quarterCircle) rfl hcenter hradius
    ⟨[], []⟩
  refine ⟨insts, haccepted, ?_⟩
  rw [followsCircle_iff_radius (b := quarterCircle) (p := .xy) rfl rfl (r := 1) rfl
    (emitCommand_eq_ok_iff.mp haccepted), hchord, abs_one]
  rintro ⟨-, hlong | ⟨hg, -⟩ | ⟨hg, -⟩ | ⟨-, -, heq⟩⟩
  · linarith
  · exact absurd hg (by decide)
  · exact absurd hg (by decide)
  · linarith

end ArcBlock

end Weftik.GCode
