import Weftik.GCode.Interpreter
import Weftik.Lib.Turns
import Weftik.Real

/-!
# The Arcs of the Compiler over Real Arithmetic

Over real arithmetic an arc is a turn about its centre: each point of the chain that the compiler
stores is the start turned by a share of the angle of the arc, and the third axis goes on by the
same share. The offsets put the centre anywhere, and a radius puts it on the bisector of the
chord.

## Main definitions

* `Plane`: the planes, with the order of their axes.
* `pathCode`: the code that stores the points of a path.
* `arcAngle`, `arcPath`: the angle of an arc, and its points.

## Main results

* `emitArc_real`: what the code of an arc is.
* `center_of_offsets`, `center_of_radius`: where the centre is.
-/

open Turns

namespace Weftik.GCode

open Motion Outcome

variable {P : Platform}

/-! ### Planes -/

/-- The planes of an arc. -/
inductive Plane
  | xy | zx | yz
  deriving DecidableEq, Repr

/-- The plane that a modal word selects. -/
def Plane.ofCode (plane : ℕ) : Option Plane :=
  if plane = 17 then some .xy else if plane = 18 then some .zx else if plane = 19 then some .yz
  else none

/-- The first axis of a plane. -/
def Plane.first : Plane → Axis
  | .xy => .x
  | .zx => .z
  | .yz => .y

/-- The second axis of a plane. -/
def Plane.second : Plane → Axis
  | .xy => .y
  | .zx => .x
  | .yz => .z

/-- The axis that is not in the plane. -/
def Plane.third : Plane → Axis
  | .xy => .z
  | .zx => .y
  | .yz => .x

/-- The name of an axis. -/
def Axis.name : Axis → String
  | .x => "axis.0"
  | .y => "axis.1"
  | .z => "axis.2"

/-- The position with given coordinates in the plane, and a third one. -/
def Plane.place (p : Plane) (a b l : P.F64) : Position P :=
  match p with
  | .xy => ⟨a, b, l⟩
  | .zx => ⟨b, l, a⟩
  | .yz => ⟨l, a, b⟩

@[simp] theorem Plane.place_first (p : Plane) (a b l : P.F64) :
    coord (p.place a b l) p.first = a := by
  cases p <;> rfl

@[simp] theorem Plane.place_second (p : Plane) (a b l : P.F64) :
    coord (p.place a b l) p.second = b := by
  cases p <;> rfl

@[simp] theorem Plane.place_third (p : Plane) (a b l : P.F64) :
    coord (p.place a b l) p.third = l := by
  cases p <;> rfl

theorem Plane.place_coord (p : Plane) (pos : Position P) :
    p.place (coord pos p.first) (coord pos p.second) (coord pos p.third) = pos := by
  cases p <;> rfl

/-- The axes of an arc, in the order of its plane. -/
def Plane.axes (p : Plane) (start target : Position P) : PlaneAxes P :=
  ⟨coord start p.first, coord start p.second, coord start p.third, coord target p.first,
    coord target p.second, coord target p.third, p.first.name, p.second.name, p.third.name⟩

theorem planeAxes_eq (prev next : ModalState P) :
    planeAxes prev next =
      (Plane.ofCode prev.plane).map fun p => p.axes prev.position next.position := by
  rw [planeAxes, Plane.ofCode]
  split
  · rfl
  · split
    · rfl
    · split <;> rfl

/-! ### Paths -/

/-- The stores of a position, in the order of a plane. -/
def pointCode (p : Plane) (pos : Position P) : List (Instruction P) :=
  [p.first, p.second, p.third].flatMap fun a =>
    [.loadImm regPosX (.f64 (coord pos a)), .storeSignal (a.name ++ ".pos") regPosX,
      .storeSignal (a.name ++ ".enable") regStep]

/-- The stores of a path, one position after the other, and nothing for no path. -/
def pathCode (p : Plane) (path : List (Position P)) : List (Instruction P) :=
  if path = [] then [] else .loadImm regStep (.bool true) :: path.flatMap (pointCode p)

theorem arcSegment_eq (p : Plane) (start target : Position P) (a b l : P.F64) :
    arcSegment (p.axes start target) a b l = pointCode p (p.place a b l) := by
  cases p <;> rfl

theorem length_pointCode (p : Plane) (pos : Position P) : (pointCode p pos).length = 9 := by
  cases p <;> rfl

/-- The stores of a position show where it is. -/
theorem pointCode_inj {p : Plane} {pos pos' : Position P} (h : pointCode p pos = pointCode p pos') :
    pos = pos' := by
  have hfirst := congrArg (fun code => code[0]?) h
  have hsecond := congrArg (fun code => code[3]?) h
  have hthird := congrArg (fun code => code[6]?) h
  have hinj : ∀ {v v' : P.F64}, some (Instruction.loadImm regPosX (.f64 v) : Instruction P) =
      some (Instruction.loadImm regPosX (.f64 v')) → v = v' := by
    intro v v' hv
    have hops := congrArg Instruction.operands (Option.some.inj hv)
    simp only [Instruction.loadImm, List.cons.injEq] at hops
    simpa using hops
  rw [← p.place_coord pos, ← p.place_coord pos', hinj hfirst, hinj hsecond, hinj hthird]

/-- The code of a path shows its points. -/
theorem pathCode_inj {p : Plane} {path path' : List (Position P)}
    (h : pathCode p path = pathCode p path') : path = path' := by
  have hpoints : ∀ {path path' : List (Position P)},
      path.flatMap (pointCode p) = path'.flatMap (pointCode p) → path = path' := by
    intro path
    induction path with
    | nil =>
        intro path' h
        cases path' with
        | nil => rfl
        | cons pos path' =>
            have hlen := congrArg List.length h
            rw [List.flatMap_cons, List.length_append, length_pointCode] at hlen
            simp only [List.flatMap_nil, List.length_nil] at hlen
            omega
    | cons pos path ih =>
        intro path' h
        cases path' with
        | nil =>
            have hlen := congrArg List.length h
            rw [List.flatMap_cons, List.length_append, length_pointCode] at hlen
            simp only [List.flatMap_nil, List.length_nil] at hlen
            omega
        | cons pos' path' =>
            rw [List.flatMap_cons, List.flatMap_cons] at h
            obtain ⟨hpos, hrest⟩ := List.append_inj h
              ((length_pointCode p pos).trans (length_pointCode p pos').symm)
            rw [pointCode_inj hpos, ih hrest]
  rw [pathCode, pathCode] at h
  split at h
  · split at h
    · exact ‹path = []›.trans ‹path' = []›.symm
    · cases h
  · split at h
    · cases h
    · exact hpoints (List.cons.inj h).2

/-! ### The code about a centre -/

section

variable (M : FloatMath P)

/-- The greatest angle between two points of an arc. -/
def angularStep (radius : P.F64) : P.F64 :=
  if P.f64.gt radius chordTolerance then
    M.min (P.f64.mul (P.f64.lit 2 0) (M.acos
      (P.f64.sub (P.f64.lit 1 0) (P.f64.div chordTolerance radius)))) (maxAngularStep M)
  else maxAngularStep M

/-- The number of points of an arc. -/
def numSegments (radius sweep : P.F64) : ℕ :=
  max (M.asU32 (M.ceil (P.f64.div (M.abs sweep) (angularStep M radius)))).toNat 1

/-- The stores of the point of an arc with a number. -/
def segmentAt (a : PlaneAxes P) (centerA centerB radius startAngle sweep : P.F64) (n k : ℕ) :
    List (Instruction P) :=
  let count := M.ofU32 (UInt32.ofNat n)
  let step := M.ofU32 (UInt32.ofNat (k + 1))
  let angle := P.f64.add startAngle (P.f64.mul step (P.f64.div sweep count))
  arcSegment a (P.f64.add centerA (P.f64.mul radius (M.cos angle)))
    (P.f64.add centerB (P.f64.mul radius (M.sin angle)))
    (P.f64.add a.startLinear
      (P.f64.mul step (P.f64.div (P.f64.sub a.endLinear a.startLinear) count)))

/-- The code of an arc with a radius, from one direction to another. -/
def turnCode (g : ℕ) (a : PlaneAxes P) (line : ℕ) (center : P.F64 × P.F64)
    (radius startAngle endAngle : P.F64) : Except UnsupportedCommand (List (Instruction P)) :=
  if P.f64.lt radius (P.f64.lit 1 9) then .error ⟨line, "zero-radius arc"⟩
  else
    let sweep := arcSweep M g a startAngle endAngle
    if P.f64.lt (M.abs sweep) (P.f64.lit 1 9) then .ok []
    else .ok (.loadImm regStep (.bool true) ::
      (List.range (numSegments M radius sweep)).flatMap
        (segmentAt M a center.1 center.2 radius startAngle sweep (numSegments M radius sweep)))

/-- The code of an arc about a centre. -/
def arcCode (g : ℕ) (a : PlaneAxes P) (line : ℕ) (center : P.F64 × P.F64) :
    Except UnsupportedCommand (List (Instruction P)) :=
  let offA := P.f64.sub a.startA center.1
  let offB := P.f64.sub a.startB center.2
  turnCode M g a line center (M.sqrt (P.f64.add (M.square offA) (M.square offB)))
    (M.atan2 offB offA) (M.atan2 (P.f64.sub a.endB center.2) (P.f64.sub a.endA center.1))

theorem emitArc_eq (g : ℕ) (prev next : ModalState P) (cmd : GCodeCommand P) :
    emitArc M g prev next cmd =
      match planeAxes prev next with
      | none => .error ⟨cmd.line, "G" ++ toString g⟩
      | some a => (calculateArcCenter M a cmd prev.plane).bind (arcCode M g a cmd.line) :=
  rfl

end

/-! ### Real arithmetic -/

section

variable {c : Bool}

/-- The point of a position in a plane. -/
noncomputable def Plane.point (p : Plane) (pos : Position (Platform.real c)) : ℂ :=
  ⟨coord pos p.first, coord pos p.second⟩

/-- The position with a given point in a plane, and a third coordinate. -/
noncomputable def Plane.atPoint (p : Plane) (z : ℂ) (l : ℝ) : Position (Platform.real c) :=
  p.place z.re z.im l

/-- The length of the chord of two points. -/
noncomputable def Plane.chord (p : Plane) (start target : Position (Platform.real c)) : ℝ :=
  ‖p.point target - p.point start‖

/-- The square root of a sum of squares is the length of a chord. -/
theorem norm_eq_sqrt (z w : ℂ) : ‖z - w‖ = √((z.re - w.re) ^ 2 + (z.im - w.im) ^ 2) := by
  rw [Complex.norm_eq_sqrt_sq_add_sq, Complex.sub_re, Complex.sub_im]

/-- The step of an arc: the chord is at most the tolerance away from it. -/
noncomputable def arcStep (radius : ℝ) : ℝ :=
  if 5 / (10 : ℕ) ^ 3 < radius then
    min ((2 : ℕ) * Real.arccos (1 - 5 / (10 : ℕ) ^ 3 / radius)) (Real.pi / 6)
  else Real.pi / 6

theorem arcStep_eq (radius : ℝ) :
    arcStep radius = if 5 / 10 ^ 3 < radius then
      min (2 * Real.arccos (1 - 5 / 10 ^ 3 / radius)) (Real.pi / 6) else Real.pi / 6 := by
  simp only [arcStep, Nat.cast_ofNat]

/-- The number of points of an arc. -/
noncomputable def arcPoints (radius angle : ℝ) : ℕ := max (units (|angle| / arcStep radius)) 1

/-- The angle of an arc: a full turn for a chord that is taken for none, or else the turn from
the direction of the start to the one of the target. -/
noncomputable def arcAngle (g : ℕ) (center start target : ℂ) : ℝ :=
  if ‖target - start‖ < 1 / (10 : ℕ) ^ 6 then
    if g = 2 then -(2 : ℕ) * Real.pi else (2 : ℕ) * Real.pi
  else if g = 2 then cw (Complex.arg (target - center) - Complex.arg (start - center))
  else ccw (Complex.arg (target - center) - Complex.arg (start - center))

theorem arcAngle_eq (g : ℕ) (center start target : ℂ) :
    arcAngle g center start target = if ‖target - start‖ < 1 / 10 ^ 6 then
      if g = 2 then -2 * Real.pi else 2 * Real.pi
    else if g = 2 then cw (Complex.arg (target - center) - Complex.arg (start - center))
    else ccw (Complex.arg (target - center) - Complex.arg (start - center)) := by
  simp only [arcAngle, Nat.cast_ofNat]

/-- The points of a turn in equal steps, with the third axis in step. -/
noncomputable def arcPath (p : Plane) (start target : Position (Platform.real c)) (center : ℂ)
    (angle : ℝ) (n : ℕ) : List (Position (Platform.real c)) :=
  (List.range n).map fun k =>
    p.atPoint (turned center (p.point start) ((k + 1 : ℕ) * (angle / n)))
      (coord start p.third + (k + 1 : ℕ) * ((coord target p.third - coord start p.third) / n))

theorem arcPoints_pos (radius angle : ℝ) : 0 < arcPoints radius angle :=
  lt_of_lt_of_le one_pos (le_max_right _ _)

theorem arcPoints_lt (radius angle : ℝ) : arcPoints radius angle < 2 ^ 32 := by
  have hunits : units (|angle| / arcStep radius) ≤ 2 ^ 32 - 1 := min_le_right _ _
  rw [arcPoints]
  omega

/-- The points of the compiler are those of a turn. -/
theorem turned_coordinates (center start : ℂ) (angle : ℝ) :
    center.re + ‖start - center‖ * Real.cos (Complex.arg (start - center) + angle) =
        (turned center start angle).re ∧
      center.im + ‖start - center‖ * Real.sin (Complex.arg (start - center) + angle) =
        (turned center start angle).im := by
  have hpolar := turned_polar center start (Complex.arg (start - center) + angle)
  rw [add_sub_cancel_left] at hpolar
  rw [hpolar, Complex.add_re, Complex.add_im, Complex.re_ofReal_mul, Complex.im_ofReal_mul,
    Complex.exp_ofReal_mul_I_re, Complex.exp_ofReal_mul_I_im]
  exact ⟨rfl, rfl⟩

theorem angularStep_real (radius : ℝ) : angularStep (FloatMath.real c) radius = arcStep radius := by
  have htwo : FloatOps.real.lit 2 0 = 2 := by simp
  have hone : FloatOps.real.lit 1 0 = 1 := by simp
  have hsix : FloatOps.real.lit 6 0 = 6 := by simp
  have htolerance : chordTolerance (P := Platform.real c) = (5 / 10 ^ 3 : ℝ) := by
    rw [chordTolerance, FloatOps.real_lit, Nat.cast_ofNat]
  rw [angularStep, maxAngularStep, htolerance, FloatOps.real_gt, htwo, hone, hsix, arcStep_eq]
  by_cases h : (5 / 10 ^ 3 : ℝ) < radius
  · rw [if_pos (decide_eq_true h), if_pos h]
    rfl
  · rw [if_neg (by rw [decide_eq_false h]; exact Bool.false_ne_true), if_neg h]
    rfl

theorem numSegments_real (radius sweep : ℝ) :
    numSegments (FloatMath.real c) radius sweep = arcPoints radius sweep := by
  rw [numSegments, angularStep_real, arcPoints]
  exact congrArg (max · 1) (toNat_asU32_ceil c _)

/-- The angle that the compiler computes. -/
theorem arcSweep_real (g : ℕ) (p : Plane) (start target : Position (Platform.real c))
    (center : ℂ) :
    arcSweep (FloatMath.real c) g (p.axes start target)
        (Complex.arg (p.point start - center)) (Complex.arg (p.point target - center)) =
      arcAngle g center (p.point start) (p.point target) := by
  have htwo : FloatOps.real.lit 2 0 = 2 := by simp
  have hnorm := norm_eq_sqrt (p.point target) (p.point start)
  have hfull : FloatOps.real.lt ((FloatMath.real c).hypot
      (FloatOps.real.sub (coord target p.first) (coord start p.first))
      (FloatOps.real.sub (coord target p.second) (coord start p.second)))
        (FloatOps.real.lit 1 6) =
      decide (‖p.point target - p.point start‖ < 1 / 10 ^ 6) := by
    rw [FloatOps.real_lt, FloatOps.real_lit, Nat.cast_one, hnorm]
    rfl
  have hturn : FloatOps.real.mul (FloatOps.real.lit 2 0) (FloatMath.real c).pi =
      2 * Real.pi := by
    rw [htwo]
    rfl
  have hback : FloatOps.real.mul (FloatOps.real.neg (FloatOps.real.lit 2 0))
      (FloatMath.real c).pi = -2 * Real.pi := by
    rw [htwo]
    rfl
  unfold arcSweep
  simp only [Plane.axes, hfull, hturn, hback]
  simp only [FloatOps.real_gt, FloatOps.real_lt, FloatOps.real_zero, FloatOps.real_sub,
    FloatOps.real_add, decide_eq_true_eq, arcAngle_eq, cw, ccw]

/-- The stores of a point of an arc. -/
theorem segmentAt_real (p : Plane) (start target : Position (Platform.real c)) (center : ℂ)
    (angle : ℝ) {n k : ℕ} (hk : k < n) (hn : n < 2 ^ 32) :
    segmentAt (FloatMath.real c) (p.axes start target) center.re center.im
        ‖p.point start - center‖ (Complex.arg (p.point start - center)) angle n k =
      pointCode p (p.atPoint (turned center (p.point start) ((k + 1 : ℕ) * (angle / n)))
        (coord start p.third +
          (k + 1 : ℕ) * ((coord target p.third - coord start p.third) / n))) := by
  have hofU32 : ∀ m < 2 ^ 32, (FloatMath.real c).ofU32 (UInt32.ofNat m) = (m : ℝ) := by
    intro m hm
    have hm' : (UInt32.ofNat m).toNat = m := UInt32.toNat_ofNat_of_lt' hm
    exact congrArg (Nat.cast (R := ℝ)) hm'
  obtain ⟨hre, him⟩ :=
    turned_coordinates center (p.point start) ((k + 1 : ℕ) * (angle / n))
  rw [segmentAt, hofU32 n hn, hofU32 (k + 1) (by omega), arcSegment_eq, Plane.atPoint, ← hre,
    ← him]
  rfl

/-- The code of an arc about a centre. -/
theorem arcCode_real (g : ℕ) (p : Plane) (start target : Position (Platform.real c)) (line : ℕ)
    (center : ℂ) :
    arcCode (FloatMath.real c) g (p.axes start target) line (center.re, center.im) =
      if ‖p.point start - center‖ < 1 / 10 ^ 9 then .error ⟨line, "zero-radius arc"⟩
      else
        let angle := arcAngle g center (p.point start) (p.point target)
        if |angle| < 1 / 10 ^ 9 then .ok []
        else .ok (pathCode p (arcPath p start target center angle
          (arcPoints ‖p.point start - center‖ angle))) := by
  have hturn : arcCode (FloatMath.real c) g (p.axes start target) line (center.re, center.im) =
      turnCode (FloatMath.real c) g (p.axes start target) line (center.re, center.im)
        ‖p.point start - center‖ (Complex.arg (p.point start - center))
        (Complex.arg (p.point target - center)) := by
    rw [norm_eq_sqrt]
    rfl
  have hsmall : ∀ x : ℝ, FloatOps.real.lt x (FloatOps.real.lit 1 9) = decide (x < 1 / 10 ^ 9) := by
    intro x
    rw [FloatOps.real_lt, FloatOps.real_lit, Nat.cast_one]
  have habs : ∀ x : ℝ, (FloatMath.real c).abs x = |x| := fun x => rfl
  rw [hturn, turnCode]
  simp only [arcSweep_real, numSegments_real, habs, hsmall, decide_eq_true_eq]
  by_cases hradius : ‖p.point start - center‖ < 1 / 10 ^ 9
  · rw [if_pos hradius, if_pos hradius]
  rw [if_neg hradius, if_neg hradius]
  by_cases hangle : |arcAngle g center (p.point start) (p.point target)| < 1 / 10 ^ 9
  · rw [if_pos hangle, if_pos hangle]
  rw [if_neg hangle, if_neg hangle, pathCode, arcPath]
  have hpos := arcPoints_pos ‖p.point start - center‖
    (arcAngle g center (p.point start) (p.point target))
  have hlt := arcPoints_lt ‖p.point start - center‖
    (arcAngle g center (p.point start) (p.point target))
  generalize arcPoints ‖p.point start - center‖
    (arcAngle g center (p.point start) (p.point target)) = n at *
  have hne : (List.range n).map (fun k => p.atPoint (c := c) (turned center (p.point start)
      ((k + 1 : ℕ) * (arcAngle g center (p.point start) (p.point target) / n)))
      (coord start p.third +
        (k + 1 : ℕ) * ((coord target p.third - coord start p.third) / n))) ≠ [] := by
    rw [Ne, List.map_eq_nil_iff, List.range_eq_nil]
    exact hpos.ne'
  rw [if_neg hne, List.flatMap_map]
  refine congrArg (fun code => Except.ok (_ :: code)) (List.flatMap_congr fun k hk => ?_)
  exact segmentAt_real p start target center _ (List.mem_range.mp hk) hlt

variable {cmd : GCodeCommand (Platform.real c)}

/-- The code of an arc: none if its angle is taken for none, or else that of its path. -/
theorem emitArc_real {g : ℕ} {prev next : ModalState (Platform.real c)} {p : Plane}
    (hp : Plane.ofCode prev.plane = some p) {insts : List (Instruction (Platform.real c))} :
    emitArc (FloatMath.real c) g prev next cmd = .ok insts ↔
      ∃ center : ℂ, calculateArcCenter (FloatMath.real c)
          (p.axes prev.position next.position) cmd prev.plane = .ok (center.re, center.im) ∧
        1 / 10 ^ 9 ≤ ‖p.point prev.position - center‖ ∧
        insts =
          let angle := arcAngle g center (p.point prev.position) (p.point next.position)
          if |angle| < 1 / 10 ^ 9 then []
          else pathCode p (arcPath p prev.position next.position center angle
            (arcPoints ‖p.point prev.position - center‖ angle)) := by
  rw [emitArc_eq, planeAxes_eq, hp]
  change (calculateArcCenter (FloatMath.real c) (p.axes prev.position next.position) cmd
    prev.plane).bind (arcCode (FloatMath.real c) g (p.axes prev.position next.position)
      cmd.line) = .ok insts ↔ _
  cases hcenter : calculateArcCenter (FloatMath.real c)
      (p.axes prev.position next.position) cmd prev.plane with
  | error e =>
      simp only [Except.bind, reduceCtorEq, false_and, exists_false]
  | ok center =>
      obtain ⟨a, b⟩ := center
      have hcode := arcCode_real g p prev.position next.position cmd.line ⟨a, b⟩
      have hexists : ∀ Q : ℂ → Prop, (∃ center : ℂ,
          (Except.ok (a, b) : Except UnsupportedCommand (ℝ × ℝ)) =
            .ok (center.re, center.im) ∧ Q center) ↔ Q ⟨a, b⟩ := by
        intro Q
        constructor
        · rintro ⟨center, hcenter, hQ⟩
          obtain ⟨rfl, rfl⟩ := Prod.mk.inj (Except.ok.inj hcenter)
          exact hQ
        · exact fun hQ => ⟨⟨a, b⟩, rfl, hQ⟩
      refine Iff.trans ?_ (hexists _).symm
      rw [Except.bind]
      dsimp only
      rw [hcode]
      by_cases hradius : ‖p.point prev.position - ⟨a, b⟩‖ < 1 / 10 ^ 9
      · rw [if_pos hradius]
        constructor
        · intro h
          cases h
        · exact fun h => absurd hradius h.1.not_gt
      rw [if_neg hradius]
      dsimp only
      split
      · exact ⟨fun h => ⟨not_lt.mp hradius, (Except.ok.inj h).symm⟩, fun h => h.2 ▸ rfl⟩
      · exact ⟨fun h => ⟨not_lt.mp hradius, (Except.ok.inj h).symm⟩, fun h => h.2 ▸ rfl⟩

/-! ### Centres -/

/-- The block has an offset word. -/
def GCodeCommand.hasOffsets (cmd : GCodeCommand P) : Bool :=
  cmd.i.isSome || cmd.j.isSome || cmd.k.isSome

/-- The offset of the centre from the start, in the order of a plane. -/
def Plane.offset (p : Plane) (cmd : GCodeCommand (Platform.real c)) : ℂ :=
  match p with
  | .xy => ⟨cmd.i.getD (0 : ℝ), cmd.j.getD (0 : ℝ)⟩
  | .zx => ⟨cmd.k.getD (0 : ℝ), cmd.i.getD (0 : ℝ)⟩
  | .yz => ⟨cmd.j.getD (0 : ℝ), cmd.k.getD (0 : ℝ)⟩

/-- The centre from the offsets. -/
theorem center_of_offsets {p : Plane} {plane : ℕ} (hp : Plane.ofCode plane = some p)
    (h : cmd.hasOffsets = true) (start target : Position (Platform.real c)) :
    calculateArcCenter (FloatMath.real c) (p.axes start target) cmd plane =
      .ok ((p.point start + p.offset cmd).re, (p.point start + p.offset cmd).im) := by
  have hoffsets : (cmd.i.isSome || cmd.j.isSome || cmd.k.isSome) = true := h
  rw [calculateArcCenter, if_pos hoffsets]
  rw [Plane.ofCode] at hp
  split at hp
  · obtain rfl := Option.some.inj hp
    rw [if_pos ‹plane = 17›, Plane.offset, ← FloatOps.real_zero]
    rfl
  rw [if_neg ‹¬plane = 17›]
  split at hp
  · obtain rfl := Option.some.inj hp
    rw [if_pos ‹plane = 18›, Plane.offset, ← FloatOps.real_zero]
    rfl
  rw [if_neg ‹¬plane = 18›]
  split at hp
  · obtain rfl := Option.some.inj hp
    rw [if_pos ‹plane = 19›, Plane.offset, ← FloatOps.real_zero]
    rfl
  · cases hp

/-- How far the compiler puts the centre of a radius from the chord, in chords, to its left. -/
noncomputable def arcSide (r chord : ℝ) : ℝ :=
  (if 0 < r then 1 else -1) *
    √(max (|r| * |r| - chord / (2 : ℕ) * (chord / (2 : ℕ))) 0) / chord

theorem arcSide_eq (r chord : ℝ) : arcSide r chord =
    (if 0 < r then 1 else -1) * √(max (|r| * |r| - chord / 2 * (chord / 2)) 0) / chord := by
  simp only [arcSide, Nat.cast_ofNat]

/-- The centre from a radius. -/
theorem center_of_radius (p : Plane) (plane : ℕ) (h : cmd.hasOffsets = false) {r : ℝ}
    (hr : cmd.r = some r) (start target : Position (Platform.real c)) (center : ℂ) :
    calculateArcCenter (FloatMath.real c) (p.axes start target) cmd plane =
        .ok (center.re, center.im) ↔
      1 / 10 ^ 9 ≤ p.chord start target ∧ p.chord start target / 2 - 1 / 10 ^ 9 ≤ |r| ∧
        center = bisector (p.point start) (p.point target) (arcSide r (p.chord start target)) := by
  have hoffsets : ¬(cmd.i.isSome || cmd.j.isSome || cmd.k.isSome) = true := by
    rw [show (cmd.i.isSome || cmd.j.isSome || cmd.k.isSome) = false from h]
    exact Bool.false_ne_true
  rw [calculateArcCenter, if_neg hoffsets, hr]
  have hchord : (FloatMath.real c).sqrt (FloatOps.real.add
      (FloatOps.real.mul (FloatOps.real.sub (coord target p.first) (coord start p.first))
        (FloatOps.real.sub (coord target p.first) (coord start p.first)))
      (FloatOps.real.mul (FloatOps.real.sub (coord target p.second) (coord start p.second))
        (FloatOps.real.sub (coord target p.second) (coord start p.second)))) =
      p.chord start target := by
    rw [Plane.chord, norm_eq_sqrt, sq, sq]
    rfl
  dsimp only [Plane.axes]
  rw [hchord]
  have htwo : FloatOps.real.lit 2 0 = 2 := by simp
  have hone : FloatOps.real.lit 1 0 = 1 := by simp
  have hsign : (if FloatOps.real.gt r FloatOps.real.zero = true then FloatOps.real.lit 1 0
      else FloatOps.real.neg (FloatOps.real.lit 1 0)) = if 0 < r then (1 : ℝ) else -1 := by
    rw [FloatOps.real_gt, FloatOps.real_zero, hone]
    by_cases hpos : 0 < r
    · rw [if_pos (decide_eq_true hpos), if_pos hpos]
    · rw [if_neg (by rw [decide_eq_false hpos]; exact Bool.false_ne_true), if_neg hpos]
      rfl
  have hzero : FloatOps.real.lt (p.chord start target) (FloatOps.real.lit 1 9) =
      decide (p.chord start target < 1 / 10 ^ 9) := by
    rw [FloatOps.real_lt, FloatOps.real_lit, Nat.cast_one]
  have hsmall : FloatOps.real.lt ((FloatMath.real c).abs r)
      (FloatOps.real.sub (FloatOps.real.div (p.chord start target) (FloatOps.real.lit 2 0))
        (FloatOps.real.lit 1 9)) = decide (|r| < p.chord start target / 2 - 1 / 10 ^ 9) := by
    rw [FloatOps.real_lt, htwo, FloatOps.real_lit, Nat.cast_one]
    rfl
  rw [hzero, hsmall, hsign, htwo, FloatOps.real_zero]
  by_cases hlength : p.chord start target < 1 / 10 ^ 9
  · rw [if_pos (decide_eq_true hlength)]
    constructor
    · intro h
      cases h
    · exact fun h => absurd hlength h.1.not_gt
  by_cases hradius : |r| < p.chord start target / 2 - 1 / 10 ^ 9
  · rw [if_neg (by rw [decide_eq_false hlength]; exact Bool.false_ne_true),
      if_pos (decide_eq_true hradius)]
    constructor
    · intro h
      cases h
    · exact fun h => absurd hradius h.2.1.not_gt
  rw [if_neg (by rw [decide_eq_false hlength]; exact Bool.false_ne_true),
    if_neg (by rw [decide_eq_false hradius]; exact Bool.false_ne_true)]
  have hre := bisector_re (p.point start) (p.point target) (arcSide r (p.chord start target))
  have him := bisector_im (p.point start) (p.point target) (arcSide r (p.chord start target))
  rw [arcSide_eq] at hre him ⊢
  generalize bisector (p.point start) (p.point target) _ = z at *
  have hcenter : center = z ↔ center.re = z.re ∧ center.im = z.im := Complex.ext_iff
  rw [hcenter, hre, him]
  have hfirst : ∀ x x' y y' sign length offset : ℝ,
      (x + x') / 2 + sign * (-(y' - y) / length) * offset =
        (x + x') / 2 + sign * offset / length * -(y' - y) := fun _ _ _ _ _ _ _ => by ring
  have hsecond : ∀ x x' y y' sign length offset : ℝ,
      (y + y') / 2 + sign * ((x' - x) / length) * offset =
        (y + y') / 2 + sign * offset / length * (x' - x) := fun _ _ _ _ _ _ _ => by ring
  constructor
  · intro h
    obtain ⟨hA, hB⟩ := Prod.mk.inj (Except.ok.inj h)
    exact ⟨not_lt.mp hlength, not_lt.mp hradius, hA.symm.trans (hfirst _ _ _ _ _ _ _),
      hB.symm.trans (hsecond _ _ _ _ _ _ _)⟩
  · rintro ⟨-, -, hA, hB⟩
    exact congrArg Except.ok (Prod.ext ((hfirst _ _ _ _ _ _ _).trans hA.symm)
      ((hsecond _ _ _ _ _ _ _).trans hB.symm))

end

end Weftik.GCode
