import Weftik.AxisGroup.Emit

/-!
# The Soft-Limit Program

For each axis with soft limits the program is to clamp the commanded position to the limits
and to set a fault flag, if the axis is homed and the position is outside. The skips do
nothing, and the register of the upper limit is also the one in which the skips load their
zero; so every scan sets the position to zero and the fault flag to true.

## Main definitions

* `Limits.program`: the generator.
* `Limits.scanWrites`: what a scan stores.
* `Limits.Enforced`: what the design says of a scan.

## Main results

* `Limits.scans_program`: a scan, as one update of the table.
* `Limits.enforced_iff`: when a scan enforces the limits, over exact arithmetic.
-/

namespace Weftik.AxisGroup

open Symbolic Table

variable {P : Platform}

namespace Limits

/-! ### The generator -/

/-! The registers. -/

def rPos : ℕ := 0
def rHomed : ℕ := 1
def rMin : ℕ := 2
def rMax : ℕ := 3
def rFault : ℕ := 4
def rScratch : ℕ := 5
def rZero : ℕ := 6
def rOne : ℕ := 7

/-- Emit the code of one axis. -/
def emitAxis (cfg : AxisGroupConfig P) (code : List (Instruction P)) (axis : AxisConfig P) :
    List (Instruction P) :=
  if !axis.softLimitEnable then code
  else
    let sig := cfg.signal axis.index
    let code := code ++ [.loadSignal rPos (sig "pos_cmd")]
    let code := code ++ [.loadSignal rHomed (sig "homed")]
    let code := code ++ copyReg rHomed rScratch rZero
    let code := code ++ cmpImm .eq rScratch (P.f64.lit 1 0) rMax
    let (code, skipIdx) := emitJumpIfNot code rScratch rMax
    -- the lower bound
    let code := code ++ [.loadImm rFault zeroImm]
    let code := code ++ [.loadImm rMin (.f64 axis.softLimitMin)]
    let code := code ++ cmpReg .lt rPos rMin rScratch rZero
    let (code, noLowerFault) := emitJumpIfNot code rScratch rMax
    let code := code ++ copyReg rMin rPos rZero
    let code := code ++ [.loadImm rFault oneImm]
    let code := patchJump code noLowerFault code.length
    -- the upper bound
    let code := code ++ [.loadImm rMax (.f64 axis.softLimitMax)]
    let code := code ++ cmpReg .gt rPos rMax rScratch rZero
    let (code, noUpperFault) := emitJumpIfNot code rScratch rMax
    let code := code ++ copyReg rMax rPos rZero
    let code := code ++ [.loadImm rFault oneImm]
    let code := patchJump code noUpperFault code.length
    let code := code ++ [.storeSignal (sig "pos_fault") rFault]
    let code := code ++ [.storeSignal (sig "pos_cmd") rPos]
    patchJump code skipIdx code.length

/-- The bindings of the signals of an axis. -/
def signalBindings (cfg : AxisGroupConfig P) (axis : AxisConfig P) : List SignalBinding :=
  if !axis.softLimitEnable then []
  else
    let pfx := cfg.signalPrefix axis.index
    [binding pfx "pos_cmd" .readWrite .f64, binding pfx "homed" .read .bool,
      binding pfx "pos_fault" .write .bool]

/-- `generate_soft_limits_program`. -/
def program (cfg : AxisGroupConfig P) : HalProgram P where
  name := "soft_limits_" ++ cfg.name
  signals := cfg.axes.flatMap (signalBindings cfg)
  instructions := cfg.axes.foldl (emitAxis cfg) (loadConstants rZero rOne) ++ [.halt]
  functionTable := []

/-! ### The program as the machine reads it -/

/-- The code of one axis, as the machine reads it. -/
def axisCode (cfg : AxisGroupConfig P) (axis : AxisConfig P) : List (Instruction P) :=
  (emitAxis cfg [] axis).map Instruction.bare

theorem map_bare_emitAxis (cfg : AxisGroupConfig P) (code : List (Instruction P))
    (axis : AxisConfig P) :
    (emitAxis cfg code axis).map Instruction.bare =
      code.map Instruction.bare ++ axisCode cfg axis := by
  cases h : axis.softLimitEnable with
  | false => simp only [axisCode, emitAxis, h, Bool.not_false, if_true, List.map_nil,
      List.append_nil]
  | true =>
      simp only [axisCode, emitAxis, h, Bool.not_true, Bool.false_eq_true, if_false,
        emitJumpIfNot, map_bare_patchJump, List.map_append, List.append_assoc,
        List.nil_append]

/-- What the code of an axis stores, in order. -/
def axisWrites (cfg : AxisGroupConfig P) (axis : AxisConfig P) :
    List (String × HalValue P) :=
  if !axis.softLimitEnable then []
  else
    [(cfg.signal axis.index "pos_fault", oneImm),
      (cfg.signal axis.index "pos_cmd", .f64 (P.f64.arith .add P.f64.zero P.f64.zero))]

/-- What a scan stores, in order. -/
def scanWrites (cfg : AxisGroupConfig P) : List (String × HalValue P) :=
  cfg.axes.flatMap (axisWrites cfg)

/-- The code of an axis clamps the position at both ends, whatever it is. -/
theorem axisCode_run (cfg : AxisGroupConfig P) (axis : AxisConfig P) (t : SignalTable P) :
    ∃ mid, (constants rZero rOne t).run (axisCode cfg axis) = some mid ∧
      mid.table = writes t (axisWrites cfg axis) ∧
      mid.regs rZero = some zeroImm ∧ mid.regs rOne = some oneImm := by
  cases h : axis.softLimitEnable with
  | false =>
      simp only [axisCode, axisWrites, emitAxis, h, Bool.not_false, if_true, List.map_nil]
      exact ⟨_, rfl, rfl, rfl, rfl⟩
  | true =>
      simp only [axisCode, axisWrites, emitAxis, h, Bool.not_true, Bool.false_eq_true, if_false,
        emitJumpIfNot, map_bare_patchJump, List.map_append, List.append_assoc,
        List.nil_append]
      exact ⟨_, rfl, rfl, rfl, rfl⟩

/-- The program without its `Halt`, as the machine reads it. -/
def body (cfg : AxisGroupConfig P) : List (Instruction P) :=
  loadConstants rZero rOne ++ cfg.axes.flatMap (axisCode cfg)

theorem map_bare_program (cfg : AxisGroupConfig P) :
    (program cfg).instructions.map Instruction.bare = body cfg ++ [.halt] := by
  rw [program, List.map_append, map_bare_foldl (map_bare_emitAxis cfg)]
  rfl

/-- The whole program clamps every axis that has soft limits. -/
theorem body_takes (cfg : AxisGroupConfig P) (pc : ℕ) (t : SignalTable P) :
    Takes pc (body cfg) (onlyTable t)
      (constants rZero rOne (writes t (scanWrites cfg))) :=
  takes_axes (fun _ => takes_of_constants ⟨_, rfl, rfl, rfl, rfl⟩)
    (fun axis _ _ t => takes_of_constants (axisCode_run cfg axis t)) t

/-- A scan of the soft-limit program. -/
theorem scans_program (cfg : AxisGroupConfig P) (t t' : SignalTable P) :
    Scans (program cfg).instructions t t' ↔ t' = writes t (scanWrites cfg) := by
  rw [← scans_map_bare, map_bare_program]
  exact (body_takes cfg 0 t).scans t'

/-! ### What a scan enforces -/

/-- What the code of an axis leaves in the position of an axis. -/
theorem last_axisWrites_pos (cfg : AxisGroupConfig P) (axis : AxisConfig P) (i : UInt8) :
    last (axisWrites cfg axis) (cfg.signal i "pos_cmd") =
      if axis.softLimitEnable ∧ cfg.signal axis.index "pos_cmd" = cfg.signal i "pos_cmd" then
        some (.f64 (P.f64.arith .add P.f64.zero P.f64.zero))
      else none := by
  have hne : cfg.signal axis.index "pos_fault" ≠ cfg.signal i "pos_cmd" :=
    cfg.signal_ne (by decide) (by decide) (by decide) _ _
  cases h : axis.softLimitEnable <;> simp [axisWrites, h, hne]

/-- What the code of an axis leaves in the fault flag of an axis. -/
theorem last_axisWrites_fault (cfg : AxisGroupConfig P) (axis : AxisConfig P) (i : UInt8) :
    last (axisWrites cfg axis) (cfg.signal i "pos_fault") =
      if axis.softLimitEnable ∧
          cfg.signal axis.index "pos_fault" = cfg.signal i "pos_fault" then
        some oneImm
      else none := by
  have hne : cfg.signal axis.index "pos_cmd" ≠ cfg.signal i "pos_fault" :=
    cfg.signal_ne (by decide) (by decide) (by decide) _ _
  cases h : axis.softLimitEnable <;> simp [axisWrites, h, hne]

section

variable {cfg : AxisGroupConfig P} {axis : AxisConfig P}

/-- After a scan the position of an axis with soft limits is the sum of two zeros. -/
theorem scanWrites_pos (haxis : axis ∈ cfg.axes) (henable : axis.softLimitEnable = true)
    (t : SignalTable P) :
    writes t (scanWrites cfg) (cfg.signal axis.index "pos_cmd") =
      some (.f64 (P.f64.arith .add P.f64.zero P.f64.zero)) := by
  have hlast : last (scanWrites cfg) (cfg.signal axis.index "pos_cmd") =
      some (.f64 (P.f64.arith .add P.f64.zero P.f64.zero)) := by
    refine last_flatMap (fun other _ => ?_) haxis ?_
    · rw [last_axisWrites_pos]
      split
      · exact Or.inr rfl
      · exact Or.inl rfl
    · rw [last_axisWrites_pos, if_pos ⟨henable, rfl⟩]
  rw [writes_apply, hlast, Option.some_or]

/-- After a scan the fault flag of an axis with soft limits is set. -/
theorem scanWrites_fault (haxis : axis ∈ cfg.axes) (henable : axis.softLimitEnable = true)
    (t : SignalTable P) :
    writes t (scanWrites cfg) (cfg.signal axis.index "pos_fault") = some oneImm := by
  have hlast : last (scanWrites cfg) (cfg.signal axis.index "pos_fault") =
      some oneImm := by
    refine last_flatMap (fun other _ => ?_) haxis ?_
    · rw [last_axisWrites_fault]
      split
      · exact Or.inr rfl
      · exact Or.inl rfl
    · rw [last_axisWrites_fault, if_pos ⟨henable, rfl⟩]
  rw [writes_apply, hlast, Option.some_or]

end

/-- The position within the limits that is closest to the given one. -/
def clamp (lo hi x : ℚ) : ℚ := max lo (min x hi)

/-- The lower limit of an axis. -/
abbrev lowerLimit (axis : AxisConfig Platform.exact) : ℚ := axis.softLimitMin

/-- The upper limit of an axis. -/
abbrev upperLimit (axis : AxisConfig Platform.exact) : ℚ := axis.softLimitMax

/-- The commanded position of an axis. -/
abbrev posOf (cfg : AxisGroupConfig Platform.exact) (t : SignalTable Platform.exact)
    (axis : AxisConfig Platform.exact) : Option (HalValue Platform.exact) :=
  t (cfg.signal axis.index "pos_cmd")

/-- The fault flag of an axis. -/
abbrev faultOf (cfg : AxisGroupConfig Platform.exact) (t : SignalTable Platform.exact)
    (axis : AxisConfig Platform.exact) : Option (HalValue Platform.exact) :=
  t (cfg.signal axis.index "pos_fault")

/-- The position is outside the limits of the axis. -/
def Outside (axis : AxisConfig Platform.exact) (x : ℚ) : Prop :=
  x < lowerLimit axis ∨ upperLimit axis < x

/-- What one scan is to do with the table, for each axis with soft limits. -/
structure Enforced (cfg : AxisGroupConfig Platform.exact)
    (t t' : SignalTable Platform.exact) : Prop where
  /-- A homed axis is clamped, and its fault flag says whether it was outside. -/
  homed : ∀ axis ∈ cfg.axes, axis.softLimitEnable = true → Homed cfg t axis →
    ∀ x : ℚ, posOf cfg t axis = some (.f64 x) →
      posOf cfg t' axis = some (.f64 (clamp (lowerLimit axis) (upperLimit axis) x)) ∧
        (IsTrue (faultOf cfg t' axis) ↔ Outside axis x)
  /-- An axis that is not homed is left alone. -/
  notHomed : ∀ axis ∈ cfg.axes, axis.softLimitEnable = true → ¬Homed cfg t axis →
    posOf cfg t' axis = posOf cfg t axis ∧ faultOf cfg t' axis = faultOf cfg t axis

/-- The position is outside, and the limit next to it is zero. -/
def BeyondZeroLimit (axis : AxisConfig Platform.exact) (x : ℚ) : Prop :=
  (x < lowerLimit axis ∧ lowerLimit axis = 0) ∨ (upperLimit axis < x ∧ upperLimit axis = 0)

/-- The table already holds what the scan sets: the position of an axis is zero and its
fault flag is `1.0`. -/
def AlreadyFaulted (cfg : AxisGroupConfig Platform.exact) (t : SignalTable Platform.exact)
    (axis : AxisConfig Platform.exact) : Prop :=
  posOf cfg t axis = some (.f64 (0 : ℚ)) ∧ faultOf cfg t axis = some oneImm

theorem clamp_eq_zero_iff {lo hi x : ℚ} (h : lo ≤ hi) :
    (clamp lo hi x = 0 ∧ (x < lo ∨ hi < x)) ↔ (x < lo ∧ lo = 0) ∨ (hi < x ∧ hi = 0) := by
  rw [clamp]
  constructor
  · rintro ⟨hzero, hlow | hhigh⟩
    · have hmin : min x hi = x := min_eq_left (hlow.le.trans h)
      rw [hmin, max_eq_left hlow.le] at hzero
      exact Or.inl ⟨hlow, hzero⟩
    · have hmin : min x hi = hi := min_eq_right hhigh.le
      rw [hmin, max_eq_right h] at hzero
      exact Or.inr ⟨hhigh, hzero⟩
  · rintro (⟨hlow, hzero⟩ | ⟨hhigh, hzero⟩)
    · have hmin : min x hi = x := min_eq_left (hlow.le.trans h)
      rw [hmin, max_eq_left hlow.le]
      exact ⟨hzero, Or.inl hlow⟩
    · have hmin : min x hi = hi := min_eq_right hhigh.le
      rw [hmin, max_eq_right h]
      exact ⟨hzero, Or.inr hhigh⟩

/-- A scan enforces the limits exactly when zero and a set flag are the right values for
every axis with soft limits. -/
theorem enforced_iff (cfg : AxisGroupConfig Platform.exact)
    (hlimits : ∀ axis ∈ cfg.axes, lowerLimit axis ≤ upperLimit axis)
    (t : SignalTable Platform.exact) :
    (∀ t', Scans (program cfg).instructions t t' → Enforced cfg t t') ↔
      ∀ axis ∈ cfg.axes, axis.softLimitEnable = true →
        (Homed cfg t axis →
          ∀ x : ℚ, posOf cfg t axis = some (.f64 x) → BeyondZeroLimit axis x) ∧
        (¬Homed cfg t axis → AlreadyFaulted cfg t axis) := by
  have hzero : Platform.exact.f64.arith .add Platform.exact.f64.zero Platform.exact.f64.zero =
      (0 : ℚ) := by
    change ((0 : ℕ) : ℚ) / 10 ^ 0 + ((0 : ℕ) : ℚ) / 10 ^ 0 = 0
    simp
  constructor
  · intro h axis haxis henable
    have henforced := h _ ((scans_program cfg t _).mpr rfl)
    have hpos := scanWrites_pos haxis henable t
    have hfault := scanWrites_fault haxis henable t
    rw [hzero] at hpos
    constructor
    · intro hhomed x hx
      obtain ⟨hclamp, hflag⟩ := henforced.homed axis haxis henable hhomed x hx
      refine (clamp_eq_zero_iff (hlimits axis haxis)).mp ⟨?_, hflag.mp (Or.inr hfault)⟩
      exact (HalValue.f64.inj (Option.some.inj (hpos.symm.trans hclamp))).symm
    · intro hhomed
      obtain ⟨hsame, hsameFault⟩ := henforced.notHomed axis haxis henable hhomed
      exact ⟨hsame.symm.trans hpos, hsameFault.symm.trans hfault⟩
  · intro h t' hscan
    obtain rfl := (scans_program cfg t t').mp hscan
    refine ⟨?_, ?_⟩
    · intro axis haxis henable hhomed x hx
      have hpos := scanWrites_pos haxis henable t
      rw [hzero] at hpos
      obtain ⟨hclamp, houtside⟩ := (clamp_eq_zero_iff (hlimits axis haxis)).mpr
        ((h axis haxis henable).1 hhomed x hx)
      refine ⟨?_, fun _ => houtside, fun _ => Or.inr (scanWrites_fault haxis henable t)⟩
      rw [hclamp]
      exact hpos
    · intro axis haxis henable hhomed
      have hpos := scanWrites_pos haxis henable t
      rw [hzero] at hpos
      obtain ⟨hold, holdFault⟩ := (h axis haxis henable).2 hhomed
      exact ⟨hpos.trans hold.symm, (scanWrites_fault haxis henable t).trans holdFault.symm⟩

/-- The first axis of the default group is homed, and is to go to 500, in the middle of its
limits. -/
def homedAt500 : SignalTable Platform.exact := fun name =>
  if name = xyz.signal 0 "homed" then some (.bool true) else some (.f64 (500 : ℚ))

/-- The first axis of the default group. -/
def axisX : AxisConfig Platform.exact := .linear 0

theorem axisX_mem : axisX ∈ xyz.axes := List.mem_cons_self

theorem homed_homedAt500 : Homed xyz homedAt500 axisX :=
  Or.inl (if_pos rfl)

theorem posOf_homedAt500 : posOf xyz homedAt500 axisX = some (.f64 (500 : ℚ)) :=
  if_neg (xyz.signal_ne (by decide) (by decide) (by decide) _ _)

/-- A position within the limits is not left alone. -/
theorem enforced_fails_at_500 :
    ¬∀ t', Scans (program xyz).instructions homedAt500 t' → Enforced xyz homedAt500 t' := by
  intro h
  have henforced := h _ ((scans_program xyz homedAt500 _).mpr rfl)
  obtain ⟨-, hfault⟩ :=
    henforced.homed axisX axisX_mem rfl homed_homedAt500 500 posOf_homedAt500
  have hset := scanWrites_fault axisX_mem rfl homedAt500
  have hnot : ¬Outside axisX 500 := by
    rintro (h | h)
    · change (500 : ℚ) < ((0 : ℕ) : ℚ) / 10 ^ 0 at h
      simp at h
      exact absurd h (by decide)
    · change ((1000 : ℕ) : ℚ) / 10 ^ 0 < (500 : ℚ) at h
      simp at h
      exact absurd h (by decide)
  exact hnot (hfault.mp (Or.inr hset))

theorem enforced_iff_at_500 :
    (∀ t', Scans (program xyz).instructions homedAt500 t' → Enforced xyz homedAt500 t') ↔
      ∀ axis ∈ xyz.axes, axis.softLimitEnable = true →
        (Homed xyz homedAt500 axis →
          ∀ x : ℚ, posOf xyz homedAt500 axis = some (.f64 x) → BeyondZeroLimit axis x) ∧
        (¬Homed xyz homedAt500 axis → AlreadyFaulted xyz homedAt500 axis) := by
  refine enforced_iff xyz ?_ homedAt500
  have hlinear : ∀ i, lowerLimit (.linear i) ≤ upperLimit (.linear i) := by
    intro i
    change ((0 : ℕ) : ℚ) / 10 ^ 0 ≤ ((1000 : ℕ) : ℚ) / 10 ^ 0
    simp
  intro axis haxis
  simp only [xyz, AxisGroupConfig.defaultXyz, List.mem_cons, List.not_mem_nil, or_false]
    at haxis
  rcases haxis with rfl | rfl | rfl <;> exact hlinear _

end Limits

end Weftik.AxisGroup
