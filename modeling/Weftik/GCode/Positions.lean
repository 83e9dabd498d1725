import Weftik.GCode.Stores
import Weftik.Motion.Travel

/-!
# The Positions at the End of a Program

A program of moves, run to its end, leaves the axes where the interpreter does only if none of
its linear moves has a longer profile than one of single cycles, and if the last line that
stores an axis stores its final coordinate: the compiler does not store a rapid move of the
second or the third axis to zero.

## Main definitions

* `EndsInPosition`: the run of the program ends, with the axes in the interpreter's position.
* `KeepsPosition`: the programs for which the stores keep up with the interpreter.

## Main results

* `endsInPosition_iff`: the two are the same.
-/

namespace Weftik.GCode

open Motion Symbolic Outcome Machine

variable {P : Platform} (M : FloatMath P)

/-- The axes show a position. -/
def ShowsPosition (t : SignalTable P) (pos : Position P) : Prop :=
  ∀ a : Axis, t a.posSignal = some (.f64 (coord pos a))

/-- The program is compiled, and a scan of it with the axes at the origin ends with the axes
where the interpreter goes. -/
def EndsInPosition (body : List (GCodeCommand P)) (last : GCodeCommand P) : Prop :=
  ∃ program, compileCommands M (body ++ [last]) ModalState.new = .ok program ∧
    ∀ t, ShowsPosition t Interpreter.powerOn.position →
      ∃ t', Scans program.instructions t t' ∧ ShowsPosition t' (interpret body)

/-- The profiles run their phases at most once, and an axis is stored last where it ends; an
axis that is never stored ends at zero. -/
structure KeepsPosition (body : List (GCodeCommand P)) : Prop where
  runOnce : MovesRunOnce M body ModalState.new
  arrives : ∀ a, (lastStored M a body ModalState.new).getD P.f64.zero = coord (interpret body) a

variable {M}

/-! ### The end of a program -/

/-- What the end of a program does before it halts. -/
def beforeHalt (cmd : GCodeCommand P) : List (Instruction P) :=
  if cmd.mCode = some 30 then storeImm (.bool false) ["spindle.cw", "spindle.ccw"] else []

variable {last : GCodeCommand P}

theorem emitProgramControl_eq (hlast : IsEnd last) :
    emitProgramControl last = beforeHalt last ++ [.halt] := by
  rw [emitProgramControl, if_pos hlast.code]
  rfl

theorem leads_beforeHalt (last : GCodeCommand P) (pc : ℕ) :
    Leads pc (beforeHalt last) (Stores fun _ => none) := by
  rw [beforeHalt]
  split
  · refine Leads.of_takes fun vm => ⟨_, takes_of_run rfl (.refl _), fun a => ?_⟩
    cases a <;> rfl
  · exact leads_nil (fun _ => rfl) pc

theorem leads_prelude (pc : ℕ) :
    Leads pc (prelude : List (Instruction P)) (Stores fun _ => none) :=
  Leads.of_takes fun _ => ⟨_, takes_of_run rfl (.refl _), fun _ => rfl⟩

/-! ### Whole programs -/

variable {body : List (GCodeCommand P)}

/-- A program whose linear moves run their phases once ends, and has stored what its lines
store. -/
theorem MovesRunOnce.scans (hcounts : CountsExactly M) (hbody : ∀ cmd ∈ body, IsPositioning cmd)
    (hlast : IsEnd last) (hruns : MovesRunOnce M body ModalState.new) :
    ∃ program, compileCommands M (body ++ [last]) ModalState.new = .ok program ∧
      ∀ t, ∃ t', Scans program.instructions t t' ∧
        Stores (fun a => lastStored M a body ModalState.new) t t' := by
  obtain ⟨insts, signals, hemit, hleads⟩ :=
    emitCommands_runs hcounts hbody hruns ⟨prelude, axisSignals⟩
  have hcode : compileCommands M (body ++ [last]) ModalState.new = .ok ⟨"gcode_program", signals,
      (prelude ++ (insts ++ beforeHalt last)) ++ [.halt], []⟩ := by
    rw [compileCommands, emitCommands_append, hemit]
    simp only [ok_bind, emitCommands, emitCommand, hlast.kind, emitProgramControl_eq hlast,
      Emitted.extend, pure_bind, List.append_assoc]
    rfl
  refine ⟨_, hcode, fun t => Leads.scans ?_ t⟩
  refine (leads_prelude 0).append ((hleads _).append (leads_beforeHalt last _)
    fun t t' t'' h h' => h.trans h') fun t t' t'' h h' a => ?_
  have hall := h.trans h' a
  simpa only [Option.or_none, Option.none_or] using hall

theorem KeepsPosition.endsInPosition (hcounts : CountsExactly M)
    (hbody : ∀ cmd ∈ body, IsPositioning cmd) (hlast : IsEnd last) (hkeeps : KeepsPosition M body) :
    EndsInPosition M body last := by
  obtain ⟨program, hprogram, hscans⟩ := hkeeps.runOnce.scans hcounts hbody hlast
  refine ⟨program, hprogram, fun t ht => ?_⟩
  obtain ⟨t', hscan, hstores⟩ := hscans t
  refine ⟨t', hscan, fun a => ?_⟩
  have hzero : coord (Interpreter.powerOn : Interpreter P).position a = P.f64.zero := by
    cases a <;> rfl
  rw [hstores.getD (ht a), hzero, hkeeps.arrives a]

theorem KeepsPosition.of_endsInPosition (hcounts : CountsExactly M)
    (hbody : ∀ cmd ∈ body, IsPositioning cmd) (hlast : IsEnd last)
    (hends : EndsInPosition M body last) : KeepsPosition M body := by
  obtain ⟨program, hprogram, hscans⟩ := hends
  -- one signal table with the axes at the origin is enough
  obtain ⟨t', hscan, hshows⟩ := hscans (fun _ => some (.f64 P.f64.zero)) fun a => by
    cases a <;> rfl
  have hruns : MovesRunOnce M body ModalState.new := by
    obtain ⟨vm, hexec, -⟩ := hscan
    exact movesRunOnce_of_exec hcounts hbody hprogram rfl hexec
  refine ⟨hruns, fun a => ?_⟩
  obtain ⟨program', hprogram', hscans'⟩ := hruns.scans hcounts hbody hlast
  obtain rfl := Except.ok.inj (hprogram.symm.trans hprogram')
  obtain ⟨t'', hscan', hstores⟩ := hscans' fun _ => some (.f64 P.f64.zero)
  obtain rfl := hscan.unique hscan'
  have hpos := (hstores.getD rfl).symm.trans (hshows a)
  exact HalValue.f64.inj (Option.some.inj hpos)

/-- A program of moves ends in the position of the interpreter iff its stores keep up with
it. -/
theorem endsInPosition_iff (hcounts : CountsExactly M) {body : List (GCodeCommand P)}
    {last : GCodeCommand P} (hbody : ∀ cmd ∈ body, IsPositioning cmd) (hlast : IsEnd last) :
    EndsInPosition M body last ↔ KeepsPosition M body :=
  ⟨KeepsPosition.of_endsInPosition hcounts hbody hlast,
    KeepsPosition.endsInPosition hcounts hbody hlast⟩

/-! ### Three programs -/

/-- Real arithmetic counts. -/
theorem countsExactly_real (c : Bool) : CountsExactly (FloatMath.real c) := by
  intro n
  have hsub : (Platform.real c).f64.sub ((FloatMath.real c).ofU32 n)
      ((Platform.real c).f64.lit 1 0) = (n.toNat : ℝ) - 1 := by
    change (n.toNat : ℝ) - ((1 : ℕ) : ℝ) / 10 ^ 0 = _
    norm_num
  rw [hsub, FloatOps.real_gt, FloatOps.real_zero, decide_eq_decide, sub_pos, Nat.one_lt_cast]

/-- The end of a program. -/
def programEnd : GCodeCommand P := .ofCodes none (some 2) 9

/-- A rapid move of the second axis. -/
def rapidY (y : P.F64) : GCodeCommand P := { GCodeCommand.ofCodes (some 0) none 1 with y := some y }

/-- A linear move of the first axis with a feed rate of 300. -/
def feedX (x : P.F64) : GCodeCommand P :=
  { GCodeCommand.ofCodes (some 1) none 1 with x := some x, f := some (P.f64.lit 300 0) }

theorem isEnd_programEnd : IsEnd (programEnd : GCodeCommand P) := ⟨rfl, Or.inl rfl⟩

/-- The profile of a move of a tenth of a unit with this feed rate. -/
noncomputable def tenth : TrapezoidalProfile (Platform.real true) where
  dx := 1 / (10 : ℕ)
  dy := 0
  dz := 0
  feedrate := 300
  acceleration := 500
  dt := 1 / (100 : ℕ)
  startX := 0
  startY := 0
  startZ := 0

theorem profileOf_feedX :
    profileOf ModalState.new (ModalState.new.advance (feedX (1 / 10 : ℝ))) = tenth := by
  simp only [profileOf, tenth, TrapezoidalProfile.mk.injEq]
  refine ⟨?_, ?_, ?_, ?_, ?_, ?_, ?_, ?_, ?_⟩
  · change (1 / 10 : ℝ) - FloatOps.real.zero = 1 / 10
    rw [FloatOps.real_zero, sub_zero]
  · exact sub_self _
  · exact sub_self _
  · change FloatOps.real.lit 300 0 = 300
    norm_num
  · change FloatOps.real.lit 500 0 = 500
    norm_num
  · rw [FloatOps.real_lit]
    norm_num
  · exact FloatOps.real_zero
  · exact FloatOps.real_zero
  · exact FloatOps.real_zero

theorem pathLength_tenth : tenth.pathLength = 1 / 10 := by
  rw [TrapezoidalProfile.pathLength]
  simp [tenth, Real.sqrt_sq]

theorem speed_tenth : tenth.speed = 5 := by
  rw [TrapezoidalProfile.speed]
  norm_num [tenth]

theorem cruiseLength_tenth : tenth.cruiseLength = 1 / 20 := by
  rw [TrapezoidalProfile.cruiseLength, pathLength_tenth, speed_tenth]
  norm_num [tenth]

/-- The acceleration takes one cycle. -/
theorem cyclesAccel_tenth : (tenth.cyclesAccel (FloatMath.real true)).toNat = 1 := by
  have hone : tenth.accelCycles = 1 := by
    rw [TrapezoidalProfile.accelCycles, speed_tenth]
    norm_num [tenth]
  rw [TrapezoidalProfile.toNat_cyclesAccel, hone]
  exact (units_eq_one_iff one_pos).mpr le_rfl

/-- So does the cruise. -/
theorem cyclesCruise_tenth : (tenth.cyclesCruise (FloatMath.real true)).toNat = 1 := by
  have hone : tenth.cruiseCycles = 1 := by
    rw [TrapezoidalProfile.cruiseCycles, cruiseLength_tenth, speed_tenth]
    norm_num [tenth]
  rw [TrapezoidalProfile.toNat_cyclesCruise _ (by norm_num [tenth]), hone]
  exact (units_eq_one_iff one_pos).mpr le_rfl

theorem runsOnce_tenth : RunsOnce (FloatMath.real true) tenth := by
  refine ⟨?_, cyclesAccel_tenth.le, cyclesCruise_tenth.le⟩
  rw [TrapezoidalProfile.isLong_real _ (by norm_num [tenth]), cruiseLength_tenth]
  norm_num

/-- The last two cycles make up for the whole move. -/
theorem onePass_tenth : tenth.onePass (FloatMath.real true) = posAt tenth (1 / 10) := by
  have ha : tenth.cyclesAccel (FloatMath.real true) ≠ 0 := fun h => by
    simpa [h] using cyclesAccel_tenth
  have hc : tenth.cyclesCruise (FloatMath.real true) ≠ 0 := fun h => by
    simpa [h] using cyclesCruise_tenth
  simp only [TrapezoidalProfile.onePass, TrapezoidalProfile.phaseOnce, if_neg ha, if_neg hc,
    TrapezoidalProfile.vTarget_real, ← posAt_zero, stepped_posAt, speed_tenth]
  rw [FloatOps.real_zero]
  congr 1
  norm_num [tenth]

/-- Only the first axis is stored, with its target. -/
theorem storedBy_feedX (a : Axis) :
    storedBy (FloatMath.real true) a (feedX (1 / 10 : ℝ)) ModalState.new =
      if a = .x then some (1 / 10 : ℝ) else none := by
  have hmove : IsLinearMove (FloatMath.real true) (feedX (1 / 10 : ℝ)) ModalState.new := by
    refine ⟨rfl, rfl, ?_⟩
    rw [profileOf_feedX, TrapezoidalProfile.distance_real, pathLength_tenth, FloatOps.real_ge,
      FloatOps.real_lit]
    norm_num
  have hcycles : tenth.hasCycles (FloatMath.real true) = true := by
    have ha : tenth.cyclesAccel (FloatMath.real true) ≠ 0 := fun h => by
      simpa [h] using cyclesAccel_tenth
    simp [TrapezoidalProfile.hasCycles, ha]
  have hstill : moves (FloatMath.real true) (0 : ℝ) = false := by
    rw [Bool.eq_false_iff, ne_eq, TrapezoidalProfile.moves_real, TrapezoidalProfile.Noticed]
    norm_num
  rw [storedBy, if_neg (by decide), if_pos hmove, profileOf_feedX]
  dsimp only
  rw [hcycles, Bool.true_and, onePass_tenth]
  cases a with
  | x =>
      refine congrArg some ?_
      change axisAt tenth 0 (1 / 10) (1 / 10) = 1 / 10
      rw [axisAt, pathLength_tenth]
      norm_num
  | y => exact if_neg (Bool.eq_false_iff.mp hstill)
  | z => exact if_neg (Bool.eq_false_iff.mp hstill)

/-- A move of a tenth of a unit keeps up. -/
theorem feedX_endsInPosition :
    EndsInPosition (FloatMath.real true) [feedX (1 / 10 : ℝ)] programEnd := by
  refine (endsInPosition_iff (countsExactly_real true) ?_ isEnd_programEnd).mpr ⟨?_, fun a => ?_⟩
  · rintro cmd hcmd
    obtain rfl := List.mem_singleton.mp hcmd
    exact .move rfl (Or.inr rfl)
  · rintro before cmd after hsplit state -
    cases before with
    | nil =>
        obtain rfl := (List.cons.inj hsplit).1
        rw [show state = ModalState.new from rfl, profileOf_feedX]
        exact runsOnce_tenth
    | cons first before => simp at hsplit
  · rw [lastStored, lastStored, Option.none_or, storedBy_feedX]
    cases a <;> rfl

/-- A rapid move of the second axis, in absolute mode. -/
theorem storedBy_rapidY (M : FloatMath P) {state : ModalState P} (hmode : state.coordMode = 90)
    (y : P.F64) : storedBy M .y (rapidY y) state =
      if P.f64.eq y P.f64.zero = true then none else some y := by
  have hnext : coord (state.advance (rapidY y)).position .y = y := by
    change ModalState.target state.coordMode state.currentY (some y) = y
    rw [ModalState.target, if_pos hmode]
  rw [storedBy, if_pos ⟨rfl, rfl⟩]
  simp only [hnext, ne_eq, reduceCtorEq, not_false_eq_true, true_and]

/-- A rapid move of the second axis back to zero is not stored. -/
theorem rapidY_misses_position :
    (∀ cmd ∈ [rapidY (5 : ℝ), rapidY (P := Platform.real true) (0 : ℝ)], IsPositioning cmd) ∧
      IsEnd (programEnd : GCodeCommand (Platform.real true)) ∧
      ¬EndsInPosition (FloatMath.real true) [rapidY (5 : ℝ), rapidY (0 : ℝ)] programEnd := by
  have hbody : ∀ cmd ∈ [rapidY (5 : ℝ), rapidY (P := Platform.real true) (0 : ℝ)],
      IsPositioning cmd := by
    intro cmd hcmd
    simp only [List.mem_cons, List.not_mem_nil, or_false] at hcmd
    rcases hcmd with rfl | rfl <;> exact .move rfl (Or.inl rfl)
  refine ⟨hbody, isEnd_programEnd, fun hends => ?_⟩
  have hkeeps := KeepsPosition.of_endsInPosition (countsExactly_real true) hbody
    isEnd_programEnd hends
  have hy := hkeeps.arrives .y
  have hfive : FloatOps.real.eq 5 FloatOps.real.zero = false := by simp
  have hback : FloatOps.real.eq 0 FloatOps.real.zero = true := by simp
  rw [lastStored, lastStored, lastStored, storedBy_rapidY _ rfl, storedBy_rapidY _ rfl, hfive,
    hback] at hy
  have hne : (5 : ℝ) = 0 := hy
  norm_num at hne

end Weftik.GCode
