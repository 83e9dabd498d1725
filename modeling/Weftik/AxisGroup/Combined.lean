import Weftik.AxisGroup.Alarm
import Weftik.AxisGroup.Backlash
import Weftik.AxisGroup.Homing
import Weftik.AxisGroup.Limits

/-!
# The Combined Program of an Axis Group

The combined program is the concatenation of the four programs of the group without their
halts, and one halt. The targets of the jumps stay as they are, counted from the beginning
of their own program. Only the backlash program has jumps that the machine takes, one for
each axis with backlash compensation; in the combined program such a jump goes back into the
code before it, and the scan does not end.

## Main definitions

* `program`: the generator of the combined program.
* `InSequence`: a scan of each of the four programs, on one table.

## Main results

* `scans_program_iff_inSequence`: when the combined program does what the four programs do
  one after the other.
-/

namespace Weftik.AxisGroup

open Symbolic Table

variable {P : Platform}

namespace Combined

/-! ### The generator -/

/-- The instructions of a program without its halts. -/
def withoutHalts (p : HalProgram P) : List (Instruction P) :=
  p.instructions.filter fun inst => inst.opcode ≠ .halt

/-- The bindings of some programs, each signal once. -/
def mergeSignals (signals more : List SignalBinding) : List SignalBinding :=
  more.foldl
    (fun signals s =>
      if signals.any (·.halSignalName == s.halSignalName) then signals else signals ++ [s])
    signals

/-- `generate_combined_program`. -/
def program (cfg : AxisGroupConfig P) : HalProgram P :=
  let homing := Homing.program cfg
  let limits := Limits.program cfg
  let backlash := Backlash.program cfg
  let alarm := Alarm.program cfg
  { name := "axis_group_" ++ cfg.name
    signals :=
      [limits, backlash, alarm].foldl (fun signals p => mergeSignals signals p.signals)
        homing.signals
    instructions := [homing, limits, backlash, alarm].flatMap withoutHalts ++ [.halt]
    functionTable := [] }

/-! ### The program as the machine reads it -/

theorem map_bare_withoutHalts {p : HalProgram P} {body : List (Instruction P)} {n : ℕ}
    (hbody : ∀ inst ∈ body, inst.staysWithin n = true)
    (hp : p.instructions.map Instruction.bare = body ++ [.halt]) :
    (withoutHalts p).map Instruction.bare = body := by
  have hfilter : (withoutHalts p).map Instruction.bare =
      (p.instructions.map Instruction.bare).filter fun inst => inst.opcode ≠ .halt := by
    rw [List.filter_map, withoutHalts]
    refine congrArg _ (List.filter_congr fun inst _ => ?_)
    rw [Function.comp_apply, Instruction.bare_opcode]
  rw [hfilter, hp, List.filter_append, List.filter_eq_self.mpr fun inst hinst => ?_]
  · exact List.append_nil body
  · refine decide_eq_true ?_
    intro hhalt
    have h := hbody inst hinst
    obtain ⟨opcode, ops⟩ := inst
    obtain rfl : opcode = .halt := hhalt
    cases h

/-- The other three programs do not jump. -/
theorem homing_staysWithin (cfg : AxisGroupConfig P) (n : ℕ) :
    ∀ inst ∈ Homing.body cfg, inst.staysWithin n = true := by
  refine List.forall_mem_append.mpr ⟨List.all_eq_true.mp rfl, fun inst hinst => ?_⟩
  obtain ⟨axis, -, hmem⟩ := List.mem_flatMap.mp hinst
  obtain ⟨mid, hrun, -⟩ := Homing.axisCode_run cfg axis fun _ => none
  exact run_staysWithin hrun n inst hmem

theorem limits_staysWithin (cfg : AxisGroupConfig P) (n : ℕ) :
    ∀ inst ∈ Limits.body cfg, inst.staysWithin n = true := by
  refine List.forall_mem_append.mpr ⟨List.all_eq_true.mp rfl, fun inst hinst => ?_⟩
  obtain ⟨axis, -, hmem⟩ := List.mem_flatMap.mp hinst
  obtain ⟨mid, hrun, -⟩ := Limits.axisCode_run cfg axis fun _ => none
  exact run_staysWithin hrun n inst hmem

theorem alarm_staysWithin (cfg : AxisGroupConfig P) (n : ℕ) :
    ∀ inst ∈ Alarm.body cfg, inst.staysWithin n = true := by
  refine List.forall_mem_append.mpr ⟨List.all_eq_true.mp rfl, ?_⟩
  refine List.forall_mem_append.mpr ⟨List.all_eq_true.mp rfl, ?_⟩
  refine List.forall_mem_append.mpr ⟨fun inst hinst => ?_, List.all_eq_true.mp rfl⟩
  obtain ⟨axis, -, hmem⟩ := List.mem_flatMap.mp hinst
  obtain ⟨mid, hrun, -⟩ := Alarm.axisCode_run cfg axis zeroImm fun _ => none
  exact run_staysWithin hrun n inst hmem

theorem map_bare_program (cfg : AxisGroupConfig P) :
    (program cfg).instructions.map Instruction.bare =
      Homing.body cfg ++ (Limits.body cfg ++ (Backlash.body cfg ++ Alarm.body cfg)) ++
        [.halt] := by
  have hbody : ∀ inst ∈ Backlash.body cfg,
      inst.staysWithin (2 + 33 * cfg.axes.countP Backlash.isActive) = true :=
    List.forall_mem_append.mpr
      ⟨List.all_eq_true.mp rfl, Backlash.axesCode_staysWithin cfg cfg.axes le_rfl⟩
  simp only [program, List.flatMap_cons, List.flatMap_nil, List.append_nil, List.map_append,
    map_bare_withoutHalts (homing_staysWithin cfg 0) (Homing.map_bare_program cfg),
    map_bare_withoutHalts (limits_staysWithin cfg 0) (Limits.map_bare_program cfg),
    map_bare_withoutHalts hbody (Backlash.map_bare_program cfg),
    map_bare_withoutHalts (alarm_staysWithin cfg 0) (Alarm.map_bare_program cfg)]
  rfl

/-! ### The four programs in sequence -/

/-- One scan of each of the four programs, one after the other on one table. -/
def InSequence (cfg : AxisGroupConfig P) (t t' : SignalTable P) : Prop :=
  ∃ t₁ t₂ t₃,
    Scans (Homing.program cfg).instructions t t₁ ∧
      Scans (Limits.program cfg).instructions t₁ t₂ ∧
      Scans (Backlash.program cfg).instructions t₂ t₃ ∧
      Scans (Alarm.program cfg).instructions t₃ t'

/-- The effect of the four programs, with the effect of the backlash program as a
parameter. -/
def effect (cfg : AxisGroupConfig P) (backlash : SignalTable P → SignalTable P)
    (t : SignalTable P) : SignalTable P :=
  let t₂ := writes (writes t (Homing.scanWrites cfg)) (Limits.scanWrites cfg)
  writes (backlash t₂) (Alarm.scanWrites cfg)

theorem inSequence_iff (cfg : AxisGroupConfig P) (hfits : Backlash.JumpsFit cfg)
    (t t' : SignalTable P) :
    InSequence cfg t t' ↔ t' = effect cfg (Backlash.scanEffect cfg) t := by
  simp only [InSequence, Homing.scans_program, Limits.scans_program,
    Backlash.scans_program cfg hfits, Alarm.scans_program]
  constructor
  · rintro ⟨t₁, t₂, t₃, rfl, rfl, rfl, ht'⟩
    exact ht'
  · exact fun ht' => ⟨_, _, _, rfl, rfl, rfl, ht'⟩

theorem not_inSequence (cfg : AxisGroupConfig P) (hwraps : ¬Backlash.JumpsFit cfg)
    (t t' : SignalTable P) : ¬InSequence cfg t t' := by
  rintro ⟨t₁, t₂, t₃, -, -, hbacklash, -⟩
  exact Backlash.not_scans_of_wraps cfg hwraps t₂ t₃ hbacklash

/-! ### The combined program -/

/-- Without backlash compensation there is no jump, and the combined program does what the
four programs do. -/
theorem scans_program_of_none (cfg : AxisGroupConfig P)
    (hnone : cfg.axes.countP Backlash.isActive = 0) (t t' : SignalTable P) :
    Scans (program cfg).instructions t t' ↔ t' = effect cfg (Backlash.scanEffect cfg) t := by
  have hcode : Backlash.axesCode cfg 2 cfg.axes = [] := by
    rw [← List.length_eq_zero_iff, Backlash.length_axesCode, hnone]
  have heffect : ∀ t, Backlash.scanEffect cfg t = t := by
    intro t
    have hfilter : cfg.axes.filter Backlash.isActive = [] := by
      rwa [← List.length_eq_zero_iff, ← List.countP_eq_length_filter]
    rw [Backlash.scanEffect, hfilter]
    rfl
  have hbacklash : ∀ pc t, Takes pc (Backlash.body cfg) (onlyTable t)
      (constants Backlash.rZero Backlash.rOne (Backlash.scanEffect cfg t)) := by
    intro pc t
    rw [Backlash.body, hcode, heffect]
    exact takes_of_constants ⟨_, rfl, rfl, rfl, rfl⟩
  have htakes := (((Homing.body_takes cfg 0 t).mono (.refl _) (onlyTable_le _)).append
    (((Limits.body_takes cfg _ _).mono (.refl _) (onlyTable_le _)).append
      (((hbacklash _ _).mono (.refl _) (onlyTable_le _)).append (Alarm.body_takes cfg _ _))))
  rw [← scans_map_bare, map_bare_program]
  exact htakes.scans t'

/-- With backlash compensation the first jump goes back, and a scan of the combined program
does not end. -/
theorem not_scans_program (cfg : AxisGroupConfig P)
    (hsome : 0 < cfg.axes.countP Backlash.isActive) (t t' : SignalTable P) :
    ¬Scans (program cfg).instructions t t' := by
  obtain ⟨before, rest, hcode, hlength, hstays⟩ := Backlash.exists_jump cfg hsome
  rw [← scans_map_bare, map_bare_program, Backlash.body, hcode]
  rintro ⟨vm, hexec, -⟩
  have hassoc : ∀ a b c d : List (Instruction P), ∀ jump : Instruction P,
      a ++ (b ++ (c ++ (before ++ jump :: rest) ++ d)) ++ [.halt] =
        (a ++ (b ++ (c ++ before))) ++ jump :: (rest ++ d ++ [.halt]) := by
    intro a b c d jump
    simp only [List.append_assoc, List.cons_append]
  rw [hassoc] at hexec
  have hlong : 19 ≤ (Homing.body cfg ++ (Limits.body cfg ++
      (loadConstants Backlash.rZero Backlash.rOne ++ before))).length := by
    obtain ⟨axis, haxis, -⟩ := List.countP_pos_iff.mp hsome
    obtain ⟨as, bs, haxes⟩ := List.append_of_mem haxis
    have hhoming : 67 ≤ (Homing.body cfg).length := by
      rw [Homing.body, haxes, List.flatMap_append, List.flatMap_cons]
      simp only [List.length_append, Homing.length_axisCode]
      omega
    rw [List.length_append]
    omega
  refine Vm.not_exec_ok_of_jump_back ?_ ?_ (Nat.zero_le _) hexec
  · refine List.forall_mem_append.mpr ⟨homing_staysWithin cfg _, ?_⟩
    refine List.forall_mem_append.mpr ⟨limits_staysWithin cfg _, ?_⟩
    exact List.forall_mem_append.mpr
      ⟨List.all_eq_true.mp rfl, hstays _ (le_trans (by decide) hlong)⟩
  · exact hlong

/-- The combined program does what the four programs do in sequence exactly when no axis has
backlash compensation, or so many have that the backlash program does not end either. -/
theorem scans_program_iff_inSequence (cfg : AxisGroupConfig P) (t : SignalTable P) :
    (∀ t', Scans (program cfg).instructions t t' ↔ InSequence cfg t t') ↔
      cfg.axes.countP Backlash.isActive = 0 ∨ ¬Backlash.JumpsFit cfg := by
  constructor
  · intro h
    by_contra hcontra
    obtain ⟨hsome, hfits⟩ := not_or.mp hcontra
    have hseq := (inSequence_iff cfg (not_not.mp hfits) t _).mpr rfl
    exact not_scans_program cfg (Nat.pos_of_ne_zero hsome) t _ ((h _).mpr hseq)
  · rintro (hnone | hwraps) t'
    · have hfits : Backlash.JumpsFit cfg := by
        rw [Backlash.JumpsFit, hnone]
        decide
      rw [scans_program_of_none cfg hnone, inSequence_iff cfg hfits]
    · have hsome : 0 < cfg.axes.countP Backlash.isActive := by
        rw [Backlash.JumpsFit] at hwraps
        omega
      exact iff_of_false (not_scans_program cfg hsome t t') (not_inSequence cfg hwraps t t')

/-- One axis with a backlash of 0.05. -/
def backlashX : AxisGroupConfig Platform.exact :=
  ⟨"group.0", [{ AxisConfig.linear 0 with
    backlashEnable := true, backlashDistance := (1 / 20 : ℚ) }]⟩

/-- On the empty table, the four programs have an ending and the combined one has none. -/
theorem scans_program_fails_at_backlashX :
    ¬∀ t', Scans (program backlashX).instructions (fun _ => none) t' ↔
      InSequence backlashX (fun _ => none) t' := by
  intro h
  have hcount : backlashX.axes.countP Backlash.isActive = 1 := by
    refine List.countP_cons_of_pos ?_
    change (true && !decide ((1 / 20 : ℚ) = ((0 : ℕ) : ℚ) / 10 ^ 0)) = true
    simp
  have hfits : Backlash.JumpsFit backlashX := by
    rw [Backlash.JumpsFit, hcount]
    decide
  have hseq := (inSequence_iff backlashX hfits (fun _ => none) _).mpr rfl
  exact not_scans_program backlashX (by rw [hcount]; decide) _ _ ((h _).mpr hseq)

end Combined

end Weftik.AxisGroup
