import Weftik.AxisGroup.Emit

/-!
# The Alarm Program

The alarm program is to set the group's fault flag and alarm state when some axis has a
fault. The skips do nothing, so a group with an axis always has a fault.

## Main definitions

* `Alarm.program`: the generator.
* `Alarm.scanWrites`: what a scan stores.
* `Alarm.Aggregated`: what a scan is to store.

## Main results

* `Alarm.scans_program`: a scan, as one update of the table.
* `Alarm.aggregated_iff`: when a scan stores what it is to store.
-/

namespace Weftik.AxisGroup

open Symbolic Table

variable {P : Platform}

namespace Alarm

/-! ### The generator -/

/-! The registers. -/

def rAnyFault : ℕ := 0
def rState : ℕ := 1
def rNewState : ℕ := 2
def rScratch : ℕ := 3
def rZero : ℕ := 4
def rOne : ℕ := 5

/-- Compare a copy of a register with `0.0`, which is loaded into `rScratch` first. -/
def cmpNeZero (reg dst : ℕ) : List (Instruction P) :=
  [.loadImm rScratch zeroImm] ++ copyReg reg dst rZero ++ [.cmp .neq dst rScratch]

/-- Emit the code for one fault flag of an axis. -/
def emitFault (code : List (Instruction P)) (fault : String) : List (Instruction P) :=
  let code := code ++ [.loadSignal rScratch fault]
  let code := code ++ cmpNeZero rScratch rScratch
  let (code, skip) := emitJumpIfNot code rScratch rState
  let code := code ++ [.loadImm rAnyFault oneImm]
  patchJump code skip code.length

/-- Emit the code of one axis. -/
def emitAxis (cfg : AxisGroupConfig P) (code : List (Instruction P)) (axis : AxisConfig P) :
    List (Instruction P) :=
  let code := emitFault code (cfg.signal axis.index "pos_fault")
  emitFault code (cfg.signal axis.index "vel_fault")

/-- The bindings of the signals of an axis. -/
def signalBindings (cfg : AxisGroupConfig P) (axis : AxisConfig P) : List SignalBinding :=
  let pfx := cfg.signalPrefix axis.index
  [binding pfx "pos_fault" .read .bool, binding pfx "vel_fault" .read .bool]

/-- The code after the axes. -/
def epilogue (cfg : AxisGroupConfig P) : List (Instruction P) :=
  [.storeSignal (cfg.name ++ ".any_fault") rAnyFault,
    .loadSignal rState (cfg.name ++ ".alarm_state")] ++
  copyReg rAnyFault rNewState rZero ++
  [.storeSignal (cfg.name ++ ".alarm_state") rNewState]

/-- `generate_alarm_program`. -/
def program (cfg : AxisGroupConfig P) : HalProgram P where
  name := "alarm_" ++ cfg.name
  signals :=
    [⟨cfg.name ++ ".alarm_state", "alarm_state", .readWrite, .u8⟩,
      ⟨cfg.name ++ ".any_fault", "any_fault", .write, .bool⟩] ++
    cfg.axes.flatMap (signalBindings cfg)
  instructions :=
    cfg.axes.foldl (emitAxis cfg)
      (loadConstants rZero rOne ++ [.loadImm rAnyFault zeroImm]) ++
    epilogue cfg ++ [.halt]
  functionTable := []

/-! ### The program as the machine reads it -/

/-- The code of one axis, as the machine reads it. -/
def axisCode (cfg : AxisGroupConfig P) (axis : AxisConfig P) : List (Instruction P) :=
  (emitAxis cfg [] axis).map Instruction.bare

theorem map_bare_emitAxis (cfg : AxisGroupConfig P) (code : List (Instruction P))
    (axis : AxisConfig P) :
    (emitAxis cfg code axis).map Instruction.bare =
      code.map Instruction.bare ++ axisCode cfg axis := by
  simp only [axisCode, emitAxis, emitFault, emitJumpIfNot, map_bare_patchJump,
    List.map_append, List.append_assoc, List.nil_append]

/-- The program without its `Halt`, as the machine reads it. -/
def body (cfg : AxisGroupConfig P) : List (Instruction P) :=
  loadConstants rZero rOne ++
    ([.loadImm rAnyFault zeroImm] ++ (cfg.axes.flatMap (axisCode cfg) ++ epilogue cfg))

theorem map_bare_program (cfg : AxisGroupConfig P) :
    (program cfg).instructions.map Instruction.bare = body cfg ++ [.halt] := by
  simp only [program, List.map_append, map_bare_foldl (map_bare_emitAxis cfg), body,
    List.append_assoc]
  rfl

/-- The constants and the register of the fault are known. -/
def withFault (fault : HalValue P) (t : SignalTable P) : Symbolic P where
  table := t
  regs r := if r = rAnyFault then some fault else (constants rZero rOne t).regs r
  flag := none

theorem withFault_le {k : Symbolic P} {t : SignalTable P} {fault : HalValue P}
    (htable : k.table = t) (hfault : k.regs rAnyFault = some fault)
    (hzero : k.regs rZero = some zeroImm) (hone : k.regs rOne = some oneImm) :
    (withFault fault t).Le k := by
  refine ⟨htable.symm, fun r v h => ?_, nofun⟩
  dsimp only [withFault] at h
  split at h
  · rename_i hr
    rw [hr, hfault, h]
  · exact (constants_le htable hzero hone).regs r v h

/-- The code of an axis finds a fault. -/
theorem axisCode_run (cfg : AxisGroupConfig P) (axis : AxisConfig P) (fault : HalValue P)
    (t : SignalTable P) :
    ∃ mid, (withFault fault t).run (axisCode cfg axis) = some mid ∧ mid.table = t ∧
      mid.regs rAnyFault = some oneImm ∧ mid.regs rZero = some zeroImm ∧
      mid.regs rOne = some oneImm := by
  simp only [axisCode, emitAxis, emitFault, emitJumpIfNot, map_bare_patchJump,
    List.map_append, List.append_assoc, List.nil_append]
  exact ⟨_, rfl, rfl, rfl, rfl, rfl⟩

theorem axisCode_takes (cfg : AxisGroupConfig P) (axis : AxisConfig P) (pc : ℕ)
    (fault : HalValue P) (t : SignalTable P) :
    Takes pc (axisCode cfg axis) (withFault fault t) (withFault oneImm t) := by
  obtain ⟨mid, hrun, htable, hfault, hzero, hone⟩ := axisCode_run cfg axis fault t
  exact takes_of_run hrun (withFault_le htable hfault hzero hone)

/-- The fault that the program finds. -/
def anyFault (cfg : AxisGroupConfig P) : P.F64 :=
  if cfg.axes = [] then P.f64.zero else P.f64.lit 1 0

theorem axes_take (cfg : AxisGroupConfig P) (pc : ℕ) (t : SignalTable P) :
    Takes pc (cfg.axes.flatMap (axisCode cfg)) (withFault zeroImm t)
      (withFault (.f64 (anyFault cfg)) t) := by
  rw [anyFault]
  cases cfg.axes with
  | nil => exact .nil (.refl _)
  | cons axis axes =>
      rw [List.flatMap_cons]
      refine (axisCode_takes cfg axis pc zeroImm t).append ?_
      -- the fault stays set, and the table is not changed
      have hrest : Takes (pc + (axisCode cfg axis).length) (axes.flatMap (axisCode cfg))
          (withFault oneImm t) (withFault oneImm (axes.foldl (fun t _ => t) t)) :=
        .flatMap (fun axis _ pc t => axisCode_takes cfg axis pc oneImm t) t
      rwa [List.foldl_fixed] at hrest

/-- What a scan stores, in order. -/
def scanWrites (cfg : AxisGroupConfig P) : List (String × HalValue P) :=
  [(cfg.name ++ ".any_fault", .f64 (anyFault cfg)),
    (cfg.name ++ ".alarm_state", .f64 (P.f64.arith .add (anyFault cfg) P.f64.zero))]

theorem body_takes (cfg : AxisGroupConfig P) (pc : ℕ) (t : SignalTable P) :
    Takes pc (body cfg) (onlyTable t)
      (constants rZero rOne (writes t (scanWrites cfg))) := by
  have hload : Takes pc (loadConstants rZero rOne) (onlyTable t)
      (constants rZero rOne t) :=
    takes_of_constants ⟨_, rfl, rfl, rfl, rfl⟩
  have hfault : ∀ pc, Takes pc [.loadImm rAnyFault zeroImm] (constants rZero rOne t)
      (withFault zeroImm t) :=
    fun _ => takes_of_run rfl (withFault_le rfl rfl rfl rfl)
  have hepilogue : ∀ pc, Takes pc (epilogue cfg) (withFault (.f64 (anyFault cfg)) t)
      (constants rZero rOne (writes t (scanWrites cfg))) :=
    fun _ => takes_of_constants ⟨_, rfl, rfl, rfl, rfl⟩
  exact hload.append ((hfault _).append ((axes_take cfg _ t).append (hepilogue _)))

/-- A scan of the alarm program. -/
theorem scans_program (cfg : AxisGroupConfig P) (t t' : SignalTable P) :
    Scans (program cfg).instructions t t' ↔ t' = writes t (scanWrites cfg) := by
  rw [← scans_map_bare, map_bare_program]
  exact (body_takes cfg 0 t).scans t'

/-! ### What a scan is to store -/

/-! The alarm states. -/

def alarmNormal : UInt8 := 0
def alarmWarning : UInt8 := 1
def alarmEstop : UInt8 := 3

/-- The fault flag of the group. -/
def anyFaultOf (cfg : AxisGroupConfig P) (t : SignalTable P) : Option (HalValue P) :=
  t (cfg.name ++ ".any_fault")

/-- The alarm state of the group. -/
def alarmStateOf (cfg : AxisGroupConfig P) (t : SignalTable P) : Option (HalValue P) :=
  t (cfg.name ++ ".alarm_state")

/-- The signal holds an alarm state, as a byte or as the float that the program uses for
it. -/
def AtState (v : Option (HalValue P)) (state : UInt8) : Prop :=
  v = some (.u8 state) ∨ v = some (.f64 (P.f64.lit state.toNat 0))

/-- Some axis has a fault. -/
def Faulted (cfg : AxisGroupConfig P) (t : SignalTable P) : Prop :=
  ∃ axis ∈ cfg.axes, IsTrue (t (cfg.signal axis.index "pos_fault")) ∨
    IsTrue (t (cfg.signal axis.index "vel_fault"))

/-- What one scan is to do with the fault flag and the alarm state. -/
structure Aggregated (cfg : AxisGroupConfig P) (t t' : SignalTable P) : Prop where
  anyFault : IsTrue (anyFaultOf cfg t') ↔ Faulted cfg t
  /-- The emergency stop has priority over the warning. -/
  warning : Faulted cfg t → ¬AtState (alarmStateOf cfg t) alarmEstop →
    AtState (alarmStateOf cfg t') alarmWarning
  normal : AtState (alarmStateOf cfg t') alarmNormal → ¬Faulted cfg t
  estop : AtState (alarmStateOf cfg t) alarmEstop → alarmStateOf cfg t' = alarmStateOf cfg t

/-- What the program relies on in the numbers that it uses for flags and states. -/
structure SmallNumbers (P : Platform) : Prop where
  zero_add_zero : P.f64.arith .add P.f64.zero P.f64.zero = P.f64.zero
  one_add_zero : P.f64.arith .add (P.f64.lit 1 0) P.f64.zero = P.f64.lit 1 0
  lit_injective : ∀ {m n : ℕ}, m ≤ 3 → n ≤ 3 → P.f64.lit m 0 = P.f64.lit n 0 → m = n

/-- Rational numbers are such numbers. -/
theorem smallNumbers_exact : SmallNumbers Platform.exact where
  zero_add_zero := by
    have h : ((0 : ℕ) : ℚ) / 10 ^ 0 + ((0 : ℕ) : ℚ) / 10 ^ 0 = ((0 : ℕ) : ℚ) / 10 ^ 0 := by simp
    exact h
  one_add_zero := by
    have h : ((1 : ℕ) : ℚ) / 10 ^ 0 + ((0 : ℕ) : ℚ) / 10 ^ 0 = ((1 : ℕ) : ℚ) / 10 ^ 0 := by simp
    exact h
  lit_injective {m n} _ _ h := by
    have hrat : (m : ℚ) / 10 ^ 0 = (n : ℚ) / 10 ^ 0 := h
    rw [pow_zero, div_one, div_one] at hrat
    exact Nat.cast_injective hrat

/-- The number that a scan stores as the flag. -/
def faultNumber (cfg : AxisGroupConfig P) : ℕ := if cfg.axes = [] then 0 else 1

theorem faultNumber_le (cfg : AxisGroupConfig P) : faultNumber cfg ≤ 1 := by
  rw [faultNumber]
  split
  · exact Nat.zero_le 1
  · exact le_rfl

theorem anyFault_eq (cfg : AxisGroupConfig P) :
    anyFault cfg = P.f64.lit (faultNumber cfg) 0 := by
  rw [anyFault, faultNumber]
  split <;> rfl

/-- The flag after a scan. -/
theorem anyFaultOf_writes (cfg : AxisGroupConfig P) (t : SignalTable P) :
    anyFaultOf cfg (writes t (scanWrites cfg)) =
      some (.f64 (P.f64.lit (faultNumber cfg) 0)) := by
  have hne : cfg.name ++ ".alarm_state" ≠ cfg.name ++ ".any_fault" := by
    intro h
    exact absurd ((String.append_right_inj cfg.name).mp h) (by decide)
  rw [anyFaultOf, writes_apply, scanWrites, last_cons, last_cons, last_nil, if_neg hne,
    if_pos rfl, anyFault_eq]
  rfl

/-- The state after a scan is the number of the flag. -/
theorem alarmStateOf_writes (hnum : SmallNumbers P) (cfg : AxisGroupConfig P)
    (t : SignalTable P) :
    alarmStateOf cfg (writes t (scanWrites cfg)) =
      some (.f64 (P.f64.lit (faultNumber cfg) 0)) := by
  have hsum : P.f64.arith .add (anyFault cfg) P.f64.zero = P.f64.lit (faultNumber cfg) 0 := by
    rw [anyFault, faultNumber]
    split
    · exact hnum.zero_add_zero
    · exact hnum.one_add_zero
  rw [alarmStateOf, writes_apply, scanWrites, last_cons, last_cons, last_nil, if_pos rfl, hsum]
  rfl

theorem isTrue_lit_iff (hnum : SmallNumbers P) {m : ℕ} (hm : m ≤ 1) :
    IsTrue (P := P) (some (.f64 (P.f64.lit m 0))) ↔ m = 1 := by
  constructor
  · rintro (h | h)
    · cases h
    · exact hnum.lit_injective (hm.trans (by decide)) (by decide)
        (HalValue.f64.inj (Option.some.inj h))
  · rintro rfl
    exact Or.inr rfl

/-- A float is the state of its number only. -/
theorem atState_lit_iff (hnum : SmallNumbers P) {m : ℕ} (hm : m ≤ 1) {state : UInt8}
    (hstate : state ≤ alarmEstop) :
    AtState (P := P) (some (.f64 (P.f64.lit m 0))) state ↔ m = state.toNat := by
  constructor
  · rintro (h | h)
    · cases h
    · exact hnum.lit_injective (hm.trans (by decide)) (UInt8.le_iff_toNat_le.mp hstate)
        (HalValue.f64.inj (Option.some.inj h))
  · rintro rfl
    exact Or.inr rfl

/-- A scan stores what it is to store exactly when the group has no axis or some axis has a
fault, and the alarm state is not the emergency stop. -/
theorem aggregated_iff (hnum : SmallNumbers P) (cfg : AxisGroupConfig P)
    (t : SignalTable P) :
    (∃ t', Scans (program cfg).instructions t t' ∧ Aggregated cfg t t') ↔
      (cfg.axes = [] ∨ Faulted cfg t) ∧ ¬AtState (alarmStateOf cfg t) alarmEstop := by
  have hle := faultNumber_le cfg
  constructor
  · rintro ⟨t', hscan, hagg⟩
    obtain rfl := (scans_program cfg t t').mp hscan
    refine ⟨or_iff_not_imp_left.mpr fun haxes => ?_, fun hestop => ?_⟩
    · refine hagg.anyFault.mp ?_
      rw [anyFaultOf_writes, isTrue_lit_iff hnum hle, faultNumber, if_neg haxes]
    · -- an emergency stop that is still there would be the number of the flag
      have hstill := hestop
      rw [← hagg.estop hestop, alarmStateOf_writes hnum, atState_lit_iff hnum hle (by decide)]
        at hstill
      rw [hstill] at hle
      exact absurd hle (by decide)
  · rintro ⟨hcases, hestop⟩
    have hnumber : faultNumber cfg = 1 ↔ Faulted cfg t := by
      rcases hcases with haxes | hfaulted
      · rw [faultNumber, if_pos haxes]
        refine iff_of_false (by decide) ?_
        rintro ⟨axis, haxis, -⟩
        rw [haxes] at haxis
        cases haxis
      · obtain ⟨axis, haxis, -⟩ := id hfaulted
        rw [faultNumber, if_neg (List.ne_nil_of_mem haxis)]
        exact iff_of_true rfl hfaulted
    refine ⟨_, (scans_program cfg t _).mpr rfl, ?_, ?_, ?_, fun h => absurd h hestop⟩
    · rw [anyFaultOf_writes, isTrue_lit_iff hnum hle]
      exact hnumber
    · intro hfaulted _
      rw [alarmStateOf_writes hnum, atState_lit_iff hnum hle (by decide)]
      exact hnumber.mpr hfaulted
    · rw [alarmStateOf_writes hnum, atState_lit_iff hnum hle (by decide)]
      intro hzero hfaulted
      exact absurd ((hnumber.mpr hfaulted).symm.trans hzero) (by decide)

/-- A fault of the first axis of the default group. -/
def faultX : SignalTable Platform.exact := fun name =>
  if name = xyz.signal 0 "pos_fault" then some (.bool true) else none

theorem aggregated_iff_at_faultX :
    (∃ t', Scans (program xyz).instructions faultX t' ∧ Aggregated xyz faultX t') ↔
      (xyz.axes = [] ∨ Faulted xyz faultX) ∧ ¬AtState (alarmStateOf xyz faultX) alarmEstop :=
  aggregated_iff smallNumbers_exact xyz faultX

/-- On the empty table no axis has a fault, and a scan reports one. -/
theorem not_aggregated_of_healthy :
    ¬∃ t', Scans (program xyz).instructions (fun _ => none) t' ∧
      Aggregated xyz (fun _ => none) t' := by
  rintro ⟨t', hscan, hagg⟩
  obtain rfl := (scans_program xyz _ t').mp hscan
  have htrue : IsTrue (anyFaultOf xyz (writes (fun _ => none) (scanWrites xyz))) := by
    rw [anyFaultOf_writes]
    exact Or.inr rfl
  obtain ⟨axis, -, h | h⟩ := hagg.anyFault.mp htrue
  · rcases h with h | h <;> cases h
  · rcases h with h | h <;> cases h

end Alarm

end Weftik.AxisGroup
