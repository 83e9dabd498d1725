import Weftik.AxisGroup.Emit

/-!
# The Homing Program

The homing program is a state machine for each axis, with the state kept in a signal from
scan to scan: each state's block is to be skipped in every other state, and the blocks of
`SEEK` and `LATCH` wait for the limit switch. The skips do nothing, so every scan goes
through all the blocks of all the axes.

## Main definitions

* `Homing.program`: the generator.
* `Homing.scanWrites`: what a scan stores.
* `Homing.Trace`, `Homing.HomedInSequence`: runs of scans, and what the design says of them.

## Main results

* `Homing.scans_program`: a scan, as one update of the table.
* `Homing.homedInSequence_iff`: the axes are homed in sequence only where there is nothing
  to home.
-/

namespace Weftik.AxisGroup

open Symbolic Table

variable {P : Platform}

namespace Homing

/-! ### The generator -/

/-! The registers. -/

def rIdx : ℕ := 0
def rState : ℕ := 1
def rLimit : ℕ := 2
def rVel : ℕ := 3
def rDir : ℕ := 4
def rScratch : ℕ := 5
def rZero : ℕ := 6
def rOne : ℕ := 7

/-! The states. -/

def stIdle : ℕ := 0
def stSeek : ℕ := 1
def stLatch : ℕ := 2
def stBackoff : ℕ := 3
def stDone : ℕ := 4

/-- The limit switch in a direction. -/
def limitSignal : HomeDirection → String
  | .positive => "limit_pos"
  | .negative => "limit_neg"

/-- Set the state of an axis. -/
def setState (sig : String → String) (state : ℕ) : List (Instruction P) :=
  [.loadImm rScratch (.u8 (UInt8.ofNat state)), .storeSignal (sig "homing_state") rScratch]

/-- Write the velocity of an axis, with its sign. -/
def writeVel (sig : String → String) (velReg : ℕ) : List (Instruction P) :=
  [.arith .mul velReg rDir rScratch, .storeSignal (sig "vel_cmd") rScratch]

/-- Compare a register with a state or with a level of the limit switch. -/
def cmpEqImm (reg n : ℕ) : List (Instruction P) := cmpImm .eq reg (P.f64.lit n 0) rVel

/-- Emit a skip; `rDir` is loaded twice. -/
def emitJumpIfNot (code : List (Instruction P)) (condReg : ℕ) : List (Instruction P) × ℕ :=
  AxisGroup.emitJumpIfNot (code ++ [.loadImm rDir oneImm]) condReg rDir

/-- Emit the code of one axis. -/
def emitAxis (cfg : AxisGroupConfig P) (code : List (Instruction P)) (axis : AxisConfig P) :
    List (Instruction P) :=
  let sig := cfg.signal axis.index
  let dirMult : P.F64 := axis.homeDirection.multiplier
  let code := code ++ [.loadImm rIdx (.u32 (UInt32.ofNat axis.index.toNat))]
  let code := code ++ [.loadSignal rState (sig "homing_state")]
  -- IDLE
  let code := code ++ copyReg rState rScratch rZero
  let code := code ++ cmpEqImm rScratch stIdle
  let (code, skipIdle) := emitJumpIfNot code rScratch
  let code := code ++ [.loadImm rDir (.f64 dirMult)]
  let code := code ++ [.loadImm rVel (.f64 axis.homeSearchVel)]
  let code := code ++ setState sig stSeek
  let code := code ++ writeVel sig rVel
  let code := code ++ [.storeSignal (sig "enable") rOne]
  let code := code ++ [.storeSignal (sig "pos_cmd") rZero]
  let code := patchJump code skipIdle code.length
  -- SEEK
  let code := code ++ copyReg rState rScratch rZero
  let code := code ++ cmpEqImm rScratch stSeek
  let (code, skipSeek) := emitJumpIfNot code rScratch
  let code := code ++ [.loadSignal rLimit (sig (limitSignal axis.homeDirection))]
  let code := code ++ cmpEqImm rLimit 1
  let (code, keepSeeking) := emitJumpIfNot code rLimit
  let code := code ++ setState sig stLatch
  let code := code ++ [.loadImm rDir (.f64 (P.f64.neg dirMult))]
  let code := code ++ [.loadImm rVel (.f64 axis.homeLatchVel)]
  let code := code ++ writeVel sig rVel
  let code := patchJump code keepSeeking code.length
  let code := patchJump code skipSeek code.length
  -- LATCH
  let code := code ++ copyReg rState rScratch rZero
  let code := code ++ cmpEqImm rScratch stLatch
  let (code, skipLatch) := emitJumpIfNot code rScratch
  let code := code ++ [.loadSignal rLimit (sig (limitSignal axis.homeDirection))]
  let code := code ++ cmpEqImm rLimit 0
  let (code, keepLatching) := emitJumpIfNot code rLimit
  let code := code ++ setState sig stBackoff
  let code := code ++ [.loadImm rScratch (.f64 axis.homeOffset)]
  let code := code ++ [.storeSignal (sig "pos_cmd") rScratch]
  let code := code ++ [.storeSignal (sig "vel_cmd") rZero]
  let code := patchJump code keepLatching code.length
  let code := patchJump code skipLatch code.length
  -- BACKOFF
  let code := code ++ copyReg rState rScratch rZero
  let code := code ++ cmpEqImm rScratch stBackoff
  let (code, skipBackoff) := emitJumpIfNot code rScratch
  let code := code ++ setState sig stDone
  let code := code ++ [.storeSignal (sig "homed") rOne]
  let code := code ++ [.storeSignal (sig "enable") rZero]
  patchJump code skipBackoff code.length

/-- The bindings of the signals of an axis. -/
def signalBindings (pfx : String) : List SignalBinding :=
  [binding pfx "homing_state" .readWrite .u8, binding pfx "pos_cmd" .write .f64,
    binding pfx "vel_cmd" .write .f64, binding pfx "enable" .write .bool,
    binding pfx "limit_pos" .read .bool, binding pfx "limit_neg" .read .bool,
    binding pfx "homed" .write .bool]

/-- `generate_homing_program`. -/
def program (cfg : AxisGroupConfig P) : HalProgram P where
  name := "homing_" ++ cfg.name
  signals := cfg.axes.flatMap fun axis => signalBindings (cfg.signalPrefix axis.index)
  instructions :=
    cfg.axes.foldl (emitAxis cfg) (loadConstants rZero rOne) ++ [.halt]
  functionTable := []

/-! ### The program as the machine reads it -/

/-- The code of one axis, as the machine reads it. -/
def axisCode (cfg : AxisGroupConfig P) (axis : AxisConfig P) : List (Instruction P) :=
  (emitAxis cfg [] axis).map Instruction.bare

theorem map_bare_emitAxis (cfg : AxisGroupConfig P) (code : List (Instruction P))
    (axis : AxisConfig P) :
    (emitAxis cfg code axis).map Instruction.bare =
      code.map Instruction.bare ++ axisCode cfg axis := by
  simp only [axisCode, emitAxis, emitJumpIfNot, AxisGroup.emitJumpIfNot, map_bare_patchJump,
    List.map_append, List.append_assoc, List.nil_append]

/-- What the code of an axis stores, in order. -/
def axisWrites (cfg : AxisGroupConfig P) (axis : AxisConfig P) :
    List (String × HalValue P) :=
  let sig := cfg.signal axis.index
  let dirMult : P.F64 := axis.homeDirection.multiplier
  [(sig "homing_state", .u8 1),
    (sig "vel_cmd", .f64 (P.f64.arith .mul axis.homeSearchVel dirMult)),
    (sig "enable", oneImm), (sig "pos_cmd", zeroImm),
    (sig "homing_state", .u8 2),
    (sig "vel_cmd", .f64 (P.f64.arith .mul axis.homeLatchVel (P.f64.neg dirMult))),
    (sig "homing_state", .u8 3), (sig "pos_cmd", .f64 axis.homeOffset),
    (sig "vel_cmd", zeroImm),
    (sig "homing_state", .u8 4), (sig "homed", oneImm), (sig "enable", zeroImm)]

/-- What a scan stores, in order. -/
def scanWrites (cfg : AxisGroupConfig P) : List (String × HalValue P) :=
  cfg.axes.flatMap (axisWrites cfg)

/-- The code of an axis goes through all its states. -/
theorem axisCode_run (cfg : AxisGroupConfig P) (axis : AxisConfig P) (t : SignalTable P) :
    ∃ mid, (constants rZero rOne t).run (axisCode cfg axis) = some mid ∧
      mid.table = writes t (axisWrites cfg axis) ∧
      mid.regs rZero = some zeroImm ∧ mid.regs rOne = some oneImm := by
  simp only [axisCode, emitAxis, emitJumpIfNot, AxisGroup.emitJumpIfNot, map_bare_patchJump,
    List.map_append, List.append_assoc, List.nil_append]
  exact ⟨_, rfl, rfl, rfl, rfl⟩

theorem length_axisCode (cfg : AxisGroupConfig P) (axis : AxisConfig P) :
    (axisCode cfg axis).length = 67 := by
  simp only [axisCode, emitAxis, emitJumpIfNot, AxisGroup.emitJumpIfNot, map_bare_patchJump,
    List.map_append, List.append_assoc, List.nil_append]
  rfl

/-- The program without its `Halt`, as the machine reads it. -/
def body (cfg : AxisGroupConfig P) : List (Instruction P) :=
  loadConstants rZero rOne ++ cfg.axes.flatMap (axisCode cfg)

theorem map_bare_program (cfg : AxisGroupConfig P) :
    (program cfg).instructions.map Instruction.bare = body cfg ++ [.halt] := by
  rw [program, List.map_append, map_bare_foldl (map_bare_emitAxis cfg)]
  rfl

/-- The whole program goes through all the states of every axis. -/
theorem body_takes (cfg : AxisGroupConfig P) (pc : ℕ) (t : SignalTable P) :
    Takes pc (body cfg) (onlyTable t)
      (constants rZero rOne (writes t (scanWrites cfg))) :=
  takes_axes (fun _ => takes_of_constants ⟨_, rfl, rfl, rfl, rfl⟩)
    (fun axis _ _ t => takes_of_constants (axisCode_run cfg axis t)) t

/-- A scan of the homing program. -/
theorem scans_program (cfg : AxisGroupConfig P) (t t' : SignalTable P) :
    Scans (program cfg).instructions t t' ↔ t' = writes t (scanWrites cfg) := by
  rw [← scans_map_bare, map_bare_program]
  exact (body_takes cfg 0 t).scans t'

/-! ### Runs of scans -/

/-- The state of an axis. -/
def stateOf (cfg : AxisGroupConfig P) (t : SignalTable P)
    (axis : AxisConfig P) : Option ℕ :=
  match t (cfg.signal axis.index "homing_state") with
  | some (.u8 n) => some n.toNat
  | _ => none

/-- The limit switch that the axis searches is active. -/
def LimitActive (cfg : AxisGroupConfig P) (t : SignalTable P)
    (axis : AxisConfig P) : Prop :=
  IsTrue (t (cfg.signal axis.index (limitSignal axis.homeDirection)))

/-- Every axis is idle and not homed. -/
def Idle (cfg : AxisGroupConfig P) (t : SignalTable P) : Prop :=
  ∀ axis ∈ cfg.axes, stateOf cfg t axis = some stIdle ∧ ¬Homed cfg t axis

/-- The limit switches: the level of the one of an axis in a direction. -/
abbrev LimitInputs := UInt8 → HomeDirection → Bool

/-- The inputs of an axis, as they are written into the table. -/
def axisInputs (cfg : AxisGroupConfig P) (inputs : LimitInputs) (axis : AxisConfig P) :
    List (String × HalValue P) :=
  [(cfg.signal axis.index "limit_pos", .bool (inputs axis.index .positive)),
    (cfg.signal axis.index "limit_neg", .bool (inputs axis.index .negative))]

/-- The table with the levels of the limit switches. -/
def withInputs (cfg : AxisGroupConfig P) (inputs : LimitInputs)
    (t : SignalTable P) : SignalTable P :=
  writes t (cfg.axes.flatMap (axisInputs cfg inputs))

/-- The signal tables before and after a scan. -/
structure ScanRecord (P : Platform) where
  before : SignalTable P
  after : SignalTable P

/-- A run of scans, one for each element of the list of inputs. Between two scans only the
limit switches change. -/
inductive Trace (cfg : AxisGroupConfig P) :
    SignalTable P → List LimitInputs → List (ScanRecord P) → Prop
  | nil {t} : Trace cfg t [] []
  | scan {t t' inputs rest scans} :
      Scans (program cfg).instructions (withInputs cfg inputs t) t' →
      Trace cfg t' rest scans →
      Trace cfg t (inputs :: rest) (⟨withInputs cfg inputs t, t'⟩ :: scans)

/-- The axes are homed as the state machine of the design says. -/
structure HomedInSequence (cfg : AxisGroupConfig P)
    (scans : List (ScanRecord P)) : Prop where
  /-- A homed axis has seen its limit switch active, and released in a later scan. -/
  switchSeen : ∀ (i : ℕ) (scan : ScanRecord P), scans[i]? = some scan →
    ∀ axis ∈ cfg.axes, Homed cfg scan.after axis →
      ∃ (j k : ℕ) (seek latch : ScanRecord P), j < k ∧ k ≤ i ∧
        scans[j]? = some seek ∧ stateOf cfg seek.before axis = some stSeek ∧
        LimitActive cfg seek.before axis ∧
        scans[k]? = some latch ∧ stateOf cfg latch.before axis = some stLatch ∧
        ¬LimitActive cfg latch.before axis
  /-- An axis advances at most one state in a scan. -/
  oneState : ∀ scan ∈ scans, ∀ axis ∈ cfg.axes, ∀ n n', stateOf cfg scan.before axis = some n →
    stateOf cfg scan.after axis = some n' → n' = n ∨ n' = n + 1
  /-- An axis leaves `IDLE` after all earlier ones are done. -/
  inOrder : ∀ scan ∈ scans, cfg.axes.Pairwise fun earlier axis =>
    stateOf cfg scan.before axis = some stIdle → stateOf cfg scan.after axis ≠ some stIdle →
      stateOf cfg scan.before earlier = some stDone

/-- There is a run for every list of inputs. -/
theorem exists_trace (cfg : AxisGroupConfig P) (t : SignalTable P)
    (ins : List LimitInputs) : ∃ scans, Trace cfg t ins scans := by
  induction ins generalizing t with
  | nil => exact ⟨[], .nil⟩
  | cons inputs ins ih =>
      obtain ⟨scans, hscans⟩ := ih (writes (withInputs cfg inputs t) (scanWrites cfg))
      exact ⟨_, .scan ((scans_program cfg _ _).mpr rfl) hscans⟩

/-! ### One scan homes every axis -/

/-- What the code of an axis leaves in the state of an axis. -/
theorem last_axisWrites (cfg : AxisGroupConfig P) (axis : AxisConfig P) (i : UInt8) :
    last (axisWrites cfg axis) (cfg.signal i "homing_state") =
      if cfg.signal axis.index "homing_state" = cfg.signal i "homing_state" then
        some (.u8 4)
      else none := by
  have hne : ∀ s ∈ ["vel_cmd", "enable", "pos_cmd", "homed"],
      cfg.signal axis.index s ≠ cfg.signal i "homing_state" := by
    intro s hs
    refine cfg.signal_ne ?_ ?_ (by decide) _ _ <;> revert s <;> decide
  simp only [List.forall_mem_cons] at hne
  obtain ⟨hvel, henable, hpos, hhomed, -⟩ := hne
  simp only [axisWrites, last_cons, last_nil, hvel, henable, hpos, hhomed, if_false,
    Option.or_none, Option.none_or]
  split <;> rfl

/-- After a scan every axis is done. -/
theorem stateOf_scanWrites (cfg : AxisGroupConfig P) {axis : AxisConfig P}
    (haxis : axis ∈ cfg.axes) (t : SignalTable P) :
    stateOf cfg (writes t (scanWrites cfg)) axis = some stDone := by
  have hlast : last (scanWrites cfg) (cfg.signal axis.index "homing_state") =
      some (.u8 4) := by
    refine last_flatMap (fun other _ => ?_) haxis ?_
    · rw [last_axisWrites]
      split
      · exact Or.inr rfl
      · exact Or.inl rfl
    · rw [last_axisWrites, if_pos rfl]
  rw [stateOf, writes_apply, hlast]
  rfl

/-- The limit switches are no state. -/
theorem stateOf_withInputs (cfg : AxisGroupConfig P) (inputs : LimitInputs)
    (axis : AxisConfig P) (t : SignalTable P) :
    stateOf cfg (withInputs cfg inputs t) axis = stateOf cfg t axis := by
  have hlast : last (cfg.axes.flatMap (axisInputs cfg inputs))
      (cfg.signal axis.index "homing_state") = none := by
    rw [last_eq_none_iff]
    intro hmem
    obtain ⟨e, he, hkey⟩ := List.mem_map.mp hmem
    obtain ⟨other, -, he⟩ := List.mem_flatMap.mp he
    rcases List.mem_cons.mp he with rfl | he
    · exact cfg.signal_ne (by decide) (by decide) (by decide) _ _ hkey
    · obtain rfl := List.mem_singleton.mp he
      exact cfg.signal_ne (by decide) (by decide) (by decide) _ _ hkey
  simp only [stateOf, withInputs, writes_apply_of_last hlast]

/-- A scan takes an idle axis through all states at once. -/
theorem not_homedInSequence {cfg : AxisGroupConfig P} {t : SignalTable P}
    (hidle : Idle cfg t) {axis : AxisConfig P} (haxis : axis ∈ cfg.axes)
    {inputs : LimitInputs} {ins : List LimitInputs}
    {scans : List (ScanRecord P)}
    (h : Trace cfg t (inputs :: ins) scans) : ¬HomedInSequence cfg scans := by
  intro hseq
  cases h with
  | scan hscan hrest =>
      obtain rfl := (scans_program cfg _ _).mp hscan
      have hbefore := (stateOf_withInputs cfg inputs axis t).trans (hidle axis haxis).1
      have hafter := stateOf_scanWrites cfg haxis (withInputs cfg inputs t)
      have hone := hseq.oneState _ List.mem_cons_self axis haxis _ _ hbefore hafter
      exact absurd hone (by decide)

/-- The axes are homed in sequence only where there is nothing to home: no scan, or no
axis. -/
theorem homedInSequence_iff (cfg : AxisGroupConfig P) (t : SignalTable P)
    (hidle : Idle cfg t) (ins : List LimitInputs) :
    (∀ scans, Trace cfg t ins scans → HomedInSequence cfg scans) ↔
      ins = [] ∨ cfg.axes = [] := by
  constructor
  · intro h
    cases ins with
    | nil => exact Or.inl rfl
    | cons inputs ins =>
        refine Or.inr (List.eq_nil_iff_forall_not_mem.mpr fun axis haxis => ?_)
        obtain ⟨scans, hscans⟩ := exists_trace cfg t (inputs :: ins)
        exact not_homedInSequence hidle haxis hscans (h scans hscans)
  · rintro (rfl | hnone) scans htrace
    · cases htrace
      exact ⟨nofun, nofun, nofun⟩
    · refine ⟨?_, ?_, ?_⟩
      · intro i scan _ axis haxis
        rw [hnone] at haxis
        cases haxis
      · intro scan _ axis haxis
        rw [hnone] at haxis
        cases haxis
      · intro scan _
        rw [hnone]
        exact List.Pairwise.nil

/-- A table in which every axis is idle. -/
def idleTable (cfg : AxisGroupConfig P) : SignalTable P :=
  writes (fun _ => some (.u8 0))
    (cfg.axes.flatMap fun axis => [(cfg.signal axis.index "homed", .bool false)])

theorem idle_idleTable (cfg : AxisGroupConfig P) : Idle cfg (idleTable cfg) := by
  intro axis haxis
  constructor
  · have hlast : last (cfg.axes.flatMap fun axis =>
        [(cfg.signal axis.index "homed", (.bool false : HalValue P))])
        (cfg.signal axis.index "homing_state") = none := by
      rw [last_eq_none_iff]
      intro hmem
      obtain ⟨e, he, hkey⟩ := List.mem_map.mp hmem
      obtain ⟨other, -, he⟩ := List.mem_flatMap.mp he
      obtain rfl := List.mem_singleton.mp he
      exact cfg.signal_ne (by decide) (by decide) (by decide) _ _ hkey
    simp only [stateOf, idleTable, writes_apply_of_last hlast]
    rfl
  · have hlast : last (cfg.axes.flatMap fun axis =>
        [(cfg.signal axis.index "homed", (.bool false : HalValue P))])
        (cfg.signal axis.index "homed") = some (.bool false) := by
      refine last_flatMap (fun other _ => ?_) haxis ?_
      · by_cases h : cfg.signal other.index "homed" = cfg.signal axis.index "homed"
        · exact Or.inr (by simp only [last_cons, last_nil, h, if_true, Option.none_or])
        · exact Or.inl (by simp only [last_cons, last_nil, h, if_false, Option.none_or])
      · simp only [last_cons, last_nil, if_true, Option.none_or]
    rw [Homed, idleTable, writes_apply, hlast]
    rintro (h | h) <;> cases h

/-- The default group with limit switches that are never active: one scan homes its
axes. -/
theorem homedInSequence_fails_at_xyz :
    ¬∀ scans, Trace xyz (idleTable xyz) [fun _ _ => false] scans →
      HomedInSequence xyz scans := by
  intro h
  obtain ⟨scans, hscans⟩ := exists_trace xyz (idleTable xyz) [fun _ _ => false]
  exact not_homedInSequence (idle_idleTable xyz) List.mem_cons_self hscans (h scans hscans)

theorem homedInSequence_iff_xyz :
    (∀ scans, Trace xyz (idleTable xyz) [fun _ _ => false] scans →
      HomedInSequence xyz scans) ↔
      [fun _ _ => false] = ([] : List LimitInputs) ∨ xyz.axes = [] :=
  homedInSequence_iff xyz (idleTable xyz) (idle_idleTable xyz) [fun _ _ => false]

end Homing

end Weftik.AxisGroup
