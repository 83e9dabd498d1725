import Weftik.Control
import Weftik.Frame
import Weftik.Lib.Table

/-!
# The Execution Phase of the Engine

Once per cycle the engine runs the loaded program: it resets the machine, copies the value
of every registered signal into the machine's signal table, runs to the halt, copies the
table back into the registry, and resets the machine again. The table and the registry are
hash maps, so the order of the two copies is not fixed.

## Main definitions

* `SignalDef`, `SignalRegistry`: the registered signals, one definition for each name.
* `Executor.scanStores`: what a scan stores, in order.
* `HalExecution`: one execution phase.

## Main results

* `Vm.executeInstruction_signals`: only `Store` changes the signal table.
* `Executor.signals_stateAfter`: the signal table in the middle of a scan.
* `HalExecution.refines`: the phase as one update of the registry.
-/

open Outcome Table

namespace Weftik

variable {P : Platform}

/-! ### The signal registry -/

/-- Who writes a signal. The function of a computed signal, which the execution phase does
not call, is left out. -/
inductive WriteStrategy
  | own | monitored | computed
  deriving DecidableEq, Repr

/-- A registered signal. -/
structure SignalDef (P : Platform) where
  name : String
  pinType : HalPinType
  value : HalValue P
  strategy : WriteStrategy
  deriving DecidableEq

/-- The registered signals, in the order in which the hash map gives them. -/
structure SignalRegistry (P : Platform) where
  defs : List (SignalDef P)
  nodup : (defs.map SignalDef.name).Nodup

/-- The definition with another value. -/
def SignalDef.setValue (d : SignalDef P) (value : HalValue P) : SignalDef P :=
  { d with value := value }

namespace SignalRegistry

/-- The definition of a name. -/
def get (r : SignalRegistry P) (name : String) : Option (SignalDef P) :=
  r.defs.find? (·.name = name)

/-- Register a signal; a name is registered once. -/
def register (r : SignalRegistry P) (d : SignalDef P) : Except String (SignalRegistry P) :=
  if h : d.name ∈ r.defs.map SignalDef.name then .error ("already registered: " ++ d.name)
  else .ok ⟨d :: r.defs, List.nodup_cons.mpr ⟨h, r.nodup⟩⟩

/-- The registry with the value of each signal replaced by a function of the signal. -/
def mapValues (r : SignalRegistry P) (f : SignalDef P → HalValue P) : SignalRegistry P where
  defs := r.defs.map fun d => d.setValue (f d)
  nodup := by
    rw [List.map_map]
    exact r.nodup

/-- Replace the value of a registered signal. -/
def updateValue (r : SignalRegistry P) (name : String) (value : HalValue P) :
    Except String (SignalRegistry P) :=
  if name ∈ r.defs.map SignalDef.name then
    .ok (r.mapValues fun d => if d.name = name then value else d.value)
  else .error ("not found: " ++ name)

/-- The names and values that the engine copies into the signal table. -/
def snapshots (r : SignalRegistry P) : List (String × HalValue P) :=
  r.defs.map fun d => (d.name, d.value)

/-- Copy the signal table of a machine into the registry, name by name. A name that is not
registered is passed over. -/
def publish (r : SignalRegistry P) (vm : Vm P) (names : List String) : SignalRegistry P :=
  names.foldl
    (fun r name =>
      match vm.readSignal name with
      | none => r
      | some value =>
          match r.updateValue name value with
          | .ok r' => r'
          | .error _ => r)
    r

theorem mapValues_defs (r : SignalRegistry P) (f : SignalDef P → HalValue P) :
    (r.mapValues f).defs = r.defs.map fun d => d.setValue (f d) := rfl

/-- What the registry holds after some of the keys of the table have been copied. -/
theorem publish_eq (r : SignalRegistry P) (vm : Vm P) (names : List String) :
    (r.publish vm names).defs =
      r.defs.map fun d =>
        d.setValue (if d.name ∈ names then (vm.signals d.name).getD d.value else d.value) := by
  induction names generalizing r with
  | nil => exact (List.map_id' r.defs).symm
  | cons name names ih =>
      rw [publish, List.foldl_cons]
      refine (ih _).trans ?_
      cases hread : vm.readSignal name with
      | none =>
          refine List.map_congr_left fun d _ => congrArg _ ?_
          rw [Vm.readSignal] at hread
          by_cases hd : d.name = name
          · simp [hd, hread]
          · simp [hd]
      | some value =>
          rw [Vm.readSignal] at hread
          by_cases hmem : name ∈ r.defs.map SignalDef.name
          · simp only [updateValue, if_pos hmem, mapValues_defs, List.map_map]
            refine List.map_congr_left fun d _ => ?_
            by_cases hd : d.name = name
            · simp [SignalDef.setValue, hd, hread]
            · simp [SignalDef.setValue, hd]
          · simp only [updateValue, if_neg hmem]
            refine List.map_congr_left fun d hd => congrArg _ ?_
            have hne : d.name ≠ name := by
              rintro rfl
              exact hmem (List.mem_map_of_mem hd)
            simp [hne]

end SignalRegistry

/-! ### Only `Store` changes the signal table -/

namespace Vm

theorem execTimerRun_keepsSignals (vm : Vm P) (ops : List (Operand P)) :
    vm.Keeps Vm.signals (vm.execTimerRun ops) := by
  unfold execTimerRun
  split
  · dsimp only
    split
    · exact .bind fun _ => .pure rfl
    · exact .pure rfl
  · exact .pure rfl

theorem execReadTimer_keepsSignals (vm : Vm P) (ops : List (Operand P)) :
    vm.Keeps Vm.signals (vm.execReadTimer ops) := by
  unfold execReadTimer
  split
  · dsimp only
    split
    · exact apart_signals.free.writeTwice rfl _ _ _ _
    · exact .pure rfl
  · exact .pure rfl

/-- An instruction other than `Store` leaves the signal table alone. -/
theorem executeInstruction_signals (vm : Vm P) {inst : Instruction P}
    (h : inst.opcode ≠ .store) :
    Ends (vm.executeInstruction inst) (fun p => p.1.signals = vm.signals) fun _ => True := by
  by_cases hrun : inst.opcode = .timerRun
  · simp only [executeInstruction, hrun]
    exact (execTimerRun_keepsSignals vm inst.operands).continues
  · by_cases hread : inst.opcode = .readTimer
    · simp only [executeInstruction, hread]
      exact (execReadTimer_keepsSignals vm inst.operands).continues
    · exact executeInstruction_keeps apart_signals vm h hrun hread

/-- What an instruction stores, and under which name. -/
def stores (vm : Vm P) (inst : Instruction P) : List (String × HalValue P) :=
  match inst.opcode, inst.operands with
  | .store, .signalName name :: value :: _ =>
      match vm.readReg value with
      | .ok v => [(name, v)]
      | .error _ => []
  | _, _ => []

/-- What an instruction does to the signal table. -/
theorem executeInstruction_writes (vm : Vm P) (inst : Instruction P) :
    Ends (vm.executeInstruction inst)
      (fun p => p.1.signals = writes vm.signals (vm.stores inst)) fun _ => True := by
  by_cases hop : inst.opcode = .store
  · obtain ⟨opcode, ops⟩ := inst
    obtain rfl : opcode = .store := hop
    rcases ops with _ | ⟨_ | _ | name, _ | ⟨value, rest⟩⟩
    · rfl
    · rfl
    · rfl
    · rfl
    · rfl
    · rfl
    · simp only [executeInstruction, execStore, stores]
      cases vm.readReg value with
      | ok v => rfl
      | error e => trivial
  · have hnone : vm.stores inst = [] := by
      unfold stores
      split
      · rename_i hstore _
        exact absurd hstore hop
      · rfl
    rw [hnone]
    exact executeInstruction_signals vm hop

end Vm

/-! ### A scan -/

namespace Executor

/-- What the next step stores: nothing when it stops at a breakpoint. -/
def stores (e : Executor P) : List (String × HalValue P) :=
  match e.program.instructions[e.vm.ip]? with
  | none => []
  | some inst => if e.atBreakpoint then [] else e.vm.stores inst

/-- The interpreter after the given number of steps that do not end the scan. -/
def stateAfter : ℕ → Executor P → Option (Executor P)
  | 0, e => some e
  | k + 1, e =>
      match e.step with
      | .ok (e', .cont) => stateAfter k e'
      | _ => none

/-- What the first steps of a scan store, in order, up to the end of the scan. -/
def scanStores : ℕ → Executor P → List (String × HalValue P)
  | 0, _ => []
  | k + 1, e =>
      match e.step with
      | .ok (e', .cont) => e.stores ++ scanStores k e'
      | .ok _ => e.stores
      | .error _ => []

/-- The signal table after a step. -/
theorem step_signals {e e' : Executor P} {result : ExecutorResult}
    (h : e.step = .ok (e', result)) : e'.vm.signals = writes e.vm.signals e.stores := by
  cases hinst : e.program.instructions[e.vm.ip]? with
  | none => simp only [step, hinst] at h; cases h
  | some inst =>
      cases hbreak : e.atBreakpoint with
      | true =>
          rw [step_atBreakpoint hinst hbreak] at h
          cases h
          simp only [stores, hinst, hbreak, if_true, writes_nil]
      | false =>
          have hstores : e.stores = e.vm.stores inst := by
            simp only [stores, hinst, hbreak, Bool.false_eq_true, if_false]
          rw [hstores]
          rw [atBreakpoint] at hbreak
          simp only [step, hinst, hbreak] at h
          obtain ⟨p, hexec, hp⟩ := bind_eq_ok h
          have hwrites := (e.vm.executeInstruction_writes inst).of_ok hexec
          cases hp
          rw [← hwrites, Vm.advanceUnlessJump]
          split <;> rfl

/-- The signal table in the middle of a scan: the table at its start under the stores so
far. -/
theorem signals_stateAfter {k : ℕ} {e e' : Executor P} (h : e.stateAfter k = some e') :
    e'.vm.signals = writes e.vm.signals (e.scanStores k) := by
  induction k generalizing e with
  | zero =>
      obtain rfl := Option.some.inj h
      rfl
  | succ k ih =>
      rw [stateAfter] at h
      rw [scanStores]
      split at h
      · rename_i e₁ hstep
        rw [hstep, writes_append, ← step_signals hstep]
        exact ih h
      · cases h

/-- The signal table at the end of a scan: the table at its start under all the stores. -/
theorem signals_runToHalt {fuel steps : ℕ} {e e' : Executor P}
    (h : runToHalt fuel e = some (.ok (e', steps))) :
    e'.vm.signals = writes e.vm.signals (e.scanStores steps) := by
  induction fuel generalizing e steps with
  | zero => cases h
  | succ fuel ih =>
      rw [runToHalt] at h
      cases hstep : e.step with
      | error panic => rw [hstep] at h; cases h
      | ok p =>
          obtain ⟨e₁, result⟩ := p
          rw [hstep] at h
          cases result with
          | cont =>
              obtain ⟨o, hrun, ho⟩ := Option.map_eq_some_iff.mp h
              cases o with
              | error panic => cases ho
              | ok q =>
                  cases ho
                  rw [scanStores, hstep, writes_append, ← step_signals hstep]
                  exact ih hrun
          | halted =>
              cases h
              rw [scanStores, hstep]
              exact step_signals hstep
          | breaked =>
              cases h
              rw [scanStores, hstep]
              exact step_signals hstep

/-- The interpreter as the engine starts a scan: reset, with the cycle time and the values
of the registered signals. -/
def startScan (e : Executor P) (cycleMs : ℕ) (registry : SignalRegistry P) : Executor P :=
  { e with
    vm := registry.snapshots.foldl (fun vm s => vm.writeSignal s.1 s.2)
      { e.reset.vm with cycleTimeMs := cycleMs } }

end Executor

/-- One execution phase: the registry and the interpreter before it and after it. The
signal table is copied back in the order in which the hash map gives its names. -/
inductive HalExecution (cycleMs : ℕ) (registry : SignalRegistry P) (e : Executor P) :
    SignalRegistry P → Executor P → Prop
  | publish {halted : Executor P} {fuel steps : ℕ} {names : List String} :
      Executor.runToHalt fuel (e.startScan cycleMs registry) = some (.ok (halted, steps)) →
      IsKeys halted.vm.signals names →
      HalExecution cycleMs registry e (registry.publish halted.vm names) halted.reset

/-! ### The phase as an update of the registry -/

/-- The table that the registry copies into the machine. -/
def SignalRegistry.table (r : SignalRegistry P) : String → Option (HalValue P) :=
  fun name => (r.get name).map SignalDef.value

theorem Vm.foldl_writeSignal_signals (vm : Vm P) (entries : List (String × HalValue P)) :
    (entries.foldl (fun vm s => vm.writeSignal s.1 s.2) vm).signals =
      writes vm.signals entries := by
  induction entries generalizing vm with
  | nil => rfl
  | cons s entries ih => exact ih _

theorem SignalRegistry.snapshots_fst (r : SignalRegistry P) :
    r.snapshots.map Prod.fst = r.defs.map SignalDef.name := by
  rw [snapshots, List.map_map]
  rfl

/-- The value of a registered signal. -/
theorem SignalRegistry.table_of_mem {r : SignalRegistry P} {d : SignalDef P}
    (hd : d ∈ r.defs) : r.table d.name = some d.value := by
  obtain ⟨d', hfind⟩ : ∃ d', r.get d.name = some d' := by
    rw [← Option.isSome_iff_exists, get, List.find?_isSome]
    exact ⟨d, hd, decide_eq_true rfl⟩
  have hname : d'.name = d.name := by
    rw [get] at hfind
    simpa using List.find?_some hfind
  obtain rfl : d' = d :=
    List.inj_on_of_nodup_map r.nodup (List.mem_of_find?_eq_some hfind) hd hname
  rw [table, hfind]
  rfl

/-- A name that is not registered has no value. -/
theorem SignalRegistry.table_of_not_mem {r : SignalRegistry P} {name : String}
    (h : name ∉ r.defs.map SignalDef.name) : r.table name = none := by
  rw [table, Option.map_eq_none_iff, get, List.find?_eq_none]
  intro d hd heq
  exact h (List.mem_map.mpr ⟨d, hd, of_decide_eq_true heq⟩)

/-- The signal table at the start of a scan is that of the registry. -/
theorem Executor.startScan_signals (e : Executor P) (cycleMs : ℕ)
    (registry : SignalRegistry P) :
    (e.startScan cycleMs registry).vm.signals = registry.table := by
  have hsignals : (e.startScan cycleMs registry).vm.signals =
      writes (fun _ => none) registry.snapshots :=
    Vm.foldl_writeSignal_signals _ _
  rw [hsignals]
  funext name
  rw [writes_apply, Option.or_none]
  by_cases hmem : name ∈ registry.defs.map SignalDef.name
  · obtain ⟨d, hd, rfl⟩ := List.mem_map.mp hmem
    rw [SignalRegistry.table_of_mem hd]
    have hnodup : (registry.snapshots.map Prod.fst).Nodup := by
      rw [SignalRegistry.snapshots_fst]
      exact registry.nodup
    exact last_eq_some_of_mem hnodup
      (List.mem_map_of_mem hd : (d.name, d.value) ∈ registry.snapshots)
  · rw [SignalRegistry.table_of_not_mem hmem, last_eq_none_iff,
      SignalRegistry.snapshots_fst]
    exact hmem

/-- The table that a scan leaves has an enumeration of its names. -/
theorem Executor.exists_isKeys {fuel steps cycleMs : ℕ} {registry : SignalRegistry P}
    {e halted : Executor P}
    (h : runToHalt fuel (e.startScan cycleMs registry) = some (.ok (halted, steps))) :
    ∃ names, IsKeys halted.vm.signals names := by
  have hstart : (e.startScan cycleMs registry).vm.signals =
      writes (fun _ => none) registry.snapshots :=
    Vm.foldl_writeSignal_signals _ _
  rw [signals_runToHalt h, hstart, ← writes_append]
  exact exists_isKeys_writes _

/-- The registry after the signal table has been copied back: each registered signal has
the last value stored under its name, or the value it had. -/
theorem SignalRegistry.publish_of_writes {r : SignalRegistry P} {vm : Vm P}
    {stores : List (String × HalValue P)} (htable : vm.signals = writes r.table stores)
    {names : List String} (hkeys : IsKeys vm.signals names) :
    (r.publish vm names).defs =
      r.defs.map fun d => d.setValue ((last stores d.name).getD d.value) := by
  rw [publish_eq]
  refine List.map_congr_left fun d hd => congrArg _ ?_
  have hvalue : vm.signals d.name = (last stores d.name).or (some d.value) := by
    rw [htable, writes_apply, table_of_mem hd]
  rw [if_pos ((hkeys.mem_iff d.name).mpr (by rw [hvalue]; cases last stores d.name <;> rfl)),
    hvalue]
  cases last stores d.name <;> rfl

/-- A `Load` of a signal reads the signal table, where a name without an entry counts as
`false`. -/
theorem Executor.step_loadSignal {e : Executor P} {dest : ℕ} {name : String}
    {rest : List (Operand P)}
    (h : e.Executes ⟨.load, .register dest :: .signalName name :: rest⟩) (hdest : dest < 16) :
    ∃ e', e.step = .ok (e', .cont) ∧
      e'.vm.reg dest = (e.vm.signals name).getD (.bool false) := by
  obtain ⟨hinst, hbreak⟩ := h
  rw [atBreakpoint] at hbreak
  simp only [step, hinst, hbreak, Vm.executeInstruction, Vm.execLoad,
    Vm.writeRegister_of_lt hdest, Vm.readSignal]
  refine ⟨_, rfl, ?_⟩
  exact (Vm.reg_setReg hdest dest).trans (if_pos rfl)

/-- The result of running to the halt does not depend on the fuel. -/
theorem Executor.runToHalt_unique {fuel fuel' : ℕ} {e : Executor P}
    {o o' : Except Panic (Executor P × ℕ)} (h : runToHalt fuel e = some o)
    (h' : runToHalt fuel' e = some o') : o = o' := by
  induction fuel generalizing fuel' e o o' with
  | zero => cases h
  | succ fuel ih =>
      cases fuel' with
      | zero => cases h'
      | succ fuel' =>
          rw [runToHalt] at h h'
          cases hstep : e.step with
          | error panic =>
              rw [hstep] at h h'
              exact (Option.some.inj h).symm.trans (Option.some.inj h')
          | ok p =>
              obtain ⟨e', _ | _ | _⟩ := p
              · rw [hstep] at h h'
                obtain ⟨q, hq, rfl⟩ := Option.map_eq_some_iff.mp h
                obtain ⟨q', hq', rfl⟩ := Option.map_eq_some_iff.mp h'
                rw [ih hq hq']
              · rw [hstep] at h h'
                exact (Option.some.inj h).symm.trans (Option.some.inj h')
              · rw [hstep] at h h'
                exact (Option.some.inj h).symm.trans (Option.some.inj h')

/-- The execution phase of a program that halts. It can be completed, and in whatever order
the hash map gives the names, the registry afterwards differs from the one before it in the
values only: a signal has the last value that the scan stored under its name, or its old
value. And every `Load` of a signal in the scan reads the latest value that the scan has
stored under the name, or the value in the registry at the start of the scan. -/
theorem HalExecution.refines {cycleMs fuel steps : ℕ} {registry : SignalRegistry P}
    {e halted : Executor P}
    (hrun : (e.startScan cycleMs registry).runToHalt fuel = some (.ok (halted, steps))) :
    (∃ registry' e', HalExecution cycleMs registry e registry' e') ∧
      (∀ registry' e', HalExecution cycleMs registry e registry' e' →
        e' = halted.reset ∧
          registry'.defs = registry.defs.map fun d => d.setValue
            ((last ((e.startScan cycleMs registry).scanStores steps) d.name).getD d.value)) ∧
      ∀ k eₖ dest name rest, (e.startScan cycleMs registry).stateAfter k = some eₖ →
        eₖ.Executes ⟨.load, .register dest :: .signalName name :: rest⟩ → dest < 16 →
        ∃ e', eₖ.step = .ok (e', .cont) ∧
          e'.vm.reg dest =
            ((last ((e.startScan cycleMs registry).scanStores k) name).or
              (registry.table name)).getD (.bool false) := by
  have hstart := e.startScan_signals cycleMs registry
  refine ⟨?_, ?_, ?_⟩
  · obtain ⟨names, hkeys⟩ := Executor.exists_isKeys hrun
    exact ⟨_, _, .publish hrun hkeys⟩
  · rintro registry' e' ⟨hrun', hkeys⟩
    cases Executor.runToHalt_unique hrun hrun'
    have htable := Executor.signals_runToHalt hrun
    rw [hstart] at htable
    exact ⟨rfl, SignalRegistry.publish_of_writes htable hkeys⟩
  · intro k eₖ dest name rest hk hload hdest
    obtain ⟨e', hstep, hreg⟩ := Executor.step_loadSignal hload hdest
    refine ⟨e', hstep, ?_⟩
    rw [hreg, Executor.signals_stateAfter hk, writes_apply, hstart]

/-- A scan that stores twice under one registered name and once under an unregistered one. -/
def storingProgram : HalProgram Platform.exact :=
  HalProgram.new "storing"
    [.loadImm 0 (.s32 5), .storeSignal "a" 1, .storeSignal "a" 0, .storeSignal "c" 0, .halt]

/-- A registry of two signals. -/
def twoSignals : SignalRegistry Platform.exact where
  defs := [⟨"a", .s32, .s32 1, .own⟩, ⟨"b", .s32, .s32 2, .own⟩]
  nodup := by decide

/-- The last store counts, and the unregistered name is passed over. -/
theorem HalExecution.refines_storing :
    ∃ registry' e', HalExecution 10 twoSignals (Executor.new storingProgram) registry' e' ∧
      registry'.defs = [⟨"a", .s32, .s32 5, .own⟩, ⟨"b", .s32, .s32 2, .own⟩] := by
  have hrun : ((Executor.new storingProgram).startScan 10 twoSignals).runToHalt 5 =
      some (.ok (_, 5)) := rfl
  obtain ⟨⟨registry', e', h⟩, hdefs, -⟩ := refines hrun
  exact ⟨registry', e', h, (hdefs registry' e' h).2⟩

end Weftik
