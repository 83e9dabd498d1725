import Weftik.Vm
import Weftik.Lib.Machine
import Weftik.Lib.Outcome

/-!
# The Executor

One instruction at a time: the executor fetches the instruction at `ip`, dispatches on the
opcode, and advances `ip` unless the opcode is one of the three it takes to set `ip`
itself. An instruction whose operands are too few or of the wrong kind does nothing and
execution goes on. The debugger stops before a breakpoint and records a trace entry after
each instruction.

## Main definitions

* `Vm.executeInstruction`: the dispatch over the opcodes.
* `Executor.step`, `Executor.runToHalt`: the interpreter with its debugger.
* `Vm.step`: the interpreter without the debugger, as a machine.

## Main results

* `Executor.step_eq`: a step that does not stop at a breakpoint is a step of the machine.
-/

open Outcome

namespace Weftik

/-- The result of executing one instruction. -/
inductive ExecutorResult
  | cont | halted | breaked
  deriving DecidableEq, Repr

variable {P : Platform}

namespace Vm

/-! ### Operands -/

/-- The content of a register operand, `S32(0)` for any other operand. -/
def readReg (vm : Vm P) : Operand P → Except Panic (HalValue P)
  | .register r => vm.readRegister r
  | _ => pure (.s32 0)

/-- The register of a destination operand, `r0` for any other operand. -/
def destReg : Operand P → ℕ
  | .register r => r
  | _ => 0

/-- The target of a call. -/
def readU32Operand : Option (Operand P) → ℕ
  | some (.immediate (.u32 v)) => v.toNat
  | some (.immediate (.s32 v)) => (v.toInt % 2 ^ 32).toNat
  | _ => 0

/-- The cast of a machine integer to `usize`, which extends the sign. -/
def asUsize {α : Type} [MachineInt α] (n : α) : ℕ :=
  (MachineInt.toInt n % 2 ^ 64).toNat

/-- The index that a register gives to an array instruction. -/
def valueAsUsize : HalValue P → ℕ
  | .s32 n => asUsize n
  | .s16 n => asUsize n
  | .s8 n => asUsize n
  | .u32 n => asUsize n
  | .u16 n => asUsize n
  | .u8 n => asUsize n
  | .s64 n => asUsize n
  | .u64 n => asUsize n
  | _ => 0

/-- The content of a boolean register, `false` for any other value. -/
def asBool : HalValue P → Bool
  | .bool b => b
  | _ => false

/-- A list extended with copies of a value until the index is in range. -/
def grow {α : Type} (l : List α) (idx : ℕ) (a : α) : List α :=
  l ++ List.replicate (idx + 1 - l.length) a

/-! ### Data movement -/

/-- `Load`: a literal, a register or a signal into a register. A signal that is not in the
table reads as `false`. -/
def execLoad (vm : Vm P) : List (Operand P) → Except Panic (Vm P)
  | .register dest :: .immediate v :: _ => vm.writeRegister dest v
  | .register dest :: .register r :: _ => do
      let value ← vm.readRegister r
      vm.writeRegister dest value
  | .register dest :: .signalName name :: _ =>
      vm.writeRegister dest ((vm.readSignal name).getD (.bool false))
  | _ => pure vm

/-- `Store`: a register into the signal table. -/
def execStore (vm : Vm P) : List (Operand P) → Except Panic (Vm P)
  | .signalName name :: value :: _ => do
      let value ← vm.readReg value
      pure (vm.writeSignal name value)
  | _ => pure vm

/-- `LoadIndex`: an array element into a register. -/
def execLoadIndex (vm : Vm P) : List (Operand P) → Except Panic (Vm P)
  | .register dest :: .register arrayReg :: .register idxReg :: _ => do
      let array ← vm.readRegister arrayReg
      let idx ← vm.readRegister idxReg
      let elem ← array.index (valueAsUsize idx)
      vm.writeRegister dest elem
  | _ => pure vm

/-- `StoreIndex`: a register into an array element. -/
def execStoreIndex (vm : Vm P) : List (Operand P) → Except Panic (Vm P)
  | .register arrayReg :: .register idxReg :: .register valueReg :: _ => do
      let array ← vm.readRegister arrayReg
      let idx ← vm.readRegister idxReg
      let value ← vm.readRegister valueReg
      let updated ← array.setIndex (valueAsUsize idx) value
      vm.writeRegister arrayReg updated
  | _ => pure vm

/-! ### Arithmetic and comparison -/

/-- An operation on two registers into a third. -/
def execArithBinop (vm : Vm P)
    (f : HalValue P → HalValue P → Except Panic (HalValue P)) :
    List (Operand P) → Except Panic (Vm P)
  | a :: b :: out :: _ => do
      let a ← vm.readReg a
      let b ← vm.readReg b
      let value ← f a b
      vm.writeRegister (destReg out) value
  | _ => pure vm

/-- The divisor test of `Div` and `Mod`: the three zeros that do not panic. -/
def isZeroDivisor (b : HalValue P) : Bool :=
  b.beq (.s32 0) || b.beq (.f32 P.f32.zero) || b.beq (.f64 P.f64.zero)

/-- The closure of `Div` and `Mod`: `S32(0)` on one of the three zeros. -/
def guardedDivision (op : ArithOp) (a b : HalValue P) : Except Panic (HalValue P) :=
  if isZeroDivisor b then pure (.s32 0) else HalValue.binop op a b

/-- An operation on one register into another. -/
def execUnary (vm : Vm P) (f : HalValue P → Except Panic (HalValue P)) :
    List (Operand P) → Except Panic (Vm P)
  | a :: out :: _ => do
      let a ← vm.readReg a
      let value ← f a
      vm.writeRegister (destReg out) value
  | _ => pure vm

/-- A comparison of two registers into the flag. -/
def execCompare (vm : Vm P) (f : HalValue P → HalValue P → Bool) :
    List (Operand P) → Except Panic (Vm P)
  | a :: b :: _ => do
      let a ← vm.readReg a
      let b ← vm.readReg b
      pure (vm.setFlagsZero (f a b))
  | _ => pure vm

/-! ### Control flow -/

/-- The target of a jump: a `U32` literal as the first operand. -/
def jumpTarget : List (Operand P) → Option ℕ
  | .immediate (.u32 target) :: _ => some target.toNat
  | _ => none

/-- `Jump`: without a target, `ip` stays where it is. -/
def execJump (vm : Vm P) (operands : List (Operand P)) : Vm P :=
  match jumpTarget operands with
  | some target => vm.setIp target
  | none => vm

/-- `JumpIf`: to the target when the flag is set, otherwise to the next instruction. -/
def execJumpIf (vm : Vm P) (operands : List (Operand P)) : Vm P :=
  match vm.flagsZero, jumpTarget operands with
  | true, some target => vm.setIp target
  | _, _ => vm.advanceIp

/-- `Call`: push the return address and go to the target. -/
def execCall (vm : Vm P) (operands : List (Operand P)) : Vm P :=
  (vm.pushCallIp (vm.ip + 1)).setIp (readU32Operand operands.head?)

/-- The copy of a register operand of `Ret` to `r0`. -/
def copyResult (vm : Vm P) : List (Operand P) → Except Panic (Vm P)
  | .register r :: _ => do
      let value ← vm.readRegister r
      vm.writeRegister 0 value
  | _ => pure vm

/-- `Ret`: pop the return address and go there; on an empty stack halt. -/
def execRet (vm : Vm P) (operands : List (Operand P)) :
    Except Panic (Vm P × ExecutorResult) :=
  match vm.callStack with
  | [] => pure (vm, .halted)
  | returnIp :: callStack => do
      let vm ← copyResult { vm with callStack := callStack } operands
      pure (vm.setIp returnIp, .cont)

/-! ### Function blocks -/

/-- The kind that the fourth operand of `TimerRun` encodes. -/
def timerKind : List (Operand P) → TimerKind
  | .immediate (.u32 k) :: _ => if k = 1 then .tof else if k = 2 then .tp else .ton
  | _ => .ton

/-- The preset time that an operand of `TimerRun` gives. -/
def timerPreset : Operand P → Option ℕ
  | .immediate (.u32 p) => some p.toNat
  | .immediate (.s32 p) => some (asUsize p)
  | _ => none

/-- `TimerRun`. The timer exists from here on even when the other operands do not fit. -/
def execTimerRun (vm : Vm P) : List (Operand P) → Except Panic (Vm P)
  | .immediate (.u32 i) :: input :: preset :: rest =>
      let kind := timerKind rest
      let vm := { vm with timers := grow vm.timers i.toNat ⟨kind, false, 0, false, 0⟩ }
      match input, timerPreset preset with
      | .register inReg, some pt => do
          let inVal ← vm.readRegister inReg
          let inBool := inVal.beq (.bool true)
          pure { vm with
            timers := vm.timers.modify i.toNat fun t =>
              { t with presetMs := pt, kind := kind }.tick inBool vm.cycleTimeMs }
      | _, _ => pure vm
  | _ => pure vm

/-- `ReadTimer`: the output and the elapsed time, cut to 32 bits. -/
def execReadTimer (vm : Vm P) : List (Operand P) → Except Panic (Vm P)
  | .immediate (.u32 i) :: q :: et :: _ =>
      let new : TimerState := ⟨.ton, false, 0, false, 0⟩
      let vm := { vm with timers := grow vm.timers i.toNat new }
      match q, et with
      | .register qDest, .register etDest => do
          let timer := vm.timers.getD i.toNat new
          let vm ← vm.writeRegister qDest (.bool timer.q)
          vm.writeRegister etDest (.u32 (UInt32.ofNat timer.elapsedMs))
      | _, _ => pure vm
  | _ => pure vm

/-- The kind that the last operand of `CounterRun` encodes. -/
def counterKind : Operand P → CounterKind
  | .immediate (.u32 k) => if k = 0 then .ctu else if k = 1 then .ctd else .ctud
  | _ => .ctu

/-- `CounterRun`. -/
def execCounterRun (vm : Vm P) : List (Operand P) → Except Panic (Vm P)
  | .immediate (.u32 i) :: cu :: cd :: preset :: kind :: _ =>
      let new : CounterState := ⟨.ctu, false, false, 0, 0, false, false, false⟩
      let vm := { vm with counters := grow vm.counters i.toNat new }
      match cu, cd, preset with
      | .register cuReg, .register cdReg, .immediate (.u32 pv) => do
          let cuVal ← vm.readRegister cuReg
          let cdVal ← vm.readRegister cdReg
          let counter := vm.counters.getD i.toNat new
          let counter ← { counter with pv := pv.toNat, kind := counterKind kind }.tick P
            (asBool cuVal) (asBool cdVal)
          pure { vm with counters := vm.counters.set i.toNat counter }
      | _, _, _ => pure vm
  | _ => pure vm

/-- `ReadCounter`: the output and the value. -/
def execReadCounter (vm : Vm P) : List (Operand P) → Except Panic (Vm P)
  | .immediate (.u32 i) :: q :: cv :: _ =>
      let new : CounterState := ⟨.ctu, false, false, 0, 0, false, false, false⟩
      let vm := { vm with counters := grow vm.counters i.toNat new }
      match q, cv with
      | .register qDest, .register cvDest => do
          let counter := vm.counters.getD i.toNat new
          let vm ← vm.writeRegister qDest (.bool counter.q)
          vm.writeRegister cvDest (.u32 (UInt32.ofNat counter.cv))
      | _, _ => pure vm
  | _ => pure vm

/-- The boolean that a register operand of a flip-flop or an edge detector gives. -/
def boolReg (vm : Vm P) : Operand P → Except Panic Bool
  | .register r => asBool <$> vm.readRegister r
  | _ => pure false

/-- The kind that the last operand of `SrRun` encodes. -/
def srKind : Operand P → SrKind
  | .immediate (.u32 k) => if k = 1 then .rs else .sr
  | _ => .sr

/-- `SrRun`. -/
def execSrRun (vm : Vm P) : List (Operand P) → Except Panic (Vm P)
  | .immediate (.u32 i) :: s1 :: r :: kind :: _ => do
      let s1 ← vm.boolReg s1
      let r ← vm.boolReg r
      let kind := srKind kind
      let vm := { vm with srs := grow vm.srs i.toNat ⟨kind, false, false, false, false⟩ }
      pure { vm with
        srs := vm.srs.modify i.toNat fun f => { f with kind := kind }.tick s1 r }
  | _ => pure vm

/-- `ReadSr`: the two outputs. -/
def execReadSr (vm : Vm P) : List (Operand P) → Except Panic (Vm P)
  | .immediate (.u32 i) :: q1 :: q2 :: _ =>
      let new : SrState := ⟨.sr, false, false, false, false⟩
      let vm := { vm with srs := grow vm.srs i.toNat new }
      match q1, q2 with
      | .register q1Dest, .register q2Dest => do
          let state := vm.srs.getD i.toNat new
          let vm ← vm.writeRegister q1Dest (.bool state.q1)
          vm.writeRegister q2Dest (.bool state.q2)
      | _, _ => pure vm
  | _ => pure vm

/-- The kind that the last operand of `EdgeRun` encodes, cut to 8 bits. -/
def edgeKind : Operand P → ℕ
  | .immediate (.u32 k) => k.toNat % 2 ^ 8
  | _ => 0

/-- `EdgeRun`. -/
def execEdgeRun (vm : Vm P) : List (Operand P) → Except Panic (Vm P)
  | .immediate (.u32 i) :: clk :: kind :: _ => do
      let clk ← vm.boolReg clk
      let vm := { vm with edges := grow vm.edges i.toNat ⟨0, false, false⟩ }
      pure { vm with edges := vm.edges.modify i.toNat (·.tick (edgeKind kind) clk) }
  | _ => pure vm

/-- `ReadEdge`: the output. -/
def execReadEdge (vm : Vm P) : List (Operand P) → Except Panic (Vm P)
  | .immediate (.u32 i) :: q :: _ =>
      let new : EdgeState := ⟨0, false, false⟩
      let vm := { vm with edges := grow vm.edges i.toNat new }
      match q with
      | .register qDest => vm.writeRegister qDest (.bool (vm.edges.getD i.toNat new).q)
      | _ => pure vm
  | _ => pure vm

/-! ### Dispatch -/

/-- A machine state after an instruction that does not end the run. -/
def continues (c : Except Panic (Vm P)) : Except Panic (Vm P × ExecutorResult) :=
  (·, ExecutorResult.cont) <$> c

/-- Execute one instruction, without the advance of `ip` that follows most of them. -/
def executeInstruction (vm : Vm P) (inst : Instruction P) :
    Except Panic (Vm P × ExecutorResult) :=
  match inst.opcode with
  | .nop => pure (vm, .cont)
  | .store => continues (vm.execStore inst.operands)
  | .loadIndex => continues (vm.execLoadIndex inst.operands)
  | .storeIndex => continues (vm.execStoreIndex inst.operands)
  | .load => continues (vm.execLoad inst.operands)
  | .add => continues (vm.execArithBinop (HalValue.binop .add) inst.operands)
  | .sub => continues (vm.execArithBinop (HalValue.binop .sub) inst.operands)
  | .mul => continues (vm.execArithBinop (HalValue.binop .mul) inst.operands)
  | .div => continues (vm.execArithBinop (guardedDivision .div) inst.operands)
  | .mod => continues (vm.execArithBinop (guardedDivision .rem) inst.operands)
  | .neg => continues (vm.execUnary HalValue.neg inst.operands)
  | .eq => continues (vm.execCompare HalValue.beq inst.operands)
  | .neq => continues (vm.execCompare (fun a b => !a.beq b) inst.operands)
  | .gt => continues (vm.execCompare (fun a b => a.partialCmp b == some .gt) inst.operands)
  | .lt => continues (vm.execCompare (fun a b => a.partialCmp b == some .lt) inst.operands)
  | .gte =>
      continues (vm.execCompare
        (fun a b => a.partialCmp b == some .gt || a.partialCmp b == some .eq) inst.operands)
  | .lte =>
      continues (vm.execCompare
        (fun a b => a.partialCmp b == some .lt || a.partialCmp b == some .eq) inst.operands)
  | .and => continues (vm.execArithBinop (fun a b => pure (a.bitop .and b)) inst.operands)
  | .or => continues (vm.execArithBinop (fun a b => pure (a.bitop .or b)) inst.operands)
  | .xor => continues (vm.execArithBinop (fun a b => pure (a.bitop .xor b)) inst.operands)
  | .not => continues (vm.execUnary (fun a => pure a.not) inst.operands)
  | .jump => pure (vm.execJump inst.operands, .cont)
  | .jumpIf => pure (vm.execJumpIf inst.operands, .cont)
  | .call => pure (vm.execCall inst.operands, .cont)
  | .ret => vm.execRet inst.operands
  | .timerRun => continues (vm.execTimerRun inst.operands)
  | .readTimer => continues (vm.execReadTimer inst.operands)
  | .counterRun => continues (vm.execCounterRun inst.operands)
  | .readCounter => continues (vm.execReadCounter inst.operands)
  | .srRun => continues (vm.execSrRun inst.operands)
  | .readSr => continues (vm.execReadSr inst.operands)
  | .edgeRun => continues (vm.execEdgeRun inst.operands)
  | .readEdge => continues (vm.execReadEdge inst.operands)
  | .halt => pure (vm, .halted)

end Vm

/-- The opcodes after which the executor does not advance `ip`. -/
def Opcode.isJump : Opcode → Bool
  | .jump | .jumpIf | .call => true
  | _ => false

/-- The machine after an instruction with the given opcode has been executed: `ip`
advances unless the opcode is one of the jumps. -/
def Vm.advanceUnlessJump (vm : Vm P) (opcode : Opcode) : Vm P :=
  if opcode.isJump then vm else vm.advanceIp

/-! ### The interpreter and its debugger -/

/-- One entry of the trace: what was executed, and `r0` after it. -/
structure TraceEntry (P : Platform) where
  ip : ℕ
  opcode : Opcode
  r0 : HalValue P

/-- Breakpoints and trace. They are no part of the machine and survive its reset. -/
structure DebugState (P : Platform) where
  debugMode : Bool
  breakpoints : Finset ℕ
  traceBuffer : List (TraceEntry P)

/-- The interpreter: a machine, a program and the debugger. -/
structure Executor (P : Platform) where
  vm : Vm P
  program : HalProgram P
  debugState : DebugState P

namespace Executor

/-- An interpreter for a program, with a new machine and the debugger off. -/
def new (program : HalProgram P) : Executor P :=
  ⟨Vm.new, program, ⟨false, ∅, []⟩⟩

/-- Reset the machine; the debugger stays as it is. -/
def reset (e : Executor P) : Executor P := { e with vm := e.vm.reset }

/-- Execute the instruction at `ip`, then advance `ip`. In debug mode a breakpoint at `ip`
stops the step before it does anything. -/
def step (e : Executor P) : Except Panic (Executor P × ExecutorResult) :=
  let ip := e.vm.ip
  match e.program.instructions[ip]? with
  | none => .error (.ipOutOfBounds ip)
  | some inst =>
      if e.debugState.debugMode && decide (ip ∈ e.debugState.breakpoints) then
        pure (e, .breaked)
      else do
        let (vm, result) ← e.vm.executeInstruction inst
        let debugState :=
          if e.debugState.debugMode then
            { e.debugState with
              traceBuffer := e.debugState.traceBuffer ++ [⟨ip, inst.opcode, vm.reg 0⟩] }
          else e.debugState
        pure ({ e with vm := vm.advanceUnlessJump inst.opcode, debugState := debugState },
          result)

/-- Execute until `Halt` or a breakpoint, with the number of steps; `none` when the fuel
runs out before. -/
def runToHalt : ℕ → Executor P → Option (Except Panic (Executor P × ℕ))
  | 0, _ => none
  | fuel + 1, e =>
      match e.step with
      | .error panic => some (.error panic)
      | .ok (e', .cont) =>
          (runToHalt fuel e').map fun o => o.map fun p => (p.1, p.2 + 1)
      | .ok (e', _) => some (.ok (e', 1))

/-- Execute one instruction past a breakpoint: debug mode is off for that step, and on
after it. -/
def resume (e : Executor P) : Except Panic (Executor P × ExecutorResult) := do
  let (e', result) ← step { e with debugState := { e.debugState with debugMode := false } }
  pure ({ e' with debugState := { e'.debugState with debugMode := true } }, result)

/-- Add a breakpoint. -/
def addBreakpoint (e : Executor P) (ip : ℕ) : Executor P :=
  { e with
    debugState := { e.debugState with breakpoints := insert ip e.debugState.breakpoints } }

/-- Remove a breakpoint. -/
def removeBreakpoint (e : Executor P) (ip : ℕ) : Executor P :=
  { e with
    debugState := { e.debugState with breakpoints := e.debugState.breakpoints.erase ip } }

/-- The breakpoints, sorted. -/
def listBreakpoints (e : Executor P) : List ℕ := e.debugState.breakpoints.sort (· ≤ ·)

end Executor

/-! ### The machine without the debugger -/

/-- The interpreter without the debugger, as a machine over an instruction list. -/
def Vm.step (code : List (Instruction P)) (vm : Vm P) : Machine.Result (Vm P) Panic :=
  match code[vm.ip]? with
  | none => .fail (.ipOutOfBounds vm.ip)
  | some inst =>
      match vm.executeInstruction inst with
      | .error panic => .fail panic
      | .ok (vm', .halted) => .done (vm'.advanceUnlessJump inst.opcode)
      | .ok (vm', _) => .next (vm'.advanceUnlessJump inst.opcode)

/-- The result of a step of the interpreter, as the machine gives it. -/
def Executor.stepResult (e : Executor P) : Machine.Result (Vm P) Panic :=
  match e.step with
  | .error panic => .fail panic
  | .ok (e', .halted) => .done e'.vm
  | .ok (e', _) => .next e'.vm

/-- Is the interpreter about to stop at a breakpoint? -/
def Executor.atBreakpoint (e : Executor P) : Bool :=
  e.debugState.debugMode && decide (e.vm.ip ∈ e.debugState.breakpoints)

/-- A step that does not stop at a breakpoint is a step of the machine: the debugger
changes neither what is executed nor where control goes. -/
theorem Executor.step_eq (e : Executor P) (h : e.atBreakpoint = false) :
    e.stepResult = Vm.step e.program.instructions e.vm := by
  rw [stepResult, step, Vm.step]
  cases e.program.instructions[e.vm.ip]? with
  | none => rfl
  | some inst =>
      rw [atBreakpoint] at h
      simp only [h]
      cases e.vm.executeInstruction inst with
      | error panic => rfl
      | ok p => rcases p with ⟨vm', _ | _ | _⟩ <;> rfl

end Weftik
