import Weftik.Control
import Weftik.Frame

/-!
# The Registers that an Instruction Reads and Writes

An instruction reads the registers among its sources and writes those among its
destinations, and it leaves every other register as it is.

## Main definitions

* `Instruction.reads`, `Instruction.written`: the two lists of registers.

## Main results

* `Vm.executeInstruction_reg`: an instruction changes only the registers that it writes.
-/

open Outcome

namespace Weftik

variable {P : Platform}

namespace Instruction

/-- The registers that an instruction reads, when its operands fit its opcode. -/
def reads (inst : Instruction P) : List ℕ :=
  match inst.opcode, inst.operands with
  | .load, .register _ :: source :: _ => registersOf [source]
  | .store, .signalName _ :: value :: _ => registersOf [value]
  | .loadIndex, .register _ :: .register array :: .register idx :: _ => [array, idx]
  | .storeIndex, .register array :: .register idx :: .register value :: _ =>
      [array, idx, value]
  | .add, a :: b :: _ :: _ | .sub, a :: b :: _ :: _ | .mul, a :: b :: _ :: _
  | .div, a :: b :: _ :: _ | .mod, a :: b :: _ :: _ | .and, a :: b :: _ :: _
  | .or, a :: b :: _ :: _ | .xor, a :: b :: _ :: _ => registersOf [a, b]
  | .neg, a :: _ :: _ | .not, a :: _ :: _ => registersOf [a]
  | .eq, a :: b :: _ | .neq, a :: b :: _ | .gt, a :: b :: _ | .lt, a :: b :: _
  | .gte, a :: b :: _ | .lte, a :: b :: _ => registersOf [a, b]
  | .ret, .register r :: _ => [r]
  | .timerRun, .immediate (.u32 _) :: input :: _ :: _ => registersOf [input]
  | .counterRun, .immediate (.u32 _) :: cu :: cd :: _ :: _ :: _ => registersOf [cu, cd]
  | .srRun, .immediate (.u32 _) :: s1 :: r :: _ :: _ => registersOf [s1, r]
  | .edgeRun, .immediate (.u32 _) :: clk :: _ :: _ => registersOf [clk]
  | _, _ => []

/-- The registers that an instruction writes, when its operands fit its opcode. -/
def written (inst : Instruction P) : List ℕ :=
  match inst.opcode, inst.operands with
  | .load, .register dest :: _ :: _ => [dest]
  | .loadIndex, .register dest :: .register _ :: .register _ :: _ => [dest]
  | .storeIndex, .register array :: .register _ :: .register _ :: _ => [array]
  | .add, _ :: _ :: out :: _ | .sub, _ :: _ :: out :: _ | .mul, _ :: _ :: out :: _
  | .div, _ :: _ :: out :: _ | .mod, _ :: _ :: out :: _ | .and, _ :: _ :: out :: _
  | .or, _ :: _ :: out :: _ | .xor, _ :: _ :: out :: _ => [Vm.destReg out]
  | .neg, _ :: out :: _ | .not, _ :: out :: _ => [Vm.destReg out]
  | .ret, .register _ :: _ => [0]
  | .readTimer, .immediate (.u32 _) :: .register q :: .register et :: _ => [q, et]
  | .readCounter, .immediate (.u32 _) :: .register q :: .register cv :: _ => [q, cv]
  | .readSr, .immediate (.u32 _) :: .register q1 :: .register q2 :: _ => [q1, q2]
  | .readEdge, .immediate (.u32 _) :: .register q :: _ => [q]
  | _, _ => []

end Instruction

namespace Vm

/-- The content of a register, as a part of the machine. -/
abbrev regPart (r : ℕ) (vm : Vm P) : HalValue P := vm.reg r

variable {r : ℕ} {vm vm' : Vm P} {ops : List (Operand P)}

theorem ne_of_notMem_singleton {idx : ℕ} (h : r ∉ [idx]) : r ≠ idx :=
  fun he => h (List.mem_singleton.mpr he)

/-- Writing another register. -/
theorem writeRegister_keepsReg (h : vm'.reg r = vm.reg r) {idx : ℕ} (hne : r ≠ idx)
    (v : HalValue P) : vm.Keeps (regPart r) (vm'.writeRegister idx v) := by
  rw [Vm.writeRegister]
  split
  · exact ((reg_setReg ‹_› r).trans (if_neg hne)).trans h
  · trivial

/-- Writing two other registers. -/
theorem writeTwice_keepsReg (h : vm'.reg r = vm.reg r) {idx idx' : ℕ} (hne : r ∉ [idx, idx'])
    (v w : HalValue P) :
    vm.Keeps (regPart r) (vm'.writeRegister idx v >>= fun vm' => vm'.writeRegister idx' w) := by
  rw [List.mem_pair, not_or] at hne
  rw [Vm.writeRegister]
  split
  · exact writeRegister_keepsReg (((reg_setReg ‹_› r).trans (if_neg hne.1)).trans h) hne.2 w
  · trivial

theorem execLoad_keepsReg (h : r ∉ (⟨.load, ops⟩ : Instruction P).written) :
    vm.Keeps (regPart r) (vm.execLoad ops) := by
  unfold execLoad
  split
  · exact writeRegister_keepsReg rfl (ne_of_notMem_singleton h) _
  · exact .bind fun _ => writeRegister_keepsReg rfl (ne_of_notMem_singleton h) _
  · exact writeRegister_keepsReg rfl (ne_of_notMem_singleton h) _
  · exact .pure rfl

theorem execStore_keepsReg (r : ℕ) (ops : List (Operand P)) :
    vm.Keeps (regPart r) (vm.execStore ops) := by
  unfold execStore
  split
  · exact .bind fun _ => .pure rfl
  · exact .pure rfl

theorem execLoadIndex_keepsReg (h : r ∉ (⟨.loadIndex, ops⟩ : Instruction P).written) :
    vm.Keeps (regPart r) (vm.execLoadIndex ops) := by
  unfold execLoadIndex
  split
  · exact .bind fun _ => .bind fun _ => .bind fun _ =>
      writeRegister_keepsReg rfl (ne_of_notMem_singleton h) _
  · exact .pure rfl

theorem execStoreIndex_keepsReg (h : r ∉ (⟨.storeIndex, ops⟩ : Instruction P).written) :
    vm.Keeps (regPart r) (vm.execStoreIndex ops) := by
  unfold execStoreIndex
  split
  · exact .bind fun _ => .bind fun _ => .bind fun _ => .bind fun _ =>
      writeRegister_keepsReg rfl (ne_of_notMem_singleton h) _
  · exact .pure rfl

/-- An operation on two registers changes its destination only. -/
theorem execArithBinop_keepsReg {f : HalValue P → HalValue P → Except Panic (HalValue P)}
    (hne : ∀ a b out rest, ops = a :: b :: out :: rest → r ≠ destReg out) :
    vm.Keeps (regPart r) (vm.execArithBinop f ops) := by
  unfold execArithBinop
  split
  · exact .bind fun _ => .bind fun _ => .bind fun _ =>
      writeRegister_keepsReg rfl (hne _ _ _ _ rfl) _
  · exact .pure rfl

/-- An operation on one register changes its destination only. -/
theorem execUnary_keepsReg {f : HalValue P → Except Panic (HalValue P)}
    (hne : ∀ a out rest, ops = a :: out :: rest → r ≠ destReg out) :
    vm.Keeps (regPart r) (vm.execUnary f ops) := by
  unfold execUnary
  split
  · exact .bind fun _ => .bind fun _ => writeRegister_keepsReg rfl (hne _ _ _ rfl) _
  · exact .pure rfl

/-- A comparison changes the flag only. -/
theorem execCompare_keepsReg (r : ℕ) (f : HalValue P → HalValue P → Bool)
    (ops : List (Operand P)) :
    vm.Keeps (regPart r) (vm.execCompare f ops) := by
  unfold execCompare
  split
  · exact .bind fun _ => .bind fun _ => .pure rfl
  · exact .pure rfl

/-- `Ret` with the register of a result writes `r0`. -/
theorem execRet_keepsReg
    (h : r ∉ (⟨.ret, ops⟩ : Instruction P).written) :
    Ends (vm.execRet ops) (fun p => p.1.reg r = vm.reg r) fun _ => True := by
  rw [execRet]
  split
  · rfl
  · rename_i callStack _
    have hcopy : vm.Keeps (regPart r) (copyResult { vm with callStack := callStack } ops) := by
      revert h
      unfold copyResult
      split
      · exact fun h => .bind fun _ => writeRegister_keepsReg rfl
          (ne_of_notMem_singleton h) _
      · exact fun _ => .pure rfl
    exact Ends.bind hcopy fun vm' h => h

/-- A timer reads registers only. -/
theorem execTimerRun_keepsReg (r : ℕ) (ops : List (Operand P)) :
    vm.Keeps (regPart r) (vm.execTimerRun ops) := by
  unfold execTimerRun
  split
  · dsimp only
    split
    · exact .bind fun _ => .pure rfl
    · exact .pure rfl
  · exact .pure rfl

theorem execReadTimer_keepsReg (h : r ∉ (⟨.readTimer, ops⟩ : Instruction P).written) :
    vm.Keeps (regPart r) (vm.execReadTimer ops) := by
  unfold execReadTimer
  split
  · dsimp only
    split
    · exact writeTwice_keepsReg rfl h _ _
    · exact .pure rfl
  · exact .pure rfl

theorem execCounterRun_keepsReg (r : ℕ) (ops : List (Operand P)) :
    vm.Keeps (regPart r) (vm.execCounterRun ops) := by
  unfold execCounterRun
  split
  · dsimp only
    split
    · exact .bind fun _ => .bind fun _ => .bind fun _ => .pure rfl
    · exact .pure rfl
  · exact .pure rfl

theorem execReadCounter_keepsReg (h : r ∉ (⟨.readCounter, ops⟩ : Instruction P).written) :
    vm.Keeps (regPart r) (vm.execReadCounter ops) := by
  unfold execReadCounter
  split
  · dsimp only
    split
    · exact writeTwice_keepsReg rfl h _ _
    · exact .pure rfl
  · exact .pure rfl

theorem execSrRun_keepsReg (r : ℕ) (ops : List (Operand P)) :
    vm.Keeps (regPart r) (vm.execSrRun ops) := by
  unfold execSrRun
  split
  · exact .bind fun _ => .bind fun _ => .pure rfl
  · exact .pure rfl

theorem execReadSr_keepsReg (h : r ∉ (⟨.readSr, ops⟩ : Instruction P).written) :
    vm.Keeps (regPart r) (vm.execReadSr ops) := by
  unfold execReadSr
  split
  · dsimp only
    split
    · exact writeTwice_keepsReg rfl h _ _
    · exact .pure rfl
  · exact .pure rfl

theorem execEdgeRun_keepsReg (r : ℕ) (ops : List (Operand P)) :
    vm.Keeps (regPart r) (vm.execEdgeRun ops) := by
  unfold execEdgeRun
  split
  · exact .bind fun _ => .pure rfl
  · exact .pure rfl

theorem execReadEdge_keepsReg (h : r ∉ (⟨.readEdge, ops⟩ : Instruction P).written) :
    vm.Keeps (regPart r) (vm.execReadEdge ops) := by
  unfold execReadEdge
  split
  · dsimp only
    split
    · exact writeRegister_keepsReg rfl (ne_of_notMem_singleton h) _
    · exact .pure rfl
  · exact .pure rfl

/-- The content of a register does not depend on the control flow. -/
theorem advanceUnlessJump_reg (vm : Vm P) (opcode : Opcode) (r : ℕ) :
    (vm.advanceUnlessJump opcode).reg r = vm.reg r := by
  rw [advanceUnlessJump]
  split <;> rfl

/-- An instruction changes only the registers that it writes. -/
theorem executeInstruction_reg (vm : Vm P) {inst : Instruction P} (h : r ∉ inst.written) :
    Ends (vm.executeInstruction inst) (fun p => p.1.reg r = vm.reg r) fun _ => True := by
  obtain ⟨opcode, ops⟩ := inst
  cases opcode with
  | nop | halt | call => rfl
  | load => exact (execLoad_keepsReg h).continues
  | store => exact (execStore_keepsReg r ops).continues
  | add | sub | mul | div | mod | and | or | xor =>
      refine Keeps.continues (execArithBinop_keepsReg fun a b out rest hops => ?_)
      subst hops
      exact ne_of_notMem_singleton h
  | neg | not =>
      refine Keeps.continues (execUnary_keepsReg fun a out rest hops => ?_)
      subst hops
      exact ne_of_notMem_singleton h
  | eq | neq | gt | lt | gte | lte => exact (execCompare_keepsReg r _ ops).continues
  | jump =>
      change (vm.execJump ops).reg r = vm.reg r
      rw [execJump]
      split <;> rfl
  | jumpIf =>
      change (vm.execJumpIf ops).reg r = vm.reg r
      rw [execJumpIf]
      split <;> rfl
  | ret => exact execRet_keepsReg h
  | loadIndex => exact (execLoadIndex_keepsReg h).continues
  | storeIndex => exact (execStoreIndex_keepsReg h).continues
  | timerRun => exact (execTimerRun_keepsReg r ops).continues
  | readTimer => exact (execReadTimer_keepsReg h).continues
  | counterRun => exact (execCounterRun_keepsReg r ops).continues
  | readCounter => exact (execReadCounter_keepsReg h).continues
  | srRun => exact (execSrRun_keepsReg r ops).continues
  | readSr => exact (execReadSr_keepsReg h).continues
  | edgeRun => exact (execEdgeRun_keepsReg r ops).continues
  | readEdge => exact (execReadEdge_keepsReg h).continues

/-- A step changes only the registers that the instruction at `ip` writes. -/
theorem step_reg {code : List (Instruction P)} {inst : Instruction P}
    (hinst : code[vm.ip]? = some inst) (hr : r ∉ inst.written)
    (h : step code vm = .next vm' ∨ step code vm = .done vm') : vm'.reg r = vm.reg r := by
  obtain ⟨inst', hinst', result, vm₁, hexec, rfl⟩ := step_executed h
  obtain rfl : inst = inst' := Option.some.inj (hinst.symm.trans hinst')
  rw [advanceUnlessJump_reg]
  exact (executeInstruction_reg vm hr).of_ok hexec

end Vm

end Weftik
