import Weftik.Executor

/-!
# Where Control Goes

What one step does to the instruction pointer and the call stack, and which registers an
instruction uses. Everything that the later modules say about runs follows from
`Vm.executeInstruction_control`: a step that does not panic takes `ip` and the stack to
`Vm.nextIp` and `Vm.nextStack`, and a step can panic over a register only when the
instruction uses one outside the register file.

## Main definitions

* `Instruction.registersUsed`: the registers an instruction reads or writes.
* `Vm.nextIp`, `Vm.nextStack`: control after an instruction.
* `Run`: consecutive steps of the interpreter.

## Main results

* `Vm.executeInstruction_control`: the effect of an instruction on control, and its panics.
* `Executor.step_ok_cases`: what a step of the interpreter can do.
* `Executor.exec_iff_runToHalt`: running to the halt is a run of the machine to its end.
-/

open Outcome

namespace Weftik

variable {P : Platform}

/-! ### The registers of an instruction -/

/-- The registers among some operands. -/
def registersOf (operands : List (Operand P)) : List ℕ :=
  operands.filterMap fun
    | .register r => some r
    | _ => none

/-- The registers an instruction reads or writes. An instruction whose operands do not fit
its opcode uses none of them. -/
def Instruction.registersUsed (inst : Instruction P) : List ℕ :=
  match inst.opcode, inst.operands with
  | .load, .register dest :: src :: _ => dest :: registersOf [src]
  | .store, .signalName _ :: value :: _ => registersOf [value]
  | .loadIndex, .register dest :: .register array :: .register idx :: _ =>
      [dest, array, idx]
  | .storeIndex, .register array :: .register idx :: .register value :: _ =>
      [array, idx, value]
  | .add, a :: b :: out :: _ | .sub, a :: b :: out :: _ | .mul, a :: b :: out :: _
  | .div, a :: b :: out :: _ | .mod, a :: b :: out :: _ | .and, a :: b :: out :: _
  | .or, a :: b :: out :: _ | .xor, a :: b :: out :: _ => registersOf [a, b, out]
  | .neg, a :: out :: _ | .not, a :: out :: _ => registersOf [a, out]
  | .eq, a :: b :: _ | .neq, a :: b :: _ | .gt, a :: b :: _ | .lt, a :: b :: _
  | .gte, a :: b :: _ | .lte, a :: b :: _ => registersOf [a, b]
  | .ret, .register r :: _ => [r]
  | .timerRun, .immediate (.u32 _) :: .register r :: preset :: _ =>
      if (Vm.timerPreset preset).isSome then [r] else []
  | .readTimer, .immediate (.u32 _) :: .register q :: .register et :: _ => [q, et]
  | .counterRun, .immediate (.u32 _) :: .register cu :: .register cd ::
      .immediate (.u32 _) :: _ :: _ => [cu, cd]
  | .readCounter, .immediate (.u32 _) :: .register q :: .register cv :: _ => [q, cv]
  | .srRun, .immediate (.u32 _) :: s1 :: r :: _ :: _ => registersOf [s1, r]
  | .readSr, .immediate (.u32 _) :: .register q1 :: .register q2 :: _ => [q1, q2]
  | .edgeRun, .immediate (.u32 _) :: clk :: _ :: _ => registersOf [clk]
  | .readEdge, .immediate (.u32 _) :: .register q :: _ => [q]
  | _, _ => []

/-- A panic of an instruction: never about `ip`, and about a register only when it is one
of the given registers and outside the register file. -/
def PanicWithin (regs : List ℕ) (e : Panic) : Prop :=
  (∀ ip, e ≠ .ipOutOfBounds ip) ∧
    ∀ idx, e = .registerOutOfBounds idx → idx ∈ regs ∧ 16 ≤ idx

/-- The panics of arithmetic, which mention neither `ip` nor a register. -/
def ArithmeticPanic (e : Panic) : Prop :=
  e = .overflow ∨ e = .divideByZero ∨ e = .sliceIndex

theorem ArithmeticPanic.within {e : Panic} (h : ArithmeticPanic e) (regs : List ℕ) :
    PanicWithin regs e := by
  rcases h with rfl | rfl | rfl <;> exact ⟨by simp, by simp⟩

/-! ### Panics of the operators -/

theorem checked_panics {α : Type} [MachineInt α] (n : ℤ) :
    Ends (checked P n : Except Panic α) (fun _ => True) ArithmeticPanic := by
  rw [checked]
  split
  · trivial
  · exact Or.inl rfl

theorem unsigned_panics (bits n : ℕ) :
    Ends (unsigned P bits n) (fun _ => True) ArithmeticPanic := by
  rw [unsigned]
  split
  · trivial
  · split
    · exact Or.inl rfl
    · trivial

theorem intArith_panics {α : Type} [MachineInt α] (op : ArithOp) (a b : α) :
    Ends (intArith P op a b) (fun _ => True) ArithmeticPanic := by
  cases op with
  | add => exact checked_panics _
  | sub => exact checked_panics _
  | mul => exact checked_panics _
  | div =>
      simp only [intArith]
      split
      · exact Or.inr (Or.inl rfl)
      · split
        · trivial
        · exact Or.inl rfl
  | rem =>
      simp only [intArith]
      split
      · exact Or.inr (Or.inl rfl)
      · split
        · trivial
        · exact Or.inl rfl

theorem binop_panics (op : ArithOp) (a b : HalValue P) :
    Ends (HalValue.binop op a b) (fun _ => True) ArithmeticPanic := by
  unfold HalValue.binop
  split <;> first | exact (intArith_panics _ _ _).map | trivial

theorem guardedDivision_panics (op : ArithOp) (a b : HalValue P) :
    Ends (Vm.guardedDivision op a b) (fun _ => True) ArithmeticPanic := by
  rw [Vm.guardedDivision]
  split
  · trivial
  · exact binop_panics op a b

theorem neg_panics (a : HalValue P) :
    Ends a.neg (fun _ => True) ArithmeticPanic := by
  unfold HalValue.neg
  split <;> first | exact (checked_panics _).map | trivial

theorem index_panics (v : HalValue P) (idx : ℕ) :
    Ends (v.index idx) (fun _ => True) ArithmeticPanic := by
  unfold HalValue.index
  split
  · refine (unsigned_panics _ _).bind fun offset _ => ?_
    refine (unsigned_panics _ _).bind fun stop _ => ?_
    split
    · trivial
    · split
      · exact Or.inr (Or.inr rfl)
      · trivial
  · trivial

theorem setIndex_panics (v : HalValue P) (idx : ℕ) (value : HalValue P) :
    Ends (v.setIndex idx value) (fun _ => True) ArithmeticPanic := by
  unfold HalValue.setIndex
  split
  · refine (unsigned_panics _ _).bind fun offset _ => ?_
    refine (unsigned_panics _ _).bind fun stop _ => ?_
    split
    · trivial
    · split
      · exact Or.inr (Or.inr rfl)
      · trivial
  · trivial

theorem CounterState.tick_panics (c : CounterState) (cu cd : Bool) :
    Ends (c.tick P cu cd) (fun _ => True) ArithmeticPanic := by
  have hup : Ends ((min · c.pv) <$> unsigned P 32 (c.cv + 1)) (fun _ => True)
      ArithmeticPanic := (unsigned_panics _ _).map
  unfold CounterState.tick
  dsimp only
  split
  · split
    · exact hup.bind fun _ _ => trivial
    · trivial
  · trivial
  · split
    · exact hup.bind fun _ _ => trivial
    · trivial

/-! ### Instructions that leave control alone -/

namespace Vm

/-- A computation that changes neither `ip` nor the call stack, and panics only over the
given registers or in arithmetic. -/
def Stays (vm : Vm P) (regs : List ℕ) (c : Except Panic (Vm P)) : Prop :=
  Ends c (fun vm' => vm'.ip = vm.ip ∧ vm'.callStack = vm.callStack) (PanicWithin regs)

variable {regs : List ℕ} {vm : Vm P} {vm' : Vm P}

theorem Stays.pure (hip : vm'.ip = vm.ip) (hstack : vm'.callStack = vm.callStack) :
    vm.Stays regs (Pure.pure vm') :=
  ⟨hip, hstack⟩

theorem readRegister_ends {r : ℕ} (hr : r ∈ regs) :
    Ends (vm.readRegister r) (fun _ => True) (PanicWithin regs) := by
  rw [readRegister]
  split
  · trivial
  · rename_i hlt
    refine ⟨by simp, ?_⟩
    rintro idx ⟨⟩
    exact ⟨hr, not_lt.mp hlt⟩

theorem writeRegister_stays {r : ℕ} {v : HalValue P} (hr : r < 16 ∨ r ∈ regs)
    (hip : vm'.ip = vm.ip) (hstack : vm'.callStack = vm.callStack) :
    vm.Stays regs (vm'.writeRegister r v) := by
  rw [writeRegister]
  split
  · exact ⟨hip, hstack⟩
  · rename_i hlt
    refine ⟨by simp, ?_⟩
    rintro idx ⟨⟩
    exact ⟨hr.resolve_left hlt, not_lt.mp hlt⟩

theorem readReg_ends {op : Operand P} (hop : registersOf [op] ⊆ regs) :
    Ends (vm.readReg op) (fun _ => True) (PanicWithin regs) := by
  cases op with
  | register r => exact readRegister_ends (hop (by simp [registersOf]))
  | immediate v => trivial
  | signalName n => trivial

theorem boolReg_ends {op : Operand P} (hop : registersOf [op] ⊆ regs) :
    Ends (vm.boolReg op) (fun _ => True) (PanicWithin regs) := by
  cases op with
  | register r =>
      exact (readRegister_ends (hop (by simp [registersOf]))).map
  | immediate v => trivial
  | signalName n => trivial

/-- A destination operand is a register of the instruction, or `r0`. -/
theorem destReg_mem {op : Operand P} (hop : registersOf [op] ⊆ regs) :
    destReg op < 16 ∨ destReg op ∈ regs := by
  cases op with
  | register r => exact Or.inr (hop (by simp [registersOf, destReg]))
  | immediate v => exact Or.inl (by simp [destReg])
  | signalName n => exact Or.inl (by simp [destReg])

theorem registersOf_cons (op : Operand P) (ops : List (Operand P)) :
    registersOf (op :: ops) = registersOf [op] ++ registersOf ops := by
  cases op <;> rfl

attribute [local simp] execLoad execStore execLoadIndex execStoreIndex execArithBinop execUnary
  execCompare execTimerRun

theorem execLoad_stays (vm : Vm P) (ops : List (Operand P)) :
    vm.Stays (Instruction.registersUsed ⟨.load, ops⟩) (vm.execLoad ops) := by
  unfold execLoad
  split
  · exact writeRegister_stays (Or.inr (by simp [Instruction.registersUsed])) rfl rfl
  · refine (readRegister_ends ?_).bind fun value _ => ?_
    · simp [Instruction.registersUsed, registersOf]
    · exact writeRegister_stays (Or.inr (by simp [Instruction.registersUsed])) rfl rfl
  · exact writeRegister_stays (Or.inr (by simp [Instruction.registersUsed])) rfl rfl
  · exact Stays.pure rfl rfl

theorem execStore_stays (vm : Vm P) (ops : List (Operand P)) :
    vm.Stays (Instruction.registersUsed ⟨.store, ops⟩) (vm.execStore ops) := by
  unfold execStore
  split
  · exact (readReg_ends fun _ h => h).bind fun _ _ => ⟨rfl, rfl⟩
  · exact Stays.pure rfl rfl

theorem execLoadIndex_stays (vm : Vm P) (ops : List (Operand P)) :
    vm.Stays (Instruction.registersUsed ⟨.loadIndex, ops⟩) (vm.execLoadIndex ops) := by
  unfold execLoadIndex
  split
  · refine (readRegister_ends (by simp [Instruction.registersUsed])).bind fun array _ => ?_
    refine (readRegister_ends (by simp [Instruction.registersUsed])).bind fun idx _ => ?_
    refine Ends.bind ((index_panics _ _).mono (fun _ h => h) fun _ h => h.within _)
      fun elem _ => ?_
    exact writeRegister_stays (Or.inr (by simp [Instruction.registersUsed])) rfl rfl
  · exact Stays.pure rfl rfl

theorem execStoreIndex_stays (vm : Vm P) (ops : List (Operand P)) :
    vm.Stays (Instruction.registersUsed ⟨.storeIndex, ops⟩) (vm.execStoreIndex ops) := by
  unfold execStoreIndex
  split
  · refine (readRegister_ends (by simp [Instruction.registersUsed])).bind fun array _ => ?_
    refine (readRegister_ends (by simp [Instruction.registersUsed])).bind fun idx _ => ?_
    refine (readRegister_ends (by simp [Instruction.registersUsed])).bind fun value _ => ?_
    refine Ends.bind ((setIndex_panics _ _ _).mono (fun _ h => h) fun _ h => h.within _)
      fun updated _ => ?_
    exact writeRegister_stays (Or.inr (by simp [Instruction.registersUsed])) rfl rfl
  · exact Stays.pure rfl rfl

variable {ops : List (Operand P)}

/-- An operation on two registers, for any list that covers the registers it uses. -/
theorem execArithBinop_stays {f : HalValue P → HalValue P → Except Panic (HalValue P)}
    (hf : ∀ a b, Ends (f a b) (fun _ => True) ArithmeticPanic)
    (hregs : ∀ a b out rest, ops = a :: b :: out :: rest → regs = registersOf [a, b, out]) :
    vm.Stays regs (vm.execArithBinop f ops) := by
  unfold execArithBinop
  split
  · rename_i a b out rest
    have hr := hregs a b out rest rfl
    rw [registersOf_cons, registersOf_cons b] at hr
    subst hr
    refine (readReg_ends (by simp)).bind fun x _ => ?_
    refine (readReg_ends (by simp)).bind fun y _ => ?_
    refine Ends.bind ((hf x y).mono (fun _ h => h) fun _ h => h.within _) fun value _ => ?_
    exact writeRegister_stays (destReg_mem (by simp)) rfl rfl
  · exact Stays.pure rfl rfl

theorem execUnary_stays {f : HalValue P → Except Panic (HalValue P)}
    (hf : ∀ a, Ends (f a) (fun _ => True) ArithmeticPanic)
    (hregs : ∀ a out rest, ops = a :: out :: rest → regs = registersOf [a, out]) :
    vm.Stays regs (vm.execUnary f ops) := by
  unfold execUnary
  split
  · rename_i a out rest
    have hr := hregs a out rest rfl
    rw [registersOf_cons] at hr
    subst hr
    refine (readReg_ends (by simp)).bind fun x _ => ?_
    refine Ends.bind ((hf x).mono (fun _ h => h) fun _ h => h.within _) fun value _ => ?_
    exact writeRegister_stays (destReg_mem (by simp)) rfl rfl
  · exact Stays.pure rfl rfl

theorem execCompare_stays {f : HalValue P → HalValue P → Bool}
    (hregs : ∀ a b rest, ops = a :: b :: rest → regs = registersOf [a, b]) :
    vm.Stays regs (vm.execCompare f ops) := by
  unfold execCompare
  split
  · rename_i a b rest
    have hr := hregs a b rest rfl
    rw [registersOf_cons] at hr
    subst hr
    refine (readReg_ends (by simp)).bind fun x _ => ?_
    refine (readReg_ends (by simp)).bind fun y _ => ?_
    exact ⟨rfl, rfl⟩
  · exact Stays.pure rfl rfl

/-- Two register writes in a row, as the four read instructions of the function blocks
make them. -/
theorem writeTwo_stays {r s : ℕ} {v w : HalValue P} (hr : r ∈ regs) (hs : s ∈ regs)
    (hip : vm'.ip = vm.ip) (hstack : vm'.callStack = vm.callStack) :
    vm.Stays regs (vm'.writeRegister r v >>= fun vm' => vm'.writeRegister s w) := by
  refine Ends.bind (writeRegister_stays (Or.inr hr) hip hstack) fun vm'' h => ?_
  exact writeRegister_stays (Or.inr hs) h.1 h.2

theorem execTimerRun_stays (vm : Vm P) (ops : List (Operand P)) :
    vm.Stays (Instruction.registersUsed ⟨.timerRun, ops⟩) (vm.execTimerRun ops) := by
  unfold execTimerRun
  split
  · dsimp only
    split
    · rename_i hpt
      refine (readRegister_ends ?_).bind fun inVal _ => ⟨rfl, rfl⟩
      simp [Instruction.registersUsed, hpt]
    · exact Stays.pure rfl rfl
  · exact Stays.pure rfl rfl

theorem execReadTimer_stays (vm : Vm P) (ops : List (Operand P)) :
    vm.Stays (Instruction.registersUsed ⟨.readTimer, ops⟩) (vm.execReadTimer ops) := by
  unfold execReadTimer
  split
  · dsimp only
    split
    · exact writeTwo_stays (by simp [Instruction.registersUsed])
        (by simp [Instruction.registersUsed]) rfl rfl
    · exact Stays.pure rfl rfl
  · exact Stays.pure rfl rfl

theorem execCounterRun_stays (vm : Vm P) (ops : List (Operand P)) :
    vm.Stays (Instruction.registersUsed ⟨.counterRun, ops⟩) (vm.execCounterRun ops) := by
  unfold execCounterRun
  split
  · dsimp only
    split
    · refine (readRegister_ends (by simp [Instruction.registersUsed])).bind fun cu _ => ?_
      refine (readRegister_ends (by simp [Instruction.registersUsed])).bind fun cd _ => ?_
      refine Ends.bind ((CounterState.tick_panics _ _ _).mono (fun _ h => h)
        fun _ h => h.within _) fun counter _ => ?_
      exact ⟨rfl, rfl⟩
    · exact Stays.pure rfl rfl
  · exact Stays.pure rfl rfl

theorem execReadCounter_stays (vm : Vm P) (ops : List (Operand P)) :
    vm.Stays (Instruction.registersUsed ⟨.readCounter, ops⟩) (vm.execReadCounter ops) := by
  unfold execReadCounter
  split
  · dsimp only
    split
    · exact writeTwo_stays (by simp [Instruction.registersUsed])
        (by simp [Instruction.registersUsed]) rfl rfl
    · exact Stays.pure rfl rfl
  · exact Stays.pure rfl rfl

theorem execSrRun_stays (vm : Vm P) (ops : List (Operand P)) :
    vm.Stays (Instruction.registersUsed ⟨.srRun, ops⟩) (vm.execSrRun ops) := by
  unfold execSrRun
  split
  · rename_i i s1 r kind rest
    have hr : Instruction.registersUsed
        ⟨.srRun, .immediate (.u32 i) :: s1 :: r :: kind :: rest⟩ =
        registersOf [s1] ++ registersOf [r] := registersOf_cons s1 [r]
    rw [hr]
    refine (boolReg_ends (by simp)).bind fun s1Val _ => ?_
    refine (boolReg_ends (by simp)).bind fun rVal _ => ?_
    exact ⟨rfl, rfl⟩
  · exact Stays.pure rfl rfl

theorem execReadSr_stays (vm : Vm P) (ops : List (Operand P)) :
    vm.Stays (Instruction.registersUsed ⟨.readSr, ops⟩) (vm.execReadSr ops) := by
  unfold execReadSr
  split
  · dsimp only
    split
    · exact writeTwo_stays (by simp [Instruction.registersUsed])
        (by simp [Instruction.registersUsed]) rfl rfl
    · exact Stays.pure rfl rfl
  · exact Stays.pure rfl rfl

theorem execEdgeRun_stays (vm : Vm P) (ops : List (Operand P)) :
    vm.Stays (Instruction.registersUsed ⟨.edgeRun, ops⟩) (vm.execEdgeRun ops) := by
  unfold execEdgeRun
  split
  · exact (boolReg_ends fun _ h => h).bind fun _ _ => ⟨rfl, rfl⟩
  · exact Stays.pure rfl rfl

theorem execReadEdge_stays (vm : Vm P) (ops : List (Operand P)) :
    vm.Stays (Instruction.registersUsed ⟨.readEdge, ops⟩) (vm.execReadEdge ops) := by
  unfold execReadEdge
  split
  · dsimp only
    split
    · exact writeRegister_stays (Or.inr (by simp [Instruction.registersUsed])) rfl rfl
    · exact Stays.pure rfl rfl
  · exact Stays.pure rfl rfl

/-! ### Control -/

/-- Where `ip` is after an instruction. A return goes one past the return address. -/
def nextIp (vm : Vm P) (inst : Instruction P) : ℕ :=
  match inst.opcode with
  | .jump => (vm.execJump inst.operands).ip
  | .jumpIf => (vm.execJumpIf inst.operands).ip
  | .call => readU32Operand inst.operands.head?
  | .ret =>
      match vm.callStack with
      | [] => vm.ip + 1
      | returnIp :: _ => returnIp + 1
  | _ => vm.ip + 1

/-- The call stack after an instruction. -/
def nextStack (vm : Vm P) (inst : Instruction P) : List ℕ :=
  match inst.opcode with
  | .call => (vm.ip + 1) :: vm.callStack
  | .ret => vm.callStack.tail
  | _ => vm.callStack

/-- Does the instruction end the run? -/
def halts (vm : Vm P) (inst : Instruction P) : Bool :=
  match inst.opcode with
  | .halt => true
  | .ret => vm.callStack.isEmpty
  | _ => false

/-- What the dispatch gives for an instruction that leaves control alone. -/
theorem Stays.control {inst : Instruction P} {c : Except Panic (Vm P)}
    (h : vm.Stays inst.registersUsed c) (hjump : inst.opcode.isJump = false)
    (hip : vm.nextIp inst = vm.ip + 1) (hstack : vm.nextStack inst = vm.callStack)
    (hhalts : vm.halts inst = false) :
    Ends (continues c)
      (fun p =>
        (p.1.advanceUnlessJump inst.opcode).ip = vm.nextIp inst ∧
        p.1.callStack = vm.nextStack inst ∧
        p.2 = if vm.halts inst then .halted else .cont)
      (PanicWithin inst.registersUsed) := by
  refine Ends.map (h.mono (fun vm' hvm' => ?_) fun _ he => he)
  obtain ⟨hip', hstack'⟩ := hvm'
  refine ⟨?_, ?_, ?_⟩
  · rw [advanceUnlessJump, hjump, hip, ← hip']
    rfl
  · rw [hstack, hstack']
  · rw [hhalts]
    rfl

theorem execJump_callStack (vm : Vm P) (ops : List (Operand P)) :
    (vm.execJump ops).callStack = vm.callStack := by
  unfold execJump
  split <;> rfl

theorem execJumpIf_callStack (vm : Vm P) (ops : List (Operand P)) :
    (vm.execJumpIf ops).callStack = vm.callStack := by
  unfold execJumpIf
  split <;> rfl

theorem copyResult_stays (vm : Vm P) (ops : List (Operand P)) :
    vm.Stays (Instruction.registersUsed ⟨.ret, ops⟩) (vm.copyResult ops) := by
  unfold copyResult
  split
  · refine (readRegister_ends (by simp [Instruction.registersUsed])).bind fun value _ => ?_
    exact writeRegister_stays (Or.inl (by decide : (0 : ℕ) < 16)) rfl rfl
  · exact Stays.pure rfl rfl

/-- A return: the address on top of the stack, plus the advance that follows. -/
theorem execRet_control (vm : Vm P) (ops : List (Operand P)) :
    Ends (vm.execRet ops)
      (fun p =>
        (p.1.advanceUnlessJump .ret).ip = vm.nextIp ⟨.ret, ops⟩ ∧
        p.1.callStack = vm.callStack.tail ∧
        p.2 = if vm.callStack.isEmpty then .halted else .cont)
      (PanicWithin (Instruction.registersUsed ⟨.ret, ops⟩)) := by
  rw [execRet]
  cases hs : vm.callStack with
  | nil => exact ⟨by simp [nextIp, hs, advanceUnlessJump, Opcode.isJump, advanceIp], hs, rfl⟩
  | cons returnIp rest =>
      refine Ends.bind (copyResult_stays { vm with callStack := rest } ops)
        fun vm' hvm' => ⟨?_, hvm'.2, rfl⟩
      simp [nextIp, hs, advanceUnlessJump, Opcode.isJump, advanceIp, setIp]

/-- The effect of an instruction on control. A step that does not panic takes `ip` to
`nextIp` and the stack to `nextStack`, and halts as `halts` says; a panic is within the
registers that the instruction uses. -/
theorem executeInstruction_control (vm : Vm P) (inst : Instruction P) :
    Ends (vm.executeInstruction inst)
      (fun p =>
        (p.1.advanceUnlessJump inst.opcode).ip = vm.nextIp inst ∧
        p.1.callStack = vm.nextStack inst ∧
        p.2 = if vm.halts inst then .halted else .cont)
      (PanicWithin inst.registersUsed) := by
  obtain ⟨opcode, ops⟩ := inst
  have hpure : ∀ v : HalValue P,
      Ends (pure v : Except Panic (HalValue P)) (fun _ => True) ArithmeticPanic :=
    fun _ => trivial
  cases opcode with
  | nop => exact ⟨rfl, rfl, rfl⟩
  | load => exact (execLoad_stays vm ops).control rfl rfl rfl rfl
  | store => exact (execStore_stays vm ops).control rfl rfl rfl rfl
  | add | sub | mul =>
      refine (execArithBinop_stays (binop_panics _) ?_).control rfl rfl rfl rfl
      rintro a b out rest rfl
      rfl
  | div | mod =>
      refine (execArithBinop_stays (guardedDivision_panics _) ?_).control rfl rfl rfl rfl
      rintro a b out rest rfl
      rfl
  | and | or | xor =>
      refine (execArithBinop_stays (fun _ _ => hpure _) ?_).control rfl rfl rfl rfl
      rintro a b out rest rfl
      rfl
  | neg =>
      refine (execUnary_stays neg_panics ?_).control rfl rfl rfl rfl
      rintro a out rest rfl
      rfl
  | not =>
      refine (execUnary_stays (fun _ => hpure _) ?_).control rfl rfl rfl rfl
      rintro a out rest rfl
      rfl
  | eq | neq | gt | lt | gte | lte =>
      refine (execCompare_stays ?_).control rfl rfl rfl rfl
      rintro a b rest rfl
      rfl
  | jump => exact ⟨rfl, execJump_callStack vm ops, rfl⟩
  | jumpIf => exact ⟨rfl, execJumpIf_callStack vm ops, rfl⟩
  | call => exact ⟨rfl, rfl, rfl⟩
  | ret => exact execRet_control vm ops
  | loadIndex => exact (execLoadIndex_stays vm ops).control rfl rfl rfl rfl
  | storeIndex => exact (execStoreIndex_stays vm ops).control rfl rfl rfl rfl
  | timerRun => exact (execTimerRun_stays vm ops).control rfl rfl rfl rfl
  | readTimer => exact (execReadTimer_stays vm ops).control rfl rfl rfl rfl
  | counterRun => exact (execCounterRun_stays vm ops).control rfl rfl rfl rfl
  | readCounter => exact (execReadCounter_stays vm ops).control rfl rfl rfl rfl
  | srRun => exact (execSrRun_stays vm ops).control rfl rfl rfl rfl
  | readSr => exact (execReadSr_stays vm ops).control rfl rfl rfl rfl
  | edgeRun => exact (execEdgeRun_stays vm ops).control rfl rfl rfl rfl
  | readEdge => exact (execReadEdge_stays vm ops).control rfl rfl rfl rfl
  | halt => exact ⟨rfl, rfl, rfl⟩

/-- A step of the machine that neither ends the run nor fails takes control where the
instruction says. -/
theorem step_next {code : List (Instruction P)} (h : step code vm = .next vm') :
    ∃ inst, code[vm.ip]? = some inst ∧ vm'.ip = vm.nextIp inst ∧
      vm'.callStack = vm.nextStack inst ∧ vm.halts inst = false := by
  rw [step] at h
  cases hinst : code[vm.ip]? with
  | none => rw [hinst] at h; cases h
  | some inst =>
      simp only [hinst] at h
      cases hexec : vm.executeInstruction inst with
      | error panic => rw [hexec] at h; cases h
      | ok p =>
          obtain ⟨hip, hstack, hresult⟩ := (executeInstruction_control vm inst).of_ok hexec
          obtain ⟨next, result⟩ := p
          cases hhalts : vm.halts inst with
          | true =>
              obtain rfl : result = .halted := by simpa [hhalts] using hresult
              rw [hexec] at h
              cases h
          | false =>
              obtain rfl : result = .cont := by simpa [hhalts] using hresult
              simp only [hexec] at h
              obtain rfl := Machine.Result.next.inj h
              refine ⟨inst, rfl, hip, ?_, hhalts⟩
              rw [← hstack]
              cases hjump : inst.opcode.isJump <;> simp [advanceUnlessJump, hjump, advanceIp]

/-- A step of the machine that ends the run is at an instruction that does. -/
theorem step_done {code : List (Instruction P)} (h : step code vm = .done vm') :
    ∃ inst, code[vm.ip]? = some inst ∧ vm.halts inst = true := by
  rw [step] at h
  cases hinst : code[vm.ip]? with
  | none => rw [hinst] at h; cases h
  | some inst =>
      simp only [hinst] at h
      cases hexec : vm.executeInstruction inst with
      | error panic => rw [hexec] at h; cases h
      | ok p =>
          obtain ⟨-, -, hresult⟩ := (executeInstruction_control vm inst).of_ok hexec
          obtain ⟨next, result⟩ := p
          refine ⟨inst, rfl, ?_⟩
          cases hhalts : vm.halts inst with
          | true => rfl
          | false =>
              obtain rfl : result = .cont := by simpa [hhalts] using hresult
              rw [hexec] at h
              cases h

/-- Control goes to the next instruction or stays where it is, except that it goes to the
target of a jump or a call, and past the return address of a return. -/
theorem nextIp_cases (vm : Vm P) {inst : Instruction P} (hret : inst.opcode ≠ .ret) :
    vm.nextIp inst = vm.ip + 1 ∨ vm.nextIp inst = vm.ip ∨
      (inst.opcode = .call ∧ readU32Operand inst.operands.head? = vm.nextIp inst) ∨
      ((inst.opcode = .jump ∨ inst.opcode = .jumpIf) ∧
        jumpTarget inst.operands = some (vm.nextIp inst)) := by
  obtain ⟨opcode, ops⟩ := inst
  cases opcode with
  | jump =>
      cases htarget : jumpTarget ops with
      | none => exact Or.inr (Or.inl (by simp [nextIp, execJump, htarget]))
      | some t =>
          refine Or.inr (Or.inr (Or.inr ⟨Or.inl rfl, ?_⟩))
          simp [nextIp, execJump, htarget, setIp]
  | jumpIf =>
      cases htarget : jumpTarget ops with
      | none => exact Or.inl (by simp [nextIp, execJumpIf, htarget, advanceIp])
      | some t =>
          cases hflag : vm.flagsZero with
          | false => exact Or.inl (by simp [nextIp, execJumpIf, hflag, advanceIp])
          | true =>
              refine Or.inr (Or.inr (Or.inr ⟨Or.inr rfl, ?_⟩))
              simp [nextIp, execJumpIf, htarget, hflag, setIp]
  | call => exact Or.inr (Or.inr (Or.inl ⟨rfl, rfl⟩))
  | ret => exact absurd rfl hret
  | _ => exact Or.inl rfl

end Vm

/-! ### Code that control does not leave -/

/-- From an index before `n`, the instruction takes control to an index up to `n`. -/
def Instruction.staysWithin (n : ℕ) (inst : Instruction P) : Bool :=
  match inst.opcode with
  | .call | .ret | .halt => false
  | .jump | .jumpIf =>
      match Vm.jumpTarget inst.operands with
      | some target => decide (target ≤ n)
      | none => true
  | _ => true

/-- The target of a jump. -/
def Instruction.jumpsTo (inst : Instruction P) : Option ℕ :=
  match inst.opcode with
  | .jump | .jumpIf => Vm.jumpTarget inst.operands
  | _ => none

/-- The target of a call. -/
def Instruction.callsTo (inst : Instruction P) : Option ℕ :=
  match inst.opcode with
  | .call => Vm.jumpTarget inst.operands
  | _ => none

/-- The targets of the jumps of some code. -/
def jumpTargets (insts : List (Instruction P)) : List ℕ := insts.filterMap Instruction.jumpsTo

@[simp] theorem jumpTargets_append (a b : List (Instruction P)) :
    jumpTargets (a ++ b) = jumpTargets a ++ jumpTargets b :=
  List.filterMap_append

/-- The instruction neither calls nor returns nor halts. -/
def Instruction.isLocal (inst : Instruction P) : Bool :=
  match inst.opcode with
  | .call | .ret | .halt => false
  | _ => true

/-- The instruction uses registers of the register file, and calls nothing. -/
def Instruction.isTame (inst : Instruction P) : Bool :=
  inst.registersUsed.all (· < 16) && inst.opcode != .call

/-- Code without calls, returns and halts stays within an index that bounds its jumps. -/
theorem staysWithin_of_jumpTargets {insts : List (Instruction P)} {n : ℕ}
    (hlocal : insts.all Instruction.isLocal = true) (htargets : ∀ t ∈ jumpTargets insts, t ≤ n) :
    ∀ inst ∈ insts, inst.staysWithin n = true := by
  intro inst hinst
  have hl := List.all_eq_true.mp hlocal inst hinst
  have ht : ∀ t, inst.jumpsTo = some t → t ≤ n := fun t ht =>
    htargets t (List.mem_filterMap.mpr ⟨inst, hinst, ht⟩)
  obtain ⟨opcode, ops⟩ := inst
  cases opcode with
  | call => cases hl
  | ret => cases hl
  | halt => cases hl
  | jump | jumpIf =>
      simp only [Instruction.staysWithin, Instruction.jumpsTo] at ht ⊢
      split
      · exact decide_eq_true (ht _ ‹_›)
      · rfl
  | _ => rfl

namespace Vm

theorem nextIp_le_of_staysWithin {vm : Vm P} {inst : Instruction P} {n : ℕ}
    (h : inst.staysWithin n = true) (hip : vm.ip < n) :
    vm.nextIp inst ≤ n ∧ vm.halts inst = false := by
  obtain ⟨opcode, ops⟩ := inst
  have hret : opcode ≠ .ret := by
    rintro rfl
    cases h
  refine ⟨?_, ?_⟩
  · have hcases := vm.nextIp_cases (show (Instruction.mk opcode ops).opcode ≠ .ret from hret)
    rcases hcases with hnext | hnext | ⟨hcall, -⟩ | ⟨hjump, htarget⟩
    · omega
    · omega
    · obtain rfl : opcode = .call := hcall
      cases h
    · simp only [Instruction.staysWithin, htarget] at h
      rcases hjump with hjump | hjump <;>
        obtain rfl := hjump <;>
        exact of_decide_eq_true h
  · cases opcode with
    | halt => cases h
    | ret => cases h
    | _ => rfl

/-- Code that stays within its own indices, followed by a jump back into it: control does
not get past the jump. -/
theorem not_exec_ok_of_jump_back {code rest : List (Instruction P)} {target : UInt32}
    (hcode : ∀ inst ∈ code, inst.staysWithin code.length = true)
    (htarget : target.toNat ≤ code.length) {vm vm' : Vm P} (hip : vm.ip ≤ code.length) :
    ¬Machine.Exec (Vm.step (code ++ .jump target :: rest)) vm (.ok vm') := by
  refine Machine.Exec.not_ok (I := fun vm => vm.ip ≤ code.length) (fun vm hip => ?_) hip
  obtain ⟨inst, hinst, hstays⟩ : ∃ inst, (code ++ .jump target :: rest)[vm.ip]? = some inst ∧
      vm.nextIp inst ≤ code.length ∧ vm.halts inst = false := by
    rcases Nat.lt_or_eq_of_le hip with hlt | heq
    · refine ⟨code[vm.ip], ?_, nextIp_le_of_staysWithin (hcode _ (List.getElem_mem hlt)) hlt⟩
      rw [List.getElem?_append_left hlt, List.getElem?_eq_getElem hlt]
    · refine ⟨.jump target, ?_, htarget, rfl⟩
      rw [heq, List.getElem?_append_right le_rfl, Nat.sub_self]
      rfl
  cases hstep : Vm.step (code ++ .jump target :: rest) vm with
  | next vm' =>
      obtain ⟨inst', hinst', hnext, -, -⟩ := step_next hstep
      obtain rfl := Option.some.inj (hinst.symm.trans hinst')
      exact Or.inl ⟨vm', rfl, hnext.le.trans hstays.1⟩
  | fail e => exact Or.inr ⟨e, rfl⟩
  | done vm' =>
      obtain ⟨inst', hinst', hhalts⟩ := step_done hstep
      obtain rfl := Option.some.inj (hinst.symm.trans hinst')
      rw [hstays.2] at hhalts
      cases hhalts

end Vm

/-! ### Steps and runs of the interpreter -/

namespace Executor

/-- The interpreter is about to execute the instruction: it is at `ip`, and no breakpoint
stops before it. -/
def Executes (e : Executor P) (inst : Instruction P) : Prop :=
  e.program.instructions[e.vm.ip]? = some inst ∧ e.atBreakpoint = false

/-- A step that stops at a breakpoint changes nothing. -/
theorem step_atBreakpoint {e : Executor P} {inst : Instruction P}
    (hinst : e.program.instructions[e.vm.ip]? = some inst) (h : e.atBreakpoint = true) :
    e.step = .ok (e, .breaked) := by
  rw [atBreakpoint] at h
  simp only [step, hinst, h, if_true]
  rfl

/-- A step that executes an instruction takes control where the instruction says. -/
theorem step_executes {e : Executor P} {inst : Instruction P} (h : e.Executes inst) :
    Ends e.step
      (fun p =>
        p.1.program = e.program ∧ p.1.vm.ip = e.vm.nextIp inst ∧
        p.1.vm.callStack = e.vm.nextStack inst ∧
        p.2 = if e.vm.halts inst then .halted else .cont)
      (PanicWithin inst.registersUsed) := by
  obtain ⟨hinst, hbreak⟩ := h
  rw [atBreakpoint] at hbreak
  simp only [step, hinst, hbreak]
  refine (e.vm.executeInstruction_control inst).bind fun p hp => ?_
  obtain ⟨hip, hstack, hresult⟩ := hp
  refine ⟨rfl, hip, ?_, hresult⟩
  rw [← hstack]
  cases h : inst.opcode.isJump <;> simp [Vm.advanceUnlessJump, h, Vm.advanceIp]

/-- A step that panics executes an instruction, or has none to execute. -/
theorem executes_of_step_error {e : Executor P} {panic : Panic}
    (h : e.step = .error panic) :
    (panic = .ipOutOfBounds e.vm.ip ∧ e.program.instructions[e.vm.ip]? = none) ∨
      ∃ inst, e.Executes inst := by
  cases hinst : e.program.instructions[e.vm.ip]? with
  | none =>
      simp only [step, hinst] at h
      obtain rfl := Except.error.inj h
      exact Or.inl ⟨rfl, rfl⟩
  | some inst =>
      cases hbreak : e.atBreakpoint with
      | true => rw [step_atBreakpoint hinst hbreak] at h; cases h
      | false => exact Or.inr ⟨inst, hinst, hbreak⟩

/-- A step that succeeds stops at a breakpoint and changes nothing, or executes an
instruction. -/
theorem step_ok_cases {e e' : Executor P} {result : ExecutorResult}
    (h : e.step = .ok (e', result)) :
    (e' = e ∧ result = .breaked) ∨
      ∃ inst, e.Executes inst ∧ e'.program = e.program ∧ e'.vm.ip = e.vm.nextIp inst ∧
        e'.vm.callStack = e.vm.nextStack inst ∧
        result = if e.vm.halts inst then .halted else .cont := by
  cases hinst : e.program.instructions[e.vm.ip]? with
  | none => simp only [step, hinst] at h; cases h
  | some inst =>
      cases hbreak : e.atBreakpoint with
      | true =>
          rw [step_atBreakpoint hinst hbreak] at h
          cases h
          exact Or.inl ⟨rfl, rfl⟩
      | false =>
          have hexec : e.Executes inst := ⟨hinst, hbreak⟩
          exact Or.inr ⟨inst, hexec, (step_executes hexec).of_ok h⟩

end Executor

/-- A run of the interpreter: consecutive steps, with their results. -/
structure Run (P : Platform) where
  state : ℕ → Executor P
  result : ℕ → ExecutorResult
  length : ℕ
  step_eq : ∀ i < length, (state i).step = .ok (state (i + 1), result i)

/-- The machine at the end of `runToHalt`, or its panic. -/
def Executor.finalVm (o : Except Panic (Executor P × ℕ)) : Except Panic (Vm P) :=
  (fun p => p.1.vm) <$> o

/-- A step with the debugger off executes an instruction, and leaves the debugger and the
program alone. -/
theorem Executor.step_debugOff {e e' : Executor P} {result : ExecutorResult}
    (hoff : e.debugState.debugMode = false) (h : e.step = .ok (e', result)) :
    e'.debugState = e.debugState ∧ e'.program = e.program ∧ result ≠ .breaked := by
  cases hinst : e.program.instructions[e.vm.ip]? with
  | none => simp only [step, hinst] at h; cases h
  | some inst =>
      have hexec : e.Executes inst := ⟨hinst, by rw [atBreakpoint, hoff, Bool.false_and]⟩
      obtain ⟨hprog, -, -, hresult⟩ := (step_executes hexec).of_ok h
      have hne : result ≠ .breaked := by
        rw [show result = _ from hresult]
        split <;> rintro ⟨⟩
      refine ⟨?_, hprog, hne⟩
      simp only [step, hinst, hoff] at h
      obtain ⟨p, -, hp⟩ := bind_eq_ok h
      cases hp
      rfl

/-- With the debugger off, `runToHalt` returns exactly what the machine ends with. -/
theorem Executor.exec_iff_runToHalt {e : Executor P} (hoff : e.debugState.debugMode = false)
    {o : Except Panic (Vm P)} :
    Machine.Exec (Vm.step e.program.instructions) e.vm o ↔
      ∃ fuel, (runToHalt fuel e).map finalVm = some o := by
  rw [Machine.exec_iff_run]
  refine exists_congr fun fuel => ?_
  have hrun : ∀ (fuel : ℕ) (e : Executor P), e.debugState.debugMode = false →
      (runToHalt fuel e).map finalVm =
        Machine.run (Vm.step e.program.instructions) fuel e.vm := by
    intro fuel
    induction fuel with
    | zero => exact fun _ _ => rfl
    | succ fuel ih =>
        intro e hoff
        have hstep := e.step_eq (by rw [atBreakpoint, hoff, Bool.false_and])
        rw [stepResult] at hstep
        rw [runToHalt, Machine.run, ← hstep]
        cases hst : e.step with
        | error panic => rfl
        | ok p =>
            obtain ⟨e', _ | _ | _⟩ := p
            · obtain ⟨hdebug, hprog, -⟩ := step_debugOff hoff hst
              simp only
              rw [← hprog, ← ih e' (by rw [hdebug, hoff])]
              cases runToHalt fuel e' with
              | none => rfl
              | some o => cases o <;> rfl
            · rfl
            · exact absurd rfl (step_debugOff hoff hst).2.2
  rw [hrun fuel e hoff]

end Weftik
