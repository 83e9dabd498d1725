import Weftik.Executor

/-!
# What an Instruction Leaves Alone

Most instructions change registers, the flag and the control flow, and the state of one kind
of function block. A part of the machine that all of these are apart from is the same after
the instruction.

## Main definitions

* `Vm.Free`: a part of the machine that registers, flag and control flow are no part of.
* `Vm.Apart`: one that counters, flip-flops and edge detectors are no part of either.
* `Vm.Keeps`: a computation that leaves a part of the machine alone.

## Main results

* `Vm.executeInstruction_free`: only `Store` and the function-block instructions may change a
  part of the first kind.
* `Vm.executeInstruction_keeps`: only `Store` and the two timer instructions may change one of
  the second.
-/

open Outcome

namespace Weftik.Vm

variable {P : Platform} {α : Type}

/-- A part of the machine that registers, flag and control flow are no part of. -/
structure Free (part : Vm P → α) : Prop where
  setReg : ∀ vm r v, part (vm.setReg r v) = part vm
  setFlagsZero : ∀ vm b, part (vm.setFlagsZero b) = part vm
  setIp : ∀ vm n, part (vm.setIp n) = part vm
  callStack : ∀ (vm : Vm P) s, part { vm with callStack := s } = part vm

/-- A part of the machine that registers, flag, control flow, counters, flip-flops and edge
detectors are no part of. -/
structure Apart (part : Vm P → α) : Prop where
  setReg : ∀ vm r v, part (vm.setReg r v) = part vm
  setFlagsZero : ∀ vm b, part (vm.setFlagsZero b) = part vm
  setIp : ∀ vm n, part (vm.setIp n) = part vm
  callStack : ∀ (vm : Vm P) s, part { vm with callStack := s } = part vm
  counters : ∀ (vm : Vm P) l, part { vm with counters := l } = part vm
  srs : ∀ (vm : Vm P) l, part { vm with srs := l } = part vm
  edges : ∀ (vm : Vm P) l, part { vm with edges := l } = part vm

/-- A computation that leaves a part of the machine alone if it succeeds. -/
def Keeps (part : Vm P → α) (vm : Vm P) (c : Except Panic (Vm P)) : Prop :=
  Ends c (fun vm' => part vm' = part vm) fun _ => True

variable {part : Vm P → α} {vm vm' : Vm P}

theorem Keeps.bind {β : Type} {c : Except Panic β} {f : β → Except Panic (Vm P)}
    (h : ∀ b, vm.Keeps part (f b)) : vm.Keeps part (c >>= f) := by
  cases c with
  | ok b => exact h b
  | error e => trivial

theorem Keeps.pure (h : part vm' = part vm) : vm.Keeps part (Pure.pure vm') := h

theorem Keeps.continues {c : Except Panic (Vm P)} (h : vm.Keeps part c) :
    Ends (continues c) (fun p => part p.1 = part vm) fun _ => True :=
  Ends.map h

/-! ### Registers, the flag and control flow -/

namespace Free

variable (hpart : Free part)
include hpart

theorem writeRegister (h : part vm' = part vm) (r : ℕ) (v : HalValue P) :
    vm.Keeps part (vm'.writeRegister r v) := by
  rw [Vm.writeRegister]
  split
  · exact (hpart.setReg vm' r v).trans h
  · trivial

theorem writeTwice (h : part vm' = part vm) (r s : ℕ) (v w : HalValue P) :
    vm.Keeps part (vm'.writeRegister r v >>= fun vm' => vm'.writeRegister s w) := by
  rw [Vm.writeRegister]
  split
  · exact hpart.writeRegister ((hpart.setReg vm' r v).trans h) s w
  · trivial

theorem execLoad (ops : List (Operand P)) : vm.Keeps part (vm.execLoad ops) := by
  unfold Vm.execLoad
  split
  · exact hpart.writeRegister rfl _ _
  · exact .bind fun _ => hpart.writeRegister rfl _ _
  · exact hpart.writeRegister rfl _ _
  · exact .pure rfl

theorem execLoadIndex (ops : List (Operand P)) : vm.Keeps part (vm.execLoadIndex ops) := by
  unfold Vm.execLoadIndex
  split
  · exact .bind fun _ => .bind fun _ => .bind fun _ => hpart.writeRegister rfl _ _
  · exact .pure rfl

theorem execStoreIndex (ops : List (Operand P)) : vm.Keeps part (vm.execStoreIndex ops) := by
  unfold Vm.execStoreIndex
  split
  · exact .bind fun _ => .bind fun _ => .bind fun _ => .bind fun _ =>
      hpart.writeRegister rfl _ _
  · exact .pure rfl

theorem execArithBinop (f : HalValue P → HalValue P → Except Panic (HalValue P))
    (ops : List (Operand P)) : vm.Keeps part (vm.execArithBinop f ops) := by
  unfold Vm.execArithBinop
  split
  · exact .bind fun _ => .bind fun _ => .bind fun _ => hpart.writeRegister rfl _ _
  · exact .pure rfl

theorem execUnary (f : HalValue P → Except Panic (HalValue P)) (ops : List (Operand P)) :
    vm.Keeps part (vm.execUnary f ops) := by
  unfold Vm.execUnary
  split
  · exact .bind fun _ => .bind fun _ => hpart.writeRegister rfl _ _
  · exact .pure rfl

theorem execCompare (f : HalValue P → HalValue P → Bool) (ops : List (Operand P)) :
    vm.Keeps part (vm.execCompare f ops) := by
  unfold Vm.execCompare
  split
  · exact .bind fun _ => .bind fun _ => .pure (hpart.setFlagsZero vm _)
  · exact .pure rfl

theorem execJump (ops : List (Operand P)) : part (vm.execJump ops) = part vm := by
  rw [Vm.execJump]
  split
  · exact hpart.setIp vm _
  · rfl

theorem execJumpIf (ops : List (Operand P)) : part (vm.execJumpIf ops) = part vm := by
  rw [Vm.execJumpIf]
  split
  · exact hpart.setIp vm _
  · exact hpart.setIp vm _

theorem execCall (ops : List (Operand P)) : part (vm.execCall ops) = part vm :=
  (hpart.setIp _ _).trans (hpart.callStack vm _)

theorem execRet (ops : List (Operand P)) :
    Ends (vm.execRet ops) (fun p => part p.1 = part vm) fun _ => True := by
  rw [Vm.execRet]
  split
  · rfl
  · rename_i returnIp callStack _
    have hcopy : vm.Keeps part (copyResult { vm with callStack := callStack } ops) := by
      unfold copyResult
      split
      · exact .bind fun _ => hpart.writeRegister (hpart.callStack vm _) _ _
      · exact .pure (hpart.callStack vm _)
    exact Ends.bind hcopy fun vm' h => (hpart.setIp vm' _).trans h

/-- After an instruction `ip` advances, or it does not. -/
theorem advanceUnlessJump (opcode : Opcode) :
    part (vm.advanceUnlessJump opcode) = part vm := by
  rw [Vm.advanceUnlessJump]
  split
  · rfl
  · exact hpart.setIp vm _

end Free

/-! ### Function blocks -/

/-- Is it an instruction of a function block? -/
def Opcode.isBlock : Opcode → Bool
  | .timerRun | .readTimer | .counterRun | .readCounter | .srRun | .readSr | .edgeRun
  | .readEdge => true
  | _ => false

/-- Only `Store` and the instructions of function blocks may change a part of the machine that
registers, flag and control flow are no part of. -/
theorem executeInstruction_free (hpart : Free part) (vm : Vm P) {inst : Instruction P}
    (hstore : inst.opcode ≠ .store) (hblock : Opcode.isBlock inst.opcode = false) :
    Ends (vm.executeInstruction inst) (fun p => part p.1 = part vm) fun _ => True := by
  obtain ⟨opcode, ops⟩ := inst
  cases opcode with
  | store => exact absurd rfl hstore
  | timerRun | readTimer | counterRun | readCounter | srRun | readSr | edgeRun | readEdge =>
      cases hblock
  | nop | halt => rfl
  | load => exact (hpart.execLoad ops).continues
  | add | sub | mul | div | mod | and | or | xor =>
      exact (hpart.execArithBinop _ ops).continues
  | neg | not => exact (hpart.execUnary _ ops).continues
  | eq | neq | gt | lt | gte | lte => exact (hpart.execCompare _ ops).continues
  | jump => exact hpart.execJump ops
  | jumpIf => exact hpart.execJumpIf ops
  | call => exact hpart.execCall ops
  | ret => exact hpart.execRet ops
  | loadIndex => exact (hpart.execLoadIndex ops).continues
  | storeIndex => exact (hpart.execStoreIndex ops).continues

namespace Apart

variable (hpart : Apart part)
include hpart

/-- Such a part is one of the first kind. -/
theorem free : Free part := ⟨hpart.setReg, hpart.setFlagsZero, hpart.setIp, hpart.callStack⟩

theorem execCounterRun (ops : List (Operand P)) :
    vm.Keeps part (vm.execCounterRun ops) := by
  unfold Vm.execCounterRun
  split
  · dsimp only
    split
    · exact .bind fun _ => .bind fun _ => .bind fun _ =>
        .pure (hpart.counters vm _)
    · exact .pure (hpart.counters vm _)
  · exact .pure rfl

theorem execReadCounter (ops : List (Operand P)) :
    vm.Keeps part (vm.execReadCounter ops) := by
  unfold Vm.execReadCounter
  split
  · dsimp only
    split
    · exact hpart.free.writeTwice (hpart.counters vm _) _ _ _ _
    · exact .pure (hpart.counters vm _)
  · exact .pure rfl

theorem execSrRun (ops : List (Operand P)) : vm.Keeps part (vm.execSrRun ops) := by
  unfold Vm.execSrRun
  split
  · exact .bind fun _ => .bind fun _ => .pure (hpart.srs vm _)
  · exact .pure rfl

theorem execReadSr (ops : List (Operand P)) : vm.Keeps part (vm.execReadSr ops) := by
  unfold Vm.execReadSr
  split
  · dsimp only
    split
    · exact hpart.free.writeTwice (hpart.srs vm _) _ _ _ _
    · exact .pure (hpart.srs vm _)
  · exact .pure rfl

theorem execEdgeRun (ops : List (Operand P)) : vm.Keeps part (vm.execEdgeRun ops) := by
  unfold Vm.execEdgeRun
  split
  · exact .bind fun _ => .pure (hpart.edges vm _)
  · exact .pure rfl

theorem execReadEdge (ops : List (Operand P)) : vm.Keeps part (vm.execReadEdge ops) := by
  unfold Vm.execReadEdge
  split
  · dsimp only
    split
    · exact hpart.free.writeRegister (hpart.edges vm _) _ _
    · exact .pure (hpart.edges vm _)
  · exact .pure rfl

end Apart

/-- Only `Store` and the two timer instructions may change a part of the machine that the
others are apart from. -/
theorem executeInstruction_keeps (hpart : Apart part) (vm : Vm P) {inst : Instruction P}
    (hstore : inst.opcode ≠ .store) (hrun : inst.opcode ≠ .timerRun)
    (hread : inst.opcode ≠ .readTimer) :
    Ends (vm.executeInstruction inst) (fun p => part p.1 = part vm) fun _ => True := by
  by_cases hblock : Opcode.isBlock inst.opcode = false
  · exact executeInstruction_free hpart.free vm hstore hblock
  · obtain ⟨opcode, ops⟩ := inst
    cases opcode with
    | timerRun => exact absurd rfl hrun
    | readTimer => exact absurd rfl hread
    | counterRun => exact (hpart.execCounterRun ops).continues
    | readCounter => exact (hpart.execReadCounter ops).continues
    | srRun => exact (hpart.execSrRun ops).continues
    | readSr => exact (hpart.execReadSr ops).continues
    | edgeRun => exact (hpart.execEdgeRun ops).continues
    | readEdge => exact (hpart.execReadEdge ops).continues
    | _ => exact absurd rfl hblock

/-- A step of the machine that does not fail executes the instruction at `ip`. -/
theorem step_executed {code : List (Instruction P)} {vm vm' : Vm P}
    (h : step code vm = .next vm' ∨ step code vm = .done vm') :
    ∃ inst, code[vm.ip]? = some inst ∧ ∃ result vm₁,
      vm.executeInstruction inst = .ok (vm₁, result) ∧
        vm' = vm₁.advanceUnlessJump inst.opcode := by
  rw [step] at h
  cases hinst : code[vm.ip]? with
  | none =>
      rw [hinst] at h
      rcases h with h | h <;> cases h
  | some inst =>
      simp only [hinst] at h
      cases hexec : vm.executeInstruction inst with
      | error panic =>
          rw [hexec] at h
          rcases h with h | h <;> cases h
      | ok p =>
          obtain ⟨vm₁, result⟩ := p
          rw [hexec] at h
          refine ⟨inst, rfl, result, vm₁, hexec, ?_⟩
          cases result <;> rcases h with h | h <;> cases h <;> rfl

/-- The signal table is apart. -/
theorem apart_signals : Apart (Vm.signals : Vm P → String → Option (HalValue P)) :=
  ⟨fun _ _ _ => rfl, fun _ _ => rfl, fun _ _ => rfl, fun _ _ => rfl, fun _ _ => rfl,
    fun _ _ => rfl, fun _ _ => rfl⟩

/-- The timers are apart. -/
theorem apart_timers : Apart (Vm.timers : Vm P → List TimerState) :=
  ⟨fun _ _ _ => rfl, fun _ _ => rfl, fun _ _ => rfl, fun _ _ => rfl, fun _ _ => rfl,
    fun _ _ => rfl, fun _ _ => rfl⟩

end Weftik.Vm
