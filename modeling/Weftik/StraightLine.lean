import Weftik.Registers
import Weftik.Lib.Code

/-!
# Straight-Line Code

Code without jumps, calls, returns and halts runs from its first instruction to its last.
`Vm.execList` is its effect as a function; the machine reaches the state after it, or
panics as it does.

## Main results

* `Vm.steps_of_execList`, `Vm.exec_of_execList`: the machine over a program runs a
  straight-line fragment of it as `execList` says.
* `Vm.stepSeq_loadReg` and its siblings: the effect of the instructions that compilers emit.
* `Vm.execList_reg`: registers that motion code does not write.
-/

open Outcome Machine Code

namespace Weftik

variable {P : Platform}

/-- The opcodes after which control goes to the next instruction. -/
def Opcode.isSequential : Opcode → Bool
  | .jump | .jumpIf | .call | .ret | .halt => false
  | _ => true

/-- A list of instructions without jumps, calls, returns and halts. -/
def IsSequential (insts : List (Instruction P)) : Prop :=
  ∀ inst ∈ insts, inst.opcode.isSequential = true

theorem isSequential_of_all {insts : List (Instruction P)}
    (h : insts.all (fun inst => inst.opcode.isSequential) = true) : IsSequential insts :=
  List.all_eq_true.mp h

theorem IsSequential.append {a b : List (Instruction P)} (ha : IsSequential a)
    (hb : IsSequential b) : IsSequential (a ++ b) := by
  intro inst hinst
  rcases List.mem_append.mp hinst with h | h
  · exact ha inst h
  · exact hb inst h

theorem Instruction.staysWithin_mono {inst : Instruction P} {m n : ℕ} (hle : m ≤ n)
    (h : inst.staysWithin m = true) : inst.staysWithin n = true := by
  obtain ⟨opcode, ops⟩ := inst
  cases opcode with
  | call => cases h
  | ret => cases h
  | halt => cases h
  | jump =>
      simp only [Instruction.staysWithin] at h ⊢
      split
      · rename_i target htarget
        rw [htarget] at h
        exact decide_eq_true ((of_decide_eq_true h).trans hle)
      · rfl
  | jumpIf =>
      simp only [Instruction.staysWithin] at h ⊢
      split
      · rename_i target htarget
        rw [htarget] at h
        exact decide_eq_true ((of_decide_eq_true h).trans hle)
      · rfl
  | _ => rfl

/-- Code without jumps stays within any number of instructions. -/
theorem IsSequential.staysWithin {insts : List (Instruction P)} (h : IsSequential insts) (n : ℕ) :
    ∀ inst ∈ insts, inst.staysWithin n = true := by
  intro inst hinst
  have hseq := h inst hinst
  obtain ⟨opcode, ops⟩ := inst
  cases opcode <;> first | rfl | cases hseq

/-- The instruction is one of those that motion code is made of, and does not write the
register. -/
def Instruction.spares (r : ℕ) (inst : Instruction P) : Bool :=
  match inst.opcode, inst.operands with
  | .load, .register dest :: _ => dest != r
  | .add, [_, _, out] | .sub, [_, _, out] | .mul, [_, _, out] => Vm.destReg out != r
  | .store, _ | .gt, _ | .jump, _ | .jumpIf, _ => true
  | _, _ => false

namespace Vm

/-- One instruction of straight-line code. -/
def stepSeq (vm : Vm P) (inst : Instruction P) : Except Panic (Vm P) :=
  (fun p => p.1.advanceIp) <$> vm.executeInstruction inst

/-- Straight-line code. -/
def execList (vm : Vm P) (insts : List (Instruction P)) : Except Panic (Vm P) :=
  insts.foldlM stepSeq vm

@[simp] theorem execList_nil (vm : Vm P) : vm.execList [] = .ok vm := rfl

@[simp] theorem execList_cons (vm : Vm P) (inst : Instruction P)
    (insts : List (Instruction P)) :
    vm.execList (inst :: insts) = vm.stepSeq inst >>= fun vm' => vm'.execList insts := by
  rw [execList, List.foldlM_cons]
  rfl

theorem execList_append (vm : Vm P) (a b : List (Instruction P)) :
    vm.execList (a ++ b) = vm.execList a >>= fun vm' => vm'.execList b := by
  rw [execList, List.foldlM_append]
  rfl

/-! ### The machine runs straight-line code -/

variable {inst : Instruction P}

/-- Control after a sequential instruction. -/
theorem control_of_isSequential (vm : Vm P) (h : inst.opcode.isSequential = true) :
    inst.opcode.isJump = false ∧ vm.halts inst = false ∧ vm.nextIp inst = vm.ip + 1 := by
  obtain ⟨opcode, ops⟩ := inst
  cases opcode <;> first | exact ⟨rfl, rfl, rfl⟩ | cases h

/-- A step of the machine at a sequential instruction. -/
theorem step_of_isSequential {code : List (Instruction P)} {vm : Vm P}
    (hinst : code[vm.ip]? = some inst) (hseq : inst.opcode.isSequential = true) :
    (∀ vm', vm.stepSeq inst = .ok vm' → Vm.step code vm = .next vm' ∧ vm'.ip = vm.ip + 1) ∧
      (∀ e, vm.stepSeq inst = .error e → Vm.step code vm = .fail e) := by
  obtain ⟨hjump, hhalts, hnext⟩ := control_of_isSequential vm hseq
  have hcontrol := vm.executeInstruction_control inst
  rw [stepSeq]
  simp only [step, hinst]
  cases hexec : vm.executeInstruction inst with
  | error e =>
      refine ⟨by rintro _ ⟨⟩, ?_⟩
      rintro e' ⟨⟩
      rfl
  | ok p =>
      obtain ⟨vm', result⟩ := p
      rw [hexec] at hcontrol
      obtain ⟨hip, -, hresult⟩ := hcontrol
      rw [hhalts] at hresult
      simp only [advanceUnlessJump, hjump] at hip ⊢
      refine ⟨?_, by rintro _ ⟨⟩⟩
      rintro vm'' ⟨⟩
      have hcont : result = .cont := hresult
      subst hcont
      exact ⟨rfl, hip.trans hnext⟩

variable {code : List (Instruction P)} {insts : List (Instruction P)}

/-- The machine, or one that takes the same steps in the fragment, runs a straight-line
fragment. -/
theorem follows_execList {step' : Vm P → Result (Vm P) Panic} (hseq : IsSequential insts)
    {vm : Vm P} (hcode : CodeAt code vm.ip insts)
    (hsame : ∀ vm' : Vm P, vm.ip ≤ vm'.ip → vm'.ip < vm.ip + insts.length →
        step' vm' = Vm.step code vm') :
    Follows step' vm (fun result vm' => vm' = result ∧ vm'.ip = vm.ip + insts.length)
      (vm.execList insts) := by
  induction insts generalizing vm with
  | nil => exact .pure ⟨rfl, rfl⟩
  | cons inst insts ih =>
      rw [List.length_cons] at hsame ⊢
      obtain ⟨hok, herror⟩ := step_of_isSequential hcode.head (hseq inst List.mem_cons_self)
      rw [← hsame vm le_rfl (by omega)] at hok herror
      rw [execList_cons]
      cases hfirst : vm.stepSeq inst with
      | error e => exact .fail (herror e hfirst)
      | ok vm₁ =>
          obtain ⟨hstep, hip⟩ := hok vm₁ hfirst
          have htail := hcode.tail
          rw [← hip] at htail
          refine Follows.head hstep ((ih (fun i hi => hseq i (List.mem_cons_of_mem inst hi))
            htail fun vm' hle hlt => hsame vm' (by omega) (by omega)).mono ?_)
          rintro result vm' ⟨rfl, hend⟩
          exact ⟨rfl, by omega⟩

/-- The machine runs a straight-line fragment that does not panic. -/
theorem steps_of_execList (hseq : IsSequential insts) {vm vm' : Vm P}
    (hcode : CodeAt code vm.ip insts) (h : vm.execList insts = .ok vm') :
    Steps (Vm.step code) vm vm' ∧ vm'.ip = vm.ip + insts.length := by
  have hfollows := follows_execList hseq hcode fun _ _ _ => rfl
  rw [h] at hfollows
  obtain ⟨vm₁, hsteps, rfl, hip⟩ := hfollows
  exact ⟨hsteps, hip⟩

/-- The machine runs a straight-line fragment that panics. -/
theorem exec_of_execList (hseq : IsSequential insts) {vm : Vm P} {e : Panic}
    (hcode : CodeAt code vm.ip insts) (h : vm.execList insts = .error e) :
    Exec (Vm.step code) vm (.error e) := by
  have hfollows := follows_execList hseq hcode fun _ _ _ => rfl
  rw [h] at hfollows
  exact hfollows

/-- A whole program of straight-line code and a `Halt`. -/
theorem exec_program (hseq : IsSequential insts) {vm : Vm P} (hip : vm.ip = 0) :
    Exec (Vm.step (insts ++ [Instruction.halt])) vm ((·.advanceIp) <$> vm.execList insts) := by
  have hcode : CodeAt (insts ++ [Instruction.halt]) vm.ip insts := by
    rw [hip]
    exact CodeAt.middle [] insts [Instruction.halt]
  cases h : vm.execList insts with
  | error e => exact exec_of_execList hseq hcode h
  | ok vm' =>
      obtain ⟨hsteps, hend⟩ := steps_of_execList hseq hcode h
      refine Exec.of_steps hsteps (.done ?_)
      have hhalt : (insts ++ [Instruction.halt])[vm'.ip]? = some Instruction.halt := by
        rw [hend, hip, Nat.zero_add, List.getElem?_concat_length]
      simp only [step, hhalt]
      rfl

/-! ### The instructions that compilers emit -/

section Instructions

variable {vm : Vm P} {r s a b out : ℕ}

theorem stepSeq_loadImm (hr : r < 16) (v : HalValue P) :
    vm.stepSeq (.loadImm r v) = .ok (vm.setReg r v).advanceIp := by
  simp only [stepSeq, executeInstruction, Instruction.loadImm, execLoad,
    writeRegister_of_lt hr]
  rfl

theorem stepSeq_loadReg (hr : r < 16) (hs : s < 16) :
    vm.stepSeq (.loadReg r s) = .ok (vm.setReg r (vm.reg s)).advanceIp := by
  simp only [stepSeq, executeInstruction, Instruction.loadReg, execLoad,
    readRegister_of_lt hs, ok_bind, writeRegister_of_lt hr]
  rfl

theorem stepSeq_loadSignal (hr : r < 16) (name : String) :
    vm.stepSeq (.loadSignal r name) =
      .ok (vm.setReg r ((vm.signals name).getD (.bool false))).advanceIp := by
  simp only [stepSeq, executeInstruction, Instruction.loadSignal, execLoad, readSignal,
    writeRegister_of_lt hr]
  rfl

theorem stepSeq_storeSignal (hs : s < 16) (name : String) :
    vm.stepSeq (.storeSignal name s) = .ok (vm.writeSignal name (vm.reg s)).advanceIp := by
  simp only [stepSeq, executeInstruction, Instruction.storeSignal, execStore, readReg,
    readRegister_of_lt hs, ok_bind]
  rfl

/-- The operation that a two-operand opcode performs. -/
def arithFn : Opcode → HalValue P → HalValue P → Except Panic (HalValue P)
  | .add => HalValue.binop .add
  | .sub => HalValue.binop .sub
  | .mul => HalValue.binop .mul
  | .div => guardedDivision .div
  | .mod => guardedDivision .rem
  | .and => fun a b => pure (a.bitop .and b)
  | .or => fun a b => pure (a.bitop .or b)
  | .xor => fun a b => pure (a.bitop .xor b)
  | _ => fun _ _ => pure (.s32 0)

/-- The opcodes that perform a two-operand operation. -/
def Opcode.isArith : Opcode → Bool
  | .add | .sub | .mul | .div | .mod | .and | .or | .xor => true
  | _ => false

theorem stepSeq_arith {opcode : Opcode} (hop : Opcode.isArith opcode = true) (ha : a < 16)
    (hb : b < 16) (hout : out < 16) :
    vm.stepSeq (.arith opcode a b out) =
      (fun v => (vm.setReg out v).advanceIp) <$> arithFn opcode (vm.reg a) (vm.reg b) := by
  have hexec : ∀ f : HalValue P → HalValue P → Except Panic (HalValue P),
      vm.execArithBinop f [.register a, .register b, .register out] =
        vm.setReg out <$> f (vm.reg a) (vm.reg b) := by
    intro f
    simp only [execArithBinop, readReg, readRegister_of_lt ha, readRegister_of_lt hb,
      ok_bind, destReg, writeRegister_of_lt hout]
    cases f (vm.reg a) (vm.reg b) <;> rfl
  cases opcode with
  | add | sub | mul | div | mod | and | or | xor =>
      simp only [stepSeq, executeInstruction, Instruction.arith, hexec, arithFn, continues,
        Functor.map_map]
  | _ => cases hop

/-- A fragment that is one operation. -/
theorem execList_arith {opcode : Opcode} (hop : Opcode.isArith opcode = true) (ha : a < 16)
    (hb : b < 16) (hout : out < 16) :
    vm.execList [.arith opcode a b out] =
      (fun v => (vm.setReg out v).advanceIp) <$> arithFn opcode (vm.reg a) (vm.reg b) := by
  rw [execList_cons, stepSeq_arith hop ha hb hout]
  cases arithFn opcode (vm.reg a) (vm.reg b) <;> rfl

/-- The test that a comparison puts into the flag. -/
def compareFn : Opcode → HalValue P → HalValue P → Bool
  | .eq => HalValue.beq
  | .neq => fun a b => !a.beq b
  | .gt => fun a b => a.partialCmp b == some .gt
  | .lt => fun a b => a.partialCmp b == some .lt
  | .gte => fun a b => a.partialCmp b == some .gt || a.partialCmp b == some .eq
  | .lte => fun a b => a.partialCmp b == some .lt || a.partialCmp b == some .eq
  | _ => fun _ _ => false

/-- The opcodes of the comparisons. -/
def Opcode.isCompare : Opcode → Bool
  | .eq | .neq | .gt | .lt | .gte | .lte => true
  | _ => false

theorem stepSeq_cmp {opcode : Opcode} (hop : Opcode.isCompare opcode = true) (ha : a < 16)
    (hb : b < 16) :
    vm.stepSeq (.cmp opcode a b) =
      .ok (vm.setFlagsZero (compareFn opcode (vm.reg a) (vm.reg b))).advanceIp := by
  have hexec : ∀ f : HalValue P → HalValue P → Bool,
      vm.execCompare f [.register a, .register b] =
        .ok (vm.setFlagsZero (f (vm.reg a) (vm.reg b))) := by
    intro f
    simp only [execCompare, readReg, readRegister_of_lt ha, readRegister_of_lt hb, ok_bind]
    rfl
  cases opcode with
  | eq | neq | gt | lt | gte | lte =>
      simp only [stepSeq, executeInstruction, Instruction.cmp, hexec, compareFn, continues]
      rfl
  | _ => cases hop

theorem stepSeq_not (ha : a < 16) (hout : out < 16) :
    vm.stepSeq (.unary .not a out) = .ok (vm.setReg out (vm.reg a).not).advanceIp := by
  simp only [stepSeq, executeInstruction, Instruction.unary, execUnary, readReg,
    readRegister_of_lt ha, ok_bind, destReg, pure_bind, writeRegister_of_lt hout]
  rfl

end Instructions

/-! ### Registers that an instruction does not write -/

/-- An instruction of motion code that spares a register does not write it. -/
theorem notMem_written_of_spares {r : ℕ} (hspares : inst.spares r = true) : r ∉ inst.written := by
  have hone : ∀ {dest : ℕ}, (dest != r) = true → r ∉ [dest] := fun h he =>
    bne_iff_ne.mp h (List.mem_singleton.mp he).symm
  obtain ⟨opcode, ops⟩ := inst
  unfold Instruction.spares at hspares
  split at hspares
  · rename_i rest hop hops
    obtain rfl : opcode = .load := hop
    obtain rfl : ops = _ := hops
    cases rest with
    | nil => exact List.not_mem_nil
    | cons source rest => exact hone hspares
  · rename_i hop hops
    obtain rfl : opcode = .add := hop
    obtain rfl : ops = _ := hops
    exact hone hspares
  · rename_i hop hops
    obtain rfl : opcode = .sub := hop
    obtain rfl : ops = _ := hops
    exact hone hspares
  · rename_i hop hops
    obtain rfl : opcode = .mul := hop
    obtain rfl : ops = _ := hops
    exact hone hspares
  · rename_i hop
    obtain rfl : opcode = .store := hop
    exact List.not_mem_nil
  · rename_i hop
    obtain rfl : opcode = .gt := hop
    exact List.not_mem_nil
  · rename_i hop
    obtain rfl : opcode = .jump := hop
    exact List.not_mem_nil
  · rename_i hop
    obtain rfl : opcode = .jumpIf := hop
    exact List.not_mem_nil
  · cases hspares

/-- Straight-line code that does not write a register. -/
theorem execList_reg {r : ℕ} (hspares : ∀ inst ∈ insts, inst.spares r = true) {vm vm' : Vm P}
    (h : vm.execList insts = .ok vm') : vm'.reg r = vm.reg r := by
  induction insts generalizing vm with
  | nil =>
      obtain rfl := Except.ok.inj h
      rfl
  | cons inst insts ih =>
      rw [execList_cons] at h
      obtain ⟨vm₁, hfirst, hrest⟩ := bind_eq_ok h
      rw [ih (fun i hi => hspares i (List.mem_cons_of_mem inst hi)) hrest]
      rw [stepSeq] at hfirst
      cases hexec : vm.executeInstruction inst with
      | error e => rw [hexec] at hfirst; cases hfirst
      | ok p =>
          obtain ⟨vm₂, result⟩ := p
          rw [hexec] at hfirst
          obtain rfl := Except.ok.inj hfirst
          exact (executeInstruction_reg vm
            (notMem_written_of_spares (hspares inst List.mem_cons_self))).of_ok hexec

end Vm

end Weftik
