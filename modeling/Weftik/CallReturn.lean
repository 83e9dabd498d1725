import Weftik.Control

/-!
# Calls and Returns

`Call` pushes the index after it and goes to the target; `Ret` pops that index and goes
there. But the executor counts only `Jump`, `JumpIf` and `Call` among the opcodes that set
`ip`, and advances `ip` once more after a `Ret`. So a completed call, at any nesting depth,
restores the call stack and goes on one instruction too far.

## Main definitions

* `Run.CompletedCall`: a call of a run together with the return that matches it.
* `Run.ReturnsAfterCall`: what a caller expects of it.

## Main results

* `Run.stack_within_call`: between the two, the stack is an extension of the stack right
  after the call.
* `Run.ret_skips_instruction`: after a completed call the next instruction is the second
  one after the call, never the first.
-/

namespace Weftik

variable {P : Platform}

namespace Run

/-- The instruction executed at a step of a run has the given opcode. -/
def ExecutesAt (r : Run P) (i : ℕ) (opcode : Opcode) : Prop :=
  ∃ inst, (r.state i).Executes inst ∧ inst.opcode = opcode

/-- The number of return addresses on the stack. -/
def depth (r : Run P) (i : ℕ) : ℕ := (r.state i).vm.callStack.length

/-- The call at step `i` is completed by the return at step `j`, the first return that is
executed when the stack is as deep as it was right after the call. -/
structure CompletedCall (r : Run P) (i j : ℕ) : Prop where
  lt : i < j
  inside : j < r.length
  call : r.ExecutesAt i .call
  ret : r.ExecutesAt j .ret
  depth_eq : r.depth j = r.depth (i + 1)
  first : ∀ k, i < k → k < j → r.ExecutesAt k .ret → r.depth k ≠ r.depth (i + 1)

/-- After the return, the next instruction is the one after the call, and the stack is what
it was before the call. -/
def ReturnsAfterCall (r : Run P) (i j : ℕ) : Prop :=
  (r.state (j + 1)).vm.ip = (r.state i).vm.ip + 1 ∧
    (r.state (j + 1)).vm.callStack = (r.state i).vm.callStack

/-! ### The stack within a call -/

/-- The step that executes an instruction, from the opcode it executes. -/
theorem step_of_executesAt {r : Run P} {i : ℕ} {opcode : Opcode} (hi : i < r.length)
    (h : r.ExecutesAt i opcode) :
    ∃ inst : Instruction P, inst.opcode = opcode ∧
      (r.state (i + 1)).vm.ip = (r.state i).vm.nextIp inst ∧
      (r.state (i + 1)).vm.callStack = (r.state i).vm.nextStack inst := by
  obtain ⟨inst, hexec, hop⟩ := h
  obtain ⟨-, hip, hstack, -⟩ := (Executor.step_executes hexec).of_ok (r.step_eq i hi)
  exact ⟨inst, hop, hip, hstack⟩

/-- A step that is no return extends the stack or leaves it alone. -/
theorem stack_step {r : Run P} {k : ℕ} (hk : k < r.length) (hret : ¬ r.ExecutesAt k .ret) :
    ∃ above, (r.state (k + 1)).vm.callStack = above ++ (r.state k).vm.callStack := by
  rcases Executor.step_ok_cases (r.step_eq k hk) with ⟨hstop, -⟩ | ⟨inst, hexec, -, -, hstack, -⟩
  · exact ⟨[], by rw [hstop]; rfl⟩
  · rw [hstack]
    cases hop : inst.opcode with
    | ret => exact absurd ⟨inst, hexec, hop⟩ hret
    | call => exact ⟨[(r.state k).vm.ip + 1], by simp [Vm.nextStack, hop]⟩
    | _ => exact ⟨[], by simp [Vm.nextStack, hop]⟩

/-- Between a call and the return that completes it, the stack is an extension of the stack
right after the call. -/
theorem stack_within_call {r : Run P} {i j : ℕ} (h : r.CompletedCall i j) {k : ℕ}
    (hik : i + 1 ≤ k) (hkj : k ≤ j) :
    ∃ above, (r.state k).vm.callStack = above ++ (r.state (i + 1)).vm.callStack := by
  induction k, hik using Nat.le_induction with
  | base => exact ⟨[], rfl⟩
  | succ k hik ih =>
      obtain ⟨above, habove⟩ := ih (by omega)
      have hlen : k < r.length := by
        have := h.inside
        omega
      by_cases hret : r.ExecutesAt k .ret
      · -- A return inside the call pops an address pushed inside it, as `first` demands.
        have hne := h.first k (by omega) (by omega) hret
        obtain ⟨inst, hop, -, hstack⟩ := step_of_executesAt hlen hret
        have hpop : (r.state (k + 1)).vm.callStack = (r.state k).vm.callStack.tail := by
          rw [hstack]
          simp only [Vm.nextStack, hop]
        cases above with
        | nil =>
            refine absurd ?_ hne
            rw [depth, habove, List.nil_append]
            rfl
        | cons a rest => exact ⟨rest, by rw [hpop, habove]; rfl⟩
      · obtain ⟨pushed, hpushed⟩ := stack_step hlen hret
        exact ⟨pushed ++ above, by rw [hpushed, habove, List.append_assoc]⟩

/-- A call pushes the index after it. -/
theorem stack_after_call {r : Run P} {i j : ℕ} (h : r.CompletedCall i j) :
    (r.state (i + 1)).vm.callStack =
      ((r.state i).vm.ip + 1) :: (r.state i).vm.callStack := by
  have hlen : i < r.length := h.lt.trans h.inside
  obtain ⟨inst, hop, -, hstack⟩ := step_of_executesAt hlen h.call
  rw [hstack]
  simp only [Vm.nextStack, hop]

/-- When the return is executed, the stack is the one right after the call. -/
theorem stack_at_return {r : Run P} {i j : ℕ} (h : r.CompletedCall i j) :
    (r.state j).vm.callStack = ((r.state i).vm.ip + 1) :: (r.state i).vm.callStack := by
  obtain ⟨above, habove⟩ := stack_within_call h h.lt le_rfl
  have hdepth := h.depth_eq
  simp only [depth, habove, List.length_append] at hdepth
  obtain rfl : above = [] := List.length_eq_zero_iff.mp (by omega)
  rw [habove, List.nil_append, stack_after_call h]

/-! ### The step after the return -/

/-- In every run and at every nesting depth, a completed call restores the stack and goes
on at the second instruction after the call; the first one is skipped. -/
theorem ret_skips_instruction (r : Run P) (i j : ℕ) (h : r.CompletedCall i j) :
    (r.state (j + 1)).vm.ip = (r.state i).vm.ip + 2 ∧
      (r.state (j + 1)).vm.callStack = (r.state i).vm.callStack ∧
      ¬ r.ReturnsAfterCall i j := by
  obtain ⟨inst, hop, hip, hstack⟩ := step_of_executesAt h.inside h.ret
  have hat := stack_at_return h
  have hnext : (r.state (j + 1)).vm.ip = (r.state i).vm.ip + 2 := by
    rw [hip]
    simp only [Vm.nextIp, hop, hat]
  refine ⟨hnext, ?_, ?_⟩
  · rw [hstack]
    simp only [Vm.nextStack, hop, hat, List.tail_cons]
  · rintro ⟨hafter, -⟩
    omega

end Run

/-! ### A program that calls a function -/

/-- The interpreter after a step; unchanged when the step panics. -/
def Executor.advance (e : Executor P) : Executor P :=
  match e.step with
  | .ok (e', _) => e'
  | .error _ => e

/-- Call the function at index 2, which returns at once; index 1 is the caller's `Halt`. -/
def callProgram (P : Platform) : HalProgram P :=
  .new "main" [.call 2, .halt, .ret none]

/-- The two steps of `callProgram`: the call and the return. -/
def callRun (P : Platform) : Run P where
  state i := Executor.advance^[i] (.new (callProgram P))
  result _ := .cont
  length := 2
  step_eq i hi := by
    match i, hi with
    | 0, _ => rfl
    | 1, _ => rfl

/-- The two steps are a completed call. -/
theorem callRun_completed : (callRun P).CompletedCall 0 1 where
  lt := Nat.zero_lt_one
  inside := Nat.one_lt_two
  call := ⟨.call 2, ⟨rfl, rfl⟩, rfl⟩
  ret := ⟨.ret none, ⟨rfl, rfl⟩, rfl⟩
  depth_eq := rfl
  first k h0 h1 := absurd h0 (by omega)

/-- The call of `callProgram` does not come back to the caller's `Halt`. -/
theorem callRun_skips_halt :
    ¬ ∀ (P : Platform) (r : Run P) (i j : ℕ), r.CompletedCall i j →
      r.ReturnsAfterCall i j := by
  intro h
  have hret := h Platform.exact (callRun _) 0 1 callRun_completed
  exact absurd hret.1 (by decide)

/-- The run of `callProgram` ends past its last instruction. -/
theorem callRun_leaves_program :
    ((callRun Platform.exact).state 2).vm.ip = 0 + 2 ∧
      ¬ (callRun Platform.exact).ReturnsAfterCall 0 1 :=
  have h := Run.ret_skips_instruction (callRun Platform.exact) 0 1 callRun_completed
  ⟨h.1, h.2.2⟩

end Weftik
