import Weftik.Control

/-!
# Transparency of the Debugger

A client of the debugger runs the program until it stops, resumes it whenever it has stopped
at a breakpoint, and goes on until a step has halted. Such a session executes what a run with
the debugger off executes: it ends with the same machine, and on its way it stops before each
execution of an instruction with a breakpoint and nowhere else.

## Main definitions

* `Executor.runToStop`: `runToHalt`, with the result that ended it.
* `Executor.DebugSession`: a session with its stops.
* `Vm.path`: the addresses of the instructions that a run executes.

## Main results

* `Executor.DebugSession.unique`: a session has one course.
* `Executor.debugSession_of_runToHalt`: the session of a program that halts.
-/

open Outcome

namespace Weftik

variable {P : Platform}

/-- The addresses of the first instructions that the machine executes, up to the given
number. -/
def Vm.path (code : List (Instruction P)) : ℕ → Vm P → List ℕ
  | 0, _ => []
  | n + 1, vm =>
      vm.ip ::
        match Vm.step code vm with
        | .next vm' => path code n vm'
        | _ => []

namespace Executor

/-- Turn the debugger on. -/
def enableDebug (e : Executor P) : Executor P :=
  { e with debugState := { e.debugState with debugMode := true } }

/-- Turn the debugger off. -/
def disableDebug (e : Executor P) : Executor P :=
  { e with debugState := { e.debugState with debugMode := false } }

/-- The loop of `runToHalt`, with the result that ended it. -/
def runToStop : ℕ → Executor P → Option (Except Panic (Executor P × ExecutorResult × ℕ))
  | 0, _ => none
  | fuel + 1, e =>
      match e.step with
      | .error panic => some (.error panic)
      | .ok (e', .cont) =>
          (runToStop fuel e').map fun o => o.map fun p => (p.1, p.2.1, p.2.2 + 1)
      | .ok (e', result) => some (.ok (e', result, 1))

/-- `runToHalt` returns what the loop returns, without its last result. -/
theorem runToHalt_eq (fuel : ℕ) (e : Executor P) :
    runToHalt fuel e = (runToStop fuel e).map fun o => o.map fun p => (p.1, p.2.2) := by
  induction fuel generalizing e with
  | zero => rfl
  | succ fuel ih =>
      rw [runToHalt, runToStop]
      cases hstep : e.step with
      | error p => rfl
      | ok r =>
          obtain ⟨e', _ | _ | _⟩ := r
          · simp only [ih, Option.map_map]
            refine congrArg (fun f => Option.map f (runToStop fuel e')) (funext fun o => ?_)
            cases o <;> rfl
          · rfl
          · rfl

/-- A call of `runToHalt` that returns: the interpreter after it, and the result of its last
step. -/
def RunsTo (e e' : Executor P) (result : ExecutorResult) : Prop :=
  ∃ fuel n, runToStop fuel e = some (.ok (e', result, n))

/-- A session with the debugger: the program runs until a step has halted, and is resumed
wherever it has stopped at a breakpoint. The list has the addresses of the stops. -/
inductive DebugSession : Executor P → List ℕ → Executor P → Prop
  | halted {e e' : Executor P} : RunsTo e e' .halted → DebugSession e [] e'
  | resumed {e e₁ e₂ e' : Executor P} {stops : List ℕ} :
      RunsTo e e₁ .breaked → e₁.resume = .ok (e₂, .cont) → DebugSession e₂ stops e' →
        DebugSession e (e₁.vm.ip :: stops) e'
  | resumedHalted {e e₁ e' : Executor P} :
      RunsTo e e₁ .breaked → e₁.resume = .ok (e', .halted) →
        DebugSession e [e₁.vm.ip] e'

/-! ### Sessions -/

/-- The loop stops after the first step. -/
theorem RunsTo.of_stop {e e' : Executor P} {result : ExecutorResult}
    (h : e.step = .ok (e', result)) (hresult : result ≠ .cont) : RunsTo e e' result := by
  refine ⟨1, 1, ?_⟩
  rw [runToStop, h]
  cases result with
  | cont => exact absurd rfl hresult
  | halted => rfl
  | breaked => rfl

/-- The loop goes on after the first step. -/
theorem RunsTo.of_cont {e e₁ e' : Executor P} {result : ExecutorResult}
    (h : e.step = .ok (e₁, .cont)) (hrun : RunsTo e₁ e' result) : RunsTo e e' result := by
  obtain ⟨fuel, n, hrun⟩ := hrun
  refine ⟨fuel + 1, n + 1, ?_⟩
  rw [runToStop, h]
  simp only [hrun]
  rfl

/-- The loop stops in one way. -/
theorem runToStop_unique {fuel fuel' : ℕ} {e : Executor P}
    {o o' : Except Panic (Executor P × ExecutorResult × ℕ)} (h : runToStop fuel e = some o)
    (h' : runToStop fuel' e = some o') : o = o' := by
  induction fuel generalizing e fuel' o o' with
  | zero => cases h
  | succ fuel ih =>
      cases fuel' with
      | zero => cases h'
      | succ fuel' =>
          rw [runToStop] at h h'
          cases hstep : e.step with
          | error p =>
              rw [hstep] at h h'
              exact Option.some.inj (h.symm.trans h')
          | ok r =>
              obtain ⟨e', _ | _ | _⟩ := r
              · rw [hstep] at h h'
                obtain ⟨o₁, h₁, rfl⟩ := Option.map_eq_some_iff.mp h
                obtain ⟨o₂, h₂, rfl⟩ := Option.map_eq_some_iff.mp h'
                rw [ih h₁ h₂]
              · rw [hstep] at h h'
                exact Option.some.inj (h.symm.trans h')
              · rw [hstep] at h h'
                exact Option.some.inj (h.symm.trans h')

theorem RunsTo.unique {e e₁ e₂ : Executor P} {r₁ r₂ : ExecutorResult}
    (h₁ : RunsTo e e₁ r₁) (h₂ : RunsTo e e₂ r₂) : e₁ = e₂ ∧ r₁ = r₂ := by
  obtain ⟨fuel₁, n₁, h₁⟩ := h₁
  obtain ⟨fuel₂, n₂, h₂⟩ := h₂
  have heq := Except.ok.inj (runToStop_unique h₁ h₂)
  simp only [Prod.mk.injEq] at heq
  exact ⟨heq.1, heq.2.1⟩

/-- A session has one course. -/
theorem DebugSession.unique {e e₁ e₂ : Executor P} {stops₁ stops₂ : List ℕ}
    (h₁ : DebugSession e stops₁ e₁) (h₂ : DebugSession e stops₂ e₂) :
    stops₁ = stops₂ ∧ e₁ = e₂ := by
  induction h₁ generalizing stops₂ e₂ with
  | halted hrun =>
      cases h₂ with
      | halted hrun' => exact ⟨rfl, (hrun.unique hrun').1⟩
      | resumed hrun' _ _ => cases (hrun.unique hrun').2
      | resumedHalted hrun' _ => cases (hrun.unique hrun').2
  | resumed hrun hresume _ ih =>
      cases h₂ with
      | halted hrun' => cases (hrun.unique hrun').2
      | resumed hrun' hresume' hrest =>
          obtain ⟨rfl, -⟩ := hrun.unique hrun'
          rw [hresume] at hresume'
          obtain ⟨rfl, -⟩ := Prod.mk.inj (Except.ok.inj hresume')
          obtain ⟨rfl, rfl⟩ := ih hrest
          exact ⟨rfl, rfl⟩
      | resumedHalted hrun' hresume' =>
          obtain ⟨rfl, -⟩ := hrun.unique hrun'
          rw [hresume] at hresume'
          cases hresume'
  | resumedHalted hrun hresume =>
      cases h₂ with
      | halted hrun' => cases (hrun.unique hrun').2
      | resumed hrun' hresume' _ =>
          obtain ⟨rfl, -⟩ := hrun.unique hrun'
          rw [hresume] at hresume'
          cases hresume'
      | resumedHalted hrun' hresume' =>
          obtain ⟨rfl, -⟩ := hrun.unique hrun'
          rw [hresume] at hresume'
          obtain ⟨rfl, -⟩ := Prod.mk.inj (Except.ok.inj hresume')
          exact ⟨rfl, rfl⟩

/-- A session that begins with a step that goes on. -/
theorem DebugSession.of_cont {e e₁ e' : Executor P} {stops : List ℕ}
    (h : e.step = .ok (e₁, .cont)) (hs : DebugSession e₁ stops e') :
    DebugSession e stops e' := by
  cases hs with
  | halted hrun => exact .halted (hrun.of_cont h)
  | resumed hrun hresume hrest => exact .resumed (hrun.of_cont h) hresume hrest
  | resumedHalted hrun hresume => exact .resumedHalted (hrun.of_cont h) hresume

/-! ### One instruction, with and without the debugger -/

section Instruction

variable {vm vm' : Vm P} {program : HalProgram P} {breakpoints : Finset ℕ}
  {trace : List (TraceEntry P)} {inst : Instruction P} {result : ExecutorResult}

/-- The instruction with the debugger off. -/
theorem step_off (hinst : program.instructions[vm.ip]? = some inst)
    (hexec : vm.executeInstruction inst = .ok (vm', result)) :
    step ⟨vm, program, ⟨false, breakpoints, trace⟩⟩ =
      .ok (⟨vm'.advanceUnlessJump inst.opcode, program, ⟨false, breakpoints, trace⟩⟩,
        result) := by
  simp only [step, hinst, hexec]
  rfl

/-- The instruction in debug mode. -/
theorem step_on (hinst : program.instructions[vm.ip]? = some inst)
    (hexec : vm.executeInstruction inst = .ok (vm', result)) (hbreak : vm.ip ∉ breakpoints) :
    step ⟨vm, program, ⟨true, breakpoints, trace⟩⟩ =
      .ok (⟨vm'.advanceUnlessJump inst.opcode, program,
        ⟨true, breakpoints, trace ++ [⟨vm.ip, inst.opcode, vm'.reg 0⟩]⟩⟩, result) := by
  simp only [step, hinst, hexec, Bool.true_and, decide_eq_false hbreak]
  rfl

/-- The stop before the instruction. -/
theorem step_break (hinst : program.instructions[vm.ip]? = some inst)
    (hbreak : vm.ip ∈ breakpoints) :
    step ⟨vm, program, ⟨true, breakpoints, trace⟩⟩ =
      .ok (⟨vm, program, ⟨true, breakpoints, trace⟩⟩, .breaked) := by
  simp only [step, hinst, Bool.true_and, decide_eq_true hbreak]
  rfl

/-- The instruction past the stop. -/
theorem resume_eq (hinst : program.instructions[vm.ip]? = some inst)
    (hexec : vm.executeInstruction inst = .ok (vm', result)) :
    resume ⟨vm, program, ⟨true, breakpoints, trace⟩⟩ =
      .ok (⟨vm'.advanceUnlessJump inst.opcode, program, ⟨true, breakpoints, trace⟩⟩,
        result) := by
  rw [resume, step_off hinst hexec]
  rfl

end Instruction

/-- A step with the debugger off that does not fail: the instruction at `ip` has gone on or
has halted. -/
theorem step_off_cases {vm : Vm P} {program : HalProgram P} {breakpoints : Finset ℕ}
    {trace : List (TraceEntry P)} {e₁ : Executor P} {result : ExecutorResult}
    (h : step ⟨vm, program, ⟨false, breakpoints, trace⟩⟩ = .ok (e₁, result)) :
    ∃ inst vm', program.instructions[vm.ip]? = some inst ∧
      vm.executeInstruction inst = .ok (vm', result) ∧
      e₁ = ⟨vm'.advanceUnlessJump inst.opcode, program, ⟨false, breakpoints, trace⟩⟩ ∧
      result ≠ .breaked := by
  cases hinst : program.instructions[vm.ip]? with
  | none => simp only [step, hinst] at h; cases h
  | some inst =>
      cases hexec : vm.executeInstruction inst with
      | error p =>
          simp only [step, hinst, hexec] at h
          cases h
      | ok r =>
          obtain ⟨vm', result'⟩ := r
          rw [step_off hinst hexec] at h
          obtain ⟨rfl, rfl⟩ := Prod.mk.inj (Except.ok.inj h)
          refine ⟨inst, vm', rfl, hexec, rfl, ?_⟩
          have hresult := ((Vm.executeInstruction_control vm inst).of_ok hexec).2.2
          rintro rfl
          split at hresult <;> cases hresult

/-- The session of a program that halts, from any trace. The induction is on the run with the
debugger off; each of its instructions is one step of the session, or a stop and its
resumption. -/
theorem debugSession_of_off {fuel n : ℕ} {vm : Vm P} {program : HalProgram P}
    {breakpoints : Finset ℕ} {trace : List (TraceEntry P)} {e₁ : Executor P}
    (h : runToHalt fuel ⟨vm, program, ⟨false, breakpoints, trace⟩⟩ = some (.ok (e₁, n)))
    (trace' : List (TraceEntry P)) :
    ∃ e', DebugSession ⟨vm, program, ⟨true, breakpoints, trace'⟩⟩
      ((Vm.path program.instructions n vm).filter (· ∈ breakpoints)) e' ∧ e'.vm = e₁.vm := by
  induction fuel generalizing n vm trace' with
  | zero => cases h
  | succ fuel ih =>
      rw [runToHalt] at h
      cases hstep : step ⟨vm, program, ⟨false, breakpoints, trace⟩⟩ with
      | error p => rw [hstep] at h; cases h
      | ok r =>
          obtain ⟨e₂, result⟩ := r
          obtain ⟨inst, vm', hinst, hexec, rfl, hnot⟩ := step_off_cases hstep
          rw [hstep] at h
          cases result with
          | breaked => exact absurd rfl hnot
          | halted =>
              obtain ⟨rfl, rfl⟩ := Prod.mk.inj (Except.ok.inj (Option.some.inj h))
              have hpath : Vm.path program.instructions 1 vm = [vm.ip] := by
                rw [Vm.path]
                split <;> rfl
              rw [hpath]
              by_cases hbreak : vm.ip ∈ breakpoints
              · rw [List.filter_singleton, decide_eq_true hbreak]
                exact ⟨_, .resumedHalted (.of_stop (step_break hinst hbreak) (by rintro ⟨⟩))
                  (resume_eq hinst hexec), rfl⟩
              · rw [List.filter_singleton, decide_eq_false hbreak]
                exact ⟨_, .halted (.of_stop (step_on hinst hexec hbreak) (by rintro ⟨⟩)), rfl⟩
          | cont =>
              obtain ⟨o, hrest, ho⟩ := Option.map_eq_some_iff.mp h
              obtain ⟨⟨e₂, k⟩, rfl, heq⟩ := map_eq_ok ho
              obtain ⟨rfl, rfl⟩ := Prod.mk.inj heq
              have hnext : Vm.step program.instructions vm =
                  .next (vm'.advanceUnlessJump inst.opcode) := by
                rw [Vm.step, hinst]
                simp only [hexec]
              have hpath : Vm.path program.instructions (k + 1) vm =
                  vm.ip :: Vm.path program.instructions k (vm'.advanceUnlessJump inst.opcode) := by
                rw [Vm.path, hnext]
              rw [hpath]
              by_cases hbreak : vm.ip ∈ breakpoints
              · obtain ⟨e', hsession, hvm⟩ := ih hrest trace'
                rw [List.filter_cons_of_pos (by simpa using hbreak)]
                exact ⟨e', .resumed (.of_stop (step_break hinst hbreak) (by rintro ⟨⟩))
                  (resume_eq hinst hexec) hsession, hvm⟩
              · obtain ⟨e', hsession, hvm⟩ := ih hrest _
                rw [List.filter_cons_of_neg (by simpa using hbreak)]
                exact ⟨e', hsession.of_cont (step_on hinst hexec hbreak), hvm⟩

/-- Debugging is transparent. When the program halts with the debugger off, the session with
the debugger ends with the same machine; it stops at the instructions with a breakpoint among
those that the run executes, as often as each is executed, and no other session exists. -/
theorem debugSession_of_runToHalt (e : Executor P) {fuel n : ℕ} {e₁ : Executor P}
    (h : runToHalt fuel e.disableDebug = some (.ok (e₁, n))) :
    ∃ e', DebugSession e.enableDebug
        ((Vm.path e.program.instructions n e.vm).filter (· ∈ e.debugState.breakpoints)) e' ∧
      e'.vm = e₁.vm ∧
      ∀ stops e'', DebugSession e.enableDebug stops e'' →
        stops =
            (Vm.path e.program.instructions n e.vm).filter (· ∈ e.debugState.breakpoints) ∧
          e'' = e' := by
  obtain ⟨e', hsession, hvm⟩ := debugSession_of_off h e.debugState.traceBuffer
  exact ⟨e', hsession, hvm, fun _ _ hs => hs.unique hsession⟩

/-- A program with breakpoints on its jump, which is taken once, and on its `Halt`. -/
def breakpointExample : Executor Platform.exact :=
  ((new (HalProgram.new "example"
      [⟨.eq, [.register 0, .register 1]⟩, .loadImm 0 (.bool true), .jumpIf 0, .halt])).addBreakpoint
    2).addBreakpoint 3

/-- The session of this program. -/
theorem debugSession_breakpointExample :
    ∃ e', DebugSession breakpointExample.enableDebug [2, 2, 3] e' ∧ e'.vm.ip = 4 := by
  have hrun : ∃ e₁, runToHalt 10 breakpointExample.disableDebug = some (.ok (e₁, 7)) ∧
      e₁.vm.ip = 4 := ⟨_, rfl, rfl⟩
  obtain ⟨e₁, hrun, hip⟩ := hrun
  obtain ⟨e', hsession, hvm, -⟩ := debugSession_of_runToHalt breakpointExample hrun
  exact ⟨e', hsession, hvm ▸ hip⟩

end Executor

end Weftik
