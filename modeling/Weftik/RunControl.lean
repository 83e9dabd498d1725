import Weftik.Lib.Transition

/-!
# Pause, Step and Stop

The engine thread and its clients share three atomic flags. The thread waits in two loops
in front of a cycle: the first one ends when the engine is stopped, not paused, or has a
step to do, the second one does not look at `running`. It then clears the step flag and
does a cycle. A client sets the flags whenever it likes; `step_cycle` sets two of them, one
after the other. The loads and the stores are the steps of the system, and a cycle is a
single step of the thread.

## Main definitions

* `RunControl.loopStep`: the next step of the engine thread.
* `RunControl.step`: a step of the thread or of a client.
* `RunControl.PauseHonoured`, `StepsCounted`, `StopHonoured`: what the requests promise.
* `RunControl.Accounted`: the runs that keep the promises.
* `RunControl.State.owed`: the cycles that a paused engine still does.

## Main results

* `RunControl.accounted_iff`: the runs that account for their requests.
-/

open Transition

namespace Weftik.RunControl

/-- Where the engine thread is: at the test of the outer loop, at a load of the first or of
the second wait, at the test between them, in front of the store that clears the step flag,
in a cycle, or out of the loop. -/
inductive Pc
  | outer
  | wait1Running | wait1Paused | wait1Step
  | checkRunning
  | wait2Paused | wait2Step
  | clearStep
  | cycle
  | exited
  deriving DecidableEq, Repr

/-- The thread, the flags, the clients between the two stores of `step_cycle`, and the
number of cycles done. -/
structure State where
  pc : Pc
  running : Bool
  paused : Bool
  stepRequested : Bool
  stepping : ℕ
  cycles : ℕ
  deriving DecidableEq

/-- The engine as `start_with_cycle` starts it. -/
def start : State := ⟨.outer, true, false, false, 0, 0⟩

/-- The next step of the engine thread. -/
def loopStep (s : State) : State :=
  match s.pc with
  | .outer => { s with pc := if s.running then .wait1Running else .exited }
  | .wait1Running => { s with pc := if s.running then .wait1Paused else .checkRunning }
  | .wait1Paused => { s with pc := if s.paused then .wait1Step else .checkRunning }
  | .wait1Step => { s with pc := if s.stepRequested then .checkRunning else .wait1Running }
  | .checkRunning => { s with pc := if s.running then .wait2Paused else .exited }
  | .wait2Paused => { s with pc := if s.paused then .wait2Step else .clearStep }
  | .wait2Step => { s with pc := if s.stepRequested then .clearStep else .wait2Paused }
  | .clearStep => { s with pc := .cycle, stepRequested := false }
  | .cycle => { s with pc := .outer, cycles := s.cycles + 1 }
  | .exited => s

/-- A step of the thread, or a store of a client. -/
inductive Event
  | loop
  | pause
  | resume
  /-- The first store of `step_cycle`. -/
  | stepPause
  /-- The second store of `step_cycle`, after which it is acknowledged. -/
  | stepRequest
  | stop
  deriving DecidableEq, Repr

/-- A step of the system. The thread takes none when it has left its loop, and a client
does not do the second store of `step_cycle` without the first. -/
def step (s : State) : Event → Option State
  | .loop => if s.pc = .exited then none else some (loopStep s)
  | .pause => some { s with paused := true }
  | .resume => some { s with paused := false }
  | .stepPause => some { s with paused := true, stepping := s.stepping + 1 }
  | .stepRequest =>
      if s.stepping = 0 then none
      else some { s with stepRequested := true, stepping := s.stepping - 1 }
  | .stop => some { s with running := false }

/-! ### What the requests promise -/

/-- The thread has passed both waits of the cycle and has not finished it. -/
def State.UnderWay (s : State) : Prop :=
  s.pc = .clearStep ∨ s.pc = .cycle

instance (s : State) : Decidable s.UnderWay := inferInstanceAs (Decidable (_ ∨ _))

/-- A pause in this state is honoured: without a later resume or step, only the cycle that
is under way is still done. -/
def PauseHonoured (s : State) : Prop :=
  ∀ es t, .resume ∉ es → .stepRequest ∉ es → run step s (.pause :: es) = some t →
    t.cycles ≤ s.cycles + if s.UnderWay then 1 else 0

/-- A stop in this state is honoured: there is a number of its own steps after which the
thread has left its loop, whatever the clients do. -/
def StopHonoured (s : State) : Prop :=
  ∃ n, ∀ es t, run step s (.stop :: es) = some t → n ≤ es.count .loop → t.pc = .exited

/-- The steps that are requested in a stretch of a run are counted: the thread, when it is
left to itself after the stretch, ends with one cycle more for each of them than it does
when it is left to itself before the stretch. -/
def StepsCounted (s t : State) (es : List Event) : Prop :=
  ∀ n, 10 ≤ n → (loopStep^[n] t).cycles = (loopStep^[n] s).cycles + es.count .stepRequest

/-! ### When they are kept -/

/-- No step is left that a pause would find outstanding: none has been requested, or the
thread is about to clear the flag, or it leaves the loop without looking at it. -/
def PauseSafe (s : State) : Prop :=
  s.stepRequested = false ∨ s.pc = .clearStep ∨ s.pc = .exited ∨
    (s.running = false ∧ s.pc ≠ .wait2Paused ∧ s.pc ≠ .wait2Step)

/-- The thread is not in the second wait, or has a step to do. -/
def StopSafe (s : State) : Prop :=
  (s.pc ≠ .wait2Paused ∧ s.pc ≠ .wait2Step) ∨ s.stepRequested = true

/-- A step is requested when none is outstanding and the thread does not clear the flag
next. -/
def StepSafe (s : State) (e : Event) : Prop :=
  e = .stepRequest → s.stepRequested = false ∧ s.pc ≠ .clearStep

instance (s : State) : Decidable (PauseSafe s) :=
  inferInstanceAs (Decidable (_ ∨ _ ∨ _ ∨ _))

instance (s : State) : Decidable (StopSafe s) := inferInstanceAs (Decidable (_ ∨ _))

instance (s : State) (e : Event) : Decidable (StepSafe s e) :=
  inferInstanceAs (Decidable (_ → _))

/-! ### The cycles that a paused engine owes -/

/-- The cycles that the thread still does when the engine is paused and no client does
anything more. -/
def State.owed (s : State) : ℕ :=
  match s.pc with
  | .exited => 0
  | .clearStep => 1
  | .cycle => 1 + (s.running && s.stepRequested).toNat
  | .wait2Paused | .wait2Step => s.stepRequested.toNat
  | _ => (s.running && s.stepRequested).toNat

variable {s t : State}

/-- A paused engine pays with its cycles what it owes. -/
theorem owed_loopStep (hpaused : s.paused = true) :
    (loopStep s).cycles + (loopStep s).owed = s.cycles + s.owed := by
  obtain ⟨pc, running, paused, stepRequested, stepping, cycles⟩ := s
  obtain rfl : paused = true := hpaused
  cases pc <;> cases running <;> cases stepRequested <;> simp [loopStep, State.owed]

@[simp] theorem loopStep_paused (s : State) : (loopStep s).paused = s.paused := by
  rw [loopStep]
  split <;> rfl

@[simp] theorem loopStep_running (s : State) : (loopStep s).running = s.running := by
  rw [loopStep]
  split <;> rfl

/-- How many steps the thread of a paused engine takes to pay what it owes. -/
def State.rank (s : State) : ℕ :=
  if s.owed = 0 then 0
  else
    match s.pc with
    | .clearStep => 2
    | .wait2Step => 3
    | .wait2Paused => 4
    | .checkRunning => 5
    | .wait1Step => 6
    | .wait1Paused => 7
    | .wait1Running => 8
    | .outer => 9
    | .cycle => if s.owed = 1 then 1 else 10
    | .exited => 0

theorem rank_le (s : State) : s.rank ≤ 10 := by
  rw [State.rank]
  split
  · omega
  · split <;> (try split) <;> omega

theorem owed_eq_zero_of_rank (h : s.rank = 0) : s.owed = 0 := by
  obtain ⟨pc, running, paused, stepRequested, stepping, cycles⟩ := s
  cases pc <;> cases running <;> cases stepRequested <;> simp_all [State.rank, State.owed]

theorem rank_loopStep (hpaused : s.paused = true) : (loopStep s).rank ≤ s.rank - 1 := by
  obtain ⟨pc, running, paused, stepRequested, stepping, cycles⟩ := s
  obtain rfl : paused = true := hpaused
  cases pc <;> cases running <;> cases stepRequested <;>
    simp [loopStep, State.rank, State.owed]

/-- The thread of a paused engine, left to itself. -/
theorem owed_iterate (hpaused : s.paused = true) (n : ℕ) :
    (loopStep^[n] s).paused = true ∧ (loopStep^[n] s).running = s.running ∧
      (loopStep^[n] s).rank ≤ s.rank - n ∧
      (loopStep^[n] s).cycles + (loopStep^[n] s).owed = s.cycles + s.owed := by
  induction n with
  | zero => exact ⟨hpaused, rfl, Nat.le_refl _, rfl⟩
  | succ n ih =>
      obtain ⟨hp, hr, hrank, howed⟩ := ih
      rw [Function.iterate_succ_apply']
      refine ⟨by rw [loopStep_paused, hp], by rw [loopStep_running, hr], ?_, ?_⟩
      · have hstep := rank_loopStep hp
        omega
      · rw [owed_loopStep hp, howed]

/-- A paused engine that is left to itself has paid after ten steps. -/
theorem cycles_iterate (hpaused : s.paused = true) {n : ℕ} (hn : s.rank ≤ n) :
    (loopStep^[n] s).cycles = s.cycles + s.owed := by
  obtain ⟨-, -, hrank, howed⟩ := owed_iterate hpaused n
  rw [owed_eq_zero_of_rank (by omega), Nat.add_zero] at howed
  exact howed

/-! ### Pausing -/

/-- What a client may do after a pause keeps the engine paused, and adds no cycle. -/
theorem owed_step {e : Event} (hpaused : s.paused = true) (hresume : e ≠ .resume)
    (hrequest : e ≠ .stepRequest) (h : step s e = some t) :
    t.paused = true ∧ t.cycles + t.owed ≤ s.cycles + s.owed := by
  cases e with
  | loop =>
      rw [step] at h
      split at h
      · cases h
      · obtain rfl := Option.some.inj h
        exact ⟨by rw [loopStep_paused, hpaused], Nat.le_of_eq (owed_loopStep hpaused)⟩
  | pause =>
      obtain rfl := Option.some.inj h
      exact ⟨rfl, Nat.le_refl _⟩
  | resume => exact absurd rfl hresume
  | stepPause =>
      obtain rfl := Option.some.inj h
      exact ⟨rfl, Nat.le_refl _⟩
  | stepRequest => exact absurd rfl hrequest
  | stop =>
      obtain rfl := Option.some.inj h
      refine ⟨hpaused, Nat.add_le_add_left ?_ _⟩
      obtain ⟨pc, running, paused, stepRequested, stepping, cycles⟩ := s
      cases pc <;> cases running <;> cases stepRequested <;> simp [State.owed]

variable {es : List Event}

theorem owed_run (hpaused : s.paused = true) (hresume : .resume ∉ es)
    (hrequest : .stepRequest ∉ es) (h : run step s es = some t) :
    t.cycles + t.owed ≤ s.cycles + s.owed := by
  induction es generalizing s with
  | nil =>
      obtain rfl := Option.some.inj h
      exact Nat.le_refl _
  | cons e es ih =>
      rw [run] at h
      obtain ⟨u, hu, h⟩ := Option.bind_eq_some_iff.mp h
      obtain ⟨hp, hle⟩ := owed_step hpaused (List.ne_of_not_mem_cons hresume).symm
        (List.ne_of_not_mem_cons hrequest).symm hu
      exact Nat.le_trans (ih hp (List.not_mem_of_not_mem_cons hresume)
        (List.not_mem_of_not_mem_cons hrequest) h) hle

/-- A paused engine can go on until it has paid. -/
theorem exists_run_paid (hpaused : s.paused = true) :
    ∃ n t, run step s (List.replicate n .loop) = some t ∧ t.cycles = s.cycles + s.owed := by
  induction hk : s.rank using Nat.strongRecOn generalizing s with
  | ind k ih =>
      by_cases howed : s.owed = 0
      · exact ⟨0, s, rfl, by rw [howed, Nat.add_zero]⟩
      · have hpc : s.pc ≠ .exited := fun hpc => howed (by rw [State.owed, hpc])
        have hrank : s.rank ≠ 0 := fun h => howed (owed_eq_zero_of_rank h)
        have hp : (loopStep s).paused = true := by rw [loopStep_paused, hpaused]
        have hlt : (loopStep s).rank < k := by
          have hstep := rank_loopStep hpaused
          omega
        obtain ⟨n, t, hrun, hcycles⟩ := ih _ hlt hp rfl
        refine ⟨n + 1, t, ?_, ?_⟩
        · rw [List.replicate_succ, run, step, if_neg hpc]
          exact hrun
        · rw [hcycles, owed_loopStep hpaused]

/-- What is owed right after a pause is the cycle under way, when no step is outstanding,
and more than that when one is. -/
theorem pauseSafe_iff (s : State) :
    PauseSafe s ↔
      ({ s with paused := true } : State).owed ≤ if s.UnderWay then 1 else 0 := by
  obtain ⟨pc, running, paused, stepRequested, stepping, cycles⟩ := s
  cases pc <;> cases running <;> cases stepRequested <;>
    simp [PauseSafe, State.owed, State.UnderWay]

theorem pauseHonoured_iff (s : State) : PauseHonoured s ↔ PauseSafe s := by
  rw [pauseSafe_iff]
  constructor
  · intro h
    obtain ⟨n, t, hrun, hcycles⟩ := exists_run_paid (s := { s with paused := true }) rfl
    have hle := h (List.replicate n .loop) t
      (fun hmem => by cases (List.mem_replicate.mp hmem).2)
      (fun hmem => by cases (List.mem_replicate.mp hmem).2) hrun
    have hsum : t.cycles = s.cycles + ({ s with paused := true } : State).owed := hcycles
    omega
  · intro h es t hresume hrequest hrun
    have hle := owed_run (s := { s with paused := true }) rfl hresume hrequest hrun
    have hsum : t.cycles + t.owed ≤ s.cycles + ({ s with paused := true } : State).owed := hle
    omega

/-! ### Stopping -/

/-- The steps of the thread of a stopped engine up to the end of its loop, when it does not
wait in the second loop. -/
def Pc.left : Pc → ℕ
  | .exited => 0
  | .outer | .checkRunning => 1
  | .wait1Running | .cycle => 2
  | .wait1Step | .clearStep => 3
  | .wait1Paused | .wait2Step => 4
  | .wait2Paused => 5

/-- A stopped engine whose thread does not wait in the second loop goes on to the end, and
its clients neither speed it up nor hold it back. -/
theorem left_step {e : Event} (hstopped : s.running = false) (hsafe : StopSafe s)
    (h : step s e = some t) :
    t.running = false ∧ StopSafe t ∧ t.pc.left + (if e = .loop then 1 else 0) ≤ s.pc.left := by
  obtain ⟨pc, running, paused, stepRequested, stepping, cycles⟩ := s
  obtain rfl : running = false := hstopped
  cases e with
  | loop =>
      rw [step] at h
      split at h
      · cases h
      · obtain rfl := Option.some.inj h
        cases pc <;> cases paused <;> cases stepRequested <;>
          simp_all [loopStep, StopSafe, Pc.left]
  | stepRequest =>
      rw [step] at h
      split at h
      · cases h
      · obtain rfl := Option.some.inj h
        exact ⟨rfl, .inr rfl, Nat.le_refl _⟩
  | _ =>
      obtain rfl := Option.some.inj h
      exact ⟨rfl, hsafe, Nat.le_refl _⟩

theorem left_run (hstopped : s.running = false) (hsafe : StopSafe s) (h : run step s es = some t) :
    t.pc.left + es.count .loop ≤ s.pc.left := by
  induction es generalizing s with
  | nil =>
      obtain rfl := Option.some.inj h
      exact Nat.le_refl _
  | cons e es ih =>
      rw [run] at h
      obtain ⟨u, hu, h⟩ := Option.bind_eq_some_iff.mp h
      obtain ⟨hr, hs, hle⟩ := left_step hstopped hsafe hu
      have hrest := ih hr hs h
      rw [List.count_cons]
      simp only [beq_iff_eq]
      omega

theorem exited_of_left {pc : Pc} (h : pc.left = 0) : pc = .exited := by
  cases pc with
  | exited => rfl
  | _ => cases h

/-- The thread waits in the second loop of a paused engine for ever. -/
theorem exists_run_waiting (hpaused : s.paused = true) (hstep : s.stepRequested = false)
    (hpc : s.pc = .wait2Paused ∨ s.pc = .wait2Step) (n : ℕ) :
    ∃ t, run step s (List.replicate n .loop) = some t ∧ t.pc ≠ .exited := by
  induction n generalizing s with
  | zero => exact ⟨s, rfl, by rcases hpc with hpc | hpc <;> rw [hpc] <;> exact Pc.noConfusion⟩
  | succ n ih =>
      obtain ⟨pc, running, paused, stepRequested, stepping, cycles⟩ := s
      obtain rfl : paused = true := hpaused
      obtain rfl : stepRequested = false := hstep
      rcases hpc with rfl | rfl
      · exact ih (s := ⟨.wait2Step, running, true, false, stepping, cycles⟩) rfl rfl (.inr rfl)
      · exact ih (s := ⟨.wait2Paused, running, true, false, stepping, cycles⟩) rfl rfl (.inl rfl)

theorem stopHonoured_iff (s : State) : StopHonoured s ↔ StopSafe s := by
  constructor
  · rintro ⟨n, hn⟩
    by_contra hsafe
    simp only [StopSafe, not_or, not_and_or, not_not, Bool.not_eq_true] at hsafe
    obtain ⟨hpc, hstep⟩ := hsafe
    -- A client pauses after the stop, and nobody resumes or steps.
    obtain ⟨t, hrun, hpc'⟩ :=
      exists_run_waiting (s := { s with running := false, paused := true }) rfl hstep hpc n
    exact hpc' (hn (.pause :: List.replicate n .loop) t hrun (by simp))
  · intro hsafe
    refine ⟨5, fun es t hrun hcount => exited_of_left ?_⟩
    have hleft := left_run (s := { s with running := false }) rfl hsafe hrun
    have hle : s.pc.left ≤ 5 := by cases s.pc <;> simp [Pc.left]
    have hsum : t.pc.left + es.count .loop ≤ s.pc.left := hleft
    omega

/-! ### Stepping -/

/-- The engine has not been stopped and is paused, and its thread is in its loop. -/
structure Awake (s : State) : Prop where
  running : s.running = true
  paused : s.paused = true
  pc : s.pc ≠ .exited

/-- The cycles that a step of a paused engine adds to those done and owed: one, for a
request of a step that is safe. -/
theorem counted_step {e : Event} (hs : Awake s) (hresume : e ≠ .resume) (hstop : e ≠ .stop)
    (h : step s e = some t) :
    Awake t ∧ t.cycles + t.owed =
      s.cycles + s.owed + if e = .stepRequest ∧ StepSafe s e then 1 else 0 := by
  cases e with
  | loop =>
      rw [step, if_neg hs.pc] at h
      obtain rfl := Option.some.inj h
      refine ⟨⟨by rw [loopStep_running, hs.running], by rw [loopStep_paused, hs.paused], ?_⟩, ?_⟩
      · obtain ⟨pc, running, paused, stepRequested, stepping, cycles⟩ := s
        obtain rfl : running = true := hs.running
        have hpc : pc ≠ .exited := hs.pc
        cases pc <;> cases paused <;> cases stepRequested <;> simp_all [loopStep]
      · rw [owed_loopStep hs.paused]
        simp
  | pause =>
      obtain rfl := Option.some.inj h
      exact ⟨⟨hs.running, rfl, hs.pc⟩, rfl⟩
  | resume => exact absurd rfl hresume
  | stepPause =>
      obtain rfl := Option.some.inj h
      exact ⟨⟨hs.running, rfl, hs.pc⟩, rfl⟩
  | stepRequest =>
      rw [step] at h
      split at h
      · cases h
      · obtain rfl := Option.some.inj h
        refine ⟨⟨hs.running, hs.paused, hs.pc⟩, ?_⟩
        obtain ⟨pc, running, paused, stepRequested, stepping, cycles⟩ := s
        obtain rfl : running = true := hs.running
        have hpc : pc ≠ .exited := hs.pc
        cases pc <;> cases stepRequested <;> simp_all [State.owed, StepSafe, Nat.add_assoc]
  | stop => exact absurd rfl hstop

/-- The cycles that a stretch of a run adds are as many as steps have been requested, if
and only if every step is requested safely. -/
theorem counted_run (hs : Awake s) (hresume : .resume ∉ es) (hstop : .stop ∉ es)
    (h : run step s es = some t) :
    Awake t ∧ t.cycles + t.owed ≤ s.cycles + s.owed + es.count .stepRequest ∧
      (t.cycles + t.owed = s.cycles + s.owed + es.count .stepRequest ↔
        EveryStep step StepSafe s es) := by
  induction es generalizing s with
  | nil =>
      obtain rfl := Option.some.inj h
      exact ⟨hs, Nat.le_refl _, iff_of_true rfl trivial⟩
  | cons e es ih =>
      rw [run] at h
      obtain ⟨u, hu, h⟩ := Option.bind_eq_some_iff.mp h
      obtain ⟨hawake, hsum⟩ := counted_step hs (List.ne_of_not_mem_cons hresume).symm
        (List.ne_of_not_mem_cons hstop).symm hu
      obtain ⟨ht, hle, hiff⟩ := ih hawake (List.not_mem_of_not_mem_cons hresume)
        (List.not_mem_of_not_mem_cons hstop) h
      have hcount : (e :: es).count .stepRequest =
          es.count .stepRequest + if e = .stepRequest then 1 else 0 := by
        rw [List.count_cons]
        simp only [beq_iff_eq]
      have hevery : EveryStep step StepSafe s (e :: es) ↔
          StepSafe s e ∧ EveryStep step StepSafe u es := by
        rw [EveryStep, hu]
      rw [hcount, hevery, ← hiff]
      by_cases he : e = .stepRequest
      · by_cases hsafe : StepSafe s e
        · rw [if_pos ⟨he, hsafe⟩] at hsum
          rw [if_pos he]
          exact ⟨ht, by omega, ⟨fun heq => ⟨hsafe, by omega⟩, fun heq => by omega⟩⟩
        · rw [if_neg fun h => hsafe h.2] at hsum
          rw [if_pos he]
          exact ⟨ht, by omega, ⟨fun heq => by omega, fun heq => absurd heq.1 hsafe⟩⟩
      · rw [if_neg fun h => he h.1] at hsum
        rw [if_neg he]
        have hsafe : StepSafe s e := fun h => absurd h he
        exact ⟨ht, by omega, ⟨fun heq => ⟨hsafe, by omega⟩, fun heq => by omega⟩⟩

/-- The steps that are requested in a stretch of a run of a paused engine are counted if
and only if every one of them is requested safely. -/
theorem stepsCounted_iff (hs : Awake s) (hresume : .resume ∉ es) (hstop : .stop ∉ es)
    (h : run step s es = some t) : StepsCounted s t es ↔ EveryStep step StepSafe s es := by
  obtain ⟨ht, -, hiff⟩ := counted_run hs hresume hstop h
  rw [← hiff]
  constructor
  · intro hcounted
    have hsum := hcounted 10 (Nat.le_refl _)
    rw [cycles_iterate ht.paused (rank_le t), cycles_iterate hs.paused (rank_le s)] at hsum
    omega
  · intro hsum n hn
    rw [cycles_iterate ht.paused (Nat.le_trans (rank_le t) hn),
      cycles_iterate hs.paused (Nat.le_trans (rank_le s) hn)]
    exact hsum

/-! ### The runs of the engine -/

/-- A thread that has left its loop has found the engine stopped. -/
theorem running_step {e : Event} (hs : s.pc = .exited → s.running = false) (h : step s e = some t) :
    t.pc = .exited → t.running = false := by
  cases e with
  | loop =>
      rw [step] at h
      split at h
      · cases h
      · obtain rfl := Option.some.inj h
        obtain ⟨pc, running, paused, stepRequested, stepping, cycles⟩ := s
        cases pc <;> cases running <;> cases paused <;> cases stepRequested <;>
          simp_all [loopStep]
  | stepRequest =>
      rw [step] at h
      split at h
      · cases h
      · obtain rfl := Option.some.inj h
        exact hs
  | stop =>
      obtain rfl := Option.some.inj h
      exact fun _ => rfl
  | _ =>
      obtain rfl := Option.some.inj h
      exact hs

theorem not_exited_of_run (h : run step start es = some s) (hrunning : s.running = true) :
    s.pc ≠ .exited := by
  intro hpc
  have hstopped := run_invariant (fun _ _ _ => running_step) (s := start)
    (fun hpc => by cases hpc) h hpc
  rw [hrunning] at hstopped
  cases hstopped

/-- A run accounts for its requests: every pause and every stop is honoured, and in every
stretch of it in which the engine is paused, the steps that are requested are counted. -/
structure Accounted (es : List Event) : Prop where
  honoured : EveryStep step
    (fun s e => (e = .pause → PauseHonoured s) ∧ (e = .stop → StopHonoured s)) start es
  counted : ∀ pre mid post s t, es = pre ++ (mid ++ post) → run step start pre = some s →
    run step s mid = some t → s.running = true → s.paused = true → .resume ∉ mid →
    .stop ∉ mid → StepsCounted s t mid

/-- The request is safe: a pause finds no step outstanding, a stop does not find the thread
in the second wait, and a step of a paused engine finds none outstanding. -/
def RequestSafe (s : State) (e : Event) : Prop :=
  (e = .pause → PauseSafe s) ∧ (e = .stop → StopSafe s) ∧
    (s.running = true → s.paused = true → StepSafe s e)

instance (s : State) (e : Event) : Decidable (RequestSafe s e) :=
  inferInstanceAs (Decidable (_ ∧ _ ∧ _))

/-- A run accounts for its requests if and only if each of them is safe. -/
theorem accounted_iff {es : List Event} {final : State} (h : run step start es = some final) :
    Accounted es ↔ EveryStep step RequestSafe start es := by
  constructor
  · rintro ⟨hhonoured, hcounted⟩
    refine everyStep_iff.mpr fun pre e rest s hes hpre => ?_
    obtain ⟨hpause, hstop⟩ := everyStep_iff.mp hhonoured pre e rest s hes hpre
    refine ⟨fun he => (pauseHonoured_iff s).mp (hpause he),
      fun he => (stopHonoured_iff s).mp (hstop he), fun hrunning hpaused he => ?_⟩
    -- The stretch of the run is the request alone.
    obtain ⟨t, ht⟩ : ∃ t, run step s [e] = some t := by
      rw [hes, run_append, hpre, Option.bind_some, run] at h
      obtain ⟨t, ht, -⟩ := Option.bind_eq_some_iff.mp h
      exact ⟨t, by rw [run, ht]; rfl⟩
    have hawake : Awake s := ⟨hrunning, hpaused, not_exited_of_run hpre hrunning⟩
    have hresume : Event.resume ∉ [e] := by rw [he]; decide
    have hnostop : Event.stop ∉ [e] := by rw [he]; decide
    have hone := hcounted pre [e] rest s t hes hpre ht hrunning hpaused hresume hnostop
    exact ((stepsCounted_iff hawake hresume hnostop ht).mp hone).1 he
  · intro hsafe
    refine ⟨everyStep_iff.mpr fun pre e rest s hes hpre => ?_,
      fun pre mid post s t hes hpre hmid hrunning hpaused hresume hstop => ?_⟩
    · obtain ⟨hpause, hstop, -⟩ := everyStep_iff.mp hsafe pre e rest s hes hpre
      exact ⟨fun he => (pauseHonoured_iff s).mpr (hpause he),
        fun he => (stopHonoured_iff s).mpr (hstop he)⟩
    · have hawake : Awake s := ⟨hrunning, hpaused, not_exited_of_run hpre hrunning⟩
      refine (stepsCounted_iff hawake hresume hstop hmid).mpr (everyStep_iff.mpr ?_)
      intro pre' e rest u hes' hpre'
      have hu : Awake u := by
        rw [hes'] at hresume hstop
        exact (counted_run hawake (fun hmem => hresume (List.mem_append_left _ hmem))
          (fun hmem => hstop (List.mem_append_left _ hmem)) hpre').1
      refine (everyStep_iff.mp hsafe (pre ++ pre') e (rest ++ post) u ?_ ?_).2.2
          hu.running hu.paused
      · rw [hes, hes', List.append_assoc, List.append_assoc]
        rfl
      · rw [run_append, hpre]
        exact hpre'

/-- One step of a paused engine, and a stop at rest. -/
def calmRun : List Event := [.loop, .loop, .pause, .stepPause, .stepRequest, .stop]

theorem accounted_iff_calm :
    ∃ final, run step start calmRun = some final ∧
      (Accounted calmRun ↔ EveryStep step RequestSafe start calmRun) ∧ Accounted calmRun :=
  ⟨_, rfl, accounted_iff rfl, (accounted_iff rfl).mpr (by decide)⟩

/-- A client pauses the engine after the thread has left the first wait. -/
def pauseInWindow : List Event := [.loop, .loop, .loop, .loop, .pause]

/-- The thread has left the first wait and tested `running` when a client pauses and stops
the engine: it waits in the second wait for ever. Two steps are requested at once: one
cycle is done. -/
theorem requests_not_accounted :
    (∃ s, run step start pauseInWindow = some s ∧ ¬StopHonoured s) ∧
    (∃ s t, run step start [.pause] = some s ∧
      run step s [.stepPause, .stepRequest, .stepPause, .stepRequest] = some t ∧
      (loopStep^[10] s).cycles = 0 ∧ (loopStep^[10] t).cycles = 1) ∧
    ¬Accounted (pauseInWindow ++ [.stop]) := by
  refine ⟨⟨_, rfl, fun h => ?_⟩, ⟨_, _, rfl, rfl, by decide, by decide⟩, fun h => ?_⟩
  · exact absurd ((stopHonoured_iff _).mp h) (by decide)
  · have hstop := everyStep_iff.mp h.honoured pauseInWindow .stop [] _ rfl rfl
    exact absurd ((stopHonoured_iff _).mp (hstop.2 rfl)) (by decide)

end Weftik.RunControl
