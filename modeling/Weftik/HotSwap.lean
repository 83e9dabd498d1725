import Weftik.Instruction
import Weftik.Lib.Transition

/-!
# Hot Swap of Programs

Clients prepare a program, commit it or roll it back; at the boundary between two scans
the engine tests the commit flag, takes the pending program and clears the flag. The
pending program is behind a lock, which the boundary holds from the take to the clear;
the flag is not. A commit checks for a pending program and then sets the flag, a rollback
drops the pending program and then clears the flag, and a prepare does not look at the
flag at all. So a prepared program can meet the flag of an older commit, and a rollback
can clear the flag of a newer one.

## Main definitions

* `HotSwap`: the shared state, the requests in progress, and two ghost fields that record
  the commits.
* `HotSwap.step`: the atomic steps of the requests and of the boundary.
* `HotSwap.StepCorrect`: what is expected of a step.
* `HotSwap.Undisturbed`: the condition under which it happens.

## Main results

* `HotSwap.undisturbed_run_correct`: the property along every run that meets the condition.
-/

open Transition

namespace Weftik

variable {P : Platform}

/-- What a client's thread is in the middle of. -/
inductive Request
  | idle | committing | rollingBack
  deriving DecidableEq, Repr

/-- Where the engine is in the swap phase of the scan cycle: before the test, between the
test and the take, or between the take and the clear. -/
inductive Boundary
  | idle | tested | taken
  deriving DecidableEq, Repr

/-- The state of the hot swap. `agreed` and `commits` are ghost fields: the program of the
last commit, unless a rollback, a newer prepare or its installation came after it, and all
programs that were pending when a commit set the flag. -/
structure HotSwap (P : Platform) where
  pendingSwap : Option (HalProgram P)
  swapCommitted : Bool
  halProgram : Option (HalProgram P)
  boundary : Boundary
  requests : ℕ → Request
  agreed : Option (HalProgram P)
  commits : List (HalProgram P)

/-- The atomic steps: of a client's requests and of the engine. -/
inductive SwapEvent
  | prepare (client : ℕ) (bytes : List UInt8)
  | commitCheck (client : ℕ)
  | commitStore (client : ℕ)
  | rollbackDrop (client : ℕ)
  | rollbackStore (client : ℕ)
  | test
  | take
  | clear
  deriving DecidableEq, Repr

namespace HotSwap

/-- The engine before the first request. -/
def new : HotSwap P where
  pendingSwap := none
  swapCommitted := false
  halProgram := none
  boundary := .idle
  requests _ := .idle
  agreed := none
  commits := []

/-- The engine does not hold the lock of the pending program. -/
def lockFree (s : HotSwap P) : Bool := s.boundary != .taken

/-- The state with the request of one client changed. -/
def setRequest (s : HotSwap P) (client : ℕ) (request : Request) : HotSwap P :=
  { s with requests := Function.update s.requests client request }

/-- The validation of a prepare request: the bytes decode to a program with a `Halt`. -/
def validate (decode : List UInt8 → Except String (HalProgram P)) (bytes : List UInt8) :
    Except String (HalProgram P) :=
  match decode bytes with
  | .error e => .error ("deserialize: " ++ e)
  | .ok program =>
      if program.isWellFormed then .ok program else .error "Program is not well-formed"

/-- One atomic step; `none` when it cannot happen in this state. A request of a client
that is in the middle of another one has to wait, and so does every access to the pending
program while the engine holds the lock. -/
def step (decode : List UInt8 → Except String (HalProgram P)) (s : HotSwap P) :
    SwapEvent → Option (HotSwap P)
  | .prepare client bytes =>
      if s.requests client ≠ .idle then none
      else
        match validate decode bytes with
        | .error _ => some s
        | .ok program =>
            if s.lockFree then some { s with pendingSwap := some program, agreed := none }
            else none
  | .commitCheck client =>
      if s.requests client = .idle ∧ s.lockFree then
        match s.pendingSwap with
        | none => some s
        | some _ => some (s.setRequest client .committing)
      else none
  | .commitStore client =>
      if s.requests client = .committing then
        some { s.setRequest client .idle with
          swapCommitted := true
          agreed := s.pendingSwap
          commits := s.pendingSwap.toList ++ s.commits }
      else none
  | .rollbackDrop client =>
      if s.requests client = .idle ∧ s.lockFree then
        some { s.setRequest client .rollingBack with pendingSwap := none, agreed := none }
      else none
  | .rollbackStore client =>
      if s.requests client = .rollingBack then
        some { s.setRequest client .idle with swapCommitted := false }
      else none
  | .test =>
      if s.boundary = .idle then
        some (if s.swapCommitted then { s with boundary := .tested } else s)
      else none
  | .take =>
      if s.boundary = .tested then
        match s.pendingSwap with
        | none => some { s with boundary := .taken }
        | some program =>
            some { s with
              pendingSwap := none
              halProgram := some program
              agreed := none
              boundary := .taken }
      else none
  | .clear =>
      if s.boundary = .taken then some { s with swapCommitted := false, boundary := .idle }
      else none

/-! ### The property and its condition -/

/-- What is expected of a step. A take installs the agreed program, and nothing when there
is none. A test does not pass over an agreed program. Only a rollback, a newer prepare and
the installation end an agreement. And the program that runs was committed. -/
structure StepCorrect (s t : HotSwap P) (e : SwapEvent) : Prop where
  installs : e = .take → t.halProgram = s.agreed.or s.halProgram
  tests : e = .test → s.agreed.isSome → t.boundary = .tested
  keeps : ∀ program, s.agreed = some program →
    t.agreed = some program ∨ (e = .take ∧ t.halProgram = some program) ∨
      (∃ client, e = .rollbackDrop client) ∨ ∃ client bytes, e = .prepare client bytes
  executes : ∀ program, t.halProgram = some program → program ∈ t.commits

/-- A step that can happen is as expected. -/
def Correct (decode : List UInt8 → Except String (HalProgram P)) (s : HotSwap P)
    (e : SwapEvent) : Prop :=
  ∀ t, step decode s e = some t → StepCorrect s t e

/-- The condition on a step. A program is prepared only when no commit flag is set and the
boundary is not between its test and its take, and a rollback reaches its second half only
when no commit flag is set or nothing is pending. -/
def Undisturbed (decode : List UInt8 → Except String (HalProgram P)) (s : HotSwap P) :
    SwapEvent → Bool
  | .prepare _ bytes =>
      match validate decode bytes with
      | .error _ => true
      | .ok _ => !s.swapCommitted && s.boundary != .tested
  | .rollbackStore _ => !s.swapCommitted || s.pendingSwap.isNone
  | _ => true

/-- The invariant of the runs that meet the condition: an agreed program is pending with
the flag set; a pending program that the boundary would take is agreed; nothing is pending
while the engine holds the lock; and the agreed program and the running one have been
committed. -/
structure Coherent (s : HotSwap P) : Prop where
  pending_of_agreed : ∀ program, s.agreed = some program →
    s.pendingSwap = some program ∧ s.swapCommitted = true
  agreed_of_flag : s.swapCommitted = true → s.pendingSwap = s.agreed
  agreed_of_tested : s.boundary = .tested → s.pendingSwap = s.agreed
  empty_of_taken : s.boundary = .taken → s.pendingSwap = none
  agreed_commit : ∀ program, s.agreed = some program → program ∈ s.commits
  running_commit : ∀ program, s.halProgram = some program → program ∈ s.commits

theorem coherent_new : (new : HotSwap P).Coherent := by
  constructor <;> simp [new]

variable {decode : List UInt8 → Except String (HalProgram P)} {s t : HotSwap P}

/-- Only the request of a client changes. -/
theorem Coherent.setRequest (h : s.Coherent) (client : ℕ) (r : Request) :
    (s.setRequest client r).Coherent :=
  ⟨h.1, h.2, h.3, h.4, h.5, h.6⟩

/-! ### What a step can do -/

variable {client : ℕ}

theorem prepare_cases {bytes : List UInt8} (h : step decode s (.prepare client bytes) = some t) :
    t = s ∨ ∃ program, validate decode bytes = .ok program ∧ s.boundary ≠ .taken ∧
      t = { s with pendingSwap := some program, agreed := none } := by
  simp only [step] at h
  split at h
  · cases h
  · split at h
    · exact Or.inl (Option.some.inj h).symm
    · rename_i program hvalid
      split at h
      · rename_i hfree
        refine Or.inr ⟨program, hvalid, ?_, (Option.some.inj h).symm⟩
        simpa [lockFree] using hfree
      · cases h

theorem commitCheck_cases (h : step decode s (.commitCheck client) = some t) :
    t = s ∨ t = s.setRequest client .committing := by
  simp only [step] at h
  split at h
  · split at h
    · exact Or.inl (Option.some.inj h).symm
    · exact Or.inr (Option.some.inj h).symm
  · cases h

theorem commitStore_eq (h : step decode s (.commitStore client) = some t) :
    t = { s.setRequest client .idle with
      swapCommitted := true
      agreed := s.pendingSwap
      commits := s.pendingSwap.toList ++ s.commits } := by
  simp only [step] at h
  split at h
  · exact (Option.some.inj h).symm
  · cases h

theorem rollbackDrop_eq (h : step decode s (.rollbackDrop client) = some t) :
    t = { s.setRequest client .rollingBack with pendingSwap := none, agreed := none } := by
  simp only [step] at h
  split at h
  · exact (Option.some.inj h).symm
  · cases h

theorem rollbackStore_eq (h : step decode s (.rollbackStore client) = some t) :
    t = { s.setRequest client .idle with swapCommitted := false } := by
  simp only [step] at h
  split at h
  · exact (Option.some.inj h).symm
  · cases h

theorem test_cases (h : step decode s .test = some t) :
    (s.swapCommitted = true ∧ t = { s with boundary := .tested }) ∨
      (s.swapCommitted = false ∧ t = s) := by
  simp only [step] at h
  split at h
  · cases hflag : s.swapCommitted with
    | true =>
        rw [hflag, if_pos rfl] at h
        exact Or.inl ⟨rfl, by rw [← Option.some.inj h]⟩
    | false =>
        rw [hflag, if_neg Bool.false_ne_true] at h
        exact Or.inr ⟨rfl, (Option.some.inj h).symm⟩
  · cases h

theorem take_cases (h : step decode s .take = some t) :
    s.boundary = .tested ∧
      ((s.pendingSwap = none ∧ t = { s with boundary := .taken }) ∨
        ∃ program, s.pendingSwap = some program ∧
          t = { s with
            pendingSwap := none
            halProgram := some program
            agreed := none
            boundary := .taken }) := by
  simp only [step] at h
  split at h
  · rename_i hboundary
    refine ⟨hboundary, ?_⟩
    split at h
    · rename_i hpending
      exact Or.inl ⟨hpending, (Option.some.inj h).symm⟩
    · rename_i program hpending
      exact Or.inr ⟨program, hpending, (Option.some.inj h).symm⟩
  · cases h

theorem clear_eq (h : step decode s .clear = some t) :
    s.boundary = .taken ∧ t = { s with swapCommitted := false, boundary := .idle } := by
  simp only [step] at h
  split at h
  · rename_i hboundary
    exact ⟨hboundary, (Option.some.inj h).symm⟩
  · cases h

/-! ### One step -/

/-- The invariant holds after a program has been prepared with no flag set. -/
theorem Coherent.prepare {program : HalProgram P} (h : s.Coherent)
    (hflag : s.swapCommitted = false) (htested : s.boundary ≠ .tested)
    (htaken : s.boundary ≠ .taken) :
    Coherent { s with pendingSwap := some program, agreed := none } where
  pending_of_agreed _ hp := nomatch hp
  agreed_of_flag hc := by rw [hflag] at hc; cases hc
  agreed_of_tested hb := absurd hb htested
  empty_of_taken hb := absurd hb htaken
  agreed_commit _ hp := nomatch hp
  running_commit := h.running_commit

/-- The invariant holds after a commit has set the flag. -/
theorem Coherent.commitStore (h : s.Coherent) :
    Coherent { s with
      swapCommitted := true
      agreed := s.pendingSwap
      commits := s.pendingSwap.toList ++ s.commits } where
  pending_of_agreed _ hp := ⟨hp, rfl⟩
  agreed_of_flag _ := rfl
  agreed_of_tested _ := rfl
  empty_of_taken := h.empty_of_taken
  agreed_commit program hp := by
    rw [List.mem_append, Option.mem_toList]
    exact Or.inl hp
  running_commit program hp := List.mem_append_right _ (h.running_commit program hp)

/-- The invariant holds after a rollback has dropped the pending program. -/
theorem Coherent.rollbackDrop (h : s.Coherent) :
    Coherent { s with pendingSwap := none, agreed := none } where
  pending_of_agreed _ hp := nomatch hp
  agreed_of_flag _ := rfl
  agreed_of_tested _ := rfl
  empty_of_taken _ := rfl
  agreed_commit _ hp := nomatch hp
  running_commit := h.running_commit

/-- Without an agreed program, the flag can be cleared and the boundary left. -/
theorem Coherent.clearFlag (h : s.Coherent) (hagreed : s.agreed = none) {boundary : Boundary}
    (hboundary : boundary = s.boundary ∨ boundary = .idle) :
    Coherent { s with swapCommitted := false, boundary := boundary } where
  pending_of_agreed _ hp := by rw [hagreed] at hp; cases hp
  agreed_of_flag hc := nomatch hc
  agreed_of_tested hb := by
    rcases hboundary with rfl | rfl
    · exact h.agreed_of_tested hb
    · cases hb
  empty_of_taken hb := by
    rcases hboundary with rfl | rfl
    · exact h.empty_of_taken hb
    · cases hb
  agreed_commit := h.agreed_commit
  running_commit := h.running_commit

/-- The invariant holds after the boundary has taken an agreed program. -/
theorem Coherent.take {program : HalProgram P} (h : s.Coherent)
    (hagreed : s.agreed = some program) :
    Coherent { s with
      pendingSwap := none
      halProgram := some program
      agreed := none
      boundary := .taken } where
  pending_of_agreed _ hp := nomatch hp
  agreed_of_flag _ := rfl
  agreed_of_tested _ := rfl
  empty_of_taken _ := rfl
  agreed_commit _ hp := nomatch hp
  running_commit p hp := by
    obtain rfl : program = p := Option.some.inj hp
    exact h.agreed_commit program hagreed

/-- When nothing is pending, nothing is agreed. -/
theorem Coherent.agreed_none (h : s.Coherent) (hpending : s.pendingSwap = none) :
    s.agreed = none := by
  cases hagreed : s.agreed with
  | none => rfl
  | some program =>
      have hp := (h.pending_of_agreed program hagreed).1
      rw [hpending] at hp
      cases hp

/-- An undisturbed step keeps the invariant. -/
theorem Coherent.step (h : s.Coherent) {e : SwapEvent}
    (hu : Undisturbed decode s e = true) (hst : HotSwap.step decode s e = some t) :
    t.Coherent := by
  cases e with
  | prepare client bytes =>
      rcases prepare_cases hst with rfl | ⟨program, hvalid, htaken, rfl⟩
      · exact h
      · simp only [Undisturbed, hvalid, Bool.and_eq_true, Bool.not_eq_true', bne_iff_ne] at hu
        exact h.prepare hu.1 hu.2 htaken
  | commitCheck client =>
      rcases commitCheck_cases hst with rfl | rfl
      · exact h
      · exact h.setRequest client .committing
  | commitStore client =>
      rw [commitStore_eq hst]
      exact (h.setRequest client .idle).commitStore
  | rollbackDrop client =>
      rw [rollbackDrop_eq hst]
      exact (h.setRequest client .rollingBack).rollbackDrop
  | rollbackStore client =>
      rw [rollbackStore_eq hst]
      have hagreed : s.agreed = none := by
        simp only [Undisturbed, Bool.or_eq_true, Bool.not_eq_true', Option.isNone_iff_eq_none] at hu
        cases ha : s.agreed with
        | none => rfl
        | some program =>
            obtain ⟨hpending, hflag⟩ := h.pending_of_agreed program ha
            rcases hu with hu | hu
            · rw [hflag] at hu; cases hu
            · rw [hpending] at hu; cases hu
      exact (h.setRequest client .idle).clearFlag hagreed (Or.inl rfl)
  | test =>
      rcases test_cases hst with ⟨hflag, rfl⟩ | ⟨-, rfl⟩
      · exact ⟨h.1, h.2, fun _ => h.agreed_of_flag hflag, nofun, h.5, h.6⟩
      · exact h
  | take =>
      obtain ⟨hboundary, ⟨hpending, rfl⟩ | ⟨program, hpending, rfl⟩⟩ := take_cases hst
      · exact ⟨h.1, h.2, nofun, fun _ => hpending, h.5, h.6⟩
      · refine h.take ?_
        rw [← h.agreed_of_tested hboundary, hpending]
  | clear =>
      obtain ⟨hboundary, rfl⟩ := clear_eq hst
      exact h.clearFlag (h.agreed_none (h.empty_of_taken hboundary)) (Or.inr rfl)

/-- A step from a coherent state is as expected. -/
theorem Coherent.correct (h : s.Coherent) (e : SwapEvent) : Correct decode s e := by
  intro t hst
  cases e with
  | prepare client bytes =>
      have hprepare : ∃ (c : ℕ) (b : List UInt8),
          SwapEvent.prepare client bytes = .prepare c b := ⟨client, bytes, rfl⟩
      rcases prepare_cases hst with rfl | ⟨program, hvalid, -, rfl⟩
      · exact ⟨nofun, nofun, fun _ hp => Or.inl hp, h.running_commit⟩
      · exact ⟨nofun, nofun, fun _ _ => Or.inr (Or.inr (Or.inr hprepare)), h.running_commit⟩
  | commitCheck client =>
      rcases commitCheck_cases hst with rfl | rfl
      · exact ⟨nofun, nofun, fun _ hp => Or.inl hp, h.running_commit⟩
      · exact ⟨nofun, nofun, fun _ hp => Or.inl hp, h.running_commit⟩
  | commitStore client =>
      rw [commitStore_eq hst]
      refine ⟨nofun, nofun, fun program hp => Or.inl ?_, ?_⟩
      · exact (h.pending_of_agreed program hp).1
      · exact fun program hp => List.mem_append_right _ (h.running_commit program hp)
  | rollbackDrop client =>
      rw [rollbackDrop_eq hst]
      exact ⟨nofun, nofun, fun _ _ => Or.inr (Or.inr (Or.inl ⟨client, rfl⟩)), h.running_commit⟩
  | rollbackStore client =>
      rw [rollbackStore_eq hst]
      exact ⟨nofun, nofun, fun _ hp => Or.inl hp, h.running_commit⟩
  | test =>
      rcases test_cases hst with ⟨hflag, rfl⟩ | ⟨hflag, rfl⟩
      · exact ⟨nofun, fun _ _ => rfl, fun _ hp => Or.inl hp, h.running_commit⟩
      · refine ⟨nofun, fun _ hsome => ?_, fun _ hp => Or.inl hp, h.running_commit⟩
        obtain ⟨program, hp⟩ := Option.isSome_iff_exists.mp hsome
        rw [(h.pending_of_agreed program hp).2] at hflag
        cases hflag
  | take =>
      obtain ⟨hboundary, ⟨hpending, rfl⟩ | ⟨program, hpending, rfl⟩⟩ := take_cases hst
      · have hagreed := h.agreed_none hpending
        refine ⟨fun _ => ?_, nofun, fun _ hp => Or.inl hp, h.running_commit⟩
        rw [hagreed]
        rfl
      · have hagreed : s.agreed = some program := by
          rw [← h.agreed_of_tested hboundary, hpending]
        refine ⟨fun _ => ?_, nofun, fun p hp => Or.inr (Or.inl ⟨rfl, ?_⟩), ?_⟩
        · rw [hagreed]
          rfl
        · rw [← hp, hagreed]
        · exact (h.take hagreed).running_commit
  | clear =>
      obtain ⟨-, rfl⟩ := clear_eq hst
      exact ⟨nofun, nofun, fun _ hp => Or.inl hp, h.running_commit⟩

/-! ### Runs -/

/-- In every interleaving of requests with the steps of the boundary, from the start of the
engine, whose steps all meet the condition, every step is as expected. -/
theorem undisturbed_run_correct (decode : List UInt8 → Except String (HalProgram P))
    (es : List SwapEvent)
    (h : EveryStep (step decode) (fun s e => Undisturbed decode s e = true) new es) :
    EveryStep (step decode) (Correct decode) new es :=
  EveryStep.imp (fun _ _ _ hs hu hst => hs.step hu hst) (fun _ e hs _ => hs.correct e)
    coherent_new h

/-! ### Runs on two programs -/

/-- A decoder of two programs, the second with an instruction before its `Halt`. -/
def decodeTwo (P : Platform) (bytes : List UInt8) : Except String (HalProgram P) :=
  match bytes with
  | [1] => .ok (.new "first" [.halt])
  | [2] => .ok (.new "second" [.nop, .halt])
  | _ => .error "unexpected end of file"

/-- The first program is prepared and committed, then the second one is prepared, and the
boundary installs the second one. -/
def staleFlag : List SwapEvent :=
  [.prepare 0 [1], .commitCheck 0, .commitStore 0, .prepare 0 [2], .test, .take]

/-- The boundary of `staleFlag` installs a program that was never committed. -/
theorem staleFlag_installs_uncommitted :
    ¬ ∀ (P : Platform) (decode : List UInt8 → Except String (HalProgram P))
      (es : List SwapEvent), EveryStep (step decode) (Correct decode) new es := by
  intro h
  have hrun : EveryStep (step (decodeTwo Platform.exact)) (Correct (decodeTwo Platform.exact))
      new (staleFlag.take 5 ++ [.take]) := h _ _ staleFlag
  have htake := (hrun.at rfl) _ rfl
  exact absurd (htake.installs rfl) nofun

/-- One program is prepared, committed and installed, then another one. -/
theorem two_swaps_correct :
    EveryStep (step (decodeTwo Platform.exact)) (Correct (decodeTwo Platform.exact)) new
      [.prepare 0 [1], .commitCheck 0, .commitStore 0, .test, .take, .clear,
        .prepare 1 [2], .commitCheck 0, .commitStore 0, .test, .take, .clear] :=
  undisturbed_run_correct _ _ (by decide)

end HotSwap

end Weftik
