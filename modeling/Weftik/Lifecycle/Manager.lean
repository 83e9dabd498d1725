import Weftik.Platform
import Weftik.Lib.Outcome

/-!
# The Lifecycle Manager

The manager supervises child processes. A poll asks each child whether it has exited; one that
has is started again, up to a number of times, and the number starts from zero again when the
last start is long ago. What the operating system answers is a parameter of the poll. Children
do not affect each other, and a poll removes none.

## Main definitions

* `ManagedChild`, `ProcessState`, `ChildHealth`: a child, and what is reported of it.
* `checkChild`, `healthCheck`: the poll of a child, and of all.
* `run`: the manager over a sequence of operations.

## Main results

* `checkChild_spec`, `healthCheck_spec`: what a poll finds of each child and does with it.
-/

namespace Weftik.Lifecycle

variable {P : Platform}

/-! ### Children -/

/-- Maximum restart attempts within the restart window. -/
def maxRetries : ℕ := 3

/-- The backoff of the first attempt, in milliseconds. -/
def backoffBaseMs : ℕ := 1000

/-- The time since the last start after which the restart counter is reset. -/
def restartWindowMs : ℕ := 30000

/-- A duration; durations and instants are in nanoseconds. -/
def fromMillis (ms : ℕ) : ℕ := ms * 1000000

/-- The state of a child, as it is reported. -/
inductive ProcessState
  | running
  | exited (exitCode : Option Int32)
  | restarting (attempt nextAt : ℕ)
  | failed (exitCode : Option Int32) (reason : String)
  | stopped
  deriving DecidableEq

/-- The report on a child. -/
structure ChildHealth where
  name : String
  state : ProcessState
  exitCode : Option Int32
  restartCount : ℕ
  deriving DecidableEq

/-- A supervised child. Its process is a number that the operating system has given. -/
structure ManagedChild where
  name : String
  process : ℕ
  restartCount : ℕ
  lastStart : ℕ
  exitCode : Option Int32
  program : String
  args : List String
  deriving DecidableEq

/-- What the operating system answers during a poll: the time, whether a process has exited and
with which code, and the result of starting a program for the child at a position. -/
structure Poll where
  now : ℕ
  tryWait : ℕ → Except String (Option (Option Int32))
  spawn : ℕ → String → List String → Except String ℕ

/-- A child after a poll, the report on it, and whether a restart has been attempted. -/
structure Checked where
  child : ManagedChild
  health : ChildHealth
  attempted : Bool
  deriving DecidableEq

/-- `1u64 << shift`: a shift by the width or more overflows. -/
def shiftOne (P : Platform) (shift : ℕ) : Except Panic ℕ :=
  if shift < 64 then .ok (2 ^ shift)
  else if P.overflowChecks then .error .overflow
  else .ok (2 ^ (shift % 64))

/-- The backoff of an attempt, in milliseconds. -/
def backoffMs (P : Platform) (attempt : ℕ) : Except Panic ℕ := do
  let factor ← shiftOne P (attempt - 1)
  unsigned P 64 (backoffBaseMs * factor)

/-- The restart counter, reset when the last start is a window ago. -/
def resetCount (now : ℕ) (c : ManagedChild) : ℕ :=
  if fromMillis restartWindowMs ≤ now - c.lastStart then 0 else c.restartCount

/-- The poll of the child at a position. -/
def checkChild (P : Platform) (poll : Poll) (i : ℕ) (c : ManagedChild) :
    Except Panic Checked :=
  match poll.tryWait c.process with
  | .ok (some exitCode) =>
      let c := { c with exitCode := exitCode, restartCount := resetCount poll.now c }
      if c.restartCount < maxRetries then
        let attempt := c.restartCount + 1
        match poll.spawn i c.program c.args with
        | .ok process => do
            let backoff ← backoffMs P attempt
            pure
              { child :=
                  { c with
                    process := process
                    restartCount := attempt
                    lastStart := poll.now
                    exitCode := none }
                health :=
                  ⟨c.name, .restarting attempt (poll.now + fromMillis backoff), exitCode,
                    attempt⟩
                attempted := true }
        | .error e =>
            pure
              { child := c
                health :=
                  ⟨c.name, .failed exitCode ("Restart spawn failed: " ++ e), exitCode,
                    c.restartCount⟩
                attempted := true }
      else
        pure
          { child := c
            health :=
              ⟨c.name, .failed exitCode ("Exceeded max retries (" ++ toString maxRetries ++ ")"),
                exitCode, c.restartCount⟩
            attempted := false }
  | .ok none =>
      pure
        { child := c
          health := ⟨c.name, .running, none, c.restartCount⟩
          attempted := false }
  | .error _ =>
      pure
        { child := c
          health := ⟨c.name, .failed none "try_wait() returned an error", none, c.restartCount⟩
          attempted := false }

/-- The poll of the children from a position on. -/
def healthCheck (P : Platform) (poll : Poll) :
    ℕ → List ManagedChild → Except Panic (List Checked)
  | _, [] => pure []
  | i, c :: cs => do
      let checked ← checkChild P poll i c
      let rest ← healthCheck P poll (i + 1) cs
      pure (checked :: rest)

/-! ### Runs of the manager -/

/-- The operations of the manager: a child is started, or the children are polled. -/
inductive Op
  | spawn (name program : String) (args : List String) (now : ℕ) (result : Except String ℕ)
  | healthCheck (poll : Poll)

/-- When an operation happens. -/
def Op.time : Op → ℕ
  | .spawn _ _ _ now _ => now
  | .healthCheck poll => poll.now

/-- The children after an operation, and the reports of a poll. -/
def applyOp (P : Platform) (cs : List ManagedChild) :
    Op → Except Panic (List ManagedChild × List Checked)
  | .spawn name program args now (.ok process) =>
      pure (cs ++ [⟨name, process, 0, now, none, program, args⟩], [])
  | .spawn _ _ _ _ (.error _) => pure (cs, [])
  | .healthCheck poll => do
      let checked ← healthCheck P poll 0 cs
      pure (checked.map Checked.child, checked)

/-- The children after some operations, and the time and the reports of each. -/
def run (P : Platform) :
    List Op → List ManagedChild → Except Panic (List ManagedChild × List (ℕ × List Checked))
  | [], cs => pure (cs, [])
  | op :: ops, cs => do
      let (cs, checked) ← applyOp P cs op
      let (cs, reports) ← run P ops cs
      pure (cs, (op.time, checked) :: reports)

/-- Has the child been started again? -/
def Checked.restarted (r : Checked) : Bool :=
  match r.health.state with
  | .restarting _ _ => true
  | _ => false

/-- The times at which the child at a position has been started again. -/
def restartTimes (i : ℕ) (reports : List (ℕ × List Checked)) : List ℕ :=
  (reports.filter fun report => report.2[i]?.any Checked.restarted).map Prod.fst

/-! ### One child during a poll -/

/-- What a poll can find of a child and do with it. -/
inductive CheckedAs (poll : Poll) (c : ManagedChild) : Checked → Prop
  | restarted {r : Checked} {exitCode : Option Int32} {nextAt : ℕ} :
      poll.tryWait c.process = .ok (some exitCode) → resetCount poll.now c < maxRetries →
      r.health.state = .restarting (resetCount poll.now c + 1) nextAt →
      r.child.restartCount = resetCount poll.now c + 1 → r.child.lastStart = poll.now →
      r.attempted = true → CheckedAs poll c r
  | spawnFailed {r : Checked} {exitCode code : Option Int32} {reason : String} :
      poll.tryWait c.process = .ok (some exitCode) → resetCount poll.now c < maxRetries →
      r.health.state = .failed code reason →
      r.child.restartCount = resetCount poll.now c → r.child.lastStart = c.lastStart →
      r.attempted = true → CheckedAs poll c r
  | exhausted {r : Checked} {exitCode code : Option Int32} {reason : String} :
      poll.tryWait c.process = .ok (some exitCode) → maxRetries ≤ resetCount poll.now c →
      r.health.state = .failed code reason → r.child.process = c.process →
      r.child.restartCount = resetCount poll.now c → r.child.lastStart = c.lastStart →
      r.attempted = false → CheckedAs poll c r
  | running {r : Checked} :
      poll.tryWait c.process = .ok none → r.health.state = .running → r.child = c →
      r.attempted = false → CheckedAs poll c r
  | unknown {r : Checked} {e : String} {code : Option Int32} {reason : String} :
      poll.tryWait c.process = .error e → r.health.state = .failed code reason →
      r.child = c → r.attempted = false → CheckedAs poll c r

theorem resetCount_le (now : ℕ) (c : ManagedChild) : resetCount now c ≤ c.restartCount := by
  rw [resetCount]
  split_ifs
  · exact Nat.zero_le _
  · exact le_rfl

/-- The backoff of an attempt that is made does not overflow. -/
theorem backoffMs_ok {attempt : ℕ} (h : attempt ≤ maxRetries) :
    ∃ ms, backoffMs P attempt = .ok ms := by
  have hshift : attempt - 1 < 3 := by
    rw [maxRetries] at h
    omega
  have hpow : 2 ^ (attempt - 1) ≤ 2 ^ 2 := Nat.pow_le_pow_right (by decide) (by omega)
  refine ⟨backoffBaseMs * 2 ^ (attempt - 1), ?_⟩
  rw [backoffMs, shiftOne, if_pos (by omega), Outcome.ok_bind, unsigned,
    if_pos (by rw [backoffBaseMs]; omega)]

/-- The poll of a child does one of five things, and none of them panics. -/
theorem checkChild_spec (P : Platform) (poll : Poll) (i : ℕ) (c : ManagedChild) :
    ∃ r, checkChild P poll i c = .ok r ∧ CheckedAs poll c r := by
  unfold checkChild
  cases hwait : poll.tryWait c.process with
  | error e => exact ⟨_, rfl, .unknown hwait rfl rfl rfl⟩
  | ok exit =>
      cases exit with
      | none => exact ⟨_, rfl, .running hwait rfl rfl rfl⟩
      | some exitCode =>
          simp only
          by_cases hcount : resetCount poll.now c < maxRetries
          · rw [if_pos hcount]
            cases poll.spawn i c.program c.args with
            | error e => exact ⟨_, rfl, .spawnFailed hwait hcount rfl rfl rfl rfl⟩
            | ok process =>
                obtain ⟨ms, hms⟩ := backoffMs_ok (P := P) (Nat.succ_le_of_lt hcount)
                simp only [Nat.succ_eq_add_one] at hms
                simp only [hms, Outcome.ok_bind]
                exact ⟨_, rfl, .restarted hwait hcount rfl rfl rfl rfl⟩
          · rw [if_neg hcount]
            exact ⟨_, rfl, .exhausted hwait (Nat.le_of_not_lt hcount) rfl rfl rfl rfl rfl⟩

/-- The poll of the children is the poll of each. -/
theorem healthCheck_spec (P : Platform) (poll : Poll) (start : ℕ) (cs : List ManagedChild) :
    ∃ rs, healthCheck P poll start cs = .ok rs ∧ List.Forall₂ (CheckedAs poll) cs rs := by
  induction cs generalizing start with
  | nil => exact ⟨[], rfl, .nil⟩
  | cons c cs ih =>
      obtain ⟨r, hr, hspec⟩ := checkChild_spec P poll start c
      obtain ⟨rs, hrs, hall⟩ := ih (start + 1)
      exact ⟨r :: rs, by rw [healthCheck, hr, Outcome.ok_bind, hrs, Outcome.ok_bind]; rfl,
        .cons hspec hall⟩

/-- The reports of a poll are in the order of the children. -/
theorem forall₂_getElem? {α β : Type} {R : α → β → Prop} {as : List α} {bs : List β}
    (h : List.Forall₂ R as bs) {i : ℕ} {a : α} (ha : as[i]? = some a) :
    ∃ b, bs[i]? = some b ∧ R a b := by
  induction h generalizing i with
  | nil => cases ha
  | @cons a' b' _ _ hab _ ih =>
      cases i with
      | zero =>
          obtain rfl := Option.some.inj ha
          exact ⟨b', rfl, hab⟩
      | succ i => exact ih ha

end Weftik.Lifecycle
