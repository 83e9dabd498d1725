import Weftik.Lib.Transition

/-!
# Deferred Configuration

The engine keeps configuration commands until a cycle begins, and hands them to the
middleware there. Both have a lock level and a queue: the engine looks at its own level
when a command comes, and only whether it is below `Run`; the middleware looks at the class
of the command when it is handed over, but its level stays at `None`, since the engine's is
never passed on.

## Main definitions

* `Amw.InprocQoS`: the levels and the queue of the middleware.
* `Amw.ConfigEngine`: the engine's part, and `Amw.configStep`, what may happen to it.
* `Amw.Respected`: what a step has to respect.

## Main results

* `Amw.respected_iff`: when the lock level is respected along a run.
-/

open Transition

namespace Weftik.Amw

/-! ### Levels and commands -/

/-- The lock levels. -/
inductive LockLevel
  | none | load | config | params | run | all
  deriving DecidableEq, Repr

namespace LockLevel

/-- The number of a level. -/
def toU8 : LockLevel → ℕ
  | none => 0
  | load => 1
  | config => 2
  | params => 3
  | run => 4
  | all => 5

instance : LE LockLevel := ⟨fun a b => a.toU8 ≤ b.toU8⟩
instance : LT LockLevel := ⟨fun a b => a.toU8 < b.toU8⟩
instance (a b : LockLevel) : Decidable (a ≤ b) := inferInstanceAs (Decidable (_ ≤ _))
instance (a b : LockLevel) : Decidable (a < b) := inferInstanceAs (Decidable (_ < _))

/-- The name of a level in a debug text. -/
def debug : LockLevel → String
  | none => "None"
  | load => "Load"
  | config => "Config"
  | params => "Params"
  | run => "Run"
  | all => "All"

end LockLevel

/-- A configuration command. -/
structure ConfigCommand where
  id : UInt64
  method : String
  params : List UInt8
  queuedAt : ℕ
  deriving DecidableEq

/-- What has become of a command. -/
inductive ConfigStatus
  | queued
  | applied
  | rejected (reason : String)
  | failed (reason : String)
  deriving DecidableEq

/-- What the standard library does with texts: `str::to_lowercase`, and `{:?}` of a text. -/
structure TextOps where
  toLowercase : String → String
  debug : String → String

/-- Does the text contain the pattern? -/
def contains (text pattern : String) : Bool := pattern.toList <:+: text.toList

/-- The lock level that the class of a command requires. -/
def requiredLockLevel (x : TextOps) (method : String) : LockLevel :=
  let lower := x.toLowercase method
  if contains lower "load" || contains lower "unload" || contains lower "component" then .load
  else if contains lower "param" then .params
  else .config

/-- May a command of the required level be queued at the current one? -/
def canQueue (current required : LockLevel) : Bool :=
  match current with
  | .none | .load => true
  | .config => LockLevel.config ≤ required
  | .params => LockLevel.params ≤ required
  | .run | .all => false

/-! ### The middleware -/

/-- The lock level and the queue of the middleware. -/
structure InprocQoS where
  lockLevel : LockLevel
  configQueue : List ConfigCommand
  deriving DecidableEq

namespace InprocQoS

def new : InprocQoS := ⟨.none, []⟩

/-- A command is queued, unless the level prohibits its class. -/
def queueConfig (x : TextOps) (q : InprocQoS) (cmd : ConfigCommand) :
    ConfigStatus × InprocQoS :=
  let required := requiredLockLevel x cmd.method
  if canQueue q.lockLevel required then
    (.queued, { q with configQueue := q.configQueue ++ [cmd] })
  else
    (.rejected s!"LockLevel {q.lockLevel.debug} prohibits command {x.debug cmd.method} (requires {required.debug})",
      q)

/-- The queued commands are applied. -/
def applyQueued (q : InprocQoS) : List ConfigStatus × InprocQoS :=
  (q.configQueue.map fun _ => .applied, { q with configQueue := [] })

end InprocQoS

/-! ### The engine -/

/-- The engine: its lock level and its queue, and the middleware. `accepted` and `applied`
are ghost fields: the commands whose queueing has been reported as successful, and those
that the middleware has applied, in their order. -/
structure ConfigEngine where
  lockLevel : LockLevel
  configQueue : List ConfigCommand
  qos : InprocQoS
  accepted : List ConfigCommand
  applied : List ConfigCommand

namespace ConfigEngine

/-- The engine at its start. -/
def new : ConfigEngine := ⟨.none, [], .new, [], []⟩

/-- The lock level is raised; it cannot be lowered. -/
def setLockLevel (s : ConfigEngine) (newLevel : LockLevel) :
    Except String Unit × ConfigEngine :=
  if newLevel < s.lockLevel then
    (.error s!"Cannot decrease lock level from {s.lockLevel.debug} to {newLevel.debug}", s)
  else (.ok (), { s with lockLevel := newLevel })

/-- A command is queued for the next cycle, below `Run`. -/
def queueConfig (s : ConfigEngine) (cmd : ConfigCommand) : Except String Unit × ConfigEngine :=
  if LockLevel.run ≤ s.lockLevel then
    (.error s!"Configuration locked: engine is at {s.lockLevel.debug} level", s)
  else
    (.ok (), { s with
      configQueue := s.configQueue ++ [cmd]
      accepted := s.accepted ++ [cmd] })

/-- Commands are handed to the middleware, one after the other. -/
def handOver (x : TextOps) : InprocQoS → List ConfigCommand → List ConfigStatus × InprocQoS
  | q, [] => ([], q)
  | q, cmd :: cmds =>
      let queued := q.queueConfig x cmd
      let rest := handOver x queued.2 cmds
      (queued.1 :: rest.1, rest.2)

/-- The queue is handed over and applied. The statuses are those of the handing over. -/
def drain (x : TextOps) (s : ConfigEngine) : List ConfigStatus × ConfigEngine :=
  let handed := handOver x s.qos s.configQueue
  (handed.1, { s with
    configQueue := []
    qos := handed.2.applyQueued.2
    applied := s.applied ++ handed.2.configQueue })

/-- The configuration barrier at the beginning of a cycle. -/
def barrier (x : TextOps) (s : ConfigEngine) : ConfigEngine :=
  if s.configQueue = [] then s else (s.drain x).2

/-- The queued commands are applied at once. -/
def applyConfigNow (x : TextOps) (s : ConfigEngine) : List ConfigStatus × ConfigEngine :=
  if s.configQueue = [] then ([], s) else s.drain x

end ConfigEngine

/-- What may happen to the engine. -/
inductive ConfigEvent
  | setLockLevel (level : LockLevel)
  | queueConfig (cmd : ConfigCommand)
  | applyConfigNow
  | barrier

/-- One step of the engine. -/
def configStep (x : TextOps) (s : ConfigEngine) : ConfigEvent → Option ConfigEngine
  | .setLockLevel level => some (s.setLockLevel level).2
  | .queueConfig cmd => some (s.queueConfig cmd).2
  | .applyConfigNow => some (s.applyConfigNow x).2
  | .barrier => some (s.barrier x)

/-! ### The lock level and the order of the commands -/

/-- A command is accepted exactly when the engine's lock level admits its class. -/
def Admits (x : TextOps) (s : ConfigEngine) (cmd : ConfigCommand) : Prop :=
  (s.queueConfig cmd).1 = .ok () ↔ canQueue s.lockLevel (requiredLockLevel x cmd.method) = true

/-- The commands that have been accepted are those that have been applied and those that
wait, each once and in its order. -/
def Deferred (s : ConfigEngine) : Prop := s.accepted = s.applied ++ s.configQueue

/-- Commands are applied at a barrier or on demand only, and then all of them. -/
def AppliedAt (s t : ConfigEngine) : ConfigEvent → Prop
  | .barrier | .applyConfigNow => t.configQueue = []
  | .setLockLevel _ | .queueConfig _ => t.applied = s.applied

/-- What a step respects: the lock level, if it queues a command; the order of the commands,
none of which is lost; and where commands are applied. -/
structure Respected (x : TextOps) (s : ConfigEngine) (e : ConfigEvent) : Prop where
  admits : ∀ cmd, e = .queueConfig cmd → Admits x s cmd
  deferred : ∀ t, configStep x s e = some t → Deferred t
  appliedAt : ∀ t, configStep x s e = some t → AppliedAt s t e

/-- A command that comes at `Config` or at `Params` is of a class of at least this level. -/
def Suits (x : TextOps) (s : ConfigEngine) (e : ConfigEvent) : Prop :=
  ∀ cmd, e = .queueConfig cmd → s.lockLevel = .config ∨ s.lockLevel = .params →
    s.lockLevel ≤ requiredLockLevel x cmd.method

section Steps

variable {x : TextOps} {s t : ConfigEngine} {e : ConfigEvent}

/-- The invariant: the middleware is at `None` and has nothing queued, and no command has
been lost. -/
structure Transparent (s : ConfigEngine) : Prop where
  qos : s.qos = .new
  deferred : Deferred s

theorem transparent_new : Transparent .new := ⟨rfl, rfl⟩

/-- A middleware at `None` queues whatever it is handed. -/
theorem handOver_none (x : TextOps) {q : InprocQoS} (h : q.lockLevel = .none)
    (cmds : List ConfigCommand) :
    (ConfigEngine.handOver x q cmds).2 = { q with configQueue := q.configQueue ++ cmds } := by
  induction cmds generalizing q with
  | nil => rw [ConfigEngine.handOver, List.append_nil]
  | cons cmd cmds ih =>
      have hqueued : (q.queueConfig x cmd).2 =
          { q with configQueue := q.configQueue ++ [cmd] } := by
        rw [InprocQoS.queueConfig, h]
        rfl
      rw [ConfigEngine.handOver]
      dsimp only
      rw [hqueued, ih (q := { q with configQueue := q.configQueue ++ [cmd] }) h]
      simp only [List.append_assoc, List.singleton_append]

/-- What is handed over is applied, all of it. -/
theorem Transparent.drain (h : Transparent s) (x : TextOps) :
    (s.drain x).2 =
      { s with configQueue := [], applied := s.applied ++ s.configQueue } := by
  rw [ConfigEngine.drain]
  dsimp only
  rw [h.qos, handOver_none x rfl]
  rfl

theorem Transparent.drained (h : Transparent s) (x : TextOps) :
    Transparent (s.drain x).2 ∧ (s.drain x).2.configQueue = [] := by
  rw [h.drain x]
  refine ⟨⟨h.qos, ?_⟩, rfl⟩
  rw [Deferred, List.append_nil]
  exact h.deferred

theorem Transparent.barrier (h : Transparent s) (x : TextOps) :
    Transparent (s.barrier x) ∧ (s.barrier x).configQueue = [] := by
  rw [ConfigEngine.barrier]
  split
  · rename_i hnil
    exact ⟨h, hnil⟩
  · exact h.drained x

theorem Transparent.applyConfigNow (h : Transparent s) (x : TextOps) :
    Transparent (s.applyConfigNow x).2 ∧ (s.applyConfigNow x).2.configQueue = [] := by
  rw [ConfigEngine.applyConfigNow]
  split
  · rename_i hnil
    exact ⟨h, hnil⟩
  · exact h.drained x

theorem Transparent.setLockLevel (h : Transparent s) (level : LockLevel) :
    Transparent (s.setLockLevel level).2 ∧ (s.setLockLevel level).2.applied = s.applied := by
  rw [ConfigEngine.setLockLevel]
  split
  · exact ⟨h, rfl⟩
  · exact ⟨⟨h.qos, h.deferred⟩, rfl⟩

theorem Transparent.queueConfig (h : Transparent s) (cmd : ConfigCommand) :
    Transparent (s.queueConfig cmd).2 ∧ (s.queueConfig cmd).2.applied = s.applied := by
  rw [ConfigEngine.queueConfig]
  split
  · exact ⟨h, rfl⟩
  · refine ⟨⟨h.qos, ?_⟩, rfl⟩
    change s.accepted ++ [cmd] = s.applied ++ (s.configQueue ++ [cmd])
    rw [h.deferred, List.append_assoc]

/-- Every step keeps the invariant, and applies commands at its place only. -/
theorem Transparent.step (h : Transparent s) (hstep : configStep x s e = some t) :
    Transparent t ∧ AppliedAt s t e := by
  cases e with
  | setLockLevel level =>
      obtain rfl := Option.some.inj hstep
      exact h.setLockLevel level
  | queueConfig cmd =>
      obtain rfl := Option.some.inj hstep
      exact h.queueConfig cmd
  | applyConfigNow =>
      obtain rfl := Option.some.inj hstep
      exact h.applyConfigNow x
  | barrier =>
      obtain rfl := Option.some.inj hstep
      exact h.barrier x

/-- The engine accepts a command below `Run`. -/
theorem queueConfig_ok_iff (s : ConfigEngine) (cmd : ConfigCommand) :
    (s.queueConfig cmd).1 = .ok () ↔ s.lockLevel < .run := by
  rw [ConfigEngine.queueConfig]
  split
  · rename_i hle
    exact iff_of_false nofun (Nat.not_lt.mpr hle)
  · rename_i hlt
    exact iff_of_true rfl (Nat.lt_of_not_le hlt)

/-- The engine and the class of the command disagree at `Config` and `Params` only. -/
theorem admits_iff (x : TextOps) (s : ConfigEngine) (cmd : ConfigCommand) :
    Admits x s cmd ↔ (s.lockLevel = .config ∨ s.lockLevel = .params →
      s.lockLevel ≤ requiredLockLevel x cmd.method) := by
  rw [Admits, queueConfig_ok_iff]
  cases s.lockLevel <;> cases requiredLockLevel x cmd.method <;> decide

theorem Transparent.respects_iff (h : Transparent s) :
    Respected x s e ↔ Suits x s e := by
  constructor
  · intro hrespected cmd he
    exact (admits_iff x s cmd).mp (hrespected.admits cmd he)
  · intro hsuits
    refine ⟨fun cmd he => (admits_iff x s cmd).mpr (hsuits cmd he), fun t hstep => ?_,
      fun t hstep => (h.step hstep).2⟩
    exact (h.step hstep).1.deferred

end Steps

/-- Along a run, the commands are deferred and the lock level is respected exactly when
every command that comes at `Config` or at `Params` is of a class of at least this
level. -/
theorem respected_iff (x : TextOps) (es : List ConfigEvent) :
    EveryStep (configStep x) (Respected x) .new es ↔
      EveryStep (configStep x) (Suits x) .new es := by
  have hstep : ∀ s e t, Transparent s → configStep x s e = some t → Transparent t :=
    fun _ _ _ h hst => (h.step hst).1
  constructor
  · exact EveryStep.imp (fun s e t h _ => hstep s e t h) (fun _ _ h => h.respects_iff.mp)
      transparent_new
  · exact EveryStep.imp (fun s e t h _ => hstep s e t h) (fun _ _ h => h.respects_iff.mpr)
      transparent_new

/-- Texts as Lean has them. -/
def plainText : TextOps :=
  ⟨fun text => String.ofList (text.toList.map Char.toLower), fun text => "\"" ++ text ++ "\""⟩

/-- The loading of a component. -/
def loadCommand : ConfigCommand := ⟨1, "loadComponent", [], 0⟩

/-- At `Params`, the loading of a component is accepted. -/
theorem load_not_respected :
    ¬ EveryStep (configStep plainText) (Respected plainText) .new
      [.setLockLevel .params, .queueConfig loadCommand] := by
  rintro ⟨-, hrespected, -⟩
  have hiff := hrespected.admits loadCommand rfl
  exact absurd (hiff.mp rfl) (by decide)

end Weftik.Amw
