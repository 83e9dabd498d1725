import Weftik.Ipc.Framing
import Weftik.Ipc.Pairing
import Weftik.Ipc.Subscribers
import Weftik.Lib.SharedStream

/-!
# Pushes and Responses on One Socket

The thread of a connection writes its responses to the socket, and the engine writes the
pushes to a duplicate of it. No lock is taken by both for a write. The table of the
subscriptions has a lock, though, which the engine holds over all of its pushes: a
connection is in the table only from its request to subscribe, whose response is written
under that lock, to the clean-up at the end of the same message, and the thread of the
connection writes nothing in between.

The writes of this module go on piece by piece, in any order that the lock allows. A write
that fails is the end of its socket, and is left out.

## Main definitions

* `Ipc.messageActions`: what the thread of a connection does for a message.
* `Ipc.pushStep`: the connections and the engine, one action at a time.
* `Ipc.Disciplined`: the invariant of the lock, the table and the sockets.

## Main results

* `Ipc.messageActions_writes`: the actions write the responses of the message.
* `Ipc.frames_whole`: every socket carries whole frames.
-/

open Outcome SharedStream Transition

namespace Weftik

open HalValue

namespace Ipc

variable {P : Platform} {E : Type}

/-! ### The thread of a connection -/

/-- What the thread of a connection does for a message. The table is changed under its
lock. -/
inductive Action
  | write (response : Response)
  | lock
  | unlock
  | subscribe (name : String) (sid : UInt64)
  | unsubscribe (name : String) (sid : UInt64)
  | cleanUp (sid : UInt64)
  deriving DecidableEq

/-- The end of a branch. A subscription is entered, and its response written, under the
lock; it ends under the lock, and the response is written after that. -/
def servedActions (srv : IpcServer P E) (c : Connection) (frame : Frame)
    (response : Response) : List Action :=
  let sid := (c.session.map SessionInfo.sessionId).getD 0
  let name := srv.lossy frame.payload
  match methodFromU8 frame.methodId with
  | some .subscribeSignal =>
      if response.status = statusOk then
        [.lock, .subscribe name sid, .write response, .unlock]
      else [.write response]
  | some .unsubscribeSignal => [.lock, .unsubscribe name sid, .unlock, .write response]
  | _ => [.write response]

/-- The clean-up at the end of the loop body. -/
def cleanUpActions : Option SessionInfo → List Action
  | none => []
  | some s => [.lock, .cleanUp s.sessionId, .unlock]

/-- The state of the connection after a message, and the actions for the message. -/
def messageActions (srv : IpcServer P E) (env : Env) (conn : ℕ) (c : Connection) (e : E)
    (subs : Subscriptions) (frame : Frame) : Except Panic (Connection × List Action) :=
  match checkToken srv env c.session frame with
  | .error (response, session) => .ok (⟨session, c.nextSid⟩, [.write response])
  | .ok () =>
      (handleMethod srv env conn c e subs frame).map fun
        | .refused response => (c, [.write response])
        | .served response _ _ =>
            (c, servedActions srv c frame response ++ cleanUpActions c.session)
        | .opened session responses =>
            (⟨some session, c.nextSid + 1⟩,
              responses.map .write ++ cleanUpActions (some session))

/-- The response that an action writes. -/
def Action.response? : Action → Option Response
  | .write response => some response
  | _ => none

/-! ### Threads and sockets -/

/-- A thread: that of the engine, or that of a connection. -/
inductive Thread
  | engine
  | handler (conn : ℕ)
  deriving DecidableEq

/-- Who writes to a socket: the thread of its connection, or the engine. -/
inductive Writer
  | handler
  | engine
  deriving DecidableEq

/-- The connections, the table of the subscriptions and who holds its lock, what each
connection and the engine still have to do, and the sockets. -/
structure PushState where
  connections : ℕ → Option Connection
  accepted : ℕ
  table : Subscriptions
  holder : Option Thread
  todo : ℕ → List Action
  pushes : List (ℕ × Response)
  socket : ℕ → Pipe Writer UInt8

/-- The server before the first connection. -/
def PushState.new : PushState where
  connections _ := none
  accepted := 0
  table _ := []
  holder := none
  todo _ := []
  pushes := []
  socket _ := .new

/-- The method of a push. -/
def methodSignalPush : UInt8 := 0x16

/-- A push of the value of a signal; `json` is the value as JSON. -/
def buildPushFrame (json : HalValue P → String) (name : String) (value : HalValue P) :
    Response :=
  ⟨methodSignalPush, 0x00,
    textBytes ("\x7b\"signal\":\"" ++ name ++ "\",\"value\":" ++ json value ++ "\x7d")⟩

/-- The pushes of a cycle: the signals of the table, in any order, and the connections that
have subscribed to each. -/
def cyclePushes (json : HalValue P → String) (table : Subscriptions) (order : List String)
    (snapshot : String → Option (HalValue P)) : List (ℕ × Response) :=
  order.flatMap fun name =>
    match snapshot name with
    | none => []
    | some value => (table name).map fun target => (target.2, buildPushFrame json name value)

/-- What may happen next: a client connects, sends a message or goes away; the thread of a
connection goes on to its next action, or with its write; the engine takes the lock, begins
a push, goes on with it, or gives the lock back. -/
inductive PushEvent (P : Platform) (E : Type)
  | accept
  | message (conn : ℕ) (env : Env) (frame : Frame) (engine : E)
  | act (conn : ℕ)
  | write (conn n : ℕ)
  | disconnect (conn : ℕ)
  | lock (order : List String) (snapshot : String → Option (HalValue P))
  | beginPush
  | writePush (n : ℕ)
  | unlock

/-- A writer hands over a frame, unless its last one is still being written. -/
def beginWrite (P : Platform) (s : PushState) (conn : ℕ) (w : Writer) (r : Response) :
    Option PushState :=
  match (s.socket conn).writing w, buildResponse P r with
  | none, .ok bytes =>
      some { s with
        socket := Function.update s.socket conn ((s.socket conn).begin w bytes) }
  | _, _ => none

/-- The next action of the thread of a connection. -/
def act (P : Platform) (s : PushState) (conn : ℕ) : Option PushState :=
  let go (rest : List Action) : ℕ → List Action := Function.update s.todo conn rest
  match s.todo conn with
  | [] => none
  | .write r :: _ => beginWrite P s conn .handler r
  | .lock :: rest =>
      if s.holder = none then
        some { s with holder := some (.handler conn), todo := go rest }
      else none
  | .unlock :: rest => some { s with holder := none, todo := go rest }
  | .subscribe name sid :: rest =>
      some { s with
        table := Function.update s.table name (s.table name ++ [(sid, conn)])
        todo := go rest }
  | .unsubscribe name sid :: rest =>
      some { s with
        table := Function.update s.table name ((s.table name).filter (·.1 ≠ sid))
        todo := go rest }
  | .cleanUp sid :: rest =>
      some { s with
        table := fun name => (s.table name).filter (·.1 ≠ sid)
        todo := go rest }

/-- The thread of a connection goes on with its write. -/
def goOn (s : PushState) (conn n : ℕ) : Option PushState :=
  match s.todo conn with
  | .write _ :: rest =>
      ((s.socket conn).write .handler n).map fun pipe =>
        { s with
          socket := Function.update s.socket conn pipe
          todo :=
            if (pipe.writing .handler).isNone then Function.update s.todo conn rest
            else s.todo }
  | _ => none

/-- The engine goes on with its push. -/
def goOnPush (s : PushState) (n : ℕ) : Option PushState :=
  match s.pushes with
  | (conn, _) :: rest =>
      ((s.socket conn).write .engine n).map fun pipe =>
        { s with
          socket := Function.update s.socket conn pipe
          pushes := if (pipe.writing .engine).isNone then rest else s.pushes }
  | [] => none

/-- One step; `none` when the event cannot happen. A panic ends the connection. -/
def pushStep (srv : IpcServer P E) (json : HalValue P → String) (s : PushState) :
    PushEvent P E → Option PushState
  | .accept =>
      some { s with
        connections := Function.update s.connections s.accepted (some .new)
        accepted := s.accepted + 1 }
  | .message conn env frame engine =>
      match s.connections conn, s.todo conn with
      | some c, [] =>
          match messageActions srv env conn c engine s.table frame with
          | .error _ => some { s with connections := Function.update s.connections conn none }
          | .ok (c', actions) =>
              some { s with
                connections := Function.update s.connections conn (some c')
                todo := Function.update s.todo conn actions }
      | _, _ => none
  | .act conn => act P s conn
  | .write conn n => goOn s conn n
  | .disconnect conn =>
      if s.todo conn = [] then
        some { s with connections := Function.update s.connections conn none }
      else none
  | .lock order snapshot =>
      if s.holder = none then
        some { s with
          holder := some .engine
          pushes := cyclePushes json s.table order snapshot }
      else none
  | .beginPush =>
      match s.pushes with
      | (conn, r) :: _ => beginWrite P s conn .engine r
      | [] => none
  | .writePush n => goOnPush s n
  | .unlock =>
      if s.holder = some .engine ∧ s.pushes = [] then some { s with holder := none } else none

/-! ### The actions of a message -/

/-- The actions for a message write its responses, and leave its connection. -/
theorem messageActions_writes (srv : IpcServer P E) (env : Env) (conn : ℕ) (c : Connection)
    (e : E) (subs : Subscriptions) (frame : Frame) :
    (messageActions srv env conn c e subs frame).map
        (fun p => (p.1, p.2.filterMap Action.response?)) =
      (handleMessage srv env conn c e subs frame).map fun h => (h.connection, h.responses) := by
  rw [messageActions, handleMessage]
  cases checkToken srv env c.session frame with
  | error p => rfl
  | ok u =>
      dsimp only
      cases handleMethod srv env conn c e subs frame with
      | error panic => rfl
      | ok outcome =>
          have hclean : ∀ session, (cleanUpActions session).filterMap Action.response? = [] := by
            intro session
            cases session <;> rfl
          cases outcome with
          | refused response => rfl
          | served response e' subs' =>
              have hserved : (servedActions srv c frame response).filterMap Action.response? =
                  [response] := by
                rw [servedActions]
                split
                · split <;> rfl
                · rfl
                · rfl
              simp only [Except.map, finish, Functor.map, List.filterMap_append, hserved,
                hclean, List.append_nil]
          | opened session responses =>
              have hwrites : (responses.map Action.write).filterMap Action.response? =
                  responses := by
                rw [List.filterMap_map]
                exact List.filterMap_some
              simp only [Except.map, finish, Functor.map, List.filterMap_append, hwrites,
                hclean, List.append_nil]

/-! ### The invariant -/

/-- The clean-up of a session is what a connection still has to do, and it has nothing to
write but the response under the lock. -/
inductive Closing (sid : UInt64) : List Action → Prop
  | write (r : Response) : Closing sid [.write r, .unlock, .lock, .cleanUp sid, .unlock]
  | unlock : Closing sid [.unlock, .lock, .cleanUp sid, .unlock]
  | lock : Closing sid [.lock, .cleanUp sid, .unlock]
  | cleanUp : Closing sid [.cleanUp sid, .unlock]

/-- The actions take and give back the lock in turn, change the table under it, and clean
up after a subscription. `held` says whether the lock is held when they begin. -/
def Proper : Bool → List Action → Prop
  | held, [] => held = false
  | held, .lock :: rest => held = false ∧ Proper true rest
  | held, .unlock :: rest => held = true ∧ Proper false rest
  | held, .write _ :: rest => Proper held rest
  | held, .subscribe _ sid :: rest => held = true ∧ Closing sid rest ∧ Proper held rest
  | held, .unsubscribe _ _ :: rest => held = true ∧ Proper held rest
  | held, .cleanUp _ :: rest => held = true ∧ Proper held rest

/-- The connection holds the lock. -/
def PushState.held (s : PushState) (conn : ℕ) : Bool := s.holder = some (.handler conn)

/-- The invariant: every connection does proper actions; one that is in the table is about
to clean up; the engine pushes under the lock, to connections in the table; each writer
writes what is its turn; and the sockets are in order. -/
structure Disciplined (s : PushState) : Prop where
  proper : ∀ conn, Proper (s.held conn) (s.todo conn)
  closing : ∀ name sid conn, (sid, conn) ∈ s.table name → Closing sid (s.todo conn)
  engineHolds : s.pushes ≠ [] → s.holder = some .engine
  pushed : ∀ p ∈ s.pushes, ∃ name sid, (sid, p.1) ∈ s.table name
  handlerWrites : ∀ conn, (s.socket conn).writing .handler ≠ none →
    ∃ r rest, s.todo conn = .write r :: rest
  engineWrites : ∀ conn, (s.socket conn).writing .engine ≠ none →
    ∃ r rest, s.pushes = (conn, r) :: rest
  ordered : ∀ conn, Ordered (s.socket conn)

theorem disciplined_new : Disciplined .new where
  proper _ := rfl
  closing _ _ _ h := nomatch h
  engineHolds h := absurd rfl h
  pushed _ h := nomatch h
  handlerWrites _ h := absurd rfl h
  engineWrites _ h := absurd rfl h
  ordered _ := ordered_new .handler

/-! ### The actions are proper -/

theorem proper_cleanUpActions (session : Option SessionInfo) :
    Proper false (cleanUpActions session) := by
  cases session with
  | none => rfl
  | some s => exact ⟨rfl, rfl, rfl, rfl⟩

theorem Proper.writes {actions : List Action} (h : Proper false actions)
    (responses : List Response) : Proper false (responses.map .write ++ actions) := by
  induction responses with
  | nil => exact h
  | cons r responses ih => exact ih

variable {srv : IpcServer P E}

/-- A branch that subscribes is one of a session. -/
theorem session_of_served {env : Env} {conn : ℕ} {c : Connection} {e : E} {subs : Subscriptions}
    {frame : Frame} {response : Response} {e' : E} {subs' : Subscriptions}
    (hserved : handleMethod srv env conn c e subs frame = .ok (.served response e' subs'))
    (hid : methodFromU8 frame.methodId = some .subscribeSignal) :
    ∃ session, c.session = some session := by
  rw [handleMethod, hid] at hserved
  cases hsession : c.session with
  | some session => exact ⟨session, rfl⟩
  | none =>
      dsimp only at hserved
      rw [dispatch_noSession hsession (by decide)] at hserved
      cases hserved

theorem proper_servedActions {c : Connection} {frame : Frame} {response : Response}
    (hsession : methodFromU8 frame.methodId = some .subscribeSignal →
        ∃ session, c.session = some session) :
    Proper false (servedActions srv c frame response ++ cleanUpActions c.session) := by
  rw [servedActions]
  split
  · rename_i hid
    obtain ⟨session, hsome⟩ := hsession hid
    split
    · rw [hsome]
      exact ⟨rfl, rfl, Closing.write response, rfl, rfl, rfl, rfl, rfl⟩
    · exact proper_cleanUpActions c.session
  · exact ⟨rfl, rfl, rfl, proper_cleanUpActions c.session⟩
  · exact proper_cleanUpActions c.session

/-- The actions for a message are proper. -/
theorem proper_messageActions {env : Env} {conn : ℕ} {c c' : Connection} {e : E}
    {subs : Subscriptions} {frame : Frame} {actions : List Action}
    (h : messageActions srv env conn c e subs frame = .ok (c', actions)) :
    Proper false actions := by
  rw [messageActions] at h
  split at h
  · obtain ⟨-, rfl⟩ := Prod.mk.inj (Except.ok.inj h)
    rfl
  · obtain ⟨outcome, houtcome, hactions⟩ := map_eq_ok h
    cases outcome with
    | refused response =>
        obtain ⟨-, rfl⟩ := Prod.mk.inj hactions
        rfl
    | served response e' subs' =>
        obtain ⟨-, rfl⟩ := Prod.mk.inj hactions
        exact proper_servedActions fun hid => session_of_served houtcome hid
    | opened session responses =>
        obtain ⟨-, rfl⟩ := Prod.mk.inj hactions
        exact (proper_cleanUpActions (some session)).writes responses

/-! ### Writers keep out of each other's way -/

section Steps

variable {s t : PushState} {conn : ℕ}

theorem Disciplined.not_held (h : Disciplined s) (hpushes : s.pushes ≠ []) (conn : ℕ) :
    s.held conn = false := by
  rw [PushState.held, h.engineHolds hpushes]
  rfl

/-- While the engine pushes to a connection, the connection waits for the lock. -/
theorem Disciplined.waits (h : Disciplined s) {r : Response} {rest : List (ℕ × Response)}
    (hpushes : s.pushes = (conn, r) :: rest) :
    ∃ sid, s.todo conn = [.lock, .cleanUp sid, .unlock] := by
  have hne : s.pushes ≠ [] := by
    rw [hpushes]
    exact List.cons_ne_nil _ _
  have hproper := h.proper conn
  rw [h.not_held hne conn] at hproper
  obtain ⟨name, sid, hentry⟩ := h.pushed (conn, r) (by rw [hpushes]; exact List.mem_cons_self)
  have hclosing := h.closing name sid conn hentry
  refine ⟨sid, ?_⟩
  generalize s.todo conn = todo at hproper hclosing
  cases hclosing with
  | write r => exact absurd hproper.1 Bool.false_ne_true
  | unlock => exact absurd hproper.1 Bool.false_ne_true
  | lock => rfl
  | cleanUp => exact absurd hproper.1 Bool.false_ne_true

variable {rest : List Action}

/-- A connection that writes is not pushed to. -/
theorem Disciplined.engine_idle (h : Disciplined s) {r : Response}
    (htodo : s.todo conn = .write r :: rest) : (s.socket conn).writing .engine = none := by
  by_contra hwriting
  obtain ⟨r', pushes, hpushes⟩ := h.engineWrites conn hwriting
  obtain ⟨sid, hwaits⟩ := h.waits hpushes
  rw [htodo] at hwaits
  cases hwaits

/-- A connection that is pushed to does not write. -/
theorem Disciplined.handler_idle (h : Disciplined s) {r : Response}
    {rest : List (ℕ × Response)} (hpushes : s.pushes = (conn, r) :: rest) :
    (s.socket conn).writing .handler = none := by
  by_contra hwriting
  obtain ⟨r', actions, htodo⟩ := h.handlerWrites conn hwriting
  obtain ⟨sid, hwaits⟩ := h.waits hpushes
  rw [htodo] at hwaits
  cases hwaits

variable {pipe : Pipe Writer UInt8}

theorem quiet_handler (h : pipe.writing .engine = none) : Quiet pipe .handler := by
  intro other hother c hc
  cases other with
  | handler => exact absurd rfl hother
  | engine => rw [h] at hc; cases hc

theorem quiet_engine (h : pipe.writing .handler = none) : Quiet pipe .engine := by
  intro other hother c hc
  cases other with
  | engine => exact absurd rfl hother
  | handler => rw [h] at hc; cases hc

/-! ### One step -/

/-- The socket of a connection replaced by one that is in order. -/
theorem Disciplined.setSocket (h : Disciplined s) (hordered : Ordered pipe)
    (hhandler : pipe.writing .handler ≠ none → ∃ r rest, s.todo conn = .write r :: rest)
    (hengine : pipe.writing .engine ≠ none → ∃ r rest, s.pushes = (conn, r) :: rest) :
    Disciplined { s with socket := Function.update s.socket conn pipe } where
  proper := h.proper
  closing := h.closing
  engineHolds := h.engineHolds
  pushed := h.pushed
  handlerWrites c := by
    dsimp only
    by_cases hc : c = conn
    · subst hc
      rw [Function.update_self]
      exact hhandler
    · rw [Function.update_of_ne hc]
      exact h.handlerWrites c
  engineWrites c := by
    dsimp only
    by_cases hc : c = conn
    · subst hc
      rw [Function.update_self]
      exact hengine
    · rw [Function.update_of_ne hc]
      exact h.engineWrites c
  ordered c := by
    dsimp only
    by_cases hc : c = conn
    · subst hc
      rw [Function.update_self]
      exact hordered
    · rw [Function.update_of_ne hc]
      exact h.ordered c

/-- The connections do not count. -/
theorem Disciplined.setConnections (h : Disciplined s) (connections : ℕ → Option Connection)
    (accepted : ℕ) :
    Disciplined { s with connections := connections, accepted := accepted } :=
  ⟨h.proper, h.closing, h.engineHolds, h.pushed, h.handlerWrites, h.engineWrites, h.ordered⟩

/-- A connection that has other actions to do, and with them another table and another
holder of the lock. -/
theorem Disciplined.setTodo (h : Disciplined s) {holder : Option Thread} {table : Subscriptions}
    (hproper : Proper (decide (holder = some (.handler conn))) rest)
    (hothers : ∀ c, c ≠ conn → (holder = some (.handler c) ↔ s.holder = some (.handler c)))
    (hclosing : ∀ name sid c, (sid, c) ∈ table name →
        Closing sid (Function.update s.todo conn rest c))
    (hpushes : s.pushes = [] ∨ (holder = s.holder ∧ table = s.table))
    (hidle : (s.socket conn).writing .handler = none) :
    Disciplined { s with
      holder := holder, table := table, todo := Function.update s.todo conn rest } where
  proper c := by
    dsimp only [PushState.held]
    by_cases hc : c = conn
    · subst hc
      rw [Function.update_self]
      exact hproper
    · rw [Function.update_of_ne hc, decide_eq_decide.mpr (hothers c hc)]
      exact h.proper c
  closing := hclosing
  engineHolds hne := by
    obtain hnil | ⟨rfl, -⟩ := hpushes
    · exact absurd hnil hne
    · exact h.engineHolds hne
  pushed p hp := by
    obtain hnil | ⟨-, rfl⟩ := hpushes
    · rw [hnil] at hp
      cases hp
    · exact h.pushed p hp
  handlerWrites c hwriting := by
    by_cases hc : c = conn
    · subst hc
      exact absurd hidle hwriting
    · dsimp only
      rw [Function.update_of_ne hc]
      exact h.handlerWrites c hwriting
  engineWrites := h.engineWrites
  ordered := h.ordered

/-- A writer that hands over a frame. -/
theorem Disciplined.beginWrite (h : Disciplined s) {w : Writer} {r : Response}
    (hhandler : w = .handler → ∃ rest, s.todo conn = .write r :: rest)
    (hengine : w = .engine → ∃ rest, s.pushes = (conn, r) :: rest)
    (hbegin : beginWrite P s conn w r = some t) : Disciplined t := by
  rw [Ipc.beginWrite] at hbegin
  split at hbegin
  · rename_i bytes hidle hbytes
    obtain rfl := Option.some.inj hbegin
    refine h.setSocket ((h.ordered conn).begin hidle bytes) (fun hwriting => ?_)
      fun hwriting => ?_
    · cases w with
      | handler =>
          obtain ⟨rest, htodo⟩ := hhandler rfl
          exact ⟨r, rest, htodo⟩
      | engine =>
          rw [writing_begin (by decide)] at hwriting
          exact h.handlerWrites conn hwriting
    · cases w with
      | engine =>
          obtain ⟨rest, hpushes⟩ := hengine rfl
          exact ⟨r, rest, hpushes⟩
      | handler =>
          rw [writing_begin (by decide)] at hwriting
          exact h.engineWrites conn hwriting
  · cases hbegin

/-- A connection that is not in the table: its actions do not begin with those of the
clean-up. -/
theorem Disciplined.not_listed (h : Disciplined s)
    (hclosing : ∀ sid, ¬ Closing sid (s.todo conn)) {name : String} {sid : UInt64} {c : ℕ}
    (hentry : (sid, c) ∈ s.table name) : c ≠ conn := by
  rintro rfl
  exact hclosing sid (h.closing name sid c hentry)

/-- The thread of a connection holds the lock if its actions say so; then the engine has
nothing to push. -/
theorem Disciplined.holder_eq (h : Disciplined s) (hheld : s.held conn = true) :
    s.holder = some (.handler conn) ∧ s.pushes = [] := by
  have hholder : s.holder = some (.handler conn) := of_decide_eq_true hheld
  refine ⟨hholder, ?_⟩
  by_contra hne
  rw [h.engineHolds hne] at hholder
  cases hholder

/-- The thread of a connection that does not write has no call that goes on. -/
theorem Disciplined.idle (h : Disciplined s) (hwrite : ∀ r rest, s.todo conn ≠ .write r :: rest) :
    (s.socket conn).writing .handler = none := by
  by_contra hwriting
  obtain ⟨r, rest, htodo⟩ := h.handlerWrites conn hwriting
  exact hwrite r rest htodo

/-- A handler whose next action is another one than a write does not hold the socket. -/
theorem Disciplined.idle_of_head (h : Disciplined s) {action : Action}
    (htodo : s.todo conn = action :: rest) (haction : ∀ r, action ≠ .write r) :
    (s.socket conn).writing .handler = none := by
  refine h.idle fun r rest' hr => ?_
  rw [htodo] at hr
  exact haction r (List.cons.inj hr).1

/-- Entries of the table that are those of another connection are closing as before. -/
theorem Disciplined.closing_of_ne (h : Disciplined s) {name : String} {sid : UInt64} {c : ℕ}
    (hc : c ≠ conn) (hentry : (sid, c) ∈ s.table name) :
    Closing sid (Function.update s.todo conn rest c) := by
  rw [Function.update_of_ne hc]
  exact h.closing name sid c hentry

/-- The next action of the thread of a connection. -/
theorem Disciplined.act (h : Disciplined s) (hact : act P s conn = some t) : Disciplined t := by
  rw [Ipc.act] at hact
  have hproper := h.proper conn
  cases htodo : s.todo conn with
  | nil => rw [htodo] at hact; cases hact
  | cons action rest =>
      rw [htodo] at hact hproper
      cases action with
      | write r =>
          exact h.beginWrite (w := .handler) (fun _ => ⟨rest, htodo⟩) nofun hact
      | lock =>
          have hidle := h.idle_of_head htodo nofun
          dsimp only at hact
          split at hact
          · rename_i hfree
            obtain rfl := Option.some.inj hact
            have hnil : s.pushes = [] := by
              by_contra hne
              rw [h.engineHolds hne] at hfree
              cases hfree
            refine h.setTodo (by rw [decide_eq_true rfl]; exact hproper.2) (fun c hc => ?_)
              (fun name sid c hentry => ?_) (Or.inl hnil) hidle
            · rw [hfree]
              constructor
              · rintro ⟨⟩
                exact absurd rfl hc
              · exact nofun
            · by_cases hc : c = conn
              · subst hc
                rw [Function.update_self]
                have hclosing := h.closing name sid c hentry
                rw [htodo] at hclosing
                cases hclosing
                exact .cleanUp
              · exact h.closing_of_ne hc hentry
          · cases hact
      | unlock =>
          have hidle := h.idle_of_head htodo nofun
          obtain ⟨hheld, hnil⟩ := h.holder_eq hproper.1
          obtain rfl := Option.some.inj hact
          refine h.setTodo (by rw [decide_eq_false nofun]; exact hproper.2) (fun c hc => ?_)
            (fun name sid c hentry => ?_) (Or.inl hnil) hidle
          · rw [hheld]
            constructor
            · exact nofun
            · rintro ⟨⟩
              exact absurd rfl hc
          · by_cases hc : c = conn
            · subst hc
              rw [Function.update_self]
              have hclosing := h.closing name sid c hentry
              rw [htodo] at hclosing
              cases hclosing
              exact .lock
            · exact h.closing_of_ne hc hentry
      | subscribe name sid =>
          have hidle := h.idle_of_head htodo nofun
          obtain ⟨-, hnil⟩ := h.holder_eq hproper.1
          obtain rfl := Option.some.inj hact
          refine h.setTodo hproper.2.2 (fun _ _ => Iff.rfl)
            (fun other sid' c hentry => ?_) (Or.inl hnil) hidle
          -- the connection was not in the table before
          have hold : (sid', c) ∈ s.table other →
              Closing sid' (Function.update s.todo conn rest c) := fun hentry =>
            h.closing_of_ne (h.not_listed (by rw [htodo]; exact nofun) hentry) hentry
          by_cases hname : other = name
          · rw [hname, Function.update_self] at hentry
            rcases List.mem_append.mp hentry with hentry | hentry
            · exact hold (hname ▸ hentry)
            · obtain ⟨rfl, rfl⟩ := Prod.mk.inj (List.mem_singleton.mp hentry)
              rw [Function.update_self]
              exact hproper.2.1
          · rw [Function.update_of_ne hname] at hentry
            exact hold hentry
      | unsubscribe name sid =>
          have hidle := h.idle_of_head htodo nofun
          obtain ⟨-, hnil⟩ := h.holder_eq hproper.1
          obtain rfl := Option.some.inj hact
          refine h.setTodo hproper.2 (fun _ _ => Iff.rfl) (fun other sid' c hentry => ?_)
            (Or.inl hnil) hidle
          have hold : (sid', c) ∈ s.table other := by
            by_cases hname : other = name
            · rw [hname, Function.update_self] at hentry
              rw [hname]
              exact (List.mem_filter.mp hentry).1
            · rw [Function.update_of_ne hname] at hentry
              exact hentry
          exact h.closing_of_ne (h.not_listed (by rw [htodo]; exact nofun) hold) hold
      | cleanUp sid =>
          have hidle := h.idle_of_head htodo nofun
          obtain ⟨-, hnil⟩ := h.holder_eq hproper.1
          obtain rfl := Option.some.inj hact
          refine h.setTodo hproper.2 (fun _ _ => Iff.rfl) (fun name sid' c hentry => ?_)
            (Or.inl hnil) hidle
          obtain ⟨hold, hsid⟩ := List.mem_filter.mp hentry
          by_cases hc : c = conn
          · subst hc
            have hclosing := h.closing name sid' c hold
            rw [htodo] at hclosing
            cases hclosing
            exact absurd rfl (of_decide_eq_true hsid)
          · exact h.closing_of_ne hc hold

/-- The thread of a connection goes on with its write. -/
theorem Disciplined.goOn (h : Disciplined s) {n : ℕ} (hgo : goOn s conn n = some t) :
    Disciplined t := by
  rw [Ipc.goOn] at hgo
  split at hgo
  · rename_i r rest htodo
    obtain ⟨pipe, hwrite, rfl⟩ := Option.map_eq_some_iff.mp hgo
    have hengine := h.engine_idle htodo
    have hengine' : pipe.writing .engine = none := by
      rw [writing_write (by decide) hwrite, hengine]
    have hset : Disciplined { s with socket := Function.update s.socket conn pipe } :=
      h.setSocket ((h.ordered conn).write (quiet_handler hengine) hwrite)
        (fun _ => ⟨r, rest, htodo⟩) fun hwriting => absurd hengine' hwriting
    cases hdone : (pipe.writing .handler).isNone with
    | false => exact hset
    | true =>
        have hproper := h.proper conn
        rw [htodo] at hproper
        refine hset.setTodo hproper (fun _ _ => Iff.rfl) (fun name sid c hentry => ?_)
          (Or.inr ⟨rfl, rfl⟩) ?_
        · by_cases hc : c = conn
          · subst hc
            rw [Function.update_self]
            have hclosing := h.closing name sid c hentry
            rw [htodo] at hclosing
            cases hclosing
            exact .unlock
          · exact hset.closing_of_ne hc hentry
        · dsimp only
          rw [Function.update_self]
          exact Option.isNone_iff_eq_none.mp hdone
  · cases hgo

/-- The engine goes on with its push. -/
theorem Disciplined.goOnPush (h : Disciplined s) {n : ℕ} (hgo : goOnPush s n = some t) :
    Disciplined t := by
  rw [Ipc.goOnPush] at hgo
  split at hgo
  · rename_i conn r rest hpushes
    obtain ⟨pipe, hwrite, rfl⟩ := Option.map_eq_some_iff.mp hgo
    have hhandler := h.handler_idle hpushes
    have hhandler' : pipe.writing .handler = none := by
      rw [writing_write (by decide) hwrite, hhandler]
    have hset : Disciplined { s with socket := Function.update s.socket conn pipe } :=
      h.setSocket ((h.ordered conn).write (quiet_engine hhandler) hwrite)
        (fun hwriting => absurd hhandler' hwriting) fun _ => ⟨r, rest, hpushes⟩
    cases hdone : (pipe.writing .engine).isNone with
    | false => exact hset
    | true =>
        have hholder := h.engineHolds (by rw [hpushes]; exact List.cons_ne_nil _ _)
        refine ⟨hset.proper, hset.closing, fun _ => hholder, fun p hp => ?_,
          hset.handlerWrites, fun c hwriting => ?_, hset.ordered⟩
        · exact h.pushed p (by rw [hpushes]; exact List.mem_cons_of_mem _ hp)
        · -- the engine writes to no other socket, and has just finished with this one
          by_cases hc : c = conn
          · subst hc
            dsimp only at hwriting
            rw [Function.update_self] at hwriting
            exact absurd (Option.isNone_iff_eq_none.mp hdone) hwriting
          · dsimp only at hwriting
            rw [Function.update_of_ne hc] at hwriting
            obtain ⟨r', rest', hpushes'⟩ := h.engineWrites c hwriting
            rw [hpushes] at hpushes'
            cases hpushes'
            exact absurd rfl hc
  · cases hgo

/-- The pushes of a cycle are to connections in the table. -/
theorem mem_cyclePushes {json : HalValue P → String} {table : Subscriptions}
    {order : List String} {snapshot : String → Option (HalValue P)} {p : ℕ × Response}
    (h : p ∈ cyclePushes json table order snapshot) : ∃ name sid, (sid, p.1) ∈ table name := by
  obtain ⟨name, -, hp⟩ := List.mem_flatMap.mp h
  cases hvalue : snapshot name with
  | none => rw [hvalue] at hp; cases hp
  | some value =>
      rw [hvalue] at hp
      obtain ⟨⟨sid, conn⟩, hmem, rfl⟩ := List.mem_map.mp hp
      exact ⟨name, sid, hmem⟩

/-- Every step keeps the invariant. -/
theorem Disciplined.step {srv : IpcServer P E} {json : HalValue P → String}
    {e : PushEvent P E} (h : Disciplined s) (hstep : pushStep srv json s e = some t) :
    Disciplined t := by
  cases e with
  | accept =>
      obtain rfl := Option.some.inj hstep
      exact h.setConnections _ _
  | message conn env frame engine =>
      rw [pushStep] at hstep
      split at hstep
      · rename_i c hc htodo
        split at hstep
        · obtain rfl := Option.some.inj hstep
          exact h.setConnections _ _
        · rename_i c' actions hactions
          obtain rfl := Option.some.inj hstep
          have hnone : s.held conn = false := by
            have hproper := h.proper conn
            rw [htodo] at hproper
            exact hproper
          have hproper : Proper (s.held conn) actions := by
            rw [hnone]
            exact proper_messageActions hactions
          have hclosing : ∀ name sid c, (sid, c) ∈ s.table name →
              Closing sid (Function.update s.todo conn actions c) := fun name sid c hentry =>
            h.closing_of_ne (h.not_listed (by rw [htodo]; exact nofun) hentry) hentry
          have hset := h.setTodo hproper (fun _ _ => Iff.rfl) hclosing
            (Or.inr ⟨rfl, rfl⟩) (h.idle (by rw [htodo]; exact nofun))
          exact hset.setConnections _ _
      · cases hstep
  | act conn => exact h.act hstep
  | write conn n => exact h.goOn hstep
  | disconnect conn =>
      rw [pushStep] at hstep
      split at hstep
      · obtain rfl := Option.some.inj hstep
        exact h.setConnections _ _
      · cases hstep
  | lock order snapshot =>
      rw [pushStep] at hstep
      split at hstep
      · rename_i hfree
        obtain rfl := Option.some.inj hstep
        refine ⟨fun conn => ?_, h.closing, fun _ => rfl, fun p hp => mem_cyclePushes hp,
          h.handlerWrites, fun conn hwriting => ?_, h.ordered⟩
        · have hproper := h.proper conn
          rw [PushState.held, hfree] at hproper
          exact hproper
        · obtain ⟨r, rest, hpushes⟩ := h.engineWrites conn hwriting
          have hholder := h.engineHolds (by rw [hpushes]; exact List.cons_ne_nil _ _)
          rw [hfree] at hholder
          cases hholder
      · cases hstep
  | beginPush =>
      rw [pushStep] at hstep
      split at hstep
      · rename_i conn r rest hpushes
        exact h.beginWrite (w := .engine) nofun (fun _ => ⟨rest, hpushes⟩) hstep
      · cases hstep
  | writePush n => exact h.goOnPush hstep
  | unlock =>
      rw [pushStep] at hstep
      split at hstep
      · rename_i hdone
        obtain rfl := Option.some.inj hstep
        refine ⟨fun conn => ?_, h.closing, fun hne => absurd hdone.2 hne, h.pushed,
          h.handlerWrites, h.engineWrites, h.ordered⟩
        have hproper := h.proper conn
        rw [PushState.held, hdone.1] at hproper
        exact hproper
      · cases hstep

end Steps

/-- In every interleaving of the connections and the engine, piece by piece, what has
arrived at each client is whole frames, and the beginning of at most one. -/
theorem frames_whole (srv : IpcServer P E) (json : HalValue P → String)
    (es : List (PushEvent P E)) :
    EveryStep (pushStep srv json)
      (fun s e => ∀ t, pushStep srv json s e = some t → ∀ conn, Whole (t.socket conn))
      .new es :=
  EveryStep.of_invariant (fun _ _ _ h hstep => Disciplined.step h hstep)
    (fun _ _ h _ hstep conn => ((Disciplined.step h hstep).ordered conn).whole)
    disciplined_new es

end Ipc

end Weftik
