import Weftik.Executor
import Weftik.Ipc.Codec

/-!
# The IPC Server

One thread serves one connection: it reads a frame, checks the session token if there is a
session, and dispatches on the method. Every branch writes its own response. What the
engine does is a parameter here, and so are the signature function, the clock, the
credentials of the peer and the texts of the standard library; the server is a function of
these and of the frame.

## Main definitions

* `Ipc.Role`, `Ipc.SessionInfo`, `Ipc.Frame`, `Ipc.Response`: what goes over the wire.
* `Ipc.buildWireToken`, `Ipc.verifyWireToken`: the session token.
* `Ipc.Engine`, `Ipc.IpcServer`: what the server calls.
* `Ipc.handleAuth`, `Ipc.dispatch`, `Ipc.handleMessage`: one message.
-/

namespace Weftik

open HalValue

namespace Ipc

variable {P : Platform}

/-! ### Roles and methods -/

/-- The roles of clients. -/
inductive Role
  | operator | engineer | supervisor | auditor | hmi | system
  deriving DecidableEq, Repr

/-- The byte of a role. -/
def roleToU8 : Role → UInt8
  | .operator => 0
  | .engineer => 1
  | .supervisor => 2
  | .auditor => 3
  | .hmi => 5
  | .system => 4

/-- The role of a byte; `Hmi` has none. -/
def roleFromU8 (b : UInt8) : Option Role :=
  match b with
  | 0 => some .operator
  | 1 => some .engineer
  | 2 => some .supervisor
  | 3 => some .auditor
  | 4 => some .system
  | _ => none

/-- The name that `{:?}` prints. -/
def Role.name : Role → String
  | .operator => "Operator"
  | .engineer => "Engineer"
  | .supervisor => "Supervisor"
  | .auditor => "Auditor"
  | .hmi => "Hmi"
  | .system => "System"

/-- The users that may take a role. -/
def defaultWhitelist : Role → List ℕ
  | .supervisor => [0, 1000]
  | .engineer => [1000]
  | .operator => [1000, 1001]
  | .auditor => [1000]
  | .system => [0]
  | .hmi => []

/-- May the role change the program and the configuration? -/
def canConfig : Option Role → Bool
  | some .engineer | some .supervisor | some .system => true
  | _ => false

/-- May the role read? -/
def canRead (role : Option Role) : Bool := role.isSome

/-- May the role write signals? -/
def canWrite : Option Role → Bool
  | some .engineer | some .supervisor | some .system | some .hmi => true
  | _ => false

/-- The methods of requests. -/
inductive Method
  | authRequest | configCommand | readSignal | writeSignal | healthQuery | signalSnapshot
  | loadProgram | loadHalConfig | pause | resume | stepCycle
  | setBreakpoint | clearBreakpoint | listBreakpoints | readRegisters | debugState
  | prepareSwap | commitSwap | rollbackSwap | subscribeSignal | unsubscribeSignal
  | deployHmiLayout | getHmiLayout
  deriving DecidableEq, Repr

/-- The byte of a method. -/
def Method.id : Method → UInt8
  | .authRequest => 0x01
  | .configCommand => 0x02
  | .readSignal => 0x03
  | .writeSignal => 0x04
  | .healthQuery => 0x05
  | .signalSnapshot => 0x06
  | .loadProgram => 0x07
  | .loadHalConfig => 0x08
  | .pause => 0x09
  | .resume => 0x0A
  | .stepCycle => 0x0B
  | .setBreakpoint => 0x0C
  | .clearBreakpoint => 0x0D
  | .listBreakpoints => 0x0E
  | .readRegisters => 0x0F
  | .debugState => 0x10
  | .prepareSwap => 0x11
  | .commitSwap => 0x12
  | .rollbackSwap => 0x13
  | .subscribeSignal => 0x14
  | .unsubscribeSignal => 0x15
  | .deployHmiLayout => 0x17
  | .getHmiLayout => 0x18

/-- The methods, for the lookup by byte. -/
def Method.all : List Method :=
  [.authRequest, .configCommand, .readSignal, .writeSignal, .healthQuery, .signalSnapshot,
    .loadProgram, .loadHalConfig, .pause, .resume, .stepCycle, .setBreakpoint,
    .clearBreakpoint, .listBreakpoints, .readRegisters, .debugState, .prepareSwap,
    .commitSwap, .rollbackSwap, .subscribeSignal, .unsubscribeSignal, .deployHmiLayout,
    .getHmiLayout]

/-- The method of a byte. The byte of a push, `0x16`, is no method of a request. -/
def methodFromU8 (b : UInt8) : Option Method := Method.all.find? (·.id = b)

theorem methodFromU8_eq_some {b : UInt8} {m : Method} :
    methodFromU8 b = some m ↔ b = m.id := by
  constructor
  · intro h
    rw [methodFromU8] at h
    have hid := List.find?_some h
    exact (of_decide_eq_true hid).symm
  · rintro rfl
    cases m <;> rfl

/-! ### Frames -/

/-- A request. Its token has 64 bytes, as many as the server reads for it. -/
structure Frame where
  token : List UInt8
  methodId : UInt8
  payload : List UInt8
  deriving DecidableEq

/-- A response. -/
structure Response where
  methodId : UInt8
  status : UInt8
  payload : List UInt8
  deriving DecidableEq

def statusOk : UInt8 := 0
def statusError : UInt8 := 1

/-- A response that reports an error. -/
def buildErrorResponse (methodId : UInt8) (msg : String) : Response :=
  ⟨methodId, statusError, textBytes msg⟩

/-- A response that reports a success. -/
def buildOkResponse (methodId : UInt8) (payload : List UInt8) : Response :=
  ⟨methodId, statusOk, payload⟩

/-- Two hexadecimal digits, as `{:02x}` prints a byte. -/
def hexByte (b : UInt8) : String :=
  let digit (n : ℕ) : Char := "0123456789abcdef".toList.getD n '0'
  String.ofList [digit (b.toNat / 16), digit (b.toNat % 16)]

/-! ### Session tokens -/

/-- The part of a token that is signed: session, role and expiry. -/
def tokenBody (sessionId : UInt64) (role : UInt8) (expiresAtMs : ℕ) : List UInt8 :=
  leBytes 8 sessionId.toNat ++ [role] ++ leBytes 8 expiresAtMs

/-- The signed part that a token claims. -/
def claimedBody (token : List UInt8) : List UInt8 :=
  tokenBody (UInt64.ofNat (ofLeBytes (token.extract 0 8))) (token.getD 8 0)
    (ofLeBytes (token.extract 9 17))

/-- Layout: session id, role, expiry, signature, fifteen zeros. -/
def buildWireToken (mac : List UInt8 → List UInt8) (sessionId : UInt64) (role : UInt8)
    (expiresAtMs : ℕ) : List UInt8 :=
  tokenBody sessionId role expiresAtMs ++ mac (tokenBody sessionId role expiresAtMs) ++
    List.replicate 15 0

/-- The role of a token that has not expired and whose signature fits what it claims. The
session that it names is not compared with anything. -/
def verifyWireToken (mac : List UInt8 → List UInt8) (nowMs : ℕ) (token : List UInt8) :
    Except String UInt8 :=
  if token.length < 64 then .error "token too short"
  else if ofLeBytes (token.extract 9 17) < nowMs then .error "token expired"
  else if mac (claimedBody token) ≠ token.extract 17 49 then .error "invalid token signature"
  else .ok (token.getD 8 0)

/-- The session of a connection. -/
structure SessionInfo where
  sessionId : UInt64
  role : Role
  expiresAtMs : ℕ
  deriving DecidableEq

/-- The lifetime of a token, in milliseconds. -/
def tokenTtlMs (role : Role) : ℕ := if role = .supervisor then 86400000 else 3600000

/-- The token that is issued to a session. -/
def SessionInfo.token (s : SessionInfo) (mac : List UInt8 → List UInt8) : List UInt8 :=
  buildWireToken mac s.sessionId (roleToU8 s.role) s.expiresAtMs

/-! ### What the server calls -/

/-- The operations of the engine and of its middleware that the server calls, over an
engine state. Errors are their texts. -/
structure Engine (P : Platform) (E : Type) where
  queueConfig : E → String → List UInt8 → E × Except String Unit
  readSignal : E → String → Except String (Option (HalValue P))
  publishSignal : E → String → HalValue P → ℕ → E × Except String Unit
  snapshotSignals : E → String → Except String (List (String × HalValue P))
  healthText : E → String
  loadHalProgram : E → List UInt8 → E × Except String Unit
  pause : E → E
  resume : E → E
  stepCycle : E → E
  isPaused : E → Bool
  executor : E → Option (Executor P)
  setExecutor : E → Executor P → E
  prepareSwap : E → List UInt8 → E × Except String Unit
  commitSwap : E → E × Except String Unit
  rollbackSwap : E → E × Except String Unit
  deployHmiLayout : E → List UInt8 → E × Except String UInt64
  getHmiLayout : E → Option (List UInt8 × UInt64)

/-- What does not change while the server runs: the engine's operations, the signature
function with the server's secret, the users of each role, and the texts that the standard
library makes (lossy UTF-8 decoding, UTF-8 errors, `{:?}` of a value). -/
structure IpcServer (P : Platform) (E : Type) where
  engine : Engine P E
  mac : List UInt8 → List UInt8
  whitelist : Role → List ℕ
  lossy : List UInt8 → String
  utf8Error : List UInt8 → String
  debugText : HalValue P → String

/-- What the operating system answers while one message is handled: the time at the check
of the token, at the check of the session and at the operation, the process and the user
of the peer, and the result of duplicating the stream. -/
structure Env where
  verifyMs : ℕ
  checkMs : ℕ
  nowMs : ℕ
  peerCred : Except String (ℕ × ℕ)
  tryClone : Except String Unit

/-- The subscriptions: for each signal the sessions that are pushed its value, and the
connections whose streams they hold. The hash map has no entry where the list is empty. -/
abbrev Subscriptions := String → List (UInt64 × ℕ)

/-- What has become of a request: the handler has gone on to the next message right away,
it has come to the end of its branch, or it has opened a session. -/
inductive Outcome (E : Type)
  | refused (response : Response)
  | served (response : Response) (engine : E) (subscriptions : Subscriptions)
  | opened (session : SessionInfo) (responses : List Response)

variable {E : Type}

/-! ### Authentication -/

/-- An authentication request: the session that is opened and the response that is written,
or the response of the check that fails. -/
def handleAuth (srv : IpcServer P E) (env : Env) (nextSid : UInt64) (payload : List UInt8) :
    Except Response (SessionInfo × Response) :=
  let refuse (msg : String) : Except Response (SessionInfo × Response) :=
    .error (buildErrorResponse Method.authRequest.id msg)
  if payload.length < 5 then refuse "need 5 bytes (pid + role)"
  else
    let clientPid := ofLeBytes (payload.take 4)
    let roleByte := payload.getD 4 0
    match roleFromU8 roleByte with
    | none => refuse ("unknown role byte: " ++ toString roleByte.toNat)
    | some role =>
        match env.peerCred with
        | .error e => refuse ("SO_PEERCRED: " ++ e)
        | .ok (peerPid, peerUid) =>
            if peerPid ≠ clientPid then
              refuse ("pid mismatch: claimed " ++ toString clientPid ++ ", actual " ++
                toString peerPid)
            else if peerUid ∉ srv.whitelist role then
              refuse ("uid " ++ toString peerUid ++ " not allowed for " ++ role.name)
            else
              let session : SessionInfo := ⟨nextSid, role, env.nowMs + tokenTtlMs role⟩
              .ok (session,
                buildOkResponse Method.authRequest.id (session.token srv.mac))

/-! ### Dispatch -/

/-- The branch of a method, behind the check of the role. -/
def ifAllowed (allowed : Option Role → Bool) (m : Method) (session : Option SessionInfo)
    (branch : Except Panic (Outcome E)) : Except Panic (Outcome E) :=
  if allowed (session.map SessionInfo.role) then branch
  else .ok (.refused (buildErrorResponse m.id "unauthorized"))

/-- The response to an operation without a result, with the text of its success. -/
def unitResponse (m : Method) (done : String) : Except String Unit → Response
  | .ok () => buildOkResponse m.id (textBytes done)
  | .error e => buildErrorResponse m.id e

/-- The end of a branch that has called an operation without a result. -/
def serveUnit (m : Method) (done : String) (subs : Subscriptions)
    (r : E × Except String Unit) : Except Panic (Outcome E) :=
  .ok (.served (unitResponse m done r.2) r.1 subs)

/-- The snapshot of some signals: their number, and the name and the value of each. -/
def snapshotBytes (signals : List (String × HalValue P)) : List UInt8 :=
  leBytes 2 signals.length ++
    signals.flatMap fun s =>
      leBytes 2 (textBytes s.1).length ++ textBytes s.1 ++ encodeHalValue s.2

/-- The address of a breakpoint request, big-endian. -/
def breakpointIp (payload : List UInt8) : ℕ := ofLeBytes (payload.take 4).reverse

/-- A list as `{:?}` prints it. -/
def debugList (l : List ℕ) : String :=
  "[" ++ String.intercalate ", " (l.map toString) ++ "]"

/-- The state of the debugger, as JSON. -/
def debugStateText (executor : Option (Executor P)) (paused : Bool) : String :=
  let debugMode := (executor.map fun e => e.debugState.debugMode).getD false
  let breakpoints := (executor.map Executor.listBreakpoints).getD []
  let traceLen := (executor.map fun e => e.debugState.traceBuffer.length).getD 0
  "\x7b\"debug_mode\":" ++ toString debugMode ++ ",\"paused\":" ++ toString paused ++
    ",\"breakpoints\":" ++ debugList breakpoints ++ ",\"trace_len\":" ++ toString traceLen ++
    "\x7d"

/-- A request to set or to clear a breakpoint. -/
def breakpointRequest (srv : IpcServer P E) (m : Method)
    (change : Executor P → ℕ → Executor P) (e : E) (subs : Subscriptions)
    (payload : List UInt8) : Except Panic (Outcome E) :=
  if payload.length < 4 then .ok (.refused (buildErrorResponse m.id "need 4 bytes IP"))
  else
    match srv.engine.executor e with
    | some executor =>
        .ok (.served (buildOkResponse m.id (textBytes "ok"))
          (srv.engine.setExecutor e (change executor (breakpointIp payload))) subs)
    | none => .ok (.served (buildErrorResponse m.id "no program loaded") e subs)

/-- A request to write a signal: the length of the name, the name, the value. -/
def writeSignalRequest (srv : IpcServer P E) (env : Env) (e : E) (subs : Subscriptions)
    (payload : List UInt8) : Except Panic (Outcome E) :=
  let m := Method.writeSignal
  if payload.length < 2 then .ok (.refused (buildErrorResponse m.id "payload too short"))
  else
    let nameLen := ofLeBytes (payload.take 2)
    if payload.length < 2 + nameLen then
      .ok (.refused (buildErrorResponse m.id "payload truncated"))
    else
      match decodeHalValue srv.utf8Error (payload.drop (2 + nameLen)) with
      | .error text => .ok (.refused (buildErrorResponse m.id text))
      | .ok (value, _) =>
          serveUnit m "ok" subs
            (srv.engine.publishSignal e (srv.lossy (payload.extract 2 (2 + nameLen))) value
              env.nowMs)

/-- A request to read a register. An index outside the register file panics. -/
def readRegistersRequest (srv : IpcServer P E) (e : E) (subs : Subscriptions)
    (payload : List UInt8) : Except Panic (Outcome E) :=
  let m := Method.readRegisters
  match payload with
  | [] => .ok (.refused (buildErrorResponse m.id "need register index"))
  | idx :: _ =>
      match srv.engine.executor e with
      | none => .ok (.refused (buildErrorResponse m.id "no program loaded"))
      | some executor => do
          let value ← executor.vm.readRegister idx.toNat
          let text := "r" ++ toString idx.toNat ++ "=" ++ srv.debugText value
          pure (.served (buildOkResponse m.id (textBytes text)) e subs)

/-- A request to subscribe the connection to a signal. -/
def subscribeRequest (srv : IpcServer P E) (env : Env) (conn : ℕ)
    (session : Option SessionInfo) (e : E) (subs : Subscriptions) (payload : List UInt8) :
    Except Panic (Outcome E) :=
  let m := Method.subscribeSignal
  let sid := (session.map SessionInfo.sessionId).getD 0
  let name := srv.lossy payload
  if name = "" then .ok (.refused (buildErrorResponse m.id "empty signal name"))
  else
    match env.tryClone with
    | .ok () =>
        .ok (.served (buildOkResponse m.id (textBytes "subscribed")) e
          (Function.update subs name (subs name ++ [(sid, conn)])))
    | .error text => .ok (.served (buildErrorResponse m.id text) e subs)

/-- A request to end the subscriptions of the session to a signal. -/
def unsubscribeRequest (srv : IpcServer P E) (session : Option SessionInfo) (e : E)
    (subs : Subscriptions) (payload : List UInt8) : Except Panic (Outcome E) :=
  let m := Method.unsubscribeSignal
  let sid := (session.map SessionInfo.sessionId).getD 0
  let name := srv.lossy payload
  if name = "" then .ok (.refused (buildErrorResponse m.id "empty signal name"))
  else
    .ok (.served (buildOkResponse m.id (textBytes "unsubscribed")) e
      (Function.update subs name ((subs name).filter (·.1 ≠ sid))))

/-- The state of a connection: its session, and the number of its next session. -/
structure Connection where
  session : Option SessionInfo
  nextSid : UInt64
  deriving DecidableEq

/-- A connection that has just been accepted. -/
def Connection.new : Connection := ⟨none, 1⟩

/-- An authentication request. `handleAuth` has written the token when it returns, and the
loop writes it a second time. -/
def authRequest (srv : IpcServer P E) (env : Env) (nextSid : UInt64) (e : E)
    (subs : Subscriptions) (payload : List UInt8) : Outcome E :=
  match handleAuth srv env nextSid payload with
  | .error response => .served response e subs
  | .ok (session, response) =>
      .opened session
        [response, buildOkResponse Method.authRequest.id (session.token srv.mac)]

/-- The branches of the methods, after the check of the token. -/
def dispatch (srv : IpcServer P E) (env : Env) (conn : ℕ) (c : Connection) (e : E)
    (subs : Subscriptions) (m : Method) (payload : List UInt8) : Except Panic (Outcome E) :=
  let eng := srv.engine
  let session := c.session
  match m with
  | .authRequest => .ok (authRequest srv env c.nextSid e subs payload)
  | .configCommand =>
      ifAllowed canConfig m session
        (serveUnit m "queued" subs (eng.queueConfig e "configureComponent" payload))
  | .readSignal =>
      ifAllowed canRead m session
        (.ok (.served
          (match eng.readSignal e (srv.lossy payload) with
            | .ok (some value) => buildOkResponse m.id (encodeHalValue value)
            | .ok none => buildErrorResponse m.id "signal not found"
            | .error text => buildErrorResponse m.id text) e subs))
  | .writeSignal =>
      ifAllowed canWrite m session (writeSignalRequest srv env e subs payload)
  | .healthQuery =>
      ifAllowed canRead m session
        (.ok (.served (buildOkResponse m.id (textBytes (eng.healthText e))) e subs))
  | .signalSnapshot =>
      ifAllowed canRead m session
        (.ok (.served
          (match eng.snapshotSignals e (srv.lossy payload) with
            | .ok signals => buildOkResponse m.id (snapshotBytes signals)
            | .error text => buildErrorResponse m.id text) e subs))
  | .loadProgram =>
      ifAllowed canConfig m session
        (serveUnit m "loaded" subs (eng.loadHalProgram e payload))
  | .loadHalConfig =>
      ifAllowed canConfig m session
        (serveUnit m "queued" subs (eng.queueConfig e "loadHalConfig" payload))
  | .pause =>
      ifAllowed canConfig m session (serveUnit m "paused" subs (eng.pause e, .ok ()))
  | .resume =>
      ifAllowed canConfig m session (serveUnit m "resumed" subs (eng.resume e, .ok ()))
  | .stepCycle =>
      ifAllowed canConfig m session (serveUnit m "stepped" subs (eng.stepCycle e, .ok ()))
  | .setBreakpoint =>
      ifAllowed canConfig m session
        (breakpointRequest srv m Executor.addBreakpoint e subs payload)
  | .clearBreakpoint =>
      ifAllowed canConfig m session
        (breakpointRequest srv m Executor.removeBreakpoint e subs payload)
  | .listBreakpoints =>
      ifAllowed canRead m session
        (match eng.executor e with
          | none => .ok (.refused (buildErrorResponse m.id "no program loaded"))
          | some executor =>
              let text := String.intercalate "," (executor.listBreakpoints.map toString)
              .ok (.served (buildOkResponse m.id (textBytes text)) e subs))
  | .readRegisters =>
      ifAllowed canRead m session (readRegistersRequest srv e subs payload)
  | .debugState =>
      ifAllowed canRead m session
        (.ok (.served
          (buildOkResponse m.id
            (textBytes (debugStateText (eng.executor e) (eng.isPaused e)))) e subs))
  | .prepareSwap =>
      ifAllowed canConfig m session (serveUnit m "ready" subs (eng.prepareSwap e payload))
  | .commitSwap =>
      ifAllowed canConfig m session (serveUnit m "committed" subs (eng.commitSwap e))
  | .rollbackSwap =>
      ifAllowed canConfig m session (serveUnit m "cancelled" subs (eng.rollbackSwap e))
  | .deployHmiLayout =>
      ifAllowed canConfig m session
        (if payload = [] then .ok (.refused (buildErrorResponse m.id "empty payload"))
        else
          let r := eng.deployHmiLayout e payload
          .ok (.served
            (match r.2 with
              | .ok generation => buildOkResponse m.id (leBytes 8 generation.toNat)
              | .error text => buildErrorResponse m.id text) r.1 subs))
  | .getHmiLayout =>
      ifAllowed canRead m session
        (.ok (.served
          (match eng.getHmiLayout e with
            | some (yaml, generation) =>
                buildOkResponse m.id (leBytes 8 generation.toNat ++ yaml)
            | none => buildErrorResponse m.id "no layout deployed") e subs))
  | .subscribeSignal =>
      ifAllowed canRead m session (subscribeRequest srv env conn session e subs payload)
  | .unsubscribeSignal =>
      ifAllowed canRead m session (unsubscribeRequest srv session e subs payload)

/-! ### One message -/

/-- The check of the token, on a connection with a session. A failure is the response, and
the session that is left. -/
def checkToken (srv : IpcServer P E) (env : Env) (session : Option SessionInfo)
    (frame : Frame) : Except (Response × Option SessionInfo) Unit :=
  match session with
  | none => .ok ()
  | some s =>
      if frame.methodId = Method.authRequest.id then
        .error (buildErrorResponse Method.authRequest.id "already authenticated", session)
      else
        match verifyWireToken srv.mac env.verifyMs frame.token with
        | .error text => .error (buildErrorResponse frame.methodId ("auth: " ++ text), session)
        | .ok roleByte =>
            if roleFromU8 roleByte ≠ some s.role then
              .error (buildErrorResponse frame.methodId "role mismatch", session)
            else if s.expiresAtMs < env.checkMs then
              .error (buildErrorResponse frame.methodId "token expired", none)
            else .ok ()

/-- The branch of the method that the frame names. -/
def handleMethod (srv : IpcServer P E) (env : Env) (conn : ℕ) (c : Connection) (e : E)
    (subs : Subscriptions) (frame : Frame) : Except Panic (Outcome E) :=
  match methodFromU8 frame.methodId with
  | some m => dispatch srv env conn c e subs m frame.payload
  | none =>
      .ok (.served
        (buildErrorResponse frame.methodId
          ("unknown method_id: 0x" ++ hexByte frame.methodId)) e subs)

/-- The clean-up at the end of the loop body: the subscriptions under the number of the
session are removed. -/
def cleanUp (session : Option SessionInfo) (subs : Subscriptions) : Subscriptions :=
  match session with
  | none => subs
  | some s => fun name => (subs name).filter (·.1 ≠ s.sessionId)

/-- The state after a message, and the responses that have been written. -/
structure Handled (E : Type) where
  connection : Connection
  engine : E
  subscriptions : Subscriptions
  responses : List Response

/-- The end of the loop body. A branch that has left it early passes over the clean-up. -/
def finish (c : Connection) (e : E) (subs : Subscriptions) : Outcome E → Handled E
  | .refused response => ⟨c, e, subs, [response]⟩
  | .served response e' subs' => ⟨c, e', cleanUp c.session subs', [response]⟩
  | .opened session responses =>
      ⟨⟨some session, c.nextSid + 1⟩, e, cleanUp (some session) subs, responses⟩

/-- One message on a connection. A panic ends the thread of the connection. -/
def handleMessage (srv : IpcServer P E) (env : Env) (conn : ℕ) (c : Connection) (e : E)
    (subs : Subscriptions) (frame : Frame) : Except Panic (Handled E) :=
  match checkToken srv env c.session frame with
  | .error (response, session) => .ok ⟨⟨session, c.nextSid⟩, e, subs, [response]⟩
  | .ok () => finish c e subs <$> handleMethod srv env conn c e subs frame

/-! ### A server to run -/

/-- An engine without a program and without signals, which accepts every request. -/
def idleEngine : Engine Platform.exact Unit where
  queueConfig _ _ _ := ((), .ok ())
  readSignal _ _ := .ok none
  publishSignal _ _ _ _ := ((), .ok ())
  snapshotSignals _ _ := .ok []
  healthText _ := "Healthy"
  loadHalProgram _ _ := ((), .ok ())
  pause _ := ()
  resume _ := ()
  stepCycle _ := ()
  isPaused _ := false
  executor _ := none
  setExecutor _ _ := ()
  prepareSwap _ _ := ((), .ok ())
  commitSwap _ := ((), .error "No pending swap prepared")
  rollbackSwap _ := ((), .ok ())
  deployHmiLayout _ _ := ((), .ok 1)
  getHmiLayout _ := none

/-- A server with the default users. Its signature is fifteen ones and what it signs, and its
texts read each byte as a character. -/
def idleServer : IpcServer Platform.exact Unit where
  engine := idleEngine
  mac body := List.replicate 15 1 ++ body
  whitelist := defaultWhitelist
  lossy bytes := String.ofList (bytes.map fun b => Char.ofNat b.toNat)
  utf8Error _ := "invalid utf-8 sequence"
  debugText _ := ""

/-- The operating system at a time: the peer is process 7 of user 1000. -/
def envAt (ms : ℕ) : Env := ⟨ms, ms, ms, .ok (7, 1000), .ok ()⟩

/-- The request of process 7 to be an engineer. -/
def engineerRequest : Frame := ⟨List.replicate 64 0, Method.authRequest.id, [7, 0, 0, 0, 1]⟩

end Ipc

end Weftik
