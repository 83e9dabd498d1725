import Weftik.RunControl

/-!
# The Debug Adapter

The adapter answers the requests of a debugger (the Debug Adapter Protocol) and passes them
on to the engine through a client of the runtime. A handler returns the messages that are
sent: one response, and the events that it believes to be true. What the calls of the client
return is an input of the handler, since any of them may fail; a call that controls the
engine may also fail after the engine has done what it asks, when the answer is lost.

## Main definitions

* `Dap.Message`: the responses and the events.
* `Dap.Answers`: how the calls of the client end.
* `Dap.Session`: the adapter, and the engine behind it.
* `Dap.handle`: the answer to a request.
-/

namespace Weftik.Dap

/-! ### Messages -/

/-- A breakpoint of the answer to `setBreakpoints`. -/
structure Breakpoint where
  id : ℕ
  verified : Bool
  line : Option ℕ
  message : Option String
  deriving DecidableEq

/-- The frame of the answer to `stackTrace`; its source is `main.st`. -/
structure StackFrame where
  id : ℕ
  name : String
  line : ℕ
  column : ℕ
  ipReference : String
  deriving DecidableEq

/-- The bodies of the responses. -/
inductive Body
  | empty
  | capabilities (configDone condBp stepTargets stepBack gotoTargets : Bool)
  | allThreadsContinued
  | setBreakpoints (breakpoints : List Breakpoint)
  | threads (threads : List (ℕ × String))
  | stackTrace (frames : List StackFrame) (totalFrames : ℕ)
  | scopes (scopes : List (String × ℕ × Bool))
  | variableList (vars : List (String × String × ℕ))
  deriving DecidableEq

/-- The events that the adapter sends. -/
inductive Event
  | initialized
  | stopped (reason : String)
  | continued
  deriving DecidableEq

/-- A message to the debugger. -/
inductive Message
  | response (seq requestSeq : ℕ) (success : Bool) (command : String) (body : Option Body)
      (message : Option String)
  | event (seq : ℕ) (event : Event)
  deriving DecidableEq

/-- A request of the debugger; its arguments are a JSON value. -/
structure Request (J : Type) where
  seq : ℕ
  command : String
  arguments : Option J

/-- The arguments of `launch` and `attach`. -/
structure LaunchArguments where
  socketPath : String
  secret : String
  deriving DecidableEq

/-- What the adapter takes from the JSON library: the arguments of the two requests that
have some (of a breakpoint, the line), and the first breakpoint of a debug state. -/
structure Decoder (J : Type) where
  launchArguments : J → Option LaunchArguments
  setBreakpointsArguments : J → Option (List ℕ)
  firstBreakpoint : String → Option ℕ

/-! ### The client of the runtime -/

/-- A call that controls the engine. -/
inductive Control
  | pause | resume | stepCycle
  deriving DecidableEq

/-- The stores of a call that controls the engine. -/
def Control.stores : Control → List RunControl.Event
  | .pause => [.pause]
  | .resume => [.resume]
  | .stepCycle => [.stepPause, .stepRequest]

/-- The engine after the call. -/
def Control.perform (c : Control) (engine : RunControl.State) : RunControl.State :=
  (Transition.run RunControl.step engine c.stores).getD engine

/-- How a call that controls the engine ends. A call that is lost has been performed, and
the answer has not come back. -/
inductive Ending
  | performed
  | refused (reason : String)
  | lost (reason : String)
  deriving DecidableEq

/-- How the calls end that a request leads to; there is one call at most that controls the
engine. -/
structure Answers where
  connect : LaunchArguments → Except String Unit
  authenticate : Except String Unit
  control : Ending
  setBreakpoint : ℕ → Except String Unit
  debugState : Except String String
  readRegister : ℕ → Except String String

/-! ### The adapter -/

/-- The adapter (is there a client, and the next number) and the engine of the runtime. -/
structure Session where
  connected : Bool
  nextSeq : ℕ
  engine : RunControl.State

/-- `DebugAdapter::new`. -/
def Session.new (engine : RunControl.State) : Session := ⟨false, 1, engine⟩

/-- The handlers change the session. -/
abbrev Handler : Type → Type := StateM Session

/-- `seq`. -/
def seq : Handler ℕ := fun s => (s.nextSeq, { s with nextSeq := s.nextSeq + 1 })

/-- A call that controls the engine. -/
def call (c : Control) (ending : Ending) : Handler (Except String Unit) := fun s =>
  match ending with
  | .performed => (.ok (), { s with engine := c.perform s.engine })
  | .refused reason => (.error reason, s)
  | .lost reason => (.error reason, { s with engine := c.perform s.engine })

/-- `self.client = ...`. -/
def setConnected (connected : Bool) : Handler Unit := fun s =>
  ((), { s with connected := connected })

variable {J : Type} (dec : Decoder J) (answers : Answers) (req : Request J)

/-- `ok`. -/
def ok (body : Body) : Handler Message :=
  return .response (← seq) req.seq true req.command (some body) none

/-- `err`. -/
def err (msg : String) : Handler Message :=
  return .response (← seq) req.seq false req.command none (some msg)

/-- The handlers that need a client. -/
def withClient (body : Handler (List Message)) : Handler (List Message) := do
  if (← get).connected then body
  else return [← err req "not connected"]

/-- `handle_initialize`. -/
def handleInitialize : Handler (List Message) :=
  return [← ok req (.capabilities true false false false false)]

/-- `handle_attach`: the engine is paused, and the result of the call is not looked at. -/
def handleAttach : Handler (List Message) :=
  match req.arguments.bind dec.launchArguments with
  | none => return [← err req "invalid launch arguments"]
  | some args =>
      match answers.connect args with
      | .error e => return [← err req ("connect: " ++ e)]
      | .ok () =>
          match answers.authenticate with
          | .error e => return [← err req ("auth failed: " ++ e)]
          | .ok () => do
              let _ ← call .pause answers.control
              setConnected true
              let initialized := Message.event (← seq) .initialized
              let stopped := Message.event (← seq) (.stopped "entry")
              return [initialized, stopped, ← ok req .empty]

/-- A breakpoint of the answer, by the answer of the runtime. -/
def breakpointOf (line i : ℕ) : Breakpoint :=
  match answers.setBreakpoint (line % 2 ^ 32) with
  | .ok () => ⟨i + 1, true, some line, none⟩
  | .error e => ⟨i + 1, false, some line, some e⟩

/-- `handle_set_breakpoints`. The breakpoints that it clears before are the runtime's. -/
def handleSetBreakpoints : Handler (List Message) :=
  withClient req (match req.arguments.bind dec.setBreakpointsArguments with
    | none => return [← err req "invalid breakpoint arguments"]
    | some lines =>
        return [← ok req (.setBreakpoints (lines.mapIdx fun i line =>
          breakpointOf answers line i))])

/-- `handle_config_done`. -/
def handleConfigDone : Handler (List Message) := do
  let continued := Message.event (← seq) .continued
  return [continued, ← ok req .empty]

/-- A request that controls the engine: `prefixed` stands before the error of the call, and
the event is sent when the call succeeds. -/
def control (c : Control) (prefixed : String) (event : Event) (body : Body) :
    Handler (List Message) :=
  withClient req do
    match ← call c answers.control with
    | .error e => return [← err req (prefixed ++ e)]
    | .ok () => do
        let event := Message.event (← seq) event
        return [event, ← ok req body]

/-- `handle_continue`. -/
def handleContinue : Handler (List Message) :=
  control answers req .resume "resume: " .continued .allThreadsContinued

/-- `handle_next`. -/
def handleNext : Handler (List Message) :=
  control answers req .stepCycle "step: " (.stopped "step") .empty

/-- `handle_step_in`. -/
def handleStepIn : Handler (List Message) := handleNext answers req

/-- `handle_pause`. -/
def handlePause : Handler (List Message) :=
  control answers req .pause "pause: " (.stopped "pause") .empty

/-- `handle_threads`. -/
def handleThreads : Handler (List Message) :=
  return [← ok req (.threads [(1, "main")])]

/-- `handle_stack_trace`: one frame, at the first breakpoint. -/
def handleStackTrace : Handler (List Message) :=
  withClient req do
    let state := match answers.debugState with
      | .ok state => state
      | .error _ => ""
    let ip := (dec.firstBreakpoint state).getD 0
    let digits := String.ofList ((Nat.toDigits 16 ip).map Char.toUpper)
    return [← ok req (.stackTrace [⟨0, "ST Program", ip, 0, "0x" ++ digits⟩] 1)]

/-- `handle_scopes`. -/
def handleScopes : Handler (List Message) :=
  return [← ok req (.scopes [("Registers", 1, false)])]

/-- A variable of the answer: a register, and what follows the first equals sign of what
the runtime answers. -/
def variableOf (i : ℕ) : String × String × ℕ :=
  let val := match answers.readRegister i with
    | .ok val => val
    | .error _ => "?"
  let value := match val.toList.dropWhile (· ≠ '=') with
    | [] => val
    | _ :: value => String.ofList value
  ("r" ++ toString i, value, 0)

/-- `handle_variables`: the registers `r0` to `r13`. -/
def handleVariables : Handler (List Message) :=
  withClient req (return [← ok req (.variableList ((List.range 14).map (variableOf answers)))])

/-- `handle_disconnect`: the engine is resumed when there is a client, and the result of
the call is not looked at. -/
def handleDisconnect : Handler (List Message) := do
  if (← get).connected then
    let _ ← call .resume answers.control
  setConnected false
  return [← ok req .empty]

/-- The commands that the adapter knows. -/
inductive Command
  | initializeRequest | attach | setBreakpoints | configurationDone | continueRequest | next
  | stepIn | pause | threads | stackTrace | scopes | variablesRequest | disconnect
  | unsupported
  deriving DecidableEq, Repr

/-- The command of a request. -/
def Command.ofString (s : String) : Command :=
  match s with
  | "initialize" => .initializeRequest
  | "launch" | "attach" => .attach
  | "setBreakpoints" => .setBreakpoints
  | "configurationDone" => .configurationDone
  | "continue" => .continueRequest
  | "next" => .next
  | "stepIn" => .stepIn
  | "pause" => .pause
  | "threads" => .threads
  | "stackTrace" => .stackTrace
  | "scopes" => .scopes
  | "variables" => .variablesRequest
  | "disconnect" => .disconnect
  | _ => .unsupported

/-- `handle`. -/
def handle : Handler (List Message) :=
  match Command.ofString req.command with
  | .initializeRequest => handleInitialize req
  | .attach => handleAttach dec answers req
  | .setBreakpoints => handleSetBreakpoints dec answers req
  | .configurationDone => handleConfigDone req
  | .continueRequest => handleContinue answers req
  | .next => handleNext answers req
  | .stepIn => handleStepIn answers req
  | .pause => handlePause answers req
  | .threads => handleThreads req
  | .stackTrace => handleStackTrace dec answers req
  | .scopes => handleScopes req
  | .variablesRequest => handleVariables answers req
  | .disconnect => handleDisconnect answers req
  | .unsupported => return [← err req "unsupported command"]

end Weftik.Dap
