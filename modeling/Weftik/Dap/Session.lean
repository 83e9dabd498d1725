import Weftik.Dap.Adapter

/-!
# Debug Sessions

A debugger sends requests while the engine runs. Every request gets one response and the
numbers of the messages increase, whatever the calls of the client return. The events are
another matter: `configurationDone` says that the engine continues and does not resume it,
`attach` says that it has stopped whether the pause has succeeded or not, and `disconnect`
resumes it without a word.

## Main definitions

* `Dap.effect`: the events of a request, and what it does to the engine.
* `Dap.advance`: a session of requests and of steps of the engine.
* `Dap.Consistent`: one response, increasing numbers, events that agree with the engine.
* `Dap.Truthful`: the requests after which the events agree with the engine.

## Main results

* `Dap.handle_eq`: what a handler returns.
* `Dap.consistent_iff`: the sessions that are consistent.
-/

open Transition

namespace Weftik.Dap

variable {J : Type} (dec : Decoder J) (answers : Answers) (req : Request J)

/-! ### What a request does -/

/-- The engine after a call that ends in the given way. -/
def afterCall (c : Control) (ending : Ending) (engine : RunControl.State) : RunControl.State :=
  match ending with
  | .refused _ => engine
  | .performed | .lost _ => c.perform engine

/-- The call is refused: the engine has not done what it asks. -/
def Ending.isRefused : Ending → Bool
  | .refused _ => true
  | .performed | .lost _ => false

/-- The call is lost: the engine has done what it asks, and the adapter does not know. -/
def Ending.isLost : Ending → Bool
  | .lost _ => true
  | .performed | .refused _ => false

/-- The events of a request, and the session that it leaves apart from the numbers. -/
structure Effect where
  events : List Event
  connected : Bool
  engine : RunControl.State

/-- A request that changes nothing and has no event. -/
def Session.unchanged (s : Session) : Effect := ⟨[], s.connected, s.engine⟩

/-- The arguments of `attach` are valid, and the runtime lets the adapter in. -/
def Accepted : Prop :=
  ∃ args, req.arguments.bind dec.launchArguments = some args ∧
    answers.connect args = .ok () ∧ answers.authenticate = .ok ()

instance : Decidable (Accepted dec answers req) :=
  match hargs : req.arguments.bind dec.launchArguments, hauth : answers.authenticate with
  | none, _ => isFalse fun ⟨_, h, _⟩ => by cases hargs.symm.trans h
  | some _, .error _ => isFalse fun ⟨_, _, _, h⟩ => by cases hauth.symm.trans h
  | some args, .ok () =>
      match hconnect : answers.connect args with
      | .ok () => isTrue ⟨args, hargs, hconnect, hauth⟩
      | .error _ => isFalse fun ⟨_, h, hc, _⟩ => by
          obtain rfl := Option.some.inj (hargs.symm.trans h)
          cases hconnect.symm.trans hc

/-- The effect of a request that controls the engine. -/
def controlEffect (c : Control) (event : Event) (s : Session) : Effect :=
  if s.connected then
    ⟨if answers.control = .performed then [event] else [], true,
      afterCall c answers.control s.engine⟩
  else s.unchanged

/-- The effect of a request. -/
def effect (s : Session) : Effect :=
  match Command.ofString req.command with
  | .attach =>
      if Accepted dec answers req then
        ⟨[.initialized, .stopped "entry"], true, afterCall .pause answers.control s.engine⟩
      else s.unchanged
  | .configurationDone => ⟨[.continued], s.connected, s.engine⟩
  | .continueRequest => controlEffect answers .resume .continued s
  | .next | .stepIn => controlEffect answers .stepCycle (.stopped "step") s
  | .pause => controlEffect answers .pause (.stopped "pause") s
  | .disconnect =>
      ⟨[], false, if s.connected then afterCall .resume answers.control s.engine else s.engine⟩
  | _ => s.unchanged

/-- The response to a request. -/
def responseOf (n : ℕ) : Except String Body → Message
  | .ok body => .response n req.seq true req.command (some body) none
  | .error msg => .response n req.seq false req.command none (some msg)

/-- Some events and then the response, numbered from `n` on. -/
def reply (n : ℕ) (events : List Event) (outcome : Except String Body) : List Message :=
  events.mapIdx (fun i event => .event (n + i) event) ++
    [responseOf req (n + events.length) outcome]

/-- What a handler has done: it has sent the events of the effect and a response, and has
left the session of the effect. -/
def Replies (s : Session) (handler : Handler (List Message)) (e : Effect) : Prop :=
  ∃ outcome, handler s = (reply req s.nextSeq e.events outcome,
    ⟨e.connected, s.nextSeq + e.events.length + 1, e.engine⟩)

theorem Replies.ok (s : Session) (body : Body) :
    Replies req s (return [← ok req body]) s.unchanged :=
  ⟨.ok body, rfl⟩

theorem Replies.err (s : Session) (msg : String) :
    Replies req s (return [← err req msg]) s.unchanged :=
  ⟨.error msg, rfl⟩

theorem Replies.withClient {s : Session} {body : Handler (List Message)} {e : Effect}
    (h : s.connected = true → Replies req s body e)
    (hnone : s.connected = false → e = s.unchanged) : Replies req s (withClient req body) e := by
  cases hc : s.connected with
  | true =>
      obtain ⟨outcome, hout⟩ := h hc
      refine ⟨outcome, ?_⟩
      rw [← hout]
      change (if s.connected then body else _) s = body s
      rw [hc]
      rfl
  | false =>
      rw [hnone hc]
      refine ⟨.error "not connected", ?_⟩
      change (if s.connected then body else (do return [← Dap.err req "not connected"])) s = _
      rw [hc]
      rfl

theorem Replies.control (s : Session) (c : Control) (prefixed : String) (event : Event)
    (body : Body) :
    Replies req s (control answers req c prefixed event body)
        (controlEffect answers c event s) := by
  refine .withClient req (fun hc => ?_) (fun hc => ?_)
  · obtain ⟨connected, nextSeq, engine⟩ := s
    obtain rfl : connected = true := hc
    rw [controlEffect, if_pos rfl]
    cases hcontrol : answers.control with
    | performed => exact ⟨.ok body, rfl⟩
    | refused e => exact ⟨.error (prefixed ++ e), rfl⟩
    | lost e => exact ⟨.error (prefixed ++ e), rfl⟩
  · rw [controlEffect, if_neg (by rw [hc]; exact Bool.false_ne_true)]

theorem Replies.attach (s : Session) :
    Replies req s (handleAttach dec answers req)
      (if Accepted dec answers req then
        ⟨[.initialized, .stopped "entry"], true, afterCall .pause answers.control s.engine⟩
      else s.unchanged) := by
  rw [handleAttach]
  cases hargs : req.arguments.bind dec.launchArguments with
  | none =>
      rw [if_neg fun ⟨_, h, _⟩ => by cases hargs.symm.trans h]
      exact .err req s _
  | some args =>
      dsimp only
      cases hconnect : answers.connect args with
      | error e =>
          rw [if_neg fun ⟨_, h, hc, _⟩ => by
            obtain rfl := Option.some.inj (hargs.symm.trans h)
            cases hconnect.symm.trans hc]
          exact .err req s _
      | ok _ =>
          dsimp only
          cases hauth : answers.authenticate with
          | error e =>
              rw [if_neg fun ⟨_, _, _, h⟩ => by cases hauth.symm.trans h]
              exact .err req s _
          | ok _ =>
              rw [if_pos ⟨args, hargs, hconnect, hauth⟩]
              cases answers.control with
              | performed => exact ⟨.ok .empty, rfl⟩
              | refused _ => exact ⟨.ok .empty, rfl⟩
              | lost _ => exact ⟨.ok .empty, rfl⟩

theorem Replies.disconnect (s : Session) :
    Replies req s (handleDisconnect answers req)
      ⟨[], false,
        if s.connected then afterCall .resume answers.control s.engine else s.engine⟩ := by
  obtain ⟨connected, nextSeq, engine⟩ := s
  refine ⟨.ok .empty, ?_⟩
  rw [handleDisconnect]
  cases connected with
  | false => rfl
  | true => cases answers.control <;> rfl

/-- A handler sends the events of the request and one response, and leaves the session of
the effect. -/
theorem handle_eq (s : Session) :
    Replies req s (handle dec answers req) (effect dec answers req s) := by
  rw [handle, effect]
  cases Command.ofString req.command with
  | attach => exact .attach dec answers req s
  | configurationDone => exact ⟨.ok .empty, rfl⟩
  | continueRequest => exact .control answers req s _ _ _ _
  | next => exact .control answers req s _ _ _ _
  | stepIn => exact .control answers req s _ _ _ _
  | pause => exact .control answers req s _ _ _ _
  | disconnect => exact .disconnect answers req s
  | setBreakpoints =>
      refine .withClient req (fun _ => ?_) fun _ => rfl
      cases req.arguments.bind dec.setBreakpointsArguments with
      | none => exact .err req s _
      | some lines => exact .ok req s _
  | stackTrace => exact .withClient req (fun _ => .ok req s _) fun _ => rfl
  | variablesRequest => exact .withClient req (fun _ => .ok req s _) fun _ => rfl
  | unsupported => exact .err req s _
  | _ => exact .ok req s _

/-! ### Responses and numbers -/

/-- The number of a message. -/
def Message.seq : Message → ℕ
  | .response seq _ _ _ _ _ => seq
  | .event seq _ => seq

/-- The request that a message responds to. -/
def Message.requestSeq? : Message → Option ℕ
  | .response _ requestSeq _ _ _ _ => some requestSeq
  | .event _ _ => none

/-- What a message says about the engine: that it is paused, or that it is not. -/
def Message.paused? : Message → Option Bool
  | .event _ (.stopped _) => some true
  | .event _ .continued => some false
  | _ => none

/-- What an event says about the engine. -/
def Event.paused? : Event → Option Bool
  | .stopped _ => some true
  | .continued => some false
  | .initialized => none

theorem requestSeq?_reply (n : ℕ) (events : List Event) (outcome : Except String Body) :
    (reply req n events outcome).filterMap Message.requestSeq? = [req.seq] := by
  have hevents : (events.mapIdx fun i event => Message.event (n + i) event).filterMap
      Message.requestSeq? = [] := by
    rw [List.filterMap_eq_nil_iff]
    intro m hm
    obtain ⟨i, hi, rfl⟩ := List.mem_mapIdx.mp hm
    rfl
  rw [reply, List.filterMap_append, hevents]
  cases outcome <;> rfl

/-- The messages of a reply are numbered one after the other. -/
theorem seq_reply (n : ℕ) (events : List Event) (outcome : Except String Body) :
    (reply req n events outcome).map Message.seq = List.range' n (events.length + 1) := by
  have hlast : (responseOf req (n + events.length) outcome).seq = n + events.length := by
    cases outcome <;> rfl
  have hevents : (events.mapIdx fun i event => Message.event (n + i) event).map Message.seq =
      List.range' n events.length := by
    refine List.ext_getElem (by simp) fun i _ _ => ?_
    simp [Message.seq]
  rw [reply, List.map_append, hevents, List.map_singleton, hlast, List.range'_1_concat]

theorem paused?_reply (n : ℕ) (events : List Event) (outcome : Except String Body) :
    (reply req n events outcome).filterMap Message.paused? = events.filterMap Event.paused? := by
  have hevents : (events.mapIdx fun i event => Message.event (n + i) event).filterMap
      Message.paused? = events.filterMap Event.paused? := by
    induction events generalizing n with
    | nil => rfl
    | cons event events ih =>
        have hshift : (fun i event => Message.event (n + (i + 1)) event) =
            fun i event => Message.event (n + 1 + i) event := by
          funext i event
          rw [Nat.add_assoc, Nat.add_comm 1 i]
        rw [List.mapIdx_cons, hshift, List.filterMap_cons, List.filterMap_cons, ih (n + 1)]
        cases event <;> rfl
  rw [reply, List.filterMap_append, hevents]
  cases outcome <;> exact List.append_nil _

/-! ### Sessions -/

/-- A session so far: the adapter with the engine, and the messages that have been sent. -/
structure Dialogue where
  session : Session
  transcript : List Message

/-- A step of a session: a request, with the answers of the runtime behind it, or a step of
the engine thread. -/
inductive Input (J : Type)
  | request (answers : Answers) (req : Request J)
  | loop

/-- A session goes on. -/
def advance (d : Dialogue) : Input J → Option Dialogue
  | .request answers req =>
      some ⟨(handle dec answers req d.session).2,
        d.transcript ++ (handle dec answers req d.session).1⟩
  | .loop =>
      (RunControl.step d.session.engine .loop).map fun engine =>
        { d with session := { d.session with engine := engine } }

/-- A session begins, in front of an engine in some state. -/
def begin (engine : RunControl.State) : Dialogue := ⟨.new engine, []⟩

/-- What the last event that says something about the engine says. -/
def Dialogue.paused? (d : Dialogue) : Option Bool :=
  (d.transcript.filterMap Message.paused?).getLast?

/-- The last such event, if there is one, agrees with the engine. -/
def Dialogue.Agrees (d : Dialogue) : Prop :=
  ∀ paused, d.paused? = some paused → d.session.engine.paused = paused

/-- The session is consistent: each request gets exactly one response, the numbers of the
messages increase, and after each request the last event agrees with the engine. -/
structure Consistent (engine : RunControl.State) (inputs : List (Input J)) : Prop where
  answered : EveryStep (advance dec) (fun d i => ∀ answers req, i = .request answers req →
    (handle dec answers req d.session).1.filterMap Message.requestSeq? = [req.seq])
    (begin engine) inputs
  increasing : ∀ pre rest d, inputs = pre ++ rest → run (advance dec) (begin engine) pre = some d →
    (d.transcript.map Message.seq).Pairwise (· < ·)
  agrees : EveryStep (advance dec) (fun d i => ∀ answers req, i = .request answers req →
    ∀ d', advance dec d i = some d' → d'.Agrees) (begin engine) inputs

/-- The request is truthful in this session: `attach` pauses the engine unless it is paused,
`configurationDone` finds it going on, an answer that gets lost leaves it as it was, and
`disconnect` finds it going on or does not resume it. -/
def Truthful (s : Session) : Prop :=
  match Command.ofString req.command with
  | .attach =>
      Accepted dec answers req → answers.control.isRefused = true → s.engine.paused = true
  | .configurationDone => s.engine.paused = false
  | .continueRequest =>
      s.connected = true → answers.control.isLost = true → s.engine.paused = false
  | .next | .stepIn | .pause =>
      s.connected = true → answers.control.isLost = true → s.engine.paused = true
  | .disconnect =>
      s.connected = true → answers.control.isRefused = false → s.engine.paused = false
  | _ => True

/-! ### What a session keeps -/

/-- Does the call leave the engine paused? -/
def Control.pauses : Control → Bool
  | .pause | .stepCycle => true
  | .resume => false

theorem paused_perform (c : Control) (engine : RunControl.State) :
    (c.perform engine).paused = c.pauses := by
  cases c with
  | pause => rfl
  | resume => rfl
  | stepCycle => simp [Control.perform, Control.stores, run, RunControl.step, Control.pauses]

/-- The messages are numbered from 1 on, and a session with a client has said something
about the engine. -/
structure Kept (d : Dialogue) : Prop where
  numbers : d.transcript.map Message.seq = List.range' 1 d.transcript.length
  nextSeq : d.session.nextSeq = d.transcript.length + 1
  told : d.session.connected = true → d.paused?.isSome = true

theorem kept_begin (engine : RunControl.State) : Kept (begin engine) :=
  ⟨rfl, rfl, fun h => by cases h⟩

variable {d d' : Dialogue}

/-- The dialogue after a request, by the effect of the request. -/
theorem advance_request (h : advance dec d (.request answers req) = some d') :
    ∃ outcome, d'.transcript = d.transcript ++
        reply req d.session.nextSeq (effect dec answers req d.session).events outcome ∧
      d'.session = ⟨(effect dec answers req d.session).connected,
        d.session.nextSeq + (effect dec answers req d.session).events.length + 1,
        (effect dec answers req d.session).engine⟩ := by
  obtain ⟨outcome, hreply⟩ := handle_eq dec answers req d.session
  obtain rfl := Option.some.inj h
  exact ⟨outcome, by rw [hreply], by rw [hreply]⟩

/-- What the last event says after a request. -/
theorem paused?_advance (h : advance dec d (.request answers req) = some d') :
    d'.paused? = (((effect dec answers req d.session).events.filterMap Event.paused?).getLast?).or
      d.paused? := by
  obtain ⟨outcome, htranscript, -⟩ := advance_request dec answers req h
  rw [Dialogue.paused?, htranscript, List.filterMap_append, paused?_reply, List.getLast?_append]
  rfl

/-- A client that is there has got an event, now or before. -/
theorem told_effect (hd : Kept d) (h : (effect dec answers req d.session).connected = true) :
    ((((effect dec answers req d.session).events.filterMap Event.paused?).getLast?).or
      d.paused?).isSome = true := by
  have hold : d.session.connected = true → ∀ o : Option Bool, (o.or d.paused?).isSome = true := by
    intro hc o
    rw [Option.isSome_or, hd.told hc, Bool.or_true]
  rw [effect] at h ⊢
  cases hcommand : Command.ofString req.command with
  | attach =>
      simp only [hcommand] at h ⊢
      by_cases haccepted : Accepted dec answers req
      · rw [if_pos haccepted]
        rfl
      · rw [if_neg haccepted] at h
        exact hold h _
  | configurationDone => rfl
  | disconnect =>
      rw [hcommand] at h
      cases h
  | continueRequest | next | stepIn | pause =>
      simp only [hcommand, controlEffect] at h
      cases hc : d.session.connected with
      | true => exact hold hc _
      | false =>
          rw [hc, if_neg Bool.false_ne_true] at h
          cases hc.symm.trans h
  | _ =>
      rw [hcommand] at h
      exact hold h _

theorem Kept.advance {i : Input J} (hd : Kept d) (h : advance dec d i = some d') : Kept d' := by
  cases i with
  | loop =>
      obtain ⟨engine, -, rfl⟩ := Option.map_eq_some_iff.mp h
      exact ⟨hd.numbers, hd.nextSeq, hd.told⟩
  | request answers req =>
      obtain ⟨outcome, htranscript, hsession⟩ := advance_request dec answers req h
      have hlength : d'.transcript.length =
          d.transcript.length + (effect dec answers req d.session).events.length + 1 := by
        rw [htranscript, List.length_append, reply, List.length_append, List.length_mapIdx,
          List.length_singleton, Nat.add_assoc]
      refine ⟨?_, ?_, fun hc => ?_⟩
      · rw [hlength, htranscript, List.map_append, hd.numbers, seq_reply, hd.nextSeq,
          Nat.add_comm d.transcript.length 1, Nat.add_assoc, List.range'_append_1]
      · rw [hsession, hlength]
        change d.session.nextSeq + _ + 1 = _
        rw [hd.nextSeq]
        omega
      · rw [paused?_advance dec answers req h]
        rw [hsession] at hc
        exact told_effect dec answers req hd hc

/-! ### The truthful requests -/

theorem paused_afterCall (c : Control) (ending : Ending) (engine : RunControl.State) :
    (afterCall c ending engine).paused =
      if ending.isRefused then engine.paused else c.pauses := by
  cases ending with
  | refused e => rfl
  | performed => exact paused_perform c engine
  | lost e => exact paused_perform c engine

/-- In a session whose last event agrees with the engine, a call that controls the engine
keeps it so if and only if it is not lost, or leaves the engine as it was. -/
theorem agrees_control (hd : Kept d) (hagrees : d.Agrees) (c : Control) (event : Event)
    (hevent : event.paused? = some c.pauses) :
    (∀ paused, ((((controlEffect answers c event d.session).events.filterMap
        Event.paused?).getLast?).or d.paused?) = some paused →
      (controlEffect answers c event d.session).engine.paused = paused) ↔
    (d.session.connected = true → answers.control.isLost = true →
      d.session.engine.paused = c.pauses) := by
  rw [controlEffect]
  cases hc : d.session.connected with
  | false => exact iff_of_true hagrees fun h => by cases h
  | true =>
      obtain ⟨told, htold⟩ := Option.isSome_iff_exists.mp (hd.told hc)
      have hpaused : d.session.engine.paused = told := hagrees told htold
      rw [if_pos rfl]
      dsimp only
      rw [paused_afterCall]
      cases hcontrol : answers.control with
      | performed =>
          refine iff_of_true (fun paused h => ?_) fun _ h => by cases h
          rw [if_pos rfl, List.filterMap_cons, hevent] at h
          exact Option.some.inj h
      | refused e => exact iff_of_true hagrees fun _ h => by cases h
      | lost e =>
          rw [if_neg (by rintro h; cases h), hpaused]
          constructor
          · exact fun h _ _ => (h told htold).symm
          · intro h paused hpaused'
            obtain rfl := Option.some.inj (htold.symm.trans hpaused')
            exact (h rfl rfl).symm

/-- In a session whose last event agrees with the engine, it agrees after a request if and
only if the request is truthful. -/
theorem agrees_advance_iff (hd : Kept d) (hagrees : d.Agrees)
    (h : advance dec d (.request answers req) = some d') :
    d'.Agrees ↔ Truthful dec answers req d.session := by
  obtain ⟨outcome, -, hsession⟩ := advance_request dec answers req h
  rw [Dialogue.Agrees, paused?_advance dec answers req h, hsession, effect, Truthful]
  cases Command.ofString req.command with
  | attach =>
      by_cases haccepted : Accepted dec answers req
      · simp only [if_pos haccepted]
        rw [paused_afterCall]
        constructor
        · intro hsays _ hrefused
          have hpaused := hsays true rfl
          rwa [if_pos hrefused] at hpaused
        · intro htruthful paused hpaused
          obtain rfl : true = paused := Option.some.inj hpaused
          split
          · exact htruthful haccepted (by assumption)
          · rfl
      · simp only [if_neg haccepted]
        exact iff_of_true hagrees fun h => absurd h haccepted
  | configurationDone =>
      constructor
      · exact fun hsays => hsays false rfl
      · intro htruthful paused hpaused
        obtain rfl : false = paused := Option.some.inj hpaused
        exact htruthful
  | continueRequest => exact agrees_control answers hd hagrees _ _ rfl
  | next => exact agrees_control answers hd hagrees _ _ rfl
  | stepIn => exact agrees_control answers hd hagrees _ _ rfl
  | pause => exact agrees_control answers hd hagrees _ _ rfl
  | disconnect =>
      cases hc : d.session.connected with
      | false => exact iff_of_true hagrees fun h => by cases h
      | true =>
          obtain ⟨told, htold⟩ := Option.isSome_iff_exists.mp (hd.told hc)
          have hpaused : d.session.engine.paused = told := hagrees told htold
          dsimp only
          rw [if_pos rfl, paused_afterCall]
          constructor
          · intro hsays _ hkept
            have hresumed := hsays told htold
            rw [hkept] at hresumed
            rw [hpaused, ← hresumed]
            rfl
          · intro htruthful paused hpaused'
            split
            · exact hagrees paused hpaused'
            · rename_i hkept
              exact (htruthful rfl (Bool.eq_false_iff.mpr hkept)).symm.trans
                (hagrees paused hpaused')
  | _ => exact iff_of_true hagrees trivial

/-- A step of the engine thread does not pause the engine or resume it. -/
theorem agrees_loop (hagrees : d.Agrees) (h : advance dec d .loop = some d') : d'.Agrees := by
  obtain ⟨engine, hengine, rfl⟩ := Option.map_eq_some_iff.mp h
  rw [RunControl.step] at hengine
  split at hengine
  · cases hengine
  · obtain rfl := Option.some.inj hengine
    exact fun paused hpaused =>
      (RunControl.loopStep_paused d.session.engine).trans (hagrees paused hpaused)

/-- A session is consistent if and only if each of its requests is truthful. -/
theorem consistent_iff (engine : RunControl.State) (inputs : List (Input J)) :
    Consistent dec engine inputs ↔
      EveryStep (advance dec)
        (fun d i => ∀ answers req, i = .request answers req →
          Truthful dec answers req d.session) (begin engine) inputs := by
  have hbegin : Kept (begin engine) ∧ (begin engine).Agrees :=
    ⟨kept_begin engine, fun _ h => by cases h⟩
  constructor
  · rintro ⟨-, -, hagrees⟩
    refine EveryStep.imp (I := fun d => Kept d ∧ d.Agrees) ?_ ?_ hbegin hagrees
    · rintro d i d' ⟨hd, hbefore⟩ hafter h
      refine ⟨hd.advance dec h, ?_⟩
      cases i with
      | loop => exact agrees_loop dec hbefore h
      | request answers req => exact hafter answers req rfl d' h
    · rintro d i ⟨hd, hbefore⟩ hafter answers req rfl
      exact (agrees_advance_iff dec answers req hd hbefore rfl).mp (hafter answers req rfl _ rfl)
  · intro htruthful
    refine ⟨?_, fun pre rest d _ hrun => ?_, ?_⟩
    · refine EveryStep.of_invariant (I := fun _ => True)
        (fun _ _ _ _ _ => trivial) ?_ trivial inputs
      rintro d i - answers req rfl
      obtain ⟨outcome, hreply⟩ := handle_eq dec answers req d.session
      rw [hreply]
      exact requestSeq?_reply req _ _ outcome
    · have hd : Kept d := run_invariant (fun _ _ _ hd h => hd.advance dec h) hbegin.1 hrun
      rw [hd.numbers]
      exact List.pairwise_lt_range'
    · refine EveryStep.imp (I := fun d => Kept d ∧ d.Agrees) ?_ ?_ hbegin htruthful
      · rintro d i d' ⟨hd, hbefore⟩ htruthful h
        refine ⟨hd.advance dec h, ?_⟩
        cases i with
        | loop => exact agrees_loop dec hbefore h
        | request answers req =>
            exact (agrees_advance_iff dec answers req hd hbefore h).mpr (htruthful answers req rfl)
      · rintro d i ⟨hd, hbefore⟩ htruthful answers req rfl d' h
        exact (agrees_advance_iff dec answers req hd hbefore h).mpr (htruthful answers req rfl)

/-! ### The usual beginning of a session -/

/-- A decoder for arguments that are there and say nothing. -/
def unitDecoder : Decoder Unit :=
  ⟨fun _ => some ⟨"/tmp/weftik-controller.sock", "weftik-dev-secret"⟩, fun _ => some [],
    fun _ => none⟩

/-- A runtime that does what it is asked. -/
def willing : Answers :=
  ⟨fun _ => .ok (), .ok (), .performed, fun _ => .ok (), .ok "", fun _ => .ok ""⟩

/-- A debugger attaches to a running engine and has finished its configuration. -/
def handshake : List (Input Unit) :=
  [.request willing ⟨1, "attach", some ()⟩, .request willing ⟨2, "configurationDone", none⟩]

/-- The debugger is told that the engine continues, and it is paused. -/
theorem handshake_not_consistent :
    ¬Consistent unitDecoder RunControl.start handshake ∧
    ∃ d, run (advance unitDecoder) (begin RunControl.start) handshake = some d ∧
      d.transcript = [.event 1 .initialized, .event 2 (.stopped "entry"),
        .response 3 1 true "attach" (some .empty) none, .event 4 .continued,
        .response 5 2 true "configurationDone" (some .empty) none] ∧
      d.session.engine.paused = true := by
  refine ⟨fun h => ?_, _, rfl, rfl, rfl⟩
  exact absurd (h.agrees.2.1 _ _ rfl _ rfl false rfl) (by decide)

end Weftik.Dap
