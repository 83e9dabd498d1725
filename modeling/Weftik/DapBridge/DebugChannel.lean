import Weftik.Lib.Transition

/-!
# The Debug Channel

The channel answers each request of the debug view in a handler of its own, and does not wait for
one handler before it starts the next. A handler of `setBreakpoints` removes the breakpoints that
it has found and adds its own, one call of the bridge at a time. When two of them overlap, the
calls of the first come between those of the last, and the lines of the last are not what is
set in the end. The bridge is the stub: what it is called for it does at once and without failing.

## Main definitions

* `Channel`, `ChannelEvent`, `step`: the channel as a transition system.
* `LastWins`: what is expected when all handlers have finished.
* `OnCourse`: the last `setBreakpoints`, left alone, sets its lines.
* `Harmless`: the condition on the handler that goes on.

## Main results

* `Consistent.step`: each request is answered once, or has a handler.
* `onCourse_iff`: a step keeps the last request on course iff it is harmless.
* `lastWins_run`: the last request wins in every run of harmless steps.
-/

open Transition

namespace Weftik.DebugChannel

/-! ### Messages -/

/-- The commands of a request. -/
inductive Command
  | initSession
  | launch
  | attach
  | setBreakpoints
  | configurationDone
  | resume
  | next
  | stepIn
  | pause
  | threads
  | stackTrace
  | scopes
  | getVariables
  | disconnect
  | other (name : String)

/-- The name of a command. -/
def Command.name : Command → String
  | .initSession => "initialize"
  | .launch => "launch"
  | .attach => "attach"
  | .setBreakpoints => "setBreakpoints"
  | .configurationDone => "configurationDone"
  | .resume => "continue"
  | .next => "next"
  | .stepIn => "stepIn"
  | .pause => "pause"
  | .threads => "threads"
  | .stackTrace => "stackTrace"
  | .scopes => "scopes"
  | .getVariables => "variables"
  | .disconnect => "disconnect"
  | .other name => name

/-- `DapRequest`. The lines are those of `arguments.breakpoints`, and none when it is missing. -/
structure DapRequest where
  seq : ℤ
  command : Command
  lines : List ℤ

/-- The body of an answer. A breakpoint has its `id` and its line, and is verified. -/
inductive Body
  | empty
  | capabilities
  | breakpoints (result : List (ℕ × ℤ))
  | allThreadsContinued
  | threads
  | stackFrames (ip : ℤ)
  | scopes
  | registers (pairs : List (String × String))

/-- What a message says. -/
inductive Content
  | response (requestSeq : ℤ) (command : String) (body : Except String Body)
  | event (name : String) (reason : Option String)

/-- A message and its number. -/
structure Message where
  seq : ℕ
  content : Content

/-- The request that a message answers. -/
def Content.answer : Content → Option (ℤ × String)
  | .response requestSeq command _ => some (requestSeq, command)
  | .event _ _ => none

/-- What an answer says of its request. -/
def DapRequest.answer (req : DapRequest) : ℤ × String := (req.seq, req.command.name)

/-! ### Handlers -/

/-- The call of the bridge that a handler waits for. That of `getBreakpoints` is followed by
removals as each removal is, so that `removing` stands for both; `rest` is still to do, `result`
is done. -/
inductive Stage
  | connecting
  | entering
  | removing (rest : List ℤ)
  | adding (result : List ℤ) (line : ℤ) (rest : List ℤ)
  | resuming
  | stepping
  | pausing
  | gettingState (ip : ℤ)
  | gettingRegisters (pairs : List (String × String))
  | disconnecting

/-- A handler that has not finished: the number of its request, and where it waits. -/
structure Handler where
  id : ℕ
  request : DapRequest
  stage : Stage

namespace Handler

/-- The breakpoints that a handler will remove. -/
def toRemove (h : Handler) : List ℤ :=
  match h.stage with
  | .removing rest => rest
  | _ => []

/-- The breakpoints that a handler will add. -/
def toAdd (h : Handler) : List ℤ :=
  match h.stage with
  | .removing _ => h.request.lines
  | .adding _ _ rest => rest
  | _ => []

end Handler

/-! ### The channel -/

/-- The channel with the stub bridge, whose breakpoints are `bps`. `messages` are those that were
emitted. `requests` and `last` are ghost fields: the requests in the order in which they were
sent, and the last `setBreakpoints` of them with its number. -/
structure Channel where
  seq : ℕ
  connected : Bool
  bps : List ℤ
  messages : List Message
  handlers : List Handler
  requests : List DapRequest
  last : Option (ℕ × DapRequest)

namespace Channel

/-- The channel after its constructor. -/
def new : Channel := ⟨1, false, [], [], [], [], none⟩

/-- The answers that were emitted. -/
def responses (s : Channel) : List (ℤ × String) := s.messages.filterMap (·.content.answer)

/-- A message with the next number. -/
def emit (s : Channel) (content : Content) : Channel :=
  { s with seq := s.seq + 1, messages := s.messages ++ [⟨s.seq, content⟩] }

/-- `respond`. -/
def respond (s : Channel) (req : DapRequest) (body : Body) : Channel :=
  s.emit (.response req.seq req.command.name (.ok body))

/-- `err`. -/
def err (s : Channel) (req : DapRequest) (message : String) : Channel :=
  s.emit (.response req.seq req.command.name (.error message))

/-- `event`. -/
def event (s : Channel) (name : String) (reason : Option String) : Channel :=
  s.emit (.event name reason)

/-- `getRegisters` of the stub. -/
def getRegisters : List (String × String) :=
  (List.range 14).map fun i => ("r" ++ i.repr, "0x00000000")

/-- `handleSetBreakpoints` in its second loop. -/
def addNext (s : Channel) (req : DapRequest) (result : List ℤ) :
    List ℤ → Channel × Option Stage
  | [] => (s.respond req (.breakpoints (result.mapIdx fun i line => (i + 1, line))), none)
  | line :: rest => ({ s with bps := s.bps ++ [line] }, some (.adding result line rest))

/-- `handleSetBreakpoints` in its first loop. -/
def removeNext (s : Channel) (req : DapRequest) : List ℤ → Channel × Option Stage
  | [] => s.addNext req [] req.lines
  | ip :: rest => ({ s with bps := s.bps.filter (· ≠ ip) }, some (.removing rest))

/-- `dispatch`, up to the first `await`. -/
def dispatch (s : Channel) (req : DapRequest) : Channel × Option Stage :=
  match req.command with
  | .initSession => ((s.respond req .capabilities).event "initialized" none, none)
  | .launch | .attach => (s, some .connecting)
  | .setBreakpoints => (s, some (.removing s.bps))
  | .configurationDone => (s.respond req .empty, none)
  | .resume => (s, some .resuming)
  | .next | .stepIn => (s, some .stepping)
  | .pause => (s, some .pausing)
  | .threads => (s.respond req .threads, none)
  | .stackTrace => (s, some (.gettingState 0))
  | .scopes => (s.respond req .scopes, none)
  | .getVariables => (s, some (.gettingRegisters getRegisters))
  | .disconnect => (s, some .disconnecting)
  | .other name => (s.err req ("unsupported: " ++ name), none)

/-- `dispatch`, from an `await` to the next one or to the end. -/
def goOn (s : Channel) (h : Handler) : Channel × Option Stage :=
  match h.stage with
  | .connecting => ({ s with connected := true }, some .entering)
  | .entering => ((s.respond h.request .empty).event "stopped" (some "entry"), none)
  | .removing rest => s.removeNext h.request rest
  | .adding result line rest => s.addNext h.request (result ++ [line]) rest
  | .resuming => ((s.respond h.request .allThreadsContinued).event "continued" none, none)
  | .stepping => ((s.respond h.request .empty).event "stopped" (some "step"), none)
  | .pausing => ((s.respond h.request .empty).event "stopped" (some "pause"), none)
  | .gettingState ip => (s.respond h.request (.stackFrames ip), none)
  | .gettingRegisters pairs => (s.respond h.request (.registers pairs), none)
  | .disconnecting => ({ s with connected := false }.respond h.request .empty, none)

end Channel

open Channel

/-- What happens to the channel: a request is sent, a handler goes on after its `await`, or the
channel is closed. -/
inductive ChannelEvent
  | send (req : DapRequest)
  | goOn (i : ℕ)
  | close

/-- A request gets its number. -/
def register (s : Channel) (req : DapRequest) : Channel :=
  { s with
    requests := s.requests ++ [req]
    last :=
      match req.command with
      | .setBreakpoints => some (s.requests.length, req)
      | _ => s.last }

/-- One step; `none` when there is no such handler. -/
def step (s : Channel) : ChannelEvent → Option Channel
  | .send req =>
      let (t, stage) := (register s req).dispatch req
      some { t with
        handlers := t.handlers ++ (stage.map fun stage => ⟨s.requests.length, req, stage⟩).toList }
  | .goOn i =>
      s.handlers[i]?.map fun h =>
        let (t, stage) := s.goOn h
        { t with
          handlers :=
            match stage with
            | none => t.handlers.eraseIdx i
            | some stage => t.handlers.set i { h with stage := stage } }
  | .close => some { s with connected := false }

/-! ### The property and its condition -/

/-- When all handlers have finished, the breakpoints are the lines of the last `setBreakpoints`
and each request has one answer; and the numbers of the messages increase. -/
structure LastWins (s : Channel) : Prop where
  breakpoints : s.handlers = [] → ∀ id req, s.last = some (id, req) →
    ∀ line, line ∈ s.bps ↔ line ∈ req.lines
  answered : s.handlers = [] → s.responses.Perm (s.requests.map DapRequest.answer)
  increasing : (s.messages.map Message.seq).Pairwise (· < ·)

/-- The handler of a request will remove a breakpoint. -/
def WillRemove (s : Channel) (id : ℕ) (line : ℤ) : Prop :=
  ∃ h ∈ s.handlers, h.id = id ∧ line ∈ h.toRemove

/-- The handler of a request will add a breakpoint. -/
def WillAdd (s : Channel) (id : ℕ) (line : ℤ) : Prop :=
  ∃ h ∈ s.handlers, h.id = id ∧ line ∈ h.toAdd

/-- The last `setBreakpoints` sets its lines when no other handler calls the bridge. -/
def OnCourse (s : Channel) : Prop :=
  ∀ id req, s.last = some (id, req) →
    ∀ line, ((line ∈ s.bps ∧ ¬ WillRemove s id line) ∨ WillAdd s id line) ↔ line ∈ req.lines

/-- The condition on the handler that goes on, when it is that of another request than the last
`setBreakpoints`: a breakpoint that it adds is one of the last lines, or the last request will
still remove it; one that it removes is none of the last lines, or the last request will still
add it. -/
def Harmless (s : Channel) : ChannelEvent → Prop
  | .goOn i => ∀ h id req, s.handlers[i]? = some h → s.last = some (id, req) → h.id ≠ id →
      match h.toRemove, h.toAdd with
      | [], [] => True
      | [], line :: _ => line ∈ req.lines ∨ WillRemove s id line
      | ip :: _, _ => ip ∉ req.lines ∨ WillAdd s id ip
  | .send _ | .close => True

/-! ### Answers -/

/-- The messages have the numbers from 1 on. -/
def Numbered (s : Channel) : Prop :=
  s.messages.map Message.seq = List.range' 1 s.messages.length ∧ s.seq = s.messages.length + 1

/-- Some messages were emitted, and of the rest only `connected` has changed. -/
structure Emits (answers : List (ℤ × String)) (s t : Channel) : Prop where
  bps : t.bps = s.bps
  handlers : t.handlers = s.handlers
  requests : t.requests = s.requests
  last : t.last = s.last
  responses : t.responses = s.responses ++ answers
  numbered : Numbered s → Numbered t

variable {s t : Channel}

theorem Emits.trans {answers answers' : List (ℤ × String)} {u : Channel} (h : Emits answers s t)
    (h' : Emits answers' t u) : Emits (answers ++ answers') s u where
  bps := h'.bps.trans h.bps
  handlers := h'.handlers.trans h.handlers
  requests := h'.requests.trans h.requests
  last := h'.last.trans h.last
  responses := by rw [h'.responses, h.responses, List.append_assoc]
  numbered hs := h'.numbered (h.numbered hs)

theorem emits_emit (s : Channel) (content : Content) :
    Emits content.answer.toList s (s.emit content) where
  bps := rfl
  handlers := rfl
  requests := rfl
  last := rfl
  responses := by
    rw [responses, responses, emit, List.filterMap_append]
    cases content <;> rfl
  numbered := by
    rintro ⟨hseqs, hseq⟩
    refine ⟨?_, ?_⟩
    · rw [emit, List.map_append, List.length_append, hseqs, List.map_singleton, hseq,
        List.length_singleton, List.range'_1_concat, Nat.add_comm]
    · rw [emit, List.length_append, hseq, List.length_singleton]

theorem emits_respond (s : Channel) (req : DapRequest) (body : Body) :
    Emits [req.answer] s (s.respond req body) :=
  emits_emit s (.response req.seq req.command.name (.ok body))

variable {req : DapRequest}

/-- An answer and an event. -/
theorem emits_event (h : Emits [req.answer] s t) (name : String) (reason : Option String) :
    Emits [req.answer] s (t.event name reason) :=
  h.trans (emits_emit t (.event name reason))

/-- A request is answered at once, or gets a handler. The handler of a `setBreakpoints` will
remove what it has found, and one of another request calls for no breakpoint. -/
theorem dispatch_cases (s : Channel) (req : DapRequest) :
    (req.command ≠ .setBreakpoints ∧ ∃ t, s.dispatch req = (t, none) ∧ Emits [req.answer] s t) ∨
      ∃ stage, s.dispatch req = (s, some stage) ∧
        ((req.command = .setBreakpoints ∧ stage = .removing s.bps) ∨
          (req.command ≠ .setBreakpoints ∧
            ∀ id, (Handler.mk id req stage).toRemove = [] ∧
                (Handler.mk id req stage).toAdd = [])) := by
  rw [dispatch]
  cases hcommand : req.command with
  | initSession =>
      exact Or.inl ⟨nofun, _, rfl, emits_event (emits_respond s req _) _ _⟩
  | setBreakpoints => exact Or.inr ⟨_, rfl, Or.inl ⟨rfl, rfl⟩⟩
  | configurationDone | threads | scopes =>
      exact Or.inl ⟨nofun, _, rfl, emits_respond s req _⟩
  | other name =>
      refine Or.inl ⟨nofun, _, rfl, ?_⟩
      exact emits_emit s (.response req.seq req.command.name (.error ("unsupported: " ++ name)))
  | launch | attach | resume | next | stepIn | pause | stackTrace | getVariables | disconnect =>
      exact Or.inr ⟨_, rfl, Or.inr ⟨nofun, fun _ => ⟨rfl, rfl⟩⟩⟩

/-- The second loop adds a breakpoint, or answers. -/
theorem addNext_cases (s : Channel) (req : DapRequest) (result lines : List ℤ) :
    (∃ line rest, lines = line :: rest ∧ s.addNext req result lines =
      ({ s with bps := s.bps ++ [line] }, some (.adding result line rest))) ∨
    (lines = [] ∧ ∃ t, s.addNext req result lines = (t, none) ∧ Emits [req.answer] s t) := by
  cases lines with
  | nil => exact Or.inr ⟨rfl, _, rfl, emits_respond s req _⟩
  | cons line rest => exact Or.inl ⟨line, rest, rfl, rfl⟩

/-- The call of a handler that goes on to another `await`: it removes a breakpoint, it adds one,
or it leaves the breakpoints alone. -/
inductive Calls (bps : List ℤ) (h : Handler) : Stage → List ℤ → Prop
  | remove {ip : ℤ} {rest : List ℤ} (hstage : h.stage = .removing (ip :: rest)) :
      Calls bps h (.removing rest) (bps.filter (· ≠ ip))
  | add {result : List ℤ} {line : ℤ} {rest : List ℤ} (hremove : h.toRemove = [])
      (hadd : h.toAdd = line :: rest) : Calls bps h (.adding result line rest) (bps ++ [line])
  | other (hremove : h.toRemove = []) (hadd : h.toAdd = []) : Calls bps h .entering bps

/-- A handler that goes on calls the bridge again, or answers. -/
theorem goOn_cases (s : Channel) (h : Handler) :
    (∃ stage bps connected, Calls s.bps h stage bps ∧
      s.goOn h = ({ s with bps := bps, connected := connected }, some stage)) ∨
    (h.toRemove = [] ∧ h.toAdd = [] ∧ ∃ t, s.goOn h = (t, none) ∧
        Emits [h.request.answer] s t) := by
  rw [goOn]
  cases hstage : h.stage with
  | removing rest =>
      have hremove : h.toRemove = rest := by rw [Handler.toRemove, hstage]
      have hadd : h.toAdd = h.request.lines := by rw [Handler.toAdd, hstage]
      cases rest with
      | cons ip rest => exact Or.inl ⟨_, _, s.connected, .remove hstage, rfl⟩
      | nil =>
          rcases addNext_cases s h.request [] h.request.lines with
            ⟨line, rest, hlines, heq⟩ | ⟨hlines, t, heq, ht⟩
          · exact Or.inl ⟨_, _, s.connected, .add hremove (hadd.trans hlines), heq⟩
          · exact Or.inr ⟨hremove, hadd.trans hlines, t, heq, ht⟩
  | adding result line rest =>
      have hremove : h.toRemove = [] := by rw [Handler.toRemove, hstage]
      have hadd : h.toAdd = rest := by rw [Handler.toAdd, hstage]
      rcases addNext_cases s h.request (result ++ [line]) rest with
        ⟨line', rest', hlines, heq⟩ | ⟨hlines, t, heq, ht⟩
      · exact Or.inl ⟨_, _, s.connected, .add hremove (hadd.trans hlines), heq⟩
      · exact Or.inr ⟨hremove, hadd.trans hlines, t, heq, ht⟩
  | connecting =>
      have hnone : h.toRemove = [] ∧ h.toAdd = [] := by
        rw [Handler.toRemove, Handler.toAdd, hstage]
        exact ⟨rfl, rfl⟩
      exact Or.inl ⟨_, _, true, .other hnone.1 hnone.2, rfl⟩
  | entering | resuming | stepping | pausing =>
      rw [Handler.toRemove, Handler.toAdd, hstage]
      exact Or.inr ⟨rfl, rfl, _, rfl, emits_event (emits_respond s _ _) _ _⟩
  | gettingState ip | gettingRegisters pairs =>
      rw [Handler.toRemove, Handler.toAdd, hstage]
      exact Or.inr ⟨rfl, rfl, _, rfl, emits_respond s _ _⟩
  | disconnecting =>
      have hclosed : Emits [] s { s with connected := false } :=
        ⟨rfl, rfl, rfl, rfl, (List.append_nil _).symm, id⟩
      rw [Handler.toRemove, Handler.toAdd, hstage]
      exact Or.inr ⟨rfl, rfl, _, rfl, hclosed.trans (emits_respond _ _ _)⟩

/-- A step of a handler. The others stay as they are. -/
theorem goOn_step {i : ℕ} (hstep : step s (.goOn i) = some t) :
    ∃ h others handlers, s.handlers[i]? = some h ∧ s.handlers.Perm (h :: others) ∧
      ((∃ stage bps connected, Calls s.bps h stage bps ∧
        handlers.Perm ({ h with stage := stage } :: others) ∧
        t = { s with bps := bps, connected := connected, handlers := handlers }) ∨
      (h.toRemove = [] ∧ h.toAdd = [] ∧ handlers.Perm others ∧
        ∃ u, Emits [h.request.answer] s u ∧ t = { u with handlers := handlers })) := by
  obtain ⟨h, hi, rfl⟩ := Option.map_eq_some_iff.mp hstep
  obtain ⟨hlt, hget⟩ := List.getElem?_eq_some_iff.mp hi
  have hperm := List.getElem_cons_eraseIdx_perm hlt
  rw [hget] at hperm
  rcases goOn_cases s h with ⟨stage, bps, connected, hcalls, heq⟩ | ⟨hremove, hadd, u, heq, hu⟩
  · refine ⟨h, s.handlers.eraseIdx i, s.handlers.set i { h with stage := stage }, hi, hperm.symm,
      Or.inl ⟨stage, bps, connected, hcalls, List.set_perm_cons_eraseIdx hlt _, ?_⟩⟩
    rw [heq]
  · refine ⟨h, s.handlers.eraseIdx i, s.handlers.eraseIdx i, hi, hperm.symm,
      Or.inr ⟨hremove, hadd, List.Perm.refl _, u, hu, ?_⟩⟩
    rw [heq, ← hu.handlers]

/-- A step of a request: it is answered at once, or gets a handler. -/
theorem send_step (hstep : step s (.send req) = some t) :
    (req.command ≠ .setBreakpoints ∧ ∃ u, Emits [req.answer] (register s req) u ∧
      t = { u with handlers := s.handlers }) ∨
    ∃ stage, t = { register s req with
        handlers := s.handlers ++ [⟨s.requests.length, req, stage⟩] } ∧
      ((req.command = .setBreakpoints ∧ stage = .removing s.bps) ∨
        (req.command ≠ .setBreakpoints ∧
          ∀ id, (Handler.mk id req stage).toRemove = [] ∧
            (Handler.mk id req stage).toAdd = [])) := by
  rw [step] at hstep
  rcases dispatch_cases (register s req) req with ⟨hcommand, u, heq, hu⟩ | ⟨stage, heq, hstage⟩
  · have hhandlers : u.handlers ++ [] = s.handlers := (List.append_nil _).trans hu.handlers
    simp only [heq] at hstep
    refine Or.inl ⟨hcommand, u, hu, ?_⟩
    rw [← hhandlers]
    exact (Option.some.inj hstep).symm
  · simp only [heq] at hstep
    exact Or.inr ⟨stage, (Option.some.inj hstep).symm, hstage⟩

/-! ### One answer for each request -/

/-- The handlers have different numbers, which are of requests that were sent. Each request has
been answered, or has a handler. -/
structure Consistent (s : Channel) : Prop where
  nodup : (s.handlers.map Handler.id).Nodup
  sent : ∀ h ∈ s.handlers, h.id < s.requests.length
  last : ∀ id req, s.last = some (id, req) → id < s.requests.length
  answered : (s.responses ++ s.handlers.map fun h => h.request.answer).Perm
    (s.requests.map DapRequest.answer)
  numbered : Numbered s

theorem consistent_new : Consistent new where
  nodup := List.nodup_nil
  sent := List.forall_mem_nil _
  last _ _ h := nomatch h
  answered := List.Perm.refl _
  numbered := ⟨rfl, rfl⟩

theorem Consistent.send (hs : Consistent s) (h : step s (.send req) = some t) : Consistent t := by
  have hlength : (s.requests ++ [req]).length = s.requests.length + 1 := List.length_append
  have hlast : ∀ id req', (register s req).last = some (id, req') →
      id < (s.requests ++ [req]).length := by
    intro id req' hid
    rw [hlength]
    rw [register] at hid
    cases hcommand : req.command with
    | setBreakpoints =>
        simp only [hcommand] at hid
        obtain ⟨rfl, -⟩ := Prod.mk.inj (Option.some.inj hid)
        exact Nat.lt_succ_self _
    | _ =>
        simp only [hcommand] at hid
        exact Nat.lt_succ_of_lt (hs.last id req' hid)
  have hmap : (s.requests ++ [req]).map DapRequest.answer =
      s.requests.map DapRequest.answer ++ [req.answer] := List.map_append
  have hsent : ∀ k ∈ s.handlers, k.id < (s.requests ++ [req]).length := by
    intro k hk
    rw [hlength]
    exact Nat.lt_succ_of_lt (hs.sent k hk)
  rcases send_step h with ⟨-, u, hu, rfl⟩ | ⟨stage, rfl, -⟩
  · refine ⟨hs.nodup, ?_, ?_, ?_, hu.numbered hs.numbered⟩
    · exact fun k hk => lt_of_lt_of_eq (hsent k hk) (congrArg List.length hu.requests).symm
    · exact fun id req' hid =>
        lt_of_lt_of_eq (hlast id req' (hu.last ▸ hid)) (congrArg List.length hu.requests).symm
    · have hanswered := hs.answered.append_right [req.answer]
      have hresponses : Channel.responses { u with handlers := s.handlers } =
          s.responses ++ [req.answer] := hu.responses
      have hrequests : u.requests = s.requests ++ [req] := hu.requests
      rw [hresponses, hrequests, hmap, List.append_assoc]
      rw [List.append_assoc] at hanswered
      exact (List.perm_append_comm.append_left _).trans hanswered
  · refine ⟨?_, ?_, hlast, ?_, hs.numbered⟩
    · have hnew : ∀ id ∈ s.handlers.map Handler.id, id ≠ s.requests.length := by
        intro id hmem
        obtain ⟨k, hk, rfl⟩ := List.mem_map.mp hmem
        exact Nat.ne_of_lt (hs.sent k hk)
      rw [List.map_append]
      exact List.nodup_append.mpr ⟨hs.nodup, List.nodup_singleton _,
        fun id hid id' hid' heq => hnew id hid (heq.trans (List.mem_singleton.mp hid'))⟩
    · refine List.forall_mem_append.mpr ⟨hsent, ?_⟩
      exact List.forall_mem_singleton.mpr (by rw [register, hlength]; exact Nat.lt_succ_self _)
    · have hanswered := hs.answered.append_right [req.answer]
      rw [List.append_assoc] at hanswered
      rw [List.map_append]
      exact hanswered.trans (List.Perm.of_eq hmap.symm)

theorem Consistent.step (hs : Consistent s) {e : ChannelEvent} (hstep : step s e = some t) :
    Consistent t := by
  cases e with
  | send req => exact hs.send hstep
  | close =>
      obtain rfl := Option.some.inj hstep
      exact { hs with }
  | goOn i =>
      obtain ⟨h, others, handlers, -, hperm, hcase⟩ := goOn_step hstep
      have hnodup := (hperm.map Handler.id).nodup_iff.mp hs.nodup
      have hsent : ∀ k ∈ h :: others, k.id < s.requests.length := fun k hk =>
        hs.sent k (hperm.mem_iff.mpr hk)
      have hid := hsent h List.mem_cons_self
      have hothers := fun k hk => hsent k (List.mem_cons_of_mem h hk)
      have hanswered := ((hperm.map fun h => h.request.answer).symm.append_left s.responses).trans
        hs.answered
      rcases hcase with ⟨stage, bps, connected, -, hhandlers, rfl⟩ | ⟨-, -, hhandlers, u, hu, rfl⟩
      · refine ⟨(hhandlers.map Handler.id).nodup_iff.mpr hnodup, fun k hk => ?_, hs.last, ?_,
          hs.numbered⟩
        · rcases List.mem_cons.mp (hhandlers.mem_iff.mp hk) with rfl | hmem
          · exact hid
          · exact hothers k hmem
        · exact ((hhandlers.map _).append_left _).trans hanswered
      · refine ⟨(hhandlers.map Handler.id).nodup_iff.mpr (List.nodup_cons.mp hnodup).2,
          fun k hk => ?_, fun id req hlast => ?_, ?_, hu.numbered hs.numbered⟩
        · exact lt_of_lt_of_eq (hothers k (hhandlers.mem_iff.mp hk))
            (congrArg List.length hu.requests).symm
        · exact lt_of_lt_of_eq (hs.last id req (hu.last ▸ hlast))
            (congrArg List.length hu.requests).symm
        · have hresponses : Channel.responses { u with handlers := handlers } =
              s.responses ++ [h.request.answer] := hu.responses
          have hrequests : u.requests = s.requests := hu.requests
          rw [hresponses, hrequests, List.append_assoc]
          exact (((hhandlers.map _).append_left _).append_left _).trans hanswered

/-! ### The course of the last request -/

/-- What some handler of a request will do, when there is this one among others. -/
theorem exists_handler_iff {P : Handler → Prop} {id : ℕ} {h : Handler}
    {handlers others : List Handler} (hperm : handlers.Perm (h :: others)) :
    (∃ k ∈ handlers, k.id = id ∧ P k) ↔
      (h.id = id ∧ P h) ∨ ∃ k ∈ others, k.id = id ∧ P k := by
  simp only [hperm.mem_iff, List.mem_cons, or_and_right, exists_or, exists_eq_left]

/-- The handlers of a step, as far as breakpoints are concerned: what the handler that goes on
will do after the step. -/
theorem goOn_will (hs : Consistent s) {i : ℕ} (hstep : step s (.goOn i) = some t) :
    ∃ h, s.handlers[i]? = some h ∧ t.last = s.last ∧
      (∀ id, h.id ≠ id → (∀ line, WillRemove t id line ↔ WillRemove s id line) ∧
        ∀ line, WillAdd t id line ↔ WillAdd s id line) ∧
      (∀ line, WillRemove s h.id line ↔ line ∈ h.toRemove) ∧
      (∀ line, WillAdd s h.id line ↔ line ∈ h.toAdd) ∧
      ((∃ ip rest, h.toRemove = ip :: rest ∧ t.bps = s.bps.filter (· ≠ ip) ∧
        (∀ line, WillRemove t h.id line ↔ line ∈ rest) ∧
        ∀ line, WillAdd t h.id line ↔ line ∈ h.toAdd) ∨
      (∃ line rest, h.toRemove = [] ∧ h.toAdd = line :: rest ∧ t.bps = s.bps ++ [line] ∧
        (∀ line, ¬ WillRemove t h.id line) ∧ ∀ line, WillAdd t h.id line ↔ line ∈ rest) ∨
      (h.toRemove = [] ∧ h.toAdd = [] ∧ t.bps = s.bps ∧
        (∀ line, ¬ WillRemove t h.id line) ∧ ∀ line, ¬ WillAdd t h.id line)) := by
  obtain ⟨h, others, handlers, hi, hperm, hcase⟩ := goOn_step hstep
  have hnodup := (hperm.map Handler.id).nodup_iff.mp hs.nodup
  -- The others are of other requests.
  have hothers : ∀ (P : Handler → Prop), ¬ ∃ k ∈ others, k.id = h.id ∧ P k := by
    rintro P ⟨k, hk, hid, -⟩
    exact (List.nodup_cons.mp hnodup).1 (hid ▸ List.mem_map_of_mem hk)
  have hown : ∀ (P : Handler → Prop) (k : Handler) (handlers : List Handler), k.id = h.id →
      handlers.Perm (k :: others) → ((∃ k ∈ handlers, k.id = h.id ∧ P k) ↔ P k) := by
    intro P k handlers hk hperm
    rw [exists_handler_iff hperm, hk, or_iff_left (hothers P)]
    exact and_iff_right rfl
  have hnot : ∀ (P : Handler → Prop) (id : ℕ) (k : Handler) (handlers : List Handler), k.id ≠ id →
      handlers.Perm (k :: others) →
      ((∃ k ∈ handlers, k.id = id ∧ P k) ↔ ∃ k ∈ others, k.id = id ∧ P k) := by
    intro P id k handlers hk hperm
    rw [exists_handler_iff hperm]
    exact or_iff_right fun hand => hk hand.1
  refine ⟨h, hi, ?_, ?_, fun line => hown _ h _ rfl hperm, fun line => hown _ h _ rfl hperm, ?_⟩
  · rcases hcase with ⟨stage, bps, connected, -, -, rfl⟩ | ⟨-, -, -, u, hu, rfl⟩
    · rfl
    · exact hu.last
  · intro id hid
    rcases hcase with ⟨stage, bps, connected, -, hhandlers, rfl⟩ | ⟨-, -, hhandlers, u, -, rfl⟩
    · have hsame : ∀ P : Handler → Prop,
          (∃ k ∈ handlers, k.id = id ∧ P k) ↔ ∃ k ∈ s.handlers, k.id = id ∧ P k := fun P =>
        (hnot P id { h with stage := stage } _ hid hhandlers).trans (hnot P id h _ hid hperm).symm
      exact ⟨fun line => hsame _, fun line => hsame _⟩
    · have hsame : ∀ P : Handler → Prop,
          (∃ k ∈ handlers, k.id = id ∧ P k) ↔ ∃ k ∈ s.handlers, k.id = id ∧ P k := by
        intro P
        rw [hnot P id h s.handlers hid hperm]
        simp only [hhandlers.mem_iff]
      exact ⟨fun line => hsame _, fun line => hsame _⟩
  · rcases hcase with ⟨stage, bps, connected, hcalls, hhandlers, rfl⟩ |
      ⟨hremove, hadd, hhandlers, u, hu, rfl⟩
    · have hremove' := fun line =>
        hown (line ∈ ·.toRemove) { h with stage := stage } _ rfl hhandlers
      have hadd' := fun line => hown (line ∈ ·.toAdd) { h with stage := stage } _ rfl hhandlers
      cases hcalls with
      | @remove ip rest hstage =>
          have hlines : h.toAdd = h.request.lines := by rw [Handler.toAdd, hstage]
          refine Or.inl ⟨ip, rest, by rw [Handler.toRemove, hstage], rfl, hremove', fun line => ?_⟩
          rw [hlines]
          exact hadd' line
      | @add result line rest hremove hadd =>
          exact Or.inr (Or.inl ⟨line, rest, hremove, hadd, rfl,
            fun line h => List.not_mem_nil ((hremove' line).mp h), hadd'⟩)
      | other hremove hadd =>
          exact Or.inr (Or.inr ⟨hremove, hadd, rfl,
            fun line h => List.not_mem_nil ((hremove' line).mp h),
            fun line h => List.not_mem_nil ((hadd' line).mp h)⟩)
    · have hnone : ∀ P : Handler → Prop, ¬ ∃ k ∈ handlers, k.id = h.id ∧ P k := by
        intro P
        simp only [hhandlers.mem_iff]
        exact hothers P
      exact Or.inr (Or.inr ⟨hremove, hadd, hu.bps, fun line => hnone _, fun line => hnone _⟩)

/-- The condition on a handler that is not that of the last request. -/
theorem harmless_goOn {i id : ℕ} {h : Handler} (hi : s.handlers[i]? = some h)
    (hlast : s.last = some (id, req)) :
    Harmless s (.goOn i) ↔ (h.id ≠ id →
      match h.toRemove, h.toAdd with
      | [], [] => True
      | [], line :: _ => line ∈ req.lines ∨ WillRemove s id line
      | ip :: _, _ => ip ∉ req.lines ∨ WillAdd s id ip) := by
  constructor
  · intro hharmless hid
    exact hharmless h id req hi hlast hid
  · intro hharmless h' id' req' hi' hlast' hid
    obtain rfl := Option.some.inj (hi.symm.trans hi')
    obtain ⟨rfl, rfl⟩ := Prod.mk.inj (Option.some.inj (hlast.symm.trans hlast'))
    exact hharmless hid

/-- A step of a handler keeps the last request on course iff it is harmless. -/
theorem goOn_onCourse (hs : Consistent s) {i : ℕ} (hcourse : OnCourse s)
    (hstep : step s (.goOn i) = some t) : OnCourse t ↔ Harmless s (.goOn i) := by
  obtain ⟨h, hi, hlast, hother, hremove, hadd, hcase⟩ := goOn_will hs hstep
  cases hcases : s.last with
  | none =>
      rw [hcases] at hlast
      refine iff_of_true (fun id req hid => ?_) (fun _ id req _ hid => ?_)
      · rw [hlast] at hid; cases hid
      · rw [hcases] at hid; cases hid
  | some last =>
      obtain ⟨id, req⟩ := last
      rw [hcases] at hlast
      have hcourse := hcourse id req hcases
      have ht : OnCourse t ↔ ∀ line,
          ((line ∈ t.bps ∧ ¬ WillRemove t id line) ∨ WillAdd t id line) ↔ line ∈ req.lines := by
        constructor
        · exact fun h => h id req hlast
        · intro h id' req' hid
          obtain ⟨rfl, rfl⟩ := Prod.mk.inj (Option.some.inj (hlast.symm.trans hid))
          exact h
      rw [ht, harmless_goOn hi hcases]
      by_cases hid : h.id = id
      · subst hid
        refine iff_of_true (fun line => ?_) fun hne => absurd rfl hne
        rw [← hcourse line, hremove, hadd]
        rcases hcase with ⟨ip, rest, hip, hbps, hremove', hadd'⟩ |
          ⟨line', rest, hnone, hline, hbps, hremove', hadd'⟩ |
              ⟨hnone, hnone', hbps, hremove', hadd'⟩
        · rw [hremove', hadd', hbps, hip, List.mem_filter, List.mem_cons, decide_eq_true_iff]
          grind
        · rw [hadd', hbps, hnone, hline, List.mem_append, List.mem_singleton, List.mem_cons]
          have := hremove' line
          grind
        · rw [hbps, hnone, hnone']
          have := hremove' line
          have := hadd' line
          grind
      · obtain ⟨hremove', hadd'⟩ := hother id hid
        simp only [hremove', hadd', ne_eq, hid, not_false_eq_true, true_imp_iff]
        rcases hcase with ⟨ip, rest, hip, hbps, -⟩ | ⟨line', rest, hnone, hline, hbps, -⟩ |
          ⟨hnone, hnone', hbps, -⟩
        · have hafter : ∀ line, (((line ∈ t.bps ∧ ¬ WillRemove s id line) ∨ WillAdd s id line) ↔
              line ∈ req.lines) ↔ (line = ip → line ∉ req.lines ∨ WillAdd s id line) := by
            intro line
            have := hcourse line
            rw [hbps, List.mem_filter, decide_eq_true_iff]
            grind
          rw [hip]
          simp only [hafter, forall_eq]
        · have hafter : ∀ line, (((line ∈ t.bps ∧ ¬ WillRemove s id line) ∨ WillAdd s id line) ↔
              line ∈ req.lines) ↔ (line = line' → line ∈ req.lines ∨ WillRemove s id line) := by
            intro line
            have := hcourse line
            rw [hbps, List.mem_append, List.mem_singleton]
            grind
          rw [hnone, hline]
          simp only [hafter, forall_eq]
        · rw [hbps, hnone, hnone']
          exact iff_of_true hcourse trivial

/-- A request that is sent leaves the last `setBreakpoints` on course, or begins a new one. -/
theorem send_onCourse (hs : Consistent s) (hcourse : OnCourse s)
    (hstep : step s (.send req) = some t) : OnCourse t := by
  have hother : req.command ≠ .setBreakpoints → (register s req).last = s.last := by
    intro hcommand
    rw [register]
    cases hreq : req.command with
    | setBreakpoints => exact absurd hreq hcommand
    | _ => rfl
  rcases send_step hstep with ⟨hcommand, u, hu, rfl⟩ | ⟨stage, rfl, hcase⟩
  · intro id req' hlast line
    have hlast' : s.last = some (id, req') := (hother hcommand).symm.trans
        (hu.last.symm.trans hlast)
    have hbps : u.bps = s.bps := hu.bps
    rw [← hcourse id req' hlast' line, ← hbps]
    rfl
  · have hperm : (s.handlers ++ [Handler.mk s.requests.length req stage]).Perm
        (⟨s.requests.length, req, stage⟩ :: s.handlers) := List.perm_append_singleton _ _
    rcases hcase with ⟨hcommand, rfl⟩ | ⟨hcommand, hnone⟩
    · intro id req' hlast line
      have hlast' : (register s req).last = some (s.requests.length, req) := by
        rw [register]
        simp only [hcommand]
      obtain ⟨rfl, rfl⟩ := Prod.mk.inj (Option.some.inj (hlast'.symm.trans hlast))
      have hfirst : ∀ P : Handler → Prop, ¬ ∃ k ∈ s.handlers, k.id = s.requests.length ∧ P k := by
        rintro P ⟨k, hk, hid, -⟩
        exact absurd hid (Nat.ne_of_lt (hs.sent k hk))
      have hremove : WillRemove { register s req with
          handlers := s.handlers ++ [⟨s.requests.length, req, .removing s.bps⟩] }
            s.requests.length line ↔ line ∈ s.bps :=
        (exists_handler_iff hperm).trans ((or_iff_left (hfirst _)).trans (and_iff_right rfl))
      have hadd : WillAdd { register s req with
          handlers := s.handlers ++ [⟨s.requests.length, req, .removing s.bps⟩] }
            s.requests.length line ↔ line ∈ req.lines :=
        (exists_handler_iff hperm).trans ((or_iff_left (hfirst _)).trans (and_iff_right rfl))
      have hbps : (register s req).bps = s.bps := rfl
      rw [hremove, hadd, hbps]
      grind
    · intro id req' hlast line
      have hlast' : s.last = some (id, req') := (hother hcommand).symm.trans hlast
      obtain ⟨hremove, hadd⟩ := hnone s.requests.length
      have hsame : ∀ P : Handler → Prop, ¬ P ⟨s.requests.length, req, stage⟩ →
          ((∃ k ∈ s.handlers ++ [Handler.mk s.requests.length req stage], k.id = id ∧ P k) ↔
            ∃ k ∈ s.handlers, k.id = id ∧ P k) := fun P hP =>
        (exists_handler_iff hperm).trans (or_iff_right fun hand => hP hand.2)
      have hremove' := hsame (line ∈ ·.toRemove) (by rw [hremove]; exact List.not_mem_nil)
      have hadd' := hsame (line ∈ ·.toAdd) (by rw [hadd]; exact List.not_mem_nil)
      rw [← hcourse id req' hlast' line, WillRemove, WillAdd, hremove', hadd']
      rfl

/-- A step keeps the last request on course iff it is harmless. -/
theorem onCourse_iff (hs : Consistent s) {e : ChannelEvent} (hcourse : OnCourse s)
    (hstep : step s e = some t) : OnCourse t ↔ Harmless s e := by
  cases e with
  | send req => exact iff_of_true (send_onCourse hs hcourse hstep) trivial
  | goOn i => exact goOn_onCourse hs hcourse hstep
  | close =>
      obtain rfl := Option.some.inj hstep
      exact iff_of_true hcourse trivial

/-- What is expected, when the last request is on course. -/
theorem LastWins.of_onCourse (hs : Consistent s) (hcourse : OnCourse s) :
    LastWins s where
  breakpoints hfinished id req hlast line := by
    have hnone : ∀ P : Handler → Prop, ¬ ∃ k ∈ s.handlers, k.id = id ∧ P k := by
      rintro P ⟨k, hk, -⟩
      rw [hfinished] at hk
      exact List.not_mem_nil hk
    have hline := hcourse id req hlast line
    rw [WillRemove, WillAdd] at hline
    rw [← hline, or_iff_left (hnone _), and_iff_left (hnone _)]
  answered hfinished := by
    have hanswered := hs.answered
    rw [hfinished, List.map_nil, List.append_nil] at hanswered
    exact hanswered
  increasing := by
    rw [hs.numbered.1]
    exact List.pairwise_lt_range' ..

/-- In every run each request has been answered once or has a handler, and the numbers of the
messages increase. A run keeps each last `setBreakpoints` on course iff its steps are harmless,
and then the last one wins. -/
theorem lastWins_run (events : List ChannelEvent) (s : Channel)
    (hrun : run step new events = some s) :
    (s.responses ++ s.handlers.map fun h => h.request.answer).Perm
        (s.requests.map DapRequest.answer) ∧
      (s.messages.map Message.seq).Pairwise (· < ·) ∧
      ((∀ pre rest t, events = pre ++ rest → run step new pre = some t → OnCourse t) ↔
        EveryStep step Harmless new events) ∧
      (EveryStep step Harmless new events → LastWins s) := by
  have hkept : ∀ s e t, Consistent s → step s e = some t → Consistent t :=
    fun _ _ _ hs h => hs.step h
  have hs := run_invariant hkept consistent_new hrun
  have hiff := reached_iff_everyStep hkept (fun _ _ _ hs hcourse h => onCourse_iff hs hcourse h)
    consistent_new (fun _ _ hlast => nomatch hlast) (Option.isSome_of_eq_some hrun)
  refine ⟨hs.answered, ?_, hiff, fun hharmless => ?_⟩
  · rw [hs.numbered.1]
    exact List.pairwise_lt_range' ..
  · exact .of_onCourse hs (hiff.mpr hharmless events [] s (List.append_nil _).symm hrun)

/-- A request for one breakpoint, by itself. -/
def oneRequest : List ChannelEvent := [.send ⟨1, .setBreakpoints, [3]⟩, .goOn 0, .goOn 0]

theorem lastWins_run_one : ∃ s, run step new oneRequest = some s ∧ LastWins s := by
  have hharmless : EveryStep step Harmless new oneRequest := by
    refine ⟨trivial, (harmless_goOn rfl rfl).mpr fun hid => absurd rfl hid,
      (harmless_goOn rfl rfl).mpr fun hid => absurd rfl hid, trivial⟩
  exact ⟨_, rfl, (lastWins_run oneRequest _ rfl).2.2.2 hharmless⟩

/-- Two requests that overlap: each finds no breakpoints and adds its own. -/
theorem overlap_not_lastWins :
    ¬ ∀ events s, run step new events = some s → LastWins s := by
  intro h
  have hwins := h [.send ⟨1, .setBreakpoints, [1]⟩, .send ⟨2, .setBreakpoints, [2]⟩,
    .goOn 0, .goOn 1, .goOn 0, .goOn 0] _ rfl
  have hline := (hwins.breakpoints rfl 1 _ rfl 1).mp (by decide)
  exact absurd hline (by decide)

end Weftik.DebugChannel
