import Weftik.DapBridge.Protocol
import Weftik.Lib.Transition

/-!
# Sessions of the Debug Bridge

The bridge starts an adapter process for each session. The sessions share the requests that wait
for an answer, the buffer and the handle of the process, and the callbacks of a process do not
say whose they are: when a process ends after the next one was started, its callback rejects the
requests of the next one and takes its handle away.

## Main definitions

* `RealDapBridge`, `BridgeEvent`, `step`: the bridge as a transition system.
* `Isolated`: an event of a process changes nothing of a later session.
* `Harmless`: the condition on the event and the state before it.

## Main results

* `Consistent.step`: a request waits for an answer until its promise is settled.
* `isolated_iff`: the step is isolated iff the event is harmless.
* `isolated_run_iff`: the sessions of a run are isolated iff every event of it is harmless.
-/

open Transition

namespace Weftik.DapBridge

open Js

/-! ### The bridge -/

/-- `DapResponse`. -/
structure DapResponse (B : Type) where
  requestSeq : ℕ
  success : Bool
  message : Option String
  body : B

/-- `DapFrame`. What is no response to a number is ignored, as an event is. -/
inductive DapFrame (B : Type)
  | response (frame : DapResponse B)
  | event

/-- What a promise was settled with. -/
inductive Settled (B : Type)
  | resolved (frame : DapResponse B)
  | rejected (reason : String)

/-- The request that a call of `connect` or of `disconnect` waits for. -/
inductive Awaited
  | initializing
  | attaching
  | disconnecting

/-- The bridge. Processes have the numbers in which they were started. `promise`, `calls`,
`spawned` and `writable` are of the runtime: the promises of the requests, the calls that wait,
the processes that were started, and whether one takes input. `owner` is a ghost field: the
process that a request was written to. -/
structure RealDapBridge (B : Type) where
  proc : Option ℕ
  seq : ℕ
  pending : ℕ → Option String
  buf : JsString
  connected : Bool
  promise : ℕ → Option (Settled B)
  calls : List (Awaited × ℕ)
  spawned : ℕ
  writable : ℕ → Bool
  owner : ℕ → ℕ

namespace RealDapBridge

variable {B : Type}

/-- The bridge after its constructor. -/
def new : RealDapBridge B where
  proc := none
  seq := 1
  pending _ := none
  buf := []
  connected := false
  promise _ := none
  calls := []
  spawned := 0
  writable _ := false
  owner _ := 0

/-- `request`, with the number of the request; `none` when it is rejected at once. -/
def request (s : RealDapBridge B) (command : String) : Option (RealDapBridge B × ℕ) :=
  match s.proc with
  | none => none
  | some p =>
      if s.writable p then
        some ({ s with
          seq := s.seq + 1
          pending := Function.update s.pending s.seq (some command)
          owner := Function.update s.owner s.seq p }, s.seq)
      else none

/-- A call goes on to `await this.request(..)`. It ends when the request is rejected. -/
def await (s : RealDapBridge B) (command : String) (awaited : Awaited) : RealDapBridge B :=
  match s.request command with
  | none => s
  | some (t, n) => { t with calls := t.calls ++ [(awaited, n)] }

/-- `kill`. -/
def kill (s : RealDapBridge B) : RealDapBridge B := { s with proc := none }

/-- `spawn(this.adapterPath, ..)`, with whether the process takes input. -/
def spawn (s : RealDapBridge B) (takesInput : Bool) : RealDapBridge B :=
  { s with
    proc := some s.spawned
    spawned := s.spawned + 1
    writable := Function.update s.writable s.spawned takesInput }

/-- `connect`, up to its first request. -/
def connect (s : RealDapBridge B) (takesInput : Bool) : RealDapBridge B :=
  if s.connected then s else (s.spawn takesInput).await "initialize" .initializing

/-- `disconnect`, up to its request. -/
def disconnect (s : RealDapBridge B) : RealDapBridge B :=
  if s.connected then s.await "disconnect" .disconnecting else s.kill

/-- The rest of a call whose request was answered. -/
def resume (s : RealDapBridge B) : Awaited → RealDapBridge B
  | .initializing => s.await "attach" .attaching
  | .attaching => { s with connected := true }
  | .disconnecting => kill { s with connected := false }

/-- A request is no longer pending. A promise stays as it was settled first. -/
def settle (s : RealDapBridge B) (n : ℕ) (settled : Settled B) : RealDapBridge B :=
  { s with
    pending := Function.update s.pending n none
    promise := Function.update s.promise n ((s.promise n).or (some settled)) }

/-- `onFrame`. -/
def onFrame (s : RealDapBridge B) : DapFrame B → RealDapBridge B
  | .event => s
  | .response frame =>
      match s.pending frame.requestSeq with
      | none => s
      | some command =>
          s.settle frame.requestSeq <|
            if frame.success then .resolved frame
            else .rejected (command ++ ": " ++ frame.message.getD "DAP error")

/-- `onData`, with `chunk.toString('utf8')`. -/
def onData (lossy : List UInt8 → String) (parse : JsString → Option (DapFrame B))
    (s : RealDapBridge B) (chunk : List UInt8) : RealDapBridge B :=
  let (frames, rest) := decodeFrames parse (s.buf ++ units (lossy chunk))
  frames.foldl onFrame { s with buf := rest }

/-- `rejectAll`. -/
def rejectAll (s : RealDapBridge B) (reason : String) : RealDapBridge B :=
  { s with
    pending := fun _ => none
    promise := fun n =>
      match s.pending n with
      | none => s.promise n
      | some _ => (s.promise n).or (some (.rejected reason)) }

/-- `onExit`. -/
def onExit (s : RealDapBridge B) : RealDapBridge B :=
  { s.rejectAll "dap-adapter process exited" with connected := false, proc := none }

end RealDapBridge

open RealDapBridge

/-! ### The transition system -/

/-- What happens to the bridge: its methods are called, a call goes on after its request, and
the callbacks of a process come, in any order. -/
inductive BridgeEvent
  | connect (takesInput : Bool)
  | disconnect
  | command (name : String)
  | goOn (i : ℕ)
  | data (p : ℕ) (chunk : List UInt8)
  | exit (p : ℕ)
  | error (p : ℕ) (reason : String)
  | writeFailed (n : ℕ) (reason : String)
  | closeStdin (p : ℕ)

variable {B : Type} (lossy : List UInt8 → String) (parse : JsString → Option (DapFrame B))

/-- One step; `none` when the event cannot happen. -/
def step (s : RealDapBridge B) : BridgeEvent → Option (RealDapBridge B)
  | .connect takesInput => some (s.connect takesInput)
  | .disconnect => some s.disconnect
  | .command name => some ((s.request name).elim s Prod.fst)
  | .goOn i =>
      match s.calls[i]? with
      | none => none
      | some (awaited, n) =>
          match s.promise n with
          | none => none
          | some (.rejected _) => some { s with calls := s.calls.eraseIdx i }
          | some (.resolved _) => some (resume { s with calls := s.calls.eraseIdx i } awaited)
  | .data p chunk =>
      if p < s.spawned then some (RealDapBridge.onData lossy parse s chunk) else none
  | .exit p => if p < s.spawned then some s.onExit else none
  | .error p reason => if p < s.spawned then some (s.rejectAll reason) else none
  | .writeFailed n reason =>
      if 0 < n ∧ n < s.seq then some (s.settle n (.rejected reason)) else none
  | .closeStdin p =>
      if p < s.spawned then some { s with writable := Function.update s.writable p false }
      else none

/-! ### The property and its condition -/

/-- The process that an event comes from. A call that goes on does so because of the process
that its request was written to. -/
def source (s : RealDapBridge B) : BridgeEvent → Option ℕ
  | .connect _ | .disconnect | .command _ => none
  | .goOn i => s.calls[i]?.map fun call => s.owner call.2
  | .data p _ | .exit p | .error p _ | .closeStdin p => some p
  | .writeFailed n _ => some (s.owner n)

/-- Nothing of a session after that of the process `p` has changed: no request is resolved,
rejected or dropped, the handle of its process stays, and so does the buffer. -/
structure Spares (p : ℕ) (s t : RealDapBridge B) : Prop where
  requests : ∀ n < s.seq, p < s.owner n → t.pending n = s.pending n ∧ t.promise n = s.promise n
  proc : ∀ q, p < q → s.proc = some q → t.proc = some q
  buf : p + 1 < s.spawned → t.buf = s.buf

/-- An event of a process spares the later sessions, and a session begins with a buffer in which
no earlier process has left anything. -/
def Isolated (s : RealDapBridge B) (e : BridgeEvent) : Prop :=
  ∀ t, step lossy parse s e = some t →
    (∀ p, source s e = some p → Spares p s t) ∧ (s.spawned < t.spawned → s.buf = [])

/-- A text that completes what the buffer has begun, and begins it again: for an empty buffer,
a text of whole frames. -/
def Completes (buf text : JsString) : Prop :=
  text = [] ∨ ∃ whole, text = whole ++ buf ∧ (decodeFrames parse (buf ++ whole)).2 = []

/-- No request that is written to a process after `p` is waiting for an answer. -/
def NoneLater (s : RealDapBridge B) (p : ℕ) : Prop :=
  ∀ n command, s.pending n = some command → s.owner n ≤ p

/-- The process of the handle was started after `p`. -/
def Superseded (s : RealDapBridge B) (p : ℕ) : Prop := ∃ q, s.proc = some q ∧ p < q

/-- The condition on an event and the state before it. A process starts with an empty buffer.
When there is a later process, the output of a process leaves the buffer as it is and has no
answer to a request of that process; a process that ends or fails does so when no request of a
later one is waiting, and one that ends when the handle is of no later process; and a call of
`disconnect` goes on when no later process has been started. -/
def Harmless (s : RealDapBridge B) : BridgeEvent → Prop
  | .connect _ => s.connected = false → s.buf = []
  | .data p chunk =>
      (p + 1 < s.spawned → Completes parse s.buf (units (lossy chunk))) ∧
        ∀ frame, .response frame ∈ (decodeFrames parse (s.buf ++ units (lossy chunk))).1 →
          ∀ command, s.pending frame.requestSeq = some command → s.owner frame.requestSeq ≤ p
  | .exit p => NoneLater s p ∧ ¬ Superseded s p
  | .error p _ => NoneLater s p
  | .goOn i => ∀ n frame, s.calls[i]? = some (.disconnecting, n) →
      s.promise n = some (.resolved frame) → ¬ Superseded s (s.owner n)
  | .disconnect | .command _ | .writeFailed _ _ | .closeStdin _ => True

/-! ### What the operations change -/

section Operations

variable (s : RealDapBridge B)

/-- A request is written to the process of the handle, or rejected at once. -/
theorem request_cases (command : String) :
    s.request command = none ∨ ∃ p, s.proc = some p ∧
      s.request command = some ({ s with
        seq := s.seq + 1
        pending := Function.update s.pending s.seq (some command)
        owner := Function.update s.owner s.seq p }, s.seq) := by
  rw [request]
  cases hproc : s.proc with
  | none => exact Or.inl rfl
  | some p =>
      by_cases h : s.writable p = true
      · refine Or.inr ⟨p, rfl, ?_⟩
        simp only [h, if_true]
      · exact Or.inl (if_neg h)

/-- What a call does when it goes on to a request. -/
theorem await_cases (command : String) (awaited : Awaited) :
    s.await command awaited = s ∨ ∃ p, s.proc = some p ∧
      s.await command awaited = { s with
        seq := s.seq + 1
        pending := Function.update s.pending s.seq (some command)
        owner := Function.update s.owner s.seq p
        calls := s.calls ++ [(awaited, s.seq)] } := by
  rcases request_cases s command with h | ⟨p, hproc, h⟩
  · exact Or.inl (by rw [await, h])
  · exact Or.inr ⟨p, hproc, by rw [await, h]⟩

/-- A call that goes on to a request spares every session. -/
theorem spares_await (p : ℕ) (command : String) (awaited : Awaited) :
    Spares p s (s.await command awaited) := by
  rcases await_cases s command awaited with h | ⟨q, -, h⟩
  · rw [h]
    exact ⟨fun _ _ _ => ⟨rfl, rfl⟩, fun _ _ hproc => hproc, fun _ => rfl⟩
  · rw [h]
    exact ⟨fun n hn _ => ⟨Function.update_of_ne (Nat.ne_of_lt hn) .., rfl⟩,
      fun _ _ hproc => hproc, fun _ => rfl⟩

theorem await_spawned (command : String) (awaited : Awaited) :
    (s.await command awaited).spawned = s.spawned := by
  rcases await_cases s command awaited with h | ⟨q, -, h⟩ <;> rw [h]

theorem await_promise (command : String) (awaited : Awaited) :
    (s.await command awaited).promise = s.promise := by
  rcases await_cases s command awaited with h | ⟨q, -, h⟩ <;> rw [h]

/-- A call that goes on was waiting, and its request is settled. -/
theorem goOn_cases {s t : RealDapBridge B} {i : ℕ} (h : step lossy parse s (.goOn i) = some t) :
    ∃ awaited n settled, s.calls[i]? = some (awaited, n) ∧ s.promise n = some settled ∧
      t = match settled with
        | .rejected _ => { s with calls := s.calls.eraseIdx i }
        | .resolved _ => resume { s with calls := s.calls.eraseIdx i } awaited := by
  rw [step] at h
  cases hcall : s.calls[i]? with
  | none => rw [hcall] at h; cases h
  | some call =>
      cases hpromise : s.promise call.2 with
      | none => simp only [hcall, hpromise] at h; cases h
      | some settled =>
          simp only [hcall, hpromise] at h
          refine ⟨call.1, call.2, settled, rfl, hpromise, ?_⟩
          cases settled <;> exact (Option.some.inj h).symm

/-- A frame is ignored, or settles the request that it answers. -/
theorem onFrame_cases (f : DapFrame B) :
    s.onFrame f = s ∨ ∃ frame command settled, f = .response frame ∧
      s.pending frame.requestSeq = some command ∧
      s.onFrame f = s.settle frame.requestSeq settled := by
  cases f with
  | event => exact Or.inl rfl
  | response frame =>
      rw [onFrame]
      cases hpending : s.pending frame.requestSeq with
      | none => exact Or.inl rfl
      | some command => exact Or.inr ⟨frame, command, _, rfl, hpending, rfl⟩

/-- A request that a frame answers is no longer pending. -/
theorem onFrame_answered (frame : DapResponse B) :
    (s.onFrame (.response frame)).pending frame.requestSeq = none := by
  rw [onFrame]
  cases hpending : s.pending frame.requestSeq with
  | none => exact hpending
  | some command => exact Function.update_self ..

end Operations

section Frames

variable {s : RealDapBridge B} {frames : List (DapFrame B)}

/-- Frames keep what each of them keeps. -/
theorem foldl_onFrame {I : RealDapBridge B → Prop}
    (hI : ∀ s, I s → ∀ f ∈ frames, I (s.onFrame f)) (hs : I s) : I (frames.foldl onFrame s) := by
  induction frames generalizing s with
  | nil => exact hs
  | cons f frames ih =>
      refine ih (fun s hs f hf => hI s hs f (List.mem_cons_of_mem _ hf)) ?_
      exact hI s hs f List.mem_cons_self

/-- Frames change the requests and nothing else. -/
theorem foldl_onFrame_frame (frames : List (DapFrame B)) (s : RealDapBridge B) :
    (frames.foldl onFrame s).buf = s.buf ∧ (frames.foldl onFrame s).proc = s.proc ∧
      (frames.foldl onFrame s).spawned = s.spawned := by
  refine foldl_onFrame (I := fun t => t.buf = s.buf ∧ t.proc = s.proc ∧ t.spawned = s.spawned)
    (fun t ht f _ => ?_) ⟨rfl, rfl, rfl⟩
  rcases onFrame_cases t f with h | ⟨frame, command, settled, -, -, h⟩
  · rwa [h]
  · rw [h]
    exact ht

/-- Frames that do not answer a request that is pending leave it alone. -/
theorem foldl_onFrame_of_not_answered {n : ℕ}
    (h : ∀ frame, .response frame ∈ frames → frame.requestSeq = n → s.pending n = none) :
    (frames.foldl onFrame s).pending n = s.pending n ∧
      (frames.foldl onFrame s).promise n = s.promise n := by
  refine foldl_onFrame (I := fun t => t.pending n = s.pending n ∧ t.promise n = s.promise n)
    (fun t ht f hf => ?_) ⟨rfl, rfl⟩
  rcases onFrame_cases t f with heq | ⟨frame, command, settled, rfl, hpending, heq⟩
  · rwa [heq]
  · have hn : n ≠ frame.requestSeq := by
      rintro rfl
      rw [ht.1, h frame hf rfl] at hpending
      cases hpending
    rw [heq]
    exact ⟨(Function.update_of_ne hn ..).trans ht.1, (Function.update_of_ne hn ..).trans ht.2⟩

/-- A request that one of the frames answers is no longer pending. -/
theorem pending_foldl_onFrame {frame : DapResponse B} (h : .response frame ∈ frames) :
    (frames.foldl onFrame s).pending frame.requestSeq = none := by
  obtain ⟨before, after, rfl⟩ := List.append_of_mem h
  have hnone := onFrame_answered (before.foldl onFrame s) frame
  rw [List.foldl_append, List.foldl_cons,
    (foldl_onFrame_of_not_answered fun _ _ _ => hnone).1, hnone]

end Frames

/-! ### Requests and promises -/

/-- A request that waits for an answer was written to a process, and its promise is open. The
handle is of a process that was started, and the buffer holds no whole frame. -/
structure Consistent (s : RealDapBridge B) : Prop where
  sent : ∀ n command, s.pending n = some command →
    n < s.seq ∧ s.owner n < s.spawned ∧ s.promise n = none
  unsent : ∀ n, s.seq ≤ n → s.promise n = none
  proc : ∀ q, s.proc = some q → q < s.spawned
  buf : decodeFrames parse s.buf = ([], s.buf)

section Consistent

variable {parse} {s : RealDapBridge B}

theorem consistent_new : Consistent parse (new : RealDapBridge B) where
  sent _ _ h := nomatch h
  unsent _ _ := rfl
  proc _ h := nomatch h
  buf := decodeFrames_of_none parse rfl

/-- A request that is sent waits for an answer. -/
theorem Consistent.sends (hs : Consistent parse s) {p : ℕ} (hproc : s.proc = some p)
    (command : String) (calls : List (Awaited × ℕ)) :
    Consistent parse { s with
      seq := s.seq + 1
      pending := Function.update s.pending s.seq (some command)
      owner := Function.update s.owner s.seq p
      calls := calls } where
  sent n c h := by
    by_cases hn : n = s.seq
    · subst hn
      refine ⟨Nat.lt_succ_self _, ?_, hs.unsent _ le_rfl⟩
      exact lt_of_eq_of_lt (Function.update_self ..) (hs.proc p hproc)
    · obtain ⟨hlt, howner, hpromise⟩ := hs.sent n c ((Function.update_of_ne hn ..).symm.trans h)
      exact ⟨Nat.lt_succ_of_lt hlt, lt_of_eq_of_lt (Function.update_of_ne hn ..) howner, hpromise⟩
  unsent n h := hs.unsent n (Nat.le_of_succ_le h)
  proc := hs.proc
  buf := hs.buf

theorem Consistent.await (hs : Consistent parse s) (command : String) (awaited : Awaited) :
    Consistent parse (s.await command awaited) := by
  rcases await_cases s command awaited with h | ⟨p, hproc, h⟩
  · rwa [h]
  · rw [h]
    exact hs.sends hproc command _

theorem Consistent.spawn (hs : Consistent parse s) (takesInput : Bool) :
    Consistent parse (s.spawn takesInput) where
  sent n c h := by
    obtain ⟨hlt, howner, hpromise⟩ := hs.sent n c h
    exact ⟨hlt, Nat.lt_succ_of_lt howner, hpromise⟩
  unsent := hs.unsent
  proc q h := by
    obtain rfl := Option.some.inj h
    exact Nat.lt_succ_self _
  buf := hs.buf

theorem Consistent.kill (hs : Consistent parse s) : Consistent parse s.kill :=
  { hs with proc := fun _ h => nomatch h }

/-- A request that was sent is settled. -/
theorem Consistent.settle (hs : Consistent parse s) {n : ℕ} (hn : n < s.seq)
    (settled : Settled B) : Consistent parse (s.settle n settled) where
  sent m c h := by
    have hm : m ≠ n := by
      rintro rfl
      cases (Function.update_self ..).symm.trans h
    obtain ⟨hlt, howner, hpromise⟩ := hs.sent m c ((Function.update_of_ne hm ..).symm.trans h)
    exact ⟨hlt, howner, (Function.update_of_ne hm ..).trans hpromise⟩
  unsent m h := by
    have hm : m ≠ n := (lt_of_lt_of_le hn h).ne'
    exact (Function.update_of_ne hm ..).trans (hs.unsent m h)
  proc := hs.proc
  buf := hs.buf

theorem Consistent.onFrame (hs : Consistent parse s) (f : DapFrame B) :
    Consistent parse (s.onFrame f) := by
  rcases onFrame_cases s f with h | ⟨frame, command, settled, -, hpending, h⟩
  · rwa [h]
  · rw [h]
    exact hs.settle (hs.sent _ command hpending).1 settled

theorem Consistent.rejectAll (hs : Consistent parse s) (reason : String) :
    Consistent parse (s.rejectAll reason) where
  sent _ _ h := nomatch h
  unsent n h := by
    have hnone : s.pending n = none := by
      cases hpending : s.pending n with
      | none => rfl
      | some command => exact absurd (hs.sent n command hpending).1 (Nat.not_lt.mpr h)
    rw [RealDapBridge.rejectAll]
    simp only [hnone]
    exact hs.unsent n h
  proc := hs.proc
  buf := hs.buf

/-- What is consistent stays so. -/
theorem Consistent.step (hs : Consistent parse s) {e : BridgeEvent} {t : RealDapBridge B}
    (h : step lossy parse s e = some t) : Consistent parse t := by
  cases e with
  | connect takesInput =>
      obtain rfl := Option.some.inj h
      rw [RealDapBridge.connect]
      by_cases hconnected : s.connected = true
      · rwa [if_pos hconnected]
      · rw [if_neg hconnected]
        exact (hs.spawn takesInput).await _ _
  | disconnect =>
      obtain rfl := Option.some.inj h
      rw [RealDapBridge.disconnect]
      by_cases hconnected : s.connected = true
      · rw [if_pos hconnected]
        exact hs.await _ _
      · rw [if_neg hconnected]
        exact hs.kill
  | command name =>
      obtain rfl := Option.some.inj h
      rcases request_cases s name with hnone | ⟨p, hproc, hsome⟩
      · rwa [hnone]
      · rw [hsome]
        exact hs.sends hproc name s.calls
  | goOn i =>
      obtain ⟨awaited, n, settled, -, -, rfl⟩ := goOn_cases lossy parse h
      have hends : Consistent parse { s with calls := s.calls.eraseIdx i } := { hs with }
      cases settled with
      | rejected reason => exact hends
      | resolved frame =>
          cases awaited with
          | initializing => exact hends.await _ _
          | attaching => exact { hends with }
          | disconnecting => exact Consistent.kill { hends with }
  | data p chunk =>
      rw [DapBridge.step] at h
      obtain ⟨-, h⟩ := Option.ite_none_right_eq_some.mp h
      obtain rfl := Option.some.inj h
      refine foldl_onFrame (fun _ ht f _ => Consistent.onFrame ht f) ?_
      exact { hs with buf := decodeFrames_rest parse _ }
  | exit p =>
      rw [DapBridge.step] at h
      obtain ⟨-, h⟩ := Option.ite_none_right_eq_some.mp h
      obtain rfl := Option.some.inj h
      exact { hs.rejectAll _ with proc := fun _ hq => nomatch hq }
  | error p reason =>
      rw [DapBridge.step] at h
      obtain ⟨-, h⟩ := Option.ite_none_right_eq_some.mp h
      obtain rfl := Option.some.inj h
      exact hs.rejectAll reason
  | writeFailed n reason =>
      rw [DapBridge.step] at h
      obtain ⟨hn, h⟩ := Option.ite_none_right_eq_some.mp h
      obtain rfl := Option.some.inj h
      exact hs.settle hn.2 _
  | closeStdin p =>
      rw [DapBridge.step] at h
      obtain ⟨-, h⟩ := Option.ite_none_right_eq_some.mp h
      obtain rfl := Option.some.inj h
      exact { hs with }

end Consistent

/-! ### The buffer -/

section Buffer

/-- A text with a separator has a header. -/
theorem splitHeader_isSome (before after : JsString) :
    (splitHeader (before ++ (separator ++ after))).isSome = true := by
  induction before with
  | nil =>
      have hprefix : separator <+: separator ++ after := List.prefix_append ..
      rw [List.nil_append]
      exact congrArg Option.isSome (if_pos hprefix)
  | cons u us ih =>
      rw [List.cons_append, splitHeader]
      by_cases hprefix : separator <+: u :: (us ++ (separator ++ after))
      · rw [if_pos hprefix]
        rfl
      · rw [if_neg hprefix, Option.isSome_map]
        exact ih

/-- What follows the first separator makes no difference to where it is. -/
theorem splitHeader_replace {header after : JsString}
    (h : splitHeader (header ++ (separator ++ after)) = some (header, after)) (rest : JsString) :
    splitHeader (header ++ (separator ++ rest)) = some (header, rest) := by
  obtain ⟨p, hp⟩ := Option.isSome_iff_exists.mp (splitHeader_isSome header [])
  have hafter := splitHeader_append hp after
  rw [List.append_nil, List.append_assoc, h] at hafter
  obtain ⟨hbefore, hnil⟩ := Prod.mk.inj (Option.some.inj hafter)
  have hlength := congrArg List.length hnil
  rw [List.length_append] at hlength
  have hempty : p.2 = [] := List.length_eq_zero_iff.mp (by omega)
  have hrest := splitHeader_append hp rest
  rwa [List.append_nil, List.append_assoc, hempty, ← hbefore] at hrest

/-- What was decoded is a text of its own. -/
theorem decodeFrames_consumed (s : JsString) :
    ∃ whole, s = whole ++ (decodeFrames parse s).2 ∧ (decodeFrames parse whole).2 = [] := by
  induction hn : s.length using Nat.strong_induction_on generalizing s with
  | _ n ih =>
      have hnil : (decodeFrames parse []).2 = [] :=
        congrArg Prod.snd (decodeFrames_of_none parse rfl)
      cases hsplit : splitHeader s with
      | none =>
          rw [decodeFrames_of_none parse hsplit]
          exact ⟨[], rfl, hnil⟩
      | some p =>
          obtain ⟨header, after⟩ := p
          have hlength := splitHeader_length hsplit
          have heq := eq_of_splitHeader hsplit
          have hs := decodeFrames_of_some parse hsplit
          rw [heq] at hsplit
          cases hcontent : contentLength header with
          | none =>
              rw [hcontent] at hs
              obtain ⟨whole, hafter, hwhole⟩ := ih after.length (by omega) after rfl
              have hreplace := decodeFrames_of_some parse (splitHeader_replace hsplit whole)
              rw [hcontent] at hreplace
              refine ⟨header ++ (separator ++ whole), ?_, ?_⟩
              · rw [hs, List.append_assoc, List.append_assoc, ← hafter]
                exact heq
              · rw [hreplace, hwhole]
          | some length =>
              rw [hcontent] at hs
              simp only at hs
              by_cases hlt : after.length < length
              · rw [if_pos hlt] at hs
                rw [hs]
                exact ⟨[], rfl, hnil⟩
              · rw [if_neg hlt] at hs
                obtain ⟨whole, hafter, hwhole⟩ := ih (after.drop length).length
                  (by rw [List.length_drop]; omega) _ rfl
                have hbody : (after.take length).length = length :=
                  List.length_take_of_le (Nat.le_of_not_lt hlt)
                have hreplace := decodeFrames_of_some parse
                  (splitHeader_replace hsplit (after.take length ++ whole))
                have hnot : ¬ (after.take length ++ whole).length < length := by
                  rw [List.length_append]
                  omega
                have hdrop : (after.take length ++ whole).drop length = whole := by
                  rw [List.drop_append_of_le_length hbody.ge, List.drop_eq_nil_of_le hbody.le,
                    List.nil_append]
                rw [hcontent] at hreplace
                simp only [if_neg hnot, hdrop] at hreplace
                refine ⟨header ++ (separator ++ (after.take length ++ whole)), ?_, ?_⟩
                · rw [hs, List.append_assoc, List.append_assoc, List.append_assoc, ← hafter,
                    List.take_append_drop]
                  exact heq
                · rw [hreplace, hwhole]

variable {parse} in
/-- The text after which the buffer is as it was. -/
theorem completes_text_iff {buf : JsString} (hbuf : decodeFrames parse buf = ([], buf))
    (text : JsString) : Completes parse buf text ↔ (decodeFrames parse (buf ++ text)).2 = buf := by
  constructor
  · rintro (rfl | ⟨whole, rfl, hwhole⟩)
    · rw [List.append_nil, hbuf]
    · rw [← List.append_assoc, decodeFrames_append, hwhole, List.nil_append, hbuf]
  · intro h
    obtain ⟨whole, heq, hwhole⟩ := decodeFrames_consumed parse (buf ++ text)
    rw [h] at heq
    rcases List.append_eq_append_iff.mp heq with ⟨rest, hrest, htext⟩ | ⟨rest, hrest, htext⟩
    · refine Or.inr ⟨rest, htext, ?_⟩
      rwa [← hrest]
    · -- A part of the buffer that is decoded by itself is empty.
      have hpart := decodeFrames_append parse whole rest
      rw [← hrest, hbuf, hwhole, List.nil_append] at hpart
      have hrest' : buf = (decodeFrames parse rest).2 := congrArg Prod.snd hpart
      obtain ⟨before, hbefore, -⟩ := decodeFrames_consumed parse rest
      have hlength := congrArg List.length hbefore
      have hwhole' := congrArg List.length hrest
      have htext' := congrArg List.length htext
      rw [List.length_append, ← hrest'] at hlength
      rw [List.length_append] at hwhole' htext'
      exact Or.inl (List.length_eq_zero_iff.mp (by omega))

end Buffer

/-! ### Isolation -/

section Isolation

variable {parse} {s : RealDapBridge B}

theorem connect_spawned (s : RealDapBridge B) (takesInput : Bool) :
    (s.connect takesInput).spawned = if s.connected then s.spawned else s.spawned + 1 := by
  rw [connect, apply_ite RealDapBridge.spawned, await_spawned]
  rfl

theorem disconnect_spawned (s : RealDapBridge B) : s.disconnect.spawned = s.spawned := by
  rw [disconnect, apply_ite RealDapBridge.spawned, await_spawned]
  exact ite_self _

theorem request_spawned (s : RealDapBridge B) (name : String) :
    ((s.request name).elim s Prod.fst).spawned = s.spawned := by
  rcases request_cases s name with h | ⟨p, -, h⟩ <;> rw [h] <;> rfl

/-- When the requests are rejected, the later ones are spared iff none of them was waiting. -/
theorem rejectAll_spares (hs : Consistent parse s) (p : ℕ) (reason : String) :
    (∀ n < s.seq, p < s.owner n → (s.rejectAll reason).pending n = s.pending n ∧
      (s.rejectAll reason).promise n = s.promise n) ↔ NoneLater s p := by
  constructor
  · intro h n command hpending
    by_contra howner
    have hkept := (h n (hs.sent n command hpending).1 (Nat.lt_of_not_le howner)).1
    rw [hpending] at hkept
    cases hkept
  · intro h n _ howner
    have hnone : s.pending n = none := by
      cases hpending : s.pending n with
      | none => rfl
      | some command => exact absurd (h n command hpending) (Nat.not_le.mpr howner)
    rw [rejectAll]
    simp only [hnone]
    exact ⟨trivial, trivial⟩

/-- What comes from a process that was started. -/
theorem NoneLater.of_not_lt (hs : Consistent parse s) {p : ℕ} (h : ¬ p < s.spawned) :
    NoneLater s p ∧ ¬ Superseded s p := by
  refine ⟨fun n command hpending => ?_, ?_⟩
  · have := (hs.sent n command hpending).2.1
    omega
  · rintro ⟨q, hproc, hq⟩
    have := hs.proc q hproc
    omega

/-- Output of a process. -/
theorem data_iff (hs : Consistent parse s) (p : ℕ) (chunk : List UInt8) :
    Isolated lossy parse s (.data p chunk) ↔ Harmless lossy parse s (.data p chunk) := by
  have hframe := foldl_onFrame_frame (decodeFrames parse (s.buf ++ units (lossy chunk))).1
    { s with buf := (decodeFrames parse (s.buf ++ units (lossy chunk))).2 }
  obtain ⟨hbuf, hproc, hspawned⟩ := hframe
  constructor
  · intro h
    have hspares : p < s.spawned → Spares p s (RealDapBridge.onData lossy parse s chunk) :=
      fun hp => (h _ (if_pos hp)).1 p rfl
    refine ⟨fun hp => (completes_text_iff hs.buf _).mpr ?_, fun frame hmem command hpending => ?_⟩
    · exact hbuf.symm.trans ((hspares (Nat.lt_of_succ_lt hp)).buf hp)
    · by_contra howner
      obtain ⟨hlt, hstarted, -⟩ := hs.sent _ command hpending
      have howner := Nat.lt_of_not_le howner
      have hkept := ((hspares (howner.trans hstarted)).requests _ hlt howner).1
      rw [RealDapBridge.onData, pending_foldl_onFrame hmem, hpending] at hkept
      cases hkept
  · rintro ⟨hcompletes, hanswers⟩ t ht
    obtain ⟨-, ht⟩ := Option.ite_none_right_eq_some.mp ht
    obtain rfl := Option.some.inj ht
    refine ⟨fun p' hp' => ?_, fun hlt => absurd hlt (hspawned.le.trans le_rfl).not_gt⟩
    obtain rfl := Option.some.inj hp'
    refine ⟨fun n _ howner => ?_, fun q _ hq => hproc.trans hq,
      fun hp => hbuf.trans ((completes_text_iff hs.buf _).mp (hcompletes hp))⟩
    refine foldl_onFrame_of_not_answered fun frame hmem hn => ?_
    subst hn
    cases hpending : s.pending frame.requestSeq with
    | none => rfl
    | some command => exact absurd (hanswers frame hmem command hpending) (Nat.not_le.mpr howner)

/-- The step is isolated iff the event is harmless. -/
theorem isolated_iff (hs : Consistent parse s) (e : BridgeEvent) :
    Isolated lossy parse s e ↔ Harmless lossy parse s e := by
  cases e with
  | connect takesInput =>
      have hspawned := connect_spawned s takesInput
      constructor
      · intro h hconnected
        rw [hconnected] at hspawned
        exact (h _ rfl).2 (by rw [hspawned]; exact Nat.lt_succ_self _)
      · rintro h t ht
        obtain rfl := Option.some.inj ht
        refine ⟨fun p hp => (nomatch hp), fun hlt => h ?_⟩
        cases hconnected : s.connected with
        | false => rfl
        | true =>
            rw [hspawned, hconnected] at hlt
            exact absurd hlt (lt_irrefl _)
  | disconnect =>
      refine iff_of_true (fun t ht => ?_) trivial
      obtain rfl := Option.some.inj ht
      rw [disconnect_spawned]
      exact ⟨fun p hp => (nomatch hp), fun hlt => absurd hlt (lt_irrefl _)⟩
  | command name =>
      refine iff_of_true (fun t ht => ?_) trivial
      obtain rfl := Option.some.inj ht
      rw [request_spawned]
      exact ⟨fun p hp => (nomatch hp), fun hlt => absurd hlt (lt_irrefl _)⟩
  | goOn i =>
      constructor
      · rintro h n frame hcall hpromise ⟨q, hproc, hq⟩
        have hsource : source s (.goOn i) = some (s.owner n) := by
          rw [source, hcall]
          rfl
        have hstep : step lossy parse s (.goOn i) =
            some (kill { s with calls := s.calls.eraseIdx i, connected := false }) := by
          simp only [step, hcall, hpromise]
          rfl
        cases ((h _ hstep).1 _ hsource).proc q hq hproc
      · intro h t ht
        obtain ⟨awaited, n, settled, hcall, hpromise, rfl⟩ := goOn_cases lossy parse ht
        have hsource : ∀ p, source s (.goOn i) = some p → p = s.owner n := by
          intro p hp
          rw [source, hcall] at hp
          exact (Option.some.inj hp).symm
        cases settled with
        | rejected reason =>
            exact ⟨fun p hp => ⟨fun _ _ _ => ⟨rfl, rfl⟩, fun q _ hproc => hproc, fun _ => rfl⟩,
              fun hlt => absurd hlt (lt_irrefl _)⟩
        | resolved frame =>
            cases awaited with
            | initializing =>
                have hspares := fun p => spares_await { s with calls := s.calls.eraseIdx i } p
                  "attach" .attaching
                have hspawned := await_spawned { s with calls := s.calls.eraseIdx i } "attach"
                  .attaching
                exact ⟨fun p hp => ⟨(hspares p).requests, (hspares p).proc, (hspares p).buf⟩,
                  fun hlt => absurd hlt hspawned.not_gt⟩
            | attaching =>
                exact ⟨fun p hp => ⟨fun _ _ _ => ⟨rfl, rfl⟩, fun q _ hproc => hproc, fun _ => rfl⟩,
                  fun hlt => absurd hlt (lt_irrefl _)⟩
            | disconnecting =>
                refine ⟨fun p hp => ?_, fun hlt => absurd hlt (lt_irrefl _)⟩
                obtain rfl := hsource p hp
                exact ⟨fun _ _ _ => ⟨rfl, rfl⟩,
                  fun q hq hproc => absurd ⟨q, hproc, hq⟩ (h n frame hcall hpromise),
                  fun _ => rfl⟩
  | data p chunk => exact data_iff lossy hs p chunk
  | exit p =>
      constructor
      · intro h
        by_cases hp : p < s.spawned
        · have hspares := (h _ (if_pos hp)).1 p rfl
          refine ⟨(rejectAll_spares hs p _).mp hspares.requests, ?_⟩
          rintro ⟨q, hproc, hq⟩
          cases hspares.proc q hq hproc
        · exact NoneLater.of_not_lt hs hp
      · rintro ⟨hnone, hsuperseded⟩ t ht
        obtain ⟨-, ht⟩ := Option.ite_none_right_eq_some.mp ht
        obtain rfl := Option.some.inj ht
        refine ⟨fun p' hp' => ?_, fun hlt => absurd hlt (lt_irrefl _)⟩
        obtain rfl := Option.some.inj hp'
        exact ⟨(rejectAll_spares hs p _).mpr hnone,
          fun q hq hproc => absurd ⟨q, hproc, hq⟩ hsuperseded, fun _ => rfl⟩
  | error p reason =>
      constructor
      · intro h
        by_cases hp : p < s.spawned
        · exact (rejectAll_spares hs p reason).mp ((h _ (if_pos hp)).1 p rfl).requests
        · exact (NoneLater.of_not_lt hs hp).1
      · intro hnone t ht
        obtain ⟨-, ht⟩ := Option.ite_none_right_eq_some.mp ht
        obtain rfl := Option.some.inj ht
        refine ⟨fun p' hp' => ?_, fun hlt => absurd hlt (lt_irrefl _)⟩
        obtain rfl := Option.some.inj hp'
        exact ⟨(rejectAll_spares hs p _).mpr hnone, fun q _ hproc => hproc, fun _ => rfl⟩
  | writeFailed n reason =>
      refine iff_of_true (fun t ht => ?_) trivial
      obtain ⟨-, ht⟩ := Option.ite_none_right_eq_some.mp ht
      obtain rfl := Option.some.inj ht
      refine ⟨fun p hp => ?_, fun hlt => absurd hlt (lt_irrefl _)⟩
      obtain rfl := Option.some.inj hp
      refine ⟨fun m _ howner => ?_, fun q _ hproc => hproc, fun _ => rfl⟩
      have hm : m ≠ n := by
        rintro rfl
        exact lt_irrefl _ howner
      exact ⟨Function.update_of_ne hm .., Function.update_of_ne hm ..⟩
  | closeStdin p =>
      refine iff_of_true (fun t ht => ?_) trivial
      obtain ⟨-, ht⟩ := Option.ite_none_right_eq_some.mp ht
      obtain rfl := Option.some.inj ht
      exact ⟨fun p hp => ⟨fun _ _ _ => ⟨rfl, rfl⟩, fun q _ hproc => hproc, fun _ => rfl⟩,
        fun hlt => absurd hlt (lt_irrefl _)⟩

end Isolation

/-! ### Promises -/

section Promises

variable {s t : RealDapBridge B}

/-- A promise stays as it was settled. -/
theorem promise_kept {e : BridgeEvent} (h : step lossy parse s e = some t) {n : ℕ}
    {settled : Settled B} (hn : s.promise n = some settled) : t.promise n = some settled := by
  have hsettle : ∀ (s : RealDapBridge B) m settled', s.promise n = some settled →
      (s.settle m settled').promise n = some settled := by
    intro s m settled' hn
    by_cases hm : n = m
    · subst hm
      refine (Function.update_self ..).trans ?_
      rw [hn]
      rfl
    · exact (Function.update_of_ne hm ..).trans hn
  have hreject : ∀ reason, (s.rejectAll reason).promise n = some settled := by
    intro reason
    rw [rejectAll]
    cases hpending : s.pending n with
    | none => simpa only [hpending] using hn
    | some command => simp only [hpending, hn, Option.some_or]
  cases e with
  | connect takesInput =>
      obtain rfl := Option.some.inj h
      rw [connect]
      by_cases hconnected : s.connected = true
      · rwa [if_pos hconnected]
      · rw [if_neg hconnected, await_promise]
        exact hn
  | disconnect =>
      obtain rfl := Option.some.inj h
      rw [disconnect]
      by_cases hconnected : s.connected = true
      · rwa [if_pos hconnected, await_promise]
      · rw [if_neg hconnected]
        exact hn
  | command name =>
      obtain rfl := Option.some.inj h
      rcases request_cases s name with h | ⟨p, -, h⟩ <;> rw [h] <;> exact hn
  | goOn i =>
      obtain ⟨awaited, m, settled', -, -, rfl⟩ := goOn_cases lossy parse h
      cases settled' with
      | rejected reason => exact hn
      | resolved frame =>
          cases awaited with
          | initializing => exact (congrFun (await_promise ..) n).trans hn
          | attaching => exact hn
          | disconnecting => exact hn
  | data p chunk =>
      obtain ⟨-, h⟩ := Option.ite_none_right_eq_some.mp h
      obtain rfl := Option.some.inj h
      refine foldl_onFrame (I := fun t => t.promise n = some settled) (fun t ht f _ => ?_) hn
      rcases onFrame_cases t f with heq | ⟨frame, command, settled', -, -, heq⟩
      · rwa [heq]
      · rw [heq]
        exact hsettle t _ _ ht
  | exit p =>
      obtain ⟨-, h⟩ := Option.ite_none_right_eq_some.mp h
      obtain rfl := Option.some.inj h
      exact hreject _
  | error p reason =>
      obtain ⟨-, h⟩ := Option.ite_none_right_eq_some.mp h
      obtain rfl := Option.some.inj h
      exact hreject reason
  | writeFailed m reason =>
      obtain ⟨-, h⟩ := Option.ite_none_right_eq_some.mp h
      obtain rfl := Option.some.inj h
      exact hsettle s m _ hn
  | closeStdin p =>
      obtain ⟨-, h⟩ := Option.ite_none_right_eq_some.mp h
      obtain rfl := Option.some.inj h
      exact hn

end Promises

/-- The sessions of a run are isolated from each other iff every event of it is harmless. In every
run a request that waits for an answer is not settled, and what is settled stays so. -/
theorem isolated_run_iff (events : List BridgeEvent) :
    (EveryStep (step lossy parse) (Isolated lossy parse) new events ↔
      EveryStep (step lossy parse) (Harmless lossy parse) new events) ∧
    ∀ s, run (step lossy parse) new events = some s →
      (∀ n command, s.pending n = some command → s.promise n = none) ∧
      ∀ later t, run (step lossy parse) s later = some t →
        ∀ n settled, s.promise n = some settled → t.promise n = some settled := by
  have hstep : ∀ s e t, Consistent parse s → step lossy parse s e = some t → Consistent parse t :=
    fun _ _ _ hs h => hs.step lossy h
  refine ⟨⟨fun h => ?_, fun h => ?_⟩, fun s hrun => ⟨?_, fun later t hlater n settled hn => ?_⟩⟩
  · exact h.imp (fun s e t hs _ => hstep s e t hs) (fun s e hs => (isolated_iff lossy hs e).mp)
      consistent_new
  · exact h.imp (fun s e t hs _ => hstep s e t hs) (fun s e hs => (isolated_iff lossy hs e).mpr)
      consistent_new
  · have hs := run_invariant hstep consistent_new hrun
    exact fun n command hpending => (hs.sent n command hpending).2.2
  · exact run_invariant (I := fun t => t.promise n = some settled)
      (fun _ _ _ hs h => promise_kept lossy parse h hs) hn hlater

/-! ### A late exit -/

/-- The first process ends when the second has been started, and the handle of the second is
gone. -/
theorem lateExit_not_isolated :
    ¬ ∀ (lossy : List UInt8 → String) (parse : JsString → Option (DapFrame Unit)) events,
      EveryStep (step lossy parse) (Isolated lossy parse) new events := by
  intro h
  have hrun := h (fun _ => "") (fun _ => none) [.connect true, .disconnect, .connect true, .exit 0]
  obtain ⟨-, -, -, hexit, -⟩ := hrun
  have hkept := ((hexit _ rfl).1 0 rfl).proc 1 (by decide) rfl
  cases hkept

end Weftik.DapBridge
