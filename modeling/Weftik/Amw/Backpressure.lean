import Weftik.Amw.Stream
import Weftik.Lib.Transition

/-!
# A Writer That Waits for a Reader

A write to a full channel looks for room a number of times, and a read makes room. Both need the
lock of the channel, which the write takes before its first look and keeps to its end, so that
the read for which it waits comes too late. A read helps only when it has the lock before the
write.

## Main definitions

* `Shared`, `Shared.step`: a writer and a reader of one channel, in the steps between which the
  scheduler may switch.
* `Window`: what has happened since the write was called.
* `Written.Succeeded`: the write has returned without an error, and its value is in the queue.

## Main results

* `Shared.yields_iff`: when the writes for which the reader reads succeed.
-/

open Transition

namespace Weftik.Amw

variable {P : Platform} {κ : Type}

open StreamChannelInner

/-! ### The writer and the reader -/

/-- Where the writer is: it has called `write`, it has the lock and some retries left, or it has
the lock and its result. -/
inductive Writing (P : Platform)
  | idle
  | called (message : Message P)
  | retrying (message : Message P) (left : ℕ)
  | returning (message : Message P) (result : Except HalError Unit)

/-- Has the writer the lock? -/
def Writing.holds : Writing P → Bool
  | .idle | .called _ => false
  | .retrying _ _ | .returning _ _ => true

/-- Is the writer between the call of `write` and its last retry? -/
def Writing.waits : Writing P → Bool
  | .called _ | .retrying _ (_ + 1) => true
  | .idle | .retrying _ 0 | .returning _ _ => false

/-- Where the reader is: it has called `read`, or it has the lock and its result. -/
inductive Reading
  | idle | called | returning
  deriving DecidableEq

/-- What has happened since the write was called: whether the queue was full then, whether the
reader has called `read` or has read before the last retry, and whether it has taken a value. -/
structure Window where
  full : Bool
  asked : Bool
  popped : Bool
  deriving DecidableEq

/-- A write that has returned, and the queue then. -/
structure Written (P : Platform) where
  message : Message P
  window : Window
  result : Except HalError Unit
  queue : List (Message P)

/-- A writer and a reader of one channel. The window and the writes are ghost fields. -/
structure Shared (P : Platform) (κ : Type) where
  inner : StreamChannelInner P κ
  writing : Writing P
  reading : Reading
  window : Window
  writes : List (Written P)

/-- The steps of the two. The writer sleeps before each retry; after the last it gives up. -/
inductive StreamEvent (P : Platform)
  | callWrite (message : Message P)
  | lockWriter
  | retry
  | giveUp
  | returnWrite
  | callRead
  | lockReader
  | returnRead

namespace Shared

/-- A new channel with some subscribers. -/
def new (config : StreamConfig) (subscribers : List κ) : Shared P κ :=
  ⟨⟨[], subscribers, config⟩, .idle, .idle, ⟨false, false, false⟩, []⟩

/-- The writer goes on to its result. -/
def finish (s : Shared P κ) (queue : List (Message P)) (message : Message P)
    (result : Except HalError Unit) : Shared P κ :=
  { s with inner := { s.inner with queue := queue }, writing := .returning message result }

/-- What the writer does when it has the lock: the start of the push, up to the first sleep. -/
def startPush (s : Shared P κ) (message : Message P) : Shared P κ :=
  if s.inner.depth ≤ s.inner.queue.length then
    match s.inner.config.queuePolicy with
    | .dropOldest => s.finish (s.inner.queue.tail ++ [message]) message (.ok ())
    | .dropNewest => s.finish s.inner.queue message (.ok ())
    | .backpressure => { s with writing := .retrying message backpressureMaxRetries }
  else s.finish (s.inner.queue ++ [message]) message (.ok ())

/-- One step; `none` when it cannot happen in this state. -/
def step (s : Shared P κ) : StreamEvent P → Option (Shared P κ)
  | .callWrite message =>
      match s.writing with
      | .idle =>
          some { s with
            writing := .called message
            window := ⟨decide (s.inner.depth ≤ s.inner.queue.length), false, false⟩ }
      | _ => none
  | .lockWriter =>
      match s.writing with
      | .called message => if s.reading = .returning then none else some (s.startPush message)
      | _ => none
  | .retry =>
      match s.writing with
      | .retrying message (left + 1) =>
          if s.inner.queue.length < s.inner.depth then
            some (s.finish (s.inner.queue ++ [message]) message (.ok ()))
          else some { s with writing := .retrying message left }
      | _ => none
  | .giveUp =>
      match s.writing with
      | .retrying message 0 =>
          some (s.finish s.inner.queue message (.error backpressureTimeout))
      | _ => none
  | .returnWrite =>
      match s.writing with
      | .returning message result =>
          some { s with
            writing := .idle
            writes := s.writes ++ [⟨message, s.window, result, s.inner.queue⟩] }
      | _ => none
  | .callRead =>
      if s.reading = .idle then
        some { s with
          reading := .called
          window := { s.window with asked := s.window.asked || s.writing.waits } }
      else none
  | .lockReader =>
      if s.reading = .called ∧ s.writing.holds = false then
        some { s with
          inner := s.inner.pop.1
          reading := .returning
          window := { s.window with
            asked := s.window.asked || s.writing.waits
            popped := s.window.popped || s.writing.waits && s.inner.pop.2.isSome } }
      else none
  | .returnRead => if s.reading = .returning then some { s with reading := .idle } else none

end Shared

/-- The write has returned without an error, and its value is the newest in the queue. -/
def Written.Succeeded (w : Written P) : Prop :=
  w.result = .ok () ∧ w.queue.getLast? = some w.message

namespace Shared

/-! ### What a write finds -/

/-- What is known of the write in progress. Before it has the lock, the queue that was full has
room when a value has been read; from then on nobody reads. -/
def Finds (inner : StreamChannelInner P κ) (window : Window) : Writing P → Prop
  | .idle => True
  | .called _ =>
      window.full = true → (window.popped = true ↔ inner.queue.length < inner.depth)
  | .retrying _ _ =>
      inner.queue.length = inner.depth ∧ (window.full = true → window.popped = false)
  | .returning message result =>
      (window.full = true →
        (result = .ok () ∧ inner.queue.getLast? = some message ↔ window.popped = true)) ∧
        ∃ before : StreamChannelInner P κ, before.push message = (inner, result)

/-- The invariant of a channel with the backpressure policy. -/
structure Sound (s : Shared P κ) : Prop where
  policy : s.inner.config.queuePolicy = .backpressure
  length_le : s.inner.queue.length ≤ s.inner.depth
  finds : Finds s.inner s.window s.writing
  writes : ∀ w ∈ s.writes,
    (w.window.full = true → (w.Succeeded ↔ w.window.popped = true)) ∧
      ∃ before after : StreamChannelInner P κ,
        before.push w.message = (after, w.result) ∧ after.queue = w.queue

theorem sound_new {config : StreamConfig} (hpolicy : config.queuePolicy = .backpressure)
    (subscribers : List κ) : Sound (P := P) (new config subscribers) :=
  ⟨hpolicy, Nat.zero_le _, trivial, List.forall_mem_nil _⟩

/-- The start of the push. -/
theorem Sound.startPush {s : Shared P κ} (h : s.Sound) {message : Message P}
    (hcalled : s.writing = .called message) : (s.startPush message).Sound := by
  have hfinds := h.finds
  rw [hcalled] at hfinds
  rw [Shared.startPush]
  by_cases hfull : s.inner.depth ≤ s.inner.queue.length
  · rw [if_pos hfull, h.policy]
    refine ⟨h.policy, h.length_le, ⟨Nat.le_antisymm h.length_le hfull, fun hstart => ?_⟩, h.writes⟩
    refine Bool.eq_false_iff.mpr fun hpopped => ?_
    exact Nat.not_lt.mpr hfull ((hfinds hstart).mp hpopped)
  · have hroom := Nat.not_le.mp hfull
    rw [if_neg hfull]
    refine ⟨h.policy, ?_, ⟨fun hstart => ?_, s.inner, ?_⟩, h.writes⟩
    · exact List.length_append.trans_le hroom
    · exact iff_of_true ⟨rfl, List.getLast?_concat⟩ ((hfinds hstart).mpr hroom)
    · rw [push, if_neg hfull]
      rfl

/-- A read. -/
theorem Finds.pop {inner : StreamChannelInner P κ} {window : Window} {writing : Writing P}
    (h : Finds inner window writing) (hlength : inner.queue.length ≤ inner.depth)
    (hholds : writing.holds = false) (asked : Bool) :
    Finds inner.pop.1
      { window with
        asked := asked
        popped := window.popped || writing.waits && inner.pop.2.isSome } writing := by
  cases writing with
  | idle => trivial
  | called message =>
      intro hstart
      have hiff := h hstart
      cases hqueue : inner.queue with
      | nil =>
          have hpop : inner.pop.2 = none := by rw [StreamChannelInner.pop, hqueue]; rfl
          have hsame : inner.pop.1.queue = inner.queue := by
            rw [StreamChannelInner.pop, hqueue]
            rfl
          simp only [hpop, Option.isSome_none, Bool.and_false, Bool.or_false, hsame]
          exact hiff
      | cons first rest =>
          have hpop : inner.pop.2 = some first := by rw [StreamChannelInner.pop, hqueue]; rfl
          have hrest : inner.pop.1.queue = rest := by
            rw [StreamChannelInner.pop, hqueue]
            rfl
          rw [hqueue, List.length_cons] at hlength
          simp only [hpop, Option.isSome_some, Writing.waits, Bool.and_true, Bool.or_true, hrest]
          exact iff_of_true trivial hlength
  | retrying message left => cases hholds
  | returning message result => cases hholds

/-- One step keeps the invariant. -/
theorem Sound.step {s t : Shared P κ} {e : StreamEvent P} (h : s.Sound)
    (hst : s.step e = some t) : t.Sound := by
  cases e with
  | callWrite message =>
      cases hwriting : s.writing with
      | idle =>
          simp only [Shared.step, hwriting] at hst
          obtain rfl := Option.some.inj hst
          refine ⟨h.policy, h.length_le, fun hstart => ?_, h.writes⟩
          have hfull := of_decide_eq_true hstart
          exact iff_of_false Bool.false_ne_true (Nat.not_lt.mpr hfull)
      | called _ | retrying _ _ | returning _ _ =>
          simp only [Shared.step, hwriting] at hst
          cases hst
  | lockWriter =>
      cases hwriting : s.writing with
      | called message =>
          simp only [Shared.step, hwriting] at hst
          split at hst
          · cases hst
          · obtain rfl := Option.some.inj hst
            exact h.startPush hwriting
      | idle | retrying _ _ | returning _ _ =>
          simp only [Shared.step, hwriting] at hst
          cases hst
  | retry =>
      cases hwriting : s.writing with
      | retrying message left =>
          have hfinds := h.finds
          rw [hwriting] at hfinds
          cases left with
          | zero =>
              simp only [Shared.step, hwriting] at hst
              cases hst
          | succ left =>
              -- the lock is held, so that there is still no room
              have hnone : ¬s.inner.queue.length < s.inner.depth := Nat.not_lt.mpr hfinds.1.ge
              simp only [Shared.step, hwriting, if_neg hnone] at hst
              obtain rfl := Option.some.inj hst
              exact ⟨h.policy, h.length_le, hfinds, h.writes⟩
      | idle | called _ | returning _ _ =>
          simp only [Shared.step, hwriting] at hst
          cases hst
  | giveUp =>
      cases hwriting : s.writing with
      | retrying message left =>
          have hfinds := h.finds
          rw [hwriting] at hfinds
          cases left with
          | zero =>
              simp only [Shared.step, hwriting] at hst
              obtain rfl := Option.some.inj hst
              refine ⟨h.policy, h.length_le, ⟨fun hstart => ?_, s.inner, ?_⟩, h.writes⟩
              · refine iff_of_false (fun hok => nomatch hok.1) ?_
                exact fun hpopped => Bool.false_ne_true ((hfinds.2 hstart).symm.trans hpopped)
              · rw [push, if_pos hfinds.1.ge, h.policy]
                exact retryPush_of_full hfinds.1.ge message backpressureMaxRetries
          | succ left =>
              simp only [Shared.step, hwriting] at hst
              cases hst
      | idle | called _ | returning _ _ =>
          simp only [Shared.step, hwriting] at hst
          cases hst
  | returnWrite =>
      cases hwriting : s.writing with
      | returning message result =>
          simp only [Shared.step, hwriting] at hst
          obtain rfl := Option.some.inj hst
          have hfinds := h.finds
          rw [hwriting] at hfinds
          refine ⟨h.policy, h.length_le, trivial, fun w hw => ?_⟩
          rcases List.mem_append.mp hw with hw | hw
          · exact h.writes w hw
          · obtain rfl := List.mem_singleton.mp hw
            obtain ⟨hresult, before, hpush⟩ := hfinds
            exact ⟨hresult, before, s.inner, hpush, rfl⟩
      | idle | called _ | retrying _ _ =>
          simp only [Shared.step, hwriting] at hst
          cases hst
  | callRead =>
      simp only [Shared.step] at hst
      split at hst
      · obtain rfl := Option.some.inj hst
        refine ⟨h.policy, h.length_le, ?_, h.writes⟩
        have hfinds := h.finds
        cases hwriting : s.writing with
        | idle => trivial
        | called _ | retrying _ _ | returning _ _ =>
            rw [hwriting] at hfinds
            exact hfinds
      · cases hst
  | lockReader =>
      simp only [Shared.step] at hst
      split at hst
      · rename_i hlock
        obtain rfl := Option.some.inj hst
        refine ⟨h.policy, ?_, h.finds.pop h.length_le hlock.2 _, h.writes⟩
        exact (List.length_tail.trans_le (Nat.sub_le _ _)).trans h.length_le
      · cases hst
  | returnRead =>
      simp only [Shared.step] at hst
      split at hst
      · obtain rfl := Option.some.inj hst
        exact ⟨h.policy, h.length_le, h.finds, h.writes⟩
      · cases hst

/-! ### Runs -/

/-- Under every scheduling, the writes to a full queue for which the reader reads succeed exactly
when the reader takes a value before the write has the lock. -/
theorem yields_iff {depth : UInt32} {subscribers : List κ} {events : List (StreamEvent P)}
    {s : Shared P κ}
    (hrun : run step (new ⟨depth, .backpressure⟩ subscribers) events = some s) :
    (∀ w ∈ s.writes, w.window.full = true → w.window.asked = true → w.Succeeded) ↔
      ∀ w ∈ s.writes, w.window.full = true → w.window.asked = true → w.window.popped = true := by
  have hsound : s.Sound :=
    run_invariant (fun _ _ _ h hst => h.step hst) (sound_new rfl subscribers) hrun
  constructor
  · exact fun h w hw hfull hasked => ((hsound.writes w hw).1 hfull).mp (h w hw hfull hasked)
  · exact fun h w hw hfull hasked => ((hsound.writes w hw).1 hfull).mpr (h w hw hfull hasked)

/-- A value to write. -/
def exampleMessage : Message Platform.exact := (.bool true, ⟨0, 0⟩)

/-- A write to a full queue, where the reader reads before the write has the lock. -/
def readFirst : List (StreamEvent Platform.exact) :=
  [.callWrite exampleMessage, .lockWriter, .returnWrite, .callWrite exampleMessage, .callRead,
    .lockReader, .returnRead, .lockWriter, .returnWrite]

/-- A write to a full queue, where the reader calls `read` when the write has the lock. -/
def readLate : List (StreamEvent Platform.exact) :=
  [.callWrite exampleMessage, .lockWriter, .returnWrite, .callWrite exampleMessage, .lockWriter,
    .callRead] ++ List.replicate backpressureMaxRetries .retry ++ [.giveUp, .returnWrite]

/-- The early read lets the write succeed. -/
theorem yields_iff_readFirst :
    ∃ s : Shared Platform.exact Unit,
      run step (new ⟨1, .backpressure⟩ []) readFirst = some s ∧ s.writes.length = 2 ∧
        ∀ w ∈ s.writes, w.window.full = true → w.window.asked = true → w.Succeeded := by
  have hrun : ∃ s : Shared Platform.exact Unit,
      run step (new ⟨1, .backpressure⟩ []) readFirst = some s ∧ s.writes.length = 2 ∧
        ∀ w ∈ s.writes, w.window.full = true → w.window.asked = true →
          w.window.popped = true := by
    refine ⟨_, rfl, rfl, ?_⟩
    decide
  obtain ⟨s, hrun, htwo, hpopped⟩ := hrun
  exact ⟨s, hrun, htwo, (yields_iff hrun).mpr hpopped⟩

/-- A write that has the lock keeps the reader out, and fails. -/
theorem retries_exclude_reader :
    ¬ ∀ (P : Platform) (κ : Type) (depth : UInt32) (subscribers : List κ)
      (events : List (StreamEvent P)) (s : Shared P κ),
      run step (new ⟨depth, .backpressure⟩ subscribers) events = some s →
      ∀ w ∈ s.writes, w.window.full = true → w.window.asked = true → w.Succeeded := by
  intro h
  have hrun : ∃ s : Shared Platform.exact Unit,
      run step (new ⟨1, .backpressure⟩ []) readLate = some s ∧
        ∃ w ∈ s.writes, w.window.full = true ∧ w.window.asked = true ∧
          w.result = .error backpressureTimeout :=
    ⟨_, rfl, _, List.mem_cons_of_mem _ List.mem_cons_self, rfl, rfl, rfl⟩
  obtain ⟨s, hrun, w, hw, hfull, hasked, hresult⟩ := hrun
  have hok := (h _ _ _ _ _ _ hrun w hw hfull hasked).1
  rw [hresult] at hok
  cases hok

end Shared

end Weftik.Amw
