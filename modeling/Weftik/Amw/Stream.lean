import Weftik.Lib.BoundedQueue
import Weftik.HalCore.Encoding

/-!
# In-Process Streams

The writers and readers of a channel share a queue and the callbacks of the subscribers. A
write pushes its value, unless the queue is full, and then calls the subscribers. Every
operation holds the lock of the channel, so that the operations come one after the other; a
write that waits for room waits with the lock held.

The channel is compared with a bounded queue. They differ in two places. A queue of depth zero
that drops its oldest value has none to drop, and holds a value all the same. And the
subscribers are told of a value that a full queue has dropped.

## Main definitions

* `StreamChannelInner`, `StreamOp`, `run`: the channel.
* `BoundedChannel`: a bounded queue with subscribers.
* `IsBoundedFifo`: the channel does what the bounded queue does.
* `Fits`: what a write has to find.

## Main results

* `StreamChannelInner.push_refused`: a write that is refused changes nothing.
* `isBoundedFifo_iff`: when a channel is a bounded queue.
* `values_conserved`: no value is made up, doubled or overtaken.
-/

namespace Weftik.Amw

variable {P : Platform} {κ : Type}

/-! ### The channel -/

/-- When a value has been written. -/
structure Timestamp where
  secs : UInt64
  micros : UInt32
  deriving DecidableEq

/-- What a channel does with a value when its queue is full. -/
inductive QueuePolicy
  | dropOldest
  | backpressure
  | dropNewest
  deriving DecidableEq

/-- The configuration of a channel. -/
structure StreamConfig where
  queueDepth : UInt32
  queuePolicy : QueuePolicy
  deriving DecidableEq

/-- A value and the time it is written with. -/
abbrev Message (P : Platform) : Type := HalValue P × Timestamp

/-- How often a write looks for room. -/
def backpressureMaxRetries : ℕ := 10

/-- What the handles of a channel share. The callbacks are values of `κ`. -/
structure StreamChannelInner (P : Platform) (κ : Type) where
  queue : List (Message P)
  subscribers : List κ
  config : StreamConfig

namespace StreamChannelInner

/-- A channel without values. -/
def new (config : StreamConfig) : StreamChannelInner P κ := ⟨[], [], config⟩

/-- The depth of the queue. -/
def depth (inner : StreamChannelInner P κ) : ℕ := inner.config.queueDepth.toNat

/-- The error of a write that finds no room. -/
def backpressureTimeout : HalError := .internal "stream backpressure timeout"

/-- Look for room a number of times. The lock is held meanwhile, so nobody makes any. -/
def retryPush (inner : StreamChannelInner P κ) (message : Message P) :
    ℕ → StreamChannelInner P κ × Except HalError Unit
  | 0 => (inner, .error backpressureTimeout)
  | retries + 1 =>
      if inner.queue.length < inner.depth then
        ({ inner with queue := inner.queue ++ [message] }, .ok ())
      else retryPush inner message retries

/-- Push a value; what happens when the queue is full is up to the policy. -/
def push (inner : StreamChannelInner P κ) (message : Message P) :
    StreamChannelInner P κ × Except HalError Unit :=
  if inner.depth ≤ inner.queue.length then
    match inner.config.queuePolicy with
    | .dropOldest => ({ inner with queue := inner.queue.tail ++ [message] }, .ok ())
    | .dropNewest => (inner, .ok ())
    | .backpressure => inner.retryPush message backpressureMaxRetries
  else ({ inner with queue := inner.queue ++ [message] }, .ok ())

/-- Pop the oldest value. -/
def pop (inner : StreamChannelInner P κ) : StreamChannelInner P κ × Option (Message P) :=
  ({ inner with queue := inner.queue.tail }, inner.queue.head?)

/-- The calls of the subscribers with a value. -/
def notifySubscribers (inner : StreamChannelInner P κ) (message : Message P) :
    List (κ × Message P) :=
  inner.subscribers.map fun cb => (cb, message)

end StreamChannelInner

/-- What is done with a channel: a value is written or read, a callback is added, or the reader
is dropped. -/
inductive StreamOp (P : Platform) (κ : Type)
  | write (message : Message P)
  | read
  | subscribe (cb : κ)
  | dropReader

/-- What comes of it: the result of a write and the callbacks that are called, or the value
that is read. -/
inductive StreamOutput (P : Platform) (κ : Type)
  | wrote (result : Except HalError Unit) (calls : List (κ × Message P))
  | read (message : Option (Message P))
  | none

namespace StreamChannelInner

/-- `InprocStreamWriter::write`: the subscribers are called after the push, unless it fails. -/
def write (inner : StreamChannelInner P κ) (message : Message P) :
    StreamChannelInner P κ × StreamOutput P κ :=
  match inner.push message with
  | (inner, .error e) => (inner, .wrote (.error e) [])
  | (inner, .ok ()) => (inner, .wrote (.ok ()) (inner.notifySubscribers message))

/-- A channel after an operation, and what comes of it. -/
def apply (inner : StreamChannelInner P κ) :
    StreamOp P κ → StreamChannelInner P κ × StreamOutput P κ
  | .write message => inner.write message
  | .read => (inner.pop.1, .read inner.pop.2)
  | .subscribe cb => ({ inner with subscribers := inner.subscribers ++ [cb] }, .none)
  | .dropReader => ({ inner with subscribers := [] }, .none)

/-- A channel after some operations, and what comes of each. -/
def run : List (StreamOp P κ) → StreamChannelInner P κ →
    StreamChannelInner P κ × List (StreamOutput P κ)
  | [], inner => (inner, [])
  | op :: ops, inner =>
      let (inner, output) := inner.apply op
      let (inner, outputs) := run ops inner
      (inner, output :: outputs)

end StreamChannelInner

/-! ### A bounded queue with subscribers -/

/-- The policy of a bounded queue. -/
def QueuePolicy.overflow : QueuePolicy → Overflow
  | .dropOldest => .dropOldest
  | .dropNewest => .dropNewest
  | .backpressure => .refuse

/-- What a channel is meant to be: a bounded queue, and those who are told of every value that
comes into it. -/
structure BoundedChannel (P : Platform) (κ : Type) (depth : ℕ) where
  queue : BoundedQueue (Message P) depth
  subscribers : List κ

namespace BoundedChannel

variable {depth : ℕ}

/-- A channel without values. -/
def new : BoundedChannel P κ depth := ⟨.empty, []⟩

/-- A write is refused with an error, or succeeds; the subscribers are told of a value that is
in the queue afterwards. -/
def write (policy : QueuePolicy) (channel : BoundedChannel P κ depth) (message : Message P) :
    BoundedChannel P κ depth × StreamOutput P κ :=
  let (queue, kept) := channel.queue.put policy.overflow message
  let refused := policy == .backpressure && !kept
  ({ channel with queue },
    .wrote (if refused then .error StreamChannelInner.backpressureTimeout else .ok ())
      (if kept then channel.subscribers.map fun cb => (cb, message) else []))

/-- A channel after an operation, and what comes of it. -/
def apply (policy : QueuePolicy) (channel : BoundedChannel P κ depth) :
    StreamOp P κ → BoundedChannel P κ depth × StreamOutput P κ
  | .write message => channel.write policy message
  | .read => ({ channel with queue := channel.queue.take.2 }, .read channel.queue.take.1)
  | .subscribe cb => ({ channel with subscribers := channel.subscribers ++ [cb] }, .none)
  | .dropReader => ({ channel with subscribers := [] }, .none)

/-- What comes of each of some operations. -/
def outputs (policy : QueuePolicy) :
    List (StreamOp P κ) → BoundedChannel P κ depth → List (StreamOutput P κ)
  | [], _ => []
  | op :: ops, channel =>
      (channel.apply policy op).2 :: outputs policy ops (channel.apply policy op).1

end BoundedChannel

/-! ### Single operations -/

namespace StreamChannelInner

variable {inner : StreamChannelInner P κ}

/-- Without room, waiting for it is in vain. -/
theorem retryPush_of_full (h : inner.depth ≤ inner.queue.length) (message : Message P)
    (retries : ℕ) : inner.retryPush message retries = (inner, .error backpressureTimeout) := by
  induction retries with
  | zero => rfl
  | succ retries ih => rw [retryPush, if_neg (Nat.not_lt.mpr h), ih]

/-- A push that is refused changes nothing. -/
theorem push_refused {message : Message P} {e : HalError} (h : (inner.push message).2 = .error e) :
    (inner.push message).1 = inner := by
  rw [push] at h ⊢
  split at h
  · rename_i hfull
    rw [if_pos hfull]
    cases hpolicy : inner.config.queuePolicy with
    | dropOldest => rw [hpolicy] at h; cases h
    | dropNewest => rfl
    | backpressure => simp only [retryPush_of_full hfull]
  · cases h

/-- Where there is room, the value comes to the end, and the subscribers are called. -/
theorem write_of_lt (h : inner.queue.length < inner.depth) (message : Message P) :
    inner.write message = ({ inner with queue := inner.queue ++ [message] },
      .wrote (.ok ()) (inner.notifySubscribers message)) := by
  rw [write, push, if_neg (Nat.not_le.mpr h)]
  rfl

theorem write_dropOldest (h : inner.depth ≤ inner.queue.length)
    (hpolicy : inner.config.queuePolicy = .dropOldest) (message : Message P) :
    inner.write message = ({ inner with queue := inner.queue.tail ++ [message] },
      .wrote (.ok ()) (inner.notifySubscribers message)) := by
  rw [write, push, if_pos h, hpolicy]
  rfl

theorem write_dropNewest (h : inner.depth ≤ inner.queue.length)
    (hpolicy : inner.config.queuePolicy = .dropNewest) (message : Message P) :
    inner.write message = (inner, .wrote (.ok ()) (inner.notifySubscribers message)) := by
  rw [write, push, if_pos h, hpolicy]

theorem write_backpressure (h : inner.depth ≤ inner.queue.length)
    (hpolicy : inner.config.queuePolicy = .backpressure) (message : Message P) :
    inner.write message = (inner, .wrote (.error backpressureTimeout) []) := by
  rw [write, push, if_pos h, hpolicy]
  simp only [retryPush_of_full h]

/-- What a write has to find: a queue of some depth, when the oldest value gives way; room, or
nobody who is told, when the newest one does. -/
def Fits (inner : StreamChannelInner P κ) : Prop :=
  match inner.config.queuePolicy with
  | .dropOldest => inner.depth ≠ 0
  | .dropNewest => inner.queue.length < inner.depth ∨ inner.subscribers = []
  | .backpressure => True

end StreamChannelInner

open StreamChannelInner

/-- The channel holds what the bounded queue holds. -/
structure Agrees (config : StreamConfig) (inner : StreamChannelInner P κ)
    (channel : BoundedChannel P κ config.queueDepth.toNat) : Prop where
  config_eq : inner.config = config
  queue_eq : inner.queue = channel.queue.items
  subscribers_eq : inner.subscribers = channel.subscribers

variable {config : StreamConfig} {inner : StreamChannelInner P κ}
  {channel : BoundedChannel P κ config.queueDepth.toNat}

theorem Agrees.length_le (h : Agrees config inner channel) :
    inner.queue.length ≤ config.queueDepth.toNat :=
  h.queue_eq ▸ channel.queue.length_le

theorem Agrees.depth_eq (h : Agrees config inner channel) :
    inner.depth = config.queueDepth.toNat := by
  rw [StreamChannelInner.depth, h.config_eq]

theorem Agrees.isFull (h : Agrees config inner channel) (hfull : inner.depth ≤ inner.queue.length) :
    channel.queue.isFull = true := by
  refine eq_true_of_ne_false fun hroom => ?_
  have hlt := BoundedQueue.isFull_eq_false.mp hroom
  rw [← h.queue_eq, ← h.depth_eq] at hlt
  omega

/-- A write that finds what it has to does what the bounded queue does. -/
theorem Agrees.write (h : Agrees config inner channel) (hfits : inner.Fits)
    (message : Message P) :
    (inner.write message).2 = (channel.write config.queuePolicy message).2 ∧
      Agrees config (inner.write message).1 (channel.write config.queuePolicy message).1 := by
  have hnotify : inner.notifySubscribers message =
      channel.subscribers.map fun cb => (cb, message) := by
    rw [notifySubscribers, h.subscribers_eq]
  rcases Nat.lt_or_ge inner.queue.length inner.depth with hlt | hfull
  · obtain ⟨hitems, hkept⟩ := BoundedQueue.put_of_lt config.queuePolicy.overflow
      (show channel.queue.items.length < _ by rwa [← h.queue_eq, ← h.depth_eq]) message
    rw [write_of_lt hlt, BoundedChannel.write, hnotify]
    simp only [hkept, Bool.not_true, Bool.and_false, Bool.false_eq_true, if_false, if_true]
    exact ⟨trivial, h.config_eq, by rw [hitems, h.queue_eq], h.subscribers_eq⟩
  · have hisFull := h.isFull hfull
    rw [Fits, h.config_eq] at hfits
    cases hpolicy : config.queuePolicy with
    | dropOldest =>
        rw [hpolicy] at hfits
        have hdepth : config.queueDepth.toNat ≠ 0 := h.depth_eq ▸ hfits
        have hkept : (config.queueDepth.toNat != 0) = true := bne_iff_ne.mpr hdepth
        rw [write_dropOldest hfull (h.config_eq ▸ hpolicy), hnotify]
        simp only [BoundedChannel.write, QueuePolicy.overflow, BoundedQueue.put, hkept]
        refine ⟨rfl, h.config_eq, ?_, h.subscribers_eq⟩
        rw [BoundedQueue.keepNewest_of_full hisFull hdepth, h.queue_eq]
    | dropNewest =>
        rw [hpolicy] at hfits
        have hnobody : inner.subscribers = [] := hfits.resolve_left (Nat.not_lt.mpr hfull)
        rw [write_dropNewest hfull (h.config_eq ▸ hpolicy), notifySubscribers, hnobody]
        simp only [BoundedChannel.write, QueuePolicy.overflow, BoundedQueue.put, hisFull]
        refine ⟨rfl, h.config_eq, ?_, h.subscribers_eq⟩
        rw [BoundedQueue.keepOldest_of_full hisFull, h.queue_eq]
    | backpressure =>
        rw [write_backpressure hfull (h.config_eq ▸ hpolicy)]
        simp only [BoundedChannel.write, QueuePolicy.overflow, BoundedQueue.put, hisFull]
        refine ⟨rfl, h.config_eq, ?_, h.subscribers_eq⟩
        rw [BoundedQueue.keepOldest_of_full hisFull, h.queue_eq]

/-- A write that does not find what it has to calls subscribers of a value that is dropped, or
makes the queue longer than its depth. -/
theorem Agrees.write_not_fits (h : Agrees config inner channel) (hfits : ¬inner.Fits)
    (message : Message P) :
    (inner.write message).2 ≠ (channel.write config.queuePolicy message).2 ∨
      config.queueDepth.toNat < (inner.write message).1.queue.length := by
  rw [Fits, h.config_eq] at hfits
  cases hpolicy : config.queuePolicy with
  | dropOldest =>
      rw [hpolicy] at hfits
      have hdepth : inner.depth = 0 := not_not.mp hfits
      refine Or.inr ?_
      rw [write_dropOldest (hdepth ▸ Nat.zero_le _) (h.config_eq ▸ hpolicy), ← h.depth_eq, hdepth,
        List.length_append]
      exact Nat.succ_pos _
  | dropNewest =>
      rw [hpolicy] at hfits
      obtain ⟨hroom, hsomebody⟩ := not_or.mp hfits
      have hfull := Nat.not_lt.mp hroom
      have hisFull := h.isFull hfull
      refine Or.inl ?_
      rw [write_dropNewest hfull (h.config_eq ▸ hpolicy)]
      simp only [BoundedChannel.write, QueuePolicy.overflow, BoundedQueue.put, hisFull]
      intro heq
      obtain ⟨-, hcalls⟩ := StreamOutput.wrote.inj heq
      exact hsomebody (List.map_eq_nil_iff.mp hcalls)
  | backpressure => exact absurd (by rw [hpolicy]; trivial) hfits

/-! ### Runs -/

/-- The outputs of a run are those of the bounded queue, and the queue is never longer than its
depth. -/
def FollowsBounded (config : StreamConfig) (ops : List (StreamOp P κ))
    (inner : StreamChannelInner P κ)
    (channel : BoundedChannel P κ config.queueDepth.toNat) : Prop :=
  (run ops inner).2 = channel.outputs config.queuePolicy ops ∧
    ∀ before, before <+: ops → (run before inner).1.queue.length ≤ config.queueDepth.toNat

/-- Every write of a run finds what it has to. -/
def AllFit (ops : List (StreamOp P κ)) (inner : StreamChannelInner P κ) : Prop :=
  ∀ before message, before ++ [.write message] <+: ops → (run before inner).1.Fits

theorem run_cons (op : StreamOp P κ) (ops : List (StreamOp P κ))
    (inner : StreamChannelInner P κ) :
    run (op :: ops) inner = ((run ops (inner.apply op).1).1,
      (inner.apply op).2 :: (run ops (inner.apply op).1).2) :=
  rfl

variable {ops : List (StreamOp P κ)}

theorem followsBounded_cons {op : StreamOp P κ}
    (hlength : inner.queue.length ≤ config.queueDepth.toNat) :
    FollowsBounded config (op :: ops) inner channel ↔
      (inner.apply op).2 = (channel.apply config.queuePolicy op).2 ∧
        FollowsBounded config ops (inner.apply op).1
          (channel.apply config.queuePolicy op).1 := by
  have hbounded : (∀ before, before <+: op :: ops →
      (run before inner).1.queue.length ≤ config.queueDepth.toNat) ↔
        ∀ before, before <+: ops →
          (run before (inner.apply op).1).1.queue.length ≤ config.queueDepth.toNat := by
    refine ⟨fun h before hbefore => ?_, fun h before hbefore => ?_⟩
    · exact h (op :: before) (List.cons_prefix_cons.mpr ⟨rfl, hbefore⟩)
    · rcases List.prefix_cons_iff.mp hbefore with rfl | ⟨before', rfl, hbefore'⟩
      · exact hlength
      · exact h before' hbefore'
  rw [FollowsBounded, FollowsBounded, hbounded, run_cons, BoundedChannel.outputs, List.cons_eq_cons,
    and_assoc]

theorem allFit_cons {op : StreamOp P κ} :
    AllFit (op :: ops) inner ↔
      (∀ message, op = .write message → inner.Fits) ∧ AllFit ops (inner.apply op).1 := by
  refine ⟨fun h => ⟨fun message hop => ?_, fun before message hbefore => ?_⟩,
    fun h before message hbefore => ?_⟩
  · exact h [] message (List.cons_prefix_cons.mpr ⟨hop.symm, List.nil_prefix⟩)
  · exact h (op :: before) message (List.cons_prefix_cons.mpr ⟨rfl, hbefore⟩)
  · cases before with
    | nil => exact h.1 message (List.cons_prefix_cons.mp hbefore).1.symm
    | cons op' before =>
        obtain ⟨rfl, hrest⟩ := List.cons_prefix_cons.mp hbefore
        exact h.2 before message hrest

/-- A run does what the bounded queue does exactly when every write finds what it has to. The
induction is on the operations; as long as the writes find it, the two agree. -/
theorem followsBounded_iff (h : Agrees config inner channel) :
    FollowsBounded config ops inner channel ↔ AllFit ops inner := by
  induction ops generalizing inner channel with
  | nil =>
      refine iff_of_true ⟨rfl, fun before hbefore => ?_⟩ fun before message hbefore => ?_
      · rw [List.prefix_nil.mp hbefore]
        exact h.length_le
      · simp at hbefore
  | cons op ops ih =>
      rw [followsBounded_cons h.length_le, allFit_cons]
      cases op with
      | write message =>
          by_cases hfits : inner.Fits
          · obtain ⟨houtput, hagrees⟩ := h.write hfits message
            exact and_congr (iff_of_true houtput fun _ _ => hfits) (ih hagrees)
          · refine iff_of_false (fun hfollows => ?_) fun hall => hfits (hall.1 message rfl)
            rcases h.write_not_fits hfits message with houtput | hlong
            · exact houtput hfollows.1
            · exact absurd (hfollows.2.2 [] List.nil_prefix) (Nat.not_le.mpr hlong)
      | read =>
          have hagrees : Agrees config (inner.apply .read).1
              (channel.apply config.queuePolicy .read).1 :=
            ⟨h.config_eq, congrArg List.tail h.queue_eq, h.subscribers_eq⟩
          have houtput : (inner.apply .read).2 = (channel.apply config.queuePolicy .read).2 :=
            congrArg StreamOutput.read (congrArg List.head? h.queue_eq)
          exact and_congr (iff_of_true houtput nofun) (ih hagrees)
      | subscribe cb =>
          have hagrees : Agrees config (inner.apply (.subscribe cb)).1
              (channel.apply config.queuePolicy (.subscribe cb)).1 :=
            ⟨h.config_eq, h.queue_eq, congrArg (· ++ [cb]) h.subscribers_eq⟩
          exact and_congr (iff_of_true rfl nofun) (ih hagrees)
      | dropReader =>
          have hagrees : Agrees config (inner.apply .dropReader).1
              (channel.apply config.queuePolicy .dropReader).1 :=
            ⟨h.config_eq, h.queue_eq, rfl⟩
          exact and_congr (iff_of_true rfl nofun) (ih hagrees)

/-- The channel is a bounded queue in a run: what is read, refused and told is what the bounded
queue says, the queue is never longer than its depth, and a write that is refused leaves it as
it is. -/
structure IsBoundedFifo (config : StreamConfig) (ops : List (StreamOp P κ)) : Prop where
  outputs_eq : (run ops (new config)).2 =
    (BoundedChannel.new : BoundedChannel P κ config.queueDepth.toNat).outputs
      config.queuePolicy ops
  length_le : ∀ before, before <+: ops →
    (run before (new config)).1.queue.length ≤ config.queueDepth.toNat
  refused : ∀ before message e calls, before ++ [.write message] <+: ops →
    ((run before (new config)).1.write message).2 = .wrote (.error e) calls →
      ((run before (new config)).1.write message).1.queue = (run before (new config)).1.queue

/-- A write that is refused changes nothing. -/
theorem write_refused {message : Message P} {e : HalError} {calls : List (κ × Message P)}
    (h : (inner.write message).2 = .wrote (.error e) calls) :
    (inner.write message).1 = inner := by
  have hunchanged : (inner.push message).2 = .error e → (inner.push message).1 = inner :=
    push_refused
  rw [StreamChannelInner.write] at h ⊢
  rcases hpush : inner.push message with ⟨inner', e' | ⟨⟩⟩
  · rw [hpush] at h hunchanged
    obtain ⟨heq, -⟩ := StreamOutput.wrote.inj h
    exact hunchanged heq
  · rw [hpush] at h
    cases (StreamOutput.wrote.inj h).1

/-- A channel is a bounded queue in a run exactly when every write finds a depth other than
zero, if the oldest value gives way, and finds room or no subscribers, if the newest one
does. -/
theorem isBoundedFifo_iff (config : StreamConfig) (ops : List (StreamOp P κ)) :
    IsBoundedFifo config ops ↔ AllFit ops (new config) := by
  have hagrees : Agrees config (new config : StreamChannelInner P κ) .new := ⟨rfl, rfl, rfl⟩
  rw [← followsBounded_iff hagrees]
  refine ⟨fun h => ⟨h.outputs_eq, h.length_le⟩, fun h => ⟨h.1, h.2, ?_⟩⟩
  intro before message e calls _ hrefused
  rw [write_refused hrefused]

/-- Two writes to a channel of depth one that drops the newest value. -/
def twoWrites : List (StreamOp Platform.exact Unit) :=
  [.subscribe (), .write (.bool true, ⟨0, 0⟩), .write (.bool false, ⟨0, 0⟩)]

/-- One write. -/
def oneWrite : List (StreamOp Platform.exact Unit) := [.write (.bool true, ⟨0, 0⟩)]

/-- The subscriber is told of the second value, which has been dropped; and a channel of depth
zero holds a value. -/
theorem not_isBoundedFifo :
    (run twoWrites (new ⟨1, .dropNewest⟩)).1.queue = [(.bool true, ⟨0, 0⟩)] ∧
      ¬IsBoundedFifo ⟨1, .dropNewest⟩ twoWrites ∧
      ¬IsBoundedFifo ⟨0, .dropOldest⟩ oneWrite := by
  refine ⟨rfl, fun h => ?_, fun h => ?_⟩
  · have hcalls := List.cons.inj (List.cons.inj (List.cons.inj h.outputs_eq).2).2
    cases (StreamOutput.wrote.inj hcalls.1).2
  · exact absurd (h.length_le _ List.prefix_rfl) (by decide)

/-! ### What becomes of the values -/

/-- The value that a read gives. -/
def StreamOutput.given? : StreamOutput P κ → Option (Message P)
  | .read message => message
  | _ => Option.none

/-- The value of a write that succeeds. -/
def accepted? : StreamOp P κ × StreamOutput P κ → Option (Message P)
  | (.write message, .wrote (.ok ()) _) => some message
  | _ => none

/-- An operation takes what it gives from the front of the queue, puts what it accepts at its
end, and may drop one value. A channel that waits for room drops none. -/
theorem apply_conserved (inner : StreamChannelInner P κ) (op : StreamOp P κ) :
    ((inner.apply op).2.given?.toList ++ (inner.apply op).1.queue).Sublist
        (inner.queue ++ (accepted? (op, (inner.apply op).2)).toList) ∧
      (inner.config.queuePolicy = .backpressure →
        (inner.apply op).2.given?.toList ++ (inner.apply op).1.queue =
          inner.queue ++ (accepted? (op, (inner.apply op).2)).toList) ∧
      (inner.apply op).1.config = inner.config := by
  cases op with
  | write message =>
      rw [StreamChannelInner.apply]
      by_cases hfull : inner.depth ≤ inner.queue.length
      · cases hpolicy : inner.config.queuePolicy with
        | dropOldest =>
            rw [write_dropOldest hfull hpolicy]
            exact ⟨(List.tail_sublist inner.queue).append_right [message], nofun, rfl⟩
        | dropNewest =>
            rw [write_dropNewest hfull hpolicy]
            exact ⟨List.sublist_append_left inner.queue [message], nofun, rfl⟩
        | backpressure =>
            rw [write_backpressure hfull hpolicy]
            exact ⟨List.sublist_append_left inner.queue [],
              fun _ => (List.append_nil inner.queue).symm, rfl⟩
      · rw [write_of_lt (not_le.mp hfull)]
        exact ⟨List.Sublist.refl (inner.queue ++ [message]), fun _ => rfl, rfl⟩
  | read =>
      have hqueue : inner.queue.head?.toList ++ inner.queue.tail = inner.queue ++ [] := by
        cases inner.queue <;> simp
      exact ⟨hqueue ▸ List.Sublist.refl _, fun _ => hqueue, rfl⟩
  | subscribe cb =>
      exact ⟨List.sublist_append_left inner.queue [],
        fun _ => (List.append_nil inner.queue).symm, rfl⟩
  | dropReader =>
      exact ⟨List.sublist_append_left inner.queue [],
        fun _ => (List.append_nil inner.queue).symm, rfl⟩

/-- From any state of a channel. The induction is on the operations. -/
theorem run_conserved (ops : List (StreamOp P κ)) (inner : StreamChannelInner P κ) :
    ((run ops inner).2.filterMap StreamOutput.given? ++ (run ops inner).1.queue).Sublist
        (inner.queue ++ (ops.zip (run ops inner).2).filterMap accepted?) ∧
      (inner.config.queuePolicy = .backpressure →
        (run ops inner).2.filterMap StreamOutput.given? ++ (run ops inner).1.queue =
          inner.queue ++ (ops.zip (run ops inner).2).filterMap accepted?) := by
  induction ops generalizing inner with
  | nil => exact ⟨List.sublist_append_left _ _, fun _ => (List.append_nil _).symm⟩
  | cons op ops ih =>
      obtain ⟨hone, hkeeps, hconfig⟩ := apply_conserved inner op
      obtain ⟨hrest, hrestKeeps⟩ := ih (inner.apply op).1
      rw [hconfig] at hrestKeeps
      have hcons : ∀ {α β : Type} (f : α → Option β) (a : α) (l : List α),
          (a :: l).filterMap f = (f a).toList ++ l.filterMap f := by
        intro α β f a l
        rw [List.filterMap_cons]
        cases f a <;> rfl
      rw [run_cons]
      dsimp only
      rw [List.zip_cons_cons, hcons, hcons, List.append_assoc, ← List.append_assoc inner.queue]
      refine ⟨(hrest.append_left _).trans ?_, fun hpolicy => ?_⟩
      · rw [← List.append_assoc]
        exact hone.append_right _
      · rw [hrestKeeps hpolicy, ← List.append_assoc, hkeeps hpolicy]

/-- The values that have been read, and behind them those in the queue, are some of the
accepted ones in the order of their writes: none is made up, doubled or overtaken, whatever
the depth, the policy and the order of the calls. A channel that waits for room loses none. -/
theorem values_conserved (config : StreamConfig) (ops : List (StreamOp P κ)) :
    ((run ops (new config)).2.filterMap StreamOutput.given? ++
        (run ops (new config)).1.queue).Sublist
      ((ops.zip (run ops (new config)).2).filterMap accepted?) ∧
    (config.queuePolicy = .backpressure →
      (run ops (new config)).2.filterMap StreamOutput.given? ++ (run ops (new config)).1.queue =
        (ops.zip (run ops (new config)).2).filterMap accepted?) :=
  run_conserved ops (new config)

end Weftik.Amw
