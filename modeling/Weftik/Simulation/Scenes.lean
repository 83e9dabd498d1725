import Weftik.Simulation.ParseText

/-!
# Recorded Scenes

The harness records a scene: the signals of the engine after every cycle, each frame a hash
map from names to the texts of the values. The player goes through the frames, sets every
signal whose text is read, and lets the engine make a cycle; a text that is not read is passed
over in silence.

## Main definitions

* `Simulation.Snapshot`, `Simulation.Scene`: what is recorded.
* `Simulation.record`, `Simulation.play`: the recorder and the calls of the player.
* `Simulation.Replays`: the player sets what was recorded.

## Main results

* `Simulation.replays_iff`: the recordings that are replayed.
-/

namespace Weftik.Simulation

variable {P : Platform}

/-! ### The recorder and the player -/

/-- The signals of the engine with their values, every name once. -/
structure Snapshot (P : Platform) where
  signals : List (String × HalValue P)
  distinct : (signals.map Prod.fst).Nodup

/-- A frame: the entries of a hash map, in the order in which they are gone through. -/
abbrev Frame : Type := List (String × List Char)

/-- A recorded scene. -/
structure Scene where
  name : String
  cycleMs : UInt64
  signalNames : List String
  frames : List Frame

/-- The frame of a snapshot. -/
def frame (T : DebugText P) (snap : Snapshot P) : Frame :=
  snap.signals.map fun s => (s.1, HalValue.debug T s.2)

/-- `record`: the scene of the snapshots after each cycle; the names are those of the snapshot
before the first one. -/
def record (T : DebugText P) (name : String) (cycleMs : UInt64) (before : Snapshot P)
    (snaps : List (Snapshot P)) : Scene where
  name := name
  cycleMs := cycleMs
  signalNames := before.signals.map Prod.fst
  frames := snaps.map (frame T)

/-- What the player does with the engine, and with the transport. -/
inductive PlayerCall (P : Platform)
  | start
  | setSignal (name : String) (value : HalValue P)
  | stepCycle
  | stop

/-- The signals of a frame whose texts are read. -/
def readFrame (T : DebugText P) (f : Frame) : List (String × HalValue P) :=
  f.filterMap fun s => (parseHalValue T s.2).map (s.1, ·)

/-- The calls for a frame: its signals are set, and the engine makes a cycle. -/
def frameCalls (signals : List (String × HalValue P)) : List (PlayerCall P) :=
  signals.map (fun s => .setSignal s.1 s.2) ++ [.stepCycle]

/-- The calls for the given signals, cycle by cycle. -/
def playCalls (cycles : List (List (String × HalValue P))) : List (PlayerCall P) :=
  .start :: (cycles.flatMap frameCalls ++ [.stop])

/-- `play`: the calls of the player. -/
def play (T : DebugText P) (scene : Scene) : List (PlayerCall P) :=
  playCalls (scene.frames.map (readFrame T))

/-! ### What a playback has to be -/

/-- The player sets, cycle by cycle, the signals that were recorded, each to the recorded
value, whatever the order in which it goes through the hash maps. -/
def Replays (T : DebugText P) (scene : Scene) (snaps : List (Snapshot P)) : Prop :=
  ∀ frames : List Frame, List.Forall₂ List.Perm frames scene.frames →
    ∃ cycles : List (List (String × HalValue P)),
      List.Forall₂ (fun c snap => c.Perm (Snapshot.signals snap)) cycles snaps ∧
        play T { scene with frames := frames } = playCalls cycles

/-! ### The calls and the signals -/

/-- Two lists are cut at the first place where they have an element. -/
theorem append_cons_inj {α : Type} {a : α} {x y z w : List α} (hx : a ∉ x) (hy : a ∉ y)
    (h : x ++ a :: z = y ++ a :: w) : x = y ∧ z = w := by
  induction x generalizing y with
  | nil =>
      cases y with
      | nil => exact ⟨rfl, (List.cons.inj h).2⟩
      | cons b y => exact absurd ((List.cons.inj h).1 ▸ List.mem_cons_self) hy
  | cons b x ih =>
      cases y with
      | nil => exact absurd ((List.cons.inj h).1 ▸ List.mem_cons_self) hx
      | cons c y =>
          obtain ⟨rfl, htail⟩ := List.cons.inj h
          obtain ⟨rfl, hrest⟩ := ih (fun hmem => hx (List.mem_cons_of_mem b hmem))
            (fun hmem => hy (List.mem_cons_of_mem b hmem)) htail
          exact ⟨rfl, hrest⟩

/-- The calls that set the signals make no cycle. -/
theorem stepCycle_notMem_sets (signals : List (String × HalValue P)) :
    PlayerCall.stepCycle ∉ signals.map fun s => PlayerCall.setSignal s.1 s.2 := by
  intro hmem
  obtain ⟨s, -, hs⟩ := List.mem_map.mp hmem
  cases hs

/-- The calls that set the signals tell them. -/
theorem sets_injective :
    Function.Injective fun signals : List (String × HalValue P) =>
      signals.map fun s => PlayerCall.setSignal s.1 s.2 := by
  refine List.map_injective_iff.mpr fun s s' h => ?_
  obtain ⟨hname, hvalue⟩ := PlayerCall.setSignal.inj h
  exact Prod.ext hname hvalue

/-- The calls tell the signals of every cycle. -/
theorem playCalls_injective :
    Function.Injective (playCalls : List (List (String × HalValue P)) → _) := by
  intro cycles cycles' h
  have hcalls := (List.cons.inj h).2
  clear h
  induction cycles generalizing cycles' with
  | nil =>
      cases cycles' with
      | nil => rfl
      | cons c' cycles' =>
          have hmem : PlayerCall.stepCycle ∈
              (c' :: cycles').flatMap frameCalls ++ [PlayerCall.stop] := by
            simp [frameCalls]
          rw [← hcalls] at hmem
          simp at hmem
  | cons c cycles ih =>
      cases cycles' with
      | nil =>
          have hmem : PlayerCall.stepCycle ∈
              (c :: cycles).flatMap frameCalls ++ [PlayerCall.stop] := by
            simp [frameCalls]
          rw [hcalls] at hmem
          simp at hmem
      | cons c' cycles' =>
          simp only [List.flatMap_cons, frameCalls, List.append_assoc,
            List.cons_append, List.nil_append] at hcalls
          obtain ⟨hsets, hrest⟩ := append_cons_inj (stepCycle_notMem_sets c)
            (stepCycle_notMem_sets c') hcalls
          rw [sets_injective hsets, ih hrest]

/-! ### The recordings that are replayed -/

variable {T : DebugText P}

/-- The frame of a snapshot whose values are readable is read as the snapshot. -/
theorem readFrame_frame {snap : Snapshot P} (h : ∀ s ∈ snap.signals, Readable T s.2) :
    readFrame T (frame T snap) = snap.signals := by
  have hsignals : ∀ signals : List (String × HalValue P), (∀ s ∈ signals, Readable T s.2) →
      readFrame T (signals.map fun s => (s.1, HalValue.debug T s.2)) = signals := by
    intro signals hread
    induction signals with
    | nil => rfl
    | cons s signals ih =>
        obtain ⟨hs, hsignals⟩ := List.forall_mem_cons.mp hread
        have htext := (parseHalValue_debug_iff T s.2).mpr hs
        have hrest := ih hsignals
        rw [readFrame] at hrest ⊢
        rw [List.map_cons, List.filterMap_cons_some (b := s), hrest]
        rw [htext]
        rfl
  exact hsignals snap.signals h

/-- A snapshot whose frame is read as the snapshot has readable values only: no other signal
of it has the name. -/
theorem readable_of_readFrame {snap : Snapshot P}
    (h : (readFrame T (frame T snap)).Perm snap.signals) : ∀ s ∈ snap.signals, Readable T s.2 := by
  intro s hs
  obtain ⟨entry, hentry, hread⟩ := List.mem_filterMap.mp (h.mem_iff.mpr hs)
  obtain ⟨s', hs', rfl⟩ := List.mem_map.mp hentry
  obtain ⟨v, hv, rfl⟩ := Option.map_eq_some_iff.mp hread
  have hsame : s' = (s'.1, v) := List.inj_on_of_nodup_map snap.distinct hs' hs rfl
  rw [hsame] at hv
  exact (parseHalValue_debug_iff T v).mp hv

/-- The frames of readable snapshots, gone through in any order. -/
theorem readFrames_perm {snaps : List (Snapshot P)}
    (h : ∀ snap ∈ snaps, ∀ s ∈ snap.signals, Readable T s.2) {frames : List Frame}
    (hframes : List.Forall₂ List.Perm frames (snaps.map (frame T))) :
    List.Forall₂ (fun c snap => c.Perm (Snapshot.signals snap)) (frames.map (readFrame T))
      snaps := by
  induction snaps generalizing frames with
  | nil =>
      cases hframes
      exact .nil
  | cons snap snaps ih =>
      obtain ⟨hsnap, hsnaps⟩ := List.forall_mem_cons.mp h
      cases hframes with
      | cons hperm hrest =>
          refine .cons ?_ (ih hsnaps hrest)
          rw [← readFrame_frame hsnap]
          exact hperm.filterMap _

/-- A recording that is replayed has readable values only: the player may go through the hash
maps in the order of the snapshots. -/
theorem readable_of_replays {name : String} {cycleMs : UInt64} {before : Snapshot P}
    {snaps : List (Snapshot P)} (h : Replays T (record T name cycleMs before snaps) snaps) :
    ∀ snap ∈ snaps, ∀ s ∈ snap.signals, Readable T s.2 := by
  intro snap hsnap
  obtain ⟨cycles, hcycles, hplay⟩ := h _ (List.forall₂_same.mpr fun f _ => .refl f)
  have hframes := playCalls_injective hplay
  rw [← hframes, record, List.map_map] at hcycles
  have hall := List.forall₂_same.mp (List.forall₂_map_left_iff.mp hcycles)
  exact readable_of_readFrame (hall snap hsnap)

/-- **A recording is replayed** if and only if all its values are readable, and these are
exactly the values that the parser gives back from their texts. -/
theorem replays_iff (T : DebugText P) (name : String) (cycleMs : UInt64)
    (before : Snapshot P) (snaps : List (Snapshot P)) :
    (Replays T (record T name cycleMs before snaps) snaps ↔
        ∀ snap ∈ snaps, ∀ s ∈ snap.signals, Readable T s.2) ∧
      ∀ v : HalValue P, parseHalValue T (HalValue.debug T v) = some v ↔ Readable T v :=
  ⟨⟨readable_of_replays, fun h _ hframes => ⟨_, readFrames_perm h hframes, rfl⟩⟩,
    parseHalValue_debug_iff T⟩

/-- A recorded `s8` number is never set. -/
theorem replays_skipped :
    ¬ ∀ (P : Platform) (T : DebugText P) (name : String) (cycleMs : UInt64)
      (before : Snapshot P) (snaps : List (Snapshot P)),
      Replays T (record T name cycleMs before snaps) snaps := by
  intro h
  have hreplays := h .exact exactText "test" 1 ⟨[], List.nodup_nil⟩
    [⟨[("sensor.x", .s8 5)], List.nodup_singleton _⟩]
  exact readable_of_replays hreplays _ List.mem_cons_self _ List.mem_cons_self

end Weftik.Simulation
