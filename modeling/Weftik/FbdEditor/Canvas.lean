import Weftik.Editor.GModelState
import Weftik.FbdEditor.Operations

/-!
# A Canvas of the Function Block Editor

A canvas applies every gesture through its undo history. The counter of the ids is not in the
history: all canvases share it, and undo leaves it alone.

## Main definitions

* `FbdEditor.Canvas.step`: a canvas after an event.

## Main results

* `FbdEditor.canvas_consistent`: what holds of the graph of a canvas after any events.
-/

open Transition

namespace Weftik.FbdEditor

/-- What happens to a canvas: a gesture with its operations (the deletion of a selection has
several), undo, redo, the end of a save, and ids that other canvases take. -/
inductive CanvasEvent
  | tryApply (ops : List Operation)
  | undo
  | redo
  | markClean
  | elsewhere (ids : ℕ)
  deriving DecidableEq

/-- The history of a canvas, and the counter of the ids. -/
structure Canvas where
  state : Editor.FbdGModelState
  nextId : ℕ

variable (toUpperCase : String → String) (codec : Editor.Codec FbdGraph)

/-- The operations of a gesture, up to the one that throws, and the counter after them. -/
def applyAll : Editor → List Operation → Except String FbdGraph × ℕ
  | s, [] => (.ok s.graph, s.nextId)
  | s, op :: ops =>
      match apply toUpperCase s op with
      | .error e => (.error e, s.nextId)
      | .ok t => applyAll t ops

def Canvas.step (c : Canvas) : CanvasEvent → Canvas
  | .tryApply ops =>
      ⟨(c.state.applyOperation codec fun g => (applyAll toUpperCase ⟨g, c.nextId⟩ ops).1).2,
        match c.state.graph codec with
        | .error _ => c.nextId
        | .ok g => (applyAll toUpperCase ⟨g, c.nextId⟩ ops).2⟩
  | .undo => { c with state := (c.state.undo codec).2 }
  | .redo => { c with state := (c.state.redo codec).2 }
  | .markClean => { c with state.dirty := false }
  | .elsewhere ids => { c with nextId := c.nextId + ids }

/-- A snapshot of a graph whose ids have been given out. -/
def Holds (nextId : ℕ) (text : String) : Prop :=
  ∃ g, codec.fromJSON text = .ok g ∧ Consistent toUpperCase ⟨g, nextId⟩

/-- A canvas whose history has such snapshots only. -/
structure Sound (c : Canvas) (r : Editor.Reference) : Prop where
  refines : c.state.Refines r
  holds : ∀ text ∈ r.items, Holds toUpperCase codec c.nextId text

variable {toUpperCase codec} {s t : Editor} {c : Canvas} {r : Editor.Reference}

/-- Ids that have been given out stay so. -/
theorem Holds.mono {n m : ℕ} {text : String} (h : Holds toUpperCase codec n text) (hle : n ≤ m) :
    Holds toUpperCase codec m text := by
  obtain ⟨g, hg, h⟩ := h
  exact ⟨g, hg, h.nodes, fun k hk => (h.issued k hk).mono hle, h.made, h.edges,
    fun e he => (h.issuedEdges e he).mono hle⟩

/-- The counter never goes back. -/
theorem nextId_le {op : Operation} (h : apply toUpperCase s op = .ok t) :
    s.nextId ≤ t.nextId := by
  cases op with
  | createGate _ | createFunctionBlock _ =>
      obtain rfl := Except.ok.inj h
      exact Nat.le_succ _
  | deleteElement _ => rw [deleteElement_ok h]
  | disconnectPin _ _ => rw [disconnectPin_ok h]
  | connectPins _ => obtain ⟨-, -, ⟨-, rfl⟩ | ⟨-, rfl⟩⟩ := connectPins_ok h <;> simp
  | changeGateType _ _ =>
      obtain ⟨-, -, -, -, ⟨-, rfl⟩ | ⟨-, rfl⟩⟩ := changeGateType_ok h <;> simp
  | changeFbType _ _ => obtain ⟨-, -, -, -, rfl | rfl⟩ := changeFbType_ok h <;> simp

/-- A gesture moves the counter on, and leads to a graph of the same kind or throws. -/
theorem applyAll_spec (hs : Consistent toUpperCase s) (ops : List Operation) :
    s.nextId ≤ (applyAll toUpperCase s ops).2 ∧
      ∀ g, (applyAll toUpperCase s ops).1 = .ok g →
        Consistent toUpperCase ⟨g, (applyAll toUpperCase s ops).2⟩ := by
  induction ops generalizing s with
  | nil =>
      refine ⟨le_rfl, fun g hg => ?_⟩
      obtain rfl := Except.ok.inj hg
      exact hs
  | cons op ops ih =>
      rw [applyAll]
      cases happly : apply toUpperCase s op with
      | error e => exact ⟨le_rfl, nofun⟩
      | ok t =>
          have hstep : step toUpperCase s op = some t := by
            rw [step, happly]
            rfl
          have ht := hs.step hstep
          exact ⟨(nextId_le happly).trans (ih ht).1, (ih ht).2⟩

theorem Sound.graph (h : Sound toUpperCase codec c r) :
    ∃ g, c.state.graph codec = .ok g ∧ Consistent toUpperCase ⟨g, c.nextId⟩ := by
  rw [h.refines.graph codec]
  exact h.holds _ (List.get_mem _ _)

/-- An event leads to a canvas of the same kind, when the codec loses nothing. -/
theorem Sound.step (hcodec : ∀ g, codec.fromJSON (codec.toJSON g) = .ok g)
    (h : Sound toUpperCase codec c r) (e : CanvasEvent) :
    ∃ r', Sound toUpperCase codec (c.step toUpperCase codec e) r' := by
  cases e with
  | tryApply ops =>
      obtain ⟨g, hg, hconsistent⟩ := h.graph
      obtain ⟨hle, hnext⟩ := applyAll_spec hconsistent ops
      refine ⟨_, (h.refines.step codec
        (.applyOperation fun g => (applyAll toUpperCase ⟨g, c.nextId⟩ ops).1)).2, ?_⟩
      rw [Canvas.step, hg, Editor.Reference.step, ← h.refines.graph codec, hg]
      dsimp only [bind, Except.bind]
      cases happly : (applyAll toUpperCase ⟨g, c.nextId⟩ ops).1 with
      | error e => exact fun text htext => (h.holds text htext).mono hle
      | ok next =>
          intro text htext
          rcases List.mem_append.mp (List.mem_of_mem_drop htext) with hmem | hmem
          · exact (h.holds text (List.mem_of_mem_take hmem)).mono hle
          · obtain rfl := List.mem_singleton.mp hmem
            exact ⟨next, hcodec next, hnext next happly⟩
  | undo =>
      refine ⟨_, (h.refines.step codec .undo).2, fun text htext => h.holds text ?_⟩
      rw [Editor.Reference.step] at htext
      split at htext <;> exact htext
  | redo =>
      refine ⟨_, (h.refines.step codec .redo).2, fun text htext => h.holds text ?_⟩
      rw [Editor.Reference.step, History.redo] at htext
      split_ifs at htext <;> exact htext
  | markClean => exact ⟨r, ⟨h.refines.snapshots, h.refines.pointer⟩, h.holds⟩
  | elsewhere ids =>
      exact ⟨r, h.refines, fun text htext => (h.holds text htext).mono (Nat.le_add_right _ _)⟩

/-- Whatever is done on a canvas, and however ids are taken elsewhere, the ids in its graph
differ and have been given out, so that a new one is new, also after undo and redo. -/
theorem canvas_consistent (hcodec : ∀ g, codec.fromJSON (codec.toJSON g) = .ok g)
    (initial : Option FbdGraph) (nextId : ℕ)
    (hinitial : Consistent toUpperCase ⟨initial.getD codec.create, nextId⟩)
    (es : List CanvasEvent) :
    let c := es.foldl (Canvas.step toUpperCase codec) ⟨.new codec initial, nextId⟩
    ∃ g, c.state.graph codec = .ok g ∧ Consistent toUpperCase ⟨g, c.nextId⟩ := by
  have hrun : ∀ c r, Sound toUpperCase codec c r →
      ∃ r', Sound toUpperCase codec (es.foldl (Canvas.step toUpperCase codec) c) r' := by
    induction es with
    | nil => exact fun _ r h => ⟨r, h⟩
    | cons e es ih =>
        intro c r h
        obtain ⟨r', h'⟩ := h.step hcodec e
        exact ih _ r' h'
  obtain ⟨r, hr⟩ := hrun ⟨.new codec initial, nextId⟩ (.new codec initial) ⟨⟨rfl, rfl⟩, by
    intro text htext
    obtain rfl := List.mem_singleton.mp htext
    exact ⟨_, hcodec _, hinitial⟩⟩
  exact hr.graph

instance countableChar : Countable Char := ⟨Char.toNat, fun _ _ => Char.toNat_inj.mp⟩

instance countableString : Countable String :=
  Function.Injective.countable (f := String.toList) fun _ _ => String.toList_injective

deriving instance Countable for PinDirection, Pin, GateType, NodeKind, Node, Edge, FbdGraph

/-- There are codecs that lose nothing: there are as many texts as diagrams. -/
theorem exists_codec : ∃ codec : Editor.Codec FbdGraph,
    codec.create = ⟨"fbdgraph-1", [], []⟩ ∧
      ∀ g, codec.fromJSON (codec.toJSON g) = .ok g := by
  obtain ⟨number, hnumber⟩ := exists_injective_nat FbdGraph
  have : Nonempty FbdGraph := ⟨⟨"", [], []⟩⟩
  have hleft := Function.leftInverse_invFun hnumber
  exact ⟨⟨fun g => String.ofList (List.replicate (number g) '1'),
    fun text => .ok (Function.invFun number text.toList.length), _⟩, rfl,
    fun g => by simp [hleft g]⟩

/-- A gate is made, undone and made again after another canvas has taken an id. -/
theorem canvas_consistent_gate : ∃ codec : Editor.Codec FbdGraph, ∃ g,
    ([.tryApply [.createGate .and], .undo, .elsewhere 1, .tryApply [.createGate .or], .redo].foldl
      (Canvas.step String.toUpper codec) ⟨.new codec none, 1⟩).state.graph codec = .ok g := by
  obtain ⟨codec, hcreate, hcodec⟩ := exists_codec
  have hinitial : Consistent String.toUpper ⟨(none : Option FbdGraph).getD codec.create, 1⟩ := by
    rw [Option.getD_none, hcreate]
    exact emptyEditor_consistent "fbdgraph-1" 1
  obtain ⟨g, hg, -⟩ := canvas_consistent hcodec none 1 hinitial _
  exact ⟨codec, g, hg⟩

end Weftik.FbdEditor
