import Weftik.GCode.Compiler
import Weftik.Motion.Loop

/-!
# The Modal Interpreter

What a program of rapid and linear moves means: an interpreter goes from line to line, with
the distance mode and the position of the axes as its state. The modal state of the compiler
agrees with it after every line.

## Main definitions

* `Axis`: the three axes, with their words, signals and coordinates.
* `Interpreter`, `interpret`: the interpreter.
* `IsPositioning`, `IsEnd`: the lines of the programs that the interpreter reads.

## Main results

* `interpret_eq_position`: the position of the modal state after a program.
-/

namespace Weftik.GCode

open Motion

variable {P : Platform}

/-! ### Axes -/

/-- The axes that the compiler binds. -/
inductive Axis
  | x | y | z
  deriving DecidableEq, Repr

/-- The signal of the position. -/
def Axis.posSignal : Axis → String
  | .x => "axis.0.pos"
  | .y => "axis.1.pos"
  | .z => "axis.2.pos"

/-- The coordinate of an axis. -/
def coord (pos : Position P) : Axis → P.F64
  | .x => pos.x
  | .y => pos.y
  | .z => pos.z

theorem coord_ext {pos pos' : Position P} (h : ∀ a, coord pos a = coord pos' a) : pos = pos' :=
  Position.ext (h .x) (h .y) (h .z)

/-- The word of an axis. -/
def GCodeCommand.word (cmd : GCodeCommand P) : Axis → Option P.F64
  | .x => cmd.x
  | .y => cmd.y
  | .z => cmd.z

/-! ### The interpreter -/

/-- Whether words are absolute, and where the axes are. -/
structure Interpreter (P : Platform) where
  absolute : Bool
  position : Position P

namespace Interpreter

/-- At power-on words are absolute, and the axes are at the origin. -/
def powerOn : Interpreter P := ⟨true, ⟨P.f64.zero, P.f64.zero, P.f64.zero⟩⟩

/-- Where an axis goes. -/
def destination (m : Interpreter P) (cmd : GCodeCommand P) (a : Axis) : P.F64 :=
  match cmd.word a with
  | none => coord m.position a
  | some v => if m.absolute then v else P.f64.add (coord m.position a) v

/-- One line. -/
def step (m : Interpreter P) (cmd : GCodeCommand P) : Interpreter P :=
  match cmd.gCode with
  | some 90 => { m with absolute := true }
  | some 91 => { m with absolute := false }
  | some 0 | some 1 =>
      { m with position := ⟨m.destination cmd .x, m.destination cmd .y, m.destination cmd .z⟩ }
  | _ => m

end Interpreter

/-- The position that the interpreter reaches. -/
def interpret (body : List (GCodeCommand P)) : Position P :=
  (body.foldl Interpreter.step .powerOn).position

/-- A line that sets the distance mode, or a rapid or linear move, with any words. -/
inductive IsPositioning (cmd : GCodeCommand P) : Prop
  | distanceMode (hkind : cmd.kind = .modal) (hcode : cmd.gCode = some 90 ∨ cmd.gCode = some 91)
  | move (hkind : cmd.kind = .motion) (hcode : cmd.gCode = some 0 ∨ cmd.gCode = some 1)

/-- The end of a program. -/
structure IsEnd (cmd : GCodeCommand P) : Prop where
  kind : cmd.kind = .programControl
  code : cmd.mCode = some 2 ∨ cmd.mCode = some 30

/-! ### The modal state -/

/-- The position in the modal state. -/
def ModalState.position (state : ModalState P) : Position P :=
  ⟨state.currentX, state.currentY, state.currentZ⟩

/-- The modal state agrees with the interpreter. -/
structure Agrees (state : ModalState P) (m : Interpreter P) : Prop where
  mode : state.coordMode = 90 ↔ m.absolute = true
  position : state.position = m.position

theorem agrees_powerOn : Agrees (ModalState.new : ModalState P) .powerOn :=
  ⟨⟨fun _ => rfl, fun _ => rfl⟩, rfl⟩

variable {state : ModalState P}

/-- Where an axis goes, from the modal state. -/
theorem Agrees.target {m : Interpreter P} (h : Agrees state m) (cmd : GCodeCommand P) (a : Axis) :
    ModalState.target state.coordMode (coord state.position a) (cmd.word a) =
      m.destination cmd a := by
  rw [Interpreter.destination, h.position]
  cases cmd.word a with
  | none => rfl
  | some v =>
      by_cases hmode : state.coordMode = 90
      · simp only [ModalState.target, hmode, h.mode.mp hmode, if_true]
      · have hrelative : m.absolute = false := Bool.eq_false_iff.mpr fun habs =>
          hmode (h.mode.mpr habs)
        simp only [ModalState.target, hmode, hrelative, if_false, Bool.false_eq_true]

/-- The position and the distance mode after a move. -/
theorem advance_of_motion {cmd : GCodeCommand P} (hkind : cmd.kind = .motion) :
    (state.advance cmd).coordMode = state.coordMode ∧
      ∀ a, coord (state.advance cmd).position a =
        ModalState.target state.coordMode (coord state.position a) (cmd.word a) := by
  simp only [ModalState.advance, hkind]
  cases cmd.gCode with
  | none => cases cmd.f <;> exact ⟨rfl, fun a => by cases a <;> rfl⟩
  | some g =>
      by_cases hg : g ≤ 3
      · simp only [hg, if_true]
        cases cmd.f <;> exact ⟨rfl, fun a => by cases a <;> rfl⟩
      · simp only [hg, if_false]
        cases cmd.f <;> exact ⟨rfl, fun a => by cases a <;> rfl⟩

/-- A line keeps the agreement. -/
theorem Agrees.advance {m : Interpreter P} (h : Agrees state m) {cmd : GCodeCommand P}
    (hcmd : IsPositioning cmd) : Agrees (state.advance cmd) (m.step cmd) := by
  cases hcmd with
  | distanceMode hkind hcode =>
      rcases hcode with hcode | hcode
      · simp only [ModalState.advance, Interpreter.step, hkind, hcode]
        exact ⟨⟨fun _ => rfl, fun _ => rfl⟩, h.position⟩
      · simp only [ModalState.advance, Interpreter.step, hkind, hcode]
        exact ⟨⟨nofun, nofun⟩, h.position⟩
  | move hkind hcode =>
      obtain ⟨hmode, hpos⟩ := @advance_of_motion _ state _ hkind
      have hstep : m.step cmd = { m with
          position := ⟨m.destination cmd .x, m.destination cmd .y, m.destination cmd .z⟩ } := by
        rcases hcode with hcode | hcode <;> simp only [Interpreter.step, hcode]
      rw [hstep]
      refine ⟨by rw [hmode]; exact h.mode, coord_ext fun a => ?_⟩
      rw [hpos a, h.target cmd a]
      cases a <;> rfl

/-- The position of the modal state after a program is the one that the interpreter reaches. -/
theorem interpret_eq_position {body : List (GCodeCommand P)}
    (hbody : ∀ cmd ∈ body, IsPositioning cmd) :
    interpret body = (body.foldl ModalState.advance ModalState.new).position := by
  have hrun : ∀ (state : ModalState P) (m : Interpreter P), Agrees state m →
      Agrees (body.foldl ModalState.advance state) (body.foldl Interpreter.step m) := by
    induction body with
    | nil => exact fun _ _ h => h
    | cons cmd body ih =>
        intro state m h
        exact ih (fun c hc => hbody c (List.mem_cons_of_mem cmd hc)) _ _
          (h.advance (hbody cmd List.mem_cons_self))
  exact (hrun _ _ agrees_powerOn).position.symm

/-- Relative motion is switched on, and used. -/
theorem interpret_eq_position_relative :
    ∃ body : List (GCodeCommand Platform.exact), body.length = 2 ∧
      interpret body = (body.foldl ModalState.advance ModalState.new).position := by
  refine ⟨[.ofCodes (some 91) none 1, { GCodeCommand.ofCodes (some 1) none 2 with
    x := some (5 : ℚ) }], rfl, interpret_eq_position fun cmd hcmd => ?_⟩
  rcases List.mem_pair.mp hcmd with rfl | rfl
  · exact .distanceMode rfl (Or.inr rfl)
  · exact .move rfl (Or.inr rfl)

end Weftik.GCode
