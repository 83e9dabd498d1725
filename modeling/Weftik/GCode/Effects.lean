import Weftik.GCode.ModalGroups
import Weftik.GCode.ModalWords

/-!
# What Commands Do

Commands append code to what has been emitted and change the modal state; their lines do not
matter. Commands in a row do one after the other what each of them does.

## Main definitions

* `effect`: what commands do.
* `moveCode`: the code of a motion, on its own.
* `StandsStill`, `Refused`: motions without code, and motions that are not compiled.

## Main results

* `effect_append`: commands in a row.
* `effect_words`: words on lines of their own.
* `toOption_emitMotion`: the code of a motion does not depend on what has been emitted.
-/

namespace Weftik.GCode

open Motion

variable {P : Platform}

/-- What commands do: what has been emitted after them, and the modal state, its line apart. -/
def effect (M : FloatMath P) (cmds : List (GCodeCommand P)) (state : ModalState P)
    (out : Emitted P) : Option (Emitted P × ModalState P) :=
  (emitCommands M cmds state out).toOption.map fun out' =>
    (out', (cmds.foldl ModalState.advance state).atLine 0)

/-- No code is emitted for a motion: a linear move of no length, or an arc without an angle. -/
def StandsStill (M : FloatMath P) (state : ModalState P) (cmd : GCodeCommand P) : Prop :=
  match cmd.gCode.getD state.motionMode with
  | 0 => False
  | 1 => P.f64.ge ((profileOf state (state.advance cmd)).distance M) (P.f64.lit 1 9) = false
  | g => emitArc M g state (state.advance cmd) cmd = .ok []

/-- A motion is refused: its profile has too many cycles, or its circle is not there. -/
def Refused (M : FloatMath P) (state : ModalState P) (cmd : GCodeCommand P) : Prop :=
  match cmd.gCode.getD state.motionMode with
  | 0 => False
  | 1 => P.f64.ge ((profileOf state (state.advance cmd)).distance M) (P.f64.lit 1 9) = true ∧
      ∃ e, generateTrapezoidalProgram M (profileOf state (state.advance cmd)) = .error e
  | g => ∃ e, emitArc M g state (state.advance cmd) cmd = .error e

/-! ### What commands do -/

variable {M : FloatMath P}

theorem foldl_advance_atLine (cmds : List (GCodeCommand P)) {state state' : ModalState P}
    (h : state'.atLine 0 = state.atLine 0) :
    (cmds.foldl ModalState.advance state').atLine 0 =
      (cmds.foldl ModalState.advance state).atLine 0 := by
  induction cmds generalizing state state' with
  | nil => exact h
  | cons cmd cmds ih =>
      refine ih ?_
      have hleft := advance_atLine state' cmd 0 0
      rw [h] at hleft
      exact hleft.symm.trans (advance_atLine state cmd 0 0)

/-- The line of the state before does not matter. -/
theorem effect_congr (cmds : List (GCodeCommand P)) {state state' : ModalState P}
    (h : state'.atLine 0 = state.atLine 0) (out : Emitted P) :
    effect M cmds state' out = effect M cmds state out := by
  rw [effect, effect, emitCommands_congr M rfl h, foldl_advance_atLine cmds h]

theorem effect_atLine (cmds : List (GCodeCommand P)) (state : ModalState P) (out : Emitted P) :
    effect M cmds (state.atLine 0) out = effect M cmds state out := by
  refine effect_congr cmds ?_ out
  rfl

/-- The lines of the commands do not matter. -/
theorem effect_map_atLine (cmds : List (GCodeCommand P)) (state : ModalState P)
    (out : Emitted P) :
    effect M (cmds.map fun cmd => cmd.atLine 0) state out = effect M cmds state out := by
  have hstate : ∀ state : ModalState P,
      ((cmds.map fun cmd => cmd.atLine 0).foldl ModalState.advance state).atLine 0 =
        (cmds.foldl ModalState.advance state).atLine 0 := by
    induction cmds with
    | nil => exact fun _ => rfl
    | cons cmd cmds ih =>
        intro state
        rw [List.map_cons, List.foldl_cons, List.foldl_cons, ih]
        refine foldl_advance_atLine cmds ?_
        have hline := congrArg (fun s : ModalState P => s.atLine 0)
          (advance_atLine state cmd 0 state.lineNumber)
        exact hline
  rw [effect, effect, hstate]
  congr 1
  refine emitCommands_congr M ?_ rfl out
  rw [List.map_map]
  rfl

/-- Commands are compiled one after the other. -/
theorem effect_append (cmds rest : List (GCodeCommand P)) (state : ModalState P)
    (out : Emitted P) :
    effect M (cmds ++ rest) state out =
      (effect M cmds state out).bind fun r => effect M rest r.2 r.1 := by
  rw [effect, emitCommands_append, toOption_bind, effect, List.foldl_append]
  cases (emitCommands M cmds state out).toOption with
  | none => rfl
  | some out' =>
      exact (effect_atLine rest _ out').symm

/-- A command on its own. -/
theorem effect_singleton (cmd : GCodeCommand P) (state : ModalState P) (out : Emitted P) :
    effect M [cmd] state out = (emitCommand M cmd state out).toOption.map fun out' =>
      (out', (state.advance cmd).atLine 0) := by
  rw [effect, emitCommands]
  cases emitCommand M cmd state out <;> rfl

/-! ### Words on lines of their own -/

/-- A `G` word that is a mode. -/
theorem classify_mode {n : ℕ}
    (h : IsMode n) :
    classify (some n) none = .modal := by
  rcases h with rfl | rfl | rfl | rfl | rfl | rfl | rfl <;> rfl

theorem advance_ofCodes {n : ℕ} (h : IsMode n)
    (state : ModalState P) (line : ℕ) :
    (state.advance (.ofCodes (some n) none line)).atLine 0 = (state.apply (.g n)).atLine 0 := by
  rcases h with rfl | rfl | rfl | rfl | rfl | rfl | rfl <;> rfl

/-- A word of another group, on a line of its own. -/
theorem effect_word {tok : LexedToken P} (h : tok.token.isModeWord = true)
    (state : ModalState P) (out : Emitted P) :
    effect M (parseBlock [tok]) state out = (wordCode tok.token).map fun code =>
      (out.extend code, (state.apply tok.token).atLine 0) := by
  obtain ⟨token, line⟩ := tok
  rcases isModeWord_cases h with ⟨n, rfl⟩ | ⟨n, rfl, hn⟩
  · -- the code of a spindle or program word does not depend on its line
    change effect M [.ofCodes none (some n) line] state out = _
    rw [effect_singleton]
    simp only [wordCode]
    by_cases hspindle : n = 3 ∨ n = 4 ∨ n = 5
    · rw [if_pos hspindle]
      rcases hspindle with rfl | rfl | rfl <;> rfl
    · rw [if_neg hspindle]
      by_cases hcontrol : n = 2 ∨ n = 30
      · rw [if_pos hcontrol]
        rcases hcontrol with rfl | rfl <;> rfl
      · rw [if_neg hcontrol]
        have hkind : classify none (some n) = .unknown := by
          simp only [classify, List.mem_cons, Option.some.injEq, List.not_mem_nil, or_false,
            reduceCtorEq, if_neg hspindle, if_neg hcontrol, if_false]
        simp only [emitCommand, GCodeCommand.ofCodes, hkind]
        rfl
  · change effect M [.ofCodes (some n) none line] state out = _
    have hkind : (GCodeCommand.ofCodes (some n) none line : GCodeCommand P).kind = .modal :=
      classify_mode hn
    rw [effect_singleton, emitCommand, hkind, advance_ofCodes hn]
    exact congrArg some (congrArg (·, _) (congrArg (Emitted.mk · _) (List.append_nil _).symm))

/-- Several words of other groups, on lines of their own. -/
theorem effect_words {tokens : List (LexedToken P)}
    (h : ∀ tok ∈ tokens, tok.token.isModeWord = true) (state : ModalState P) (out : Emitted P) :
    effect M (tokens.flatMap fun tok => parseBlock [tok]) state out =
      (wordsCode tokens).map fun code => (out.extend code,
        (stateOf tokens state).atLine 0) := by
  induction tokens generalizing state out with
  | nil =>
      exact congrArg some (congrArg (·, _) (congrArg (Emitted.mk · _) (List.append_nil _).symm))
  | cons tok tokens ih =>
      rw [List.flatMap_cons, effect_append, effect_word (h tok List.mem_cons_self), wordsCode]
      cases wordCode tok.token with
      | none => rfl
      | some code =>
          simp only [Option.map_some, Option.bind_some]
          rw [effect_atLine, ih fun t ht => h t (List.mem_cons_of_mem _ ht), Option.map_map]
          congr 1
          funext code'
          simp only [Function.comp, Emitted.extend, List.append_assoc]
          rfl

/-! ### The code of a motion -/

/-- The code of a motion, on its own. -/
def moveCode (M : FloatMath P) (state : ModalState P) (cmd : GCodeCommand P) :
    Option (List (Instruction P) × List SignalBinding) :=
  (emitMotion M cmd state ⟨[], []⟩).toOption.map fun out => (out.instructions, out.signals)

/-- The code of a motion is appended to what has been emitted. -/
theorem toOption_emitMotion (state : ModalState P) (cmd : GCodeCommand P) (out : Emitted P) :
    (emitMotion M cmd state out).toOption = (moveCode M state cmd).map fun code =>
      ⟨out.instructions ++ code.1, out.signals ++ code.2⟩ := by
  have harc : ∀ g : ℕ,
      (out.arc (emitArc M g state (state.advance cmd) cmd)).toOption =
        ((Emitted.arc ⟨[], []⟩ (emitArc M g state (state.advance cmd) cmd)).toOption.map
          fun out => (out.instructions, out.signals)).map fun code =>
            ⟨out.instructions ++ code.1, out.signals ++ code.2⟩ := by
    intro g
    cases emitArc M g state (state.advance cmd) cmd with
    | error e => rfl
    | ok insts => exact congrArg some (congrArg (Emitted.mk _) (List.append_nil _).symm)
  have hnone : ∀ (out : Emitted P), (Emitted.mk out.instructions out.signals) =
      ⟨out.instructions ++ [], out.signals ++ []⟩ := fun out => by
    rw [List.append_nil, List.append_nil]
  unfold moveCode emitMotion
  dsimp only
  split
  · exact congrArg some (congrArg (Emitted.mk _) (List.append_nil _).symm)
  · split
    · cases generateTrapezoidalProgram M (profileOf state (state.advance cmd)) <;> rfl
    · exact congrArg some (hnone out)
  · cases cmd.gCode with
    | none => rfl
    | some g => exact harc g
  · cases cmd.gCode with
    | none => rfl
    | some g => exact harc g
  · cases cmd.gCode <;> rfl

/-- A motion has no code iff it is refused. -/
theorem moveCode_eq_none_iff {state : ModalState P} {cmd : GCodeCommand P} {g : ℕ}
    (hcode : cmd.gCode = some g) (hg : g ≤ 3) :
    moveCode M state cmd = none ↔ Refused M state cmd := by
  have harc : ∀ n : ℕ,
      ((Emitted.arc ⟨[], []⟩ (emitArc M n state (state.advance cmd) cmd)).toOption.map
        fun out => (out.instructions, out.signals)) = none ↔
      ∃ e, emitArc M n state (state.advance cmd) cmd = .error e := by
    intro n
    cases emitArc M n state (state.advance cmd) cmd with
    | error e => exact ⟨fun _ => ⟨e, rfl⟩, fun _ => rfl⟩
    | ok insts => exact ⟨by rintro ⟨⟩, by rintro ⟨_, ⟨⟩⟩⟩
  have hcases : g = 0 ∨ g = 1 ∨ g = 2 ∨ g = 3 := by omega
  rw [moveCode, emitMotion, Refused, hcode]
  rcases hcases with rfl | rfl | rfl | rfl
  · exact ⟨by rintro ⟨⟩, False.elim⟩
  · dsimp only [Option.getD_some]
    cases hge : P.f64.ge ((profileOf state (state.advance cmd)).distance M) (P.f64.lit 1 9) with
    | false => exact ⟨by rintro ⟨⟩, fun h => absurd h.1 Bool.false_ne_true⟩
    | true =>
        rw [if_pos rfl]
        cases generateTrapezoidalProgram M (profileOf state (state.advance cmd)) with
        | ok program => exact ⟨by rintro ⟨⟩, by rintro ⟨_, _, ⟨⟩⟩⟩
        | error e => exact ⟨fun _ => ⟨rfl, e, rfl⟩, fun _ => rfl⟩
  · exact harc 2
  · exact harc 3

/-- Nothing is emitted for a motion iff it stands still. -/
theorem moveCode_eq_nil_iff {state : ModalState P} {cmd : GCodeCommand P} {g : ℕ}
    (hcode : cmd.gCode = some g) (hg : g ≤ 3) :
    moveCode M state cmd = some ([], []) ↔ StandsStill M state cmd := by
  have harc : ∀ n : ℕ,
      ((Emitted.arc ⟨[], []⟩ (emitArc M n state (state.advance cmd) cmd)).toOption.map
        fun out => (out.instructions, out.signals)) = some ([], []) ↔
      emitArc M n state (state.advance cmd) cmd = .ok [] := by
    intro n
    cases emitArc M n state (state.advance cmd) cmd with
    | error e => exact ⟨by rintro ⟨⟩, by rintro ⟨⟩⟩
    | ok insts =>
        refine ⟨fun h => ?_, fun h => ?_⟩
        · exact congrArg Except.ok (Prod.mk.inj (Option.some.inj h)).1
        · rw [Except.ok.inj h]
          rfl
  have hcases : g = 0 ∨ g = 1 ∨ g = 2 ∨ g = 3 := by omega
  rw [moveCode, emitMotion, StandsStill, hcode]
  rcases hcases with rfl | rfl | rfl | rfl
  · exact ⟨by rintro ⟨⟩, False.elim⟩
  · dsimp only [Option.getD_some]
    cases hge : P.f64.ge ((profileOf state (state.advance cmd)).distance M) (P.f64.lit 1 9) with
    | false => exact ⟨fun _ => rfl, fun _ => rfl⟩
    | true =>
        rw [if_pos rfl]
        cases hprogram : generateTrapezoidalProgram M (profileOf state (state.advance cmd)) with
        | error e => exact ⟨by rintro ⟨⟩, by rintro ⟨⟩⟩
        | ok program =>
            refine ⟨fun h => ?_, by rintro ⟨⟩⟩
            -- a profile is never empty
            have hlen := (generateTrapezoidalProgram_layout (lt_eq_false_of_ge hge) hprogram).length
            have hnil : program.instructions = [] := (Prod.mk.inj (Option.some.inj h)).1
            rw [hnil] at hlen
            exact absurd hlen.symm (TrapezoidalProfile.size_pos M _).ne'
  · exact harc 2
  · exact harc 3

end Weftik.GCode
