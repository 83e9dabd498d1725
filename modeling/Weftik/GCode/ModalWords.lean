import Weftik.GCode.Blocks
import Weftik.GCode.Parser

/-!
# Motion Words that Repeat the Active Mode

The compiler remembers the motion mode, so that a motion word that repeats it could be left
out. But a block is compiled by its kind, and the kind comes from the codes of the block
alone: without a motion word the block is an unknown command without a code, for which
nothing is emitted, and its axis words are lost, for the moves after it as well. A repeated
word can be left out only where another `G` word decides the code of its block in any case,
or where the block moves nothing.

## Main definitions

* `RepeatedWord`: a word of a program that repeats the active motion mode.
* `RepeatedWord.Unchanged`: the program compiles to the same without it.
* `RepeatedWord.Harmless`: where this is so.

## Main results

* `unchanged_of_harmless`, `harmless_of_unchanged`: where leaving the word out is harmless.
-/

open Outcome

namespace Weftik.GCode

open Motion

variable {P : Platform}

/-! ### Lines do not matter -/

/-- The modal state at another line. -/
def ModalState.atLine (state : ModalState P) (line : ℕ) : ModalState P :=
  { state with lineNumber := line }

theorem advance_atLine (state : ModalState P) (cmd : GCodeCommand P) (line line' : ℕ) :
    (state.atLine line').advance (cmd.atLine line) = (state.advance cmd).atLine line := by
  obtain ⟨kind, gCode, mCode, x, y, z, i, j, k, r, f, s, l⟩ := cmd
  cases kind with
  | motion =>
      cases gCode with
      | none => cases f <;> rfl
      | some g =>
          by_cases hg : g ≤ 3 <;> cases f <;>
            simp only [ModalState.advance, GCodeCommand.atLine, hg, if_true, if_false] <;> rfl
  | spindle => cases s <;> rfl
  | modal =>
      cases gCode with
      | none => rfl
      | some g =>
          simp only [ModalState.advance, GCodeCommand.atLine, ModalState.atLine]
          split_ifs <;> rfl
  | programControl => rfl
  | unknown => rfl

variable (M : FloatMath P)

/-- The center of an arc depends on the words of the command only. -/
theorem calculateArcCenter_congr (a : PlaneAxes P) {cmd cmd' : GCodeCommand P} (plane : ℕ)
    (hi : cmd'.i = cmd.i) (hj : cmd'.j = cmd.j) (hk : cmd'.k = cmd.k) (hr : cmd'.r = cmd.r) :
    (calculateArcCenter M a cmd' plane).toOption =
      (calculateArcCenter M a cmd plane).toOption := by
  unfold calculateArcCenter
  rw [hi, hj, hk, hr]
  cases cmd.r <;> dsimp only <;> split_ifs <;> rfl

theorem toOption_bind {ε α β : Type} (c : Except ε α) (f : α → Except ε β) :
    (c >>= f).toOption = c.toOption.bind fun a => (f a).toOption := by
  cases c <;> rfl

theorem emitArc_atLine (g : ℕ) (prev next : ModalState P) (cmd : GCodeCommand P)
    (line line' line'' : ℕ) :
    (emitArc M g (prev.atLine line') (next.atLine line'') (cmd.atLine line)).toOption =
      (emitArc M g prev next cmd).toOption := by
  unfold emitArc
  rw [show planeAxes (prev.atLine line') (next.atLine line'') = planeAxes prev next from rfl]
  cases planeAxes prev next with
  | none => rfl
  | some a =>
      have hcenter : (calculateArcCenter M a (cmd.atLine line)
          (prev.atLine line').plane).toOption =
            (calculateArcCenter M a cmd prev.plane).toOption :=
        calculateArcCenter_congr M a prev.plane rfl rfl rfl rfl
      dsimp only
      rw [toOption_bind, toOption_bind, hcenter]
      congr 1
      funext center
      split <;> rfl

/-- The line of a command is at most in the text of an error. -/
theorem emitMotion_atLine (cmd : GCodeCommand P) (state : ModalState P) (out : Emitted P)
    (line line' : ℕ) :
    (emitMotion M (cmd.atLine line) (state.atLine line') out).toOption =
      (emitMotion M cmd state out).toOption := by
  unfold emitMotion
  rw [advance_atLine]
  dsimp only
  rw [show (cmd.atLine line).gCode.getD (state.atLine line').motionMode =
    cmd.gCode.getD state.motionMode from rfl]
  have harc : ∀ g : ℕ, (out.arc (emitArc M g (state.atLine line')
      ((state.advance cmd).atLine line) (cmd.atLine line))).toOption =
      (out.arc (emitArc M g state (state.advance cmd) cmd)).toOption := by
    intro g
    have h := emitArc_atLine M g state (state.advance cmd) cmd line line' line
    revert h
    cases emitArc M g (state.atLine line') ((state.advance cmd).atLine line) (cmd.atLine line) <;>
      cases emitArc M g state (state.advance cmd) cmd <;> intro h <;> cases h <;> rfl
  split
  · rfl
  · rfl
  · cases hcode : cmd.gCode with
    | none => rw [show (cmd.atLine line).gCode = none from hcode]
    | some g =>
        rw [show (cmd.atLine line).gCode = some g from hcode]
        exact harc g
  · cases hcode : cmd.gCode with
    | none => rw [show (cmd.atLine line).gCode = none from hcode]
    | some g =>
        rw [show (cmd.atLine line).gCode = some g from hcode]
        exact harc g
  · cases hcode : cmd.gCode with
    | none => rw [show (cmd.atLine line).gCode = none from hcode]
    | some g =>
        rw [show (cmd.atLine line).gCode = some g from hcode]
        rfl

theorem emitCommand_atLine (cmd : GCodeCommand P) (state : ModalState P) (out : Emitted P)
    (line line' : ℕ) :
    (emitCommand M (cmd.atLine line) (state.atLine line') out).toOption =
      (emitCommand M cmd state out).toOption := by
  unfold emitCommand
  rw [show (cmd.atLine line).kind = cmd.kind from rfl]
  cases cmd.kind with
  | motion => exact emitMotion_atLine M cmd state out line line'
  | spindle => rfl
  | modal => rfl
  | programControl => rfl
  | unknown =>
      dsimp only
      rw [show (cmd.atLine line).gCode = cmd.gCode from rfl,
        show (cmd.atLine line).mCode = cmd.mCode from rfl]
      cases cmd.gCode <;> cases cmd.mCode <;> rfl

/-- The lines of the commands are at most in the text of an error. -/
theorem emitCommands_atLine (cmds : List (GCodeCommand P)) (state : ModalState P)
    (out : Emitted P) :
    (emitCommands M (cmds.map fun cmd => cmd.atLine 0) (state.atLine 0) out).toOption =
      (emitCommands M cmds state out).toOption := by
  induction cmds generalizing state out with
  | nil => rfl
  | cons cmd cmds ih =>
      rw [List.map_cons, emitCommands, emitCommands, toOption_bind, toOption_bind,
        emitCommand_atLine]
      congr 1
      funext out₁
      rw [advance_atLine, ih]

/-- Commands that differ in their lines give the same code. -/
theorem emitCommands_congr {cmds cmds' : List (GCodeCommand P)} {state state' : ModalState P}
    (hcmds : cmds'.map (fun cmd => cmd.atLine 0) = cmds.map fun cmd => cmd.atLine 0)
    (hstate : state'.atLine 0 = state.atLine 0) (out : Emitted P) :
    (emitCommands M cmds' state' out).toOption = (emitCommands M cmds state out).toOption := by
  rw [← emitCommands_atLine, hcmds, hstate, emitCommands_atLine]

/-! ### A word that repeats the active mode -/

/-- The modal state after some blocks. -/
def stateAfter (tokens : List (LexedToken P)) : ModalState P :=
  (parseAll tokens).foldl ModalState.advance ModalState.new

theorem motionMode_advance_le {state : ModalState P} (h : state.motionMode ≤ 3)
    (cmd : GCodeCommand P) : (state.advance cmd).motionMode ≤ 3 := by
  obtain ⟨kind, gCode, mCode, x, y, z, i, j, k, r, f, s, l⟩ := cmd
  cases kind with
  | motion =>
      cases gCode with
      | none => cases f <;> exact h
      | some g =>
          by_cases hg : g ≤ 3 <;> cases f <;>
            simp only [ModalState.advance, hg, if_true, if_false] <;> assumption
  | spindle => cases s <;> exact h
  | modal =>
      cases gCode with
      | none => exact h
      | some g =>
          simp only [ModalState.advance]
          split_ifs <;> first | exact h | exact Nat.zero_le 3
  | programControl => exact h
  | unknown => exact h

/-- The active motion mode is one of the four. -/
theorem motionMode_le (cmds : List (GCodeCommand P)) {state : ModalState P}
    (h : state.motionMode ≤ 3) : (cmds.foldl ModalState.advance state).motionMode ≤ 3 := by
  induction cmds generalizing state with
  | nil => exact h
  | cons cmd cmds ih => exact ih (motionMode_advance_le h cmd)

variable (P) in
/-- A `G` word of a program that repeats the active motion mode: what stands before and after
it in its block, the blocks before, and the rest of the program from the end of its block
on. -/
structure RepeatedWord where
  before : List (LexedToken P)
  left : List (LexedToken P)
  word : LexedToken P
  right : List (LexedToken P)
  stop : LexedToken P
  after : List (LexedToken P)
  complete : Complete before
  left_open : ∀ tok ∈ left, tok.token.endsBlock = false
  right_open : ∀ tok ∈ right, tok.token.endsBlock = false
  stop_ends : stop.token.endsBlock = true
  repeats : word.token = .g (stateAfter before).motionMode

namespace RepeatedWord

variable (w : RepeatedWord P)

/-- The modal state before the block. -/
def state : ModalState P := stateAfter w.before

/-- The block of the word. -/
def block : List (LexedToken P) := w.left ++ w.word :: w.right

/-- The block without the word. -/
def shortened : List (LexedToken P) := w.left ++ w.right

/-- The commands after the block. -/
def rest : List (GCodeCommand P) := parseAll (w.stop :: w.after)

/-- The program. -/
def source : List (LexedToken P) := w.before ++ (w.block ++ w.stop :: w.after)

/-- The program without the word. -/
def deleted : List (LexedToken P) := w.before ++ (w.shortened ++ w.stop :: w.after)

/-- The word can be left out: the same program is compiled, or none in both cases. -/
def Unchanged : Prop :=
  (compileTokens M w.deleted).toOption = (compileTokens M w.source).toOption

/-- The `G` code of the block is the same without the word: a `G` word follows in the block,
or the one before is the same. -/
def SameCode : Prop :=
  (lastG w.right).isSome ∨ lastG w.left = some w.state.motionMode

/-- The word is the only code of its block. -/
def OnlyCode : Prop :=
  lastG w.shortened = none ∧ lastM w.shortened = none

/-- No code is emitted for the motion of the block: a linear move of no length, or an arc
without an angle. -/
def Stays : Prop :=
  let cmd := parseLine w.block
  match w.state.motionMode with
  | 0 => False
  | 1 => P.f64.ge ((profileOf w.state (w.state.advance cmd)).distance M) (P.f64.lit 1 9) = false
  | g => emitArc M g w.state (w.state.advance cmd) cmd = .ok []

/-- The block leaves the position and the feed rate as they are. -/
def KeepsState : Prop :=
  (w.state.advance (parseLine w.block)).atLine 0 = w.state.atLine 0

/-- Where leaving the word out is harmless: the blocks before are not compiled, or the code
of the block is the same without the word, or the block only repeats the mode, emits
nothing, and either changes no state or is the last one. -/
def Harmless : Prop :=
  (compileTokens M w.before).toOption = none ∨ w.SameCode ∨
    w.OnlyCode ∧ w.Stays M ∧ (w.KeepsState ∨ w.rest = [])

/-! ### The commands of the two programs -/

variable {w} {M}

theorem block_open : ∀ tok ∈ w.block, tok.token.endsBlock = false := by
  intro tok htok
  rcases List.mem_append.mp htok with htok | htok
  · exact w.left_open tok htok
  · rcases List.mem_cons.mp htok with rfl | htok
    · rw [w.repeats]
      rfl
    · exact w.right_open tok htok

theorem shortened_open : ∀ tok ∈ w.shortened, tok.token.endsBlock = false := by
  intro tok htok
  rcases List.mem_append.mp htok with htok | htok
  · exact w.left_open tok htok
  · exact w.right_open tok htok

theorem parseAll_source :
    parseAll w.source = parseAll w.before ++ (parseBlock w.block ++ w.rest) :=
  parseAll_block w.complete block_open w.stop_ends

theorem parseAll_deleted :
    parseAll w.deleted = parseAll w.before ++ (parseBlock w.shortened ++ w.rest) :=
  parseAll_block w.complete shortened_open w.stop_ends

theorem lastG_block :
    lastG w.block = (lastG w.right).or (some w.state.motionMode) := by
  rw [block, lastG_append, lastG_cons, w.repeats]
  cases lastG w.right <;> rfl

theorem block_isWord : w.block.any (fun tok => tok.token.isWord) = true := by
  refine any_isWord_of_lastG ?_
  rw [lastG_block]
  cases lastG w.right <;> rfl

/-- The command of the whole block differs from that of the shortened one in the `G` code. -/
theorem addTokens_block (cmd : GCodeCommand P) :
    cmd.addTokens w.block =
      (cmd.addTokens w.shortened).withG ((lastG w.right).or (some w.state.motionMode)) := by
  rw [block, shortened, GCodeCommand.addTokens_append, GCodeCommand.addTokens_append,
    ← GCodeCommand.addTokens_withG]
  change (((cmd.addTokens w.left).addToken w.word.token).addTokens w.right) = _
  rw [w.repeats]
  rfl

/-- With the same code the blocks give the same command. -/
theorem SameCode.parseBlock (h : w.SameCode) :
    (parseBlock w.shortened).map (fun cmd => cmd.atLine 0) =
      (GCode.parseBlock w.block).map fun cmd => cmd.atLine 0 := by
  have hcode : lastG w.shortened = (lastG w.right).or (some w.state.motionMode) := by
    rw [shortened, lastG_append]
    rcases h with h | h
    · obtain ⟨n, hn⟩ := Option.isSome_iff_exists.mp h
      rw [hn]
      rfl
    · rw [h]
  have hword : w.shortened.any (fun tok => tok.token.isWord) = true := by
    refine any_isWord_of_lastG ?_
    rw [hcode]
    cases lastG w.right <;> rfl
  rw [parseBlock_atLine, parseBlock_atLine, if_pos hword, if_pos block_isWord, blockCommand,
    blockCommand, addTokens_block, ← hcode]
  congr 1
  have hsame : ((GCodeCommand.new 0).addTokens w.shortened).gCode = lastG w.shortened := by
    rw [GCodeCommand.gCode_addTokens]
    exact Option.or_none
  rw [← hsame]
  rfl

/-! ### What is emitted for the two blocks -/

variable (w) in
/-- The active motion mode is one of the four. -/
theorem mode_cases : w.state.motionMode = 0 ∨ w.state.motionMode = 1 ∨
    w.state.motionMode = 2 ∨ w.state.motionMode = 3 := by
  have hmode : w.state.motionMode ≤ 3 := motionMode_le _ (Nat.zero_le 3)
  omega

theorem parseBlock_block : GCode.parseBlock w.block = [parseLine w.block] := by
  rw [GCode.parseBlock, if_pos block_isWord]

/-- A block whose only code is a motion word is a motion in the active mode. -/
theorem OnlyCode.command (h : w.OnlyCode) :
    (parseLine w.block).kind = .motion ∧
      (parseLine w.block).gCode = some w.state.motionMode := by
  have hright : lastG w.right = none := by
    have hnone := h.1
    rw [shortened, lastG_append] at hnone
    exact (Option.or_eq_none_iff.mp hnone).1
  have hblock := parseLine_atLine (block_isWord (w := w))
  have hcode : (parseLine w.block).gCode = some w.state.motionMode := by
    change ((parseLine w.block).atLine 0).gCode = _
    rw [hblock]
    change ((GCodeCommand.new 0).addTokens w.block).gCode = _
    rw [GCodeCommand.gCode_addTokens, lastG_block, hright]
    rfl
  refine ⟨?_, hcode⟩
  have hkind : (parseLine w.block).kind =
      classify (parseLine w.block).gCode (parseLine w.block).mCode := by
    change ((parseLine w.block).atLine 0).kind =
      classify ((parseLine w.block).atLine 0).gCode ((parseLine w.block).atLine 0).mCode
    rw [hblock]
    rfl
  rw [hkind, hcode, classify, if_pos]
  rcases w.mode_cases with h | h | h | h <;> rw [h] <;> decide

/-- Without its only code the block is nothing, or an unknown command without a code. -/
theorem OnlyCode.parseBlock_shortened (h : w.OnlyCode) :
    parseBlock w.shortened = [] ∨ ∃ cmd : GCodeCommand P, parseBlock w.shortened = [cmd] ∧
      cmd.kind = .unknown ∧ cmd.gCode = none ∧ cmd.mCode = none := by
  rw [parseBlock]
  split
  case isFalse => exact Or.inl rfl
  case isTrue hword =>
      have hline := parseLine_atLine hword
      have hg : ((GCodeCommand.new 0).addTokens w.shortened).gCode = none := by
        rw [GCodeCommand.gCode_addTokens, h.1]
        rfl
      have hm : ((GCodeCommand.new 0).addTokens w.shortened).mCode = none := by
        rw [GCodeCommand.mCode_addTokens, h.2]
        rfl
      refine Or.inr ⟨_, rfl, ?_, ?_, ?_⟩
      · change ((parseLine w.shortened).atLine 0).kind = _
        rw [hline]
        change classify ((GCodeCommand.new 0).addTokens w.shortened).gCode
          ((GCodeCommand.new 0).addTokens w.shortened).mCode = _
        rw [hg, hm]
        rfl
      · change ((parseLine w.shortened).atLine 0).gCode = _
        rw [hline]
        exact hg
      · change ((parseLine w.shortened).atLine 0).mCode = _
        rw [hline]
        exact hm

/-- Without its only code nothing is left of the block. -/
theorem OnlyCode.emitCommands_shortened (h : w.OnlyCode) (out : Emitted P) :
    (emitCommands M (parseBlock w.shortened ++ w.rest) w.state out).toOption =
      (emitCommands M w.rest w.state out).toOption := by
  rcases h.parseBlock_shortened with hnil | ⟨cmd, hcmd, hkind, hg, hm⟩
  · rw [hnil, List.nil_append]
  · have hemit : emitCommand M cmd w.state out = .ok out := by
      rw [emitCommand, hkind, hg, hm]
      rfl
    have hadvance : w.state.advance cmd = w.state.atLine cmd.line := by
      rw [ModalState.advance, hkind]
      rfl
    rw [hcmd, List.singleton_append, emitCommands, hemit, hadvance, ok_bind]
    exact emitCommands_congr M (by rfl) (by rfl) out

/-- A motion that stays emits nothing. -/
theorem Stays.emitCommand (h : w.Stays M) (honly : w.OnlyCode) (out : Emitted P) :
    emitCommand M (parseLine w.block) w.state out = .ok out := by
  obtain ⟨hkind, hcode⟩ := honly.command
  rw [GCode.emitCommand, hkind]
  dsimp only
  rw [emitMotion, hcode]
  dsimp only [Option.getD_some]
  rw [Stays] at h
  rcases w.mode_cases with hmode | hmode | hmode | hmode <;> rw [hmode] at h ⊢
  · exact absurd h id
  · rw [h]
    rfl
  · rw [h]
    exact congrArg Except.ok (by rw [Emitted.extend, List.append_nil])
  · rw [h]
    exact congrArg Except.ok (by rw [Emitted.extend, List.append_nil])

theorem emitArc_eq_nil {g : ℕ} {prev next : ModalState P} {cmd : GCodeCommand P}
    {out out' : Emitted P}
    (h : (match emitArc M g prev next cmd with
      | .ok insts => pure (out.extend insts)
      | .error e => .error (.unsupported e) : Except CompileError (Emitted P)) = .ok out')
    (hlen : (match emitArc M g prev next cmd with
      | .ok insts => insts.length
      | .error _ => 0) = 0) : emitArc M g prev next cmd = .ok [] := by
  cases harc : emitArc M g prev next cmd with
  | error e => rw [harc] at h; cases h
  | ok insts =>
      rw [harc] at hlen
      rw [List.length_eq_zero_iff.mp hlen]

/-- A motion for which no instruction is emitted stays. -/
theorem OnlyCode.stays (honly : w.OnlyCode) {out out' : Emitted P}
    (h : emitCommand M (parseLine w.block) w.state out = .ok out')
    (hlen : out'.instructions.length = out.instructions.length) : w.Stays M := by
  obtain ⟨hkind, hcode⟩ := honly.command
  obtain ⟨insts, hinsts, hblock⟩ := emitCommand_block h
  have hsize : codeSize M (parseLine w.block) w.state = 0 := by
    rw [← hblock.length]
    rw [hinsts, List.length_append] at hlen
    omega
  rw [codeSize, hkind, hcode] at hsize
  dsimp only [Option.getD_some] at hsize
  rw [GCode.emitCommand, hkind] at h
  dsimp only at h
  rw [emitMotion, hcode] at h
  dsimp only [Option.getD_some] at h
  rw [Stays]
  rcases w.mode_cases with hmode | hmode | hmode | hmode <;> rw [hmode] at h hsize ⊢
  · cases hsize
  · change (if _ then _ else 0) = 0 at hsize
    refine Bool.eq_false_iff.mpr fun hge => ?_
    rw [if_pos hge] at hsize
    exact absurd hsize (TrapezoidalProfile.size_pos M _).ne'
  · exact emitArc_eq_nil h hsize
  · exact emitArc_eq_nil h hsize

/-! ### The compiled programs -/

theorem compileTokens_toOption (tokens : List (LexedToken P)) :
    (compileTokens M tokens).toOption =
      (emitCommands M (parseAll tokens) ModalState.new ⟨prelude, axisSignals⟩).toOption.map
        fun out => ⟨"gcode_program", out.signals, out.instructions, []⟩ := by
  rw [compileTokens, compileCommands]
  cases emitCommands M (parseAll tokens) ModalState.new ⟨prelude, axisSignals⟩ <;> rfl

/-- With the same code of the block the word can be left out. -/
theorem SameCode.unchanged (h : w.SameCode) : w.Unchanged M := by
  rw [Unchanged, compileTokens_toOption, compileTokens_toOption, parseAll_source,
    parseAll_deleted]
  refine congrArg _ (emitCommands_congr M ?_ rfl _)
  rw [List.map_append, List.map_append, List.map_append, List.map_append, h.parseBlock]

/-- The two programs, from the end of the blocks before on. -/
theorem unchanged_iff_of_emitCommands {out : Emitted P}
    (h : emitCommands M (parseAll w.before) ModalState.new ⟨prelude, axisSignals⟩ = .ok out) :
    w.Unchanged M ↔
      (emitCommands M (GCode.parseBlock w.shortened ++ w.rest) w.state out).toOption =
        (emitCommands M (GCode.parseBlock w.block ++ w.rest) w.state out).toOption := by
  rw [Unchanged, compileTokens_toOption, compileTokens_toOption, parseAll_source,
    parseAll_deleted, emitCommands_append, emitCommands_append, h, ok_bind, ok_bind]
  refine (Option.map_injective fun out₁ out₂ hout => ?_).eq_iff
  obtain ⟨-, hsignals, hinsts, -⟩ := HalProgram.mk.inj hout
  obtain ⟨insts₁, signals₁⟩ := out₁
  obtain ⟨insts₂, signals₂⟩ := out₂
  obtain rfl : insts₁ = insts₂ := hinsts
  obtain rfl : signals₁ = signals₂ := hsignals
  rfl

/-- Where leaving a repeated word out is harmless, the same program is compiled. -/
theorem unchanged_of_harmless (h : w.Harmless M) : w.Unchanged M := by
  rcases h with hnone | hsame | ⟨honly, hstays, hkeeps⟩
  · -- neither program is compiled
    rw [compileTokens_toOption, Option.map_eq_none_iff] at hnone
    rw [Unchanged, compileTokens_toOption, compileTokens_toOption, parseAll_source,
      parseAll_deleted, emitCommands_append, emitCommands_append, toOption_bind,
      toOption_bind, hnone]
    rfl
  · exact hsame.unchanged
  · cases hbefore : emitCommands M (parseAll w.before) ModalState.new ⟨prelude, axisSignals⟩ with
    | error e =>
        rw [Unchanged, compileTokens_toOption, compileTokens_toOption, parseAll_source,
          parseAll_deleted, emitCommands_append, emitCommands_append, hbefore]
        rfl
    | ok out =>
        rw [unchanged_iff_of_emitCommands hbefore, honly.emitCommands_shortened,
          parseBlock_block, List.singleton_append, emitCommands,
          hstays.emitCommand honly, ok_bind]
        rcases hkeeps with hkeeps | hrest
        · exact emitCommands_congr M rfl hkeeps.symm out
        · rw [hrest]
          rfl

/-- Where a repeated word is the only code of the last block, it is harmless to leave it
out only in these cases. -/
theorem harmless_of_unchanged (honly : w.OnlyCode) (hrest : w.rest = [])
    (h : w.Unchanged M) : w.Harmless M := by
  cases hbefore : emitCommands M (parseAll w.before) ModalState.new ⟨prelude, axisSignals⟩ with
  | error e =>
      refine Or.inl ?_
      rw [compileTokens_toOption, hbefore]
      rfl
  | ok out =>
      rw [unchanged_iff_of_emitCommands hbefore, honly.emitCommands_shortened,
        parseBlock_block, hrest, List.append_nil] at h
      have hemit : emitCommand M (parseLine w.block) w.state out = .ok out := by
        rw [emitCommands, emitCommands, toOption_bind] at h
        cases hcmd : emitCommand M (parseLine w.block) w.state out with
        | error e => rw [hcmd] at h; cases h
        | ok out' =>
            rw [hcmd] at h
            exact congrArg Except.ok (Option.some.inj h).symm
      exact Or.inr (Or.inr ⟨honly, honly.stays hemit rfl, Or.inr hrest⟩)

end RepeatedWord

/-- A word that repeats the active motion mode can be left out where that is harmless, and,
if it is the only code of the last block, only there. -/
theorem repeatedWord_unchanged (w : RepeatedWord P) :
    (w.Harmless M → w.Unchanged M) ∧
      (w.OnlyCode → w.rest = [] → (w.Unchanged M ↔ w.Harmless M)) :=
  ⟨RepeatedWord.unchanged_of_harmless, fun honly hrest =>
    ⟨RepeatedWord.harmless_of_unchanged honly hrest, RepeatedWord.unchanged_of_harmless⟩⟩

/-! ### Two rapid moves -/

/-- The second `G0` of `G0 X10`, `G0 X20`. -/
noncomputable def secondRapid : RepeatedWord (Platform.real true) where
  before := [⟨.g 0, 1⟩, ⟨.x ((10 : ℕ) : ℝ), 1⟩, ⟨.eol, 1⟩]
  left := []
  word := ⟨.g 0, 2⟩
  right := [⟨.x (20 : ℝ), 2⟩]
  stop := ⟨.eof, 2⟩
  after := []
  complete := by
    refine ⟨fun tok htok => ?_, fun tok htok => ?_⟩
    · simp only [List.mem_cons, List.not_mem_nil, or_false] at htok
      rcases htok with rfl | rfl | rfl <;> exact nofun
    · cases htok
      rfl
  left_open := nofun
  right_open := by
    intro tok htok
    rw [List.mem_singleton.mp htok]
    rfl
  stop_ends := rfl
  repeats := rfl

/-- The first `G0` of `G0 G0 X10`. -/
noncomputable def doubledRapid : RepeatedWord (Platform.real true) where
  before := []
  left := []
  word := ⟨.g 0, 1⟩
  right := [⟨.g 0, 1⟩, ⟨.x ((10 : ℕ) : ℝ), 1⟩]
  stop := ⟨.eof, 1⟩
  after := []
  complete := ⟨nofun, nofun⟩
  left_open := nofun
  right_open := by
    intro tok htok
    simp only [List.mem_cons, List.not_mem_nil, or_false] at htok
    rcases htok with rfl | rfl <;> rfl
  stop_ends := rfl
  repeats := rfl

/-- A doubled `G0` can be left out; the second of two moves needs its own. -/
theorem doubledRapid_unchanged :
    doubledRapid.Unchanged (FloatMath.real true) ∧
      (secondRapid.Unchanged (FloatMath.real true) ↔
        secondRapid.Harmless (FloatMath.real true)) :=
  ⟨(repeatedWord_unchanged _ _).1 (Or.inr (Or.inl (Or.inl rfl))),
    (repeatedWord_unchanged _ _).2 ⟨rfl, rfl⟩ rfl⟩

/-- Without its `G0` the second move is lost. -/
theorem secondRapid_changed : ¬secondRapid.Unchanged (FloatMath.real true) := by
  intro h
  rcases RepeatedWord.harmless_of_unchanged ⟨rfl, rfl⟩ rfl h with hnone | hsame | ⟨-, hstays, -⟩
  · cases hnone
  · rcases hsame with hsame | hsame <;> cases hsame
  · exact hstays

end Weftik.GCode
