import Weftik.GCode.Compiler
import Weftik.Motion.Exact

/-!
# Where the Jumps of a Motion Block Go

The code of a command is a block of the program. The targets of the jumps of a motion
profile are counted from the beginning of the profile, and they are not moved when the
profile is appended: a loop that begins at some index of the profile jumps to that index of
the program. Whether this is in the same block depends on how many instructions precede it.

## Main definitions

* `codeSize`, `codeSizes`: the number of instructions of a command and of several.
* `IsBlock`: the block of a command.
* `SelfContained`: the jumps of the motion blocks go into their own blocks.
* `LoopsEarly`: the blocks with loops come early enough in the program.

## Main results

* `selfContained_iff`: when the motion blocks are self-contained.
-/

open Outcome

namespace Weftik.GCode

open Motion

variable {P : Platform} (M : FloatMath P)

/-! ### Blocks -/

/-- The number of instructions of a command, in a modal state. -/
def codeSize (cmd : GCodeCommand P) (state : ModalState P) : ℕ :=
  let next := state.advance cmd
  match cmd.kind with
  | .motion =>
      match cmd.gCode.getD state.motionMode with
      | 0 => (emitG0 next).length
      | 1 =>
          let profile := profileOf state next
          if P.f64.ge (profile.distance M) (P.f64.lit 1 9) then profile.size M else 0
      | g =>
          match emitArc M g state next cmd with
          | .ok insts => insts.length
          | .error _ => 0
  | .spindle => (emitSpindle cmd).length
  | .programControl => (emitProgramControl cmd).length
  | .modal | .unknown => 0

/-- The number of instructions of several commands. -/
def codeSizes : List (GCodeCommand P) → ModalState P → ℕ
  | [], _ => 0
  | cmd :: cmds, state => codeSize M cmd state + codeSizes cmds (state.advance cmd)

/-- What has been emitted, with an arc. -/
def Emitted.arc (out : Emitted P) :
    Except UnsupportedCommand (List (Instruction P)) → Except CompileError (Emitted P)
  | .ok insts => .ok (out.extend insts)
  | .error e => .error (.unsupported e)

/-- Is the command a linear move whose profile has a loop? -/
def Loops (cmd : GCodeCommand P) (state : ModalState P) : Prop :=
  cmd.kind = .motion ∧ cmd.gCode.getD state.motionMode = 1 ∧
    P.f64.ge ((profileOf state (state.advance cmd)).distance M) (P.f64.lit 1 9) = true ∧
    (profileOf state (state.advance cmd)).hasLoop M = true

/-- The block of a command of the program: it begins where the code of the commands before
it ends, and stops where their code and its own end. -/
def IsBlock (commands : List (GCodeCommand P)) (initialModal : ModalState P)
    (cmd : GCodeCommand P) (start stop : ℕ) : Prop :=
  ∃ before after p p', commands = before ++ cmd :: after ∧
    compileCommands M before initialModal = .ok p ∧
    compileCommands M (before ++ [cmd]) initialModal = .ok p' ∧
    start = p.instructions.length ∧ stop = p'.instructions.length

/-- Every jump in a motion block goes into the block or to the instruction after it. -/
def SelfContained (commands : List (GCodeCommand P)) (initialModal : ModalState P)
    (program : HalProgram P) : Prop :=
  ∀ cmd start stop, IsBlock M commands initialModal cmd start stop → cmd.kind = .motion →
    ∀ i inst t, start ≤ i → i < stop → program.instructions[i]? = some inst →
      inst.jumpsTo = some t → start ≤ t ∧ t ≤ stop

/-- A block with a loop is preceded by at most as many instructions as precede the loop in
the profile: the two of the prelude, and those of the commands. -/
def LoopsEarly (commands : List (GCodeCommand P)) (initialModal : ModalState P) : Prop :=
  ∀ before cmd after, commands = before ++ cmd :: after →
    let state := before.foldl ModalState.advance initialModal
    Loops M cmd state →
      2 + codeSizes M before initialModal ≤ (profileOf state (state.advance cmd)).firstLoop M

/-! ### The code of a command -/

variable {M}

/-- The code of a command: its size, and its jumps. -/
structure BlockCode (M : FloatMath P) (cmd : GCodeCommand P) (state : ModalState P)
    (insts : List (Instruction P)) : Prop where
  length : insts.length = codeSize M cmd state
  bounds : Loops M cmd state → ∀ t ∈ jumpTargets insts,
    (profileOf state (state.advance cmd)).firstLoop M ≤ t ∧ t ≤ insts.length
  first : Loops M cmd state →
    (profileOf state (state.advance cmd)).firstLoop M ∈ jumpTargets insts
  none : ¬Loops M cmd state → jumpTargets insts = []

variable {cmd : GCodeCommand P} {state : ModalState P} {insts : List (Instruction P)}

/-- Code without jumps. -/
theorem blockCode_of_nil (hlen : insts.length = codeSize M cmd state)
    (hnil : jumpTargets insts = []) (hloops : ¬Loops M cmd state) : BlockCode M cmd state insts :=
  ⟨hlen, fun h => absurd h hloops, fun h => absurd h hloops, fun _ => hnil⟩

theorem jumpTargets_emitG0 (state : ModalState P) : jumpTargets (emitG0 state) = [] := by
  rw [emitG0]
  split <;> split <;> rfl

theorem jumpTargets_emitSpindle (cmd : GCodeCommand P) : jumpTargets (emitSpindle cmd) = [] := by
  rw [emitSpindle]
  split <;> split <;> rfl

theorem jumpTargets_emitProgramControl (cmd : GCodeCommand P) :
    jumpTargets (emitProgramControl cmd) = [] := by
  rw [emitProgramControl]
  split <;> split <;> rfl

/-- A check that all the stores of a chord pass. -/
theorem emitArc_all {q : Instruction P → Bool} (hload : q (.loadImm regStep (.bool true)) = true)
    (hsegment : ∀ a posA posB posLinear, (arcSegment a posA posB posLinear).all q = true)
    {gCode : ℕ} {prev next : ModalState P} (h : emitArc M gCode prev next cmd = .ok insts) :
    insts.all q = true := by
  rw [emitArc] at h
  split at h
  · cases h
  · obtain ⟨center, -, hrest⟩ := bind_eq_ok h
    dsimp only at hrest
    split at hrest
    · cases hrest
    · split at hrest
      · obtain rfl := Except.ok.inj hrest
        rfl
      · obtain rfl := Except.ok.inj hrest
        rw [List.all_cons, hload, List.all_flatMap]
        exact List.all_eq_true.mpr fun n _ => hsegment _ _ _ _

theorem jumpTargets_emitArc {gCode : ℕ} {prev next : ModalState P}
    (h : emitArc M gCode prev next cmd = .ok insts) : jumpTargets insts = [] := by
  have hnone : insts.all (fun inst => inst.jumpsTo.isNone) = true :=
    emitArc_all rfl (fun _ _ _ _ => rfl) h
  exact List.filterMap_eq_nil_iff.mpr fun inst hinst =>
    Option.isNone_iff_eq_none.mp (List.all_eq_true.mp hnone inst hinst)

/-- A float is not both below a number and at or above it. -/
theorem lt_eq_false_of_ge {a b : P.F64} (h : P.f64.ge a b = true) : P.f64.lt a b = false := by
  rw [FloatOps.ge, Bool.or_eq_true, beq_iff_eq, beq_iff_eq] at h
  rw [FloatOps.lt, beq_eq_false_iff_ne]
  rcases h with h | h <;> rw [h] <;> rintro ⟨⟩

/-- The code of an arc. -/
theorem emitArc_block {g : ℕ} (hkind : cmd.kind = .motion)
    (hmode : cmd.gCode.getD state.motionMode = g) (hg : g = 2 ∨ g = 3)
    (h : emitArc M g state (state.advance cmd) cmd = .ok insts) : BlockCode M cmd state insts := by
  refine blockCode_of_nil ?_ (jumpTargets_emitArc h) ?_
  · rcases hg with rfl | rfl <;> simp only [codeSize, hkind, hmode, h]
  · rintro ⟨-, hlinear, -⟩
    omega

variable {out out' : Emitted P}

/-- The code of a motion command. -/
theorem emitMotion_block (hkind : cmd.kind = .motion) (h : emitMotion M cmd state out = .ok out') :
    ∃ insts, out'.instructions = out.instructions ++ insts ∧ BlockCode M cmd state insts := by
  unfold emitMotion at h
  dsimp only at h
  split at h
  · rename_i hmode
    obtain rfl := Except.ok.inj h
    refine ⟨_, rfl, blockCode_of_nil ?_ (jumpTargets_emitG0 _) ?_⟩
    · simp only [codeSize, hkind, hmode]
    · rintro ⟨-, hlinear, -⟩
      rw [hmode] at hlinear
      cases hlinear
  · rename_i hmode
    split at h
    · rename_i hge
      cases hprofile : generateTrapezoidalProgram M (profileOf state (state.advance cmd)) with
      | error e => rw [hprofile] at h; cases h
      | ok program =>
          rw [hprofile] at h
          obtain rfl := Except.ok.inj h
          have hlayout := generateTrapezoidalProgram_layout (lt_eq_false_of_ge hge) hprofile
          refine ⟨_, rfl, ?_, ?_, ?_, ?_⟩
          · simp only [codeSize, hkind, hmode, hge, if_true]
            exact hlayout.length
          · intro _ t ht
            rw [hlayout.length]
            exact hlayout.bounds t ht
          · exact fun hloops => hlayout.first hloops.2.2.2
          · intro hloops
            refine hlayout.none (Bool.eq_false_iff.mpr fun hloop => ?_)
            exact hloops ⟨hkind, hmode, hge, hloop⟩
    · rename_i hge
      obtain rfl := Except.ok.inj h
      refine ⟨[], (List.append_nil _).symm, blockCode_of_nil ?_ rfl ?_⟩
      · simp only [codeSize, hkind, hmode]
        rw [if_neg hge]
        rfl
      · exact fun hloops => hge hloops.2.2.1
  · rename_i hmode
    split at h
    · cases h
    · rename_i g hcode
      obtain rfl : g = 2 := by rw [hcode] at hmode; exact hmode
      split at h
      · rename_i insts harc
        obtain rfl := Except.ok.inj h
        exact ⟨insts, rfl, emitArc_block hkind hmode (Or.inl rfl) harc⟩
      · cases h
  · rename_i hmode
    split at h
    · cases h
    · rename_i g hcode
      obtain rfl : g = 3 := by rw [hcode] at hmode; exact hmode
      split at h
      · rename_i insts harc
        obtain rfl := Except.ok.inj h
        exact ⟨insts, rfl, emitArc_block hkind hmode (Or.inr rfl) harc⟩
      · cases h
  · split at h <;> cases h

/-- The code of a command. -/
theorem emitCommand_block (h : emitCommand M cmd state out = .ok out') :
    ∃ insts, out'.instructions = out.instructions ++ insts ∧ BlockCode M cmd state insts := by
  have hother : cmd.kind ≠ .motion → ¬Loops M cmd state := fun hkind hloops => hkind hloops.1
  cases hkind : cmd.kind with
  | motion =>
      rw [emitCommand, hkind] at h
      exact emitMotion_block hkind h
  | spindle =>
      rw [emitCommand, hkind] at h
      obtain rfl := Except.ok.inj h
      refine ⟨_, rfl, blockCode_of_nil ?_ (jumpTargets_emitSpindle cmd) (hother (hkind ▸ nofun))⟩
      simp only [codeSize, hkind]
  | programControl =>
      rw [emitCommand, hkind] at h
      obtain rfl := Except.ok.inj h
      refine ⟨_, rfl, blockCode_of_nil ?_ (jumpTargets_emitProgramControl cmd)
        (hother (hkind ▸ nofun))⟩
      simp only [codeSize, hkind]
  | modal =>
      rw [emitCommand, hkind] at h
      obtain rfl := Except.ok.inj h
      refine ⟨[], (List.append_nil _).symm, blockCode_of_nil ?_ rfl (hother (hkind ▸ nofun))⟩
      simp only [codeSize, hkind, List.length_nil]
  | unknown =>
      rw [emitCommand, hkind] at h
      dsimp only at h
      split at h
      · cases h
      · cases h
      · obtain rfl := Except.ok.inj h
        refine ⟨[], (List.append_nil _).symm, blockCode_of_nil ?_ rfl (hother (hkind ▸ nofun))⟩
        simp only [codeSize, hkind, List.length_nil]

/-! ### The pieces of the code -/

/-- A property of all the pieces of code that the compiler puts together for commands of a
kind. -/
structure OfPieces (M : FloatMath P) (kind : GCodeCommand P → Prop)
    (Q : List (Instruction P) → Prop) : Prop where
  nil : Q []
  append : ∀ {a b}, Q a → Q b → Q (a ++ b)
  rapid : ∀ state, Q (emitG0 state)
  profile : ∀ {p program}, P.f64.ge (p.distance M) (P.f64.lit 1 9) = true →
    generateTrapezoidalProgram M p = .ok program → Q program.instructions
  arc : ∀ {g prev next cmd insts}, emitArc M g prev next cmd = .ok insts → Q insts
  spindle : ∀ cmd, Q (emitSpindle cmd)
  control : ∀ cmd, kind cmd → cmd.kind = .programControl → Q (emitProgramControl cmd)

variable {kind : GCodeCommand P → Prop} {Q : List (Instruction P) → Prop}

theorem OfPieces.emitCommand (hQ : OfPieces M kind Q) (hcmd : kind cmd)
    (h : emitCommand M cmd state out = .ok out') :
    ∃ insts, out'.instructions = out.instructions ++ insts ∧ Q insts := by
  have hnone : out = out' → ∃ insts, out'.instructions = out.instructions ++ insts ∧ Q insts := by
    rintro rfl
    exact ⟨[], (List.append_nil _).symm, hQ.nil⟩
  have harc : ∀ g : ℕ, (match emitArc M g state (state.advance cmd) cmd with
        | .ok insts => pure (out.extend insts)
        | .error e => .error (.unsupported e) : Except CompileError (Emitted P)) = .ok out' →
      ∃ insts, out'.instructions = out.instructions ++ insts ∧ Q insts := by
    intro g hg
    cases hemit : emitArc M g state (state.advance cmd) cmd with
    | error e =>
        rw [hemit] at hg
        cases hg
    | ok insts =>
        rw [hemit] at hg
        obtain rfl := Except.ok.inj hg
        exact ⟨insts, rfl, hQ.arc hemit⟩
  rw [GCode.emitCommand] at h
  cases hkind : cmd.kind with
  | motion =>
      rw [hkind] at h
      dsimp only at h
      unfold emitMotion at h
      dsimp only at h
      split at h
      · obtain rfl := Except.ok.inj h
        exact ⟨_, rfl, hQ.rapid _⟩
      · split at h
        · rename_i hge
          cases hprofile : generateTrapezoidalProgram M (profileOf state (state.advance cmd)) with
          | error e =>
              rw [hprofile] at h
              cases h
          | ok program =>
              rw [hprofile] at h
              obtain rfl := Except.ok.inj h
              exact ⟨_, rfl, hQ.profile hge hprofile⟩
        · exact hnone (Except.ok.inj h)
      · split at h
        · cases h
        · exact harc _ h
      · split at h
        · cases h
        · exact harc _ h
      · split at h <;> cases h
  | spindle =>
      rw [hkind] at h
      obtain rfl := Except.ok.inj h
      exact ⟨_, rfl, hQ.spindle cmd⟩
  | programControl =>
      rw [hkind] at h
      obtain rfl := Except.ok.inj h
      exact ⟨_, rfl, hQ.control cmd hcmd hkind⟩
  | modal =>
      rw [hkind] at h
      exact hnone (Except.ok.inj h)
  | unknown =>
      rw [hkind] at h
      dsimp only at h
      split at h
      · cases h
      · cases h
      · exact hnone (Except.ok.inj h)

theorem OfPieces.emitCommands (hQ : OfPieces M kind Q) {cmds : List (GCodeCommand P)}
    (hcmds : ∀ cmd ∈ cmds, kind cmd) (h : emitCommands M cmds state out = .ok out') :
    ∃ insts, out'.instructions = out.instructions ++ insts ∧ Q insts := by
  induction cmds generalizing state out with
  | nil =>
      obtain rfl := Except.ok.inj h
      exact ⟨[], (List.append_nil _).symm, hQ.nil⟩
  | cons cmd cmds ih =>
      obtain ⟨hcmd, hrest⟩ := List.forall_mem_cons.mp hcmds
      obtain ⟨out₁, hout, hout'⟩ := bind_eq_ok h
      obtain ⟨insts, hinsts, hcode⟩ := hQ.emitCommand hcmd hout
      obtain ⟨more, hmore, hcode'⟩ := ih hrest hout'
      exact ⟨insts ++ more, by rw [hmore, hinsts, List.append_assoc], hQ.append hcode hcode'⟩

/-! ### The code of several commands -/

theorem emitCommands_append (cmds rest : List (GCodeCommand P)) (state : ModalState P)
    (out : Emitted P) :
    emitCommands M (cmds ++ rest) state out =
      emitCommands M cmds state out >>=
        emitCommands M rest (cmds.foldl ModalState.advance state) := by
  induction cmds generalizing state out with
  | nil => rfl
  | cons cmd cmds ih =>
      simp only [List.cons_append, emitCommands, List.foldl_cons]
      cases emitCommand M cmd state out with
      | error e => rfl
      | ok out₁ => exact ih _ out₁

/-- The code of several commands extends what has been emitted before. -/
theorem emitCommands_extends {cmds : List (GCodeCommand P)}
    (h : emitCommands M cmds state out = .ok out') :
    ∃ insts, out'.instructions = out.instructions ++ insts ∧
      insts.length = codeSizes M cmds state := by
  induction cmds generalizing state out with
  | nil =>
      obtain rfl := Except.ok.inj h
      exact ⟨[], (List.append_nil _).symm, rfl⟩
  | cons cmd cmds ih =>
      obtain ⟨out₁, hcmd, hrest⟩ := bind_eq_ok h
      obtain ⟨insts, hinsts, hblock⟩ := emitCommand_block hcmd
      obtain ⟨insts', hinsts', hlen⟩ := ih hrest
      refine ⟨insts ++ insts', ?_, ?_⟩
      · rw [hinsts', hinsts, List.append_assoc]
      · rw [List.length_append, hblock.length, hlen, codeSizes]

variable {initialModal : ModalState P} {program : HalProgram P}

/-- A compiled program, cut before and after the block of one of its commands. -/
theorem compileCommands_split {before after : List (GCodeCommand P)}
    (h : compileCommands M (before ++ cmd :: after) initialModal = .ok program) :
    ∃ p p' insts rest,
      compileCommands M before initialModal = .ok p ∧
      compileCommands M (before ++ [cmd]) initialModal = .ok p' ∧
      p.instructions.length = 2 + codeSizes M before initialModal ∧
      p'.instructions = p.instructions ++ insts ∧
      program.instructions = p'.instructions ++ rest ∧
      BlockCode M cmd (before.foldl ModalState.advance initialModal) insts := by
  obtain ⟨out, hout, hprogram⟩ := bind_eq_ok h
  obtain rfl := Except.ok.inj hprogram
  rw [emitCommands_append] at hout
  obtain ⟨out₁, hbefore, hout⟩ := bind_eq_ok hout
  obtain ⟨out₂, hcmd, hafter⟩ := bind_eq_ok hout
  obtain ⟨code, hcode, hlen⟩ := emitCommands_extends hbefore
  obtain ⟨insts, hinsts, hblock⟩ := emitCommand_block hcmd
  obtain ⟨rest, hrest, -⟩ := emitCommands_extends hafter
  refine ⟨⟨"gcode_program", out₁.signals, out₁.instructions, []⟩,
    ⟨"gcode_program", out₂.signals, out₂.instructions, []⟩, insts, rest, ?_, ?_, ?_, hinsts,
    hrest, hblock⟩
  · rw [compileCommands, hbefore]
    rfl
  · rw [compileCommands, emitCommands_append, hbefore]
    simp only [ok_bind, emitCommands, hcmd]
    rfl
  · change out₁.instructions.length = _
    rw [hcode, List.length_append, hlen]
    rfl

/-- In a program with self-contained motion blocks the loops come early: the first jump of a
block with a loop goes back to where the loop would begin. -/
theorem LoopsEarly.of_selfContained {commands : List (GCodeCommand P)}
    (h : compileCommands M commands initialModal = .ok program)
    (hself : SelfContained M commands initialModal program) :
    LoopsEarly M commands initialModal := by
  rintro before cmd after rfl state hloops
  obtain ⟨p, p', insts, rest, hp, hp', hlen, hinsts, hrest, hblock⟩ := compileCommands_split h
  obtain ⟨inst, hmem, hjumps⟩ := List.mem_filterMap.mp (hblock.first hloops)
  obtain ⟨i, hi, rfl⟩ := List.mem_iff_getElem.mp hmem
  have hstop : p'.instructions.length = p.instructions.length + insts.length := by
    rw [hinsts, List.length_append]
  have hat : program.instructions[p.instructions.length + i]? = some insts[i] := by
    rw [hrest, List.getElem?_append_left (by omega), hinsts,
      List.getElem?_append_right (by omega), Nat.add_sub_cancel_left,
      List.getElem?_eq_getElem hi]
  have hbounds := hself cmd _ _ ⟨before, after, p, p', rfl, hp, hp', rfl, rfl⟩ hloops.1 _ _ _
    (by omega) (by omega) hat hjumps
  rw [← hlen]
  exact hbounds.1

/-- Where the loops come early, the jumps of a block go neither back beyond its first
instruction nor past its end. -/
theorem LoopsEarly.selfContained {commands : List (GCodeCommand P)}
    (h : compileCommands M commands initialModal = .ok program)
    (hearly : LoopsEarly M commands initialModal) :
    SelfContained M commands initialModal program := by
  rintro cmd start stop ⟨before, after, q, q', rfl, hq, hq', rfl, rfl⟩ - i inst t hstart hstop
    hat hjumps
  obtain ⟨p, p', insts, rest, hp, hp', hlen, hinsts, hrest, hblock⟩ := compileCommands_split h
  obtain rfl := Except.ok.inj (hp.symm.trans hq)
  obtain rfl := Except.ok.inj (hp'.symm.trans hq')
  have hlength : p'.instructions.length = p.instructions.length + insts.length := by
    rw [hinsts, List.length_append]
  rw [hrest, List.getElem?_append_left hstop, hinsts, List.getElem?_append_right hstart] at hat
  have ht : t ∈ jumpTargets insts :=
    List.mem_filterMap.mpr ⟨inst, List.mem_of_getElem? hat, hjumps⟩
  by_cases hloops : Loops M cmd (before.foldl ModalState.advance initialModal)
  · obtain ⟨hfirst, hlast⟩ := hblock.bounds hloops t ht
    have hle := hearly before cmd after rfl hloops
    omega
  · rw [hblock.none hloops] at ht
    cases ht

/-- The motion blocks of a program are self-contained iff its loops come early. -/
theorem selfContained_iff {commands : List (GCodeCommand P)} {initialModal : ModalState P}
    {program : HalProgram P} (h : compileCommands M commands initialModal = .ok program) :
    SelfContained M commands initialModal program ↔ LoopsEarly M commands initialModal :=
  ⟨LoopsEarly.of_selfContained h, LoopsEarly.selfContained h⟩

/-! ### Two linear moves -/

/-- A linear move of the first axis. -/
def linearX (x : P.F64) : GCodeCommand P :=
    { GCodeCommand.ofCodes (some 1) none 1 with x := some x }

/-- A move of ten units in absolute mode, with the feed rate and the acceleration of
power-on, is a long one. -/
theorem tenUnits {c : Bool} {state : ModalState (Platform.real c)} {x : ℝ}
    (hmode : state.coordMode = 90) (hfeed : state.feedrate = 0) (hacc : state.acceleration = 500)
    (hx : x - state.currentX = 10) :
    Loops (FloatMath.real c) (linearX x) state ∧
      (profileOf state (state.advance (linearX x))).isLong (FloatMath.real c) = true := by
  have hnext : (state.advance (linearX x)).currentX = x := by
    change ModalState.target state.coordMode state.currentX (some x) = x
    rw [ModalState.target, if_pos hmode]
  obtain ⟨p, hp⟩ : ∃ p, p = profileOf state (state.advance (linearX x)) := ⟨_, rfl⟩
  have hdx : p.dx = 10 := by
    rw [hp]
    change (state.advance (linearX x)).currentX - state.currentX = 10
    rw [hnext, hx]
  have hdy : p.dy = 0 := by rw [hp]; exact sub_self _
  have hdz : p.dz = 0 := by rw [hp]; exact sub_self _
  have hpfeed : p.feedrate = 0 := by rw [hp, ← hfeed]; rfl
  have hpacc : p.acceleration = 500 := by rw [hp, ← hacc]; rfl
  have hpdt : p.dt = 1 / 100 := by rw [hp, profileOf, FloatOps.real_lit]; norm_num
  have hlength : p.pathLength = 10 := by
    rw [TrapezoidalProfile.pathLength, hdx, hdy, hdz,
      show (10 : ℝ) ^ 2 + 0 ^ 2 + 0 ^ 2 = 10 ^ 2 by norm_num, Real.sqrt_sq (by norm_num)]
  have hspeed : p.speed = 5 / 3 := by
    rw [TrapezoidalProfile.speed, hpfeed]
    norm_num
  have hlong : p.isLong (FloatMath.real c) = true := by
    rw [TrapezoidalProfile.isLong_real p (by rw [hpacc]; norm_num),
      TrapezoidalProfile.cruiseLength, hlength, hspeed, hpacc]
    norm_num
  rw [← hp]
  refine ⟨⟨rfl, rfl, ?_, ?_⟩, hlong⟩
  · rw [← hp, TrapezoidalProfile.distance_real, hlength, FloatOps.real_ge, decide_eq_true_iff,
      FloatOps.real_lit]
    norm_num
  · rw [← hp]
    exact TrapezoidalProfile.hasLoop_real (by rw [hpacc]; norm_num) (by rw [hpdt]; norm_num)

/-- A move with a long profile is always compiled. -/
theorem exists_emitCommand (hloops : Loops M cmd state)
    (hlong : (profileOf state (state.advance cmd)).isLong M = true) :
    ∃ out', emitCommand M cmd state out = .ok out' := by
  obtain ⟨hkind, hmode, hge, -⟩ := hloops
  obtain ⟨program, hprogram⟩ := exists_generateTrapezoidalProgram hlong
  refine ⟨⟨out.instructions ++ program.instructions, out.signals ++ program.signals⟩, ?_⟩
  simp only [emitCommand, hkind, emitMotion, hmode, hge, if_true, hprogram]
  rfl

/-- One linear move is self-contained, as little code precedes it. -/
theorem selfContained_linearX :
    ∃ program, compileCommands (FloatMath.real true) [linearX 10] ModalState.new = .ok program ∧
      SelfContained (FloatMath.real true) [linearX 10] ModalState.new program := by
  obtain ⟨hloops, hlong⟩ := tenUnits (x := 10)
    (rfl : (ModalState.new : ModalState (Platform.real true)).coordMode = 90)
    FloatOps.real_zero (by simp [ModalState.new]) (by simp [ModalState.new])
  obtain ⟨out, hout⟩ : ∃ out, emitCommand (FloatMath.real true) (linearX 10) ModalState.new
      ⟨prelude, axisSignals⟩ = .ok out := exists_emitCommand hloops hlong
  have hcompile : compileCommands (FloatMath.real true) [linearX 10] ModalState.new =
      .ok ⟨"gcode_program", out.signals, out.instructions, []⟩ := by
    rw [compileCommands, emitCommands, hout]
    rfl
  refine ⟨_, hcompile, (selfContained_iff hcompile).mpr ?_⟩
  intro before cmd after hsplit state _
  have hfirst := (profileOf state (state.advance cmd)).le_firstLoop (FloatMath.real true)
  cases before with
  | nil => exact le_trans (by decide) hfirst
  | cons first before =>
      have hlen := congrArg List.length hsplit
      simp at hlen

/-- The modal state after a move of the first axis. -/
noncomputable def atX (x : ℝ) : ModalState (Platform.real true) :=
  ModalState.new.advance (linearX x)

/-- Two linear moves in a row: the loops of the second one jump into the first one. -/
theorem linearX_linearX_not_selfContained :
    ∃ program,
      compileCommands (FloatMath.real true) [linearX 10, linearX 20] ModalState.new =
        .ok program ∧
      ¬SelfContained (FloatMath.real true) [linearX 10, linearX 20] ModalState.new program := by
  obtain ⟨hloops₁, hlong₁⟩ := tenUnits (x := 10)
    (rfl : (ModalState.new : ModalState (Platform.real true)).coordMode = 90)
    FloatOps.real_zero (by simp [ModalState.new]) (by simp [ModalState.new])
  obtain ⟨hloops₂, hlong₂⟩ := tenUnits (x := 20) (rfl : (atX 10).coordMode = 90)
    FloatOps.real_zero (by rw [show (atX 10).acceleration = (500 : ℕ) / 10 ^ 0 from rfl]; simp)
    (by rw [show (atX 10).currentX = (10 : ℝ) from rfl]; norm_num)
  obtain ⟨out₁, hout₁⟩ : ∃ out, emitCommand (FloatMath.real true) (linearX 10) ModalState.new
      ⟨prelude, axisSignals⟩ = .ok out := exists_emitCommand hloops₁ hlong₁
  obtain ⟨out₂, hout₂⟩ : ∃ out, emitCommand (FloatMath.real true) (linearX 20) (atX 10) out₁ =
      .ok out := exists_emitCommand hloops₂ hlong₂
  have hcompile : compileCommands (FloatMath.real true) [linearX 10, linearX 20]
      ModalState.new = .ok ⟨"gcode_program", out₂.signals, out₂.instructions, []⟩ := by
    rw [compileCommands, emitCommands, hout₁, ok_bind, emitCommands, ← atX, hout₂]
    rfl
  refine ⟨_, hcompile, fun hself => ?_⟩
  have hearly := LoopsEarly.of_selfContained hcompile hself [linearX 10] (linearX 20) [] rfl hloops₂
  have hfirst :=
    (profileOf (atX 10) ((atX 10).advance (linearX 20))).firstLoop_le (FloatMath.real true)
  have hsize := (profileOf ModalState.new (atX 10)).le_size_of_hasLoop (FloatMath.real true)
    hloops₁.2.2.2
  have hcode : codeSizes (FloatMath.real true) [linearX 10] ModalState.new =
      (profileOf ModalState.new (atX 10)).size (FloatMath.real true) :=
    if_pos hloops₁.2.2.1
  have hstart : 2 + (profileOf ModalState.new (atX 10)).size (FloatMath.real true) ≤
      (profileOf (atX 10) ((atX 10).advance (linearX 20))).firstLoop (FloatMath.real true) :=
    hcode ▸ hearly
  omega

end Weftik.GCode
