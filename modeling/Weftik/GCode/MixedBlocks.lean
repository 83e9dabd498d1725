import Weftik.GCode.Effects

/-!
# Words of Several Modal Groups in One Block

The parser makes one command of a block: the last `G` word and the last `M` word are kept,
and the command is of one kind, which the compiler looks at. The other words are dropped. So
a block does what its words do on lines of their own only where the words that are dropped
repeat the active modes, and a motion that is dropped does not move.

## Main definitions

* `MixedBlock`: a block with at most one word of each modal group.
* `MixedBlock.SameEffect`: the block does what its words do on lines of their own.
* `MixedBlock.Independent`: where this is so.

## Main results

* `sameEffect_iff`: the two are the same.
-/

namespace Weftik.GCode

variable {P : Platform}

/-! ### Blocks of words of several groups -/

variable (P) in
/-- A block of words of different modal groups and of the words of a motion. -/
structure MixedBlock where
  tokens : List (LexedToken P)
  words : ∀ tok ∈ tokens, tok.token.group.isSome ∨ tok.token.isMoveWord = true
  oneEach : (tokens.filterMap fun tok => tok.token.group).Nodup

namespace MixedBlock

variable (M : FloatMath P) (b : MixedBlock P)

/-- The words of the other groups. -/
def modes : List (LexedToken P) := b.tokens.filter fun tok => tok.token.isModeWord

/-- The block without them: the motion. -/
def rest : List (LexedToken P) := b.tokens.filter fun tok => !tok.token.isModeWord

/-- The block on one line. -/
def together : List (LexedToken P) := b.tokens ++ [⟨.eol, 0⟩]

/-- The command of the motion, its line apart. -/
def move : GCodeCommand P := blockCommand b.rest

/-- The words of the other groups on lines of their own, and then the motion. -/
def apart : List (LexedToken P) :=
  (b.modes.flatMap fun tok => [tok, ⟨.eol, tok.line⟩]) ++ (b.rest ++ [⟨.eol, 0⟩])

/-- In a modal state, the block does what its words do on lines of their own. -/
def SameEffect (state : ModalState P) : Prop :=
  ∀ out, effect M (parseAll b.together) state out = effect M (parseAll b.apart) state out

/-- The kind of the command that the block is read as. -/
def kind : CommandKind := classify (lastG b.tokens) (lastM b.tokens)

/-- Is the word one that the command goes by? -/
def keeps (tok : Token P) : Bool :=
  match b.kind, tok with
  | .spindle, .m _ | .programControl, .m _ | .unknown, .m _ => true
  | .modal, .g n => lastG b.tokens = some n
  | _, _ => false

/-- The modal state after the words on lines of their own. -/
def modeState (state : ModalState P) : ModalState P :=
  stateOf b.modes state

/-- The words that the command does not go by repeat the active modes, and a motion among
them does nothing. Otherwise the motion is refused in any case, or an `M` word is. -/
def Independent (state : ModalState P) : Prop :=
  (∀ tok ∈ b.modes, b.keeps tok.token = false → Repeats state tok.token) ∧
    (b.kind ≠ .motion → (lastG b.rest).isSome →
      StandsStill M (b.modeState state) b.move ∧
      ((b.modeState state).advance b.move).atLine 0 = (b.modeState state).atLine 0) ∨
  b.kind = .motion ∧ Refused M state b.move ∧
    ((∃ tok ∈ b.modes, wordCode tok.token = none) ∨ Refused M (b.modeState state) b.move)

end MixedBlock

variable {M : FloatMath P}

/-! ### The tokens of the two programs -/

theorem Token.endsBlock_of_group {tok : Token P} (h : tok.group.isSome) :
    tok.endsBlock = false := by
  cases tok <;> first | rfl | cases h

theorem Token.endsBlock_of_isMoveWord {tok : Token P} (h : tok.isMoveWord = true) :
    tok.endsBlock = false := by
  cases tok <;> first | rfl | cases h

/-- A block and the end of its line, and what follows. -/
theorem parseAll_line {block : List (LexedToken P)}
    (h : ∀ tok ∈ block, tok.token.endsBlock = false) (line : ℕ) (after : List (LexedToken P)) :
    parseAll (block ++ ⟨.eol, line⟩ :: after) = parseBlock block ++ parseAll after := by
  have hstop : (⟨.eol, line⟩ : LexedToken P).token.endsBlock = true := rfl
  have hnil : Complete ([] : List (LexedToken P)) := ⟨nofun, nofun⟩
  exact parseAll_block hnil h hstop

/-- The token of a word of another group is open. -/
theorem Token.endsBlock_of_isModeWord {tok : Token P} (h : tok.isModeWord = true) :
    tok.endsBlock = false := by
  rw [Token.isModeWord, Bool.and_eq_true] at h
  exact Token.endsBlock_of_group h.1

theorem parseAll_modes {modes : List (LexedToken P)}
    (h : ∀ tok ∈ modes, tok.token.isModeWord = true) (after : List (LexedToken P)) :
    parseAll ((modes.flatMap fun tok => [tok, ⟨.eol, tok.line⟩]) ++ after) =
      (modes.flatMap fun tok => parseBlock [tok]) ++ parseAll after := by
  induction modes with
  | nil => rfl
  | cons tok modes ih =>
      have hopen : ∀ t ∈ [tok], t.token.endsBlock = false := by
        intro t ht
        rw [List.mem_singleton.mp ht]
        exact Token.endsBlock_of_isModeWord (h tok List.mem_cons_self)
      have hline := parseAll_line hopen tok.line
        ((modes.flatMap fun tok => [tok, ⟨.eol, tok.line⟩]) ++ after)
      rw [List.flatMap_cons, List.flatMap_cons, List.append_assoc, List.append_assoc,
        ← ih fun t ht => h t (List.mem_cons_of_mem _ ht)]
      exact hline

namespace MixedBlock

variable {b : MixedBlock P}

theorem endsBlock_tokens : ∀ tok ∈ b.tokens, tok.token.endsBlock = false := by
  intro tok htok
  rcases b.words tok htok with h | h
  · exact Token.endsBlock_of_group h
  · exact Token.endsBlock_of_isMoveWord h

theorem isModeWord_modes : ∀ tok ∈ b.modes, tok.token.isModeWord = true := fun _ htok =>
  (List.mem_filter.mp htok).2

theorem parseAll_together : parseAll b.together = parseBlock b.tokens :=
  (parseAll_line endsBlock_tokens 0 []).trans (List.append_nil _)

theorem parseAll_apart :
    parseAll b.apart = (b.modes.flatMap fun tok => parseBlock [tok]) ++ parseBlock b.rest := by
  rw [apart, parseAll_modes isModeWord_modes]
  have hrest : ∀ tok ∈ b.rest, tok.token.endsBlock = false := fun tok htok =>
    endsBlock_tokens tok (List.mem_filter.mp htok).1
  exact congrArg _ ((parseAll_line hrest 0 []).trans (List.append_nil _))

/-- The words on lines of their own, and then the motion. -/
theorem effect_apart (state : ModalState P) (out : Emitted P) :
    effect M (parseAll b.apart) state out = (wordsCode b.modes).bind fun code =>
      effect M (parseBlock b.rest) (b.modeState state) (out.extend code) := by
  rw [parseAll_apart, effect_append, effect_words isModeWord_modes]
  cases wordsCode b.modes with
  | none => rfl
  | some code => exact effect_atLine _ _ _

/-! ### The motion of a block -/

variable {tokens : List (LexedToken P)}

/-- The codes of the tokens in a block. -/
theorem mem_of_lastG {n : ℕ} (h : lastG tokens = some n) : ∃ tok ∈ tokens, tok.token = .g n := by
  induction tokens with
  | nil => cases h
  | cons tok tokens ih =>
      rw [lastG_cons, Option.or_eq_some_iff] at h
      rcases h with h | ⟨-, h⟩
      · obtain ⟨t, ht, htoken⟩ := ih h
        exact ⟨t, List.mem_cons_of_mem _ ht, htoken⟩
      · refine ⟨tok, List.mem_cons_self, ?_⟩
        cases htoken : tok.token <;> rw [htoken] at h <;> cases h
        rfl

theorem mem_of_lastM {n : ℕ} (h : lastM tokens = some n) : ∃ tok ∈ tokens, tok.token = .m n := by
  induction tokens with
  | nil => cases h
  | cons tok tokens ih =>
      rw [lastM_cons, Option.or_eq_some_iff] at h
      rcases h with h | ⟨-, h⟩
      · obtain ⟨t, ht, htoken⟩ := ih h
        exact ⟨t, List.mem_cons_of_mem _ ht, htoken⟩
      · refine ⟨tok, List.mem_cons_self, ?_⟩
        cases htoken : tok.token <;> rw [htoken] at h <;> cases h
        rfl

theorem isModeWord_rest {tok : LexedToken P} (h : tok ∈ b.rest) : tok.token.isModeWord = false :=
  Bool.not_eq_true' _ ▸ (List.mem_filter.mp h).2

/-- The motion word is the only `G` word of the motion. -/
theorem le_of_lastG_rest {g : ℕ} (h : lastG b.rest = some g) : g ≤ 3 := by
  obtain ⟨tok, htok, htoken⟩ := mem_of_lastG h
  have hmode := isModeWord_rest htok
  have hgroup : tok.token.group.isSome := by
    rcases b.words tok (List.mem_filter.mp htok).1 with hgroup | hword
    · exact hgroup
    · rw [htoken] at hword
      cases hword
  rw [htoken] at hmode hgroup
  simp only [Token.isModeWord, Token.group] at hmode hgroup
  split_ifs at hmode hgroup <;> first
    | assumption
    | exact absurd hgroup Bool.false_ne_true
    | cases hmode

theorem lastM_rest : lastM b.rest = none := by
  cases h : lastM b.rest with
  | none => rfl
  | some n =>
      obtain ⟨tok, htok, htoken⟩ := mem_of_lastM h
      have hmode := isModeWord_rest htok
      rw [htoken] at hmode
      cases hmode

/-- Where the last `G` word is a motion, it is that of the motion. -/
theorem lastG_filter {g : ℕ} (h : lastG tokens = some g) (hg : g ≤ 3) :
    lastG (tokens.filter fun tok => !tok.token.isModeWord) = some g := by
  have hcons : ∀ (tok : LexedToken P) (ts : List (LexedToken P)),
      lastG ((tok :: ts).filter fun tok => !tok.token.isModeWord) =
        (lastG (ts.filter fun tok => !tok.token.isModeWord)).or
          (if tok.token.isModeWord then none else tok.token.gNumber) := by
    intro tok ts
    rw [List.filter_cons]
    cases tok.token.isModeWord
    · exact lastG_cons _ _
    · exact (Option.or_none).symm
  induction tokens with
  | nil => cases h
  | cons tok tokens ih =>
      rw [lastG_cons, Option.or_eq_some_iff] at h
      rw [hcons]
      rcases h with h | ⟨hnone, h⟩
      · rw [ih h]
        rfl
      · -- no `G` word follows
        have hrest : lastG (tokens.filter fun tok => !tok.token.isModeWord) = none := by
          cases hsome : lastG (tokens.filter fun tok => !tok.token.isModeWord) with
          | none => rfl
          | some n =>
              obtain ⟨t, ht, htoken⟩ := mem_of_lastG hsome
              obtain ⟨before, after, rfl⟩ := List.append_of_mem (List.mem_filter.mp ht).1
              rw [lastG_append, lastG_cons, htoken] at hnone
              cases hafter : lastG after <;> rw [hafter] at hnone <;> cases hnone
        have htoken : tok.token = .g g := by
          cases htoken : tok.token <;> rw [htoken] at h <;> cases h
          rfl
        have hmode : (Token.g g : Token P).isModeWord = false := by
          rw [Token.isModeWord, Token.group, if_pos hg]
          rfl
        rw [hrest, htoken, hmode]
        rfl

/-- The words of a command, without its codes and its line. -/
def bare (cmd : GCodeCommand P) : GCodeCommand P :=
  { cmd with kind := .unknown, gCode := none, mCode := none, line := 0 }

theorem bare_addToken {cmd cmd' : GCodeCommand P} (h : bare cmd = bare cmd') (tok : Token P) :
    bare (cmd.addToken tok) = bare (cmd'.addToken tok) := by
  simp only [bare, GCodeCommand.mk.injEq] at h
  obtain ⟨-, -, -, hx, hy, hz, hi, hj, hk, hr, hf, hs, -⟩ := h
  cases tok <;>
    simp only [bare, GCodeCommand.addToken, hx, hy, hz, hi, hj, hk, hr, hf, hs]

/-- A mode word changes the codes only. -/
theorem bare_addToken_mode (cmd : GCodeCommand P) {tok : Token P} (h : tok.isModeWord = true) :
    bare (cmd.addToken tok) = bare cmd := by
  rcases isModeWord_cases h with ⟨n, rfl⟩ | ⟨n, rfl, -⟩ <;> rfl

theorem bare_addTokens (tokens : List (LexedToken P)) {cmd cmd' : GCodeCommand P}
    (h : bare cmd = bare cmd') :
    bare (cmd.addTokens tokens) =
      bare (cmd'.addTokens (tokens.filter fun tok => !tok.token.isModeWord)) := by
  induction tokens generalizing cmd cmd' with
  | nil => exact h
  | cons tok tokens ih =>
      rw [List.filter_cons]
      cases hmode : tok.token.isModeWord with
      | false => exact ih (bare_addToken h tok.token)
      | true => exact ih ((bare_addToken_mode cmd hmode).trans h)

/-- Their codes apart, the block and the motion are the same command. -/
theorem blockCommand_tokens :
    blockCommand b.tokens = { b.move with
      kind := b.kind, gCode := lastG b.tokens, mCode := lastM b.tokens } := by
  have hbare := bare_addTokens b.tokens (rfl : bare (GCodeCommand.new 0 : GCodeCommand P) = _)
  have hg := GCodeCommand.gCode_addTokens (GCodeCommand.new 0) b.tokens
  have hm := GCodeCommand.mCode_addTokens (GCodeCommand.new 0) b.tokens
  rw [show (GCodeCommand.new 0 : GCodeCommand P).gCode = none from rfl, Option.or_none] at hg
  rw [show (GCodeCommand.new 0 : GCodeCommand P).mCode = none from rfl, Option.or_none] at hm
  simp only [bare, GCodeCommand.mk.injEq] at hbare
  obtain ⟨-, -, -, hx, hy, hz, hi, hj, hk, hr, hf, hs, -⟩ := hbare
  simp only [blockCommand, move, rest, GCodeCommand.atLine, GCodeCommand.classified, kind, hg, hm,
    hx, hy, hz, hi, hj, hk, hr, hf, hs]

theorem gCode_move : b.move.gCode = lastG b.rest := by
  have hg := GCodeCommand.gCode_addTokens (GCodeCommand.new 0) b.rest
  rwa [show (GCodeCommand.new 0 : GCodeCommand P).gCode = none from rfl, Option.or_none] at hg

theorem mCode_move : b.move.mCode = none := by
  have hm := GCodeCommand.mCode_addTokens (GCodeCommand.new 0) b.rest
  rwa [show (GCodeCommand.new 0 : GCodeCommand P).mCode = none from rfl, Option.or_none,
    lastM_rest] at hm

theorem kind_move : b.move.kind = classify (lastG b.rest) none := by
  have hkind : b.move.kind = classify b.move.gCode b.move.mCode := rfl
  rw [hkind, gCode_move, mCode_move]

/-- A block is its command. -/
theorem effect_parseBlock (h : tokens.any (fun tok => tok.token.isWord) = true)
    (state : ModalState P) (out : Emitted P) :
    effect M (parseBlock tokens) state out = effect M [blockCommand tokens] state out := by
  rw [← effect_map_atLine, parseBlock_atLine, if_pos h]

theorem classify_motion {g : ℕ} (hg : g ≤ 3) (mCode : Option ℕ) :
    classify (some g) mCode = .motion := by
  have hcases : g = 0 ∨ g = 1 ∨ g = 2 ∨ g = 3 := by omega
  rw [classify, if_pos]
  rcases hcases with rfl | rfl | rfl | rfl <;> decide

/-- Nothing is done for axis words alone. -/
theorem effect_rest_of_none (h : lastG b.rest = none) (state : ModalState P)
    (out : Emitted P) :
    effect M (parseBlock b.rest) state out = some (out, state.atLine 0) := by
  cases hword : b.rest.any fun tok => tok.token.isWord with
  | false =>
      rw [parseBlock, if_neg (by rw [hword]; exact Bool.false_ne_true)]
      rfl
  | true =>
      have hkind := kind_move (b := b)
      rw [h] at hkind
      have hemit : emitCommand M b.move state out = .ok out := by
        rw [emitCommand, hkind, gCode_move, h, mCode_move]
        rfl
      rw [effect_parseBlock hword]
      change effect M [b.move] state out = _
      rw [effect_singleton, hemit, ModalState.advance, hkind]
      rfl

/-- The motion of a block. -/
theorem effect_rest_of_some {g : ℕ} (h : lastG b.rest = some g) (state : ModalState P)
    (out : Emitted P) :
    effect M (parseBlock b.rest) state out = (emitMotion M b.move state out).toOption.map
      fun out' => (out', (state.advance b.move).atLine 0) := by
  rw [effect_parseBlock (any_isWord_of_lastG (by rw [h]; rfl))]
  change effect M [b.move] state out = _
  rw [effect_singleton, emitCommand, kind_move, h, classify_motion (le_of_lastG_rest h)]

end MixedBlock

namespace MixedBlock

variable {b : MixedBlock P}

/-! ### The block on one line -/

/-- The words that are kept. -/
def kept (b : MixedBlock P) : List (LexedToken P) := b.modes.filter fun tok => b.keeps tok.token

theorem oneEach_modes : (b.modes.filterMap fun tok => tok.token.group).Nodup :=
  b.oneEach.sublist (List.filter_sublist.filterMap _)

/-- The words that are dropped repeat the active modes iff the ones that are kept do what all
words do. -/
theorem dropped_iff (state : ModalState P) :
    (∀ tok ∈ b.modes, b.keeps tok.token = false → Repeats state tok.token) ↔
      b.modeState state = stateOf b.kept state ∧ wordsCode b.modes = wordsCode b.kept := by
  have hstate : stateOf b.modes state = stateOf b.kept state ↔ _ :=
    stateOf_filter_iff oneEach_modes isModeWord_modes _ state
  have hcode : wordsCode b.modes = wordsCode b.kept ↔ _ :=
    wordsCode_filter_iff oneEach_modes _
  change _ ↔ stateOf b.modes state = _ ∧ _
  rw [hstate, hcode]
  refine ⟨fun h => ⟨fun tok htok hdrop _ _ => h tok htok hdrop, fun tok htok hdrop n htoken => ?_⟩,
    fun h tok htok hdrop => ?_⟩
  · have hrepeats := h tok htok hdrop
    rwa [htoken] at hrepeats
  · rcases isModeWord_cases (isModeWord_modes tok htok) with ⟨n, htoken⟩ | ⟨n, htoken, -⟩
    · exact absurd htoken (h.2 tok htok hdrop n)
    · exact h.1 tok htok hdrop n htoken

theorem isSome_lastG {tokens : List (LexedToken P)} {tok : LexedToken P} (h : tok ∈ tokens)
    {n : ℕ} (htoken : tok.token = .g n) : (lastG tokens).isSome := by
  obtain ⟨before, after, rfl⟩ := List.append_of_mem h
  rw [lastG_append, lastG_cons, htoken]
  cases lastG after <;> rfl

theorem isSome_lastM {tokens : List (LexedToken P)} {tok : LexedToken P} (h : tok ∈ tokens)
    {n : ℕ} (htoken : tok.token = .m n) : (lastM tokens).isSome := by
  induction tokens with
  | nil => cases h
  | cons t tokens ih =>
      rw [lastM_cons, Option.isSome_or, Bool.or_eq_true]
      rcases List.mem_cons.mp h with rfl | hmem
      · rw [htoken]
        exact Or.inr rfl
      · exact Or.inl (ih hmem)

/-- The last `G` word is a motion or a mode. -/
theorem lastG_cases (b : MixedBlock P) : lastG b.tokens = none ∨
    (∃ g, lastG b.tokens = some g ∧ g ≤ 3) ∨
    ∃ n, lastG b.tokens = some n ∧ IsMode n := by
  cases h : lastG b.tokens with
  | none => exact Or.inl rfl
  | some n =>
      obtain ⟨tok, htok, htoken⟩ := mem_of_lastG h
      have hgroup : tok.token.group.isSome := by
        rcases b.words tok htok with hgroup | hword
        · exact hgroup
        · rw [htoken] at hword
          cases hword
      rw [htoken, Token.group] at hgroup
      refine Or.inr ?_
      split_ifs at hgroup with hmotion hplane hunits hdistance
      · exact Or.inl ⟨n, rfl, hmotion⟩
      · exact Or.inr ⟨n, rfl, by unfold IsMode; omega⟩
      · exact Or.inr ⟨n, rfl, by unfold IsMode; omega⟩
      · exact Or.inr ⟨n, rfl, by unfold IsMode; omega⟩
      · exact absurd hgroup Bool.false_ne_true

theorem classify_of_mode {n : ℕ} (h : IsMode n) (mCode : Option ℕ) :
    classify (some n) mCode = .modal ∨
      classify (some n) mCode = .spindle ∧ ∃ m, mCode = some m ∧ (m = 3 ∨ m = 4 ∨ m = 5) := by
  have hmotion : (some n : Option ℕ) ∉ [some 0, some 1, some 2, some 3] := by
    rcases h with rfl | rfl | rfl | rfl | rfl | rfl | rfl <;> decide
  have hmode : (some n : Option ℕ) ∈
      [some 17, some 18, some 19, some 20, some 21, some 80, some 90, some 91] := by
    rcases h with rfl | rfl | rfl | rfl | rfl | rfl | rfl <;> decide
  rw [classify, if_neg hmotion]
  split_ifs with hspindle
  · refine Or.inr ⟨rfl, ?_⟩
    simp only [List.mem_cons, List.not_mem_nil, or_false] at hspindle
    rcases hspindle with rfl | rfl | rfl
    · exact ⟨3, rfl, by omega⟩
    · exact ⟨4, rfl, by omega⟩
    · exact ⟨5, rfl, by omega⟩
  · exact Or.inl rfl

theorem keeps_iff_of_m (h : b.kind = .spindle ∨ b.kind = .programControl ∨ b.kind = .unknown)
    (tok : Token P) : b.keeps tok = true ↔ ∃ n, tok = .m n := by
  unfold keeps
  rcases h with h | h | h <;> rw [h] <;> cases tok <;> simp

theorem keeps_iff_of_modal (h : b.kind = .modal) (tok : Token P) :
    b.keeps tok = true ↔ ∃ n, tok = .g n ∧ lastG b.tokens = some n := by
  unfold keeps
  rw [h]
  cases tok <;> simp

/-- A kept word is the only one. -/
theorem kept_eq_singleton {tok : LexedToken P} (htok : tok ∈ b.modes)
    (hkeeps : b.keeps tok.token = true) {g : ModalGroup} (hgroup : tok.token.group = some g)
    (hsame : ∀ t : Token P, b.keeps t = true → t.group = some g) : b.kept = [tok] :=
  eq_of_group oneEach_modes htok hkeeps hgroup fun t _ ht => hsame t.token ht

/-- No word of the block is for the spindle speed. -/
theorem s_move : b.move.s = none := by
  have hs : ∀ (tokens : List (LexedToken P)) (cmd : GCodeCommand P),
      (∀ tok ∈ tokens, tok.token.group.isSome ∨ tok.token.isMoveWord = true) →
      (cmd.addTokens tokens).s = cmd.s := by
    intro tokens
    induction tokens with
    | nil => exact fun _ _ => rfl
    | cons tok tokens ih =>
        intro cmd h
        have htok := h tok List.mem_cons_self
        change ((cmd.addToken tok.token).addTokens tokens).s = _
        rw [ih _ fun t ht => h t (List.mem_cons_of_mem _ ht)]
        cases htoken : tok.token <;> first
          | rfl
          | (rw [htoken] at htok
             rcases htok with h | h <;> cases h)
  exact hs b.rest (GCodeCommand.new 0) fun tok htok => b.words tok (List.mem_filter.mp htok).1

/-- The code of an `M` word does not depend on the words of a motion. -/
theorem effect_m {kind : CommandKind} {g : Option ℕ} {n : ℕ}
    (hkind : classify g (some n) = kind)
    (hm : kind = .spindle ∨ kind = .programControl ∨ kind = .unknown ∧ g = none)
    (state : ModalState P) (out : Emitted P) :
    effect M [{ b.move with kind := kind, gCode := g, mCode := some n }] state out =
      (wordCode (.m n)).map fun code => (out.extend code, state.atLine 0) := by
  have hspindle : n = 3 ∨ n = 4 ∨ n = 5 ↔ (some n : Option ℕ) ∈ [some 3, some 4, some 5] := by
    simp
  have hcontrol : n = 2 ∨ n = 30 ↔ (some n : Option ℕ) ∈ [some 2, some 30] := by simp
  rw [effect_singleton]
  simp only [wordCode, hspindle, hcontrol]
  rw [classify] at hkind
  split_ifs at hkind with hmotion hs hmode hc
  · subst hkind
    rcases hm with hm | hm | ⟨hm, -⟩ <;> cases hm
  · subst hkind
    rw [if_pos hs]
    simp only [emitCommand, emitSpindle, ModalState.advance, s_move, GCodeCommand.ofCodes]
    rfl
  · subst hkind
    rcases hm with hm | hm | ⟨hm, -⟩ <;> cases hm
  · subst hkind
    rw [if_neg hs, if_pos hc]
    rfl
  · subst hkind
    rw [if_neg hs, if_neg hc]
    rcases hm with hm | hm | ⟨-, rfl⟩
    · cases hm
    · cases hm
    · rfl

/-- A motion does not read the `M` code. -/
theorem effect_motion (cmd : GCodeCommand P) (hkind : cmd.kind = .motion) (mCode : Option ℕ)
    (state : ModalState P) (out : Emitted P) :
    effect M [{ cmd with mCode := mCode }] state out = effect M [cmd] state out := by
  obtain ⟨kind, gCode, m, x, y, z, i, j, k, r, f, s, line⟩ := cmd
  obtain rfl : kind = .motion := hkind
  rw [effect_singleton, effect_singleton]
  rfl

/-- A block that is read as a motion is its motion. -/
theorem effect_together_of_motion (h : b.kind = .motion) (state : ModalState P)
    (out : Emitted P) :
    effect M (parseAll b.together) state out = effect M (parseBlock b.rest) state out := by
  obtain hnone | ⟨g, hg, hle⟩ | ⟨n, hn, hmode⟩ := b.lastG_cases
  · rw [kind, hnone, classify, if_neg (by decide)] at h
    split_ifs at h
  · have hrest := lastG_filter hg hle
    have hkind : b.move.kind = .motion := by
      rw [kind_move]
      exact hrest ▸ classify_motion hle none
    have hcode : b.move.gCode = lastG b.tokens := gCode_move.trans (hrest.trans hg.symm)
    have hword : b.rest.any (fun tok => tok.token.isWord) = true :=
      any_isWord_of_lastG (Option.isSome_iff_exists.mpr ⟨g, hrest⟩)
    rw [parseAll_together, effect_parseBlock (any_isWord_of_lastG (by rw [hg]; rfl)),
      effect_parseBlock hword, blockCommand_tokens, h, ← hkind, ← hcode]
    exact effect_motion b.move hkind _ state out
  · rw [kind, hn] at h
    rcases classify_of_mode hmode (lastM b.tokens) with hkind | ⟨hkind, -⟩ <;>
      rw [hkind] at h <;> cases h

/-- A block that is not read as a motion is the word that is kept. -/
theorem effect_together (h : b.kind ≠ .motion) (state : ModalState P) (out : Emitted P) :
    effect M (parseAll b.together) state out = (wordsCode b.kept).map fun code =>
      (out.extend code, (stateOf b.kept state).atLine 0) := by
  have hmem : ∀ {tok : LexedToken P}, tok ∈ b.tokens → tok.token.isModeWord = true →
      tok ∈ b.modes := fun htok hmode => List.mem_filter.mpr ⟨htok, hmode⟩
  -- the block goes by its `M` word
  have hm : ∀ n, lastM b.tokens = some n →
      b.kind = .spindle ∨ b.kind = .programControl ∨ b.kind = .unknown ∧ lastG b.tokens = none →
      effect M (parseAll b.together) state out = (wordsCode b.kept).map fun code =>
        (out.extend code, (stateOf b.kept state).atLine 0) := by
    intro n hn hkind
    obtain ⟨tok, htok, htoken⟩ := mem_of_lastM hn
    have hkeeps := keeps_iff_of_m (b := b) (hkind.imp_right (Or.imp_right And.left))
    have hkept : b.kept = [tok] := by
      refine kept_eq_singleton (hmem htok (by rw [htoken]; rfl)) ((hkeeps _).mpr ⟨n, htoken⟩)
        (g := .m) (by rw [htoken]; rfl) fun t ht => ?_
      obtain ⟨k, rfl⟩ := (hkeeps t).mp ht
      rfl
    have hclass : classify (lastG b.tokens) (some n) = b.kind := by rw [kind, hn]
    have hword : b.tokens.any (fun tok => tok.token.isWord) = true :=
      List.any_eq_true.mpr ⟨tok, htok, by rw [htoken]; rfl⟩
    rw [parseAll_together, effect_parseBlock hword, blockCommand_tokens, hn,
      effect_m hclass hkind, hkept, wordsCode, htoken]
    have hstate : stateOf [tok] state = state := by
      change state.apply tok.token = state
      rw [htoken]
      rfl
    rw [hstate]
    cases wordCode (.m n : Token P) with
    | none => rfl
    | some code => simp [wordsCode]
  obtain hnone | ⟨g, hg, hle⟩ | ⟨n, hn, hmode⟩ := b.lastG_cases
  · cases hlast : lastM b.tokens with
    | none =>
        -- no words but those of a motion
        have hmodes : b.modes = [] := by
          refine List.eq_nil_iff_forall_not_mem.mpr fun tok htok => ?_
          have htokens := (List.mem_filter.mp htok).1
          rcases isModeWord_cases (isModeWord_modes tok htok) with ⟨n, htoken⟩ | ⟨n, htoken, -⟩
          · exact absurd (isSome_lastM htokens htoken) (by rw [hlast]; rintro ⟨⟩)
          · exact absurd (isSome_lastG htokens htoken) (by rw [hnone]; rintro ⟨⟩)
        have hrest : b.rest = b.tokens := by
          refine List.filter_eq_self.mpr fun tok htok => ?_
          rw [Bool.not_eq_true']
          refine Bool.eq_false_iff.mpr fun hmode => ?_
          exact List.not_mem_nil (hmodes ▸ hmem htok hmode)
        have heffect := effect_rest_of_none (M := M) (b := b) (hrest ▸ hnone) state out
        rw [hrest] at heffect
        rw [parseAll_together, heffect, kept, hmodes]
        exact congrArg some (congrArg (·, _) (congrArg (Emitted.mk · _) (List.append_nil _).symm))
    | some n =>
        refine hm n hlast ?_
        rw [kind, hnone, hlast, classify, if_neg (by decide)]
        split_ifs with hspindle hmode hcontrol
        · exact Or.inl rfl
        · exact absurd hmode (by decide)
        · exact Or.inr (Or.inl rfl)
        · exact Or.inr (Or.inr ⟨rfl, rfl⟩)
  · exact absurd (by rw [kind, hg, classify_motion hle]) h
  · rcases classify_of_mode hmode (lastM b.tokens) with hkind | ⟨hkind, m, hlast, -⟩
    · obtain ⟨tok, htok, htoken⟩ := mem_of_lastG hn
      have hkind' : b.kind = .modal := by rw [kind, hn, hkind]
      have hkeeps := keeps_iff_of_modal hkind'
      have hword : tok.token.isModeWord = true := by
        rw [htoken]
        rcases hmode with rfl | rfl | rfl | rfl | rfl | rfl | rfl <;> rfl
      obtain ⟨g, hgroup, -⟩ := exists_group_of_isModeWord (htoken ▸ hword)
      have hkept : b.kept = [tok] := by
        refine kept_eq_singleton (hmem htok hword) ((hkeeps _).mpr ⟨n, htoken, hn⟩)
          (htoken ▸ hgroup) fun t ht => ?_
        obtain ⟨k, rfl, hk⟩ := (hkeeps t).mp ht
        rw [← hgroup, Option.some.inj (hn.symm.trans hk)]
      rw [parseAll_together, effect_parseBlock (any_isWord_of_lastG (by rw [hn]; rfl)),
        blockCommand_tokens, hkind', hn, effect_singleton, hkept, wordsCode,
        wordCode_of_ne (by rw [htoken]; rintro _ ⟨⟩)]
      have hstate : (state.advance { b.move with
          kind := .modal, gCode := some n, mCode := lastM b.tokens }).atLine 0 =
          (stateOf [tok] state).atLine 0 := by
        change _ = (state.apply tok.token).atLine 0
        rw [htoken]
        rcases hmode with rfl | rfl | rfl | rfl | rfl | rfl | rfl <;> rfl
      rw [hstate]
      exact congrArg some (congrArg (·, _) (congrArg (Emitted.mk · _) (List.append_nil _).symm))
    · exact hm m hlast (Or.inl (by rw [kind, hn, hkind]))

/-! ### The motion on a line of its own -/

theorem effect_rest {g : ℕ} (h : lastG b.rest = some g) (state : ModalState P) (out : Emitted P) :
    effect M (parseBlock b.rest) state out = (moveCode M state b.move).map fun code =>
      (⟨out.instructions ++ code.1, out.signals ++ code.2⟩,
        (state.advance b.move).atLine 0) := by
  rw [effect_rest_of_some h, toOption_emitMotion, Option.map_map]
  rfl

/-- A motion changes no other mode. -/
theorem get_advance_move {g : ℕ} (h : lastG b.rest = some g) (group : ModalGroup)
    (state : ModalState P) : group.get ((state.advance b.move).atLine 0) = group.get state := by
  have hkind := kind_move (b := b)
  rw [h, classify_motion (le_of_lastG_rest h)] at hkind
  have hadvance : state.advance b.move = { state.advance b.move with
      coordMode := state.coordMode, plane := state.plane, unitMode := state.unitMode } := by
    simp only [ModalState.advance, hkind, gCode_move, h, if_pos (le_of_lastG_rest h)]
    cases b.move.f <;> rfl
  rw [hadvance]
  cases group <;> rfl

theorem get_atLine (group : ModalGroup) (state : ModalState P) :
    group.get (state.atLine 0) = group.get state := by
  cases group <;> rfl

/-! ### Where the two agree -/

/-- A block that is read as a motion does what its words do iff no other word changes
anything, or nothing is compiled in either case. -/
theorem sameEffect_iff_of_motion (h : b.kind = .motion) (state : ModalState P) :
    b.SameEffect M state ↔ b.Independent M state := by
  obtain ⟨g, hg⟩ : ∃ g, lastG b.rest = some g := by
    obtain hnone | ⟨g, hg, hle⟩ | ⟨n, hn, hmode⟩ := b.lastG_cases
    · rw [kind, hnone, classify, if_neg (by decide)] at h
      split_ifs at h
    · exact ⟨g, lastG_filter hg hle⟩
    · rw [kind, hn] at h
      rcases classify_of_mode hmode (lastM b.tokens) with hkind | ⟨hkind, -⟩ <;>
        rw [hkind] at h <;> cases h
  have hcode := gCode_move (b := b) |>.trans hg
  have hle := le_of_lastG_rest hg
  have hkept : b.kept = [] := by
    refine List.filter_eq_nil_iff.mpr fun tok _ hkeeps => ?_
    unfold keeps at hkeeps
    rw [h] at hkeeps
    cases hkeeps
  have hdropped := dropped_iff (b := b) state
  rw [hkept] at hdropped
  simp only [SameEffect, effect_together_of_motion h, effect_apart, effect_rest hg]
  constructor
  · intro hsame
    cases hmove : moveCode M state b.move with
    | none =>
        refine Or.inr ⟨h, (moveCode_eq_none_iff hcode hle).mp hmove, ?_⟩
        have hempty := hsame ⟨[], []⟩
        rw [hmove] at hempty
        cases hwords : wordsCode b.modes with
        | none => exact Or.inl (wordsCode_eq_none_iff.mp hwords)
        | some code =>
            rw [hwords] at hempty
            refine Or.inr ((moveCode_eq_none_iff hcode hle).mp ?_)
            exact Option.map_eq_none_iff.mp hempty.symm
    | some code =>
        have hempty := hsame ⟨[], []⟩
        rw [hmove] at hempty
        obtain ⟨words, hwords, hrest⟩ := Option.bind_eq_some_iff.mp hempty.symm
        obtain ⟨code', hmove', heq⟩ := Option.map_eq_some_iff.mp hrest
        obtain ⟨hout, hstate⟩ := Prod.mk.inj heq
        have hmodes : b.modeState state = stateOf [] state := by
          refine (stateOf_eq_iff b.modes [] state).mpr fun group => ?_
          have hget := congrArg group.get hstate
          rw [get_advance_move hg, get_advance_move hg] at hget
          exact hget
        have hsamecode : code' = code := by
          rw [hmodes] at hmove'
          exact Option.some.inj (hmove'.symm.trans hmove)
        have hwords' : words = [] := by
          have hinsts := (Emitted.mk.inj hout).1
          rw [hsamecode] at hinsts
          exact List.append_eq_nil_iff.mp (List.append_left_eq_self.mp hinsts) |>.2
        refine Or.inl ⟨hdropped.mpr ⟨hmodes, ?_⟩, fun hother => absurd h hother⟩
        rw [hwords, hwords']
        rfl
  · rintro (⟨hrepeats, -⟩ | ⟨-, hrefused, hother⟩) out
    · obtain ⟨hmodes, hwords⟩ := hdropped.mp hrepeats
      rw [hmodes, hwords]
      change _ = Option.map _ (moveCode M state b.move)
      simp only [Emitted.extend, List.append_nil]
      rfl
    · rw [(moveCode_eq_none_iff hcode hle).mpr hrefused]
      rcases hother with hword | hother
      · rw [wordsCode_eq_none_iff.mpr hword]
        rfl
      · rw [(moveCode_eq_none_iff hcode hle).mpr hother]
        cases wordsCode b.modes <;> rfl

/-- A block whose kept word is not supported has no other word. -/
theorem keeps_of_unsupported (h : wordsCode b.kept = none) :
    lastG b.tokens = none ∧ ∀ tok ∈ b.modes, b.keeps tok.token = true := by
  obtain ⟨tok, hkept, hnone⟩ := wordsCode_eq_none_iff.mp h
  obtain ⟨htok, hkeeps⟩ := List.mem_filter.mp hkept
  obtain ⟨n, htoken⟩ : ∃ n, tok.token = .m n := by
    by_contra hother
    rw [wordCode_of_ne fun n hn => hother ⟨n, hn⟩] at hnone
    cases hnone
  have htokens := (List.mem_filter.mp htok).1
  -- it is the last `M` word
  obtain ⟨m, hm⟩ := Option.isSome_iff_exists.mp (isSome_lastM htokens htoken)
  obtain ⟨tok', htok', htoken'⟩ := mem_of_lastM hm
  have hsame := eq_of_group_eq b.oneEach htokens htok' (by rw [htoken]; rfl)
    (by rw [htoken']; rfl)
  rw [hsame, htoken] at htoken'
  obtain rfl := Token.m.inj htoken'
  rw [htoken] at hnone hkeeps
  have hspindle : ¬(n = 3 ∨ n = 4 ∨ n = 5) := fun hn => by
    rw [wordCode, if_pos hn] at hnone
    cases hnone
  have hcontrol : ¬(n = 2 ∨ n = 30) := fun hn => by
    rw [wordCode, if_neg hspindle, if_pos hn] at hnone
    cases hnone
  unfold keeps at hkeeps
  obtain hg | ⟨g, hg, hle⟩ | ⟨k, hk, hmode⟩ := b.lastG_cases
  · have hkind : b.kind = .unknown := by
      rw [kind, hg, hm]
      simp [classify, hspindle, hcontrol]
    refine ⟨hg, fun t ht => ?_⟩
    rcases isModeWord_cases (isModeWord_modes t ht) with ⟨k, hk⟩ | ⟨k, hk, -⟩
    · exact (keeps_iff_of_m (Or.inr (Or.inr hkind)) _).mpr ⟨k, hk⟩
    · exact absurd (isSome_lastG (List.mem_filter.mp ht).1 hk) (by rw [hg]; rintro ⟨⟩)
  · rw [kind, hg, classify_motion hle] at hkeeps
    cases hkeeps
  · rcases classify_of_mode hmode (lastM b.tokens) with hkind | ⟨-, m, hm', hspindle'⟩
    · rw [kind, hk, hkind] at hkeeps
      cases hkeeps
    · rw [hm] at hm'
      obtain rfl := Option.some.inj hm'
      exact absurd hspindle' hspindle

/-- Words whose code is at most that of the kept word drop no `M` word. -/
theorem wordsCode_eq_of_append {words code : List (Instruction P)}
    (hwords : wordsCode b.modes = some words)
    (hkept : wordsCode b.kept = some (words ++ code)) : wordsCode b.modes = wordsCode b.kept := by
  refine (wordsCode_filter_iff oneEach_modes _).mpr fun tok htok hdrop n htoken => ?_
  have hgroup : tok.token.group = some .m := by rw [htoken]; rfl
  have hnil : wordsCode b.kept = some [] := by
    refine wordsCode_eq_nil_iff.mpr fun t ht k hk => ?_
    obtain ⟨hmem, hkeeps⟩ := List.mem_filter.mp ht
    rw [eq_of_group_eq oneEach_modes htok hmem hgroup (by rw [hk]; rfl), hdrop] at hkeeps
    cases hkeeps
  rw [hnil] at hkept
  rw [(List.append_eq_nil_iff.mp (Option.some.inj hkept).symm).1] at hwords
  exact wordsCode_eq_nil_iff.mp hwords tok htok n htoken

/-- A block that is not read as a motion does what its words do iff the words that are dropped
change nothing. -/
theorem sameEffect_iff_of_not_motion (h : b.kind ≠ .motion) (state : ModalState P) :
    b.SameEffect M state ↔ b.Independent M state := by
  have hdropped := dropped_iff (b := b) state
  have hindependent : b.Independent M state ↔
      (b.modeState state = stateOf b.kept state ∧ wordsCode b.modes = wordsCode b.kept) ∧
        ((lastG b.rest).isSome → StandsStill M (b.modeState state) b.move ∧
          ((b.modeState state).advance b.move).atLine 0 = (b.modeState state).atLine 0) := by
    rw [← hdropped]
    constructor
    · rintro (⟨hrepeats, hmotion⟩ | ⟨hkind, -⟩)
      · exact ⟨hrepeats, hmotion h⟩
      · exact absurd hkind h
    · exact fun ⟨hrepeats, hmotion⟩ => Or.inl ⟨hrepeats, fun _ => hmotion⟩
  -- the groups tell the two modal states apart
  have hstates : ∀ state' : ModalState P,
      (∀ group : ModalGroup, group.get state' = group.get (b.modeState state)) →
      (stateOf b.kept state).atLine 0 = state' → b.modeState state = stateOf b.kept state := by
    rintro state' hget rfl
    refine (stateOf_eq_iff b.modes b.kept state).mpr fun group => ?_
    exact (hget group).symm.trans (get_atLine group _)
  rw [hindependent]
  simp only [SameEffect, effect_together h, effect_apart]
  cases hkept : wordsCode b.kept with
  | none =>
      obtain ⟨hg, hkeeps⟩ := keeps_of_unsupported hkept
      obtain ⟨hmodes, hwords⟩ := hdropped.mp fun tok htok hdrop => by
        rw [hkeeps tok htok] at hdrop
        cases hdrop
      have hrest : (lastG b.rest).isSome → False := by
        intro hsome
        obtain ⟨g, hg'⟩ := Option.isSome_iff_exists.mp hsome
        obtain ⟨tok, htok, htoken⟩ := mem_of_lastG hg'
        have htokens := isSome_lastG (List.mem_filter.mp htok).1 htoken
        rw [hg] at htokens
        cases htokens
      rw [hwords, hkept]
      exact ⟨fun _ => ⟨⟨hmodes, rfl⟩, fun hsome => (hrest hsome).elim⟩, fun _ _ => rfl⟩
  | some code =>
      cases hrest : lastG b.rest with
      | none =>
          simp only [effect_rest_of_none hrest]
          constructor
          · intro hsame
            obtain ⟨words, hwords, heq⟩ := Option.bind_eq_some_iff.mp (hsame ⟨[], []⟩).symm
            obtain ⟨hout, hstate⟩ := Prod.mk.inj (Option.some.inj heq)
            refine ⟨⟨hstates _ (fun group => get_atLine group _) hstate.symm, ?_⟩, nofun⟩
            rw [hwords]
            exact congrArg some (Emitted.mk.inj hout).1
          · rintro ⟨⟨hmodes, hwords⟩, -⟩ out
            rw [hwords, hmodes]
            rfl
      | some g =>
          have hcode := gCode_move (b := b) |>.trans hrest
          have hle := le_of_lastG_rest hrest
          simp only [effect_rest hrest]
          constructor
          · intro hsame
            obtain ⟨words, hwords, hmove⟩ := Option.bind_eq_some_iff.mp (hsame ⟨[], []⟩).symm
            obtain ⟨⟨insts, signals⟩, hmove, heq⟩ := Option.map_eq_some_iff.mp hmove
            obtain ⟨hout, hstate⟩ := Prod.mk.inj heq
            obtain ⟨hinsts, hsignals⟩ := Emitted.mk.inj hout
            have hsamewords :=
              wordsCode_eq_of_append hwords (hkept.trans (congrArg some hinsts.symm))
            have hmodes := hstates _ (fun group => get_advance_move hrest group _) hstate.symm
            obtain rfl : words = code :=
              Option.some.inj (hwords.symm.trans (hsamewords.trans hkept))
            obtain rfl : insts = [] := List.append_right_eq_self.mp hinsts
            obtain rfl : signals = [] := hsignals
            refine ⟨⟨hmodes, hsamewords.trans hkept⟩, fun _ => ⟨?_, ?_⟩⟩
            · exact (moveCode_eq_nil_iff hcode hle).mp hmove
            · rw [hstate, hmodes]
          · rintro ⟨⟨hmodes, hwords⟩, hmotion⟩ out
            obtain ⟨hstill, hstate⟩ := hmotion rfl
            rw [hwords, Option.bind_some, (moveCode_eq_nil_iff hcode hle).mpr hstill, hstate,
              hmodes]
            simp only [Option.map_some, Emitted.extend, List.append_nil]

end MixedBlock

/-- A block does what its words do on lines of their own iff the words that the parser drops
change nothing, or its motion is refused in any case. -/
theorem sameEffect_iff (b : MixedBlock P) (state : ModalState P) :
    b.SameEffect M state ↔ b.Independent M state := by
  by_cases h : b.kind = .motion
  · exact MixedBlock.sameEffect_iff_of_motion h state
  · exact MixedBlock.sameEffect_iff_of_not_motion h state

/-- The block `G91 G0 X10`. -/
noncomputable def relativeRapid : MixedBlock (Platform.real true) where
  tokens := [⟨.g 91, 1⟩, ⟨.g 0, 1⟩, ⟨.x ((10 : ℕ) : ℝ), 1⟩]
  words := by
    intro tok htok
    simp only [List.mem_cons, List.not_mem_nil, or_false] at htok
    rcases htok with rfl | rfl | rfl
    · exact Or.inl rfl
    · exact Or.inl rfl
    · exact Or.inr rfl
  oneEach := by
    change [ModalGroup.distance, ModalGroup.motion].Nodup
    decide

/-- The block moves to ten and leaves the distance mode absolute. -/
theorem relativeRapid_not_sameEffect :
    ¬relativeRapid.SameEffect (FloatMath.real true) ModalState.new := by
  intro h
  rcases (MixedBlock.sameEffect_iff_of_motion rfl _).mp h with ⟨hrepeats, -⟩ | ⟨-, hrefused, -⟩
  · have hmode := hrepeats ⟨.g 91, 1⟩ List.mem_cons_self rfl
    have hcoord := congrArg ModalState.coordMode hmode
    exact absurd hcoord (by decide)
  · exact hrefused

end Weftik.GCode
