import Weftik.GCode.Compiler

/-!
# The G-Code Parser

The parser cuts the tokens of a program into blocks, one for each line, and makes one
command of every block with a word: the last word of each letter counts. It is given a modal
state, which it does not look at. A block without a motion word is therefore no motion
command, whatever the active motion mode is.

## Main definitions

* `Token`, `LexedToken`: tokens, and tokens with their lines.
* `parseLine`, `parseAll`: the parser.
* `compileTokens`: the parser, followed by the compiler.

## Main results

* `gCode_addTokens`, `mCode_addTokens`: the codes of a command are the last ones of its block.
* `parseAll_block`: the commands of a program, cut around one of its blocks.
-/

namespace Weftik.GCode

variable {P : Platform}

/-! ### Tokens -/

/-- The tokens of a program. -/
inductive Token (P : Platform)
  | g (n : ℕ)
  | m (n : ℕ)
  | x (v : P.F64)
  | y (v : P.F64)
  | z (v : P.F64)
  | i (v : P.F64)
  | j (v : P.F64)
  | k (v : P.F64)
  | r (v : P.F64)
  | f (v : P.F64)
  | s (v : P.F64)
  | t (n : ℕ)
  | p (v : P.F64)
  | lineNum (n : ℕ)
  | star
  | percent
  | slash
  | eol
  | eof

/-- A token and its line in the source. -/
structure LexedToken (P : Platform) where
  token : Token P
  line : ℕ

namespace Token

/-- Is the token a word that a command is made of? -/
def isWord : Token P → Bool
  | .lineNum _ | .star | .percent | .slash | .eol | .eof => false
  | _ => true

/-- Does the token end a block? -/
def endsBlock : Token P → Bool
  | .eol | .eof => true
  | _ => false

/-- The number of a `G` word. -/
def gNumber : Token P → Option ℕ
  | .g n => some n
  | _ => none

/-- The number of an `M` word. -/
def mNumber : Token P → Option ℕ
  | .m n => some n
  | _ => none

end Token

/-! ### One block -/

/-- `GCodeCommand::new`: a command without codes and words. -/
def GCodeCommand.new (line : ℕ) : GCodeCommand P :=
  .ofCodes none none line

/-- What `parse_line` does with one token. The dwell and the tool are not kept. -/
def GCodeCommand.addToken (cmd : GCodeCommand P) : Token P → GCodeCommand P
  | .g n => { cmd with gCode := some n }
  | .m n => { cmd with mCode := some n }
  | .x v => { cmd with x := some v }
  | .y v => { cmd with y := some v }
  | .z v => { cmd with z := some v }
  | .i v => { cmd with i := some v }
  | .j v => { cmd with j := some v }
  | .k v => { cmd with k := some v }
  | .r v => { cmd with r := some v }
  | .f v => { cmd with f := some v }
  | .s v => { cmd with s := some v }
  | .t _ | .p _ => cmd
  | .lineNum _ | .star | .percent | .slash | .eol | .eof => cmd

/-- Add several tokens. -/
def GCodeCommand.addTokens (cmd : GCodeCommand P) (tokens : List (LexedToken P)) :
    GCodeCommand P :=
  tokens.foldl (fun cmd tok => cmd.addToken tok.token) cmd

/-- `parse_line`. The modal state that it is given as well is not used. -/
def parseLine (tokens : List (LexedToken P)) : GCodeCommand P :=
  match tokens with
  | [] => .new 0
  | first :: _ =>
      let cmd := (GCodeCommand.new first.line).addTokens tokens
      if tokens.any fun tok => tok.token.isWord then
        { cmd with kind := classify cmd.gCode cmd.mCode }
      else { cmd with kind := .unknown }

/-- The command of a block, if the block has a word. -/
def parseBlock (tokens : List (LexedToken P)) : List (GCodeCommand P) :=
  if tokens.any fun tok => tok.token.isWord then [parseLine tokens] else []

/-! ### The program -/

/-- The loop of `parse_all`, with the tokens of the block that has begun. A block that
nothing ends is dropped. -/
def parseFrom (block : List (LexedToken P)) : List (LexedToken P) → List (GCodeCommand P)
  | [] => []
  | tok :: tokens =>
      match tok.token with
      | .eol => parseBlock block ++ parseFrom [] tokens
      | .eof => parseBlock block
      | _ => parseFrom (block ++ [tok]) tokens

/-- `parse_all`. -/
def parseAll (tokens : List (LexedToken P)) : List (GCodeCommand P) :=
  parseFrom [] tokens

/-- `compile`: the tokens of a program are parsed, and the commands compiled from the modal
state of power-on. -/
def compileTokens (M : FloatMath P) (tokens : List (LexedToken P)) :
    Except CompileError (HalProgram P) :=
  compileCommands M (parseAll tokens) ModalState.new

/-! ### The codes of a block -/

/-- The last `G` word of a block. -/
def lastG (tokens : List (LexedToken P)) : Option ℕ :=
  tokens.foldl (fun last tok => tok.token.gNumber.or last) none

/-- The last `M` word of a block. -/
def lastM (tokens : List (LexedToken P)) : Option ℕ :=
  tokens.foldl (fun last tok => tok.token.mNumber.or last) none

theorem foldl_or {number : Token P → Option ℕ} (tokens : List (LexedToken P)) (last : Option ℕ) :
    tokens.foldl (fun last tok => (number tok.token).or last) last =
      (tokens.foldl (fun last tok => (number tok.token).or last) none).or last := by
  induction tokens generalizing last with
  | nil => rfl
  | cons tok tokens ih =>
      rw [List.foldl_cons, List.foldl_cons, ih, ih ((number tok.token).or none),
        Option.or_none, Option.or_assoc]

theorem lastG_cons (tok : LexedToken P) (tokens : List (LexedToken P)) :
    lastG (tok :: tokens) = (lastG tokens).or tok.token.gNumber := by
  rw [lastG, List.foldl_cons, foldl_or, Option.or_none]
  rfl

theorem lastM_cons (tok : LexedToken P) (tokens : List (LexedToken P)) :
    lastM (tok :: tokens) = (lastM tokens).or tok.token.mNumber := by
  rw [lastM, List.foldl_cons, foldl_or, Option.or_none]
  rfl

theorem lastG_append (tokens more : List (LexedToken P)) :
    lastG (tokens ++ more) = (lastG more).or (lastG tokens) := by
  rw [lastG, List.foldl_append, foldl_or]
  rfl

variable {tokens : List (LexedToken P)}

/-- A block with a `G` word has a word. -/
theorem any_isWord_of_lastG (h : (lastG tokens).isSome) :
    tokens.any (fun tok => tok.token.isWord) = true := by
  induction tokens with
  | nil => cases h
  | cons tok tokens ih =>
      rw [lastG_cons, Option.isSome_or, Bool.or_eq_true] at h
      rw [List.any_cons, Bool.or_eq_true]
      rcases h with h | h
      · exact Or.inr (ih h)
      · cases htoken : tok.token <;> first | exact Or.inl rfl | (rw [htoken] at h; cases h)

namespace GCodeCommand

/-- The command with another `G` code. -/
def withG (cmd : GCodeCommand P) (gCode : Option ℕ) : GCodeCommand P :=
  { cmd with gCode := gCode }

/-- The command at another line. -/
def atLine (cmd : GCodeCommand P) (line : ℕ) : GCodeCommand P :=
  { cmd with line := line }

/-- The command with the kind that its codes give. -/
def classified (cmd : GCodeCommand P) : GCodeCommand P :=
  { cmd with kind := classify cmd.gCode cmd.mCode }

theorem addTokens_append (cmd : GCodeCommand P) (tokens more : List (LexedToken P)) :
    cmd.addTokens (tokens ++ more) = (cmd.addTokens tokens).addTokens more :=
  List.foldl_append

theorem gCode_addToken (cmd : GCodeCommand P) (tok : Token P) :
    (cmd.addToken tok).gCode = tok.gNumber.or cmd.gCode := by
  cases tok <;> rfl

theorem mCode_addToken (cmd : GCodeCommand P) (tok : Token P) :
    (cmd.addToken tok).mCode = tok.mNumber.or cmd.mCode := by
  cases tok <;> rfl

theorem addToken_withG (cmd : GCodeCommand P) (gCode : Option ℕ) (tok : Token P) :
    (cmd.withG gCode).addToken tok = (cmd.addToken tok).withG (tok.gNumber.or gCode) := by
  cases tok <;> rfl

theorem addToken_atLine (cmd : GCodeCommand P) (line : ℕ) (tok : Token P) :
    (cmd.atLine line).addToken tok = (cmd.addToken tok).atLine line := by
  cases tok <;> rfl

/-- The `G` code is the last `G` word. -/
theorem gCode_addTokens (cmd : GCodeCommand P) (tokens : List (LexedToken P)) :
    (cmd.addTokens tokens).gCode = (lastG tokens).or cmd.gCode := by
  induction tokens generalizing cmd with
  | nil => rfl
  | cons tok tokens ih =>
      change ((cmd.addToken tok.token).addTokens tokens).gCode = _
      rw [ih, gCode_addToken, lastG_cons, Option.or_assoc]

/-- The `M` code is the last `M` word. -/
theorem mCode_addTokens (cmd : GCodeCommand P) (tokens : List (LexedToken P)) :
    (cmd.addTokens tokens).mCode = (lastM tokens).or cmd.mCode := by
  induction tokens generalizing cmd with
  | nil => rfl
  | cons tok tokens ih =>
      change ((cmd.addToken tok.token).addTokens tokens).mCode = _
      rw [ih, mCode_addToken, lastM_cons, Option.or_assoc]

/-- A `G` code given first is the code unless a `G` word follows, and changes nothing else. -/
theorem addTokens_withG (cmd : GCodeCommand P) (gCode : Option ℕ)
    (tokens : List (LexedToken P)) :
    (cmd.withG gCode).addTokens tokens =
      (cmd.addTokens tokens).withG ((lastG tokens).or gCode) := by
  induction tokens generalizing cmd gCode with
  | nil => rfl
  | cons tok tokens ih =>
      change ((cmd.withG gCode).addToken tok.token).addTokens tokens = _
      rw [addToken_withG, ih, lastG_cons, Option.or_assoc]
      rfl

theorem addTokens_atLine (cmd : GCodeCommand P) (line : ℕ) (tokens : List (LexedToken P)) :
    (cmd.atLine line).addTokens tokens = (cmd.addTokens tokens).atLine line := by
  induction tokens generalizing cmd with
  | nil => rfl
  | cons tok tokens ih =>
      change ((cmd.atLine line).addToken tok.token).addTokens tokens = _
      rw [addToken_atLine, ih]
      rfl

end GCodeCommand

/-- The command of a block with a word, its line apart. -/
def blockCommand (tokens : List (LexedToken P)) : GCodeCommand P :=
  ((GCodeCommand.new 0).addTokens tokens).classified.atLine 0

theorem parseLine_atLine (h : tokens.any (fun tok => tok.token.isWord) = true) :
    (parseLine tokens).atLine 0 = blockCommand tokens := by
  cases tokens with
  | nil => cases h
  | cons first tokens =>
      dsimp only [parseLine]
      rw [if_pos h, show (GCodeCommand.new first.line : GCodeCommand P) =
        (GCodeCommand.new 0).atLine first.line from rfl, GCodeCommand.addTokens_atLine]
      rfl

/-- The commands of a block, their lines apart. -/
theorem parseBlock_atLine (tokens : List (LexedToken P)) :
    (parseBlock tokens).map (fun cmd => cmd.atLine 0) =
      if tokens.any fun tok => tok.token.isWord then [blockCommand tokens] else [] := by
  rw [parseBlock]
  split
  case isTrue h => rw [List.map_singleton, parseLine_atLine h]
  case isFalse => rfl

/-! ### The blocks of a program -/

/-- Are the tokens whole blocks, with nothing after the end of the file? -/
def Complete (tokens : List (LexedToken P)) : Prop :=
  (∀ tok ∈ tokens, tok.token ≠ .eof) ∧ ∀ tok ∈ tokens.getLast?, tok.token = .eol

variable {tok : LexedToken P}

theorem parseFrom_eol (h : tok.token = .eol) (block tokens : List (LexedToken P)) :
    parseFrom block (tok :: tokens) = parseBlock block ++ parseFrom [] tokens := by
  rw [parseFrom, h]

theorem parseFrom_of_not_endsBlock (h : tok.token.endsBlock = false)
    (block tokens : List (LexedToken P)) :
    parseFrom block (tok :: tokens) = parseFrom (block ++ [tok]) tokens := by
  rw [parseFrom]
  split
  case h_1 heol => rw [heol] at h; cases h
  case h_2 heof => rw [heof] at h; cases h
  case h_3 => rfl

/-- The end of a block begins the next one. -/
theorem parseFrom_endsBlock (h : tok.token.endsBlock = true) (block tokens : List (LexedToken P)) :
    parseFrom block (tok :: tokens) = parseBlock block ++ parseAll (tok :: tokens) := by
  rw [parseAll, parseFrom, parseFrom]
  split
  case h_1 => rfl
  case h_2 => exact (List.append_nil _).symm
  case h_3 heol heof =>
      cases htoken : tok.token <;> first
        | exact absurd htoken heol
        | exact absurd htoken heof
        | (rw [htoken] at h; cases h)

/-- The tokens of a block are collected. -/
theorem parseFrom_block (block : List (LexedToken P))
    (h : ∀ tok ∈ tokens, tok.token.endsBlock = false) (rest : List (LexedToken P)) :
    parseFrom block (tokens ++ rest) = parseFrom (block ++ tokens) rest := by
  induction tokens generalizing block with
  | nil => rw [List.append_nil, List.nil_append]
  | cons tok tokens ih =>
      rw [List.cons_append, parseFrom_of_not_endsBlock (h tok List.mem_cons_self),
        ih _ fun t ht => h t (List.mem_cons_of_mem _ ht), List.append_assoc]
      rfl

/-- Whole blocks are parsed on their own. The induction is over the tokens, with the block
that has begun: it is empty where no token is left. -/
theorem parseFrom_complete {block : List (LexedToken P)} (h : Complete tokens)
    (hnil : tokens = [] → block = []) (rest : List (LexedToken P)) :
    parseFrom block (tokens ++ rest) = parseFrom block tokens ++ parseFrom [] rest := by
  induction tokens generalizing block with
  | nil =>
      rw [hnil rfl]
      rfl
  | cons tok tokens ih =>
      have htail : Complete tokens := by
        refine ⟨fun t ht => h.1 t (List.mem_cons_of_mem _ ht), fun t ht => h.2 t ?_⟩
        cases tokens with
        | nil => cases ht
        | cons next tokens => rwa [List.getLast?_cons_cons]
      rw [List.cons_append]
      cases hends : tok.token.endsBlock with
      | true =>
          have heol : tok.token = .eol := by
            cases htoken : tok.token <;> first
              | rfl
              | exact absurd htoken (h.1 tok List.mem_cons_self)
              | (rw [htoken] at hends; cases hends)
          rw [parseFrom_eol heol, parseFrom_eol heol, ih htail fun _ => rfl, List.append_assoc]
      | false =>
          rw [parseFrom_of_not_endsBlock hends, parseFrom_of_not_endsBlock hends]
          refine ih htail fun hempty => ?_
          -- the last token would not be the end of a line
          subst hempty
          have heol := h.2 tok rfl
          rw [heol] at hends
          cases hends

/-- The commands of a program, cut around one of its blocks. -/
theorem parseAll_block {before block after : List (LexedToken P)} {stop : LexedToken P}
    (hbefore : Complete before) (hblock : ∀ tok ∈ block, tok.token.endsBlock = false)
    (hstop : stop.token.endsBlock = true) :
    parseAll (before ++ (block ++ stop :: after)) =
      parseAll before ++ (parseBlock block ++ parseAll (stop :: after)) := by
  rw [parseAll, parseFrom_complete hbefore fun _ => rfl, parseFrom_block [] hblock,
    parseFrom_endsBlock hstop]
  rfl

end Weftik.GCode
