import Weftik.Platform
import Weftik.Lib.Text

/-!
# The IL Lexer and the IL Parser

Instruction List source is read line by line: comments are dropped, and a line gives the
token of its mnemonic and, if there is one, a token for the word after it. Mnemonics are
recognised in any case. A line whose first word is neither a mnemonic nor a label is
skipped. The words after a label are tokens of their own.

The token stream then becomes a list of statements. Every mnemonic but `NOT` and `RET` takes
the identifier that follows it, or the name `?` when none follows; a stray identifier is
skipped.

## Main definitions

* `Mnemonic`, `Token`: the tokens.
* `removeInlineComments`: what a line is without its comments.
* `tokenize`: the token stream of a source text.
* `ILStatement`: the statements.
* `parse`: the statements of a token stream.
-/

namespace Weftik.Il

/-! ### Tokens -/

/-- The mnemonics of Instruction List. -/
inductive Mnemonic
  | ld | ldn | st
  | and | andn | or | orn | xor
  | add | sub | mul | div | mod
  | gt | ge | eq | ne | le | lt
  | jmp | jmpc | jmpcn | cal | ret
  | s | r | not
  | ton | tof | tp | ctu | ctd | rTrig | fTrig | sr | rs
  deriving DecidableEq, Repr

/-- A token. -/
inductive Token
  | mnemonic (m : Mnemonic)
  | ident (name : String)
  | label (name : String)
  deriving DecidableEq, Repr

/-- The spelling of the mnemonics. -/
def mnemonics : List (String × Mnemonic) :=
  [("LD", .ld), ("LDN", .ldn), ("ST", .st), ("AND", .and), ("ANDN", .andn), ("OR", .or),
    ("ORN", .orn), ("XOR", .xor), ("ADD", .add), ("SUB", .sub), ("MUL", .mul), ("DIV", .div),
    ("MOD", .mod), ("GT", .gt), ("GE", .ge), ("EQ", .eq), ("NE", .ne), ("LE", .le),
    ("LT", .lt), ("JMP", .jmp), ("JMPC", .jmpc), ("JMPCN", .jmpcn), ("CAL", .cal),
    ("RET", .ret), ("S", .s), ("R", .r), ("NOT", .not), ("TON", .ton), ("TOF", .tof),
    ("TP", .tp), ("CTU", .ctu), ("CTD", .ctd), ("R_TRIG", .rTrig), ("F_TRIG", .fTrig),
    ("SR", .sr), ("RS", .rs)]

/-- The mnemonic with the given spelling, in capitals. -/
def parseMnemonic (s : String) : Option Mnemonic := mnemonics.lookup s

/-- The line without its comments; `inComment` says whether it begins inside one. An
opening bracket counts inside a comment too, and an open comment ends with the line. -/
def removeComments : (inComment : Bool) → List Char → List Char
  | _, [] => []
  | _, '(' :: '*' :: cs => removeComments true cs
  | true, '*' :: ')' :: cs => removeComments false cs
  | true, _ :: cs => removeComments true cs
  | false, c :: cs => c :: removeComments false cs

/-- The line without its comments. -/
def removeInlineComments (line : List Char) : List Char := removeComments false line

/-- `str::to_uppercase`. -/
def toUppercase (P : Platform) (cs : List Char) : String :=
  String.ofList (cs.flatMap P.upper)

/-- The token of a word after a label. -/
def wordToken (P : Platform) (word : List Char) : Token :=
  match parseMnemonic (toUppercase P word) with
  | some m => .mnemonic m
  | none => .ident (String.ofList word)

/-- The tokens of the words of a line. A label is followed by the tokens of all the words
after it; then the first word is looked up as a mnemonic, label or not. -/
def lineTokens (P : Platform) : List (List Char) → List Token
  | [] => []
  | first :: rest =>
      let labelTokens :=
        if first.getLast? = some ':' then
          .label (String.ofList first.dropLast) :: rest.map (wordToken P)
        else []
      let statementTokens :=
        match parseMnemonic (toUppercase P first) with
        | none => []
        | some m => .mnemonic m :: (rest.head?.map fun op => Token.ident (String.ofList op)).toList
      labelTokens ++ statementTokens

/-- The tokens of a line. A line that begins with a comment is skipped as a whole. -/
def tokenizeLine (P : Platform) (line : List Char) : List Token :=
  let trimmed := Text.trim P.white line
  if trimmed = [] ∨ trimmed.take 2 = ['(', '*'] then []
  else lineTokens P (Text.words P.white (removeInlineComments trimmed))

/-- The token stream of a source text. -/
def tokenize (P : Platform) (source : String) : List Token :=
  (Text.lines source.toList).flatMap (tokenizeLine P)

example : tokenize .exact "ld X1 (* first *)\nhere: AND x2\n\nST Y1\n" =
    [.mnemonic .ld, .ident "X1", .label "here", .mnemonic .and, .ident "x2",
      .mnemonic .st, .ident "Y1"] := by
  decide

/-! ### Statements -/

/-- The comparison operators. -/
inductive CompareOp
  | eq | ne | gt | ge | lt | le
  deriving DecidableEq, Repr

/-- The statements of Instruction List. -/
inductive ILStatement
  | load (var : String)
  | loadNot (var : String)
  | store (var : String)
  | and (var : String)
  | andNot (var : String)
  | or (var : String)
  | orNot (var : String)
  | xor (var : String)
  | add (var : String)
  | sub (var : String)
  | mul (var : String)
  | div (var : String)
  | mod (var : String)
  | cmp (op : CompareOp) (var : String)
  | jump (label : String)
  | jumpIf (label : String)
  | jumpIfNot (label : String)
  | call (fb : String)
  | ret
  | set (var : String)
  | reset (var : String)
  | not
  | ton (var : String)
  | tof (var : String)
  | tp (var : String)
  | ctu (var : String)
  | ctd (var : String)
  | rTrig (var : String)
  | fTrig (var : String)
  | sr (var : String)
  | rs (var : String)
  | label (name : String)
  deriving DecidableEq, Repr

/-- The statement of a mnemonic with its operand; the two that take none ignore it. -/
def Mnemonic.statement (name : String) : Mnemonic → ILStatement
  | .ld => .load name
  | .ldn => .loadNot name
  | .st => .store name
  | .and => .and name
  | .andn => .andNot name
  | .or => .or name
  | .orn => .orNot name
  | .xor => .xor name
  | .add => .add name
  | .sub => .sub name
  | .mul => .mul name
  | .div => .div name
  | .mod => .mod name
  | .gt => .cmp .gt name
  | .ge => .cmp .ge name
  | .eq => .cmp .eq name
  | .ne => .cmp .ne name
  | .le => .cmp .le name
  | .lt => .cmp .lt name
  | .jmp => .jump name
  | .jmpc => .jumpIf name
  | .jmpcn => .jumpIfNot name
  | .cal => .call name
  | .ret => .ret
  | .s => .set name
  | .r => .reset name
  | .not => .not
  | .ton => .ton name
  | .tof => .tof name
  | .tp => .tp name
  | .ctu => .ctu name
  | .ctd => .ctd name
  | .rTrig => .rTrig name
  | .fTrig => .fTrig name
  | .sr => .sr name
  | .rs => .rs name

/-- Does the parser look for an identifier after the mnemonic? -/
def Mnemonic.takesIdent : Mnemonic → Bool
  | .ret | .not => false
  | _ => true

/-- The statements of a token stream. -/
def parse : List Token → List ILStatement
  | [] => []
  | .label name :: tokens => .label name :: parse tokens
  | .ident _ :: tokens => parse tokens
  | .mnemonic m :: .ident name :: tokens =>
      if m.takesIdent then m.statement name :: parse tokens
      else m.statement "?" :: parse tokens
  | .mnemonic m :: tokens => m.statement "?" :: parse tokens

example : parse [.mnemonic .ld, .ident "X", .mnemonic .not, .mnemonic .st] =
    [.load "X", .not, .store "?"] := by
  decide

end Weftik.Il
