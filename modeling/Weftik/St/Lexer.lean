import Weftik.Lib.Outcome
import Weftik.Platform

/-!
# The ST Lexer

Structured Text is read character by character: white space and nested comments are dropped,
and each token remembers the line and the column where it starts. Words are looked up as
keywords, in capitals only. A number that does not fit into `i64` is `0`.

## Main definitions

* `CharTables`: what the lexer takes from the Unicode tables of the standard library.
* `Token`, `TokenInfo`: the tokens.
* `tokenize`: the tokens of a source text.

## Main results

* `nextToken_consumes`: each round of the loop consumes a character.
* `tokenize_terminates`: the loop over the characters ends.
-/

open Outcome

namespace Weftik.St

variable {P : Platform}

/-- The classes of `char` that are Unicode tables. The laws say what they are on ASCII. -/
structure CharTables where
  isAlphabetic : Char → Bool
  isNumeric : Char → Bool
  isAlphabetic_ascii : ∀ c, c.toNat < 128 → isAlphabetic c = c.isAlpha
  isNumeric_ascii : ∀ c, c.toNat < 128 → isNumeric c = c.isDigit

namespace CharTables

/-- The classes of ASCII. -/
def ascii : CharTables := ⟨Char.isAlpha, Char.isDigit, fun _ _ => rfl, fun _ _ => rfl⟩

/-- Does a word begin with the character? -/
def startsWord (U : CharTables) (c : Char) : Bool := U.isAlphabetic c || c == '_'

/-- Does a word go on with the character? -/
def continuesWord (U : CharTables) (c : Char) : Bool :=
  U.isAlphabetic c || U.isNumeric c || c == '_'

theorem continuesWord_of_startsWord (U : CharTables) {c : Char} (h : U.startsWord c = true) :
    U.continuesWord c = true := by
  rw [startsWord, Bool.or_eq_true] at h
  rw [continuesWord, Bool.or_eq_true, Bool.or_eq_true]
  exact h.imp_left Or.inl

end CharTables

/-- Why a stage of the compiler returns nothing: an error, or the fuel of its model, which is
no behaviour of the source. -/
inductive Stop (ε : Type)
  | error (e : ε)
  | outOfFuel
  deriving DecidableEq

/-! ### Tokens -/

variable (P)

/-- The tokens. -/
inductive Token
  | program | endProgram | var | endVar | «if» | «then» | «else» | endIf | while | «do» | endWhile
  | «for» | to | by | endFor | case | of | endCase | «repeat» | until | endRepeat | «return»
  | exit | function | endFunction | functionBlock | endFunctionBlock | varInput | varOutput
  | varInOut | and | or | not
  | int | real | bool | dInt | lReal | byte | word | dWord | sInt | usInt | uInt | ulInt | lInt
  | time | date | tod | dt | string | array
  | assign | plus | minus | star | slash | equal | notEqual | greater | less | greaterEq
  | lessEq | mod | xor
  | semicolon | colon | lParen | rParen | comma | lBracket | rBracket | dotDot | dot
  | ton | tof | tp | ctu | ctd | ctud | sr | rs | rTrig | fTrig
  | identifier (name : String)
  | integerLiteral (n : Int64)
  | realLiteral (x : P.F64)
  deriving DecidableEq

/-- A token with the line and the column where it starts. -/
structure TokenInfo where
  token : Token P
  line : ℕ
  col : ℕ
  deriving DecidableEq

/-- The errors of the lexer. The source has one more, for strings, that it does not
return. -/
inductive LexError
  | unexpectedChar (c : Char) (line col : ℕ)
  deriving DecidableEq, Repr

/-- The spelling of the keywords. -/
def keywords : List (String × Token P) :=
  [("PROGRAM", .program), ("END_PROGRAM", .endProgram), ("VAR", .var), ("END_VAR", .endVar),
    ("IF", .if), ("THEN", .then), ("ELSE", .else), ("END_IF", .endIf), ("WHILE", .while),
    ("DO", .do), ("END_WHILE", .endWhile), ("FOR", .for), ("TO", .to), ("BY", .by),
    ("END_FOR", .endFor), ("CASE", .case), ("OF", .of), ("END_CASE", .endCase),
    ("REPEAT", .repeat), ("UNTIL", .until), ("END_REPEAT", .endRepeat), ("RETURN", .return),
    ("EXIT", .exit), ("FUNCTION", .function), ("END_FUNCTION", .endFunction),
    ("FUNCTION_BLOCK", .functionBlock), ("END_FUNCTION_BLOCK", .endFunctionBlock),
    ("VAR_INPUT", .varInput), ("VAR_OUTPUT", .varOutput), ("VAR_IN_OUT", .varInOut),
    ("AND", .and), ("OR", .or), ("NOT", .not), ("MOD", .mod), ("XOR", .xor), ("INT", .int),
    ("REAL", .real), ("BOOL", .bool), ("DINT", .dInt), ("LREAL", .lReal), ("BYTE", .byte),
    ("WORD", .word), ("DWORD", .dWord), ("SINT", .sInt), ("USINT", .usInt), ("UINT", .uInt),
    ("ULINT", .ulInt), ("LINT", .lInt), ("TIME", .time), ("DATE", .date), ("TOD", .tod),
    ("DT", .dt), ("STRING", .string), ("ARRAY", .array), ("TON", .ton), ("TOF", .tof),
    ("TP", .tp), ("CTU", .ctu), ("CTD", .ctd), ("CTUD", .ctud), ("SR", .sr), ("RS", .rs),
    ("R_TRIG", .rTrig), ("F_TRIG", .fTrig)]

variable {P}

/-- The token of a word. -/
def matchKeyword (word : String) : Token P :=
  ((keywords P).lookup word).getD (.identifier word)

/-- The operator or delimiter at the start of the text, and its length. -/
def punctuation : List Char → Option (Token P × ℕ)
  | ':' :: '=' :: _ => some (.assign, 2)
  | ':' :: _ => some (.colon, 1)
  | '<' :: '>' :: _ => some (.notEqual, 2)
  | '<' :: '=' :: _ => some (.lessEq, 2)
  | '<' :: _ => some (.less, 1)
  | '>' :: '=' :: _ => some (.greaterEq, 2)
  | '>' :: _ => some (.greater, 1)
  | '+' :: _ => some (.plus, 1)
  | '-' :: _ => some (.minus, 1)
  | '*' :: _ => some (.star, 1)
  | '/' :: _ => some (.slash, 1)
  | '=' :: _ => some (.equal, 1)
  | ';' :: _ => some (.semicolon, 1)
  | '(' :: _ => some (.lParen, 1)
  | ')' :: _ => some (.rParen, 1)
  | ',' :: _ => some (.comma, 1)
  | '[' :: _ => some (.lBracket, 1)
  | ']' :: _ => some (.rBracket, 1)
  | '.' :: '.' :: _ => some (.dotDot, 2)
  | '.' :: _ => some (.dot, 1)
  | _ => none

/-! ### Comments and numbers -/

/-- What remains of the text after the comment that it is in, at a nesting depth, and the
line and the column there. A comment may be open at the end of the text. -/
def skipComment : List Char → (depth line col : ℕ) → List Char × ℕ × ℕ
  | cs, 0, line, col => (cs, line, col)
  | [], _, line, col => ([], line, col)
  | '(' :: '*' :: cs, depth + 1, line, col => skipComment cs (depth + 2) line (col + 2)
  | '*' :: ')' :: cs, depth + 1, line, col => skipComment cs depth line (col + 2)
  | '\n' :: cs, depth + 1, line, _ => skipComment cs (depth + 1) (line + 1) 1
  | _ :: cs, depth + 1, line, col => skipComment cs (depth + 1) line (col + 1)

/-- The digits of a number and at most one dot, which a digit must follow; whether there is
a dot; and what remains of the text. -/
def scanNumber : List Char → (isReal : Bool) → List Char × Bool × List Char
  | [], isReal => ([], isReal, [])
  | c :: cs, isReal =>
      if c.isDigit then
        let (digits, real, rest) := scanNumber cs isReal
        (c :: digits, real, rest)
      else if c = '.' ∧ isReal = false ∧ cs.head?.any Char.isDigit then
        let (digits, real, rest) := scanNumber cs true
        (c :: digits, real, rest)
      else ([], isReal, c :: cs)

/-- The number that some digits spell. -/
def digitsValue (digits : List Char) : ℕ :=
  digits.foldl (fun n c => 10 * n + (c.toNat - '0'.toNat)) 0

/-- `str::parse` of digits as an `i64`, `0` when they do not fit. -/
def parseInteger (digits : List Char) : Int64 :=
  if digitsValue digits < 2 ^ 63 then Int64.ofInt (digitsValue digits) else 0

/-- `str::parse` of digits with a dot as an `f64`. -/
def parseReal (digits : List Char) : P.F64 :=
  P.f64.lit (digitsValue (digits.filter Char.isDigit))
    (digits.length - 1 - (digits.takeWhile Char.isDigit).length)

/-- The token of a number. -/
def numberToken (digits : List Char) (isReal : Bool) : Token P :=
  if isReal then .realLiteral (parseReal digits) else .integerLiteral (parseInteger digits)

/-! ### The loop -/

/-- One round of the loop: the token, if there is one, what remains of the text, and the line
and the column there. -/
def nextToken (U : CharTables) (c : Char) (cs : List Char) (line col : ℕ) :
    Except LexError (Option (TokenInfo P) × List Char × ℕ × ℕ) :=
  if c = '\n' then pure (none, cs, line + 1, 1)
  else if c = ' ' ∨ c = '\r' ∨ c = '\t' then pure (none, cs, line, col + 1)
  else if c = '(' ∧ cs.head? = some '*' then pure (none, skipComment cs.tail 1 line (col + 2))
  else
    match punctuation (c :: cs) with
    | some (token, n) => pure (some ⟨token, line, col⟩, (c :: cs).drop n, line, col + n)
    | none =>
        if U.startsWord c then
          let word := (c :: cs).takeWhile U.continuesWord
          pure (some ⟨matchKeyword (String.ofList word), line, col⟩,
            (c :: cs).dropWhile U.continuesWord, line, col + word.length)
        else if c.isDigit then
          let (digits, isReal, rest) := scanNumber (c :: cs) false
          pure (some ⟨numberToken digits isReal, line, col⟩, rest, line, col + digits.length)
        else .error (.unexpectedChar c line col)

/-- The tokens of a text that starts at a line and a column. -/
def tokenizeFrom (U : CharTables) :
    ℕ → List Char → (line col : ℕ) → Except (Stop LexError) (List (TokenInfo P))
  | _, [], _, _ => pure []
  | 0, _ :: _, _, _ => .error .outOfFuel
  | fuel + 1, c :: cs, line, col =>
      match nextToken U c cs line col with
      | .error e => .error (.error e)
      | .ok (token, rest, line, col) => do
          let tokens ← tokenizeFrom U fuel rest line col
          pure (token.toList ++ tokens)

/-- The tokens of a source text. -/
def tokenize (U : CharTables) (source : String) : Except (Stop LexError) (List (TokenInfo P)) :=
  tokenizeFrom U source.toList.length source.toList 1 1

example : (tokenize .ascii "x := 12;\n(* a (* b *) *) IF" :
    Except (Stop LexError) (List (TokenInfo .exact))) =
    .ok [⟨.identifier "x", 1, 1⟩, ⟨.assign, 1, 3⟩, ⟨.integerLiteral 12, 1, 6⟩,
      ⟨.semicolon, 1, 8⟩, ⟨.if, 2, 17⟩] := by
  decide

/-! ### The loop ends -/

/-- A comment ends no later than the text. -/
theorem length_skipComment (cs : List Char) (depth line col : ℕ) :
    (skipComment cs depth line col).1.length ≤ cs.length := by
  fun_induction skipComment cs depth line col with
  | case1 | case2 => exact le_rfl
  | case3 cs depth line col ih | case4 cs depth line col ih =>
      simp only [List.length_cons]
      omega
  | case5 cs depth line _ ih | case6 c cs depth line col _ _ _ ih =>
      simp only [List.length_cons]
      omega

/-- A number and what remains are the text. -/
theorem length_scanNumber (cs : List Char) (isReal : Bool) :
    (scanNumber cs isReal).1.length + (scanNumber cs isReal).2.2.length = cs.length := by
  fun_induction scanNumber cs isReal with
  | case1 => rfl
  | case2 c cs isReal hdigit digits real rest hrest ih | case3 =>
      simp_all
      omega
  | case4 => simp

/-- A number has a digit. -/
theorem scanNumber_of_digit {c : Char} (h : c.isDigit = true) (cs : List Char) :
    0 < (scanNumber (c :: cs) false).1.length := by
  rw [scanNumber, if_pos h]
  exact Nat.succ_pos _

/-- An operator or delimiter has a character. -/
theorem punctuation_pos {cs : List Char} {token : Token P} {n : ℕ}
    (h : punctuation cs = some (token, n)) : 0 < n := by
  unfold punctuation at h
  split at h <;> cases h <;> decide

/-- A round consumes a character. -/
theorem nextToken_consumes (U : CharTables) (c : Char) (cs : List Char) (line col : ℕ) :
    Ends (nextToken (P := P) U c cs line col) (fun p => p.2.1.length ≤ cs.length)
      fun _ => True := by
  rw [nextToken]
  by_cases hline : c = '\n'
  · rw [if_pos hline]
    exact le_rfl
  rw [if_neg hline]
  by_cases hspace : c = ' ' ∨ c = '\r' ∨ c = '\t'
  · rw [if_pos hspace]
    exact le_rfl
  rw [if_neg hspace]
  by_cases hcomment : c = '(' ∧ cs.head? = some '*'
  · rw [if_pos hcomment]
    exact (length_skipComment cs.tail 1 line (col + 2)).trans (List.length_tail ▸ Nat.sub_le _ _)
  rw [if_neg hcomment]
  cases hpunct : punctuation (P := P) (c :: cs) with
  | some p =>
      obtain ⟨token, n⟩ := p
      have hpos := punctuation_pos hpunct
      change ((c :: cs).drop n).length ≤ cs.length
      rw [List.length_drop, List.length_cons]
      omega
  | none =>
      dsimp only
      split_ifs with hword hdigit
      · change ((c :: cs).dropWhile U.continuesWord).length ≤ cs.length
        rw [List.dropWhile_cons_of_pos (U.continuesWord_of_startsWord hword)]
        exact (List.dropWhile_suffix _).length_le
      · have hscan := length_scanNumber (c :: cs) false
        have hfirst := scanNumber_of_digit hdigit cs
        rw [List.length_cons] at hscan
        change (scanNumber (c :: cs) false).2.2.length ≤ cs.length
        omega
      · trivial

/-- As many rounds as there are characters are enough. -/
theorem tokenizeFrom_terminates (U : CharTables) {fuel : ℕ} {cs : List Char}
    (h : cs.length ≤ fuel) (line col : ℕ) :
    Ends (tokenizeFrom (P := P) U fuel cs line col) (fun _ => True) (· ≠ .outOfFuel) := by
  induction fuel generalizing cs line col with
  | zero =>
      obtain rfl := List.length_eq_zero_iff.mp (Nat.le_zero.mp h)
      trivial
  | succ fuel ih =>
      cases cs with
      | nil => trivial
      | cons c cs =>
          rw [List.length_cons] at h
          have hconsumes := nextToken_consumes (P := P) U c cs line col
          rw [tokenizeFrom]
          cases hnext : nextToken (P := P) U c cs line col with
          | error e => exact nofun
          | ok p =>
              have hrest : p.2.1.length ≤ fuel :=
                (hconsumes.of_ok hnext).trans (Nat.le_of_succ_le_succ h)
              exact (ih hrest _ _).bind fun _ _ => trivial

/-- The lexer returns tokens or an error. -/
theorem tokenize_terminates (U : CharTables) (source : String) :
    Ends (tokenize (P := P) U source) (fun _ => True) (· ≠ .outOfFuel) :=
  tokenizeFrom_terminates U le_rfl 1 1

end Weftik.St
