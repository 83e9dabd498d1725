import Weftik.St.Lexer
import Weftik.St.Syntax

/-!
# The ST Parser

A recursive descent over the tokens. Binary operators are parsed by precedence climbing, and
a list of statements goes on until the token that closes it. The loops and the recursion of
the source have fuel here.

## Main definitions

* `ParseError`: the errors of the parser.
* `parseExpression`, `parseStatement`, `parseProgram`: expressions, statements, programs.

## Main results

* `parseProgram_terminates`: the parser ends for every list of tokens.
-/

open Outcome

namespace Weftik.St

variable {P : Platform}

/-- The errors of the parser. -/
inductive ParseError (P : Platform)
  | unexpectedToken (token : Token P) (line col : ℕ)
  | unexpectedEof
  | expectedToken (token : Token P) (line col : ℕ)
  | redefinedVariable (name : String) (line : ℕ)
  deriving DecidableEq

/-- The tokens that remain. -/
abbrev Tokens (P : Platform) := List (TokenInfo P)

/-- What a part of the parser returns. -/
abbrev Parsed (P : Platform) := Except (Stop (ParseError P))

/-! ### Single tokens -/

/-- The next token. -/
def peekToken (ts : Tokens P) : Option (Token P) := ts.head?.map TokenInfo.token

/-- The error at a token. -/
def unexpected (ti : TokenInfo P) : Stop (ParseError P) :=
  .error (.unexpectedToken ti.token ti.line ti.col)

/-- Consume the given token. -/
def expect (token : Token P) : Tokens P → Parsed P (Tokens P)
  | [] => .error (.error .unexpectedEof)
  | ti :: ts => if ti.token = token then pure ts else .error (unexpected ti)

/-- Consume an identifier: its name and its line. -/
def expectIdent : Tokens P → Parsed P ((String × ℕ) × Tokens P)
  | [] => .error (.error .unexpectedEof)
  | ti :: ts =>
      match ti.token with
      | .identifier name => pure ((name, ti.line), ts)
      | _ => .error (unexpected ti)

/-! ### Expressions -/

/-- The precedence of an operator; a higher one binds tighter. -/
def precedence : BinOp → ℕ
  | .or | .xor => 1
  | .and => 2
  | .eq | .neq | .gt | .lt | .gte | .lte => 3
  | .add | .sub => 4
  | .mul | .div | .mod => 5

/-- The operator of a token. -/
def tokenToBinop : Token P → Option BinOp
  | .plus => some .add
  | .minus => some .sub
  | .star => some .mul
  | .slash => some .div
  | .equal => some .eq
  | .notEqual => some .neq
  | .greater => some .gt
  | .less => some .lt
  | .greaterEq => some .gte
  | .lessEq => some .lte
  | .and => some .and
  | .or => some .or
  | .mod => some .mod
  | .xor => some .xor
  | _ => none

mutual

/-- An expression whose operators have at least the given precedence. -/
def parseExprPrec : ℕ → (minPrec : ℕ) → Tokens P → Parsed P (Expr P × Tokens P)
  | 0, _, _ => .error .outOfFuel
  | fuel + 1, minPrec, ts => do
      let (left, ts) ← parseUnary fuel ts
      parseOperators fuel minPrec left ts

/-- The operators after a left operand, as long as their precedence is high enough. -/
def parseOperators : ℕ → (minPrec : ℕ) → Expr P → Tokens P → Parsed P (Expr P × Tokens P)
  | 0, _, _, _ => .error .outOfFuel
  | fuel + 1, minPrec, left, ts =>
      match (peekToken ts).bind tokenToBinop with
      | none => pure (left, ts)
      | some op =>
          if minPrec ≤ precedence op then do
            let (right, ts) ← parseExprPrec fuel (precedence op + 1) ts.tail
            parseOperators fuel minPrec (.binary left op right) ts
          else pure (left, ts)

/-- An operand with its signs and negations. -/
def parseUnary : ℕ → Tokens P → Parsed P (Expr P × Tokens P)
  | 0, _ => .error .outOfFuel
  | fuel + 1, ts =>
      match peekToken ts with
      | some .minus => do
          let (expr, ts) ← parseUnary fuel ts.tail
          pure (.unary .neg expr, ts)
      | some .not => do
          let (expr, ts) ← parseUnary fuel ts.tail
          pure (.unary .not expr, ts)
      | _ => parsePrimary fuel ts

/-- A literal, a variable, an element, a field, or an expression in brackets. -/
def parsePrimary : ℕ → Tokens P → Parsed P (Expr P × Tokens P)
  | 0, _ => .error .outOfFuel
  | _, [] => .error (.error .unexpectedEof)
  | fuel + 1, ti :: ts =>
      match ti.token with
      | .integerLiteral n => pure (.intLiteral n, ts)
      | .realLiteral x => pure (.realLiteral x, ts)
      | .identifier name =>
          if name = "TRUE" then pure (.boolLiteral true, ts)
          else if name = "FALSE" then pure (.boolLiteral false, ts)
          else
            match peekToken ts with
            | some .lBracket => do
                let (index, ts) ← parseExprPrec fuel 0 ts.tail
                let ts ← expect .rBracket ts
                pure (.arrayAccess name index, ts)
            | some .dot => do
                let ((field, _), ts) ← expectIdent ts.tail
                pure (.fieldAccess name field, ts)
            | _ => pure (.variable name, ts)
      | .lParen => do
          let (expr, ts) ← parseExprPrec fuel 0 ts
          let ts ← expect .rParen ts
          pure (expr, ts)
      | _ => .error (unexpected ti)

end

/-- An expression. -/
def parseExpression (ts : Tokens P) : Parsed P (Expr P × Tokens P) :=
  parseExprPrec (3 * ts.length + 3) 0 ts

/-! ### Declarations -/

/-- The type of a single token. There is no type for `TOF`. -/
def simpleType : Token P → Option VarType
  | .int => some .int
  | .real => some .real
  | .bool => some .bool
  | .dInt => some .dInt
  | .lReal => some .lReal
  | .byte => some .byte
  | .word => some .word
  | .dWord => some .dWord
  | .sInt => some .sInt
  | .usInt => some .usInt
  | .uInt => some .uInt
  | .ulInt => some .ulInt
  | .lInt => some .lInt
  | .time => some .time
  | .date => some .date
  | .tod => some .tod
  | .dt => some .dt
  | .ton => some .ton
  | .tp => some .tp
  | .ctu => some .ctu
  | .ctd => some .ctd
  | .ctud => some .ctud
  | .sr => some .sr
  | .rs => some .rs
  | .rTrig => some .rTrig
  | .fTrig => some .fTrig
  | _ => none

/-- The length of a string type, which is read and dropped. -/
def parseStringLength (ts : Tokens P) : Parsed P (Tokens P) :=
  if peekToken ts = some .lParen then
    match ts.tail with
    | ⟨.integerLiteral _, _, _⟩ :: ts => expect .rParen ts
    | _ => .error (.error .unexpectedEof)
  else pure ts

/-- The bounds of an array type, which are read and dropped. -/
def parseArrayBounds (ts : Tokens P) : Parsed P (Tokens P) := do
  let ts ← expect .lBracket ts
  let (_, ts) ← parseExpression ts
  let ts ← expect .dotDot ts
  let (_, ts) ← parseExpression ts
  let ts ← expect .rBracket ts
  expect .of ts

/-- A type. -/
def parseVarType : ℕ → Tokens P → Parsed P (VarType × Tokens P)
  | 0, _ => .error .outOfFuel
  | _, [] => .error (.error .unexpectedEof)
  | fuel + 1, ti :: ts =>
      match simpleType ti.token with
      | some varType => pure (varType, ts)
      | none =>
          match ti.token with
          | .string => do
              let ts ← parseStringLength ts
              pure (.string, ts)
          | .array => do
              let ts ← parseArrayBounds ts
              let (_, ts) ← parseVarType fuel ts
              pure (.array, ts)
          | _ => .error (unexpected ti)

/-- Declarations up to `END_VAR`, after some others of the block. -/
def parseDeclarations : ℕ → List Variable → Tokens P → Parsed P (List Variable × Tokens P)
  | 0, _, _ => .error .outOfFuel
  | fuel + 1, vars, ts =>
      if peekToken ts = some .endVar then pure (vars, ts)
      else do
        let ((name, line), ts) ← expectIdent ts
        let ts ← expect .colon ts
        let (varType, ts) ← parseVarType (ts.length + 1) ts
        let ts ← expect .semicolon ts
        if vars.any (·.name = name) then .error (.error (.redefinedVariable name line))
        else parseDeclarations fuel (vars ++ [⟨name, varType⟩]) ts

/-- A block of declarations; the semicolon after it may be left out. -/
def parseVarBlock (ts : Tokens P) : Parsed P (List Variable × Tokens P) := do
  let ts ← expect .var ts
  let (vars, ts) ← parseDeclarations (ts.length + 1) [] ts
  let ts ← expect .endVar ts
  pure (vars, if peekToken ts = some .semicolon then ts.tail else ts)

/-- A block of parameters. -/
def parseParamBlock (start : Token P) (ts : Tokens P) : Parsed P (List Variable × Tokens P) := do
  let ts ← expect start ts
  let (vars, ts) ← parseDeclarations (ts.length + 1) [] ts
  let ts ← expect .endVar ts
  let ts ← expect .semicolon ts
  pure (vars, ts)

/-! ### Statements -/

/-- The arguments after the first one. -/
def parseArgs : ℕ → List (Expr P) → Tokens P → Parsed P (List (Expr P) × Tokens P)
  | 0, _, _ => .error .outOfFuel
  | fuel + 1, args, ts =>
      if peekToken ts = some .comma then do
        let (arg, ts) ← parseExpression ts.tail
        parseArgs fuel (args ++ [arg]) ts
      else pure (args, ts)

/-- The arguments of a call, up to the closing bracket. -/
def parseCallArgs (ts : Tokens P) : Parsed P (List (Expr P) × Tokens P) :=
  if peekToken ts = some .rParen then pure ([], ts)
  else do
    let (arg, ts) ← parseExpression ts
    parseArgs (ts.length + 1) [arg] ts

/-- A statement that begins with an identifier. -/
def parseIdentStmt (ts : Tokens P) : Parsed P (Statement P × Tokens P) := do
  let ((name, _), ts) ← expectIdent ts
  match peekToken ts with
  | some .lBracket => do
      let (index, ts) ← parseExpression ts.tail
      let ts ← expect .rBracket ts
      let ts ← expect .assign ts
      let (value, ts) ← parseExpression ts
      let ts ← expect .semicolon ts
      pure (.arrayAssign name index value, ts)
  | some .assign => do
      let (value, ts) ← parseExpression ts.tail
      let ts ← expect .semicolon ts
      pure (.assign name value, ts)
  | some .lParen => do
      let (args, ts) ← parseCallArgs ts.tail
      let ts ← expect .rParen ts
      let ts ← expect .semicolon ts
      pure (.funCall name args, ts)
  | _ => .error (.error (.unexpectedToken (.identifier "") 0 0))

/-- The values of a case, up to the colon. -/
def parseCaseValues : Tokens P → Parsed P (List Int64 × Tokens P)
  | [] => .error (.error .unexpectedEof)
  | ti :: ts =>
      match ti.token with
      | .integerLiteral n =>
          match ts with
          | [] => .error (.error (.expectedToken .colon 0 0))
          | next :: ts =>
              if next.token = .colon then pure ([n], ts)
              else if next.token = .comma then do
                let (values, ts) ← parseCaseValues ts
                pure (n :: values, ts)
              else .error (.error (.expectedToken .colon next.line next.col))
      | _ => .error (unexpected ti)

/-- The step of a `FOR`. -/
def parseStep (ts : Tokens P) : Parsed P (Option (Expr P) × Tokens P) :=
  if peekToken ts = some .by then do
    let (step, ts) ← parseExpression ts.tail
    pure (some step, ts)
  else pure (none, ts)

/-- Is the next token one that ends the statements of a case? -/
def endsCase : Option (Token P) → Bool
  | some .else | some .endCase | some (.integerLiteral _) => true
  | _ => false

mutual

/-- A statement. -/
def parseStatement : ℕ → Tokens P → Parsed P (Statement P × Tokens P)
  | 0, _ => .error .outOfFuel
  | fuel + 1, ts =>
      match peekToken ts with
      | some .if => parseIf fuel ts.tail
      | some .while => parseWhile fuel ts.tail
      | some .for => parseFor fuel ts.tail
      | some .case => parseCase fuel ts.tail
      | some .repeat => parseRepeat fuel ts.tail
      | some .return => do
          let ts ← expect .semicolon ts.tail
          pure (.return, ts)
      | some .exit => do
          let ts ← expect .semicolon ts.tail
          pure (.exit, ts)
      | _ => parseIdentStmt ts

/-- Statements up to a token that stops them. -/
def parseStatementsUntil (stop : Option (Token P) → Bool) :
    ℕ → Tokens P → Parsed P (List (Statement P) × Tokens P)
  | 0, _ => .error .outOfFuel
  | fuel + 1, ts =>
      if stop (peekToken ts) then pure ([], ts)
      else do
        let (stmt, ts) ← parseStatement fuel ts
        let (stmts, ts) ← parseStatementsUntil stop fuel ts
        pure (stmt :: stmts, ts)

/-- The statements after `ELSE`, if there is one, up to the given token. -/
def parseElse (stop : Token P) : ℕ → Tokens P → Parsed P (List (Statement P) × Tokens P)
  | 0, _ => .error .outOfFuel
  | fuel + 1, ts =>
      if peekToken ts = some .else then
        parseStatementsUntil (fun t => t = some stop) fuel ts.tail
      else pure ([], ts)

/-- An `IF`, after its keyword. -/
def parseIf : ℕ → Tokens P → Parsed P (Statement P × Tokens P)
  | 0, _ => .error .outOfFuel
  | fuel + 1, ts => do
      let (condition, ts) ← parseExpression ts
      let ts ← expect .then ts
      let (thenBody, ts) ←
        parseStatementsUntil (fun t => t = some .else || t = some .endIf) fuel ts
      let (elseBody, ts) ← parseElse .endIf fuel ts
      let ts ← expect .endIf ts
      let ts ← expect .semicolon ts
      pure (.ifThenElse condition thenBody elseBody, ts)

/-- A `WHILE`, after its keyword. -/
def parseWhile : ℕ → Tokens P → Parsed P (Statement P × Tokens P)
  | 0, _ => .error .outOfFuel
  | fuel + 1, ts => do
      let (condition, ts) ← parseExpression ts
      let ts ← expect .do ts
      let (body, ts) ← parseStatementsUntil (fun t => t = some .endWhile) fuel ts
      let ts ← expect .endWhile ts
      let ts ← expect .semicolon ts
      pure (.whileDo condition body, ts)

/-- A `FOR`, after its keyword. -/
def parseFor : ℕ → Tokens P → Parsed P (Statement P × Tokens P)
  | 0, _ => .error .outOfFuel
  | fuel + 1, ts => do
      let ((var, _), ts) ← expectIdent ts
      let ts ← expect .assign ts
      let (start, ts) ← parseExpression ts
      let ts ← expect .to ts
      let (stop, ts) ← parseExpression ts
      let (step, ts) ← parseStep ts
      let ts ← expect .do ts
      let (body, ts) ← parseStatementsUntil (fun t => t = some .endFor) fuel ts
      let ts ← expect .endFor ts
      let ts ← expect .semicolon ts
      pure (.forTo var start stop step body, ts)

/-- A `CASE`, after its keyword. -/
def parseCase : ℕ → Tokens P → Parsed P (Statement P × Tokens P)
  | 0, _ => .error .outOfFuel
  | fuel + 1, ts => do
      let ((var, _), ts) ← expectIdent ts
      let ts ← expect .of ts
      let (cases, ts) ← parseCases fuel ts
      let (elseBody, ts) ← parseElse .endCase fuel ts
      let ts ← expect .endCase ts
      let ts ← expect .semicolon ts
      pure (.caseOf var cases elseBody, ts)

/-- The cases of a `CASE`. -/
def parseCases : ℕ → Tokens P → Parsed P ((List (List Int64 × List (Statement P))) × Tokens P)
  | 0, _ => .error .outOfFuel
  | fuel + 1, ts =>
      if peekToken ts = some .endCase ∨ peekToken ts = some .else then pure ([], ts)
      else do
        let (values, ts) ← parseCaseValues ts
        let (body, ts) ← parseStatementsUntil endsCase fuel ts
        let (cases, ts) ← parseCases fuel ts
        pure ((values, body) :: cases, ts)

/-- A `REPEAT`, after its keyword. -/
def parseRepeat : ℕ → Tokens P → Parsed P (Statement P × Tokens P)
  | 0, _ => .error .outOfFuel
  | fuel + 1, ts => do
      let (body, ts) ← parseStatementsUntil (fun t => t = some .until) fuel ts
      let ts ← expect .until ts
      let (condition, ts) ← parseExpression ts
      let ts ← expect .endRepeat ts
      let ts ← expect .semicolon ts
      pure (.repeatUntil body condition, ts)

end

/-- Statements up to a token, with enough fuel. -/
def parseBody (stop : Token P) (ts : Tokens P) : Parsed P (List (Statement P) × Tokens P) :=
  parseStatementsUntil (fun t => t = some stop) (3 * ts.length + 3) ts

/-! ### Programs -/

/-- The blocks of declarations of a function, in any order. Their variables are dropped,
since the code generator does not read them. -/
def parseFunctionVars : ℕ → Tokens P → Parsed P (Tokens P)
  | 0, _ => .error .outOfFuel
  | fuel + 1, ts =>
      match peekToken ts with
      | some .varInput => do
          let (_, ts) ← parseParamBlock .varInput ts
          parseFunctionVars fuel ts
      | some .varOutput => do
          let (_, ts) ← parseParamBlock .varOutput ts
          parseFunctionVars fuel ts
      | some .varInOut => do
          let (_, ts) ← parseParamBlock .varInOut ts
          parseFunctionVars fuel ts
      | some .var => do
          let (_, ts) ← parseVarBlock ts
          parseFunctionVars fuel ts
      | _ => pure ts

/-- A function. -/
def parseFunctionDef (ts : Tokens P) : Parsed P (FunctionDef P × Tokens P) := do
  let ts ← expect .function ts
  let ((name, _), ts) ← expectIdent ts
  let ts ← expect .colon ts
  let (_, ts) ← parseVarType (ts.length + 1) ts
  let ts ← expect .semicolon ts
  let ts ← parseFunctionVars (ts.length + 1) ts
  let (body, ts) ← parseBody .endFunction ts
  let ts ← expect .endFunction ts
  let ts ← expect .semicolon ts
  pure (⟨name, body⟩, ts)

/-- The statements and functions of a program, up to its end. -/
def parseItems : ℕ → List (Statement P) → List (FunctionDef P) → Tokens P →
    Parsed P ((List (Statement P) × List (FunctionDef P)) × Tokens P)
  | 0, _, _, _ => .error .outOfFuel
  | fuel + 1, body, functions, ts =>
      match peekToken ts with
      | some .function => do
          let (func, ts) ← parseFunctionDef ts
          parseItems fuel body (functions ++ [func]) ts
      | some .endProgram => pure ((body, functions), ts)
      | some _ => do
          let (stmt, ts) ← parseStatement (3 * ts.length + 2) ts
          parseItems fuel (body ++ [stmt]) functions ts
      | none => .error (.error .unexpectedEof)

/-- The first variable that has been declared before. -/
def redeclared : List Variable → Option String
  | [] => none
  | v :: vars => if vars.any (·.name = v.name) then some v.name else redeclared vars

/-- The variables of a program; there may be none. -/
def parseVars (ts : Tokens P) : Parsed P (List Variable × Tokens P) :=
  if peekToken ts = some .var then parseVarBlock ts else pure ([], ts)

/-- A program. What follows its end is not read. -/
def parseProgram (ts : Tokens P) : Parsed P (Program P) := do
  let ts ← expect .program ts
  let ((name, _), ts) ← expectIdent ts
  let (vars, ts) ← parseVars ts
  match redeclared vars with
  | some name => .error (.error (.redefinedVariable name 0))
  | none => do
      let ((body, functions), ts) ← parseItems (ts.length + 1) [] [] ts
      let _ ← expect .endProgram ts
      pure ⟨name, vars, body, functions⟩

example : parseProgram
    ([⟨.program, 1, 1⟩, ⟨.identifier "p", 1, 9⟩, ⟨.exit, 1, 11⟩, ⟨.semicolon, 1, 15⟩,
      ⟨.endProgram, 1, 17⟩] : Tokens .exact) = .ok ⟨"p", [], [.exit], []⟩ := rfl

/-! ### The parser ends -/

/-- A part of the parser ends, and what remains of the tokens is bounded. -/
def Leaves {α : Type} (c : Parsed P (α × Tokens P)) (bound : ℕ) : Prop :=
  Ends c (fun p => p.2.length < bound) (· ≠ .outOfFuel)

/-- The same for a part that returns the tokens only. -/
def Skips (c : Parsed P (Tokens P)) (bound : ℕ) : Prop :=
  Ends c (fun ts => ts.length < bound) (· ≠ .outOfFuel)

variable {α β : Type} {ts : Tokens P} {token : Token P} {bound : ℕ} {c : Parsed P (α × Tokens P)}
  {bound' : ℕ}

theorem Leaves.mono (h : Leaves c bound) (hle : bound ≤ bound') : Leaves c bound' :=
  Ends.mono h (fun _ hp => hp.trans_le hle) fun _ => id

/-- A part of the parser after another. -/
theorem Leaves.bind {f : α × Tokens P → Parsed P (β × Tokens P)} (h : Leaves c bound)
    (hf : ∀ a ts, ts.length < bound → Leaves (f (a, ts)) bound') : Leaves (c >>= f) bound' :=
  Ends.bind h fun p hp => hf p.1 p.2 hp

theorem Leaves.then {f : α × Tokens P → Parsed P (Tokens P)} (h : Leaves c bound)
    (hf : ∀ a ts, ts.length < bound → Skips (f (a, ts)) bound') : Skips (c >>= f) bound' :=
  Ends.bind h fun p hp => hf p.1 p.2 hp

theorem Skips.bind {c : Parsed P (Tokens P)} {f : Tokens P → Parsed P (β × Tokens P)}
    (h : Skips c bound) (hf : ∀ ts, ts.length < bound → Leaves (f ts) bound') :
    Leaves (c >>= f) bound' :=
  Ends.bind h hf

theorem Skips.then {c : Parsed P (Tokens P)} {f : Tokens P → Parsed P (Tokens P)}
    (h : Skips c bound) (hf : ∀ ts, ts.length < bound → Skips (f ts) bound') :
    Skips (c >>= f) bound' :=
  Ends.bind h hf

/-- A part of the parser returns. -/
theorem Leaves.pure {a : α} (h : ts.length < bound) : Leaves
    (Pure.pure (a, ts) : Parsed P _) bound :=
  h

/-- A token that is there is the first of those that remain. -/
theorem length_tail_of_peekToken (h : peekToken ts = some token) :
    ts.tail.length + 1 = ts.length := by
  cases ts with
  | nil => cases h
  | cons ti ts => rfl

theorem expect_skips (token : Token P) (ts : Tokens P) : Skips (expect token ts) ts.length := by
  cases ts with
  | nil => exact nofun
  | cons ti ts =>
      rw [expect]
      split
      · exact Nat.lt_succ_self _
      · exact nofun

theorem expectIdent_leaves (ts : Tokens P) : Leaves (expectIdent ts) ts.length := by
  cases ts with
  | nil => exact nofun
  | cons ti ts =>
      rw [expectIdent]
      split
      · exact Nat.lt_succ_self _
      · exact nofun

/-- With enough fuel the four parts of the expression parser end, and each consumes a token,
but for the operators, of which there may be none. -/
theorem parseExpr_leaves (fuel : ℕ) :
    (∀ (minPrec : ℕ) (ts : Tokens P), 3 * ts.length + 3 ≤ fuel →
      Leaves (parseExprPrec fuel minPrec ts) ts.length) ∧
    (∀ (minPrec : ℕ) (left : Expr P) (ts : Tokens P), 3 * ts.length + 1 ≤ fuel →
      Leaves (parseOperators fuel minPrec left ts) (ts.length + 1)) ∧
    (∀ ts : Tokens P, 3 * ts.length + 2 ≤ fuel → Leaves (parseUnary fuel ts) ts.length) ∧
    (∀ ts : Tokens P, 3 * ts.length + 1 ≤ fuel → Leaves (parsePrimary fuel ts) ts.length) := by
  induction fuel with
  | zero => exact ⟨fun _ _ h => by omega, fun _ _ _ h => by omega, fun _ h => by omega,
      fun _ h => by omega⟩
  | succ fuel ih =>
      obtain ⟨ihPrec, ihOperators, ihUnary, ihPrimary⟩ := ih
      refine ⟨fun minPrec ts h => ?_, fun minPrec left ts h => ?_, fun ts h => ?_, fun ts h => ?_⟩
      · rw [parseExprPrec]
        exact (ihUnary ts (by omega)).bind fun left ts' hlt =>
          (ihOperators minPrec left ts' (by omega)).mono hlt
      · rw [parseOperators]
        cases hop : (peekToken ts).bind tokenToBinop with
        | none => exact Leaves.pure (Nat.lt_succ_self _)
        | some op =>
            obtain ⟨token, hpeek, -⟩ := Option.bind_eq_some_iff.mp hop
            have htail := length_tail_of_peekToken hpeek
            dsimp only
            split
            · exact (ihPrec _ _ (by omega)).bind fun right ts' hlt =>
                (ihOperators minPrec _ ts' (by omega)).mono (by omega)
            · exact Leaves.pure (Nat.lt_succ_self _)
      · rw [parseUnary]
        split
        · have htail := length_tail_of_peekToken ‹_›
          exact (ihUnary _ (by omega)).bind fun expr ts' hlt => Leaves.pure (by omega)
        · have htail := length_tail_of_peekToken ‹_›
          exact (ihUnary _ (by omega)).bind fun expr ts' hlt => Leaves.pure (by omega)
        · exact ihPrimary ts (by omega)
      · cases ts with
        | nil => exact nofun
        | cons ti ts =>
            rw [List.length_cons] at h ⊢
            rw [parsePrimary]
            split
            · exact Leaves.pure (Nat.lt_succ_self _)
            · exact Leaves.pure (Nat.lt_succ_self _)
            · split
              · exact Leaves.pure (Nat.lt_succ_self _)
              split
              · exact Leaves.pure (Nat.lt_succ_self _)
              split
              · have htail := length_tail_of_peekToken ‹_›
                exact (ihPrec 0 _ (by omega)).bind fun index ts₁ hindex =>
                  (expect_skips _ ts₁).bind fun ts₂ hbracket => Leaves.pure (by omega)
              · have htail := length_tail_of_peekToken ‹_›
                exact (expectIdent_leaves _).bind fun field ts₁ hfield => Leaves.pure (by omega)
              · exact Leaves.pure (Nat.lt_succ_self _)
            · exact (ihPrec 0 ts (by omega)).bind fun expr ts₁ hexpr =>
                (expect_skips _ ts₁).bind fun ts₂ hbracket => Leaves.pure (by omega)
            · exact nofun

theorem parseExpression_leaves (ts : Tokens P) : Leaves (parseExpression ts) ts.length :=
  (parseExpr_leaves _).1 0 ts le_rfl

/-! The declarations. -/

theorem parseStringLength_skips (ts : Tokens P) : Skips (parseStringLength ts) (ts.length + 1) := by
  rw [parseStringLength]
  split
  · have htail := length_tail_of_peekToken ‹_›
    split
    · rename_i rest htokens
      rw [htokens, List.length_cons] at htail
      exact Ends.mono (expect_skips .rParen rest) (fun _ hp => by omega) fun _ => id
    · exact nofun
  · exact Nat.lt_succ_self _

theorem parseArrayBounds_skips (ts : Tokens P) : Skips (parseArrayBounds ts) ts.length := by
  rw [parseArrayBounds]
  exact (expect_skips _ ts).then fun ts₁ h₁ => (parseExpression_leaves ts₁).then fun _ ts₂ h₂ =>
    (expect_skips _ ts₂).then fun ts₃ h₃ => (parseExpression_leaves ts₃).then fun _ ts₄ h₄ =>
    (expect_skips _ ts₄).then fun ts₅ h₅ =>
      Ends.mono (expect_skips _ ts₅) (fun _ hp => by omega) fun _ => id

variable {fuel : ℕ}

theorem parseVarType_leaves (h : ts.length < fuel) : Leaves (parseVarType fuel ts) ts.length := by
  induction fuel generalizing ts with
  | zero => omega
  | succ fuel ih =>
      cases ts with
      | nil => exact nofun
      | cons ti ts =>
          rw [List.length_cons] at h ⊢
          rw [parseVarType]
          split
          · exact Leaves.pure (Nat.lt_succ_self _)
          split
          · exact (parseStringLength_skips ts).bind fun ts₁ h₁ => Leaves.pure h₁
          · exact (parseArrayBounds_skips ts).bind fun ts₁ h₁ =>
              (ih (by omega)).bind fun _ ts₂ h₂ => Leaves.pure (by omega)
          · exact nofun

theorem parseDeclarations_leaves {vars : List Variable} (h : ts.length < fuel) :
    Leaves (parseDeclarations fuel vars ts) (ts.length + 1) := by
  induction fuel generalizing vars ts with
  | zero => omega
  | succ fuel ih =>
      rw [parseDeclarations]
      split
      · exact Leaves.pure (Nat.lt_succ_self _)
      · refine (expectIdent_leaves ts).bind fun name ts₁ h₁ => (expect_skips _ ts₁).bind
          fun ts₂ h₂ => (parseVarType_leaves (Nat.lt_succ_self _)).bind fun varType ts₃ h₃ =>
          (expect_skips _ ts₃).bind fun ts₄ h₄ => ?_
        split
        · exact nofun
        · exact (ih (by omega)).mono (by omega)

theorem parseVarBlock_leaves (ts : Tokens P) : Leaves (parseVarBlock ts) ts.length := by
  rw [parseVarBlock]
  refine (expect_skips _ ts).bind fun ts₁ h₁ => (parseDeclarations_leaves
    (Nat.lt_succ_self _)).bind fun vars ts₂ h₂ => (expect_skips _ ts₂).bind fun ts₃ h₃ =>
    Leaves.pure ?_
  split
  · rw [List.length_tail]
    omega
  · omega

theorem parseParamBlock_leaves (start : Token P) (ts : Tokens P) :
    Leaves (parseParamBlock start ts) ts.length := by
  rw [parseParamBlock]
  exact (expect_skips _ ts).bind fun ts₁ h₁ => (parseDeclarations_leaves
    (Nat.lt_succ_self _)).bind fun vars ts₂ h₂ => (expect_skips _ ts₂).bind fun ts₃ h₃ =>
    (expect_skips _ ts₃).bind fun ts₄ h₄ => Leaves.pure (by omega)

/-! The statements. -/

theorem parseArgs_leaves {args : List (Expr P)} (h : ts.length < fuel) :
    Leaves (parseArgs fuel args ts) (ts.length + 1) := by
  induction fuel generalizing args ts with
  | zero => omega
  | succ fuel ih =>
      rw [parseArgs]
      split
      · have htail := length_tail_of_peekToken ‹_›
        exact (parseExpression_leaves _).bind fun arg ts₁ h₁ => (ih (by omega)).mono (by omega)
      · exact Leaves.pure (Nat.lt_succ_self _)

theorem parseCallArgs_leaves (ts : Tokens P) : Leaves (parseCallArgs ts) (ts.length + 1) := by
  rw [parseCallArgs]
  split
  · exact Leaves.pure (Nat.lt_succ_self _)
  · exact (parseExpression_leaves ts).bind fun arg ts₁ h₁ =>
      (parseArgs_leaves (Nat.lt_succ_self _)).mono (by omega)

theorem parseIdentStmt_leaves (ts : Tokens P) : Leaves (parseIdentStmt ts) ts.length := by
  rw [parseIdentStmt]
  refine (expectIdent_leaves ts).bind fun name ts₁ h₁ => ?_
  dsimp only
  split
  · have htail := length_tail_of_peekToken ‹_›
    exact (parseExpression_leaves _).bind fun index ts₂ h₂ => (expect_skips _ ts₂).bind
      fun ts₃ h₃ => (expect_skips _ ts₃).bind fun ts₄ h₄ => (parseExpression_leaves ts₄).bind
      fun value ts₅ h₅ => (expect_skips _ ts₅).bind fun ts₆ h₆ => Leaves.pure (by omega)
  · have htail := length_tail_of_peekToken ‹_›
    exact (parseExpression_leaves _).bind fun value ts₂ h₂ => (expect_skips _ ts₂).bind
      fun ts₃ h₃ => Leaves.pure (by omega)
  · have htail := length_tail_of_peekToken ‹_›
    exact (parseCallArgs_leaves _).bind fun args ts₂ h₂ => (expect_skips _ ts₂).bind
      fun ts₃ h₃ => (expect_skips _ ts₃).bind fun ts₄ h₄ => Leaves.pure (by omega)
  · exact nofun

theorem parseCaseValues_leaves (ts : Tokens P) : Leaves (parseCaseValues ts) ts.length := by
  fun_induction parseCaseValues ts with
  | case1 => exact nofun
  | case2 | case5 | case6 => exact nofun
  | case3 => exact Leaves.pure (by simp only [List.length_cons]; omega)
  | case4 ti n _ next ts _ _ ih =>
      exact (ih.mono (by simp only [List.length_cons]; omega)).bind fun values ts₁ h₁ =>
        Leaves.pure h₁

theorem parseStep_leaves (ts : Tokens P) : Leaves (parseStep ts) (ts.length + 1) := by
  rw [parseStep]
  split
  · have htail := length_tail_of_peekToken ‹_›
    exact (parseExpression_leaves _).bind fun step ts₁ h₁ => Leaves.pure (by omega)
  · exact Leaves.pure (Nat.lt_succ_self _)

/-- With enough fuel the statements end, and each consumes a token. -/
theorem parseStatement_leaves (fuel : ℕ) :
    (∀ ts : Tokens P, 3 * ts.length + 2 ≤ fuel → Leaves (parseStatement fuel ts) ts.length) ∧
    (∀ stop (ts : Tokens P), 3 * ts.length + 3 ≤ fuel →
      Leaves (parseStatementsUntil stop fuel ts) (ts.length + 1)) ∧
    (∀ stop (ts : Tokens P), 3 * ts.length + 3 ≤ fuel →
      Leaves (parseElse stop fuel ts) (ts.length + 1)) ∧
    (∀ ts : Tokens P, 3 * ts.length + 4 ≤ fuel → Leaves (parseIf fuel ts) ts.length) ∧
    (∀ ts : Tokens P, 3 * ts.length + 4 ≤ fuel → Leaves (parseWhile fuel ts) ts.length) ∧
    (∀ ts : Tokens P, 3 * ts.length + 4 ≤ fuel → Leaves (parseFor fuel ts) ts.length) ∧
    (∀ ts : Tokens P, 3 * ts.length + 4 ≤ fuel → Leaves (parseCase fuel ts) ts.length) ∧
    (∀ ts : Tokens P, 3 * ts.length + 3 ≤ fuel → Leaves (parseCases fuel ts) (ts.length + 1)) ∧
    (∀ ts : Tokens P, 3 * ts.length + 4 ≤ fuel → Leaves (parseRepeat fuel ts) ts.length) := by
  induction fuel with
  | zero =>
      exact ⟨fun _ h => by omega, fun _ _ h => by omega, fun _ _ h => by omega,
        fun _ h => by omega, fun _ h => by omega, fun _ h => by omega, fun _ h => by omega,
        fun _ h => by omega, fun _ h => by omega⟩
  | succ fuel ih =>
      obtain ⟨ihStmt, ihUntil, ihElse, ihIf, ihWhile, ihFor, ihCase, ihCases, ihRepeat⟩ := ih
      refine ⟨fun ts h => ?_, fun stop ts h => ?_, fun stop ts h => ?_, fun ts h => ?_,
        fun ts h => ?_, fun ts h => ?_, fun ts h => ?_, fun ts h => ?_, fun ts h => ?_⟩
      · rw [parseStatement]
        split
        all_goals try have htail := length_tail_of_peekToken ‹_›
        · exact (ihIf _ (by omega)).mono (by omega)
        · exact (ihWhile _ (by omega)).mono (by omega)
        · exact (ihFor _ (by omega)).mono (by omega)
        · exact (ihCase _ (by omega)).mono (by omega)
        · exact (ihRepeat _ (by omega)).mono (by omega)
        · exact (expect_skips _ _).bind fun ts₁ h₁ => Leaves.pure (by omega)
        · exact (expect_skips _ _).bind fun ts₁ h₁ => Leaves.pure (by omega)
        · exact parseIdentStmt_leaves ts
      · rw [parseStatementsUntil]
        split
        · exact Leaves.pure (Nat.lt_succ_self _)
        · exact (ihStmt ts (by omega)).bind fun stmt ts₁ h₁ => (ihUntil stop ts₁ (by omega)).bind
            fun stmts ts₂ h₂ => Leaves.pure (by omega)
      · rw [parseElse]
        split
        · have htail := length_tail_of_peekToken ‹_›
          exact (ihUntil _ _ (by omega)).mono (by omega)
        · exact Leaves.pure (Nat.lt_succ_self _)
      · rw [parseIf]
        exact (parseExpression_leaves ts).bind fun condition ts₁ h₁ => (expect_skips _ ts₁).bind
          fun ts₂ h₂ => (ihUntil _ ts₂ (by omega)).bind fun thenBody ts₃ h₃ =>
          (ihElse _ ts₃ (by omega)).bind fun elseBody ts₄ h₄ => (expect_skips _ ts₄).bind
          fun ts₅ h₅ => (expect_skips _ ts₅).bind fun ts₆ h₆ => Leaves.pure (by omega)
      · rw [parseWhile]
        exact (parseExpression_leaves ts).bind fun condition ts₁ h₁ => (expect_skips _ ts₁).bind
          fun ts₂ h₂ => (ihUntil _ ts₂ (by omega)).bind fun body ts₃ h₃ =>
          (expect_skips _ ts₃).bind fun ts₄ h₄ => (expect_skips _ ts₄).bind fun ts₅ h₅ =>
          Leaves.pure (by omega)
      · rw [parseFor]
        exact (expectIdent_leaves ts).bind fun var ts₁ h₁ => (expect_skips _ ts₁).bind fun ts₂ h₂ =>
          (parseExpression_leaves ts₂).bind fun start ts₃ h₃ => (expect_skips _ ts₃).bind
          fun ts₄ h₄ => (parseExpression_leaves ts₄).bind fun stop ts₅ h₅ =>
          (parseStep_leaves ts₅).bind fun step ts₆ h₆ => (expect_skips _ ts₆).bind fun ts₇ h₇ =>
          (ihUntil _ ts₇ (by omega)).bind fun body ts₈ h₈ => (expect_skips _ ts₈).bind
          fun ts₉ h₉ => (expect_skips _ ts₉).bind fun ts' h' => Leaves.pure (by omega)
      · rw [parseCase]
        exact (expectIdent_leaves ts).bind fun var ts₁ h₁ => (expect_skips _ ts₁).bind fun ts₂ h₂ =>
          (ihCases ts₂ (by omega)).bind fun cases ts₃ h₃ => (ihElse _ ts₃ (by omega)).bind
          fun elseBody ts₄ h₄ => (expect_skips _ ts₄).bind fun ts₅ h₅ => (expect_skips _ ts₅).bind
          fun ts₆ h₆ => Leaves.pure (by omega)
      · rw [parseCases]
        split
        · exact Leaves.pure (Nat.lt_succ_self _)
        · exact (parseCaseValues_leaves ts).bind fun values ts₁ h₁ =>
            (ihUntil _ ts₁ (by omega)).bind
            fun body ts₂ h₂ => (ihCases ts₂ (by omega)).bind fun cases ts₃ h₃ =>
            Leaves.pure (by omega)
      · rw [parseRepeat]
        exact (ihUntil _ ts (by omega)).bind fun body ts₁ h₁ => (expect_skips _ ts₁).bind
          fun ts₂ h₂ => (parseExpression_leaves ts₂).bind fun condition ts₃ h₃ =>
          (expect_skips _ ts₃).bind fun ts₄ h₄ => (expect_skips _ ts₄).bind fun ts₅ h₅ =>
          Leaves.pure (by omega)

theorem parseBody_leaves (stop : Token P) (ts : Tokens P) :
    Leaves (parseBody stop ts) (ts.length + 1) :=
  (parseStatement_leaves _).2.1 _ ts le_rfl

/-! The program. -/

theorem parseFunctionVars_skips (h : ts.length < fuel) :
    Skips (parseFunctionVars fuel ts) (ts.length + 1) := by
  induction fuel generalizing ts with
  | zero => omega
  | succ fuel ih =>
      have hgo : ∀ ts₁ : Tokens P, ts₁.length < ts.length →
          Skips (parseFunctionVars fuel ts₁) (ts.length + 1) := fun ts₁ h₁ =>
        Ends.mono (ih (by omega)) (fun _ hp => by omega) fun _ => id
      rw [parseFunctionVars]
      split
      · exact (parseParamBlock_leaves _ ts).then fun _ ts₁ h₁ => hgo ts₁ h₁
      · exact (parseParamBlock_leaves _ ts).then fun _ ts₁ h₁ => hgo ts₁ h₁
      · exact (parseParamBlock_leaves _ ts).then fun _ ts₁ h₁ => hgo ts₁ h₁
      · exact (parseVarBlock_leaves ts).then fun _ ts₁ h₁ => hgo ts₁ h₁
      · exact Nat.lt_succ_self _

theorem parseFunctionDef_leaves (ts : Tokens P) : Leaves (parseFunctionDef ts) ts.length := by
  rw [parseFunctionDef]
  exact (expect_skips _ ts).bind fun ts₁ h₁ => (expectIdent_leaves ts₁).bind fun name ts₂ h₂ =>
    (expect_skips _ ts₂).bind fun ts₃ h₃ => (parseVarType_leaves (Nat.lt_succ_self _)).bind
    fun varType ts₄ h₄ => (expect_skips _ ts₄).bind fun ts₅ h₅ =>
    (parseFunctionVars_skips (Nat.lt_succ_self _)).bind fun ts₆ h₆ =>
    (parseBody_leaves _ ts₆).bind fun body ts₇ h₇ => (expect_skips _ ts₇).bind fun ts₈ h₈ =>
    (expect_skips _ ts₈).bind fun ts₉ h₉ => Leaves.pure (by omega)

theorem parseItems_leaves {body : List (Statement P)} {functions : List (FunctionDef P)}
    (h : ts.length < fuel) : Leaves (parseItems fuel body functions ts) (ts.length + 1) := by
  induction fuel generalizing body functions ts with
  | zero => omega
  | succ fuel ih =>
      rw [parseItems]
      split
      · exact (parseFunctionDef_leaves ts).bind fun func ts₁ h₁ => (ih (by omega)).mono (by omega)
      · exact Leaves.pure (Nat.lt_succ_self _)
      · exact ((parseStatement_leaves _).1 ts le_rfl).bind fun stmt ts₁ h₁ =>
          (ih (by omega)).mono (by omega)
      · exact nofun

/-- The parser returns a program or an error. -/
theorem parseProgram_terminates (ts : Tokens P) :
    Ends (parseProgram ts) (fun _ => True) (· ≠ .outOfFuel) := by
  rw [parseProgram]
  refine Ends.bind (expect_skips _ ts) fun ts₁ _ => Ends.bind (expectIdent_leaves ts₁) fun p _ => ?_
  have hvars : Ends (parseVars p.2) (fun _ => True) (· ≠ .outOfFuel) := by
    rw [parseVars]
    split
    · exact Ends.mono (parseVarBlock_leaves p.2) (fun _ _ => trivial) fun _ => id
    · trivial
  refine Ends.bind hvars fun q _ => ?_
  dsimp only
  split
  · exact nofun
  · exact Ends.bind (parseItems_leaves (Nat.lt_succ_self _)) fun items _ =>
      Ends.bind (expect_skips _ items.2) fun _ _ => trivial

end Weftik.St
