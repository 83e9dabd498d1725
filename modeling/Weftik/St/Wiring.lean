import Weftik.St.Layout

/-!
# Where the Jumps of an ST Program Should Lead

A statement is a sequence of parts with jumps between them: a jump over the part that is not
to be executed, a jump back to the start of a loop, a jump to the end of the loop that an
`EXIT` leaves, a call of a function at its entry. `Wired` says that the jumps and the calls of
a statement, which stands at an index of a program, lead where its form says; it looks at the
program only, and not at how it was made.

## Main definitions

* `Statement.checks`, `Statement.size`: the checks of a statement, and the size of its code.
* `Within`: a part whose jumps lead forward or to some labels.
* `Statement.Wired`: the jumps and the calls of a statement lead where they should.
* `Statement.wires`: nothing in the statement is left at its placeholder.
-/

open Outcome Code

namespace Weftik.St

open Codegen

variable {P : Platform}

/-! ### Checks and sizes -/

/-- The register of a variable that is declared. -/
def Names.reg (n : Names) (name : String) : ℕ := (n.registers name).getD 0

/-- The checks of the step of a `FOR`. -/
def stepChecks (n : Names) (step : Option (Expr P)) : Except Abort Unit :=
  match step with
  | some step => step.checks n 1
  | none => pure ()

/-- The size of the code of the step of a `FOR`. -/
def stepSize (n : Names) (step : Option (Expr P)) : ℕ :=
  match step with
  | some step => step.size n (scratchAt 0) 1
  | none => 1

/-- The size of the code of a call. -/
def callSize (n : Names) (name : String) (args : List (Expr P)) : ℕ :=
  match blockInputs (n.varTypes name) args with
  | some inputs => inputsSize n inputs 0 + 1
  | none => argsSize n args + 1

mutual

/-- The checks of a statement, inside of a loop or outside of all loops. -/
def Statement.checks (n : Names) : Statement P → (inLoop : Bool) → Except Abort Unit
  | .assign name value, _ => do
      check (checkAssign n.varTypes name value)
      let _ ← n.varReg name
      value.checks n 0
  | .arrayAssign name index value, _ => do
      let _ ← n.varReg name
      allocCheck 0
      index.checks n 1
      allocCheck 1
      value.checks n 2
  | .ifThenElse condition thenBody elseBody, inLoop => do
      check (checkCondition n.varTypes condition "IF")
      condition.condChecks n
      stmtsChecks n thenBody inLoop
      stmtsChecks n elseBody inLoop
  | .whileDo condition body, _ => do
      check (checkCondition n.varTypes condition "WHILE")
      condition.condChecks n
      stmtsChecks n body true
  | .forTo var start stop step body, _ => do
      check (checkForVariable n.varTypes var)
      let _ ← n.varReg var
      start.checks n 0
      allocCheck 0
      stop.checks n 1
      stmtsChecks n body true
      allocCheck 0
      stepChecks n step
  | .repeatUntil body condition, _ => do
      check (checkCondition n.varTypes condition "REPEAT")
      stmtsChecks n body true
      condition.condChecks n
  | .return, _ => pure ()
  | .exit, inLoop =>
      if inLoop then pure ()
      else .error (.panic (.message "called `Option::unwrap()` on a `None` value"))
  | .caseOf var cases elseBody, inLoop => do
      let _ ← n.varReg var
      casesChecks n cases inLoop
      stmtsChecks n elseBody inLoop
  | .funCall name args, _ => callChecks n name args

/-- The checks of some statements. -/
def stmtsChecks (n : Names) : List (Statement P) → (inLoop : Bool) → Except Abort Unit
  | [], _ => pure ()
  | stmt :: stmts, inLoop => do
      stmt.checks n inLoop
      stmtsChecks n stmts inLoop

/-- The checks of the cases of a `CASE`. -/
def casesChecks (n : Names) : List (List Int64 × List (Statement P)) → (inLoop : Bool) →
    Except Abort Unit
  | [], _ => pure ()
  | (_, body) :: cases, inLoop => do
      stmtsChecks n body inLoop
      casesChecks n cases inLoop

end

mutual

/-- The size of the code of a statement. -/
def Statement.size (n : Names) : Statement P → ℕ
  | .assign name value => value.size n (n.reg name) 0 + 1
  | .arrayAssign _ index value =>
      index.size n (scratchAt 0) 1 + value.size n (scratchAt 1) 2 + 2
  | .ifThenElse condition thenBody elseBody =>
      condition.condSize n + (1 + (stmtsSize n thenBody + (1 + stmtsSize n elseBody)))
  | .whileDo condition body => condition.condSize n + (1 + (stmtsSize n body + 1))
  | .forTo var start stop step body =>
      start.size n (n.reg var) 0 + (stop.size n (scratchAt 0) 1 + 1 + (1 + (stmtsSize n body +
        (stepSize n step + 1 + 1))))
  | .repeatUntil body condition => stmtsSize n body + (condition.condSize n + 1)
  | .return => 1
  | .exit => 1
  | .caseOf _ cases elseBody => casesSize n cases + stmtsSize n elseBody
  | .funCall name args => callSize n name args

/-- The size of the code of some statements. -/
def stmtsSize (n : Names) : List (Statement P) → ℕ
  | [] => 0
  | stmt :: stmts => stmt.size n + stmtsSize n stmts

/-- The size of the code of the cases of a `CASE`. -/
def casesSize (n : Names) : List (List Int64 × List (Statement P)) → ℕ
  | [] => 0
  | (values, body) :: cases =>
      3 * values.length + (1 + (stmtsSize n body + (1 + casesSize n cases)))

end

/-! ### Where jumps and calls lead -/

/-- At an index of the program there is a jump to another. -/
def JumpsAt (program : List (Instruction P)) (i target : ℕ) : Prop :=
  ∃ inst, program[i]? = some inst ∧ inst.jumpsTo = some target

/-- At an index of the program there is a call of a function at another. -/
def CallsAt (program : List (Instruction P)) (i target : ℕ) : Prop :=
  ∃ inst, program[i]? = some inst ∧ inst.callsTo = some target

/-- The jumps of the part of the program that stands at `base` lead to one of the labels, or
forward, to the end of the part at the latest; and the part calls nothing. -/
structure Within (program : List (Instruction P)) (base size : ℕ) (labels : List ℕ) : Prop where
  jumps : ∀ (i : ℕ) (inst : Instruction P) (t : ℕ), i < size → program[base + i]? = some inst →
    inst.jumpsTo = some t → t ∈ labels ∨ base + i < t ∧ t ≤ base + size
  calls : ∀ (i : ℕ) (inst : Instruction P), i < size → program[base + i]? = some inst →
    inst.opcode ≠ .call

section

variable (n : Names) (entry : String → ℕ → Prop) (program : List (Instruction P))

mutual

/-- The jumps and the calls of a statement, whose code stands at `base`, lead where they
should; `exit` is the end of the innermost loop, and a function may be called where it has
an entry. -/
def Statement.Wired : Statement P → (base : ℕ) → (exit : Option ℕ) → Prop
  | .assign name value, base, _ => Within program base (value.size n (n.reg name) 0 + 1) []
  | .arrayAssign _ index value, base, _ =>
      Within program base (index.size n (scratchAt 0) 1 + value.size n (scratchAt 1) 2 + 2) []
  | .ifThenElse condition thenBody elseBody, base, exit =>
      let toElse := base + condition.condSize n
      let thenLabel := toElse + 1
      let toEnd := thenLabel + stmtsSize n thenBody
      let elseLabel := toEnd + 1
      let endLabel := elseLabel + stmtsSize n elseBody
      Within program base (condition.condSize n) [thenLabel] ∧
        JumpsAt program toElse elseLabel ∧
          StmtsWired thenBody thenLabel exit ∧
            JumpsAt program toEnd endLabel ∧
              StmtsWired elseBody elseLabel exit
  | .whileDo condition body, base, _ =>
      let exitJump := base + condition.condSize n
      let bodyLabel := exitJump + 1
      let back := bodyLabel + stmtsSize n body
      let exitLabel := back + 1
      Within program base (condition.condSize n) [bodyLabel] ∧
        JumpsAt program exitJump exitLabel ∧
          StmtsWired body bodyLabel (some exitLabel) ∧
            JumpsAt program back base
  | .forTo var start stop step body, base, _ =>
      let loopStart := base + start.size n (n.reg var) 0
      let exitJump := loopStart + (stop.size n (scratchAt 0) 1 + 1)
      let bodyLabel := exitJump + 1
      let stepLabel := bodyLabel + stmtsSize n body
      let back := stepLabel + (stepSize n step + 1)
      let exitLabel := back + 1
      Within program base (start.size n (n.reg var) 0) [] ∧
        Within program loopStart (stop.size n (scratchAt 0) 1 + 1) [] ∧
          JumpsAt program exitJump exitLabel ∧
            StmtsWired body bodyLabel (some exitLabel) ∧
              Within program stepLabel (stepSize n step + 1) [] ∧
                JumpsAt program back loopStart
  | .repeatUntil body condition, base, _ =>
      let test := base + stmtsSize n body
      let toLoop := test + condition.condSize n
      let exitLabel := toLoop + 1
      StmtsWired body base (some exitLabel) ∧
        Within program test (condition.condSize n) [exitLabel] ∧
          JumpsAt program toLoop base
  | .return, base, _ => Within program base 1 []
  | .exit, base, exit => ∃ exitLabel, exit = some exitLabel ∧ JumpsAt program base exitLabel
  | .caseOf _ cases elseBody, base, exit =>
      let elseLabel := base + casesSize n cases
      let exitLabel := elseLabel + stmtsSize n elseBody
      CasesWired cases base exitLabel exit ∧ StmtsWired elseBody elseLabel exit
  | .funCall name args, base, _ =>
      match blockInputs (n.varTypes name) args with
      | some inputs => Within program base (inputsSize n inputs 0 + 1) []
      | none => Within program base (argsSize n args) [] ∧
          ∃ target, entry name target ∧ CallsAt program (base + argsSize n args) target

/-- The jumps and the calls of some statements lead where they should. -/
def StmtsWired : List (Statement P) → (base : ℕ) → (exit : Option ℕ) → Prop
  | [], _, _ => True
  | stmt :: stmts, base, exit =>
      stmt.Wired base exit ∧ StmtsWired stmts (base + stmt.size n) exit

/-- The jumps and the calls of the cases of a `CASE`, which ends at `exitLabel`, lead where
they should. -/
def CasesWired : List (List Int64 × List (Statement P)) → (base exitLabel : ℕ) →
    (exit : Option ℕ) → Prop
  | [], _, _, _ => True
  | (values, body) :: cases, base, exitLabel, exit =>
      let skipBody := base + 3 * values.length
      let bodyLabel := skipBody + 1
      let toExit := bodyLabel + stmtsSize n body
      let nextCase := toExit + 1
      (∀ i < values.length, JumpsAt program (base + 3 * i + 2) bodyLabel) ∧
        JumpsAt program skipBody nextCase ∧
          StmtsWired body bodyLabel exit ∧
            JumpsAt program toExit exitLabel ∧
              CasesWired cases nextCase exitLabel exit

end

end

mutual

/-- The statement calls function blocks with enough arguments only, and its conditions of
`WHILE` and `REPEAT` have no jumps of the second list. -/
def Statement.wires (n : Names) : Statement P → Bool
  | .assign _ _ | .arrayAssign _ _ _ | .return | .exit => true
  | .ifThenElse _ thenBody elseBody => stmtsWire n thenBody && stmtsWire n elseBody
  | .whileDo condition body | .repeatUntil body condition =>
      !condition.holes.2 && stmtsWire n body
  | .forTo _ _ _ _ body => stmtsWire n body
  | .caseOf _ cases elseBody => casesWire n cases && stmtsWire n elseBody
  | .funCall name args => (blockInputs (n.varTypes name) args).isSome

/-- None of the statements has anything that is left at its placeholder. -/
def stmtsWire (n : Names) : List (Statement P) → Bool
  | [] => true
  | stmt :: stmts => stmt.wires n && stmtsWire n stmts

/-- None of the cases has anything that is left at its placeholder. -/
def casesWire (n : Names) : List (List Int64 × List (Statement P)) → Bool
  | [] => true
  | (_, body) :: cases => stmtsWire n body && casesWire n cases

end

attribute [simp] Statement.checks Statement.size Statement.Wired Statement.wires

end Weftik.St
