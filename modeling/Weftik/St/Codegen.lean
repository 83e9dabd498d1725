import Weftik.Instruction
import Weftik.St.Syntax

/-!
# The ST Code Generator

Each variable has a register, and an expression is compiled into a given register; what
does not fit there goes to the three scratch registers. A jump is emitted with the target
`0` and patched when its target is known. A condition is compiled to comparisons and jumps:
`elseJumps` and `endJumps` are the jumps that the statement around it has to patch.

## Main definitions

* `Codegen`: the state of the code generator.
* `compileExpr`, `compileCondition`, `compileStmt`: expressions, conditions, statements.
* `compileAst`: programs.
-/

namespace Weftik.St

variable {P : Platform}

/-- The scratch registers, in the order in which they are given out. -/
def scratchRegs : List ℕ := [14, 15, 13]

/-- The number of registers for variables. -/
def maxVarRegs : ℕ := 13

/-- The state of the code generator: the registers and the types of the variables, the
instructions so far, the scratch registers that are available, and for each loop around the
present statement the jumps that leave it, innermost first. -/
structure Codegen (P : Platform) where
  registers : String → Option ℕ
  varTypes : String → Option VarType
  instructions : List (Instruction P)
  scratchAvail : ℕ → Bool
  loopExits : List (List UInt32)

/-- A code generator that continues from a state. -/
abbrev Compiler (P : Platform) := Codegen P → Except Abort (Codegen P)

/-- The result of a check. -/
def check {α : Type} : Except CodegenError α → Except Abort α
  | .ok a => .ok a
  | .error e => .error (.error e)

namespace Codegen

/-- The registers of the variables: their numbers in the list of declarations. -/
def declareRegisters (vars : List (Variable × ℕ)) (registers : String → Option ℕ) :
    String → Option ℕ :=
  vars.foldl (fun registers p => Function.update registers p.1.name (some p.2)) registers

/-- The types of the variables. -/
def declareTypes (vars : List Variable) (varTypes : String → Option VarType) :
    String → Option VarType :=
  vars.foldl (fun varTypes v => Function.update varTypes v.name (some v.varType)) varTypes

/-- The state before the first statement. -/
def new (vars : List Variable) : Except Abort (Codegen P) :=
  if maxVarRegs < vars.length then .error (.error (.tooManyVariables maxVarRegs))
  else
    pure
      { registers := declareRegisters vars.zipIdx fun _ => none
        varTypes := declareTypes vars fun _ => none
        instructions := []
        scratchAvail := fun _ => true
        loopExits := [] }

/-- Take the first scratch register that is available. -/
def allocScratch (cg : Codegen P) : Except Abort (ℕ × Codegen P) :=
  match scratchRegs.find? cg.scratchAvail with
  | some r => pure (r, { cg with scratchAvail := Function.update cg.scratchAvail r false })
  | none => .error (.panic (.message "scratch overflow: r13/r14/r15 all in use"))

/-- Give a scratch register back. -/
def freeScratch (cg : Codegen P) (reg : ℕ) : Codegen P :=
  if reg ∈ scratchRegs then
    { cg with scratchAvail := Function.update cg.scratchAvail reg true }
  else cg

/-- The register of a variable. -/
def varReg (cg : Codegen P) (name : String) : Except Abort ℕ :=
  match cg.registers name with
  | some r => pure r
  | none => .error (.error (.undefinedVariable name))

/-- The zero of the type of a variable. -/
def zeroForVar (cg : Codegen P) (name : String) : HalValue P :=
  ((cg.varTypes name).getD .int).zero

/-- The index of the next instruction. -/
def currentIdx (cg : Codegen P) : UInt32 := UInt32.ofNat cg.instructions.length

/-- The state after some instructions. -/
def emit (cg : Codegen P) (insts : List (Instruction P)) : Codegen P :=
  { cg with instructions := cg.instructions ++ insts }

/-- The instruction with another target. -/
def retarget (target : UInt32) (inst : Instruction P) : Instruction P :=
  { inst with operands := [.immediate (.u32 target)] }

/-- Set the target of a jump. -/
def patchJump (target : UInt32) (cg : Codegen P) (instIdx : UInt32) : Codegen P :=
  { cg with instructions := cg.instructions.modify instIdx.toNat (retarget target) }

/-- Set the target of some jumps. -/
def patchJumps (cg : Codegen P) (jumps : List UInt32) (target : UInt32) : Codegen P :=
  jumps.foldl (patchJump target) cg

/-- A loop begins. -/
def pushLoop (cg : Codegen P) : Codegen P := { cg with loopExits := [] :: cg.loopExits }

/-- A jump out of the innermost loop. -/
def recordExit (cg : Codegen P) : Except Abort (Codegen P) :=
  match cg.loopExits with
  | exits :: rest =>
      pure { cg.emit [.jump 0] with loopExits := (exits ++ [cg.currentIdx]) :: rest }
  | [] => .error (.panic (.message "called `Option::unwrap()` on a `None` value"))

/-- The innermost loop ends, and the jumps out of it lead here. -/
def popLoop (cg : Codegen P) : Codegen P :=
  match cg.loopExits with
  | exits :: rest => { cg with loopExits := rest }.patchJumps exits cg.currentIdx
  | [] => cg

end Codegen

open Codegen

/-! ### Expressions -/

/-- The opcode of an arithmetic operator. -/
def opToArithOpcode : BinOp → Option Opcode
  | .add => some .add
  | .sub => some .sub
  | .mul => some .mul
  | .div => some .div
  | .mod => some .mod
  | _ => none

/-- The opcode of a comparison. -/
def cmpOpcode : BinOp → Opcode
  | .neq => .neq
  | .gt => .gt
  | .lt => .lt
  | .gte => .gte
  | .lte => .lte
  | _ => .eq

/-- The opcode of a logical operator. -/
def bitOpcode : BinOp → Opcode
  | .or => .or
  | .xor => .xor
  | _ => .and

/-- The operands of a comparison, right before left, and the comparison. -/
def compileCmp (compileLeft compileRight : ℕ → Compiler P) (op : BinOp) : Compiler P :=
  fun cg => do
    let (rs, cg) ← cg.allocScratch
    let cg ← compileRight rs cg
    let (ls, cg) ← cg.allocScratch
    let cg ← compileLeft ls cg
    pure (((cg.emit [.cmp (cmpOpcode op) ls rs]).freeScratch ls).freeScratch rs)

/-- A comparison as a value. -/
def compileCmpExpr (compileLeft compileRight : ℕ → Compiler P) (op : BinOp) (dest : ℕ) :
    Compiler P := fun cg => do
  let cg ← compileCmp compileLeft compileRight op cg
  let cg := cg.emit [.loadImm dest (.bool false)]
  let jmp := cg.currentIdx
  let cg := cg.emit [.jumpIf 0, .loadImm dest (.bool true)]
  pure (patchJump cg.currentIdx cg jmp)

/-- Compile an expression into a register. -/
def compileExpr : Expr P → ℕ → Compiler P
  | .intLiteral n, dest, cg =>
      pure (cg.emit [.loadImm dest (.s32 (Int32.ofInt n.toInt))])
  | .realLiteral x, dest, cg => pure (cg.emit [.loadImm dest (.f32 (P.narrow x))])
  | .boolLiteral b, dest, cg => pure (cg.emit [.loadImm dest (.bool b)])
  | .variable name, dest, cg => do
      let src ← cg.varReg name
      if src ≠ dest then
        -- There is no copy: the variable is added to the zero of its type.
        pure (cg.emit [.loadImm dest (cg.zeroForVar name), .arith .add src dest dest])
      else pure cg
  | .binary left op right, dest, cg =>
      match opToArithOpcode op with
      | some arithOp => do
          let cg ← compileExpr left dest cg
          let (s, cg) ← cg.allocScratch
          let cg ← compileExpr right s cg
          pure ((cg.emit [.arith arithOp dest s dest]).freeScratch s)
      | none =>
          if op.isCmp then compileCmpExpr (compileExpr left) (compileExpr right) op dest cg
          else do
            let (s, cg) ← cg.allocScratch
            let cg ← compileExpr left dest cg
            let cg ← compileExpr right s cg
            pure ((cg.emit [.arith (bitOpcode op) dest s dest]).freeScratch s)
  | .unary .neg inner, dest, cg => do
      let cg ← compileExpr inner dest cg
      let (s, cg) ← cg.allocScratch
      pure ((cg.emit [.loadImm s (.s32 0), .arith .sub s dest dest]).freeScratch s)
  | .unary .not inner, dest, cg => do
      let cg ← compileExpr inner dest cg
      pure (cg.emit [.arith .not dest dest dest])
  | .arrayAccess name index, dest, cg => do
      let arrayReg ← cg.varReg name
      let (idxReg, cg) ← cg.allocScratch
      let cg ← compileExpr index idxReg cg
      pure ((cg.emit [.loadIndex dest arrayReg idxReg]).freeScratch idxReg)
  | .fieldAccess name field, dest, cg => do
      let reg ← cg.varReg name
      match cg.varTypes name with
      | some .sr | some .rs =>
          let (s, cg) ← cg.allocScratch
          let inst := if field = "Q2" then .readSr reg s dest else .readSr reg dest s
          pure ((cg.emit [inst]).freeScratch s)
      | some .rTrig | some .fTrig => pure (cg.emit [.readEdge reg dest])
      | _ =>
          let (etDest, cg) ← cg.allocScratch
          pure ((cg.emit [.readTimer reg dest etDest]).freeScratch etDest)

/-! ### Conditions -/

/-- A jump, and the jump at the end of a list of jumps. -/
def emitJump (inst : Instruction P) (cg : Codegen P) (jumps : List UInt32) :
    Codegen P × List UInt32 :=
  (cg.emit [inst], jumps ++ [cg.currentIdx])

/-- The comparison of a value with `TRUE`. -/
def compileTest (expr : Expr P) (cg : Codegen P) : Except Abort (Codegen P) := do
  let (s, cg) ← cg.allocScratch
  let cg ← compileExpr expr s cg
  let (t, cg) ← cg.allocScratch
  let cg := cg.emit [.loadImm t (.bool true), .cmp .eq s t]
  pure ((cg.freeScratch s).freeScratch t)

/-- The comparison, or the test, of a condition without `AND`, `OR` and `NOT`. -/
def compileLeaf (expr : Expr P) (cg : Codegen P) : Except Abort (Codegen P) :=
  match expr with
  | .binary left op right =>
      if op.isCmp then compileCmp (compileExpr left) (compileExpr right) op cg
      else compileTest expr cg
  | _ => compileTest expr cg

/-- Compile a condition: the state, and the jumps of the two lists with those that the
condition adds. -/
def compileBoolCond : Expr P → Codegen P → List UInt32 → List UInt32 →
    Except Abort (Codegen P × List UInt32 × List UInt32)
  | .binary left .and right, cg, elseJumps, endJumps => do
      let (cg, elseJumps, endJumps) ← compileBoolCond left cg elseJumps endJumps
      compileBoolCond right cg elseJumps endJumps
  | .binary left .or right, cg, elseJumps, endJumps => do
      let (cg, rightElse, endJumps) ← compileBoolCond left cg [] endJumps
      let (cg, endJumps) := emitJump (.jump 0) cg endJumps
      let cg := cg.patchJumps rightElse cg.currentIdx
      compileBoolCond right cg elseJumps endJumps
  | .unary .not inner, cg, elseJumps, endJumps => do
      let (cg, innerElse, innerEnd) ← compileBoolCond inner cg [] []
      pure (cg, elseJumps ++ innerEnd, endJumps ++ innerElse)
  | expr, cg, elseJumps, endJumps => do
      let cg ← compileLeaf expr cg
      let (cg, elseJumps) := emitJump (.jumpIf 0) cg elseJumps
      pure (cg, elseJumps, endJumps)

/-- Compile a condition: the state, and the two lists of jumps. -/
def compileCondition (expr : Expr P) (cg : Codegen P) :
    Except Abort (Codegen P × List UInt32 × List UInt32) :=
  compileBoolCond expr cg [] []

/-! ### Calls -/

/-- An input of a function block: a variable is copied, anything else is compiled. -/
def compileInput (arg : Expr P) (dest : ℕ) : Compiler P := fun cg =>
  match arg with
  | .variable name => do
      let r ← cg.varReg name
      pure (cg.emit [.loadReg dest r])
  | arg => compileExpr arg dest cg

/-- A preset, as `u32`; anything but a literal is `0`. -/
def preset : Expr P → UInt32
  | .intLiteral n => UInt32.ofNat (n.toInt % 2 ^ 32).toNat
  | _ => 0

/-- A timer with an input and a preset. -/
def timerCall (name : String) (kind : ℕ) (input pt : Expr P) : Compiler P := fun cg => do
  let timerReg ← cg.varReg name
  let (s, cg) ← cg.allocScratch
  let cg ← compileInput input s cg
  pure ((cg.emit [.timerRun timerReg s (preset pt) kind]).freeScratch s)

/-- The input to count down, `FALSE` when there is none. -/
def compileCountDown (cd : Option (Expr P)) (dest : ℕ) : Compiler P := fun cg =>
  match cd with
  | some cd => compileInput cd dest cg
  | none => pure (cg.emit [.loadImm dest (.bool false)])

/-- A counter with an input, a preset, and an input to count down if there is one. -/
def counterCall (name : String) (kind : ℕ) (cu pv : Expr P) (cd : Option (Expr P)) :
    Compiler P := fun cg => do
  let ctrReg ← cg.varReg name
  let (cuScratch, cg) ← cg.allocScratch
  let cg ← compileInput cu cuScratch cg
  let (cdScratch, cg) ← cg.allocScratch
  let cg ← compileCountDown cd cdScratch cg
  pure (((cg.emit [.counterRun ctrReg cuScratch cdScratch (preset pv) kind]).freeScratch
    cdScratch).freeScratch cuScratch)

/-- A flip-flop with its two inputs. -/
def srCall (name : String) (kind : ℕ) (s1 r : Expr P) : Compiler P := fun cg => do
  let fbReg ← cg.varReg name
  let (s1Scratch, cg) ← cg.allocScratch
  let cg ← compileInput s1 s1Scratch cg
  let (rScratch, cg) ← cg.allocScratch
  let cg ← compileInput r rScratch cg
  pure (((cg.emit [.srRun fbReg s1Scratch rScratch kind]).freeScratch rScratch).freeScratch
    s1Scratch)

/-- An edge detector with its input. -/
def edgeCall (name : String) (kind : ℕ) (clk : Expr P) : Compiler P := fun cg => do
  let fbReg ← cg.varReg name
  let (clkScratch, cg) ← cg.allocScratch
  let cg ← compileInput clk clkScratch cg
  pure ((cg.emit [.edgeRun fbReg clkScratch kind]).freeScratch clkScratch)

/-- The first four arguments of a function go to the registers `r0` to `r3`. -/
def genericCall (args : List (Expr P)) : Compiler P := fun cg => do
  let cg ← (args.take 4).zipIdx.foldlM (fun cg p => compileExpr p.1 p.2 cg) cg
  pure (cg.emit [.call 0])

/-- A call of a function block with enough arguments, or of a function. -/
def compileFunCall (name : String) (args : List (Expr P)) : Compiler P := fun cg =>
  match cg.varTypes name, args with
  | some .ton, input :: pt :: _ => timerCall name 0 input pt cg
  | some .tof, input :: pt :: _ => timerCall name 1 input pt cg
  | some .tp, input :: pt :: _ => timerCall name 2 input pt cg
  | some .ctu, cu :: pv :: rest => counterCall name 0 cu pv rest.head? cg
  | some .ctd, cu :: pv :: rest => counterCall name 1 cu pv rest.head? cg
  | some .ctud, cu :: pv :: rest => counterCall name 2 cu pv rest.head? cg
  | some .sr, s1 :: r :: _ => srCall name 0 s1 r cg
  | some .rs, s1 :: r :: _ => srCall name 1 s1 r cg
  | some .rTrig, clk :: _ => edgeCall name 0 clk cg
  | some .fTrig, clk :: _ => edgeCall name 1 clk cg
  | _, args => genericCall args cg

/-! ### Statements -/

/-- The step of a `FOR`, `1` when there is none. -/
def compileStep (step : Option (Expr P)) (dest : ℕ) : Compiler P := fun cg =>
  match step with
  | some step => compileExpr step dest cg
  | none => pure (cg.emit [.loadImm dest (.s32 1)])

/-- The comparisons of the variable of a `CASE` with some values, and the jumps after
them. -/
def compileCaseValues (varReg : ℕ) : List Int64 → Codegen P → List UInt32 →
    Except Abort (Codegen P × List UInt32)
  | [], cg, jumps => pure (cg, jumps)
  | val :: values, cg, jumps => do
      let (s, cg) ← cg.allocScratch
      let cg := cg.emit [.loadImm s (.s32 (Int32.ofInt val.toInt)), .cmp .eq varReg s]
      let (cg, jumps) := emitJump (.jumpIf 0) (cg.freeScratch s) jumps
      compileCaseValues varReg values cg jumps

mutual

/-- Compile a statement. -/
def compileStmt : Statement P → Compiler P
  | .assign name value, cg => do
      check (checkAssign cg.varTypes name value)
      let dest ← cg.varReg name
      let cg ← compileExpr value dest cg
      pure (cg.emit [.storeSignal name dest])
  | .arrayAssign name index value, cg => do
      let arrayReg ← cg.varReg name
      let (idxReg, cg) ← cg.allocScratch
      let cg ← compileExpr index idxReg cg
      let (valReg, cg) ← cg.allocScratch
      let cg ← compileExpr value valReg cg
      let cg := cg.emit [.storeIndex arrayReg idxReg valReg]
      pure (((cg.freeScratch idxReg).freeScratch valReg).emit [.storeSignal name arrayReg])
  | .ifThenElse condition thenBody elseBody, cg => do
      check (checkCondition cg.varTypes condition "IF")
      let (cg, elseJumps, endJumps) ← compileCondition condition cg
      let toElse := cg.currentIdx
      let cg := cg.emit [.jump 0]
      let thenLabel := cg.currentIdx
      let cg := (cg.patchJumps elseJumps thenLabel).patchJumps endJumps thenLabel
      let cg ← compileStmts thenBody cg
      let toEnd := cg.currentIdx
      let cg := cg.emit [.jump 0]
      let cg := patchJump cg.currentIdx cg toElse
      let cg ← compileStmts elseBody cg
      pure (patchJump cg.currentIdx cg toEnd)
  | .whileDo condition body, cg => do
      check (checkCondition cg.varTypes condition "WHILE")
      let cg := cg.pushLoop
      let loopStart := cg.currentIdx
      let (cg, elseJumps, _) ← compileCondition condition cg
      let exitJump := cg.currentIdx
      let cg := cg.emit [.jump 0]
      let cg := cg.patchJumps elseJumps cg.currentIdx
      let cg ← compileStmts body cg
      let cg := cg.emit [.jump loopStart]
      pure (patchJump cg.currentIdx cg exitJump).popLoop
  | .forTo var start stop step body, cg => do
      check (checkForVariable cg.varTypes var)
      let varReg ← cg.varReg var
      let cg ← compileExpr start varReg cg
      let cg := cg.pushLoop
      let loopStart := cg.currentIdx
      let (s, cg) ← cg.allocScratch
      let cg ← compileExpr stop s cg
      let cg := (cg.emit [.cmp .gt varReg s]).freeScratch s
      let exitJump := cg.currentIdx
      let cg := cg.emit [.jumpIf 0]
      let cg ← compileStmts body cg
      let (s, cg) ← cg.allocScratch
      let cg ← compileStep step s cg
      let cg := (cg.emit [.arith .add varReg s varReg]).freeScratch s
      let cg := cg.emit [.jump loopStart]
      pure (patchJump cg.currentIdx cg exitJump).popLoop
  | .repeatUntil body condition, cg => do
      check (checkCondition cg.varTypes condition "REPEAT")
      let cg := cg.pushLoop
      let loopStart := cg.currentIdx
      let cg ← compileStmts body cg
      let (cg, elseJumps, _) ← compileCondition condition cg
      let toLoop := cg.currentIdx
      let cg := cg.emit [.jump 0]
      let cg := cg.patchJumps elseJumps cg.currentIdx
      pure (patchJump loopStart cg toLoop).popLoop
  | .return, cg => pure (cg.emit [.halt])
  | .exit, cg => cg.recordExit
  | .caseOf var cases elseBody, cg => do
      let varReg ← cg.varReg var
      let (cg, exitJumps) ← compileCases varReg cases cg []
      let cg ← compileStmts elseBody cg
      pure (cg.patchJumps exitJumps cg.currentIdx)
  | .funCall name args, cg => compileFunCall name args cg

/-- Compile some statements. -/
def compileStmts : List (Statement P) → Compiler P
  | [], cg => pure cg
  | stmt :: stmts, cg => do
      let cg ← compileStmt stmt cg
      compileStmts stmts cg

/-- Compile the cases of a `CASE`, and the jumps to its end. -/
def compileCases (varReg : ℕ) : List (List Int64 × List (Statement P)) → Codegen P →
    List UInt32 → Except Abort (Codegen P × List UInt32)
  | [], cg, exitJumps => pure (cg, exitJumps)
  | (values, body) :: cases, cg, exitJumps => do
      let (cg, jumpToBody) ← compileCaseValues varReg values cg []
      let skipBody := cg.currentIdx
      let cg := cg.emit [.jump 0]
      let cg := cg.patchJumps jumpToBody cg.currentIdx
      let cg ← compileStmts body cg
      let (cg, exitJumps) := emitJump (.jump 0) cg exitJumps
      let cg := patchJump cg.currentIdx cg skipBody
      compileCases varReg cases cg exitJumps

end

/-! ### Programs -/

/-- Compile a function, and its entry in the function table. -/
def compileFunction (func : FunctionDef P) (cg : Codegen P) :
    Except Abort (Codegen P × FunctionEntry) := do
  let startIp := cg.currentIdx
  let cg ← compileStmts func.body cg
  pure (cg.emit [.ret none], ⟨func.name, startIp, 0⟩)

/-- Compile a program: its statements and a `Halt`, and then its functions. -/
def compileAst (program : Program P) : Except Abort (HalProgram P) := do
  let cg ← Codegen.new program.vars
  let cg ← compileStmts program.body cg
  let (cg, table) ← program.functions.foldlM
    (fun p func => do
      let (cg, entry) ← compileFunction func p.1
      pure (cg, p.2 ++ [entry]))
    (cg.emit [.halt], [])
  pure
    { name := program.name
      signals := (storedNames cg.instructions).map fun name =>
        ⟨name, name, .write, ((cg.varTypes name).getD .int).pinType⟩
      instructions := cg.instructions
      functionTable := table }

end Weftik.St
