import Weftik.St.Codegen
import Weftik.StraightLine

/-!
# The Values of ST Expressions

An arithmetic expression has a value for given literals and given contents of the
variables. The compiled code computes such a value in a scratch register: its literals are
of type `S32` whatever the type of the variables, and it reads a variable by adding the zero
of its type.

In the language a condition is a truth value: integers of all sizes are numbers, `AND`, `OR`
and `NOT` are the operators of logic, and a comparison compares two values of one kind. The
meaning is undefined where an operand divides by zero or mixes the kinds.

## Main definitions

* `Expr.eval`: the value of an arithmetic expression.
* `readCopy`: what the compiled code reads of a variable.
* `Semantics`, `Expr.value`: the value of an operand, which may have literals of all types.
* `IecValue`, `iec`: the values of the language, and the meaning of operands.
* `Expr.truth`: the truth value of a condition.
* `Expr.isCondition`: the expressions that have one.

## Main results

* `compileExpr_operand`: the code of an operand leaves that value in its register, and every
  register in use as it was.
* `compileExpr_scratch`: the same for an arithmetic expression.
-/

open Outcome

namespace Weftik.St

variable {P : Platform}

/-- The expression is built from integer literals and variables with `+`, `-`, `*`, `/`,
`MOD` and the unary minus. -/
def Expr.isArith : Expr P → Bool
  | .intLiteral _ | .variable _ => true
  | .binary left op right => (opToArithOpcode op).isSome && left.isArith && right.isArith
  | .unary .neg inner => inner.isArith
  | _ => false

/-- The value of an arithmetic expression, from what literals stand for and what reading a
variable gives. -/
def Expr.eval (literal : Int64 → HalValue P) (read : String → Except Panic (HalValue P)) :
    Expr P → Except Panic (HalValue P)
  | .intLiteral n => pure (literal n)
  | .variable name => read name
  | .binary left op right => do
      let a ← left.eval literal read
      let b ← right.eval literal read
      Vm.arithFn ((opToArithOpcode op).getD .nop) a b
  | .unary .neg inner => do
      let a ← inner.eval literal read
      HalValue.binop .sub (literal 0) a
  | _ => pure (.s32 0)

/-- What the compiler makes of an integer literal, `n as i32`. -/
def s32Literal (n : Int64) : HalValue P := .s32 (Int32.ofInt n.toInt)

/-- What the code reads of a variable: the sum with the zero of its type. -/
def readCopy (varTypes : String → Option VarType) (env : String → HalValue P)
    (name : String) : Except Panic (HalValue P) :=
  HalValue.binop .add (env name) ((varTypes name).getD .int).zero

/-- A meaning of operands: what literals, variables and operators stand for. -/
structure Semantics (P : Platform) (m : Type → Type) (V : Type) where
  int : Int64 → V
  real : P.F64 → V
  bool : Bool → V
  read : String → m V
  arith : BinOp → V → V → m V
  neg : V → m V

/-- The expression is built from literals and variables with `+`, `-`, `*`, `/`, `MOD` and
the unary minus. -/
def Expr.isOperand : Expr P → Bool
  | .intLiteral _ | .realLiteral _ | .boolLiteral _ | .variable _ => true
  | .binary left op right => (opToArithOpcode op).isSome && left.isOperand && right.isOperand
  | .unary .neg inner => inner.isOperand
  | _ => false

/-- The value of an operand. -/
def Expr.value {m : Type → Type} [Monad m] {V : Type} (S : Semantics P m V) : Expr P → m V
  | .intLiteral n => pure (S.int n)
  | .realLiteral x => pure (S.real x)
  | .boolLiteral b => pure (S.bool b)
  | .variable name => S.read name
  | .binary left op right => do
      let a ← left.value S
      let b ← right.value S
      S.arith op a b
  | .unary .neg inner => do
      let a ← inner.value S
      S.neg a
  | _ => pure (S.bool false)

/-- What the compiled code makes of operands. -/
def machine (read : String → Except Panic (HalValue P)) :
    Semantics P (Except Panic) (HalValue P) where
  int := s32Literal
  real x := .f32 (P.narrow x)
  bool := .bool
  read := read
  arith op := Vm.arithFn ((opToArithOpcode op).getD .nop)
  neg := HalValue.binop .sub (.s32 0)

theorem machine_arith (read : String → Except Panic (HalValue P)) {op : BinOp} {opcode : Opcode}
    (h : opToArithOpcode op = some opcode) : (machine read).arith op = Vm.arithFn opcode := by
  change Vm.arithFn ((opToArithOpcode op).getD .nop) = Vm.arithFn opcode
  rw [h, Option.getD_some]

theorem Expr.isOperand_of_isArith {e : Expr P} (he : e.isArith = true) : e.isOperand = true := by
  induction e with
  | intLiteral n | «variable» name => rfl
  | binary left op right ihl ihr =>
      simp only [Expr.isArith, Bool.and_eq_true] at he
      simp only [Expr.isOperand, Bool.and_eq_true]
      exact ⟨⟨he.1.1, ihl he.1.2⟩, ihr he.2⟩
  | unary op inner ih =>
      cases op with
      | not => cases he
      | neg => exact ih he
  | _ => cases he

/-- An arithmetic expression as an operand. -/
theorem Expr.eval_eq_value {e : Expr P} (he : e.isArith = true)
    (read : String → Except Panic (HalValue P)) :
    e.eval s32Literal read = e.value (machine read) := by
  induction e with
  | intLiteral n | «variable» name => rfl
  | binary left op right ihl ihr =>
      simp only [Expr.isArith, Bool.and_eq_true] at he
      rw [Expr.eval, Expr.value, ihl he.1.2, ihr he.2]
      rfl
  | unary op inner ih =>
      cases op with
      | not => cases he
      | neg =>
          rw [Expr.eval, Expr.value, ih he]
          rfl
  | _ => cases he

namespace Codegen

/-! ### Scratch registers -/

/-- A scratch register has been taken. -/
def taken (cg : Codegen P) (s : ℕ) : Codegen P :=
  { cg with scratchAvail := Function.update cg.scratchAvail s false }

/-- The register is for a variable, or a scratch register that has been taken. -/
def InUse (cg : Codegen P) (r : ℕ) : Prop := r ∈ scratchRegs → cg.scratchAvail r = false

/-- A register that was available is taken. -/
theorem allocScratch_ok {cg cg' : Codegen P} {s : ℕ} (h : cg.allocScratch = .ok (s, cg')) :
    s ∈ scratchRegs ∧ cg.scratchAvail s = true ∧ cg' = cg.taken s := by
  rw [allocScratch] at h
  split at h
  · rename_i r hr
    cases h
    exact ⟨List.mem_of_find?_eq_some hr, List.find?_some hr, rfl⟩
  · cases h

/-- A register that is given back after some instructions. -/
theorem freeScratch_taken {cg : Codegen P} {s : ℕ} (hs : s ∈ scratchRegs)
    (havail : cg.scratchAvail s = true) (code : List (Instruction P)) :
    ((cg.taken s).emit code).freeScratch s = cg.emit code := by
  rw [freeScratch, if_pos hs]
  simp only [emit, taken, Function.update_idem]
  rw [← havail, Function.update_eq_self]

theorem emit_emit (cg : Codegen P) (a b : List (Instruction P)) :
    (cg.emit a).emit b = cg.emit (a ++ b) := by
  simp only [emit, List.append_assoc]

theorem varReg_ok {cg : Codegen P} {name : String} {r : ℕ} (h : cg.varReg name = .ok r) :
    cg.registers name = some r := by
  rw [varReg] at h
  split at h
  · cases h
    assumption
  · cases h

theorem lt_of_mem_scratchRegs {s : ℕ} (hs : s ∈ scratchRegs) : 13 ≤ s ∧ s < 16 := by
  simp only [scratchRegs, List.mem_cons, List.not_mem_nil, or_false] at hs
  omega

/-- The registers of the variables come before the scratch registers. -/
def VarRegsOk (cg : Codegen P) : Prop := ∀ v r, cg.registers v = some r → r < 13

/-- The registers of the variables hold the values. -/
def Holds (cg : Codegen P) (env : String → HalValue P) (vm : Vm P) : Prop :=
  ∀ v r, cg.registers v = some r → vm.reg r = env v

/-- What the code reads of the declared variables. -/
def Reads (cg : Codegen P) (env : String → HalValue P)
    (read : String → Except Panic (HalValue P)) : Prop :=
  ∀ v r, cg.registers v = some r → read v = readCopy cg.varTypes env v

/-- The second machine differs from the first in `dest`, in registers that are not in use
and in control only. -/
structure Keeps (cg : Codegen P) (dest : ℕ) (vm vm' : Vm P) : Prop where
  reg : ∀ r, cg.InUse r → r ≠ dest → vm'.reg r = vm.reg r
  signals : vm'.signals = vm.signals
  callStack : vm'.callStack = vm.callStack

namespace Keeps

variable {cg : Codegen P} {dest s : ℕ} {vm vm₁ vm₂ : Vm P}

theorem refl (cg : Codegen P) (dest : ℕ) (vm : Vm P) : cg.Keeps dest vm vm :=
  ⟨fun _ _ _ => rfl, rfl, rfl⟩

theorem trans (h₁ : cg.Keeps dest vm vm₁) (h₂ : cg.Keeps dest vm₁ vm₂) :
    cg.Keeps dest vm vm₂ :=
  ⟨fun r hr hne => (h₂.reg r hr hne).trans (h₁.reg r hr hne), h₂.signals.trans h₁.signals,
    h₂.callStack.trans h₁.callStack⟩

theorem of_emit {code : List (Instruction P)} (h : (cg.emit code).Keeps dest vm vm₁) :
    cg.Keeps dest vm vm₁ :=
  ⟨h.reg, h.signals, h.callStack⟩

/-- What changes a scratch register only keeps everything in use. -/
theorem of_taken (hs : s ∈ scratchRegs) (havail : cg.scratchAvail s = true)
    (h : (cg.taken s).Keeps s vm vm₁) : cg.Keeps dest vm vm₁ := by
  refine ⟨fun r hr _ => ?_, h.signals, h.callStack⟩
  have hne : r ≠ s := by
    rintro rfl
    rw [hr hs] at havail
    cases havail
  refine h.reg r (fun hmem => ?_) hne
  exact (Function.update_of_ne hne _ _).trans (hr hmem)

theorem setReg (hdest : dest < 16) (x : HalValue P) :
    cg.Keeps dest vm (vm.setReg dest x).advanceIp := by
  refine ⟨fun r _ hne => ?_, rfl, rfl⟩
  rw [Vm.advanceIp_reg, Vm.reg_setReg hdest, if_neg hne]

/-- Variables other than `dest` still hold their values. -/
theorem holds (h : cg.Keeps dest vm vm₁) (hregs : cg.VarRegsOk) (hdest : dest ∈ scratchRegs)
    {env : String → HalValue P} (henv : cg.Holds env vm) : cg.Holds env vm₁ := by
  intro v r hr
  have hlt := hregs v r hr
  have hscratch := (lt_of_mem_scratchRegs hdest).1
  rw [h.reg r (fun hmem => absurd (lt_of_mem_scratchRegs hmem).1 (by omega)) (by omega)]
  exact henv v r hr

end Keeps

end Codegen

open Codegen

/-! ### Code into a scratch register -/

/-- The last instruction of an expression writes its value. -/
theorem agree_setReg {cg : Codegen P} {dest : ℕ} {vm vm₁ : Vm P} (hdest : dest < 16)
    (hkeeps : ∀ x, cg.Keeps dest vm (vm₁.setReg dest x).advanceIp)
    (c : Except Panic (HalValue P)) :
    Agree (fun vm' x => vm'.reg dest = x ∧ cg.Keeps dest vm vm')
      ((fun x => (vm₁.setReg dest x).advanceIp) <$> c) c := by
  cases c with
  | error p => exact rfl
  | ok x =>
      refine ⟨?_, hkeeps x⟩
      rw [Vm.advanceIp_reg, Vm.reg_setReg hdest, if_pos rfl]

theorem isArith_opToArithOpcode {op : BinOp} {opcode : Opcode}
    (h : opToArithOpcode op = some opcode) : Vm.Opcode.isArith opcode = true := by
  cases op <;> cases h <;> rfl

theorem isSequential_arith {op : BinOp} {opcode : Opcode} {a b out : ℕ}
    (h : opToArithOpcode op = some opcode) :
    IsSequential [(.arith opcode a b out : Instruction P)] := by
  cases op <;> cases h <;> exact isSequential_of_all rfl

/-- The code of an operand leaves its value in a scratch register that has been taken, and
panics as the evaluation does. -/
theorem compileExpr_operand {e : Expr P} (he : e.isOperand = true) {cg cg' : Codegen P}
    (hregs : cg.VarRegsOk) {dest : ℕ} (hdest : dest ∈ scratchRegs)
    (htaken : cg.scratchAvail dest = false) (h : compileExpr e dest cg = .ok cg') :
    ∃ code, cg' = cg.emit code ∧ IsSequential code ∧
      ∀ env read vm, cg.Holds env vm → cg.Reads env read →
        Agree (fun vm' x => vm'.reg dest = x ∧ cg.Keeps dest vm vm') (vm.execList code)
          (e.value (machine read)) := by
  have hlt := (lt_of_mem_scratchRegs hdest).2
  induction e generalizing cg cg' dest with
  | intLiteral n | realLiteral x | boolLiteral b =>
      cases h
      refine ⟨_, rfl, isSequential_of_all rfl, fun env read vm _ _ => ?_⟩
      rw [Vm.execList_cons, Vm.stepSeq_loadImm hlt]
      refine ⟨?_, .setReg hlt _⟩
      rw [Vm.advanceIp_reg, Vm.reg_setReg hlt, if_pos rfl]
      rfl
  | «variable» name =>
      obtain ⟨src, hsrc, h⟩ := bind_eq_ok h
      have hreg := varReg_ok hsrc
      have hsrclt := hregs name src hreg
      have hne : src ≠ dest := by
        have := (lt_of_mem_scratchRegs hdest).1
        omega
      rw [if_pos hne] at h
      cases h
      refine ⟨_, rfl, isSequential_of_all rfl, fun env read vm henv hread => ?_⟩
      rw [Vm.execList_cons, Vm.stepSeq_loadImm hlt, ok_bind, Vm.execList_arith rfl (by omega) hlt
        hlt, Vm.advanceIp_reg, Vm.advanceIp_reg, Vm.reg_setReg hlt, Vm.reg_setReg hlt,
        if_neg hne, if_pos rfl, henv name src hreg,
        Expr.value, show (machine read).read name = read name from rfl, hread name src hreg]
      exact agree_setReg hlt
        (fun x => ((Keeps.setReg hlt _).trans (.setReg hlt x))) _
  | binary left op right ihl ihr =>
      simp only [Expr.isOperand, Bool.and_eq_true] at he
      obtain ⟨⟨hop, hl⟩, hr⟩ := he
      obtain ⟨arithOp, harith⟩ := Option.isSome_iff_exists.mp hop
      rw [compileExpr, harith] at h
      obtain ⟨cg₁, hleft, h⟩ := bind_eq_ok h
      obtain ⟨⟨s, cg₂⟩, halloc, h⟩ := bind_eq_ok h
      obtain ⟨cg₃, hright, h⟩ := bind_eq_ok h
      cases h
      obtain ⟨code₁, rfl, hseq₁, hsim₁⟩ := ihl hl hregs hdest htaken hleft hlt
      obtain ⟨hs, havail, rfl⟩ := allocScratch_ok halloc
      have hregs₂ : ((cg.emit code₁).taken s).VarRegsOk := hregs
      obtain ⟨code₂, rfl, hseq₂, hsim₂⟩ :=
        ihr hr hregs₂ hs (Function.update_self ..) hright (lt_of_mem_scratchRegs hs).2
      have hne : dest ≠ s := by
        rintro rfl
        exact absurd (havail.symm.trans htaken) (by decide)
      refine ⟨code₁ ++ (code₂ ++ [.arith arithOp dest s dest]), ?_, ?_, ?_⟩
      · rw [emit_emit, freeScratch_taken hs havail, emit_emit]
      · exact hseq₁.append (hseq₂.append (isSequential_arith harith))
      · intro env read vm henv hread
        rw [Vm.execList_append]
        refine (hsim₁ env read vm henv hread).bind fun vm₁ a ⟨ha, hkeeps₁⟩ => ?_
        rw [Vm.execList_append]
        have henv₁ := hkeeps₁.holds hregs hdest henv
        refine (hsim₂ env read vm₁ henv₁ hread).bind fun vm₂ b ⟨hb, hkeeps₂⟩ => ?_
        have hdest₂ : vm₂.reg dest = a := by
          rw [hkeeps₂.reg dest (fun _ => (Function.update_of_ne hne _ _).trans htaken) hne, ha]
        rw [Vm.execList_arith (isArith_opToArithOpcode harith) hlt
          (lt_of_mem_scratchRegs hs).2 hlt, hdest₂, hb]
        have hkeeps := hkeeps₁.trans (.of_emit (.of_taken hs havail hkeeps₂))
        rw [machine_arith read harith]
        exact agree_setReg hlt (fun x => hkeeps.trans (.setReg hlt x)) _
  | unary op inner ih =>
      cases op with
      | not => cases he
      | neg =>
          obtain ⟨cg₁, hinner, h⟩ := bind_eq_ok h
          obtain ⟨⟨s, cg₂⟩, halloc, h⟩ := bind_eq_ok h
          cases h
          obtain ⟨code, rfl, hseq, hsim⟩ := ih he hregs hdest htaken hinner hlt
          obtain ⟨hs, havail, rfl⟩ := allocScratch_ok halloc
          have hslt := (lt_of_mem_scratchRegs hs).2
          have hne : dest ≠ s := by
            rintro rfl
            exact absurd (havail.symm.trans htaken) (by decide)
          refine ⟨code ++ [.loadImm s (.s32 0), .arith .sub s dest dest], ?_, ?_, ?_⟩
          · rw [freeScratch_taken hs havail, emit_emit]
          · exact hseq.append (isSequential_of_all rfl)
          · intro env read vm henv hread
            rw [Vm.execList_append]
            refine (hsim env read vm henv hread).bind fun vm₁ a ⟨ha, hkeeps₁⟩ => ?_
            rw [Vm.execList_cons, Vm.stepSeq_loadImm hslt, ok_bind,
              Vm.execList_arith rfl hslt hlt hlt, Vm.advanceIp_reg, Vm.advanceIp_reg,
              Vm.reg_setReg hslt, Vm.reg_setReg hslt, if_pos rfl, if_neg hne, ha]
            have hkeeps := hkeeps₁.trans (.of_taken hs havail (.setReg hslt (.s32 0)))
            exact agree_setReg hlt (fun x => hkeeps.trans (.setReg hlt x)) _
  | _ => cases he

/-- The code of an arithmetic expression. -/
theorem compileExpr_scratch {e : Expr P} (he : e.isArith = true) {cg cg' : Codegen P}
    (hregs : cg.VarRegsOk) {dest : ℕ} (hdest : dest ∈ scratchRegs)
    (htaken : cg.scratchAvail dest = false) (h : compileExpr e dest cg = .ok cg') :
    ∃ code, cg' = cg.emit code ∧ IsSequential code ∧
      ∀ env read vm, cg.Holds env vm → cg.Reads env read →
        Agree (fun vm' x => vm'.reg dest = x ∧ cg.Keeps dest vm vm') (vm.execList code)
          (e.eval s32Literal read) := by
  obtain ⟨code, hcode, hseq, hsim⟩ :=
    compileExpr_operand (e.isOperand_of_isArith he) hregs hdest htaken h
  refine ⟨code, hcode, hseq, fun env read vm henv hread => ?_⟩
  rw [e.eval_eq_value he]
  exact hsim env read vm henv hread

/-! ### Values -/

/-- A value of the language. -/
inductive IecValue (P : Platform)
  | int (n : ℤ)
  | real (x : P.F32)
  | lReal (x : P.F64)
  | bool (b : Bool)

/-- The value that a register stands for. -/
def iecValue : HalValue P → Option (IecValue P)
  | .bool b => some (.bool b)
  | .s8 n => some (.int n.toInt)
  | .u8 n => some (.int n.toNat)
  | .s16 n => some (.int n.toInt)
  | .u16 n => some (.int n.toNat)
  | .s32 n => some (.int n.toInt)
  | .u32 n => some (.int n.toNat)
  | .s64 n => some (.int n.toInt)
  | .u64 n => some (.int n.toNat)
  | .f32 x => some (.real x)
  | .f64 x => some (.lReal x)
  | _ => none

/-- The arithmetic operator. -/
def BinOp.toArithOp : BinOp → Option ArithOp
  | .add => some .add
  | .sub => some .sub
  | .mul => some .mul
  | .div => some .div
  | .mod => some .rem
  | _ => none

namespace IecValue

/-- An operation on two integers; the quotient is truncated. -/
def intArith (a b : ℤ) : ArithOp → Option ℤ
  | .add => some (a + b)
  | .sub => some (a - b)
  | .mul => some (a * b)
  | .div => if b = 0 then none else some (a.tdiv b)
  | .rem => if b = 0 then none else some (a.tmod b)

/-- An operation on two values of one kind. -/
def arith (op : BinOp) (a b : IecValue P) : Option (IecValue P) := do
  let op ← op.toArithOp
  match a, b with
  | .int a, .int b => int <$> intArith a b op
  | .real a, .real b => some (real (P.f32.arith op a b))
  | .lReal a, .lReal b => some (lReal (P.f64.arith op a b))
  | _, _ => none

/-- The unary minus. -/
def neg : IecValue P → Option (IecValue P)
  | .int a => some (int (-a))
  | .real a => some (real (P.f32.neg a))
  | .lReal a => some (lReal (P.f64.neg a))
  | .bool _ => none

/-- What a comparison says of two values that are equal or not, and ordered in some way. -/
def holds (eq : Bool) (ord : Option Ordering) : BinOp → Bool
  | .neq => !eq
  | .gt => ord == some .gt
  | .lt => ord == some .lt
  | .gte => ord == some .gt || ord == some .eq
  | .lte => ord == some .lt || ord == some .eq
  | _ => eq

/-- The comparison of two values of one kind. -/
def compare (op : BinOp) : IecValue P → IecValue P → Option Bool
  | .int a, .int b => some (holds (decide (a = b)) (some (Ord.compare a b)) op)
  | .real a, .real b => some (holds (P.f32.eq a b) (P.f32.cmp a b) op)
  | .lReal a, .lReal b => some (holds (P.f64.eq a b) (P.f64.cmp a b) op)
  | .bool a, .bool b => some (holds (a == b) (some (Ord.compare a b)) op)
  | _, _ => none

end IecValue

/-! ### Conditions -/

/-- Is a variable of type `LREAL` among the operands? -/
def Expr.hasLReal (varTypes : String → Option VarType) : Expr P → Bool
  | .variable name => varTypes name = some .lReal
  | .binary left _ right => left.hasLReal varTypes || right.hasLReal varTypes
  | .unary _ inner => inner.hasLReal varTypes
  | _ => false

/-- The meaning of operands, with real literals of one of the two precisions. -/
def iec (double : Bool) (env : String → HalValue P) : Semantics P Option (IecValue P) where
  int n := .int n.toInt
  real x := if double then .lReal x else .real (P.narrow x)
  bool := .bool
  read name := iecValue (env name)
  arith := IecValue.arith
  neg := IecValue.neg

/-- The truth value of a condition, where it has one. -/
def Expr.truth (varTypes : String → Option VarType) (env : String → HalValue P) :
    Expr P → Option Bool
  | .binary left .and right => do
      let a ← left.truth varTypes env
      let b ← right.truth varTypes env
      pure (a && b)
  | .binary left .or right => do
      let a ← left.truth varTypes env
      let b ← right.truth varTypes env
      pure (a || b)
  | .unary .not inner => do
      let a ← inner.truth varTypes env
      pure (!a)
  | .binary left op right => do
      let S := iec (left.hasLReal varTypes || right.hasLReal varTypes) env
      let a ← left.value S
      let b ← right.value S
      IecValue.compare op a b
  | .variable name => some (Vm.asBool (env name))
  | .boolLiteral b => some b
  | _ => none

/-- The expression is built from comparisons of operands, boolean variables and boolean
literals with `AND`, `OR` and `NOT`. -/
def Expr.isCondition (varTypes : String → Option VarType) : Expr P → Bool
  | .binary left .and right | .binary left .or right =>
      left.isCondition varTypes && right.isCondition varTypes
  | .unary .not inner => inner.isCondition varTypes
  | .binary left op right => op.isCmp && left.isOperand && right.isOperand
  | .variable name => varTypes name = some .bool
  | .boolLiteral _ => true
  | _ => false

end Weftik.St
