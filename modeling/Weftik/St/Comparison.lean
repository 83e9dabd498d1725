import Weftik.St.Assignment
import Weftik.St.Condition
import Weftik.St.Layout

/-!
# Comparisons as Values

Where a comparison is not a condition but a value, its code compares the two operands, loads
`FALSE`, and jumps over a second load, of `TRUE`, when the flag is set. The flag is set when
the comparison holds, so that the value is the negation of the comparison.

## Main definitions

* `Compares`: the truth value of a comparison of two numbers of one type.
* `comparisonCode`: the last instructions of a comparison.
* `Expr.Within`: an expression as a part of another.

## Main results

* `compileCmpExpr_ok`: the code of a comparison ends with these instructions.
* `comparisonCode_steps`: they leave the negation.
* `comparison_inverted`: so does each comparison in the expression of an assignment, and an
  assignment of a comparison stores the negation.
-/

open Outcome Machine Code

namespace Weftik

variable {P : Platform}

/-- A value of one of the types that are ordered. -/
def HalValue.isNumber : HalValue P → Bool
  | .s8 _ | .u8 _ | .s16 _ | .u16 _ | .s32 _ | .u32 _ | .s64 _ | .u64 _ | .f32 _ | .f64 _ => true
  | _ => false

namespace St

open Codegen

/-! ### The truth of a comparison -/

/-- The two values are numbers of one type, and `t` is the truth value of the comparison. -/
structure Compares (op : BinOp) (x y : HalValue P) (t : Bool) : Prop where
  number : x.isNumber = true
  sameType : x.pinType = y.pinType
  truth : (do
    let a ← iecValue x
    let b ← iecValue y
    IecValue.compare op a b) = some t

theorem compareFn_holds (op : BinOp) {x y : HalValue P} {eq : Bool} {ord : Option Ordering}
    (heq : x.beq y = eq) (hord : x.partialCmp y = ord) :
    Vm.compareFn (cmpOpcode op) x y = IecValue.holds eq ord op := by
  subst heq hord
  cases op <;> rfl

/-- The machine compares two numbers of one type as the language does. -/
theorem Compares.flag {op : BinOp} {x y : HalValue P} {t : Bool} (h : Compares op x y t) :
    Vm.compareFn (cmpOpcode op) x y = t := by
  obtain ⟨hnumber, htype, htruth⟩ := h
  -- An array has the tag of its elements, and no value in the language.
  cases x <;> cases hnumber <;> cases y <;> cases htype <;> cases htruth <;>
    refine compareFn_holds op ?_ ?_
  all_goals
    simp only [HalValue.beq, HalValue.partialCmp, Bool.beq_eq_decide_eq, compare,
      compareOfLessAndEq, Int8.lt_iff_toInt_lt, ← Int8.toInt_inj, Int16.lt_iff_toInt_lt,
      ← Int16.toInt_inj, Int32.lt_iff_toInt_lt, ← Int32.toInt_inj, Int64.lt_iff_toInt_lt,
      ← Int64.toInt_inj, UInt8.lt_iff_toNat_lt, ← UInt8.toNat_inj, UInt16.lt_iff_toNat_lt,
      ← UInt16.toNat_inj, UInt32.lt_iff_toNat_lt, ← UInt32.toNat_inj, UInt64.lt_iff_toNat_lt,
      ← UInt64.toNat_inj, Nat.cast_lt, Nat.cast_inj]

/-! ### The code of a comparison -/

/-- The last instructions of a comparison, where the first of them has the index `start`. -/
def comparisonCode (op : BinOp) (ls rs dest start : ℕ) : List (Instruction P) :=
  [.cmp (cmpOpcode op) ls rs, .loadImm dest (.bool false),
    .jumpIf (UInt32.ofNat (start + 4)), .loadImm dest (.bool true)]

variable {cg cg' : Codegen P} {compileLeft compileRight : ℕ → Compiler P}

/-- A comparison has the instructions of `compileCmp` and three others, of which the second
jumps behind the third. -/
theorem compileCmpExpr_ok {op : BinOp} {dest : ℕ}
    (h : compileCmpExpr compileLeft compileRight op dest cg = .ok cg')
    (hsize : cg'.instructions.length < 2 ^ 32) :
    ∃ cg₁, compileCmp compileLeft compileRight op cg = .ok cg₁ ∧
      cg' = cg₁.emit [.loadImm dest (.bool false),
        .jumpIf (UInt32.ofNat (cg₁.instructions.length + 3)), .loadImm dest (.bool true)] := by
  obtain ⟨cg₁, hcmp, h⟩ := bind_eq_ok h
  refine ⟨cg₁, hcmp, ?_⟩
  obtain rfl := Except.ok.inj h
  rw [length_patchJump, length_emit, length_emit] at hsize
  simp only [List.length_cons, List.length_nil] at hsize
  have hidx : (cg₁.emit [.loadImm dest (.bool false)]).currentIdx.toNat =
      cg₁.instructions.length + 1 := by
    rw [currentIdx_toNat (by rw [length_emit]; simp only [List.length_singleton]; omega),
      length_emit, List.length_singleton]
  have hidx' : (cg₁.emit [.loadImm dest (.bool false)]).currentIdx.toNat =
      cg₁.instructions.length + [(.loadImm dest (.bool false) : Instruction P)].length := hidx
  have hpatch := patchJump_grow hidx' (UInt32.ofNat (cg₁.instructions.length + 3)) (.jumpIf 0)
    [.loadImm dest (.bool true)] []
  rw [← emit_eq_grow, ← emit_eq_grow] at hpatch
  rw [emit_emit]
  refine Eq.trans ?_ hpatch
  rw [currentIdx, length_emit]
  rfl

/-- The instruction that compares is the last one of `compileCmp`, and compares the registers
of the two operands. -/
theorem compileCmp_ok {op : BinOp} (h : compileCmp compileLeft compileRight op cg = .ok cg') :
    ∃ rs ls cg₁ cg₂ cg₃ cg₄, rs < 16 ∧ ls < 16 ∧ cg.allocScratch = .ok (rs, cg₁) ∧
      compileRight rs cg₁ = .ok cg₂ ∧ cg₂.allocScratch = .ok (ls, cg₃) ∧
      compileLeft ls cg₃ = .ok cg₄ ∧
      cg' = ((cg₄.emit [.cmp (cmpOpcode op) ls rs]).freeScratch ls).freeScratch rs := by
  obtain ⟨⟨rs, cg₁⟩, hrs, h⟩ := bind_eq_ok h
  obtain ⟨cg₂, hright, h⟩ := bind_eq_ok h
  obtain ⟨⟨ls, cg₃⟩, hls, h⟩ := bind_eq_ok h
  obtain ⟨cg₄, hleft, h⟩ := bind_eq_ok h
  exact ⟨rs, ls, cg₁, cg₂, cg₃, cg₄, (lt_of_mem_scratchRegs (allocScratch_ok hrs).1).2,
    (lt_of_mem_scratchRegs (allocScratch_ok hls).1).2, hrs, hright, hls, hleft,
    (Except.ok.inj h).symm⟩

section Run

variable {op : BinOp} {ls rs dest start : ℕ} {program : List (Instruction P)}
  {step : Vm P → Result (Vm P) Panic}

/-- The two loads and the jump leave the negation of the flag. -/
theorem loads_steps (hdest : dest < 16) (hlt : start + 3 < 2 ^ 32)
    (hcode : CodeAt program start [.loadImm dest (.bool false),
      .jumpIf (UInt32.ofNat (start + 3)), .loadImm dest (.bool true)])
    (hsame : ∀ vm : Vm P, start ≤ vm.ip → vm.ip < start + 3 → step vm = Vm.step program vm)
    {vm : Vm P} (hip : vm.ip = start) :
    ∃ vm', Steps step vm vm' ∧ vm'.ip = start + 3 ∧ vm'.reg dest = .bool (!vm.flagsZero) := by
  have hload : ∀ {vm : Vm P} (b : Bool), program[vm.ip]? = some (.loadImm dest (.bool b)) →
      start ≤ vm.ip → vm.ip < start + 3 →
      step vm = .next (vm.setReg dest (.bool b)).advanceIp := by
    intro vm b hinst hle hlt
    rw [hsame vm hle hlt]
    exact ((Vm.step_of_isSequential hinst rfl).1 _ (Vm.stepSeq_loadImm hdest _)).1
  have hfirst := hload false (by rw [hip]; exact hcode.head) hip.ge (by omega)
  have hjump : ∀ {vm : Vm P}, vm.ip = start + 1 →
      step vm = .next (if vm.flagsZero then vm.setIp (start + 3) else vm.advanceIp) := by
    intro vm hip
    have hinst : program[vm.ip]? = some (.jumpIf (UInt32.ofNat (start + 3))) := by
      rw [hip]
      exact hcode.tail.head
    have htarget : (UInt32.ofNat (start + 3)).toNat = start + 3 := UInt32.toNat_ofNat_of_lt' hlt
    rw [hsame vm (by omega) (by omega)]
    simp only [Vm.step, hinst]
    simp only [Vm.executeInstruction, Instruction.jumpIf, Vm.execJumpIf, Vm.jumpTarget, htarget]
    cases vm.flagsZero <;> rfl
  have hip₁ : ((vm.setReg dest (.bool false)).advanceIp).ip = start + 1 :=
    congrArg (· + 1) hip
  have hsecond := hjump hip₁
  rw [show ((vm.setReg dest (.bool false)).advanceIp).flagsZero = vm.flagsZero from rfl]
    at hsecond
  cases hflag : vm.flagsZero with
  | true =>
      rw [hflag, if_pos rfl] at hsecond
      refine ⟨_, (Steps.single hfirst).trans (Steps.single hsecond), rfl, ?_⟩
      rw [Vm.setIp_reg, Vm.advanceIp_reg, Vm.reg_setReg hdest, if_pos rfl]
      rfl
  | false =>
      rw [hflag, if_neg Bool.false_ne_true] at hsecond
      have hip₂ : ((vm.setReg dest (.bool false)).advanceIp.advanceIp).ip = start + 2 :=
        congrArg (· + 1) hip₁
      have hthird := hload true (by rw [hip₂]; exact hcode.tail.tail.head) (by omega) (by omega)
      refine ⟨_, ((Steps.single hfirst).trans (Steps.single hsecond)).trans
        (Steps.single hthird), congrArg (· + 1) hip₂, ?_⟩
      rw [Vm.advanceIp_reg, Vm.reg_setReg hdest, if_pos rfl]
      rfl

/-- From the instruction that compares on, the code leaves the negation of the comparison. -/
theorem comparisonCode_steps (hls : ls < 16) (hrs : rs < 16) (hdest : dest < 16)
    (hlt : start + 4 < 2 ^ 32) (hcode : CodeAt program start (comparisonCode op ls rs dest start))
    (hsame : ∀ vm : Vm P, start ≤ vm.ip → vm.ip < start + 4 → step vm = Vm.step program vm)
    {vm : Vm P} (hip : vm.ip = start) {t : Bool}
    (ht : Compares op (vm.reg ls) (vm.reg rs) t) :
    ∃ vm', Steps step vm vm' ∧ vm'.ip = start + 4 ∧ vm'.reg dest = .bool (!t) := by
  have hinst : program[vm.ip]? = some (.cmp (cmpOpcode op) ls rs) := by
    rw [hip]
    exact hcode.head
  have hsequential : (Instruction.cmp (cmpOpcode op) ls rs : Instruction P).opcode.isSequential =
      true := isSequential_cmp op ls rs _ List.mem_cons_self
  have hfirst := ((Vm.step_of_isSequential hinst hsequential).1 _
    (Vm.stepSeq_cmp (isCompare_cmpOpcode op) hls hrs)).1
  rw [← hsame vm hip.ge (by omega), ht.flag] at hfirst
  have hip₁ : ((vm.setFlagsZero t).advanceIp).ip = start + 1 := congrArg (· + 1) hip
  obtain ⟨vm', hsteps, hip', hreg⟩ := loads_steps hdest hlt hcode.tail
    (fun vm hle hlt => hsame vm (by omega) hlt) hip₁
  exact ⟨vm', (Steps.single hfirst).trans hsteps, hip', hreg⟩

end Run

/-! ### Running to an index -/

/-- The machine gets to the index, for the first time, in such a state. -/
def Reaches (program : List (Instruction P)) (stop : ℕ) (vm : Vm P) (Q : Vm P → Prop) : Prop :=
  ∃ vm', Exec (within (fun v => v.ip != stop) (Vm.step program)) vm (.ok vm') ∧ Q vm'

/-- The machine gets there in one state only. -/
theorem Reaches.unique {program : List (Instruction P)} {stop : ℕ} {vm : Vm P}
    {Q Q' : Vm P → Prop} (h : Reaches program stop vm Q) (h' : Reaches program stop vm Q') :
    ∃ vm', Q vm' ∧ Q' vm' := by
  obtain ⟨vm₁, hexec, hQ⟩ := h
  obtain ⟨vm₂, hexec', hQ'⟩ := h'
  obtain rfl := Except.ok.inj (hexec.deterministic hexec')
  exact ⟨vm₁, hQ, hQ'⟩

/-- From this state the machine leaves the negation of `t` and not `t`. -/
def Inverted (program : List (Instruction P)) (stop : ℕ) (vm : Vm P)
    (leaves : Vm P → Bool → Prop) (t : Bool) : Prop :=
  Reaches program stop vm (fun vm' => leaves vm' (!t)) ∧
    ¬ Reaches program stop vm (fun vm' => leaves vm' t)

/-- The code of a comparison, from the state `cg` of the code generator to an index, leaves
the negation: of what is compared, for operands of any kind, and of the comparison of the
values, for operands that can be computed from the variables. -/
structure Inverts (program : List (Instruction P)) (op : BinOp) (left right : Expr P)
    (cg : Codegen P) (stop : ℕ) (leaves : Vm P → Bool → Prop) : Prop where
  compared : ∃ rs ls cg₁ cg₂ cg₃ cg₄, Grows cg cg₁ ∧ compileExpr right rs cg₁ = .ok cg₂ ∧
    Grows cg₂ cg₃ ∧ compileExpr left ls cg₃ = .ok cg₄ ∧
    program[cg₄.instructions.length]? = some (.cmp (cmpOpcode op) ls rs) ∧
    ∀ (vm : Vm P) t, vm.ip = cg₄.instructions.length → Compares op (vm.reg ls) (vm.reg rs) t →
      Inverted program stop vm leaves t
  computed : left.isOperand = true → right.isOperand = true →
    ∀ (env : String → HalValue P) (vm : Vm P) x y t, vm.ip = cg.instructions.length →
      cg.Holds env vm → left.value (machine (readCopy cg.varTypes env)) = .ok x →
      right.value (machine (readCopy cg.varTypes env)) = .ok y → Compares op x y t →
      Inverted program stop vm leaves t

/-- The code that the code generator has emitted between two states. -/
def Codegen.since (cg cg' : Codegen P) : List (Instruction P) :=
  cg'.instructions.drop cg.instructions.length

@[simp] theorem Codegen.since_emit (cg : Codegen P) (code : List (Instruction P)) :
    cg.since (cg.emit code) = code :=
  List.drop_left

/-- A program that has some code has the parts of it. -/
theorem Grows.codeAt_since {cg₁ cg₂ : Codegen P} (h₁ : Grows cg cg₁) (h₂ : Grows cg₁ cg₂)
    (h₃ : Grows cg₂ cg') (hsize : cg'.instructions.length < 2 ^ 32)
    {program : List (Instruction P)}
    (hcode : CodeAt program cg.instructions.length (cg.since cg')) :
    CodeAt program cg₁.instructions.length (cg₁.since cg₂) := by
  have hle₂ := h₂.length_le
  have hle₃ := h₃.length_le
  obtain ⟨part₁, hpart₁⟩ := h₁.code (by omega)
  obtain ⟨part₂, hpart₂⟩ := h₂.code (by omega)
  obtain ⟨part₃, hpart₃⟩ := h₃.code hsize
  rw [Codegen.since, ← hpart₃, ← hpart₂, ← hpart₁, List.append_assoc, List.append_assoc,
    List.drop_left, codeAt_append, codeAt_append] at hcode
  rw [Codegen.since, ← hpart₂, List.drop_left, ← hpart₁, List.length_append]
  exact hcode.2.1

theorem Codegen.instructions_freeScratch (cg : Codegen P) (s : ℕ) :
    (cg.freeScratch s).instructions = cg.instructions := by
  rw [freeScratch]
  split <;> rfl

/-- The code of a comparison leaves the negation, when what comes after it keeps the value. -/
theorem compileCmpExpr_inverts {op : BinOp} {left right : Expr P} {dest stop : ℕ}
    (hregs : cg.VarRegsOk) (hdest : dest < 16)
    (h : compileCmpExpr (compileExpr left) (compileExpr right) op dest cg = .ok cg')
    (hsize : cg'.instructions.length < 2 ^ 32) {program : List (Instruction P)}
    (hcode : CodeAt program cg.instructions.length (cg.since cg'))
    (hstop : cg'.instructions.length ≤ stop) {leaves : Vm P → Bool → Prop}
    (hfinish : ∀ (vm : Vm P) b, vm.ip = cg'.instructions.length → vm.reg dest = .bool b →
        Reaches program stop vm (fun vm' => leaves vm' b))
    (hleaves : ∀ vm b, leaves vm b → ¬ leaves vm (!b)) :
    Inverts program op left right cg stop leaves := by
  have hinverted : ∀ (vm vm' : Vm P) (t : Bool),
      Steps (within (fun v : Vm P => v.ip != stop) (Vm.step program)) vm vm' →
      vm'.ip = cg'.instructions.length → vm'.reg dest = .bool (!t) →
      Inverted program stop vm leaves t := by
    intro vm vm' t hsteps hip hreg
    obtain ⟨vm₁, hexec, hQ⟩ := hfinish vm' (!t) hip hreg
    have hreaches : Reaches program stop vm (fun vm' => leaves vm' (!t)) :=
      ⟨vm₁, Exec.of_steps hsteps hexec, hQ⟩
    refine ⟨hreaches, fun htrue => ?_⟩
    obtain ⟨vm₂, hnot, ht⟩ := hreaches.unique htrue
    exact hleaves vm₂ t ht hnot
  obtain ⟨cg₁, hcmp, rfl⟩ := compileCmpExpr_ok h hsize
  have hgrows : Grows cg cg₁ :=
    grows_compileCmp (fun _ => grows_compileExpr) (fun _ => grows_compileExpr) hcmp
  have hsame : ∀ vm : Vm P, vm.ip < cg₁.instructions.length + 3 →
      within (fun v : Vm P => v.ip != stop) (Vm.step program) vm = Vm.step program vm := by
    intro vm hlt
    rw [length_emit] at hstop
    exact within_of_inside (bne_iff_ne.mpr (by simp only [List.length_cons] at hstop; omega))
  have hlength : (cg₁.emit [.loadImm dest (.bool false),
      .jumpIf (UInt32.ofNat (cg₁.instructions.length + 3)),
      .loadImm dest (.bool true)]).instructions.length = cg₁.instructions.length + 3 :=
    length_emit ..
  rw [hlength] at hinverted
  refine ⟨?_, fun hl hr env vm x y t hip henv hx hy ht => ?_⟩
  · obtain ⟨rs, ls, cg₂, cg₃, cg₄, cg₅, hrs, hls, hrsAlloc, hright, hlsAlloc, hleft, rfl⟩ :=
      compileCmp_ok hcmp
    have hlength₅ : (((cg₅.emit [.cmp (cmpOpcode op) ls rs]).freeScratch ls).freeScratch
        rs).instructions = cg₅.instructions ++ [.cmp (cmpOpcode op) ls rs] := by
      rw [instructions_freeScratch, instructions_freeScratch]
      rfl
    have hgrows₂ := (Grows.refl cg).alloc hrsAlloc
    have hgrows₄ := (Grows.refl cg₃).alloc hlsAlloc
    have hgrows₅ := ((hgrows₂.trans (grows_compileExpr hright)).trans hgrows₄).trans
      (grows_compileExpr hleft)
    have hat := hgrows₅.codeAt_since
      (((((Grows.refl cg₅).emit [.cmp (cmpOpcode op) ls rs]).free ls).free rs).emit _)
      (Grows.refl _) hsize hcode
    rw [Codegen.since, Codegen.emit, hlength₅, List.append_assoc, List.drop_left,
      List.length_append, List.length_singleton] at hat
    rw [hlength₅, List.length_append, List.length_singleton] at hinverted hsame
    refine ⟨rs, ls, cg₂, cg₃, cg₄, cg₅, hgrows₂, hright, hgrows₄, hleft, hat.head, ?_⟩
    intro vm t hip ht
    rw [hlength, hlength₅, List.length_append, List.length_singleton] at hsize
    obtain ⟨vm', hsteps, hip', hreg⟩ := comparisonCode_steps hls hrs hdest (by omega) hat
      (fun vm _ hlt => hsame vm hlt) hip ht
    exact hinverted vm vm' t hsteps hip' hreg
  · have hloads := hgrows.codeAt_since (Grows.of_emit cg₁ _) (Grows.refl _) hsize hcode
    have hoperands := (Grows.refl cg).codeAt_since hgrows (Grows.of_emit cg₁ _) hsize hcode
    obtain ⟨code, rfl, hseq, hsim⟩ := compileCmp_spec hl hr hregs hcmp
    rw [hlength] at hsize
    rw [since_emit] at hloads hoperands
    have hagree := hsim env vm henv
    rw [hx, hy, ok_bind, ok_bind] at hagree
    obtain ⟨vm₁, hvm₁, hflag, -⟩ := hagree.of_ok_right
    have hfollows := Vm.follows_execList hseq (hip ▸ hoperands) fun vm' hle hlt =>
      hsame vm' (by rw [length_emit]; omega)
    rw [hvm₁] at hfollows
    obtain ⟨vm₂, hsteps, rfl, hip₂⟩ := hfollows
    have hip₁ : vm₂.ip = (cg.emit code).instructions.length := by rw [hip₂, hip, length_emit]
    obtain ⟨vm₃, hsteps₃, hip₃, hreg⟩ :=
      loads_steps hdest hsize hloads (fun vm' _ hlt => hsame vm' hlt) hip₁
    rw [hflag, ht.flag] at hreg
    exact hinverted vm vm₃ t (hsteps.trans hsteps₃) hip₃ hreg

/-! ### Comparisons in an expression -/

/-- The first expression is the second one, or an operand in it. -/
inductive Expr.Within (c : Expr P) : Expr P → Prop
  | refl : Within c c
  | left {e right : Expr P} {op : BinOp} (h : Within c e) : Within c (.binary e op right)
  | right {e left : Expr P} {op : BinOp} (h : Within c e) : Within c (.binary left op e)
  | unary {e : Expr P} {op : UnaryOp} (h : Within c e) : Within c (.unary op e)
  | index {e : Expr P} {name : String} (h : Within c e) : Within c (.arrayAccess name e)

/-- Where an expression is compiled, each operand in it is. -/
theorem compileExpr_within {c e : Expr P} (hin : c.Within e) {dest : ℕ} (hdest : dest < 16)
    (h : compileExpr e dest cg = .ok cg') :
    ∃ d cg₁ cg₂, d < 16 ∧ compileExpr c d cg₁ = .ok cg₂ ∧ Grows cg cg₁ ∧ Grows cg₂ cg' := by
  have hscratch : ∀ {cg₁ cg₂ : Codegen P} {s : ℕ}, cg₁.allocScratch = .ok (s, cg₂) → s < 16 :=
    fun halloc => (lt_of_mem_scratchRegs (allocScratch_ok halloc).1).2
  induction hin generalizing dest cg cg' with
  | refl => exact ⟨dest, cg, cg', hdest, h, .refl cg, .refl cg'⟩
  | @left e right op _ ih =>
      rw [compileExpr] at h
      split at h
      · obtain ⟨cg₁, hleft, h⟩ := bind_eq_ok h
        obtain ⟨⟨s, cg₂⟩, halloc, h⟩ := bind_eq_ok h
        obtain ⟨cg₃, hright, h⟩ := bind_eq_ok h
        cases h
        obtain ⟨d, cg₄, cg₅, hd, hc, hbefore, hafter⟩ := ih hdest hleft
        exact ⟨d, cg₄, cg₅, hd, hc, hbefore,
          (((hafter.alloc halloc).trans (grows_compileExpr hright)).emit _).free s⟩
      · split at h
        · obtain ⟨cg₁, hcmp, h⟩ := bind_eq_ok h
          obtain ⟨rs, ls, cg₂, cg₃, cg₄, cg₅, -, hls, hrsAlloc, hright, hlsAlloc, hleft, rfl⟩ :=
            compileCmp_ok hcmp
          cases h
          obtain ⟨d, cg₆, cg₇, hd, hc, hbefore, hafter⟩ := ih hls hleft
          have hgrows := ((((Grows.refl cg).alloc hrsAlloc).trans
            (grows_compileExpr hright)).alloc hlsAlloc).trans hbefore
          have hrest := (((hafter.emit [.cmp (cmpOpcode op) ls rs]).free ls).free rs).emit
            [.loadImm dest (.bool false)]
          exact ⟨d, cg₆, cg₇, hd, hc, hgrows,
            (hrest.emit _).patchSince hrest (Grows.of_emit _ _).length_le⟩
        · obtain ⟨⟨s, cg₁⟩, halloc, h⟩ := bind_eq_ok h
          obtain ⟨cg₂, hleft, h⟩ := bind_eq_ok h
          obtain ⟨cg₃, hright, h⟩ := bind_eq_ok h
          cases h
          obtain ⟨d, cg₄, cg₅, hd, hc, hbefore, hafter⟩ := ih hdest hleft
          exact ⟨d, cg₄, cg₅, hd, hc, ((Grows.refl cg).alloc halloc).trans hbefore,
            ((hafter.trans (grows_compileExpr hright)).emit _).free s⟩
  | @right e left op _ ih =>
      rw [compileExpr] at h
      split at h
      · obtain ⟨cg₁, hleft, h⟩ := bind_eq_ok h
        obtain ⟨⟨s, cg₂⟩, halloc, h⟩ := bind_eq_ok h
        obtain ⟨cg₃, hright, h⟩ := bind_eq_ok h
        cases h
        obtain ⟨d, cg₄, cg₅, hd, hc, hbefore, hafter⟩ := ih (hscratch halloc) hright
        exact ⟨d, cg₄, cg₅, hd, hc, ((grows_compileExpr hleft).alloc halloc).trans hbefore,
          (hafter.emit _).free s⟩
      · split at h
        · obtain ⟨cg₁, hcmp, h⟩ := bind_eq_ok h
          obtain ⟨rs, ls, cg₂, cg₃, cg₄, cg₅, hrs, -, hrsAlloc, hright, hlsAlloc, hleft, rfl⟩ :=
            compileCmp_ok hcmp
          cases h
          obtain ⟨d, cg₆, cg₇, hd, hc, hbefore, hafter⟩ := ih hrs hright
          have hgrows := ((Grows.refl cg).alloc hrsAlloc).trans hbefore
          have hoperand := (hafter.alloc hlsAlloc).trans (grows_compileExpr hleft)
          have hrest := (((hoperand.emit [.cmp (cmpOpcode op) ls rs]).free ls).free rs).emit
            [.loadImm dest (.bool false)]
          exact ⟨d, cg₆, cg₇, hd, hc, hgrows,
            (hrest.emit _).patchSince hrest (Grows.of_emit _ _).length_le⟩
        · obtain ⟨⟨s, cg₁⟩, halloc, h⟩ := bind_eq_ok h
          obtain ⟨cg₂, hleft, h⟩ := bind_eq_ok h
          obtain ⟨cg₃, hright, h⟩ := bind_eq_ok h
          cases h
          obtain ⟨d, cg₄, cg₅, hd, hc, hbefore, hafter⟩ := ih (hscratch halloc) hright
          exact ⟨d, cg₄, cg₅, hd, hc,
            (((Grows.refl cg).alloc halloc).trans (grows_compileExpr hleft)).trans hbefore,
            (hafter.emit _).free s⟩
  | @unary e op _ ih =>
      cases op with
      | neg =>
          obtain ⟨cg₁, hinner, h⟩ := bind_eq_ok h
          obtain ⟨⟨s, cg₂⟩, halloc, h⟩ := bind_eq_ok h
          cases h
          obtain ⟨d, cg₃, cg₄, hd, hc, hbefore, hafter⟩ := ih hdest hinner
          exact ⟨d, cg₃, cg₄, hd, hc, hbefore, ((hafter.alloc halloc).emit _).free s⟩
      | not =>
          obtain ⟨cg₁, hinner, h⟩ := bind_eq_ok h
          cases h
          obtain ⟨d, cg₃, cg₄, hd, hc, hbefore, hafter⟩ := ih hdest hinner
          exact ⟨d, cg₃, cg₄, hd, hc, hbefore, hafter.emit _⟩
  | @index e name _ ih =>
      obtain ⟨arrayReg, -, h⟩ := bind_eq_ok h
      obtain ⟨⟨s, cg₁⟩, halloc, h⟩ := bind_eq_ok h
      obtain ⟨cg₂, hindex, h⟩ := bind_eq_ok h
      cases h
      obtain ⟨d, cg₃, cg₄, hd, hc, hbefore, hafter⟩ := ih (hscratch halloc) hindex
      exact ⟨d, cg₃, cg₄, hd, hc, ((Grows.refl cg).alloc halloc).trans hbefore,
        (hafter.emit _).free s⟩

/-- A comparison is compiled as one. -/
theorem compileExpr_comparison {op : BinOp} (hop : op.isCmp = true) (left right : Expr P)
    (dest : ℕ) (cg : Codegen P) : compileExpr (.binary left op right) dest cg =
      compileCmpExpr (compileExpr left) (compileExpr right) op dest cg := by
  cases op <;> first | rfl | cases hop

/-! ### Assignments -/

/-- Each comparison in the expression of an assignment leaves its negation in a register, and
an assignment of a comparison leaves the negation in the register of the variable and stores
it under the name. -/
theorem comparison_inverted {op : BinOp} (hop : op.isCmp = true) {left right e : Expr P}
    (hin : (Expr.binary left op right).Within e) {name : String} {cg cg' : Codegen P}
    (hregs : cg.VarRegsOk) (h : compileStmt (.assign name e) cg = .ok cg')
    (hsize : cg'.instructions.length < 2 ^ 32) {program : List (Instruction P)}
    (hcode : CodeAt program cg.instructions.length (cg.since cg')) :
    (∃ d cg₁ cg₂, compileExpr (.binary left op right) d cg₁ = .ok cg₂ ∧ Grows cg cg₁ ∧
      Grows cg₂ cg' ∧ Inverts program op left right cg₁ cg₂.instructions.length
        fun vm b => vm.reg d = .bool b) ∧
    (e = .binary left op right → ∃ dest, cg.registers name = some dest ∧
      Inverts program op left right cg cg'.instructions.length
        fun vm b => vm.reg dest = .bool b ∧ vm.signals name = some (.bool b)) := by
  obtain ⟨-, -, h⟩ := bind_eq_ok h
  obtain ⟨dest, hdest, h⟩ := bind_eq_ok h
  obtain ⟨cg₁, hexpr, h⟩ := bind_eq_ok h
  cases h
  have hreg := varReg_ok hdest
  have hlt : dest < 16 := by
    have := hregs name dest hreg
    omega
  have hnot : ∀ {x : HalValue P} {b : Bool}, x = .bool b → x ≠ .bool (!b) := by
    rintro x b rfl heq
    cases b <;> cases heq
  refine ⟨?_, ?_⟩
  · obtain ⟨d, cg₂, cg₃, hd, hc, hbefore, hafter⟩ := compileExpr_within hin hlt hexpr
    have hafter' := hafter.emit [.storeSignal name dest]
    have hat := hbefore.codeAt_since (grows_compileExpr hc) hafter' hsize hcode
    have hregs₂ : cg₂.VarRegsOk := by
      rw [VarRegsOk, hbefore.registers]
      exact hregs
    refine ⟨d, cg₂, cg₃, hc, hbefore, hafter', ?_⟩
    rw [compileExpr_comparison hop] at hc
    refine compileCmpExpr_inverts hregs₂ hd hc (lt_of_le_of_lt hafter'.length_le hsize) hat le_rfl
      (fun vm b hip hvalue => ⟨vm, exec_within ?_, hvalue⟩) fun vm b => hnot
    rw [hip]
    exact bne_self_eq_false _
  · rintro rfl
    have hgrows := grows_compileExpr hexpr
    have hat := (Grows.refl cg).codeAt_since hgrows (Grows.of_emit cg₁ _) hsize hcode
    have hstore := hgrows.codeAt_since (Grows.of_emit cg₁ _) (Grows.refl _) hsize hcode
    rw [Codegen.since_emit] at hstore
    rw [compileExpr_comparison hop] at hexpr
    have hlength : (cg₁.emit [.storeSignal name dest]).instructions.length =
        cg₁.instructions.length + 1 := length_emit ..
    rw [hlength] at hsize ⊢
    refine ⟨dest, hreg, compileCmpExpr_inverts hregs hlt hexpr (by omega) hat (by omega)
      (fun vm b hip hvalue => ?_) fun vm b hb hb' => hnot hb.1 hb'.1⟩
    have hinst : program[vm.ip]? = some (.storeSignal name dest) := by
      rw [hip]
      exact hstore.head
    have hstep := ((Vm.step_of_isSequential hinst rfl).1 _ (Vm.stepSeq_storeSignal hlt name)).1
    rw [hvalue] at hstep
    have hinside : (vm.ip != cg₁.instructions.length + 1) = true := bne_iff_ne.mpr (by omega)
    have hwithin : within (fun v : Vm P => v.ip != cg₁.instructions.length + 1)
        (Vm.step program) vm = Vm.step program vm := within_of_inside hinside
    refine ⟨(vm.writeSignal name (.bool b)).advanceIp,
      .next (hwithin.trans hstep) (exec_within ?_), hvalue, Function.update_self ..⟩
    · rw [show ((vm.writeSignal name (.bool b)).advanceIp).ip = vm.ip + 1 from rfl, hip]
      exact bne_self_eq_false _

/-! ### Two values -/

/-- The code generator at the start of a program with `x` and `y` of type `DINT` and `r` of
type `BOOL`. -/
def comparing : Codegen Platform.exact where
  registers := declareRegisters
    (List.zipIdx [⟨"x", .dInt⟩, ⟨"y", .dInt⟩, ⟨"r", .bool⟩]) fun _ => none
  varTypes := declareTypes [⟨"x", .dInt⟩, ⟨"y", .dInt⟩, ⟨"r", .bool⟩] fun _ => none
  instructions := []
  scratchAvail := fun _ => true
  loopExits := []

/-- `r := x < y` -/
def lessThan : Statement Platform.exact :=
  .assign "r" (.binary (.variable "x") .lt (.variable "y"))

/-- The code of `r := x < y`. -/
def lessThanCode : List (Instruction Platform.exact) :=
  [.loadImm 14 (.s32 0), .arith .add 1 14 14, .loadImm 15 (.s32 0), .arith .add 0 15 15,
    .cmp .lt 15 14, .loadImm 2 (.bool false), .jumpIf 8, .loadImm 2 (.bool true),
    .storeSignal "r" 2]

/-- The machine with `x = 1` and `y = 2`. -/
def oneAndTwo : Vm Platform.exact := (Vm.new.setReg 0 (.s32 1)).setReg 1 (.s32 2)

/-- What the registers of the variables hold. -/
def Codegen.contents (cg : Codegen P) (vm : Vm P) (v : String) : HalValue P :=
  vm.reg ((cg.registers v).getD 0)

theorem Codegen.holds_contents (cg : Codegen P) (vm : Vm P) : cg.Holds (cg.contents vm) vm := by
  intro v r hr
  rw [contents, hr]
  rfl

theorem varRegsOk_comparing : comparing.VarRegsOk := by
  intro v r hr
  rcases declareRegisters_eq _ 0 _ v r hr with hnone | ⟨-, w, hw, -⟩
  · cases hnone
  · obtain ⟨hlt, -⟩ := List.getElem?_eq_some_iff.mp hw
    simp only [List.length_cons, List.length_nil] at hlt
    omega

/-- `1 < 2`, and the assignment stores `FALSE`. -/
theorem comparison_inverted_lessThan :
    ∃ cg', compileStmt lessThan comparing = .ok cg' ∧
      Inverted cg'.instructions cg'.instructions.length oneAndTwo
        (fun vm b => vm.reg 2 = .bool b ∧ vm.signals "r" = some (.bool b)) true := by
  obtain ⟨cg', hcompile⟩ : ∃ cg', compileStmt lessThan comparing = .ok cg' := ⟨_, rfl⟩
  have hsize : cg'.instructions.length < 2 ^ 32 := by
    cases hcompile
    decide
  have hcode : CodeAt cg'.instructions 0 (comparing.since cg') := List.prefix_rfl
  obtain ⟨-, hself⟩ := comparison_inverted rfl .refl varRegsOk_comparing hcompile hsize hcode
  obtain ⟨dest, hdest, hinverts⟩ := hself rfl
  cases hdest
  exact ⟨cg', hcompile, hinverts.computed rfl rfl (comparing.contents oneAndTwo) oneAndTwo
    (.s32 1) (.s32 2) true rfl (comparing.holds_contents oneAndTwo) rfl rfl ⟨rfl, rfl, rfl⟩⟩

/-- An assignment of a comparison does not store its truth value. -/
theorem lessThan_stores_false :
    ¬ ∀ (P : Platform) (op : BinOp) (left right : Expr P) (name : String) (cg cg' : Codegen P),
      op.isCmp = true → cg.VarRegsOk →
      compileStmt (.assign name (.binary left op right)) cg = .ok cg' →
      ∀ (env : String → HalValue P) (vm : Vm P) x y t, vm.ip = cg.instructions.length →
      cg.Holds env vm → left.value (machine (readCopy cg.varTypes env)) = .ok x →
      right.value (machine (readCopy cg.varTypes env)) = .ok y → Compares op x y t →
      Reaches cg'.instructions cg'.instructions.length vm
        fun vm' => vm'.signals name = some (.bool t) := by
  intro h
  obtain ⟨cg', hcompile⟩ : ∃ cg', compileStmt lessThan comparing = .ok cg' := ⟨_, rfl⟩
  have htrue := h .exact .lt (.variable "x") (.variable "y") "r" comparing cg' rfl
    varRegsOk_comparing hcompile (comparing.contents oneAndTwo) oneAndTwo (.s32 1) (.s32 2) true
    rfl (comparing.holds_contents oneAndTwo) rfl rfl ⟨rfl, rfl, rfl⟩
  have hfalse : Reaches cg'.instructions cg'.instructions.length oneAndTwo
      fun vm' => vm'.signals "r" = some (.bool false) := by
    have hcode : cg'.instructions = lessThanCode := by
      cases hcompile
      rfl
    rw [hcode]
    obtain ⟨vm', hrun, hr⟩ : ∃ vm', run (within (fun v => v.ip != lessThanCode.length)
        (Vm.step lessThanCode)) 10 oneAndTwo = some (.ok vm') ∧
          vm'.signals "r" = some (.bool false) := ⟨_, rfl, rfl⟩
    exact ⟨vm', exec_of_run hrun, hr⟩
  obtain ⟨vm', h₁, h₂⟩ := htrue.unique hfalse
  cases h₁.symm.trans h₂

end St

end Weftik
