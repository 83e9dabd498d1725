import Weftik.St.Expressions

/-!
# Sequences of ST Assignments

An assignment is compiled into the register of its target. The left operand of an operator
is then computed in that register, so that a right operand that reads the target finds what
the left operand left there. For variables of a type that is kept as `S32` the compiled
assignments compute the values of their expressions in every run in which no right operand
notices.

## Main definitions

* `refValue`, `refRun`: the values of expressions and the effect of assignments.
* `Expr.Undisturbed`, `UndisturbedRun`: no right operand notices the overwritten target.

## Main results

* `compileExpr_target`: the code of an expression into the register of a variable.
* `compileStmts_assigns`: the code of a sequence of assignments.
* `assignments_correct`: each assignment of a program leaves and stores its value.
-/

open Outcome Machine

namespace Weftik.St

open Codegen

variable {P : Platform}

/-- The value of an integer literal at an integer type. -/
def VarType.literal (vt : VarType) (n : Int64) : HalValue P :=
  match vt.pinType with
  | .s8 => .s8 (MachineInt.ofInt n.toInt)
  | .u8 => .u8 (MachineInt.ofInt n.toInt)
  | .s16 => .s16 (MachineInt.ofInt n.toInt)
  | .u16 => .u16 (MachineInt.ofInt n.toInt)
  | .u32 => .u32 (MachineInt.ofInt n.toInt)
  | .s64 => .s64 (MachineInt.ofInt n.toInt)
  | _ => .s32 (MachineInt.ofInt n.toInt)

/-- The value of an arithmetic expression over variables of one type. -/
def refValue (vt : VarType) (env : String → HalValue P) (e : Expr P) :
    Except Panic (HalValue P) :=
  e.eval vt.literal fun v => pure (env v)

/-- An assignment: its target and its expression. -/
abbrev Assign (P : Platform) := String × Expr P

/-- The statement of an assignment. -/
def Assign.stmt (a : Assign P) : Statement P := .assign a.1 a.2

/-- The values of the variables after an assignment. -/
def refStep (vt : VarType) (env : String → HalValue P) (a : Assign P) :
    Except Panic (String → HalValue P) := do
  let x ← refValue vt env a.2
  pure (Function.update env a.1 x)

/-- The values of the variables after some assignments. -/
def refRun (vt : VarType) (env : String → HalValue P) (assigns : List (Assign P)) :
    Except Panic (String → HalValue P) :=
  assigns.foldlM (refStep vt) env

/-- Each right operand has the same value when the target has been overwritten with the
value of the left operand. A left operand that is the target itself overwrites nothing. -/
def Expr.Undisturbed (vt : VarType) (target : String) (env : String → HalValue P) :
    Expr P → Prop
  | .binary left _ right => left.Undisturbed vt target env ∧
      (left = .variable target ∨ ∀ a, refValue vt env left = .ok a →
        refValue vt (Function.update env target a) right = refValue vt env right)
  | .unary _ inner => inner.Undisturbed vt target env
  | _ => True

/-- Every assignment of a run is undisturbed, as far as the run goes without a panic. -/
def UndisturbedRun (vt : VarType) : (String → HalValue P) → List (Assign P) → Prop
  | _, [] => True
  | env, a :: assigns => a.2.Undisturbed vt a.1 env ∧
      ∀ env', refStep vt env a = .ok env' → UndisturbedRun vt env' assigns

/-! ### Values of type `S32` -/

/-- All variables are kept as `S32`. -/
def AllS32 (env : String → HalValue P) : Prop := ∀ v, ∃ n, env v = .s32 n

theorem AllS32.update {env : String → HalValue P} (h : AllS32 env) (v : String) (n : Int32) :
    AllS32 (Function.update env v (.s32 n)) := by
  intro w
  by_cases hw : w = v
  · exact ⟨n, by rw [hw, Function.update_self]⟩
  · rw [Function.update_of_ne hw]
    exact h w

/-- A literal of a type that is kept as `S32`. -/
theorem literal_eq {vt : VarType} (h : vt.pinType = .s32) (n : Int64) :
    (vt.literal n : HalValue P) = s32Literal n := by
  rw [VarType.literal, h]
  rfl

/-- Adding the zero of its type copies a value of type `S32`. -/
theorem binop_add_zero {vt : VarType} (h : vt.pinType = .s32) (n : Int32) :
    HalValue.binop .add (.s32 n) (vt.zero : HalValue P) = .ok (.s32 n) := by
  have hzero : (vt.zero : HalValue P) = .s32 0 := by
    cases vt <;> first | rfl | cases h
  have hrange : (-2 ^ 31 ≤ n.toInt + 0 ∧ n.toInt + 0 ≤ 2 ^ 31 - 1) ∨
      P.overflowChecks = false := by
    left
    have hle := n.le_toInt
    have hlt := n.toInt_lt
    omega
  have hchecked : (checked P (n.toInt + 0) : Except Panic Int32) = .ok n := by
    rw [Int.add_zero] at hrange ⊢
    exact (if_pos hrange).trans (congrArg Except.ok (Int32.ofInt_toInt n))
  rw [hzero]
  exact congrArg (HalValue.s32 <$> ·) hchecked

/-- An operation on two values of type `S32` gives one. -/
theorem arithFn_s32 {op : BinOp} {opcode : Opcode} (hop : opToArithOpcode op = some opcode)
    (a b : Int32) {x : HalValue P} (h : Vm.arithFn opcode (.s32 a) (.s32 b) = .ok x) :
    ∃ n, x = .s32 n := by
  have hbinop : ∀ {op : ArithOp}, HalValue.binop op (.s32 a) (.s32 b) = .ok x →
      ∃ n, x = .s32 n := by
    intro op h
    obtain ⟨n, -, rfl⟩ := map_eq_ok h
    exact ⟨n, rfl⟩
  have hdivision : ∀ {op : ArithOp}, Vm.guardedDivision op (.s32 a) (.s32 b) = .ok x →
      ∃ n, x = .s32 n := by
    intro op h
    rw [Vm.guardedDivision] at h
    split at h
    · cases h
      exact ⟨0, rfl⟩
    · exact hbinop h
  cases op <;> cases hop <;> first | exact hbinop h | exact hdivision h

/-- An expression over variables of type `S32` has such a value. -/
theorem eval_s32 {env : String → HalValue P} (henv : AllS32 env) {e : Expr P}
    (he : e.isArith = true) {x : HalValue P}
    (h : e.eval s32Literal (fun v => pure (env v)) = .ok x) : ∃ n, x = .s32 n := by
  induction e generalizing x with
  | intLiteral n =>
      cases h
      exact ⟨_, rfl⟩
  | «variable» v =>
      cases h
      exact henv v
  | binary left op right ihl ihr =>
      simp only [Expr.isArith, Bool.and_eq_true] at he
      obtain ⟨⟨hop, hl⟩, hr⟩ := he
      obtain ⟨opcode, hopcode⟩ := Option.isSome_iff_exists.mp hop
      obtain ⟨a, ha, h⟩ := bind_eq_ok h
      obtain ⟨b, hb, h⟩ := bind_eq_ok h
      obtain ⟨m, rfl⟩ := ihl hl ha
      obtain ⟨n, rfl⟩ := ihr hr hb
      rw [hopcode] at h
      exact arithFn_s32 hopcode m n h
  | unary op inner ih =>
      cases op with
      | not => cases he
      | neg =>
          obtain ⟨a, ha, h⟩ := bind_eq_ok h
          obtain ⟨n, rfl⟩ := ih he ha
          have hsub : opToArithOpcode .sub = some .sub := rfl
          exact arithFn_s32 hsub _ n h
  | _ => cases he

/-! ### Code into the register of the target -/

/-- Each variable of the program has a register of its own, and the type `vt`. -/
structure Allocated (cg : Codegen P) (vt : VarType) : Prop where
  varRegsOk : cg.VarRegsOk
  inj : ∀ v w r, cg.registers v = some r → cg.registers w = some r → v = w
  type : ∀ v r, cg.registers v = some r → cg.varTypes v = some vt

namespace Allocated

variable {cg : Codegen P} {vt : VarType} {env : String → HalValue P} {t : String} {dest : ℕ}
  {vm vm' : Vm P}

theorem emit (h : Allocated cg vt) (code : List (Instruction P)) :
    Allocated (cg.emit code) vt :=
  ⟨h.varRegsOk, h.inj, h.type⟩

/-- The code reads the variables as they are. -/
theorem reads (h : Allocated cg vt) (hvt : vt.pinType = .s32) (henv : AllS32 env) :
    cg.Reads env fun v => pure (env v) := by
  intro v r hr
  obtain ⟨n, hn⟩ := henv v
  rw [readCopy, h.type v r hr]
  simp only [hn]
  exact (binop_add_zero hvt n).symm

/-- The register of the target has got a value, and the other registers are as before. -/
theorem holds_update (h : Allocated cg vt) (ht : cg.registers t = some dest)
    (henv : cg.Holds env vm) (hkeeps : cg.Keeps dest vm vm') {x : HalValue P}
    (hx : vm'.reg dest = x) : cg.Holds (Function.update env t x) vm' := by
  intro v r hr
  by_cases hv : v = t
  · subst hv
    obtain rfl : r = dest := Option.some.inj (hr.symm.trans ht)
    rw [hx, Function.update_self]
  · have hne : r ≠ dest := by
      rintro rfl
      exact hv (h.inj v t r hr ht)
    have hlt := h.varRegsOk v r hr
    rw [Function.update_of_ne hv, hkeeps.reg r _ hne]
    · exact henv v r hr
    · intro hmem
      have := (lt_of_mem_scratchRegs hmem).1
      omega

end Allocated

/-- The code of an expression into the register of a variable leaves its value there, when no
right operand notices that the register is overwritten. -/
theorem compileExpr_target {vt : VarType} (hvt : vt.pinType = .s32) {e : Expr P}
    (he : e.isArith = true) {cg cg' : Codegen P} (hcg : Allocated cg vt) {t : String}
    {dest : ℕ} (ht : cg.registers t = some dest) (h : compileExpr e dest cg = .ok cg') :
    ∃ code, cg' = cg.emit code ∧ IsSequential code ∧
      ∀ env vm, cg.Holds env vm → AllS32 env → e.Undisturbed vt t env →
        Agree (fun vm' x => vm'.reg dest = x ∧ cg.Keeps dest vm vm') (vm.execList code)
          (e.eval s32Literal fun v => pure (env v)) := by
  have hdest := hcg.varRegsOk t dest ht
  have hlt : dest < 16 := by omega
  have hnotScratch : dest ∉ scratchRegs := fun hmem => by
    have := (lt_of_mem_scratchRegs hmem).1
    omega
  have hliteral : (vt.literal : Int64 → HalValue P) = s32Literal :=
    funext (literal_eq hvt)
  induction e generalizing cg' with
  | intLiteral n =>
      cases h
      refine ⟨_, rfl, isSequential_of_all rfl, fun env vm _ _ _ => ?_⟩
      rw [Vm.execList_cons, Vm.stepSeq_loadImm hlt]
      refine ⟨?_, .setReg hlt _⟩
      rw [Vm.advanceIp_reg, Vm.reg_setReg hlt, if_pos rfl]
      rfl
  | «variable» name =>
      obtain ⟨src, hsrc, h⟩ := bind_eq_ok h
      have hreg := varReg_ok hsrc
      by_cases hne : src ≠ dest
      · rw [if_pos hne] at h
        cases h
        have hsrclt := hcg.varRegsOk name src hreg
        refine ⟨_, rfl, isSequential_of_all rfl, fun env vm henv hs32 _ => ?_⟩
        rw [Vm.execList_cons, Vm.stepSeq_loadImm hlt, ok_bind, Vm.execList_arith rfl
          (by omega) hlt hlt, Vm.advanceIp_reg, Vm.advanceIp_reg, Vm.reg_setReg hlt,
          Vm.reg_setReg hlt, if_neg hne, if_pos rfl, henv name src hreg]
        have hread : pure (env name) = readCopy cg.varTypes env name :=
          hcg.reads hvt hs32 name src hreg
        rw [Expr.eval, hread]
        exact agree_setReg hlt (fun x => (Keeps.setReg hlt _).trans (.setReg hlt x)) _
      · rw [if_neg hne] at h
        cases h
        obtain rfl := not_not.mp hne
        refine ⟨[], ?_, isSequential_of_all rfl, fun env vm henv _ _ => ?_⟩
        · rw [Codegen.emit, List.append_nil]
        · exact ⟨henv name src hreg, .refl cg src vm⟩
  | binary left op right ihl ihr =>
      simp only [Expr.isArith, Bool.and_eq_true] at he
      obtain ⟨⟨hop, hl⟩, hr⟩ := he
      obtain ⟨arithOp, harith⟩ := Option.isSome_iff_exists.mp hop
      rw [compileExpr, harith] at h
      obtain ⟨cg₁, hleft, h⟩ := bind_eq_ok h
      obtain ⟨⟨s, cg₂⟩, halloc, h⟩ := bind_eq_ok h
      obtain ⟨cg₃, hright, h⟩ := bind_eq_ok h
      cases h
      obtain ⟨code₁, rfl, hseq₁, hsim₁⟩ := ihl hl hleft
      obtain ⟨hs, havail, rfl⟩ := allocScratch_ok halloc
      have hregs₂ : ((cg.emit code₁).taken s).VarRegsOk := hcg.varRegsOk
      obtain ⟨code₂, rfl, hseq₂, hsim₂⟩ :=
        compileExpr_scratch hr hregs₂ hs (Function.update_self ..) hright
      have hslt := (lt_of_mem_scratchRegs hs).2
      have hne : dest ≠ s := fun heq => hnotScratch (heq ▸ hs)
      refine ⟨code₁ ++ (code₂ ++ [.arith arithOp dest s dest]), ?_, ?_, ?_⟩
      · rw [emit_emit, freeScratch_taken hs havail, emit_emit]
      · exact hseq₁.append (hseq₂.append (isSequential_arith harith))
      · intro env vm henv hs32 hundisturbed
        obtain ⟨hleftUndisturbed, hcase⟩ := hundisturbed
        rw [Vm.execList_append, Expr.eval]
        cases hvalue : left.eval s32Literal fun v => pure (env v) with
        | error p =>
            have hagree := hsim₁ env vm henv hs32 hleftUndisturbed
            rw [hvalue] at hagree
            rw [hagree.of_error_right]
            rfl
        | ok a =>
            have hagree := hsim₁ env vm henv hs32 hleftUndisturbed
            rw [hvalue] at hagree
            obtain ⟨vm₁, hvm₁, ha, hkeeps₁⟩ := hagree.of_ok_right
            obtain ⟨n, rfl⟩ := eval_s32 hs32 hl hvalue
            -- The right operand finds the target overwritten, and the same value.
            have henv₁ := hcg.holds_update ht henv hkeeps₁ ha
            have hsame : right.eval s32Literal
                (fun v => pure (Function.update env t (.s32 n) v)) =
                  right.eval s32Literal fun v => pure (env v) := by
              rcases hcase with rfl | hcase
              · obtain hn : env t = .s32 n := Except.ok.inj hvalue
                rw [← hn, Function.update_eq_self]
              · have hright := hcase (.s32 n) (by rw [refValue, hliteral, hvalue])
                rwa [refValue, refValue, hliteral] at hright
            have hreads := hcg.reads hvt (hs32.update t n)
            have hagree₂ := hsim₂ _ _ vm₁ henv₁ hreads
            rw [hsame] at hagree₂
            rw [hvm₁, ok_bind, ok_bind, Vm.execList_append]
            refine hagree₂.bind ?_
            rintro vm₂ b ⟨hb, hkeeps₂⟩
            have hdest₂ : vm₂.reg dest = .s32 n := by
              rw [hkeeps₂.reg dest (fun hmem => absurd hmem hnotScratch) hne, ha]
            rw [Vm.execList_arith (isArith_opToArithOpcode harith) hlt hslt hlt, hdest₂, hb,
              harith]
            have hkeeps := hkeeps₁.trans (.of_emit (.of_taken hs havail hkeeps₂))
            exact agree_setReg hlt (fun x => hkeeps.trans (.setReg hlt x)) _
  | unary op inner ih =>
      cases op with
      | not => cases he
      | neg =>
          obtain ⟨cg₁, hinner, h⟩ := bind_eq_ok h
          obtain ⟨⟨s, cg₂⟩, halloc, h⟩ := bind_eq_ok h
          cases h
          obtain ⟨code, rfl, hseq, hsim⟩ := ih he hinner
          obtain ⟨hs, havail, rfl⟩ := allocScratch_ok halloc
          have hslt := (lt_of_mem_scratchRegs hs).2
          have hne : dest ≠ s := fun heq => hnotScratch (heq ▸ hs)
          refine ⟨code ++ [.loadImm s (.s32 0), .arith .sub s dest dest], ?_, ?_, ?_⟩
          · rw [freeScratch_taken hs havail, emit_emit]
          · exact hseq.append (isSequential_of_all rfl)
          · intro env vm henv hs32 hundisturbed
            rw [Vm.execList_append]
            refine (hsim env vm henv hs32 hundisturbed).bind ?_
            rintro vm₁ a ⟨ha, hkeeps₁⟩
            rw [Vm.execList_cons, Vm.stepSeq_loadImm hslt, ok_bind,
              Vm.execList_arith rfl hslt hlt hlt, Vm.advanceIp_reg, Vm.advanceIp_reg,
              Vm.reg_setReg hslt, Vm.reg_setReg hslt, if_pos rfl, if_neg hne, ha]
            have hkeeps := hkeeps₁.trans (.of_taken hs havail (.setReg hslt (.s32 0)))
            exact agree_setReg hlt (fun x => hkeeps.trans (.setReg hlt x)) _
  | _ => cases he

/-! ### Assignments -/

theorem refStep_ok {vt : VarType} {env : String → HalValue P} {a : Assign P}
    {env' : String → HalValue P} (h : refStep vt env a = .ok env') :
    ∃ x, refValue vt env a.2 = .ok x ∧ env' = Function.update env a.1 x := by
  obtain ⟨x, hx, hupdate⟩ := bind_eq_ok h
  exact ⟨x, hx, (Except.ok.inj hupdate).symm⟩

/-- The variables stay of type `S32`. -/
theorem refStep_s32 {vt : VarType} (hvt : vt.pinType = .s32) {env env' : String → HalValue P}
    (henv : AllS32 env) {a : Assign P} (ha : a.2.isArith = true)
    (h : refStep vt env a = .ok env') : AllS32 env' := by
  obtain ⟨x, hx, rfl⟩ := refStep_ok h
  rw [refValue, funext (literal_eq hvt)] at hx
  obtain ⟨n, rfl⟩ := eval_s32 henv ha hx
  exact henv.update a.1 n

/-- The code of an assignment leaves the value of its expression in the register of its
target and stores it under the name of the target. -/
theorem compileStmt_assign {vt : VarType} (hvt : vt.pinType = .s32) {a : Assign P}
    (ha : a.2.isArith = true) {cg cg' : Codegen P} (hcg : Allocated cg vt)
    (h : compileStmt a.stmt cg = .ok cg') :
    ∃ code dest, cg' = cg.emit code ∧ IsSequential code ∧ cg.registers a.1 = some dest ∧
      ∀ env vm, cg.Holds env vm → AllS32 env → a.2.Undisturbed vt a.1 env →
        Agree (fun vm' x => vm'.reg dest = x ∧ vm'.signals a.1 = some x ∧
            cg.Holds (Function.update env a.1 x) vm')
          (vm.execList code) (refValue vt env a.2) := by
  obtain ⟨name, e⟩ := a
  obtain ⟨-, -, h⟩ := bind_eq_ok h
  obtain ⟨dest, hdest, h⟩ := bind_eq_ok h
  obtain ⟨cg₁, hexpr, h⟩ := bind_eq_ok h
  cases h
  have hreg := varReg_ok hdest
  have hlt := hcg.varRegsOk name dest hreg
  obtain ⟨code, rfl, hseq, hsim⟩ := compileExpr_target hvt ha hcg hreg hexpr
  refine ⟨code ++ [.storeSignal name dest], dest, ?_, ?_, hreg, ?_⟩
  · rw [emit_emit]
  · exact hseq.append (isSequential_of_all rfl)
  · intro env vm henv hs32 hundisturbed
    have hagree := hsim env vm henv hs32 hundisturbed
    rw [refValue, funext (literal_eq hvt), Vm.execList_append]
    cases hvalue : e.eval s32Literal fun v => pure (env v) with
    | error p =>
        rw [hvalue] at hagree
        rw [hagree.of_error_right]
        rfl
    | ok x =>
        rw [hvalue] at hagree
        obtain ⟨vm₁, hvm₁, hx, hkeeps⟩ := hagree.of_ok_right
        rw [hvm₁, ok_bind, Vm.execList_cons, Vm.stepSeq_storeSignal (by omega), hx]
        refine ⟨hx, Function.update_self .., ?_⟩
        exact hcg.holds_update hreg henv hkeeps hx

/-- The code of some assignments computes what `refRun` says. -/
theorem compileStmts_assigns {vt : VarType} (hvt : vt.pinType = .s32)
    {assigns : List (Assign P)} (harith : ∀ a ∈ assigns, a.2.isArith = true)
    {cg cg' : Codegen P} (hcg : Allocated cg vt)
    (h : compileStmts (assigns.map Assign.stmt) cg = .ok cg') :
    ∃ code, cg' = cg.emit code ∧ IsSequential code ∧
      ∀ env vm, cg.Holds env vm → AllS32 env → UndisturbedRun vt env assigns →
        Agree (fun vm' env' => cg.Holds env' vm' ∧ AllS32 env') (vm.execList code)
          (refRun vt env assigns) := by
  induction assigns generalizing cg cg' with
  | nil =>
      cases h
      refine ⟨[], ?_, isSequential_of_all rfl, fun env vm henv hs32 _ => ⟨henv, hs32⟩⟩
      rw [Codegen.emit, List.append_nil]
  | cons a assigns ih =>
      obtain ⟨cg₁, hfirst, hrest⟩ := bind_eq_ok h
      have ha := harith a List.mem_cons_self
      obtain ⟨code₁, dest, rfl, hseq₁, -, hsim₁⟩ := compileStmt_assign hvt ha hcg hfirst
      obtain ⟨code₂, rfl, hseq₂, hsim₂⟩ :=
        ih (fun b hb => harith b (List.mem_cons_of_mem a hb)) (hcg.emit code₁) hrest
      refine ⟨code₁ ++ code₂, emit_emit .., hseq₁.append hseq₂, ?_⟩
      intro env vm henv hs32 hrun
      have hagree := hsim₁ env vm henv hs32 hrun.1
      rw [Vm.execList_append, refRun, List.foldlM_cons]
      cases hvalue : refValue vt env a.2 with
      | error p =>
          rw [hvalue] at hagree
          rw [hagree.of_error_right, refStep, hvalue]
          rfl
      | ok x =>
          rw [hvalue] at hagree
          obtain ⟨vm₁, hvm₁, -, -, henv₁⟩ := hagree.of_ok_right
          have hstep : refStep vt env a = .ok (Function.update env a.1 x) := by
            rw [refStep, hvalue]
            rfl
          rw [hvm₁, hstep, ok_bind, ok_bind]
          exact hsim₂ _ vm₁ henv₁ (refStep_s32 hvt hs32 ha hstep) (hrun.2 _ hstep)

/-! ### The registers of a program -/

/-- The registers of some declarations from a number on are the ones given before, or the
number of a declaration with the name. -/
theorem declareRegisters_eq (vars : List Variable) (k : ℕ) (m : String → Option ℕ)
    (v : String) (r : ℕ) (h : declareRegisters (vars.zipIdx k) m v = some r) :
    m v = some r ∨ k ≤ r ∧ ∃ w, vars[r - k]? = some w ∧ w.name = v := by
  induction vars generalizing k m with
  | nil => exact Or.inl h
  | cons w vars ih =>
      rcases ih (k + 1) _ h with hm | ⟨hk, u, hu, hname⟩
      · replace hm : Function.update m w.name (some k) v = some r := hm
        by_cases hv : v = w.name
        · subst hv
          rw [Function.update_self] at hm
          obtain rfl : k = r := Option.some.inj hm
          exact Or.inr ⟨le_rfl, w, by rw [Nat.sub_self]; rfl, rfl⟩
        · rw [Function.update_of_ne hv] at hm
          exact Or.inl hm
      · refine Or.inr ⟨by omega, u, ?_, hname⟩
        have hsucc : r - k = r - (k + 1) + 1 := by omega
        rw [hsucc, List.getElem?_cons_succ, hu]

/-- The type of a declared variable, when all have one type. -/
theorem declareTypes_eq {vars : List Variable} {vt : VarType}
    (hvars : ∀ v ∈ vars, v.varType = vt) (m : String → Option VarType) (name : String)
    (h : m name = some vt ∨ ∃ v ∈ vars, v.name = name) :
    declareTypes vars m name = some vt := by
  induction vars generalizing m with
  | nil =>
      rcases h with h | ⟨v, hv, -⟩
      · exact h
      · cases hv
  | cons w vars ih =>
      refine ih (fun v hv => hvars v (List.mem_cons_of_mem w hv)) _ ?_
      change Function.update m w.name (some w.varType) name = some vt ∨ _
      by_cases hname : name = w.name
      · left
        rw [hname, Function.update_self, hvars w List.mem_cons_self]
      · rw [Function.update_of_ne hname]
        rcases h with h | ⟨v, hv, hv'⟩
        · exact Or.inl h
        · rcases List.mem_cons.mp hv with rfl | hv
          · exact absurd hv'.symm hname
          · exact Or.inr ⟨v, hv, hv'⟩

/-- A code generator that has just begun. -/
theorem allocated_new {vars : List Variable} {vt : VarType}
    (hvars : ∀ v ∈ vars, v.varType = vt) {cg : Codegen P} (h : Codegen.new vars = .ok cg) :
    Allocated cg vt ∧ cg.instructions = [] := by
  rw [Codegen.new] at h
  split at h
  · cases h
  · rename_i hlen
    cases h
    have hreg : ∀ v r, declareRegisters vars.zipIdx (fun _ => none) v = some r →
        ∃ w, vars[r]? = some w ∧ w.name = v := by
      intro v r hr
      rcases declareRegisters_eq vars 0 _ v r hr with hnone | ⟨-, w, hw, hname⟩
      · cases hnone
      · exact ⟨w, hw, hname⟩
    refine ⟨⟨?_, ?_, ?_⟩, rfl⟩
    · intro v r hr
      obtain ⟨w, hw, -⟩ := hreg v r hr
      obtain ⟨hlt, -⟩ := List.getElem?_eq_some_iff.mp hw
      rw [maxVarRegs] at hlen
      omega
    · intro v w r hv hw
      obtain ⟨u, hu, rfl⟩ := hreg v r hv
      obtain ⟨u', hu', rfl⟩ := hreg w r hw
      rw [Option.some.inj (hu.symm.trans hu')]
    · intro v r hr
      obtain ⟨w, hw, hname⟩ := hreg v r hr
      exact declareTypes_eq hvars _ v (Or.inr ⟨w, List.mem_of_getElem? hw, hname⟩)

/-! ### A program of assignments -/

theorem compileStmts_append (a b : List (Statement P)) (cg : Codegen P) :
    compileStmts (a ++ b) cg = (do
      let cg ← compileStmts a cg
      compileStmts b cg) := by
  induction a generalizing cg with
  | nil => rfl
  | cons stmt a ih =>
      rw [List.cons_append, compileStmts, compileStmts]
      cases compileStmt stmt cg with
      | error e => rfl
      | ok cg₁ => exact ih cg₁

theorem UndisturbedRun.append {vt : VarType} {a b : List (Assign P)}
    {env : String → HalValue P} (h : UndisturbedRun vt env (a ++ b)) :
    UndisturbedRun vt env a ∧ ∀ env', refRun vt env a = .ok env' → UndisturbedRun vt env' b := by
  induction a generalizing env with
  | nil =>
      refine ⟨trivial, ?_⟩
      rintro env' ⟨⟩
      exact h
  | cons assign a ih =>
      obtain ⟨hfirst, hrest⟩ := h
      refine ⟨⟨hfirst, fun env₁ hstep => (ih (hrest env₁ hstep)).1⟩, fun env' hrun => ?_⟩
      rw [refRun, List.foldlM_cons] at hrun
      obtain ⟨env₁, hstep, hrun⟩ := bind_eq_ok hrun
      exact (ih (hrest env₁ hstep)).2 env' hrun

/-- A program without functions is the code of its statements and a `Halt`. -/
theorem compileAst_ok {program : Program P} (hfunctions : program.functions = [])
    {hp : HalProgram P} (h : compileAst program = .ok hp) :
    ∃ cg₀ cg, Codegen.new program.vars = .ok cg₀ ∧ compileStmts program.body cg₀ = .ok cg ∧
      hp.instructions = cg.instructions ++ [.halt] := by
  obtain ⟨cg₀, hnew, h⟩ := bind_eq_ok h
  obtain ⟨cg, hbody, h⟩ := bind_eq_ok h
  rw [hfunctions] at h
  cases h
  exact ⟨cg₀, cg, hnew, hbody, rfl⟩

/-- In a program of assignments over variables of a type that is kept as `S32`, each
assignment leaves in the register of its target, and stores under its name, the value of its
expression over the values that the variables had before, in every run in which no right
operand notices that the target is overwritten. -/
theorem assignments_correct {program : Program P} {hp : HalProgram P} {vt : VarType}
    (hvt : vt.pinType = .s32) (hvars : ∀ v ∈ program.vars, v.varType = vt)
    {assigns : List (Assign P)} (hbody : program.body = assigns.map Assign.stmt)
    (harith : ∀ a ∈ assigns, a.2.isArith = true) (hfunctions : program.functions = [])
    (hcompile : compileAst program = .ok hp) (vm : Vm P)
    (table : String → Option (HalValue P))
    (hrun : UndisturbedRun vt (fun _ => vt.zero) assigns) {before after : List (Assign P)}
    {a : Assign P} (hsplit : assigns = before ++ a :: after) {env : String → HalValue P}
    (hbefore : refRun vt (fun _ => vt.zero) before = .ok env) :
    ∃ cg dest, (do
        let cg ← Codegen.new program.vars
        compileStmts ((before ++ [a]).map Assign.stmt) cg) = .ok cg ∧
      cg.registers a.1 = some dest ∧
      (∀ x, refValue vt env a.2 = .ok x →
        ∃ vm', Steps (Vm.step hp.instructions) { vm.reset with signals := table } vm' ∧
          vm'.ip = cg.instructions.length ∧ vm'.reg dest = x ∧ vm'.signals a.1 = some x) ∧
      ∀ p, refValue vt env a.2 = .error p →
        Exec (Vm.step hp.instructions) { vm.reset with signals := table } (.error p) := by
  obtain ⟨cg₀, cg₃, hnew, hstmts, hcode⟩ := compileAst_ok hfunctions hcompile
  obtain ⟨hcg₀, hempty⟩ := allocated_new hvars hnew
  subst hsplit
  rw [hbody, List.map_append, compileStmts_append] at hstmts
  obtain ⟨cg₁, hcompile₁, hstmts⟩ := bind_eq_ok hstmts
  obtain ⟨cg₂, hcompile₂, hcompile₃⟩ := bind_eq_ok hstmts
  have harith₁ : ∀ b ∈ before, b.2.isArith = true := fun b hb =>
    harith b (List.mem_append_left _ hb)
  have ha : a.2.isArith = true := harith a (List.mem_append_right _ List.mem_cons_self)
  have harith₃ : ∀ b ∈ after, b.2.isArith = true := fun b hb =>
    harith b (List.mem_append_right _ (List.mem_cons_of_mem a hb))
  obtain ⟨code₁, rfl, hseq₁, hsim₁⟩ := compileStmts_assigns hvt harith₁ hcg₀ hcompile₁
  obtain ⟨code₂, dest, rfl, hseq₂, hdest, hsim₂⟩ :=
    compileStmt_assign hvt ha (hcg₀.emit code₁) hcompile₂
  obtain ⟨code₃, rfl, hseq₃, -⟩ :=
    compileStmts_assigns hvt harith₃ ((hcg₀.emit code₁).emit code₂) hcompile₃
  obtain ⟨hrun₁, hrun₂⟩ := hrun.append
  have hstart : cg₀.Holds (fun _ => vt.zero) { vm.reset with signals := table } := by
    intro v r hr
    have hzero : (vt.zero : HalValue P) = .s32 0 := by
      cases vt <;> first | rfl | cases hvt
    rw [hzero]
    exact Vm.reset_reg vm r
  have hs32 : AllS32 fun _ => (vt.zero : HalValue P) := fun _ => ⟨0, by
    cases vt <;> first | rfl | cases hvt⟩
  have hagree₁ := hsim₁ _ _ hstart hs32 hrun₁
  rw [hbefore] at hagree₁
  obtain ⟨vm₁, hvm₁, henv₁, hs32₁⟩ := hagree₁.of_ok_right
  have hagree₂ := hsim₂ env vm₁ henv₁ hs32₁ (hrun₂ env hbefore).1
  have hexec : ∀ o, vm₁.execList code₂ = o →
      Vm.execList { vm.reset with signals := table } (code₁ ++ code₂) = o := by
    rintro o rfl
    rw [Vm.execList_append, hvm₁]
    rfl
  have hat : Code.CodeAt hp.instructions 0 (code₁ ++ code₂) := by
    rw [hcode]
    refine ⟨code₃ ++ [.halt], ?_⟩
    simp only [Codegen.emit, hempty, List.nil_append, List.append_assoc, List.drop_zero]
  refine ⟨(cg₀.emit code₁).emit code₂, dest, ?_, hdest, fun x hx => ?_, fun p hp => ?_⟩
  · rw [hnew, ok_bind, List.map_append, compileStmts_append, hcompile₁, ok_bind,
      List.map_singleton, compileStmts, hcompile₂]
    rfl
  · rw [hx] at hagree₂
    obtain ⟨vm₂, hvm₂, hreg, hsignal, -⟩ := hagree₂.of_ok_right
    obtain ⟨hsteps, hip⟩ :=
      Vm.steps_of_execList (hseq₁.append hseq₂) hat (hexec _ hvm₂)
    refine ⟨vm₂, hsteps, ?_, hreg, hsignal⟩
    rw [hip, emit_emit, Codegen.emit, hempty]
    exact Nat.zero_add _
  · rw [hp] at hagree₂
    exact Vm.exec_of_execList (hseq₁.append hseq₂) hat (hexec _ hagree₂.of_error_right)

/-! ### Two programs -/

/-- A program of assignments to two variables of type `DINT`. -/
def twoVars (assigns : List (Assign P)) : Program P :=
  ⟨"main", [⟨"x", .dInt⟩, ⟨"y", .dInt⟩], assigns.map Assign.stmt, []⟩

/-- `x := x + y * 2` -/
def targetFirst : Assign Platform.exact :=
  ("x", .binary (.variable "x") .add (.binary (.variable "y") .mul (.intLiteral 2)))

/-- The target is the first operand of its own expression, which overwrites nothing. -/
theorem targetFirst_correct :
    ∃ hp vm', compileAst (twoVars [("y", .intLiteral 5), targetFirst]) = .ok hp ∧
      Steps (Vm.step hp.instructions) { Vm.new.reset with signals := fun _ => none } vm' ∧
      vm'.reg 0 = .s32 10 ∧ vm'.signals "x" = some (.s32 10) := by
  obtain ⟨hp, hhp⟩ : ∃ hp, compileAst (twoVars [("y", .intLiteral 5), targetFirst]) = .ok hp :=
    ⟨_, rfl⟩
  have hrun : UndisturbedRun .dInt (fun _ => (VarType.dInt.zero : HalValue .exact))
      [("y", .intLiteral 5), targetFirst] :=
    ⟨trivial, fun _ _ => ⟨⟨trivial, Or.inl rfl⟩, fun _ _ => trivial⟩⟩
  obtain ⟨cg, dest, hcg, hdest, hvalue, -⟩ :=
    assignments_correct rfl (by decide) rfl (by decide) rfl hhp Vm.new (fun _ => none) hrun
      (show [("y", .intLiteral 5), targetFirst] = [("y", .intLiteral 5)] ++ targetFirst :: []
        from rfl) rfl
  obtain ⟨vm', hsteps, -, hreg, hsignal⟩ := hvalue _ rfl
  cases hcg
  cases hdest
  exact ⟨hp, vm', hhp, hsteps, hreg, hsignal⟩

/-- `x := y + x` -/
def targetLast : Assign Platform.exact :=
  ("x", .binary (.variable "y") .add (.variable "x"))

/-- The code of `x := 1; y := 2; x := y + x`. -/
def targetLastCode : List (Instruction Platform.exact) :=
  [.loadImm 0 (.s32 1), .storeSignal "x" 0, .loadImm 1 (.s32 2), .storeSignal "y" 1,
    .loadImm 0 (.s32 0), .arith .add 1 0 0, .loadImm 14 (.s32 0), .arith .add 0 14 14,
    .arith .add 0 14 0, .storeSignal "x" 0]

/-- `x := y + x` reads the `x` that `y` has overwritten, and leaves `4` where `x` was `1` and
`y` is `2`. -/
theorem targetLast_overwritten :
    ¬ ∀ (P : Platform) (program : Program P) (hp : HalProgram P) (vt : VarType),
      vt.isInteger = true → (∀ v ∈ program.vars, v.varType = vt) →
      ∀ assigns : List (Assign P), program.body = assigns.map Assign.stmt →
      (∀ a ∈ assigns, a.2.isArith = true) → program.functions = [] →
      compileAst program = .ok hp →
      ∀ (vm : Vm P) (table : String → Option (HalValue P)) (before after : List (Assign P))
        (a : Assign P), assigns = before ++ a :: after →
      ∀ env, refRun vt (fun _ => vt.zero) before = .ok env →
      ∃ cg dest, (do
          let cg ← Codegen.new program.vars
          compileStmts ((before ++ [a]).map Assign.stmt) cg) = .ok cg ∧
        cg.registers a.1 = some dest ∧
        ∀ x, refValue vt env a.2 = .ok x →
          ∃ vm', Steps (Vm.step hp.instructions) { vm.reset with signals := table } vm' ∧
            vm'.ip = cg.instructions.length ∧ vm'.reg dest = x ∧ vm'.signals a.1 = some x := by
  intro h
  obtain ⟨cg, dest, hcg, hdest, hvalue⟩ :=
    h .exact (twoVars [("x", .intLiteral 1), ("y", .intLiteral 2), targetLast])
      ⟨"main", [⟨"x", "x", .write, .s32⟩, ⟨"y", "y", .write, .s32⟩],
        targetLastCode ++ [.halt], []⟩ .dInt rfl (by decide) _ rfl (by decide) rfl rfl Vm.new
      (fun _ => none) [("x", .intLiteral 1), ("y", .intLiteral 2)] [] targetLast rfl _ rfl
  obtain ⟨vm', hsteps, hip, -, hsignal⟩ := hvalue _ rfl
  cases hcg
  have hhalt : Vm.step (targetLastCode ++ [.halt]) vm' = .done vm'.advanceIp := by
    have hinst : (targetLastCode ++ [.halt])[vm'.ip]? = some .halt := by
      rw [hip]
      rfl
    simp only [Vm.step, hinst]
    rfl
  have hseq : IsSequential targetLastCode := isSequential_of_all rfl
  have hend := (Exec.of_steps hsteps (.done hhalt)).deterministic (Vm.exec_program hseq rfl)
  have hx := congrArg (fun o => (fun v : Vm .exact => v.signals "x") <$> o) hend
  have hfour := hsignal.symm.trans (Except.ok.inj hx)
  exact absurd hfour (by decide)

end Weftik.St
