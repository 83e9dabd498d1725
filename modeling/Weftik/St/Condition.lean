import Weftik.St.Growth
import Weftik.St.Expressions

/-!
# The Code of ST Conditions

The code of a condition is left in one of three ways: by a jump of the first list, which the
generator calls `else_jumps`, by one of the second list, `end_jumps`, or at its end. A true
comparison jumps by the first list. `AND` puts the codes of its operands one after the other,
and `OR` sends control from a true left operand on to the right one.

## Main definitions

* `Way`, `Expr.way`: how the code is left, for given contents of the variables.
* `Expr.holes`: are there jumps of the first list, and of the second?
* `CondRuns`: what the code of a condition does, for any targets of the two lists.

## Main results

* `compileLeaf_spec`: the code of a comparison or a test sets the flag.
* `CondRuns.and`, `CondRuns.or`, `CondRuns.not`: conditions from conditions.
-/

open Outcome Machine Code

namespace Weftik.St

open Codegen

variable {P : Platform}

/-! ### How a condition is left -/

/-- The ways out of the code of a condition: at its end, by a jump of `else_jumps`, and by a
jump of `end_jumps`. -/
inductive Way
  | fall | toElse | toEnd
  deriving DecidableEq, Repr

namespace Way

/-- The two lists exchanged. -/
def swap : Way → Way
  | .fall => .fall
  | .toElse => .toEnd
  | .toEnd => .toElse

/-- Where control goes. -/
def target (next t u : ℕ) : Way → ℕ
  | .fall => next
  | .toElse => t
  | .toEnd => u

@[simp] theorem target_swap (next t u : ℕ) (w : Way) :
    w.swap.target next t u = w.target next u t := by
  cases w <;> rfl

end Way

section

variable (varTypes : String → Option VarType) (env : String → HalValue P)

/-- The flag after the comparison, or the test, of a condition without `AND`, `OR` and
`NOT`. The right operand is computed first. -/
def Expr.flag (e : Expr P) : Except Panic Bool :=
  let S := machine (readCopy varTypes env)
  let test := do
    let v ← e.value S
    pure (v.beq (.bool true))
  match e with
  | .binary left op right =>
      if op.isCmp then do
        let b ← right.value S
        let a ← left.value S
        pure (Vm.compareFn (cmpOpcode op) a b)
      else test
  | _ => test

/-- How the code of a condition is left. -/
def Expr.way : Expr P → Except Panic Way
  | .binary left .and right => do
      let w ← left.way
      if w = .fall then right.way else pure w
  | .binary left .or right => do
      let w ← left.way
      if w = .toElse then right.way else pure .toEnd
  | .unary .not inner => do
      let w ← inner.way
      pure w.swap
  | e => do
      let b ← e.flag varTypes env
      pure (if b then .toElse else .fall)

end

/-- Are there jumps of the first list, and of the second? -/
def Expr.holes : Expr P → Bool × Bool
  | .binary left .and right =>
      (left.holes.1 || right.holes.1, left.holes.2 || right.holes.2)
  | .binary _ .or right => (right.holes.1, true)
  | .unary .not inner => inner.holes.swap
  | _ => (true, false)

theorem Expr.way_leaf {e : Expr P} (he : e.isLeaf = true) (varTypes : String → Option VarType)
    (env : String → HalValue P) : e.way varTypes env = (do
      let b ← e.flag varTypes env
      pure (if b then .toElse else .fall)) := by
  cases e with
  | binary left op right => cases op <;> first | rfl | cases he
  | unary op inner => cases op <;> first | rfl | cases he
  | _ => rfl

theorem Expr.holes_leaf {e : Expr P} (he : e.isLeaf = true) : e.holes = (true, false) := by
  cases e with
  | binary left op right => cases op <;> first | rfl | cases he
  | unary op inner => cases op <;> first | rfl | cases he
  | _ => rfl

/-- A way that the code is left in is one that it has. -/
theorem Expr.holes_of_way {e : Expr P} {varTypes : String → Option VarType}
    {env : String → HalValue P} {w : Way} (h : e.way varTypes env = .ok w) :
    (w = .toElse → e.holes.1 = true) ∧ (w = .toEnd → e.holes.2 = true) := by
  induction e using Expr.conditionInduction generalizing w with
  | leaf e he =>
      rw [Expr.way_leaf he] at h
      obtain ⟨b, -, hw⟩ := bind_eq_ok h
      obtain rfl := Except.ok.inj hw
      rw [Expr.holes_leaf he]
      exact ⟨fun _ => rfl, fun hend => by cases b <;> cases hend⟩
  | and left right ihl ihr =>
      obtain ⟨w₁, hleft, hright⟩ := bind_eq_ok h
      rw [Expr.holes]
      split at hright
      · obtain ⟨helse, hend⟩ := ihr hright
        exact ⟨fun hw => by rw [helse hw, Bool.or_true], fun hw => by rw [hend hw, Bool.or_true]⟩
      · obtain rfl := Except.ok.inj hright
        obtain ⟨helse, hend⟩ := ihl hleft
        exact ⟨fun hw => by rw [helse hw, Bool.true_or], fun hw => by rw [hend hw, Bool.true_or]⟩
  | or left right ihl ihr =>
      obtain ⟨w₁, -, hright⟩ := bind_eq_ok h
      rw [Expr.holes]
      split at hright
      · exact ⟨(ihr hright).1, fun _ => rfl⟩
      · obtain rfl := Except.ok.inj hright
        exact ⟨nofun, fun _ => rfl⟩
  | not inner ih =>
      obtain ⟨w₁, hinner, hw⟩ := bind_eq_ok h
      obtain rfl := Except.ok.inj hw
      obtain ⟨helse, hend⟩ := ih hinner
      rw [Expr.holes]
      exact ⟨fun hw => hend (by cases w₁ <;> first | rfl | cases hw),
        fun hw => helse (by cases w₁ <;> first | rfl | cases hw)⟩

/-! ### Comparisons and tests -/

theorem isCompare_cmpOpcode (op : BinOp) : Vm.Opcode.isCompare (cmpOpcode op) = true := by
  cases op <;> rfl

theorem isSequential_cmp (op : BinOp) (a b : ℕ) :
    IsSequential [(.cmp (cmpOpcode op) a b : Instruction P)] := by
  cases op <;> exact isSequential_of_all rfl

theorem Codegen.reads_readCopy (cg : Codegen P) (env : String → HalValue P) :
    cg.Reads env (readCopy cg.varTypes env) :=
  fun _ _ _ => rfl

/-- Setting the flag keeps every register. -/
theorem Codegen.Keeps.setFlag (cg : Codegen P) (dest : ℕ) (vm : Vm P) (b : Bool) :
    cg.Keeps dest vm (vm.setFlagsZero b).advanceIp :=
  ⟨fun _ _ _ => rfl, rfl, rfl⟩

/-- The code of a comparison sets the flag. -/
theorem compileCmp_spec {left right : Expr P} {op : BinOp} (hl : left.isOperand = true)
    (hr : right.isOperand = true) {cg cg' : Codegen P} (hregs : cg.VarRegsOk)
    (h : compileCmp (compileExpr left) (compileExpr right) op cg = .ok cg') :
    ∃ code, cg' = cg.emit code ∧ IsSequential code ∧
      ∀ env vm, cg.Holds env vm →
        Agree (fun vm' b => vm'.flagsZero = b ∧ ∀ dest, cg.Keeps dest vm vm') (vm.execList code)
          (do
            let b ← right.value (machine (readCopy cg.varTypes env))
            let a ← left.value (machine (readCopy cg.varTypes env))
            pure (Vm.compareFn (cmpOpcode op) a b)) := by
  obtain ⟨⟨rs, cg₁⟩, hrs, h⟩ := bind_eq_ok h
  obtain ⟨cg₂, hright, h⟩ := bind_eq_ok h
  obtain ⟨⟨ls, cg₃⟩, hls, h⟩ := bind_eq_ok h
  obtain ⟨cg₄, hleft, h⟩ := bind_eq_ok h
  cases h
  obtain ⟨hrsMem, hrsAvail, rfl⟩ := allocScratch_ok hrs
  have hregs₁ : (cg.taken rs).VarRegsOk := hregs
  obtain ⟨code₁, rfl, hseq₁, hsim₁⟩ :=
    compileExpr_operand hr hregs₁ hrsMem (Function.update_self ..) hright
  obtain ⟨hlsMem, hlsAvail, rfl⟩ := allocScratch_ok hls
  have hregs₂ : (((cg.taken rs).emit code₁).taken ls).VarRegsOk := hregs
  obtain ⟨code₂, rfl, hseq₂, hsim₂⟩ :=
    compileExpr_operand hl hregs₂ hlsMem (Function.update_self ..) hleft
  have hne : rs ≠ ls := by
    rintro rfl
    have hself : (cg.taken rs).scratchAvail rs = false := Function.update_self ..
    exact absurd (hlsAvail.symm.trans hself) (by decide)
  refine ⟨code₁ ++ (code₂ ++ [.cmp (cmpOpcode op) ls rs]), ?_, ?_, ?_⟩
  · rw [emit_emit, freeScratch_taken hlsMem hlsAvail, emit_emit, freeScratch_taken hrsMem hrsAvail]
  · exact hseq₁.append (hseq₂.append (isSequential_cmp op ls rs))
  · intro env vm henv
    rw [Vm.execList_append]
    refine (hsim₁ env _ vm henv (reads_readCopy _ env)).bind fun vm₁ b ⟨hb, hkeeps₁⟩ => ?_
    rw [Vm.execList_append]
    have henv₁ := hkeeps₁.holds hregs₁ hrsMem henv
    refine (hsim₂ env _ vm₁ henv₁ (reads_readCopy _ env)).bind fun vm₂ a ⟨ha, hkeeps₂⟩ => ?_
    have hrs₂ : vm₂.reg rs = b := by
      rw [hkeeps₂.reg rs (fun _ => (Function.update_of_ne hne _ _).trans
        (Function.update_self ..)) hne, hb]
    rw [Vm.execList_cons, Vm.stepSeq_cmp (isCompare_cmpOpcode op) (lt_of_mem_scratchRegs hlsMem).2
      (lt_of_mem_scratchRegs hrsMem).2, ha, hrs₂]
    refine ⟨rfl, fun dest => ?_⟩
    have hkeeps : (cg.taken rs).Keeps rs vm₁ vm₂ := .of_emit (.of_taken hlsMem hlsAvail hkeeps₂)
    exact (Keeps.of_taken hrsMem hrsAvail (hkeeps₁.trans hkeeps)).trans (.setFlag cg dest vm₂ _)

/-- Two scratch registers that are given back after some instructions, the one that was taken
first before the other. -/
theorem freeScratch_taken_taken {cg : Codegen P} {s t : ℕ} (hs : s ∈ scratchRegs)
    (hsAvail : cg.scratchAvail s = true) (ht : t ∈ scratchRegs)
    (htAvail : (cg.taken s).scratchAvail t = true) (code : List (Instruction P)) :
    ((((cg.taken s).taken t).emit code).freeScratch s).freeScratch t = cg.emit code := by
  have hne : s ≠ t := by
    rintro rfl
    have hself : (cg.taken s).scratchAvail s = false := Function.update_self ..
    exact absurd (htAvail.symm.trans hself) (by decide)
  have htAvail' : cg.scratchAvail t = true :=
    (Function.update_of_ne hne.symm _ _).symm.trans htAvail
  have hupdate : ∀ {r}, cg.scratchAvail r = true →
      Function.update cg.scratchAvail r true = cg.scratchAvail := by
    intro r hr
    rw [← hr, Function.update_eq_self]
  rw [freeScratch, freeScratch, if_pos hs, if_pos ht]
  simp only [Codegen.emit, taken, Function.update_comm hne, Function.update_idem,
    hupdate hsAvail, hupdate htAvail']

/-- The code of a test sets the flag. -/
theorem compileTest_spec {e : Expr P} (he : e.isOperand = true) {cg cg' : Codegen P}
    (hregs : cg.VarRegsOk) (h : compileTest e cg = .ok cg') :
    ∃ code, cg' = cg.emit code ∧ IsSequential code ∧
      ∀ env vm, cg.Holds env vm →
        Agree (fun vm' b => vm'.flagsZero = b ∧ ∀ dest, cg.Keeps dest vm vm') (vm.execList code)
          (do
            let v ← e.value (machine (readCopy cg.varTypes env))
            pure (v.beq (.bool true))) := by
  obtain ⟨⟨s, cg₁⟩, hs, h⟩ := bind_eq_ok h
  obtain ⟨cg₂, hexpr, h⟩ := bind_eq_ok h
  obtain ⟨⟨t, cg₃⟩, ht, h⟩ := bind_eq_ok h
  cases h
  obtain ⟨hsMem, hsAvail, rfl⟩ := allocScratch_ok hs
  have hregs₁ : (cg.taken s).VarRegsOk := hregs
  obtain ⟨code, rfl, hseq, hsim⟩ :=
    compileExpr_operand he hregs₁ hsMem (Function.update_self ..) hexpr
  obtain ⟨htMem, htAvail, rfl⟩ := allocScratch_ok ht
  have hslt := (lt_of_mem_scratchRegs hsMem).2
  have htlt := (lt_of_mem_scratchRegs htMem).2
  have hne : s ≠ t := by
    rintro rfl
    have hself : (cg.taken s).scratchAvail s = false := Function.update_self ..
    exact absurd (htAvail.symm.trans hself) (by decide)
  refine ⟨code ++ [.loadImm t (.bool true), .cmp .eq s t], ?_, ?_, ?_⟩
  · have htaken : (((cg.taken s).emit code).taken t).emit
        [.loadImm t (.bool true), .cmp .eq s t] =
          ((cg.taken s).taken t).emit (code ++ [.loadImm t (.bool true), .cmp .eq s t]) := by
      simp only [Codegen.emit, taken, List.append_assoc]
    rw [htaken, freeScratch_taken_taken hsMem hsAvail htMem htAvail]
  · exact hseq.append (isSequential_of_all rfl)
  · intro env vm henv
    rw [Vm.execList_append]
    refine (hsim env _ vm henv (reads_readCopy _ env)).bind ?_
    rintro vm₁ v ⟨hv, hkeeps₁⟩
    have hload : (cg.taken s).Keeps s vm₁ (vm₁.setReg t (.bool true)).advanceIp :=
      .of_emit (.of_taken htMem htAvail (.setReg htlt _))
    rw [Vm.execList_cons, Vm.stepSeq_loadImm htlt, ok_bind, Vm.execList_cons,
      Vm.stepSeq_cmp rfl hslt htlt, Vm.advanceIp_reg, Vm.advanceIp_reg, Vm.reg_setReg htlt,
      Vm.reg_setReg htlt, if_neg hne, if_pos rfl, hv]
    refine ⟨rfl, fun dest => ?_⟩
    exact (Keeps.of_taken hsMem hsAvail (hkeeps₁.trans hload)).trans (.setFlag cg dest _ _)

/-- The code of a condition without `AND`, `OR` and `NOT`, its jump aside. -/
theorem compileLeaf_spec {e : Expr P} {varTypes : String → Option VarType}
    (he : e.isCondition varTypes = true) (hleaf : e.isLeaf = true) {cg cg' : Codegen P}
    (hregs : cg.VarRegsOk) (h : compileLeaf e cg = .ok cg') :
    ∃ code, cg' = cg.emit code ∧ IsSequential code ∧
      ∀ env vm, cg.Holds env vm →
        Agree (fun vm' b => vm'.flagsZero = b ∧ ∀ dest, cg.Keeps dest vm vm') (vm.execList code)
          (e.flag cg.varTypes env) := by
  cases e with
  | binary left op right =>
      have hcondition : (op.isCmp && left.isOperand && right.isOperand) = true := by
        cases op <;> first | exact he | cases hleaf
      rw [Bool.and_eq_true, Bool.and_eq_true] at hcondition
      obtain ⟨⟨hcmp, hl⟩, hr⟩ := hcondition
      rw [compileLeaf, if_pos hcmp] at h
      simp only [Expr.flag, if_pos hcmp]
      exact compileCmp_spec hl hr hregs h
  | boolLiteral b => exact compileTest_spec rfl hregs h
  | «variable» name => exact compileTest_spec rfl hregs h
  | unary op inner => cases op <;> first | cases he | cases hleaf
  | _ => cases he

/-! ### The code of a condition -/

theorem step_jump {program : List (Instruction P)} {vm : Vm P} {t : UInt32}
    (h : program[vm.ip]? = some (.jump t)) : Vm.step program vm = .next (vm.setIp t.toNat) := by
  rw [Vm.step, h]
  rfl

theorem step_jumpIf {program : List (Instruction P)} {vm : Vm P} {t : UInt32}
    (h : program[vm.ip]? = some (.jumpIf t)) :
    Vm.step program vm = .next (if vm.flagsZero then vm.setIp t.toNat else vm.advanceIp) := by
  simp only [Vm.step, h]
  simp only [Vm.executeInstruction, Instruction.jumpIf, Vm.execJumpIf, Vm.jumpTarget]
  cases vm.flagsZero <;> rfl

/-- The code of a condition, as a function of the targets of its two lists of jumps, that
stands at index `base` is left where `way` says, for any targets; the variables hold what they
held. -/
def CondRuns (cg : Codegen P) (e : Expr P) (base : ℕ)
    (code : UInt32 → UInt32 → List (Instruction P)) : Prop :=
  ∀ (t u : UInt32) (program : List (Instruction P)) (step : Vm P → Result (Vm P) Panic)
    (env : String → HalValue P) (vm : Vm P),
    CodeAt program base (code t u) → vm.ip = base → cg.Holds env vm →
    (∀ vm' : Vm P, base ≤ vm'.ip → vm'.ip < base + (code t u).length →
      step vm' = Vm.step program vm') →
    Follows step vm (fun w vm' => vm'.ip = w.target (base + (code t u).length) t.toNat u.toNat ∧
      cg.Holds env vm') (e.way cg.varTypes env)

theorem jumpsTo_of_isSequential {inst : Instruction P} (h : inst.opcode.isSequential = true) :
    inst.jumpsTo = none := by
  obtain ⟨opcode, ops⟩ := inst
  cases opcode <;> first | rfl | cases h

theorem mem_jumpTargets {insts : List (Instruction P)} {n : ℕ} :
    n ∈ jumpTargets insts ↔ ∃ (i : ℕ) (inst : Instruction P), insts[i]? = some inst ∧
      inst.jumpsTo = some n := by
  constructor
  · intro h
    obtain ⟨inst, hmem, hjumps⟩ := List.mem_filterMap.mp h
    obtain ⟨i, hi⟩ := List.mem_iff_getElem?.mp hmem
    exact ⟨i, inst, hi, hjumps⟩
  · rintro ⟨i, inst, hi, hjumps⟩
    exact List.mem_filterMap.mpr ⟨inst, List.mem_of_getElem? hi, hjumps⟩

namespace CondRuns

variable {cg : Codegen P} {e left right : Expr P} {base size : ℕ}
  {code code₁ code₂ : UInt32 → UInt32 → List (Instruction P)}

/-- A comparison or a test, and its jump. -/
theorem leaf {before : List (Instruction P)} (hregs : cg.VarRegsOk) (hleaf : e.isLeaf = true)
    (hseq : IsSequential before)
    (hsim : ∀ env vm, cg.Holds env vm →
      Agree (fun vm' b => vm'.flagsZero = b ∧ ∀ dest, cg.Keeps dest vm vm') (vm.execList before)
        (e.flag cg.varTypes env)) :
    CondRuns cg e base (fun t _ => before ++ [.jumpIf t]) := by
  intro t u program step env vm hcode hip henv hsame
  obtain ⟨hat, hjump⟩ := codeAt_append.mp hcode
  rw [List.length_append, List.length_singleton] at hsame ⊢
  have hfollows := Vm.follows_execList hseq (hip ▸ hat) fun vm' hle hlt =>
    hsame vm' (hip ▸ hle) (by omega)
  have hagree := hsim env vm henv
  rw [Expr.way_leaf hleaf]
  cases hflag : e.flag cg.varTypes env with
  | error p =>
      rw [hflag] at hagree
      rw [hagree.of_error_right] at hfollows
      exact hfollows
  | ok b =>
      rw [hflag] at hagree
      obtain ⟨vm₁, hvm₁, hb, hkeeps⟩ := hagree.of_ok_right
      rw [hvm₁] at hfollows
      obtain ⟨vm₂, hsteps, rfl, hip₂⟩ := hfollows
      have henv₂ : cg.Holds env vm₂ :=
        (hkeeps 14).holds hregs List.mem_cons_self henv
      have hinst : program[vm₂.ip]? = some (.jumpIf t) := by
        rw [hip₂, hip]
        exact hjump.head
      have hstep := (hsame vm₂ (by omega) (by omega)).trans (step_jumpIf hinst)
      rw [hb] at hstep
      refine ⟨if b then vm₂.setIp t.toNat else vm₂.advanceIp,
        hsteps.trans (Steps.single hstep), ?_, ?_⟩
      · cases b with
        | true => rfl
        | false =>
            change vm₂.ip + 1 = _
            rw [hip₂, hip]
            rfl
      · cases b <;> exact henv₂

/-- The code of `AND`: control goes on from the end of the left code only. -/
theorem and (h₁ : CondRuns cg left base code₁) (hlen : ∀ t u, (code₁ t u).length = size)
    (h₂ : CondRuns cg right (base + size) code₂) :
    CondRuns cg (.binary left .and right) base (fun t u => code₁ t u ++ code₂ t u) := by
  intro t u program step env vm hcode hip henv hsame
  obtain ⟨hcode₁, hcode₂⟩ := codeAt_append.mp hcode
  rw [List.length_append, hlen] at hsame ⊢
  rw [hlen] at hcode₂
  rw [Expr.way]
  have hfirst := h₁ t u program step env vm hcode₁ hip henv fun vm' hle hlt =>
    hsame vm' hle (by rw [hlen] at hlt; omega)
  refine hfirst.bind fun w vm₁ ⟨hip₁, henv₁⟩ => ?_
  rw [hlen] at hip₁
  by_cases hw : w = .fall
  · subst hw
    rw [if_pos rfl, ← Nat.add_assoc]
    exact h₂ t u program step env vm₁ hcode₂ hip₁ henv₁ fun vm' hle hlt =>
      hsame vm' (by omega) (by omega)
  · rw [if_neg hw]
    refine Follows.pure ⟨?_, henv₁⟩
    cases w with
    | fall => exact absurd rfl hw
    | toElse => exact hip₁
    | toEnd => exact hip₁

/-- The code of `OR`: control goes on from the first list of the left code only. -/
theorem or {mid : UInt32} (h₁ : CondRuns cg left base code₁)
    (hlen : ∀ t u, (code₁ t u).length = size) (hmid : mid.toNat = base + size + 1)
    (h₂ : CondRuns cg right (base + size + 1) code₂) :
    CondRuns cg (.binary left .or right) base
      (fun t u => code₁ mid u ++ ([.jump u] ++ code₂ t u)) := by
  intro t u program step env vm hcode hip henv hsame
  obtain ⟨hcode₁, hrest⟩ := codeAt_append.mp hcode
  obtain ⟨hjump, hcode₂⟩ := codeAt_append.mp hrest
  simp only [List.length_append, List.length_singleton, hlen] at hsame hcode₂ hjump ⊢
  rw [Expr.way]
  have hfirst := h₁ mid u program step env vm hcode₁ hip henv fun vm' hle hlt =>
    hsame vm' hle (by rw [hlen] at hlt; omega)
  refine hfirst.bind ?_
  rintro w vm₁ ⟨hip₁, henv₁⟩
  rw [hlen] at hip₁
  cases w with
  | toElse =>
      have hip₁ : vm₁.ip = base + size + 1 := hip₁.trans hmid
      have hsecond := h₂ t u program step env vm₁ hcode₂ hip₁ henv₁ fun vm' hle hlt =>
        hsame vm' (by omega) (by omega)
      rw [if_pos rfl]
      simp only [Nat.add_assoc] at hsecond ⊢
      exact hsecond
  | toEnd =>
      rw [if_neg (by rintro ⟨⟩)]
      exact Follows.pure ⟨hip₁, henv₁⟩
  | fall =>
      -- the code that falls through meets the jump of the second list
      have hip₁ : vm₁.ip = base + size := hip₁
      have hinst : program[vm₁.ip]? = some (.jump u) := by
        rw [hip₁]
        exact hjump.head
      rw [if_neg (by rintro ⟨⟩)]
      have hstep := (hsame vm₁ (by omega) (by omega)).trans (step_jump hinst)
      exact Follows.head hstep (Follows.pure ⟨rfl, henv₁⟩)

/-- The code of `NOT`: the two lists are exchanged. -/
theorem not (h : CondRuns cg e base code) :
    CondRuns cg (.unary .not e) base (fun t u => code u t) := by
  intro t u program step env vm hcode hip henv hsame
  rw [Expr.way]
  refine (h u t program step env vm hcode hip henv hsame).bind fun w vm₁ ⟨hip₁, henv₁⟩ => ?_
  exact Follows.pure ⟨hip₁.trans (Way.target_swap ..).symm, henv₁⟩

end CondRuns

end Weftik.St
