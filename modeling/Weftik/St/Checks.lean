import Weftik.St.Condition

/-!
# What the ST Code Generator Checks, and How Much It Emits

Whether the generator returns a program does not depend on the code that it has made: it
looks up variables, compares types, takes scratch registers and looks for the loop of an
`EXIT`, in a fixed order, and the first of these that fails is what it returns. The number of
instructions of a part is fixed too. Both are functions of the syntax here.

## Main definitions

* `Expr.checks`, `Expr.size`: the checks of an expression, and the size of its code.
* `Level`: how many scratch registers are taken.
* `Forward`: code whose jumps go forward, to its end at the latest.
* `Emits`: the state after some code of a given size.

## Main results

* `compileExpr_emits`: compiling an expression fails as its checks do, and emits code of its
  size whose jumps go forward.
-/

open Outcome Code

namespace Weftik.St

open Codegen

variable {P : Platform}

/-! ### The checks of an expression -/

/-- The registers and the types of the declared variables. -/
structure Names where
  registers : String → Option ℕ
  varTypes : String → Option VarType

/-- The variables that a code generator knows. -/
def Codegen.names (cg : Codegen P) : Names := ⟨cg.registers, cg.varTypes⟩

/-- The register of a variable. -/
def Names.varReg (n : Names) (name : String) : Except Abort ℕ :=
  match n.registers name with
  | some r => pure r
  | none => .error (.error (.undefinedVariable name))

/-- There is a scratch register when some are taken. -/
def allocCheck (used : ℕ) : Except Abort Unit :=
  if used < 3 then pure ()
  else .error (.panic (.message "scratch overflow: r13/r14/r15 all in use"))

/-- The scratch register that is taken next when some are. -/
def scratchAt (used : ℕ) : ℕ := scratchRegs.getD used 0

/-- The checks of an expression when some scratch registers are taken. -/
def Expr.checks (n : Names) : Expr P → (used : ℕ) → Except Abort Unit
  | .intLiteral _, _ | .realLiteral _, _ | .boolLiteral _, _ => pure ()
  | .variable name, _ => do
      let _ ← n.varReg name
      pure ()
  | .binary left op right, used =>
      if (opToArithOpcode op).isSome then do
        left.checks n used
        allocCheck used
        right.checks n (used + 1)
      else if op.isCmp then do
        allocCheck used
        right.checks n (used + 1)
        allocCheck (used + 1)
        left.checks n (used + 2)
      else do
        allocCheck used
        left.checks n (used + 1)
        right.checks n (used + 1)
  | .unary .neg inner, used => do
      inner.checks n used
      allocCheck used
  | .unary .not inner, used => inner.checks n used
  | .arrayAccess name index, used => do
      let _ ← n.varReg name
      allocCheck used
      index.checks n (used + 1)
  | .fieldAccess name _, used => do
      let _ ← n.varReg name
      match n.varTypes name with
      | some .rTrig | some .fTrig => pure ()
      | _ => allocCheck used

/-- The size of the code of an expression. A variable that is in its register already needs
no code. -/
def Expr.size (n : Names) : Expr P → (dest used : ℕ) → ℕ
  | .intLiteral _, _, _ | .realLiteral _, _, _ | .boolLiteral _, _, _ => 1
  | .variable name, dest, _ => if n.registers name = some dest then 0 else 2
  | .binary left op right, dest, used =>
      if (opToArithOpcode op).isSome then
        left.size n dest used + right.size n (scratchAt used) (used + 1) + 1
      else if op.isCmp then
        right.size n (scratchAt used) (used + 1) +
          left.size n (scratchAt (used + 1)) (used + 2) + 4
      else left.size n dest (used + 1) + right.size n (scratchAt used) (used + 1) + 1
  | .unary .neg inner, dest, used => inner.size n dest used + 2
  | .unary .not inner, dest, used => inner.size n dest used + 1
  | .arrayAccess _ index, _, used => index.size n (scratchAt used) (used + 1) + 1
  | .fieldAccess _ _, _, _ => 1

/-! ### Scratch registers -/

namespace Codegen

/-- The scratch registers are taken in the order in which they are given out. -/
structure Level (cg : Codegen P) (used : ℕ) : Prop where
  first : cg.scratchAvail 14 = decide (used ≤ 0)
  second : cg.scratchAvail 15 = decide (used ≤ 1)
  third : cg.scratchAvail 13 = decide (used ≤ 2)

/-- The next scratch register has been taken. -/
structure Takes (cg : Codegen P) (used : ℕ) (cg' : Codegen P) : Prop where
  state : cg' = cg.taken (scratchAt used)
  scratch : scratchAt used ∈ scratchRegs
  available : cg.scratchAvail (scratchAt used) = true
  level : cg'.Level (used + 1)

theorem Takes.names {cg cg' : Codegen P} {used : ℕ} (h : cg.Takes used cg') :
    cg'.names = cg.names := by
  rw [h.state]
  rfl

theorem Takes.length {cg cg' : Codegen P} {used : ℕ} (h : cg.Takes used cg') :
    cg'.instructions.length = cg.instructions.length := by
  rw [h.state]
  rfl

/-- A scratch register can be taken just when fewer than three are. -/
theorem Level.alloc {cg : Codegen P} {used : ℕ} (h : cg.Level used) :
    Agree (fun p _ => p.1 = scratchAt used ∧ cg.Takes used p.2) cg.allocScratch
      (allocCheck used) := by
  obtain ⟨hfirst, hsecond, hthird⟩ := h
  rcases (by omega : used = 0 ∨ used = 1 ∨ used = 2 ∨ 3 ≤ used) with rfl | rfl | rfl | hle
  · have hfind : scratchRegs.find? cg.scratchAvail = some 14 := by
      simp [scratchRegs, hfirst]
    rw [allocScratch, hfind]
    refine ⟨rfl, rfl, (by decide : 14 ∈ scratchRegs), hfirst, ⟨?_, ?_, ?_⟩⟩ <;>
      simp [Function.update_of_ne, hsecond, hthird]
  · have hfind : scratchRegs.find? cg.scratchAvail = some 15 := by
      simp [scratchRegs, hfirst, hsecond]
    rw [allocScratch, hfind]
    refine ⟨rfl, rfl, (by decide : 15 ∈ scratchRegs), hsecond, ⟨?_, ?_, ?_⟩⟩ <;>
      simp [Function.update_of_ne, hfirst, hthird]
  · have hfind : scratchRegs.find? cg.scratchAvail = some 13 := by
      simp [scratchRegs, hfirst, hsecond, hthird]
    rw [allocScratch, hfind]
    refine ⟨rfl, rfl, (by decide : 13 ∈ scratchRegs), hthird, ⟨?_, ?_, ?_⟩⟩ <;>
      simp [Function.update_of_ne, hfirst, hsecond]
  · have hfind : scratchRegs.find? cg.scratchAvail = none := by
      simp only [List.find?_eq_none, scratchRegs, List.mem_cons, List.not_mem_nil, or_false]
      rintro r (rfl | rfl | rfl) <;>
        simp only [hfirst, hsecond, hthird, decide_eq_true_eq] <;> omega
    rw [allocScratch, hfind, allocCheck, if_neg (by omega)]
    rfl

/-- A scratch register is taken, and the two computations go on. -/
theorem Level.bind {α β : Type} {S : α → β → Prop} {cg : Codegen P} {used : ℕ}
    {f : ℕ × Codegen P → Except Abort α} {g : Unit → Except Abort β} (h : cg.Level used)
    (hfg : ∀ cg', cg.Takes used cg' → Agree S (f (scratchAt used, cg')) (g ())) :
    Agree S (cg.allocScratch >>= f) (allocCheck used >>= g) := by
  refine Agree.bind h.alloc fun ⟨s, cg'⟩ _ htakes => ?_
  obtain rfl : s = scratchAt used := htakes.1
  exact hfg cg' htakes.2

/-- The lookup of a variable. -/
theorem varReg_names (cg : Codegen P) (name : String) : cg.varReg name = cg.names.varReg name :=
  rfl

end Codegen

/-! ### Code with forward jumps -/

/-- The jumps of the code, which stands at index `base`, go forward and to `limit` at the
furthest, and it calls nothing. -/
structure Forward (base limit : ℕ) (code : List (Instruction P)) : Prop where
  jumps : ∀ (i : ℕ) (inst : Instruction P) (t : ℕ), code[i]? = some inst →
    inst.jumpsTo = some t → base + i < t ∧ t ≤ limit
  calls : ∀ inst ∈ code, inst.opcode ≠ .call

namespace Forward

variable {base limit : ℕ} {code code' : List (Instruction P)}

theorem mono (h : Forward base limit code) {limit' : ℕ} (hle : limit ≤ limit') :
    Forward base limit' code :=
  ⟨fun i inst t hinst hjumps => (h.jumps i inst t hinst hjumps).imp_right (·.trans hle), h.calls⟩

/-- Code without jumps and calls. -/
theorem of_sequential (h : IsSequential code) : Forward base limit code := by
  refine ⟨fun i inst t hinst hjumps => ?_, fun inst hmem hcall => ?_⟩
  · rw [jumpsTo_of_isSequential (h inst (List.mem_of_getElem? hinst))] at hjumps
    cases hjumps
  · have hseq := h inst hmem
    rw [hcall] at hseq
    cases hseq

/-- Code after other code. -/
theorem append (h : Forward base limit code) (h' : Forward (base + code.length) limit code') :
    Forward base limit (code ++ code') := by
  refine ⟨fun i inst t hinst hjumps => ?_, fun inst hmem => ?_⟩
  · rcases Nat.lt_or_ge i code.length with hi | hi
    · rw [List.getElem?_append_left hi] at hinst
      exact h.jumps i inst t hinst hjumps
    · rw [List.getElem?_append_right hi] at hinst
      have := h'.jumps _ inst t hinst hjumps
      omega
  · rcases List.mem_append.mp hmem with hmem | hmem
    · exact h.calls inst hmem
    · exact h'.calls inst hmem

end Forward

/-- The second state is the first after code of a given size whose jumps go forward. -/
def Codegen.Emits (cg : Codegen P) (size : ℕ) (cg' : Codegen P) : Prop :=
  ∃ code, cg' = cg.emit code ∧ code.length = size ∧
    Forward cg.instructions.length (cg.instructions.length + size) code

namespace Codegen

/-- The jump that has just been emitted gets its target. -/
theorem patchJump_emit (cg : Codegen P) (h : cg.instructions.length < 2 ^ 32) (t : UInt32)
    (inst : Instruction P) (rest : List (Instruction P)) :
    patchJump t (cg.emit (inst :: rest)) cg.currentIdx = cg.emit (retarget t inst :: rest) := by
  simp only [patchJump, emit, currentIdx_toNat h]
  rw [← Nat.add_zero cg.instructions.length, modify_append_right]
  rfl

namespace Emits

variable {cg cg₁ cg₂ : Codegen P} {m k used : ℕ}

theorem refl (cg : Codegen P) : cg.Emits 0 cg :=
  ⟨[], by simp [emit], rfl, .of_sequential (List.forall_mem_nil _)⟩

theorem trans (h : cg.Emits m cg₁) (h' : cg₁.Emits k cg₂) : cg.Emits (m + k) cg₂ := by
  obtain ⟨code, rfl, rfl, hforward⟩ := h
  obtain ⟨code', rfl, rfl, hforward'⟩ := h'
  rw [length_emit] at hforward'
  exact ⟨code ++ code', emit_emit _ _ _, List.length_append,
    (hforward.mono (by omega)).append (hforward'.mono (by omega))⟩

/-- Some instructions that are no jumps follow. -/
theorem emit (h : cg.Emits m cg₁) {code : List (Instruction P)} (hseq : IsSequential code) :
    cg.Emits (m + code.length) (cg₁.emit code) :=
  h.trans ⟨code, rfl, rfl, .of_sequential hseq⟩

/-- A scratch register is given back. -/
theorem free (htakes : cg.Takes used cg₁) (h : cg₁.Emits m cg₂) :
    cg.Emits m (cg₂.freeScratch (scratchAt used)) := by
  obtain ⟨rfl, hs, havail, -⟩ := htakes
  obtain ⟨code, rfl, hlen, hforward⟩ := h
  exact ⟨code, freeScratch_taken hs havail code, hlen, hforward⟩

theorem names (h : cg.Emits m cg₁) : cg₁.names = cg.names := by
  obtain ⟨code, rfl, -⟩ := h
  rfl

theorem level (h : cg.Emits m cg₁) (hlevel : cg.Level used) : cg₁.Level used := by
  obtain ⟨code, rfl, -⟩ := h
  exact ⟨hlevel.first, hlevel.second, hlevel.third⟩

theorem length (h : cg.Emits m cg₁) : cg₁.instructions.length = cg.instructions.length + m := by
  obtain ⟨code, rfl, rfl, -⟩ := h
  exact length_emit _ _

/-- A comparison that has been made becomes a value: a jump over `FALSE`. -/
theorem materialise (h : cg.Emits m cg₁) (dest : ℕ)
    (hsmall : cg.instructions.length + (m + 3) < 2 ^ 32) :
    cg.Emits (m + 3)
      (patchJump
        ((cg₁.emit [.loadImm dest (.bool false)]).emit
          [.jumpIf 0, .loadImm dest (.bool true)]).currentIdx
        ((cg₁.emit [.loadImm dest (.bool false)]).emit
          [.jumpIf 0, .loadImm dest (.bool true)])
        (cg₁.emit [.loadImm dest (.bool false)]).currentIdx) := by
  have hlen := h.length
  rw [patchJump_emit _ (by rw [length_emit, hlen, List.length_singleton]; omega)]
  refine h.trans ⟨[.loadImm dest (.bool false), .jumpIf _, .loadImm dest (.bool true)],
    emit_emit _ _ _, rfl, fun i inst t hinst hjumps => ?_, ?_⟩
  · -- the jump is the second of the three, and its target is behind the third
    rcases (by
      have := (List.getElem?_eq_some_iff.mp hinst).1
      simp only [List.length_cons, List.length_nil] at this
      omega : i = 0 ∨ i = 1 ∨ i = 2) with rfl | rfl | rfl
    · cases hinst; cases hjumps
    · cases hinst
      cases hjumps
      rw [currentIdx_toNat (by simp only [length_emit, List.length_cons, List.length_nil]; omega)]
      simp only [length_emit, List.length_cons, List.length_nil]
      omega
    · cases hinst; cases hjumps
  · simp only [List.mem_cons, List.not_mem_nil, or_false]
    rintro inst (rfl | rfl | rfl) <;> rintro ⟨⟩

end Emits

end Codegen

/-! ### Expressions -/

theorem isSequential_bit (op : BinOp) (a b out : ℕ) :
    IsSequential [(.arith (bitOpcode op) a b out : Instruction P)] := by
  cases op <;> exact isSequential_of_all rfl

variable {n : Names}

/-- A comparison fails as the checks of its operands do. -/
theorem compileCmp_emits {compileLeft compileRight : ℕ → Compiler P}
    {checksLeft checksRight : ℕ → Except Abort Unit} (sizeLeft sizeRight : ℕ → ℕ → ℕ) (op : BinOp)
    (hleft : ∀ dest {used cg}, cg.Level used → cg.names = n →
        cg.instructions.length + sizeLeft dest used < 2 ^ 32 → Agree
        (fun cg' _ => cg.Emits (sizeLeft dest used) cg') (compileLeft dest cg) (checksLeft used))
    (hright : ∀ dest {used cg}, cg.Level used → cg.names = n →
        cg.instructions.length + sizeRight dest used < 2 ^ 32 → Agree
        (fun cg' _ => cg.Emits (sizeRight dest used) cg') (compileRight dest cg) (checksRight used))
    {used : ℕ} {cg : Codegen P} (hlevel : cg.Level used) (hnames : cg.names = n)
    (hsmall : cg.instructions.length +
        (sizeRight (scratchAt used) (used + 1) + sizeLeft (scratchAt (used + 1)) (used + 2) +
        1) < 2 ^ 32) :
    Agree (fun cg' _ => cg.Emits (sizeRight (scratchAt used) (used + 1) +
        sizeLeft (scratchAt (used + 1)) (used + 2) + 1) cg')
      (compileCmp compileLeft compileRight op cg) (do
        allocCheck used
        checksRight (used + 1)
        allocCheck (used + 1)
        checksLeft (used + 2)) := by
  refine hlevel.bind fun cg₁ hrs => ?_
  have hnames₁ := hrs.names.trans hnames
  have hlen₁ := hrs.length
  refine Agree.bind (hright _ hrs.level hnames₁ (by omega)) fun cg₂ _ hcg₂ => ?_
  refine (hcg₂.level hrs.level).bind fun cg₃ hls => ?_
  have hnames₃ := hls.names.trans (hcg₂.names.trans hnames₁)
  have hlen₃ := hls.length.trans hcg₂.length
  refine Agree.then_pure (hleft _ hls.level hnames₃ (by omega)) fun cg₄ _ hcg₄ => ?_
  have hcmp := (hcg₄.emit (isSequential_cmp op (scratchAt (used + 1)) (scratchAt used))).free hls
  exact (hcg₂.trans hcmp).free hrs

/-- Compiling an expression fails as its checks do; otherwise it emits code of its size. -/
theorem compileExpr_emits {e : Expr P} {dest used : ℕ} {cg : Codegen P} (hlevel : cg.Level used)
    (hnames : cg.names = n) (hsmall : cg.instructions.length + e.size n dest used < 2 ^ 32) :
    Agree (fun cg' _ => cg.Emits (e.size n dest used) cg') (compileExpr e dest cg)
      (e.checks n used) := by
  induction e generalizing dest used cg with
  | intLiteral k | realLiteral x | boolLiteral b =>
      exact (Emits.refl cg).emit (isSequential_of_all rfl)
  | «variable» name =>
      subst hnames
      rw [compileExpr, Expr.checks, varReg_names]
      simp only [Expr.size, Names.varReg]
      cases hreg : cg.names.registers name with
      | none => exact rfl
      | some src =>
          simp only [pure_bind, Option.some.injEq]
          by_cases hsrc : src = dest
          · rw [if_pos hsrc, if_neg (not_not_intro hsrc)]
            exact Emits.refl cg
          · rw [if_neg hsrc, if_pos hsrc]
            exact (Emits.refl cg).emit (isSequential_of_all rfl)
  | binary left op right ihl ihr =>
      rw [Expr.size] at hsmall ⊢
      rw [compileExpr, Expr.checks]
      cases hop : opToArithOpcode op with
      | some arithOp =>
          simp only [hop, Option.isSome_some, if_true] at hsmall ⊢
          refine Agree.bind (ihl hlevel hnames (by omega)) fun cg₁ _ hcg₁ => ?_
          have hnames₁ := hcg₁.names.trans hnames
          refine (hcg₁.level hlevel).bind fun cg₂ hs => ?_
          dsimp only
          have hlen := hs.length.trans hcg₁.length
          refine Agree.then_pure (ihr hs.level (hs.names.trans hnames₁) (by omega))
            fun cg₃ _ hcg₃ => ?_
          exact hcg₁.trans ((hcg₃.emit (isSequential_arith hop)).free hs)
      | none =>
          simp only [hop, Option.isSome_none, Bool.false_eq_true, if_false] at hsmall ⊢
          cases hcmp : op.isCmp with
          | true =>
              simp only [hcmp, if_true] at hsmall ⊢
              have hcmpEmits := compileCmp_emits (left.size n) (right.size n) op
                (fun _ => ihl) (fun _ => ihr) hlevel hnames (by omega)
              exact Agree.then_pure hcmpEmits fun cg₁ _ hcg₁ =>
                Emits.materialise hcg₁ dest (by omega)
          | false =>
              simp only [hcmp, Bool.false_eq_true, if_false] at hsmall ⊢
              refine hlevel.bind fun cg₁ hs => ?_
              dsimp only
              have hnames₁ := hs.names.trans hnames
              have hlen₁ := hs.length
              refine Agree.bind (ihl hs.level hnames₁ (by omega)) fun cg₂ _ hcg₂ => ?_
              have hlen₂ := hcg₂.length
              refine Agree.then_pure (ihr (hcg₂.level hs.level) (hcg₂.names.trans hnames₁)
                (by omega)) fun cg₃ _ hcg₃ => ?_
              exact ((hcg₂.trans hcg₃).emit (isSequential_bit op _ _ _)).free hs
  | unary op inner ih =>
      cases op with
      | neg =>
          rw [Expr.size] at hsmall
          refine Agree.bind (ih hlevel hnames (by omega)) fun cg₁ _ hcg₁ => ?_
          refine Agree.then_pure (hcg₁.level hlevel).alloc ?_
          rintro ⟨s, cg₂⟩ - hs
          obtain rfl : s = scratchAt used := hs.1
          have hsub : cg₂.Emits 2 (cg₂.emit [.loadImm (scratchAt used) (.s32 0),
              .arith .sub (scratchAt used) dest dest]) :=
            (Emits.refl cg₂).emit (isSequential_of_all rfl)
          exact hcg₁.trans (hsub.free hs.2)
      | not =>
          rw [Expr.size] at hsmall
          exact Agree.then_pure (ih hlevel hnames (by omega)) fun cg₁ _ hcg₁ =>
            hcg₁.emit (isSequential_of_all rfl)
  | arrayAccess name index ih =>
      rw [Expr.size] at hsmall
      subst hnames
      rw [compileExpr, Expr.checks, varReg_names]
      refine Agree.bind_left fun arrayReg => ?_
      refine hlevel.bind fun cg₁ hs => ?_
      have hlen := hs.length
      exact Agree.then_pure (ih hs.level hs.names (by omega)) fun cg₂ _ hcg₂ =>
        (hcg₂.emit (isSequential_of_all rfl)).free hs
  | fieldAccess name field =>
      subst hnames
      rw [compileExpr, Expr.checks, varReg_names]
      refine Agree.bind_left fun reg => ?_
      have hread : ∀ inst : ℕ → Instruction P, (∀ s, IsSequential [inst s]) →
          Agree (fun cg' _ => cg.Emits 1 cg') (cg.allocScratch >>= fun p =>
            pure ((p.2.emit [inst p.1]).freeScratch p.1)) (allocCheck used) := by
        intro inst hseq
        refine Agree.then_pure hlevel.alloc ?_
        rintro ⟨s, cg₁⟩ - hs
        obtain rfl : s = scratchAt used := hs.1
        exact ((Emits.refl cg₁).emit (hseq _)).free hs.2
      cases hvar : cg.varTypes name with
      | none =>
          have hvar' : cg.names.varTypes name = none := hvar
          simp only [hvar']
          exact hread _ fun s => isSequential_of_all rfl
      | some vt =>
          have hvar' : cg.names.varTypes name = some vt := hvar
          simp only [hvar']
          cases vt with
          | sr | rs =>
              refine hread (fun s =>
                if field = "Q2" then .readSr reg s dest else .readSr reg dest s) fun s => ?_
              split <;> exact isSequential_of_all rfl
          | rTrig | fTrig => exact (Emits.refl cg).emit (isSequential_of_all rfl)
          | _ => exact hread _ fun s => isSequential_of_all rfl

/-! ### Comparisons and tests -/

/-- The checks of a condition without `AND`, `OR` and `NOT`. -/
def Expr.leafChecks (n : Names) (e : Expr P) : Except Abort Unit :=
  let test := do
    allocCheck 0
    e.checks n 1
    allocCheck 1
  match e with
  | .binary left op right =>
      if op.isCmp then do
        allocCheck 0
        right.checks n 1
        allocCheck 1
        left.checks n 2
      else test
  | _ => test

/-- The size of the code of a condition without `AND`, `OR` and `NOT`, its jump aside. -/
def Expr.leafSize (n : Names) (e : Expr P) : ℕ :=
  let test := e.size n (scratchAt 0) 1 + 2
  match e with
  | .binary left op right =>
      if op.isCmp then right.size n (scratchAt 0) 1 + left.size n (scratchAt 1) 2 + 1 else test
  | _ => test

/-- The order in which scratch registers are given back does not matter. -/
theorem freeScratch_comm (cg : Codegen P) (s t : ℕ) :
    (cg.freeScratch s).freeScratch t = (cg.freeScratch t).freeScratch s := by
  by_cases hst : s = t
  · rw [hst]
  · unfold freeScratch
    by_cases hs : s ∈ scratchRegs <;> by_cases ht : t ∈ scratchRegs <;>
      simp only [hs, ht, if_true, if_false, Function.update_comm hst]

/-- Two computations that use a scratch register each, and some instructions. -/
theorem Codegen.Emits.free_free {cg cg₁ cg₂ cg₃ cg₄ : Codegen P} {m k used used' : ℕ}
    (hs : cg.Takes used cg₁) (h₁ : cg₁.Emits m cg₂) (ht : cg₂.Takes used' cg₃)
    (h₂ : cg₃.Emits k cg₄) :
    cg.Emits (m + k) ((cg₄.freeScratch (scratchAt used)).freeScratch (scratchAt used')) := by
  rw [freeScratch_comm]
  exact (h₁.trans (h₂.free ht)).free hs

/-- A test fails as its checks do. -/
theorem compileTest_emits {e : Expr P} {cg : Codegen P} (hlevel : cg.Level 0)
    (hnames : cg.names = n)
    (hsmall : cg.instructions.length + (e.size n (scratchAt 0) 1 + 2) < 2 ^ 32) :
    Agree (fun cg' _ => cg.Emits (e.size n (scratchAt 0) 1 + 2) cg') (compileTest e cg) (do
      allocCheck 0
      e.checks n 1
      allocCheck 1) := by
  refine hlevel.bind fun cg₁ hs => ?_
  have hlen := hs.length
  refine Agree.bind (compileExpr_emits hs.level (hs.names.trans hnames) (by omega))
    fun cg₂ _ hcg₂ => ?_
  refine Agree.then_pure (hcg₂.level hs.level).alloc fun ⟨t, cg₃⟩ _ ht => ?_
  obtain rfl : t = scratchAt 1 := ht.1
  exact hcg₂.free_free hs ht.2 ((Emits.refl cg₃).emit (isSequential_of_all rfl))

/-- A condition without `AND`, `OR` and `NOT` fails as its checks do. -/
theorem compileLeaf_emits {e : Expr P} {cg : Codegen P} (hlevel : cg.Level 0)
    (hnames : cg.names = n) (hsmall : cg.instructions.length + e.leafSize n < 2 ^ 32) :
    Agree (fun cg' _ => cg.Emits (e.leafSize n) cg') (compileLeaf e cg) (e.leafChecks n) := by
  cases e with
  | binary left op right =>
      rw [Expr.leafSize] at hsmall ⊢
      rw [compileLeaf, Expr.leafChecks]
      by_cases hcmp : op.isCmp
      · simp only [hcmp, if_true] at hsmall ⊢
        exact compileCmp_emits (left.size n) (right.size n) op (fun _ => compileExpr_emits)
          (fun _ => compileExpr_emits) hlevel hnames hsmall
      · simp only [hcmp] at hsmall ⊢
        exact compileTest_emits hlevel hnames hsmall
  | _ => exact compileTest_emits hlevel hnames hsmall

/-! ### Calls -/

/-- The checks of an input of a function block. -/
def Expr.inputChecks (n : Names) (arg : Expr P) (used : ℕ) : Except Abort Unit :=
  match arg with
  | .variable name => do
      let _ ← n.varReg name
      pure ()
  | arg => arg.checks n used

/-- The size of the code of an input of a function block. -/
def Expr.inputSize (n : Names) (arg : Expr P) (dest used : ℕ) : ℕ :=
  match arg with
  | .variable _ => 1
  | arg => arg.size n dest used

/-- The inputs that a call has to compute, when it is one of a function block with enough
arguments; an input that is not there is `FALSE`. -/
def blockInputs : Option VarType → List (Expr P) → Option (List (Option (Expr P)))
  | some .ton, input :: _ :: _ | some .tof, input :: _ :: _ | some .tp, input :: _ :: _ =>
      some [some input]
  | some .ctu, cu :: _ :: rest | some .ctd, cu :: _ :: rest | some .ctud, cu :: _ :: rest =>
      some [some cu, rest.head?]
  | some .sr, s1 :: r :: _ | some .rs, s1 :: r :: _ => some [some s1, some r]
  | some .rTrig, clk :: _ | some .fTrig, clk :: _ => some [some clk]
  | _, _ => none

/-- The checks of the inputs of a function block, each of which has a scratch register. -/
def inputsChecks (n : Names) : List (Option (Expr P)) → (used : ℕ) → Except Abort Unit
  | [], _ => pure ()
  | arg :: args, used => do
      allocCheck used
      match arg with
      | some arg => arg.inputChecks n (used + 1)
      | none => pure ()
      inputsChecks n args (used + 1)

/-- The size of the code of the inputs of a function block. -/
def inputsSize (n : Names) : List (Option (Expr P)) → (used : ℕ) → ℕ
  | [], _ => 0
  | arg :: args, used =>
      (match arg with
        | some arg => arg.inputSize n (scratchAt used) (used + 1)
        | none => 1) + inputsSize n args (used + 1)

/-- The checks of the arguments of a function. -/
def argsChecks (n : Names) (args : List (Expr P)) : Except Abort Unit :=
  (args.take 4).zipIdx.foldlM (fun _ p => p.1.checks n 0) ()

/-- The size of the code of the arguments of a function. -/
def argsSize (n : Names) (args : List (Expr P)) : ℕ :=
  ((args.take 4).zipIdx.map fun p => p.1.size n p.2 0).sum

/-- The checks of a call. -/
def callChecks (n : Names) (name : String) (args : List (Expr P)) : Except Abort Unit :=
  match blockInputs (n.varTypes name) args with
  | some inputs => do
      let _ ← n.varReg name
      inputsChecks n inputs 0
  | none => argsChecks n args

/-- An input fails as its checks do. -/
theorem compileInput_emits {arg : Expr P} {dest used : ℕ} {cg : Codegen P}
    (hlevel : cg.Level used) (hnames : cg.names = n)
    (hsmall : cg.instructions.length + arg.inputSize n dest used < 2 ^ 32) :
    Agree (fun cg' _ => cg.Emits (arg.inputSize n dest used) cg') (compileInput arg dest cg)
      (arg.inputChecks n used) := by
  cases arg with
  | «variable» name =>
      subst hnames
      rw [compileInput, Expr.inputChecks, varReg_names]
      refine Agree.bind_left fun r => ?_
      exact (Emits.refl cg).emit (isSequential_of_all rfl)
  | _ => exact compileExpr_emits hlevel hnames hsmall

/-- An input that may be missing fails as its checks do. -/
theorem compileCountDown_emits {arg : Option (Expr P)} {used : ℕ} {cg : Codegen P}
    (hlevel : cg.Level (used + 1)) (hnames : cg.names = n)
    (hsmall : cg.instructions.length + inputsSize n [arg] used < 2 ^ 32) :
    Agree (fun cg' _ => cg.Emits (inputsSize n [arg] used) cg')
      (compileCountDown arg (scratchAt used) cg)
      (match arg with
        | some arg => arg.inputChecks n (used + 1)
        | none => pure ()) := by
  cases arg with
  | none => exact (Emits.refl cg).emit (isSequential_of_all rfl)
  | some arg => exact compileInput_emits hlevel hnames hsmall

/-- A call with one input. -/
theorem oneInput_emits {input : Expr P} {name : String} {cg : Codegen P} (hlevel : cg.Level 0)
    (hnames : cg.names = n)
    (hsmall : cg.instructions.length + (inputsSize n [some input] 0 + 1) < 2 ^ 32)
    (inst : ℕ → ℕ → Instruction P) (hseq : ∀ r s, IsSequential [inst r s]) :
    Agree (fun cg' _ => cg.Emits (inputsSize n [some input] 0 + 1) cg') (do
        let r ← cg.varReg name
        let (s, cg) ← cg.allocScratch
        let cg ← compileInput input s cg
        pure ((cg.emit [inst r s]).freeScratch s))
      (do
        let _ ← n.varReg name
        inputsChecks n [some input] 0) := by
  subst hnames
  rw [varReg_names]
  refine Agree.bind_left fun r => ?_
  refine hlevel.bind fun cg₁ hs => ?_
  have hlen := hs.length
  simp only [inputsChecks, bind_pure_unit]
  refine Agree.then_pure (compileInput_emits hs.level hs.names ?_) fun cg₂ _ hcg₂ => ?_
  · rw [inputsSize] at hsmall
    omega
  · exact (hcg₂.emit (hseq _ _)).free hs

/-- A call with two inputs, of which the second may be missing. -/
theorem twoInputs_emits {first : Expr P} {second : Option (Expr P)} {name : String}
    {cg : Codegen P} (hlevel : cg.Level 0) (hnames : cg.names = n)
    (hsmall : cg.instructions.length + (inputsSize n [some first, second] 0 + 1) < 2 ^ 32)
    (inst : ℕ → ℕ → ℕ → Instruction P) (hseq : ∀ r s t, IsSequential [inst r s t]) :
    Agree (fun cg' _ => cg.Emits (inputsSize n [some first, second] 0 + 1) cg') (do
        let r ← cg.varReg name
        let (s, cg) ← cg.allocScratch
        let cg ← compileInput first s cg
        let (t, cg) ← cg.allocScratch
        let cg ← compileCountDown second t cg
        pure (((cg.emit [inst r s t]).freeScratch t).freeScratch s))
      (do
        let _ ← n.varReg name
        inputsChecks n [some first, second] 0) := by
  subst hnames
  rw [varReg_names]
  refine Agree.bind_left fun r => ?_
  refine hlevel.bind fun cg₁ hs => ?_
  have hlen := hs.length
  have hsize : inputsSize cg.names [some first, second] 0 =
      first.inputSize cg.names (scratchAt 0) 1 + inputsSize cg.names [second] 1 := rfl
  simp only [inputsChecks, bind_pure_unit, Nat.zero_add]
  refine Agree.bind (compileInput_emits hs.level hs.names (by omega)) fun cg₂ _ hcg₂ => ?_
  have hlen₂ := hcg₂.length
  refine (hcg₂.level hs.level).bind fun cg₃ ht => ?_
  have hlen₃ := ht.length
  refine Agree.then_pure (compileCountDown_emits ht.level
    (ht.names.trans (hcg₂.names.trans hs.names)) (by omega)) fun cg₄ _ hcg₄ => ?_
  rw [hsize, Nat.add_assoc]
  exact (hcg₂.trans ((hcg₄.emit (hseq _ _ _)).free ht)).free hs

/-- A call of a function block fails as its checks do. -/
theorem compileFunCall_block {name : String} {args : List (Expr P)}
    {inputs : List (Option (Expr P))} {cg : Codegen P} (hlevel : cg.Level 0)
    (hnames : cg.names = n) (hblock : blockInputs (n.varTypes name) args = some inputs)
    (hsmall : cg.instructions.length + (inputsSize n inputs 0 + 1) < 2 ^ 32) :
    Agree (fun cg' _ => cg.Emits (inputsSize n inputs 0 + 1) cg') (compileFunCall name args cg)
      (callChecks n name args) := by
  have htypes : cg.varTypes name = n.varTypes name := by
    rw [← hnames]
    rfl
  rw [callChecks, hblock]
  unfold compileFunCall
  rw [htypes]
  generalize n.varTypes name = vt at hblock
  cases vt with
  | none => cases hblock
  | some vt =>
      cases vt with
      | ton | tof | tp =>
          rcases args with _ | ⟨input, _ | ⟨pt, rest⟩⟩
          · cases hblock
          · cases hblock
          · cases hblock
            exact oneInput_emits hlevel hnames hsmall
              (fun r s => .timerRun r s (preset pt) _) fun _ _ => isSequential_of_all rfl
      | ctu | ctd | ctud =>
          rcases args with _ | ⟨cu, _ | ⟨pv, rest⟩⟩
          · cases hblock
          · cases hblock
          · cases hblock
            exact twoInputs_emits hlevel hnames hsmall
              (fun r s t => .counterRun r s t (preset pv) _) fun _ _ _ => isSequential_of_all rfl
      | sr | rs =>
          rcases args with _ | ⟨s1, _ | ⟨r, rest⟩⟩
          · cases hblock
          · cases hblock
          · cases hblock
            exact twoInputs_emits hlevel hnames hsmall
              (fun reg s t => .srRun reg s t _) fun _ _ _ => isSequential_of_all rfl
      | rTrig | fTrig =>
          rcases args with _ | ⟨clk, rest⟩
          · cases hblock
          · cases hblock
            exact oneInput_emits hlevel hnames hsmall
              (fun r s => .edgeRun r s _) fun _ _ => isSequential_of_all rfl
      | _ => cases hblock

/-- A call of anything else computes the arguments and calls index `0`. -/
theorem compileFunCall_generic {name : String} {args : List (Expr P)} {cg : Codegen P}
    (hnames : cg.names = n) (hblock : blockInputs (n.varTypes name) args = none) :
    compileFunCall name args cg = genericCall args cg := by
  have htypes : cg.varTypes name = n.varTypes name := by
    rw [← hnames]
    rfl
  unfold compileFunCall
  rw [htypes]
  generalize n.varTypes name = vt at hblock
  cases vt with
  | none => rfl
  | some vt =>
      cases vt with
      | ton | tof | tp | ctu | ctd | ctud | sr | rs =>
          rcases args with _ | ⟨a, _ | ⟨b, rest⟩⟩
          · rfl
          · rfl
          · cases hblock
      | rTrig | fTrig =>
          rcases args with _ | ⟨a, rest⟩
          · rfl
          · cases hblock
      | _ => rfl

/-- The arguments of a function fail as their checks do. -/
theorem compileArgs_emits (args : List (Expr P × ℕ)) {cg : Codegen P} (hlevel : cg.Level 0)
    (hnames : cg.names = n)
    (hsmall : cg.instructions.length + (args.map fun p => p.1.size n p.2 0).sum < 2 ^ 32) :
    Agree (fun cg' _ => cg.Emits (args.map fun p => p.1.size n p.2 0).sum cg')
      (args.foldlM (fun cg p => compileExpr p.1 p.2 cg) cg)
      (args.foldlM (fun _ p => p.1.checks n 0) ()) := by
  induction args generalizing cg with
  | nil => exact Emits.refl cg
  | cons p args ih =>
      rw [List.map_cons, List.sum_cons] at hsmall ⊢
      rw [List.foldlM_cons, List.foldlM_cons]
      refine Agree.bind (compileExpr_emits hlevel hnames (by omega)) fun cg₁ _ hcg₁ => ?_
      have hlen := hcg₁.length
      have hrest := ih (hcg₁.level hlevel) (hcg₁.names.trans hnames) (by omega)
      exact hrest.mono fun cg₂ _ hcg₂ => hcg₁.trans hcg₂

end Weftik.St
