import Weftik.St.Parts

/-!
# The Code of ST Statements

Whether a statement compiles is decided by its checks. When it does, its code is put together
from the parts that `Wired` names, and the jumps between them have got their targets; a call
of a function keeps the target `0`, and so do the jumps of the second list of a condition of
`WHILE` or `REPEAT`.

## Main definitions

* `Places`: what compiling a statement does.
* `Codegen.Tests`: where the code of a condition stands, and where its jumps lead.

## Main results

* `compileStmts_places`: compiling some statements fails as their checks do, and otherwise the
  jumps lead where they should just when nothing is left at its placeholder.
-/

open Outcome Code

namespace Weftik.St

open Codegen

variable {P : Platform}

/-- Compiling fails as the checks do. Otherwise code of the given size is placed behind the
old one, and its jumps lead as `W` says just when `wires` holds. -/
def Places (n : Names) (compile : Compiler P) (checks : (inLoop : Bool) → Except Abort Unit)
    (size : ℕ) (W : List (Instruction P) → (base : ℕ) → (exit : Option ℕ) → Prop)
    (wires : Bool) : Prop :=
  ∀ cg, cg.Level 0 → cg.names = n → cg.instructions.length + size < 2 ^ 32 →
    Agree (fun cg' _ => cg.Grown size
        (fun program exit => W program cg.instructions.length exit) (wires = true) cg')
      (compile cg) (checks cg.inLoop)

/-- What compiling a statement does. -/
def StmtPlaces (n : Names) (entry : String → ℕ → Prop) (stmt : Statement P) : Prop :=
  Places n (compileStmt stmt) (stmt.checks n) (stmt.size n)
    (fun program => stmt.Wired n entry program) (stmt.wires n)

/-- What compiling some statements does. -/
def StmtsPlaces (n : Names) (entry : String → ℕ → Prop) (stmts : List (Statement P)) : Prop :=
  Places n (compileStmts stmts) (stmtsChecks n stmts) (stmtsSize n stmts)
    (fun program => StmtsWired n entry program stmts) (stmtsWire n stmts)

variable {n : Names} {entry : String → ℕ → Prop}

attribute [local simp] compileStmt compileStmts compileCases Statement.checks stmtsChecks
  casesChecks Statement.size stmtsSize casesSize Statement.Wired StmtsWired CasesWired
  Statement.wires stmtsWire casesWire

/-- The index behind some instructions. -/
theorem currentIdx_emit (cg : Codegen P) (code : List (Instruction P)) :
    (cg.emit code).currentIdx = UInt32.ofNat (cg.instructions.length + code.length) := by
  rw [currentIdx, length_emit]

theorem currentIdx_grow (cg : Codegen P) (code : List (Instruction P)) (new : List UInt32) :
    (cg.grow code new).currentIdx = UInt32.ofNat (cg.instructions.length + code.length) :=
  currentIdx_emit cg code

/-- A label that fits into `u32`. -/
theorem toNat_of_ofNat {k : ℕ} {label : UInt32} (h : UInt32.ofNat k = label) (hlt : k < 2 ^ 32) :
    label.toNat = k := by
  rw [← h]
  exact UInt32.toNat_ofNat_of_lt hlt

theorem ofNat_of_toNat {k : ℕ} {label : UInt32} (h : label.toNat = k) :
    UInt32.ofNat k = label := by
  rw [← h]
  exact UInt32.ofNat_toNat

theorem retarget_jump (t t' : UInt32) : retarget t (.jump t' : Instruction P) = .jump t := rfl

/-- Compiling behind some other code of the statement. -/
theorem Places.after {compile : Compiler P} {checks : Bool → Except Abort Unit} {size : ℕ}
    {W : List (Instruction P) → ℕ → Option ℕ → Prop} {wires : Bool}
    (h : Places n compile checks size W wires) {cg : Codegen P} (hlevel : cg.Level 0)
    (hnames : cg.names = n) {before : List (Instruction P)} {k : ℕ} (hbefore : before.length = k)
    (hsmall : cg.instructions.length + k + size < 2 ^ 32) (new₀ : List UInt32) :
    Agree (fun cg' _ => ∃ code new, cg' = cg.grow (before ++ code 0) (new₀ ++ new) ∧
        (cg.inLoop = false → new = []) ∧
          Part (cg.instructions.length + k) size (cg.instructions.length + k + size) code new
            (fun program exit => W program (cg.instructions.length + k) exit) (wires = true))
      (compile (cg.grow before new₀)) (checks cg.inLoop) := by
  subst hbefore
  have hlen := length_grow cg before new₀
  rw [← inLoop_grow cg before new₀]
  refine (h (cg.grow before new₀) (hlevel.grow _ _) hnames (by rw [hlen]; exact hsmall)).mono
    fun cg' _ hcg' => ?_
  obtain ⟨code, new, rfl, hnew, hpart⟩ := hcg'
  rw [hlen] at hpart
  exact ⟨code, new, grow_grow _ _ _ _ _, hnew, hpart⟩

/-- In the second state the code of a condition stands at `test`, and a jump to `no` behind it.
The first list leads behind this jump; the second one too, unless it is forgotten. -/
def Codegen.Tests (cg cg' : Codegen P) (e : Expr P) (test no : ℕ) (forgets : Bool) : Prop :=
  ∃ (C : UInt32 → UInt32 → List (Instruction P)) (elses ends : List UInt32) (yes out : UInt32),
    CondLayout e test (e.condSize cg.names) C elses ends ∧ CondMeans cg e test C ∧
      yes.toNat = test + e.condSize cg.names + 1 ∧ out.toNat = no ∧
        CodeAt cg'.instructions test (C yes (if forgets then 0 else yes) ++ [.jump out])

/-! ### Statements without statements in them -/

theorem assign_places (name : String) (value : Expr P) :
    StmtPlaces n entry (.assign name value) := by
  intro cg hlevel hnames hsmall
  subst hnames
  simp only [Statement.size, Statement.Wired, Statement.wires] at hsmall ⊢
  rw [compileStmt, Statement.checks]
  refine Agree.bind_left fun _ => ?_
  rw [varReg_names]
  cases hreg : cg.names.registers name with
  | none =>
      simp only [Names.varReg, hreg]
      exact rfl
  | some dest =>
      have hdest : cg.names.reg name = dest := by rw [Names.reg, hreg]; rfl
      rw [hdest] at hsmall ⊢
      simp only [Names.varReg, hreg, pure_bind]
      refine Agree.then_pure (compileExpr_emits hlevel rfl (by omega)) fun cg₁ _ hcg₁ => ?_
      exact (hcg₁.emit (isSequential_of_all rfl)).grown

theorem arrayAssign_places (name : String) (index value : Expr P) :
    StmtPlaces n entry (.arrayAssign name index value) := by
  intro cg hlevel hnames hsmall
  subst hnames
  simp only [Statement.size, Statement.Wired, Statement.wires] at hsmall ⊢
  rw [compileStmt, Statement.checks, varReg_names]
  refine Agree.bind_left fun arrayReg => ?_
  refine hlevel.bind fun cg₁ hs => ?_
  have hlen₁ := hs.length
  refine Agree.bind (compileExpr_emits hs.level hs.names (by omega)) fun cg₂ _ hcg₂ => ?_
  have hlen₂ := hcg₂.length
  refine (hcg₂.level hs.level).bind fun cg₃ ht => ?_
  have hlen₃ := ht.length
  refine Agree.then_pure (compileExpr_emits ht.level (ht.names.trans (hcg₂.names.trans hs.names))
    (by rw [Nat.zero_add]; omega)) fun cg₄ _ hcg₄ => ?_
  have hindex : IsSequential
      [(.storeIndex arrayReg (scratchAt 0) (scratchAt 1) : Instruction P)] :=
    isSequential_of_all rfl
  have hstore : IsSequential [(.storeSignal name arrayReg : Instruction P)] :=
    isSequential_of_all rfl
  exact ((hcg₂.free_free hs ht (hcg₄.emit hindex)).emit hstore).grown

theorem return_places : StmtPlaces n entry (.return : Statement P) := by
  intro cg hlevel hnames hsmall
  simp only [Statement.size, Statement.Wired, Statement.wires, Statement.checks]
  rw [compileStmt]
  refine Emits.grown ⟨[.halt], rfl, rfl, fun i inst t hinst ht => ?_, fun inst hmem => ?_⟩
  · rw [List.mem_singleton.mp (List.mem_of_getElem? hinst)] at ht
    cases ht
  · rw [List.mem_singleton.mp hmem]
    exact nofun

theorem exit_places : StmtPlaces n entry (.exit : Statement P) := by
  intro cg hlevel hnames hsmall
  simp only [Statement.size, Statement.Wired, Statement.wires, Statement.checks] at hsmall ⊢
  rw [compileStmt, recordExit, inLoop]
  cases hexits : cg.loopExits with
  | nil => exact rfl
  | cons exits rest =>
      refine ⟨fun u => [.jump u], [cg.currentIdx], ?_, fun hout => ?_, ?_⟩
      · simp only [grow, hexits, List.modifyHead_cons]
      · rw [inLoop, hexits] at hout
        cases hout
      · exact (Part.exit (currentIdx_toNat (by omega))).congr (fun _ _ => Iff.rfl) (by simp)

theorem funCall_places (hentry : ∀ name, ¬ entry name 0) (name : String) (args : List (Expr P)) :
    StmtPlaces n entry (.funCall name args) := by
  intro cg hlevel hnames hsmall
  simp only [Statement.size, Statement.Wired, Statement.wires, Statement.checks, callSize]
    at hsmall ⊢
  rw [compileStmt]
  cases hblock : blockInputs (n.varTypes name) args with
  | some inputs =>
      simp only [hblock, Option.isSome_some] at hsmall ⊢
      exact (compileFunCall_block hlevel hnames hblock hsmall).mono fun cg' _ hcg' => hcg'.grown
  | none =>
      simp only [hblock, Option.isSome_none, Bool.false_eq_true] at hsmall ⊢
      rw [compileFunCall_generic hnames hblock, callChecks, hblock]
      have hargs := compileArgs_emits (args.take 4).zipIdx hlevel hnames
        (by rw [argsSize] at hsmall; omega)
      refine Agree.then_pure hargs fun cg₁ _ hcg₁ => ?_
      obtain ⟨code, rfl, hlen, hforward⟩ := hcg₁
      have hsize : argsSize n args = code.length := hlen.symm
      rw [← hlen] at hforward
      refine ⟨fun _ => code ++ [.call 0], [], ?_, fun _ => rfl, ?_⟩
      · rw [emit_emit, emit_eq_grow]
      · rw [hsize]
        exact ((Part.expression _ hforward rfl (by omega)).append (.call (hentry name))).congr
          (fun _ _ => Iff.rfl) (by simp)

/-! ### Branches and loops -/

section

variable {condition : Expr P} {thenBody elseBody body : List (Statement P)} {cg : Codegen P}

/-- Compiling an `IF`. -/
theorem ifThenElse_code (hthen : StmtsPlaces n entry thenBody)
    (helse : StmtsPlaces n entry elseBody) (hlevel : cg.Level 0) (hnames : cg.names = n)
    (hsmall : cg.instructions.length + (Statement.ifThenElse condition thenBody elseBody).size
        n < 2 ^ 32) :
    Agree (fun cg' _ =>
        cg.Grown ((Statement.ifThenElse condition thenBody elseBody).size n)
          (fun program exit => (Statement.ifThenElse condition thenBody elseBody).Wired n entry
            program cg.instructions.length exit)
          ((Statement.ifThenElse condition thenBody elseBody).wires n = true) cg' ∧
        cg.Tests cg' condition cg.instructions.length
          (cg.instructions.length + condition.condSize n + 1 + stmtsSize n thenBody + 1) false ∧
        JumpsAt cg'.instructions
          (cg.instructions.length + condition.condSize n + 1 + stmtsSize n thenBody)
          (cg.instructions.length + (Statement.ifThenElse condition thenBody elseBody).size n))
      (compileStmt (.ifThenElse condition thenBody elseBody) cg)
      ((Statement.ifThenElse condition thenBody elseBody).checks n cg.inLoop) := by
  subst hnames
  simp only [Statement.size, Statement.Wired, Statement.wires, Bool.and_eq_true] at hsmall ⊢
  rw [compileStmt, Statement.checks]
  refine Agree.bind_left fun _ => ?_
  refine Agree.bind (compileCondition_layout hlevel rfl (by omega)) fun p _ hp => ?_
  obtain ⟨C, elses, ends, rfl, hC, hmeans⟩ := hp
  generalize hm : condition.condSize cg.names = m at hsmall hC ⊢
  rw [StmtsPlaces] at hthen helse
  generalize stmtsSize cg.names thenBody = k₁ at hthen hsmall ⊢
  generalize stmtsSize cg.names elseBody = k₂ at helse hsmall ⊢
  have hlen : ∀ t u, (C t u).length = m := hC.length
  -- the two lists lead behind the jump
  simp only [emit_emit, currentIdx_emit, List.length_append, List.length_singleton, hlen]
  generalize hidx : UInt32.ofNat (cg.instructions.length + m) = toElse
  generalize hlabel : UInt32.ofNat (cg.instructions.length + (m + 1)) = thenLabel
  replace hidx := toNat_of_ofNat hidx (by omega)
  replace hlabel := toNat_of_ofNat hlabel (by omega)
  rw [hC.patchElses, hC.patchEnds, emit_eq_grow]
  have hlen₁ : (C thenLabel thenLabel ++ [Instruction.jump 0]).length = m + 1 := by
    rw [List.length_append, hlen, List.length_singleton]
  refine Agree.bind (hthen.after hlevel rfl hlen₁ (by omega) []) fun cg₁ _ hcg₁ => ?_
  obtain ⟨T, new₁, rfl, hnew₁, hT⟩ := hcg₁
  -- the jump behind the condition leads behind the jump that ends the first branch
  simp only [grow_emit, currentIdx_grow, length_grow, List.append_assoc, List.nil_append,
    List.length_append, List.length_singleton, hlen, hT.length, Nat.add_assoc]
  generalize hend : UInt32.ofNat (cg.instructions.length + (m + (1 + k₁))) = toEnd
  generalize helse' : UInt32.ofNat (cg.instructions.length + (m + (1 + (k₁ + 1)))) = elseLabel
  replace hend := toNat_of_ofNat hend (by omega)
  replace helse' := toNat_of_ofNat helse' (by omega)
  rw [patchJump_grow (by rw [hidx, hlen])]
  have hlen₂ : (C thenLabel thenLabel ++
      ([Instruction.jump elseLabel] ++ (T 0 ++ [Instruction.jump 0]))).length =
        m + (1 + (k₁ + 1)) := by
    simp only [List.length_append, List.length_singleton, hlen, hT.length]
  refine Agree.then_pure (helse.after hlevel rfl hlen₂ (by omega) new₁) fun cg₂ _ hcg₂ => ?_
  obtain ⟨E, new₂, rfl, hnew₂, hE⟩ := hcg₂
  -- the jump that ends the first branch leads behind the second one
  rw [currentIdx_grow, List.length_append, hlen₂, hE.length]
  generalize hexit : UInt32.ofNat (cg.instructions.length + (m + (1 + (k₁ + 1)) + k₂)) = endLabel
  replace hexit := toNat_of_ofNat hexit (by omega)
  have hcg' : patchJump endLabel (cg.grow (C thenLabel thenLabel ++ ([Instruction.jump elseLabel] ++
      (T 0 ++ [Instruction.jump 0])) ++ E 0) (new₁ ++ new₂)) toEnd =
        cg.grow (C thenLabel thenLabel ++ ([.jump elseLabel] ++ (T 0 ++ ([.jump endLabel] ++ E 0))))
          (new₁ ++ new₂) := by
    have hcode : ∀ t, C thenLabel thenLabel ++
        ([Instruction.jump elseLabel] ++ (T 0 ++ [Instruction.jump t])) ++ E 0 =
          C thenLabel thenLabel ++ ([Instruction.jump elseLabel] ++ T 0) ++
            ([Instruction.jump t] ++ E 0) := fun t => by
      simp only [List.append_assoc]
    rw [hcode, patchJump_grow]
    · simp only [List.append_assoc]
      rfl
    · simp only [hend, List.length_append, List.length_singleton, hlen, hT.length]
  rw [hcg']
  refine ⟨⟨fun u => C thenLabel thenLabel ++ ([.jump elseLabel] ++ (T u ++
    ([.jump endLabel] ++ E u))), new₁ ++ new₂, rfl, fun hout => ?_, ?_⟩, ?_, ?_⟩
  · rw [hnew₁ hout, hnew₂ hout]
    rfl
  · simp only [← Nat.add_assoc] at hT hE hlabel helse' hexit ⊢
    have hcond := Part.ifCondition (cg.instructions.length + m + 1 + k₁ + 1 + k₂) hC
      hlabel (by omega) (by omega)
    have hparts := hcond.append ((Part.jump (.jump elseLabel) rfl helse' (by omega)).append
      ((hT.mono (by omega)).append ((Part.jump (.jump endLabel) rfl hexit (by omega)).append hE)))
    simp only [← Nat.add_assoc] at hparts
    refine hparts.congr (fun program exit => ?_) ?_
    · exact Iff.rfl
    · simp
  · refine ⟨C, elses, ends, thenLabel, elseLabel, by rw [hm]; exact hC, hmeans, by omega,
      by omega, ?_⟩
    rw [← List.append_assoc (C thenLabel thenLabel)]
    exact CodeAt.middle _ _ _
  · have hbefore : (cg.instructions ++ (C thenLabel thenLabel ++
        ([Instruction.jump elseLabel] ++ T 0))).length =
          cg.instructions.length + (m + (1 + k₁)) := by
      simp only [List.length_append, List.length_singleton, hlen, hT.length]
    have hat := CodeAt.middle (cg.instructions ++ (C thenLabel thenLabel ++
      ([Instruction.jump elseLabel] ++ T 0))) [Instruction.jump endLabel] (E 0)
    rw [hbefore] at hat
    refine ⟨.jump endLabel, ?_, congrArg some (by omega)⟩
    simpa only [grow, emit, List.append_assoc] using hat.head

theorem ifThenElse_places
    (hthen : StmtsPlaces n entry thenBody) (helse : StmtsPlaces n entry elseBody) :
    StmtPlaces n entry (.ifThenElse condition thenBody elseBody) := by
  intro cg hlevel hnames hsmall
  exact (ifThenElse_code hthen helse hlevel hnames hsmall).mono fun _ _ h => h.1

/-- Compiling a `WHILE`. -/
theorem whileDo_code (hbody : StmtsPlaces n entry body) (hlevel : cg.Level 0)
    (hnames : cg.names = n)
    (hsmall : cg.instructions.length + (Statement.whileDo condition body).size n < 2 ^ 32) :
    Agree (fun cg' _ =>
        cg.Grown ((Statement.whileDo condition body).size n)
          (fun program exit => (Statement.whileDo condition body).Wired n entry program
            cg.instructions.length exit)
          ((Statement.whileDo condition body).wires n = true) cg' ∧
        cg.Tests cg' condition cg.instructions.length
          (cg.instructions.length + (Statement.whileDo condition body).size n) true ∧
        JumpsAt cg'.instructions
          (cg.instructions.length + condition.condSize n + 1 + stmtsSize n body)
          cg.instructions.length)
      (compileStmt (.whileDo condition body) cg)
      ((Statement.whileDo condition body).checks n cg.inLoop) := by
  subst hnames
  simp only [Statement.size, Statement.Wired, Statement.wires] at hsmall ⊢
  rw [compileStmt, Statement.checks]
  refine Agree.bind_left fun _ => ?_
  have hpush : cg.pushLoop.instructions.length = cg.instructions.length := rfl
  have hlevel' : cg.pushLoop.Level 0 := ⟨hlevel.first, hlevel.second, hlevel.third⟩
  refine Agree.bind (compileCondition_layout hlevel' rfl (by rw [hpush]; omega))
    fun p _ hp => ?_
  obtain ⟨C, elses, ends, rfl, hC, hmeans⟩ := hp
  generalize hm : condition.condSize cg.names = m at hsmall hC ⊢
  rw [StmtsPlaces] at hbody
  generalize stmtsSize cg.names body = k at hbody hsmall ⊢
  have hlen : ∀ t u, (C t u).length = m := hC.length
  -- the first list leads behind the jump
  simp only [emit_emit, currentIdx_emit, List.length_append, List.length_singleton, hlen, hpush]
  generalize hidx : UInt32.ofNat (cg.instructions.length + m) = exitJump
  generalize hlabel : UInt32.ofNat (cg.instructions.length + (m + 1)) = bodyLabel
  replace hidx := toNat_of_ofNat hidx (by omega)
  replace hlabel := toNat_of_ofNat hlabel (by omega)
  rw [hC.patchElses, emit_eq_grow]
  have hlen₁ : (C bodyLabel 0 ++ [Instruction.jump 0]).length = m + 1 := by
    rw [List.length_append, hlen, List.length_singleton]
  refine Agree.then_pure (hbody.after hlevel' rfl hlen₁ (by rw [hpush]; omega) [])
    fun cg₁ _ hcg₁ => ?_
  obtain ⟨B, new, rfl, -, hB⟩ := hcg₁
  -- the jump behind the condition leads behind the jump that ends the loop
  simp only [grow_emit, length_grow, List.append_assoc, List.nil_append, List.length_append,
    List.length_singleton, hlen, hB.length, Nat.add_assoc, hpush] at hB ⊢
  have hstart : cg.pushLoop.currentIdx.toNat = cg.instructions.length :=
    currentIdx_toNat (by rw [hpush]; omega)
  generalize cg.pushLoop.currentIdx = loopStart at hstart ⊢
  generalize hexit : UInt32.ofNat (cg.instructions.length + (m + (1 + (k + 1)))) = exitLabel
  replace hexit := toNat_of_ofNat hexit (by omega)
  rw [patchJump_grow (by rw [hidx, hlen, hpush]), retarget_jump]
  replace hC : CondLayout condition cg.instructions.length m C elses ends := hC
  have hcond := Part.loopCondition (cg.instructions.length + (m + (1 + (k + 1)))) hC
    hlabel (by omega) (by omega) (by omega)
  simp only [← Nat.add_assoc] at hcond hB hexit hsmall
  have hparts := hcond.append ((Part.jump (.jump exitLabel) rfl hexit (by omega)).append
    ((hB.mono (by omega)).append (Part.jump (.jump loopStart) rfl hstart (by omega))))
  simp only [List.nil_append, List.append_nil] at hparts
  replace hparts : Part cg.instructions.length (m + (1 + (k + 1)))
    (cg.instructions.length + (m + (1 + (k + 1)))) _ _ _ _ := hparts.mono (by omega)
  have hcg' : (cg.pushLoop.grow (C bodyLabel 0 ++ ([.jump exitLabel] ++
      (B 0 ++ [.jump loopStart]))) new).popLoop = cg.emit (C bodyLabel 0 ++
        ([.jump exitLabel] ++ (B exitLabel ++ [.jump loopStart]))) :=
    popLoop_grow hparts (ofNat_of_toNat (by omega))
  refine ⟨(grown_popLoop hparts (by omega)).congr (fun program exit => ?_) ?_, ?_, ?_⟩
  · simp only [Nat.add_assoc]
  · simp
  · rw [hcg']
    refine ⟨C, elses, ends, bodyLabel, exitLabel, by rw [hm]; exact hC, hmeans, by omega,
      by omega, ?_⟩
    rw [← List.append_assoc (C bodyLabel 0)]
    exact CodeAt.middle _ _ _
  · have hbefore : (cg.instructions ++ (C bodyLabel 0 ++ ([Instruction.jump exitLabel] ++
        B exitLabel))).length = cg.instructions.length + (m + (1 + k)) := by
      simp only [List.length_append, List.length_singleton, hlen, hB.length]
    have hat := CodeAt.middle (cg.instructions ++ (C bodyLabel 0 ++
      ([Instruction.jump exitLabel] ++ B exitLabel))) [Instruction.jump loopStart] []
    rw [hbefore] at hat
    rw [hcg']
    refine ⟨.jump loopStart, ?_, congrArg some hstart⟩
    simpa only [emit, List.append_assoc, List.append_nil] using hat.head

theorem whileDo_places (hbody : StmtsPlaces n entry body) :
    StmtPlaces n entry (.whileDo condition body) := by
  intro cg hlevel hnames hsmall
  exact (whileDo_code hbody hlevel hnames hsmall).mono fun _ _ h => h.1

/-- Compiling a `REPEAT`. -/
theorem repeatUntil_code (hbody : StmtsPlaces n entry body) (hlevel : cg.Level 0)
    (hnames : cg.names = n)
    (hsmall : cg.instructions.length + (Statement.repeatUntil body condition).size n < 2 ^ 32) :
    Agree (fun cg' _ =>
        cg.Grown ((Statement.repeatUntil body condition).size n)
          (fun program exit => (Statement.repeatUntil body condition).Wired n entry program
            cg.instructions.length exit)
          ((Statement.repeatUntil body condition).wires n = true) cg' ∧
        cg.Tests cg' condition (cg.instructions.length + stmtsSize n body)
          cg.instructions.length true)
      (compileStmt (.repeatUntil body condition) cg)
      ((Statement.repeatUntil body condition).checks n cg.inLoop) := by
  subst hnames
  simp only [Statement.size, Statement.Wired, Statement.wires] at hsmall ⊢
  rw [compileStmt, Statement.checks]
  refine Agree.bind_left fun _ => ?_
  have hpush : cg.pushLoop.instructions.length = cg.instructions.length := rfl
  have hlevel' : cg.pushLoop.Level 0 := ⟨hlevel.first, hlevel.second, hlevel.third⟩
  rw [StmtsPlaces] at hbody
  generalize stmtsSize cg.names body = k at hbody hsmall ⊢
  refine Agree.bind (hbody cg.pushLoop hlevel' rfl (by rw [hpush]; omega)) fun cg₁ _ hcg₁ => ?_
  obtain ⟨B, new, rfl, -, hB⟩ := hcg₁
  have hlen₁ : (cg.pushLoop.grow (B 0) new).instructions.length = cg.instructions.length + k := by
    rw [length_grow, hB.length, hpush]
  have hcondition := compileCondition_layout (e := condition) (hlevel'.grow (B 0) new) rfl
    (by rw [hlen₁]; change _ + condition.condSize cg.names < _; omega)
  refine Agree.then_pure hcondition fun p _ hp => ?_
  obtain ⟨C, elses, ends, rfl, hC, hmeans⟩ := hp
  replace hC : CondLayout condition _ (condition.condSize cg.names) C elses ends := hC
  generalize hm : condition.condSize cg.names = m at hsmall hC ⊢
  have hlen : ∀ t u, (C t u).length = m := hC.length
  -- the first list leads behind the jump
  simp only [emit_emit, currentIdx_emit, List.length_append, List.length_singleton, hlen, hlen₁,
    Nat.add_assoc]
  generalize hidx : UInt32.ofNat (cg.instructions.length + (k + m)) = toLoop
  generalize hexit : UInt32.ofNat (cg.instructions.length + (k + (m + 1))) = exitLabel
  replace hidx := toNat_of_ofNat hidx (by omega)
  replace hexit := toNat_of_ofNat hexit (by omega)
  rw [hC.patchElses, grow_emit, ← List.append_assoc, ← List.append_nil [Instruction.jump 0]]
  have hstart : cg.pushLoop.currentIdx.toNat = cg.instructions.length :=
    currentIdx_toNat (by rw [hpush]; omega)
  generalize cg.pushLoop.currentIdx = loopStart at hstart ⊢
  rw [patchJump_grow (by rw [List.length_append, hlen, hB.length, hidx, hpush]),
    retarget_jump, List.append_nil, List.append_assoc]
  rw [hlen₁] at hC hmeans
  rw [hpush] at hB
  simp only [← Nat.add_assoc] at hexit hsmall ⊢
  have hcond := Part.loopCondition (cg.instructions.length + k + m + 1) hC hexit (by omega)
    (by omega) (by omega)
  have hparts := (hB.mono (by omega)).append
    (hcond.append (Part.jump (.jump loopStart) rfl hstart (by omega)))
  simp only [List.append_nil] at hparts
  replace hparts : Part cg.instructions.length (k + (m + 1))
    (cg.instructions.length + (k + (m + 1))) _ _ _ _ := hparts.mono (by omega)
  have hcg' : (cg.pushLoop.grow (B 0 ++ (C exitLabel 0 ++ [.jump loopStart])) new).popLoop =
      cg.emit (B exitLabel ++ (C exitLabel 0 ++ [.jump loopStart])) :=
    popLoop_grow hparts (ofNat_of_toNat (by omega))
  refine ⟨(grown_popLoop hparts (by omega)).congr (fun program exit => ?_) ?_, ?_⟩
  · simp only [← Nat.add_assoc]
  · simp [and_comm]
  · rw [hcg']
    refine ⟨C, elses, ends, exitLabel, loopStart, by rw [hm]; exact hC, hmeans, by omega,
      hstart, ?_⟩
    have hbefore : (cg.instructions ++ B exitLabel).length = cg.instructions.length + k := by
      rw [List.length_append, hB.length]
    have hat := CodeAt.middle (cg.instructions ++ B exitLabel)
      (C exitLabel 0 ++ [Instruction.jump loopStart]) []
    rw [hbefore, List.append_nil, List.append_assoc] at hat
    exact hat

theorem repeatUntil_places (hbody : StmtsPlaces n entry body) :
    StmtPlaces n entry (.repeatUntil body condition) := by
  intro cg hlevel hnames hsmall
  exact (repeatUntil_code hbody hlevel hnames hsmall).mono fun _ _ h => h.1

/-- The step of a `FOR` fails as its checks do. -/
theorem compileStep_emits {step : Option (Expr P)} (hlevel : cg.Level 1) (hnames : cg.names = n)
    (hsmall : cg.instructions.length + stepSize n step < 2 ^ 32) :
    Agree (fun cg' _ => cg.Emits (stepSize n step) cg') (compileStep step (scratchAt 0) cg)
      (stepChecks n step) := by
  cases step with
  | some step => exact compileExpr_emits hlevel hnames hsmall
  | none => exact (Emits.refl cg).emit (isSequential_of_all rfl)

theorem forTo_places {var : String} {start stop : Expr P} {step : Option (Expr P)}
    (hbody : StmtsPlaces n entry body) :
    StmtPlaces n entry (.forTo var start stop step body) := by
  intro cg hlevel hnames hsmall
  subst hnames
  simp only [Statement.size, Statement.Wired, Statement.wires] at hsmall ⊢
  rw [compileStmt, Statement.checks]
  refine Agree.bind_left fun _ => ?_
  rw [varReg_names]
  cases hreg : cg.names.registers var with
  | none =>
      simp only [Names.varReg, hreg]
      exact rfl
  | some varReg =>
      have hvar : cg.names.reg var = varReg := by rw [Names.reg, hreg]; rfl
      rw [hvar] at hsmall ⊢
      simp only [Names.varReg, hreg, pure_bind]
      refine Agree.bind (compileExpr_emits hlevel rfl (by omega)) fun cg₁ _ hcg₁ => ?_
      have hlen₁ := hcg₁.length
      have hnames₁ : cg₁.pushLoop.names = cg.names := hcg₁.names
      have hpush : cg₁.pushLoop.instructions.length = cg₁.instructions.length := rfl
      have hlevel₁ := hcg₁.level hlevel
      have hlevel' : cg₁.pushLoop.Level 0 := ⟨hlevel₁.first, hlevel₁.second, hlevel₁.third⟩
      generalize hm : start.size cg.names varReg 0 = m at hcg₁ hlen₁ hsmall ⊢
      -- the test of the variable
      refine hlevel'.bind fun cg₂ hs => ?_
      dsimp only
      have hlen₂ := hs.length
      refine Agree.bind (compileExpr_emits hs.level (hs.names.trans hnames₁)
        (by rw [hlen₂, hpush]; omega)) fun cg₃ _ hcg₃ => ?_
      have hcmp : IsSequential [(.cmp .gt varReg (scratchAt 0) : Instruction P)] :=
        isSequential_of_all rfl
      obtain ⟨S, hS, hlenS, hforwardS⟩ := (hcg₃.emit hcmp).free hs
      rw [hS]
      rw [← hlenS] at hforwardS
      change S.length = stop.size cg.names (scratchAt 0) 1 + 1 at hlenS
      generalize stop.size cg.names (scratchAt 0) 1 = r at hsmall hlenS ⊢
      rw [StmtsPlaces] at hbody
      generalize stmtsSize cg.names body = k at hbody hsmall ⊢
      rw [emit_emit, emit_eq_grow, emit_eq_grow]
      have hlenS' : (S ++ [Instruction.jumpIf 0]).length = r + 1 + 1 := by
        rw [List.length_append, hlenS]
        rfl
      refine Agree.bind (hbody.after hlevel' hnames₁ hlenS' (by rw [hpush]; omega) [])
        fun cg₄ _ hcg₄ => ?_
      obtain ⟨B, new, rfl, -, hB⟩ := hcg₄
      -- the step
      have hlen₄ : (cg₁.pushLoop.grow (S ++ [Instruction.jumpIf 0] ++ B 0)
          ([] ++ new)).instructions.length = cg₁.instructions.length + (r + 1 + 1 + k) := by
        rw [length_grow, List.length_append, hlenS', hB.length, hpush]
      refine (hlevel'.grow _ _).bind fun cg₅ ht => ?_
      dsimp only
      have hlen₅ := ht.length
      refine Agree.then_pure (compileStep_emits ht.level (ht.names.trans hnames₁)
        (by rw [hlen₅, hlen₄]; omega)) fun cg₆ _ hcg₆ => ?_
      have hadd : IsSequential
          [(.arith .add varReg (scratchAt 0) varReg : Instruction P)] :=
        isSequential_of_all rfl
      obtain ⟨A, hA, hlenA, hforwardA⟩ := (hcg₆.emit hadd).free ht
      rw [hA]
      rw [hlen₄, ← hlenA] at hforwardA
      change A.length = stepSize cg.names step + 1 at hlenA
      generalize stepSize cg.names step = q at hsmall hlenA ⊢
      simp only [grow_emit, currentIdx_grow, List.append_assoc, List.nil_append,
        List.length_append, List.length_singleton, hlenS, hlenA, hB.length, hpush]
      rw [hpush] at hB
      have hstart : cg₁.pushLoop.currentIdx.toNat = cg₁.instructions.length :=
        currentIdx_toNat (by rw [hpush]; omega)
      generalize cg₁.pushLoop.currentIdx = loopStart at hstart ⊢
      generalize hidx : UInt32.ofNat (cg₁.instructions.length + (r + 1)) = exitJump
      generalize hexit : UInt32.ofNat (cg₁.instructions.length +
        (r + 1 + (1 + (k + (q + 1 + 1))))) = exitLabel
      replace hidx := toNat_of_ofNat hidx (by omega)
      replace hexit := toNat_of_ofNat hexit (by omega)
      rw [patchJump_grow (by rw [hidx, hlenS, hpush])]
      -- the loop stands behind the start of the variable
      rw [hpush, hlenS] at hforwardS
      rw [hlenA] at hforwardA
      have htest := Part.expression (cg₁.instructions.length + (r + 1 + (1 + (k + (q + 1 + 1)))))
        hforwardS hlenS (by omega)
      have hstep := Part.expression (cg₁.instructions.length + (r + 1 + (1 + (k + (q + 1 + 1)))))
        hforwardA hlenA (by omega)
      simp only [← Nat.add_assoc] at hB hexit hsmall htest hstep
      have hparts := htest.append ((Part.jump (.jumpIf exitLabel) rfl hexit le_rfl).append
        ((hB.mono (by omega)).append
          (hstep.append (Part.jump (.jump loopStart) rfl hstart (by omega)))))
      simp only [List.nil_append, List.append_nil] at hparts
      have hloop := grown_popLoop (hparts.mono (by omega)) (by omega)
      refine (hcg₁.trans_grown hloop).congr (fun program exit => ?_) (by simp)
      simp only [hlen₁, ← Nat.add_assoc]

end

/-! ### Sequences -/

theorem nil_places : StmtsPlaces n entry ([] : List (Statement P)) := by
  intro cg hlevel hnames hsmall
  simp only [stmtsSize, StmtsWired, stmtsWire, stmtsChecks, compileStmts]
  refine ⟨fun _ => [], [], ?_, fun _ => rfl, Part.nil _ _⟩
  rw [← emit_eq_grow, emit, List.append_nil]

theorem cons_places {stmt : Statement P} {stmts : List (Statement P)}
    (hstmt : StmtPlaces n entry stmt) (hstmts : StmtsPlaces n entry stmts) :
    StmtsPlaces n entry (stmt :: stmts) := by
  intro cg hlevel hnames hsmall
  simp only [stmtsSize, StmtsWired, stmtsWire, Bool.and_eq_true] at hsmall ⊢
  rw [compileStmts, stmtsChecks]
  refine Agree.bind (hstmt cg hlevel hnames (by omega)) fun cg₁ _ hcg₁ => ?_
  obtain ⟨code, new, rfl, hnew, hpart⟩ := hcg₁
  refine (hstmts.after hlevel hnames (hpart.length 0) (by omega) new).mono fun cg₂ _ hcg₂ => ?_
  obtain ⟨code', new', rfl, hnew', hpart'⟩ := hcg₂
  rw [Nat.add_assoc cg.instructions.length] at hpart'
  refine ⟨fun u => code u ++ code' u, new ++ new', rfl, fun hout => ?_,
    (hpart.mono (by omega)).append hpart'⟩
  rw [hnew hout, hnew' hout]
  rfl

/-! ### Cases -/

/-- The comparisons of the variable of a `CASE` with some values, which lead to a label. -/
def caseTest (varReg : ℕ) (label : UInt32) (values : List Int64) : List (Instruction P) :=
  values.flatMap fun val =>
    [.loadImm (scratchAt 0) (.s32 (Int32.ofInt val.toInt)), .cmp .eq varReg (scratchAt 0),
      .jumpIf label]

theorem length_caseTest (varReg : ℕ) (label : UInt32) (values : List Int64) :
    (caseTest varReg label values : List (Instruction P)).length = 3 * values.length := by
  induction values with
  | nil => rfl
  | cons val values ih =>
      rw [caseTest, List.flatMap_cons, List.length_append, ← caseTest, ih, List.length_cons]
      exact Nat.add_comm _ _

/-- Comparing never fails. -/
theorem compileCaseValues_eq (varReg : ℕ) (values : List Int64) (cg : Codegen P)
    (jumps : List UInt32) (hlevel : cg.Level 0)
    (hsmall : cg.instructions.length + 3 * values.length < 2 ^ 32) :
    ∃ new, compileCaseValues varReg values cg jumps =
        .ok (cg.emit (caseTest varReg 0 values), jumps ++ new) ∧
      Template retarget cg.instructions.length
        (fun t (_ : UInt32) => (caseTest varReg t values : List (Instruction P)))
        (new.map UInt32.toNat) [] := by
  induction values generalizing cg jumps with
  | nil =>
      refine ⟨[], ?_, .const _ []⟩
      rw [List.append_nil, compileCaseValues, caseTest, List.flatMap_nil, emit, List.append_nil]
      rfl
  | cons val values ih =>
      rw [List.length_cons] at hsmall
      have halloc : Agree _ cg.allocScratch (.ok ()) := hlevel.alloc
      obtain ⟨⟨s, cg₁⟩, halloc, rfl, htakes⟩ := halloc.of_ok_right
      obtain ⟨rfl, hs, havail, -⟩ := htakes
      let test : List (Instruction P) :=
        [.loadImm (scratchAt 0) (.s32 (Int32.ofInt val.toInt)), .cmp .eq varReg (scratchAt 0)]
      have hfree : ((cg.taken (scratchAt 0)).emit test).freeScratch (scratchAt 0) = cg.emit test :=
        freeScratch_taken hs havail test
      have hlen : ((cg.emit test).emit [.jumpIf 0]).instructions.length =
          cg.instructions.length + 3 := by
        rw [length_emit, length_emit]
        rfl
      obtain ⟨new, hrest, htemplate⟩ := ih ((cg.emit test).emit [.jumpIf 0])
        (jumps ++ [(cg.emit test).currentIdx]) ((hlevel.emit _).emit _)
        (by rw [hlen]; omega)
      refine ⟨(cg.emit test).currentIdx :: new, ?_, ?_⟩
      · rw [compileCaseValues, halloc, ok_bind]
        dsimp only [emitJump]
        rw [hfree, hrest, emit_emit, emit_emit, List.append_assoc]
        rfl
      · have hidx : (cg.emit test).currentIdx.toNat = cg.instructions.length + 2 := by
          rw [currentIdx_toNat (by rw [length_emit]; change _ + 2 < _; omega), length_emit]
          rfl
        have hhole : Template retarget (cg.instructions.length + test.length)
            (fun t (_ : UInt32) => [(Instruction.jumpIf t : Instruction P)])
            [cg.instructions.length + 2] [] :=
          .hole _ (fun t => Instruction.jumpIf t) fun _ _ => rfl
        rw [hlen] at htemplate
        rw [List.map_cons, hidx]
        exact (Template.const cg.instructions.length test).append fun _ _ =>
          hhole.append fun _ _ => htemplate

theorem getElem?_caseTest (varReg : ℕ) (label : UInt32) {values : List Int64} {i : ℕ}
    (hi : i < values.length) :
    (caseTest varReg label values : List (Instruction P))[3 * i + 2]? = some (.jumpIf label) := by
  induction values generalizing i with
  | nil => cases hi
  | cons val values ih =>
      cases i with
      | zero => rfl
      | succ i => exact ih (Nat.lt_of_succ_lt_succ hi)

/-- The comparisons of a case. -/
theorem Part.caseTest {base limit target : ℕ} {varReg : ℕ} {label : UInt32}
    {values : List Int64} (hlabel : label.toNat = target) (hle : target ≤ limit) :
    Part (P := P) base (3 * values.length) limit (fun _ => caseTest varReg label values) []
      (fun program _ => ∀ i < values.length, JumpsAt program (base + 3 * i + 2) target) True := by
  have hinsts : ∀ inst ∈ (St.caseTest varReg label values : List (Instruction P)),
      inst.callsTo = none ∧ ∀ t, inst.jumpsTo = some t → t = target := by
    intro inst hmem
    obtain ⟨val, -, hmem⟩ := List.mem_flatMap.mp hmem
    simp only [List.mem_cons, List.not_mem_nil, or_false] at hmem
    rcases hmem with rfl | rfl | rfl
    · exact ⟨rfl, by rintro _ ⟨⟩⟩
    · exact ⟨rfl, by rintro _ ⟨⟩⟩
    · exact ⟨rfl, fun t ht => (Option.some.inj ht).symm.trans hlabel⟩
  refine ⟨.const base _, fun _ => length_caseTest .., fun _ inst hmem t ht => ?_,
    fun _ inst hmem t ht => ?_, fun _ program _ hcode _ => iff_true_intro fun i hi => ?_⟩
  · rw [(hinsts inst hmem).2 t ht]
    exact Or.inl hle
  · rw [(hinsts inst hmem).1] at ht
    cases ht
  · refine ⟨.jumpIf label, ?_, congrArg some hlabel⟩
    rw [Nat.add_assoc, hcode.getElem? (by rw [length_caseTest]; omega), getElem?_caseTest _ _ hi]

/-- Compiling the cases of a `CASE` fails as their checks do. Otherwise it gives code for any
end of the `CASE` and of the loop around it. -/
def PlacesCases (n : Names) (entry : String → ℕ → Prop)
    (cases : List (List Int64 × List (Statement P))) : Prop :=
  ∀ (cg : Codegen P) (varReg : ℕ) (exits : List UInt32), cg.Level 0 → cg.names = n →
    cg.instructions.length + casesSize n cases < 2 ^ 32 →
    Agree (fun p _ => ∃ code elses new, p = (cg.grow (code 0 0) new, exits ++ elses) ∧
        (cg.inLoop = false → new = []) ∧
        Template retarget cg.instructions.length code (elses.map UInt32.toNat)
          (new.map UInt32.toNat) ∧
        ∀ (t : UInt32) (limit : ℕ), t.toNat ≤ limit →
          cg.instructions.length + casesSize n cases ≤ limit →
          Part cg.instructions.length (casesSize n cases) limit (code t) new
            (fun program exit =>
              CasesWired n entry program cases cg.instructions.length t.toNat exit)
            (casesWire n cases = true))
      (compileCases varReg cases cg exits) (casesChecks n cases cg.inLoop)

theorem nil_placesCases : PlacesCases n entry ([] : List (List Int64 × List (Statement P))) := by
  intro cg varReg exits hlevel hnames hsmall
  simp only [casesSize, CasesWired, casesWire, casesChecks, compileCases]
  refine ⟨fun _ _ => [], [], [], ?_, fun _ => rfl, .const _ _, fun t limit _ _ => .nil _ _⟩
  rw [← emit_eq_grow, emit, List.append_nil, List.append_nil]

theorem cons_placesCases {values : List Int64} {body : List (Statement P)}
    {cases : List (List Int64 × List (Statement P))}
    (hbody : StmtsPlaces n entry body)
    (hcases : PlacesCases n entry cases) : PlacesCases n entry ((values, body) :: cases) := by
  intro cg varReg exits hlevel hnames hsmall
  simp only [casesSize, CasesWired, casesWire, Bool.and_eq_true] at hsmall ⊢
  rw [compileCases, casesChecks]
  obtain ⟨jumps, htest, htemplate⟩ := compileCaseValues_eq varReg values cg [] hlevel (by omega)
  rw [htest, ok_bind, List.nil_append]
  have hlen : ∀ t, (caseTest varReg t values : List (Instruction P)).length = 3 * values.length :=
    fun t => length_caseTest varReg t values
  have hpart : ∀ (label : UInt32) (target limit : ℕ), label.toNat = target → target ≤ limit →
      Part (P := P) cg.instructions.length (3 * values.length) limit
        (fun _ => caseTest varReg label values) [] (fun program _ => ∀ i < values.length,
          JumpsAt program (cg.instructions.length + 3 * i + 2) target) True :=
    fun label target limit => Part.caseTest
  generalize 3 * values.length = m at hsmall hlen hpart ⊢
  rw [StmtsPlaces] at hbody
  generalize stmtsSize n body = k at hbody hsmall ⊢
  -- the comparisons lead behind the jump
  dsimp only [emitJump]
  simp only [emit_emit, currentIdx_emit, List.length_append, List.length_singleton, hlen]
  generalize hidx : UInt32.ofNat (cg.instructions.length + m) = skipBody
  generalize hlabel : UInt32.ofNat (cg.instructions.length + (m + 1)) = bodyLabel
  replace hidx := toNat_of_ofNat hidx (by omega)
  replace hlabel := toNat_of_ofNat hlabel (by omega)
  rw [emit_eq_grow, patchJumps_grow htemplate 0 0]
  have hlen₁ : (caseTest varReg bodyLabel values ++ [Instruction.jump (P := P) 0]).length =
      m + 1 := by
    rw [List.length_append, hlen, List.length_singleton]
  refine Agree.bind (hbody.after hlevel hnames hlen₁ (by omega) []) fun cg₁ _ hcg₁ => ?_
  obtain ⟨B, new₁, rfl, hnew₁, hB⟩ := hcg₁
  -- the jump over the statements leads to the next case
  simp only [grow_emit, currentIdx_grow, length_grow, List.append_assoc, List.nil_append,
    List.length_append, List.length_singleton, hlen, hB.length, Nat.add_assoc]
  generalize hexit : UInt32.ofNat (cg.instructions.length + (m + (1 + k))) = toExit
  generalize hnext : UInt32.ofNat (cg.instructions.length + (m + (1 + (k + 1)))) = nextCase
  replace hexit := toNat_of_ofNat hexit (by omega)
  replace hnext := toNat_of_ofNat hnext (by omega)
  rw [patchJump_grow (by rw [hidx, hlen])]
  let before := caseTest varReg bodyLabel values ++
    ([Instruction.jump nextCase] ++ (B 0 ++ [Instruction.jump 0]))
  have hbefore : (cg.grow before new₁).instructions.length =
      cg.instructions.length + (m + (1 + (k + 1))) := by
    simp only [before, length_grow, List.length_append, List.length_singleton, hlen, hB.length]
  rw [← inLoop_grow cg before new₁]
  refine (hcases (cg.grow before new₁) varReg (exits ++ [toExit]) (hlevel.grow _ _) hnames
    (by rw [hbefore]; omega)).mono fun p _ hp => ?_
  obtain ⟨R, elses, new₂, rfl, hnew₂, htail, hR⟩ := hp
  rw [hbefore] at htail hR
  refine ⟨fun t u => caseTest varReg bodyLabel values ++ ([.jump nextCase] ++ (B u ++
    ([.jump t] ++ R t u))), [toExit] ++ elses, new₁ ++ new₂, ?_, fun hout => ?_, ?_, ?_⟩
  · rw [grow_grow, List.append_assoc exits]
    simp only [before, List.append_assoc]
  · rw [hnew₁ (inLoop_grow cg before new₁ ▸ hout), hnew₂ hout]
    rfl
  · -- the jump behind the statements is a hole
    have hhole : Template retarget (cg.instructions.length + m + 1 + k)
        (fun t (_ : UInt32) => [(Instruction.jump t : Instruction P)]) [toExit.toNat] [] := by
      rw [hexit, ← Nat.add_assoc, ← Nat.add_assoc]
      exact .hole _ (fun t => Instruction.jump t) fun _ _ => rfl
    have hnextTemplate : Template retarget (cg.instructions.length + m + 1)
        (fun t u => B u ++ ([.jump t] ++ R t u)) ([toExit.toNat] ++ elses.map UInt32.toNat)
        (new₁.map UInt32.toNat ++ new₂.map UInt32.toNat) := by
      simp only [← Nat.add_assoc] at htail
      exact hB.template.append fun _ u => by
        rw [hB.length]
        exact hhole.append fun _ _ => htail
    rw [List.map_append, List.map_append]
    have hjumpTemplate : Template retarget (cg.instructions.length + m) _ _ _ :=
      (Template.const (cg.instructions.length + m) [Instruction.jump nextCase]).append
        fun _ _ => hnextTemplate
    exact (Template.const cg.instructions.length (caseTest varReg bodyLabel values)).append
      fun _ _ => by rw [hlen]; exact hjumpTemplate
  · intro t limit ht hle
    have hrest := hR t limit ht (by omega)
    simp only [← Nat.add_assoc] at hB hrest hnext hlabel hle
    have hparts := (hpart bodyLabel _ limit hlabel (by omega)).append
      ((Part.jump (.jump nextCase) rfl hnext (by omega)).append ((hB.mono (by omega)).append
        ((Part.jump (.jump t) rfl rfl ht).append hrest)))
    refine hparts.congr (fun program exit => ?_) (by simp)
    simp only [← Nat.add_assoc]

/-- Compiling a `CASE`. -/
theorem caseOf_places {var : String} {cases : List (List Int64 × List (Statement P))}
    {elseBody : List (Statement P)} (hcases : PlacesCases n entry cases)
    (helse : StmtsPlaces n entry elseBody) :
    StmtPlaces n entry (.caseOf var cases elseBody) := by
  intro cg hlevel hnames hsmall
  simp only [Statement.size, Statement.Wired, Statement.wires, Bool.and_eq_true] at hsmall ⊢
  rw [compileStmt, Statement.checks, varReg_names, hnames]
  refine Agree.bind_left fun varReg => ?_
  refine Agree.bind (hcases cg varReg [] hlevel hnames (by omega)) fun p _ hp => ?_
  obtain ⟨C, exits, new₁, rfl, hnew₁, htemplate, hC⟩ := hp
  have hlen : (C 0 0).length = casesSize n cases :=
    (hC 0 _ (Nat.zero_le _) le_rfl).length 0
  generalize casesSize n cases = m at hsmall hC hlen ⊢
  rw [StmtsPlaces] at helse
  generalize stmtsSize n elseBody = k at helse hsmall ⊢
  refine Agree.then_pure (helse.after hlevel hnames hlen (by omega) new₁) fun cg₁ _ hcg₁ => ?_
  obtain ⟨E, new₂, rfl, hnew₂, hE⟩ := hcg₁
  -- the jumps at the ends of the cases lead to the end
  rw [currentIdx_grow, List.length_append, hlen, hE.length, List.nil_append,
    patchJumps_grow htemplate]
  generalize hexit : UInt32.ofNat (cg.instructions.length + (m + k)) = exitLabel
  replace hexit := toNat_of_ofNat hexit hsmall
  refine ⟨fun u => C exitLabel u ++ E u, new₁ ++ new₂, rfl, fun hout => ?_, ?_⟩
  · rw [hnew₁ hout, hnew₂ hout]
    rfl
  · have hparts := (hC exitLabel _ hexit.le (by omega)).append (hE.mono (by omega))
    refine hparts.congr (fun program exit => ?_) Iff.rfl
    rw [hexit, Nat.add_assoc]

/-! ### All statements -/

mutual

/-- Compiling a statement fails as its checks do. -/
theorem compileStmt_places (hentry : ∀ name, ¬ entry name 0) : ∀ stmt : Statement P,
    StmtPlaces n entry stmt
  | .assign name value => assign_places name value
  | .arrayAssign name index value => arrayAssign_places name index value
  | .ifThenElse _ thenBody elseBody =>
      ifThenElse_places (compileStmts_places hentry thenBody) (compileStmts_places hentry elseBody)
  | .whileDo _ body => whileDo_places (compileStmts_places hentry body)
  | .forTo _ _ _ _ body => forTo_places (compileStmts_places hentry body)
  | .repeatUntil body _ => repeatUntil_places (compileStmts_places hentry body)
  | .return => return_places
  | .exit => exit_places
  | .caseOf _ cases elseBody =>
      caseOf_places (compileCases_places hentry cases) (compileStmts_places hentry elseBody)
  | .funCall name args => funCall_places hentry name args

/-- Compiling some statements fails as their checks do. -/
theorem compileStmts_places (hentry : ∀ name, ¬ entry name 0) : ∀ stmts : List (Statement P),
    StmtsPlaces n entry stmts
  | [] => nil_places
  | stmt :: stmts => cons_places (compileStmt_places hentry stmt) (compileStmts_places hentry stmts)

/-- Compiling the cases of a `CASE` fails as their checks do. -/
theorem compileCases_places (hentry : ∀ name, ¬ entry name 0) :
    ∀ cases : List (List Int64 × List (Statement P)), PlacesCases n entry cases
  | [] => nil_placesCases
  | (_, body) :: cases =>
      cons_placesCases (compileStmts_places hentry body) (compileCases_places hentry cases)

end

end Weftik.St
