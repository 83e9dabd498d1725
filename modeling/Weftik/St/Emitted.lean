import Weftik.Instances
import Weftik.St.Growth
import Weftik.St.Assignment

/-!
# The Block Instructions of a Compiled Program

Of the instructions of function blocks, the code generator emits the call of an instance for a
variable of its kind and the instructions that read an instance, with the register of the
variable as the index, and two different registers as destinations. There is no instruction
that reads a counter.

## Main definitions

* `VarType.blockKind`: the kind of function block that a type stands for.
* `Emitted`: the instructions that a code generator with given variables may emit.

## Main results

* `emitting_compileAst`: each instruction of a compiled program is one of these.
* `Emitted.isInstance`: each call in it is one of an instance that is declared with its kind.
-/

open Outcome Code

namespace Weftik.St

open Codegen Vm

variable {P : Platform}

/-- The kind of function block that a type stands for. -/
def VarType.blockKind : VarType → Option BlockKind
  | .ton | .tof | .tp => some .timer
  | .ctu | .ctd | .ctud => some .counter
  | .sr | .rs => some .latch
  | .rTrig | .fTrig => some .edge
  | _ => none

section Names

variable (registers : String → Option ℕ) (varTypes : String → Option VarType)

/-- The variable is an instance of the kind, with this register. -/
def IsInstance (name : String) (kind : BlockKind) (reg : ℕ) : Prop :=
  registers name = some reg ∧ (varTypes name).bind VarType.blockKind = some kind

/-- The instructions that the code generator may emit: any instruction that is none of a
function block, calls of instances, and reads into different registers. A jump may get another
target; where the indices do not fit into `u32` that may happen to any instruction. -/
inductive Emitted : Instruction P → Prop
  | plain {inst : Instruction P} (h : Opcode.isBlock inst.opcode = false) : Emitted inst
  | timerRun {name : String} {reg : ℕ} (h : IsInstance registers varTypes name .timer reg)
      (s : ℕ) (pt : UInt32) (kind : ℕ) : Emitted (.timerRun reg s pt kind)
  | counterRun {name : String} {reg : ℕ} (h : IsInstance registers varTypes name .counter reg)
      (cu cd : ℕ) (pv : UInt32) (kind : ℕ) : Emitted (.counterRun reg cu cd pv kind)
  | srRun {name : String} {reg : ℕ} (h : IsInstance registers varTypes name .latch reg)
      (s1 r kind : ℕ) : Emitted (.srRun reg s1 r kind)
  | edgeRun {name : String} {reg : ℕ} (h : IsInstance registers varTypes name .edge reg)
      (clk kind : ℕ) : Emitted (.edgeRun reg clk kind)
  | readTimer {name : String} {reg q et : ℕ} (h : registers name = some reg) (hq : q < 16)
      (het : et < 16) (hne : q ≠ et) : Emitted (.readTimer reg q et)
  | readSr {name : String} {reg q1 q2 : ℕ} (h : registers name = some reg) (hq1 : q1 < 16)
      (hq2 : q2 < 16) (hne : q1 ≠ q2) : Emitted (.readSr reg q1 q2)
  | readEdge {name : String} {reg q : ℕ} (h : registers name = some reg) (hq : q < 16) :
      Emitted (.readEdge reg q)
  | retarget {inst : Instruction P} (h : Emitted inst) (t : UInt32) : Emitted (retarget t inst)

/-- A code generator with these variables that has emitted only such instructions. -/
structure Emitting (cg : Codegen P) : Prop where
  registers_eq : cg.registers = registers
  varTypes_eq : cg.varTypes = varTypes
  register_lt : ∀ v r, registers v = some r → r < 13
  emitted : ∀ inst ∈ cg.instructions, Emitted registers varTypes inst

end Names

/-! ### Scratch registers -/

section Scratch

variable {cg cg₁ cg' : Codegen P} {s r : ℕ}

/-- A scratch register that is given back. -/
theorem freeScratch_avail (hs : s ∈ scratchRegs) (havail : cg.scratchAvail s = true)
    (h : cg₁.scratchAvail = (cg.taken s).scratchAvail) :
    (cg₁.freeScratch s).scratchAvail = cg.scratchAvail := by
  rw [freeScratch, if_pos hs]
  simp only [h, taken, Function.update_idem]
  rw [← havail, Function.update_eq_self]

/-- A comparison gives its scratch registers back when its operands do. -/
theorem compileCmp_avail {compileLeft compileRight : ℕ → Compiler P} {op : BinOp}
    (hleft : ∀ {cg cg'} dest, compileLeft dest cg = .ok cg' →
      cg'.scratchAvail = cg.scratchAvail)
    (hright : ∀ {cg cg'} dest, compileRight dest cg = .ok cg' →
      cg'.scratchAvail = cg.scratchAvail)
    (h : compileCmp compileLeft compileRight op cg = .ok cg') :
    cg'.scratchAvail = cg.scratchAvail := by
  obtain ⟨⟨rs, cg₁⟩, hrs, h⟩ := bind_eq_ok h
  obtain ⟨cg₂, hcg₂, h⟩ := bind_eq_ok h
  obtain ⟨⟨ls, cg₃⟩, hls, h⟩ := bind_eq_ok h
  obtain ⟨cg₄, hcg₄, h⟩ := bind_eq_ok h
  cases h
  obtain ⟨hrsMem, hrsAvail, rfl⟩ := allocScratch_ok hrs
  obtain ⟨hlsMem, hlsAvail, rfl⟩ := allocScratch_ok hls
  refine freeScratch_avail hrsMem hrsAvail ?_
  have hls := hleft ls hcg₄
  rw [← hright rs hcg₂]
  exact freeScratch_avail hlsMem hlsAvail hls

/-- An expression gives its scratch registers back. -/
theorem compileExpr_avail {e : Expr P} {dest : ℕ} {cg cg' : Codegen P}
    (h : compileExpr e dest cg = .ok cg') : cg'.scratchAvail = cg.scratchAvail := by
  induction e generalizing dest cg cg' with
  | intLiteral n | realLiteral x | boolLiteral b =>
      cases h
      rfl
  | «variable» name =>
      obtain ⟨src, -, h⟩ := bind_eq_ok h
      split at h <;> cases h <;> rfl
  | binary left op right ihl ihr =>
      rw [compileExpr] at h
      split at h
      · obtain ⟨cg₁, hleft, h⟩ := bind_eq_ok h
        obtain ⟨⟨s, cg₂⟩, halloc, h⟩ := bind_eq_ok h
        obtain ⟨cg₃, hright, h⟩ := bind_eq_ok h
        cases h
        obtain ⟨hs, havail, rfl⟩ := allocScratch_ok halloc
        have hr := ihr hright
        rw [← ihl hleft]
        exact freeScratch_avail hs havail hr
      · split at h
        · obtain ⟨cg₁, hcmp, h⟩ := bind_eq_ok h
          cases h
          have hcompared := compileCmp_avail (fun _ => ihl) (fun _ => ihr) hcmp
          exact hcompared
        · obtain ⟨⟨s, cg₁⟩, halloc, h⟩ := bind_eq_ok h
          obtain ⟨cg₂, hleft, h⟩ := bind_eq_ok h
          obtain ⟨cg₃, hright, h⟩ := bind_eq_ok h
          cases h
          obtain ⟨hs, havail, rfl⟩ := allocScratch_ok halloc
          exact freeScratch_avail hs havail ((ihr hright).trans (ihl hleft))
  | unary op inner ih =>
      cases op with
      | neg =>
          obtain ⟨cg₁, hinner, h⟩ := bind_eq_ok h
          obtain ⟨⟨s, cg₂⟩, halloc, h⟩ := bind_eq_ok h
          cases h
          obtain ⟨hs, havail, rfl⟩ := allocScratch_ok halloc
          rw [← ih hinner]
          exact freeScratch_avail hs havail rfl
      | not =>
          obtain ⟨cg₁, hinner, h⟩ := bind_eq_ok h
          cases h
          have hkept := ih hinner
          exact hkept
  | arrayAccess name index ih =>
      obtain ⟨arrayReg, -, h⟩ := bind_eq_ok h
      obtain ⟨⟨s, cg₁⟩, halloc, h⟩ := bind_eq_ok h
      obtain ⟨cg₂, hindex, h⟩ := bind_eq_ok h
      cases h
      obtain ⟨hs, havail, rfl⟩ := allocScratch_ok halloc
      have hkept := ih hindex
      exact freeScratch_avail hs havail hkept
  | fieldAccess name field =>
      obtain ⟨reg, -, h⟩ := bind_eq_ok h
      split at h
      · obtain ⟨⟨s, cg₁⟩, halloc, h⟩ := bind_eq_ok h
        cases h
        obtain ⟨hs, havail, rfl⟩ := allocScratch_ok halloc
        exact freeScratch_avail hs havail rfl
      · obtain ⟨⟨s, cg₁⟩, halloc, h⟩ := bind_eq_ok h
        cases h
        obtain ⟨hs, havail, rfl⟩ := allocScratch_ok halloc
        exact freeScratch_avail hs havail rfl
      · cases h
        rfl
      · cases h
        rfl
      · obtain ⟨⟨s, cg₁⟩, halloc, h⟩ := bind_eq_ok h
        cases h
        obtain ⟨hs, havail, rfl⟩ := allocScratch_ok halloc
        exact freeScratch_avail hs havail rfl

/-- A scratch register that has been taken is in use. -/
theorem inUse_of_alloc (halloc : cg.allocScratch = .ok (s, cg')) : cg'.InUse s := by
  obtain ⟨-, -, rfl⟩ := allocScratch_ok halloc
  exact fun _ => Function.update_self ..

/-- A register in use is none that is available. -/
theorem InUse.ne_of_alloc (hr : cg.InUse r) (halloc : cg.allocScratch = .ok (s, cg')) :
    r ≠ s := by
  obtain ⟨hs, havail, -⟩ := allocScratch_ok halloc
  rintro rfl
  rw [hr hs] at havail
  cases havail

/-- Taking another register. -/
theorem InUse.alloc (hr : cg.InUse r) (halloc : cg.allocScratch = .ok (s, cg')) :
    cg'.InUse r := by
  have hne := InUse.ne_of_alloc hr halloc
  obtain ⟨-, -, rfl⟩ := allocScratch_ok halloc
  exact fun hmem => (Function.update_of_ne hne _ _).trans (hr hmem)

/-- A register in use is in use after an expression. -/
theorem InUse.expr (hr : cg.InUse r) {e : Expr P} {dest : ℕ}
    (h : compileExpr e dest cg = .ok cg') : cg'.InUse r := fun hmem => by
  rw [compileExpr_avail h]
  exact hr hmem

/-- The register of a variable is no scratch register. -/
theorem inUse_of_lt (hr : r < 13) : cg.InUse r :=
  fun hmem => absurd (lt_of_mem_scratchRegs hmem).1 (by omega)

end Scratch

/-! ### What is emitted -/

variable {registers : String → Option ℕ} {varTypes : String → Option VarType}

namespace Emitting

variable {cg cg' : Codegen P} {s : ℕ} {t : UInt32}

theorem emit (h : Emitting registers varTypes cg) {code : List (Instruction P)}
    (hcode : ∀ inst ∈ code, Emitted registers varTypes inst) :
    Emitting registers varTypes (cg.emit code) :=
  ⟨h.registers_eq, h.varTypes_eq, h.register_lt, fun _ hinst =>
    (List.mem_append.mp hinst).elim (h.emitted _) (hcode _)⟩

/-- Instructions that are none of a function block. -/
theorem plain (h : Emitting registers varTypes cg) (code : List (Instruction P))
    (hcode : code.all (fun inst => !Opcode.isBlock inst.opcode) = true) :
    Emitting registers varTypes (cg.emit code) := by
  refine h.emit fun inst hinst => .plain ?_
  have := List.all_eq_true.mp hcode inst hinst
  rwa [Bool.not_eq_true'] at this

/-- One instruction. -/
theorem one (h : Emitting registers varTypes cg) {inst : Instruction P}
    (hinst : Emitted registers varTypes inst) : Emitting registers varTypes (cg.emit [inst]) :=
  h.emit fun _ hmem => List.mem_singleton.mp hmem ▸ hinst

theorem free (h : Emitting registers varTypes cg) (s : ℕ) :
    Emitting registers varTypes (cg.freeScratch s) := by
  rw [freeScratch]
  split
  · exact ⟨h.registers_eq, h.varTypes_eq, h.register_lt, h.emitted⟩
  · exact h

theorem alloc (h : Emitting registers varTypes cg)
    (halloc : cg.allocScratch = .ok (s, cg')) : Emitting registers varTypes cg' := by
  obtain ⟨-, -, rfl⟩ := allocScratch_ok halloc
  exact ⟨h.registers_eq, h.varTypes_eq, h.register_lt, h.emitted⟩

theorem patch (h : Emitting registers varTypes cg) (t j : UInt32) :
    Emitting registers varTypes (patchJump t cg j) := by
  refine ⟨h.registers_eq, h.varTypes_eq, h.register_lt, fun inst hinst => ?_⟩
  obtain ⟨i, hi⟩ := List.getElem?_of_mem hinst
  rw [patchJump, List.getElem?_modify] at hi
  obtain ⟨old, hold, rfl⟩ := Option.map_eq_some_iff.mp hi
  have hemitted := h.emitted old (List.mem_of_getElem? hold)
  split
  · exact .retarget hemitted t
  · exact hemitted

theorem patches (h : Emitting registers varTypes cg) (jumps : List UInt32) (t : UInt32) :
    Emitting registers varTypes (cg.patchJumps jumps t) := by
  induction jumps generalizing cg with
  | nil => exact h
  | cons j jumps ih => exact ih (h.patch t j)

theorem pushLoop (h : Emitting registers varTypes cg) : Emitting registers varTypes cg.pushLoop :=
  ⟨h.registers_eq, h.varTypes_eq, h.register_lt, h.emitted⟩

theorem popLoop (h : Emitting registers varTypes cg) :
    Emitting registers varTypes cg.popLoop := by
  rw [Codegen.popLoop]
  split
  · rename_i exits rest hexits
    have hrest : Emitting registers varTypes { cg with loopExits := rest } :=
      ⟨h.registers_eq, h.varTypes_eq, h.register_lt, h.emitted⟩
    exact hrest.patches _ _
  · exact h

theorem recordExit (h : Emitting registers varTypes cg) (hexit : cg.recordExit = .ok cg') :
    Emitting registers varTypes cg' := by
  rw [Codegen.recordExit] at hexit
  split at hexit
  · cases hexit
    have hjump := h.plain [.jump 0] rfl
    exact ⟨hjump.registers_eq, hjump.varTypes_eq, hjump.register_lt, hjump.emitted⟩
  · cases hexit

/-- The register of a variable. -/
theorem varReg (h : Emitting registers varTypes cg) {name : String} {reg : ℕ}
    (hreg : cg.varReg name = .ok reg) : registers name = some reg :=
  h.registers_eq ▸ varReg_ok hreg

end Emitting

/-! ### Expressions -/

section Compile

variable {cg cg' : Codegen P}

theorem not_isBlock_arithOpcode {op : BinOp} {opcode : Opcode}
    (h : opToArithOpcode op = some opcode) : Opcode.isBlock opcode = false := by
  cases op <;> cases h <;> rfl

theorem not_isBlock_cmpOpcode (op : BinOp) : Opcode.isBlock (cmpOpcode op) = false := by
  cases op <;> rfl

theorem not_isBlock_bitOpcode (op : BinOp) : Opcode.isBlock (bitOpcode op) = false := by
  cases op <;> rfl

/-- A comparison whose operands emit such instructions. -/
theorem emitting_compileCmp {compileLeft compileRight : ℕ → Compiler P} {op : BinOp}
    (hleft : ∀ {cg cg' : Codegen P} {dest}, Emitting registers varTypes cg → dest < 16 →
      cg.InUse dest → compileLeft dest cg = .ok cg' → Emitting registers varTypes cg')
    (hright : ∀ {cg cg' : Codegen P} {dest}, Emitting registers varTypes cg → dest < 16 →
      cg.InUse dest → compileRight dest cg = .ok cg' → Emitting registers varTypes cg')
    (hcg : Emitting registers varTypes cg)
    (h : compileCmp compileLeft compileRight op cg = .ok cg') :
    Emitting registers varTypes cg' := by
  obtain ⟨⟨rs, cg₁⟩, hrs, h⟩ := bind_eq_ok h
  obtain ⟨cg₂, hcg₂, h⟩ := bind_eq_ok h
  obtain ⟨⟨ls, cg₃⟩, hls, h⟩ := bind_eq_ok h
  obtain ⟨cg₄, hcg₄, h⟩ := bind_eq_ok h
  cases h
  have hrsLt := (lt_of_mem_scratchRegs (allocScratch_ok hrs).1).2
  have hlsLt := (lt_of_mem_scratchRegs (allocScratch_ok hls).1).2
  have h₂ := hright (hcg.alloc hrs) hrsLt (inUse_of_alloc hrs) hcg₂
  have h₄ := hleft (h₂.alloc hls) hlsLt (inUse_of_alloc hls) hcg₄
  exact ((h₄.one (.plain (not_isBlock_cmpOpcode op))).free ls).free rs

variable {e : Expr P}

/-- An expression emits such instructions. -/
theorem emitting_compileExpr {dest : ℕ} (hcg : Emitting registers varTypes cg) (hdest : dest < 16)
    (huse : cg.InUse dest) (h : compileExpr e dest cg = .ok cg') :
    Emitting registers varTypes cg' := by
  induction e generalizing dest cg cg' with
  | intLiteral n | realLiteral x | boolLiteral b =>
      cases h
      exact hcg.plain _ rfl
  | «variable» name =>
      obtain ⟨src, -, h⟩ := bind_eq_ok h
      split at h
      · cases h
        exact hcg.plain _ rfl
      · cases h
        exact hcg
  | binary left op right ihl ihr =>
      rw [compileExpr] at h
      split at h
      · rename_i arithOp harith
        obtain ⟨cg₁, hleft, h⟩ := bind_eq_ok h
        obtain ⟨⟨s, cg₂⟩, halloc, h⟩ := bind_eq_ok h
        obtain ⟨cg₃, hright, h⟩ := bind_eq_ok h
        cases h
        have hs := (lt_of_mem_scratchRegs (allocScratch_ok halloc).1).2
        have h₁ := ihl hcg hdest huse hleft
        have h₃ := ihr (h₁.alloc halloc) hs (inUse_of_alloc halloc) hright
        exact (h₃.one (.plain (not_isBlock_arithOpcode harith))).free s
      · split at h
        · obtain ⟨cg₁, hcmp, h⟩ := bind_eq_ok h
          cases h
          have h₁ := emitting_compileCmp ihl ihr hcg hcmp
          exact ((h₁.plain [_] rfl).plain [_, _] rfl).patch _ _
        · obtain ⟨⟨s, cg₁⟩, halloc, h⟩ := bind_eq_ok h
          obtain ⟨cg₂, hleft, h⟩ := bind_eq_ok h
          obtain ⟨cg₃, hright, h⟩ := bind_eq_ok h
          cases h
          have hs := (lt_of_mem_scratchRegs (allocScratch_ok halloc).1).2
          have h₂ := ihl (hcg.alloc halloc) hdest (InUse.alloc huse halloc) hleft
          have h₃ := ihr h₂ hs (InUse.expr (inUse_of_alloc halloc) hleft) hright
          exact (h₃.one (.plain (not_isBlock_bitOpcode op))).free s
  | unary op inner ih =>
      cases op with
      | neg =>
          obtain ⟨cg₁, hinner, h⟩ := bind_eq_ok h
          obtain ⟨⟨s, cg₂⟩, halloc, h⟩ := bind_eq_ok h
          cases h
          exact (((ih hcg hdest huse hinner).alloc halloc).plain _ rfl).free s
      | not =>
          obtain ⟨cg₁, hinner, h⟩ := bind_eq_ok h
          cases h
          exact (ih hcg hdest huse hinner).plain _ rfl
  | arrayAccess name index ih =>
      obtain ⟨arrayReg, -, h⟩ := bind_eq_ok h
      obtain ⟨⟨s, cg₁⟩, halloc, h⟩ := bind_eq_ok h
      obtain ⟨cg₂, hindex, h⟩ := bind_eq_ok h
      cases h
      have hs := (lt_of_mem_scratchRegs (allocScratch_ok halloc).1).2
      exact ((ih (hcg.alloc halloc) hs (inUse_of_alloc halloc) hindex).plain _ rfl).free s
  | fieldAccess name field =>
      obtain ⟨reg, hreg, h⟩ := bind_eq_ok h
      have hname := hcg.varReg hreg
      have hlatch : ∀ {s : ℕ} {cg₁ : Codegen P}, cg.allocScratch = .ok (s, cg₁) →
          Emitting registers varTypes ((cg₁.emit
            [if field = "Q2" then .readSr reg s dest else .readSr reg dest s]).freeScratch s) := by
        intro s cg₁ halloc
        have hs := (lt_of_mem_scratchRegs (allocScratch_ok halloc).1).2
        have hne := InUse.ne_of_alloc huse halloc
        refine ((hcg.alloc halloc).one ?_).free s
        split
        · exact .readSr hname hs hdest hne.symm
        · exact .readSr hname hdest hs hne
      split at h
      · obtain ⟨⟨s, cg₁⟩, halloc, h⟩ := bind_eq_ok h
        cases h
        exact hlatch halloc
      · obtain ⟨⟨s, cg₁⟩, halloc, h⟩ := bind_eq_ok h
        cases h
        exact hlatch halloc
      · cases h
        exact hcg.one (.readEdge hname hdest)
      · cases h
        exact hcg.one (.readEdge hname hdest)
      · obtain ⟨⟨s, cg₁⟩, halloc, h⟩ := bind_eq_ok h
        cases h
        have hs := (lt_of_mem_scratchRegs (allocScratch_ok halloc).1).2
        exact ((hcg.alloc halloc).one
          (.readTimer hname hdest hs (InUse.ne_of_alloc huse halloc))).free s

/-! ### Conditions and calls -/

theorem emitting_compileLeaf (hcg : Emitting registers varTypes cg)
    (h : compileLeaf e cg = .ok cg') : Emitting registers varTypes cg' := by
  have htest : ∀ {e : Expr P}, compileTest e cg = .ok cg' → Emitting registers varTypes cg' := by
    intro e h
    obtain ⟨⟨s, cg₁⟩, hs, h⟩ := bind_eq_ok h
    obtain ⟨cg₂, hexpr, h⟩ := bind_eq_ok h
    obtain ⟨⟨t, cg₃⟩, ht, h⟩ := bind_eq_ok h
    cases h
    have hsLt := (lt_of_mem_scratchRegs (allocScratch_ok hs).1).2
    have h₂ := emitting_compileExpr (hcg.alloc hs) hsLt (inUse_of_alloc hs) hexpr
    exact (((h₂.alloc ht).plain [_, _] rfl).free s).free t
  cases e with
  | binary left op right =>
      rw [compileLeaf] at h
      split at h
      · exact emitting_compileCmp emitting_compileExpr emitting_compileExpr hcg h
      · exact htest h
  | _ => exact htest h

theorem emitting_compileBoolCond {elses ends elses' ends' : List UInt32}
    (hcg : Emitting registers varTypes cg)
    (h : compileBoolCond e cg elses ends = .ok (cg', elses', ends')) :
    Emitting registers varTypes cg' := by
  induction e using Expr.conditionInduction generalizing cg cg' elses ends elses' ends' with
  | leaf e he =>
      rw [compileBoolCond_leaf he] at h
      obtain ⟨cg₁, hleaf, h⟩ := bind_eq_ok h
      cases h
      exact (emitting_compileLeaf hcg hleaf).plain _ rfl
  | and left right ihl ihr =>
      obtain ⟨⟨cg₁, elses₁, ends₁⟩, hleft, hright⟩ := bind_eq_ok h
      exact ihr (ihl hcg hleft) hright
  | or left right ihl ihr =>
      obtain ⟨⟨cg₁, rightElse, ends₁⟩, hleft, hright⟩ := bind_eq_ok h
      exact ihr (((ihl hcg hleft).plain [_] rfl).patches _ _) hright
  | not inner ih =>
      obtain ⟨⟨cg₁, innerElse, innerEnd⟩, hinner, h⟩ := bind_eq_ok h
      cases h
      exact ih hcg hinner

theorem emitting_compileInput {dest : ℕ} (hcg : Emitting registers varTypes cg)
    (hdest : dest < 16) (huse : cg.InUse dest) (h : compileInput e dest cg = .ok cg') :
    Emitting registers varTypes cg' := by
  unfold compileInput at h
  split at h
  · obtain ⟨r, -, h⟩ := bind_eq_ok h
    cases h
    exact hcg.plain _ rfl
  · exact emitting_compileExpr hcg hdest huse h

/-- An input of a function block, in a scratch register. -/
theorem emitting_scratchInput {s : ℕ} {cg₁ : Codegen P} (hcg : Emitting registers varTypes cg)
    (halloc : cg.allocScratch = .ok (s, cg₁)) (h : compileInput e s cg₁ = .ok cg') :
    Emitting registers varTypes cg' :=
  emitting_compileInput (hcg.alloc halloc) (lt_of_mem_scratchRegs (allocScratch_ok halloc).1).2
    (inUse_of_alloc halloc) h

section Calls

variable {name : String} (hcg : Emitting registers varTypes cg)
include hcg

theorem emitting_timerCall {kind : ℕ} {input pt : Expr P}
    (htype : (varTypes name).bind VarType.blockKind = some .timer)
    (h : timerCall name kind input pt cg = .ok cg') : Emitting registers varTypes cg' := by
  obtain ⟨timerReg, hreg, h⟩ := bind_eq_ok h
  obtain ⟨⟨s, cg₁⟩, halloc, h⟩ := bind_eq_ok h
  obtain ⟨cg₂, hinput, h⟩ := bind_eq_ok h
  cases h
  have h₂ := emitting_scratchInput hcg halloc hinput
  exact (h₂.one (.timerRun ⟨hcg.varReg hreg, htype⟩ _ _ _)).free s

theorem emitting_counterCall {kind : ℕ} {cu pv : Expr P} {cd : Option (Expr P)}
    (htype : (varTypes name).bind VarType.blockKind = some .counter)
    (h : counterCall name kind cu pv cd cg = .ok cg') : Emitting registers varTypes cg' := by
  obtain ⟨ctrReg, hreg, h⟩ := bind_eq_ok h
  obtain ⟨⟨cuScratch, cg₁⟩, halloc, h⟩ := bind_eq_ok h
  obtain ⟨cg₂, hcu, h⟩ := bind_eq_ok h
  obtain ⟨⟨cdScratch, cg₃⟩, halloc', h⟩ := bind_eq_ok h
  obtain ⟨cg₄, hcd, h⟩ := bind_eq_ok h
  cases h
  have h₂ := emitting_scratchInput hcg halloc hcu
  have h₄ : Emitting registers varTypes cg₄ := by
    cases cd with
    | some cd => exact emitting_scratchInput h₂ halloc' hcd
    | none =>
        cases hcd
        exact (h₂.alloc halloc').plain _ rfl
  exact ((h₄.one (.counterRun ⟨hcg.varReg hreg, htype⟩ _ _ _ _)).free cdScratch).free cuScratch

theorem emitting_srCall {kind : ℕ} {s1 r : Expr P}
    (htype : (varTypes name).bind VarType.blockKind = some .latch)
    (h : srCall name kind s1 r cg = .ok cg') : Emitting registers varTypes cg' := by
  obtain ⟨fbReg, hreg, h⟩ := bind_eq_ok h
  obtain ⟨⟨s1Scratch, cg₁⟩, halloc, h⟩ := bind_eq_ok h
  obtain ⟨cg₂, hs1, h⟩ := bind_eq_ok h
  obtain ⟨⟨rScratch, cg₃⟩, halloc', h⟩ := bind_eq_ok h
  obtain ⟨cg₄, hr, h⟩ := bind_eq_ok h
  cases h
  have h₄ := emitting_scratchInput (emitting_scratchInput hcg halloc hs1) halloc' hr
  exact ((h₄.one (.srRun ⟨hcg.varReg hreg, htype⟩ _ _ _)).free rScratch).free s1Scratch

theorem emitting_edgeCall {kind : ℕ} {clk : Expr P}
    (htype : (varTypes name).bind VarType.blockKind = some .edge)
    (h : edgeCall name kind clk cg = .ok cg') : Emitting registers varTypes cg' := by
  obtain ⟨fbReg, hreg, h⟩ := bind_eq_ok h
  obtain ⟨⟨s, cg₁⟩, halloc, h⟩ := bind_eq_ok h
  obtain ⟨cg₂, hclk, h⟩ := bind_eq_ok h
  cases h
  have h₂ := emitting_scratchInput hcg halloc hclk
  exact (h₂.one (.edgeRun ⟨hcg.varReg hreg, htype⟩ _ _)).free s

omit hcg in
/-- The arguments of a function, in registers of variables. -/
theorem emitting_arguments {args : List (Expr P × ℕ)} (hargs : ∀ p ∈ args, p.2 < 13)
    (hcg : Emitting registers varTypes cg)
    (h : args.foldlM (fun cg p => compileExpr p.1 p.2 cg) cg = .ok cg') :
    Emitting registers varTypes cg' := by
  induction args generalizing cg with
  | nil =>
      cases h
      exact hcg
  | cons p args ih =>
      obtain ⟨hp, hargs⟩ := List.forall_mem_cons.mp hargs
      rw [List.foldlM_cons] at h
      obtain ⟨cg₁, hfirst, hrest⟩ := bind_eq_ok h
      exact ih hargs (emitting_compileExpr hcg (by omega) (inUse_of_lt hp) hfirst) hrest

theorem emitting_genericCall {args : List (Expr P)} (h : genericCall args cg = .ok cg') :
    Emitting registers varTypes cg' := by
  obtain ⟨cg₁, hargs, h⟩ := bind_eq_ok h
  cases h
  refine (emitting_arguments (fun p hp => ?_) hcg hargs).plain _ rfl
  have hlt := List.snd_lt_of_mem_zipIdx hp
  have htake := List.length_take_le 4 args
  omega

theorem emitting_compileFunCall {args : List (Expr P)}
    (h : compileFunCall name args cg = .ok cg') : Emitting registers varTypes cg' := by
  have hkind : ∀ {vt : VarType} {kind : BlockKind}, cg.varTypes name = some vt →
      vt.blockKind = some kind → (varTypes name).bind VarType.blockKind = some kind := by
    intro vt kind hvt hblock
    rw [← hcg.varTypes_eq, hvt]
    exact hblock
  unfold compileFunCall at h
  split at h
  · exact emitting_timerCall hcg (hkind ‹_› rfl) h
  · exact emitting_timerCall hcg (hkind ‹_› rfl) h
  · exact emitting_timerCall hcg (hkind ‹_› rfl) h
  · exact emitting_counterCall hcg (hkind ‹_› rfl) h
  · exact emitting_counterCall hcg (hkind ‹_› rfl) h
  · exact emitting_counterCall hcg (hkind ‹_› rfl) h
  · exact emitting_srCall hcg (hkind ‹_› rfl) h
  · exact emitting_srCall hcg (hkind ‹_› rfl) h
  · exact emitting_edgeCall hcg (hkind ‹_› rfl) h
  · exact emitting_edgeCall hcg (hkind ‹_› rfl) h
  · exact emitting_genericCall hcg h

end Calls

/-! ### Statements and programs -/

theorem emitting_compileCaseValues {varReg : ℕ} {values : List Int64} {jumps jumps' : List UInt32}
    (hcg : Emitting registers varTypes cg)
    (h : compileCaseValues varReg values cg jumps = .ok (cg', jumps')) :
    Emitting registers varTypes cg' := by
  induction values generalizing cg jumps with
  | nil =>
      cases h
      exact hcg
  | cons val values ih =>
      obtain ⟨⟨s, cg₁⟩, halloc, h⟩ := bind_eq_ok h
      exact ih ((((hcg.alloc halloc).plain [_, _] rfl).free s).plain [_] rfl) h

end Compile

mutual

/-- A statement emits such instructions. -/
theorem emitting_compileStmt : ∀ {stmt : Statement P} {cg cg' : Codegen P},
    Emitting registers varTypes cg → compileStmt stmt cg = .ok cg' →
      Emitting registers varTypes cg'
  | .assign name value, cg, cg', hcg, h => by
      rw [compileStmt] at h
      obtain ⟨-, -, h⟩ := bind_eq_ok h
      obtain ⟨dest, hdest, h⟩ := bind_eq_ok h
      obtain ⟨cg₁, hvalue, h⟩ := bind_eq_ok h
      cases h
      have hlt := hcg.register_lt _ _ (hcg.varReg hdest)
      exact (emitting_compileExpr hcg (by omega) (inUse_of_lt hlt) hvalue).plain _ rfl
  | .arrayAssign name index value, cg, cg', hcg, h => by
      rw [compileStmt] at h
      obtain ⟨arrayReg, -, h⟩ := bind_eq_ok h
      obtain ⟨⟨idxReg, cg₁⟩, halloc, h⟩ := bind_eq_ok h
      obtain ⟨cg₂, hindex, h⟩ := bind_eq_ok h
      obtain ⟨⟨valReg, cg₃⟩, halloc', h⟩ := bind_eq_ok h
      obtain ⟨cg₄, hvalue, h⟩ := bind_eq_ok h
      cases h
      have hidx := (lt_of_mem_scratchRegs (allocScratch_ok halloc).1).2
      have hval := (lt_of_mem_scratchRegs (allocScratch_ok halloc').1).2
      have h₂ := emitting_compileExpr (hcg.alloc halloc) hidx (inUse_of_alloc halloc) hindex
      have h₄ := emitting_compileExpr (h₂.alloc halloc') hval (inUse_of_alloc halloc') hvalue
      exact (((h₄.plain [_] rfl).free idxReg).free valReg).plain _ rfl
  | .ifThenElse condition thenBody elseBody, cg, cg', hcg, h => by
      rw [compileStmt] at h
      obtain ⟨-, -, h⟩ := bind_eq_ok h
      obtain ⟨⟨cg₁, elses, ends⟩, hcondition, h⟩ := bind_eq_ok h
      obtain ⟨cg₂, hthen, h⟩ := bind_eq_ok h
      obtain ⟨cg₃, helse, h⟩ := bind_eq_ok h
      cases h
      have h₁ := emitting_compileBoolCond hcg hcondition
      have h₂ := emitting_compileStmts (((h₁.plain [_] rfl).patches _ _).patches _ _) hthen
      exact (emitting_compileStmts ((h₂.plain [_] rfl).patch _ _) helse).patch _ _
  | .whileDo condition body, cg, cg', hcg, h => by
      rw [compileStmt] at h
      obtain ⟨-, -, h⟩ := bind_eq_ok h
      obtain ⟨⟨cg₁, elses, ends⟩, hcondition, h⟩ := bind_eq_ok h
      obtain ⟨cg₂, hbody, h⟩ := bind_eq_ok h
      cases h
      have h₁ := emitting_compileBoolCond hcg.pushLoop hcondition
      have h₂ := emitting_compileStmts ((h₁.plain [_] rfl).patches _ _) hbody
      exact ((h₂.plain [_] rfl).patch _ _).popLoop
  | .forTo var start stop step body, cg, cg', hcg, h => by
      rw [compileStmt] at h
      obtain ⟨-, -, h⟩ := bind_eq_ok h
      obtain ⟨varReg, hvar, h⟩ := bind_eq_ok h
      obtain ⟨cg₁, hstart, h⟩ := bind_eq_ok h
      obtain ⟨⟨s, cg₂⟩, halloc, h⟩ := bind_eq_ok h
      obtain ⟨cg₃, hstop, h⟩ := bind_eq_ok h
      obtain ⟨cg₄, hbody, h⟩ := bind_eq_ok h
      obtain ⟨⟨s', cg₅⟩, halloc', h⟩ := bind_eq_ok h
      obtain ⟨cg₆, hstep, h⟩ := bind_eq_ok h
      cases h
      have hlt := hcg.register_lt _ _ (hcg.varReg hvar)
      have hs := (lt_of_mem_scratchRegs (allocScratch_ok halloc).1).2
      have hs' := (lt_of_mem_scratchRegs (allocScratch_ok halloc').1).2
      have h₁ := emitting_compileExpr hcg (by omega) (inUse_of_lt hlt) hstart
      have h₃ := emitting_compileExpr (h₁.pushLoop.alloc halloc) hs (inUse_of_alloc halloc) hstop
      have h₄ := emitting_compileStmts (((h₃.plain [_] rfl).free s).plain [_] rfl) hbody
      have h₆ : Emitting registers varTypes cg₆ := by
        cases step with
        | some step =>
            exact emitting_compileExpr (h₄.alloc halloc') hs' (inUse_of_alloc halloc') hstep
        | none =>
            cases hstep
            exact (h₄.alloc halloc').plain _ rfl
      exact ((((h₆.plain [_] rfl).free s').plain [_] rfl).patch _ _).popLoop
  | .repeatUntil body condition, cg, cg', hcg, h => by
      rw [compileStmt] at h
      obtain ⟨-, -, h⟩ := bind_eq_ok h
      obtain ⟨cg₁, hbody, h⟩ := bind_eq_ok h
      obtain ⟨⟨cg₂, elses, ends⟩, hcondition, h⟩ := bind_eq_ok h
      cases h
      have h₁ := emitting_compileStmts hcg.pushLoop hbody
      have h₂ := emitting_compileBoolCond h₁ hcondition
      exact (((h₂.plain [_] rfl).patches _ _).patch _ _).popLoop
  | .return, cg, cg', hcg, h => by
      cases h
      exact hcg.plain _ rfl
  | .exit, cg, cg', hcg, h => hcg.recordExit h
  | .caseOf var cases elseBody, cg, cg', hcg, h => by
      rw [compileStmt] at h
      obtain ⟨varReg, -, h⟩ := bind_eq_ok h
      obtain ⟨⟨cg₁, exits⟩, hcases, h⟩ := bind_eq_ok h
      obtain ⟨cg₂, helse, h⟩ := bind_eq_ok h
      cases h
      exact (emitting_compileStmts (emitting_compileCases hcg hcases) helse).patches _ _
  | .funCall name args, cg, cg', hcg, h => emitting_compileFunCall hcg h

/-- Some statements emit such instructions. -/
theorem emitting_compileStmts : ∀ {stmts : List (Statement P)} {cg cg' : Codegen P},
    Emitting registers varTypes cg → compileStmts stmts cg = .ok cg' →
      Emitting registers varTypes cg'
  | [], cg, cg', hcg, h => by
      cases h
      exact hcg
  | stmt :: stmts, cg, cg', hcg, h => by
      rw [compileStmts] at h
      obtain ⟨cg₁, hfirst, hrest⟩ := bind_eq_ok h
      exact emitting_compileStmts (emitting_compileStmt hcg hfirst) hrest

/-- The cases of a `CASE` emit such instructions. -/
theorem emitting_compileCases {varReg : ℕ} : ∀ {cases : List (List Int64 × List (Statement P))}
    {cg cg' : Codegen P} {exits exits' : List UInt32}, Emitting registers varTypes cg →
    compileCases varReg cases cg exits = .ok (cg', exits') → Emitting registers varTypes cg'
  | [], cg, cg', exits, exits', hcg, h => by
      cases h
      exact hcg
  | (values, body) :: cases, cg, cg', exits, exits', hcg, h => by
      rw [compileCases] at h
      obtain ⟨⟨cg₁, jumps⟩, hvalues, h⟩ := bind_eq_ok h
      obtain ⟨cg₂, hbody, h⟩ := bind_eq_ok h
      have h₁ := emitting_compileCaseValues hcg hvalues
      have h₂ := emitting_compileStmts ((h₁.plain [_] rfl).patches _ _) hbody
      exact emitting_compileCases ((h₂.plain [_] rfl).patch _ _) h

end

/-- The functions emit such instructions. -/
theorem emitting_functions {functions : List (FunctionDef P)} {cg cg' : Codegen P}
    {table table' : List FunctionEntry} (hcg : Emitting registers varTypes cg)
    (h : functions.foldlM
      (fun p func => do
        let (cg, entry) ← compileFunction func p.1
        pure (cg, p.2 ++ [entry]))
      (cg, table) = .ok (cg', table')) : Emitting registers varTypes cg' := by
  induction functions generalizing cg table with
  | nil =>
      cases h
      exact hcg
  | cons func functions ih =>
      rw [List.foldlM_cons] at h
      obtain ⟨p, hfirst, hrest⟩ := bind_eq_ok h
      obtain ⟨⟨cg₁, entry⟩, hfunc, hp⟩ := bind_eq_ok hfirst
      cases hp
      obtain ⟨cg₂, hbody, hfunc⟩ := bind_eq_ok hfunc
      cases hfunc
      exact ih ((emitting_compileStmts hcg hbody).plain _ rfl) hrest

/-- The code of a program. -/
theorem emitting_compileAst {program : Program P} {hp : HalProgram P}
    (h : compileAst program = .ok hp) :
    ∃ cg : Codegen P, Emitting (declareRegisters program.vars.zipIdx fun _ => none)
      (declareTypes program.vars fun _ => none) cg ∧ cg.instructions = hp.instructions := by
  obtain ⟨cg, hnew, h⟩ := bind_eq_ok h
  obtain ⟨cg₁, hbody, h⟩ := bind_eq_ok h
  obtain ⟨⟨cg₂, table⟩, hfunctions, h⟩ := bind_eq_ok h
  cases h
  rw [Codegen.new] at hnew
  split at hnew
  · cases hnew
  · rename_i hlen
    cases hnew
    have hstart : Emitting (declareRegisters program.vars.zipIdx fun _ => none)
        (declareTypes program.vars fun _ => none)
        { registers := declareRegisters program.vars.zipIdx fun _ => none
          varTypes := declareTypes program.vars fun _ => none
          instructions := ([] : List (Instruction P))
          scratchAvail := fun _ => true
          loopExits := [] } := by
      refine ⟨rfl, rfl, fun v r hr => ?_, by rintro _ ⟨⟩⟩
      rcases declareRegisters_eq program.vars 0 _ v r hr with hnone | ⟨-, w, hw, -⟩
      · cases hnone
      · obtain ⟨hlt, -⟩ := List.getElem?_eq_some_iff.mp hw
        rw [maxVarRegs] at hlen
        omega
    have hhalt := (emitting_compileStmts hstart hbody).plain [⟨.halt, []⟩] rfl
    exact ⟨cg₂, emitting_functions hhalt hfunctions, rfl⟩

/-! ### What the program does with its instances -/

theorem invocation_retarget (vm : Vm P) (t : UInt32) (inst : Instruction P) :
    vm.invocation (retarget t inst) = none := by
  unfold invocation retarget
  split <;> first | rfl | simp_all

variable {inst : Instruction P}

/-- A call of a compiled program is one of an instance that is declared with its kind. -/
theorem Emitted.isInstance (h : Emitted registers varTypes inst)
    (hregs : ∀ v r, registers v = some r → r < 13) {vm : Vm P} {i : ℕ} {c : Call}
    (hcall : vm.invocation inst = some (i, c)) :
    ∃ name, IsInstance registers varTypes name c.kind i := by
  have hidx : ∀ {name : String} {kind : BlockKind} {reg : ℕ},
      IsInstance registers varTypes name kind reg → (UInt32.ofNat reg).toNat = reg := by
    intro name kind reg hname
    have hlt := hregs name reg hname.1
    exact UInt32.toNat_ofNat_of_lt' (lt_trans hlt (by decide))
  cases h with
  | plain h =>
      rw [invocation_of_notRun (fun hop => by rw [hop] at h; cases h)
        (fun hop => by rw [hop] at h; cases h) (fun hop => by rw [hop] at h; cases h)
        (fun hop => by rw [hop] at h; cases h)] at hcall
      cases hcall
  | timerRun h | counterRun h | srRun h | edgeRun h =>
      cases hcall
      rw [hidx h]
      exact ⟨_, h⟩
  | readTimer | readSr | readEdge => cases hcall
  | retarget h t =>
      rw [invocation_retarget] at hcall
      cases hcall

/-- The registers of an instruction that reads a timer or a flip-flop. -/
theorem Emitted.destinations (h : Emitted registers varTypes inst)
    (hop : inst.opcode = .readTimer ∨ inst.opcode = .readSr) {first : Operand P} {a b : ℕ}
    (hops : inst.operands = [first, .register a, .register b]) : a < 16 ∧ b < 16 ∧ a ≠ b := by
  cases h with
  | plain h => rcases hop with hop | hop <;> rw [hop] at h <;> cases h
  | timerRun | counterRun | srRun | edgeRun | readEdge => rcases hop with hop | hop <;> cases hop
  | readTimer _ ha hb hne | readSr _ ha hb hne =>
      obtain ⟨-, hops⟩ := List.cons.inj hops
      obtain ⟨hq, hops⟩ := List.cons.inj hops
      cases hq
      cases hops
      exact ⟨ha, hb, hne⟩
  | retarget _ t => cases hops

/-- The register of an instruction that reads an edge detector. -/
theorem Emitted.destination (h : Emitted registers varTypes inst) (hop : inst.opcode = .readEdge)
    {first : Operand P} {a : ℕ} (hops : inst.operands = [first, .register a]) : a < 16 := by
  cases h with
  | plain h =>
      rw [hop] at h
      cases h
  | timerRun | counterRun | srRun | edgeRun | readTimer | readSr => cases hop
  | readEdge _ ha =>
      obtain ⟨-, hops⟩ := List.cons.inj hops
      cases hops
      exact ha
  | retarget _ t => cases hops

end Weftik.St
