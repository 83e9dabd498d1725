import Weftik.Il.Accumulator
import Weftik.Il.Codegen

/-!
# Correctness of the IL Compiler on Straight-Line Code

The machine represents an accumulator state: `r14` is the accumulator, the signal table is
the table, and the register of each variable is its copy. Each compiled statement takes
representing machines to representing machines, as `AccState.copyStep` says; so a compiled
program ends with the table of `copyRun`, and with that of the accumulator semantics when
no statement of the run notices a stale register.

## Main definitions

* `Represents`: the machine represents an accumulator state.

## Main results

* `Codegen.compileStmt_simulates`: the simulation of one statement.
* `ilCompile_runs`: a compiled program ends with the table of `copyRun`.
* `ilCompile_straightLine`: it ends with the table of the accumulator semantics.
-/

open Outcome Machine

namespace Weftik.Il

variable {P : Platform}

/-- The machine represents an accumulator state, where the `k`-th name has register `k`. -/
structure Represents (names : List String) (vm : Vm P) (st : AccState P) : Prop where
  cr : vm.reg crReg = st.cr
  signals : vm.signals = st.table
  copies : ∀ r v, names[r]? = some v → vm.reg r = st.copy v
  unused : ∀ r, names.length ≤ r → r < 10 → vm.reg r = .s32 0
  unnamed : ∀ v, v ∉ names → st.copy v = .s32 0

namespace Represents

variable {names : List String} {vm : Vm P} {st : AccState P} {r : ℕ} {v : String}

/-- A register of a variable is one of the first ten. -/
theorem lt_ten (hlen : names.length ≤ 10) (hr : names[r]? = some v) : r < 10 := by
  obtain ⟨hlt, -⟩ := List.getElem?_eq_some_iff.mp hr
  omega

theorem advance (h : Represents names vm st) : Represents names vm.advanceIp st :=
  ⟨h.1, h.2, h.3, h.4, h.5⟩

/-- A new name gets a register that has not been used, and `S32(0)` as its copy. -/
theorem addName (h : Represents names vm st) (hlen : (addName names v).length ≤ 10) :
    Represents (addName names v) vm st := by
  by_cases hv : v ∈ names
  · rw [Il.addName, if_pos hv]
    exact h
  · rw [Il.addName, if_neg hv] at hlen ⊢
    rw [List.length_append, List.length_singleton] at hlen
    refine ⟨h.cr, h.signals, ?_, ?_, ?_⟩
    · intro r w hw
      rcases lt_trichotomy r names.length with hr | rfl | hr
      · rw [List.getElem?_append_left hr] at hw
        exact h.copies r w hw
      · rw [List.getElem?_concat_length] at hw
        obtain rfl := Option.some.inj hw
        rw [h.unused _ le_rfl (by omega), h.unnamed v hv]
      · rw [List.getElem?_eq_none (by simp; omega)] at hw
        cases hw
    · intro r hr hlt
      rw [List.length_append, List.length_singleton] at hr
      exact h.unused r (by omega) hlt
    · intro w hw
      exact h.unnamed w fun hmem => hw (List.mem_append_left _ hmem)

/-- A write of the accumulator. -/
theorem setCr (h : Represents names vm st) (hlen : names.length ≤ 10) (x : HalValue P) :
    Represents names (vm.setReg crReg x) { st with cr := x } := by
  have hreg : ∀ j, j < 10 → (vm.setReg crReg x).reg j = vm.reg j := by
    intro j hj
    rw [Vm.reg_setReg (by decide), if_neg (by rw [crReg]; omega)]
  refine ⟨?_, h.signals, ?_, ?_, h.unnamed⟩
  · rw [Vm.reg_setReg (by decide), if_pos rfl]
  · intro r w hw
    rw [hreg r (lt_ten hlen hw)]
    exact h.copies r w hw
  · intro r hr hlt
    rw [hreg r hlt]
    exact h.unused r hr hlt

/-- A write of the scratch register changes nothing that is represented. -/
theorem setTemp (h : Represents names vm st) (hlen : names.length ≤ 10) (x : HalValue P) :
    Represents names (vm.setReg temp1Reg x) st := by
  have hreg : ∀ j, j ≠ temp1Reg → (vm.setReg temp1Reg x).reg j = vm.reg j := by
    intro j hj
    rw [Vm.reg_setReg (by decide), if_neg hj]
  refine ⟨?_, h.signals, ?_, ?_, h.unnamed⟩
  · rw [hreg crReg (by decide)]
    exact h.cr
  · intro r w hw
    have hlt := lt_ten hlen hw
    rw [hreg r (by rw [temp1Reg]; omega)]
    exact h.copies r w hw
  · intro r hr hlt
    rw [hreg r (by rw [temp1Reg]; omega)]
    exact h.unused r hr hlt

/-- A write of the register of a variable. -/
theorem setVar (h : Represents names vm st) (hlen : names.length ≤ 10)
    (hnodup : names.Nodup) (hr : names[r]? = some v) (x : HalValue P) :
    Represents names (vm.setReg r x) { st with copy := Function.update st.copy v x } := by
  have hlt := lt_ten hlen hr
  have hreg : ∀ j, j ≠ r → (vm.setReg r x).reg j = vm.reg j := by
    intro j hj
    rw [Vm.reg_setReg (by omega), if_neg hj]
  refine ⟨?_, h.signals, ?_, ?_, ?_⟩
  · rw [hreg crReg (by rw [crReg]; omega)]
    exact h.cr
  · intro s w hw
    by_cases hs : s = r
    · subst hs
      obtain rfl : v = w := Option.some.inj (hr.symm.trans hw)
      rw [Vm.reg_setReg (by omega), if_pos rfl]
      exact (Function.update_self v x st.copy).symm
    · have hne : w ≠ v := by
        rintro rfl
        obtain ⟨hs', hsw⟩ := List.getElem?_eq_some_iff.mp hw
        obtain ⟨hr', hrw⟩ := List.getElem?_eq_some_iff.mp hr
        exact hs ((List.Nodup.getElem_inj_iff hnodup).mp (hsw.trans hrw.symm))
      rw [hreg s hs, h.copies s w hw]
      exact (Function.update_of_ne hne x st.copy).symm
  · intro s hs hlt'
    have hne : s ≠ r := by
      obtain ⟨hr', -⟩ := List.getElem?_eq_some_iff.mp hr
      omega
    rw [hreg s hne]
    exact h.unused s hs hlt'
  · intro w hw
    have hne : w ≠ v := by
      rintro rfl
      exact hw (List.mem_iff_getElem?.mpr ⟨r, hr⟩)
    exact (Function.update_of_ne hne x st.copy).trans (h.unnamed w hw)

/-- A write of the signal table. -/
theorem writeSignal (h : Represents names vm st) (w : String) (x : HalValue P) :
    Represents names (vm.writeSignal w x)
      { st with table := Function.update st.table w (some x) } := by
  refine ⟨h.cr, ?_, h.copies, h.unused, h.unnamed⟩
  rw [← h.signals]
  rfl

/-- Loading the operand of a statement into its register. -/
theorem reload (h : Represents names vm st) (hlen : names.length ≤ 10)
    (hnodup : names.Nodup) (hr : names[r]? = some v) :
    Represents names (vm.setReg r ((vm.signals v).getD (.bool false)))
      { st with copy := Function.update st.copy v (st.value v) } := by
  rw [h.signals]
  exact h.setVar hlen hnodup hr _

end Represents

/-! ### The instructions of the compiler -/

section Blocks

variable {names : List String} {vm : Vm P} {st : AccState P} {r : ℕ} {v : String}
  {d : Except Panic (AccState P)}

/-- The register of a variable is loaded from the signal table, and the code goes on. -/
theorem agree_loadSignal {rest : List (Instruction P)} (h : Represents names vm st)
    (hlen : names.length ≤ 10) (hnodup : names.Nodup) (hr : names[r]? = some v)
    (hrest : ∀ vm', Represents names vm' { st with copy := Function.update st.copy v (st.value v) }
        → Agree (Represents names) (vm'.execList rest) d) :
    Agree (Represents names) (vm.execList (.loadSignal r v :: rest)) d := by
  have hlt := Represents.lt_ten hlen hr
  rw [Vm.execList_cons, Vm.stepSeq_loadSignal (by omega), ok_bind]
  exact hrest _ (h.reload hlen hnodup hr).advance

/-- An operation of the accumulator and the register of a variable. -/
theorem agree_arith {opcode : Opcode} (hop : Vm.Opcode.isArith opcode = true)
    (h : Represents names vm st) (hlen : names.length ≤ 10) (hr : names[r]? = some v) :
    Agree (Represents names) (vm.execList [.arith opcode crReg r crReg])
      (do
        let cr ← Vm.arithFn opcode st.cr (st.copy v)
        pure { st with cr := cr }) := by
  have hlt := Represents.lt_ten hlen hr
  rw [Vm.execList_cons, Vm.stepSeq_arith hop (by decide) (by omega) (by decide), h.cr,
    h.copies r v hr]
  cases Vm.arithFn opcode st.cr (st.copy v) with
  | error e => rfl
  | ok x => exact (h.setCr hlen x).advance

/-- An operation of the accumulator and the negated register of a variable. -/
theorem agree_arithNot {opcode : Opcode} (hop : Vm.Opcode.isArith opcode = true)
    (h : Represents names vm st) (hlen : names.length ≤ 10) (hr : names[r]? = some v) :
    Agree (Represents names)
      (vm.execList [.loadReg temp1Reg r, .unary .not temp1Reg temp1Reg,
        .arith opcode crReg temp1Reg crReg])
      (do
        let cr ← Vm.arithFn opcode st.cr (st.copy v).not
        pure { st with cr := cr }) := by
  have hlt := Represents.lt_ten hlen hr
  have htemp : temp1Reg < 16 := by decide
  have h₁ := (h.setTemp hlen (st.copy v)).advance
  have h₂ := (h₁.setTemp hlen (st.copy v).not).advance
  rw [Vm.execList_cons, Vm.stepSeq_loadReg htemp (by omega), ok_bind, Vm.execList_cons,
    Vm.stepSeq_not htemp htemp, ok_bind, h.copies r v hr, Vm.advanceIp_reg,
    Vm.reg_setReg htemp, if_pos rfl, Vm.execList_cons,
    Vm.stepSeq_arith hop (by decide) htemp (by decide), h₂.cr, Vm.advanceIp_reg,
    Vm.reg_setReg htemp, if_pos rfl]
  cases Vm.arithFn opcode st.cr (st.copy v).not with
  | error e => rfl
  | ok x => exact (h₂.setCr hlen x).advance

/-- The register of a variable becomes the accumulator, and the code goes on. -/
theorem agree_loadCr {rest : List (Instruction P)} (h : Represents names vm st)
    (hlen : names.length ≤ 10) (hr : names[r]? = some v)
    (hrest : ∀ vm', Represents names vm' { st with cr := st.copy v } →
        Agree (Represents names) (vm'.execList rest) d) :
    Agree (Represents names) (vm.execList (.loadReg crReg r :: rest)) d := by
  have hlt := Represents.lt_ten hlen hr
  rw [Vm.execList_cons, Vm.stepSeq_loadReg (by decide) (by omega), ok_bind, h.copies r v hr]
  exact hrest _ (h.setCr hlen _).advance

/-- The accumulator is negated. -/
theorem agree_not (h : Represents names vm st) (hlen : names.length ≤ 10) :
    Agree (Represents names) (vm.execList [.unary .not crReg crReg])
      (pure { st with cr := st.cr.not }) := by
  rw [Vm.execList_cons, Vm.stepSeq_not (by decide) (by decide), h.cr]
  exact (h.setCr hlen _).advance

/-- The register of a variable is set to a constant. -/
theorem agree_loadImm (h : Represents names vm st) (hlen : names.length ≤ 10)
    (hnodup : names.Nodup) (hr : names[r]? = some v) (x : HalValue P) :
    Agree (Represents names) (vm.execList [.loadImm r x])
      (pure { st with copy := Function.update st.copy v x }) := by
  have hlt := Represents.lt_ten hlen hr
  rw [Vm.execList_cons, Vm.stepSeq_loadImm (by omega)]
  exact (h.setVar hlen hnodup hr x).advance

/-- The accumulator is stored. -/
theorem agree_store (h : Represents names vm st) (w : String) :
    Agree (Represents names) (vm.execList [.storeSignal w crReg])
      (pure { st with table := Function.update st.table w (some st.cr) }) := by
  rw [Vm.execList_cons, Vm.stepSeq_storeSignal (by decide), h.cr]
  exact (h.writeSignal w _).advance

end Blocks

/-! ### One statement -/

namespace Codegen

variable {cg : Codegen P} {names : List String}

/-- The code generator has appended a straight-line fragment that simulates the given step
from every representing machine. -/
structure Appends (cg : Codegen P) (names names' : List String)
    (simulated : AccState P → Except Panic (AccState P)) (cg' : Codegen P) : Prop where
  allocated : Allocated cg' names'
  labelRefs : cg'.labelRefs = cg.labelRefs
  fragment : ∃ insts, cg'.instructions = cg.instructions ++ insts ∧ IsSequential insts ∧
    ∀ vm st, Represents names vm st →
      Agree (Represents names') (vm.execList insts) (simulated st)

variable {simulated : AccState P → Except Panic (AccState P)}

/-- A statement with an operand, from the simulation of its instructions. -/
theorem emitWith_appends (halloc : Allocated cg names) {v : String}
    (hlen : (addName names v).length ≤ 10) {insts : ℕ → List (Instruction P)}
    (hseq : ∀ r, IsSequential (insts r))
    (hsim : ∀ r vm st, (addName names v)[r]? = some v → Represents (addName names v) vm st →
        (addName names v).Nodup → Agree (Represents (addName names v)) (vm.execList (insts r))
        (simulated st)) :
    ∃ cg', cg.emitWith v insts = .ok cg' ∧ cg.Appends names (addName names v) simulated cg' := by
  obtain ⟨r, cg', hr, halloc', -, hrefs, hinsts, hemit⟩ := emitWith_ok halloc v hlen insts
  exact ⟨cg', hemit, halloc', hrefs, insts r, hinsts, hseq r, fun vm st hrep =>
    hsim r vm st hr (hrep.addName hlen) halloc'.nodup⟩

/-- A statement without an operand, from the simulation of its instructions. -/
theorem emit_appends (halloc : Allocated cg names) {insts : List (Instruction P)}
    (hseq : IsSequential insts)
    (hsim : ∀ vm st, Represents names vm st →
        Agree (Represents names) (vm.execList insts) (simulated st)) :
    cg.Appends names names simulated (cg.emit insts) :=
  ⟨halloc.congr rfl rfl, rfl, insts, rfl, hseq, hsim⟩

/-- Each statement of straight-line IL is compiled to a fragment that does what `copyStep`
says. -/
theorem compileStmt_simulates (halloc : Allocated cg names) {stmt : ILStatement}
    (hstmt : stmt.isStraightLine = true) (hlen : (addOperand names stmt).length ≤ 10) :
    ∃ cg', cg.compileStmt stmt = .ok cg' ∧
      cg.Appends names (addOperand names stmt) (AccState.copyStep · stmt) cg' := by
  cases stmt with
  | load v =>
      simp only [compileStmt]
      refine emitWith_appends halloc hlen ?_ ?_
      · exact fun r => isSequential_of_all rfl
      · intro r vm st hr hrep hnodup
        refine agree_loadSignal hrep hlen hnodup hr fun vm₁ h₁ => ?_
        exact agree_loadCr h₁ hlen hr fun vm₂ h₂ => h₂
  | loadNot v =>
      simp only [compileStmt]
      refine emitWith_appends halloc hlen ?_ ?_
      · exact fun r => isSequential_of_all rfl
      · intro r vm st hr hrep hnodup
        refine agree_loadSignal hrep hlen hnodup hr fun vm₁ h₁ => ?_
        exact agree_loadCr h₁ hlen hr fun vm₂ h₂ => agree_not h₂ hlen
  | store v =>
      exact ⟨_, rfl, emit_appends halloc (isSequential_of_all rfl)
        fun vm st hrep => agree_store hrep v⟩
  | and v =>
      simp only [compileStmt]
      refine emitWith_appends halloc hlen ?_ ?_
      · exact fun r => isSequential_of_all rfl
      · intro r vm st hr hrep hnodup
        refine agree_loadSignal hrep hlen hnodup hr fun vm₁ h₁ => ?_
        exact agree_arith rfl h₁ hlen hr
  | andNot v =>
      simp only [compileStmt]
      refine emitWith_appends halloc hlen ?_ ?_
      · exact fun r => isSequential_of_all rfl
      · intro r vm st hr hrep hnodup
        refine agree_loadSignal hrep hlen hnodup hr fun vm₁ h₁ => ?_
        exact agree_arithNot rfl h₁ hlen hr
  | orNot v =>
      simp only [compileStmt]
      refine emitWith_appends halloc hlen ?_ ?_
      · exact fun r => isSequential_of_all rfl
      · exact fun r vm st hr hrep hnodup => agree_arithNot rfl hrep hlen hr
  | or v | xor v | add v | sub v | mul v | div v | mod v =>
      simp only [compileStmt]
      refine emitWith_appends halloc hlen ?_ ?_
      · exact fun r => isSequential_of_all rfl
      · exact fun r vm st hr hrep hnodup => agree_arith rfl hrep hlen hr
  | set v | reset v =>
      simp only [compileStmt]
      refine emitWith_appends halloc hlen ?_ ?_
      · exact fun r => isSequential_of_all rfl
      · exact fun r vm st hr hrep hnodup => agree_loadImm hrep hlen hnodup hr _
  | not =>
      exact ⟨_, rfl, emit_appends halloc (isSequential_of_all rfl)
        fun vm st hrep => agree_not hrep halloc.length_le⟩
  | _ => cases hstmt

/-! ### A list of statements -/

/-- Straight-line IL is compiled to a fragment that does what `copyRun` says. -/
theorem compileStmts_simulates {stmts : List ILStatement} (halloc : Allocated cg names)
    (hstmts : ∀ stmt ∈ stmts, stmt.isStraightLine = true)
    (hlen : (stmts.foldl addOperand names).length ≤ 10) :
    ∃ cg', stmts.foldlM compileStmt cg = .ok cg' ∧
      cg.Appends names (stmts.foldl addOperand names) (AccState.copyRun · stmts) cg' := by
  induction stmts generalizing cg names with
  | nil =>
      refine ⟨cg, rfl, halloc, rfl, [], (List.append_nil _).symm, isSequential_of_all rfl, ?_⟩
      exact fun vm st hrep => hrep
  | cons stmt stmts ih =>
      have hfirst : (addOperand names stmt).length ≤ 10 :=
        (length_le_foldl_addOperand _ stmts).trans hlen
      obtain ⟨cg₁, hcompile, halloc₁, hrefs₁, insts₁, hinsts₁, hseq₁, hsim₁⟩ :=
        compileStmt_simulates halloc (hstmts stmt List.mem_cons_self) hfirst
      obtain ⟨cg₂, hcompile₂, halloc₂, hrefs₂, insts₂, hinsts₂, hseq₂, hsim₂⟩ :=
        ih halloc₁ (fun s hs => hstmts s (List.mem_cons_of_mem stmt hs)) hlen
      refine ⟨cg₂, ?_, halloc₂, hrefs₂.trans hrefs₁, insts₁ ++ insts₂, ?_, hseq₁.append hseq₂, ?_⟩
      · rw [List.foldlM_cons, hcompile]
        exact hcompile₂
      · rw [hinsts₂, hinsts₁, List.append_assoc]
      · intro vm st hrep
        rw [Vm.execList_append]
        exact (hsim₁ vm st hrep).bind hsim₂

end Codegen

/-! ### A compiled program -/

/-- The machine at the start of a scan with the given signal table. -/
def scanStart (vm : Vm P) (table : String → Option (HalValue P)) : Vm P :=
  { vm.reset with signals := table }

/-- The constant `TRUE` has been loaded, and nothing else has happened. -/
theorem represents_start (vm : Vm P) (table : String → Option (HalValue P)) :
    Represents [] ((scanStart vm table).setReg trueReg (.bool true)).advanceIp
      (AccState.start table) := by
  have hreg : ∀ j, j ≠ trueReg →
      ((scanStart vm table).setReg trueReg (.bool true)).reg j = .s32 0 := by
    intro j hj
    rw [Vm.reg_setReg (by decide), if_neg hj]
    exact Vm.reset_reg vm j
  refine ⟨hreg crReg (by decide), rfl, nofun, fun r _ hr => ?_, fun v _ => rfl⟩
  exact hreg r (by rw [trueReg]; omega)

/-- Compiled straight-line IL with at most ten distinct operands is a program that ends
with the table of `copyRun`, or panics as it does. -/
theorem ilCompile_runs (source : String) (vm : Vm P) (table : String → Option (HalValue P))
    (hstmts : ∀ stmt ∈ parse (tokenize P source), stmt.isStraightLine = true)
    (hvars : ((parse (tokenize P source)).filterMap operandName).toFinset.card ≤ 10) :
    ∃ program, ilCompile P source = .ok (.ok program) ∧
      ∃ out, Exec (Vm.step program.instructions) (scanStart vm table) out ∧
        Vm.signals <$> out =
          AccState.table <$> (AccState.start table).copyRun (parse (tokenize P source)) := by
  rw [← length_namesOf] at hvars
  have halloc : Allocated ((Codegen.new : Codegen P).emit [.loadImm trueReg (.bool true)]) [] :=
    allocated_new.congr rfl rfl
  obtain ⟨cg, hcompile, -, hrefs, insts, hinsts, hseq, hsim⟩ :=
    Codegen.compileStmts_simulates halloc hstmts hvars
  have hcode : Codegen.compile (P := P) (parse (tokenize P source)) =
      .ok (([.loadImm trueReg (.bool true)] ++ insts) ++ [.halt]) := by
    rw [Codegen.compile, hcompile, ok_bind, hrefs, hinsts]
    rfl
  refine ⟨_, by rw [ilCompile, hcode]; rfl, _, Vm.exec_program ?_ rfl, ?_⟩
  · exact (isSequential_of_all rfl).append hseq
  · rw [Vm.execList_append, Vm.execList_cons, Vm.stepSeq_loadImm (by decide), Functor.map_map]
    exact (hsim _ _ (represents_start vm table)).map_eq fun vm' st hrep => hrep.signals

end Weftik.Il
