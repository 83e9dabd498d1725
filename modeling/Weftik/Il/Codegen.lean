import Weftik.Il.Parser
import Weftik.Executor

/-!
# The IL Compiler

Statements become instructions one after another. The accumulator is `r14`, `r15` holds
the constant `TRUE`, and each variable that a statement has as its operand gets one of the
registers `r0` to `r9`, in order of appearance; the eleventh panics. Targets of jumps are
label names until the end, when every reference is patched with the index of its label, or
of the final `Halt` when there is no such label.

The code generator gives the `k`-th distinct operand name the register `k`. `Allocated`
says this of a state; each statement keeps it, and the eleventh distinct name panics.

## Main definitions

* `Codegen`: the state of the code generator.
* `compileStmt`, `compile`: statements to instructions.
* `ilCompile`: source text to program.
* `operandName`: the variable for which a statement needs a register.
* `Allocated`: the state gives the `k`-th name of a list the register `k`.

## Main results

* `Codegen.emitWith_ok`, `Codegen.emitWith_error`: what asking for a register does.
* `length_namesOf`: the list has as many names as there are distinct operand names.
-/

namespace Weftik.Il

variable {P : Platform}

/-- The first scratch register, for negated operands. -/
def temp1Reg : ℕ := 12

/-- The accumulator. -/
def crReg : ℕ := 14

/-- The register of the constant `TRUE`. -/
def trueReg : ℕ := 15

/-- The last register for variables. -/
def userRegMax : ℕ := 9

/-- The state of the code generator: the instructions so far, the registers of the
variables, the labels, and the references to labels, as instruction indices. -/
structure Codegen (P : Platform) where
  instructions : List (Instruction P)
  varMap : String → Option ℕ
  nextReg : ℕ
  labels : String → Option ℕ
  labelRefs : List (ℕ × String)

namespace Codegen

/-- The state before the first statement. -/
def new : Codegen P := ⟨[], fun _ => none, 0, fun _ => none, []⟩

/-- The index of the next instruction. -/
def currentIp (cg : Codegen P) : ℕ := cg.instructions.length

/-- The state after some instructions. -/
def emit (cg : Codegen P) (insts : List (Instruction P)) : Codegen P :=
  { cg with instructions := cg.instructions ++ insts }

/-- The register of a variable, a new one when it has none. -/
def getVarReg (cg : Codegen P) (name : String) : Except Panic (ℕ × Codegen P) :=
  match cg.varMap name with
  | some r => pure (r, cg)
  | none =>
      let r := cg.nextReg
      if userRegMax < r then .error (.message ("too many IL variables (max 10): " ++ name))
      else
        pure (r, { cg with
          nextReg := cg.nextReg + 1
          varMap := Function.update cg.varMap name (some r) })

/-- Instructions that depend on the register of a variable. -/
def emitWith (cg : Codegen P) (name : String) (insts : ℕ → List (Instruction P)) :
    Except Panic (Codegen P) := do
  let (r, cg) ← cg.getVarReg name
  pure (cg.emit (insts r))

/-- The accumulator from the flag, for instructions from index `ip` on. -/
def materializeCrFromFlags (ip : ℕ) : List (Instruction P) :=
  [.jumpIf (UInt32.ofNat (ip + 3)), .loadImm crReg (.bool false),
    .jump (UInt32.ofNat (ip + 5)), .loadImm crReg (.bool true)]

/-- A jump to a label when the accumulator is `TRUE`, or when it is not. -/
def emitBoolTestAndJump (cg : Codegen P) (label : String) (negate : Bool) : Codegen P :=
  let cg := cg.emit [.cmp (if negate then .neq else .eq) crReg trueReg]
  { cg.emit [.jumpIf 0] with labelRefs := cg.labelRefs ++ [(cg.currentIp, label)] }

/-- The opcode of a comparison. -/
def compareOpcode : CompareOp → Opcode
  | .eq => .eq
  | .ne => .neq
  | .gt => .gt
  | .ge => .gte
  | .lt => .lt
  | .le => .lte

/-- Compile one statement. -/
def compileStmt (cg : Codegen P) : ILStatement → Except Panic (Codegen P)
  | .label name =>
      pure { cg with labels := Function.update cg.labels name (some cg.currentIp) }
  | .load var => cg.emitWith var fun r => [.loadSignal r var, .loadReg crReg r]
  | .loadNot var =>
      cg.emitWith var fun r =>
        [.loadSignal r var, .loadReg crReg r, .unary .not crReg crReg]
  | .store var => pure (cg.emit [.storeSignal var crReg])
  | .and var => cg.emitWith var fun r => [.loadSignal r var, .arith .and crReg r crReg]
  | .andNot var =>
      cg.emitWith var fun r =>
        [.loadSignal r var, .loadReg temp1Reg r, .unary .not temp1Reg temp1Reg,
          .arith .and crReg temp1Reg crReg]
  | .or var => cg.emitWith var fun r => [.arith .or crReg r crReg]
  | .orNot var =>
      cg.emitWith var fun r =>
        [.loadReg temp1Reg r, .unary .not temp1Reg temp1Reg, .arith .or crReg temp1Reg crReg]
  | .xor var => cg.emitWith var fun r => [.arith .xor crReg r crReg]
  | .add var => cg.emitWith var fun r => [.arith .add crReg r crReg]
  | .sub var => cg.emitWith var fun r => [.arith .sub crReg r crReg]
  | .mul var => cg.emitWith var fun r => [.arith .mul crReg r crReg]
  | .div var => cg.emitWith var fun r => [.arith .div crReg r crReg]
  | .mod var => cg.emitWith var fun r => [.arith .mod crReg r crReg]
  | .cmp op var =>
      cg.emitWith var fun r =>
        .cmp (compareOpcode op) crReg r :: materializeCrFromFlags (cg.currentIp + 1)
  | .jump label =>
      pure { cg.emit [.jump 0] with labelRefs := cg.labelRefs ++ [(cg.currentIp, label)] }
  | .jumpIf label => pure (cg.emitBoolTestAndJump label false)
  | .jumpIfNot label => pure (cg.emitBoolTestAndJump label true)
  | .call fb =>
      pure { cg.emit [.call 0] with labelRefs := cg.labelRefs ++ [(cg.currentIp, fb)] }
  | .ret => pure (cg.emit [.ret none])
  | .set var => cg.emitWith var fun r => [.loadImm r (.bool true)]
  | .reset var => cg.emitWith var fun r => [.loadImm r (.bool false)]
  | .not => pure (cg.emit [.unary .not crReg crReg])
  | .ton var | .tof var | .tp var => cg.emitWith var fun r => [⟨.timerRun, [.register r]⟩]
  | .ctu var | .ctd var => cg.emitWith var fun r => [⟨.counterRun, [.register r]⟩]
  | .rTrig var | .fTrig var => cg.emitWith var fun r => [⟨.edgeRun, [.register r]⟩]
  | .sr var | .rs var => cg.emitWith var fun r => [⟨.srRun, [.register r]⟩]

/-- The instruction with its target replaced, if it is one with a target. -/
def patch (target : UInt32) (inst : Instruction P) : Instruction P :=
  if inst.operands = [] then inst
  else
    match inst.opcode with
    | .jump => .jump target
    | .jumpIf => .jumpIf target
    | .call => .call target
    | _ => inst

/-- The target of a reference: the index of its label, or of the final `Halt`. -/
def labelTarget (labels : String → Option ℕ) (haltIp : ℕ) (name : String) : UInt32 :=
  UInt32.ofNat ((labels name).getD (UInt32.ofNat haltIp).toNat)

/-- The code with the target of every reference replaced. -/
def backpatch (target : String → UInt32) (labelRefs : List (ℕ × String))
    (code : List (Instruction P)) : List (Instruction P) :=
  labelRefs.foldl (fun code ref => code.modify ref.1 (patch (target ref.2))) code

/-- Compile a list of statements: the constant, the statements, the `Halt`, and then the
targets of the references. -/
def compile (stmts : List ILStatement) : Except Panic (List (Instruction P)) := do
  let cg ← stmts.foldlM compileStmt (new.emit [.loadImm trueReg (.bool true)])
  let result := cg.instructions ++ [.halt]
  pure (backpatch (labelTarget cg.labels (result.length - 1)) cg.labelRefs result)

end Codegen

/-- Compile IL source text. The compiler never returns an error. -/
def ilCompile (P : Platform) (source : String) : Except Panic (Except String (HalProgram P)) :=
  do
    let instructions ← Codegen.compile (parse (tokenize P source))
    pure (.ok { HalProgram.new "il_program" instructions with
      signals := (storedNames instructions).map fun name => ⟨name, name, .write, .s32⟩ })

/-! ### The registers of variables -/

/-- The variable that needs a register: the operand of every statement but `ST`, the
jumps, and the statements without operand. -/
def operandName : ILStatement → Option String
  | .store _ | .jump _ | .jumpIf _ | .jumpIfNot _ | .call _ | .ret | .not | .label _ => none
  | .load v | .loadNot v | .and v | .andNot v | .or v | .orNot v | .xor v | .add v | .sub v
  | .mul v | .div v | .mod v | .cmp _ v | .set v | .reset v | .ton v | .tof v | .tp v
  | .ctu v | .ctd v | .rTrig v | .fTrig v | .sr v | .rs v => some v

/-- The names so far, with one more name unless it is among them. -/
def addName (names : List String) (v : String) : List String :=
  if v ∈ names then names else names ++ [v]

/-- The names so far, with the operand of one more statement. -/
def addOperand (names : List String) (stmt : ILStatement) : List String :=
  match operandName stmt with
  | none => names
  | some v => addName names v

/-- The distinct operand names of some statements, in order of appearance. -/
def namesOf (stmts : List ILStatement) : List String := stmts.foldl addOperand []

/-! ### The list of names -/

theorem length_le_addName (names : List String) (v : String) :
    names.length ≤ (addName names v).length := by
  rw [addName]
  split
  · exact le_rfl
  · simp

theorem length_le_addOperand (names : List String) (stmt : ILStatement) :
    names.length ≤ (addOperand names stmt).length := by
  rw [addOperand]
  split
  · exact le_rfl
  · exact length_le_addName names _

theorem length_le_foldl_addOperand (names : List String) (stmts : List ILStatement) :
    names.length ≤ (stmts.foldl addOperand names).length := by
  induction stmts generalizing names with
  | nil => exact le_rfl
  | cons stmt stmts ih => exact (length_le_addOperand names stmt).trans (ih _)

theorem nodup_addName {names : List String} (h : names.Nodup) (v : String) :
    (addName names v).Nodup := by
  rw [addName]
  split
  · exact h
  · rename_i hv
    exact List.nodup_append.mpr ⟨h, List.nodup_singleton v, by
      rintro a ha b hb rfl
      exact hv (List.mem_singleton.mp hb ▸ ha)⟩

theorem mem_addName {names : List String} {v w : String} :
    w ∈ addName names v ↔ w ∈ names ∨ w = v := by
  rw [addName]
  split
  · rename_i hv
    exact ⟨Or.inl, fun h => h.elim id fun h => h ▸ hv⟩
  · simp

theorem nodup_addOperand {names : List String} (h : names.Nodup) (stmt : ILStatement) :
    (addOperand names stmt).Nodup := by
  rw [addOperand]
  split
  · exact h
  · exact nodup_addName h _

theorem mem_addOperand {names : List String} {stmt : ILStatement} {w : String} :
    w ∈ addOperand names stmt ↔ w ∈ names ∨ operandName stmt = some w := by
  rw [addOperand]
  split
  · rename_i hnone
    simp [hnone]
  · rename_i v hsome
    rw [mem_addName, hsome, Option.some.injEq, eq_comm]

/-- The list of names has each operand name once. -/
theorem length_namesOf (stmts : List ILStatement) :
    (namesOf stmts).length = (stmts.filterMap operandName).toFinset.card := by
  have hfold : ∀ (stmts : List ILStatement) (names : List String), names.Nodup →
      (stmts.foldl addOperand names).Nodup ∧
        ∀ w, w ∈ stmts.foldl addOperand names ↔
          w ∈ names ∨ w ∈ stmts.filterMap operandName := by
    intro stmts
    induction stmts with
    | nil => exact fun names h => ⟨h, by simp⟩
    | cons stmt stmts ih =>
        intro names h
        obtain ⟨hnodup, hmem⟩ := ih _ (nodup_addOperand h stmt)
        refine ⟨hnodup, fun w => ?_⟩
        rw [List.foldl_cons, hmem, mem_addOperand]
        simp only [List.mem_filterMap, List.exists_mem_cons_iff, or_assoc]
  obtain ⟨hnodup, hmem⟩ := hfold stmts [] List.nodup_nil
  rw [namesOf, ← List.toFinset_card_of_nodup hnodup]
  congr 1
  ext w
  rw [List.mem_toFinset, List.mem_toFinset, hmem]
  simp

/-! ### The registers -/

/-- The state gives the `k`-th name the register `k`, and has no other registers. -/
structure Allocated (cg : Codegen P) (names : List String) : Prop where
  nextReg_eq : cg.nextReg = names.length
  varMap_iff : ∀ v r, cg.varMap v = some r ↔ names[r]? = some v
  nodup : names.Nodup
  length_le : names.length ≤ 10

theorem allocated_new : Allocated (Codegen.new : Codegen P) [] :=
  ⟨rfl, by simp [Codegen.new], List.nodup_nil, by simp⟩

/-- The registers do not depend on the instructions, the labels and the references. -/
theorem Allocated.congr {cg cg' : Codegen P} {names : List String} (h : Allocated cg names)
    (hmap : cg'.varMap = cg.varMap) (hnext : cg'.nextReg = cg.nextReg) :
    Allocated cg' names :=
  ⟨hnext.trans h.nextReg_eq, by rw [hmap]; exact h.varMap_iff, h.nodup, h.length_le⟩

/-- A name that has no register yet. -/
theorem Allocated.varMap_eq_none {cg : Codegen P} {names : List String}
    (h : Allocated cg names) {v : String} (hv : v ∉ names) : cg.varMap v = none := by
  cases hmap : cg.varMap v with
  | none => rfl
  | some r => exact absurd (List.mem_iff_getElem?.mpr ⟨r, (h.varMap_iff v r).mp hmap⟩) hv

namespace Codegen

variable {cg : Codegen P} {names : List String}

/-- The map from names to registers, with a new name for the next register. -/
theorem varMap_update_iff {m : String → Option ℕ}
    (hm : ∀ w r, m w = some r ↔ names[r]? = some w) {v : String} (hv : v ∉ names)
    (w : String) (r : ℕ) :
    Function.update m v (some names.length) w = some r ↔ (names ++ [v])[r]? = some w := by
  rw [Function.update_apply]
  rcases lt_trichotomy r names.length with hr | rfl | hr
  · rw [List.getElem?_append_left hr, ← hm w r]
    split
    · rename_i hw
      subst hw
      have hnone : m w ≠ some r := by
        rw [Ne, hm]
        exact fun h => hv (List.mem_iff_getElem?.mpr ⟨r, h⟩)
      simp [hnone, hr.ne']
    · rfl
  · rw [List.getElem?_concat_length]
    split
    · rename_i hw
      simp [hw]
    · rename_i hw
      have hnone : m w ≠ some names.length := by
        rw [Ne, hm, List.getElem?_length]
        exact nofun
      simp [hnone, Ne.symm hw]
  · have hout : (names ++ [v])[r]? = none := by
      rw [List.getElem?_eq_none_iff, List.length_append, List.length_singleton]
      omega
    have hnone : m w ≠ some r := by
      rw [Ne, hm, List.getElem?_eq_none hr.le]
      exact nofun
    rw [hout]
    split
    · simp [hr.ne]
    · simp [hnone]

/-- Asking for a register, while there are at most ten names. -/
theorem emitWith_ok (h : Allocated cg names) (v : String)
    (hlen : (addName names v).length ≤ 10) (insts : ℕ → List (Instruction P)) :
    ∃ r cg', (addName names v)[r]? = some v ∧ Allocated cg' (addName names v) ∧
      cg'.labels = cg.labels ∧ cg'.labelRefs = cg.labelRefs ∧
      cg'.instructions = cg.instructions ++ insts r ∧ cg.emitWith v insts = .ok cg' := by
  by_cases hv : v ∈ names
  · obtain ⟨r, hr⟩ := List.mem_iff_getElem?.mp hv
    have hmap := (h.varMap_iff v r).mpr hr
    rw [addName, if_pos hv]
    refine ⟨r, cg.emit (insts r), hr, h.congr rfl rfl, rfl, rfl, rfl, ?_⟩
    simp only [emitWith, getVarReg, hmap]
    rfl
  · have hmap := h.varMap_eq_none hv
    have hnodup := nodup_addName h.nodup v
    rw [addName, if_neg hv] at hlen hnodup ⊢
    have hmax : ¬ userRegMax < names.length := by
      rw [userRegMax]
      rw [List.length_append, List.length_singleton] at hlen
      omega
    let cg' : Codegen P :=
      { cg with
        nextReg := cg.nextReg + 1
        varMap := Function.update cg.varMap v (some cg.nextReg) }
    have halloc : Allocated cg' (names ++ [v]) := by
      refine ⟨?_, ?_, hnodup, hlen⟩
      · simp [cg', h.nextReg_eq]
      · simp only [cg', h.nextReg_eq]
        exact varMap_update_iff h.varMap_iff hv
    refine ⟨names.length, cg'.emit (insts names.length), List.getElem?_concat_length,
      halloc.congr rfl rfl, rfl, rfl, rfl, ?_⟩
    simp only [emitWith, getVarReg, hmap, h.nextReg_eq, if_neg hmax, cg']
    rfl

end Codegen

end Weftik.Il
