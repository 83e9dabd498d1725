import Weftik.Il.ControlFlow
import Weftik.Control
import Weftik.Frame
import Weftik.Timers

/-!
# Function Blocks in Compiled IL

The statements of timers, counters, edge detectors and flip-flops are compiled to an
instruction of the right opcode with the register of the operand as its only operand. The
machine wants the number of the instance first, and passes over an instruction whose operands
do not fit. So no compiled program ever has an instance, in any scan, and a function-block
statement only advances the instruction pointer.

## Main definitions

* `BlockKind`, `blockKind`: the function block of a statement.
* `Scanned`: the machine at any point of any scan of a program.
* `Updated`: what executing a function block does.
* `BlocksTakeEffect`: every function-block statement that is reached updates its instance, and
  the next statement follows.

## Main results

* `Scanned.noInstances`: no scan creates an instance.
* `blocksTakeEffect_iff`: the function blocks take effect only if none is reached.
-/

open Outcome Machine

namespace Weftik

variable {P : Platform}

/-! ### Machines without instances -/

namespace Vm

/-- The instances of all function blocks. -/
def instances (vm : Vm P) :
    List TimerState × List CounterState × List SrState × List EdgeState :=
  (vm.timers, vm.counters, vm.srs, vm.edges)

theorem free_instances : Free (instances : Vm P → _) :=
  ⟨fun _ _ _ => rfl, fun _ _ => rfl, fun _ _ => rfl, fun _ _ => rfl⟩

/-- No function block has an instance. -/
def NoInstances (vm : Vm P) : Prop := vm.instances = ([], [], [], [])

end Vm

/-- Is it an instruction that touches no instance? One of a function block does not when the
number of the instance is not the first operand. -/
def Instruction.sparesInstances (inst : Instruction P) : Bool :=
  match inst.operands with
  | .immediate (.u32 _) :: _ => !Vm.Opcode.isBlock inst.opcode
  | _ => true

namespace Vm

/-- An instruction of a function block without the number of an instance does nothing. -/
theorem executeInstruction_of_isBlock (vm : Vm P) {inst : Instruction P}
    (hblock : Opcode.isBlock inst.opcode = true) (hspares : inst.sparesInstances = true) :
    vm.executeInstruction inst = .ok (vm, .cont) := by
  obtain ⟨opcode, ops⟩ := inst
  have hops : ∀ i rest, ops ≠ .immediate (.u32 i) :: rest := by
    rintro i rest rfl
    rw [Instruction.sparesInstances] at hspares
    dsimp only at hspares hblock
    rw [hblock] at hspares
    cases hspares
  have hskip : ∀ {c : Except Panic (Vm P)}, c = pure vm → continues c = .ok (vm, .cont) := by
    rintro c rfl
    rfl
  cases opcode with
  | timerRun =>
      refine hskip ?_
      unfold execTimerRun
      split
      · exact absurd ‹_› (hops _ _)
      · rfl
  | readTimer =>
      refine hskip ?_
      unfold execReadTimer
      split
      · exact absurd ‹_› (hops _ _)
      · rfl
  | counterRun =>
      refine hskip ?_
      unfold execCounterRun
      split
      · exact absurd ‹_› (hops _ _)
      · rfl
  | readCounter =>
      refine hskip ?_
      unfold execReadCounter
      split
      · exact absurd ‹_› (hops _ _)
      · rfl
  | srRun =>
      refine hskip ?_
      unfold execSrRun
      split
      · exact absurd ‹_› (hops _ _)
      · rfl
  | readSr =>
      refine hskip ?_
      unfold execReadSr
      split
      · exact absurd ‹_› (hops _ _)
      · rfl
  | edgeRun =>
      refine hskip ?_
      unfold execEdgeRun
      split
      · exact absurd ‹_› (hops _ _)
      · rfl
  | readEdge =>
      refine hskip ?_
      unfold execReadEdge
      split
      · exact absurd ‹_› (hops _ _)
      · rfl
  | _ => cases hblock

/-- Such an instruction leaves the instances alone. -/
theorem executeInstruction_instances (vm : Vm P) {inst : Instruction P}
    (hspares : inst.sparesInstances = true) :
    Ends (vm.executeInstruction inst) (fun p => p.1.instances = vm.instances)
      fun _ => True := by
  cases hblock : Opcode.isBlock inst.opcode with
  | true => rw [executeInstruction_of_isBlock vm hblock hspares]; rfl
  | false =>
      by_cases hstore : inst.opcode = .store
      · obtain ⟨opcode, ops⟩ := inst
        subst hstore
        refine Keeps.continues ?_
        unfold execStore
        split
        · exact .bind fun _ => .pure rfl
        · exact .pure rfl
      · exact executeInstruction_free free_instances vm hstore hblock

end Vm

namespace Il

/-! ### What the statements mean -/

/-- The kinds of function blocks that have statements; edge detectors are numbered as in the
machine. -/
inductive BlockKind
  | timer (kind : TimerKind)
  | counter (kind : CounterKind)
  | edge (kind : ℕ)
  | flipFlop (kind : SrKind)
  deriving DecidableEq, Repr

/-- The opcode that executes a function block. -/
def BlockKind.opcode : BlockKind → Opcode
  | .timer _ => .timerRun
  | .counter _ => .counterRun
  | .edge _ => .edgeRun
  | .flipFlop _ => .srRun

/-- The function block of a statement that names its kind. -/
def blockKind : ILStatement → Option BlockKind
  | .ton _ => some (.timer .ton)
  | .tof _ => some (.timer .tof)
  | .tp _ => some (.timer .tp)
  | .ctu _ => some (.counter .ctu)
  | .ctd _ => some (.counter .ctd)
  | .rTrig _ => some (.edge 0)
  | .fTrig _ => some (.edge 1)
  | .sr _ => some (.flipFlop .sr)
  | .rs _ => some (.flipFlop .rs)
  | _ => none

/-- Does a statement of a program invoke a function block? Besides the statements that name a
kind it is `CAL` of a name that is not a label. -/
def Invokes (stmts : List ILStatement) (stmt : ILStatement) : Prop :=
  (blockKind stmt).isSome ∨ ∃ fb, stmt = .call fb ∧ .label fb ∉ stmts

/-- Between two machines one instance of a kind has been executed once. The number of the
instance, its inputs and its preset may be any: the text of a statement has one operand. -/
def Updated (vm vm' : Vm P) : BlockKind → Prop
  | .timer kind => ∃ i preset input,
      vm'.timers[i]? = some ((vm.timerAs i preset kind).tick input vm.cycleTimeMs)
  | .counter kind => ∃ (i preset : ℕ) (cu cd : Bool) (c : CounterState),
      { vm.counters.getD i ⟨kind, false, false, 0, 0, false, false, false⟩ with
        kind := kind, pv := preset }.tick P cu cd = .ok c ∧ vm'.counters[i]? = some c
  | .edge kind => ∃ i clk,
      vm'.edges[i]? = some ((vm.edges.getD i ⟨kind, false, false⟩).tick kind clk)
  | .flipFlop kind => ∃ i s1 r,
      vm'.srs[i]? = some
        ({ vm.srs.getD i ⟨kind, false, false, false, false⟩ with kind := kind }.tick s1 r)

/-- Between two machines the function block of a statement has been executed once; that of a
`CAL` may be of any kind. -/
def Takes (stmt : ILStatement) (vm vm' : Vm P) : Prop :=
  ∃ kind, (∀ k ∈ blockKind stmt, kind = k) ∧ Updated vm vm' kind

/-- A machine at any point of any scan of a program: the scans begin with the signal table and
the cycle time that the engine gives, and end with a `Halt`. -/
inductive Scanned (code : List (Instruction P)) : Vm P → Prop
  | first (table : String → Option (HalValue P)) (cycle : ℕ) :
      Scanned code { scanStart Vm.new table with cycleTimeMs := cycle }
  | step {vm vm' : Vm P} (h : Scanned code vm) (hstep : Vm.step code vm = .next vm') :
      Scanned code vm'
  | next {vm vm' : Vm P} (h : Scanned code vm) (hdone : Vm.step code vm = .done vm')
      (table : String → Option (HalValue P)) (cycle : ℕ) :
      Scanned code { scanStart vm' table with cycleTimeMs := cycle }

/-- Every function-block statement that is reached in a scan is executed once, and the
statement after it follows. -/
def BlocksTakeEffect (code : List (Instruction P)) (stmts : List ILStatement) : Prop :=
  ∀ vm, Scanned code vm → ∀ p stmt, (p, stmt) ∈ positions 1 stmts → Invokes stmts stmt →
    vm.ip = p → ∃ vm', Vm.step code vm = .next vm' ∧ Takes stmt vm vm' ∧ vm'.ip = p + 1

/-- No function-block statement is reached in any scan. -/
def NoBlockReached (code : List (Instruction P)) (stmts : List ILStatement) : Prop :=
  ∀ vm, Scanned code vm → ∀ p stmt, (p, stmt) ∈ positions 1 stmts → Invokes stmts stmt →
    vm.ip ≠ p

/-! ### No instances -/

variable {code : List (Instruction P)} {vm vm' : Vm P}

/-- A step of code that touches no instance. -/
theorem step_instances (hcode : ∀ inst ∈ code, inst.sparesInstances = true)
    (hstep : Vm.step code vm = .next vm' ∨ Vm.step code vm = .done vm') :
    vm'.instances = vm.instances := by
  obtain ⟨inst, hinst, result, vm₁, hexec, rfl⟩ := Vm.step_executed hstep
  have hkeeps := vm.executeInstruction_instances (hcode inst (List.mem_of_getElem? hinst))
  exact (Vm.free_instances.advanceUnlessJump inst.opcode).trans (hkeeps.of_ok hexec)

/-- No scan of code that touches no instance creates one. -/
theorem Scanned.noInstances (hcode : ∀ inst ∈ code, inst.sparesInstances = true)
    (h : Scanned code vm) : vm.NoInstances := by
  induction h with
  | first table cycle => rfl
  | step _ hstep ih => exact (step_instances hcode (Or.inl hstep)).trans ih
  | next _ hdone table cycle ih => exact (step_instances hcode (Or.inr hdone)).trans ih

/-- Where there is no instance, none has been executed. -/
theorem not_updated_of_noInstances (h : vm'.NoInstances) (kind : BlockKind) :
    ¬Updated vm vm' kind := by
  obtain ⟨htimers, hrest⟩ := Prod.mk.inj h
  obtain ⟨hcounters, hrest⟩ := Prod.mk.inj hrest
  obtain ⟨hsrs, hedges⟩ := Prod.mk.inj hrest
  cases kind with
  | timer kind =>
      rintro ⟨i, preset, input, hget⟩
      rw [htimers] at hget
      cases hget
  | counter kind =>
      rintro ⟨i, preset, cu, cd, c, -, hget⟩
      rw [hcounters] at hget
      cases hget
  | edge kind =>
      rintro ⟨i, clk, hget⟩
      rw [hedges] at hget
      cases hget
  | flipFlop kind =>
      rintro ⟨i, s1, r, hget⟩
      rw [hsrs] at hget
      cases hget

/-! ### The code of the statements -/

namespace Codegen

variable {cg cg' : Codegen P}

/-- What a statement appends: as many instructions as its size, none of which touches an
instance; for a function block, its opcode and one register. -/
structure Appended (stmt : ILStatement) (insts : List (Instruction P)) : Prop where
  length : insts.length = stmtSize stmt
  spares : insts.all Instruction.sparesInstances = true
  block : ∀ kind ∈ blockKind stmt, ∃ r, insts = [⟨kind.opcode, [.register r]⟩]

theorem emitWith_eq_ok {name : String} {insts : ℕ → List (Instruction P)}
    (h : cg.emitWith name insts = .ok cg') :
    ∃ r, cg'.instructions = cg.instructions ++ insts r := by
  obtain ⟨⟨r, cg₁⟩, hreg, hemit⟩ := bind_eq_ok h
  obtain rfl := Except.ok.inj hemit
  have hinsts : cg₁.instructions = cg.instructions := by
    unfold getVarReg at hreg
    split at hreg
    · obtain ⟨-, rfl⟩ := Prod.mk.inj (Except.ok.inj hreg)
      rfl
    · dsimp only at hreg
      split at hreg
      · cases hreg
      · obtain ⟨-, rfl⟩ := Prod.mk.inj (Except.ok.inj hreg)
        rfl
  exact ⟨r, by rw [emit, hinsts]⟩

/-- The instructions of one statement. -/
theorem compileStmt_appends {stmt : ILStatement} (h : cg.compileStmt stmt = .ok cg') :
    ∃ insts, cg'.instructions = cg.instructions ++ insts ∧ Appended stmt insts := by
  have hwith : ∀ {name : String} {insts : ℕ → List (Instruction P)},
      cg.emitWith name insts = .ok cg' → (∀ r, Appended stmt (insts r)) →
      ∃ insts, cg'.instructions = cg.instructions ++ insts ∧ Appended stmt insts := by
    intro name insts hemit happ
    obtain ⟨r, hr⟩ := emitWith_eq_ok hemit
    exact ⟨insts r, hr, happ r⟩
  cases stmt with
  | label name =>
      obtain rfl := Except.ok.inj h
      exact ⟨[], (List.append_nil _).symm, rfl, rfl, by rintro _ ⟨⟩⟩
  | store v | jump l | call l | ret | not =>
      obtain rfl := Except.ok.inj h
      exact ⟨_, rfl, rfl, rfl, by rintro _ ⟨⟩⟩
  | jumpIf l =>
      obtain rfl := Except.ok.inj h
      refine ⟨[.cmp .eq crReg trueReg, .jumpIf 0], ?_, rfl, rfl, by rintro _ ⟨⟩⟩
      exact List.append_assoc _ _ _
  | jumpIfNot l =>
      obtain rfl := Except.ok.inj h
      refine ⟨[.cmp .neq crReg trueReg, .jumpIf 0], ?_, rfl, rfl, by rintro _ ⟨⟩⟩
      exact List.append_assoc _ _ _
  | cmp op v =>
      simp only [compileStmt] at h
      cases op <;> exact hwith h fun r => ⟨rfl, rfl, by rintro _ ⟨⟩⟩
  | ton v | tof v | tp v | ctu v | ctd v | rTrig v | fTrig v | sr v | rs v =>
      simp only [compileStmt] at h
      refine hwith h fun r => ⟨rfl, rfl, ?_⟩
      rintro _ ⟨⟩
      exact ⟨r, rfl⟩
  | _ =>
      simp only [compileStmt] at h
      exact hwith h fun r => ⟨rfl, rfl, by rintro _ ⟨⟩⟩

/-- The instructions of a list of statements: none touches an instance, and those of the
function blocks stand where the statements begin. -/
theorem compileStmts_appends {stmts : List ILStatement}
    (h : stmts.foldlM compileStmt cg = .ok cg') :
    ∃ insts, cg'.instructions = cg.instructions ++ insts ∧
      insts.all Instruction.sparesInstances = true ∧
      ∀ p stmt, (p, stmt) ∈ positions cg.currentIp stmts → ∀ kind ∈ blockKind stmt,
        ∃ r, cg'.instructions[p]? = some ⟨kind.opcode, [.register r]⟩ := by
  induction stmts generalizing cg with
  | nil =>
      obtain rfl := Except.ok.inj h
      exact ⟨[], (List.append_nil _).symm, rfl, nofun⟩
  | cons stmt stmts ih =>
      rw [List.foldlM_cons] at h
      obtain ⟨cg₁, hfirst, hrest⟩ := bind_eq_ok h
      obtain ⟨insts₁, hinsts₁, happ⟩ := compileStmt_appends hfirst
      obtain ⟨insts₂, hinsts₂, hspares₂, hblocks₂⟩ := ih hrest
      have hip : cg₁.currentIp = cg.currentIp + stmtSize stmt := by
        rw [currentIp, hinsts₁, List.length_append, happ.length]
        rfl
      refine ⟨insts₁ ++ insts₂, ?_, ?_, fun p s hmem kind hkind => ?_⟩
      · rw [hinsts₂, hinsts₁, List.append_assoc]
      · rw [List.all_append, happ.spares, hspares₂]
        rfl
      · rcases List.mem_cons.mp hmem with hhead | htail
        · obtain ⟨rfl, rfl⟩ := Prod.mk.inj hhead
          obtain ⟨r, rfl⟩ := happ.block kind hkind
          refine ⟨r, ?_⟩
          rw [hinsts₂, hinsts₁, List.append_assoc, currentIp,
            List.getElem?_append_right le_rfl, Nat.sub_self]
          rfl
        · rw [← hip] at htail
          exact hblocks₂ p s htail kind hkind

/-! ### Patching -/

theorem patch_sparesInstances {inst : Instruction P} (h : inst.sparesInstances = true)
    (target : UInt32) : (patch target inst).sparesInstances = true := by
  rw [patch]
  split
  · exact h
  · split
    · rfl
    · rfl
    · rfl
    · exact h

/-- The code of a function block is not patched. -/
theorem patch_block (kind : BlockKind) (r : ℕ) (target : UInt32) :
    patch target (⟨kind.opcode, [.register r]⟩ : Instruction P) =
      ⟨kind.opcode, [.register r]⟩ := by
  cases kind <;> rfl

/-- What patching keeps in each instruction it keeps in the program. -/
theorem backpatch_all (f : String → UInt32) (refs : List (ℕ × String))
    {code : List (Instruction P)} (h : ∀ inst ∈ code, inst.sparesInstances = true) :
    ∀ inst ∈ backpatch f refs code, inst.sparesInstances = true := by
  induction refs generalizing code with
  | nil => exact h
  | cons ref refs ih =>
      rw [backpatch, List.foldl_cons]
      refine ih fun inst hinst => ?_
      obtain ⟨i, hi⟩ := List.mem_iff_getElem?.mp hinst
      rw [List.getElem?_modify] at hi
      obtain ⟨inst₀, hinst₀, hi⟩ := Option.map_eq_some_iff.mp hi
      have hspares := h inst₀ (List.mem_of_getElem? hinst₀)
      split at hi
      · rw [← hi]
        exact patch_sparesInstances hspares _
      · rw [← hi]
        exact hspares

theorem backpatch_block (f : String → UInt32) (refs : List (ℕ × String)) {kind : BlockKind}
    {r p : ℕ} {code : List (Instruction P)}
    (h : code[p]? = some ⟨kind.opcode, [.register r]⟩) :
    (backpatch f refs code)[p]? = some ⟨kind.opcode, [.register r]⟩ := by
  induction refs generalizing code with
  | nil => exact h
  | cons ref refs ih =>
      rw [backpatch, List.foldl_cons]
      refine ih ?_
      rw [List.getElem?_modify, h]
      split
      · exact congrArg some (patch_block kind r _)
      · rfl

end Codegen

/-! ### The compiled program -/

variable {source : String} {program : HalProgram P}

/-- The code of a compiled program: no instruction touches an instance, and the instruction
of a function block has one operand. -/
theorem ilCompile_blocks (h : ilCompile P source = .ok (.ok program)) :
    (∀ inst ∈ program.instructions, inst.sparesInstances = true) ∧
      ∀ p stmt, (p, stmt) ∈ positions 1 (parse (tokenize P source)) →
        ∀ kind ∈ blockKind stmt,
          ∃ r, program.instructions[p]? = some ⟨kind.opcode, [.register r]⟩ := by
  obtain ⟨code, hcode, hprogram⟩ := bind_eq_ok h
  obtain rfl := Except.ok.inj (Except.ok.inj hprogram)
  obtain ⟨cg, hcg, hresult⟩ := bind_eq_ok hcode
  obtain rfl := Except.ok.inj hresult
  obtain ⟨insts, hinsts, hspares, hblocks⟩ := Codegen.compileStmts_appends hcg
  constructor
  · refine Codegen.backpatch_all _ _ fun inst hinst => ?_
    rw [hinsts, List.append_assoc] at hinst
    rcases List.mem_append.mp hinst with hinst | hinst
    · rw [List.mem_singleton.mp hinst]
      rfl
    · rcases List.mem_append.mp hinst with hinst | hinst
      · exact List.all_eq_true.mp hspares inst hinst
      · rw [List.mem_singleton.mp hinst]
        rfl
  · intro p stmt hmem kind hkind
    obtain ⟨r, hr⟩ := hblocks p stmt hmem kind hkind
    refine ⟨r, Codegen.backpatch_block _ _ ?_⟩
    rw [List.getElem?_append_left (List.getElem?_eq_some_iff.mp hr).1]
    exact hr

/-- A function-block statement that is reached advances the instruction pointer and does
nothing else. -/
theorem step_block (h : ilCompile P source = .ok (.ok program)) {p : ℕ} {stmt : ILStatement}
    (hmem : (p, stmt) ∈ positions 1 (parse (tokenize P source)))
    (hblock : (blockKind stmt).isSome) {vm : Vm P} (hip : vm.ip = p) :
    Vm.step program.instructions vm = .next vm.advanceIp := by
  obtain ⟨kind, hkind⟩ := Option.isSome_iff_exists.mp hblock
  obtain ⟨r, hr⟩ := (ilCompile_blocks h).2 p stmt hmem kind hkind
  have hopcode : Vm.Opcode.isBlock kind.opcode = true := by cases kind <;> rfl
  have hjump : kind.opcode.isJump = false := by cases kind <;> rfl
  have hexec : vm.executeInstruction ⟨kind.opcode, [.register r]⟩ = .ok (vm, .cont) :=
    vm.executeInstruction_of_isBlock hopcode rfl
  rw [Vm.step, hip, hr]
  dsimp only
  rw [hexec]
  exact congrArg Result.next (by rw [Vm.advanceUnlessJump, hjump]; rfl)

/-- The function blocks of a compiled program take effect only when no scan reaches one; the
statements that name their kind are passed over. -/
theorem blocksTakeEffect_iff (h : ilCompile P source = .ok (.ok program)) :
    (BlocksTakeEffect program.instructions (parse (tokenize P source)) ↔
      NoBlockReached program.instructions (parse (tokenize P source))) ∧
    ∀ p stmt, (p, stmt) ∈ positions 1 (parse (tokenize P source)) →
      (blockKind stmt).isSome → ∀ vm : Vm P, vm.ip = p →
        Vm.step program.instructions vm = .next vm.advanceIp := by
  refine ⟨⟨fun heffect vm hvm p stmt hmem hinvokes hip => ?_,
    fun hnone vm hvm p stmt hmem hinvokes hip => ?_⟩,
    fun p stmt hmem hblock vm hip => step_block h hmem hblock hip⟩
  · obtain ⟨vm', hstep, ⟨kind, -, hupdated⟩, -⟩ := heffect vm hvm p stmt hmem hinvokes hip
    have hnone := (hvm.step hstep).noInstances (ilCompile_blocks h).1
    exact not_updated_of_noInstances hnone kind hupdated
  · exact absurd hip (hnone vm hvm p stmt hmem hinvokes)

/-- The program of one timer. -/
def tonProgram : HalProgram Platform.exact :=
  HalProgram.new "il_program"
    [.loadImm trueReg (.bool true), ⟨.timerRun, [.register 0]⟩, .halt]

theorem ilCompile_ton : ilCompile Platform.exact "TON T" = .ok (.ok tonProgram) := by
  rfl

/-- The timer of `TON T` is passed over. -/
theorem ton_skipped :
    (BlocksTakeEffect tonProgram.instructions [.ton "T"] ↔
        NoBlockReached tonProgram.instructions [.ton "T"]) ∧
      ∀ vm : Vm Platform.exact, vm.ip = 1 →
        Vm.step tonProgram.instructions vm = .next vm.advanceIp :=
  ⟨(blocksTakeEffect_iff ilCompile_ton).1,
    (blocksTakeEffect_iff ilCompile_ton).2 1 (.ton "T") (by decide) rfl⟩

/-- The timer of `TON T` is reached and not executed. -/
theorem ton_without_effect :
    ¬ ∀ (P : Platform) (source : String) (program : HalProgram P),
      ilCompile P source = .ok (.ok program) →
        BlocksTakeEffect program.instructions (parse (tokenize P source)) := by
  intro h
  have hfirst : Scanned tonProgram.instructions
      { scanStart (Vm.new : Vm Platform.exact) (fun _ => none) with cycleTimeMs := 10 } :=
    .first _ _
  have hreached := hfirst.step rfl
  obtain ⟨vm', hstep, ⟨kind, -, hupdated⟩, -⟩ := h _ _ _ ilCompile_ton _ hreached 1 (.ton "T")
    (by decide) (Or.inl rfl) rfl
  have hnone := (hreached.step hstep).noInstances (ilCompile_blocks ilCompile_ton).1
  exact not_updated_of_noInstances hnone kind hupdated

end Il

end Weftik
