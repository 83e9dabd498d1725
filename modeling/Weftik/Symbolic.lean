import Weftik.StraightLine

/-!
# Symbolic Execution of Straight-Line Code

The signal table, some of the registers and perhaps the flag are known, as functions of
what is not; the rest of the machine is not looked at. Code whose effect does not depend on
the rest is executed on what is known, by evaluation, and the machine follows. Arithmetic is
on floats: with a float as the second operand it never panics.

## Main definitions

* `Symbolic`, `Symbolic.Holds`: what is known, and of which machines it is true.
* `Symbolic.step`, `Symbolic.run`: an instruction and a list of instructions.

* `Symbolic.Takes`: a triple of what is known, some code, and what is known after it.
* `Scans`: one scan of some code, as a relation of two signal tables.

## Main results

* `Symbolic.run_sound`: the machine runs code that symbolic execution runs.
* `Symbolic.run_staysWithin`: such code does not jump.
* `Symbolic.Takes.append`, `Symbolic.Takes.flatMap`: triples of composed code.
* `Symbolic.takes_loop`: a loop that ends with a jump back to its beginning.
* `Symbolic.Takes.scans`: a scan of a program whose triple is known.
-/

open Outcome Machine Code

namespace Weftik

variable {P : Platform}

/-- A signal table. -/
abbrev SignalTable (P : Platform) := String → Option (HalValue P)

/-- What is known of a machine. -/
structure Symbolic (P : Platform) where
  table : SignalTable P
  regs : ℕ → Option (HalValue P)
  flag : Option Bool

/-- `a op b` for a float `b`: `S32(0)` when `a` is no float. -/
def HalValue.floatOp (op : ArithOp) (a : HalValue P) (b : P.F64) : HalValue P :=
  match a with
  | .f64 x => .f64 (P.f64.arith op x b)
  | _ => .s32 0

theorem HalValue.binop_f64 (op : ArithOp) (a : HalValue P) (b : P.F64) :
    HalValue.binop op a (.f64 b) = .ok (a.floatOp op b) := by
  cases a <;> rfl

namespace Symbolic

/-- What is known is true of the machine. -/
structure Holds (k : Symbolic P) (vm : Vm P) : Prop where
  table : vm.signals = k.table
  regs : ∀ r v, k.regs r = some v → r < 16 ∧ vm.reg r = v
  flag : ∀ b, k.flag = some b → vm.flagsZero = b

/-- Write a register. -/
def setReg (k : Symbolic P) (r : ℕ) (v : HalValue P) : Option (Symbolic P) :=
  if r < 16 then some { k with regs := fun i => if i = r then some v else k.regs i } else none

/-- An operation on two registers, the second one a float, into a third. -/
def arith (k : Symbolic P) (op : ArithOp) (a b out : ℕ) : Option (Symbolic P) :=
  match k.regs a, k.regs b with
  | some v, some (.f64 x) => k.setReg out (v.floatOp op x)
  | _, _ => none

/-- A comparison of two registers. -/
def compare (k : Symbolic P) (opcode : Opcode) (a b : ℕ) : Option (Symbolic P) :=
  match k.regs a, k.regs b with
  | some v, some w => some { k with flag := some (Vm.compareFn opcode v w) }
  | _, _ => none

/-- One instruction, if what is known determines what it does. A `JumpIf` without a target
is passed over. -/
def step (k : Symbolic P) (inst : Instruction P) : Option (Symbolic P) :=
  match inst.opcode, inst.operands with
  | .load, [.register r, .immediate v] => k.setReg r v
  | .load, [.register r, .signalName name] =>
      k.setReg r ((k.table name).getD (.bool false))
  | .store, [.signalName name, .register r] =>
      (k.regs r).map fun v => { k with table := Function.update k.table name (some v) }
  | .add, [.register a, .register b, .register out] => k.arith .add a b out
  | .sub, [.register a, .register b, .register out] => k.arith .sub a b out
  | .mul, [.register a, .register b, .register out] => k.arith .mul a b out
  | .eq, [.register a, .register b] => k.compare .eq a b
  | .neq, [.register a, .register b] => k.compare .neq a b
  | .gt, [.register a, .register b] => k.compare .gt a b
  | .lt, [.register a, .register b] => k.compare .lt a b
  | .jumpIf, .register _ :: _ => some k
  | _, _ => none

/-- A list of instructions. -/
def run (k : Symbolic P) (insts : List (Instruction P)) : Option (Symbolic P) :=
  insts.foldlM step k

@[simp] theorem run_nil (k : Symbolic P) : k.run [] = some k := rfl

@[simp] theorem run_cons (k : Symbolic P) (inst : Instruction P)
    (insts : List (Instruction P)) :
    k.run (inst :: insts) = (k.step inst).bind fun k' => k'.run insts := by
  rw [run, List.foldlM_cons]
  rfl

/-- Code that symbolic execution runs does not jump. -/
theorem step_staysWithin {k k' : Symbolic P} {inst : Instruction P} (h : k.step inst = some k')
    (n : ℕ) : inst.staysWithin n = true := by
  obtain ⟨opcode, ops⟩ := inst
  unfold step at h
  split at h <;> first
    | (rename_i hop hops
       obtain rfl : opcode = _ := hop
       obtain rfl : ops = _ := hops
       rfl)
    | cases h

theorem run_staysWithin {k k' : Symbolic P} {insts : List (Instruction P)}
    (h : k.run insts = some k') (n : ℕ) : ∀ inst ∈ insts, inst.staysWithin n = true := by
  induction insts generalizing k with
  | nil => exact List.forall_mem_nil _
  | cons inst insts ih =>
      rw [run_cons] at h
      obtain ⟨k₁, hfirst, hrest⟩ := Option.bind_eq_some_iff.mp h
      exact List.forall_mem_cons.mpr ⟨step_staysWithin hfirst n, ih hrest⟩

/-! ### The machine follows -/

variable {k k' : Symbolic P} {vm : Vm P}

theorem Holds.reg (h : k.Holds vm) {r : ℕ} {v : HalValue P} (hr : k.regs r = some v) :
    vm.reg r = v :=
  (h.regs r v hr).2

/-- What is known after a register has been written. -/
theorem Holds.setReg (h : k.Holds vm) {r : ℕ} {v : HalValue P}
    (hset : k.setReg r v = some k') : r < 16 ∧ k'.Holds (vm.setReg r v).advanceIp := by
  rw [Symbolic.setReg] at hset
  split at hset
  · rename_i hr
    obtain rfl := Option.some.inj hset
    refine ⟨hr, h.table, fun i w hi => ?_, h.flag⟩
    rw [Vm.advanceIp_reg, Vm.reg_setReg hr]
    dsimp only at hi
    split at hi
    · rename_i hir
      rw [hir, if_pos rfl]
      exact ⟨hr, Option.some.inj hi⟩
    · rename_i hir
      rw [if_neg hir]
      exact h.regs i w hi
  · cases hset

/-- The operation on floats, by the machine. -/
theorem Holds.arith (h : k.Holds vm) {opcode : Opcode} {op : ArithOp} {a b out : ℕ}
    (hop : Vm.Opcode.isArith opcode = true)
    (hfn : Vm.arithFn opcode = HalValue.binop (P := P) op)
    (harith : k.arith op a b out = some k') :
    ∃ vm', vm.stepSeq (.arith opcode a b out) = .ok vm' ∧ k'.Holds vm' := by
  unfold Symbolic.arith at harith
  split at harith
  · rename_i v x hv hx
    obtain ⟨hout, hholds⟩ := h.setReg harith
    have ha := h.regs _ _ hv
    have hb := h.regs _ _ hx
    refine ⟨_, ?_, hholds⟩
    rw [Vm.stepSeq_arith hop ha.1 hb.1 hout, hfn, ha.2, hb.2, HalValue.binop_f64]
    rfl
  · cases harith

/-- The comparison, by the machine. -/
theorem Holds.compare (h : k.Holds vm) {opcode : Opcode} {a b : ℕ}
    (hop : Vm.Opcode.isCompare opcode = true) (hcmp : k.compare opcode a b = some k') :
    ∃ vm', vm.stepSeq (.cmp opcode a b) = .ok vm' ∧ k'.Holds vm' := by
  unfold Symbolic.compare at hcmp
  split at hcmp
  · rename_i v w hv hw
    obtain rfl := Option.some.inj hcmp
    have ha := h.regs _ _ hv
    have hb := h.regs _ _ hw
    refine ⟨_, Vm.stepSeq_cmp hop ha.1 hb.1, h.table, h.regs, ?_⟩
    rintro b' ⟨⟩
    rw [ha.2, hb.2]
    rfl
  · cases hcmp

variable {code : List (Instruction P)}

/-- A sequential instruction takes the machine to the next one. -/
theorem exists_step_of_stepSeq {inst : Instruction P} (hseq : inst.opcode.isSequential = true)
    (hinst : code[vm.ip]? = some inst) (h : ∃ vm', vm.stepSeq inst = .ok vm' ∧ k'.Holds vm') :
    ∃ vm', Vm.step code vm = .next vm' ∧ vm'.ip = vm.ip + 1 ∧ k'.Holds vm' := by
  obtain ⟨vm', hstep, hholds⟩ := h
  obtain ⟨hnext, hip⟩ := (Vm.step_of_isSequential hinst hseq).1 vm' hstep
  exact ⟨vm', hnext, hip, hholds⟩

/-- The machine follows one instruction. -/
theorem step_sound {inst : Instruction P} (h : k.Holds vm) (hinst : code[vm.ip]? = some inst)
    (hstep : k.step inst = some k') :
    ∃ vm', Vm.step code vm = .next vm' ∧ vm'.ip = vm.ip + 1 ∧ k'.Holds vm' := by
  obtain ⟨opcode, ops⟩ := inst
  unfold step at hstep
  split at hstep
  · rename_i r v hop hops
    obtain rfl : opcode = .load := hop
    obtain rfl : ops = _ := hops
    obtain ⟨hr, hholds⟩ := h.setReg hstep
    exact exists_step_of_stepSeq rfl hinst ⟨_, Vm.stepSeq_loadImm hr v, hholds⟩
  · rename_i r name hop hops
    obtain rfl : opcode = .load := hop
    obtain rfl : ops = _ := hops
    obtain ⟨hr, hholds⟩ := h.setReg hstep
    refine exists_step_of_stepSeq rfl hinst ⟨_, Vm.stepSeq_loadSignal hr name, ?_⟩
    rwa [h.table]
  · rename_i name r hop hops
    obtain rfl : opcode = .store := hop
    obtain rfl : ops = _ := hops
    obtain ⟨v, hv, rfl⟩ := Option.map_eq_some_iff.mp hstep
    obtain ⟨hr, hreg⟩ := h.regs _ _ hv
    refine exists_step_of_stepSeq rfl hinst ⟨_, Vm.stepSeq_storeSignal hr name, ?_⟩
    refine ⟨?_, h.regs, h.flag⟩
    rw [hreg, ← h.table]
    rfl
  · rename_i a b out hop hops
    obtain rfl : opcode = .add := hop
    obtain rfl : ops = _ := hops
    exact exists_step_of_stepSeq rfl hinst (h.arith rfl rfl hstep)
  · rename_i a b out hop hops
    obtain rfl : opcode = .sub := hop
    obtain rfl : ops = _ := hops
    exact exists_step_of_stepSeq rfl hinst (h.arith rfl rfl hstep)
  · rename_i a b out hop hops
    obtain rfl : opcode = .mul := hop
    obtain rfl : ops = _ := hops
    exact exists_step_of_stepSeq rfl hinst (h.arith rfl rfl hstep)
  · rename_i a b hop hops
    obtain rfl : opcode = .eq := hop
    obtain rfl : ops = _ := hops
    exact exists_step_of_stepSeq rfl hinst (h.compare rfl hstep)
  · rename_i a b hop hops
    obtain rfl : opcode = .neq := hop
    obtain rfl : ops = _ := hops
    exact exists_step_of_stepSeq rfl hinst (h.compare rfl hstep)
  · rename_i a b hop hops
    obtain rfl : opcode = .gt := hop
    obtain rfl : ops = _ := hops
    exact exists_step_of_stepSeq rfl hinst (h.compare rfl hstep)
  · rename_i a b hop hops
    obtain rfl : opcode = .lt := hop
    obtain rfl : ops = _ := hops
    exact exists_step_of_stepSeq rfl hinst (h.compare rfl hstep)
  · rename_i r rest hop hops
    obtain rfl : opcode = .jumpIf := hop
    obtain rfl : ops = _ := hops
    obtain rfl := Option.some.inj hstep
    refine ⟨vm.advanceIp, ?_, rfl, h.table, h.regs, h.flag⟩
    simp only [Vm.step, hinst, Vm.executeInstruction, Vm.execJumpIf, Vm.jumpTarget]
    cases vm.flagsZero <;> rfl
  · cases hstep

/-- The machine runs code that symbolic execution runs. -/
theorem run_sound {insts : List (Instruction P)} (h : k.Holds vm)
    (hcode : CodeAt code vm.ip insts) (hrun : k.run insts = some k') :
    ∃ vm', Steps (Vm.step code) vm vm' ∧ vm'.ip = vm.ip + insts.length ∧ k'.Holds vm' := by
  induction insts generalizing k vm with
  | nil =>
      obtain rfl := Option.some.inj hrun
      exact ⟨vm, Steps.refl vm, rfl, h⟩
  | cons inst insts ih =>
      rw [run_cons] at hrun
      obtain ⟨k₁, hfirst, hrest⟩ := Option.bind_eq_some_iff.mp hrun
      obtain ⟨vm₁, hstep, hip, hholds⟩ := step_sound h hcode.head hfirst
      have htail := hcode.tail
      rw [← hip] at htail
      obtain ⟨vm', hsteps, hend, hholds'⟩ := ih hholds htail hrest
      refine ⟨vm', hsteps.head hstep, ?_, hholds'⟩
      rw [hend, hip, List.length_cons]
      omega

/-! ### Triples -/

/-- The first is known whenever the second is. -/
structure Le (k k' : Symbolic P) : Prop where
  table : k.table = k'.table
  regs : ∀ r v, k.regs r = some v → k'.regs r = some v
  flag : ∀ b, k.flag = some b → k'.flag = some b

theorem Le.refl (k : Symbolic P) : k.Le k := ⟨rfl, fun _ _ h => h, fun _ h => h⟩

theorem Le.trans {k₁ k₂ k₃ : Symbolic P} (h : k₁.Le k₂) (h' : k₂.Le k₃) : k₁.Le k₃ :=
  ⟨h.table.trans h'.table, fun r v hr => h'.regs r v (h.regs r v hr),
    fun b hb => h'.flag b (h.flag b hb)⟩

theorem Holds.mono (hle : k'.Le k) (h : k.Holds vm) : k'.Holds vm :=
  ⟨h.table.trans hle.table.symm, fun r v hr => h.regs r v (hle.regs r v hr),
    fun b hb => h.flag b (hle.flag b hb)⟩

/-- The code, standing at index `pc`, takes every machine of which `pre` is true to one of
which `post` is true, with control right after the code. -/
def Takes (pc : ℕ) (insts : List (Instruction P)) (pre post : Symbolic P) : Prop :=
  ∀ (code : List (Instruction P)) (vm : Vm P), vm.ip = pc → CodeAt code pc insts →
    pre.Holds vm →
    ∃ vm', Steps (Vm.step code) vm vm' ∧ vm'.ip = pc + insts.length ∧ post.Holds vm'

variable {pc : ℕ} {pre mid post : Symbolic P} {insts rest : List (Instruction P)}

theorem Takes.nil (hle : post.Le pre) : Takes pc [] pre post :=
  fun _ vm hip _ h => ⟨vm, Steps.refl vm, hip, h.mono hle⟩

/-- Code that symbolic execution runs. -/
theorem takes_of_run (hrun : pre.run insts = some mid) (hle : post.Le mid) :
    Takes pc insts pre post := by
  rintro code vm rfl hcode h
  obtain ⟨vm', hsteps, hip, hholds⟩ := run_sound h hcode hrun
  exact ⟨vm', hsteps, hip, hholds.mono hle⟩

theorem Takes.mono {pre' post' : Symbolic P} (h : Takes pc insts pre post)
    (hpre : pre.Le pre') (hpost : post'.Le post) : Takes pc insts pre' post' := by
  intro code vm hip hcode hholds
  obtain ⟨vm', hsteps, hend, hholds'⟩ := h code vm hip hcode (hholds.mono hpre)
  exact ⟨vm', hsteps, hend, hholds'.mono hpost⟩

/-- One fragment after another. -/
theorem Takes.append (h : Takes pc insts pre mid)
    (hrest : Takes (pc + insts.length) rest mid post) :
    Takes pc (insts ++ rest) pre post := by
  intro code vm hip hcode hholds
  obtain ⟨hfirst, hsecond⟩ := codeAt_append.mp hcode
  obtain ⟨vm₁, hsteps₁, hip₁, hholds₁⟩ := h code vm hip hfirst hholds
  obtain ⟨vm₂, hsteps₂, hip₂, hholds₂⟩ := hrest code vm₁ hip₁ hsecond hholds₁
  refine ⟨vm₂, hsteps₁.trans hsteps₂, ?_, hholds₂⟩
  rw [hip₂, List.length_append]
  omega

/-- One fragment for each element of a list, where the fragments change the table one
after the other and keep the rest of what is known. -/
theorem Takes.flatMap {α : Type} {base : SignalTable P → Symbolic P}
    {block : α → List (Instruction P)}
    {effect : α → SignalTable P → SignalTable P}
    {as : List α}
    (h : ∀ a ∈ as, ∀ pc t, Takes pc (block a) (base t) (base (effect a t)))
    (t : SignalTable P) :
    Takes pc (as.flatMap block) (base t) (base (as.foldl (fun t a => effect a t) t)) := by
  induction as generalizing pc t with
  | nil => exact .nil (.refl _)
  | cons a as ih =>
      rw [List.flatMap_cons]
      refine (h a List.mem_cons_self pc t).append ?_
      exact ih (fun a' ha' => h a' (List.mem_cons_of_mem a ha')) (effect a t)

variable {target : UInt32}

/-- A jump over some code. -/
theorem takes_jump {skipped : List (Instruction P)} (k : Symbolic P)
    (htarget : target.toNat = pc + 1 + skipped.length) :
    Takes pc (.jump target :: skipped) k k := by
  rintro code vm rfl hcode h
  refine ⟨vm.setIp target.toNat, Steps.single ?_, ?_, h.table, h.regs, h.flag⟩
  · simp only [Vm.step, hcode.head]
    rfl
  · rw [List.length_cons, Nat.add_comm skipped.length, ← Nat.add_assoc]
    exact htarget

/-! ### Lists of registers -/

/-- The signals and the registers of a list are known. -/
def ofList (t : SignalTable P) (rs : List (ℕ × HalValue P)) : Symbolic P :=
  ⟨t, fun r => rs.lookup r, none⟩

/-- The registers of a list are known when each of them is. -/
theorem ofList_le {t : SignalTable P} {rs : List (ℕ × HalValue P)} (htable : t = k.table)
    (h : rs.Forall fun rv => k.regs rv.1 = some rv.2) : (ofList t rs).Le k := by
  refine ⟨htable, fun r v hr => ?_, nofun⟩
  obtain ⟨before, after, hrs, -⟩ := List.lookup_eq_some_iff.mp hr
  have hmem : (r, v) ∈ rs := by rw [hrs]; simp
  exact List.forall_iff_forall_mem.mp h (r, v) hmem

/-! ### Conditional jumps and loops -/

/-- A machine of which everything but the flag is known. -/
def ofVm (vm : Vm P) : Symbolic P :=
  ⟨vm.signals, fun r => if r < 16 then some (vm.reg r) else none, none⟩

theorem holds_ofVm (vm : Vm P) : (ofVm vm).Holds vm := by
  refine ⟨rfl, fun r v hr => ?_, nofun⟩
  simp only [ofVm] at hr
  split at hr
  · exact ⟨‹_›, Option.some.inj hr⟩
  · cases hr

/-- The same, and the flag. -/
def withFlag (k : Symbolic P) (b : Bool) : Symbolic P := { k with flag := some b }

theorem le_withFlag (hflag : k.flag = none) (b : Bool) : k.Le (k.withFlag b) := by
  refine ⟨rfl, fun _ _ h => h, fun b' h => ?_⟩
  rw [hflag] at h
  cases h

/-- The registers of a list and the flag are known when each of them is. -/
theorem ofList_withFlag_le {t : SignalTable P} {rs : List (ℕ × HalValue P)} {b : Bool}
    (htable : t = k.table) (h : rs.Forall fun rv => k.regs rv.1 = some rv.2)
    (hflag : k.flag = some b) : ((ofList t rs).withFlag b).Le k := by
  refine ⟨htable, (ofList_le htable h).regs, ?_⟩
  rintro b' ⟨⟩
  exact hflag

/-- A conditional jump goes where the flag says. -/
theorem Holds.jumpIf {b : Bool} (h : k.Holds vm) (hflag : k.flag = some b)
    (hcode : code[vm.ip]? = some (.jumpIf target)) :
    ∃ vm', Vm.step code vm = .next vm' ∧
      vm'.ip = (if b then target.toNat else vm.ip + 1) ∧ k.Holds vm' := by
  have hvm := h.flag b hflag
  refine ⟨if b then vm.setIp target.toNat else vm.advanceIp, ?_, ?_, ?_⟩
  · simp only [Vm.step, hcode]
    simp only [Vm.executeInstruction, Instruction.jumpIf, Vm.execJumpIf, Vm.jumpTarget, hvm]
    cases b <;> rfl
  · cases b <;> rfl
  · cases b <;> exact ⟨h.table, h.regs, h.flag⟩

/-- A conditional jump over some code that is taken. -/
theorem takes_jumpIf_true {skipped : List (Instruction P)} (hflag : k.flag = some true)
    (htarget : target.toNat = pc + 1 + skipped.length) :
    Takes pc (.jumpIf target :: skipped) k k := by
  rintro code vm rfl hcode h
  obtain ⟨vm', hstep, hip, hholds⟩ := h.jumpIf hflag hcode.head
  refine ⟨vm', Steps.single hstep, ?_, hholds⟩
  rw [List.length_cons, Nat.add_comm skipped.length, ← Nat.add_assoc]
  exact hip.trans htarget

/-- A conditional jump that is not taken. -/
theorem takes_jumpIf_false (hflag : k.flag = some false) : Takes pc [.jumpIf target] k k := by
  rintro code vm rfl hcode h
  obtain ⟨vm', hstep, hip, hholds⟩ := h.jumpIf hflag hcode.head
  exact ⟨vm', Steps.single hstep, hip, hholds⟩

/-- A loop of `n` passes: each pass takes what is known before it to what is known before
the next one, with the flag set as long as there is a next one. -/
theorem takes_loop {body : List (Instruction P)} {K : ℕ → Symbolic P} {n : ℕ}
    (htarget : target.toNat = pc) (hn : 0 < n) (hflag : ∀ i, (K i).flag = none)
    (hbody : ∀ i < n, Takes pc body (K i) ((K (i + 1)).withFlag (decide (i + 1 < n)))) :
    Takes pc (body ++ [.jumpIf target]) (K 0) (K n) := by
  intro code vm hip hcode hholds
  obtain ⟨hpass, hjump⟩ := codeAt_append.mp hcode
  -- by induction on the number of passes that are left after the next one
  have hrun : ∀ m i (vm : Vm P), i + m + 1 = n → vm.ip = pc → (K i).Holds vm →
      ∃ vm', Steps (Vm.step code) vm vm' ∧
        vm'.ip = pc + (body ++ [Instruction.jumpIf target]).length ∧ (K n).Holds vm' := by
    intro m
    induction m with
    | zero =>
        intro i vm hi hip hholds
        obtain ⟨vm₁, hsteps, hip₁, hholds₁⟩ := hbody i (by omega) code vm hip hpass hholds
        obtain rfl : i + 1 = n := by omega
        rw [decide_eq_false (lt_irrefl _)] at hholds₁
        obtain ⟨vm₂, hstep, hip₂, hholds₂⟩ := hholds₁.jumpIf rfl (hip₁ ▸ hjump.head)
        refine ⟨vm₂, hsteps.trans (Steps.single hstep), ?_,
          hholds₂.mono (le_withFlag (hflag _) _)⟩
        rw [hip₂, hip₁, List.length_append]
        rfl
    | succ m ih =>
        intro i vm hi hip hholds
        obtain ⟨vm₁, hsteps, hip₁, hholds₁⟩ := hbody i (by omega) code vm hip hpass hholds
        rw [decide_eq_true (by omega)] at hholds₁
        obtain ⟨vm₂, hstep, hip₂, hholds₂⟩ := hholds₁.jumpIf rfl (hip₁ ▸ hjump.head)
        obtain ⟨vm', hsteps', hip', hholds'⟩ := ih (i + 1) vm₂ (by omega) (hip₂.trans htarget)
          (hholds₂.mono (le_withFlag (hflag _) _))
        exact ⟨vm', (hsteps.trans (Steps.single hstep)).trans hsteps', hip', hholds'⟩
  exact hrun (n - 1) 0 vm (by omega) hip hholds

end Symbolic

/-! ### Scans -/

/-- A new machine with the given signal table. -/
def Vm.scanStart (t : SignalTable P) : Vm P := { Vm.new with signals := t }

/-- The machine halts at a halt behind the code. -/
theorem Vm.step_halt_at_end {body : List (Instruction P)} {vm : Vm P} (hip : vm.ip = body.length) :
    Vm.step (body ++ [Instruction.halt]) vm = .done vm.advanceIp := by
  have hhalt : (body ++ [Instruction.halt])[vm.ip]? = some Instruction.halt := by
    rw [hip, List.getElem?_concat_length]
  simp only [Vm.step, hhalt]
  rfl

/-- One scan of the code takes the first signal table to the second. -/
def Scans (code : List (Instruction P)) (t t' : SignalTable P) : Prop :=
  ∃ vm, Exec (Vm.step code) (Vm.scanStart t) (.ok vm) ∧ vm.signals = t'

/-- A scan, by the interpreter. -/
theorem scans_iff_runToHalt (p : HalProgram P) (t t' : SignalTable P) :
    Scans p.instructions t t' ↔
      ∃ fuel e steps,
        Executor.runToHalt fuel ⟨Vm.scanStart t, p, ⟨false, ∅, []⟩⟩ = some (.ok (e, steps)) ∧
        e.vm.signals = t' := by
  have hexec := fun vm => Executor.exec_iff_runToHalt
    (e := ⟨Vm.scanStart t, p, ⟨false, ∅, []⟩⟩) (o := .ok vm) rfl
  constructor
  · rintro ⟨vm, hvm, rfl⟩
    obtain ⟨fuel, hfuel⟩ := (hexec vm).mp hvm
    obtain ⟨o, hrun, ho⟩ := Option.map_eq_some_iff.mp hfuel
    cases o with
    | error panic => cases ho
    | ok q =>
        obtain ⟨e, steps⟩ := q
        cases ho
        exact ⟨fuel, e, steps, hrun, rfl⟩
  · rintro ⟨fuel, e, steps, hrun, rfl⟩
    exact ⟨e.vm, (hexec e.vm).mpr ⟨fuel, by rw [hrun]; rfl⟩, rfl⟩

namespace Symbolic

/-- Only the signal table is known. -/
def onlyTable (t : SignalTable P) : Symbolic P := ⟨t, fun _ => none, none⟩

theorem onlyTable_le (k : Symbolic P) : (onlyTable k.table).Le k := ⟨rfl, nofun, nofun⟩

/-- A scan of a program whose effect on the table is known. -/
theorem Takes.scans {body : List (Instruction P)} {t : SignalTable P}
    {post : Symbolic P} (h : Takes 0 body (onlyTable t) post)
    (t' : SignalTable P) :
    Scans (body ++ [Instruction.halt]) t t' ↔ t' = post.table := by
  have hcode : CodeAt (body ++ [Instruction.halt]) 0 body := CodeAt.middle [] body [.halt]
  obtain ⟨vm, hsteps, hip, hholds⟩ :=
    h _ (Vm.scanStart t) rfl hcode ⟨rfl, nofun, nofun⟩
  have hdone := Vm.step_halt_at_end (hip.trans (Nat.zero_add _))
  have hexec := Exec.of_steps hsteps (.done hdone)
  constructor
  · rintro ⟨vm', hvm', rfl⟩
    obtain rfl := Except.ok.inj (hexec.deterministic hvm')
    exact hholds.table
  · rintro rfl
    exact ⟨vm.advanceIp, hexec, hholds.table⟩

end Symbolic

/-! ### Code whose effect is a relation -/

/-- From any machine at the beginning of the code, control gets to its end, and the signal
tables before and after are related. -/
def Leads (pc : ℕ) (insts : List (Instruction P))
    (R : SignalTable P → SignalTable P → Prop) : Prop :=
  ∀ (code : List (Instruction P)) (vm : Vm P), vm.ip = pc → CodeAt code pc insts →
    ∃ vm', Steps (Vm.step code) vm vm' ∧ vm'.ip = pc + insts.length ∧
      R vm.signals vm'.signals

namespace Leads

variable {pc : ℕ} {insts rest : List (Instruction P)}
  {R R' R'' : SignalTable P → SignalTable P → Prop}

theorem of_takes (h : ∀ vm : Vm P, ∃ post : Symbolic P,
    Symbolic.Takes pc insts (.ofVm vm) post ∧ R vm.signals post.table) : Leads pc insts R := by
  intro code vm hip hcode
  obtain ⟨post, htakes, hrel⟩ := h vm
  obtain ⟨vm', hsteps, hend, hholds⟩ := htakes code vm hip hcode (Symbolic.holds_ofVm vm)
  refine ⟨vm', hsteps, hend, ?_⟩
  rwa [hholds.table]

theorem append (h : Leads pc insts R) (hrest : Leads (pc + insts.length) rest R')
    (htrans : ∀ t t' t'', R t t' → R' t' t'' → R'' t t'') : Leads pc (insts ++ rest) R'' := by
  intro code vm hip hcode
  obtain ⟨hfirst, hsecond⟩ := codeAt_append.mp hcode
  obtain ⟨vm₁, hsteps₁, hip₁, hrel₁⟩ := h code vm hip hfirst
  obtain ⟨vm₂, hsteps₂, hip₂, hrel₂⟩ := hrest code vm₁ hip₁ hsecond
  refine ⟨vm₂, hsteps₁.trans hsteps₂, ?_, htrans _ _ _ hrel₁ hrel₂⟩
  rw [hip₂, List.length_append]
  omega

/-- A scan of the code, with a halt behind it. -/
theorem scans (h : Leads 0 insts R) (t : SignalTable P) :
    ∃ t', Scans (insts ++ [Instruction.halt]) t t' ∧ R t t' := by
  have hcode : CodeAt (insts ++ [Instruction.halt]) 0 insts := CodeAt.middle [] insts [.halt]
  obtain ⟨vm, hsteps, hip, hrel⟩ := h _ (Vm.scanStart t) rfl hcode
  have hdone := Vm.step_halt_at_end (hip.trans (Nat.zero_add _))
  exact ⟨vm.signals, ⟨vm.advanceIp, Exec.of_steps hsteps (.done hdone), rfl⟩, hrel⟩

end Leads

/-- A scan has one result. -/
theorem Scans.unique {code : List (Instruction P)} {t t₁ t₂ : SignalTable P}
    (h₁ : Scans code t t₁) (h₂ : Scans code t t₂) : t₁ = t₂ := by
  obtain ⟨vm₁, hexec₁, rfl⟩ := h₁
  obtain ⟨vm₂, hexec₂, rfl⟩ := h₂
  rw [Except.ok.inj (hexec₁.deterministic hexec₂)]

end Weftik
