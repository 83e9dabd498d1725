import Weftik.Lib.Machine
import Weftik.Motion.Endless
import Weftik.Motion.Travel

/-!
# The Cycles of a Motion Profile

Control comes to the beginning of a loop of a profile once for each cycle. The code between
two beginnings does not jump backwards, so nothing is visited in between, and the states that
are visited are those that the cycles compute, one after the other.

## Main definitions

* `AtLoop`: control is at the beginning of a loop.
* `Instruction.goesOn`: the instruction does not jump back beyond an index.

## Main results

* `Symbolic.Takes.quiet`: code that goes on visits nothing.
* `passes_loop`: a loop visits one state for each of its cycles.
-/

open Machine Code

namespace Weftik

variable {P : Platform}

/-! ### Code that goes on -/

/-- The instruction does not take control from an index at or after `n` to one before it. -/
def Instruction.goesOn (n : ℕ) (inst : Instruction P) : Bool :=
  match inst.opcode with
  | .call | .ret => false
  | .jump | .jumpIf =>
      match Vm.jumpTarget inst.operands with
      | some target => decide (n ≤ target)
      | none => true
  | _ => true

theorem Vm.le_nextIp_of_goesOn {vm : Vm P} {inst : Instruction P} {n : ℕ}
    (h : inst.goesOn n = true) (hip : n ≤ vm.ip) : n ≤ vm.nextIp inst := by
  obtain ⟨opcode, ops⟩ := inst
  have hret : opcode ≠ .ret := by
    rintro rfl
    cases h
  have hcases := vm.nextIp_cases (show (Instruction.mk opcode ops).opcode ≠ .ret from hret)
  rcases hcases with hnext | hnext | ⟨hcall, -⟩ | ⟨hjump, htarget⟩
  · omega
  · omega
  · obtain rfl : opcode = .call := hcall
    cases h
  · simp only [Instruction.goesOn, htarget] at h
    rcases hjump with hjump | hjump <;>
      obtain rfl := hjump <;>
      exact of_decide_eq_true h

theorem IsSequential.goesOn {insts : List (Instruction P)} (h : IsSequential insts) (n : ℕ) :
    ∀ inst ∈ insts, inst.goesOn n = true := by
  intro inst hinst
  have hseq := h inst hinst
  obtain ⟨opcode, ops⟩ := inst
  cases opcode <;> first | rfl | cases hseq

/-- A run of the first instructions of some code is a run of the code. It is quiet if it goes
on, and no state is marked where control is. -/
theorem quiet_of_steps_take {code : List (Instruction P)} {Q : Vm P → Prop} {pc n : ℕ}
    (hforward : ∀ i inst, pc ≤ i → i < n → code[i]? = some inst → inst.goesOn pc = true)
    (hquiet : ∀ vm : Vm P, pc ≤ vm.ip → vm.ip < n → ¬Q vm) {vm vm' : Vm P}
    (hip : pc ≤ vm.ip) (h : Steps (Vm.step (code.take n)) vm vm') :
    Quiet (Vm.step code) Q vm vm' := by
  induction h using Relation.ReflTransGen.head_induction_on with
  | refl => exact .refl
  | @head vm vm₁ hstep _ ih =>
      obtain ⟨inst, hinst, hnext, -⟩ := Vm.step_next hstep
      have hlt : vm.ip < n := by
        have hlen := (List.getElem?_eq_some_iff.mp hinst).1
        rw [List.length_take] at hlen
        exact lt_of_lt_of_le hlen (Nat.min_le_left _ _)
      rw [List.getElem?_take_of_lt hlt] at hinst
      refine .head ⟨?_, hquiet vm hip hlt⟩ (ih ?_)
      · rw [Vm.step, hinst]
        rwa [Vm.step, List.getElem?_take_of_lt hlt, hinst] at hstep
      · rw [hnext]
        exact Vm.le_nextIp_of_goesOn (hforward _ inst hip hlt hinst) hip

namespace Symbolic

variable {pc : ℕ} {pre post : Symbolic P} {insts : List (Instruction P)}
  {code : List (Instruction P)} {Q : Vm P → Prop} {vm : Vm P}

/-- The states in a fragment are not marked, from an index on. -/
def Unmarked (Q : Vm P → Prop) (start stop : ℕ) : Prop :=
  ∀ vm : Vm P, start ≤ vm.ip → vm.ip < stop → ¬Q vm

/-- Code that goes on visits nothing. -/
theorem Takes.quiet (h : Takes pc insts pre post)
    (hforward : ∀ inst ∈ insts, inst.goesOn pc = true)
    (hquiet : Unmarked Q pc (pc + insts.length)) (hip : vm.ip = pc)
    (hcode : CodeAt code pc insts) (hholds : pre.Holds vm) :
    ∃ vm', Quiet (Vm.step code) Q vm vm' ∧ vm'.ip = pc + insts.length ∧ post.Holds vm' := by
  have htake : CodeAt (code.take (pc + insts.length)) pc insts := by
    refine codeAt_of_getElem? fun i hi => ?_
    rw [List.getElem?_take_of_lt (by omega), hcode.getElem? hi]
  obtain ⟨vm', hsteps, hend, hpost⟩ := h _ vm hip htake hholds
  refine ⟨vm', quiet_of_steps_take (fun i inst hi hlt hinst => ?_) hquiet hip.ge hsteps, hend,
    hpost⟩
  have hmem := hcode.getElem? (i := i - pc) (by omega)
  rw [Nat.add_sub_cancel' hi, hinst] at hmem
  exact hforward inst (List.mem_of_getElem? hmem.symm)

/-- Code that goes on after a sequential instruction visits the first state at most. -/
theorem Takes.visit {first : Instruction P} {rest : List (Instruction P)}
    (h : Takes pc (first :: rest) pre post) (hfirst : first.opcode.isSequential = true)
    (hforward : ∀ inst ∈ rest, inst.goesOn (pc + 1) = true)
    (hquiet : Unmarked Q (pc + 1) (pc + 1 + rest.length)) (hip : vm.ip = pc)
    (hcode : CodeAt code pc (first :: rest)) (hholds : pre.Holds vm) :
    ∃ vm₁ vm', Vm.step code vm = .next vm₁ ∧ Quiet (Vm.step code) Q vm₁ vm' ∧
      vm'.ip = pc + (first :: rest).length ∧ post.Holds vm' := by
  have htake : CodeAt (code.take (pc + 1 + rest.length)) pc (first :: rest) := by
    refine codeAt_of_getElem? fun i hi => ?_
    rw [List.length_cons] at hi
    rw [List.getElem?_take_of_lt (by omega), hcode.getElem? (by rw [List.length_cons]; omega)]
  obtain ⟨vm', hsteps, hend, hpost⟩ := h _ vm hip htake hholds
  rcases Relation.ReflTransGen.cases_head hsteps with rfl | ⟨vm₁, hstep, hrest⟩
  · rw [hip, List.length_cons] at hend
    omega
  · obtain ⟨inst, hinst, hnext, -⟩ := Vm.step_next hstep
    rw [hip, htake.head] at hinst
    obtain rfl := Option.some.inj hinst
    have hip₁ : vm₁.ip = pc + 1 := by
      rw [hnext, (Vm.control_of_isSequential vm hfirst).2.2, hip]
    refine ⟨vm₁, vm', ?_, quiet_of_steps_take (fun i inst hi hlt hinst => ?_) hquiet hip₁.ge hrest,
      hend, hpost⟩
    · rw [Vm.step, hip, hcode.head]
      rwa [Vm.step, hip, htake.head] at hstep
    · have hmem := hcode.tail.getElem? (i := i - (pc + 1)) (by omega)
      rw [Nat.add_sub_cancel' hi, hinst] at hmem
      exact hforward inst (List.mem_of_getElem? hmem.symm)

/-- A loop visits a state for each of its passes, the one where the pass begins. -/
theorem passes_loop {first : Instruction P} {rest : List (Instruction P)} {target : UInt32}
    {K : ℕ → Symbolic P} {n a : ℕ} {I : ℕ → Vm P → Prop} (htarget : target.toNat = pc)
    (hn : 0 < n) (hflag : ∀ i, (K i).flag = none)
    (hbody : ∀ i < n, Takes pc (first :: rest) (K i) ((K (i + 1)).withFlag (decide (i + 1 < n))))
    (hfirst : first.opcode.isSequential = true)
    (hforward : ∀ inst ∈ rest, inst.goesOn (pc + 1) = true)
    (hmarked : ∀ vm : Vm P, vm.ip = pc → Q vm)
    (hquiet : Unmarked Q (pc + 1) (pc + 2 + rest.length))
    (hI : ∀ i < n, ∀ vm, (K i).Holds vm → I (a + i) vm) (hip : vm.ip = pc)
    (hcode : CodeAt code pc (first :: rest ++ [.jumpIf target])) (hholds : (K 0).Holds vm) :
    ∃ vm', Passes (Vm.step code) Q I a vm (a + n) vm' ∧
      vm'.ip = pc + (first :: rest ++ [Instruction.jumpIf target]).length ∧ (K n).Holds vm' := by
  obtain ⟨hpass, hjump⟩ := codeAt_append.mp hcode
  have hbefore : Unmarked Q (pc + 1) (pc + 1 + rest.length) := fun vm hle hlt =>
    hquiet vm hle (by omega)
  -- one pass, up to the jump
  have hone : ∀ i < n, ∀ vm : Vm P, vm.ip = pc → (K i).Holds vm → ∃ vm',
      Passes (Vm.step code) Q I (a + i) vm (a + (i + 1)) vm' ∧
        vm'.ip = (if decide (i + 1 < n) then pc else
          pc + (first :: rest ++ [Instruction.jumpIf target]).length) ∧ (K (i + 1)).Holds vm' := by
    intro i hi vm hip hholds
    obtain ⟨vm₁, vm₂, hstep, hrun, hip₂, hholds₂⟩ :=
      (hbody i hi).visit hfirst hforward hbefore hip hpass hholds
    obtain ⟨vm₃, hstep₃, hip₃, hholds₃⟩ := hholds₂.jumpIf rfl (hip₂ ▸ hjump.head)
    have hnot : ¬Q vm₂ := hquiet vm₂ (by rw [hip₂, List.length_cons]; omega)
      (by rw [hip₂, List.length_cons]; omega)
    refine ⟨vm₃, .visit hstep (hmarked vm hip) (hI i hi vm hholds)
      ((hrun.passes _).trans (.skip hstep₃ hnot (.refl _ _))), ?_,
      hholds₃.mono (le_withFlag (hflag _) _)⟩
    rw [hip₃, htarget, hip₂, List.length_append]
    rfl
  -- by induction on the number of passes that are left after the next one
  have hrun : ∀ m i (vm : Vm P), i + m + 1 = n → vm.ip = pc → (K i).Holds vm → ∃ vm',
      Passes (Vm.step code) Q I (a + i) vm (a + n) vm' ∧
        vm'.ip = pc + (first :: rest ++ [Instruction.jumpIf target]).length ∧
        (K n).Holds vm' := by
    intro m
    induction m with
    | zero =>
        intro i vm hi hip hholds
        obtain ⟨vm₁, hpasses, hip₁, hholds₁⟩ := hone i (by omega) vm hip hholds
        obtain rfl : i + 1 = n := by omega
        rw [decide_eq_false (lt_irrefl _)] at hip₁
        exact ⟨vm₁, hpasses, hip₁, hholds₁⟩
    | succ m ih =>
        intro i vm hi hip hholds
        obtain ⟨vm₁, hpasses, hip₁, hholds₁⟩ := hone i (by omega) vm hip hholds
        rw [decide_eq_true (by omega)] at hip₁
        obtain ⟨vm', hpasses', hend, hholds'⟩ := ih (i + 1) vm₁ (by omega) hip₁ hholds₁
        exact ⟨vm', hpasses.trans hpasses', hend, hholds'⟩
  exact hrun (n - 1) 0 vm (by omega) hip hholds

end Symbolic

namespace Motion

open Symbolic

variable {M : FloatMath P} {p : TrapezoidalProfile P}

/-! ### The beginnings of the cycles -/

/-- Control is at the beginning of a cycle, where the length of the step is computed. -/
def AtLoop (code : List (Instruction P)) (vm : Vm P) : Prop :=
  code[vm.ip]? = some (.arith .mul regVel regDt regTstep)

/-- Is the instruction the first one of a cycle? -/
def beginsCycle (inst : Instruction P) : Bool :=
  match inst.opcode, inst.operands with
  | .mul, [.register a, .register b, .register out] =>
      a == regVel && b == regDt && out == regTstep
  | _, _ => false

theorem unmarked_of_all {code insts : List (Instruction P)} {pc : ℕ} (hcode : CodeAt code pc insts)
    (h : insts.all (fun inst => !beginsCycle inst) = true) :
    Unmarked (AtLoop code) pc (pc + insts.length) := by
  intro vm hle hlt hloop
  have hmem := hcode.getElem? (i := vm.ip - pc) (by omega)
  rw [Nat.add_sub_cancel' hle, hloop] at hmem
  have hinst := List.all_eq_true.mp h _ (List.mem_of_getElem? hmem.symm)
  cases hinst

theorem beginsCycle_axisSteps :
    (axisSteps M p).all (fun inst => !beginsCycle inst) = true := by
  rw [axisSteps]
  cases moves M p.dy <;> cases moves M p.dz <;> rfl

/-- The code of a cycle after its first instruction. -/
theorem cycleCode_rest (phase : Phase) :
    IsSequential ((cycleCode M p phase).tail) ∧
      (cycleCode M p phase).tail.all (fun inst => !beginsCycle inst) = true := by
  rw [cycleCode, List.cons_append, List.tail_cons]
  refine ⟨isSequential_axisSteps.append
    ((isSequential_velocityUpdate phase).append (isSequential_of_all rfl)), ?_⟩
  · rw [List.all_append, beginsCycle_axisSteps]
    cases phase <;> rfl

/-- A phase visits the states of its cycles. -/
theorem passes_phase {pc a n : ℕ} {phaseCycles : UInt32} {phase : Phase} {l : LoopState P}
    {code : List (Instruction P)} {I : ℕ → Vm P → Prop} {vm : Vm P} (hpc : pc + 3 < 2 ^ 32)
    (hn : 0 < n)
    (hcounter : ∀ i < n, P.f64.gt
      (((LoopState.cycle M p phase)^[i + 1] (l.start M p phase phaseCycles)).counter)
        P.f64.zero = decide (i + 1 < n))
    (hI : ∀ i < n, ∀ vm,
      (((LoopState.cycle M p phase)^[i] (l.start M p phase phaseCycles)).known p).Holds vm →
        I (a + i) vm)
    (hip : vm.ip = pc) (hcode : CodeAt code pc (phaseCode M p pc phaseCycles phase))
    (hholds : (l.located p).Holds vm) :
    ∃ vm', Passes (Vm.step code) (AtLoop code) I a vm (a + n) vm' ∧
      vm'.ip = pc + (phaseCode M p pc phaseCycles phase).length ∧
      (((LoopState.cycle M p phase)^[n] (l.start M p phase phaseCycles)).located p).Holds vm' := by
  obtain ⟨hstart, hloop⟩ := codeAt_append.mp hcode
  obtain ⟨vm₁, hquiet, hip₁, hholds₁⟩ := (takes_phaseStart pc phaseCycles phase l).quiet
    ((isSequential_of_all rfl).goesOn pc) (unmarked_of_all hstart rfl) hip hstart hholds
  obtain ⟨hseq, hall⟩ := cycleCode_rest (M := M) (p := p) phase
  have hjump : CodeAt code (pc + 3 + 1) ((cycleCode M p phase).tail ++
      [.jumpIf (UInt32.ofNat (pc + 3))]) := hloop.tail
  have hbody : ∀ i < n, Takes (pc + 3) (cycleCode M p phase)
      (((LoopState.cycle M p phase)^[i] (l.start M p phase phaseCycles)).known p)
      ((((LoopState.cycle M p phase)^[i + 1] (l.start M p phase phaseCycles)).known p).withFlag
        (decide (i + 1 < n))) := by
    intro i hi
    rw [← hcounter i hi, Function.iterate_succ_apply']
    exact takes_cycle _ phase _
  obtain ⟨vm₂, hpasses, hip₂, hholds₂⟩ := passes_loop (Q := AtLoop code) (I := I) (a := a)
    (UInt32.toNat_ofNat_of_lt' hpc) hn (fun _ => rfl) hbody rfl (hseq.goesOn _)
    (fun vm hip => by rw [AtLoop, hip]; exact hloop.head)
    (fun vm hle hlt => unmarked_of_all hjump (by rw [List.all_append, hall]; rfl) vm hle
      (by rw [List.length_append]; exact lt_of_lt_of_le hlt (by rw [cycleCode]; simp; omega)))
    hI hip₁ hloop hholds₁
  refine ⟨vm₂, (hquiet.passes a).trans hpasses, ?_, hholds₂.mono (located_le_known _)⟩
  have hlen : (phaseCode M p pc phaseCycles phase).length =
      3 + (cycleCode M p phase ++ [Instruction.jumpIf (UInt32.ofNat (pc + 3))]).length := by
    rw [phaseCode, List.length_append]
    rfl
  rw [hlen, ← Nat.add_assoc]
  exact hip₂

/-! ### Velocities and lengths -/

section

variable {c : Bool} {p : TrapezoidalProfile (Platform.real c)}

/-- The length travelled before a cycle, when each cycle has a velocity. -/
noncomputable def travelled (dt : ℝ) (vel : ℕ → ℝ) (j : ℕ) : ℝ :=
  ∑ i ∈ Finset.range j, vel i * dt

theorem travelled_succ (dt : ℝ) (vel : ℕ → ℝ) (j : ℕ) :
    travelled dt vel (j + 1) = travelled dt vel j + vel j * dt :=
  Finset.sum_range_succ _ _

/-- The velocities of a phase travel the length of the phase. -/
theorem travelled_phase {dt v w : ℝ} {vel : ℕ → ℝ} {phase : Phase} {a n : ℕ}
    (hvel : ∀ i < n, vel (a + i) = v + phase.sign * i * w) {i : ℕ} (hi : i ≤ n) :
    travelled dt vel (a + i) = travelled dt vel a + phase.travel v w dt i := by
  induction i with
  | zero => simp only [Phase.travel_zero, add_zero]
  | succ i ih =>
      rw [← Nat.add_assoc, travelled_succ, ih (by omega), hvel i (by omega), Phase.travel_succ]
      ring

/-- The positions of the axes that move, when a length has been travelled. -/
structure PositionAt (p : TrapezoidalProfile (Platform.real c)) (s : ℝ)
    (vm : Vm (Platform.real c)) : Prop where
  x : vm.reg regPosX = .f64 (axisAt p p.startX p.dx s)
  y : TrapezoidalProfile.Noticed p.dy → vm.reg regPosY = .f64 (axisAt p p.startY p.dy s)
  z : TrapezoidalProfile.Noticed p.dz → vm.reg regPosZ = .f64 (axisAt p p.startZ p.dz s)

/-- A cycle begins with its velocity, where the velocities of the cycles before it lead. -/
structure CycleAt (p : TrapezoidalProfile (Platform.real c)) (vel : ℕ → ℝ) (j : ℕ)
    (vm : Vm (Platform.real c)) : Prop where
  velocity : vm.reg regVel = .f64 (vel j)
  position : PositionAt p (travelled p.dt vel j) vm

variable {vm : Vm (Platform.real c)} {l : LoopState (Platform.real c)}

theorem Located.positionAt {s : ℝ} (h : Located p s l) (hholds : (l.located p).Holds vm) :
    PositionAt p s vm := by
  have hmoves := TrapezoidalProfile.moves_real (c := c)
  refine ⟨(hholds.reg rfl).trans h.x, fun hy => ?_, fun hz => ?_⟩
  · exact (hholds.reg rfl).trans (h.y ((hmoves _).mpr hy))
  · exact (hholds.reg rfl).trans (h.z ((hmoves _).mpr hz))

/-- A phase visits the beginnings of its cycles. -/
theorem Located.passes_phase {pc a : ℕ} {phaseCycles : UInt32} {phase : Phase} {vel : ℕ → ℝ}
    (h : Located p (travelled p.dt vel a) l) {code : List (Instruction (Platform.real c))}
    (hpc : pc + 3 < 2 ^ 32) (hn : 0 < phaseCycles.toNat)
    (hvel : ∀ i < phaseCycles.toNat,
        vel (a + i) = (if phase = .accel then 0 else p.speed) + phase.sign * i *
        (p.acceleration * p.dt))
    (hip : vm.ip = pc)
    (hcode : CodeAt code pc (phaseCode (FloatMath.real c) p pc phaseCycles phase))
    (hholds : (l.located p).Holds vm) :
    ∃ l' vm', Passes (Vm.step code) (AtLoop code) (CycleAt p vel) a vm (a + phaseCycles.toNat)
        vm' ∧
      vm'.ip = pc + (phaseCode (FloatMath.real c) p pc phaseCycles phase).length ∧
      (l'.located p).Holds vm' ∧ Located p (travelled p.dt vel (a + phaseCycles.toNat)) l' := by
  obtain ⟨-, hstart, hstep⟩ := start_spec (p := p) phase phaseCycles l
  have hlocated : Located p (travelled p.dt vel a)
      (l.start (FloatMath.real c) p phase phaseCycles) := At.congr h rfl rfl rfl
  have hcycles := fun i => iterate_cycle phase hlocated i
  rw [hstart, hstep] at hcycles
  obtain ⟨vm', hpasses, hend, hholds'⟩ := Motion.passes_phase (I := CycleAt p vel) (a := a) hpc hn
    (fun i _ => counter_gt_zero phase phaseCycles h (i + 1)) (fun i hi vm hvm => by
      obtain ⟨-, hveli, -, hlocatedi, -⟩ := hcycles i
      rw [← travelled_phase hvel hi.le] at hlocatedi
      refine ⟨(hvm.reg rfl).trans (congrArg HalValue.f64 ?_),
        hlocatedi.positionAt (hvm.mono (located_le_known _))⟩
      rw [hveli, hvel i hi]) hip hcode hholds
  have hlast := (hcycles phaseCycles.toNat).2.2.2.1
  rw [← travelled_phase hvel le_rfl] at hlast
  exact ⟨_, vm', hpasses, hend, hholds', hlast⟩

/-- A run of some code has visited a number of cycles and comes to an index of the code. -/
def Arrives (p : TrapezoidalProfile (Platform.real c))
    (code : List (Instruction (Platform.real c))) (vel : ℕ → ℝ) (vm : Vm (Platform.real c))
    (pc j : ℕ) : Prop :=
  ∃ l vm', Passes (Vm.step code) (AtLoop code) (CycleAt p vel) 0 vm j vm' ∧ vm'.ip = pc ∧
    (l.located p).Holds vm' ∧ Located p (travelled p.dt vel j) l

/-- A run comes to the end of a phase. -/
theorem Arrives.phase {code before : List (Instruction (Platform.real c))} {vel : ℕ → ℝ} {j : ℕ}
    (h : Arrives p code vel vm before.length j) (phase : Phase) {phaseCycles : UInt32}
    (hlen : before.length + 3 < 2 ^ 32) (hn : 0 < phaseCycles.toNat)
    (hvel : ∀ i < phaseCycles.toNat,
        vel (j + i) = (if phase = .accel then 0 else p.speed) + phase.sign * i *
        (p.acceleration * p.dt))
    (hcode : before ++ phaseCode (FloatMath.real c) p before.length phaseCycles phase <+: code) :
    Arrives p code vel vm
      (before ++ phaseCode (FloatMath.real c) p before.length phaseCycles phase).length
      (j + phaseCycles.toNat) := by
  obtain ⟨l, vm₁, hpasses, hip, hholds, hlocated⟩ := h
  have hat : CodeAt code before.length
      (phaseCode (FloatMath.real c) p before.length phaseCycles phase) := by
    obtain ⟨after, rfl⟩ := hcode
    rw [List.append_assoc]
    exact CodeAt.middle _ _ _
  obtain ⟨l', vm', hpasses', hend, hholds', hlocated'⟩ :=
    hlocated.passes_phase hlen hn hvel hip hat hholds
  exact ⟨l', vm', hpasses.trans hpasses', by rw [hend, List.length_append], hholds', hlocated'⟩

/-- The velocities of a long move: the acceleration, the cruise and the deceleration. -/
noncomputable def longVel (p : TrapezoidalProfile (Platform.real c)) (naccel ncruise : ℕ)
    (j : ℕ) : ℝ :=
  if j < naccel then j * (p.acceleration * p.dt)
  else if j < naccel + ncruise then p.speed
  else p.speed - (j - (naccel + ncruise) : ℕ) * (p.acceleration * p.dt)

/-- A long move, alone in a program, visits the beginnings of its cycles, and then ends. -/
theorem passes_longCode (haccel : 0 < (p.cyclesAccel (FloatMath.real c)).toNat)
    (hcruise : 0 < (p.cyclesCruise (FloatMath.real c)).toNat) (hip : vm.ip = 0) :
    let naccel := (p.cyclesAccel (FloatMath.real c)).toNat
    let ncruise := (p.cyclesCruise (FloatMath.real c)).toNat
    let vel := longVel p naccel ncruise
    ∃ vm', Passes (Vm.step (longCode (FloatMath.real c) p))
        (AtLoop (longCode (FloatMath.real c) p)) (CycleAt p vel) 0 vm
          (naccel + ncruise + naccel) vm' ∧
      vm'.ip = (longCode (FloatMath.real c) p).length ∧
      PositionAt p (travelled p.dt vel (naccel + ncruise + naccel)) vm' := by
  intro naccel ncruise vel
  have hmoved := p.movedAxes_le (FloatMath.real c)
  have hlen := length_longStart (M := FloatMath.real c) (p := p)
  have hphase := fun start n phase =>
    length_phaseCode_le (M := FloatMath.real c) (p := p) start n phase
  have hvelAccel : ∀ i < naccel, vel (0 + i) =
      (if Phase.accel = .accel then 0 else p.speed) +
        Phase.accel.sign * i * (p.acceleration * p.dt) := by
    intro i hi
    rw [Nat.zero_add, if_pos rfl, Phase.sign]
    change longVel p naccel ncruise i = _
    rw [longVel, if_pos hi]
    ring
  have hvelCruise : ∀ i < ncruise, vel (0 + naccel + i) =
      (if Phase.cruise = .accel then 0 else p.speed) +
        Phase.cruise.sign * i * (p.acceleration * p.dt) := by
    intro i hi
    rw [if_neg (by rintro ⟨⟩), Phase.sign]
    change longVel p naccel ncruise _ = _
    rw [longVel, if_neg (by omega), if_pos (by omega)]
    ring
  have hvelDecel : ∀ i < naccel, vel (0 + naccel + ncruise + i) =
      (if Phase.decel = .accel then 0 else p.speed) +
        Phase.decel.sign * i * (p.acceleration * p.dt) := by
    intro i hi
    rw [if_neg (by rintro ⟨⟩), Phase.sign]
    change longVel p naccel ncruise _ = _
    rw [longVel, if_neg (by omega), if_neg (by omega),
      show 0 + naccel + ncruise + i - (naccel + ncruise) = i by omega]
    ring
  have hstart : Arrives p (longCode (FloatMath.real c) p) vel vm
      (longStart (FloatMath.real c) p).length 0 := by
    have hprefix : longStart (FloatMath.real c) p <+: longCode (FloatMath.real c) p := by
      simp only [longCode, List.append_assoc]
      exact List.prefix_append _ _
    have hseq : IsSequential (longStart (FloatMath.real c) p) :=
      (isSequential_of_all rfl).append isSequential_loadStartYZ
    have hall : (longStart (FloatMath.real c) p).all (fun inst => !beginsCycle inst) = true := by
      rw [longStart, loadStartYZ]
      cases moves (FloatMath.real c) p.dy <;> cases moves (FloatMath.real c) p.dz <;> rfl
    obtain ⟨vm₁, hquiet, hip₁, hholds⟩ := (takes_longStart (p := p) 0 vm).quiet (hseq.goesOn 0)
      (unmarked_of_all hprefix hall) hip hprefix (holds_ofVm vm)
    rw [Nat.zero_add] at hip₁
    refine ⟨_, vm₁, hquiet.passes 0, hip₁, hholds, ?_⟩
    rw [travelled, Finset.range_zero, Finset.sum_empty]
    exact located_atStart vm
  -- the code up to the end of each phase
  let code₁ := longStart (FloatMath.real c) p
  let code₂ := code₁ ++ phaseCode (FloatMath.real c) p code₁.length
    (p.cyclesAccel (FloatMath.real c)) .accel
  let code₃ := code₂ ++ phaseCode (FloatMath.real c) p code₂.length
    (p.cyclesCruise (FloatMath.real c)) .cruise
  have hlong : longCode (FloatMath.real c) p = code₃ ++ phaseCode (FloatMath.real c) p
    code₃.length (p.cyclesAccel (FloatMath.real c)) .decel := rfl
  have hlen₂ : code₂.length ≤ code₁.length + 20 := by
    have hle := hphase code₁.length (p.cyclesAccel (FloatMath.real c)) .accel
    rw [List.length_append]
    omega
  have hlen₃ : code₃.length ≤ code₂.length + 20 := by
    have hle := hphase code₂.length (p.cyclesCruise (FloatMath.real c)) .cruise
    rw [List.length_append]
    omega
  have hlen₁ : code₁.length = 4 + p.movedAxes (FloatMath.real c) := hlen
  have harrives₂ : Arrives p (longCode (FloatMath.real c) p) vel vm code₂.length (0 + naccel) :=
    hstart.phase .accel (by omega) haccel hvelAccel
      (hlong ▸ (List.prefix_append code₂ _).trans (List.prefix_append code₃ _))
  have harrives₃ : Arrives p (longCode (FloatMath.real c) p) vel vm code₃.length
      (0 + naccel + ncruise) :=
    harrives₂.phase .cruise (by omega) hcruise hvelCruise
      (hlong ▸ List.prefix_append code₃ _)
  obtain ⟨l, vm', hpasses, hend, hholds, hlocated⟩ :=
    harrives₃.phase .decel (by omega) haccel hvelDecel (hlong ▸ List.prefix_refl _)
  rw [Nat.zero_add] at hpasses hlocated
  exact ⟨vm', hpasses, hend, hlocated.positionAt hholds⟩

/-! ### Short moves -/

/-- The code of a cycle of a short move after its first instruction. -/
theorem shortCycleCode_rest {start : ℕ} (hstart : start + 30 < 2 ^ 32) :
    (∀ inst ∈ (shortCycleCode (FloatMath.real c) p start).tail,
      inst.goesOn (start + 1) = true) ∧
    (shortCycleCode (FloatMath.real c) p start).tail.all
      (fun inst => !beginsCycle inst) = true := by
  have hsteps := length_axisSteps (M := FloatMath.real c) (p := p)
  have hmoved := p.movedAxes_le (FloatMath.real c)
  have hnext : UInt32.ofNat (start + (axisSteps (FloatMath.real c) p).length + 5) + 1 =
      UInt32.ofNat (start + (axisSteps (FloatMath.real c) p).length + 6) :=
    (UInt32.ofNat_add _ 1).symm
  rw [shortCycleCode, List.cons_append, List.tail_cons]
  refine ⟨fun inst hinst => ?_, ?_⟩
  · rcases List.mem_append.mp hinst with hinst | hinst
    · exact isSequential_axisSteps.goesOn _ inst hinst
    · -- the two jumps go forward
      have hjump : ∀ target : UInt32, start + 1 ≤ target.toNat →
          (Instruction.jump target : Instruction (Platform.real c)).goesOn (start + 1) = true ∧
          (Instruction.jumpIf target : Instruction (Platform.real c)).goesOn (start + 1) = true :=
        fun target h => ⟨decide_eq_true h, decide_eq_true h⟩
      rw [switchCode, hnext] at hinst
      simp only [List.cons_append, List.nil_append, List.mem_cons, List.not_mem_nil,
        or_false] at hinst
      rcases hinst with rfl | rfl | rfl | rfl | rfl | rfl | rfl
      · rfl
      · refine (hjump _ ?_).2
        rw [UInt32.toNat_ofNat_of_lt' (by rw [UInt32.size]; omega)]
        omega
      · rfl
      · refine (hjump _ ?_).1
        rw [UInt32.toNat_ofNat_of_lt' (by rw [UInt32.size]; omega)]
        omega
      · rfl
      · rfl
      · rfl
  · rw [List.all_append, beginsCycle_axisSteps]
    rfl

/-- The cycles of a short move: each velocity is smaller than the one before. -/
theorem iterate_shortCycle_vel (hlength : 0 < p.pathLength) {n : ℕ} {w counter : ℝ}
    (hcounter : ∀ i : ℕ, i + 1 < n → 1 < counter - i) (h : Located p 0 l)
    (hcount : l.counter = counter) (hvel : l.vel = 0) (hvstep : l.vstep = w) {i : ℕ} (hi : i ≤ n) :
    let l' := (LoopState.shortCycle (FloatMath.real c) p)^[i] l
    l'.counter = counter - i ∧ l'.vstep = w ∧ (i < n → l'.vel = -(i * w)) ∧
      Located p (travelled p.dt (fun j => -(j * w)) i) l' := by
  induction i with
  | zero =>
      refine ⟨?_, hvstep, fun _ => ?_, ?_⟩
      · simpa using hcount
      · simpa using hvel
      · rw [travelled, Finset.range_zero, Finset.sum_empty]
        exact h
  | succ i ih =>
      obtain ⟨hcounter', hvstep', hvel', hlocated⟩ := ih (by omega)
      obtain ⟨hcount₁, hvel₁, hvstep₁, hlocated₁, -⟩ := shortCycle_spec hlength hlocated
      rw [← Function.iterate_succ_apply' (LoopState.shortCycle (FloatMath.real c) p)]
        at hcount₁ hvel₁ hvstep₁ hlocated₁
      refine ⟨?_, hvstep₁.trans hvstep', fun hi' => ?_, ?_⟩
      · rw [hcount₁, hcounter']
        push_cast
        ring
      · rw [hvel₁ (by rw [hcounter']; exact hcounter i hi'), hvstep', hvel' (by omega)]
        push_cast
        ring
      · rw [travelled_succ, ← hvel' (by omega)]
        exact hlocated₁

/-- A short move, alone in a program, visits the beginnings of its cycles, and then ends. -/
theorem passes_shortCode (hlength : 0 < p.pathLength) (total : UInt32) (hip : vm.ip = 0) :
    let w := p.vPeak (FloatMath.real c) / (p.cyclesHalf (FloatMath.real c)).toNat
    let vel : ℕ → ℝ := fun j => -(j * w)
    let n := max total.toNat 1
    ∃ vm', Passes (Vm.step (shortCode (FloatMath.real c) p total))
        (AtLoop (shortCode (FloatMath.real c) p total)) (CycleAt p vel) 0 vm n vm' ∧
      vm'.ip = (shortCode (FloatMath.real c) p total).length ∧
      PositionAt p (travelled p.dt vel n) vm' := by
  intro w vel n
  have hmoved := p.movedAxes_le (FloatMath.real c)
  have hlen := length_shortStart (M := FloatMath.real c) (p := p) total
  have hsteps := length_axisSteps (M := FloatMath.real c) (p := p)
  have hn : 0 < n := by omega
  have hcounter : ∀ i : ℕ, i + 1 < n → (1 : ℝ) < total.toNat - i := by
    intro i hi
    have hcast : ((i + 1 : ℕ) : ℝ) < (total.toNat : ℝ) := Nat.cast_lt.mpr (by omega)
    push_cast at hcast
    linarith
  have hlocated : Located p 0 (.atShortStart (FloatMath.real c) p
      ((FloatMath.real c).ofU32 total) vm) :=
    At.congr (located_atStart vm) rfl rfl rfl
  have hiterate := fun {i : ℕ} (hi : i ≤ n) => iterate_shortCycle_vel (w := w) hlength hcounter
    hlocated rfl FloatOps.real_zero rfl hi
  -- the registers before the loop
  obtain ⟨hstart, hloop⟩ := codeAt_append.mp
    (List.prefix_refl _ : CodeAt (shortCode (FloatMath.real c) p total) 0 _)
  have hall : (shortStart (FloatMath.real c) p total).all (fun inst => !beginsCycle inst) =
      true := by
    rw [shortStart, loadStartYZ]
    cases moves (FloatMath.real c) p.dy <;> cases moves (FloatMath.real c) p.dz <;> rfl
  obtain ⟨vm₁, hquiet, hip₁, hholds₁⟩ := (takes_shortStart (p := p) 0 total vm).quiet
    ((isSequential_shortStart total).goesOn 0) (unmarked_of_all hstart hall) hip hstart
    (holds_ofVm vm)
  -- the loop
  have hpc : (shortStart (FloatMath.real c) p total).length + 30 < 2 ^ 32 := by omega
  rw [Nat.zero_add] at hip₁ hloop
  have htarget : (UInt32.ofNat (shortStart (FloatMath.real c) p total).length).toNat =
      (shortStart (FloatMath.real c) p total).length :=
    UInt32.toNat_ofNat_of_lt' (by rw [UInt32.size]; omega)
  obtain ⟨hforward, hnone⟩ := shortCycleCode_rest (p := p) hpc
  have hjump : CodeAt (shortCode (FloatMath.real c) p total)
      ((shortStart (FloatMath.real c) p total).length + 1)
      ((shortCycleCode (FloatMath.real c) p (shortStart (FloatMath.real c) p total).length).tail ++
        [.jumpIf (UInt32.ofNat (shortStart (FloatMath.real c) p total).length)]) := hloop.tail
  have hbody : ∀ i < n, Takes (shortStart (FloatMath.real c) p total).length
      (shortCycleCode (FloatMath.real c) p (shortStart (FloatMath.real c) p total).length)
      (((LoopState.shortCycle (FloatMath.real c) p)^[i] (.atShortStart (FloatMath.real c) p
        ((FloatMath.real c).ofU32 total) vm)).known p)
      ((((LoopState.shortCycle (FloatMath.real c) p)^[i + 1] (.atShortStart (FloatMath.real c) p
        ((FloatMath.real c).ofU32 total) vm)).known p).withFlag (decide (i + 1 < n))) := by
    intro i hi
    have hgt : (Platform.real c).f64.gt
        (((LoopState.shortCycle (FloatMath.real c) p)^[i + 1] (.atShortStart (FloatMath.real c) p
          ((FloatMath.real c).ofU32 total) vm)).counter) (Platform.real c).f64.zero =
          decide (i + 1 < n) := by
      rw [FloatOps.real_gt, FloatOps.real_zero, (hiterate (Nat.succ_le_of_lt hi)).1,
        decide_eq_decide, sub_pos, Nat.cast_lt]
      omega
    rw [← hgt, Function.iterate_succ_apply']
    exact takes_shortCycle (by omega) _
  obtain ⟨vm₂, hpasses, hip₂, hholds₂⟩ := passes_loop
    (Q := AtLoop (shortCode (FloatMath.real c) p total)) (I := CycleAt p vel) (a := 0) htarget hn
    (fun _ => rfl) hbody rfl hforward
    (fun vm hip => by rw [AtLoop, hip]; exact hloop.head)
    (fun vm hle hlt => unmarked_of_all hjump (by rw [List.all_append, hnone]; rfl) vm hle
      (by
        rw [List.length_append]
        exact lt_of_lt_of_le hlt (by rw [shortCycleCode]; simp; omega)))
    (fun i hi vm hvm => by
      obtain ⟨-, -, hveli, hlocatedi⟩ := hiterate hi.le
      rw [Nat.zero_add]
      exact ⟨(hvm.reg rfl).trans (congrArg HalValue.f64 (hveli hi)),
        hlocatedi.positionAt (hvm.mono (located_le_known _))⟩) hip₁ hloop hholds₁
  rw [Nat.zero_add] at hpasses
  exact ⟨vm₂, (hquiet.passes 0).trans hpasses, hip₂.trans List.length_append.symm,
    (hiterate le_rfl).2.2.2.positionAt (hholds₂.mono (located_le_known _))⟩

end

end Motion

end Weftik
