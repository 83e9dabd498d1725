import Weftik.Motion.Loop

/-!
# Motion Blocks That Do Not End

A motion profile behind other code jumps too far back: where its own program has the first
instruction of a loop, the compiled program has an instruction in front of the loop, and
control comes to the loop again with a new counter. So a loop of two cycles or more does not
end, and neither does a short move, whose jumps do not get to its last part.

## Main definitions

* `CountsExactly`: the arithmetic counts without rounding.

## Main results

* `short_not_exec`: a short move that is not at the beginning of a program does not end.
* `phase_not_exec`: neither does a phase of two cycles or more.
-/

namespace Weftik.Motion

open Machine Outcome Code

variable {P : Platform} {M : FloatMath P} {p : TrapezoidalProfile P}

/-- Taking one from a number of cycles leaves more than zero iff there is more than one. -/
def CountsExactly (M : FloatMath P) : Prop :=
  ∀ n : UInt32, P.f64.gt (P.f64.sub (M.ofU32 n) (P.f64.lit 1 0)) P.f64.zero =
    decide (1 < n.toNat)

theorem isSequential_loadStartYZ : IsSequential (loadStartYZ M p) := by
  rw [loadStartYZ]
  split <;> split <;> exact isSequential_of_all rfl

theorem isSequential_axisSteps : IsSequential (axisSteps M p) := by
  rw [axisSteps]
  split <;> split <;> exact isSequential_of_all rfl

theorem isSequential_velocityUpdate (phase : Phase) :
    IsSequential (velocityUpdate phase : List (Instruction P)) := by
  cases phase <;> exact isSequential_of_all rfl

theorem isSequential_shortStart (total : UInt32) : IsSequential (shortStart M p total) := by
  rw [shortStart]
  exact ((isSequential_of_all rfl).append isSequential_loadStartYZ).append
    (isSequential_of_all rfl)

/-! ### Short moves -/

/-- A short move behind other code does not end: the jump over its deceleration goes back to
itself or further. -/
theorem short_not_exec {before after : List (Instruction P)} {total : UInt32}
    (hbefore : ∀ inst ∈ before, inst.staysWithin before.length = true)
    (hlen : 2 ≤ before.length) {vm vm' : Vm P} (hip : vm.ip ≤ before.length) :
    ¬Exec (Vm.step (before ++ (shortCode M p total ++ after))) vm (.ok vm') := by
  have hmoved := p.movedAxes_le M
  have hstart := length_shortStart (M := M) (p := p) total
  have hsteps := length_axisSteps (M := M) (p := p)
  set decelStart := (shortStart M p total).length + (axisSteps M p).length + 5 with hdecel
  set code := before ++ (shortStart M p total ++ (.arith .mul regVel regDt regTstep ::
    axisSteps M p ++ [.cmp .gt regCounter regRatio, .jumpIf (UInt32.ofNat decelStart),
      .arith .add regVel regVstep regVel])) with hcode
  have hcodelen : code.length = before.length + decelStart - 1 := by
    simp only [hcode, hdecel, List.length_append, List.length_cons, List.length_nil]
    omega
  have htarget : (UInt32.ofNat decelStart).toNat = decelStart :=
    UInt32.toNat_ofNat_of_lt' (by rw [UInt32.size]; omega)
  have hjump : (UInt32.ofNat decelStart + 1).toNat = decelStart + 1 := by
    rw [show UInt32.ofNat decelStart + 1 = UInt32.ofNat (decelStart + 1) from
      (UInt32.ofNat_add _ 1).symm]
    exact UInt32.toNat_ofNat_of_lt' (by rw [UInt32.size]; omega)
  obtain ⟨rest, hrest⟩ : ∃ rest, before ++ (shortCode M p total ++ after) =
      code ++ .jump (UInt32.ofNat decelStart + 1) :: rest := by
    refine ⟨.arith .sub regVel regVstep regVel :: .arith .sub regCounter regOne regCounter ::
      .cmp .gt regCounter regZero ::
      .jumpIf (UInt32.ofNat (shortStart M p total).length) :: after, ?_⟩
    simp only [hcode, shortCode, shortCycleCode, switchCode, List.append_assoc,
      List.cons_append, List.nil_append, hdecel]
  rw [hrest]
  refine Vm.not_exec_ok_of_jump_back (fun inst hinst => ?_) (by omega) (by omega)
  rcases List.mem_append.mp hinst with hinst | hinst
  · exact Instruction.staysWithin_mono (by omega) (hbefore inst hinst)
  · rcases List.mem_append.mp hinst with hinst | hinst
    · exact (isSequential_shortStart total).staysWithin _ inst hinst
    · rw [List.cons_append, List.mem_cons, List.mem_append] at hinst
      rcases hinst with rfl | hinst | hinst
      · rfl
      · exact isSequential_axisSteps.staysWithin _ inst hinst
      · simp only [List.mem_cons, List.not_mem_nil, or_false] at hinst
        rcases hinst with rfl | rfl | rfl
        · rfl
        · exact decide_eq_true (by omega)
        · rfl

/-! ### Phases -/

/-- The registers that the loops count with. -/
def IsCounting (r : ℕ) : Prop := r = regCounter ∨ r = regZero ∨ r = regOne

theorem spares_axisSteps {r : ℕ} (hr : IsCounting r) :
    ∀ inst ∈ axisSteps M p, inst.spares r = true := by
  rw [← List.all_eq_true]
  rcases hr with rfl | rfl | rfl <;>
    · rw [axisSteps]
      split <;> split <;> rfl

theorem spares_velocityUpdate {r : ℕ} (hr : IsCounting r) (phase : Phase) :
    ∀ inst ∈ (velocityUpdate phase : List (Instruction P)), inst.spares r = true := by
  rw [← List.all_eq_true]
  rcases hr with rfl | rfl | rfl <;> cases phase <;> rfl

/-- What a cycle does before it counts does not touch the counter and its constants. -/
theorem spares_body {r : ℕ} (hr : IsCounting r) (phase : Phase) :
    ∀ inst ∈ .arith .mul regVel regDt regTstep :: axisSteps M p ++ velocityUpdate phase,
      inst.spares r = true := by
  intro inst hinst
  rw [List.cons_append, List.mem_cons, List.mem_append] at hinst
  rcases hinst with rfl | hinst | hinst
  · rcases hr with rfl | rfl | rfl <;> rfl
  · exact spares_axisSteps hr inst hinst
  · exact spares_velocityUpdate hr phase inst hinst

/-- The constants are in their registers. -/
def HasConstants (vm : Vm P) : Prop :=
  vm.reg regZero = .f64 P.f64.zero ∧ vm.reg regOne = .f64 (P.f64.lit 1 0)

/-- The first cycle of a phase of two cycles or more sets the flag. -/
theorem execList_firstCycle (hcounts : CountsExactly M) {phase : Phase} {phaseCycles : UInt32}
    (hn : 1 < phaseCycles.toNat) {vm vm' : Vm P} (hconst : HasConstants vm)
    (h : vm.execList (.loadImm regCounter (.f64 (M.ofU32 phaseCycles)) ::
      cycleCode M p phase) = .ok vm') : vm'.flagsZero = true ∧ HasConstants vm' := by
  rw [Vm.execList_cons, Vm.stepSeq_loadImm (by decide), ok_bind, cycleCode,
    ← List.append_assoc, Vm.execList_append] at h
  obtain ⟨vm₁, hbody, htick⟩ := bind_eq_ok h
  have hreg : ∀ {r}, IsCounting r → vm₁.reg r =
      if r = regCounter then .f64 (M.ofU32 phaseCycles) else vm.reg r := by
    intro r hr
    rw [Vm.execList_reg (spares_body hr phase) hbody, Vm.advanceIp_reg,
      Vm.reg_setReg (by decide)]
  have hcounter : vm₁.reg regCounter = .f64 (M.ofU32 phaseCycles) := hreg (Or.inl rfl)
  have hzero : vm₁.reg regZero = .f64 P.f64.zero := (hreg (Or.inr (Or.inl rfl))).trans hconst.1
  have hone : vm₁.reg regOne = .f64 (P.f64.lit 1 0) := (hreg (Or.inr (Or.inr rfl))).trans hconst.2
  have hsub : vm₁.stepSeq (.arith .sub regCounter regOne regCounter) =
      .ok (vm₁.setReg regCounter (.f64 (P.f64.sub (M.ofU32 phaseCycles)
        (P.f64.lit 1 0)))).advanceIp := by
    rw [Vm.stepSeq_arith rfl (by decide) (by decide) (by decide), hcounter, hone]
    rfl
  rw [Vm.execList_cons, hsub, ok_bind, Vm.execList_cons,
    Vm.stepSeq_cmp rfl (by decide) (by decide), ok_bind, Vm.execList_nil] at htick
  obtain rfl := Except.ok.inj htick
  refine ⟨?_, ?_, ?_⟩
  · change Vm.compareFn .gt (Vm.reg _ regCounter) (Vm.reg _ regZero) = true
    rw [Vm.advanceIp_reg, Vm.advanceIp_reg, Vm.reg_setReg (by decide), Vm.reg_setReg (by decide),
      if_pos rfl, if_neg (by decide), hzero]
    exact (hcounts phaseCycles).trans (decide_eq_true hn)
  · rw [Vm.advanceIp_reg, Vm.setFlagsZero_reg, Vm.advanceIp_reg, Vm.reg_setReg (by decide),
      if_neg (by decide), hzero]
  · rw [Vm.advanceIp_reg, Vm.setFlagsZero_reg, Vm.advanceIp_reg, Vm.reg_setReg (by decide),
      if_neg (by decide), hone]

theorem isSequential_cycleCode (phase : Phase) : IsSequential (cycleCode M p phase) := by
  rw [cycleCode, List.cons_append]
  exact IsSequential.append (a := [.arith .mul regVel regDt regTstep]) (isSequential_of_all rfl)
    (isSequential_axisSteps.append
      ((isSequential_velocityUpdate phase).append (isSequential_of_all rfl)))

variable (p) in
/-- The constants of a profile. -/
def profileConstants : List (Instruction P) :=
  [.loadImm regDt (.f64 p.dt), .loadImm regZero (.f64 P.f64.zero),
    .loadImm regOne (.f64 (P.f64.lit 1 0))]

/-- The constants are known wherever they have been loaded. -/
structure Counting (start : ℕ) (vm : Vm P) : Prop where
  zero : start + 2 ≤ vm.ip → vm.reg regZero = .f64 P.f64.zero
  one : start + 3 ≤ vm.ip → vm.reg regOne = .f64 (P.f64.lit 1 0)

theorem step_loadImm {code : List (Instruction P)} {vm : Vm P} {r : ℕ} {v : HalValue P}
    (hr : r < 16) (hinst : code[vm.ip]? = some (.loadImm r v)) :
    Vm.step code vm = .next (vm.setReg r v).advanceIp :=
  ((Vm.step_of_isSequential hinst rfl).1 _ (Vm.stepSeq_loadImm hr v)).1

/-- A step of the code in front of a loop. -/
theorem Counting.step {before rest after : List (Instruction P)}
    (hbefore : ∀ inst ∈ before, inst.staysWithin before.length = true)
    (hrest : ∀ inst ∈ rest, inst.spares regZero = true ∧ inst.spares regOne = true)
    {vm vm' : Vm P} (hcounting : Counting before.length vm)
    (hip : vm.ip < before.length + (3 + rest.length))
    (hstep : Vm.step (before ++ (profileConstants p ++ (rest ++ after))) vm = .next vm') :
    Counting before.length vm' := by
  obtain ⟨inst, hinst, hnext, -⟩ := Vm.step_next hstep
  rcases Nat.lt_or_ge vm.ip before.length with hlt | hge
  · rw [List.getElem?_append_left hlt] at hinst
    have hwithin := Vm.nextIp_le_of_staysWithin (hbefore inst (List.mem_of_getElem? hinst)) hlt
    exact ⟨fun h => by omega, fun h => by omega⟩
  · obtain ⟨i, hi⟩ := Nat.exists_eq_add_of_le hge
    have hat : (profileConstants p ++ (rest ++ after))[i]? = some inst := by
      rw [← hinst, hi, List.getElem?_append_right (Nat.le_add_right _ _), Nat.add_sub_cancel_left]
    match i, hi, hat with
    | 0, hi, hat =>
        obtain rfl := Option.some.inj hat
        rw [step_loadImm (by decide) hinst] at hstep
        obtain rfl := Result.next.inj hstep
        have hnext : (vm.setReg regDt (.f64 p.dt)).advanceIp.ip = vm.ip + 1 := rfl
        exact ⟨fun h => by omega, fun h => by omega⟩
    | 1, hi, hat =>
        obtain rfl := Option.some.inj hat
        rw [step_loadImm (by decide) hinst] at hstep
        obtain rfl := Result.next.inj hstep
        have hnext : (vm.setReg regZero (.f64 P.f64.zero)).advanceIp.ip = vm.ip + 1 := rfl
        refine ⟨fun _ => ?_, fun h => by omega⟩
        rw [Vm.advanceIp_reg, Vm.reg_setReg (by decide), if_pos rfl]
    | 2, hi, hat =>
        obtain rfl := Option.some.inj hat
        rw [step_loadImm (by decide) hinst] at hstep
        obtain rfl := Result.next.inj hstep
        refine ⟨fun _ => ?_, fun _ => ?_⟩
        · rw [Vm.advanceIp_reg, Vm.reg_setReg (by decide), if_neg (by decide)]
          exact hcounting.zero (by omega)
        · rw [Vm.advanceIp_reg, Vm.reg_setReg (by decide), if_pos rfl]
    | i + 3, hi, hat =>
        have hmem : inst ∈ rest := by
          have hrest : (rest ++ after)[i]? = some inst := hat
          rw [List.getElem?_append_left (by omega)] at hrest
          exact List.mem_of_getElem? hrest
        refine ⟨fun _ => ?_, fun _ => ?_⟩
        · rw [Vm.step_reg hinst (Vm.notMem_written_of_spares (hrest inst hmem).1) (Or.inl hstep)]
          exact hcounting.zero (by omega)
        · rw [Vm.step_reg hinst (Vm.notMem_written_of_spares (hrest inst hmem).2) (Or.inl hstep)]
          exact hcounting.one (by omega)

/-- A phase of two cycles or more behind other code does not end: its jump goes back in front
of its constants, which are loaded again. -/
theorem phase_not_exec (hcounts : CountsExactly M) {before rest after : List (Instruction P)}
    {phase : Phase} {phaseCycles : UInt32} {start : ℕ}
    (hbefore : ∀ inst ∈ before, inst.staysWithin before.length = true)
    (hlen : 1 ≤ before.length)
    (hrest : ∀ inst ∈ rest, inst.spares regZero = true ∧ inst.spares regOne = true)
    (hwithin : ∀ inst ∈ rest, inst.staysWithin (start + 2) = true)
    (hstart : start = 3 + rest.length) (hbound : start + 3 < 2 ^ 32)
    (hn : 1 < phaseCycles.toNat) {vm vm' : Vm P} (hip : vm.ip ≤ before.length) :
    ¬Exec (Vm.step (before ++ (profileConstants p ++ (rest ++
      (phaseCode M p start phaseCycles phase ++ after))))) vm (.ok vm') := by
  -- the two loads in front of the counter belong to the code that is run again
  set vels : List (Instruction P) := [.loadImm regVstep (.f64 (P.f64.mul p.acceleration p.dt)),
    .loadImm regVel (.f64 (if phase = .accel then P.f64.zero else p.vTarget))] with hvels
  set loop : List (Instruction P) := .loadImm regCounter (.f64 (M.ofU32 phaseCycles)) ::
    cycleCode M p phase with hloop
  have hcode : before ++ (profileConstants p ++ (rest ++
      (phaseCode M p start phaseCycles phase ++ after))) =
      before ++ (profileConstants p ++ ((rest ++ vels) ++
        (loop ++ (.jumpIf (UInt32.ofNat (start + 3)) :: after)))) := by
    simp only [phaseCode, phaseStart, hvels, hloop, List.append_assoc, List.cons_append,
      List.nil_append]
  rw [hcode]
  set code := before ++ (profileConstants p ++ ((rest ++ vels) ++
    (loop ++ (.jumpIf (UInt32.ofNat (start + 3)) :: after)))) with hcodedef
  have hlenVels : (rest ++ vels).length = rest.length + 2 := by
    rw [List.length_append, hvels]
    rfl
  set front := before ++ (profileConstants p ++ (rest ++ vels)) with hfront
  have hfrontLen : front.length = before.length + start + 2 := by
    simp only [hfront, List.length_append, hlenVels, profileConstants, List.length_cons,
      List.length_nil]
    omega
  have hsplit : code = front ++ ((loop ++ [.jumpIf (UInt32.ofNat (start + 3))]) ++ after) := by
    simp only [hcodedef, hfront, List.append_assoc, List.cons_append, List.nil_append]
  refine Exec.not_ok_of_progress (I := fun vm => vm.ip ≤ before.length + start + 2 ∧
    Counting before.length vm) ?_ ⟨by omega, ⟨fun h => by omega, fun h => by omega⟩⟩
  rintro vm ⟨hip, hcounting⟩
  rcases Nat.lt_or_eq_of_le hip with hlt | heq
  · -- in front of the loop: one step
    have hstays : ∀ inst ∈ front, inst.staysWithin (before.length + start + 2) = true := by
      intro inst hinst
      rcases List.mem_append.mp hinst with hinst | hinst
      · exact Instruction.staysWithin_mono (by omega) (hbefore inst hinst)
      · rcases List.mem_append.mp hinst with hinst | hinst
        · exact (isSequential_of_all rfl).staysWithin _ inst hinst
        · rcases List.mem_append.mp hinst with hinst | hinst
          · exact Instruction.staysWithin_mono (by omega) (hwithin inst hinst)
          · exact (isSequential_of_all rfl).staysWithin _ inst hinst
    obtain ⟨inst, hinst⟩ : ∃ inst, front[vm.ip]? = some inst :=
      ⟨_, List.getElem?_eq_getElem (by omega)⟩
    have hinstCode : code[vm.ip]? = some inst := by
      rw [hsplit, List.getElem?_append_left (by omega), hinst]
    obtain ⟨hnext, hhalts⟩ :=
      Vm.nextIp_le_of_staysWithin (hstays inst (List.mem_of_getElem? hinst)) hlt
    cases hstep : Vm.step code vm with
    | next vm₁ =>
        obtain ⟨inst', hinst', hip', -⟩ := Vm.step_next hstep
        obtain rfl := Option.some.inj (hinstCode.symm.trans hinst')
        refine Or.inl ⟨vm₁, (Steps.refl vm).progress hstep, hip'.le.trans hnext, ?_⟩
        refine hcounting.step hbefore (fun inst (hinst : inst ∈ rest ++ vels) => ?_) (by omega)
          hstep
        rcases List.mem_append.mp hinst with hinst | hinst
        · exact hrest inst hinst
        · rw [hvels, List.mem_cons, List.mem_singleton] at hinst
          rcases hinst with rfl | rfl <;> exact ⟨rfl, rfl⟩
    | fail e => exact Or.inr ⟨e, .fail hstep⟩
    | done vm₁ =>
        obtain ⟨inst', hinst', hhalts'⟩ := Vm.step_done hstep
        obtain rfl := Option.some.inj (hinstCode.symm.trans hinst')
        rw [hhalts] at hhalts'
        cases hhalts'
  · -- at the loop: its first cycle, and the jump back
    have hseq : IsSequential loop :=
      IsSequential.append (a := [.loadImm regCounter _]) (isSequential_of_all rfl)
        (isSequential_cycleCode phase)
    have hat : CodeAt code vm.ip (loop ++ [.jumpIf (UInt32.ofNat (start + 3))]) := by
      rw [hsplit, heq, ← hfrontLen]
      exact CodeAt.middle front _ after
    obtain ⟨hloopAt, hjumpAt⟩ := codeAt_append.mp hat
    cases hexec : vm.execList loop with
    | error e => exact Or.inr ⟨e, Vm.exec_of_execList hseq hloopAt hexec⟩
    | ok vm₁ =>
        obtain ⟨hsteps, hip₁⟩ := Vm.steps_of_execList hseq hloopAt hexec
        have hconst : HasConstants vm := ⟨hcounting.zero (by omega), hcounting.one (by omega)⟩
        obtain ⟨hflag, hzero, hone⟩ := execList_firstCycle hcounts hn hconst hexec
        have hholds : ((Symbolic.ofVm vm₁).withFlag true).Holds vm₁ :=
          ⟨rfl, (Symbolic.holds_ofVm vm₁).regs, fun b hb => hflag.trans (Option.some.inj hb)⟩
        obtain ⟨vm₂, hjump, hip₂, hholds₂⟩ := hholds.jumpIf rfl (hip₁ ▸ hjumpAt.head)
        have htarget : vm₂.ip = start + 3 := hip₂.trans (UInt32.toNat_ofNat_of_lt' hbound)
        refine Or.inl ⟨vm₂, hsteps.progress hjump, by omega, fun _ => ?_, fun _ => ?_⟩
        · rw [← hzero]
          exact hholds₂.reg rfl
        · rw [← hone]
          exact hholds₂.reg rfl

end Weftik.Motion
