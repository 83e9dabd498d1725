import Weftik.Motion.Endless

/-!
# Motion Profiles Whose Phases Run Once

The loops of a profile behind other code jump too far back, but a phase of one cycle does not
jump. So a long move none of whose phases has more than one cycle runs to its end wherever it
stands, and moves the axes once for each phase.

## Main definitions

* `RunsOnce`: a long move with at most one cycle in each phase.
* `TrapezoidalProfile.onePass`: the position after the phases have run once.

## Main results

* `takes_onePass`: such a move, anywhere in a program.
* `runsOnce_of_exec`: a move behind other code ends only if it is such a move.
-/

namespace Weftik.Motion

open Symbolic Machine Outcome

variable {P : Platform} (M : FloatMath P) (p : TrapezoidalProfile P)

/-- A long move whose phases have at most one cycle. -/
structure RunsOnce : Prop where
  long : p.isLong M = true
  accel : (p.cyclesAccel M).toNat ≤ 1
  cruise : (p.cyclesCruise M).toNat ≤ 1

namespace TrapezoidalProfile

/-- The position after a phase that runs at most once. -/
def phaseOnce (phaseCycles : UInt32) (vel : P.F64) (pos : Position P) : Position P :=
  if phaseCycles = 0 then pos else stepped M p vel pos

/-- The position after all phases. -/
def onePass : Position P :=
  p.phaseOnce M (p.cyclesAccel M) p.vTarget
    (p.phaseOnce M (p.cyclesCruise M) p.vTarget
      (p.phaseOnce M (p.cyclesAccel M) P.f64.zero p.startPos))

/-- Is any phase run? -/
def hasCycles : Bool := p.cyclesAccel M != 0 || p.cyclesCruise M != 0

end TrapezoidalProfile

variable {M p}

/-- A phase of at most one cycle is run after the code that it was generated behind, and its
position is stored if it is run. -/
theorem Reaches.once (hcounts : CountsExactly M) {vm : Vm P} {pc : ℕ}
    {code : List (Instruction P)} {pos : Position P} {l : LoopState P}
    (h : Reaches M p vm pc code pos l) (phase : Phase) {phaseCycles : UInt32}
    (hn : phaseCycles.toNat ≤ 1) :
    let pos' := p.phaseOnce M phaseCycles (if phase = .accel then P.f64.zero else p.vTarget) pos
    ∃ l', Reaches M p vm pc (emitProfilePhase M p code phaseCycles phase) pos' l' ∧
      (phaseCycles = 0 → l' = l) ∧
      (phaseCycles ≠ 0 → Shows M p pos' vm.signals l'.table) := by
  by_cases hzero : phaseCycles = 0
  · refine ⟨l, ?_, fun _ => rfl, fun hne => absurd hzero hne⟩
    rw [emitProfilePhase, if_pos hzero, TrapezoidalProfile.phaseOnce, if_pos hzero]
    exact h
  · rw [emitProfilePhase_eq _ hzero, TrapezoidalProfile.phaseOnce, if_neg hzero]
    have hstart : At M p pos (l.start M p phase phaseCycles) := h.position.congr rfl rfl rfl
    obtain ⟨hat, hshows⟩ := hstart.move
    have hcycle : ((l.start M p phase phaseCycles).cycle M p phase).table =
        ((l.start M p phase phaseCycles).move M p).table := by
      cases phase <;> rfl
    have hcounter : P.f64.gt (((l.start M p phase phaseCycles).cycle M p phase).counter)
        P.f64.zero = false := by
      have hcount : ((l.start M p phase phaseCycles).cycle M p phase).counter =
          P.f64.sub (M.ofU32 phaseCycles) (P.f64.lit 1 0) := by
        cases phase <;> rfl
      rw [hcount, hcounts, decide_eq_false (by omega)]
    refine ⟨(l.start M p phase phaseCycles).cycle M p phase,
      ⟨h.takes.append (takes_phase_once hcounter), ?_, fun pos' t' hnext => ?_⟩,
      fun hne => absurd hne hzero, fun _ => ?_⟩
    · cases phase <;> exact hat.congr rfl rfl rfl
    · rw [hcycle] at hnext
      exact h.shows pos' t' (hshows.trans hnext)
    · rw [hcycle]
      exact h.shows _ _ hshows

variable {program : HalProgram P}

/-- A move whose phases run once, anywhere in a program. -/
theorem takes_onePass (hcounts : CountsExactly M)
    (hlength : P.f64.lt (p.distance M) (P.f64.lit 1 9) = false) (hruns : RunsOnce M p)
    (hprogram : generateTrapezoidalProgram M p = .ok program) (pc : ℕ) (vm : Vm P) :
    ∃ l : LoopState P, Takes pc program.instructions (ofVm vm) (l.located p) ∧
      (p.hasCycles M = false → l.table = vm.signals) ∧
      (p.hasCycles M = true → Shows M p (p.onePass M) vm.signals l.table) := by
  have hlong : P.f64.gt (p.distCruise M) P.f64.zero = true := hruns.long
  have hcode : program.instructions = emitProfilePhase M p (emitProfilePhase M p
      (emitProfilePhase M p (longStart M p) (p.cyclesAccel M) .accel) (p.cyclesCruise M) .cruise)
        (p.cyclesAccel M) .decel := by
    rw [generateTrapezoidalProgram, emitG1, hlength, if_neg Bool.false_ne_true,
      if_pos hlong] at hprogram
    obtain rfl := Except.ok.inj hprogram
    rfl
  obtain ⟨l₁, hreaches₁, hsame₁, hshows₁⟩ :=
    (Reaches.longStart (M := M) (p := p) pc vm).once hcounts .accel hruns.accel
  obtain ⟨l₂, hreaches₂, hsame₂, hshows₂⟩ := hreaches₁.once hcounts .cruise hruns.cruise
  obtain ⟨l₃, hreaches₃, hsame₃, hshows₃⟩ := hreaches₂.once hcounts .decel hruns.accel
  simp only [if_true, reduceCtorEq, if_false] at hreaches₃ hshows₁ hshows₂ hshows₃
  rw [hcode]
  refine ⟨l₃, hreaches₃.takes, fun hnone => ?_, fun hcycles => ?_⟩
  · have hzero : p.cyclesAccel M = 0 ∧ p.cyclesCruise M = 0 := by
      simpa [TrapezoidalProfile.hasCycles] using hnone
    rw [hsame₃ hzero.1, hsame₂ hzero.2, hsame₁ hzero.1]
    rfl
  · by_cases haccel : p.cyclesAccel M = 0
    · have hcruise : p.cyclesCruise M ≠ 0 := by
        simpa [TrapezoidalProfile.hasCycles, haccel] using hcycles
      rw [hsame₃ haccel, TrapezoidalProfile.onePass, TrapezoidalProfile.phaseOnce, if_pos haccel]
      exact hshows₂ hcruise
    · exact hshows₃ haccel

/-! ### Moves that end -/

/-- The instruction is part of a profile: no call, return or halt, and no register out of the
register file. -/
def inProfile (inst : Instruction P) : Bool := inst.isLocal && inst.isTame

theorem inProfile_emitProfilePhase {insts : List (Instruction P)}
    (h : insts.all inProfile = true) (phaseCycles : UInt32) (phase : Phase) :
    (emitProfilePhase M p insts phaseCycles phase).all inProfile = true := by
  have hsteps : (axisSteps M p).all inProfile = true := by
    rw [axisSteps]
    split <;> split <;> rfl
  rw [emitProfilePhase]
  split
  · exact h
  · simp only [List.all_append, h, hsteps, Bool.true_and, Bool.and_true]
    cases phase <;> rfl

theorem generateTrapezoidalProgram_inProfile
    (hlength : P.f64.lt (p.distance M) (P.f64.lit 1 9) = false)
    (h : generateTrapezoidalProgram M p = .ok program) :
    ∀ inst ∈ program.instructions, inProfile inst = true := by
  refine List.all_eq_true.mp ?_
  cases hlong : P.f64.gt (p.distCruise M) P.f64.zero with
  | false =>
      obtain ⟨total, htotal⟩ := generateTrapezoidalProgram_short hlength hlong h
      rw [htotal, shortCode, shortStart, shortCycleCode, loadStartYZ, axisSteps]
      split <;> split <;> rfl
  | true =>
      rw [generateTrapezoidalProgram, emitG1, hlength, if_neg Bool.false_ne_true,
        if_pos hlong] at h
      obtain rfl := Except.ok.inj h
      refine inProfile_emitProfilePhase (inProfile_emitProfilePhase
        (inProfile_emitProfilePhase ?_ _ _) _ _) _ _
      rw [loadStartYZ]
      split <;> split <;> rfl

/-- Control does not leave a profile. -/
theorem generateTrapezoidalProgram_staysWithin
    (hlength : P.f64.lt (p.distance M) (P.f64.lit 1 9) = false)
    (h : generateTrapezoidalProgram M p = .ok program) :
    ∀ inst ∈ program.instructions,
      inst.staysWithin program.instructions.length = true := by
  have hlayout := generateTrapezoidalProgram_layout hlength h
  refine staysWithin_of_jumpTargets (List.all_eq_true.mpr fun inst hinst =>
    (Bool.and_eq_true_iff.mp (generateTrapezoidalProgram_inProfile hlength h inst hinst)).1)
    fun t ht => ?_
  rw [hlayout.length]
  exact (hlayout.bounds t ht).2

theorem emitProfilePhase_extends (insts : List (Instruction P)) (phaseCycles : UInt32)
    (phase : Phase) : ∃ more, emitProfilePhase M p insts phaseCycles phase = insts ++ more := by
  rw [emitProfilePhase]
  split
  · exact ⟨[], (List.append_nil _).symm⟩
  · exact ⟨_, by simp only [List.append_assoc]; rfl⟩

/-- Code that a loop of a profile can stand behind: it keeps the constants, and does not jump
beyond the loop. -/
def Precedes (n : ℕ) (insts : List (Instruction P)) : Prop :=
  ∀ inst ∈ insts, inst.staysWithin n = true ∧ inst.spares regZero = true ∧
    inst.spares regOne = true

theorem precedes_of_all {n : ℕ} {insts : List (Instruction P)} (hseq : IsSequential insts)
    (hspares : insts.all (fun inst => inst.spares regZero && inst.spares regOne) = true) :
    Precedes n insts := fun inst hinst =>
  ⟨hseq.staysWithin n inst hinst,
    Bool.and_eq_true_iff.mp (List.all_eq_true.mp hspares inst hinst)⟩

theorem precedes_start (n : ℕ) :
    Precedes n (.loadImm regPosX (.f64 p.startX) :: loadStartYZ M p) := by
  refine precedes_of_all (IsSequential.append (a := [.loadImm regPosX _])
    (isSequential_of_all rfl) isSequential_loadStartYZ) ?_
  rw [loadStartYZ]
  split <;> split <;> rfl

theorem Precedes.append {n : ℕ} {a b : List (Instruction P)} (ha : Precedes n a)
    (hb : Precedes n b) : Precedes n (a ++ b) := by
  intro inst hinst
  rcases List.mem_append.mp hinst with h | h
  · exact ha inst h
  · exact hb inst h

/-- The code of a phase, with its jump back into the code that precedes the loop. -/
theorem precedes_phaseCode {n start : ℕ} (hle : start + 3 ≤ n) (hbound : start + 3 < 2 ^ 32)
    (phaseCycles : UInt32) (phase : Phase) :
    Precedes n (phaseCode M p start phaseCycles phase) := by
  have hstart : Precedes n (phaseStart M p phaseCycles phase) :=
    precedes_of_all (isSequential_of_all rfl) rfl
  have hbody : Precedes n (.arith .mul regVel regDt regTstep :: axisSteps M p ++
      velocityUpdate phase) := fun inst hinst =>
    ⟨(IsSequential.append (a := [.arith .mul regVel regDt regTstep]) (isSequential_of_all rfl)
      (isSequential_axisSteps.append (isSequential_velocityUpdate phase))).staysWithin n inst hinst,
      spares_body (Or.inr (Or.inl rfl)) phase inst hinst,
      spares_body (Or.inr (Or.inr rfl)) phase inst hinst⟩
  have hcount : Precedes n ([.arith .sub regCounter regOne regCounter,
      .cmp .gt regCounter regZero] : List (Instruction P)) :=
    precedes_of_all (isSequential_of_all rfl) rfl
  have hjump : Precedes n ([.jumpIf (UInt32.ofNat (start + 3))] : List (Instruction P)) := by
    intro inst hinst
    obtain rfl := List.mem_singleton.mp hinst
    refine ⟨decide_eq_true ?_, rfl, rfl⟩
    rw [UInt32.toNat_ofNat_of_lt' hbound]
    exact hle
  have hcode : phaseCode M p start phaseCycles phase = phaseStart M p phaseCycles phase ++
      ((.arith .mul regVel regDt regTstep :: axisSteps M p ++ velocityUpdate phase) ++
        ([.arith .sub regCounter regOne regCounter, .cmp .gt regCounter regZero] ++
          [.jumpIf (UInt32.ofNat (start + 3))])) := by
    simp only [phaseCode, cycleCode, List.append_assoc, List.cons_append, List.nil_append]
  rw [hcode]
  exact hstart.append (hbody.append (hcount.append hjump))

theorem longStart_eq : longStart M p =
    profileConstants p ++ (.loadImm regPosX (.f64 p.startX) :: loadStartYZ M p) := rfl

/-- The code in front of the second phase. -/
theorem emitProfilePhase_accel_eq : ∃ rest,
    let code := emitProfilePhase M p (longStart M p) (p.cyclesAccel M) .accel
    code = profileConstants p ++ rest ∧ Precedes (code.length + 2) rest ∧
      code.length + 3 < 2 ^ 32 := by
  have hmoved := p.movedAxes_le M
  have hlen := length_longStart (M := M) (p := p)
  by_cases hzero : p.cyclesAccel M = 0
  · rw [emitProfilePhase, if_pos hzero]
    exact ⟨_, longStart_eq, precedes_start _, by omega⟩
  · rw [emitProfilePhase_eq _ hzero]
    have hle := length_phaseCode_le (M := M) (p := p) (longStart M p).length (p.cyclesAccel M)
      .accel
    have hpos : 3 ≤ (phaseCode M p (longStart M p).length (p.cyclesAccel M) .accel).length := by
      rw [phaseCode, List.length_append]
      exact Nat.le_add_right 3 _
    refine ⟨(.loadImm regPosX (.f64 p.startX) :: loadStartYZ M p) ++
      phaseCode M p (longStart M p).length (p.cyclesAccel M) .accel, ?_, ?_, ?_⟩
    · rw [longStart_eq, List.append_assoc]
    · refine (precedes_start _).append (precedes_phaseCode ?_ (by omega) _ _)
      rw [List.length_append]
      omega
    · rw [List.length_append]
      omega

/-- A move behind other code ends only if its phases run at most once. -/
theorem runsOnce_of_exec (hcounts : CountsExactly M)
    (hlength : P.f64.lt (p.distance M) (P.f64.lit 1 9) = false)
    (hprogram : generateTrapezoidalProgram M p = .ok program)
    {before after : List (Instruction P)}
    (hbefore : ∀ inst ∈ before, inst.staysWithin before.length = true) (hlen : 2 ≤ before.length)
    {vm vm' : Vm P} (hip : vm.ip ≤ before.length)
    (h : Exec (Vm.step (before ++ (program.instructions ++ after))) vm (.ok vm')) :
    RunsOnce M p := by
  cases hlong : p.isLong M with
  | false =>
      obtain ⟨total, htotal⟩ := generateTrapezoidalProgram_short hlength hlong hprogram
      rw [htotal] at h
      exact absurd h (short_not_exec hbefore hlen hip)
  | true =>
      have hcruise : P.f64.gt (p.distCruise M) P.f64.zero = true := hlong
      rw [generateTrapezoidalProgram, emitG1, hlength, if_neg Bool.false_ne_true,
        if_pos hcruise] at hprogram
      obtain rfl := Except.ok.inj hprogram
      change Exec (Vm.step (before ++ (emitProfilePhase M p (emitProfilePhase M p
        (emitProfilePhase M p (longStart M p) (p.cyclesAccel M) .accel) (p.cyclesCruise M)
          .cruise) (p.cyclesAccel M) .decel ++ after))) vm (.ok vm') at h
      refine ⟨hlong, ?_, ?_⟩
      · by_contra hn
        have hmoved := p.movedAxes_le M
        have hlenStart := length_longStart (M := M) (p := p)
        have hzero : p.cyclesAccel M ≠ 0 := by
          rintro hzero
          rw [hzero] at hn
          exact hn (Nat.zero_le 1)
        obtain ⟨more, hmore⟩ := emitProfilePhase_extends (M := M) (p := p)
          (emitProfilePhase M p (longStart M p) (p.cyclesAccel M) .accel) (p.cyclesCruise M) .cruise
        obtain ⟨more', hmore'⟩ := emitProfilePhase_extends (M := M) (p := p)
          (emitProfilePhase M p (emitProfilePhase M p (longStart M p) (p.cyclesAccel M) .accel)
            (p.cyclesCruise M) .cruise) (p.cyclesAccel M) .decel
        rw [hmore', hmore, emitProfilePhase_eq _ hzero, longStart_eq] at h
        simp only [List.append_assoc] at h
        have hrest := precedes_start (M := M) (p := p) ((longStart M p).length + 2)
        exact absurd h (phase_not_exec hcounts hbefore (by omega)
          (fun inst hinst => (hrest inst hinst).2) (fun inst hinst => (hrest inst hinst).1)
          (by rw [longStart_eq, List.length_append]; rfl) (by omega) (by omega) hip)
      · by_contra hn
        have hzero : p.cyclesCruise M ≠ 0 := by
          rintro hzero
          rw [hzero] at hn
          exact hn (Nat.zero_le 1)
        obtain ⟨more, hmore⟩ := emitProfilePhase_extends (M := M) (p := p)
          (emitProfilePhase M p (emitProfilePhase M p (longStart M p) (p.cyclesAccel M) .accel)
            (p.cyclesCruise M) .cruise) (p.cyclesAccel M) .decel
        obtain ⟨rest, hrest, hprecedes, hbound⟩ := emitProfilePhase_accel_eq (M := M) (p := p)
        rw [hmore, emitProfilePhase_eq _ hzero] at h
        generalize emitProfilePhase M p (longStart M p) (p.cyclesAccel M) .accel = code at *
        have hcodelen : code.length = 3 + rest.length := by
          rw [hrest, List.length_append]
          rfl
        rw [show before ++ (code ++ phaseCode M p code.length (p.cyclesCruise M) .cruise ++ more ++
          after) = before ++ (profileConstants p ++ (rest ++
            (phaseCode M p code.length (p.cyclesCruise M) .cruise ++ (more ++ after)))) by
          conv_lhs => rw [hrest]
          simp only [List.append_assoc, hrest]] at h
        exact absurd h (phase_not_exec hcounts hbefore (by omega)
          (fun inst hinst => (hprecedes inst hinst).2) (fun inst hinst => (hprecedes inst hinst).1)
          hcodelen hbound (by omega) hip)

end Weftik.Motion
