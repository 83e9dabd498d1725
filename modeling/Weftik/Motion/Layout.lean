import Weftik.Control
import Weftik.Motion.Profile

/-!
# The Layout of a Motion Profile

How many instructions a motion profile has, and where its jumps go: into its own code, and
never before the first instruction of its first loop, which is a fixed number of instructions
from its beginning.

## Main definitions

* `TrapezoidalProfile.size`: the number of instructions.
* `TrapezoidalProfile.hasLoop`, `TrapezoidalProfile.firstLoop`: is there a loop, and where
  does the first one begin?

## Main results

* `generateTrapezoidalProgram_layout`: the size and the targets of the generated program.
-/

open Outcome

namespace Weftik.Motion

variable {P : Platform} (M : FloatMath P) (p : TrapezoidalProfile P)

namespace TrapezoidalProfile

/-- The number of the axes, the first one aside, that move. -/
def movedAxes : ℕ := (if moves M p.dy then 1 else 0) + (if moves M p.dz then 1 else 0)

/-- Is there a cruise? -/
def isLong : Bool := P.f64.gt (p.distCruise M) P.f64.zero

/-- Is there a loop? A short move has one, a long one has one for each of its phases. -/
def hasLoop : Bool := !p.isLong M || p.cyclesAccel M != 0 || p.cyclesCruise M != 0

/-- The index of the first instruction of the first loop. -/
def firstLoop : ℕ := (if p.isLong M then 7 else 8) + p.movedAxes M

/-- The number of instructions of one phase of a long move. -/
def phaseSize (phaseCycles : UInt32) (phase : Phase) : ℕ :=
  if phaseCycles = 0 then 0
  else 11 + 4 * p.movedAxes M + (if phase = .cruise then 0 else 1)

/-- The number of instructions. -/
def size : ℕ :=
  if p.isLong M then
    4 + p.movedAxes M + p.phaseSize M (p.cyclesAccel M) .accel +
      p.phaseSize M (p.cyclesCruise M) .cruise + p.phaseSize M (p.cyclesAccel M) .decel
  else 21 + 5 * p.movedAxes M

theorem movedAxes_le : p.movedAxes M ≤ 2 := by
  rw [movedAxes]
  split <;> split <;> omega

theorem phaseSize_le (phaseCycles : UInt32) (phase : Phase) :
    p.phaseSize M phaseCycles phase ≤ 20 := by
  have hmoved := p.movedAxes_le M
  rw [phaseSize]
  split
  · omega
  · split <;> omega

theorem le_phaseSize {phaseCycles : UInt32} (h : phaseCycles ≠ 0) (phase : Phase) :
    11 ≤ p.phaseSize M phaseCycles phase := by
  rw [phaseSize, if_neg h]
  omega

theorem le_firstLoop : 7 ≤ p.firstLoop M := by
  rw [firstLoop]
  split <;> omega

theorem firstLoop_le : p.firstLoop M ≤ 10 := by
  have hmoved := p.movedAxes_le M
  rw [firstLoop]
  split <;> omega

theorem size_pos : 0 < p.size M := by
  rw [size]
  split <;> omega

/-- A profile with a loop is longer than what precedes any first loop. -/
theorem le_size_of_hasLoop (h : p.hasLoop M = true) : 15 ≤ p.size M := by
  rw [size]
  split
  · rename_i hlong
    by_cases haccel : p.cyclesAccel M = 0
    · have hcruise : p.cyclesCruise M ≠ 0 := by simpa [hasLoop, hlong, haccel] using h
      have := p.le_phaseSize M hcruise .cruise
      omega
    · have := p.le_phaseSize M haccel .accel
      omega
  · omega

end TrapezoidalProfile

/-! ### The fragments -/

variable {M p}

theorem length_loadStartYZ : (loadStartYZ M p).length = p.movedAxes M := by
  rw [loadStartYZ, TrapezoidalProfile.movedAxes, List.length_append]
  split <;> split <;> rfl

theorem length_axisSteps : (axisSteps M p).length = 4 + 4 * p.movedAxes M := by
  rw [axisSteps, TrapezoidalProfile.movedAxes, List.length_append, List.length_append]
  split <;> split <;> rfl

theorem length_velocityUpdate (phase : Phase) :
    (velocityUpdate phase : List (Instruction P)).length = if phase = .cruise then 0 else 1 := by
  cases phase <;> rfl

theorem jumpTargets_loadStartYZ : jumpTargets (loadStartYZ M p) = [] := by
  rw [loadStartYZ]
  split <;> split <;> rfl

theorem jumpTargets_axisSteps : jumpTargets (axisSteps M p) = [] := by
  rw [axisSteps]
  split <;> split <;> rfl

theorem jumpTargets_velocityUpdate (phase : Phase) :
    jumpTargets (velocityUpdate phase : List (Instruction P)) = [] := by
  cases phase <;> rfl

theorem jumpTargets_loopControl {loopStart : ℕ} (h : loopStart < 2 ^ 32) :
    jumpTargets (loopControl loopStart : List (Instruction P)) = [loopStart] := by
  have htarget : (UInt32.ofNat loopStart).toNat = loopStart := UInt32.toNat_ofNat_of_lt' h
  exact congrArg (fun t => [t]) htarget

/-! ### The phases -/

theorem length_emitProfilePhase (insts : List (Instruction P)) (phaseCycles : UInt32)
    (phase : Phase) :
    (emitProfilePhase M p insts phaseCycles phase).length =
      insts.length + p.phaseSize M phaseCycles phase := by
  rw [emitProfilePhase, TrapezoidalProfile.phaseSize]
  split
  · rfl
  · simp only [List.length_append, length_axisSteps, length_velocityUpdate, loopControl,
      List.length_cons, List.length_nil]
    omega

/-- A phase has one jump, past its three constants. -/
theorem jumpTargets_emitProfilePhase {insts : List (Instruction P)}
    (hlen : insts.length + 3 < 2 ^ 32) (phaseCycles : UInt32) (phase : Phase) :
    jumpTargets (emitProfilePhase M p insts phaseCycles phase) =
      jumpTargets insts ++ if phaseCycles = 0 then [] else [insts.length + 3] := by
  rw [emitProfilePhase]
  split
  · rw [List.append_nil]
  · simp only [jumpTargets_append, jumpTargets_axisSteps, jumpTargets_velocityUpdate,
      List.append_nil, List.length_append, List.length_cons, List.length_nil]
    rw [jumpTargets_loopControl hlen, List.append_assoc, List.append_assoc]
    rfl

/-- The size and the targets of a short move: to the deceleration, past it, and back. -/
theorem emitTriangularMotion_layout {insts code : List (Instruction P)} {cyclesHalf : UInt32}
    (hinsts : insts.length = 6) (htargets : jumpTargets insts = [])
    (h : emitTriangularMotion M p cyclesHalf insts = .ok code) :
    code.length = 21 + 5 * p.movedAxes M ∧
      jumpTargets code =
        [17 + 5 * p.movedAxes M, 18 + 5 * p.movedAxes M, 8 + p.movedAxes M] := by
  have hmoved := p.movedAxes_le M
  obtain ⟨total, -, htotal⟩ := bind_eq_ok h
  obtain rfl := Except.ok.inj htotal
  have htarget : ∀ n, n < 2 ^ 32 → (UInt32.ofNat n).toNat = n :=
    fun n hn => UInt32.toNat_ofNat_of_lt' hn
  refine ⟨?_, ?_⟩
  · simp only [List.length_append, length_loadStartYZ, length_axisSteps, loopControl, hinsts,
      List.length_cons, List.length_nil]
    omega
  · simp only [jumpTargets_append, htargets, jumpTargets_loadStartYZ, jumpTargets_axisSteps,
      List.length_append, length_loadStartYZ, length_axisSteps, hinsts, List.length_cons,
      List.length_nil]
    rw [jumpTargets_loopControl (by omega)]
    simp only [jumpTargets, List.filterMap_cons, List.filterMap_nil, Instruction.jumpsTo,
      Instruction.loadImm, Instruction.arith, Instruction.cmp, Instruction.jump,
      Instruction.jumpIf, Vm.jumpTarget, List.nil_append, List.cons_append]
    rw [htarget _ (by omega), show ∀ n, UInt32.ofNat n + 1 = UInt32.ofNat (n + 1) from
      fun n => (UInt32.ofNat_add n 1).symm, htarget _ (by omega)]
    congr 1
    · omega
    · congr 1
      · omega
      · congr 1
        omega

/-! ### The program -/

/-- The layout of a generated program. Its jumps go no further back than to its first loop,
and to that one if there is a loop. -/
structure Layout (M : FloatMath P) (p : TrapezoidalProfile P) (code : List (Instruction P)) :
    Prop where
  length : code.length = p.size M
  bounds : ∀ t ∈ jumpTargets code, p.firstLoop M ≤ t ∧ t ≤ p.size M
  first : p.hasLoop M = true → p.firstLoop M ∈ jumpTargets code
  none : p.hasLoop M = false → jumpTargets code = []

/-- A long move: one jump for each phase that has cycles, and the first of these phases is
right after the start positions. -/
theorem emitProfilePhases_layout {insts : List (Instruction P)} (hlong : p.isLong M = true)
    (hinsts : insts.length = 4 + p.movedAxes M) (hnone : jumpTargets insts = []) :
    Layout M p (emitProfilePhase M p (emitProfilePhase M p (emitProfilePhase M p insts
      (p.cyclesAccel M) .accel) (p.cyclesCruise M) .cruise) (p.cyclesAccel M) .decel) := by
  have hmoved := p.movedAxes_le M
  have haccel := p.phaseSize_le M (p.cyclesAccel M) .accel
  have hcruise := p.phaseSize_le M (p.cyclesCruise M) .cruise
  obtain ⟨code₁, hcode₁⟩ : ∃ code, code = emitProfilePhase M p insts (p.cyclesAccel M) .accel :=
    ⟨_, rfl⟩
  obtain ⟨code₂, hcode₂⟩ : ∃ code, code = emitProfilePhase M p code₁ (p.cyclesCruise M) .cruise :=
    ⟨_, rfl⟩
  have hlen₁ : code₁.length = insts.length + p.phaseSize M (p.cyclesAccel M) .accel :=
    hcode₁ ▸ length_emitProfilePhase insts _ _
  have hlen₂ : code₂.length = code₁.length + p.phaseSize M (p.cyclesCruise M) .cruise :=
    hcode₂ ▸ length_emitProfilePhase code₁ _ _
  have htargets₁ := jumpTargets_emitProfilePhase (M := M) (p := p)
    (show insts.length + 3 < 2 ^ 32 by omega)
    (p.cyclesAccel M) .accel
  have htargets₂ := jumpTargets_emitProfilePhase (M := M) (p := p)
    (show code₁.length + 3 < 2 ^ 32 by omega)
    (p.cyclesCruise M) .cruise
  have htargets := jumpTargets_emitProfilePhase (M := M) (p := p)
    (show code₂.length + 3 < 2 ^ 32 by omega)
    (p.cyclesAccel M) .decel
  rw [← hcode₁, hnone, List.nil_append] at htargets₁
  rw [← hcode₂, htargets₁] at htargets₂
  rw [htargets₂] at htargets
  rw [← hcode₁, ← hcode₂]
  have hsize : p.size M = 4 + p.movedAxes M + p.phaseSize M (p.cyclesAccel M) .accel +
      p.phaseSize M (p.cyclesCruise M) .cruise + p.phaseSize M (p.cyclesAccel M) .decel := by
    rw [TrapezoidalProfile.size, if_pos hlong]
  have hfirst : p.firstLoop M = 7 + p.movedAxes M := by
    rw [TrapezoidalProfile.firstLoop, if_pos hlong]
  have hloop : p.hasLoop M = (p.cyclesAccel M != 0 || p.cyclesCruise M != 0) := by
    rw [TrapezoidalProfile.hasLoop, hlong]
    rfl
  refine ⟨?_, ?_, ?_, ?_⟩
  · rw [length_emitProfilePhase, hsize]
    omega
  · intro t ht
    rw [htargets] at ht
    rw [hfirst, hsize]
    rcases List.mem_append.mp ht with ht | ht
    · rcases List.mem_append.mp ht with ht | ht
      · split at ht
        · cases ht
        · obtain rfl := List.mem_singleton.mp ht
          have := p.le_phaseSize M ‹p.cyclesAccel M ≠ 0› .accel
          omega
      · split at ht
        · cases ht
        · obtain rfl := List.mem_singleton.mp ht
          have := p.le_phaseSize M ‹p.cyclesCruise M ≠ 0› .cruise
          omega
    · split at ht
      · cases ht
      · obtain rfl := List.mem_singleton.mp ht
        have := p.le_phaseSize M ‹p.cyclesAccel M ≠ 0› .decel
        omega
  · intro h
    rw [hloop] at h
    rw [htargets, hfirst]
    by_cases haccel0 : p.cyclesAccel M = 0
    · have hcruise0 : p.cyclesCruise M ≠ 0 := by simpa [haccel0] using h
      have hnil : p.phaseSize M (p.cyclesAccel M) .accel = 0 := by
        rw [TrapezoidalProfile.phaseSize, if_pos haccel0]
      simp only [haccel0, hcruise0, if_true, if_false, List.nil_append, List.append_nil,
        List.mem_singleton]
      omega
    · rw [if_neg haccel0]
      simp only [List.mem_append, List.mem_singleton]
      omega
  · intro h
    rw [hloop] at h
    have hzero : p.cyclesAccel M = 0 ∧ p.cyclesCruise M = 0 := by simpa using h
    rw [htargets, if_pos hzero.1, if_pos hzero.1, if_pos hzero.2]
    rfl

/-- A long move is always compiled. -/
theorem exists_generateTrapezoidalProgram (hlong : p.isLong M = true) :
    ∃ program, generateTrapezoidalProgram M p = .ok program := by
  have hcruise : P.f64.gt (p.distCruise M) P.f64.zero = true := hlong
  rw [generateTrapezoidalProgram, emitG1]
  cases P.f64.lt (p.distance M) (P.f64.lit 1 9) with
  | true => exact ⟨_, rfl⟩
  | false =>
      rw [if_neg Bool.false_ne_true, if_pos hcruise]
      exact ⟨_, rfl⟩

/-- The layout of the program of a move that has a length. -/
theorem generateTrapezoidalProgram_layout {program : HalProgram P}
    (hlength : P.f64.lt (p.distance M) (P.f64.lit 1 9) = false)
    (h : generateTrapezoidalProgram M p = .ok program) : Layout M p program.instructions := by
  obtain ⟨insts, hinsts, hprogram⟩ := bind_eq_ok h
  obtain rfl := Except.ok.inj hprogram
  rw [emitG1, hlength, if_neg Bool.false_ne_true] at hinsts
  cases hlong : p.isLong M with
  | true =>
      rw [if_pos (show P.f64.gt (p.distCruise M) P.f64.zero = true from hlong)] at hinsts
      obtain rfl := Except.ok.inj hinsts
      refine emitProfilePhases_layout hlong ?_ ?_
      · rw [List.length_append, length_loadStartYZ]
        rfl
      · rw [jumpTargets_append, jumpTargets_loadStartYZ]
        rfl
  | false =>
      rw [if_neg (by rw [← TrapezoidalProfile.isLong, hlong]; exact Bool.false_ne_true)] at hinsts
      have hsize : p.size M = 21 + 5 * p.movedAxes M := by
        rw [TrapezoidalProfile.size, hlong, if_neg Bool.false_ne_true]
      have hfirst : p.firstLoop M = 8 + p.movedAxes M := by
        rw [TrapezoidalProfile.firstLoop, hlong, if_neg Bool.false_ne_true]
      have hloop : p.hasLoop M = true := by
        rw [TrapezoidalProfile.hasLoop, hlong]
        rfl
      obtain ⟨hlen, htargets⟩ := emitTriangularMotion_layout rfl rfl hinsts
      refine ⟨hlen.trans hsize.symm, ?_, ?_, ?_⟩
      · intro t ht
        rw [htargets] at ht
        rw [hfirst, hsize]
        simp only [List.mem_cons, List.not_mem_nil, or_false] at ht
        omega
      · intro _
        rw [htargets, hfirst]
        simp
      · rw [hloop]
        exact nofun

end Weftik.Motion
