import Weftik.Motion.Exact
import Weftik.Motion.Loop

/-!
# How Far a Motion Profile Travels

Over real arithmetic, each cycle of a profile moves every axis along the path of the move, by
the length that the velocity and the cycle time give. So the position of an axis at any time
is its share of the length travelled so far, and the lengths of the phases add up: what the
acceleration falls short of the speed of the cruise, the deceleration exceeds it by.

## Main definitions

* `posAt`: the position when a length has been travelled.
* `Located`, `ShowsAt`: the position in the registers and among the signals.
* `Phase.travel`: the length that some cycles of a phase travel.

## Main results

* `iterate_cycle`: the cycles of a phase.
* `takes_longCode`: how far a long move travels.
* `takes_shortCode_travel`: a short move travels backwards, or not at all.
-/

namespace Weftik.Motion

open Symbolic TrapezoidalProfile

open scoped Classical

variable {c : Bool} (p : TrapezoidalProfile (Platform.real c))

/-- The position of an axis with a start position and a displacement when the move has
travelled a length. -/
noncomputable def axisAt (start d s : ℝ) : ℝ := start + s * (d / p.pathLength)

/-- The position when the move has travelled a length. -/
noncomputable def posAt (s : ℝ) : Position (Platform.real c) :=
  ⟨axisAt p p.startX p.dx s, axisAt p p.startY p.dy s, axisAt p p.startZ p.dz s⟩

variable {p}

/-- A cycle travels the velocity times the cycle time. -/
theorem stepped_posAt (vel s : ℝ) :
    stepped (FloatMath.real c) p vel (posAt p s) = posAt p (s + vel * p.dt) := by
  have haxis : ∀ start d : ℝ,
      axisAt p start d s + vel * p.dt * (d / p.distance (FloatMath.real c)) =
        axisAt p start d (s + vel * p.dt) := by
    intro start d
    rw [distance_real, axisAt, axisAt]
    ring
  exact Position.ext (haxis _ _) (haxis _ _) (haxis _ _)

/-- The registers hold the positions at a travelled length. -/
def Located (p : TrapezoidalProfile (Platform.real c)) (s : ℝ)
    (l : LoopState (Platform.real c)) : Prop :=
  At (FloatMath.real c) p (posAt p s) l

/-- The second table is the first one with the positions at a travelled length stored. -/
def ShowsAt (p : TrapezoidalProfile (Platform.real c)) (s : ℝ)
    (t t' : SignalTable (Platform.real c)) : Prop :=
  Shows (FloatMath.real c) p (posAt p s) t t'

variable {l : LoopState (Platform.real c)} {s : ℝ}

/-- The axes are moved. -/
theorem Located.move (h : Located p s l) :
    Located p (s + l.vel * p.dt) (l.move (FloatMath.real c) p) ∧
      ShowsAt p (s + l.vel * p.dt) l.table (l.move (FloatMath.real c) p).table := by
  have hmove := At.move h
  rw [stepped_posAt] at hmove
  exact hmove

/-! ### The cycles of a phase -/

/-- What a phase does to the velocity. -/
def Phase.sign : Phase → ℝ
  | .accel => 1
  | .cruise => 0
  | .decel => -1

/-- The length that some cycles of a phase travel, from a velocity on. -/
noncomputable def Phase.travel (phase : Phase) (v w dt : ℝ) (i : ℕ) : ℝ :=
  (i * v + phase.sign * (i * (i - 1) / (2 : ℕ)) * w) * dt

theorem Phase.travel_zero (phase : Phase) (v w dt : ℝ) : phase.travel v w dt 0 = 0 := by
  simp [Phase.travel]

theorem Phase.travel_succ (phase : Phase) (v w dt : ℝ) (i : ℕ) :
    phase.travel v w dt (i + 1) =
      phase.travel v w dt i + (v + phase.sign * i * w) * dt := by
  simp only [Phase.travel]
  push_cast
  ring

/-- One cycle of a phase. -/
theorem cycle_spec (phase : Phase) (h : Located p s l) :
    let l' := l.cycle (FloatMath.real c) p phase
    l'.counter = l.counter - 1 ∧ l'.vel = l.vel + phase.sign * l.vstep ∧ l'.vstep = l.vstep ∧
      Located p (s + l.vel * p.dt) l' ∧ ShowsAt p (s + l.vel * p.dt) l.table l'.table := by
  obtain ⟨hlocated, hshows⟩ := h.move
  have hone : FloatOps.real.lit 1 0 = 1 := by simp
  cases phase with
  | accel =>
      refine ⟨?_, ?_, rfl, At.congr hlocated rfl rfl rfl, hshows⟩
      · rw [← hone]; rfl
      · rw [Phase.sign, one_mul]; rfl
  | cruise =>
      refine ⟨?_, ?_, rfl, At.congr hlocated rfl rfl rfl, hshows⟩
      · rw [← hone]; rfl
      · rw [Phase.sign, zero_mul, add_zero]; rfl
  | decel =>
      refine ⟨?_, ?_, rfl, At.congr hlocated rfl rfl rfl, hshows⟩
      · rw [← hone]; rfl
      · rw [Phase.sign, neg_one_mul, ← sub_eq_add_neg]; rfl

/-- The cycles of a phase: the counter, the velocity and the position after `i` of them. -/
theorem iterate_cycle (phase : Phase) (h : Located p s l) (i : ℕ) :
    let l' := (LoopState.cycle (FloatMath.real c) p phase)^[i] l
    let s' := s + phase.travel l.vel l.vstep p.dt i
    l'.counter = l.counter - i ∧ l'.vel = l.vel + phase.sign * i * l.vstep ∧
      l'.vstep = l.vstep ∧ Located p s' l' ∧ (0 < i → ShowsAt p s' l.table l'.table) := by
  induction i with
  | zero =>
      refine ⟨?_, ?_, rfl, ?_, fun h => absurd h (lt_irrefl 0)⟩
      · simp
      · simp
      · rw [Phase.travel_zero, add_zero]
        exact h
  | succ i ih =>
      obtain ⟨hcounter, hvel, hvstep, hlocated, hshows⟩ := ih
      have hcycle := cycle_spec phase hlocated
      rw [← Function.iterate_succ_apply' (LoopState.cycle (FloatMath.real c) p phase)] at hcycle
      obtain ⟨hcounter', hvel', hvstep', hlocated', hshows'⟩ := hcycle
      have htravel : s + phase.travel l.vel l.vstep p.dt i +
          ((LoopState.cycle (FloatMath.real c) p phase)^[i] l).vel * p.dt =
            s + phase.travel l.vel l.vstep p.dt (i + 1) := by
        rw [hvel, Phase.travel_succ]
        ring
      rw [htravel] at hlocated' hshows'
      refine ⟨?_, ?_, hvstep'.trans hvstep, hlocated', fun _ => ?_⟩
      · rw [hcounter', hcounter]
        push_cast
        ring
      · rw [hvel', hvel, hvstep]
        push_cast
        ring
      · rcases Nat.eq_zero_or_pos i with rfl | hi
        · exact hshows'
        · exact (hshows hi).trans hshows'

/-- The start of a phase: its velocity and its step. -/
theorem start_spec (phase : Phase) (phaseCycles : UInt32) (l : LoopState (Platform.real c)) :
    let l' := l.start (FloatMath.real c) p phase phaseCycles
    l'.counter = phaseCycles.toNat ∧ l'.vel = (if phase = .accel then 0 else p.speed) ∧
      l'.vstep = p.acceleration * p.dt := by
  refine ⟨rfl, ?_, rfl⟩
  rw [← vTarget_real p, ← FloatOps.real_zero]
  rfl

/-- The length that a phase travels. -/
noncomputable def phaseTravel (p : TrapezoidalProfile (Platform.real c)) (phase : Phase)
    (phaseCycles : UInt32) : ℝ :=
  phase.travel (if phase = .accel then 0 else p.speed) (p.acceleration * p.dt) p.dt
    phaseCycles.toNat

/-- All the cycles of a phase. -/
theorem iterate_phase (phase : Phase) {phaseCycles : UInt32} (hn : 0 < phaseCycles.toNat)
    (h : Located p s l) :
    let l' := (LoopState.cycle (FloatMath.real c) p phase)^[phaseCycles.toNat]
      (l.start (FloatMath.real c) p phase phaseCycles)
    Located p (s + phaseTravel p phase phaseCycles) l' ∧
      ShowsAt p (s + phaseTravel p phase phaseCycles) l.table l'.table := by
  obtain ⟨-, hvel, hvstep⟩ := start_spec (p := p) phase phaseCycles l
  have hstart : Located p s (l.start (FloatMath.real c) p phase phaseCycles) :=
    At.congr h rfl rfl rfl
  obtain ⟨-, -, -, hlocated, hshows⟩ := iterate_cycle phase hstart phaseCycles.toNat
  rw [hvel, hvstep] at hlocated hshows
  exact ⟨hlocated, hshows hn⟩

/-- The counter after some cycles of a phase is above zero as long as cycles are left. -/
theorem counter_gt_zero (phase : Phase) (phaseCycles : UInt32) (h : Located p s l) (i : ℕ) :
    (Platform.real c).f64.gt (((LoopState.cycle (FloatMath.real c) p phase)^[i]
      (l.start (FloatMath.real c) p phase phaseCycles)).counter) (Platform.real c).f64.zero =
        decide (i < phaseCycles.toNat) := by
  obtain ⟨hcounter, -, -⟩ := start_spec (p := p) phase phaseCycles l
  have hstart : Located p s (l.start (FloatMath.real c) p phase phaseCycles) :=
    At.congr h rfl rfl rfl
  rw [FloatOps.real_gt, FloatOps.real_zero, (iterate_cycle phase hstart i).1, hcounter,
    decide_eq_decide, sub_pos, Nat.cast_lt]

/-- What the deceleration travels beyond the acceleration makes up for what the acceleration
lacks: all cycles together travel at the speed of the cruise. -/
theorem phaseTravel_add (naccel ncruise : UInt32) :
    phaseTravel p .accel naccel + phaseTravel p .cruise ncruise + phaseTravel p .decel naccel =
      (naccel.toNat + ncruise.toNat) * (p.speed * p.dt) := by
  simp only [phaseTravel, Phase.travel, Phase.sign, if_true, reduceCtorEq, if_false]
  ring

/-! ### Long moves -/

theorem posAt_zero : posAt p 0 = p.startPos := by
  ext <;> simp [posAt, axisAt, startPos]

/-- The registers in front of the first phase. -/
theorem located_atStart (vm : Vm (Platform.real c)) :
    Located p 0 (.atStart (FloatMath.real c) p vm) := by
  rw [Located, posAt_zero]
  exact at_atStart vm

/-- A phase is run after the code that it was generated behind: at the beginning of a program,
where its jump goes to its own loop, or anywhere if it has one cycle. -/
theorem Reaches.phase {vm : Vm (Platform.real c)} {pc : ℕ}
    {code : List (Instruction (Platform.real c))}
    (h : Reaches (FloatMath.real c) p vm pc code (posAt p s) l) (hlen : code.length + 3 < 2 ^ 32)
    (phase : Phase) {phaseCycles : UInt32} (hn : 0 < phaseCycles.toNat)
    (hjump : pc = 0 ∨ phaseCycles.toNat = 1) :
    ∃ l', Reaches (FloatMath.real c) p vm pc
        (code ++ phaseCode (FloatMath.real c) p code.length phaseCycles phase)
        (posAt p (s + phaseTravel p phase phaseCycles)) l' ∧
      ShowsAt p (s + phaseTravel p phase phaseCycles) vm.signals l'.table ∧
      (code ++ phaseCode (FloatMath.real c) p code.length phaseCycles phase).length ≤
        code.length + 20 := by
  have hphase := length_phaseCode_le (M := FloatMath.real c) (p := p) code.length phaseCycles phase
  have hiterate := iterate_phase phase hn h.position
  have htakes : Takes (pc + code.length)
      (phaseCode (FloatMath.real c) p code.length phaseCycles phase) (l.located p)
      (((LoopState.cycle (FloatMath.real c) p phase)^[phaseCycles.toNat]
        (l.start (FloatMath.real c) p phase phaseCycles)).located p) := by
    rcases hjump with rfl | hone
    · rw [Nat.zero_add]
      exact takes_phase hlen hn fun i _ => counter_gt_zero phase phaseCycles h.position (i + 1)
    · have hcounter := counter_gt_zero phase phaseCycles h.position 1
      rw [hone, decide_eq_false (lt_irrefl 1)] at hcounter
      rw [hone]
      exact takes_phase_once hcounter
  exact ⟨_, ⟨h.takes.append htakes, hiterate.1,
    fun s' t' hshows => h.shows s' t' (hiterate.2.trans hshows)⟩, h.shows _ _ hiterate.2,
    by rw [List.length_append]; omega⟩

/-- A long move: its cycles, of which there are as many for the deceleration as for the
acceleration, travel at the speed of the cruise. -/
theorem takes_longCode {pc : ℕ} (haccel : 0 < (p.cyclesAccel (FloatMath.real c)).toNat)
    (hcruise : 0 < (p.cyclesCruise (FloatMath.real c)).toNat)
    (hjump : pc = 0 ∨ ((p.cyclesAccel (FloatMath.real c)).toNat = 1 ∧
      (p.cyclesCruise (FloatMath.real c)).toNat = 1)) (vm : Vm (Platform.real c)) :
    ∃ l : LoopState (Platform.real c),
      Takes pc (longCode (FloatMath.real c) p) (ofVm vm) (l.located p) ∧
      ShowsAt p (((p.cyclesAccel (FloatMath.real c)).toNat +
        (p.cyclesCruise (FloatMath.real c)).toNat) * (p.speed * p.dt)) vm.signals l.table := by
  have hmoved := p.movedAxes_le (FloatMath.real c)
  have hlen := length_longStart (M := FloatMath.real c) (p := p)
  have hstart := Reaches.longStart (M := FloatMath.real c) (p := p) pc vm
  rw [← posAt_zero] at hstart
  obtain ⟨l₁, hreaches₁, -, hlen₁⟩ := hstart.phase (by omega) .accel haccel
    (hjump.imp_right And.left)
  obtain ⟨l₂, hreaches₂, -, hlen₂⟩ := hreaches₁.phase (by omega) .cruise hcruise
    (hjump.imp_right And.right)
  obtain ⟨l₃, hreaches₃, hshows, -⟩ := hreaches₂.phase (by omega) .decel haccel
    (hjump.imp_right And.left)
  rw [zero_add, phaseTravel_add] at hshows
  exact ⟨l₃, hreaches₃.takes, hshows⟩

/-! ### Short moves -/

/-- The share of an axis in a path is at most the whole of it. -/
theorem lastRatio_le_one (h : 0 < p.pathLength) : lastRatio (FloatMath.real c) p ≤ (1 : ℝ) := by
  have hle : ∀ d : ℝ, d ^ 2 ≤ p.dx ^ 2 + p.dy ^ 2 + p.dz ^ 2 → d / p.pathLength ≤ 1 :=
    fun d hd => (div_le_one h).mpr (Real.le_sqrt_of_sq_le hd)
  have hx := hle p.dx (by nlinarith [sq_nonneg p.dy, sq_nonneg p.dz])
  have hy := hle p.dy (by nlinarith [sq_nonneg p.dx, sq_nonneg p.dz])
  have hz := hle p.dz (by nlinarith [sq_nonneg p.dx, sq_nonneg p.dy])
  rw [lastRatio, distance_real]
  split
  · exact hz
  · split
    · exact hy
    · exact hx

/-- One cycle of a short move. The velocity decreases while at least two cycles are left, as
the counter is compared with the share of an axis. -/
theorem shortCycle_spec (hlength : 0 < p.pathLength) (h : Located p s l) :
    let l' := l.shortCycle (FloatMath.real c) p
    l'.counter = l.counter - 1 ∧ (1 < l.counter → l'.vel = l.vel - l.vstep) ∧
      l'.vstep = l.vstep ∧ Located p (s + l.vel * p.dt) l' ∧
      ShowsAt p (s + l.vel * p.dt) l.table l'.table := by
  obtain ⟨hlocated, hshows⟩ := h.move
  have hone : FloatOps.real.lit 1 0 = 1 := by simp
  have hratio := lastRatio_le_one (c := c) hlength
  have hcounter : (l.move (FloatMath.real c) p).counter = l.counter := rfl
  simp only [LoopState.shortCycle, LoopState.switchVel, hcounter, FloatOps.real_gt,
    decide_eq_true_iff]
  split
  · refine ⟨?_, fun _ => rfl, rfl, At.congr hlocated rfl rfl rfl, hshows⟩
    rw [← hone]; rfl
  · rename_i hle
    refine ⟨?_, fun hgt => absurd (hratio.trans_lt hgt) hle, rfl, At.congr hlocated rfl rfl rfl,
      hshows⟩
    rw [← hone]; rfl

/-- The cycles of a short move: while a cycle is to come the velocity is not positive, and so
the length travelled is not. -/
theorem iterate_shortCycle (hlength : 0 < p.pathLength) (hdt : 0 < p.dt) {n : ℕ} {counter : ℝ}
    (hcounter : ∀ i : ℕ, i + 1 < n → 1 < counter - i) (h : Located p 0 l)
    (hcount : l.counter = counter) (hvel : l.vel = 0) (hvstep : 0 ≤ l.vstep) {i : ℕ} (hi : i ≤ n) :
    let l' := (LoopState.shortCycle (FloatMath.real c) p)^[i] l
    l'.counter = counter - i ∧ l'.vstep = l.vstep ∧ (i < n → l'.vel ≤ 0) ∧
      ∃ s ≤ 0, Located p s l' ∧ (0 < i → ShowsAt p s l.table l'.table) := by
  induction i with
  | zero =>
      refine ⟨?_, rfl, fun _ => hvel.le, 0, le_rfl, h, fun h => absurd h (lt_irrefl 0)⟩
      simpa using hcount
  | succ i ih =>
      obtain ⟨hcounter', hvstep', hvel', s, hs, hlocated, hshows⟩ := ih (by omega)
      have hcycle := shortCycle_spec hlength hlocated
      rw [← Function.iterate_succ_apply' (LoopState.shortCycle (FloatMath.real c) p)] at hcycle
      obtain ⟨hcount₁, hvel₁, hvstep₁, hlocated₁, hshows₁⟩ := hcycle
      have hvneg := hvel' (by omega)
      refine ⟨?_, hvstep₁.trans hvstep', fun hi' => ?_, _, ?_, hlocated₁, fun _ => ?_⟩
      · rw [hcount₁, hcounter']
        push_cast
        ring
      · rw [hvel₁ (by rw [hcounter']; exact hcounter i hi'), hvstep']
        linarith
      · nlinarith
      · rcases Nat.eq_zero_or_pos i with rfl | hpos
        · exact hshows₁
        · exact (hshows hpos).trans hshows₁

/-- A short move travels backwards, or not at all. -/
theorem takes_shortCode_travel (hlength : 0 < p.pathLength) (hdt : 0 < p.dt) (total : UInt32)
    (vm : Vm (Platform.real c)) :
    ∃ s ≤ 0, ∃ l : LoopState (Platform.real c),
      Takes 0 (shortCode (FloatMath.real c) p total) (ofVm vm) (l.known p) ∧
      ShowsAt p s vm.signals l.table := by
  have hvstep : 0 ≤ (LoopState.atShortStart (FloatMath.real c) p
      ((FloatMath.real c).ofU32 total) vm).vstep :=
    div_nonneg (Real.sqrt_nonneg _) (Nat.cast_nonneg _)
  have hn : 0 < max total.toNat 1 := by omega
  have hcounter : ∀ i : ℕ, i + 1 < max total.toNat 1 → (1 : ℝ) < total.toNat - i := by
    intro i hi
    have hcast : ((i + 1 : ℕ) : ℝ) < (total.toNat : ℝ) := Nat.cast_lt.mpr (by omega)
    push_cast at hcast
    linarith
  have hstart : Located p 0 (.atShortStart (FloatMath.real c) p
      ((FloatMath.real c).ofU32 total) vm) :=
    At.congr (located_atStart vm) rfl rfl rfl
  have hiterate := fun {i : ℕ} hi => iterate_shortCycle (i := i) hlength hdt hcounter hstart rfl
    FloatOps.real_zero hvstep hi
  obtain ⟨-, -, -, s, hs, -, hshows⟩ := hiterate le_rfl
  refine ⟨s, hs, _, takes_shortCode hn fun i hi => ?_, hshows hn⟩
  rw [FloatOps.real_gt, FloatOps.real_zero, (hiterate (Nat.succ_le_of_lt hi)).1,
    decide_eq_decide, sub_pos, Nat.cast_lt]
  omega

end Weftik.Motion
