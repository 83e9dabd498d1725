import Weftik.Motion.Travel

/-!
# When a Motion Profile Ends on Its Target

The loops of a profile always end, and a long move has then travelled for a whole number of
cycles at the speed of its cruise. The acceleration and the cruise take whole numbers of
cycles by rounding up, so the move goes beyond its target unless nothing was rounded. A short
move never reaches its target: it travels backwards.

## Main definitions

* `EndsOnTarget`: a run of the program of the move ends with the axes on their targets.
* `WholeCycles`: the moves for which nothing is rounded, and no axis is overlooked.

## Main results

* `endsOnTarget_iff`: the two are the same.
-/

namespace Weftik.Motion

open Symbolic TrapezoidalProfile Machine Outcome Code

variable {c : Bool} (p : TrapezoidalProfile (Platform.real c))

/-- The displaced axes are on their targets. -/
structure OnTarget (t : SignalTable (Platform.real c)) : Prop where
  x : p.dx ≠ 0 → t "axis.0.pos" = some (.f64 (p.startX + p.dx))
  y : p.dy ≠ 0 → t "axis.1.pos" = some (.f64 (p.startY + p.dy))
  z : p.dz ≠ 0 → t "axis.2.pos" = some (.f64 (p.startZ + p.dz))

/-- The move is compiled, and its program, run from the first instruction and from any state
of the machine, reaches its end with the displaced axes on their targets. -/
def EndsOnTarget : Prop :=
  ∃ program, generateTrapezoidalProgram (FloatMath.real c) p = .ok program ∧
    ∀ vm : Vm (Platform.real c), vm.ip = 0 →
      ∃ vm', Steps (Vm.step program.instructions) vm vm' ∧
        vm'.ip = program.instructions.length ∧ OnTarget p vm'.signals

/-- The move is not too short to be noticed, as a whole and in each axis; it has a cruise; and
the whole cycles of its acceleration and its cruise are as many as it takes to cover its
length at full speed. -/
structure WholeCycles : Prop where
  noticed : 1 / 10 ^ 9 ≤ p.pathLength
  long : 0 < p.cruiseLength
  noticedY : p.dy ≠ 0 → Noticed p.dy
  noticedZ : p.dz ≠ 0 → Noticed p.dz
  whole : (units p.accelCycles + units p.cruiseCycles : ℝ) = p.accelCycles + p.cruiseCycles

variable {p}

/-! ### The length travelled and the target -/

/-- An axis is on its target when the whole length has been travelled. -/
theorem axisAt_eq_iff (hlength : 0 < p.pathLength) {start d s : ℝ} (hd : d ≠ 0) :
    axisAt p start d s = start + d ↔ s = p.pathLength := by
  rw [axisAt, add_right_inj]
  constructor
  · intro h
    field_simp at h
    exact h
  · rintro rfl
    field_simp

theorem ShowsAt.onTarget {t t' : SignalTable (Platform.real c)}
    (h : ShowsAt p p.pathLength t t') (hlength : 0 < p.pathLength)
    (hy : p.dy ≠ 0 → Noticed p.dy) (hz : p.dz ≠ 0 → Noticed p.dz) : OnTarget p t' := by
  refine ⟨fun hd => ?_, fun hd => ?_, fun hd => ?_⟩
  · rw [h.x, posAt, (axisAt_eq_iff hlength hd).mpr rfl]
  · rw [h.y, if_pos ((moves_real p.dy).mpr (hy hd)), posAt, (axisAt_eq_iff hlength hd).mpr rfl]
  · rw [h.z, if_pos ((moves_real p.dz).mpr (hz hd)), posAt, (axisAt_eq_iff hlength hd).mpr rfl]

/-- When no position was there at the beginning, an axis on its target has been moved, and
the whole length has been travelled. -/
theorem OnTarget.travelled {s : ℝ} {t' : SignalTable (Platform.real c)}
    (h : OnTarget p t') (hshows : ShowsAt p s (fun _ => none) t') (hlength : 0 < p.pathLength)
    (hdisp : p.dx ≠ 0 ∨ p.dy ≠ 0 ∨ p.dz ≠ 0) :
    s = p.pathLength ∧ (p.dy ≠ 0 → Noticed p.dy) ∧ (p.dz ≠ 0 → Noticed p.dz) := by
  have hinj : ∀ {a b : ℝ}, some (HalValue.f64 (P := Platform.real c) a) = some (.f64 b) →
      a = b := fun hab => HalValue.f64.inj (Option.some.inj hab)
  have hy : p.dy ≠ 0 → Noticed p.dy ∧ s = p.pathLength := by
    intro hd
    have htarget := h.y hd
    rw [hshows.y] at htarget
    split at htarget
    · exact ⟨(moves_real p.dy).mp ‹_›, (axisAt_eq_iff hlength hd).mp (hinj htarget)⟩
    · cases htarget
  have hz : p.dz ≠ 0 → Noticed p.dz ∧ s = p.pathLength := by
    intro hd
    have htarget := h.z hd
    rw [hshows.z] at htarget
    split at htarget
    · exact ⟨(moves_real p.dz).mp ‹_›, (axisAt_eq_iff hlength hd).mp (hinj htarget)⟩
    · cases htarget
  refine ⟨?_, fun hd => (hy hd).1, fun hd => (hz hd).1⟩
  rcases hdisp with hd | hd | hd
  · have htarget := h.x hd
    rw [hshows.x] at htarget
    exact (axisAt_eq_iff hlength hd).mp (hinj htarget)
  · exact (hy hd).2
  · exact (hz hd).2

/-! ### Runs to the end of the code -/

/-- The machine cannot go on past the end of the code. -/
theorem stuck_at_end {code : List (Instruction (Platform.real c))} {vm : Vm (Platform.real c)}
    (hip : vm.ip = code.length) : Stuck (Vm.step code) vm := by
  intro vm' hstep
  have hnone : code[vm.ip]? = none := by rw [hip, List.getElem?_eq_none_iff]
  simp only [Vm.step, hnone] at hstep
  cases hstep

/-- A run to the end of code whose effect is known. -/
theorem signals_at_end {code : List (Instruction (Platform.real c))}
    {vm vm' : Vm (Platform.real c)} {post : Symbolic (Platform.real c)} (hip : vm.ip = 0)
    (htakes : Takes 0 code (ofVm vm) post) (hsteps : Steps (Vm.step code) vm vm')
    (hend : vm'.ip = code.length) : vm'.signals = post.table := by
  have hcode : CodeAt code 0 code := List.prefix_refl code
  obtain ⟨vm₁, hsteps₁, hend₁, hholds⟩ := htakes code vm hip hcode (holds_ofVm vm)
  rw [Nat.zero_add] at hend₁
  obtain rfl := hsteps.unique hsteps₁ (stuck_at_end hend) (stuck_at_end hend₁)
  exact hholds.table

variable {program : HalProgram (Platform.real c)}

/-- A long move, at the beginning of a program or with one cycle in each phase, has travelled
its whole cycles at its speed. -/
theorem takes_long {pc : ℕ} (ha : 0 < p.acceleration) (hdt : 0 < p.dt)
    (hnoticed : 1 / 10 ^ 9 ≤ p.pathLength) (hlong : 0 < p.cruiseLength)
    (hprogram : generateTrapezoidalProgram (FloatMath.real c) p = .ok program)
    (hjump : pc = 0 ∨ (units p.accelCycles = 1 ∧ units p.cruiseCycles = 1))
    (vm : Vm (Platform.real c)) :
    ∃ l : LoopState (Platform.real c),
      Takes pc program.instructions (ofVm vm) (l.located p) ∧
      ShowsAt p ((units p.accelCycles + units p.cruiseCycles) * (p.speed * p.dt)) vm.signals
        l.table := by
  have haccel := toNat_cyclesAccel_pos (c := c) ha hdt
  have hcruise := toNat_cyclesCruise_pos (c := c) ha hdt hlong
  have hne : ∀ {n : UInt32}, 0 < n.toNat → n ≠ 0 := by
    rintro n hn rfl
    exact absurd hn (lt_irrefl 0)
  rw [generateTrapezoidalProgram_long (by rw [distance_lt_real, decide_eq_false hnoticed.not_gt])
    ((isLong_real p ha.ne').mpr hlong) (hne haccel) (hne hcruise) hprogram]
  rw [← toNat_cyclesAccel, ← toNat_cyclesCruise p ha.ne'] at hjump ⊢
  exact takes_longCode haccel hcruise hjump vm

/-- A short move has travelled backwards, or not at all. -/
theorem takes_short (ha : 0 < p.acceleration) (hdt : 0 < p.dt)
    (hnoticed : 1 / 10 ^ 9 ≤ p.pathLength) (hshort : p.cruiseLength ≤ 0)
    (hprogram : generateTrapezoidalProgram (FloatMath.real c) p = .ok program)
    (vm : Vm (Platform.real c)) :
    ∃ s ≤ 0, ∃ l : LoopState (Platform.real c),
      Takes 0 program.instructions (ofVm vm) (l.known p) ∧ ShowsAt p s vm.signals l.table := by
  have hlong : p.isLong (FloatMath.real c) = false := by
    rw [Bool.eq_false_iff, Ne, isLong_real p ha.ne', not_lt]
    exact hshort
  obtain ⟨total, htotal⟩ := generateTrapezoidalProgram_short
    (by rw [distance_lt_real, decide_eq_false hnoticed.not_gt]) hlong hprogram
  rw [htotal]
  exact takes_shortCode_travel (lt_of_lt_of_le (by positivity) hnoticed) hdt total vm

/-- A move that is not noticed has no code but its constants. -/
theorem takes_unnoticed (hnoticed : p.pathLength < 1 / 10 ^ 9)
    (hprogram : generateTrapezoidalProgram (FloatMath.real c) p = .ok program)
    (vm : Vm (Platform.real c)) :
    Takes 0 program.instructions (ofVm vm) (onlyTable vm.signals) := by
  rw [generateTrapezoidalProgram, emitG1, distance_lt_real, decide_eq_true hnoticed,
    if_pos rfl] at hprogram
  obtain rfl := Except.ok.inj hprogram
  exact takes_of_run rfl ⟨rfl, by rintro _ _ ⟨⟩, by rintro _ ⟨⟩⟩

/-! ### Moves that end on their targets -/

/-- The speed of the cruise, over one cycle, is not zero. -/
theorem speed_mul_dt_pos (hdt : 0 < p.dt) : 0 < p.speed * p.dt := mul_pos p.speed_pos hdt

/-- A move that ends on its target takes whole cycles. -/
theorem WholeCycles.of_endsOnTarget (ha : 0 < p.acceleration) (hdt : 0 < p.dt)
    (hdisp : p.dx ≠ 0 ∨ p.dy ≠ 0 ∨ p.dz ≠ 0) (h : EndsOnTarget p) : WholeCycles p := by
  obtain ⟨program, hprogram, hrun⟩ := h
  obtain ⟨vm', hsteps, hend, htarget⟩ := hrun Vm.new rfl
  have hlength := p.pathLength_pos hdisp
  rcases lt_or_ge p.pathLength (1 / 10 ^ 9) with hnoticed | hnoticed
  · rw [signals_at_end rfl (takes_unnoticed hnoticed hprogram Vm.new) hsteps hend] at htarget
    exfalso
    rcases hdisp with hd | hd | hd
    · exact absurd (htarget.x hd) nofun
    · exact absurd (htarget.y hd) nofun
    · exact absurd (htarget.z hd) nofun
  · rcases le_or_gt p.cruiseLength 0 with hlong | hlong
    · obtain ⟨s, hs, l, htakes, hshows⟩ := takes_short ha hdt hnoticed hlong hprogram Vm.new
      rw [signals_at_end rfl htakes hsteps hend] at htarget
      obtain ⟨rfl, -⟩ := htarget.travelled hshows hlength hdisp
      exact absurd hlength hs.not_gt
    · obtain ⟨l, htakes, hshows⟩ := takes_long ha hdt hnoticed hlong hprogram
        (Or.inl (rfl : 0 = 0)) Vm.new
      rw [signals_at_end rfl htakes hsteps hend] at htarget
      obtain ⟨htravel, hy, hz⟩ := htarget.travelled hshows hlength hdisp
      refine ⟨hnoticed, hlong, hy, hz, ?_⟩
      rw [← accelCycles_add_cruiseCycles ha hdt] at htravel
      exact mul_right_cancel₀ (speed_mul_dt_pos hdt).ne' htravel

/-- A move that takes whole cycles ends on its target. -/
theorem WholeCycles.endsOnTarget (ha : 0 < p.acceleration) (hdt : 0 < p.dt)
    (h : WholeCycles p) : EndsOnTarget p := by
  obtain ⟨program, hprogram⟩ :=
    exists_generateTrapezoidalProgram ((isLong_real (c := c) p ha.ne').mpr h.long)
  refine ⟨program, hprogram, fun vm hip => ?_⟩
  obtain ⟨l, htakes, hshows⟩ := takes_long ha hdt h.noticed h.long hprogram
    (Or.inl (rfl : 0 = 0)) vm
  obtain ⟨vm', hsteps, hend, hholds⟩ :=
    htakes program.instructions vm hip (List.prefix_refl _) (holds_ofVm vm)
  rw [Nat.zero_add] at hend
  rw [h.whole, accelCycles_add_cruiseCycles ha hdt] at hshows
  refine ⟨vm', hsteps, hend, ?_⟩
  rw [hholds.table]
  exact ShowsAt.onTarget hshows (lt_of_lt_of_le (by positivity) h.noticed) h.noticedY h.noticedZ

/-- A move ends on its target iff it takes whole cycles. -/
theorem endsOnTarget_iff (ha : 0 < p.acceleration) (hdt : 0 < p.dt)
    (hdisp : p.dx ≠ 0 ∨ p.dy ≠ 0 ∨ p.dz ≠ 0) : EndsOnTarget p ↔ WholeCycles p :=
  ⟨WholeCycles.of_endsOnTarget ha hdt hdisp, WholeCycles.endsOnTarget ha hdt⟩

/-! ### Two moves -/

/-- A move of the first axis at unit speed, acceleration and cycle time. -/
def unitMove (dx : ℝ) : TrapezoidalProfile (Platform.real true) where
  dx := dx
  dy := 0
  dz := 0
  feedrate := (60 : ℕ)
  acceleration := 1
  dt := 1
  startX := 0
  startY := 0
  startZ := 0

theorem speed_unitMove (dx : ℝ) : (unitMove dx).speed = 1 := by
  simp [speed, unitMove]

theorem accelCycles_unitMove (dx : ℝ) : (unitMove dx).accelCycles = 1 := by
  rw [accelCycles, speed_unitMove]
  simp [unitMove]

theorem cruiseLength_unitMove {dx : ℝ} (hdx : 0 ≤ dx) : (unitMove dx).cruiseLength = dx - 1 := by
  rw [cruiseLength, speed_unitMove, pathLength]
  simp [unitMove, Real.sqrt_sq hdx]

theorem cruiseCycles_unitMove {dx : ℝ} (hdx : 0 ≤ dx) : (unitMove dx).cruiseCycles = dx - 1 := by
  rw [cruiseCycles, cruiseLength_unitMove hdx, speed_unitMove]
  simp [unitMove]

/-- A move of two units takes one cycle to accelerate and one to cruise. -/
theorem unitMove_two_endsOnTarget : EndsOnTarget (unitMove 2) := by
  refine (endsOnTarget_iff (p := unitMove 2) one_pos one_pos (Or.inl two_ne_zero)).mpr ?_
  have hlength : (unitMove 2).pathLength = 2 := by
    rw [pathLength]
    simp [unitMove]
  refine ⟨?_, ?_, fun h => absurd rfl h, fun h => absurd rfl h, ?_⟩
  · rw [hlength]
    norm_num
  · rw [cruiseLength_unitMove zero_le_two]
    norm_num
  · rw [accelCycles_unitMove, cruiseCycles_unitMove zero_le_two]
    norm_num [units]

/-- A move of two and a half units goes on to three. -/
theorem unitMove_misses_target : ¬EndsOnTarget (unitMove (5 / 2)) := by
  intro h
  have hwhole := (WholeCycles.of_endsOnTarget (p := unitMove (5 / 2)) one_pos one_pos
    (Or.inl (by norm_num [unitMove])) h).whole
  rw [accelCycles_unitMove, cruiseCycles_unitMove (by norm_num)] at hwhole
  have hceil : ⌈(5 / 2 - 1 : ℝ)⌉₊ = 2 := by
    rw [Nat.ceil_eq_iff two_ne_zero]
    norm_num
  rw [units, units, hceil, Nat.ceil_one] at hwhole
  norm_num at hwhole

end Weftik.Motion
