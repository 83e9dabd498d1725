import Weftik.Motion.Cycles
import Weftik.Motion.Target

/-!
# When the Velocity of a Motion Profile Stays in Its Bounds

A long move is smooth if its acceleration is not cut off at the largest counter, and if its
cycles, which are rounded up, do not take it past its target. A short move is not: the register
that holds the half of its cycles is overwritten by the steps of the axes, and so its second
cycle already decelerates, from a velocity of zero, and goes backwards.

## Main definitions

* `Smooth`: the property of a move, in every state of every run.
* `SmoothVel`: the same of the velocities of its cycles.
* `SmoothMove`: the moves that have it.

## Main results

* `smooth_iff`: which moves are smooth.
-/

open Machine

namespace Weftik.Motion

open Symbolic TrapezoidalProfile

variable {c : Bool} (p : TrapezoidalProfile (Platform.real c))

/-! ### Smooth runs -/

/-- An axis that is between its start and its target goes on to a position that is between its
own and the target. -/
def Towards (start d a b : ℝ) : Prop :=
  a ∈ Set.uIcc start (start + d) ∧ b ∈ Set.uIcc a (start + d)

/-- A register of two states goes towards a target. -/
def AxisTowards (r : ℕ) (start d : ℝ) (vm vm' : Vm (Platform.real c)) : Prop :=
  ∃ a b : ℝ, vm.reg r = .f64 a ∧ vm'.reg r = .f64 b ∧ Towards start d a b

/-- The axes that move go towards their targets. -/
structure AxesTowards (vm vm' : Vm (Platform.real c)) : Prop where
  x : AxisTowards regPosX p.startX p.dx vm vm'
  y : Noticed p.dy → AxisTowards regPosY p.startY p.dy vm vm'
  z : Noticed p.dz → AxisTowards regPosZ p.startZ p.dz vm vm'

/-- The second state is the next beginning of a cycle after the first one, or it is the end of
the code. -/
structure NextCycle (code : List (Instruction (Platform.real c)))
    (vm vm' : Vm (Platform.real c)) : Prop where
  run : ∃ vm₁, Vm.step code vm = .next vm₁ ∧ Quiet (Vm.step code) (AtLoop code) vm₁ vm'
  stop : AtLoop code vm' ∨ vm'.ip = code.length

/-- A cycle is in the bounds: its velocity, its difference to the next one, and its step. -/
structure SmoothCycle (code : List (Instruction (Platform.real c)))
    (vm : Vm (Platform.real c)) : Prop where
  velocity : ∃ v : ℝ, vm.reg regVel = .f64 v ∧ 0 ≤ v ∧ v ≤ p.speed
  change : ∀ vm', NextCycle code vm vm' → AtLoop code vm' →
    ∃ v w : ℝ, vm.reg regVel = .f64 v ∧ vm'.reg regVel = .f64 w ∧
      |w - v| ≤ p.acceleration * p.dt
  step : ∀ vm', NextCycle code vm vm' → AxesTowards p vm vm'

/-- Every cycle that a run comes to is in the bounds. -/
def SmoothFrom (code : List (Instruction (Platform.real c))) (vm : Vm (Platform.real c)) : Prop :=
  ∀ vm', Steps (Vm.step code) vm vm' → AtLoop code vm' → SmoothCycle p code vm'

/-- The program of the move is smooth from any state of the machine, as far as there is one. -/
def Smooth : Prop :=
  ∀ program, generateTrapezoidalProgram (FloatMath.real c) p = .ok program →
    ∀ vm : Vm (Platform.real c), vm.ip = 0 → SmoothFrom p program.instructions vm

/-! ### Smooth velocities -/

/-- The move has an axis that moves. -/
def Moved : Prop := p.dx ≠ 0 ∨ Noticed p.dy ∨ Noticed p.dz

/-- The velocities of the cycles are in the bounds, and they do not travel too far. -/
structure SmoothVel (vel : ℕ → ℝ) (n : ℕ) : Prop where
  velocity : ∀ j < n, 0 ≤ vel j ∧ vel j ≤ p.speed
  change : ∀ j, j + 1 < n → |vel (j + 1) - vel j| ≤ p.acceleration * p.dt
  within : Moved p → travelled p.dt vel n ≤ p.pathLength

variable {p}

/-- The target is where the length of the path leads. -/
theorem axisAt_pathLength (hlength : 0 < p.pathLength) (start d : ℝ) :
    axisAt p start d p.pathLength = start + d := by
  rw [axisAt, mul_div_cancel₀ _ hlength.ne']

theorem axisAt_zero (start d : ℝ) : axisAt p start d 0 = start := by
  rw [axisAt, zero_mul, add_zero]

variable {s t : ℝ} {start d : ℝ}

/-- The positions of an axis are in the order of the lengths, or in the reverse one. -/
theorem axisAt_mem_uIcc (hlength : 0 < p.pathLength) (hd : d ≠ 0) {r : ℝ} :
    axisAt p start d s ∈ Set.uIcc (axisAt p start d r) (axisAt p start d t) ↔
      s ∈ Set.uIcc r t := by
  have hlt : ∀ {u v : ℝ}, axisAt p start d u ≤ axisAt p start d v ↔
      u * (d / p.pathLength) ≤ v * (d / p.pathLength) := by
    intro u v
    rw [axisAt, axisAt, add_le_add_iff_left]
  simp only [Set.mem_uIcc, hlt]
  rcases lt_or_gt_of_ne hd with hneg | hpos
  · simp only [mul_le_mul_right_of_neg (div_neg_of_neg_of_pos hneg hlength)]
    tauto
  · simp only [mul_le_mul_iff_of_pos_right (div_pos hpos hlength)]

/-- An axis goes towards its target iff the length does. -/
theorem towards_axisAt (hlength : 0 < p.pathLength) (hd : d ≠ 0) :
    Towards start d (axisAt p start d s) (axisAt p start d t) ↔
      s ∈ Set.uIcc 0 p.pathLength ∧ t ∈ Set.uIcc s p.pathLength := by
  have hs : axisAt p start d s ∈ Set.uIcc (axisAt p start d 0) (axisAt p start d p.pathLength) ↔
      s ∈ Set.uIcc 0 p.pathLength := axisAt_mem_uIcc hlength hd
  have ht : axisAt p start d t ∈ Set.uIcc (axisAt p start d s) (axisAt p start d p.pathLength) ↔
      t ∈ Set.uIcc s p.pathLength := axisAt_mem_uIcc hlength hd
  rw [axisAt_zero, axisAt_pathLength hlength] at hs
  rw [axisAt_pathLength hlength] at ht
  exact and_congr hs ht

theorem towards_of_le (hlength : 0 < p.pathLength) (start d : ℝ) (hs : 0 ≤ s) (hst : s ≤ t)
    (ht : d ≠ 0 → t ≤ p.pathLength) :
    Towards start d (axisAt p start d s) (axisAt p start d t) := by
  rcases eq_or_ne d 0 with rfl | hd
  · simp [Towards, axisAt]
  · rw [towards_axisAt hlength hd, Set.uIcc_of_le hlength.le, Set.uIcc_of_le (hst.trans (ht hd))]
    exact ⟨⟨hs, hst.trans (ht hd)⟩, hst, ht hd⟩

theorem le_of_towards (hlength : 0 < p.pathLength) (hd : d ≠ 0)
    (h : Towards start d (axisAt p start d s) (axisAt p start d t)) : t ≤ p.pathLength := by
  obtain ⟨hs, ht⟩ := (towards_axisAt hlength hd).mp h
  rw [Set.uIcc_of_le hlength.le] at hs
  rw [Set.uIcc_of_le hs.2] at ht
  exact ht.2

theorem travelled_nonneg (hdt : 0 < p.dt) {vel : ℕ → ℝ} {n : ℕ} (hvel : ∀ j < n, 0 ≤ vel j)
    {j : ℕ} (hj : j ≤ n) : 0 ≤ travelled p.dt vel j :=
  Finset.sum_nonneg fun i hi =>
    mul_nonneg (hvel i (lt_of_lt_of_le (Finset.mem_range.mp hi) hj)) hdt.le

theorem travelled_le (hdt : 0 < p.dt) {vel : ℕ → ℝ} {n : ℕ} (hvel : ∀ j < n, 0 ≤ vel j)
    {i j : ℕ} (hij : i ≤ j) (hj : j ≤ n) : travelled p.dt vel i ≤ travelled p.dt vel j := by
  refine Finset.sum_le_sum_of_subset_of_nonneg (Finset.range_subset_range.mpr hij)
    fun k hk _ => ?_
  exact mul_nonneg (hvel k (lt_of_lt_of_le (Finset.mem_range.mp hk) hj)) hdt.le

theorem ne_zero_of_noticed (h : Noticed d) : d ≠ 0 := by
  rintro rfl
  rw [Noticed, abs_zero] at h
  norm_num at h

/-- The axes go towards their targets if the length travelled does. -/
theorem PositionAt.axesTowards (hlength : 0 < p.pathLength) {vm vm' : Vm (Platform.real c)}
    (h : PositionAt p s vm) (h' : PositionAt p t vm') (hs : 0 ≤ s) (hst : s ≤ t)
    (ht : Moved p → t ≤ p.pathLength) : AxesTowards p vm vm' where
  x := ⟨_, _, h.x, h'.x, towards_of_le hlength _ _ hs hst fun hd => ht (Or.inl hd)⟩
  y hy := ⟨_, _, h.y hy, h'.y hy,
    towards_of_le hlength _ _ hs hst fun _ => ht (Or.inr (Or.inl hy))⟩
  z hz := ⟨_, _, h.z hz, h'.z hz,
    towards_of_le hlength _ _ hs hst fun _ => ht (Or.inr (Or.inr hz))⟩

theorem AxisTowards.towards {r : ℕ} {a b : ℝ} {vm vm' : Vm (Platform.real c)}
    (h : AxisTowards r start d vm vm') (ha : vm.reg r = .f64 a) (hb : vm'.reg r = .f64 b) :
    Towards start d a b := by
  obtain ⟨a', b', ha', hb', htowards⟩ := h
  obtain rfl := HalValue.f64.inj (ha.symm.trans ha')
  obtain rfl := HalValue.f64.inj (hb.symm.trans hb')
  exact htowards

/-- If the axes go towards their targets, the length travelled does. -/
theorem AxesTowards.le (hlength : 0 < p.pathLength) {vm vm' : Vm (Platform.real c)}
    (h : AxesTowards p vm vm') (hs : PositionAt p s vm) (ht : PositionAt p t vm')
    (hmoved : Moved p) : t ≤ p.pathLength := by
  rcases hmoved with hd | hy | hz
  · exact le_of_towards hlength hd (h.x.towards hs.x ht.x)
  · exact le_of_towards hlength (ne_zero_of_noticed hy) ((h.y hy).towards (hs.y hy) (ht.y hy))
  · exact le_of_towards hlength (ne_zero_of_noticed hz) ((h.z hz).towards (hs.z hz) (ht.z hz))

/-! ### Runs that visit their cycles -/

section

variable {code : List (Instruction (Platform.real c))} {vel : ℕ → ℝ} {n : ℕ}
  {vm vmEnd : Vm (Platform.real c)}

/-- The end of the code is not the beginning of a cycle. -/
theorem AtLoop.ip_ne {vm : Vm (Platform.real c)} (h : AtLoop code vm) : vm.ip ≠ code.length := by
  intro hip
  rw [AtLoop, hip, List.getElem?_eq_none_iff.mpr le_rfl] at h
  cases h

/-- The cycles of a run follow each other. -/
theorem passes_nextCycle {vm vm' : Vm (Platform.real c)} {k : ℕ}
    (h : Passes (Vm.step code) (AtLoop code) (CycleAt p vel) k vm n vmEnd)
    (hend : vmEnd.ip = code.length) (hpos : PositionAt p (travelled p.dt vel n) vmEnd)
    (hloop : AtLoop code vm) (hnext : NextCycle code vm vm') :
    k < n ∧ CycleAt p vel k vm ∧ PositionAt p (travelled p.dt vel (k + 1)) vm' ∧
      (AtLoop code vm' → k + 1 < n ∧ vm'.reg regVel = .f64 (vel (k + 1))) := by
  rcases h.visited hloop with ⟨rfl, -⟩ | ⟨hcycle, vm₁, hstep, hrest⟩
  · exact absurd hend hloop.ip_ne
  obtain ⟨⟨vm₂, hstep₂, hquiet⟩, hstop⟩ := hnext
  obtain rfl := Result.next.inj (hstep.symm.trans hstep₂)
  have hrest' := hrest.of_quiet (stuck_at_end hend) hquiet
  refine ⟨hrest.le, hcycle, ?_, fun hloop' => ?_⟩
  · rcases hstop with hloop' | hip
    · rcases hrest'.visited hloop' with ⟨rfl, -⟩ | ⟨hcycle', -⟩
      · exact absurd hend hloop'.ip_ne
      · exact hcycle'.position
    · cases hrest' with
      | refl => exact hpos
      | skip hstep' | visit hstep' => exact absurd hstep' (stuck_at_end hip _)
  · rcases hrest'.visited hloop' with ⟨rfl, -⟩ | ⟨hcycle', vm₃, -, hrest₃⟩
    · exact absurd hend hloop'.ip_ne
    · exact ⟨hrest₃.le, hcycle'.velocity⟩

/-- A run is smooth if its velocities are. -/
theorem SmoothVel.smoothFrom (hlength : 0 < p.pathLength) (hdt : 0 < p.dt)
    (hpasses : Passes (Vm.step code) (AtLoop code) (CycleAt p vel) 0 vm n vmEnd)
    (hend : vmEnd.ip = code.length) (hpos : PositionAt p (travelled p.dt vel n) vmEnd)
    (h : SmoothVel p vel n) : SmoothFrom p code vm := by
  intro vm' hsteps hloop
  obtain ⟨k, hrest⟩ := hpasses.of_steps (stuck_at_end hend) hsteps
  have hnonneg : ∀ j < n, 0 ≤ vel j := fun j hj => (h.velocity j hj).1
  refine ⟨?_, fun vm'' hnext hloop' => ?_, fun vm'' hnext => ?_⟩
  · rcases hrest.visited hloop with ⟨rfl, -⟩ | ⟨hcycle, vm₁, -, hrest₁⟩
    · exact absurd hend hloop.ip_ne
    · exact ⟨_, hcycle.velocity, h.velocity k hrest₁.le⟩
  · obtain ⟨-, hcycle, -, hnext'⟩ := passes_nextCycle hrest hend hpos hloop hnext
    obtain ⟨hlt, hvel⟩ := hnext' hloop'
    exact ⟨_, _, hcycle.velocity, hvel, h.change k hlt⟩
  · obtain ⟨hlt, hcycle, hpos', -⟩ := passes_nextCycle hrest hend hpos hloop hnext
    refine hcycle.position.axesTowards hlength hpos' (travelled_nonneg hdt hnonneg hlt.le)
      (travelled_le hdt hnonneg (Nat.le_succ k) hlt) fun hmoved => ?_
    exact (travelled_le hdt hnonneg hlt le_rfl).trans (h.within hmoved)

/-- The velocities of a smooth run are smooth. -/
theorem SmoothVel.of_smoothFrom (hlength : 0 < p.pathLength) (hn : 0 < n)
    (hpasses : Passes (Vm.step code) (AtLoop code) (CycleAt p vel) 0 vm n vmEnd)
    (hend : vmEnd.ip = code.length) (hpos : PositionAt p (travelled p.dt vel n) vmEnd)
    (h : SmoothFrom p code vm) : SmoothVel p vel n := by
  -- each cycle is reached, and so is the one after it, or the end
  have hcycle : ∀ k < n, ∃ vm₁ vm₂, SmoothCycle p code vm₁ ∧ CycleAt p vel k vm₁ ∧
      NextCycle code vm₁ vm₂ ∧ (k + 1 < n → AtLoop code vm₂) ∧
      PositionAt p (travelled p.dt vel (k + 1)) vm₂ ∧
      (AtLoop code vm₂ → vm₂.reg regVel = .f64 (vel (k + 1))) := by
    intro k hk
    obtain ⟨vm₁, hsteps, hloop, hcycle, vm', hstep, hrest⟩ :=
      hpasses.exists_visited (Nat.zero_le k) hk
    obtain ⟨vm₂, hquiet, hrest₂, hstop⟩ := hrest.exists_quiet
    have hnext : NextCycle code vm₁ vm₂ := by
      refine ⟨⟨vm', hstep, hquiet⟩, ?_⟩
      rcases hstop with ⟨rfl, -⟩ | ⟨hloop₂, -⟩
      · exact Or.inr hend
      · exact Or.inl hloop₂
    have hall : Passes (Vm.step code) (AtLoop code) (CycleAt p vel) k vm₁ n vmEnd :=
      .visit hstep hloop hcycle hrest
    obtain ⟨-, -, hpos₂, hvel₂⟩ := passes_nextCycle hall hend hpos hloop hnext
    refine ⟨vm₁, vm₂, h vm₁ hsteps hloop, hcycle, hnext, fun hlt => ?_, hpos₂,
      fun hloop₂ => (hvel₂ hloop₂).2⟩
    rcases hstop with ⟨-, heq⟩ | ⟨hloop₂, -⟩
    · omega
    · exact hloop₂
  refine ⟨fun k hk => ?_, fun k hk => ?_, fun hmoved => ?_⟩
  · obtain ⟨vm₁, -, hsmooth, hat, -⟩ := hcycle k hk
    obtain ⟨v, hv, hbounds⟩ := hsmooth.velocity
    rwa [← HalValue.f64.inj (hat.velocity.symm.trans hv)] at hbounds
  · obtain ⟨vm₁, vm₂, hsmooth, hat, hnext, hloop₂, -, hvel₂⟩ := hcycle k (by omega)
    obtain ⟨v, w, hv, hw, hchange⟩ := hsmooth.change vm₂ hnext (hloop₂ hk)
    rwa [← HalValue.f64.inj (hat.velocity.symm.trans hv),
      ← HalValue.f64.inj ((hvel₂ (hloop₂ hk)).symm.trans hw)] at hchange
  · obtain ⟨vm₁, vm₂, hsmooth, hat, hnext, -, hpos₂, -⟩ := hcycle (n - 1) (by omega)
    rw [Nat.sub_add_cancel hn] at hpos₂
    exact (hsmooth.step vm₂ hnext).le hlength hat.position hpos₂ hmoved

end

/-! ### Long moves -/

theorem units_sub_one_lt {x : ℝ} (hx : 0 < x) : (units x : ℝ) - 1 < x := by
  have hceil := Nat.ceil_lt_add_one hx.le
  have hle : (units x : ℝ) ≤ ⌈x⌉₊ := Nat.cast_le.mpr (min_le_left _ _)
  linarith

/-- The speed of the cruise is what the acceleration reaches in its time. -/
theorem accelCycles_mul (ha : 0 < p.acceleration) (hdt : 0 < p.dt) :
    p.accelCycles * (p.acceleration * p.dt) = p.speed := by
  rw [accelCycles]
  field_simp

/-- A long move travels its whole cycles at its speed. -/
theorem travelled_longVel (naccel ncruise : ℕ) :
    travelled p.dt (longVel p naccel ncruise) (naccel + ncruise + naccel) =
      (naccel + ncruise) * (p.speed * p.dt) := by
  have haccel : travelled p.dt (longVel p naccel ncruise) (0 + naccel) =
      travelled p.dt (longVel p naccel ncruise) 0 +
        Phase.accel.travel 0 (p.acceleration * p.dt) p.dt naccel := by
    refine travelled_phase (fun i hi => ?_) le_rfl
    rw [Nat.zero_add, longVel, if_pos hi, Phase.sign]
    ring
  have hcruise : travelled p.dt (longVel p naccel ncruise) (naccel + ncruise) =
      travelled p.dt (longVel p naccel ncruise) naccel +
        Phase.cruise.travel p.speed (p.acceleration * p.dt) p.dt ncruise := by
    refine travelled_phase (fun i hi => ?_) le_rfl
    rw [longVel, if_neg (by omega), if_pos (by omega), Phase.sign]
    ring
  have hdecel : travelled p.dt (longVel p naccel ncruise) (naccel + ncruise + naccel) =
      travelled p.dt (longVel p naccel ncruise) (naccel + ncruise) +
        Phase.decel.travel p.speed (p.acceleration * p.dt) p.dt naccel := by
    refine travelled_phase (fun i hi => ?_) le_rfl
    rw [longVel, if_neg (by omega), if_neg (by omega), Nat.add_sub_cancel_left, Phase.sign]
    ring
  rw [Nat.zero_add] at haccel
  rw [hdecel, hcruise, haccel, travelled, Finset.range_zero, Finset.sum_empty]
  simp only [Phase.travel, Phase.sign]
  ring

/-- A long move is smooth if the counter of the acceleration is not cut off, and if its whole
cycles cover no more than the move. -/
structure SmoothLong (p : TrapezoidalProfile (Platform.real c)) : Prop where
  accel : p.accelCycles ≤ units p.accelCycles
  within : Moved p →
    (units p.accelCycles + units p.cruiseCycles : ℝ) ≤ p.accelCycles + p.cruiseCycles

/-- The velocities of a long move are in the bounds iff the move is smooth. -/
theorem smoothVel_longVel (ha : 0 < p.acceleration) (hdt : 0 < p.dt)
    (hlong : 0 < p.cruiseLength) :
    SmoothVel p (longVel p (units p.accelCycles) (units p.cruiseCycles))
      (units p.accelCycles + units p.cruiseCycles + units p.accelCycles) ↔ SmoothLong p := by
  have haccel := accelCycles_pos ha hdt
  have hunits := units_sub_one_lt haccel
  have hpos := units_pos haccel
  have hposCruise := units_pos (cruiseCycles_pos hlong hdt)
  have hspeed := accelCycles_mul ha hdt
  have hw : 0 < p.acceleration * p.dt := mul_pos ha hdt
  have hspeedPos := p.speed_pos
  have hcycle := speed_mul_dt_pos (p := p) hdt
  have hlength := accelCycles_add_cruiseCycles ha hdt
  generalize hA : units p.accelCycles = naccel at *
  generalize hC : units p.cruiseCycles = ncruise at *
  generalize hvel : longVel p naccel ncruise = vel at *
  have hup : ∀ j < naccel, vel j = j * (p.acceleration * p.dt) := by
    intro j hj
    rw [← hvel, longVel, if_pos hj]
  have hflat : ∀ j, naccel ≤ j → j < naccel + ncruise → vel j = p.speed := by
    intro j hle hlt
    rw [← hvel, longVel, if_neg (by omega), if_pos hlt]
  have hdown : ∀ j, vel (naccel + ncruise + j) = p.speed - j * (p.acceleration * p.dt) := by
    intro j
    rw [← hvel, longVel, if_neg (by omega), if_neg (by omega), Nat.add_sub_cancel_left]
  -- fewer cycles than the acceleration takes do not reach beyond its speed
  have hbound : ∀ j < naccel, (j : ℝ) * (p.acceleration * p.dt) ≤ p.speed := by
    intro j hj
    have hcast : ((j + 1 : ℕ) : ℝ) ≤ naccel := Nat.cast_le.mpr hj
    push_cast at hcast
    rw [← hspeed]
    exact mul_le_mul_of_nonneg_right (by linarith) hw.le
  have htravel : travelled p.dt vel (naccel + ncruise + naccel) =
      (naccel + ncruise) * (p.speed * p.dt) := hvel ▸ travelled_longVel naccel ncruise
  have hwithin : travelled p.dt vel (naccel + ncruise + naccel) ≤ p.pathLength ↔
      (naccel + ncruise : ℝ) ≤ p.accelCycles + p.cruiseCycles := by
    rw [htravel, ← hlength, mul_le_mul_iff_of_pos_right hcycle]
  -- the last cycle of the acceleration
  have htop : vel naccel - vel (naccel - 1) =
      (p.accelCycles - naccel + 1) * (p.acceleration * p.dt) := by
    rw [hflat naccel le_rfl (by omega), hup (naccel - 1) (by omega), Nat.cast_pred hpos, ← hspeed]
    ring
  constructor
  · intro h
    refine ⟨?_, fun hmoved => ?_⟩
    swap
    · rw [hA, hC]
      exact hwithin.mp (h.within hmoved)
    have hchange := h.change (naccel - 1) (by omega)
    rw [Nat.sub_add_cancel hpos, htop] at hchange
    have hle := (le_abs_self _).trans hchange
    rw [hA]
    nlinarith
  · intro h
    have hcut := h.accel
    rw [hA] at hcut
    refine ⟨fun j hj => ?_, fun j hj => ?_, fun hmoved => hwithin.mpr ?_⟩
    · rcases lt_or_ge j naccel with hj₁ | hj₁
      · rw [hup j hj₁]
        exact ⟨by positivity, hbound j hj₁⟩
      rcases lt_or_ge j (naccel + ncruise) with hj₂ | hj₂
      · rw [hflat j hj₁ hj₂]
        exact ⟨hspeedPos.le, le_rfl⟩
      · obtain ⟨k, rfl⟩ := Nat.exists_eq_add_of_le hj₂
        have hk := hbound k (by omega)
        have hk₀ : 0 ≤ (k : ℝ) * (p.acceleration * p.dt) := by positivity
        rw [hdown]
        exact ⟨by linarith, by linarith⟩
    · rcases lt_or_ge (j + 1) naccel with hj₁ | hj₁
      · rw [hup _ hj₁, hup j (by omega)]
        push_cast
        rw [show (j + 1 : ℝ) * (p.acceleration * p.dt) - j * (p.acceleration * p.dt) =
          p.acceleration * p.dt by ring, abs_of_pos hw]
      rcases hj₁.eq_or_lt with heq | hj₁
      · obtain rfl : j = naccel - 1 := by omega
        rw [← heq, htop, abs_of_nonneg (mul_nonneg (by linarith) hw.le)]
        nlinarith
      rcases lt_or_ge (j + 1) (naccel + ncruise) with hj₂ | hj₂
      · rw [hflat _ hj₁.le hj₂, hflat j (by omega) (by omega), sub_self, abs_zero]
        exact hw.le
      rcases hj₂.eq_or_lt with heq | hj₂
      · have hfirst := hdown 0
        rw [Nat.add_zero, Nat.cast_zero, zero_mul, sub_zero] at hfirst
        rw [← heq, hfirst, hflat j (by omega) (by omega), sub_self, abs_zero]
        exact hw.le
      · obtain ⟨k, rfl⟩ := Nat.exists_eq_add_of_le (show naccel + ncruise ≤ j by omega)
        rw [Nat.add_assoc, hdown, hdown]
        push_cast
        rw [show p.speed - (k + 1) * (p.acceleration * p.dt) -
          (p.speed - k * (p.acceleration * p.dt)) = -(p.acceleration * p.dt) by ring, abs_neg,
          abs_of_pos hw]
    · have hle := h.within hmoved
      rwa [hA, hC] at hle

/-! ### Short moves -/

/-- The number of cycles of one half of a short move, which need not be whole. -/
noncomputable def halfCycles (p : TrapezoidalProfile (Platform.real c)) : ℝ :=
  √(p.pathLength * p.acceleration) / p.acceleration / p.dt

theorem vPeak_real : p.vPeak (FloatMath.real c) = √(p.pathLength * p.acceleration) := by
  rw [vPeak, distance_real]
  rfl

theorem halfCycles_pos (hlength : 0 < p.pathLength) (ha : 0 < p.acceleration) (hdt : 0 < p.dt) :
    0 < halfCycles p :=
  div_pos (div_pos (Real.sqrt_pos.mpr (mul_pos hlength ha)) ha) hdt

theorem toNat_cyclesHalf (hlength : 0 < p.pathLength) (ha : 0 < p.acceleration)
    (hdt : 0 < p.dt) : (p.cyclesHalf (FloatMath.real c)).toNat = units (halfCycles p) := by
  have hone : FloatOps.real.lit 1 0 = 1 := by simp
  have hceil : (1 : ℝ) ≤ (⌈halfCycles p⌉ : ℤ) := by
    exact_mod_cast Int.one_le_ceil_iff.mpr (halfCycles_pos hlength ha hdt)
  have hmax : (FloatMath.real c).max ((FloatMath.real c).ceil (halfCycles p))
      (FloatOps.real.lit 1 0) = (FloatMath.real c).ceil (halfCycles p) := by
    rw [hone]
    exact max_eq_left hceil
  rw [cyclesHalf, vPeak_real]
  exact (congrArg (fun x => ((FloatMath.real c).asU32 x).toNat) hmax).trans
    (toNat_asU32_ceil c _)

/-- The velocities of a short move are in the bounds iff there is one cycle only. -/
theorem smoothVel_short {w : ℝ} (hw : 0 < w) {n : ℕ} (hn : 0 < n) :
    SmoothVel p (fun j => -(j * w)) n ↔ n = 1 := by
  constructor
  · intro h
    by_contra hne
    have hvel := (h.velocity 1 (by omega)).1
    rw [Nat.cast_one, one_mul] at hvel
    linarith
  · rintro rfl
    refine ⟨fun j hj => ?_, fun j hj => absurd hj (by omega), fun _ => ?_⟩
    · obtain rfl : j = 0 := by omega
      rw [Nat.cast_zero, zero_mul, neg_zero]
      exact ⟨le_rfl, p.speed_pos.le⟩
    · rw [travelled, Finset.sum_range_one, Nat.cast_zero, zero_mul, neg_zero, zero_mul]
      exact Real.sqrt_nonneg _

/-! ### Smooth moves -/

/-- The moves whose velocities stay in their bounds: those that are too short to be noticed,
the long ones that are smooth, and the short ones whose number of cycles overflows, to a panic
or to no more than one cycle. -/
inductive SmoothMove (p : TrapezoidalProfile (Platform.real c)) : Prop
  | unnoticed : p.pathLength < 1 / 10 ^ 9 → SmoothMove p
  | long : 0 < p.cruiseLength → SmoothLong p → SmoothMove p
  | short : p.cruiseLength ≤ 0 → 2 ^ 31 ≤ units (halfCycles p) →
      (c = true ∨ units (halfCycles p) = 2 ^ 31) → SmoothMove p

/-- The number of cycles of a short move is at most one only if it overflows. -/
theorem unsigned_double {n : ℕ} (hpos : 0 < n) (hlt : n < 2 ^ 32) :
    (∀ total, unsigned (Platform.real c) 32 (n * 2) = .ok total →
      max (UInt32.ofNat total).toNat 1 = 1) ↔ 2 ^ 31 ≤ n ∧ (c = true ∨ n = 2 ^ 31) := by
  have hofNat : ∀ m < 2 ^ 32, (UInt32.ofNat m).toNat = m :=
    fun m hm => UInt32.toNat_ofNat_of_lt' hm
  rw [unsigned]
  split
  · constructor
    · intro h
      have hone := h _ rfl
      rw [hofNat _ ‹_›] at hone
      omega
    · intro h
      omega
  · cases c with
    | true =>
        refine ⟨fun _ => ⟨by omega, Or.inl rfl⟩, fun _ total htotal => ?_⟩
        cases htotal
    | false =>
        constructor
        · intro h
          have hone := h _ rfl
          rw [hofNat _ (by omega)] at hone
          omega
        · rintro ⟨-, hfalse | rfl⟩ total htotal
          · cases hfalse
          · obtain rfl := Except.ok.inj htotal
            rfl

/-- A move that is not noticed has no cycles. -/
theorem smooth_of_unnoticed (h : p.pathLength < 1 / 10 ^ 9) : Smooth p := by
  intro program hprogram vm _ vm' _ hloop
  rw [generateTrapezoidalProgram, emitG1, distance_lt_real, decide_eq_true h, if_pos rfl]
    at hprogram
  obtain rfl := Except.ok.inj hprogram
  have hlt := (List.getElem?_eq_some_iff.mp hloop).1
  exact absurd hloop (unmarked_of_all (List.prefix_refl _) rfl vm' (Nat.zero_le _)
    (hlt.trans_eq (Nat.zero_add _).symm))

/-- A long move is smooth iff its cycles are. -/
theorem smooth_long_iff (ha : 0 < p.acceleration) (hdt : 0 < p.dt)
    (hnoticed : 1 / 10 ^ 9 ≤ p.pathLength) (hlong : 0 < p.cruiseLength) :
    Smooth p ↔ SmoothLong p := by
  have hlength : 0 < p.pathLength := lt_of_lt_of_le (by positivity) hnoticed
  have haccel := toNat_cyclesAccel_pos (c := c) ha hdt
  have hcruise := toNat_cyclesCruise_pos (c := c) ha hdt hlong
  have hne : ∀ {n : UInt32}, 0 < n.toNat → n ≠ 0 := by
    rintro n hn rfl
    exact absurd hn (lt_irrefl 0)
  have hlt : (Platform.real c).f64.lt (p.distance (FloatMath.real c))
      ((Platform.real c).f64.lit 1 9) = false := by
    rw [distance_lt_real, decide_eq_false hnoticed.not_gt]
  have hcode : ∀ {program}, generateTrapezoidalProgram (FloatMath.real c) p = .ok program →
      program.instructions = longCode (FloatMath.real c) p :=
    generateTrapezoidalProgram_long hlt ((isLong_real p ha.ne').mpr hlong) (hne haccel)
      (hne hcruise)
  have hpasses := fun {vm : Vm (Platform.real c)} (hip : vm.ip = 0) =>
    passes_longCode haccel hcruise hip
  rw [toNat_cyclesAccel, toNat_cyclesCruise p ha.ne'] at hpasses
  rw [← smoothVel_longVel ha hdt hlong]
  constructor
  · intro h
    obtain ⟨program, hprogram⟩ :=
      exists_generateTrapezoidalProgram ((isLong_real (c := c) p ha.ne').mpr hlong)
    obtain ⟨vm', hrun, hend, hpos⟩ := hpasses (rfl : (Vm.new : Vm (Platform.real c)).ip = 0)
    have hsmooth := h program hprogram Vm.new rfl
    rw [hcode hprogram] at hsmooth
    exact .of_smoothFrom hlength (by have := units_pos (accelCycles_pos ha hdt); omega) hrun hend
      hpos hsmooth
  · intro h program hprogram vm hip
    obtain ⟨vm', hrun, hend, hpos⟩ := hpasses hip
    rw [hcode hprogram]
    exact h.smoothFrom hlength hdt hrun hend hpos

/-- A short move is smooth iff its number of cycles overflows. -/
theorem smooth_short_iff (ha : 0 < p.acceleration) (hdt : 0 < p.dt)
    (hnoticed : 1 / 10 ^ 9 ≤ p.pathLength) (hshort : p.cruiseLength ≤ 0) :
    Smooth p ↔ 2 ^ 31 ≤ units (halfCycles p) ∧ (c = true ∨ units (halfCycles p) = 2 ^ 31) := by
  have hlength : 0 < p.pathLength := lt_of_lt_of_le (by positivity) hnoticed
  have hpos := units_pos (halfCycles_pos hlength ha hdt)
  have hhalf := toNat_cyclesHalf (c := c) hlength ha hdt
  have hw : 0 < p.vPeak (FloatMath.real c) / (p.cyclesHalf (FloatMath.real c)).toNat := by
    rw [vPeak_real, hhalf]
    exact div_pos (Real.sqrt_pos.mpr (mul_pos hlength ha)) (Nat.cast_pos.mpr hpos)
  have hlt : (Platform.real c).f64.lt (p.distance (FloatMath.real c))
      ((Platform.real c).f64.lit 1 9) = false := by
    rw [distance_lt_real, decide_eq_false hnoticed.not_gt]
  have hlong : p.isLong (FloatMath.real c) = false := by
    rw [Bool.eq_false_iff, Ne, isLong_real p ha.ne', not_lt]
    exact hshort
  have hprogram := generateTrapezoidalProgram_short_eq hlt hlong
  rw [hhalf] at hprogram
  have hlt32 : units (halfCycles p) < 2 ^ 32 := lt_of_le_of_lt (min_le_right _ _) (by norm_num)
  rw [← unsigned_double hpos hlt32]
  constructor
  · intro h total htotal
    obtain ⟨vm', hrun, hend, hpos'⟩ :=
      passes_shortCode hlength (UInt32.ofNat total)
        (rfl : (Vm.new : Vm (Platform.real c)).ip = 0)
    rw [htotal] at hprogram
    exact (smoothVel_short hw (by omega)).mp
      (.of_smoothFrom hlength (by omega) hrun hend hpos' (h _ hprogram Vm.new rfl))
  · intro h program hgenerated vm hip
    rw [hprogram] at hgenerated
    cases htotal : unsigned (Platform.real c) 32 (units (halfCycles p) * 2) with
    | error e =>
        rw [htotal] at hgenerated
        cases hgenerated
    | ok total =>
        rw [htotal] at hgenerated
        obtain rfl := Except.ok.inj hgenerated
        obtain ⟨vm', hrun, hend, hpos'⟩ := passes_shortCode hlength (UInt32.ofNat total) hip
        exact ((smoothVel_short hw (by omega)).mpr (h total htotal)).smoothFrom hlength hdt hrun
          hend hpos'

/-- Which moves keep their velocities in the bounds. -/
theorem smooth_iff (ha : 0 < p.acceleration) (hdt : 0 < p.dt) : Smooth p ↔ SmoothMove p := by
  rcases lt_or_ge p.pathLength (1 / 10 ^ 9) with hnoticed | hnoticed
  · exact ⟨fun _ => .unnoticed hnoticed, fun _ => smooth_of_unnoticed hnoticed⟩
  rcases le_or_gt p.cruiseLength 0 with hshort | hlong
  · rw [smooth_short_iff ha hdt hnoticed hshort]
    constructor
    · rintro ⟨hle, heq⟩
      exact .short hshort hle heq
    · rintro (hlt | ⟨hlong, -⟩ | ⟨-, hle, heq⟩)
      · exact absurd hlt hnoticed.not_gt
      · exact absurd hlong hshort.not_gt
      · exact ⟨hle, heq⟩
  · rw [smooth_long_iff ha hdt hnoticed hlong]
    constructor
    · exact .long hlong
    · rintro (hlt | ⟨-, hsmooth⟩ | ⟨hshort, -⟩)
      · exact absurd hlt hnoticed.not_gt
      · exact hsmooth
      · exact absurd hlong hshort.not_gt

/-- A move of two units is smooth: a cycle to accelerate, one to cruise, one to decelerate. -/
theorem unitMove_two_smooth : Smooth (unitMove 2) := by
  refine (smooth_iff (p := unitMove 2) one_pos one_pos).mpr (.long ?_ ⟨?_, fun _ => ?_⟩)
  · rw [cruiseLength_unitMove zero_le_two]
    norm_num
  · rw [accelCycles_unitMove]
    norm_num [units]
  · rw [accelCycles_unitMove, cruiseCycles_unitMove zero_le_two]
    norm_num [units]

/-- A move of one unit is short: it decelerates from the first cycle on. -/
theorem unitMove_one_not_smooth : ¬Smooth (unitMove 1) := by
  have hlength : (unitMove 1).pathLength = 1 := by
    rw [pathLength]
    simp [unitMove]
  have hshort : (unitMove 1).cruiseLength ≤ 0 := by
    rw [cruiseLength_unitMove zero_le_one]
    norm_num
  have hhalf : halfCycles (unitMove 1) = 1 := by
    rw [halfCycles, hlength]
    simp [unitMove]
  have hnoticed : 1 / 10 ^ 9 ≤ (unitMove 1).pathLength := by
    rw [hlength]
    norm_num
  rw [smooth_short_iff (p := unitMove 1) one_pos one_pos hnoticed hshort, hhalf]
  norm_num [units]

end Weftik.Motion
