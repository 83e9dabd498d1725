import Weftik.AxisGroup.Backlash

/-!
# Backlash over Runs

Over a run of scans the backlash program is to move the commanded position of an axis when
the direction of its motion is not the one of its last motion. A scan does not look at the
direction: it moves the position by the backlash every time, in the positive direction.

## Main definitions

* `Backlash.resume`: the table before a scan of a run.
* `Backlash.Follows`: the runs of the program.
* `Backlash.Compensated`: what a run is to do with the positions.
* `Backlash.FirstMove`: the runs that do it.

## Main results

* `Backlash.compensates_iff`: when a run does what it is to do.
-/

namespace Weftik.AxisGroup.Backlash

open Symbolic Table

/-- A group over exact arithmetic. -/
abbrev Group := AxisGroupConfig Platform.exact

/-- An axis over exact arithmetic. -/
abbrev Axis := AxisConfig Platform.exact

/-- The signals of such a group. -/
abbrev Signals := SignalTable Platform.exact

/-! ### Runs -/

/-- The table before a scan: what the environment has set, with the directions that the scan
before has stored. -/
def resume (cfg : Group) (last env : Signals) : Signals := fun name =>
  if ∃ axis ∈ cfg.axes, name = cfg.signal axis.index "last_dir" then last name else env name

/-- The tables after the scans of a run: the program is scanned once for each table of the
environment. -/
inductive Follows (cfg : Group) : Signals → List Signals → List Signals → Prop
  | done (last : Signals) : Follows cfg last [] []
  | scan {last env after : Signals} {envs afters : List Signals}
      (hscan : Scans (program cfg).instructions (resume cfg last env) after)
      (hrest : Follows cfg after envs afters) :
      Follows cfg last (env :: envs) (after :: afters)

/-- The backlash distance of an axis. -/
abbrev backlashOf (axis : Axis) : ℚ := axis.backlashDistance

/-- A float signal. -/
def float (x : ℚ) : HalValue Platform.exact := .f64 x

theorem float_inj {x y : ℚ} : float x = float y ↔ x = y :=
  ⟨HalValue.f64.inj, congrArg float⟩

/-- The number in a float signal. -/
def number : Option (HalValue Platform.exact) → ℚ
  | some (.f64 x) => x
  | _ => 0

/-- The commanded velocity of an axis. -/
def velOf (cfg : Group) (axis : Axis) (t : Signals) : ℚ :=
  number (t (cfg.signal axis.index "vel_cmd"))

/-- The commanded position of an axis. -/
def posOf (cfg : Group) (axis : Axis) (t : Signals) : ℚ :=
  number (t (cfg.signal axis.index "pos_cmd"))

/-- The signals of the axis hold floats, as their bindings say. -/
structure Bound (cfg : Group) (axis : Axis) (t : Signals) : Prop where
  pos : ∃ x : ℚ, t (cfg.signal axis.index "pos_cmd") = some (float x)
  vel : ∃ v : ℚ, t (cfg.signal axis.index "vel_cmd") = some (float v)

/-! ### What a run is to do -/

/-- The direction of the last motion, after a scan with a velocity of the given sign. -/
def nextDir (last new : SignType) : SignType := if new = 0 then last else new

/-- By how much a scan is to move the position of an axis. -/
def compensation (axis : Axis) (last new : SignType) : ℚ :=
  if new ≠ 0 ∧ new ≠ last then backlashOf axis * (new : ℚ) else 0

/-- The scans move the position of the axis on a reversal and only then; before them, the
last motion of the axis had the given direction. -/
def Compensated (cfg : Group) (axis : Axis) : SignType → List Signals → List Signals → Prop
  | _, [], [] => True
  | last, env :: envs, after :: afters =>
      after (cfg.signal axis.index "pos_cmd") = some (float
          (posOf cfg axis env + compensation axis last (SignType.sign (velOf cfg axis env)))) ∧
        Compensated cfg axis (nextDir last (SignType.sign (velOf cfg axis env))) envs afters
  | _, _, _ => False

/-- The total backlash of the axes with code that have the given index. -/
def total (cfg : Group) (index : UInt8) : ℚ :=
  (((cfg.axes.filter isActive).filter (·.index = index)).map backlashOf).sum

/-- The scans have no backlash to compensate: the axes with the index of this one make up for
each other, and this one has none or does not move. -/
def Still (cfg : Group) (axis : Axis) (envs : List Signals) : Prop :=
  total cfg axis.index = 0 ∧ (backlashOf axis = 0 ∨ ∀ env ∈ envs, velOf cfg axis env = 0)

/-- There is one scan, and it is to move the axis by the total backlash of its index. -/
def FirstMove (cfg : Group) (axis : Axis) (envs : List Signals) : Prop :=
  ∃ env, envs = [env] ∧
    backlashOf axis * (SignType.sign (velOf cfg axis env) : ℚ) = total cfg axis.index

/-! ### The positions after a scan -/

theorem signal_index (cfg : Group) {i j : UInt8} {s : String}
    (h : cfg.signal i s = cfg.signal j s) : i = j := by
  simp only [AxisGroupConfig.signal, AxisGroupConfig.signalPrefix] at h
  rw [String.append_left_inj, String.append_left_inj, String.append_right_inj] at h
  exact UInt8.toNat_inj.mp (Nat.repr_injective h)

/-- The table before a scan has the signals of the environment, the directions aside. -/
theorem resume_apply (cfg : Group) (last env : Signals) {s : String} (hs : '.' ∉ s.toList)
    (hne : s ≠ "last_dir") (i : UInt8) :
    resume cfg last env (cfg.signal i s) = env (cfg.signal i s) := by
  refine if_neg ?_
  rintro ⟨axis, -, hname⟩
  exact cfg.signal_ne hne hs (by decide) i axis.index hname

/-- The code of an axis moves the position under its index. -/
theorem axisEffect_pos (cfg : Group) (axis : Axis) {t : Signals} {i : UInt8} {x : ℚ}
    (hx : t (cfg.signal i "pos_cmd") = some (float x)) :
    axisEffect cfg axis t (cfg.signal i "pos_cmd") =
      some (float (if axis.index = i then x + backlashOf axis else x)) := by
  have hdir : cfg.signal axis.index "last_dir" ≠ cfg.signal i "pos_cmd" :=
    cfg.signal_ne (by decide) (by decide) (by decide) _ _
  rw [axisEffect, writes_apply, last_cons, last_cons, last_nil, if_neg hdir]
  by_cases hi : axis.index = i
  · have hone : backlashOf axis * (((1 : ℕ) : ℚ) / 10 ^ 0) = backlashOf axis := by simp
    rw [if_pos (congrArg (cfg.signal · "pos_cmd") hi), if_pos hi, hi, hx]
    change some (float (x + backlashOf axis * (((1 : ℕ) : ℚ) / 10 ^ 0))) = _
    rw [hone]
  · rw [if_neg fun h => hi (signal_index cfg h), if_neg hi, hx]
    rfl

theorem foldl_axisEffect_pos (cfg : Group) {i : UInt8} (axes : List Axis) {t : Signals}
    {x : ℚ} (hx : t (cfg.signal i "pos_cmd") = some (float x)) :
    axes.foldl (fun t axis => axisEffect cfg axis t) t (cfg.signal i "pos_cmd") =
      some (float (x + ((axes.filter (·.index = i)).map backlashOf).sum)) := by
  induction axes generalizing t x with
  | nil =>
      rw [List.filter_nil, List.map_nil, List.sum_nil, add_zero]
      exact hx
  | cons axis axes ih =>
      rw [List.foldl_cons, ih (axisEffect_pos cfg axis hx)]
      by_cases hi : axis.index = i
      · rw [if_pos hi, List.filter_cons_of_pos (by simpa using hi), List.map_cons,
          List.sum_cons, add_assoc]
      · rw [if_neg hi, List.filter_cons_of_neg (by simpa using hi)]

/-- A scan moves the position by the total backlash of its index, whatever the directions. -/
theorem scanEffect_pos (cfg : Group) (last : Signals) {env : Signals} {axis : Axis}
    (hbound : Bound cfg axis env) :
    scanEffect cfg (resume cfg last env) (cfg.signal axis.index "pos_cmd") =
      some (float (posOf cfg axis env + total cfg axis.index)) := by
  obtain ⟨x, hx⟩ := hbound.pos
  have hpos : posOf cfg axis env = x := by
    rw [posOf, hx]
    rfl
  rw [hpos]
  refine foldl_axisEffect_pos cfg _ ?_
  rw [resume_apply cfg last env (by decide) (by decide), hx]

/-! ### Runs, scan by scan -/

/-- The tables after the scans of a run. -/
def tablesAfter (cfg : Group) : Signals → List Signals → List Signals
  | _, [] => []
  | last, env :: envs =>
      let after := scanEffect cfg (resume cfg last env)
      after :: tablesAfter cfg after envs

theorem follows_iff (cfg : Group) (hfits : JumpsFit cfg) (last : Signals)
    (envs afters : List Signals) :
    Follows cfg last envs afters ↔ afters = tablesAfter cfg last envs := by
  induction envs generalizing last afters with
  | nil =>
      constructor
      · rintro ⟨⟩
        rfl
      · rintro rfl
        exact .done last
  | cons env envs ih =>
      constructor
      · rintro (_ | ⟨hscan, hrest⟩)
        obtain rfl := (scans_program cfg hfits _ _).mp hscan
        rw [(ih _ _).mp hrest]
        rfl
      · rintro rfl
        exact .scan ((scans_program cfg hfits _ _).mpr rfl) ((ih _ _).mpr rfl)

/-- Every scan is to move the position of the axis by the total of its index. -/
def AlwaysTotal (cfg : Group) (axis : Axis) : SignType → List Signals → Prop
  | _, [] => True
  | last, env :: envs =>
      compensation axis last (SignType.sign (velOf cfg axis env)) = total cfg axis.index ∧
        AlwaysTotal cfg axis (nextDir last (SignType.sign (velOf cfg axis env))) envs

theorem compensated_tablesAfter_iff (cfg : Group) (axis : Axis) {envs : List Signals}
    (hbound : ∀ env ∈ envs, Bound cfg axis env) (before : Signals) (last : SignType) :
    Compensated cfg axis last envs (tablesAfter cfg before envs) ↔
      AlwaysTotal cfg axis last envs := by
  induction envs generalizing before last with
  | nil => exact Iff.rfl
  | cons env envs ih =>
      obtain ⟨henv, henvs⟩ := List.forall_mem_cons.mp hbound
      rw [tablesAfter, Compensated, AlwaysTotal, ih henvs, scanEffect_pos cfg before henv,
        Option.some.injEq, float_inj, add_right_inj, eq_comm]

/-! ### The directions of a run -/

/-- A first motion is compensated in its direction, a stop is not. -/
theorem compensation_zero (axis : Axis) (new : SignType) :
    compensation axis 0 new = backlashOf axis * (new : ℚ) := by
  rw [compensation]
  split
  · rfl
  · rename_i h
    have hnew : new = 0 := by
      by_contra hnew
      exact h ⟨hnew, hnew⟩
    rw [hnew, SignType.coe_zero, mul_zero]

/-- The sign of a number is zero only for zero. -/
theorem coe_sign_eq_zero_iff {v : ℚ} : ((SignType.sign v : SignType) : ℚ) = 0 ↔ v = 0 := by
  have hsign : SignType.sign v = 0 ↔ v = 0 := sign_eq_zero_iff
  rw [← hsign]
  cases SignType.sign v <;> simp

theorem alwaysTotal_of_backlash_zero (cfg : Group) (axis : Axis)
    (htotal : total cfg axis.index = 0) (hzero : backlashOf axis = 0) (last : SignType)
    (envs : List Signals) : AlwaysTotal cfg axis last envs := by
  induction envs generalizing last with
  | nil => trivial
  | cons env envs ih =>
      refine ⟨?_, ih _⟩
      rw [htotal, compensation, hzero, zero_mul, ite_self]

/-- Where there is nothing to add up, the axis has no backlash or does not move. -/
theorem alwaysTotal_iff_of_zero (cfg : Group) (axis : Axis)
    (htotal : total cfg axis.index = 0) (envs : List Signals) :
    AlwaysTotal cfg axis 0 envs ↔
      backlashOf axis = 0 ∨ ∀ env ∈ envs, velOf cfg axis env = 0 := by
  by_cases hzero : backlashOf axis = 0
  · exact iff_of_true (alwaysTotal_of_backlash_zero cfg axis htotal hzero 0 envs)
      (Or.inl hzero)
  rw [or_iff_right hzero]
  induction envs with
  | nil => exact iff_of_true trivial (List.forall_mem_nil _)
  | cons env envs ih =>
      rw [AlwaysTotal, compensation_zero, htotal, mul_eq_zero, or_iff_right hzero,
        coe_sign_eq_zero_iff,
        List.forall_mem_cons]
      refine and_congr_right fun hvel => ?_
      rw [hvel, sign_zero]
      exact ih

/-- Where there is something to add up, two scans in a row cannot both be right: the second
one would have to be a reversal, and would move the position back. -/
theorem alwaysTotal_iff_of_ne_zero (cfg : Group) (axis : Axis)
    (htotal : total cfg axis.index ≠ 0) (envs : List Signals) :
    AlwaysTotal cfg axis 0 envs ↔ envs = [] ∨ FirstMove cfg axis envs := by
  rcases envs with _ | ⟨env, _ | ⟨env₂, envs⟩⟩
  · exact iff_of_true trivial (Or.inl rfl)
  · rw [AlwaysTotal, compensation_zero]
    constructor
    · rintro ⟨hcomp, -⟩
      exact Or.inr ⟨env, rfl, hcomp⟩
    · rintro (h | ⟨env', henv, hcomp⟩)
      · cases h
      · obtain rfl : env = env' := (List.cons.inj henv).1
        exact ⟨hcomp, trivial⟩
  · refine iff_of_false ?_ ?_
    · rintro ⟨hfirst, hsecond, -⟩
      rw [compensation_zero] at hfirst
      set new := SignType.sign (velOf cfg axis env)
      set new₂ := SignType.sign (velOf cfg axis env₂)
      have hnew : new ≠ 0 := by
        intro hnew
        rw [hnew, SignType.coe_zero, mul_zero] at hfirst
        exact htotal hfirst.symm
      rw [nextDir, if_neg hnew, compensation] at hsecond
      split at hsecond
      · rename_i hrev
        have hback : (new₂ : ℚ) = -(new : ℚ) := by
          obtain ⟨hnew₂, hne⟩ := hrev
          revert hnew hnew₂ hne
          cases new <;> cases new₂ <;> simp
        rw [hback, mul_neg, hfirst] at hsecond
        exact htotal (by linarith)
      · exact htotal hsecond.symm
    · rintro (h | ⟨env', henv, -⟩)
      · cases h
      · cases henv

/-- A run moves the positions on reversals and only then exactly when it has no scan, or the
program is short enough for its jumps and each axis has nothing to compensate or makes its
first move. -/
theorem compensates_iff (cfg : Group) (before : Signals) (envs : List Signals)
    (hbound : ∀ axis ∈ cfg.axes, axis.backlashEnable = true →
      ∀ env ∈ envs, Bound cfg axis env) :
    (∃ afters, Follows cfg before envs afters ∧ ∀ axis ∈ cfg.axes,
        axis.backlashEnable = true → Compensated cfg axis 0 envs afters) ↔
      envs = [] ∨ (JumpsFit cfg ∧ ∀ axis ∈ cfg.axes, axis.backlashEnable = true →
        Still cfg axis envs ∨ FirstMove cfg axis envs) := by
  by_cases hnil : envs = []
  · subst hnil
    exact iff_of_true ⟨[], .done before, fun _ _ _ => trivial⟩ (Or.inl rfl)
  rw [or_iff_right hnil]
  by_cases hfits : JumpsFit cfg
  · rw [and_iff_right hfits]
    have haxis : ∀ axis : Axis,
        AlwaysTotal cfg axis 0 envs ↔ Still cfg axis envs ∨ FirstMove cfg axis envs := by
      intro axis
      by_cases htotal : total cfg axis.index = 0
      · rw [alwaysTotal_iff_of_zero cfg axis htotal, Still, and_iff_right htotal]
        refine ⟨Or.inl, fun h => h.elim id ?_⟩
        rintro ⟨env, rfl, hfirst⟩
        rw [htotal, mul_eq_zero, coe_sign_eq_zero_iff] at hfirst
        exact hfirst.imp_right fun hvel => List.forall_mem_singleton.mpr hvel
      · rw [alwaysTotal_iff_of_ne_zero cfg axis htotal, or_iff_right hnil, Still,
          or_iff_right fun h => htotal h.1]
    simp only [follows_iff cfg hfits, exists_eq_left]
    refine forall₃_congr fun axis haxes henable => ?_
    rw [compensated_tablesAfter_iff cfg axis (hbound axis haxes henable), haxis]
  · refine iff_of_false ?_ fun h => hfits h.1
    rintro ⟨afters, hfollows, -⟩
    cases hfollows with
    | done => exact hnil rfl
    | scan hscan _ => exact not_scans_of_wraps cfg hfits _ _ hscan

/-! ### A stop -/

/-- One axis with a backlash of 0.05. -/
def oneAxis : Group :=
  ⟨"group.0", [{ AxisConfig.linear 0 with
    backlashEnable := true, backlashDistance := (1 / 20 : ℚ) }]⟩

/-- The axis is at 10, with the given velocity. -/
def moving (v : ℚ) : Signals := fun name =>
  if name = oneAxis.signal 0 "vel_cmd" then some (float v) else some (float 10)

theorem bound_moving (v : ℚ) :
    ∀ axis ∈ oneAxis.axes, axis.backlashEnable = true → Bound oneAxis axis (moving v) := by
  intro axis haxis _
  obtain rfl := List.mem_singleton.mp haxis
  refine ⟨⟨10, if_neg ?_⟩, ⟨v, if_pos rfl⟩⟩
  exact oneAxis.signal_ne (by decide) (by decide) (by decide) _ _

theorem compensates_iff_moving :
    (∃ afters, Follows oneAxis (fun _ => none) [moving 1] afters ∧ ∀ axis ∈ oneAxis.axes,
        axis.backlashEnable = true → Compensated oneAxis axis 0 [moving 1] afters) ↔
      [moving 1] = [] ∨ (JumpsFit oneAxis ∧ ∀ axis ∈ oneAxis.axes,
        axis.backlashEnable = true →
          Still oneAxis axis [moving 1] ∨ FirstMove oneAxis axis [moving 1]) := by
  refine compensates_iff oneAxis (fun _ => none) [moving 1] fun axis haxis henable env henv => ?_
  obtain rfl := List.mem_singleton.mp henv
  exact bound_moving 1 axis haxis henable

theorem total_oneAxis : total oneAxis 0 = 1 / 20 := by
  have hactive : oneAxis.axes.filter isActive = oneAxis.axes := by
    refine List.filter_eq_self.mpr fun axis haxis => ?_
    obtain rfl := List.mem_singleton.mp haxis
    change (true && !decide ((1 / 20 : ℚ) = ((0 : ℕ) : ℚ) / 10 ^ 0)) = true
    simp
  rw [total, hactive]
  exact add_zero _

/-- A stop after a motion moves the position again. -/
theorem not_compensates_of_stop :
    ¬∃ afters, Follows oneAxis (fun _ => none) [moving 1, moving 0] afters ∧
      ∀ axis ∈ oneAxis.axes, axis.backlashEnable = true →
        Compensated oneAxis axis 0 [moving 1, moving 0] afters := by
  rintro ⟨afters, hfollows, hcomp⟩
  have hfits : JumpsFit oneAxis := by
    have hcount : oneAxis.axes.countP isActive ≤ 1 := List.countP_le_length
    rw [JumpsFit]
    omega
  have hcompX := hcomp _ List.mem_cons_self rfl
  rw [(follows_iff oneAxis hfits _ _ _).mp hfollows,
    compensated_tablesAfter_iff oneAxis _ ?_, alwaysTotal_iff_of_ne_zero] at hcompX
  · rcases hcompX with h | ⟨env, h, -⟩ <;> cases h
  · change total oneAxis 0 ≠ 0
    rw [total_oneAxis]
    simp
  · intro env henv
    rw [List.mem_pair] at henv
    rcases henv with rfl | rfl
    · exact bound_moving 1 _ List.mem_cons_self rfl
    · exact bound_moving 0 _ List.mem_cons_self rfl

end Weftik.AxisGroup.Backlash
