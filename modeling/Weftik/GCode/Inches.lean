import Weftik.GCode.Arcs
import Weftik.GCode.Blocks

/-!
# Programs in Inches

A program in inches is to be compiled to what the same program in millimetres is compiled to,
with every length and feed rate that stands under `G20` multiplied by 25.4. The compiler keeps
the unit in its modal state but reads every word in millimetres, so the two programs are
compiled to the same code if the words that are read under `G20` are zero, and to different
code if the first of them that are not are those of a rapid move.

## Main definitions

* `ModalState.metric`, `toMm`: the modal state and the program in millimetres.
* `Metric`: modal states that differ in their unit and feed rate only.
* `SameInMm`: the two programs are compiled to the same code.
* `ReadsZero`: the words that are read under `G20` are zero.
* `LedByRapid`: a rapid move is the first that reads another one.

## Main results

* `emitMotion_congr`: what the code of a motion depends on.
* `emitG0_inj`: the code of a rapid move shows where it goes.
* `sameInMm_cases`: which programs are compiled to the same code.
-/

open Outcome

namespace Weftik.GCode

open Motion

section

variable {P : Platform}

/-! ### Inches and millimetres -/

/-- A length or a feed rate in millimetres. -/
def inMm (v : P.F64) : P.F64 := P.f64.mul v (P.f64.lit 254 1)

/-- A block whose lengths and feed rate are in millimetres. -/
def GCodeCommand.inMm (cmd : GCodeCommand P) : GCodeCommand P :=
  { cmd with
    x := cmd.x.map GCode.inMm, y := cmd.y.map GCode.inMm, z := cmd.z.map GCode.inMm,
    i := cmd.i.map GCode.inMm, j := cmd.j.map GCode.inMm, k := cmd.k.map GCode.inMm,
    r := cmd.r.map GCode.inMm, f := cmd.f.map GCode.inMm }

/-- The block that says under `G21` what a block says under a unit word. -/
def GCodeCommand.toMm (unitMode : ℕ) (cmd : GCodeCommand P) : GCodeCommand P :=
  match cmd.kind with
  | .motion => if unitMode = 20 then cmd.inMm else cmd
  | .modal => if cmd.gCode = some 20 then { cmd with gCode := some 21 } else cmd
  | _ => cmd

/-- The program in millimetres: `G21` stands for `G20`, and the words under `G20` are
multiplied. -/
def toMm : ModalState P → List (GCodeCommand P) → List (GCodeCommand P)
  | _, [] => []
  | state, cmd :: cmds => cmd.toMm state.unitMode :: toMm (state.advance cmd) cmds

/-- The modal state under `G21`. -/
def ModalState.metric (state : ModalState P) : ModalState P := { state with unitMode := 21 }

/-- A program and the one in millimetres are compiled to the same code, or both are refused. -/
def SameInMm (M : FloatMath P) (cmds : List (GCodeCommand P)) (state : ModalState P) : Prop :=
  (compileCommands M (toMm state cmds) state.metric).toOption =
    (compileCommands M cmds state).toOption

/-! ### The unit makes no difference -/

/-- A state under `G21` that differs from another one in its unit and its feed rate only, and in
its feed rate only if that one is in inches. -/
structure Metric (inchFeed : Prop) (state state' : ModalState P) : Prop where
  same : state' = { state.metric with feedrate := state'.feedrate }
  feed : ¬inchFeed → state'.feedrate = state.feedrate

theorem metric_metric (state : ModalState P) : Metric False state state.metric :=
  ⟨rfl, fun _ => rfl⟩

variable {state state' : ModalState P} {cmd : GCodeCommand P}

/-- A block that is not a motion goes to states that differ in their unit and feed rate only. -/
theorem Metric.advance_of_ne_motion {inchFeed : Prop} (h : Metric inchFeed state state')
    (hkind : cmd.kind ≠ .motion) (unitMode : ℕ) :
    Metric inchFeed (state.advance cmd) (state'.advance (cmd.toMm unitMode)) := by
  obtain ⟨kind, gCode, mCode, x, y, z, i, j, k, r, f, s, line⟩ := cmd
  obtain ⟨hsame, hfeed⟩ := h
  generalize state'.feedrate = feedrate at hsame hfeed
  subst hsame
  cases kind with
  | motion => exact absurd rfl hkind
  | spindle => cases s <;> exact ⟨rfl, hfeed⟩
  | programControl => exact ⟨rfl, hfeed⟩
  | unknown => exact ⟨rfl, hfeed⟩
  | modal =>
      cases gCode with
      | none => exact ⟨rfl, hfeed⟩
      | some g =>
          by_cases h20 : g = 20
          · subst h20
            exact ⟨rfl, hfeed⟩
          · rw [GCodeCommand.toMm]
            dsimp only
            rw [if_neg (by rw [Option.some.injEq]; exact h20)]
            by_cases h21 : g = 21
            · subst h21
              exact ⟨rfl, hfeed⟩
            · simp only [ModalState.advance, ModalState.metric, h20, h21, or_self, if_false]
              split_ifs <;> exact ⟨rfl, hfeed⟩

/-- A block that is not a motion has the same code in millimetres. -/
theorem emitCommand_of_ne_motion (M : FloatMath P) (hkind : cmd.kind ≠ .motion)
    (state state' : ModalState P) (unitMode : ℕ) (out : Emitted P) :
    emitCommand M (cmd.toMm unitMode) state' out = emitCommand M cmd state out := by
  cases h : cmd.kind with
  | motion => exact absurd h hkind
  | modal =>
      rw [GCodeCommand.toMm, h]
      dsimp only
      split <;> simp only [emitCommand, h]
  | spindle => simp only [GCodeCommand.toMm, emitCommand, h]
  | programControl => simp only [GCodeCommand.toMm, emitCommand, h]
  | unknown => simp only [GCodeCommand.toMm, emitCommand, h]

/-! ### Motions -/

theorem feedrate_advance (hkind : cmd.kind = .motion) (state : ModalState P) :
    (state.advance cmd).feedrate = cmd.f.getD state.feedrate := by
  obtain ⟨kind, gCode, mCode, x, y, z, i, j, k, r, f, s, line⟩ := cmd
  obtain rfl : kind = .motion := hkind
  cases gCode with
  | none => cases f <;> rfl
  | some g =>
      by_cases hg : g ≤ 3 <;> cases f <;>
        simp only [ModalState.advance, hg, if_true, if_false] <;> rfl

/-- Motions with the same axis words go to states that differ in their unit and feed rate only. -/
theorem Metric.advance_motion {inchFeed : Prop} (h : Metric inchFeed state state')
    {cmd' : GCodeCommand P} (hkind : cmd.kind = .motion) (hkind' : cmd'.kind = .motion)
    (hcode : cmd'.gCode = cmd.gCode) (hline : cmd'.line = cmd.line) (hx : cmd'.x = cmd.x)
    (hy : cmd'.y = cmd.y) (hz : cmd'.z = cmd.z) :
    state'.advance cmd' =
      { (state.advance cmd).metric with feedrate := (state'.advance cmd').feedrate } := by
  rw [feedrate_advance hkind']
  obtain ⟨hsame, -⟩ := h
  generalize state'.feedrate = feedrate at hsame
  subst hsame
  obtain ⟨kind, gCode, mCode, x, y, z, i, j, k, r, f, s, line⟩ := cmd
  obtain ⟨kind', gCode', mCode', x', y', z', i', j', k', r', f', s', line'⟩ := cmd'
  obtain rfl : kind = .motion := hkind
  obtain rfl : kind' = .motion := hkind'
  obtain rfl : gCode' = gCode := hcode
  obtain rfl : line' = line := hline
  obtain rfl : x' = x := hx
  obtain rfl : y' = y := hy
  obtain rfl : z' = z := hz
  cases gCode' with
  | none => cases f <;> cases f' <;> rfl
  | some g =>
      by_cases hg : g ≤ 3 <;> cases f <;> cases f' <;>
        simp only [ModalState.advance, hg, if_true, if_false] <;> rfl

/-- A linear move with a length. -/
def GCodeCommand.IsFeedMove (M : FloatMath P) (cmd : GCodeCommand P) (state : ModalState P) :
    Prop :=
  cmd.kind = .motion ∧ cmd.gCode.getD state.motionMode = 1 ∧
    P.f64.ge ((profileOf state (state.advance cmd)).distance M) (P.f64.lit 1 9) = true

/-- The code of a motion depends on its positions, its circle, and the feed rate of a linear
move with a length. -/
theorem emitMotion_congr {M : FloatMath P} {cmd' : GCodeCommand P} (hkind : cmd.kind = .motion)
    (hcode : cmd'.gCode = cmd.gCode) (hline : cmd'.line = cmd.line)
    (hmode : state'.motionMode = state.motionMode) (hstart : state'.position = state.position)
    (htarget : (state'.advance cmd').position = (state.advance cmd).position)
    (hacceleration : (state'.advance cmd').acceleration = (state.advance cmd).acceleration)
    (hfeed : cmd.IsFeedMove M state → (state'.advance cmd').feedrate = (state.advance cmd).feedrate)
    (harc : ∀ g, cmd.gCode = some g → g = 2 ∨ g = 3 →
        emitArc M g state' (state'.advance cmd') cmd' = emitArc M g state (state.advance cmd) cmd)
    (out : Emitted P) : emitMotion M cmd' state' out = emitMotion M cmd state out := by
  obtain ⟨hx, hy, hz⟩ := Position.mk.inj hstart
  obtain ⟨hx', hy', hz'⟩ := Position.mk.inj htarget
  have harc : ∀ g, cmd.gCode.getD state.motionMode = g → g = 2 ∨ g = 3 → ∀ g',
      cmd.gCode = some g' → emitArc M g' state' (state'.advance cmd') cmd' =
        emitArc M g' state (state.advance cmd) cmd := by
    intro g hg hcases g' hcode
    rw [hcode, Option.getD_some] at hg
    exact harc g' hcode (hg ▸ hcases)
  unfold emitMotion
  rw [hcode, hmode, hline]
  dsimp only
  split
  · rw [emitG0, emitG0, hx', hy', hz']
  · rename_i hlinear
    by_cases hlength : P.f64.ge ((profileOf state (state.advance cmd)).distance M)
      (P.f64.lit 1 9) = true
    · have hprofile : profileOf state' (state'.advance cmd') = profileOf state (state.advance cmd)
        := by
        rw [profileOf, profileOf, hx, hy, hz, hx', hy', hz', hacceleration,
          hfeed ⟨hkind, hlinear, hlength⟩]
      rw [hprofile]
    · have hdistance : (profileOf state' (state'.advance cmd')).distance M =
          (profileOf state (state.advance cmd)).distance M := by
        simp only [profileOf, TrapezoidalProfile.distance, hx, hy, hz, hx', hy', hz']
      rw [hdistance, if_neg hlength, if_neg hlength]
  · rename_i hmode
    cases hcode : cmd.gCode with
    | none => rfl
    | some g =>
        dsimp only
        rw [harc 2 hmode (.inl rfl) g hcode]
  · rename_i hmode
    cases hcode : cmd.gCode with
    | none => rfl
    | some g =>
        dsimp only
        rw [harc 3 hmode (.inr rfl) g hcode]
  · rfl

end

/-! ### Zero words -/

section

variable {c : Bool}

/-- A word that is not there, or zero. -/
def IsZero (word : Option ℝ) : Prop := ∀ v, word = some v → v = 0

/-- The axis words of a block are zero. -/
def GCodeCommand.ZeroAxes (cmd : GCodeCommand (Platform.real c)) : Prop :=
  IsZero cmd.x ∧ IsZero cmd.y ∧ IsZero cmd.z

/-- The length words that a motion block reads are zero: the axes, and for an arc the offsets in
the plane, or without offsets the radius. -/
structure GCodeCommand.ZeroWords (cmd : GCodeCommand (Platform.real c)) (plane : ℕ) : Prop where
  axes : cmd.ZeroAxes
  offsets : cmd.gCode = some 2 ∨ cmd.gCode = some 3 → cmd.hasOffsets = true →
    ∀ p, Plane.ofCode plane = some p → p.offset cmd = 0
  radius : cmd.gCode = some 2 ∨ cmd.gCode = some 3 → cmd.hasOffsets = false → IsZero cmd.r

/-- Is the feed rate after a block one in inches, if it was or was not before the block? -/
def GCodeCommand.InchFeed (cmd : GCodeCommand (Platform.real c)) (unitMode : ℕ) (before : Prop) :
    Prop :=
  match cmd.kind, cmd.f with
  | .motion, some f => unitMode = 20 ∧ f ≠ (0 : ℝ)
  | _, _ => before

/-- The lengths that the motion blocks read under `G20` are zero, and no linear move with a
length has its feed rate from there. -/
def ReadsZero : ModalState (Platform.real c) → Prop → List (GCodeCommand (Platform.real c)) → Prop
  | _, _, [] => True
  | state, inchFeed, cmd :: cmds =>
      (state.unitMode = 20 → cmd.kind = .motion → cmd.ZeroWords state.plane) ∧
        (cmd.IsFeedMove (FloatMath.real c) state → ¬cmd.InchFeed state.unitMode inchFeed) ∧
          ReadsZero (state.advance cmd) (cmd.InchFeed state.unitMode inchFeed) cmds

/-- The first block that reads a word under `G20` that is not zero is a rapid move, and an axis
word is among those that it reads. -/
def LedByRapid (state : ModalState (Platform.real c))
    (cmds : List (GCodeCommand (Platform.real c))) : Prop :=
  ∃ before cmd after, cmds = before ++ cmd :: after ∧ ReadsZero state False before ∧
    (before.foldl ModalState.advance state).unitMode = 20 ∧ cmd.kind = .motion ∧
      cmd.gCode = some 0 ∧ ¬cmd.ZeroAxes

theorem inMm_real (v : ℝ) : inMm (P := Platform.real c) v = v * (254 / 10) := by
  have hfactor : inMm (P := Platform.real c) v = v * ((254 : ℕ) / 10 ^ 1 : ℝ) := rfl
  rw [hfactor]
  norm_num

/-- Zero is zero in millimetres. -/
theorem IsZero.inMm {word : Option ℝ} (h : IsZero word) :
    Option.map (inMm (P := Platform.real c)) word = word := by
  cases word with
  | none => rfl
  | some v =>
      obtain rfl := h v rfl
      exact congrArg some ((inMm_real 0).trans (zero_mul _))

theorem hasOffsets_inMm (cmd : GCodeCommand (Platform.real c)) :
    cmd.inMm.hasOffsets = cmd.hasOffsets := by
  simp only [GCodeCommand.hasOffsets, GCodeCommand.inMm, Option.isSome_map]

theorem getD_inMm (word : Option ℝ) :
    (Option.map (inMm (P := Platform.real c)) word).getD (0 : ℝ) = word.getD 0 * (254 / 10) := by
  cases word with
  | none => exact (zero_mul _).symm
  | some v => exact inMm_real v

theorem offset_inMm (p : Plane) (cmd : GCodeCommand (Platform.real c)) :
    p.offset cmd.inMm = p.offset cmd * (254 / 10 : ℝ) := by
  have hpair : ∀ a b : Option ℝ,
      (⟨(Option.map (inMm (P := Platform.real c)) a).getD (0 : ℝ),
        (Option.map (inMm (P := Platform.real c)) b).getD (0 : ℝ)⟩ : ℂ) =
      ⟨a.getD 0, b.getD 0⟩ * (254 / 10 : ℝ) := by
    intro a b
    rw [getD_inMm, getD_inMm]
    exact Complex.ext (by rw [Complex.re_mul_ofReal]) (by rw [Complex.im_mul_ofReal])
  cases p <;> exact hpair _ _

/-! ### Zero words make no difference -/

namespace GCodeCommand

variable {cmd : GCodeCommand (Platform.real c)} {state : ModalState (Platform.real c)}

/-- The centre of an arc without lengths is the same in millimetres. -/
theorem ZeroWords.center {plane : ℕ} (h : cmd.ZeroWords plane)
    (harc : cmd.gCode = some 2 ∨ cmd.gCode = some 3) {p : Plane}
    (hp : Plane.ofCode plane = some p) (start target : Position (Platform.real c)) :
    calculateArcCenter (FloatMath.real c) (p.axes start target) cmd.inMm plane =
      calculateArcCenter (FloatMath.real c) (p.axes start target) cmd plane := by
  cases hoffsets : cmd.hasOffsets with
  | true =>
      have hoffsets' : cmd.inMm.hasOffsets = true := by rw [hasOffsets_inMm, hoffsets]
      rw [center_of_offsets hp hoffsets, center_of_offsets hp hoffsets', offset_inMm,
        h.offsets harc hoffsets p hp, zero_mul]
  | false =>
      have hnone : (cmd.i.isSome || cmd.j.isSome || cmd.k.isSome) = false := hoffsets
      have hnone' : (cmd.inMm.i.isSome || cmd.inMm.j.isSome || cmd.inMm.k.isSome) = false := by
        have hoffsets' := hasOffsets_inMm cmd
        rw [hoffsets] at hoffsets'
        exact hoffsets'
      have hr : cmd.inMm.r = cmd.r := (h.radius harc hoffsets).inMm
      rw [calculateArcCenter, calculateArcCenter, hnone, hnone', hr]
      rfl

/-- The code of an arc without lengths is the same in millimetres. -/
theorem ZeroWords.emitArc {prev prev' next next' : ModalState (Platform.real c)}
    (h : cmd.ZeroWords prev.plane) (harc : cmd.gCode = some 2 ∨ cmd.gCode = some 3)
    (hplane : prev'.plane = prev.plane) (hstart : prev'.position = prev.position)
    (htarget : next'.position = next.position) (g : ℕ) :
    GCode.emitArc (FloatMath.real c) g prev' next' cmd.inMm =
      GCode.emitArc (FloatMath.real c) g prev next cmd := by
  rw [emitArc_eq, emitArc_eq, planeAxes_eq, planeAxes_eq, hplane, hstart, htarget]
  cases hp : Plane.ofCode prev.plane with
  | none => rfl
  | some p =>
      dsimp only [Option.map_some]
      rw [h.center harc hp]
      rfl

end GCodeCommand

/-- The code of an arc depends on its plane and positions. -/
theorem emitArc_congr {P : Platform} (M : FloatMath P) {prev prev' next next' : ModalState P}
    (hplane : prev'.plane = prev.plane) (hstart : prev'.position = prev.position)
    (htarget : next'.position = next.position) (g : ℕ) (cmd : GCodeCommand P) :
    emitArc M g prev' next' cmd = emitArc M g prev next cmd := by
  rw [emitArc_eq, emitArc_eq, planeAxes_eq, planeAxes_eq, hplane, hstart, htarget]

namespace GCodeCommand

variable {cmd : GCodeCommand (Platform.real c)} {state state' : ModalState (Platform.real c)}
  {inchFeed : Prop}

/-- What the block in millimetres of a motion without lengths has in common with it. -/
theorem toMm_motion (hkind : cmd.kind = .motion) {unitMode plane : ℕ}
    (hzero : unitMode = 20 → cmd.ZeroWords plane) :
    ((cmd.toMm unitMode).kind = .motion ∧ (cmd.toMm unitMode).gCode = cmd.gCode ∧
        (cmd.toMm unitMode).line = cmd.line) ∧
      (cmd.toMm unitMode).x = cmd.x ∧ (cmd.toMm unitMode).y = cmd.y ∧
        (cmd.toMm unitMode).z = cmd.z := by
  rw [toMm, hkind]
  dsimp only
  split
  · obtain ⟨hx, hy, hz⟩ := (hzero ‹_›).axes
    exact ⟨⟨hkind, rfl, rfl⟩, hx.inMm, hy.inMm, hz.inMm⟩
  · exact ⟨⟨hkind, rfl, rfl⟩, rfl, rfl, rfl⟩

/-- The feed rate after a block in millimetres, unless it is one in inches. -/
theorem feedrate_toMm (hkind : cmd.kind = .motion) (h : Metric inchFeed state state')
    (hfeed : ¬cmd.InchFeed state.unitMode inchFeed) :
    (cmd.toMm state.unitMode).f.getD state'.feedrate = cmd.f.getD state.feedrate := by
  rw [InchFeed, hkind] at hfeed
  rw [toMm, hkind]
  dsimp only
  cases hf : cmd.f with
  | none =>
      rw [hf] at hfeed
      split
      · rw [inMm, hf]
        exact h.feed hfeed
      · rw [hf]
        exact h.feed hfeed
  | some f =>
      rw [hf] at hfeed
      split
      · have hzero : f = 0 := by
          by_contra hne
          exact hfeed ⟨‹_›, hne⟩
        rw [inMm, hf, hzero]
        exact (inMm_real 0).trans (zero_mul _)
      · rw [hf]
        rfl

/-- A block that reads no length under `G20` goes to states that differ in their unit and feed
rate only. -/
theorem advance_toMm (h : Metric inchFeed state state')
    (hzero : state.unitMode = 20 → cmd.kind = .motion → cmd.ZeroWords state.plane) :
    Metric (cmd.InchFeed state.unitMode inchFeed) (state.advance cmd)
      (state'.advance (cmd.toMm state.unitMode)) := by
  by_cases hkind : cmd.kind = .motion
  · obtain ⟨⟨hkind', hcode, hline⟩, hx, hy, hz⟩ := toMm_motion hkind fun h => hzero h hkind
    refine ⟨h.advance_motion hkind hkind' hcode hline hx hy hz, fun hfeed => ?_⟩
    rw [feedrate_advance hkind, feedrate_advance hkind', feedrate_toMm hkind h hfeed]
  · have hsame : cmd.InchFeed state.unitMode inchFeed = inchFeed := by
      rw [InchFeed]
      split
      · exact absurd ‹cmd.kind = .motion› hkind
      · rfl
    rw [hsame]
    exact h.advance_of_ne_motion hkind _

/-- A block that reads no length under `G20` has the same code in millimetres, unless it is a
linear move whose feed rate is one in inches. -/
theorem emitCommand_toMm (h : Metric inchFeed state state')
    (hzero : state.unitMode = 20 → cmd.kind = .motion → cmd.ZeroWords state.plane)
    (hfeed : cmd.IsFeedMove (FloatMath.real c) state → ¬cmd.InchFeed state.unitMode inchFeed)
    (out : Emitted (Platform.real c)) :
    emitCommand (FloatMath.real c) (cmd.toMm state.unitMode) state' out =
      emitCommand (FloatMath.real c) cmd state out := by
  by_cases hkind : cmd.kind = .motion
  swap
  · exact emitCommand_of_ne_motion _ hkind _ _ _ _
  have hnext := advance_toMm h hzero
  obtain ⟨⟨hkind', hcode, hline⟩, -⟩ := toMm_motion hkind fun h => hzero h hkind
  have hsame : ∀ {inchFeed : Prop} {state state' : ModalState (Platform.real c)},
      Metric inchFeed state state' → state'.motionMode = state.motionMode ∧
        state'.position = state.position ∧ state'.plane = state.plane ∧
          state'.acceleration = state.acceleration := by
    intro inchFeed state state' h
    rw [h.same]
    exact ⟨rfl, rfl, rfl, rfl⟩
  obtain ⟨hmode, hstart, hplane, -⟩ := hsame h
  obtain ⟨-, htarget, -, hacceleration⟩ := hsame hnext
  rw [emitCommand, emitCommand, hkind, hkind']
  refine emitMotion_congr hkind hcode hline hmode hstart htarget hacceleration
    (fun hmove => hnext.feed (hfeed hmove)) ?_ out
  intro g hg hcases
  have harc : cmd.gCode = some 2 ∨ cmd.gCode = some 3 := by
    rcases hcases with rfl | rfl
    · exact .inl hg
    · exact .inr hg
  by_cases hunit : state.unitMode = 20
  · have hinMm : cmd.toMm state.unitMode = cmd.inMm := by
      rw [toMm, hkind]
      exact if_pos hunit
    rw [hinMm] at htarget ⊢
    exact (hzero hunit hkind).emitArc harc hplane hstart htarget g
  · have hself : cmd.toMm state.unitMode = cmd := by
      rw [toMm, hkind]
      exact if_neg hunit
    rw [hself] at htarget ⊢
    exact emitArc_congr _ hplane hstart htarget g cmd

end GCodeCommand

section

variable {cmds : List (GCodeCommand (Platform.real c))}
  {state state' : ModalState (Platform.real c)} {inchFeed : Prop}

/-- A program that reads no length under `G20` has the same code in millimetres. -/
theorem ReadsZero.emitCommands (h : ReadsZero state inchFeed cmds)
    (hstate : Metric inchFeed state state') (out : Emitted (Platform.real c)) :
    GCode.emitCommands (FloatMath.real c) (toMm state cmds) state' out =
      GCode.emitCommands (FloatMath.real c) cmds state out := by
  induction cmds generalizing state state' inchFeed out with
  | nil => rfl
  | cons cmd cmds ih =>
      obtain ⟨hzero, hfeed, hrest⟩ := h
      rw [toMm, GCode.emitCommands, GCode.emitCommands,
        GCodeCommand.emitCommand_toMm hstate hzero hfeed]
      cases emitCommand (FloatMath.real c) cmd state out with
      | error e => rfl
      | ok out' => exact ih hrest (GCodeCommand.advance_toMm hstate hzero) out'

/-- It goes to states that differ in their unit and feed rate only. -/
theorem ReadsZero.foldl_toMm (h : ReadsZero state inchFeed cmds)
    (hstate : Metric inchFeed state state') :
    ∃ inchFeed', Metric inchFeed' (cmds.foldl ModalState.advance state)
      ((toMm state cmds).foldl ModalState.advance state') := by
  induction cmds generalizing state state' inchFeed with
  | nil => exact ⟨inchFeed, hstate⟩
  | cons cmd cmds ih =>
      obtain ⟨hzero, -, hrest⟩ := h
      rw [toMm, List.foldl_cons, List.foldl_cons]
      exact ih hrest (GCodeCommand.advance_toMm hstate hzero)

theorem ReadsZero.sameInMm (h : ReadsZero state False cmds) :
    SameInMm (FloatMath.real c) cmds state := by
  rw [SameInMm, compileCommands, compileCommands, h.emitCommands (metric_metric state)]

end

end

/-! ### Where the code of a rapid move ends -/

section

variable {P : Platform} {M : FloatMath P}

/-- The code does not begin like the stores of the second and third axis of a rapid move. -/
def BeginsBlock (insts : List (Instruction P)) : Prop :=
  ∀ v, insts.head? ≠ some (.loadImm regPosY v) ∧ insts.head? ≠ some (.loadImm regPosZ v)

theorem BeginsBlock.nil : BeginsBlock ([] : List (Instruction P)) := fun _ => ⟨nofun, nofun⟩

theorem BeginsBlock.append {insts more : List (Instruction P)} (h : BeginsBlock insts)
    (hmore : BeginsBlock more) : BeginsBlock (insts ++ more) := by
  cases insts with
  | nil => exact hmore
  | cons inst insts => exact h

theorem loadImm_inj {reg reg' : ℕ} {v v' : HalValue P}
    (h : Instruction.loadImm reg v = .loadImm reg' v') : reg = reg' ∧ v = v' := by
  have hops := congrArg Instruction.operands h
  simp only [Instruction.loadImm, List.cons.injEq, Operand.register.injEq,
    Operand.immediate.injEq, and_true] at hops
  exact hops

theorem beginsBlock_loadImm {reg : ℕ} (hY : reg ≠ regPosY) (hZ : reg ≠ regPosZ) (v : HalValue P)
    (insts : List (Instruction P)) : BeginsBlock (.loadImm reg v :: insts) := fun _ =>
  ⟨fun h => hY (loadImm_inj (Option.some.inj h)).1,
    fun h => hZ (loadImm_inj (Option.some.inj h)).1⟩

theorem beginsBlock_storeImm (value : HalValue P) (signals : List String) :
    BeginsBlock (storeImm value signals) :=
  beginsBlock_loadImm (by decide) (by decide) _ _

theorem beginsBlock_emitG0 (next : ModalState P) : BeginsBlock (emitG0 next) := by
  rw [emitG0, List.append_assoc]
  exact beginsBlock_loadImm (by decide) (by decide) _ _

theorem beginsBlock_emitSpindle (cmd : GCodeCommand P) : BeginsBlock (emitSpindle cmd) := by
  rw [emitSpindle]
  refine BeginsBlock.append ?_ ?_
  · split
    · exact beginsBlock_storeImm _ _
    · exact .nil
  · split
    · exact beginsBlock_storeImm _ _
    · exact beginsBlock_storeImm _ _
    · exact (beginsBlock_storeImm _ _).append (beginsBlock_storeImm _ _)
    · exact .nil

theorem beginsBlock_emitProgramControl (cmd : GCodeCommand P) :
    BeginsBlock (emitProgramControl cmd) := by
  rw [emitProgramControl]
  refine BeginsBlock.append ?_ ?_
  · split
    · exact beginsBlock_storeImm _ _
    · exact .nil
  · split
    · exact fun _ => ⟨by rintro ⟨⟩, by rintro ⟨⟩⟩
    · exact .nil

theorem beginsBlock_emitArc {g : ℕ} {prev next : ModalState P} {cmd : GCodeCommand P}
    {insts : List (Instruction P)} (h : emitArc M g prev next cmd = .ok insts) :
    BeginsBlock insts := by
  rw [emitArc_eq] at h
  split at h
  · cases h
  · obtain ⟨center, -, hcode⟩ := bind_eq_ok h
    rw [arcCode, turnCode] at hcode
    split at hcode
    · cases hcode
    · dsimp only at hcode
      split at hcode
      · obtain rfl := Except.ok.inj hcode
        exact .nil
      · obtain rfl := Except.ok.inj hcode
        exact beginsBlock_loadImm (by decide) (by decide) _ _

theorem prefix_emitProfilePhase (p : TrapezoidalProfile P) (insts : List (Instruction P))
    (cycles : UInt32) (phase : Phase) : insts <+: emitProfilePhase M p insts cycles phase := by
  rw [emitProfilePhase]
  split
  · exact List.prefix_rfl
  · simp only [List.append_assoc]
    exact List.prefix_append _ _

/-- A profile begins with its constants. -/
theorem beginsBlock_generateTrapezoidalProgram {p : TrapezoidalProfile P} {program : HalProgram P}
    (h : generateTrapezoidalProgram M p = .ok program) : BeginsBlock program.instructions := by
  obtain ⟨insts, hinsts, hprogram⟩ := bind_eq_ok h
  obtain rfl := Except.ok.inj hprogram
  have hprefix : [.loadImm regDt (.f64 p.dt)] <+: insts := by
    rw [emitG1] at hinsts
    split at hinsts
    · obtain rfl := Except.ok.inj hinsts
      exact List.prefix_append _ _
    · split at hinsts
      · obtain rfl := Except.ok.inj hinsts
        refine List.IsPrefix.trans ?_ (prefix_emitProfilePhase p _ _ _)
        refine List.IsPrefix.trans ?_ (prefix_emitProfilePhase p _ _ _)
        refine List.IsPrefix.trans ?_ (prefix_emitProfilePhase p _ _ _)
        exact List.prefix_append _ _
      · obtain ⟨total, -, htotal⟩ := bind_eq_ok hinsts
        obtain rfl := Except.ok.inj htotal
        exact List.prefix_append _ _
  obtain ⟨more, rfl⟩ := hprefix
  exact beginsBlock_loadImm (by decide) (by decide) _ _

theorem ofPieces_beginsBlock : OfPieces M (fun _ => True) BeginsBlock where
  nil := .nil
  append := BeginsBlock.append
  rapid := beginsBlock_emitG0
  profile := fun _ h => beginsBlock_generateTrapezoidalProgram h
  arc := beginsBlock_emitArc
  spindle := beginsBlock_emitSpindle
  control := fun cmd _ _ => beginsBlock_emitProgramControl cmd

end

section

variable {c : Bool}

theorem storeTarget_inj {reg : ℕ} {v v' : ℝ} {pos enable : String}
    (h : storeTarget (P := Platform.real c) reg v pos enable =
      storeTarget (P := Platform.real c) reg v' pos enable) : v = v' := by
  have hvalue := (loadImm_inj (List.cons.inj h).1).2
  exact HalValue.f64.inj hvalue

variable {more more' : List (Instruction (Platform.real c))}

/-- The stores of an axis, if its target is not zero, and what comes after them. -/
theorem axisStores_inj {reg : ℕ} {v v' : ℝ} {pos enable : String}
    (hmore : ∀ w, more.head? ≠ some (.loadImm reg w))
    (hmore' : ∀ w, more'.head? ≠ some (.loadImm reg w))
    (h : (if FloatOps.real.eq v FloatOps.real.zero then [] else storeTarget (P := Platform.real c)
        reg v pos enable) ++ more = (if FloatOps.real.eq v' FloatOps.real.zero then
        [] else storeTarget (P := Platform.real c) reg v' pos enable) ++ more') :
    v = v' ∧ more = more' := by
  have hzero : ∀ {w : ℝ}, FloatOps.real.eq w FloatOps.real.zero = true ↔ w = 0 := by
    intro w
    rw [FloatOps.real_eq, FloatOps.real_zero, decide_eq_true_eq]
  by_cases hv : v = 0
  · by_cases hv' : v' = 0
    · rw [if_pos (hzero.mpr hv), if_pos (hzero.mpr hv')] at h
      exact ⟨hv.trans hv'.symm, h⟩
    · rw [if_pos (hzero.mpr hv), if_neg (hv' ∘ hzero.mp), List.nil_append] at h
      exact absurd (congrArg List.head? h) (hmore _)
  · by_cases hv' : v' = 0
    · rw [if_neg (hv ∘ hzero.mp), if_pos (hzero.mpr hv'), List.nil_append] at h
      exact absurd (congrArg List.head? h).symm (hmore' _)
    · rw [if_neg (hv ∘ hzero.mp), if_neg (hv' ∘ hzero.mp)] at h
      obtain ⟨hstores, hrest⟩ := List.append_inj h rfl
      exact ⟨storeTarget_inj hstores, hrest⟩

/-- The code of a rapid move shows the position that it goes to. -/
theorem emitG0_inj {next next' : ModalState (Platform.real c)} (hmore : BeginsBlock more)
    (hmore' : BeginsBlock more') (h : emitG0 next ++ more = emitG0 next' ++ more') :
    next.position = next'.position := by
  rw [emitG0, emitG0, List.append_assoc, List.append_assoc, List.append_assoc,
    List.append_assoc] at h
  obtain ⟨hX, hrest⟩ := List.append_inj h rfl
  have hnotY : ∀ {v : ℝ} {more : List (Instruction (Platform.real c))}, BeginsBlock more →
      ∀ w, ((if FloatOps.real.eq v FloatOps.real.zero then [] else
        storeTarget (P := Platform.real c) regPosZ v "axis.2.pos" "axis.2.enable") ++
          more).head? ≠ some (.loadImm regPosY w) := by
    intro v more hbegins w
    split
    · exact (hbegins w).1
    · intro hhead
      exact absurd (loadImm_inj (Option.some.inj hhead)).1 (by decide)
  obtain ⟨hY, hrest⟩ := axisStores_inj (hnotY hmore) (hnotY hmore') hrest
  obtain ⟨hZ, -⟩ := axisStores_inj (fun w => (hmore w).2) (fun w => (hmore' w).2) hrest
  rw [ModalState.position, ModalState.position, storeTarget_inj hX, hY, hZ]

/-! ### Which programs are compiled to the same code -/

/-- An axis word that is not zero leads elsewhere in millimetres. -/
theorem target_inMm (coordMode : ℕ) (current : ℝ) {word : Option ℝ}
    (h : ModalState.target (P := Platform.real c) coordMode current
        (word.map (inMm (P := Platform.real c))) =
      ModalState.target (P := Platform.real c) coordMode current word) : IsZero word := by
  rintro v rfl
  have hv := inMm_real (c := c) v
  rw [Option.map_some, ModalState.target, ModalState.target, hv] at h
  dsimp only at h
  split at h
  · have hv : v * (254 / 10) = v := h
    linarith
  · have hv : current + v * (254 / 10) = current + v := h
    linarith

/-- The targets of a rapid move with an axis word that is not zero differ. -/
theorem position_inMm {cmd : GCodeCommand (Platform.real c)} (hkind : cmd.kind = .motion)
    (hcode : cmd.gCode = some 0) {inchFeed : Prop} {state state' : ModalState (Platform.real c)}
    (hstate : Metric inchFeed state state')
    (h : (state'.advance cmd.inMm).position = (state.advance cmd).position) : cmd.ZeroAxes := by
  have hposition : ∀ {cmd : GCodeCommand (Platform.real c)}, cmd.kind = .motion →
      cmd.gCode = some 0 → ∀ state : ModalState (Platform.real c),
        (state.advance cmd).position = (state.updatePosition cmd).position := by
    intro cmd hkind hcode state
    rw [ModalState.advance, hkind, hcode]
    dsimp only
    cases cmd.f <;> rfl
  have hkind' : cmd.inMm.kind = .motion := hkind
  have hcode' : cmd.inMm.gCode = some 0 := hcode
  rw [hposition hkind' hcode', hposition hkind hcode, hstate.same] at h
  obtain ⟨hx, hy, hz⟩ := Position.mk.inj h
  exact ⟨target_inMm _ _ hx, target_inMm _ _ hy, target_inMm _ _ hz⟩

theorem toMm_append (before rest : List (GCodeCommand (Platform.real c)))
    (state : ModalState (Platform.real c)) :
    toMm state (before ++ rest) =
      toMm state before ++ toMm (before.foldl ModalState.advance state) rest := by
  induction before generalizing state with
  | nil => rfl
  | cons cmd before ih => rw [List.cons_append, toMm, toMm, ih, List.cons_append, List.foldl_cons]

/-- A rapid move appends the stores of its target. -/
theorem emitCommand_rapid {P : Platform} {M : FloatMath P} {cmd : GCodeCommand P}
    (hkind : cmd.kind = .motion) (hcode : cmd.gCode = some 0) (state : ModalState P)
    (out : Emitted P) :
    emitCommand M cmd state out = .ok (out.extend (emitG0 (state.advance cmd))) := by
  rw [emitCommand, hkind]
  dsimp only
  rw [emitMotion, hcode]
  rfl

/-- The code of a rapid move and of the blocks after it. -/
theorem emitCommands_rapid {P : Platform} {M : FloatMath P} {cmd : GCodeCommand P}
    (hkind : cmd.kind = .motion) (hcode : cmd.gCode = some 0) {cmds : List (GCodeCommand P)}
    {state : ModalState P} {out out' : Emitted P}
    (h : emitCommands M (cmd :: cmds) state out = .ok out') :
    ∃ more, out'.instructions = out.instructions ++ (emitG0 (state.advance cmd) ++ more) ∧
      BeginsBlock more := by
  rw [emitCommands, emitCommand_rapid hkind hcode] at h
  obtain ⟨more, hmore, hbegins⟩ := ofPieces_beginsBlock.emitCommands (fun _ _ => trivial) h
  exact ⟨more, hmore.trans (List.append_assoc _ _ _), hbegins⟩

/-- A program led by a rapid move under `G20` has other code in millimetres. -/
theorem LedByRapid.not_sameInMm {cmds : List (GCodeCommand (Platform.real c))}
    {state : ModalState (Platform.real c)} (h : LedByRapid state cmds)
    {program : HalProgram (Platform.real c)}
    (haccepted : compileCommands (FloatMath.real c) cmds state = .ok program) :
    ¬SameInMm (FloatMath.real c) cmds state := by
  obtain ⟨before, cmd, after, rfl, hbefore, hunit, hkind, hcode, haxes⟩ := h
  intro hsame
  have hkind' : cmd.inMm.kind = .motion := hkind
  have hcode' : cmd.inMm.gCode = some 0 := hcode
  have hcmd : cmd.toMm (before.foldl ModalState.advance state).unitMode = cmd.inMm := by
    rw [GCodeCommand.toMm, hkind]
    exact if_pos hunit
  rw [SameInMm, haccepted] at hsame
  obtain ⟨out, hout, hprogram⟩ := bind_eq_ok haccepted
  rw [compileCommands] at hsame
  cases hout' : emitCommands (FloatMath.real c) (toMm state (before ++ cmd :: after)) state.metric
    ⟨prelude, axisSignals⟩ with
  | error e =>
      rw [hout'] at hsame
      cases hsame
  | ok out' =>
      rw [hout'] at hsame
      have hinsts : out'.instructions = out.instructions := by
        obtain rfl := Except.ok.inj hprogram
        exact congrArg HalProgram.instructions (Option.some.inj hsame)
      rw [emitCommands_append] at hout
      obtain ⟨out₁, hout₁, hout⟩ := bind_eq_ok hout
      rw [toMm_append, emitCommands_append, hbefore.emitCommands (metric_metric state), hout₁,
        ok_bind, toMm, hcmd] at hout'
      obtain ⟨inchFeed, hstate⟩ := hbefore.foldl_toMm (metric_metric state)
      obtain ⟨more, hmore, hbegins⟩ := emitCommands_rapid hkind hcode hout
      obtain ⟨more', hmore', hbegins'⟩ := emitCommands_rapid hkind' hcode' hout'
      rw [hmore, hmore'] at hinsts
      have hposition := emitG0_inj hbegins' hbegins (List.append_cancel_left hinsts)
      exact haxes (position_inMm hkind hcode hstate hposition)

/-- A program is compiled to the code of the program in millimetres if the words that it reads
under `G20` are zero, and to another code, where it is compiled, if the first of them that are
not include an axis word of a rapid move. -/
theorem sameInMm_cases (cmds : List (GCodeCommand (Platform.real c)))
    (state : ModalState (Platform.real c)) :
    (ReadsZero state False cmds → SameInMm (FloatMath.real c) cmds state) ∧
      (LedByRapid state cmds →
        (∃ program, compileCommands (FloatMath.real c) cmds state = .ok program) →
          ¬SameInMm (FloatMath.real c) cmds state) :=
  ⟨ReadsZero.sameInMm, fun hled ⟨_, haccepted⟩ => hled.not_sameInMm haccepted⟩

/-- A rapid move to zero under `G20`. -/
theorem rapidZero_sameInMm : SameInMm (FloatMath.real false)
    [.ofCodes (some 20) none 1, { GCodeCommand.ofCodes (some 0) none 2 with x := some (0 : ℝ) }]
    ModalState.new := by
  have hzero : IsZero (some 0) := fun v hv => (Option.some.inj hv).symm
  have hnone : IsZero none := fun v hv => nomatch hv
  refine (sameInMm_cases _ _).1 ⟨fun h => absurd h (by decide), fun h => absurd h.1 nofun, ?_,
    fun h => absurd h.2.1 (by decide), trivial⟩
  refine fun _ _ => ⟨⟨hzero, hnone, hnone⟩, fun h => ?_, fun h => ?_⟩
  · rcases h with h | h <;> exact absurd h (by decide)
  · rcases h with h | h <;> exact absurd h (by decide)

/-- `G20`, and then `G0 X1`. -/
noncomputable def rapidInch : List (GCodeCommand (Platform.real false)) :=
  [.ofCodes (some 20) none 1,
    { GCodeCommand.ofCodes (some 0) none 2 with x := some (1 : ℝ) }]

/-- A rapid move of an inch goes a millimetre. -/
theorem rapidInch_not_sameInMm : ¬SameInMm (FloatMath.real false) rapidInch ModalState.new := by
  have haccepted : compileCommands (FloatMath.real false) rapidInch ModalState.new = .ok _ := rfl
  refine LedByRapid.not_sameInMm
    ⟨[.ofCodes (some 20) none 1], _, [], rfl, ?_, rfl, rfl, rfl, ?_⟩ haccepted
  · exact ⟨fun h => absurd h (by decide), fun h => absurd h.1 nofun, trivial⟩
  · rintro ⟨hx, -, -⟩
    exact one_ne_zero (hx 1 rfl)

end

end Weftik.GCode
