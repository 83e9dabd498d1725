import Weftik.Lib.Transition

/-!
# Deployment of HMI Layouts

A deployment takes a number from a counter, and then puts the layout with its number into a
slot; the engine empties the slot at the boundary between two cycles, writes the layout file
and makes the layout active. The counter and the slot are two objects, so that a deployment
with a lower number can come to the slot after one with a higher number.

## Main definitions

* `HmiLayouts`: the counter, the slot, the active layout, and the deployments in progress.
* `HmiLayouts.step`: the atomic steps of the deployments and of the boundary.
* `HmiLayouts.StepCorrect`: what is expected of a step.
* `HmiLayouts.InOrder`: the condition under which it happens.

## Main results

* `HmiLayouts.inOrder_run_correct`: the property along every run that meets the condition.
-/

open Transition

namespace Weftik

/-- A layout with the number of its deployment. -/
structure HmiLayout where
  yamlBytes : List UInt8
  generation : ℕ
  deriving DecidableEq, Repr

/-- Where the deployment of a connection is: it has its number, or it has been put into the
slot and will be acknowledged. -/
inductive Deployment
  | idle
  | numbered (layout : HmiLayout)
  | stored (layout : HmiLayout)
  deriving DecidableEq, Repr

/-- The state of the deployments; `acknowledged` is a ghost field with the layouts whose
numbers have been sent to their clients. -/
structure HmiLayouts where
  hmiLayoutGeneration : ℕ
  pendingHmiLayout : Option HmiLayout
  hmiLayout : Option HmiLayout
  deployments : ℕ → Deployment
  acknowledged : List HmiLayout

/-- The atomic steps: of the deployment of a connection, and of the boundary, where the file
may be written or not. -/
inductive LayoutEvent
  | number (client : ℕ) (yamlBytes : List UInt8)
  | store (client : ℕ)
  | acknowledge (client : ℕ)
  | boundary (written : Bool)
  deriving DecidableEq, Repr

namespace HmiLayouts

/-- The engine before the first deployment. -/
def new : HmiLayouts where
  hmiLayoutGeneration := 0
  pendingHmiLayout := none
  hmiLayout := none
  deployments _ := .idle
  acknowledged := []

/-- The state with the deployment of one connection changed. -/
def setDeployment (s : HmiLayouts) (client : ℕ) (deployment : Deployment) : HmiLayouts :=
  { s with deployments := Function.update s.deployments client deployment }

-- the bytes are UTF-8, and YAML
variable (parses : List UInt8 → Bool)

/-- One atomic step; `none` when it cannot happen in this state. The counter is a `u64` and
wraps. The boundary holds the lock of the slot until the layout is active. -/
def step (s : HmiLayouts) : LayoutEvent → Option HmiLayouts
  | .number client yamlBytes =>
      if s.deployments client ≠ .idle then none
      else if !parses yamlBytes then some s
      else
        let generation := (s.hmiLayoutGeneration + 1) % 2 ^ 64
        some { s.setDeployment client (.numbered ⟨yamlBytes, generation⟩) with
          hmiLayoutGeneration := generation }
  | .store client =>
      match s.deployments client with
      | .numbered layout =>
          some { s.setDeployment client (.stored layout) with pendingHmiLayout := some layout }
      | _ => none
  | .acknowledge client =>
      match s.deployments client with
      | .stored layout =>
          some { s.setDeployment client .idle with acknowledged := layout :: s.acknowledged }
      | _ => none
  | .boundary written =>
      match s.pendingHmiLayout with
      | none => some s
      | some layout =>
          some { s with
            pendingHmiLayout := none
            hmiLayout := if written then some layout else s.hmiLayout }

/-- The layout has been stored, and its number is acknowledged or on its way. -/
def Published (s : HmiLayouts) (layout : HmiLayout) : Prop :=
  layout ∈ s.acknowledged ∨ ∃ client, s.deployments client = .stored layout

/-- The layout that was stored last: the one in the slot, or the active one. -/
def lastStored (s : HmiLayouts) : Option HmiLayout := s.pendingHmiLayout <|> s.hmiLayout

/-- No deployment is in progress, and a boundary came after the last one. -/
def Settled (s : HmiLayouts) : Prop :=
  (∀ client, s.deployments client = .idle) ∧ s.pendingHmiLayout = none

/-- What is expected of a state: the active layout is one that is acknowledged with its
number, and no other layout is acknowledged with this number; when all is settled, no layout
is acknowledged with a higher number. -/
structure Correct (s : HmiLayouts) : Prop where
  published : ∀ layout, s.hmiLayout = some layout → s.Published layout
  exact : ∀ layout, s.hmiLayout = some layout → ∀ other, s.Published other →
    other.generation = layout.generation → other = layout
  newest : s.Settled → ∀ layout ∈ s.acknowledged, ∃ active ∈ s.acknowledged,
    s.hmiLayout = some active ∧ layout.generation ≤ active.generation

/-- What is expected of a step: the state after it is correct, and the number of the active
layout has not decreased. -/
def StepCorrect (s : HmiLayouts) (e : LayoutEvent) : Prop :=
  ∀ t, step parses s e = some t → t.Correct ∧
    ∀ before, s.hmiLayout = some before →
      ∃ after, t.hmiLayout = some after ∧ before.generation ≤ after.generation

/-- The condition: the counter does not wrap, the layout file is written, and a layout is put
into the slot only when no layout with a higher number has been stored before. -/
def InOrder (s : HmiLayouts) : LayoutEvent → Prop
  | .number _ _ => s.hmiLayoutGeneration + 1 < 2 ^ 64
  | .store client =>
      ∀ layout, s.deployments client = .numbered layout →
        ∀ last, s.lastStored = some last → last.generation < layout.generation
  | .acknowledge _ => True
  | .boundary written => written = true

/-! ### The steps -/

section

variable {parses} {s t : HmiLayouts}

theorem number_cases {client : ℕ} {yamlBytes : List UInt8}
    (h : step parses s (.number client yamlBytes) = some t) :
    t = s ∨ (s.deployments client = .idle ∧
      t = { s.setDeployment client (.numbered ⟨yamlBytes,
          (s.hmiLayoutGeneration + 1) % 2 ^ 64⟩) with
        hmiLayoutGeneration := (s.hmiLayoutGeneration + 1) % 2 ^ 64 }) := by
  simp only [step] at h
  split at h
  · cases h
  · rename_i hidle
    split at h
    · exact Or.inl (Option.some.inj h).symm
    · exact Or.inr ⟨not_not.mp hidle, (Option.some.inj h).symm⟩

theorem store_cases {client : ℕ} (h : step parses s (.store client) = some t) :
    ∃ layout, s.deployments client = .numbered layout ∧
      t = { s.setDeployment client (.stored layout) with pendingHmiLayout := some layout } := by
  simp only [step] at h
  split at h
  · rename_i layout hnumbered
    exact ⟨layout, hnumbered, (Option.some.inj h).symm⟩
  · cases h

theorem acknowledge_cases {client : ℕ} (h : step parses s (.acknowledge client) = some t) :
    ∃ layout, s.deployments client = .stored layout ∧
      t = { s.setDeployment client .idle with acknowledged := layout :: s.acknowledged } := by
  simp only [step] at h
  split at h
  · rename_i layout hstored
    exact ⟨layout, hstored, (Option.some.inj h).symm⟩
  · cases h

theorem boundary_cases (h : step parses s (.boundary true) = some t) :
    (s.pendingHmiLayout = none ∧ t = s) ∨
      ∃ layout, s.pendingHmiLayout = some layout ∧
        t = { s with pendingHmiLayout := none, hmiLayout := some layout } := by
  simp only [step] at h
  split at h
  · rename_i hpending
    exact Or.inl ⟨hpending, (Option.some.inj h).symm⟩
  · rename_i layout hpending
    exact Or.inr ⟨layout, hpending, (Option.some.inj h).symm⟩

end

/-! ### The invariant -/

/-- The layout is somewhere in the state. -/
def Holds (s : HmiLayouts) (layout : HmiLayout) : Prop :=
  s.Published layout ∨ ∃ client, s.deployments client = .numbered layout

/-- The invariant of the runs in order. -/
structure Ordered (s : HmiLayouts) : Prop where
  bounded : ∀ layout, s.Holds layout → layout.generation ≤ s.hmiLayoutGeneration
  unique : ∀ layout other, s.Holds layout → s.Holds other →
    other.generation = layout.generation → other = layout
  pending : ∀ layout, s.pendingHmiLayout = some layout → s.Published layout
  active : ∀ layout, s.hmiLayout = some layout → s.Published layout
  newest : ∀ layout, s.Published layout →
    ∃ last, s.lastStored = some last ∧ layout.generation ≤ last.generation
  rises : ∀ layout last, s.hmiLayout = some layout → s.lastStored = some last →
    layout.generation ≤ last.generation

theorem new_ordered : new.Ordered where
  bounded _ h := by
    rcases h with (h | ⟨_, h⟩) | ⟨_, h⟩ <;> cases h
  unique _ _ h := by
    rcases h with (h | ⟨_, h⟩) | ⟨_, h⟩ <;> cases h
  pending _ h := nomatch h
  active _ h := nomatch h
  newest _ h := by
    rcases h with h | ⟨_, h⟩ <;> cases h
  rises _ _ h := nomatch h

section

variable {parses} {s t : HmiLayouts} {client : ℕ}

theorem deployments_setDeployment (s : HmiLayouts) (client c : ℕ) (deployment : Deployment) :
    (s.setDeployment client deployment).deployments c =
      if c = client then deployment else s.deployments c :=
  Function.update_apply _ _ _ _

variable {layout : HmiLayout}

/-- A published layout stays where it is, unless it is acknowledged. -/
theorem Published.mono (h : s.Published layout) (hacknowledged : s.acknowledged ⊆ t.acknowledged)
    (hstored : ∀ c, s.deployments c = .stored layout → t.Published layout) :
    t.Published layout := by
  rcases h with h | ⟨c, hc⟩
  · exact Or.inl (hacknowledged h)
  · exact hstored c hc

/-- A number greater than all before is the number of one layout. -/
theorem Ordered.number (h : s.Ordered) (hidle : s.deployments client = .idle)
    (hgeneration : layout.generation = s.hmiLayoutGeneration + 1) :
    Ordered { s.setDeployment client (.numbered layout) with
      hmiLayoutGeneration := layout.generation } := by
  have hfrom : ∀ l, Published { s.setDeployment client (.numbered layout) with
      hmiLayoutGeneration := layout.generation } l → s.Published l := by
    rintro l (hl | ⟨c, hc⟩)
    · exact Or.inl hl
    · rw [deployments_setDeployment] at hc
      split at hc
      · cases hc
      · exact Or.inr ⟨c, hc⟩
  have hto : ∀ l, s.Published l → Published { s.setDeployment client (.numbered layout) with
      hmiLayoutGeneration := layout.generation } l := by
    intro l hl
    refine hl.mono (fun _ ha => ha) fun c hc => Or.inr ⟨c, ?_⟩
    rw [deployments_setDeployment, if_neg]
    · exact hc
    · rintro rfl
      rw [hidle] at hc
      cases hc
  have hholds : ∀ l, Holds { s.setDeployment client (.numbered layout) with
      hmiLayoutGeneration := layout.generation } l → s.Holds l ∨ l = layout := by
    rintro l (hl | ⟨c, hc⟩)
    · exact Or.inl (Or.inl (hfrom l hl))
    · rw [deployments_setDeployment] at hc
      split at hc
      · exact Or.inr (Deployment.numbered.inj hc).symm
      · exact Or.inl (Or.inr ⟨c, hc⟩)
  constructor
  case bounded =>
    intro l hl
    rcases hholds l hl with hl | rfl
    · exact le_trans (h.bounded l hl) (by simp [hgeneration])
    · exact le_rfl
  case unique =>
    intro l l' hl hl' heq
    rcases hholds l hl with hl | hnew
    · rcases hholds l' hl' with hl' | hnew
      · exact h.unique l l' hl hl' heq
      · have hle := h.bounded l hl
        rw [hnew, hgeneration] at heq
        omega
    · rcases hholds l' hl' with hl' | hnew'
      · have hle := h.bounded l' hl'
        rw [hnew, hgeneration] at heq
        omega
      · rw [hnew, hnew']
  case pending => exact fun l hl => hto l (h.pending l hl)
  case active => exact fun l hl => hto l (h.active l hl)
  case newest => exact fun l hl => h.newest l (hfrom l hl)
  case rises => exact h.rises

/-- A layout with a higher number than the last one becomes the last one. -/
theorem Ordered.store (h : s.Ordered) (hnumbered : s.deployments client = .numbered layout)
    (hlast : ∀ last, s.lastStored = some last → last.generation < layout.generation) :
    Ordered { s.setDeployment client (.stored layout) with pendingHmiLayout := some layout } := by
  have hfrom : ∀ l, Published { s.setDeployment client (.stored layout) with
      pendingHmiLayout := some layout } l → s.Published l ∨ l = layout := by
    rintro l (hl | ⟨c, hc⟩)
    · exact Or.inl (Or.inl hl)
    · rw [deployments_setDeployment] at hc
      split at hc
      · exact Or.inr (Deployment.stored.inj hc).symm
      · exact Or.inl (Or.inr ⟨c, hc⟩)
  have hnew : Published { s.setDeployment client (.stored layout) with
      pendingHmiLayout := some layout } layout :=
    Or.inr ⟨client, by rw [deployments_setDeployment, if_pos rfl]⟩
  have hto : ∀ l, s.Published l → Published { s.setDeployment client (.stored layout) with
      pendingHmiLayout := some layout } l := by
    intro l hl
    refine hl.mono (fun _ ha => ha) fun c hc => Or.inr ⟨c, ?_⟩
    rw [deployments_setDeployment, if_neg]
    · exact hc
    · rintro rfl
      rw [hnumbered] at hc
      cases hc
  have hholds : ∀ l, Holds { s.setDeployment client (.stored layout) with
      pendingHmiLayout := some layout } l → s.Holds l := by
    rintro l (hl | ⟨c, hc⟩)
    · rcases hfrom l hl with hl | rfl
      · exact Or.inl hl
      · exact Or.inr ⟨client, hnumbered⟩
    · rw [deployments_setDeployment] at hc
      split at hc
      · cases hc
      · exact Or.inr ⟨c, hc⟩
  constructor
  case bounded => exact fun l hl => h.bounded l (hholds l hl)
  case unique => exact fun l l' hl hl' => h.unique l l' (hholds l hl) (hholds l' hl')
  case pending =>
    intro l hl
    obtain rfl := Option.some.inj hl
    exact hnew
  case active => exact fun l hl => hto l (h.active l hl)
  case newest =>
    intro l hl
    refine ⟨layout, rfl, ?_⟩
    rcases hfrom l hl with hl | rfl
    · obtain ⟨last, hlaststored, hle⟩ := h.newest l hl
      exact le_trans hle (Nat.le_of_lt (hlast last hlaststored))
    · exact le_rfl
  case rises =>
    intro l last hl hlaststored
    obtain rfl := Option.some.inj hlaststored
    obtain ⟨old, hold, hle⟩ := h.newest l (h.active l hl)
    exact le_trans hle (Nat.le_of_lt (hlast old hold))

/-- A stored layout is acknowledged. -/
theorem Ordered.acknowledge (h : s.Ordered) (hstored : s.deployments client = .stored layout) :
    Ordered { s.setDeployment client .idle with acknowledged := layout :: s.acknowledged } := by
  have hfrom : ∀ l, Published { s.setDeployment client .idle with
      acknowledged := layout :: s.acknowledged } l → s.Published l := by
    rintro l (hl | ⟨c, hc⟩)
    · rcases List.mem_cons.mp hl with rfl | hl
      · exact Or.inr ⟨client, hstored⟩
      · exact Or.inl hl
    · rw [deployments_setDeployment] at hc
      split at hc
      · cases hc
      · exact Or.inr ⟨c, hc⟩
  have hto : ∀ l, s.Published l → Published { s.setDeployment client .idle with
      acknowledged := layout :: s.acknowledged } l := by
    intro l hl
    refine hl.mono (fun _ ha => List.mem_cons_of_mem layout ha) fun c hc => ?_
    by_cases hclient : c = client
    · rw [hclient, hstored] at hc
      obtain rfl := Deployment.stored.inj hc
      exact Or.inl List.mem_cons_self
    · exact Or.inr ⟨c, by rw [deployments_setDeployment, if_neg hclient, hc]⟩
  have hholds : ∀ l, Holds { s.setDeployment client .idle with
      acknowledged := layout :: s.acknowledged } l → s.Holds l := by
    rintro l (hl | ⟨c, hc⟩)
    · exact Or.inl (hfrom l hl)
    · rw [deployments_setDeployment] at hc
      split at hc
      · cases hc
      · exact Or.inr ⟨c, hc⟩
  constructor
  case bounded => exact fun l hl => h.bounded l (hholds l hl)
  case unique => exact fun l l' hl hl' => h.unique l l' (hholds l hl) (hholds l' hl')
  case pending => exact fun l hl => hto l (h.pending l hl)
  case active => exact fun l hl => hto l (h.active l hl)
  case newest => exact fun l hl => h.newest l (hfrom l hl)
  case rises => exact h.rises

/-- The layout in the slot becomes the active one. -/
theorem Ordered.boundary (h : s.Ordered) (hpending : s.pendingHmiLayout = some layout) :
    Ordered { s with pendingHmiLayout := none, hmiLayout := some layout } := by
  have hlast : s.lastStored = some layout := by
    rw [lastStored, hpending]
    rfl
  constructor
  case bounded => exact h.bounded
  case unique => exact h.unique
  case pending => exact nofun
  case active =>
    intro l hl
    obtain rfl := Option.some.inj hl
    exact h.pending layout hpending
  case newest => exact fun l hl => hlast ▸ h.newest l hl
  case rises =>
    intro l last hl hl'
    obtain rfl : layout = l := Option.some.inj hl
    obtain rfl : layout = last := Option.some.inj hl'
    exact le_rfl

/-- A step in order keeps the invariant. -/
theorem Ordered.step (h : s.Ordered) {e : LayoutEvent} (hinOrder : InOrder s e)
    (hst : HmiLayouts.step parses s e = some t) : t.Ordered := by
  cases e with
  | number client yamlBytes =>
      rcases number_cases hst with rfl | ⟨hidle, rfl⟩
      · exact h
      · rw [Nat.mod_eq_of_lt hinOrder]
        have hgeneration : (HmiLayout.mk yamlBytes (s.hmiLayoutGeneration + 1)).generation =
            s.hmiLayoutGeneration + 1 := rfl
        exact h.number hidle hgeneration
  | store client =>
      obtain ⟨layout, hnumbered, rfl⟩ := store_cases hst
      exact h.store hnumbered (hinOrder layout hnumbered)
  | acknowledge client =>
      obtain ⟨layout, hstored, rfl⟩ := acknowledge_cases hst
      exact h.acknowledge hstored
  | boundary written =>
      obtain rfl : written = true := hinOrder
      rcases boundary_cases hst with ⟨-, rfl⟩ | ⟨layout, hpending, rfl⟩
      · exact h
      · exact h.boundary hpending

/-! ### Runs -/

/-- What is expected of a state follows from the invariant. -/
theorem Ordered.correct (h : s.Ordered) : s.Correct where
  published := h.active
  exact layout hlayout other hother :=
    h.unique layout other (Or.inl (h.active layout hlayout)) (Or.inl hother)
  newest hsettled layout hlayout := by
    obtain ⟨last, hlast, hle⟩ := h.newest layout (Or.inl hlayout)
    rw [lastStored, hsettled.2] at hlast
    rcases h.active last hlast with hacknowledged | ⟨c, hc⟩
    · exact ⟨last, hacknowledged, hlast, hle⟩
    · rw [hsettled.1 c] at hc
      cases hc

/-- In order, the number of the active layout does not decrease. -/
theorem Ordered.rises_step (h : s.Ordered) {e : LayoutEvent} (hinOrder : InOrder s e)
    (hst : HmiLayouts.step parses s e = some t) {before : HmiLayout}
    (hbefore : s.hmiLayout = some before) :
    ∃ after, t.hmiLayout = some after ∧ before.generation ≤ after.generation := by
  cases e with
  | number client yamlBytes =>
      rcases number_cases hst with rfl | ⟨-, rfl⟩
      · exact ⟨before, hbefore, le_rfl⟩
      · exact ⟨before, hbefore, le_rfl⟩
  | store client =>
      obtain ⟨layout, -, rfl⟩ := store_cases hst
      exact ⟨before, hbefore, le_rfl⟩
  | acknowledge client =>
      obtain ⟨layout, -, rfl⟩ := acknowledge_cases hst
      exact ⟨before, hbefore, le_rfl⟩
  | boundary written =>
      obtain rfl : written = true := hinOrder
      rcases boundary_cases hst with ⟨-, rfl⟩ | ⟨layout, hpending, rfl⟩
      · exact ⟨before, hbefore, le_rfl⟩
      · refine ⟨layout, rfl, h.rises before layout hbefore ?_⟩
        rw [lastStored, hpending]
        rfl

end

/-- A run whose steps are in order is correct at every step. -/
theorem inOrder_run_correct (es : List LayoutEvent)
    (h : EveryStep (step parses) InOrder new es) :
    EveryStep (step parses) (StepCorrect parses) new es :=
  EveryStep.imp (I := Ordered) (fun _ _ _ hs he hst => hs.step he hst)
    (fun _ _ hs he _ hst => ⟨(hs.step he hst).correct,
        fun _ hbefore => hs.rises_step he hst hbefore⟩)
    new_ordered h

instance (s : HmiLayouts) (e : LayoutEvent) : Decidable (InOrder s e) :=
  match e with
  | .number _ _ => inferInstanceAs (Decidable (_ < _))
  | .store client =>
      match hd : s.deployments client, hl : s.lastStored with
      | .numbered layout, some last =>
          decidable_of_iff (last.generation < layout.generation) (by simp [InOrder, hd, hl])
      | .numbered _, none => isTrue (by simp [InOrder, hl])
      | .idle, _ | .stored _, _ => isTrue (by simp [InOrder, hd])
  | .acknowledge _ => isTrue trivial
  | .boundary written => inferInstanceAs (Decidable (written = true))

/-- Two deployments one after the other. -/
theorem inOrder_run_correct_two :
    EveryStep (step fun _ => true) (StepCorrect fun _ => true) new
      [.number 0 [1], .store 0, .number 1 [2], .boundary true, .acknowledge 0, .store 1,
        .acknowledge 1, .boundary true] :=
  inOrder_run_correct _ _ (by decide)

/-- The deployment with the second number comes to the slot first: the active layout goes back
from the second to the first. -/
theorem layout_goes_back :
    ¬EveryStep (step fun _ => true) (StepCorrect fun _ => true) new
      [.number 0 [1], .number 1 [2], .store 1, .acknowledge 1, .boundary true, .store 0,
        .acknowledge 0, .boundary true] := by
  intro h
  obtain ⟨t, hrun, hactive, hnext⟩ : ∃ t, run (step fun _ => true) new
      [.number 0 [1], .number 1 [2], .store 1, .acknowledge 1, .boundary true, .store 0,
        .acknowledge 0] = some t ∧ t.hmiLayout = some ⟨[2], 2⟩ ∧
      ∃ u, step (fun _ => true) t (.boundary true) = some u ∧ u.hmiLayout = some ⟨[1], 1⟩ :=
    ⟨_, rfl, rfl, _, rfl, rfl⟩
  obtain ⟨u, hst, hback⟩ := hnext
  have hlast : StepCorrect (fun _ => true) t (.boundary true) := EveryStep.at h hrun
  obtain ⟨after, hafter, hle⟩ := (hlast u hst).2 _ hactive
  rw [hback] at hafter
  obtain rfl := Option.some.inj hafter
  exact absurd hle (by decide)

end HmiLayouts

end Weftik
