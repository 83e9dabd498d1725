import Mathlib

/-!
# Runs of a Labelled Transition System

A system is a partial step function: an event is enabled in a state when the step is
defined. A run is a list of events; `EveryStep G` says that `G` holds of each step of the
run, as a condition that the events keep or as a property that the system has.

## Main results

* `EveryStep.imp`: a condition on the steps implies a property of the steps, when some
  invariant carries the one to the other.
* `run_invariant`: what every step keeps, a run keeps.
* `reached_iff_everyStep`: the runs that reach only states with a property.
* `everyStep_iff`, `EveryStep.at`: each step of a run is the step after a prefix of it.
-/

namespace Transition

variable {σ α : Type}

/-- The state after a list of events; `none` when one of them is not enabled. -/
def run (step : σ → α → Option σ) : σ → List α → Option σ
  | s, [] => some s
  | s, e :: es => (step s e).bind fun t => run step t es

/-- Each event of the list, up to the first one that is not enabled, satisfies `G` in the
state in which it happens. -/
def EveryStep (step : σ → α → Option σ) (G : σ → α → Prop) : σ → List α → Prop
  | _, [] => True
  | s, e :: es =>
      G s e ∧
        match step s e with
        | none => True
        | some t => EveryStep step G t es

instance EveryStep.decide (step : σ → α → Option σ) (G : σ → α → Prop)
    [∀ s e, Decidable (G s e)] : ∀ s es, Decidable (EveryStep step G s es)
  | _, [] => isTrue trivial
  | s, e :: es =>
      have : Decidable
          (match step s e with
            | none => True
            | some t => EveryStep step G t es) :=
        match step s e with
        | none => isTrue trivial
        | some t => EveryStep.decide step G t es
      inferInstanceAs (Decidable (_ ∧ _))

variable {step : σ → α → Option σ} {G Q : σ → α → Prop}

/-- An invariant of the steps that satisfy `G`, in whose states `G` implies `Q`, carries
`G` to `Q` along every run. -/
theorem EveryStep.imp {I : σ → Prop} (hstep : ∀ s e t, I s → G s e → step s e = some t → I t)
    (hQ : ∀ s e, I s → G s e → Q s e) {s : σ} {es : List α} (hs : I s)
    (h : EveryStep step G s es) : EveryStep step Q s es := by
  induction es generalizing s with
  | nil => trivial
  | cons e es ih =>
      obtain ⟨hG, hrest⟩ := h
      refine ⟨hQ s e hs hG, ?_⟩
      cases hst : step s e with
      | none => trivial
      | some t =>
          rw [hst] at hrest
          exact ih (hstep s e t hs hG hst) hrest

/-- What an invariant of all steps implies holds of every step. -/
theorem EveryStep.of_invariant {I : σ → Prop}
    (hstep : ∀ s e t, I s → step s e = some t → I t) (hQ : ∀ s e, I s → Q s e) {s : σ}
    (hs : I s) (es : List α) : EveryStep step Q s es := by
  induction es generalizing s with
  | nil => trivial
  | cons e es ih =>
      refine ⟨hQ s e hs, ?_⟩
      cases hst : step s e with
      | none => trivial
      | some t => exact ih (hstep s e t hs hst)

/-- Two conditions that every step satisfies. -/
theorem EveryStep.and {s : σ} {es : List α} (hG : EveryStep step G s es)
    (hQ : EveryStep step Q s es) : EveryStep step (fun s e => G s e ∧ Q s e) s es := by
  induction es generalizing s with
  | nil => trivial
  | cons e es ih =>
      refine ⟨⟨hG.1, hQ.1⟩, ?_⟩
      have hG' := hG.2
      have hQ' := hQ.2
      cases hst : step s e with
      | none => trivial
      | some t =>
          rw [hst] at hG' hQ'
          exact ih hG' hQ'

/-- A run in two parts. -/
theorem run_append (s : σ) (es rest : List α) :
    run step s (es ++ rest) = (run step s es).bind fun t => run step t rest := by
  induction es generalizing s with
  | nil => rfl
  | cons e es ih =>
      rw [List.cons_append, run, run]
      cases step s e with
      | none => rfl
      | some t => exact ih t

/-- What every step keeps, a run keeps. -/
theorem run_invariant {I : σ → Prop} (hstep : ∀ s e t, I s → step s e = some t → I t) {s t : σ}
    {es : List α} (hs : I s) (h : run step s es = some t) : I t := by
  induction es generalizing s with
  | nil =>
      obtain rfl := Option.some.inj h
      exact hs
  | cons e es ih =>
      obtain ⟨u, hu, h⟩ := Option.bind_eq_some_iff.mp h
      exact ih (hstep s e u hs hu) h

/-- Each step of a run is the step after a prefix of it. -/
theorem everyStep_iff {s : σ} {es : List α} :
    EveryStep step G s es ↔
      ∀ pre e rest t, es = pre ++ e :: rest → run step s pre = some t → G t e := by
  induction es generalizing s with
  | nil =>
      refine iff_of_true trivial fun pre e rest t h => ?_
      cases pre <;> cases h
  | cons e' es ih =>
      constructor
      · rintro ⟨hG, hrest⟩ pre e rest t h hrun
        cases pre with
        | nil =>
            obtain ⟨rfl, -⟩ := List.cons.inj h
            obtain rfl : s = t := Option.some.inj hrun
            exact hG
        | cons e₁ pre =>
            obtain ⟨rfl, htail⟩ := List.cons.inj h
            rw [run] at hrun
            cases hst : step s e' with
            | none => rw [hst] at hrun; cases hrun
            | some u =>
                rw [hst] at hrun hrest
                exact ih.mp hrest pre e rest t htail hrun
      · intro h
        refine ⟨h [] e' es s rfl rfl, ?_⟩
        cases hst : step s e' with
        | none => trivial
        | some u =>
            refine ih.mpr fun pre e rest t hes hrun => h (e' :: pre) e rest t (by rw [hes]; rfl) ?_
            rw [run, hst]
            exact hrun

/-- The step after a prefix of the run. -/
theorem EveryStep.at {s t : σ} {es rest : List α} {e : α}
    (h : EveryStep step G s (es ++ e :: rest)) (hrun : run step s es = some t) : G t e :=
  everyStep_iff.mp h es e rest t rfl hrun

/-- When a step keeps the property `V` of the states iff it satisfies `G`, a run reaches
only states with the property iff each of its steps satisfies `G`. -/
theorem reached_iff_everyStep {I V : σ → Prop}
    (hstep : ∀ s e t, I s → step s e = some t → I t)
    (hiff : ∀ s e t, I s → V s → step s e = some t → (V t ↔ G s e)) {s : σ} {es : List α}
    (hs : I s) (hV : V s) (hrun : (run step s es).isSome = true) :
    (∀ pre rest t, es = pre ++ rest → run step s pre = some t → V t) ↔ EveryStep step G s es := by
  induction es generalizing s with
  | nil =>
      refine iff_of_true (fun pre rest t hes hpre => ?_) trivial
      obtain ⟨rfl, -⟩ := List.append_eq_nil_iff.mp hes.symm
      obtain rfl := Option.some.inj hpre
      exact hV
  | cons e es ih =>
      rw [run] at hrun
      cases hst : step s e with
      | none => rw [hst] at hrun; cases hrun
      | some u =>
          rw [hst] at hrun
          have hu := hstep s e u hs hst
          rw [EveryStep, hst]
          constructor
          · intro h
            have hVu : V u := h [e] es u rfl (by rw [run, hst]; rfl)
            refine ⟨(hiff s e u hs hV hst).mp hVu, (ih hu hVu hrun).mp ?_⟩
            intro pre rest t hes hpre
            exact h (e :: pre) rest t (by rw [hes]; rfl) (by rw [run, hst]; exact hpre)
          · rintro ⟨hG, hrest⟩ pre rest t hes hpre
            have hVu : V u := (hiff s e u hs hV hst).mpr hG
            cases pre with
            | nil =>
                obtain rfl := Option.some.inj hpre
                exact hV
            | cons e' pre =>
                obtain ⟨rfl, htail⟩ := List.cons.inj hes
                rw [run, hst] at hpre
                exact (ih hu hVu hrun).mpr hrest pre rest t htail hpre

/-! ### Runs by their last event -/

/-- What holds of each event and those before it, one event later. -/
theorem forall_split_concat {α : Type} {p : List α → α → Prop} {es : List α} {e : α} :
    (∀ before d after, es ++ [e] = before ++ d :: after → p before d) ↔
      (∀ before d after, es = before ++ d :: after → p before d) ∧ p es e := by
  refine ⟨fun h => ⟨fun before d after hes => ?_, h es e [] rfl⟩, ?_⟩
  · refine h before d (after ++ [e]) ?_
    rw [hes, List.append_assoc, List.cons_append]
  · rintro ⟨hes, hlast⟩ before d after heq
    rcases List.eq_nil_or_concat after with rfl | ⟨after, c, rfl⟩
    · obtain ⟨rfl, hd⟩ := List.append_inj' heq rfl
      obtain rfl : e = d := (List.cons.inj hd).1
      exact hlast
    · rw [List.concat_eq_append, ← List.cons_append, ← List.append_assoc] at heq
      exact hes before d after (List.append_inj' heq rfl).1

end Transition
