import Mathlib

/-!
# Runs of a Deterministic Machine

A machine is a step function whose result is a next state, a final state, or an error.
`Steps` is its finite runs without an ending, `Exec` a run with its ending, and `run` the
interpreter with fuel. The three agree, and an ending is unique; so a proof about code
moves the machine along a fragment by `Steps` and leaves the rest to `Exec`.

Some states of a machine may be marked. A run is quiet if it goes through no marked state, its
last one apart; any run visits the marked states one after the other, and they can be counted.
What is known of the visited states of one run that gets stuck is known of every run of the
machine, as there is only one.

## Main definitions

* `Quiet`: a run through states that are not marked.
* `Passes`: a run whose visited states are numbered, with what is known of each.

## Main results

* `Exec.of_steps`: an ending is reached through any finite run.
* `Exec.not_ok_of_progress`: a machine that keeps coming back to a set of states does not end.
* `Exec.deterministic`: the ending of a run is unique.
* `exec_iff_run`: an ending is reached iff the interpreter returns it, for some fuel.
* `run_of_decreasing`: a machine with a decreasing measure ends.
* `Steps.unique`: a machine reaches at most one state where it is stuck.
* `Steps.invariant`: what every step preserves, every run preserves.
* `Passes.trans`, `Quiet.passes`: runs one after the other.
* `Passes.of_steps`: a state that is reached lies on a run that gets stuck.
* `Passes.visited`: what is known of a marked state that is reached.
-/

namespace Machine

variable {σ ε : Type}

/-- The result of one step. -/
inductive Result (σ ε : Type)
  | next (s : σ)
  | done (s : σ)
  | fail (e : ε)
  deriving DecidableEq

/-- The machine reaches the second state from the first in finitely many steps. -/
def Steps (step : σ → Result σ ε) : σ → σ → Prop :=
  Relation.ReflTransGen fun s s' => step s = .next s'

/-- The machine reaches the second state from the first in one step or more. -/
def Progress (step : σ → Result σ ε) : σ → σ → Prop :=
  Relation.TransGen fun s s' => step s = .next s'

/-- The machine started in the state ends with the given final state or error. -/
inductive Exec (step : σ → Result σ ε) : σ → Except ε σ → Prop
  | done {s s' : σ} : step s = .done s' → Exec step s (.ok s')
  | fail {s : σ} {e : ε} : step s = .fail e → Exec step s (.error e)
  | next {s s' : σ} {o : Except ε σ} : step s = .next s' → Exec step s' o → Exec step s o

/-- The interpreter: `none` means that the fuel ran out. -/
def run (step : σ → Result σ ε) : ℕ → σ → Option (Except ε σ)
  | 0, _ => none
  | fuel + 1, s =>
      match step s with
      | .next s' => run step fuel s'
      | .done s' => some (.ok s')
      | .fail e => some (.error e)

variable {step : σ → Result σ ε}

attribute [local simp] run

theorem Steps.refl (s : σ) : Steps step s s := Relation.ReflTransGen.refl

theorem Steps.trans {s₁ s₂ s₃ : σ} (h₁ : Steps step s₁ s₂) (h₂ : Steps step s₂ s₃) :
    Steps step s₁ s₃ :=
  Relation.ReflTransGen.trans h₁ h₂

theorem Steps.single {s s' : σ} (h : step s = .next s') : Steps step s s' :=
  Relation.ReflTransGen.single h

theorem Steps.head {s₁ s₂ s₃ : σ} (h : step s₁ = .next s₂) (hs : Steps step s₂ s₃) :
    Steps step s₁ s₃ :=
  Relation.ReflTransGen.head h hs

/-- The machine cannot take a step. -/
def Stuck (step : σ → Result σ ε) (s : σ) : Prop := ∀ s', step s ≠ .next s'

/-- A machine reaches at most one state from which it cannot take a step. -/
theorem Steps.unique {s s₁ s₂ : σ} (h₁ : Steps step s s₁) (h₂ : Steps step s s₂)
    (hstuck₁ : Stuck step s₁) (hstuck₂ : Stuck step s₂) : s₁ = s₂ := by
  induction h₁ using Relation.ReflTransGen.head_induction_on with
  | refl =>
      rcases Relation.ReflTransGen.cases_head h₂ with heq | ⟨t, hstep, -⟩
      · exact heq
      · exact absurd hstep (hstuck₁ t)
  | head hstep _ ih =>
      rcases Relation.ReflTransGen.cases_head h₂ with rfl | ⟨t, hstep', hrest⟩
      · exact absurd hstep (hstuck₂ _)
      · rw [hstep] at hstep'
        obtain rfl := Result.next.inj hstep'
        exact ih hrest

theorem Steps.progress {s₁ s₂ s₃ : σ} (hs : Steps step s₁ s₂) (h : step s₂ = .next s₃) :
    Progress step s₁ s₃ :=
  Relation.TransGen.tail' hs h

/-- What every step preserves, every run preserves. -/
theorem Steps.invariant {I : σ → Prop} (hstep : ∀ s s', step s = .next s' → I s → I s')
    {s s' : σ} (h : Steps step s s') (hs : I s) : I s' := by
  induction h with
  | refl => exact hs
  | tail _ hlast ih => exact hstep _ _ hlast ih

/-- An ending is reached through any finite run. -/
theorem Exec.of_steps {s s' : σ} {o : Except ε σ} (h : Steps step s s')
    (he : Exec step s' o) : Exec step s o := by
  induction h using Relation.ReflTransGen.head_induction_on with
  | refl => exact he
  | head hstep _ ih => exact .next hstep ih

/-- A machine that takes the same steps, as long as some invariant of the steps holds, has
the same endings. -/
theorem Exec.congr {step' : σ → Result σ ε} {I : σ → Prop}
    (heq : ∀ s, I s → step' s = step s) (hstep : ∀ s s', step s = .next s' → I s → I s')
    {s : σ} {o : Except ε σ} (h : Exec step s o) (hs : I s) : Exec step' s o := by
  induction h with
  | done hd => exact .done ((heq _ hs).trans hd)
  | fail hf => exact .fail ((heq _ hs).trans hf)
  | next hn _ ih => exact .next ((heq _ hs).trans hn) (ih (hstep _ _ hn hs))

/-- A run that ends without a failure is a run of a machine that takes the same steps
wherever the first one does not fail. -/
theorem Exec.of_agree {step' : σ → Result σ ε}
    (hagree : ∀ s, (∃ e, step s = .fail e) ∨ step s = step' s) {s s' : σ}
    (h : Exec step s (.ok s')) : Exec step' s (.ok s') := by
  generalize ho : (Except.ok s' : Except ε σ) = o at h
  induction h with
  | done hd =>
      cases ho
      rcases hagree _ with ⟨e, hf⟩ | heq
      · rw [hd] at hf; cases hf
      · exact .done (heq ▸ hd)
  | fail _ => cases ho
  | next hn _ ih =>
      rcases hagree _ with ⟨e, hf⟩ | heq
      · rw [hn] at hf; cases hf
      · exact .next (heq ▸ hn) (ih ho)

/-- The ending of a run is unique. -/
theorem Exec.deterministic {s : σ} {o₁ o₂ : Except ε σ} (h₁ : Exec step s o₁)
    (h₂ : Exec step s o₂) : o₁ = o₂ := by
  induction h₁ with
  | done hs =>
      cases h₂ with
      | done hs' => rw [hs] at hs'; cases hs'; rfl
      | fail hs' => rw [hs] at hs'; cases hs'
      | next hs' _ => rw [hs] at hs'; cases hs'
  | fail hs =>
      cases h₂ with
      | done hs' => rw [hs] at hs'; cases hs'
      | fail hs' => rw [hs] at hs'; cases hs'; rfl
      | next hs' _ => rw [hs] at hs'; cases hs'
  | next hs _ ih =>
      cases h₂ with
      | done hs' => rw [hs] at hs'; cases hs'
      | fail hs' => rw [hs] at hs'; cases hs'
      | next hs' h₂' => rw [hs] at hs'; cases hs'; exact ih h₂'

/-- A machine that, from any state of a set, takes at least one step and comes back to the
set, or fails, does not end without a failure. -/
theorem Exec.not_ok_of_progress {I : σ → Prop}
    (hprogress : ∀ s, I s → (∃ s', Progress step s s' ∧ I s') ∨ ∃ e, Exec step s (.error e))
    {s s' : σ} (hs : I s) : ¬Exec step s (.ok s') := by
  intro h
  have hhead : ∀ s s', Progress step s s' → ∃ s₁, step s = .next s₁ ∧ Steps step s₁ s' :=
    fun _ _ hp => Relation.TransGen.head'_iff.mp hp
  -- no state of the run is a beginning of a run to the set
  have hnone : ∀ t, Steps step s t → ¬I t := by
    generalize ho : (Except.ok s' : Except ε σ) = o at h
    clear hs
    induction h with
    | done hd =>
        intro t ht hI
        rcases Relation.ReflTransGen.cases_head ht with rfl | ⟨s₁, hn, -⟩
        · rcases hprogress _ hI with ⟨t, hp, -⟩ | ⟨e, he⟩
          · obtain ⟨s₁, hn, -⟩ := hhead _ _ hp
            rw [hd] at hn; cases hn
          · exact nomatch (Exec.done hd).deterministic he
        · rw [hd] at hn; cases hn
    | fail _ => cases ho
    | next hn he ih =>
        subst ho
        intro t ht hI
        rcases Relation.ReflTransGen.cases_head ht with rfl | ⟨s₁, hn', hrest⟩
        · rcases hprogress _ hI with ⟨t, hp, ht⟩ | ⟨e, he'⟩
          · obtain ⟨s₁, hn', hrest⟩ := hhead _ _ hp
            rw [hn] at hn'
            obtain rfl := Result.next.inj hn'
            exact ih rfl t hrest ht
          · exact nomatch (Exec.next hn he).deterministic he'
        · rw [hn] at hn'
          obtain rfl := Result.next.inj hn'
          exact ih rfl t hrest hI
  exact hnone s (Steps.refl s) hs

/-- A machine that stays in some set of states, where it takes a step or fails, does not end
without a failure. -/
theorem Exec.not_ok {I : σ → Prop}
    (hstay : ∀ s, I s → (∃ s', step s = .next s' ∧ I s') ∨ ∃ e, step s = .fail e)
    {s s' : σ} (hs : I s) : ¬Exec step s (.ok s') := by
  refine Exec.not_ok_of_progress (I := I) (fun s hs => ?_) hs
  rcases hstay s hs with ⟨t, hn, ht⟩ | ⟨e, hf⟩
  · exact Or.inl ⟨t, (Steps.refl s).progress hn, ht⟩
  · exact Or.inr ⟨e, .fail hf⟩

/-! ### Computations that the machine follows -/

/-- The machine follows a computation: it gets to a state that goes with the value, or ends
with the error. -/
def Follows {α : Type} (step : σ → Result σ ε) (s : σ) (Q : α → σ → Prop) : Except ε α → Prop
  | .ok a => ∃ s', Steps step s s' ∧ Q a s'
  | .error e => Exec step s (.error e)

/-- One computation after another. -/
theorem Follows.bind {α β : Type} {s : σ} {Q : α → σ → Prop} {Q' : β → σ → Prop}
    {c : Except ε α} {f : α → Except ε β} (h : Follows step s Q c)
    (hf : ∀ a s', Q a s' → Follows step s' Q' (f a)) : Follows step s Q' (c >>= f) := by
  cases c with
  | error e => exact h
  | ok a =>
      obtain ⟨s₁, hsteps, hQ⟩ := h
      have hnext : Follows step s₁ Q' (f a) := hf a s₁ hQ
      change Follows step s Q' (f a)
      cases hfa : f a with
      | error e =>
          rw [hfa] at hnext
          exact Exec.of_steps hsteps hnext
      | ok b =>
          rw [hfa] at hnext
          obtain ⟨s₂, hsteps', hQ'⟩ := hnext
          exact ⟨s₂, hsteps.trans hsteps', hQ'⟩

/-- A weaker relation of values and states. -/
theorem Follows.mono {α : Type} {s : σ} {Q Q' : α → σ → Prop} {c : Except ε α}
    (h : Follows step s Q c) (hQ : ∀ a s', Q a s' → Q' a s') : Follows step s Q' c := by
  cases c with
  | error e => exact h
  | ok a =>
      obtain ⟨s', hsteps, ha⟩ := h
      exact ⟨s', hsteps, hQ a s' ha⟩

/-- The machine is where a computation without effect leaves it. -/
theorem Follows.pure {α : Type} {s : σ} {Q : α → σ → Prop} {a : α} (h : Q a s) :
    Follows step s Q (.ok a) :=
  ⟨s, Steps.refl s, h⟩

/-- The machine takes a step first. -/
theorem Follows.head {α : Type} {s s' : σ} {Q : α → σ → Prop} {c : Except ε α}
    (hstep : step s = .next s') (h : Follows step s' Q c) : Follows step s Q c := by
  cases c with
  | error e => exact .next hstep h
  | ok a =>
      obtain ⟨s₁, hsteps, ha⟩ := h
      exact ⟨s₁, hsteps.head hstep, ha⟩

/-! ### Leaving some states -/

/-- The machine, stopped as soon as it leaves some states. -/
def within (inside : σ → Bool) (step : σ → Result σ ε) (s : σ) : Result σ ε :=
  if inside s then step s else .done s

theorem within_of_inside {inside : σ → Bool} {s : σ} (h : inside s = true) :
    within inside step s = step s :=
  if_pos h

/-- A machine outside of the states has stopped. -/
theorem exec_within {inside : σ → Bool} {s : σ} (h : inside s = false) :
    Exec (within inside step) s (.ok s) :=
  .done (if_neg (Bool.eq_false_iff.mp h))

/-- The interpreter with any fuel returns only endings of the machine. -/
theorem exec_of_run {fuel : ℕ} {s : σ} {o : Except ε σ} (h : run step fuel s = some o) :
    Exec step s o := by
  induction fuel generalizing s with
  | zero => cases h
  | succ fuel ih =>
      rw [run] at h
      cases hs : step s with
      | next s' => rw [hs] at h; exact .next hs (ih h)
      | done s' => rw [hs] at h; cases h; exact .done hs
      | fail e => rw [hs] at h; cases h; exact .fail hs

/-- More fuel does not change what the interpreter returns. -/
theorem run_mono {fuel fuel' : ℕ} {s : σ} {o : Except ε σ} (hle : fuel ≤ fuel')
    (h : run step fuel s = some o) : run step fuel' s = some o := by
  induction fuel generalizing s fuel' with
  | zero => cases h
  | succ fuel ih =>
      obtain ⟨fuel', rfl⟩ : ∃ k, fuel' = k + 1 := ⟨fuel' - 1, by omega⟩
      rw [run] at h ⊢
      cases hs : step s with
      | next s' =>
          rw [hs] at h
          exact ih (Nat.le_of_succ_le_succ hle) h
      | done s' => rwa [hs] at h
      | fail e => rwa [hs] at h

/-- The interpreter returns every ending of the machine when it has enough fuel. -/
theorem run_of_exec {s : σ} {o : Except ε σ} (h : Exec step s o) :
    ∃ fuel, run step fuel s = some o := by
  induction h with
  | done hs => exact ⟨1, by rw [run, hs]⟩
  | fail hs => exact ⟨1, by rw [run, hs]⟩
  | next hs _ ih =>
      obtain ⟨fuel, hfuel⟩ := ih
      exact ⟨fuel + 1, by rw [run, hs]; exact hfuel⟩

/-- An ending is reached iff the interpreter returns it, for some fuel. -/
theorem exec_iff_run {s : σ} {o : Except ε σ} :
    Exec step s o ↔ ∃ fuel, run step fuel s = some o :=
  ⟨run_of_exec, fun ⟨_, h⟩ => exec_of_run h⟩

/-- A machine whose steps keep an invariant and decrease a measure ends with that much fuel. -/
theorem run_of_decreasing {I : σ → Prop} {μ : σ → ℕ}
    (h : ∀ s, I s → (∃ t, step s = .done t) ∨ ∃ t, step s = .next t ∧ I t ∧ μ t < μ s)
    {fuel : ℕ} {s : σ} (hs : I s) (hlt : μ s < fuel) : ∃ t, run step fuel s = some (.ok t) := by
  induction fuel generalizing s with
  | zero => omega
  | succ fuel ih =>
      rcases h s hs with ⟨t, hdone⟩ | ⟨t, hnext, ht, hdecreases⟩
      · exact ⟨t, by rw [run, hdone]⟩
      · obtain ⟨u, hu⟩ := ih ht (by omega)
        exact ⟨u, by rw [run, hnext]; exact hu⟩

/-- What every step preserves holds in the final state of a run, when the last step takes
it to `Q`. -/
theorem Exec.invariant {I Q : σ → Prop} (hstep : ∀ s s', step s = .next s' → I s → I s')
    (hdone : ∀ s s', step s = .done s' → I s → Q s') {s s' : σ}
    (h : Exec step s (.ok s')) (hs : I s) : Q s' := by
  generalize ho : (Except.ok s' : Except ε σ) = o at h
  induction h with
  | done hd => cases ho; exact hdone _ _ hd hs
  | fail _ => cases ho
  | next hn _ ih => exact ih (hstep _ _ hn hs) ho

end Machine

namespace Machine

/-! ### Marked states -/

variable {σ ε : Type}

/-- A run through states that are not marked, the last one apart. -/
def Quiet (step : σ → Result σ ε) (Q : σ → Prop) : σ → σ → Prop :=
  Relation.ReflTransGen fun s s' => step s = .next s' ∧ ¬Q s

/-- `Passes step Q I i s j t`: a run from `s` to `t`. Before it `i` marked states have been
visited, and after it `j`, the last state apart; of the one with number `k`, `I k` is true. -/
inductive Passes (step : σ → Result σ ε) (Q : σ → Prop) (I : ℕ → σ → Prop) :
    ℕ → σ → ℕ → σ → Prop
  | refl (i : ℕ) (s : σ) : Passes step Q I i s i s
  | skip {i j : ℕ} {s s' t : σ} : step s = .next s' → ¬Q s → Passes step Q I i s' j t →
      Passes step Q I i s j t
  | visit {i j : ℕ} {s s' t : σ} : step s = .next s' → Q s → I i s →
      Passes step Q I (i + 1) s' j t → Passes step Q I i s j t

variable {step : σ → Result σ ε} {Q : σ → Prop} {I : ℕ → σ → Prop} {i j k : ℕ} {s t u : σ}

/-- Runs one after the other. -/
theorem Passes.trans (h : Passes step Q I i s j t) (h' : Passes step Q I j t k u) :
    Passes step Q I i s k u := by
  induction h with
  | refl => exact h'
  | skip hstep hq _ ih => exact .skip hstep hq (ih h')
  | visit hstep hq hi _ ih => exact .visit hstep hq hi (ih h')

/-- A quiet run visits nothing. -/
theorem Quiet.passes (h : Quiet step Q s t) (i : ℕ) : Passes step Q I i s i t := by
  induction h using Relation.ReflTransGen.head_induction_on with
  | refl => exact .refl i t
  | head hfirst _ ih => exact .skip hfirst.1 hfirst.2 ih

theorem Passes.le (h : Passes step Q I i s j t) : i ≤ j := by
  induction h with
  | refl => exact Nat.le_refl _
  | skip _ _ _ ih => exact ih
  | visit _ _ _ _ ih => exact Nat.le_trans (Nat.le_succ _) ih

/-- A run that gets stuck goes through every state that is reached. -/
theorem Passes.of_steps (h : Passes step Q I i s j t) (hstuck : Stuck step t)
    (hs : Steps step s u) : ∃ k, Passes step Q I k u j t := by
  induction hs using Relation.ReflTransGen.head_induction_on generalizing i with
  | refl => exact ⟨i, h⟩
  | head hstep _ ih =>
      cases h with
      | refl => exact absurd hstep (hstuck _)
      | skip hstep' _ hrest | visit hstep' _ _ hrest =>
          obtain rfl := Result.next.inj (hstep.symm.trans hstep')
          exact ih hrest

/-- A run that gets stuck goes on after a quiet run. -/
theorem Passes.of_quiet (h : Passes step Q I i s j t) (hstuck : Stuck step t)
    (hs : Quiet step Q s u) : Passes step Q I i u j t := by
  induction hs using Relation.ReflTransGen.head_induction_on with
  | refl => exact h
  | head hfirst _ ih =>
      cases h with
      | refl => exact absurd hfirst.1 (hstuck _)
      | skip hstep' _ hrest =>
          obtain rfl := Result.next.inj (hfirst.1.symm.trans hstep')
          exact ih hrest
      | visit _ hq => exact absurd hq hfirst.2

/-- The next step of a run that visits a state, or ends there. -/
theorem Passes.visited (h : Passes step Q I i s j t) (hq : Q s) :
    s = t ∧ i = j ∨ I i s ∧ ∃ s', step s = .next s' ∧ Passes step Q I (i + 1) s' j t := by
  cases h with
  | refl => exact Or.inl ⟨rfl, rfl⟩
  | skip _ hnot => exact absurd hq hnot
  | visit hstep _ hi hrest => exact Or.inr ⟨hi, _, hstep, hrest⟩

/-- A state of a run that visits some is reached, for every number. -/
theorem Passes.exists_visited (h : Passes step Q I i s j t) (hi : i ≤ k) (hk : k < j) :
    ∃ u, Steps step s u ∧ Q u ∧ I k u ∧
      ∃ u', step u = .next u' ∧ Passes step Q I (k + 1) u' j t := by
  induction h with
  | refl => omega
  | skip hstep _ _ ih =>
      obtain ⟨u, hs, hu⟩ := ih hi hk
      exact ⟨u, hs.head hstep, hu⟩
  | @visit i j s s' t hstep hq hs hrest ih =>
      rcases Nat.eq_or_lt_of_le hi with rfl | hlt
      · exact ⟨s, Steps.refl s, hq, hs, s', hstep, hrest⟩
      · obtain ⟨u, hsteps, hu⟩ := ih hlt hk
        exact ⟨u, hsteps.head hstep, hu⟩

/-- The run from one visited state to the next one, or to the end, is quiet. -/
theorem Passes.exists_quiet (h : Passes step Q I i s j t) :
    ∃ u, Quiet step Q s u ∧ Passes step Q I i u j t ∧ (u = t ∧ i = j ∨ Q u ∧ i < j) := by
  induction h with
  | refl i s => exact ⟨s, .refl, .refl i s, Or.inl ⟨rfl, rfl⟩⟩
  | skip hstep hq _ ih =>
      obtain ⟨u, hquiet, hu⟩ := ih
      exact ⟨u, .head ⟨hstep, hq⟩ hquiet, hu⟩
  | visit hstep hq hs hrest _ =>
      exact ⟨_, .refl, .visit hstep hq hs hrest, Or.inr ⟨hq, hrest.le⟩⟩

end Machine
