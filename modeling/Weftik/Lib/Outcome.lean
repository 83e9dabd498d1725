import Mathlib

/-!
# Postconditions of Computations that May Fail

A computation in `Except ε` ends with a value or with an error. `Ends c Q E` says that a
value satisfies `Q` and an error satisfies `E`; it is a triple without precondition, and
the rules below follow the structure of a `do` block.

## Main results

* `Ends.bind`, `Ends.mono`: the rules of sequencing and of consequence.
* `bind_eq_ok`: inversion of a sequence that succeeds.
-/

namespace Outcome

variable {ε α β : Type}

/-- A value of the computation satisfies `Q`, an error satisfies `E`. -/
def Ends (c : Except ε α) (Q : α → Prop) (E : ε → Prop) : Prop :=
  match c with
  | .ok a => Q a
  | .error e => E e

theorem Ends.ok {a : α} {Q : α → Prop} {E : ε → Prop} (h : Q a) :
    Ends (.ok a : Except ε α) Q E := h

theorem Ends.pure {a : α} {Q : α → Prop} {E : ε → Prop} (h : Q a) :
    Ends (Pure.pure a : Except ε α) Q E := h

theorem Ends.error {e : ε} {Q : α → Prop} {E : ε → Prop} (h : E e) :
    Ends (.error e : Except ε α) Q E := h

/-- The rule of sequencing. -/
theorem Ends.bind {c : Except ε α} {f : α → Except ε β} {R : α → Prop} {Q : β → Prop}
    {E : ε → Prop} (hc : Ends c R E) (hf : ∀ a, R a → Ends (f a) Q E) :
    Ends (c >>= f) Q E := by
  cases c with
  | ok a => exact hf a hc
  | error e => exact hc

/-- A function mapped over the result. -/
theorem Ends.map {c : Except ε α} {f : α → β} {Q : β → Prop} {E : ε → Prop}
    (hc : Ends c (fun a => Q (f a)) E) : Ends (f <$> c) Q E := by
  cases c with
  | ok a => exact hc
  | error e => exact hc

/-- The rule of consequence. -/
theorem Ends.mono {c : Except ε α} {Q Q' : α → Prop} {E E' : ε → Prop}
    (h : Ends c Q E) (hQ : ∀ a, Q a → Q' a) (hE : ∀ e, E e → E' e) : Ends c Q' E' := by
  cases c with
  | ok a => exact hQ a h
  | error e => exact hE e h

/-- What a value that was returned satisfies. -/
theorem Ends.of_ok {c : Except ε α} {Q : α → Prop} {E : ε → Prop} {a : α}
    (h : Ends c Q E) (hc : c = .ok a) : Q a := by
  rw [hc] at h
  exact h

/-- What an error that was raised satisfies. -/
theorem Ends.of_error {c : Except ε α} {Q : α → Prop} {E : ε → Prop} {e : ε}
    (h : Ends c Q E) (hc : c = .error e) : E e := by
  rw [hc] at h
  exact h

/-- A sequence that succeeds is two computations that succeed. -/
theorem bind_eq_ok {c : Except ε α} {f : α → Except ε β} {b : β}
    (h : (c >>= f) = .ok b) : ∃ a, c = .ok a ∧ f a = .ok b := by
  cases c with
  | ok a => exact ⟨a, rfl, h⟩
  | error e => cases h

/-- A function mapped over a computation that succeeds. -/
theorem map_eq_ok {c : Except ε α} {f : α → β} {b : β} (h : f <$> c = .ok b) :
    ∃ a, c = .ok a ∧ f a = b := by
  cases c with
  | ok a => exact ⟨a, rfl, Except.ok.inj h⟩
  | error e => cases h

/-! ### Two computations with one ending -/

/-- The two computations return values that are related, or raise the same error. -/
def Agree (R : α → β → Prop) (c : Except ε α) (d : Except ε β) : Prop :=
  match c, d with
  | .ok a, .ok b => R a b
  | .error e, .error e' => e = e'
  | _, _ => False

/-- Sequences of computations that agree step by step. -/
theorem Agree.bind {γ δ : Type} {R : α → β → Prop} {S : γ → δ → Prop} {c : Except ε α}
    {d : Except ε β} {f : α → Except ε γ} {g : β → Except ε δ} (h : Agree R c d)
    (hfg : ∀ a b, R a b → Agree S (f a) (g b)) : Agree S (c >>= f) (d >>= g) := by
  cases c with
  | ok a =>
      cases d with
      | ok b => exact hfg a b h
      | error e => exact False.elim h
  | error e =>
      cases d with
      | ok b => exact False.elim h
      | error e' => exact h

/-- A computation agrees with itself, whatever follows it. -/
theorem Agree.bind_left {γ δ : Type} {S : γ → δ → Prop} {c : Except ε α}
    {f : α → Except ε γ} {g : α → Except ε δ} (hfg : ∀ a, Agree S (f a) (g a)) :
    Agree S (c >>= f) (c >>= g) := by
  cases c with
  | ok a => exact hfg a
  | error e => exact rfl

/-- A function mapped over the first of two computations that agree. -/
theorem Agree.then_pure {γ : Type} {R : α → β → Prop} {S : γ → β → Prop} {c : Except ε α}
    {d : Except ε β} {f : α → γ} (h : Agree R c d) (hf : ∀ a b, R a b → S (f a) b) :
    Agree S (c >>= fun a => Pure.pure (f a)) d := by
  cases c with
  | ok a =>
      cases d with
      | ok b => exact hf a b h
      | error e => exact False.elim h
  | error e =>
      cases d with
      | ok b => exact False.elim h
      | error e' => exact h

/-- A weaker relation. -/
theorem Agree.mono {R S : α → β → Prop} {c : Except ε α} {d : Except ε β} (h : Agree R c d)
    (hS : ∀ a b, R a b → S a b) : Agree S c d := by
  cases c with
  | ok a =>
      cases d with
      | ok b => exact hS a b h
      | error e => exact False.elim h
  | error e =>
      cases d with
      | ok b => exact False.elim h
      | error e' => exact h

/-- What is related is what the first computation returns. -/
theorem Agree.and_returned {R : α → β → Prop} {c : Except ε α} {d : Except ε β}
    (h : Agree R c d) : Agree (fun a b => R a b ∧ c = .ok a) c d := by
  cases c with
  | ok a =>
      cases d with
      | ok b => exact ⟨h, rfl⟩
      | error e => exact False.elim h
  | error e =>
      cases d with
      | ok b => exact False.elim h
      | error e' => exact h

/-- A computation agrees with an error only if it raises it. -/
theorem Agree.of_error_right {R : α → β → Prop} {c : Except ε α} {e : ε}
    (h : Agree R c (.error e)) : c = .error e := by
  cases c with
  | ok a => exact False.elim h
  | error e' => exact congrArg Except.error h

/-- A computation agrees with a value only if it returns a related one. -/
theorem Agree.of_ok_right {R : α → β → Prop} {c : Except ε α} {b : β}
    (h : Agree R c (.ok b)) : ∃ a, c = .ok a ∧ R a b := by
  cases c with
  | ok a => exact ⟨a, rfl, h⟩
  | error e => exact False.elim h

/-- A value agrees with a computation only if this returns a related one. -/
theorem Agree.of_ok_left {R : α → β → Prop} {c : Except ε α} {d : Except ε β} {a : α}
    (h : Agree R c d) (hc : c = .ok a) : ∃ b, d = .ok b ∧ R a b := by
  subst hc
  cases d with
  | ok b => exact ⟨b, rfl, h⟩
  | error e => exact False.elim h

/-- What two computations that agree have in common. -/
theorem Agree.map_eq {γ : Type} {R : α → β → Prop} {c : Except ε α} {d : Except ε β}
    {f : α → γ} {g : β → γ} (h : Agree R c d) (hfg : ∀ a b, R a b → f a = g b) :
    f <$> c = g <$> d := by
  cases c with
  | ok a =>
      cases d with
      | ok b => exact congrArg Except.ok (hfg a b h)
      | error e => exact False.elim h
  | error e =>
      cases d with
      | ok b => exact False.elim h
      | error e' => exact congrArg Except.error h

@[simp] theorem ok_bind (a : α) (f : α → Except ε β) :
    ((.ok a : Except ε α) >>= f) = f a := rfl

@[simp] theorem error_bind (e : ε) (f : α → Except ε β) :
    ((.error e : Except ε α) >>= f) = .error e := rfl

end Outcome
