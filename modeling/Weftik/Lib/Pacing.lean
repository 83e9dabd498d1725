import Mathlib

/-!
# A Counter as a Rate Limiter

Events are counted, and an event may happen while the counter is below a limit. The counter is
not a sliding window: it goes back to zero when the last event is a window or more ago. Still
no window has more events than the limit, since events that are less than a window apart are
never separated by a reset.

## Main definitions

* `Pacing.Paced`: the times of the events, the counter, the last event and the clock.

## Main results

* `Pacing.Paced.wait`, `Pacing.Paced.reset`, `Pacing.Paced.event`: the three ways to go on.
* `Pacing.Paced.bounded`: a window has no more events than the limit.
-/

namespace Pacing

/-- The number of the times in the half-open window that begins at `t`. -/
def inWindow (window t : ℕ) (times : List ℕ) : ℕ :=
  times.countP fun s => decide (t ≤ s ∧ s < t + window)

/-- The number of the times from `t` on. -/
def since (t : ℕ) (times : List ℕ) : ℕ := times.countP fun s => decide (t ≤ s)

theorem inWindow_le_since (window t : ℕ) (times : List ℕ) :
    inWindow window t times ≤ since t times := by
  refine List.countP_mono_left fun s _ h => ?_
  exact decide_eq_true (of_decide_eq_true h).1

/-- The events so far: none is after `last`, and as long as a window reaches to `now`, the
counter counts the events in it. -/
structure Paced (window limit : ℕ) (times : List ℕ) (count last now : ℕ) : Prop where
  le_last : ∀ s ∈ times, s ≤ last
  last_le : last ≤ now
  recent : ∀ t, now < t + window → since t times ≤ count
  bounded : ∀ t, inWindow window t times ≤ limit

variable {window limit count last now : ℕ} {times : List ℕ}

/-- Before the first event. -/
theorem Paced.start (h : last ≤ now) : Paced window limit [] count last now :=
  ⟨nofun, h, fun _ _ => Nat.zero_le _, fun _ => Nat.zero_le _⟩

/-- Time passes. -/
theorem Paced.wait (h : Paced window limit times count last now) {now' : ℕ}
    (hle : now ≤ now') : Paced window limit times count last now' :=
  { h with
    last_le := Nat.le_trans h.last_le hle
    recent := fun t ht => h.recent t (by omega) }

/-- The counter goes back to zero when the last event is a window ago. -/
theorem Paced.reset (h : Paced window limit times count last now)
    (hquiet : window ≤ now - last) :
    Paced window limit times 0 last now := by
  refine { h with recent := fun t ht => ?_ }
  have hnone : since t times = 0 := by
    refine List.countP_eq_zero.mpr fun s hs => ?_
    have := h.le_last s hs
    have := h.last_le
    simp only [decide_eq_true_eq]
    omega
  exact Nat.le_of_eq hnone

/-- An event happens, and is counted. -/
theorem Paced.event (h : Paced window limit times count last now) (hlimit : count < limit) :
    Paced window limit (times ++ [now]) (count + 1) now now := by
  have hrecent : ∀ t, now < t + window → since t (times ++ [now]) ≤ count + 1 := by
    intro t ht
    have := h.recent t ht
    rw [since, List.countP_append, ← since, List.countP_singleton]
    split <;> omega
  refine ⟨fun s hs => ?_, Nat.le_refl now, hrecent, fun t => ?_⟩
  · rcases List.mem_append.mp hs with hs | hs
    · exact Nat.le_trans (h.le_last s hs) h.last_le
    · exact Nat.le_of_eq (List.mem_singleton.mp hs)
  · by_cases hin : t ≤ now ∧ now < t + window
    · calc inWindow window t (times ++ [now])
          ≤ since t (times ++ [now]) := inWindow_le_since _ _ _
        _ ≤ count + 1 := hrecent t hin.2
        _ ≤ limit := hlimit
    · rw [inWindow, List.countP_append, ← inWindow, List.countP_singleton,
        if_neg (by simpa using hin)]
      exact h.bounded t

end Pacing
