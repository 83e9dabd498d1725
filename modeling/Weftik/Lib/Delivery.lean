import Mathlib

/-!
# Reading under Time-Outs

What a sender writes arrives in pieces, and between two of them a read can time out. Reading a
fixed number of values collects pieces until it has enough. When it times out, what it has
collected so far is lost, since the next read begins where this one stopped.

## Main definitions

* `Delivery.Event`: a piece that arrives, or a time-out.
* `Delivery.values`, `Delivery.timeouts`: all that arrives, and where the time-outs are.
* `Delivery.readExact`: read a fixed number of values.
* `Delivery.Reads`, `Delivery.Loses`: what a read that succeeds or fails takes.

## Main results

* `Delivery.readExact_spec`: a read takes what it returns, or fails and loses less than it asked
  for.
* `Delivery.Reads.trans`, `Delivery.Loses.after`: reads in a row.
-/

namespace Delivery

variable {α : Type}

/-- What happens to a reader: values arrive, or it times out. -/
inductive Event (α : Type)
  | data (values : List α)
  | timeout
  deriving DecidableEq

/-- Why a read fails. -/
inductive ReadError
  | timedOut
  | unexpectedEof
  deriving DecidableEq

/-- All values that arrive. -/
def values : List (Event α) → List α
  | [] => []
  | .data vs :: es => vs ++ values es
  | .timeout :: es => values es

/-- The number of values that arrive before each time-out. -/
def timeouts : List (Event α) → List ℕ
  | [] => []
  | .data vs :: es => (timeouts es).map (vs.length + ·)
  | .timeout :: es => 0 :: timeouts es

/-- Read a number of values, from as many pieces as it takes. -/
def readExact : ℕ → List (Event α) → Except ReadError (List α) × List (Event α)
  | 0, es => (.ok [], es)
  | _ + 1, [] => (.error .unexpectedEof, [])
  | _ + 1, .timeout :: es => (.error .timedOut, es)
  | n + 1, .data vs :: es =>
      if n + 1 ≤ vs.length then (.ok (vs.take (n + 1)), .data (vs.drop (n + 1)) :: es)
      else
        match readExact (n + 1 - vs.length) es with
        | (.ok got, rest) => (.ok (vs ++ got), rest)
        | (.error e, rest) => (.error e, rest)

/-! ### What a read takes -/

/-- A reader has taken the values `got`, and no time-out. -/
structure Reads (es : List (Event α)) (got : List α) (rest : List (Event α)) : Prop where
  values_eq : values es = got ++ values rest
  timeouts_eq : timeouts es = (timeouts rest).map (got.length + ·)

/-- A reader that asks for `n` values has failed: a time-out has come too early, or there are
not as many. -/
def Loses (n : ℕ) (es : List (Event α)) (rest : List (Event α)) : ReadError → Prop
  | .timedOut => ∃ lost, lost.length < n ∧ values es = lost ++ values rest ∧
      timeouts es = lost.length :: (timeouts rest).map (lost.length + ·)
  | .unexpectedEof => (values es).length < n ∧ timeouts es = []

variable {es es' rest : List (Event α)} {got got' : List α} {n m : ℕ} {e : ReadError}

theorem Reads.refl (es : List (Event α)) : Reads es [] es :=
  ⟨rfl, by simp⟩

theorem Reads.data (vs : List α) (es : List (Event α)) : Reads (.data vs :: es) vs es :=
  ⟨rfl, rfl⟩

/-- Two reads in a row. -/
theorem Reads.trans (h : Reads es got es') (h' : Reads es' got' rest) :
    Reads es (got ++ got') rest := by
  refine ⟨by rw [h.values_eq, h'.values_eq, List.append_assoc], ?_⟩
  rw [h.timeouts_eq, h'.timeouts_eq, List.map_map, List.length_append]
  refine List.map_congr_left fun t _ => ?_
  exact (Nat.add_assoc _ _ _).symm

/-- A read that fails after another one also loses what that one has taken. -/
theorem Loses.after (h : Reads es got es') (h' : Loses n es' rest e) :
    Loses (got.length + n) es rest e := by
  cases e with
  | timedOut =>
      obtain ⟨lost, hlt, hvalues, htimeouts⟩ := h'
      refine ⟨got ++ lost, ?_, ?_, ?_⟩
      · rw [List.length_append]
        omega
      · rw [h.values_eq, hvalues, List.append_assoc]
      · rw [h.timeouts_eq, htimeouts, List.map_cons, List.map_map, List.length_append]
        congr 1
        refine List.map_congr_left fun t _ => ?_
        exact (Nat.add_assoc _ _ _).symm
  | unexpectedEof =>
      obtain ⟨hlt, htimeouts⟩ := h'
      refine ⟨?_, by rw [h.timeouts_eq, htimeouts, List.map_nil]⟩
      rw [h.values_eq, List.length_append]
      omega

/-- A time-out comes after some of the values. -/
theorem le_length_of_mem_timeouts {t : ℕ} (h : t ∈ timeouts es) : t ≤ (values es).length := by
  induction es generalizing t with
  | nil => cases h
  | cons event es ih =>
      cases event with
      | data vs =>
          obtain ⟨t', ht', rfl⟩ := List.mem_map.mp h
          rw [values, List.length_append]
          exact Nat.add_le_add_left (ih ht') _
      | timeout =>
          rcases List.mem_cons.mp h with rfl | h
          · exact Nat.zero_le _
          · exact ih h

/-- A read of `n` values takes that many, or fails. -/
inductive ReadAs (n : ℕ) (es : List (Event α)) :
    Except ReadError (List α) × List (Event α) → Prop
  | ok {got : List α} {rest : List (Event α)} :
      got.length = n → Reads es got rest → ReadAs n es (.ok got, rest)
  | error {e : ReadError} {rest : List (Event α)} :
      Loses n es rest e → ReadAs n es (.error e, rest)

/-- A read of `n` values takes that many, or fails. The induction is on the pieces. -/
theorem readExact_spec (n : ℕ) (es : List (Event α)) : ReadAs n es (readExact n es) := by
  induction es generalizing n with
  | nil =>
      cases n with
      | zero => exact .ok rfl (.refl [])
      | succ n => exact .error ⟨Nat.succ_pos n, rfl⟩
  | cons event es ih =>
      cases n with
      | zero => exact .ok rfl (.refl _)
      | succ n =>
          cases event with
          | timeout => exact .error ⟨[], Nat.succ_pos n, rfl, by simp [timeouts]⟩
          | data vs =>
              rw [readExact]
              split
              · rename_i hle
                refine .ok (List.length_take_of_le hle) ⟨?_, ?_⟩
                · rw [values, values, ← List.append_assoc, List.take_append_drop]
                · rw [timeouts, timeouts, List.map_map, List.length_take_of_le hle,
                    List.length_drop]
                  refine List.map_congr_left fun t _ => ?_
                  simp only [Function.comp_apply]
                  omega
              · rename_i hlt
                have hrest := ih (n + 1 - vs.length)
                split
                · rename_i got rest heq
                  rw [heq] at hrest
                  cases hrest with
                  | ok hlength hreads =>
                      refine .ok ?_ ((Reads.data vs es).trans hreads)
                      rw [List.length_append]
                      omega
                · rename_i e rest heq
                  rw [heq] at hrest
                  cases hrest with
                  | error hloses =>
                      have hafter := hloses.after (Reads.data vs es)
                      rw [Nat.add_sub_of_le (by omega)] at hafter
                      exact .error hafter

/-- Values that arrive without a time-out are read. -/
theorem readExact_of_values {more : List α} (hvalues : values es = got ++ more)
    (hlength : got.length = n) (hquiet : timeouts es = []) :
    ∃ rest, readExact n es = (.ok got, rest) ∧ values rest = more ∧ timeouts rest = [] := by
  have hspec := readExact_spec n es
  rcases hread : readExact n es with ⟨result, rest⟩
  rw [hread] at hspec
  cases hspec with
  | @ok got' _ hlength' hreads =>
      obtain ⟨rfl, hmore⟩ :=
        List.append_inj (hvalues.symm.trans hreads.values_eq) (hlength.trans hlength'.symm)
      rw [hreads.timeouts_eq, List.map_eq_nil_iff] at hquiet
      exact ⟨rest, rfl, hmore.symm, hquiet⟩
  | @error e _ hloses =>
      cases e with
      | timedOut =>
          obtain ⟨lost, -, -, htimeouts⟩ := hloses
          rw [hquiet] at htimeouts
          cases htimeouts
      | unexpectedEof =>
          have := hloses.1
          rw [hvalues, List.length_append] at this
          omega

end Delivery
