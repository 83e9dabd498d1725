import Weftik.Lifecycle.Manager
import Weftik.Lib.Transition

/-!
# The Restarts That the Engine Counts

In each cycle the engine polls the children and counts one restart for each report of the poll.
A poll reports on every child, also on one that is running or that is not started again, so that
the metric counts more than the restarts.

## Main definitions

* `RuntimeMetrics`, `superviseCycle`: the supervision phase of a cycle.
* `Supervision`, `supervise`: a run of the engine, with the restarts that the manager has made.
* `Restarts`: the child has exited and is started again.

## Main results

* `checkChild_restarted_iff`, `healthCheck_restarted_iff`: the reports that are restarts.
* `supervise_counts_iff`: when the metric is the number of restarts.
-/

open Outcome

namespace Weftik.Lifecycle

variable {P : Platform}

/-! ### The supervision phase -/

/-- The metrics of the supervision phase. -/
structure RuntimeMetrics where
  childRestarts : ℕ
  healthCheckFailures : ℕ
  deriving DecidableEq, Repr

/-- Count a restart. -/
def RuntimeMetrics.recordChildRestart (m : RuntimeMetrics) : RuntimeMetrics :=
  { m with childRestarts := m.childRestarts + 1 }

/-- Count a failed health check. -/
def RuntimeMetrics.recordHealthFailure (m : RuntimeMetrics) : RuntimeMetrics :=
  { m with healthCheckFailures := m.healthCheckFailures + 1 }

/-- The metrics after the reports of a poll. -/
def RuntimeMetrics.recordReports (m : RuntimeMetrics) (dead : List ChildHealth) :
    RuntimeMetrics :=
  let m := dead.foldl (fun m _ => m.recordChildRestart) m
  if dead.isEmpty then m else m.recordHealthFailure

/-- The supervised children, the metrics, and, as a ghost field, the number of restarts that the
manager has made. -/
structure Supervision where
  children : List ManagedChild
  metrics : RuntimeMetrics
  restarts : ℕ

/-- Before the first child and the first cycle. -/
def Supervision.new : Supervision := ⟨[], ⟨0, 0⟩, 0⟩

/-- The supervision phase of a cycle. -/
def superviseCycle (P : Platform) (poll : Poll) (s : Supervision) :
    Except Panic Supervision := do
  let checked ← healthCheck P poll 0 s.children
  pure
    { children := checked.map Checked.child
      metrics := s.metrics.recordReports (checked.map Checked.health)
      restarts := s.restarts + checked.countP Checked.restarted }

/-- What happens to the engine: a child is started, or a cycle. That children exit is in the
polls of the cycles. -/
inductive EngineEvent
  | spawn (name program : String) (args : List String) (now : ℕ) (result : Except String ℕ)
  | cycle (poll : Poll)

/-- One event. -/
def EngineEvent.apply (P : Platform) (s : Supervision) : EngineEvent → Except Panic Supervision
  | .spawn name program args now result => do
      let (children, _) ← applyOp P s.children (.spawn name program args now result)
      pure { s with children := children }
  | .cycle poll => superviseCycle P poll s

/-- A run of the engine. -/
def supervise (P : Platform) (events : List EngineEvent) : Except Panic Supervision :=
  events.foldlM (EngineEvent.apply P) Supervision.new

theorem supervise_concat (events : List EngineEvent) (e : EngineEvent) :
    supervise P (events ++ [e]) = supervise P events >>= fun s => e.apply P s := by
  rw [supervise, List.foldlM_append]
  refine congrArg (Bind.bind _) (funext fun s => ?_)
  exact bind_pure _

/-- Each report counts as a restart. -/
theorem RuntimeMetrics.recordReports_childRestarts (m : RuntimeMetrics)
    (dead : List ChildHealth) :
    (m.recordReports dead).childRestarts = m.childRestarts + dead.length := by
  have hfold : ∀ m : RuntimeMetrics,
      (dead.foldl (fun m _ => m.recordChildRestart) m).childRestarts =
        m.childRestarts + dead.length := by
    induction dead with
    | nil => exact fun m => rfl
    | cons d dead ih =>
        intro m
        rw [List.foldl_cons, ih, List.length_cons]
        exact (Nat.add_right_comm _ 1 _).trans (Nat.add_assoc _ _ 1)
  rw [recordReports]
  split
  · exact hfold m
  · exact hfold m

/-! ### Restarts -/

/-- The child has exited, may be started again, and is. -/
def Restarts (poll : Poll) (i : ℕ) (c : ManagedChild) : Prop :=
  (∃ exitCode, poll.tryWait c.process = .ok (some exitCode)) ∧
    resetCount poll.now c < maxRetries ∧
      ∃ process, poll.spawn i c.program c.args = .ok process

/-- The report on a child is that of a restart exactly when there has been one. -/
theorem checkChild_restarted_iff {poll : Poll} {i : ℕ} {c : ManagedChild} {r : Checked}
    (h : checkChild P poll i c = .ok r) : r.restarted = true ↔ Restarts poll i c := by
  unfold checkChild at h
  cases hwait : poll.tryWait c.process with
  | error e =>
      simp only [hwait] at h
      obtain rfl := Except.ok.inj h
      refine iff_of_false Bool.false_ne_true ?_
      rintro ⟨⟨_, hexit⟩, -⟩
      rw [hwait] at hexit
      cases hexit
  | ok exit =>
      cases exit with
      | none =>
          simp only [hwait] at h
          obtain rfl := Except.ok.inj h
          refine iff_of_false Bool.false_ne_true ?_
          rintro ⟨⟨_, hexit⟩, -⟩
          rw [hwait] at hexit
          cases hexit
      | some exitCode =>
          simp only [hwait] at h
          by_cases hcount : resetCount poll.now c < maxRetries
          · rw [if_pos hcount] at h
            cases hspawn : poll.spawn i c.program c.args with
            | error e =>
                simp only [hspawn] at h
                obtain rfl := Except.ok.inj h
                refine iff_of_false Bool.false_ne_true ?_
                rintro ⟨-, -, _, hstarted⟩
                rw [hspawn] at hstarted
                cases hstarted
            | ok process =>
                simp only [hspawn] at h
                obtain ⟨backoff, -, h⟩ := bind_eq_ok h
                obtain rfl := Except.ok.inj h
                exact iff_of_true rfl ⟨⟨exitCode, hwait⟩, hcount, process, hspawn⟩
          · rw [if_neg hcount] at h
            obtain rfl := Except.ok.inj h
            exact iff_of_false Bool.false_ne_true fun hrestarts => hcount hrestarts.2.1

/-- Every report of a poll is that of a restart exactly when every child is started again. -/
theorem healthCheck_restarted_iff {poll : Poll} {start : ℕ} {cs : List ManagedChild}
    {rs : List Checked} (h : healthCheck P poll start cs = .ok rs) :
    (∀ r ∈ rs, r.restarted = true) ↔
      ∀ i c, cs[i]? = some c → Restarts poll (start + i) c := by
  induction cs generalizing start rs with
  | nil =>
      obtain rfl := Except.ok.inj h
      exact iff_of_true (List.forall_mem_nil _) nofun
  | cons c cs ih =>
      obtain ⟨r, hr, h⟩ := bind_eq_ok h
      obtain ⟨rest, hrest, h⟩ := bind_eq_ok h
      obtain rfl := Except.ok.inj h
      rw [List.forall_mem_cons, ih hrest, checkChild_restarted_iff hr]
      constructor
      · rintro ⟨hfirst, hothers⟩ i c' hc'
        cases i with
        | zero =>
            obtain rfl := Option.some.inj hc'
            exact hfirst
        | succ i =>
            have hnext := hothers i c' hc'
            rwa [Nat.add_assoc, Nat.add_comm 1] at hnext
      · refine fun hall => ⟨hall 0 c rfl, fun i c' hc' => ?_⟩
        have hnext := hall (i + 1) c' hc'
        rwa [Nat.add_comm i, ← Nat.add_assoc] at hnext

/-! ### The metric over a run -/

/-- In every cycle of a run every child is started again. -/
def EachRestarts (P : Platform) (events : List EngineEvent) : Prop :=
  ∀ before poll after, events = before ++ .cycle poll :: after →
    ∀ s, supervise P before = .ok s → ∀ i c, s.children[i]? = some c → Restarts poll i c

theorem eachRestarts_concat {events : List EngineEvent} {e : EngineEvent} :
    EachRestarts P (events ++ [e]) ↔
      EachRestarts P events ∧ ∀ poll, e = .cycle poll →
        ∀ s, supervise P events = .ok s → ∀ i c, s.children[i]? = some c → Restarts poll i c := by
  have hall : ∀ events : List EngineEvent, EachRestarts P events ↔
      ∀ before d after, events = before ++ d :: after → ∀ poll, d = .cycle poll →
        ∀ s, supervise P before = .ok s → ∀ i c, s.children[i]? = some c → Restarts poll i c := by
    intro events
    constructor
    · rintro h before _ after hevents poll rfl
      exact h before poll after hevents
    · intro h before poll after hevents
      exact h before _ after hevents poll rfl
  rw [hall, hall, Transition.forall_split_concat]

/-- A run does not panic. The metric is never below the number of restarts, and is it exactly
when every child is started again in every cycle. -/
theorem supervise_spec (P : Platform) (events : List EngineEvent) :
    ∃ s, supervise P events = .ok s ∧ s.restarts ≤ s.metrics.childRestarts ∧
      (s.metrics.childRestarts = s.restarts ↔ EachRestarts P events) := by
  induction events using List.reverseRecOn with
  | nil =>
      refine ⟨Supervision.new, rfl, le_rfl, iff_of_true rfl fun before poll after hnil => ?_⟩
      cases before <;> cases hnil
  | append_singleton events e ih =>
      obtain ⟨s, hs, hle, hiff⟩ := ih
      rw [supervise_concat, hs, ok_bind, eachRestarts_concat]
      cases e with
      | spawn name program args now result =>
          have hsame : ∀ children, ∃ t, (pure { s with children := children } :
              Except Panic Supervision) = .ok t ∧ t.restarts ≤ t.metrics.childRestarts ∧
              (t.metrics.childRestarts = t.restarts ↔
                EachRestarts P events ∧ ∀ poll,
                  EngineEvent.spawn name program args now result = .cycle poll →
                    ∀ s, supervise P events = .ok s → ∀ i c, s.children[i]? = some c →
                      Restarts poll i c) :=
            fun children => ⟨_, rfl, hle, hiff.trans (and_iff_left nofun).symm⟩
          cases result with
          | error text => exact hsame _
          | ok process => exact hsame _
      | cycle poll =>
          obtain ⟨rs, hrs, -⟩ := healthCheck_spec P poll 0 s.children
          have hmade := healthCheck_restarted_iff hrs
          have hcount : rs.countP Checked.restarted ≤ rs.length := List.countP_le_length
          have hmetric : (s.metrics.recordReports (rs.map Checked.health)).childRestarts =
              s.metrics.childRestarts + rs.length := by
            rw [RuntimeMetrics.recordReports_childRestarts, List.length_map]
          refine ⟨_, by rw [EngineEvent.apply, superviseCycle, hrs]; rfl, ?_, ?_⟩
          · change s.restarts + rs.countP Checked.restarted ≤
              (s.metrics.recordReports (rs.map Checked.health)).childRestarts
            omega
          · change (s.metrics.recordReports (rs.map Checked.health)).childRestarts =
              s.restarts + rs.countP Checked.restarted ↔ _
            have hall : rs.countP Checked.restarted = rs.length ↔
                ∀ i c, s.children[i]? = some c → Restarts poll i c := by
              simp only [Nat.zero_add] at hmade
              rw [List.countP_eq_length, hmade]
            constructor
            · intro heq
              have hbefore : s.metrics.childRestarts = s.restarts := by omega
              refine ⟨hiff.mp hbefore, ?_⟩
              rintro _ ⟨⟩ s' hs'
              obtain rfl := Except.ok.inj (hs.symm.trans hs')
              exact hall.mp (by omega)
            · rintro ⟨hbefore, hlast⟩
              have heq := hiff.mpr hbefore
              have hlength := hall.mpr (hlast poll rfl s hs)
              omega

/-- In every run the metric is the number of restarts exactly when every child is started again
in every cycle. -/
theorem supervise_counts_iff (P : Platform) (events : List EngineEvent) :
    ∃ s, supervise P events = .ok s ∧
      (s.metrics.childRestarts = s.restarts ↔ EachRestarts P events) := by
  obtain ⟨s, hs, -, hiff⟩ := supervise_spec P events
  exact ⟨s, hs, hiff⟩

/-- A child that is running is counted as a restart in each cycle. -/
theorem running_child_counted :
    ¬ ∀ (P : Platform) (events : List EngineEvent) (s : Supervision),
      supervise P events = .ok s → s.metrics.childRestarts = s.restarts := by
  intro h
  have hsame := h Platform.exact
    [.spawn "sleeper" "sleep" ["5"] 0 (.ok 1), .cycle ⟨50, fun _ => .ok none, fun _ _ _ => .ok 2⟩]
    _ rfl
  revert hsame
  decide

end Weftik.Lifecycle
