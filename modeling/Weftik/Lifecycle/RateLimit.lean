import Weftik.Lifecycle.Manager
import Weftik.Lib.Pacing

/-!
# The Restart Rate Limit

The counter of a child goes back to zero when its last start is a window ago, not when the
restarts are. Each restart is a start, so a child is not restarted more often within a window
than the limit says, at whatever times the polls come and however the children exit.

## Main definitions

* `Limited`: the counter of a child and its last start bound its restarts.

## Main results

* `CheckedAs.limited`: a poll keeps the bound.
* `restarts_limited`: the limit, for every run of the manager.
-/

open Pacing Outcome

namespace Weftik.Lifecycle

variable {P : Platform}

/-- The restarts of a child so far are within the limit, and so are its counter and the next
window. -/
structure Limited (times : List ℕ) (now : ℕ) (c : ManagedChild) : Prop where
  count_le : c.restartCount ≤ maxRetries
  paced : Paced (fromMillis restartWindowMs) maxRetries times c.restartCount c.lastStart now

/-- The restart counter as it is compared with the limit. -/
theorem Limited.resetCount {times : List ℕ} {now : ℕ} {c : ManagedChild}
    (h : Limited times now c) {now' : ℕ} (hle : now ≤ now') :
    Paced (fromMillis restartWindowMs) maxRetries times (resetCount now' c) c.lastStart now' := by
  rw [Lifecycle.resetCount]
  split_ifs with hquiet
  · exact (h.paced.wait hle).reset hquiet
  · exact h.paced.wait hle

/-- A poll keeps the bound. -/
theorem CheckedAs.limited {poll : Poll} {c : ManagedChild} {r : Checked}
    (hr : CheckedAs poll c r) {times : List ℕ} {now : ℕ} (h : Limited times now c)
    (hle : now ≤ poll.now) :
    Limited (times ++ if r.restarted then [poll.now] else []) poll.now r.child ∧
      ∀ attempt nextAt, r.health.state = .restarting attempt nextAt → attempt - 1 < 64 := by
  have hpaced := h.resetCount hle
  have hcount := (resetCount_le poll.now c).trans h.count_le
  cases hr with
  | restarted _ hlt hstate hrestart hlast _ =>
      have hflag : r.restarted = true := by rw [Checked.restarted, hstate]
      rw [if_pos hflag]
      refine ⟨⟨hrestart.trans_le hlt, ?_⟩, fun attempt nextAt heq => ?_⟩
      · rw [hrestart, hlast]
        exact hpaced.event hlt
      · rw [hstate] at heq
        obtain ⟨rfl, -⟩ := ProcessState.restarting.inj heq
        rw [maxRetries] at hlt
        omega
  | spawnFailed _ _ hstate hrestart hlast _ =>
      have hflag : r.restarted = false := by rw [Checked.restarted, hstate]
      rw [hflag, if_neg Bool.false_ne_true, List.append_nil, hstate]
      refine ⟨⟨hrestart.trans_le hcount, ?_⟩, by rintro _ _ ⟨⟩⟩
      rw [hrestart, hlast]
      exact hpaced
  | exhausted _ _ hstate _ hrestart hlast _ =>
      have hflag : r.restarted = false := by rw [Checked.restarted, hstate]
      rw [hflag, if_neg Bool.false_ne_true, List.append_nil, hstate]
      refine ⟨⟨hrestart.trans_le hcount, ?_⟩, by rintro _ _ ⟨⟩⟩
      rw [hrestart, hlast]
      exact hpaced
  | running _ hstate hchild _ =>
      have hflag : r.restarted = false := by rw [Checked.restarted, hstate]
      rw [hflag, if_neg Bool.false_ne_true, List.append_nil, hstate, hchild]
      exact ⟨⟨h.count_le, h.paced.wait hle⟩, by rintro _ _ ⟨⟩⟩
  | unknown _ hstate hchild _ =>
      have hflag : r.restarted = false := by rw [Checked.restarted, hstate]
      rw [hflag, if_neg Bool.false_ne_true, List.append_nil, hstate, hchild]
      exact ⟨⟨h.count_le, h.paced.wait hle⟩, by rintro _ _ ⟨⟩⟩

/-! ### Runs -/

/-- The bound for all children; `times i` are the restarts of the child at position `i`. -/
structure AllLimited (times : ℕ → List ℕ) (now : ℕ) (cs : List ManagedChild) : Prop where
  child : ∀ i c, cs[i]? = some c → Limited (times i) now c
  none_past : ∀ i, cs.length ≤ i → times i = []

/-- The attempts of the reports have shifts within the width of a `u64`. -/
def ShiftsFit (rs : List Checked) : Prop :=
  ∀ r ∈ rs, ∀ attempt nextAt, r.health.state = .restarting attempt nextAt → attempt - 1 < 64

theorem restartTimes_cons (i : ℕ) (report : ℕ × List Checked)
    (reports : List (ℕ × List Checked)) :
    restartTimes i (report :: reports) =
      (if report.2[i]?.any Checked.restarted then [report.1] else []) ++
        restartTimes i reports := by
  rw [restartTimes, List.filter_cons]
  split_ifs <;> rfl

/-- A child that has just been started has no restarts. -/
theorem limited_spawned {name program : String} {args : List String} {now process : ℕ} :
    Limited [] now ⟨name, process, 0, now, none, program, args⟩ :=
  ⟨Nat.zero_le _, .start le_rfl⟩

/-- An operation keeps the bound, and does not panic. -/
theorem applyOp_limited {times : ℕ → List ℕ} {now : ℕ} {cs : List ManagedChild}
    (h : AllLimited times now cs) {op : Op} (hle : now ≤ op.time) :
    ∃ cs' rs, applyOp P cs op = .ok (cs', rs) ∧ ShiftsFit rs ∧
      AllLimited
        (fun i => times i ++ if rs[i]?.any Checked.restarted then [op.time] else []) op.time
        cs' := by
  have hwait : AllLimited times op.time cs :=
    ⟨fun i c hc => ⟨(h.child i c hc).count_le, (h.child i c hc).paced.wait hle⟩, h.none_past⟩
  cases op with
  | spawn name program args now' result =>
      have hspawned : ∃ cs', applyOp P cs (.spawn name program args now' result) =
          .ok (cs', []) ∧ AllLimited times now' cs' := by
        cases result with
        | error e => exact ⟨cs, rfl, hwait⟩
        | ok process =>
            refine ⟨_, rfl, fun i c hc => ?_, fun i hi => ?_⟩
            · rcases Nat.lt_or_ge i cs.length with hlt | hge
              · rw [List.getElem?_append_left hlt] at hc
                exact hwait.child i c hc
              · rw [List.getElem?_append_right hge] at hc
                obtain rfl := List.mem_singleton.mp (List.mem_of_getElem? hc)
                rw [h.none_past i hge]
                exact limited_spawned
            · rw [List.length_append] at hi
              exact h.none_past i (Nat.le_of_add_right_le hi)
      obtain ⟨cs', happly, hlimited⟩ := hspawned
      refine ⟨cs', [], happly, nofun, ?_⟩
      simp only [List.getElem?_nil, Option.any_none, Bool.false_eq_true, if_false,
        List.append_nil]
      exact hlimited
  | healthCheck poll =>
      obtain ⟨rs, hrs, hall⟩ := healthCheck_spec P poll 0 cs
      have hstep : ∀ i r, rs[i]? = some r → ∃ c, cs[i]? = some c ∧ CheckedAs poll c r :=
        fun i r hr => forall₂_getElem? hall.flip hr
      refine ⟨rs.map Checked.child, rs, by rw [applyOp, hrs, ok_bind]; rfl, ?_, ?_⟩
      · intro r hr
        obtain ⟨i, hi⟩ := List.mem_iff_getElem?.mp hr
        obtain ⟨c, hc, hcheck⟩ := hstep i r hi
        exact (hcheck.limited (h.child i c hc) hle).2
      · refine ⟨fun i c' hc' => ?_, fun i hi => ?_⟩
        · rw [List.getElem?_map, Option.map_eq_some_iff] at hc'
          obtain ⟨r, hr, rfl⟩ := hc'
          obtain ⟨c, hc, hcheck⟩ := hstep i r hr
          rw [hr]
          exact (hcheck.limited (h.child i c hc) hle).1
        · rw [List.length_map] at hi
          rw [List.getElem?_eq_none hi, h.none_past i (hall.length_eq ▸ hi)]
          rfl

/-- A run keeps the bound, and does not panic. -/
theorem run_limited {ops : List Op} {times : ℕ → List ℕ} {now : ℕ} {cs : List ManagedChild}
    (htimes : (now :: ops.map Op.time).Pairwise (· ≤ ·)) (h : AllLimited times now cs) :
    ∃ cs' reports now', run P ops cs = .ok (cs', reports) ∧
      (∀ report ∈ reports, ShiftsFit report.2) ∧
      AllLimited (fun i => times i ++ restartTimes i reports) now' cs' := by
  induction ops generalizing times now cs with
  | nil =>
      refine ⟨cs, [], now, rfl, nofun, ?_⟩
      simpa [restartTimes] using h
  | cons op ops ih =>
      rw [List.map_cons, List.pairwise_cons] at htimes
      obtain ⟨cs₁, rs, happly, hfit, h₁⟩ :=
        applyOp_limited (P := P) h (htimes.1 op.time List.mem_cons_self)
      obtain ⟨cs', reports, now', hrun, hfits, h'⟩ := ih htimes.2 h₁
      refine ⟨cs', (op.time, rs) :: reports, now', ?_, ?_, ?_⟩
      · rw [run, happly, ok_bind]
        simp only [hrun, ok_bind]
        rfl
      · intro report hreport
        rcases List.mem_cons.mp hreport with rfl | hmem
        · exact hfit
        · exact hfits report hmem
      · simpa only [restartTimes_cons, List.append_assoc] using h'

/-- The restart rate limit. In a run of the manager whose operations come one after the other,
every child is restarted at most `maxRetries` times within any window, its counter never
exceeds that number, and the shift of the backoff is within its width; nothing panics. -/
theorem restarts_limited (P : Platform) {ops : List Op}
    (htimes : (ops.map Op.time).Pairwise (· ≤ ·)) :
    ∃ cs reports, run P ops [] = .ok (cs, reports) ∧
      (∀ i t, inWindow (fromMillis restartWindowMs) t (restartTimes i reports) ≤ maxRetries) ∧
      (∀ c ∈ cs, c.restartCount ≤ maxRetries) ∧ ∀ report ∈ reports, ShiftsFit report.2 := by
  have hstart : AllLimited (fun _ => []) 0 [] := ⟨nofun, fun _ _ => rfl⟩
  have htimes' : (0 :: ops.map Op.time).Pairwise (· ≤ ·) :=
    List.pairwise_cons.mpr ⟨fun _ _ => Nat.zero_le _, htimes⟩
  obtain ⟨cs, reports, now, hrun, hfits, h⟩ := run_limited (P := P) htimes' hstart
  refine ⟨cs, reports, hrun, fun i t => ?_, fun c hc => ?_, hfits⟩
  · cases hc : cs[i]? with
    | some c => exact (h.child i c hc).paced.bounded t
    | none =>
        have hnone := h.none_past i (List.getElem?_eq_none_iff.mp hc)
        rw [List.nil_append] at hnone
        rw [hnone]
        exact Nat.zero_le _
  · obtain ⟨i, hi⟩ := List.mem_iff_getElem?.mp hc
    exact (h.child i c hi).count_le

/-- A child whose every process has exited at once when it is polled, every second. -/
def crashing : List Op :=
  .spawn "child" "program" [] 0 (.ok 0) ::
    (List.range 5).map fun k =>
      .healthCheck ⟨fromMillis (1000 * (k + 1)), fun _ => .ok (some (some 1)), fun _ _ _ => .ok 1⟩

/-- It is restarted three times. -/
theorem restarts_limited_crashing :
    (∃ cs reports, run Platform.exact crashing [] = .ok (cs, reports) ∧
        restartTimes 0 reports = [fromMillis 1000, fromMillis 2000, fromMillis 3000]) ∧
      ∃ cs reports, run Platform.exact crashing [] = .ok (cs, reports) ∧
        (∀ i t, inWindow (fromMillis restartWindowMs) t (restartTimes i reports) ≤ maxRetries) ∧
        (∀ c ∈ cs, c.restartCount ≤ maxRetries) ∧ ∀ report ∈ reports, ShiftsFit report.2 :=
  ⟨⟨_, _, rfl, rfl⟩, restarts_limited Platform.exact (by decide)⟩

end Weftik.Lifecycle
