import Weftik.Lifecycle.Manager

/-!
# Is a Failure Permanent?

A child is reported as failed when its restarts are used up, when a restart could not be
spawned, or when its exit could not be asked for. Nothing remembers the report: the counter is
reset when the last start is a window ago, and a spawn that fails is not counted at all. So
the report is final only as long as every later poll finds the restarts used up within the
window, or cannot ask.

## Main definitions

* `StaysFailed`: no later poll attempts a restart or reports the child as running.
* `KeepsFailing`: what every later poll has to find.

## Main results

* `CheckedAs.keeps`, `CheckedAs.final_iff`: a poll of a child that has failed.
* `failed_permanent_iff`: when a failure is permanent.
-/

open Outcome

namespace Weftik.Lifecycle

variable {P : Platform}

/-- No report of these operations tells of an attempt to restart the child at a position, or of
its running. -/
def StaysFailed (i : ℕ) (reports : List (ℕ × List Checked)) : Prop :=
  ∀ report ∈ reports, ∀ r, report.2[i]? = some r →
    r.attempted = false ∧ r.health.state ≠ .running

/-- The poll cannot ask for the exit of the child, or finds it exited with its restarts used
up and its last start within the window. -/
def KeepsFailing (c : ManagedChild) (poll : Poll) : Prop :=
  (∃ e, poll.tryWait c.process = .error e) ∨
    (∃ exitCode, poll.tryWait c.process = .ok (some exitCode)) ∧
      maxRetries ≤ c.restartCount ∧ poll.now - c.lastStart < fromMillis restartWindowMs

/-- The polls among some operations. -/
def polls (ops : List Op) : List Poll :=
  ops.filterMap fun
    | .healthCheck poll => some poll
    | .spawn _ _ _ _ _ => none

/-- What a later poll looks at: the process, the counter and the last start. -/
def ManagedChild.SameAs (c c' : ManagedChild) : Prop :=
  c.process = c'.process ∧ c.restartCount = c'.restartCount ∧ c.lastStart = c'.lastStart

variable {c : ManagedChild}

theorem ManagedChild.SameAs.congr {c' : ManagedChild} (h : c.SameAs c') (poll : Poll) :
    KeepsFailing c poll ↔ KeepsFailing c' poll := by
  obtain ⟨hprocess, hcount, hlast⟩ := h
  rw [KeepsFailing, KeepsFailing, hprocess, hcount, hlast]

/-! ### One poll -/

/-- The restarts are used up exactly when the counter says so and the window lasts. -/
theorem maxRetries_le_resetCount {now : ℕ} :
    maxRetries ≤ resetCount now c ↔
      maxRetries ≤ c.restartCount ∧ now - c.lastStart < fromMillis restartWindowMs := by
  have hpos : 0 < maxRetries := by decide
  rw [resetCount]
  split_ifs with hquiet <;> omega

/-- A poll makes no attempt and does not report the child as running exactly when it finds what
keeps it failing. -/
theorem CheckedAs.final_iff {poll : Poll} {r : Checked} (h : CheckedAs poll c r) :
    (r.attempted = false ∧ r.health.state ≠ .running) ↔ KeepsFailing c poll := by
  cases h with
  | restarted hwait hlt _ _ _ hattempt | spawnFailed hwait hlt _ _ _ hattempt =>
      refine iff_of_false (fun h => by simp [hattempt] at h) ?_
      rintro (⟨e, he⟩ | ⟨-, hused⟩)
      · rw [hwait] at he
        cases he
      · exact absurd (maxRetries_le_resetCount.mpr hused) (Nat.not_le_of_lt hlt)
  | exhausted hwait hused hstate _ _ _ hattempt =>
      refine iff_of_true ⟨hattempt, by simp [hstate]⟩ ?_
      exact Or.inr ⟨⟨_, hwait⟩, maxRetries_le_resetCount.mp hused⟩
  | running hwait hstate _ _ =>
      refine iff_of_false (fun h => h.2 hstate) ?_
      rintro (⟨e, he⟩ | ⟨⟨_, he⟩, -⟩)
      · rw [hwait] at he
        cases he
      · rw [hwait] at he
        cases he
  | unknown hwait hstate _ hattempt =>
      exact iff_of_true ⟨hattempt, by simp [hstate]⟩ (Or.inl ⟨_, hwait⟩)

/-- A poll that keeps the child failing leaves what the next one looks at. -/
theorem CheckedAs.keeps {poll : Poll} {r : Checked} (h : CheckedAs poll c r)
    (hkeeps : KeepsFailing c poll) : r.child.SameAs c := by
  have hfinal := h.final_iff.mpr hkeeps
  cases h with
  | restarted _ _ _ _ _ hattempt => simp [hattempt] at hfinal
  | spawnFailed _ _ _ _ _ hattempt => simp [hattempt] at hfinal
  | exhausted _ hused _ hprocess hcount hlast _ =>
      refine ⟨hprocess, hcount.trans ?_, hlast⟩
      obtain ⟨-, hrecent⟩ := maxRetries_le_resetCount.mp hused
      rw [resetCount, if_neg (Nat.not_le_of_lt hrecent)]
  | running _ hstate _ _ => exact absurd hstate hfinal.2
  | unknown _ _ hchild _ => rw [hchild]; exact ⟨rfl, rfl, rfl⟩

/-! ### The polls after a failure -/

variable {reports : List (ℕ × List Checked)}

theorem staysFailed_cons {i : ℕ} {now : ℕ} {rs : List Checked} :
    StaysFailed i ((now, rs) :: reports) ↔
      (∀ r, rs[i]? = some r → r.attempted = false ∧ r.health.state ≠ .running) ∧
        StaysFailed i reports :=
  List.forall_mem_cons

/-- No later poll attempts a restart or reports the child as running exactly when each keeps it
failing. The induction is on the operations; up to the first poll that does not, what the
polls look at stays the same. -/
theorem staysFailed_iff {ops : List Op} {cs cs' : List ManagedChild}
    (hrun : run P ops cs = .ok (cs', reports)) {i : ℕ} (hc : cs[i]? = some c) :
    StaysFailed i reports ↔ ∀ poll ∈ polls ops, KeepsFailing c poll := by
  induction ops generalizing cs c reports with
  | nil =>
      obtain ⟨-, rfl⟩ := Prod.mk.inj (Except.ok.inj hrun)
      exact iff_of_true nofun nofun
  | cons op ops ih =>
      obtain ⟨⟨cs₁, rs⟩, happly, hrest⟩ := bind_eq_ok hrun
      obtain ⟨⟨cs₂, reports'⟩, hrun', heq⟩ := bind_eq_ok hrest
      obtain ⟨rfl, rfl⟩ := Prod.mk.inj (Except.ok.inj heq)
      rw [staysFailed_cons]
      cases op with
      | spawn name program args now result =>
          have hspawned : cs₁[i]? = some c ∧ rs = [] := by
            cases result with
            | error e =>
                obtain ⟨rfl, rfl⟩ := Prod.mk.inj (Except.ok.inj happly)
                exact ⟨hc, rfl⟩
            | ok process =>
                obtain ⟨rfl, rfl⟩ := Prod.mk.inj (Except.ok.inj happly)
                have hlt := (List.getElem?_eq_some_iff.mp hc).1
                exact ⟨(List.getElem?_append_left hlt).trans hc, rfl⟩
          obtain ⟨hc₁, rfl⟩ := hspawned
          exact (and_iff_right nofun).trans (ih hrun' hc₁)
      | healthCheck poll =>
          obtain ⟨rs', hrs', hall⟩ := healthCheck_spec P poll 0 cs
          rw [applyOp, hrs', ok_bind] at happly
          obtain ⟨rfl, rfl⟩ := Prod.mk.inj (Except.ok.inj happly)
          obtain ⟨r, hr, hcheck⟩ := forall₂_getElem? hall hc
          have hc₁ : (rs'.map Checked.child)[i]? = some r.child := by
            rw [List.getElem?_map, hr]
            rfl
          have hhead : (∀ r, rs'[i]? = some r → r.attempted = false ∧ r.health.state ≠ .running) ↔
              KeepsFailing c poll := by
            rw [← hcheck.final_iff, hr]
            simp
          have hpolls : polls (.healthCheck poll :: ops) = poll :: polls ops := rfl
          rw [hhead, ih hrun' hc₁, hpolls, List.forall_mem_cons]
          refine and_congr_right fun hkeeps => ?_
          exact forall₂_congr fun q _ => (hcheck.keeps hkeeps).congr q

/-- A run goes on after its first operations from the children that they leave. -/
theorem run_append {before after : List Op} {cs cs' : List ManagedChild}
    {reports' : List (ℕ × List Checked)} (hlength : reports.length = before.length)
    (hrun : run P (before ++ after) cs = .ok (cs', reports ++ reports')) :
    ∃ cs₁, run P before cs = .ok (cs₁, reports) ∧ run P after cs₁ = .ok (cs', reports') := by
  induction before generalizing cs reports with
  | nil =>
      obtain rfl := List.eq_nil_of_length_eq_zero hlength
      exact ⟨cs, rfl, hrun⟩
  | cons op before ih =>
      obtain ⟨⟨cs₁, rs⟩, happly, hrest⟩ := bind_eq_ok hrun
      obtain ⟨⟨cs₂, reports₂⟩, hrun', heq⟩ := bind_eq_ok hrest
      obtain ⟨report, reports, rfl⟩ := List.exists_cons_of_length_eq_add_one hlength
      obtain ⟨rfl, hreports⟩ := Prod.mk.inj (Except.ok.inj heq)
      obtain ⟨rfl, rfl⟩ := List.cons.inj hreports
      obtain ⟨cs', hbefore, hafter⟩ := ih (Nat.succ.inj hlength) hrun'
      refine ⟨cs', ?_, hafter⟩
      rw [run, happly, ok_bind]
      simp only [hbefore, ok_bind]
      rfl

/-- A failure is permanent exactly when every later poll cannot ask for the exit of the child,
or finds it exited with its restarts used up and its last start within the window. In a run of
the manager, `rs` are the reports of a poll, one of which is the failure. -/
theorem failed_permanent_iff {before after : List Op} {poll : Poll} {cs : List ManagedChild}
    {rs : List Checked} {reports reports' : List (ℕ × List Checked)}
    (hrun : run P (before ++ .healthCheck poll :: after) [] =
      .ok (cs, reports ++ (poll.now, rs) :: reports'))
    (hlength : reports.length = before.length)
    {i : ℕ} {r : Checked} (hr : rs[i]? = some r) {exitCode : Option Int32} {reason : String}
    (_hfailed : r.health.state = .failed exitCode reason) :
    StaysFailed i reports' ↔ ∀ q ∈ polls after, KeepsFailing r.child q := by
  obtain ⟨cs₀, -, hpoll⟩ := run_append hlength hrun
  obtain ⟨⟨cs₁, rs'⟩, happly, hrest⟩ := bind_eq_ok hpoll
  obtain ⟨⟨cs₂, reports₂⟩, hafter, heq⟩ := bind_eq_ok hrest
  obtain ⟨rfl, hreports⟩ := Prod.mk.inj (Except.ok.inj heq)
  obtain ⟨hreport, rfl⟩ := List.cons.inj hreports
  obtain ⟨-, rfl⟩ := Prod.mk.inj hreport
  obtain ⟨checked, -, hchecked⟩ := bind_eq_ok happly
  obtain ⟨rfl, rfl⟩ := Prod.mk.inj (Except.ok.inj hchecked)
  refine staysFailed_iff hafter ?_
  rw [List.getElem?_map, hr]
  rfl

/-- A child that has been started at time 0 and exits at once, whenever it is started again. -/
def exitedAt (seconds : ℕ) (spawned : Except String ℕ) : Op :=
  .healthCheck ⟨fromMillis (1000 * seconds), fun _ => .ok (some (some 1)), fun _ _ _ => spawned⟩

/-- Its restarts are used up within three seconds. -/
def usedUp : List Op :=
  .spawn "child" "program" [] 0 (.ok 0) :: (List.range 3).map fun k => exitedAt (k + 1) (.ok 1)

/-- The child as it is once its restarts are used up. -/
def exhaustedChild : ManagedChild :=
  ⟨"child", 1, 3, fromMillis 3000, some 1, "program", []⟩

/-- The report that its restarts are used up. -/
def exhaustedReport : Checked :=
  ⟨exhaustedChild,
    ⟨"child", .failed (some 1) "Exceeded max retries (3)", some 1, 3⟩, false⟩

/-- Polled again within the window, the child stays failed. -/
theorem failed_permanent_soon : StaysFailed 0 [(fromMillis 20000, [exhaustedReport])] := by
  obtain ⟨cs, reports, hrun, hlength⟩ :
      ∃ cs reports, run Platform.exact
          (usedUp ++ exitedAt 4 (.ok 1) :: [exitedAt 20 (.ok 1)]) [] =
            .ok (cs, reports ++ (fromMillis 4000, [exhaustedReport]) ::
              [(fromMillis 20000, [exhaustedReport])]) ∧
        reports.length = usedUp.length :=
    ⟨_, [_, _, _, _], rfl, rfl⟩
  refine (failed_permanent_iff hrun hlength rfl rfl).mpr fun q hq => Or.inr ?_
  obtain rfl := List.mem_singleton.mp hq
  exact ⟨⟨_, rfl⟩, by decide⟩

/-- Polled half a minute later, a child that has been reported as failed is started again. -/
theorem failed_restarted :
    ∃ cs reports r report, run Platform.exact
        (usedUp ++ exitedAt 4 (.ok 1) :: [exitedAt 40 (.ok 1)]) [] =
          .ok (cs, reports ++ (fromMillis 4000, [exhaustedReport]) :: [report]) ∧
      exhaustedReport.health.state = .failed (some 1) "Exceeded max retries (3)" ∧
      report.2[0]? = some r ∧ r.attempted = true ∧ ¬ StaysFailed 0 [report] := by
  refine ⟨_, [_, _, _, _], _, (fromMillis 40000, [_]), rfl, rfl, rfl, rfl, fun h => ?_⟩
  exact absurd (h _ List.mem_cons_self _ rfl).1 (by decide)

end Weftik.Lifecycle
