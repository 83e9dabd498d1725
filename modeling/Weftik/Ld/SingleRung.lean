import Weftik.Ld.Cycle
import Weftik.Ld.SpentEdges

/-!
# Two Evaluators of a Rung

A rung of contacts in series can be evaluated alone, with an edge detection that the caller
keeps, or as a ladder of one rung, whose scan begins with a fresh edge detection. The two
differ in what they report of a contact that detects falling edges, and in the power of a
chain whose edges are compared with the memory of the caller.

## Main definitions

* `evaluateRung`: the evaluation of a rung alone.
* `Agree`: the two evaluations have the same outcome.

## Main results

* `agree_iff`: when the two evaluations agree.
-/

namespace Weftik.Ld

/-! ### The evaluation of a rung alone -/

/-- What the report of a rung says of a contact that detects edges: the value of its
variable. -/
def edgeIs (var : String) (snapshot : InputSnapshot) (_es : EdgeState) : Bool :=
  snapshot.getBool var

/-- The report of a contact of a rung. -/
def Contact.rungState (snapshot : InputSnapshot) (es : EdgeState) (c : Contact) :
    ContactState :=
  match c with
  | .no v => ⟨v, .no, snapshot.getBool v⟩
  | .nc v => ⟨v, .nc, !snapshot.getBool v⟩
  | .posEdge v => ⟨v, .no, edgeIs v snapshot es⟩
  | .negEdge v => ⟨v, .nc, edgeIs v snapshot es⟩

/-- The report of a coil of a rung. -/
def Coil.rungState (power : Bool) (vars : VarStore) (coil : Coil) : CoilState :=
  match coil.kind with
  | .out => ⟨coil.var, .normal, power⟩
  | .negated => ⟨coil.var, .negated, !power⟩
  | .set => ⟨coil.var, .set, power || vars.getBool coil.var⟩
  | .reset => ⟨coil.var, .reset, !power && vars.getBool coil.var⟩

/-- `evaluate_rung`: the contacts are put in series, as `build_serial_network` does. -/
def evaluateRung (fuel : ℕ) (rungId : String) (contacts : List Contact) (coils : List Coil)
    (snapshot : InputSnapshot) (es : EdgeState) (vars : VarStore) :
    Option (Except Panic (RungState × EdgeState)) :=
  match buildSerialNetwork contacts with
  | .error e => some (.error e)
  | .ok net =>
      (evaluatePowerFlow fuel net snapshot es).map fun o => do
        let (power, _, es) ← o
        pure (⟨rungId, contacts.map fun c => c.rungState snapshot es,
          coils.map fun c => c.rungState power vars⟩, es)

/-- More fuel does not change what a rung returns. -/
theorem evaluateRung_mono {fuel fuel' : ℕ} (hle : fuel ≤ fuel') {id : String}
    {contacts : List Contact} {coils : List Coil} {snapshot : InputSnapshot} {es : EdgeState}
    {vars : VarStore} {o : Except Panic (RungState × EdgeState)}
    (h : evaluateRung fuel id contacts coils snapshot es vars = some o) :
    evaluateRung fuel' id contacts coils snapshot es vars = some o := by
  rw [evaluateRung] at h ⊢
  cases hbuild : buildSerialNetwork contacts with
  | error e => rwa [hbuild] at h
  | ok net =>
      rw [hbuild] at h
      obtain ⟨o', heval, ho'⟩ := Option.map_eq_some_iff.mp h
      simp only [evaluatePowerFlow_mono hle heval, Option.map_some]
      exact congrArg some ho'

/-- Write the coils of a report. -/
def VarStore.apply (vars : VarStore) (result : PowerFlowResult) : VarStore :=
  result.rungStates.foldl
    (fun vars rung =>
      rung.coilStates.foldl (fun vars cs => vars.setBool cs.coilId cs.energized) vars)
    vars

/-! ### Agreement -/

/-- The rung evaluated alone, and then written, and the ladder of this rung have the same
report and leave the same values. -/
def Agree (id : String) (contacts : List Contact) (coil : Coil) (vars : VarStore)
    (es : EdgeState) : Prop :=
  ∃ net fuel rung es' result rungs vars', buildSerialNetwork contacts = .ok net ∧
    evaluateRung fuel id contacts [coil] vars.snapshot es vars = some (.ok (rung, es')) ∧
    evaluateCycle fuel [⟨id, net, [coil]⟩] vars = some (.ok (result, rungs, vars')) ∧
    result.rungStates = [rung] ∧ vars' = vars.apply ⟨[rung], result.poweredCoils⟩

/-- The value of the coil does not depend on the power. -/
def Coil.Indifferent (vars : VarStore) (coil : Coil) : Prop :=
  (coil.kind = .set ∧ vars.getBool coil.var = true) ∨
    (coil.kind = .reset ∧ vars.getBool coil.var = false)

/-- The chain is closed, and no two of its contacts detect edges of the same variable. -/
def Closed (contacts : List Contact) (vars : VarStore) : Prop :=
  (∀ c ∈ contacts, c.isClosed vars.snapshot = true) ∧ (edgeVars contacts).Nodup

section Agree

variable {id : String} {contacts : List Contact} {coil : Coil} {vars : VarStore}
  {es : EdgeState}

/-- The reports of the contacts agree unless one detects falling edges. -/
theorem map_rungState_iff (es' : EdgeState) :
    (contacts.map fun c => c.state vars.snapshot) =
        contacts.map (fun c => c.rungState vars.snapshot es') ↔
      ∀ v, .negEdge v ∉ contacts := by
  rw [List.map_inj_left]
  constructor
  · intro h v hv
    have hstate := congrArg ContactState.isClosed (h _ hv)
    change (!vars.snapshot.getBool v) = vars.snapshot.getBool v at hstate
    cases hvalue : vars.snapshot.getBool v with
    | true => rw [hvalue] at hstate; cases hstate
    | false => rw [hvalue] at hstate; cases hstate
  · intro h c hc
    cases c with
    | no v => rfl
    | nc v => rfl
    | posEdge v => rfl
    | negEdge v => exact absurd hc (h v)

/-- The reports of a coil agree when the powers do, or when the coil does not depend on
them. -/
theorem rungState_iff (power power' : Bool) :
    coil.state power vars = coil.rungState power' vars ↔
      power = power' ∨ coil.Indifferent vars := by
  obtain ⟨var, kind⟩ := coil
  cases kind <;> cases power <;> cases power' <;> cases hvalue : vars.getBool var <;>
    simp [Coil.state, Coil.rungState, Coil.energized, Coil.Indifferent, hvalue]

/-- The two evaluations agree exactly when their reports of the contacts and of the coil
do. -/
theorem agree_iff_reports :
    Agree id contacts coil vars es ↔
      (contacts.map fun c => c.state vars.snapshot) =
          contacts.map (fun c => c.rungState vars.snapshot es) ∧
        coil.state (chainPower vars.snapshot .new contacts).1 vars =
          coil.rungState (chainPower vars.snapshot es contacts).1 vars := by
  obtain ⟨net, hbuild, fuel₁, net₁, heval₁, -⟩ := evaluate_serial contacts vars.snapshot es
  obtain ⟨net₀, hbuild₀, fuel₂, net₂, heval₂, hedges⟩ :=
    evaluate_serial contacts vars.snapshot .new
  obtain rfl := Except.ok.inj (hbuild₀.symm.trans hbuild)
  have hrung : ∀ fuel, fuel₁ ≤ fuel →
      evaluateRung fuel id contacts [coil] vars.snapshot es vars = some (.ok
        (⟨id, contacts.map fun c => c.rungState vars.snapshot
          (chainPower vars.snapshot es contacts).2,
          [coil.rungState (chainPower vars.snapshot es contacts).1 vars]⟩,
          (chainPower vars.snapshot es contacts).2)) := by
    intro fuel hle
    simp only [evaluateRung, hbuild, evaluatePowerFlow_mono hle heval₁]
    rfl
  have hcycle : ∀ fuel, fuel₂ ≤ fuel → ∃ out,
      evaluateCycle fuel [⟨id, net₀, [coil]⟩] vars = some (.ok out) ∧
        out.1.rungStates = [⟨id, contacts.map fun c => c.state vars.snapshot,
          [coil.state (chainPower vars.snapshot .new contacts).1 vars]⟩] ∧
        out.2.2 = vars.setBool coil.var
          (coil.energized (chainPower vars.snapshot .new contacts).1 vars) := by
    intro fuel hle
    have hmap : (net₂.edges.map fun e => e.contact.state vars.snapshot) =
        contacts.map fun c => c.state vars.snapshot := by
      rw [← hedges, List.map_map]
      rfl
    rw [← hmap]
    exact ⟨_, by
      simp only [evaluateCycle, cycleRungs, cycleRung, evaluatePowerFlow_mono hle heval₂]
      rfl, rfl, rfl⟩
  constructor
  · rintro ⟨net, fuel, rung, es', result, rungs, vars', hbuild', heval, hscan, hstates, -⟩
    obtain rfl := Except.ok.inj (hbuild.symm.trans hbuild')
    have hrungEq := (hrung _ (le_max_left fuel₁ fuel)).symm.trans
      (evaluateRung_mono (le_max_right fuel₁ fuel) heval)
    obtain ⟨out, hout, hreport, -⟩ := hcycle fuel₂ le_rfl
    obtain rfl := Except.ok.inj (evaluateCycle_unique hout hscan)
    obtain ⟨rfl, -⟩ := Prod.mk.inj (Except.ok.inj (Option.some.inj hrungEq))
    obtain ⟨-, hcontacts, hcoil⟩ := RungState.mk.inj
      (List.cons.inj (hreport.symm.trans hstates)).1
    exact ⟨(map_rungState_iff es).mpr ((map_rungState_iff _).mp hcontacts),
      (List.cons.inj hcoil).1⟩
  · rintro ⟨hcontacts, hcoil⟩
    obtain ⟨⟨result, rungs, vars'⟩, hout, hreport, hvars⟩ := hcycle _ (le_max_right fuel₁ fuel₂)
    have hcontacts' : (contacts.map fun c => c.state vars.snapshot) = contacts.map fun c =>
        c.rungState vars.snapshot (chainPower vars.snapshot es contacts).2 :=
      (map_rungState_iff _).mpr ((map_rungState_iff es).mp hcontacts)
    refine ⟨net₀, _, _, _, result, rungs, vars', hbuild, hrung _ (le_max_left fuel₁ fuel₂),
      hout, ?_, ?_⟩
    · rw [hreport, hcontacts', hcoil]
    · refine hvars.trans ?_
      rw [← hcoil]
      rfl

/-- A chain that conducts with a fresh memory is closed. -/
theorem conducts_new_iff (hfalling : ∀ v, .negEdge v ∉ contacts) :
    Conducts vars.snapshot .new contacts ↔
      ∀ c ∈ contacts, c.isClosed vars.snapshot = true := by
  refine forall₂_congr fun c hc => ?_
  cases c with
  | no v => rfl
  | nc v => rfl
  | posEdge v => simp [Contact.passes, Contact.power, EdgeState.isRising, EdgeState.new,
      Contact.isClosed]
  | negEdge v => exact absurd hc (hfalling v)

/-- A chain that conducts is closed. -/
theorem closed_of_conducts (hfalling : ∀ v, .negEdge v ∉ contacts)
    (h : Conducts vars.snapshot es contacts) :
    ∀ c ∈ contacts, c.isClosed vars.snapshot = true := by
  intro c hc
  have hpass := h c hc
  cases c with
  | no v => exact hpass
  | nc v => exact hpass
  | posEdge v => exact (Bool.and_eq_true_iff.mp hpass).2
  | negEdge v => exact absurd hc (hfalling v)

/-- A closed chain conducts when no variable whose rise it detects was `TRUE`. -/
theorem conducts_iff_of_closed (hfalling : ∀ v, .negEdge v ∉ contacts)
    (hclosed : ∀ c ∈ contacts, c.isClosed vars.snapshot = true) :
    Conducts vars.snapshot es contacts ↔
      ∀ v, .posEdge v ∈ contacts → es.prev v ≠ some true := by
  constructor
  · intro h v hv hprev
    have hpass := h _ hv
    simp [Contact.passes, Contact.power, EdgeState.isRising, hprev] at hpass
  · intro h c hc
    have hc' := hclosed c hc
    cases c with
    | no v => exact hc'
    | nc v => exact hc'
    | posEdge v =>
        have hprev : (es.prev v).getD false = false := by
          cases hvalue : es.prev v with
          | none => rfl
          | some b =>
              cases b with
              | false => rfl
              | true => exact absurd hvalue (h v hc)
        change vars.snapshot.getBool v = true at hc'
        simp [Contact.passes, Contact.power, EdgeState.isRising, hprev, hc']
    | negEdge v => exact absurd hc (hfalling v)

end Agree

/-- The two evaluations agree exactly when no contact detects falling edges and, if the chain
is closed, no variable whose rise it detects was `TRUE`, or the coil does not depend on the
power. -/
theorem agree_iff (id : String) (contacts : List Contact) (coil : Coil) (vars : VarStore)
    (es : EdgeState) :
    Agree id contacts coil vars es ↔
      (∀ v, .negEdge v ∉ contacts) ∧
        (Closed contacts vars → (∀ v, .posEdge v ∈ contacts → es.prev v ≠ some true) ∨
          coil.Indifferent vars) := by
  rw [agree_iff_reports, map_rungState_iff]
  refine and_congr_right fun hfalling => ?_
  rw [rungState_iff, Bool.eq_iff_iff]
  have hpower := (chainPower_recorded vars.snapshot es [] contacts).1
  have hpowerNew := (chainPower_recorded vars.snapshot .new [] contacts).1
  rw [recorded_nil] at hpower hpowerNew
  simp only [List.not_mem_nil, not_false_eq_true, implies_true, and_true] at hpower hpowerNew
  rw [hpower, hpowerNew, conducts_new_iff hfalling]
  by_cases hclosed : Closed contacts vars
  · have hall := hclosed.1
    have hnodup := hclosed.2
    rw [conducts_iff_of_closed hfalling hall]
    exact ⟨fun h _ => h.imp_left fun hiff => (hiff.mp ⟨hall, hnodup⟩).1,
      fun h => (h hclosed).imp_left fun hprev => iff_of_true ⟨hall, hnodup⟩ ⟨hprev, hnodup⟩⟩
  · refine iff_of_true (Or.inl (iff_of_false hclosed fun h => hclosed ?_))
      fun h => absurd h hclosed
    exact ⟨closed_of_conducts hfalling h.1, h.2⟩

/-- A contact that detects the fall of `X`, while `X` is `TRUE`, is reported as closed by the
one evaluation and as open by the other. -/
theorem not_agree_of_fall :
    ¬Agree "r" [.negEdge "X"] ⟨"Y", .out⟩ ⟨fun v => if v = "X" then some true else none⟩
      .new := by
  rw [agree_iff_reports]
  rintro ⟨hcontacts, -⟩
  exact (map_rungState_iff .new).mp hcontacts "X" List.mem_cons_self

end Weftik.Ld
