import Weftik.Ld.ParallelPower

/-!
# Edges That Are Asked Once

An edge contact records the value of its variable when it is asked. A second edge contact of
the same variable in the network then compares the value with itself, and does not pass
power. So the networks of the builders mean what they say as long as the contacts that
matter are the first ones to ask about their variables.

## Main definitions

* `Conducts`: all contacts of a list pass power, as the state before the evaluation says.
* `SerialMeans`, `ParallelMeans`: the networks of the builders mean what they say.
* `Served`: some conducting branch is the first to ask about its variables.

## Main results

* `builders_iff`: when the networks of the builders mean what they say.
-/

namespace Weftik.Ld

/-! ### What the networks are to mean -/

/-- Does the contact pass power, compared with the state before the evaluation? -/
def Contact.passes (snapshot : InputSnapshot) (es : EdgeState) (c : Contact) : Bool :=
  (c.power snapshot es).1

/-- All contacts pass power, compared with the state before the evaluation. -/
def Conducts (snapshot : InputSnapshot) (es : EdgeState) (contacts : List Contact) : Prop :=
  ∀ c ∈ contacts, c.passes snapshot es = true

/-- The network of contacts in series is powered exactly when all contacts pass power. -/
def SerialMeans (snapshot : InputSnapshot) (es : EdgeState) (contacts : List Contact) : Prop :=
  ∃ net fuel power net' es', buildSerialNetwork contacts = .ok net ∧
    evaluatePowerFlow fuel net snapshot es = some (.ok (power, net', es')) ∧
    (power = true ↔ Conducts snapshot es contacts)

/-- The network of parallel branches is powered exactly when all contacts of some branch pass
power. -/
def ParallelMeans (snapshot : InputSnapshot) (es : EdgeState)
    (branches : List (List Contact)) : Prop :=
  ∃ net fuel power net' es', buildParallelNetwork branches = .ok net ∧
    evaluatePowerFlow fuel net snapshot es = some (.ok (power, net', es')) ∧
    (power = true ↔ ∃ b ∈ branches, Conducts snapshot es b)

/-! ### The variables that are asked about -/

/-- The variables whose edges the contact detects. -/
def Contact.edgeVars : Contact → List String
  | .posEdge v | .negEdge v => [v]
  | _ => []

/-- The variables whose edges some contacts detect. -/
abbrev edgeVars (contacts : List Contact) : List String := contacts.flatMap Contact.edgeVars

/-- The variables about which a chain asks when the given ones have been asked about: those of
its edge contacts up to the first contact that does not pass. -/
def askedVars (snapshot : InputSnapshot) (es : EdgeState) :
    List String → List Contact → List String
  | _, [] => []
  | vars, c :: cs =>
      c.edgeVars ++
        if c.passes snapshot es = true ∧ ∀ v ∈ c.edgeVars, v ∉ vars then
          askedVars snapshot es (vars ++ c.edgeVars) cs
        else []

/-- The variables about which the first contacts of some branches ask. -/
def firstVars (branches : List (List Contact)) : List String :=
  branches.flatMap fun b => edgeVars (b.take 1)

/-- The variables about which the other contacts of some branches ask, the last branch
first. The first contacts of all branches have asked about `vars`, and those of the branches
before these about `early`. -/
def restVars (snapshot : InputSnapshot) (es : EdgeState) (vars : List String) :
    List String → List (List Contact) → List String
  | _, [] => []
  | early, [] :: bs => restVars snapshot es vars early bs
  | early, (c :: cs) :: bs =>
      let later := restVars snapshot es vars (early ++ c.edgeVars) bs
      later ++
        if c.passes snapshot es = true ∧ ∀ v ∈ c.edgeVars, v ∉ early then
          askedVars snapshot es (vars ++ later) cs
        else []

/-- Some branch conducts, and its edge contacts are the first ones to ask about their
variables. The first contacts of all branches ask about `vars`, and those of the branches
before these about `early`. -/
def ServedAfter (snapshot : InputSnapshot) (es : EdgeState) (vars early : List String)
    (branches : List (List Contact)) : Prop :=
  ∃ before c cs after, branches = before ++ (c :: cs) :: after ∧
    Conducts snapshot es (c :: cs) ∧
    (∀ v ∈ c.edgeVars, v ∉ early ++ firstVars before) ∧ (edgeVars cs).Nodup ∧
    ∀ v ∈ edgeVars cs, v ∉ vars ++
      restVars snapshot es vars (early ++ firstVars before ++ c.edgeVars) after

/-- Some branch conducts, and its edge contacts are the first ones to ask about their
variables. -/
def Served (snapshot : InputSnapshot) (es : EdgeState) (branches : List (List Contact)) : Prop :=
  ServedAfter snapshot es (firstVars branches) [] branches

/-! ### The edge detection after some variables have been asked about -/

/-- The edge detection after some variables have been asked about. -/
def recorded (snapshot : InputSnapshot) (es : EdgeState) (vars : List String) : EdgeState :=
  ⟨fun v => if v ∈ vars then some (snapshot.getBool v) else es.prev v⟩

section Recorded

variable {snapshot : InputSnapshot} {es : EdgeState}

theorem recorded_nil : recorded snapshot es [] = es := by
  simp [recorded]

theorem record_recorded (vars : List String) (v : String) :
    (recorded snapshot es vars).record v (snapshot.getBool v) =
      recorded snapshot es (vars ++ [v]) := by
  rw [EdgeState.record, recorded, recorded]
  congr 1
  funext w
  by_cases hw : w = v
  · subst hw
    simp
  · simp [hw]

/-- An edge contact that is asked about a variable again does not pass power. -/
theorem power_recorded (vars : List String) (c : Contact) :
    c.power snapshot (recorded snapshot es vars) =
      (decide (c.passes snapshot es = true ∧ ∀ v ∈ c.edgeVars, v ∉ vars),
        recorded snapshot es (vars ++ c.edgeVars)) := by
  cases c with
  | no v => simp [Contact.power, Contact.passes, Contact.edgeVars]
  | nc v => simp [Contact.power, Contact.passes, Contact.edgeVars]
  | posEdge v =>
      rw [Contact.power, EdgeState.isRising, record_recorded]
      by_cases hv : v ∈ vars
      · simp [Contact.edgeVars, hv, recorded]
      · simp [Contact.edgeVars, hv, recorded, Contact.passes, Contact.power, EdgeState.isRising]
  | negEdge v =>
      rw [Contact.power, EdgeState.isFalling, record_recorded]
      by_cases hv : v ∈ vars
      · simp [Contact.edgeVars, hv, recorded]
      · simp [Contact.edgeVars, hv, recorded, Contact.passes, Contact.power, EdgeState.isFalling]

/-- A chain passes power when it conducts and is the first to ask about its variables. -/
theorem chainPower_recorded (snapshot : InputSnapshot) (es : EdgeState) (vars : List String)
    (cs : List Contact) :
    ((chainPower snapshot (recorded snapshot es vars) cs).1 = true ↔
        Conducts snapshot es cs ∧ (edgeVars cs).Nodup ∧ ∀ v ∈ edgeVars cs, v ∉ vars) ∧
      (chainPower snapshot (recorded snapshot es vars) cs).2 =
        recorded snapshot es (vars ++ askedVars snapshot es vars cs) := by
  induction cs generalizing vars with
  | nil => simp [chainPower, Conducts, edgeVars, askedVars]
  | cons c cs ih =>
      obtain ⟨hpower, hes⟩ := ih (vars ++ c.edgeVars)
      have hnodup : c.edgeVars.Nodup := by
        cases c with
        | no v | nc v => exact List.nodup_nil
        | posEdge v | negEdge v => exact List.nodup_singleton v
      rw [chainPower_cons, power_recorded, askedVars]
      by_cases hc : c.passes snapshot es = true ∧ ∀ v ∈ c.edgeVars, v ∉ vars
      · rw [if_pos (decide_eq_true hc), if_pos hc, hpower, hes, List.append_assoc]
        refine ⟨?_, rfl⟩
        obtain ⟨hpass, hfresh⟩ := hc
        simp only [Conducts, List.forall_mem_cons, edgeVars, List.flatMap_cons,
          List.nodup_append, List.mem_append, or_imp, forall_and, not_or]
        constructor
        · rintro ⟨hcs, hnodupCs, hfreshCs, hnot⟩
          exact ⟨⟨hpass, hcs⟩, ⟨hnodup, hnodupCs, fun v hv w hw hvw =>
            hnot w hw (hvw ▸ hv)⟩, hfresh, hfreshCs⟩
        · rintro ⟨⟨-, hcs⟩, ⟨-, hnodupCs, hdisjoint⟩, -, hfreshCs⟩
          exact ⟨hcs, hnodupCs, hfreshCs, fun v hv hvc => hdisjoint v hvc v hv rfl⟩
      · rw [if_neg (by simpa using hc), if_neg hc, List.append_nil]
        refine ⟨iff_of_false (by simpa using hc) ?_, rfl⟩
        rintro ⟨hcond, -, hfresh⟩
        refine hc ⟨hcond c List.mem_cons_self, fun v hv => hfresh v ?_⟩
        exact List.mem_flatMap.mpr ⟨c, List.mem_cons_self, hv⟩

/-- The first contacts of some branches, in the order of the branches. -/
theorem askFirsts_recorded (snapshot : InputSnapshot) (es : EdgeState) (early : List String)
    (branches : List (List Contact)) :
    (askFirsts snapshot (recorded snapshot es early) branches).2 =
      recorded snapshot es (early ++ firstVars branches) := by
  induction branches generalizing early with
  | nil => simp [askFirsts, firstVars]
  | cons b branches ih =>
      cases b with
      | nil => exact ih early
      | cons c cs =>
          rw [askFirsts, power_recorded]
          refine (ih (early ++ c.edgeVars)).trans ?_
          simp [firstVars, edgeVars]

/-- The first branch is served, or one of the others. -/
theorem servedAfter_cons (vars early : List String) (c : Contact) (cs : List Contact)
    (branches : List (List Contact)) :
    ServedAfter snapshot es vars early ((c :: cs) :: branches) ↔
      ServedAfter snapshot es vars (early ++ c.edgeVars) branches ∨
        Conducts snapshot es (c :: cs) ∧ (∀ v ∈ c.edgeVars, v ∉ early) ∧ (edgeVars cs).Nodup ∧
          ∀ v ∈ edgeVars cs, v ∉ vars ++
            restVars snapshot es vars (early ++ c.edgeVars) branches := by
  have hfirst : ∀ before : List (List Contact), early ++ firstVars ((c :: cs) :: before) =
      early ++ c.edgeVars ++ firstVars before := by
    intro before
    simp [firstVars, edgeVars]
  constructor
  · rintro ⟨before, c', cs', after, heq, hcond, hfresh, hnodup, hrest⟩
    cases before with
    | nil =>
        obtain ⟨hb, rfl⟩ := List.cons.inj heq
        obtain ⟨rfl, rfl⟩ := List.cons.inj hb
        have hnil : firstVars [] = [] := rfl
        rw [hnil, List.append_nil] at hfresh hrest
        exact Or.inr ⟨hcond, hfresh, hnodup, hrest⟩
    | cons b before =>
        obtain ⟨rfl, rfl⟩ := List.cons.inj heq
        rw [hfirst] at hfresh hrest
        exact Or.inl ⟨before, c', cs', after, rfl, hcond, hfresh, hnodup, hrest⟩
  · rintro (⟨before, c', cs', after, rfl, hcond, hfresh, hnodup, hrest⟩ | hserved)
    · rw [← hfirst] at hfresh hrest
      exact ⟨(c :: cs) :: before, c', cs', after, rfl, hcond, hfresh, hnodup, hrest⟩
    · refine ⟨[], c, cs, branches, rfl, ?_⟩
      have hnil : firstVars [] = [] := rfl
      rw [hnil, List.append_nil]
      exact hserved

/-- A branch passes power when it conducts and is the first to ask about its variables. -/
theorem askRests_recorded (snapshot : InputSnapshot) (es : EdgeState)
    (vars early : List String) {branches : List (List Contact)} (hne : ∀ b ∈ branches, b ≠ []) :
    ((askRests snapshot (askFirsts snapshot (recorded snapshot es early) branches).1
        (recorded snapshot es vars)).1 = true ↔ ServedAfter snapshot es vars early branches) ∧
      (askRests snapshot (askFirsts snapshot (recorded snapshot es early) branches).1
        (recorded snapshot es vars)).2 =
          recorded snapshot es (vars ++ restVars snapshot es vars early branches) := by
  induction branches generalizing early with
  | nil => simp [askFirsts, askRests, restVars, ServedAfter]
  | cons b branches ih =>
      obtain ⟨hb, hbs⟩ := List.forall_mem_cons.mp hne
      cases b with
      | nil => exact absurd rfl hb
      | cons c cs =>
          obtain ⟨hpower, hes⟩ := ih (early ++ c.edgeVars) hbs
          obtain ⟨hchain, hchainEs⟩ := chainPower_recorded snapshot es
            (vars ++ restVars snapshot es vars (early ++ c.edgeVars) branches) cs
          rw [← hes] at hchain hchainEs
          rw [askFirsts, power_recorded, servedAfter_cons, ← hpower, restVars]
          by_cases hc : c.passes snapshot es = true ∧ ∀ v ∈ c.edgeVars, v ∉ early
          · rw [askRests_cons, if_pos (decide_eq_true hc), if_pos hc, ← List.append_assoc]
            refine ⟨?_, hchainEs⟩
            rw [Bool.or_eq_true, hchain]
            refine or_congr_right ?_
            rw [Conducts, Conducts, List.forall_mem_cons, and_iff_right hc.1,
              and_iff_right hc.2]
          · rw [askRests_cons, if_neg (by simpa using hc), if_neg hc, List.append_nil]
            refine ⟨(or_iff_left ?_).symm, hes⟩
            rintro ⟨hcond, hfresh, -⟩
            exact hc ⟨hcond c List.mem_cons_self, hfresh⟩

end Recorded

/-! ### When the networks mean what they say -/

/-- What an evaluation returns does not depend on the fuel. -/
theorem evaluatePowerFlow_unique {fuel fuel' : ℕ} {net : ContactNetwork}
    {snapshot : InputSnapshot} {es : EdgeState}
    {o o' : Except Panic (Bool × ContactNetwork × EdgeState)}
    (h : evaluatePowerFlow fuel net snapshot es = some o)
    (h' : evaluatePowerFlow fuel' net snapshot es = some o') : o = o' := by
  have hmax := evaluatePowerFlow_mono (le_max_left fuel fuel') h
  have hmax' := evaluatePowerFlow_mono (le_max_right fuel fuel') h'
  exact Option.some.inj (hmax.symm.trans hmax')

/-- What a network is to mean, for a network whose evaluation is known. -/
theorem means_iff {build : Except Panic ContactNetwork} {snapshot : InputSnapshot}
    {es : EdgeState} {power : Bool} {es' : EdgeState} {Meaning : Prop}
    (h : ∃ net, build = .ok net ∧ ∃ fuel net',
      evaluatePowerFlow fuel net snapshot es = some (.ok (power, net', es'))) :
    (∃ net fuel power net' es', build = .ok net ∧
        evaluatePowerFlow fuel net snapshot es = some (.ok (power, net', es')) ∧
        (power = true ↔ Meaning)) ↔ (power = true ↔ Meaning) := by
  obtain ⟨net, hbuild, fuel, net', heval⟩ := h
  constructor
  · rintro ⟨net₁, fuel₁, power₁, net₁', es₁', hbuild₁, heval₁, hiff⟩
    obtain rfl := Except.ok.inj (hbuild.symm.trans hbuild₁)
    have h := Except.ok.inj (evaluatePowerFlow_unique heval heval₁)
    rw [(Prod.mk.inj h).1]
    exact hiff
  · exact fun hiff => ⟨net, fuel, power, net', es', hbuild, heval, hiff⟩

theorem serialMeans_iff (snapshot : InputSnapshot) (es : EdgeState)
    (contacts : List Contact) :
    SerialMeans snapshot es contacts ↔
      (Conducts snapshot es contacts → (edgeVars contacts).Nodup) := by
  obtain ⟨net, hbuild, fuel, net', heval, -⟩ := evaluate_serial contacts snapshot es
  obtain ⟨hpower, -⟩ := chainPower_recorded snapshot es [] contacts
  rw [recorded_nil] at hpower
  rw [SerialMeans, means_iff ⟨net, hbuild, fuel, net', heval⟩, hpower]
  constructor
  · exact fun h hcond => (h.mpr hcond).2.1
  · exact fun h => ⟨And.left, fun hcond => ⟨hcond, h hcond, fun v _ => List.not_mem_nil⟩⟩

theorem served_conducts {snapshot : InputSnapshot} {es : EdgeState}
    {branches : List (List Contact)} (h : Served snapshot es branches) :
    ∃ b ∈ branches, Conducts snapshot es b := by
  obtain ⟨before, c, cs, after, rfl, hcond, -⟩ := h
  exact ⟨c :: cs, List.mem_append_right _ List.mem_cons_self, hcond⟩

theorem parallelMeans_iff (snapshot : InputSnapshot) (es : EdgeState)
    {branches : List (List Contact)} (hbranches : branches ≠ []) (hne : ∀ b ∈ branches, b ≠ []) :
    ParallelMeans snapshot es branches ↔
      ((∃ b ∈ branches, Conducts snapshot es b) → Served snapshot es branches) := by
  have hpower : (branchesPower snapshot es branches).1 = true ↔ Served snapshot es branches := by
    have hfirsts := askFirsts_recorded snapshot es [] branches
    obtain ⟨hrests, -⟩ := askRests_recorded snapshot es (firstVars branches) [] hne
    rw [List.nil_append] at hfirsts
    rw [← hfirsts] at hrests
    rw [recorded_nil] at hrests
    exact hrests
  rw [ParallelMeans, means_iff (evaluate_parallel hbranches hne snapshot es), hpower]
  exact ⟨Iff.mpr, fun h => ⟨served_conducts, h⟩⟩

/-- The networks of the builders mean what they say exactly when, of contacts in series that
conduct, no two detect edges of the same variable, and one of the branches that conduct is
served. -/
theorem builders_iff (snapshot : InputSnapshot) (es : EdgeState) :
    (∀ contacts : List Contact, SerialMeans snapshot es contacts ↔
      (Conducts snapshot es contacts → (edgeVars contacts).Nodup)) ∧
    (∀ branches : List (List Contact), branches ≠ [] → (∀ b ∈ branches, b ≠ []) →
      (ParallelMeans snapshot es branches ↔
        ((∃ b ∈ branches, Conducts snapshot es b) → Served snapshot es branches))) :=
  ⟨serialMeans_iff snapshot es, fun _ => parallelMeans_iff snapshot es⟩

/-- Two branches, of which the first conducts when `X` rises. -/
theorem builders_iff_of_rise :
    ParallelMeans snapshotX .new [[.no "X", .posEdge "X"], [.nc "X"]] ↔
      ((∃ b ∈ [[Contact.no "X", .posEdge "X"], [.nc "X"]], Conducts snapshotX .new b) →
        Served snapshotX .new [[.no "X", .posEdge "X"], [.nc "X"]]) :=
  (builders_iff snapshotX .new).2 _ (by decide) (by decide)

/-- Two contacts in series that detect the rise of `X` do not pass power when `X` rises. -/
theorem not_serialMeans_twice :
    ¬SerialMeans snapshotX .new [.posEdge "X", .posEdge "X"] := by
  rw [serialMeans_iff]
  intro h
  have hcond : Conducts snapshotX .new [.posEdge "X", .posEdge "X"] := by
    intro c hc
    rw [List.mem_pair, or_self] at hc
    rw [hc]
    rfl
  exact absurd (h hcond) (by decide)

end Weftik.Ld
