import Weftik.Ld.Cycle
import Weftik.Lib.Transition

/-!
# Edge Contacts over Runs of Scans

A contact that detects edges compares the value of its variable with the one that the edge
detection remembers. The detection starts afresh with every scan and remembers what the last
such contact of the same variable saw, so it compares with an evaluation of the same scan,
or with `FALSE`, and never with the previous scan.

The traces below mirror the evaluation clause for clause and record every contact that is
evaluated.

## Main definitions

* `Visit`, `RungTrace`: an evaluation of a contact, and those of a rung.
* `scanTrace`, `runTrace`: the rungs of a scan, and the scans of a run.
* `DetectsEdges`: what is expected of two scans in a row.
* `remembered`: the value that the edge contact evaluated last in the scan has seen.
* `RemembersPrevious`: this value is that of the previous scan, wherever it counts.

## Main results

* `scanTrace_power`: the power of an edge contact in a scan.
* `detectsEdges_iff`: when the edge contacts of a run detect edges.
-/

namespace Weftik.Ld

/-! ### Traces -/

/-- The evaluation of a contact: the value of its variable, and whether it passed power. -/
structure Visit where
  contact : Contact
  value : Bool
  power : Bool
  deriving DecidableEq

/-- The evaluation of a contact with the given edge detection. -/
def Contact.visit (snapshot : InputSnapshot) (es : EdgeState) (c : Contact) : Visit :=
  ⟨c, snapshot.getBool c.varName, (c.power snapshot es).1⟩

/-- Power flows along an edge, and the evaluation of its contact is recorded. -/
def traceEdge (snapshot : InputSnapshot) (s : FlowState × List Visit) (edge : ContactEdge) :
    FlowState × List Visit :=
  (flowEdge snapshot s.1 edge, s.2 ++ [edge.contact.visit snapshot s.1.edgeState])

/-- Power flows from a node, and the evaluations are recorded. -/
def traceNode (net : ContactNetwork) (snapshot : InputSnapshot) (s : FlowState × List Visit)
    (node : NodeId) : FlowState × List Visit :=
  match s.1.nodePower node with
  | some true => (net.outgoingEdges node).foldl (traceEdge snapshot) s
  | _ => s

/-- Power flows from the left rail along the cached order, and the evaluations are
recorded. -/
def traceFrom (net : ContactNetwork) (snapshot : InputSnapshot) (es : EdgeState)
    (leftRail : NodeId) : FlowState × List Visit :=
  net.topoOrder.foldl (traceNode net snapshot)
    (⟨Function.update (fun _ => none) leftRail (some true), es⟩, [])

/-- The contacts evaluated in a network, in order; none when the evaluation fails. -/
def powerFlowVisits (fuel : ℕ) (net : ContactNetwork) (snapshot : InputSnapshot)
    (es : EdgeState) : List Visit :=
  match net.leftRail, evaluatePowerFlow fuel net snapshot es with
  | some leftRail, some (.ok (_, net, _)) => (traceFrom net snapshot es leftRail).2
  | _, _ => []

/-- The values that the contacts of a rung see, and those of its contacts that are
evaluated. -/
structure RungTrace where
  snapshot : InputSnapshot
  visits : List Visit

/-- The rungs of a scan, as far as it goes. -/
def rungTraces (fuel : ℕ) : CycleState → List RungDef → List RungTrace
  | _, [] => []
  | s, rung :: rungs =>
      match cycleRung fuel s rung with
      | some (.ok s') =>
          ⟨s.vars.snapshot, powerFlowVisits fuel rung.network s.vars.snapshot s.edgeState⟩ ::
            rungTraces fuel s' rungs
      | _ => []

/-- The rungs of one scan. -/
def scanTrace (fuel : ℕ) (rungs : List RungDef) (vars : VarStore) : List RungTrace :=
  rungTraces fuel ⟨vars, .new, [], [], []⟩ rungs

/-- The scans of a run, as far as it goes. Before each scan the variables are changed from
outside, by the next of the given changes. -/
def runTrace (fuel : ℕ) : List RungDef → VarStore → List (VarStore → VarStore) →
    List (List RungTrace)
  | _, _, [] => []
  | rungs, vars, change :: changes =>
      match evaluateCycle fuel rungs (change vars) with
      | some (.ok (_, rungs', vars')) =>
          scanTrace fuel rungs (change vars) :: runTrace fuel rungs' vars' changes
      | _ => []

/-! ### What is expected -/

/-- The contact passes power exactly at an edge of its variable, given its values in two
scans in a row. Other contacts are not restricted. -/
def Contact.Detects (c : Contact) (previous current power : Bool) : Prop :=
  match c with
  | .posEdge _ => power = (!previous && current)
  | .negEdge _ => power = (previous && !current)
  | _ => True

/-- Every edge contact that is evaluated in a scan passes power exactly at an edge: its
variable had the one value in the same rung of the previous scan, and has the other one. -/
def DetectsEdges (previous current : List RungTrace) : Prop :=
  ∀ (k : ℕ) (r r' : RungTrace), previous[k]? = some r → current[k]? = some r' →
    ∀ v ∈ r'.visits,
      v.contact.Detects (r.snapshot.getBool v.contact.varName)
        (r'.snapshot.getBool v.contact.varName) v.power

/-- Does the contact detect edges of the variable? -/
def Contact.detects (var : String) : Contact → Bool
  | .posEdge v | .negEdge v => v == var
  | _ => false

/-- The value that the last of some evaluations of edge contacts of a variable has seen;
`FALSE` when there is none. -/
def remembered (visits : List Visit) (var : String) : Bool :=
  ((visits.filter fun v => v.contact.detects var).getLast?.map Visit.value).getD false

/-- The value with which an edge is compared is the one of the previous scan, as far as it
makes a difference for the contact. -/
def Contact.ComparesWith (c : Contact) (memory previous current : Bool) : Prop :=
  match c with
  | .posEdge _ => current = true → memory = previous
  | .negEdge _ => current = false → memory = previous
  | _ => True

/-- At every evaluation of an edge contact, what the last such contact of its variable has
seen in this scan is the value of the previous scan. -/
def RemembersPrevious (previous current : List RungTrace) : Prop :=
  ∀ (k : ℕ) (r r' : RungTrace), previous[k]? = some r → current[k]? = some r' →
    ∀ (before after : List Visit) (v : Visit), r'.visits = before ++ v :: after →
      v.contact.ComparesWith
        (remembered ((current.take k).flatMap RungTrace.visits ++ before) v.contact.varName)
        (r.snapshot.getBool v.contact.varName) (r'.snapshot.getBool v.contact.varName)

/-! ### The traces mirror the evaluation -/

theorem foldl_traceEdge_fst (snapshot : InputSnapshot) (edges : List ContactEdge)
    (s : FlowState × List Visit) :
    (edges.foldl (traceEdge snapshot) s).1 = edges.foldl (flowEdge snapshot) s.1 := by
  induction edges generalizing s with
  | nil => rfl
  | cons e edges ih => exact ih _

theorem traceNode_fst (net : ContactNetwork) (snapshot : InputSnapshot)
    (s : FlowState × List Visit) (node : NodeId) :
    (traceNode net snapshot s node).1 = flowNode net snapshot s.1 node := by
  rw [traceNode, flowNode]
  cases s.1.nodePower node with
  | none => rfl
  | some power =>
      cases power with
      | false => rfl
      | true => exact foldl_traceEdge_fst snapshot _ s

/-- The trace ends as the evaluation does. -/
theorem traceFrom_fst (net : ContactNetwork) (snapshot : InputSnapshot) (es : EdgeState)
    (leftRail : NodeId) :
    (traceFrom net snapshot es leftRail).1 = flowFrom net snapshot es leftRail := by
  have hfold : ∀ (order : List NodeId) (s : FlowState × List Visit),
      (order.foldl (traceNode net snapshot) s).1 =
        order.foldl (flowNode net snapshot) s.1 := by
    intro order
    induction order with
    | nil => exact fun s => rfl
    | cons node order ih =>
        intro s
        rw [List.foldl_cons, List.foldl_cons, ih, traceNode_fst]
  exact hfold _ _

/-! ### What the edge detection remembers -/

/-- The edge detection remembers what the last of some evaluations has seen. -/
def Remembers (es : EdgeState) (visits : List Visit) : Prop :=
  ∀ var, (es.prev var).getD false = remembered visits var

/-- Every edge contact among some evaluations compared with what was remembered from the
evaluations before it, and from the `earlier` ones. -/
def Compared (snapshot : InputSnapshot) (earlier visits : List Visit) : Prop :=
  ∀ (before after : List Visit) (v : Visit), visits = before ++ v :: after →
    v.contact.Detects (remembered (earlier ++ before) v.contact.varName)
      (snapshot.getBool v.contact.varName) v.power

theorem remembers_new : Remembers .new [] := fun _ => rfl

/-- One more evaluation of an edge contact of the variable. -/
theorem remembered_concat (visits : List Visit) (v : Visit) (var : String) :
    remembered (visits ++ [v]) var =
      if v.contact.detects var = true then v.value else remembered visits var := by
  rw [remembered, List.filter_append]
  by_cases hdetects : v.contact.detects var = true
  · rw [if_pos hdetects, List.filter_singleton, hdetects, List.getLast?_append]
    rfl
  · rw [if_neg hdetects, List.filter_singleton, Bool.eq_false_iff.mpr hdetects]
    simp [remembered]

section Invariant

variable {net : ContactNetwork} {snapshot : InputSnapshot} {earlier : List Visit}
  {visits : List Visit} {es : EdgeState}

/-- The evaluation of a contact keeps what is remembered up to date. -/
theorem Remembers.power (h : Remembers es visits) (snapshot : InputSnapshot) (c : Contact) :
    Remembers (c.power snapshot es).2 (visits ++ [c.visit snapshot es]) := by
  have hrecord : ∀ var, (∀ w, c.detects w = (var == w)) → c.varName = var →
      Remembers (es.record var (snapshot.getBool var)) (visits ++ [c.visit snapshot es]) := by
    intro var hdetects hvar w
    rw [remembered_concat]
    simp only [EdgeState.record, Function.update_apply, Contact.visit, hdetects, hvar,
      beq_iff_eq]
    by_cases hw : w = var
    · rw [if_pos hw, if_pos hw.symm]
      rfl
    · rw [if_neg hw, if_neg (Ne.symm hw)]
      exact h w
  have hplain : (∀ w, c.detects w = false) →
      Remembers es (visits ++ [c.visit snapshot es]) := by
    intro hdetects w
    rw [remembered_concat, if_neg (by simp [Contact.visit, hdetects])]
    exact h w
  cases c with
  | no var | nc var => exact hplain fun _ => rfl
  | posEdge var | negEdge var => exact hrecord var (fun _ => rfl) rfl

/-- An edge contact compares with what is remembered. -/
theorem Remembers.detects (h : Remembers es visits) (snapshot : InputSnapshot) (c : Contact) :
    c.Detects (remembered visits c.varName) (snapshot.getBool c.varName)
      (c.power snapshot es).1 := by
  cases c with
  | no var | nc var => exact trivial
  | posEdge var =>
      simp only [Contact.Detects, Contact.varName, ← h var]
      rfl
  | negEdge var =>
      simp only [Contact.Detects, Contact.varName, ← h var]
      rfl

/-- One more evaluation after some that compared with what was remembered. -/
theorem Compared.concat {v : Visit} (h : Compared snapshot earlier visits)
    (hv : v.contact.Detects (remembered (earlier ++ visits) v.contact.varName)
        (snapshot.getBool v.contact.varName) v.power) :
    Compared snapshot earlier (visits ++ [v]) := by
  have hsplit := Transition.forall_split_concat.mpr ⟨fun before w after => h before after w, hv⟩
  exact fun before after w => hsplit before w after

/-- What holds of a trace that has begun after some earlier evaluations. -/
structure Traced (snapshot : InputSnapshot) (earlier : List Visit)
    (s : FlowState × List Visit) : Prop where
  remembers : Remembers s.1.edgeState (earlier ++ s.2)
  compared : Compared snapshot earlier s.2

/-- Power flows along an edge. -/
theorem Traced.traceEdge {s : FlowState × List Visit} (h : Traced snapshot earlier s)
    (edge : ContactEdge) : Traced snapshot earlier (Ld.traceEdge snapshot s edge) := by
  refine ⟨?_, h.compared.concat (h.remembers.detects snapshot edge.contact)⟩
  have hpower := h.remembers.power snapshot edge.contact
  rw [List.append_assoc] at hpower
  exact hpower

/-- Power flows from a node. -/
theorem Traced.traceNode {s : FlowState × List Visit} (h : Traced snapshot earlier s)
    (node : NodeId) : Traced snapshot earlier (Ld.traceNode net snapshot s node) := by
  rw [Ld.traceNode]
  split
  · generalize net.outgoingEdges node = edges
    clear ‹s.1.nodePower node = some true›
    induction edges generalizing s with
    | nil => exact h
    | cons e edges ih => exact ih (h.traceEdge e)
  · exact h

/-- Power flows from the left rail. -/
theorem traced_traceFrom (net : ContactNetwork) (snapshot : InputSnapshot)
    (h : Remembers es earlier) (leftRail : NodeId) :
    Traced snapshot earlier (traceFrom net snapshot es leftRail) := by
  have hfold : ∀ (order : List NodeId) (s : FlowState × List Visit),
      Traced snapshot earlier s →
      Traced snapshot earlier (order.foldl (Ld.traceNode net snapshot) s) := by
    intro order
    induction order with
    | nil => exact fun s hs => hs
    | cons node order ih => exact fun s hs => ih _ (hs.traceNode node)
  refine hfold _ _ ⟨?_, ?_⟩
  · rw [List.append_nil]
    exact h
  · intro before after v hv
    exact absurd hv.symm (by simp)

/-- The evaluation of a network keeps what is remembered up to date. -/
theorem traced_powerFlowVisits {fuel : ℕ} {es' : EdgeState} {net' : ContactNetwork} {power : Bool}
    (h : Remembers es earlier)
    (heval : evaluatePowerFlow fuel net snapshot es = some (.ok (power, net', es'))) :
    Remembers es' (earlier ++ powerFlowVisits fuel net snapshot es) ∧
      Compared snapshot earlier (powerFlowVisits fuel net snapshot es) := by
  rw [powerFlowVisits, heval]
  rw [evaluatePowerFlow] at heval
  split at heval
  · cases heval
  · cases heval
  · rename_i leftRail outputNode hrail hout
    obtain ⟨o, -, ho⟩ := Option.map_eq_some_iff.mp heval
    cases o with
    | error e => cases ho
    | ok net'' =>
        cases ho
        have htraced := traced_traceFrom net' snapshot h leftRail
        have hremembers := htraced.remembers
        rw [traceFrom_fst] at hremembers
        rw [hrail]
        exact ⟨hremembers, htraced.compared⟩

end Invariant

/-- The rungs of a scan: their edge contacts compare with what the evaluations so far have
seen. -/
theorem compared_rungTraces {fuel : ℕ} {s : CycleState} {earlier : List Visit}
    (h : Remembers s.edgeState earlier) (rungs : List RungDef) {k : ℕ} {r : RungTrace}
    (hr : (rungTraces fuel s rungs)[k]? = some r) :
    Compared r.snapshot
      (earlier ++ ((rungTraces fuel s rungs).take k).flatMap RungTrace.visits) r.visits := by
  induction rungs generalizing s earlier k with
  | nil => cases hr
  | cons rung rungs ih =>
      rw [rungTraces] at hr ⊢
      cases hrung : cycleRung fuel s rung with
      | none => rw [hrung] at hr; cases hr
      | some o =>
          rw [hrung] at hr
          cases o with
          | error e => cases hr
          | ok s' =>
              obtain ⟨o', heval, ho'⟩ := Option.map_eq_some_iff.mp hrung
              cases o' with
              | error e => cases ho'
              | ok result =>
                  obtain ⟨power, net, es⟩ := result
                  obtain ⟨hremembers, hcompared⟩ := traced_powerFlowVisits h heval
                  cases k with
                  | zero =>
                      obtain rfl := Option.some.inj hr
                      rw [List.take_zero, List.flatMap_nil, List.append_nil]
                      exact hcompared
                  | succ k =>
                      have hes : s'.edgeState = es := by
                        rw [← Except.ok.inj ho']
                      rw [← hes] at hremembers
                      have hrest := ih hremembers hr
                      rw [List.append_assoc] at hrest
                      exact hrest

/-- The power of the edge contacts of a scan. -/
theorem compared_scanTrace (fuel : ℕ) (rungs : List RungDef) (vars : VarStore) {k : ℕ}
    {r : RungTrace} (hr : (scanTrace fuel rungs vars)[k]? = some r) :
    Compared r.snapshot (((scanTrace fuel rungs vars).take k).flatMap RungTrace.visits)
      r.visits := by
  have hcompared := compared_rungTraces remembers_new rungs hr
  rw [List.nil_append] at hcompared
  exact hcompared

/-! ### When edges are detected -/

/-- A contact that has compared with what is remembered detects edges exactly when this is
the value of the previous scan, as far as it counts. -/
theorem Contact.Detects.iff {c : Contact} {memory current power : Bool}
    (h : c.Detects memory current power) (previous : Bool) :
    c.Detects previous current power ↔ c.ComparesWith memory previous current := by
  cases c with
  | no var | nc var => exact Iff.rfl
  | posEdge var =>
      simp only [Contact.Detects, Contact.ComparesWith] at h ⊢
      rw [h]
      cases memory <;> cases previous <;> cases current <;> simp
  | negEdge var =>
      simp only [Contact.Detects, Contact.ComparesWith] at h ⊢
      rw [h]
      cases memory <;> cases previous <;> cases current <;> simp

/-- The edge contacts of a scan detect edges exactly when the previous values are
remembered. -/
theorem detectsEdges_scanTrace (fuel : ℕ) (rungs : List RungDef) (vars : VarStore)
    (previous : List RungTrace) :
    DetectsEdges previous (scanTrace fuel rungs vars) ↔
      RemembersPrevious previous (scanTrace fuel rungs vars) := by
  constructor
  · intro h k r r' hr hr' before after v hv
    have hcompared := compared_scanTrace fuel rungs vars hr' before after v hv
    exact (hcompared.iff _).mp (h k r r' hr hr' v (hv ▸ List.mem_append_right before
      List.mem_cons_self))
  · intro h k r r' hr hr' v hv
    obtain ⟨before, after, hsplit⟩ := List.append_of_mem hv
    have hcompared := compared_scanTrace fuel rungs vars hr' before after v hsplit
    exact (hcompared.iff _).mpr (h k r r' hr hr' before after v hsplit)

/-- Every part of the trace of a run is the trace of a scan. -/
theorem exists_scanTrace {fuel : ℕ} {rungs : List RungDef} {vars : VarStore}
    {changes : List (VarStore → VarStore)} {t : List RungTrace}
    (h : t ∈ runTrace fuel rungs vars changes) :
    ∃ rungs' vars', t = scanTrace fuel rungs' vars' := by
  induction changes generalizing rungs vars with
  | nil => cases h
  | cons change changes ih =>
      rw [runTrace] at h
      split at h
      · rcases List.mem_cons.mp h with rfl | h
        · exact ⟨_, _, rfl⟩
        · exact ih h
      · cases h

/-- In every run, the edge contacts of all scans after the first detect edges exactly when
the value that the last edge contact of the same variable has seen in the scan is the one
of the previous scan, wherever it counts. -/
theorem detectsEdges_iff (fuel : ℕ) (rungs : List RungDef) (vars : VarStore)
    (changes : List (VarStore → VarStore)) :
    (∀ n previous current, (runTrace fuel rungs vars changes)[n]? = some previous →
        (runTrace fuel rungs vars changes)[n + 1]? = some current →
        DetectsEdges previous current) ↔
      ∀ n previous current, (runTrace fuel rungs vars changes)[n]? = some previous →
        (runTrace fuel rungs vars changes)[n + 1]? = some current →
        RemembersPrevious previous current := by
  refine forall_congr' fun n => forall_congr' fun previous => forall_congr' fun current =>
    forall_congr' fun _ => forall_congr' fun hcurrent => ?_
  obtain ⟨rungs', vars', rfl⟩ := exists_scanTrace (List.mem_of_getElem? hcurrent)
  exact detectsEdges_scanTrace fuel rungs' vars' previous

/-- The rung `--|P v|--( q )--`. -/
def edgeRung : RungDef where
  id := "1"
  network := ((ContactNetwork.new.addNode.1.addNode.1.setLeftRail 0).setOutputNode
    1).insertEdge 0 1 (.posEdge "v") (by decide)
  coils := [⟨"q", .out⟩]

/-- `v` stays `TRUE`, and the contact passes power in the second scan. -/
theorem high_level_passes :
    ¬ ∀ (fuel : ℕ) (rungs : List RungDef) (vars : VarStore)
      (changes : List (VarStore → VarStore)) (n : ℕ) (previous current : List RungTrace),
      (runTrace fuel rungs vars changes)[n]? = some previous →
      (runTrace fuel rungs vars changes)[n + 1]? = some current →
      DetectsEdges previous current := by
  intro h
  let changes : List (VarStore → VarStore) := [fun vars => vars.setBool "v" true, id]
  let scans := runTrace 3 [edgeRung] ⟨fun _ => none⟩ changes
  let first := (scans.getD 0 []).getD 0 ⟨⟨fun _ => none⟩, []⟩
  let second := (scans.getD 1 []).getD 0 ⟨⟨fun _ => none⟩, []⟩
  have hdetects := h 3 [edgeRung] ⟨fun _ => none⟩ changes 0 (scans.getD 0 []) (scans.getD 1 [])
    rfl rfl 0 first second rfl rfl ⟨.posEdge "v", true, true⟩ (by decide)
  have hpower : true = (!first.snapshot.getBool "v" && second.snapshot.getBool "v") := hdetects
  exact absurd hpower (by decide)

/-! ### The first edge contact of a scan -/

/-- The first edge contact of a variable in a scan passes power whenever the variable is
`TRUE` when it is one for rising edges, and never when it is one for falling edges. -/
theorem scanTrace_power {fuel : ℕ} {rungs : List RungDef} {vars : VarStore} {k : ℕ}
    {r : RungTrace} (hr : (scanTrace fuel rungs vars)[k]? = some r)
    {before after : List Visit} {v : Visit} (hv : r.visits = before ++ v :: after)
    (hfirst : ∀ w ∈ ((scanTrace fuel rungs vars).take k).flatMap RungTrace.visits ++ before,
      w.contact.detects v.contact.varName = false) :
    v.contact.Detects false (r.snapshot.getBool v.contact.varName) v.power := by
  have hnone : remembered (((scanTrace fuel rungs vars).take k).flatMap RungTrace.visits ++
      before) v.contact.varName = false := by
    rw [remembered, List.filter_eq_nil_iff.mpr fun w hw => by rw [hfirst w hw]; exact nofun]
    rfl
  rw [← hnone]
  exact compared_scanTrace fuel rungs vars hr before after v hv

/-- The only contact of the rung passes power when its variable is `TRUE`. -/
theorem scanTrace_power_edgeRung :
    Contact.Detects (.posEdge "v") false true true := by
  let vars : VarStore := VarStore.setBool ⟨fun _ => none⟩ "v" true
  have hrung : (scanTrace 3 [edgeRung] vars)[0]? =
      some ⟨vars.snapshot, [⟨.posEdge "v", true, true⟩]⟩ := rfl
  have hvisits : [⟨.posEdge "v", true, true⟩] = [] ++ (⟨.posEdge "v", true, true⟩ : Visit) :: [] :=
    rfl
  exact scanTrace_power hrung hvisits nofun

end Weftik.Ld
