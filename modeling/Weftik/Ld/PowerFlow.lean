import Weftik.Ld.Network

/-!
# Power Flow

Power enters a network at the left rail and flows through closed contacts along the cached
order of the nodes. The order has only the fed nodes: the traversal starts at the left rail
alone, so a node with an incoming edge from anywhere else never gets into it, and power
does not flow on from there. Setting the left rail does not ask for a new order either.

## Main definitions

* `evaluatePowerFlow`: the evaluation of one network.
* `Reached`: the networks that any sequence of operations and evaluations can build.
* `ClosedPath`, `FedPath`: a path of closed contacts, and one whose edges start at fed nodes.

## Main results

* `evaluatePowerFlow_eq`: the output is powered when there is a fed path to it.
* `evaluatePowerFlow_iff`: when this agrees with the existence of a closed path.
-/

open Machine

namespace Weftik.Ld

/-! ### Snapshots and edge detection -/

/-- The values of the variables during one scan. -/
structure InputSnapshot where
  values : String → Option Bool

/-- The value of a variable; one that is not in the snapshot is `FALSE`. -/
def InputSnapshot.getBool (s : InputSnapshot) (var : String) : Bool :=
  (s.values var).getD false

/-- The values of the variables in the previous scan. -/
structure EdgeState where
  prev : String → Option Bool

namespace EdgeState

/-- Before the first scan. -/
def new : EdgeState := ⟨fun _ => none⟩

/-- The state after the value of a variable has been recorded. -/
def record (es : EdgeState) (var : String) (curr : Bool) : EdgeState :=
  ⟨Function.update es.prev var (some curr)⟩

/-- Has the variable changed from `FALSE` to `TRUE`? -/
def isRising (es : EdgeState) (var : String) (snapshot : InputSnapshot) : Bool × EdgeState :=
  let curr := snapshot.getBool var
  let prev := (es.prev var).getD false
  (!prev && curr, es.record var curr)

/-- Has the variable changed from `TRUE` to `FALSE`? -/
def isFalling (es : EdgeState) (var : String) (snapshot : InputSnapshot) : Bool × EdgeState :=
  let curr := snapshot.getBool var
  let prev := (es.prev var).getD false
  (prev && !curr, es.record var curr)

end EdgeState

/-! ### Evaluation -/

/-- The power at the nodes reached so far, and the edge detection. -/
structure FlowState where
  nodePower : NodeId → Option Bool
  edgeState : EdgeState

/-- Does the contact pass power? A contact that detects edges records its variable. -/
def Contact.power (snapshot : InputSnapshot) (es : EdgeState) : Contact → Bool × EdgeState
  | .no var => (snapshot.getBool var, es)
  | .nc var => (!snapshot.getBool var, es)
  | .posEdge var => es.isRising var snapshot
  | .negEdge var => es.isFalling var snapshot

/-- Power flows along an edge: its target is powered when it was or when the contact passes
power. -/
def flowEdge (snapshot : InputSnapshot) (s : FlowState) (edge : ContactEdge) : FlowState :=
  let (contactPower, es) := edge.contact.power snapshot s.edgeState
  let existing := (s.nodePower edge.target).getD false
  ⟨Function.update s.nodePower edge.target (some (existing || contactPower)), es⟩

/-- Power flows from a node, if it is powered. -/
def flowNode (net : ContactNetwork) (snapshot : InputSnapshot) (s : FlowState)
    (node : NodeId) : FlowState :=
  match s.nodePower node with
  | some true => (net.outgoingEdges node).foldl (flowEdge snapshot) s
  | _ => s

/-- Power flows from the left rail along the cached order. -/
def flowFrom (net : ContactNetwork) (snapshot : InputSnapshot) (es : EdgeState)
    (leftRail : NodeId) : FlowState :=
  net.topoOrder.foldl (flowNode net snapshot)
    ⟨Function.update (fun _ => none) leftRail (some true), es⟩

/-- Evaluate the power at the output node: the network with its order up to date, and the
edge detection, are returned with it. -/
def evaluatePowerFlow (fuel : ℕ) (net : ContactNetwork) (snapshot : InputSnapshot)
    (es : EdgeState) : Option (Except Panic (Bool × ContactNetwork × EdgeState)) :=
  match net.leftRail, net.outputNode with
  | none, _ => some (.error (.message "left_rail not set"))
  | some _, none => some (.error (.message "output_node not set"))
  | some leftRail, some outputNode =>
      (net.topologicalOrder fuel).map fun o => do
        let net ← o
        let s := flowFrom net snapshot es leftRail
        pure ((s.nodePower outputNode).getD false, net, s.edgeState)

/-- More fuel does not change what an evaluation returns. -/
theorem evaluatePowerFlow_mono {fuel fuel' : ℕ} {net : ContactNetwork}
    {snapshot : InputSnapshot} {es : EdgeState}
    {o : Except Panic (Bool × ContactNetwork × EdgeState)} (hle : fuel ≤ fuel')
    (h : evaluatePowerFlow fuel net snapshot es = some o) :
    evaluatePowerFlow fuel' net snapshot es = some o := by
  rw [evaluatePowerFlow] at h ⊢
  split at h
  · exact h
  · exact h
  · obtain ⟨order, horder, ho⟩ := Option.map_eq_some_iff.mp h
    rw [ContactNetwork.topologicalOrder_mono hle horder, Option.map_some, ho]

/-! ### Closed paths -/

/-- Is the contact closed? A contact that detects edges is reported like one that does
not. -/
def Contact.isClosed (snapshot : InputSnapshot) : Contact → Bool
  | .no v | .posEdge v => snapshot.getBool v
  | .nc v | .negEdge v => !snapshot.getBool v

/-- The contact does not detect edges. -/
def Contact.isPlain : Contact → Bool
  | .no _ | .nc _ => true
  | _ => false

/-- There is a path from the first node to the second all of whose contacts are closed. -/
def ClosedPath (net : ContactNetwork) (snapshot : InputSnapshot) : NodeId → NodeId → Prop :=
  Relation.ReflTransGen fun u v =>
    ∃ e ∈ net.edges, e.source = u ∧ e.target = v ∧ e.contact.isClosed snapshot = true

/-- There is such a path all of whose edges start at nodes fed by the given left rail, or
without one by the nodes without incoming edges. -/
def FedPath (net : ContactNetwork) (rail : Option NodeId) (snapshot : InputSnapshot) :
    NodeId → NodeId → Prop :=
  Relation.ReflTransGen fun u v =>
    net.graph.Fed (net.seeds rail) u ∧
      ∃ e ∈ net.edges, e.source = u ∧ e.target = v ∧ e.contact.isClosed snapshot = true

/-- The networks that any sequence of operations and evaluations can build, with the left
rail that was set when the cached order was computed. -/
inductive Reached : ContactNetwork → Option NodeId → Prop
  | new : Reached .new none
  | addNode {net : ContactNetwork} {rail : Option NodeId} :
      Reached net rail → Reached net.addNode.1 rail
  | addEdge {net net' : ContactNetwork} {rail : Option NodeId} {source target : NodeId}
      {contact : Contact} : Reached net rail →
      net.addEdge source target contact = .ok net' → Reached net' rail
  | setLeftRail {net : ContactNetwork} {rail : Option NodeId} (node : NodeId) :
      Reached net rail → Reached (net.setLeftRail node) rail
  | setOutputNode {net : ContactNetwork} {rail : Option NodeId} (node : NodeId) :
      Reached net rail → Reached (net.setOutputNode node) rail
  | topologicalOrder {net net' : ContactNetwork} {rail : Option NodeId} {fuel : ℕ} :
      Reached net rail → net.topologicalOrder fuel = some (.ok net') →
      Reached net' (if net.dirty then net.leftRail else rail)
  | evaluate {net net' : ContactNetwork} {rail : Option NodeId} {fuel : ℕ}
      {snapshot : InputSnapshot} {es es' : EdgeState} {power : Bool} : Reached net rail →
      evaluatePowerFlow fuel net snapshot es = some (.ok (power, net', es')) →
      Reached net' (if net.dirty then net.leftRail else rail)

/-- An acyclic ladder network of normally open and normally closed contacts, whose edges
and ends are nodes, and whose left rail has no incoming edge. -/
structure IsLadder (net : ContactNetwork) (leftRail outputNode : NodeId) : Prop where
  inBounds : net.InBounds
  leftRail_eq : net.leftRail = some leftRail
  outputNode_eq : net.outputNode = some outputNode
  acyclic : net.graph.Acyclic
  no_edge_into_rail : ∀ u, ¬ net.graph.Edge u leftRail
  plain : ∀ e ∈ net.edges, e.contact.isPlain = true

/-! ### The cached order -/

/-- The cached order of an acyclic network is up to date for the left rail that was set
when it was computed, unless the network is dirty. -/
def Cached (net : ContactNetwork) (rail : Option NodeId) : Prop :=
  net.dirty = false → net.graph.Acyclic → net.OrderedFrom rail net.topoOrder

/-- Asking for the order changes the order and the flag only, and keeps the cache up to
date. -/
theorem topologicalOrder_cached {net net' : ContactNetwork} {rail : Option NodeId} {fuel : ℕ}
    (hcached : Cached net rail) (h : net.topologicalOrder fuel = some (.ok net')) :
    (∃ order, net' = { net with topoOrder := order, dirty := false }) ∧
      Cached net' (if net.dirty then net.leftRail else rail) := by
  rw [ContactNetwork.topologicalOrder] at h
  cases hdirty : net.dirty with
  | true =>
      rw [hdirty, if_pos rfl] at h
      obtain ⟨order, rfl, hordered⟩ := ContactNetwork.rebuildTopo_order h
      exact ⟨⟨order, rfl⟩, fun _ => hordered⟩
  | false =>
      rw [hdirty, if_neg Bool.false_ne_true] at h
      obtain rfl := Except.ok.inj (Option.some.inj h)
      refine ⟨⟨net.topoOrder, ?_⟩, hcached⟩
      rw [← hdirty]

/-- Evaluating asks for the order and leaves the network alone otherwise. -/
theorem evaluatePowerFlow_topologicalOrder {net net' : ContactNetwork} {fuel : ℕ}
    {snapshot : InputSnapshot} {es es' : EdgeState} {power : Bool}
    (h : evaluatePowerFlow fuel net snapshot es = some (.ok (power, net', es'))) :
    net.topologicalOrder fuel = some (.ok net') := by
  rw [evaluatePowerFlow] at h
  split at h
  · cases h
  · cases h
  · obtain ⟨o, horder, ho⟩ := Option.map_eq_some_iff.mp h
    cases o with
    | error e => cases ho
    | ok net'' =>
        cases ho
        exact horder

/-- The order that is cached in a reached network is up to date for the left rail that was
set when it was computed: every operation that changes the nodes or the edges makes the
network dirty. -/
theorem Reached.cached {net : ContactNetwork} {rail : Option NodeId} (h : Reached net rail) :
    Cached net rail := by
  induction h with
  | new =>
      intro _ _
      refine ⟨fun v => iff_of_false List.not_mem_nil fun hv => ?_, List.Pairwise.nil⟩
      obtain ⟨s, hs, -⟩ := hv.reachable
      cases hs
  | addNode _ _ => exact nofun
  | addEdge _ hadd _ =>
      rw [ContactNetwork.addEdge] at hadd
      split at hadd
      · obtain rfl := Except.ok.inj hadd
        exact nofun
      · cases hadd
  | setLeftRail node _ ih => exact ih
  | setOutputNode node _ ih => exact ih
  | topologicalOrder _ horder ih => exact (topologicalOrder_cached ih horder).2
  | evaluate _ heval ih =>
      exact (topologicalOrder_cached ih (evaluatePowerFlow_topologicalOrder heval)).2

/-! ### Power reaches what the fed paths reach -/

section Flow

variable {net : ContactNetwork} {snapshot : InputSnapshot}

/-- A contact that does not detect edges passes power when it is closed. -/
theorem Contact.power_of_isPlain {c : Contact} (hc : c.isPlain = true) (es : EdgeState) :
    c.power snapshot es = (c.isClosed snapshot, es) := by
  cases c with
  | no v => rfl
  | nc v => rfl
  | posEdge v => cases hc
  | negEdge v => cases hc

/-- In a network without contacts that detect edges, power flows from a node as Kahn's
second pass propagates a mark. -/
theorem flowNode_propagate (hplain : ∀ e ∈ net.edges, e.contact.isPlain = true)
    (s : FlowState) (node : NodeId) :
    (fun v => ((flowNode net snapshot s node).nodePower v).getD false) =
      Kahn.propagateNode net.graph (fun e => e.contact.isClosed snapshot)
        (fun v => (s.nodePower v).getD false) node := by
  have hfold : ∀ (es : List ContactEdge), (∀ e ∈ es, e.contact.isPlain = true) →
      ∀ s : FlowState,
        (fun v => ((es.foldl (flowEdge snapshot) s).nodePower v).getD false) =
          es.foldl (fun mark e => Function.update mark e.target
              (mark e.target || e.contact.isClosed snapshot))
            (fun v => (s.nodePower v).getD false) := by
    intro es
    induction es with
    | nil => exact fun _ s => rfl
    | cons e es ih =>
        intro hes s
        rw [List.foldl_cons, List.foldl_cons,
          ih fun e' he' => hes e' (List.mem_cons_of_mem e he')]
        congr 1
        funext v
        rw [flowEdge, Contact.power_of_isPlain (hes e List.mem_cons_self)]
        by_cases hv : v = e.target
        · subst hv
          simp
        · simp [hv]
  have hout : ∀ e ∈ net.outgoingEdges node, e.contact.isPlain = true := by
    intro e he
    rw [← ContactNetwork.out_graph] at he
    exact hplain e (List.mem_of_mem_filter he)
  rw [flowNode, Kahn.propagateNode, ContactNetwork.out_graph]
  cases hpower : s.nodePower node with
  | none => simp
  | some power =>
      cases power with
      | false => simp
      | true =>
          simp only [Option.getD_some, if_true]
          exact hfold _ hout s

/-- Power at the end of the order, as Kahn's second pass computes it. -/
theorem foldl_flowNode_propagate (hplain : ∀ e ∈ net.edges, e.contact.isPlain = true)
    (order : List NodeId) (s : FlowState) :
    (fun v => ((order.foldl (flowNode net snapshot) s).nodePower v).getD false) =
      Kahn.propagate net.graph (fun e => e.contact.isClosed snapshot) order
        (fun v => (s.nodePower v).getD false) := by
  induction order generalizing s with
  | nil => rfl
  | cons node order ih =>
      rw [List.foldl_cons, ih, flowNode_propagate hplain]
      rfl

end Flow

/-- The left rail that counts for an evaluation: the present one when the order is computed
afresh, and otherwise the one for which it was computed. -/
def orderRail (net : ContactNetwork) (rail : Option NodeId) : Option NodeId :=
  if net.dirty then net.leftRail else rail

/-- Power flows along a sorted order to the ends of the closed paths whose edges start in
the order. -/
theorem flowFrom_iff {net : ContactNetwork} {snapshot : InputSnapshot}
    (hplain : ∀ e ∈ net.edges, e.contact.isPlain = true)
    (hsorted : net.graph.Sorted net.topoOrder) (es : EdgeState) (leftRail v : NodeId) :
    ((flowFrom net snapshot es leftRail).nodePower v).getD false = true ↔
      Relation.ReflTransGen (Kahn.ClosedEdge net.graph
        (fun e => e.contact.isClosed snapshot) net.topoOrder) leftRail v := by
  have hstart : ∀ w, ((Function.update (fun _ => none) leftRail (some true) :
      NodeId → Option Bool) w).getD false = true ↔ w = leftRail := by
    intro w
    by_cases hw : w = leftRail
    · simp [hw]
    · simp [hw]
  rw [← Kahn.propagate_iff hsorted _ leftRail hstart v, flowFrom]
  exact Eq.congr_left (congrFun (foldl_flowNode_propagate hplain net.topoOrder _) v)

/-- In every reached ladder network the evaluation ends, and the output is powered exactly
when there is a fed path to it. -/
theorem evaluatePowerFlow_eq {net : ContactNetwork} {rail : Option NodeId}
    {leftRail outputNode : NodeId} (hreached : Reached net rail)
    (hladder : IsLadder net leftRail outputNode) (snapshot : InputSnapshot) (es : EdgeState) :
    ∃ fuel power net' es', evaluatePowerFlow fuel net snapshot es =
        some (.ok (power, net', es')) ∧
      (power = true ↔
        FedPath net (orderRail net rail) snapshot leftRail outputNode) := by
  obtain ⟨fuel, order, horder, hmem, hsorted⟩ : ∃ fuel order, net.topologicalOrder fuel =
      some (.ok { net with topoOrder := order, dirty := false }) ∧
      net.OrderedFrom (orderRail net rail) order := by
    cases hdirty : net.dirty with
    | true =>
        obtain ⟨fuel, order, hrebuild, hordered⟩ :=
          ContactNetwork.rebuildTopo_ok hladder.inBounds hladder.acyclic
        refine ⟨fuel, order, ?_, ?_⟩
        · rw [ContactNetwork.topologicalOrder, hdirty, if_pos rfl, hrebuild]
        · rwa [orderRail, hdirty, if_pos rfl]
    | false =>
        refine ⟨0, net.topoOrder, ?_, ?_⟩
        · rw [ContactNetwork.topologicalOrder, hdirty, if_neg Bool.false_ne_true, ← hdirty]
        · rw [orderRail, hdirty, if_neg Bool.false_ne_true]
          exact hreached.cached hdirty hladder.acyclic
  let net' : ContactNetwork := { net with topoOrder := order, dirty := false }
  let s := flowFrom net' snapshot es leftRail
  refine ⟨fuel, (s.nodePower outputNode).getD false, net', s.edgeState, ?_, ?_⟩
  · rw [evaluatePowerFlow, hladder.leftRail_eq, hladder.outputNode_eq, horder]
    rfl
  · have hflow := @flowFrom_iff net' snapshot hladder.plain hsorted es leftRail outputNode
    rw [hflow, FedPath]
    have hstep : Kahn.ClosedEdge net'.graph (fun e => e.contact.isClosed snapshot)
        net'.topoOrder = fun u v => net.graph.Fed (net.seeds (orderRail net rail)) u ∧
          ∃ e ∈ net.edges, e.source = u ∧ e.target = v ∧
            e.contact.isClosed snapshot = true := by
      funext u v
      exact propext (and_congr_left fun _ => hmem u)
    rw [hstep]

/-- In every reached ladder network the evaluation ends, and the output is powered exactly
when there is a closed path to it if and only if some closed path, when there is one, is
fed. -/
theorem evaluatePowerFlow_iff {net : ContactNetwork} {rail : Option NodeId}
    {leftRail outputNode : NodeId} (hreached : Reached net rail)
    (hladder : IsLadder net leftRail outputNode) (snapshot : InputSnapshot) (es : EdgeState) :
    ∃ fuel power net' es', evaluatePowerFlow fuel net snapshot es =
        some (.ok (power, net', es')) ∧
      ((power = true ↔ ClosedPath net snapshot leftRail outputNode) ↔
        (ClosedPath net snapshot leftRail outputNode →
          FedPath net (orderRail net rail) snapshot leftRail outputNode)) := by
  obtain ⟨fuel, power, net', es', heval, hpower⟩ :=
    evaluatePowerFlow_eq hreached hladder snapshot es
  have hclosed : FedPath net (orderRail net rail) snapshot leftRail outputNode →
      ClosedPath net snapshot leftRail outputNode :=
    Relation.ReflTransGen.mono (fun u v h => h.2) _ _
  refine ⟨fuel, power, net', es', heval, ?_⟩
  rw [hpower]
  exact ⟨fun h => h.mpr, fun h => ⟨hclosed, h⟩⟩

/-! ### Which orders serve a network -/

section Orders

variable {net : ContactNetwork} {rail : Option NodeId} {leftRail outputNode : NodeId}

/-- Where every node with an edge is fed, the output is powered exactly when there is a
closed path to it. -/
theorem evaluatePowerFlow_of_fed (hreached : Reached net rail)
    (hladder : IsLadder net leftRail outputNode)
    (hfed : ∀ e ∈ net.edges, net.graph.Fed (net.seeds (orderRail net rail)) e.source)
    (snapshot : InputSnapshot) (es : EdgeState) :
    ∃ fuel power net' es', evaluatePowerFlow fuel net snapshot es =
        some (.ok (power, net', es')) ∧
      (power = true ↔ ClosedPath net snapshot leftRail outputNode) := by
  obtain ⟨fuel, power, net', es', heval, hiff⟩ :=
    evaluatePowerFlow_iff hreached hladder snapshot es
  refine ⟨fuel, power, net', es', heval, hiff.mpr (Relation.ReflTransGen.mono ?_ _ _)⟩
  rintro u v ⟨e, he, rfl, hrest⟩
  exact ⟨hfed e he, e, he, rfl, hrest⟩

end Orders

/-! ### A node with an edge from elsewhere -/

/-- Where every edge leads to a greater node, a network is acyclic. -/
theorem acyclic_of_lt {net : ContactNetwork} (h : ∀ e ∈ net.edges, e.source < e.target) :
    net.graph.Acyclic := by
  intro v hcycle
  have hlt : ∀ w, Relation.TransGen net.graph.Edge v w → v < w := by
    intro w hpath
    induction hpath with
    | single hedge =>
        obtain ⟨e, he, rfl, rfl⟩ := hedge
        exact h e he
    | tail _ hedge ih =>
        obtain ⟨e, he, rfl, rfl⟩ := hedge
        exact ih.trans (h e he)
  exact lt_irrefl v (hlt v hcycle)

/-- Adding an edge from a node of the network. -/
theorem Reached.insertEdge {net : ContactNetwork} {rail : Option NodeId}
    (h : Reached net rail) (source target : NodeId) (contact : Contact)
    (hs : source < net.outgoing.length) :
    Reached (net.insertEdge source target contact hs) rail :=
  .addEdge h (dif_pos hs)

/-- Four nodes: the left rail `0`, the output `3`, and the node `2` between them, into which
another edge leads from the node `1`. -/
def strayNetwork : ContactNetwork :=
  let net := ContactNetwork.new.addNode.1.addNode.1.addNode.1.addNode.1
  let net := (net.setLeftRail 0).setOutputNode 3
  let net := net.insertEdge 0 2 (.no "X") (by decide)
  let net := net.insertEdge 1 2 (.no "Y") (by decide)
  net.insertEdge 2 3 (.no "X") (by decide)

/-- The snapshot in which `X` is `TRUE`. -/
def snapshotX : InputSnapshot := ⟨fun v => if v = "X" then some true else none⟩

theorem strayNetwork_reached : Reached strayNetwork none := by
  have hnodes : Reached ContactNetwork.new.addNode.1.addNode.1.addNode.1.addNode.1 none :=
    .addNode (.addNode (.addNode (.addNode .new)))
  have hfirst := ((hnodes.setLeftRail 0).setOutputNode 3).insertEdge 0 2 (.no "X") (by decide)
  have hsecond := hfirst.insertEdge 1 2 (.no "Y") (by decide)
  exact hsecond.insertEdge 2 3 (.no "X") (by decide)

theorem strayNetwork_isLadder : IsLadder strayNetwork 0 3 := by
  refine ⟨⟨by decide, ?_⟩, rfl, rfl, acyclic_of_lt (by decide), ?_, by decide⟩
  · rintro _ ⟨⟩
    decide
  · rintro u ⟨e, he, -, htgt⟩
    revert e
    decide

/-- With `X` closed there is a closed path to the output, but the node `2` waits for the
edge from the node `1`, which is never visited. -/
theorem stray_edge_blocks_power :
    ¬ ∀ (net : ContactNetwork) (rail : Option NodeId) (leftRail outputNode : NodeId),
      Reached net rail → IsLadder net leftRail outputNode →
      ∀ (snapshot : InputSnapshot) (es : EdgeState) (fuel : ℕ) (power : Bool)
        (net' : ContactNetwork) (es' : EdgeState),
        evaluatePowerFlow fuel net snapshot es = some (.ok (power, net', es')) →
        (power = true ↔ ClosedPath net snapshot leftRail outputNode) := by
  intro h
  have hfalse := h strayNetwork none 0 3 strayNetwork_reached strayNetwork_isLadder snapshotX
    .new 3 false _ _ rfl
  have hfirst : ClosedPath strayNetwork snapshotX 0 2 :=
    .single ⟨⟨0, 2, .no "X"⟩, by decide⟩
  have hpath : ClosedPath strayNetwork snapshotX 0 3 :=
    hfirst.tail ⟨⟨2, 3, .no "X"⟩, by decide⟩
  exact absurd (hfalse.mpr hpath) nofun

/-- The evaluation of that network, as the general theorem describes it. -/
theorem strayNetwork_power :
    ∃ fuel power net' es', evaluatePowerFlow fuel strayNetwork snapshotX .new =
        some (.ok (power, net', es')) ∧
      ((power = true ↔ ClosedPath strayNetwork snapshotX 0 3) ↔
        (ClosedPath strayNetwork snapshotX 0 3 →
          FedPath strayNetwork (orderRail strayNetwork none) snapshotX 0 3)) :=
  evaluatePowerFlow_iff strayNetwork_reached strayNetwork_isLadder snapshotX .new

end Weftik.Ld
