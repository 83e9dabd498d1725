import Weftik.Lib.Kahn
import Weftik.Ld.Builders

/-!
# The Power of Contacts in Series

A chain of contacts is asked from its beginning up to the first contact that does not pass
power. The network that the serial builder makes is evaluated in this way, and so are the
branches of a parallel network.

## Main definitions

* `chainPower`: the power of some contacts in series.
* `Wired`: a chain in a network.

## Main results

* `Wired.flow`: power flows along a chain as its contacts pass it.
* `evaluate_serial`: the evaluation of the network of contacts in series.
-/

open Machine

namespace Weftik.Ld

/-! ### Power along chains -/

/-- The power of some contacts in series, which are asked up to the first one that does not
pass power. -/
def chainPower (snapshot : InputSnapshot) : EdgeState → List Contact → Bool × EdgeState
  | es, [] => (true, es)
  | es, c :: cs =>
      match c.power snapshot es with
      | (true, es') => chainPower snapshot es' cs
      | (false, es') => (false, es')

/-- From the first node a chain leads through the given nodes to the output; the edges carry
the given contacts, and no other edges leave the nodes. -/
inductive Wired (net : ContactNetwork) (output : NodeId) :
    NodeId → List NodeId → List Contact → Prop
  | last {v : NodeId} {c : Contact} (hout : net.outgoingEdges v = [⟨v, output, c⟩]) :
      Wired net output v [] [c]
  | link {v u : NodeId} {us : List NodeId} {c : Contact} {cs : List Contact}
      (hout : net.outgoingEdges v = [⟨v, u, c⟩]) (hrest : Wired net output u us cs) :
      Wired net output v (u :: us) (c :: cs)

section Chain

variable {net : ContactNetwork} {output v : NodeId} {us : List NodeId} {cs : List Contact}
  {snapshot : InputSnapshot}

/-- Kahn's traversal sees a chain. -/
theorem Wired.chain (h : Wired net output v us cs) : net.graph.Chain v us output := by
  induction h with
  | last hout => rw [Kahn.Multigraph.Chain, ContactNetwork.out_graph, hout]; rfl
  | link hout _ ih =>
      refine ⟨?_, ih⟩
      rw [ContactNetwork.out_graph, hout]
      rfl

variable {s : FlowState}

/-- No power flows from a node that is not powered. -/
theorem flowNode_of_ne (h : s.nodePower v ≠ some true) : flowNode net snapshot s v = s := by
  rw [flowNode]
  split
  · rename_i htrue
    exact absurd htrue h
  · rfl

theorem foldl_flowNode_of_ne (h : ∀ u ∈ us, s.nodePower u ≠ some true) :
    us.foldl (flowNode net snapshot) s = s := by
  induction us with
  | nil => rfl
  | cons u us ih =>
      obtain ⟨hu, hus⟩ := List.forall_mem_cons.mp h
      rw [List.foldl_cons, flowNode_of_ne hu, ih hus]

theorem flowNode_of_out {w : NodeId} {c : Contact} (hout : net.outgoingEdges v = [⟨v, w, c⟩])
    (hpower : s.nodePower v = some true) :
    flowNode net snapshot s v =
      ⟨Function.update s.nodePower w
        (some ((s.nodePower w).getD false || (c.power snapshot s.edgeState).1)),
        (c.power snapshot s.edgeState).2⟩ := by
  simp only [flowNode, hpower, hout, List.foldl_cons, List.foldl_nil, flowEdge]

theorem chainPower_cons (es : EdgeState) (c : Contact) :
    chainPower snapshot es (c :: cs) =
      if (c.power snapshot es).1 then chainPower snapshot (c.power snapshot es).2 cs
      else c.power snapshot es := by
  rw [chainPower]
  rcases c.power snapshot es with ⟨_ | _, es'⟩ <;> rfl

theorem chainPower_singleton (es : EdgeState) (c : Contact) :
    chainPower snapshot es [c] = c.power snapshot es := by
  rw [chainPower_cons]
  rcases c.power snapshot es with ⟨_ | _, es'⟩ <;> rfl

/-- Power flows along a chain as its contacts pass it. -/
theorem Wired.flow (h : Wired net output v us cs) (snapshot : InputSnapshot) (hnodup : us.Nodup)
    (hv : v ∉ us) (houtput : output ∉ us) (hpower : s.nodePower v = some true)
    (hus : ∀ u ∈ us, s.nodePower u = none) :
    ((v :: us).foldl (flowNode net snapshot) s).edgeState =
        (chainPower snapshot s.edgeState cs).2 ∧
      (((v :: us).foldl (flowNode net snapshot) s).nodePower output).getD false =
        ((s.nodePower output).getD false || (chainPower snapshot s.edgeState cs).1) ∧
      ∀ u, u ∉ us → u ≠ output →
        ((v :: us).foldl (flowNode net snapshot) s).nodePower u = s.nodePower u := by
  induction h generalizing s with
  | @last v c hout =>
      rw [List.foldl_cons, List.foldl_nil, flowNode_of_out hout hpower, chainPower_singleton]
      refine ⟨rfl, ?_, fun u _ hu => Function.update_of_ne hu _ _⟩
      simp only [Function.update_self, Option.getD_some]
  | @link v u us c cs hout hrest ih =>
      obtain ⟨hu, hnodup'⟩ := List.nodup_cons.mp hnodup
      obtain ⟨hou, hous⟩ := not_or.mp (List.mem_cons.not.mp houtput)
      obtain ⟨hnone, hnones⟩ := List.forall_mem_cons.mp hus
      rw [List.foldl_cons, flowNode_of_out hout hpower, hnone, chainPower_cons]
      have hinner : ∀ w ∈ us, w ≠ u := fun w hw => ne_of_mem_of_not_mem hw hu
      cases hc : (c.power snapshot s.edgeState).1 with
      | true =>
          obtain ⟨hes, hout', hsame⟩ := ih (s := ⟨Function.update s.nodePower u (some true),
            (c.power snapshot s.edgeState).2⟩) hnodup' hu hous (Function.update_self ..)
            fun w hw => (Function.update_of_ne (hinner w hw) _ _).trans (hnones w hw)
          refine ⟨hes, ?_, fun w hw hwo => ?_⟩
          · refine hout'.trans ?_
            simp only [Function.update_of_ne hou, if_true]
          · obtain ⟨hwu, hwus⟩ := not_or.mp (List.mem_cons.not.mp hw)
            refine (hsame w hwus hwo).trans ?_
            exact Function.update_of_ne hwu _ _
      | false =>
          -- no power flows on
          have hstop : ∀ w ∈ u :: us, Function.update s.nodePower u
              (some ((none : Option Bool).getD false || false)) w ≠ some true := by
            intro w hw
            rcases List.mem_cons.mp hw with rfl | hw
            · rw [Function.update_self]
              nofun
            · rw [Function.update_of_ne (hinner w hw), hnones w hw]
              nofun
          rw [foldl_flowNode_of_ne hstop]
          refine ⟨by simp, ?_, fun w hw _ => ?_⟩
          · simp [Function.update_of_ne hou, hc]
          · exact Function.update_of_ne (not_or.mp (List.mem_cons.not.mp hw)).1 _ _

end Chain

/-! ### The shape of the edges -/

/-- The elements with a key that no two elements share. -/
theorem filter_key_eq {β : Type} {key : β → ℕ} {as : List β} {a : β} (ha : a ∈ as)
    (huniq : as.Pairwise fun b c => key b = key c → key b ≠ key a) :
    as.filter (fun b => key b = key a) = [a] := by
  induction as with
  | nil => cases ha
  | cons b as ih =>
      obtain ⟨hb, hrest⟩ := List.pairwise_cons.mp huniq
      by_cases hkey : key b = key a
      · have hnil : as.filter (fun c => key c = key a) = [] :=
          List.filter_eq_nil_iff.mpr fun c hc hc' =>
            hb c hc (hkey.trans (of_decide_eq_true hc').symm) hkey
        rw [List.filter_cons, if_pos (decide_eq_true hkey), hnil]
        rcases List.mem_cons.mp ha with rfl | ha
        · rfl
        · exact absurd hkey (hb a ha hkey)
      · rw [List.filter_cons, if_neg (by simpa using hkey)]
        exact ih ((List.mem_cons.mp ha).resolve_left fun h => hkey (h ▸ rfl)) hrest

/-- The sources and the targets of the edges of a branch. -/
theorem mem_branchEdges {w prev next : ℕ} {cs : List Contact} {e : ContactEdge}
    (he : e ∈ branchEdges w prev next cs) :
    (e.source = prev ∨ next ≤ e.source ∧ e.source < next + (cs.length - 1)) ∧
      (e.target = w ∨ next ≤ e.target ∧ e.target < next + (cs.length - 1)) := by
  induction cs generalizing prev next with
  | nil => cases he
  | cons c cs ih =>
      cases cs with
      | nil =>
          obtain rfl := List.mem_singleton.mp he
          exact ⟨Or.inl rfl, Or.inl rfl⟩
      | cons c' cs =>
          have hlength : next + 1 + ((c' :: cs).length - 1) =
              next + ((c :: c' :: cs).length - 1) := by
            simp only [List.length_cons]
            omega
          rcases List.mem_cons.mp he with rfl | he
          · refine ⟨Or.inl rfl, Or.inr ⟨le_rfl, ?_⟩⟩
            rw [← hlength]
            exact Nat.lt_add_right _ (Nat.lt_succ_self next)
          · obtain ⟨hsource, htarget⟩ := ih he
            rw [hlength] at hsource htarget
            refine ⟨Or.inr ?_, htarget.imp_right fun h => ⟨Nat.le_of_succ_le h.1, h.2⟩⟩
            rcases hsource with rfl | h
            · rw [← hlength]
              exact ⟨le_rfl, Nat.lt_add_right _ (Nat.lt_succ_self _)⟩
            · exact ⟨Nat.le_of_succ_le h.1, h.2⟩

/-- The edges of a branch leave different nodes. -/
theorem pairwise_branchEdges {w prev next : ℕ} (hprev : prev < next) (cs : List Contact) :
    (branchEdges w prev next cs).Pairwise fun a b => a.source ≠ b.source := by
  induction cs generalizing prev next with
  | nil => exact .nil
  | cons c cs ih =>
      cases cs with
      | nil => exact List.pairwise_singleton _ _
      | cons c' cs =>
          refine List.pairwise_cons.mpr ⟨fun e he hsame => ?_, ih (Nat.lt_succ_self next)⟩
          rcases (mem_branchEdges he).1 with h | h
          · exact hprev.ne (hsame.trans h)
          · have hle := h.1
            rw [← hsame] at hle
            exact absurd (hprev.trans_le (Nat.le_of_succ_le hle)) (lt_irrefl prev)

/-- A branch is a chain, when no other edges leave its nodes. -/
theorem wired_of_out {net : ContactNetwork} {w prev next : NodeId} {cs : List Contact}
    (hcs : cs ≠ [])
    (hout : ∀ e ∈ branchEdges w prev next cs, net.outgoingEdges e.source = [e]) :
    Wired net w prev (List.range' next (cs.length - 1)) cs := by
  induction cs generalizing prev next with
  | nil => exact absurd rfl hcs
  | cons c cs ih =>
      cases cs with
      | nil => exact .last (hout _ List.mem_cons_self)
      | cons c' cs =>
          refine .link (hout _ List.mem_cons_self) ?_
          exact ih (List.cons_ne_nil _ _) fun e he => hout e (List.mem_cons_of_mem _ he)

section Evaluate

variable {net : ContactNetwork} {size : ℕ} {edges : List ContactEdge} {output : NodeId}
  {leftRail outputNode : Option NodeId}

theorem IsBuilt.out_eq (h : IsBuilt net size edges leftRail outputNode) (v : NodeId) :
    net.outgoingEdges v = edges.filter fun e => e.source = v := by
  rw [← h.edges_eq]
  exact net.outgoing_eq v

theorem IsBuilt.pending_eq (h : IsBuilt net size edges leftRail outputNode) (v : NodeId) :
    net.graph.pending [] v = (edges.map ContactEdge.target).count v := by
  rw [Kahn.Multigraph.pending, ← h.edges_eq, List.count_eq_countP, List.countP_map]
  refine List.countP_congr fun e _ => ?_
  simp [ContactNetwork.graph]

/-- Power at the left rail, before any node is visited. -/
def railPower (es : EdgeState) : FlowState :=
  ⟨Function.update (fun _ => none) 0 (some true), es⟩

theorem railPower_zero (es : EdgeState) : (railPower es).nodePower 0 = some true := by
  simp only [railPower, Function.update_self]

theorem railPower_of_ne (es : EdgeState) {v : NodeId} (hv : v ≠ 0) :
    (railPower es).nodePower v = none := by
  simp only [railPower, Function.update_of_ne hv]

/-- The evaluation of a built network sends power along the order of Kahn's traversal. -/
theorem IsBuilt.evaluate (h : IsBuilt net size edges (some 0) (some output))
    (hpos : 0 < size) (htarget : ∀ e ∈ edges, e.target < size) {s : Kahn.State NodeId}
    (hexec : Exec (Kahn.step Panic net.graph) ⟨net.graph.pending [], [0], []⟩ (.ok s))
    (snapshot : InputSnapshot) (es : EdgeState) :
    ∃ fuel net', evaluatePowerFlow fuel net snapshot es = some (.ok
        (((s.order.foldl (flowNode net snapshot) (railPower es)).nodePower output).getD false,
          net', (s.order.foldl (flowNode net snapshot) (railPower es)).edgeState)) ∧
      net'.edges = edges := by
  have hbounds : net.InBounds := by
    refine ⟨fun e he => ?_, fun r hr => ?_⟩
    · rw [h.length_nodes]
      exact htarget e (h.edges_eq ▸ he)
    · rw [h.leftRail_eq] at hr
      rw [h.length_nodes, ← Option.some.inj hr]
      exact hpos
  have hseeds : Kahn.start net.graph (net.seeds net.leftRail) =
      ⟨net.graph.pending [], [0], []⟩ := by
    rw [h.leftRail_eq]
    rfl
  obtain ⟨fuel, hrebuild⟩ := ContactNetwork.rebuildTopo_of_exec hbounds (hseeds ▸ hexec)
  have horder : net.topologicalOrder fuel = net.rebuildTopo fuel := by
    rw [ContactNetwork.topologicalOrder, h.dirty, if_pos rfl]
  obtain ⟨net', hnet', hflow, hedges⟩ : ∃ net', net.topologicalOrder fuel = some (.ok net') ∧
      flowFrom net' snapshot es 0 = s.order.foldl (flowNode net snapshot) (railPower es) ∧
      net'.edges = net.edges :=
    ⟨_, horder.trans hrebuild, rfl, rfl⟩
  refine ⟨fuel, net', ?_, hedges.trans h.edges_eq⟩
  rw [evaluatePowerFlow, h.leftRail_eq, h.outputNode_eq, hnet', ← hflow]
  rfl

/-- An edge that shares its source with no other one is the only edge out of it. -/
theorem IsBuilt.out_of_unique (h : IsBuilt net size edges leftRail outputNode) {e : ContactEdge}
    (he : e ∈ edges) (huniq : edges.Pairwise fun a b => a.source = b.source → a.source ≠ e.source) :
    net.outgoingEdges e.source = [e] := by
  rw [h.out_eq]
  exact filter_key_eq he huniq

/-- No edge leads from a node that is no source. -/
theorem IsBuilt.out_nil (h : IsBuilt net size edges leftRail outputNode) {v : NodeId}
    (hv : ∀ e ∈ edges, e.source ≠ v) : net.outgoingEdges v = [] := by
  rw [h.out_eq]
  exact List.filter_eq_nil_iff.mpr fun e he hsrc => hv e he (of_decide_eq_true hsrc)

end Evaluate

/-- The targets of a branch are the nodes between its ends, and the output. -/
theorem map_target_branchEdges (w prev next : ℕ) {cs : List Contact} (hcs : cs ≠ []) :
    (branchEdges w prev next cs).map ContactEdge.target =
      List.range' next (cs.length - 1) ++ [w] := by
  induction cs generalizing prev next with
  | nil => exact absurd rfl hcs
  | cons c cs ih =>
      cases cs with
      | nil => rfl
      | cons c' cs =>
          rw [branchEdges, List.map_cons, ih _ _ (List.cons_ne_nil _ _)]
          rfl

theorem map_contact_branchEdges (w prev next : ℕ) (cs : List Contact) :
    (branchEdges w prev next cs).map ContactEdge.contact = cs := by
  induction cs generalizing prev next with
  | nil => rfl
  | cons c cs ih =>
      cases cs with
      | nil => rfl
      | cons c' cs => exact congrArg (c :: ·) (ih _ _)

/-! ### Contacts in series -/

/-- The network of contacts in series passes power as the chain of the contacts does. -/
theorem evaluate_serial (contacts : List Contact) (snapshot : InputSnapshot)
    (es : EdgeState) :
    ∃ net, buildSerialNetwork contacts = .ok net ∧ ∃ fuel net',
      evaluatePowerFlow fuel net snapshot es = some (.ok
        ((chainPower snapshot es contacts).1, net', (chainPower snapshot es contacts).2)) ∧
      net'.edges.map ContactEdge.contact = contacts := by
  obtain ⟨net, hbuild, hnet⟩ := buildSerialNetwork_isBuilt contacts
  refine ⟨net, hbuild, ?_⟩
  cases contacts with
  | nil =>
      have hout : net.graph.out 0 = [] := by
        rw [ContactNetwork.out_graph]
        exact hnet.out_nil (List.forall_mem_nil _)
      have hexec := Kahn.exec_last Panic hout (net.graph.pending []) []
      obtain ⟨fuel, net', heval, hedges⟩ := hnet.evaluate Nat.one_pos (List.forall_mem_nil _)
        hexec snapshot es
      refine ⟨fuel, net', ?_, by rw [hedges]; rfl⟩
      have hflow : flowNode net snapshot (railPower es) 0 = railPower es := by
        rw [ContactNetwork.out_graph] at hout
        simp only [flowNode, railPower, Function.update_self, hout, List.foldl_nil]
      rw [heval, List.nil_append, List.foldl_cons, List.foldl_nil, hflow]
      rfl
  | cons c cs =>
      have hne : c :: cs ≠ [] := List.cons_ne_nil c cs
      change IsBuilt net (cs.length + 1 + 1) (branchEdges (cs.length + 1) 0 1 (c :: cs)) (some 0)
        (some (cs.length + 1)) at hnet
      have hmap : (branchEdges (cs.length + 1) 0 1 (c :: cs)).map ContactEdge.target =
          List.range' 1 cs.length ++ [cs.length + 1] := map_target_branchEdges _ 0 1 hne
      have hlast : cs.length + 1 ∉ List.range' 1 cs.length := by
        rw [List.mem_range'_1]
        omega
      have hnodup : (List.range' 1 cs.length ++ [cs.length + 1]).Nodup :=
        List.nodup_append.mpr ⟨List.nodup_range', List.nodup_singleton _, fun u hu v hv =>
          List.mem_singleton.mp hv ▸ ne_of_mem_of_not_mem hu hlast⟩
      have hwired : Wired net (cs.length + 1) 0 (List.range' 1 cs.length) (c :: cs) := by
        refine wired_of_out hne fun e he => hnet.out_of_unique he ?_
        exact (pairwise_branchEdges Nat.zero_lt_one (c :: cs)).imp fun hne heq => absurd heq hne
      have hdegree : ∀ u ∈ List.range' 1 cs.length ++ [cs.length + 1],
          net.graph.pending [] u = 1 := by
        intro u hu
        rw [hnet.pending_eq, hmap]
        exact List.count_eq_one_of_mem hnodup hu
      have hbound : ∀ e ∈ branchEdges (cs.length + 1) 0 1 (c :: cs),
          e.source < cs.length + 1 ∧ e.target < cs.length + 1 + 1 := by
        intro e he
        have hinner : 1 + ((c :: cs).length - 1) = cs.length + 1 := Nat.add_comm 1 cs.length
        obtain ⟨hsource, htarget⟩ := mem_branchEdges he
        rw [hinner] at hsource htarget
        constructor
        · exact hsource.elim (fun h => h ▸ Nat.succ_pos _) And.right
        · exact htarget.elim (fun h => h ▸ Nat.lt_succ_self _) fun h => Nat.lt_succ_of_lt h.2
      have hnil : net.outgoingEdges (cs.length + 1) = [] :=
        hnet.out_nil fun e he => (hbound e he).1.ne
      obtain ⟨s, hexec, horder⟩ := Kahn.exec_chains Panic [(0, List.range' 1 cs.length)]
        ((ContactNetwork.out_graph _).trans hnil) (List.forall_mem_singleton.mpr hwired.chain)
        (List.cons_ne_nil _ _) (by simpa using List.nodup_range') (by simpa using hlast)
        (net.graph.pending []) (fun u hu => hdegree u (List.mem_append_left _ (by simpa using hu)))
        (hdegree _ (List.mem_append_right _ List.mem_cons_self)) []
      obtain ⟨fuel, net', heval, hedges⟩ := hnet.evaluate (Nat.succ_pos _)
        (fun e he => (hbound e he).2) hexec snapshot es
      refine ⟨fuel, net', ?_, by rw [hedges, map_contact_branchEdges]⟩
      have hzero : 0 ∉ List.range' 1 cs.length := by
        rw [List.mem_range'_1]
        omega
      obtain ⟨hes, hpower, -⟩ := hwired.flow snapshot List.nodup_range' hzero hlast
        (railPower_zero es) fun u hu => railPower_of_ne es (ne_of_mem_of_not_mem hu hzero)
      have hrail : (railPower es).nodePower (cs.length + 1) = none :=
        railPower_of_ne es (Nat.succ_ne_zero _)
      have hend : ∀ f : FlowState, flowNode net snapshot f (cs.length + 1) = f := by
        intro f
        rw [flowNode, hnil]
        split <;> rfl
      have hfold : s.order.foldl (flowNode net snapshot) (railPower es) =
          (0 :: List.range' 1 cs.length).foldl (flowNode net snapshot) (railPower es) := by
        rw [horder]
        simp only [List.nil_append, List.flatMap_cons, List.flatMap_nil, List.append_nil,
          List.foldl_append, List.foldl_cons, List.foldl_nil, hend]
      rw [heval, hfold, hes, hpower, hrail]
      rfl

end Weftik.Ld
