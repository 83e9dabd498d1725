import Weftik.Ld.SerialPower

/-!
# The Power of Parallel Branches

In the network of parallel branches the first contacts of all branches leave the left rail,
and are asked before all others. The traversal then follows the branches from the last one
to the first.

## Main definitions

* `askFirsts`, `askRests`: the first contacts of the branches, and the others.
* `branchesPower`: the power of parallel branches.

## Main results

* `evaluate_parallel`: the evaluation of the network of parallel branches.
-/

open Machine

namespace Weftik.Ld

/-! ### Asking the branches -/

/-- Ask the first contacts of some branches: for each branch, whether its first contact
passes power, and its other contacts. -/
def askFirsts (snapshot : InputSnapshot) :
    EdgeState → List (List Contact) → List (Bool × List Contact) × EdgeState
  | es, [] => ([], es)
  | es, [] :: bs => askFirsts snapshot es bs
  | es, (c :: cs) :: bs =>
      let (power, es) := c.power snapshot es
      let (asked, es) := askFirsts snapshot es bs
      ((power, cs) :: asked, es)

/-- Ask the other contacts of the branches, the last branch first: does one of the branches
pass power? -/
def askRests (snapshot : InputSnapshot) : List (Bool × List Contact) → EdgeState → Bool × EdgeState
  | [], es => (false, es)
  | (power, cs) :: asked, es =>
      let (others, es) := askRests snapshot asked es
      if power then
        let (rest, es) := chainPower snapshot es cs
        (others || rest, es)
      else (others, es)

theorem askRests_cons (snapshot : InputSnapshot) (power : Bool) (cs : List Contact)
    (asked : List (Bool × List Contact)) (es : EdgeState) :
    askRests snapshot ((power, cs) :: asked) es =
      if power then
        ((askRests snapshot asked es).1 ||
            (chainPower snapshot (askRests snapshot asked es).2 cs).1,
          (chainPower snapshot (askRests snapshot asked es).2 cs).2)
      else askRests snapshot asked es := by
  cases power <;> rfl

/-- The power of some branches in parallel. -/
def branchesPower (snapshot : InputSnapshot) (es : EdgeState) (branches : List (List Contact)) :
    Bool × EdgeState :=
  let (asked, es) := askFirsts snapshot es branches
  askRests snapshot asked es

/-! ### The parts of the network -/

/-- The edges that leave the left rail. -/
def firstEdges : ℕ → List (List Contact) → List ContactEdge
  | _, [] => []
  | next, [] :: bs => firstEdges next bs
  | next, (c :: cs) :: bs =>
      ⟨0, if cs = [] then 1 else next, c⟩ :: firstEdges (next + cs.length) bs

/-- The branches that have more than one contact: the node behind the first contact, and the
other contacts. -/
def strands : ℕ → List (List Contact) → List (ℕ × List Contact)
  | _, [] => []
  | next, cs :: rests =>
      (if cs = [] then [] else [(next, cs)]) ++ strands (next + cs.length) rests

/-- The nodes of such a branch, between the left rail and the output. -/
def strandNodes (strand : ℕ × List Contact) : ℕ × List ℕ :=
  (strand.1, List.range' (strand.1 + 1) (strand.2.length - 1))

/-- The contacts of some branches behind the first ones. -/
abbrev rests (branches : List (List Contact)) : List (List Contact) := branches.map List.tail

section Parts

variable {next : ℕ} {branches : List (List Contact)}

theorem filter_source_branchEdges (hnext : 0 < next) (c : Contact) (cs : List Contact) :
    (branchEdges 1 0 next (c :: cs)).filter (fun e => e.source = 0) =
      [⟨0, if cs = [] then 1 else next, c⟩] := by
  have hmem : (⟨0, if cs = [] then 1 else next, c⟩ : ContactEdge) ∈
      branchEdges 1 0 next (c :: cs) := by
    cases cs with
    | nil => exact List.mem_cons_self
    | cons c' cs => exact List.mem_cons_self
  exact filter_key_eq hmem
    ((pairwise_branchEdges hnext (c :: cs)).imp fun hne heq => absurd heq hne)

/-- The edges out of the left rail. -/
theorem filter_source_parallelEdges (hnext : 0 < next) (hne : ∀ b ∈ branches, b ≠ []) :
    (parallelEdges next branches).filter (fun e => e.source = 0) = firstEdges next branches := by
  induction branches generalizing next with
  | nil => rfl
  | cons b branches ih =>
      obtain ⟨hb, hbs⟩ := List.forall_mem_cons.mp hne
      cases b with
      | nil => exact absurd rfl hb
      | cons c cs =>
          rw [parallelEdges, List.filter_append, filter_source_branchEdges hnext,
            ih (Nat.add_pos_left hnext _) hbs]
          rfl

/-- The nodes behind the first contacts are those between the rail and the output. -/
theorem filter_target_firstEdges (hnext : 1 < next) (hne : ∀ b ∈ branches, b ≠ []) :
    ((firstEdges next branches).map ContactEdge.target).filter (· ≠ 1) =
      (strands next (rests branches)).map Prod.fst := by
  induction branches generalizing next with
  | nil => rfl
  | cons b branches ih =>
      obtain ⟨hb, hbs⟩ := List.forall_mem_cons.mp hne
      cases b with
      | nil => exact absurd rfl hb
      | cons c cs =>
          have hrest := ih (Nat.lt_add_right cs.length hnext) hbs
          have hrests : rests ((c :: cs) :: branches) = cs :: rests branches := rfl
          rw [firstEdges, List.map_cons, List.filter_cons, hrest, hrests, strands]
          by_cases hcs : cs = []
          · subst hcs
            simp
          · have hnext' : next ≠ 1 := hnext.ne'
            simp [hcs, hnext']

/-- All nodes between the rail and the output. -/
theorem flatMap_strandNodes (rests : List (List Contact)) :
    (strands next rests).flatMap (fun s => (strandNodes s).1 :: (strandNodes s).2) =
      List.range' next (rests.map List.length).sum := by
  induction rests generalizing next with
  | nil => rfl
  | cons cs rests ih =>
      rw [strands, List.flatMap_append, ih, List.map_cons, List.sum_cons]
      cases cs with
      | nil => simp
      | cons c cs =>
          rw [← List.range'_append_1, if_neg (List.cons_ne_nil c cs), List.flatMap_singleton,
            List.length_cons, List.range'_succ]
          rfl

/-- The targets of the edges: each of these nodes once, and the output once for each
branch. -/
theorem filter_target_parallelEdges (hnext : 1 < next) (hne : ∀ b ∈ branches, b ≠ []) :
    ((parallelEdges next branches).map ContactEdge.target).filter (· ≠ 1) =
        List.range' next ((rests branches).map List.length).sum ∧
      ((parallelEdges next branches).map ContactEdge.target).count 1 =
        ((firstEdges next branches).map ContactEdge.target).count 1 +
          (strands next (rests branches)).length := by
  induction branches generalizing next with
  | nil => exact ⟨rfl, rfl⟩
  | cons b branches ih =>
      obtain ⟨hb, hbs⟩ := List.forall_mem_cons.mp hne
      cases b with
      | nil => exact absurd rfl hb
      | cons c cs =>
          have hrests : rests ((c :: cs) :: branches) = cs :: rests branches := rfl
          obtain ⟨hfilter, hcount⟩ := ih (Nat.lt_add_right cs.length hnext) hbs
          have hone : (List.range' next cs.length).filter (· ≠ 1) = List.range' next cs.length :=
            List.filter_eq_self.mpr fun u hu => by
              have hle := (List.mem_range'_1.mp hu).1
              exact decide_eq_true (by omega)
          have hzero : (List.range' next cs.length).count 1 = 0 := by
            rw [List.count_eq_zero, List.mem_range'_1]
            omega
          have hlen : (c :: cs).length - 1 = cs.length := rfl
          rw [parallelEdges, List.map_append,
            map_target_branchEdges 1 0 next (List.cons_ne_nil c cs), hrests, hlen, strands,
            firstEdges]
          constructor
          · rw [List.filter_append, List.filter_append, hone, hfilter, List.map_cons,
              List.sum_cons, ← List.range'_append_1]
            simp
          · rw [List.count_append, List.count_append, hzero, hcount, List.map_cons,
              List.count_cons, List.length_append]
            have hnext' : next ≠ 1 := hnext.ne'
            by_cases hcs : cs = []
            · simp [hcs]
              omega
            · simp [hcs, hnext']
              omega

end Parts

/-- The sources and the targets of the edges of a parallel network. -/
theorem mem_parallelEdges {next : ℕ} {branches : List (List Contact)} {e : ContactEdge}
    (he : e ∈ parallelEdges next branches) :
    (e.source = 0 ∨ next ≤ e.source ∧ e.source < next + innerNodes branches) ∧
      (e.target = 1 ∨ next ≤ e.target ∧ e.target < next + innerNodes branches) := by
  induction branches generalizing next with
  | nil => cases he
  | cons b branches ih =>
      have hinner : next + innerNodes (b :: branches) =
          next + (b.length - 1) + innerNodes branches := (Nat.add_assoc _ _ _).symm
      rw [hinner]
      rcases List.mem_append.mp he with he | he
      · obtain ⟨hsource, htarget⟩ := mem_branchEdges he
        exact ⟨hsource.imp_right fun h => ⟨h.1, Nat.lt_add_right _ h.2⟩,
          htarget.imp_right fun h => ⟨h.1, Nat.lt_add_right _ h.2⟩⟩
      · obtain ⟨hsource, htarget⟩ := ih he
        exact ⟨hsource.imp_right fun h => ⟨(Nat.le_add_right _ _).trans h.1, h.2⟩,
          htarget.imp_right fun h => ⟨(Nat.le_add_right _ _).trans h.1, h.2⟩⟩

/-- No two edges leave the same node between the rail and the output. -/
theorem pairwise_parallelEdges {next : ℕ} (hnext : 0 < next) (branches : List (List Contact)) :
    (parallelEdges next branches).Pairwise
      fun a b => a.source = b.source → a.source = 0 := by
  induction branches generalizing next with
  | nil => exact .nil
  | cons b branches ih =>
      refine List.pairwise_append.mpr ⟨?_, ih (Nat.add_pos_left hnext _), fun e he e' he' => ?_⟩
      · exact (pairwise_branchEdges hnext b).imp fun hne heq => absurd heq hne
      · intro hsame
        rcases (mem_branchEdges he).1 with h | h
        · exact h
        · rcases (mem_parallelEdges he').1 with h' | h'
          · exact hsame.trans h'
          · exact absurd (hsame ▸ h.2) (Nat.not_lt.mpr h'.1)

/-- Each branch with more than one contact is a chain from the node behind its first
contact. -/
theorem wired_strands {net : ContactNetwork} {next : ℕ} {branches : List (List Contact)}
    (hnext : 0 < next) (hne : ∀ b ∈ branches, b ≠ [])
    (hout : ∀ e ∈ parallelEdges next branches, e.source ≠ 0 →
      net.outgoingEdges e.source = [e]) :
    ∀ s ∈ strands next (rests branches),
      Wired net 1 (strandNodes s).1 (strandNodes s).2 s.2 := by
  induction branches generalizing next with
  | nil => exact List.forall_mem_nil _
  | cons b branches ih =>
      obtain ⟨hb, hbs⟩ := List.forall_mem_cons.mp hne
      cases b with
      | nil => exact absurd rfl hb
      | cons c cs =>
          have hrest := ih (Nat.add_pos_left hnext cs.length) hbs fun e he =>
            hout e (List.mem_append_right _ he)
          cases cs with
          | nil => exact hrest
          | cons c' cs =>
              refine List.forall_mem_cons.mpr ⟨?_, hrest⟩
              refine wired_of_out (List.cons_ne_nil _ _) fun e he => ?_
              refine hout e (List.mem_append_left _ (List.mem_cons_of_mem _ he)) ?_
              rcases (mem_branchEdges he).1 with h | h
              · rw [h]
                exact hnext.ne'
              · exact (hnext.trans_le (Nat.le_of_succ_le h.1)).ne'

/-! ### The order of the nodes -/

section Order

variable {net : ContactNetwork} {branches : List (List Contact)}

/-- The network of the branches. -/
abbrev IsParallel (net : ContactNetwork) (branches : List (List Contact)) : Prop :=
  IsBuilt net (2 + innerNodes branches) (parallelEdges 2 branches) (some 0) (some 1)

/-- The nodes between the rail and the output, in the order of the traversal. -/
def innerOrder (branches : List (List Contact)) : List NodeId :=
  (strands 2 (rests branches)).reverse.flatMap fun s => (strandNodes s).1 :: (strandNodes s).2

/-- No edge leaves the output. -/
theorem out_output (hnet : IsParallel net branches) : net.outgoingEdges 1 = [] := by
  refine hnet.out_nil fun e he hsource => ?_
  rcases (mem_parallelEdges he).1 with h | h
  · exact absurd (hsource.symm.trans h) Nat.one_ne_zero
  · exact absurd (hsource ▸ h.1) (by decide)

/-- The branches are chains. -/
theorem wired_parallel (hnet : IsParallel net branches) (hne : ∀ b ∈ branches, b ≠ []) :
    ∀ s ∈ strands 2 (rests branches), Wired net 1 (strandNodes s).1 (strandNodes s).2 s.2 := by
  refine wired_strands Nat.two_pos hne fun e he hsource => hnet.out_of_unique he ?_
  exact (pairwise_parallelEdges Nat.two_pos branches).imp fun hpair heq hsame =>
    hsource (hsame.symm.trans (hpair heq))

/-- The first round queues the nodes behind the first contacts, or the output when there are
none. -/
theorem step_rail (hnet : IsParallel net branches) (hne : ∀ b ∈ branches, b ≠ []) :
    Kahn.step Panic net.graph ⟨net.graph.pending [], [0], []⟩ =
      .next (((firstEdges 2 branches).map ContactEdge.target).foldl Kahn.relax
        ⟨net.graph.pending [], [], [0]⟩) := by
  have hout : net.graph.out 0 = firstEdges 2 branches := by
    rw [ContactNetwork.out_graph, hnet.out_eq]
    exact filter_source_parallelEdges Nat.two_pos hne
  simp only [Kahn.step, Kahn.visit, hout, List.nil_append]
  rfl

/-- The order of the nodes: the rail, the branches from the last one to the first, and the
output. -/
theorem exec_parallel (hnet : IsParallel net branches) (hbranches : branches ≠ [])
    (hne : ∀ b ∈ branches, b ≠ []) :
    ∃ s, Exec (Kahn.step Panic net.graph) ⟨net.graph.pending [], [0], []⟩ (.ok s) ∧
      s.order = 0 :: innerOrder branches ++ [1] := by
  set ts := (firstEdges 2 branches).map ContactEdge.target with hts
  have hfirsts : ts.filter (· ≠ 1) = (strands 2 (rests branches)).map Prod.fst :=
    filter_target_firstEdges Nat.one_lt_two hne
  obtain ⟨htargets, hcount⟩ := filter_target_parallelEdges Nat.one_lt_two hne
  rw [← hnet.pending_eq, ← hts] at hcount
  have hout : net.graph.out 1 = [] := (ContactNetwork.out_graph 1).trans (out_output hnet)
  have hstep := step_rail hnet hne
  rw [← hts] at hstep
  by_cases hnil : strands 2 (rests branches) = []
  · -- all branches have one contact
    have hall : ∀ t ∈ ts, t = 1 := by
      intro t ht
      by_contra ht1
      have hmem : t ∈ ts.filter (· ≠ 1) := List.mem_filter.mpr ⟨ht, decide_eq_true ht1⟩
      rw [hfirsts, hnil] at hmem
      cases hmem
    have hreplicate := List.eq_replicate_of_mem hall
    have hlength : ts.length ≠ 0 := by
      cases branches with
      | nil => exact absurd rfl hbranches
      | cons b bs =>
          cases b with
          | nil => exact absurd rfl (hne [] List.mem_cons_self)
          | cons c cs => exact Nat.succ_ne_zero _
    have hend : net.graph.pending [] 1 = ts.length := by
      rw [hcount, hnil, List.count_eq_length.mpr fun t ht => (hall t ht).symm]
      rfl
    obtain ⟨degree', hfold⟩ := Kahn.foldl_relax_replicate hlength hend [] [0]
    rw [← hreplicate] at hfold
    refine ⟨_, .next (hstep.trans (congrArg _ hfold)) (Kahn.exec_last Panic hout _ _), ?_⟩
    rw [innerOrder, hnil]
    rfl
  · set L := strands 2 (rests branches) with hL
    have hperm : (L.map Prod.fst ++ L.flatMap fun s => (strandNodes s).2).Perm
        (List.range' 2 ((rests branches).map List.length).sum) := by
      rw [← flatMap_strandNodes, ← hL]
      have h := List.flatMap_append_perm L (fun s => [(strandNodes s).1])
        fun s => (strandNodes s).2
      rwa [← List.map_eq_flatMap] at h
    obtain ⟨hnodupFst, hnodupSnd, hdisjoint⟩ :=
      List.nodup_append.mp (hperm.nodup_iff.mpr List.nodup_range')
    have hone : ∀ u ∈ List.range' 2 ((rests branches).map List.length).sum,
        u ≠ 1 ∧ net.graph.pending [] u = 1 := by
      intro u hu
      have hu1 : u ≠ 1 := by
        have hle := (List.mem_range'_1.mp hu).1
        omega
      refine ⟨hu1, ?_⟩
      rw [hnet.pending_eq, ← List.count_filter (p := (· ≠ 1)) (decide_eq_true hu1), htargets]
      exact List.count_eq_one_of_mem List.nodup_range' hu
    have hfst : ∀ t ∈ ts, t ≠ 1 → t ∈ L.map Prod.fst := by
      intro t ht ht1
      rw [← hfirsts]
      exact List.mem_filter.mpr ⟨ht, decide_eq_true ht1⟩
    have hsnd : ∀ u ∈ L.flatMap (fun s => (strandNodes s).2), u ≠ 1 ∧ net.graph.pending [] u = 1 :=
      fun u hu => hone u (hperm.mem_iff.mp (List.mem_append_right _ hu))
    have hpos : ts.count 1 < net.graph.pending [] 1 := by
      rw [hcount]
      exact Nat.lt_add_of_pos_right (List.length_pos_of_ne_nil hnil)
    obtain ⟨degree', hfold, hend, hsame⟩ := Kahn.foldl_relax_firsts
      (fun t ht ht1 => (hone t (hperm.mem_iff.mp (List.mem_append_left _ (hfst t ht ht1)))).2)
      (hfirsts ▸ hnodupFst) hpos [] [0]
    have hchains : (L.reverse.map strandNodes).flatMap Prod.snd =
        L.reverse.flatMap fun s => (strandNodes s).2 := List.flatMap_map ..
    have hpermSnd : ((L.reverse.map strandNodes).flatMap Prod.snd).Perm
        (L.flatMap fun s => (strandNodes s).2) := by
      rw [hchains]
      exact (List.reverse_perm L).flatMap_right _
    have hdegree : ∀ u ∈ (L.reverse.map strandNodes).flatMap Prod.snd, degree' u = 1 := by
      intro u hu
      have hu := hpermSnd.mem_iff.mp hu
      rw [hsame u fun ht => hdisjoint u (hfst u ht (hsnd u hu).1) u hu rfl]
      exact (hsnd u hu).2
    have hchain : ∀ c ∈ L.reverse.map strandNodes, net.graph.Chain c.1 c.2 1 := by
      intro c hc
      obtain ⟨s, hs, rfl⟩ := List.mem_map.mp hc
      exact (wired_parallel hnet hne s (List.mem_reverse.mp hs)).chain
    obtain ⟨s, hexec, horder⟩ := Kahn.exec_chains Panic (L.reverse.map strandNodes) hout hchain
      (by simpa using hnil) (hpermSnd.nodup_iff.mpr hnodupSnd)
      (fun h => (hsnd 1 (hpermSnd.mem_iff.mp h)).1 rfl) degree' hdegree
      (by rw [hend, hcount, List.length_map, List.length_reverse, Nat.add_sub_cancel_left]) [0]
    have hqueue : (L.reverse.map strandNodes).map Prod.fst = (ts.filter (· ≠ 1)).reverse ++ [] := by
      rw [hfirsts, List.append_nil, List.map_map, List.map_reverse]
      rfl
    rw [hqueue] at hexec
    refine ⟨s, .next (hstep.trans (congrArg _ hfold)) hexec, ?_⟩
    rw [horder, innerOrder, List.flatMap_map]
    rfl

end Order

/-! ### The flow of power -/

/-- The first contacts of the branches have been asked: a node behind a first contact is
powered as the contact says, the nodes after it are not reached, and the output is powered
when a branch of one contact passes power. -/
def Ready (s : FlowState) : ℕ → List (Bool × List Contact) → Prop
  | _, [] => True
  | next, (power, cs) :: asked =>
      (if cs = [] then power = true → (s.nodePower 1).getD false = true
        else s.nodePower next = some power ∧
          ∀ u ∈ List.range' (next + 1) (cs.length - 1), s.nodePower u = none) ∧
        Ready s (next + cs.length) asked

section Flow

variable {net : ContactNetwork} {snapshot : InputSnapshot} {branches : List (List Contact)}

/-- What is asked of the branches depends on the first contacts only. -/
theorem map_snd_askFirsts (es : EdgeState) (hne : ∀ b ∈ branches, b ≠ []) :
    (askFirsts snapshot es branches).1.map Prod.snd = rests branches := by
  induction branches generalizing es with
  | nil => rfl
  | cons b branches ih =>
      obtain ⟨hb, hbs⟩ := List.forall_mem_cons.mp hne
      cases b with
      | nil => exact absurd rfl hb
      | cons c cs => exact congrArg (cs :: ·) (ih _ hbs)

/-- A first contact is asked. -/
theorem flowEdge_first (s : FlowState) (t : NodeId) (c : Contact) :
    flowEdge snapshot s ⟨0, t, c⟩ =
      ⟨Function.update s.nodePower t
        (some ((s.nodePower t).getD false || (c.power snapshot s.edgeState).1)),
        (c.power snapshot s.edgeState).2⟩ :=
  rfl

/-- Power flows from the rail as the first contacts pass it. -/
theorem flow_firstEdges (snapshot : InputSnapshot) {next : ℕ} (hnext : 1 < next)
    (hne : ∀ b ∈ branches, b ≠ []) {s : FlowState} (hnone : ∀ u, next ≤ u → s.nodePower u = none) :
    ((firstEdges next branches).foldl (flowEdge snapshot) s).edgeState =
        (askFirsts snapshot s.edgeState branches).2 ∧
      Ready ((firstEdges next branches).foldl (flowEdge snapshot) s) next
        (askFirsts snapshot s.edgeState branches).1 ∧
      (∀ u, u < next → u ≠ 1 →
        ((firstEdges next branches).foldl (flowEdge snapshot) s).nodePower u =
          s.nodePower u) ∧
      ((((firstEdges next branches).foldl (flowEdge snapshot) s).nodePower 1).getD false = true ↔
        (s.nodePower 1).getD false = true ∨
          (true, []) ∈ (askFirsts snapshot s.edgeState branches).1) := by
  induction branches generalizing next s with
  | nil => exact ⟨rfl, trivial, fun _ _ _ => rfl, by simp [firstEdges, askFirsts]⟩
  | cons b branches ih =>
      obtain ⟨hb, hbs⟩ := List.forall_mem_cons.mp hne
      cases b with
      | nil => exact absurd rfl hb
      | cons c cs =>
          rw [firstEdges, List.foldl_cons, flowEdge_first, askFirsts]
          rcases hc : c.power snapshot s.edgeState with ⟨power, es⟩
          by_cases hcs : cs = []
          · subst hcs
            rw [if_pos rfl]
            have hnone' : ∀ u, next + 0 ≤ u → Function.update s.nodePower 1
                (some ((s.nodePower 1).getD false || power)) u = none := by
              intro u hu
              rw [Function.update_of_ne (hnext.trans_le hu).ne']
              exact hnone u hu
            obtain ⟨hes, hready, hsame, hout⟩ := ih (s := ⟨Function.update s.nodePower 1
              (some ((s.nodePower 1).getD false || power)), es⟩) hnext hbs hnone'
            simp only [Function.update_self, Option.getD_some, Bool.or_eq_true] at hout
            refine ⟨hes, ⟨?_, hready⟩, fun u hu hu1 => ?_, hout.trans ?_⟩
            · rw [if_pos rfl]
              exact fun hpower => hout.mpr (Or.inl (Or.inr hpower))
            · exact (hsame u hu hu1).trans (Function.update_of_ne hu1 _ _)
            · rw [or_assoc, List.mem_cons, Prod.mk.injEq, and_iff_left rfl, eq_comm (a := true)]
          · rw [if_neg hcs]
            have hlen : 0 < cs.length := List.length_pos_of_ne_nil hcs
            have hnone' : ∀ u, next < u → Function.update s.nodePower next
                (some ((s.nodePower next).getD false || power)) u = none := by
              intro u hu
              rw [Function.update_of_ne hu.ne']
              exact hnone u hu.le
            obtain ⟨hes, hready, hsame, hout⟩ := ih (s := ⟨Function.update s.nodePower next
              (some ((s.nodePower next).getD false || power)), es⟩)
              (Nat.lt_add_right cs.length hnext) hbs fun u hu => hnone' u (by omega)
            refine ⟨hes, ⟨?_, hready⟩, fun u hu hu1 => ?_, hout.trans (or_congr ?_ ?_)⟩
            · rw [if_neg hcs]
              refine ⟨?_, fun u hu => ?_⟩
              · have hpower : (s.nodePower next).getD false = false := by
                  rw [hnone next le_rfl]
                  rfl
                refine (hsame next (Nat.lt_add_of_pos_right hlen) hnext.ne').trans ?_
                rw [hpower, Bool.false_or]
                exact Function.update_self ..
              · obtain ⟨hle, hlt⟩ := List.mem_range'_1.mp hu
                refine (hsame u (by omega) (by omega)).trans ?_
                exact hnone' u hle
            · exact (hsame u (by omega) hu1).trans (Function.update_of_ne hu.ne _ _)
            · simp only [Function.update_of_ne hnext.ne]
            · have hnot : ((true, []) : Bool × List Contact) ≠ (power, cs) :=
                fun h => hcs (Prod.mk.inj h).2.symm
              exact (or_iff_right hnot).symm.trans List.mem_cons.symm

variable {asked : List (Bool × List Contact)}

/-- Power flows along the other contacts, from the last branch to the first. -/
theorem flow_strands (snapshot : InputSnapshot) {next : ℕ} (hnext : 1 < next)
    (hwired : ∀ s ∈ strands next (asked.map Prod.snd),
        Wired net 1 (strandNodes s).1 (strandNodes s).2 s.2)
    {s : FlowState} (hready : Ready s next asked) {s' : FlowState}
    (hs' : ((strands next (asked.map Prod.snd)).reverse.flatMap fun s =>
        (strandNodes s).1 :: (strandNodes s).2).foldl (flowNode net snapshot) s = s') :
    s'.edgeState = (askRests snapshot asked s.edgeState).2 ∧
      (s'.nodePower 1).getD false =
        ((s.nodePower 1).getD false || (askRests snapshot asked s.edgeState).1) ∧
      ∀ u, u < next → u ≠ 1 → s'.nodePower u = s.nodePower u := by
  induction asked generalizing next s' with
  | nil =>
      obtain rfl : s = s' := hs'
      exact ⟨rfl, by simp [askRests], fun _ _ _ => rfl⟩
  | cons a asked ih =>
      obtain ⟨power, cs⟩ := a
      obtain ⟨hfirst, hready⟩ := hready
      rw [List.map_cons, strands] at hwired hs'
      by_cases hcs : cs = []
      · subst hcs
        rw [if_pos rfl, List.nil_append] at hwired hs'
        rw [if_pos rfl] at hfirst
        obtain ⟨hes, hpower, hsame⟩ := ih hnext hwired hready hs'
        rw [askRests]
        refine ⟨?_, ?_, hsame⟩
        · rw [hes]
          cases power <;> rfl
        · rw [hpower]
          cases power with
          | false => rfl
          | true =>
              rw [hfirst rfl]
              rfl
      · rw [if_neg hcs] at hwired hs' hfirst
        obtain ⟨hwiredFirst, hwiredRest⟩ := List.forall_mem_cons.mp hwired
        obtain ⟨hnode, hinner⟩ := hfirst
        rw [List.singleton_append, List.reverse_cons, List.flatMap_append, List.flatMap_singleton,
          List.foldl_append] at hs'
        obtain ⟨hes, hpower, hsame⟩ := ih (Nat.lt_add_right cs.length hnext) hwiredRest hready rfl
        set s₁ := ((strands (next + cs.length) (asked.map Prod.snd)).reverse.flatMap fun s =>
          (strandNodes s).1 :: (strandNodes s).2).foldl (flowNode net snapshot) s
        have hlen : 0 < cs.length := List.length_pos_of_ne_nil hcs
        have hnode₁ : s₁.nodePower next = some power :=
          (hsame next (Nat.lt_add_of_pos_right hlen) hnext.ne').trans hnode
        have hinner₁ : ∀ u ∈ List.range' (next + 1) (cs.length - 1), s₁.nodePower u = none := by
          intro u hu
          obtain ⟨hle, hlt⟩ := List.mem_range'_1.mp hu
          exact (hsame u (by omega) (by omega)).trans (hinner u hu)
        rw [askRests]
        cases power with
        | false =>
            -- no power reaches the branch
            have hskip : ∀ u ∈ next :: List.range' (next + 1) (cs.length - 1),
                s₁.nodePower u ≠ some true := by
              intro u hu
              rcases List.mem_cons.mp hu with rfl | hu
              · rw [hnode₁]
                nofun
              · rw [hinner₁ u hu]
                nofun
            obtain rfl : s₁ = s' := (foldl_flowNode_of_ne hskip).symm.trans hs'
            exact ⟨hes, hpower, fun u hu hu1 => hsame u (Nat.lt_add_right _ hu) hu1⟩
        | true =>
            have hnot : ∀ u, u ≤ next → u ∉ List.range' (next + 1) (cs.length - 1) :=
              fun u hu hmem => absurd (List.mem_range'_1.mp hmem).1 (Nat.not_lt.mpr hu)
            obtain ⟨hes', hpower', hsame'⟩ := hwiredFirst.flow snapshot List.nodup_range'
              (hnot next le_rfl) (hnot 1 hnext.le) hnode₁ hinner₁
            rw [hes] at hes' hpower'
            rw [hpower] at hpower'
            refine ⟨?_, ?_, fun u hu hu1 => ?_⟩
            · rw [← hs']
              exact hes'
            · rw [← hs']
              exact hpower'.trans (Bool.or_assoc _ _ _)
            · rw [← hs']
              exact (hsame' u (hnot u hu.le) hu1).trans (hsame u (Nat.lt_add_right _ hu) hu1)

/-- A branch of one contact that passes power powers the output. -/
theorem askRests_of_mem (h : (true, []) ∈ asked) (es : EdgeState) :
    (askRests snapshot asked es).1 = true := by
  induction asked with
  | nil => cases h
  | cons a asked ih =>
      obtain ⟨power, cs⟩ := a
      rw [askRests]
      rcases List.mem_cons.mp h with heq | hmem
      · obtain ⟨rfl, rfl⟩ := Prod.mk.inj heq
        exact Bool.or_true _
      · cases power with
        | false => exact ih hmem
        | true => exact Bool.or_eq_true_iff.mpr (Or.inl (ih hmem))

end Flow

/-- The network of parallel branches passes power as the branches do. -/
theorem evaluate_parallel {branches : List (List Contact)} (hbranches : branches ≠ [])
    (hne : ∀ b ∈ branches, b ≠ []) (snapshot : InputSnapshot) (es : EdgeState) :
    ∃ net, buildParallelNetwork branches = .ok net ∧ ∃ fuel net',
      evaluatePowerFlow fuel net snapshot es = some (.ok
        ((branchesPower snapshot es branches).1, net',
          (branchesPower snapshot es branches).2)) := by
  obtain ⟨net, hbuild, hnet⟩ := buildParallelNetwork_isBuilt branches
  obtain ⟨s, hexec, horder⟩ := exec_parallel hnet hbranches hne
  have htarget : ∀ e ∈ parallelEdges 2 branches, e.target < 2 + innerNodes branches := by
    intro e he
    rcases (mem_parallelEdges he).2 with h | h
    · rw [h]
      exact Nat.lt_add_right _ Nat.one_lt_two
    · exact h.2
  obtain ⟨fuel, net', heval, -⟩ := hnet.evaluate (Nat.add_pos_left Nat.two_pos _) htarget hexec
    snapshot es
  refine ⟨net, hbuild, fuel, net', ?_⟩
  -- the first contacts are asked at the rail
  obtain ⟨hes, hready, -, hout⟩ := flow_firstEdges snapshot (s := railPower es)
    Nat.one_lt_two hne fun u hu => railPower_of_ne es (Nat.two_pos.trans_le hu).ne'
  set s₁ := (firstEdges 2 branches).foldl (flowEdge snapshot) (railPower es)
  set asked := (askFirsts snapshot (railPower es).edgeState branches).1
  have hrail : flowNode net snapshot (railPower es) 0 = s₁ := by
    have hedges : net.outgoingEdges 0 = firstEdges 2 branches := by
      rw [hnet.out_eq]
      exact filter_source_parallelEdges Nat.two_pos hne
    simp only [flowNode, railPower_zero, hedges]
    rfl
  -- the others are asked in their order
  have hrests : asked.map Prod.snd = rests branches := map_snd_askFirsts _ hne
  have hwired : ∀ s ∈ strands 2 (asked.map Prod.snd),
      Wired net 1 (strandNodes s).1 (strandNodes s).2 s.2 := by
    rw [hrests]
    exact wired_parallel hnet hne
  obtain ⟨hes', hpower, -⟩ := flow_strands snapshot Nat.one_lt_two hwired hready rfl
  rw [hrests] at hes' hpower
  have hend : ∀ s, flowNode net snapshot s 1 = s := by
    intro s
    rw [flowNode, out_output hnet]
    split <;> rfl
  have hfold : s.order.foldl (flowNode net snapshot) (railPower es) =
      (innerOrder branches).foldl (flowNode net snapshot) s₁ := by
    rw [horder, List.cons_append, List.foldl_cons, List.foldl_append, hrail, List.foldl_cons,
      List.foldl_nil, hend]
  have houtput : ((s₁.nodePower 1).getD false || (askRests snapshot asked s₁.edgeState).1) =
      (askRests snapshot asked s₁.edgeState).1 := by
    cases hone : (s₁.nodePower 1).getD false with
    | false => exact Bool.false_or _
    | true =>
        rcases hout.mp hone with h | h
        · rw [railPower_of_ne es Nat.one_ne_zero] at h
          cases h
        · exact (askRests_of_mem h _).symm
  rw [heval, hfold, innerOrder, hes', hpower, houtput, hes]
  rfl

end Weftik.Ld
