import Weftik.Lib.Machine

/-!
# Kahn's Traversal of a Multigraph

Kahn's algorithm started from some nodes, the seeds: a node is taken from the queue, put
into the order, and every node whose last pending edge this was is queued. What it puts
into the order are the fed nodes: the seeds, and the nodes all of whose edges come from
fed nodes. A second pass along the order propagates a mark from a root, through the edges
that are closed; the mark reaches a node exactly when there is a closed path from the root
to it whose edges all start in the order.

The queue of the traversal is a stack: a node that is queued last is visited first. So the
traversal follows a chain of nodes to its end before it goes on with the next one.

## Main definitions

* `Multigraph`: edges between the nodes of a type.
* `visit`, `step`: one round of the traversal.
* `Fed`: the nodes that the traversal reaches.
* `propagate`: the second pass.
* `Multigraph.Chain`: nodes with one edge from each to the next.

## Main results

* `kahn_exec`: the traversal ends, with the fed nodes in topological order.
* `fed_of_acyclic`: in a finite acyclic multigraph it reaches every node.
* `propagate_iff`: the second pass marks the ends of the closed paths.
* `exec_chains`: the order of some chains with a common end.
* `foldl_relax_firsts`: the queue after the node at which some chains begin.
-/

open Machine

namespace Kahn

variable {α ε : Type}

/-- Edges between the nodes of a type; there may be several between two nodes. -/
structure Multigraph (α ε : Type) where
  edges : List ε
  src : ε → α
  tgt : ε → α

namespace Multigraph

/-- There is an edge from the first node to the second. -/
def Edge (g : Multigraph α ε) (u v : α) : Prop := ∃ e ∈ g.edges, g.src e = u ∧ g.tgt e = v

/-- No path leads from a node back to it. -/
def Acyclic (g : Multigraph α ε) : Prop := ∀ v, ¬ Relation.TransGen g.Edge v v

/-- The nodes fed by the seeds: the seeds, and the nodes with edges into them, all of which
come from fed nodes. -/
inductive Fed (g : Multigraph α ε) (seeds : List α) : α → Prop
  | seed {v : α} : v ∈ seeds → Fed g seeds v
  | edges {v : α} : (∃ u, g.Edge u v) → (∀ u, g.Edge u v → Fed g seeds u) → Fed g seeds v

/-- Each node of the order comes before the nodes to which it has edges. -/
def Sorted (g : Multigraph α ε) (order : List α) : Prop :=
  order.Pairwise fun u v => ¬ g.Edge v u

variable {g : Multigraph α ε} {v : α}

/-- A fed node is reachable from a seed. -/
theorem Fed.reachable {seeds : List α} (h : g.Fed seeds v) :
    ∃ s ∈ seeds, Relation.ReflTransGen g.Edge s v := by
  induction h with
  | seed hv => exact ⟨_, hv, .refl⟩
  | edges hsome _ ih =>
      obtain ⟨u, hu⟩ := hsome
      obtain ⟨s, hs, hpath⟩ := ih u hu
      exact ⟨s, hs, hpath.tail hu⟩

/-- In an acyclic multigraph no edge leads from a node fed by a single seed into it. -/
theorem singleton_seed (hacyclic : g.Acyclic) (r : α) :
    ∀ u w, g.Edge u w → w ∈ [r] → ¬ g.Fed [r] u := by
  intro u w hedge hw hfed
  obtain rfl := List.mem_singleton.mp hw
  obtain ⟨s, hs, hpath⟩ := hfed.reachable
  obtain rfl := List.mem_singleton.mp hs
  exact hacyclic s (Relation.TransGen.tail' hpath hedge)

variable [DecidableEq α]

/-- The edges that leave a node. -/
def out (g : Multigraph α ε) (v : α) : List ε := g.edges.filter fun e => g.src e = v

/-- The number of edges into a node from nodes that are not done. -/
def pending (g : Multigraph α ε) (done : List α) (v : α) : ℕ :=
  g.edges.countP fun e => g.tgt e = v ∧ g.src e ∉ done

end Multigraph

variable [DecidableEq α]

/-- The state of the traversal: the number of pending edges into each node, the queue with
its next node first, and the order so far. -/
structure State (α : Type) where
  inDegree : α → ℕ
  queue : List α
  order : List α

/-- One edge into the node is no longer pending; when it was the last, the node is
queued. -/
def relax (s : State α) (t : α) : State α :=
  { s with
    inDegree := Function.update s.inDegree t (s.inDegree t - 1)
    queue := if s.inDegree t - 1 = 0 then t :: s.queue else s.queue }

/-- A node that has left the queue is put into the order, and its edges are relaxed. -/
def visit (g : Multigraph α ε) (v : α) (s : State α) : State α :=
  ((g.out v).map g.tgt).foldl relax { s with order := s.order ++ [v] }

/-- One round of the traversal, which ends when the queue is empty. -/
def step (err : Type) (g : Multigraph α ε) (s : State α) : Result (State α) err :=
  match s.queue with
  | [] => .done s
  | v :: queue => .next (visit g v { s with queue := queue })

/-- The state before the first round. -/
def start (g : Multigraph α ε) (seeds : List α) : State α := ⟨g.pending [], seeds, []⟩

/-! ### Relaxing the edges of a node -/

theorem order_foldl_relax (ts : List α) (s : State α) :
    (ts.foldl relax s).order = s.order := by
  induction ts generalizing s with
  | nil => rfl
  | cons t ts ih => exact ih (relax s t)

/-- Relaxing queues targets of the edges only. -/
theorem mem_queue_foldl_relax {ts : List α} {s : State α} {w : α}
    (h : w ∈ (ts.foldl relax s).queue) : w ∈ ts ∨ w ∈ s.queue := by
  induction ts generalizing s with
  | nil => exact Or.inr h
  | cons t ts ih =>
      rcases ih h with hw | hw
      · exact Or.inl (List.mem_cons_of_mem t hw)
      · rw [relax] at hw
        split at hw
        · rcases List.mem_cons.mp hw with rfl | hw
          · exact Or.inl List.mem_cons_self
          · exact Or.inr hw
        · exact Or.inr hw

theorem order_visit (g : Multigraph α ε) (v : α) (s : State α) :
    (visit g v s).order = s.order ++ [v] :=
  order_foldl_relax _ _

/-- Relaxing the edges of a node counts them down, and queues each target for which they
were the last pending edges. -/
theorem foldl_relax (ts : List α) (s : State α) (hle : ∀ w, ts.count w ≤ s.inDegree w) :
    (∀ w, (ts.foldl relax s).inDegree w = s.inDegree w - ts.count w) ∧
      ∃ pushed, (ts.foldl relax s).queue = pushed ++ s.queue ∧ pushed.Nodup ∧
        ∀ w, w ∈ pushed ↔ w ∈ ts ∧ ts.count w = s.inDegree w := by
  induction ts generalizing s with
  | nil => exact ⟨fun w => rfl, [], rfl, List.nodup_nil, by simp⟩
  | cons t ts ih =>
      have hdegree : ∀ w, (relax s t).inDegree w =
          s.inDegree w - if t = w then 1 else 0 := by
        intro w
        by_cases h : w = t
        · subst h
          simp [relax]
        · simp [relax, h, Ne.symm h]
      have hcount : ∀ w, (t :: ts).count w = ts.count w + if t = w then 1 else 0 := by
        intro w
        rw [List.count_cons]
        simp
      have hle' : ∀ w, ts.count w ≤ (relax s t).inDegree w := by
        intro w
        have := hle w
        rw [hcount] at this
        rw [hdegree]
        omega
      obtain ⟨hdeg, pushed, hqueue, hnodup, hmem⟩ := ih (relax s t) hle'
      refine ⟨fun w => ?_, ?_⟩
      · rw [List.foldl_cons, hdeg, hdegree, hcount, Nat.sub_sub, Nat.add_comm]
      · have hpos := hle t
        rw [hcount, if_pos rfl] at hpos
        by_cases hzero : s.inDegree t - 1 = 0
        · have hnot : t ∉ ts := by
            rw [← List.count_eq_zero]
            omega
          refine ⟨pushed ++ [t], ?_, ?_, fun w => ?_⟩
          · rw [List.foldl_cons, hqueue, relax, if_pos hzero, List.append_assoc]
            rfl
          · refine List.nodup_append.mpr ⟨hnodup, List.nodup_singleton t, ?_⟩
            rintro a ha b hb rfl
            exact hnot (List.mem_singleton.mp hb ▸ ((hmem a).mp ha).1)
          · rw [List.mem_append, List.mem_singleton, hmem, hdegree, hcount, List.mem_cons]
            by_cases hw : t = w
            · subst hw
              have hts := List.count_eq_zero.mpr hnot
              simp [hnot]
              omega
            · simp [hw, Ne.symm hw]
        · refine ⟨pushed, ?_, hnodup, fun w => ?_⟩
          · rw [List.foldl_cons, hqueue, relax, if_neg hzero]
          · rw [hmem, hdegree, hcount, List.mem_cons]
            by_cases hw : t = w
            · subst hw
              have hts : t ∈ ts ↔ 0 < ts.count t := List.count_pos_iff.symm
              simp only [hts, if_true, true_or, true_and]
              omega
            · simp [hw, Ne.symm hw]

/-! ### Pending edges -/

namespace Multigraph

variable {g : Multigraph α ε} {done : List α} {u v w : α}

theorem pending_eq_zero : g.pending done w = 0 ↔ ∀ u, g.Edge u w → u ∈ done := by
  rw [pending, List.countP_eq_zero]
  constructor
  · rintro h u ⟨e, he, rfl, rfl⟩
    by_contra hu
    exact h e he (by simp [hu])
  · intro h e he hpred
    simp only [decide_eq_true_eq] at hpred
    obtain ⟨rfl, hsrc⟩ := hpred
    exact hsrc (h _ ⟨e, he, rfl, rfl⟩)

/-- The edges that leave a node are pending until it is done. -/
theorem pending_concat (hv : v ∉ done) :
    g.pending done w = g.pending (done ++ [v]) w + ((g.out v).map g.tgt).count w := by
  rw [pending, pending, out]
  induction g.edges with
  | nil => rfl
  | cons e es ih =>
      rw [List.countP_cons, List.countP_cons, ih, List.filter_cons]
      by_cases hsrc : g.src e = v
      · subst hsrc
        by_cases htgt : g.tgt e = w
        · simp [hv, htgt]
          omega
        · simp [htgt]
      · by_cases hdone : g.src e ∈ done
        · simp [hsrc, hdone]
        · simp [hsrc, hdone]
          omega

theorem mem_out_tgt : w ∈ (g.out v).map g.tgt ↔ g.Edge v w := by
  rw [List.mem_map]
  constructor
  · rintro ⟨e, he, rfl⟩
    obtain ⟨hmem, hsrc⟩ := List.mem_filter.mp he
    exact ⟨e, hmem, of_decide_eq_true hsrc, rfl⟩
  · rintro ⟨e, he, hsrc, rfl⟩
    exact ⟨e, List.mem_filter.mpr ⟨he, decide_eq_true hsrc⟩, rfl⟩

end Multigraph

/-! ### The invariant of the traversal -/

/-- The invariant: each node is queued or done at most once, the pending edges are counted,
the nodes queued or done are the seeds and the nodes without pending edges, and the order
is sorted and fed. -/
structure Inv (g : Multigraph α ε) (seeds : List α) (s : State α) : Prop where
  nodup : (s.order ++ s.queue).Nodup
  degree : ∀ w, s.inDegree w = g.pending s.order w
  mem_iff : ∀ w, w ∈ s.order ++ s.queue ↔
    w ∈ seeds ∨ (∃ u, g.Edge u w) ∧ g.pending s.order w = 0
  sorted : g.Sorted s.order
  fed : ∀ w ∈ s.order ++ s.queue, g.Fed seeds w

variable {g : Multigraph α ε} {seeds : List α} {s : State α} {v : α}

theorem inv_start (hnodup : seeds.Nodup) : Inv g seeds (start g seeds) := by
  refine ⟨hnodup, fun w => rfl, fun w => ?_, List.Pairwise.nil, fun w hw => .seed hw⟩
  constructor
  · exact Or.inl
  · rintro (hw | ⟨⟨u, hu⟩, hzero⟩)
    · exact hw
    · exact absurd (Multigraph.pending_eq_zero.mp hzero u hu) (List.not_mem_nil)

/-- One round keeps the invariant, when no edge leads from a fed node into a seed. -/
theorem inv_visit (hseeds : ∀ u w, g.Edge u w → w ∈ seeds → ¬ g.Fed seeds u)
    {queue : List α} (h : Inv g seeds { s with queue := v :: queue }) :
    Inv g seeds (visit g v { s with queue := queue }) := by
  obtain ⟨hnodup, hdegree, hmem, hsorted, hfed⟩ := h
  simp only at hnodup hdegree hmem hsorted hfed
  have hv : v ∉ s.order := fun hv => by
    have := (List.nodup_append.mp hnodup).2.2 v hv v List.mem_cons_self
    exact this rfl
  have hfedv : g.Fed seeds v := hfed v (by simp)
  have hpending : ∀ w, g.pending s.order w =
      g.pending (s.order ++ [v]) w + ((g.out v).map g.tgt).count w :=
    fun w => Multigraph.pending_concat hv
  have hcount : ∀ w, ((g.out v).map g.tgt).count w ≤ s.inDegree w := by
    intro w
    have := hpending w
    rw [hdegree]
    omega
  have horder : (visit g v { s with queue := queue }).order = s.order ++ [v] :=
    order_visit _ _ _
  obtain ⟨hdeg, pushed, hqueue, hnodup', hpushed⟩ :=
    foldl_relax ((g.out v).map g.tgt)
      { s with queue := queue, order := s.order ++ [v] } hcount
  simp only at hdeg hqueue hpushed
  -- A node is queued when the edges from `v` were its last pending edges.
  have hlast : ∀ w, w ∈ pushed ↔ g.Edge v w ∧ g.pending (s.order ++ [v]) w = 0 := by
    intro w
    rw [hpushed, Multigraph.mem_out_tgt, hdegree]
    have := hpending w
    constructor
    · rintro ⟨hedge, heq⟩
      exact ⟨hedge, by omega⟩
    · rintro ⟨hedge, heq⟩
      exact ⟨hedge, by omega⟩
  have hsplit : ∀ w, w ∈ (visit g v { s with queue := queue }).order ++
        (visit g v { s with queue := queue }).queue ↔
      w ∈ pushed ∨ w ∈ s.order ++ v :: queue := by
    intro w
    rw [horder, visit, hqueue]
    simp only [List.mem_append, List.mem_cons, List.not_mem_nil, or_false]
    grind
  have hnew : ∀ w ∈ pushed, w ∉ s.order ++ v :: queue := by
    intro w hw hold
    obtain ⟨hedge, -⟩ := (hlast w).mp hw
    rcases (hmem w).mp hold with hseed | ⟨-, hzero⟩
    · exact hseeds v w hedge hseed hfedv
    · exact hv (Multigraph.pending_eq_zero.mp hzero v hedge)
  refine ⟨?_, ?_, ?_, ?_, ?_⟩
  · rw [horder, visit, hqueue]
    have hperm : (s.order ++ [v] ++ (pushed ++ queue)).Perm
        (pushed ++ (s.order ++ v :: queue)) := by
      have hcomm := List.perm_append_comm_assoc (s.order ++ [v]) pushed queue
      rwa [List.append_assoc s.order [v] queue, List.singleton_append] at hcomm
    rw [hperm.nodup_iff, List.nodup_append]
    exact ⟨hnodup', hnodup, fun a ha b hb hab => hnew a ha (hab ▸ hb)⟩
  · intro w
    rw [horder, visit, hdeg, hdegree, hpending]
    omega
  · intro w
    rw [hsplit, hlast, hmem, horder]
    have := hpending w
    constructor
    · rintro (⟨hedge, hzero⟩ | hseed | ⟨hin, hzero⟩)
      · exact Or.inr ⟨⟨v, hedge⟩, hzero⟩
      · exact Or.inl hseed
      · exact Or.inr ⟨hin, by omega⟩
    · rintro (hseed | ⟨hin, hzero⟩)
      · exact Or.inr (Or.inl hseed)
      · by_cases hedge : g.Edge v w
        · exact Or.inl ⟨hedge, hzero⟩
        · have hnone : ((g.out v).map g.tgt).count w = 0 :=
            List.count_eq_zero.mpr fun h => hedge (Multigraph.mem_out_tgt.mp h)
          exact Or.inr (Or.inr ⟨hin, by omega⟩)
  · rw [horder, Multigraph.Sorted, List.pairwise_append]
    refine ⟨hsorted, List.pairwise_singleton _ _, ?_⟩
    intro u hu w hw hedge
    obtain rfl := List.mem_singleton.mp hw
    rcases (hmem u).mp (List.mem_append_left _ hu) with hseed | ⟨-, hzero⟩
    · exact hseeds w u hedge hseed hfedv
    · exact hv (Multigraph.pending_eq_zero.mp hzero w hedge)
  · intro w hw
    rcases (hsplit w).mp hw with hw | hw
    · obtain ⟨hedge, hzero⟩ := (hlast w).mp hw
      refine .edges ⟨v, hedge⟩ fun u hu => ?_
      rcases List.mem_append.mp (Multigraph.pending_eq_zero.mp hzero u hu) with hu | hu
      · exact hfed u (List.mem_append_left _ hu)
      · rw [List.mem_singleton.mp hu]
        exact hfedv
    · exact hfed w hw

/-! ### The traversal -/

/-- From a state with the invariant the traversal ends, with the invariant and nothing
queued: every round makes the order longer, and it only grows to the number of nodes. -/
theorem exec_of_inv (err : Type) (hseeds : ∀ u w, g.Edge u w → w ∈ seeds → ¬ g.Fed seeds u)
    {nodes : List α} (hnodes : ∀ w, g.Fed seeds w → w ∈ nodes) (h : Inv g seeds s) :
    ∃ s', Exec (step err g) s (.ok s') ∧ Inv g seeds s' ∧ s'.queue = [] := by
  have hbound : ∀ s, Inv g seeds s → s.order.length ≤ nodes.length := by
    intro s h
    have hsub : s.order ⊆ nodes := fun w hw => hnodes w (h.fed w (List.mem_append_left _ hw))
    exact ((List.nodup_append.mp h.nodup).1.subperm hsub).length_le
  obtain ⟨n, hn⟩ : ∃ n, nodes.length < s.order.length + n := ⟨nodes.length + 1, by omega⟩
  induction n generalizing s with
  | zero =>
      have := hbound s h
      omega
  | succ n ih =>
      cases hqueue : s.queue with
      | nil => exact ⟨s, .done (by rw [step, hqueue]), h, hqueue⟩
      | cons v queue =>
          have hs : s = { s with queue := v :: queue } := by rw [← hqueue]
          have hinv := inv_visit hseeds (hs ▸ h)
          have hlength : (visit g v { s with queue := queue }).order.length =
              s.order.length + 1 := by
            rw [order_visit, List.length_append, List.length_singleton]
          obtain ⟨s', hexec, hinv', hempty⟩ := ih hinv (by omega)
          exact ⟨s', .next (by rw [step, hqueue]) hexec, hinv', hempty⟩

/-- When nothing is queued any more, the order has all fed nodes. -/
theorem Inv.mem_order_iff (h : Inv g seeds s) (hempty : s.queue = []) {w : α} :
    w ∈ s.order ↔ g.Fed seeds w := by
  have hmem := h.mem_iff
  have hfed := h.fed
  rw [hempty, List.append_nil] at hmem hfed
  constructor
  · exact hfed w
  · intro hw
    induction hw with
    | seed hw => exact (hmem _).mpr (Or.inl hw)
    | edges hsome _ ih =>
        exact (hmem _).mpr (Or.inr ⟨hsome, Multigraph.pending_eq_zero.mpr ih⟩)

/-- The traversal ends, and the order consists of the fed nodes, each before the nodes to
which it has edges. -/
theorem kahn_exec (err : Type) (hseeds : ∀ u w, g.Edge u w → w ∈ seeds → ¬ g.Fed seeds u)
    (hnodup : seeds.Nodup) :
    ∃ s', Exec (step err g) (start g seeds) (.ok s') ∧
      (∀ w, w ∈ s'.order ↔ g.Fed seeds w) ∧ g.Sorted s'.order := by
  have hnodes : ∀ w, g.Fed seeds w → w ∈ seeds ++ g.edges.map g.tgt := by
    intro w hw
    cases hw with
    | seed hw => exact List.mem_append_left _ hw
    | edges hsome _ =>
        obtain ⟨u, e, he, -, rfl⟩ := hsome
        exact List.mem_append_right _ (List.mem_map_of_mem he)
  obtain ⟨s', hexec, hinv, hempty⟩ := exec_of_inv err hseeds hnodes (inv_start hnodup)
  exact ⟨s', hexec, fun w => hinv.mem_order_iff hempty, hinv.sorted⟩

/-! ### The order of the queue -/

/-- The invariant does not depend on the order of the queue. -/
theorem Inv.perm {s' : State α} (h : Inv g seeds s) (hdegree : s'.inDegree = s.inDegree)
    (hqueue : s'.queue.Perm s.queue) (horder : s'.order = s.order) : Inv g seeds s' where
  nodup := by
    rw [horder, (hqueue.append_left s.order).nodup_iff]
    exact h.nodup
  degree w := by rw [hdegree, horder, h.degree]
  mem_iff w := by rw [horder, (hqueue.append_left s.order).mem_iff, h.mem_iff]
  sorted := horder ▸ h.sorted
  fed w hw := h.fed w (by rwa [horder, (hqueue.append_left s.order).mem_iff] at hw)

/-- In a finite acyclic multigraph every node is fed by the nodes without edges into them. -/
theorem fed_of_acyclic (hacyclic : g.Acyclic) {nodes : List α}
    (hsrc : ∀ u w, g.Edge u w → u ∈ nodes)
    (hseeds : ∀ w ∈ nodes, (∀ u, ¬ g.Edge u w) → w ∈ seeds) :
    ∀ w ∈ nodes, g.Fed seeds w := by
  let r (u w : {w // w ∈ nodes}) : Prop := Relation.TransGen g.Edge u.1 w.1
  have htrans : IsTrans _ r := ⟨fun _ _ _ => Relation.TransGen.trans⟩
  have hirrefl : Std.Irrefl r := ⟨fun w => hacyclic w.1⟩
  have hwf := Finite.wellFounded_of_trans_of_irrefl r
  intro w hw
  refine hwf.induction (C := fun w => g.Fed seeds w.1) ⟨w, hw⟩ ?_
  rintro ⟨w, hw⟩ ih
  by_cases hsome : ∃ u, g.Edge u w
  · exact .edges hsome fun u hu => ih ⟨u, hsrc u w hu⟩ (.single hu)
  · exact .seed (hseeds w hw (not_exists.mp hsome))

/-! ### Propagating a mark -/

/-- The edges of a marked node pass the mark on where they are closed. -/
def propagateNode (g : Multigraph α ε) (closed : ε → Bool) (mark : α → Bool) (v : α) :
    α → Bool :=
  if mark v then
    (g.out v).foldl
      (fun mark e => Function.update mark (g.tgt e) (mark (g.tgt e) || closed e)) mark
  else mark

/-- The second pass: the nodes of the order one after another. -/
def propagate (g : Multigraph α ε) (closed : ε → Bool) (order : List α) (mark : α → Bool) :
    α → Bool :=
  order.foldl (propagateNode g closed) mark

/-- A closed edge from a node of the list to the second node. -/
def ClosedEdge (g : Multigraph α ε) (closed : ε → Bool) (sources : List α) (u v : α) : Prop :=
  u ∈ sources ∧ ∃ e ∈ g.edges, g.src e = u ∧ g.tgt e = v ∧ closed e = true

variable {closed : ε → Bool}

theorem propagateNode_iff (mark : α → Bool) (v w : α) :
    propagateNode g closed mark v w = true ↔
      mark w = true ∨ mark v = true ∧ ∃ e ∈ g.edges, g.src e = v ∧ g.tgt e = w ∧
        closed e = true := by
  have hfold : ∀ (es : List ε) (mark : α → Bool),
      es.foldl (fun mark e => Function.update mark (g.tgt e) (mark (g.tgt e) || closed e))
          mark w = true ↔
        mark w = true ∨ ∃ e ∈ es, g.tgt e = w ∧ closed e = true := by
    intro es
    induction es with
    | nil => simp
    | cons e es ih =>
        intro mark
        rw [List.foldl_cons, ih, List.exists_mem_cons_iff]
        by_cases hw : w = g.tgt e
        · subst hw
          simp [or_assoc]
        · simp [hw, Ne.symm hw]
  rw [propagateNode]
  split
  · rename_i hv
    rw [hfold, and_iff_right hv]
    refine or_congr_right (exists_congr fun e => ?_)
    rw [Multigraph.out, List.mem_filter, decide_eq_true_eq, and_assoc]
  · rename_i hv
    simp [hv]

omit [DecidableEq α] in
/-- One more node of a sorted order lengthens the paths by at most one edge. -/
theorem reachable_concat {before : List α} {r w : α} (hsorted : g.Sorted (before ++ [v])) :
    Relation.ReflTransGen (ClosedEdge g closed (before ++ [v])) r w ↔
      Relation.ReflTransGen (ClosedEdge g closed before) r w ∨
        Relation.ReflTransGen (ClosedEdge g closed before) r v ∧
          ∃ e ∈ g.edges, g.src e = v ∧ g.tgt e = w ∧ closed e = true := by
  have hmono : ∀ u w, ClosedEdge g closed before u w → ClosedEdge g closed (before ++ [v]) u w :=
    fun u w h => ⟨List.mem_append_left _ h.1, h.2⟩
  constructor
  · intro h
    induction h with
    | refl => exact Or.inl .refl
    | tail _ hlast ih =>
        obtain ⟨hmem, e, he, hsrc, htgt, hclosed⟩ := hlast
        rcases List.mem_append.mp hmem with hu | hu
        · rcases ih with hpath | ⟨-, e', he', hsrc', htgt', -⟩
          · exact Or.inl (hpath.tail ⟨hu, e, he, hsrc, htgt, hclosed⟩)
          · -- An edge from `v` to an earlier node contradicts the order.
            have hback := (List.pairwise_append.mp hsorted).2.2 _ hu v (List.mem_singleton_self v)
            exact absurd ⟨e', he', hsrc', htgt'⟩ hback
        · obtain rfl := List.mem_singleton.mp hu
          have hedge : ∃ e ∈ g.edges, g.src e = _ ∧ g.tgt e = _ ∧ closed e = true :=
            ⟨e, he, hsrc, htgt, hclosed⟩
          rcases ih with hpath | ⟨hpath, -⟩
          · exact Or.inr ⟨hpath, hedge⟩
          · exact Or.inr ⟨hpath, hedge⟩
  · rintro (hpath | ⟨hpath, hedge⟩)
    · exact Relation.ReflTransGen.mono hmono _ _ hpath
    · exact (Relation.ReflTransGen.mono hmono _ _ hpath).tail
        ⟨List.mem_append_right _ (List.mem_singleton_self v), hedge⟩

/-- Along a sorted order, the mark of the root reaches the ends of the closed paths whose
edges all start in the order. -/
theorem propagate_iff {order : List α} (hsorted : g.Sorted order) (mark : α → Bool) (r : α)
    (hmark : ∀ w, mark w = true ↔ w = r) (w : α) :
    propagate g closed order mark w = true ↔
      Relation.ReflTransGen (ClosedEdge g closed order) r w := by
  induction order using List.reverseRecOn generalizing w with
  | nil =>
      rw [propagate, List.foldl_nil, hmark]
      constructor
      · rintro rfl
        exact .refl
      · intro h
        rcases Relation.ReflTransGen.cases_tail h with rfl | ⟨u, -, hlast⟩
        · rfl
        · cases hlast.1
  | append_singleton order v ih =>
      have hbefore : g.Sorted order := (List.pairwise_append.mp hsorted).1
      rw [propagate, List.foldl_append, List.foldl_cons, List.foldl_nil, propagateNode_iff,
        reachable_concat hsorted, ← ih hbefore w, ← ih hbefore v]
      rfl

end Kahn

open Machine

namespace Kahn

/-! ### Chains -/

variable {α ε : Type} [DecidableEq α]

/-! ### Chains -/

/-- From the first node a chain leads through the given nodes to the last one: one edge leads
from each node to the next. -/
def Multigraph.Chain (g : Multigraph α ε) : α → List α → α → Prop
  | v, [], w => (g.out v).map g.tgt = [w]
  | v, u :: us, w => (g.out v).map g.tgt = [u] ∧ g.Chain u us w

variable (err : Type) {g : Multigraph α ε}

/-- A round at a node from which one edge leads. -/
theorem step_of_out {degree : α → ℕ} {v w : α} {queue order : List α}
    (hout : (g.out v).map g.tgt = [w]) :
    step err g ⟨degree, v :: queue, order⟩ = .next (relax ⟨degree, queue, order ++ [v]⟩ w) := by
  simp only [step, visit, hout, List.foldl_cons, List.foldl_nil]

/-- The traversal ends at a node that is alone in the queue and from which no edge leads. -/
theorem exec_last {w : α} (hout : g.out w = []) (degree : α → ℕ) (order : List α) :
    Exec (step err g) ⟨degree, [w], order⟩ (.ok ⟨degree, [], order ++ [w]⟩) := by
  have hstep : step err g ⟨degree, [w], order⟩ = .next ⟨degree, [], order ++ [w]⟩ := by
    simp only [step, visit, hout, List.map_nil, List.foldl_nil]
  exact .next hstep (.done rfl)

/-- The traversal follows a chain to its end, when it is the only way into the nodes on it. -/
theorem steps_chain {us : List α} {v w : α} (hchain : g.Chain v us w) (hnodup : us.Nodup)
    {degree : α → ℕ} (hdegree : ∀ u ∈ us, degree u = 1) (queue order : List α) :
    ∃ degree', Steps (step err g) ⟨degree, v :: queue, order⟩
        (relax ⟨degree', queue, order ++ v :: us⟩ w) ∧ ∀ u, u ∉ us → degree' u = degree u := by
  induction us generalizing v degree order with
  | nil => exact ⟨degree, .single (step_of_out err hchain), fun _ _ => rfl⟩
  | cons u us ih =>
      obtain ⟨hout, hrest⟩ := hchain
      obtain ⟨hu, hus⟩ := List.nodup_cons.mp hnodup
      have hone : degree u = 1 := hdegree u List.mem_cons_self
      have hstep : step err g ⟨degree, v :: queue, order⟩ =
          .next ⟨Function.update degree u 0, u :: queue, order ++ [v]⟩ := by
        rw [step_of_out err hout]
        simp only [relax, hone, Nat.sub_self, if_true]
      have hdegree' : ∀ u' ∈ us, Function.update degree u 0 u' = 1 := by
        intro u' hu'
        rw [Function.update_of_ne (ne_of_mem_of_not_mem hu' hu)]
        exact hdegree u' (List.mem_cons_of_mem u hu')
      obtain ⟨degree', hsteps, hsame⟩ := ih hrest hus hdegree' (order ++ [v])
      refine ⟨degree', ?_, fun u' hu' => ?_⟩
      · rw [List.append_assoc] at hsteps
        exact .head hstep hsteps
      · obtain ⟨hne, hnot⟩ := not_or.mp (List.mem_cons.not.mp hu')
        rw [hsame u' hnot, Function.update_of_ne hne]

/-- The traversal follows some chains to their common end, one after another, and ends there,
when the chains are the only ways into their nodes. -/
theorem exec_chains (chains : List (α × List α)) {w : α} (hout : g.out w = [])
    (hchain : ∀ c ∈ chains, g.Chain c.1 c.2 w) (hne : chains ≠ [])
    (hnodup : (chains.flatMap Prod.snd).Nodup) (hw : w ∉ chains.flatMap Prod.snd)
    (degree : α → ℕ) (hdegree : ∀ u ∈ chains.flatMap Prod.snd, degree u = 1)
    (hend : degree w = chains.length) (order : List α) :
    ∃ s, Exec (step err g) ⟨degree, chains.map Prod.fst, order⟩ (.ok s) ∧
      s.order = order ++ chains.flatMap (fun c => c.1 :: c.2) ++ [w] := by
  induction chains generalizing degree order with
  | nil => exact absurd rfl hne
  | cons c chains ih =>
      rw [List.flatMap_cons] at hw hnodup hdegree
      obtain ⟨hwc, hwchains⟩ := not_or.mp (List.mem_append.not.mp hw)
      obtain ⟨hdegreeC, hdegreeRest⟩ := List.forall_mem_append.mp hdegree
      obtain ⟨hnodupC, hnodupRest, hdisjoint⟩ := List.nodup_append.mp hnodup
      obtain ⟨hchainC, hchainRest⟩ := List.forall_mem_cons.mp hchain
      obtain ⟨degree', hsteps, hsame⟩ := steps_chain err hchainC hnodupC hdegreeC
        (chains.map Prod.fst) order
      have hpending : degree' w - 1 = chains.length := by
        rw [hsame w hwc, hend]
        rfl
      cases chains with
      | nil =>
          -- the end has no other edge into it, and none leads from it
          have hlast : relax ⟨degree', [], order ++ c.1 :: c.2⟩ w =
              ⟨Function.update degree' w 0, [w], order ++ c.1 :: c.2⟩ := by
            simp only [relax, hpending, List.length_nil, if_true]
          rw [List.map_nil, hlast] at hsteps
          refine ⟨_, Exec.of_steps hsteps (exec_last err hout _ _), ?_⟩
          simp
      | cons c' chains =>
          have hlater : relax ⟨degree', (c' :: chains).map Prod.fst, order ++ c.1 :: c.2⟩ w =
              ⟨Function.update degree' w (chains.length + 1), (c' :: chains).map Prod.fst,
                order ++ c.1 :: c.2⟩ := by
            simp only [relax, hpending, List.length_cons, Nat.succ_ne_zero, if_false]
          have hdegree' : ∀ u ∈ (c' :: chains).flatMap Prod.snd,
              Function.update degree' w (chains.length + 1) u = 1 := by
            intro u hu
            have hnot : u ∉ c.2 := fun h => hdisjoint u h u hu rfl
            rw [Function.update_of_ne (ne_of_mem_of_not_mem hu hwchains), hsame u hnot]
            exact hdegreeRest u hu
          obtain ⟨s, hexec, horder⟩ := ih hchainRest (List.cons_ne_nil _ _) hnodupRest hwchains
            _ hdegree' (Function.update_self ..) (order ++ c.1 :: c.2)
          rw [hlater] at hsteps
          refine ⟨s, Exec.of_steps hsteps hexec, ?_⟩
          rw [horder]
          simp [List.flatMap_cons]

/-- Relaxing the edges that lead to the first nodes of some chains, or to the end, queues the
first nodes, the last one in front. -/
theorem foldl_relax_firsts {ts : List α} {w : α} {degree : α → ℕ}
    (hdegree : ∀ t ∈ ts, t ≠ w → degree t = 1) (hnodup : (ts.filter (· ≠ w)).Nodup)
    (hend : ts.count w < degree w) (queue order : List α) :
    ∃ degree', ts.foldl relax ⟨degree, queue, order⟩ =
        ⟨degree', (ts.filter (· ≠ w)).reverse ++ queue, order⟩ ∧
      degree' w = degree w - ts.count w ∧ ∀ u, u ∉ ts → degree' u = degree u := by
  induction ts generalizing degree queue with
  | nil => exact ⟨degree, rfl, rfl, fun _ _ => rfl⟩
  | cons t ts ih =>
      by_cases ht : t = w
      · subst ht
        rw [List.count_cons_self] at hend
        have hfilter : (t :: ts).filter (· ≠ t) = ts.filter (· ≠ t) :=
          List.filter_cons_of_neg (by simp)
        rw [hfilter] at hnodup ⊢
        have hrelax : relax ⟨degree, queue, order⟩ t =
            ⟨Function.update degree t (degree t - 1), queue, order⟩ := by
          have hpos : degree t - 1 ≠ 0 := by omega
          simp only [relax, hpos, if_false]
        have hdegree' : ∀ u ∈ ts, u ≠ t → Function.update degree t (degree t - 1) u = 1 := by
          intro u hu hne
          rw [Function.update_of_ne hne]
          exact hdegree u (List.mem_cons_of_mem t hu) hne
        have hend' : ts.count t < Function.update degree t (degree t - 1) t := by
          rw [Function.update_self]
          omega
        obtain ⟨degree', hfold, hdegreeT, hsame⟩ := ih hdegree' hnodup hend' queue
        refine ⟨degree', ?_, ?_, fun u hu => ?_⟩
        · rw [List.foldl_cons, hrelax, hfold]
        · rw [hdegreeT, Function.update_self, List.count_cons_self]
          omega
        · obtain ⟨hne, hnot⟩ := not_or.mp (List.mem_cons.not.mp hu)
          rw [hsame u hnot, Function.update_of_ne hne]
      · have hne : decide (t ≠ w) = true := decide_eq_true ht
        have hfilter : (t :: ts).filter (· ≠ w) = t :: ts.filter (· ≠ w) :=
          List.filter_cons_of_pos hne
        rw [hfilter] at hnodup ⊢
        obtain ⟨hnot, hnodup⟩ := List.nodup_cons.mp hnodup
        rw [List.count_cons_of_ne ht] at hend ⊢
        have hone : degree t = 1 := hdegree t List.mem_cons_self ht
        have hrelax : relax ⟨degree, queue, order⟩ t =
            ⟨Function.update degree t 0, t :: queue, order⟩ := by
          simp only [relax, hone, Nat.sub_self, if_true]
        have hdegree' : ∀ u ∈ ts, u ≠ w → Function.update degree t 0 u = 1 := by
          intro u hu huw
          have hut : u ≠ t := by
            rintro rfl
            exact hnot (List.mem_filter.mpr ⟨hu, hne⟩)
          rw [Function.update_of_ne hut]
          exact hdegree u (List.mem_cons_of_mem t hu) huw
        have hupdate : Function.update degree t 0 w = degree w :=
          Function.update_of_ne (Ne.symm ht) _ _
        obtain ⟨degree', hfold, hdegreeW, hsame⟩ := ih hdegree' hnodup
          (hupdate.symm ▸ hend) (t :: queue)
        refine ⟨degree', ?_, hdegreeW.trans (by rw [hupdate]), fun u hu => ?_⟩
        · rw [List.foldl_cons, hrelax, hfold, List.reverse_cons, List.append_assoc]
          rfl
        · obtain ⟨hut, hnot⟩ := not_or.mp (List.mem_cons.not.mp hu)
          rw [hsame u hnot, Function.update_of_ne hut]

/-- Relaxing all edges into a node queues it. -/
theorem foldl_relax_replicate {n : ℕ} (hn : n ≠ 0) {w : α} {degree : α → ℕ}
    (hend : degree w = n) (queue order : List α) :
    ∃ degree', (List.replicate n w).foldl relax ⟨degree, queue, order⟩ =
      ⟨degree', w :: queue, order⟩ := by
  induction n generalizing degree with
  | zero => exact absurd rfl hn
  | succ n ih =>
      have hpred : degree w - 1 = n := by omega
      rw [List.replicate_succ, List.foldl_cons, relax]
      by_cases hzero : n = 0
      · subst hzero
        exact ⟨_, by rw [if_pos hpred]; rfl⟩
      · rw [if_neg (hpred ▸ hzero)]
        refine ih hzero ?_
        rw [Function.update_self, hpred]

end Kahn
