import Weftik.Ld.Compiler
import Weftik.Ld.Cycle

/-!
# The Rungs of a Ladder Text

A network of ladder text as a rung: each contact in series leads from the node reached so
far to a new node, and each parallel contact from the left rail to the node reached so far.
Such a network has no stray edges, so that the power at its output is the value of its
contacts, combined from left to right.

## Main definitions

* `contactNetwork`: the network of some contacts.
* `contactsPower`: the value of some contacts.
* `Corresponds`: a rung is that of a network of ladder text.

## Main results

* `evaluate_contactNetwork`: the power of a network is the value of its contacts.
-/

namespace Weftik.Ld

/-- The contact of an element. -/
def plainContact (normallyOpen : Bool) (var : String) : Contact :=
  if normallyOpen then .no var else .nc var

theorem length_addNode (net : ContactNetwork) :
    net.addNode.1.nodes.length = net.nodes.length + 1 :=
  List.length_append

/-- The network with one more node, to which the contact leads from the last node. -/
def addSeries (net : ContactNetwork) (c : Contact) : ContactNetwork :=
  net.addNode.1.insertEdge (net.nodes.length - 1) net.nodes.length c (by
    rw [ContactNetwork.length_outgoing, length_addNode]
    exact (Nat.sub_le _ 1).trans_lt (Nat.lt_succ_self _))

theorem length_addSeries (net : ContactNetwork) (c : Contact) :
    (addSeries net c).nodes.length = net.nodes.length + 1 :=
  length_addNode net

/-- The network with one more contact, from the left rail to the last node. -/
def addParallel (net : ContactNetwork) (h : 0 < net.nodes.length) (c : Contact) :
    ContactNetwork :=
  net.insertEdge 0 (net.nodes.length - 1) c (by rwa [ContactNetwork.length_outgoing])

/-- A network that has a left rail. -/
abbrev RailNetwork := { net : ContactNetwork // 0 < net.nodes.length }

/-- The left rail alone. -/
def railOnly : RailNetwork :=
  ⟨ContactNetwork.new.addNode.1.setLeftRail 0, Nat.one_pos⟩

/-- One more contact of a network of ladder text; coils do not change the network. -/
def addElement (net : RailNetwork) : LdElement → RailNetwork
  | .contact no v =>
      ⟨addSeries net.1 (plainContact no v), length_addSeries net.1 _ ▸ Nat.succ_pos _⟩
  | .parallelContact no v => ⟨addParallel net.1 net.2 (plainContact no v), net.2⟩
  | .edgeContact rising v =>
      ⟨addSeries net.1 (if rising then .posEdge v else .negEdge v),
          length_addSeries net.1 _ ▸ Nat.succ_pos _⟩
  | .coil _ _ => net

/-- The network of the elements of a network of ladder text. -/
def contactNetwork (es : List LdElement) : ContactNetwork :=
  let net := es.foldl addElement railOnly
  net.1.setOutputNode (net.1.nodes.length - 1)

/-- The coil of an element. -/
def LdElement.coil? : LdElement → Option Coil
  | .coil .out v => some ⟨v, .out⟩
  | .coil .set v => some ⟨v, .set⟩
  | .coil .reset v => some ⟨v, .reset⟩
  | _ => none

/-- The rung is that of a network of ladder text. -/
def Corresponds (rung : RungDef) (es : List LdElement) : Prop :=
  rung.network = contactNetwork es ∧ rung.coils = es.filterMap LdElement.coil?

/-- The value of an element of a network, from the value before it. -/
def elementPower (snapshot : InputSnapshot) (power : Bool) : LdElement → Bool
  | .contact no v => power && (plainContact no v).isClosed snapshot
  | .parallelContact no v => power || (plainContact no v).isClosed snapshot
  | _ => power

/-- The value of some contacts, which the left rail begins with `TRUE`. -/
def contactsPower (snapshot : InputSnapshot) (es : List LdElement) : Bool :=
  es.foldl (elementPower snapshot) true

/-! ### Networks built from left to right -/

/-- The element is a contact that does not detect edges, or a coil. -/
def LdElement.isPlain : LdElement → Bool
  | .edgeContact _ _ => false
  | _ => true

/-- A network built from left to right: its edges lead to greater nodes, and every node but
the left rail has an edge into it. -/
structure LeftToRight (net : ContactNetwork) : Prop where
  reached : Reached net none
  pos : 0 < net.nodes.length
  leftRail_eq : net.leftRail = some 0
  dirty : net.dirty = true
  source_lt : ∀ e ∈ net.edges, e.source < e.target
  target_lt : ∀ e ∈ net.edges, e.target < net.nodes.length
  edge_into : ∀ v, 0 < v → v < net.nodes.length → ∃ u, net.graph.Edge u v
  plain : ∀ e ∈ net.edges, e.contact.isPlain = true

theorem leftToRight_railOnly : LeftToRight railOnly.1 where
  reached := (Reached.addNode .new).setLeftRail 0
  pos := Nat.one_pos
  leftRail_eq := rfl
  dirty := rfl
  source_lt := List.forall_mem_nil _
  target_lt := List.forall_mem_nil _
  edge_into v hpos hlt := absurd hlt (by
    rw [show railOnly.1.nodes.length = 1 from rfl]
    omega)
  plain := List.forall_mem_nil _

theorem isPlain_plainContact (no : Bool) (v : String) : (plainContact no v).isPlain = true := by
  cases no <;> rfl

namespace LeftToRight

variable {net : ContactNetwork} {c : Contact} {snapshot : InputSnapshot}

/-- A contact in series keeps the shape. -/
theorem addSeries (h : LeftToRight net) (hc : c.isPlain = true) :
    LeftToRight (addSeries net c) := by
  have hlength := length_addSeries net c
  have hpos := h.pos
  have hedge : ∀ e ∈ (Ld.addSeries net c).edges,
      e ∈ net.edges ∨ e = ⟨net.nodes.length - 1, net.nodes.length, c⟩ := by
    intro e he
    rcases List.mem_append.mp he with he | he
    · exact Or.inl he
    · exact Or.inr (List.mem_singleton.mp he)
  refine ⟨h.reached.addNode.insertEdge _ _ _ _, by omega, h.leftRail_eq, rfl, ?_, ?_, ?_, ?_⟩
  · intro e he
    rcases hedge e he with he | rfl
    · exact h.source_lt e he
    · exact Nat.sub_lt h.pos Nat.one_pos
  · intro e he
    rw [hlength]
    rcases hedge e he with he | rfl
    · exact (h.target_lt e he).trans (Nat.lt_succ_self _)
    · exact Nat.lt_succ_self _
  · intro v hv hlt
    rw [hlength] at hlt
    by_cases hlast : v < net.nodes.length
    · obtain ⟨u, e, he, hsrc, htgt⟩ := h.edge_into v hv hlast
      exact ⟨u, e, List.mem_append_left _ he, hsrc, htgt⟩
    · obtain rfl : v = net.nodes.length := by omega
      exact ⟨_, _, List.mem_append_right _ (List.mem_singleton_self _), rfl, rfl⟩
  · intro e he
    rcases hedge e he with he | rfl
    · exact h.plain e he
    · exact hc

/-- A parallel contact keeps the shape of a network with a contact. -/
theorem addParallel (h : LeftToRight net) (hc : c.isPlain = true)
    (hlast : 1 < net.nodes.length) : LeftToRight (addParallel net h.pos c) := by
  have hedge : ∀ e ∈ (Ld.addParallel net h.pos c).edges,
      e ∈ net.edges ∨ e = ⟨0, net.nodes.length - 1, c⟩ := by
    intro e he
    rcases List.mem_append.mp he with he | he
    · exact Or.inl he
    · exact Or.inr (List.mem_singleton.mp he)
  refine ⟨h.reached.insertEdge _ _ _ _, h.pos, h.leftRail_eq, rfl, ?_, ?_, ?_, ?_⟩
  · intro e he
    rcases hedge e he with he | rfl
    · exact h.source_lt e he
    · exact Nat.sub_pos_of_lt hlast
  · intro e he
    rcases hedge e he with he | rfl
    · exact h.target_lt e he
    · exact Nat.sub_lt h.pos Nat.one_pos
  · intro v hv hlt
    obtain ⟨u, e, he, hsrc, htgt⟩ := h.edge_into v hv hlt
    exact ⟨u, e, List.mem_append_left _ he, hsrc, htgt⟩
  · intro e he
    rcases hedge e he with he | rfl
    · exact h.plain e he
    · exact hc

/-- The new node is reached through the new contact only. -/
theorem closedPath_addSeries (h : LeftToRight net) :
    ClosedPath (Ld.addSeries net c) snapshot 0 net.nodes.length ↔
      ClosedPath net snapshot 0 (net.nodes.length - 1) ∧ c.isClosed snapshot = true := by
  -- A path in the new network stays in the old one until it ends at the new node.
  have hold : ∀ v, ClosedPath (Ld.addSeries net c) snapshot 0 v → v ≠ net.nodes.length →
      ClosedPath net snapshot 0 v := by
    intro v hpath
    induction hpath with
    | refl => exact fun _ => .refl
    | tail _ hlast ih =>
        intro hne
        obtain ⟨e, he, rfl, rfl, hclosed⟩ := hlast
        rcases List.mem_append.mp he with he | he
        · have hsource := (h.source_lt e he).trans (h.target_lt e he)
          exact (ih hsource.ne).tail ⟨e, he, rfl, rfl, hclosed⟩
        · rw [List.mem_singleton.mp he] at hne
          exact absurd rfl hne
  have hmono : ∀ v, ClosedPath net snapshot 0 v → ClosedPath (Ld.addSeries net c) snapshot 0 v :=
    Relation.ReflTransGen.mono
      (fun u v ⟨e, he, hrest⟩ => ⟨e, List.mem_append_left _ he, hrest⟩) 0
  constructor
  · intro hpath
    rcases Relation.ReflTransGen.cases_tail hpath with heq | ⟨u, hu, e, he, rfl, htgt, hclosed⟩
    · exact absurd heq h.pos.ne'
    · rcases List.mem_append.mp he with he | he
      · exact absurd htgt (h.target_lt e he).ne
      · obtain rfl := List.mem_singleton.mp he
        exact ⟨hold _ hu (Nat.sub_lt h.pos Nat.one_pos).ne, hclosed⟩
  · rintro ⟨hpath, hclosed⟩
    exact (hmono _ hpath).tail
      ⟨_, List.mem_append_right _ (List.mem_singleton_self _), rfl, rfl, hclosed⟩

/-- The last node is reached as before, or through the new contact. -/
theorem closedPath_addParallel (h : LeftToRight net) :
    ClosedPath (Ld.addParallel net h.pos c) snapshot 0 (net.nodes.length - 1) ↔
      ClosedPath net snapshot 0 (net.nodes.length - 1) ∨ c.isClosed snapshot = true := by
  have hlast : ∀ v, ClosedPath (Ld.addParallel net h.pos c) snapshot 0 v →
      ClosedPath net snapshot 0 v ∨
        c.isClosed snapshot = true ∧ ClosedPath net snapshot (net.nodes.length - 1) v := by
    intro v hpath
    induction hpath with
    | refl => exact Or.inl .refl
    | tail _ hlast ih =>
        obtain ⟨e, he, rfl, rfl, hclosed⟩ := hlast
        rcases List.mem_append.mp he with he | he
        · have hstep : ∃ e' ∈ net.edges, e'.source = e.source ∧ e'.target = e.target ∧
              e'.contact.isClosed snapshot = true := ⟨e, he, rfl, rfl, hclosed⟩
          rcases ih with hpath | ⟨hc, hpath⟩
          · exact Or.inl (hpath.tail hstep)
          · exact Or.inr ⟨hc, hpath.tail hstep⟩
        · obtain rfl := List.mem_singleton.mp he
          exact Or.inr ⟨hclosed, .refl⟩
  constructor
  · intro hpath
    exact (hlast _ hpath).imp id And.left
  · rintro (hpath | hclosed)
    · exact Relation.ReflTransGen.mono
        (fun u v ⟨e, he, hrest⟩ => ⟨e, List.mem_append_left _ he, hrest⟩) _ _ hpath
    · exact .single ⟨_, List.mem_append_right _ (List.mem_singleton_self _), rfl, rfl, hclosed⟩

/-- Every node is fed by the left rail. -/
theorem fed (h : LeftToRight net) {v : NodeId} (hv : v < net.nodes.length) :
    net.graph.Fed [0] v := by
  induction v using Nat.strong_induction_on with
  | _ v ih =>
      rcases Nat.eq_zero_or_pos v with rfl | hpos
      · exact .seed (List.mem_singleton_self 0)
      · refine .edges (h.edge_into v hpos hv) fun u hu => ?_
        obtain ⟨e, he, rfl, rfl⟩ := hu
        have hlt := h.source_lt e he
        exact ih _ hlt (hlt.trans hv)

/-- With an output node, the network is a ladder network. -/
theorem isLadder (h : LeftToRight net) :
    IsLadder (net.setOutputNode (net.nodes.length - 1)) 0 (net.nodes.length - 1) where
  inBounds := ⟨h.target_lt, fun r hr => by
    obtain rfl := Option.some.inj (h.leftRail_eq.symm.trans hr)
    exact h.pos⟩
  leftRail_eq := h.leftRail_eq
  outputNode_eq := rfl
  acyclic := acyclic_of_lt h.source_lt
  no_edge_into_rail := by
    rintro u ⟨e, he, -, htgt⟩
    have hlt : e.source < e.target := h.source_lt e he
    rw [show e.target = 0 from htgt] at hlt
    exact Nat.not_lt_zero _ hlt
  plain := h.plain

end LeftToRight

/-! ### The power of a network -/

/-- A network of ladder text: a contact, then contacts that do not detect edges, then
coils. -/
inductive IsRung : List LdElement → Prop
  | mk (no : Bool) (v : String) (contacts coils : List LdElement) :
      (∀ e ∈ contacts, ∃ no v, e = .contact no v ∨ e = .parallelContact no v) →
      (∀ e ∈ coils, ∃ kind v, e = .coil kind v) →
      IsRung (.contact no v :: (contacts ++ coils))

/-- The output of the network of a rung is powered exactly when the contacts have the value
`TRUE`. -/
theorem contactNetwork_spec (snapshot : InputSnapshot) {es : List LdElement}
    (h : IsRung es) : LeftToRight (es.foldl addElement railOnly).1 ∧
      (ClosedPath (es.foldl addElement railOnly).1 snapshot 0
        ((es.foldl addElement railOnly).1.nodes.length - 1) ↔
          contactsPower snapshot es = true) := by
  -- Contacts in series and in parallel after the first one.
  have hcontacts : ∀ (contacts : List LdElement) (net : RailNetwork) (power : Bool),
      (∀ e ∈ contacts, ∃ no v, e = .contact no v ∨ e = .parallelContact no v) →
      LeftToRight net.1 → 1 < net.1.nodes.length →
      (ClosedPath net.1 snapshot 0 (net.1.nodes.length - 1) ↔ power = true) →
      LeftToRight (contacts.foldl addElement net).1 ∧
        (ClosedPath (contacts.foldl addElement net).1 snapshot 0
          ((contacts.foldl addElement net).1.nodes.length - 1) ↔
            contacts.foldl (elementPower snapshot) power = true) := by
    intro contacts
    induction contacts with
    | nil => exact fun net power _ hnet _ hpower => ⟨hnet, hpower⟩
    | cons e contacts ih =>
        intro net power hcontacts hnet hlast hpower
        have hrest := fun e' he' => hcontacts e' (List.mem_cons_of_mem e he')
        obtain ⟨no, v, rfl | rfl⟩ := hcontacts e List.mem_cons_self
        · have hlength := length_addSeries net.1 (plainContact no v)
          refine ih _ _ hrest (hnet.addSeries (isPlain_plainContact no v)) ?_ ?_
          · exact hlength ▸ hlast.trans (Nat.lt_succ_self _)
          · rw [elementPower, Bool.and_eq_true, ← hpower, ← hnet.closedPath_addSeries]
            rw [addElement, hlength, Nat.add_sub_cancel]
        · refine ih _ _ hrest (hnet.addParallel (isPlain_plainContact no v) hlast) hlast ?_
          rw [elementPower, Bool.or_eq_true, ← hpower, ← hnet.closedPath_addParallel]
          rfl
  have hcoils : ∀ (coils : List LdElement) (net : RailNetwork) (power : Bool),
      (∀ e ∈ coils, ∃ kind v, e = .coil kind v) →
      coils.foldl addElement net = net ∧
        coils.foldl (elementPower snapshot) power = power := by
    intro coils
    induction coils with
    | nil => exact fun net power _ => ⟨rfl, rfl⟩
    | cons e coils ih =>
        intro net power hcoils
        obtain ⟨kind, v, rfl⟩ := hcoils e List.mem_cons_self
        exact ih net power fun e' he' => hcoils e' (List.mem_cons_of_mem _ he')
  obtain ⟨no, v, contacts, coils, hcontact, hcoil⟩ := h
  have hfirst := leftToRight_railOnly.addSeries (isPlain_plainContact no v)
  have hpower : ClosedPath (addSeries railOnly.1 (plainContact no v)) snapshot 0 1 ↔
      (true && (plainContact no v).isClosed snapshot) = true := by
    rw [Bool.and_eq_true]
    exact leftToRight_railOnly.closedPath_addSeries.trans
      (and_congr_left fun _ => iff_of_true .refl rfl)
  obtain ⟨hnet, hvalue⟩ := hcontacts contacts (addElement railOnly (.contact no v)) _ hcontact
    hfirst Nat.one_lt_two hpower
  obtain ⟨hsame, hsamePower⟩ := hcoils coils
    (contacts.foldl addElement (addElement railOnly (.contact no v)))
    (contacts.foldl (elementPower snapshot) (elementPower snapshot true (.contact no v))) hcoil
  rw [contactsPower, List.foldl_cons, List.foldl_cons, List.foldl_append, List.foldl_append,
    hsame, hsamePower]
  exact ⟨hnet, hvalue⟩

/-- The evaluation of the network of a rung ends with the value of its contacts. -/
theorem evaluate_contactNetwork {es : List LdElement} (h : IsRung es)
    (snapshot : InputSnapshot) (edges : EdgeState) :
    ∃ fuel net' edges', evaluatePowerFlow fuel (contactNetwork es) snapshot edges =
      some (.ok (contactsPower snapshot es, net', edges')) := by
  obtain ⟨hnet, hvalue⟩ := contactNetwork_spec snapshot h
  have hrail : orderRail (contactNetwork es) none = some 0 := by
    rw [orderRail, contactNetwork]
    exact (if_pos hnet.dirty).trans hnet.leftRail_eq
  have hfed : ∀ e ∈ (contactNetwork es).edges, (contactNetwork es).graph.Fed
      ((contactNetwork es).seeds (orderRail (contactNetwork es) none)) e.source := by
    intro e he
    rw [hrail]
    exact hnet.fed ((hnet.source_lt e he).trans (hnet.target_lt e he))
  obtain ⟨fuel, power, net', edges', heval, hpower⟩ :=
    evaluatePowerFlow_of_fed (hnet.reached.setOutputNode _) hnet.isLadder hfed snapshot edges
  have heq : power = contactsPower snapshot es := by
    rw [Bool.eq_iff_iff, hpower, ← hvalue]
    rfl
  exact ⟨fuel, net', edges', heq ▸ heval⟩

end Weftik.Ld
