import Weftik.LdLayout.Layout

/-!
# Overlapping Elements of Laid-Out Diagrams

The layout counts the contacts before an element and takes the element's own width for each of
them, and it keeps one function block in mind. The places of wider elements, of what stands
behind a second function block, and of long chains then run into each other, into the coils or
over the right rail, and a high element reaches into the rows below.

## Main definitions

* `LdLayout.WellLaid`: what is expected of a laid-out diagram.
* `LdLayout.Roomy`: the widths and heights for which it happens.

## Main results

* `LdLayout.wellLaid_iff`: exactly the roomy diagrams are laid out well.
* `LdLayout.wellLaid_narrowing`: a narrow contact behind a wide one.
-/

namespace Weftik.LdLayout

/-! ### What is expected -/

/-- The coils among some nodes. -/
def coilsOf (es : List LayoutNode) : List LayoutNode := es.filter fun e => e.kind = "node:coil"

/-- The boxes of distinct nodes do not overlap, contacts and function blocks of a rung stand
from left to right in the order of its elements, coils right of them all, and nothing but the
rail at or beyond the right rail. -/
structure WellLaid (out : Diagram) : Prop where
  apart : ∀ a ∈ out.nodes, ∀ b ∈ out.nodes, a.id ≠ b.id → ¬ a.Overlaps b
  leftToRight : ∀ rung ∈ out.rungs,
    ((elements out.nodes rung).filter InChain).Pairwise fun a b => a.position.x < b.position.x
  coilsRight : ∀ rung ∈ out.rungs, ∀ a ∈ (elements out.nodes rung).filter InChain,
    ∀ c ∈ coilsOf (elements out.nodes rung), a.right ≤ c.position.x
  beforeRail : ∀ n ∈ out.nodes, n.kind ≠ "node:powerrail" → n.right < railRightX

/-! ### Room in a rung -/

/-- The contact or function block `b` has room behind `a`; `n` contacts stand before `a`, and
the last function block before it has the width `fb`. -/
def Clear (n : ℕ) (fb : Option ℚ) (a b : LayoutNode) : Prop :=
  if a.kind = "node:contact" then
    if b.kind = "node:contact" then
      (n + 1) * (a.size.width - b.size.width) ≤ elementSpacingX
    else
      match fb with
      | none => (n + 1) * (a.size.width - b.size.width) ≤ elementSpacingX
      | some fbWidth => fbWidth + (n + 1) * (a.size.width - b.size.width) ≤ 0
  else if b.kind = "node:contact" then n * (a.size.width - b.size.width) ≤ elementSpacingX
  else a.size.width + n * (a.size.width - b.size.width) ≤ 0

/-- Each contact and function block has room behind the one before it. -/
def Spaced : ℕ → Option ℚ → List LayoutNode → Prop
  | n, fb, a :: b :: rest =>
      Clear n fb a b ∧
        if a.kind = "node:contact" then Spaced (n + 1) fb (b :: rest)
        else Spaced n (some a.size.width) (b :: rest)
  | _, _, _ => True

/-- The coils of a rung have room. -/
def CoilsClear (coils : List LayoutNode) : Prop :=
  ∀ (j k : ℕ) a b, j < k → coils[j]? = some a → coils[k]? = some b →
    a.size.width + j * (a.size.width + elementSpacingX) ≤ k * (b.size.width + elementSpacingX) ∨
      b.size.width + k * (b.size.width + elementSpacingX) ≤ j * (a.size.width + elementSpacingX)

/-- The elements of a rung at their places. -/
def rungRow (input : Diagram) (k : ℕ) (rung : RungDef) : List LayoutNode :=
  rungChain input k rung ++ rungCoils input k rung

/-- Contacts, function blocks and coils. -/
def InRung (n : LayoutNode) : Prop := InChain n ∨ n.kind = "node:coil"

/-- The diagram has room: in each rung, between its rows, and where there are other nodes. -/
structure Roomy (input : Diagram) : Prop where
  spaced : ∀ rung ∈ input.rungs, Spaced 0 none ((elements input.nodes rung).filter InChain)
  coilsClear : ∀ rung ∈ input.rungs, CoilsClear (coilsOf (elements input.nodes rung))
  beforeCoils : ∀ (k : ℕ) rung, input.rungs[k]? = some rung →
    coilsOf (elements input.nodes rung) ≠ [] → ∀ e ∈ rungChain input k rung,
      e.right ≤ coilColumn input.nodes
  beforeRail : ∀ (k : ℕ) rung, input.rungs[k]? = some rung → ∀ e ∈ rungChain input k rung,
    e.right < railRightX
  coilsBeforeRail : ∀ rung ∈ input.rungs, ∀ (j : ℕ) c,
    (coilsOf (elements input.nodes rung))[j]? = some c →
      j * (c.size.width + elementSpacingX) + c.size.width <
        maxElementWidth input.nodes + railWidth + 60
  rows : ∀ (i j : ℕ) rung rung', i < j → input.rungs[i]? = some rung →
    input.rungs[j]? = some rung' → ∀ a ∈ rungRow input i rung, ∀ b ∈ rungRow input j rung',
      a.size.height ≤ (j - i) * (defaultElementHeight + rungSpacingY) ∨
        a.right ≤ b.position.x ∨ b.right ≤ a.position.x
  others : ∀ a ∈ input.nodes, ¬ InRung a →
    (a.kind ≠ "node:powerrail" → a.right < railRightX) ∧
      (∀ b ∈ input.nodes, ¬ InRung b → a.id ≠ b.id →
        ¬ (railed input a).Overlaps (railed input b)) ∧
      ∀ (k : ℕ) rung, input.rungs[k]? = some rung → ∀ e ∈ rungRow input k rung,
        ¬ (railed input a).Overlaps e

/-! ### Boxes -/

theorem overlaps_comm {a b : LayoutNode} : a.Overlaps b ↔ b.Overlaps a := by
  rw [LayoutNode.Overlaps, LayoutNode.Overlaps]
  constructor
  · rintro ⟨h₁, h₂, h₃, h₄⟩
    exact ⟨h₂, h₁, h₄, h₃⟩
  · rintro ⟨h₁, h₂, h₃, h₄⟩
    exact ⟨h₂, h₁, h₄, h₃⟩

/-- Boxes in a row are apart when one is left of the other. -/
theorem not_overlaps_row {a b : LayoutNode} (hy : a.position.y = b.position.y)
    (ha : 0 < a.size.height) (hb : 0 < b.size.height) :
    ¬ a.Overlaps b ↔ a.right ≤ b.position.x ∨ b.right ≤ a.position.x := by
  have hyb : a.position.y < b.bottom := by
    rw [LayoutNode.bottom, hy]
    linarith
  have hya : a.bottom > b.position.y := by
    rw [LayoutNode.bottom, hy]
    linarith
  rw [LayoutNode.Overlaps, and_iff_left hya, and_iff_left hyb, not_and_or, not_lt, gt_iff_lt,
    not_lt, or_comm]

/-- Boxes in two rows are apart when the upper one is not too high, or one is left of the
other. -/
theorem not_overlaps_rows {a b : LayoutNode} {i j : ℕ} (hij : i < j)
    (hya : a.position.y = rowY i) (hyb : b.position.y = rowY j) (hb : 0 < b.size.height) :
    ¬ a.Overlaps b ↔
      a.size.height ≤ (j - i) * (defaultElementHeight + rungSpacingY) ∨
        a.right ≤ b.position.x ∨ b.right ≤ a.position.x := by
  have hlt : (i : ℚ) < j := Nat.cast_lt.mpr hij
  have hpitch : (0 : ℚ) < defaultElementHeight + rungSpacingY := by
    norm_num [defaultElementHeight, rungSpacingY]
  have hrows : a.position.y < b.position.y := by
    rw [hya, hyb, rowY, rowY]
    have := mul_lt_mul_of_pos_right hlt hpitch
    linarith
  have hbottom : a.position.y < b.bottom := by
    rw [LayoutNode.bottom]
    linarith
  have hhigh : a.bottom > b.position.y ↔
      ¬ a.size.height ≤ (j - i) * (defaultElementHeight + rungSpacingY) := by
    rw [LayoutNode.bottom, hya, hyb, rowY, rowY, not_le, gt_iff_lt, sub_mul]
    constructor <;> intro h <;> linarith
  rw [LayoutNode.Overlaps, and_iff_right hbottom, hhigh, not_and_or, not_and_or, not_lt,
    gt_iff_lt, not_lt, not_not]
  tauto

/-! ### Contacts and function blocks -/

section

variable {input : Diagram} {y : ℚ} {n : ℕ} {fb : Option ℚ} {es : List LayoutNode}

/-- The element at the place of the first of a chain. -/
def chainHead (y : ℚ) (n : ℕ) (fb : Option ℚ) (e : LayoutNode) : LayoutNode :=
  e.movedTo ⟨if e.kind = "node:contact" then contactX n fb e.size.width
    else fbX n e.size.width, y⟩

theorem chain_cons {e : LayoutNode} (he : InChain e) :
    chain y n fb (e :: es) =
      chainHead y n fb e ::
        if e.kind = "node:contact" then chain y (n + 1) fb es
        else chain y n (some e.size.width) es := by
  rw [chain, chainHead]
  by_cases hcontact : e.kind = "node:contact"
  · rw [if_pos hcontact, if_pos hcontact, if_pos hcontact]
  · rw [if_neg hcontact, if_pos (he.resolve_left hcontact), if_neg hcontact, if_neg hcontact]

/-- The place of an element is right of the one before exactly when there is room. -/
theorem clear_iff (y : ℚ) (n : ℕ) (fb : Option ℚ) (a b : LayoutNode) :
    (chainHead y n fb a).right ≤
        (if a.kind = "node:contact" then chainHead y (n + 1) fb b
          else chainHead y n (some a.size.width) b).position.x ↔
      Clear n fb a b := by
  unfold Clear
  by_cases hcontact : a.kind = "node:contact"
  · rw [if_pos hcontact, if_pos hcontact]
    by_cases hcontact' : b.kind = "node:contact"
    · rw [if_pos hcontact', chainHead, chainHead, if_pos hcontact, if_pos hcontact']
      change contactX n fb a.size.width + a.size.width ≤ contactX (n + 1) fb b.size.width ↔ _
      cases fb with
      | none =>
          rw [contactX, contactX]
          push_cast
          constructor <;> intro h <;> linarith
      | some fbWidth =>
          rw [contactX, contactX]
          push_cast
          constructor <;> intro h <;> linarith
    · rw [if_neg hcontact', chainHead, chainHead, if_pos hcontact, if_neg hcontact']
      change contactX n fb a.size.width + a.size.width ≤ fbX (n + 1) b.size.width ↔ _
      cases fb with
      | none =>
          rw [contactX, fbX]
          push_cast
          constructor <;> intro h <;> linarith
      | some fbWidth =>
          rw [contactX, fbX]
          push_cast
          constructor <;> intro h <;> linarith
  · rw [if_neg hcontact, if_neg hcontact]
    by_cases hcontact' : b.kind = "node:contact"
    · rw [if_pos hcontact', chainHead, chainHead, if_neg hcontact, if_pos hcontact']
      change fbX n a.size.width + a.size.width ≤ contactX n (some a.size.width) b.size.width ↔ _
      rw [contactX, fbX]
      constructor <;> intro h <;> linarith
    · rw [if_neg hcontact', chainHead, chainHead, if_neg hcontact, if_neg hcontact']
      change fbX n a.size.width + a.size.width ≤ fbX n b.size.width ↔ _
      rw [fbX, fbX]
      constructor <;> intro h <;> linarith

/-- What is in a chain is an element at its place. -/
theorem mem_chain {e' : LayoutNode} (he : e' ∈ chain y n fb es) :
    ∃ e ∈ es, ∃ x, e' = e.movedTo ⟨x, y⟩ := by
  induction es generalizing n fb with
  | nil => cases he
  | cons e es ih =>
      rw [chain] at he
      split at he
      · rcases List.mem_cons.mp he with rfl | he
        · exact ⟨e, List.mem_cons_self, _, rfl⟩
        · obtain ⟨a, ha, hx⟩ := ih he
          exact ⟨a, List.mem_cons_of_mem _ ha, hx⟩
      · split at he
        · rcases List.mem_cons.mp he with rfl | he
          · exact ⟨e, List.mem_cons_self, _, rfl⟩
          · obtain ⟨a, ha, hx⟩ := ih he
            exact ⟨a, List.mem_cons_of_mem _ ha, hx⟩
        · obtain ⟨a, ha, hx⟩ := ih he
          exact ⟨a, List.mem_cons_of_mem _ ha, hx⟩

/-- Other nodes are not in a chain. -/
theorem chain_filter (y : ℚ) (n : ℕ) (fb : Option ℚ) (es : List LayoutNode) :
    chain y n fb (es.filter InChain) = chain y n fb es := by
  induction es generalizing n fb with
  | nil => rfl
  | cons e es ih =>
      rw [List.filter_cons]
      by_cases hin : InChain e
      · rw [if_pos (decide_eq_true hin), chain_cons hin, chain_cons hin, ih, ih]
      · rw [if_neg (by simpa using hin), ih, chain, if_neg (fun h => hin (Or.inl h)),
          if_neg (fun h => hin (Or.inr h))]

/-- What is left of the first element of a chain is left of them all. -/
theorem forall_chain_iff {b : LayoutNode} (hb : InChain b) (hwidth : 0 < b.size.width) {c : ℚ} :
    (∀ e ∈ chain y n fb (b :: es), c ≤ e.position.x) ∧
        (chain y n fb (b :: es)).Pairwise (fun a b => a.right ≤ b.position.x) ↔
      c ≤ (chainHead y n fb b).position.x ∧
        (chain y n fb (b :: es)).Pairwise (fun a b => a.right ≤ b.position.x) := by
  refine and_congr_left fun hpairs => ?_
  rw [chain_cons hb] at hpairs ⊢
  rw [List.forall_mem_cons]
  refine ⟨And.left, fun hc => ⟨hc, fun e he => ?_⟩⟩
  have hright := (List.pairwise_cons.mp hpairs).1 e he
  have hwide : (chainHead y n fb b).position.x < (chainHead y n fb b).right :=
    lt_add_of_pos_right _ hwidth
  linarith

/-- The elements of a chain stand from left to right exactly when they are spaced. -/
theorem pairwise_chain_iff (hes : ∀ e ∈ es, InChain e) (hpos : ∀ e ∈ es, 0 < e.size.width) :
    (chain y n fb es).Pairwise (fun a b => a.right ≤ b.position.x) ↔ Spaced n fb es := by
  induction es generalizing n fb with
  | nil => exact iff_of_true List.Pairwise.nil trivial
  | cons a rest ih =>
      rw [List.forall_mem_cons] at hes hpos
      cases rest with
      | nil =>
          rw [chain_cons hes.1, Spaced]
          · simp [chain]
          · simp
      | cons b rest =>
          have hb := (List.forall_mem_cons.mp hes.2).1
          have hwidth := (List.forall_mem_cons.mp hpos.2).1
          rw [chain_cons hes.1, Spaced, List.pairwise_cons]
          refine Iff.trans ?_ (and_congr_left' (clear_iff y n fb a b))
          by_cases hcontact : a.kind = "node:contact"
          · rw [if_pos hcontact, if_pos hcontact, if_pos hcontact, forall_chain_iff hb hwidth,
              ih hes.2 hpos.2]
          · rw [if_neg hcontact, if_neg hcontact, if_neg hcontact, forall_chain_iff hb hwidth,
              ih hes.2 hpos.2]

end

/-! ### Coils -/

section

variable {x y : ℚ} {es : List LayoutNode}

/-- The coil at an index, at its place. -/
theorem getElem?_coilRow (i j : ℕ) :
    (coilRow x y i es)[j]? = (coilsOf es)[j]?.map fun e =>
      e.movedTo ⟨x + (i + j : ℕ) * (e.size.width + elementSpacingX), y⟩ := by
  induction es generalizing i j with
  | nil => rfl
  | cons e es ih =>
      rw [coilRow, coilsOf, List.filter_cons]
      by_cases hcoil : e.kind = "node:coil"
      · rw [if_pos hcoil, if_pos (decide_eq_true hcoil)]
        cases j with
        | zero => rfl
        | succ j =>
            rw [List.getElem?_cons_succ, List.getElem?_cons_succ, ih, Nat.add_assoc,
              Nat.add_comm 1 j]
            rfl
      · rw [if_neg hcoil, if_neg (by simpa using hcoil), ih]
        rfl

/-- What is in a row of coils is a coil at its place. -/
theorem mem_coilRow {c' : LayoutNode} (hc : c' ∈ coilRow x y 0 es) :
    ∃ (j : ℕ) (c : LayoutNode), (coilsOf es)[j]? = some c ∧
      c' = c.movedTo ⟨x + j * (c.size.width + elementSpacingX), y⟩ := by
  obtain ⟨j, hj⟩ := List.mem_iff_getElem?.mp hc
  rw [getElem?_coilRow, Nat.zero_add, Option.map_eq_some_iff] at hj
  obtain ⟨c, hcoil, rfl⟩ := hj
  exact ⟨j, c, hcoil, rfl⟩

theorem mem_of_coilsOf {j : ℕ} {c : LayoutNode} (hc : (coilsOf es)[j]? = some c) :
    c ∈ es ∧ c.kind = "node:coil" := by
  have hmem := List.mem_filter.mp (List.mem_of_getElem? hc)
  exact ⟨hmem.1, of_decide_eq_true hmem.2⟩

/-- The first coil is at the column of the coils, and none is left of it. -/
theorem forall_coilRow_iff (hpos : ∀ e ∈ es, 0 < e.size.width) {c : ℚ} :
    (∀ e ∈ coilRow x y 0 es, c ≤ e.position.x) ↔ (coilsOf es ≠ [] → c ≤ x) := by
  constructor
  · intro h hne
    obtain ⟨e, rest, hcoils⟩ := List.exists_cons_of_ne_nil hne
    have hfirst : (coilRow x y 0 es)[0]? =
        some (e.movedTo ⟨x + (0 + 0 : ℕ) * (e.size.width + elementSpacingX), y⟩) := by
      rw [getElem?_coilRow, hcoils]
      rfl
    have hle := h _ (List.mem_of_getElem? hfirst)
    simpa [LayoutNode.movedTo] using hle
  · intro h e he
    obtain ⟨j, e', he', rfl⟩ := mem_coilRow he
    have hne : coilsOf es ≠ [] := by
      intro hnil
      rw [hnil] at he'
      cases he'
    have hwidth := hpos e' (mem_of_coilsOf he').1
    have hspace : (0 : ℚ) ≤ j * (e'.size.width + elementSpacingX) := by
      refine mul_nonneg (Nat.cast_nonneg j) ?_
      rw [elementSpacingX]
      linarith
    have := h hne
    change c ≤ x + j * (e'.size.width + elementSpacingX)
    linarith

end

/-! ### The laid-out diagram -/

/-- Laying out keeps the identifier and the kind. -/
@[simp] theorem id_laidOut (input : Diagram) (n : LayoutNode) : (laidOut input n).id = n.id := by
  rw [laidOut, railed, layoutRail]
  split
  · split <;> rfl
  · rfl

@[simp] theorem kind_laidOut (input : Diagram) (n : LayoutNode) :
    (laidOut input n).kind = n.kind := by
  rw [laidOut, railed, layoutRail]
  split
  · split <;> rfl
  · rfl

/-- The elements of a rung, laid out. -/
theorem elements_laidOut {input : Diagram} (nodes : List LayoutNode) (rung : RungDef) :
    elements (nodes.map (laidOut input)) rung = (elements nodes rung).map (laidOut input) := by
  rw [elements, elements, List.map_filterMap]
  refine List.filterMap_congr fun id _ => ?_
  rw [find, find, List.find?_map]
  congr 2
  funext n
  rw [Function.comp, id_laidOut]

/-- The contacts and function blocks of a rung, laid out. -/
theorem filter_inChain_laidOut {input : Diagram} (es : List LayoutNode) :
    (es.map (laidOut input)).filter InChain = (es.filter InChain).map (laidOut input) := by
  rw [List.filter_map]
  congr 2
  funext n
  rw [Function.comp, decide_eq_decide, InChain, InChain, kind_laidOut]

theorem coilsOf_laidOut {input : Diagram} (es : List LayoutNode) :
    coilsOf (es.map (laidOut input)) = (coilsOf es).map (laidOut input) := by
  rw [coilsOf, coilsOf, List.filter_map]
  congr 2
  funext n
  rw [Function.comp, kind_laidOut]

/-- The numbered rungs are the rungs, one by one. -/
theorem forall_autoNumber {rungs : List RungDef} {Q : RungDef → Prop} :
    (∀ rung ∈ autoNumber rungs, Q rung) ↔
      ∀ (k : ℕ) rung, rungs[k]? = some rung → Q { rung with rungNumber := k + 1 } := by
  constructor
  · intro h k rung hk
    refine h _ (List.mem_of_getElem? (i := k) ?_)
    rw [autoNumber, List.getElem?_mapIdx, hk]
    rfl
  · intro h rung hrung
    obtain ⟨k, hk⟩ := List.mem_iff_getElem?.mp hrung
    rw [autoNumber, List.getElem?_mapIdx, Option.map_eq_some_iff] at hk
    obtain ⟨rung', hk', rfl⟩ := hk
    exact h k rung' hk'

section

variable {input : Diagram} (h : Proper input)

include h

variable {rung : RungDef} {k : ℕ}

/-- What is in a row is an element of the rung, laid out. -/
theorem mem_rungRow (hk : input.rungs[k]? = some rung) {e : LayoutNode}
    (he : e ∈ rungRow input k rung) :
    ∃ n ∈ elements input.nodes rung, InRung n ∧ laidOut input n = e := by
  rcases List.mem_append.mp he with he | he
  · rw [← map_laidOut_rungChain h hk] at he
    obtain ⟨n, hn, rfl⟩ := List.mem_map.mp he
    exact ⟨n, (List.mem_filter.mp hn).1, Or.inl (of_decide_eq_true (List.mem_filter.mp hn).2), rfl⟩
  · rw [← map_laidOut_rungCoils h hk] at he
    obtain ⟨n, hn, rfl⟩ := List.mem_map.mp he
    exact ⟨n, (List.mem_filter.mp hn).1, Or.inr (of_decide_eq_true (List.mem_filter.mp hn).2), rfl⟩

/-- A contact, function block or coil is laid out in a row. -/
theorem exists_rungRow {n : LayoutNode} (hn : n ∈ input.nodes) (hin : InRung n) :
    ∃ (k : ℕ) (rung : RungDef), input.rungs[k]? = some rung ∧
      laidOut input n ∈ rungRow input k rung := by
  obtain ⟨rung, hrung, hmem⟩ := List.mem_flatMap.mp (h.mem hn)
  obtain ⟨k, hk⟩ := List.mem_iff_getElem?.mp hrung
  refine ⟨k, rung, hk, List.mem_append.mpr ?_⟩
  rcases hin with hchain | hcoil
  · rw [← map_laidOut_rungChain h hk]
    exact Or.inl (List.mem_map_of_mem (List.mem_filter.mpr ⟨hmem, decide_eq_true hchain⟩))
  · rw [← map_laidOut_rungCoils h hk]
    exact Or.inr (List.mem_map_of_mem (List.mem_filter.mpr ⟨hmem, decide_eq_true hcoil⟩))

omit h in
theorem mem_nodes_of_mem_elements {n : LayoutNode} (hn : n ∈ elements input.nodes rung) :
    n ∈ input.nodes := by
  obtain ⟨id, -, hfind⟩ := List.mem_filterMap.mp hn
  exact (find_some hfind).1

/-- The boxes of a row have the height of the row and positive sizes. -/
theorem rungRow_spec {e : LayoutNode} (he : e ∈ rungRow input k rung) :
    e.position.y = rowY k ∧ 0 < e.size.width ∧ 0 < e.size.height := by
  rcases List.mem_append.mp he with he | he
  · obtain ⟨n, hn, x, rfl⟩ := mem_chain he
    exact ⟨rfl, h.positive n (mem_nodes_of_mem_elements hn)⟩
  · obtain ⟨j, n, hn, rfl⟩ := mem_coilRow he
    exact ⟨rfl, h.positive n (mem_nodes_of_mem_elements (mem_of_coilsOf hn).1)⟩

/-- Two rungs have no element in common. -/
theorem id_ne_of_lt {i j : ℕ} {rung' : RungDef} (hij : i < j) (hi : input.rungs[i]? = some rung)
    (hj : input.rungs[j]? = some rung') {n m : LayoutNode} (hn : n ∈ elements input.nodes rung)
    (hm : m ∈ elements input.nodes rung') : n.id ≠ m.id := by
  have hnodup := h.nodup
  rw [allElements, List.map_flatMap, List.nodup_flatMap, List.pairwise_iff_getElem] at hnodup
  obtain ⟨hi', rfl⟩ := List.getElem?_eq_some_iff.mp hi
  obtain ⟨hj', rfl⟩ := List.getElem?_eq_some_iff.mp hj
  intro hid
  exact hnodup.2 i j hi' hj' hij (List.mem_map_of_mem hn) (hid ▸ List.mem_map_of_mem hm)

/-- The elements of a rung are named once. -/
theorem nodup_elements (hk : input.rungs[k]? = some rung) :
    ((elements input.nodes rung).map LayoutNode.id).Nodup := by
  have hnodup := h.nodup
  rw [allElements, List.map_flatMap, List.nodup_flatMap] at hnodup
  exact hnodup.1 rung (List.mem_of_getElem? hk)

/-- A node that is no contact, function block or coil is only laid out as a rail. -/
theorem laidOut_of_not_inRung {n : LayoutNode} (hn : n ∈ input.nodes) (hnot : ¬ InRung n) :
    laidOut input n = railed input n := by
  have hother : ∀ (p : LayoutNode → Bool), (∀ e, p e = true → InRung e) →
      n.id ∉ ((allElements input.nodes input.rungs).filter p).map LayoutNode.id := by
    intro p hp hmem
    obtain ⟨e, he, hid⟩ := List.mem_map.mp hmem
    rw [List.mem_filter] at he
    obtain rfl := List.inj_on_of_nodup_map h.nodup he.1 (h.mem hn) hid
    exact hnot (hp e he.2)
  have hnone : positions input n.id = none := by
    rw [positions, moveAll_of_notMem, moveAll_of_notMem]
    · rw [map_id_chains, allElements_autoNumber]
      exact hother _ fun e he => Or.inl (of_decide_eq_true he)
    · rw [map_id_coilRows, allElements_autoNumber]
      exact hother _ fun e he => Or.inr (of_decide_eq_true he)
  rw [laidOut, moved, hnone]
  rfl

/-- What is expected, of the nodes one by one and of the rows. -/
theorem wellLaid_layoutLd_iff :
    WellLaid (layoutLd input) ↔
      (∀ a ∈ input.nodes, ∀ b ∈ input.nodes, a.id ≠ b.id →
        ¬ (laidOut input a).Overlaps (laidOut input b)) ∧
      (∀ (k : ℕ) rung, input.rungs[k]? = some rung →
        (rungChain input k rung).Pairwise fun a b => a.position.x < b.position.x) ∧
      (∀ (k : ℕ) rung, input.rungs[k]? = some rung → ∀ a ∈ rungChain input k rung,
        ∀ c ∈ rungCoils input k rung, a.right ≤ c.position.x) ∧
      ∀ n ∈ input.nodes, n.kind ≠ "node:powerrail" → (laidOut input n).right < railRightX := by
  have hchain : ∀ (k : ℕ) rung, input.rungs[k]? = some rung →
      (elements (layoutLd input).nodes { rung with rungNumber := k + 1 }).filter InChain =
        rungChain input k rung := by
    intro k rung hk
    rw [layoutLd_nodes h.ids, elements_laidOut, filter_inChain_laidOut]
    change ((elements input.nodes rung).filter InChain).map (laidOut input) = _
    exact map_laidOut_rungChain h hk
  have hcoils : ∀ (k : ℕ) rung, input.rungs[k]? = some rung →
      coilsOf (elements (layoutLd input).nodes { rung with rungNumber := k + 1 }) =
        rungCoils input k rung := by
    intro k rung hk
    rw [layoutLd_nodes h.ids, elements_laidOut, coilsOf_laidOut]
    change (coilsOf (elements input.nodes rung)).map (laidOut input) = _
    exact map_laidOut_rungCoils h hk
  have hrungs : (layoutLd input).rungs = autoNumber input.rungs := rfl
  constructor
  · rintro ⟨hapart, hleft, hright, hrail⟩
    rw [hrungs, forall_autoNumber] at hleft hright
    rw [layoutLd_nodes h.ids, List.forall_mem_map] at hapart hrail
    refine ⟨fun a ha b hb hid => ?_, fun k rung hk => ?_, fun k rung hk => ?_,
      fun n hn hkind => ?_⟩
    · refine hapart a ha _ (List.mem_map_of_mem hb) ?_
      rwa [id_laidOut, id_laidOut]
    · exact hchain k rung hk ▸ hleft k rung hk
    · have := hright k rung hk
      rwa [hchain k rung hk, hcoils k rung hk] at this
    · exact hrail n hn (by rwa [kind_laidOut])
  · rintro ⟨hapart, hleft, hright, hrail⟩
    refine ⟨?_, ?_, ?_, ?_⟩
    · rw [layoutLd_nodes h.ids, List.forall_mem_map]
      intro a ha
      rw [List.forall_mem_map]
      intro b hb hid
      rw [id_laidOut, id_laidOut] at hid
      exact hapart a ha b hb hid
    · rw [hrungs, forall_autoNumber]
      intro k rung hk
      rw [hchain k rung hk]
      exact hleft k rung hk
    · rw [hrungs, forall_autoNumber]
      intro k rung hk
      rw [hchain k rung hk, hcoils k rung hk]
      exact hright k rung hk
    · rw [layoutLd_nodes h.ids, List.forall_mem_map]
      intro n hn hkind
      rw [kind_laidOut] at hkind
      exact hrail n hn hkind

/-! ### The diagrams that are laid out well -/

/-- The contacts and function blocks of a rung have room exactly when they stand apart from left
to right. -/
theorem spaced_iff :
    Spaced 0 none ((elements input.nodes rung).filter InChain) ↔
      (rungChain input k rung).Pairwise fun a b => a.right ≤ b.position.x := by
  have hmem : ∀ e ∈ (elements input.nodes rung).filter InChain, InChain e ∧ 0 < e.size.width :=
    fun e he => ⟨of_decide_eq_true (List.mem_filter.mp he).2,
      (h.positive e (mem_nodes_of_mem_elements (List.mem_filter.mp he).1)).1⟩
  rw [rungChain, ← chain_filter, pairwise_chain_iff (fun e he => (hmem e he).1)
    fun e he => (hmem e he).2]

/-- Two coils of a rung have room exactly when they are apart. -/
theorem coils_apart_iff {i j : ℕ} {a b : LayoutNode}
    (ha : (coilsOf (elements input.nodes rung))[i]? = some a)
    (hb : (coilsOf (elements input.nodes rung))[j]? = some b) :
    ¬ (a.movedTo ⟨coilColumn input.nodes + i * (a.size.width + elementSpacingX),
        rowY k⟩).Overlaps
      (b.movedTo ⟨coilColumn input.nodes + j * (b.size.width + elementSpacingX), rowY k⟩) ↔
    a.size.width + i * (a.size.width + elementSpacingX) ≤ j * (b.size.width + elementSpacingX) ∨
      b.size.width + j * (b.size.width + elementSpacingX) ≤
        i * (a.size.width + elementSpacingX) := by
  have hposa := (h.positive a (mem_nodes_of_mem_elements (mem_of_coilsOf ha).1)).2
  have hposb := (h.positive b (mem_nodes_of_mem_elements (mem_of_coilsOf hb).1)).2
  have hrow : (a.movedTo ⟨coilColumn input.nodes + i * (a.size.width + elementSpacingX),
      rowY k⟩).position.y = (b.movedTo ⟨coilColumn input.nodes +
        j * (b.size.width + elementSpacingX), rowY k⟩).position.y := rfl
  refine (not_overlaps_row hrow hposa hposb).trans (or_congr ?_ ?_)
  · change coilColumn input.nodes + i * (a.size.width + elementSpacingX) + a.size.width ≤
      coilColumn input.nodes + j * (b.size.width + elementSpacingX) ↔ _
    constructor <;> intro h <;> linarith
  · change coilColumn input.nodes + j * (b.size.width + elementSpacingX) + b.size.width ≤
      coilColumn input.nodes + i * (a.size.width + elementSpacingX) ↔ _
    constructor <;> intro h <;> linarith

omit h in
/-- A coil at its place is in the row. -/
theorem mem_rungCoils {j : ℕ} {c : LayoutNode}
    (hc : (coilsOf (elements input.nodes rung))[j]? = some c) :
    c.movedTo ⟨coilColumn input.nodes + j * (c.size.width + elementSpacingX), rowY k⟩ ∈
      rungCoils input k rung := by
  refine List.mem_of_getElem? (i := j) ?_
  rw [rungCoils, getElem?_coilRow, hc, Nat.zero_add]
  rfl

/-- The contacts, function blocks and coils of a rung are named once. -/
theorem nodup_rungChain (hk : input.rungs[k]? = some rung) :
    (rungChain input k rung).Pairwise fun a b => a.id ≠ b.id := by
  rw [← List.pairwise_map, rungChain, map_id_chain]
  exact (nodup_elements h hk).sublist (List.filter_sublist.map _)

theorem coils_id_ne {i j : ℕ} (hk : input.rungs[k]? = some rung) (hij : i ≠ j) {a b : LayoutNode}
    (ha : (coilsOf (elements input.nodes rung))[i]? = some a)
    (hb : (coilsOf (elements input.nodes rung))[j]? = some b) : a.id ≠ b.id := by
  have hnodup : ((coilsOf (elements input.nodes rung)).map LayoutNode.id).Nodup :=
    (nodup_elements h hk).sublist (List.filter_sublist.map _)
  intro hid
  have hlt := (List.getElem?_eq_some_iff.mp ha).1
  refine hij ((List.getElem?_inj (by rwa [List.length_map]) hnodup).mp ?_)
  rw [List.getElem?_map, List.getElem?_map, ha, hb, Option.map_some, Option.map_some, hid]

/-- A diagram that is laid out well has room. -/
theorem roomy_of_wellLaid (hwell : WellLaid (layoutLd input)) : Roomy input := by
  obtain ⟨hapart, hleft, hright, hrail⟩ := (wellLaid_layoutLd_iff h).mp hwell
  have hrow : ∀ (k : ℕ) rung, input.rungs[k]? = some rung → ∀ a ∈ rungRow input k rung,
      ∀ b ∈ rungRow input k rung, a.id ≠ b.id → ¬ a.Overlaps b := by
    intro k rung hk a ha b hb hid
    obtain ⟨n, hn, -, rfl⟩ := mem_rungRow h hk ha
    obtain ⟨m, hm, -, rfl⟩ := mem_rungRow h hk hb
    rw [id_laidOut, id_laidOut] at hid
    exact hapart n (mem_nodes_of_mem_elements hn) m (mem_nodes_of_mem_elements hm) hid
  have hrowRail : ∀ (k : ℕ) rung, input.rungs[k]? = some rung →
      ∀ a ∈ rungRow input k rung, a.right < railRightX := by
    intro k rung hk a ha
    obtain ⟨n, hn, hin, rfl⟩ := mem_rungRow h hk ha
    refine hrail n (mem_nodes_of_mem_elements hn) fun hkind => ?_
    rw [InRung, InChain, hkind] at hin
    exact absurd hin (by decide)
  refine ⟨fun rung hrung => ?_, fun rung hrung => ?_, fun k rung hk hne e he => ?_,
    fun k rung hk e he => ?_, fun rung hrung j c hc => ?_,
        fun i j rung rung' hij hi hj a ha b hb => ?_,
    fun a ha hnot => ⟨fun hkind => ?_, fun b hb hnot' hid => ?_, fun k rung hk e he => ?_⟩⟩
  · obtain ⟨k, hk⟩ := List.mem_iff_getElem?.mp hrung
    rw [spaced_iff h (k := k)]
    refine ((hleft k rung hk).and (nodup_rungChain h hk)).imp_of_mem ?_
    rintro a b ha hb ⟨hlt, hid⟩
    have ha' : a ∈ rungRow input k rung := List.mem_append_left _ ha
    have hb' : b ∈ rungRow input k rung := List.mem_append_left _ hb
    obtain ⟨hya, -, hha⟩ := rungRow_spec h ha'
    obtain ⟨hyb, hwb, hhb⟩ := rungRow_spec h hb'
    refine ((not_overlaps_row (hya.trans hyb.symm) hha hhb).mp
      (hrow k rung hk a ha' b hb' hid)).resolve_right fun hle => ?_
    rw [LayoutNode.right] at hle
    linarith
  · obtain ⟨k, hk⟩ := List.mem_iff_getElem?.mp hrung
    intro i j a b hij ha hb
    refine (coils_apart_iff h (k := k) ha hb).mp (hrow k rung hk _ ?_ _ ?_ ?_)
    · exact List.mem_append_right _ (mem_rungCoils ha)
    · exact List.mem_append_right _ (mem_rungCoils hb)
    · change a.id ≠ b.id
      exact coils_id_ne h hk (Nat.ne_of_lt hij) ha hb
  · refine (forall_coilRow_iff fun n hn => (h.positive n (mem_nodes_of_mem_elements hn)).1).mp
      (fun c hc => hright k rung hk e he c hc) hne
  · exact hrowRail k rung hk e (List.mem_append_left _ he)
  · obtain ⟨k, hk⟩ := List.mem_iff_getElem?.mp hrung
    have hlt := hrowRail k rung hk _ (List.mem_append_right _ (mem_rungCoils hc))
    change coilColumn input.nodes + j * (c.size.width + elementSpacingX) + c.size.width <
      railRightX at hlt
    rw [coilColumn] at hlt
    linarith
  · obtain ⟨hya, -, -⟩ := rungRow_spec h ha
    obtain ⟨hyb, -, hhb⟩ := rungRow_spec h hb
    refine (not_overlaps_rows hij hya hyb hhb).mp ?_
    obtain ⟨n, hn, -, rfl⟩ := mem_rungRow h hi ha
    obtain ⟨m, hm, -, rfl⟩ := mem_rungRow h hj hb
    exact hapart n (mem_nodes_of_mem_elements hn) m (mem_nodes_of_mem_elements hm)
      (id_ne_of_lt h hij hi hj hn hm)
  · have hlt := hrail a ha hkind
    rw [laidOut_of_not_inRung h ha hnot, railed, layoutRail] at hlt
    rwa [if_neg hkind] at hlt
  · rw [← laidOut_of_not_inRung h ha hnot, ← laidOut_of_not_inRung h hb hnot']
    exact hapart a ha b hb hid
  · obtain ⟨n, hn, hin, rfl⟩ := mem_rungRow h hk he
    rw [← laidOut_of_not_inRung h ha hnot]
    refine hapart a ha n (mem_nodes_of_mem_elements hn) fun hid => hnot ?_
    rwa [List.inj_on_of_nodup_map h.ids ha (mem_nodes_of_mem_elements hn) hid]

/-- The elements of a row with room are apart. -/
theorem row_apart (hroomy : Roomy input) (hk : input.rungs[k]? = some rung) {a b : LayoutNode}
    (ha : a ∈ rungRow input k rung) (hb : b ∈ rungRow input k rung) (hid : a.id ≠ b.id) :
    ¬ a.Overlaps b := by
  have hrung := List.mem_of_getElem? hk
  have hleft : ∀ {e c}, e ∈ rungChain input k rung → c ∈ rungCoils input k rung →
      e.right ≤ c.position.x := fun {e c} he hc =>
    (forall_coilRow_iff fun n hn => (h.positive n (mem_nodes_of_mem_elements hn)).1).mpr
      (fun hne => hroomy.beforeCoils k rung hk hne e he) c hc
  have hrow : ¬ a.Overlaps b ↔ a.right ≤ b.position.x ∨ b.right ≤ a.position.x := by
    obtain ⟨hya, -, hha⟩ := rungRow_spec h ha
    obtain ⟨hyb, -, hhb⟩ := rungRow_spec h hb
    exact not_overlaps_row (hya.trans hyb.symm) hha hhb
  rcases List.mem_append.mp ha with hachain | hacoil
  · rcases List.mem_append.mp hb with hbchain | hbcoil
    · have hpairs := (spaced_iff h (k := k)).mp (hroomy.spaced rung hrung)
      have heither : (rungChain input k rung).Pairwise fun a b =>
          a.right ≤ b.position.x ∨ b.right ≤ a.position.x := hpairs.imp Or.inl
      have hsymm : Std.Symm fun a b : LayoutNode =>
          a.right ≤ b.position.x ∨ b.right ≤ a.position.x := ⟨fun _ _ => Or.symm⟩
      refine hrow.mpr (heither.forall hachain hbchain ?_)
      rintro rfl
      exact hid rfl
    · exact hrow.mpr (Or.inl (hleft hachain hbcoil))
  · rcases List.mem_append.mp hb with hbchain | hbcoil
    · exact hrow.mpr (Or.inr (hleft hbchain hacoil))
    · obtain ⟨i, n, hn, rfl⟩ := mem_coilRow hacoil
      obtain ⟨j, m, hm, rfl⟩ := mem_coilRow hbcoil
      refine (coils_apart_iff h hn hm).mpr ?_
      rcases Nat.lt_trichotomy i j with hij | rfl | hji
      · exact hroomy.coilsClear rung hrung i j n m hij hn hm
      · rw [hn] at hm
        obtain rfl := Option.some.inj hm
        exact absurd rfl hid
      · exact (hroomy.coilsClear rung hrung j i m n hji hm hn).symm

/-- A diagram that has room is laid out well. -/
theorem wellLaid_of_roomy (hroomy : Roomy input) : WellLaid (layoutLd input) := by
  rw [wellLaid_layoutLd_iff h]
  refine ⟨fun a ha b hb hid => ?_, fun k rung hk => ?_, fun k rung hk a ha c hc => ?_,
    fun n hn hkind => ?_⟩
  · by_cases hina : InRung a
    · obtain ⟨i, rung, hi, hrowa⟩ := exists_rungRow h ha hina
      by_cases hinb : InRung b
      · obtain ⟨j, rung', hj, hrowb⟩ := exists_rungRow h hb hinb
        obtain ⟨hya, -, hha⟩ := rungRow_spec h hrowa
        obtain ⟨hyb, -, hhb⟩ := rungRow_spec h hrowb
        rcases Nat.lt_trichotomy i j with hij | rfl | hji
        · exact (not_overlaps_rows hij hya hyb hhb).mpr
            (hroomy.rows i j rung rung' hij hi hj _ hrowa _ hrowb)
        · rw [hi] at hj
          obtain rfl := Option.some.inj hj
          refine row_apart h hroomy hi hrowa hrowb ?_
          rwa [id_laidOut, id_laidOut]
        · rw [overlaps_comm]
          exact (not_overlaps_rows hji hyb hya hha).mpr
            (hroomy.rows j i rung' rung hji hj hi _ hrowb _ hrowa)
      · rw [overlaps_comm, laidOut_of_not_inRung h hb hinb]
        exact (hroomy.others b hb hinb).2.2 i rung hi _ hrowa
    · rw [laidOut_of_not_inRung h ha hina]
      by_cases hinb : InRung b
      · obtain ⟨j, rung, hj, hrowb⟩ := exists_rungRow h hb hinb
        exact (hroomy.others a ha hina).2.2 j rung hj _ hrowb
      · rw [laidOut_of_not_inRung h hb hinb]
        exact (hroomy.others a ha hina).2.1 b hb hinb hid
  · have hpairs := (spaced_iff h (k := k)).mp (hroomy.spaced rung (List.mem_of_getElem? hk))
    refine hpairs.imp_of_mem fun {a b} ha _ hle => ?_
    have hwidth := (rungRow_spec h (k := k) (List.mem_append_left _ ha)).2.1
    rw [LayoutNode.right] at hle
    linarith
  · exact (forall_coilRow_iff fun n hn => (h.positive n (mem_nodes_of_mem_elements hn)).1).mpr
      (fun hne => hroomy.beforeCoils k rung hk hne a ha) c hc
  · by_cases hin : InRung n
    · obtain ⟨k, rung, hk, hrow⟩ := exists_rungRow h hn hin
      rcases List.mem_append.mp hrow with hchain | hcoil
      · exact hroomy.beforeRail k rung hk _ hchain
      · obtain ⟨j, c, hc, heq⟩ := mem_coilRow hcoil
        rw [heq]
        have hlt := hroomy.coilsBeforeRail rung (List.mem_of_getElem? hk) j c hc
        change coilColumn input.nodes + j * (c.size.width + elementSpacingX) + c.size.width <
          railRightX
        rw [coilColumn]
        linarith
    · rw [laidOut_of_not_inRung h hn hin, railed, layoutRail]
      rw [if_neg hkind]
      exact (hroomy.others n hn hin).1 hkind

end

/-- Diagrams are laid out well if and only if they have room. -/
theorem wellLaid_iff {input : Diagram} (h : Proper input) :
    WellLaid (layoutLd input) ↔ Roomy input :=
  ⟨roomy_of_wellLaid h, wellLaid_of_roomy h⟩

/-- A contact of the given width. -/
def contact (id : String) (width : ℚ) : LayoutNode :=
  ⟨id, "node:contact", ⟨0, 0⟩, ⟨width, 36⟩, none⟩

/-- A rung with a contact. -/
def single : Diagram := ⟨[contact "a" 36], [⟨0, ["a"]⟩]⟩

/-- A rung with a wide contact and a narrow one behind it. -/
def narrowing : Diagram := ⟨[contact "a" 100, contact "b" 36], [⟨0, ["a", "b"]⟩]⟩

theorem proper_single : Proper single where
  ids := (by decide : ["a"].Nodup)
  once := by decide
  positive := by
    refine List.forall_mem_singleton.mpr ?_
    constructor <;> norm_num [contact]

theorem wellLaid_iff_single : WellLaid (layoutLd single) ↔ Roomy single :=
  wellLaid_iff proper_single

theorem proper_narrowing : Proper narrowing where
  ids := (by decide : ["a", "b"].Nodup)
  once := by decide
  positive := by
    refine List.forall_mem_cons.mpr ⟨?_, List.forall_mem_singleton.mpr ?_⟩ <;>
      constructor <;> norm_num [contact]

/-- The second contact begins at 160, and the first one ends at 184. -/
theorem wellLaid_narrowing : Proper narrowing ∧ ¬ WellLaid (layoutLd narrowing) := by
  refine ⟨proper_narrowing, fun hwell => ?_⟩
  have hspaced := (roomy_of_wellLaid proper_narrowing hwell).spaced ⟨0, ["a", "b"]⟩
    (List.mem_singleton_self _)
  have helements : (elements narrowing.nodes ⟨0, ["a", "b"]⟩).filter InChain =
      [contact "a" 100, contact "b" 36] := rfl
  rw [helements] at hspaced
  have hclear : ((0 : ℕ) + 1 : ℚ) * (100 - 36) ≤ elementSpacingX := hspaced.1
  norm_num [elementSpacingX] at hclear

end Weftik.LdLayout
