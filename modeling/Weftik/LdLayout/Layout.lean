import Mathlib

/-!
# The Layout of Ladder Diagrams

The layout gives every rung a row, sets its contacts and function blocks from the left, its
coils at a column near the right end, and the power rails at the sides. It goes over the rungs
twice, for the contacts and for the coils, and writes each position into the list of nodes. An
identifier names one node, so the written list is the old one with every node moved on its own.

## Main definitions

* `LdLayout.layoutLd`: the layout.
* `LdLayout.chain`, `LdLayout.coilRow`: the elements of a rung at their places.

## Main results

* `LdLayout.layoutLd_nodes`: the laid-out nodes, one by one.
-/

namespace Weftik.LdLayout

/-! ### Diagrams -/

/-- A point of the diagram, in exact coordinates. -/
structure Point where
  x : ℚ
  y : ℚ
  deriving DecidableEq

/-- Width and height of an element. -/
structure Size where
  width : ℚ
  height : ℚ
  deriving DecidableEq

/-- A node of the diagram; of its further fields the layout reads the side of a rail. -/
structure LayoutNode where
  id : String
  kind : String
  position : Point
  size : Size
  side : Option String
  deriving DecidableEq

/-- Right edge. -/
def LayoutNode.right (n : LayoutNode) : ℚ := n.position.x + n.size.width

/-- Bottom edge. -/
def LayoutNode.bottom (n : LayoutNode) : ℚ := n.position.y + n.size.height

/-- Do the boxes of two nodes overlap? -/
def LayoutNode.Overlaps (n other : LayoutNode) : Prop :=
  n.position.x < other.right ∧ n.right > other.position.x ∧ n.position.y < other.bottom ∧
    n.bottom > other.position.y

/-- A rung: its number, and the identifiers of its elements. -/
structure RungDef where
  rungNumber : ℕ
  elementIds : List String
  deriving DecidableEq

/-- The row of a rung. -/
structure RungRow where
  index : ℕ
  y : ℚ
  deriving DecidableEq

/-! ### Constants -/

/-- Left power rail x position. -/
def railLeftX : ℚ := 20

/-- Right power rail x position. -/
def railRightX : ℚ := 920

/-- Power rail width. -/
def railWidth : ℚ := 4

/-- X offset from left rail to first element. -/
def elementStartX : ℚ := railLeftX + railWidth + 60

/-- Horizontal spacing between elements within a rung. -/
def elementSpacingX : ℚ := 40

/-- Vertical spacing between rungs. -/
def rungSpacingY : ℚ := 60

/-- Y position of first rung. -/
def rungStartY : ℚ := 50

/-- Default element height. -/
def defaultElementHeight : ℚ := 36

/-! ### The steps of the layout -/

/-- The index of a node by its identifier: of several the last. -/
def nodeMap : List LayoutNode → String → Option ℕ
  | [], _ => none
  | n :: ns, id =>
      match nodeMap ns id with
      | some i => some (i + 1)
      | none => if n.id = id then some 0 else none

/-- Number rungs sequentially starting from 1. -/
def autoNumber (rungs : List RungDef) : List RungDef :=
  rungs.mapIdx fun i rung => { rung with rungNumber := i + 1 }

/-- The y position of the row of a rung. -/
def rowY (i : ℕ) : ℚ := rungStartY + i * (defaultElementHeight + rungSpacingY)

/-- The width of the widest element. -/
def maxElementWidth (nodes : List LayoutNode) : ℚ :=
  (nodes.map fun n => n.size.width).foldl max 0

/-- What the rows and the rails are given: the rows, the y position and the height of the rails,
and the x positions of the coils and of the right rail. -/
structure RungLayout where
  rungRows : List RungRow
  railY : ℚ
  railHeight : ℚ
  coilX : ℚ
  railRightX : ℚ

/-- Compute row positions for all rungs. -/
def layoutRungs (nodes : List LayoutNode) (rungs : List RungDef) : RungLayout :=
  let coilX := LdLayout.railRightX - railWidth - 60 - maxElementWidth nodes
  let rungRows := rungs.mapIdx fun i _ => ⟨i, rowY i⟩
  let railY := if rungs.isEmpty then rungStartY else rungStartY - 20
  let railHeight :=
    match rungRows.getLast? with
    | none => 600
    | some lastRow => lastRow.y + defaultElementHeight + 20 - railY
  ⟨rungRows, railY, railHeight, coilX, LdLayout.railRightX⟩

/-- The node at another position. -/
def LayoutNode.movedTo (p : Point) (n : LayoutNode) : LayoutNode := { n with position := p }

/-- `nodes[idx].position = p`. -/
def setPosition (nodes : List LayoutNode) (idx : ℕ) (p : Point) : List LayoutNode :=
  nodes.modify idx (LayoutNode.movedTo p)

/-- The state of the loop over the elements of a rung. -/
structure ContactState where
  nodes : List LayoutNode
  contactCount : ℕ
  fbSeen : Bool
  fbWidthOffset : ℚ

/-- One element: contacts and function blocks are positioned, the others are left. -/
def contactStep (map : String → Option ℕ) (row : RungRow) (st : ContactState)
    (elemId : String) : ContactState :=
  match map elemId with
  | none => st
  | some idx =>
      match st.nodes[idx]? with
      | none => st
      | some node =>
          let nodeW := node.size.width
          if node.kind = "node:contact" then
            let x :=
              if st.fbSeen then
                elementStartX + st.fbWidthOffset + elementSpacingX +
                  st.contactCount * (nodeW + elementSpacingX)
              else elementStartX + st.contactCount * (nodeW + elementSpacingX)
            { st with
              nodes := setPosition st.nodes idx ⟨x, row.y⟩
              contactCount := st.contactCount + 1 }
          else if node.kind = "node:fb" then
            let fbX := elementStartX + st.contactCount * (nodeW + elementSpacingX)
            { st with
              nodes := setPosition st.nodes idx ⟨fbX, row.y⟩
              fbSeen := true
              fbWidthOffset := nodeW }
          else st

/-- The row of a rung, found by its number. -/
def rowOf (rungRows : List RungRow) (rung : RungDef) : Option RungRow :=
  rungRows.find? fun r => r.index = rung.rungNumber - 1

/-- Position contact nodes left-to-right within each rung. -/
def layoutContacts (nodes : List LayoutNode) (rungs : List RungDef)
    (map : String → Option ℕ) (rungRows : List RungRow) : List LayoutNode :=
  rungs.foldl (fun nodes rung =>
    match rowOf rungRows rung with
    | none => nodes
    | some row => (rung.elementIds.foldl (contactStep map row) ⟨nodes, 0, false, 0⟩).nodes) nodes

/-- One element of the second pass: coils are positioned. -/
def coilStep (map : String → Option ℕ) (row : RungRow) (coilX : ℚ)
    (st : List LayoutNode × ℕ) (elemId : String) : List LayoutNode × ℕ :=
  match map elemId with
  | none => st
  | some idx =>
      match st.1[idx]? with
      | none => st
      | some node =>
          if node.kind = "node:coil" then
            let x := coilX + st.2 * (node.size.width + elementSpacingX)
            (setPosition st.1 idx ⟨x, row.y⟩, st.2 + 1)
          else st

/-- Position coil nodes at the right end of each rung. -/
def layoutCoils (nodes : List LayoutNode) (rungs : List RungDef)
    (map : String → Option ℕ) (rungRows : List RungRow) (coilX : ℚ) : List LayoutNode :=
  rungs.foldl (fun nodes rung =>
    match rowOf rungRows rung with
    | none => nodes
    | some row => (rung.elementIds.foldl (coilStep map row coilX) (nodes, 0)).1) nodes

/-- A rail is set at its side, over the height of the rails; the others are left. -/
def layoutRail (railY railHeight railRightX : ℚ) (node : LayoutNode) : LayoutNode :=
  if node.kind = "node:powerrail" then
    match node.side.getD "Left" with
    | "Right" => { node with position := ⟨railRightX, railY⟩, size := ⟨railWidth, railHeight⟩ }
    | _ => { node with position := ⟨railLeftX, railY⟩, size := ⟨railWidth, railHeight⟩ }
  else node

/-- Position power rail nodes. -/
def layoutRails (nodes : List LayoutNode) (railY railHeight railRightX : ℚ) :
    List LayoutNode :=
  nodes.map (layoutRail railY railHeight railRightX)

/-- A diagram. -/
structure Diagram where
  nodes : List LayoutNode
  rungs : List RungDef

/-- Run the full layout pipeline and return the updated graph. -/
def layoutLd (input : Diagram) : Diagram :=
  let map := nodeMap input.nodes
  let rungs := autoNumber input.rungs
  let rows := layoutRungs input.nodes rungs
  let nodes := layoutContacts input.nodes rungs map rows.rungRows
  let nodes := layoutCoils nodes rungs map rows.rungRows rows.coilX
  let nodes := layoutRails nodes rows.railY rows.railHeight rows.railRightX
  ⟨nodes, rungs⟩

/-! ### Finding nodes -/

/-- The node with an identifier. -/
def find (nodes : List LayoutNode) (id : String) : Option LayoutNode :=
  nodes.find? fun n => n.id = id

/-- Identifiers name one node each. -/
def DistinctIds (nodes : List LayoutNode) : Prop := (nodes.map LayoutNode.id).Nodup

variable {nodes : List LayoutNode}

/-- The index of a node leads to the node. -/
theorem getElem?_of_nodeMap {id : String} {idx : ℕ} (h : nodeMap nodes id = some idx) :
    ∃ n, nodes[idx]? = some n ∧ n.id = id := by
  induction nodes generalizing idx with
  | nil => cases h
  | cons n ns ih =>
      rw [nodeMap] at h
      cases hrest : nodeMap ns id with
      | some i =>
          rw [hrest] at h
          obtain rfl := Option.some.inj h
          exact ih hrest
      | none =>
          rw [hrest] at h
          dsimp only at h
          split at h
          · obtain rfl := Option.some.inj h
            exact ⟨n, rfl, ‹_›⟩
          · cases h

variable {n : LayoutNode}

/-- A node that is found has the identifier. -/
theorem find_some {id : String} (h : find nodes id = some n) : n ∈ nodes ∧ n.id = id :=
  ⟨List.mem_of_find?_eq_some h, by simpa using List.find?_some h⟩

/-- A node is found by its identifier. -/
theorem find_of_mem (hids : DistinctIds nodes) (hn : n ∈ nodes) : find nodes n.id = some n := by
  cases hfind : find nodes n.id with
  | none =>
      have hnone := List.find?_eq_none.mp hfind n hn
      exact absurd rfl (of_decide_eq_false (Bool.not_eq_true _ ▸ hnone))
  | some m =>
      obtain ⟨hm, hid⟩ := find_some hfind
      rw [List.inj_on_of_nodup_map hids hm hn hid]

/-- The index of a node leads to the node that is found. -/
theorem nodeMap_spec (hids : DistinctIds nodes) (id : String) :
    (nodeMap nodes id).bind (nodes[·]?) = find nodes id := by
  cases hmap : nodeMap nodes id with
  | some idx =>
      obtain ⟨n, hn, rfl⟩ := getElem?_of_nodeMap hmap
      rw [Option.bind_some, hn, find_of_mem hids (List.mem_of_getElem? hn)]
  | none =>
      have hnone : ∀ n ∈ nodes, n.id ≠ id := by
        clear hids
        induction nodes with
        | nil => exact nofun
        | cons n ns ih =>
            rw [nodeMap] at hmap
            cases hrest : nodeMap ns id with
            | some i =>
                rw [hrest] at hmap
                cases hmap
            | none =>
                rw [hrest] at hmap
                dsimp only at hmap
                split at hmap
                · cases hmap
                · exact List.forall_mem_cons.mpr ⟨‹_›, ih hrest⟩
      rw [Option.bind_none, find, eq_comm, List.find?_eq_none]
      exact fun n hn => by simpa using hnone n hn

/-! ### The elements of a rung at their places -/

/-- The x position of a contact: `n` contacts and, it may be, a function block before it. -/
def contactX (n : ℕ) (fb : Option ℚ) (width : ℚ) : ℚ :=
  match fb with
  | none => elementStartX + n * (width + elementSpacingX)
  | some fbWidth => elementStartX + fbWidth + elementSpacingX + n * (width + elementSpacingX)

/-- The x position of a function block with `n` contacts before it. -/
def fbX (n : ℕ) (width : ℚ) : ℚ := elementStartX + n * (width + elementSpacingX)

/-- The contacts and function blocks among some elements, at their places: `n` contacts have
been before, and the last function block had the width `fb`. -/
def chain (y : ℚ) : ℕ → Option ℚ → List LayoutNode → List LayoutNode
  | _, _, [] => []
  | n, fb, e :: es =>
      if e.kind = "node:contact" then
        e.movedTo ⟨contactX n fb e.size.width, y⟩ :: chain y (n + 1) fb es
      else if e.kind = "node:fb" then
        e.movedTo ⟨fbX n e.size.width, y⟩ :: chain y n (some e.size.width) es
      else chain y n fb es

/-- The coils among some elements, at their places: `j` coils have been before. -/
def coilRow (coilX y : ℚ) : ℕ → List LayoutNode → List LayoutNode
  | _, [] => []
  | j, e :: es =>
      if e.kind = "node:coil" then
        e.movedTo ⟨coilX + j * (e.size.width + elementSpacingX), y⟩ :: coilRow coilX y (j + 1) es
      else coilRow coilX y j es

/-- The nodes of a rung, in the order of its elements. -/
def elements (nodes : List LayoutNode) (rung : RungDef) : List LayoutNode :=
  rung.elementIds.filterMap (find nodes)

/-! ### The loops, node by node -/

/-- A node at the position that is written down for its identifier, if one is. -/
def moved (pos : String → Option Point) (n : LayoutNode) : LayoutNode :=
  n.movedTo ((pos n.id).getD n.position)

/-- The positions of some nodes are written down. -/
def moveAll (pos : String → Option Point) (placed : List LayoutNode) : String → Option Point :=
  placed.foldl (fun pos e => Function.update pos e.id (some e.position)) pos

variable {pos : String → Option Point}

/-- Setting the position of a node moves this node only. -/
theorem setPosition_moved (hids : DistinctIds nodes) {idx : ℕ} (hn : nodes[idx]? = some n)
    (p : Point) :
    setPosition (nodes.map (moved pos)) idx p =
      nodes.map (moved (Function.update pos n.id (some p))) := by
  refine List.ext_getElem? fun j => ?_
  rw [setPosition, List.getElem?_modify, List.getElem?_map, List.getElem?_map]
  cases hm : nodes[j]? with
  | none => rfl
  | some m =>
      by_cases hidx : idx = j
      · subst hidx
        obtain rfl := Option.some.inj (hn.symm.trans hm)
        simp only [if_pos, Option.map_some, Option.map_eq_map]
        rw [moved, moved, Function.update_self]
        rfl
      · have hid : m.id ≠ n.id := by
          intro hid
          have hidx' : (nodes.map LayoutNode.id)[idx]? = (nodes.map LayoutNode.id)[j]? := by
            rw [List.getElem?_map, List.getElem?_map, hn, hm, Option.map_some, Option.map_some, hid]
          have hlt : idx < (nodes.map LayoutNode.id).length := by
            rw [List.length_map]
            exact (List.getElem?_eq_some_iff.mp hn).1
          exact hidx ((List.getElem?_inj hlt hids).mp hidx')
        simp only [if_neg hidx, Option.map_some, Option.map_eq_map]
        rw [moved, moved, Function.update_of_ne hid]

/-- The loop over the elements of a rung puts the contacts and function blocks at their
places. -/
theorem foldl_contactStep (hids : DistinctIds nodes) (row : RungRow) (ids : List String)
    (pos : String → Option Point) (n : ℕ) (fb : Option ℚ) :
    (ids.foldl (contactStep (nodeMap nodes) row)
        ⟨nodes.map (moved pos), n, fb.isSome, fb.getD 0⟩).nodes =
      nodes.map (moved (moveAll pos (chain row.y n fb (ids.filterMap (find nodes))))) := by
  induction ids generalizing pos n fb with
  | nil => rfl
  | cons id ids ih =>
      have hfind := nodeMap_spec hids id
      rw [List.foldl_cons, List.filterMap_cons]
      cases hmap : nodeMap nodes id with
      | none =>
          rw [hmap, Option.bind_none] at hfind
          rw [contactStep, hmap, ← hfind]
          exact ih pos n fb
      | some idx =>
          obtain ⟨e, he, hid⟩ := getElem?_of_nodeMap hmap
          rw [hmap, Option.bind_some, he] at hfind
          have hnode : (nodes.map (moved pos))[idx]? = some (moved pos e) := by
            rw [List.getElem?_map, he, Option.map_some]
          rw [contactStep, hmap, ← hfind]
          dsimp only
          rw [hnode]
          dsimp only
          have hkind : (moved pos e).kind = e.kind := rfl
          have hwidth : (moved pos e).size.width = e.size.width := rfl
          rw [hkind, hwidth, chain]
          by_cases hcontact : e.kind = "node:contact"
          · rw [if_pos hcontact, if_pos hcontact, setPosition_moved hids he]
            cases fb with
            | none => exact ih _ (n + 1) none
            | some fbWidth => exact ih _ (n + 1) (some fbWidth)
          · rw [if_neg hcontact, if_neg hcontact]
            by_cases hfb : e.kind = "node:fb"
            · rw [if_pos hfb, if_pos hfb, setPosition_moved hids he]
              exact ih _ n (some e.size.width)
            · rw [if_neg hfb, if_neg hfb]
              exact ih pos n fb

/-- The loop over the elements of a rung puts the coils at their places. -/
theorem foldl_coilStep (hids : DistinctIds nodes) (row : RungRow) (coilX : ℚ) (ids : List String)
    (pos : String → Option Point) (j : ℕ) :
    (ids.foldl (coilStep (nodeMap nodes) row coilX) (nodes.map (moved pos), j)).1 =
      nodes.map (moved (moveAll pos (coilRow coilX row.y j (ids.filterMap (find nodes))))) := by
  induction ids generalizing pos j with
  | nil => rfl
  | cons id ids ih =>
      have hfind := nodeMap_spec hids id
      rw [List.foldl_cons, List.filterMap_cons]
      cases hmap : nodeMap nodes id with
      | none =>
          rw [hmap, Option.bind_none] at hfind
          rw [coilStep, hmap, ← hfind]
          exact ih pos j
      | some idx =>
          obtain ⟨e, he, hid⟩ := getElem?_of_nodeMap hmap
          rw [hmap, Option.bind_some, he] at hfind
          have hnode : (nodes.map (moved pos))[idx]? = some (moved pos e) := by
            rw [List.getElem?_map, he, Option.map_some]
          rw [coilStep, hmap, ← hfind]
          dsimp only
          rw [hnode]
          dsimp only
          have hkind : (moved pos e).kind = e.kind := rfl
          have hwidth : (moved pos e).size.width = e.size.width := rfl
          rw [hkind, hwidth, coilRow]
          by_cases hcoil : e.kind = "node:coil"
          · rw [if_pos hcoil, if_pos hcoil, setPosition_moved hids he]
            exact ih _ (j + 1)
          · rw [if_neg hcoil, if_neg hcoil]
            exact ih pos j

/-- The contacts and function blocks of all rungs, the first in the row `i`. -/
def chains (nodes : List LayoutNode) : ℕ → List RungDef → List LayoutNode
  | _, [] => []
  | i, rung :: rungs => chain (rowY i) 0 none (elements nodes rung) ++ chains nodes (i + 1) rungs

/-- The coils of all rungs, the first in the row `i`. -/
def coilRows (nodes : List LayoutNode) (coilX : ℚ) : ℕ → List RungDef → List LayoutNode
  | _, [] => []
  | i, rung :: rungs =>
      coilRow coilX (rowY i) 0 (elements nodes rung) ++ coilRows nodes coilX (i + 1) rungs

/-- The rungs are numbered from a row on, and the rows are there. -/
def Numbered (rungRows : List RungRow) : ℕ → List RungDef → Prop
  | _, [] => True
  | i, rung :: rungs => rowOf rungRows rung = some ⟨i, rowY i⟩ ∧ Numbered rungRows (i + 1) rungs

variable {rungs : List RungDef} {rungRows : List RungRow}

/-- The first pass puts all contacts and function blocks at their places. -/
theorem layoutContacts_eq (hids : DistinctIds nodes) {i : ℕ} (hrows : Numbered rungRows i rungs)
    (pos : String → Option Point) :
    layoutContacts (nodes.map (moved pos)) rungs (nodeMap nodes) rungRows =
      nodes.map (moved (moveAll pos (chains nodes i rungs))) := by
  induction rungs generalizing i pos with
  | nil => rfl
  | cons rung rungs ih =>
      rw [layoutContacts, List.foldl_cons, hrows.1, chains, moveAll, List.foldl_append]
      dsimp only
      have hrung : (rung.elementIds.foldl (contactStep (nodeMap nodes) ⟨i, rowY i⟩)
          ⟨nodes.map (moved pos), 0, false, 0⟩).nodes = _ :=
        foldl_contactStep hids ⟨i, rowY i⟩ rung.elementIds pos 0 none
      rw [hrung]
      exact ih hrows.2 _

/-- The second pass puts all coils at their places. -/
theorem layoutCoils_eq (hids : DistinctIds nodes) {i : ℕ} (hrows : Numbered rungRows i rungs)
    (coilX : ℚ) (pos : String → Option Point) :
    layoutCoils (nodes.map (moved pos)) rungs (nodeMap nodes) rungRows coilX =
      nodes.map (moved (moveAll pos (coilRows nodes coilX i rungs))) := by
  induction rungs generalizing i pos with
  | nil => rfl
  | cons rung rungs ih =>
      rw [layoutCoils, List.foldl_cons, hrows.1, coilRows, moveAll, List.foldl_append]
      dsimp only
      rw [foldl_coilStep hids ⟨i, rowY i⟩ coilX rung.elementIds pos 0]
      exact ih hrows.2 _

/-- A rung finds the row of its number. -/
theorem rowOf_mapIdx {k : ℕ} (hk : k < rungs.length) {rung : RungDef}
    (hnumber : rung.rungNumber = k + 1) :
    rowOf (rungs.mapIdx fun i _ => ⟨i, rowY i⟩) rung = some ⟨k, rowY k⟩ := by
  rw [rowOf, hnumber, Nat.add_sub_cancel, List.find?_eq_some_iff_getElem]
  refine ⟨decide_eq_true rfl, k, by rwa [List.length_mapIdx], List.getElem_mapIdx, fun j hj => ?_⟩
  rw [List.getElem_mapIdx, Bool.not_eq_true']
  exact decide_eq_false (Nat.ne_of_lt hj)

theorem numbered_of_getElem {i : ℕ}
    (h : ∀ k rung, rungs[k]? = some rung → rowOf rungRows rung = some ⟨i + k, rowY (i + k)⟩) :
    Numbered rungRows i rungs := by
  induction rungs generalizing i with
  | nil => trivial
  | cons rung rungs ih =>
      refine ⟨h 0 rung rfl, ih fun k rung' hk => ?_⟩
      rw [Nat.add_assoc, Nat.add_comm 1 k]
      exact h (k + 1) rung' hk

/-- Numbered rungs find their rows. -/
theorem numbered_autoNumber (nodes : List LayoutNode) (rungs : List RungDef) :
    Numbered (layoutRungs nodes (autoNumber rungs)).rungRows 0 (autoNumber rungs) := by
  refine numbered_of_getElem fun k rung hk => ?_
  have hlt := (List.getElem?_eq_some_iff.mp hk).1
  rw [autoNumber, List.getElem?_mapIdx, Option.map_eq_some_iff] at hk
  obtain ⟨rung', -, rfl⟩ := hk
  rw [Nat.zero_add]
  exact rowOf_mapIdx hlt rfl

/-- The x position of the coils. -/
def coilColumn (nodes : List LayoutNode) : ℚ :=
  railRightX - railWidth - 60 - maxElementWidth nodes

/-- The positions that the two passes write down. -/
def positions (input : Diagram) : String → Option Point :=
  moveAll (moveAll (fun _ => none) (chains input.nodes 0 (autoNumber input.rungs)))
    (coilRows input.nodes (coilColumn input.nodes) 0 (autoNumber input.rungs))

/-- A rail of the diagram at its side, and any other node as it is. -/
def railed (input : Diagram) (n : LayoutNode) : LayoutNode :=
  let rows := layoutRungs input.nodes (autoNumber input.rungs)
  layoutRail rows.railY rows.railHeight rows.railRightX n

/-- Where a node is laid out. -/
def laidOut (input : Diagram) (n : LayoutNode) : LayoutNode :=
  railed input (moved (positions input) n)

/-- The laid-out nodes, one by one. -/
theorem layoutLd_nodes {input : Diagram} (hids : DistinctIds input.nodes) :
    (layoutLd input).nodes = input.nodes.map (laidOut input) := by
  have hrows := numbered_autoNumber input.nodes input.rungs
  have hstart : input.nodes = input.nodes.map (moved fun _ => none) := by
    refine (List.map_id'' (fun n => ?_) input.nodes).symm
    rfl
  have hcontacts := layoutContacts_eq hids hrows fun _ => none
  rw [← hstart] at hcontacts
  rw [layoutLd]
  dsimp only
  rw [hcontacts, layoutCoils_eq hids hrows, layoutRails, List.map_map]
  rfl

/-! ### Each node in one rung -/

/-- Contacts and function blocks. -/
def InChain (n : LayoutNode) : Prop := n.kind = "node:contact" ∨ n.kind = "node:fb"

instance (n : LayoutNode) : Decidable (InChain n) := inferInstanceAs (Decidable (_ ∨ _))

/-- The identifiers of the rungs name each node once, and sizes are positive. -/
structure Proper (input : Diagram) : Prop where
  ids : DistinctIds input.nodes
  once : ∀ n ∈ input.nodes, (input.rungs.flatMap RungDef.elementIds).count n.id = 1
  positive : ∀ n ∈ input.nodes, 0 < n.size.width ∧ 0 < n.size.height

theorem moveAll_of_notMem {placed : List LayoutNode} {id : String}
    (h : id ∉ placed.map LayoutNode.id) : moveAll pos placed id = pos id := by
  induction placed generalizing pos with
  | nil => rfl
  | cons e es ih =>
      rw [List.map_cons, List.mem_cons, not_or] at h
      rw [moveAll, List.foldl_cons]
      refine (ih h.2).trans ?_
      rw [Function.update_of_ne h.1]

variable {e : LayoutNode}

/-- Each of the positions that are written down is found, when no other is for its node. -/
theorem moveAll_of_mem {placed : List LayoutNode} (hids : (placed.map LayoutNode.id).Nodup)
    (he : e ∈ placed) : moveAll pos placed e.id = some e.position := by
  induction placed generalizing pos with
  | nil => cases he
  | cons e' es ih =>
      rw [List.map_cons, List.nodup_cons] at hids
      rw [moveAll, List.foldl_cons]
      rcases List.mem_cons.mp he with rfl | hmem
      · refine (moveAll_of_notMem hids.1).trans ?_
        rw [Function.update_self]
      · exact ih hids.2 hmem

/-- The placed contacts and function blocks are those of the elements. -/
theorem map_id_chain (y : ℚ) (n : ℕ) (fb : Option ℚ) (es : List LayoutNode) :
    (chain y n fb es).map LayoutNode.id = (es.filter InChain).map LayoutNode.id := by
  induction es generalizing n fb with
  | nil => rfl
  | cons e es ih =>
      rw [chain, List.filter_cons]
      by_cases hcontact : e.kind = "node:contact"
      · have hin : InChain e := Or.inl hcontact
        rw [if_pos hcontact, if_pos (decide_eq_true hin), List.map_cons, List.map_cons, ih]
        rfl
      · rw [if_neg hcontact]
        by_cases hfb : e.kind = "node:fb"
        · have hin : InChain e := Or.inr hfb
          rw [if_pos hfb, if_pos (decide_eq_true hin), List.map_cons, List.map_cons, ih]
          rfl
        · have hnot : ¬ InChain e := not_or.mpr ⟨hcontact, hfb⟩
          rw [if_neg hfb, if_neg (by simpa using hnot), ih]

/-- The placed coils are those of the elements. -/
theorem map_id_coilRow (x y : ℚ) (j : ℕ) (es : List LayoutNode) :
    (coilRow x y j es).map LayoutNode.id =
      (es.filter fun e => e.kind = "node:coil").map LayoutNode.id := by
  induction es generalizing j with
  | nil => rfl
  | cons e es ih =>
      rw [coilRow, List.filter_cons]
      by_cases hcoil : e.kind = "node:coil"
      · rw [if_pos hcoil, if_pos (decide_eq_true hcoil), List.map_cons, List.map_cons, ih]
        rfl
      · rw [if_neg hcoil, if_neg (by simpa using hcoil), ih]

/-- The nodes of all rungs. -/
def allElements (nodes : List LayoutNode) (rungs : List RungDef) : List LayoutNode :=
  rungs.flatMap (elements nodes)

theorem allElements_cons (nodes : List LayoutNode) (rung : RungDef) (rungs : List RungDef) :
    allElements nodes (rung :: rungs) = elements nodes rung ++ allElements nodes rungs :=
  List.flatMap_cons

theorem map_id_chains (nodes : List LayoutNode) (i : ℕ) (rungs : List RungDef) :
    (chains nodes i rungs).map LayoutNode.id =
      ((allElements nodes rungs).filter InChain).map LayoutNode.id := by
  induction rungs generalizing i with
  | nil => rfl
  | cons rung rungs ih =>
      rw [chains, List.map_append, map_id_chain, ih, allElements_cons, List.filter_append,
        List.map_append]

theorem map_id_coilRows (nodes : List LayoutNode) (x : ℚ) (i : ℕ) (rungs : List RungDef) :
    (coilRows nodes x i rungs).map LayoutNode.id =
      ((allElements nodes rungs).filter fun e => e.kind = "node:coil").map LayoutNode.id := by
  induction rungs generalizing i with
  | nil => rfl
  | cons rung rungs ih =>
      rw [coilRows, List.map_append, map_id_coilRow, ih, allElements_cons, List.filter_append,
        List.map_append]

/-- The identifiers of the nodes that are found are those that name a node. -/
theorem map_id_filterMap (nodes : List LayoutNode) (ids : List String) :
    (ids.filterMap (find nodes)).map LayoutNode.id =
      ids.filter fun id => (find nodes id).isSome := by
  induction ids with
  | nil => rfl
  | cons id ids ih =>
      rw [List.filterMap_cons, List.filter_cons]
      cases hfind : find nodes id with
      | none => rw [if_neg (by simp), ← ih]
      | some n => rw [if_pos (by simp), ← ih, List.map_cons, (find_some hfind).2]

theorem allElements_eq (nodes : List LayoutNode) (rungs : List RungDef) :
    allElements nodes rungs = (rungs.flatMap RungDef.elementIds).filterMap (find nodes) := by
  rw [allElements, List.filterMap_flatMap]
  rfl

/-- No node is among the elements twice. -/
theorem Proper.nodup {input : Diagram} (h : Proper input) :
    ((allElements input.nodes input.rungs).map LayoutNode.id).Nodup := by
  rw [allElements_eq, map_id_filterMap, List.nodup_iff_count_le_one]
  intro id
  cases hfind : find input.nodes id with
  | none =>
      have hnot : id ∉ (input.rungs.flatMap RungDef.elementIds).filter
          fun id => (find input.nodes id).isSome := by
        intro hmem
        have hsome := List.of_mem_filter hmem
        rw [hfind] at hsome
        cases hsome
      rw [List.count_eq_zero_of_not_mem hnot]
      exact Nat.zero_le 1
  | some n =>
      obtain ⟨hn, rfl⟩ := find_some hfind
      exact (List.filter_sublist.count_le _).trans_eq (h.once n hn)

/-- Each node is among the elements. -/
theorem Proper.mem {input : Diagram} (h : Proper input) (hn : n ∈ input.nodes) :
    n ∈ allElements input.nodes input.rungs := by
  have hmem : n.id ∈ input.rungs.flatMap RungDef.elementIds := by
    refine List.count_pos_iff.mp ?_
    rw [h.once n hn]
    exact Nat.one_pos
  rw [allElements_eq]
  exact List.mem_filterMap.mpr ⟨n.id, hmem, find_of_mem h.ids hn⟩

/-! ### The places of the nodes -/

theorem flatMap_autoNumber (rungs : List RungDef) :
    (autoNumber rungs).flatMap RungDef.elementIds = rungs.flatMap RungDef.elementIds := by
  rw [List.flatMap_def, List.flatMap_def, autoNumber]
  congr 1
  refine List.ext_getElem? fun k => ?_
  rw [List.getElem?_map, List.getElem?_mapIdx, List.getElem?_map, Option.map_map]
  rfl

theorem allElements_autoNumber (nodes : List LayoutNode) (rungs : List RungDef) :
    allElements nodes (autoNumber rungs) = allElements nodes rungs := by
  rw [allElements_eq, allElements_eq, flatMap_autoNumber]

/-- The positions of the contacts and function blocks are those of the first pass. -/
theorem positions_of_mem_chains {input : Diagram} (h : Proper input)
    (he : e ∈ chains input.nodes 0 (autoNumber input.rungs)) :
    positions input e.id = some e.position := by
  have hid : e.id ∈ ((allElements input.nodes input.rungs).filter InChain).map LayoutNode.id := by
    rw [← allElements_autoNumber, ← map_id_chains input.nodes 0]
    exact List.mem_map_of_mem he
  have hnodup : ((chains input.nodes 0 (autoNumber input.rungs)).map LayoutNode.id).Nodup := by
    rw [map_id_chains, allElements_autoNumber]
    exact h.nodup.sublist (List.filter_sublist.map _)
  rw [positions, moveAll_of_notMem, moveAll_of_mem hnodup he]
  -- A coil with the identifier would be the same node.
  rw [map_id_coilRows, allElements_autoNumber]
  intro hcoil
  obtain ⟨a, ha, haid⟩ := List.mem_map.mp hid
  obtain ⟨b, hb, hbid⟩ := List.mem_map.mp hcoil
  rw [List.mem_filter] at ha hb
  obtain rfl := List.inj_on_of_nodup_map h.nodup ha.1 hb.1 (haid.trans hbid.symm)
  have hin : InChain a := of_decide_eq_true ha.2
  have hkind : a.kind = "node:coil" := of_decide_eq_true hb.2
  rw [InChain, hkind] at hin
  exact absurd hin (by decide)

/-- The positions of the coils are those of the second pass. -/
theorem positions_of_mem_coilRows {input : Diagram} (h : Proper input)
    (he : e ∈ coilRows input.nodes (coilColumn input.nodes) 0 (autoNumber input.rungs)) :
    positions input e.id = some e.position := by
  have hnodup : ((coilRows input.nodes (coilColumn input.nodes) 0
      (autoNumber input.rungs)).map LayoutNode.id).Nodup := by
    rw [map_id_coilRows, allElements_autoNumber]
    exact h.nodup.sublist (List.filter_sublist.map _)
  rw [positions, moveAll_of_mem hnodup he]

/-- Nodes that are no rails are only moved. -/
theorem laidOut_eq {input : Diagram} {p : Point} (hkind : n.kind ≠ "node:powerrail")
    (hp : positions input (n.movedTo p).id = some (n.movedTo p).position) :
    laidOut input n = n.movedTo p := by
  have hp' : positions input n.id = some p := hp
  rw [laidOut, railed, moved, hp', Option.getD_some, layoutRail]
  exact if_neg hkind

/-- The contacts and function blocks among some elements are laid out at their places. -/
theorem map_laidOut_chain {input : Diagram} {y : ℚ} {n : ℕ} {fb : Option ℚ}
    {es : List LayoutNode}
    (hpos : ∀ e ∈ chain y n fb es, positions input e.id = some e.position) :
    (es.filter InChain).map (laidOut input) = chain y n fb es := by
  induction es generalizing n fb with
  | nil => rfl
  | cons e es ih =>
      rw [chain] at hpos ⊢
      rw [List.filter_cons]
      by_cases hcontact : e.kind = "node:contact"
      · have hin : InChain e := Or.inl hcontact
        rw [if_pos hcontact, List.forall_mem_cons] at hpos
        rw [if_pos hcontact, if_pos (decide_eq_true hin), List.map_cons, ih hpos.2,
          laidOut_eq (by rw [hcontact]; decide) hpos.1]
      · rw [if_neg hcontact] at hpos ⊢
        by_cases hfb : e.kind = "node:fb"
        · have hin : InChain e := Or.inr hfb
          rw [if_pos hfb, List.forall_mem_cons] at hpos
          rw [if_pos hfb, if_pos (decide_eq_true hin), List.map_cons, ih hpos.2,
            laidOut_eq (by rw [hfb]; decide) hpos.1]
        · have hnot : ¬ InChain e := not_or.mpr ⟨hcontact, hfb⟩
          rw [if_neg hfb] at hpos ⊢
          rw [if_neg (by simpa using hnot), ih hpos]

/-- The coils among some elements are laid out at their places. -/
theorem map_laidOut_coilRow {input : Diagram} {x y : ℚ} {j : ℕ} {es : List LayoutNode}
    (hpos : ∀ e ∈ coilRow x y j es, positions input e.id = some e.position) :
    (es.filter fun e => e.kind = "node:coil").map (laidOut input) = coilRow x y j es := by
  induction es generalizing j with
  | nil => rfl
  | cons e es ih =>
      rw [coilRow] at hpos ⊢
      rw [List.filter_cons]
      by_cases hcoil : e.kind = "node:coil"
      · rw [if_pos hcoil, List.forall_mem_cons] at hpos
        rw [if_pos hcoil, if_pos (decide_eq_true hcoil), List.map_cons, ih hpos.2,
          laidOut_eq (by rw [hcoil]; decide) hpos.1]
      · rw [if_neg hcoil] at hpos ⊢
        rw [if_neg (by simpa using hcoil), ih hpos]

theorem mem_chains {i k : ℕ} {rung : RungDef} (hk : rungs[k]? = some rung)
    (he : e ∈ chain (rowY (i + k)) 0 none (elements nodes rung)) : e ∈ chains nodes i rungs := by
  induction rungs generalizing i k with
  | nil => cases hk
  | cons rung' rungs ih =>
      rw [chains, List.mem_append]
      cases k with
      | zero =>
          obtain rfl := Option.some.inj hk
          exact Or.inl he
      | succ k =>
          rw [Nat.add_comm k 1, ← Nat.add_assoc] at he
          exact Or.inr (ih hk he)

theorem mem_coilRows {x : ℚ} {i k : ℕ} {rung : RungDef} (hk : rungs[k]? = some rung)
    (he : e ∈ coilRow x (rowY (i + k)) 0 (elements nodes rung)) : e ∈ coilRows nodes x i rungs := by
  induction rungs generalizing i k with
  | nil => cases hk
  | cons rung' rungs ih =>
      rw [coilRows, List.mem_append]
      cases k with
      | zero =>
          obtain rfl := Option.some.inj hk
          exact Or.inl he
      | succ k =>
          rw [Nat.add_comm k 1, ← Nat.add_assoc] at he
          exact Or.inr (ih hk he)

/-- The contacts and function blocks of a rung at their places. -/
def rungChain (input : Diagram) (k : ℕ) (rung : RungDef) : List LayoutNode :=
  chain (rowY k) 0 none (elements input.nodes rung)

/-- The coils of a rung at their places. -/
def rungCoils (input : Diagram) (k : ℕ) (rung : RungDef) : List LayoutNode :=
  coilRow (coilColumn input.nodes) (rowY k) 0 (elements input.nodes rung)

section

variable {input : Diagram} (h : Proper input) {k : ℕ} {rung : RungDef}
  (hk : input.rungs[k]? = some rung)

include h hk

/-- The contacts and function blocks of a rung are laid out at their places. -/
theorem map_laidOut_rungChain :
    ((elements input.nodes rung).filter InChain).map (laidOut input) =
      rungChain input k rung := by
  have hk' : (autoNumber input.rungs)[k]? = some { rung with rungNumber := k + 1 } := by
    rw [autoNumber, List.getElem?_mapIdx, hk]
    rfl
  refine map_laidOut_chain fun e he => positions_of_mem_chains h (mem_chains hk' ?_)
  rw [Nat.zero_add]
  exact he

/-- The coils of a rung are laid out at their places. -/
theorem map_laidOut_rungCoils :
    ((elements input.nodes rung).filter fun e => e.kind = "node:coil").map (laidOut input) =
      rungCoils input k rung := by
  have hk' : (autoNumber input.rungs)[k]? = some { rung with rungNumber := k + 1 } := by
    rw [autoNumber, List.getElem?_mapIdx, hk]
    rfl
  refine map_laidOut_coilRow fun e he => positions_of_mem_coilRows h (mem_coilRows hk' ?_)
  rw [Nat.zero_add]
  exact he

end

end Weftik.LdLayout
