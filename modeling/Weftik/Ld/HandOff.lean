import Weftik.Il.Lines
import Weftik.Ld.Compiler

/-!
# The Hand-Off from LD to IL

The ladder compiler hands its result to the Instruction List compiler as text. The front
end of the second reads back the statements that the first wrote, as long as no variable
has the opening of a comment in its name.

## Main definitions

* `networkPairs`: the mnemonics and operands of a network.
* `networkStmts`: the statements of a network.

## Main results

* `lineStmts_pair`: the statement of a line with a mnemonic and a name.
* `parse_generateIl`: the statements of the generated text.
-/

namespace Weftik.Ld

open Il (Mnemonic ILStatement mnemonics)

variable {P : Platform}

/-! ### A line with a mnemonic and an operand -/

/-- No comment is opened in the name. -/
def NoComment (name : String) : Prop := ¬ ['(', '*'] <:+: name.toList

/-- A line that opens no comment is left as it is. -/
theorem removeComments_eq_self {cs : List Char} (h : ¬ ['(', '*'] <:+: cs) :
    Il.removeComments false cs = cs := by
  induction cs with
  | nil => rfl
  | cons c cs ih =>
      have htail : ¬ ['(', '*'] <:+: cs := fun hopen =>
        h (List.IsInfix.trans hopen (List.suffix_cons c cs).isInfix)
      rw [Il.removeComments]
      · rw [ih htail]
      · rintro cs' rfl rfl
        exact h ⟨[], cs', rfl⟩

/-- The operand in a name is the name. -/
theorem operand?_of_isName {v : String} (hv : IsName P v) (hcomment : NoComment v) :
    Il.operand? P v = some v := by
  obtain ⟨hvne, hvwhite⟩ := hv
  rw [Il.operand?, Il.codeWords, Text.rdropWhile_of_forall hvwhite, Il.removeInlineComments,
    removeComments_eq_self hcomment, Text.words_singleton hvne hvwhite, List.head?_cons,
    Option.map_some, String.ofList_toList]

/-- The statement of a line with a mnemonic and a name. -/
theorem lineStmts_pair {p : String × Mnemonic} (hp : p ∈ mnemonics)
    (hident : p.2.takesIdent = true) {v : String} (hv : IsName P v) (hcomment : NoComment v) :
    Il.lineStmts P (p.1.toList ++ ' ' :: v.toList) = [p.2.statement v] := by
  rw [Il.lineStmts_mnemonic hp hident, Il.operand, operand?_of_isName hv hcomment]
  rfl

/-! ### The statements of the networks -/

/-- The mnemonics of an element, with their spelling; its variable is the operand of each.
`first` says that no contact of the network came before it. -/
def elementMnemonics (first : Bool) : LdElement → List (String × Mnemonic)
  | .contact true _ => [if first then ("LD", .ld) else ("AND", .and)]
  | .contact false _ => [if first then ("LDN", .ldn) else ("ANDN", .andn)]
  | .parallelContact true _ => [("OR", .or)]
  | .parallelContact false _ => [("ORN", .orn)]
  | .edgeContact rising _ =>
      [if first then ("LD", .ld) else ("AND", .and),
        if rising then ("R_TRIG", .rTrig) else ("F_TRIG", .fTrig)]
  | .coil .out _ => [("ST", .st)]
  | .coil .set _ => [("S", .s)]
  | .coil .reset _ => [("R", .r)]

/-- The mnemonics of the elements of a network, each with its operand. -/
def networkPairs : Bool → List LdElement → List ((String × Mnemonic) × String)
  | _, [] => []
  | first, e :: es =>
      (elementMnemonics first e).map (fun p => (p, e.var)) ++
        networkPairs (elementLines first e).2 es

/-- The statements of the elements of a network. -/
def networkStmts (first : Bool) (es : List LdElement) : List ILStatement :=
  (networkPairs first es).map fun p => p.1.2.statement p.2

/-- The lines of an element are its mnemonics with its variable. -/
theorem elementLines_eq (first : Bool) (e : LdElement) :
    (elementLines first e).1.map String.toList =
      (elementMnemonics first e).map fun p => p.1.toList ++ ' ' :: e.var.toList := by
  cases e with
  | contact no v =>
      cases no <;> cases first <;> simp [elementLines, elementMnemonics, LdElement.var]
  | parallelContact no v => cases no <;> simp [elementLines, elementMnemonics, LdElement.var]
  | edgeContact rising v =>
      cases rising <;> cases first <;> simp [elementLines, elementMnemonics, LdElement.var]
  | coil kind v => cases kind <;> simp [elementLines, elementMnemonics, LdElement.var]

/-- The mnemonics of an element are in the table and take an operand. -/
theorem elementMnemonics_spec (first : Bool) (e : LdElement) :
    ∀ p ∈ elementMnemonics first e, p ∈ mnemonics ∧ p.2.takesIdent = true := by
  cases e with
  | contact no v =>
      cases no <;> cases first <;> simp [elementMnemonics, mnemonics, Mnemonic.takesIdent]
  | parallelContact no v =>
      cases no <;> simp [elementMnemonics, mnemonics, Mnemonic.takesIdent]
  | edgeContact rising v =>
      cases rising <;> cases first <;> simp [elementMnemonics, mnemonics, Mnemonic.takesIdent]
  | coil kind v => cases kind <;> simp [elementMnemonics, mnemonics, Mnemonic.takesIdent]

/-- The lines of a network are its mnemonics with their operands. -/
theorem networkLines_eq (first : Bool) (es : List LdElement) :
    (networkLines first es).map String.toList =
      (networkPairs first es).map fun p => p.1.1.toList ++ ' ' :: p.2.toList := by
  induction es generalizing first with
  | nil => rfl
  | cons e es ih =>
      rw [networkLines, networkPairs, List.map_append, List.map_append, ih, elementLines_eq,
        List.map_map]
      rfl

/-- The operands of a network are the variables of its elements. -/
theorem mem_networkPairs {first : Bool} {es : List LdElement} {p : (String × Mnemonic) × String}
    (hp : p ∈ networkPairs first es) :
    (p.1 ∈ mnemonics ∧ p.1.2.takesIdent = true) ∧ ∃ e ∈ es, p.2 = e.var := by
  induction es generalizing first with
  | nil => cases hp
  | cons e es ih =>
      rw [networkPairs] at hp
      rcases List.mem_append.mp hp with hp | hp
      · obtain ⟨q, hq, rfl⟩ := List.mem_map.mp hp
        exact ⟨elementMnemonics_spec first e q hq, e, List.mem_cons_self, rfl⟩
      · obtain ⟨hspec, e', he', heq⟩ := ih hp
        exact ⟨hspec, e', List.mem_cons_of_mem e he', heq⟩

/-- The front end of the Instruction List compiler reads back the statements of the
networks from the generated text, as long as no name opens a comment. -/
theorem parse_generateIl {networks : List (List LdElement)}
    (hnames : ∀ network ∈ networks, ∀ e ∈ network, IsName P e.var ∧ NoComment e.var) :
    Il.parse (Il.tokenize P (generateIl networks)) = networks.flatMap (networkStmts true) := by
  let pairs := networks.flatMap (networkPairs true)
  have hpairs : ∀ p ∈ pairs, (p.1 ∈ mnemonics ∧ p.1.2.takesIdent = true) ∧
      IsName P p.2 ∧ NoComment p.2 := by
    intro p hp
    obtain ⟨network, hnetwork, hp⟩ := List.mem_flatMap.mp hp
    obtain ⟨hspec, e, he, heq⟩ := mem_networkPairs hp
    rw [heq]
    exact ⟨hspec, hnames network hnetwork e he⟩
  have hlines : (networks.flatMap (networkLines true)).map String.toList =
      pairs.map fun p => p.1.1.toList ++ ' ' :: p.2.toList := by
    rw [List.map_flatMap, List.map_flatMap]
    congr 1
    funext network
    exact networkLines_eq true network
  have hfeed : ∀ line ∈ pairs.map (fun p => p.1.1.toList ++ ' ' :: p.2.toList),
      line ≠ [] ∧ '\n' ∉ line := by
    intro line hline
    obtain ⟨p, hp, rfl⟩ := List.mem_map.mp hline
    obtain ⟨⟨hspec, -⟩, ⟨-, hwhite⟩, -⟩ := hpairs p hp
    have hnone : ∀ cs : List Char, (∀ c ∈ cs, P.white c = false) → '\n' ∉ cs := fun cs hcs hmem =>
      absurd (hcs _ hmem) (by rw [P.white_ascii '\n' (by decide)]; decide)
    refine ⟨by simp, fun hmem => ?_⟩
    rcases List.mem_append.mp hmem with hmem | hmem
    · exact hnone _ (Il.white_spelling hspec) hmem
    · exact hnone _ hwhite ((List.mem_cons.mp hmem).resolve_left (by decide))
  rw [Il.parse_tokenize, generateIl, String.toList_intercalate, hlines,
    show "\n".toList = ['\n'] from rfl, Il.flatMap_lineStmts_intercalate hfeed, List.flatMap_map]
  have hstmts : pairs.flatMap (fun p => Il.lineStmts P (p.1.1.toList ++ ' ' :: p.2.toList)) =
      pairs.map fun p => p.1.2.statement p.2 := by
    rw [List.map_eq_flatMap]
    refine List.flatMap_congr fun p hp => ?_
    obtain ⟨⟨hspec, hident⟩, hname, hcomment⟩ := hpairs p hp
    exact lineStmts_pair hspec hident hname hcomment
  rw [hstmts, List.map_flatMap]
  rfl

end Weftik.Ld
