import Weftik.Platform
import Weftik.Lib.Text

/-!
# The LD Compiler

Ladder text becomes Instruction List text. Each line of the ladder is a contact, a parallel
contact, or a coil; a line that is anything else begins a new network. The first contact of
a network loads its variable, the others combine theirs with the accumulator, and a coil
stores or latches the accumulator.

## Main definitions

* `Token`, `tokenize`: the lines of a ladder text.
* `LdElement`, `parseNetworks`: the elements of its networks.
* `generateIl`, `ldCompile`: the Instruction List text.

## Main results

* `isName_of_mem_parseNetworks`: the variables of the elements are words.
-/

namespace Weftik.Ld

/-- A line of ladder text. A parallel branch keeps its text. -/
inductive Token
  | network
  | no (var : String)
  | nc (var : String)
  | p (var : String)
  | n (var : String)
  | out (var : String)
  | set (var : String)
  | reset (var : String)
  | parallel (spec : String)
  deriving DecidableEq, Repr

/-- The kinds of coil that ladder text has. -/
inductive LdCoilKind
  | out | set | reset
  deriving DecidableEq, Repr

/-- An element of a network. -/
inductive LdElement
  | contact (normallyOpen : Bool) (var : String)
  | parallelContact (normallyOpen : Bool) (var : String)
  | edgeContact (rising : Bool) (var : String)
  | coil (kind : LdCoilKind) (var : String)
  deriving DecidableEq, Repr

/-- The variable of an element. -/
def LdElement.var : LdElement → String
  | .contact _ v | .parallelContact _ v | .edgeContact _ v | .coil _ v => v

/-! ### The lexer -/

/-- The words of a line in capitals. -/
def upperWords (P : Platform) (line : List Char) : List String :=
  (Text.words P.white (line.flatMap P.upper)).map String.ofList

/-- The token of a line. -/
def parseLine (P : Platform) (line : List Char) : Token :=
  match upperWords P line with
  | ["NETWORK"] => .network
  | ["NO", var] => .no var
  | ["NC", var] => .nc var
  | ["P", var] => .p var
  | ["N", var] => .n var
  | ["OUT", var] => .out var
  | ["SET", var] => .set var
  | ["RESET", var] => .reset var
  | _ =>
      if line.head? = some '|' then
        match upperWords P (Text.trim P.white line.tail) with
        | ["NO", var] => .parallel ("NO " ++ var)
        | ["NC", var] => .parallel ("NC " ++ var)
        | ["P", var] => .parallel ("P " ++ var)
        | ["N", var] => .parallel ("N " ++ var)
        | _ => .network
      else .network

/-- The tokens of a ladder text: one for each line that is not empty. -/
def tokenize (P : Platform) (source : String) : List Token :=
  (Text.lines source.toList).filterMap fun line =>
    let trimmed := Text.trim P.white line
    if trimmed = [] then none else some (parseLine P trimmed)

/-! ### The networks -/

/-- The networks that are complete, and the elements of the present one. -/
structure Networks where
  networks : List (List LdElement)
  current : List LdElement

namespace Networks

/-- The present network is complete, if it has elements. -/
def finish (s : Networks) : List (List LdElement) :=
  if s.current = [] then s.networks else s.networks ++ [s.current]

/-- One more element of the present network. -/
def push (s : Networks) (e : LdElement) : Networks := { s with current := s.current ++ [e] }

/-- One more token. -/
def add (P : Platform) (s : Networks) : Token → Networks
  | .network => ⟨s.finish, []⟩
  | .no var => s.push (.contact true var)
  | .nc var => s.push (.contact false var)
  | .out var => s.push (.coil .out var)
  | .set var => s.push (.coil .set var)
  | .reset var => s.push (.coil .reset var)
  | .p var => s.push (.edgeContact true var)
  | .n var => s.push (.edgeContact false var)
  | .parallel spec =>
      match (Text.words P.white spec.toList).map String.ofList with
      | ["NO", var] => s.push (.parallelContact true var)
      | ["NC", var] => s.push (.parallelContact false var)
      | ["P", var] => s.push (.edgeContact true var)
      | ["N", var] => s.push (.edgeContact false var)
      | _ => s

end Networks

/-- The networks of a list of tokens. -/
def parseNetworks (P : Platform) (tokens : List Token) : List (List LdElement) :=
  (tokens.foldl (Networks.add P) ⟨[], []⟩).finish

/-! ### The generator -/

/-- The lines of an element, where `first` says that no contact of its network came before
it, and what that is after it. -/
def elementLines (first : Bool) : LdElement → List String × Bool
  | .contact normallyOpen var =>
      if first then ([(if normallyOpen then "LD " else "LDN ") ++ var], false)
      else ([(if normallyOpen then "AND " else "ANDN ") ++ var], false)
  | .parallelContact normallyOpen var =>
      ([(if normallyOpen then "OR " else "ORN ") ++ var], first)
  | .edgeContact rising var =>
      ([(if first then "LD " else "AND ") ++ var,
        (if rising then "R_TRIG " else "F_TRIG ") ++ var], false)
  | .coil .out var => (["ST " ++ var], first)
  | .coil .set var => (["S " ++ var], first)
  | .coil .reset var => (["R " ++ var], first)

/-- The lines of the elements of a network. -/
def networkLines : Bool → List LdElement → List String
  | _, [] => []
  | first, e :: es => (elementLines first e).1 ++ networkLines (elementLines first e).2 es

/-- The Instruction List text of some networks. -/
def generateIl (networks : List (List LdElement)) : String :=
  "\n".intercalate (networks.flatMap (networkLines true))

/-- Compile ladder text to Instruction List text. -/
def ldCompile (P : Platform) (source : String) : Except String String :=
  let tokens := tokenize P source
  if tokens = [] then .error "empty LD source"
  else .ok (generateIl (parseNetworks P tokens))

example : ldCompile .exact "network\n  no x1\n  nc x2\n | NO X3\n  OUT Y1" =
    .ok "LD X1\nANDN X2\nOR X3\nST Y1" := by
  decide

/-! ### The variables of the elements -/

/-- The name is a word: it has characters, and no white space. -/
def IsName (P : Platform) (name : String) : Prop :=
  name.toList ≠ [] ∧ ∀ c ∈ name.toList, P.white c = false

variable {P : Platform}

/-- A word of a text is a name. -/
theorem isName_of_mem_words {cs : List Char} {name : String}
    (h : name ∈ (Text.words P.white cs).map String.ofList) : IsName P name := by
  obtain ⟨w, hw, rfl⟩ := List.mem_map.mp h
  rw [IsName, String.toList_ofList]
  exact Text.mem_words hw

/-- The variable of a token, unless it keeps a text. -/
def Token.var : Token → Option String
  | .network | .parallel _ => none
  | .no v | .nc v | .p v | .n v | .out v | .set v | .reset v => some v

/-- The variable of a token is a word of its line. -/
theorem isName_of_parseLine {line : List Char} {v : String}
    (h : (parseLine P line).var = some v) : IsName P v := by
  have hpair : ∀ {first second : String}, upperWords P line = [first, second] →
      IsName P second := fun heq =>
    isName_of_mem_words (heq ▸ List.mem_cons_of_mem _ (List.mem_singleton_self _))
  rw [parseLine] at h
  split at h
  · cases h
  · rename_i heq; cases h; exact hpair heq
  · rename_i heq; cases h; exact hpair heq
  · rename_i heq; cases h; exact hpair heq
  · rename_i heq; cases h; exact hpair heq
  · rename_i heq; cases h; exact hpair heq
  · rename_i heq; cases h; exact hpair heq
  · rename_i heq; cases h; exact hpair heq
  · split at h
    · split at h <;> cases h
    · cases h

/-- The elements of a token are named by words. -/
theorem isName_add {s : Networks} {t : Token} (ht : ∀ v, t.var = some v → IsName P v)
    (hnetworks : ∀ network ∈ s.networks, ∀ e ∈ network, IsName P e.var)
    (hcurrent : ∀ e ∈ s.current, IsName P e.var) :
    (∀ network ∈ (s.add P t).networks, ∀ e ∈ network, IsName P e.var) ∧
      ∀ e ∈ (s.add P t).current, IsName P e.var := by
  have hpush : ∀ e : LdElement, IsName P e.var →
      (∀ network ∈ (s.push e).networks, ∀ e ∈ network, IsName P e.var) ∧
        ∀ e' ∈ (s.push e).current, IsName P e'.var := by
    intro e he
    refine ⟨hnetworks, fun e' he' => ?_⟩
    rcases List.mem_append.mp he' with he' | he'
    · exact hcurrent e' he'
    · obtain rfl := List.mem_singleton.mp he'
      exact he
  cases t with
  | network =>
      refine ⟨?_, List.forall_mem_nil _⟩
      intro network hnetwork
      rw [Networks.add, Networks.finish] at hnetwork
      split at hnetwork
      · exact hnetworks network hnetwork
      · rcases List.mem_append.mp hnetwork with hnetwork | hnetwork
        · exact hnetworks network hnetwork
        · rw [List.mem_singleton.mp hnetwork]
          exact hcurrent
  | parallel spec =>
      have hpair : ∀ {first second : String},
          (Text.words P.white spec.toList).map String.ofList = [first, second] →
          IsName P second := fun heq =>
        isName_of_mem_words (heq ▸ List.mem_cons_of_mem _ (List.mem_singleton_self _))
      rw [Networks.add]
      split
      · rename_i heq
        refine hpush _ ?_
        exact hpair heq
      · rename_i heq
        refine hpush _ ?_
        exact hpair heq
      · rename_i heq
        refine hpush _ ?_
        exact hpair heq
      · rename_i heq
        refine hpush _ ?_
        exact hpair heq
      · exact ⟨hnetworks, hcurrent⟩
  | no v | nc v | p v | n v | out v | set v | reset v =>
      refine hpush _ ?_
      exact ht v rfl

/-- The variables of the elements of a ladder text are words. -/
theorem isName_of_mem_parseNetworks {source : String} :
    ∀ network ∈ parseNetworks P (tokenize P source), ∀ e ∈ network, IsName P e.var := by
  have htokens : ∀ t ∈ tokenize P source, ∀ v, t.var = some v → IsName P v := by
    intro t ht v hv
    obtain ⟨line, -, hline⟩ := List.mem_filterMap.mp ht
    simp only at hline
    split at hline
    · cases hline
    · obtain rfl := Option.some.inj hline
      exact isName_of_parseLine hv
  have hfold : ∀ (tokens : List Token) (s : Networks),
      (∀ t ∈ tokens, ∀ v, t.var = some v → IsName P v) →
      (∀ network ∈ s.networks, ∀ e ∈ network, IsName P e.var) →
      (∀ e ∈ s.current, IsName P e.var) →
      ∀ network ∈ (tokens.foldl (Networks.add P) s).finish, ∀ e ∈ network, IsName P e.var := by
    intro tokens
    induction tokens with
    | nil =>
        intro s _ hnetworks hcurrent
        have hnone : ∀ v, Token.network.var = some v → IsName P v := nofun
        exact (isName_add hnone hnetworks hcurrent).1
    | cons t tokens ih =>
        intro s ht hnetworks hcurrent
        obtain ⟨hnetworks', hcurrent'⟩ :=
          isName_add (ht t List.mem_cons_self) hnetworks hcurrent
        exact ih _ (fun t' ht' => ht t' (List.mem_cons_of_mem t ht')) hnetworks' hcurrent'
  exact hfold _ _ htokens (List.forall_mem_nil _) (List.forall_mem_nil _)

end Weftik.Ld
