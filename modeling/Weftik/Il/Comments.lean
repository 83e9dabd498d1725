import Weftik.Il.Lines

/-!
# The Words of an IL Line

A line is read through its words outside comments: its first word decides what the line says.
A line whose first word is a label says the label and all the words after it, one with a
mnemonic says the mnemonic and one operand, and any other line says nothing, as does one that
begins with a comment.

## Main definitions

* `inComment`: whether a text ends inside a comment, as the lexer counts its brackets.
* `Opens`, `lineWords`: the lines that begin with a comment, and the words of the others.
* `Silent`: the lines without tokens.
* `SameWords`: words that say the same.
* `Spells`: the tokens of lines that are read as code.

## Main results

* `removeComments_parts`: comments are removed part by part.
* `tokenizeLine_eq`: what a line is read from.
* `lineTokens_eq_iff`, `spells_iff`: the words and the tokens.
-/

namespace Weftik.Il

variable {P : Platform}

/-! ### Comments -/

/-- Does a text that begins inside a comment, or outside, end inside one? -/
def inComment : Bool → List Char → Bool
  | s, [] => s
  | _, '(' :: '*' :: cs => inComment true cs
  | true, '*' :: ')' :: cs => inComment false cs
  | true, _ :: cs => inComment true cs
  | false, _ :: cs => inComment false cs

/-- No bracket of a comment lies across the place between two texts. -/
structure NoBracket (a b : List Char) : Prop where
  opening : a.getLast? = some '(' → b.head? ≠ some '*'
  closing : a.getLast? = some '*' → b.head? ≠ some ')'

theorem NoBracket.nil (b : List Char) : NoBracket [] b := ⟨nofun, nofun⟩

theorem NoBracket.tail {c : Char} {a b : List Char} (h : NoBracket (c :: a) b) :
    NoBracket a b := by
  cases a with
  | nil => exact .nil b
  | cons d a => exact ⟨h.opening, h.closing⟩

/-- A text that begins with none of the second characters of the brackets. -/
theorem NoBracket.of_head {b : List Char} (hstar : b.head? ≠ some '*')
    (hclose : b.head? ≠ some ')') (a : List Char) : NoBracket a b :=
  ⟨fun _ => hstar, fun _ => hclose⟩

/-- A bracket at the beginning of two texts lies in the first one. -/
theorem NoBracket.not_pair {c d e : Char} {a b : List Char} (h : NoBracket (c :: a) b)
    (hpair : c = '(' ∧ d = '*' ∨ c = '*' ∧ d = ')')
    (ha : ∀ rest, c = e → a = d :: rest → False) :
    ∀ rest, c = e → a ++ b = d :: rest → False := by
  intro rest hc happend
  cases a with
  | nil =>
      have hhead : b.head? = some d := by
        rw [show b = d :: rest from happend]
        rfl
      rcases hpair with ⟨rfl, rfl⟩ | ⟨rfl, rfl⟩
      · exact h.opening rfl hhead
      · exact h.closing rfl hhead
  | cons c' a =>
      obtain ⟨rfl, -⟩ := List.cons.inj happend
      exact ha a hc rfl

/-- Comments are removed part by part. -/
theorem removeComments_parts {a b : List Char} (h : NoBracket a b) (s : Bool) :
    removeComments s (a ++ b) = removeComments s a ++ removeComments (inComment s a) b ∧
      inComment s (a ++ b) = inComment (inComment s a) b := by
  induction s, a using removeComments.induct with
  | case1 s => cases s <;> exact ⟨rfl, rfl⟩
  | case2 s cs ih =>
      have hcs := ih h.tail.tail
      cases s <;> exact hcs
  | case3 cs ih => exact ih h.tail.tail
  | case4 c cs hopen hclose ih =>
      have hopen' : ∀ rest, c = '(' → cs ++ b = '*' :: rest → False := fun rest hc =>
        h.not_pair (Or.inl ⟨hc, rfl⟩) hopen rest hc
      have hclose' : ∀ rest, c = '*' → cs ++ b = ')' :: rest → False := fun rest hc =>
        h.not_pair (Or.inr ⟨hc, rfl⟩) hclose rest hc
      obtain ⟨hremove, hin⟩ := ih h.tail
      rw [List.cons_append, removeComments, removeComments, inComment, inComment, hremove, hin]
      · exact ⟨rfl, rfl⟩
      all_goals assumption
  | case5 c cs hopen ih =>
      have hopen' : ∀ rest, c = '(' → cs ++ b = '*' :: rest → False := fun rest hc =>
        h.not_pair (Or.inl ⟨hc, rfl⟩) hopen rest hc
      obtain ⟨hremove, hin⟩ := ih h.tail
      rw [List.cons_append, removeComments, removeComments, inComment, inComment, hremove, hin]
      · exact ⟨rfl, rfl⟩
      all_goals assumption

/-- Inside a comment a text without its end is dropped. -/
theorem removeComments_true {body : List Char} (h : ¬['*', ')'] <:+: body) :
    removeComments true body = [] ∧ inComment true body = true := by
  induction hs : true, body using removeComments.induct with
  | case1 s => exact ⟨by rw [removeComments], by rw [inComment]⟩
  | case2 s cs ih =>
      obtain rfl := hs
      have hcs := ih (fun hin => h (hin.trans (List.suffix_append ['(', '*'] cs).isInfix)) rfl
      exact hcs
  | case3 cs ih => exact absurd ⟨[], cs, rfl⟩ h
  | case4 c cs hopen hclose ih =>
      have hcs := ih (fun hin => h (hin.trans (List.suffix_cons c cs).isInfix)) rfl
      rw [removeComments, inComment]
      · exact hcs
      all_goals assumption
  | case5 c cs hopen ih => cases hs

/-- A comment with a body. -/
def comment (body : List Char) : List Char := ['(', '*'] ++ body ++ ['*', ')']

/-- A comment is dropped. The lexer takes it for closed unless its body ends with an opening
bracket, which it reads together with the star of the closing one. -/
theorem removeComments_comment {body : List Char} (h : ¬['*', ')'] <:+: body) (s : Bool) :
    removeComments s (comment body) = [] ∧
      inComment s (comment body) = decide (body.getLast? = some '(') := by
  have hopen : removeComments s (comment body) = removeComments true (body ++ ['*', ')']) ∧
      inComment s (comment body) = inComment true (body ++ ['*', ')']) := by
    cases s <;> exact ⟨rfl, rfl⟩
  rw [hopen.1, hopen.2]
  by_cases hlast : body.getLast? = some '('
  · obtain ⟨init, rfl⟩ := List.getLast?_eq_some_iff.mp hlast
    have hinit : ¬['*', ')'] <:+: init := fun hin =>
      h (hin.trans (List.prefix_append init ['(']).isInfix)
    have hno : NoBracket init ['(', '*', ')'] := .of_head (by decide) (by decide) init
    obtain ⟨hremoved, hstate⟩ := removeComments_true hinit
    rw [List.append_assoc, List.singleton_append, (removeComments_parts hno _).1,
      (removeComments_parts hno _).2, hremoved, hstate, hlast]
    exact ⟨rfl, rfl⟩
  · have hno : NoBracket body ['*', ')'] := ⟨fun hopen => absurd hopen hlast, fun _ => nofun⟩
    obtain ⟨hremoved, hstate⟩ := removeComments_true h
    rw [(removeComments_parts hno _).1, (removeComments_parts hno _).2, hremoved, hstate,
      decide_eq_false hlast]
    exact ⟨rfl, rfl⟩

/-! ### White space -/

theorem white_of_mem {c : Char} (hc : c ∈ [' ', '\t', '\n', '\x0b', '\x0c', '\r']) :
    P.white c = true := by
  have hascii : [' ', '\t', '\n', '\x0b', '\x0c', '\r'].all (fun c => decide (c.val < 128)) =
      true := by decide
  rw [P.white_ascii c (of_decide_eq_true (List.all_eq_true.mp hascii c hc)), decide_eq_true hc]

theorem not_white_of_mem {c : Char} (hc : c ∈ ['(', '*', ')', ':']) : P.white c = false := by
  have hall : ['(', '*', ')', ':'].all (fun c => decide (c.val < 128) &&
      !decide (c ∈ [' ', '\t', '\n', '\x0b', '\x0c', '\r'])) = true := by decide
  have hchar := List.all_eq_true.mp hall c hc
  rw [Bool.and_eq_true, Bool.not_eq_true'] at hchar
  rw [P.white_ascii c (of_decide_eq_true hchar.1), hchar.2]

/-- White space has no part in a bracket. -/
theorem noBracket_white {b : List Char} (hb : ∀ c ∈ b.head?, P.white c = true) (a : List Char) :
    NoBracket a b := by
  have hne : ∀ c ∈ ['(', '*', ')', ':'], b.head? ≠ some c := by
    intro c hc hhead
    have hwhite := hb c hhead
    rw [not_white_of_mem hc] at hwhite
    cases hwhite
  exact .of_head (hne _ (by simp)) (hne _ (by simp)) a

theorem noBracket_of_white {a : List Char} (ha : ∀ c ∈ a, P.white c = true) (b : List Char) :
    NoBracket a b := by
  constructor <;>
  · intro hlast
    have hwhite := ha _ (List.mem_of_getLast? hlast)
    rw [not_white_of_mem (by simp)] at hwhite
    cases hwhite

variable {x : List Char}

/-- White space outside comments stays, and inside it is dropped. -/
theorem removeComments_white (hx : ∀ c ∈ x, P.white c = true) (s : Bool) :
    removeComments s x = (if s then [] else x) ∧ inComment s x = s := by
  induction x with
  | nil => cases s <;> exact ⟨rfl, rfl⟩
  | cons c x ih =>
      obtain ⟨hc, hx⟩ := List.forall_mem_cons.mp hx
      have hne : ∀ d ∈ ['(', '*', ')', ':'], c ≠ d := by
        rintro d hd rfl
        rw [not_white_of_mem hd] at hc
        cases hc
      have hopen := hne '(' (by simp)
      have hstar := hne '*' (by simp)
      obtain ⟨hremoved, hstate⟩ := ih hx
      cases s with
      | false =>
          rw [removeComments, inComment, hremoved, hstate]
          · exact ⟨rfl, rfl⟩
          all_goals exact fun _ hc => absurd hc hopen
      | true =>
          rw [removeComments, inComment, hremoved, hstate]
          · exact ⟨rfl, rfl⟩
          all_goals first
            | exact fun _ hc => absurd hc hopen
            | exact fun _ hc => absurd hc hstar

/-- The words of two texts, when one of the two has white space at the place between them. -/
theorem words_parts {a b : List Char}
    (h : (∀ c ∈ a.getLast?, P.white c = true) ∨ ∀ c ∈ b.head?, P.white c = true) :
    Text.words P.white (a ++ b) = Text.words P.white a ++ Text.words P.white b := by
  rcases h with ha | hb
  · rcases List.eq_nil_or_concat a with rfl | ⟨init, c, rfl⟩
    · rfl
    · rw [List.concat_eq_append] at ha ⊢
      have hc := ha c (by rw [List.getLast?_concat]; exact Option.mem_some_self c)
      rw [List.append_assoc, List.singleton_append, Text.words_append_white hc,
        Text.words_append_white hc]
      exact congrArg (· ++ _) (List.append_nil _).symm
  · cases b with
    | nil => rw [List.append_nil]; exact (List.append_nil _).symm
    | cons c b =>
        have hc := hb c (Option.mem_some_self c)
        have hcons := Text.words_append_white hc [] b
        rw [List.nil_append] at hcons
        rw [Text.words_append_white hc, hcons]
        rfl

/-- White space has no words. -/
theorem words_of_white (hx : ∀ c ∈ x, P.white c = true) : Text.words P.white x = [] := by
  induction x with
  | nil => rfl
  | cons c x ih =>
      obtain ⟨hc, hx⟩ := List.forall_mem_cons.mp hx
      have hcons := Text.words_append_white hc [] x
      rw [List.nil_append] at hcons
      rw [hcons, ih hx]
      rfl

/-! ### Lines -/

/-- The words of a line outside its comments. -/
def lineWords (P : Platform) (line : List Char) : List (List Char) :=
  Text.words P.white (removeInlineComments line)

/-- The line begins with a comment. -/
def Opens (P : Platform) (line : List Char) : Prop :=
  (line.dropWhile P.white).take 2 = ['(', '*']

instance (line : List Char) : Decidable (Opens P line) :=
  inferInstanceAs (Decidable ((line.dropWhile P.white).take 2 = ['(', '*']))

/-- The line has white space only. -/
def Blank (P : Platform) (line : List Char) : Prop := ∀ c ∈ line, P.white c = true

/-- White space before a line makes no difference to its words. -/
theorem lineWords_white_append (hx : Blank P x) (line : List Char) :
    lineWords P (x ++ line) = lineWords P line := by
  have hno := noBracket_of_white hx line
  obtain ⟨hremoved, hstate⟩ := removeComments_white hx false
  have hboundary : ∀ c ∈ x.getLast?, P.white c = true := fun c hc =>
    hx c (List.mem_of_getLast? hc)
  rw [lineWords, removeInlineComments, (removeComments_parts hno _).1, hremoved, hstate,
    if_neg Bool.false_ne_true, words_parts (Or.inl hboundary), words_of_white hx]
  rfl

/-- White space after a line makes no difference to its words. -/
theorem lineWords_append_white (hx : Blank P x) (line : List Char) :
    lineWords P (line ++ x) = lineWords P line := by
  have hhead : ∀ c ∈ x.head?, P.white c = true := fun c hc => hx c (List.mem_of_mem_head? hc)
  have hremoved := (removeComments_white hx (inComment false line)).1
  rw [lineWords, removeInlineComments, (removeComments_parts (noBracket_white hhead line) _).1,
    hremoved]
  split
  · rw [List.append_nil]
    rfl
  · rw [words_parts (Or.inr hhead), words_of_white hx, List.append_nil]
    rfl

theorem lineWords_trim (line : List Char) :
    lineWords P (Text.trim P.white line) = lineWords P line := by
  have hstart : Blank P (line.takeWhile P.white) := fun c hc => List.mem_takeWhile_imp hc
  have hend : Blank P ((line.dropWhile P.white).rtakeWhile P.white) := fun c hc =>
    List.mem_rtakeWhile_imp hc
  rw [← lineWords_append_white hend (Text.trim P.white line), Text.trim,
    List.rdropWhile_append_rtakeWhile, ← lineWords_white_append hstart,
    List.takeWhile_append_dropWhile]

/-- The end of a line does not matter to whether it begins with a comment. -/
theorem take_trim_iff (line : List Char) :
    (Text.trim P.white line).take 2 = ['(', '*'] ↔ Opens P line := by
  rw [Opens, Text.trim]
  generalize line.dropWhile P.white = core
  have hkeep : ∀ rest : List Char, ('(' :: '*' :: rest).rdropWhile P.white =
      '(' :: '*' :: rest.rdropWhile P.white := fun rest => by
    rw [Text.rdropWhile_cons (not_white_of_mem (by simp)),
      Text.rdropWhile_cons (not_white_of_mem (by simp))]
  have htake : ∀ {cs : List Char}, cs.take 2 = ['(', '*'] → ∃ rest, cs = '(' :: '*' :: rest := by
    intro cs h
    exact ⟨cs.drop 2, by rw [← List.take_append_drop 2 cs, h]; rfl⟩
  constructor
  · intro h
    obtain ⟨rest, hrest⟩ := htake h
    obtain ⟨suffix, hsuffix⟩ := List.rdropWhile_prefix P.white (l := core)
    rw [← hsuffix, hrest]
    rfl
  · intro h
    obtain ⟨rest, rfl⟩ := htake h
    rw [hkeep]
    rfl

/-- What a line is read from: its words, unless it begins with a comment. -/
theorem tokenizeLine_eq (line : List Char) :
    tokenizeLine P line = if Opens P line then [] else lineTokens P (lineWords P line) := by
  rw [tokenizeLine]
  by_cases hopens : Opens P line
  · rw [if_pos (Or.inr ((take_trim_iff line).mpr hopens)), if_pos hopens]
  · rw [if_neg hopens]
    by_cases hnil : Text.trim P.white line = []
    · rw [if_pos (Or.inl hnil), ← lineWords_trim, hnil]
      rfl
    · have htake : ¬(Text.trim P.white line).take 2 = ['(', '*'] := fun htake =>
        hopens ((take_trim_iff line).mp htake)
      rw [if_neg (not_or.mpr ⟨hnil, htake⟩), ← lineWords_trim line]
      rfl

theorem tokenizeLine_of_opens {line : List Char} (h : Opens P line) : tokenizeLine P line = [] := by
  rw [tokenizeLine_eq, if_pos h]

/-! ### What a line says -/

/-- A word that is a label. -/
def IsLabel (word : List Char) : Prop := word.getLast? = some ':'

instance (word : List Char) : Decidable (IsLabel word) :=
  inferInstanceAs (Decidable (word.getLast? = some ':'))

/-- The mnemonic that a word spells, in any case. -/
def mnemonic? (P : Platform) (word : List Char) : Option Mnemonic :=
  parseMnemonic (toUppercase P word)

/-- A label is not a mnemonic. -/
theorem mnemonic?_of_isLabel {word : List Char} (h : IsLabel word) : mnemonic? P word = none := by
  obtain ⟨init, rfl⟩ := List.getLast?_eq_some_iff.mp h
  rw [mnemonic?, Option.eq_none_iff_forall_not_mem]
  intro m hm
  obtain ⟨before, after, hmnemonics, -⟩ := List.lookup_eq_some_iff.mp hm
  have hmem : (toUppercase P (init ++ [':']), m) ∈ mnemonics := by
    rw [hmnemonics]
    exact List.mem_append_right _ List.mem_cons_self
  refine (spelling_spec _ hmem).2.2.1 ?_
  rw [toUppercase, String.toList_ofList, List.flatMap_append, List.flatMap_singleton,
    P.upper_ascii ':' (by decide), show [':'.toUpper] = [':'] by decide, List.getLast?_concat]

theorem lineTokens_label {first : List Char} (h : IsLabel first) (rest : List (List Char)) :
    lineTokens P (first :: rest) =
      .label (String.ofList first.dropLast) :: rest.map (wordToken P) := by
  have hnone : parseMnemonic (toUppercase P first) = none := mnemonic?_of_isLabel h
  have hlast : first.getLast? = some ':' := h
  rw [lineTokens, if_pos hlast, hnone]
  exact List.append_nil _

theorem lineTokens_mnemonic {first : List Char} {m : Mnemonic} (h : mnemonic? P first = some m)
    (rest : List (List Char)) :
    lineTokens P (first :: rest) =
      .mnemonic m :: (rest.head?.map fun op => Token.ident (String.ofList op)).toList := by
  have hlabel : ¬first.getLast? = some ':' := fun hlabel => by
    rw [mnemonic?_of_isLabel hlabel] at h
    cases h
  have hsome : parseMnemonic (toUppercase P first) = some m := h
  rw [lineTokens, if_neg hlabel, hsome]
  rfl

theorem lineTokens_other {first : List Char} (hlabel : ¬IsLabel first)
    (hnone : mnemonic? P first = none) (rest : List (List Char)) :
    lineTokens P (first :: rest) = [] := by
  have hnone' : parseMnemonic (toUppercase P first) = none := hnone
  have hlast : ¬first.getLast? = some ':' := hlabel
  rw [lineTokens, if_neg hlast, hnone']
  rfl

/-- The words of a line that say nothing: there are none, or the first one is neither a label
nor a mnemonic. -/
def SilentWords (P : Platform) (ws : List (List Char)) : Prop :=
  ∀ first ∈ ws.head?, ¬IsLabel first ∧ mnemonic? P first = none

/-- The line says nothing: it begins with a comment, or its words say nothing. -/
def Silent (P : Platform) (line : List Char) : Prop :=
  Opens P line ∨ SilentWords P (lineWords P line)

theorem lineTokens_eq_nil_iff (ws : List (List Char)) :
    lineTokens P ws = [] ↔ SilentWords P ws := by
  cases ws with
  | nil => exact ⟨fun _ => nofun, fun _ => rfl⟩
  | cons first rest =>
      by_cases hlabel : IsLabel first
      · rw [lineTokens_label hlabel]
        exact ⟨nofun, fun h => absurd hlabel (h first (Option.mem_some_self _)).1⟩
      cases hm : mnemonic? P first with
      | some m =>
          rw [lineTokens_mnemonic hm]
          refine ⟨nofun, fun h => ?_⟩
          rw [(h first (Option.mem_some_self _)).2] at hm
          cases hm
      | none =>
          rw [lineTokens_other hlabel hm]
          refine ⟨fun _ word hword => ?_, fun _ => rfl⟩
          obtain rfl := Option.mem_some_iff.mp hword
          exact ⟨hlabel, hm⟩

theorem tokenizeLine_eq_nil_iff (line : List Char) :
    tokenizeLine P line = [] ↔ Silent P line := by
  rw [tokenizeLine_eq, Silent]
  split
  · exact ⟨fun _ => Or.inl ‹_›, fun _ => rfl⟩
  · rw [lineTokens_eq_nil_iff]
    exact ⟨Or.inr, fun h => h.resolve_left ‹_›⟩

/-- The words of two lines that say the same. -/
inductive SameWords (P : Platform) : List (List Char) → List (List Char) → Prop
  | silent {ws ws' : List (List Char)} : SilentWords P ws → SilentWords P ws' →
      SameWords P ws ws'
  | label {first : List Char} {rest rest' : List (List Char)} : IsLabel first →
      rest.map (wordToken P) = rest'.map (wordToken P) →
      SameWords P (first :: rest) (first :: rest')
  | mnemonic {first first' : List Char} {rest rest' : List (List Char)} {m : Mnemonic} :
      mnemonic? P first = some m → mnemonic? P first' = some m → rest.head? = rest'.head? →
      SameWords P (first :: rest) (first' :: rest')

/-- Each line says nothing, or begins with a label or with a mnemonic. -/
theorem words_cases (P : Platform) (ws : List (List Char)) :
    SilentWords P ws ∨ (∃ first rest, ws = first :: rest ∧ IsLabel first) ∨
      ∃ first rest m, ws = first :: rest ∧ mnemonic? P first = some m := by
  cases ws with
  | nil => exact Or.inl nofun
  | cons first rest =>
      by_cases hlabel : IsLabel first
      · exact Or.inr (Or.inl ⟨first, rest, rfl, hlabel⟩)
      cases hm : mnemonic? P first with
      | some m => exact Or.inr (Or.inr ⟨first, rest, m, rfl, hm⟩)
      | none =>
          refine Or.inl fun word hword => ?_
          obtain rfl := Option.mem_some_iff.mp hword
          exact ⟨hlabel, hm⟩

/-- Lines have the same tokens iff they say the same. -/
theorem lineTokens_eq_iff (ws ws' : List (List Char)) :
    lineTokens P ws = lineTokens P ws' ↔ SameWords P ws ws' := by
  have hident : ∀ {a b : List (List Char)},
      (a.head?.map fun op => Token.ident (String.ofList op)).toList =
        (b.head?.map fun op => Token.ident (String.ofList op)).toList → a.head? = b.head? := by
    intro a b h
    cases a with
    | nil =>
        cases b with
        | nil => rfl
        | cons y b => cases h
    | cons x a =>
        cases b with
        | nil => cases h
        | cons y b =>
            have hxy := Token.ident.inj (List.cons.inj h).1
            rw [String.ofList_injective hxy]
            rfl
  constructor
  · intro h
    rcases words_cases P ws with hs | ⟨first, rest, rfl, hlabel⟩ | ⟨first, rest, m, rfl, hm⟩
    · refine .silent hs ((lineTokens_eq_nil_iff ws').mp ?_)
      rw [← h, (lineTokens_eq_nil_iff ws).mpr hs]
    · rw [lineTokens_label hlabel] at h
      rcases words_cases P ws' with hs' | ⟨first', rest', rfl, hlabel'⟩ |
        ⟨first', rest', m', rfl, hm'⟩
      · rw [(lineTokens_eq_nil_iff ws').mpr hs'] at h
        cases h
      · rw [lineTokens_label hlabel'] at h
        obtain ⟨hname, hrest⟩ := List.cons.inj h
        have hdrop := String.ofList_injective (Token.label.inj hname)
        obtain ⟨init, rfl⟩ := List.getLast?_eq_some_iff.mp hlabel
        obtain ⟨init', rfl⟩ := List.getLast?_eq_some_iff.mp hlabel'
        rw [List.dropLast_concat, List.dropLast_concat] at hdrop
        obtain rfl := hdrop
        exact .label hlabel hrest
      · rw [lineTokens_mnemonic hm'] at h
        cases h
    · rw [lineTokens_mnemonic hm] at h
      rcases words_cases P ws' with hs' | ⟨first', rest', rfl, hlabel'⟩ |
        ⟨first', rest', m', rfl, hm'⟩
      · rw [(lineTokens_eq_nil_iff ws').mpr hs'] at h
        cases h
      · rw [lineTokens_label hlabel'] at h
        cases h
      · rw [lineTokens_mnemonic hm'] at h
        obtain ⟨hmm, hrest⟩ := List.cons.inj h
        obtain rfl := Token.mnemonic.inj hmm
        exact .mnemonic hm hm' (hident hrest)
  · intro h
    cases h with
    | silent hs hs' =>
        rw [(lineTokens_eq_nil_iff ws).mpr hs, (lineTokens_eq_nil_iff ws').mpr hs']
    | label hlabel hrest => rw [lineTokens_label hlabel, lineTokens_label hlabel, hrest]
    | mnemonic hm hm' hrest => rw [lineTokens_mnemonic hm, lineTokens_mnemonic hm', hrest]

/-! ### What several lines say -/

/-- The tokens that lines spell when they are read as code. -/
inductive Spells (P : Platform) : List (List Char) → List Token → Prop
  | nil : Spells P [] []
  | silent {line : List Char} {lines : List (List Char)} {tokens : List Token} :
      Silent P line → Spells P lines tokens → Spells P (line :: lines) tokens
  | label {line first : List Char} {rest lines : List (List Char)} {tokens : List Token} :
      ¬Opens P line → lineWords P line = first :: rest → IsLabel first →
      Spells P lines tokens →
      Spells P (line :: lines)
        (.label (String.ofList first.dropLast) :: rest.map (wordToken P) ++ tokens)
  | mnemonic {line first : List Char} {rest lines : List (List Char)} {tokens : List Token}
      {m : Mnemonic} : ¬Opens P line → lineWords P line = first :: rest →
      mnemonic? P first = some m → Spells P lines tokens →
      Spells P (line :: lines)
        (.mnemonic m :: (rest.head?.map fun op => Token.ident (String.ofList op)).toList ++ tokens)

theorem spells_iff (lines : List (List Char)) (tokens : List Token) :
    Spells P lines tokens ↔ lines.flatMap (tokenizeLine P) = tokens := by
  constructor
  · intro h
    induction h with
    | nil => rfl
    | silent hs _ ih =>
        rw [List.flatMap_cons, (tokenizeLine_eq_nil_iff _).mpr hs, ih]
        rfl
    | label hopens hwords hlabel _ ih =>
        rw [List.flatMap_cons, tokenizeLine_eq, if_neg hopens, hwords, lineTokens_label hlabel, ih]
    | mnemonic hopens hwords hm _ ih =>
        rw [List.flatMap_cons, tokenizeLine_eq, if_neg hopens, hwords, lineTokens_mnemonic hm, ih]
  · rintro rfl
    induction lines with
    | nil => exact .nil
    | cons line lines ih =>
        rw [List.flatMap_cons]
        by_cases hs : Silent P line
        · rw [(tokenizeLine_eq_nil_iff _).mpr hs]
          exact .silent hs ih
        obtain ⟨hopens, hwords⟩ := not_or.mp hs
        rw [tokenizeLine_eq, if_neg hopens]
        rcases words_cases P (lineWords P line) with hs' | ⟨first, rest, hws, hlabel⟩ |
          ⟨first, rest, m, hws, hm⟩
        · exact absurd hs' hwords
        · rw [hws, lineTokens_label hlabel]
          exact .label hopens hws hlabel ih
        · rw [hws, lineTokens_mnemonic hm]
          exact .mnemonic hopens hws hm ih

end Weftik.Il
