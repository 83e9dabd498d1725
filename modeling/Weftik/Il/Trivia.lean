import Weftik.Il.Comments

/-!
# Labels, Comments and White Space in IL

A label before an instruction, a comment and white space between two words are not to change
the tokens of a program. They do, as the lexer reads line by line: the words after a label are
no operands, a line that begins with a comment is skipped as a whole, the later lines of a
comment are read as code, and a comment whose body ends with an opening bracket is not closed.

## Main definitions

* `Spot`: a place between two words of a source text.
* `Trivia`: what is inserted there.
* `Edit`: a label before an instruction, or an insertion.
* `Edit.Neutral`: the edit does not change the other tokens.
* `Edit.Keeps`: the edits for which this is so.

## Main results

* `neutral_iff`: which edits do not change the other tokens.
-/

namespace Weftik.Il

variable (P : Platform)

/-! ### Edits -/

/-- A place in a source text: the lines above it, the two parts of its own line, and the lines
below. It lies in no bracket of a comment and in no word: what the lexer reads next to it, on
one side at least, is white space or nothing. -/
structure Spot where
  above : List (List Char)
  before : List Char
  after : List Char
  below : List (List Char)
  before_line : '\n' ∉ before
  after_line : '\n' ∉ after
  noBracket : NoBracket before after
  between : (∀ c ∈ (removeInlineComments before).getLast?, P.white c = true) ∨
    ∀ c ∈ (removeComments (inComment false before) after).head?, P.white c = true

/-- White space, or a comment, which ends at the first closing bracket. Both may have several
lines. -/
inductive Trivia
  | space (x : List Char) (white : Blank P x)
  | comment (body : List Char) (closed : ¬['*', ')'] <:+: body)

/-- A label: a word that opens no comment. -/
structure LabelName where
  text : List Char
  word : ∀ c ∈ text, P.white c = false
  bracket : '(' ∉ text

/-- A line of a source text. -/
def Line := { line : List Char // '\n' ∉ line }

/-- A label is put before a line, or white space or a comment between two words. -/
inductive Edit
  | label (l : LabelName P) (i : Line)
  | insert (s : Spot P) (x : Trivia P)

variable {P}

/-- What is inserted. -/
def Trivia.text : Trivia P → List Char
  | .space x _ => x
  | .comment body _ => Il.comment body

/-- The source text with a text inserted. -/
def Spot.source (s : Spot P) (x : List Char) : String :=
  String.ofList (['\n'].intercalate (s.above ++ [s.before ++ x ++ s.after] ++ s.below))

/-- The tokens of the line follow the one of the label, or the tokens are what they were. -/
def Edit.Neutral : Edit P → Prop
  | .label l i =>
      tokenize P (String.ofList (l.text ++ [':', ' '] ++ i.val)) =
        .label (String.ofList l.text) :: tokenize P (String.ofList i.val)
  | .insert s x => tokenize P (s.source x.text) = tokenize P (s.source [])

/-! ### The edits that change nothing else -/

/-- The words are those of a mnemonic with at most one operand that is no mnemonic, or none. -/
inductive PlainWords (P : Platform) : List (List Char) → Prop
  | nil : PlainWords P []
  | mnemonic {first : List Char} {m : Mnemonic} : mnemonic? P first = some m →
      PlainWords P [first]
  | operand {first op : List Char} {m : Mnemonic} : mnemonic? P first = some m →
      mnemonic? P op = none → PlainWords P [first, op]

namespace Spot

variable (s : Spot P)

/-- Does the lexer take the place for one inside a comment? -/
def commented : Bool := inComment false s.before

/-- The words before the place. -/
def wordsBefore : List (List Char) := lineWords P s.before

/-- The words after the place. -/
def wordsAfter : List (List Char) :=
  Text.words P.white (removeComments s.commented s.after)

/-- The words of the line, when what is after the place is read as inside a comment or not. -/
def wordsRead (commented : Bool) : List (List Char) :=
  Text.words P.white (removeInlineComments s.before ++ removeComments commented s.after)

/-- The tokens that what is after the place adds to those of what is before it. -/
inductive Adds : List Token → Prop
  | opens : Opens P s.before → Adds []
  | blank {tokens : List Token} : Blank P s.before → Spells P [s.after] tokens → Adds tokens
  | label {first : List Char} {rest : List (List Char)} : ¬Opens P s.before →
      s.wordsBefore = first :: rest → IsLabel first → Adds (s.wordsAfter.map (wordToken P))
  | operand {first : List Char} {m : Mnemonic} : ¬Opens P s.before →
      s.wordsBefore = [first] → mnemonic? P first = some m →
      Adds (s.wordsAfter.head?.map fun op => Token.ident (String.ofList op)).toList
  | nothing {first : List Char} {rest : List (List Char)} : ¬Opens P s.before →
      s.wordsBefore = first :: rest → ¬IsLabel first → (mnemonic? P first = none ∨ rest ≠ []) →
      Adds []

/-- A comment on one line changes nothing. Its line begins with a comment anyway; or it begins
with this one and says nothing; or the lexer closes the comment, where it has not read the
place itself as one in a comment; or else what comes after makes no difference. -/
inductive KeepsComment (body : List Char) : Prop
  | opens : Opens P s.before → KeepsComment body
  | silent : Blank P s.before → Silent P s.after → KeepsComment body
  | closed : ¬Blank P s.before → s.commented = decide (body.getLast? = some '(') →
      KeepsComment body
  | same : ¬Blank P s.before →
      SameWords P (s.wordsRead s.commented) (s.wordsRead (decide (body.getLast? = some '('))) →
      KeepsComment body

/-- What is inserted changes nothing. With a line break, the lines after it have to spell what
the line break takes away. -/
def Keeps (x : Trivia P) : Prop :=
  match x.text.dropWhile (· != '\n') with
  | [] =>
      match x with
      | .space _ _ => True
      | .comment body _ => s.KeepsComment body
  | _ :: later => ∃ tokens, s.Adds tokens ∧ Spells P (Text.lines (later ++ s.after)) tokens

end Spot

/-- The edit changes nothing else. -/
def Edit.Keeps : Edit P → Prop
  | .label _ i =>
      if Opens P i.val then lineWords P i.val = [] else PlainWords P (lineWords P i.val)
  | .insert s x => s.Keeps x

/-! ### The lines of a text -/

/-- The tokens of a line without white space at its ends. -/
def trimmedTokens (P : Platform) (trimmed : List Char) : List Token :=
  if trimmed = [] ∨ trimmed.take 2 = ['(', '*'] then []
  else lineTokens P (Text.words P.white (removeInlineComments trimmed))

/-- A text and the text after a line feed are read one after the other. -/
theorem tokenize_feed (a b : List Char) :
    tokenize P (String.ofList (a ++ '\n' :: b)) =
      tokenize P (String.ofList a) ++ tokenize P (String.ofList b) := by
  have hnil : trimmedTokens P [] = [] := rfl
  simp only [tokenize, String.toList_ofList]
  exact Text.flatMap_trim_lines_append hnil (white_of_mem (by simp)) a b

theorem tokenize_line {line : List Char} (h : '\n' ∉ line) :
    tokenize P (String.ofList line) = tokenizeLine P line := by
  rw [tokenize, String.toList_ofList]
  cases line with
  | nil => rfl
  | cons c line =>
      rw [Text.lines_singleton (List.cons_ne_nil c line) h, List.flatMap_singleton]

/-- The tokens of texts with line feeds between them. -/
theorem tokenize_intercalate (texts : List (List Char)) :
    tokenize P (String.ofList (['\n'].intercalate texts)) =
      texts.flatMap fun text => tokenize P (String.ofList text) := by
  induction texts with
  | nil => rfl
  | cons text texts ih =>
      cases texts with
      | nil => rw [List.intercalate_singleton, List.flatMap_singleton]
      | cons next texts =>
          rw [List.intercalate_cons_cons, List.append_assoc, List.singleton_append, tokenize_feed,
            ih]
          rfl

namespace Spot

variable (s : Spot P)

theorem line_feed : '\n' ∉ s.before ++ s.after := by
  rw [List.mem_append, not_or]
  exact ⟨s.before_line, s.after_line⟩

/-- Only the line of the place matters. -/
theorem tokenize_source (x : List Char) :
    tokenize P (s.source x) = tokenize P (s.source []) ↔
      tokenize P (String.ofList (s.before ++ x ++ s.after)) =
        tokenizeLine P (s.before ++ s.after) := by
  simp only [source, tokenize_intercalate, List.flatMap_append, List.flatMap_singleton,
    List.append_nil]
  rw [List.append_left_inj, List.append_right_inj, tokenize_line s.line_feed]

end Spot

/-! ### The line of the place -/

theorem tokenizeLine_white_append {a : List Char} (ha : Blank P a) (b : List Char) :
    tokenizeLine P (a ++ b) = tokenizeLine P b := by
  have hopens : Opens P (a ++ b) ↔ Opens P b := by
    rw [Opens, Opens, List.dropWhile_append_of_pos ha]
  simp only [tokenizeLine_eq, hopens, lineWords_white_append ha]

theorem tokenizeLine_append_white {x : List Char} (hx : Blank P x) (line : List Char) :
    tokenizeLine P (line ++ x) = tokenizeLine P line := by
  have htrim : Text.trim P.white (line ++ x) = Text.trim P.white line := by
    induction x using List.reverseRecOn with
    | nil => rw [List.append_nil]
    | append_singleton x c ih =>
        rw [← List.append_assoc,
          Text.trim_concat (hx c (List.mem_append_right x List.mem_cons_self)),
          ih fun d hd => hx d (List.mem_append_left [c] hd)]
  rw [tokenizeLine, tokenizeLine, htrim]

/-- The first line of a comment begins with its bracket, and does not close it. -/
theorem comment_first {body first later : List Char} (hx : comment body = first ++ '\n' :: later)
    (hfirst : '\n' ∉ first) (h : ¬['*', ')'] <:+: body) :
    ∃ init, first = '(' :: '*' :: init ∧ ¬['*', ')'] <:+: init := by
  obtain - | ⟨c, first⟩ := first
  · cases hx
  obtain - | ⟨d, init⟩ := first
  · cases hx
  obtain ⟨hc, hx⟩ := List.cons.inj hx
  obtain ⟨hd, hx⟩ := List.cons.inj hx
  refine ⟨init, by rw [hc, hd], fun hin => h ?_⟩
  rcases List.append_eq_append_iff.mp
    (show body ++ ['*', ')'] = init ++ '\n' :: later from hx) with ⟨t, ht, hrest⟩ | ⟨t, ht, hrest⟩
  · have hmem : '\n' ∈ ['*', ')'] := by
      rw [hrest]
      exact List.mem_append_right t List.mem_cons_self
    exact absurd hmem (by decide)
  · rw [ht]
    exact hin.trans (List.prefix_append init t).isInfix

/-- The first word of a line that is not blank decides whether it begins with a comment. -/
theorem opens_append {a b : List Char} (ha : ¬Blank P a) (h : NoBracket a b) :
    Opens P (a ++ b) ↔ Opens P a := by
  have hdrop : a.dropWhile P.white ≠ [] := fun hnil => ha (List.dropWhile_eq_nil_iff.mp hnil)
  obtain ⟨c, core, hcore⟩ := List.exists_cons_of_ne_nil hdrop
  have happend : (a ++ b).dropWhile P.white = c :: core ++ b := by
    rw [List.dropWhile_append, hcore]
    rfl
  rw [Opens, Opens, happend, hcore]
  cases core with
  | cons d core => rfl
  | nil =>
      have hlast : a.getLast? = some c := by
        rw [← List.takeWhile_append_dropWhile (p := P.white) (l := a), hcore,
          List.getLast?_concat]
      constructor
      · intro htake
        obtain ⟨rfl, hrest⟩ := List.cons.inj htake
        refine absurd ?_ (h.opening hlast)
        cases b with
        | nil => cases hrest
        | cons d b =>
            obtain ⟨rfl, -⟩ := List.cons.inj hrest
            rfl
      · intro htake
        cases htake

/-- The line with a text after a part that is not blank. -/
theorem tokenizeLine_append {a b : List Char} (ha : ¬Blank P a) (h : NoBracket a b) :
    tokenizeLine P (a ++ b) =
      if Opens P a then [] else lineTokens P (Text.words P.white
        (removeInlineComments a ++ removeComments (inComment false a) b)) := by
  simp only [tokenizeLine_eq, opens_append ha h, lineWords, removeInlineComments,
    (removeComments_parts h _).1]

/-- A line that is not blank and does not begin with a comment has words. -/
theorem lineWords_ne_nil {a : List Char} (ha : ¬Blank P a) (hopens : ¬Opens P a) :
    lineWords P a ≠ [] := by
  have hdrop : a.dropWhile P.white ≠ [] := fun hnil => ha (List.dropWhile_eq_nil_iff.mp hnil)
  obtain ⟨c, core, hcore⟩ := List.exists_cons_of_ne_nil hdrop
  have hc : P.white c = false := by
    have hhead := List.head?_dropWhile_not P.white a
    rw [hcore] at hhead
    simpa using hhead
  have hstart : Blank P (a.takeWhile P.white) := fun d hd => List.mem_takeWhile_imp hd
  have hremoved : removeInlineComments (c :: core) = [c] ++ removeComments false core := by
    rw [removeInlineComments, removeComments]
    · rfl
    · rintro rest rfl rfl
      refine hopens ?_
      rw [Opens, hcore]
      rfl
  have hwhite : ∀ d ∈ [c], P.white d = false := fun d hd => List.mem_singleton.mp hd ▸ hc
  obtain ⟨w, ws, hwords⟩ := Text.exists_words_append (List.cons_ne_nil c []) hwhite
    (removeComments false core)
  rw [← List.takeWhile_append_dropWhile (p := P.white) (l := a), hcore,
    lineWords_white_append hstart, lineWords, hremoved, hwords]
  exact List.cons_ne_nil _ _

/-! ### More words -/

theorem lineTokens_append_label {first : List Char} (h : IsLabel first)
    (rest more : List (List Char)) :
    lineTokens P (first :: rest ++ more) =
      lineTokens P (first :: rest) ++ more.map (wordToken P) := by
  rw [List.cons_append, lineTokens_label h, lineTokens_label h, List.map_append]
  rfl

theorem lineTokens_append_operand {first : List Char} {m : Mnemonic}
    (h : mnemonic? P first = some m) (more : List (List Char)) :
    lineTokens P ([first] ++ more) = lineTokens P [first] ++
      (more.head?.map fun op => Token.ident (String.ofList op)).toList := by
  rw [List.singleton_append, lineTokens_mnemonic h, lineTokens_mnemonic h]
  rfl

theorem lineTokens_append_nothing {first : List Char} {rest : List (List Char)}
    (hlabel : ¬IsLabel first) (h : mnemonic? P first = none ∨ rest ≠ [])
    (more : List (List Char)) :
    lineTokens P (first :: rest ++ more) = lineTokens P (first :: rest) := by
  cases hm : mnemonic? P first with
  | none => rw [List.cons_append, lineTokens_other hlabel hm, lineTokens_other hlabel hm]
  | some m =>
      have hrest := h.resolve_left (by rw [hm]; exact nofun)
      obtain ⟨op, rest, rfl⟩ := List.exists_cons_of_ne_nil hrest
      rw [List.cons_append, lineTokens_mnemonic hm, lineTokens_mnemonic hm]
      rfl

namespace Spot

variable (s : Spot P)

/-- The tokens of the line of the place. -/
theorem tokenizeLine_line (ha : ¬Blank P s.before) :
    tokenizeLine P (s.before ++ s.after) =
      if Opens P s.before then [] else lineTokens P (s.wordsRead s.commented) :=
  tokenizeLine_append ha s.noBracket

/-- The words of the line are those of its two parts. -/
theorem wordsRead_commented : s.wordsRead s.commented = s.wordsBefore ++ s.wordsAfter :=
  words_parts s.between

/-- What the second part of the line adds to the first one. -/
theorem adds_iff (tokens : List Token) :
    s.Adds tokens ↔
      tokenizeLine P (s.before ++ s.after) = tokenizeLine P s.before ++ tokens := by
  by_cases hopens : Opens P s.before
  · have hblank : ¬Blank P s.before := by
      intro hblank
      rw [Opens, List.dropWhile_eq_nil_iff.mpr hblank] at hopens
      cases hopens
    rw [s.tokenizeLine_line hblank, if_pos hopens, tokenizeLine_of_opens hopens, List.nil_append]
    constructor
    · rintro (_ | ⟨hblank', -⟩ | hnot | hnot | hnot)
      · rfl
      · exact absurd hblank' hblank
      all_goals contradiction
    · rintro rfl
      exact .opens hopens
  have hbefore : tokenizeLine P s.before = lineTokens P s.wordsBefore := by
    rw [tokenizeLine_eq, if_neg hopens]
    rfl
  by_cases hblank : Blank P s.before
  · have hnone : s.wordsBefore = [] := by
      have hwords := lineWords_append_white hblank []
      exact hwords
    have hcons : ∀ {first rest}, s.wordsBefore ≠ first :: rest := by
      intro first rest hwords
      rw [hnone] at hwords
      cases hwords
    rw [tokenizeLine_white_append hblank, hbefore, hnone, lineTokens, List.nil_append]
    constructor
    · rintro (hopens' | ⟨-, hspells⟩ | ⟨-, hwords, -⟩ | ⟨-, hwords, -⟩ | ⟨-, hwords, -⟩)
      · exact absurd hopens' hopens
      · rw [← (spells_iff _ _).mp hspells, List.flatMap_singleton]
      all_goals exact absurd hwords hcons
    · rintro rfl
      exact .blank hblank ((spells_iff _ _).mpr (List.flatMap_singleton _ _))
  · have hne : s.wordsBefore ≠ [] := lineWords_ne_nil hblank hopens
    obtain ⟨first, rest, hwords⟩ := List.exists_cons_of_ne_nil hne
    rw [s.tokenizeLine_line hblank, if_neg hopens, hbefore, wordsRead_commented, hwords]
    have hcons : ∀ {first' rest'}, s.wordsBefore = first' :: rest' →
        first' = first ∧ rest' = rest := by
      intro first' rest' hwords'
      rw [hwords] at hwords'
      obtain ⟨rfl, rfl⟩ := List.cons.inj hwords'
      exact ⟨rfl, rfl⟩
    constructor
    · rintro (hopens' | ⟨hblank', -⟩ | ⟨-, hwords', hlabel⟩ | ⟨-, hwords', hm⟩ |
        ⟨-, hwords', hlabel, hnothing⟩)
      · exact absurd hopens' hopens
      · exact absurd hblank' hblank
      · obtain ⟨rfl, rfl⟩ := hcons hwords'
        exact lineTokens_append_label hlabel _ _
      · obtain ⟨rfl, rfl⟩ := hcons hwords'
        exact lineTokens_append_operand hm _
      · obtain ⟨rfl, rfl⟩ := hcons hwords'
        rw [lineTokens_append_nothing hlabel hnothing, List.append_nil]
    · intro h
      by_cases hlabel : IsLabel first
      · rw [lineTokens_append_label hlabel] at h
        rw [← List.append_cancel_left h]
        exact .label hopens hwords hlabel
      by_cases hnothing : mnemonic? P first = none ∨ rest ≠ []
      · rw [lineTokens_append_nothing hlabel hnothing] at h
        rw [List.self_eq_append_right.mp h]
        exact .nothing hopens hwords hlabel hnothing
      · obtain ⟨hm, hrest⟩ := not_or.mp hnothing
        obtain ⟨m, hm⟩ := Option.ne_none_iff_exists'.mp hm
        obtain rfl := not_not.mp hrest
        rw [lineTokens_append_operand hm] at h
        rw [← List.append_cancel_left h]
        exact .operand hopens hwords hm

/-! ### Insertions on one line -/

/-- White space without a line feed changes nothing. -/
theorem tokenizeLine_space {x : List Char} (hx : Blank P x) :
    tokenizeLine P (s.before ++ x ++ s.after) = tokenizeLine P (s.before ++ s.after) := by
  by_cases hblank : Blank P s.before
  · have hboth : Blank P (s.before ++ x) := fun c hc =>
      (List.mem_append.mp hc).elim (hblank c) (hx c)
    rw [tokenizeLine_white_append hboth, tokenizeLine_white_append hblank]
  cases x with
  | nil => rw [List.append_nil]
  | cons c x =>
      have hhead : ∀ rest, ∀ d ∈ (c :: x ++ rest).head?, P.white d = true := by
        intro rest d hd
        obtain rfl : c = d := Option.some.inj hd
        exact hx c List.mem_cons_self
      have hno : NoBracket s.before (c :: x ++ s.after) :=
        noBracket_white (hhead _) _
      have hnoAfter : NoBracket (c :: x) s.after := noBracket_of_white hx s.after
      obtain ⟨hremoved, hstate⟩ := removeComments_white hx s.commented
      have hwords : Text.words P.white (removeInlineComments s.before ++
          removeComments s.commented (c :: x ++ s.after)) = s.wordsRead s.commented := by
        rw [(removeComments_parts hnoAfter _).1, hremoved, hstate]
        split
        · rfl
        · have hlast : ∀ d ∈ (c :: x).getLast?, P.white d = true := fun d hd =>
            hx d (List.mem_of_getLast? hd)
          rw [words_parts (Or.inr (hhead _)), words_parts (Or.inl hlast), words_of_white hx,
            wordsRead_commented]
          rfl
      rw [List.append_assoc, tokenizeLine_append hblank hno, s.tokenizeLine_line hblank]
      exact congrArg (fun ws => if Opens P s.before then [] else lineTokens P ws) hwords

/-- A comment on one line. -/
theorem tokenizeLine_comment_iff {body : List Char} (h : ¬['*', ')'] <:+: body) :
    tokenizeLine P (s.before ++ comment body ++ s.after) =
      tokenizeLine P (s.before ++ s.after) ↔ s.KeepsComment body := by
  by_cases hblank : Blank P s.before
  · have hopens : Opens P (comment body ++ s.after) := by
      have hdrop : (comment body ++ s.after).dropWhile P.white = comment body ++ s.after :=
        List.dropWhile_cons_of_neg (by rw [not_white_of_mem (by simp)]; exact Bool.false_ne_true)
      rw [Opens, hdrop]
      rfl
    rw [List.append_assoc, tokenizeLine_white_append hblank, tokenizeLine_white_append hblank,
      tokenizeLine_of_opens hopens, eq_comm, tokenizeLine_eq_nil_iff]
    constructor
    · exact .silent hblank
    · rintro (hopens' | ⟨-, hsilent⟩ | hnot | hnot)
      · rw [Opens, List.dropWhile_eq_nil_iff.mpr hblank] at hopens'
        cases hopens'
      · exact hsilent
      all_goals contradiction
  · have hno : NoBracket s.before (comment body ++ s.after) :=
      .of_head (by rw [comment]; rintro ⟨⟩) (by rw [comment]; rintro ⟨⟩) _
    have hlast : (comment body).getLast? = some ')' := by
      rw [comment, List.getLast?_append]
      rfl
    have hnoAfter : NoBracket (comment body) s.after := by
      constructor <;>
      · intro hlast'
        rw [hlast] at hlast'
        cases hlast'
    obtain ⟨hremoved, hstate⟩ := removeComments_comment h s.commented
    have hwords : Text.words P.white (removeInlineComments s.before ++
        removeComments s.commented (comment body ++ s.after)) =
          s.wordsRead (decide (body.getLast? = some '(')) := by
      rw [(removeComments_parts hnoAfter _).1, hremoved, hstate]
      rfl
    rw [List.append_assoc, tokenizeLine_append hblank hno, s.tokenizeLine_line hblank]
    change (if Opens P s.before then [] else lineTokens P (Text.words P.white
      (removeInlineComments s.before ++ removeComments s.commented (comment body ++ s.after)))) =
        _ ↔ _
    rw [hwords]
    by_cases hopens : Opens P s.before
    · rw [if_pos hopens, if_pos hopens]
      exact ⟨fun _ => .opens hopens, fun _ => rfl⟩
    · rw [if_neg hopens, if_neg hopens, eq_comm, lineTokens_eq_iff]
      constructor
      · exact .same hblank
      · rintro (hopens' | ⟨hblank', -⟩ | ⟨-, hclosed⟩ | ⟨-, hsame⟩)
        · exact absurd hopens' hopens
        · exact absurd hblank' hblank
        · rw [← hclosed]
          exact (lineTokens_eq_iff _ _).mp rfl
        · exact hsame

/-! ### Insertions with line feeds -/

/-- What is inserted before the first line feed. -/
theorem tokenizeLine_first {x : Trivia P} {first later : List Char}
    (hx : x.text = first ++ '\n' :: later) (hfirst : '\n' ∉ first) :
    tokenizeLine P (s.before ++ first) = tokenizeLine P s.before := by
  cases x with
  | space x hwhite =>
      refine tokenizeLine_append_white (fun c hc => hwhite c ?_) s.before
      rw [show x = first ++ '\n' :: later from hx]
      exact List.mem_append_left _ hc
  | comment body h =>
      obtain ⟨init, rfl, hinit⟩ := comment_first hx hfirst h
      by_cases hblank : Blank P s.before
      · have hopens : Opens P ('(' :: '*' :: init) := by
          rw [Opens, List.dropWhile_cons_of_neg
            (by rw [not_white_of_mem (by simp)]; exact Bool.false_ne_true)]
          rfl
        have hnil := tokenizeLine_white_append hblank []
        rw [List.append_nil] at hnil
        rw [tokenizeLine_white_append hblank, tokenizeLine_of_opens hopens, hnil]
        rfl
      · have hno : NoBracket s.before ('(' :: '*' :: init) :=
          .of_head (by simp) (by simp) _
        have hremoved : removeComments (inComment false s.before) ('(' :: '*' :: init) = [] := by
          rw [removeComments, (removeComments_true hinit).1]
        rw [tokenizeLine_append hblank hno, hremoved, List.append_nil, tokenizeLine_eq]
        rfl

/-- An insertion with a line feed. -/
theorem tokenize_later_iff {x : Trivia P} {first later : List Char}
    (hx : x.text = first ++ '\n' :: later) (hfirst : '\n' ∉ first) :
    tokenize P (String.ofList (s.before ++ x.text ++ s.after)) =
        tokenizeLine P (s.before ++ s.after) ↔
      ∃ tokens, s.Adds tokens ∧ Spells P (Text.lines (later ++ s.after)) tokens := by
  have hline : '\n' ∉ s.before ++ first := by
    rw [List.mem_append, not_or]
    exact ⟨s.before_line, hfirst⟩
  have htext : s.before ++ x.text ++ s.after =
      s.before ++ first ++ '\n' :: (later ++ s.after) := by
    rw [hx]
    simp only [List.append_assoc, List.cons_append]
  rw [htext, tokenize_feed, tokenize_line hline, s.tokenizeLine_first hx hfirst]
  simp only [adds_iff, spells_iff]
  rw [tokenize, String.toList_ofList]
  constructor
  · intro h
    exact ⟨_, h.symm, rfl⟩
  · rintro ⟨tokens, hadds, rfl⟩
    exact hadds.symm

/-- Which insertions change nothing. -/
theorem survives_iff (x : Trivia P) :
    tokenize P (s.source x.text) = tokenize P (s.source []) ↔ s.Keeps x := by
  rw [tokenize_source]
  unfold Keeps
  cases hdrop : x.text.dropWhile (· != '\n') with
  | nil =>
      have hfeed : '\n' ∉ x.text := fun hmem => by
        have hne := List.dropWhile_eq_nil_iff.mp hdrop _ hmem
        rw [bne_self_eq_false] at hne
        cases hne
      have hline : '\n' ∉ s.before ++ x.text ++ s.after := by
        simp only [List.mem_append, not_or]
        exact ⟨⟨s.before_line, hfeed⟩, s.after_line⟩
      rw [tokenize_line hline]
      cases x with
      | space x hx => exact ⟨fun _ => trivial, fun _ => s.tokenizeLine_space hx⟩
      | comment body h => exact s.tokenizeLine_comment_iff h
  | cons c later =>
      have hc : c = '\n' := by
        have hhead := List.head?_dropWhile_not (· != '\n') x.text
        rw [hdrop] at hhead
        simpa using hhead
      have htext : x.text = x.text.takeWhile (· != '\n') ++ '\n' :: later := by
        obtain rfl := hc
        rw [← hdrop, List.takeWhile_append_dropWhile]
      refine s.tokenize_later_iff htext fun hmem => ?_
      have hne := List.mem_takeWhile_imp hmem
      rw [bne_self_eq_false] at hne
      cases hne

end Spot

/-! ### Labels -/

/-- The words of a line are the tokens of a line iff they are plain. -/
theorem lineTokens_eq_map_iff (ws : List (List Char)) :
    ws.map (wordToken P) = lineTokens P ws ↔ PlainWords P ws := by
  have hword : ∀ {word m}, mnemonic? P word = some m → wordToken P word = .mnemonic m := by
    intro word m hm
    have hm' : parseMnemonic (toUppercase P word) = some m := hm
    rw [wordToken, hm']
  have hident : ∀ {word}, mnemonic? P word = none →
      wordToken P word = .ident (String.ofList word) := by
    intro word hnone
    have hnone' : parseMnemonic (toUppercase P word) = none := hnone
    rw [wordToken, hnone']
  rcases words_cases P ws with hs | ⟨first, rest, rfl, hlabel⟩ | ⟨first, rest, m, rfl, hm⟩
  · rw [(lineTokens_eq_nil_iff ws).mpr hs, List.map_eq_nil_iff]
    constructor
    · rintro rfl
      exact .nil
    · rintro (_ | hm | ⟨hm, -⟩)
      · rfl
      all_goals
        rw [(hs _ (Option.mem_some_self _)).2] at hm
        cases hm
  · rw [lineTokens_label hlabel, List.map_cons, hident (mnemonic?_of_isLabel hlabel)]
    constructor
    · exact nofun
    · rintro (_ | hm | ⟨hm, -⟩)
      all_goals
        rw [mnemonic?_of_isLabel hlabel] at hm
        cases hm
  · rw [lineTokens_mnemonic hm, List.map_cons, hword hm]
    constructor
    · intro h
      have hrest := (List.cons.inj h).2
      rcases rest with - | ⟨op, - | ⟨op', rest⟩⟩
      · exact .mnemonic hm
      · cases hop : mnemonic? P op with
        | none => exact .operand hm hop
        | some m' =>
            rw [List.map_singleton, hword hop] at hrest
            cases hrest
      · have hlen := congrArg List.length hrest
        simp at hlen
    · rintro (_ | - | ⟨-, hop⟩)
      · rfl
      · rw [List.map_singleton, hident hop]
        rfl

theorem label_iff (l : LabelName P) (i : Line) :
    (Edit.label l i).Neutral ↔ (Edit.label l i).Keeps := by
  obtain ⟨i, hi⟩ := i
  have hwhite : ∀ c ∈ l.text ++ [':'], P.white c = false := by
    intro c hc
    rcases List.mem_append.mp hc with hc | hc
    · exact l.word c hc
    · rw [List.mem_singleton.mp hc]
      exact not_white_of_mem (by simp)
  have hbracket : '(' ∉ l.text ++ [':'] := by
    rw [List.mem_append, not_or]
    exact ⟨l.bracket, by decide⟩
  have hfeed : '\n' ∉ l.text ++ [':', ' '] ++ i := by
    simp only [List.mem_append, not_or]
    refine ⟨⟨fun hmem => ?_, by decide⟩, hi⟩
    have hnot := l.word _ hmem
    rw [white_of_mem (by simp)] at hnot
    cases hnot
  have hcode : codeWords P i = lineWords P i := by
    have hend : Blank P (i.rtakeWhile P.white) := fun c hc => List.mem_rtakeWhile_imp hc
    have hwords := lineWords_append_white hend (i.rdropWhile P.white)
    rw [List.rdropWhile_append_rtakeWhile] at hwords
    exact hwords.symm
  have hline : tokenizeLine P (l.text ++ [':', ' '] ++ i) =
      .label (String.ofList l.text) :: (lineWords P i).map (wordToken P) := by
    have hword := tokenizeLine_word (List.append_ne_nil_of_right_ne_nil l.text
      (List.cons_ne_nil ':' [])) hwhite hbracket i
    have hlabel : IsLabel (l.text ++ [':']) := List.getLast?_concat
    rw [lineTokens_label hlabel, hcode, List.dropLast_concat] at hword
    rw [← hword, List.append_assoc, List.append_assoc]
    rfl
  change tokenize P (String.ofList (l.text ++ [':', ' '] ++ i)) =
    .label (String.ofList l.text) :: tokenize P (String.ofList i) ↔
      if Opens P i then lineWords P i = [] else PlainWords P (lineWords P i)
  rw [tokenize_line hfeed, tokenize_line hi, hline, List.cons_inj_right, tokenizeLine_eq]
  split
  · exact List.map_eq_nil_iff
  · exact lineTokens_eq_map_iff _

/-- Which edits change nothing else. -/
theorem neutral_iff (e : Edit P) : e.Neutral ↔ e.Keeps := by
  cases e with
  | label l i => exact label_iff l i
  | insert s x => exact s.survives_iff x

/-- The place at the beginning of `LD X1`. -/
def beforeLoad : Spot .exact where
  above := []
  before := []
  after := ['L', 'D', ' ', 'X', '1']
  below := []
  before_line := List.not_mem_nil
  after_line := by decide
  noBracket := .nil _
  between := Or.inl nofun

/-- `(* input *) LD X1` has no tokens. -/
theorem beforeLoad_not_neutral :
    ¬(Edit.insert beforeLoad
      (.comment [' ', 'i', 'n', 'p', 'u', 't', ' '] (by decide))).Neutral := by
  intro h
  have htokens : ([] : List Token) = [.mnemonic .ld, .ident "X1"] := h
  cases htokens

end Weftik.Il
