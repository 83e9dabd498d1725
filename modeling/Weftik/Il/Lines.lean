import Weftik.Il.Parser

/-!
# Generated Lines of IL

Other compilers write Instruction List text, a mnemonic and an operand on each line, for
the front end of the Instruction List compiler to read. Whatever the operand text is, such
a line is a statement of its mnemonic: the operand that is read is the first word of the
text outside its comments, or `?` when there is none. A line that begins with a semicolon
is no statement.

## Main definitions

* `operand`: the operand that is read from the text after a mnemonic.
* `lineStmts`: the statements of a line.

## Main results

* `spelling_spec`: what the spellings of the mnemonics are.
* `tokenizeLine_mnemonic`: the tokens of a line with a mnemonic and an operand text.
* `parse_tokenize`: the statements of a text are those of its lines.
-/

namespace Weftik.Il

variable {P : Platform}

/-! ### The spelling of the mnemonics -/

/-- What the spelling of a mnemonic has to be: found in the table, not empty, not a label, and
made of ASCII capitals. -/
def isSpelling (p : String × Mnemonic) : Bool :=
  mnemonics.lookup p.1 == some p.2 && p.1.toList != [] && p.1.toList.getLast? != some ':' &&
    p.1.toList.all fun c =>
      decide (c.val < 128) && c.toUpper == c &&
        [' ', '\t', '\n', '\x0b', '\x0c', '\r', '('].all (· != c)

/-- The spelling of a mnemonic: ASCII capitals, not empty, and found in the table. -/
theorem spelling_spec : ∀ p ∈ mnemonics, mnemonics.lookup p.1 = some p.2 ∧
    p.1.toList ≠ [] ∧ p.1.toList.getLast? ≠ some ':' ∧
    ∀ c ∈ p.1.toList, c.val < 128 ∧ c.toUpper = c ∧
      c ∉ [' ', '\t', '\n', '\x0b', '\x0c', '\r'] ∧ c ≠ '(' := by
  have hall : mnemonics.all isSpelling = true := by decide
  intro p hp
  have hspelling := List.all_eq_true.mp hall p hp
  simp only [isSpelling, Bool.and_eq_true, beq_iff_eq, bne_iff_ne] at hspelling
  obtain ⟨⟨⟨hlookup, hne⟩, hlabel⟩, hchars⟩ := hspelling
  refine ⟨hlookup, hne, hlabel, fun c hc => ?_⟩
  have hchar := List.all_eq_true.mp hchars c hc
  simp only [Bool.and_eq_true, beq_iff_eq, decide_eq_true_eq] at hchar
  obtain ⟨⟨hascii, hself⟩, hother⟩ := hchar
  have hother' : ∀ d ∈ [' ', '\t', '\n', '\x0b', '\x0c', '\r', '('], d ≠ c := fun d hd =>
    bne_iff_ne.mp (List.all_eq_true.mp hother d hd)
  refine ⟨hascii, hself, fun hmem => ?_, fun hopen => ?_⟩
  · exact hother' c (List.mem_append_left ['('] hmem) rfl
  · exact hother' '(' (by simp) hopen.symm

variable {p : String × Mnemonic}

/-- The spelling of a mnemonic has no white space. -/
theorem white_spelling (hp : p ∈ mnemonics) : ∀ c ∈ p.1.toList, P.white c = false := by
  intro c hc
  obtain ⟨hascii, -, hwhite, -⟩ := (spelling_spec p hp).2.2.2 c hc
  rw [P.white_ascii c hascii, decide_eq_false hwhite]

/-- The spelling of a mnemonic is in capitals. -/
theorem toUppercase_spelling (hp : p ∈ mnemonics) : toUppercase P p.1.toList = p.1 := by
  have hupper : ∀ cs : List Char, (∀ c ∈ cs, c.val < 128 ∧ c.toUpper = c) →
      cs.flatMap P.upper = cs := by
    intro cs
    induction cs with
    | nil => exact fun _ => rfl
    | cons c cs ih =>
        intro h
        obtain ⟨hascii, hself⟩ := h c List.mem_cons_self
        rw [List.flatMap_cons, P.upper_ascii c hascii, hself,
          ih fun d hd => h d (List.mem_cons_of_mem c hd)]
        rfl
  have hchars := (spelling_spec p hp).2.2.2
  rw [toUppercase, hupper _ fun c hc => ⟨(hchars c hc).1, (hchars c hc).2.1⟩,
    String.ofList_toList]

/-! ### A line with a mnemonic and an operand -/

/-- Characters before the first bracket are in no comment. -/
theorem removeComments_append {cs : List Char} (h : '(' ∉ cs) (rest : List Char) :
    removeComments false (cs ++ rest) = cs ++ removeComments false rest := by
  induction cs with
  | nil => rfl
  | cons c cs ih =>
      rw [List.mem_cons, not_or] at h
      rw [List.cons_append, removeComments, ih h.2]
      · rfl
      · rintro cs' rfl
        exact absurd rfl h.1

theorem white_space : P.white ' ' = true := by
  rw [P.white_ascii ' ' (by decide)]
  decide

/-- The words of the trimmed text outside its comments. -/
def codeWords (P : Platform) (text : List Char) : List (List Char) :=
  Text.words P.white (removeInlineComments (text.rdropWhile P.white))

/-- The tokens of a line with a word and a text after it. -/
theorem tokenizeLine_word {v : List Char} (hne : v ≠ []) (hwhite : ∀ c ∈ v, P.white c = false)
    (hbracket : '(' ∉ v) (text : List Char) :
    tokenizeLine P (v ++ ' ' :: text) = lineTokens P (v :: codeWords P text) := by
  have hopen : ∀ rest, (v ++ rest).take 2 ≠ ['(', '*'] := by
    intro rest htake
    obtain ⟨c, cs, rfl⟩ := List.exists_cons_of_ne_nil hne
    exact hbracket ((List.cons.inj htake).1 ▸ List.mem_cons_self)
  have htrim := Text.trim_word hne hwhite white_space text
  rw [tokenizeLine, htrim]
  split
  · -- Nothing is left of the text.
    rename_i hnil
    have hstart : ¬ (v = [] ∨ v.take 2 = ['(', '*']) := by
      rintro (hnil | htake)
      · exact hne hnil
      · refine hopen [] ?_
        rwa [List.append_nil]
    have hself := removeComments_append hbracket []
    rw [List.append_nil, removeComments, List.append_nil] at hself
    rw [if_neg hstart, removeInlineComments, hself, Text.words_singleton hne hwhite, codeWords,
      hnil]
    rfl
  · have hstart : ¬ (v ++ ' ' :: text.rdropWhile P.white = [] ∨
        (v ++ ' ' :: text.rdropWhile P.white).take 2 = ['(', '*']) := by
      rintro (hnil | htake)
      · exact hne (List.append_eq_nil_iff.mp hnil).1
      · exact hopen _ htake
    have hspace : '(' ∉ v ++ [' '] := by simp [hbracket]
    have hself := removeComments_append hspace (text.rdropWhile P.white)
    rw [List.append_assoc, List.append_assoc, List.singleton_append,
      List.singleton_append] at hself
    rw [if_neg hstart, removeInlineComments, hself, Text.words_append hne hwhite white_space]
    rfl

/-- The operand in a text after a mnemonic. -/
def operand? (P : Platform) (text : String) : Option String :=
  (codeWords P text.toList).head?.map String.ofList

/-- The operand in a text after a mnemonic, as the parser completes it. -/
def operand (P : Platform) (text : String) : String := (operand? P text).getD "?"

/-- The tokens of a line with a mnemonic and a text after it. -/
theorem tokenizeLine_mnemonic (hp : p ∈ mnemonics) (text : String) :
    tokenizeLine P (p.1.toList ++ ' ' :: text.toList) =
      .mnemonic p.2 :: ((operand? P text).map Token.ident).toList := by
  obtain ⟨hlookup, hne, hlabel, hchars⟩ := spelling_spec p hp
  have hbracket : '(' ∉ p.1.toList := fun h => (hchars '(' h).2.2.2 rfl
  rw [tokenizeLine_word hne (white_spelling hp) hbracket, lineTokens, if_neg hlabel,
    toUppercase_spelling hp, parseMnemonic, hlookup, operand?, Option.map_map]
  rfl

/-- A line that begins with a semicolon and a space has no tokens. -/
theorem tokenizeLine_semicolon (text : List Char) :
    tokenizeLine P (';' :: ' ' :: text) = [] := by
  have hwhite : ∀ c ∈ [';'], P.white c = false := by
    intro c hc
    rw [List.mem_singleton.mp hc, P.white_ascii ';' (by decide)]
    decide
  have hline := tokenizeLine_word (by decide) hwhite (by decide) text
  have hupper : toUppercase P [';'] = ";" := by
    rw [toUppercase, List.flatMap_singleton, P.upper_ascii ';' (by decide)]
    decide
  rw [lineTokens, if_neg (by decide), hupper] at hline
  exact hline

/-! ### The statements of a line -/

/-- The statements of a line. -/
def lineStmts (P : Platform) (line : List Char) : List ILStatement := parse (tokenizeLine P line)

/-- The tokens do not begin with a name, which a mnemonic before them would take. -/
def StartsStatement (tokens : List Token) : Prop := ∀ name, tokens.head? ≠ some (.ident name)

/-- The tokens of a line begin with a label or a mnemonic, if there are any. -/
theorem startsStatement_tokenizeLine (line : List Char) {rest : List Token}
    (h : StartsStatement rest) : StartsStatement (tokenizeLine P line ++ rest) := by
  rw [tokenizeLine]
  split
  · exact h
  · cases Text.words P.white (removeInlineComments (Text.trim P.white line)) with
    | nil => exact h
    | cons first words =>
        simp only [lineTokens]
        split
        · rintro _ ⟨⟩
        · split
          · exact h
          · rintro _ ⟨⟩

/-- The parser goes from statement to statement. -/
theorem parse_append (tokens : List Token) {rest : List Token} (h : StartsStatement rest) :
    parse (tokens ++ rest) = parse tokens ++ parse rest := by
  induction tokens using parse.induct with
  | case1 => rfl
  | case2 name tokens ih | case3 name tokens ih => simp [parse, ih]
  | case4 m name tokens htakes ih =>
      simp only [List.cons_append, parse, if_pos htakes, ih]
  | case5 m name tokens htakes ih =>
      simp only [List.cons_append, parse, if_neg htakes, ih]
  | case6 m tokens hnext ih =>
      have hnext' : ∀ name tokens', tokens ++ rest ≠ .ident name :: tokens' := by
        intro name tokens' heq
        cases tokens with
        | nil => exact h name (by rw [show rest = _ from heq]; rfl)
        | cons t tokens =>
            obtain ⟨rfl, -⟩ := List.cons.inj heq
            exact hnext name tokens rfl
      rw [List.cons_append, parse, parse, ih, List.cons_append]
      · exact hnext
      · exact hnext'

/-- The front end reads a text line by line. -/
theorem parse_tokenize (source : String) :
    parse (tokenize P source) = (Text.lines source.toList).flatMap (lineStmts P) := by
  have hlines : ∀ lines : List (List Char), StartsStatement (lines.flatMap (tokenizeLine P)) ∧
      parse (lines.flatMap (tokenizeLine P)) = lines.flatMap (lineStmts P) := by
    intro lines
    induction lines with
    | nil => exact ⟨nofun, rfl⟩
    | cons line lines ih =>
        obtain ⟨hstarts, hparse⟩ := ih
        refine ⟨startsStatement_tokenizeLine line hstarts, ?_⟩
        rw [List.flatMap_cons, List.flatMap_cons, parse_append _ hstarts, hparse]
        rfl
  exact (hlines _).2

/-- Lines that are equal but for white space at their ends have the same statements. -/
theorem lineStmts_congr {line line' : List Char}
    (h : Text.trim P.white line = Text.trim P.white line') :
    lineStmts P line = lineStmts P line' := by
  rw [lineStmts, lineStmts, tokenizeLine, tokenizeLine, h]

/-- A line and a line feed, and the text after them. -/
theorem flatMap_lineStmts_append {line : List Char} (hfeed : '\n' ∉ line) (rest : List Char) :
    (Text.lines (line ++ '\n' :: rest)).flatMap (lineStmts P) =
      lineStmts P line ++ (Text.lines rest).flatMap (lineStmts P) := by
  obtain ⟨line', hlines, hline'⟩ := Text.exists_lines_append hfeed rest
  rw [hlines, List.flatMap_cons]
  rcases hline' with rfl | rfl
  · rfl
  · rw [lineStmts_congr (Text.trim_concat (P.white_ascii '\r' (by decide)) line')]

/-- Several lines, each with a line feed after it, and the text after them. -/
theorem flatMap_lineStmts_lines {lines : List String}
    (hfeed : ∀ line ∈ lines, '\n' ∉ line.toList) (rest : List Char) :
    (Text.lines ((lines.flatMap fun line => line.toList ++ ['\n']) ++ rest)).flatMap
        (lineStmts P) =
      (lines.flatMap fun line => lineStmts P line.toList) ++
        (Text.lines rest).flatMap (lineStmts P) := by
  induction lines with
  | nil => rfl
  | cons line lines ih =>
      rw [List.flatMap_cons, List.flatMap_cons, List.append_assoc, List.append_assoc,
        List.singleton_append, flatMap_lineStmts_append (hfeed line List.mem_cons_self),
        ih fun l hl => hfeed l (List.mem_cons_of_mem line hl), List.append_assoc]

/-- Lines that are joined by line feeds. -/
theorem flatMap_lineStmts_intercalate {lines : List (List Char)}
    (h : ∀ line ∈ lines, line ≠ [] ∧ '\n' ∉ line) :
    (Text.lines (['\n'].intercalate lines)).flatMap (lineStmts P) =
      lines.flatMap (lineStmts P) := by
  induction lines with
  | nil => rfl
  | cons line lines ih =>
      obtain ⟨hne, hfeed⟩ := h line List.mem_cons_self
      cases lines with
      | nil => rw [List.intercalate_singleton, Text.lines_singleton hne hfeed]
      | cons next lines =>
          rw [List.intercalate_cons_cons, List.append_assoc, List.singleton_append,
            flatMap_lineStmts_append hfeed, ih fun l hl => h l (List.mem_cons_of_mem line hl)]
          rfl

/-- The statements of a line with a mnemonic and a text after it. -/
theorem lineStmts_mnemonic (hp : p ∈ mnemonics) (hident : p.2.takesIdent = true) (text : String) :
    lineStmts P (p.1.toList ++ ' ' :: text.toList) = [p.2.statement (operand P text)] := by
  rw [lineStmts, tokenizeLine_mnemonic hp, operand]
  cases operand? P text with
  | some name => exact if_pos hident
  | none => rfl

end Weftik.Il
