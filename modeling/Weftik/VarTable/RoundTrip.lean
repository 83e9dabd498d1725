import Weftik.VarTable.Model

/-!
# The Round Trips of the Variable Tables

A declaration is read back as it was written. The global table takes a line for the beginning
or the end of its block when it begins so, also when that is the name of a variable; the
local one keeps the lines outside its block, and gives all of them one line ending.

## Main definitions

* `VarTable.GvlVariable.WellFormed`: what a row of the tables may hold.
* `VarTable.Survives`: a local table is read back, and the lines outside the block are kept.

## Main results

* `VarTable.declarationOf_row`: the declaration on a line that was written.
* `VarTable.tables_roundTrip_iff`: when the tables make the round trip.
-/

namespace Weftik.VarTable

open Text

/-- Identifiers, and texts that are trimmed and do not leave their places. -/
structure GvlVariable.WellFormed (v : GvlVariable) : Prop where
  name : isIdentifier v.name = true
  type : isIdentifier v.type = true
  init_trimmed : trim isWhite v.init = v.init
  init_place : ';' ∉ v.init ∧ '\n' ∉ v.init
  comment_trimmed : trim isWhite v.comment = v.comment
  comment_place : '\n' ∉ v.comment

/-- The texts of a row have no line break. -/
structure GvlVariable.OnOneLine (v : GvlVariable) : Prop where
  name : '\n' ∉ v.name
  type : '\n' ∉ v.type
  init : '\n' ∉ v.init
  comment : '\n' ∉ v.comment

/-! ### A declaration -/

theorem not_isWhite_of_isIdentChar {c : Char} (h : isIdentChar c = true) : isWhite c = false := by
  have hrange : 48 ≤ c.toNat ∧ c.toNat ≤ 122 := by
    rw [isIdentChar, Bool.or_eq_true, beq_iff_eq] at h
    rcases h with h | rfl
    · simp only [Char.isAlphanum, Char.isAlpha, Char.isUpper, Char.isLower, Char.isDigit,
        Bool.or_eq_true, decide_eq_true_eq, Bool.and_eq_true, ge_iff_le,
        UInt32.le_iff_toNat_le] at h
      change (65 ≤ c.toNat ∧ c.toNat ≤ 90 ∨ 97 ≤ c.toNat ∧ c.toNat ≤ 122) ∨
        48 ≤ c.toNat ∧ c.toNat ≤ 57 at h
      omega
    · decide
  rw [isWhite, Bool.or_eq_false_iff, decide_eq_false_iff_not, decide_eq_false_iff_not]
  refine ⟨?_, by omega⟩
  simp only [List.mem_cons, List.not_mem_nil, or_false]
  omega

theorem isIdentifier_iff {cs : List Char} :
    isIdentifier cs = true ↔
      ∃ c rest, cs = c :: rest ∧ (c.isAlpha || c == '_') = true ∧
          ∀ d ∈ cs, isIdentChar d = true := by
  cases cs with
  | nil => simp [isIdentifier]
  | cons c rest =>
      have hstart : (c.isAlpha || c == '_') = true → isIdentChar c = true := by
        intro h
        rw [isIdentChar, Char.isAlphanum]
        rcases Bool.or_eq_true _ _ |>.mp h with h | h <;> simp [h]
      simp only [isIdentifier, Bool.and_eq_true, List.all_eq_true, List.cons.injEq,
        List.forall_mem_cons]
      constructor
      · rintro ⟨hc, hrest⟩
        exact ⟨c, rest, ⟨rfl, rfl⟩, hc, hstart hc, hrest⟩
      · rintro ⟨_, _, ⟨rfl, rfl⟩, hc, -, hrest⟩
        exact ⟨hc, hrest⟩

/-- An identifier is read up to the first character that does not belong to it. -/
theorem takeIdentifier_append {name rest : List Char} (h : isIdentifier name = true)
    (hrest : ∀ c, rest.head? = some c → isIdentChar c = false) :
    takeIdentifier (name ++ rest) = some (name, rest) := by
  obtain ⟨-, -, -, -, hall⟩ := isIdentifier_iff.mp h
  have htake : (name ++ rest).takeWhile isIdentChar = name := by
    rw [List.takeWhile_append_of_pos hall]
    cases rest with
    | nil => simp
    | cons c rest => simp [hrest c rfl]
  have hdrop : (name ++ rest).dropWhile isIdentChar = rest := by
    rw [List.dropWhile_append_of_pos hall]
    cases rest with
    | nil => rfl
    | cons c rest => simp [hrest c rfl]
  rw [takeIdentifier, htake, hdrop, if_pos h]

/-- An identifier has no white space in front. -/
theorem dropWhile_isWhite_append {name : List Char} (h : isIdentifier name = true)
    (rest : List Char) : (name ++ rest).dropWhile isWhite = name ++ rest := by
  obtain ⟨c, name, rfl, -, hall⟩ := isIdentifier_iff.mp h
  exact List.dropWhile_cons_of_neg
    (by simp [not_isWhite_of_isIdentChar (hall c List.mem_cons_self)])

variable {v : GvlVariable}

/-- The initial value is read as it was written. -/
theorem takeInit_initPart (h : v.WellFormed) (rest : List Char) :
    takeInit ((initPart v ++ ';' :: rest).dropWhile isWhite) = some (v.init, rest) := by
  rw [initPart]
  by_cases hinit : v.init = []
  · rw [if_pos hinit, hinit]
    rfl
  · rw [if_neg hinit]
    have hne : ∀ c ∈ v.init, (c != ';') = true := by
      intro c hc
      rw [bne_iff_ne]
      rintro rfl
      exact h.init_place.1 hc
    have htake : (' ' :: (v.init ++ ';' :: rest)).takeWhile (· != ';') = ' ' :: v.init := by
      rw [List.takeWhile_cons_of_pos (by decide), List.takeWhile_append_of_pos hne]
      simp
    have hdrop : (' ' :: (v.init ++ ';' :: rest)).dropWhile (· != ';') = ';' :: rest := by
      rw [List.dropWhile_cons_of_pos (by decide), List.dropWhile_append_of_pos hne]
      simp
    have htrim : trim isWhite (' ' :: v.init) = v.init := h.init_trimmed
    change takeInit (':' :: '=' :: ' ' :: (v.init ++ ';' :: rest)) = _
    simp only [takeInit, hdrop, htake, htrim]

/-- The comment is read as it was written. -/
theorem takeComment_commentPart (h : v.WellFormed) :
    takeComment ((commentPart v).dropWhile isWhite) = some v.comment := by
  rw [commentPart]
  by_cases hcomment : v.comment = []
  · rw [if_pos hcomment, hcomment]
    rfl
  · rw [if_neg hcomment]
    have hdrop : ((' ' :: v.comment ++ [' ', '*', ')']).rdropWhile isWhite).reverse =
        ')' :: '*' :: (' ' :: v.comment ++ [' ']).reverse := by
      rw [List.rdropWhile_eq_self_iff.mpr (by simp [isWhite])]
      simp
    change takeComment ('(' :: '*' :: (' ' :: v.comment ++ [' ', '*', ')'])) = _
    simp only [takeComment, hdrop]
    rw [List.reverse_reverse, trim_concat (by decide)]
    exact congrArg some h.comment_trimmed

/-- A row behind its indentation. -/
def body (v : GvlVariable) : List Char :=
  v.name ++ ' ' :: ':' :: ' ' :: (v.type ++ (initPart v ++ ';' :: commentPart v))

theorem row_eq (v : GvlVariable) : row v = ' ' :: ' ' :: ' ' :: ' ' :: body v := by
  simp [row, body]

/-- A row ends with its semicolon or its comment. -/
theorem exists_body_concat (v : GvlVariable) :
    ∃ a c, body v = a ++ [c] ∧ (c = ';' ∨ c = ')') := by
  have hend : ∃ a c, ';' :: commentPart v = a ++ [c] ∧ (c = ';' ∨ c = ')') := by
    rw [commentPart]
    by_cases hcomment : v.comment = []
    · rw [if_pos hcomment]
      exact ⟨[], ';', rfl, Or.inl rfl⟩
    · rw [if_neg hcomment]
      exact ⟨';' :: ' ' :: '(' :: '*' :: ' ' :: (v.comment ++ [' ', '*']), ')', by simp,
        Or.inr rfl⟩
  obtain ⟨a, c, heq, hc⟩ := hend
  refine ⟨v.name ++ ' ' :: ':' :: ' ' :: (v.type ++ (initPart v ++ a)), c, ?_, hc⟩
  rw [body, heq]
  simp

theorem trim_row (h : v.WellFormed) : trim isWhite (row v) = body v := by
  obtain ⟨a, c, hbody, hc⟩ := exists_body_concat v
  have hdrop : (row v).dropWhile isWhite = body v := by
    rw [row_eq]
    exact dropWhile_isWhite_append h.name _
  rw [trim, hdrop, hbody]
  exact List.rdropWhile_concat_neg _ _ _ (by rcases hc with rfl | rfl <;> decide)

/-- A declaration is read as it was written. -/
theorem declarationOf_row (h : v.WellFormed) : declarationOf (row v) = [v] := by
  have htype : ∀ c, (initPart v ++ ';' :: commentPart v).head? = some c →
      isIdentChar c = false := by
    intro c hc
    rw [initPart] at hc
    split at hc <;> obtain rfl := Option.some.inj hc <;> rfl
  have hline : gvlVarLine (body v) = some v := by
    rw [body, gvlVarLine, dropWhile_isWhite_append h.name,
      takeIdentifier_append h.name (by rintro c ⟨⟩; rfl)]
    change (takeIdentifier ((v.type ++ _).dropWhile isWhite)).bind _ = _
    rw [dropWhile_isWhite_append h.type, takeIdentifier_append h.type htype]
    change (takeInit _).bind _ = _
    rw [takeInit_initPart h]
    change (takeComment _).bind _ = _
    rw [takeComment_commentPart h]
    rfl
  obtain ⟨c, name, hname, hstart, -⟩ := isIdentifier_iff.mp h.name
  have hbody : body v = c :: (name ++ ' ' :: ':' :: ' ' ::
      (v.type ++ (initPart v ++ ';' :: commentPart v))) := by
    rw [body, hname, List.cons_append]
  rw [declarationOf, trim_row h, if_neg, hline]
  · rfl
  · rw [hbody, List.cons_prefix_cons]
    rintro (hnil | ⟨rfl, -⟩)
    · cases hnil
    · exact absurd hstart (by decide)

theorem GvlVariable.WellFormed.onOneLine (h : v.WellFormed) : v.OnOneLine := by
  have hident : ∀ {cs : List Char}, isIdentifier cs = true → '\n' ∉ cs := by
    intro cs hcs hmem
    obtain ⟨-, -, -, -, hall⟩ := isIdentifier_iff.mp hcs
    exact absurd (hall _ hmem) (by decide)
  exact ⟨hident h.name, hident h.type, h.init_place.2, h.comment_place⟩

theorem not_feed_mem_row (h : v.OnOneLine) : '\n' ∉ row v := by
  have hinit : '\n' ∉ initPart v := by
    rw [initPart]
    split <;> simp [h.init]
  have hcomment : '\n' ∉ commentPart v := by
    rw [commentPart]
    split <;> simp [h.comment]
  simp [row, h.name, h.type, hinit, hcomment]

theorem isLine_row (h : v.OnOneLine) {eol : List Char} (heol : eol = ['\r', '\n'] ∨ eol = ['\n']) :
    IsLine (row v, eol) := by
  obtain ⟨a, c, hbody, hc⟩ := exists_body_concat v
  refine ⟨not_feed_mem_row h, heol.imp_right fun heol => ⟨heol, ?_⟩⟩
  have hlast : (row v).getLast? = some c := by
    rw [row_eq, hbody]
    exact (congrArg List.getLast? (List.append_assoc [' ', ' ', ' ', ' '] a [c]).symm).trans
      List.getLast?_concat
  rw [hlast]
  rcases hc with rfl | rfl <;> decide

/-! ### Global variables -/

/-- The name makes the line of its variable a limit of the block. -/
def Limits (name : List Char) : Prop :=
  "VAR_GLOBAL".toList <+: name ∨ "END_VAR".toList <+: name

/-- A row begins like its name, up to the space behind it. -/
theorem prefix_body_iff (v : GvlVariable) {p : List Char} (hp : ' ' ∉ p) :
    p <+: body v ↔ p <+: v.name := by
  refine ⟨fun h => ?_, fun h => h.trans (List.prefix_append _ _)⟩
  rcases List.prefix_or_prefix_of_prefix h (List.prefix_append v.name _) with h' | ⟨q, rfl⟩
  · exact h'
  · cases q with
    | nil => simp
    | cons c q =>
        obtain ⟨rfl, -⟩ := List.cons_prefix_cons.mp ((List.prefix_append_right_inj _).mp h)
        exact absurd (by simp) hp

variable {vars : List GvlVariable}

/-- The rows of a block are the variables iff none of them limits the block. -/
theorem parseGvlLines_rows_iff (h : ∀ v ∈ vars, v.WellFormed) {rest : List (List Char)}
    (hrest : ∀ inBlock, parseGvlLines inBlock rest = []) :
    (∀ inBlock, (parseGvlLines inBlock (vars.map row ++ rest)).length ≤ vars.length) ∧
      (parseGvlLines true (vars.map row ++ rest) = vars ↔ ∀ v ∈ vars, ¬Limits v.name) := by
  induction vars with
  | nil => exact ⟨fun inBlock => (congrArg List.length (hrest inBlock)).le,
      iff_of_true (hrest true) nofun⟩
  | cons v vars ih =>
      rw [List.forall_mem_cons] at h
      obtain ⟨hle, hiff⟩ := ih h.2
      have hglobal := prefix_body_iff v (p := "VAR_GLOBAL".toList) (by decide)
      have hend := prefix_body_iff v (p := "END_VAR".toList) (by decide)
      rw [List.map_cons, List.cons_append, List.forall_mem_cons]
      simp only [parseGvlLines, trim_row h.1, hglobal, hend, declarationOf_row h.1]
      -- a line that limits the block is lost, and the list of the others is too short
      have hshort : ∀ inBlock, parseGvlLines inBlock (vars.map row ++ rest) ≠ v :: vars := by
        intro inBlock heq
        have := hle inBlock
        rw [heq, List.length_cons] at this
        omega
      by_cases hg : "VAR_GLOBAL".toList <+: v.name
      · simp only [if_pos hg]
        exact ⟨fun _ => (hle true).trans (Nat.le_succ _),
          iff_of_false (hshort true) fun hall => hall.1 (Or.inl hg)⟩
      · by_cases he : "END_VAR".toList <+: v.name
        · simp only [if_neg hg, if_pos he]
          exact ⟨fun _ => (hle false).trans (Nat.le_succ _),
            iff_of_false (hshort false) fun hall => hall.1 (Or.inr he)⟩
        · simp only [if_neg hg, if_neg he]
          have hgood : ¬Limits v.name := fun hlimits => hlimits.elim hg he
          refine ⟨fun inBlock => ?_, ?_⟩
          · cases inBlock with
            | false => exact (hle false).trans (Nat.le_succ _)
            | true => exact Nat.succ_le_succ (hle true)
          · rw [if_pos trivial, List.singleton_append, List.cons_inj_right, hiff]
            exact (and_iff_right hgood).symm

/-- The lines of a saved global table. -/
theorem splitLines_serializeGvl (h : ∀ v ∈ vars, v.OnOneLine) :
    splitLines (serializeGvl vars) =
      "VAR_GLOBAL".toList :: (vars.map row ++ ["END_VAR".toList, []]) := by
  have hlines : ∀ l ∈ ("VAR_GLOBAL".toList :: (vars.map row ++ ["END_VAR".toList])).map
      (·, ['\n']), IsLine l := by
    simp only [List.map_cons, List.map_append, List.map_map, List.forall_mem_cons,
      List.forall_mem_append, List.forall_mem_map]
    exact ⟨⟨by decide, Or.inr ⟨rfl, by decide⟩⟩, fun v hv => isLine_row (h v hv) (Or.inr rfl),
      ⟨by decide, Or.inr ⟨rfl, by decide⟩⟩, by simp⟩
  rw [splitLines, serializeGvl,
    show "VAR_GLOBAL".toList :: (vars.map row ++ ["END_VAR".toList, []]) =
      ("VAR_GLOBAL".toList :: (vars.map row ++ ["END_VAR".toList])) ++ [[]] by simp,
    join_concat, endedLines_textOf hlines List.not_mem_nil]
  simp

/-- The global table makes the round trip iff no name limits the block. -/
theorem parseGvl_serializeGvl_iff (h : ∀ v ∈ vars, v.WellFormed) :
    parseGvl (serializeGvl vars) = vars ↔ ∀ v ∈ vars, ¬Limits v.name := by
  have hend : ∀ inBlock, parseGvlLines inBlock ["END_VAR".toList, []] = [] := by decide
  rw [parseGvl, splitLines_serializeGvl fun v hv => (h v hv).onOneLine,
    ← (parseGvlLines_rows_iff h hend).2]
  rfl

/-! ### Local variables -/

/-- The first element with a property. -/
theorem findIdx?_eq_some {α : Type} {p : α → Bool} {l : List α} {i : ℕ}
    (h : l.findIdx? p = some i) :
    ∃ before x after, l = before ++ x :: after ∧ before.length = i ∧ p x = true ∧
      ∀ y ∈ before, p y = false := by
  obtain ⟨hlt, hi, hbefore⟩ := List.findIdx?_eq_some_iff_getElem.mp h
  refine ⟨l.take i, l[i], l.drop (i + 1), ?_, ?_, hi, fun y hy => ?_⟩
  · rw [List.getElem_cons_drop, List.take_append_drop]
  · rw [List.length_take]
    omega
  · obtain ⟨j, hj, rfl⟩ := List.mem_take_iff_getElem.mp hy
    exact Bool.eq_false_iff.mpr (hbefore j (by omega))

theorem findIdx?_append_cons {α : Type} {p : α → Bool} {before after : List α} {x : α}
    (hbefore : ∀ y ∈ before, p y = false) (hx : p x = true) :
    (before ++ x :: after).findIdx? p = some before.length := by
  rw [List.findIdx?_append, List.findIdx?_eq_none_iff.mpr hbefore]
  simp [List.findIdx?_cons, hx]

/-- Is the line `VAR`? -/
def isVar (l : List Char) : Bool := trim isWhite l = "VAR".toList

/-- Is the line `END_VAR`? -/
def isEndVar (l : List Char) : Bool := trim isWhite l = "END_VAR".toList

/-- The lines of a text with a block, with their endings. -/
structure Blocked (text : List Char) (block : VarBlockRange)
    (before inside after : List (List Char × List Char)) (var end' : List Char × List Char) :
    Prop where
  lines : endedLines text = before ++ var :: (inside ++ end' :: after)
  not_var : ∀ l ∈ before, isVar l.1 = false
  is_var : isVar var.1 = true
  not_end : ∀ l ∈ inside, isEndVar l.1 = false
  is_end : isEndVar end'.1 = true
  range : block = ⟨before.length, before.length + 1 + inside.length⟩

variable {text : List Char} {block : VarBlockRange}
  {before inside after : List (List Char × List Char)} {var end' : List Char × List Char}

theorem exists_blocked (h : findFirstLocalVarBlock text = some block) :
    ∃ before inside after var end', Blocked text block before inside after var end' := by
  rw [findFirstLocalVarBlock] at h
  obtain ⟨start, hstart, h⟩ := Option.bind_eq_some_iff.mp h
  obtain ⟨offset, hoffset, h⟩ := Option.bind_eq_some_iff.mp h
  rw [splitLines, List.findIdx?_map] at hstart
  obtain ⟨before, var, rest, hlines, rfl, hvar, hbefore⟩ := findIdx?_eq_some hstart
  rw [splitLines, hlines, List.map_append, List.drop_append, List.drop_of_length_le (by simp),
    List.length_map, Nat.add_sub_cancel_left, List.map_cons, List.nil_append, List.drop_one,
    List.tail_cons, List.findIdx?_map] at hoffset
  obtain ⟨inside, end', after, rfl, rfl, hend, hinside⟩ := findIdx?_eq_some hoffset
  exact ⟨before, inside, after, var, end', hlines, hbefore, hvar, hinside, hend,
    (Option.some.inj h).symm⟩

theorem Blocked.find (h : Blocked text block before inside after var end') :
    findFirstLocalVarBlock text = some block := by
  have hstart : (splitLines text).findIdx? isVar = some before.length := by
    rw [splitLines, h.lines, List.findIdx?_map]
    exact findIdx?_append_cons h.not_var h.is_var
  have hoffset : ((splitLines text).drop (before.length + 1)).findIdx? isEndVar =
      some inside.length := by
    rw [splitLines, h.lines, List.map_append, List.drop_append, List.drop_of_length_le (by simp),
      List.length_map, Nat.add_sub_cancel_left, List.map_cons, List.nil_append, List.drop_one,
      List.tail_cons, List.findIdx?_map]
    exact findIdx?_append_cons h.not_end h.is_end
  rw [findFirstLocalVarBlock]
  change ((splitLines text).findIdx? isVar).bind _ = _
  rw [hstart]
  change (((splitLines text).drop (before.length + 1)).findIdx? isEndVar).bind _ = _
  rw [hoffset, h.range]
  rfl

theorem Blocked.splitLines (h : Blocked text block before inside after var end') :
    splitLines text = before.map Prod.fst ++
      (var.1 :: (inside.map Prod.fst ++ end'.1 :: after.map Prod.fst)) := by
  rw [VarTable.splitLines, h.lines]
  simp

theorem Blocked.take_lines (h : Blocked text block before inside after var end') :
    (VarTable.splitLines text).take (block.startLine + 1) = before.map Prod.fst ++ [var.1] := by
  rw [h.splitLines, List.append_cons]
  exact List.take_left' (by simp [h.range])

theorem Blocked.drop_lines (h : Blocked text block before inside after var end') :
    (VarTable.splitLines text).drop block.endLine = end'.1 :: after.map Prod.fst := by
  rw [h.splitLines, ← List.cons_append, ← List.append_assoc]
  exact List.drop_left' (by simp [h.range]; omega)

/-- The lines of the block. -/
theorem Blocked.inside_lines (h : Blocked text block before inside after var end') :
    ((VarTable.splitLines text).take block.endLine).drop (block.startLine + 1) =
      inside.map Prod.fst := by
  have htake : (VarTable.splitLines text).take block.endLine =
      before.map Prod.fst ++ [var.1] ++ inside.map Prod.fst := by
    rw [h.splitLines, List.append_cons, ← List.append_assoc]
    exact List.take_left' (by simp [h.range]; omega)
  rw [htake]
  exact List.drop_left' (by simp [h.range])

/-- The variables are those of the lines of the block. -/
theorem Blocked.parseLocalVars (h : Blocked text block before inside after var end') :
    parseLocalVars text = (inside.map Prod.fst).flatMap declarationOf := by
  rw [VarTable.parseLocalVars, h.find, ← h.inside_lines]

/-- A line with another ending, if it has one. -/
def reEnd (eol : List Char) (l : List Char × List Char) : List Char × List Char :=
  (l.1, if l.2 = [] then [] else eol)

theorem map_reEnd_eq_iff {eol : List Char} {lines : List (List Char × List Char)} :
    lines.map (reEnd eol) = lines ↔ ∀ l ∈ lines, l.2 = [] ∨ l.2 = eol := by
  have hmap : lines.map (reEnd eol) = lines.map id ↔ ∀ l ∈ lines, reEnd eol l = l :=
    List.map_inj_left
  rw [List.map_id] at hmap
  refine hmap.trans (forall₂_congr fun l _ => ?_)
  rw [reEnd, Prod.ext_iff]
  by_cases hnil : l.2 = []
  · simp [hnil]
  · simp [hnil, eq_comm]

theorem IsLine.ending_ne_nil {l : List Char × List Char} (h : IsLine l) : l.2 ≠ [] := by
  rcases h.2 with h | ⟨h, -⟩ <;> rw [h] <;> exact List.cons_ne_nil _ _

/-- The ending of a text that is joined again fits its lines. -/
theorem isLine_reEnd {lines : List (List Char × List Char)} {last : List Char}
    (htext : text = textOf lines ++ last) (hlines : ∀ l ∈ lines, IsLine l) :
    ∀ l ∈ lines, IsLine (l.1, eolOf text) := by
  intro l hl
  obtain ⟨hfeed, hending⟩ := hlines l hl
  refine ⟨hfeed, ?_⟩
  rw [eolOf]
  by_cases hcrlf : ['\r', '\n'] <:+: text
  · exact Or.inl (if_pos hcrlf)
  · refine Or.inr ⟨if_neg hcrlf, ?_⟩
    rcases hending with h | ⟨-, hlast⟩
    · obtain ⟨a, b, rfl⟩ := List.append_of_mem hl
      refine absurd ⟨textOf a ++ l.1, textOf b ++ last, ?_⟩ hcrlf
      rw [htext]
      simp [textOf, h]
    · exact hlast

theorem eolOf_cases (text : List Char) : eolOf text = ['\r', '\n'] ∨ eolOf text = ['\n'] := by
  rw [eolOf]
  split
  · exact Or.inl rfl
  · exact Or.inr rfl

theorem mem_dropWhile {α : Type} {p : α → Bool} {x : α} {l : List α} (h : x ∈ l)
    (hx : p x = false) : x ∈ l.dropWhile p := by
  rw [← List.takeWhile_append_dropWhile (p := p) (l := l), List.mem_append] at h
  exact h.resolve_left fun htake => by simp [List.mem_takeWhile_imp htake] at hx

/-- What is not white stays when a text is trimmed. -/
theorem mem_trim {c : Char} {cs : List Char} (h : c ∈ cs) (hc : isWhite c = false) :
    c ∈ trim isWhite cs := by
  rw [trim, List.rdropWhile, List.mem_reverse]
  exact mem_dropWhile (List.mem_reverse.mpr (mem_dropWhile h hc)) hc

/-- The text after a change has its block at the same line, the rows in it, and the other
lines with the one ending. -/
theorem Blocked.serializeLocalVars (h : Blocked text block before inside after var end')
    (hvars : ∀ v ∈ vars, v.OnOneLine) :
    Blocked (serializeLocalVars text vars)
      ⟨before.length, before.length + 1 + vars.length⟩ (before.map (reEnd (eolOf text)))
      (vars.map fun v => (row v, eolOf text)) (after.map (reEnd (eolOf text)))
      (reEnd (eolOf text) var) (reEnd (eolOf text) end') := by
  obtain ⟨lines, last, htext, hlines, hlast⟩ := exists_lines text
  obtain ⟨t, z, ht⟩ := (List.eq_nil_or_concat (end' :: after)).resolve_left (List.cons_ne_nil _ _)
  rw [List.concat_eq_append] at ht
  have hsplit : lines ++ [(last, [])] = (before ++ var :: (inside ++ t)) ++ [z] := by
    rw [← endedLines_textOf hlines hlast, ← htext, h.lines, ht]
    simp
  obtain ⟨hlines', hz⟩ := List.append_inj' hsplit rfl
  obtain rfl := (List.cons.inj hz).1
  -- all lines but the last one have an ending
  have hend : ∀ l ∈ before ++ var :: (inside ++ t),
      reEnd (eolOf text) l = (l.1, eolOf text) ∧ IsLine (l.1, eolOf text) := by
    intro l hl
    have hl' := hlines' ▸ hl
    exact ⟨by rw [reEnd, if_neg (hlines l hl').ending_ne_nil], isLine_reEnd htext hlines l hl'⟩
  simp only [List.forall_mem_append, List.forall_mem_cons] at hend
  obtain ⟨hbefore, hvar, -, hafter⟩ := hend
  have hmap : ∀ L : List (List Char × List Char),
      (∀ l ∈ L, reEnd (eolOf text) l = (l.1, eolOf text) ∧ IsLine (l.1, eolOf text)) →
        (L.map Prod.fst).map (·, eolOf text) = L.map (reEnd (eolOf text)) ∧
          ∀ l ∈ (L.map Prod.fst).map (·, eolOf text), IsLine l := by
    intro L hL
    rw [List.map_map]
    exact ⟨List.map_congr_left fun l hl => (hL l hl).1.symm,
      List.forall_mem_map.mpr fun l hl => (hL l hl).2⟩
  have hlast' : reEnd (eolOf text) (last, []) = (last, []) := rfl
  have hnew : VarTable.serializeLocalVars text vars = join (eolOf text)
      ((before.map Prod.fst ++ var.1 :: (vars.map row ++ t.map Prod.fst)) ++ [last]) := by
    have htail : end'.1 :: after.map Prod.fst = t.map Prod.fst ++ [last] := by
      rw [← List.map_cons, ht, List.map_append]
      rfl
    rw [VarTable.serializeLocalVars, h.find]
    dsimp only
    rw [h.take_lines, h.drop_lines, htail]
    simp
  have hended : endedLines (VarTable.serializeLocalVars text vars) =
      before.map (reEnd (eolOf text)) ++ reEnd (eolOf text) var ::
        (vars.map (fun v => (row v, eolOf text)) ++ (end' :: after).map (reEnd (eolOf text))) := by
    rw [hnew, join_concat, endedLines_textOf _ hlast]
    · rw [List.map_append, (hmap before hbefore).1, List.map_cons, List.map_append,
        (hmap t hafter).1, ht, List.map_append, List.map_map, hvar.1]
      simp [hlast', Function.comp_def]
    · have hrows : ∀ l ∈ (vars.map row).map (·, eolOf text), IsLine l := by
        rw [List.map_map]
        exact List.forall_mem_map.mpr fun v hv => isLine_row (hvars v hv) (eolOf_cases text)
      rw [List.map_append, List.map_cons, List.map_append, List.forall_mem_append,
        List.forall_mem_cons, List.forall_mem_append]
      exact ⟨(hmap before hbefore).2, hvar.2, hrows, (hmap t hafter).2⟩
  refine ⟨hended, List.forall_mem_map.mpr h.not_var, h.is_var, List.forall_mem_map.mpr ?_,
    h.is_end, by simp⟩
  intro v hv
  rw [isEndVar, decide_eq_false_iff_not]
  intro htrim
  have hcolon : ':' ∈ "END_VAR".toList := htrim ▸ mem_trim (by simp [row]) (by decide)
  exact absurd hcolon (by decide)

/-- The lines before and after a block, with their endings. -/
def outside (text : List Char) (block : VarBlockRange) :
    List (List Char × List Char) × List (List Char × List Char) :=
  ((endedLines text).take block.startLine, (endedLines text).drop (block.endLine + 1))

theorem Blocked.outside (h : Blocked text block before inside after var end') :
    outside text block = (before, after) := by
  rw [VarTable.outside, h.lines, h.range]
  refine Prod.ext (List.take_left' rfl) ?_
  rw [← List.cons_append, ← List.append_assoc, List.append_cons]
  exact List.drop_left' (by simp; omega)

/-- The variables are read back, and the lines outside the block are as they were. -/
def Survives (text : List Char) (block : VarBlockRange) (vars : List GvlVariable) : Prop :=
  parseLocalVars (serializeLocalVars text vars) = vars ∧
    ∃ block', findFirstLocalVarBlock (serializeLocalVars text vars) = some block' ∧
      outside (serializeLocalVars text vars) block' = outside text block

/-- The lines outside the block that have an ending have the one of the text. -/
def OneEnding (text : List Char) (block : VarBlockRange) : Prop :=
  ∀ l ∈ (outside text block).1 ++ (outside text block).2, l.2 = [] ∨ l.2 = eolOf text

/-- The local table makes the round trip iff the lines outside the block have one ending. -/
theorem survives_iff (h : findFirstLocalVarBlock text = some block)
    (hvars : ∀ v ∈ vars, v.WellFormed) : Survives text block vars ↔ OneEnding text block := by
  obtain ⟨before, inside, after, var, end', hblocked⟩ := exists_blocked h
  have hnew := hblocked.serializeLocalVars fun v hv => (hvars v hv).onOneLine
  have hparse : parseLocalVars (serializeLocalVars text vars) = vars := by
    rw [hnew.parseLocalVars, List.map_map, List.flatMap_map]
    exact (List.flatMap_congr fun v hv => declarationOf_row (hvars v hv)).trans
      (List.flatMap_singleton' vars)
  rw [Survives, OneEnding, and_iff_right hparse, hblocked.outside, List.forall_mem_append,
    ← map_reEnd_eq_iff, ← map_reEnd_eq_iff]
  constructor
  · rintro ⟨block', hblock', houtside⟩
    obtain rfl := Option.some.inj (hnew.find.symm.trans hblock')
    rw [hnew.outside] at houtside
    exact Prod.ext_iff.mp houtside
  · rintro ⟨hbefore, hafter⟩
    exact ⟨_, hnew.find, by rw [hnew.outside, hbefore, hafter]⟩

/-- The global table makes the round trip iff no name begins like the first or the last line
of the block; the local table makes it iff the lines outside the block have one ending. -/
theorem tables_roundTrip_iff (vars : List GvlVariable) (hvars : ∀ v ∈ vars, v.WellFormed) :
    (parseGvl (serializeGvl vars) = vars ↔ ∀ v ∈ vars, ¬Limits v.name) ∧
    ∀ (text : List Char) (block : VarBlockRange), findFirstLocalVarBlock text = some block →
      (Survives text block vars ↔ OneEnding text block) :=
  ⟨parseGvl_serializeGvl_iff hvars, fun _ _ hfind => survives_iff hfind hvars⟩

/-- `x : INT := 5; (* speed *)` -/
def speed : GvlVariable := ⟨['x'], "INT".toList, ['5'], "speed".toList⟩

theorem speed_wellFormed : ∀ v ∈ [speed], v.WellFormed := by
  rw [List.forall_mem_singleton]
  exact ⟨by decide, by decide, by decide, by decide, by decide, by decide⟩

/-- A program with a block and one kind of line endings. -/
def program : List Char := "PROGRAM p\nVAR\nEND_VAR\nx := 1;\nEND_PROGRAM\n".toList

theorem tables_roundTrip_speed :
    (parseGvl (serializeGvl [speed]) = [speed] ↔ ∀ v ∈ [speed], ¬Limits v.name) ∧
      (Survives program ⟨1, 2⟩ [speed] ↔ OneEnding program ⟨1, 2⟩) :=
  have h := tables_roundTrip_iff [speed] speed_wellFormed
  ⟨h.1, h.2 program ⟨1, 2⟩ (by decide)⟩

/-- A global variable with the name `END_VARIANT` is lost. -/
theorem endVariant_lost :
    ¬((∀ vars : List GvlVariable, (∀ v ∈ vars, v.WellFormed) →
        parseGvl (serializeGvl vars) = vars) ∧
      ∀ (text : List Char) (block : VarBlockRange) (vars : List GvlVariable),
        findFirstLocalVarBlock text = some block → (∀ v ∈ vars, v.WellFormed) →
          Survives text block vars) := by
  rintro ⟨h, -⟩
  have hwell : ∀ v ∈ [(⟨"END_VARIANT".toList, "INT".toList, [], []⟩ : GvlVariable)],
      v.WellFormed := by
    rw [List.forall_mem_singleton]
    exact ⟨by decide, by decide, by decide, by decide, by decide, by decide⟩
  exact absurd (h _ hwell) (by decide)

end Weftik.VarTable
