import Weftik.Lib.Text

/-!
# Variable Tables

The variable tables show the declarations of a text, one on a line, and write them back. The
global one writes a text of its own; the local one replaces the lines between the first line
`VAR` and the next line `END_VAR`, and joins all lines again with one line ending.

## Main definitions

* `VarTable.gvlVarLine`: the declaration on a line.
* `VarTable.parseGvl`, `VarTable.serializeGvl`: the global variables.
* `VarTable.parseLocalVars`, `VarTable.serializeLocalVars`: the local variables of a program.
-/

namespace Weftik.VarTable

open Text

/-! ### Lines -/

/-- White space, as the trimming and the patterns of JavaScript have it. -/
def isWhite (c : Char) : Bool :=
  c.toNat ∈ [9, 10, 11, 12, 13, 32, 160, 5760, 8232, 8233, 8239, 8287, 12288, 65279] ||
    decide (8192 ≤ c.toNat ∧ c.toNat ≤ 8202)

/-- The lines of a text with their endings; the last line has none. -/
def endedLines : List Char → List (List Char × List Char)
  | [] => [([], [])]
  | '\r' :: '\n' :: cs => ([], ['\r', '\n']) :: endedLines cs
  | '\n' :: cs => ([], ['\n']) :: endedLines cs
  | c :: cs =>
      match endedLines cs with
      | [] => [([c], [])]
      | (line, ending) :: rest => (c :: line, ending) :: rest

attribute [local simp] endedLines

/-- The text split at its line endings. -/
def splitLines (text : List Char) : List (List Char) := (endedLines text).map Prod.fst

/-- Lines joined with a line ending. -/
def join (eol : List Char) : List (List Char) → List Char
  | [] => []
  | [line] => line
  | line :: rest => line ++ eol ++ join eol rest

/-! ### Declarations -/

structure GvlVariable where
  name : List Char
  type : List Char
  init : List Char
  comment : List Char
  deriving DecidableEq, Repr

def isIdentChar (c : Char) : Bool := c.isAlphanum || c == '_'

/-- `[A-Za-z_][A-Za-z0-9_]*` -/
def isIdentifier : List Char → Bool
  | [] => false
  | c :: cs => (c.isAlpha || c == '_') && cs.all isIdentChar

/-- An identifier at the beginning. -/
def takeIdentifier (cs : List Char) : Option (List Char × List Char) :=
  if isIdentifier (cs.takeWhile isIdentChar) then
    some (cs.takeWhile isIdentChar, cs.dropWhile isIdentChar)
  else none

/-- The initial value up to the first semicolon, which stands there also without one. -/
def takeInit : List Char → Option (List Char × List Char)
  | ';' :: rest => some ([], rest)
  | ':' :: '=' :: cs =>
      match cs.dropWhile (· != ';') with
      | _ :: rest => some (trim isWhite (cs.takeWhile (· != ';')), rest)
      | [] => none
  | _ => none

/-- The comment up to the end. -/
def takeComment : List Char → Option (List Char)
  | [] => some []
  | '(' :: '*' :: cs =>
      match (cs.rdropWhile isWhite).reverse with
      | ')' :: '*' :: body => some (trim isWhite body.reverse)
      | _ => none
  | _ => none

/-- The declaration on a line: `name : TYPE := initialValue; (* comment *)`. -/
def gvlVarLine (line : List Char) : Option GvlVariable := do
  let (name, rest) ← takeIdentifier (line.dropWhile isWhite)
  match rest.dropWhile isWhite with
  | ':' :: rest =>
      let (type, rest) ← takeIdentifier (rest.dropWhile isWhite)
      let (init, rest) ← takeInit (rest.dropWhile isWhite)
      let comment ← takeComment (rest.dropWhile isWhite)
      some ⟨name, type, init, comment⟩
  | _ => none

/-- The declaration on a line of a block, if there is one. -/
def declarationOf (raw : List Char) : List GvlVariable :=
  let line := trim isWhite raw
  if line = [] ∨ ['(', '*'] <+: line then [] else (gvlVarLine line).toList

/-- The initial value as it is written. -/
def initPart (v : GvlVariable) : List Char :=
  if v.init = [] then [] else [' ', ':', '=', ' '] ++ v.init

/-- The comment as it is written. -/
def commentPart (v : GvlVariable) : List Char :=
  if v.comment = [] then [] else [' ', '(', '*', ' '] ++ v.comment ++ [' ', '*', ')']

/-- A declaration as it is written. -/
def row (v : GvlVariable) : List Char :=
  [' ', ' ', ' ', ' '] ++ v.name ++ [' ', ':', ' '] ++ v.type ++ initPart v ++ [';'] ++
    commentPart v

/-! ### Global variables -/

/-- The variables on some lines, inside or outside the block. -/
def parseGvlLines : Bool → List (List Char) → List GvlVariable
  | _, [] => []
  | inBlock, raw :: lines =>
      let line := trim isWhite raw
      if "VAR_GLOBAL".toList <+: line then parseGvlLines true lines
      else if "END_VAR".toList <+: line then parseGvlLines false lines
      else (if inBlock then declarationOf raw else []) ++ parseGvlLines inBlock lines

def parseGvl (text : List Char) : List GvlVariable := parseGvlLines false (splitLines text)

def serializeGvl (vars : List GvlVariable) : List Char :=
  join ['\n'] ("VAR_GLOBAL".toList :: (vars.map row ++ ["END_VAR".toList, []]))

/-! ### Local variables -/

/-- The numbers of the first and of the last line of a block. -/
structure VarBlockRange where
  startLine : ℕ
  endLine : ℕ
  deriving DecidableEq, Repr

/-- The first line `VAR`, and the next line `END_VAR`. -/
def findFirstLocalVarBlock (text : List Char) : Option VarBlockRange := do
  let lines := splitLines text
  let start ← lines.findIdx? fun l => trim isWhite l = "VAR".toList
  let offset ← (lines.drop (start + 1)).findIdx? fun l => trim isWhite l = "END_VAR".toList
  some ⟨start, start + 1 + offset⟩

def parseLocalVars (text : List Char) : List GvlVariable :=
  match findFirstLocalVarBlock text with
  | none => []
  | some block =>
      (((splitLines text).take block.endLine).drop (block.startLine + 1)).flatMap declarationOf

/-- The line ending of a text that is joined again. -/
def eolOf (text : List Char) : List Char :=
  if ['\r', '\n'] <:+: text then ['\r', '\n'] else ['\n']

def serializeLocalVars (originalText : List Char) (vars : List GvlVariable) : List Char :=
  match findFirstLocalVarBlock originalText with
  | none => originalText
  | some block =>
      let lines := splitLines originalText
      join (eolOf originalText)
        (lines.take (block.startLine + 1) ++ vars.map row ++ lines.drop block.endLine)

/-! ### The lines of a text -/

/-- A line with an ending. -/
def IsLine (l : List Char × List Char) : Prop :=
  '\n' ∉ l.1 ∧ (l.2 = ['\r', '\n'] ∨ l.2 = ['\n'] ∧ l.1.getLast? ≠ some '\r')

/-- Lines with their endings as one text. -/
def textOf (lines : List (List Char × List Char)) : List Char := lines.flatMap fun l => l.1 ++ l.2

theorem endedLines_ne_nil (text : List Char) : endedLines text ≠ [] := by
  induction text using endedLines.induct <;> simp_all

/-- A character that ends no line belongs to the first one. -/
theorem endedLines_cons {c : Char} {cs : List Char} (hfeed : c ≠ '\n')
    (hreturn : c = '\r' → cs.head? ≠ some '\n') {line ending : List Char}
    {rest : List (List Char × List Char)} (h : endedLines cs = (line, ending) :: rest) :
    endedLines (c :: cs) = (c :: line, ending) :: rest := by
  rw [endedLines.eq_4 c cs (fun cs' hc hcs => hreturn hc (by rw [hcs]; rfl)) hfeed, h]

/-- A text without a line feed has one line. -/
theorem endedLines_last {line : List Char} (h : '\n' ∉ line) : endedLines line = [(line, [])] := by
  induction line with
  | nil => rfl
  | cons c line ih =>
      rw [List.mem_cons, not_or] at h
      refine endedLines_cons (Ne.symm h.1) (fun _ hhead => ?_) (ih h.2)
      exact h.2 (List.mem_of_head? hhead)

/-- The first line of a text. -/
theorem endedLines_line {line ending : List Char} (h : IsLine (line, ending)) (rest : List Char) :
    endedLines (line ++ ending ++ rest) = (line, ending) :: endedLines rest := by
  obtain ⟨hfeed, hending⟩ := h
  induction line with
  | nil => rcases hending with rfl | ⟨rfl, -⟩ <;> rfl
  | cons c line ih =>
      rw [List.mem_cons, not_or] at hfeed
      refine endedLines_cons (Ne.symm hfeed.1) (fun hc hhead => ?_) (ih hfeed.2 ?_)
      · cases line with
        | nil =>
            rcases hending with rfl | ⟨rfl, hlast⟩
            · cases hhead
            · exact hlast (by rw [hc]; rfl)
        | cons d line => exact hfeed.2 (by rw [← Option.some.inj hhead]; exact List.mem_cons_self)
      · rcases hending with h | ⟨h, hlast⟩
        · exact Or.inl h
        · refine Or.inr ⟨h, ?_⟩
          cases line with
          | nil => exact nofun
          | cons d line => exact hlast

theorem endedLines_textOf {lines : List (List Char × List Char)} (h : ∀ l ∈ lines, IsLine l)
    {last : List Char} (hlast : '\n' ∉ last) :
    endedLines (textOf lines ++ last) = lines ++ [(last, [])] := by
  induction lines with
  | nil => exact endedLines_last hlast
  | cons l lines ih =>
      rw [List.forall_mem_cons] at h
      rw [textOf, List.flatMap_cons, List.append_assoc, endedLines_line h.1]
      exact congrArg _ (ih h.2)

/-- A text is its lines with their endings, and the last line. -/
theorem exists_lines (text : List Char) : ∃ lines last, text = textOf lines ++ last ∧
    (∀ l ∈ lines, IsLine l) ∧ '\n' ∉ last := by
  induction text using endedLines.induct with
  | case1 => exact ⟨[], [], rfl, nofun, nofun⟩
  | case2 cs ih =>
      obtain ⟨lines, last, rfl, hlines, hlast⟩ := ih
      exact ⟨([], ['\r', '\n']) :: lines, last, rfl,
        List.forall_mem_cons.mpr ⟨⟨nofun, Or.inl rfl⟩, hlines⟩, hlast⟩
  | case3 cs ih =>
      obtain ⟨lines, last, rfl, hlines, hlast⟩ := ih
      exact ⟨([], ['\n']) :: lines, last, rfl,
        List.forall_mem_cons.mpr ⟨⟨nofun, Or.inr ⟨rfl, nofun⟩⟩, hlines⟩, hlast⟩
  | case4 c cs _ _ hnil => exact absurd hnil (endedLines_ne_nil cs)
  | case5 c cs hreturn hfeed line ending rest _ ih =>
      obtain ⟨lines, last, rfl, hlines, hlast⟩ := ih
      have hc : '\n' ≠ c := fun h => hfeed h.symm
      cases lines with
      | nil => exact ⟨[], c :: last, rfl, nofun, by simp [hc, show '\n' ∉ last from hlast]⟩
      | cons l lines =>
          rw [List.forall_mem_cons] at hlines
          obtain ⟨⟨hl, hending⟩, hlines⟩ := hlines
          refine ⟨(c :: l.1, l.2) :: lines, last, rfl,
            List.forall_mem_cons.mpr ⟨⟨by simp [hc, hl], ?_⟩, hlines⟩, hlast⟩
          rcases hending with h | ⟨h, hlast'⟩
          · exact Or.inl h
          · refine Or.inr ⟨h, fun hr => ?_⟩
            cases hl1 : l.1 with
            | nil =>
                rw [hl1] at hr
                exact hreturn (textOf lines ++ last) (Option.some.inj hr)
                  (by simp [textOf, hl1, h])
            | cons d line =>
                rw [hl1] at hr hlast'
                exact hlast' hr

/-- Joined lines are lines with that ending. -/
theorem join_concat (eol : List Char) (lines : List (List Char)) (last : List Char) :
    join eol (lines ++ [last]) = textOf (lines.map (·, eol)) ++ last := by
  induction lines with
  | nil => rfl
  | cons line lines ih =>
      have hjoin : join eol (line :: (lines ++ [last])) =
          line ++ eol ++ join eol (lines ++ [last]) := by
        cases lines <;> rfl
      rw [List.cons_append, hjoin, ih]
      simp [textOf]

end Weftik.VarTable
