import Weftik.Fbd.Compiler
import Weftik.Il.Lines
import Weftik.Lib.Outcome

/-!
# The Hand-Off from FBD to IL

The function block compiler hands its result to the Instruction List compiler as text. The
front end of the second reads the wiring of each block as loads and stores before a call of
the block, then the outputs. Names come from the lines of the source, so they have no line
feeds; the operand that is read from one is its first word outside comments.

## Main definitions

* `FbBlock.Clean`: what the parser guarantees of the names of a block.
* `wiringStmts`, `outputStmts`, `ilStmts`: the statements of the blocks.

## Main results

* `clean_of_parseBlocks`: the blocks of a source are clean.
* `parse_generateIl`: the statements of the generated text.
-/

namespace Weftik.Fbd

open Outcome
open Il (ILStatement Mnemonic mnemonics operand lineStmts)

variable {P : Platform}

/-! ### Names from the source -/

/-- The text has no line feed. -/
def NoFeed (s : String) : Prop := '\n' ∉ s.toList

/-- The name has no white space, and the pins, targets and sources have no line feeds. -/
structure FbBlock.Clean (P : Platform) (b : FbBlock) : Prop where
  name : ∀ c ∈ b.name.toList, P.white c = false
  inputs : ∀ e ∈ b.inputs.entries, NoFeed e.1 ∧ NoFeed e.2
  outputs : ∀ e ∈ b.outputs.entries, NoFeed e.1 ∧ NoFeed e.2

/-- A text without white space has no line feed. -/
theorem noFeed_of_white {s : String} (h : ∀ c ∈ s.toList, P.white c = false) : NoFeed s := by
  intro hmem
  have hfalse := h _ hmem
  rw [P.white_ascii '\n' (by decide)] at hfalse
  cases hfalse

/-- A trimmed part of a line has no line feed. -/
theorem noFeed_trim {cs : List Char} (h : '\n' ∉ cs) :
    NoFeed (String.ofList (Text.trim P.white cs)) := by
  rw [NoFeed, String.toList_ofList]
  exact fun hmem => h ((List.dropWhile_suffix P.white).subset
    ((List.rdropWhile_prefix _ _).subset hmem))

/-- The parts of a name around its first dot. -/
theorem noFeed_of_splitDot {s a b : String} (h : splitDot s = some (a, b)) (hs : NoFeed s) :
    NoFeed a ∧ NoFeed b := by
  obtain ⟨p, hp, heq⟩ := Option.map_eq_some_iff.mp h
  obtain ⟨rfl, rfl⟩ := Prod.mk.inj heq
  rw [NoFeed, Text.eq_of_splitOnce hp] at hs
  simp only [List.mem_append, not_or] at hs
  rw [NoFeed, NoFeed, String.toList_ofList, String.toList_ofList]
  exact ⟨hs.1.1, hs.2⟩

variable {blocks : List FbBlock}

/-- A block that is found by its name is changed; the others are as they were. -/
theorem mem_updateBlock {name : String} {f : FbBlock → FbBlock} {blocks' : List FbBlock}
    (h : updateBlock name f blocks = some blocks') {b : FbBlock} (hb : b ∈ blocks') :
    b ∈ blocks ∨ ∃ b' ∈ blocks, b = f b' := by
  induction blocks generalizing blocks' with
  | nil => cases h
  | cons d blocks ih =>
      rw [updateBlock] at h
      split at h
      · obtain rfl := Option.some.inj h
        rcases List.mem_cons.mp hb with rfl | hb
        · exact Or.inr ⟨d, List.mem_cons_self, rfl⟩
        · exact Or.inl (List.mem_cons_of_mem d hb)
      · obtain ⟨rest, hrest, rfl⟩ := Option.map_eq_some_iff.mp h
        rcases List.mem_cons.mp hb with rfl | hb
        · exact Or.inl List.mem_cons_self
        · rcases ih hrest hb with hb | ⟨b', hb', heq⟩
          · exact Or.inl (List.mem_cons_of_mem d hb)
          · exact Or.inr ⟨b', List.mem_cons_of_mem d hb', heq⟩

/-- The blocks and the outputs so far are clean. -/
structure Parsed.Clean (P : Platform) (s : Parsed) : Prop where
  blocks : ∀ b ∈ s.blocks, b.Clean P
  outputs : ∀ o ∈ s.outputs, NoFeed o.1 ∧ NoFeed o.2

namespace Parsed.Clean

variable {s s' : Parsed}

/-- A `BLOCK` line keeps the names clean. -/
theorem parseBlock (h : s.Clean P) {line : String} {rest : List Char}
    (hparse : Fbd.parseBlock P s line rest = .ok s') : s'.Clean P := by
  rw [Fbd.parseBlock] at hparse
  split at hparse
  · rename_i name kindStr more hwords
    split at hparse
    · cases hparse
    · rename_i kind hkind
      split at hparse
      · cases hparse
      · obtain rfl := Except.ok.inj hparse
        refine ⟨fun b hb => ?_, h.outputs⟩
        rcases List.mem_append.mp hb with hb | hb
        · exact h.blocks b hb
        · obtain rfl := List.mem_singleton.mp hb
          have hmem : name ∈ (Text.words P.white rest).map String.ofList :=
            hwords ▸ List.mem_cons_self
          obtain ⟨w, hw, rfl⟩ := List.mem_map.mp hmem
          refine ⟨?_, List.forall_mem_nil _, List.forall_mem_nil _⟩
          rw [String.toList_ofList]
          exact (Text.mem_words hw).2
  · cases hparse

/-- An assignment keeps the names clean. -/
theorem parseWiring (h : s.Clean P) {lhs rhs : String} (hlhs : NoFeed lhs) (hrhs : NoFeed rhs)
    (hparse : Fbd.parseWiring s lhs rhs = .ok s') : s'.Clean P := by
  have houtputs : ∀ src, NoFeed src → ∀ o ∈ s.outputs ++ [(lhs, src)], NoFeed o.1 ∧ NoFeed o.2 := by
    intro src hsrc o ho
    rcases List.mem_append.mp ho with ho | ho
    · exact h.outputs o ho
    · obtain rfl := List.mem_singleton.mp ho
      exact ⟨hlhs, hsrc⟩
  rw [Fbd.parseWiring] at hparse
  split at hparse
  · -- An input of a block.
    rename_i blockName pin hdot
    split at hparse
    · rename_i blocks hupdate
      obtain rfl := Except.ok.inj hparse
      refine ⟨fun b hb => ?_, h.outputs⟩
      rcases mem_updateBlock hupdate hb with hb | ⟨b', hb', rfl⟩
      · exact h.blocks b hb
      · have hclean := h.blocks b' hb'
        refine ⟨hclean.name, fun e he => ?_, hclean.outputs⟩
        rcases SortedMap.mem_insert he with rfl | he
        · exact ⟨(noFeed_of_splitDot hdot hlhs).2, hrhs⟩
        · exact hclean.inputs e he
    · cases hparse
  · split at hparse
    · rename_i srcBlock srcPin hdot
      split at hparse
      · cases hparse
      · split at hparse
        · obtain rfl := Except.ok.inj hparse
          obtain ⟨hblock, hpin⟩ := noFeed_of_splitDot hdot hrhs
          refine ⟨h.blocks, houtputs _ ?_⟩
          rw [NoFeed] at hblock hpin ⊢
          simp [hblock, hpin]
        · cases hparse
    · obtain rfl := Except.ok.inj hparse
      exact ⟨h.blocks, houtputs _ hrhs⟩

/-- One more line keeps the names clean. -/
theorem parseLine (h : s.Clean P) {line : String} (hline : '\n' ∉ line.toList)
    (hparse : Fbd.parseLine P s line = .ok s') : s'.Clean P := by
  have htrimmed : '\n' ∉ line.toList.rdropWhile P.white := fun hmem =>
    hline ((List.rdropWhile_prefix _ _).subset hmem)
  simp only [Fbd.parseLine] at hparse
  split at hparse
  · exact Except.ok.inj hparse ▸ h
  · split at hparse
    · exact h.parseBlock hparse
    · split at hparse
      · rename_i lhs rhs hassign
        obtain ⟨p, hp, heq⟩ := Option.map_eq_some_iff.mp hassign
        obtain ⟨rfl, rfl⟩ := Prod.mk.inj heq
        rw [Text.eq_of_splitOnce hp] at htrimmed
        simp only [List.mem_append, not_or] at htrimmed
        exact h.parseWiring (noFeed_trim htrimmed.1.1) (noFeed_trim htrimmed.2) hparse
      · cases hparse

end Parsed.Clean

/-- The loads and stores that wire the inputs of a block. -/
def wiringStmts (P : Platform) (b : FbBlock) : List ILStatement :=
  b.inputs.entries.flatMap fun e =>
    [.load (operand P e.2), .store (operand P (b.name ++ "." ++ e.1))]

/-- The wiring of a block and its call. -/
def blockStmts (P : Platform) (b : FbBlock) : List ILStatement :=
  wiringStmts P b ++ [.call (operand P b.name)]

/-- The loads and stores of the outputs of a block. -/
def outputStmts (P : Platform) (b : FbBlock) : List ILStatement :=
  b.outputs.entries.flatMap fun e =>
    [.load (operand P (b.name ++ "." ++ e.2)), .store (operand P e.1)]

/-- The statements of some blocks. -/
def ilStmts (P : Platform) (blocks : List FbBlock) : List ILStatement :=
  blocks.flatMap (blockStmts P) ++ blocks.flatMap (outputStmts P)

section Lines

variable {text : String}

theorem lineStmts_ld : lineStmts P ("LD " ++ text).toList = [.load (operand P text)] := by
  rw [String.toList_append]
  exact Il.lineStmts_mnemonic (p := ("LD", .ld)) (by decide) rfl text

theorem lineStmts_st : lineStmts P ("ST " ++ text).toList = [.store (operand P text)] := by
  rw [String.toList_append]
  exact Il.lineStmts_mnemonic (p := ("ST", .st)) (by decide) rfl text

theorem lineStmts_cal : lineStmts P ("CAL " ++ text).toList = [.call (operand P text)] := by
  rw [String.toList_append]
  exact Il.lineStmts_mnemonic (p := ("CAL", .cal)) (by decide) rfl text

theorem lineStmts_comment : lineStmts P ("; " ++ text).toList = [] := by
  rw [String.toList_append]
  exact congrArg Il.parse (Il.tokenizeLine_semicolon text.toList)

end Lines

/-- The statements of some lines. -/
def linesStmts (P : Platform) (lines : List String) : List ILStatement :=
  lines.flatMap fun line => lineStmts P line.toList

theorem linesStmts_append (a b : List String) :
    linesStmts P (a ++ b) = linesStmts P a ++ linesStmts P b :=
  List.flatMap_append

theorem linesStmts_flatMap {α : Type} (f : α → List String) (as : List α) :
    linesStmts P (as.flatMap f) = as.flatMap fun a => linesStmts P (f a) :=
  List.flatMap_assoc

/-- A text that begins with a semicolon and a space. -/
theorem linesStmts_comment {line : String} (h : ∃ text, line = "; " ++ text) :
    linesStmts P [line] = [] := by
  obtain ⟨text, rfl⟩ := h
  rw [linesStmts, List.flatMap_singleton, lineStmts_comment]

/-- A load and a store. -/
theorem linesStmts_copy (source target : String) :
    linesStmts P ["LD " ++ source, "ST " ++ target] =
      [.load (operand P source), .store (operand P target)] := by
  rw [linesStmts, List.flatMap_cons, List.flatMap_singleton, lineStmts_ld, lineStmts_st]
  rfl

/-- The lines of a block are its statements. -/
theorem linesStmts_blockLines (b : FbBlock) : linesStmts P (blockLines b) = blockStmts P b := by
  have hcomment : linesStmts P ["; BLOCK " ++ b.name ++ " " ++ b.kind.ilName] = [] :=
    linesStmts_comment ⟨"BLOCK " ++ b.name ++ " " ++ b.kind.ilName, by
      simp only [← String.append_assoc]; rfl⟩
  have hinput : ∀ e : String × String,
      linesStmts P ["LD " ++ e.2, "ST " ++ b.name ++ "." ++ e.1] =
        [.load (operand P e.2), .store (operand P (b.name ++ "." ++ e.1))] := by
    intro e
    rw [String.append_assoc, String.append_assoc, linesStmts_copy, ← String.append_assoc]
  have hcall : linesStmts P ["CAL " ++ b.name] = [.call (operand P b.name)] := by
    rw [linesStmts, List.flatMap_singleton, lineStmts_cal]
  rw [blockLines, ← List.singleton_append, linesStmts_append, linesStmts_append, hcomment,
    linesStmts_flatMap, funext hinput, hcall]
  rfl

/-- The lines of the outputs of a block are its statements. -/
theorem linesStmts_outputLines (b : FbBlock) :
    linesStmts P (outputLines b) = outputStmts P b := by
  have houtput : ∀ e : String × String,
      linesStmts P ["", "; Output " ++ e.1, "LD " ++ b.name ++ "." ++ e.2, "ST " ++ e.1] =
        [.load (operand P (b.name ++ "." ++ e.2)), .store (operand P e.1)] := by
    intro e
    have hcomment : linesStmts P ["; Output " ++ e.1] = [] :=
      linesStmts_comment ⟨"Output " ++ e.1, by rw [← String.append_assoc]; rfl⟩
    have hempty : linesStmts P [""] = [] := rfl
    have hlines : ["", "; Output " ++ e.1, "LD " ++ b.name ++ "." ++ e.2, "ST " ++ e.1] =
        [""] ++ (["; Output " ++ e.1] ++ ["LD " ++ (b.name ++ "." ++ e.2), "ST " ++ e.1]) := by
      rw [← String.append_assoc, ← String.append_assoc]
      rfl
    rw [hlines, linesStmts_append, linesStmts_append, hempty, hcomment, linesStmts_copy]
    rfl
  rw [outputLines, linesStmts_flatMap, funext houtput]
  rfl

/-- The generated lines are the statements of the blocks. -/
theorem linesStmts_ilLines (blocks : List FbBlock) :
    linesStmts P (ilLines blocks) = ilStmts P blocks := by
  have hblocks : linesStmts P ([""].intercalate (blocks.map blockLines)) =
      blocks.flatMap (blockStmts P) := by
    induction blocks with
    | nil => rfl
    | cons b blocks ih =>
        cases blocks with
        | nil =>
            rw [List.map_singleton, List.intercalate_singleton, List.flatMap_singleton,
              linesStmts_blockLines]
        | cons b' blocks =>
            rw [List.map_cons, List.map_cons, List.intercalate_cons_cons, linesStmts_append,
              linesStmts_append, linesStmts_blockLines, ← List.map_cons, ih,
              show linesStmts P [""] = [] from rfl, List.append_nil, ← List.flatMap_cons]
  rw [ilLines, linesStmts_append, hblocks, linesStmts_flatMap, funext linesStmts_outputLines]
  rfl

/-! ### The generated text -/

/-- The generated lines have no line feeds. -/
theorem noFeed_ilLines (h : ∀ b ∈ blocks, b.Clean P) : ∀ line ∈ ilLines blocks, NoFeed line := by
  have hblock : ∀ b ∈ blocks, ∀ line ∈ blockLines b, NoFeed line := by
    intro b hb line hline
    have hname : '\n' ∉ b.name.toList := noFeed_of_white (h b hb).name
    have hkind : '\n' ∉ b.kind.ilName.toList := by
      cases b.kind <;> decide
    simp only [blockLines, List.cons_append, List.mem_cons, List.mem_append, List.mem_flatMap,
      List.not_mem_nil, or_false] at hline
    rcases hline with rfl | ⟨e, he, rfl | rfl⟩ | rfl
    · simp [NoFeed, hname, hkind]
    · simpa [NoFeed] using ((h b hb).inputs e he).2
    · simpa [NoFeed, hname] using ((h b hb).inputs e he).1
    · simpa [NoFeed] using hname
  have hempty : NoFeed "" := nofun
  have houtput : ∀ b ∈ blocks, ∀ line ∈ outputLines b, NoFeed line := by
    intro b hb line hline
    have hname : '\n' ∉ b.name.toList := noFeed_of_white (h b hb).name
    obtain ⟨e, he, hline⟩ := List.mem_flatMap.mp hline
    obtain ⟨htarget, hpin⟩ := (h b hb).outputs e he
    simp only [List.mem_cons, List.not_mem_nil, or_false] at hline
    rcases hline with rfl | rfl | rfl | rfl
    · exact hempty
    · simpa [NoFeed] using htarget
    · simpa [NoFeed, hname] using hpin
    · simpa [NoFeed] using htarget
  have hblocks : ∀ line ∈ [""].intercalate (blocks.map blockLines), NoFeed line := by
    clear houtput h
    induction blocks with
    | nil => exact fun line hline => absurd hline List.not_mem_nil
    | cons b blocks ih =>
        have hb := hblock b List.mem_cons_self
        have ih' := ih fun b' hb' => hblock b' (List.mem_cons_of_mem b hb')
        cases blocks with
        | nil =>
            rwa [List.map_singleton, List.intercalate_singleton]
        | cons b' blocks =>
            intro line hline
            rw [List.map_cons, List.map_cons, List.intercalate_cons_cons] at hline
            rcases List.mem_append.mp hline with hline | hline
            · rcases List.mem_append.mp hline with hline | hline
              · exact hb line hline
              · exact List.mem_singleton.mp hline ▸ hempty
            · exact ih' line hline
  intro line hline
  rcases List.mem_append.mp hline with hline | hline
  · exact hblocks line hline
  · obtain ⟨b, hb, hline⟩ := List.mem_flatMap.mp hline
    exact houtput b hb line hline

/-- The last of the lines has a mnemonic and a text. -/
def EndsInStatement (lines : List String) : Prop :=
  ∃ before, ∃ p ∈ mnemonics, ∃ text, lines = before ++ [p.1 ++ " " ++ text]

theorem EndsInStatement.append {lines : List String} (h : EndsInStatement lines)
    (before : List String) : EndsInStatement (before ++ lines) := by
  obtain ⟨before', p, hp, text, rfl⟩ := h
  exact ⟨before ++ before', p, hp, text, (List.append_assoc _ _ _).symm⟩

/-- Parts that are empty or end in a statement make up lines of the same kind. -/
theorem endsInStatement_flatMap {α : Type} {f : α → List String} {as : List α}
    (h : ∀ a ∈ as, f a = [] ∨ EndsInStatement (f a)) :
    as.flatMap f = [] ∨ EndsInStatement (as.flatMap f) := by
  induction as with
  | nil => exact Or.inl rfl
  | cons a as ih =>
      rw [List.flatMap_cons]
      rcases ih fun b hb => h b (List.mem_cons_of_mem a hb) with hnil | hends
      · rw [hnil, List.append_nil]
        exact h a List.mem_cons_self
      · exact Or.inr (hends.append (f a))

/-- The generated lines end with a call or with an output. -/
theorem endsInStatement_ilLines (hne : blocks ≠ []) : EndsInStatement (ilLines blocks) := by
  have hblocks : ∀ blocks : List FbBlock, blocks ≠ [] →
      EndsInStatement ([""].intercalate (blocks.map blockLines)) := by
    intro blocks
    induction blocks with
    | nil => exact fun hne => absurd rfl hne
    | cons b blocks ih =>
        intro _
        cases blocks with
        | nil =>
            rw [List.map_singleton, List.intercalate_singleton]
            exact ⟨_, ("CAL", .cal), by decide, b.name, rfl⟩
        | cons b' blocks =>
            rw [List.map_cons, List.map_cons, List.intercalate_cons_cons]
            exact (ih nofun).append _
  have houtputs : blocks.flatMap outputLines = [] ∨
      EndsInStatement (blocks.flatMap outputLines) := by
    refine endsInStatement_flatMap fun b _ => endsInStatement_flatMap fun e _ => Or.inr ?_
    exact ⟨["", "; Output " ++ e.1, "LD " ++ b.name ++ "." ++ e.2], ("ST", .st), by decide, e.1,
      rfl⟩
  rw [ilLines]
  rcases houtputs with hnil | hends
  · rw [hnil, List.append_nil]
    exact hblocks blocks hne
  · exact hends.append _

/-- The front end of the Instruction List compiler reads the statements of the blocks from
the generated text. -/
theorem parse_generateIl (hne : blocks ≠ []) (h : ∀ b ∈ blocks, b.Clean P) :
    Il.parse (Il.tokenize P (generateIl P blocks)) = ilStmts P blocks := by
  obtain ⟨before, p, hp, text, hlines⟩ := endsInStatement_ilLines hne
  have hfeed : ∀ line ∈ ilLines blocks, '\n' ∉ line.toList := noFeed_ilLines h
  have hstmts : linesStmts P (ilLines blocks) = ilStmts P blocks := linesStmts_ilLines blocks
  rw [hlines] at hfeed hstmts
  -- The white space that is trimmed is the last line feed, and what follows the last word.
  let last := (p.1 ++ " " ++ text).toList
  obtain ⟨c, cs, hlast, hc⟩ : ∃ c cs, last = c :: cs ∧ P.white c = false := by
    obtain ⟨c, cs, hcs⟩ := List.exists_cons_of_ne_nil (Il.spelling_spec p hp).2.1
    refine ⟨c, cs ++ ' ' :: text.toList, by simp [last, hcs], ?_⟩
    exact Il.white_spelling hp c (hcs ▸ List.mem_cons_self)
  have hrest : last.rdropWhile P.white ≠ [] := by
    rw [Ne, List.rdropWhile_eq_nil_iff]
    intro hall
    exact absurd (hall c (hlast ▸ List.mem_cons_self)) (by rw [hc]; exact nofun)
  have hrestFeed : '\n' ∉ last.rdropWhile P.white := fun hmem =>
    hfeed _ (List.mem_append_right before List.mem_cons_self)
      ((List.rdropWhile_prefix _ _).subset hmem)
  have htext : generateIl P blocks = String.ofList
      ((before.flatMap fun line => line.toList ++ ['\n']) ++ last.rdropWhile P.white) := by
    have htrim : (last ++ ['\n']).rdropWhile P.white = last.rdropWhile P.white :=
      List.rdropWhile_concat_pos _ _ _ (P.white_ascii '\n' (by decide))
    rw [generateIl, hlines, List.flatMap_append, List.flatMap_singleton, Text.rdropWhile_append,
      htrim, if_neg hrest]
  have hsame : lineStmts P (last.rdropWhile P.white) = lineStmts P last :=
    Il.lineStmts_congr (Text.trim_rdropWhile last)
  rw [Il.parse_tokenize, htext, String.toList_ofList,
    Il.flatMap_lineStmts_lines fun line hline => hfeed line (List.mem_append_left _ hline),
    Text.lines_singleton hrest hrestFeed, List.flatMap_singleton, hsame, ← hstmts,
    linesStmts_append, linesStmts, linesStmts, List.flatMap_singleton]

end Weftik.Fbd
