import Weftik.FbdEditor.Meaning
import Weftik.Fbd.Scan

/-!
# The Compile Pipeline of the Diagram Editor

The editor hands the Instruction List text of a diagram to a compiler whose source language
is another one: lines `BLOCK name KIND` and assignments. No line of a gate is one of these,
unless the id of a node smuggles one in, and an id stands in the text twice, so that a block
that it declares is declared twice.

## Main definitions

* `FbdEditor.compileFbd`: the two compilers of the bridge, one after the other.
* `FbdEditor.Closes`: the pipeline accepts the diagram and the scan computes its values.

## Main results

* `FbdEditor.nodup_blockNames`: an accepted text declares blocks, and each of them once.
* `FbdEditor.FbdGraph.OfLogicGates.declaredBy_emitNode`: the lines of a gate are refused, or
  declare every name twice.
* `FbdEditor.not_closes`: the pipeline closes for no diagram of gates.
-/

open Machine Outcome

namespace Weftik.FbdEditor

open Fbd (parseLine parseBlocks Parsed)

variable {P : Platform}

/-- The compilers of the bridge: FBD text to Instruction List text, and that to a program. -/
def compileFbd (P : Platform) (source : String) : Except Panic (Except String (HalProgram P)) :=
  match Fbd.fbdCompile P source with
  | .error reason => .ok (.error reason)
  | .ok il => Il.ilCompile P il

/-- The pipeline closes: the compilers accept the text of the graph, and every scan of the
program ends with the output of each gate in the signal of its output wire. -/
def Closes (P : Platform) (graph : FbdGraph) : Prop :=
  ∃ program, compileFbd P (convertGraphToIl graph).ilText = .ok (.ok program) ∧
    ∀ (vm : Vm P) (table : String → Option (HalValue P)),
      ∃ vm', Exec (Vm.step program.instructions) (Il.scanStart vm table) (.ok vm') ∧
        ∀ value, graph.IsValuation value → ∀ n ∈ graph.nodes, ∀ gateType,
          n.kind = .gate gateType → vm'.signals (graph.outLabel n.id) = some (.bool
            (gateType.eval (n.inputPorts.map fun pin => graph.pinValue value n.id pin.name)))

/-! ### What the FBD compiler accepts -/

/-- The name of the block that a line declares. -/
def blockName? (P : Platform) (line : String) : Option String :=
  match "BLOCK ".toList.isPrefixOf? (line.toList.rdropWhile P.white) with
  | some rest => (Text.words P.white rest).head?.map String.ofList
  | none => none

theorem names_updateBlock {name : String} {f : Fbd.FbBlock → Fbd.FbBlock}
    (hf : ∀ b, (f b).name = b.name) {blocks blocks' : List Fbd.FbBlock}
    (h : Fbd.updateBlock name f blocks = some blocks') :
    blocks'.map Fbd.FbBlock.name = blocks.map Fbd.FbBlock.name := by
  induction blocks generalizing blocks' with
  | nil => cases h
  | cons b blocks ih =>
      rw [Fbd.updateBlock] at h
      by_cases hname : b.name = name
      · rw [if_pos hname] at h
        obtain rfl := Option.some.inj h
        rw [List.map_cons, List.map_cons, hf]
      · rw [if_neg hname] at h
        obtain ⟨rest, hrest, rfl⟩ := Option.map_eq_some_iff.mp h
        rw [List.map_cons, List.map_cons, ih hrest]

/-- The names of the blocks so far. -/
def names (s : Parsed) : List String := s.blocks.map Fbd.FbBlock.name

theorem names_parseWiring {s t : Parsed} {lhs rhs : String}
    (h : Fbd.parseWiring s lhs rhs = .ok t) : names t = names s := by
  rw [Fbd.parseWiring] at h
  split at h
  · split at h
    · rename_i blocks hupdate
      obtain rfl := Except.ok.inj h
      exact names_updateBlock (f := fun b => { b with inputs := b.inputs.insert _ rhs })
        (fun _ => rfl) hupdate
    · cases h
  · split at h
    · split at h
      · cases h
      · split at h
        · obtain rfl := Except.ok.inj h
          rfl
        · cases h
    · obtain rfl := Except.ok.inj h
      rfl

/-- The words after `BLOCK` in a line that is accepted. -/
theorem words_parseBlock {s t : Parsed} {line : String} {rest : List Char}
    (h : Fbd.parseBlock P s line rest = .ok t) :
    ∃ name kindStr more, Text.words P.white rest = name :: kindStr :: more ∧
      Fbd.FbKind.fromStr (String.ofList kindStr) ≠ none ∧ String.ofList name ∉ names s ∧
      names t = names s ++ [String.ofList name] := by
  rw [Fbd.parseBlock] at h
  split at h
  · rename_i name kindStr more hwords
    obtain ⟨name, tail, hw, rfl, htail⟩ := List.map_eq_cons_iff.mp hwords
    obtain ⟨kindStr, more, rfl, rfl, rfl⟩ := List.map_eq_cons_iff.mp htail
    split at h
    · cases h
    · rename_i kind hkind
      split at h
      · cases h
      · rename_i hfresh
        obtain rfl := Except.ok.inj h
        refine ⟨name, kindStr, more, hw, by simp [hkind], ?_, ?_⟩
        · simpa [names] using hfresh
        · rw [names, List.map_append]
          rfl
  · cases h

/-- An accepted line declares at most one block, and a new one. -/
theorem names_parseLine {s t : Parsed} {line : String} (h : parseLine P s line = .ok t) :
    names t = names s ++ (blockName? P line).toList ∧
      ∀ name, blockName? P line = some name → name ∉ names s := by
  simp only [parseLine] at h
  by_cases hnil : line.toList.rdropWhile P.white = []
  · rw [if_pos hnil] at h
    obtain rfl := Except.ok.inj h
    rw [blockName?, hnil]
    exact ⟨(List.append_nil _).symm, nofun⟩
  · rw [if_neg hnil] at h
    rw [blockName?]
    cases hblock : "BLOCK ".toList.isPrefixOf? (line.toList.rdropWhile P.white) with
    | some rest =>
        rw [hblock] at h
        obtain ⟨name, kindStr, more, hwords, -, hfresh, hnames⟩ := words_parseBlock h
        simp only [hwords, List.head?_cons, Option.map_some, Option.toList_some]
        exact ⟨hnames, fun name' heq => Option.some.inj heq ▸ hfresh⟩
    | none =>
        rw [hblock] at h
        cases hassign : Fbd.parseAssignment P (line.toList.rdropWhile P.white) with
        | none =>
            simp only [hassign] at h
            cases h
        | some p =>
            simp only [hassign] at h
            exact ⟨by rw [names_parseWiring h]; exact (List.append_nil _).symm, nofun⟩

/-- The names of the blocks that some lines declare. -/
def blockNames (P : Platform) (lines : List String) : List String :=
  lines.filterMap (blockName? P)

/-- A line that is accepted after some others. -/
def Accepted (P : Platform) (line : String) : Prop :=
  ∃ s t, parseLine P s line = .ok t

theorem names_foldlM {lines : List String} {s t : Parsed} (hs : (names s).Nodup)
    (h : lines.foldlM (parseLine P) s = .ok t) :
    names t = names s ++ blockNames P lines ∧ (names t).Nodup ∧
      ∀ line ∈ lines, Accepted P line := by
  induction lines generalizing s with
  | nil =>
      obtain rfl := Except.ok.inj h
      exact ⟨(List.append_nil _).symm, hs, List.forall_mem_nil _⟩
  | cons line lines ih =>
      rw [List.foldlM_cons] at h
      obtain ⟨s₁, hfirst, hrest⟩ := bind_eq_ok h
      obtain ⟨hnames, hfresh⟩ := names_parseLine hfirst
      have hs₁ : (names s₁).Nodup := by
        rw [hnames]
        cases hname : blockName? P line with
        | none => rwa [Option.toList_none, List.append_nil]
        | some name =>
            refine List.nodup_append.mpr ⟨hs, List.nodup_singleton name, ?_⟩
            intro a ha b hb heq
            rw [heq, List.mem_singleton.mp hb] at ha
            exact hfresh name hname ha
      obtain ⟨hlast, hnodup, haccepted⟩ := ih hs₁ hrest
      refine ⟨?_, hnodup, List.forall_mem_cons.mpr ⟨⟨s, s₁, hfirst⟩, haccepted⟩⟩
      rw [hlast, hnames, List.append_assoc, blockNames, blockNames, List.filterMap_cons]
      cases blockName? P line <;> rfl

theorem names_storeOutput (blocks : List Fbd.FbBlock) (output : String × String) :
    (Fbd.storeOutput blocks output).map Fbd.FbBlock.name = blocks.map Fbd.FbBlock.name := by
  rw [Fbd.storeOutput]
  split
  · rename_i srcBlock srcPin hdot
    cases hupdate : Fbd.updateBlock srcBlock
        (fun b => { b with outputs := b.outputs.insert output.1 srcPin }) blocks with
    | none => rfl
    | some blocks' =>
        exact names_updateBlock
          (f := fun b => { b with outputs := b.outputs.insert output.1 srcPin })
              (fun _ => rfl) hupdate
  · rfl

/-- An accepted text declares blocks, and each of them once. -/
theorem nodup_blockNames {lines : List String} {blocks : List Fbd.FbBlock}
    (h : parseBlocks P lines = .ok blocks) :
    blockNames P lines ≠ [] ∧ (blockNames P lines).Nodup ∧ ∀ line ∈ lines, Accepted P line := by
  obtain ⟨s, hparsed, hrest⟩ := bind_eq_ok h
  obtain ⟨hnames, hnodup, haccepted⟩ := names_foldlM (s := ⟨[], []⟩) List.nodup_nil hparsed
  rw [show names ⟨[], []⟩ = [] from rfl, List.nil_append] at hnames
  have hstored : ∀ outputs : List (String × String),
      (outputs.foldl Fbd.storeOutput s.blocks).map Fbd.FbBlock.name = names s := by
    intro outputs
    induction outputs using List.reverseRecOn with
    | nil => rfl
    | append_singleton outputs o ih =>
        rw [List.foldl_append, List.foldl_cons, List.foldl_nil, names_storeOutput, ih]
  refine ⟨fun hnil => ?_, hnames ▸ hnodup, haccepted⟩
  have hempty := hstored s.outputs
  rw [hnames, hnil, List.map_eq_nil_iff] at hempty
  simp only [hempty] at hrest
  cases hrest

/-! ### The lines of a text -/

/-- What a trimmed line of the text gives. -/
def tokenOf (line : List Char) : List String :=
  if line = [] ∨ line.head? = some ';' ∨ line.take 2 = ['/', '/'] then [] else [String.ofList line]

theorem tokenize_ofList (cs : List Char) :
    Fbd.tokenize P (String.ofList cs) =
      (Text.lines cs).flatMap fun line => tokenOf (Text.trim P.white line) := by
  rw [Fbd.tokenize, String.toList_ofList]
  induction Text.lines cs with
  | nil => rfl
  | cons line lines ih =>
      rw [List.map_cons, List.filterMap_cons, List.flatMap_cons, ← ih, tokenOf]
      split <;> rename_i hline <;> split at hline <;> simp_all

theorem white_return : P.white '\r' = true := by
  rw [P.white_ascii _ (by decide)]
  decide

/-- The lines of two texts with a line feed between them. -/
theorem tokenize_append_feed (a b : List Char) :
    Fbd.tokenize P (String.ofList (a ++ '\n' :: b)) =
      Fbd.tokenize P (String.ofList a) ++ Fbd.tokenize P (String.ofList b) := by
  rw [tokenize_ofList, tokenize_ofList, tokenize_ofList,
    Text.flatMap_trim_lines_append (g := tokenOf) rfl white_return]

variable {cs : List Char}

/-- A text without line feeds is one line. -/
theorem tokenize_line (hfeed : '\n' ∉ cs) :
    Fbd.tokenize P (String.ofList cs) = tokenOf (Text.trim P.white cs) := by
  rw [tokenize_ofList]
  cases cs with
  | nil => rfl
  | cons c cs => rw [Text.lines_singleton (List.cons_ne_nil c cs) hfeed, List.flatMap_singleton]

theorem tokenize_intercalate (texts : List String) :
    Fbd.tokenize P ("\n".intercalate texts) = texts.flatMap (Fbd.tokenize P) := by
  induction texts with
  | nil => rfl
  | cons text texts ih =>
      cases texts with
      | nil => rw [String.intercalate_singleton, List.flatMap_singleton]
      | cons text' texts =>
          have hchars : ∀ s : String,
              text ++ "\n" ++ s = String.ofList (text.toList ++ '\n' :: s.toList) := fun s =>
            String.toList_injective (by simp)
          rw [String.intercalate_cons_cons, List.flatMap_cons, ← ih, hchars, tokenize_append_feed,
            String.ofList_toList, String.ofList_toList]

/-! ### An id that stands in two texts -/

/-- The names of the blocks that a text declares. -/
def declared (P : Platform) (cs : List Char) : List String :=
  blockNames P (Fbd.tokenize P (String.ofList cs))

theorem declared_append_feed (a b : List Char) :
    declared P (a ++ '\n' :: b) = declared P a ++ declared P b := by
  rw [declared, tokenize_append_feed, blockNames, List.filterMap_append]
  rfl

/-- The letters at the beginnings of the lines of gates. -/
def capitals : List Char := ['A', 'L', 'O', 'S', 'X']

variable {c : Char}

theorem white_capital (h : c ∈ capitals) : P.white c = false := by
  simp only [capitals, List.mem_cons, List.not_mem_nil, or_false] at h
  rcases h with rfl | rfl | rfl | rfl | rfl <;> exact P.white_ascii _ (by decide)

theorem isPrefixOf?_block (h : c ≠ 'B') (cs : List Char) :
    "BLOCK ".toList.isPrefixOf? (c :: cs) = none := by
  rw [show "BLOCK ".toList = 'B' :: "LOCK ".toList from by decide, List.isPrefixOf?]
  simp [Ne.symm h]

theorem blockName?_cons (hc : P.white c = false) (hblock : c ≠ 'B') (cs : List Char) :
    blockName? P (String.ofList (c :: cs)) = none := by
  simp only [blockName?, String.toList_ofList, Text.rdropWhile_cons hc, isPrefixOf?_block hblock]

/-- A line that does not begin with `BLOCK` declares nothing. -/
theorem declared_line (hfeed : '\n' ∉ c :: cs) (hc : P.white c = false) (hblock : c ≠ 'B') :
    declared P (c :: cs) = [] := by
  rw [declared, tokenize_line hfeed, Text.trim_cons_of_not hc, tokenOf]
  split
  · rfl
  · rw [blockNames, List.filterMap_cons, blockName?_cons hc hblock]
    rfl

/-- A line without an assignment that does not begin with `BLOCK` is refused. -/
theorem not_accepted (hc : P.white c = false) (hblock : c ≠ 'B') (hcolon : ':' ∉ c :: cs) :
    ¬Accepted P (String.ofList (c :: cs)) := by
  rintro ⟨s, t, h⟩
  simp only [parseLine, String.toList_ofList, Text.rdropWhile_cons hc,
    isPrefixOf?_block hblock] at h
  rw [if_neg (List.cons_ne_nil _ _)] at h
  cases hassign : Fbd.parseAssignment P (c :: cs.rdropWhile P.white) with
  | none => rw [hassign] at h; cases h
  | some p =>
      obtain ⟨q, hq, -⟩ := Option.map_eq_some_iff.mp hassign
      have hmem : ':' ∈ c :: cs.rdropWhile P.white := by
        rw [Text.eq_of_splitOnce hq]
        simp
      refine hcolon ?_
      rcases List.mem_cons.mp hmem with rfl | hmem
      · exact List.mem_cons_self
      · exact List.mem_cons_of_mem c ((List.rdropWhile_prefix _ _).subset hmem)

theorem isPrefixOf?_block_append (rest : List Char) :
    "BLOCK ".toList.isPrefixOf? ("BLOCK ".toList ++ rest) = some rest :=
  List.isPrefixOf?_eq_some_iff_append_eq.mpr rfl

theorem rdropWhile_block {rest : List Char} (h : Text.words P.white rest ≠ []) :
    ("BLOCK ".toList ++ rest).rdropWhile P.white =
      "BLOCK ".toList ++ rest.rdropWhile P.white := by
  rw [Text.rdropWhile_append, if_neg]
  intro hnil
  rw [← Text.words_rdropWhile, hnil] at h
  exact h rfl

theorem tokenOf_block (rest : List Char) :
    tokenOf ("BLOCK ".toList ++ rest) = [String.ofList ("BLOCK ".toList ++ rest)] := by
  rw [tokenOf, if_neg]
  simp

/-- The words of a line that begins with `BLOCK` and is accepted. -/
theorem words_of_accepted {rest : List Char} (hfeed : '\n' ∉ cs)
    (hcs : cs.dropWhile P.white = "BLOCK ".toList ++ rest) (hne : Text.words P.white rest ≠ [])
    (haccepted : ∀ line ∈ Fbd.tokenize P (String.ofList cs), Accepted P line) :
    ∃ name kindStr more, Text.words P.white rest = name :: kindStr :: more ∧
      Fbd.FbKind.fromStr (String.ofList kindStr) ≠ none := by
  have hne' : Text.words P.white (rest.rdropWhile P.white) ≠ [] := by
    rwa [Text.words_rdropWhile]
  rw [tokenize_line hfeed, Text.trim, hcs, rdropWhile_block hne, tokenOf_block] at haccepted
  obtain ⟨s, t, h⟩ := haccepted _ List.mem_cons_self
  simp only [parseLine, String.toList_ofList, rdropWhile_block hne',
    isPrefixOf?_block_append] at h
  rw [if_neg (by simp)] at h
  obtain ⟨name, kindStr, more, hwords, hkind, -⟩ := words_parseBlock h
  rw [Text.words_rdropWhile, Text.words_rdropWhile] at hwords
  exact ⟨name, kindStr, more, hwords, hkind⟩

/-- A line that begins with `BLOCK` declares the first word after it. -/
theorem declared_block {rest name : List Char} {more : List (List Char)} (hfeed : '\n' ∉ cs)
    (hcs : cs.dropWhile P.white = "BLOCK ".toList ++ rest)
    (hwords : Text.words P.white rest = name :: more) : declared P cs = [String.ofList name] := by
  have hne : Text.words P.white rest ≠ [] := hwords ▸ List.cons_ne_nil name more
  have hne' : Text.words P.white (rest.rdropWhile P.white) ≠ [] := by
    rwa [Text.words_rdropWhile]
  have hname : blockName? P (String.ofList ("BLOCK ".toList ++ rest.rdropWhile P.white)) =
      some (String.ofList name) := by
    simp only [blockName?, String.toList_ofList, rdropWhile_block hne', isPrefixOf?_block_append,
      Text.words_rdropWhile, hwords, List.head?_cons, Option.map_some]
  rw [declared, tokenize_line hfeed, Text.trim, hcs, rdropWhile_block hne, tokenOf_block,
    blockNames, List.filterMap_cons, hname]
  rfl

theorem declared_of_not_block (hfeed : '\n' ∉ cs)
    (hcs : ¬"BLOCK ".toList <+: cs.dropWhile P.white) : declared P cs = [] := by
  rw [declared, tokenize_line hfeed, tokenOf]
  split
  · rfl
  · have hname : blockName? P (String.ofList (Text.trim P.white cs)) = none := by
      rw [blockName?]
      split
      · rename_i rest hrest
        simp only [List.isPrefixOf?_eq_some_iff_append_eq, String.toList_ofList] at hrest
        have hline : "BLOCK ".toList <+: (Text.trim P.white cs).rdropWhile P.white := ⟨rest, hrest⟩
        exact absurd ((hline.trans (List.rdropWhile_prefix _ _)).trans
          (List.rdropWhile_prefix _ _)) hcs
      · rfl
    rw [blockNames, List.filterMap_cons, hname]
    rfl

/-- The end of a comment. -/
def commentEnd : List Char := " *)".toList

theorem words_commentEnd : Text.words P.white "*)".toList = ["*)".toList] := by
  refine Text.words_singleton (by simp) fun c hc => ?_
  have hchars : c = '*' ∨ c = ')' := by simpa using hc
  rcases hchars with rfl | rfl <;> exact P.white_ascii _ (by decide)

theorem words_append_end (cs : List Char) :
    Text.words P.white (cs ++ commentEnd) = Text.words P.white cs ++ ["*)".toList] := by
  have hspace : P.white ' ' = true := by
    rw [P.white_ascii _ (by decide)]
    decide
  rw [show commentEnd = ' ' :: "*)".toList from by decide, Text.words_append_white hspace,
    words_commentEnd]

/-- Where a line begins with `BLOCK` only together with the end of a comment. -/
theorem eq_of_prefix_append_end (h : "BLOCK ".toList <+: cs ++ commentEnd)
    (hcs : ¬"BLOCK ".toList <+: cs) : cs = "BLOCK".toList := by
  have hshort : cs <+: "BLOCK ".toList := by
    rcases List.prefix_or_prefix_of_prefix h (List.prefix_append cs commentEnd) with h | h
    · exact absurd h hcs
    · exact h
  rw [← List.mem_inits] at hshort
  have hall : ∀ ds ∈ "BLOCK ".toList.inits, "BLOCK ".toList <+: ds ++ commentEnd →
      ¬"BLOCK ".toList <+: ds → ds = "BLOCK".toList := by
    decide
  exact hall cs hshort h hcs

/-- The end of a comment after a line declares nothing, unless the line is refused. -/
theorem declared_line_append_end (hfeed : '\n' ∉ cs)
    (haccepted : ∀ line ∈ Fbd.tokenize P (String.ofList (cs ++ commentEnd)), Accepted P line) :
    declared P (cs ++ commentEnd) = declared P cs := by
  have hfeed' : '\n' ∉ cs ++ commentEnd := by
    simp [commentEnd, hfeed]
  have hdrop : ∀ a, cs.dropWhile P.white = a → a ≠ [] →
      (cs ++ commentEnd).dropWhile P.white = a ++ commentEnd := by
    rintro a rfl hne
    rw [List.dropWhile_append, if_neg (by rwa [List.isEmpty_iff])]
  by_cases hblock : "BLOCK ".toList <+: cs.dropWhile P.white
  · obtain ⟨rest, hrest⟩ := hblock
    have hcs := hdrop _ hrest.symm (by simp)
    rw [List.append_assoc] at hcs
    have hwords := words_append_end (P := P) rest
    obtain ⟨name, kindStr, more, haccept, -⟩ :=
      words_of_accepted hfeed' hcs (by rw [hwords]; simp) haccepted
    -- a name alone would be declared with the end of the comment as its kind
    cases hname : Text.words P.white rest with
    | nil =>
        rw [hwords, hname] at haccept
        cases haccept
    | cons name more =>
        rw [declared_block hfeed hrest.symm hname,
          declared_block hfeed' hcs (by rw [hwords, hname, List.cons_append])]
  · rw [declared_of_not_block hfeed hblock]
    refine declared_of_not_block hfeed' fun hblock' => ?_
    have hcs : (cs ++ commentEnd).dropWhile P.white = "BLOCK ".toList ++ "*)".toList := by
      by_cases hnil : cs.dropWhile P.white = []
      · rw [List.dropWhile_append, if_pos (List.isEmpty_iff.mpr hnil)] at hblock'
        have hshort := (List.dropWhile_suffix P.white (l := commentEnd)).length_le
        exact absurd (hblock'.length_le.trans hshort) (by decide)
      · rw [hdrop _ rfl hnil] at hblock' ⊢
        rw [eq_of_prefix_append_end hblock' hblock]
        decide
    obtain ⟨name, kindStr, more, haccept, -⟩ :=
      words_of_accepted hfeed' hcs (by rw [words_commentEnd]; simp) haccepted
    rw [words_commentEnd] at haccept
    cases haccept

theorem declared_append_end
    (haccepted : ∀ line ∈ Fbd.tokenize P (String.ofList (cs ++ commentEnd)), Accepted P line) :
    declared P (cs ++ commentEnd) = declared P cs := by
  induction hn : cs.length using Nat.strong_induction_on generalizing cs with
  | _ n ih =>
      by_cases hmem : '\n' ∈ cs
      · obtain ⟨line, rest, rfl, hfeed⟩ := List.eq_append_cons_of_mem hmem
        have hlt : rest.length < n := by
          rw [← hn, List.length_append, List.length_cons]
          omega
        rw [List.append_assoc, List.cons_append, tokenize_append_feed] at haccepted
        rw [List.append_assoc, List.cons_append, declared_append_feed, declared_append_feed,
          ih rest.length hlt (fun line hline =>
            haccepted line (List.mem_append_right _ hline)) rfl]
      · exact declared_line_append_end hmem haccepted

/-- What the lines of an id declare where it begins in a line and where it ends in one. -/
theorem declared_copy {d : Char} {front front' id : List Char} (hfront : '\n' ∉ c :: front)
    (hfront' : '\n' ∉ d :: front') (hc : P.white c = false) (hd : P.white d = false)
    (hcblock : c ≠ 'B') (hdblock : d ≠ 'B')
    (haccepted : ∀ line ∈ Fbd.tokenize P (String.ofList (c :: front ++ (id ++ commentEnd))),
        Accepted P line) :
    declared P (c :: front ++ (id ++ commentEnd)) = declared P (d :: front' ++ id) := by
  by_cases hmem : '\n' ∈ id
  · obtain ⟨first, rest, rfl, hfeed⟩ := List.eq_append_cons_of_mem hmem
    have hsplit : c :: front ++ (first ++ '\n' :: rest ++ commentEnd) =
        (c :: (front ++ first)) ++ '\n' :: (rest ++ commentEnd) := by
      simp
    have hsplit' : d :: front' ++ (first ++ '\n' :: rest) =
        (d :: (front' ++ first)) ++ '\n' :: rest := by
      simp
    rw [hsplit, tokenize_append_feed] at haccepted
    rw [hsplit, hsplit', declared_append_feed, declared_append_feed,
      declared_line (by simp_all) hc hcblock, declared_line (by simp_all) hd hdblock,
      declared_append_end fun line hline => haccepted line (List.mem_append_right _ hline)]
  · have hend : '\n' ∉ commentEnd := by decide
    rw [List.cons_append, List.cons_append, declared_line (by simp_all) hc hcblock,
      declared_line (by simp_all) hd hdblock]

/-! ### The lines of gates -/

/-- A text of one line without assignments. -/
def Plain (s : String) : Prop := '\n' ∉ s.toList ∧ ':' ∉ s.toList

instance (s : String) : Decidable (Plain s) := inferInstanceAs (Decidable (_ ∧ _))

theorem Plain.append {s t : String} (hs : Plain s) (ht : Plain t) : Plain (s ++ t) := by
  rw [Plain, String.toList_append]
  exact ⟨fun h => (List.mem_append.mp h).elim hs.1 ht.1,
    fun h => (List.mem_append.mp h).elim hs.2 ht.2⟩

theorem plain_repr (n : ℕ) : Plain n.repr := by
  have hdigit : ∀ c ∈ n.repr.toList, c.isDigit = true := by
    intro c hc
    rw [Nat.toList_repr] at hc
    exact Nat.isDigit_of_mem_toDigits (by omega) (by omega) hc
  exact ⟨fun h => absurd (hdigit _ h) (by decide), fun h => absurd (hdigit _ h) (by decide)⟩

/-- A plain line that is no block is refused. -/
theorem exists_not_accepted {s : String} (hs : s.toList = c :: cs) (hplain : Plain s)
    (hc : P.white c = false) (hkind : c ∉ ['B', ';', '/']) :
    ∃ line ∈ Fbd.tokenize P s, ¬Accepted P line := by
  obtain ⟨hfeed, hcolon⟩ := hplain
  rw [hs] at hfeed hcolon
  rw [← String.ofList_toList (s := s), hs, tokenize_line hfeed, Text.trim_cons_of_not hc, tokenOf,
    if_neg (by simp_all)]
  refine ⟨_, List.mem_cons_self, not_accepted hc (by simp_all) fun h => hcolon ?_⟩
  exact List.mem_cons.mpr ((List.mem_cons.mp h).imp_right fun h =>
    (List.rdropWhile_prefix _ _).subset h)

namespace FbdGraph

variable {graph : FbdGraph}

/-- All nodes are gates with one output and the pins of their types, no multiplexers. -/
def OfLogicGates (graph : FbdGraph) : Prop :=
  ∀ n ∈ graph.nodes, ∃ gateType, gateType ≠ .mux ∧ n.kind = .gate gateType ∧
    n.inputPorts = gateInputs gateType ∧ n.outputPorts = gateOutputs

theorem OfLogicGates.plain_wireLabel (h : graph.OfLogicGates) (e : Edge) (k : ℕ) :
    Plain (graph.wireLabel e k) := by
  have hnames : ∀ gateType, ∀ p ∈ gateInputs gateType ++ gateOutputs, Plain p.name := by
    intro gateType
    cases gateType <;> simp only [Plain] <;> decide
  rw [wireLabel]
  split
  · rename_i pin hpin
    obtain ⟨n, hn, hfind⟩ := Option.bind_eq_some_iff.mp hpin
    obtain ⟨gateType, -, -, hin, hout⟩ := h n (nodeById_mem hn).1
    rw [Node.findPin, hin, hout] at hfind
    exact (((show Plain "tmp_" by decide).append
      (hnames gateType pin (List.mem_of_find?_eq_some hfind))).append
      (show Plain "_" by decide)).append (plain_repr k)
  · exact (show Plain "tmp_" by decide).append (plain_repr k)

theorem OfLogicGates.plain_labelOf (h : graph.OfLogicGates) {edgeId v : String}
    (hv : graph.labelOf edgeId = some v) : Plain v := by
  obtain ⟨l₁, l₂, heq, -⟩ := List.lookup_eq_some_iff.mp hv
  have hmem : (edgeId, v) ∈ (graph.edges.zipIdx.map fun p =>
      (p.1.id, graph.wireLabel p.1 p.2)) := by
    rw [← List.mem_reverse, heq]
    simp
  obtain ⟨p, -, hp⟩ := List.mem_map.mp hmem
  exact (Prod.mk.inj hp).2 ▸ h.plain_wireLabel p.1 p.2

/-- What the inputs of the gates read has no line feeds and no assignments. -/
theorem OfLogicGates.plain_inputValues (h : graph.OfLogicGates) (node : Node) (i : ℕ) :
    Plain ((graph.inputValues node "FALSE").getD i "undefined") := by
  have hfalse : Plain "FALSE" := by decide
  rw [List.getD_eq_getElem?_getD]
  cases hv : (graph.inputValues node "FALSE")[i]? with
  | none => exact (by decide : Plain "undefined")
  | some v =>
      obtain ⟨pin, -, rfl⟩ := List.mem_map.mp (List.mem_of_getElem? hv)
      rw [Option.getD_some]
      split
      · rename_i edge _
        cases hlabel : graph.labelOf edge.id with
        | none => exact hfalse
        | some v => exact h.plain_labelOf hlabel
      · exact hfalse

/-- A gate stores into the variable of a wire, or into one named after it. -/
theorem OfLogicGates.plain_outLabel (h : graph.OfLogicGates) (id : String) :
    Plain (graph.outLabel id) ∨ graph.outLabel id = "gate_out_" ++ id := by
  rw [outLabel]
  split
  · rename_i outWire _
    cases hlabel : graph.labelOf outWire.id with
    | none => exact Or.inr rfl
    | some v => exact Or.inl (h.plain_labelOf hlabel)
  · exact Or.inr rfl

/-- A line that computes or stores with a plain operand is refused. -/
theorem exists_not_accepted_instr {op : IlOp} (hop : op ∈ [IlOp.and, .or, .xor, .st]) {v : String}
    (hv : Plain v) : ∃ line ∈ Fbd.tokenize P (IlLine.instr op v none).text, ¬Accepted P line := by
  have htexts : ∀ op ∈ [IlOp.and, .or, .xor, .st], Plain op.text ∧
      op.text.toList.head? ∈ ['A', 'O', 'X', 'S'].map some := by
    decide
  obtain ⟨hplain, hhead⟩ := htexts op hop
  obtain ⟨c, hc, hhead⟩ := List.mem_map.mp hhead
  obtain ⟨cs, hcs⟩ := List.head?_eq_some_iff.mp hhead.symm
  have hkind : c ∈ capitals ∧ c ∉ ['B', ';', '/'] := by
    simp only [List.mem_cons, List.not_mem_nil, or_false] at hc
    rcases hc with rfl | rfl | rfl | rfl <;> decide
  have hchars : (IlLine.instr op v none).text.toList = c :: (cs ++ v.toList) := by
    rw [IlLine.text, String.toList_append, hcs, List.cons_append]
  exact exists_not_accepted hchars (hplain.append hv) (white_capital hkind.1)
    hkind.2

/-- The names that some lines declare. -/
def declaredBy (P : Platform) (lines : List IlLine) : List String :=
  lines.flatMap fun line => declared P line.text.toList

/-- All lines of some text are accepted. -/
def AllAccepted (P : Platform) (lines : List IlLine) : Prop :=
  ∀ line ∈ lines, ∀ token ∈ Fbd.tokenize P line.text, Accepted P token

/-- The lines of an inverter that no wire leaves declare every name twice. -/
theorem declaredBy_not {v id : String} (hv : Plain v)
    (haccepted : AllAccepted P
      [.instr .ldn v (some ("NOT " ++ id)), .instr .st ("gate_out_" ++ id) none]) :
    ∃ names, declaredBy P
      [.instr .ldn v (some ("NOT " ++ id)), .instr .st ("gate_out_" ++ id) none] =
      names ++ names := by
  have hload : (IlLine.instr .ldn v (some ("NOT " ++ id))).text.toList =
      'L' :: ("DN ".toList ++ v.toList ++ "  (* NOT ".toList) ++ (id.toList ++ commentEnd) := by
    simp [IlLine.text, IlOp.text, commentEnd]
  have hstore : (IlLine.instr .st ("gate_out_" ++ id) none).text.toList =
      'S' :: "T  gate_out_".toList ++ id.toList := by
    simp [IlLine.text, IlOp.text]
  have hfeed : '\n' ∉ 'L' :: ("DN ".toList ++ v.toList ++ "  (* NOT ".toList) := by
    simp [hv.1]
  have hfeed' : '\n' ∉ 'S' :: "T  gate_out_".toList := by
    decide
  have hcopy := declared_copy hfeed hfeed' (white_capital (by decide)) (white_capital (by decide))
    (by decide) (by decide) (by
      rw [← hload, String.ofList_toList]
      exact haccepted _ List.mem_cons_self)
  refine ⟨declared P ('S' :: "T  gate_out_".toList ++ id.toList), ?_⟩
  rw [declaredBy, List.flatMap_cons, List.flatMap_singleton, hload, hstore, hcopy]

/-- The lines of a gate are refused, or declare every name twice. -/
theorem OfLogicGates.declaredBy_emitNode (h : graph.OfLogicGates) {node : Node}
    (hn : node ∈ graph.nodes) (haccepted : AllAccepted P (graph.emitNode node)) :
    ∃ names, declaredBy P (graph.emitNode node) = names ++ names := by
  obtain ⟨gateType, hmux, hkind, hin, -⟩ := h node hn
  have hlength : (graph.inputValues node "FALSE").length = _ := length_inputValues node "FALSE"
  have hfold : ∀ op ∈ [IlOp.and, .or, .xor, .st], ∀ v, Plain v →
      .instr op v none ∉ graph.emitNode node := by
    intro op hop v hv hmem
    obtain ⟨token, htoken, hrefused⟩ := exists_not_accepted_instr (P := P) hop hv
    exact hrefused (haccepted _ hmem token htoken)
  have hsecond := h.plain_inputValues node 1
  rw [hin] at hlength
  simp only [emitNode, hkind, emitGateNode] at haccepted hfold ⊢
  cases gateType with
  | mux => exact absurd rfl hmux
  | and =>
      refine absurd ?_ (hfold .and (by decide) _ hsecond)
      rw [gateLines, foldLines, if_pos (show _ = 2 from hlength)]
      simp
  | or =>
      refine absurd ?_ (hfold .or (by decide) _ hsecond)
      rw [gateLines, foldLines, if_pos (show _ = 2 from hlength)]
      simp
  | xor =>
      refine absurd ?_ (hfold .xor (by decide) _ hsecond)
      rw [gateLines]
      simp
  | not =>
      rcases h.plain_outLabel node.id with hplain | hlabel
      · exact absurd (by simp) (hfold .st (by decide) _ hplain)
      · rw [hlabel] at haccepted ⊢
        exact declaredBy_not (h.plain_inputValues node 0) haccepted

/-- The text of gates has no blocks, when all its lines are accepted. -/
theorem OfLogicGates.fbdCompile (h : graph.OfLogicGates) (P : Platform) :
    ∃ reason, Fbd.fbdCompile P (convertGraphToIl graph).ilText = .error reason := by
  have htokens : Fbd.tokenize P (convertGraphToIl graph).ilText =
      (graph.sorted.flatMap graph.emitNode).flatMap fun line => Fbd.tokenize P line.text := by
    rw [convertGraphToIl, tokenize_intercalate, ilLines, List.flatMap_map]
  cases hcompile : Fbd.fbdCompile P (convertGraphToIl graph).ilText with
  | error reason => exact ⟨reason, rfl⟩
  | ok il =>
      obtain ⟨blocks, hblocks⟩ : ∃ blocks,
          parseBlocks P (Fbd.tokenize P (convertGraphToIl graph).ilText) = .ok blocks := by
        rw [Fbd.fbdCompile] at hcompile
        split at hcompile
        · cases hcompile
        · obtain ⟨blocks, hblocks, -⟩ := bind_eq_ok hcompile
          exact ⟨blocks, hblocks⟩
      obtain ⟨hne, hnodup, haccepted⟩ := nodup_blockNames hblocks
      have hnames : blockNames P (Fbd.tokenize P (convertGraphToIl graph).ilText) =
          graph.sorted.flatMap fun node => declaredBy P (graph.emitNode node) := by
        simp only [htokens, blockNames, List.filterMap_flatMap, List.flatMap_assoc, declaredBy,
          declared, String.ofList_toList]
      rw [hnames] at hne hnodup
      refine absurd (List.flatMap_eq_nil_iff.mpr fun node hnode => ?_) hne
      have hall : AllAccepted P (graph.emitNode node) := fun line hline token htoken =>
        haccepted token (htokens ▸ List.mem_flatMap.mpr
          ⟨line, List.mem_flatMap.mpr ⟨node, hnode, hline⟩, htoken⟩)
      obtain ⟨names, htwice⟩ := h.declaredBy_emitNode (mem_nodes_of_mem_sorted hnode) hall
      have hpart := (List.nodup_flatMap.mp hnodup).1 node hnode
      rw [htwice, List.nodup_append] at hpart
      have hnil : names = [] := List.eq_nil_iff_forall_not_mem.mpr fun name hname =>
        hpart.2.2 name hname name hname rfl
      rw [htwice, hnil]
      rfl

end FbdGraph

/-- The first of the compilers refuses every diagram of gates. -/
theorem not_closes (P : Platform) (graph : FbdGraph) (hgates : graph.OfLogicGates) :
    (∃ reason, Fbd.fbdCompile P (convertGraphToIl graph).ilText = .error reason) ∧
      ¬Closes P graph := by
  obtain ⟨reason, hreason⟩ := hgates.fbdCompile P
  refine ⟨⟨reason, hreason⟩, ?_⟩
  rintro ⟨program, hcompile, -⟩
  rw [compileFbd, hreason] at hcompile
  cases Except.ok.inj hcompile

/-- A gate whose output goes to an inverter. -/
def inverted : FbdGraph :=
  ⟨"fbdgraph-1", [(createGate .and 1).1, (createGate .not 2).1],
    [⟨"signal-4", "gate-2", "OUT", "gate-3", "IN"⟩]⟩

theorem not_closes_inverted :
    (∃ reason, Fbd.fbdCompile .exact (convertGraphToIl inverted).ilText = .error reason) ∧
      ¬Closes .exact inverted :=
  not_closes .exact inverted fun n hn => by
    rcases List.mem_pair.mp hn with rfl | rfl
    · exact ⟨.and, nofun, rfl, rfl, rfl⟩
    · exact ⟨.not, nofun, rfl, rfl, rfl⟩

/-- An inverter alone is valid, and refused. -/
theorem single_gate_not_closes :
    ∃ graph : FbdGraph, graph.nodes ≠ [] ∧ (validateGraph graph).valid = true ∧
      graph.OfLogicGates ∧
      Fbd.fbdCompile .exact (convertGraphToIl graph).ilText =
        .error "unrecognized statement: LDN FALSE  (* NOT gate-2 *)" ∧
      ¬Closes .exact graph := by
  have hrefused : Fbd.fbdCompile .exact
      (convertGraphToIl ⟨"fbdgraph-1", [(createGate .not 1).1], []⟩).ilText =
        .error "unrecognized statement: LDN FALSE  (* NOT gate-2 *)" := by
    decide +kernel
  refine ⟨⟨"fbdgraph-1", [(createGate .not 1).1], []⟩, by decide, by decide, ?_, hrefused, ?_⟩
  · intro n hn
    obtain rfl := List.mem_singleton.mp hn
    exact ⟨.not, nofun, rfl, rfl, rfl⟩
  · rintro ⟨program, hcompile, -⟩
    rw [compileFbd, hrefused] at hcompile
    cases Except.ok.inj hcompile

end Weftik.FbdEditor
