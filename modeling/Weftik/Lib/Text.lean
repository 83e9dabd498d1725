import Mathlib

/-!
# Lines and Words of a Text

The functions on text that a line-oriented front end uses, on lists of characters: the
lines of a text, the words of a line, trimming, and case mapping. What counts as white
space and what the capital of a character is are parameters.
-/

namespace Text

/-- The lines of a text. A line feed ends a line, together with a carriage return right
before it; there is no empty line after the last line feed. -/
def lines : List Char → List (List Char)
  | [] => []
  | '\r' :: '\n' :: cs => [] :: lines cs
  | '\n' :: cs => [] :: lines cs
  | c :: cs =>
      match lines cs with
      | [] => [[c]]
      | line :: rest => (c :: line) :: rest

/-- The words of a text, where `current` is the beginning of a word. -/
def wordsAfter (white : Char → Bool) (current : List Char) : List Char → List (List Char)
  | [] => if current = [] then [] else [current]
  | c :: cs =>
      if white c then
        if current = [] then wordsAfter white [] cs else current :: wordsAfter white [] cs
      else wordsAfter white (current ++ [c]) cs

/-- The words of a text: its longest parts without white space. -/
def words (white : Char → Bool) (cs : List Char) : List (List Char) :=
  wordsAfter white [] cs

/-- The text without white space at its two ends. -/
def trim (white : Char → Bool) (cs : List Char) : List Char :=
  (cs.dropWhile white).rdropWhile white

/-- The parts of a text before and after the first place where it has the separator, which
is not empty. -/
def splitOnce (sep : List Char) : List Char → Option (List Char × List Char)
  | [] => none
  | c :: cs =>
      match sep.isPrefixOf? (c :: cs) with
      | some rest => some ([], rest)
      | none => (splitOnce sep cs).map fun p => (c :: p.1, p.2)

attribute [local simp] lines wordsAfter splitOnce

/-! ### Lines that were joined -/

variable {white : Char → Bool}

/-- A character that ends no line belongs to the first one. -/
theorem lines_cons {c : Char} {cs : List Char} (hfeed : c ≠ '\n')
    (hreturn : c = '\r' → cs.head? ≠ some '\n') :
    lines (c :: cs) =
      match lines cs with
      | [] => [[c]]
      | line :: rest => (c :: line) :: rest := by
  rw [lines]
  · rintro cs' hc rfl
    exact hreturn hc rfl
  · exact fun h => hfeed h

/-- The first line of a text goes to the first line feed, with a carriage return before it or
not. -/
theorem exists_lines_append {line : List Char} (hfeed : '\n' ∉ line) (rest : List Char) :
    ∃ line', lines (line ++ '\n' :: rest) = line' :: lines rest ∧
      (line = line' ∨ line = line' ++ ['\r']) := by
  induction line with
  | nil => exact ⟨[], by rw [List.nil_append, lines], Or.inl rfl⟩
  | cons c line ih =>
      rw [List.mem_cons, not_or] at hfeed
      by_cases hreturn : c = '\r' ∧ line = []
      · obtain ⟨rfl, rfl⟩ := hreturn
        exact ⟨[], by rw [List.singleton_append, lines], Or.inr rfl⟩
      · obtain ⟨line', hlines, hline'⟩ := ih hfeed.2
        have hnext : c = '\r' → (line ++ '\n' :: rest).head? ≠ some '\n' := by
          intro hc hhead
          obtain ⟨d, line'', rfl⟩ := List.exists_cons_of_ne_nil fun hnil => hreturn ⟨hc, hnil⟩
          exact hfeed.2 (Option.some.inj hhead ▸ List.mem_cons_self)
        refine ⟨c :: line', ?_, hline'.imp (congrArg _) (congrArg _)⟩
        rw [List.cons_append, lines_cons (Ne.symm hfeed.1) hnext, hlines]

/-- A last line without a line feed. -/
theorem lines_singleton {line : List Char} (hne : line ≠ []) (hfeed : '\n' ∉ line) :
    lines line = [line] := by
  induction line with
  | nil => exact absurd rfl hne
  | cons c line ih =>
      rw [List.mem_cons, not_or] at hfeed
      rw [lines_cons (Ne.symm hfeed.1) fun _ hhead => hfeed.2 (List.mem_of_mem_head? hhead)]
      cases line with
      | nil => rfl
      | cons d line => rw [ih nofun hfeed.2]

/-- A word has characters, and no white space. -/
theorem mem_wordsAfter {current cs w : List Char} (hcurrent : ∀ c ∈ current, white c = false)
    (hw : w ∈ wordsAfter white current cs) : w ≠ [] ∧ ∀ c ∈ w, white c = false := by
  induction cs generalizing current with
  | nil =>
      rw [wordsAfter] at hw
      split at hw
      · cases hw
      · rename_i hne
        obtain rfl := List.mem_singleton.mp hw
        exact ⟨hne, hcurrent⟩
  | cons c cs ih =>
      rw [wordsAfter] at hw
      split at hw
      · split at hw
        · exact ih (List.forall_mem_nil _) hw
        · rename_i hne
          rcases List.mem_cons.mp hw with rfl | hw
          · exact ⟨hne, hcurrent⟩
          · exact ih (List.forall_mem_nil _) hw
      · rename_i hwhite
        refine ih (fun d hd => ?_) hw
        rcases List.mem_append.mp hd with hd | hd
        · exact hcurrent d hd
        · rw [List.mem_singleton.mp hd]
          exact Bool.eq_false_iff.mpr hwhite

theorem mem_words {cs w : List Char} (hw : w ∈ words white cs) :
    w ≠ [] ∧ ∀ c ∈ w, white c = false :=
  mem_wordsAfter (List.forall_mem_nil _) hw

/-- Characters without white space lengthen the word that has begun. -/
theorem wordsAfter_append {w : List Char} (hw : ∀ c ∈ w, white c = false)
    (current rest : List Char) :
    wordsAfter white current (w ++ rest) = wordsAfter white (current ++ w) rest := by
  induction w generalizing current with
  | nil => rw [List.nil_append, List.append_nil]
  | cons c w ih =>
      have hc := hw c List.mem_cons_self
      rw [List.cons_append, wordsAfter, if_neg (by rw [hc]; exact nofun),
        ih fun d hd => hw d (List.mem_cons_of_mem c hd), List.append_assoc,
        List.singleton_append]

/-- The first word begins with the characters before the first white space. -/
theorem exists_words_append {v : List Char} (hv : v ≠ []) (hwhite : ∀ c ∈ v, white c = false)
    (rest : List Char) : ∃ w ws, words white (v ++ rest) = (v ++ w) :: ws := by
  rw [words, wordsAfter_append hwhite, List.nil_append]
  clear hwhite
  induction rest generalizing v with
  | nil => exact ⟨[], [], by rw [wordsAfter, if_neg hv, List.append_nil]⟩
  | cons c rest ih =>
      rw [wordsAfter, if_neg hv]
      split
      · exact ⟨[], _, by rw [List.append_nil]⟩
      · obtain ⟨w, ws, hw⟩ := ih (List.concat_ne_nil c v)
        exact ⟨c :: w, ws, by rw [hw, List.append_assoc, List.singleton_append]⟩

/-- A word with white space after it is the first of the words. -/
theorem words_append {v : List Char} {sep : Char} (hv : v ≠ [])
    (hvwhite : ∀ c ∈ v, white c = false) (hsep : white sep = true) (rest : List Char) :
    words white (v ++ sep :: rest) = v :: words white rest := by
  rw [words, wordsAfter_append hvwhite, List.nil_append, wordsAfter, if_pos hsep, if_neg hv]
  rfl

theorem words_singleton {v : List Char} (hv : v ≠ []) (hvwhite : ∀ c ∈ v, white c = false) :
    words white v = [v] := by
  have hlast := wordsAfter_append hvwhite [] []
  rw [List.append_nil, List.nil_append] at hlast
  rw [words, hlast, wordsAfter, if_neg hv]

/-- The words before white space, and those after it. -/
theorem wordsAfter_append_white {c : Char} (hc : white c = true) (current a b : List Char) :
    wordsAfter white current (a ++ c :: b) = wordsAfter white current a ++ words white b := by
  induction a generalizing current with
  | nil =>
      by_cases hnil : current = []
      · simp [wordsAfter, hc, hnil, words]
      · simp [wordsAfter, hc, hnil, words]
  | cons d a ih =>
      rw [List.cons_append, wordsAfter, wordsAfter, ih, ih]
      by_cases hd : white d = true
      · by_cases hnil : current = []
        · rw [if_pos hd, if_pos hd, if_pos hnil, if_pos hnil]
        · rw [if_pos hd, if_pos hd, if_neg hnil, if_neg hnil]
          rfl
      · rw [if_neg hd, if_neg hd]

theorem words_append_white {c : Char} (hc : white c = true) (a b : List Char) :
    words white (a ++ c :: b) = words white a ++ words white b :=
  wordsAfter_append_white hc [] a b

/-- White space at the end of a text makes no difference to its words. -/
theorem words_rdropWhile (cs : List Char) : words white (cs.rdropWhile white) = words white cs := by
  induction cs using List.reverseRecOn with
  | nil => rfl
  | append_singleton cs c ih =>
      by_cases hc : white c = true
      · rw [List.rdropWhile_concat_pos _ _ _ hc, ih, words_append_white hc]
        exact (List.append_nil _).symm
      · rw [List.rdropWhile_concat_neg _ _ _ hc]

/-! ### Trimming -/

/-- A text without white space has none at its end. -/
theorem rdropWhile_of_forall {cs : List Char} (h : ∀ c ∈ cs, white c = false) :
    cs.rdropWhile white = cs := by
  refine List.rdropWhile_eq_self_iff.mpr fun hne => ?_
  rw [h _ (List.getLast_mem hne)]
  exact nofun

/-- The end of two texts without white space. -/
theorem rdropWhile_append (a b : List Char) :
    (a ++ b).rdropWhile white =
      if b.rdropWhile white = [] then a.rdropWhile white else a ++ b.rdropWhile white := by
  simp only [List.rdropWhile, List.reverse_append, List.dropWhile_append, List.isEmpty_iff,
    List.reverse_eq_nil_iff]
  by_cases hb : b.reverse.dropWhile white = []
  · rw [if_pos hb, if_pos hb]
  · rw [if_neg hb, if_neg hb, List.reverse_append, List.reverse_reverse]

/-- A text that does not begin with white space. -/
theorem rdropWhile_cons {c : Char} (hc : white c = false) (cs : List Char) :
    (c :: cs).rdropWhile white = c :: cs.rdropWhile white := by
  have hself : [c].rdropWhile white = [c] := rdropWhile_of_forall (by simpa using hc)
  rw [← List.singleton_append, rdropWhile_append, hself]
  split
  · rename_i hnil
    rw [hnil]
  · rfl

theorem trim_cons_of_not {c : Char} (hc : white c = false) (cs : List Char) :
    trim white (c :: cs) = c :: cs.rdropWhile white := by
  rw [trim, List.dropWhile_cons_of_neg (by rw [hc]; exact nofun), rdropWhile_cons hc]

/-- A text without white space. -/
theorem trim_of_forall {cs : List Char} (h : ∀ c ∈ cs, white c = false) : trim white cs = cs := by
  cases cs with
  | nil => rfl
  | cons c cs =>
      obtain ⟨hc, hcs⟩ := List.forall_mem_cons.mp h
      rw [trim_cons_of_not hc, rdropWhile_of_forall hcs]

/-- White space at the end of a text. -/
theorem trim_concat {c : Char} (hc : white c = true) (cs : List Char) :
    trim white (cs ++ [c]) = trim white cs := by
  rw [trim, trim, List.dropWhile_append]
  split
  · rename_i hempty
    rw [List.isEmpty_iff.mp hempty, List.dropWhile_cons_of_pos hc]
    rfl
  · exact List.rdropWhile_concat_pos _ _ _ hc

/-- White space at the end of a text makes no difference to the trimmed text. -/
theorem trim_rdropWhile (cs : List Char) :
    trim white (cs.rdropWhile white) = trim white cs := by
  induction cs using List.reverseRecOn with
  | nil => rfl
  | append_singleton cs c ih =>
      by_cases hc : white c = true
      · rw [List.rdropWhile_concat_pos _ _ _ hc, trim_concat hc, ih]
      · rw [List.rdropWhile_concat_neg _ _ _ hc]

/-- A word, white space, and a text, of which nothing may be left. -/
theorem trim_word {v : List Char} {sep : Char} (hv : v ≠ [])
    (hvwhite : ∀ c ∈ v, white c = false) (hsep : white sep = true) (rest : List Char) :
    trim white (v ++ sep :: rest) =
      if rest.rdropWhile white = [] then v else v ++ sep :: rest.rdropWhile white := by
  obtain ⟨c, v', rfl⟩ := List.exists_cons_of_ne_nil hv
  have hc := hvwhite c List.mem_cons_self
  have hself : (c :: v' ++ [sep]).rdropWhile white = c :: v' :=
    (List.rdropWhile_concat_pos _ _ _ hsep).trans (rdropWhile_of_forall hvwhite)
  rw [trim, List.cons_append, List.dropWhile_cons_of_neg (by rw [hc]; exact nofun),
    ← List.cons_append, List.append_cons, rdropWhile_append, hself, List.append_assoc,
    List.singleton_append]

/-! ### The parts around a separator -/

/-- A text is the two parts with the separator between them. -/
theorem eq_of_splitOnce {sep cs a b : List Char} (h : splitOnce sep cs = some (a, b)) :
    cs = a ++ sep ++ b := by
  induction cs generalizing a with
  | nil => cases h
  | cons c cs ih =>
      rw [splitOnce] at h
      split at h
      · rename_i rest hbegins
        obtain ⟨rfl, rfl⟩ := Prod.mk.inj (Option.some.inj h)
        exact (List.append_eq_of_isPrefixOf?_eq_some hbegins).symm
      · obtain ⟨p, hp, heq⟩ := Option.map_eq_some_iff.mp h
        obtain ⟨rfl, rfl⟩ := Prod.mk.inj heq
        rw [ih hp]
        rfl

/-- The part of a text after its last separator. -/
theorem eq_of_append_cons_eq {α : Type} {sep : α} {a b s t : List α} (hs : sep ∉ s)
    (ht : sep ∉ t) (h : a ++ sep :: s = b ++ sep :: t) : s = t := by
  induction a generalizing b with
  | nil =>
      cases b with
      | nil => exact (List.cons.inj h).2
      | cons c b =>
          obtain ⟨-, hs'⟩ := List.cons.inj h
          refine absurd ?_ hs
          rw [show s = b ++ sep :: t from hs']
          exact List.mem_append_right b List.mem_cons_self
  | cons c a ih =>
      cases b with
      | nil =>
          obtain ⟨-, ht'⟩ := List.cons.inj h
          refine absurd ?_ ht
          rw [← show a ++ sep :: s = t from ht']
          exact List.mem_append_right a List.mem_cons_self
      | cons d b => exact ih (List.cons.inj h).2

/-! ### Trimmed lines -/

/-- What the trimmed lines of a text give, when empty lines give nothing: that of the part
before a line feed, and that of the part after it. -/
theorem flatMap_trim_lines_append {β : Type} {g : List Char → List β} (hnil : g [] = [])
    (hreturn : white '\r' = true) (a b : List Char) :
    ((lines (a ++ '\n' :: b)).flatMap fun line => g (trim white line)) =
      ((lines a).flatMap fun line => g (trim white line)) ++
        (lines b).flatMap fun line => g (trim white line) := by
  have hfirst : ∀ line, '\n' ∉ line → ∀ rest,
      ((lines (line ++ '\n' :: rest)).flatMap fun line => g (trim white line)) =
        g (trim white line) ++ (lines rest).flatMap fun line => g (trim white line) := by
    intro line hfeed rest
    obtain ⟨line', hlines, rfl | rfl⟩ := exists_lines_append hfeed rest
    · rw [hlines, List.flatMap_cons]
    · rw [hlines, List.flatMap_cons, trim_concat hreturn]
  induction hn : a.length using Nat.strong_induction_on generalizing a with
  | _ n ih =>
      by_cases hmem : '\n' ∈ a
      · obtain ⟨line, rest, rfl, hfeed⟩ := List.eq_append_cons_of_mem hmem
        have hlt : rest.length < n := by
          rw [← hn, List.length_append, List.length_cons]
          omega
        rw [List.append_assoc, List.cons_append, hfirst line hfeed, hfirst line hfeed,
          ih rest.length hlt rest rfl, List.append_assoc]
      · rw [hfirst a hmem]
        congr 1
        cases a with
        | nil =>
            rw [trim, List.dropWhile_nil, List.rdropWhile_nil, hnil]
            rfl
        | cons c a =>
            rw [lines_singleton (List.cons_ne_nil c a) hmem, List.flatMap_singleton]

end Text
