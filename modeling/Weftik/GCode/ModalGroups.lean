import Weftik.GCode.Parser

/-!
# Modal Groups

The words of a block belong to modal groups: a block may set the distance mode, the plane and
the units, start the spindle and move. What words of different groups set is kept apart, so a
block with one word of each group does not depend on their order.

## Main definitions

* `ModalGroup`, `Token.group`: the modal groups, and the group of a word.
* `ModalState.apply`, `wordCode`: what a word does on a line of its own.
* `stateOf`, `wordsCode`: the same for several words.

## Main results

* `stateOf_filter_iff`, `wordsCode_filter_iff`: when some of the words can be dropped.
-/

namespace Weftik.GCode

variable {P : Platform}

/-! ### Modal groups -/

/-- The modal groups. -/
inductive ModalGroup
  | distance | motion | plane | units | m
  deriving DecidableEq, Repr

namespace Token

/-- The modal group of a word. -/
def group : Token P → Option ModalGroup
  | .g n =>
      if n ≤ 3 then some .motion
      else if n = 17 ∨ n = 18 ∨ n = 19 then some .plane
      else if n = 20 ∨ n = 21 then some .units
      else if n = 90 ∨ n = 91 then some .distance
      else none
  | .m _ => some .m
  | _ => none

/-- Is the token a word that a motion reads, or the number of its line? -/
def isMoveWord : Token P → Bool
  | .x _ | .y _ | .z _ | .i _ | .j _ | .k _ | .r _ | .f _ | .lineNum _ => true
  | _ => false

/-- Is the token a word of a group other than that of the motions? -/
def isModeWord (tok : Token P) : Bool := tok.group.isSome && tok.group != some .motion

end Token

/-- The numbers of the `G` words that set a mode other than the motion. -/
def IsMode (n : ℕ) : Prop :=
  n = 17 ∨ n = 18 ∨ n = 19 ∨ n = 20 ∨ n = 21 ∨ n = 90 ∨ n = 91

/-- A word of another group is an `M` word or a mode. -/
theorem isModeWord_cases {tok : Token P} (h : tok.isModeWord = true) :
    (∃ n, tok = .m n) ∨ ∃ n, tok = .g n ∧ IsMode n := by
  cases tok with
  | m n => exact Or.inl ⟨n, rfl⟩
  | g n =>
      refine Or.inr ⟨n, rfl, ?_⟩
      simp only [Token.isModeWord, Token.group] at h
      split_ifs at h <;> first | (unfold IsMode; omega) | cases h
  | _ => cases h

/-! ### Words on lines of their own -/

/-- The modal state after a word on a line of its own. -/
def ModalState.apply (state : ModalState P) : Token P → ModalState P
  | .g n =>
      if n = 17 ∨ n = 18 ∨ n = 19 then { state with plane := n }
      else if n = 20 ∨ n = 21 then { state with unitMode := n }
      else if n = 90 ∨ n = 91 then { state with coordMode := n }
      else state
  | _ => state

/-- The code of an `M` word on a line of its own, if it is supported. -/
def wordCode : Token P → Option (List (Instruction P))
  | .m n =>
      if n = 3 ∨ n = 4 ∨ n = 5 then some (emitSpindle (.ofCodes none (some n) 0))
      else if n = 2 ∨ n = 30 then some (emitProgramControl (.ofCodes none (some n) 0))
      else none
  | _ => some []

/-- The code of several words on lines of their own. -/
def wordsCode : List (LexedToken P) → Option (List (Instruction P))
  | [] => some []
  | tok :: tokens => (wordCode tok.token).bind fun code => (wordsCode tokens).map (code ++ ·)

/-- The mode that a word sets is active. -/
def Repeats (state : ModalState P) : Token P → Prop
  | .g n => state.apply (.g n) = state
  | _ => False

/-- The state after some words. -/
def stateOf (tokens : List (LexedToken P)) (state : ModalState P) : ModalState P :=
  tokens.foldl (fun state tok => state.apply tok.token) state

/-! ### One word of each group -/

/-- A modal state agrees with another one on what the words of a group set. -/
def ModalGroup.get : ModalGroup → ModalState P → ℕ
  | .distance, state => state.coordMode
  | .plane, state => state.plane
  | .units, state => state.unitMode
  | .motion, _ | .m, _ => 0

/-- A word changes the distance mode, the plane and the units at most. -/
theorem apply_frame (state : ModalState P) (tok : Token P) :
    ∃ c p u, state.apply tok = { state with coordMode := c, plane := p, unitMode := u } := by
  cases tok with
  | g n =>
      simp only [ModalState.apply]
      split_ifs <;> exact ⟨_, _, _, rfl⟩
  | _ => exact ⟨_, _, _, rfl⟩

theorem stateOf_frame (tokens : List (LexedToken P)) (state : ModalState P) :
    ∃ c p u, stateOf tokens state =
      { state with coordMode := c, plane := p, unitMode := u } := by
  induction tokens generalizing state with
  | nil => exact ⟨_, _, _, rfl⟩
  | cons tok tokens ih =>
      obtain ⟨c, p, u, hrest⟩ := ih (state.apply tok.token)
      obtain ⟨c', p', u', hfirst⟩ := apply_frame state tok.token
      rw [hfirst] at hrest
      exact ⟨c, p, u, (congrArg (stateOf tokens) hfirst).trans hrest⟩

/-- Words change nothing but what their groups set. -/
theorem stateOf_eq_iff (tokens tokens' : List (LexedToken P)) (state : ModalState P) :
    stateOf tokens state = stateOf tokens' state ↔
      ∀ g : ModalGroup, g.get (stateOf tokens state) = g.get (stateOf tokens' state) := by
  refine ⟨fun h g => by rw [h], fun h => ?_⟩
  obtain ⟨c, p, u, hstate⟩ := stateOf_frame tokens state
  obtain ⟨c', p', u', hstate'⟩ := stateOf_frame tokens' state
  rw [hstate, hstate'] at h ⊢
  obtain rfl : c = c' := h .distance
  obtain rfl : p = p' := h .plane
  obtain rfl : u = u' := h .units
  rfl

variable {g : ModalGroup}

/-- A word does not change what another group sets. -/
theorem get_apply_of_ne {tok : Token P} (h : tok.group ≠ some g) (state : ModalState P) :
    g.get (state.apply tok) = g.get state := by
  cases tok with
  | g n =>
      simp only [Token.group] at h
      simp only [ModalState.apply]
      split_ifs at h ⊢ <;> cases g <;> first | rfl | exact absurd rfl h | omega
  | _ => rfl

/-- A word of a group sets its mode. -/
theorem get_apply_self {n : ℕ} (h : (Token.g n : Token P).group = some g) (hg : g ≠ .motion)
    (state : ModalState P) : g.get (state.apply (.g n)) = n := by
  simp only [Token.group] at h
  simp only [ModalState.apply]
  split_ifs at h ⊢ <;> cases h <;> first | rfl | exact absurd rfl hg

variable {tokens : List (LexedToken P)}

theorem get_stateOf_of_forall_ne (h : ∀ tok ∈ tokens, tok.token.group ≠ some g)
    (state : ModalState P) : g.get (stateOf tokens state) = g.get state := by
  induction tokens generalizing state with
  | nil => rfl
  | cons tok tokens ih =>
      change g.get (stateOf tokens (state.apply tok.token)) = _
      rw [ih fun t ht => h t (List.mem_cons_of_mem _ ht),
        get_apply_of_ne (h tok List.mem_cons_self)]

variable {tok : LexedToken P}

/-- No word after one of a group is of the same group. -/
theorem group_ne_of_oneEach (hone : ((tok :: tokens).filterMap fun tok => tok.token.group).Nodup)
    (hgroup : tok.token.group = some g) : ∀ t ∈ tokens, t.token.group ≠ some g := by
  have hcons : (tok :: tokens).filterMap (fun tok => tok.token.group) =
      g :: tokens.filterMap fun tok => tok.token.group :=
    List.filterMap_cons_some hgroup
  rw [hcons, List.nodup_cons] at hone
  exact fun t ht hsame => hone.1 (List.mem_filterMap.mpr ⟨t, ht, hsame⟩)

/-- With one word of a group, the group is where the word sets it. -/
theorem get_stateOf_of_mem (hone : (tokens.filterMap fun tok => tok.token.group).Nodup)
    (htok : tok ∈ tokens) {n : ℕ} (htoken : tok.token = .g n) (hgroup : tok.token.group = some g)
    (hg : g ≠ .motion) (state : ModalState P) : g.get (stateOf tokens state) = n := by
  induction tokens generalizing state with
  | nil => cases htok
  | cons t tokens ih =>
      change g.get (stateOf tokens (state.apply t.token)) = _
      rcases List.mem_cons.mp htok with rfl | hmem
      · rw [get_stateOf_of_forall_ne (group_ne_of_oneEach hone hgroup)]
        rw [htoken] at hgroup ⊢
        exact get_apply_self hgroup hg state
      · refine ih ?_ hmem _
        exact hone.sublist ((List.sublist_cons_self t tokens).filterMap _)

/-- In a list with one word of each group, a word is the only one of its group. -/
theorem eq_of_group (hone : (tokens.filterMap fun tok => tok.token.group).Nodup)
    {p : LexedToken P → Bool} (htok : tok ∈ tokens) (hp : p tok = true)
    (hgroup : tok.token.group = some g)
    (hsame : ∀ t ∈ tokens, p t = true → t.token.group = some g) : tokens.filter p = [tok] := by
  induction tokens with
  | nil => cases htok
  | cons t tokens ih =>
      have htail := hone.sublist ((List.sublist_cons_self t tokens).filterMap _)
      rcases List.mem_cons.mp htok with rfl | hmem
      · rw [List.filter_cons, if_pos hp, List.filter_eq_nil_iff.mpr]
        exact fun u hu hpu => group_ne_of_oneEach hone hgroup u hu
          (hsame u (List.mem_cons_of_mem _ hu) hpu)
      · have hother : ¬ p t = true := fun hpt =>
          group_ne_of_oneEach hone (hsame t List.mem_cons_self hpt) tok hmem hgroup
        rw [List.filter_cons, if_neg hother]
        exact ih htail hmem fun u hu => hsame u (List.mem_cons_of_mem _ hu)

/-! ### Words that are dropped -/

/-- Words of the same group are the same word. -/
theorem eq_of_group_eq (hone : (tokens.filterMap fun tok => tok.token.group).Nodup)
    {tok' : LexedToken P} (htok : tok ∈ tokens) (htok' : tok' ∈ tokens)
    (hgroup : tok.token.group = some g) (hgroup' : tok'.token.group = some g) : tok' = tok := by
  have hfilter := eq_of_group hone (p := fun t => t.token.group == some g) htok
    (by rw [hgroup]; exact beq_self_eq_true _) hgroup fun t _ ht => beq_iff_eq.mp ht
  have hmem : tok' ∈ tokens.filter fun t => t.token.group == some g :=
    List.mem_filter.mpr ⟨htok', by rw [hgroup']; exact beq_self_eq_true _⟩
  rw [hfilter] at hmem
  exact List.mem_singleton.mp hmem

/-- A word repeats the active mode of its group. -/
theorem repeats_iff {n : ℕ} (hgroup : (Token.g n : Token P).group = some g) (hg : g ≠ .motion)
    (state : ModalState P) : Repeats state (.g n) ↔ g.get state = n := by
  refine ⟨fun h => ?_, fun h => ?_⟩
  · have hget := get_apply_self hgroup hg state
    rwa [show state.apply (.g n) = state from h] at hget
  · subst h
    simp only [Token.group] at hgroup
    simp only [Repeats, ModalState.apply]
    split_ifs at hgroup ⊢ <;> cases hgroup <;> first | rfl | exact absurd rfl hg

/-- A mode word that is no `M` word. -/
theorem exists_group_of_isModeWord {n : ℕ} (h : (Token.g n : Token P).isModeWord = true) :
    ∃ g, (Token.g n : Token P).group = some g ∧ g ≠ .motion := by
  rw [Token.isModeWord, Bool.and_eq_true, bne_iff_ne] at h
  obtain ⟨g, hgroup⟩ := Option.isSome_iff_exists.mp h.1
  exact ⟨g, hgroup, fun hmotion => h.2 (hmotion ▸ hgroup)⟩

/-- The modal state after the words that are kept is that after all words iff the dropped
ones repeat the active modes. -/
theorem stateOf_filter_iff (hone : (tokens.filterMap fun tok => tok.token.group).Nodup)
    (hmode : ∀ tok ∈ tokens, tok.token.isModeWord = true) (p : LexedToken P → Bool)
    (state : ModalState P) :
    stateOf tokens state = stateOf (tokens.filter p) state ↔
      ∀ tok ∈ tokens, p tok = false → ∀ n, tok.token = .g n → Repeats state tok.token := by
  have hfilter := hone.sublist ((List.filter_sublist (p := p)).filterMap _)
  -- where a word of a group is dropped, no word of the group is kept
  have hdropped : ∀ tok ∈ tokens, p tok = false → ∀ g, tok.token.group = some g →
      g.get (stateOf (tokens.filter p) state) = g.get state := by
    intro tok htok hp g hgroup
    refine get_stateOf_of_forall_ne (fun t ht hsame => ?_) state
    obtain ⟨hmem, hpt⟩ := List.mem_filter.mp ht
    rw [eq_of_group_eq hone htok hmem hgroup hsame, hp] at hpt
    cases hpt
  rw [stateOf_eq_iff]
  constructor
  · intro h tok htok hp n htoken
    have hword := hmode tok htok
    rw [htoken] at hword
    obtain ⟨g, hgroup, hg⟩ := exists_group_of_isModeWord hword
    have hgroup' : tok.token.group = some g := by rw [htoken, hgroup]
    rw [htoken, repeats_iff hgroup hg, ← hdropped tok htok hp g hgroup', ← h g]
    exact get_stateOf_of_mem hone htok htoken hgroup' hg state
  · intro h g
    by_cases hword : ∃ tok ∈ tokens, tok.token.group = some g
    · obtain ⟨tok, htok, hgroup⟩ := hword
      rcases isModeWord_cases (hmode tok htok) with ⟨n, htoken⟩ | ⟨n, htoken, -⟩
      · rw [htoken] at hgroup
        obtain rfl := Option.some.inj hgroup
        rfl
      · have hg : g ≠ .motion := by
          rintro rfl
          have hnone := hmode tok htok
          rw [Token.isModeWord, hgroup] at hnone
          cases hnone
        rw [get_stateOf_of_mem hone htok htoken hgroup hg]
        cases hp : p tok with
        | true =>
            exact (get_stateOf_of_mem hfilter (List.mem_filter.mpr ⟨htok, hp⟩) htoken hgroup hg
              state).symm
        | false =>
            have hrepeats := h tok htok hp n htoken
            rw [htoken, repeats_iff (htoken ▸ hgroup) hg] at hrepeats
            rw [hdropped tok htok hp g hgroup, hrepeats]
    · have hnone : ∀ tok ∈ tokens, tok.token.group ≠ some g := fun tok htok hgroup =>
        hword ⟨tok, htok, hgroup⟩
      rw [get_stateOf_of_forall_ne hnone, get_stateOf_of_forall_ne fun tok htok =>
        hnone tok (List.mem_filter.mp htok).1]

theorem wordCode_of_ne {tok : Token P} (h : ∀ n, tok ≠ .m n) : wordCode tok = some [] := by
  cases tok with
  | m n => exact absurd rfl (h n)
  | _ => rfl

/-- An `M` word has code. -/
theorem wordCode_m_ne (n : ℕ) : wordCode (.m n : Token P) ≠ some [] := by
  simp only [wordCode]
  split_ifs with hspindle hcontrol
  · rcases hspindle with rfl | rfl | rfl <;> exact nofun
  · rcases hcontrol with rfl | rfl <;> exact nofun
  · exact nofun

/-- Words without code are no `M` words. -/
theorem wordsCode_eq_nil_iff :
    wordsCode tokens = some [] ↔ ∀ tok ∈ tokens, ∀ n, tok.token ≠ .m n := by
  induction tokens with
  | nil => exact ⟨fun _ => nofun, fun _ => rfl⟩
  | cons tok tokens ih =>
      rw [wordsCode, List.forall_mem_cons, ← ih]
      refine ⟨fun h => ?_, fun h => ?_⟩
      · obtain ⟨code, hcode, hrest⟩ := Option.bind_eq_some_iff.mp h
        obtain ⟨code', hcode', hnil⟩ := Option.map_eq_some_iff.mp hrest
        obtain ⟨rfl, rfl⟩ := List.append_eq_nil_iff.mp hnil
        exact ⟨fun n hn => wordCode_m_ne n (hn ▸ hcode), hcode'⟩
      · rw [wordCode_of_ne h.1, h.2]
        rfl

/-- A word without support makes the others fail. -/
theorem wordsCode_eq_none_iff :
    wordsCode tokens = none ↔ ∃ tok ∈ tokens, wordCode tok.token = none := by
  induction tokens with
  | nil => exact ⟨nofun, nofun⟩
  | cons tok tokens ih =>
      rw [wordsCode, List.exists_mem_cons_iff, ← ih]
      cases wordCode tok.token with
      | none => exact ⟨fun _ => Or.inl rfl, fun _ => rfl⟩
      | some code =>
          rw [Option.bind_some, Option.map_eq_none_iff]
          exact ⟨Or.inr, fun h => h.resolve_left nofun⟩

/-- The code of the words that are kept is that of all words iff no `M` word is dropped. -/
theorem wordsCode_filter_iff (hone : (tokens.filterMap fun tok => tok.token.group).Nodup)
    (p : LexedToken P → Bool) :
    wordsCode tokens = wordsCode (tokens.filter p) ↔
      ∀ tok ∈ tokens, p tok = false → ∀ n, tok.token ≠ .m n := by
  constructor
  · intro h tok htok hp n htoken
    have hgroup : tok.token.group = some .m := by rw [htoken]; rfl
    -- no `M` word is kept
    have hkept : wordsCode (tokens.filter p) = some [] := by
      refine wordsCode_eq_nil_iff.mpr fun t ht k hk => ?_
      obtain ⟨hmem, hpt⟩ := List.mem_filter.mp ht
      rw [eq_of_group_eq hone htok hmem hgroup (by rw [hk]; rfl), hp] at hpt
      cases hpt
    exact wordsCode_eq_nil_iff.mp (h.trans hkept) tok htok n htoken
  · intro h
    clear hone
    induction tokens with
    | nil => rfl
    | cons tok tokens ih =>
        have hrest := ih fun t ht => h t (List.mem_cons_of_mem _ ht)
        rw [wordsCode, List.filter_cons, hrest]
        cases hp : p tok with
        | true => rfl
        | false =>
            rw [wordCode_of_ne (h tok List.mem_cons_self hp)]
            exact Option.map_id'

end Weftik.GCode
