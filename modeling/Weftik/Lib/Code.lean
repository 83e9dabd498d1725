import Mathlib

/-!
# Fragments of Code, and Code with Holes

`CodeAt code pc fragment` says that the fragment stands in the code at index `pc`. The
correctness of a compiler is stated for a fragment wherever it stands.

A code generator that does not know the target of a jump leaves a hole and remembers its
index. A template is code with two kinds of holes, together with their indices; filling the
holes of one kind gives the code with another target at that kind.

## Main definitions

* `fill`: put a target into the holes with the given indices.
* `Template`: code with two kinds of holes.

## Main results

* `CodeAt.head`, `CodeAt.tail`: the first instruction and the rest.
* `CodeAt.getElem?`, `codeAt_of_getElem?`: any instruction.
* `codeAt_append`: a fragment of two parts.
* `CodeAt.middle`: a part of a concatenation.
* `modify_append_left`, `modify_append_right`: replacing an instruction of a concatenation.
* `Template.append`, `Template.swap`, `Template.close`: templates from templates.
-/

namespace Code

variable {α : Type}

/-- The fragment stands in the code at index `pc`. -/
def CodeAt (code : List α) (pc : ℕ) (fragment : List α) : Prop :=
  fragment <+: code.drop pc

variable {code fragment : List α} {pc : ℕ}

theorem CodeAt.middle (before fragment after : List α) :
    CodeAt (before ++ (fragment ++ after)) before.length fragment := by
  rw [CodeAt, List.drop_left]
  exact List.prefix_append fragment after

/-- The first instruction of a fragment. -/
theorem CodeAt.head {a : α} (h : CodeAt code pc (a :: fragment)) : code[pc]? = some a := by
  obtain ⟨after, hafter⟩ := h
  have hzero : (code.drop pc)[0]? = some a := by rw [← hafter]; rfl
  rwa [List.getElem?_drop] at hzero

/-- The rest of a fragment. -/
theorem CodeAt.tail {a : α} (h : CodeAt code pc (a :: fragment)) :
    CodeAt code (pc + 1) fragment := by
  obtain ⟨after, hafter⟩ := h
  refine ⟨after, ?_⟩
  rw [← List.tail_drop, ← hafter]
  rfl

/-- An instruction of a fragment. -/
theorem CodeAt.getElem? (h : CodeAt code pc fragment) {i : ℕ} (hi : i < fragment.length) :
    code[pc + i]? = fragment[i]? := by
  obtain ⟨after, hafter⟩ := h
  rw [← List.getElem?_drop, ← hafter, List.getElem?_append_left hi]

/-- A fragment stands where its instructions do. -/
theorem codeAt_of_getElem? (h : ∀ i < fragment.length, code[pc + i]? = fragment[i]?) :
    CodeAt code pc fragment := by
  rw [CodeAt, List.prefix_iff_getElem?]
  intro i hi
  rw [List.getElem?_drop, h i hi, List.getElem?_eq_getElem hi]

/-- A fragment of two parts stands where its first part does, with the second part right
after it. -/
theorem codeAt_append {first second : List α} :
    CodeAt code pc (first ++ second) ↔
      CodeAt code pc first ∧ CodeAt code (pc + first.length) second := by
  constructor
  · rintro ⟨after, hafter⟩
    refine ⟨⟨second ++ after, by rw [← hafter, List.append_assoc]⟩, after, ?_⟩
    rw [← List.drop_drop, ← hafter, List.append_assoc, List.drop_left]
  · rintro ⟨⟨after, hafter⟩, rest, hrest⟩
    refine ⟨rest, ?_⟩
    rw [← List.drop_drop, ← hafter, List.drop_left] at hrest
    rw [List.append_assoc, hrest, hafter]

/-! ### Replacing an instruction -/

/-- Replacing an instruction of the second part of some code. -/
theorem modify_append_right (a b : List α) (i : ℕ) (f : α → α) :
    (a ++ b).modify (a.length + i) f = a ++ b.modify i f := by
  induction a with
  | nil => rw [List.length_nil, Nat.zero_add]; rfl
  | cons x a ih =>
      rw [List.length_cons, Nat.add_right_comm]
      exact congrArg (x :: ·) ih

end Code

namespace Code

/-! ### Holes -/

variable {α τ : Type} {retarget : τ → α → α}

/-- Put a target into the holes with the given indices. -/
def fill (retarget : τ → α → α) (t : τ) (code : List α) (holes : List ℕ) : List α :=
  holes.foldl (fun code i => code.modify i (retarget t)) code

@[simp] theorem length_fill (t : τ) (code : List α) (holes : List ℕ) :
    (fill retarget t code holes).length = code.length := by
  induction holes generalizing code with
  | nil => rfl
  | cons i holes ih => exact (ih _).trans (List.length_modify _ _ _)

theorem fill_append (t : τ) (code : List α) (a b : List ℕ) :
    fill retarget t code (a ++ b) = fill retarget t (fill retarget t code a) b :=
  List.foldl_append

/-- Holes beyond some code leave it alone. -/
theorem fill_append_right (t : τ) (before code : List α) (holes : List ℕ)
    (h : ∀ i ∈ holes, before.length ≤ i) :
    fill retarget t (before ++ code) holes =
      before ++ fill retarget t code (holes.map (· - before.length)) := by
  induction holes generalizing code with
  | nil => rfl
  | cons i holes ih =>
      have hi : before.length + (i - before.length) = i :=
        Nat.add_sub_cancel' (h i List.mem_cons_self)
      have hstep : (before ++ code).modify i (retarget t) =
          before ++ code.modify (i - before.length) (retarget t) := by
        rw [← modify_append_right, hi]
      rw [fill, List.foldl_cons, hstep]
      exact ih _ fun j hj => h j (List.mem_cons_of_mem i hj)

/-- Code with two kinds of holes, as a function of their targets, that stands at index
`base`; and the indices of the holes. -/
structure Template (retarget : τ → α → α) (base : ℕ) (code : τ → τ → List α)
    (elses ends : List ℕ) : Prop where
  length_eq : ∀ t e t' e', (code t e).length = (code t' e').length
  fill_elses : ∀ before after t e t', before.length = base →
    fill retarget t' (before ++ (code t e ++ after)) elses = before ++ (code t' e ++ after)
  fill_ends : ∀ before after t e e', before.length = base →
    fill retarget e' (before ++ (code t e ++ after)) ends = before ++ (code t e' ++ after)

namespace Template

variable {base : ℕ} {code code₁ code₂ : τ → τ → List α} {elses elses₁ elses₂ : List ℕ}
  {ends ends₁ ends₂ : List ℕ}

/-- Code without holes. -/
theorem const (base : ℕ) (code : List α) :
    Template retarget base (fun _ _ => code) [] [] :=
  ⟨fun _ _ _ _ => rfl, fun _ _ _ _ _ _ => rfl, fun _ _ _ _ _ _ => rfl⟩

/-- The two kinds of holes exchanged. -/
theorem swap (h : Template retarget base code elses ends) :
    Template retarget base (fun t e => code e t) ends elses where
  length_eq t e t' e' := h.length_eq e t e' t'
  fill_elses before after t e t' := h.fill_ends before after e t t'
  fill_ends before after t e e' := h.fill_elses before after e t e'

/-- An instruction with a hole of the first kind. -/
theorem hole (base : ℕ) (inst : τ → α) (hinst : ∀ t t', retarget t' (inst t) = inst t') :
    Template retarget base (fun t _ => [inst t]) [base] [] where
  length_eq _ _ _ _ := rfl
  fill_elses before after t e t' hbefore := by
    rw [← hbefore, fill, List.foldl_cons, List.foldl_nil, ← Nat.add_zero before.length,
      modify_append_right, List.singleton_append, List.singleton_append, ← hinst t t']
    rfl
  fill_ends _ _ _ _ _ _ := rfl

/-- A template after another. -/
theorem append (h₁ : Template retarget base code₁ elses₁ ends₁)
    (h₂ : ∀ t e, Template retarget (base + (code₁ t e).length) code₂ elses₂ ends₂) :
    Template retarget base (fun t e => code₁ t e ++ code₂ t e) (elses₁ ++ elses₂)
      (ends₁ ++ ends₂) where
  length_eq t e t' e' := by
    rw [List.length_append, List.length_append, h₁.length_eq t e t' e',
      (h₂ t e).length_eq t e t' e']
  fill_elses before after t e t' hbefore := by
    rw [fill_append, List.append_assoc, h₁.fill_elses _ _ _ _ _ hbefore, ← List.append_assoc,
      (h₂ t' e).fill_elses _ _ _ _ _ (by rw [List.length_append, hbefore]),
      List.append_assoc, List.append_assoc]
  fill_ends before after t e e' hbefore := by
    rw [fill_append, List.append_assoc, h₁.fill_ends _ _ _ _ _ hbefore, ← List.append_assoc,
      (h₂ t e').fill_ends _ _ _ _ _ (by rw [List.length_append, hbefore]),
      List.append_assoc, List.append_assoc]

/-- The holes of the first kind have got their target. -/
theorem close (h : Template retarget base code elses ends) (t : τ) :
    Template retarget base (fun _ e => code t e) [] ends where
  length_eq _ e _ e' := h.length_eq t e t e'
  fill_elses _ _ _ _ _ _ := rfl
  fill_ends before after _ e e' := h.fill_ends before after t e e'

end Template

end Code
