import Weftik.Lib.Code
import Weftik.Lib.Outcome
import Weftik.St.Codegen

/-!
# The ST Code Generator Appends

Compiling an expression appends instructions and patches only jumps among them; what stood
before stays as it is, as long as the indices fit into `u32`.

## Main definitions

* `Grows`: a state of the code generator that a compilation leads to.

## Main results

* `grows_compileExpr`: compiling grows.
-/

open Outcome Code

namespace Weftik.St

open Codegen

variable {P : Platform}

/-- The jumps out of the innermost loop are those from before and new ones, which stand
between the indices `n` and `n'`; the outer loops are the same. -/
def ExitsGrow (n n' : ℕ) (exits exits' : List (List UInt32)) (bounded : Prop) : Prop :=
  exits' = exits ∨ ∃ first rest new, exits = first :: rest ∧ exits' = (first ++ new) :: rest ∧
    (bounded → ∀ j ∈ new, n ≤ j.toNat ∧ j.toNat < n')

/-- The second state has more instructions than the first; those of the first are as they
were, when the indices fit into `u32`. -/
structure Grows (cg cg' : Codegen P) : Prop where
  registers : cg'.registers = cg.registers
  varTypes : cg'.varTypes = cg.varTypes
  length_le : cg.instructions.length ≤ cg'.instructions.length
  code : cg'.instructions.length < 2 ^ 32 → cg.instructions <+: cg'.instructions
  exits : ExitsGrow cg.instructions.length cg'.instructions.length cg.loopExits cg'.loopExits
    (cg'.instructions.length < 2 ^ 32)

/-- The index of the next instruction, when it fits into `u32`. -/
theorem currentIdx_toNat {cg : Codegen P} (h : cg.instructions.length < 2 ^ 32) :
    cg.currentIdx.toNat = cg.instructions.length := by
  rw [currentIdx, UInt32.toNat_ofNat']
  exact Nat.mod_eq_of_lt h

/-- Patching some jumps fills holes. -/
theorem patchJumps_eq (cg : Codegen P) (jumps : List UInt32) (t : UInt32) :
    cg.patchJumps jumps t =
      { cg with instructions := fill retarget t cg.instructions (jumps.map UInt32.toNat) } := by
  induction jumps generalizing cg with
  | nil => rfl
  | cons j jumps ih => exact ih (patchJump t cg j)

@[simp] theorem length_patchJumps (cg : Codegen P) (jumps : List UInt32) (t : UInt32) :
    (cg.patchJumps jumps t).instructions.length = cg.instructions.length := by
  rw [patchJumps_eq]
  exact length_fill ..

@[simp] theorem length_patchJump (cg : Codegen P) (j t : UInt32) :
    (patchJump t cg j).instructions.length = cg.instructions.length :=
  length_patchJumps cg [j] t

theorem length_emit (cg : Codegen P) (code : List (Instruction P)) :
    (cg.emit code).instructions.length = cg.instructions.length + code.length :=
  List.length_append

namespace Grows

variable {cg cg₁ cg₂ cg₃ : Codegen P} {t : UInt32} {jumps : List UInt32} {s : ℕ}

theorem refl (cg : Codegen P) : Grows cg cg :=
  ⟨rfl, rfl, le_rfl, fun _ => List.prefix_rfl, Or.inl rfl⟩

theorem trans (h₁ : Grows cg cg₁) (h₂ : Grows cg₁ cg₂) : Grows cg cg₂ := by
  have hle := h₁.length_le
  have hle' := h₂.length_le
  refine ⟨h₂.registers.trans h₁.registers, h₂.varTypes.trans h₁.varTypes, hle.trans hle', ?_, ?_⟩
  · exact fun hlt => (h₁.code (hle'.trans_lt hlt)).trans (h₂.code hlt)
  · rcases h₁.exits with hsame | ⟨first, rest, new, hfirst, hexits, hnew⟩
    · rcases h₂.exits with hsame' | ⟨first', rest', new', hfirst', hexits', hnew'⟩
      · exact Or.inl (hsame'.trans hsame)
      · refine Or.inr ⟨first', rest', new', hsame ▸ hfirst', hexits', fun hlt j hj => ?_⟩
        exact (hnew' hlt j hj).imp_left hle.trans
    · have hnew₁ := fun hlt j hj => (hnew (hle'.trans_lt hlt) j hj).imp_right (·.trans_le hle')
      rcases h₂.exits with hsame' | ⟨first', rest', new', hfirst', hexits', hnew'⟩
      · exact Or.inr ⟨first, rest, new, hfirst, hsame'.trans hexits, hnew₁⟩
      · rw [hexits] at hfirst'
        obtain ⟨rfl, rfl⟩ := List.cons.inj hfirst'
        refine Or.inr ⟨first, rest, new ++ new', hfirst, ?_, fun hlt j hj => ?_⟩
        · rw [hexits', List.append_assoc]
        · rcases List.mem_append.mp hj with hj | hj
          · exact hnew₁ hlt j hj
          · exact (hnew' hlt j hj).imp_left hle.trans

theorem emit (h : Grows cg cg₁) (code : List (Instruction P)) : Grows cg (cg₁.emit code) := by
  refine h.trans ⟨rfl, rfl, ?_, fun _ => List.prefix_append _ _, Or.inl rfl⟩
  rw [Codegen.emit, List.length_append]
  exact Nat.le_add_right _ _

theorem of_emit (cg : Codegen P) (code : List (Instruction P)) : Grows cg (cg.emit code) :=
  (refl cg).emit code

theorem free (h : Grows cg cg₁) (s : ℕ) : Grows cg (cg₁.freeScratch s) := by
  rw [freeScratch]
  split
  · exact ⟨h.registers, h.varTypes, h.length_le, h.code, h.exits⟩
  · exact h

theorem alloc (h : Grows cg cg₁) (halloc : cg₁.allocScratch = .ok (s, cg₂)) : Grows cg cg₂ := by
  rw [allocScratch] at halloc
  split at halloc
  · cases halloc
    exact ⟨h.registers, h.varTypes, h.length_le, h.code, h.exits⟩
  · cases halloc

/-- Patching jumps behind the old instructions. -/
theorem patches (h : Grows cg cg₁) (hjumps : cg₁.instructions.length < 2 ^ 32 →
    ∀ j ∈ jumps, cg.instructions.length ≤ j.toNat) : Grows cg (cg₁.patchJumps jumps t) := by
  rw [patchJumps_eq]
  have hlen : (fill retarget t cg₁.instructions (jumps.map UInt32.toNat)).length =
      cg₁.instructions.length := length_fill ..
  refine ⟨h.registers, h.varTypes, by rw [hlen]; exact h.length_le, ?_, by
    rw [hlen]; exact h.exits⟩
  rw [hlen]
  intro hlt
  obtain ⟨code, hcode⟩ := h.code hlt
  have hholes : ∀ i ∈ jumps.map UInt32.toNat, cg.instructions.length ≤ i := by
    intro i hi
    obtain ⟨j, hj, rfl⟩ := List.mem_map.mp hi
    exact hjumps hlt j hj
  refine ⟨fill retarget t code ((jumps.map UInt32.toNat).map (· - cg.instructions.length)), ?_⟩
  rw [← hcode, fill_append_right t _ _ _ hholes]

/-- Patching a jump behind the old instructions. -/
theorem patch {j : UInt32} (h : Grows cg cg₁)
    (hj : cg₁.instructions.length < 2 ^ 32 → cg.instructions.length ≤ j.toNat) :
    Grows cg (patchJump t cg₁ j) := by
  have hone : Grows cg (cg₁.patchJumps [j] t) := h.patches fun hlt i hi => by
    rw [List.mem_singleton.mp hi]
    exact hj hlt
  exact hone

/-- The index of an instruction that was emitted on the way. -/
theorem le_currentIdx (h₁ : Grows cg cg₁)
    (hle : cg₁.instructions.length ≤ cg₂.instructions.length) :
    cg₂.instructions.length < 2 ^ 32 → cg.instructions.length ≤ cg₁.currentIdx.toNat := by
  intro hlt
  rw [currentIdx_toNat (hle.trans_lt hlt)]
  exact h₁.length_le

/-- Patching a jump that was emitted on the way. -/
theorem patchSince (h₂ : Grows cg cg₂) (h₁ : Grows cg cg₁)
    (hle : cg₁.instructions.length ≤ cg₂.instructions.length) :
    Grows cg (patchJump t cg₂ cg₁.currentIdx) :=
  h₂.patch (h₁.le_currentIdx hle)

end Grows

/-! ### Expressions -/

/-- A comparison grows when its operands do. -/
theorem grows_compileCmp {compileLeft compileRight : ℕ → Compiler P} {op : BinOp}
    (hleft : ∀ {cg cg'} dest, compileLeft dest cg = .ok cg' → Grows cg cg')
    (hright : ∀ {cg cg'} dest, compileRight dest cg = .ok cg' → Grows cg cg')
    {cg cg' : Codegen P} (h : compileCmp compileLeft compileRight op cg = .ok cg') :
    Grows cg cg' := by
  obtain ⟨⟨rs, cg₁⟩, hrs, h⟩ := bind_eq_ok h
  obtain ⟨cg₂, hcg₂, h⟩ := bind_eq_ok h
  obtain ⟨⟨ls, cg₃⟩, hls, h⟩ := bind_eq_ok h
  obtain ⟨cg₄, hcg₄, h⟩ := bind_eq_ok h
  cases h
  have h₂ := ((Grows.refl cg).alloc hrs).trans (hright rs hcg₂)
  exact ((((h₂.alloc hls).trans (hleft ls hcg₄)).emit _).free ls).free rs

/-- Compiling an expression grows. -/
theorem grows_compileExpr {e : Expr P} {dest : ℕ} {cg cg' : Codegen P}
    (h : compileExpr e dest cg = .ok cg') : Grows cg cg' := by
  induction e generalizing dest cg cg' with
  | intLiteral n | realLiteral x | boolLiteral b =>
      cases h
      exact (Grows.refl cg).emit _
  | «variable» name =>
      obtain ⟨src, -, h⟩ := bind_eq_ok h
      split at h
      · cases h
        exact (Grows.refl cg).emit _
      · cases h
        exact Grows.refl cg
  | binary left op right ihl ihr =>
      rw [compileExpr] at h
      split at h
      · obtain ⟨cg₁, hleft, h⟩ := bind_eq_ok h
        obtain ⟨⟨s, cg₂⟩, halloc, h⟩ := bind_eq_ok h
        obtain ⟨cg₃, hright, h⟩ := bind_eq_ok h
        cases h
        exact ((((ihl hleft).alloc halloc).trans (ihr hright)).emit _).free s
      · split at h
        · obtain ⟨cg₁, hcmp, h⟩ := bind_eq_ok h
          cases h
          have h₁ := (grows_compileCmp (fun _ => ihl) (fun _ => ihr) hcmp).emit
            [.loadImm dest (.bool false)]
          exact (h₁.emit _).patchSince h₁ (Grows.of_emit _ _).length_le
        · obtain ⟨⟨s, cg₁⟩, halloc, h⟩ := bind_eq_ok h
          obtain ⟨cg₂, hleft, h⟩ := bind_eq_ok h
          obtain ⟨cg₃, hright, h⟩ := bind_eq_ok h
          cases h
          exact (((((Grows.refl cg).alloc halloc).trans (ihl hleft)).trans (ihr hright)).emit
            _).free s
  | unary op inner ih =>
      cases op with
      | neg =>
          obtain ⟨cg₁, hinner, h⟩ := bind_eq_ok h
          obtain ⟨⟨s, cg₂⟩, halloc, h⟩ := bind_eq_ok h
          cases h
          exact (((ih hinner).alloc halloc).emit _).free s
      | not =>
          obtain ⟨cg₁, hinner, h⟩ := bind_eq_ok h
          cases h
          exact (ih hinner).emit _
  | arrayAccess name index ih =>
      obtain ⟨arrayReg, -, h⟩ := bind_eq_ok h
      obtain ⟨⟨s, cg₁⟩, halloc, h⟩ := bind_eq_ok h
      obtain ⟨cg₂, hindex, h⟩ := bind_eq_ok h
      cases h
      exact ((((Grows.refl cg).alloc halloc).trans (ih hindex)).emit _).free s
  | fieldAccess name field =>
      obtain ⟨reg, -, h⟩ := bind_eq_ok h
      split at h
      · obtain ⟨⟨s, cg₁⟩, halloc, h⟩ := bind_eq_ok h
        cases h
        exact (((Grows.refl cg).alloc halloc).emit _).free s
      · obtain ⟨⟨s, cg₁⟩, halloc, h⟩ := bind_eq_ok h
        cases h
        exact (((Grows.refl cg).alloc halloc).emit _).free s
      · cases h
        exact (Grows.refl cg).emit _
      · cases h
        exact (Grows.refl cg).emit _
      · obtain ⟨⟨s, cg₁⟩, halloc, h⟩ := bind_eq_ok h
        cases h
        exact (((Grows.refl cg).alloc halloc).emit _).free s

/-! ### Conditions -/

/-- A condition without `AND`, `OR` and `NOT` at its top. -/
def Expr.isLeaf : Expr P → Bool
  | .binary _ .and _ | .binary _ .or _ | .unary .not _ => false
  | _ => true

/-- Induction over the `AND`, `OR` and `NOT` of a condition. -/
@[elab_as_elim]
theorem Expr.conditionInduction {motive : Expr P → Prop}
    (leaf : ∀ e, e.isLeaf = true → motive e)
    (and : ∀ left right, motive left → motive right → motive (.binary left .and right))
    (or : ∀ left right, motive left → motive right → motive (.binary left .or right))
    (not : ∀ inner, motive inner → motive (.unary .not inner)) (e : Expr P) : motive e := by
  induction e with
  | binary left op right ihl ihr =>
      cases op with
      | and => exact and left right ihl ihr
      | or => exact or left right ihl ihr
      | _ => exact leaf _ rfl
  | unary op inner ih =>
      cases op with
      | not => exact not inner ih
      | neg => exact leaf _ rfl
  | _ => exact leaf _ rfl

/-- The code of a condition without `AND`, `OR` and `NOT` at its top. -/
theorem compileBoolCond_leaf {e : Expr P} (he : e.isLeaf = true) (cg : Codegen P)
    (elses ends : List UInt32) :
    compileBoolCond e cg elses ends = (do
      let cg ← compileLeaf e cg
      pure (cg.emit [.jumpIf 0], elses ++ [cg.currentIdx], ends)) := by
  cases e with
  | binary left op right => cases op <;> first | rfl | cases he
  | unary op inner => cases op <;> first | rfl | cases he
  | _ => rfl

end Weftik.St
