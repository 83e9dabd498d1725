import Weftik.St.Checks

/-!
# Where the Jumps of ST Conditions Lead

The jumps of a condition lead forward, into the condition or to its end, or they are in one
of the two lists that the statement around the condition patches. Each list that the
condition adds to has a jump, whatever it is patched with.

## Main definitions

* `Codegen.grow`: the state after some instructions with jumps out of a loop.
* `Expr.condChecks`, `Expr.condSize`: the checks and the size of a condition.
* `CondLayout`: the code of a condition as a template, and its jumps.

## Main results

* `compileCondition_layout`: compiling a condition fails as its checks do, and otherwise
  emits code with this layout.
-/

open Outcome Code

namespace Weftik.St

open Codegen

variable {P : Platform}

/-! ### Code and jumps out of a loop -/

namespace Codegen

/-- The state after some instructions, among which there are new jumps out of the innermost
loop. -/
def grow (cg : Codegen P) (code : List (Instruction P)) (new : List UInt32) : Codegen P :=
  { cg.emit code with loopExits := cg.loopExits.modifyHead (· ++ new) }

/-- Is there a loop around the present statement? -/
def inLoop (cg : Codegen P) : Bool := !cg.loopExits.isEmpty

section

variable (cg : Codegen P) (code code' : List (Instruction P)) (new new' : List UInt32)

theorem emit_eq_grow : cg.emit code = cg.grow code [] := by
  cases hexits : cg.loopExits <;> simp [grow, emit, hexits]

theorem grow_grow : (cg.grow code new).grow code' new' = cg.grow (code ++ code') (new ++ new') := by
  cases hexits : cg.loopExits <;> simp [grow, emit, hexits]

theorem grow_emit : (cg.grow code new).emit code' = cg.grow (code ++ code') new := by
  rw [emit_eq_grow, grow_grow, List.append_nil]

theorem emit_grow : (cg.emit code).grow code' new = cg.grow (code ++ code') new := by
  rw [emit_eq_grow, grow_grow, List.nil_append]

theorem length_grow :
    (cg.grow code new).instructions.length = cg.instructions.length + code.length :=
  List.length_append

theorem inLoop_grow : (cg.grow code new).inLoop = cg.inLoop := by
  cases hexits : cg.loopExits <;> simp [grow, inLoop, hexits]

end

/-- The jump after some of the new instructions gets its target. -/
theorem patchJump_grow {cg : Codegen P} {idx : UInt32} {before : List (Instruction P)}
    (hidx : idx.toNat = cg.instructions.length + before.length) (t : UInt32)
    (inst : Instruction P) (after : List (Instruction P)) (new : List UInt32) :
    patchJump t (cg.grow (before ++ ([inst] ++ after)) new) idx =
      cg.grow (before ++ ([retarget t inst] ++ after)) new := by
  have hmodify : (cg.instructions ++ (before ++ ([inst] ++ after))).modify
      (cg.instructions.length + before.length) (retarget t) =
        cg.instructions ++ (before ++ ([retarget t inst] ++ after)) := by
    rw [modify_append_right, ← Nat.add_zero before.length, modify_append_right]
    rfl
  simp only [patchJump, grow, emit, hidx, hmodify]

/-- The holes of the new instructions get their target. -/
theorem patchJumps_grow {cg : Codegen P} {code : UInt32 → UInt32 → List (Instruction P)}
    {elses : List UInt32} {ends : List ℕ}
    (h : Template retarget cg.instructions.length code (elses.map UInt32.toNat) ends)
    (t u t' : UInt32) (after : List (Instruction P)) (new : List UInt32) :
    (cg.grow (code t u ++ after) new).patchJumps elses t' = cg.grow (code t' u ++ after) new := by
  rw [patchJumps_eq]
  exact congrArg (fun insts => { cg.grow (code t' u ++ after) new with instructions := insts })
    (h.fill_elses cg.instructions after t u t' rfl)

theorem Level.emit {cg : Codegen P} {used : ℕ} (h : cg.Level used)
    (code : List (Instruction P)) : (cg.emit code).Level used :=
  ⟨h.first, h.second, h.third⟩

theorem Level.grow {cg : Codegen P} {used : ℕ} (h : cg.Level used)
    (code : List (Instruction P)) (new : List UInt32) : (cg.grow code new).Level used :=
  ⟨h.first, h.second, h.third⟩

end Codegen

/-! ### Conditions -/

/-- The checks of a condition. -/
def Expr.condChecks (n : Names) : Expr P → Except Abort Unit
  | .binary left .and right | .binary left .or right => do
      left.condChecks n
      right.condChecks n
  | .unary .not inner => inner.condChecks n
  | e => e.leafChecks n

/-- The size of the code of a condition. -/
def Expr.condSize (n : Names) : Expr P → ℕ
  | .binary left .and right => left.condSize n + right.condSize n
  | .binary left .or right => left.condSize n + 1 + right.condSize n
  | .unary .not inner => inner.condSize n
  | e => e.leafSize n + 1

theorem Expr.condChecks_leaf {e : Expr P} (he : e.isLeaf = true) (n : Names) :
    e.condChecks n = e.leafChecks n := by
  cases e with
  | binary left op right => cases op <;> first | rfl | cases he
  | unary op inner => cases op <;> first | rfl | cases he
  | _ => rfl

theorem Expr.condSize_leaf {e : Expr P} (he : e.isLeaf = true) (n : Names) :
    e.condSize n = e.leafSize n + 1 := by
  cases e with
  | binary left op right => cases op <;> first | rfl | cases he
  | unary op inner => cases op <;> first | rfl | cases he
  | _ => rfl

/-- The code of a condition, as a function of the targets of its two lists of jumps, that
stands at index `base`; and the indices of these jumps. -/
structure CondLayout (e : Expr P) (base size : ℕ)
    (code : UInt32 → UInt32 → List (Instruction P)) (elses ends : List UInt32) : Prop where
  template : Template retarget base code (elses.map UInt32.toNat) (ends.map UInt32.toNat)
  length : ∀ t u, (code t u).length = size
  /-- Its jumps go to the targets, or forward into the code or behind it. -/
  jumps : ∀ (t u : UInt32) (i : ℕ) (inst : Instruction P) (k : ℕ),
    (code t u)[i]? = some inst → inst.jumpsTo = some k →
    e.holes.1 = true ∧ k = t.toNat ∨ e.holes.2 = true ∧ k = u.toNat ∨
      base + i < k ∧ k ≤ base + size
  calls : ∀ t u, ∀ inst ∈ code t u, inst.opcode ≠ .call
  /-- Each list that is not empty has a jump. -/
  elseJump : e.holes.1 = true → ∀ t u, t.toNat ∈ jumpTargets (code t u)
  endJump : e.holes.2 = true → ∀ t u, u.toNat ∈ jumpTargets (code t u)

namespace CondLayout

variable {e left right : Expr P} {base size size₁ size₂ : ℕ}
  {code code₁ code₂ : UInt32 → UInt32 → List (Instruction P)}
  {elses elses₁ elses₂ ends ends₁ ends₂ : List UInt32}

/-- A comparison or a test, and its jump. -/
theorem leaf {before : List (Instruction P)} {idx : UInt32} (hleaf : e.isLeaf = true)
    (hforward : Forward base (base + before.length) before)
    (hidx : idx.toNat = base + before.length) :
    CondLayout e base (before.length + 1) (fun t _ => before ++ [.jumpIf t]) [idx] [] := by
  refine ⟨?_, fun t u => List.length_append, ?_, ?_, fun _ t u => ?_, fun hend => ?_⟩
  · have hhole : Template retarget (base + before.length)
        (fun t (_ : UInt32) => [(Instruction.jumpIf t : Instruction P)])
        [base + before.length] [] :=
      .hole _ (fun t => Instruction.jumpIf t) fun _ _ => rfl
    have hboth : Template retarget _ _ _ _ :=
      (Template.const base before).append fun _ _ => hhole
    rw [List.map_singleton, hidx]
    exact hboth
  · intro t u i inst k hinst hjumps
    rw [Expr.holes_leaf hleaf]
    rcases Nat.lt_or_ge i before.length with hi | hi
    · rw [List.getElem?_append_left hi] at hinst
      have := hforward.jumps i inst k hinst hjumps
      exact Or.inr (Or.inr ⟨this.1, by omega⟩)
    · rw [List.getElem?_append_right hi] at hinst
      obtain rfl := List.mem_singleton.mp (List.mem_of_getElem? hinst)
      exact Or.inl ⟨rfl, (Option.some.inj hjumps).symm⟩
  · intro t u inst hmem
    rcases List.mem_append.mp hmem with hmem | hmem
    · exact hforward.calls inst hmem
    · rw [List.mem_singleton.mp hmem]
      exact nofun
  · rw [jumpTargets_append]
    exact List.mem_append_right _ List.mem_cons_self
  · rw [Expr.holes_leaf hleaf] at hend
    cases hend

/-- The code of `AND`: one condition after the other. -/
theorem and (h₁ : CondLayout left base size₁ code₁ elses₁ ends₁)
    (h₂ : CondLayout right (base + size₁) size₂ code₂ elses₂ ends₂) :
    CondLayout (.binary left .and right) base (size₁ + size₂)
      (fun t u => code₁ t u ++ code₂ t u) (elses₁ ++ elses₂) (ends₁ ++ ends₂) := by
  refine ⟨?_, fun t u => ?_, ?_, ?_, fun hholes t u => ?_, fun hholes t u => ?_⟩
  · rw [List.map_append, List.map_append]
    exact h₁.template.append fun t u => by rw [h₁.length]; exact h₂.template
  · rw [List.length_append, h₁.length, h₂.length]
  · intro t u i inst k hinst hjumps
    simp only [Expr.holes, Bool.or_eq_true]
    rcases Nat.lt_or_ge i (code₁ t u).length with hi | hi
    · rw [List.getElem?_append_left hi] at hinst
      rcases h₁.jumps t u i inst k hinst hjumps with ⟨hole, hk⟩ | ⟨hole, hk⟩ | hk
      · exact Or.inl ⟨Or.inl hole, hk⟩
      · exact Or.inr (Or.inl ⟨Or.inl hole, hk⟩)
      · exact Or.inr (Or.inr ⟨hk.1, by omega⟩)
    · rw [List.getElem?_append_right hi] at hinst
      rw [h₁.length] at hi hinst
      rcases h₂.jumps t u _ inst k hinst hjumps with ⟨hole, hk⟩ | ⟨hole, hk⟩ | hk
      · exact Or.inl ⟨Or.inr hole, hk⟩
      · exact Or.inr (Or.inl ⟨Or.inr hole, hk⟩)
      · exact Or.inr (Or.inr (by omega))
  · intro t u inst hmem
    rcases List.mem_append.mp hmem with hmem | hmem
    · exact h₁.calls t u inst hmem
    · exact h₂.calls t u inst hmem
  · rw [jumpTargets_append]
    rcases Bool.or_eq_true _ _ ▸ hholes with hole | hole
    · exact List.mem_append_left _ (h₁.elseJump hole t u)
    · exact List.mem_append_right _ (h₂.elseJump hole t u)
  · rw [jumpTargets_append]
    rcases Bool.or_eq_true _ _ ▸ hholes with hole | hole
    · exact List.mem_append_left _ (h₁.endJump hole t u)
    · exact List.mem_append_right _ (h₂.endJump hole t u)

/-- The code of `OR`: a jump of the second list stands between the conditions, and the first
list of the left one leads to the right one. -/
theorem or {idx mid : UInt32} (h₁ : CondLayout left base size₁ code₁ elses₁ ends₁)
    (h₂ : CondLayout right (base + size₁ + 1) size₂ code₂ elses₂ ends₂)
    (hidx : idx.toNat = base + size₁) (hmid : mid.toNat = base + size₁ + 1) :
    CondLayout (.binary left .or right) base (size₁ + 1 + size₂)
      (fun t u => code₁ mid u ++ ([.jump u] ++ code₂ t u)) elses₂
      (ends₁ ++ ([idx] ++ ends₂)) := by
  refine ⟨?_, fun t u => ?_, ?_, ?_, fun hholes t u => ?_, fun _ t u => ?_⟩
  · have hhole : Template retarget (base + size₁)
        (fun (_ : UInt32) u => [(Instruction.jump u : Instruction P)]) [] [base + size₁] :=
      (Template.hole _ (fun u => Instruction.jump u) fun _ _ => rfl).swap
    have hrest : Template retarget _ _ _ _ := hhole.append fun _ _ => h₂.template
    rw [List.map_append, List.map_append, List.map_singleton, hidx]
    exact (h₁.template.close mid).append fun t u => by rw [h₁.length]; exact hrest
  · simp only [List.length_append, h₁.length, h₂.length, List.length_singleton]
    omega
  · intro t u i inst k hinst hjumps
    rw [Expr.holes]
    rcases Nat.lt_or_ge i (code₁ mid u).length with hi | hi
    · rw [List.getElem?_append_left hi] at hinst
      rw [h₁.length] at hi
      rcases h₁.jumps mid u i inst k hinst hjumps with ⟨hole, hk⟩ | ⟨hole, hk⟩ | hk
      · exact Or.inr (Or.inr (by omega))
      · exact Or.inr (Or.inl ⟨rfl, hk⟩)
      · exact Or.inr (Or.inr ⟨hk.1, by omega⟩)
    · rw [List.getElem?_append_right hi] at hinst
      rw [h₁.length] at hi hinst
      rcases hj : i - size₁ with _ | j
      · rw [hj] at hinst
        cases hinst
        exact Or.inr (Or.inl ⟨rfl, (Option.some.inj hjumps).symm⟩)
      · rw [hj] at hinst
        rcases h₂.jumps t u j inst k hinst hjumps with ⟨hole, hk⟩ | ⟨hole, hk⟩ | hk
        · exact Or.inl ⟨hole, hk⟩
        · exact Or.inr (Or.inl ⟨rfl, hk⟩)
        · exact Or.inr (Or.inr (by omega))
  · intro t u inst hmem
    rcases List.mem_append.mp hmem with hmem | hmem
    · exact h₁.calls mid u inst hmem
    · rcases List.mem_cons.mp hmem with rfl | hmem
      · rintro ⟨⟩
      · exact h₂.calls t u inst hmem
  · rw [jumpTargets_append, jumpTargets_append]
    exact List.mem_append_right _ (List.mem_append_right _ (h₂.elseJump hholes t u))
  · rw [jumpTargets_append, jumpTargets_append]
    exact List.mem_append_right _ (List.mem_append_left _ List.mem_cons_self)

/-- The code of `NOT`: the two lists are exchanged. -/
theorem not (h : CondLayout e base size code elses ends) :
    CondLayout (.unary .not e) base size (fun t u => code u t) ends elses where
  template := h.template.swap
  length t u := h.length u t
  jumps t u i inst k hinst hjumps := by
    rw [Expr.holes, Prod.fst_swap, Prod.snd_swap]
    rcases h.jumps u t i inst k hinst hjumps with hk | hk | hk
    · exact Or.inr (Or.inl hk)
    · exact Or.inl hk
    · exact Or.inr (Or.inr hk)
  calls t u := h.calls u t
  elseJump hholes t u := h.endJump hholes u t
  endJump hholes t u := h.elseJump hholes u t

end CondLayout

/-- The first list has got its target. -/
theorem CondLayout.patchElses {e : Expr P} {cg : Codegen P} {size : ℕ}
    {code : UInt32 → UInt32 → List (Instruction P)} {elses ends : List UInt32}
    (h : CondLayout e cg.instructions.length size code elses ends) (t u t' : UInt32)
    (after : List (Instruction P)) :
    (cg.emit (code t u ++ after)).patchJumps elses t' = cg.emit (code t' u ++ after) := by
  rw [emit_eq_grow, emit_eq_grow]
  exact patchJumps_grow h.template t u t' after []

/-- The second list has got its target. -/
theorem CondLayout.patchEnds {e : Expr P} {cg : Codegen P} {size : ℕ}
    {code : UInt32 → UInt32 → List (Instruction P)} {elses ends : List UInt32}
    (h : CondLayout e cg.instructions.length size code elses ends) (t u u' : UInt32)
    (after : List (Instruction P)) :
    (cg.emit (code t u ++ after)).patchJumps ends u' = cg.emit (code t u' ++ after) := by
  rw [emit_eq_grow, emit_eq_grow]
  exact patchJumps_grow h.template.swap u t u' after []

/-- What the code of a condition does when the expression is one, and the variables have
registers of their own. -/
def CondMeans (cg : Codegen P) (e : Expr P) (base : ℕ)
    (code : UInt32 → UInt32 → List (Instruction P)) : Prop :=
  e.isCondition cg.varTypes = true → cg.VarRegsOk → CondRuns cg e base code

namespace CondMeans

variable {cg : Codegen P} {e left right : Expr P} {base size : ℕ}
  {code₁ code₂ : UInt32 → UInt32 → List (Instruction P)}

theorem leaf {before : List (Instruction P)} (hleaf : e.isLeaf = true)
    (h : compileLeaf e cg = .ok (cg.emit before)) :
    CondMeans cg e base (fun t _ => before ++ [.jumpIf t]) := by
  intro he hregs
  obtain ⟨code, hcode, hseq, hsim⟩ := compileLeaf_spec he hleaf hregs h
  obtain rfl : before = code := List.append_cancel_left (congrArg Codegen.instructions hcode)
  exact .leaf hregs hleaf hseq hsim

theorem and (h₁ : CondMeans cg left base code₁) (hlen : ∀ t u, (code₁ t u).length = size)
    (h₂ : CondMeans cg right (base + size) code₂) :
    CondMeans cg (.binary left .and right) base (fun t u => code₁ t u ++ code₂ t u) := by
  intro he hregs
  obtain ⟨hl, hr⟩ := Bool.and_eq_true _ _ ▸ he
  exact (h₁ hl hregs).and hlen (h₂ hr hregs)

theorem or {mid : UInt32} (h₁ : CondMeans cg left base code₁)
    (hlen : ∀ t u, (code₁ t u).length = size) (hmid : mid.toNat = base + size + 1)
    (h₂ : CondMeans cg right (base + size + 1) code₂) :
    CondMeans cg (.binary left .or right) base
      (fun t u => code₁ mid u ++ ([.jump u] ++ code₂ t u)) := by
  intro he hregs
  obtain ⟨hl, hr⟩ := Bool.and_eq_true _ _ ▸ he
  exact (h₁ hl hregs).or hlen hmid (h₂ hr hregs)

end CondMeans

/-- The code of a condition fails as its checks do, and adds its jumps to the two lists. -/
theorem compileBoolCond_layout {e : Expr P} {n : Names} (cg : Codegen P)
    (elses ends : List UInt32) (hlevel : cg.Level 0) (hnames : cg.names = n)
    (hsmall : cg.instructions.length + e.condSize n < 2 ^ 32) :
    Agree (fun p _ => ∃ code elses' ends',
        p = (cg.emit (code 0 0), elses ++ elses', ends ++ ends') ∧
          CondLayout e cg.instructions.length (e.condSize n) code elses' ends' ∧
            CondMeans cg e cg.instructions.length code)
      (compileBoolCond e cg elses ends) (e.condChecks n) := by
  induction e using Expr.conditionInduction generalizing cg elses ends with
  | leaf e he =>
      rw [Expr.condSize_leaf he] at hsmall ⊢
      rw [compileBoolCond_leaf he, Expr.condChecks_leaf he]
      have hleaf := (compileLeaf_emits (e := e) hlevel hnames (by omega)).and_returned
      refine Agree.then_pure hleaf fun cg₁ _ ⟨hcg₁, hok⟩ => ?_
      have hidx : cg₁.currentIdx.toNat = cg.instructions.length + e.leafSize n := by
        rw [currentIdx_toNat (by rw [hcg₁.length]; omega), hcg₁.length]
      obtain ⟨code, rfl, hlen, hforward⟩ := hcg₁
      rw [← hlen] at hforward hidx ⊢
      refine ⟨_, _, _, ?_, CondLayout.leaf he hforward hidx, .leaf he hok⟩
      rw [emit_emit, List.append_nil]
  | and left right ihl ihr =>
      rw [Expr.condSize] at hsmall ⊢
      refine Agree.bind (ihl cg elses ends hlevel hnames (by omega)) fun p _ hp => ?_
      obtain ⟨code₁, elses₁, ends₁, rfl, h₁, hmeans₁⟩ := hp
      have hlen : (cg.emit (code₁ 0 0)).instructions.length =
          cg.instructions.length + left.condSize n := by
        rw [length_emit, h₁.length]
      refine (ihr (cg.emit (code₁ 0 0)) _ _ (hlevel.emit _) hnames
        (by omega)).mono fun q _ hq => ?_
      obtain ⟨code₂, elses₂, ends₂, rfl, h₂, hmeans₂⟩ := hq
      rw [hlen] at h₂ hmeans₂
      refine ⟨_, _, _, ?_, h₁.and h₂, hmeans₁.and h₁.length hmeans₂⟩
      rw [emit_emit, List.append_assoc, List.append_assoc]
  | or left right ihl ihr =>
      rw [Expr.condSize] at hsmall ⊢
      refine Agree.bind (ihl cg [] ends hlevel hnames (by omega)) fun p _ hp => ?_
      obtain ⟨code₁, elses₁, ends₁, rfl, h₁, hmeans₁⟩ := hp
      have hlen : (cg.emit (code₁ 0 0)).instructions.length =
          cg.instructions.length + left.condSize n := by
        rw [length_emit, h₁.length]
      have hidx : (cg.emit (code₁ 0 0)).currentIdx.toNat =
          cg.instructions.length + left.condSize n := by
        rw [currentIdx_toNat (by omega), hlen]
      have hmid : ((cg.emit (code₁ 0 0)).emit [.jump 0]).currentIdx.toNat =
          cg.instructions.length + left.condSize n + 1 := by
        rw [currentIdx_toNat (by rw [length_emit, hlen, List.length_singleton]; omega),
          length_emit, hlen, List.length_singleton]
      dsimp only [emitJump]
      rw [List.nil_append]
      generalize hm : ((cg.emit (code₁ 0 0)).emit [.jump 0]).currentIdx = mid at hmid ⊢
      rw [emit_emit, h₁.patchElses]
      have hlen₂ : (cg.emit (code₁ mid 0 ++ [.jump 0])).instructions.length =
          cg.instructions.length + left.condSize n + 1 := by
        rw [length_emit, List.length_append, h₁.length, List.length_singleton]
        omega
      refine (ihr (cg.emit (code₁ mid 0 ++ [.jump 0])) _ _
        (hlevel.emit _) hnames (by omega)).mono fun q _ hq => ?_
      obtain ⟨code₂, elses₂, ends₂, rfl, h₂, hmeans₂⟩ := hq
      rw [hlen₂] at h₂ hmeans₂
      refine ⟨_, _, _, ?_, h₁.or h₂ hidx hmid, hmeans₁.or h₁.length hmid hmeans₂⟩
      rw [emit_emit, List.append_assoc, List.append_assoc, List.append_assoc]
  | not inner ih =>
      refine Agree.then_pure (ih cg [] [] hlevel hnames hsmall)
        fun p _ hp => ?_
      obtain ⟨code, elses', ends', rfl, h, hmeans⟩ := hp
      exact ⟨fun t u => code u t, ends', elses', rfl, h.not, fun he hregs => (hmeans he hregs).not⟩

/-- Compiling a condition fails as its checks do. -/
theorem compileCondition_layout {e : Expr P} {n : Names} {cg : Codegen P} (hlevel : cg.Level 0)
    (hnames : cg.names = n) (hsmall : cg.instructions.length + e.condSize n < 2 ^ 32) :
    Agree (fun p _ => ∃ code elses ends, p = (cg.emit (code 0 0), elses, ends) ∧
        CondLayout e cg.instructions.length (e.condSize n) code elses ends ∧
          CondMeans cg e cg.instructions.length code)
      (compileCondition e cg) (e.condChecks n) :=
  compileBoolCond_layout cg [] [] hlevel hnames hsmall

end Weftik.St
