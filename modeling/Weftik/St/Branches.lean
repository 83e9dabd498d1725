import Weftik.St.Comparison
import Weftik.St.Statements

/-!
# The Branches of ST Conditions

`IF`, `WHILE` and `REPEAT` have a condition, and behind its code a jump for the case that it is
false. Where the code of the condition is left by a jump, this jump is passed over. So the
branch that the machine takes is decided by the way in which the code is left: `AND` goes on to
its right operand where the left one falls through, `OR` where the left one jumps by the first
list, and `NOT` exchanges the lists and leaves what falls through as it is.

## Main definitions

* `Form`: the three statements, without their condition.
* `Form.Branches`: the branch is the one of the truth value, and each jump has a target.
* `Form.Decides`: the condition falls through just when it is false, and in a loop none of its
  jumps is in the second list.

## Main results

* `branches_iff_decides`: the first holds of the compiled code just when the second does.
-/

open Outcome Machine Code

namespace Weftik.St

open Codegen

variable {P : Platform}

/-! ### The three statements -/

/-- A statement with a condition, without its condition. -/
inductive Form (P : Platform)
  | ifThenElse (thenBody elseBody : List (Statement P))
  | whileDo (body : List (Statement P))
  | repeatUntil (body : List (Statement P))

namespace Form

variable (n : Names) (e : Expr P) (base : ℕ)

/-- The statement with the condition. -/
def stmt : Form P → Statement P
  | .ifThenElse thenBody elseBody => .ifThenElse e thenBody elseBody
  | .whileDo body => .whileDo e body
  | .repeatUntil body => .repeatUntil body e

/-- Does the statement forget the second list of its condition? -/
def isLoop : Form P → Bool
  | .ifThenElse _ _ => false
  | .whileDo _ | .repeatUntil _ => true

/-- Where the code of the condition stands, for a statement that stands at `base`. -/
def test : Form P → ℕ
  | .ifThenElse _ _ | .whileDo _ => base
  | .repeatUntil body => base + stmtsSize n body

/-- The jump behind the condition. -/
def after (f : Form P) : ℕ := f.test n base + e.condSize n

/-- Where control should go when the condition is true: to the first branch, to the body, or to
the end of a `REPEAT`. -/
def yes (f : Form P) : ℕ := f.after n e base + 1

/-- Where control should go when the condition is false: to the second branch, to the end of a
`WHILE`, or to the start of a `REPEAT`. -/
def no (f : Form P) : ℕ :=
  match f with
  | .ifThenElse thenBody _ => f.yes n e base + stmtsSize n thenBody + 1
  | .whileDo _ => base + (f.stmt e).size n
  | .repeatUntil _ => base

/-- The jump behind the statements that are executed when the condition is true, and its
target. -/
def closing (f : Form P) : Option (ℕ × ℕ) :=
  match f with
  | .ifThenElse thenBody _ =>
      some (f.yes n e base + stmtsSize n thenBody, base + (f.stmt e).size n)
  | .whileDo body => some (f.yes n e base + stmtsSize n body, base)
  | .repeatUntil _ => none

/-- The instruction at the index is one of the statement, and not of a statement in it. -/
def Own (f : Form P) (i : ℕ) : Prop :=
  f.test n base ≤ i ∧ i < f.yes n e base ∨ ∃ t, f.closing n e base = some (i, t)

end Form

namespace Form

variable (f : Form P) (n : Names) (e : Expr P) (base : ℕ)

theorem no_ne_yes : f.no n e base ≠ f.yes n e base := by
  cases f with
  | ifThenElse thenBody elseBody =>
      simp only [no, yes, after, test]
      omega
  | whileDo body =>
      simp only [no, yes, after, test, stmt, Statement.size]
      omega
  | repeatUntil body =>
      simp only [no, yes, after, test]
      omega

/-- The code of the condition, and the jump behind it, are in the statement. -/
theorem yes_le : base ≤ f.test n base ∧ f.yes n e base ≤ base + (f.stmt e).size n := by
  cases f with
  | ifThenElse thenBody elseBody =>
      simp only [yes, after, test, stmt, Statement.size]
      omega
  | whileDo body =>
      simp only [yes, after, test, stmt, Statement.size]
      omega
  | repeatUntil body =>
      simp only [yes, after, test, stmt, Statement.size]
      omega

theorem no_le : base ≤ f.no n e base ∧ f.no n e base ≤ base + (f.stmt e).size n := by
  cases f with
  | ifThenElse thenBody elseBody =>
      simp only [no, yes, after, test, stmt, Statement.size]
      omega
  | whileDo body =>
      simp only [no, stmt, Statement.size]
      omega
  | repeatUntil body =>
      simp only [no]
      omega

theorem closing_le {i t : ℕ} (h : f.closing n e base = some (i, t)) :
    base ≤ t ∧ t ≤ base + (f.stmt e).size n := by
  cases f with
  | ifThenElse thenBody elseBody =>
      cases h
      exact ⟨Nat.le_add_right _ _, le_rfl⟩
  | whileDo body =>
      cases h
      exact ⟨le_rfl, Nat.le_add_right _ _⟩
  | repeatUntil body => cases h

end Form

/-! ### The branch, and the jumps -/

/-- The machine leaves the code from `test` to `after`, and goes to `k`, at once or by the
instruction at `after`. -/
def GoesTo (program : List (Instruction P)) (test after : ℕ) (vm : Vm P) (k : ℕ) : Prop :=
  ∃ vm₁, Exec (within (fun v => decide (test ≤ v.ip ∧ v.ip < after)) (Vm.step program)) vm
      (.ok vm₁) ∧
    if vm₁.ip = after then ∃ vm₂, Vm.step program vm₁ = .next vm₂ ∧ vm₂.ip = k else vm₁.ip = k

/-- The machine goes to one index only. -/
theorem GoesTo.unique {program : List (Instruction P)} {test after : ℕ} {vm : Vm P} {k k' : ℕ}
    (h : GoesTo program test after vm k) (h' : GoesTo program test after vm k') : k = k' := by
  obtain ⟨vm₁, hexec, hk⟩ := h
  obtain ⟨vm₁', hexec', hk'⟩ := h'
  obtain rfl := Except.ok.inj (hexec.deterministic hexec')
  split at hk
  next hafter =>
    rw [if_pos hafter] at hk'
    obtain ⟨vm₂, hstep, rfl⟩ := hk
    obtain ⟨vm₂', hstep', rfl⟩ := hk'
    rw [Result.next.inj (hstep.symm.trans hstep')]
  next hafter =>
    rw [if_neg hafter] at hk'
    exact hk.symm.trans hk'

namespace Form

variable (f : Form P) (e : Expr P)

/-- The jumps of the statement lead into the statement or right behind it, and none of them is
left at its placeholder. -/
structure Patched (n : Names) (base : ℕ) (program : List (Instruction P)) : Prop where
  inside : ∀ (i : ℕ) (inst : Instruction P) (t : ℕ), f.Own n e base i →
    program[i]? = some inst → inst.jumpsTo = some t → base ≤ t ∧ t ≤ base + (f.stmt e).size n
  condition : ∀ (i : ℕ) (inst : Instruction P) (t : ℕ), f.test n base ≤ i →
    i < f.after n e base → program[i]? = some inst → inst.jumpsTo = some t → t ≠ 0
  after : JumpsAt program (f.after n e base) (f.no n e base)
  closing : ∀ i t, f.closing n e base = some (i, t) → JumpsAt program i t

/-- The machine that comes to the condition takes the branch of its truth value, and the jumps
of the statement have got their targets. -/
structure Branches (cg : Codegen P) (program : List (Instruction P)) (vm : Vm P) : Prop where
  branch : ∀ b, e.truth cg.varTypes (cg.contents vm) = some b →
    GoesTo program (f.test cg.names cg.instructions.length)
      (f.after cg.names e cg.instructions.length) vm
      (if b then f.yes cg.names e cg.instructions.length
        else f.no cg.names e cg.instructions.length)
  patched : f.Patched e cg.names cg.instructions.length program

/-- The code of the condition falls through just when the condition is false, and there are no
jumps that the statement forgets. -/
structure Decides (varTypes : String → Option VarType) (env : String → HalValue P) : Prop where
  falls : ∀ b, e.truth varTypes env = some b →
    ∃ w, e.way varTypes env = .ok w ∧ (w = .fall ↔ b = false)
  forgets : f.isLoop = true → e.holes.2 = false

end Form

/-! ### The compiled statement -/

/-- The code of some statements, wherever their functions stand. -/
theorem compileStmts_placed (n : Names) (stmts : List (Statement P)) :
    StmtsPlaces n (fun _ _ => False) stmts :=
  compileStmts_places (fun _ h => h) stmts

/-- The compiled statement tests its condition, and the branch that is executed when the
condition is true ends as it should. -/
theorem Form.tests {f : Form P} {e : Expr P} {cg cg' : Codegen P} (hlevel : cg.Level 0)
    (hsmall : cg.instructions.length + (f.stmt e).size cg.names < 2 ^ 32)
    (h : compileStmt (f.stmt e) cg = .ok cg') :
    cg.Tests cg' e (f.test cg.names cg.instructions.length)
        (f.no cg.names e cg.instructions.length) f.isLoop ∧
      ∀ i t, f.closing cg.names e cg.instructions.length = some (i, t) →
        JumpsAt cg'.instructions i t := by
  cases f with
  | ifThenElse thenBody elseBody =>
      have hcode := ifThenElse_code (compileStmts_placed cg.names thenBody)
        (compileStmts_placed cg.names elseBody) hlevel rfl hsmall
      obtain ⟨-, -, -, htests, hclosing⟩ := hcode.of_ok_left h
      refine ⟨htests, fun i t hit => ?_⟩
      cases hit
      exact hclosing
  | whileDo body =>
      have hcode := whileDo_code (compileStmts_placed cg.names body) hlevel rfl hsmall
      obtain ⟨-, -, -, htests, hclosing⟩ := hcode.of_ok_left h
      refine ⟨htests, fun i t hit => ?_⟩
      cases hit
      exact hclosing
  | repeatUntil body =>
      have hcode := repeatUntil_code (compileStmts_placed cg.names body) hlevel rfl hsmall
      obtain ⟨-, -, -, htests⟩ := hcode.of_ok_left h
      exact ⟨htests, fun _ _ => nofun⟩

section

variable {e : Expr P} {cg cg' : Codegen P} {test no : ℕ} {forgets : Bool}
  {program : List (Instruction P)}

/-- The code of the condition in a program that has these instructions. -/
theorem Codegen.Tests.standsIn (h : cg.Tests cg' e test no forgets)
    (hprogram : ∀ i, test ≤ i → i < test + e.condSize cg.names + 1 →
      program[i]? = cg'.instructions[i]?) :
    cg.Tests { cg' with instructions := program } e test no forgets := by
  obtain ⟨C, elses, ends, yes, out, hlayout, hmeans, hyes, hout, hcode⟩ := h
  refine ⟨C, elses, ends, yes, out, hlayout, hmeans, hyes, hout,
    codeAt_of_getElem? fun i hi => ?_⟩
  rw [← hcode.getElem? hi]
  rw [List.length_append, hlayout.length, List.length_singleton] at hi
  exact hprogram _ (Nat.le_add_right ..) (by omega)

/-- The machine follows the way in which the code of the condition is left, to one of the two
branches. -/
theorem Codegen.Tests.goesTo_iff (h : cg.Tests cg' e test no forgets) (hregs : cg.VarRegsOk)
    (he : e.isCondition cg.varTypes = true) {vm : Vm P} (hip : vm.ip = test)
    {env : String → HalValue P} (henv : cg.Holds env vm)
    (hforgets : forgets = true → e.holes.2 = false)
    (hno : no ≠ test + e.condSize cg.names + 1) (b : Bool) :
    GoesTo cg'.instructions test (test + e.condSize cg.names) vm
        (if b then test + e.condSize cg.names + 1 else no) ↔
      ∃ w, e.way cg.varTypes env = .ok w ∧ (w = .fall ↔ b = false) := by
  obtain ⟨C, elses, ends, yes, out, hlayout, hmeans, hyes, hout, hcode⟩ := h
  generalize e.condSize cg.names = m at hlayout hyes hno ⊢
  obtain ⟨hcond, hjump⟩ := codeAt_append.mp hcode
  rw [hlayout.length] at hjump
  have hfollows := hmeans he hregs yes _ cg'.instructions
    (within (fun v => decide (test ≤ v.ip ∧ v.ip < test + m)) (Vm.step cg'.instructions)) env vm
    hcond hip henv fun vm' hle hlt => by
      rw [hlayout.length] at hlt
      exact within_of_inside (decide_eq_true ⟨hle, hlt⟩)
  rw [hlayout.length, hyes] at hfollows
  cases hway : e.way cg.varTypes env with
  | error p =>
      rw [hway] at hfollows
      refine iff_of_false ?_ (by rintro ⟨w, hw, -⟩; cases hw)
      rintro ⟨vm₁, hexec, -⟩
      cases hexec.deterministic hfollows
  | ok w =>
      rw [hway] at hfollows
      obtain ⟨vm₁, hsteps, hip₁, -⟩ := hfollows
      have hgoes : GoesTo cg'.instructions test (test + m) vm
          (if w = .fall then no else test + m + 1) := by
        have hend : w = .toEnd → forgets = false := fun hw => by
          cases hf : forgets with
          | false => rfl
          | true => cases (hforgets hf).symm.trans ((Expr.holes_of_way hway).2 hw)
        by_cases hw : w = .fall
        · subst hw
          have hip₁ : vm₁.ip = test + m := hip₁
          refine ⟨vm₁, Exec.of_steps hsteps (exec_within (decide_eq_false (by omega))), ?_⟩
          have hinst : cg'.instructions[vm₁.ip]? = some (.jump out) := by
            rw [hip₁]
            exact hjump.head
          rw [if_pos hip₁, if_pos rfl]
          exact ⟨_, step_jump hinst, hout⟩
        · have hip₁ : vm₁.ip = test + m + 1 := by
            cases w with
            | fall => exact absurd rfl hw
            | toElse => exact hip₁
            | toEnd =>
                rw [hend rfl] at hip₁
                exact hip₁.trans hyes
          refine ⟨vm₁, Exec.of_steps hsteps (exec_within (decide_eq_false (by omega))), ?_⟩
          rw [if_neg (by omega), if_neg hw]
          exact hip₁
      constructor
      · intro hb
        refine ⟨w, rfl, ?_⟩
        have hto := hb.unique hgoes
        cases b with
        | false =>
            refine iff_of_true (by_contra fun hw => ?_) rfl
            rw [if_neg hw] at hto
            exact hno hto
        | true =>
            refine iff_of_false (fun hw => ?_) nofun
            rw [if_pos hw] at hto
            exact hno hto.symm
      · rintro ⟨w', hw', hiff⟩
        obtain rfl := Except.ok.inj hw'
        cases b with
        | false => rwa [if_pos (hiff.mpr rfl)] at hgoes
        | true => rwa [if_neg fun hw => nomatch hiff.mp hw] at hgoes

/-- What the jumps of the condition, and the one behind it, lead to. -/
theorem Codegen.Tests.jumps (h : cg.Tests cg' e test no forgets) :
    JumpsAt cg'.instructions (test + e.condSize cg.names) no ∧
      (forgets = true → e.holes.2 = true → ∃ i, test ≤ i ∧ i < test + e.condSize cg.names ∧
        JumpsAt cg'.instructions i 0) ∧
      ∀ (i : ℕ) (inst : Instruction P) (t : ℕ), test ≤ i → i < test + e.condSize cg.names →
        cg'.instructions[i]? = some inst → inst.jumpsTo = some t →
        t = test + e.condSize cg.names + 1 ∨ forgets = true ∧ e.holes.2 = true ∨
          i < t ∧ t ≤ test + e.condSize cg.names := by
  obtain ⟨C, elses, ends, yes, out, hlayout, -, hyes, hout, hcode⟩ := h
  generalize e.condSize cg.names = m at hlayout hyes ⊢
  obtain ⟨hcond, hjump⟩ := codeAt_append.mp hcode
  rw [hlayout.length] at hjump
  refine ⟨⟨.jump out, hjump.head, congrArg some hout⟩, fun hf hole => ?_, ?_⟩
  · rw [if_pos hf] at hcond
    obtain ⟨i, inst, hinst, hjumps⟩ := mem_jumpTargets.mp (hlayout.endJump hole yes 0)
    have hi := (List.getElem?_eq_some_iff.mp hinst).1
    rw [← hcond.getElem? hi] at hinst
    rw [hlayout.length] at hi
    exact ⟨test + i, Nat.le_add_right .., by omega, inst, hinst, hjumps⟩
  · intro i inst t hle hlt hinst hjumps
    obtain ⟨k, rfl⟩ := Nat.exists_eq_add_of_le hle
    rw [hcond.getElem? (by rw [hlayout.length]; omega)] at hinst
    rcases hlayout.jumps _ _ k inst t hinst hjumps with ⟨-, rfl⟩ | ⟨hole, rfl⟩ | hforward
    · exact Or.inl hyes
    · cases forgets with
      | true => exact Or.inr (Or.inl ⟨rfl, hole⟩)
      | false => exact Or.inl hyes
    · exact Or.inr (Or.inr hforward)

end

section

variable {f : Form P} {e : Expr P} {cg cg' : Codegen P} {program : List (Instruction P)}

/-- The instructions of the statement stand in the program. -/
def Form.StandsIn (f : Form P) (e : Expr P) (cg cg' : Codegen P)
    (program : List (Instruction P)) : Prop :=
  ∀ i, f.Own cg.names e cg.instructions.length i → program[i]? = cg'.instructions[i]?

theorem Form.patched_iff (hlevel : cg.Level 0)
    (hsmall : cg.instructions.length + (f.stmt e).size cg.names < 2 ^ 32)
    (h : compileStmt (f.stmt e) cg = .ok cg') (hprogram : f.StandsIn e cg cg' program) :
    f.Patched e cg.names cg.instructions.length program ↔
      (f.isLoop = true → e.holes.2 = false) := by
  obtain ⟨htests, hclosing⟩ := f.tests hlevel hsmall h
  obtain ⟨hafter, hforgotten, hjumps⟩ :=
    (htests.standsIn fun i hle hlt => hprogram i (Or.inl ⟨hle, hlt⟩)).jumps
  have hyes := f.yes_le cg.names e cg.instructions.length
  have hno := f.no_le cg.names e cg.instructions.length
  have hclosing' : ∀ i t, f.closing cg.names e cg.instructions.length = some (i, t) →
      JumpsAt program i t := fun i t hit => by
    obtain ⟨inst, hinst, ht⟩ := hclosing i t hit
    exact ⟨inst, (hprogram i (Or.inr ⟨t, hit⟩)).trans hinst, ht⟩
  constructor
  · intro hpatched hloop
    by_contra hole
    obtain ⟨i, hle, hlt, inst, hinst, hzero⟩ := hforgotten hloop (Bool.eq_true_of_not_eq_false hole)
    exact hpatched.condition i inst 0 hle hlt hinst hzero rfl
  · intro hforgets
    have hcondition : ∀ (i : ℕ) (inst : Instruction P) (t : ℕ),
        f.test cg.names cg.instructions.length ≤ i →
        i < f.after cg.names e cg.instructions.length → program[i]? = some inst →
        inst.jumpsTo = some t →
        i < t ∧ t ≤ f.yes cg.names e cg.instructions.length := by
      intro i inst t hle hlt hinst ht
      rcases hjumps i inst t hle hlt hinst ht with rfl | ⟨hloop, hole⟩ | ⟨hit, hle'⟩
      · exact ⟨Nat.lt_succ_of_lt hlt, le_rfl⟩
      · cases hole.symm.trans (hforgets hloop)
      · exact ⟨hit, Nat.le_succ_of_le hle'⟩
    refine ⟨?_, fun i inst t hle hlt hinst ht => ?_, hafter, hclosing'⟩
    · rintro i inst t (⟨hle, hlt⟩ | ⟨t', hit⟩) hinst ht
      · rcases Nat.lt_succ_iff_lt_or_eq.mp hlt with hlt | rfl
        · have := hcondition i inst t hle hlt hinst ht
          omega
        · obtain ⟨inst', hinst', ht'⟩ := hafter
          obtain rfl := Option.some.inj (hinst.symm.trans hinst')
          obtain rfl := Option.some.inj (ht.symm.trans ht')
          exact hno
      · obtain ⟨inst', hinst', ht'⟩ := hclosing' i t' hit
        obtain rfl := Option.some.inj (hinst.symm.trans hinst')
        obtain rfl := Option.some.inj (ht.symm.trans ht')
        exact f.closing_le _ _ _ hit
    · have := hcondition i inst t hle hlt hinst ht
      omega

/-- The compiled statement takes the branch of its condition and has all jumps patched just
when the code of the condition decides it. -/
theorem branches_iff_decides (hlevel : cg.Level 0) (hregs : cg.VarRegsOk)
    (hsmall : cg.instructions.length + (f.stmt e).size cg.names < 2 ^ 32)
    (he : e.isCondition cg.varTypes = true) (h : compileStmt (f.stmt e) cg = .ok cg')
    (hprogram : f.StandsIn e cg cg' program) {vm : Vm P}
    (hip : vm.ip = f.test cg.names cg.instructions.length) :
    f.Branches e cg program vm ↔ f.Decides e cg.varTypes (cg.contents vm) := by
  have hpatched := Form.patched_iff hlevel hsmall h hprogram
  have htests := (f.tests hlevel hsmall h).1.standsIn fun i hle hlt =>
    hprogram i (Or.inl ⟨hle, hlt⟩)
  have hgoes : (f.isLoop = true → e.holes.2 = false) → ∀ b,
      GoesTo program (f.test cg.names cg.instructions.length)
        (f.after cg.names e cg.instructions.length) vm
        (if b then f.yes cg.names e cg.instructions.length
          else f.no cg.names e cg.instructions.length) ↔
      ∃ w, e.way cg.varTypes (cg.contents vm) = .ok w ∧ (w = .fall ↔ b = false) :=
    fun hforgets => htests.goesTo_iff hregs he hip (cg.holds_contents vm) hforgets
      (f.no_ne_yes _ _ _)
  constructor
  · rintro ⟨hbranch, hjumps⟩
    have hforgets := hpatched.mp hjumps
    exact ⟨fun b hb => (hgoes hforgets b).mp (hbranch b hb), hforgets⟩
  · rintro ⟨hfalls, hforgets⟩
    exact ⟨fun b hb => (hgoes hforgets b).mpr (hfalls b hb), hpatched.mpr hforgets⟩

end

/-! ### Two statements -/

/-- `x < y` -/
def xLessY : Expr Platform.exact := .binary (.variable "x") .lt (.variable "y")

/-- `y < x` -/
def yLessX : Expr Platform.exact := .binary (.variable "y") .lt (.variable "x")

/-- `NOT (NOT x < y AND NOT y < x)` -/
def xOrYLess : Expr Platform.exact :=
  .unary .not (.binary (.unary .not xLessY) .and (.unary .not yLessX))

theorem level_comparing : comparing.Level 0 := ⟨rfl, rfl, rfl⟩

/-- `WHILE NOT (NOT x < y AND NOT y < x) DO END_WHILE` enters its body where `x < y`. -/
theorem branches_iff_decides_xOrYLess :
    ∃ cg', compileStmt ((Form.whileDo []).stmt xOrYLess) comparing = .ok cg' ∧
      (Form.whileDo []).Branches xOrYLess comparing cg'.instructions oneAndTwo := by
  obtain ⟨cg', hcompile⟩ :
    ∃ cg', compileStmt ((Form.whileDo []).stmt xOrYLess) comparing = .ok cg' := ⟨_, rfl⟩
  refine ⟨cg', hcompile, (branches_iff_decides level_comparing varRegsOk_comparing (by decide) rfl
    hcompile (fun _ _ => rfl) rfl).mpr ⟨fun b hb => ⟨.toElse, rfl, ?_⟩, fun _ => rfl⟩⟩
  obtain rfl : true = b := Option.some.inj hb
  exact iff_of_false nofun nofun

/-- `IF x < y AND y < x THEN END_IF` takes the branch where `x < y`. -/
theorem and_takes_branch :
    ¬ ∀ (P : Platform) (f : Form P) (e : Expr P) (cg cg' : Codegen P) (vm : Vm P),
      cg.Level 0 → cg.VarRegsOk →
      cg.instructions.length + (f.stmt e).size cg.names < 2 ^ 32 →
      e.isCondition cg.varTypes = true → compileStmt (f.stmt e) cg = .ok cg' →
      vm.ip = f.test cg.names cg.instructions.length →
      f.Branches e cg cg'.instructions vm := by
  intro h
  obtain ⟨cg', hcompile⟩ : ∃ cg', compileStmt ((Form.ifThenElse [] []).stmt
    (.binary xLessY .and yLessX)) comparing = .ok cg' := ⟨_, rfl⟩
  have hbranches := h .exact (.ifThenElse [] []) (.binary xLessY .and yLessX) comparing cg'
    oneAndTwo level_comparing varRegsOk_comparing (by decide) rfl hcompile rfl
  have htests := (Form.tests level_comparing (by decide) hcompile).1
  obtain ⟨w, hw, hfall⟩ := (htests.goesTo_iff varRegsOk_comparing rfl rfl
    (comparing.holds_contents oneAndTwo) nofun (Form.no_ne_yes _ _ _ _) false).mp
      (hbranches.branch false rfl)
  obtain rfl : Way.toElse = w := Except.ok.inj hw
  cases hfall.mpr rfl

end Weftik.St
