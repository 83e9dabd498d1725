import Weftik.Executor

/-!
# When Arithmetic Does Not Panic

The arithmetic instructions take two registers of any types. On two integers of one type the
operator is that of the machine type, which overflows as the build says, and whose division
panics on a zero and on the smallest value by `-1`. `Div` and `Mod` look for a zero before, but
only for that of three types.

## Main definitions

* `Arith`: the six instructions.
* `IntPair`, `intPair`: two integers of one type, as mathematical integers.
* `Arith.Completes`: the instruction does not panic, and division by zero gives zero.
* `Arith.Fits`: the condition on the operands.

## Main results

* `intArith_ok_iff`: when an operator of a machine type does not panic.
* `completes_iff`: an instruction completes if and only if its operands meet the condition.
-/

open Outcome

namespace Weftik

variable {P : Platform}

/-! ### The bounds of the integer types -/

/-- The values of the type are between its bounds, which are those of a signed or of an
unsigned type. -/
class BoundedInt (α : Type) [MachineInt α] : Prop where
  min_le : ∀ a : α, MachineInt.minInt α ≤ MachineInt.toInt a
  le_max : ∀ a : α, MachineInt.toInt a ≤ MachineInt.maxInt α
  shape : MachineInt.minInt α = -(MachineInt.maxInt α + 1) ∨ MachineInt.minInt α = 0
  one_le : 1 ≤ MachineInt.maxInt α

instance : BoundedInt Int8 :=
  ⟨fun a => a.le_toInt, fun a => Int.le_sub_one_of_lt a.toInt_lt, Or.inl (by decide), by decide⟩
instance : BoundedInt Int16 :=
  ⟨fun a => a.le_toInt, fun a => Int.le_sub_one_of_lt a.toInt_lt, Or.inl (by decide), by decide⟩
instance : BoundedInt Int32 :=
  ⟨fun a => a.le_toInt, fun a => Int.le_sub_one_of_lt a.toInt_lt, Or.inl (by decide), by decide⟩
instance : BoundedInt Int64 :=
  ⟨fun a => a.le_toInt, fun a => Int.le_sub_one_of_lt a.toInt_lt, Or.inl (by decide), by decide⟩

/-- The bounds of an unsigned number. -/
theorem natCast_le_of_lt {n m : ℕ} (h : n < m) : (n : ℤ) ≤ m - 1 := by
  omega

instance : BoundedInt UInt8 :=
  ⟨fun _ => Int.natCast_nonneg _, fun a => natCast_le_of_lt a.toNat_lt, Or.inr rfl, by decide⟩
instance : BoundedInt UInt16 :=
  ⟨fun _ => Int.natCast_nonneg _, fun a => natCast_le_of_lt a.toNat_lt, Or.inr rfl, by decide⟩
instance : BoundedInt UInt32 :=
  ⟨fun _ => Int.natCast_nonneg _, fun a => natCast_le_of_lt a.toNat_lt, Or.inr rfl, by decide⟩
instance : BoundedInt UInt64 :=
  ⟨fun _ => Int.natCast_nonneg _, fun a => natCast_le_of_lt a.toNat_lt, Or.inr rfl, by decide⟩

/-- Of the quotients of two values of a type, only that of the smallest value of a signed type
by `-1` is too large. -/
theorem tdiv_le_iff {lo hi x y : ℤ} (hlo : lo ≤ x) (hhi : x ≤ hi) (hy : lo ≤ y)
    (hshape : lo = -(hi + 1) ∨ lo = 0) (hone : 1 ≤ hi) (hne : y ≠ 0) :
    x.tdiv y ≤ hi ↔ ¬(x = lo ∧ y = -1) := by
  by_cases hminus : y = -1
  · subst hminus
    have hsigned : lo = -(hi + 1) := by omega
    rw [Int.tdiv_neg, Int.tdiv_one]
    omega
  · refine iff_of_true ?_ fun h => hminus h.2
    by_cases hunit : y = 1
    · rw [hunit, Int.tdiv_one]
      exact hhi
    · -- the quotient is at most half of the dividend
      have htwo : 2 ≤ y.natAbs := by omega
      have habs : (x.tdiv y).natAbs = x.natAbs / y.natAbs := Int.natAbs_tdiv x y
      have hhalf : x.natAbs / y.natAbs ≤ x.natAbs / 2 := Nat.div_le_div_left htwo two_pos
      omega

/-! ### Two integers of one type -/

/-- The operands of an operator of a machine type, and the bounds of the type. -/
structure IntPair where
  lo : ℤ
  hi : ℤ
  a : ℤ
  b : ℤ
  deriving DecidableEq, Repr

namespace IntPair

/-- Two values of a machine type. -/
def of {α : Type} [MachineInt α] (a b : α) : IntPair :=
  ⟨MachineInt.minInt α, MachineInt.maxInt α, MachineInt.toInt a, MachineInt.toInt b⟩

/-- The result is within the bounds. -/
def Holds (p : IntPair) (n : ℤ) : Prop := p.lo ≤ n ∧ n ≤ p.hi

/-- The operands on which an operator does not panic, where `checks` says that overflow does. -/
def Fits (checks : Bool) (p : IntPair) : ArithOp → Prop
  | .add => p.Holds (p.a + p.b) ∨ checks = false
  | .sub => p.Holds (p.a - p.b) ∨ checks = false
  | .mul => p.Holds (p.a * p.b) ∨ checks = false
  | .div | .rem => p.b ≠ 0 ∧ ¬(p.a = p.lo ∧ p.b = -1)

end IntPair

/-- The result of an operation fits, or it is wrapped. -/
theorem checked_ok_iff {α : Type} [MachineInt α] (n : ℤ) :
    (∃ v : α, checked P n = .ok v) ↔
      (MachineInt.minInt α ≤ n ∧ n ≤ MachineInt.maxInt α) ∨ P.overflowChecks = false := by
  rw [checked]
  split
  · rename_i h
    exact iff_of_true ⟨_, rfl⟩ h
  · rename_i h
    exact iff_of_false (fun ⟨_, h⟩ => nomatch h) h

/-- When an operator of a machine type does not panic. -/
theorem intArith_ok_iff {α : Type} [MachineInt α] [BoundedInt α] (op : ArithOp) (a b : α) :
    (∃ v : α, intArith P op a b = .ok v) ↔ (IntPair.of a b).Fits P.overflowChecks op := by
  have hdivision : ∀ n : ℤ,
      (∃ v : α,
        (if MachineInt.toInt b = 0 then .error .divideByZero
        else if (MachineInt.toInt a).tdiv (MachineInt.toInt b) ≤ MachineInt.maxInt α then
          .ok (MachineInt.ofInt n)
        else .error .overflow : Except Panic α) = .ok v) ↔
      MachineInt.toInt b ≠ 0 ∧
        ¬(MachineInt.toInt a = MachineInt.minInt α ∧ MachineInt.toInt b = -1) := by
    intro n
    by_cases hzero : MachineInt.toInt b = 0
    · rw [if_pos hzero]
      exact iff_of_false (fun ⟨_, h⟩ => nomatch h) fun h => h.1 hzero
    · rw [if_neg hzero, ← tdiv_le_iff (BoundedInt.min_le a) (BoundedInt.le_max a)
        (BoundedInt.min_le b) BoundedInt.shape BoundedInt.one_le hzero]
      split
      · rename_i hle
        exact iff_of_true ⟨_, rfl⟩ ⟨hzero, hle⟩
      · rename_i hle
        exact iff_of_false (fun ⟨_, h⟩ => nomatch h) fun h => hle h.2
  cases op with
  | add | sub | mul => exact checked_ok_iff _
  | div | rem => exact hdivision _

/-- The two integers of two values of one integer type. -/
def intPair : HalValue P → HalValue P → Option IntPair
  | .s8 a, .s8 b => some (.of a b)
  | .u8 a, .u8 b => some (.of a b)
  | .s16 a, .s16 b => some (.of a b)
  | .u16 a, .u16 b => some (.of a b)
  | .s32 a, .s32 b => some (.of a b)
  | .u32 a, .u32 b => some (.of a b)
  | .s64 a, .s64 b => some (.of a b)
  | .u64 a, .u64 b => some (.of a b)
  | _, _ => none

variable {x y : HalValue P}

/-- The operator of two values, when they are no two integers of one type. -/
theorem binop_of_intPair_none {op : ArithOp} (h : intPair x y = none) :
    ∃ v, HalValue.binop op x y = .ok v := by
  cases x <;> cases y <;> first | exact ⟨_, rfl⟩ | cases h

/-- The operator of two integers of one type. -/
theorem binop_of_intPair {op : ArithOp} {p : IntPair} (h : intPair x y = some p) :
    (∃ v, HalValue.binop op x y = .ok v) ↔ p.Fits P.overflowChecks op := by
  have hmap : ∀ {α : Type} [MachineInt α] [BoundedInt α] {a b : α} {f : α → HalValue P},
      some (IntPair.of a b) = some p →
      ((∃ v, f <$> intArith P op a b = .ok v) ↔ p.Fits P.overflowChecks op) := by
    intro α _ _ a b f hp
    obtain rfl := Option.some.inj hp
    rw [← intArith_ok_iff op a b]
    cases intArith P op a b with
    | ok v => exact iff_of_true ⟨_, rfl⟩ ⟨_, rfl⟩
    | error e => exact iff_of_false (fun ⟨_, h⟩ => nomatch h) fun ⟨_, h⟩ => nomatch h
  unfold intPair at h
  split at h
  · exact hmap h
  · exact hmap h
  · exact hmap h
  · exact hmap h
  · exact hmap h
  · exact hmap h
  · exact hmap h
  · exact hmap h
  · cases h

/-! ### The instructions -/

/-- An arithmetic instruction: an operator, or the negation. -/
inductive Arith
  | op (o : ArithOp)
  | neg
  deriving DecidableEq, Repr

/-- The opcode of an operator. -/
def ArithOp.opcode : ArithOp → Opcode
  | .add => .add
  | .sub => .sub
  | .mul => .mul
  | .div => .div
  | .rem => .mod

/-- Does the operator divide? -/
def ArithOp.divides : ArithOp → Bool
  | .div | .rem => true
  | _ => false

/-- A zero of a numeric type, floats by their own `==`. -/
def HalValue.isZero : HalValue P → Bool
  | .s8 n => n == 0
  | .u8 n => n == 0
  | .s16 n => n == 0
  | .u16 n => n == 0
  | .s32 n => n == 0
  | .u32 n => n == 0
  | .s64 n => n == 0
  | .u64 n => n == 0
  | .f32 x => P.f32.eq x P.f32.zero
  | .f64 x => P.f64.eq x P.f64.zero
  | _ => false

namespace Arith

/-- The instruction on two registers, or one, into a third. -/
def instruction (k : Arith) (a b out : Fin registerCount) : Instruction P :=
  match k with
  | .op o => .arith o.opcode a b out
  | .neg => .unary .neg a out

/-- Does the instruction divide? -/
def divides : Arith → Bool
  | .op o => o.divides
  | .neg => false

/-- What the instruction computes. -/
def value (k : Arith) (x y : HalValue P) : Except Panic (HalValue P) :=
  match k with
  | .op o => if o.divides then Vm.guardedDivision o x y else HalValue.binop o x y
  | .neg => x.neg

/-- The instruction does not panic on the contents of its registers, and division by a zero of
any type gives `S32(0)`. -/
def Completes (k : Arith) (vm : Vm P) (a b out : Fin registerCount) : Prop :=
  ∃ v, vm.executeInstruction (k.instruction a b out) = .ok (vm.setReg out v, .cont) ∧
    (k.divides = true → (vm.reg b).isZero = true → v = .s32 0)

/-- The condition on the operands: on two integers of one type, the result of the operator fits
the type or overflow does not panic; the divisor is no zero, unless of type `S32`, and the
operation is not that of the smallest value and `-1`. The negation is not that of the smallest
value. -/
def Fits (k : Arith) (x y : HalValue P) : Prop :=
  match k with
  | .op o =>
      (o.divides = true ∧ y = .s32 0) ∨
        ∀ p ∈ intPair x y, p.Fits P.overflowChecks o
  | .neg =>
      ∀ p ∈ intPair x x, p.lo = 0 ∨ p.a ≠ p.lo ∨ P.overflowChecks = false

end Arith

/-- What an arithmetic instruction does to the machine. -/
theorem executeInstruction_arith (k : Arith) (vm : Vm P) (a b out : Fin registerCount) :
    vm.executeInstruction (k.instruction a b out) =
      (fun v => (vm.setReg out v, ExecutorResult.cont)) <$> k.value (vm.reg a) (vm.reg b) := by
  have hread : ∀ r : Fin registerCount,
      vm.readReg (.register r) = .ok (vm.reg r) := fun r => Vm.readRegister_of_lt r.isLt
  have hwrite : ∀ v, vm.writeRegister out v = .ok (vm.setReg out v) :=
    fun v => Vm.writeRegister_of_lt out.isLt
  have hbinop : ∀ f : HalValue P → HalValue P → Except Panic (HalValue P),
      Vm.continues (vm.execArithBinop f [.register a, .register b, .register out]) =
        (fun v => (vm.setReg out v, ExecutorResult.cont)) <$> f (vm.reg a) (vm.reg b) := by
    intro f
    rw [Vm.execArithBinop, hread, hread, ok_bind, ok_bind]
    cases f (vm.reg a) (vm.reg b) with
    | ok v => rw [ok_bind, Vm.destReg, hwrite]; rfl
    | error e => rfl
  cases k with
  | op o =>
      cases o with
      | add | sub | mul => exact hbinop _
      | div | rem => exact hbinop _
  | neg =>
      change Vm.continues (vm.execUnary HalValue.neg [.register a, .register out]) = _
      rw [Vm.execUnary, hread, ok_bind]
      change Vm.continues ((vm.reg a).neg >>= fun v => vm.writeRegister out v) =
        (fun v => (vm.setReg out v, ExecutorResult.cont)) <$> (vm.reg a).neg
      cases (vm.reg a).neg with
      | ok v => rw [ok_bind, hwrite]; rfl
      | error e => rfl

/-- The machines after writing a register differ where the values do. -/
theorem setReg_inj {vm : Vm P} {r : Fin registerCount} {v w : HalValue P}
    (h : vm.setReg r v = vm.setReg r w) : v = w := by
  have hreg := congrArg (fun vm => Vm.reg vm r) h
  simpa only [Vm.reg_setReg r.isLt, if_true] using hreg

/-- An instruction completes when what it computes is a value, and zero on a division by zero. -/
theorem completes_iff_value (k : Arith) (vm : Vm P) (a b out : Fin registerCount) :
    k.Completes vm a b out ↔
      ∃ v, k.value (vm.reg a) (vm.reg b) = .ok v ∧
        (k.divides = true → (vm.reg b).isZero = true → v = .s32 0) := by
  simp only [Arith.Completes, executeInstruction_arith]
  cases k.value (vm.reg a) (vm.reg b) with
  | ok w =>
      constructor
      · rintro ⟨v, hv, hzero⟩
        have hset : vm.setReg out w = vm.setReg out v := (Prod.mk.inj (Except.ok.inj hv)).1
        rw [← setReg_inj hset] at hzero
        exact ⟨w, rfl, hzero⟩
      · rintro ⟨v, hv, hzero⟩
        obtain rfl := Except.ok.inj hv
        exact ⟨w, rfl, hzero⟩
  | error e => exact iff_of_false (fun ⟨_, h, _⟩ => nomatch h) fun ⟨_, h, _⟩ => nomatch h

/-- The negation of a value. -/
theorem neg_ok_iff (x : HalValue P) :
    (∃ v, x.neg = .ok v) ↔ Arith.neg.Fits x x := by
  have hsigned : ∀ {α : Type} [MachineInt α] [BoundedInt α] {a : α} {f : α → HalValue P},
      MachineInt.minInt α = -(MachineInt.maxInt α + 1) →
      ((∃ v, f <$> checked P (-MachineInt.toInt a) = .ok v) ↔
        ∀ p ∈ some (IntPair.of a a), p.lo = 0 ∨ p.a ≠ p.lo ∨ P.overflowChecks = false) := by
    intro α _ _ a f hshape
    have hlo := BoundedInt.min_le a
    have hhi := BoundedInt.le_max a
    have hone := BoundedInt.one_le (α := α)
    have hrange : (MachineInt.minInt α ≤ -MachineInt.toInt a ∧
        -MachineInt.toInt a ≤ MachineInt.maxInt α) ↔
        (MachineInt.minInt α = 0 ∨ MachineInt.toInt a ≠ MachineInt.minInt α) := by
      omega
    have hok : (∃ v, f <$> checked P (-MachineInt.toInt a) = .ok v) ↔
        ∃ v : α, checked P (-MachineInt.toInt a) = .ok v := by
      cases (checked P (-MachineInt.toInt a) : Except Panic α) with
      | ok v => exact iff_of_true ⟨_, rfl⟩ ⟨_, rfl⟩
      | error e => exact iff_of_false (fun ⟨_, h⟩ => nomatch h) fun ⟨_, h⟩ => nomatch h
    rw [hok, checked_ok_iff, hrange, or_assoc]
    simp only [Option.mem_some_iff, forall_eq', IntPair.of]
  have hunsigned : ∀ {v : HalValue P}, x.neg = .ok v → (∀ p ∈ intPair x x, p.lo = 0) →
      ((∃ v, x.neg = .ok v) ↔ Arith.neg.Fits x x) :=
    fun hv hlo => iff_of_true ⟨_, hv⟩ fun p hp => Or.inl (hlo p hp)
  cases x with
  | s8 a | s16 a | s32 a | s64 a => exact hsigned (a := a) rfl
  | u8 a | u16 a | u32 a | u64 a =>
      refine hunsigned rfl fun p hp => ?_
      obtain rfl := Option.some.inj hp
      rfl
  | _ => exact hunsigned rfl fun p hp => nomatch hp

/-- Division by one of the three zeros that the code looks for. -/
theorem guardedDivision_of_zero {o : ArithOp} (h : Vm.isZeroDivisor y = true) :
    Vm.guardedDivision o x y = .ok (.s32 0) :=
  if_pos h

theorem guardedDivision_of_not {o : ArithOp} (h : Vm.isZeroDivisor y = false) :
    Vm.guardedDivision o x y = HalValue.binop o x y :=
  if_neg (by rw [h]; exact Bool.false_ne_true)

/-- A divisor that the code finds to be zero, when both operands are integers of one type. -/
theorem isZeroDivisor_iff_of_intPair {p : IntPair} (h : intPair x y = some p) :
    Vm.isZeroDivisor y = true ↔ y = .s32 0 := by
  cases y with
  | s32 n =>
      rw [Vm.isZeroDivisor]
      simp only [HalValue.beq, Bool.or_false, beq_iff_eq, HalValue.s32.injEq]
  | s8 n | u8 n | s16 n | u16 n | u32 n | s64 n | u64 n => exact iff_of_false nofun nofun
  | _ => cases x <;> cases h

/-- The divisor of two integers of one type, when it is a zero. -/
theorem b_of_isZero {p : IntPair} (h : intPair x y = some p) (hzero : y.isZero = true) :
    p.b = 0 := by
  have hof : ∀ {α : Type} [MachineInt α] [BEq α] [LawfulBEq α] {a b z : α},
      some (IntPair.of a b) = some p → MachineInt.toInt z = 0 → (b == z) = true → p.b = 0 := by
    intro α _ _ _ a b z hp hz hb
    obtain rfl := Option.some.inj hp
    rw [eq_of_beq hb] at *
    exact hz
  unfold intPair at h
  split at h
  · exact hof h rfl hzero
  · exact hof h rfl hzero
  · exact hof h rfl hzero
  · exact hof h rfl hzero
  · exact hof h rfl hzero
  · exact hof h rfl hzero
  · exact hof h rfl hzero
  · exact hof h rfl hzero
  · cases h

/-- A zero that is no divisor of the other operand's type. -/
theorem binop_of_isZero {o : ArithOp} (h : intPair x y = none) (hzero : y.isZero = true)
    (hnot : Vm.isZeroDivisor y = false) : HalValue.binop o x y = .ok (.s32 0) := by
  cases y with
  | bool b | blob b | string t | array t d => cases hzero
  | s32 n =>
      simp only [Vm.isZeroDivisor, HalValue.beq, HalValue.isZero, Bool.or_false] at hzero hnot
      rw [hzero] at hnot
      cases hnot
  | f32 z =>
      simp only [Vm.isZeroDivisor, HalValue.beq, HalValue.isZero, Bool.or_false,
        Bool.false_or] at hzero hnot
      rw [hzero] at hnot
      cases hnot
  | f64 z =>
      simp only [Vm.isZeroDivisor, HalValue.beq, HalValue.isZero, Bool.false_or] at hzero hnot
      rw [hzero] at hnot
      cases hnot
  | _ => cases x <;> first | rfl | cases h

/-- An arithmetic instruction does not panic, and divides by zero as documented, if and only if
its operands meet the condition. -/
theorem completes_iff (k : Arith) (vm : Vm P) (a b out : Fin registerCount) :
    k.Completes vm a b out ↔ k.Fits (vm.reg a) (vm.reg b) := by
  rw [completes_iff_value]
  generalize vm.reg a = x
  generalize vm.reg b = y
  have hdrop : ∀ {c : Except Panic (HalValue P)}, k.divides = false →
      ((∃ v, c = .ok v ∧ (k.divides = true → y.isZero = true → v = .s32 0)) ↔ ∃ v, c = .ok v) := by
    intro c hk
    simp only [hk, Bool.false_eq_true, false_implies, and_true]
  cases k with
  | neg => exact (hdrop rfl).trans (neg_ok_iff x)
  | op o =>
      cases hdivides : o.divides with
      | false =>
          rw [hdrop hdivides, Arith.value, Arith.Fits, hdivides, if_neg Bool.false_ne_true]
          simp only [Bool.false_eq_true, false_and, false_or]
          cases hpair : intPair x y with
          | none => exact iff_of_true (binop_of_intPair_none hpair) nofun
          | some p =>
              rw [binop_of_intPair hpair]
              simp only [Option.mem_some_iff, forall_eq']
      | true =>
          rw [Arith.value, Arith.Fits, hdivides, if_pos rfl]
          simp only [Arith.divides, hdivides, true_implies, true_and]
          cases hpair : intPair x y with
          | none =>
              refine iff_of_true ?_ (Or.inr nofun)
              cases hzero : Vm.isZeroDivisor y with
              | true => exact ⟨_, guardedDivision_of_zero hzero, fun _ => rfl⟩
              | false =>
                  obtain ⟨v, hv⟩ : ∃ v, HalValue.binop o x y = .ok v :=
                    binop_of_intPair_none hpair
                  refine ⟨v, (guardedDivision_of_not hzero).trans hv, fun hy => ?_⟩
                  rw [binop_of_isZero hpair hy hzero] at hv
                  exact (Except.ok.inj hv).symm
          | some p =>
              simp only [Option.mem_some_iff, forall_eq']
              cases hzero : Vm.isZeroDivisor y with
              | true =>
                  refine iff_of_true ⟨_, guardedDivision_of_zero hzero, fun _ => rfl⟩ (Or.inl ?_)
                  exact (isZeroDivisor_iff_of_intPair hpair).mp hzero
              | false =>
                  have hne : y ≠ .s32 0 := fun hy => by
                    rw [(isZeroDivisor_iff_of_intPair hpair).mpr hy] at hzero
                    cases hzero
                  rw [guardedDivision_of_not hzero, or_iff_right hne, ← binop_of_intPair hpair]
                  constructor
                  · rintro ⟨v, hv, -⟩
                    exact ⟨v, hv⟩
                  · rintro ⟨v, hv⟩
                    refine ⟨v, hv, fun hy => ?_⟩
                    have hfits := (binop_of_intPair hpair).mp ⟨v, hv⟩
                    have hb := b_of_isZero hpair hy
                    cases o with
                    | add | sub | mul => cases hdivides
                    | div | rem => exact absurd hb hfits.1

/-- The division of two bytes stops the machine when the divisor is zero. -/
theorem byte_division_panics :
    ¬ ∀ (P : Platform) (k : Arith) (vm : Vm P) (a b out : Fin registerCount),
      k.Completes vm a b out := by
  intro h
  obtain ⟨v, hv, -⟩ := h .exact (.op .div)
    (((Vm.new : Vm Platform.exact).setReg 0 (.u8 1)).setReg 1 (.u8 0)) ⟨0, by decide⟩ ⟨1, by decide⟩
    ⟨2, by decide⟩
  rw [executeInstruction_arith] at hv
  cases hv

end Weftik
