import Mathlib

/-!
# The Platform: What the Program Takes from Rust

The controller is a Rust program, and several of its operations are fixed only by the
build and by the standard library: whether an integer overflow panics or wraps is the
Cargo profile's choice, `f32` and `f64` arithmetic is the processor's, and the case
mapping and the white space of `str` are Unicode tables. `Platform` collects these, and
every definition of the model that depends on one takes the platform as a parameter. The
generators of motion code take the mathematical functions of `f64` beside it.

## Main definitions

* `Panic`: the ways a thread of the program can panic.
* `MachineInt`: a fixed-width integer type, its bounds and its wrapping conversion.
* `FloatOps`, `Platform`: the operations the platform supplies.
* `checked`, `unsigned`: the arithmetic of an integer type and of a counter kept as a
  natural number, under the profile.
* `Platform.exact`: rational arithmetic with overflow checks, on which the model runs.
* `FloatOps.add` and its siblings: the operators and the comparisons under their names.
* `FloatMath`: the mathematical functions.
-/

namespace Weftik

/-- The panics of the program, by the assertion or the operation that raises them. -/
inductive Panic
  | ipOutOfBounds (ip : ℕ)
  | registerOutOfBounds (idx : ℕ)
  | overflow
  | divideByZero
  | sliceIndex
  | message (text : String)
  deriving DecidableEq, Repr

/-! ### Fixed-width integers -/

/-- A fixed-width integer type of the source: its values as integers, its bounds, and the
wrapping conversion `as` from an integer of any size. -/
class MachineInt (α : Type) where
  toInt : α → ℤ
  ofInt : ℤ → α
  minInt : ℤ
  maxInt : ℤ

instance : MachineInt Int8 := ⟨Int8.toInt, Int8.ofInt, -2 ^ 7, 2 ^ 7 - 1⟩
instance : MachineInt Int16 := ⟨Int16.toInt, Int16.ofInt, -2 ^ 15, 2 ^ 15 - 1⟩
instance : MachineInt Int32 := ⟨Int32.toInt, Int32.ofInt, -2 ^ 31, 2 ^ 31 - 1⟩
instance : MachineInt Int64 := ⟨Int64.toInt, Int64.ofInt, -2 ^ 63, 2 ^ 63 - 1⟩
instance : MachineInt UInt8 :=
  ⟨fun a => a.toNat, fun n => UInt8.ofNat (n % 2 ^ 8).toNat, 0, 2 ^ 8 - 1⟩
instance : MachineInt UInt16 :=
  ⟨fun a => a.toNat, fun n => UInt16.ofNat (n % 2 ^ 16).toNat, 0, 2 ^ 16 - 1⟩
instance : MachineInt UInt32 :=
  ⟨fun a => a.toNat, fun n => UInt32.ofNat (n % 2 ^ 32).toNat, 0, 2 ^ 32 - 1⟩
instance : MachineInt UInt64 :=
  ⟨fun a => a.toNat, fun n => UInt64.ofNat (n % 2 ^ 64).toNat, 0, 2 ^ 64 - 1⟩

/-- The five arithmetic operators that `hal_binop!` is instantiated at. -/
inductive ArithOp
  | add | sub | mul | div | rem
  deriving DecidableEq, Repr

/-- The three operators that `hal_bitop!` is instantiated at. -/
inductive BitOp
  | and | or | xor
  deriving DecidableEq, Repr

/-! ### Floating point -/

/-- The operations of a floating-point type that the virtual machine uses. `lit m e` is
the literal `m * 10 ^ (-e)`, `eq` and `cmp` are `==` and `partial_cmp`. -/
structure FloatOps (α : Type) where
  lit : ℕ → ℕ → α
  arith : ArithOp → α → α → α
  neg : α → α
  eq : α → α → Bool
  cmp : α → α → Option Ordering

/-- The literal `0.0`. -/
def FloatOps.zero {α : Type} (ops : FloatOps α) : α := ops.lit 0 0

/-- What the Cargo profile, the processor and the standard library supply. The two laws
say that `to_uppercase` and `is_whitespace` are the usual ones on ASCII. -/
structure Platform where
  /-- Does integer overflow panic (a debug build) or wrap (a release build)? -/
  overflowChecks : Bool
  F32 : Type
  F64 : Type
  decEqF32 : DecidableEq F32
  decEqF64 : DecidableEq F64
  f32 : FloatOps F32
  f64 : FloatOps F64
  toBits32 : F32 → UInt32
  ofBits32 : UInt32 → F32
  toBits64 : F64 → UInt64
  ofBits64 : UInt64 → F64
  /-- The cast `as f32` of an `f64`. -/
  narrow : F64 → F32
  /-- `char::to_uppercase`, which may give several characters. -/
  upper : Char → List Char
  /-- `char::is_whitespace`. -/
  white : Char → Bool
  upper_ascii : ∀ c : Char, c.val < 128 → upper c = [c.toUpper]
  white_ascii : ∀ c : Char, c.val < 128 →
    white c = decide (c ∈ [' ', '\t', '\n', '\x0b', '\x0c', '\r'])

instance (P : Platform) : DecidableEq P.F32 := P.decEqF32
instance (P : Platform) : DecidableEq P.F64 := P.decEqF64

/-- The result of an integer operation whose mathematical value is `n`: the value when it
fits the type, otherwise a panic or the wrapped value, as the profile says. -/
def checked (P : Platform) {α : Type} [MachineInt α] (n : ℤ) : Except Panic α :=
  if (MachineInt.minInt α ≤ n ∧ n ≤ MachineInt.maxInt α) ∨ P.overflowChecks = false then
    .ok (MachineInt.ofInt n)
  else
    .error .overflow

/-- The result of an unsigned operation of the given width with mathematical value `n`,
for the counters and offsets that the model keeps as natural numbers. -/
def unsigned (P : Platform) (bits n : ℕ) : Except Panic ℕ :=
  if n < 2 ^ bits then .ok n
  else if P.overflowChecks then .error .overflow
  else .ok (n % 2 ^ bits)

/-- The result of a `usize` operation, on a 64-bit target. -/
def usize (P : Platform) (n : ℕ) : Except Panic ℕ :=
  unsigned P 64 n

/-- `a op b` at a fixed-width integer type. Division and remainder panic on a zero divisor
and on `MIN / -1` in every profile, the other operators overflow by `checked`. -/
def intArith (P : Platform) {α : Type} [MachineInt α] (op : ArithOp) (a b : α) :
    Except Panic α :=
  let x := MachineInt.toInt a
  let y := MachineInt.toInt b
  match op with
  | .add => checked P (x + y)
  | .sub => checked P (x - y)
  | .mul => checked P (x * y)
  | .div =>
      if y = 0 then .error .divideByZero
      else if x.tdiv y ≤ MachineInt.maxInt α then .ok (MachineInt.ofInt (x.tdiv y))
      else .error .overflow
  | .rem =>
      if y = 0 then .error .divideByZero
      else if x.tdiv y ≤ MachineInt.maxInt α then .ok (MachineInt.ofInt (x.tmod y))
      else .error .overflow

/-- `a op b` for the bitwise operators. -/
def bitArith {α : Type} [AndOp α] [OrOp α] [XorOp α] (op : BitOp) (a b : α) : α :=
  match op with
  | .and => a &&& b
  | .or => a ||| b
  | .xor => a ^^^ b

/-! ### Rational arithmetic -/

/-- Rational numbers as a floating-point type: every operation is exact. -/
def FloatOps.rat : FloatOps ℚ where
  lit m e := (m : ℚ) / 10 ^ e
  arith
    | .add, a, b => a + b
    | .sub, a, b => a - b
    | .mul, a, b => a * b
    | .div, a, b => a / b
    | .rem, a, b => a - b * ((a / b).num.tdiv (a / b).den : ℤ)
  neg a := -a
  eq a b := decide (a = b)
  cmp a b := some (if a < b then .lt else if a = b then .eq else .gt)

/-- The platform of exact arithmetic, with overflow checks and ASCII text. -/
def Platform.exact : Platform where
  overflowChecks := true
  F32 := ℚ
  F64 := ℚ
  decEqF32 := inferInstance
  decEqF64 := inferInstance
  f32 := FloatOps.rat
  f64 := FloatOps.rat
  toBits32 q := UInt32.ofNat q.num.natAbs
  ofBits32 n := n.toNat
  toBits64 q := UInt64.ofNat q.num.natAbs
  ofBits64 n := n.toNat
  narrow := id
  upper c := [c.toUpper]
  white c := decide (c ∈ [' ', '\t', '\n', '\x0b', '\x0c', '\r'])
  upper_ascii _ _ := rfl
  white_ascii _ _ := rfl

/-! ### Floating-point functions -/

namespace FloatOps

variable {α : Type} (ops : FloatOps α)

/-- `a + b`. -/
def add (a b : α) : α := ops.arith .add a b

/-- `a - b`. -/
def sub (a b : α) : α := ops.arith .sub a b

/-- `a * b`. -/
def mul (a b : α) : α := ops.arith .mul a b

/-- `a / b`. -/
def div (a b : α) : α := ops.arith .div a b

/-- `a < b`. -/
def lt (a b : α) : Bool := ops.cmp a b == some .lt

/-- `a > b`. -/
def gt (a b : α) : Bool := ops.cmp a b == some .gt

/-- `a >= b`. -/
def ge (a b : α) : Bool := ops.cmp a b == some .gt || ops.cmp a b == some .eq

/-- `a <= b`. -/
def le (a b : α) : Bool := ops.cmp a b == some .lt || ops.cmp a b == some .eq

end FloatOps

/-- The functions of the standard library on `f64`: `asU32` and `ofU32` are the casts, and
`powi` is the square `powi(2)`. -/
structure FloatMath (P : Platform) where
  sqrt : P.F64 → P.F64
  abs : P.F64 → P.F64
  ceil : P.F64 → P.F64
  max : P.F64 → P.F64 → P.F64
  min : P.F64 → P.F64 → P.F64
  asU32 : P.F64 → UInt32
  ofU32 : UInt32 → P.F64
  square : P.F64 → P.F64
  hypot : P.F64 → P.F64 → P.F64
  atan2 : P.F64 → P.F64 → P.F64
  acos : P.F64 → P.F64
  cos : P.F64 → P.F64
  sin : P.F64 → P.F64
  pi : P.F64
  /-- The text of a number in a message. -/
  display : P.F64 → String

end Weftik
