import Weftik.Platform

/-!
# HAL Values

`HalValue` is the value type of the virtual machine: eleven scalars and three containers.
The arithmetic is that of the two operator macros of the source, which act on two operands
of one scalar type and return `S32(0)` on every other pair; overflow and division by zero
go through the platform, so an operator returns a value or a panic.

## Main definitions

* `HalPinType`, `HalValue`: the type tags and the values.
* `HalValue.binop`, `HalValue.bitop`: the two operator macros.
* `HalValue.beq`, `HalValue.partialCmp`: the derived `==` and the partial order.
* `HalValue.index`, `HalValue.setIndex`: element access of type-erased arrays.
-/

namespace Weftik

/-- The type tags of values and signals. -/
inductive HalPinType
  | bool | s8 | u8 | s16 | u16 | s32 | u32 | s64 | u64 | f32 | f64 | blob | string
  deriving DecidableEq, Repr

/-- A HAL value. An array is type-erased: a tag and the bytes of its elements. -/
inductive HalValue (P : Platform)
  | bool (b : Bool)
  | s8 (n : Int8)
  | u8 (n : UInt8)
  | s16 (n : Int16)
  | u16 (n : UInt16)
  | s32 (n : Int32)
  | u32 (n : UInt32)
  | s64 (n : Int64)
  | u64 (n : UInt64)
  | f32 (x : P.F32)
  | f64 (x : P.F64)
  | blob (bytes : List UInt8)
  | string (text : String)
  | array (elementType : HalPinType) (data : List UInt8)
  deriving DecidableEq

variable {P : Platform}

namespace HalValue

/-- The type tag of a value. -/
def pinType : HalValue P → HalPinType
  | bool _ => .bool
  | s8 _ => .s8
  | u8 _ => .u8
  | s16 _ => .s16
  | u16 _ => .u16
  | s32 _ => .s32
  | u32 _ => .u32
  | s64 _ => .s64
  | u64 _ => .u64
  | f32 _ => .f32
  | f64 _ => .f64
  | blob _ => .blob
  | string _ => .string
  | array elementType _ => elementType

/-! ### Operators -/

/-- `hal_binop!`: the operator on two operands of one numeric type, `S32(0)` on any other
pair (booleans included). -/
def binop (op : ArithOp) : HalValue P → HalValue P → Except Panic (HalValue P)
  | s8 a, s8 b => s8 <$> intArith P op a b
  | u8 a, u8 b => u8 <$> intArith P op a b
  | s16 a, s16 b => s16 <$> intArith P op a b
  | u16 a, u16 b => u16 <$> intArith P op a b
  | s32 a, s32 b => s32 <$> intArith P op a b
  | u32 a, u32 b => u32 <$> intArith P op a b
  | s64 a, s64 b => s64 <$> intArith P op a b
  | u64 a, u64 b => u64 <$> intArith P op a b
  | f32 a, f32 b => .ok (f32 (P.f32.arith op a b))
  | f64 a, f64 b => .ok (f64 (P.f64.arith op a b))
  | _, _ => .ok (s32 0)

/-- `hal_bitop!`: the operator on two booleans or two integers of one type, `S32(0)` on
any other pair. -/
def bitop (op : BitOp) : HalValue P → HalValue P → HalValue P
  | bool a, bool b =>
      bool (match op with
        | .and => a && b
        | .or => a || b
        | .xor => a ^^ b)
  | s8 a, s8 b => s8 (bitArith op a b)
  | u8 a, u8 b => u8 (bitArith op a b)
  | s16 a, s16 b => s16 (bitArith op a b)
  | u16 a, u16 b => u16 (bitArith op a b)
  | s32 a, s32 b => s32 (bitArith op a b)
  | u32 a, u32 b => u32 (bitArith op a b)
  | s64 a, s64 b => s64 (bitArith op a b)
  | u64 a, u64 b => u64 (bitArith op a b)
  | _, _ => s32 0

/-- Unary minus, on the signed integers and the floats. -/
def neg : HalValue P → Except Panic (HalValue P)
  | s8 a => s8 <$> checked P (-a.toInt)
  | s16 a => s16 <$> checked P (-a.toInt)
  | s32 a => s32 <$> checked P (-a.toInt)
  | s64 a => s64 <$> checked P (-a.toInt)
  | f32 a => .ok (f32 (P.f32.neg a))
  | f64 a => .ok (f64 (P.f64.neg a))
  | _ => .ok (s32 0)

/-- `!`: logical on booleans, bitwise on integers. -/
def not : HalValue P → HalValue P
  | bool a => bool (!a)
  | s8 a => s8 (~~~a)
  | u8 a => u8 (~~~a)
  | s16 a => s16 (~~~a)
  | u16 a => u16 (~~~a)
  | s32 a => s32 (~~~a)
  | u32 a => u32 (~~~a)
  | s64 a => s64 (~~~a)
  | u64 a => u64 (~~~a)
  | _ => s32 0

/-- The derived `==`: one variant and equal contents, floats by their own `==`. -/
def beq : HalValue P → HalValue P → Bool
  | bool a, bool b => a == b
  | s8 a, s8 b => a == b
  | u8 a, u8 b => a == b
  | s16 a, s16 b => a == b
  | u16 a, u16 b => a == b
  | s32 a, s32 b => a == b
  | u32 a, u32 b => a == b
  | s64 a, s64 b => a == b
  | u64 a, u64 b => a == b
  | f32 a, f32 b => P.f32.eq a b
  | f64 a, f64 b => P.f64.eq a b
  | blob a, blob b => a == b
  | string a, string b => a == b
  | array ta a, array tb b => ta == tb && a == b
  | _, _ => false

/-- `partial_cmp`: defined on two numbers of one type only. -/
def partialCmp : HalValue P → HalValue P → Option Ordering
  | s8 a, s8 b => some (compare a b)
  | u8 a, u8 b => some (compare a b)
  | s16 a, s16 b => some (compare a b)
  | u16 a, u16 b => some (compare a b)
  | s32 a, s32 b => some (compare a b)
  | u32 a, u32 b => some (compare a b)
  | s64 a, s64 b => some (compare a b)
  | u64 a, u64 b => some (compare a b)
  | f32 a, f32 b => P.f32.cmp a b
  | f64 a, f64 b => P.f64.cmp a b
  | _, _ => none

/-! ### Arrays -/

/-- The little-endian bytes of a natural number, in `k` bytes. -/
def leBytes : ℕ → ℕ → List UInt8
  | 0, _ => []
  | k + 1, n => UInt8.ofNat (n % 256) :: leBytes k (n / 256)

/-- The number with the given little-endian bytes. -/
def ofLeBytes : List UInt8 → ℕ
  | [] => 0
  | b :: bs => b.toNat + 256 * ofLeBytes bs

/-- The two's complement of an integer in `k` bytes. -/
def intBytes (k : ℕ) (n : ℤ) : List UInt8 :=
  leBytes k (n % 256 ^ k).toNat

/-- The bytes of a value, as stored in an array. -/
def toBytes : HalValue P → List UInt8
  | bool b => [if b then 1 else 0]
  | s8 n => intBytes 1 n.toInt
  | u8 n => leBytes 1 n.toNat
  | s16 n => intBytes 2 n.toInt
  | u16 n => leBytes 2 n.toNat
  | s32 n => intBytes 4 n.toInt
  | u32 n => leBytes 4 n.toNat
  | s64 n => intBytes 8 n.toInt
  | u64 n => leBytes 8 n.toNat
  | f32 x => leBytes 4 (P.toBits32 x).toNat
  | f64 x => leBytes 8 (P.toBits64 x).toNat
  | blob b => leBytes 4 b.length ++ b
  | string s => s.toUTF8.toList
  | array _ data => data

/-- The size of an element in bytes. -/
def byteSize : HalPinType → ℕ
  | .bool | .s8 | .u8 => 1
  | .s16 | .u16 => 2
  | .s32 | .u32 | .f32 => 4
  | .s64 | .u64 | .f64 => 8
  | .blob | .string => 8

/-- The zero of a type. -/
def zero : HalPinType → HalValue P
  | .bool => bool false
  | .s8 => s8 0
  | .u8 => u8 0
  | .s16 => s16 0
  | .u16 => u16 0
  | .s32 => s32 0
  | .u32 => u32 0
  | .s64 => s64 0
  | .u64 => u64 0
  | .f32 => f32 P.f32.zero
  | .f64 => f64 P.f64.zero
  | .blob => blob []
  | .string => string ""

/-- The value of a type with the given bytes; a slice of `byteSize` bytes is passed. -/
def fromBytes (elementType : HalPinType) (bytes : List UInt8) : HalValue P :=
  let n := ofLeBytes bytes
  match elementType with
  | .bool => bool (bytes.headD 0 != 0)
  | .s8 => s8 (Int8.ofNat n)
  | .u8 => u8 (UInt8.ofNat n)
  | .s16 => s16 (Int16.ofNat n)
  | .u16 => u16 (UInt16.ofNat n)
  | .s32 => s32 (Int32.ofNat n)
  | .u32 => u32 (UInt32.ofNat n)
  | .s64 => s64 (Int64.ofNat n)
  | .u64 => u64 (UInt64.ofNat n)
  | .f32 => f32 (P.ofBits32 (UInt32.ofNat n))
  | .f64 => f64 (P.ofBits64 (UInt64.ofNat n))
  | .blob | .string => s32 0

/-- The element at an index: the zero of the type when the index is past the end or the
value is no array. The offset is `usize` arithmetic and may overflow. -/
def index (v : HalValue P) (idx : ℕ) : Except Panic (HalValue P) :=
  match v with
  | array elementType data => do
      let elemSize := byteSize elementType
      let offset ← usize P (idx * elemSize)
      let stop ← usize P (offset + elemSize)
      if data.length < stop then pure (zero elementType)
      else if stop < offset then .error .sliceIndex
      else pure (fromBytes elementType (data.extract offset stop))
  | v => pure (zero v.pinType)

/-- The array with the element at an index replaced, unchanged when the index is past the
end; a value with too few bytes for the element makes the copy panic. -/
def setIndex (v : HalValue P) (idx : ℕ) (value : HalValue P) :
    Except Panic (HalValue P) :=
  match v with
  | array elementType data => do
      let elemSize := byteSize elementType
      let offset ← usize P (idx * elemSize)
      let stop ← usize P (offset + elemSize)
      if data.length < stop then pure v
      else if stop < offset ∨ value.toBytes.length < elemSize then .error .sliceIndex
      else
        pure (array elementType
          (data.take offset ++ value.toBytes.take elemSize ++ data.drop stop))
  | v => pure v

end HalValue

end Weftik
