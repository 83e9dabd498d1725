import Weftik.Ipc.Codec

/-!
# The Value Codec of the Client Library

The client library has its own copy of the codec of the server, written out a second time.
The copies agree: they give one encoding of every value, and one result, value or error
text, for every byte string.

## Main definitions

* `RuntimeClient.encodeHalValue`, `RuntimeClient.decodeHalValue`: the codec of the client.

## Main results

* `RuntimeClient.encodeHalValue_eq`, `RuntimeClient.decodeHalValue_eq`: the copies agree.
* `RuntimeClient.codec_correct`: the codec between the server and the client.
-/

open Outcome

namespace Weftik

variable {P : Platform}

open HalValue

namespace RuntimeClient

/-- The type byte of a value. -/
def pinTypeDiscriminant : HalPinType → UInt8
  | .bool => 0
  | .s8 => 1
  | .u8 => 2
  | .s16 => 3
  | .u16 => 4
  | .s32 => 5
  | .u32 => 6
  | .s64 => 7
  | .u64 => 8
  | .f32 => 9
  | .f64 => 10
  | .blob => 11
  | .string => 12

/-- The type with the given type byte. -/
def pinTypeFromDisc (d : UInt8) : Except String HalPinType :=
  match d with
  | 0 => .ok .bool
  | 1 => .ok .s8
  | 2 => .ok .u8
  | 3 => .ok .s16
  | 4 => .ok .u16
  | 5 => .ok .s32
  | 6 => .ok .u32
  | 7 => .ok .s64
  | 8 => .ok .u64
  | 9 => .ok .f32
  | 10 => .ok .f64
  | 11 => .ok .blob
  | 12 => .ok .string
  | d => .error ("unknown pin type disc: " ++ toString d.toNat)

/-- The encoder of the client. -/
def encodeHalValue : HalValue P → List UInt8
  | .array elementType data =>
      0xFE :: leBytes 4 data.length ++ pinTypeDiscriminant elementType :: data
  | v =>
      pinTypeDiscriminant v.pinType ::
        match v with
        | .bool b => [if b then 1 else 0]
        | .s8 n => intBytes 1 n.toInt
        | .u8 n => leBytes 1 n.toNat
        | .s16 n => intBytes 2 n.toInt
        | .u16 n => leBytes 2 n.toNat
        | .s32 n => intBytes 4 n.toInt
        | .u32 n => leBytes 4 n.toNat
        | .s64 n => intBytes 8 n.toInt
        | .u64 n => leBytes 8 n.toNat
        | .f32 x => leBytes 4 (P.toBits32 x).toNat
        | .f64 x => leBytes 8 (P.toBits64 x).toNat
        | .blob bytes => leBytes 4 bytes.length ++ bytes
        | .string text => leBytes 4 (textBytes text).length ++ textBytes text
        | .array _ _ => []

/-- Are there at least `n` bytes? -/
def need (data : List UInt8) (n : ℕ) : Except String Unit :=
  if data.length < n then
    .error ("need " ++ toString n ++ " bytes, have " ++ toString data.length)
  else .ok ()

/-- The first `n` bytes (`read4` and `read8` of the source). -/
def read (n : ℕ) (data : List UInt8) : Except String (List UInt8) := do
  need data n
  pure (data.take n)

/-- The decoder of the client. -/
def decodeHalValue (utf8Error : List UInt8 → String) (data : List UInt8) :
    Except String (HalValue P × ℕ) :=
  match data with
  | [] => .error "empty value data"
  | typeDisc :: rest =>
      match typeDisc with
      | 0 => .ok (.bool (rest.headD 0 != 0), 2)
      | 1 => do
          let bytes ← read 1 rest
          pure (.s8 (Int8.ofNat (ofLeBytes bytes)), 2)
      | 2 => do
          let bytes ← read 1 rest
          pure (.u8 (UInt8.ofNat (ofLeBytes bytes)), 2)
      | 3 => do
          let bytes ← read 2 rest
          pure (.s16 (Int16.ofNat (ofLeBytes bytes)), 3)
      | 4 => do
          let bytes ← read 2 rest
          pure (.u16 (UInt16.ofNat (ofLeBytes bytes)), 3)
      | 5 => do
          let bytes ← read 4 rest
          pure (.s32 (Int32.ofNat (ofLeBytes bytes)), 5)
      | 6 => do
          let bytes ← read 4 rest
          pure (.u32 (UInt32.ofNat (ofLeBytes bytes)), 5)
      | 7 => do
          let bytes ← read 8 rest
          pure (.s64 (Int64.ofNat (ofLeBytes bytes)), 9)
      | 8 => do
          let bytes ← read 8 rest
          pure (.u64 (UInt64.ofNat (ofLeBytes bytes)), 9)
      | 9 => do
          let bytes ← read 4 rest
          pure (.f32 (P.ofBits32 (UInt32.ofNat (ofLeBytes bytes))), 5)
      | 10 => do
          let bytes ← read 8 rest
          pure (.f64 (P.ofBits64 (UInt64.ofNat (ofLeBytes bytes))), 9)
      | 11 => do
          let lenBytes ← read 4 rest
          let len := ofLeBytes lenBytes
          need rest (4 + len)
          pure (.blob (rest.extract 4 (4 + len)), 5 + len)
      | 12 => do
          let lenBytes ← read 4 rest
          let len := ofLeBytes lenBytes
          need rest (4 + len)
          match ofTextBytes (rest.extract 4 (4 + len)) with
          | none => .error ("utf8: " ++ utf8Error (rest.extract 4 (4 + len)))
          | some text => pure (.string text, 5 + len)
      | 0xFE => do
          let lenBytes ← read 4 rest
          let len := ofLeBytes lenBytes
          need rest (4 + 1 + len)
          let elem ← pinTypeFromDisc (rest.getD 4 0)
          pure (.array elem (rest.extract 5 (5 + len)), 6 + len)
      | d => .error ("unknown pin type discriminant: " ++ toString d.toNat)

/-! ### The two copies agree -/

theorem pinTypeDiscriminant_eq : pinTypeDiscriminant = Ipc.pinTypeDiscriminant := by
  funext t
  cases t <;> rfl

theorem pinTypeFromDisc_eq : pinTypeFromDisc = Ipc.pinTypeFromDisc := rfl

theorem read_eq : read = Ipc.read := rfl

/-- The two encoders agree on every value. -/
theorem encodeHalValue_eq (v : HalValue P) : encodeHalValue v = Ipc.encodeHalValue v := by
  cases v with
  | array elementType data =>
      rw [encodeHalValue, Ipc.encodeHalValue, pinTypeDiscriminant_eq]
  | _ => rfl

/-- The two decoders agree on every byte string. -/
theorem decodeHalValue_eq (utf8Error : List UInt8 → String) (data : List UInt8) :
    (decodeHalValue utf8Error data : Except String (HalValue P × ℕ)) =
      Ipc.decodeHalValue utf8Error data := by
  cases data with
  | nil => rfl
  | cons typeDisc rest =>
      unfold decodeHalValue Ipc.decodeHalValue
      rw [pinTypeFromDisc_eq, read_eq]
      rfl

/-- The codec between the server and the client: decoding what was encoded gives the value
back and the length of the encoding, and the two copies of the codec agree. -/
theorem codec_correct (utf8Error : List UInt8 → String) (hbits : P.BitsExact) :
    (∀ (v : HalValue P) (rest : List UInt8), v.dataLength < 2 ^ 32 →
      Ipc.decodeHalValue utf8Error (Ipc.encodeHalValue v ++ rest) =
        .ok (v, (Ipc.encodeHalValue v).length)) ∧
      (∀ v : HalValue P, encodeHalValue v = Ipc.encodeHalValue v) ∧
      ∀ data, (decodeHalValue utf8Error data : Except String (HalValue P × ℕ)) =
        Ipc.decodeHalValue utf8Error data :=
  ⟨fun _ rest hlength => Ipc.decodeHalValue_encodeHalValue utf8Error hbits hlength rest,
    encodeHalValue_eq, decodeHalValue_eq utf8Error⟩

/-- A fixed-point type as the floats: 32-bit whole numbers. -/
def wholeOps : FloatOps Int32 where
  lit m e := Int32.ofNat (m / 10 ^ e)
  arith
    | .add, a, b => a + b
    | .sub, a, b => a - b
    | .mul, a, b => a * b
    | .div, a, b => a / b
    | .rem, a, b => a % b
  neg a := -a
  eq a b := a == b
  cmp a b := some (compare a b)

/-- A platform whose floats are whole numbers, with their two's complement as the bits. -/
def wholePlatform : Platform :=
  { Platform.exact with
    F32 := Int32
    F64 := Int32
    decEqF32 := inferInstance
    decEqF64 := inferInstance
    f32 := wholeOps
    f64 := wholeOps
    toBits32 := Int32.toUInt32
    ofBits32 := UInt32.toInt32
    toBits64 := fun n => n.toUInt32.toUInt64
    ofBits64 := fun n => n.toUInt32.toInt32
    narrow := id }

theorem wholePlatform_bitsExact : wholePlatform.BitsExact := by
  refine ⟨fun x : Int32 => ?_, fun x : Int32 => ?_⟩
  · change x.toUInt32.toInt32 = x
    simp
  · change x.toUInt32.toUInt64.toUInt32.toInt32 = x
    simp

/-- An array between the two sides, with bytes after it. -/
theorem codec_correct_array :
    Ipc.decodeHalValue (fun _ => "")
        (Ipc.encodeHalValue (.array .s16 [1, 2, 3, 4] : HalValue wholePlatform) ++ [9]) =
      .ok ((.array .s16 [1, 2, 3, 4] : HalValue wholePlatform), 10) :=
  (codec_correct (fun _ => "") wholePlatform_bitsExact).1 _ [9] (by decide)

end RuntimeClient
end Weftik
