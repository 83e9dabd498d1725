import Weftik.Bytes
import Weftik.RuntimeClient.Codec

/-!
# The Value Codec of the HAL Core

A value is a tag byte and its payload. Blobs and strings have the length of their bytes in
front, and the decoder compares it with what is there; an array has the tag of its elements
and the length of its data in front. The decoder wants one byte more than that of an array,
so it refuses the encoding of an empty one.

## Main definitions

* `HalCore.encodeHalvalue`, `HalCore.decodeHalvalue`: the codec.

## Main results

* `HalCore.decode_encode_iff`: when decoding what was encoded gives the value back.
-/

namespace Weftik

variable {P : Platform}

/-- The errors of the HAL core that the modelled functions return. -/
inductive HalError
  | typeMismatch (expected actual : HalPinType)
  | invalidUtf8
  | invalidBlobLength (declared actual : UInt32)
  | unknownHalType (typeId : UInt8)
  | internal (text : String)
  deriving DecidableEq

open HalValue

namespace HalCore

/-- The tag of a type. -/
def pinTypeToTag : HalPinType → UInt8
  | .bool => 0
  | .s8 => 1
  | .u8 => 2
  | .s16 => 3
  | .u16 => 4
  | .s32 => 5
  | .u32 => 6
  | .s64 => 7
  | .u64 => 8
  | .f32 => 9
  | .f64 => 10
  | .blob => 11
  | .string => 12

/-- The tag of an array. -/
def tagArray : UInt8 := 13

/-- The type with the given tag. -/
def tagToPinType (tag : UInt8) : Option HalPinType :=
  match tag with
  | 0 => some .bool
  | 1 => some .s8
  | 2 => some .u8
  | 3 => some .s16
  | 4 => some .u16
  | 5 => some .s32
  | 6 => some .u32
  | 7 => some .s64
  | 8 => some .u64
  | 9 => some .f32
  | 10 => some .f64
  | 11 => some .blob
  | 12 => some .string
  | _ => none

/-- The encoder. The cast of a length to `u32` keeps its four low bytes. -/
def encodeHalvalue : HalValue P → List UInt8
  | .bool b => [pinTypeToTag .bool, if b then 1 else 0]
  | .s8 n => pinTypeToTag .s8 :: intBytes 1 n.toInt
  | .u8 n => pinTypeToTag .u8 :: leBytes 1 n.toNat
  | .s16 n => pinTypeToTag .s16 :: intBytes 2 n.toInt
  | .u16 n => pinTypeToTag .u16 :: leBytes 2 n.toNat
  | .s32 n => pinTypeToTag .s32 :: intBytes 4 n.toInt
  | .u32 n => pinTypeToTag .u32 :: leBytes 4 n.toNat
  | .s64 n => pinTypeToTag .s64 :: intBytes 8 n.toInt
  | .u64 n => pinTypeToTag .u64 :: leBytes 8 n.toNat
  | .f32 x => pinTypeToTag .f32 :: leBytes 4 (P.toBits32 x).toNat
  | .f64 x => pinTypeToTag .f64 :: leBytes 8 (P.toBits64 x).toNat
  | .blob bytes => pinTypeToTag .blob :: (leBytes 4 bytes.length ++ bytes)
  | .string text =>
      pinTypeToTag .string :: (leBytes 4 (textBytes text).length ++ textBytes text)
  | .array elementType data =>
      tagArray :: pinTypeToTag elementType :: (leBytes 4 data.length ++ data)

/-- A payload of fixed width; further bytes are passed over. -/
def decodeFixed (width : ℕ) (msg : String) (payload : List UInt8) (value : ℕ → HalValue P) :
    Except HalError (HalValue P) :=
  if payload.length < width then .error (.internal msg)
  else .ok (value (ofLeBytes (payload.take width)))

/-- The payload of a blob. -/
def decodeBlob (payload : List UInt8) : Except HalError (HalValue P) :=
  if payload.length < 4 then .error (.internal "Blob: missing length prefix")
  else
    let declared := ofLeBytes (payload.take 4)
    let actual := payload.length - 4
    if declared ≠ actual then
      .error (.invalidBlobLength (UInt32.ofNat declared) (UInt32.ofNat actual))
    else .ok (.blob (payload.drop 4))

/-- The payload of a string. -/
def decodeString (payload : List UInt8) : Except HalError (HalValue P) :=
  if payload.length < 4 then .error (.internal "String: missing length prefix")
  else if ofLeBytes (payload.take 4) ≠ payload.length - 4 then
    .error (.internal "String: length mismatch")
  else
    match ofTextBytes (payload.drop 4) with
    | none => .error .invalidUtf8
    | some text => .ok (.string text)

/-- The payload of an array: its header has five bytes, and the decoder asks for six. -/
def decodeArray (payload : List UInt8) : Except HalError (HalValue P) :=
  if payload.length < 6 then .error (.internal "Array: insufficient header")
  else
    let dataLen := ofLeBytes (payload.extract 1 5)
    if payload.length < 5 + dataLen then .error (.internal "Array: data truncated")
    else
      match tagToPinType (payload.getD 0 0) with
      | none => .error (.typeMismatch .s32 .s32)
      | some elementType => .ok (.array elementType (payload.extract 5 (5 + dataLen)))

/-- The decoder. -/
def decodeHalvalue (buf : List UInt8) : Except HalError (HalValue P) :=
  match buf with
  | [] => .error (.internal "empty buffer")
  | tag :: payload =>
      match tag with
      | 0 => decodeFixed 1 "bool: missing value byte" payload fun n => .bool (n != 0)
      | 1 => decodeFixed 1 "S8: insufficient bytes" payload fun n => .s8 (Int8.ofNat n)
      | 2 => decodeFixed 1 "U8: insufficient bytes" payload fun n => .u8 (UInt8.ofNat n)
      | 3 => decodeFixed 2 "S16: insufficient bytes" payload fun n => .s16 (Int16.ofNat n)
      | 4 => decodeFixed 2 "U16: insufficient bytes" payload fun n => .u16 (UInt16.ofNat n)
      | 5 => decodeFixed 4 "S32: insufficient bytes" payload fun n => .s32 (Int32.ofNat n)
      | 6 => decodeFixed 4 "U32: insufficient bytes" payload fun n => .u32 (UInt32.ofNat n)
      | 7 => decodeFixed 8 "S64: insufficient bytes" payload fun n => .s64 (Int64.ofNat n)
      | 8 => decodeFixed 8 "U64: insufficient bytes" payload fun n => .u64 (UInt64.ofNat n)
      | 9 =>
          decodeFixed 4 "F32: insufficient bytes" payload fun n =>
            .f32 (P.ofBits32 (UInt32.ofNat n))
      | 10 =>
          decodeFixed 8 "F64: insufficient bytes" payload fun n =>
            .f64 (P.ofBits64 (UInt64.ofNat n))
      | 11 => decodeBlob payload
      | 12 => decodeString payload
      | 13 => decodeArray payload
      | other => .error (.unknownHalType other)

/-! ### Payloads of fixed width -/

@[simp] theorem tagToPinType_pinTypeToTag (t : HalPinType) :
    tagToPinType (pinTypeToTag t) = some t := by
  cases t <;> rfl

theorem decodeFixed_of_length {width : ℕ} {payload : List UInt8} (h : payload.length = width)
    (msg : String) (value : ℕ → HalValue P) :
    decodeFixed width msg payload value = .ok (value (ofLeBytes payload)) := by
  rw [decodeFixed, if_neg h.not_lt, List.take_of_length_le h.le]

/-! ### Payloads with a length -/

theorem length_header (n : ℕ) (data : List UInt8) :
    (leBytes 4 n ++ data).length = 4 + data.length := by
  rw [List.length_append, length_leBytes]

theorem take_header (n : ℕ) (data : List UInt8) :
    (leBytes 4 n ++ data).take 4 = leBytes 4 n :=
  List.take_left' (length_leBytes 4 n)

theorem drop_header (n : ℕ) (data : List UInt8) : (leBytes 4 n ++ data).drop 4 = data :=
  List.drop_left' (length_leBytes 4 n)

/-- The length that a header declares. -/
theorem declared_eq (n : ℕ) : ofLeBytes (leBytes 4 n) = n % 2 ^ 32 := ofLeBytes_leBytes 4 n

/-- A blob comes back exactly when its length fits its header. -/
theorem decodeBlob_iff (bytes : List UInt8) :
    (decodeBlob (leBytes 4 bytes.length ++ bytes) : Except HalError (HalValue P)) =
      .ok (.blob bytes) ↔ bytes.length < 2 ^ 32 := by
  have hlen := length_header bytes.length bytes
  simp only [decodeBlob, take_header, drop_header, declared_eq, hlen, Nat.add_sub_cancel_left]
  rw [if_neg (by omega)]
  rcases Nat.lt_or_ge bytes.length (2 ^ 32) with hlt | hge
  · rw [if_neg (not_not.mpr (Nat.mod_eq_of_lt hlt))]
    exact iff_of_true rfl hlt
  · have hmod : bytes.length % 2 ^ 32 ≠ bytes.length := by
      have := Nat.mod_lt bytes.length (Nat.two_pow_pos 32)
      omega
    rw [if_pos hmod]
    exact iff_of_false nofun (Nat.not_lt.mpr hge)

/-- So does a string. -/
theorem decodeString_iff (text : String) :
    (decodeString (leBytes 4 (textBytes text).length ++ textBytes text) :
        Except HalError (HalValue P)) = .ok (.string text) ↔
      (textBytes text).length < 2 ^ 32 := by
  have hlen := length_header (textBytes text).length (textBytes text)
  simp only [decodeString, take_header, drop_header, declared_eq, hlen,
    Nat.add_sub_cancel_left, ofTextBytes_textBytes]
  rw [if_neg (by omega)]
  rcases Nat.lt_or_ge (textBytes text).length (2 ^ 32) with hlt | hge
  · rw [if_neg (not_not.mpr (Nat.mod_eq_of_lt hlt))]
    exact iff_of_true rfl hlt
  · have hmod : (textBytes text).length % 2 ^ 32 ≠ (textBytes text).length := by
      have := Nat.mod_lt (textBytes text).length (Nat.two_pow_pos 32)
      omega
    rw [if_pos hmod]
    exact iff_of_false nofun (Nat.not_lt.mpr hge)

/-- An array comes back exactly when it has data, and the length of the data fits. -/
theorem decodeArray_iff (elementType : HalPinType) (data : List UInt8) :
    (decodeArray (pinTypeToTag elementType :: (leBytes 4 data.length ++ data)) :
        Except HalError (HalValue P)) = .ok (.array elementType data) ↔
      data ≠ [] ∧ data.length < 2 ^ 32 := by
  have hlen : (pinTypeToTag elementType :: (leBytes 4 data.length ++ data)).length =
      5 + data.length := by
    rw [List.length_cons, length_header]
    omega
  have hcut : ∀ n, (pinTypeToTag elementType :: (leBytes 4 data.length ++ data)).extract 5 (5 + n)
      = data.take n := by
    intro n
    rw [List.extract_eq_take_drop, Nat.add_sub_cancel_left, List.drop_succ_cons, drop_header]
  have hfield : (pinTypeToTag elementType :: (leBytes 4 data.length ++ data)).extract 1 5 =
      leBytes 4 data.length := by
    rw [List.extract_eq_take_drop, List.drop_succ_cons, List.drop_zero, take_header]
  simp only [decodeArray, hlen, hfield, declared_eq, hcut, List.getD_cons_zero,
    tagToPinType_pinTypeToTag]
  by_cases hnil : data = []
  · subst hnil
    exact iff_of_false nofun fun h => h.1 rfl
  · have hpos : 0 < data.length := List.length_pos_of_ne_nil hnil
    have hmod : data.length % 2 ^ 32 ≤ data.length := Nat.mod_le _ _
    rw [if_neg (by omega), if_neg (by omega)]
    rcases Nat.lt_or_ge data.length (2 ^ 32) with hlt | hge
    · rw [Nat.mod_eq_of_lt hlt, List.take_length]
      exact iff_of_true rfl ⟨hnil, hlt⟩
    · refine iff_of_false (fun h => ?_) fun h => Nat.not_lt.mpr hge h.2
      -- the data that comes back is shorter
      have hdata : data.take (data.length % 2 ^ 32) = data := by
        simpa using h
      have hlt := Nat.mod_lt data.length (Nat.two_pow_pos 32)
      have hlength := congrArg List.length hdata
      rw [List.length_take] at hlength
      omega

/-! ### Round trip -/

/-- A value without a length field comes back. -/
theorem decode_encode_scalar (hbits : P.BitsExact) {v : HalValue P}
    (hblob : ∀ b, v ≠ .blob b) (hstring : ∀ t, v ≠ .string t) (harray : ∀ t d, v ≠ .array t d) :
    decodeHalvalue (encodeHalvalue v) = .ok v := by
  cases v with
  | bool b => cases b <;> rfl
  | s8 n =>
      change decodeFixed 1 "S8: insufficient bytes" (intBytes 1 n.toInt)
        (fun n => .s8 (Int8.ofNat n)) = _
      rw [decodeFixed_of_length (length_intBytes 1 _), ofNat_intBytes_int8]
  | u8 n =>
      change decodeFixed 1 "U8: insufficient bytes" (leBytes 1 n.toNat)
        (fun n => .u8 (UInt8.ofNat n)) = _
      rw [decodeFixed_of_length (length_leBytes 1 _), ofLeBytes_leBytes_of_lt n.toNat_lt,
        UInt8.ofNat_toNat]
  | s16 n =>
      change decodeFixed 2 "S16: insufficient bytes" (intBytes 2 n.toInt)
        (fun n => .s16 (Int16.ofNat n)) = _
      rw [decodeFixed_of_length (length_intBytes 2 _), ofNat_intBytes_int16]
  | u16 n =>
      change decodeFixed 2 "U16: insufficient bytes" (leBytes 2 n.toNat)
        (fun n => .u16 (UInt16.ofNat n)) = _
      rw [decodeFixed_of_length (length_leBytes 2 _), ofLeBytes_leBytes_of_lt n.toNat_lt,
        UInt16.ofNat_toNat]
  | s32 n =>
      change decodeFixed 4 "S32: insufficient bytes" (intBytes 4 n.toInt)
        (fun n => .s32 (Int32.ofNat n)) = _
      rw [decodeFixed_of_length (length_intBytes 4 _), ofNat_intBytes_int32]
  | u32 n =>
      change decodeFixed 4 "U32: insufficient bytes" (leBytes 4 n.toNat)
        (fun n => .u32 (UInt32.ofNat n)) = _
      rw [decodeFixed_of_length (length_leBytes 4 _), ofLeBytes_leBytes_of_lt n.toNat_lt,
        UInt32.ofNat_toNat]
  | s64 n =>
      change decodeFixed 8 "S64: insufficient bytes" (intBytes 8 n.toInt)
        (fun n => .s64 (Int64.ofNat n)) = _
      rw [decodeFixed_of_length (length_intBytes 8 _), ofNat_intBytes_int64]
  | u64 n =>
      change decodeFixed 8 "U64: insufficient bytes" (leBytes 8 n.toNat)
        (fun n => .u64 (UInt64.ofNat n)) = _
      rw [decodeFixed_of_length (length_leBytes 8 _), ofLeBytes_leBytes_of_lt n.toNat_lt,
        UInt64.ofNat_toNat]
  | f32 x =>
      change decodeFixed 4 "F32: insufficient bytes" (leBytes 4 (P.toBits32 x).toNat)
        (fun n => .f32 (P.ofBits32 (UInt32.ofNat n))) = _
      rw [decodeFixed_of_length (length_leBytes 4 _),
        ofLeBytes_leBytes_of_lt (P.toBits32 x).toNat_lt, UInt32.ofNat_toNat, hbits.f32]
  | f64 x =>
      change decodeFixed 8 "F64: insufficient bytes" (leBytes 8 (P.toBits64 x).toNat)
        (fun n => .f64 (P.ofBits64 (UInt64.ofNat n))) = _
      rw [decodeFixed_of_length (length_leBytes 8 _),
        ofLeBytes_leBytes_of_lt (P.toBits64 x).toNat_lt, UInt64.ofNat_toNat, hbits.f64]
  | blob bytes => exact absurd rfl (hblob bytes)
  | string text => exact absurd rfl (hstring text)
  | array elementType data => exact absurd rfl (harray elementType data)

/-- Decoding what was encoded gives the value back exactly when the length of its data fits
the header and it is no empty array. -/
theorem decode_encode_iff (hbits : P.BitsExact) (v : HalValue P) :
    decodeHalvalue (encodeHalvalue v) = .ok v ↔
      v.dataLength < 2 ^ 32 ∧ ∀ t, v ≠ .array t [] := by
  cases v with
  | blob bytes =>
      refine (decodeBlob_iff bytes).trans (and_iff_left ?_).symm
      rintro _ ⟨⟩
  | string text =>
      refine (decodeString_iff text).trans (and_iff_left ?_).symm
      rintro _ ⟨⟩
  | array elementType data =>
      refine (decodeArray_iff elementType data).trans ?_
      simp [dataLength, and_comm]
  | _ =>
      refine iff_of_true (decode_encode_scalar hbits ?_ ?_ ?_) ⟨Nat.two_pow_pos 32, ?_⟩
      · rintro _ ⟨⟩
      · rintro _ ⟨⟩
      · rintro _ _ ⟨⟩
      · rintro _ ⟨⟩

/-- Bytes between the two sides of the codec. -/
theorem decode_encode_bytes :
    decodeHalvalue (encodeHalvalue (.array .u16 [1, 2] : HalValue RuntimeClient.wholePlatform)) =
      .ok (.array .u16 [1, 2] : HalValue RuntimeClient.wholePlatform) :=
  (decode_encode_iff RuntimeClient.wholePlatform_bitsExact _).mpr ⟨by decide, by simp⟩

/-- An empty array does not come back. -/
theorem decode_encode_fails :
    ¬∀ v : HalValue Platform.exact, decodeHalvalue (encodeHalvalue v) = .ok v := by
  intro h
  cases h (.array .s32 [])

end HalCore

end Weftik
