import Weftik.Bytes
import Weftik.Lib.Outcome

/-!
# The Value Codec of the IPC Server

A value travels as a type byte and its little-endian bytes; blobs and strings have a
four-byte length before their bytes, and an array has the marker `0xFE`, the length of its
data, the type of its elements and the data. The decoder also returns how many bytes it
has read, which the caller uses to find what follows.

## Main definitions

* `Ipc.encodeHalValue`, `Ipc.decodeHalValue`: the codec of the server.

## Main results

* `Ipc.decodeHalValue_encodeHalValue`: decoding what was encoded, whatever follows it.
* `Ipc.decodeHalValue_eq_ok`: what can be decoded.
-/

open Outcome

namespace Weftik

variable {P : Platform}

open HalValue

namespace Ipc

/-- The type byte of a value. -/
def pinTypeDiscriminant : HalPinType → UInt8
  | .bool => 0
  | .s8 => 1
  | .u8 => 2
  | .s16 => 3
  | .u16 => 4
  | .s32 => 5
  | .u32 => 6
  | .s64 => 7
  | .u64 => 8
  | .f32 => 9
  | .f64 => 10
  | .blob => 11
  | .string => 12

/-- The type with the given type byte. -/
def pinTypeFromDisc (d : UInt8) : Except String HalPinType :=
  match d with
  | 0 => .ok .bool
  | 1 => .ok .s8
  | 2 => .ok .u8
  | 3 => .ok .s16
  | 4 => .ok .u16
  | 5 => .ok .s32
  | 6 => .ok .u32
  | 7 => .ok .s64
  | 8 => .ok .u64
  | 9 => .ok .f32
  | 10 => .ok .f64
  | 11 => .ok .blob
  | 12 => .ok .string
  | d => .error ("unknown pin type disc: " ++ toString d.toNat)

/-- The encoder. The cast of a length to `u32` keeps its four low bytes. -/
def encodeHalValue : HalValue P → List UInt8
  | .array elementType data =>
      0xFE :: leBytes 4 data.length ++ pinTypeDiscriminant elementType :: data
  | v =>
      pinTypeDiscriminant v.pinType ::
        match v with
        | .bool b => [if b then 1 else 0]
        | .s8 n => intBytes 1 n.toInt
        | .u8 n => leBytes 1 n.toNat
        | .s16 n => intBytes 2 n.toInt
        | .u16 n => leBytes 2 n.toNat
        | .s32 n => intBytes 4 n.toInt
        | .u32 n => leBytes 4 n.toNat
        | .s64 n => intBytes 8 n.toInt
        | .u64 n => leBytes 8 n.toNat
        | .f32 x => leBytes 4 (P.toBits32 x).toNat
        | .f64 x => leBytes 8 (P.toBits64 x).toNat
        | .blob bytes => leBytes 4 bytes.length ++ bytes
        | .string text => leBytes 4 (textBytes text).length ++ textBytes text
        | .array _ _ => []

/-- Are there at least `n` bytes? -/
def need (data : List UInt8) (n : ℕ) : Except String Unit :=
  if data.length < n then
    .error ("need " ++ toString n ++ " bytes, have " ++ toString data.length)
  else .ok ()

/-- The first `n` bytes (`read4` and `read8` of the source). -/
def read (n : ℕ) (data : List UInt8) : Except String (List UInt8) := do
  need data n
  pure (data.take n)

/-- The decoder: a value and the number of bytes it has read, or an error. The text of an
UTF-8 error is the standard library's. -/
def decodeHalValue (utf8Error : List UInt8 → String) (data : List UInt8) :
    Except String (HalValue P × ℕ) :=
  match data with
  | [] => .error "empty value data"
  | typeDisc :: rest =>
      match typeDisc with
      | 0 => .ok (.bool (rest.headD 0 != 0), 2)
      | 1 => do
          let bytes ← read 1 rest
          pure (.s8 (Int8.ofNat (ofLeBytes bytes)), 2)
      | 2 => do
          let bytes ← read 1 rest
          pure (.u8 (UInt8.ofNat (ofLeBytes bytes)), 2)
      | 3 => do
          let bytes ← read 2 rest
          pure (.s16 (Int16.ofNat (ofLeBytes bytes)), 3)
      | 4 => do
          let bytes ← read 2 rest
          pure (.u16 (UInt16.ofNat (ofLeBytes bytes)), 3)
      | 5 => do
          let bytes ← read 4 rest
          pure (.s32 (Int32.ofNat (ofLeBytes bytes)), 5)
      | 6 => do
          let bytes ← read 4 rest
          pure (.u32 (UInt32.ofNat (ofLeBytes bytes)), 5)
      | 7 => do
          let bytes ← read 8 rest
          pure (.s64 (Int64.ofNat (ofLeBytes bytes)), 9)
      | 8 => do
          let bytes ← read 8 rest
          pure (.u64 (UInt64.ofNat (ofLeBytes bytes)), 9)
      | 9 => do
          let bytes ← read 4 rest
          pure (.f32 (P.ofBits32 (UInt32.ofNat (ofLeBytes bytes))), 5)
      | 10 => do
          let bytes ← read 8 rest
          pure (.f64 (P.ofBits64 (UInt64.ofNat (ofLeBytes bytes))), 9)
      | 11 => do
          let lenBytes ← read 4 rest
          let len := ofLeBytes lenBytes
          need rest (4 + len)
          pure (.blob (rest.extract 4 (4 + len)), 5 + len)
      | 12 => do
          let lenBytes ← read 4 rest
          let len := ofLeBytes lenBytes
          need rest (4 + len)
          match ofTextBytes (rest.extract 4 (4 + len)) with
          | none => .error ("utf8: " ++ utf8Error (rest.extract 4 (4 + len)))
          | some text => pure (.string text, 5 + len)
      | 0xFE => do
          let lenBytes ← read 4 rest
          let len := ofLeBytes lenBytes
          need rest (4 + 1 + len)
          let elem ← pinTypeFromDisc (rest.getD 4 0)
          pure (.array elem (rest.extract 5 (5 + len)), 6 + len)
      | d => .error ("unknown pin type discriminant: " ++ toString d.toNat)

/-! ### Decoding what was encoded -/


@[simp] theorem pinTypeFromDisc_pinTypeDiscriminant (t : HalPinType) :
    pinTypeFromDisc (pinTypeDiscriminant t) = .ok t := by
  cases t <;> rfl

variable {n : ℕ} {data : List UInt8}

theorem need_of_le (h : n ≤ data.length) : need data n = .ok () :=
  if_neg (not_lt.mpr h)

/-- Reading as many bytes as stand in front. -/
theorem read_append {bytes rest : List UInt8} (h : bytes.length = n) :
    read n (bytes ++ rest) = .ok bytes := by
  rw [read, need_of_le (by rw [List.length_append, h]; omega), ok_bind, ← h, List.take_left]
  rfl

/-- Bytes in the middle of a list. -/
theorem extract_middle (before bytes after : List UInt8) (h : before.length = n) :
    (before ++ (bytes ++ after)).extract n (n + bytes.length) = bytes := by
  rw [List.extract_eq_take_drop, ← h, List.drop_left, Nat.add_sub_cancel_left,
    List.take_left]

/-- The bytes that a length field announces are there. -/
theorem need_append {before bytes rest : List UInt8} (h : before.length = n) :
    need (before ++ (bytes ++ rest)) (n + bytes.length) = .ok () := by
  refine need_of_le ?_
  rw [List.length_append, List.length_append, h]
  omega

/-- The byte after a length field. -/
theorem getD_header {before after : List UInt8} {b : UInt8} (h : before.length = n) :
    (before ++ [b] ++ after).getD n 0 = b := by
  rw [List.append_assoc, List.getD_eq_getElem?_getD, List.getElem?_append_right h.le, h,
    Nat.sub_self]
  rfl

/-! The three branches of the decoder that read a length field. -/

theorem decodeHalValue_blob (utf8Error : List UInt8 → String) (rest : List UInt8) :
    decodeHalValue utf8Error (11 :: rest) = (do
      let lenBytes ← read 4 rest
      need rest (4 + ofLeBytes lenBytes)
      pure ((.blob (rest.extract 4 (4 + ofLeBytes lenBytes)) : HalValue P),
        5 + ofLeBytes lenBytes)) := rfl

theorem decodeHalValue_string (utf8Error : List UInt8 → String) (rest : List UInt8) :
    decodeHalValue utf8Error (12 :: rest) = (do
      let lenBytes ← read 4 rest
      need rest (4 + ofLeBytes lenBytes)
      match ofTextBytes (rest.extract 4 (4 + ofLeBytes lenBytes)) with
      | none => .error ("utf8: " ++ utf8Error (rest.extract 4 (4 + ofLeBytes lenBytes)))
      | some text => pure ((.string text : HalValue P), 5 + ofLeBytes lenBytes)) := rfl

theorem decodeHalValue_array (utf8Error : List UInt8 → String) (rest : List UInt8) :
    decodeHalValue utf8Error (0xFE :: rest) = (do
      let lenBytes ← read 4 rest
      need rest (4 + 1 + ofLeBytes lenBytes)
      let elem ← pinTypeFromDisc (rest.getD 4 0)
      pure ((.array elem (rest.extract 5 (5 + ofLeBytes lenBytes)) : HalValue P),
        6 + ofLeBytes lenBytes)) := rfl

/-- Decoding what was encoded gives the value back and the length of the encoding, whatever
follows it. -/
theorem decodeHalValue_encodeHalValue (utf8Error : List UInt8 → String)
    (hbits : P.BitsExact) {v : HalValue P} (hlength : v.dataLength < 2 ^ 32)
    (rest : List UInt8) :
    decodeHalValue utf8Error (encodeHalValue v ++ rest) =
      .ok (v, (encodeHalValue v).length) := by
  cases v with
  | bool b => cases b <;> rfl
  | s8 n =>
      change (read 1 (intBytes 1 n.toInt ++ rest) >>= _) = _
      rw [read_append (length_intBytes 1 _), ok_bind, ofNat_intBytes_int8]
      rfl
  | u8 n =>
      change (read 1 (leBytes 1 n.toNat ++ rest) >>= _) = _
      rw [read_append (length_leBytes 1 _), ok_bind,
        ofLeBytes_leBytes_of_lt n.toNat_lt, UInt8.ofNat_toNat]
      rfl
  | s16 n =>
      change (read 2 (intBytes 2 n.toInt ++ rest) >>= _) = _
      rw [read_append (length_intBytes 2 _), ok_bind, ofNat_intBytes_int16]
      rfl
  | u16 n =>
      change (read 2 (leBytes 2 n.toNat ++ rest) >>= _) = _
      rw [read_append (length_leBytes 2 _), ok_bind,
        ofLeBytes_leBytes_of_lt n.toNat_lt, UInt16.ofNat_toNat]
      rfl
  | s32 n =>
      change (read 4 (intBytes 4 n.toInt ++ rest) >>= _) = _
      rw [read_append (length_intBytes 4 _), ok_bind, ofNat_intBytes_int32]
      rfl
  | u32 n =>
      change (read 4 (leBytes 4 n.toNat ++ rest) >>= _) = _
      rw [read_append (length_leBytes 4 _), ok_bind,
        ofLeBytes_leBytes_of_lt n.toNat_lt, UInt32.ofNat_toNat]
      rfl
  | s64 n =>
      change (read 8 (intBytes 8 n.toInt ++ rest) >>= _) = _
      rw [read_append (length_intBytes 8 _), ok_bind, ofNat_intBytes_int64]
      rfl
  | u64 n =>
      change (read 8 (leBytes 8 n.toNat ++ rest) >>= _) = _
      rw [read_append (length_leBytes 8 _), ok_bind,
        ofLeBytes_leBytes_of_lt n.toNat_lt, UInt64.ofNat_toNat]
      rfl
  | f32 x =>
      change (read 4 (leBytes 4 (P.toBits32 x).toNat ++ rest) >>= _) = _
      rw [read_append (length_leBytes 4 _), ok_bind,
        ofLeBytes_leBytes_of_lt (P.toBits32 x).toNat_lt, UInt32.ofNat_toNat, hbits.f32]
      rfl
  | f64 x =>
      change (read 8 (leBytes 8 (P.toBits64 x).toNat ++ rest) >>= _) = _
      rw [read_append (length_leBytes 8 _), ok_bind,
        ofLeBytes_leBytes_of_lt (P.toBits64 x).toNat_lt, UInt64.ofNat_toNat, hbits.f64]
      rfl
  | blob bytes =>
      have hencode : encodeHalValue (blob bytes : HalValue P) =
          11 :: (leBytes 4 bytes.length ++ bytes) := rfl
      rw [hencode, List.cons_append, List.append_assoc, decodeHalValue_blob,
        read_append (length_leBytes 4 _), ok_bind, ofLeBytes_leBytes_of_lt hlength,
        need_append (length_leBytes 4 _), ok_bind,
        extract_middle _ _ _ (length_leBytes 4 _), List.length_cons, List.length_append,
        length_leBytes, Nat.add_right_comm]
      rfl
  | string text =>
      have hencode : encodeHalValue (string text : HalValue P) =
          12 :: (leBytes 4 (textBytes text).length ++ textBytes text) := rfl
      rw [hencode, List.cons_append, List.append_assoc, decodeHalValue_string,
        read_append (length_leBytes 4 _), ok_bind, ofLeBytes_leBytes_of_lt hlength,
        need_append (length_leBytes 4 _), ok_bind,
        extract_middle _ _ _ (length_leBytes 4 _), ofTextBytes_textBytes, List.length_cons,
        List.length_append, length_leBytes, Nat.add_right_comm]
      rfl
  | array elementType data =>
      have hencode : encodeHalValue (array elementType data : HalValue P) =
          0xFE :: (leBytes 4 data.length ++ [pinTypeDiscriminant elementType] ++ data) := by
        rw [List.append_assoc]
        rfl
      have hheader : (leBytes 4 data.length ++ [pinTypeDiscriminant elementType]).length =
          4 + 1 := by
        rw [List.length_append, length_leBytes]
        rfl
      rw [hencode, List.cons_append, decodeHalValue_array, List.append_assoc, List.append_assoc,
        read_append (length_leBytes 4 _), ok_bind, ofLeBytes_leBytes_of_lt hlength,
        ← List.append_assoc, need_append hheader, ok_bind, getD_header (length_leBytes 4 _),
        pinTypeFromDisc_pinTypeDiscriminant, ok_bind, extract_middle _ _ _ hheader,
        List.length_cons, List.length_append, hheader, Nat.add_right_comm]
      rfl

/-! ### What can be decoded -/

theorem read_eq_ok {bytes : List UInt8} (h : read n data = .ok bytes) :
    n ≤ data.length ∧ bytes = data.take n := by
  rw [read, need] at h
  split at h
  · cases h
  · rename_i hle
    exact ⟨Nat.not_lt.mp hle, (Except.ok.inj h).symm⟩

theorem need_eq_ok {u : Unit} (h : need data n = .ok u) : n ≤ data.length := by
  rw [need] at h
  split at h
  · cases h
  · rename_i hle
    exact Nat.not_lt.mp hle

/-- The number in a length field is below the limit of the field. -/
theorem ofLeBytes_of_read {rest lenBytes : List UInt8} (h : read 4 rest = .ok lenBytes) :
    ofLeBytes lenBytes < 2 ^ 32 := by
  obtain ⟨hle, rfl⟩ := read_eq_ok h
  have hlt := ofLeBytes_lt (rest.take 4)
  rw [List.length_take_of_le hle] at hlt
  exact hlt

/-- Bytes that are there. -/
theorem length_extract {m : ℕ} (h : n + m ≤ data.length) : (data.extract n (n + m)).length = m := by
  rw [List.extract_eq_take_drop, List.length_take, List.length_drop]
  omega

/-- What the decoder reads is a value whose encoding is as long as what it has read, of which at
most one byte is missing; and the length of the value fits its length field. -/
theorem decodeHalValue_eq_ok {utf8Error : List UInt8 → String} {v : HalValue P}
    (h : decodeHalValue utf8Error data = .ok (v, n)) :
    n = (encodeHalValue v).length ∧ n ≤ data.length + 1 ∧ v.dataLength < 2 ^ 32 := by
  cases data with
  | nil => cases h
  | cons typeDisc rest =>
      -- A value of a fixed size: what is read, and the value.
      have hfixed : ∀ {size : ℕ} {value : List UInt8 → HalValue P} {consumed : ℕ},
          (do
            let bytes ← read size rest
            pure (value bytes, consumed)) = Except.ok (v, n) →
          consumed = size + 1 →
          (∀ bytes, (encodeHalValue (value bytes)).length = consumed ∧
            (value bytes).dataLength = 0) →
          n = (encodeHalValue v).length ∧ n ≤ (typeDisc :: rest).length + 1 ∧
            v.dataLength < 2 ^ 32 := by
        intro size value consumed hdo hconsumed hvalue
        obtain ⟨bytes, hread, hpure⟩ := bind_eq_ok hdo
        obtain ⟨rfl, rfl⟩ := Prod.mk.inj (Except.ok.inj hpure)
        have hle := (read_eq_ok hread).1
        refine ⟨(hvalue bytes).1.symm, ?_, ?_⟩
        · rw [List.length_cons]
          omega
        · rw [(hvalue bytes).2]
          exact Nat.two_pow_pos 32
      unfold decodeHalValue at h
      simp only at h
      split at h
      · obtain ⟨rfl, rfl⟩ := Prod.mk.inj (Except.ok.inj h)
        refine ⟨rfl, ?_, Nat.two_pow_pos 32⟩
        rw [List.length_cons]
        omega
      · exact hfixed h rfl fun _ => ⟨rfl, rfl⟩
      · exact hfixed h rfl fun _ => ⟨rfl, rfl⟩
      · exact hfixed h rfl fun _ => ⟨rfl, rfl⟩
      · exact hfixed h rfl fun _ => ⟨rfl, rfl⟩
      · exact hfixed h rfl fun _ => ⟨rfl, rfl⟩
      · exact hfixed h rfl fun _ => ⟨rfl, rfl⟩
      · exact hfixed h rfl fun _ => ⟨rfl, rfl⟩
      · exact hfixed h rfl fun _ => ⟨rfl, rfl⟩
      · exact hfixed h rfl fun _ => ⟨rfl, rfl⟩
      · exact hfixed h rfl fun _ => ⟨rfl, rfl⟩
      · obtain ⟨lenBytes, hread, hdo⟩ := bind_eq_ok h
        obtain ⟨⟨⟩, hneed, hpure⟩ := bind_eq_ok hdo
        obtain ⟨rfl, rfl⟩ := Prod.mk.inj (Except.ok.inj hpure)
        have hlength := length_extract (need_eq_ok hneed)
        have hle := need_eq_ok hneed
        refine ⟨?_, ?_, ?_⟩
        · simp only [encodeHalValue, List.length_cons, List.length_append, length_leBytes, hlength]
          omega
        · rw [List.length_cons]
          omega
        · rw [dataLength, hlength]
          exact ofLeBytes_of_read hread
      · obtain ⟨lenBytes, hread, hdo⟩ := bind_eq_ok h
        obtain ⟨⟨⟩, hneed, hmatch⟩ := bind_eq_ok hdo
        cases htext : ofTextBytes (rest.extract 4 (4 + ofLeBytes lenBytes)) with
        | none =>
            rw [htext] at hmatch
            cases hmatch
        | some text =>
            rw [htext] at hmatch
            obtain ⟨rfl, rfl⟩ := Prod.mk.inj (Except.ok.inj hmatch)
            have hlength := length_extract (need_eq_ok hneed)
            rw [← textBytes_of_ofTextBytes htext] at hlength
            have hle := need_eq_ok hneed
            refine ⟨?_, ?_, ?_⟩
            · simp only [encodeHalValue, List.length_cons, List.length_append, length_leBytes,
                hlength]
              omega
            · rw [List.length_cons]
              omega
            · rw [dataLength, hlength]
              exact ofLeBytes_of_read hread
      · obtain ⟨lenBytes, hread, hdo⟩ := bind_eq_ok h
        obtain ⟨⟨⟩, hneed, hdo'⟩ := bind_eq_ok hdo
        obtain ⟨elem, -, hpure⟩ := bind_eq_ok hdo'
        obtain ⟨rfl, rfl⟩ := Prod.mk.inj (Except.ok.inj hpure)
        have hlength := length_extract (need_eq_ok hneed)
        have hle := need_eq_ok hneed
        refine ⟨?_, ?_, ?_⟩
        · simp only [encodeHalValue, List.length_cons, List.length_append, length_leBytes, hlength]
          omega
        · rw [List.length_cons]
          omega
        · rw [dataLength, hlength]
          exact ofLeBytes_of_read hread
      · cases h

end Ipc
end Weftik
