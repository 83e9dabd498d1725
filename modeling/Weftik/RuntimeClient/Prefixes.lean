import Weftik.RuntimeClient.Codec

/-!
# What the Value Decoders Accept

The decoders check the length of the input before they read, for every type but one: a boolean
is two bytes, of which a missing second counts as zero. The byte string that has only the type
byte of a boolean is the one that they accept although it is no encoding, nor begins with one.

## Main definitions

* `Ipc.RealPrefix`: what is decoded of a byte string is an encoding that it begins with.

## Main results

* `Ipc.decodeHalValue_real`: what is read is an encoding.
* `RuntimeClient.realPrefix_iff`: the byte strings of which both decoders accept real prefixes.
-/

open Outcome

namespace Weftik

variable {P : Platform}

namespace HalValue

/-! ### Bytes that are read as a number -/

variable {bytes : List UInt8}

theorem leBytes_eq {k : ℕ} (h : bytes.length = k) : leBytes k (ofLeBytes bytes) = bytes := by
  rw [← h]
  exact leBytes_ofLeBytes bytes

/-- An unsigned number of as many bits as there are bytes. -/
theorem leBytes_ofNat {k n : ℕ} (hn : ofLeBytes bytes < 256 ^ k → n = ofLeBytes bytes)
    (h : bytes.length = k) : leBytes k n = bytes := by
  rw [hn (h ▸ ofLeBytes_lt bytes), leBytes_eq h]

/-- A signed number that the bytes are the two's complement of, as `bmod` gives it. -/
theorem intBytes_eq {k : ℕ} (h : bytes.length = k) :
    intBytes k (Int.bmod (ofLeBytes bytes : ℕ) (256 ^ k)) = bytes := by
  have hlt := ofLeBytes_lt bytes
  rw [h] at hlt
  have hmod : (Int.bmod (ofLeBytes bytes : ℕ) (256 ^ k)) % (256 ^ k : ℤ) =
      ((ofLeBytes bytes : ℕ) : ℤ) := by
    have hcast : (256 ^ k : ℤ) = ((256 ^ k : ℕ) : ℤ) := by push_cast; rfl
    rw [hcast, Int.bmod_emod]
    exact Int.emod_eq_of_lt (Int.natCast_nonneg _) (by exact_mod_cast hlt)
  rw [intBytes, hmod, Int.toNat_natCast, leBytes_eq h]

theorem intBytes_ofNat_int8 (h : bytes.length = 1) :
    intBytes 1 (Int8.ofNat (ofLeBytes bytes)).toInt = bytes := by
  rw [Int8.toInt_ofNat']
  exact intBytes_eq h

theorem intBytes_ofNat_int16 (h : bytes.length = 2) :
    intBytes 2 (Int16.ofNat (ofLeBytes bytes)).toInt = bytes := by
  rw [Int16.toInt_ofNat']
  exact intBytes_eq h

theorem intBytes_ofNat_int32 (h : bytes.length = 4) :
    intBytes 4 (Int32.ofNat (ofLeBytes bytes)).toInt = bytes := by
  rw [Int32.toInt_ofNat']
  exact intBytes_eq h

theorem intBytes_ofNat_int64 (h : bytes.length = 8) :
    intBytes 8 (Int64.ofNat (ofLeBytes bytes)).toInt = bytes := by
  rw [Int64.toInt_ofNat']
  exact intBytes_eq h

end HalValue

open HalValue

namespace Ipc

theorem pinTypeDiscriminant_of_eq_ok {d : UInt8} {t : HalPinType}
    (h : pinTypeFromDisc d = .ok t) : pinTypeDiscriminant t = d := by
  unfold pinTypeFromDisc at h
  split at h
  all_goals first
    | (obtain rfl := Except.ok.inj h; rfl)
    | cases h

/-- The length field and what follows it. -/
theorem take_add_extract (rest : List UInt8) (n m : ℕ) :
    rest.take n ++ rest.extract n (n + m) = rest.take (n + m) := by
  rw [List.extract_eq_take_drop, Nat.add_sub_cancel_left, List.take_add]

/-- A number of a fixed size. -/
theorem take_of_read {rest bytes : List UInt8} {size : ℕ} (hread : read size rest = .ok bytes) :
    size ≤ rest.length ∧ bytes.length = size ∧ rest.take size = bytes := by
  obtain ⟨hle, rfl⟩ := read_eq_ok hread
  exact ⟨hle, List.length_take_of_le hle, rfl⟩

/-- What the decoder reads of more than the type byte of a boolean is there, and is the encoding
of the value, or another representation of a true boolean. -/
theorem decodeHalValue_real {utf8Error : List UInt8 → String} (hbits : P.BitsBack)
    {data : List UInt8} {v : HalValue P} {n : ℕ} (hdata : data ≠ [0])
    (h : decodeHalValue utf8Error data = .ok (v, n)) :
    n ≤ data.length ∧
      (data.take n = encodeHalValue v ∨ v = .bool true ∧ ∃ x ≠ 0, data.take n = [0, x]) := by
  cases data with
  | nil => cases h
  | cons typeDisc rest =>
      -- A value of a fixed size: its bytes are the encoding of the value.
      have hfixed : ∀ {size : ℕ} {value : List UInt8 → HalValue P} {consumed : ℕ},
          (do
            let bytes ← read size rest
            pure (value bytes, consumed)) = Except.ok (v, n) →
          consumed = size + 1 →
          (∀ bytes : List UInt8, bytes.length = size →
            encodeHalValue (value bytes) = typeDisc :: bytes) →
          n ≤ (typeDisc :: rest).length ∧ ((typeDisc :: rest).take n = encodeHalValue v ∨
            v = .bool true ∧ ∃ x ≠ 0, (typeDisc :: rest).take n = [0, x]) := by
        intro size value consumed hdo hconsumed hvalue
        obtain ⟨bytes, hread, hpure⟩ := bind_eq_ok hdo
        obtain ⟨rfl, rfl⟩ := Prod.mk.inj (Except.ok.inj hpure)
        obtain ⟨hle, hlength, htake⟩ := take_of_read hread
        refine ⟨by rw [hconsumed, List.length_cons]; omega, Or.inl ?_⟩
        rw [hconsumed, List.take_succ_cons, htake, hvalue bytes hlength]
      -- A value with a length field and no type of its elements.
      have hsized : ∀ {lenBytes : List UInt8}, read 4 rest = .ok lenBytes →
          need rest (4 + ofLeBytes lenBytes) = .ok () →
          5 + ofLeBytes lenBytes ≤ (typeDisc :: rest).length ∧
            (typeDisc :: rest).take (5 + ofLeBytes lenBytes) =
              typeDisc :: (leBytes 4 (rest.extract 4 (4 + ofLeBytes lenBytes)).length ++
                rest.extract 4 (4 + ofLeBytes lenBytes)) := by
        intro lenBytes hread hneed
        obtain ⟨-, hlenBytes, htake⟩ := take_of_read hread
        have hle := need_eq_ok hneed
        refine ⟨by rw [List.length_cons]; omega, ?_⟩
        rw [length_extract hle, leBytes_eq hlenBytes, ← htake, take_add_extract,
          ← List.take_succ_cons, htake, Nat.add_right_comm]
      unfold decodeHalValue at h
      simp only at h
      split at h
      · obtain ⟨rfl, rfl⟩ := Prod.mk.inj (Except.ok.inj h)
        cases rest with
        | nil => exact absurd rfl hdata
        | cons x rest =>
            refine ⟨by rw [List.length_cons, List.length_cons]; omega, ?_⟩
            by_cases hx : x = 0
            · subst hx
              exact Or.inl rfl
            · refine Or.inr ⟨?_, x, hx, rfl⟩
              rw [List.headD_cons, bne_iff_ne.mpr hx]
      · exact hfixed h rfl fun _ hlength =>
          congrArg (List.cons 1) (intBytes_ofNat_int8 hlength)
      · exact hfixed h rfl fun _ hlength =>
          congrArg (List.cons 2) (leBytes_ofNat UInt8.toNat_ofNat_of_lt hlength)
      · exact hfixed h rfl fun _ hlength =>
          congrArg (List.cons 3) (intBytes_ofNat_int16 hlength)
      · exact hfixed h rfl fun _ hlength =>
          congrArg (List.cons 4) (leBytes_ofNat UInt16.toNat_ofNat_of_lt hlength)
      · exact hfixed h rfl fun _ hlength =>
          congrArg (List.cons 5) (intBytes_ofNat_int32 hlength)
      · exact hfixed h rfl fun _ hlength =>
          congrArg (List.cons 6) (leBytes_ofNat UInt32.toNat_ofNat_of_lt hlength)
      · exact hfixed h rfl fun _ hlength =>
          congrArg (List.cons 7) (intBytes_ofNat_int64 hlength)
      · exact hfixed h rfl fun _ hlength =>
          congrArg (List.cons 8) (leBytes_ofNat UInt64.toNat_ofNat_of_lt hlength)
      · exact hfixed h rfl fun _ hlength => congrArg (List.cons 9)
          ((congrArg (fun b => leBytes 4 b.toNat) (hbits.f32 _)).trans
            (leBytes_ofNat UInt32.toNat_ofNat_of_lt hlength))
      · exact hfixed h rfl fun _ hlength => congrArg (List.cons 10)
          ((congrArg (fun b => leBytes 8 b.toNat) (hbits.f64 _)).trans
            (leBytes_ofNat UInt64.toNat_ofNat_of_lt hlength))
      · obtain ⟨lenBytes, hread, hdo⟩ := bind_eq_ok h
        obtain ⟨⟨⟩, hneed, hpure⟩ := bind_eq_ok hdo
        obtain ⟨rfl, rfl⟩ := Prod.mk.inj (Except.ok.inj hpure)
        obtain ⟨hle, htake⟩ := hsized hread hneed
        exact ⟨hle, Or.inl htake⟩
      · obtain ⟨lenBytes, hread, hdo⟩ := bind_eq_ok h
        obtain ⟨⟨⟩, hneed, hmatch⟩ := bind_eq_ok hdo
        cases htext : ofTextBytes (rest.extract 4 (4 + ofLeBytes lenBytes)) with
        | none =>
            rw [htext] at hmatch
            cases hmatch
        | some text =>
            rw [htext] at hmatch
            obtain ⟨rfl, rfl⟩ := Prod.mk.inj (Except.ok.inj hmatch)
            obtain ⟨hle, htake⟩ := hsized hread hneed
            refine ⟨hle, Or.inl ?_⟩
            rw [htake, ← textBytes_of_ofTextBytes htext]
            rfl
      · obtain ⟨lenBytes, hread, hdo⟩ := bind_eq_ok h
        obtain ⟨⟨⟩, hneed, hdo⟩ := bind_eq_ok hdo
        obtain ⟨elem, helem, hpure⟩ := bind_eq_ok hdo
        obtain ⟨rfl, rfl⟩ := Prod.mk.inj (Except.ok.inj hpure)
        obtain ⟨-, hlenBytes, htake⟩ := take_of_read hread
        have hle := need_eq_ok hneed
        have hdata : (rest.extract 5 (5 + ofLeBytes lenBytes)).length = ofLeBytes lenBytes :=
          length_extract hle
        have helement : rest.take (4 + 1) = lenBytes ++ [pinTypeDiscriminant elem] := by
          rw [List.take_add_one, htake, pinTypeDiscriminant_of_eq_ok helem,
            List.getD_eq_getElem?_getD, List.getElem?_eq_getElem (by omega)]
          rfl
        refine ⟨by rw [List.length_cons]; omega, Or.inl ?_⟩
        have hencode : encodeHalValue
            (.array elem (rest.extract 5 (5 + ofLeBytes lenBytes)) : HalValue P) =
            0xFE :: (leBytes 4 (rest.extract 5 (5 + ofLeBytes lenBytes)).length ++
              [pinTypeDiscriminant elem] ++ rest.extract 5 (5 + ofLeBytes lenBytes)) := by
          rw [List.append_assoc]
          rfl
        rw [hencode, hdata, leBytes_eq hlenBytes, ← helement, take_add_extract,
          ← List.take_succ_cons]
        congr 1
        omega
      · cases h

/-- What is decoded of a byte string is there, and is the encoding of the value, where any byte
but zero is a true boolean; and when the byte string is a truncated encoding of a value whose
length its length field can hold, it is not decoded. -/
def RealPrefix (decode : List UInt8 → Except String (HalValue P × ℕ)) (data : List UInt8) :
    Prop :=
  (∀ v n, decode data = .ok (v, n) →
    n ≤ data.length ∧
      (data.take n = encodeHalValue v ∨ v = .bool true ∧ ∃ x ≠ 0, data.take n = [0, x])) ∧
  ∀ v : HalValue P, v.dataLength < 2 ^ 32 → data <+: encodeHalValue v →
    data ≠ encodeHalValue v → ∃ text, decode data = .error text

/-- Only the encoding of a boolean begins with a zero. -/
theorem length_encodeHalValue_of_zero {v : HalValue P} {rest : List UInt8}
    (h : encodeHalValue v = 0 :: rest) : (encodeHalValue v).length = 2 := by
  have hbool : ∀ t, pinTypeDiscriminant t = 0 → t = .bool := by
    intro t ht
    cases t with
    | bool => rfl
    | _ => exact absurd ht (by decide)
  have hhead : (encodeHalValue v).head? = some 0 := by rw [h]; rfl
  cases v with
  | bool b => rfl
  | array elementType data => exact absurd (Option.some.inj hhead) (by decide)
  | _ => exact nomatch hbool _ (Option.some.inj hhead)

/-- An encoding of which something is missing is not decoded, unless it is the type byte of a
boolean. -/
theorem decodeHalValue_truncated (utf8Error : List UInt8 → String) (hexact : P.BitsExact)
    (hback : P.BitsBack) {data : List UInt8} (hdata : data ≠ [0]) {v : HalValue P}
    (hlength : v.dataLength < 2 ^ 32) (hpre : data <+: encodeHalValue v)
    (hne : data ≠ encodeHalValue v) :
    ∃ text, (decodeHalValue utf8Error data : Except String (HalValue P × ℕ)) = .error text := by
  cases hdecode : (decodeHalValue utf8Error data : Except String (HalValue P × ℕ)) with
  | error text => exact ⟨text, rfl⟩
  | ok p =>
      obtain ⟨v', n⟩ := p
      obtain ⟨hle, hreal⟩ := decodeHalValue_real hback hdata hdecode
      obtain ⟨hn, -, hlength'⟩ := decodeHalValue_eq_ok hdecode
      have hlt : data.length < (encodeHalValue v).length :=
        Nat.lt_of_le_of_ne hpre.length_le fun heq => hne (hpre.eq_of_length heq)
      obtain ⟨t, ht⟩ := hpre
      have hsplit : encodeHalValue v = data.take n ++ (data.drop n ++ t) := by
        rw [← List.append_assoc, List.take_append_drop, ht]
      exfalso
      rcases hreal with htake | ⟨-, x, -, htake⟩
      · -- the whole encoding would be decoded in two ways
        rw [htake] at hsplit
        have hwhole := decodeHalValue_encodeHalValue utf8Error hexact hlength []
        rw [List.append_nil, hsplit,
          decodeHalValue_encodeHalValue utf8Error hexact hlength' _] at hwhole
        have hsame := (Prod.mk.inj (Except.ok.inj hwhole)).2
        rw [← hsplit, ← hn] at hsame
        omega
      · rw [htake] at hsplit
        have htwo := length_encodeHalValue_of_zero hsplit
        have hbool : n = 2 := by
          have hlen := congrArg List.length htake
          rwa [List.length_take_of_le hle] at hlen
        omega

/-- The server's decoder accepts a real prefix, unless there is only the type byte of a
boolean. -/
theorem realPrefix_of_ne (utf8Error : List UInt8 → String) (hexact : P.BitsExact)
    (hback : P.BitsBack) {data : List UInt8} (hdata : data ≠ [0]) :
    RealPrefix (P := P) (decodeHalValue utf8Error) data :=
  ⟨fun _ _ h => decodeHalValue_real hback hdata h,
    fun _ hlength hpre hne =>
      decodeHalValue_truncated utf8Error hexact hback hdata hlength hpre hne⟩

/-- Of the type byte of a boolean alone two bytes are read. -/
theorem not_realPrefix_zero (utf8Error : List UInt8 → String) :
    ¬RealPrefix (P := P) (decodeHalValue utf8Error) [0] := by
  intro h
  have hle : 2 ≤ 1 := (h.1 (.bool false) 2 rfl).1
  omega

end Ipc

namespace RuntimeClient

/-- Both decoders accept only real prefixes, but for the type byte of a boolean that nothing
follows. -/
theorem realPrefix_iff (utf8Error : List UInt8 → String) (hexact : P.BitsExact)
    (hback : P.BitsBack) (data : List UInt8) :
    (Ipc.RealPrefix (P := P) (Ipc.decodeHalValue utf8Error) data ∧
      Ipc.RealPrefix (P := P) (decodeHalValue utf8Error) data) ↔ data ≠ [0] := by
  have hsame : decodeHalValue (P := P) utf8Error = Ipc.decodeHalValue utf8Error :=
    funext (decodeHalValue_eq utf8Error)
  rw [hsame, and_self]
  refine ⟨?_, Ipc.realPrefix_of_ne utf8Error hexact hback⟩
  rintro h rfl
  exact Ipc.not_realPrefix_zero utf8Error h

/-- A fixed-point type as the floats: unsigned whole numbers. -/
def naturalOps (α : Type) [Add α] [Sub α] [Mul α] [Div α] [Mod α] [BEq α] [Ord α]
    (ofNat : ℕ → α) : FloatOps α where
  lit m e := ofNat (m / 10 ^ e)
  arith
    | .add, a, b => a + b
    | .sub, a, b => a - b
    | .mul, a, b => a * b
    | .div, a, b => a / b
    | .rem, a, b => a % b
  neg a := a
  eq a b := a == b
  cmp a b := some (compare a b)

/-- A platform whose floats are their bits. -/
def bitsPlatform : Platform :=
  { Platform.exact with
    F32 := UInt32
    F64 := UInt64
    decEqF32 := inferInstance
    decEqF64 := inferInstance
    f32 := naturalOps UInt32 UInt32.ofNat
    f64 := naturalOps UInt64 UInt64.ofNat
    toBits32 := id
    ofBits32 := id
    toBits64 := id
    ofBits64 := id
    narrow := UInt64.toUInt32 }

/-- A number and what follows it. -/
theorem realPrefix_iff_number :
    Ipc.RealPrefix (P := bitsPlatform) (Ipc.decodeHalValue fun _ => "") [1, 5, 7] ∧
      Ipc.RealPrefix (P := bitsPlatform) (decodeHalValue fun _ => "") [1, 5, 7] :=
  (realPrefix_iff (fun _ => "") ⟨fun _ => rfl, fun _ => rfl⟩ ⟨fun _ => rfl, fun _ => rfl⟩
    [1, 5, 7]).mpr (by decide)

/-- A truncated boolean is accepted, and more is read of it than there is. -/
theorem truncated_bool_accepted :
    ¬ ∀ (P : Platform) (utf8Error : List UInt8 → String) (data : List UInt8),
      P.BitsExact → P.BitsBack →
      Ipc.RealPrefix (P := P) (Ipc.decodeHalValue utf8Error) data ∧
        Ipc.RealPrefix (P := P) (decodeHalValue utf8Error) data := by
  intro h
  exact Ipc.not_realPrefix_zero _ (h bitsPlatform (fun _ => "") [0] ⟨fun _ => rfl, fun _ => rfl⟩
    ⟨fun _ => rfl, fun _ => rfl⟩).1

end RuntimeClient

end Weftik
