import Weftik.Ipc.Pushes
import Weftik.Lib.Json.Spelling

/-!
# The Payload of a Push

A push carries the name of a signal and its value as JSON. The text is put together from its
parts: the name stands in it as it is, a string value with its quotation marks and
backslashes escaped and nothing else, and a float as `{:e}` prints it. The texts of the
floats are the standard library's and a parameter here.

A reader of the payload is a reader of JSON that knows the type of the signal. It finds the
name and the value if and only if the name is made of characters that stand for themselves
in a JSON string, a string value has no control character, and a float is finite.

## Main definitions

* `FloatText`, `FloatTexts`: the texts of the floats, and what is documented of them.
* `Ipc.halValueToJson`: a value as JSON.
* `Ipc.readPush`: the name and the value that a payload carries.
* `Ipc.HasJson`: the values that have a JSON text.

## Main results

* `Ipc.pushFrame_decodes_iff`: the pushes that are read back.
-/

namespace Weftik

/-! ### The texts of the floats -/

/-- A floating-point type and its texts: `lowerExp` is `{:e}`, and `ofDecimal` the float
that is read for a decimal. -/
structure FloatText (α : Type) where
  lowerExp : α → String
  isFinite : α → Bool
  ofDecimal : Decimal → α

/-- What is documented of the texts: a finite float is printed in scientific notation with
one digit before the point, and read back from there; the others are printed as names. -/
structure FloatText.Documented {α : Type} (texts : FloatText α) : Prop where
  finite : ∀ x, texts.isFinite x = true →
    ∃ (negative : Bool) (lead : Char) (fraction : List Char) (exponent : ℤ),
      lead.isDigit = true ∧ (∀ c ∈ fraction, c.isDigit = true) ∧
      (texts.lowerExp x).toList = Json.scientificText negative lead fraction exponent ∧
      texts.ofDecimal
        ⟨negative, Json.ofDigits (lead :: fraction), exponent - fraction.length⟩ = x
  notFinite : ∀ x, texts.isFinite x = false →
    texts.lowerExp x = "NaN" ∨ texts.lowerExp x = "inf" ∨ texts.lowerExp x = "-inf"

/-- The texts of the two floating-point types. -/
structure FloatTexts (P : Platform) where
  f32 : FloatText P.F32
  f64 : FloatText P.F64

/-- What is documented of both. -/
structure FloatTexts.Documented {P : Platform} (texts : FloatTexts P) : Prop where
  f32 : texts.f32.Documented
  f64 : texts.f64.Documented

/-- The derived `Debug` of a type tag. -/
def HalPinType.debug : HalPinType → String
  | .bool => "Bool"
  | .s8 => "S8"
  | .u8 => "U8"
  | .s16 => "S16"
  | .u16 => "U16"
  | .s32 => "S32"
  | .u32 => "U32"
  | .s64 => "S64"
  | .u64 => "U64"
  | .f32 => "F32"
  | .f64 => "F64"
  | .blob => "Blob"
  | .string => "String"

namespace Ipc

open HalValue

variable {P : Platform}

/-! ### Writing a value -/

/-- `str::replace` of a character. -/
def replace (c : Char) (by' : String) (s : String) : String :=
  String.ofList (s.toList.flatMap fun d => if d = c then by'.toList else [d])

/-- The bytes in hexadecimal, two digits each. -/
def hexText (data : List UInt8) : String :=
  String.ofList (data.flatMap fun b => (hexByte b).toList)

/-- A value as JSON. -/
def halValueToJson (texts : FloatTexts P) : HalValue P → String
  | .bool v => toString v
  | .s8 v => toString v.toInt
  | .u8 v => toString v.toNat
  | .s16 v => toString v.toInt
  | .u16 v => toString v.toNat
  | .s32 v => toString v.toInt
  | .u32 v => toString v.toNat
  | .s64 v => toString v.toInt
  | .u64 v => toString v.toNat
  | .f32 v => texts.f32.lowerExp v
  | .f64 v => texts.f64.lowerExp v
  | .blob data => "\"" ++ hexText data ++ "\""
  | .string s =>
      let escaped := replace '"' "\\\"" (replace '\\' "\\\\" s)
      "\"" ++ escaped ++ "\""
  | .array elementType data =>
      "\x7b\"type\":\"" ++ elementType.debug ++ "\",\"data\":\"" ++ hexText data ++ "\"\x7d"

/-! ### Reading a value -/

/-- The bytes that pairs of hexadecimal digits stand for. -/
def ofHex : List Char → Option (List UInt8)
  | [] => some []
  | high :: low :: digits => do
      let h ← Json.hexDigit high
      let l ← Json.hexDigit low
      (ofHex digits).map (UInt8.ofNat (h * 16 + l) :: ·)
  | _ => none

/-- The integer that a number is, in a type that has it. -/
def readInt {α : Type} [MachineInt α] : Json → Option α
  | .number d =>
      let n := Json.signed d.negative d.mantissa
      if d.exponent = 0 ∧ MachineInt.toInt (MachineInt.ofInt n : α) = n then
        some (MachineInt.ofInt n)
      else none
  | _ => none

/-- The float that a number is. -/
def readFloat {α : Type} (texts : FloatText α) : Json → Option α
  | .number d => some (texts.ofDecimal d)
  | _ => none

/-- The array that an object is, when its elements are of the given type. -/
def readArray (t : HalPinType) : Json → Option (HalValue P)
  | .object [(typeKey, .string name), (dataKey, .string data)] =>
      if typeKey = "type".toList ∧ dataKey = "data".toList ∧ name = t.debug.toList then
        (ofHex data).map (.array t)
      else none
  | _ => none

/-- The scalar of the given type that JSON is. -/
def readScalar (texts : FloatTexts P) : HalPinType → Json → Option (HalValue P)
  | .bool, .bool v => some (.bool v)
  | .s8, j => (readInt j).map .s8
  | .u8, j => (readInt j).map .u8
  | .s16, j => (readInt j).map .s16
  | .u16, j => (readInt j).map .u16
  | .s32, j => (readInt j).map .s32
  | .u32, j => (readInt j).map .u32
  | .s64, j => (readInt j).map .s64
  | .u64, j => (readInt j).map .u64
  | .f32, j => (readFloat texts.f32 j).map .f32
  | .f64, j => (readFloat texts.f64 j).map .f64
  | .blob, .string data => (ofHex data).map .blob
  | .string, .string s => some (.string (String.ofList s))
  | _, _ => none

/-- The value of a signal of the given type that JSON is: a scalar, or an array of them. -/
def readHalValue (texts : FloatTexts P) (t : HalPinType) (j : Json) : Option (HalValue P) :=
  (readArray t j).or (readScalar texts t j)

/-- The name and the value that a payload carries, for a signal of the given type. -/
def readPush (texts : FloatTexts P) (t : HalPinType) (payload : List UInt8) :
    Option (String × HalValue P) :=
  match (ofTextBytes payload).bind fun text => Json.parse text.toList with
  | some (.object [(signalKey, .string name), (valueKey, j)]) =>
      if signalKey = "signal".toList ∧ valueKey = "value".toList then
        (readHalValue texts t j).map fun v => (String.ofList name, v)
      else none
  | _ => none

/-- The values that have a JSON text. -/
def HasJson (texts : FloatTexts P) : HalValue P → Prop
  | .f32 x => texts.f32.isFinite x = true
  | .f64 x => texts.f64.isFinite x = true
  | .string s => ∀ c ∈ s.toList, ¬ Json.IsControl c
  | _ => True

/-- A push that is read back as the name and the value it was built from. -/
def Decodes (texts : FloatTexts P) (name : String) (v : HalValue P) : Prop :=
  readPush texts v.pinType (buildPushFrame (halValueToJson texts) name v).payload =
    some (name, v)

/-! ### Integers and bytes -/

attribute [local simp] halValueToJson

theorem readInt_ofInt {α : Type} [MachineInt α] {a : α}
    (h : MachineInt.ofInt (MachineInt.toInt a) = a) :
    readInt (.number (.ofInt (MachineInt.toInt a))) = some a := by
  have hsigned : Json.signed (decide (MachineInt.toInt a < 0)) (MachineInt.toInt a).natAbs =
      MachineInt.toInt a := by
    rw [Json.signed]
    split_ifs with hneg <;> simp only [decide_eq_true_eq] at hneg <;> omega
  simp only [readInt, Decimal.ofInt, hsigned, h, and_self, if_true]

/-! An unsigned integer is itself, modulo its width. -/

theorem ofInt_toInt_uint8 (n : UInt8) :
    (MachineInt.ofInt (MachineInt.toInt n) : UInt8) = n := by
  have hmod : (((n.toNat : ℤ) % 2 ^ 8).toNat) = n.toNat := by
    have hlt := n.toNat_lt
    omega
  exact (congrArg UInt8.ofNat hmod).trans UInt8.ofNat_toNat

theorem ofInt_toInt_uint16 (n : UInt16) :
    (MachineInt.ofInt (MachineInt.toInt n) : UInt16) = n := by
  have hmod : (((n.toNat : ℤ) % 2 ^ 16).toNat) = n.toNat := by
    have hlt := n.toNat_lt
    omega
  exact (congrArg UInt16.ofNat hmod).trans UInt16.ofNat_toNat

theorem ofInt_toInt_uint32 (n : UInt32) :
    (MachineInt.ofInt (MachineInt.toInt n) : UInt32) = n := by
  have hmod : (((n.toNat : ℤ) % 2 ^ 32).toNat) = n.toNat := by
    have hlt := n.toNat_lt
    omega
  exact (congrArg UInt32.ofNat hmod).trans UInt32.ofNat_toNat

theorem ofInt_toInt_uint64 (n : UInt64) :
    (MachineInt.ofInt (MachineInt.toInt n) : UInt64) = n := by
  have hmod : (((n.toNat : ℤ) % 2 ^ 64).toNat) = n.toNat := by
    have hlt := n.toNat_lt
    omega
  exact (congrArg UInt64.ofNat hmod).trans UInt64.ofNat_toNat

theorem ofHex_hexByte (b : UInt8) (digits : List Char) :
    ofHex ((hexByte b).toList ++ digits) = (ofHex digits).map (b :: ·) := by
  have hdigit : ∀ n < 16, Json.hexDigit ("0123456789abcdef".toList.getD n '0') = some n := by
    decide
  have hlt : b.toNat < 256 := b.toNat_lt
  have hhalves : b.toNat / 16 * 16 + b.toNat % 16 = b.toNat := by omega
  simp only [hexByte, String.toList_ofList, List.cons_append, List.nil_append, ofHex,
    hdigit _ (show b.toNat / 16 < 16 by omega), hdigit _ (show b.toNat % 16 < 16 by omega),
    Option.bind_eq_bind, Option.bind_some, hhalves, UInt8.ofNat_toNat]

/-- Bytes are read back from their digits. -/
theorem ofHex_hexText (data : List UInt8) : ofHex (hexText data).toList = some data := by
  rw [hexText, String.toList_ofList]
  induction data with
  | nil => rfl
  | cons b data ih =>
      rw [List.flatMap_cons, ofHex_hexByte, ih]
      rfl

/-- A hexadecimal digit stands for itself in a string. -/
theorem isPlain_hexText {data : List UInt8} : ∀ c ∈ (hexText data).toList, Json.IsPlain c := by
  intro c hc
  have hdigit : ∀ n < 16, Json.IsPlain ("0123456789abcdef".toList.getD n '0') := by
    decide
  rw [hexText, String.toList_ofList] at hc
  obtain ⟨b, -, hc⟩ := List.mem_flatMap.mp hc
  have hlt : b.toNat < 256 := b.toNat_lt
  simp only [hexByte, String.toList_ofList, List.mem_cons, List.not_mem_nil, or_false] at hc
  rcases hc with rfl | rfl
  · exact hdigit _ (by omega)
  · exact hdigit _ (by omega)

/-! ### Values and their texts -/

/-- The two replacements escape what has to be escaped. -/
theorem toList_replace (s : String) :
    (replace '"' "\\\"" (replace '\\' "\\\\" s)).toList = Json.escape s.toList := by
  simp only [replace, String.toList_ofList]
  induction s.toList with
  | nil => rfl
  | cons c cs ih =>
      rw [List.flatMap_cons, List.flatMap_append, ih, Json.escape_cons, Json.escapeChar]
      congr 1
      by_cases hquote : c = '"'
      · subst hquote
        rfl
      · by_cases hslash : c = '\\'
        · subst hslash
          rfl
        · simp [hquote, hslash]

/-- The keys that are written have no control character. -/
theorem not_isControl_key {key : String} (h : key ∈ ["signal", "value", "type", "data"]) :
    ∀ c ∈ key.toList, ¬ Json.IsControl c := by
  refine Json.not_isControl ?_
  simp only [List.mem_cons, List.not_mem_nil, or_false] at h
  rcases h with rfl | rfl | rfl | rfl <;> exact Json.isPlain_of_all (by decide)

theorem stringText_of_isPlain {s : List Char} (h : ∀ c ∈ s, Json.IsPlain c) :
    Json.stringText s = '"' :: (s ++ ['"']) := by
  rw [Json.stringText, Json.escape_eq_self h]

variable {texts : FloatTexts P}

theorem halValueToJson_string (s : String) :
    (halValueToJson texts (.string s)).toList = Json.stringText s.toList := by
  simp only [halValueToJson, String.toList_append, toList_replace]
  rfl

theorem halValueToJson_blob (data : List UInt8) :
    (halValueToJson texts (.blob data)).toList = Json.stringText (hexText data).toList := by
  simp only [halValueToJson, String.toList_append, stringText_of_isPlain isPlain_hexText]
  rfl

theorem halValueToJson_array (t : HalPinType) (data : List UInt8) :
    (halValueToJson texts (.array t data)).toList =
      Json.objectText [("type".toList, Json.stringText t.debug.toList),
        ("data".toList, Json.stringText (hexText data).toList)] := by
  have hname : ∀ c ∈ t.debug.toList, Json.IsPlain c := by
    cases t <;> exact Json.isPlain_of_all (by decide)
  simp only [halValueToJson, String.toList_append, stringText_of_isPlain isPlain_hexText,
    stringText_of_isPlain hname, Json.objectText, Json.membersText]
  simp [Json.stringText, Json.escape, Json.escapeChar]

/-- The text of a finite float spells a number from which the float is read. -/
theorem spells_lowerExp {α : Type} {texts : FloatText α} (h : texts.Documented) {x : α}
    (hx : texts.isFinite x = true) :
    ∃ d, Json.Spells (texts.lowerExp x).toList (.number d) ∧ texts.ofDecimal d = x := by
  obtain ⟨negative, lead, fraction, exponent, hlead, hfraction, htext, hread⟩ := h.finite x hx
  refine ⟨_, ?_, hread⟩
  rw [htext]
  exact Json.spells_scientific negative hlead hfraction exponent

/-- The name of a float that is not finite is no JSON. -/
theorem unreadable_lowerExp {α : Type} {texts : FloatText α} (h : texts.Documented) {x : α}
    (hx : ¬ texts.isFinite x = true) : Json.Unreadable (texts.lowerExp x).toList := by
  intro fuel rest
  cases fuel with
  | zero => rfl
  | succ fuel =>
      rcases h.notFinite x (Bool.eq_false_of_not_eq_true hx) with htext | htext | htext <;>
        rw [htext] <;> rfl

/-- An integer is read from its digits. -/
theorem spells_integer {α : Type} [MachineInt α] (f : α → HalValue P) (a : α)
    (hround : MachineInt.ofInt (MachineInt.toInt a) = a)
    (hread : ∀ d, readHalValue texts (f a).pinType (.number d) = (readInt (.number d)).map f) :
    ∃ j, Json.Spells (Json.intText (MachineInt.toInt a)) j ∧
      readHalValue texts (f a).pinType j = some (f a) := by
  refine ⟨_, Json.spells_int _, ?_⟩
  rw [hread, readInt_ofInt hround]
  rfl

variable {v : HalValue P}

/-- The text of a value that has one spells JSON from which the value is read. -/
theorem spells_halValueToJson (h : texts.Documented) (hv : HasJson texts v) :
    ∃ j, Json.Spells (halValueToJson texts v).toList j ∧
      readHalValue texts v.pinType j = some v := by
  cases v with
  | bool b =>
      cases b with
      | false => exact ⟨_, Json.spells_false, rfl⟩
      | true => exact ⟨_, Json.spells_true, rfl⟩
  | s8 n =>
      rw [halValueToJson, Json.toList_toString_int]
      exact spells_integer HalValue.s8 n (Int8.ofInt_toInt n) fun _ => rfl
  | u8 n =>
      rw [halValueToJson, Json.toList_toString_nat]
      exact spells_integer HalValue.u8 n (ofInt_toInt_uint8 n) fun _ => rfl
  | s16 n =>
      rw [halValueToJson, Json.toList_toString_int]
      exact spells_integer HalValue.s16 n (Int16.ofInt_toInt n) fun _ => rfl
  | u16 n =>
      rw [halValueToJson, Json.toList_toString_nat]
      exact spells_integer HalValue.u16 n (ofInt_toInt_uint16 n) fun _ => rfl
  | s32 n =>
      rw [halValueToJson, Json.toList_toString_int]
      exact spells_integer HalValue.s32 n (Int32.ofInt_toInt n) fun _ => rfl
  | u32 n =>
      rw [halValueToJson, Json.toList_toString_nat]
      exact spells_integer HalValue.u32 n (ofInt_toInt_uint32 n) fun _ => rfl
  | s64 n =>
      rw [halValueToJson, Json.toList_toString_int]
      exact spells_integer HalValue.s64 n (Int64.ofInt_toInt n) fun _ => rfl
  | u64 n =>
      rw [halValueToJson, Json.toList_toString_nat]
      exact spells_integer HalValue.u64 n (ofInt_toInt_uint64 n) fun _ => rfl
  | f32 x =>
      obtain ⟨d, hspells, hread⟩ := spells_lowerExp h.f32 hv
      exact ⟨_, hspells, congrArg (fun y => some (HalValue.f32 y)) hread⟩
  | f64 x =>
      obtain ⟨d, hspells, hread⟩ := spells_lowerExp h.f64 hv
      exact ⟨_, hspells, congrArg (fun y => some (HalValue.f64 y)) hread⟩
  | blob data =>
      rw [halValueToJson_blob]
      refine ⟨_, Json.spells_string (Json.not_isControl isPlain_hexText), ?_⟩
      exact congrArg (Option.map HalValue.blob) (ofHex_hexText data)
  | string s =>
      rw [halValueToJson_string]
      refine ⟨_, Json.spells_string hv, ?_⟩
      exact congrArg (fun s => some (HalValue.string s)) String.ofList_toList
  | array t data =>
      have hname : ∀ c ∈ t.debug.toList, Json.IsPlain c := by
        cases t <;> exact Json.isPlain_of_all (by decide)
      rw [halValueToJson_array]
      refine ⟨_, Json.spells_pair (not_isControl_key (by decide))
        (not_isControl_key (by decide))
        (Json.spells_string (Json.not_isControl hname))
        (Json.spells_string (Json.not_isControl isPlain_hexText)), ?_⟩
      have hread : readArray (P := P) t (.object [("type".toList, .string t.debug.toList),
          ("data".toList, .string (hexText data).toList)]) = some (.array t data) := by
        rw [readArray, if_pos ⟨rfl, rfl, rfl⟩, ofHex_hexText]
        rfl
      rw [readHalValue, pinType, hread]
      rfl

/-- The text of any other value is no JSON. -/
theorem unreadable_halValueToJson (h : texts.Documented) (hv : ¬ HasJson texts v) :
    Json.Unreadable (halValueToJson texts v).toList := by
  cases v with
  | f32 x => exact unreadable_lowerExp h.f32 hv
  | f64 x => exact unreadable_lowerExp h.f64 hv
  | string s =>
      rw [halValueToJson_string]
      refine Json.unreadable_string ?_
      by_contra hnone
      exact hv fun c hc hcontrol => hnone ⟨c, hc, hcontrol⟩
  | _ => exact absurd trivial hv

/-! ### The payload -/

/-- The text of a payload, for a name and the text of a value. -/
def pushText (name value : List Char) : List Char :=
  '\x7b' :: (Json.stringText "signal".toList ++ ':' :: ('"' :: (name ++ '"' :: ([','] ++
    (Json.stringText "value".toList ++ ':' :: (value ++ ['\x7d']))))))

theorem toList_payload (json : HalValue P → String) (name : String) (v : HalValue P) :
    (ofTextBytes (buildPushFrame json name v).payload).map String.toList =
      some (pushText name.toList (json v).toList) := by
  rw [buildPushFrame, ofTextBytes_textBytes, Option.map_some]
  simp only [String.toList_append]
  simp [pushText, Json.stringText, Json.escape, Json.escapeChar]

/-- The text with a plain name is that of an object. -/
theorem pushText_of_isPlain {name : List Char} (h : ∀ c ∈ name, Json.IsPlain c)
    (value : List Char) :
    pushText name value = Json.objectText
      [("signal".toList, Json.stringText name), ("value".toList, value)] := by
  simp [pushText, Json.objectText, Json.membersText, stringText_of_isPlain h]

/-- A text whose first member is read as the name has a plain name: a quotation mark in it
would end it, a backslash would be taken away, and a backslash at its end would take the
quotation mark and leave the key of the value for a member. -/
theorem isPlain_of_parse {name value key : List Char} {member : List Char × Json}
    (h : Json.parse (pushText name value) = some (.object [(key, .string name), member])) :
    ∀ c ∈ name, Json.IsPlain c := by
  simp only [Json.parse, Option.bind_eq_bind, Option.bind_eq_some_iff, Prod.exists] at h
  obtain ⟨v, rest, hread, h⟩ := h
  split_ifs at h
  obtain rfl := Option.some.inj h
  rw [pushText, List.length_cons, Json.readValue_object,
    Json.readMembers_key (not_isControl_key (by decide)), Json.readValue_string] at hread
  rw [Json.stringText_append] at hread
  generalize List.length _ + 1 = fuel at hread
  cases hchars : Json.readChars fuel (name ++ '"' :: ([','] ++
      '"' :: (Json.escape "value".toList ++ '"' :: ':' :: (value ++ ['\x7d'])))) with
  | none =>
      rw [hchars] at hread
      cases hread
  | some p =>
      obtain ⟨text, after⟩ := p
      rw [hchars, Option.map_some, Option.bind_some] at hread
      obtain ⟨⟨members, rest'⟩, hmembers, heq⟩ := Option.map_eq_some_iff.mp hread
      obtain ⟨hobject, -⟩ := Prod.mk.inj heq
      rcases Json.readChars_raw (Json.isPlain_of_all (by decide)) hchars with hplain | hless | rfl
      · exact hplain
      · -- The first member is what was read of the name.
        have htext : text = name := by
          dsimp only at hmembers
          split at hmembers
          · obtain ⟨q, -, hq⟩ := Option.map_eq_some_iff.mp hmembers
            obtain ⟨rfl, -⟩ := Prod.mk.inj hq
            simp only [Json.object.injEq, List.cons.injEq, Prod.mk.injEq, Json.string.injEq]
              at hobject
            exact hobject.1.2
          · obtain ⟨rfl, -⟩ := Prod.mk.inj (Option.some.inj hmembers)
            cases hobject
          · cases hmembers
        rw [htext] at hless
        exact absurd hless (Nat.lt_irrefl _)
      · -- The key of the value stands where a comma has to.
        cases hmembers

/-- A text that is read at all has a value that can be read. -/
theorem not_unreadable_of_parse {name value : List Char} (hname : ∀ c ∈ name, Json.IsPlain c)
    {j : Json} (h : Json.parse (pushText name value) = some j) : ¬ Json.Unreadable value := by
  intro hvalue
  simp only [Json.parse, Option.bind_eq_bind, Option.bind_eq_some_iff, Prod.exists] at h
  obtain ⟨v, rest, hread, -⟩ := h
  have hshape : pushText name value = '\x7b' :: (Json.stringText "signal".toList ++ ':' ::
      (Json.stringText name ++ ',' ::
        (Json.stringText "value".toList ++ ':' :: (value ++ ['\x7d'])))) := by
    simp [pushText, stringText_of_isPlain hname]
  rw [hshape, List.length_cons, Json.readValue_object,
    Json.readMembers_key (not_isControl_key (by decide)), Json.readValue_stringText
        (Json.not_isControl hname), Option.bind_some] at hread
  -- After the comma the second member is read, and its value is not.
  have hmembers : ∀ depth fuel, Json.readMembers (Json.readValue depth) fuel
      (Json.stringText "value".toList ++ ':' :: (value ++ ['\x7d'])) = none := by
    intro depth fuel
    cases fuel with
    | zero => rfl
    | succ fuel =>
        rw [Json.readMembers_key (not_isControl_key (by decide)), hvalue]
        rfl
  rw [Json.skipWhite_cons (by decide)] at hread
  simp only [hmembers] at hread
  cases hread

/-- A payload that is read is that of an object with the two members. -/
theorem readPush_eq_some {t : HalPinType} {json : HalValue P → String} {name text : String}
    {w : HalValue P} :
    readPush texts t (buildPushFrame json name v).payload = some (text, w) ↔
      ∃ j, Json.parse (pushText name.toList (json v).toList) = some (.object
          [("signal".toList, .string text.toList), ("value".toList, j)]) ∧
        readHalValue texts t j = some w := by
  have hpayload : (ofTextBytes (buildPushFrame json name v).payload).bind
      (fun text => Json.parse text.toList) =
        Json.parse (pushText name.toList (json v).toList) := by
    obtain ⟨text, htext, heq⟩ := Option.map_eq_some_iff.mp (toList_payload json name v)
    rw [htext, Option.bind_some, heq]
  rw [readPush, hpayload]
  constructor
  · intro h
    split at h
    · rename_i signalKey characters valueKey j hparse
      split_ifs at h with hkeys
      obtain ⟨w', hread, heq⟩ := Option.map_eq_some_iff.mp h
      obtain ⟨rfl, rfl⟩ := Prod.mk.inj heq
      obtain ⟨rfl, rfl⟩ := hkeys
      have hback : (String.ofList characters).toList = characters := String.toList_ofList
      rw [hback]
      exact ⟨j, hparse, hread⟩
    · cases h
  · rintro ⟨j, hparse, hread⟩
    rw [hparse]
    dsimp only
    rw [if_pos ⟨rfl, rfl⟩, hread, Option.map_some, String.ofList_toList]

/-- A push of a plain name and a value that has a text is read back. -/
theorem decodes_of_plain (h : texts.Documented) {name : String}
    (hname : ∀ c ∈ name.toList, Json.IsPlain c) (hv : HasJson texts v) : Decodes texts name v := by
  obtain ⟨j, hspells, hread⟩ := spells_halValueToJson h hv
  refine readPush_eq_some.mpr ⟨j, ?_, hread⟩
  rw [pushText_of_isPlain hname]
  exact Json.parse_of_spells (Json.spells_pair (not_isControl_key (by decide))
    (not_isControl_key (by decide)) (Json.spells_string (Json.not_isControl hname)) hspells)

/-- The name of a push that is read back is plain. -/
theorem plain_of_decodes {name : String} (h : Decodes texts name v) :
    ∀ c ∈ name.toList, Json.IsPlain c := by
  obtain ⟨j, hparse, -⟩ := readPush_eq_some.mp h
  exact isPlain_of_parse hparse

/-- A push is read back if and only if every character of the name stands for itself in a
JSON string, and the value has a text. -/
theorem pushFrame_decodes_iff (h : texts.Documented) (name : String) (v : HalValue P) :
    Decodes texts name v ↔ (∀ c ∈ name.toList, Json.IsPlain c) ∧ HasJson texts v := by
  constructor
  · intro hdecodes
    refine ⟨plain_of_decodes hdecodes, ?_⟩
    obtain ⟨j, hparse, -⟩ := readPush_eq_some.mp hdecodes
    by_contra hv
    exact not_unreadable_of_parse (plain_of_decodes hdecodes) hparse
      (unreadable_halValueToJson h hv)
  · rintro ⟨hname, hv⟩
    exact decodes_of_plain h hname hv

/-! ### Whole numbers as floats -/

/-- Whole numbers as a floating-point type. -/
def wholeOps : FloatOps ℤ where
  lit m e := (m / 10 ^ e : ℕ)
  arith
    | .add, a, b => a + b
    | .sub, a, b => a - b
    | .mul, a, b => a * b
    | .div, a, b => a.tdiv b
    | .rem, a, b => a.tmod b
  neg a := -a
  eq a b := a == b
  cmp a b := some (compare a b)

/-- A platform whose floats are whole numbers. -/
def wholePlatform : Platform :=
  { Platform.exact with
    F32 := ℤ
    F64 := ℤ
    decEqF32 := inferInstance
    decEqF64 := inferInstance
    f32 := wholeOps
    f64 := wholeOps
    toBits32 n := UInt32.ofNat n.toNat
    ofBits32 n := n.toNat
    toBits64 n := UInt64.ofNat n.toNat
    ofBits64 n := n.toNat
    narrow := id }

/-- The texts of whole numbers, with all their digits. -/
def wholeText : FloatText ℤ where
  lowerExp n :=
    let digits := Nat.toDigits 10 n.natAbs
    String.ofList (Json.scientificText (decide (n < 0)) (digits.headD '0') digits.tail
      digits.tail.length)
  isFinite _ := true
  ofDecimal d := Json.signed d.negative (d.mantissa * 10 ^ d.exponent.toNat)

theorem wholeText_documented : wholeText.Documented where
  finite n _ := by
    obtain ⟨lead, fraction, heq⟩ := List.exists_cons_of_ne_nil
      (Nat.toDigits_ne_nil : Nat.toDigits 10 n.natAbs ≠ [])
    have hdigits : ∀ c ∈ lead :: fraction, c.isDigit = true := by
      rw [← heq]
      exact fun c => Json.isDigit_of_mem_toDigits
    obtain ⟨hlead, hfraction⟩ := List.forall_mem_cons.mp hdigits
    refine ⟨decide (n < 0), lead, fraction, fraction.length, hlead, hfraction, ?_, ?_⟩
    · simp only [wholeText, heq, String.toList_ofList, List.headD_cons, List.tail_cons]
    · have hvalue : Json.ofDigits (lead :: fraction) = n.natAbs := by
        rw [← heq]
        exact Nat.ofDigitChars_ten_toDigits
      simp only [wholeText, hvalue, sub_self, Int.toNat_zero, pow_zero, mul_one, Json.signed]
      split_ifs with hneg <;> simp only [decide_eq_true_eq] at hneg <;> omega
  notFinite n h := nomatch h

/-- The texts of the platform of whole numbers. -/
def wholeTexts : FloatTexts wholePlatform := ⟨wholeText, wholeText⟩

theorem wholeTexts_documented : wholeTexts.Documented :=
  ⟨wholeText_documented, wholeText_documented⟩

/-- A speed of fifteen. -/
theorem pushFrame_decodes_iff_speed :
    Decodes wholeTexts "motor.speed" (.f64 (15 : ℤ)) :=
  (pushFrame_decodes_iff wholeTexts_documented "motor.speed" (.f64 (15 : ℤ))).mpr
    ⟨Json.isPlain_of_all (by decide), rfl⟩

/-- The quotation mark of a name ends the name. -/
theorem quoted_name_lost :
    ¬ ∀ (P : Platform) (texts : FloatTexts P), texts.Documented →
      ∀ (name : String) (v : HalValue P), Decodes texts name v := by
  intro h
  have hplain := plain_of_decodes (h wholePlatform wholeTexts wholeTexts_documented "a\"b"
    (.bool true))
  exact absurd (hplain '"' (by decide)).1 (by decide)

end Ipc

end Weftik
