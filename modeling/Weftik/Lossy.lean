import Weftik.Bytes

/-!
# Texts from Any Bytes, and JavaScript Strings

The lossy conversion makes a text of any bytes: what is UTF-8 stays, and what is not is replaced.
It is the standard library's, and stands here as a parameter with what is documented of it.

A JavaScript string is a sequence of code units of 16 bits. A character up to `U+FFFF` is one
unit and any other one is two, so that a text has as many units as bytes of UTF-8 when it is
ASCII, and fewer otherwise.

## Main definitions

* `LossyUtf8`: what a lossy conversion does.
* `fromUtf8Lossy`: a lossy conversion that replaces byte by byte.
* `JsString`, `Js.units`: the code units, and those of a text.
* `Js.IsAscii`: the texts of ASCII characters.

## Main results

* `take_textBytes`: the first bytes of a text are a text and a part of a character.
* `LossyUtf8.length_le`: a text cannot be read from the first bytes of it.
* `lossyUtf8_fromUtf8Lossy`: the documented properties hold of one conversion.
* `Js.length_units`: the number of units and of bytes.
-/

namespace Weftik

open HalValue

/-! ### The bytes of a text -/

theorem textBytes_ofList (cs : List Char) :
    textBytes (String.ofList cs) = cs.flatMap String.utf8EncodeChar := by
  rw [textBytes, String.toUTF8_eq_toByteArray, String.toByteArray_ofList, List.utf8Encode,
    List.toList_data_toByteArray]

theorem textBytes_append (a b : String) : textBytes (a ++ b) = textBytes a ++ textBytes b := by
  obtain ⟨as, rfl⟩ := a.exists_eq_ofList
  obtain ⟨bs, rfl⟩ := b.exists_eq_ofList
  rw [← String.ofList_append, textBytes_ofList, textBytes_ofList, textBytes_ofList,
    List.flatMap_append]

/-- The first bytes of a text are a text and less than a character. The induction is on the
characters. -/
theorem take_textBytes (cs : List Char) {k : ℕ}
    (hk : k ≤ (cs.flatMap String.utf8EncodeChar).length) :
    ∃ (a : List Char) (rest : List UInt8), rest.length < 4 ∧
      (cs.flatMap String.utf8EncodeChar).take k = a.flatMap String.utf8EncodeChar ++ rest := by
  induction cs generalizing k with
  | nil => exact ⟨[], [], by decide, by simp⟩
  | cons c cs ih =>
      rw [List.flatMap_cons] at hk ⊢
      rcases Nat.lt_or_ge k (String.utf8EncodeChar c).length with hlt | hge
      · refine ⟨[], (String.utf8EncodeChar c).take k, ?_, ?_⟩
        · have hfour := c.utf8Size_le_four
          rw [String.length_utf8EncodeChar] at hlt
          rw [List.length_take]
          omega
        · rw [List.take_append_of_le_length hlt.le, List.flatMap_nil, List.nil_append]
      · rw [List.length_append] at hk
        obtain ⟨a, rest, hrest, htake⟩ := ih (k := k - (String.utf8EncodeChar c).length) (by omega)
        refine ⟨c :: a, rest, hrest, ?_⟩
        rw [List.take_append, List.take_of_length_le hge, htake, List.flatMap_cons,
          List.append_assoc]

/-! ### The lossy conversion -/

/-- What is documented of the lossy conversion: valid UTF-8 stays as it is, whatever follows,
and every byte gives at most one character of three bytes, the replacement character. -/
structure LossyUtf8 (lossy : List UInt8 → String) : Prop where
  valid_append : ∀ text rest, lossy (textBytes text ++ rest) = text ++ lossy rest
  length_le : ∀ bytes, (textBytes (lossy bytes)).length ≤ 3 * bytes.length

variable {lossy : List UInt8 → String}

theorem LossyUtf8.nil (h : LossyUtf8 lossy) : lossy [] = "" := by
  have hlength := Nat.le_zero.mp (h.length_le [])
  obtain ⟨cs, hcs⟩ := (lossy []).exists_eq_ofList
  rw [hcs, textBytes_ofList] at hlength
  rw [hcs]
  cases cs with
  | nil => rfl
  | cons c cs =>
      have hpos := c.utf8Size_pos
      rw [List.flatMap_cons, List.length_append, String.length_utf8EncodeChar] at hlength
      omega

theorem LossyUtf8.valid (h : LossyUtf8 lossy) (text : String) : lossy (textBytes text) = text := by
  have happend := h.valid_append text []
  rwa [List.append_nil, h.nil, String.append_empty] at happend

/-- A text is not read from much less than all of its bytes. -/
theorem LossyUtf8.length_le_of_take (h : LossyUtf8 lossy) {text : String} {k : ℕ}
    (hk : k ≤ (textBytes text).length) (heq : lossy ((textBytes text).take k) = text) :
    (textBytes text).length ≤ k + 9 := by
  obtain ⟨cs, rfl⟩ := text.exists_eq_ofList
  rw [textBytes_ofList] at hk heq
  obtain ⟨a, rest, hrest, htake⟩ := take_textBytes cs hk
  have hlength := congrArg List.length htake
  rw [List.length_take_of_le hk, List.length_append] at hlength
  rw [htake, ← textBytes_ofList, h.valid_append] at heq
  have hle := h.length_le rest
  rw [← heq, textBytes_append, textBytes_ofList, List.length_append]
  omega

/-! ### One conversion -/

/-- The characters of some bytes, the first of which still belong to a character before. A byte
that begins no character is replaced. -/
def lossyChars : ℕ → List UInt8 → List Char
  | _, [] => []
  | skip + 1, _ :: bytes => lossyChars skip bytes
  | 0, b :: bytes =>
      match (b :: bytes).toByteArray.utf8DecodeChar? 0 with
      | some c => c :: lossyChars (c.utf8Size - 1) bytes
      | none => '\uFFFD' :: lossyChars 0 bytes

/-- A lossy conversion, which replaces every byte that is part of no character. -/
def fromUtf8Lossy (bytes : List UInt8) : String := String.ofList (lossyChars 0 bytes)

theorem lossyChars_drop (skip : ℕ) (bytes : List UInt8) :
    lossyChars skip bytes = lossyChars 0 (bytes.drop skip) := by
  induction bytes generalizing skip with
  | nil => cases skip <;> rfl
  | cons b bytes ih =>
      cases skip with
      | zero => rfl
      | succ skip => exact ih skip

/-- A character in front is read. -/
theorem lossyChars_append (c : Char) (rest : List UInt8) :
    lossyChars 0 (String.utf8EncodeChar c ++ rest) = c :: lossyChars 0 rest := by
  have hdecode : (String.utf8EncodeChar c ++ rest).toByteArray.utf8DecodeChar? 0 = some c := by
    rw [List.toByteArray_append]
    exact ByteArray.utf8DecodeChar?_utf8EncodeChar_append
  have hlength := String.length_utf8EncodeChar c
  have hpos := c.utf8Size_pos
  obtain ⟨b, bytes, hbytes⟩ : ∃ b bytes, String.utf8EncodeChar c = b :: bytes :=
    List.exists_cons_of_ne_nil (List.ne_nil_of_length_pos (hlength ▸ hpos))
  rw [hbytes, List.length_cons] at hlength
  rw [hbytes, List.cons_append] at hdecode ⊢
  rw [lossyChars, hdecode]
  simp only
  rw [lossyChars_drop, ← hlength, Nat.add_sub_cancel, List.drop_left]

/-- The replacement character has three bytes, and every other one replaces none. -/
theorem length_lossyChars_le (skip : ℕ) (bytes : List UInt8) :
    ((lossyChars skip bytes).flatMap String.utf8EncodeChar).length ≤
      3 * (bytes.length - skip) := by
  induction bytes generalizing skip with
  | nil => cases skip <;> exact Nat.zero_le _
  | cons b bytes ih =>
      cases skip with
      | succ skip =>
          rw [lossyChars, List.length_cons, Nat.add_sub_add_right]
          exact ih skip
      | zero =>
          rw [lossyChars, List.length_cons, Nat.sub_zero]
          split
          · rename_i c hdecode
            have hsize := ByteArray.le_size_of_utf8DecodeChar?_eq_some hdecode
            rw [List.size_toByteArray, List.length_cons] at hsize
            have hpos := c.utf8Size_pos
            have hrest := ih (c.utf8Size - 1)
            rw [List.flatMap_cons, List.length_append, String.length_utf8EncodeChar]
            omega
          · have hrest := ih 0
            have hthree : (String.utf8EncodeChar '\uFFFD').length = 3 := by decide
            rw [List.flatMap_cons, List.length_append, hthree]
            omega

theorem lossyUtf8_fromUtf8Lossy : LossyUtf8 fromUtf8Lossy where
  valid_append text rest := by
    obtain ⟨cs, rfl⟩ := text.exists_eq_ofList
    rw [textBytes_ofList, fromUtf8Lossy, fromUtf8Lossy, ← String.ofList_append]
    refine congrArg String.ofList ?_
    induction cs with
    | nil => rfl
    | cons c cs ih =>
        rw [List.flatMap_cons, List.append_assoc, lossyChars_append, ih, List.cons_append]
  length_le bytes := by
    rw [fromUtf8Lossy, textBytes_ofList]
    exact length_lossyChars_le 0 bytes

/-! ### Code units -/

/-- The code units of a string. -/
abbrev JsString := List UInt16

namespace Js

/-- The code units of a character: itself, or two surrogates. -/
def utf16 (c : Char) : JsString :=
  if c.toNat < 0x10000 then [UInt16.ofNat c.toNat]
  else [UInt16.ofNat (0xD800 + (c.toNat - 0x10000) / 0x400),
    UInt16.ofNat (0xDC00 + (c.toNat - 0x10000) % 0x400)]

/-- The code units of a text. -/
def units (s : String) : JsString := s.toList.flatMap utf16

/-- A text of ASCII characters. -/
def IsAscii (s : String) : Prop := ∀ c ∈ s.toList, c.toNat < 128

instance (s : String) : Decidable (IsAscii s) :=
  decidable_of_iff (s.toList.all (fun c => c.toNat < 128) = true) <| by
    simp only [IsAscii, List.all_eq_true, decide_eq_true_eq]

theorem units_append (s t : String) : units (s ++ t) = units s ++ units t := by
  rw [units, String.toList_append, List.flatMap_append]
  rfl

theorem units_ofList (cs : List Char) : units (String.ofList cs) = cs.flatMap utf16 := by
  rw [units, String.toList_ofList]

theorem utf16_of_lt {c : Char} (h : c.toNat < 128) : utf16 c = [UInt16.ofNat c.toNat] :=
  if_pos (by omega)

/-- A text of ASCII characters has one unit for each. -/
theorem flatMap_utf16 {cs : List Char} (h : ∀ c ∈ cs, c.toNat < 128) :
    cs.flatMap utf16 = cs.map fun c => UInt16.ofNat c.toNat := by
  induction cs with
  | nil => rfl
  | cons c cs ih =>
      obtain ⟨hc, hcs⟩ := List.forall_mem_cons.mp h
      rw [List.flatMap_cons, utf16_of_lt hc, ih hcs]
      rfl

/-- The number of units of a character, and of bytes. -/
theorem length_utf16 (c : Char) : (utf16 c).length ≤ c.utf8Size ∧
    ((utf16 c).length = c.utf8Size ↔ c.toNat < 128) := by
  have hval : c.val.toNat = c.toNat := rfl
  rw [utf16, Char.utf8Size]
  simp only [UInt32.le_iff_toNat_le, UInt32.toNat_ofNatLT, hval]
  split <;> simp only [List.length_cons, List.length_nil] <;> (repeat' split) <;> omega

/-- The units of a character are those of no ASCII character but itself. -/
theorem eq_of_mem_utf16 {c d : Char} (hd : d.toNat < 128)
    (h : UInt16.ofNat d.toNat ∈ utf16 c) : c = d := by
  have hvalid : c.toNat < 0x110000 := by
    have hval : c.val.toNat = c.toNat := rfl
    rcases c.valid with h | h <;> omega
  have hsmall : (UInt16.ofNat d.toNat).toNat = d.toNat := by
    rw [UInt16.toNat_ofNat']
    exact Nat.mod_eq_of_lt (by omega)
  rw [utf16] at h
  split at h
  · have heq := congrArg UInt16.toNat (List.mem_singleton.mp h)
    rw [hsmall, UInt16.toNat_ofNat'] at heq
    exact Char.ext (UInt32.toNat_inj.mp (show c.toNat = d.toNat by omega))
  · exfalso
    simp only [List.mem_cons, List.not_mem_nil, or_false] at h
    rcases h with h | h
    · have heq := congrArg UInt16.toNat h
      rw [hsmall, UInt16.toNat_ofNat'] at heq
      omega
    · have heq := congrArg UInt16.toNat h
      rw [hsmall, UInt16.toNat_ofNat'] at heq
      omega

theorem length_textBytes_ofList (cs : List Char) :
    (textBytes (String.ofList cs)).length = (cs.map Char.utf8Size).sum := by
  rw [textBytes_ofList, List.length_flatMap]
  simp only [String.length_utf8EncodeChar]

/-- A text has at most as many units as bytes, and as many when it is ASCII. -/
theorem length_units (s : String) : (units s).length ≤ (textBytes s).length ∧
    ((units s).length = (textBytes s).length ↔ IsAscii s) := by
  obtain ⟨cs, rfl⟩ := s.exists_eq_ofList
  rw [units_ofList, length_textBytes_ofList, IsAscii, String.toList_ofList]
  induction cs with
  | nil => exact ⟨le_rfl, fun _ _ h => absurd h List.not_mem_nil, fun _ => rfl⟩
  | cons c cs ih =>
      obtain ⟨hle, hiff⟩ := ih
      obtain ⟨hcle, hciff⟩ := length_utf16 c
      rw [List.flatMap_cons, List.length_append, List.map_cons, List.sum_cons,
        List.forall_mem_cons, ← hiff, ← hciff]
      omega

end Js

end Weftik
