import Weftik.HalValue

/-!
# Values as Bytes

The codecs of the repository write numbers as little-endian bytes, signed ones in two's
complement, floats as their bits and texts as UTF-8. The bytes of each give it back.

## Main results

* `HalValue.ofLeBytes_leBytes`, `HalValue.leBytes_ofLeBytes`: numbers and bytes.
* `HalValue.ofTextBytes_textBytes`: texts and bytes.
-/

namespace Weftik

variable {P : Platform}

/-- `from_bits` undoes `to_bits`, as the standard library documents. -/
structure Platform.BitsExact (P : Platform) : Prop where
  f32 : ∀ x, P.ofBits32 (P.toBits32 x) = x
  f64 : ∀ x, P.ofBits64 (P.toBits64 x) = x

/-- `to_bits` undoes `from_bits`, as the standard library documents. -/
structure Platform.BitsBack (P : Platform) : Prop where
  f32 : ∀ b, P.toBits32 (P.ofBits32 b) = b
  f64 : ∀ b, P.toBits64 (P.ofBits64 b) = b

namespace HalValue

/-! ### Little-endian bytes -/

@[simp] theorem length_leBytes (k n : ℕ) : (leBytes k n).length = k := by
  induction k generalizing n with
  | zero => rfl
  | succ k ih => exact congrArg Nat.succ (ih _)

/-- The bytes of a number give the number back, reduced to the width they hold. -/
theorem ofLeBytes_leBytes (k n : ℕ) : ofLeBytes (leBytes k n) = n % 256 ^ k := by
  induction k generalizing n with
  | zero => exact (Nat.mod_one n).symm
  | succ k ih =>
      have hbyte : (UInt8.ofNat (n % 256)).toNat = n % 256 := by simp
      rw [leBytes, ofLeBytes, ih, hbyte, Nat.pow_succ, Nat.mul_comm (256 ^ k) 256, Nat.mod_mul]

theorem ofLeBytes_leBytes_of_lt {k n : ℕ} (h : n < 256 ^ k) :
    ofLeBytes (leBytes k n) = n := by
  rw [ofLeBytes_leBytes, Nat.mod_eq_of_lt h]

/-- The number of some bytes gives the bytes back. -/
theorem leBytes_ofLeBytes (bytes : List UInt8) :
    leBytes bytes.length (ofLeBytes bytes) = bytes := by
  induction bytes with
  | nil => rfl
  | cons b bytes ih =>
      have hlt : b.toNat < 256 := b.toNat_lt
      have hmod : (b.toNat + 256 * ofLeBytes bytes) % 256 = b.toNat := by omega
      have hdiv : (b.toNat + 256 * ofLeBytes bytes) / 256 = ofLeBytes bytes := by omega
      rw [List.length_cons, ofLeBytes, leBytes, hmod, hdiv, ih, UInt8.ofNat_toNat]

theorem ofLeBytes_lt (bytes : List UInt8) : ofLeBytes bytes < 256 ^ bytes.length := by
  induction bytes with
  | nil => exact Nat.one_pos
  | cons b bytes ih =>
      have hlt : b.toNat < 256 := b.toNat_lt
      rw [ofLeBytes, List.length_cons, Nat.pow_succ]
      omega

@[simp] theorem length_intBytes (k : ℕ) (n : ℤ) : (intBytes k n).length = k :=
  length_leBytes k _

/-- The two's complement of an integer gives it back, modulo the width. -/
theorem ofLeBytes_intBytes (k : ℕ) (n : ℤ) :
    ((ofLeBytes (intBytes k n) : ℕ) : ℤ) = n % 256 ^ k := by
  have hpos : (0 : ℤ) < 256 ^ k := by positivity
  have hnonneg : 0 ≤ n % 256 ^ k := Int.emod_nonneg n hpos.ne'
  have hlt : (n % 256 ^ k).toNat < 256 ^ k := by
    zify
    rw [Int.toNat_of_nonneg hnonneg]
    exact Int.emod_lt_of_pos n hpos
  rw [intBytes, ofLeBytes_leBytes_of_lt hlt, Int.toNat_of_nonneg hnonneg]

/-- The bytes of a text. -/
def textBytes (text : String) : List UInt8 := text.toUTF8.data.toList

/-- The text with the given bytes; `none` when they are no UTF-8. -/
def ofTextBytes (bytes : List UInt8) : Option String := String.fromUTF8? bytes.toByteArray

@[simp] theorem ofTextBytes_textBytes (text : String) :
    ofTextBytes (textBytes text) = some text := by
  have hbytes : (textBytes text).toByteArray = text.toUTF8 := by
    refine ByteArray.ext (Array.toList_inj.mp ?_)
    rw [textBytes, List.toList_data_toByteArray]
  rw [ofTextBytes, hbytes, String.toUTF8_eq_toByteArray, String.fromUTF8?,
    dif_pos text.isValidUTF8]
  rfl

/-- Bytes that are read as a text are those of the text. -/
theorem textBytes_of_ofTextBytes {bytes : List UInt8} {text : String}
    (h : ofTextBytes bytes = some text) : textBytes text = bytes := by
  rw [ofTextBytes, String.fromUTF8?] at h
  split at h
  · obtain rfl := Option.some.inj h
    exact List.toList_data_toByteArray
  · cases h

/-- The number of bytes that the length field of a value counts. -/
def dataLength : HalValue P → ℕ
  | blob bytes => bytes.length
  | string text => (textBytes text).length
  | array _ data => data.length
  | _ => 0

/-! A signed integer is the bytes of its two's complement. -/

theorem bmod_emod {m : ℕ} {a : ℤ} (hlo : -(m / 2 : ℤ) ≤ a) (hhi : a < (m + 1) / 2) :
    (a % m).bmod m = a := by
  rw [Int.emod_bmod, Int.bmod_eq_of_le hlo hhi]

theorem ofNat_intBytes_int8 (a : Int8) : Int8.ofNat (ofLeBytes (intBytes 1 a.toInt)) = a := by
  rw [← Int8.ofInt_eq_ofNat, ofLeBytes_intBytes, Int8.ofInt_eq_iff_bmod_eq_toInt]
  exact bmod_emod a.le_toInt a.toInt_lt

theorem ofNat_intBytes_int16 (a : Int16) :
    Int16.ofNat (ofLeBytes (intBytes 2 a.toInt)) = a := by
  rw [← Int16.ofInt_eq_ofNat, ofLeBytes_intBytes, Int16.ofInt_eq_iff_bmod_eq_toInt]
  exact bmod_emod a.le_toInt a.toInt_lt

theorem ofNat_intBytes_int32 (a : Int32) :
    Int32.ofNat (ofLeBytes (intBytes 4 a.toInt)) = a := by
  rw [← Int32.ofInt_eq_ofNat, ofLeBytes_intBytes, Int32.ofInt_eq_iff_bmod_eq_toInt]
  exact bmod_emod a.le_toInt a.toInt_lt

theorem ofNat_intBytes_int64 (a : Int64) :
    Int64.ofNat (ofLeBytes (intBytes 8 a.toInt)) = a := by
  rw [← Int64.ofInt_eq_ofNat, ofLeBytes_intBytes, Int64.ofInt_eq_iff_bmod_eq_toInt]
  exact bmod_emod a.le_toInt a.toInt_lt

end HalValue

end Weftik
