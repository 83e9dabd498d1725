import Weftik.Bytes
import Weftik.Lib.Ieee
import Weftik.Modbus.Mapping
import Weftik.DebugText

/-!
# Values on the Field Buses

Modbus and HART carry a value as registers or as the bytes of a variable, together with the
type that they are to be read with. What is read is compared with the value by what the two
denote: a truth value, a number, or a sequence of bytes.

A HART variable is a float, an unsigned number of one, two or three bytes, or the two status
bytes, the high byte first. A `u32` value goes as a number of three bytes. The Modbus register
type of a boolean is read as an array, and 64-bit integers are read as floats.

## Main definitions

* `Hart.VariableType`: the types of variables.
* `Hart.variablesToHalvalue`, `Hart.halvalueToVariables`: the value of the bytes of a variable,
  and the bytes of a value.
* `FieldBus.denotes`: what a value denotes.
* `FieldBus.ModbusKeeps`, `FieldBus.HartKeeps`: a bus does not change a value.

## Main results

* `FieldBus.keeps_iff`: the values that are not changed.
-/

namespace Weftik.Hart

variable {P : Platform}

/-- The types of HART variables. -/
inductive VariableType
  | float | u8 | u16 | u24 | status
  deriving DecidableEq, Repr

/-- The type of the values of a variable. -/
def VariableType.toPinType : VariableType → HalPinType
  | .float => .f32
  | .u8 => .u8
  | .u16 => .u16
  | .u24 => .u32
  | .status => .u16

/-- The errors of the conversions. -/
inductive HartError
  | invalidData (text : String)
  | unsupported (text : String)
  deriving DecidableEq, Repr

/-- `u32::from_be_bytes`. -/
def u32OfBytes (b₀ b₁ b₂ b₃ : UInt8) : UInt32 :=
  (b₀.toUInt32 <<< 24) ||| (b₁.toUInt32 <<< 16) ||| (b₂.toUInt32 <<< 8) ||| b₃.toUInt32

/-- `u32::to_be_bytes`. -/
def u32Bytes (n : UInt32) : List UInt8 :=
  [(n >>> 24).toUInt8, (n >>> 16).toUInt8, (n >>> 8).toUInt8, n.toUInt8]

/-- `u16::from_be_bytes`. -/
def u16OfBytes (b₀ b₁ : UInt8) : UInt16 :=
  (b₀.toUInt16 <<< 8) ||| b₁.toUInt16

/-- `u16::to_be_bytes`. -/
def u16Bytes (n : UInt16) : List UInt8 :=
  [(n >>> 8).toUInt8, n.toUInt8]

/-- `decode_u24_be`. -/
def decodeU24Be (b₀ b₁ b₂ : UInt8) : UInt32 :=
  (b₀.toUInt32 <<< 16) ||| (b₁.toUInt32 <<< 8) ||| b₂.toUInt32

/-- The value of the bytes of a variable. -/
def variablesToHalvalue (data : List UInt8) (varType : VariableType) :
    Except HartError (HalValue P) :=
  match varType, data with
  | .float, b₀ :: b₁ :: b₂ :: b₃ :: _ => .ok (.f32 (P.ofBits32 (u32OfBytes b₀ b₁ b₂ b₃)))
  | .float, _ => .error (.invalidData "float requires 4 bytes")
  | .u8, b₀ :: _ => .ok (.u8 b₀)
  | .u8, _ => .error (.invalidData "u8 requires 1 byte")
  | .u16, b₀ :: b₁ :: _ => .ok (.u16 (u16OfBytes b₀ b₁))
  | .u16, _ => .error (.invalidData "u16 requires 2 bytes")
  | .u24, b₀ :: b₁ :: b₂ :: _ => .ok (.u32 (decodeU24Be b₀ b₁ b₂))
  | .u24, _ => .error (.invalidData "u24 requires 3 bytes")
  | .status, b₀ :: b₁ :: _ => .ok (.u16 (u16OfBytes b₀ b₁))
  | .status, _ => .error (.invalidData "status requires 2 bytes")

/-- The bytes of a value, and the type of the variable. -/
def halvalueToVariables (T : DebugText P) (value : HalValue P) :
    Except HartError (List UInt8 × VariableType) :=
  match value with
  | .f32 v => .ok (u32Bytes (P.toBits32 v), .float)
  | .u8 v => .ok ([v], .u8)
  | .u16 v => .ok (u16Bytes v, .u16)
  -- the first of the four bytes is left out
  | .u32 v => .ok ((u32Bytes v).drop 1, .u24)
  | other =>
      .error (.unsupported
        s!"HalValue variant {String.ofList (other.debug T)} has no HART wire equivalent")

/-! ### Bytes of numbers -/

/-- Four bytes give the number back. -/
theorem u32OfBytes_u32Bytes (n : UInt32) :
    u32OfBytes (n >>> 24).toUInt8 (n >>> 16).toUInt8 (n >>> 8).toUInt8 n.toUInt8 = n := by
  apply UInt32.toBitVec_inj.mp
  ext i hi
  simp [u32OfBytes, -UInt32.toUInt32_toUInt8]
  grind

/-- Two bytes give the number back. -/
theorem u16OfBytes_u16Bytes (n : UInt16) :
    u16OfBytes (n >>> 8).toUInt8 n.toUInt8 = n := by
  apply UInt16.toBitVec_inj.mp
  ext i hi
  simp [u16OfBytes, -UInt16.toUInt16_toUInt8]
  grind

/-- The bits of the mask of three bytes. -/
theorem mask_bits : ∀ j : Fin 32, (16777215#32)[j] = decide (j.val < 24) := by
  decide

/-- Three bytes give the low bits of the number back. -/
theorem decodeU24Be_u32Bytes (n : UInt32) :
    decodeU24Be (n >>> 16).toUInt8 (n >>> 8).toUInt8 n.toUInt8 = n &&& 0xFFFFFF := by
  apply UInt32.toBitVec_inj.mp
  ext i hi
  have hmask : (16777215#32)[i] = decide (i < 24) := mask_bits ⟨i, hi⟩
  simp [decodeU24Be, -UInt32.toUInt32_toUInt8, hmask]
  grind

/-- The low bits of a number are the number when there are no others. -/
theorem and_low_eq_iff (n : UInt32) : n &&& 0xFFFFFF = n ↔ n.toNat < 2 ^ 24 := by
  have hlow : (n &&& 0xFFFFFF).toNat = n.toNat % 2 ^ 24 := by
    rw [UInt32.toNat_and]
    exact Nat.and_two_pow_sub_one_eq_mod n.toNat 24
  rw [← UInt32.toNat_inj, hlow]
  exact ⟨fun h => h ▸ Nat.mod_lt _ (Nat.two_pow_pos 24), Nat.mod_eq_of_lt⟩

end Weftik.Hart

namespace Weftik.FieldBus

open Modbus Hart

variable {P : Platform}

/-! ### What a value denotes -/

/-- What a value denotes. -/
inductive Meaning
  | truth (b : Bool)
  | number (x : Ieee.Value)
  | bytes (data : List UInt8)
  deriving DecidableEq

/-- The number of an integer. -/
def integer (n : ℤ) : Meaning :=
  .number (.finite n)

/-- Natural numbers are known from what they denote. -/
theorem integer_inj {m n : ℕ} (h : integer m = integer n) : m = n := by
  have hq := Ieee.Value.finite.inj (Meaning.number.inj h)
  exact_mod_cast hq

/-- What a value denotes. A float is the number of its bits. -/
def denotes : HalValue P → Meaning
  | .bool b => .truth b
  | .s8 n => integer n.toInt
  | .u8 n => integer n.toNat
  | .s16 n => integer n.toInt
  | .u16 n => integer n.toNat
  | .s32 n => integer n.toInt
  | .u32 n => integer n.toNat
  | .s64 n => integer n.toInt
  | .u64 n => integer n.toNat
  | .f32 x => .number (Ieee.single (P.toBits32 x).toNat)
  | .f64 x => .number (Ieee.double (P.toBits64 x).toNat)
  | .blob data => .bytes data
  | .string text => .bytes text.toUTF8.toList
  | .array _ data => .bytes data

/-- What Modbus carries of the value is read as a value that denotes the same. -/
def ModbusKeeps (value : HalValue P) : Prop :=
  ∀ regs type, halvalueToRegisters value = .ok (regs, type) →
    ∃ read : HalValue P, registersToHalvalue regs type = .ok read ∧ denotes read = denotes value

/-- What HART carries of the value is read as a value that denotes the same. -/
def HartKeeps (T : DebugText P) (value : HalValue P) : Prop :=
  ∀ data type, halvalueToVariables T value = .ok (data, type) →
    ∃ read : HalValue P, variablesToHalvalue data type = .ok read ∧ denotes read = denotes value

/-! ### Registers and bytes -/

/-- Two registers give the number back. -/
theorem word32_registers32 (n : UInt32) : word32 (n >>> 16).toUInt16 n.toUInt16 = n := by
  apply UInt32.toBitVec_inj.mp
  ext i hi
  simp [word32, -UInt32.toUInt32_toUInt16]
  grind

/-- Four registers give the number back. -/
theorem word64_registers64 (n : UInt64) :
    word64 (n >>> 48).toUInt16 (n >>> 32).toUInt16 (n >>> 16).toUInt16 n.toUInt16 = n := by
  apply UInt64.toBitVec_inj.mp
  ext i hi
  simp [word64, -UInt64.toUInt64_toUInt16]
  grind

/-- The low byte of a register. -/
theorem low_register (low high : UInt8) :
    (low.toUInt16 ||| (high.toUInt16 <<< 8)).toUInt8 = low := by
  apply UInt8.toBitVec_inj.mp
  ext i hi
  simp

/-- The high byte of a register. -/
theorem high_register (low high : UInt8) :
    ((low.toUInt16 ||| (high.toUInt16 <<< 8)) >>> 8).toUInt8 = high := by
  apply UInt8.toBitVec_inj.mp
  ext i hi
  simp
  grind

/-- The registers of an even number of bytes give the bytes back. -/
theorem registerBytes_byteRegisters {bytes : List UInt8} (h : bytes.length % 2 = 0) :
    registerBytes (byteRegisters bytes) = bytes := by
  induction bytes using byteRegisters.induct with
  | case1 low high rest ih =>
      rw [List.length_cons, List.length_cons] at h
      have hrest := ih (by omega)
      rw [registerBytes] at hrest ⊢
      rw [byteRegisters, List.flatMap_cons, hrest, low_register, high_register]
      rfl
  | case2 bytes hshort =>
      cases bytes with
      | nil => rfl
      | cons b bytes =>
          cases bytes with
          | nil => cases h
          | cons c bytes => exact absurd rfl (hshort b c bytes)

/-! ### Modbus -/

/-- A value that Modbus carries is kept if what is read denotes the same. -/
theorem modbusKeeps_of_eq (read : HalValue P) {value : HalValue P} {regs : List UInt16}
    {type : RegisterType}
    (hregs : halvalueToRegisters value = .ok (regs, type))
    (hread : registersToHalvalue regs type = .ok read) :
    ModbusKeeps value ↔ denotes read = denotes value := by
  constructor
  · intro h
    obtain ⟨read', hread', hsame⟩ := h regs type hregs
    rw [hread] at hread'
    exact (Except.ok.inj hread').symm ▸ hsame
  · intro h regs' type' hregs'
    rw [hregs] at hregs'
    obtain ⟨rfl, rfl⟩ := Prod.mk.inj (Except.ok.inj hregs')
    exact ⟨read, hread, h⟩

/-- A sequence of bytes is kept. -/
theorem modbusKeeps_bytes {value : HalValue P} {name suffix : String} {data : List UInt8}
    (hregs : halvalueToRegisters value = bytesToRegisters name suffix data)
    (hvalue : denotes value = .bytes data) : ModbusKeeps value := by
  intro regs type h
  rw [hregs, bytesToRegisters] at h
  split at h
  · cases h
  · rename_i heven
    obtain ⟨rfl, rfl⟩ := Prod.mk.inj (Except.ok.inj h)
    refine ⟨.array .u16 (registerBytes (byteRegisters data)), rfl, ?_⟩
    rw [registerBytes_byteRegisters (not_not.mp heven), hvalue, denotes]

/-- The two's complement of a number of 64 bits. -/
theorem toNat_toUInt64 (n : Int64) : n.toUInt64.toNat = (n.toInt % 2 ^ 64).toNat := by
  have hlt := n.toBitVec.isLt
  have hcond := BitVec.toInt_eq_toNat_cond n.toBitVec
  change n.toBitVec.toNat = (n.toBitVec.toInt % 2 ^ 64).toNat
  split at hcond <;> omega

/-- The values that Modbus does not change. -/
def ModbusFits : HalValue P → Prop
  | .bool _ => False
  | .s64 n => n = 0
  | .u64 n => n = 0
  | _ => True

/-- Modbus keeps the values that fit, and no others. -/
theorem modbusKeeps_iff (hbits : P.BitsBack) (value : HalValue P) :
    ModbusKeeps value ↔ ModbusFits value := by
  cases value with
  | bool b =>
      have hread : registersToHalvalue [if b then 1 else 0] .coil =
          .ok (.array .bool (registerBytes [if b then 1 else 0]) : HalValue P) := rfl
      rw [modbusKeeps_of_eq _ rfl hread]
      exact iff_of_false nofun id
  | s8 n =>
      rw [modbusKeeps_of_eq (.s16 n.toInt16.toUInt16.toInt16) rfl rfl]
      refine iff_of_true ?_ trivial
      rw [denotes, denotes, Int16.toInt16_toUInt16, Int8.toInt_toInt16]
  | u8 n =>
      rw [modbusKeeps_of_eq (.u16 n.toUInt16) rfl rfl]
      refine iff_of_true ?_ trivial
      rw [denotes, denotes, UInt8.toNat_toUInt16]
  | s16 n =>
      rw [modbusKeeps_of_eq (.s16 n.toUInt16.toInt16) rfl rfl]
      refine iff_of_true ?_ trivial
      rw [Int16.toInt16_toUInt16]
  | u16 n => exact iff_of_true ((modbusKeeps_of_eq (.u16 n) rfl rfl).mpr rfl) trivial
  | s32 n =>
      rw [modbusKeeps_of_eq (.s32 _) rfl rfl]
      refine iff_of_true ?_ trivial
      rw [word32_registers32, Int32.toInt32_toUInt32]
  | u32 n =>
      rw [modbusKeeps_of_eq (.u32 _) rfl rfl]
      refine iff_of_true ?_ trivial
      rw [word32_registers32]
  | f32 x =>
      rw [modbusKeeps_of_eq (.f32 _) rfl rfl]
      refine iff_of_true ?_ trivial
      rw [word32_registers32, denotes, denotes, hbits.f32]
  | f64 x =>
      rw [modbusKeeps_of_eq (.f64 _) rfl rfl]
      refine iff_of_true ?_ trivial
      rw [word64_registers64, denotes, denotes, hbits.f64]
  | s64 n =>
      rw [modbusKeeps_of_eq (.f64 _) rfl rfl, word64_registers64, denotes, denotes,
        hbits.f64, integer, Meaning.number.injEq, toNat_toUInt64]
      refine (Ieee.double_eq_signed_iff n.le_toInt n.toInt_lt).trans ?_
      rw [ModbusFits, ← Int64.toInt_inj, Int64.toInt_zero]
  | u64 n =>
      rw [modbusKeeps_of_eq (.f64 _) rfl rfl, word64_registers64, denotes, denotes,
        hbits.f64, integer, Meaning.number.injEq]
      refine (Ieee.double_eq_iff n.toNat_lt).trans ?_
      rw [ModbusFits, ← UInt64.toNat_inj, UInt64.toNat_zero]
  | blob data => exact iff_of_true (modbusKeeps_bytes rfl rfl) trivial
  | string text => exact iff_of_true (modbusKeeps_bytes rfl rfl) trivial
  | array elementType data =>
      refine iff_of_true ?_ trivial
      by_cases htype : elementType = .u16
      · subst htype
        exact modbusKeeps_bytes rfl rfl
      · intro regs type h
        rw [halvalueToRegisters, if_pos htype] at h
        cases h

/-! ### HART -/

/-- A value that HART carries is kept if what is read denotes the same. -/
theorem hartKeeps_of_eq (read : HalValue P) {T : DebugText P} {value : HalValue P}
    {data : List UInt8} {type : VariableType}
        (hdata : halvalueToVariables T value = .ok (data, type))
    (hread : variablesToHalvalue data type = .ok read) :
    HartKeeps T value ↔ denotes read = denotes value := by
  constructor
  · intro h
    obtain ⟨read', hread', hsame⟩ := h data type hdata
    rw [hread] at hread'
    exact (Except.ok.inj hread').symm ▸ hsame
  · intro h data' type' hdata'
    rw [hdata] at hdata'
    obtain ⟨rfl, rfl⟩ := Prod.mk.inj (Except.ok.inj hdata')
    exact ⟨read, hread, h⟩

/-- The values that HART does not change. -/
def HartFits : HalValue P → Prop
  | .u32 n => n.toNat < 2 ^ 24
  | _ => True

/-- HART keeps the values that fit, and no others. -/
theorem hartKeeps_iff (hbits : P.BitsBack) (T : DebugText P) (value : HalValue P) :
    HartKeeps T value ↔ HartFits value := by
  cases value with
  | f32 x =>
      rw [hartKeeps_of_eq (.f32 _) rfl rfl]
      refine iff_of_true ?_ trivial
      rw [u32OfBytes_u32Bytes, denotes, denotes, hbits.f32]
  | u8 n => exact iff_of_true ((hartKeeps_of_eq (.u8 n) rfl rfl).mpr rfl) trivial
  | u16 n =>
      rw [hartKeeps_of_eq (.u16 _) rfl rfl]
      refine iff_of_true ?_ trivial
      rw [u16OfBytes_u16Bytes]
  | u32 n =>
      rw [hartKeeps_of_eq (.u32 _) rfl rfl, decodeU24Be_u32Bytes, denotes, denotes,
        HartFits, ← and_low_eq_iff]
      exact ⟨fun h => UInt32.toNat_inj.mp (integer_inj h), fun h => by rw [h]⟩
  | bool | s8 | s16 | s32 | s64 | u64 | f64 | blob | string | array =>
      refine iff_of_true (fun data type h => ?_) trivial
      cases h

/-- **The buses do not change a value** if and only if it fits: Modbus changes every boolean
and every 64-bit integer but zero, and HART the `u32` numbers of more than three bytes. -/
theorem keeps_iff (hbits : P.BitsBack) (T : DebugText P) (value : HalValue P) :
    (ModbusKeeps value ↔ ModbusFits value) ∧ (HartKeeps T value ↔ HartFits value) :=
  ⟨modbusKeeps_iff hbits value, hartKeeps_iff hbits T value⟩

/-- The bits of a number of the exact platform. -/
theorem bitsBack_exact : Platform.exact.BitsBack where
  f32 n := by
    change UInt32.ofNat ((n.toNat : ℚ).num.natAbs) = n
    rw [Rat.num_natCast, Int.natAbs_natCast, UInt32.ofNat_toNat]
  f64 n := by
    change UInt64.ofNat ((n.toNat : ℚ).num.natAbs) = n
    rw [Rat.num_natCast, Int.natAbs_natCast, UInt64.ofNat_toNat]

/-- A negative number of 16 bits goes through Modbus. -/
theorem keeps_s16 :
    (ModbusKeeps (P := .exact) (.s16 (-5)) ↔ ModbusFits (P := .exact) (.s16 (-5))) ∧
      (HartKeeps (P := .exact) exactText (.s16 (-5)) ↔
        HartFits (P := .exact) (.s16 (-5))) :=
  keeps_iff bitsBack_exact exactText (.s16 (-5))

/-- The registers of a boolean are read as an array. -/
theorem keeps_bool :
    ¬ ∀ (P : Platform), P.BitsBack → ∀ (T : DebugText P) (value : HalValue P),
      ModbusKeeps value ∧ HartKeeps T value := by
  intro h
  have hkeeps := (h .exact bitsBack_exact exactText (.bool true)).1
  exact (modbusKeeps_iff bitsBack_exact (.bool true)).mp hkeeps

end Weftik.FieldBus
