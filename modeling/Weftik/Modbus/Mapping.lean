import Weftik.HalValue

/-!
# Values and Registers

A Modbus device has tables of bits and of sixteen-bit registers. A value of more than
sixteen bits is several registers, the high word first; blobs, strings and arrays of `U16`
are read two bytes a register, the low byte first.

## Main definitions

* `Modbus.registersToHalvalue`, `Modbus.halvalueToRegisters`: the conversions.
* `Modbus.Device`: the tables of a device.
* `Modbus.Device.Holds`: what it means that the target of a mapping holds a value.
-/

namespace Weftik.Modbus

variable {P : Platform}

/-- The errors that the modelled functions return. -/
inductive ModbusError
  | io (text : String)
  | invalidData (text : String)
  | unsupported (text : String)
  deriving DecidableEq, Repr

/-- How registers are interpreted. -/
inductive RegisterType
  | u16 | s16 | u32 | s32 | f32 | f64 | coil | arrayU16
  deriving DecidableEq, Repr

/-- The table a mapping reads or writes. -/
inductive RegisterMappingType
  | coil | discreteInput | holdingRegister | inputRegister
  deriving DecidableEq, Repr

/-- Where the values of a mapping go. -/
inductive SignalDirection
  | read | write
  deriving DecidableEq, Repr

/-- A signal and the places of the device it is bound to. -/
structure RegisterMapping where
  signalName : String
  registerType : RegisterMappingType
  address : UInt16
  count : UInt16
  direction : SignalDirection
  deriving DecidableEq, Repr

/-! ### The conversions -/

/-- The name of a type in a debug text. -/
def debugName : HalPinType → String
  | .bool => "Bool"
  | .s8 => "S8"
  | .u8 => "U8"
  | .s16 => "S16"
  | .u16 => "U16"
  | .s32 => "S32"
  | .u32 => "U32"
  | .s64 => "S64"
  | .u64 => "U64"
  | .f32 => "F32"
  | .f64 => "F64"
  | .blob => "Blob"
  | .string => "String"

/-- The bytes of the registers, the low byte first. -/
def registerBytes (regs : List UInt16) : List UInt8 :=
  regs.flatMap fun (r : UInt16) => [r.toUInt8, (r >>> 8).toUInt8]

/-- The registers of an even number of bytes. -/
def byteRegisters : List UInt8 → List UInt16
  | low :: high :: rest => (low.toUInt16 ||| (high.toUInt16 <<< 8)) :: byteRegisters rest
  | _ => []

/-- The value of the bits that have been read. -/
def coilsToHalvalue (coils : List UInt8) : HalValue P :=
  match coils with
  | [] => .bool false
  | [coil] => .bool (coil != 0)
  | coils => .array .bool coils

/-- Two registers as a number of 32 bits. -/
def word32 (high low : UInt16) : UInt32 :=
  (high.toUInt32 <<< 16) ||| low.toUInt32

/-- Four registers as a number of 64 bits. -/
def word64 (r₀ r₁ r₂ r₃ : UInt16) : UInt64 :=
  (r₀.toUInt64 <<< 48) ||| (r₁.toUInt64 <<< 32) ||| (r₂.toUInt64 <<< 16) ||| r₃.toUInt64

/-- Too few registers for a value of two or four of them. -/
def tooFew (need : ℕ) (name : String) (regs : List UInt16) : ModbusError :=
  .invalidData s!"need {need} registers for {name}, got {regs.length}"

/-- The value of the registers that have been read. -/
def registersToHalvalue (regs : List UInt16) (targetType : RegisterType) :
    Except ModbusError (HalValue P) :=
  match targetType, regs with
  | .u16, [] => .error (.invalidData "empty register slice for U16")
  | .u16, r :: _ => .ok (.u16 r)
  | .s16, [] => .error (.invalidData "empty register slice for S16")
  | .s16, r :: _ => .ok (.s16 r.toInt16)
  | .u32, r₀ :: r₁ :: _ => .ok (.u32 (word32 r₀ r₁))
  | .u32, regs => .error (tooFew 2 "U32" regs)
  | .s32, r₀ :: r₁ :: _ => .ok (.s32 (word32 r₀ r₁).toInt32)
  | .s32, regs => .error (tooFew 2 "S32" regs)
  | .f32, r₀ :: r₁ :: _ => .ok (.f32 (P.ofBits32 (word32 r₀ r₁)))
  | .f32, regs => .error (tooFew 2 "F32" regs)
  | .f64, r₀ :: r₁ :: r₂ :: r₃ :: _ => .ok (.f64 (P.ofBits64 (word64 r₀ r₁ r₂ r₃)))
  | .f64, regs => .error (tooFew 4 "F64" regs)
  | .coil, regs => .ok (coilsToHalvalue (registerBytes regs))
  | .arrayU16, regs => .ok (.array .u16 (registerBytes regs))

/-- The registers of 32 bits. -/
def registers32 (bits : UInt32) : List UInt16 :=
  [(bits >>> 16).toUInt16, bits.toUInt16]

/-- The registers of 64 bits. -/
def registers64 (bits : UInt64) : List UInt16 :=
  [(bits >>> 48).toUInt16, (bits >>> 32).toUInt16, (bits >>> 16).toUInt16, bits.toUInt16]

/-- The registers of a sequence of bytes, of an even length. -/
def bytesToRegisters (name : String) (suffix : String) (bytes : List UInt8) :
    Except ModbusError (List UInt16 × RegisterType) :=
  if bytes.length % 2 ≠ 0 then
    .error (.invalidData s!"{name} length {bytes.length} not a multiple of 2{suffix}")
  else .ok (byteRegisters bytes, .arrayU16)

/-- The registers of a value, and the type they are to be read with. -/
def halvalueToRegisters (value : HalValue P) :
    Except ModbusError (List UInt16 × RegisterType) :=
  match value with
  | .bool v => .ok ([if v then 1 else 0], .coil)
  | .s8 v => .ok ([v.toInt16.toUInt16], .s16)
  | .u8 v => .ok ([v.toUInt16], .u16)
  | .s16 v => .ok ([v.toUInt16], .s16)
  | .u16 v => .ok ([v], .u16)
  | .s32 v => .ok (registers32 v.toUInt32, .s32)
  | .u32 v => .ok (registers32 v, .u32)
  | .s64 v => .ok (registers64 v.toUInt64, .f64)
  | .u64 v => .ok (registers64 v, .f64)
  | .f32 v => .ok (registers32 (P.toBits32 v), .f32)
  | .f64 v => .ok (registers64 (P.toBits64 v), .f64)
  | .blob v => bytesToRegisters "Blob" " (u16)" v
  | .array elementType data =>
      if elementType ≠ .u16 then
        .error (.unsupported
          s!"Array element type {debugName elementType} not supported for Modbus")
      else bytesToRegisters "Array data" "" data
  | .string s => bytesToRegisters "String" "" s.toUTF8.toList

/-! ### The device -/

/-- The four tables of a device. -/
structure Device where
  coils : ℕ → Bool
  discreteInputs : ℕ → Bool
  holdingRegisters : ℕ → UInt16
  inputRegisters : ℕ → UInt16

/-- The entries of a table from an address on. -/
def contents {α : Type} (table : ℕ → α) (address count : ℕ) : List α :=
  (List.range count).map fun i => table (address + i)

/-- The table with the values written from an address on. -/
def store {α : Type} (table : ℕ → α) (address : ℕ) (values : List α) : ℕ → α :=
  fun a => if address ≤ a then (values[a - address]?).getD (table a) else table a

/-- The bits of a value: those that a read of them gives back as the value. -/
def halvalueToCoils : HalValue P → Option (List Bool)
  | .bool v => some [v]
  | .array .bool data => some (data.map (· != 0))
  | _ => none

/-- The entries of a table of bits are those of the value. -/
def HoldsBits (bits : List Bool) (value : HalValue P) : Prop :=
  halvalueToCoils value = some bits

/-- The entries of a table of registers are those of the value. -/
def HoldsRegisters (regs : List UInt16) (value : HalValue P) : Prop :=
  ∃ type, halvalueToRegisters value = .ok (regs, type)

/-- The target of the mapping, the given number of entries of its table from its address
on, holds the value. -/
def Device.Holds (d : Device) (m : RegisterMapping) (value : HalValue P) : Prop :=
  match m.registerType with
  | .coil => HoldsBits (contents d.coils m.address.toNat m.count.toNat) value
  | .discreteInput =>
      HoldsBits (contents d.discreteInputs m.address.toNat m.count.toNat) value
  | .holdingRegister =>
      HoldsRegisters (contents d.holdingRegisters m.address.toNat m.count.toNat) value
  | .inputRegister =>
      HoldsRegisters (contents d.inputRegisters m.address.toNat m.count.toNat) value

section Tables

variable {α : Type} {table : ℕ → α} {address count : ℕ} {values : List α}

@[simp]
theorem length_contents : (contents table address count).length = count := by
  rw [contents, List.length_map, List.length_range]

/-- The values that have been written are what is there. -/
theorem contents_store :
    contents (store table address values) address values.length = values := by
  apply List.ext_getElem
  · exact length_contents
  · intro i _ hi
    simp only [contents, List.getElem_map, List.getElem_range, store]
    rw [if_pos (Nat.le_add_right _ _), Nat.add_sub_cancel_left,
      List.getElem?_eq_getElem hi, Option.getD_some]

/-- What is written elsewhere leaves the entries alone. -/
theorem contents_store_of_disjoint {other : ℕ}
    (h : other + values.length ≤ address ∨ address + count ≤ other) :
    contents (store table other values) address count = contents table address count := by
  apply List.map_congr_left
  intro i hi
  have hlt : i < count := List.mem_range.mp hi
  simp only [store]
  by_cases hle : other ≤ address + i
  · rw [if_pos hle, List.getElem?_eq_none (by omega), Option.getD_none]
  · rw [if_neg hle]

end Tables

end Weftik.Modbus
