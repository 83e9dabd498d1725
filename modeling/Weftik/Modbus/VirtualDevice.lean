import Weftik.Amw.Stream

/-!
# The Virtual Modbus Devices

A virtual device answers Modbus requests from the signals of a transport. The request
handler is written twice: in `VirtualModbusTcpDevice`, whose transport is bound later and
may be missing, and in the `ThreadDevice` that `start` makes of it and moves into the
listener thread. A handler returns the response frame; what it does to the transport, and
the signals that it publishes, are kept in a session beside it.

## Main definitions

* `Modbus.Transport`, `Modbus.Session`: the transport, and what has been done to it.
* `Modbus.VirtualModbusTcpDevice.handleRequest`: the handler of the device.
* `Modbus.ThreadDevice.handleRequest`: the handler of the listener thread.
* `Modbus.VirtualModbusTcpDevice.start`: the listener's device, made of the other one.
-/

namespace Weftik.Modbus

open Amw

variable {P : Platform} {σ : Type}

/-! ### Frames -/

/-- A header of a request: transaction (2 bytes), protocol (2), length (2), unit. -/
abbrev Mbap : Type := Vector UInt8 7

/-- The transaction of a request. -/
def Mbap.transaction (mbap : Mbap) : List UInt8 := [mbap[0], mbap[1]]

/-- The unit of a request. -/
def Mbap.unit (mbap : Mbap) : UInt8 := mbap[6]

/-- The exception codes. -/
def illegalFunction : UInt8 := 0x01

@[inherit_doc illegalFunction]
def illegalDataAddress : UInt8 := 0x02

@[inherit_doc illegalFunction]
def illegalDataValue : UInt8 := 0x03

/-- `u16::from_be_bytes` of the bytes at `i` and `i + 1`, which the callers have checked to
be there. -/
def beWord (data : List UInt8) (i : ℕ) : UInt16 :=
  UInt16.ofNat (256 * (data.getD i 0).toNat + (data.getD (i + 1) 0).toNat)

/-- `result[i / 8] |= 1 << (i % 8)`. -/
def setBit (result : List UInt8) (i : ℕ) : List UInt8 :=
  result.modify (i / 8) (· ||| 1 <<< UInt8.ofNat (i % 8))

/-- `result[2 * i]` and `result[2 * i + 1]` become the bytes of a register. -/
def setWord (result : List UInt8) (i : ℕ) (value : UInt16) : List UInt8 :=
  (result.set (2 * i) (value >>> 8).toUInt8).set (2 * i + 1) (value &&& 0xFF).toUInt8

/-! ### The transport -/

/-- A transport with states in `σ`. Reading a signal may fail and may find none, publishing
may fail; the errors are not looked at. -/
structure Transport (P : Platform) (σ : Type) where
  readSignal : String → σ → Except Unit (Option (Message P)) × σ
  publishSignal : String → HalValue P → Timestamp → σ → Except Unit Unit × σ

/-- The state of the transport and the signals published so far, the last one first. -/
structure Session (P : Platform) (σ : Type) where
  transport : σ
  writes : List (String × HalValue P × Timestamp)

/-- A computation of a handler. A panic keeps what has been done before it. -/
abbrev Handling (P : Platform) (σ : Type) : Type → Type :=
  ExceptT Panic (StateM (Session P σ))

/-- A computation that may also end with an exception code. -/
abbrev Fallible (P : Platform) (σ : Type) : Type → Type :=
  ExceptT UInt8 (Handling P σ)

/-- `transport.read_signal(name)`. -/
def Transport.read (t : Transport P σ) (name : String) :
    Handling P σ (Except Unit (Option (Message P))) :=
  fun s => (.ok (t.readSignal name s.transport).1,
    { s with transport := (t.readSignal name s.transport).2 })

/-- `transport.publish_signal(name, value, ts)`. -/
def Transport.publish (t : Transport P σ) (name : String) (value : HalValue P)
    (ts : Timestamp) : Handling P σ (Except Unit Unit) :=
  fun s => (.ok (t.publishSignal name value ts s.transport).1,
    ⟨(t.publishSignal name value ts s.transport).2, (name, value, ts) :: s.writes⟩)

/-- `result.map_err(|_| ILLEGAL_DATA_ADDRESS)?`. -/
def orIllegalAddress {α : Type} : Except Unit α → Fallible P σ α
  | .ok a => pure a
  | .error _ => throw illegalDataAddress

/-- `map.get(&addr).ok_or(ILLEGAL_DATA_ADDRESS)?`. -/
def mappedName (map : UInt16 → Option String) (addr : UInt16) : Fallible P σ String :=
  match map addr with
  | some name => pure name
  | none => throw illegalDataAddress

/-- `start + i`, in `u16`. -/
def addressAt (start : UInt16) (i : ℕ) : Handling P σ UInt16 :=
  match checked P (start.toNat + i) with
  | .ok addr => pure addr
  | .error panic => throw panic

/-- The time stamp of every write, `Timestamp { secs: 0, micros: 0 }`. -/
def zeroTime : Timestamp := ⟨0, 0⟩

/-! ### The device -/

/-- `VirtualModbusTcpDevice`: what the request handler uses of it. -/
structure VirtualModbusTcpDevice (P : Platform) (σ : Type) where
  transport : Option (Transport P σ)
  coils : UInt16 → Option String
  holdingRegs : UInt16 → Option String
  inputRegs : UInt16 → Option String
  discreteInputs : UInt16 → Option String

namespace VirtualModbusTcpDevice

/-- `new`: a device without transport and mappings. -/
def new : VirtualModbusTcpDevice P σ :=
  ⟨none, fun _ => none, fun _ => none, fun _ => none, fun _ => none⟩

/-- `bind`. -/
def bind (d : VirtualModbusTcpDevice P σ) (transport : Transport P σ) :
    VirtualModbusTcpDevice P σ :=
  { d with transport := some transport }

/-- `map_holding_register`. -/
def mapHoldingRegister (d : VirtualModbusTcpDevice P σ) (addr : UInt16) (signal : String) :
    VirtualModbusTcpDevice P σ :=
  { d with holdingRegs := Function.update d.holdingRegs addr (some signal) }

variable (d : VirtualModbusTcpDevice P σ) (asU16 : P.F32 → UInt16)

/-- `self.transport.as_ref().expect("transport not bound")`. -/
def boundTransport : Handling P σ (Transport P σ) :=
  match d.transport with
  | some transport => pure transport
  | none => throw (.message "transport not bound")

/-- `read_coil_signal`. -/
def readCoilSignal (addr : UInt16) : Fallible P σ Bool := do
  let name ← mappedName d.coils addr
  let transport ← d.boundTransport
  let found ← orIllegalAddress (← transport.read name)
  match (found.getD (.bool false, zeroTime)).1 with
  | .bool b => return b
  | .u16 v => return v ≠ 0
  | .u32 v => return v ≠ 0
  | _ => return false

/-- `write_coil_signal`. -/
def writeCoilSignal (addr : UInt16) (value : Bool) : Fallible P σ Unit := do
  let name ← mappedName d.coils addr
  let transport ← d.boundTransport
  orIllegalAddress (← transport.publish name (.bool value) zeroTime)

/-- `read_register_signal`; `asU16` is the cast `as u16` of an `f32`. -/
def readRegisterSignal (map : UInt16 → Option String) (addr : UInt16) :
    Fallible P σ UInt16 := do
  let name ← mappedName map addr
  let transport ← d.boundTransport
  let found ← orIllegalAddress (← transport.read name)
  match (found.getD (.u16 0, zeroTime)).1 with
  | .u16 v => return v
  | .u32 v => return v.toUInt16
  | .s32 v => return MachineInt.ofInt v.toInt
  | .f32 x => return asU16 x
  | .bool b => return if b then 1 else 0
  | _ => return 0

/-- `write_register_signal`. -/
def writeRegisterSignal (map : UInt16 → Option String) (addr value : UInt16) :
    Fallible P σ Unit := do
  let name ← mappedName map addr
  let transport ← d.boundTransport
  orIllegalAddress (← transport.publish name (.u16 value) zeroTime)

/-- `Self::exception_response`. -/
def exceptionResponse (mbap : Mbap) (funcCode excCode : UInt8) : List UInt8 :=
  [mbap[0], mbap[1], 0, 0, 0, 3, mbap[6], funcCode ||| 0x80, excCode]

/-- `Self::read_response`. -/
def readResponse (mbap : Mbap) (funcCode : UInt8) (data : List UInt8) : List UInt8 :=
  let pduLen := 2 + data.length
  let totalLen := pduLen + 1
  let lenHi := UInt8.ofNat ((totalLen >>> 8) &&& 0xFF)
  let lenLo := UInt8.ofNat (totalLen &&& 0xFF)
  [mbap[0], mbap[1], 0, 0, lenHi, lenLo, mbap[6], funcCode, UInt8.ofNat data.length] ++
    data

/-- `Self::echo_response`. -/
def echoResponse (mbap : Mbap) (funcCode : UInt8) (data : List UInt8) : List UInt8 :=
  let pduLen := 1 + data.length
  let totalLen := pduLen + 1
  let lenHi := UInt8.ofNat ((totalLen >>> 8) &&& 0xFF)
  let lenLo := UInt8.ofNat (totalLen &&& 0xFF)
  [mbap[0], mbap[1], 0, 0, lenHi, lenLo, mbap[6], funcCode] ++ data

/-- `handle_read_coils`. -/
def handleReadCoils (mbap : Mbap) (data : List UInt8) : Handling P σ (List UInt8) := do
  if data.length < 4 then return exceptionResponse mbap 0x01 illegalDataValue
  let start := beWord data 0
  let count := beWord data 2
  if count = 0 ∨ count > 2000 then return exceptionResponse mbap 0x01 illegalDataValue
  let byteCount := (count.toNat + 7) / 8
  let outcome ← ((List.range count.toNat).foldlM (fun result i => do
    let addr ← (addressAt start i : Handling P σ UInt16)
    if ← d.readCoilSignal addr then return setBit result i
    return result) (List.replicate byteCount 0) : Fallible P σ (List UInt8)).run
  match outcome with
  | .ok result => return readResponse mbap 0x01 result
  | .error exc => return exceptionResponse mbap 0x01 exc

/-- `handle_read_discrete_inputs`: an input that is not mapped, or whose signal is not the
boolean `true`, is off. -/
def handleReadDiscreteInputs (mbap : Mbap) (data : List UInt8) :
    Handling P σ (List UInt8) := do
  if data.length < 4 then return exceptionResponse mbap 0x02 illegalDataValue
  let start := beWord data 0
  let count := beWord data 2
  if count = 0 ∨ count > 2000 then return exceptionResponse mbap 0x02 illegalDataValue
  let byteCount := (count.toNat + 7) / 8
  let result ← (List.range count.toNat).foldlM (fun result i => do
    let addr ← addressAt start i
    match d.discreteInputs addr with
    | none => return result
    | some name =>
        match d.transport with
        | none => return result
        | some transport =>
            match ← transport.read name with
            | .ok (some (.bool true, _)) => return setBit result i
            | _ => return result) (List.replicate byteCount 0)
  return readResponse mbap 0x02 result

/-- `handle_read_registers`. -/
def handleReadRegisters (mbap : Mbap) (funcCode : UInt8) (data : List UInt8)
    (map : UInt16 → Option String) : Handling P σ (List UInt8) := do
  if data.length < 4 then return exceptionResponse mbap funcCode illegalDataValue
  let start := beWord data 0
  let count := beWord data 2
  if count = 0 ∨ count > 125 then return exceptionResponse mbap funcCode illegalDataValue
  let byteCount := count.toNat * 2
  let outcome ← ((List.range count.toNat).foldlM (fun result i => do
    let addr ← (addressAt start i : Handling P σ UInt16)
    let value ← d.readRegisterSignal asU16 map addr
    return setWord result i value) (List.replicate byteCount 0) :
      Fallible P σ (List UInt8)).run
  match outcome with
  | .ok result => return readResponse mbap funcCode result
  | .error exc => return exceptionResponse mbap funcCode exc

/-- `handle_read_holding_registers`. -/
def handleReadHoldingRegisters (mbap : Mbap) (data : List UInt8) :
    Handling P σ (List UInt8) :=
  d.handleReadRegisters asU16 mbap 0x03 data d.holdingRegs

/-- `handle_read_input_registers`. -/
def handleReadInputRegisters (mbap : Mbap) (data : List UInt8) :
    Handling P σ (List UInt8) :=
  d.handleReadRegisters asU16 mbap 0x04 data d.inputRegs

/-- `handle_write_single_coil`. -/
def handleWriteSingleCoil (mbap : Mbap) (data : List UInt8) :
    Handling P σ (List UInt8) := do
  if data.length < 4 then return exceptionResponse mbap 0x05 illegalDataValue
  let addr := beWord data 0
  if beWord data 2 = 0xFF00 ∨ beWord data 2 = 0x0000 then
    match ← (d.writeCoilSignal addr (beWord data 2 = 0xFF00)).run with
    | .ok () => return echoResponse mbap 0x05 data
    | .error exc => return exceptionResponse mbap 0x05 exc
  else return exceptionResponse mbap 0x05 illegalDataValue

/-- `handle_write_single_register`. -/
def handleWriteSingleRegister (mbap : Mbap) (data : List UInt8) :
    Handling P σ (List UInt8) := do
  if data.length < 4 then return exceptionResponse mbap 0x06 illegalDataValue
  let addr := beWord data 0
  let value := beWord data 2
  match ← (d.writeRegisterSignal d.holdingRegs addr value).run with
  | .ok () => return echoResponse mbap 0x06 data
  | .error exc => return exceptionResponse mbap 0x06 exc

/-- `handle_write_multiple_coils`: the first coil is written, and no other. -/
def handleWriteMultipleCoils (mbap : Mbap) (data : List UInt8) :
    Handling P σ (List UInt8) := do
  if data.length < 5 then return exceptionResponse mbap 0x0F illegalDataValue
  let addr := beWord data 0
  if data.length < 6 then return exceptionResponse mbap 0x0F illegalDataValue
  let value := data.getD 5 0 &&& 0x01
  match ← (d.writeCoilSignal addr (value ≠ 0)).run with
  | .ok () => return echoResponse mbap 0x0F (data.take 4)
  | .error exc => return exceptionResponse mbap 0x0F exc

/-- `handle_write_multiple_registers`: the first register is written, and no other. -/
def handleWriteMultipleRegisters (mbap : Mbap) (data : List UInt8) :
    Handling P σ (List UInt8) := do
  if data.length < 7 then return exceptionResponse mbap 0x10 illegalDataValue
  let addr := beWord data 0
  let value := beWord data 5
  match ← (d.writeRegisterSignal d.holdingRegs addr value).run with
  | .ok () => return echoResponse mbap 0x10 (data.take 4)
  | .error exc => return exceptionResponse mbap 0x10 exc

/-- `handle_request`. -/
def handleRequest (mbap : Mbap) : List UInt8 → Handling P σ (List UInt8)
  | [] => return exceptionResponse mbap 0 illegalFunction
  | funcCode :: data =>
      match funcCode with
      | 0x01 => d.handleReadCoils mbap data
      | 0x02 => d.handleReadDiscreteInputs mbap data
      | 0x03 => d.handleReadHoldingRegisters asU16 mbap data
      | 0x04 => d.handleReadInputRegisters asU16 mbap data
      | 0x05 => d.handleWriteSingleCoil mbap data
      | 0x06 => d.handleWriteSingleRegister mbap data
      | 0x0F => d.handleWriteMultipleCoils mbap data
      | 0x10 => d.handleWriteMultipleRegisters mbap data
      | _ => return exceptionResponse mbap funcCode illegalFunction

end VirtualModbusTcpDevice

/-! ### The device of the listener thread -/

/-- `ThreadDevice`: the same tables, and a transport that is there. -/
structure ThreadDevice (P : Platform) (σ : Type) where
  transport : Transport P σ
  coils : UInt16 → Option String
  holdingRegs : UInt16 → Option String
  inputRegs : UInt16 → Option String
  discreteInputs : UInt16 → Option String

/-- `start`: the device that the listener thread answers with. -/
def VirtualModbusTcpDevice.start (d : VirtualModbusTcpDevice P σ) :
    Except Panic (ThreadDevice P σ) :=
  match d.transport with
  | none => .error (.message "VirtualModbusTcpDevice: must call bind() before start()")
  | some transport =>
      .ok ⟨transport, d.coils, d.holdingRegs, d.inputRegs, d.discreteInputs⟩

namespace ThreadDevice

variable (d : ThreadDevice P σ) (asU16 : P.F32 → UInt16)

/-- `read_coil_signal`. -/
def readCoilSignal (addr : UInt16) : Fallible P σ Bool := do
  let name ← mappedName d.coils addr
  let found ← orIllegalAddress (← d.transport.read name)
  match (found.getD (.bool false, zeroTime)).1 with
  | .bool b => return b
  | .u16 v => return v ≠ 0
  | .u32 v => return v ≠ 0
  | _ => return false

/-- `write_coil_signal`. -/
def writeCoilSignal (addr : UInt16) (value : Bool) : Fallible P σ Unit := do
  let name ← mappedName d.coils addr
  orIllegalAddress (← d.transport.publish name (.bool value) zeroTime)

/-- `read_register_signal`. -/
def readRegisterSignal (map : UInt16 → Option String) (addr : UInt16) :
    Fallible P σ UInt16 := do
  let name ← mappedName map addr
  let found ← orIllegalAddress (← d.transport.read name)
  match (found.getD (.u16 0, zeroTime)).1 with
  | .u16 v => return v
  | .u32 v => return v.toUInt16
  | .s32 v => return MachineInt.ofInt v.toInt
  | .f32 x => return asU16 x
  | .bool b => return if b then 1 else 0
  | _ => return 0

/-- `write_register_signal`. -/
def writeRegisterSignal (map : UInt16 → Option String) (addr value : UInt16) :
    Fallible P σ Unit := do
  let name ← mappedName map addr
  orIllegalAddress (← d.transport.publish name (.u16 value) zeroTime)

/-- `exception_response`. -/
def exceptionResponse (mbap : Mbap) (fc exc : UInt8) : List UInt8 :=
  [mbap[0], mbap[1], 0, 0, 0, 3, mbap[6], fc ||| 0x80, exc]

/-- `read_response`. -/
def readResponse (mbap : Mbap) (fc : UInt8) (data : List UInt8) : List UInt8 :=
  let pduLen := 2 + data.length
  let totalLen := pduLen + 1
  [mbap[0], mbap[1], 0, 0, UInt8.ofNat (totalLen >>> 8), UInt8.ofNat (totalLen &&& 0xFF),
    mbap[6], fc, UInt8.ofNat data.length] ++ data

/-- `echo_response`. -/
def echoResponse (mbap : Mbap) (fc : UInt8) (data : List UInt8) : List UInt8 :=
  let pduLen := 1 + data.length
  let totalLen := pduLen + 1
  [mbap[0], mbap[1], 0, 0, UInt8.ofNat (totalLen >>> 8), UInt8.ofNat (totalLen &&& 0xFF),
    mbap[6], fc] ++ data

/-- `handle_read_coils`. -/
def handleReadCoils (mbap : Mbap) (data : List UInt8) : Handling P σ (List UInt8) := do
  if data.length < 4 then return exceptionResponse mbap 0x01 illegalDataValue
  let start := beWord data 0
  let count := beWord data 2
  if count = 0 ∨ count > 2000 then return exceptionResponse mbap 0x01 illegalDataValue
  let byteCount := (count.toNat + 7) / 8
  let outcome ← ((List.range count.toNat).foldlM (fun result i => do
    let addr ← (addressAt start i : Handling P σ UInt16)
    if ← d.readCoilSignal addr then return setBit result i
    return result) (List.replicate byteCount 0) : Fallible P σ (List UInt8)).run
  match outcome with
  | .ok result => return readResponse mbap 0x01 result
  | .error exc => return exceptionResponse mbap 0x01 exc

/-- `handle_read_discrete_inputs`. -/
def handleReadDiscreteInputs (mbap : Mbap) (data : List UInt8) :
    Handling P σ (List UInt8) := do
  if data.length < 4 then return exceptionResponse mbap 0x02 illegalDataValue
  let start := beWord data 0
  let count := beWord data 2
  if count = 0 ∨ count > 2000 then return exceptionResponse mbap 0x02 illegalDataValue
  let byteCount := (count.toNat + 7) / 8
  let result ← (List.range count.toNat).foldlM (fun result i => do
    let addr ← addressAt start i
    match d.discreteInputs addr with
    | none => return result
    | some name =>
        match ← d.transport.read name with
        | .ok (some (.bool true, _)) => return setBit result i
        | _ => return result) (List.replicate byteCount 0)
  return readResponse mbap 0x02 result

/-- `handle_read_registers`. -/
def handleReadRegisters (mbap : Mbap) (fc : UInt8) (data : List UInt8)
    (map : UInt16 → Option String) : Handling P σ (List UInt8) := do
  if data.length < 4 then return exceptionResponse mbap fc illegalDataValue
  let start := beWord data 0
  let count := beWord data 2
  if count = 0 ∨ count > 125 then return exceptionResponse mbap fc illegalDataValue
  let byteCount := count.toNat * 2
  let outcome ← ((List.range count.toNat).foldlM (fun result i => do
    let addr ← (addressAt start i : Handling P σ UInt16)
    let value ← d.readRegisterSignal asU16 map addr
    return setWord result i value) (List.replicate byteCount 0) :
      Fallible P σ (List UInt8)).run
  match outcome with
  | .ok result => return readResponse mbap fc result
  | .error exc => return exceptionResponse mbap fc exc

/-- `handle_write_single_coil`. -/
def handleWriteSingleCoil (mbap : Mbap) (data : List UInt8) :
    Handling P σ (List UInt8) := do
  if data.length < 4 then return exceptionResponse mbap 0x05 illegalDataValue
  let addr := beWord data 0
  if beWord data 2 = 0xFF00 ∨ beWord data 2 = 0x0000 then
    match ← (d.writeCoilSignal addr (beWord data 2 = 0xFF00)).run with
    | .ok () => return echoResponse mbap 0x05 data
    | .error exc => return exceptionResponse mbap 0x05 exc
  else return exceptionResponse mbap 0x05 illegalDataValue

/-- `handle_write_single_register`. -/
def handleWriteSingleRegister (mbap : Mbap) (data : List UInt8) :
    Handling P σ (List UInt8) := do
  if data.length < 4 then return exceptionResponse mbap 0x06 illegalDataValue
  let addr := beWord data 0
  let value := beWord data 2
  match ← (d.writeRegisterSignal d.holdingRegs addr value).run with
  | .ok () => return echoResponse mbap 0x06 data
  | .error exc => return exceptionResponse mbap 0x06 exc

/-- `handle_write_multiple_coils`, with one check of the length. -/
def handleWriteMultipleCoils (mbap : Mbap) (data : List UInt8) :
    Handling P σ (List UInt8) := do
  if data.length < 6 then return exceptionResponse mbap 0x0F illegalDataValue
  let addr := beWord data 0
  let value := data.getD 5 0 &&& 0x01
  match ← (d.writeCoilSignal addr (value ≠ 0)).run with
  | .ok () => return echoResponse mbap 0x0F (data.take 4)
  | .error exc => return exceptionResponse mbap 0x0F exc

/-- `handle_write_multiple_registers`; the length is checked against 8. -/
def handleWriteMultipleRegisters (mbap : Mbap) (data : List UInt8) :
    Handling P σ (List UInt8) := do
  if data.length < 8 then return exceptionResponse mbap 0x10 illegalDataValue
  let addr := beWord data 0
  let value := beWord data 5
  match ← (d.writeRegisterSignal d.holdingRegs addr value).run with
  | .ok () => return echoResponse mbap 0x10 (data.take 4)
  | .error exc => return exceptionResponse mbap 0x10 exc

/-- `handle_request`. -/
def handleRequest (mbap : Mbap) : List UInt8 → Handling P σ (List UInt8)
  | [] => return exceptionResponse mbap 0 illegalFunction
  | fc :: data =>
      match fc with
      | 0x01 => d.handleReadCoils mbap data
      | 0x02 => d.handleReadDiscreteInputs mbap data
      | 0x03 => d.handleReadRegisters asU16 mbap 0x03 data d.holdingRegs
      | 0x04 => d.handleReadRegisters asU16 mbap 0x04 data d.inputRegs
      | 0x05 => d.handleWriteSingleCoil mbap data
      | 0x06 => d.handleWriteSingleRegister mbap data
      | 0x0F => d.handleWriteMultipleCoils mbap data
      | 0x10 => d.handleWriteMultipleRegisters mbap data
      | _ => return exceptionResponse mbap fc illegalFunction

end ThreadDevice

end Weftik.Modbus
