import Weftik.Modbus.VirtualDevice

/-!
# The Two Virtual Devices Compared

The device that `start` makes for the listener thread has the tables and the transport of
the device it is made of, and its handlers compute the same, one by one, with a single
exception: a request to write several registers has to have seven bytes after the function
code for the one device and eight for the other. A request for one register has seven.

## Main results

* `Modbus.handleRequest_bound`: the same computation, for all requests but those.
* `Modbus.handleRequest_agree_iff`: the requests that the two devices answer alike.
-/

namespace Weftik.Modbus

open Amw

variable {P : Platform} {σ : Type}

/-- The device with the tables and the transport of the listener's device. -/
def ThreadDevice.bound (d : ThreadDevice P σ) : VirtualModbusTcpDevice P σ :=
  ⟨some d.transport, d.coils, d.holdingRegs, d.inputRegs, d.discreteInputs⟩

/-- What `start` returns is made of the device. -/
theorem VirtualModbusTcpDevice.eq_bound {d : VirtualModbusTcpDevice P σ}
    {thread : ThreadDevice P σ} (h : d.start = .ok thread) : d = thread.bound := by
  obtain ⟨transport, coils, holdingRegs, inputRegs, discreteInputs⟩ := d
  cases transport with
  | none => cases h
  | some transport =>
      cases h
      rfl

/-! ### The copies, one by one -/

/-- A cast to a byte keeps the low bits only, masked before or not. -/
theorem ofNat_land_255 (n : ℕ) : UInt8.ofNat (n &&& 0xFF) = UInt8.ofNat n := by
  have hmask : n &&& 0xFF = n % 2 ^ 8 := Nat.and_two_pow_sub_one_eq_mod n 8
  rw [hmask]
  exact UInt8.ofNat_mod_size

theorem readResponse_eq (mbap : Mbap) (fc : UInt8) (data : List UInt8) :
    VirtualModbusTcpDevice.readResponse mbap fc data = ThreadDevice.readResponse mbap fc data := by
  simp only [VirtualModbusTcpDevice.readResponse, ThreadDevice.readResponse, ofNat_land_255]

theorem echoResponse_eq (mbap : Mbap) (fc : UInt8) (data : List UInt8) :
    VirtualModbusTcpDevice.echoResponse mbap fc data = ThreadDevice.echoResponse mbap fc data := by
  simp only [VirtualModbusTcpDevice.echoResponse, ThreadDevice.echoResponse, ofNat_land_255]

theorem exceptionResponse_eq (mbap : Mbap) (fc exc : UInt8) :
    VirtualModbusTcpDevice.exceptionResponse mbap fc exc =
      ThreadDevice.exceptionResponse mbap fc exc := rfl

section

variable (d : ThreadDevice P σ) (asU16 : P.F32 → UInt16) (mbap : Mbap) (data : List UInt8)

theorem readCoilSignal_bound (addr : UInt16) :
    d.bound.readCoilSignal addr = d.readCoilSignal addr := rfl

theorem writeCoilSignal_bound (addr : UInt16) (value : Bool) :
    d.bound.writeCoilSignal addr value = d.writeCoilSignal addr value := rfl

theorem readRegisterSignal_bound (map : UInt16 → Option String) (addr : UInt16) :
    d.bound.readRegisterSignal asU16 map addr = d.readRegisterSignal asU16 map addr := rfl

theorem writeRegisterSignal_bound (map : UInt16 → Option String) (addr value : UInt16) :
    d.bound.writeRegisterSignal map addr value = d.writeRegisterSignal map addr value := rfl

theorem handleReadCoils_bound :
    d.bound.handleReadCoils mbap data = d.handleReadCoils mbap data := by
  simp only [VirtualModbusTcpDevice.handleReadCoils, ThreadDevice.handleReadCoils,
    readCoilSignal_bound, readResponse_eq, exceptionResponse_eq]

theorem handleReadDiscreteInputs_bound :
    d.bound.handleReadDiscreteInputs mbap data = d.handleReadDiscreteInputs mbap data := by
  simp only [VirtualModbusTcpDevice.handleReadDiscreteInputs,
    ThreadDevice.handleReadDiscreteInputs, readResponse_eq, exceptionResponse_eq]
  rfl

theorem handleReadRegisters_bound (fc : UInt8) (map : UInt16 → Option String) :
    d.bound.handleReadRegisters asU16 mbap fc data map =
      d.handleReadRegisters asU16 mbap fc data map := by
  simp only [VirtualModbusTcpDevice.handleReadRegisters, ThreadDevice.handleReadRegisters,
    readRegisterSignal_bound, readResponse_eq, exceptionResponse_eq]

theorem handleWriteSingleCoil_bound :
    d.bound.handleWriteSingleCoil mbap data = d.handleWriteSingleCoil mbap data := by
  simp only [VirtualModbusTcpDevice.handleWriteSingleCoil, ThreadDevice.handleWriteSingleCoil,
    writeCoilSignal_bound, echoResponse_eq, exceptionResponse_eq]

theorem handleWriteSingleRegister_bound :
    d.bound.handleWriteSingleRegister mbap data = d.handleWriteSingleRegister mbap data := by
  simp only [VirtualModbusTcpDevice.handleWriteSingleRegister,
    ThreadDevice.handleWriteSingleRegister, writeRegisterSignal_bound, echoResponse_eq,
    exceptionResponse_eq]
  rfl

/-- The second check of the length takes the place of both. -/
theorem handleWriteMultipleCoils_bound :
    d.bound.handleWriteMultipleCoils mbap data = d.handleWriteMultipleCoils mbap data := by
  simp only [VirtualModbusTcpDevice.handleWriteMultipleCoils,
    ThreadDevice.handleWriteMultipleCoils, writeCoilSignal_bound, echoResponse_eq,
    exceptionResponse_eq]
  by_cases hlen : data.length < 5
  · rw [if_pos hlen, if_pos (by omega)]
  · rw [if_neg hlen]

/-- The two checks of the length differ at seven bytes. -/
theorem handleWriteMultipleRegisters_bound (hlen : data.length ≠ 7) :
    d.bound.handleWriteMultipleRegisters mbap data =
      d.handleWriteMultipleRegisters mbap data := by
  simp only [VirtualModbusTcpDevice.handleWriteMultipleRegisters,
    ThreadDevice.handleWriteMultipleRegisters, writeRegisterSignal_bound, echoResponse_eq,
    exceptionResponse_eq]
  by_cases hshort : data.length < 7
  · rw [if_pos hshort, if_pos (by omega)]
  · rw [if_neg hshort, if_neg (by omega)]
    rfl

/-- The two devices do the same with every request that is not one to write several
registers with seven bytes after the function code. -/
theorem handleRequest_bound (pdu : List UInt8)
    (hpdu : ¬(pdu.head? = some 0x10 ∧ pdu.length = 8)) :
    d.bound.handleRequest asU16 mbap pdu = d.handleRequest asU16 mbap pdu := by
  cases pdu with
  | nil => rfl
  | cons fc data =>
      unfold VirtualModbusTcpDevice.handleRequest ThreadDevice.handleRequest
      dsimp only
      split
      · exact handleReadCoils_bound d mbap data
      · exact handleReadDiscreteInputs_bound d mbap data
      · exact handleReadRegisters_bound d asU16 mbap data _ _
      · exact handleReadRegisters_bound d asU16 mbap data _ _
      · exact handleWriteSingleCoil_bound d mbap data
      · exact handleWriteSingleRegister_bound d mbap data
      · exact handleWriteMultipleCoils_bound d mbap data
      · refine handleWriteMultipleRegisters_bound d mbap data fun hlen => hpdu ⟨rfl, ?_⟩
        rw [List.length_cons, hlen]
      · rfl

/-! ### A request to write one register -/

/-- A write ends without exception or with the code of a bad address, and with no other. -/
theorem writeRegisterSignal_cases (map : UInt16 → Option String) (addr value : UInt16)
    (s : Session P σ) : ∃ s', (d.writeRegisterSignal map addr value).run s = (.ok (.ok ()), s') ∨
      (d.writeRegisterSignal map addr value).run s = (.ok (.error illegalDataAddress), s') := by
  cases hname : map addr with
  | none =>
      refine ⟨s, .inr ?_⟩
      simp only [ThreadDevice.writeRegisterSignal, mappedName, hname]
      rfl
  | some name =>
      have hrun : (d.writeRegisterSignal map addr value).run s =
          (orIllegalAddress (d.transport.publishSignal name (.u16 value) zeroTime s.transport).1 :
            Fallible P σ Unit).run
          ⟨(d.transport.publishSignal name (.u16 value) zeroTime s.transport).2,
            (name, .u16 value, zeroTime) :: s.writes⟩ := by
        simp only [ThreadDevice.writeRegisterSignal, mappedName, hname]
        rfl
      rw [hrun]
      cases (d.transport.publishSignal name (.u16 value) zeroTime s.transport).1 with
      | ok _ => exact ⟨_, .inl rfl⟩
      | error _ => exact ⟨_, .inr rfl⟩

/-- A computation goes on with what its first part has returned. -/
theorem bind_of_ok {α β : Type} {x : Handling P σ α} {f : α → Handling P σ β} {a : α}
    {s s' : Session P σ} (hx : x s = (.ok a, s')) : (x >>= f) s = f a s' := by
  change ExceptT.bindCont f (x s).1 (x s).2 = f a s'
  rw [hx]
  rfl

/-- The device answers a request to write one register with an echo, or with the code of a
bad address. -/
theorem handleWriteMultipleRegisters_one (hlen : data.length = 7) (s : Session P σ) :
    ∃ s', d.bound.handleWriteMultipleRegisters mbap data s =
        (.ok (VirtualModbusTcpDevice.echoResponse mbap 0x10 (data.take 4)), s') ∨
      d.bound.handleWriteMultipleRegisters mbap data s =
        (.ok (VirtualModbusTcpDevice.exceptionResponse mbap 0x10 illegalDataAddress), s') := by
  obtain ⟨s', hwrite⟩ :=
    writeRegisterSignal_cases d d.holdingRegs (beWord data 0) (beWord data 5) s
  refine ⟨s', ?_⟩
  rw [VirtualModbusTcpDevice.handleWriteMultipleRegisters, if_neg (by omega)]
  rcases hwrite with hok | hexc
  · exact .inl (bind_of_ok hok)
  · exact .inr (bind_of_ok hexc)

/-- The listener's device rejects the request. -/
theorem handleWriteMultipleRegisters_rejected (hlen : data.length = 7) (s : Session P σ) :
    d.handleWriteMultipleRegisters mbap data s =
      (.ok (ThreadDevice.exceptionResponse mbap 0x10 illegalDataValue), s) := by
  rw [ThreadDevice.handleWriteMultipleRegisters, if_pos (by omega)]
  rfl

end

/-! ### The requests that are answered alike -/

/-- The two devices answer the request with the same frame and publish the same signals. -/
def AnswersAlike (device : VirtualModbusTcpDevice P σ) (thread : ThreadDevice P σ)
    (asU16 : P.F32 → UInt16) (mbap : Mbap) (pdu : List UInt8) (s : Session P σ) : Prop :=
  (device.handleRequest asU16 mbap pdu s).1 = (thread.handleRequest asU16 mbap pdu s).1 ∧
    (device.handleRequest asU16 mbap pdu s).2.writes =
      (thread.handleRequest asU16 mbap pdu s).2.writes

/-- A device and the listener's device that `start` makes of it answer a request alike if
and only if it does not ask to write several registers in eight bytes. -/
theorem handleRequest_agree_iff {device : VirtualModbusTcpDevice P σ}
    {thread : ThreadDevice P σ} (h : device.start = .ok thread) (asU16 : P.F32 → UInt16)
    (mbap : Mbap) (pdu : List UInt8) (s : Session P σ) :
    AnswersAlike device thread asU16 mbap pdu s ↔
      ¬(pdu.head? = some 0x10 ∧ pdu.length = 8) := by
  obtain rfl := VirtualModbusTcpDevice.eq_bound h
  constructor
  · rintro ⟨halike, -⟩ ⟨hhead, hlength⟩
    obtain ⟨data, rfl⟩ := List.head?_eq_some_iff.mp hhead
    have hlen : data.length = 7 := Nat.succ.inj hlength
    change (thread.bound.handleWriteMultipleRegisters mbap data s).1 =
      (thread.handleWriteMultipleRegisters mbap data s).1 at halike
    rw [handleWriteMultipleRegisters_rejected thread mbap data hlen] at halike
    -- An echo differs in the eighth byte, the function code, and an exception in the ninth.
    obtain ⟨s', hecho | hexc⟩ := handleWriteMultipleRegisters_one thread mbap data hlen s
    · rw [hecho] at halike
      have hfc : some (0x10 : UInt8) = some (0x10 ||| 0x80) :=
        congrArg (fun frame : List UInt8 => frame[7]?) (Except.ok.inj halike)
      exact absurd hfc (by decide)
    · rw [hexc] at halike
      have hcode : some illegalDataAddress = some illegalDataValue :=
        congrArg (fun frame : List UInt8 => frame[8]?) (Except.ok.inj halike)
      exact absurd hcode (by decide)
  · intro hpdu
    rw [AnswersAlike, handleRequest_bound thread asU16 mbap pdu hpdu]
    exact ⟨rfl, rfl⟩

/-! ### A request for one register -/

/-- A transport that finds no signal and publishes them all. -/
def silentTransport : Transport .exact Unit :=
  ⟨fun _ s => (.ok none, s), fun _ _ _ s => (.ok (), s)⟩

/-- A device with one holding register. -/
def speedDevice : VirtualModbusTcpDevice .exact Unit :=
  (VirtualModbusTcpDevice.new.bind silentTransport).mapHoldingRegister 0 "speed"

/-- The header of a request of eight bytes to the unit 1. -/
def oneRegisterMbap : Mbap := #v[0, 1, 0, 0, 0, 9, 1]

/-- The request to write 0x1234 to the holding register 0. -/
def oneRegisterPdu : List UInt8 := [0x10, 0, 0, 0, 1, 2, 0x12, 0x34]

theorem handleRequest_agree_iff_read :
    ∃ thread, speedDevice.start = .ok thread ∧
      (AnswersAlike speedDevice thread (fun _ => 0) oneRegisterMbap [3, 0, 0, 0, 1] ⟨(), []⟩ ↔
        ¬([3, 0, 0, 0, 1].head? = some (0x10 : UInt8) ∧ [3, 0, 0, 0, 1].length = 8)) :=
  ⟨_, rfl, handleRequest_agree_iff rfl (fun _ => 0) oneRegisterMbap [3, 0, 0, 0, 1] ⟨(), []⟩⟩

/-- The device writes the register; the listener's device calls the request illegal. -/
theorem oneRegister_not_alike :
    ∃ thread, speedDevice.start = .ok thread ∧
      ¬AnswersAlike speedDevice thread (fun _ => 0) oneRegisterMbap oneRegisterPdu ⟨(), []⟩ ∧
      (speedDevice.handleRequest (fun _ => 0) oneRegisterMbap oneRegisterPdu ⟨(), []⟩).2.writes =
        [("speed", .u16 0x1234, zeroTime)] ∧
      (thread.handleRequest (fun _ => 0) oneRegisterMbap oneRegisterPdu ⟨(), []⟩).1 =
        .ok [0, 1, 0, 0, 0, 3, 1, 0x90, illegalDataValue] := by
  refine ⟨_, rfl, fun halike => ?_, rfl, rfl⟩
  have hwrites : [("speed", HalValue.u16 0x1234, zeroTime)] = [] := halike.2
  exact absurd hwrites (List.cons_ne_nil _ _)

end Weftik.Modbus
