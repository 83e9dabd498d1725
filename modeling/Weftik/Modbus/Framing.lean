import Weftik.Modbus.ReadLoop

/-!
# The Frames of the Virtual Devices

The handler of a request returns a frame that belongs to the request and holds the items of
the range that is asked for, each at its place, or an exception. The address of an item is
computed in `u16`: past the largest address the handler panics where overflow is checked, and
goes on at zero where it is not. No handler looks at the end of the range before.

## Main definitions

* `Modbus.Framed`, `Modbus.Correct`: what an answer has to be.
* `Modbus.Refused`: the range has an item that the handler comes to and cannot read.

## Main results

* `Modbus.correct_iff`: the requests that are answered correctly.
* `Modbus.correct_not_pastEnd`: two inputs, the first one at the largest address.
-/

namespace Weftik.Modbus

open Amw

variable {P : Platform} {σ α : Type}

/-- How the handler answers when its loop has ended. -/
def answer (mbap : Mbap) (fc : UInt8) :
    Except Panic (Except UInt8 (List UInt8)) → Except Panic (List UInt8)
  | .ok (.ok result) => .ok (ThreadDevice.readResponse mbap fc result)
  | .ok (.error exc) => .ok (ThreadDevice.exceptionResponse mbap fc exc)
  | .error panic => .error panic

/-- A discrete input: one that is not mapped, or whose signal is not the boolean `true`, is
off. -/
def ThreadDevice.readDiscreteInput (d : ThreadDevice P σ) (addr : UInt16) :
    Handling P σ Bool :=
  match d.discreteInputs addr with
  | none => return false
  | some name => do
      match ← d.transport.read name with
      | .ok (some (.bool true, _)) => return true
      | _ => return false

section

variable (d : ThreadDevice P σ) (asU16 : P.F32 → UInt16) (mbap : Mbap) {data : List UInt8}
  {s s' : Session P σ}

/-- The handler of coils as a loop. -/
theorem handleReadCoils_eq (hlen : 4 ≤ data.length)
    (hcount : ¬ (beWord data 2 = 0 ∨ beWord data 2 > 2000)) :
    d.handleReadCoils mbap data = (do
      let outcome ← (refusableLoop d.readCoilSignal writeBit (beWord data 0)
        (List.replicate (((beWord data 2).toNat + 7) / 8) 0)
        (List.range (beWord data 2).toNat)).run
      match outcome with
      | .ok result => return ThreadDevice.readResponse mbap 0x01 result
      | .error exc => return ThreadDevice.exceptionResponse mbap 0x01 exc) := by
  rw [ThreadDevice.handleReadCoils, if_neg (by omega)]
  simp only [if_neg hcount]
  congr 2
  rw [refusableLoop]
  congr 1
  funext result i
  refine bind_congr fun addr => bind_congr fun v => ?_
  cases v <;> rfl

/-- The handler of inputs as a loop. -/
theorem handleReadDiscreteInputs_eq (hlen : 4 ≤ data.length)
    (hcount : ¬ (beWord data 2 = 0 ∨ beWord data 2 > 2000)) :
    d.handleReadDiscreteInputs mbap data = (do
      let result ← totalLoop d.readDiscreteInput writeBit (beWord data 0)
        (List.replicate (((beWord data 2).toNat + 7) / 8) 0)
        (List.range (beWord data 2).toNat)
      return ThreadDevice.readResponse mbap 0x02 result) := by
  rw [ThreadDevice.handleReadDiscreteInputs, if_neg (by omega)]
  simp only [if_neg hcount]
  rw [totalLoop]
  congr 2
  funext result i
  refine bind_congr fun addr => ?_
  rw [ThreadDevice.readDiscreteInput]
  cases d.discreteInputs addr with
  | none => rfl
  | some name =>
      simp only [bind_assoc]
      refine bind_congr fun found => ?_
      rcases found with _ | found
      · rfl
      · rcases found with _ | ⟨value, ts⟩
        · rfl
        · cases value with
          | bool b => cases b <;> rfl
          | _ => rfl

/-- The handler of registers as a loop. -/
theorem handleReadRegisters_eq (fc : UInt8) (map : UInt16 → Option String)
    (hlen : 4 ≤ data.length) (hcount : ¬ (beWord data 2 = 0 ∨ beWord data 2 > 125)) :
    d.handleReadRegisters asU16 mbap fc data map = (do
      let outcome ← (refusableLoop (d.readRegisterSignal asU16 map) setWord (beWord data 0)
        (List.replicate ((beWord data 2).toNat * 2) 0)
        (List.range (beWord data 2).toNat)).run
      match outcome with
      | .ok result => return ThreadDevice.readResponse mbap fc result
      | .error exc => return ThreadDevice.exceptionResponse mbap fc exc) := by
  rw [ThreadDevice.handleReadRegisters, if_neg (by omega)]
  simp only [if_neg hcount]
  rfl

/-! ### The readers and the writers -/

theorem neverPanics_mappedName (map : UInt16 → Option String) (addr : UInt16) :
    NeverPanics (mappedName map addr : Fallible P σ String) := by
  rw [mappedName]
  split
  · exact neverPanics_pure _
  · exact neverPanics_throw _

theorem neverPanics_orIllegalAddress (result : Except Unit α) :
    NeverPanics (orIllegalAddress result : Fallible P σ α) := by
  cases result with
  | ok a => exact neverPanics_pure a
  | error _ => exact neverPanics_throw _

theorem neverPanics_read (t : Transport P σ) (name : String) :
    NeverPanics (ExceptT.lift (t.read name)) :=
  fun _ => ⟨_, _, rfl⟩

/-- Reading a coil never panics. -/
theorem neverPanics_readCoilSignal (addr : UInt16) : NeverPanics (d.readCoilSignal addr) := by
  refine (neverPanics_mappedName _ _).bind fun name => (neverPanics_read _ _).bind fun found =>
    (neverPanics_orIllegalAddress _).bind fun value => ?_
  split <;> exact neverPanics_pure _

/-- Reading a register never panics. -/
theorem neverPanics_readRegisterSignal (map : UInt16 → Option String) (addr : UInt16) :
    NeverPanics (d.readRegisterSignal asU16 map addr) := by
  refine (neverPanics_mappedName _ _).bind fun name => (neverPanics_read _ _).bind fun found =>
    (neverPanics_orIllegalAddress _).bind fun value => ?_
  split <;> exact neverPanics_pure _

theorem neverPanics_publish (t : Transport P σ) (name : String) (value : HalValue P)
    (ts : Timestamp) : NeverPanics (ExceptT.lift (t.publish name value ts)) :=
  fun _ => ⟨_, _, rfl⟩

/-- Writing a coil never panics. -/
theorem neverPanics_writeCoilSignal (addr : UInt16) (value : Bool) :
    NeverPanics (d.writeCoilSignal addr value) :=
  (neverPanics_mappedName _ _).bind fun _ => (neverPanics_publish _ _ _ _).bind fun _ =>
    neverPanics_orIllegalAddress _

/-- Writing a register never panics. -/
theorem neverPanics_writeRegisterSignal (map : UInt16 → Option String) (addr value : UInt16) :
    NeverPanics (d.writeRegisterSignal map addr value) :=
  (neverPanics_mappedName _ _).bind fun _ => (neverPanics_publish _ _ _ _).bind fun _ =>
    neverPanics_orIllegalAddress _

/-- Reading an input never panics. -/
theorem exists_readDiscreteInput (addr : UInt16) (s : Session P σ) :
    ∃ v s', d.readDiscreteInput addr s = (.ok v, s') := by
  rw [ThreadDevice.readDiscreteInput]
  cases d.discreteInputs addr with
  | none => exact ⟨false, s, rfl⟩
  | some name =>
      dsimp only
      have hread : d.transport.read name s =
          (.ok (d.transport.readSignal name s.transport).1,
            { s with transport := (d.transport.readSignal name s.transport).2 }) := rfl
      rw [bind_of_ok hread]
      rcases (d.transport.readSignal name s.transport).1 with _ | found
      · exact ⟨false, _, rfl⟩
      · rcases found with _ | ⟨value, ts⟩
        · exact ⟨false, _, rfl⟩
        · cases value with
          | bool b => cases b <;> exact ⟨_, _, rfl⟩
          | _ => exact ⟨false, _, rfl⟩

/-- The inputs of some addresses are read, and none is refused. -/
theorem exists_reads_inputs (addrs : List UInt16) (s : Session P σ) :
    ∃ vs s', Reads (fun addr => ExceptT.lift (d.readDiscreteInput addr)) addrs s (.ok vs) s' := by
  induction addrs generalizing s with
  | nil => exact ⟨[], s, .nil s⟩
  | cons addr addrs ih =>
      obtain ⟨v, s', hread⟩ := exists_readDiscreteInput d addr s
      obtain ⟨vs, s'', hrest⟩ := ih s'
      refine ⟨v :: vs, s'', .read (r := .ok vs) ?_ hrest⟩
      rw [ExceptT.run_lift, map_eq_pure_bind]
      exact bind_of_ok hread

end

/-! ### What an answer has to be -/

/-- The function code of a request; one without has the code zero. -/
def functionCode (pdu : List UInt8) : UInt8 := pdu.headD 0

/-- The frame belongs to the request: it has its transaction, its unit and its function code,
with the high bit or not, and says how long it is. -/
structure Framed (mbap : Mbap) (pdu frame : List UInt8) : Prop where
  transaction : frame.take 2 = mbap.transaction
  unit : frame[6]? = some mbap.unit
  length : (beWord frame 4).toNat + 6 = frame.length
  function : frame[7]? = some (functionCode pdu) ∨ frame[7]? = some (functionCode pdu ||| 0x80)

/-- The frame is an exception. -/
def IsException (pdu frame : List UInt8) : Prop :=
  frame[7]? = some (functionCode pdu ||| 0x80)

/-- The data of the frame are the bits. -/
def CoversBits (vs : List Bool) (frame : List UInt8) : Prop :=
  frame.length = 9 + (vs.length + 7) / 8 ∧
    frame[8]? = some (UInt8.ofNat ((vs.length + 7) / 8)) ∧
    ∀ j, bitAt (frame.drop 9) j = vs.getD j false

/-- The data of the frame are the registers. -/
def CoversWords (vs : List UInt16) (frame : List UInt8) : Prop :=
  frame.length = 9 + vs.length * 2 ∧ frame[8]? = some (UInt8.ofNat (vs.length * 2)) ∧
    ∀ j < vs.length, beWord (frame.drop 9) (2 * j) = vs.getD j 0

/-- The data of the frame are the items of the range, read one after the other. -/
def Covers (d : ThreadDevice P σ) (asU16 : P.F32 → UInt16) (fc : UInt8) (start : UInt16)
    (count : ℕ) (s : Session P σ) (frame : List UInt8) : Prop :=
  match fc with
  | 0x01 => ∃ vs s', Reads d.readCoilSignal (addresses start count) s (.ok vs) s' ∧
      CoversBits vs frame
  | 0x02 => ∃ vs s', Reads (fun addr => ExceptT.lift (d.readDiscreteInput addr))
      (addresses start count) s (.ok vs) s' ∧ CoversBits vs frame
  | 0x03 => ∃ vs s', Reads (d.readRegisterSignal asU16 d.holdingRegs)
      (addresses start count) s (.ok vs) s' ∧ CoversWords vs frame
  | 0x04 => ∃ vs s', Reads (d.readRegisterSignal asU16 d.inputRegs)
      (addresses start count) s (.ok vs) s' ∧ CoversWords vs frame
  | _ => True

/-- The first address of the range of a request. -/
def rangeStart (pdu : List UInt8) : UInt16 := beWord pdu.tail 0

/-- The number of items of the range of a request. -/
def rangeCount (pdu : List UInt8) : UInt16 := beWord pdu.tail 2

/-- The request reads a range that goes past the largest address. -/
def PassesEnd (pdu : List UInt8) : Prop :=
  functionCode pdu ∈ [0x01, 0x02, 0x03, 0x04] ∧ 5 ≤ pdu.length ∧
    2 ^ 16 < (rangeStart pdu).toNat + (rangeCount pdu).toNat

/-- A request is answered correctly: by a frame that belongs to it, which is an exception or
whose data are the items of the range; past the largest address it is an exception. -/
def Correct (d : ThreadDevice P σ) (asU16 : P.F32 → UInt16) (mbap : Mbap) (pdu : List UInt8)
    (s : Session P σ) (outcome : Except Panic (List UInt8)) : Prop :=
  ∃ frame, outcome = .ok frame ∧ Framed mbap pdu frame ∧
    (IsException pdu frame ∨
      Covers d asU16 (functionCode pdu) (rangeStart pdu) (rangeCount pdu).toNat s frame) ∧
    (PassesEnd pdu → IsException pdu frame)

/-- The largest number of items that a request may read. -/
def readLimit (fc : UInt8) : UInt16 := if fc = 0x01 ∨ fc = 0x02 then 2000 else 125

/-- One of the addresses that the handler comes to is not mapped, or its signal cannot be
read. An input is never refused. -/
def Refused (d : ThreadDevice P σ) (asU16 : P.F32 → UInt16) (fc : UInt8) (start : UInt16)
    (count : ℕ) (s : Session P σ) : Prop :=
  match fc with
  | 0x01 => ∃ exc s', Reads d.readCoilSignal (reached P start count) s (.error exc) s'
  | 0x03 => ∃ exc s', Reads (d.readRegisterSignal asU16 d.holdingRegs) (reached P start count) s
      (.error exc) s'
  | 0x04 => ∃ exc s', Reads (d.readRegisterSignal asU16 d.inputRegs) (reached P start count) s
      (.error exc) s'
  | _ => False

/-! ### The frames -/

/-- An exception belongs to its request. -/
theorem framed_exceptionResponse (mbap : Mbap) (pdu : List UInt8) (exc : UInt8) :
    Framed mbap pdu (ThreadDevice.exceptionResponse mbap (functionCode pdu) exc) :=
  ⟨rfl, rfl, rfl, Or.inr rfl⟩

/-- The length of a frame, as its two bytes. -/
theorem beWord_length {n : ℕ} (hn : n < 2 ^ 16) :
    256 * (UInt8.ofNat (n >>> 8)).toNat + (UInt8.ofNat (n &&& 0xFF)).toNat = n := by
  rw [ofNat_land_255, Nat.shiftRight_eq_div_pow, UInt8.toNat_ofNat', UInt8.toNat_ofNat']
  omega

/-- The answer to a read belongs to its request. -/
theorem framed_readResponse (mbap : Mbap) (pdu : List UInt8) {data : List UInt8}
    (hlen : data.length + 3 < 2 ^ 16) :
    Framed mbap pdu (ThreadDevice.readResponse mbap (functionCode pdu) data) := by
  refine ⟨rfl, rfl, ?_, Or.inl rfl⟩
  change (UInt16.ofNat (256 * (UInt8.ofNat ((2 + data.length + 1) >>> 8)).toNat +
    (UInt8.ofNat ((2 + data.length + 1) &&& 0xFF)).toNat)).toNat + 6 = _
  rw [beWord_length (by omega), UInt16.toNat_ofNat', Nat.mod_eq_of_lt (by omega)]
  rw [ThreadDevice.readResponse, List.length_append]
  simp only [List.length_cons, List.length_nil]
  omega

/-- An echo belongs to its request. -/
theorem framed_echoResponse (mbap : Mbap) (pdu : List UInt8) {data : List UInt8}
    (hlen : data.length + 2 < 2 ^ 16) :
    Framed mbap pdu (ThreadDevice.echoResponse mbap (functionCode pdu) data) := by
  refine ⟨rfl, rfl, ?_, Or.inl rfl⟩
  change (UInt16.ofNat (256 * (UInt8.ofNat ((1 + data.length + 1) >>> 8)).toNat +
    (UInt8.ofNat ((1 + data.length + 1) &&& 0xFF)).toNat)).toNat + 6 = _
  rw [beWord_length (by omega), UInt16.toNat_ofNat', Nat.mod_eq_of_lt (by omega)]
  rw [ThreadDevice.echoResponse, List.length_append]
  simp only [List.length_cons, List.length_nil]
  omega

/-- The frame of bits that have been read. -/
theorem coversBits_readResponse (mbap : Mbap) (fc : UInt8) (vs : List Bool) :
    CoversBits vs (ThreadDevice.readResponse mbap fc
      (pack writeBit 0 (List.replicate ((vs.length + 7) / 8) 0) vs)) := by
  have hlen : (pack writeBit 0 (List.replicate ((vs.length + 7) / 8) 0) vs).length =
      (vs.length + 7) / 8 := by
    rw [length_pack length_writeBit, List.length_replicate]
  refine ⟨?_, ?_, fun j => bitAt_packBits (by omega) j⟩
  · rw [ThreadDevice.readResponse, List.length_append, hlen]
    rfl
  · exact congrArg (fun n => some (UInt8.ofNat n)) hlen

/-- The frame of registers that have been read. -/
theorem coversWords_readResponse (mbap : Mbap) (fc : UInt8) (vs : List UInt16) :
    CoversWords vs (ThreadDevice.readResponse mbap fc
      (pack setWord 0 (List.replicate (vs.length * 2) 0) vs)) := by
  have hlen : (pack setWord 0 (List.replicate (vs.length * 2) 0) vs).length =
      vs.length * 2 := by
    rw [length_pack length_setWord, List.length_replicate]
  refine ⟨?_, ?_, fun j hj => beWord_packWords (by omega) hj⟩
  · rw [ThreadDevice.readResponse, List.length_append, hlen]
    rfl
  · exact congrArg (fun n => some (UInt8.ofNat n)) hlen

/-! ### Answers that are always correct -/

section

variable (d : ThreadDevice P σ) (asU16 : P.F32 → UInt16) (mbap : Mbap) {pdu : List UInt8}
  (s : Session P σ)

/-- An exception is a correct answer. -/
theorem correct_of_exception (exc : UInt8) :
    Correct d asU16 mbap pdu s
      (.ok (ThreadDevice.exceptionResponse mbap (functionCode pdu) exc)) :=
  ⟨_, rfl, framed_exceptionResponse mbap pdu exc, Or.inl rfl, fun _ => rfl⟩

variable {data : List UInt8}

/-- An echo is a correct answer to a request that reads nothing. -/
theorem correct_of_echo (hfc : functionCode pdu ∉ [0x01, 0x02, 0x03, 0x04])
    (hlen : data.length + 2 < 2 ^ 16) :
    Correct d asU16 mbap pdu s
      (.ok (ThreadDevice.echoResponse mbap (functionCode pdu) data)) := by
  refine ⟨_, rfl, framed_echoResponse mbap pdu hlen, Or.inr ?_, fun hend => absurd hend.1 hfc⟩
  unfold Covers
  split
  · exact absurd (by rw [‹functionCode pdu = _›]; decide) hfc
  · exact absurd (by rw [‹functionCode pdu = _›]; decide) hfc
  · exact absurd (by rw [‹functionCode pdu = _›]; decide) hfc
  · exact absurd (by rw [‹functionCode pdu = _›]; decide) hfc
  · trivial

/-- A handler that writes answers with an echo or with an exception. -/
theorem correct_of_write (hfc : functionCode pdu ∉ [0x01, 0x02, 0x03, 0x04])
    {x : Fallible P σ Unit} (hx : NeverPanics x) (hlen : data.length + 2 < 2 ^ 16) :
    Correct d asU16 mbap pdu s ((do
      match ← x.run with
      | .ok () => return ThreadDevice.echoResponse mbap (functionCode pdu) data
      | .error exc => return ThreadDevice.exceptionResponse mbap (functionCode pdu) exc :
        Handling P σ (List UInt8)) s).1 := by
  obtain ⟨r, s', hr⟩ := hx s
  rw [bind_of_ok hr]
  cases r with
  | ok _ => exact correct_of_echo d asU16 mbap s hfc hlen
  | error exc => exact correct_of_exception d asU16 mbap s exc

/-! ### Answers to reads -/

variable (pdu) in
/-- The answer of a loop over a range is correct, except at its end. -/
theorem correct_answer_iff {read : UInt16 → Fallible P σ α}
    {write : List UInt8 → ℕ → α → List UInt8} {zeros : List UInt8} {s' : Session P σ}
    {r : Except UInt8 (List α)} (hfc : functionCode pdu ∈ [0x01, 0x02, 0x03, 0x04])
    (hlen : 5 ≤ pdu.length)
    (hread : Reads read (reached P (rangeStart pdu) (rangeCount pdu).toNat) s r s')
    (hcovers : ∀ vs, r = .ok vs → ∀ s', vs.length = (rangeCount pdu).toNat →
      Reads read (addresses (rangeStart pdu) (rangeCount pdu).toNat) s (.ok vs) s' →
      (pack write 0 zeros vs).length + 3 < 2 ^ 16 ∧
      Covers d asU16 (functionCode pdu) (rangeStart pdu) (rangeCount pdu).toNat s
        (ThreadDevice.readResponse mbap (functionCode pdu) (pack write 0 zeros vs))) :
    Correct d asU16 mbap pdu s (answer mbap (functionCode pdu)
      (loopEnd P write (rangeStart pdu) (rangeCount pdu).toNat zeros r)) ↔
    (PassesEnd pdu → ∃ exc, r = .error exc) := by
  have hnot : ∀ data,
      ¬ IsException pdu (ThreadDevice.readResponse mbap (functionCode pdu) data) := by
    intro data hexc
    have hcode : functionCode pdu = functionCode pdu ||| 0x80 := Option.some.inj hexc
    revert hcode
    have hcodes : ∀ fc ∈ [(0x01 : UInt8), 0x02, 0x03, 0x04], fc ≠ fc ||| 0x80 := by
      simp only [List.forall_mem_cons]
      exact ⟨by decide, by decide, by decide, by decide, List.forall_mem_nil _⟩
    exact hcodes _ hfc
  cases r with
  | error exc =>
      exact ⟨fun _ _ => ⟨exc, rfl⟩, fun _ => correct_of_exception d asU16 mbap s exc⟩
  | ok vs =>
      rw [loopEnd]
      by_cases hover : Overflows P (rangeStart pdu) (rangeCount pdu).toNat
      · rw [if_pos hover]
        constructor
        · rintro ⟨frame, hframe, -⟩
          cases hframe
        · intro h
          obtain ⟨exc, hexc⟩ := h ⟨hfc, hlen, hover.2⟩
          cases hexc
      · rw [if_neg hover]
        constructor
        · rintro ⟨frame, hframe, -, -, hend⟩ hpast
          obtain rfl := Except.ok.inj hframe
          exact absurd (hend hpast) (hnot _)
        · intro h
          have hpast : ¬ PassesEnd pdu := by
            intro hpast
            obtain ⟨exc, hexc⟩ := h hpast
            cases hexc
          have hle : (rangeStart pdu).toNat + (rangeCount pdu).toNat ≤ 2 ^ 16 := by
            by_contra hgt
            exact hpast ⟨hfc, hlen, by omega⟩
          have hreached : reached P (rangeStart pdu) (rangeCount pdu).toNat =
              addresses (rangeStart pdu) (rangeCount pdu).toNat := by
            rw [reached]
            split
            · rw [Nat.min_eq_left (by omega)]
            · rfl
          rw [hreached] at hread
          have hcount : vs.length = (rangeCount pdu).toNat := by
            rw [hread.length, addresses, List.length_map, List.length_range]
          obtain ⟨hshort, hitems⟩ := hcovers vs rfl s' hcount hread
          exact ⟨_, rfl, framed_readResponse mbap pdu hshort, Or.inr hitems,
            fun hend => absurd hend hpast⟩

/-- The answer of a handler whose loop has ended. -/
theorem answer_of_loop (fc : UInt8) {x : Fallible P σ (List UInt8)}
    {ended : Except Panic (Except UInt8 (List UInt8))} {s' : Session P σ}
    (hx : x.run s = (ended, s')) :
    ((do
      let outcome ← x.run
      match outcome with
      | .ok result => return ThreadDevice.readResponse mbap fc result
      | .error exc => return ThreadDevice.exceptionResponse mbap fc exc :
        Handling P σ (List UInt8)) s).1 = answer mbap fc ended := by
  rcases ended with panic | exc | result
  · rw [bind_of_panic hx]
    rfl
  · rw [bind_of_ok hx]
    rfl
  · rw [bind_of_ok hx]
    rfl

/-- The answer to a request that reads, from what its handler does. -/
theorem correct_read_iff {fc : UInt8} (read : UInt16 → Fallible P σ α)
    (write : List UInt8 → ℕ → α → List UInt8) (zeros : List UInt8)
    {outcome : Except Panic (List UInt8)} (hfc : fc ∈ [(0x01 : UInt8), 0x02, 0x03, 0x04])
    (hreads : ∃ r s', Reads read (reached P (beWord data 0) (beWord data 2).toNat) s r s')
    (hinvalid : data.length < 4 ∨ beWord data 2 = 0 ∨ beWord data 2 > readLimit fc →
        outcome = .ok (ThreadDevice.exceptionResponse mbap fc illegalDataValue))
    (hanswer : ∀ r s', 4 ≤ data.length → ¬ (beWord data 2 = 0 ∨ beWord data 2 > readLimit fc) →
        Reads read (reached P (beWord data 0) (beWord data 2).toNat) s r s' →
        outcome = answer mbap fc (loopEnd P write (beWord data 0) (beWord data 2).toNat zeros r))
    (hrefused : Refused d asU16 fc (beWord data 0) (beWord data 2).toNat s ↔
        ∃ exc s', Reads read (reached P (beWord data 0) (beWord data 2).toNat) s (.error exc) s')
    (hcovers : ∀ vs s', vs.length = (beWord data 2).toNat → beWord data 2 ≤ readLimit fc →
        Reads read (addresses (beWord data 0) (beWord data 2).toNat) s
        (.ok vs) s' → (pack write 0 zeros vs).length + 3 < 2 ^ 16 ∧ Covers d asU16 fc
        (beWord data 0) (beWord data 2).toNat s
        (ThreadDevice.readResponse mbap fc (pack write 0 zeros vs))) :
    Correct d asU16 mbap (fc :: data) s outcome ↔
      (PassesEnd (fc :: data) → beWord data 2 ≤ readLimit fc →
        Refused d asU16 fc (beWord data 0) (beWord data 2).toNat s) := by
  by_cases hbad : data.length < 4 ∨ beWord data 2 = 0 ∨ beWord data 2 > readLimit fc
  · -- The request is answered by an exception, and its range does not count.
    rw [hinvalid hbad]
    refine ⟨fun _ hpast hle => ?_, fun _ => correct_of_exception d asU16 mbap s _⟩
    obtain ⟨-, hlen, hend⟩ := hpast
    rcases hbad with hshort | hzero | hgt
    · exact absurd hlen (by rw [List.length_cons]; omega)
    · have hstart := (beWord data 0).toNat_lt
      change 2 ^ 16 < (beWord data 0).toNat + (beWord data 2).toNat at hend
      rw [hzero] at hend
      exact absurd hend (by change ¬ (_ < _ + 0); omega)
    · exact absurd hle (UInt16.not_le.mpr hgt)
  · obtain ⟨hlen, hcount⟩ := not_or.mp hbad
    have hle : beWord data 2 ≤ readLimit fc := UInt16.not_lt.mp (not_or.mp hcount).2
    obtain ⟨r, s', hread⟩ := hreads
    rw [hanswer r s' (by omega) hcount hread]
    have hlen' : 5 ≤ (fc :: data).length := by
      rw [List.length_cons]
      omega
    refine (correct_answer_iff d asU16 mbap (fc :: data) s hfc hlen' hread
      fun vs _ s' hvs hitems => hcovers vs s' hvs hle hitems).trans ?_
    refine forall_congr' fun _ => ?_
    rw [hrefused]
    constructor
    · rintro ⟨exc, rfl⟩ -
      exact ⟨exc, s', hread⟩
    · intro h
      obtain ⟨exc, s'', hexc⟩ := h hle
      exact ⟨exc, (hread.unique hexc).1⟩

/-- The answer to a request that reads coils. -/
theorem correct_readCoils_iff (data : List UInt8) :
    Correct d asU16 mbap (0x01 :: data) s (d.handleReadCoils mbap data s).1 ↔
      (PassesEnd (0x01 :: data) → beWord data 2 ≤ readLimit 0x01 →
        Refused d asU16 0x01 (beWord data 0) (beWord data 2).toNat s) := by
  refine correct_read_iff d asU16 mbap s d.readCoilSignal writeBit
    (List.replicate (((beWord data 2).toNat + 7) / 8) 0) (by decide)
    (exists_reads (neverPanics_readCoilSignal d) _ s) ?_ ?_ Iff.rfl ?_
  · rintro (hshort | hcount)
    · rw [ThreadDevice.handleReadCoils, if_pos hshort]
      rfl
    · rw [ThreadDevice.handleReadCoils]
      split
      · rfl
      · simp only [if_pos (show beWord data 2 = 0 ∨ beWord data 2 > 2000 from hcount)]
        rfl
  · intro r s' hlen hcount hread
    rw [handleReadCoils_eq d mbap hlen hcount]
    exact answer_of_loop mbap s 0x01 (foldlM_refusable hread)
  · intro vs s' hvs hle hitems
    have hlimit : (beWord data 2).toNat ≤ 2000 := UInt16.le_iff_toNat_le.mp hle
    refine ⟨?_, vs, s', hitems, ?_⟩
    · rw [length_pack length_writeBit, List.length_replicate]
      omega
    · rw [← hvs]
      exact coversBits_readResponse mbap 0x01 vs

/-- The answer to a request that reads inputs. -/
theorem correct_readDiscreteInputs_iff (data : List UInt8) :
    Correct d asU16 mbap (0x02 :: data) s (d.handleReadDiscreteInputs mbap data s).1 ↔
      (PassesEnd (0x02 :: data) → beWord data 2 ≤ readLimit 0x02 →
        Refused d asU16 0x02 (beWord data 0) (beWord data 2).toNat s) := by
  obtain ⟨vs, s', hread⟩ :=
    exists_reads_inputs d (reached P (beWord data 0) (beWord data 2).toNat) s
  refine correct_read_iff d asU16 mbap s (fun addr => ExceptT.lift (d.readDiscreteInput addr))
    writeBit (List.replicate (((beWord data 2).toNat + 7) / 8) 0) (by decide) ⟨_, _, hread⟩
    ?_ ?_ ?_ ?_
  · rintro (hshort | hcount)
    · rw [ThreadDevice.handleReadDiscreteInputs, if_pos hshort]
      rfl
    · rw [ThreadDevice.handleReadDiscreteInputs]
      split
      · rfl
      · simp only [if_pos (show beWord data 2 = 0 ∨ beWord data 2 > 2000 from hcount)]
        rfl
  · intro r s' hlen hcount hread'
    obtain ⟨rfl, rfl⟩ := hread.unique hread'
    have hloop : totalLoop d.readDiscreteInput writeBit (beWord data 0)
        (List.replicate (((beWord data 2).toNat + 7) / 8) 0)
        (List.range (beWord data 2).toNat) s = _ := foldlM_total hread
    rw [handleReadDiscreteInputs_eq d mbap hlen hcount, loopEnd]
    split
    · rw [if_pos ‹_›] at hloop
      rw [bind_of_panic hloop]
      rfl
    · rw [if_neg ‹_›] at hloop
      rw [bind_of_ok hloop]
      rfl
  · refine ⟨False.elim, ?_⟩
    rintro ⟨exc, s'', hexc⟩
    cases (hread.unique hexc).1
  · intro vs s' hvs hle hitems
    have hlimit : (beWord data 2).toNat ≤ 2000 := UInt16.le_iff_toNat_le.mp hle
    refine ⟨?_, vs, s', hitems, ?_⟩
    · rw [length_pack length_writeBit, List.length_replicate]
      omega
    · rw [← hvs]
      exact coversBits_readResponse mbap 0x02 vs

/-- The answer to a request that reads registers of a map. -/
theorem correct_readRegisters_iff {fc : UInt8} (hfc : fc ∈ [(0x03 : UInt8), 0x04])
    {map : UInt16 → Option String}
    (hrefused : ∀ start count, Refused d asU16 fc start count s ↔ ∃ exc s',
      Reads (d.readRegisterSignal asU16 map) (reached P start count) s (.error exc) s')
    (hcovers : ∀ start count frame, Covers d asU16 fc start count s frame ↔ ∃ vs s',
      Reads (d.readRegisterSignal asU16 map) (addresses start count) s (.ok vs) s' ∧
        CoversWords vs frame) (data : List UInt8) :
    Correct d asU16 mbap (fc :: data) s (d.handleReadRegisters asU16 mbap fc data map s).1 ↔
      (PassesEnd (fc :: data) → beWord data 2 ≤ readLimit fc →
        Refused d asU16 fc (beWord data 0) (beWord data 2).toNat s) := by
  have hlimits : ∀ fc ∈ [(0x03 : UInt8), 0x04],
      readLimit fc = 125 ∧ fc ∈ [(0x01 : UInt8), 0x02, 0x03, 0x04] := by
    simp only [List.forall_mem_cons]
    exact ⟨by decide, by decide, List.forall_mem_nil _⟩
  obtain ⟨hlimit, hfc'⟩ := hlimits fc hfc
  refine correct_read_iff d asU16 mbap s (d.readRegisterSignal asU16 map) setWord
    (List.replicate ((beWord data 2).toNat * 2) 0) hfc'
    (exists_reads (neverPanics_readRegisterSignal d asU16 map) _ s) ?_ ?_ (hrefused _ _) ?_
  · rw [hlimit]
    rintro (hshort | hcount)
    · rw [ThreadDevice.handleReadRegisters, if_pos hshort]
      rfl
    · rw [ThreadDevice.handleReadRegisters]
      split
      · rfl
      · simp only [if_pos hcount]
        rfl
  · intro r s' hlen hcount hread
    rw [hlimit] at hcount
    rw [handleReadRegisters_eq d asU16 mbap fc map hlen hcount]
    exact answer_of_loop mbap s fc (foldlM_refusable hread)
  · intro vs s' hvs hle hitems
    rw [hlimit] at hle
    have hle' : (beWord data 2).toNat ≤ 125 := UInt16.le_iff_toNat_le.mp hle
    refine ⟨?_, (hcovers _ _ _).mpr ⟨vs, s', hitems, ?_⟩⟩
    · rw [length_pack length_setWord, List.length_replicate]
      omega
    · rw [← hvs]
      exact coversWords_readResponse mbap fc vs

/-- Where nothing is read, the end of the range does not count. -/
theorem iff_of_correct {outcome : Except Panic (List UInt8)} {Q : Prop}
    (hfc : functionCode pdu ∉ [0x01, 0x02, 0x03, 0x04])
    (hcorrect : Correct d asU16 mbap pdu s outcome) :
    Correct d asU16 mbap pdu s outcome ↔ (PassesEnd pdu → Q) :=
  ⟨fun _ hpast => absurd hpast.1 hfc, fun _ => hcorrect⟩

end

section

variable (d : ThreadDevice P σ) (asU16 : P.F32 → UInt16) (mbap : Mbap) (s : Session P σ)

/-! ### Answers to writes -/

/-- The other function codes read nothing. -/
theorem writes_cons {fc : UInt8} (hfc : fc ∉ [(0x01 : UInt8), 0x02, 0x03, 0x04])
    (data : List UInt8) : functionCode (fc :: data) ∉ [(0x01 : UInt8), 0x02, 0x03, 0x04] :=
  hfc

theorem correct_writeSingleCoil {data : List UInt8} (hlen : data.length + 2 < 2 ^ 16) :
    Correct d asU16 mbap (0x05 :: data) s (d.handleWriteSingleCoil mbap data s).1 := by
  rw [ThreadDevice.handleWriteSingleCoil]
  split
  · exact correct_of_exception d asU16 mbap s illegalDataValue
  · dsimp only
    split
    · exact correct_of_write d asU16 mbap s (writes_cons (by decide : (0x05 : UInt8) ∉ _) data)
        (neverPanics_writeCoilSignal d _ _) hlen
    · exact correct_of_exception d asU16 mbap s illegalDataValue

theorem correct_writeSingleRegister {data : List UInt8} (hlen : data.length + 2 < 2 ^ 16) :
    Correct d asU16 mbap (0x06 :: data) s (d.handleWriteSingleRegister mbap data s).1 := by
  rw [ThreadDevice.handleWriteSingleRegister]
  split
  · exact correct_of_exception d asU16 mbap s illegalDataValue
  · exact correct_of_write d asU16 mbap s (writes_cons (by decide : (0x06 : UInt8) ∉ _) data)
      (neverPanics_writeRegisterSignal d _ _ _) hlen

theorem correct_writeMultipleCoils (data : List UInt8) :
    Correct d asU16 mbap (0x0F :: data) s (d.handleWriteMultipleCoils mbap data s).1 := by
  rw [ThreadDevice.handleWriteMultipleCoils]
  split
  · exact correct_of_exception d asU16 mbap s illegalDataValue
  · exact correct_of_write d asU16 mbap s (writes_cons (by decide : (0x0F : UInt8) ∉ _) data)
      (neverPanics_writeCoilSignal d _ _) (by rw [List.length_take]; omega)

theorem correct_writeMultipleRegisters (data : List UInt8) :
    Correct d asU16 mbap (0x10 :: data) s (d.handleWriteMultipleRegisters mbap data s).1 := by
  rw [ThreadDevice.handleWriteMultipleRegisters]
  split
  · exact correct_of_exception d asU16 mbap s illegalDataValue
  · exact correct_of_write d asU16 mbap s (writes_cons (by decide : (0x10 : UInt8) ∉ _) data)
      (neverPanics_writeRegisterSignal d _ _ _) (by rw [List.length_take]; omega)

/-! ### The requests that are answered correctly -/

/-- The requests that the listener's device answers correctly. -/
theorem correct_thread_iff {pdu : List UInt8} (hpdu : pdu.length + 1 < 2 ^ 16) :
    Correct d asU16 mbap pdu s (d.handleRequest asU16 mbap pdu s).1 ↔
      (PassesEnd pdu → rangeCount pdu ≤ readLimit (functionCode pdu) →
        Refused d asU16 (functionCode pdu) (rangeStart pdu) (rangeCount pdu).toNat s) := by
  cases pdu with
  | nil =>
      refine iff_of_correct d asU16 mbap s (by decide) ?_
      exact correct_of_exception d asU16 mbap s illegalFunction
  | cons fc data =>
      have hlen : data.length + 2 < 2 ^ 16 := hpdu
      unfold ThreadDevice.handleRequest
      dsimp only
      split
      · exact correct_readCoils_iff d asU16 mbap s data
      · exact correct_readDiscreteInputs_iff d asU16 mbap s data
      · exact correct_readRegisters_iff d asU16 mbap s (by decide) (fun _ _ => Iff.rfl)
          (fun _ _ _ => Iff.rfl) data
      · exact correct_readRegisters_iff d asU16 mbap s (by decide) (fun _ _ => Iff.rfl)
          (fun _ _ _ => Iff.rfl) data
      · exact iff_of_correct d asU16 mbap s (writes_cons (by decide : (0x05 : UInt8) ∉ _) data)
          (correct_writeSingleCoil d asU16 mbap s hlen)
      · exact iff_of_correct d asU16 mbap s (writes_cons (by decide : (0x06 : UInt8) ∉ _) data)
          (correct_writeSingleRegister d asU16 mbap s hlen)
      · exact iff_of_correct d asU16 mbap s (writes_cons (by decide : (0x0F : UInt8) ∉ _) data)
          (correct_writeMultipleCoils d asU16 mbap s data)
      · exact iff_of_correct d asU16 mbap s (writes_cons (by decide : (0x10 : UInt8) ∉ _) data)
          (correct_writeMultipleRegisters d asU16 mbap s data)
      · refine iff_of_correct d asU16 mbap s ?_
          (correct_of_exception d asU16 mbap s illegalFunction)
        intro hmem
        change fc ∈ _ at hmem
        simp_all

/-- The device answers a request correctly when the listener's device does. -/
theorem correct_device_iff {pdu : List UInt8} :
    Correct d asU16 mbap pdu s (d.bound.handleRequest asU16 mbap pdu s).1 ↔
      Correct d asU16 mbap pdu s (d.handleRequest asU16 mbap pdu s).1 := by
  by_cases hone : pdu.head? = some 0x10 ∧ pdu.length = 8
  · obtain ⟨data, rfl⟩ := List.head?_eq_some_iff.mp hone.1
    have hlen : data.length = 7 := Nat.succ.inj hone.2
    refine iff_of_true ?_ (correct_writeMultipleRegisters d asU16 mbap s data)
    obtain ⟨s', hecho | hexc⟩ := handleWriteMultipleRegisters_one d mbap data hlen s
    · change Correct d asU16 mbap _ s (d.bound.handleWriteMultipleRegisters mbap data s).1
      rw [hecho, echoResponse_eq]
      exact correct_of_echo d asU16 mbap s (writes_cons (by decide : (0x10 : UInt8) ∉ _) data)
        (by rw [List.length_take]; omega)
    · change Correct d asU16 mbap _ s (d.bound.handleWriteMultipleRegisters mbap data s).1
      rw [hexc]
      exact correct_of_exception d asU16 mbap s illegalDataAddress
  · rw [handleRequest_bound d asU16 mbap pdu hone]

end

/-- The two devices answer a request correctly, unless it reads a valid number of items past
the largest address and no item that the handler comes to is refused. The length of a request
is a `u16` in its header. -/
theorem correct_iff {device : VirtualModbusTcpDevice P σ} {thread : ThreadDevice P σ}
    (hstart : device.start = .ok thread) (asU16 : P.F32 → UInt16) (mbap : Mbap)
    {pdu : List UInt8} (hpdu : pdu.length + 1 < 2 ^ 16) (s : Session P σ) :
    Correct thread asU16 mbap pdu s (device.handleRequest asU16 mbap pdu s).1 ∧
        Correct thread asU16 mbap pdu s (thread.handleRequest asU16 mbap pdu s).1 ↔
      (PassesEnd pdu → rangeCount pdu ≤ readLimit (functionCode pdu) →
        Refused thread asU16 (functionCode pdu) (rangeStart pdu) (rangeCount pdu).toNat s) := by
  obtain rfl := VirtualModbusTcpDevice.eq_bound hstart
  rw [correct_device_iff thread asU16 mbap s, and_self]
  exact correct_thread_iff thread asU16 mbap s hpdu

/-- The listener's device of the device with one holding register. -/
def speedThread : ThreadDevice .exact Unit :=
  ⟨silentTransport, speedDevice.coils, speedDevice.holdingRegs, speedDevice.inputRegs,
    speedDevice.discreteInputs⟩

/-- The request for the holding register 0. -/
def registerPdu : List UInt8 := [3, 0, 0, 0, 1]

theorem correct_iff_register :
    Correct speedThread (fun _ => 0) oneRegisterMbap registerPdu ⟨(), []⟩
          (speedDevice.handleRequest (fun _ => 0) oneRegisterMbap registerPdu ⟨(), []⟩).1 ∧
        Correct speedThread (fun _ => 0) oneRegisterMbap registerPdu ⟨(), []⟩
          (speedThread.handleRequest (fun _ => 0) oneRegisterMbap registerPdu ⟨(), []⟩).1 ↔
      (PassesEnd registerPdu → rangeCount registerPdu ≤ readLimit (functionCode registerPdu) →
        Refused speedThread (fun _ => 0) (functionCode registerPdu) (rangeStart registerPdu)
          (rangeCount registerPdu).toNat ⟨(), []⟩) :=
  correct_iff rfl (fun _ => 0) oneRegisterMbap (by decide) ⟨(), []⟩

/-- The request for two inputs, the first one at the largest address. -/
def pastEndPdu : List UInt8 := [2, 0xFF, 0xFF, 0, 2]

/-- The devices panic: the address of the second input is not a `u16`. -/
theorem correct_not_pastEnd :
    speedDevice.start = .ok speedThread ∧
      ¬ (Correct speedThread (fun _ => 0) oneRegisterMbap pastEndPdu ⟨(), []⟩
          (speedDevice.handleRequest (fun _ => 0) oneRegisterMbap pastEndPdu ⟨(), []⟩).1 ∧
        Correct speedThread (fun _ => 0) oneRegisterMbap pastEndPdu ⟨(), []⟩
          (speedThread.handleRequest (fun _ => 0) oneRegisterMbap pastEndPdu ⟨(), []⟩).1) := by
  refine ⟨rfl, ?_⟩
  rintro ⟨-, hthread⟩
  have hpast : PassesEnd pastEndPdu := ⟨by decide, by decide, by decide⟩
  exact (correct_thread_iff speedThread (fun _ => 0) oneRegisterMbap ⟨(), []⟩ (by decide)).mp
    hthread hpast (by decide)

end Weftik.Modbus
