import Weftik.Amw.Stream
import Weftik.Lib.Transition
import Weftik.Modbus.Mapping

/-!
# The Modbus Adapter

A pass of the adapter goes through the mappings. A `Read` mapping publishes what the device
answers as a signal; a `Write` mapping writes the value of its signal unless the cache says
that it has been written. The cache goes by the name of the signal and is filled by both
kinds of mappings, and a write goes to the holding registers, as many as the value needs,
whatever the type and the count of the mapping are.

## Main definitions

* `Modbus.pollRead`, `Modbus.pollWrite`, `Modbus.pollPass`: a pass of the adapter.
* `Modbus.WriteThrough`: what a pass has to leave behind.
* `Modbus.Mapped`, `Modbus.Fits`: the mappings and the signals for which it does.

## Main results

* `Modbus.writeThrough_of_mapped`: the runs in which every pass is written through.
-/

open Transition

namespace Weftik.Modbus

open Amw

variable {P : Platform}

/-! ### The device and the transport -/

/-- How a write request ends. A request that is lost has been performed by the device, and
the answer has not come back. -/
inductive WriteAnswer
  | performed
  | refused (reason : String)
  | lost (reason : String)
  deriving DecidableEq

/-- What the device and the transport answer while a mapping is polled. -/
structure Answers where
  bits : Except String (List Bool)
  registers : Except String (List UInt16)
  publishSignal : Except String Unit
  readSignal : Except String Unit
  write : WriteAnswer

/-- A write that the device has performed, and whether the adapter has been told. -/
structure Performed where
  address : ℕ
  registers : List UInt16
  confirmed : Bool
  deriving DecidableEq

/-- The adapter's cache, the signals of the transport, the device, and the writes that the
device has performed, the last one first. -/
structure PollState (P : Platform) where
  cache : String → Option (Message P)
  signals : String → Option (Message P)
  device : Device
  performed : List Performed

/-- The state in which the poll loop starts. -/
def PollState.new (device : Device) : PollState P :=
  ⟨fun _ => none, fun _ => none, device, []⟩

/-! ### The client -/

/-- The most registers of one read request. -/
def maxReadRegisters : ℕ := 125

/-- The most registers of one write request. -/
def maxWriteRegisters : ℕ := 123

/-- A request to read registers; the buffer is cut to the number of registers read. -/
def readRegisters (count : UInt16) (answers : Answers) : Except ModbusError (List UInt16) :=
  if count = 0 ∨ maxReadRegisters < count.toNat then
    .error (.invalidData s!"count {count} not in 1..={maxReadRegisters}")
  else (answers.registers.mapError .io).map (·.take count.toNat)

/-- A request to read bits. -/
def readBits (count : UInt16) (answers : Answers) : Except ModbusError (List Bool) :=
  if count = 0 then .error (.invalidData "count must be > 0")
  else (answers.bits.mapError .io).map (·.take count.toNat)

/-- The device performs a write of holding registers. -/
def PollState.perform (s : PollState P) (w : Performed) : PollState P :=
  { s with
    device :=
      { s.device with
        holdingRegisters := store s.device.holdingRegisters w.address w.registers }
    performed := w :: s.performed }

/-- A write request to the holding registers. -/
def request (address : UInt16) (registers : List UInt16) (answer : WriteAnswer)
    (s : PollState P) : Except ModbusError Unit × PollState P :=
  match answer with
  | .performed => (.ok (), s.perform ⟨address.toNat, registers, true⟩)
  | .refused reason => (.error (.io reason), s)
  | .lost reason => (.error (.io reason), s.perform ⟨address.toNat, registers, false⟩)

/-- A request for one register. -/
def writeSingleRegister (address value : UInt16) (answer : WriteAnswer) (s : PollState P) :
    Except ModbusError Unit × PollState P :=
  request address [value] answer s

/-- A request for several registers, refused by the client when there are none or too
many. -/
def writeMultipleRegisters (address : UInt16) (values : List UInt16) (answer : WriteAnswer)
    (s : PollState P) : Except ModbusError Unit × PollState P :=
  if values.length = 0 ∨ maxWriteRegisters < values.length then
    (.error (.invalidData s!"count {values.length} not in 1..={maxWriteRegisters}"), s)
  else request address values answer s

/-! ### The poll loop -/

/-- The value that a `Read` mapping finds in the device. -/
def readValue (m : RegisterMapping) (answers : Answers) :
    Except ModbusError (HalValue P) :=
  let bitValue (bits : List Bool) : HalValue P :=
    coilsToHalvalue (bits.map fun b => if b then 1 else 0)
  match m.registerType with
  | .coil | .discreteInput => (readBits m.count answers).map bitValue
  | .holdingRegister | .inputRegister =>
      readRegisters m.count answers >>= fun regs => registersToHalvalue regs .u16

/-- The entry of a name replaced. -/
def insert (map : String → Option (Message P)) (name : String) (entry : Message P) :
    String → Option (Message P) :=
  fun other => if other = name then some entry else map other

/-- A `Read` mapping is polled. -/
def pollRead (m : RegisterMapping) (ts : Timestamp) (answers : Answers) (s : PollState P) :
    Except ModbusError Unit × PollState P :=
  match readValue m answers with
  | .error e => (.error e, s)
  | .ok value =>
      match answers.publishSignal with
      | .error e => (.error (.io s!"publish failed: {e}"), s)
      | .ok () =>
          (.ok (), { s with
            signals := insert s.signals m.signalName (value, ts)
            cache := insert s.cache m.signalName (value, ts) })

/-- The registers of a value are written, by the request for their number. -/
def writeRegisters (address : UInt16) (registers : List UInt16) (answer : WriteAnswer)
    (s : PollState P) : Except ModbusError Unit × PollState P :=
  match registers with
  | [register] => writeSingleRegister address register answer s
  | registers => writeMultipleRegisters address registers answer s

/-- The value is the one in the cache. -/
def unchanged (s : PollState P) (name : String) (value : HalValue P) : Bool :=
  (s.cache name).any fun cached => cached.1.beq value

/-- A `Write` mapping is polled. -/
def pollWrite (m : RegisterMapping) (answers : Answers) (s : PollState P) :
    Except ModbusError Unit × PollState P :=
  match answers.readSignal with
  | .error e => (.error (.io s!"read_signal failed: {e}"), s)
  | .ok () =>
      match s.signals m.signalName with
      | none => (.ok (), s)
      | some (value, signalTs) =>
          if unchanged s m.signalName value then (.ok (), s)
          else
            match halvalueToRegisters value with
            | .error e => (.error e, s)
            | .ok (registers, _) =>
                match writeRegisters m.address registers answers.write s with
                | (.error e, t) => (.error e, t)
                | (.ok (), t) =>
                    (.ok (), { t with
                      cache := insert t.cache m.signalName (value, signalTs) })

/-- A mapping is polled. -/
def poll (ts : Timestamp) (m : RegisterMapping) (answers : Answers) (s : PollState P) :
    Except ModbusError Unit × PollState P :=
  match m.direction with
  | .read => pollRead m ts answers s
  | .write => pollWrite m answers s

/-- The mappings are polled one after the other. An error is reported and the next mapping
comes; `true` when there has been none. -/
def pollMappings (ts : Timestamp) :
    List RegisterMapping → (ℕ → Answers) → PollState P → Bool × PollState P
  | [], _, s => (true, s)
  | m :: ms, answers, s =>
      let polled := poll ts m (answers 0) s
      let rest := pollMappings ts ms (fun i => answers (i + 1)) polled.2
      (polled.1.toBool && rest.1, rest.2)

/-- A pass of the poll loop: the time, the signals as they are when it starts, and what is
answered while each of the mappings is polled. -/
structure Pass (P : Platform) where
  ts : Timestamp
  signals : String → Option (Message P)
  answers : ℕ → Answers

/-- One pass of the poll loop, and whether no operation of it has failed. -/
def pollPass (ms : List RegisterMapping) (s : PollState P) (pass : Pass P) :
    Bool × PollState P :=
  pollMappings pass.ts ms pass.answers { s with signals := pass.signals }

/-- The poll loop goes from pass to pass. -/
def pollStep (ms : List RegisterMapping) (s : PollState P) (pass : Pass P) :
    Option (PollState P) :=
  some (pollPass ms s pass).2

/-! ### Write-through -/

/-- The register is in the target of a `Write` mapping of holding registers. -/
def OnTarget (ms : List RegisterMapping) (address : ℕ) : Prop :=
  ∃ m ∈ ms, m.direction = .write ∧ m.registerType = .holdingRegister ∧
    m.address.toNat ≤ address ∧ address < m.address.toNat + m.count.toNat

/-- The targets of the `Write` mappings hold the values of their signals. -/
def TargetsHold (ms : List RegisterMapping) (s : PollState P) : Prop :=
  ∀ m ∈ ms, m.direction = .write → ∀ value ts, s.signals m.signalName = some (value, ts) →
    s.device.Holds m value

/-- Nothing has been written outside of the targets. -/
def WritesOnTargets (ms : List RegisterMapping) (s : PollState P) : Prop :=
  ∀ w ∈ s.performed, ∀ i < w.registers.length, OnTarget ms (w.address + i)

/-- What a pass leaves behind: the targets hold the values of the signals if nothing has
failed, and nothing else has been written. -/
def WriteThrough (ms : List RegisterMapping) (s : PollState P) (pass : Pass P) : Prop :=
  ((pollPass ms s pass).1 = true → TargetsHold ms (pollPass ms s pass).2) ∧
    WritesOnTargets ms (pollPass ms s pass).2

/-- Two mappings of which the first one is a `Write` mapping do not meet: they have
different signals and, if both write, different registers, or they write one signal to one
address. -/
def Apart (m other : RegisterMapping) : Prop :=
  match other.direction with
  | .read => m.signalName ≠ other.signalName
  | .write =>
      if m.signalName = other.signalName then m.address = other.address
      else m.address.toNat + m.count.toNat ≤ other.address.toNat ∨
        other.address.toNat + other.count.toNat ≤ m.address.toNat

/-- The `Write` mappings do not meet other mappings. -/
def Mapped (ms : List RegisterMapping) : Prop :=
  ∀ m ∈ ms, m.direction = .write → ∀ other ∈ ms, Apart m other

/-- The last write that the device has performed at the address has been confirmed. -/
def Settled (performed : List Performed) (address : ℕ) : Prop :=
  ∀ w, performed.find? (·.address = address) = some w → w.confirmed = true

/-- The signal of a `Write` mapping, if it has a value that can be written, is mapped to as
many holding registers as the value needs. If the value is equal to the cached one, then it
has the same registers, and no write since has been performed without an answer. -/
def Fits (s : PollState P) (m : RegisterMapping) : Prop :=
  ∀ value ts, s.signals m.signalName = some (value, ts) →
    (∀ regs type, halvalueToRegisters value = .ok (regs, type) →
      m.registerType = .holdingRegister ∧ regs.length = m.count.toNat) ∧
    (∀ cached, s.cache m.signalName = some cached → cached.1.beq value = true →
      halvalueToRegisters cached.1 = halvalueToRegisters value ∧
      Settled s.performed m.address.toNat)

/-- The `Write` mappings fit the signals with which the pass starts. -/
def PassFits (ms : List RegisterMapping) (s : PollState P) (pass : Pass P) : Prop :=
  ∀ m ∈ ms, m.direction = .write → Fits { s with signals := pass.signals } m

/-! ### What polling a mapping does -/

/-- A write request is refused, lost or performed. -/
theorem request_cases (address : UInt16) (registers : List UInt16) (answer : WriteAnswer)
    (s : PollState P) :
    (∃ e, request address registers answer s = (.error e, s)) ∨
    (∃ e, request address registers answer s =
      (.error e, s.perform ⟨address.toNat, registers, false⟩)) ∨
    request address registers answer s =
      (.ok (), s.perform ⟨address.toNat, registers, true⟩) := by
  cases answer with
  | performed => exact Or.inr (Or.inr rfl)
  | refused reason => exact Or.inl ⟨_, rfl⟩
  | lost reason => exact Or.inr (Or.inl ⟨_, rfl⟩)

/-- Registers are written by a request, unless the client refuses their number. -/
theorem writeRegisters_cases (address : UInt16) (registers : List UInt16)
    (answer : WriteAnswer) (s : PollState P) :
    (∃ e, writeRegisters address registers answer s = (.error e, s)) ∨
    (registers ≠ [] ∧
      writeRegisters address registers answer s = request address registers answer s) := by
  match registers with
  | [] => exact Or.inl ⟨_, rfl⟩
  | [register] => exact Or.inr ⟨List.cons_ne_nil _ _, rfl⟩
  | first :: second :: rest =>
      rw [writeRegisters, writeMultipleRegisters]
      · split
        · exact Or.inl ⟨_, rfl⟩
        · exact Or.inr ⟨List.cons_ne_nil _ _, rfl⟩
      · exact nofun

/-- What polling a `Write` mapping may do. -/
inductive WritePolled (m : RegisterMapping) (s : PollState P) :
    Except ModbusError Unit → PollState P → Prop
  | failed (e : ModbusError) : WritePolled m s (.error e) s
  | unset : s.signals m.signalName = none → WritePolled m s (.ok ()) s
  | skipped {value ts} : s.signals m.signalName = some (value, ts) →
      unchanged s m.signalName value = true → WritePolled m s (.ok ()) s
  | lost (e : ModbusError) {value ts regs type} :
      s.signals m.signalName = some (value, ts) → unchanged s m.signalName value = false →
      halvalueToRegisters value = .ok (regs, type) → regs ≠ [] →
      WritePolled m s (.error e) (s.perform ⟨m.address.toNat, regs, false⟩)
  | written {value ts regs type} :
      s.signals m.signalName = some (value, ts) → unchanged s m.signalName value = false →
      halvalueToRegisters value = .ok (regs, type) → regs ≠ [] →
      WritePolled m s (.ok ())
        { s.perform ⟨m.address.toNat, regs, true⟩ with
          cache := insert s.cache m.signalName (value, ts) }

theorem pollWrite_polled (m : RegisterMapping) (answers : Answers) (s : PollState P) :
    WritePolled m s (pollWrite m answers s).1 (pollWrite m answers s).2 := by
  rw [pollWrite]
  cases answers.readSignal with
  | error e => exact .failed _
  | ok u =>
      dsimp only
      cases hsignal : s.signals m.signalName with
      | none => exact .unset hsignal
      | some entry =>
          obtain ⟨value, ts⟩ := entry
          dsimp only
          cases hcached : unchanged s m.signalName value with
          | true => exact .skipped hsignal hcached
          | false =>
              cases hregs : halvalueToRegisters value with
              | error e => exact .failed _
              | ok converted =>
                  obtain ⟨regs, type⟩ := converted
                  rw [if_neg Bool.false_ne_true]
                  dsimp only
                  obtain ⟨e, hw⟩ | ⟨hne, hw⟩ :=
                    writeRegisters_cases m.address regs answers.write s
                  · rw [hw]
                    exact .failed e
                  · obtain ⟨e, hr⟩ | ⟨e, hr⟩ | hr :=
                      request_cases m.address regs answers.write s
                    · rw [hw, hr]
                      exact .failed e
                    · rw [hw, hr]
                      exact .lost e hsignal hcached hregs hne
                    · rw [hw, hr]
                      exact .written hsignal hcached hregs hne

/-- A `Read` mapping leaves everything as it is, or publishes and caches a value. -/
theorem pollRead_cases (m : RegisterMapping) (ts : Timestamp) (answers : Answers)
    (s : PollState P) :
    (pollRead m ts answers s).2 = s ∨
    ∃ entry, (pollRead m ts answers s).2 =
      { s with
        signals := insert s.signals m.signalName entry
        cache := insert s.cache m.signalName entry } := by
  rw [pollRead]
  cases readValue (P := P) m answers with
  | error e => exact Or.inl rfl
  | ok value =>
      dsimp only
      cases answers.publishSignal with
      | error e => exact Or.inl rfl
      | ok u => exact Or.inr ⟨_, rfl⟩

/-! ### The invariant of the poll loop -/

/-- Every cached value of a `Write` mapping has been written, and is still there if the
last write to its target has been confirmed. -/
structure Consistent (ms : List RegisterMapping) (s : PollState P) : Prop where
  cached : ∀ m ∈ ms, m.direction = .write → ∀ entry, s.cache m.signalName = some entry →
    ∃ regs type, halvalueToRegisters entry.1 = .ok (regs, type) ∧ regs ≠ [] ∧
      regs.length = m.count.toNat ∧
      (Settled s.performed m.address.toNat →
        contents s.device.holdingRegisters m.address.toNat m.count.toNat = regs)
  onTargets : WritesOnTargets ms s

/-- The invariant, and the condition on the signals, between two mappings of a pass. -/
structure Ready (ms : List RegisterMapping) (s : PollState P) : Prop where
  consistent : Consistent ms s
  fits : ∀ m ∈ ms, m.direction = .write → Fits s m

theorem consistent_new (ms : List RegisterMapping) (device : Device) :
    Consistent ms (PollState.new device : PollState P) :=
  ⟨fun _ _ _ _ h => (nomatch h), fun _ h => (nomatch h)⟩

section Lookup

variable {map : String → Option (Message P)} {name other : String} {entry : Message P}

theorem insert_self : insert map name entry name = some entry := if_pos rfl

theorem insert_of_ne (h : other ≠ name) : insert map name entry other = map other :=
  if_neg h

end Lookup

section Log

variable {performed : List Performed} {w : Performed} {a : ℕ}

theorem settled_cons_of_ne (h : w.address ≠ a) :
    Settled (w :: performed) a ↔ Settled performed a := by
  rw [Settled, Settled, List.find?_cons_of_neg (by simpa using h)]

theorem settled_cons_self (h : w.address = a) :
    Settled (w :: performed) a ↔ w.confirmed = true := by
  rw [Settled, List.find?_cons_of_pos (by simpa using h)]
  constructor
  · intro hall
    exact hall w rfl
  · rintro hconf w' ⟨⟩
    exact hconf

end Log

theorem not_beq_of_unchanged {s : PollState P} {name : String} {value : HalValue P}
    {cached : Message P} (h : unchanged s name value = false)
    (hcache : s.cache name = some cached) : cached.1.beq value ≠ true := by
  rw [unchanged, hcache, Option.any_some] at h
  rw [h]
  exact Bool.false_ne_true

theorem exists_of_unchanged {s : PollState P} {name : String} {value : HalValue P}
    (h : unchanged s name value = true) :
    ∃ cached, s.cache name = some cached ∧ cached.1.beq value = true := by
  rw [unchanged] at h
  cases hcache : s.cache name with
  | none => rw [hcache] at h; cases h
  | some cached =>
      rw [hcache] at h
      exact ⟨cached, rfl, h⟩

/-! ### One mapping of a pass -/

/-- A `Write` mapping and another one write one signal to one address, or different signals
to different registers. -/
theorem Apart.write_cases {m other : RegisterMapping} (h : Apart m other)
    (hother : other.direction = .write) :
    (m.signalName = other.signalName ∧ m.address = other.address) ∨
    (m.signalName ≠ other.signalName ∧
      (m.address.toNat + m.count.toNat ≤ other.address.toNat ∨
        other.address.toNat + other.count.toNat ≤ m.address.toNat)) := by
  rw [Apart, hother] at h
  dsimp only at h
  split at h
  · rename_i hname
    exact Or.inl ⟨hname, h⟩
  · rename_i hname
    exact Or.inr ⟨hname, h⟩

theorem Apart.ne_of_read {m other : RegisterMapping} (h : Apart m other)
    (hother : other.direction = .read) : m.signalName ≠ other.signalName := by
  rw [Apart, hother] at h
  exact h

section Pass

variable {ms : List RegisterMapping} {s t : PollState P} {m other : RegisterMapping}
  {r : Except ModbusError Unit} {entry : Message P} {value : HalValue P} {regs : List UInt16}
  {type : RegisterType}

/-- The mapping is to holding registers, as many as its signal needs. -/
theorem Ready.fitting (h : Ready ms s) (hm : m ∈ ms) (hwrite : m.direction = .write)
    {ts : Timestamp} (hsignal : s.signals m.signalName = some (value, ts))
    (hregs : halvalueToRegisters value = .ok (regs, type)) :
    m.registerType = .holdingRegister ∧ regs.length = m.count.toNat :=
  (h.fits m hm hwrite value ts hsignal).1 regs type hregs

variable {w : Performed}

/-- A write of a mapping is to its own target. -/
theorem writesOnTargets_perform (hs : WritesOnTargets ms s) (hm : m ∈ ms)
    (hwrite : m.direction = .write) (htype : m.registerType = .holdingRegister)
    (haddr : w.address = m.address.toNat) (hlen : w.registers.length = m.count.toNat) :
    WritesOnTargets ms (s.perform w) := by
  intro w' hw' i hi
  rcases List.mem_cons.mp hw' with rfl | hw'
  · exact ⟨m, hm, hwrite, htype, by omega, by omega⟩
  · exact hs w' hw' i hi

/-- A cached value of a `Write` mapping has registers, so the write of another signal is
to another address. -/
theorem address_ne_of_disjoint (hne : regs ≠ []) (hlen : regs.length = m.count.toNat)
    (hw : w.registers ≠ [])
    (hdisj : m.address.toNat + m.count.toNat ≤ w.address ∨
        w.address + w.registers.length ≤ m.address.toNat) :
    w.address ≠ m.address.toNat := by
  have hpos := List.length_pos_iff.mpr hne
  have hwpos := List.length_pos_iff.mpr hw
  omega

/-- What the invariant says of one cached value. -/
def Stored (s : PollState P) (m : RegisterMapping) (value : HalValue P) : Prop :=
  ∃ regs type, halvalueToRegisters value = .ok (regs, type) ∧ regs ≠ [] ∧
    regs.length = m.count.toNat ∧
    (Settled s.performed m.address.toNat →
      contents s.device.holdingRegisters m.address.toNat m.count.toNat = regs)

/-- A write elsewhere leaves a stored value stored. -/
theorem Stored.perform_of_disjoint (h : Stored s m value) (hw : w.registers ≠ [])
    (hdisj : m.address.toNat + m.count.toNat ≤ w.address ∨
        w.address + w.registers.length ≤ m.address.toNat) :
    Stored (s.perform w) m value := by
  obtain ⟨regs, type, hregs, hne, hlen, hstored⟩ := h
  refine ⟨regs, type, hregs, hne, hlen, fun hsettled => ?_⟩
  have hold : Settled s.performed m.address.toNat :=
    (settled_cons_of_ne (address_ne_of_disjoint hne hlen hw hdisj)).mp hsettled
  rw [← hstored hold]
  exact contents_store_of_disjoint hdisj.symm

/-- A write that is lost leaves nothing to say about what is stored at its address. -/
theorem Stored.perform_lost (h : Stored s m value) (regs : List UInt16) :
    Stored (s.perform ⟨m.address.toNat, regs, false⟩) m value := by
  obtain ⟨old, type, hold, hne, hlen, -⟩ := h
  refine ⟨old, type, hold, hne, hlen, fun hsettled => ?_⟩
  exact absurd ((settled_cons_self rfl).mp hsettled) Bool.false_ne_true

/-- A write that has been confirmed stores its value. -/
theorem stored_perform (hregs : halvalueToRegisters value = .ok (regs, type)) (hne : regs ≠ [])
    (hlen : regs.length = m.count.toNat) {confirmed : Bool} :
    Stored (s.perform ⟨m.address.toNat, regs, confirmed⟩) m value := by
  refine ⟨regs, type, hregs, hne, hlen, fun _ => ?_⟩
  rw [← hlen]
  exact contents_store

/-- Polling a `Write` mapping keeps the invariant. -/
theorem WritePolled.consistent (h : WritePolled m s r t) (hms : Mapped ms)
    (hs : Ready ms s) (hm : m ∈ ms) (hwrite : m.direction = .write) : Consistent ms t := by
  cases h with
  | failed e => exact hs.consistent
  | unset hsignal => exact hs.consistent
  | skipped hsignal hcached => exact hs.consistent
  | lost e hsignal hcached hregs hne =>
      obtain ⟨htype, hlen⟩ := hs.fitting hm hwrite hsignal hregs
      refine ⟨?_, writesOnTargets_perform hs.consistent.onTargets hm hwrite htype rfl hlen⟩
      intro o ho howrite entry hentry
      have hold : Stored s o entry.1 := hs.consistent.cached o ho howrite entry hentry
      obtain ⟨-, haddr⟩ | ⟨-, hdisj⟩ := (hms o ho howrite m hm).write_cases hwrite
      · rw [← haddr]
        exact hold.perform_lost _
      · exact hold.perform_of_disjoint hne (by rw [hlen]; exact hdisj)
  | @written value ts regs type hsignal hcached hregs hne =>
      obtain ⟨htype, hlen⟩ := hs.fitting hm hwrite hsignal hregs
      refine ⟨?_, writesOnTargets_perform hs.consistent.onTargets hm hwrite htype rfl hlen⟩
      intro o ho howrite entry hentry
      obtain ⟨hname, haddr⟩ | ⟨hname, hdisj⟩ :=
        (hms o ho howrite m hm).write_cases hwrite
      · rw [hname] at hentry
        obtain rfl : (value, ts) = entry := Option.some.inj (insert_self.symm.trans hentry)
        have holen : regs.length = o.count.toNat :=
          (hs.fitting ho howrite (hname ▸ hsignal) hregs).2
        rw [← haddr]
        exact stored_perform hregs hne holen
      · have hold : s.cache o.signalName = some entry :=
          (insert_of_ne hname).symm.trans hentry
        have hstored : Stored s o entry.1 := hs.consistent.cached o ho howrite entry hold
        exact hstored.perform_of_disjoint hne (by rw [hlen]; exact hdisj)

/-- Polling a `Write` mapping leaves the signals, and what the cache says of them, fit. -/
theorem WritePolled.fits (h : WritePolled m s r t) (hms : Mapped ms) (hs : Ready ms s)
    (hm : m ∈ ms) (hwrite : m.direction = .write) (ho : other ∈ ms)
    (howrite : other.direction = .write) : Fits t other := by
  cases h with
  | failed e => exact hs.fits other ho howrite
  | unset hsignal => exact hs.fits other ho howrite
  | skipped hsignal hcached => exact hs.fits other ho howrite
  | @lost e value ts regs type hsignal hcached hregs hne =>
      obtain ⟨-, hlen⟩ := hs.fitting hm hwrite hsignal hregs
      intro v vts hv
      obtain ⟨hvlen, hvcached⟩ := hs.fits other ho howrite v vts hv
      refine ⟨hvlen, fun cached hcache hbeq => ?_⟩
      obtain ⟨hname, -⟩ | ⟨-, hdisj⟩ := (hms other ho howrite m hm).write_cases hwrite
      · -- the signal is the one that has just been found to differ from the cached value
        change s.cache other.signalName = some cached at hcache
        change s.signals other.signalName = some (v, vts) at hv
        rw [hname] at hcache hv
        obtain ⟨rfl, -⟩ := Prod.mk.inj (Option.some.inj (hsignal.symm.trans hv))
        exact absurd hbeq (not_beq_of_unchanged hcached hcache)
      · obtain ⟨heq, hsettled⟩ := hvcached cached hcache hbeq
        obtain ⟨old, _, _, holdne, holdlen, -⟩ :=
          hs.consistent.cached other ho howrite cached hcache
        refine ⟨heq, (settled_cons_of_ne ?_).mpr hsettled⟩
        exact address_ne_of_disjoint holdne holdlen hne (by rw [hlen]; exact hdisj)
  | @written value ts regs type hsignal hcached hregs hne =>
      obtain ⟨-, hlen⟩ := hs.fitting hm hwrite hsignal hregs
      intro v vts hv
      obtain ⟨hvlen, hvcached⟩ := hs.fits other ho howrite v vts hv
      refine ⟨hvlen, fun cached hcache hbeq => ?_⟩
      obtain ⟨hname, haddr⟩ | ⟨hname, hdisj⟩ :=
        (hms other ho howrite m hm).write_cases hwrite
      · change s.signals other.signalName = some (v, vts) at hv
        rw [hname] at hcache hv
        obtain ⟨rfl, -⟩ := Prod.mk.inj (Option.some.inj (hsignal.symm.trans hv))
        obtain rfl : (value, ts) = cached := Option.some.inj (insert_self.symm.trans hcache)
        exact ⟨rfl, (settled_cons_self (congrArg UInt16.toNat haddr.symm)).mpr rfl⟩
      · have hold : s.cache other.signalName = some cached :=
          (insert_of_ne hname).symm.trans hcache
        obtain ⟨heq, hsettled⟩ := hvcached cached hold hbeq
        obtain ⟨old, _, _, holdne, holdlen, -⟩ :=
          hs.consistent.cached other ho howrite cached hold
        refine ⟨heq, (settled_cons_of_ne ?_).mpr hsettled⟩
        exact address_ne_of_disjoint holdne holdlen hne (by rw [hlen]; exact hdisj)

/-- The target of the mapping holds the value of its signal. -/
def TargetHolds (s : PollState P) (m : RegisterMapping) : Prop :=
  ∀ value ts, s.signals m.signalName = some (value, ts) → s.device.Holds m value

theorem holds_iff (htype : m.registerType = .holdingRegister) (device : Device)
    (value : HalValue P) :
    device.Holds m value ↔
      HoldsRegisters (contents device.holdingRegisters m.address.toNat m.count.toNat)
        value := by
  rw [Device.Holds, htype]

/-- A write that leaves the registers of the target alone leaves what the target holds,
whatever its table is. -/
theorem TargetHolds.perform (h : TargetHolds s m)
    (hdisj : w.address + w.registers.length ≤ m.address.toNat ∨
        m.address.toNat + m.count.toNat ≤ w.address) :
    TargetHolds (s.perform w) m := by
  intro value ts hvalue
  have hold := h value ts hvalue
  rw [Device.Holds] at hold ⊢
  cases hm : m.registerType with
  | holdingRegister =>
      rw [hm] at hold
      change HoldsRegisters (contents (store s.device.holdingRegisters w.address w.registers)
        m.address.toNat m.count.toNat) value
      rw [contents_store_of_disjoint hdisj]
      exact hold
  | coil => rw [hm] at hold; exact hold
  | discreteInput => rw [hm] at hold; exact hold
  | inputRegister => rw [hm] at hold; exact hold

/-- The target holds the value whose registers have been written to it. -/
theorem targetHolds_perform {ts : Timestamp} {confirmed : Bool}
    (hsignal : s.signals m.signalName = some (value, ts))
    (hregs : halvalueToRegisters value = .ok (regs, type))
    (htype : m.registerType = .holdingRegister) (hlen : regs.length = m.count.toNat) :
    TargetHolds (s.perform ⟨m.address.toNat, regs, confirmed⟩) m := by
  intro v vts hv
  obtain ⟨rfl, -⟩ := Prod.mk.inj (Option.some.inj (hsignal.symm.trans hv))
  rw [holds_iff htype, ← hlen]
  refine ⟨type, hregs.trans ?_⟩
  exact congrArg (fun regs => Except.ok (regs, type)) contents_store.symm

/-- After a `Write` mapping has been polled without failure, its target holds the value of
its signal. -/
theorem WritePolled.targetHolds (h : WritePolled m s r t) (hs : Ready ms s) (hm : m ∈ ms)
    (hwrite : m.direction = .write) (hok : r.toBool = true) : TargetHolds t m := by
  cases h with
  | failed e => cases hok
  | unset hsignal =>
      intro v vts hv
      rw [hsignal] at hv
      cases hv
  | @skipped value ts hsignal hcached =>
      intro v vts hv
      obtain ⟨cached, hcache, hbeq⟩ := exists_of_unchanged hcached
      obtain ⟨rfl, -⟩ := Prod.mk.inj (Option.some.inj (hsignal.symm.trans hv))
      obtain ⟨heq, hsettled⟩ := (hs.fits m hm hwrite value ts hsignal).2 cached hcache hbeq
      obtain ⟨regs, type, hregs, -, -, hstored⟩ :=
        hs.consistent.cached m hm hwrite cached hcache
      rw [heq] at hregs
      obtain ⟨htype, -⟩ := hs.fitting hm hwrite hsignal hregs
      rw [holds_iff htype, hstored hsettled]
      exact ⟨type, hregs⟩
  | lost e hsignal hcached hregs hne => cases hok
  | written hsignal hcached hregs hne =>
      obtain ⟨htype, hlen⟩ := hs.fitting hm hwrite hsignal hregs
      exact targetHolds_perform hsignal hregs htype hlen

/-- Polling a `Write` mapping without failure leaves the other targets as they should be. -/
theorem WritePolled.keeps (h : WritePolled m s r t) (hms : Mapped ms) (hs : Ready ms s)
    (hm : m ∈ ms) (hwrite : m.direction = .write) (ho : other ∈ ms)
    (howrite : other.direction = .write) (hok : r.toBool = true)
    (hholds : TargetHolds s other) : TargetHolds t other := by
  cases h with
  | failed e => cases hok
  | unset hsignal => exact hholds
  | skipped hsignal hcached => exact hholds
  | lost e hsignal hcached hregs hne => cases hok
  | written hsignal hcached hregs hne =>
      obtain ⟨-, hlen⟩ := hs.fitting hm hwrite hsignal hregs
      obtain ⟨hname, haddr⟩ | ⟨-, hdisj⟩ := (hms other ho howrite m hm).write_cases hwrite
      · rw [← hname] at hsignal
        obtain ⟨htype, holen⟩ := hs.fitting ho howrite hsignal hregs
        rw [← haddr]
        exact targetHolds_perform hsignal hregs htype holen
      · exact hholds.perform (by rw [hlen]; exact hdisj.symm)

/-! ### A pass -/

/-- Polling a mapping keeps the invariant and the condition; what it does not fail to do
keeps the targets, and makes its own one hold. -/
theorem poll_ready (hms : Mapped ms) (hs : Ready ms s) (hm : m ∈ ms) (ts : Timestamp)
    (answers : Answers) :
    Ready ms (poll ts m answers s).2 ∧
    ((poll ts m answers s).1.toBool = true →
      (m.direction = .write → TargetHolds (poll ts m answers s).2 m) ∧
      ∀ other ∈ ms, other.direction = .write → TargetHolds s other →
        TargetHolds (poll ts m answers s).2 other) := by
  cases hdir : m.direction with
  | write =>
      have hpolled := pollWrite_polled m answers s
      rw [poll, hdir]
      dsimp only
      exact ⟨⟨hpolled.consistent hms hs hm hdir,
          fun _ ho howrite => hpolled.fits hms hs hm hdir ho howrite⟩,
        fun hok => ⟨fun _ => hpolled.targetHolds hs hm hdir hok,
          fun _ ho howrite hholds => hpolled.keeps hms hs hm hdir ho howrite hok hholds⟩⟩
  | read =>
      rw [poll, hdir]
      dsimp only
      obtain heq | ⟨entry, heq⟩ := pollRead_cases m ts answers s
      · rw [heq]
        exact ⟨hs, fun _ => ⟨nofun, fun _ _ _ h => h⟩⟩
      · rw [heq]
        -- the name is not that of a `Write` mapping, so nothing that counts has changed
        have hne : ∀ other ∈ ms, other.direction = .write →
            other.signalName ≠ m.signalName := fun other ho howrite =>
          (hms other ho howrite m hm).ne_of_read hdir
        refine ⟨⟨⟨?_, hs.consistent.onTargets⟩, ?_⟩, fun _ => ⟨nofun, ?_⟩⟩
        · intro other ho howrite e he
          exact hs.consistent.cached other ho howrite e
            ((insert_of_ne (hne other ho howrite)).symm.trans he)
        · intro other ho howrite v vts hv
          obtain ⟨hlen, hcached⟩ := hs.fits other ho howrite v vts
            ((insert_of_ne (hne other ho howrite)).symm.trans hv)
          exact ⟨hlen, fun cached hcache => hcached cached
            ((insert_of_ne (hne other ho howrite)).symm.trans hcache)⟩
        · intro other ho howrite hholds v vts hv
          exact hholds v vts ((insert_of_ne (hne other ho howrite)).symm.trans hv)

/-- Polling some of the mappings keeps the invariant; without failure, the targets that
have held their values still do, and those of the mappings polled do as well. -/
theorem pollMappings_ready (hms : Mapped ms) (ts : Timestamp) {polled : List RegisterMapping}
    (hsub : polled ⊆ ms) (answers : ℕ → Answers) (hs : Ready ms s) :
    Ready ms (pollMappings ts polled answers s).2 ∧
    ((pollMappings ts polled answers s).1 = true →
      ∀ other ∈ ms, other.direction = .write → TargetHolds s other ∨ other ∈ polled →
        TargetHolds (pollMappings ts polled answers s).2 other) := by
  induction polled generalizing s answers with
  | nil =>
      refine ⟨hs, fun _ other _ _ h => ?_⟩
      exact h.resolve_right List.not_mem_nil
  | cons m rest ih =>
      obtain ⟨hmem, hrest⟩ := List.cons_subset.mp hsub
      obtain ⟨hready, hone⟩ := poll_ready hms hs hmem ts (answers 0)
      obtain ⟨hfinal, hall⟩ := ih hrest (fun i => answers (i + 1)) hready
      refine ⟨hfinal, fun hok other ho howrite hor => ?_⟩
      obtain ⟨hok₁, hok₂⟩ := (Bool.and_eq_true _ _).mp hok
      obtain ⟨hself, hkeep⟩ := hone hok₁
      apply hall hok₂ other ho howrite
      rcases hor with hholds | hin
      · exact Or.inl (hkeep other ho howrite hholds)
      · rcases List.mem_cons.mp hin with rfl | hin
        · exact Or.inl (hself howrite)
        · exact Or.inr hin

/-- A pass that starts with the invariant and with signals that fit is written through, and
keeps the invariant. -/
theorem pollPass_writeThrough (hms : Mapped ms) (hs : Consistent ms s) {pass : Pass P}
    (hfits : PassFits ms s pass) :
    Consistent ms (pollPass ms s pass).2 ∧ WriteThrough ms s pass := by
  have hready : Ready ms { s with signals := pass.signals } :=
    ⟨⟨hs.cached, hs.onTargets⟩, hfits⟩
  obtain ⟨hfinal, hall⟩ :=
    pollMappings_ready hms pass.ts (List.Subset.refl ms) pass.answers hready
  refine ⟨hfinal.consistent, fun hok m hm hwrite => ?_, hfinal.consistent.onTargets⟩
  exact hall hok m hm hwrite (Or.inr hm)

end Pass

/-- If the `Write` mappings do not meet other mappings, then every run in which each pass
starts with signals that fit is written through. -/
theorem writeThrough_of_mapped (ms : List RegisterMapping) (hms : Mapped ms)
    (device : Device) (passes : List (Pass P))
    (hfits : EveryStep (pollStep ms) (PassFits ms) (PollState.new device) passes) :
    EveryStep (pollStep ms) (WriteThrough ms) (PollState.new device) passes := by
  refine EveryStep.imp (I := Consistent ms) ?_ ?_ (consistent_new ms device) hfits
  · intro s pass t hs hfit hstep
    obtain rfl := Option.some.inj hstep
    exact (pollPass_writeThrough hms hs hfit).1
  · intro s pass hs hfit
    exact (pollPass_writeThrough hms hs hfit).2

/-- A device in which everything is off. -/
def blankDevice : Device := ⟨fun _ => false, fun _ => false, fun _ => 0, fun _ => 0⟩

/-- A pass in which nothing fails and every signal has the value. -/
def quietPass (value : HalValue P) : Pass P where
  ts := ⟨0, 0⟩
  signals _ := some (value, ⟨0, 0⟩)
  answers _ := ⟨.ok [], .ok [], .ok (), .ok (), .performed⟩

/-- The speed of a drive, in a holding register. -/
def speedMapping : RegisterMapping := ⟨"speed", .holdingRegister, 100, 1, .write⟩

theorem speed_writeThrough :
    EveryStep (pollStep [speedMapping]) (WriteThrough [speedMapping])
      (PollState.new blankDevice) [quietPass (.u16 1500 : HalValue Platform.exact)] := by
  refine writeThrough_of_mapped [speedMapping] ?_ blankDevice _ ⟨?_, trivial⟩
  · intro m hm hwrite other hother
    obtain rfl := List.mem_singleton.mp hm
    obtain rfl := List.mem_singleton.mp hother
    rfl
  · rintro m hm - value ts ⟨⟩
    obtain rfl := List.mem_singleton.mp hm
    exact ⟨by rintro regs type ⟨⟩; exact ⟨rfl, rfl⟩, nofun⟩

/-- A valve, at a coil. -/
def valveMapping : RegisterMapping := ⟨"valve", .coil, 0, 1, .write⟩

/-- The coil of the valve stays off: the write goes to the holding register. -/
theorem valve_not_writeThrough :
    ¬ EveryStep (pollStep [valveMapping]) (WriteThrough [valveMapping])
      (PollState.new blankDevice) [quietPass (.bool true : HalValue Platform.exact)] := by
  rintro ⟨⟨hholds, -⟩, -⟩
  have hcoil := hholds rfl valveMapping (List.mem_singleton.mpr rfl) rfl (.bool true) ⟨0, 0⟩ rfl
  cases hcoil

end Weftik.Modbus
