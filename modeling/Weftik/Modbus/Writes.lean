import Weftik.Modbus.Framing

/-!
# Writing Through the Virtual Devices

A request writes one item, or several that are packed behind their count. Of several items the
handlers write the first one only, and their answer repeats the start and the count of the
request. On a transport that keeps what is published, the first item then reads as it has been
written, the items after it as before, and a request that ends with an exception has changed no
signal.

## Main definitions

* `Modbus.Keeps`: a transport that keeps what is published.
* `Modbus.writtenItem`: the items that a request writes.
* `Modbus.WritesAll`, `Modbus.WritesFirst`: what an answer to a write says of the signals.

## Main results

* `Modbus.handleRequest_writesFirst`: both devices write the first item.
* `Modbus.writesAll_twoRegisters`: the second of two registers is not written.
-/

namespace Weftik.Modbus

open Amw

variable {P : Platform} {σ : Type}

/-! ### Transports that keep what is published -/

/-- The transport keeps the signals: reading returns the signal and changes none, publishing
sets it and changes no other, and where publishing fails nothing has been changed. -/
structure Keeps (t : Transport P σ) (signal : σ → String → Option (HalValue P)) : Prop where
  read_fst : ∀ name st, ∃ found, (t.readSignal name st).1 = .ok found ∧
    found.map Prod.fst = signal st name
  read_snd : ∀ name st, signal (t.readSignal name st).2 = signal st
  publish : ∀ name value ts st, (t.publishSignal name value ts st).1 = .ok () →
    signal (t.publishSignal name value ts st).2 = Function.update (signal st) name (some value)
  publish_error : ∀ name value ts st e, (t.publishSignal name value ts st).1 = .error e →
    signal (t.publishSignal name value ts st).2 = signal st

/-! ### The items of a request -/

/-- An item: a coil or a register. -/
abbrev Item : Type := Bool ⊕ UInt16

/-- The request is about coils. -/
def IsCoils (fc : UInt8) : Prop := fc = 0x05 ∨ fc = 0x0F

instance (fc : UInt8) : Decidable (IsCoils fc) := inferInstanceAs (Decidable (_ ∨ _))

/-- The number of items that a request writes. -/
def writtenCount (fc : UInt8) (data : List UInt8) : ℕ :=
  if fc = 0x05 ∨ fc = 0x06 then 1 else (beWord data 2).toNat

/-- The items that a request writes: one, or those that are packed behind the count and the
number of bytes. -/
def writtenItem (fc : UInt8) (data : List UInt8) (j : ℕ) : Option Item :=
  match fc with
  | 0x05 =>
      if beWord data 2 = 0xFF00 then some (.inl true)
      else if beWord data 2 = 0x0000 then some (.inl false) else none
  | 0x06 => some (.inr (beWord data 2))
  | 0x0F => if j / 8 < (data.drop 5).length then some (.inl (bitAt (data.drop 5) j)) else none
  | 0x10 =>
      if 2 * j + 1 < (data.drop 5).length then some (.inr (beWord (data.drop 5) (2 * j))) else none
  | _ => none

/-- The signal of an item. -/
def itemName (d : ThreadDevice P σ) (fc : UInt8) : UInt16 → Option String :=
  if IsCoils fc then d.coils else d.holdingRegs

/-- An item, as the read handlers read it. -/
def readItem (d : ThreadDevice P σ) (asU16 : P.F32 → UInt16) (fc : UInt8) (addr : UInt16) :
    Fallible P σ Item :=
  if IsCoils fc then Sum.inl <$> d.readCoilSignal addr
  else Sum.inr <$> d.readRegisterSignal asU16 d.holdingRegs addr

/-- The items of the request are mapped, each to a signal of its own. -/
structure ItemsMapped (map : UInt16 → Option String) (start : UInt16) (count : ℕ) : Prop where
  fits : start.toNat + count ≤ 2 ^ 16
  mapped : ∀ j < count, ∃ name, map (addressOf start j) = some name
  distinct : ∀ i < count, ∀ j < count,
    map (addressOf start i) = map (addressOf start j) → i = j

/-! ### What an answer says of the signals -/

/-- The number of items that an answer names. -/
def echoedCount (fc : UInt8) (frame : List UInt8) : ℕ := writtenCount fc (frame.drop 8)

/-- Reading the item returns the value. -/
def ReadsAs (d : ThreadDevice P σ) (asU16 : P.F32 → UInt16) (fc : UInt8) (s : Session P σ)
    (addr : UInt16) (v : Item) : Prop :=
  ∃ s', (readItem d asU16 fc addr).run s = (.ok (.ok v), s')

/-- The answer is an exception, and no signal has been changed. -/
def RejectsWrite (signal : σ → String → Option (HalValue P)) (fc : UInt8)
    (s : Session P σ) (out : Except Panic (List UInt8) × Session P σ) : Prop :=
  ∃ frame, out.1 = .ok frame ∧ frame[7]? = some (fc ||| 0x80) ∧
    signal out.2.transport = signal s.transport

/-- An answer is the truth: an exception has changed no signal, and after a positive answer the
items of the range that it names read as they have been written. -/
def WritesAll (d : ThreadDevice P σ) (asU16 : P.F32 → UInt16)
    (signal : σ → String → Option (HalValue P)) (fc : UInt8) (data : List UInt8)
    (s : Session P σ) (out : Except Panic (List UInt8) × Session P σ) : Prop :=
  RejectsWrite signal fc s out ∨
    ∃ frame, out.1 = .ok frame ∧ frame[7]? = some fc ∧
      ∀ j < echoedCount fc frame, ∃ v, writtenItem fc data j = some v ∧
        ReadsAs d asU16 fc out.2 (addressOf (beWord frame 8) j) v

/-- An exception has changed no signal, and after a positive answer the first item of the range
reads as it has been written and the others read as before. -/
def WritesFirst (d : ThreadDevice P σ) (asU16 : P.F32 → UInt16)
    (signal : σ → String → Option (HalValue P)) (fc : UInt8) (data : List UInt8)
    (s : Session P σ) (out : Except Panic (List UInt8) × Session P σ) : Prop :=
  RejectsWrite signal fc s out ∨
    ∃ frame, out.1 = .ok frame ∧ frame[7]? = some fc ∧
      beWord frame 8 = beWord data 0 ∧ echoedCount fc frame = writtenCount fc data ∧
      (∃ v, writtenItem fc data 0 = some v ∧ ReadsAs d asU16 fc out.2 (beWord frame 8) v) ∧
      ∀ j < echoedCount fc frame, j ≠ 0 → ∀ v,
        ReadsAs d asU16 fc out.2 (addressOf (beWord frame 8) j) v ↔
          ReadsAs d asU16 fc s (addressOf (beWord frame 8) j) v

/-! ### Reading an item -/

/-- The coil that a signal is read as. -/
def coilOf : Option (HalValue P) → Bool
  | some (.bool b) => b
  | some (.u16 v) => v ≠ 0
  | some (.u32 v) => v ≠ 0
  | _ => false

/-- The register that a signal is read as. -/
def registerOf (asU16 : P.F32 → UInt16) : Option (HalValue P) → UInt16
  | some (.u16 v) => v
  | some (.u32 v) => v.toUInt16
  | some (.s32 v) => MachineInt.ofInt v.toInt
  | some (.f32 x) => asU16 x
  | some (.bool b) => if b then 1 else 0
  | _ => 0

/-- The item that a signal is read as. -/
def itemOf (asU16 : P.F32 → UInt16) (fc : UInt8) (value : Option (HalValue P)) : Item :=
  if IsCoils fc then .inl (coilOf value) else .inr (registerOf asU16 value)

section

variable {d : ThreadDevice P σ} {signal : σ → String → Option (HalValue P)}

/-- A coil that is mapped is read from its signal. -/
theorem run_readCoilSignal (hkeeps : Keeps d.transport signal) {addr : UInt16} {name : String}
    (hname : d.coils addr = some name) (s : Session P σ) :
    ∃ s', (d.readCoilSignal addr).run s = (.ok (.ok (coilOf (signal s.transport name))), s') := by
  obtain ⟨found, hfound, hvalue⟩ := hkeeps.read_fst name s.transport
  refine ⟨{ s with transport := (d.transport.readSignal name s.transport).2 }, ?_⟩
  rw [ThreadDevice.readCoilSignal, mappedName, hname]
  refine (Fallible.bind_ok rfl).trans ?_
  have hread : (ExceptT.lift (d.transport.read name) : Fallible P σ _).run s =
      (.ok (.ok (.ok found)),
        { s with transport := (d.transport.readSignal name s.transport).2 }) := by
    rw [← hfound]
    rfl
  refine (Fallible.bind_ok hread).trans ((Fallible.bind_ok rfl).trans ?_)
  rw [← hvalue]
  rcases found with _ | ⟨value, ts⟩
  · rfl
  · cases value <;> rfl

/-- A register that is mapped is read from its signal. -/
theorem run_readRegisterSignal (hkeeps : Keeps d.transport signal) (asU16 : P.F32 → UInt16)
    {map : UInt16 → Option String} {addr : UInt16} {name : String}
    (hname : map addr = some name) (s : Session P σ) :
    ∃ s', (d.readRegisterSignal asU16 map addr).run s =
      (.ok (.ok (registerOf asU16 (signal s.transport name))), s') := by
  obtain ⟨found, hfound, hvalue⟩ := hkeeps.read_fst name s.transport
  refine ⟨{ s with transport := (d.transport.readSignal name s.transport).2 }, ?_⟩
  rw [ThreadDevice.readRegisterSignal, mappedName, hname]
  refine (Fallible.bind_ok rfl).trans ?_
  have hread : (ExceptT.lift (d.transport.read name) : Fallible P σ _).run s =
      (.ok (.ok (.ok found)),
        { s with transport := (d.transport.readSignal name s.transport).2 }) := by
    rw [← hfound]
    rfl
  refine (Fallible.bind_ok hread).trans ((Fallible.bind_ok rfl).trans ?_)
  rw [← hvalue]
  rcases found with _ | ⟨value, ts⟩
  · rfl
  · cases value <;> rfl

variable {fc : UInt8} {v : Item}

/-- An item that is mapped reads as its signal says. -/
theorem readsAs_iff (hkeeps : Keeps d.transport signal) (asU16 : P.F32 → UInt16) {addr : UInt16}
    {name : String} (hname : itemName d fc addr = some name) {s : Session P σ} :
    ReadsAs d asU16 fc s addr v ↔ itemOf asU16 fc (signal s.transport name) = v := by
  have hrun : ∃ s', (readItem d asU16 fc addr).run s =
      (.ok (.ok (itemOf asU16 fc (signal s.transport name))), s') := by
    rw [itemName] at hname
    rw [readItem, itemOf]
    by_cases hcoils : IsCoils fc
    · rw [if_pos hcoils] at hname
      obtain ⟨s', hread⟩ := run_readCoilSignal hkeeps hname s
      rw [if_pos hcoils, if_pos hcoils, map_eq_pure_bind]
      exact ⟨s', (Fallible.bind_ok hread).trans rfl⟩
    · rw [if_neg hcoils] at hname
      obtain ⟨s', hread⟩ := run_readRegisterSignal hkeeps asU16 hname s
      rw [if_neg hcoils, if_neg hcoils, map_eq_pure_bind]
      exact ⟨s', (Fallible.bind_ok hread).trans rfl⟩
  obtain ⟨s', hrun⟩ := hrun
  constructor
  · rintro ⟨s'', hread⟩
    rw [hrun] at hread
    exact Except.ok.inj (Except.ok.inj (Prod.mk.inj hread).1)
  · rintro rfl
    exact ⟨s', hrun⟩

/-! ### Writing an item -/

/-- The value that is published for an item. -/
def itemValue : Item → HalValue P
  | .inl b => .bool b
  | .inr v => .u16 v

/-- The item is of the kind that the request is about. -/
def FitsRequest (fc : UInt8) : Item → Prop
  | .inl _ => IsCoils fc
  | .inr _ => ¬ IsCoils fc

/-- An item is written by the writer of its kind. -/
def writeItem (d : ThreadDevice P σ) (addr : UInt16) : Item → Fallible P σ Unit
  | .inl b => d.writeCoilSignal addr b
  | .inr v => d.writeRegisterSignal d.holdingRegs addr v

/-- A published item is read as it is. -/
theorem itemOf_itemValue (asU16 : P.F32 → UInt16) (hfits : FitsRequest fc v) :
    itemOf asU16 fc (some (itemValue v)) = v := by
  cases v with
  | inl b => exact if_pos hfits
  | inr w => exact if_neg hfits

variable {data : List UInt8}

/-- The items of a request are of its kind. -/
theorem fits_writtenItem {j : ℕ} (h : writtenItem fc data j = some v) : FitsRequest fc v := by
  unfold writtenItem at h
  split at h
  · split at h
    · obtain rfl := Option.some.inj h
      exact Or.inl rfl
    · split at h
      · obtain rfl := Option.some.inj h
        exact Or.inl rfl
      · cases h
  · obtain rfl := Option.some.inj h
    exact fun hcoils => absurd hcoils (by decide)
  · split at h
    · obtain rfl := Option.some.inj h
      exact Or.inr rfl
    · cases h
  · split at h
    · obtain rfl := Option.some.inj h
      exact fun hcoils => absurd hcoils (by decide)
    · cases h
  · cases h

/-- Writing an item sets its signal, or ends with an exception and changes none. -/
theorem run_writeItem (hkeeps : Keeps d.transport signal) (hfits : FitsRequest fc v)
    (addr : UInt16) (s : Session P σ) :
    (∃ name s', itemName d fc addr = some name ∧
      (writeItem d addr v).run s = (.ok (.ok ()), s') ∧
      signal s'.transport = Function.update (signal s.transport) name (some (itemValue v))) ∨
    ∃ exc s', (writeItem d addr v).run s = (.ok (.error exc), s') ∧
      signal s'.transport = signal s.transport := by
  have hwrite : (writeItem d addr v).run s = (do
      let name ← mappedName (itemName d fc) addr
      orIllegalAddress (← d.transport.publish name (itemValue v) zeroTime) :
        Fallible P σ Unit).run s := by
    cases v with
    | inl b =>
        rw [itemName, if_pos (show IsCoils fc from hfits)]
        rfl
    | inr w =>
        rw [itemName, if_neg (show ¬ IsCoils fc from hfits)]
        rfl
  rw [hwrite]
  cases hname : itemName d fc addr with
  | none =>
      refine Or.inr ⟨illegalDataAddress, s, ?_, rfl⟩
      rw [mappedName, hname]
      rfl
  | some name =>
      rw [mappedName, hname]
      cases hpublish : (d.transport.publishSignal name (itemValue v) zeroTime s.transport).1 with
      | ok _ =>
          have hrun : (ExceptT.lift (d.transport.publish name (itemValue v) zeroTime) :
              Fallible P σ _).run s = (.ok (.ok (.ok ())),
                ⟨(d.transport.publishSignal name (itemValue v) zeroTime s.transport).2,
                  (name, itemValue v, zeroTime) :: s.writes⟩) := by
            rw [← hpublish]
            rfl
          refine Or.inl ⟨name, _, rfl, (Fallible.bind_ok rfl).trans
            ((Fallible.bind_ok hrun).trans rfl), ?_⟩
          exact hkeeps.publish name _ _ _ hpublish
      | error e =>
          have hrun : (ExceptT.lift (d.transport.publish name (itemValue v) zeroTime) :
              Fallible P σ _).run s = (.ok (.ok (.error e)),
                ⟨(d.transport.publishSignal name (itemValue v) zeroTime s.transport).2,
                  (name, itemValue v, zeroTime) :: s.writes⟩) := by
            rw [← hpublish]
            rfl
          refine Or.inr ⟨illegalDataAddress, _, (Fallible.bind_ok rfl).trans
            ((Fallible.bind_ok hrun).trans rfl), ?_⟩
          exact hkeeps.publish_error name _ _ _ e hpublish

/-! ### The answers of the handlers -/

/-- An exception before anything has been written. -/
theorem writesFirst_of_exception (asU16 : P.F32 → UInt16) (mbap : Mbap) (fc : UInt8)
    (data : List UInt8) (s : Session P σ) (exc : UInt8) :
    WritesFirst d asU16 signal fc data s
      (.ok (ThreadDevice.exceptionResponse mbap fc exc), s) :=
  Or.inl ⟨_, rfl, rfl, rfl⟩

/-- A handler that writes the first item and repeats the start and the count. -/
theorem writesFirst_of_write (hkeeps : Keeps d.transport signal) (asU16 : P.F32 → UInt16)
    (mbap : Mbap) (hmapped : ItemsMapped (itemName d fc) (beWord data 0) (writtenCount fc data))
    (hitem : writtenItem fc data 0 = some v) {echoed : List UInt8}
    (hstart : beWord echoed 0 = beWord data 0) (hcount : beWord echoed 2 = beWord data 2)
    (s : Session P σ) :
    WritesFirst d asU16 signal fc data s ((do
      match ← (writeItem d (beWord data 0) v).run with
      | .ok () => return ThreadDevice.echoResponse mbap fc echoed
      | .error exc => return ThreadDevice.exceptionResponse mbap fc exc :
        Handling P σ (List UInt8)) s) := by
  have hfits := fits_writtenItem hitem
  rcases run_writeItem hkeeps hfits (beWord data 0) s with
    ⟨name, s', hname, hrun, hsignal⟩ | ⟨exc, s', hrun, hsignal⟩
  · rw [bind_of_ok hrun]
    change WritesFirst d asU16 signal fc data s (.ok (ThreadDevice.echoResponse mbap fc echoed), s')
    have hstart' : beWord (ThreadDevice.echoResponse mbap fc echoed) 8 = beWord data 0 := hstart
    have hcount' : echoedCount fc (ThreadDevice.echoResponse mbap fc echoed) =
        writtenCount fc data := by
      change writtenCount fc echoed = _
      rw [writtenCount, writtenCount, hcount]
    refine Or.inr ⟨_, rfl, rfl, hstart', hcount', ⟨v, hitem, ?_⟩, ?_⟩
    · change ReadsAs d asU16 fc s' _ v
      rw [hstart', readsAs_iff hkeeps asU16 hname, hsignal, Function.update_self]
      exact itemOf_itemValue asU16 hfits
    · intro j hj hne w
      rw [hcount'] at hj
      obtain ⟨other, hother⟩ := hmapped.mapped j hj
      have hfirst : addressOf (beWord data 0) 0 = beWord data 0 := UInt16.ofNat_toNat
      have hdiffer : other ≠ name := by
        rintro rfl
        refine hne (hmapped.distinct j hj 0 (by omega) ?_)
        rw [hother, hfirst, hname]
      change ReadsAs d asU16 fc s' _ w ↔ _
      rw [hstart', readsAs_iff hkeeps asU16 hother, readsAs_iff hkeeps asU16 hother, hsignal,
        Function.update_of_ne hdiffer]
  · rw [bind_of_ok hrun]
    exact Or.inl ⟨_, rfl, rfl, hsignal⟩

/-- The start and the count are among the first four bytes. -/
theorem beWord_take {i : ℕ} (hi : i + 1 < 4) : beWord (data.take 4) i = beWord data i := by
  have hget : ∀ k < 4, (data.take 4).getD k 0 = data.getD k 0 := by
    intro k hk
    rw [List.getD_eq_getElem?_getD, List.getD_eq_getElem?_getD, List.getElem?_take_of_lt hk]
  rw [beWord, beWord, hget i (by omega), hget (i + 1) hi]

/-- The first coil is the low bit of the first byte of values. -/
theorem writtenItem_coils (hlen : 6 ≤ data.length) :
    writtenItem 0x0F data 0 = some (.inl (data.getD 5 0 &&& 0x01 ≠ 0)) := by
  have hlen' : 0 / 8 < (data.drop 5).length := by
    rw [List.length_drop]
    omega
  have hbyte : (data.drop 5).getD (0 / 8) 0 = data.getD 5 0 := by
    rw [List.getD_eq_getElem?_getD, List.getElem?_drop, List.getD_eq_getElem?_getD]
  have hbit : bitAt (data.drop 5) 0 = decide (data.getD 5 0 &&& 0x01 ≠ 0) := by
    rw [bitAt, hbyte, Nat.zero_mod, Nat.testBit_zero, decide_eq_decide, Ne, ← UInt8.toNat_inj,
      UInt8.toNat_and]
    change _ ↔ ¬ (data.getD 5 0).toNat &&& 1 = 0
    rw [Nat.and_one_is_mod]
    omega
  refine (if_pos hlen').trans ?_
  rw [hbit]

/-- The first register is the first two bytes of values. -/
theorem writtenItem_registers (hlen : 7 ≤ data.length) :
    writtenItem 0x10 data 0 = some (.inr (beWord data 5)) := by
  have hlen' : 2 * 0 + 1 < (data.drop 5).length := by
    rw [List.length_drop]
    omega
  have hget : ∀ k, (data.drop 5).getD k 0 = data.getD (5 + k) 0 := by
    intro k
    rw [List.getD_eq_getElem?_getD, List.getElem?_drop, List.getD_eq_getElem?_getD]
  refine (if_pos hlen').trans ?_
  rw [beWord, hget, hget]
  rfl

end

section

variable {d : ThreadDevice P σ} {signal : σ → String → Option (HalValue P)}
  (hkeeps : Keeps d.transport signal) (asU16 : P.F32 → UInt16) (mbap : Mbap)
  {data : List UInt8} (s : Session P σ)

include hkeeps

theorem writesFirst_singleCoil
    (hmapped : ItemsMapped (itemName d 0x05) (beWord data 0) (writtenCount 0x05 data)) :
    WritesFirst d asU16 signal 0x05 data s (d.handleWriteSingleCoil mbap data s) := by
  rw [ThreadDevice.handleWriteSingleCoil]
  split
  · exact writesFirst_of_exception asU16 mbap 0x05 data s illegalDataValue
  · dsimp only
    split
    · rename_i hvalue
      have hitem : writtenItem 0x05 data 0 = some (.inl (beWord data 2 = 0xFF00)) := by
        by_cases hon : beWord data 2 = 0xFF00
        · rw [decide_eq_true hon]
          exact if_pos hon
        · rw [decide_eq_false hon]
          exact (if_neg hon).trans (if_pos (hvalue.resolve_left hon))
      exact writesFirst_of_write hkeeps asU16 mbap hmapped hitem rfl rfl s
    · exact writesFirst_of_exception asU16 mbap 0x05 data s illegalDataValue

theorem writesFirst_singleRegister
    (hmapped : ItemsMapped (itemName d 0x06) (beWord data 0) (writtenCount 0x06 data)) :
    WritesFirst d asU16 signal 0x06 data s (d.handleWriteSingleRegister mbap data s) := by
  rw [ThreadDevice.handleWriteSingleRegister]
  split
  · exact writesFirst_of_exception asU16 mbap 0x06 data s illegalDataValue
  · have hitem : writtenItem 0x06 data 0 = some (.inr (beWord data 2)) := rfl
    exact writesFirst_of_write hkeeps asU16 mbap hmapped hitem rfl rfl s

theorem writesFirst_multipleCoils
    (hmapped : ItemsMapped (itemName d 0x0F) (beWord data 0) (writtenCount 0x0F data)) :
    WritesFirst d asU16 signal 0x0F data s (d.handleWriteMultipleCoils mbap data s) := by
  rw [ThreadDevice.handleWriteMultipleCoils]
  split
  · exact writesFirst_of_exception asU16 mbap 0x0F data s illegalDataValue
  · exact writesFirst_of_write hkeeps asU16 mbap hmapped (writtenItem_coils (by omega))
      (beWord_take (by omega)) (beWord_take (by omega)) s

theorem writesFirst_multipleRegisters
    (hmapped : ItemsMapped (itemName d 0x10) (beWord data 0) (writtenCount 0x10 data)) :
    WritesFirst d asU16 signal 0x10 data s (d.handleWriteMultipleRegisters mbap data s) := by
  rw [ThreadDevice.handleWriteMultipleRegisters]
  split
  · exact writesFirst_of_exception asU16 mbap 0x10 data s illegalDataValue
  · exact writesFirst_of_write hkeeps asU16 mbap hmapped (writtenItem_registers (by omega))
      (beWord_take (by omega)) (beWord_take (by omega)) s

/-- The other device, whose check of the length differs. -/
theorem writesFirst_multipleRegisters_bound
    (hmapped : ItemsMapped (itemName d 0x10) (beWord data 0) (writtenCount 0x10 data)) :
    WritesFirst d asU16 signal 0x10 data s (d.bound.handleWriteMultipleRegisters mbap data s) := by
  rw [VirtualModbusTcpDevice.handleWriteMultipleRegisters]
  simp only [exceptionResponse_eq, echoResponse_eq]
  split
  · exact writesFirst_of_exception asU16 mbap 0x10 data s illegalDataValue
  · exact writesFirst_of_write hkeeps asU16 mbap hmapped (writtenItem_registers (by omega))
      (beWord_take (by omega)) (beWord_take (by omega)) s

/-! ### The requests -/

/-- The listener's device writes the first item. -/
theorem writesFirst_thread {fc : UInt8} (hfc : fc ∈ [(0x05 : UInt8), 0x06, 0x0F, 0x10])
    (hmapped : ItemsMapped (itemName d fc) (beWord data 0) (writtenCount fc data)) :
    WritesFirst d asU16 signal fc data s (d.handleRequest asU16 mbap (fc :: data) s) := by
  simp only [List.mem_cons, List.not_mem_nil, or_false] at hfc
  rcases hfc with rfl | rfl | rfl | rfl
  · exact writesFirst_singleCoil hkeeps asU16 mbap s hmapped
  · exact writesFirst_singleRegister hkeeps asU16 mbap s hmapped
  · exact writesFirst_multipleCoils hkeeps asU16 mbap s hmapped
  · exact writesFirst_multipleRegisters hkeeps asU16 mbap s hmapped

/-- The device writes the first item. -/
theorem writesFirst_device {fc : UInt8} (hfc : fc ∈ [(0x05 : UInt8), 0x06, 0x0F, 0x10])
    (hmapped : ItemsMapped (itemName d fc) (beWord data 0) (writtenCount fc data)) :
    WritesFirst d asU16 signal fc data s (d.bound.handleRequest asU16 mbap (fc :: data) s) := by
  by_cases hregisters : fc = 0x10
  · subst hregisters
    exact writesFirst_multipleRegisters_bound hkeeps asU16 mbap s hmapped
  · have hother : ¬ ((fc :: data).head? = some 0x10 ∧ (fc :: data).length = 8) :=
      fun hone => hregisters (Option.some.inj hone.1)
    rw [handleRequest_bound d asU16 mbap _ hother]
    exact writesFirst_thread hkeeps asU16 mbap s hfc hmapped

end

/-- On a transport that keeps what is published, with the items of the request mapped to
signals of their own, both devices write the first item of the request and no other, and a
request that they reject changes no signal. -/
theorem handleRequest_writesFirst {device : VirtualModbusTcpDevice P σ}
    {thread : ThreadDevice P σ} (hstart : device.start = .ok thread)
    {signal : σ → String → Option (HalValue P)} (hkeeps : Keeps thread.transport signal)
    {fc : UInt8} (hfc : fc ∈ [(0x05 : UInt8), 0x06, 0x0F, 0x10]) {data : List UInt8}
    (hmapped : ItemsMapped (itemName thread fc) (beWord data 0) (writtenCount fc data))
    (asU16 : P.F32 → UInt16) (mbap : Mbap) (s : Session P σ) :
    WritesFirst thread asU16 signal fc data s (device.handleRequest asU16 mbap (fc :: data) s) ∧
      WritesFirst thread asU16 signal fc data s
        (thread.handleRequest asU16 mbap (fc :: data) s) := by
  obtain rfl := VirtualModbusTcpDevice.eq_bound hstart
  exact ⟨writesFirst_device hkeeps asU16 mbap s hfc hmapped,
    writesFirst_thread hkeeps asU16 mbap s hfc hmapped⟩

/-! ### Two registers -/

/-- A transport whose state is the signals. -/
def signalTransport : Transport .exact (String → Option (HalValue .exact)) :=
  ⟨fun name st => (.ok ((st name).map (·, zeroTime)), st),
    fun name value _ st => (.ok (), Function.update st name (some value))⟩

theorem keeps_signalTransport : Keeps signalTransport id where
  read_fst name st := by
    refine ⟨_, rfl, ?_⟩
    rw [Option.map_map]
    exact Option.map_id'
  read_snd _ _ := rfl
  publish _ _ _ _ _ := rfl
  publish_error _ _ _ _ _ h := by cases h

/-- A device with two holding registers. -/
def twoRegisters : VirtualModbusTcpDevice .exact (String → Option (HalValue .exact)) :=
  ((VirtualModbusTcpDevice.new.bind signalTransport).mapHoldingRegister
    0 "speed").mapHoldingRegister 1 "torque"

/-- The listener's device of the device with two holding registers. -/
def twoRegistersThread : ThreadDevice .exact (String → Option (HalValue .exact)) :=
  ⟨signalTransport, twoRegisters.coils, twoRegisters.holdingRegs, twoRegisters.inputRegs,
    twoRegisters.discreteInputs⟩

/-- The request to write 0x1234 and 0x5678 to the two registers, behind the function code. -/
def twoRegistersData : List UInt8 := [0, 0, 0, 2, 4, 0x12, 0x34, 0x56, 0x78]

/-- The two registers are mapped to two signals. -/
theorem itemName_twoRegisters :
    itemName twoRegistersThread 0x10 (addressOf 0 0) = some "speed" ∧
      itemName twoRegistersThread 0x10 (addressOf 0 1) = some "torque" :=
  ⟨rfl, rfl⟩

theorem mapped_twoRegisters :
    ItemsMapped (itemName twoRegistersThread 0x10) (beWord twoRegistersData 0)
      (writtenCount 0x10 twoRegistersData) := by
  have htwo : ∀ j < writtenCount 0x10 twoRegistersData, j = 0 ∨ j = 1 := by
    intro j hj
    change j < 2 at hj
    omega
  refine ⟨by decide, fun j hj => ?_, fun i hi j hj hsame => ?_⟩
  · rcases htwo j hj with rfl | rfl
    · exact ⟨_, itemName_twoRegisters.1⟩
    · exact ⟨_, itemName_twoRegisters.2⟩
  · have hne : itemName twoRegistersThread 0x10 (addressOf 0 0) ≠
        itemName twoRegistersThread 0x10 (addressOf 0 1) := by
      rw [itemName_twoRegisters.1, itemName_twoRegisters.2]
      decide
    rcases htwo i hi with rfl | rfl <;> rcases htwo j hj with rfl | rfl
    · rfl
    · exact absurd hsame hne
    · exact absurd hsame.symm hne
    · rfl

theorem handleRequest_writesFirst_two :
    WritesFirst twoRegistersThread (fun _ => 0) id 0x10 twoRegistersData ⟨fun _ => none, []⟩
        (twoRegisters.handleRequest (fun _ => 0) oneRegisterMbap (0x10 :: twoRegistersData)
          ⟨fun _ => none, []⟩) ∧
      WritesFirst twoRegistersThread (fun _ => 0) id 0x10 twoRegistersData ⟨fun _ => none, []⟩
        (twoRegistersThread.handleRequest (fun _ => 0) oneRegisterMbap
          (0x10 :: twoRegistersData) ⟨fun _ => none, []⟩) :=
  handleRequest_writesFirst rfl keeps_signalTransport (by decide) mapped_twoRegisters
    (fun _ => 0) oneRegisterMbap ⟨fun _ => none, []⟩

/-- Both devices answer the request positively and do not write the second register. -/
theorem writesAll_twoRegisters :
    twoRegisters.start = .ok twoRegistersThread ∧ Keeps twoRegistersThread.transport id ∧
      ItemsMapped (itemName twoRegistersThread 0x10) (beWord twoRegistersData 0)
        (writtenCount 0x10 twoRegistersData) ∧
      ¬ WritesAll twoRegistersThread (fun _ => 0) id 0x10 twoRegistersData ⟨fun _ => none, []⟩
        (twoRegisters.handleRequest (fun _ => 0) oneRegisterMbap (0x10 :: twoRegistersData)
          ⟨fun _ => none, []⟩) ∧
      ¬ WritesAll twoRegistersThread (fun _ => 0) id 0x10 twoRegistersData ⟨fun _ => none, []⟩
        (twoRegistersThread.handleRequest (fun _ => 0) oneRegisterMbap
          (0x10 :: twoRegistersData) ⟨fun _ => none, []⟩) := by
  refine ⟨rfl, keeps_signalTransport, mapped_twoRegisters, ?_⟩
  have hnot : ∀ out : Except Panic (List UInt8) ×
      Session .exact (String → Option (HalValue .exact)),
      out.1 = .ok (ThreadDevice.echoResponse oneRegisterMbap 0x10 [0, 0, 0, 2]) →
      out.2.transport "torque" = none →
      ¬ WritesAll twoRegistersThread (fun _ => 0) id 0x10 twoRegistersData
        ⟨fun _ => none, []⟩ out := by
    rintro out hout htorque (⟨frame, hframe, hcode, -⟩ | ⟨frame, hframe, -, hall⟩)
    · rw [hout] at hframe
      obtain rfl := Except.ok.inj hframe
      exact absurd hcode (by decide)
    · rw [hout] at hframe
      obtain rfl := Except.ok.inj hframe
      obtain ⟨v, hitem, hread⟩ := hall 1 (by decide)
      obtain rfl : Sum.inr 0x5678 = v := Option.some.inj hitem
      have hvalue := (readsAs_iff keeps_signalTransport _ itemName_twoRegisters.2).mp hread
      rw [id, htorque] at hvalue
      exact absurd hvalue (by decide)
  exact ⟨hnot _ rfl rfl, hnot _ rfl rfl⟩

end Weftik.Modbus
