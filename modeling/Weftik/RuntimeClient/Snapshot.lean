import Weftik.Ipc.Framing
import Weftik.Lossy
import Weftik.RuntimeClient.Codec

/-!
# Snapshots as the Client Reads Them

A snapshot is the number of the signals in two bytes, and for each signal the length of its name
in two bytes, the name and the value. The client reads the names with a lossy conversion. A
number or a length that does not fit its two bytes loses its higher ones, so that the client
reads other names or values, or fails.

## Main definitions

* `readResponse`, `decodeSnapshotResponse`: how the client reads a snapshot.
* `signalBytes`: the bytes of a name and a value.
* `SnapshotFits`: the numbers and lengths fit their fields.

## Main results

* `signalBytes_read`: what is read where the length of the name fits.
* `signalBytes_fits`: where a name and a value are read back, the length of the name fits.
* `decodeSnapshotResponse_eq`, `decodeSnapshotResponse_fits`: the snapshot.
-/

namespace Weftik

open HalValue Delivery Outcome Ipc

namespace RuntimeClient

variable {P : Platform}

/-! ### Responses -/

/-- Why no response is read. -/
inductive ResponseError
  | read (part : String) (e : ReadError)
  | tooShort (frameLen : ℕ)
  | server (methodId : UInt8) (msg : String)
  deriving DecidableEq

/-- Read a response: its length, its method, its status and its payload. -/
def readResponse (lossy : List UInt8 → String) (es : ByteEvents) :
    Except ResponseError (UInt8 × UInt8 × List UInt8) × ByteEvents :=
  match readExact 4 es with
  | (.error e, es) => (.error (.read "length" e), es)
  | (.ok lenBytes, es) =>
      if ofLeBytes lenBytes < responseHeaderSize then
        (.error (.tooShort (ofLeBytes lenBytes)), es)
      else
        match readExact 1 es with
        | (.error e, es) => (.error (.read "method_id" e), es)
        | (.ok methodId, es) =>
            match readExact 1 es with
            | (.error e, es) => (.error (.read "status" e), es)
            | (.ok status, es) =>
                match readExact (ofLeBytes lenBytes - responseHeaderSize) es with
                | (.error e, es) => (.error (.read "payload" e), es)
                | (.ok payload, es) =>
                    if status.headD 0 ≠ statusOk then
                      (.error (.server (methodId.headD 0) (lossy payload)), es)
                    else (.ok (methodId.headD 0, status.headD 0, payload), es)

/-- A response that arrives without a time-out, cut to the length in its length field. -/
theorem readResponse_of_values (lossy : List UInt8 → String) {es : ByteEvents} {n : ℕ}
    {methodId : UInt8} {payload : List UInt8} (hn : n < 2 ^ 32)
    (hvalues : values es = leBytes 4 n ++ [methodId, statusOk] ++ payload)
    (hquiet : timeouts es = []) :
    (n < responseHeaderSize → ∃ rest, readResponse lossy es = (.error (.tooShort n), rest)) ∧
      (responseHeaderSize ≤ n → n ≤ responseHeaderSize + payload.length → ∃ rest,
        readResponse lossy es =
          (.ok (methodId, statusOk, payload.take (n - responseHeaderSize)), rest)) := by
  rw [List.append_assoc] at hvalues
  obtain ⟨es₁, hread₁, hvalues₁, hquiet₁⟩ :=
    readExact_of_values hvalues (length_leBytes 4 n) hquiet
  have hfield : ofLeBytes (leBytes 4 n) = n := ofLeBytes_leBytes_of_lt hn
  refine ⟨fun hshort => ⟨es₁, ?_⟩, fun hlong hle => ?_⟩
  · simp only [readResponse, hread₁, hfield, if_pos hshort]
  · obtain ⟨es₂, hread₂, hvalues₂, hquiet₂⟩ :=
      readExact_of_values (n := 1) (show values es₁ = [methodId] ++ _ from hvalues₁) rfl hquiet₁
    obtain ⟨es₃, hread₃, hvalues₃, hquiet₃⟩ :=
      readExact_of_values (n := 1) (show values es₂ = [statusOk] ++ _ from hvalues₂) rfl hquiet₂
    obtain ⟨es₄, hread₄, -, -⟩ := readExact_of_values (n := n - responseHeaderSize)
      (hvalues₃.trans (List.take_append_drop (n - responseHeaderSize) payload).symm)
      (List.length_take_of_le (by omega)) hquiet₃
    refine ⟨es₄, ?_⟩
    simp only [readResponse, hread₁, hfield, if_neg (Nat.not_lt.mpr hlong), hread₂, hread₃,
      hread₄]
    rfl

/-! ### Names and values -/

/-- The bytes of a name and a value. -/
def signalBytes (name : String) (v : HalValue P) : List UInt8 :=
  leBytes 2 (textBytes name).length ++ (textBytes name ++ Ipc.encodeHalValue v)

/-- The length of the name fits two bytes. -/
def NameFits (name : String) : Prop := (textBytes name).length < 2 ^ 16

instance (name : String) : Decidable (NameFits name) := inferInstanceAs (Decidable (_ < _))

/-- The length of a name, as it is read. -/
def nameLength (data : List UInt8) : ℕ := ofLeBytes (data.take 2)

theorem nameLength_leBytes (n : ℕ) (rest : List UInt8) :
    nameLength (leBytes 2 n ++ rest) = n % 2 ^ 16 := by
  rw [nameLength, List.take_left' (length_leBytes 2 n), ofLeBytes_leBytes]
  rfl

theorem length_signalBytes (name : String) (v : HalValue P) :
    (signalBytes name v).length =
      2 + (textBytes name).length + (Ipc.encodeHalValue v).length := by
  simp only [signalBytes, List.length_append, length_leBytes]
  omega

/-- Where the length of the name fits, the name and the value are what is read. -/
theorem signalBytes_read {name : String} (hname : NameFits name) (v : HalValue P)
    (rest : List UInt8) :
    nameLength (signalBytes name v ++ rest) = (textBytes name).length ∧
      (signalBytes name v ++ rest).drop 2 = textBytes name ++ (Ipc.encodeHalValue v ++ rest) := by
  rw [signalBytes, List.append_assoc, List.append_assoc]
  refine ⟨?_, List.drop_left' (length_leBytes 2 _)⟩
  rw [nameLength_leBytes, Nat.mod_eq_of_lt hname]

/-- A name and a value that are read back from the first bytes of them: the length of the name
fits, and hardly a byte is missing. -/
theorem signalBytes_fits {lossy utf8Error : List UInt8 → String} (hlossy : LossyUtf8 lossy)
    {name : String} {v : HalValue P} {n : ℕ} {data rest : List UInt8}
    (hbegins : data <+: signalBytes name v ++ rest) (htwo : 2 ≤ data.length)
    (hle : nameLength data ≤ (data.drop 2).length)
    (hname : lossy ((data.drop 2).take (nameLength data)) = name)
    (hvalue : Ipc.decodeHalValue utf8Error ((data.drop 2).drop (nameLength data)) = .ok (v, n)) :
    NameFits name ∧ nameLength data = (textBytes name).length ∧
      n = (Ipc.encodeHalValue v).length ∧ (signalBytes name v).length ≤ data.length + 1 := by
  have htwoBytes : (leBytes 2 (textBytes name).length).length = 2 := length_leBytes 2 _
  rw [signalBytes, List.append_assoc, List.append_assoc] at hbegins
  obtain ⟨more, hmore⟩ : ∃ more, data = leBytes 2 (textBytes name).length ++ more := by
    refine List.prefix_iff_exists_append_eq.mp ?_ |>.imp fun _ h => h.symm
    exact List.prefix_of_prefix_length_le (List.prefix_append _ _) hbegins (by omega)
  have hlength : nameLength data = (textBytes name).length % 2 ^ 16 := by
    rw [hmore, nameLength_leBytes]
  have hdrop : data.drop 2 = more := by
    rw [hmore, List.drop_left' htwoBytes]
  have hmoreBegins : more <+: textBytes name ++ (Ipc.encodeHalValue v ++ rest) := by
    rw [hmore] at hbegins
    exact (List.prefix_append_right_inj _).mp hbegins
  rw [hdrop] at hle hname hvalue
  have hshort : nameLength data ≤ (textBytes name).length := hlength ▸ Nat.mod_le _ _
  have htake : more.take (nameLength data) = (textBytes name).take (nameLength data) := by
    obtain ⟨tail, htail⟩ := hmoreBegins
    have hwhole : (more ++ tail).take (nameLength data) = more.take (nameLength data) :=
      List.take_append_of_le_length hle
    rw [← hwhole, htail, List.take_append_of_le_length hshort]
  rw [htake] at hname
  have hwhole := hlossy.length_le_of_take hshort hname
  have hfits : (textBytes name).length < 2 ^ 16 := by omega
  have heq : nameLength data = (textBytes name).length :=
    hlength.trans (Nat.mod_eq_of_lt hfits)
  obtain ⟨hn, hread, -⟩ := decodeHalValue_eq_ok hvalue
  refine ⟨hfits, heq, hn, ?_⟩
  rw [length_signalBytes, ← hn, hmore, List.length_append, htwoBytes]
  rw [List.length_drop] at hread
  omega

/-! ### Snapshots -/

/-- The signals of a snapshot after the first two bytes. -/
def decodeSignals (lossy utf8Error : List UInt8 → String) :
    ℕ → List UInt8 → Except String (List (String × HalValue P))
  | 0, _ => pure []
  | count + 1, data =>
      if data.length < 2 then .error "snapshot: truncated name_len"
      else if (data.drop 2).length < nameLength data then .error "snapshot: truncated name"
      else do
        let (value, consumed) ← decodeHalValue utf8Error ((data.drop 2).drop (nameLength data))
        let signals ← decodeSignals lossy utf8Error count
          (((data.drop 2).drop (nameLength data)).drop consumed)
        pure ((lossy ((data.drop 2).take (nameLength data)), value) :: signals)

/-- The signals of a snapshot. -/
def decodeSnapshotResponse (lossy utf8Error : List UInt8 → String) (data : List UInt8) :
    Except String (List (String × HalValue P)) :=
  if data.length < 2 then .error "snapshot response too short"
  else decodeSignals lossy utf8Error (ofLeBytes (data.take 2)) (data.drop 2)

/-- The number of the signals, the lengths of their names and the length of the response fit
their fields. -/
structure SnapshotFits (signals : List (String × HalValue P)) : Prop where
  count : signals.length < 2 ^ 16
  names : ∀ s ∈ signals, NameFits s.1
  response : responseHeaderSize + (snapshotBytes signals).length < 2 ^ 32

theorem snapshotBytes_eq (signals : List (String × HalValue P)) :
    snapshotBytes signals =
      leBytes 2 signals.length ++ signals.flatMap fun s => signalBytes s.1 s.2 := by
  simp only [snapshotBytes, signalBytes, List.append_assoc]

variable {lossy utf8Error : List UInt8 → String} {signals : List (String × HalValue P)}

theorem length_decodeSignals {count : ℕ} {data : List UInt8}
    (h : decodeSignals lossy utf8Error count data = .ok signals) : signals.length = count := by
  induction count generalizing data signals with
  | zero =>
      obtain rfl := Except.ok.inj h
      rfl
  | succ count ih =>
      rw [decodeSignals] at h
      split at h
      · cases h
      · split at h
        · cases h
        · obtain ⟨⟨value, consumed⟩, -, hdo⟩ := bind_eq_ok h
          obtain ⟨rest, hrest, hpure⟩ := bind_eq_ok hdo
          obtain rfl := Except.ok.inj hpure
          rw [List.length_cons, ih hrest]

/-- Where the names and values fit, they are what is read. The induction is on the signals. -/
theorem decodeSignals_eq (hbits : P.BitsExact) (hlossy : LossyUtf8 lossy)
    (hnames : ∀ s ∈ signals, NameFits s.1) (hvalues : ∀ s ∈ signals, s.2.dataLength < 2 ^ 32) :
    decodeSignals lossy utf8Error signals.length
      (signals.flatMap fun s => signalBytes s.1 s.2) = .ok signals := by
  induction signals with
  | nil => rfl
  | cons s signals ih =>
      obtain ⟨name, v⟩ := s
      have hname : NameFits name := hnames _ List.mem_cons_self
      have hvalue : v.dataLength < 2 ^ 32 := hvalues _ List.mem_cons_self
      obtain ⟨hlength, hdrop⟩ := signalBytes_read hname v
        (signals.flatMap fun s => signalBytes s.1 s.2)
      have htwo : ¬(signalBytes name v ++
          signals.flatMap fun s => signalBytes s.1 s.2).length < 2 := by
        rw [List.length_append, length_signalBytes]
        omega
      have hle : ¬(textBytes name ++ (Ipc.encodeHalValue v ++
          signals.flatMap fun s => signalBytes s.1 s.2)).length < (textBytes name).length := by
        rw [List.length_append]
        omega
      rw [List.flatMap_cons, List.length_cons, decodeSignals, if_neg htwo, hlength, hdrop,
        if_neg hle, List.drop_left, List.take_left, decodeHalValue_eq,
        decodeHalValue_encodeHalValue utf8Error hbits hvalue, ok_bind]
      simp only [List.drop_left]
      rw [ih (fun t ht => hnames t (List.mem_cons_of_mem _ ht)) fun t ht =>
        hvalues t (List.mem_cons_of_mem _ ht), ok_bind, hlossy.valid]
      rfl

/-- Where signals are read back from the first bytes of them, their names fit, and hardly a byte
is missing. The induction is on the signals. -/
theorem decodeSignals_fits (hlossy : LossyUtf8 lossy) {data : List UInt8}
    (hbegins : data <+: signals.flatMap fun s => signalBytes s.1 s.2)
    (h : decodeSignals lossy utf8Error signals.length data = .ok signals) :
    (∀ s ∈ signals, NameFits s.1) ∧
      (signals.flatMap fun s => signalBytes s.1 s.2).length ≤ data.length + 1 := by
  induction signals generalizing data with
  | nil => exact ⟨nofun, Nat.zero_le _⟩
  | cons s signals ih =>
      obtain ⟨name, v⟩ := s
      rw [List.length_cons, decodeSignals] at h
      split at h
      · cases h
      · rename_i htwo
        split at h
        · cases h
        · rename_i hle
          obtain ⟨⟨value, consumed⟩, hvalue, hdo⟩ := bind_eq_ok h
          obtain ⟨rest, hrest, hpure⟩ := bind_eq_ok hdo
          obtain ⟨hsignal, rfl⟩ := List.cons.inj (Except.ok.inj hpure)
          obtain ⟨hname, rfl⟩ := Prod.mk.inj hsignal
          rw [decodeHalValue_eq] at hvalue
          rw [List.flatMap_cons] at hbegins
          simp only at hbegins
          obtain ⟨hfits, hlength, hconsumed, hmissing⟩ := signalBytes_fits hlossy hbegins
            (Nat.not_lt.mp htwo) (Nat.not_lt.mp hle) hname hvalue
          have hdropped : ((data.drop 2).drop (nameLength data)).drop consumed =
              data.drop (signalBytes name value).length := by
            rw [List.drop_drop, List.drop_drop, length_signalBytes, hlength, hconsumed,
              Nat.add_assoc]
          simp only [hdropped] at hrest
          have hrestBegins : data.drop (signalBytes name value).length <+:
              rest.flatMap fun s => signalBytes s.1 s.2 := by
            have hdrop := hbegins.drop (signalBytes name value).length
            rwa [List.drop_left] at hdrop
          obtain ⟨hnames, hmissing'⟩ := ih hrestBegins hrest
          refine ⟨fun t ht => ?_, ?_⟩
          · rcases List.mem_cons.mp ht with rfl | ht
            · exact hfits
            · exact hnames t ht
          · rw [List.flatMap_cons, List.length_append]
            rw [List.length_drop] at hmissing'
            cases rest with
            | nil => exact hmissing
            | cons t rest =>
                rw [List.length_cons, decodeSignals] at hrest
                split at hrest
                · cases hrest
                · rename_i hlong
                  rw [List.length_drop] at hlong
                  simp only
                  omega

end RuntimeClient

end Weftik
