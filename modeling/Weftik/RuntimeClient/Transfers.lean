import Weftik.RuntimeClient.Snapshot
import Weftik.Ipc.Framing

/-!
# Requests and Transfers of the Client

The client writes a request as one frame: its length, the token, the method and the payload. A
token that is too short is filled up with zeros, and one that is too long is cut.

Signals go over the wire in two places: a snapshot is read by the client, and a write is read by
the server. Every length has a field of two or four bytes, and one that does not fit is cut
without an error. What is then read is a wrong name or value, unless nothing can be made of it.

## Main definitions

* `buildRequest`: the bytes of a request.
* `Request.frame`: the frame that the server is meant to read.
* `signalSnapshot`, `writeSignalPayload`: the snapshot and the write of the client.
* `SnapshotExact`, `WriteExact`: a transfer is exact, or an error.
* `WriteFits`: the lengths of a write fit their fields, or nothing can be made of it.

## Main results

* `buildRequest_eq`: the bytes are those of the frame.
* `requests_received_iff`: when the server reads exactly the frames that are written.
* `snapshotExact_iff`, `writeExact_iff`: when a transfer is exact.
* `transfers_exact_iff`: both.
-/

namespace Weftik

open HalValue Delivery Outcome Ipc

namespace RuntimeClient

variable {P : Platform}

/-- The token as it is written, always of the same size. -/
def wireToken (token : List UInt8) : List UInt8 :=
  if tokenWireSize ≤ token.length then token.take tokenWireSize
  else token ++ List.replicate (tokenWireSize - token.length) 0

/-- The bytes of a request. The sum of the header and the payload is a `u32`. -/
def buildRequest (P : Platform) (token : List UInt8) (methodId : UInt8) (payload : List UInt8) :
    Except Panic (List UInt8) := do
  let totalLen ← unsigned P 32 (headerSize + payload.length % 2 ^ 32)
  pure (leBytes 4 totalLen ++ wireToken token ++ [methodId] ++ payload)

/-- What the client writes: a token, a method and a payload. -/
structure Request where
  token : List UInt8
  methodId : UInt8
  payload : List UInt8
  deriving DecidableEq

/-- The length of the frame fits its length field. -/
def Request.WellFormed (r : Request) : Prop := headerSize + r.payload.length < 2 ^ 32

instance (r : Request) : Decidable r.WellFormed := inferInstanceAs (Decidable (_ < _))

/-- The frame of a request. -/
def Request.frame (r : Request) : Frame := ⟨wireToken r.token, r.methodId, r.payload⟩

/-- The bytes of some requests, one after the other. -/
def buildRequests (P : Platform) (requests : List Request) : Except Panic (List (List UInt8)) :=
  requests.mapM fun r => buildRequest P r.token r.methodId r.payload

theorem length_wireToken (token : List UInt8) : (wireToken token).length = tokenWireSize := by
  rw [wireToken]
  split
  · rename_i hle
    exact List.length_take_of_le hle
  · rename_i hlt
    rw [List.length_append, List.length_replicate]
    omega

theorem Request.WellFormed.frame {r : Request} (h : r.WellFormed) : r.frame.WellFormed :=
  ⟨length_wireToken r.token, h⟩

/-- The bytes of a well-formed request are those of its frame. -/
theorem buildRequest_eq {r : Request} (h : r.WellFormed) :
    buildRequest P r.token r.methodId r.payload = .ok r.frame.bytes := by
  have hlt : r.payload.length < 2 ^ 32 := (Nat.le_add_left _ _).trans_lt h
  have hfits : headerSize + r.payload.length < 2 ^ 32 := h
  rw [buildRequest, Nat.mod_eq_of_lt hlt, unsigned, if_pos hfits, ok_bind]
  simp only [Request.frame, Frame.bytes, List.append_assoc]
  rfl

theorem buildRequests_eq {requests : List Request} (h : ∀ r ∈ requests, r.WellFormed) :
    buildRequests P requests = .ok (requests.map fun r => r.frame.bytes) := by
  induction requests with
  | nil => rfl
  | cons r requests ih =>
      have hrest : requests.mapM (fun r => buildRequest P r.token r.methodId r.payload) =
          .ok (requests.map fun r => r.frame.bytes) :=
        ih fun s hs => h s (List.mem_cons_of_mem r hs)
      rw [buildRequests, List.mapM_cons, buildRequest_eq (h r List.mem_cons_self), ok_bind, hrest]
      rfl

/-- A time-out is between two of the frames that are written, or before or after them. -/
def BetweenWrites (written : List (List UInt8)) (t : ℕ) : Prop :=
  ∃ k, t = ((written.take k).flatten).length

/-- The requests that a client writes are read by the connection loop of the server, all of
them and nothing else, exactly when every time-out of a read falls between two of them, whatever
pieces their bytes arrive in. -/
theorem requests_received_iff {requests : List Request} (hwell : ∀ r ∈ requests, r.WellFormed)
    {written : List (List UInt8)} (hwritten : buildRequests P requests = .ok written)
    {events : ByteEvents} (harrives : values events = written.flatten) :
    receiveFrames events = requests.map Request.frame ↔
      ∀ t ∈ timeouts events, BetweenWrites written t := by
  rw [buildRequests_eq hwell] at hwritten
  obtain rfl := Except.ok.inj hwritten
  have hframes : ∀ f ∈ requests.map Request.frame, f.WellFormed := by
    intro f hf
    obtain ⟨r, hr, rfl⟩ := List.mem_map.mp hf
    exact (hwell r hr).frame
  have hbytes : values events = (requests.map Request.frame).flatMap Frame.bytes := by
    rw [harrives, List.flatMap_map, List.flatMap_def]
  rw [receiveFrames_eq_iff hframes hbytes]
  refine forall₂_congr fun t _ => exists_congr fun k => ?_
  rw [← List.map_take, ← List.map_take, List.flatMap_map, List.flatMap_def]

/-- A request without a token and without a payload. -/
def emptyRequest : Request := ⟨[], Ipc.Method.healthQuery.id, []⟩

/-- Two of them that arrive with a time-out between them are read. -/
theorem requests_received_between :
    receiveFrames [.data [69, 0], .data ([0, 0] ++ List.replicate 64 0 ++ [5]), .timeout,
        .data ([69, 0, 0, 0] ++ List.replicate 64 0 ++ [5])] =
      [emptyRequest.frame, emptyRequest.frame] := by
  have hwell : ∀ r ∈ [emptyRequest, emptyRequest], r.WellFormed := by decide
  have hwritten : buildRequests Platform.exact [emptyRequest, emptyRequest] =
      .ok [emptyRequest.frame.bytes, emptyRequest.frame.bytes] := rfl
  refine (requests_received_iff hwell hwritten rfl).mpr fun t ht => ⟨1, ?_⟩
  obtain rfl := List.mem_singleton.mp ht
  rfl

/-- A request that arrives with a time-out after its length is lost: what follows is taken for
the length of a frame, which is too short. -/
theorem request_lost :
    buildRequests Platform.exact [emptyRequest] =
        .ok [[69, 0, 0, 0] ++ List.replicate 64 0 ++ [5]] ∧
      receiveFrames [.data [69, 0, 0, 0], .timeout, .data (List.replicate 64 0 ++ [5])] = [] ∧
      [emptyRequest].map Request.frame ≠ [] := by
  refine ⟨rfl, ?_, nofun⟩
  rw [receiveFrames_of_timedOut rfl]
  exact receiveFrames_of_tooShort rfl

/-! ### Transfers of signals -/

variable {E : Type} {lossy utf8Error : List UInt8 → String}

/-! ### Length fields -/

/-- A sum that is written into a length field: it fits, or it is cut, or it panics. -/
theorem unsigned_eq_ok {bits n m : ℕ} (h : unsigned P bits n = .ok m) :
    (n < 2 ^ bits ∧ m = n) ∨ (2 ^ bits ≤ n ∧ m = n % 2 ^ bits) := by
  rw [unsigned] at h
  split at h
  · rename_i hlt
    exact Or.inl ⟨hlt, (Except.ok.inj h).symm⟩
  · rename_i hge
    split at h
    · cases h
    · exact Or.inr ⟨Nat.not_lt.mp hge, (Except.ok.inj h).symm⟩

/-- The part of a payload that its length field counts. -/
def counted (payload : List UInt8) : List UInt8 := payload.take (payload.length % 2 ^ 32)

theorem length_counted (payload : List UInt8) :
    (counted payload).length = payload.length % 2 ^ 32 :=
  List.length_take_of_le (Nat.mod_le _ _)

theorem counted_eq {payload : List UInt8} (h : payload.length < 2 ^ 32) :
    counted payload = payload := by
  rw [counted, Nat.mod_eq_of_lt h, List.take_length]

/-- Where hardly a byte is missing, none is. -/
theorem lt_of_le_counted {payload : List UInt8}
    (h : payload.length ≤ (counted payload).length + 1) : payload.length < 2 ^ 32 := by
  rw [length_counted] at h
  have hmod := Nat.mod_lt payload.length (Nat.two_pow_pos 32)
  have hdiv := Nat.div_add_mod payload.length (2 ^ 32)
  omega

/-! ### Requests -/

variable {methodId : UInt8}

/-- The server reads as much of a request as its length field counts. -/
theorem readFrame_of_buildRequest {token payload : List UInt8}
    (hfits : headerSize + payload.length % 2 ^ 32 < 2 ^ 32) :
    ∃ bytes, buildRequest P token methodId payload = .ok bytes ∧
      ∀ es, values es = bytes → timeouts es = [] →
        ∃ rest, readFrame es = (.ok ⟨wireToken token, methodId, counted payload⟩, rest) := by
  refine ⟨_, by rw [buildRequest, unsigned, if_pos hfits, ok_bind]; rfl,
      fun es hvalues hquiet => ?_⟩
  have hwell : Frame.WellFormed ⟨wireToken token, methodId, counted payload⟩ :=
    ⟨length_wireToken token, by rw [length_counted]; exact hfits⟩
  refine readFrame_of_begins hwell ⟨payload.drop (payload.length % 2 ^ 32), ?_⟩ hquiet
  rw [hvalues, Frame.bytes, length_counted]
  simp only [List.append_assoc, counted, List.take_append_drop]

/-- A length that does not fit its field with the header is taken for less than a header. -/
theorem lt_of_readFrame {token payload bytes : List UInt8}
    (hbuild : buildRequest P token methodId payload = .ok bytes) {es rest : ByteEvents}
    (hvalues : values es = bytes) {f : Frame} (hread : readFrame es = (.ok f, rest)) :
    headerSize + payload.length % 2 ^ 32 < 2 ^ 32 := by
  obtain ⟨totalLen, htotal, hbytes⟩ := bind_eq_ok hbuild
  obtain rfl := Except.ok.inj hbytes
  rcases unsigned_eq_ok htotal with ⟨hlt, -⟩ | ⟨hge, hcut⟩
  · exact hlt
  · have hspec := readFrame_spec es
    rw [hread] at hspec
    cases hspec with
    | ok hf hreads =>
        have hbegins : f.bytes <+: leBytes 4 totalLen ++
            (wireToken token ++ ([methodId] ++ payload)) :=
          ⟨values rest, by rw [← hreads.values_eq, hvalues]; simp only [List.append_assoc]⟩
        have hheader := hf.header_eq (length_leBytes 4 totalLen) hbegins
        have hmod := Nat.mod_lt payload.length (Nat.two_pow_pos 32)
        rw [headerSize] at hge hcut
        have hsmall : totalLen < headerSize := by
          rw [hcut, headerSize]
          omega
        have hfield : totalLen < 256 ^ 4 := hsmall.trans (by decide)
        rw [ofLeBytes_leBytes_of_lt hfield, hf.length_bytes] at hheader
        omega

/-! ### Responses -/

/-- The client reads as much of a response as its length field counts. -/
theorem readResponse_of_buildResponse (lossy : List UInt8 → String) {payload : List UInt8}
    (hfits : responseHeaderSize + payload.length % 2 ^ 32 < 2 ^ 32) :
    ∃ bytes, buildResponse P (buildOkResponse methodId payload) = .ok bytes ∧
      ∀ es, values es = bytes → timeouts es = [] → ∃ rest,
        readResponse lossy es = (.ok (methodId, statusOk, counted payload), rest) := by
  have hbuild : buildResponse P (buildOkResponse methodId payload) =
      .ok (leBytes 4 (responseHeaderSize + payload.length % 2 ^ 32) ++ [methodId, statusOk] ++
        payload) := by
    rw [buildResponse, buildOkResponse, unsigned, if_pos hfits, ok_bind]
    rfl
  refine ⟨_, hbuild, fun es hvalues hquiet => ?_⟩
  have hread := (readResponse_of_values lossy hfits hvalues hquiet).2
    (Nat.le_add_right _ _) (Nat.add_le_add_left (Nat.mod_le _ _) _)
  rwa [Nat.add_sub_cancel_left] at hread

/-- A length that does not fit its field with the header is taken for less than a header. -/
theorem lt_of_readResponse {payload bytes : List UInt8}
    (hbuild : buildResponse P (buildOkResponse methodId payload) = .ok bytes) {es : ByteEvents}
    (hvalues : values es = bytes) (hquiet : timeouts es = [])
    {result : UInt8 × UInt8 × List UInt8} (hread : (readResponse lossy es).1 = .ok result) :
    responseHeaderSize + payload.length % 2 ^ 32 < 2 ^ 32 := by
  obtain ⟨totalLen, htotal, hbytes⟩ := bind_eq_ok hbuild
  obtain rfl := Except.ok.inj hbytes
  rcases unsigned_eq_ok htotal with ⟨hlt, -⟩ | ⟨hge, hcut⟩
  · exact hlt
  · have hmod := Nat.mod_lt payload.length (Nat.two_pow_pos 32)
    simp only [buildOkResponse, responseHeaderSize] at hge hcut
    have hsmall : totalLen < responseHeaderSize := by
      rw [hcut, responseHeaderSize]
      omega
    obtain ⟨rest, hshort⟩ := (readResponse_of_values lossy
      (hsmall.trans (by decide)) hvalues hquiet).1 hsmall
    rw [hshort] at hread
    cases hread

/-! ### Exact transfers -/

/-- The server answers with an error. -/
def AnswersError (out : Ipc.Outcome E) : Prop :=
  ∃ r, (out = .refused r ∨ ∃ e subs, out = .served r e subs) ∧ r.status = statusError

/-- Why the client has no snapshot. -/
inductive ClientError
  | response (e : ResponseError)
  | decode (text : String)
  deriving DecidableEq

/-- `signal_snapshot`, from the response on. -/
def signalSnapshot (lossy utf8Error : List UInt8 → String) (es : ByteEvents) :
    Except ClientError (List (String × HalValue P)) :=
  match (readResponse lossy es).1 with
  | .error e => .error (.response e)
  | .ok (_, _, payload) =>
      match decodeSnapshotResponse lossy utf8Error payload with
      | .error text => .error (.decode text)
      | .ok signals => .ok signals

/-- The client reads the signals from the response, in whatever pieces it arrives. -/
def ReadsBack (lossy utf8Error : List UInt8 → String) (signals : List (String × HalValue P))
    (r : Response) : Prop :=
  ∃ bytes, buildResponse P r = .ok bytes ∧ ∀ es, values es = bytes → timeouts es = [] →
    signalSnapshot lossy utf8Error es = .ok signals

/-- Whenever the signals match the pattern of a request, the server answers with an error, or
the client reads them from its response. -/
def SnapshotExact (lossy utf8Error : List UInt8 → String)
    (signals : List (String × HalValue P)) : Prop :=
  ∀ {E : Type} (srv : IpcServer P E) (env : Env) (conn : ℕ) (c : Connection) (e : E)
    (subs : Subscriptions) (payload : List UInt8), srv.lossy = lossy →
    srv.utf8Error = utf8Error → srv.engine.snapshotSignals e (srv.lossy payload) = .ok signals →
    ∃ out, dispatch srv env conn c e subs .signalSnapshot payload = .ok out ∧
      (AnswersError out ∨
        ∃ r, out = .served r e subs ∧ ReadsBack lossy utf8Error signals r)

/-- The payload of `write_signal`. -/
def writeSignalPayload (name : String) (value : HalValue P) : List UInt8 :=
  leBytes 2 (textBytes name).length ++ textBytes name ++ encodeHalValue value

/-- The server reads the request that the client writes for a name and a value, and answers
with an error, or publishes that value under that name. -/
def WriteExact (lossy utf8Error : List UInt8 → String) (name : String)
    (value : HalValue P) : Prop :=
  ∀ {E : Type} (srv : IpcServer P E) (env : Env) (conn : ℕ) (c : Connection) (e : E)
    (subs : Subscriptions) (token : List UInt8), srv.lossy = lossy → srv.utf8Error = utf8Error →
    ∃ bytes, buildRequest P token Method.writeSignal.id (writeSignalPayload name value) =
        .ok bytes ∧
      ∀ es, values es = bytes → timeouts es = [] →
        ∃ f rest out, readFrame es = (.ok f, rest) ∧ f.methodId = Method.writeSignal.id ∧
          dispatch srv env conn c e subs .writeSignal f.payload = .ok out ∧
          (AnswersError out ∨ serveUnit .writeSignal "ok" subs
            (srv.engine.publishSignal e name value env.nowMs) = .ok out)

/-- No value is found after as much of the name as its length field counts. -/
def Undecodable (P : Platform) (utf8Error : List UInt8 → String) (payload : List UInt8) : Prop :=
  payload.length < 2 + nameLength payload ∨
    ∃ text, (Ipc.decodeHalValue utf8Error (payload.drop (2 + nameLength payload)) :
      Except String (HalValue P × ℕ)) = .error text

/-- The lengths of a write fit their fields, or nothing can be made of what they count. -/
def WriteFits (utf8Error : List UInt8 → String) (name : String) (value : HalValue P) : Prop :=
  headerSize + (writeSignalPayload name value).length % 2 ^ 32 < 2 ^ 32 ∧
    ((NameFits name ∧ (writeSignalPayload name value).length < 2 ^ 32) ∨
      Undecodable P utf8Error (counted (writeSignalPayload name value)))

theorem writeSignalPayload_eq (name : String) (value : HalValue P) :
    writeSignalPayload name value = signalBytes name value := by
  rw [writeSignalPayload, encodeHalValue_eq, signalBytes, List.append_assoc]

/-- A server for a list of signals, which answers with them and publishes by adding to them. -/
def signalServer (P : Platform) (lossy utf8Error : List UInt8 → String) :
    IpcServer P (List (String × HalValue P)) where
  engine :=
    { queueConfig := fun e _ _ => (e, .ok ())
      readSignal := fun _ _ => .ok none
      publishSignal := fun e name value _ => (e ++ [(name, value)], .ok ())
      snapshotSignals := fun e _ => .ok e
      healthText := fun _ => "Healthy"
      loadHalProgram := fun e _ => (e, .ok ())
      pause := id
      resume := id
      stepCycle := id
      isPaused := fun _ => false
      executor := fun _ => none
      setExecutor := fun e _ => e
      prepareSwap := fun e _ => (e, .ok ())
      commitSwap := fun e => (e, .error "No pending swap prepared")
      rollbackSwap := fun e => (e, .ok ())
      deployHmiLayout := fun e _ => (e, .ok 1)
      getHmiLayout := fun _ => none }
  mac := id
  whitelist := defaultWhitelist
  lossy := lossy
  utf8Error := utf8Error
  debugText := fun _ => ""

/-- A connection of a supervisor. -/
def supervisorConnection : Connection := ⟨some ⟨1, .supervisor, 0⟩, 2⟩

/-! ### Snapshots -/

theorem dataLength_le (v : HalValue P) : v.dataLength ≤ (Ipc.encodeHalValue v).length := by
  cases v with
  | blob bytes | string text | array elementType bytes =>
      simp only [dataLength, Ipc.encodeHalValue, List.length_cons, List.length_append]
      omega
  | _ => exact Nat.zero_le _

variable {signals : List (String × HalValue P)}

theorem length_signalBytes_le {s : String × HalValue P} (h : s ∈ signals) :
    (signalBytes s.1 s.2).length ≤ (signals.flatMap fun t => signalBytes t.1 t.2).length := by
  obtain ⟨before, after, rfl⟩ := List.append_of_mem h
  rw [List.flatMap_append, List.flatMap_cons, List.length_append, List.length_append]
  omega

theorem decodeSnapshotResponse_fits (hlossy : LossyUtf8 lossy) {data : List UInt8}
    (hbegins : data <+: snapshotBytes signals)
    (h : decodeSnapshotResponse lossy utf8Error data = .ok signals) :
    signals.length < 2 ^ 16 ∧ (∀ s ∈ signals, NameFits s.1) ∧
      (snapshotBytes signals).length ≤ data.length + 1 := by
  rw [decodeSnapshotResponse] at h
  split at h
  · cases h
  · rename_i htwo
    rw [snapshotBytes_eq] at hbegins ⊢
    have hcountBytes : (leBytes 2 signals.length).length = 2 := length_leBytes 2 _
    obtain ⟨more, rfl⟩ : ∃ more, data = leBytes 2 signals.length ++ more := by
      have hheader : leBytes 2 signals.length <+: data :=
        List.prefix_of_prefix_length_le (List.prefix_append _ _) hbegins (by omega)
      obtain ⟨more, hmore⟩ := hheader
      exact ⟨more, hmore.symm⟩
    rw [List.drop_left' hcountBytes, List.take_left' hcountBytes] at h
    have hcount := length_decodeSignals h
    rw [ofLeBytes_leBytes] at hcount
    have hlt : signals.length < 2 ^ 16 :=
      hcount ▸ Nat.mod_lt _ (by decide)
    rw [ofLeBytes_leBytes_of_lt hlt] at h
    obtain ⟨hnames, hmissing⟩ :=
      decodeSignals_fits hlossy ((List.prefix_append_right_inj _).mp hbegins) h
    refine ⟨hlt, hnames, ?_⟩
    rw [List.length_append, List.length_append]
    omega

theorem decodeSnapshotResponse_eq (hbits : P.BitsExact) (hlossy : LossyUtf8 lossy)
    (h : SnapshotFits signals) :
    decodeSnapshotResponse lossy utf8Error (snapshotBytes signals) = .ok signals := by
  have hvalues : ∀ s ∈ signals, s.2.dataLength < 2 ^ 32 := by
    intro s hs
    have hle := length_signalBytes_le hs
    have hresponse := h.response
    have hdata := dataLength_le s.2
    rw [length_signalBytes] at hle
    rw [snapshotBytes_eq, List.length_append] at hresponse
    omega
  have hcountBytes : (leBytes 2 signals.length).length = 2 := length_leBytes 2 _
  rw [snapshotBytes_eq, decodeSnapshotResponse,
    if_neg (by rw [List.length_append, hcountBytes]; omega), List.drop_left' hcountBytes,
    List.take_left' hcountBytes, ofLeBytes_leBytes_of_lt h.count]
  exact decodeSignals_eq hbits hlossy h.names hvalues

/-- A snapshot that is read back from a response fits. -/
theorem ReadsBack.fits (hlossy : LossyUtf8 lossy)
    (h : ReadsBack lossy utf8Error signals (buildOkResponse methodId (snapshotBytes signals))) :
    SnapshotFits signals := by
  obtain ⟨bytes, hbuild, hread⟩ := h
  have hsnapshot := hread [.data bytes] (List.append_nil _) rfl
  rw [signalSnapshot] at hsnapshot
  split at hsnapshot
  · cases hsnapshot
  · rename_i result methodId' status payload hresponse
    have hheader := lt_of_readResponse hbuild (List.append_nil _) rfl hresponse
    obtain ⟨bytes', hbuild', hcounted⟩ := readResponse_of_buildResponse (P := P) lossy hheader
    obtain rfl := Except.ok.inj (hbuild.symm.trans hbuild')
    obtain ⟨rest, hresponse'⟩ := hcounted [.data bytes] (List.append_nil _) rfl
    rw [hresponse'] at hresponse
    obtain ⟨-, hpayload⟩ := Prod.mk.inj (Except.ok.inj hresponse)
    obtain ⟨-, rfl⟩ := Prod.mk.inj hpayload
    split at hsnapshot
    · cases hsnapshot
    · rename_i signals' hdecode
      obtain rfl := Except.ok.inj hsnapshot
      obtain ⟨hcount, hnames, hmissing⟩ :=
        decodeSnapshotResponse_fits hlossy (List.take_prefix _ _) hdecode
      have hlt := lt_of_le_counted hmissing
      rw [Nat.mod_eq_of_lt hlt] at hheader
      exact ⟨hcount, hnames, hheader⟩

/-- A snapshot that fits is read back. -/
theorem SnapshotFits.readsBack (hbits : P.BitsExact) (hlossy : LossyUtf8 lossy)
    (h : SnapshotFits signals) (methodId : UInt8) :
    ReadsBack lossy utf8Error signals (buildOkResponse methodId (snapshotBytes signals)) := by
  have hlt : (snapshotBytes signals).length < 2 ^ 32 :=
    (Nat.le_add_left _ _).trans_lt h.response
  obtain ⟨bytes, hbuild, hread⟩ := readResponse_of_buildResponse (P := P) lossy
    (by rw [Nat.mod_eq_of_lt hlt]; exact h.response)
  refine ⟨bytes, hbuild, fun es hvalues hquiet => ?_⟩
  obtain ⟨rest, hresponse⟩ := hread es hvalues hquiet
  rw [counted_eq hlt] at hresponse
  simp only [signalSnapshot, hresponse, decodeSnapshotResponse_eq hbits hlossy h]

/-- A transfer of signals to the client is exact exactly when their number, the lengths of their
names and the length of the response fit their fields. -/
theorem snapshotExact_iff (hbits : P.BitsExact) (hlossy : LossyUtf8 lossy)
    (signals : List (String × HalValue P)) :
    SnapshotExact lossy utf8Error signals ↔ SnapshotFits signals := by
  refine ⟨fun h => ?_, fun h => ?_⟩
  · obtain ⟨out, hout, hexact⟩ := h (signalServer P lossy utf8Error) (envAt 0) 0
      supervisorConnection signals (fun _ => []) [] rfl rfl rfl
    obtain rfl := Except.ok.inj hout
    rcases hexact with ⟨r, hr, herror⟩ | ⟨r, hr, hreads⟩
    · rcases hr with hr | ⟨e, subs, hr⟩
      · cases hr
      · obtain ⟨rfl, -⟩ := Ipc.Outcome.served.inj hr
        cases herror
    · obtain ⟨rfl, -⟩ := Ipc.Outcome.served.inj hr
      exact hreads.fits hlossy
  · intro E srv env conn c e subs payload htext herror hsignals
    simp only [dispatch, ifAllowed, hsignals]
    split
    · exact ⟨_, rfl, Or.inr ⟨_, rfl, h.readsBack hbits hlossy _⟩⟩
    · exact ⟨_, rfl, Or.inl ⟨_, Or.inl rfl, rfl⟩⟩

/-! ### Writes -/

/-- A write of which nothing can be made is answered with an error. -/
theorem Undecodable.refused {srv : IpcServer P E} {payload : List UInt8}
    (h : Undecodable P srv.utf8Error payload) (env : Env) (e : E) (subs : Subscriptions) :
    ∃ out, writeSignalRequest srv env e subs payload = .ok out ∧ AnswersError out := by
  rw [writeSignalRequest]
  split
  · exact ⟨_, rfl, _, Or.inl rfl, rfl⟩
  · simp only
    split
    · exact ⟨_, rfl, _, Or.inl rfl, rfl⟩
    · rename_i hlong
      rcases h with hshort | ⟨text, htext⟩
      · exact absurd hshort hlong
      · rw [nameLength] at htext
        rw [htext]
        exact ⟨_, rfl, _, Or.inl rfl, rfl⟩

/-- Otherwise what is read is published. -/
theorem writeSignalRequest_eq {srv : IpcServer P E} {payload : List UInt8}
    (h : ¬Undecodable P srv.utf8Error payload) (env : Env) (e : E) (subs : Subscriptions) :
    2 ≤ payload.length ∧ nameLength payload ≤ (payload.drop 2).length ∧
      ∃ (value : HalValue P) (n : ℕ),
        Ipc.decodeHalValue srv.utf8Error ((payload.drop 2).drop (nameLength payload)) =
          .ok (value, n) ∧
        writeSignalRequest srv env e subs payload = serveUnit .writeSignal "ok" subs
          (srv.engine.publishSignal e (srv.lossy ((payload.drop 2).take (nameLength payload)))
            value env.nowMs) := by
  rw [Undecodable, not_or] at h
  obtain ⟨hlong, hvalue⟩ := h
  have htwo : ¬payload.length < 2 := by omega
  have hextract : payload.extract 2 (2 + nameLength payload) =
      (payload.drop 2).take (nameLength payload) := by
    rw [List.extract_eq_take_drop, Nat.add_sub_cancel_left]
  refine ⟨Nat.not_lt.mp htwo, by rw [List.length_drop]; omega, ?_⟩
  cases hdecode : (Ipc.decodeHalValue srv.utf8Error (payload.drop (2 + nameLength payload)) :
      Except String (HalValue P × ℕ)) with
  | error text => exact absurd ⟨text, hdecode⟩ hvalue
  | ok result =>
      obtain ⟨value, n⟩ := result
      refine ⟨value, n, by rw [List.drop_drop, hdecode], ?_⟩
      rw [← hextract]
      rw [nameLength] at hlong hdecode ⊢
      simp only [writeSignalRequest, if_neg htwo, if_neg hlong, hdecode]

/-- A write is exact exactly when its lengths fit their fields, or nothing can be made of what
they count. -/
theorem writeExact_iff (hbits : P.BitsExact) (hlossy : LossyUtf8 lossy) (name : String)
    (value : HalValue P) :
    WriteExact lossy utf8Error name value ↔ WriteFits utf8Error name value := by
  refine ⟨fun h => ?_, fun h => ?_⟩
  · obtain ⟨bytes, hbuild, hexact⟩ := h (signalServer P lossy utf8Error) (envAt 0) 0
      supervisorConnection [] (fun _ => []) [] rfl rfl
    obtain ⟨f, rest, out, hread, -, hout, hanswer⟩ :=
      hexact [.data bytes] (List.append_nil _) rfl
    have hheader := lt_of_readFrame hbuild (List.append_nil _) hread
    obtain ⟨bytes', hbuild', hcounted⟩ := readFrame_of_buildRequest (P := P) hheader
    obtain rfl := Except.ok.inj (hbuild.symm.trans hbuild')
    obtain ⟨rest', hread'⟩ := hcounted [.data bytes] (List.append_nil _) rfl
    obtain ⟨hframe, -⟩ := Prod.mk.inj (hread.symm.trans hread')
    obtain rfl := Except.ok.inj hframe
    refine ⟨hheader, ?_⟩
    by_cases hdecodes : Undecodable P utf8Error (counted (writeSignalPayload name value))
    · exact Or.inr hdecodes
    · obtain ⟨htwo, hle, value', n, hvalue, hwrite⟩ :=
        @writeSignalRequest_eq P _ (signalServer P lossy utf8Error) _ hdecodes (envAt 0) []
          (fun _ => [])
      obtain rfl := Except.ok.inj (hwrite.symm.trans hout)
      have hpublished : [(lossy ((counted (writeSignalPayload name value)).drop 2 |>.take
          (nameLength (counted (writeSignalPayload name value)))), value')] =
          [(name, value)] := by
        rcases hanswer with ⟨r, hr, herror⟩ | hserved
        · rcases hr with hr | ⟨e, subs, hr⟩
          · cases hr
          · obtain ⟨rfl, -⟩ := Ipc.Outcome.served.inj hr
            cases herror
        · exact (Ipc.Outcome.served.inj (Except.ok.inj hserved)).2.1.symm
      obtain ⟨hname, rfl⟩ := Prod.mk.inj (List.cons.inj hpublished).1
      have hbegins : counted (writeSignalPayload name value') <+:
          signalBytes name value' ++ [] := by
        rw [List.append_nil, ← writeSignalPayload_eq]
        exact List.take_prefix _ _
      obtain ⟨hfits, -, -, hmissing⟩ := signalBytes_fits hlossy hbegins htwo hle hname hvalue
      rw [← writeSignalPayload_eq] at hmissing
      exact Or.inl ⟨hfits, lt_of_le_counted hmissing⟩
  · intro E srv env conn c e subs token htext herror
    obtain ⟨bytes, hbuild, hcounted⟩ := readFrame_of_buildRequest (P := P) h.1
    refine ⟨bytes, hbuild, fun es hvalues hquiet => ?_⟩
    obtain ⟨rest, hread⟩ := hcounted es hvalues hquiet
    have hwrite : ∃ out, writeSignalRequest srv env e subs
        (counted (writeSignalPayload name value)) = .ok out ∧
        (AnswersError out ∨ serveUnit .writeSignal "ok" subs
          (srv.engine.publishSignal e name value env.nowMs) = .ok out) := by
      by_cases hdecodes : Undecodable P srv.utf8Error (counted (writeSignalPayload name value))
      · obtain ⟨out, hout, hanswer⟩ := hdecodes.refused env e subs
        exact ⟨out, hout, Or.inl hanswer⟩
      · obtain ⟨hfits, hlt⟩ := h.2.resolve_right (herror ▸ hdecodes)
        obtain ⟨-, -, value', n, hvalue, hwrite⟩ := writeSignalRequest_eq hdecodes env e subs
        obtain ⟨hlength, hdrop⟩ := signalBytes_read hfits value []
        rw [List.append_nil] at hlength hdrop
        rw [writeSignalPayload_eq] at hlt
        have hdata := dataLength_le value
        rw [length_signalBytes] at hlt
        rw [writeSignalPayload_eq, counted_eq (by rwa [length_signalBytes]), hlength, hdrop]
          at hvalue hwrite
        rw [List.drop_left, decodeHalValue_encodeHalValue _ hbits (by omega)] at hvalue
        obtain ⟨rfl, -⟩ := Prod.mk.inj (Except.ok.inj hvalue)
        rw [List.take_left, htext, hlossy.valid] at hwrite
        rw [writeSignalPayload_eq, counted_eq (by rwa [length_signalBytes]), hwrite]
        exact ⟨_, rfl, Or.inr rfl⟩
    by_cases hallowed : canWrite (c.session.map SessionInfo.role) = true
    · obtain ⟨out, hout, hanswer⟩ := hwrite
      refine ⟨_, rest, out, hread, rfl, ?_, hanswer⟩
      simp only [dispatch, ifAllowed, if_pos hallowed, hout]
    · refine ⟨_, rest, .refused (buildErrorResponse Method.writeSignal.id "unauthorized"), hread,
        rfl, ?_, Or.inl ⟨_, Or.inl rfl, rfl⟩⟩
      simp only [dispatch, ifAllowed, if_neg hallowed]

/-- Signals are transferred exactly, or not without an error, exactly when the lengths fit their
fields, or nothing can be made of a write. -/
theorem transfers_exact_iff (hbits : P.BitsExact) (hlossy : LossyUtf8 lossy) :
    (∀ signals : List (String × HalValue P),
      SnapshotExact lossy utf8Error signals ↔ SnapshotFits signals) ∧
      ∀ (name : String) (value : HalValue P),
        WriteExact lossy utf8Error name value ↔ WriteFits utf8Error name value :=
  ⟨snapshotExact_iff hbits hlossy, writeExact_iff hbits hlossy⟩

theorem textBytes_a : textBytes "a" = [97] := by decide

/-- A short name and a value are transferred exactly. -/
theorem transfers_exact_short :
    SnapshotExact fromUtf8Lossy (fun _ => "") [("a", (.bool true : HalValue wholePlatform))] ∧
      WriteExact fromUtf8Lossy (fun _ => "") "a" (.bool true : HalValue wholePlatform) := by
  obtain ⟨hsnapshot, hwrite⟩ := @transfers_exact_iff wholePlatform fromUtf8Lossy (fun _ => "")
    wholePlatform_bitsExact lossyUtf8_fromUtf8Lossy
  have hname : NameFits "a" := by
    rw [NameFits, textBytes_a]
    decide
  have hpayload : (writeSignalPayload "a" (.bool true : HalValue wholePlatform)).length = 5 := by
    rw [writeSignalPayload, textBytes_a]
    rfl
  refine ⟨(hsnapshot _).mpr ⟨by decide, ?_, ?_⟩, (hwrite _ _).mpr ⟨?_, Or.inl ⟨hname, ?_⟩⟩⟩
  · intro s hs
    obtain rfl := List.mem_singleton.mp hs
    exact hname
  · rw [snapshotBytes, List.flatMap_singleton, textBytes_a]
    decide
  · rw [hpayload]
    decide
  · rw [hpayload]
    decide

/-- A name of zeros. -/
def zeros (n : ℕ) : String := String.ofList (List.replicate n '\x00')

theorem textBytes_zeros (n : ℕ) : textBytes (zeros n) = List.replicate n 0 := by
  have hzero : String.utf8EncodeChar '\x00' = [0] := by decide
  rw [zeros, textBytes_ofList, List.flatMap_replicate, hzero, List.flatten_replicate_singleton]

/-- A snapshot of 65536 signals is read as one of none, and instead of a value under a name of
65536 zeros another one is published, under no name. -/
theorem transfers_not_exact :
    ¬SnapshotExact fromUtf8Lossy (fun _ => "")
        (List.replicate 65536 ("a", (.bool true : HalValue wholePlatform))) ∧
      ¬WriteExact fromUtf8Lossy (fun _ => "") (zeros 65536)
          (.bool true : HalValue wholePlatform) := by
  refine ⟨fun h => ?_, fun h => ?_⟩
  · have hfits := (snapshotExact_iff wholePlatform_bitsExact lossyUtf8_fromUtf8Lossy _).mp h
    have hcount := hfits.count
    rw [List.length_replicate] at hcount
    exact absurd hcount (by decide)
  · have hfits := (writeExact_iff wholePlatform_bitsExact lossyUtf8_fromUtf8Lossy _ _).mp h
    have hlength : (writeSignalPayload (zeros 65536) (.bool true : HalValue wholePlatform)).length =
        65540 := by
      rw [writeSignalPayload, textBytes_zeros, List.length_append, List.length_append,
        List.length_replicate]
      rfl
    rcases hfits.2 with ⟨hname, -⟩ | hundecodable
    · rw [NameFits, textBytes_zeros, List.length_replicate] at hname
      exact absurd hname (by decide)
    · rw [counted_eq (by rw [hlength]; decide)] at hundecodable
      have hpayload : ∃ more : List UInt8,
          writeSignalPayload (zeros 65536) (.bool true : HalValue wholePlatform) =
            leBytes 2 65536 ++ (0 :: more) := by
        refine ⟨List.replicate 65535 0 ++ encodeHalValue (.bool true : HalValue wholePlatform), ?_⟩
        rw [writeSignalPayload, textBytes_zeros, List.length_replicate, List.append_assoc]
        rfl
      obtain ⟨more, hmore⟩ := hpayload
      rw [Undecodable, hlength, hmore, nameLength_leBytes] at hundecodable
      rcases hundecodable with hshort | ⟨text, htext⟩
      · exact absurd hshort (by decide)
      · rw [show 2 + 65536 % 2 ^ 16 = 2 from rfl, List.drop_left' (length_leBytes 2 _)] at htext
        cases htext

end RuntimeClient

end Weftik
