import Weftik.Dap.MainLoop

/-!
# Framing between Bridge and Adapter

The adapter writes the length of a body in bytes. The bridge decodes each chunk that it
receives by itself and takes as many code units as the length says. The two numbers are the same
for a body of ASCII characters only: of any other one the bridge waits for more, or takes the
beginning of the next frame for the end of the body. What the bridge writes the adapter reads by
bytes, and gets as it was written.

## Main definitions

* `Receiver`, `onData`: the buffer of the bridge, and the frames that it has got.
* `ReadsBack`: what the framing relies on of JSON.
* `Delivers`: the messages arrive, for every division into chunks.

## Main results

* `receive_eq`: the division into chunks makes no difference to the decoded string.
* `delivers_of_ascii`, `accent_not_delivered`: messages that arrive, and messages that do not.
* `framing_iff_ascii`: the frames go both ways when the messages are ASCII.
-/

namespace Weftik.DapBridge

open HalValue Js Dap

variable {V : Type}

/-! ### The receiver -/

/-- The buffer of the bridge, and the frames that it has got. -/
structure Receiver (V : Type) where
  buf : JsString
  frames : List V

section

variable (lossy : List UInt8 → String) (parse : JsString → Option V)

/-- `onData`, with `chunk.toString('utf8')`. -/
def onData (s : Receiver V) (chunk : List UInt8) : Receiver V :=
  let (frames, rest) := decodeFrames parse (s.buf ++ units (lossy chunk))
  ⟨rest, s.frames ++ frames⟩

/-- The bridge after some chunks. -/
def receive (chunks : List (List UInt8)) : Receiver V := chunks.foldl (onData lossy parse) ⟨[], []⟩

/-- The division into chunks makes no difference to the decoded string. -/
theorem receive_eq (chunks : List (List UInt8)) :
    receive lossy parse chunks =
      ⟨(decodeFrames parse (chunks.flatMap fun chunk => units (lossy chunk))).2,
        (decodeFrames parse (chunks.flatMap fun chunk => units (lossy chunk))).1⟩ := by
  induction chunks using List.reverseRecOn with
  | nil =>
      rw [List.flatMap_nil, decodeFrames_of_none parse rfl]
      rfl
  | append_singleton chunks chunk ih =>
      have hstep : receive lossy parse (chunks ++ [chunk]) =
          onData lossy parse (receive lossy parse chunks) chunk := by
        rw [receive, List.foldl_append]
        rfl
      rw [hstep, ih, onData, List.flatMap_append, List.flatMap_singleton,
        decodeFrames_append parse (chunks.flatMap fun chunk => units (lossy chunk))]

end

/-! ### Messages -/

/-- What the framing relies on of JSON: the text of a message is read as the message, is no
longer one with a letter behind it, and has no carriage return in it. -/
structure ReadsBack (parse : JsString → Option V) (render : V → String) : Prop where
  parse_render : ∀ m, parse (units (render m)) = some m
  parse_more : ∀ m more, parse (units (render m) ++ 67 :: more) = none
  noReturn : ∀ m, '\r' ∉ (render m).toList

/-- What the adapter writes for some messages. -/
def stream (render : V → String) (messages : List V) : List UInt8 :=
  messages.flatMap fun m => sendPacket (render m)

/-- However the bytes come in chunks, the bridge gets the messages, and nothing is left. -/
def Delivers (lossy : List UInt8 → String) (parse : JsString → Option V) (render : V → String)
    (messages : List V) : Prop :=
  ∀ chunks, chunks.flatten = stream render messages →
    receive lossy parse chunks = ⟨[], messages⟩

variable {lossy : List UInt8 → String} {parse : JsString → Option V} {render : V → String}

theorem isAscii_frame {body : String} (h : IsAscii body) : IsAscii (frame body) := by
  have hreturn : IsAscii "\r\n" := by decide
  rw [IsAscii, frame_eq, String.toList_append, String.toList_ofList, String.toList_append]
  exact List.forall_mem_append.mpr
    ⟨headerLine_ascii _, List.forall_mem_append.mpr ⟨hreturn, h⟩⟩

/-- Frames of ASCII messages. -/
theorem decodeFrames_ascii (hjson : ReadsBack parse render) {messages : List V}
    (h : ∀ m ∈ messages, IsAscii (render m)) :
    decodeFrames parse (messages.flatMap fun m => units (frame (render m))) = (messages, []) := by
  induction messages with
  | nil => exact decodeFrames_of_none parse rfl
  | cons m messages ih =>
      obtain ⟨hm, hmessages⟩ := List.forall_mem_cons.mp h
      have hlength := (length_units (render m)).2.mpr hm
      rw [List.flatMap_cons, decodeFrames_frame, ← hlength, List.take_left, List.drop_left,
        hjson.parse_render, ih hmessages, if_neg (by rw [List.length_append]; omega)]
      rfl

/-- The units of ASCII bytes. -/
def byteUnits (bytes : List UInt8) : JsString := bytes.map fun b => UInt16.ofNat b.toNat

/-- Each chunk of ASCII bytes is decoded as it is. -/
theorem units_lossy (hlossy : LossyUtf8 lossy) {chunk : List UInt8}
    (h : ∀ b ∈ chunk, b.toNat < 128) : units (lossy chunk) = byteUnits chunk := by
  have htoNat : ∀ b ∈ chunk, (Char.ofNat b.toNat).toNat = b.toNat := by
    intro b hb
    have := h b hb
    have hvalid : b.toNat.isValidChar := Or.inl (by omega)
    rw [Char.ofNat, dif_pos hvalid]
    rfl
  have hascii : ∀ c ∈ chunk.map fun b => Char.ofNat b.toNat, c.toNat < 128 := by
    intro c hc
    obtain ⟨b, hb, rfl⟩ := List.mem_map.mp hc
    rw [htoNat b hb]
    exact h b hb
  have htext : textBytes (String.ofList (chunk.map fun b => Char.ofNat b.toNat)) = chunk := by
    rw [textBytes_ascii hascii, List.map_map]
    refine (List.map_congr_left fun b hb => ?_).trans (List.map_id chunk)
    refine UInt8.toNat_inj.mp ?_
    exact (congrArg (· % 256) (htoNat b hb)).trans (Nat.mod_eq_of_lt b.toNat_lt)
  have hvalid := hlossy.valid (String.ofList (chunk.map fun b => Char.ofNat b.toNat))
  rw [htext] at hvalid
  rw [hvalid, units_ofList, flatMap_utf16 hascii, List.map_map]
  exact List.map_congr_left fun b hb => congrArg UInt16.ofNat (htoNat b hb)

/-- The units of an ASCII text are those of its bytes. -/
theorem byteUnits_textBytes {s : String} (h : IsAscii s) :
    (∀ b ∈ textBytes s, b.toNat < 128) ∧ byteUnits (textBytes s) = units s := by
  obtain ⟨cs, rfl⟩ := s.exists_eq_ofList
  rw [IsAscii, String.toList_ofList] at h
  rw [textBytes_ascii h, units_ofList, flatMap_utf16 h, byteUnits, List.map_map]
  have htoNat : ∀ c ∈ cs, c.val.toUInt8.toNat = c.toNat := by
    intro c hc
    have hlt : c.toNat < 2 ^ 8 := by
      have := h c hc
      omega
    exact Nat.mod_eq_of_lt hlt
  refine ⟨fun b hb => ?_, List.map_congr_left fun c hc => ?_⟩
  · obtain ⟨c, hc, rfl⟩ := List.mem_map.mp hb
    rw [htoNat c hc]
    exact h c hc
  · exact congrArg UInt16.ofNat (htoNat c hc)

/-- ASCII messages arrive, however the bytes come in chunks. -/
theorem delivers_of_ascii (hlossy : LossyUtf8 lossy) (hjson : ReadsBack parse render)
    {messages : List V} (h : ∀ m ∈ messages, IsAscii (render m)) :
    Delivers lossy parse render messages := by
  intro chunks hchunks
  have hbytes : ∀ b ∈ chunks.flatten, b.toNat < 128 := by
    rw [hchunks]
    intro b hb
    obtain ⟨m, hm, hmem⟩ := List.mem_flatMap.mp hb
    exact (byteUnits_textBytes (isAscii_frame (h m hm))).1 b hmem
  have hunits : (chunks.flatMap fun chunk => units (lossy chunk)) = byteUnits chunks.flatten := by
    rw [byteUnits, List.map_flatten, ← List.flatMap_def]
    refine List.flatMap_congr fun chunk hchunk => units_lossy hlossy fun b hb =>
      hbytes b (List.mem_flatten_of_mem hchunk hb)
  have hframes : byteUnits (stream render messages) =
      messages.flatMap fun m => units (frame (render m)) := by
    rw [byteUnits, stream, List.map_flatMap]
    exact List.flatMap_congr fun m hm => (byteUnits_textBytes (isAscii_frame (h m hm))).2
  rw [receive_eq, hunits, hchunks, hframes, decodeFrames_ascii hjson h]

/-! ### Messages that do not arrive -/

/-- A frame has the two returns of its separator. -/
theorem count_frame (hjson : ReadsBack parse render) (m : V) :
    (units (frame (render m))).count 13 = 2 := by
  have hbody : 13 ∉ units (render m) := by
    intro hmem
    obtain ⟨c, hc, hu⟩ := List.mem_flatMap.mp hmem
    have hd : '\r'.toNat < 128 := by decide
    obtain rfl := eq_of_mem_utf16 hd hu
    exact hjson.noReturn m hc
  rw [units_frame, List.count_append, List.count_append,
    List.count_eq_zero_of_not_mem (not_mem_header _), List.count_eq_zero_of_not_mem hbody]
  rfl

/-- A frame begins with a letter. -/
theorem units_frame_head (body : String) : ∃ more, units (frame body) = 67 :: more := by
  obtain ⟨more, hmore⟩ : ∃ more, units "Content-Length: " = 67 :: more :=
    ⟨(units "Content-Length: ").tail, by decide⟩
  rw [units_frame, units_append, hmore]
  exact ⟨_, rfl⟩

theorem count_frames (hjson : ReadsBack parse render) (messages : List V) :
    (messages.flatMap fun m => units (frame (render m))).count 13 = 2 * messages.length := by
  induction messages with
  | nil => rfl
  | cons m messages ih =>
      rw [List.flatMap_cons, List.count_append, count_frame hjson, ih, List.length_cons]
      omega

/-- Messages of which one is not ASCII are not decoded, even where no chunk cuts a character. The
body of such a message ends in the next frame, and one separator is lost. -/
theorem ascii_of_decodeFrames (hjson : ReadsBack parse render) {messages : List V}
    (h : decodeFrames parse (messages.flatMap fun m => units (frame (render m))) =
      (messages, [])) : ∀ m ∈ messages, IsAscii (render m) := by
  induction messages with
  | nil => exact List.forall_mem_nil _
  | cons m messages ih =>
      rw [List.flatMap_cons, decodeFrames_frame] at h
      obtain ⟨hle, hascii⟩ := length_units (render m)
      by_cases hlt : (units (render m) ++ messages.flatMap fun m => units (frame (render m))).length
          < (textBytes (render m)).length
      · rw [if_pos hlt] at h
        cases congrArg Prod.fst h
      · rw [if_neg hlt] at h
        by_cases heq : (units (render m)).length = (textBytes (render m)).length
        · rw [← heq, List.take_left, List.drop_left, hjson.parse_render] at h
          have hframes := (List.cons.inj (congrArg Prod.fst h)).2
          have hrest := congrArg Prod.snd h
          exact List.forall_mem_cons.mpr ⟨hascii.mp heq, ih (Prod.ext hframes hrest)⟩
        · exfalso
          -- The tail begins with the next frame.
          obtain ⟨k, hk⟩ : ∃ k, (textBytes (render m)).length =
              (units (render m)).length + (k + 1) :=
            ⟨(textBytes (render m)).length - (units (render m)).length - 1, by omega⟩
          rw [hk, List.take_length_add_append, List.drop_length_add_append] at h
          rw [hk, List.length_append] at hlt
          cases messages with
          | nil =>
              rw [List.flatMap_nil, List.length_nil] at hlt
              omega
          | cons m' messages =>
              have hcount := length_decodeFrames_le parse
                (((m' :: messages).flatMap fun m => units (frame (render m))).drop (k + 1))
              have hdrop := (List.drop_sublist (k + 1)
                ((m' :: messages).flatMap fun m => units (frame (render m)))).count_le 13
              rw [count_frames hjson] at hdrop
              obtain ⟨more, hmore⟩ := units_frame_head (render m')
              have hnone : parse (units (render m) ++ ((m' :: messages).flatMap fun m =>
                  units (frame (render m))).take (k + 1)) = none := by
                rw [List.flatMap_cons, hmore]
                exact hjson.parse_more m _
              rw [hnone] at h
              have hframes := congrArg (fun p => p.1.length) h
              simp only [Option.toList_none, List.nil_append, List.length_cons] at hframes hdrop
              omega

/-- The frames between the bridge and the adapter are read as they were written, in both
directions and for every division of the answers into chunks, when the messages of the adapter
are ASCII. -/
theorem framing_iff_ascii (P : Platform) (hlossy : LossyUtf8 lossy)
    (hjson : ReadsBack parse render) {R : Type} {stringify : R → String}
    {decode : String → Option R} {lossy' : List UInt8 → String} (hlossy' : LossyUtf8 lossy')
    (requests : List R) (hdecode : ∀ r ∈ requests, decode (stringify r) = some r)
    (hsize : ∀ r ∈ requests, (textBytes (stringify r)).length < 2 ^ 64) (messages : List V) :
    (Delivers lossy parse render messages ∧
      mainLoop P lossy' decode (requests.flatMap fun r => textBytes (encodeRequest stringify r)) =
        requests) ↔ ∀ m ∈ messages, IsAscii (render m) := by
  constructor
  · rintro ⟨hdelivers, -⟩
    have hwhole := hdelivers [stream render messages] (List.append_nil _)
    have htext : stream render messages =
        textBytes (String.ofList (messages.flatMap fun m => (frame (render m)).toList)) := by
      rw [textBytes_ofList, List.flatMap_assoc]
      refine List.flatMap_congr fun m _ => ?_
      rw [← textBytes_ofList, String.ofList_toList]
      rfl
    rw [receive_eq, List.flatMap_singleton, htext, hlossy.valid, units_ofList,
      List.flatMap_assoc] at hwhole
    obtain ⟨hrest, hframes⟩ := (Receiver.mk.injEq ..).mp hwhole
    exact ascii_of_decodeFrames hjson (Prod.ext hframes hrest)
  · intro h
    exact ⟨delivers_of_ascii hlossy hjson h,
      mainLoop_requests P lossy' decode hlossy' hdecode hsize⟩

/-! ### Two messages -/

/-- Two messages of the adapter, of which one is ASCII. -/
def text : Bool → String
  | true => "\x7b\"message\":\"ok\"\x7d"
  | false => "\x7b\"message\":\"\u00e9\"\x7d"

/-- The parser, on the texts of the two messages and on no others. -/
def parseText (s : JsString) : Option Bool :=
  [true, false].find? fun b => s = units (text b)

theorem readsBack_text : ReadsBack parseText text where
  parse_render := by decide
  parse_more m more := by
    refine List.find?_eq_none.mpr fun b _ heq => ?_
    have hmem : 67 ∈ units (text b) := by
      rw [← of_decide_eq_true heq]
      exact List.mem_append_right _ List.mem_cons_self
    exact absurd hmem (by cases b <;> decide)
  noReturn := by decide

/-- A message of ASCII characters, and a request. -/
theorem framing_iff_ascii_ok :
    (Delivers fromUtf8Lossy parseText text [true] ∧
      mainLoop Platform.exact fromUtf8Lossy (fun s => if s = text true then some () else none)
        ([()].flatMap fun r => textBytes (encodeRequest (fun _ => text true) r)) = [()]) ↔
      ∀ m ∈ [true], IsAscii (text m) :=
  framing_iff_ascii Platform.exact lossyUtf8_fromUtf8Lossy readsBack_text
    lossyUtf8_fromUtf8Lossy [()] (by decide) (by decide) [true]

/-- A message with an accent has more bytes than units, and the bridge waits for more. -/
theorem accent_not_delivered :
    ¬ ∀ (lossy : List UInt8 → String) (parse : JsString → Option Bool) (render : Bool → String),
      LossyUtf8 lossy → ReadsBack parse render →
          ∀ messages, Delivers lossy parse render messages := by
  intro h
  have hdelivers := h fromUtf8Lossy parseText text lossyUtf8_fromUtf8Lossy readsBack_text [false]
    [stream text [false]] (List.append_nil _)
  have hstream : stream text [false] = textBytes (frame (text false)) := List.append_nil _
  have hwaits := decodeFrames_frame parseText (text false) []
  rw [List.append_nil, List.append_nil, if_pos (by decide)] at hwaits
  rw [receive_eq, List.flatMap_singleton, hstream, lossyUtf8_fromUtf8Lossy.valid, hwaits]
    at hdelivers
  have hframes : ([] : List Bool) = [false] := congrArg Receiver.frames hdelivers
  cases hframes

end Weftik.DapBridge
