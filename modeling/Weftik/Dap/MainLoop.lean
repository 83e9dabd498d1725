import Weftik.DapBridge.Protocol
import Weftik.Lib.Text

/-!
# The Main Loop of the Debug Adapter

The adapter reads frames from its standard input: the line of the length, a line that it does
not look at, and as many bytes as the length says. A line that is no UTF-8 ends the loop, and a
body that is no request is left out. All lengths are of bytes.

## Main definitions

* `parseContentLength`: the length that a line gives.
* `mainLoop`: the requests of an input.
* `sendPacket`: the bytes of a message.

## Main results

* `mainLoop_frame`: one frame and what follows it.
* `mainLoop_requests`: the requests of the bridge are read as they were written.
-/

namespace Weftik.Dap

open HalValue DapBridge

/-- `send_packet`: what the adapter writes for a message. -/
def sendPacket (data : String) : List UInt8 := textBytes (frame data)

/-- `parse::<usize>`. -/
def parseUsize (cs : List Char) : Option ℕ :=
  let digits := if cs.head? = some '+' then cs.drop 1 else cs
  if digits ≠ [] ∧ digits.all Char.isDigit ∧ Nat.ofDigitChars 10 digits 0 < 2 ^ 64 then
    some (Nat.ofDigitChars 10 digits 0)
  else none

/-- `parse_content_length`. -/
def parseContentLength (P : Platform) (line : List Char) : Option ℕ :=
  match "Content-Length: ".toList.isPrefixOf? line with
  | some rest => parseUsize (Text.trim P.white rest)
  | none => none

/-- `read_line`: the bytes up to and with the first line feed, and the others. -/
def takeLine (bytes : List UInt8) : List UInt8 × List UInt8 :=
  let text := bytes.takeWhile (· ≠ 10)
  (text ++ (bytes.drop text.length).take 1, bytes.drop (text.length + 1))

theorem length_takeLine {bytes : List UInt8} (h : bytes ≠ []) :
    (takeLine bytes).2.length < bytes.length := by
  have hpos := List.length_pos_of_ne_nil h
  rw [takeLine, List.length_drop]
  omega

theorem length_takeLine_le (bytes : List UInt8) : (takeLine bytes).2.length ≤ bytes.length := by
  rw [takeLine, List.length_drop]
  omega

section

variable (P : Platform) (lossy : List UInt8 → String) {R : Type} (decode : String → Option R)

/-- The requests that the main loop reads from its input; `decode` is `serde_json::from_str`. -/
def mainLoop (bytes : List UInt8) : List R :=
  if bytes = [] then []
  else
    match ofTextBytes (takeLine bytes).1 with
    | none => []
    | some line =>
        if Text.trim P.white line.toList = [] then mainLoop (takeLine bytes).2
        else
          match parseContentLength P line.toList with
          | none => mainLoop (takeLine bytes).2
          | some contentLength =>
              -- The separator line is read and not looked at.
              match ofTextBytes (takeLine (takeLine bytes).2).1 with
              | none => []
              | some _ =>
                  let body := (takeLine (takeLine bytes).2).2
                  if body.length < contentLength then []
                  else
                    (decode (lossy (body.take contentLength))).toList ++
                      mainLoop (body.drop contentLength)
  termination_by bytes.length
  decreasing_by
    · exact length_takeLine ‹_›
    · exact length_takeLine ‹_›
    · have hline : (takeLine bytes).2.length < bytes.length := length_takeLine ‹_›
      have hseparator := length_takeLine_le (takeLine bytes).2
      simp only [List.length_drop]
      omega

/-! ### One frame -/

/-- A line without a line feed in it. -/
theorem takeLine_append {line : List UInt8} (h : 10 ∉ line) (rest : List UInt8) :
    takeLine (line ++ 10 :: rest) = (line ++ [10], rest) := by
  have htake : (line ++ 10 :: rest).takeWhile (· ≠ 10) = line := by
    have hne : ∀ b ∈ line, decide (b ≠ 10) = true := by
      intro b hb
      exact decide_eq_true (ne_of_mem_of_not_mem hb h)
    rw [List.takeWhile_append_of_pos hne]
    exact List.append_nil line
  have hdrop : (line ++ 10 :: rest).drop (line.length + 1) = rest := by
    have hlength : line.length + 1 = (line ++ [10]).length := by
      rw [List.length_append]
      rfl
    rw [List.append_cons, hlength, List.drop_left]
  rw [takeLine, htake]
  simp only [hdrop, List.drop_left]
  rfl

/-- A text of ASCII characters has a byte for each. -/
theorem textBytes_ascii {cs : List Char} (h : ∀ c ∈ cs, c.toNat < 128) :
    textBytes (String.ofList cs) = cs.map fun c => c.val.toUInt8 := by
  rw [textBytes_ofList]
  induction cs with
  | nil => rfl
  | cons c cs ih =>
      obtain ⟨hc, hcs⟩ := List.forall_mem_cons.mp h
      have hsize : c.utf8Size = 1 :=
        Char.utf8Size_eq_one_iff.mpr (UInt32.le_iff_toNat_le.mpr (Nat.le_of_lt_succ hc))
      rw [List.flatMap_cons, String.utf8EncodeChar_eq_singleton hsize, ih hcs]
      rfl

/-- The digits of a number are read as the number. -/
theorem parseUsize_toDigits {n : ℕ} (h : n < 2 ^ 64) :
    parseUsize (Nat.toDigits 10 n) = some n := by
  have hdigit : ∀ c ∈ Nat.toDigits 10 n, c.isDigit = true := fun c hc =>
    Nat.isDigit_of_mem_toDigits (by omega) (by omega) hc
  have hplus : ¬ (Nat.toDigits 10 n).head? = some '+' := by
    intro hhead
    exact absurd (hdigit '+' (List.mem_of_head? hhead)) (by decide)
  have hall : (Nat.toDigits 10 n).all Char.isDigit = true := List.all_eq_true.mpr hdigit
  rw [parseUsize, if_neg hplus]
  simp only [Nat.ofDigitChars_ten_toDigits]
  exact if_pos ⟨Nat.toDigits_ne_nil, hall, h⟩

/-- The characters of the first line of a frame. -/
def headerLine (n : ℕ) : List Char :=
  "Content-Length: ".toList ++ (Nat.toDigits 10 n ++ ['\r', '\n'])

theorem headerLine_eq (n : ℕ) : headerLine n =
    "Content-Length: ".toList ++ (Nat.toDigits 10 n ++ ['\r', '\n']) := rfl

theorem white_of_ascii {c : Char} (hc : c.toNat < 128) :
    P.white c = decide (c ∈ [' ', '\t', '\n', '\x0b', '\x0c', '\r']) :=
  P.white_ascii c (UInt32.lt_iff_toNat_lt.mpr hc)

/-- There is no white space in a number. -/
theorem white_toDigits (n : ℕ) : ∀ c ∈ Nat.toDigits 10 n, P.white c = false := by
  intro c hc
  obtain ⟨hlow, hhigh⟩ := toNat_of_mem_toDigits hc
  rw [white_of_ascii P (by omega)]
  refine decide_eq_false fun hmem => ?_
  simp only [List.mem_cons, List.not_mem_nil, or_false] at hmem
  rcases hmem with rfl | rfl | rfl | rfl | rfl | rfl <;> revert hlow <;> decide

/-- The first line of a frame gives the length. -/
theorem parseContentLength_header {n : ℕ} (h : n < 2 ^ 64) :
    parseContentLength P (headerLine n) = some n := by
  have hwhite := white_toDigits P n
  have htrim : Text.trim P.white (Nat.toDigits 10 n ++ ['\r', '\n']) = Nat.toDigits 10 n := by
    have hreturn : P.white '\r' = true := by
      rw [white_of_ascii P (by decide)]
      decide
    have hfeed : P.white '\n' = true := by
      rw [white_of_ascii P (by decide)]
      decide
    rw [Text.trim_word Nat.toDigits_ne_nil hwhite hreturn, if_pos]
    exact List.rdropWhile_concat_pos P.white [] '\n' hfeed
  have hprefix : "Content-Length: ".toList.isPrefixOf? (headerLine n) =
      some (Nat.toDigits 10 n ++ ['\r', '\n']) :=
    List.isPrefixOf?_eq_some_iff_append_eq.mpr rfl
  rw [parseContentLength, hprefix]
  simp only [htrim]
  exact parseUsize_toDigits h

theorem headerLine_ascii (n : ℕ) : ∀ c ∈ headerLine n, c.toNat < 128 := by
  have hname : "Content-Length: ".toList.all (fun c => c.toNat < 128) = true := by decide
  have hend : ['\r', '\n'].all (fun c => c.toNat < 128) = true := by decide
  simp only [List.all_eq_true, decide_eq_true_eq] at hname hend
  have hdigits : ∀ c ∈ Nat.toDigits 10 n, c.toNat < 128 := by
    intro c hc
    have := toNat_of_mem_toDigits hc
    omega
  exact List.forall_mem_append.mpr ⟨hname, List.forall_mem_append.mpr ⟨hdigits, hend⟩⟩

/-- The bytes of the first line end with its only line feed. -/
theorem textBytes_headerLine (n : ℕ) :
    ∃ line, 10 ∉ line ∧ textBytes (String.ofList (headerLine n)) = line ++ [10] := by
  have hname : "Content-Length: ".toList.all (fun c => c.val.toUInt8 ≠ 10) = true := by decide
  have hreturn : ['\r'].all (fun c => c.val.toUInt8 ≠ 10) = true := by decide
  simp only [List.all_eq_true, decide_eq_true_eq] at hname hreturn
  have hdigits : ∀ c ∈ Nat.toDigits 10 n, c.val.toUInt8 ≠ 10 := by
    intro c hc heq
    have hbounds := toNat_of_mem_toDigits hc
    have hten : c.toNat % 256 = 10 := congrArg UInt8.toNat heq
    omega
  have hall : ∀ c ∈ "Content-Length: ".toList ++ (Nat.toDigits 10 n ++ ['\r']),
      c.val.toUInt8 ≠ 10 :=
    List.forall_mem_append.mpr ⟨hname, List.forall_mem_append.mpr ⟨hdigits, hreturn⟩⟩
  have hline : headerLine n =
      "Content-Length: ".toList ++ (Nat.toDigits 10 n ++ ['\r']) ++ ['\n'] := by
    simp only [headerLine_eq, List.append_assoc, List.cons_append, List.nil_append]
  refine ⟨("Content-Length: ".toList ++ (Nat.toDigits 10 n ++ ['\r'])).map fun c => c.val.toUInt8,
    ?_, ?_⟩
  · intro hmem
    obtain ⟨c, hc, hten⟩ := List.mem_map.mp hmem
    exact hall c hc hten
  · rw [textBytes_ascii (headerLine_ascii n), hline, List.map_append]
    rfl

theorem frame_eq (body : String) :
    frame body = String.ofList (headerLine (textBytes body).length) ++ ("\r\n" ++ body) := by
  have hseparator : "\r\n\r\n" = String.ofList ['\r', '\n'] ++ "\r\n" := by decide
  have happend : ∀ a b c d e : String, a ++ b ++ (c ++ d) ++ e = a ++ (b ++ c) ++ (d ++ e) := by
    intro a b c d e
    simp only [String.append_assoc]
  have hframe : frame body = "Content-Length: " ++ (textBytes body).length.repr ++
      (String.ofList ['\r', '\n'] ++ "\r\n") ++ body := by
    rw [← hseparator]
    exact rfl
  rw [headerLine_eq, String.ofList_append, String.ofList_append, String.ofList_toList,
    ← Nat.repr_eq_ofList_toDigits, hframe]
  exact happend _ _ _ _ _

/-- The bytes of a frame: its two lines, and the body. -/
theorem textBytes_frame (body : String) :
    textBytes (frame body) = textBytes (String.ofList (headerLine (textBytes body).length)) ++
      ([13, 10] ++ textBytes body) := by
  have happend : ∀ a b c : String,
      textBytes (a ++ (b ++ c)) = textBytes a ++ (textBytes b ++ textBytes c) := by
    intro a b c
    rw [textBytes_append, textBytes_append]
  have hreturn : textBytes "\r\n" = [13, 10] := by decide
  rw [← hreturn]
  exact (congrArg textBytes (frame_eq body)).trans (happend _ _ body)

/-- A frame, and what follows it. -/
theorem mainLoop_frame (hlossy : LossyUtf8 lossy) {body : String}
    (hsize : (textBytes body).length < 2 ^ 64) (rest : List UInt8) :
    mainLoop P lossy decode (textBytes (frame body) ++ rest) =
      (decode body).toList ++ mainLoop P lossy decode rest := by
  obtain ⟨line, hline, hbytes⟩ := textBytes_headerLine (textBytes body).length
  have hinput : textBytes (frame body) ++ rest =
      line ++ 10 :: ([13] ++ 10 :: (textBytes body ++ rest)) := by
    rw [textBytes_frame, hbytes]
    simp only [List.append_assoc, List.cons_append, List.nil_append]
  have hfirst := takeLine_append hline ([13] ++ 10 :: (textBytes body ++ rest))
  have hsecond : takeLine ([13] ++ 10 :: (textBytes body ++ rest)) =
      ([13, 10], textBytes body ++ rest) := takeLine_append (by decide) _
  have hne : line ++ 10 :: ([13] ++ 10 :: (textBytes body ++ rest)) ≠ [] :=
    List.append_ne_nil_of_right_ne_nil _ (List.cons_ne_nil _ _)
  have hlineText : ofTextBytes (line ++ [10]) =
      some (String.ofList (headerLine (textBytes body).length)) := by
    rw [← hbytes, ofTextBytes_textBytes]
  have hseparator : ofTextBytes [13, 10] = some "\r\n" := ofTextBytes_textBytes "\r\n"
  have hlength : ¬ (textBytes body ++ rest).length < (textBytes body).length := by
    rw [List.length_append]
    omega
  have htrim : ¬ Text.trim P.white (headerLine (textBytes body).length) = [] := by
    have hwhite : P.white 'C' = false := by
      rw [white_of_ascii P (by decide)]
      decide
    have hcons : headerLine (textBytes body).length =
        'C' :: (headerLine (textBytes body).length).tail := rfl
    rw [hcons, Text.trim_cons_of_not hwhite]
    exact List.cons_ne_nil _ _
  rw [hinput, mainLoop, if_neg hne, hfirst]
  simp only [hlineText, String.toList_ofList, hsecond, hseparator,
    parseContentLength_header P hsize]
  rw [if_neg htrim, if_neg hlength, List.take_left, List.drop_left, hlossy.valid]

/-- The requests of the bridge are read as they were written. -/
theorem mainLoop_requests (hlossy : LossyUtf8 lossy) {stringify : R → String} {requests : List R}
    (hdecode : ∀ r ∈ requests, decode (stringify r) = some r)
    (hsize : ∀ r ∈ requests, (textBytes (stringify r)).length < 2 ^ 64) :
    mainLoop P lossy decode (requests.flatMap fun r => textBytes (encodeRequest stringify r)) =
      requests := by
  induction requests with
  | nil =>
      rw [List.flatMap_nil, mainLoop]
      rfl
  | cons r requests ih =>
      obtain ⟨hr, hrest⟩ := List.forall_mem_cons.mp hdecode
      obtain ⟨hrsize, hrestsize⟩ := List.forall_mem_cons.mp hsize
      rw [List.flatMap_cons, encodeRequest, mainLoop_frame P lossy decode hlossy hrsize, hr,
        ih hrest hrestsize]
      rfl

end

end Weftik.Dap
