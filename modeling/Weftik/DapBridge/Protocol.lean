import Weftik.Lossy

/-!
# Frames of the Debug Bridge

The bridge reads what the adapter writes as frames: a header that says how long the body is, a
blank line, and the body. The adapter counts bytes, and the bridge the code units of the string
that it has decoded the bytes to.

## Main definitions

* `encodeRequest`: the frame of a request.
* `decodeFrames`: the complete frames of a string, and what is left of it.

## Main results

* `decodeFrames_append`: a string can be decoded in parts.
* `decodeFrames_frame`: one frame and what follows it.
* `length_decodeFrames_le`: there are two returns for each frame.
-/

namespace Weftik.DapBridge

open HalValue Js

/-! ### Frames -/

/-- A frame with some body. The length is that of the bytes. -/
def frame (body : String) : String :=
  "Content-Length: " ++ (textBytes body).length.repr ++ "\r\n\r\n" ++ body

/-- `encodeRequest`, where `stringify` is `JSON.stringify` of the request. -/
def encodeRequest {R : Type} (stringify : R → String) (request : R) : String :=
  frame (stringify request)

/-- `\r\n\r\n` -/
def separator : JsString := [13, 10, 13, 10]

/-- What comes before the first separator, and after it. -/
def splitHeader : JsString → Option (JsString × JsString)
  | [] => none
  | u :: us =>
      if separator <+: u :: us then some ([], (u :: us).drop 4)
      else (splitHeader us).map fun p => (u :: p.1, p.2)

/-- A digit of `\d`. -/
def isDigit (u : UInt16) : Bool := 48 ≤ u ∧ u ≤ 57

/-- A unit of `\s`. -/
def isSpace (u : UInt16) : Bool :=
  decide (9 ≤ u ∧ u ≤ 13) || decide (8192 ≤ u ∧ u ≤ 8202) ||
    decide (u ∈ [32, 160, 5760, 8232, 8233, 8239, 8287, 12288, 65279])

/-- The lower case of an ASCII letter. -/
def lower (u : UInt16) : UInt16 := if 65 ≤ u ∧ u ≤ 90 then u + 32 else u

/-- The number that some digits stand for. -/
def digitsValue (digits : JsString) : ℕ := digits.foldl (fun n u => 10 * n + (u.toNat - 48)) 0

/-- `content-length:` -/
def lengthName : JsString :=
  [99, 111, 110, 116, 101, 110, 116, 45, 108, 101, 110, 103, 116, 104, 58]

/-- The number at the start of a string that begins as `/Content-Length:\s*(\d+)/i` says. -/
def lengthAt (s : JsString) : Option ℕ :=
  if (s.take lengthName.length).map lower = lengthName then
    match ((s.drop lengthName.length).dropWhile isSpace).takeWhile isDigit with
    | [] => none
    | digits => some (digitsValue digits)
  else none

/-- The number of the first match of `/Content-Length:\s*(\d+)/i`. -/
def contentLength : JsString → Option ℕ
  | [] => none
  | u :: us => (lengthAt (u :: us)).or (contentLength us)

theorem eq_of_splitHeader {s before after : JsString}
    (h : splitHeader s = some (before, after)) :
    s = before ++ (separator ++ after) := by
  induction s generalizing before with
  | nil => cases h
  | cons u us ih =>
      rw [splitHeader] at h
      split at h
      · rename_i hprefix
        obtain ⟨rest, hrest⟩ := hprefix
        obtain ⟨rfl, rfl⟩ := Prod.mk.inj (Option.some.inj h)
        rw [List.nil_append, ← hrest]
        rfl
      · obtain ⟨⟨before', after'⟩, hsplit, heq⟩ := Option.map_eq_some_iff.mp h
        obtain ⟨rfl, rfl⟩ := Prod.mk.inj heq
        rw [ih hsplit]
        rfl

theorem splitHeader_length {s before after : JsString}
    (h : splitHeader s = some (before, after)) : after.length + 4 ≤ s.length := by
  have hlength := congrArg List.length (eq_of_splitHeader h)
  rw [List.length_append, List.length_append] at hlength
  have hfour : separator.length = 4 := rfl
  omega

section Decode

variable {V : Type} (parse : JsString → Option V)

/-- `decodeFrames`, where `parse` is `JSON.parse` and `none` is an exception. -/
def decodeFrames (rest : JsString) : List V × JsString :=
  match _hsplit : splitHeader rest with
  | none => ([], rest)
  | some (header, after) =>
      match contentLength header with
      | none => decodeFrames after
      | some length =>
          if after.length < length then ([], rest)
          else
            let (frames, rest') := decodeFrames (after.drop length)
            ((parse (after.take length)).toList ++ frames, rest')
  termination_by rest.length
  decreasing_by
    all_goals
      have hlength := splitHeader_length _hsplit
      first
        | omega
        | (rw [List.length_drop]; omega)

theorem decodeFrames_of_none {s : JsString} (h : splitHeader s = none) :
    decodeFrames parse s = ([], s) := by
  rw [decodeFrames]
  split
  · rfl
  · rename_i hsplit
    rw [h] at hsplit
    cases hsplit

theorem decodeFrames_of_some {s header after : JsString}
    (h : splitHeader s = some (header, after)) :
    decodeFrames parse s =
      match contentLength header with
      | none => decodeFrames parse after
      | some length =>
          if after.length < length then ([], s)
          else ((parse (after.take length)).toList ++ (decodeFrames parse (after.drop length)).1,
            (decodeFrames parse (after.drop length)).2) := by
  rw [decodeFrames]
  split
  · rename_i hsplit
    rw [h] at hsplit
    cases hsplit
  · rename_i header' after' hsplit
    rw [h] at hsplit
    obtain ⟨rfl, rfl⟩ := Prod.mk.inj (Option.some.inj hsplit)
    rfl

/-! ### A string in parts -/

theorem splitHeader_append {a before after : JsString} (h : splitHeader a = some (before, after))
    (b : JsString) : splitHeader (a ++ b) = some (before, after ++ b) := by
  induction a generalizing before with
  | nil => cases h
  | cons u us ih =>
      rw [List.cons_append, splitHeader]
      rw [splitHeader] at h
      by_cases hprefix : separator <+: u :: us
      · rw [if_pos hprefix] at h
        have hlonger : separator <+: u :: (us ++ b) :=
          hprefix.trans (List.prefix_append (u :: us) b)
        rw [if_pos hlonger]
        have hfour : 4 ≤ (u :: us).length := hprefix.length_le
        obtain ⟨rfl, rfl⟩ := Prod.mk.inj (Option.some.inj h)
        rw [← List.cons_append, List.drop_append_of_le_length hfour]
      · rw [if_neg hprefix] at h
        obtain ⟨⟨before', after'⟩, hsplit, heq⟩ := Option.map_eq_some_iff.mp h
        obtain ⟨rfl, rfl⟩ := Prod.mk.inj heq
        -- A separator further on leaves room for one here.
        have hlength := splitHeader_length hsplit
        have hnot : ¬ separator <+: u :: (us ++ b) := by
          intro hlonger
          refine hprefix (List.prefix_of_prefix_length_le hlonger
            (List.prefix_append (u :: us) b) ?_)
          rw [List.length_cons]
          exact le_trans (by decide : separator.length ≤ 4) (by omega)
        rw [if_neg hnot, ih hsplit]
        rfl

/-- A string can be decoded in parts. -/
theorem decodeFrames_append (a b : JsString) :
    decodeFrames parse (a ++ b) =
      ((decodeFrames parse a).1 ++ (decodeFrames parse ((decodeFrames parse a).2 ++ b)).1,
        (decodeFrames parse ((decodeFrames parse a).2 ++ b)).2) := by
  induction hn : a.length using Nat.strong_induction_on generalizing a with
  | _ n ih =>
      cases hsplit : splitHeader a with
      | none =>
          rw [decodeFrames_of_none parse hsplit]
          rfl
      | some p =>
          obtain ⟨header, after⟩ := p
          have hlength := splitHeader_length hsplit
          have ha := decodeFrames_of_some parse hsplit
          have hab := decodeFrames_of_some parse (splitHeader_append hsplit b)
          cases hcontent : contentLength header with
          | none =>
              rw [hcontent] at ha hab
              rw [ha, hab]
              exact ih after.length (by omega) after rfl
          | some length =>
              rw [hcontent] at ha hab
              simp only at ha hab
              by_cases hlt : after.length < length
              · rw [if_pos hlt] at ha
                rw [ha]
                rfl
              · have hle : length ≤ after.length := by omega
                have hlonger : ¬ (after ++ b).length < length := by
                  rw [List.length_append]
                  omega
                rw [if_neg hlt] at ha
                rw [if_neg hlonger, List.take_append_of_le_length hle,
                  List.drop_append_of_le_length hle,
                  ih (after.drop length).length (by rw [List.length_drop]; omega) _ rfl] at hab
                rw [ha, hab, List.append_assoc]

/-- What is left has no complete frame. -/
theorem decodeFrames_rest (s : JsString) :
    decodeFrames parse (decodeFrames parse s).2 = ([], (decodeFrames parse s).2) := by
  have happend := decodeFrames_append parse s []
  rw [List.append_nil, List.append_nil] at happend
  have hframes := congrArg Prod.fst happend
  have hrest := congrArg Prod.snd happend
  exact Prod.ext (List.append_right_eq_self.mp hframes.symm) hrest.symm

/-! ### One frame -/

/-- A header without a carriage return ends at the separator. -/
theorem splitHeader_of_not_mem {header : JsString} (h : 13 ∉ header) (after : JsString) :
    splitHeader (header ++ (separator ++ after)) = some (header, after) := by
  induction header with
  | nil => exact if_pos (List.prefix_append separator after)
  | cons u us ih =>
      obtain ⟨hu, hus⟩ := not_or.mp (List.mem_cons.not.mp h)
      have hnot : ¬ separator <+: u :: (us ++ (separator ++ after)) := by
        rintro ⟨rest, hrest⟩
        exact hu (List.cons.inj hrest).1
      rw [List.cons_append, splitHeader, if_neg hnot, ih hus]
      rfl

/-- The digits of a number. -/
theorem toNat_of_mem_toDigits {n : ℕ} {c : Char} (h : c ∈ Nat.toDigits 10 n) :
    48 ≤ c.toNat ∧ c.toNat ≤ 57 :=
  Char.isDigit_iff_toNat.mp (Nat.isDigit_of_mem_toDigits (by omega) (by omega) h)

theorem units_repr (n : ℕ) :
    units n.repr = (Nat.toDigits 10 n).map fun c => UInt16.ofNat c.toNat := by
  rw [units, Nat.toList_repr]
  refine flatMap_utf16 fun c hc => ?_
  have hdigit := toNat_of_mem_toDigits hc
  omega

theorem toNat_unit {c : Char} (h : 48 ≤ c.toNat ∧ c.toNat ≤ 57) :
    (UInt16.ofNat c.toNat).toNat = c.toNat := by
  rw [UInt16.toNat_ofNat']
  exact Nat.mod_eq_of_lt (by omega)

theorem isDigit_of_mem_units_repr {n : ℕ} {u : UInt16} (h : u ∈ units n.repr) :
    isDigit u = true := by
  rw [units_repr] at h
  obtain ⟨c, hc, rfl⟩ := List.mem_map.mp h
  have hdigit := toNat_of_mem_toDigits hc
  have hnat := toNat_unit hdigit
  rw [isDigit, decide_eq_true_iff, UInt16.le_iff_toNat_le, UInt16.le_iff_toNat_le, hnat]
  exact hdigit

theorem isSpace_of_isDigit {u : UInt16} (h : isDigit u = true) : isSpace u = false := by
  have hdigits : ∀ k, k < 58 → 48 ≤ k → isSpace (UInt16.ofNat k) = false := by decide
  rw [isDigit, decide_eq_true_iff, UInt16.le_iff_toNat_le, UInt16.le_iff_toNat_le] at h
  have hu := hdigits u.toNat (Nat.lt_succ_of_le h.2) h.1
  rwa [UInt16.ofNat_toNat] at hu

/-- The digits of a number stand for it. -/
theorem digitsValue_units_repr (n : ℕ) : digitsValue (units n.repr) = n := by
  have hvalue : ∀ (cs : List Char) (init : ℕ), (∀ c ∈ cs, 48 ≤ c.toNat ∧ c.toNat ≤ 57) →
      (cs.map fun c => UInt16.ofNat c.toNat).foldl (fun n u => 10 * n + (u.toNat - 48)) init =
        Nat.ofDigitChars 10 cs init := by
    intro cs
    induction cs with
    | nil => exact fun init _ => (Nat.ofDigitChars_nil).symm
    | cons c cs ih =>
        intro init h
        obtain ⟨hc, hcs⟩ := List.forall_mem_cons.mp h
        rw [List.map_cons, List.foldl_cons, Nat.ofDigitChars_cons, toNat_unit hc, ih _ hcs]
        rfl
  rw [digitsValue, units_repr, hvalue _ _ fun c hc => toNat_of_mem_toDigits hc,
    Nat.ofDigitChars_ten_toDigits]

theorem units_repr_ne_nil (n : ℕ) : units n.repr ≠ [] := by
  rw [units_repr]
  exact fun h => Nat.toDigits_ne_nil (List.map_eq_nil_iff.mp h)

/-- The length in the header of a frame. -/
theorem contentLength_header (n : ℕ) :
    contentLength (units ("Content-Length: " ++ n.repr)) = some n := by
  have hname : units "Content-Length: " =
      [67, 111, 110, 116, 101, 110, 116, 45, 76, 101, 110, 103, 116, 104, 58, 32] := by decide
  have hdigits : (units n.repr).takeWhile isDigit = units n.repr :=
    List.takeWhile_eq_self_iff.mpr fun u hu => isDigit_of_mem_units_repr hu
  obtain ⟨u, us, hunits⟩ := List.exists_cons_of_ne_nil (units_repr_ne_nil n)
  have hu : isSpace u = false := by
    have hmem : u ∈ units n.repr := by
      rw [hunits]
      exact List.mem_cons_self
    exact isSpace_of_isDigit (isDigit_of_mem_units_repr hmem)
  have hdrop : (units n.repr).dropWhile isSpace = units n.repr := by
    rw [hunits, List.dropWhile_cons_of_neg (by rw [hu]; exact Bool.false_ne_true)]
  have hat : lengthAt (units ("Content-Length: " ++ n.repr)) = some n := by
    have hvalue := digitsValue_units_repr n
    have hrest : ((units "Content-Length: " ++ units n.repr).drop lengthName.length).dropWhile
        isSpace = units n.repr := by
      have hspace : (units "Content-Length: " ++ units n.repr).drop lengthName.length =
          32 :: units n.repr := by
        rw [hname]
        rfl
      rw [hspace, List.dropWhile_cons_of_pos (by decide), hdrop]
    have htake : (units "Content-Length: " ++ units n.repr).take lengthName.length =
        (units "Content-Length: ").take lengthName.length :=
      List.take_append_of_le_length (by decide)
    have hlower : ((units "Content-Length: ").take lengthName.length).map lower = lengthName := by
      decide
    rw [units_append, lengthAt, hrest, hdigits, htake, if_pos hlower]
    rw [hunits] at hvalue ⊢
    exact congrArg some hvalue
  rw [units_append, hname, List.cons_append, contentLength]
  rw [units_append, hname, List.cons_append] at hat
  rw [hat]
  rfl

theorem units_frame (body : String) :
    units (frame body) = units ("Content-Length: " ++ (textBytes body).length.repr) ++
      (separator ++ units body) := by
  have hseparator : units "\r\n\r\n" = separator := by decide
  have happend : ∀ a b c : String, units (a ++ b ++ c) = units a ++ (units b ++ units c) := by
    intro a b c
    rw [units_append, units_append, List.append_assoc]
  rw [← hseparator]
  exact happend ("Content-Length: " ++ (textBytes body).length.repr) "\r\n\r\n" body

/-- There is no return in the line of the length. -/
theorem not_mem_header (n : ℕ) : 13 ∉ units ("Content-Length: " ++ n.repr) := by
  have hname : (13 : UInt16) ∉ units "Content-Length: " := by decide
  rw [units_append]
  intro h
  rcases List.mem_append.mp h with h | h
  · exact hname h
  · exact absurd (isDigit_of_mem_units_repr h) (by decide)

/-- A frame, and what follows it. -/
theorem decodeFrames_frame (body : String) (tail : JsString) :
    decodeFrames parse (units (frame body) ++ tail) =
      if (units body ++ tail).length < (textBytes body).length then
        ([], units (frame body) ++ tail)
      else
        ((parse ((units body ++ tail).take (textBytes body).length)).toList ++
          (decodeFrames parse ((units body ++ tail).drop (textBytes body).length)).1,
          (decodeFrames parse ((units body ++ tail).drop (textBytes body).length)).2) := by
  have hsplit := splitHeader_of_not_mem (not_mem_header (textBytes body).length)
    (units body ++ tail)
  rw [← List.append_assoc separator, ← List.append_assoc, ← units_frame] at hsplit
  rw [decodeFrames_of_some parse hsplit, contentLength_header]

/-! ### Counting -/

/-- The frames that are read have a separator each, of two returns. -/
theorem length_decodeFrames_le (s : JsString) :
    2 * (decodeFrames parse s).1.length + (decodeFrames parse s).2.count 13 ≤ s.count 13 := by
  induction hn : s.length using Nat.strong_induction_on generalizing s with
  | _ n ih =>
      cases hsplit : splitHeader s with
      | none =>
          rw [decodeFrames_of_none parse hsplit, List.length_nil, Nat.mul_zero, Nat.zero_add]
      | some p =>
          obtain ⟨header, after⟩ := p
          have hlength := splitHeader_length hsplit
          have hcount : s.count 13 = header.count 13 + (2 + after.count 13) := by
            rw [eq_of_splitHeader hsplit, List.count_append, List.count_append]
            rfl
          rw [decodeFrames_of_some parse hsplit]
          cases contentLength header with
          | none =>
              have hrest := ih after.length (by omega) after rfl
              simp only
              omega
          | some length =>
              simp only
              by_cases hlt : after.length < length
              · rw [if_pos hlt, List.length_nil, Nat.mul_zero, Nat.zero_add]
              · have hrest := ih (after.drop length).length
                  (by rw [List.length_drop]; omega) _ rfl
                have hdrop := (List.drop_sublist length after).count_le 13
                have hone : (parse (after.take length)).toList.length ≤ 1 := Option.length_toList_le
                rw [if_neg hlt, List.length_append]
                simp only
                omega

end Decode

end Weftik.DapBridge
