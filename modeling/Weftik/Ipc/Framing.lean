import Weftik.Lib.Delivery
import Weftik.Ipc.Server

/-!
# Frames from a Stream of Bytes

The server reads a frame piece by piece, under a read time-out. When a read times out, the
connection loop goes on and reads a frame from the start; the pieces that the frame already had
are gone, and what follows them is taken for a frame.

## Main definitions

* `Frame.bytes`: the bytes of a frame.
* `readFrame`: read one frame.
* `receiveFrames`: the frames that the connection loop reads.

## Main results

* `readFrame_spec`: what a read of a frame takes, or loses.
* `accounted_receiveFrames`: the frames that are read have all bytes only if every time-out is
  between two of them.
* `receiveFrames_eq_iff`: all frames are read exactly if every time-out is between two frames.
-/

namespace Weftik

open HalValue Delivery

namespace Ipc

/-- The number of bytes of a token. -/
def tokenWireSize : ℕ := 64

/-- The number of bytes of a frame without its payload. -/
def headerSize : ℕ := 69

/-- Why no frame is read. -/
inductive FrameError
  | io (e : ReadError)
  | tooShort
  deriving DecidableEq

/-- The events of a connection: bytes and time-outs. -/
abbrev ByteEvents : Type := List (Event UInt8)

/-- Read a frame: its length, its token, its method and its payload. -/
def readFrame (es : ByteEvents) : Except FrameError Frame × ByteEvents :=
  match readExact 4 es with
  | (.error e, es) => (.error (.io e), es)
  | (.ok lenBytes, es) =>
      if ofLeBytes lenBytes < headerSize then (.error .tooShort, es)
      else
        match readExact tokenWireSize es with
        | (.error e, es) => (.error (.io e), es)
        | (.ok token, es) =>
            match readExact 1 es with
            | (.error e, es) => (.error (.io e), es)
            | (.ok methodId, es) =>
                -- Nothing is read for an empty payload.
                match readExact (ofLeBytes lenBytes - headerSize) es with
                | (.error e, es) => (.error (.io e), es)
                | (.ok payload, es) => (.ok ⟨token, methodId.headD 0, payload⟩, es)

/-! ### The bytes of a frame -/

/-- A frame whose length fits its length field. -/
structure Frame.WellFormed (f : Frame) : Prop where
  length_token : f.token.length = tokenWireSize
  lt : headerSize + f.payload.length < 2 ^ 32

/-- The bytes of a frame. -/
def Frame.bytes (f : Frame) : List UInt8 :=
  leBytes 4 (headerSize + f.payload.length) ++ (f.token ++ ([f.methodId] ++ f.payload))

variable {f : Frame}

theorem Frame.WellFormed.length_bytes (h : f.WellFormed) :
    f.bytes.length = headerSize + f.payload.length := by
  simp only [Frame.bytes, List.length_append, length_leBytes, h.length_token,
    List.length_singleton, headerSize, tokenWireSize]
  omega

theorem Frame.WellFormed.ofLeBytes_header (h : f.WellFormed) :
    ofLeBytes (leBytes 4 (headerSize + f.payload.length)) = headerSize + f.payload.length :=
  ofLeBytes_leBytes_of_lt h.lt

theorem Frame.WellFormed.pos (h : f.WellFormed) : 0 < f.bytes.length := by
  rw [h.length_bytes, headerSize]
  omega

/-- The first four bytes of what begins with a frame are the length of the frame. -/
theorem Frame.WellFormed.header_eq (h : f.WellFormed) {header rest : List UInt8}
    (hlength : header.length = 4) (hbegins : f.bytes <+: header ++ rest) :
    ofLeBytes header = f.bytes.length := by
  obtain ⟨tail, htail⟩ := hbegins
  rw [Frame.bytes, List.append_assoc] at htail
  obtain ⟨hheader, -⟩ := List.append_inj htail (by rw [length_leBytes, hlength])
  rw [← hheader, h.ofLeBytes_header, h.length_bytes]

/-- Frames can be told apart by their bytes. -/
theorem Frame.bytes_append_inj {g : Frame} (hf : f.WellFormed) (hg : g.WellFormed)
    {x y : List UInt8} (h : f.bytes ++ x = g.bytes ++ y) : f = g ∧ x = y := by
  have hsize : g.bytes.length = f.bytes.length := by
    have hbegins : g.bytes <+: leBytes 4 (headerSize + f.payload.length) ++
        (f.token ++ ([f.methodId] ++ f.payload) ++ x) :=
      ⟨y, by rw [← h, Frame.bytes, List.append_assoc]⟩
    have hheader := hg.header_eq (length_leBytes _ _) hbegins
    rw [← hheader, hf.ofLeBytes_header, hf.length_bytes]
  obtain ⟨hbytes, hxy⟩ := List.append_inj h hsize.symm
  obtain ⟨-, hbody⟩ := List.append_inj hbytes (by simp)
  obtain ⟨htoken, hrest⟩ := List.append_inj hbody (hf.length_token.trans hg.length_token.symm)
  obtain ⟨hmethod, hpayload⟩ := List.cons.inj hrest
  obtain ⟨token, methodId, payload⟩ := f
  obtain ⟨token', methodId', payload'⟩ := g
  exact ⟨by simp_all, hxy⟩

/-! ### One frame -/

/-- The bytes begin with no frame of less than `n` bytes. -/
def NoFrameBelow (n : ℕ) (bytes : List UInt8) : Prop :=
  ∀ f : Frame, f.WellFormed → f.bytes <+: bytes → n ≤ f.bytes.length

/-- What a read of a frame takes, or loses. -/
inductive FrameReadAs (es : ByteEvents) : Except FrameError Frame × ByteEvents → Prop
  | ok {f : Frame} {rest : ByteEvents} :
      f.WellFormed → Reads es f.bytes rest → FrameReadAs es (.ok f, rest)
  | io {e : ReadError} {rest : ByteEvents} {n : ℕ} :
      Loses n es rest e → NoFrameBelow n (values es) → FrameReadAs es (.error (.io e), rest)
  | tooShort {rest : ByteEvents} :
      (∀ f : Frame, f.WellFormed → ¬f.bytes <+: values es) →
      FrameReadAs es (.error .tooShort, rest)

/-- A read of a frame takes a frame, or fails before the end of the first frame that arrives. -/
theorem readFrame_spec (es : ByteEvents) : FrameReadAs es (readFrame es) := by
  rw [readFrame]
  have hlen := readExact_spec 4 es
  split
  · rename_i e es₁ heq
    rw [heq] at hlen
    cases hlen with
    | error hloses =>
        refine .io hloses fun f hf _ => ?_
        rw [hf.length_bytes, headerSize]
        omega
  · rename_i lenBytes es₁ heq
    rw [heq] at hlen
    obtain ⟨hfour, hreads⟩ : lenBytes.length = 4 ∧ Reads es lenBytes es₁ := by
      cases hlen with
      | ok hlength hreads => exact ⟨hlength, hreads⟩
    have hheader : ∀ f : Frame, f.WellFormed → f.bytes <+: values es →
        ofLeBytes lenBytes = f.bytes.length := fun f hf hbegins =>
      hf.header_eq hfour (hreads.values_eq ▸ hbegins)
    split
    · rename_i hshort
      refine .tooShort fun f hf hbegins => ?_
      rw [hheader f hf hbegins, hf.length_bytes] at hshort
      omega
    · rename_i hlong
      have hbelow : ∀ n, n ≤ ofLeBytes lenBytes → NoFrameBelow n (values es) :=
        fun n hn f hf hbegins => hn.trans (hheader f hf hbegins).le
      have htoken := readExact_spec tokenWireSize es₁
      split
      · rename_i e es₂ heq₂
        rw [heq₂] at htoken
        cases htoken with
        | error hloses =>
            refine .io (hloses.after hreads) (hbelow _ ?_)
            simp only [headerSize, tokenWireSize] at hlong ⊢
            omega
      · rename_i token es₂ heq₂
        rw [heq₂] at htoken
        obtain ⟨hsize, hreads₂⟩ : token.length = tokenWireSize ∧ Reads es₁ token es₂ := by
          cases htoken with
          | ok hlength hreads => exact ⟨hlength, hreads⟩
        have hreads₂' := hreads.trans hreads₂
        have hmethod := readExact_spec 1 es₂
        split
        · rename_i e es₃ heq₃
          rw [heq₃] at hmethod
          cases hmethod with
          | error hloses =>
              refine .io (hloses.after hreads₂') (hbelow _ ?_)
              rw [List.length_append, hfour, hsize]
              simp only [headerSize, tokenWireSize] at hlong ⊢
              omega
        · rename_i methodId es₃ heq₃
          rw [heq₃] at hmethod
          obtain ⟨hone, hreads₃⟩ : methodId.length = 1 ∧ Reads es₂ methodId es₃ := by
            cases hmethod with
            | ok hlength hreads => exact ⟨hlength, hreads⟩
          obtain ⟨m, rfl⟩ := List.length_eq_one_iff.mp hone
          have hreads₃' := hreads₂'.trans hreads₃
          have hpayload := readExact_spec (ofLeBytes lenBytes - headerSize) es₃
          split
          · rename_i e es₄ heq₄
            rw [heq₄] at hpayload
            cases hpayload with
            | error hloses =>
                refine .io (hloses.after hreads₃') (hbelow _ ?_)
                rw [List.length_append, List.length_append, hfour, hsize]
                simp only [headerSize, tokenWireSize, List.length_singleton] at hlong ⊢
                omega
          · rename_i payload es₄ heq₄
            rw [heq₄] at hpayload
            cases hpayload with
            | ok hlength hreads₄ =>
                have hframeLen : headerSize + payload.length = ofLeBytes lenBytes := by
                  rw [hlength]
                  omega
                have hbytes : Frame.bytes ⟨token, m, payload⟩ =
                    lenBytes ++ token ++ [m] ++ payload := by
                  rw [Frame.bytes, hframeLen, ← hfour, leBytes_ofLeBytes, List.append_assoc,
                    List.append_assoc]
                have hlt := ofLeBytes_lt lenBytes
                refine .ok ⟨hsize, ?_⟩ (hbytes ▸ hreads₃'.trans hreads₄)
                rw [hframeLen]
                rw [hfour] at hlt
                exact hlt

variable {es rest : ByteEvents}

/-- A frame that arrives without a time-out is read. -/
theorem readFrame_of_begins (hf : f.WellFormed) (hbegins : f.bytes <+: values es)
    (hquiet : timeouts es = []) : ∃ rest, readFrame es = (.ok f, rest) := by
  have hspec := readFrame_spec es
  rcases hread : readFrame es with ⟨result, rest⟩
  rw [hread] at hspec
  cases hspec with
  | @ok g _ hg hreads =>
      obtain ⟨tail, htail⟩ := hbegins
      obtain ⟨rfl, -⟩ := Frame.bytes_append_inj hf hg (htail.trans hreads.values_eq)
      exact ⟨rest, rfl⟩
  | @io e _ n hloses hbelow =>
      have hle := hbelow f hf hbegins
      cases e with
      | timedOut =>
          obtain ⟨lost, -, -, htimeouts⟩ := hloses
          rw [hquiet] at htimeouts
          cases htimeouts
      | unexpectedEof =>
          have := hloses.1
          have := hbegins.length_le
          omega
  | tooShort hnone => exact absurd hbegins (hnone f hf)

/-! ### The connection loop -/

/-- What a reader still has before it: bytes and time-outs. -/
def remaining (es : ByteEvents) : ℕ := (values es).length + (timeouts es).length

/-- A frame that is read leaves less to read. -/
theorem remaining_of_ok (h : readFrame es = (.ok f, rest)) : remaining rest < remaining es := by
  have hspec := readFrame_spec es
  rw [h] at hspec
  cases hspec with
  | ok hf hreads =>
      have := hf.pos
      rw [remaining, remaining, hreads.values_eq, hreads.timeouts_eq, List.length_append,
        List.length_map]
      omega

/-- So does a time-out. -/
theorem remaining_of_timedOut (h : readFrame es = (.error (.io .timedOut), rest)) :
    remaining rest < remaining es := by
  have hspec := readFrame_spec es
  rw [h] at hspec
  cases hspec with
  | io hloses _ =>
      obtain ⟨lost, -, hvalues, htimeouts⟩ := hloses
      rw [remaining, remaining, hvalues, htimeouts, List.length_append, List.length_cons,
        List.length_map]
      omega

/-- The frames that the connection loop reads. After a time-out it goes on; any other error
ends it. What is done with a frame reads nothing. -/
def receiveFrames (es : ByteEvents) : List Frame :=
  match _h : readFrame es with
  | (.ok f, rest) => f :: receiveFrames rest
  | (.error (.io .timedOut), rest) => receiveFrames rest
  | (.error (.io .unexpectedEof), _) => []
  | (.error .tooShort, _) => []
termination_by remaining es
decreasing_by
  · exact remaining_of_ok _h
  · exact remaining_of_timedOut _h

theorem receiveFrames_of_ok (h : readFrame es = (.ok f, rest)) :
    receiveFrames es = f :: receiveFrames rest := by
  rw [receiveFrames]
  split <;> simp_all

theorem receiveFrames_of_timedOut (h : readFrame es = (.error (.io .timedOut), rest)) :
    receiveFrames es = receiveFrames rest := by
  rw [receiveFrames]
  split <;> simp_all

theorem receiveFrames_of_eof (h : readFrame es = (.error (.io .unexpectedEof), rest)) :
    receiveFrames es = [] := by
  rw [receiveFrames]
  split <;> simp_all

theorem receiveFrames_of_tooShort (h : readFrame es = (.error .tooShort, rest)) :
    receiveFrames es = [] := by
  rw [receiveFrames]
  split <;> simp_all

/-- The position is between two of the frames, or before or after them. -/
def IsBoundary (fs : List Frame) (t : ℕ) : Prop :=
  ∃ k, t = ((fs.take k).flatMap Frame.bytes).length

theorem isBoundary_zero (fs : List Frame) : IsBoundary fs 0 := ⟨0, rfl⟩

variable {fs : List Frame}

theorem IsBoundary.cons {t : ℕ} (h : IsBoundary fs t) (f : Frame) :
    IsBoundary (f :: fs) (f.bytes.length + t) := by
  obtain ⟨k, rfl⟩ := h
  refine ⟨k + 1, ?_⟩
  rw [List.take_succ_cons, List.flatMap_cons, List.length_append]

/-- A position is within the first frame, or between two frames after it. -/
theorem IsBoundary.of_cons {t : ℕ} (h : IsBoundary (f :: fs) t) :
    t = 0 ∨ ∃ t', IsBoundary fs t' ∧ t = f.bytes.length + t' := by
  obtain ⟨k, rfl⟩ := h
  cases k with
  | zero => exact Or.inl rfl
  | succ k =>
      refine Or.inr ⟨_, ⟨k, rfl⟩, ?_⟩
      rw [List.take_succ_cons, List.flatMap_cons, List.length_append]

/-- Every time-out is between two of the frames. -/
def TimeoutsBetween (fs : List Frame) (es : ByteEvents) : Prop :=
  ∀ t ∈ timeouts es, IsBoundary fs t

/-- The frames have no more bytes than arrive, and as many only if every time-out is between two
of them. -/
structure Accounted (fs : List Frame) (es : ByteEvents) : Prop where
  length_le : (fs.flatMap Frame.bytes).length ≤ (values es).length
  between : (fs.flatMap Frame.bytes).length = (values es).length → TimeoutsBetween fs es

theorem accounted_nil (es : ByteEvents) : Accounted [] es := by
  refine ⟨Nat.zero_le _, fun heq t ht => ?_⟩
  have hle := le_length_of_mem_timeouts ht
  rw [← heq] at hle
  rw [Nat.le_zero.mp hle]
  exact isBoundary_zero []

/-- A time-out within a frame loses bytes, which no frame that is read has. The induction is on
the reads. -/
theorem accounted_receiveFrames (es : ByteEvents) : Accounted (receiveFrames es) es := by
  induction es using receiveFrames.induct with
  | case1 es f rest h ih =>
      have hspec := readFrame_spec es
      rw [h] at hspec
      rw [receiveFrames_of_ok h]
      cases hspec with
      | ok hf hreads =>
          have hlength : ((f :: receiveFrames rest).flatMap Frame.bytes).length =
              f.bytes.length + ((receiveFrames rest).flatMap Frame.bytes).length := by
            rw [List.flatMap_cons, List.length_append]
          have hvalues : (values es).length = f.bytes.length + (values rest).length := by
            rw [hreads.values_eq, List.length_append]
          refine ⟨?_, fun heq t ht => ?_⟩
          · rw [hlength, hvalues]
            exact Nat.add_le_add_left ih.length_le _
          · rw [hlength, hvalues] at heq
            rw [hreads.timeouts_eq] at ht
            obtain ⟨t', ht', rfl⟩ := List.mem_map.mp ht
            exact (ih.between (Nat.add_left_cancel heq) t' ht').cons f
  | case2 es rest h ih =>
      have hspec := readFrame_spec es
      rw [h] at hspec
      rw [receiveFrames_of_timedOut h]
      cases hspec with
      | io hloses _ =>
          obtain ⟨lost, -, hlost, htimeouts⟩ := hloses
          have hvalues : (values es).length = lost.length + (values rest).length := by
            rw [hlost, List.length_append]
          have hle := ih.length_le
          refine ⟨by omega, fun heq t ht => ?_⟩
          have hnone : lost.length = 0 := by omega
          rw [htimeouts, hnone] at ht
          rcases List.mem_cons.mp ht with rfl | ht
          · exact isBoundary_zero _
          · obtain ⟨t', ht', rfl⟩ := List.mem_map.mp ht
            rw [Nat.zero_add]
            exact ih.between (by omega) t' ht'
  | case3 es rest h =>
      rw [receiveFrames_of_eof h]
      exact accounted_nil es
  | case4 es rest h =>
      rw [receiveFrames_of_tooShort h]
      exact accounted_nil es

/-- If every time-out is between two frames, all frames are read. The induction is on the
reads. -/
theorem receiveFrames_eq (hfs : ∀ f ∈ fs, f.WellFormed)
    (hvalues : values es = fs.flatMap Frame.bytes) (hbetween : TimeoutsBetween fs es) :
    receiveFrames es = fs := by
  -- Where frames are left, the bytes begin with the first of them.
  have hfirst : ∀ {es : ByteEvents} {f : Frame} {fs : List Frame},
      values es = (f :: fs).flatMap Frame.bytes → f.bytes <+: values es := fun h =>
    ⟨_, (List.flatMap_cons.symm.trans h.symm)⟩
  induction es using receiveFrames.induct generalizing fs with
  | case1 es f rest h ih =>
      have hspec := readFrame_spec es
      rw [h] at hspec
      rw [receiveFrames_of_ok h]
      cases hspec with
      | ok hf hreads =>
          cases fs with
          | nil =>
              have hlength := congrArg List.length (hreads.values_eq.symm.trans hvalues)
              have hpos := hf.pos
              rw [List.length_append, List.flatMap_nil, List.length_nil] at hlength
              omega
          | cons f' fs =>
              have hbytes := hreads.values_eq.symm.trans hvalues
              rw [List.flatMap_cons] at hbytes
              obtain ⟨rfl, hrest⟩ :=
                Frame.bytes_append_inj hf (hfs f' List.mem_cons_self) hbytes
              refine congrArg (f :: ·) (ih (fun g hg => hfs g (List.mem_cons_of_mem _ hg)) hrest
                fun t ht => ?_)
              have hmem : f.bytes.length + t ∈ timeouts es := by
                rw [hreads.timeouts_eq]
                exact List.mem_map_of_mem ht
              rcases (hbetween _ hmem).of_cons with hzero | ⟨t', ht', heq⟩
              · have := hf.pos
                omega
              · rw [Nat.add_left_cancel heq]
                exact ht'
  | case2 es rest h ih =>
      have hspec := readFrame_spec es
      rw [h] at hspec
      rw [receiveFrames_of_timedOut h]
      cases hspec with
      | @io _ _ n hloses hbelow =>
          obtain ⟨lost, hlt, hlost, htimeouts⟩ := hloses
          have hboundary : IsBoundary fs lost.length :=
            hbetween _ (htimeouts ▸ List.mem_cons_self)
          have hnil : lost = [] := by
            cases fs with
            | nil =>
                obtain ⟨k, hk⟩ := hboundary
                rw [List.take_nil] at hk
                exact List.eq_nil_of_length_eq_zero hk
            | cons f fs =>
                have hle := hbelow f (hfs f List.mem_cons_self) (hfirst hvalues)
                rcases hboundary.of_cons with hzero | ⟨t', -, heq⟩
                · exact List.eq_nil_of_length_eq_zero hzero
                · omega
          subst hnil
          refine ih hfs (hlost.symm.trans hvalues) fun t ht => hbetween t ?_
          rw [htimeouts]
          refine List.mem_cons_of_mem _ (List.mem_map.mpr ⟨t, ht, ?_⟩)
          exact Nat.zero_add t
  | case3 es rest h =>
      have hspec := readFrame_spec es
      rw [h] at hspec
      rw [receiveFrames_of_eof h]
      cases hspec with
      | @io _ _ n hloses hbelow =>
          cases fs with
          | nil => rfl
          | cons f fs =>
              have hbegins := hfirst hvalues
              have hle := hbelow f (hfs f List.mem_cons_self) hbegins
              have := hbegins.length_le
              have := hloses.1
              omega
  | case4 es rest h =>
      have hspec := readFrame_spec es
      rw [h] at hspec
      rw [receiveFrames_of_tooShort h]
      cases hspec with
      | tooShort hnone =>
          cases fs with
          | nil => rfl
          | cons f fs => exact absurd (hfirst hvalues) (hnone f (hfs f List.mem_cons_self))

/-- Of the frames that are sent, all are read, and nothing else, exactly when every time-out is
between two of them. -/
theorem receiveFrames_eq_iff (hfs : ∀ f ∈ fs, f.WellFormed)
    (hvalues : values es = fs.flatMap Frame.bytes) :
    receiveFrames es = fs ↔ TimeoutsBetween fs es := by
  refine ⟨fun h => ?_, receiveFrames_eq hfs hvalues⟩
  have haccounted := accounted_receiveFrames es
  rw [h] at haccounted
  exact haccounted.between (congrArg List.length hvalues.symm)

/-! ### Responses -/

/-- The number of bytes of a response without its payload. -/
def responseHeaderSize : ℕ := 6

/-- The bytes of a response. The sum of the header and the payload is a `u32`. -/
def buildResponse (P : Platform) (r : Response) : Except Panic (List UInt8) := do
  let totalLen ← unsigned P 32 (responseHeaderSize + r.payload.length % 2 ^ 32)
  pure (leBytes 4 totalLen ++ [r.methodId, r.status] ++ r.payload)

end Ipc

end Weftik
