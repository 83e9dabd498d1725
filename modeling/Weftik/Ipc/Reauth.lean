import Weftik.Ipc.Connections

/-!
# Authentication After a Session Has Expired

A connection with a session refuses every authentication, whether the session has expired or
not. The session is given up only when a request comes whose token is valid and has the role of
the session while the session itself has expired. A client that has only the token of its
session cannot make that request, since the token expires with the session: its connection
refuses everything from then on.

## Main definitions

* `Ipc.Drops`: a request for which an expired session is given up.
* `Ipc.Served`: a connection after some requests, with the last session that it has opened and
  the requests since.
* `Ipc.Reauthenticates`: every authentication after the session has expired opens a new one.

## Main results

* `Ipc.reauthenticates_iff`: when this is so.
* `Ipc.stuck`: a connection that refuses everything.
-/

open Outcome

namespace Weftik

open HalValue

namespace Ipc

variable {P : Platform} {E : Type} {srv : IpcServer P E} {conn : ℕ}

/-! ### One request -/

/-- The request has a valid token with the role of the session, which has expired. -/
def Drops (srv : IpcServer P E) (s : SessionInfo) (r : Request E) : Prop :=
  r.frame.methodId ≠ Method.authRequest.id ∧ s.expiresAtMs < r.env.checkMs ∧
    ∃ roleByte, verifyWireToken srv.mac r.env.verifyMs r.frame.token = .ok roleByte ∧
      roleFromU8 roleByte = some s.role

/-- The request opens a session with the next number, its role and the full lifetime, and is
answered with nothing but successes. -/
def Reopens (srv : IpcServer P E) (conn : ℕ) (c : Connection) (r : Request E) : Prop :=
  ∃ next role, handleMessage srv r.env conn c r.engine r.subscriptions r.frame = .ok next ∧
    roleFromU8 (r.frame.payload.getD 4 0) = some role ∧
    next.connection.session = some ⟨c.nextSid, role, r.env.nowMs + tokenTtlMs role⟩ ∧
    ∀ answer ∈ next.responses, answer.status = statusOk

variable {s : SessionInfo} {r : Request E}

/-- The check of the token gives the session up exactly for such a request. -/
theorem checkToken_drops_iff :
    (∃ response, checkToken srv r.env (some s) r.frame = .error (response, none)) ↔
      Drops srv s r := by
  rw [Drops]
  by_cases hauth : r.frame.methodId = Method.authRequest.id
  · simp only [checkToken, if_pos hauth]
    exact ⟨by rintro ⟨_, ⟨⟩⟩, fun h => absurd hauth h.1⟩
  · simp only [checkToken, if_neg hauth]
    cases hverify : verifyWireToken srv.mac r.env.verifyMs r.frame.token with
    | error text => exact ⟨by rintro ⟨_, ⟨⟩⟩, by rintro ⟨_, _, _, ⟨⟩, _⟩⟩
    | ok roleByte =>
        by_cases hrole : roleFromU8 roleByte = some s.role
        · dsimp only
          rw [if_neg (not_not.mpr hrole)]
          by_cases hexpired : s.expiresAtMs < r.env.checkMs
          · rw [if_pos hexpired]
            exact ⟨fun _ => ⟨hauth, hexpired, roleByte, rfl, hrole⟩, fun _ => ⟨_, rfl⟩⟩
          · rw [if_neg hexpired]
            exact ⟨by rintro ⟨_, ⟨⟩⟩, fun h => absurd h.2.1 hexpired⟩
        · dsimp only
          rw [if_pos hrole]
          refine ⟨by rintro ⟨_, ⟨⟩⟩, ?_⟩
          rintro ⟨-, -, _, h, hsame⟩
          exact absurd (Except.ok.inj h ▸ hsame) hrole

variable {c : Connection}

/-- A message on a connection with a session: the session is given up for such a request, and
kept for any other. -/
theorem handleMessage_drops_iff {next : Handled E} (hc : c.session = some s)
    (h : handleMessage srv r.env conn c r.engine r.subscriptions r.frame = .ok next) :
    (next.connection.session = none ↔ Drops srv s r) ∧
      (¬Drops srv s r → next.connection.session = some s) := by
  have hiff : next.connection.session = none ↔ Drops srv s r := by
    rw [← checkToken_drops_iff]
    rw [handleMessage, hc] at h
    cases hcheck : checkToken srv r.env (some s) r.frame with
    | error p =>
        obtain ⟨response, session⟩ := p
        rw [hcheck] at h
        obtain rfl := Except.ok.inj h
        constructor
        · rintro rfl
          exact ⟨response, rfl⟩
        · rintro ⟨_, heq⟩
          exact (Prod.mk.inj (Except.error.inj heq)).2
    | ok u =>
        rw [hcheck] at h
        obtain ⟨outcome, -, rfl⟩ := map_eq_ok h
        refine ⟨fun hend => ?_, by rintro ⟨_, ⟨⟩⟩⟩
        cases outcome with
        | refused response | served response engine subs =>
            exact absurd (hc.symm.trans hend) (Option.some_ne_none s)
        | opened session responses => cases hend
  refine ⟨hiff, fun hnot => ?_⟩
  rcases handleMessage_session hc h with hkeep | hend
  · exact hkeep
  · exact absurd (hiff.mp hend) hnot

/-- Without a session, an authentication that passes its checks opens one. -/
theorem reopens_of_noSession (hc : c.session = none) (h : r.OpensSession srv) :
    Reopens srv conn c r := by
  have hcheck : checkToken srv r.env c.session r.frame = .ok () := by rw [hc]; rfl
  obtain ⟨hmethod, hlength, role, uid, hrole, hcred, hmem⟩ := h
  let session : SessionInfo := ⟨c.nextSid, role, r.env.nowMs + tokenTtlMs role⟩
  let response := buildOkResponse Method.authRequest.id (session.token srv.mac)
  have hopen : handleAuth srv r.env c.nextSid r.frame.payload = .ok (session, response) := by
    rw [handleAuth, if_neg (not_lt.mpr hlength)]
    simp only [hrole, hcred, ne_eq, not_true_eq_false, if_false]
    rw [if_neg (not_not.mpr hmem)]
  have hmessage : handleMessage srv r.env conn c r.engine r.subscriptions r.frame =
      .ok (finish c r.engine r.subscriptions (.opened session [response, response])) := by
    simp only [handleMessage, hcheck, handleMethod, methodFromU8_eq_some.mpr hmethod, dispatch,
      authRequest, hopen]
    rfl
  refine ⟨_, role, hmessage, hrole, rfl, fun answer hanswer => ?_⟩
  rcases List.mem_cons.mp hanswer with rfl | hanswer
  · rfl
  · rw [List.mem_singleton.mp hanswer]
    rfl

/-- With a session, every authentication is refused. -/
theorem handleMessage_occupied (hc : c.session = some s)
    (hauth : r.frame.methodId = Method.authRequest.id) :
    handleMessage srv r.env conn c r.engine r.subscriptions r.frame =
      .ok ⟨c, r.engine, r.subscriptions,
        [buildErrorResponse Method.authRequest.id "already authenticated"]⟩ := by
  obtain ⟨session, nextSid⟩ := c
  obtain rfl : session = some s := hc
  simp only [handleMessage, checkToken, if_pos hauth]

/-! ### A connection -/

/-- The last session that a connection has opened, with the requests since, after one more
request. -/
def lastSession (c : Connection) (r : Request E) (next : Connection)
    (last : Option (SessionInfo × List (Request E))) : Option (SessionInfo × List (Request E)) :=
  match c.session, next.session with
  | none, some s => some (s, [])
  | _, _ => last.map fun p => (p.1, p.2 ++ [r])

/-- The connection after some requests, with the last session that it has opened and the
requests since then. -/
inductive Served (srv : IpcServer P E) (conn : ℕ) :
    List (Request E) → Connection → Option (SessionInfo × List (Request E)) → Prop
  | start : Served srv conn [] .new none
  | message {requests : List (Request E)} {c : Connection}
      {last : Option (SessionInfo × List (Request E))} {r : Request E} {next : Handled E} :
      Served srv conn requests c last →
        handleMessage srv r.env conn c r.engine r.subscriptions r.frame = .ok next →
        Served srv conn (requests ++ [r]) next.connection (lastSession c r next.connection last)

/-- The last session is there as long as no request has dropped it. -/
def Lasts (srv : IpcServer P E) (c : Connection) :
    Option (SessionInfo × List (Request E)) → Prop
  | none => c.session = none
  | some (s, since) =>
      c.session = some s ∧ (∀ r ∈ since, ¬Drops srv s r) ∨
        c.session = none ∧ ∃ r ∈ since, Drops srv s r

variable {last : Option (SessionInfo × List (Request E))}

/-- One more request. -/
theorem Lasts.message {next : Handled E} (h : Lasts srv c last)
    (hmessage : handleMessage srv r.env conn c r.engine r.subscriptions r.frame = .ok next) :
    Lasts srv next.connection (lastSession c r next.connection last) := by
  cases hc : c.session with
  | none =>
      cases hnext : next.connection.session with
      | some s =>
          have hlast : lastSession c r next.connection last = some (s, []) := by
            simp only [lastSession, hc, hnext]
          rw [hlast]
          exact Or.inl ⟨hnext, List.forall_mem_nil _⟩
      | none =>
          have hlast : lastSession c r next.connection last =
              last.map fun p => (p.1, p.2 ++ [r]) := by
            simp only [lastSession, hc, hnext]
          rw [hlast]
          cases last with
          | none => exact hnext
          | some p =>
              rcases h with ⟨hsome, -⟩ | ⟨-, d, hd, hdrops⟩
              · rw [hc] at hsome
                cases hsome
              · exact Or.inr ⟨hnext, d, List.mem_append_left _ hd, hdrops⟩
  | some s =>
      have hlast : lastSession c r next.connection last =
          last.map fun p => (p.1, p.2 ++ [r]) := by
        simp only [lastSession, hc]
      rw [hlast]
      cases last with
      | none =>
          rw [h] at hc
          cases hc
      | some p =>
          rcases h with ⟨hsome, hnone⟩ | ⟨hnone, -⟩
          · obtain ⟨hiff, hkeep⟩ := handleMessage_drops_iff hsome hmessage
            have hlatest : r ∈ p.2 ++ [r] := List.mem_append_right _ (List.mem_singleton.mpr rfl)
            by_cases hdrops : Drops srv p.1 r
            · exact Or.inr ⟨hiff.mpr hdrops, r, hlatest, hdrops⟩
            · refine Or.inl ⟨hkeep hdrops, fun d hd => ?_⟩
              rcases List.mem_append.mp hd with hd | hd
              · exact hnone d hd
              · rwa [List.mem_singleton.mp hd]
          · rw [hc] at hnone
            cases hnone

theorem Served.lasts {requests : List (Request E)} (h : Served srv conn requests c last) :
    Lasts srv c last := by
  induction h with
  | start => rfl
  | message _ hmessage ih => exact ih.message hmessage

/-- An authentication that passes its checks opens a new session after the last one exactly when
a request has dropped that one. -/
theorem Served.reopens_iff {requests since : List (Request E)}
    (h : Served srv conn requests c (some (s, since))) (hopens : r.OpensSession srv) :
    Reopens srv conn c r ↔ ∃ d ∈ since, Drops srv s d := by
  rcases h.lasts with ⟨hsome, hnone⟩ | ⟨hnone, hdropped⟩
  · refine iff_of_false ?_ fun ⟨d, hd, hdrops⟩ => hnone d hd hdrops
    rintro ⟨next, role, hnext, -, -, hanswers⟩
    rw [handleMessage_occupied hsome hopens.1] at hnext
    obtain rfl := Except.ok.inj hnext
    exact absurd (hanswers _ (List.mem_singleton.mpr rfl)) (by decide)
  · exact iff_of_true (reopens_of_noSession hnone hopens) hdropped

/-- In a run of a connection, every authentication that passes its checks after the last session
has expired opens a new session. -/
def Reauthenticates (srv : IpcServer P E) (conn : ℕ) (requests : List (Request E)) : Prop :=
  ∀ before r after, requests = before ++ r :: after → ∀ c s since,
    Served srv conn before c (some (s, since)) → s.expiresAtMs < r.env.verifyMs →
      r.OpensSession srv → Reopens srv conn c r

/-- In a run of a connection, a request drops the last session before each authentication that
passes its checks after that session has expired. -/
def DroppedBefore (srv : IpcServer P E) (conn : ℕ) (requests : List (Request E)) : Prop :=
  ∀ before r after, requests = before ++ r :: after → ∀ c s since,
    Served srv conn before c (some (s, since)) → s.expiresAtMs < r.env.verifyMs →
      r.OpensSession srv → ∃ d ∈ since, Drops srv s d

/-- A run of a connection reauthenticates exactly when the expired sessions are dropped. -/
theorem reauthenticates_iff (srv : IpcServer P E) (conn : ℕ) (requests : List (Request E)) :
    Reauthenticates srv conn requests ↔ DroppedBefore srv conn requests := by
  constructor
  · intro h before r after heq c s since hserved hexpired hopens
    exact (hserved.reopens_iff hopens).mp (h before r after heq c s since hserved hexpired hopens)
  · intro h before r after heq c s since hserved hexpired hopens
    exact (hserved.reopens_iff hopens).mpr (h before r after heq c s since hserved hexpired hopens)

/-! ### A client with the token of its session -/

/-- The token of an expired session is refused. -/
theorem verifyWireToken_expired {nowMs : ℕ} (hrange : s.expiresAtMs < 2 ^ 64)
    (hexpired : s.expiresAtMs < nowMs) (mac : List UInt8 → List UInt8) :
    ∃ text, verifyWireToken mac nowMs (s.token mac) = .error text := by
  have hexpiry : (s.token mac).extract 9 17 = leBytes 8 s.expiresAtMs := by
    have htoken : s.token mac = (leBytes 8 s.sessionId.toNat ++ [roleToU8 s.role]) ++
        (leBytes 8 s.expiresAtMs ++ (mac s.body ++ List.replicate 15 0)) := by
      simp only [SessionInfo.token, buildWireToken, tokenBody, SessionInfo.body,
        List.append_assoc]
    have hlength : (leBytes 8 s.sessionId.toNat ++ [roleToU8 s.role]).length = 9 := by
      rw [List.length_append, length_leBytes]
      rfl
    have hmiddle := extract_middle _ (leBytes 8 s.expiresAtMs)
      (mac s.body ++ List.replicate 15 0) hlength
    rw [length_leBytes] at hmiddle
    rw [htoken]
    exact hmiddle
  rw [verifyWireToken]
  split
  · exact ⟨_, rfl⟩
  · rw [hexpiry, ofLeBytes_leBytes_of_lt hrange, if_pos hexpired]
    exact ⟨_, rfl⟩

/-- A request that is an authentication or has the token of the expired session is refused, and
changes nothing. -/
theorem handleMessage_expired (hc : c.session = some s) (hrange : s.expiresAtMs < 2 ^ 64)
    (hexpired : s.expiresAtMs < r.env.verifyMs)
    (hown : r.frame.methodId = Method.authRequest.id ∨ r.frame.token = s.token srv.mac) :
    ∃ answer, answer.status = statusError ∧
      handleMessage srv r.env conn c r.engine r.subscriptions r.frame =
        .ok ⟨c, r.engine, r.subscriptions, [answer]⟩ := by
  by_cases hauth : r.frame.methodId = Method.authRequest.id
  · exact ⟨_, rfl, handleMessage_occupied hc hauth⟩
  · obtain ⟨text, htext⟩ := verifyWireToken_expired hrange hexpired srv.mac
    have htoken := hown.resolve_left hauth
    obtain ⟨session, nextSid⟩ := c
    obtain rfl : session = some s := hc
    refine ⟨buildErrorResponse r.frame.methodId ("auth: " ++ text), rfl, ?_⟩
    simp only [handleMessage, checkToken, if_neg hauth, htoken, htext]

/-- A connection whose session has expired refuses every authentication and every request with
the token of its session, for ever. -/
theorem stuck (srv : IpcServer P E) (conn : ℕ) (hc : c.session = some s)
    (hrange : s.expiresAtMs < 2 ^ 64) {requests : List (Request E)}
    (hexpired : ∀ r ∈ requests, s.expiresAtMs < r.env.verifyMs)
    (hown : ∀ r ∈ requests, r.frame.methodId = Method.authRequest.id ∨
        r.frame.token = s.token srv.mac) :
    (serve srv conn c requests).length = requests.length ∧
      ∀ answers ∈ serve srv conn c requests,
        ∃ answer, answers = [answer] ∧ answer.status = statusError := by
  induction requests with
  | nil => exact ⟨rfl, List.forall_mem_nil _⟩
  | cons r requests ih =>
      obtain ⟨answer, hstatus, hmessage⟩ : ∃ answer, answer.status = statusError ∧
          handleMessage srv r.env conn c r.engine r.subscriptions r.frame =
            .ok ⟨c, r.engine, r.subscriptions, [answer]⟩ :=
        handleMessage_expired hc hrange (hexpired r List.mem_cons_self)
          (hown r List.mem_cons_self)
      obtain ⟨hlength, hall⟩ := ih (fun r hr => hexpired r (List.mem_cons_of_mem _ hr))
        fun r hr => hown r (List.mem_cons_of_mem _ hr)
      rw [serve, hmessage]
      refine ⟨congrArg Nat.succ hlength, ?_⟩
      rw [List.forall_mem_cons]
      exact ⟨⟨answer, rfl, hstatus⟩, hall⟩

/-- The authentication of an engineer, after the hour for which its session lasts. -/
theorem expired_session_refuses :
    ¬ ∀ (P : Platform) (E : Type) (srv : IpcServer P E) (conn : ℕ) (requests : List (Request E)),
      Reauthenticates srv conn requests := by
  intro h
  let first : Request Unit := ⟨engineerRequest, envAt 0, (), fun _ => []⟩
  let second : Request Unit := ⟨engineerRequest, envAt 3600001, (), fun _ => []⟩
  have hstart : Served idleServer 0 [] .new none := .start
  have hopened := hstart.message (r := first) rfl
  obtain ⟨d, hd, -⟩ := (hopened.reopens_iff (r := second) ⟨rfl, by decide, .engineer,
      1000, rfl, rfl,
      by decide⟩).mp
    (h _ _ idleServer 0 [first, second] [first] second [] rfl _ _ _ hopened (by decide)
      ⟨rfl, by decide, .engineer, 1000, rfl, rfl, by decide⟩)
  cases hd

/-- An engineer authenticates again after an hour. -/
theorem stuck_engineer :
    ∃ answers, serve idleServer 0 ⟨some ⟨1, .engineer, 3600000⟩, 2⟩
        [⟨engineerRequest, envAt 3600001, (), fun _ => []⟩] = answers ∧ answers.length = 1 ∧
      ∀ written ∈ answers, ∃ answer, written = [answer] ∧ answer.status = statusError :=
  ⟨_, rfl, stuck idleServer 0 rfl (by decide) (by simp [envAt]) (by simp [engineerRequest])⟩

end Ipc

end Weftik
