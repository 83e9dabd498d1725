import Weftik.Ipc.Pairing
import Weftik.Lib.Transition

/-!
# Connections and Their Sessions

Any number of connections share one engine and one table of subscriptions, and each has its
own session and its own counter of sessions, which starts at 1. The check of a token asks
for a valid signature and for the role of the session, and not for the session that the
token names: so the token of one session is taken on every connection with a session of
the same role. Under the assumption that signatures are not forged, this is the only way
to use a token that is not one's own.

## Main definitions

* `Ipc.ServerState`, `Ipc.IpcEvent`, `Ipc.step`: the connections as a transition system.
* `Ipc.Executes`: a request is let through to its operation.
* `Ipc.Secure`: what is expected of a request.
* `Ipc.Unforged`, `Ipc.OwnToken`: the assumption, and the condition.

## Main results

* `Ipc.Executes.session`: a request that is let through has passed every check.
* `Ipc.ownToken_run_secure`: the property along every run that meets the condition.
-/

open Outcome Transition

namespace Weftik

open HalValue

namespace Ipc

variable {P : Platform} {E : Type}

/-! ### The transition system -/

/-- The server. `issued` and `subscribed` are ghost fields: the sessions that have been
opened, with their connections, and the signals that each connection has subscribed to
and not unsubscribed from since. -/
structure ServerState (E : Type) where
  connections : ℕ → Option Connection
  accepted : ℕ
  engine : E
  subscriptions : Subscriptions
  issued : List (ℕ × SessionInfo)
  subscribed : ℕ → String → Bool

/-- A client connects, sends a message or disconnects, or another thread has worked on the
engine. -/
inductive IpcEvent (E : Type)
  | accept
  | message (conn : ℕ) (env : Env) (frame : Frame)
  | disconnect (conn : ℕ)
  | work (engine : E)

namespace ServerState

/-- The server before the first connection. -/
def new (engine : E) : ServerState E where
  connections _ := none
  accepted := 0
  engine := engine
  subscriptions _ := []
  issued := []
  subscribed _ _ := false

/-- The thread of a connection has ended. The subscriptions stay: the clean-up is in the
body of the message loop. -/
def disconnect (s : ServerState E) (conn : ℕ) : ServerState E :=
  { s with
    connections := Function.update s.connections conn none
    subscribed := Function.update s.subscribed conn fun _ => false }

/-- The sessions that have been opened, after a message. -/
def issuedAfter (s : ServerState E) (conn : ℕ) (c : Connection) (h : Handled E) :
    List (ℕ × SessionInfo) :=
  match c.session, h.connection.session with
  | none, some session => (conn, session) :: s.issued
  | _, _ => s.issued

/-- The signals that each connection is subscribed to, after a message: a subscription
begins and ends with the success of the request for it. -/
def subscribedAfter (srv : IpcServer P E) (s : ServerState E) (conn : ℕ) (frame : Frame)
    (h : Handled E) (c : ℕ) (name : String) : Bool :=
  let done := h.responses.all (·.status = statusOk)
  let named := decide (c = conn ∧ name = srv.lossy frame.payload)
  match methodFromU8 frame.methodId with
  | some .subscribeSignal => s.subscribed c name || (done && named)
  | some .unsubscribeSignal => s.subscribed c name && !(done && named)
  | _ => s.subscribed c name

end ServerState

/-- One step; `none` when there is no such connection. A panic ends the connection. -/
def step (srv : IpcServer P E) (s : ServerState E) : IpcEvent E → Option (ServerState E)
  | .accept =>
      some { s with
        connections := Function.update s.connections s.accepted (some .new)
        accepted := s.accepted + 1 }
  | .message conn env frame =>
      (s.connections conn).map fun c =>
        match handleMessage srv env conn c s.engine s.subscriptions frame with
        | .error _ => s.disconnect conn
        | .ok h =>
            { s with
              connections := Function.update s.connections conn (some h.connection)
              engine := h.engine
              subscriptions := h.subscriptions
              issued := s.issuedAfter conn c h
              subscribed := s.subscribedAfter srv conn frame h }
  | .disconnect conn => (s.connections conn).map fun _ => s.disconnect conn
  | .work engine => some { s with engine := engine }

/-! ### The property and its condition -/

/-- The methods that change the engine. -/
def Method.mutates : Method → Bool
  | .configCommand | .writeSignal | .loadProgram | .loadHalConfig | .pause | .resume
  | .stepCycle | .setBreakpoint | .clearBreakpoint | .prepareSwap | .commitSwap
  | .rollbackSwap | .deployHmiLayout => true
  | _ => false

/-- The roles that a method is permitted to. -/
def Method.permits (m : Method) (role : Option Role) : Bool :=
  match m with
  | .authRequest => true
  | .writeSignal => canWrite role
  | _ => if m.mutates then canConfig role else canRead role

/-- The request is let through to the operation of its method. -/
def Executes (srv : IpcServer P E) (s : ServerState E) (conn : ℕ) (env : Env)
    (frame : Frame) (m : Method) : Prop :=
  ∃ c, s.connections conn = some c ∧ checkToken srv env c.session frame = .ok () ∧
    frame.methodId = m.id ∧
    ∃ response engine subs,
      dispatch srv env conn c s.engine s.subscriptions m frame.payload =
        .ok (.served response engine subs)

/-- What is expected of a request. An operation that changes the engine is executed only
for a session of the connection, which was opened there and has not expired, with the token
of that session, and with a role that permits it; and the token of another connection
opens no operation. -/
structure Secure (srv : IpcServer P E) (s : ServerState E) (conn : ℕ) (env : Env)
    (frame : Frame) : Prop where
  authorized : ∀ m, m.mutates = true → Executes srv s conn env frame m →
    ∃ c session, s.connections conn = some c ∧ c.session = some session ∧
      (conn, session) ∈ s.issued ∧ env.checkMs ≤ session.expiresAtMs ∧
      frame.token = session.token srv.mac ∧ m.permits (some session.role) = true
  foreign : ∀ other session, other ≠ conn → (other, session) ∈ s.issued →
    frame.token = session.token srv.mac →
    ∀ m, m ≠ .authRequest → ¬ Executes srv s conn env frame m

/-- Every request is as expected. -/
def SecureStep (srv : IpcServer P E) (s : ServerState E) : IpcEvent E → Prop
  | .message conn env frame => Secure srv s conn env frame
  | _ => True

/-- The signed part of the token of a session. -/
def SessionInfo.body (session : SessionInfo) : List UInt8 :=
  tokenBody session.sessionId (roleToU8 session.role) session.expiresAtMs

/-- Signatures are not forged: what a valid signature signs has been issued. -/
def Unforged (srv : IpcServer P E) (s : ServerState E) : IpcEvent E → Prop
  | .message _ _ frame =>
      srv.mac (claimedBody frame.token) = frame.token.extract 17 49 →
        ∃ p ∈ s.issued, claimedBody frame.token = p.2.body
  | _ => True

instance (srv : IpcServer P E) (s : ServerState E) (e : IpcEvent E) :
    Decidable (Unforged srv s e) :=
  match e with
  | .message _ _ _ => inferInstanceAs (Decidable (_ → _))
  | .accept | .disconnect _ | .work _ => isTrue trivial

/-- The condition on a request: a valid token with the role of the session ends in the
fifteen zeros, and what it signs was issued to this session and to no other. -/
def OwnToken (srv : IpcServer P E) (s : ServerState E) : IpcEvent E → Bool
  | .message conn env frame =>
      match (s.connections conn).bind Connection.session,
        verifyWireToken srv.mac env.verifyMs frame.token with
      | some session, .ok roleByte =>
          decide (roleFromU8 roleByte = some session.role →
            frame.token.drop 49 = List.replicate 15 0 ∧
              ∀ p ∈ s.issued, claimedBody frame.token = p.2.body → p = (conn, session))
      | _, _ => true
  | _ => true

/-! ### Tokens -/

theorem length_tokenBody (sessionId : UInt64) (role : UInt8) (expiresAtMs : ℕ) :
    (tokenBody sessionId role expiresAtMs).length = 17 := by
  simp [tokenBody]

/-- The bytes of a field of eight bytes. -/
theorem leBytes_field {bytes : List UInt8} (h : bytes.length = 8) :
    leBytes 8 (ofLeBytes bytes) = bytes := by
  rw [← h, leBytes_ofLeBytes]

/-- What a token claims is its first seventeen bytes. -/
theorem claimedBody_eq_take {token : List UInt8} (h : 17 ≤ token.length) :
    claimedBody token = token.take 17 := by
  have hid : (token.extract 0 8).length = 8 := by simp; omega
  have hexpiry : (token.extract 9 17).length = 8 := by simp; omega
  have hlt : ofLeBytes (token.extract 0 8) < 2 ^ 64 := by
    have hbound := ofLeBytes_lt (token.extract 0 8)
    rw [hid] at hbound
    exact hbound
  have hnat : (UInt64.ofNat (ofLeBytes (token.extract 0 8))).toNat =
      ofLeBytes (token.extract 0 8) := by
    rw [UInt64.toNat_ofNat', Nat.mod_eq_of_lt hlt]
  rw [claimedBody, tokenBody, hnat, leBytes_field hid, leBytes_field hexpiry]
  have hat : token[8]? = some (token.getD 8 0) := by
    rw [List.getD_eq_getElem?_getD, List.getElem?_eq_getElem (by omega)]
    rfl
  have hsucc : token.take (8 + 1) = token.take 8 ++ [token.getD 8 0] := by
    rw [List.take_add_one, hat]
    rfl
  have htake : token.take (9 + 8) = token.take (8 + 1) ++ (token.drop 9).take 8 :=
    List.take_add
  rw [List.extract_eq_take_drop, List.extract_eq_take_drop, List.drop_zero]
  exact (htake.trans (congrArg (· ++ _) hsucc)).symm

/-- A token is its signed part, its signature and its padding. -/
theorem token_eq_append {token : List UInt8} (h : 64 ≤ token.length) :
    token = claimedBody token ++ token.extract 17 49 ++ token.drop 49 := by
  have hrest : (token.drop 17).drop 32 = token.drop 49 := List.drop_drop
  rw [claimedBody_eq_take (by omega), List.append_assoc, List.extract_eq_take_drop, ← hrest,
    List.take_append_drop, List.take_append_drop]

/-- What the token of a session claims. -/
theorem claimedBody_token (session : SessionInfo) (mac : List UInt8 → List UInt8) :
    claimedBody (session.token mac) = session.body := by
  have hlen : session.body.length = 17 := length_tokenBody _ _ _
  have htoken : session.token mac = session.body ++ (mac session.body ++ List.replicate 15 0) :=
    List.append_assoc _ _ _
  rw [claimedBody_eq_take (by rw [htoken, List.length_append]; omega), htoken, ← hlen,
    List.take_left]

/-- A token that passes the check. -/
theorem verifyWireToken_ok {mac : List UInt8 → List UInt8} {nowMs : ℕ} {token : List UInt8}
    {roleByte : UInt8} (h : verifyWireToken mac nowMs token = .ok roleByte) :
    64 ≤ token.length ∧ mac (claimedBody token) = token.extract 17 49 := by
  rw [verifyWireToken] at h
  split at h
  · cases h
  · rename_i hlen
    split at h
    · cases h
    · split at h
      · cases h
      · rename_i hmac
        exact ⟨not_lt.mp hlen, not_not.mp hmac⟩

/-! ### A request that is let through -/

/-- What the check of the token has found, on a connection with a session. -/
theorem checkToken_ok {srv : IpcServer P E} {env : Env} {session : SessionInfo} {frame : Frame}
    (h : checkToken srv env (some session) frame = .ok ()) :
    frame.methodId ≠ Method.authRequest.id ∧ env.checkMs ≤ session.expiresAtMs ∧
      ∃ roleByte, verifyWireToken srv.mac env.verifyMs frame.token = .ok roleByte ∧
        roleFromU8 roleByte = some session.role := by
  simp only [checkToken] at h
  split at h
  · cases h
  · rename_i hauth
    cases hverify : verifyWireToken srv.mac env.verifyMs frame.token with
    | error text => rw [hverify] at h; cases h
    | ok roleByte =>
        rw [hverify] at h
        dsimp only at h
        split at h
        · cases h
        · rename_i hrole
          split at h
          · cases h
          · rename_i hexpired
            exact ⟨hauth, not_lt.mp hexpired, roleByte, rfl, not_not.mp hrole⟩

/-- A branch behind the check of the role that comes to its end. -/
theorem ifAllowed_served {allowed : Option Role → Bool} {m : Method}
    {session : Option SessionInfo} {branch : Except Panic (Outcome E)} {response : Response}
    {engine : E} {subs : Subscriptions}
    (h : ifAllowed allowed m session branch = .ok (.served response engine subs)) :
    allowed (session.map SessionInfo.role) = true := by
  rw [ifAllowed] at h
  split at h
  · assumption
  · cases h

/-- A branch that comes to its end has passed the check of the role. -/
theorem dispatch_served {srv : IpcServer P E} {env : Env} {conn : ℕ} {c : Connection} {e : E}
    {subs : Subscriptions} {m : Method} {payload : List UInt8} {response : Response}
    {engine : E} {subs' : Subscriptions}
    (h : dispatch srv env conn c e subs m payload = .ok (.served response engine subs')) :
    m.permits (c.session.map SessionInfo.role) = true := by
  cases m with
  | authRequest => rfl
  | _ => exact ifAllowed_served h

variable {srv : IpcServer P E} {s t : ServerState E} {conn : ℕ} {env : Env} {frame : Frame}
  {m : Method}

/-- A request that is let through, other than an authentication, is one of a session and has
passed every check. -/
theorem Executes.session (h : Executes srv s conn env frame m) (hm : m ≠ .authRequest) :
    ∃ c session roleByte, s.connections conn = some c ∧ c.session = some session ∧
      env.checkMs ≤ session.expiresAtMs ∧
      verifyWireToken srv.mac env.verifyMs frame.token = .ok roleByte ∧
      roleFromU8 roleByte = some session.role ∧ m.permits (some session.role) = true := by
  obtain ⟨c, hc, hcheck, -, response, engine, subs, hserved⟩ := h
  cases hsession : c.session with
  | none =>
      rw [dispatch_noSession hsession hm] at hserved
      cases hserved
  | some session =>
      rw [hsession] at hcheck
      obtain ⟨-, hexpiry, roleByte, hverify, hrole⟩ := checkToken_ok hcheck
      have hpermits := dispatch_served hserved
      rw [hsession] at hpermits
      exact ⟨c, session, roleByte, hc, hsession, hexpiry, hverify, hrole, hpermits⟩

/-! ### The invariant of the sessions -/

/-- Every session was opened on its connection. -/
def Recorded (s : ServerState E) : Prop :=
  ∀ conn c session, s.connections conn = some c → c.session = some session →
    (conn, session) ∈ s.issued

theorem recorded_new (engine : E) : Recorded (ServerState.new engine) := by
  rintro conn c session ⟨⟩

/-- A connection that has been replaced in a server whose sessions are recorded. -/
theorem Recorded.update (h : Recorded s) {issued : List (ℕ × SessionInfo)}
    (hissued : s.issued ⊆ issued) {next : Option Connection}
    (hnext : ∀ c session, next = some c → c.session = some session → (conn, session) ∈ issued)
    (ht : t.connections = Function.update s.connections conn next) (hti : t.issued = issued) :
    Recorded t := by
  intro conn' c session hc hsession
  rw [ht] at hc
  rw [hti]
  by_cases hconn : conn' = conn
  · subst hconn
    rw [Function.update_self] at hc
    exact hnext c session hc hsession
  · rw [Function.update_of_ne hconn] at hc
    exact hissued (h conn' c session hc hsession)

/-- The result of a branch that neither opens a session nor changes the subscriptions. -/
inductive Plain (subs : Subscriptions) : Except Panic (Outcome E) → Prop
  | refused (methodId : UInt8) (msg : String) :
      Plain subs (.ok (.refused (buildErrorResponse methodId msg)))
  | served (response : Response) (e : E) : Plain subs (.ok (.served response e subs))
  | panic (p : Panic) : Plain subs (.error p)

section Branches

variable {e : E} {subs : Subscriptions} {payload : List UInt8}

theorem Plain.ifAllowed {allowed : Option Role → Bool} {session : Option SessionInfo}
    {branch : Except Panic (Outcome E)} (h : Plain subs branch) :
    Plain subs (ifAllowed allowed m session branch) := by
  rw [Ipc.ifAllowed]
  split
  · exact h
  · exact .refused _ _

theorem plain_writeSignal : Plain subs (writeSignalRequest srv env e subs payload) := by
  rw [writeSignalRequest]
  dsimp only
  split
  · exact .refused _ _
  · split
    · exact .refused _ _
    · split
      · exact .refused _ _
      · exact .served _ _

theorem plain_breakpoint {change : Executor P → ℕ → Executor P} :
    Plain subs (breakpointRequest srv m change e subs payload) := by
  rw [breakpointRequest]
  split
  · exact .refused _ _
  · split
    · exact .served _ _
    · exact .served _ _

theorem plain_readRegisters : Plain subs (readRegistersRequest srv e subs payload) := by
  unfold readRegistersRequest
  split
  · exact .refused _ _
  · rename_i idx rest
    split
    · exact .refused _ _
    · rename_i executor _
      cases executor.vm.readRegister idx.toNat with
      | ok value => exact .served _ _
      | error panic => exact .panic panic

/-- The branches of the methods other than authentication and the two requests about
subscriptions. -/
theorem dispatch_plain {c : Connection} (hauth : m ≠ .authRequest)
    (hsub : m ≠ .subscribeSignal) (hunsub : m ≠ .unsubscribeSignal) :
    Plain subs (dispatch srv env conn c e subs m payload) := by
  cases m with
  | authRequest => exact absurd rfl hauth
  | subscribeSignal => exact absurd rfl hsub
  | unsubscribeSignal => exact absurd rfl hunsub
  | writeSignal => exact plain_writeSignal.ifAllowed
  | setBreakpoint | clearBreakpoint => exact plain_breakpoint.ifAllowed
  | readRegisters => exact plain_readRegisters.ifAllowed
  | listBreakpoints =>
      refine Plain.ifAllowed ?_
      split
      · exact .refused _ _
      · exact .served _ _
  | deployHmiLayout =>
      refine Plain.ifAllowed ?_
      split
      · exact .refused _ _
      · exact .served _ _
  | _ => exact (Plain.served _ _).ifAllowed

/-- Only an authentication opens a session. -/
theorem dispatch_not_opened {c : Connection} (hauth : m ≠ .authRequest) (session : SessionInfo)
    (responses : List Response) :
    dispatch srv env conn c e subs m payload ≠ .ok (.opened session responses) := by
  intro h
  by_cases hsub : m = .subscribeSignal
  · subst hsub
    simp only [dispatch, Ipc.ifAllowed, subscribeRequest] at h
    split at h
    · split at h
      · cases h
      · split at h <;> cases h
    · cases h
  · by_cases hunsub : m = .unsubscribeSignal
    · subst hunsub
      simp only [dispatch, Ipc.ifAllowed, unsubscribeRequest] at h
      split at h
      · split at h <;> cases h
      · cases h
    · have hplain : Plain subs (dispatch srv env conn c e subs m payload) :=
        dispatch_plain hauth hsub hunsub
      rw [h] at hplain
      cases hplain

end Branches

/-- A token that fails the check is answered with an error, and leaves the session or ends
it. -/
theorem checkToken_error {session : Option SessionInfo} {p : Response × Option SessionInfo}
    (h : checkToken srv env session frame = .error p) :
    p.1.status = statusError ∧ (p.2 = session ∨ p.2 = none) := by
  cases session with
  | none => cases h
  | some session =>
      simp only [checkToken] at h
      split at h
      · cases h
        exact ⟨rfl, Or.inl rfl⟩
      · split at h
        · cases h
          exact ⟨rfl, Or.inl rfl⟩
        · split at h
          · cases h
            exact ⟨rfl, Or.inl rfl⟩
          · split at h
            · cases h
              exact ⟨rfl, Or.inr rfl⟩
            · cases h

/-- A message keeps the session of its connection or ends it, unless there was none. -/
theorem handleMessage_session {c : Connection} {e : E} {subs : Subscriptions} {h : Handled E}
    {session : SessionInfo} (hsession : c.session = some session)
    (hm : handleMessage srv env conn c e subs frame = .ok h) :
    h.connection.session = some session ∨ h.connection.session = none := by
  rw [handleMessage, hsession] at hm
  cases hcheck : checkToken srv env (some session) frame with
  | error p =>
      rw [hcheck] at hm
      obtain rfl := Except.ok.inj hm
      exact (checkToken_error hcheck).2
  | ok u =>
      rw [hcheck] at hm
      obtain ⟨outcome, hmethod, rfl⟩ := map_eq_ok hm
      cases outcome with
      | refused response => exact Or.inl hsession
      | served response e' subs' => exact Or.inl hsession
      | opened session' responses =>
          have hauth := (checkToken_ok hcheck).1
          rw [handleMethod] at hmethod
          split at hmethod
          · rename_i m' hm'
            refine absurd hmethod (dispatch_not_opened ?_ session' responses)
            rintro rfl
            exact hauth (methodFromU8_eq_some.mp hm')
          · cases hmethod

/-- A step keeps the sessions recorded. -/
theorem Recorded.step {e : IpcEvent E} (h : Recorded s) (hst : step srv s e = some t) :
    Recorded t := by
  cases e with
  | accept =>
      obtain rfl := Option.some.inj hst
      refine h.update (List.Subset.refl _) ?_ rfl rfl
      rintro c session ⟨⟩ ⟨⟩
  | work engine =>
      obtain rfl := Option.some.inj hst
      exact h
  | disconnect conn =>
      obtain ⟨c, -, rfl⟩ := Option.map_eq_some_iff.mp hst
      refine h.update (List.Subset.refl _) ?_ rfl rfl
      rintro c session ⟨⟩
  | message conn env frame =>
      obtain ⟨c, hc, rfl⟩ := Option.map_eq_some_iff.mp hst
      cases hm : handleMessage srv env conn c s.engine s.subscriptions frame with
      | error panic =>
          refine h.update (List.Subset.refl _) ?_ rfl rfl
          rintro c session ⟨⟩
      | ok next =>
          have hissued : s.issued ⊆ s.issuedAfter conn c next := by
            rw [ServerState.issuedAfter]
            split
            · exact List.subset_cons_self _ _
            · exact List.Subset.refl _
          refine h.update hissued ?_ rfl rfl
          rintro c' session ⟨⟩ hsession
          cases hold : c.session with
          | none =>
              simp only [ServerState.issuedAfter, hold, hsession]
              exact List.mem_cons_self
          | some session' =>
              refine hissued (h conn c session hc ?_)
              rcases handleMessage_session hold hm with hkeep | hend
              · rw [hold, ← hkeep, hsession]
              · rw [hend] at hsession
                cases hsession

/-! ### Requests and runs -/

/-- What the condition says of a token that passes the check. -/
theorem OwnToken.of_verify (h : OwnToken srv s (.message conn env frame) = true)
    {c : Connection} {session : SessionInfo} {roleByte : UInt8}
    (hc : s.connections conn = some c) (hsession : c.session = some session)
    (hverify : verifyWireToken srv.mac env.verifyMs frame.token = .ok roleByte)
    (hrole : roleFromU8 roleByte = some session.role) :
    frame.token.drop 49 = List.replicate 15 0 ∧
      ∀ p ∈ s.issued, claimedBody frame.token = p.2.body → p = (conn, session) := by
  simp only [OwnToken, hc, Option.bind_some, hsession, hverify] at h
  exact of_decide_eq_true h hrole

/-- A request that meets the condition, with sessions recorded and signatures not forged,
is as expected. -/
theorem Recorded.secure (h : Recorded s) (hunforged : Unforged srv s (.message conn env frame))
    (hown : OwnToken srv s (.message conn env frame) = true) :
    Secure srv s conn env frame := by
  constructor
  · intro m hmutates hexec
    have hm : m ≠ .authRequest := by
      rintro rfl
      cases hmutates
    obtain ⟨c, session, roleByte, hc, hsession, hexpiry, hverify, hrole, hpermits⟩ :=
      hexec.session hm
    obtain ⟨hlen, hmac⟩ := verifyWireToken_ok hverify
    obtain ⟨hpad, honly⟩ := OwnToken.of_verify hown hc hsession hverify hrole
    obtain ⟨p, hp, hbody⟩ := hunforged hmac
    obtain rfl := honly p hp hbody
    refine ⟨c, session, hc, hsession, h conn c session hc hsession, hexpiry, ?_, hpermits⟩
    rw [token_eq_append hlen, ← hmac, hpad, hbody]
    rfl
  · intro other session' hother hissued htoken m hm hexec
    obtain ⟨c, session, roleByte, hc, hsession, -, hverify, hrole, -⟩ := hexec.session hm
    obtain ⟨-, honly⟩ := OwnToken.of_verify hown hc hsession hverify hrole
    have hbody : claimedBody frame.token = session'.body := by
      rw [htoken, claimedBody_token]
    exact hother (congrArg Prod.fst (honly (other, session') hissued hbody))

/-- In every interleaving of the connections in which no signature is forged, and in which
each request that the check of the token lets through carries a token that was issued to
the session of its connection and to no other, every request is as expected. -/
theorem ownToken_run_secure (srv : IpcServer P E) (engine : E) (es : List (IpcEvent E))
    (hunforged : EveryStep (step srv) (Unforged srv) (.new engine) es)
    (hown : EveryStep (step srv) (fun s e => OwnToken srv s e = true) (.new engine) es) :
    EveryStep (step srv) (SecureStep srv) (.new engine) es := by
  have hsecure : ∀ s e, Recorded s → Unforged srv s e ∧ OwnToken srv s e = true →
      SecureStep srv s e := by
    rintro s e hs ⟨hunforged, hown⟩
    cases e with
    | message conn env frame => exact hs.secure hunforged hown
    | _ => trivial
  exact EveryStep.imp (fun _ _ _ hs _ hst => hs.step hst) hsecure (recorded_new engine)
    (hunforged.and hown)

/-! ### Runs of two engineers -/

/-- A request with the token of a session. -/
def requestOf (session : SessionInfo) (m : Method) : Frame :=
  ⟨session.token idleServer.mac, m.id, []⟩

/-- Two clients become engineers at different times, and the second one pauses the engine
with the token of the first one. -/
def borrowedToken : List (IpcEvent Unit) :=
  [.accept, .accept, .message 0 (envAt 0) engineerRequest, .message 1 (envAt 5) engineerRequest,
    .message 1 (envAt 6) (requestOf ⟨1, .engineer, 3600000⟩ .pause)]

/-- The second client of `borrowedToken` is let through with a token that is not its own. -/
theorem borrowedToken_not_secure :
    ¬ ∀ es : List (IpcEvent Unit),
      EveryStep (step idleServer) (Unforged idleServer) (.new ()) es →
        EveryStep (step idleServer) (SecureStep idleServer) (.new ()) es := by
  intro h
  have hsecure : EveryStep (step idleServer) (SecureStep idleServer) (.new ())
      (borrowedToken.take 4 ++ [.message 1 (envAt 6) (requestOf ⟨1, .engineer, 3600000⟩ .pause)]) :=
    h borrowedToken (by decide)
  have hlast : Secure idleServer _ 1 (envAt 6) (requestOf ⟨1, .engineer, 3600000⟩ .pause) :=
    hsecure.at rfl
  have hcheck : checkToken idleServer (envAt 6) (some ⟨1, .engineer, 3600005⟩)
      (requestOf ⟨1, .engineer, 3600000⟩ .pause) = .ok () := by
    have hverify : verifyWireToken idleServer.mac 6
        (SessionInfo.token ⟨1, .engineer, 3600000⟩ idleServer.mac) = .ok 1 := by
      decide
    simp only [checkToken, requestOf, envAt, hverify]
    rfl
  refine hlast.foreign 0 ⟨1, .engineer, 3600000⟩ (by decide) ?_ rfl .pause (by decide) ?_
  · exact List.mem_cons_of_mem _ List.mem_cons_self
  · exact ⟨⟨some ⟨1, .engineer, 3600005⟩, 2⟩, rfl, hcheck, rfl, _, _, _, rfl⟩

/-- Two clients become engineers at different times, and each pauses the engine with its own
token. -/
theorem ownToken_run_secure_engineers :
    EveryStep (step idleServer) (SecureStep idleServer) (.new ())
      [.accept, .accept, .message 0 (envAt 0) engineerRequest,
        .message 1 (envAt 5) engineerRequest,
        .message 0 (envAt 6) (requestOf ⟨1, .engineer, 3600000⟩ .pause),
        .message 1 (envAt 6) (requestOf ⟨1, .engineer, 3600005⟩ .pause)] :=
  ownToken_run_secure idleServer () _ (by decide) (by decide)

end Ipc

end Weftik
