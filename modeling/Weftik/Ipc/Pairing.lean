import Weftik.Ipc.Server

/-!
# Requests and Responses

A client reads one response for each request that it has sent, and does not compare the
method of the response with that of the request. The server answers each request once,
except a successful authentication: there it writes the token twice, and from then on the
client reads each answer one request late.

## Main definitions

* `Ipc.Request`, `Ipc.serve`: a connection over a sequence of requests.
* `Ipc.Paired`: one response for each request, in order.
* `Ipc.Request.OpensSession`: the request is an authentication that passes its checks.

## Main results

* `Ipc.paired_iff`: the responses are paired iff no request opens a session.
-/

open Outcome

namespace Weftik

namespace Ipc

variable {P : Platform} {E : Type}

/-- A request as the connection receives it: the frame, what the operating system answers,
and the engine and the subscriptions as other threads have left them. -/
structure Request (E : Type) where
  frame : Frame
  env : Env
  engine : E
  subscriptions : Subscriptions

/-- The responses to each of the requests, in order. A panic ends the connection. -/
def serve (srv : IpcServer P E) (conn : ℕ) : Connection → List (Request E) →
    List (List Response)
  | _, [] => []
  | c, r :: rs =>
      match handleMessage srv r.env conn c r.engine r.subscriptions r.frame with
      | .error _ => []
      | .ok h => h.responses :: serve srv conn h.connection rs

/-- Every request has one response, so that the response that is read next is the answer to
the request that was sent next. -/
structure Paired (requests : List (Request E)) (written : List (List Response)) : Prop where
  all : written.length = requests.length
  one : ∀ answers ∈ written, answers.length = 1
  read : ∀ i : ℕ, written.flatten[i]? = written[i]?.bind List.head?

/-- The request is an authentication with a known role, for the process and a user that may
take it. -/
def Request.OpensSession (srv : IpcServer P E) (r : Request E) : Prop :=
  r.frame.methodId = Method.authRequest.id ∧ 5 ≤ r.frame.payload.length ∧
    ∃ role uid, roleFromU8 (r.frame.payload.getD 4 0) = some role ∧
      r.env.peerCred = .ok (HalValue.ofLeBytes (r.frame.payload.take 4), uid) ∧
      uid ∈ srv.whitelist role

/-! ### One message -/

variable {srv : IpcServer P E} {c : Connection}

/-- Without a session, every method but authentication is refused. -/
theorem dispatch_noSession {env : Env} {conn : ℕ} {e : E} {subs : Subscriptions} {m : Method}
    {payload : List UInt8} (h : c.session = none) (hm : m ≠ .authRequest) :
    dispatch srv env conn c e subs m payload =
      .ok (.refused (buildErrorResponse m.id "unauthorized")) := by
  have hrefuse : ∀ (allowed : Option Role → Bool) (branch : Except Panic (Outcome E)),
      allowed none = false →
        ifAllowed allowed m c.session branch =
          .ok (.refused (buildErrorResponse m.id "unauthorized")) := by
    intro allowed branch hnone
    rw [ifAllowed, h, Option.map_none, hnone]
    rfl
  cases m with
  | authRequest => exact absurd rfl hm
  | _ => exact hrefuse _ _ rfl

/-- An authentication request opens a session exactly when it passes the checks. -/
theorem handleAuth_ok_iff {r : Request E} (nextSid : UInt64)
    (hm : r.frame.methodId = Method.authRequest.id) :
    (∃ p, handleAuth srv r.env nextSid r.frame.payload = .ok p) ↔ r.OpensSession srv := by
  rw [Request.OpensSession, handleAuth]
  dsimp only
  split
  · rename_i hshort
    constructor
    · rintro ⟨p, ⟨⟩⟩
    · rintro ⟨-, hlen, -⟩
      exact absurd hlen (not_le.mpr hshort)
  · rename_i hlen
    cases hrole : roleFromU8 (r.frame.payload.getD 4 0) with
    | none =>
        constructor
        · rintro ⟨p, ⟨⟩⟩
        · rintro ⟨-, -, role, uid, ⟨⟩, -⟩
    | some role =>
        cases hcred : r.env.peerCred with
        | error text =>
            constructor
            · rintro ⟨p, ⟨⟩⟩
            · rintro ⟨-, -, role', uid, -, ⟨⟩, -⟩
        | ok cred =>
            obtain ⟨pid, uid⟩ := cred
            dsimp only
            split
            · rename_i hpid
              constructor
              · rintro ⟨p, ⟨⟩⟩
              · rintro ⟨-, -, role', uid', -, h, -⟩
                cases h
                exact absurd rfl hpid
            · rename_i hpid
              rw [not_not] at hpid
              split
              · rename_i huid
                constructor
                · rintro ⟨p, ⟨⟩⟩
                · rintro ⟨-, -, role', uid', ⟨⟩, ⟨⟩, hmem⟩
                  exact absurd hmem huid
              · rename_i huid
                rw [not_not] at huid
                constructor
                · exact fun _ => ⟨hm, not_lt.mp hlen, role, uid, rfl, by rw [hpid], huid⟩
                · exact fun _ => ⟨_, rfl⟩

/-- A message that opens no session, on a connection without one: one response, and still
no session. -/
theorem handleMessage_of_not_opens {conn : ℕ} {r : Request E} (hc : c.session = none)
    (h : ¬ r.OpensSession srv) :
    ∃ next, handleMessage srv r.env conn c r.engine r.subscriptions r.frame = .ok next ∧
      next.responses.length = 1 ∧ next.connection.session = none := by
  have hcheck : checkToken srv r.env c.session r.frame = .ok () := by rw [hc]; rfl
  simp only [handleMessage, hcheck, handleMethod]
  cases hm : methodFromU8 r.frame.methodId with
  | none => exact ⟨_, rfl, rfl, hc⟩
  | some m =>
      dsimp only
      by_cases hauth : m = .authRequest
      · subst hauth
        have hid := methodFromU8_eq_some.mp hm
        cases hopen : handleAuth srv r.env c.nextSid r.frame.payload with
        | error response =>
            simp only [dispatch, authRequest, hopen]
            exact ⟨_, rfl, rfl, hc⟩
        | ok p => exact absurd ((handleAuth_ok_iff c.nextSid hid).mp ⟨p, hopen⟩) h
      · rw [dispatch_noSession hc hauth]
        exact ⟨_, rfl, rfl, hc⟩

/-- A message that opens a session, on a connection without one: two responses. -/
theorem handleMessage_of_opens {conn : ℕ} {r : Request E} (hc : c.session = none)
    (h : r.OpensSession srv) :
    ∃ next, handleMessage srv r.env conn c r.engine r.subscriptions r.frame = .ok next ∧
      next.responses.length = 2 := by
  have hcheck : checkToken srv r.env c.session r.frame = .ok () := by rw [hc]; rfl
  obtain ⟨⟨session, response⟩, hopen⟩ := (handleAuth_ok_iff c.nextSid h.1).mpr h
  simp only [handleMessage, hcheck, handleMethod, methodFromU8_eq_some.mpr h.1, dispatch,
    authRequest, hopen]
  exact ⟨_, rfl, rfl⟩

/-! ### A connection -/

/-- With one response for each request, the responses are read in the order of the
requests. -/
theorem getElem?_flatten_of_one {written : List (List Response)}
    (h : ∀ answers ∈ written, answers.length = 1) (i : ℕ) :
    written.flatten[i]? = written[i]?.bind List.head? := by
  induction written generalizing i with
  | nil => rfl
  | cons answers written ih =>
      obtain ⟨answer, rfl⟩ := List.length_eq_one_iff.mp (h answers List.mem_cons_self)
      cases i with
      | zero => rfl
      | succ i =>
          rw [List.flatten_cons, List.singleton_append, List.getElem?_cons_succ,
            List.getElem?_cons_succ]
          exact ih (fun a ha => h a (List.mem_cons_of_mem _ ha)) i

/-- On a connection without a session, the responses are paired with the requests iff no
request opens a session. -/
theorem paired_iff_of_noSession (srv : IpcServer P E) (conn : ℕ) (hc : c.session = none)
    (requests : List (Request E)) :
    Paired requests (serve srv conn c requests) ↔
      ∀ r ∈ requests, ¬ r.OpensSession srv := by
  induction requests generalizing c with
  | nil =>
      have hnil : Paired ([] : List (Request E)) (serve srv conn c []) :=
        ⟨rfl, List.forall_mem_nil _, fun _ => rfl⟩
      exact ⟨fun _ => List.forall_mem_nil _, fun _ => hnil⟩
  | cons r requests ih =>
      rw [List.forall_mem_cons, serve]
      by_cases hopens : r.OpensSession srv
      · obtain ⟨next, hnext, htwo⟩ := handleMessage_of_opens hc hopens
        rw [hnext]
        constructor
        · intro h
          have hone := h.one next.responses List.mem_cons_self
          omega
        · exact fun h => absurd hopens h.1
      · obtain ⟨next, hnext, hone, hsession⟩ :=
          handleMessage_of_not_opens hc hopens
        rw [hnext, and_iff_right hopens, ← ih hsession]
        constructor
        · intro h
          have hrest := fun a ha => h.one a (List.mem_cons_of_mem _ ha)
          exact ⟨Nat.succ_injective h.all, hrest, getElem?_flatten_of_one hrest⟩
        · intro h
          have hall : ∀ answers ∈ next.responses :: serve srv conn next.connection requests,
              answers.length = 1 := by
            rw [List.forall_mem_cons]
            exact ⟨hone, h.one⟩
          exact ⟨congrArg Nat.succ h.all, hall, getElem?_flatten_of_one hall⟩

/-- On a new connection, the responses are paired with the requests iff none of the
requests opens a session. -/
theorem paired_iff (srv : IpcServer P E) (conn : ℕ) (requests : List (Request E)) :
    Paired requests (serve srv conn .new requests) ↔
      ∀ r ∈ requests, ¬ r.OpensSession srv :=
  paired_iff_of_noSession srv conn rfl requests

/-- A client that becomes an engineer gets two responses to its one request. -/
theorem paired_fails_at_engineer :
    ¬ Paired
      ([⟨engineerRequest, envAt 0, (), fun _ => []⟩] : List (Request Unit))
      (serve idleServer 0 .new [⟨engineerRequest, envAt 0, (), fun _ => []⟩]) := by
  intro h
  have hone := h.one _ List.mem_cons_self
  exact absurd hone (by decide)

end Ipc

end Weftik
