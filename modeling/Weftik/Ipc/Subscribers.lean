import Weftik.Ipc.Connections

/-!
# Subscriptions and Their Connections

The clean-up of subscriptions is meant for the disconnect and stands at the end of the body
of the message loop: it runs after each message whose branch comes to its end, and the
message that subscribes is the first of them. A disconnect leaves the loop and passes over
it.

## Main definitions

* `Ipc.SubscriptionsLive`: the table holds what the connections have subscribed to.
* `Ipc.AcceptsSubscribe`: a request that subscribes its connection to a signal.

## Main results

* `Ipc.subscriptionsLive_iff`: the table is right along a run iff no subscription is accepted.
-/

open Outcome Transition

namespace Weftik

namespace Ipc

variable {P : Platform} {E : Type}

/-- The table of subscriptions is right: a signal is pushed to a connection exactly when the
connection has subscribed to it and has neither unsubscribed nor disconnected since. -/
def SubscriptionsLive (s : ServerState E) : Prop :=
  ∀ conn name, s.subscribed conn name = true ↔ ∃ sid, (sid, conn) ∈ s.subscriptions name

/-- The event is a request that subscribes its connection: a session whose token passes the
check, a signal name, and a stream that can be duplicated. -/
def AcceptsSubscribe (srv : IpcServer P E) (s : ServerState E) : IpcEvent E → Prop
  | .message conn env frame =>
      ∃ c session, s.connections conn = some c ∧ c.session = some session ∧
        checkToken srv env (some session) frame = .ok () ∧
        frame.methodId = Method.subscribeSignal.id ∧ srv.lossy frame.payload ≠ "" ∧
        env.tryClone = .ok ()
  | _ => False

/-- The invariant of the runs without an accepted subscription. -/
structure NoneSubscribed (s : ServerState E) : Prop where
  subscribed : ∀ conn name, s.subscribed conn name = false
  subscriptions : ∀ name, s.subscriptions name = []

theorem noneSubscribed_new (engine : E) : NoneSubscribed (ServerState.new engine) :=
  ⟨fun _ _ => rfl, fun _ => rfl⟩

variable {srv : IpcServer P E} {s t : ServerState E} {conn : ℕ} {env : Env} {frame : Frame}
  {m : Method}

theorem NoneSubscribed.live (h : NoneSubscribed s) : SubscriptionsLive s := by
  intro conn name
  rw [h.subscribed, h.subscriptions]
  constructor
  · exact nofun
  · rintro ⟨sid, ⟨⟩⟩

theorem NoneSubscribed.disconnect (h : NoneSubscribed s) (conn : ℕ) :
    NoneSubscribed (s.disconnect conn) := by
  refine ⟨fun conn' name => ?_, h.subscriptions⟩
  rw [ServerState.disconnect]
  dsimp only
  by_cases hconn : conn' = conn
  · rw [hconn, Function.update_self]
  · rw [Function.update_of_ne hconn]
    exact h.subscribed conn' name

/-! ### A message that does not subscribe -/

theorem cleanUp_some (session : SessionInfo) (subs : Subscriptions) (name : String) :
    cleanUp (some session) subs name = (subs name).filter (·.1 ≠ session.sessionId) := rfl

variable {subs : Subscriptions}

theorem cleanUp_nil (h : ∀ name, subs name = []) (session : Option SessionInfo) (name : String) :
    cleanUp session subs name = [] := by
  cases session with
  | none => exact h name
  | some session =>
      rw [cleanUp_some, h name]
      rfl

/-- A branch that comes to its end leaves the empty table empty, unless it accepts a
subscription. -/
theorem dispatch_served_nil {c : Connection} {e e' : E} {subs' : Subscriptions}
    {payload : List UInt8} {response : Response} (h : ∀ name, subs name = [])
    (hclone : m = .subscribeSignal → c.session ≠ none →
        srv.lossy payload = "" ∨ env.tryClone ≠ .ok ())
    (hd : dispatch srv env conn c e subs m payload = .ok (.served response e' subs'))
    (name : String) : subs' name = [] := by
  by_cases hauth : m = .authRequest
  · subst hauth
    simp only [dispatch, authRequest] at hd
    cases hopen : handleAuth srv env c.nextSid payload with
    | error refusal =>
        rw [hopen] at hd
        cases hd
        exact h name
    | ok p => rw [hopen] at hd; cases hd
  · by_cases hsub : m = .subscribeSignal
    · have hbranch := hclone hsub
      subst hsub
      simp only [dispatch, ifAllowed, subscribeRequest] at hd
      split at hd
      · rename_i hread
        have hsome : c.session ≠ none := by
          intro hnone
          rw [hnone] at hread
          cases hread
        split at hd
        · cases hd
        · rename_i hname
          split at hd
          · rename_i hok
            exact absurd hok ((hbranch hsome).resolve_left hname)
          · cases hd
            exact h name
      · cases hd
    · by_cases hunsub : m = .unsubscribeSignal
      · subst hunsub
        simp only [dispatch, ifAllowed, unsubscribeRequest] at hd
        split at hd
        · split at hd
          · cases hd
          · cases hd
            by_cases hname : name = srv.lossy payload
            · rw [hname, Function.update_self, h]
              rfl
            · rw [Function.update_of_ne hname, h]
        · cases hd
      · have hplain : Plain subs (dispatch srv env conn c e subs m payload) :=
          dispatch_plain hauth hsub hunsub
        rw [hd] at hplain
        cases hplain
        exact h name

/-- A message that accepts no subscription leaves the empty table empty. -/
theorem handleMessage_nil {c : Connection} {e : E} {h : Handled E}
    (hsubs : ∀ name, subs name = [])
    (hclone : frame.methodId = Method.subscribeSignal.id →
        checkToken srv env c.session frame = .ok () → c.session ≠ none →
        srv.lossy frame.payload = "" ∨ env.tryClone ≠ .ok ())
    (hm : handleMessage srv env conn c e subs frame = .ok h) (name : String) :
    h.subscriptions name = [] := by
  rw [handleMessage] at hm
  cases hcheck : checkToken srv env c.session frame with
  | error p =>
      rw [hcheck] at hm
      obtain rfl := Except.ok.inj hm
      exact hsubs name
  | ok u =>
      rw [hcheck] at hm
      obtain ⟨outcome, hmethod, rfl⟩ := map_eq_ok hm
      cases outcome with
      | refused response => exact hsubs name
      | opened session responses => exact cleanUp_nil hsubs (some session) name
      | served response e' subs' =>
          refine cleanUp_nil (fun name => ?_) _ name
          rw [handleMethod] at hmethod
          split at hmethod
          · rename_i m hmid
            refine dispatch_served_nil hsubs ?_ hmethod name
            rintro rfl
            exact hclone (methodFromU8_eq_some.mp hmid) hcheck
          · cases hmethod
            exact hsubs name

/-- A request to subscribe that is not accepted is answered with an error. -/
theorem handleMessage_subscribe_error {c : Connection} {e : E} {h : Handled E}
    (hid : frame.methodId = Method.subscribeSignal.id)
    (hclone : checkToken srv env c.session frame = .ok () → c.session ≠ none →
        srv.lossy frame.payload = "" ∨ env.tryClone ≠ .ok ())
    (hm : handleMessage srv env conn c e subs frame = .ok h) :
    ∃ response, h.responses = [response] ∧ response.status = statusError := by
  rw [handleMessage] at hm
  cases hcheck : checkToken srv env c.session frame with
  | error p =>
      rw [hcheck] at hm
      obtain rfl := Except.ok.inj hm
      exact ⟨p.1, rfl, (checkToken_error hcheck).1⟩
  | ok u =>
      rw [hcheck] at hm
      obtain ⟨outcome, hmethod, rfl⟩ := map_eq_ok hm
      simp only [handleMethod, methodFromU8_eq_some.mpr hid] at hmethod
      cases hsession : c.session with
      | none =>
          rw [dispatch_noSession hsession (by decide)] at hmethod
          cases hmethod
          exact ⟨_, rfl, rfl⟩
      | some session =>
          have hbranch := hclone hcheck (by rw [hsession]; rintro ⟨⟩)
          have hread : canRead (c.session.map SessionInfo.role) = true := by
            rw [hsession]
            rfl
          simp only [dispatch, ifAllowed, hread, if_true, subscribeRequest] at hmethod
          split at hmethod
          · cases hmethod
            exact ⟨_, rfl, rfl⟩
          · rename_i hname
            split at hmethod
            · rename_i hok
              exact absurd hok (hbranch.resolve_left hname)
            · cases hmethod
              exact ⟨_, rfl, rfl⟩

/-- A step that accepts no subscription. -/
theorem NoneSubscribed.step {e : IpcEvent E} (h : NoneSubscribed s)
    (haccepts : ¬ AcceptsSubscribe srv s e) (hst : step srv s e = some t) :
    NoneSubscribed t := by
  cases e with
  | accept | work =>
      obtain rfl := Option.some.inj hst
      exact ⟨h.subscribed, h.subscriptions⟩
  | disconnect conn =>
      obtain ⟨c, -, rfl⟩ := Option.map_eq_some_iff.mp hst
      exact h.disconnect conn
  | message conn env frame =>
      obtain ⟨c, hc, rfl⟩ := Option.map_eq_some_iff.mp hst
      cases hm : handleMessage srv env conn c s.engine s.subscriptions frame with
      | error panic => exact h.disconnect conn
      | ok next =>
          have hclone : frame.methodId = Method.subscribeSignal.id →
              checkToken srv env c.session frame = .ok () → c.session ≠ none →
              srv.lossy frame.payload = "" ∨ env.tryClone ≠ .ok () := by
            intro hid hcheck hsession
            obtain ⟨session, hsome⟩ := Option.ne_none_iff_exists'.mp hsession
            by_contra hboth
            obtain ⟨hname, hok⟩ := not_or.mp hboth
            rw [hsome] at hcheck
            exact haccepts ⟨c, session, hc, hsome, hcheck, hid, hname, not_not.mp hok⟩
          refine ⟨fun conn' name => ?_, handleMessage_nil h.subscriptions hclone hm⟩
          dsimp only
          rw [ServerState.subscribedAfter]
          split
          · rename_i hid
            rw [methodFromU8_eq_some] at hid
            obtain ⟨response, hresponses, hstatus⟩ :=
              handleMessage_subscribe_error hid (hclone hid) hm
            have hdone : (next.responses.all fun r => decide (r.status = statusOk)) = false := by
              rw [hresponses, List.all_cons, hstatus]
              rfl
            rw [hdone, h.subscribed]
            rfl
          · rw [h.subscribed]
            rfl
          · exact h.subscribed conn' name

/-! ### A message that subscribes -/

/-- An accepted subscription is removed at the end of its own message. -/
theorem AcceptsSubscribe.not_live {e : IpcEvent E} (haccepts : AcceptsSubscribe srv s e)
    (h : NoneSubscribed s) : ∃ t, step srv s e = some t ∧ ¬ SubscriptionsLive t := by
  cases e with
  | message conn env frame =>
      obtain ⟨c, session, hc, hsession, hcheck, hid, hname, hclone⟩ := haccepts
      have hread : canRead (some session.role) = true := rfl
      have hm : handleMessage srv env conn c s.engine s.subscriptions frame =
          .ok (finish c s.engine s.subscriptions (.served
            (buildOkResponse Method.subscribeSignal.id (HalValue.textBytes "subscribed"))
            s.engine
            (Function.update s.subscriptions (srv.lossy frame.payload)
              (s.subscriptions (srv.lossy frame.payload) ++ [(session.sessionId, conn)])))) := by
        simp only [handleMessage, hsession, hcheck, handleMethod, methodFromU8_eq_some.mpr hid,
          dispatch, ifAllowed, Option.map_some, hread, if_true, subscribeRequest, if_neg hname,
          hclone, Option.getD_some]
        rfl
      refine ⟨_, by rw [step, hc, Option.map_some, hm], fun hlive => ?_⟩
      have hsubscribed : s.subscribedAfter srv conn frame
          (finish c s.engine s.subscriptions (.served
            (buildOkResponse Method.subscribeSignal.id (HalValue.textBytes "subscribed"))
            s.engine s.subscriptions)) conn (srv.lossy frame.payload) = true := by
        simp only [ServerState.subscribedAfter, methodFromU8_eq_some.mpr hid, and_self,
          decide_true, Bool.and_true]
        exact Bool.or_true _
      obtain ⟨sid, hmem⟩ := (hlive conn (srv.lossy frame.payload)).mp hsubscribed
      replace hmem : (sid, conn) ∈ cleanUp c.session
          (Function.update s.subscriptions (srv.lossy frame.payload)
            (s.subscriptions (srv.lossy frame.payload) ++ [(session.sessionId, conn)]))
          (srv.lossy frame.payload) := hmem
      rw [hsession, cleanUp_some, Function.update_self, h.subscriptions, List.nil_append,
        List.mem_filter, List.mem_singleton] at hmem
      obtain ⟨hsid, hne⟩ := hmem
      rw [hsid] at hne
      exact of_decide_eq_true hne rfl
  | accept | disconnect | work => exact haccepts.elim

/-! ### Runs -/

/-- Along every interleaving of the connections, the table of subscriptions is right after
each step iff no request of the run is accepted as a subscription. -/
theorem subscriptionsLive_iff (srv : IpcServer P E) (engine : E) (es : List (IpcEvent E)) :
    EveryStep (step srv) (fun s e => ∀ t, step srv s e = some t → SubscriptionsLive t)
        (.new engine) es ↔
      EveryStep (step srv) (fun s e => ¬ AcceptsSubscribe srv s e) (.new engine) es := by
  have hiff : ∀ (s : ServerState E) (es : List (IpcEvent E)), NoneSubscribed s →
      (EveryStep (step srv) (fun s e => ∀ t, step srv s e = some t → SubscriptionsLive t) s es ↔
        EveryStep (step srv) (fun s e => ¬ AcceptsSubscribe srv s e) s es) := by
    intro s es hs
    induction es generalizing s with
    | nil => exact Iff.rfl
    | cons e es ih =>
        by_cases haccepts : AcceptsSubscribe srv s e
        · obtain ⟨t, hst, hnot⟩ := haccepts.not_live hs
          exact ⟨fun h => absurd (h.1 t hst) hnot, fun h => absurd haccepts h.1⟩
        · refine and_congr (iff_of_true ?_ haccepts) ?_
          · exact fun t hst => (hs.step haccepts hst).live
          · cases hst : step srv s e with
            | none => exact Iff.rfl
            | some t => exact ih t (hs.step haccepts hst)
  exact hiff _ es (noneSubscribed_new engine)

/-- The request of the first engineer to subscribe to the signal `a`. -/
def subscribeFrame : Frame :=
  ⟨SessionInfo.token ⟨1, .engineer, 3600000⟩ idleServer.mac, Method.subscribeSignal.id, [97]⟩

/-- A client becomes an engineer and subscribes to the signal `a`. -/
def subscribeOnce : List (IpcEvent Unit) :=
  [.accept, .message 0 (envAt 0) engineerRequest, .message 0 (envAt 1) subscribeFrame]

/-- The subscription of `subscribeOnce` is gone when its message has been handled. -/
theorem subscribeOnce_not_live :
    ¬ EveryStep (step idleServer)
      (fun s e => ∀ t, step idleServer s e = some t → SubscriptionsLive t)
      (.new ()) subscribeOnce := by
  intro h
  have hrun : EveryStep (step idleServer)
      (fun s e => ∀ t, step idleServer s e = some t → SubscriptionsLive t)
      (.new ()) (subscribeOnce.take 2 ++ [.message 0 (envAt 1) subscribeFrame]) := h
  have hlast := hrun.at rfl _ rfl
  obtain ⟨sid, hmem⟩ := (hlast 0 (idleServer.lossy [97])).mp rfl
  exact List.not_mem_nil hmem

end Ipc

end Weftik
