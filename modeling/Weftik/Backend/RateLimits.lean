import Weftik.Backend.Checks
import Weftik.Lib.Text
import Weftik.Lib.Transition

/-!
# The Rate Limits of the Sessions

All buckets of the rate limiter live in one table, under keys that begin with the name of the
session. When a session ends, every bucket whose key begins with its name is removed, so that
the end of a session `s1` fills up the buckets of a session `s10`.

## Main definitions

* `Backend.removeRateLimitSession`, `Backend.limiterStep`: the limiter over calls and removals.
* `Backend.Isolated`: every session is answered as if it were alone.
* `Backend.Bounded`: no bucket admits more calls than its minutes allow.
* `Backend.Spares`, `Backend.Separate`: a removal hits no bucket of another session, and the
  names for which no removal can.

## Main results

* `Backend.Metered.call`: what is admitted and what is left never exceed the limit of a minute
  for each minute begun.
* `Backend.sessions_isolated`: when the limits are those of each session alone.
-/

open Transition

namespace Weftik.Backend

/-! ### The table over a run -/

/-- Remove every bucket whose key begins with the name of the session. -/
def removeRateLimitSession (sessionId : String) (buckets : Buckets) : Buckets := fun key =>
  if key.startsWith sessionId then none else buckets key

/-- What sessions do: a call of a method at a time, or the end of the session. -/
inductive LimiterEvent
  | call (now : ℤ) (sessionId method : String)
  | remove (sessionId : String)
  deriving DecidableEq, Repr

/-- The session that acts. -/
def LimiterEvent.sessionId : LimiterEvent → String
  | .call _ sessionId _ | .remove sessionId => sessionId

/-- The time of a call. -/
def LimiterEvent.time : LimiterEvent → Option ℤ
  | .call now _ _ => some now
  | .remove _ => none

/-- The table after an event, and the answer to a call. -/
def limiterStep (buckets : Buckets) : LimiterEvent → Buckets × Option Bool
  | .call now sessionId method =>
      let r := checkRateLimit now sessionId method buckets
      (r.2, some r.1)
  | .remove sessionId => (removeRateLimitSession sessionId buckets, none)

/-- The table without buckets. -/
def noBuckets : Buckets := fun _ => none

/-- The table after some events. -/
def bucketsAfter (buckets : Buckets) (es : List LimiterEvent) : Buckets :=
  es.foldl (fun b e => (limiterStep b e).1) buckets

/-- The events with the answers to them. -/
def answers : Buckets → List LimiterEvent → List (LimiterEvent × Option Bool)
  | _, [] => []
  | b, e :: es => (e, (limiterStep b e).2) :: answers (limiterStep b e).1 es

/-- The answers that a session gets. -/
def decisions (s : String) (buckets : Buckets) (es : List LimiterEvent) : List Bool :=
  (answers buckets es).filterMap fun p => if p.1.sessionId = s then p.2 else none

/-- A call of a class that was made by the session up to a time, and admitted. -/
def admits (s : String) (c : LimitClass) (t : ℤ) : LimiterEvent × Option Bool → Bool
  | (.call now sessionId method, some true) =>
      sessionId == s && getLimitForMethod method == c && now ≤ t
  | _ => false

/-- The number of these calls. -/
def admittedCalls (s : String) (c : LimitClass) (t : ℤ) (buckets : Buckets)
    (es : List LimiterEvent) : ℕ :=
  (answers buckets es).countP (admits s c t)

/-- The clock never goes back. -/
def Clocked (es : List LimiterEvent) : Prop :=
  (es.filterMap LimiterEvent.time).Pairwise (· ≤ ·)

/-- Every session is answered as it would be if it were alone. -/
def Isolated (es : List LimiterEvent) : Prop :=
  ∀ s, decisions s noBuckets es =
    decisions s noBuckets (es.filter fun e => e.sessionId = s)

/-- From the call that makes a bucket on, and as long as its session is not removed, the bucket
admits no more than the limit at once and the limit for each minute that has passed. -/
def Bounded (es : List LimiterEvent) : Prop :=
  ∀ before after t₀ s m, (before ++ .call t₀ s m :: after) <+: es →
    bucketsAfter noBuckets before (bucketKey s m) = none → .remove s ∉ after → ∀ t, t₀ ≤ t →
      (admittedCalls s (getLimitForMethod m) t (bucketsAfter noBuckets before)
          (.call t₀ s m :: after) : ℤ) ≤
        (getLimitForMethod m).limit * (1 + (t - t₀) / 60000)

/-! ### The keys -/

/-- The key of a class of a session. -/
def sessionKey (s : String) (c : LimitClass) : String := s ++ ":" ++ c.name

theorem bucketKey_eq (s m : String) : bucketKey s m = sessionKey s (getLimitForMethod m) := rfl

theorem toList_sessionKey (s : String) (c : LimitClass) :
    (sessionKey s c).toList = s.toList ++ ':' :: c.name.toList := by
  rw [sessionKey, String.toList_append, String.toList_append, List.append_assoc]
  rfl

/-- No two buckets share a key: the class is what stands behind the last colon. -/
theorem sessionKey_inj {s s' : String} {c c' : LimitClass}
    (h : sessionKey s c = sessionKey s' c') : s = s' ∧ c = c' := by
  have hcolon : ∀ c : LimitClass, ':' ∉ c.name.toList := by
    intro c
    cases c <;> decide
  have hlist := congrArg String.toList h
  rw [toList_sessionKey, toList_sessionKey] at hlist
  have hname := Text.eq_of_append_cons_eq (hcolon c) (hcolon c') hlist
  rw [hname] at hlist
  refine ⟨String.toList_inj.mp (List.append_cancel_right hlist), ?_⟩
  cases c <;> cases c' <;> first | rfl | exact absurd hname (by decide)

theorem startsWith_sessionKey (s : String) (c : LimitClass) :
    (sessionKey s c).startsWith s = true := by
  rw [String.startsWith_string_iff, toList_sessionKey]
  exact List.prefix_append _ _

/-! ### One bucket -/

/-- A call on a bucket, or on none. -/
def callBucket (limit now : ℤ) : Option TokenBucket → Bool × TokenBucket
  | none => (true, ⟨limit - 1, now⟩)
  | some bucket =>
      let bucket := bucket.refill limit now
      if 0 < bucket.tokens then (true, { bucket with tokens := bucket.tokens - 1 })
      else (false, bucket)

/-- A call looks at its own bucket only, and changes no other one. -/
theorem checkRateLimit_eq (now : ℤ) (s m : String) (b : Buckets) :
    checkRateLimit now s m b =
      let r := callBucket (getLimitForMethod m).limit now (b (bucketKey s m))
      (r.1, Function.update b (bucketKey s m) (some r.2)) := by
  have hstore : ∀ bucket : TokenBucket,
      (fun key => if key = bucketKey s m then some bucket else b key) =
        Function.update b (bucketKey s m) (some bucket) := by
    intro bucket
    funext key
    rw [Function.update_apply]
  unfold checkRateLimit callBucket
  simp only [hstore]
  cases b (bucketKey s m) with
  | none => rfl
  | some bucket =>
      dsimp only
      split <;> rfl

/-- What a bucket has admitted and what is left in it, against the minutes since it was made. -/
structure Metered (limit t₀ admitted : ℤ) (bucket : TokenBucket) : Prop where
  nonneg : 0 ≤ bucket.tokens
  le_limit : bucket.tokens ≤ limit
  bounded : admitted + bucket.tokens ≤ limit * (1 + (bucket.lastRefill - t₀) / 60000)

variable {limit t₀ admitted now t : ℤ} {bucket : TokenBucket}

/-- A bucket that has just been made. -/
theorem Metered.new (hlimit : 0 < limit) : Metered limit t₀ 1 ⟨limit - 1, t₀⟩ where
  nonneg := Int.le_sub_one_of_lt hlimit
  le_limit := Int.sub_le_self limit Int.one_nonneg
  bounded := by
    rw [Int.sub_self, Int.zero_ediv, Int.add_zero, Int.mul_one]
    exact (add_sub_cancel 1 limit).le

/-- A refill fills up to the limit, and at least one minute has passed since the last one. -/
theorem Metered.refill (h : Metered limit t₀ admitted bucket) (hlimit : 0 < limit)
    (hnow : bucket.lastRefill ≤ now) :
    Metered limit t₀ admitted (bucket.refill limit now) ∧
      (bucket.refill limit now).lastRefill ≤ now := by
  unfold TokenBucket.refill
  dsimp only
  split
  · rename_i hpos
    have hminute : 1 ≤ (now - bucket.lastRefill) / 60000 := pos_of_mul_pos_left hpos hlimit.le
    have hfloor : (bucket.lastRefill - t₀) / 60000 + 1 ≤ (now - t₀) / 60000 := by omega
    have hprod : limit * (1 + ((bucket.lastRefill - t₀) / 60000 + 1)) ≤
        limit * (1 + (now - t₀) / 60000) :=
      Int.mul_le_mul_of_nonneg_left (by omega) hlimit.le
    refine ⟨⟨?_, min_le_left _ _, ?_⟩, le_refl now⟩
    · exact le_min hlimit.le (add_nonneg h.nonneg hpos.le)
    · have hmin : min limit (bucket.tokens + (now - bucket.lastRefill) / 60000 * limit) ≤ limit :=
        min_le_left _ _
      have hbounded := h.bounded
      have hnonneg := h.nonneg
      dsimp only
      rw [mul_add, mul_add] at hprod
      rw [mul_add] at hbounded ⊢
      linarith
  · exact ⟨h, hnow⟩

/-- A call keeps the account: what it takes from the tokens is admitted. -/
theorem Metered.call (h : Metered limit t₀ admitted bucket) (hlimit : 0 < limit)
    (hnow : bucket.lastRefill ≤ now) :
    let r := callBucket limit now (some bucket)
    Metered limit t₀ (admitted + if r.1 then 1 else 0) r.2 ∧ r.2.lastRefill ≤ now := by
  obtain ⟨hrefill, hlast⟩ := h.refill hlimit hnow
  unfold callBucket
  dsimp only
  split
  · rename_i hpos
    refine ⟨⟨Int.le_sub_one_of_lt hpos, ?_, ?_⟩, hlast⟩
    · exact (Int.sub_le_self _ Int.one_nonneg).trans hrefill.le_limit
    · have hbounded := hrefill.bounded
      dsimp only
      rw [if_pos rfl]
      linarith
  · rw [if_neg Bool.false_ne_true, add_zero]
    exact ⟨hrefill, hlast⟩

/-- The account at a later time. -/
theorem Metered.admitted_le (h : Metered limit t₀ admitted bucket) (hlimit : 0 < limit)
    (ht : bucket.lastRefill ≤ t) : admitted ≤ limit * (1 + (t - t₀) / 60000) := by
  have hprod : limit * (1 + (bucket.lastRefill - t₀) / 60000) ≤
      limit * (1 + (t - t₀) / 60000) :=
    Int.mul_le_mul_of_nonneg_left (by omega) hlimit.le
  have hbounded := h.bounded
  have hnonneg := h.nonneg
  linarith

theorem limit_pos (c : LimitClass) : 0 < c.limit := by
  cases c <;> decide

/-! ### Events of other sessions -/

/-- No other session has a bucket that the event removes. -/
def Spares (b : Buckets) : LimiterEvent → Prop
  | .call _ _ _ => True
  | .remove r => ∀ s c, s ≠ r → (sessionKey s c).startsWith r = true → b (sessionKey s c) = none

/-- The step of the limiter, for runs. -/
def limiterRun (b : Buckets) (e : LimiterEvent) : Option Buckets := some (limiterStep b e).1

/-- Every removal of the run spares the buckets of the other sessions. -/
def SparesAll (b : Buckets) (es : List LimiterEvent) : Prop := EveryStep limiterRun Spares b es

variable {s : String} {c : LimitClass} {b b' : Buckets} {e : LimiterEvent}
  {es : List LimiterEvent}

theorem sparesAll_cons :
    SparesAll b (e :: es) ↔ Spares b e ∧ SparesAll (limiterStep b e).1 es :=
  Iff.rfl

/-- The event of another session leaves a bucket as it is. -/
theorem limiterStep_of_ne (hne : e.sessionId ≠ s) (hspares : Spares b e) (c : LimitClass) :
    (limiterStep b e).1 (sessionKey s c) = b (sessionKey s c) := by
  cases e with
  | call now s' m =>
      rw [limiterStep, checkRateLimit_eq]
      refine Function.update_of_ne (fun heq => hne ?_) _ _
      exact (sessionKey_inj heq).1.symm
  | remove r =>
      by_cases hstarts : (sessionKey s c).startsWith r = true
      · exact (if_pos hstarts).trans (hspares s c (Ne.symm hne) hstarts).symm
      · exact if_neg hstarts

/-- A call of a session on a bucket of its own. -/
theorem limiterStep_own {m : String} {own : Option TokenBucket}
    (hbucket : b (bucketKey s m) = own) :
    limiterStep b (.call now s m) =
      (Function.update b (bucketKey s m)
          (some (callBucket (getLimitForMethod m).limit now own).2),
        some (callBucket (getLimitForMethod m).limit now own).1) := by
  rw [limiterStep, checkRateLimit_eq, hbucket]

/-- Two tables have the same buckets of a session. -/
def AgreeOn (s : String) (b b' : Buckets) : Prop := ∀ c, b (sessionKey s c) = b' (sessionKey s c)

/-- The event of a session does the same to two tables that have the same buckets of it. -/
theorem limiterStep_congr (hagree : AgreeOn e.sessionId b b') :
    (limiterStep b e).2 = (limiterStep b' e).2 ∧
      AgreeOn e.sessionId (limiterStep b e).1 (limiterStep b' e).1 := by
  cases e with
  | call now s m =>
      have hown : b (bucketKey s m) = b' (bucketKey s m) := hagree (getLimitForMethod m)
      rw [limiterStep, limiterStep, checkRateLimit_eq, checkRateLimit_eq, hown]
      refine ⟨rfl, fun c => ?_⟩
      dsimp only
      rw [Function.update_apply, Function.update_apply]
      split
      · rfl
      · exact hagree c
  | remove r =>
      refine ⟨rfl, fun c => ?_⟩
      have hstarts := startsWith_sessionKey r c
      exact (if_pos hstarts).trans (if_pos hstarts).symm

theorem decisions_cons (s : String) (b : Buckets) (e : LimiterEvent) (es : List LimiterEvent) :
    decisions s b (e :: es) =
      (if e.sessionId = s then (limiterStep b e).2.toList else []) ++
        decisions s (limiterStep b e).1 es := by
  rw [decisions, answers, List.filterMap_cons, ← decisions]
  by_cases hown : e.sessionId = s
  · simp only [if_pos hown]
    cases (limiterStep b e).2 <;> rfl
  · simp only [if_neg hown]
    rfl

/-- A session is answered as it would be if it were alone, when nobody removes its buckets. -/
theorem decisions_eq_alone (hagree : AgreeOn s b b') (hspares : SparesAll b es) :
    decisions s b es = decisions s b' (es.filter fun e => e.sessionId = s) := by
  induction es generalizing b b' with
  | nil => rfl
  | cons e es ih =>
      obtain ⟨hhead, htail⟩ := sparesAll_cons.mp hspares
      rw [decisions_cons]
      by_cases hown : e.sessionId = s
      · rw [List.filter_cons_of_pos (by simpa using hown), decisions_cons, if_pos hown,
          if_pos hown]
        subst hown
        obtain ⟨hanswer, hnext⟩ := limiterStep_congr hagree
        rw [hanswer, ih hnext htail]
      · rw [List.filter_cons_of_neg (by simpa using hown), if_neg hown, List.nil_append]
        exact ih (fun c => (limiterStep_of_ne hown hhead c).trans (hagree c)) htail

/-! ### The calls that a bucket admits -/

theorem admittedCalls_cons (s : String) (c : LimitClass) (t : ℤ) (b : Buckets)
    (e : LimiterEvent) (es : List LimiterEvent) :
    admittedCalls s c t b (e :: es) =
      admittedCalls s c t (limiterStep b e).1 es +
        if admits s c t (e, (limiterStep b e).2) then 1 else 0 := by
  rw [admittedCalls, answers, List.countP_cons, ← admittedCalls]

/-- The clock after the first event of a run. -/
theorem Clocked.tail (h : Clocked (e :: es)) : Clocked es := by
  cases e with
  | call now s m => exact (List.pairwise_cons.mp h).2
  | remove r => exact h

theorem Clocked.le (h : Clocked (.call now s m :: es)) :
    ∀ t ∈ es.filterMap LimiterEvent.time, now ≤ t :=
  (List.pairwise_cons.mp h).1

/-- Calls after a time are not counted up to it. -/
theorem admittedCalls_eq_zero (h : ∀ t' ∈ es.filterMap LimiterEvent.time, t < t') :
    admittedCalls s c t b es = 0 := by
  induction es generalizing b with
  | nil => rfl
  | cons e es ih =>
      rw [admittedCalls_cons]
      cases e with
      | call now s' m =>
          have hnow : t < now := h now (List.mem_filterMap.mpr ⟨_, List.mem_cons_self, rfl⟩)
          rw [ih fun t' ht' => h t' (List.mem_cons_of_mem now ht'), if_neg]
          unfold admits
          split
          · rename_i heq
            obtain ⟨⟨rfl, -, -⟩, -⟩ := by simpa using heq
            simp [hnow]
          · exact Bool.false_ne_true
      | remove r => exact ih h

/-- The account over a run in which nobody removes the bucket. -/
theorem admittedCalls_le (hclock : Clocked es)
    (hnow : ∀ t' ∈ es.filterMap LimiterEvent.time, now ≤ t') (hlast : bucket.lastRefill ≤ now)
    (hbucket : b (sessionKey s c) = some bucket) (h : Metered c.limit t₀ admitted bucket)
    (hspares : SparesAll b es) (hremove : .remove s ∉ es) (ht : now ≤ t) :
    admitted + (admittedCalls s c t b es : ℤ) ≤ c.limit * (1 + (t - t₀) / 60000) := by
  induction es generalizing b bucket now admitted with
  | nil =>
      rw [admittedCalls, answers, List.countP_nil, Int.natCast_zero, add_zero]
      exact h.admitted_le (limit_pos c) (hlast.trans ht)
  | cons e es ih =>
      obtain ⟨hhead, htail⟩ := sparesAll_cons.mp hspares
      have hremove' : .remove s ∉ es := fun hmem => hremove (List.mem_cons_of_mem e hmem)
      cases e with
      | remove r =>
          have hne : r ≠ s := fun heq => hremove (heq ▸ List.mem_cons_self)
          have hkept := limiterStep_of_ne (e := .remove r) hne hhead c
          rw [admittedCalls_cons, if_neg (show ¬ admits s c t
            (.remove r, (limiterStep b (.remove r)).2) = true from Bool.false_ne_true), add_zero]
          exact ih hclock.tail hnow hlast (hkept.trans hbucket) h htail hremove' ht
      | call n s' m =>
          have hn : now ≤ n := hnow n (List.mem_filterMap.mpr ⟨_, List.mem_cons_self, rfl⟩)
          by_cases hnt : n ≤ t
          · rw [admittedCalls_cons]
            by_cases hown : s' = s ∧ getLimitForMethod m = c
            · -- a call on the bucket
              obtain ⟨rfl, rfl⟩ := hown
              obtain ⟨hcall, hlast'⟩ := h.call (limit_pos _) (hlast.trans hn)
              rw [limiterStep_own hbucket] at htail ⊢
              have hrest := ih hclock.tail hclock.le hlast' (Function.update_self ..) hcall htail
                hremove' hnt
              have hcount : admits s' (getLimitForMethod m) t (.call n s' m,
                  some (callBucket (getLimitForMethod m).limit n (some bucket)).1) =
                    (callBucket (getLimitForMethod m).limit n (some bucket)).1 := by
                cases (callBucket (getLimitForMethod m).limit n (some bucket)).1 with
                | true => simp [admits, hnt]
                | false => rfl
              rw [hcount]
              push_cast
              rw [add_comm (admittedCalls ..  : ℤ), ← add_assoc]
              exact hrest
            · -- a call on another bucket
              have hne : sessionKey s c ≠ bucketKey s' m := by
                intro heq
                obtain ⟨rfl, rfl⟩ := sessionKey_inj heq
                exact hown ⟨rfl, rfl⟩
              have hkept : (limiterStep b (.call n s' m)).1 (sessionKey s c) = some bucket := by
                rw [limiterStep, checkRateLimit_eq]
                exact (Function.update_of_ne hne _ _).trans hbucket
              have hcount : ¬ admits s c t
                  (.call n s' m, (limiterStep b (.call n s' m)).2) = true := by
                rw [limiterStep]
                cases (checkRateLimit n s' m b).1 with
                | true => simpa [admits] using fun h₁ h₂ => absurd ⟨h₁, h₂⟩ hown
                | false => exact Bool.false_ne_true
              rw [if_neg hcount, add_zero]
              exact ih hclock.tail hclock.le (hlast.trans hn) hkept h htail hremove' hnt
          · -- the calls from here on are too late
            have hlate : admittedCalls s c t b (.call n s' m :: es) = 0 := by
              refine admittedCalls_eq_zero fun t' ht' => ?_
              rcases List.mem_cons.mp ht' with rfl | ht'
              · omega
              · have := hclock.le t' ht'
                omega
            rw [hlate, Int.natCast_zero, add_zero]
            exact h.admitted_le (limit_pos c) (hlast.trans ht)

/-! ### Runs -/

theorem SparesAll.append {before after : List LimiterEvent}
    (h : SparesAll b (before ++ after)) : SparesAll (bucketsAfter b before) after := by
  induction before generalizing b with
  | nil => exact h
  | cons e before ih => exact ih h.2

theorem SparesAll.of_prefix {before after : List LimiterEvent}
    (h : SparesAll b (before ++ after)) : SparesAll b before := by
  induction before generalizing b with
  | nil => trivial
  | cons e before ih => exact ⟨h.1, ih h.2⟩

/-- When every removal spares the buckets of the other sessions, the limits hold. -/
theorem isolated_of_sparesAll (h : SparesAll noBuckets es) : Isolated es :=
  fun _ => decisions_eq_alone (fun _ => rfl) h

theorem bounded_of_sparesAll (hclock : Clocked es) (h : SparesAll noBuckets es) : Bounded es := by
  rintro before after t₀ s m ⟨rest, rfl⟩ hnone hremove t ht
  have hspares := h.of_prefix.append
  have hclock' : Clocked (.call t₀ s m :: after) := by
    rw [Clocked, List.filterMap_append, List.filterMap_append] at hclock
    exact (List.pairwise_append.mp (List.pairwise_append.mp hclock).1).2.1
  have hstep : limiterStep (bucketsAfter noBuckets before) (.call t₀ s m) =
      (Function.update (bucketsAfter noBuckets before) (bucketKey s m)
        (some ⟨(getLimitForMethod m).limit - 1, t₀⟩), some true) :=
    limiterStep_own hnone
  have htail := (sparesAll_cons.mp hspares).2
  rw [hstep] at htail
  have hrest := admittedCalls_le hclock'.tail hclock'.le (le_refl t₀)
    (Function.update_self (bucketKey s m) _ _) (Metered.new (limit_pos (getLimitForMethod m)))
    htail hremove ht
  have hcount : admits s (getLimitForMethod m) t (.call t₀ s m, some true) = true := by
    simp [admits, ht]
  rw [admittedCalls_cons, hstep, hcount, if_pos rfl]
  push_cast
  rw [add_comm]
  exact hrest

/-- The names of sessions of which none begins the key of another one. -/
def Separate (sessions : Set String) : Prop :=
  ∀ r ∈ sessions, ∀ s ∈ sessions, r ≠ s → ∀ c, (sessionKey s c).startsWith r = false

/-- A run in which only these sessions act. -/
def Among (sessions : Set String) (es : List LimiterEvent) : Prop :=
  ∀ e ∈ es, e.sessionId ∈ sessions

/-- Every bucket of the table belongs to one of the sessions. -/
def Owned (sessions : Set String) (b : Buckets) : Prop :=
  ∀ key, b key ≠ none → ∃ s ∈ sessions, ∃ c, key = sessionKey s c

theorem Owned.step {sessions : Set String} (h : Owned sessions b)
    (he : e.sessionId ∈ sessions) : Owned sessions (limiterStep b e).1 := by
  intro key hkey
  cases e with
  | call now s m =>
      rw [limiterStep, checkRateLimit_eq] at hkey
      dsimp only at hkey
      by_cases hown : key = bucketKey s m
      · exact ⟨s, he, getLimitForMethod m, hown⟩
      · rw [Function.update_of_ne hown] at hkey
        exact h key hkey
  | remove r =>
      by_cases hstarts : key.startsWith r = true
      · exact absurd (if_pos hstarts) hkey
      · exact h key ((if_neg hstarts).symm.trans_ne hkey)

/-- Sessions with separate names spare each other. -/
theorem Separate.sparesAll {sessions : Set String} (h : Separate sessions)
    (hb : Owned sessions b) (hes : Among sessions es) : SparesAll b es := by
  induction es generalizing b with
  | nil => trivial
  | cons e es ih =>
      obtain ⟨he, hes⟩ := List.forall_mem_cons.mp hes
      refine ⟨?_, ih (hb.step he) hes⟩
      cases e with
      | call now s m => trivial
      | remove r =>
          intro s c hne hstarts
          by_contra hbucket
          obtain ⟨s', hs', c', hkey⟩ := hb _ hbucket
          obtain ⟨rfl, rfl⟩ := sessionKey_inj hkey
          exact absurd hstarts (by rw [h r he s hs' (Ne.symm hne) c]; exact Bool.false_ne_true)

/-! ### A session that is filled up by another one -/

/-- Calls of a session at one time. -/
def burst (n : ℕ) (s m : String) : List LimiterEvent := List.replicate n (.call 0 s m)

/-- A call at the time at which the bucket was made. -/
theorem callBucket_at {tokens : ℤ} :
    callBucket limit 0 (some ⟨tokens, 0⟩) =
      if 0 < tokens then (true, ⟨tokens - 1, 0⟩) else (false, ⟨tokens, 0⟩) := by
  have hrefill : TokenBucket.refill ⟨tokens, 0⟩ limit 0 = ⟨tokens, 0⟩ := by
    simp [TokenBucket.refill]
  rw [callBucket, hrefill]

/-- The calls that are left in the bucket are admitted, and then no further one is. -/
theorem decisions_burst {m : String} {n : ℕ} (s' : String) (rest : List LimiterEvent)
    (hs' : s = s') (hbucket : b (bucketKey s m) = some ⟨n, 0⟩) :
    ∃ b', b' (bucketKey s m) = some ⟨0, 0⟩ ∧
      decisions s' b (burst n s m ++ rest) = List.replicate n true ++ decisions s' b' rest := by
  induction n generalizing b with
  | zero => exact ⟨b, hbucket, rfl⟩
  | succ n ih =>
      have hcall : callBucket (getLimitForMethod m).limit 0 (b (bucketKey s m)) =
          (true, ⟨n, 0⟩) := by
        rw [hbucket, callBucket_at, if_pos (by omega)]
        simp
      obtain ⟨b', hb', hrest⟩ := ih (b := (limiterStep b (.call 0 s m)).1) (by
        rw [limiterStep, checkRateLimit_eq, hcall]
        exact Function.update_self ..)
      refine ⟨b', hb', ?_⟩
      rw [burst, List.replicate_succ, List.cons_append, decisions_cons, ← burst, hrest,
        if_pos (show LimiterEvent.sessionId (.call 0 s m) = s' from hs'), List.replicate_succ,
        limiterStep, checkRateLimit_eq, hcall]
      rfl

/-- The limit of a class at once, the end of another session, and one call more. -/
def refilled (r s m : String) : List LimiterEvent :=
  burst (getLimitForMethod m).limit.toNat s m ++ [.remove r, .call 0 s m]

theorem clocked_refilled (r s m : String) : Clocked (refilled r s m) := by
  refine List.pairwise_of_forall_mem_list fun t ht t' ht' => ?_
  have hzero : ∀ t ∈ (refilled r s m).filterMap LimiterEvent.time, t = 0 := by
    intro t ht
    obtain ⟨e, he, htime⟩ := List.mem_filterMap.mp ht
    rcases List.mem_append.mp he with he | he
    · obtain rfl := List.eq_of_mem_replicate he
      exact (Option.some.inj htime).symm
    · rcases List.mem_pair.mp he with rfl | rfl
      · cases htime
      · exact (Option.some.inj htime).symm
  rw [hzero t ht, hzero t' ht']

/-- The end of the other session fills up the bucket. -/
theorem not_isolated_refilled {r s m : String} (hne : r ≠ s)
    (hstarts : (bucketKey s m).startsWith r = true) : ¬ Isolated (refilled r s m) := by
  intro h
  have hlimit := limit_pos (getLimitForMethod m)
  obtain ⟨k, hk⟩ : ∃ k, (getLimitForMethod m).limit.toNat = k + 1 :=
    ⟨(getLimitForMethod m).limit.toNat - 1, by omega⟩
  -- the first call makes the bucket, and leaves the others
  have hfirst : (limiterStep noBuckets (.call 0 s m)).1 (bucketKey s m) = some ⟨k, 0⟩ := by
    rw [limiterStep, checkRateLimit_eq]
    refine (Function.update_self ..).trans ?_
    rw [show (k : ℤ) = (getLimitForMethod m).limit - 1 by omega]
    rfl
  have hown : (refilled r s m).filter (fun e => e.sessionId = s) =
      burst (k + 1) s m ++ [.call 0 s m] := by
    rw [refilled, hk, List.filter_append, burst, List.filter_replicate_of_pos (by
      simp [LimiterEvent.sessionId])]
    simp [LimiterEvent.sessionId, hne]
  have hs := h s
  rw [hown, refilled, hk, burst, List.replicate_succ, List.cons_append, List.cons_append,
    decisions_cons, decisions_cons, ← burst] at hs
  obtain ⟨b₁, hb₁, h₁⟩ := decisions_burst s [.remove r, .call 0 s m] rfl hfirst
  obtain ⟨b₂, hb₂, h₂⟩ := decisions_burst s [.call 0 s m] rfl hfirst
  rw [h₁, h₂] at hs
  have hlast := List.append_cancel_left (List.append_cancel_left hs)
  have hfull : (limiterStep b₁ (.remove r)).1 (bucketKey s m) = none := if_pos hstarts
  rw [decisions_cons, decisions_cons, decisions_cons,
    if_neg (show LimiterEvent.sessionId (.remove r) ≠ s from hne),
    if_pos (show LimiterEvent.sessionId (.call 0 s m) = s from rfl),
    if_pos (show LimiterEvent.sessionId (.call 0 s m) = s from rfl),
    limiterStep_own hfull, limiterStep_own hb₂, callBucket_at, if_neg (lt_irrefl 0)] at hlast
  exact Bool.noConfusion (List.cons.inj hlast).1

/-- Every class has a method. -/
theorem exists_getLimitForMethod (c : LimitClass) : ∃ m, getLimitForMethod m = c := by
  cases c with
  | compile => exact ⟨"compileSt", if_pos (String.startsWith_string_iff.mpr (by decide))⟩
  | signal =>
      refine ⟨"readSignal", ?_⟩
      rw [getLimitForMethod, if_neg (by rw [String.startsWith_string_iff]; decide),
        if_pos (Or.inl rfl)]
  | default =>
      refine ⟨"openProject", ?_⟩
      rw [getLimitForMethod, if_neg (by rw [String.startsWith_string_iff]; decide),
        if_neg (by decide)]

/-- A run in which every removal spares the buckets of the other sessions keeps the limits of
each session. For a set of names all runs do just when no name begins the key of another. -/
theorem sessions_isolated (sessions : Set String) :
    (∀ es, Clocked es → SparesAll noBuckets es → Isolated es ∧ Bounded es) ∧
      ((∀ es, Among sessions es → Clocked es → Isolated es ∧ Bounded es) ↔
        Separate sessions) := by
  refine ⟨fun es hclock h => ⟨isolated_of_sparesAll h, bounded_of_sparesAll hclock h⟩,
    fun h r hr s hs hne c => ?_, fun h es hes hclock => ?_⟩
  · by_contra hstarts
    obtain ⟨m, rfl⟩ := exists_getLimitForMethod c
    have hes : Among sessions (refilled r s m) := by
      intro e he
      rcases List.mem_append.mp he with he | he
      · obtain rfl := List.eq_of_mem_replicate he
        exact hs
      · rcases List.mem_pair.mp he with rfl | rfl
        · exact hr
        · exact hs
    exact not_isolated_refilled hne (Bool.not_eq_false _ ▸ hstarts)
      (h _ hes (clocked_refilled r s m)).1
  · have hspares := h.sparesAll (fun key hkey => absurd rfl hkey) hes
    exact ⟨isolated_of_sparesAll hspares, bounded_of_sparesAll hclock hspares⟩

/-- Two names of which none begins a key of the other. -/
theorem sessions_isolated_two :
    Isolated [.call 0 "a" "compileSt", .remove "b"] ∧
      Bounded [.call 0 "a" "compileSt", .remove "b"] := by
  have hseparate : Separate {"a", "b"} := by
    rintro r (rfl | rfl) s (rfl | rfl) hne c
    · exact absurd rfl hne
    · rw [String.startsWith_string_eq_false_iff, toList_sessionKey]
      cases c <;> decide
    · rw [String.startsWith_string_eq_false_iff, toList_sessionKey]
      cases c <;> decide
    · exact absurd rfl hne
  refine (sessions_isolated {"a", "b"}).2.mpr hseparate _ ?_ (List.pairwise_singleton _ _)
  rintro e (_ | ⟨_, _ | ⟨_, he⟩⟩)
  · exact Or.inl rfl
  · exact Or.inr rfl
  · cases he

/-- The end of the session `s1` fills up the bucket of `s10`. -/
theorem not_isolated_s10 :
    ∃ es, Among {"s1", "s10"} es ∧ Clocked es ∧ ¬ (Isolated es ∧ Bounded es) := by
  refine ⟨refilled "s1" "s10" "compileSt", ?_, clocked_refilled _ _ _, fun h => ?_⟩
  · intro e he
    rcases List.mem_append.mp he with he | he
    · obtain rfl := List.eq_of_mem_replicate he
      exact Or.inr rfl
    · rcases List.mem_pair.mp he with rfl | rfl
      · exact Or.inl rfl
      · exact Or.inr rfl
  · refine not_isolated_refilled (by decide) ?_ h.1
    rw [bucketKey_eq, String.startsWith_string_iff, toList_sessionKey]
    exact ⟨_, rfl⟩

end Weftik.Backend
