import Weftik.HalValue

/-!
# Injected Faults

The simulation harness keeps the faults that have been injected into it, each on one signal
and for a number of cycles, and the value of a signal is resolved through those that are
active: a timeout or a disconnect suppresses the update, a value out of range replaces it.
The end of a fault is a `u64` sum, and the scan of the active faults stops at the first one
that suppresses, and also at a value out of range for which the type has no extreme.

## Main definitions

* `Simulation.ActiveFault`, `Simulation.Harness`: the faults and the harness.
* `Simulation.Harness.activeFaults`, `Simulation.Harness.resolveFault`: the faults of a
  cycle, and a value resolved through them.
* `Simulation.IntervalExact`: what a resolution has to be.

## Main results

* `Simulation.intervalExact_iff`: the faults, the signals and the values for which it is.
-/

namespace Weftik.Simulation

variable {P : Platform}

/-! ### The harness -/

/-- The kinds of faults. -/
inductive FaultKind
  | timeout | outOfRange | disconnect
  deriving DecidableEq, Repr

/-- A fault of a signal, from a cycle on and for a number of cycles. -/
structure ActiveFault where
  kind : FaultKind
  signal : String
  startCycle : UInt64
  durationCycles : UInt64
  deriving DecidableEq, Repr

/-- The harness: the injected faults, in the order of injection, and the cycle count of its
engine. -/
structure Harness where
  faults : List ActiveFault
  cycleCount : UInt64

/-- A fault is injected. -/
def Harness.injectFault (h : Harness) (kind : FaultKind) (signal : String)
    (startCycle durationCycles : UInt64) : Harness :=
  { h with faults := h.faults ++ [⟨kind, signal, startCycle, durationCycles⟩] }

/-- The faults are cleared. -/
def Harness.clearFaults (h : Harness) : Harness :=
  { h with faults := [] }

/-- Is the fault active in the cycle? The end is added up only when the fault has begun. -/
def ActiveFault.isActive (P : Platform) (current : UInt64) (f : ActiveFault) :
    Except Panic Bool :=
  if f.startCycle ≤ current then do
    let stop : UInt64 ← checked P (f.startCycle.toNat + f.durationCycles.toNat)
    pure (current < stop)
  else pure false

/-- The active faults among the given ones. -/
def activeAmong (P : Platform) (current : UInt64) :
    List ActiveFault → Except Panic (List ActiveFault)
  | [] => pure []
  | f :: fs => do
      let active ← f.isActive P current
      let rest ← activeAmong P current fs
      pure (if active then f :: rest else rest)

/-- The faults that are active in the current cycle. -/
def Harness.activeFaults (P : Platform) (h : Harness) : Except Panic (List ActiveFault) :=
  activeAmong P h.cycleCount h.faults

/-- `f32::MAX`. -/
def f32Max (P : Platform) : P.F32 :=
  P.ofBits32 0x7F7FFFFF

/-- The extreme that a value is replaced by; only four types have one. -/
def extreme (P : Platform) : HalValue P → Option (HalValue P)
  | .f32 _ => some (.f32 (f32Max P))
  | .u32 _ => some (.u32 (UInt32.ofNat (2 ^ 32 - 1)))
  | .s32 _ => some (.s32 (Int32.ofInt (2 ^ 31 - 1)))
  | .bool b => some (.bool !b)
  | _ => none

/-- The scan of the active faults: whether the value is to be taken, and what it is left
at. -/
def resolveAmong (P : Platform) (signal : String) :
    List ActiveFault → HalValue P → Bool × HalValue P
  | [], value => (true, value)
  | f :: fs, value =>
      if f.signal ≠ signal then resolveAmong P signal fs value
      else
        match f.kind with
        | .timeout | .disconnect => (false, value)
        | .outOfRange =>
            match extreme P value with
            | some maxed => resolveAmong P signal fs maxed
            -- the source returns here, and the faults behind this one are not looked at
            | none => (true, value)

/-- A value resolved through the active faults of its signal. -/
def Harness.resolveFault (P : Platform) (h : Harness) (signal : String)
    (value : HalValue P) : Except Panic (Bool × HalValue P) := do
  let faults ← h.activeFaults P
  pure (resolveAmong P signal faults value)

/-- The harness at a cycle after the faults have been injected, one after the other. -/
def injected (cycle : UInt64) (fs : List ActiveFault) : Harness :=
  fs.foldl (fun h f => h.injectFault f.kind f.signal f.startCycle f.durationCycles) ⟨[], cycle⟩

attribute [local simp] resolveAmong

/-- Injections append. -/
theorem foldl_injectFault (fs : List ActiveFault) (h : Harness) :
    fs.foldl (fun h f => h.injectFault f.kind f.signal f.startCycle f.durationCycles) h =
      { h with faults := h.faults ++ fs } := by
  induction fs generalizing h with
  | nil => simp
  | cons f fs ih =>
      rw [List.foldl_cons, ih]
      simp [Harness.injectFault]

/-- The injected faults are those of the harness. -/
theorem injected_eq (cycle : UInt64) (fs : List ActiveFault) :
    injected cycle fs = ⟨fs, cycle⟩ := by
  simp [injected, foldl_injectFault]

/-! ### What a resolution has to be -/

/-- The fault covers the cycle: the interval, without overflow. -/
def ActiveFault.Covers (cycle : UInt64) (f : ActiveFault) : Prop :=
  f.startCycle.toNat ≤ cycle.toNat ∧
    cycle.toNat < f.startCycle.toNat + f.durationCycles.toNat

instance (cycle : UInt64) : DecidablePred (ActiveFault.Covers cycle) :=
  fun _ => inferInstanceAs (Decidable (_ ∧ _))

/-- Does the kind suppress an update? -/
def FaultKind.Suppresses (k : FaultKind) : Prop :=
  k = .timeout ∨ k = .disconnect

instance : DecidablePred FaultKind.Suppresses :=
  fun _ => inferInstanceAs (Decidable (_ ∨ _))

/-- A fault of the given sort is active on the signal. -/
def Active (fs : List ActiveFault) (cycle : UInt64) (signal : String)
    (sort : FaultKind → Prop) : Prop :=
  ∃ f ∈ fs, f.Covers cycle ∧ f.signal = signal ∧ sort f.kind

/-- A resolution is exact: the active faults are those whose interval covers the cycle, the
update is suppressed if and only if one of them on the signal suppresses, and no other order
of injection gives another outcome. -/
structure IntervalExact (P : Platform) (fs : List ActiveFault) (cycle : UInt64)
    (signal : String) (value : HalValue P) : Prop where
  active : (injected cycle fs).activeFaults P = .ok (fs.filter (·.Covers cycle))
  suppressed : ∃ taken left,
    (injected cycle fs).resolveFault P signal value = .ok (taken, left) ∧
      (taken = false ↔ Active fs cycle signal FaultKind.Suppresses)
  unordered : ∀ fs' : List ActiveFault, fs'.Perm fs →
    (injected cycle fs').resolveFault P signal value =
      (injected cycle fs).resolveFault P signal value

/-! ### The interval -/

/-- The fault has begun, and its end is past the largest cycle number. -/
def ActiveFault.Overruns (cycle : UInt64) (f : ActiveFault) : Prop :=
  f.startCycle.toNat ≤ cycle.toNat ∧
    2 ^ 64 ≤ f.startCycle.toNat + f.durationCycles.toNat

/-- A sum of two `u64` numbers that fits. -/
theorem checked_add_of_lt {a b : UInt64} (h : a.toNat + b.toNat < 2 ^ 64) :
    checked P (α := UInt64) (a.toNat + b.toNat) = .ok (a + b) := by
  have hin : ((a.toNat : ℤ) + b.toNat) ≤ MachineInt.maxInt UInt64 := by
    change ((a.toNat : ℤ) + b.toNat) ≤ 2 ^ 64 - 1
    omega
  have hpos : MachineInt.minInt UInt64 ≤ ((a.toNat : ℤ) + b.toNat) := by
    change 0 ≤ ((a.toNat : ℤ) + b.toNat)
    omega
  rw [checked, if_pos (Or.inl ⟨hpos, hin⟩)]
  congr 1
  apply UInt64.toNat.inj
  change (UInt64.ofNat (((a.toNat : ℤ) + b.toNat) % 2 ^ 64).toNat).toNat = _
  rw [UInt64.toNat_ofNat', UInt64.toNat_add]
  omega

/-- A sum of two `u64` numbers that does not fit is no value, or one below its terms. -/
theorem checked_add_of_le {a b s : UInt64} (h : 2 ^ 64 ≤ a.toNat + b.toNat)
    (hs : checked P (α := UInt64) (a.toNat + b.toNat) = .ok s) : s.toNat < a.toNat := by
  rw [checked] at hs
  split at hs
  · injection hs with hs
    subst hs
    change (UInt64.ofNat (((a.toNat : ℤ) + b.toNat) % 2 ^ 64).toNat).toNat < _
    rw [UInt64.toNat_ofNat']
    have ha := a.toNat_lt
    have hb := b.toNat_lt
    omega
  · cases hs

variable {cycle : UInt64} {f : ActiveFault}

/-- A fault that does not overrun is active exactly in its interval. -/
theorem ActiveFault.isActive_eq (h : ¬ f.Overruns cycle) :
    f.isActive P cycle = .ok (decide (f.Covers cycle)) := by
  rw [isActive]
  by_cases hstart : f.startCycle ≤ cycle
  · have hfits : f.startCycle.toNat + f.durationCycles.toNat < 2 ^ 64 := by
      by_contra hlarge
      exact h ⟨UInt64.le_iff_toNat_le.mp hstart, not_lt.mp hlarge⟩
    rw [if_pos hstart, checked_add_of_lt hfits]
    change Except.ok _ = Except.ok _
    congr 1
    rw [decide_eq_decide, UInt64.lt_iff_toNat_lt, UInt64.toNat_add,
      Nat.mod_eq_of_lt hfits]
    exact ⟨fun hlt => ⟨UInt64.le_iff_toNat_le.mp hstart, hlt⟩, fun hcovers => hcovers.2⟩
  · rw [if_neg hstart]
    change Except.ok _ = Except.ok _
    congr 1
    symm
    rw [decide_eq_false_iff_not]
    exact fun hcovers => hstart (UInt64.le_iff_toNat_le.mpr hcovers.1)

/-- A fault that overruns is never found active, although it covers the cycle. -/
theorem ActiveFault.Overruns.not_active (h : f.Overruns cycle) :
    f.Covers cycle ∧ f.isActive P cycle ≠ .ok true := by
  have hcycle := cycle.toNat_lt
  refine ⟨⟨h.1, by have := h.2; omega⟩, fun hactive => ?_⟩
  rw [isActive, if_pos (UInt64.le_iff_toNat_le.mpr h.1)] at hactive
  cases hsum : checked P (α := UInt64) (f.startCycle.toNat + f.durationCycles.toNat) with
  | error e =>
      rw [hsum] at hactive
      cases hactive
  | ok stop =>
      rw [hsum] at hactive
      have hlt : decide (cycle < stop) = true := Except.ok.inj hactive
      have hstop := checked_add_of_le h.2 hsum
      have := UInt64.lt_iff_toNat_lt.mp (of_decide_eq_true hlt)
      have := h.1
      omega

variable {fs : List ActiveFault}

/-- Without an overrun the active faults are those that cover the cycle. -/
theorem activeAmong_eq (h : ∀ f ∈ fs, ¬ f.Overruns cycle) :
    activeAmong P cycle fs = .ok (fs.filter (·.Covers cycle)) := by
  induction fs with
  | nil => rfl
  | cons f fs ih =>
      rw [activeAmong, ActiveFault.isActive_eq (h f List.mem_cons_self),
        ih fun g hg => h g (List.mem_cons_of_mem f hg), List.filter_cons]
      rfl

/-- A fault that overruns is not among the active ones. -/
theorem not_mem_activeAmong {found : List ActiveFault} (hf : f.Overruns cycle)
    (h : activeAmong P cycle fs = .ok found) : f ∉ found := by
  induction fs generalizing found with
  | nil =>
      obtain rfl : [] = found := Except.ok.inj h
      exact List.not_mem_nil
  | cons g fs ih =>
      rw [activeAmong] at h
      cases hactive : g.isActive P cycle with
      | error e =>
          rw [hactive] at h
          cases h
      | ok active =>
          rw [hactive] at h
          cases hrest : activeAmong P cycle fs with
          | error e =>
              rw [hrest] at h
              cases h
          | ok rest =>
              rw [hrest] at h
              obtain rfl : (if active then g :: rest else rest) = found := Except.ok.inj h
              cases active with
              | false => exact ih hrest
              | true =>
                  intro hmem
                  rcases List.mem_cons.mp hmem with rfl | hmem
                  · exact hf.not_active.2 hactive
                  · exact ih hrest hmem

/-- The active faults are the right ones if and only if no fault overruns. -/
theorem activeAmong_eq_iff :
    activeAmong P cycle fs = .ok (fs.filter (·.Covers cycle)) ↔
      ∀ f ∈ fs, ¬ f.Overruns cycle := by
  refine ⟨fun h f hf hover => ?_, activeAmong_eq⟩
  refine not_mem_activeAmong hover h (List.mem_filter.mpr ⟨hf, ?_⟩)
  exact decide_eq_true (hover.not_active (P := P)).1

/-! ### The scan -/

variable {signal : String} {value : HalValue P}

/-- A fault of another signal is passed over. -/
theorem resolveAmong_cons_of_ne (h : f.signal ≠ signal) :
    resolveAmong P signal (f :: fs) value = resolveAmong P signal fs value := by
  rw [resolveAmong, if_pos h]

/-- A fault that suppresses ends the scan. -/
theorem resolveAmong_cons_of_suppresses (h : f.signal = signal) (hk : f.kind.Suppresses) :
    resolveAmong P signal (f :: fs) value = (false, value) := by
  rw [resolveAmong, if_neg (not_not.mpr h)]
  rcases hk with hk | hk <;> rw [hk]

/-- A value out of range goes on with the extreme. -/
theorem resolveAmong_cons_of_some {maxed : HalValue P} (h : f.signal = signal)
    (hk : f.kind = .outOfRange) (hm : extreme P value = some maxed) :
    resolveAmong P signal (f :: fs) value = resolveAmong P signal fs maxed := by
  rw [resolveAmong, if_neg (not_not.mpr h), hk]
  simp only [hm]

/-- A value out of range of a type without an extreme ends the scan. -/
theorem resolveAmong_cons_of_none (h : f.signal = signal) (hk : f.kind = .outOfRange)
    (hm : extreme P value = none) : resolveAmong P signal (f :: fs) value = (true, value) := by
  rw [resolveAmong, if_neg (not_not.mpr h), hk]
  simp only [hm]

/-- A kind that does not suppress is a value out of range. -/
theorem FaultKind.eq_outOfRange {k : FaultKind} (h : ¬ k.Suppresses) : k = .outOfRange := by
  cases k with
  | timeout => exact absurd (Or.inl rfl) h
  | outOfRange => rfl
  | disconnect => exact absurd (Or.inr rfl) h

/-- A fault of the given sort stands in the list, on the signal. -/
def Stands (fs : List ActiveFault) (signal : String) (sort : FaultKind → Prop) : Prop :=
  ∃ f ∈ fs, f.signal = signal ∧ sort f.kind

variable {sort : FaultKind → Prop}

/-- The active faults that stand in the list of those that cover the cycle. -/
theorem stands_filter :
    Stands (fs.filter (·.Covers cycle)) signal sort ↔ Active fs cycle signal sort := by
  constructor
  · rintro ⟨f, hf, hsignal, hsort⟩
    obtain ⟨hmem, hcovers⟩ := List.mem_filter.mp hf
    exact ⟨f, hmem, of_decide_eq_true hcovers, hsignal, hsort⟩
  · rintro ⟨f, hmem, hcovers, hsignal, hsort⟩
    exact ⟨f, List.mem_filter.mpr ⟨hmem, decide_eq_true hcovers⟩, hsignal, hsort⟩

/-- A list in which a fault of the sort stands, behind another fault. -/
theorem Stands.cons (h : Stands fs signal sort) : Stands (f :: fs) signal sort := by
  obtain ⟨g, hg, hsignal, hsort⟩ := h
  exact ⟨g, List.mem_cons_of_mem f hg, hsignal, hsort⟩

/-- What stands in a list stands in every order of it. -/
theorem stands_perm {fs' : List ActiveFault} (h : fs'.Perm fs) :
    Stands fs' signal sort ↔ Stands fs signal sort := by
  constructor
  · rintro ⟨f, hf, hrest⟩
    exact ⟨f, h.mem_iff.mp hf, hrest⟩
  · rintro ⟨f, hf, hrest⟩
    exact ⟨f, h.mem_iff.mpr hf, hrest⟩

/-- Without a fault that suppresses the value is taken. -/
theorem resolveAmong_taken (h : ¬ Stands fs signal FaultKind.Suppresses) (value : HalValue P) :
    (resolveAmong P signal fs value).1 = true := by
  induction fs generalizing value with
  | nil => rfl
  | cons f fs ih =>
      have hrest := ih fun hs => h hs.cons
      by_cases hsignal : f.signal = signal
      · have hk : f.kind = .outOfRange := by
          refine FaultKind.eq_outOfRange fun hk => h ?_
          exact ⟨f, List.mem_cons_self, hsignal, hk⟩
        cases hm : extreme P value with
        | none => rw [resolveAmong_cons_of_none hsignal hk hm]
        | some maxed =>
            rw [resolveAmong_cons_of_some hsignal hk hm]
            exact hrest maxed
      · rw [resolveAmong_cons_of_ne hsignal]
        exact hrest value

/-- Without a fault that suppresses the order does not matter. -/
theorem resolveAmong_perm {fs' : List ActiveFault} (hp : fs'.Perm fs)
    (h : ¬ Stands fs signal FaultKind.Suppresses) (value : HalValue P) :
    resolveAmong P signal fs' value = resolveAmong P signal fs value := by
  induction hp generalizing value with
  | nil => rfl
  | @cons f fs₁ fs₂ hp ih =>
      have hrest := ih fun hs => h hs.cons
      by_cases hsignal : f.signal = signal
      · have hk : f.kind = .outOfRange := by
          refine FaultKind.eq_outOfRange fun hk => h ?_
          exact ⟨f, List.mem_cons_self, hsignal, hk⟩
        cases hm : extreme P value with
        | none =>
            rw [resolveAmong_cons_of_none hsignal hk hm,
              resolveAmong_cons_of_none hsignal hk hm]
        | some maxed =>
            rw [resolveAmong_cons_of_some hsignal hk hm,
              resolveAmong_cons_of_some hsignal hk hm, hrest]
      · rw [resolveAmong_cons_of_ne hsignal, resolveAmong_cons_of_ne hsignal, hrest]
  | swap f g fs =>
      by_cases hf : f.signal = signal
      · by_cases hg : g.signal = signal
        · -- both replace the value, and which of them comes first is not seen
          have hkf : f.kind = .outOfRange := by
            refine FaultKind.eq_outOfRange fun hk => h ?_
            exact ⟨f, List.mem_cons_self, hf, hk⟩
          have hkg : g.kind = .outOfRange := by
            refine FaultKind.eq_outOfRange fun hk => h ?_
            exact ⟨g, List.mem_cons_of_mem f List.mem_cons_self, hg, hk⟩
          simp only [resolveAmong, hf, hg, hkf, hkg]
        · simp only [resolveAmong, hf, hg, ne_eq, not_true_eq_false, not_false_eq_true,
            if_true, if_false]
      · simp only [resolveAmong, hf, ne_eq, not_false_eq_true, if_true]
  | trans hp₁ hp₂ ih₁ ih₂ =>
      rw [ih₁ fun hs => h ((stands_perm hp₂).mp hs), ih₂ h]

/-- When no fault changes the value, it is taken if and only if none suppresses it. -/
theorem resolveAmong_fixed (h : Stands fs signal (· = .outOfRange) → extreme P value = some value) :
    (resolveAmong P signal fs value).2 = value ∧
      ((resolveAmong P signal fs value).1 = false ↔
        Stands fs signal FaultKind.Suppresses) := by
  induction fs with
  | nil =>
      have hnone : ¬ Stands [] signal FaultKind.Suppresses := by
        rintro ⟨f, hf, -⟩
        exact List.not_mem_nil hf
      exact ⟨rfl, iff_of_false Bool.noConfusion hnone⟩
  | cons f fs ih =>
      have hrest := ih fun hs => h hs.cons
      have htail : ¬ (f.signal = signal ∧ f.kind.Suppresses) →
          (Stands (f :: fs) signal FaultKind.Suppresses ↔
            Stands fs signal FaultKind.Suppresses) := by
        refine fun hhead => ⟨?_, Stands.cons⟩
        rintro ⟨g, hg, hsignal, hk⟩
        rcases List.mem_cons.mp hg with rfl | hg
        · exact absurd ⟨hsignal, hk⟩ hhead
        · exact ⟨g, hg, hsignal, hk⟩
      by_cases hsignal : f.signal = signal
      · by_cases hk : f.kind.Suppresses
        · rw [resolveAmong_cons_of_suppresses hsignal hk]
          exact ⟨rfl, fun _ => ⟨f, List.mem_cons_self, hsignal, hk⟩, fun _ => rfl⟩
        · have hout := FaultKind.eq_outOfRange hk
          rw [resolveAmong_cons_of_some hsignal hout
            (h ⟨f, List.mem_cons_self, hsignal, hout⟩), htail fun hhead => hk hhead.2]
          exact hrest
      · rw [resolveAmong_cons_of_ne hsignal, htail fun hhead => hsignal hhead.1]
        exact hrest

/-! ### The resolutions that are exact -/

/-- The value of an exact resolution: where a fault suppresses the update and another one
replaces the value, the value is its own extreme. -/
def Settled (P : Platform) (fs : List ActiveFault) (cycle : UInt64) (signal : String)
    (value : HalValue P) : Prop :=
  Active fs cycle signal (· = .outOfRange) → Active fs cycle signal FaultKind.Suppresses →
    extreme P value = some value

/-- Without an overrun a value is resolved through the faults that cover the cycle. -/
theorem resolveFault_injected (h : ∀ f ∈ fs, ¬ f.Overruns cycle) (signal : String)
    (value : HalValue P) :
    (injected cycle fs).resolveFault P signal value =
      .ok (resolveAmong P signal (fs.filter (·.Covers cycle)) value) := by
  rw [injected_eq, Harness.resolveFault, Harness.activeFaults, activeAmong_eq h]
  rfl

/-- Where the order does not matter the value is settled: the order that begins with the
fault that suppresses is compared with the one in which it is second. -/
theorem settled_of_unordered (hover : ∀ f ∈ fs, ¬ f.Overruns cycle)
    (hunordered : ∀ fs' : List ActiveFault, fs'.Perm fs →
        (injected cycle fs').resolveFault P signal value =
        (injected cycle fs).resolveFault P signal value) :
    Settled P fs cycle signal value := by
  intro hout hsup
  obtain ⟨f, hf, hfcovers, hfsignal, hfk⟩ := hout
  obtain ⟨g, hg, hgcovers, hgsignal, hgk⟩ := hsup
  have hne : g ≠ f := by
    rintro rfl
    rcases hgk with hgk | hgk <;> rw [hfk] at hgk <;> cases hgk
  have hgrest : g ∈ fs.erase f := (List.mem_erase_of_ne hne).mpr hg
  have hfirst := hunordered _ (List.perm_cons_erase hg).symm
  have hsecond := hunordered (f :: g :: (fs.erase f).erase g)
    (((List.perm_cons_erase hgrest).symm.cons f).trans (List.perm_cons_erase hf).symm)
  rw [← hfirst, resolveFault_injected fun k hk => hover k ?_,
    resolveFault_injected fun k hk => hover k ?_, List.filter_cons,
    if_pos (decide_eq_true hfcovers), List.filter_cons, if_pos (decide_eq_true hgcovers),
    List.filter_cons, if_pos (decide_eq_true hgcovers),
    resolveAmong_cons_of_suppresses hgsignal hgk] at hsecond
  · have hsame := Except.ok.inj hsecond
    cases hm : extreme P value with
    | none =>
        rw [resolveAmong_cons_of_none hfsignal hfk hm] at hsame
        cases hsame
    | some maxed =>
        rw [resolveAmong_cons_of_some hfsignal hfk hm,
          resolveAmong_cons_of_suppresses hgsignal hgk] at hsame
        exact congrArg (some ·.2) hsame
  · exact (List.perm_cons_erase hg).mem_iff.mpr hk
  · exact (((List.perm_cons_erase hgrest).symm.cons f).trans
      (List.perm_cons_erase hf).symm).mem_iff.mp hk

/-- A settled value is resolved exactly. -/
theorem Settled.intervalExact (hover : ∀ f ∈ fs, ¬ f.Overruns cycle)
    (hsettled : Settled P fs cycle signal value) : IntervalExact P fs cycle signal value := by
  refine ⟨?_, ⟨_, _, resolveFault_injected hover signal value, ?_⟩, fun fs' hp => ?_⟩
  · rw [injected_eq]
    exact activeAmong_eq hover
  · by_cases hsup : Active fs cycle signal FaultKind.Suppresses
    · rw [← stands_filter]
      exact (resolveAmong_fixed fun hout => hsettled (stands_filter.mp hout) hsup).2
    · rw [resolveAmong_taken fun hs => hsup (stands_filter.mp hs)]
      exact iff_of_false Bool.noConfusion hsup
  · have hfilter := hp.filter (fun f => decide (f.Covers cycle))
    rw [resolveFault_injected hover,
      resolveFault_injected fun f hf => hover f (hp.mem_iff.mp hf)]
    congr 1
    by_cases hsup : Active fs cycle signal FaultKind.Suppresses
    · have hout : Stands (fs.filter (·.Covers cycle)) signal (· = .outOfRange) →
          extreme P value = some value :=
        fun hout => hsettled (stands_filter.mp hout) hsup
      have hfixed := resolveAmong_fixed hout
      have hfixed' := resolveAmong_fixed fun h => hout ((stands_perm hfilter).mp h)
      refine Prod.ext ?_ (hfixed'.1.trans hfixed.1.symm)
      rw [hfixed.2.mpr (stands_filter.mpr hsup),
        hfixed'.2.mpr ((stands_perm hfilter).mpr (stands_filter.mpr hsup))]
    · exact resolveAmong_perm hfilter (fun hs => hsup (stands_filter.mp hs)) value

/-- **A resolution is exact** if and only if no fault that has begun ends past the largest
cycle number, and the value of the signal is settled. -/
theorem intervalExact_iff (P : Platform) (fs : List ActiveFault) (cycle : UInt64)
    (signal : String) (value : HalValue P) :
    IntervalExact P fs cycle signal value ↔
      (∀ f ∈ fs, ¬ f.Overruns cycle) ∧ Settled P fs cycle signal value := by
  constructor
  · rintro ⟨hactive, -, hunordered⟩
    rw [injected_eq] at hactive
    have hover := activeAmong_eq_iff.mp hactive
    exact ⟨hover, settled_of_unordered hover hunordered⟩
  · rintro ⟨hover, hsettled⟩
    exact hsettled.intervalExact hover

/-- A value out of range on a `u16` signal hides the timeout behind it. -/
theorem intervalExact_hidden :
    ¬ ∀ (P : Platform) (fs : List ActiveFault) (cycle : UInt64) (signal : String)
      (value : HalValue P), IntervalExact P fs cycle signal value := by
  intro h
  obtain ⟨taken, left, hresolve, hiff⟩ :=
    (h .exact [⟨.outOfRange, "sensor.x", 0, 5⟩, ⟨.timeout, "sensor.x", 0, 5⟩] 0 "sensor.x"
      (.u16 7)).suppressed
  have htaken : (Except.ok (true, .u16 7) : Except Panic (Bool × HalValue .exact)) =
      .ok (taken, left) := hresolve
  obtain ⟨rfl, -⟩ := Prod.mk.inj (Except.ok.inj htaken)
  have hsup := hiff.mpr ⟨⟨.timeout, "sensor.x", 0, 5⟩, by decide, by decide, rfl, Or.inl rfl⟩
  cases hsup

end Weftik.Simulation
