import Weftik.Instances
import Weftik.Lib.Transition

/-!
# What the Counters Count

A counter remembers its two inputs, and counts up with each rising edge of the one and down with
each rising edge of the other. The value is stopped at the preset only after the addition, which
is one of 32-bit numbers: with the greatest of them as the preset, the edge that comes when the
value has reached it overflows.

## Main definitions

* `risingEdges`, `tally`: the edges of an input, and the exact count of a sequence of calls.
* `CountsExactly`: the counter shows the exact count after each of its calls.
* `Within`: no edge comes when the exact count is the greatest 32-bit number.
* `Vm.Counted`: a run of the machine, with the calls of one counter and what it shows.

## Main results

* `CounterState.tick_within`, `CounterState.tick_full`: one call, without and with an overflow.
* `Vm.Counted.exact_iff`: when a counter shows the exact count in a run.
-/

open Outcome

namespace Weftik

variable {P : Platform}

/-! ### The exact count -/

/-- What a call of a counter is given. -/
structure CounterCall where
  cu : Bool
  cd : Bool
  deriving DecidableEq, Repr

/-- The number of rising edges of an input that has had the given value before. -/
def risingEdges : Bool → List Bool → ℕ
  | _, [] => 0
  | last, b :: bs => (if b && !last then 1 else 0) + risingEdges b bs

/-- The last inputs of a counter, and its exact count. -/
structure Tally where
  cu : Bool
  cd : Bool
  cv : ℕ
  deriving DecidableEq, Repr

/-- Does the call count up? -/
def Tally.up (kind : CounterKind) (t : Tally) (c : CounterCall) : Bool :=
  decide (kind ≠ .ctd) && (c.cu && !t.cu)

/-- Does the call count down? -/
def Tally.down (kind : CounterKind) (t : Tally) (c : CounterCall) : Bool :=
  decide (kind ≠ .ctu) && (c.cd && !t.cd)

/-- One call: up, but not above the preset, and then down, but not below zero. -/
def Tally.step (kind : CounterKind) (pv : ℕ) (t : Tally) (c : CounterCall) : Tally where
  cu := c.cu
  cd := c.cd
  cv :=
    let cv := if t.up kind c then min (t.cv + 1) pv else t.cv
    if t.down kind c then cv - 1 else cv

/-- The exact count of a sequence of calls. -/
def tally (kind : CounterKind) (pv : ℕ) (calls : List CounterCall) : Tally :=
  calls.foldl (Tally.step kind pv) ⟨false, false, 0⟩

/-- What a counter shows after some calls. -/
def Exact (kind : CounterKind) (pv : ℕ) (calls : List CounterCall) (s : CounterState) : Prop :=
  match kind with
  | .ctu =>
      s.cv = min pv (risingEdges false (calls.map CounterCall.cu)) ∧ (s.q = true ↔ pv ≤ s.cv)
  | .ctd => s.cv = (tally .ctd pv calls).cv ∧ (s.q = true ↔ s.cv = 0)
  | .ctud =>
      s.cv = (tally .ctud pv calls).cv ∧ s.cv ≤ pv ∧ (s.qu = true ↔ pv ≤ s.cv) ∧
        (s.qd = true ↔ s.cv = 0)

/-- Every call has been made, and after each the counter shows the exact count of the calls up to
it. -/
def CountsExactly (kind : CounterKind) (pv : ℕ) (calls : List CounterCall)
    (seen : List CounterState) : Prop :=
  seen.length = calls.length ∧
    ∀ n s, seen[n]? = some s → Exact kind pv (calls.take (n + 1)) s

/-- No call counts up when the exact count of those before it is the greatest 32-bit number. -/
def Within (kind : CounterKind) (pv : ℕ) (calls : List CounterCall) : Prop :=
  ∀ before c after, calls = before ++ c :: after → (tally kind pv before).up kind c = true →
    (tally kind pv before).cv < 2 ^ 32 - 1

theorem tally_concat (kind : CounterKind) (pv : ℕ) (calls : List CounterCall) (c : CounterCall) :
    tally kind pv (calls ++ [c]) = (tally kind pv calls).step kind pv c := by
  rw [tally, List.foldl_concat]
  rfl

variable {kind : CounterKind} {pv : ℕ}

/-- The count is never above the preset. -/
theorem Tally.step_le {t : Tally} (h : t.cv ≤ pv) (c : CounterCall) :
    (t.step kind pv c).cv ≤ pv := by
  simp only [Tally.step]
  split_ifs <;> omega

theorem tally_le (kind : CounterKind) (pv : ℕ) (calls : List CounterCall) :
    (tally kind pv calls).cv ≤ pv := by
  induction calls using List.reverseRecOn with
  | nil => exact Nat.zero_le pv
  | append_singleton calls c ih =>
      rw [tally_concat]
      exact Tally.step_le ih c

/-- An up counter counts the rising edges, up to the preset. -/
theorem foldl_step_ctu (calls : List CounterCall) {t : Tally} (h : t.cv ≤ pv) :
    (calls.foldl (Tally.step .ctu pv) t).cv =
      min pv (t.cv + risingEdges t.cu (calls.map CounterCall.cu)) := by
  induction calls generalizing t with
  | nil => exact (Nat.min_eq_right h).symm
  | cons c calls ih =>
      rw [List.foldl_cons, ih (Tally.step_le h c), List.map_cons, risingEdges]
      have hcv : (t.step .ctu pv c).cv =
          if (c.cu && !t.cu) = true then min (t.cv + 1) pv else t.cv := rfl
      have hcu : (t.step .ctu pv c).cu = c.cu := rfl
      rw [hcv, hcu]
      split_ifs <;> omega

theorem tally_ctu (pv : ℕ) (calls : List CounterCall) :
    (tally .ctu pv calls).cv = min pv (risingEdges false (calls.map CounterCall.cu)) := by
  rw [tally, foldl_step_ctu calls (Nat.zero_le pv), Nat.zero_add]

theorem within_concat {calls : List CounterCall} {c : CounterCall} :
    Within kind pv (calls ++ [c]) ↔
      Within kind pv calls ∧
        ((tally kind pv calls).up kind c = true → (tally kind pv calls).cv < 2 ^ 32 - 1) :=
  Transition.forall_split_concat

/-- The condition and the counters, one call later. -/
theorem countsExactly_concat {calls : List CounterCall} {seen : List CounterState}
    (hlen : seen.length = calls.length) (c : CounterCall) (s : CounterState) :
    CountsExactly kind pv (calls ++ [c]) (seen ++ [s]) ↔
      CountsExactly kind pv calls seen ∧ Exact kind pv (calls ++ [c]) s := by
  have hall : (calls ++ [c]).take (calls.length + 1) = calls ++ [c] :=
    List.take_of_length_le (List.length_append.trans_le le_rfl)
  constructor
  · rintro ⟨-, h⟩
    refine ⟨⟨hlen, fun n s' hs' => ?_⟩, ?_⟩
    · have hn : n < seen.length := (List.getElem?_eq_some_iff.mp hs').1
      have hexact := h n s' ((List.getElem?_append_left hn).trans hs')
      rwa [List.take_append_of_le_length (by omega)] at hexact
    · have hlast := h seen.length s List.getElem?_concat_length
      rwa [hlen, hall] at hlast
  · rintro ⟨⟨-, h⟩, hlast⟩
    refine ⟨by rw [List.length_append, List.length_append, hlen]; rfl, fun n s' hs' => ?_⟩
    rcases Nat.lt_or_ge n seen.length with hn | hn
    · rw [List.getElem?_append_left hn] at hs'
      rw [List.take_append_of_le_length (by omega)]
      exact h n s' hs'
    · rw [List.getElem?_append_right hn, List.getElem?_singleton] at hs'
      split_ifs at hs' with hzero
      obtain rfl : n = calls.length := by omega
      rw [hall]
      exact Option.some.inj hs' ▸ hlast

/-! ### One call -/

/-- The counter remembers what the exact one does. -/
structure CounterState.Tallies (s : CounterState) (t : Tally) : Prop where
  cuVal : s.cuVal = t.cu
  cdVal : s.cdVal = t.cd
  cv : s.cv = t.cv

theorem unsigned_of_lt {bits n : ℕ} (h : n < 2 ^ bits) : unsigned P bits n = .ok n := if_pos h

/-- A call that does not overflow. -/
theorem CounterState.tick_within {s : CounterState} {t : Tally} (h : s.Tallies t)
    (c : CounterCall) (hlt : t.up s.kind c = true → t.cv < 2 ^ 32 - 1) :
    ∃ s', s.tick P c.cu c.cd = .ok s' ∧ s'.Tallies (t.step s.kind s.pv c) ∧
      (match s.kind with
        | .ctu => s'.q = decide (s.pv ≤ s'.cv)
        | .ctd => s'.q = decide (s'.cv = 0)
        | .ctud => s'.qu = decide (s.pv ≤ s'.cv) ∧ s'.qd = decide (s'.cv = 0)) := by
  obtain ⟨kind, cuVal, cdVal, cv, pv, q, qu, qd⟩ := s
  obtain ⟨cu, cd, cv'⟩ := t
  obtain ⟨hcu, hcd, hcv⟩ := h
  simp only at hcu hcd hcv
  subst hcu hcd hcv
  have hsum : Tally.up kind ⟨cuVal, cdVal, cv⟩ c = true →
      unsigned P 32 (cv + 1) = .ok (cv + 1) := by
    intro hup
    have hfits : cv < 2 ^ 32 - 1 := hlt hup
    exact unsigned_of_lt (by omega)
  cases kind with
  | ctu =>
      cases hrises : (c.cu && !cuVal) with
      | true =>
          simp only [CounterState.tick, hrises, if_true, hsum hrises]
          exact ⟨_, rfl, ⟨rfl, rfl, by simp [Tally.step, Tally.up, Tally.down, hrises]⟩, rfl⟩
      | false =>
          simp only [CounterState.tick, hrises, Bool.false_eq_true, if_false]
          exact ⟨_, rfl, ⟨rfl, rfl, by simp [Tally.step, Tally.up, Tally.down, hrises]⟩, rfl⟩
  | ctd => exact ⟨_, rfl, ⟨rfl, rfl, rfl⟩, rfl⟩
  | ctud =>
      cases hrises : (c.cu && !cuVal) with
      | true =>
          simp only [CounterState.tick, hrises, if_true, hsum hrises]
          exact ⟨_, rfl, ⟨rfl, rfl, by simp [Tally.step, Tally.up, Tally.down, hrises]⟩, rfl, rfl⟩
      | false =>
          simp only [CounterState.tick, hrises, Bool.false_eq_true, if_false]
          exact ⟨_, rfl, ⟨rfl, rfl, by simp [Tally.step, Tally.up, Tally.down, hrises]⟩, rfl, rfl⟩

/-- A call that counts up from the greatest 32-bit number: when the machine does not panic, the
value is zero again. -/
theorem CounterState.tick_full {s s' : CounterState} {t : Tally} (h : s.Tallies t)
    {c : CounterCall} (hup : t.up s.kind c = true) (hfull : t.cv = 2 ^ 32 - 1)
    (htick : s.tick P c.cu c.cd = .ok s') : s'.cv = 0 := by
  obtain ⟨kind, cuVal, cdVal, cv, pv, q, qu, qd⟩ := s
  obtain ⟨cu, cd, cv'⟩ := t
  obtain ⟨hcu, hcd, hcv⟩ := h
  simp only at hcu hcd hcv hfull hup
  subst hcu hcd hcv hfull
  have hwraps : ∀ n, (min · pv) <$> unsigned P 32 (2 ^ 32 - 1 + 1) = .ok n → n = 0 := by
    intro n hn
    obtain ⟨m, hm, rfl⟩ := map_eq_ok hn
    rw [unsigned, if_neg (by omega)] at hm
    split at hm
    · cases hm
    · obtain rfl := Except.ok.inj hm
      exact Nat.zero_min pv
  cases kind with
  | ctu =>
      have hrises : (c.cu && !cuVal) = true := hup
      simp only [CounterState.tick, hrises, if_true] at htick
      obtain ⟨n, hn, htick⟩ := bind_eq_ok htick
      obtain rfl := Except.ok.inj htick
      exact hwraps n hn
  | ctd => cases hup
  | ctud =>
      have hrises : (c.cu && !cuVal) = true := hup
      simp only [CounterState.tick, hrises, if_true] at htick
      obtain ⟨n, hn, htick⟩ := bind_eq_ok htick
      obtain rfl := Except.ok.inj htick
      rw [hwraps n hn]
      exact ite_self 0

/-- A call that does not overflow shows the exact count. -/
theorem CounterState.tick_exact {s : CounterState} {calls : List CounterCall}
    (h : s.Tallies (tally kind pv calls)) (c : CounterCall)
    (hlt : (tally kind pv calls).up kind c = true → (tally kind pv calls).cv < 2 ^ 32 - 1) :
    ∃ s', ({ s with pv := pv, kind := kind } : CounterState).tick P c.cu c.cd = .ok s' ∧
      s'.Tallies (tally kind pv (calls ++ [c])) ∧ Exact kind pv (calls ++ [c]) s' := by
  have hle := tally_le kind pv (calls ++ [c])
  obtain ⟨s', htick, hs', hshows⟩ :=
    @CounterState.tick_within P { s with pv := pv, kind := kind } _
      ⟨h.cuVal, h.cdVal, h.cv⟩ c hlt
  simp only [← tally_concat] at hs' hshows
  refine ⟨s', htick, hs', ?_⟩
  cases kind with
  | ctu => exact ⟨hs'.cv.trans (tally_ctu pv _), by rw [hshows, decide_eq_true_iff]⟩
  | ctd => exact ⟨hs'.cv, by rw [hshows, decide_eq_true_iff]⟩
  | ctud =>
      exact ⟨hs'.cv, hs'.cv.trans_le hle, by rw [hshows.1, decide_eq_true_iff],
        by rw [hshows.2, decide_eq_true_iff]⟩

/-- A call that overflows does not show the exact count. -/
theorem CounterState.tick_not_exact {s s' : CounterState} (hpv : pv < 2 ^ 32)
    {calls : List CounterCall} (h : s.Tallies (tally kind pv calls)) {c : CounterCall}
    (hup : (tally kind pv calls).up kind c = true) (hge : ¬(tally kind pv calls).cv < 2 ^ 32 - 1)
    (htick : ({ s with pv := pv, kind := kind } : CounterState).tick P c.cu c.cd = .ok s') :
    ¬Exact kind pv (calls ++ [c]) s' := by
  have hle := tally_le kind pv calls
  have hzero : s'.cv = 0 :=
    @CounterState.tick_full P { s with pv := pv, kind := kind } _ _ ⟨h.cuVal, h.cdVal, h.cv⟩ _
      hup (by omega) htick
  have hnext : (tally kind pv (calls ++ [c])).cv ≠ 0 := by
    rw [tally_concat]
    simp only [Tally.step, hup, if_true]
    split_ifs <;> omega
  cases kind with
  | ctu => exact fun hexact => hnext ((tally_ctu pv _).trans (hexact.1.symm.trans hzero))
  | ctd => cases hup
  | ctud => exact fun hexact => hnext (hexact.1.symm.trans hzero)

/-! ### Runs of the machine -/

namespace Vm

/-- The counter at an index; a new one when there is none. -/
def counter (vm : Vm P) (i : ℕ) : CounterState :=
  vm.counters.getD i ⟨.ctu, false, false, 0, 0, false, false, false⟩

/-- The machine after some calls of one counter with one preset and one kind, and what the
counter shows after each call that has been made. It starts with the counter new or not there
yet. What runs between two calls makes no other call of this counter, and whatever else happens
leaves the counters alone. There is no machine after a call that overflows and panics. -/
inductive Counted (i pv : ℕ) (kind : CounterKind) :
    List CounterCall → List CounterState → Option (Vm P) → Prop
  | start {vm : Vm P} :
      (∀ s, vm.counters[i]? = some s → s.cuVal = false ∧ s.cdVal = false ∧ s.cv = 0) →
        Counted i pv kind [] [] (some vm)
  | call {calls : List CounterCall} {seen : List CounterState} {vm vm' : Vm P}
      {inst : Instruction P} {cu cd : Bool} {result : ExecutorResult} :
      Counted i pv kind calls seen (some vm) →
        vm.invocation inst = some (i, .counter kind cu cd pv) →
        vm.executeInstruction inst = .ok (vm', result) →
        Counted i pv kind (calls ++ [⟨cu, cd⟩]) (seen ++ [vm'.counter i]) (some vm')
  | panic {calls : List CounterCall} {seen : List CounterState} {vm : Vm P}
      {inst : Instruction P} {cu cd : Bool} :
      Counted i pv kind calls seen (some vm) →
        vm.invocation inst = some (i, .counter kind cu cd pv) →
        vm.executeInstruction inst = .error .overflow →
        Counted i pv kind (calls ++ [⟨cu, cd⟩]) seen none
  | other {calls : List CounterCall} {seen : List CounterState} {vm vm' : Vm P}
      {inst : Instruction P} {result : ExecutorResult} :
      Counted i pv kind calls seen (some vm) →
        (∀ c, vm.invocation inst = some (i, c) → c.kind ≠ .counter) →
        vm.executeInstruction inst = .ok (vm', result) →
        Counted i pv kind calls seen (some vm')
  | between {calls : List CounterCall} {seen : List CounterState} {vm vm' : Vm P} :
      Counted i pv kind calls seen (some vm) → vm'.counters = vm.counters →
        Counted i pv kind calls seen (some vm')

variable {vm vm' : Vm P} {inst : Instruction P} {result : ExecutorResult}

/-- A call of a counter makes one step of it, and panics over a register that does not exist or
with the counter. -/
theorem executeInstruction_counter {i pv : ℕ} {kind : CounterKind} {cu cd : Bool}
    (hcall : vm.invocation inst = some (i, .counter kind cu cd pv)) :
    pv < 2 ^ 32 ∧
      Ends (vm.executeInstruction inst)
        (fun p => ({ vm.counter i with pv := pv, kind := kind } : CounterState).tick P cu cd =
          .ok (p.1.counter i))
        (fun e => (∃ r, e = .registerOutOfBounds r) ∨
          ({ vm.counter i with pv := pv, kind := kind } : CounterState).tick P cu cd =
            .error e) := by
  obtain ⟨opcode, ops⟩ := inst
  unfold invocation at hcall
  split at hcall
  · obtain ⟨pt, -, heq⟩ := Option.map_eq_some_iff.mp hcall
    cases heq
  · rename_i n cuReg cdReg preset kindOp rest hop hops
    simp only at hop hops
    subst hop hops
    cases hcall
    refine ⟨preset.toNat_lt, ?_⟩
    have hread : ∀ (vm₁ : Vm P) (r : ℕ), vm₁.reg r = vm.reg r →
        Ends (vm₁.readRegister r) (fun v => v = vm.reg r)
            (∃ r, · = Panic.registerOutOfBounds r) := by
      intro vm₁ r hr
      rw [readRegister]
      split
      · exact hr
      · exact ⟨r, rfl⟩
    have hgrow := apply_getD_grow (f := id) (a := CounterState.mk .ctu false false 0 0 false
      false false) rfl vm.counters n.toNat n.toNat
    simp only [id_eq] at hgrow
    refine Ends.map ?_
    rw [execCounterRun]
    refine Ends.bind ((hread _ cuReg rfl).mono (fun _ h => h) fun _ => Or.inl) ?_
    rintro _ rfl
    refine Ends.bind ((hread _ cdReg rfl).mono (fun _ h => h) fun _ => Or.inl) ?_
    rintro _ rfl
    simp only [hgrow]
    change Ends (CounterState.tick P { vm.counter n.toNat with
      pv := preset.toNat, kind := counterKind kindOp } _ _ >>= _) _ _
    cases htick : CounterState.tick P { vm.counter n.toNat with
        pv := preset.toNat, kind := counterKind kindOp } (asBool (vm.reg cuReg))
        (asBool (vm.reg cdReg)) with
    | error e => exact Or.inr rfl
    | ok c =>
        refine congrArg Except.ok ?_
        have hset := apply_getD_set (f := id) (d := CounterState.mk .ctu false false 0 0 false
          false false) vm.counters n.toNat n.toNat c
        rw [if_pos rfl] at hset
        exact hset.symm
  all_goals cases hcall

/-- An instruction that makes no call of a counter leaves the counters alone. -/
theorem executeInstruction_noCounter {i : ℕ}
    (hcall : ∀ c, vm.invocation inst = some (i, c) → c.kind ≠ .counter)
    (h : vm.executeInstruction inst = .ok (vm', result)) : vm'.counter i = vm.counter i := by
  have hblock : vm'.block .counter i = vm.block .counter i := by
    rw [executeInstruction_block h .counter i, blockAfter]
    cases hinv : vm.invocation inst with
    | none => rfl
    | some p =>
        obtain ⟨j, c⟩ := p
        refine if_neg ?_
        rintro ⟨rfl, hkind⟩
        exact hcall c hinv hkind
  exact Block.counter.inj hblock

/-- Before a call that overflows, the counter follows the exact one. -/
structure Follows (i pv : ℕ) (kind : CounterKind) (calls : List CounterCall)
    (seen : List CounterState) (out : Option (Vm P)) : Prop where
  within : Within kind pv calls → CountsExactly kind pv calls seen ∧
    ∃ vm, out = some vm ∧ (vm.counter i).Tallies (tally kind pv calls)
  beyond : ¬Within kind pv calls → ¬CountsExactly kind pv calls seen
  length : ∀ vm, out = some vm → seen.length = calls.length

theorem Counted.follows {i pv : ℕ} {kind : CounterKind} {calls : List CounterCall}
    {seen : List CounterState} {out : Option (Vm P)} (h : Counted i pv kind calls seen out) :
    Follows i pv kind calls seen out := by
  induction h with
  | @start vm hnew =>
      have hwithin : Within kind pv [] := fun before c after hnil => by
        cases before <;> cases hnil
      refine ⟨fun _ => ⟨⟨rfl, nofun⟩, vm, rfl, ?_⟩, fun hnot => absurd hwithin hnot,
        fun _ _ => rfl⟩
      rw [counter, List.getD_eq_getElem?_getD]
      cases hs : vm.counters[i]? with
      | none => exact ⟨rfl, rfl, rfl⟩
      | some s =>
          obtain ⟨hcu, hcd, hcv⟩ := hnew s hs
          exact ⟨hcu, hcd, hcv⟩
  | @call calls seen vm vm' inst cu cd result _ hcall hexec ih =>
      obtain ⟨hpv, hends⟩ := executeInstruction_counter hcall
      have htick := hends.of_ok hexec
      have hlen := ih.length vm rfl
      have hcount := @countsExactly_concat kind pv _ _ hlen ⟨cu, cd⟩ (vm'.counter i)
      refine ⟨fun hwithin => ?_, fun hnot => ?_, fun _ _ => ?_⟩
      · obtain ⟨hbefore, hlt⟩ := within_concat.mp hwithin
        obtain ⟨hexact, vm₁, hvm₁, htallies⟩ := ih.within hbefore
        obtain rfl := Option.some.inj hvm₁
        obtain ⟨s', hs', htallies', hshows⟩ :=
          CounterState.tick_exact (P := P) htallies ⟨cu, cd⟩ hlt
        obtain rfl := Except.ok.inj (hs'.symm.trans htick)
        exact ⟨hcount.mpr ⟨hexact, hshows⟩, vm', rfl, htallies'⟩
      · rw [hcount]
        rintro ⟨hexact, hshows⟩
        have hbefore : Within kind pv calls := by
          by_contra hbeyond
          exact ih.beyond hbeyond hexact
        obtain ⟨-, vm₁, hvm₁, htallies⟩ := ih.within hbefore
        obtain rfl := Option.some.inj hvm₁
        obtain ⟨hup, hge⟩ := Classical.not_imp.mp fun hlt =>
          hnot (within_concat.mpr ⟨hbefore, hlt⟩)
        exact CounterState.tick_not_exact hpv htallies hup hge htick hshows
      · rw [List.length_append, List.length_append, hlen]
        rfl
  | @panic calls seen vm inst cu cd _ hcall hexec ih =>
      have hlen := ih.length vm rfl
      refine ⟨fun hwithin => ?_, fun _ hexact => ?_, nofun⟩
      · obtain ⟨hbefore, hlt⟩ := within_concat.mp hwithin
        obtain ⟨-, vm₁, hvm₁, htallies⟩ := ih.within hbefore
        obtain rfl := Option.some.inj hvm₁
        obtain ⟨s', hs', -⟩ := CounterState.tick_exact (P := P) htallies ⟨cu, cd⟩ hlt
        rcases (executeInstruction_counter hcall).2.of_error hexec with ⟨r, hr⟩ | htick
        · cases hr
        · rw [hs'] at htick
          cases htick
      · have hshort := hexact.1
        rw [List.length_append, hlen, List.length_singleton] at hshort
        omega
  | @other calls seen vm vm' inst result _ hcall hexec ih =>
      refine ⟨fun hwithin => ?_, ih.beyond, fun _ _ => ih.length vm rfl⟩
      obtain ⟨hexact, vm₁, hvm₁, htallies⟩ := ih.within hwithin
      obtain rfl := Option.some.inj hvm₁
      exact ⟨hexact, vm', rfl, (executeInstruction_noCounter hcall hexec).symm ▸ htallies⟩
  | @between calls seen vm vm' _ hcounters ih =>
      refine ⟨fun hwithin => ?_, ih.beyond, fun _ _ => ih.length vm rfl⟩
      obtain ⟨hexact, vm₁, hvm₁, htallies⟩ := ih.within hwithin
      obtain rfl := Option.some.inj hvm₁
      refine ⟨hexact, vm', rfl, ?_⟩
      rwa [counter, hcounters]

/-- In a run a counter shows the exact count after each of its calls, and no call overflows,
exactly when no call counts up from the greatest 32-bit number. -/
theorem Counted.exact_iff {i pv : ℕ} {kind : CounterKind} {calls : List CounterCall}
    {seen : List CounterState} {out : Option (Vm P)} (h : Counted i pv kind calls seen out) :
    CountsExactly kind pv calls seen ↔ Within kind pv calls := by
  refine ⟨fun hexact => ?_, fun hwithin => (h.follows.within hwithin).1⟩
  by_contra hbeyond
  exact h.follows.beyond hbeyond hexact

/-- An up counter that has seen no edge yet, with an edge in its first register. -/
theorem exact_iff_edge : CountsExactly .ctu 1 [⟨true, false⟩]
    [⟨.ctu, true, false, 1, 1, true, false, false⟩] := by
  let inst : Instruction Platform.exact :=
    ⟨.counterRun, [.immediate (.u32 0), .register 0, .register 1, .immediate (.u32 1),
      .immediate (.u32 0)]⟩
  have hstart : Counted 0 1 .ctu [] []
      (some ((Vm.new (P := Platform.exact)).setReg 0 (.bool true))) := .start nofun
  have hcall := hstart.call (rfl : Vm.invocation _ inst = _) rfl
  refine hcall.exact_iff.mpr ?_
  rintro before c after heq -
  cases before with
  | nil => decide
  | cons d before => cases before <;> cases heq

end Vm

/-! ### Too many edges -/

/-- Some rising edges of the first input. -/
def risings : ℕ → List CounterCall
  | 0 => []
  | n + 1 => risings n ++ [⟨false, false⟩] ++ [⟨true, false⟩]

theorem tally_risings (pv n : ℕ) : (tally .ctu pv (risings n)).cv = min pv n := by
  induction n with
  | zero => exact (Nat.min_zero pv).symm
  | succ n ih =>
      rw [risings, tally_concat, tally_concat]
      have hcv : (((tally .ctu pv (risings n)).step .ctu pv ⟨false, false⟩).step .ctu pv
          ⟨true, false⟩).cv = min ((tally .ctu pv (risings n)).cv + 1) pv := rfl
      rw [hcv, ih]
      omega

/-- As many edges as there are 32-bit numbers are too many. -/
theorem not_within_risings {n : ℕ} (hn : n = 2 ^ 32 - 1) :
    ¬Within .ctu n (risings (n + 1)) := by
  intro hwithin
  have hlt := hwithin (risings n ++ [⟨false, false⟩]) ⟨true, false⟩ [] rfl
  rw [tally_concat] at hlt
  have hcv : ((tally .ctu n (risings n)).step .ctu n ⟨false, false⟩).cv =
      (tally .ctu n (risings n)).cv := rfl
  rw [hcv, tally_risings, Nat.min_self] at hlt
  exact absurd (hlt rfl) (by omega)

/-- A counter panics only when it overflows. -/
theorem CounterState.tick_error (s : CounterState) (cu cd : Bool) :
    Ends (s.tick P cu cd) (fun _ => True) (· = .overflow) := by
  have hup : Ends ((min · s.pv) <$> unsigned P 32 (s.cv + 1)) (fun _ => True)
      (· = Panic.overflow) := by
    refine Ends.map ?_
    rw [unsigned]
    split
    · trivial
    · split
      · rfl
      · trivial
  unfold CounterState.tick
  dsimp only
  split
  · split
    · exact hup.bind fun _ _ => trivial
    · trivial
  · trivial
  · split
    · exact hup.bind fun _ _ => trivial
    · trivial

namespace Vm

/-- A run goes on with any call, unless it panics. -/
theorem Counted.goes_on {pv : UInt32} {calls : List CounterCall} {seen : List CounterState}
    {vm : Vm P} (h : Counted 0 pv.toNat .ctu calls seen (some vm)) (c : CounterCall) :
    ∃ seen' out, Counted 0 pv.toNat .ctu (calls ++ [c]) seen' (out : Option (Vm P)) := by
  let inst : Instruction P :=
    ⟨.counterRun, [.immediate (.u32 0), .register 0, .register 1, .immediate (.u32 pv),
      .immediate (.u32 0)]⟩
  have hnext : Counted 0 pv.toNat .ctu calls seen
      (some ((vm.setReg 0 (.bool c.cu)).setReg 1 (.bool c.cd))) := h.between rfl
  generalize hvm : (vm.setReg 0 (.bool c.cu)).setReg 1 (.bool c.cd) = vm₁ at hnext
  have hcall : vm₁.invocation inst = some (0, .counter .ctu c.cu c.cd pv.toNat) := hvm ▸ rfl
  cases hexec : vm₁.executeInstruction inst with
  | ok p => exact ⟨_, _, hnext.call hcall hexec⟩
  | error e =>
      -- both registers exist
      have hread : ∀ (vm₂ : Vm P) (r : ℕ), r < 16 →
          Ends (vm₂.readRegister r) (fun _ => True) (· = .overflow) := by
        intro vm₂ r hr
        rw [readRegister_of_lt hr]
        trivial
      have hends : Ends (vm₁.executeInstruction inst) (fun _ => True) (· = .overflow) :=
        Ends.map <| (hread _ 0 (by decide)).bind fun _ _ =>
          (hread _ 1 (by decide)).bind fun _ _ =>
            (CounterState.tick_error _ _ _).bind fun _ _ => trivial
      obtain rfl := hends.of_error hexec
      exact ⟨_, _, hnext.panic hcall hexec⟩

/-- Some calls make a run, up to the one that panics. -/
theorem exists_counted (pv : UInt32) (calls : List CounterCall) :
    (∃ seen vm, Counted (P := P) 0 pv.toNat .ctu calls seen (some vm)) ∨
      ∃ before seen, Counted (P := P) 0 pv.toNat .ctu before seen none := by
  induction calls using List.reverseRecOn with
  | nil => exact Or.inl ⟨[], Vm.new, .start nofun⟩
  | append_singleton calls c ih =>
      rcases ih with ⟨seen, vm, h⟩ | hpanic
      · obtain ⟨seen', out, h'⟩ := h.goes_on c
        cases out with
        | some vm' => exact Or.inl ⟨seen', vm', h'⟩
        | none => exact Or.inr ⟨_, seen', h'⟩
      · exact Or.inr hpanic

/-- The edge that comes when the value is the greatest 32-bit number is not counted. -/
theorem last_edge_overflows :
    ¬ ∀ (P : Platform) (i pv : ℕ) (kind : CounterKind) (calls : List CounterCall)
      (seen : List CounterState) (out : Option (Vm P)),
      Counted i pv kind calls seen out → CountsExactly kind pv calls seen := by
  intro h
  have hn : UInt32.toNat (4294967295 : UInt32) = 2 ^ 32 - 1 := rfl
  generalize (4294967295 : UInt32) = pv at hn
  rcases exists_counted (P := Platform.exact) pv (risings (pv.toNat + 1)) with
    ⟨seen, vm, hrun⟩ | ⟨before, seen, hrun⟩
  · exact hrun.follows.beyond (not_within_risings hn) (h _ _ _ _ _ _ _ hrun)
  · refine hrun.follows.beyond (fun hwithin => ?_) (h _ _ _ _ _ _ _ hrun)
    obtain ⟨-, vm, hvm, -⟩ := hrun.follows.within hwithin
    cases hvm

end Vm

end Weftik
