import Weftik.Frame

/-!
# The Timing Law of the Timers

A timer keeps its elapsed time, its output and its last input, and is called once per scan
with the cycle time of that scan. What it shows after a sequence of calls is a function of
the inputs and the cycle times alone: of the time for which the input has been true, for the
on-delay timer, and of the time since it was true, for the off-delay timer. Other
instructions, timers among them, may run between two calls.

## Main definitions

* `TimerCall`, `trailingTime`: the calls of a timer, and the time of the last of them.
* `Vm.TimerRuns`: the machine after a sequence of calls of one timer.

## Main results

* `TimerState.tick_follows`: one call keeps the law.
* `Vm.TimerRuns.calls_of_steps`: a run of a program is a sequence of calls.
* `Vm.TimerRuns.timing_law`: the law after any sequence of calls.
-/

open Outcome

namespace Weftik

variable {P : Platform}

/-! ### The law -/

/-- What a call of a timer is given. -/
structure TimerCall where
  input : Bool
  cycle : ℕ
  deriving DecidableEq, Repr

/-- The cycle times of the longest run of last calls whose input is as given, added up. -/
def trailingTime (input : Bool) (calls : List TimerCall) : ℕ :=
  ((calls.rtakeWhile (·.input == input)).map TimerCall.cycle).sum

/-- Is the input of the last call true? -/
def lastInput (calls : List TimerCall) : Bool := calls.getLast?.any TimerCall.input

theorem trailingTime_concat (input : Bool) (calls : List TimerCall) (c : TimerCall) :
    trailingTime input (calls ++ [c]) =
      if c.input = input then trailingTime input calls + c.cycle else 0 := by
  rw [trailingTime, List.rtakeWhile_concat]
  by_cases hc : c.input = input
  · rw [if_pos (beq_iff_eq.mpr hc), if_pos hc, List.map_append, List.sum_append]
    rfl
  · rw [if_neg (fun h => hc (beq_iff_eq.mp h)), if_neg hc]
    rfl

theorem lastInput_concat (calls : List TimerCall) (c : TimerCall) :
    lastInput (calls ++ [c]) = c.input := by
  rw [lastInput, List.getLast?_concat]
  rfl

/-- When no input has been true, the last one has not. -/
theorem lastInput_of_none {calls : List TimerCall} (h : calls.any TimerCall.input = false) :
    lastInput calls = false := by
  induction calls using List.reverseRecOn with
  | nil => rfl
  | append_singleton calls c _ =>
      rw [List.any_append, Bool.or_eq_false_iff] at h
      rw [lastInput_concat]
      simpa using h.2

/-- Some input has been true: the last one or an earlier one. -/
theorem any_input_iff (calls : List TimerCall) :
    calls.any TimerCall.input = true ↔
      lastInput calls = true ∨ ∃ c ∈ calls.dropLast, c.input = true := by
  induction calls using List.reverseRecOn with
  | nil => simp [lastInput]
  | append_singleton calls c _ =>
      rw [lastInput_concat, List.dropLast_concat, List.any_append, Bool.or_eq_true,
        List.any_eq_true, or_comm]
      simp

/-- The state of a timer after some calls with one preset. The elapsed time of the off-delay
timer runs only after the input has been true; the pulse timer only keeps the bound. -/
def TimerState.Follows (t : TimerState) (calls : List TimerCall) : Prop :=
  match t.kind with
  | .ton =>
      t.elapsedMs = min t.presetMs (trailingTime true calls) ∧
        t.q = (lastInput calls && decide (t.presetMs ≤ trailingTime true calls))
  | .tof =>
      t.elapsedMs =
          (if calls.any TimerCall.input then min t.presetMs (trailingTime false calls) else 0) ∧
        t.q =
          (lastInput calls ||
            calls.any TimerCall.input && decide (trailingTime false calls < t.presetMs))
  | .tp => t.elapsedMs ≤ t.presetMs

@[simp] theorem TimerState.tick_kind (t : TimerState) (input : Bool) (cycle : ℕ) :
    (t.tick input cycle).kind = t.kind := by
  obtain ⟨kind, inVal, elapsed, q, preset⟩ := t
  cases kind <;> simp only [TimerState.tick] <;> split_ifs <;> rfl

@[simp] theorem TimerState.tick_presetMs (t : TimerState) (input : Bool) (cycle : ℕ) :
    (t.tick input cycle).presetMs = t.presetMs := by
  obtain ⟨kind, inVal, elapsed, q, preset⟩ := t
  cases kind <;> simp only [TimerState.tick] <;> split_ifs <;> rfl

/-- The elapsed time after one more cycle, stopped at the preset. Saturation does not matter,
since the preset is below its limit. -/
theorem stop_saturatingAdd {elapsed cycle preset : ℕ} (hpreset : preset < 2 ^ 64) :
    (if preset ≤ saturatingAdd elapsed cycle then preset else saturatingAdd elapsed cycle) =
      min preset (elapsed + cycle) := by
  rw [saturatingAdd]
  split_ifs <;> omega

theorem le_saturatingAdd_iff {elapsed cycle preset : ℕ} (hpreset : preset < 2 ^ 64) :
    preset ≤ saturatingAdd elapsed cycle ↔ preset ≤ elapsed + cycle := by
  rw [saturatingAdd]
  omega

variable {t : TimerState}

/-- A call of an on-delay timer with a true input. -/
theorem TimerState.tick_ton_true (hkind : t.kind = .ton) (hpreset : t.presetMs < 2 ^ 64) {s : ℕ}
    (helapsed : t.elapsedMs = min t.presetMs s) (hq : t.q = true → t.presetMs ≤ s) (cycle : ℕ) :
    (t.tick true cycle).elapsedMs = min t.presetMs (s + cycle) ∧
      (t.tick true cycle).q = decide (t.presetMs ≤ s + cycle) := by
  obtain ⟨kind, inVal, elapsed, q, preset⟩ := t
  obtain rfl : kind = .ton := hkind
  simp only at hpreset helapsed hq
  simp only [TimerState.tick, Bool.not_true, Bool.false_eq_true, if_false]
  by_cases hdone : preset ≤ elapsed
  · have hreached : preset ≤ s + cycle := by omega
    rw [if_pos hdone, decide_eq_true hreached]
    exact ⟨by change elapsed = _; omega, rfl⟩
  · have hq' : q = false := by
      cases q with
      | false => rfl
      | true => have := hq rfl; omega
    have hstop := @stop_saturatingAdd elapsed cycle _ hpreset
    have hle := @le_saturatingAdd_iff elapsed cycle _ hpreset
    rw [if_neg hdone]
    split_ifs at hstop ⊢ with hreached
    · rw [decide_eq_true (by omega)]
      exact ⟨by change preset = _; omega, rfl⟩
    · rw [decide_eq_false (by omega)]
      exact ⟨by change saturatingAdd elapsed cycle = _; omega, hq'⟩

/-- A call of an off-delay timer with a false input. -/
theorem TimerState.tick_tof_false (hkind : t.kind = .tof) (hpreset : t.presetMs < 2 ^ 64) {s : ℕ}
    (helapsed : t.elapsedMs = min t.presetMs s) (hq : t.q = false → t.presetMs ≤ s) (cycle : ℕ) :
    (t.tick false cycle).elapsedMs = min t.presetMs (s + cycle) ∧
      (t.tick false cycle).q = (t.q && decide (s + cycle < t.presetMs)) := by
  obtain ⟨kind, inVal, elapsed, q, preset⟩ := t
  obtain rfl : kind = .tof := hkind
  simp only at hpreset helapsed hq
  simp only [TimerState.tick, Bool.false_eq_true, if_false]
  cases q with
  | false =>
      have hdone := hq rfl
      exact ⟨by change elapsed = _; omega, rfl⟩
  | true =>
      have hstop := @stop_saturatingAdd elapsed cycle _ hpreset
      have hle := @le_saturatingAdd_iff elapsed cycle _ hpreset
      rw [if_pos rfl, Bool.true_and]
      split_ifs at hstop ⊢ with hreached
      · rw [decide_eq_false (by omega)]
        exact ⟨by change preset = _; omega, rfl⟩
      · rw [decide_eq_true (by omega)]
        exact ⟨by change saturatingAdd elapsed cycle = _; omega, rfl⟩

/-- A call keeps the elapsed time of a pulse timer within the preset. -/
theorem TimerState.tick_tp_le (hkind : t.kind = .tp) (h : t.elapsedMs ≤ t.presetMs) (input : Bool)
    (cycle : ℕ) : (t.tick input cycle).elapsedMs ≤ t.presetMs := by
  obtain ⟨kind, inVal, elapsed, q, preset⟩ := t
  obtain rfl : kind = .tp := hkind
  simp only at h
  simp only [TimerState.tick]
  split_ifs <;> simp only at * <;> omega

/-- One call keeps the law. -/
theorem TimerState.tick_follows (hpreset : t.presetMs < 2 ^ 64) {calls : List TimerCall}
    (h : t.Follows calls) (c : TimerCall) : (t.tick c.input c.cycle).Follows (calls ++ [c]) := by
  have hlast := lastInput_concat calls c
  have hany : (calls ++ [c]).any TimerCall.input = (calls.any TimerCall.input || c.input) := by
    simp
  unfold TimerState.Follows at h ⊢
  rw [TimerState.tick_kind]
  cases hkind : t.kind with
  | ton =>
      simp only [hkind] at h
      obtain ⟨helapsed, hq⟩ := h
      simp only [TimerState.tick_presetMs, trailingTime_concat, hlast]
      cases hinput : c.input with
      | false =>
          simp only [TimerState.tick, hkind]
          exact ⟨(Nat.min_zero _).symm, rfl⟩
      | true =>
          refine TimerState.tick_ton_true hkind hpreset helapsed (fun ht => ?_) c.cycle
          rw [hq, Bool.and_eq_true, decide_eq_true_iff] at ht
          exact ht.2
  | tof =>
      simp only [hkind] at h
      obtain ⟨helapsed, hq⟩ := h
      simp only [TimerState.tick_presetMs, trailingTime_concat, hlast, hany]
      cases hinput : c.input with
      | true =>
          simp only [TimerState.tick, hkind, Bool.or_true]
          exact ⟨(Nat.min_zero _).symm, rfl⟩
      | false =>
          cases hsome : calls.any TimerCall.input with
          | false =>
              -- the input has never been true, so the timer has not started
              have hlast' : lastInput calls = false := lastInput_of_none hsome
              rw [hsome, hlast'] at hq
              rw [hsome] at helapsed
              simp only [TimerState.tick, hkind, hq]
              exact ⟨helapsed, hq⟩
          | true =>
              rw [hsome] at helapsed hq
              simp only [if_true] at helapsed
              obtain ⟨hel, hout⟩ := TimerState.tick_tof_false hkind hpreset helapsed
                (fun hf => by
                  rw [hq, Bool.or_eq_false_iff] at hf
                  simpa using hf.2) c.cycle
              refine ⟨hel, hout.trans ?_⟩
              have hmono : trailingTime false calls + c.cycle < t.presetMs →
                  trailingTime false calls < t.presetMs := by omega
              rw [hq]
              by_cases hrest : trailingTime false calls + c.cycle < t.presetMs
              · simp [hrest, hmono hrest]
              · simp [hrest]
  | tp =>
      simp only [hkind] at h
      exact (TimerState.tick_tp_le hkind h c.input c.cycle).trans_eq
        (TimerState.tick_presetMs t _ _).symm

/-! ### The timers of the machine -/

/-- The call that a `TimerRun` makes: the timer, the input register, the preset, the kind. -/
structure TimerArgs where
  timer : ℕ
  input : ℕ
  presetMs : ℕ
  kind : TimerKind
  deriving DecidableEq, Repr

/-- The call of an instruction; `none` when it is no `TimerRun` whose operands fit. -/
def Instruction.timerArgs (inst : Instruction P) : Option TimerArgs :=
  match inst.opcode, inst.operands with
  | .timerRun, .immediate (.u32 i) :: .register r :: preset :: rest =>
      (Vm.timerPreset preset).map fun pt => ⟨i.toNat, r, pt, Vm.timerKind rest⟩
  | _, _ => none

namespace Vm

/-- A timer that has not been called yet. -/
def newTimer (kind : TimerKind) : TimerState := ⟨kind, false, 0, false, 0⟩

/-- The timer at an index, under a kind and a preset; a new one when there is none. -/
def timerAs (vm : Vm P) (i presetMs : ℕ) (kind : TimerKind) : TimerState :=
  { vm.timers.getD i (newTimer kind) with kind := kind, presetMs := presetMs }

theorem getElem?_grow {α : Type} (l : List α) (idx : ℕ) (a : α) :
    (grow l idx a)[idx]? = some (l.getD idx a) := by
  rw [grow, List.getD_eq_getElem?_getD]
  rcases Nat.lt_or_ge idx l.length with hlt | hge
  · rw [List.getElem?_append_left hlt, List.getElem?_eq_getElem hlt]
    rfl
  · rw [List.getElem?_append_right hge, List.getElem?_eq_none hge,
      List.getElem?_replicate_of_lt (by omega)]
    rfl

variable {vm vm' : Vm P}

/-- Growing the list of timers changes no timer but for its kind. -/
theorem timerAs_of_grow {idx : ℕ} {kind' : TimerKind}
    (h : vm'.timers = grow vm.timers idx (newTimer kind')) (i pt : ℕ) (kind : TimerKind) :
    vm'.timerAs i pt kind = vm.timerAs i pt kind := by
  simp only [timerAs, h, grow, List.getD_eq_getElem?_getD]
  rcases Nat.lt_or_ge i vm.timers.length with hlt | hge
  · rw [List.getElem?_append_left hlt]
  · rw [List.getElem?_append_right hge, List.getElem?_eq_none hge, List.getElem?_replicate]
    split_ifs <;> rfl

/-- Changing one timer changes no other. -/
theorem timerAs_of_modify_ne {idx : ℕ} {kind' : TimerKind} {f : TimerState → TimerState}
    (h : vm'.timers = (grow vm.timers idx (newTimer kind')).modify idx f) {i : ℕ} (hi : i ≠ idx)
    (pt : ℕ) (kind : TimerKind) : vm'.timerAs i pt kind = vm.timerAs i pt kind := by
  rw [← @timerAs_of_grow P vm { vm with timers := grow vm.timers idx (newTimer kind') } _ _ rfl,
    timerAs, timerAs, h, List.getD_eq_getElem?_getD, List.getD_eq_getElem?_getD,
    List.getElem?_modify_ne _ _ (Ne.symm hi)]

/-- The timer that has been called. -/
theorem timerAs_of_tick {idx pt cycle : ℕ} {kind : TimerKind} {input : Bool}
    (h : vm'.timers = (grow vm.timers idx (newTimer kind)).modify idx fun t =>
        ({ t with presetMs := pt, kind := kind } : TimerState).tick input cycle) :
    vm'.timerAs idx pt kind = (vm.timerAs idx pt kind).tick input cycle := by
  have hget : vm'.timers.getD idx (newTimer kind) =
      (vm.timerAs idx pt kind).tick input cycle := by
    rw [h, List.getD_eq_getElem?_getD, List.getElem?_modify_eq, getElem?_grow]
    rfl
  rw [timerAs, hget]
  have hkind : ((vm.timerAs idx pt kind).tick input cycle).kind = kind :=
    TimerState.tick_kind _ _ _
  have hpt : ((vm.timerAs idx pt kind).tick input cycle).presetMs = pt :=
    TimerState.tick_presetMs _ _ _
  generalize (vm.timerAs idx pt kind).tick input cycle = t at hkind hpt
  rw [← hkind, ← hpt]

/-- The preset of an operand is a 64-bit number. -/
theorem timerPreset_lt {op : Operand P} {pt : ℕ} (h : timerPreset op = some pt) :
    pt < 2 ^ 64 := by
  unfold timerPreset at h
  split at h
  · rename_i n
    obtain rfl := Option.some.inj h
    have := n.toNat_lt
    omega
  · obtain rfl := Option.some.inj h
    rw [asUsize]
    omega
  · cases h

/-- A register that can be read is one of the machine's. -/
theorem readRegister_eq_ok {r : ℕ} {v : HalValue P} (h : vm.readRegister r = .ok v) :
    v = vm.reg r := by
  rw [readRegister] at h
  split at h
  · exact (Except.ok.inj h).symm
  · cases h

/-- A call of a timer, and what it does not change. -/
theorem executeInstruction_timerArgs {inst : Instruction P} {result : ExecutorResult}
    {a : TimerArgs} (hargs : inst.timerArgs = some a)
    (h : vm.executeInstruction inst = .ok (vm', result)) :
    a.presetMs < 2 ^ 64 ∧
      vm'.timerAs a.timer a.presetMs a.kind =
        (vm.timerAs a.timer a.presetMs a.kind).tick ((vm.reg a.input).beq (.bool true))
          vm.cycleTimeMs ∧
      ∀ i pt kind, i ≠ a.timer → vm'.timerAs i pt kind = vm.timerAs i pt kind := by
  obtain ⟨opcode, ops⟩ := inst
  unfold Instruction.timerArgs at hargs
  split at hargs
  · rename_i i r preset rest hop hops
    simp only at hop hops
    subst hop hops
    cases hpt : timerPreset preset with
    | none => rw [hpt] at hargs; cases hargs
    | some pt =>
        rw [hpt] at hargs
        obtain rfl := Option.some.inj hargs
        simp only [executeInstruction, execTimerRun, hpt] at h
        obtain ⟨vm₁, hvm₁, heq⟩ := map_eq_ok h
        obtain ⟨rfl, -⟩ := Prod.mk.inj heq
        obtain ⟨inVal, hin, hvm₁⟩ := bind_eq_ok hvm₁
        obtain rfl := Except.ok.inj hvm₁
        have hreg : inVal = vm.reg r := readRegister_eq_ok hin
        subst hreg
        exact ⟨timerPreset_lt hpt, timerAs_of_tick rfl,
          fun j pt' kind hj => timerAs_of_modify_ne rfl hj pt' kind⟩
  · cases hargs

/-- An instruction that makes no call of a timer leaves the timers alone. -/
theorem executeInstruction_other {inst : Instruction P} {result : ExecutorResult}
    (hargs : inst.timerArgs = none) (h : vm.executeInstruction inst = .ok (vm', result))
    (i pt : ℕ) (kind : TimerKind) : vm'.timerAs i pt kind = vm.timerAs i pt kind := by
  have hkeep : vm'.timers = vm.timers → vm'.timerAs i pt kind = vm.timerAs i pt kind := by
    intro heq
    rw [timerAs, timerAs, heq]
  obtain ⟨opcode, ops⟩ := inst
  by_cases hrun : opcode = .timerRun
  · subst hrun
    obtain ⟨vm₁, hvm₁, heq⟩ := map_eq_ok h
    obtain ⟨rfl, -⟩ := Prod.mk.inj heq
    unfold execTimerRun at hvm₁
    split at hvm₁
    · rename_i idx input preset rest hops
      dsimp only at hvm₁
      split at hvm₁
      · rename_i inReg pt hpt
        obtain rfl : ops = _ := hops
        simp only [Instruction.timerArgs, hpt] at hargs
        cases hargs
      · obtain rfl := Except.ok.inj hvm₁
        exact timerAs_of_grow rfl i pt kind
    · obtain rfl := Except.ok.inj hvm₁
      rfl
  · by_cases hread : opcode = .readTimer
    · subst hread
      obtain ⟨vm₁, hvm₁, heq⟩ := map_eq_ok h
      obtain ⟨rfl, -⟩ := Prod.mk.inj heq
      unfold execReadTimer at hvm₁
      split at hvm₁
      · rename_i idx q et rest
        dsimp only at hvm₁
        split at hvm₁
        · exact timerAs_of_grow ((apart_timers.free.writeTwice rfl _ _ _ _).of_ok hvm₁) i pt kind
        · obtain rfl := Except.ok.inj hvm₁
          exact timerAs_of_grow rfl i pt kind
      · obtain rfl := Except.ok.inj hvm₁
        rfl
    · by_cases hstore : opcode = .store
      · subst hstore
        obtain ⟨vm₁, hvm₁, heq⟩ := map_eq_ok h
        obtain ⟨rfl, -⟩ := Prod.mk.inj heq
        have hstore : vm.Keeps Vm.timers (vm.execStore ops) := by
          unfold execStore
          split
          · exact .bind fun _ => .pure rfl
          · exact .pure rfl
        exact hkeep (hstore.of_ok hvm₁)
      · exact hkeep ((executeInstruction_keeps apart_timers vm hstore hrun hread).of_ok h)

/-! ### Runs -/

/-- The machine after some calls of one timer with one preset and one kind. It starts with
the timer new or not there yet; what runs between two calls makes no other call of this
timer, and whatever else happens leaves the timers alone. -/
inductive TimerRuns (i pt : ℕ) (kind : TimerKind) : List TimerCall → Vm P → Prop
  | start {vm : Vm P} :
      (∀ t, vm.timers[i]? = some t → t.elapsedMs = 0 ∧ t.q = false) →
        TimerRuns i pt kind [] vm
  | call {calls : List TimerCall} {vm vm' : Vm P} {inst : Instruction P} {input : ℕ}
      {result : ExecutorResult} :
      TimerRuns i pt kind calls vm → inst.timerArgs = some ⟨i, input, pt, kind⟩ →
        vm.executeInstruction inst = .ok (vm', result) →
        TimerRuns i pt kind
          (calls ++ [⟨(vm.reg input).beq (.bool true), vm.cycleTimeMs⟩]) vm'
  | other {calls : List TimerCall} {vm vm' : Vm P} {inst : Instruction P}
      {result : ExecutorResult} :
      TimerRuns i pt kind calls vm → (∀ a, inst.timerArgs = some a → a.timer ≠ i) →
        vm.executeInstruction inst = .ok (vm', result) → TimerRuns i pt kind calls vm'
  | between {calls : List TimerCall} {vm vm' : Vm P} :
      TimerRuns i pt kind calls vm → vm'.timers = vm.timers → TimerRuns i pt kind calls vm'

/-- The law holds after every sequence of calls. -/
theorem TimerRuns.follows {i pt : ℕ} {kind : TimerKind} {calls : List TimerCall}
    (h : TimerRuns i pt kind calls vm) : (vm.timerAs i pt kind).Follows calls := by
  induction h with
  | @start vm hnew =>
      have hzero : (vm.timerAs i pt kind).elapsedMs = 0 ∧ (vm.timerAs i pt kind).q = false := by
        simp only [timerAs, List.getD_eq_getElem?_getD]
        cases ht : vm.timers[i]? with
        | none => exact ⟨rfl, rfl⟩
        | some t => exact hnew t ht
      unfold TimerState.Follows
      cases kind with
      | ton => exact ⟨hzero.1.trans (Nat.min_zero _).symm, hzero.2⟩
      | tof => exact ⟨hzero.1, hzero.2⟩
      | tp => exact hzero.1.trans_le (Nat.zero_le _)
  | @call calls vm vm' inst input result _ hargs hexec ih =>
      obtain ⟨hpt, htick, -⟩ := executeInstruction_timerArgs hargs hexec
      rw [htick]
      exact TimerState.tick_follows hpt ih
        ⟨(vm.reg input).beq (.bool true), vm.cycleTimeMs⟩
  | @other calls vm vm' inst result _ hargs hexec ih =>
      cases ha : inst.timerArgs with
      | none => rwa [executeInstruction_other ha hexec]
      | some a =>
          obtain ⟨-, -, hother⟩ := executeInstruction_timerArgs ha hexec
          rwa [hother i pt kind (hargs a ha).symm]
  | between _ htimers ih => rwa [timerAs, htimers]

/-- The timing law. After any sequence of calls with one kind and preset, the elapsed time of
an on-delay timer is the time for which the input has been true, up to the preset, and its
output is on when the input is true and has been for the preset. The output of an off-delay
timer is on when the input is true, or was true less than the preset ago. -/
theorem TimerRuns.timing_law {i pt : ℕ} {kind : TimerKind} {calls : List TimerCall}
    {vm : Vm P} (h : TimerRuns i pt kind calls vm) :
    (vm.timers.getD i (newTimer kind)).elapsedMs ≤ pt ∧
      (kind = .ton →
        (vm.timers.getD i (newTimer kind)).elapsedMs = min pt (trailingTime true calls) ∧
          ((vm.timers.getD i (newTimer kind)).q = true ↔
            lastInput calls = true ∧ pt ≤ trailingTime true calls)) ∧
      (kind = .tof →
        ((vm.timers.getD i (newTimer kind)).q = true ↔
          lastInput calls = true ∨
            (∃ c ∈ calls.dropLast, c.input = true) ∧ trailingTime false calls < pt)) := by
  have hfollows := h.follows
  have hpreset : (vm.timerAs i pt kind).presetMs = pt := rfl
  unfold TimerState.Follows at hfollows
  rw [hpreset] at hfollows
  cases kind with
  | ton =>
      obtain ⟨helapsed, hq⟩ := hfollows
      change (vm.timers.getD i (newTimer .ton)).elapsedMs = _ at helapsed
      change (vm.timers.getD i (newTimer .ton)).q = _ at hq
      refine ⟨helapsed.trans_le (Nat.min_le_left _ _), fun _ => ⟨helapsed, ?_⟩, nofun⟩
      rw [hq, Bool.and_eq_true, decide_eq_true_iff]
  | tof =>
      obtain ⟨helapsed, hq⟩ := hfollows
      change (vm.timers.getD i (newTimer .tof)).elapsedMs = _ at helapsed
      change (vm.timers.getD i (newTimer .tof)).q = _ at hq
      refine ⟨?_, nofun, fun _ => ?_⟩
      · rw [helapsed]
        split_ifs <;> omega
      · rw [hq, Bool.or_eq_true, Bool.and_eq_true, decide_eq_true_iff, any_input_iff]
        grind
  | tp => exact ⟨hfollows, nofun, nofun⟩

/-- An on-delay timer of 100 ms whose input has been true for two cycles of 60 ms. -/
theorem timing_law_ton :
    ∃ vm : Vm Platform.exact, TimerRuns 0 100 .ton [⟨true, 60⟩, ⟨true, 60⟩] vm ∧
      (vm.timers.getD 0 (newTimer .ton)).elapsedMs = 100 ∧
        (vm.timers.getD 0 (newTimer .ton)).q = true := by
  let inst : Instruction Platform.exact :=
    ⟨.timerRun, [.immediate (.u32 0), .register 0, .immediate (.u32 100), .immediate (.u32 0)]⟩
  have hstart : TimerRuns 0 100 .ton []
      ({ (Vm.new (P := Platform.exact)).setReg 0 (.bool true) with cycleTimeMs := 60 }) :=
    .start nofun
  have hfirst := hstart.call (rfl : inst.timerArgs = _) rfl
  have hsecond := hfirst.call (rfl : inst.timerArgs = _) rfl
  have hlaw := hsecond.timing_law.2.1 rfl
  exact ⟨_, hsecond, hlaw.1.trans (by decide), hlaw.2.mpr (by decide)⟩

end Vm

end Weftik
