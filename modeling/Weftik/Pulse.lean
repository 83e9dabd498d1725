import Weftik.Timers

/-!
# The Pulse of a TP Timer

A pulse begins with a rising edge of the input while there is none, and lasts until the cycle
times since then, that of the call with the edge among them, reach the preset. The timer ends
the pulse also when its input falls, so that a pulse is at most as long as the preset.

## Main definitions

* `Pulse.step`, `Pulse.cut`: one call of a pulse that lasts for its time, and of one that also
  ends when the input falls.
* `pulses`: the pulse of a sequence of calls.
* `Vm.Traced`: a run of the machine, with the calls of one timer and its outputs.

## Main results

* `TimerState.Shows.tick`: one call keeps the timer with its pulse.
* `Vm.Traced.outputs_eq_pulses`: the outputs of a timer in every run.
-/

namespace Weftik

variable {P : Platform}

/-! ### The pulse -/

/-- The last input, and the time since the pulse has begun, while it lasts. -/
structure Pulse where
  last : Bool
  since : Option ℕ
  deriving DecidableEq, Repr

/-- One call, where the pulse lasts for the given time. -/
def Pulse.step (pt : ℕ) (p : Pulse) (c : TimerCall) : Pulse where
  last := c.input
  since :=
    (match p.since with
      | some t => some (t + c.cycle)
      | none => if c.input && !p.last then some c.cycle else none).filter (· < pt)

/-- One call, where the pulse lasts for the given time unless the input falls before. -/
def Pulse.cut (pt : ℕ) (p : Pulse) (c : TimerCall) : Pulse :=
  { p.step pt c with since := (p.step pt c).since.filter fun _ => c.input }

/-- Whether there is a pulse, after each call. -/
def pulses (step : Pulse → TimerCall → Pulse) : Pulse → List TimerCall → List Bool
  | _, [] => []
  | p, c :: calls => (step p c).since.isSome :: pulses step (step p c) calls

/-- With the input on, the pulse lasts for its time. -/
theorem Pulse.cut_of_input {pt : ℕ} {p : Pulse} {c : TimerCall} (h : c.input = true) :
    p.cut pt c = p.step pt c := by
  rw [Pulse.cut, h]
  cases hsince : (p.step pt c).since with
  | none => rw [Option.filter_none, ← hsince]
  | some e => rw [Option.filter_some, if_pos rfl, ← hsince]

/-- With the input off, there is no pulse. -/
theorem Pulse.cut_of_not_input {pt : ℕ} {p : Pulse} {c : TimerCall} (h : c.input = false) :
    p.cut pt c = ⟨false, none⟩ := by
  rw [Pulse.cut, h]
  have hlast : (p.step pt c).last = false := h
  rw [hlast]
  cases (p.step pt c).since <;> rfl

/-! ### The timer -/

/-- The outputs of a timer, after each call. -/
def TimerState.outputs : TimerState → List TimerCall → List Bool
  | _, [] => []
  | t, c :: calls => (t.tick c.input c.cycle).q :: outputs (t.tick c.input c.cycle) calls

variable {t : TimerState}

/-- A call of a pulse timer, from whether a pulse goes on or begins and the time it has lasted. -/
theorem TimerState.tick_tp (hkind : t.kind = .tp) (hpreset : t.presetMs < 2 ^ 64) {on : Bool}
    {e : ℕ} (input : Bool) (cycle : ℕ) (hon : on = (t.q || input && !t.inVal))
    (he : e = if input && !t.inVal then 0 else t.elapsedMs) :
    (t.tick input cycle).inVal = input ∧
      (t.tick input cycle).q = (on && input && decide (e + cycle < t.presetMs)) ∧
      (on = true → (t.tick input cycle).elapsedMs = min t.presetMs (e + cycle)) := by
  obtain ⟨kind, inVal, elapsed, q, preset⟩ := t
  obtain rfl : kind = .tp := hkind
  simp only at hpreset hon he
  subst hon he
  refine ⟨rfl, ?_⟩
  cases hon : (q || input && !inVal) with
  | false =>
      obtain ⟨rfl, hstart⟩ := Bool.or_eq_false_iff.mp hon
      rw [TimerState.tick, hstart]
      exact ⟨rfl, by rintro ⟨⟩⟩
  | true =>
      have hrun : (if (input && !inVal) = true then (⟨.tp, inVal, 0, true, preset⟩ : TimerState)
          else ⟨.tp, inVal, elapsed, q, preset⟩) =
          ⟨.tp, inVal, if (input && !inVal) = true then 0 else elapsed, true, preset⟩ := by
        split
        · rfl
        · rename_i hstart
          rw [Bool.eq_false_iff.mpr hstart, Bool.or_false] at hon
          rw [hon]
      simp only [TimerState.tick, hrun, if_true, Bool.true_and, true_implies]
      generalize (if (input && !inVal) = true then 0 else elapsed) = e
      have hmin := @stop_saturatingAdd e cycle preset hpreset
      have hle := @le_saturatingAdd_iff e cycle preset hpreset
      by_cases hdone : preset ≤ saturatingAdd e cycle
      · rw [if_pos hdone] at hmin ⊢
        rw [decide_eq_false (Nat.not_lt.mpr (hle.mp hdone)), Bool.and_false]
        cases input <;> exact ⟨rfl, hmin⟩
      · rw [if_neg hdone] at hmin ⊢
        rw [decide_eq_true (Nat.lt_of_not_le fun h => hdone (hle.mpr h)), Bool.and_true]
        cases input <;> exact ⟨rfl, hmin⟩

/-- The timer shows the pulse, and its input has been on since the pulse began. -/
structure TimerState.Shows (t : TimerState) (pt : ℕ) (p : Pulse) : Prop where
  kind : t.kind = .tp
  presetMs : t.presetMs = pt
  last : t.inVal = p.last
  q : t.q = p.since.isSome
  elapsedMs : ∀ e ∈ p.since, t.elapsedMs = e
  held : p.since.isSome = true → p.last = true

/-- A call with the input on. The pulse goes on, begins, or neither. -/
theorem TimerState.Shows.tick_on {pt : ℕ} {p : Pulse} (h : t.Shows pt p) (hpt : pt < 2 ^ 64)
    (cycle : ℕ) : (t.tick true cycle).Shows pt (p.step pt ⟨true, cycle⟩) := by
  obtain ⟨last, since⟩ := p
  obtain ⟨hkind, rfl, hlast, hq, helapsed, hheld⟩ := h
  simp only at hlast hq helapsed hheld
  obtain ⟨hin, hout, htime⟩ := t.tick_tp hkind hpt true cycle rfl rfl
  have hshows : ∀ e, (t.q || true && !t.inVal) = true →
      (if true && !t.inVal then 0 else t.elapsedMs) = e →
      (Pulse.step t.presetMs ⟨last, since⟩ ⟨true, cycle⟩).since =
        (some (e + cycle)).filter (· < t.presetMs) →
      (t.tick true cycle).Shows t.presetMs
        (Pulse.step t.presetMs ⟨last, since⟩ ⟨true, cycle⟩) := by
    intro e hon he hsince
    rw [hon, he, Bool.true_and, Bool.true_and] at hout
    rw [he] at htime
    have htime := htime hon
    rw [Option.filter_some] at hsince
    refine ⟨(t.tick_kind _ _).trans hkind, t.tick_presetMs _ _, hin, ?_, ?_, fun _ => rfl⟩
    · rw [hsince, hout]
      by_cases hlt : e + cycle < t.presetMs
      · rw [decide_eq_true hlt, if_pos rfl]
        rfl
      · rw [decide_eq_false hlt, if_neg Bool.false_ne_true]
        rfl
    · intro e' he'
      rw [hsince] at he'
      by_cases hlt : e + cycle < t.presetMs
      · rw [decide_eq_true hlt, if_pos rfl] at he'
        rw [htime, ← Option.some.inj he', Nat.min_eq_right hlt.le]
      · rw [decide_eq_false hlt, if_neg Bool.false_ne_true] at he'
        cases he'
  cases since with
  | some e =>
      -- the pulse goes on, and the input has been on, so that it cannot rise
      have hstart : (true && !t.inVal) = false := by
        rw [hlast, hheld rfl]
        rfl
      refine hshows e ?_ ?_ rfl
      · rw [hq]
        rfl
      · rw [hstart, if_neg Bool.false_ne_true]
        exact helapsed e rfl
  | none =>
      cases hstart : (true && !t.inVal) with
      | true =>
          refine hshows 0 ?_ ?_ ?_
          · rw [hstart, Bool.or_true]
          · rw [hstart, if_pos rfl]
          · rw [hlast] at hstart
            simp only [Pulse.step, hstart, if_true, Nat.zero_add]
      | false =>
          have hsince : (Pulse.step t.presetMs ⟨last, none⟩ ⟨true, cycle⟩).since = none := by
            rw [hlast] at hstart
            simp only [Pulse.step, hstart, Bool.false_eq_true, if_false, Option.filter_none]
          rw [hq, hstart] at hout
          refine ⟨(t.tick_kind _ _).trans hkind, t.tick_presetMs _ _, hin, ?_, ?_, fun _ => rfl⟩
          · rw [hsince, hout]
            rfl
          · rw [hsince]
            exact nofun

/-- One call keeps the timer with its pulse. -/
theorem TimerState.Shows.tick {pt : ℕ} {p : Pulse} (h : t.Shows pt p) (hpt : pt < 2 ^ 64)
    (c : TimerCall) : (t.tick c.input c.cycle).Shows pt (p.cut pt c) := by
  obtain ⟨input, cycle⟩ := c
  cases input with
  | true =>
      rw [Pulse.cut_of_input rfl]
      exact h.tick_on hpt cycle
  | false =>
      rw [Pulse.cut_of_not_input rfl]
      obtain ⟨hin, hout, -⟩ :=
        t.tick_tp h.kind (h.presetMs.trans_lt hpt) false cycle rfl rfl
      rw [Bool.and_false, Bool.false_and] at hout
      exact ⟨(t.tick_kind _ _).trans h.kind, (t.tick_presetMs _ _).trans h.presetMs, hin, hout,
        nofun, nofun⟩

/-- The outputs of a timer that shows the pulse are the pulses. -/
theorem TimerState.Shows.outputs_eq {pt : ℕ} (hpt : pt < 2 ^ 64) {p : Pulse} (h : t.Shows pt p)
    (calls : List TimerCall) : t.outputs calls = pulses (Pulse.cut pt) p calls := by
  induction calls generalizing t p with
  | nil => rfl
  | cons c calls ih =>
      have hnext := h.tick hpt c
      rw [TimerState.outputs, pulses, ih hnext, hnext.q]

/-! ### Runs of the machine -/

namespace Vm

/-- The machine after some calls of one timer with one preset and one kind, from `vm₀` on, with
the output after each call. What runs between two calls makes no other call of this timer, and
whatever else happens leaves the timers alone. -/
inductive Traced (i pt : ℕ) (kind : TimerKind) (vm₀ : Vm P) : List TimerCall → List Bool →
    Vm P → Prop
  | start : Traced i pt kind vm₀ [] [] vm₀
  | call {calls : List TimerCall} {outputs : List Bool} {vm vm' : Vm P} {inst : Instruction P}
      {input : ℕ} {result : ExecutorResult} :
      Traced i pt kind vm₀ calls outputs vm → inst.timerArgs = some ⟨i, input, pt, kind⟩ →
        vm.executeInstruction inst = .ok (vm', result) →
        Traced i pt kind vm₀ (calls ++ [⟨(vm.reg input).beq (.bool true), vm.cycleTimeMs⟩])
          (outputs ++ [(vm'.timers.getD i (newTimer kind)).q]) vm'
  | other {calls : List TimerCall} {outputs : List Bool} {vm vm' : Vm P} {inst : Instruction P}
      {result : ExecutorResult} :
      Traced i pt kind vm₀ calls outputs vm → (∀ a, inst.timerArgs = some a → a.timer ≠ i) →
        vm.executeInstruction inst = .ok (vm', result) → Traced i pt kind vm₀ calls outputs vm'
  | between {calls : List TimerCall} {outputs : List Bool} {vm vm' : Vm P} :
      Traced i pt kind vm₀ calls outputs vm → vm'.timers = vm.timers →
        Traced i pt kind vm₀ calls outputs vm'

end Vm

/-- The timer after some calls. -/
def TimerState.after (t : TimerState) (calls : List TimerCall) : TimerState :=
  calls.foldl (fun t c => t.tick c.input c.cycle) t

theorem TimerState.outputs_concat (t : TimerState) (calls : List TimerCall) (c : TimerCall) :
    t.outputs (calls ++ [c]) =
      t.outputs calls ++ [((t.after calls).tick c.input c.cycle).q] := by
  induction calls generalizing t with
  | nil => rfl
  | cons c' calls ih =>
      rw [List.cons_append, TimerState.outputs, TimerState.outputs, ih, List.cons_append]
      rfl

/-- A run makes the calls that it has, and shows the outputs of the timer. -/
theorem Vm.Traced.follows {i pt : ℕ} {kind : TimerKind} {vm₀ vm : Vm P} {calls : List TimerCall}
    {outputs : List Bool} (h : Vm.Traced i pt kind vm₀ calls outputs vm) :
    (calls ≠ [] → pt < 2 ^ 64) ∧
      vm.timerAs i pt kind = (vm₀.timerAs i pt kind).after calls ∧
      outputs = (vm₀.timerAs i pt kind).outputs calls := by
  induction h with
  | start => exact ⟨fun h => absurd rfl h, rfl, rfl⟩
  | @call calls outputs vm vm' inst input result _ hargs hexec ih =>
      obtain ⟨-, htimer, houtputs⟩ := ih
      obtain ⟨hpt, htick, -⟩ := Vm.executeInstruction_timerArgs hargs hexec
      simp only at hpt htick
      rw [htimer] at htick
      refine ⟨fun _ => hpt, ?_, ?_⟩
      · rw [htick, TimerState.after, TimerState.after, List.foldl_concat]
      · rw [houtputs, TimerState.outputs_concat, ← htick]
        rfl
  | @other calls outputs vm vm' inst result _ hargs hexec ih =>
      obtain ⟨hpt, htimer, houtputs⟩ := ih
      refine ⟨hpt, ?_, houtputs⟩
      rw [← htimer]
      cases ha : inst.timerArgs with
      | none => exact Vm.executeInstruction_other ha hexec i pt kind
      | some a =>
          obtain ⟨-, -, hother⟩ := Vm.executeInstruction_timerArgs ha hexec
          exact hother i pt kind (hargs a ha).symm
  | between _ htimers ih =>
      obtain ⟨hpt, htimer, houtputs⟩ := ih
      refine ⟨hpt, ?_, houtputs⟩
      rw [← htimer, Vm.timerAs, Vm.timerAs, htimers]

/-- A pulse timer in any run, from a machine on where its output is off: a rising edge of the
input while the output is off begins a pulse, which lasts until the cycle times since then reach
the preset or the input falls, and the output is on as long as a pulse lasts. -/
theorem Vm.Traced.outputs_eq_pulses {i pt : ℕ} {vm₀ vm : Vm P} {calls : List TimerCall}
    {outputs : List Bool} (hstart : (vm₀.timerAs i pt .tp).q = false)
    (h : Vm.Traced i pt .tp vm₀ calls outputs vm) :
    outputs = pulses (Pulse.cut pt) ⟨(vm₀.timerAs i pt .tp).inVal, none⟩ calls := by
  obtain ⟨hpt, -, houtputs⟩ := h.follows
  rw [houtputs]
  cases calls with
  | nil => rfl
  | cons c calls =>
      have hshows : (vm₀.timerAs i pt .tp).Shows pt ⟨(vm₀.timerAs i pt .tp).inVal, none⟩ :=
        ⟨rfl, rfl, rfl, hstart, nofun, nofun⟩
      exact hshows.outputs_eq (hpt (List.cons_ne_nil c calls)) (c :: calls)

namespace Vm

/-- A pulse timer of 100 ms, with its input in the first register. -/
def tpRun : Instruction Platform.exact :=
  ⟨.timerRun, [.immediate (.u32 0), .register 0, .immediate (.u32 100), .immediate (.u32 2)]⟩

/-- A machine with an input, in a cycle of 40 ms. -/
def tpVm (input : Bool) (timers : List TimerState) : Vm Platform.exact :=
  { Vm.new.setReg 0 (.bool input) with cycleTimeMs := 40, timers := timers }

/-- An input that is on for three cycles: the pulse lasts for two of them. -/
theorem outputs_eq_pulses_held :
    [true, true, false] =
      pulses (Pulse.cut 100) ⟨false, none⟩ [⟨true, 40⟩, ⟨true, 40⟩, ⟨true, 40⟩] := by
  have hstart : Traced 0 100 .tp (tpVm true []) [] [] (tpVm true []) := .start
  have hfirst := hstart.call (rfl : tpRun.timerArgs = _) rfl
  have hsecond := hfirst.call (rfl : tpRun.timerArgs = _) rfl
  have hthird := hsecond.call (rfl : tpRun.timerArgs = _) rfl
  exact hthird.outputs_eq_pulses rfl

/-- The fall of the input ends a pulse before its time. -/
theorem fall_ends_pulse :
    ¬ ∀ (P : Platform) (i pt : ℕ) (vm₀ vm : Vm P) (calls : List TimerCall) (outputs : List Bool),
      (vm₀.timerAs i pt .tp).q = false → Traced i pt .tp vm₀ calls outputs vm →
      outputs = pulses (Pulse.step pt) ⟨(vm₀.timerAs i pt .tp).inVal, none⟩ calls := by
  intro h
  have hstart : Traced 0 100 .tp (tpVm true []) [] [] (tpVm true []) := .start
  have hfirst := hstart.call (rfl : tpRun.timerArgs = _) rfl
  have hbetween := hfirst.between (rfl : (tpVm false [⟨.tp, true, 40, true, 100⟩]).timers = _)
  have hsecond := hbetween.call (rfl : tpRun.timerArgs = _) rfl
  have hsame := h _ _ _ _ _ _ _ rfl hsecond
  revert hsame
  decide

end Vm

end Weftik
