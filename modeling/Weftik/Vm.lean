import Weftik.Instruction

/-!
# The Register Machine

The state of the virtual machine: sixteen registers, one flag, the instruction pointer,
the signal table, the call stack, and the function-block instances. A register access
outside `r0` to `r15` panics. `reset` clears what one scan uses and keeps the function
blocks, which live from scan to scan.

## Main definitions

* `TimerState`, `CounterState`, `SrState`, `EdgeState`: the function-block instances and
  their `tick` functions.
* `Vm`: the machine state, with `readRegister` and `writeRegister` (bounds checked) over
  the total accessors `reg` and `setReg`.
* `Vm.reset`: the state at the start of a scan.
-/

namespace Weftik

/-! ### Function blocks -/

/-- On-delay, off-delay and pulse timers. -/
inductive TimerKind
  | ton | tof | tp
  deriving DecidableEq, Repr

/-- A timer instance; times are in milliseconds. -/
structure TimerState where
  kind : TimerKind
  inVal : Bool
  elapsedMs : ℕ
  q : Bool
  presetMs : ℕ
  deriving DecidableEq, Repr

/-- `u64::saturating_add`. -/
def saturatingAdd (a b : ℕ) : ℕ := min (a + b) (2 ^ 64 - 1)

/-- One execution of a timer whose kind and preset have been set, with the given input
and cycle time. -/
def TimerState.tick (t : TimerState) (inBool : Bool) (cycle : ℕ) : TimerState :=
  let t' :=
    match t.kind with
    | .ton =>
        if !inBool then { t with q := false, elapsedMs := 0 }
        else if t.presetMs ≤ t.elapsedMs then { t with q := true }
        else
          let elapsed := saturatingAdd t.elapsedMs cycle
          if t.presetMs ≤ elapsed then { t with q := true, elapsedMs := t.presetMs }
          else { t with elapsedMs := elapsed }
    | .tof =>
        if inBool then { t with q := true, elapsedMs := 0 }
        else if t.q then
          let elapsed := saturatingAdd t.elapsedMs cycle
          if t.presetMs ≤ elapsed then { t with q := false, elapsedMs := t.presetMs }
          else { t with elapsedMs := elapsed }
        else t
    | .tp =>
        let t := if inBool && !t.inVal then { t with q := true, elapsedMs := 0 } else t
        if t.q then
          let elapsed := saturatingAdd t.elapsedMs cycle
          let t :=
            if t.presetMs ≤ elapsed then { t with q := false, elapsedMs := t.presetMs }
            else { t with elapsedMs := elapsed }
          if !inBool then { t with q := false } else t
        else t
  { t' with inVal := inBool }

/-- Up, down and up-down counters. -/
inductive CounterKind
  | ctu | ctd | ctud
  deriving DecidableEq, Repr

/-- A counter instance. -/
structure CounterState where
  kind : CounterKind
  cuVal : Bool
  cdVal : Bool
  cv : ℕ
  pv : ℕ
  q : Bool
  qu : Bool
  qd : Bool
  deriving DecidableEq, Repr

/-- One execution of a counter whose kind and preset have been set. The increment is `u32`
arithmetic and comes before the cap at the preset. -/
def CounterState.tick (P : Platform) (c : CounterState) (cu cd : Bool) :
    Except Panic CounterState := do
  let up := cu && !c.cuVal
  let down := cd && !c.cdVal
  let c := { c with cuVal := cu, cdVal := cd }
  match c.kind with
  | .ctu =>
      let cv ← if up then (min · c.pv) <$> unsigned P 32 (c.cv + 1) else pure c.cv
      pure { c with cv := cv, q := decide (c.pv ≤ cv) }
  | .ctd =>
      let cv := if down then c.cv - 1 else c.cv
      pure { c with cv := cv, q := decide (cv = 0) }
  | .ctud =>
      let cv ← if up then (min · c.pv) <$> unsigned P 32 (c.cv + 1) else pure c.cv
      let cv := if down then cv - 1 else cv
      pure { c with
        cv := cv, qu := decide (c.pv ≤ cv), qd := decide (cv = 0), q := decide (c.pv ≤ cv) }

/-- Set-dominant and reset-dominant flip-flops. -/
inductive SrKind
  | sr | rs
  deriving DecidableEq, Repr

/-- A flip-flop instance. -/
structure SrState where
  kind : SrKind
  s1 : Bool
  r : Bool
  q1 : Bool
  q2 : Bool
  deriving DecidableEq, Repr

/-- One execution of a flip-flop whose kind has been set. -/
def SrState.tick (f : SrState) (s1 r : Bool) : SrState :=
  let f' :=
    match f.kind with
    | .sr =>
        if s1 then { f with q1 := true, q2 := false }
        else if r then { f with q1 := false, q2 := true }
        else f
    | .rs =>
        if r then { f with q1 := false, q2 := true }
        else if s1 then { f with q1 := true, q2 := false }
        else f
  { f' with s1 := s1, r := r }

/-- An edge-detector instance; kind 0 is rising, 1 is falling. -/
structure EdgeState where
  kind : ℕ
  lastClk : Bool
  q : Bool
  deriving DecidableEq, Repr

/-- One execution of an edge detector. -/
def EdgeState.tick (e : EdgeState) (kind : ℕ) (clk : Bool) : EdgeState :=
  let q :=
    match kind with
    | 0 => clk && !e.lastClk
    | 1 => !clk && e.lastClk
    | _ => false
  { e with kind := kind, q := q, lastClk := clk }

/-! ### The machine state -/

/-- The number of general-purpose registers. -/
def registerCount : ℕ := 16

/-- The state of the virtual machine. The head of `callStack` is the end of the source's
vector. -/
structure Vm (P : Platform) where
  registers : Fin registerCount → HalValue P
  flagsZero : Bool
  ip : ℕ
  signals : String → Option (HalValue P)
  callStack : List ℕ
  timers : List TimerState
  counters : List CounterState
  srs : List SrState
  edges : List EdgeState
  cycleTimeMs : ℕ

variable {P : Platform}

namespace Vm

/-- A new machine: all registers `S32(0)`, everything else empty. -/
def new : Vm P where
  registers _ := .s32 0
  flagsZero := false
  ip := 0
  signals _ := none
  callStack := []
  timers := []
  counters := []
  srs := []
  edges := []
  cycleTimeMs := 0

/-- Reset the registers, the flag, the instruction pointer, the signal table and the call
stack. The function blocks and the cycle time stay. -/
def reset (vm : Vm P) : Vm P :=
  { vm with
    registers := fun _ => .s32 0
    flagsZero := false
    ip := 0
    signals := fun _ => none
    callStack := [] }

/-- The content of a register; `S32(0)` outside the register file. -/
def reg (vm : Vm P) (idx : ℕ) : HalValue P :=
  if h : idx < registerCount then vm.registers ⟨idx, h⟩ else .s32 0

/-- The machine with one register replaced. -/
def setReg (vm : Vm P) (idx : ℕ) (val : HalValue P) : Vm P :=
  { vm with registers := fun i => if i.val = idx then val else vm.registers i }

/-- Read a register, with the bounds assertion of the source. -/
def readRegister (vm : Vm P) (idx : ℕ) : Except Panic (HalValue P) :=
  if idx < registerCount then .ok (vm.reg idx) else .error (.registerOutOfBounds idx)

/-- Write a register, with the bounds assertion of the source. -/
def writeRegister (vm : Vm P) (idx : ℕ) (val : HalValue P) : Except Panic (Vm P) :=
  if idx < registerCount then .ok (vm.setReg idx val) else .error (.registerOutOfBounds idx)

/-- Write a named signal into the signal table. -/
def writeSignal (vm : Vm P) (name : String) (value : HalValue P) : Vm P :=
  { vm with signals := Function.update vm.signals name (some value) }

/-- Read a named signal from the signal table. -/
def readSignal (vm : Vm P) (name : String) : Option (HalValue P) :=
  vm.signals name

/-- Advance the instruction pointer by one. -/
def advanceIp (vm : Vm P) : Vm P := { vm with ip := vm.ip + 1 }

/-- Set the instruction pointer. -/
def setIp (vm : Vm P) (val : ℕ) : Vm P := { vm with ip := val }

/-- Set the flag. -/
def setFlagsZero (vm : Vm P) (val : Bool) : Vm P := { vm with flagsZero := val }

/-- Push a return address. -/
def pushCallIp (vm : Vm P) (returnIp : ℕ) : Vm P :=
  { vm with callStack := returnIp :: vm.callStack }

/-! ### Accessor lemmas -/

theorem readRegister_of_lt {vm : Vm P} {idx : ℕ} (h : idx < 16) :
    vm.readRegister idx = .ok (vm.reg idx) :=
  if_pos h

theorem writeRegister_of_lt {vm : Vm P} {idx : ℕ} {val : HalValue P} (h : idx < 16) :
    vm.writeRegister idx val = .ok (vm.setReg idx val) :=
  if_pos h

/-- Reading a register after writing one. -/
theorem reg_setReg {vm : Vm P} {idx : ℕ} {val : HalValue P} (h : idx < 16) (j : ℕ) :
    (vm.setReg idx val).reg j = if j = idx then val else vm.reg j := by
  by_cases hj : j < registerCount
  · simp only [reg, setReg, hj, dif_pos]
  · have hne : j ≠ idx := by
      rintro rfl
      exact hj h
    simp only [reg, hj, dif_neg, not_false_eq_true, if_neg hne]

@[simp] theorem setReg_ip (vm : Vm P) (r : ℕ) (v : HalValue P) :
    (vm.setReg r v).ip = vm.ip := rfl

@[simp] theorem setReg_callStack (vm : Vm P) (r : ℕ) (v : HalValue P) :
    (vm.setReg r v).callStack = vm.callStack := rfl

@[simp] theorem setReg_signals (vm : Vm P) (r : ℕ) (v : HalValue P) :
    (vm.setReg r v).signals = vm.signals := rfl

@[simp] theorem setReg_flagsZero (vm : Vm P) (r : ℕ) (v : HalValue P) :
    (vm.setReg r v).flagsZero = vm.flagsZero := rfl

@[simp] theorem advanceIp_reg (vm : Vm P) (r : ℕ) : vm.advanceIp.reg r = vm.reg r := rfl

@[simp] theorem setIp_reg (vm : Vm P) (t r : ℕ) : (vm.setIp t).reg r = vm.reg r := rfl

@[simp] theorem setFlagsZero_reg (vm : Vm P) (b : Bool) (r : ℕ) :
    (vm.setFlagsZero b).reg r = vm.reg r := rfl

/-- Every register of a machine that has just been reset is `S32(0)`. -/
@[simp] theorem reset_reg (vm : Vm P) (r : ℕ) : vm.reset.reg r = .s32 0 := by
  simp [reg, reset]

end Vm

end Weftik
