import Weftik.Symbolic
import Weftik.Lib.Table
import Weftik.Instruction
import Weftik.Lib.Text

/-!
# Axis Groups and Their Conditional Code

An axis group is a list of axes. The generators of the group emit code that reads and
writes signals named after the group, the index of an axis, and a suffix. They share their
small steps: copying a register, comparing it, skipping a block on a condition, and patching
the target of the skip when the end of the block is known. The skip is a `JumpIf` with the
register as its first operand and the target as its second one. The machine takes a target
from the first operand only, so it goes on to the next instruction whatever the condition and
the target are.

## Main definitions

* `AxisConfig`, `AxisGroupConfig`: the configuration that the generators read.
* `AxisGroupConfig.signal`: the signal of an axis under a suffix.
* `copyReg`, `cmpImm`, `cmpReg`, `emitJumpIfNot`, `patchJump`: the small steps.
* `Instruction.bare`: an instruction as the machine reads it.
* `loadConstants`, `constants`: the two constants that every program starts with.

## Main results

* `AxisGroupConfig.signal_suffix`: signals of one name have one suffix.
* `Vm.step_map_bare`: the machine over bare code is the machine over the code.
* `map_bare_patchJump`: patching a skip changes nothing that the machine reads.
-/

namespace Weftik.AxisGroup

variable {P : Platform}

/-- The direction of the search for the home switch. -/
inductive HomeDirection
  | positive | negative
  deriving DecidableEq, Repr

/-- `+1` for positive, `-1` for negative. -/
def HomeDirection.multiplier : HomeDirection → P.F64
  | .positive => P.f64.lit 1 0
  | .negative => P.f64.neg (P.f64.lit 1 0)

/-- One axis. The fields that no generator reads are left out. -/
structure AxisConfig (P : Platform) where
  index : UInt8
  softLimitMin : P.F64
  softLimitMax : P.F64
  softLimitEnable : Bool
  backlashDistance : P.F64
  backlashEnable : Bool
  homeSearchVel : P.F64
  homeLatchVel : P.F64
  homeOffset : P.F64
  homeDirection : HomeDirection

/-- The default axis, with the given index. -/
def AxisConfig.linear (index : UInt8) : AxisConfig P where
  index := index
  softLimitMin := P.f64.zero
  softLimitMax := P.f64.lit 1000 0
  softLimitEnable := true
  backlashDistance := P.f64.zero
  backlashEnable := false
  homeSearchVel := P.f64.lit 50 0
  homeLatchVel := P.f64.lit 5 0
  homeOffset := P.f64.zero
  homeDirection := .negative

/-- An axis group: its name and its axes. -/
structure AxisGroupConfig (P : Platform) where
  name : String
  axes : List (AxisConfig P)

namespace AxisGroupConfig

/-- Three linear axes. -/
def defaultXyz : AxisGroupConfig P :=
  ⟨"group.0", [.linear 0, .linear 1, .linear 2]⟩

/-- The prefix of the signals of an axis. -/
def signalPrefix (cfg : AxisGroupConfig P) (axisIndex : UInt8) : String :=
  "group." ++ cfg.name ++ ".axis." ++ toString axisIndex

/-- The signal of an axis under a suffix. -/
def signal (cfg : AxisGroupConfig P) (axisIndex : UInt8) (suffix : String) : String :=
  cfg.signalPrefix axisIndex ++ "." ++ suffix

end AxisGroupConfig

/-- The default group over exact arithmetic. -/
def xyz : AxisGroupConfig Platform.exact := .defaultXyz

/-- The name of a signal as a program variable. -/
def programVar (pfx suffix : String) : String :=
  pfx.map (fun c => if c = '.' then '_' else c) ++ "_" ++ suffix

/-- The binding of a signal of an axis. -/
def binding (pfx suffix : String) (direction : Direction) (pinType : HalPinType) :
    SignalBinding :=
  ⟨pfx ++ "." ++ suffix, programVar pfx suffix, direction, pinType⟩

/-- Two signals of a group with one name have one suffix. -/
theorem AxisGroupConfig.signal_suffix (cfg : AxisGroupConfig P) {i j : UInt8}
    {s t : String} (hs : '.' ∉ s.toList) (ht : '.' ∉ t.toList)
    (h : cfg.signal i s = cfg.signal j t) : s = t := by
  have hlist := congrArg String.toList h
  simp only [signal, String.toList_append, List.append_assoc] at hlist
  rw [← String.toList_inj]
  exact Text.eq_of_append_cons_eq (a := (cfg.signalPrefix i).toList)
    (b := (cfg.signalPrefix j).toList) hs ht hlist

/-- Signals under different suffixes have different names. -/
theorem AxisGroupConfig.signal_ne (cfg : AxisGroupConfig P) {s t : String} (hne : s ≠ t)
    (hs : '.' ∉ s.toList) (ht : '.' ∉ t.toList) (i j : UInt8) :
    cfg.signal i s ≠ cfg.signal j t :=
  fun h => hne (cfg.signal_suffix hs ht h)

end Weftik.AxisGroup

namespace Weftik

variable {P : Platform}

/-! ### Bare code -/

/-- An instruction without the operands of a `JumpIf` that the machine does not read. -/
def Instruction.bare (inst : Instruction P) : Instruction P :=
  match inst.opcode with
  | .jumpIf => ⟨.jumpIf, inst.operands.take 1⟩
  | _ => inst

@[simp] theorem Instruction.bare_opcode (inst : Instruction P) :
    inst.bare.opcode = inst.opcode := by
  obtain ⟨opcode, ops⟩ := inst
  cases opcode <;> rfl

theorem Instruction.bare_of_ne {inst : Instruction P} (h : inst.opcode ≠ .jumpIf) :
    inst.bare = inst := by
  obtain ⟨opcode, ops⟩ := inst
  cases opcode with
  | jumpIf => exact absurd rfl h
  | _ => rfl

/-- The machine executes a bare instruction as it executes the instruction. -/
theorem Vm.executeInstruction_bare (vm : Vm P) (inst : Instruction P) :
    vm.executeInstruction inst.bare = vm.executeInstruction inst := by
  by_cases h : inst.opcode = .jumpIf
  · obtain ⟨opcode, ops⟩ := inst
    obtain rfl : opcode = .jumpIf := h
    have htarget : jumpTarget (ops.take 1) = jumpTarget ops := by
      rcases ops with _ | ⟨_ | v | _, ops⟩
      · rfl
      · rfl
      · cases v <;> rfl
      · rfl
    simp only [Instruction.bare, executeInstruction, execJumpIf, htarget]
  · rw [Instruction.bare_of_ne h]

/-- The machine over bare code. -/
theorem Vm.step_map_bare (code : List (Instruction P)) :
    Vm.step (code.map Instruction.bare) = Vm.step code := by
  funext vm
  simp only [Vm.step, List.getElem?_map]
  cases code[vm.ip]? with
  | none => rfl
  | some inst =>
      simp only [Option.map_some, executeInstruction_bare, Instruction.bare_opcode]

theorem scans_map_bare (code : List (Instruction P)) {t t' : SignalTable P} :
    Scans (code.map Instruction.bare) t t' ↔ Scans code t t' := by
  rw [Scans, Scans, Vm.step_map_bare]

namespace AxisGroup

open Symbolic

/-! ### The small steps -/

/-- The constant `0.0`. -/
def zeroImm : HalValue P := .f64 P.f64.zero

/-- The constant `1.0`. -/
def oneImm : HalValue P := .f64 (P.f64.lit 1 0)

/-- Copy a register, as `dst = src + 0`. -/
def copyReg (src dst zeroReg : ℕ) : List (Instruction P) := [.arith .add src zeroReg dst]

/-- Compare a register with a constant, which is loaded into `temp`. -/
def cmpImm (opcode : Opcode) (reg : ℕ) (imm : P.F64) (temp : ℕ) : List (Instruction P) :=
  [.loadImm temp (.f64 imm), .cmp opcode reg temp]

/-- Compare a copy of a register with another register. -/
def cmpReg (opcode : Opcode) (a b dst zeroReg : ℕ) : List (Instruction P) :=
  copyReg a dst zeroReg ++ [.cmp opcode dst b]

/-- A skip whose target is not known yet. -/
def skipPlaceholder (condReg : ℕ) : Instruction P :=
  ⟨.jumpIf, [.register condReg, .immediate (.u32 0)]⟩

/-- Emit a skip of what follows when the condition is false, with the index of the skip. The
condition is inverted by a comparison with zero, which is loaded into `temp`. -/
def emitJumpIfNot (code : List (Instruction P)) (condReg temp : ℕ) :
    List (Instruction P) × ℕ :=
  let code := code ++ cmpImm .eq condReg P.f64.zero temp
  (code ++ [skipPlaceholder condReg], code.length)

/-- Set the target of the skip at an index. -/
def patchJump (code : List (Instruction P)) (jumpIdx target : ℕ) : List (Instruction P) :=
  code.modify jumpIdx fun inst =>
    if inst.opcode = .jumpIf ∧ 2 ≤ inst.operands.length then
      { inst with operands := inst.operands.set 1 (.immediate (.u32 (UInt32.ofNat target))) }
    else inst

/-! ### Skips do nothing -/

/-- Replacing an instruction by one with the same bare form. -/
theorem map_bare_modify {f : Instruction P → Instruction P}
    (hf : ∀ inst, (f inst).bare = inst.bare) (code : List (Instruction P)) (i : ℕ) :
    (code.modify i f).map Instruction.bare = code.map Instruction.bare := by
  induction code generalizing i with
  | nil => cases i <;> rfl
  | cons inst code ih =>
      cases i with
      | zero => exact congrArg (· :: code.map Instruction.bare) (hf inst)
      | succ i => exact congrArg (inst.bare :: ·) (ih i)

/-- Patching a skip changes nothing that the machine reads. -/
@[simp] theorem map_bare_patchJump (code : List (Instruction P)) (jumpIdx target : ℕ) :
    (patchJump code jumpIdx target).map Instruction.bare = code.map Instruction.bare := by
  refine map_bare_modify (fun inst => ?_) code jumpIdx
  split
  · rename_i h
    obtain ⟨opcode, ops⟩ := inst
    obtain ⟨rfl, hlen⟩ : opcode = .jumpIf ∧ 2 ≤ ops.length := h
    rcases ops with _ | ⟨a, _ | ⟨b, ops⟩⟩
    · cases hlen
    · simp at hlen
    · rfl
  · rfl

/-- A loop over the axes that emits some code for each. -/
theorem map_bare_foldl {α : Type} {emit : List (Instruction P) → α → List (Instruction P)}
    {block : α → List (Instruction P)}
    (hemit : ∀ code a,
      (emit code a).map Instruction.bare = code.map Instruction.bare ++ block a)
    (as : List α) (code : List (Instruction P)) :
    (as.foldl emit code).map Instruction.bare =
      code.map Instruction.bare ++ as.flatMap block := by
  induction as generalizing code with
  | nil => exact (List.append_nil _).symm
  | cons a as ih => rw [List.foldl_cons, ih, hemit, List.flatMap_cons, List.append_assoc]

/-! ### The constants -/

/-- Load the two constants. -/
def loadConstants (rZero rOne : ℕ) : List (Instruction P) :=
  [.loadImm rZero zeroImm, .loadImm rOne oneImm]

/-- The two constants are known. -/
def constants (rZero rOne : ℕ) (t : SignalTable P) : Symbolic P where
  table := t
  regs r := if r = rZero then some zeroImm else if r = rOne then some oneImm else none
  flag := none

theorem constants_le {rZero rOne : ℕ} {k : Symbolic P} {t : SignalTable P}
    (htable : k.table = t) (hzero : k.regs rZero = some zeroImm)
    (hone : k.regs rOne = some oneImm) : (constants rZero rOne t).Le k := by
  refine ⟨htable.symm, fun r v h => ?_, nofun⟩
  dsimp only [constants] at h
  split at h
  · rename_i hr
    rw [hr, hzero, h]
  · split at h
    · rename_i hr
      rw [hr, hone, h]
    · cases h

/-- Code that symbolic execution runs, and that keeps the constants. -/
theorem takes_of_constants {rZero rOne pc : ℕ} {pre : Symbolic P} {t : SignalTable P}
    {insts : List (Instruction P)}
    (h : ∃ mid, pre.run insts = some mid ∧ mid.table = t ∧
      mid.regs rZero = some zeroImm ∧ mid.regs rOne = some oneImm) :
    Takes pc insts pre (constants rZero rOne t) := by
  obtain ⟨mid, hrun, htable, hzero, hone⟩ := h
  exact takes_of_run hrun (constants_le htable hzero hone)

/-- A program that loads the constants and goes through the axes. -/
theorem takes_axes {α : Type} {rZero rOne pc : ℕ} {block : α → List (Instruction P)}
    {blockWrites : α → List (String × HalValue P)} {as : List α}
    (hload : ∀ t : SignalTable P, Takes pc (loadConstants rZero rOne) (onlyTable t)
      (constants rZero rOne t))
    (hblock : ∀ a ∈ as, ∀ pc t, Takes pc (block a) (constants rZero rOne t)
      (constants rZero rOne (Table.writes t (blockWrites a))))
    (t : SignalTable P) :
    Takes pc (loadConstants rZero rOne ++ as.flatMap block) (onlyTable t)
      (constants rZero rOne (Table.writes t (as.flatMap blockWrites))) := by
  rw [← Table.writes_flatMap]
  exact (hload t).append (.flatMap hblock t)

/-! ### Flags in the signal table -/

/-- The signal holds a true value: a boolean, or `1.0`, which the programs use for it. -/
def IsTrue (v : Option (HalValue P)) : Prop := v = some (.bool true) ∨ v = some oneImm

/-- The axis is homed. -/
def Homed (cfg : AxisGroupConfig P) (t : SignalTable P) (axis : AxisConfig P) : Prop :=
  IsTrue (t (cfg.signal axis.index "homed"))

end AxisGroup

end Weftik
