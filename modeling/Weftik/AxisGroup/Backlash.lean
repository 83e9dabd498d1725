import Weftik.AxisGroup.Emit

/-!
# The Backlash Program

For each axis with backlash compensation the program is to find the direction of motion and,
when it reverses, to move the commanded position by the backlash. Its skips do nothing, but
it also has a jump over the code for the negative direction, which the machine takes. So the
direction is always positive, and the position is always moved. The target of the jump is
counted from the beginning of the program and cut to 32 bits.

## Main definitions

* `Backlash.program`: the generator.
* `Backlash.scanEffect`: the effect of a scan on the signal table.
* `Backlash.JumpsFit`: the targets of the jumps fit in 32 bits.

## Main results

* `Backlash.scans_program`: a scan, when the targets fit.
* `Backlash.not_scans_of_wraps`: no scan ends when they do not.
-/

namespace Weftik.AxisGroup

open Symbolic Table Code

variable {P : Platform}

namespace Backlash

/-! ### The generator -/

/-! The registers. -/

def rPos : ℕ := 0
def rVel : ℕ := 1
def rLastDir : ℕ := 2
def rNewDir : ℕ := 3
def rBacklash : ℕ := 4
def rComp : ℕ := 5
def rScratch : ℕ := 6
def rZero : ℕ := 7
def rOne : ℕ := 8

/-- Emit a jump whose target is not known yet, with its index. -/
def emitJump (code : List (Instruction P)) : List (Instruction P) × ℕ :=
  (code ++ [.jump 0], code.length)

/-- Set the target of the jump or the skip at an index. -/
def patchJump (code : List (Instruction P)) (jumpIdx target : ℕ) : List (Instruction P) :=
  code.modify jumpIdx fun inst =>
    if inst.opcode = .jump ∧ inst.operands ≠ [] then
      { inst with operands := inst.operands.set 0 (.immediate (.u32 (UInt32.ofNat target))) }
    else if inst.opcode = .jumpIf ∧ 2 ≤ inst.operands.length then
      { inst with operands := inst.operands.set 1 (.immediate (.u32 (UInt32.ofNat target))) }
    else inst

/-- Does the generator emit code for the axis? -/
def isActive (axis : AxisConfig P) : Bool :=
  axis.backlashEnable && !P.f64.eq axis.backlashDistance P.f64.zero

/-- Emit the code of one axis. -/
def emitAxis (cfg : AxisGroupConfig P) (code : List (Instruction P)) (axis : AxisConfig P) :
    List (Instruction P) :=
  if !isActive axis then code
  else
    let sig := cfg.signal axis.index
    let code := code ++ [.loadSignal rPos (sig "pos_cmd")]
    let code := code ++ [.loadSignal rVel (sig "vel_cmd")]
    let code := code ++ [.loadSignal rLastDir (sig "last_dir")]
    -- the sign of the velocity
    let code := code ++ [.loadImm rNewDir zeroImm]
    let code := code ++ cmpReg .gt rVel rZero rScratch rZero
    let (code, notPos) := emitJumpIfNot code rScratch rBacklash
    let code := code ++ [.loadImm rNewDir oneImm]
    let (code, doneSign) := emitJump code
    let code := patchJump code notPos code.length
    let code := code ++ cmpReg .lt rVel rZero rScratch rZero
    let (code, notNeg) := emitJumpIfNot code rScratch rBacklash
    let code := code ++ [.loadImm rNewDir (.f64 (P.f64.neg (P.f64.lit 1 0)))]
    let afterNeg := code.length
    let code := patchJump code notNeg afterNeg
    let code := patchJump code doneSign afterNeg
    -- a reversal
    let code := code ++ [.loadImm rBacklash zeroImm]
    let code := code ++ cmpReg .neq rNewDir rBacklash rScratch rZero
    let (code, noReversal) := emitJumpIfNot code rScratch rBacklash
    let code := code ++ cmpReg .neq rNewDir rLastDir rScratch rZero
    let (code, noReversal2) := emitJumpIfNot code rScratch rBacklash
    -- the compensation
    let code := code ++ [.loadImm rBacklash (.f64 axis.backlashDistance)]
    let code := code ++ [.arith .mul rBacklash rNewDir rComp]
    let code := code ++ [.arith .add rPos rComp rPos]
    let afterComp := code.length
    let code := patchJump code noReversal2 afterComp
    let code := patchJump code noReversal afterComp
    let code := code ++ [.storeSignal (sig "last_dir") rNewDir]
    code ++ [.storeSignal (sig "pos_cmd") rPos]

/-- The bindings of the signals of an axis. -/
def signalBindings (cfg : AxisGroupConfig P) (axis : AxisConfig P) : List SignalBinding :=
  if !isActive axis then []
  else
    let pfx := cfg.signalPrefix axis.index
    [binding pfx "pos_cmd" .readWrite .f64, binding pfx "vel_cmd" .read .f64,
      binding pfx "last_dir" .readWrite .f64]

/-- `generate_backlash_program`. -/
def program (cfg : AxisGroupConfig P) : HalProgram P where
  name := "backlash_" ++ cfg.name
  signals := cfg.axes.flatMap (signalBindings cfg)
  instructions := cfg.axes.foldl (emitAxis cfg) (loadConstants rZero rOne) ++ [.halt]
  functionTable := []

/-! ### The program as the machine reads it -/

/-- A skip, as the machine reads it. -/
def bareSkip (condReg temp : ℕ) : List (Instruction P) :=
  cmpImm .eq condReg P.f64.zero temp ++ [⟨.jumpIf, [.register condReg]⟩]

/-- The code of an axis before its jump. -/
def beforeJump (cfg : AxisGroupConfig P) (axis : AxisConfig P) : List (Instruction P) :=
  let sig := cfg.signal axis.index
  [.loadSignal rPos (sig "pos_cmd"), .loadSignal rVel (sig "vel_cmd"),
    .loadSignal rLastDir (sig "last_dir"), .loadImm rNewDir zeroImm] ++
  cmpReg .gt rVel rZero rScratch rZero ++ bareSkip rScratch rBacklash ++
  [.loadImm rNewDir oneImm]

/-- The code that the jump passes over. -/
def passedOver : List (Instruction P) :=
  cmpReg .lt rVel rZero rScratch rZero ++ bareSkip rScratch rBacklash ++
  [.loadImm rNewDir (.f64 (P.f64.neg (P.f64.lit 1 0)))]

/-- The code from the target of the jump on. -/
def afterJump (cfg : AxisGroupConfig P) (axis : AxisConfig P) : List (Instruction P) :=
  let sig := cfg.signal axis.index
  [.loadImm rBacklash zeroImm] ++ cmpReg .neq rNewDir rBacklash rScratch rZero ++
  bareSkip rScratch rBacklash ++ cmpReg .neq rNewDir rLastDir rScratch rZero ++
  bareSkip rScratch rBacklash ++
  [.loadImm rBacklash (.f64 axis.backlashDistance), .arith .mul rBacklash rNewDir rComp,
    .arith .add rPos rComp rPos, .storeSignal (sig "last_dir") rNewDir,
    .storeSignal (sig "pos_cmd") rPos]

/-- The code of an axis at an index. -/
def axisCode (cfg : AxisGroupConfig P) (pc : ℕ) (axis : AxisConfig P) :
    List (Instruction P) :=
  beforeJump cfg axis ++
    (.jump (UInt32.ofNat (pc + 17)) :: passedOver ++ afterJump cfg axis)

/-- Patching an instruction of the code that has been emitted last. -/
theorem patchJump_append (code insts : List (Instruction P)) (i target : ℕ) :
    patchJump (code ++ insts) (code.length + i) target = code ++ patchJump insts i target :=
  modify_append_right code insts i _

theorem map_bare_emitAxis (cfg : AxisGroupConfig P) (code : List (Instruction P))
    {axis : AxisConfig P} (hactive : isActive axis = true) :
    (emitAxis cfg code axis).map Instruction.bare =
      code.map Instruction.bare ++ axisCode cfg code.length axis := by
  simp only [emitAxis, hactive, Bool.not_true, Bool.false_eq_true, if_false, emitJumpIfNot,
    emitJump, cmpImm, cmpReg, copyReg, List.append_assoc, List.length_append, List.length_cons,
    List.length_nil, Nat.zero_add, Nat.reduceAdd, List.cons_append, List.nil_append,
    patchJump_append, List.map_append]
  rfl

/-- The code of some axes from an index on. -/
def axesCode (cfg : AxisGroupConfig P) : ℕ → List (AxisConfig P) → List (Instruction P)
  | _, [] => []
  | pc, axis :: axes =>
      if isActive axis then axisCode cfg pc axis ++ axesCode cfg (pc + 33) axes
      else axesCode cfg pc axes

theorem map_bare_foldl (cfg : AxisGroupConfig P) (axes : List (AxisConfig P))
    (code : List (Instruction P)) :
    (axes.foldl (emitAxis cfg) code).map Instruction.bare =
      code.map Instruction.bare ++ axesCode cfg code.length axes := by
  induction axes generalizing code with
  | nil => exact (List.append_nil _).symm
  | cons axis axes ih =>
      rw [List.foldl_cons, ih, axesCode]
      cases hactive : isActive axis with
      | false =>
          have hemit : emitAxis cfg code axis = code := by
            simp only [emitAxis, hactive, Bool.not_false, if_true]
          rw [hemit, if_neg Bool.false_ne_true]
      | true =>
          have hbare := map_bare_emitAxis cfg code hactive
          have hlength : (emitAxis cfg code axis).length = code.length + 33 := by
            have h := congrArg List.length hbare
            rw [List.length_map, List.length_append, List.length_map] at h
            exact h
          rw [hbare, hlength, if_pos rfl, List.append_assoc]

/-- The program without its `Halt`, as the machine reads it. -/
def body (cfg : AxisGroupConfig P) : List (Instruction P) :=
  loadConstants rZero rOne ++ axesCode cfg 2 cfg.axes

theorem map_bare_program (cfg : AxisGroupConfig P) :
    (program cfg).instructions.map Instruction.bare = body cfg ++ [.halt] := by
  rw [program, List.map_append, map_bare_foldl]
  rfl

/-! ### The jumps reach their targets -/

/-- The effect of the code of an axis: the new direction is always positive, and the
position is always compensated. -/
def axisEffect (cfg : AxisGroupConfig P) (axis : AxisConfig P) (t : SignalTable P) :
    SignalTable P :=
  let pos := (t (cfg.signal axis.index "pos_cmd")).getD (.bool false)
  writes t [(cfg.signal axis.index "last_dir", oneImm),
    (cfg.signal axis.index "pos_cmd",
      pos.floatOp .add (P.f64.arith .mul axis.backlashDistance (P.f64.lit 1 0)))]

/-- The effect of a scan. -/
def scanEffect (cfg : AxisGroupConfig P) (t : SignalTable P) : SignalTable P :=
  (cfg.axes.filter isActive).foldl (fun t axis => axisEffect cfg axis t) t

/-- The code of an axis, at an index where the target of its jump is no more than 32 bits
long. -/
theorem axisCode_takes (cfg : AxisGroupConfig P) (axis : AxisConfig P) {pc : ℕ}
    (hpc : pc + 17 < 2 ^ 32) (t : SignalTable P) :
    Takes pc (axisCode cfg pc axis) (constants rZero rOne t)
      (constants rZero rOne (axisEffect cfg axis t)) := by
  have htarget : (UInt32.ofNat (pc + 17)).toNat =
      pc + (beforeJump cfg axis).length + 1 + (passedOver (P := P)).length :=
    Nat.mod_eq_of_lt hpc
  rw [axisCode]
  refine Takes.append (takes_of_run rfl (.refl _)) (Takes.append (takes_jump _ htarget) ?_)
  exact takes_of_constants ⟨_, rfl, rfl, rfl, rfl⟩

theorem axesCode_takes (cfg : AxisGroupConfig P) (axes : List (AxisConfig P)) {pc : ℕ}
    (hpc : pc + 33 * axes.countP isActive < 2 ^ 32 + 16) (t : SignalTable P) :
    Takes pc (axesCode cfg pc axes) (constants rZero rOne t)
      (constants rZero rOne
        ((axes.filter isActive).foldl (fun t axis => axisEffect cfg axis t) t)) := by
  induction axes generalizing pc t with
  | nil => exact .nil (.refl _)
  | cons axis axes ih =>
      rw [axesCode]
      cases hactive : isActive axis with
      | false =>
          rw [List.countP_cons_of_neg (by simp [hactive])] at hpc
          rw [if_neg Bool.false_ne_true, List.filter_cons_of_neg (by simp [hactive])]
          exact ih hpc t
      | true =>
          rw [List.countP_cons_of_pos hactive] at hpc
          rw [if_pos rfl, List.filter_cons_of_pos hactive]
          have hrest : Takes (pc + 33) (axesCode cfg (pc + 33) axes)
              (constants rZero rOne (axisEffect cfg axis t)) _ := ih (by omega) _
          exact (axisCode_takes cfg axis (by omega) t).append hrest

/-- The targets of the jumps are no more than 32 bits long: the last axis with code stands at
index `33 * (n - 1) + 2`, and its jump goes 17 further. -/
def JumpsFit (cfg : AxisGroupConfig P) : Prop :=
  33 * cfg.axes.countP isActive < 2 ^ 32 + 14

/-- The whole program, when the targets of its jumps fit. -/
theorem body_takes (cfg : AxisGroupConfig P) (hfits : JumpsFit cfg) (t : SignalTable P) :
    Takes 0 (body cfg) (onlyTable t) (constants rZero rOne (scanEffect cfg t)) := by
  have hload : Takes 0 (loadConstants rZero rOne) (onlyTable t)
      (constants rZero rOne t) :=
    takes_of_constants ⟨_, rfl, rfl, rfl, rfl⟩
  rw [JumpsFit] at hfits
  have haxes : Takes 2 (axesCode cfg 2 cfg.axes) (constants rZero rOne t) _ :=
    axesCode_takes cfg cfg.axes (by omega) t
  exact hload.append haxes

/-- A scan of the backlash program. -/
theorem scans_program (cfg : AxisGroupConfig P) (hfits : JumpsFit cfg)
    (t t' : SignalTable P) :
    Scans (program cfg).instructions t t' ↔ t' = scanEffect cfg t := by
  rw [← scans_map_bare, map_bare_program]
  exact (body_takes cfg hfits t).scans t'

/-! ### The jumps and what stands before them -/

/-- The element of a list at which a count is reached. -/
theorem exists_append_of_lt_countP {α : Type} {p : α → Bool} {as : List α} {k : ℕ}
    (h : k < as.countP p) :
    ∃ before a after, as = before ++ a :: after ∧ p a = true ∧ before.countP p = k := by
  induction as generalizing k with
  | nil => cases h
  | cons a as ih =>
      cases hp : p a with
      | false =>
          rw [List.countP_cons_of_neg (by simp [hp])] at h
          obtain ⟨before, b, after, rfl, hb, hcount⟩ := ih h
          refine ⟨a :: before, b, after, rfl, hb, ?_⟩
          rwa [List.countP_cons_of_neg (by simp [hp])]
      | true =>
          cases k with
          | zero => exact ⟨[], a, as, rfl, hp, rfl⟩
          | succ k =>
              rw [List.countP_cons_of_pos hp] at h
              obtain ⟨before, b, after, rfl, hb, hcount⟩ := ih (Nat.lt_of_succ_lt_succ h)
              refine ⟨a :: before, b, after, rfl, hb, ?_⟩
              rw [List.countP_cons_of_pos hp, hcount]

theorem axesCode_append (cfg : AxisGroupConfig P) (pc : ℕ) (as bs : List (AxisConfig P)) :
    axesCode cfg pc (as ++ bs) =
      axesCode cfg pc as ++ axesCode cfg (pc + 33 * as.countP isActive) bs := by
  induction as generalizing pc with
  | nil => rfl
  | cons axis as ih =>
      rw [List.cons_append, axesCode, axesCode]
      cases hactive : isActive axis with
      | false =>
          rw [List.countP_cons_of_neg (by simp [hactive])]
          exact ih pc
      | true =>
          rw [List.countP_cons_of_pos hactive, if_pos rfl, if_pos rfl, ih, List.append_assoc,
            Nat.mul_succ, Nat.add_right_comm, Nat.add_assoc]

theorem length_axesCode (cfg : AxisGroupConfig P) (pc : ℕ) (axes : List (AxisConfig P)) :
    (axesCode cfg pc axes).length = 33 * axes.countP isActive := by
  induction axes generalizing pc with
  | nil => rfl
  | cons axis axes ih =>
      rw [axesCode]
      cases hactive : isActive axis with
      | false =>
          rw [List.countP_cons_of_neg (by simp [hactive])]
          exact ih pc
      | true =>
          rw [List.countP_cons_of_pos hactive, if_pos rfl, List.length_append, ih]
          change 33 + _ = _
          omega

/-- The jumps of some axes go no further than the code of the axes. -/
theorem axesCode_staysWithin (cfg : AxisGroupConfig P) (axes : List (AxisConfig P)) {pc n : ℕ}
    (hn : pc + 33 * axes.countP isActive ≤ n) :
    ∀ inst ∈ axesCode cfg pc axes, inst.staysWithin n = true := by
  induction axes generalizing pc with
  | nil => exact List.forall_mem_nil _
  | cons axis axes ih =>
      rw [axesCode]
      cases hactive : isActive axis with
      | false =>
          rw [List.countP_cons_of_neg (by simp [hactive])] at hn
          exact ih hn
      | true =>
          rw [List.countP_cons_of_pos hactive] at hn
          rw [if_pos rfl]
          have htarget : (UInt32.ofNat (pc + 17)).toNat ≤ n := by
            refine (Nat.mod_le _ _).trans ?_
            omega
          have haxis : ∀ inst ∈ axisCode cfg pc axis, inst.staysWithin n = true := by
            have hbefore : (beforeJump cfg axis).all (·.staysWithin n) = true := rfl
            have hafter : (passedOver ++ afterJump cfg axis).all (·.staysWithin n) = true := rfl
            refine List.forall_mem_append.mpr ⟨List.all_eq_true.mp hbefore, ?_⟩
            exact List.forall_mem_cons.mpr ⟨decide_eq_true htarget, List.all_eq_true.mp hafter⟩
          exact List.forall_mem_append.mpr ⟨haxis, ih (by omega)⟩

/-- The jump of an axis that has code, and the code before it. -/
theorem exists_jump (cfg : AxisGroupConfig P) {k : ℕ} (hk : k < cfg.axes.countP isActive) :
    ∃ before rest,
      axesCode cfg 2 cfg.axes = before ++ .jump (UInt32.ofNat (33 * k + 19)) :: rest ∧
        before.length = 33 * k + 10 ∧
        ∀ n, 33 * k + 2 ≤ n → ∀ inst ∈ before, inst.staysWithin n = true := by
  obtain ⟨as, axis, bs, haxes, hactive, hcount⟩ := exists_append_of_lt_countP hk
  refine ⟨axesCode cfg 2 as ++ beforeJump cfg axis,
    passedOver ++ afterJump cfg axis ++ axesCode cfg (33 * k + 35) bs, ?_, ?_, ?_⟩
  · have hpc : 2 + 33 * k = 33 * k + 2 := Nat.add_comm _ _
    rw [haxes, axesCode_append, hcount, axesCode, if_pos hactive, hpc, axisCode]
    simp only [List.append_assoc, List.cons_append]
  · rw [List.length_append, length_axesCode, hcount]
    rfl
  · intro n hn
    have hbefore : (beforeJump cfg axis).all (·.staysWithin n) = true := rfl
    refine List.forall_mem_append.mpr ⟨?_, List.all_eq_true.mp hbefore⟩
    exact axesCode_staysWithin cfg as (by omega)

/-- When the target of a jump is longer than 32 bits, the last jump goes back, and a scan
does not end. -/
theorem not_scans_of_wraps (cfg : AxisGroupConfig P) (hwraps : ¬JumpsFit cfg)
    (t t' : SignalTable P) : ¬Scans (program cfg).instructions t t' := by
  rw [JumpsFit, Nat.not_lt] at hwraps
  obtain ⟨k, hk⟩ : ∃ k, cfg.axes.countP isActive = k + 1 :=
    ⟨cfg.axes.countP isActive - 1, by omega⟩
  obtain ⟨before, rest, hcode, hlength, hstays⟩ := exists_jump cfg (k := k) (by omega)
  rw [← scans_map_bare, map_bare_program, body, hcode]
  rintro ⟨vm, hexec, -⟩
  have hload : (loadConstants (P := P) rZero rOne).length = 2 := rfl
  have hassoc : loadConstants rZero rOne ++ (before ++ .jump (UInt32.ofNat (33 * k + 19)) ::
      rest) ++ [.halt] = (loadConstants (P := P) rZero rOne ++ before) ++
        .jump (UInt32.ofNat (33 * k + 19)) :: (rest ++ [.halt]) := by
    simp only [List.append_assoc, List.cons_append]
  rw [hassoc] at hexec
  refine Vm.not_exec_ok_of_jump_back (List.forall_mem_append.mpr ⟨?_, ?_⟩) ?_ ?_ hexec
  · exact List.all_eq_true.mp rfl
  · refine hstays _ ?_
    rw [List.length_append, hload, hlength]
    omega
  · have hmod : (UInt32.ofNat (33 * k + 19)).toNat = (33 * k + 19) % 2 ^ 32 := rfl
    rw [List.length_append, hload, hlength, hmod]
    omega
  · exact Nat.zero_le _

end Backlash

end Weftik.AxisGroup
