import Weftik.Motion.Layout
import Weftik.Symbolic

/-!
# The Loops of a Motion Profile

What the code of a motion profile does to the registers and to the signals, over any
floating-point arithmetic: one cycle moves the axes by the velocity, and then changes the
velocity and counts. A phase is a number of such cycles.

## Main definitions

* `LoopState`: the registers and the signals between two cycles.
* `LoopState.move`, `LoopState.tick`, `LoopState.cycle`: a cycle.
* `phaseCode`: the code of a phase.

## Main results

* `takes_phase`: the code of a phase, where its jump goes to the beginning of its loop.
* `takes_phase_once`: the code of a phase that is run once, wherever its jump goes.
-/

namespace Weftik.Motion

open Symbolic

variable {P : Platform} (M : FloatMath P) (p : TrapezoidalProfile P)

/-- The ratio that the last of the moving axes leaves in its register. -/
def lastRatio : P.F64 :=
  P.f64.div (if moves M p.dz then p.dz else if moves M p.dy then p.dy else p.dx) (p.distance M)

/-- What a loop keeps. The position of an axis that does not move is any value. -/
structure LoopState (P : Platform) where
  table : SignalTable P
  counter : P.F64
  vel : P.F64
  vstep : P.F64
  posX : HalValue P
  posY : HalValue P
  posZ : HalValue P

namespace LoopState

/-- The registers outside of the loops: the constants and the positions. -/
def located (l : LoopState P) : Symbolic P :=
  ofList l.table [(regPosX, l.posX), (regPosY, l.posY), (regPosZ, l.posZ),
    (regZero, .f64 P.f64.zero), (regOne, .f64 (P.f64.lit 1 0)), (regDt, .f64 p.dt)]

/-- The registers between two cycles. -/
def known (l : LoopState P) : Symbolic P :=
  ofList l.table [(regPosX, l.posX), (regPosY, l.posY), (regPosZ, l.posZ),
    (regZero, .f64 P.f64.zero), (regOne, .f64 (P.f64.lit 1 0)), (regDt, .f64 p.dt),
    (regCounter, .f64 l.counter), (regVel, .f64 l.vel), (regVstep, .f64 l.vstep)]

/-- The registers after the axes have been moved: the last ratio is still there. -/
def moved (l : LoopState P) (ratio : P.F64) : Symbolic P :=
  ofList l.table [(regPosX, l.posX), (regPosY, l.posY), (regPosZ, l.posZ),
    (regZero, .f64 P.f64.zero), (regOne, .f64 (P.f64.lit 1 0)), (regDt, .f64 p.dt),
    (regCounter, .f64 l.counter), (regVel, .f64 l.vel), (regVstep, .f64 l.vstep),
    (regRatio, .f64 ratio)]

/-- The new position of an axis. -/
def advance (l : LoopState P) (d : P.F64) (pos : HalValue P) : HalValue P :=
  pos.floatOp .add (P.f64.mul (P.f64.mul l.vel p.dt) (P.f64.div d (p.distance M)))

/-- The axes are moved. -/
def move (l : LoopState P) : LoopState P :=
  let posX := l.advance M p p.dx l.posX
  let posY := if moves M p.dy then l.advance M p p.dy l.posY else l.posY
  let posZ := if moves M p.dz then l.advance M p p.dz l.posZ else l.posZ
  let table := Function.update l.table "axis.0.pos" (some posX)
  let table := if moves M p.dy then Function.update table "axis.1.pos" (some posY) else table
  let table := if moves M p.dz then Function.update table "axis.2.pos" (some posZ) else table
  { l with table := table, posX := posX, posY := posY, posZ := posZ }

/-- The velocity is changed. -/
def changeVel (phase : Phase) (l : LoopState P) : LoopState P :=
  match phase with
  | .accel => { l with vel := P.f64.add l.vel l.vstep }
  | .cruise => l
  | .decel => { l with vel := P.f64.sub l.vel l.vstep }

/-- The counter is decremented. -/
def count (l : LoopState P) : LoopState P :=
  { l with counter := P.f64.sub l.counter (P.f64.lit 1 0) }

/-- A cycle of a phase. -/
def cycle (phase : Phase) (l : LoopState P) : LoopState P :=
  ((l.move M p).changeVel phase).count

/-- The velocity is changed as the counter and a ratio say. -/
def switchVel (ratio : P.F64) (l : LoopState P) : LoopState P :=
  if P.f64.gt l.counter ratio then { l with vel := P.f64.sub l.vel l.vstep }
  else { l with vel := P.f64.add l.vel l.vstep }

/-- A cycle of a short move. -/
def shortCycle (l : LoopState P) : LoopState P :=
  ((l.move M p).switchVel (lastRatio M p)).count

/-- The state in front of the first phase. -/
def atStart (vm : Vm P) : LoopState P where
  table := vm.signals
  counter := P.f64.zero
  vel := P.f64.zero
  vstep := P.f64.zero
  posX := .f64 p.startX
  posY := if moves M p.dy then .f64 p.startY else vm.reg regPosY
  posZ := if moves M p.dz then .f64 p.startZ else vm.reg regPosZ

/-- The state in front of the loop of a short move. -/
def atShortStart (counter : P.F64) (vm : Vm P) : LoopState P :=
  { atStart M p vm with
    counter := counter
    vstep := P.f64.div (p.vPeak M) (M.ofU32 (p.cyclesHalf M)) }

/-- The beginning of a phase. -/
def start (phase : Phase) (phaseCycles : UInt32) (l : LoopState P) : LoopState P :=
  { l with
    counter := M.ofU32 phaseCycles
    vel := if phase = .accel then P.f64.zero else p.vTarget
    vstep := P.f64.mul p.acceleration p.dt }

end LoopState

/-! ### The positions of the axes -/

/-- A position of the three axes. -/
@[ext] structure Position (P : Platform) where
  x : P.F64
  y : P.F64
  z : P.F64

/-- The position at the beginning. -/
def TrapezoidalProfile.startPos : Position P := ⟨p.startX, p.startY, p.startZ⟩

/-- The position after one cycle at a velocity. -/
def stepped (vel : P.F64) (pos : Position P) : Position P :=
  let step := fun d => P.f64.mul (P.f64.mul vel p.dt) (P.f64.div d (p.distance M))
  ⟨P.f64.add pos.x (step p.dx), P.f64.add pos.y (step p.dy), P.f64.add pos.z (step p.dz)⟩

/-- The registers hold the position, as far as the axes move. -/
structure At (pos : Position P) (l : LoopState P) : Prop where
  x : l.posX = .f64 pos.x
  y : moves M p.dy = true → l.posY = .f64 pos.y
  z : moves M p.dz = true → l.posZ = .f64 pos.z

/-- The second table is the first one with the position stored, as far as the axes move. -/
structure Shows (pos : Position P) (t t' : SignalTable P) : Prop where
  x : t' "axis.0.pos" = some (.f64 pos.x)
  y : t' "axis.1.pos" = if moves M p.dy then some (.f64 pos.y) else t "axis.1.pos"
  z : t' "axis.2.pos" = if moves M p.dz then some (.f64 pos.z) else t "axis.2.pos"

section

variable {M p}

theorem Shows.trans {pos pos' : Position P} {t t' t'' : SignalTable P} (h : Shows M p pos t t')
    (h' : Shows M p pos' t' t'') : Shows M p pos' t t'' := by
  refine ⟨h'.x, ?_, ?_⟩
  · rw [h'.y, h.y]
    split <;> rfl
  · rw [h'.z, h.z]
    split <;> rfl

/-- A change of the velocity and of the counter does not move the axes. -/
theorem At.congr {l l' : LoopState P} {pos : Position P} (h : At M p pos l)
    (hx : l'.posX = l.posX) (hy : l'.posY = l.posY) (hz : l'.posZ = l.posZ) : At M p pos l' :=
  ⟨hx.trans h.x, fun hmoves => hy.trans (h.y hmoves), fun hmoves => hz.trans (h.z hmoves)⟩

/-- The axes are moved. -/
theorem At.move {l : LoopState P} {pos : Position P} (h : At M p pos l) :
    At M p (stepped M p l.vel pos) (l.move M p) ∧
      Shows M p (stepped M p l.vel pos) l.table (l.move M p).table := by
  have hadvance : ∀ {d x : P.F64} {v : HalValue P}, v = .f64 x → l.advance M p d v =
      .f64 (P.f64.add x (P.f64.mul (P.f64.mul l.vel p.dt) (P.f64.div d (p.distance M)))) := by
    rintro d x v rfl
    rfl
  have hx := hadvance (d := p.dx) h.x
  have hy := fun hmoves => hadvance (d := p.dy) (h.y hmoves)
  have hz := fun hmoves => hadvance (d := p.dz) (h.z hmoves)
  refine ⟨⟨hx, fun hmoves => ?_, fun hmoves => ?_⟩, ?_, ?_, ?_⟩
  · simp only [LoopState.move, hmoves, if_true]
    exact hy hmoves
  · simp only [LoopState.move, hmoves, if_true]
    exact hz hmoves
  · simp only [LoopState.move, hx]
    split <;> split <;> simp [Function.update, stepped]
  · simp only [LoopState.move]
    cases hmoves : moves M p.dy with
    | true =>
        simp only [if_true, hy hmoves]
        split <;> simp [Function.update, stepped]
    | false =>
        simp only [Bool.false_eq_true, if_false]
        split <;> simp [Function.update]
  · simp only [LoopState.move]
    cases hmoves : moves M p.dz with
    | true =>
        simp only [if_true, hz hmoves]
        simp [Function.update, stepped]
    | false =>
        simp only [Bool.false_eq_true, if_false]
        split <;> simp [Function.update]

end

/-! ### Fragments -/

variable {M p}

/-- The axes are moved. -/
theorem takes_move (pc : ℕ) (l : LoopState P) :
    Takes pc (.arith .mul regVel regDt regTstep :: axisSteps M p) (l.known p)
      ((l.move M p).moved p (lastRatio M p)) := by
  rw [axisSteps, LoopState.move, lastRatio]
  cases moves M p.dy <;> cases moves M p.dz <;>
    exact takes_of_run rfl
      (ofList_le rfl ⟨rfl, rfl, rfl, rfl, rfl, rfl, rfl, rfl, rfl, rfl⟩)

/-- The velocity is changed, and the flag tells whether there are cycles left. -/
theorem takes_tick (pc : ℕ) (phase : Phase) (l : LoopState P) (ratio : P.F64) :
    Takes pc (velocityUpdate phase ++
        [.arith .sub regCounter regOne regCounter, .cmp .gt regCounter regZero])
      (l.moved p ratio) ((((l.changeVel phase).count).known p).withFlag
        (P.f64.gt (P.f64.sub l.counter (P.f64.lit 1 0)) P.f64.zero)) := by
  cases phase with
  | accel | cruise | decel =>
      exact takes_of_run rfl
        (ofList_withFlag_le rfl ⟨rfl, rfl, rfl, rfl, rfl, rfl, rfl, rfl, rfl⟩ rfl)

variable (M p)

/-- The code of a cycle, the jump aside. -/
def cycleCode (phase : Phase) : List (Instruction P) :=
  .arith .mul regVel regDt regTstep :: axisSteps M p ++ (velocityUpdate phase ++
    [.arith .sub regCounter regOne regCounter, .cmp .gt regCounter regZero])

/-- The constants of a phase. -/
def phaseStart (phaseCycles : UInt32) (phase : Phase) : List (Instruction P) :=
  [.loadImm regVstep (.f64 (P.f64.mul p.acceleration p.dt)),
    .loadImm regVel (.f64 (if phase = .accel then P.f64.zero else p.vTarget)),
    .loadImm regCounter (.f64 (M.ofU32 phaseCycles))]

/-- The code of a phase that is generated at an index. -/
def phaseCode (start : ℕ) (phaseCycles : UInt32) (phase : Phase) : List (Instruction P) :=
  phaseStart M p phaseCycles phase ++
    (cycleCode M p phase ++ [.jumpIf (UInt32.ofNat (start + 3))])

variable {M p} {phaseCycles : UInt32}

theorem emitProfilePhase_eq (insts : List (Instruction P)) (h : phaseCycles ≠ 0) (phase : Phase) :
    emitProfilePhase M p insts phaseCycles phase =
      insts ++ phaseCode M p insts.length phaseCycles phase := by
  rw [emitProfilePhase, if_neg h]
  simp only [phaseCode, phaseStart, cycleCode, loopControl, List.append_assoc, List.cons_append,
    List.nil_append, List.length_append, List.length_cons, List.length_nil]

theorem takes_cycle (pc : ℕ) (phase : Phase) (l : LoopState P) :
    Takes pc (cycleCode M p phase) (l.known p) (((l.cycle M p phase).known p).withFlag
      (P.f64.gt (l.cycle M p phase).counter P.f64.zero)) := by
  have hcounter : (l.cycle M p phase).counter = P.f64.sub l.counter (P.f64.lit 1 0) := by
    cases phase <;> rfl
  rw [hcounter]
  exact (takes_move pc l).append (takes_tick _ phase (l.move M p) (lastRatio M p))

theorem takes_phaseStart (pc : ℕ) (phaseCycles : UInt32) (phase : Phase) (l : LoopState P) :
    Takes pc (phaseStart M p phaseCycles phase) (l.located p)
      ((l.start M p phase phaseCycles).known p) :=
  takes_of_run rfl (ofList_le rfl ⟨rfl, rfl, rfl, rfl, rfl, rfl, rfl, rfl, rfl⟩)

theorem located_le_known (l : LoopState P) : (l.located p).Le (l.known p) :=
  ofList_le rfl ⟨rfl, rfl, rfl, rfl, rfl, rfl⟩

/-- A phase whose jump goes to the beginning of its loop runs as many cycles as the counter
lasts. -/
theorem takes_phase {pc : ℕ} {phase : Phase} {l : LoopState P} {n : ℕ} (hpc : pc + 3 < 2 ^ 32)
    (hn : 0 < n)
    (hcounter : ∀ i < n, P.f64.gt
        (((LoopState.cycle M p phase)^[i + 1] (l.start M p phase phaseCycles)).counter) P.f64.zero =
        decide (i + 1 < n)) :
    Takes pc (phaseCode M p pc phaseCycles phase) (l.located p)
      (((LoopState.cycle M p phase)^[n] (l.start M p phase phaseCycles)).located p) := by
  refine ((takes_phaseStart pc phaseCycles phase l).append (takes_loop (K := fun i =>
    ((LoopState.cycle M p phase)^[i] (l.start M p phase phaseCycles)).known p)
    (UInt32.toNat_ofNat_of_lt' hpc) hn (fun _ => rfl) fun i hi => ?_)).mono (Le.refl _)
    (located_le_known _)
  rw [← hcounter i hi, Function.iterate_succ_apply']
  exact takes_cycle _ phase _

/-- A phase of one cycle does not jump. -/
theorem takes_phase_once {pc start : ℕ} {phase : Phase} {l : LoopState P}
    (hcounter : P.f64.gt (((l.start M p phase phaseCycles).cycle M p phase).counter)
        P.f64.zero = false) :
    Takes pc (phaseCode M p start phaseCycles phase) (l.located p)
      (((l.start M p phase phaseCycles).cycle M p phase).located p) := by
  have hcycle := takes_cycle (M := M) (p := p) (pc + 3) phase (l.start M p phase phaseCycles)
  rw [hcounter] at hcycle
  refine Takes.mono ?_ (Le.refl _) ((located_le_known _).trans (le_withFlag rfl false))
  exact (takes_phaseStart pc phaseCycles phase l).append (hcycle.append (takes_jumpIf_false rfl))

/-! ### Long moves -/

variable (M p)

/-- The constants and the start positions. -/
def longStart : List (Instruction P) :=
  [.loadImm regDt (.f64 p.dt), .loadImm regZero (.f64 P.f64.zero),
    .loadImm regOne (.f64 (P.f64.lit 1 0)), .loadImm regPosX (.f64 p.startX)] ++ loadStartYZ M p

/-- The code of a long move all of whose phases have cycles. -/
def longCode : List (Instruction P) :=
  let code := longStart M p
  let code := code ++ phaseCode M p code.length (p.cyclesAccel M) .accel
  let code := code ++ phaseCode M p code.length (p.cyclesCruise M) .cruise
  code ++ phaseCode M p code.length (p.cyclesAccel M) .decel

variable {M p}

theorem length_longStart : (longStart M p).length = 4 + p.movedAxes M := by
  rw [longStart, List.length_append, length_loadStartYZ]
  rfl

theorem length_phaseCode_le (start : ℕ) (phaseCycles : UInt32) (phase : Phase) :
    (phaseCode M p start phaseCycles phase).length ≤ 20 := by
  have hmoved := p.movedAxes_le M
  simp only [phaseCode, phaseStart, cycleCode, List.length_append, List.length_cons,
    List.length_nil, length_axisSteps, length_velocityUpdate]
  split <;> omega

theorem generateTrapezoidalProgram_long {program : HalProgram P}
    (hlength : P.f64.lt (p.distance M) (P.f64.lit 1 9) = false)
    (hlong : P.f64.gt (p.distCruise M) P.f64.zero = true) (haccel : p.cyclesAccel M ≠ 0)
    (hcruise : p.cyclesCruise M ≠ 0) (h : generateTrapezoidalProgram M p = .ok program) :
    program.instructions = longCode M p := by
  rw [generateTrapezoidalProgram, emitG1, hlength, if_neg Bool.false_ne_true, if_pos hlong] at h
  obtain rfl := Except.ok.inj h
  simp only [emitProfilePhase_eq _ haccel, emitProfilePhase_eq _ hcruise]
  rfl

theorem takes_longStart (pc : ℕ) (vm : Vm P) :
    Takes pc (longStart M p) (ofVm vm) ((LoopState.atStart M p vm).located p) := by
  rw [longStart, loadStartYZ, LoopState.atStart]
  cases moves M p.dy <;> cases moves M p.dz <;>
    exact takes_of_run rfl (ofList_le rfl ⟨rfl, rfl, rfl, rfl, rfl, rfl⟩)

theorem at_atStart (vm : Vm P) : At M p p.startPos (.atStart M p vm) :=
  ⟨rfl, fun hmoves => if_pos hmoves, fun hmoves => if_pos hmoves⟩

/-- The code, at an index of the program, takes the machine to a state where the registers
hold the position. What is stored next is all that differs among the signals. -/
structure Reaches (M : FloatMath P) (p : TrapezoidalProfile P) (vm : Vm P) (pc : ℕ)
    (code : List (Instruction P)) (pos : Position P) (l : LoopState P) : Prop where
  takes : Takes pc code (ofVm vm) (l.located p)
  position : At M p pos l
  shows : ∀ pos' t', Shows M p pos' l.table t' → Shows M p pos' vm.signals t'

theorem Reaches.longStart (pc : ℕ) (vm : Vm P) :
    Reaches M p vm pc (longStart M p) p.startPos (.atStart M p vm) :=
  ⟨takes_longStart pc vm, at_atStart vm, fun _ _ hshows => hshows⟩

/-! ### Short moves -/

variable (M p)

/-- The registers before the loop. -/
def shortStart (total : UInt32) : List (Instruction P) :=
  [.loadImm regDt (.f64 p.dt), .loadImm regZero (.f64 P.f64.zero),
    .loadImm regOne (.f64 (P.f64.lit 1 0)), .loadImm regVel (.f64 P.f64.zero),
    .loadImm regVstep (.f64 (P.f64.div (p.vPeak M) (M.ofU32 (p.cyclesHalf M)))),
    .loadImm regPosX (.f64 p.startX)] ++ loadStartYZ M p ++
    [.loadImm regCounter (.f64 (M.ofU32 total)),
      .loadImm regRatio (.f64 (M.ofU32 (p.cyclesHalf M)))]

/-- The choice between the acceleration and the deceleration. -/
def switchCode (decelStart : ℕ) : List (Instruction P) :=
  [.jumpIf (UInt32.ofNat decelStart), .arith .add regVel regVstep regVel,
    .jump (UInt32.ofNat decelStart + 1), .arith .sub regVel regVstep regVel]

/-- The code of a cycle that is generated at an index, the jump aside. -/
def shortCycleCode (start : ℕ) : List (Instruction P) :=
  .arith .mul regVel regDt regTstep :: axisSteps M p ++ ([.cmp .gt regCounter regRatio] ++
    (switchCode (start + (axisSteps M p).length + 5) ++
      [.arith .sub regCounter regOne regCounter, .cmp .gt regCounter regZero]))

/-- The code of a short move. -/
def shortCode (total : UInt32) : List (Instruction P) :=
  let code := shortStart M p total
  code ++ (shortCycleCode M p code.length ++ [.jumpIf (UInt32.ofNat code.length)])

variable {M p}

/-- A short move is compiled unless its number of cycles panics. -/
theorem generateTrapezoidalProgram_short_eq
    (hlength : P.f64.lt (p.distance M) (P.f64.lit 1 9) = false)
    (hshort : P.f64.gt (p.distCruise M) P.f64.zero = false) :
    generateTrapezoidalProgram M p =
      (unsigned P 32 ((p.cyclesHalf M).toNat * 2)).map fun total =>
        { name := "trapezoidal_motion"
          signals := [signalBinding "axis.0.pos", signalBinding "axis.1.pos",
            signalBinding "axis.2.pos"]
          instructions := shortCode M p (UInt32.ofNat total)
          functionTable := [] } := by
  rw [generateTrapezoidalProgram, emitG1, hlength, hshort, if_neg Bool.false_ne_true,
    if_neg Bool.false_ne_true, emitTriangularMotion]
  cases unsigned P 32 ((p.cyclesHalf M).toNat * 2) with
  | error e => rfl
  | ok total =>
      have hdecel : ∀ a b : ℕ, a + (b + (0 + 1) + 1 + 1 + 1) + 1 + 1 + 1 + 1 + 1 + 1 + 3 =
          a + (0 + 1 + 1) + 1 + 1 + 1 + 1 + 1 + 1 + b + 5 := fun a b => by omega
      simp only [shortCode, shortStart, shortCycleCode, switchCode, loopControl, Except.map,
        Bind.bind, Except.bind, Pure.pure, Except.pure, List.append_assoc, List.cons_append,
        List.nil_append, List.length_append, List.length_cons, List.length_nil]
      rw [hdecel]

theorem generateTrapezoidalProgram_short {program : HalProgram P}
    (hlength : P.f64.lt (p.distance M) (P.f64.lit 1 9) = false)
    (hshort : P.f64.gt (p.distCruise M) P.f64.zero = false)
    (h : generateTrapezoidalProgram M p = .ok program) :
    ∃ total, program.instructions = shortCode M p total := by
  rw [generateTrapezoidalProgram_short_eq hlength hshort] at h
  cases htotal : unsigned P 32 ((p.cyclesHalf M).toNat * 2) with
  | error e =>
      rw [htotal] at h
      cases h
  | ok total =>
      rw [htotal] at h
      obtain rfl := Except.ok.inj h
      exact ⟨_, rfl⟩

theorem takes_shortStart (pc : ℕ) (total : UInt32) (vm : Vm P) :
    Takes pc (shortStart M p total) (ofVm vm)
      ((LoopState.atShortStart M p (M.ofU32 total) vm).known p) := by
  rw [shortStart, loadStartYZ, LoopState.atShortStart, LoopState.atStart]
  cases moves M p.dy <;> cases moves M p.dz <;>
    exact takes_of_run rfl (ofList_le rfl ⟨rfl, rfl, rfl, rfl, rfl, rfl, rfl, rfl, rfl⟩)

/-- The choice, with the flag set: the velocity is decreased. -/
theorem takes_switch_true {pc : ℕ} (hpc : pc + 3 < 2 ^ 32) (l : LoopState P) (ratio : P.F64) :
    Takes pc (switchCode (pc + 3)) ((l.moved p ratio).withFlag true)
      ({ l with vel := P.f64.sub l.vel l.vstep }.moved p ratio) := by
  have htarget : (UInt32.ofNat (pc + 3)).toNat = pc + 1 + 2 := UInt32.toNat_ofNat_of_lt' hpc
  have hsub : Takes (pc + 3) [.arith .sub regVel regVstep regVel]
      ((l.moved p ratio).withFlag true)
      ({ l with vel := P.f64.sub l.vel l.vstep }.moved p ratio) :=
    takes_of_run rfl (ofList_le rfl ⟨rfl, rfl, rfl, rfl, rfl, rfl, rfl, rfl, rfl, rfl⟩)
  have hskip : Takes pc [.jumpIf (UInt32.ofNat (pc + 3)), .arith .add regVel regVstep regVel,
      .jump (UInt32.ofNat (pc + 3) + 1)] ((l.moved p ratio).withFlag true)
      ((l.moved p ratio).withFlag true) :=
    takes_jumpIf_true rfl htarget
  exact hskip.append hsub

/-- The choice, with the flag cleared: the velocity is increased. -/
theorem takes_switch_false {pc : ℕ} (hpc : pc + 4 < 2 ^ 32) (l : LoopState P) (ratio : P.F64) :
    Takes pc (switchCode (pc + 3)) ((l.moved p ratio).withFlag false)
      ({ l with vel := P.f64.add l.vel l.vstep }.moved p ratio) := by
  have htarget : (UInt32.ofNat (pc + 3) + 1).toNat = pc + 1 + 1 + 1 + 1 := by
    rw [show UInt32.ofNat (pc + 3) + 1 = UInt32.ofNat (pc + 4) from (UInt32.ofNat_add _ 1).symm]
    exact UInt32.toNat_ofNat_of_lt' hpc
  have hadd : Takes (pc + 1) [.arith .add regVel regVstep regVel]
      ((l.moved p ratio).withFlag false)
      ({ l with vel := P.f64.add l.vel l.vstep }.moved p ratio) :=
    takes_of_run rfl (ofList_le rfl ⟨rfl, rfl, rfl, rfl, rfl, rfl, rfl, rfl, rfl, rfl⟩)
  have hskip : Takes (pc + 1 + 1)
      [.jump (UInt32.ofNat (pc + 3) + 1), .arith .sub regVel regVstep regVel]
      ({ l with vel := P.f64.add l.vel l.vstep }.moved p ratio)
      ({ l with vel := P.f64.add l.vel l.vstep }.moved p ratio) :=
    takes_jump _ htarget
  exact (takes_jumpIf_false rfl).append (hadd.append hskip)

theorem takes_shortCycle {pc : ℕ} (hpc : pc + (axisSteps M p).length + 6 < 2 ^ 32)
    (l : LoopState P) :
    Takes pc (shortCycleCode M p pc) (l.known p) (((l.shortCycle M p).known p).withFlag
      (P.f64.gt (l.shortCycle M p).counter P.f64.zero)) := by
  have hcompare : Takes (pc + ((axisSteps M p).length + 1)) [.cmp .gt regCounter regRatio]
      ((l.move M p).moved p (lastRatio M p)) (((l.move M p).moved p (lastRatio M p)).withFlag
        (P.f64.gt l.counter (lastRatio M p))) :=
    takes_of_run rfl
      (ofList_withFlag_le rfl ⟨rfl, rfl, rfl, rfl, rfl, rfl, rfl, rfl, rfl, rfl⟩ rfl)
  have hswitch : Takes (pc + ((axisSteps M p).length + 1) + 1)
      (switchCode (pc + (axisSteps M p).length + 5))
      (((l.move M p).moved p (lastRatio M p)).withFlag (P.f64.gt l.counter (lastRatio M p)))
      (((l.move M p).switchVel (lastRatio M p)).moved p (lastRatio M p)) := by
    have hcounter : (l.move M p).counter = l.counter := rfl
    rw [show pc + (axisSteps M p).length + 5 = pc + ((axisSteps M p).length + 1) + 1 + 3 by omega,
      LoopState.switchVel, hcounter]
    cases P.f64.gt l.counter (lastRatio M p) with
    | true => exact takes_switch_true (by omega) _ _
    | false => exact takes_switch_false (by omega) _ _
  have hcounter : (l.shortCycle M p).counter = P.f64.sub l.counter (P.f64.lit 1 0) := by
    rw [LoopState.shortCycle, LoopState.count, LoopState.switchVel]
    split <;> rfl
  have hswitched : ((l.move M p).switchVel (lastRatio M p)).counter = l.counter := by
    rw [LoopState.switchVel]
    split <;> rfl
  have htick := takes_tick (pc + ((axisSteps M p).length + 1) + 1 + 4) .cruise
    ((l.move M p).switchVel (lastRatio M p)) (lastRatio M p) (p := p)
  rw [hswitched, ← hcounter] at htick
  exact (takes_move pc l).append (hcompare.append (hswitch.append htick))

theorem length_shortStart (total : UInt32) :
    (shortStart M p total).length = 8 + p.movedAxes M := by
  simp only [shortStart, List.length_append, length_loadStartYZ, List.length_cons,
    List.length_nil]
  omega

/-- The loop of a short move runs as many cycles as the counter lasts. -/
theorem takes_shortCode {total : UInt32} {vm : Vm P} {n : ℕ} (hn : 0 < n)
    (hcounter : ∀ i < n, P.f64.gt
      (((LoopState.shortCycle M p)^[i + 1] (.atShortStart M p (M.ofU32 total) vm)).counter)
        P.f64.zero = decide (i + 1 < n)) :
    Takes 0 (shortCode M p total) (ofVm vm)
      (((LoopState.shortCycle M p)^[n] (.atShortStart M p (M.ofU32 total) vm)).known p) := by
  have hmoved := p.movedAxes_le M
  have hstart := length_shortStart (M := M) (p := p) total
  have hsteps := length_axisSteps (M := M) (p := p)
  have htarget : (UInt32.ofNat (shortStart M p total).length).toNat =
      0 + (shortStart M p total).length := by
    rw [Nat.zero_add]
    exact UInt32.toNat_ofNat_of_lt' (by rw [hstart, UInt32.size]; omega)
  refine (takes_shortStart 0 total vm).append (takes_loop (K := fun i =>
    ((LoopState.shortCycle M p)^[i] (.atShortStart M p (M.ofU32 total) vm)).known p)
    htarget hn (fun _ => rfl) fun i hi => ?_)
  rw [← hcounter i hi, Function.iterate_succ_apply', Nat.zero_add]
  exact takes_shortCycle (by omega) _

end Weftik.Motion
