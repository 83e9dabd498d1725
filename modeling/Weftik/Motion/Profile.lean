import Weftik.Platform
import Weftik.Instruction

/-!
# The Motion Profile Generator

A move along a line is compiled into loops over the scan cycles: each cycle adds the velocity
times the cycle time to the position of every axis that moves, and then changes the velocity.
A long move has three loops, for the acceleration, the cruise and the deceleration; a short
one has a single loop that is to accelerate for one half of its cycles and to decelerate for
the other half. The targets of the jumps are counted from the beginning of the program that
the generator returns.

## Main definitions

* `TrapezoidalProfile`: a move.
* `emitProfilePhase`, `emitTriangularMotion`, `emitG1`: the loops.
* `generateTrapezoidalProgram`: the generator.
-/

namespace Weftik.Motion

variable {P : Platform}

/-! The registers. -/

def regCounter : ℕ := 0
def regPosX : ℕ := 1
def regPosY : ℕ := 2
def regPosZ : ℕ := 3
def regZero : ℕ := 4
def regOne : ℕ := 5
def regVel : ℕ := 6
def regVstep : ℕ := 7
def regTstep : ℕ := 8
def regRatio : ℕ := 9
def regAxisStep : ℕ := 10
def regDt : ℕ := 11

/-- A move: the displacement, the feed rate per minute, the acceleration, the cycle time and
the position at the start. -/
structure TrapezoidalProfile (P : Platform) where
  dx : P.F64
  dy : P.F64
  dz : P.F64
  feedrate : P.F64
  acceleration : P.F64
  dt : P.F64
  startX : P.F64
  startY : P.F64
  startZ : P.F64

/-- The three kinds of loops of a long move. -/
inductive Phase
  | accel | cruise | decel
  deriving DecidableEq, Repr

/-- Is an axis with the given displacement moved? -/
def moves (M : FloatMath P) (d : P.F64) : Bool := P.f64.gt (M.abs d) (P.f64.lit 1 9)

namespace TrapezoidalProfile

variable (M : FloatMath P) (p : TrapezoidalProfile P)

/-- The length of the move. -/
def distance : P.F64 :=
  M.sqrt (P.f64.add (P.f64.add (P.f64.mul p.dx p.dx) (P.f64.mul p.dy p.dy))
    (P.f64.mul p.dz p.dz))

/-- The velocity of the cruise, per second. -/
def vTarget : P.F64 :=
  P.f64.div (if P.f64.gt p.feedrate P.f64.zero then p.feedrate else P.f64.lit 100 0)
    (P.f64.lit 60 0)

/-- The duration of the acceleration. -/
def tAccel : P.F64 := P.f64.div p.vTarget p.acceleration

/-- The number of cycles of the acceleration. -/
def cyclesAccel : UInt32 := M.asU32 (M.ceil (P.f64.div p.tAccel p.dt))

/-- The length of the acceleration. -/
def distAccel : P.F64 :=
  P.f64.mul (P.f64.mul (P.f64.mul (P.f64.lit 5 1) p.acceleration) p.tAccel) p.tAccel

/-- The length of the cruise. -/
def distCruise : P.F64 :=
  P.f64.sub (p.distance M) (P.f64.mul (P.f64.lit 2 0) p.distAccel)

/-- The number of cycles of the cruise. -/
def cyclesCruise : UInt32 :=
  M.asU32 (M.ceil (P.f64.div (P.f64.div (p.distCruise M) p.vTarget) p.dt))

/-- The highest velocity of a short move. -/
def vPeak : P.F64 := M.sqrt (P.f64.mul (p.distance M) p.acceleration)

/-- The number of cycles of one half of a short move. -/
def cyclesHalf : UInt32 :=
  M.asU32 (M.max (M.ceil (P.f64.div (P.f64.div (p.vPeak M) p.acceleration) p.dt))
    (P.f64.lit 1 0))

end TrapezoidalProfile

/-! ### The generator -/

/-- The step of one axis: `pos += tstep * ratio`, and the store of the position. -/
def axisStep (ratio : P.F64) (posReg : ℕ) (signal : String) : List (Instruction P) :=
  [.loadImm regRatio (.f64 ratio), .arith .mul regTstep regRatio regAxisStep,
    .arith .add posReg regAxisStep posReg, .storeSignal signal posReg]

section

variable (M : FloatMath P) (p : TrapezoidalProfile P)

/-- The steps of the axes: the first one always, the other two if they move. -/
def axisSteps : List (Instruction P) :=
  axisStep (P.f64.div p.dx (p.distance M)) regPosX "axis.0.pos" ++
  (if moves M p.dy then axisStep (P.f64.div p.dy (p.distance M)) regPosY "axis.1.pos"
    else []) ++
  (if moves M p.dz then axisStep (P.f64.div p.dz (p.distance M)) regPosZ "axis.2.pos"
    else [])

/-- The start positions of the second and the third axis, if they move. -/
def loadStartYZ : List (Instruction P) :=
  (if moves M p.dy then [.loadImm regPosY (.f64 p.startY)] else []) ++
  (if moves M p.dz then [.loadImm regPosZ (.f64 p.startZ)] else [])

/-- The change of the velocity at the end of a cycle. -/
def velocityUpdate : Phase → List (Instruction P)
  | .accel => [.arith .add regVel regVstep regVel]
  | .cruise => []
  | .decel => [.arith .sub regVel regVstep regVel]

/-- The end of a loop, with the jump to its start. -/
def loopControl (loopStart : ℕ) : List (Instruction P) :=
  [.arith .sub regCounter regOne regCounter, .cmp .gt regCounter regZero,
    .jumpIf (UInt32.ofNat loopStart)]

/-- `emit_profile_phase`. -/
def emitProfilePhase (instructions : List (Instruction P)) (phaseCycles : UInt32)
    (phase : Phase) : List (Instruction P) :=
  if phaseCycles = 0 then instructions
  else
    let vStart := if phase = .accel then P.f64.zero else p.vTarget
    let instructions := instructions ++
      [.loadImm regVstep (.f64 (P.f64.mul p.acceleration p.dt)),
        .loadImm regVel (.f64 vStart), .loadImm regCounter (.f64 (M.ofU32 phaseCycles))]
    let loopStart := instructions.length
    instructions ++ [.arith .mul regVel regDt regTstep] ++ axisSteps M p ++
      velocityUpdate phase ++ loopControl loopStart

/-- `emit_triangular_motion`. The number of cycles is `u32` arithmetic. -/
def emitTriangularMotion (cyclesHalf : UInt32) (instructions : List (Instruction P)) :
    Except Panic (List (Instruction P)) := do
  let instructions := instructions ++ loadStartYZ M p
  let total ← unsigned P 32 (cyclesHalf.toNat * 2)
  let instructions := instructions ++
    [.loadImm regCounter (.f64 (M.ofU32 (UInt32.ofNat total))),
      .loadImm regRatio (.f64 (M.ofU32 cyclesHalf))]
  let loopStart := instructions.length
  let instructions := instructions ++ [.arith .mul regVel regDt regTstep] ++ axisSteps M p ++
    [.cmp .gt regCounter regRatio]
  -- the two placeholders are patched as soon as the start of the deceleration is known
  let decelStart := instructions.length + 3
  let instructions := instructions ++
    [.jumpIf (UInt32.ofNat decelStart), .arith .add regVel regVstep regVel,
      .jump (UInt32.ofNat decelStart + 1), .arith .sub regVel regVstep regVel]
  pure (instructions ++ loopControl loopStart)

/-- `emit_g1`: nothing for a move of no length, one loop for a short move, three for a long
one. -/
def emitG1 (instructions : List (Instruction P)) : Except Panic (List (Instruction P)) :=
  if P.f64.lt (p.distance M) (P.f64.lit 1 9) then pure instructions
  else if P.f64.gt (p.distCruise M) P.f64.zero then
    let instructions := instructions ++ [.loadImm regPosX (.f64 p.startX)] ++ loadStartYZ M p
    let instructions := emitProfilePhase M p instructions (p.cyclesAccel M) .accel
    let instructions := emitProfilePhase M p instructions (p.cyclesCruise M) .cruise
    pure (emitProfilePhase M p instructions (p.cyclesAccel M) .decel)
  else
    emitTriangularMotion M p (p.cyclesHalf M) (instructions ++
      [.loadImm regVel (.f64 P.f64.zero),
        .loadImm regVstep (.f64 (P.f64.div (p.vPeak M) (M.ofU32 (p.cyclesHalf M)))),
        .loadImm regPosX (.f64 p.startX)])

/-- The binding of an axis position. -/
def signalBinding (name : String) : SignalBinding := ⟨name, name, .write, .f64⟩

/-- `generate_trapezoidal_program`. There is no `Halt`. -/
def generateTrapezoidalProgram : Except Panic (HalProgram P) := do
  let instructions ← emitG1 M p
    [.loadImm regDt (.f64 p.dt), .loadImm regZero (.f64 P.f64.zero),
      .loadImm regOne (.f64 (P.f64.lit 1 0))]
  pure
    { name := "trapezoidal_motion"
      signals := [signalBinding "axis.0.pos", signalBinding "axis.1.pos",
        signalBinding "axis.2.pos"]
      instructions := instructions
      functionTable := [] }

end

end Weftik.Motion
