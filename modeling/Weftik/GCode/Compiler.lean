import Weftik.Motion.Profile

/-!
# The G-Code Compiler

A G-code program is a list of commands, one for each line. The compiler keeps the modal state
of a G-code interpreter (the distance mode, the plane, the position, and so on) and emits
code for each command: stores of the target for a rapid move, a motion profile for a linear
move, a chain of chords for an arc. The code of a motion profile is appended as it comes from
its generator.

## Main definitions

* `GCodeCommand`, `ModalState`: commands, and what the compiler keeps between them.
* `ModalState.advance`: the modal state after a command.
* `emitMotion`, `emitArc`, `emitG0`, `emitSpindle`, `emitProgramControl`: the code of a
  command.
* `compileCommands`: the compiler.
-/

namespace Weftik.GCode

open Motion

variable {P : Platform}

/-! ### Commands and the modal state -/

/-- The kinds of commands. -/
inductive CommandKind
  | motion | spindle | modal | programControl | unknown
  deriving DecidableEq, Repr

/-- One line: its codes and its words. The dwell and the tool, which the compiler does not
read, are left out. -/
structure GCodeCommand (P : Platform) where
  kind : CommandKind
  gCode : Option ℕ
  mCode : Option ℕ
  x : Option P.F64
  y : Option P.F64
  z : Option P.F64
  i : Option P.F64
  j : Option P.F64
  k : Option P.F64
  r : Option P.F64
  f : Option P.F64
  s : Option P.F64
  line : ℕ

/-- `GCodeCommand::classify`: the kind that the codes give. -/
def classify (gCode mCode : Option ℕ) : CommandKind :=
  if gCode ∈ [some 0, some 1, some 2, some 3] then .motion
  else if mCode ∈ [some 3, some 4, some 5] then .spindle
  else if gCode ∈ [some 17, some 18, some 19, some 20, some 21, some 80, some 90, some 91] then
    .modal
  else if mCode ∈ [some 2, some 30] then .programControl
  else .unknown

/-- A command with the given codes and no words. -/
def GCodeCommand.ofCodes (gCode mCode : Option ℕ) (line : ℕ) : GCodeCommand P where
  kind := classify gCode mCode
  gCode := gCode
  mCode := mCode
  x := none
  y := none
  z := none
  i := none
  j := none
  k := none
  r := none
  f := none
  s := none
  line := line

/-- What persists from line to line. -/
structure ModalState (P : Platform) where
  motionMode : ℕ
  coordMode : ℕ
  unitMode : ℕ
  plane : ℕ
  feedrate : P.F64
  spindleRpm : P.F64
  acceleration : P.F64
  currentX : P.F64
  currentY : P.F64
  currentZ : P.F64
  lineNumber : ℕ

namespace ModalState

/-- The state at power-on. -/
def new : ModalState P where
  motionMode := 0
  coordMode := 90
  unitMode := 21
  plane := 17
  feedrate := P.f64.zero
  spindleRpm := P.f64.zero
  acceleration := P.f64.lit 500 0
  currentX := P.f64.zero
  currentY := P.f64.zero
  currentZ := P.f64.zero
  lineNumber := 0

/-- The new coordinate of an axis: in absolute mode the word, in incremental mode the sum,
and the old coordinate without a word. -/
def target (coordMode : ℕ) (current : P.F64) (word : Option P.F64) : P.F64 :=
  match word with
  | some v => if coordMode = 90 then v else P.f64.add current v
  | none => current

/-- The positions after a motion command. -/
def updatePosition (state : ModalState P) (cmd : GCodeCommand P) : ModalState P :=
  { state with
    currentX := target state.coordMode state.currentX cmd.x
    currentY := target state.coordMode state.currentY cmd.y
    currentZ := target state.coordMode state.currentZ cmd.z }

/-- The modal state after a command. -/
def advance (state : ModalState P) (cmd : GCodeCommand P) : ModalState P :=
  let next := { state with lineNumber := cmd.line }
  match cmd.kind with
  | .motion =>
      let next :=
        match cmd.gCode with
        | some g => if g ≤ 3 then { next with motionMode := g } else next
        | none => next
      let next := next.updatePosition cmd
      match cmd.f with
      | some f => { next with feedrate := f }
      | none => next
  | .spindle =>
      match cmd.s with
      | some s => { next with spindleRpm := s }
      | none => next
  | .modal =>
      match cmd.gCode with
      | some g =>
          if g = 17 ∨ g = 18 ∨ g = 19 then { next with plane := g }
          else if g = 20 ∨ g = 21 then { next with unitMode := g }
          else if g = 90 ∨ g = 91 then { next with coordMode := g }
          else if g = 80 then { next with motionMode := 0 }
          else next
      | none => next
  | .programControl | .unknown => next

end ModalState

/-! ### Errors and output -/

/-- The error of an unsupported command; the other errors of the compiler come from its
front end. -/
structure UnsupportedCommand where
  line : ℕ
  code : String
  deriving DecidableEq, Repr

/-- The compiler returns an error or panics. -/
inductive CompileError
  | unsupported (e : UnsupportedCommand)
  | panic (e : Panic)
  deriving DecidableEq, Repr

/-- What has been emitted. -/
structure Emitted (P : Platform) where
  instructions : List (Instruction P)
  signals : List SignalBinding

/-- Append instructions. -/
def Emitted.extend (out : Emitted P) (insts : List (Instruction P)) : Emitted P :=
  { out with instructions := out.instructions ++ insts }

/-! The registers. -/

def regStep : ℕ := 0
def regPosX : ℕ := 2
def regPosY : ℕ := 3
def regPosZ : ℕ := 4
def regZero : ℕ := 5
def regOne : ℕ := 6

/-! ### Rapid moves -/

/-- Store a position and enable its axis. -/
def storeTarget (reg : ℕ) (value : P.F64) (posSignal enableSignal : String) :
    List (Instruction P) :=
  [.loadImm reg (.f64 value), .storeSignal posSignal reg, .loadImm regStep (.bool true),
    .storeSignal enableSignal regStep]

/-- `emit_g0`: the first axis always, the other two if their target is not zero. -/
def emitG0 (state : ModalState P) : List (Instruction P) :=
  storeTarget regPosX state.currentX "axis.0.pos" "axis.0.enable" ++
  (if P.f64.eq state.currentY P.f64.zero then []
    else storeTarget regPosY state.currentY "axis.1.pos" "axis.1.enable") ++
  (if P.f64.eq state.currentZ P.f64.zero then []
    else storeTarget regPosZ state.currentZ "axis.2.pos" "axis.2.enable")

/-! ### Arcs -/

section

variable (M : FloatMath P)

/-- `CHORD_TOLERANCE`. -/
def chordTolerance : P.F64 := P.f64.lit 5 3

/-- `MAX_ANGULAR_STEP`. -/
def maxAngularStep : P.F64 := P.f64.div M.pi (P.f64.lit 6 0)

/-- The three axes in the order of a plane: the two of the arc, and the linear one. -/
structure PlaneAxes (P : Platform) where
  startA : P.F64
  startB : P.F64
  startLinear : P.F64
  endA : P.F64
  endB : P.F64
  endLinear : P.F64
  axisA : String
  axisB : String
  axisLinear : String

/-- The axes of a plane. -/
def planeAxes (prev next : ModalState P) : Option (PlaneAxes P) :=
  if prev.plane = 17 then
    some ⟨prev.currentX, prev.currentY, prev.currentZ, next.currentX, next.currentY,
      next.currentZ, "axis.0", "axis.1", "axis.2"⟩
  else if prev.plane = 18 then
    some ⟨prev.currentZ, prev.currentX, prev.currentY, next.currentZ, next.currentX,
      next.currentY, "axis.2", "axis.0", "axis.1"⟩
  else if prev.plane = 19 then
    some ⟨prev.currentY, prev.currentZ, prev.currentX, next.currentY, next.currentZ,
      next.currentX, "axis.1", "axis.2", "axis.0"⟩
  else none

/-- `calculate_arc_center`: from the offsets, otherwise from the radius. -/
def calculateArcCenter (a : PlaneAxes P) (cmd : GCodeCommand P) (plane : ℕ) :
    Except UnsupportedCommand (P.F64 × P.F64) :=
  let zero := P.f64.zero
  if cmd.i.isSome || cmd.j.isSome || cmd.k.isSome then
    if plane = 17 then
      .ok (P.f64.add a.startA (cmd.i.getD zero), P.f64.add a.startB (cmd.j.getD zero))
    else if plane = 18 then
      .ok (P.f64.add a.startA (cmd.k.getD zero), P.f64.add a.startB (cmd.i.getD zero))
    else if plane = 19 then
      .ok (P.f64.add a.startA (cmd.j.getD zero), P.f64.add a.startB (cmd.k.getD zero))
    else .error ⟨cmd.line, "plane G" ++ toString plane⟩
  else
    match cmd.r with
    | some radius =>
        let dx := P.f64.sub a.endA a.startA
        let dy := P.f64.sub a.endB a.startB
        let chordLen := M.sqrt (P.f64.add (P.f64.mul dx dx) (P.f64.mul dy dy))
        if P.f64.lt chordLen (P.f64.lit 1 9) then .error ⟨cmd.line, "zero-length arc with R"⟩
        else
          let rAbs := M.abs radius
          let halfChord := P.f64.div chordLen (P.f64.lit 2 0)
          if P.f64.lt rAbs (P.f64.sub halfChord (P.f64.lit 1 9)) then
            .error ⟨cmd.line, "radius " ++ M.display rAbs ++ " too small for chord length " ++
              M.display chordLen⟩
          else
            let centerOffset := M.sqrt (M.max
              (P.f64.sub (P.f64.mul rAbs rAbs) (P.f64.mul halfChord halfChord)) zero)
            let midA := P.f64.div (P.f64.add a.startA a.endA) (P.f64.lit 2 0)
            let midB := P.f64.div (P.f64.add a.startB a.endB) (P.f64.lit 2 0)
            let perpA := P.f64.div (P.f64.neg dy) chordLen
            let perpB := P.f64.div dx chordLen
            let sign :=
              if P.f64.gt radius zero then P.f64.lit 1 0 else P.f64.neg (P.f64.lit 1 0)
            .ok (P.f64.add midA (P.f64.mul (P.f64.mul sign perpA) centerOffset),
              P.f64.add midB (P.f64.mul (P.f64.mul sign perpB) centerOffset))
    | none => .error ⟨cmd.line, "arc missing I/J/K or R"⟩

/-- The angle of an arc, negative for `G2` and positive for `G3`. -/
def arcSweep (gCode : ℕ) (a : PlaneAxes P) (startAngle endAngle : P.F64) : P.F64 :=
  let twoPi := P.f64.mul (P.f64.lit 2 0) M.pi
  let isFullCircle := P.f64.lt
    (M.hypot (P.f64.sub a.endA a.startA) (P.f64.sub a.endB a.startB)) (P.f64.lit 1 6)
  if isFullCircle then
    if gCode = 2 then P.f64.mul (P.f64.neg (P.f64.lit 2 0)) M.pi else twoPi
  else
    let s := P.f64.sub endAngle startAngle
    if gCode = 2 then
      if P.f64.gt s P.f64.zero then P.f64.sub s twoPi else s
    else
      if P.f64.lt s P.f64.zero then P.f64.add s twoPi else s

/-- The stores at the end of one chord. -/
def arcSegment (a : PlaneAxes P) (posA posB posLinear : P.F64) : List (Instruction P) :=
  let store := fun (axis : String) (pos : P.F64) =>
    [Instruction.loadImm regPosX (.f64 pos), .storeSignal (axis ++ ".pos") regPosX,
      .storeSignal (axis ++ ".enable") regStep]
  store a.axisA posA ++ store a.axisB posB ++ store a.axisLinear posLinear

/-- `emit_arc`: the chords of an arc, and nothing for an arc of no length. -/
def emitArc (gCode : ℕ) (prev next : ModalState P) (cmd : GCodeCommand P) :
    Except UnsupportedCommand (List (Instruction P)) :=
  match planeAxes prev next with
  | none => .error ⟨cmd.line, "G" ++ toString gCode⟩
  | some a => do
      let (centerA, centerB) ← calculateArcCenter M a cmd prev.plane
      let offA := P.f64.sub a.startA centerA
      let offB := P.f64.sub a.startB centerB
      let radius := M.sqrt (P.f64.add (M.square offA) (M.square offB))
      if P.f64.lt radius (P.f64.lit 1 9) then .error ⟨cmd.line, "zero-radius arc"⟩
      else
        let startAngle := M.atan2 offB offA
        let endAngle := M.atan2 (P.f64.sub a.endB centerB) (P.f64.sub a.endA centerA)
        let sweep := arcSweep M gCode a startAngle endAngle
        if P.f64.lt (M.abs sweep) (P.f64.lit 1 9) then pure []
        else
          let angularStep :=
            if P.f64.gt radius chordTolerance then
              M.min (P.f64.mul (P.f64.lit 2 0) (M.acos
                (P.f64.sub (P.f64.lit 1 0) (P.f64.div chordTolerance radius))))
                (maxAngularStep M)
            else maxAngularStep M
          let numSegments :=
            max (M.asU32 (M.ceil (P.f64.div (M.abs sweep) angularStep))).toNat 1
          let count := M.ofU32 (UInt32.ofNat numSegments)
          let anglePerSegment := P.f64.div sweep count
          let linearPerSegment := P.f64.div (P.f64.sub a.endLinear a.startLinear) count
          let segment := fun n : ℕ =>
            let step := M.ofU32 (UInt32.ofNat (n + 1))
            let angle := P.f64.add startAngle (P.f64.mul step anglePerSegment)
            arcSegment a (P.f64.add centerA (P.f64.mul radius (M.cos angle)))
              (P.f64.add centerB (P.f64.mul radius (M.sin angle)))
              (P.f64.add a.startLinear (P.f64.mul step linearPerSegment))
          pure (.loadImm regStep (.bool true) :: (List.range numSegments).flatMap segment)

/-! ### Linear moves -/

/-- The move of a linear command. -/
def profileOf (prev next : ModalState P) : TrapezoidalProfile P where
  dx := P.f64.sub next.currentX prev.currentX
  dy := P.f64.sub next.currentY prev.currentY
  dz := P.f64.sub next.currentZ prev.currentZ
  feedrate := next.feedrate
  acceleration := next.acceleration
  dt := P.f64.lit 1 2
  startX := prev.currentX
  startY := prev.currentY
  startZ := prev.currentZ

/-- `emit_motion`. -/
def emitMotion (cmd : GCodeCommand P) (state : ModalState P) (out : Emitted P) :
    Except CompileError (Emitted P) :=
  let next := state.advance cmd
  match cmd.gCode.getD state.motionMode with
  | 0 => pure (out.extend (emitG0 next))
  | 1 =>
      let profile := profileOf state next
      if P.f64.ge (profile.distance M) (P.f64.lit 1 9) then
        match generateTrapezoidalProgram M profile with
        | .ok program =>
            pure ⟨out.instructions ++ program.instructions, out.signals ++ program.signals⟩
        | .error e => .error (.panic e)
      else pure out
  | 2 | 3 =>
      match cmd.gCode with
      | none => .error (.panic (.message "called `Option::unwrap()` on a `None` value"))
      | some g =>
          match emitArc M g state next cmd with
          | .ok insts => pure (out.extend insts)
          | .error e => .error (.unsupported e)
  | _ =>
      match cmd.gCode with
      | none => .error (.panic (.message "called `Option::unwrap()` on a `None` value"))
      | some g => .error (.unsupported ⟨cmd.line, "G" ++ toString g⟩)

end

/-! ### The spindle and the end of the program -/

/-- Load a value and store it. -/
def storeImm (value : HalValue P) (signals : List String) : List (Instruction P) :=
  .loadImm regStep value :: signals.map fun signal => .storeSignal signal regStep

/-- `emit_spindle`. -/
def emitSpindle (cmd : GCodeCommand P) : List (Instruction P) :=
  (match cmd.s with
    | some s => storeImm (.f64 s) ["spindle.rpm"]
    | none => []) ++
  match cmd.mCode with
  | some 3 => storeImm (.bool true) ["spindle.cw"]
  | some 4 => storeImm (.bool true) ["spindle.ccw"]
  | some 5 =>
      storeImm (.bool false) ["spindle.cw", "spindle.ccw"] ++
        storeImm (.f64 P.f64.zero) ["spindle.rpm"]
  | _ => []

/-- `emit_program_control`: `M30` also stops the spindle. -/
def emitProgramControl (cmd : GCodeCommand P) : List (Instruction P) :=
  (if cmd.mCode = some 30 then storeImm (.bool false) ["spindle.cw", "spindle.ccw"] else []) ++
  (if cmd.mCode = some 2 ∨ cmd.mCode = some 30 then [.halt] else [])

/-! ### The compiler -/

/-- The bindings that every program has. -/
def axisSignals : List SignalBinding :=
  let bind := fun (name : String) (pinType : HalPinType) =>
    (⟨name, name.map fun c => if c = '.' then '_' else c, .write, pinType⟩ : SignalBinding)
  [bind "axis.0.pos" .f64, bind "axis.0.enable" .bool, bind "axis.1.pos" .f64,
    bind "axis.1.enable" .bool, bind "axis.2.pos" .f64, bind "axis.2.enable" .bool,
    bind "spindle.rpm" .f64, bind "spindle.cw" .bool, bind "spindle.ccw" .bool]

/-- The code before the first command: two constants. -/
def prelude : List (Instruction P) :=
  [.loadImm regZero (.f64 P.f64.zero), .loadImm regOne (.f64 (P.f64.lit 1 0))]

section

variable (M : FloatMath P)

/-- Emit the code of a command. -/
def emitCommand (cmd : GCodeCommand P) (state : ModalState P) (out : Emitted P) :
    Except CompileError (Emitted P) :=
  match cmd.kind with
  | .motion => emitMotion M cmd state out
  | .spindle => pure (out.extend (emitSpindle cmd))
  | .modal => pure out
  | .programControl => pure (out.extend (emitProgramControl cmd))
  | .unknown =>
      match cmd.gCode, cmd.mCode with
      | some g, _ => .error (.unsupported ⟨cmd.line, "G" ++ toString g⟩)
      | none, some m => .error (.unsupported ⟨cmd.line, "M" ++ toString m⟩)
      | none, none => pure out

/-- Emit the code of a list of commands, from a modal state on. -/
def emitCommands : List (GCodeCommand P) → ModalState P → Emitted P →
    Except CompileError (Emitted P)
  | [], _, out => pure out
  | cmd :: cmds, state, out => do
      let out ← emitCommand M cmd state out
      emitCommands cmds (state.advance cmd) out

/-- `compile_commands`. -/
def compileCommands (commands : List (GCodeCommand P)) (initialModal : ModalState P) :
    Except CompileError (HalProgram P) := do
  let out ← emitCommands M commands initialModal ⟨prelude, axisSignals⟩
  pure ⟨"gcode_program", out.signals, out.instructions, []⟩

end

end Weftik.GCode
