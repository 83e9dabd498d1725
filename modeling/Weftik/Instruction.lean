import Weftik.HalValue

/-!
# Instructions and Programs

The instruction set of the register machine, and the program structure that compilers
produce and the engine loads. An instruction is an opcode with a list of operands; the
opcode does not fix how many operands there are or of what kind, and the executor decides
what to do with operands that do not fit.

## Main definitions

* `Opcode`, `Operand`, `Instruction`: the instruction set and its constructors.
* `SignalBinding`, `FunctionEntry`, `HalProgram`: a compiled program.
* `HalProgram.isWellFormed`: the admission check, "some instruction is `Halt`".
-/

namespace Weftik

/-- The opcodes of the virtual machine. -/
inductive Opcode
  | nop | load | store
  | add | sub | mul | div | mod | neg
  | eq | neq | gt | lt | gte | lte
  | and | or | xor | not
  | jump | jumpIf | call | ret
  | loadIndex | storeIndex
  | timerRun | readTimer
  | counterRun | readCounter
  | srRun | readSr
  | edgeRun | readEdge
  | halt
  deriving DecidableEq, Repr

/-- An operand: a register index, a literal, or the name of a signal. -/
inductive Operand (P : Platform)
  | register (r : ℕ)
  | immediate (v : HalValue P)
  | signalName (name : String)
  deriving DecidableEq

/-- One instruction: an opcode and its operands. -/
structure Instruction (P : Platform) where
  opcode : Opcode
  operands : List (Operand P)
  deriving DecidableEq

variable {P : Platform}

namespace Instruction

/-- `Nop`. -/
def nop : Instruction P := ⟨.nop, []⟩

/-- `Halt`. -/
def halt : Instruction P := ⟨.halt, []⟩

/-- Load a literal into a register. -/
def loadImm (reg : ℕ) (val : HalValue P) : Instruction P :=
  ⟨.load, [.register reg, .immediate val]⟩

/-- An operation on two registers into a third. -/
def arith (opcode : Opcode) (a b out : ℕ) : Instruction P :=
  ⟨opcode, [.register a, .register b, .register out]⟩

/-- A comparison of two registers. -/
def cmp (opcode : Opcode) (a b : ℕ) : Instruction P :=
  ⟨opcode, [.register a, .register b]⟩

/-- Jump to an instruction index. -/
def jump (target : UInt32) : Instruction P := ⟨.jump, [.immediate (.u32 target)]⟩

/-- Jump to an instruction index when the flag is set. -/
def jumpIf (target : UInt32) : Instruction P := ⟨.jumpIf, [.immediate (.u32 target)]⟩

/-- Call the function at an instruction index. -/
def call (target : UInt32) : Instruction P := ⟨.call, [.immediate (.u32 target)]⟩

/-- Return from a function, with the register of the result if there is one. -/
def ret (resultReg : Option ℕ) : Instruction P :=
  ⟨.ret, (resultReg.map fun r => [.register r]).getD []⟩

/-- Load an array element into a register. -/
def loadIndex (dest array index : ℕ) : Instruction P :=
  ⟨.loadIndex, [.register dest, .register array, .register index]⟩

/-- Store a register into an array element. -/
def storeIndex (array index value : ℕ) : Instruction P :=
  ⟨.storeIndex, [.register array, .register index, .register value]⟩

/-- Tick a timer. -/
def timerRun (timerIdx inReg : ℕ) (ptMs : UInt32) (kind : ℕ) : Instruction P :=
  ⟨.timerRun, [.immediate (.u32 (UInt32.ofNat timerIdx)), .register inReg,
    .immediate (.u32 ptMs), .immediate (.u32 (UInt32.ofNat kind))]⟩

/-- Read the output and the elapsed time of a timer. -/
def readTimer (timerIdx qDest etDest : ℕ) : Instruction P :=
  ⟨.readTimer, [.immediate (.u32 (UInt32.ofNat timerIdx)), .register qDest,
    .register etDest]⟩

/-- Tick a counter. -/
def counterRun (counterIdx cuReg cdReg : ℕ) (pv : UInt32) (kind : ℕ) : Instruction P :=
  ⟨.counterRun, [.immediate (.u32 (UInt32.ofNat counterIdx)), .register cuReg,
    .register cdReg, .immediate (.u32 pv), .immediate (.u32 (UInt32.ofNat kind))]⟩

/-- Read the output and the value of a counter. -/
def readCounter (counterIdx qDest cvDest : ℕ) : Instruction P :=
  ⟨.readCounter, [.immediate (.u32 (UInt32.ofNat counterIdx)), .register qDest,
    .register cvDest]⟩

/-- Tick an SR or RS flip-flop. -/
def srRun (idx s1Reg rReg kind : ℕ) : Instruction P :=
  ⟨.srRun, [.immediate (.u32 (UInt32.ofNat idx)), .register s1Reg, .register rReg,
    .immediate (.u32 (UInt32.ofNat kind))]⟩

/-- Read the two outputs of a flip-flop. -/
def readSr (idx q1Dest q2Dest : ℕ) : Instruction P :=
  ⟨.readSr, [.immediate (.u32 (UInt32.ofNat idx)), .register q1Dest, .register q2Dest]⟩

/-- Tick an edge detector. -/
def edgeRun (idx clkReg kind : ℕ) : Instruction P :=
  ⟨.edgeRun, [.immediate (.u32 (UInt32.ofNat idx)), .register clkReg,
    .immediate (.u32 (UInt32.ofNat kind))]⟩

/-- Read the output of an edge detector. -/
def readEdge (idx qDest : ℕ) : Instruction P :=
  ⟨.readEdge, [.immediate (.u32 (UInt32.ofNat idx)), .register qDest]⟩

/-! The compilers build four more forms from an opcode and operands. -/

/-- Copy a register. -/
def loadReg (dest src : ℕ) : Instruction P := ⟨.load, [.register dest, .register src]⟩

/-- Load a signal into a register. -/
def loadSignal (dest : ℕ) (name : String) : Instruction P :=
  ⟨.load, [.register dest, .signalName name]⟩

/-- Store a register under a signal name. -/
def storeSignal (name : String) (src : ℕ) : Instruction P :=
  ⟨.store, [.signalName name, .register src]⟩

/-- `Not` or `Neg` of a register into another. -/
def unary (opcode : Opcode) (src dest : ℕ) : Instruction P :=
  ⟨opcode, [.register src, .register dest]⟩

end Instruction

/-! ### Programs -/

/-- The direction of a binding. -/
inductive Direction
  | read | write | readWrite
  deriving DecidableEq, Repr

/-- A program variable mapped to a HAL signal. -/
structure SignalBinding where
  halSignalName : String
  programVar : String
  direction : Direction
  halPinType : HalPinType
  deriving DecidableEq, Repr

/-- The entry point of a user-defined function. -/
structure FunctionEntry where
  name : String
  entryPoint : UInt32
  regCount : ℕ
  deriving DecidableEq, Repr

/-- A compiled program. Channel bindings, which nothing here reads, are left out. -/
structure HalProgram (P : Platform) where
  name : String
  signals : List SignalBinding
  instructions : List (Instruction P)
  functionTable : List FunctionEntry
  deriving DecidableEq

namespace HalProgram

/-- A program with the given name and instructions and no bindings. -/
def new (name : String) (instructions : List (Instruction P)) : HalProgram P :=
  ⟨name, [], instructions, []⟩

/-- The admission check: some instruction of the program is a `Halt`. -/
def isWellFormed (p : HalProgram P) : Bool :=
  p.instructions.any fun inst => inst.opcode == .halt

end HalProgram

/-- The names under which the instructions store, each once, in order. -/
def storedNames (instructions : List (Instruction P)) : List String :=
  instructions.foldl
    (fun seen inst =>
      match inst.opcode, inst.operands with
      | .store, .signalName name :: _ => if name ∈ seen then seen else seen ++ [name]
      | _, _ => seen)
    []

end Weftik
