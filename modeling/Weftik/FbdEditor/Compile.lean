import Weftik.FbdEditor.Validation

/-!
# From a Diagram to Instruction List Text

The nodes are sorted, and each one loads its inputs and stores its output. Every wire has a
variable; a gate stores its output into the variable of the first wire that leaves it, or
into one named after the gate when there is none, and an input without a wire is `FALSE`.

## Main definitions

* `FbdEditor.IlLine`: a line of the text.
* `FbdEditor.FbdGraph.sorted`: the nodes in the order of Kahn's algorithm.
* `FbdEditor.FbdGraph.labelOf`: the variable of a wire.
* `FbdEditor.convertGraphToIl`: the text, and the variables of the open outputs.
-/

open Machine

namespace Weftik.FbdEditor

/-- The instructions of the text. -/
inductive IlOp
  | ld
  | ldn
  | and
  | or
  | xor
  | st
  | jmpc
  | jmp
  deriving DecidableEq, Repr

/-- A line of the text: an instruction with its operand and perhaps a comment, a label, or a
call of a function block with its parameters. -/
inductive IlLine
  | instr (op : IlOp) (operand : String) (comment : Option String)
  | label (name : String)
  | cal (fbType : String) (params : List (String × String)) (comment : String)
  deriving DecidableEq, Repr

/-- The instruction, with the spaces in front of its operand. -/
def IlOp.text : IlOp → String
  | .ld => "LD  "
  | .ldn => "LDN "
  | .and => "AND "
  | .or => "OR  "
  | .xor => "XOR "
  | .st => "ST  "
  | .jmpc => "JMPC "
  | .jmp => "JMP  "

def IlLine.text : IlLine → String
  | .instr op operand none => op.text ++ operand
  | .instr op operand (some comment) => op.text ++ operand ++ "  (* " ++ comment ++ " *)"
  | .label name => name ++ ":"
  | .cal fbType params comment =>
      "CAL " ++ fbType ++ "(" ++ ", ".intercalate (params.map fun p => p.1 ++ ":=" ++ p.2) ++
        ")  (* " ++ comment ++ " *)"

namespace FbdGraph

variable (graph : FbdGraph)

/-- The edges into a node. -/
def incomingEdges (nodeId : String) : List Edge :=
  graph.edges.filter fun e => e.targetId == nodeId

/-! ### The order of the nodes -/

/-- The state of the sort; the map of the degrees has the ids of the nodes. -/
structure Sorting where
  inDegree : String → Option ℤ
  queue : List String
  sorted : List Node

/-- One edge out of the node that has left the queue. -/
def Sorting.decrement (s : Sorting) (e : Edge) : Sorting :=
  let deg := (s.inDegree e.targetId).getD 1
  { s with
    inDegree := fun id => if id = e.targetId then some (deg - 1) else s.inDegree id
    queue := if deg - 1 = 0 then s.queue ++ [e.targetId] else s.queue }

/-- One round of the sort. -/
def sortStep (s : Sorting) : Result Sorting Empty :=
  match s.queue with
  | [] => .done s
  | id :: queue =>
      let sorted :=
        match graph.nodeById id with
        | some node => s.sorted ++ [node]
        | none => s.sorted
      .next ((graph.edges.filter fun e => e.sourceId == id).foldl Sorting.decrement
        { s with queue, sorted })

/-- The state of the sort before the first round. -/
def sortStart : Sorting where
  inDegree id :=
    if graph.nodes.any fun n => n.id == id then some (graph.incomingEdges id).length else none
  queue := (graph.nodes.filter fun n => (graph.incomingEdges n.id).isEmpty).map Node.id
  sorted := []

/-- The sorted nodes. A node is queued at the start or by the last edge into it, which
bounds the rounds. -/
def sorted : List Node :=
  match run graph.sortStep (graph.nodes.length + graph.edges.length + 1) graph.sortStart with
  | some (.ok s) => s.sorted
  | _ => []

/-! ### The variables -/

/-- The variable of the edge with a number. -/
def wireLabel (edge : Edge) (labelCounter : ℕ) : String :=
  match (graph.nodeById edge.sourceId).bind fun n => n.findPin edge.sourcePortName with
  | some srcPin => "tmp_" ++ srcPin.name ++ "_" ++ labelCounter.repr
  | none => "tmp_" ++ labelCounter.repr

/-- The variables of the edges, by their ids; a later edge with the same id prevails. -/
def labelOf (edgeId : String) : Option String :=
  (graph.edges.zipIdx.map fun p => (p.1.id, graph.wireLabel p.1 p.2)).reverse.lookup edgeId

/-- What the input pins read; a pin without a wire reads `unconnected`. -/
def inputValues (node : Node) (unconnected : String) : List String :=
  node.inputPorts.map fun pin =>
    match (graph.incomingEdges node.id).find? fun e => e.targetPortName == pin.name with
    | some edge => (graph.labelOf edge.id).getD unconnected
    | none => unconnected

/-- The first edge that leaves a node. -/
def findOutgoingEdge (nodeId : String) : Option Edge :=
  graph.edges.find? fun e => e.sourceId == nodeId

/-- Where a gate stores its output. -/
def outLabel (nodeId : String) : String :=
  match graph.findOutgoingEdge nodeId with
  | some outWire => (graph.labelOf outWire.id).getD ("gate_out_" ++ nodeId)
  | none => "gate_out_" ++ nodeId

/-! ### The lines of a node -/

/-- A first load with a comment, and the other operands. -/
def foldLines (op : IlOp) (comment : String) (inputValues : List String) : List IlLine :=
  if inputValues.length = 2 then
    [.instr .ld (inputValues.getD 0 "undefined") (some comment),
      .instr op (inputValues.getD 1 "undefined") none]
  else
    .instr .ld (inputValues.getD 0 "undefined") none ::
      (inputValues.drop 1).map fun v => .instr op v none

/-- The lines that compute the output of a gate. -/
def gateLines (gateType : GateType) (id : String) (inputValues : List String) : List IlLine :=
  let value (i : ℕ) := inputValues.getD i "undefined"
  match gateType with
  | .not => [.instr .ldn (value 0) (some ("NOT " ++ id))]
  | .and => foldLines .and ("AND " ++ id) inputValues
  | .or => foldLines .or ("OR " ++ id) inputValues
  | .xor => [.instr .ld (value 0) (some ("XOR " ++ id)), .instr .xor (value 1) none]
  | .mux =>
      [.instr .ld (value 0) (some ("MUX SEL " ++ id)),
        .instr .jmpc ("mux_" ++ id ++ "_sel0") none,
        .instr .ld (value 1) none,
        .instr .jmp ("mux_" ++ id ++ "_end") none,
        .label ("mux_" ++ id ++ "_sel0"),
        .instr .ld (value 2) none,
        .label ("mux_" ++ id ++ "_end")]

/-- The lines of a gate. -/
def emitGateNode (node : Node) (gateType : GateType) : List IlLine :=
  gateLines gateType node.id (graph.inputValues node "FALSE") ++
    [.instr .st (graph.outLabel node.id) none]

/-- The first edge that leaves a pin. -/
def outEdge (nodeId portName : String) : Option Edge :=
  graph.edges.find? fun e => e.sourceId == nodeId && e.sourcePortName == portName

/-- Where a function block stores one of its outputs. -/
def pinLabel (nodeId portName : String) : String :=
  match graph.outEdge nodeId portName with
  | some edge => (graph.labelOf edge.id).getD ("fb_" ++ nodeId ++ "_" ++ portName)
  | none => "fb_" ++ nodeId ++ "_" ++ portName

/-- The lines of a function block. -/
def emitFbNode (node : Node) (fbType : String) : List IlLine :=
  .cal fbType ((node.inputPorts.map Pin.name).zip (graph.inputValues node "0"))
      ("FB " ++ node.id) ::
    node.outputPorts.map fun pin => .instr .st (graph.pinLabel node.id pin.name) none

def emitNode (node : Node) : List IlLine :=
  match node.kind with
  | .gate gateType => graph.emitGateNode node gateType
  | .fb fbType => graph.emitFbNode node fbType

/-- The variables of the outputs of a node that no wire leaves. -/
def openOutputs (node : Node) : List String :=
  match node.kind with
  | .gate _ => if (graph.findOutgoingEdge node.id).isNone then [graph.outLabel node.id] else []
  | .fb _ =>
      (node.outputPorts.filter fun pin => (graph.outEdge node.id pin.name).isNone).map fun pin =>
        graph.pinLabel node.id pin.name

/-- The lines of the text. -/
def ilLines : List IlLine := graph.sorted.flatMap graph.emitNode

end FbdGraph

/-- The generated text, and the names of the variables that are used. -/
structure IlGenerationResult where
  ilText : String
  variableNames : List String
  deriving DecidableEq, Repr

def convertGraphToIl (graph : FbdGraph) : IlGenerationResult :=
  ⟨"\n".intercalate (graph.ilLines.map IlLine.text), graph.sorted.flatMap graph.openOutputs⟩

example :
    (convertGraphToIl ⟨"g", [(createGate .not 0).1, (createGate .and 1).1],
      [⟨"signal-3", "gate-2", "OUT", "gate-1", "IN"⟩]⟩).ilText =
    "LD  FALSE  (* AND gate-2 *)\nAND FALSE\nST  tmp_OUT_0\n" ++
      "LDN tmp_OUT_0  (* NOT gate-1 *)\nST  gate_out_gate-1" := by
  decide +kernel

end Weftik.FbdEditor
