import Mathlib

/-!
# Function Block Diagrams

The graph of the function block editor: gates and function blocks with named pins, and
wires that refer to the pins by the ids of their nodes and their names. The pins of a gate
follow from its type; those of a function block from a registry of the known types.

## Main definitions

* `FbdEditor.Pin`, `Node`, `Edge`, `FbdGraph`: the diagram.
* `FbdEditor.generateId`: an id from a counter that the whole editor shares.
* `FbdEditor.createGate`, `createFbWithPins`: the nodes that the editor makes.

## Main results

* `FbdEditor.idOf_injective`: two ids with one prefix differ when their numbers do.
* `FbdEditor.NodeKind.of_mem_inputs`, `of_mem_outputs`: the name of a pin of a node that the
  editor makes tells its direction, whatever the type of the node.
* `FbdEditor.Node.Made.isSource_iff`, `isTarget_iff`: the ends of wires at such a node.
-/

namespace Weftik.FbdEditor

/-- The direction of a pin. -/
inductive PinDirection
  | output
  | input
  | bidi
  deriving DecidableEq, Repr

/-- A wire may start at the pin. -/
def PinDirection.isSource : PinDirection → Bool
  | .output | .bidi => true
  | .input => false

/-- A wire may end at the pin. -/
def PinDirection.isTarget : PinDirection → Bool
  | .input | .bidi => true
  | .output => false

/-- A connection point of a node. -/
structure Pin where
  name : String
  dataType : String
  direction : PinDirection
  deriving DecidableEq, Repr

/-- The type of a logic gate. -/
inductive GateType
  | and
  | or
  | xor
  | not
  | mux
  deriving DecidableEq, Repr

/-- A gate, or a function block with the name of its type. -/
inductive NodeKind
  | gate (gateType : GateType)
  | fb (fbType : String)
  deriving DecidableEq, Repr

/-- A gate or a function block of the diagram. -/
structure Node where
  id : String
  kind : NodeKind
  inputPorts : List Pin
  outputPorts : List Pin
  deriving DecidableEq, Repr

/-- The discriminator of a node. -/
def Node.type (n : Node) : String :=
  match n.kind with
  | .gate _ => "node:gate"
  | .fb _ => "node:fb"

/-- A pin by its name; the input pins come first. -/
def Node.findPin (n : Node) (pinName : String) : Option Pin :=
  (n.inputPorts ++ n.outputPorts).find? fun p => p.name == pinName

/-- A wire from an output pin to an input pin. -/
structure Edge where
  id : String
  sourceId : String
  sourcePortName : String
  targetId : String
  targetPortName : String
  deriving DecidableEq, Repr

/-- The document. -/
structure FbdGraph where
  id : String
  nodes : List Node
  edges : List Edge
  deriving DecidableEq, Repr

/-! ### Ids -/

/-- The id with a prefix and a number. -/
def idOf (kind : String) (number : ℕ) : String := kind ++ "-" ++ number.repr

/-- A new id, and the counter after it. -/
def generateId (kind : String) (nextId : ℕ) : String × ℕ :=
  (idOf kind (nextId + 1), nextId + 1)

theorem idOf_injective {kind : String} {m n : ℕ} (h : idOf kind m = idOf kind n) : m = n := by
  rw [idOf, idOf, String.append_right_inj] at h
  exact Nat.repr_injective h

/-! ### Pins -/

def createInputPin (name dataType : String) : Pin := ⟨name, dataType, .input⟩

def createOutputPin (name dataType : String) : Pin := ⟨name, dataType, .output⟩

def getDefaultInputPinNames : GateType → List String
  | .not => ["IN"]
  | .mux => ["SEL", "IN0", "IN1"]
  | .and | .or | .xor => ["IN1", "IN2"]

/-- The input pins of a gate. -/
def gateInputs (gateType : GateType) : List Pin :=
  (getDefaultInputPinNames gateType).map fun name => createInputPin name "BOOL"

/-- The output pin of a gate. -/
def gateOutputs : List Pin := [createOutputPin "OUT" "BOOL"]

/-- A gate, and the counter after it. -/
def createGate (gateType : GateType) (nextId : ℕ) : Node × ℕ :=
  let (id, nextId) := generateId "gate" nextId
  (⟨id, .gate gateType, gateInputs gateType, gateOutputs⟩, nextId)

/-- A function block, and the counter after it. -/
def createFB (fbType : String) (inputPins outputPins : List Pin) (nextId : ℕ) : Node × ℕ :=
  let (id, nextId) := generateId "fb" nextId
  (⟨id, .fb fbType, inputPins, outputPins⟩, nextId)

/-! ### The registry of function blocks -/

/-- The names and the data types of the pins of a function block. -/
structure FbDef where
  inputs : List (String × String)
  outputs : List (String × String)
  deriving DecidableEq, Repr

def timer : FbDef := ⟨[("IN", "BOOL"), ("PT", "TIME")], [("Q", "BOOL"), ("ET", "TIME")]⟩

def trigger : FbDef := ⟨[("CLK", "BOOL")], [("Q", "BOOL")]⟩

def arithmetic : FbDef := ⟨[("IN1", "INT"), ("IN2", "INT")], [("OUT", "INT")]⟩

def comparison : FbDef := ⟨[("IN1", "INT"), ("IN2", "INT")], [("OUT", "BOOL")]⟩

/-- The known types of function blocks. -/
def registry : List (String × FbDef) :=
  [("TON", timer), ("TOF", timer), ("TP", timer),
    ("CTU", ⟨[("CU", "BOOL"), ("R", "BOOL"), ("PV", "INT")], [("Q", "BOOL"), ("CV", "INT")]⟩),
    ("CTD", ⟨[("CD", "BOOL"), ("LD", "BOOL"), ("PV", "INT")], [("Q", "BOOL"), ("CV", "INT")]⟩),
    ("CTUD", ⟨[("CU", "BOOL"), ("CD", "BOOL"), ("R", "BOOL"), ("LD", "BOOL"), ("PV", "INT")],
      [("QU", "BOOL"), ("QD", "BOOL"), ("CV", "INT")]⟩),
    ("SR", ⟨[("S1", "BOOL"), ("R", "BOOL")], [("Q1", "BOOL")]⟩),
    ("RS", ⟨[("S", "BOOL"), ("R1", "BOOL")], [("Q1", "BOOL")]⟩),
    ("R_TRIG", trigger), ("F_TRIG", trigger),
    ("ADD", arithmetic), ("SUB", arithmetic), ("MUL", arithmetic), ("DIV", arithmetic),
    ("MOVE", ⟨[("IN", "INT")], [("OUT", "INT")]⟩),
    ("EQ", comparison), ("GT", comparison), ("LT", comparison), ("GE", comparison),
    ("LE", comparison),
    ("SEL", ⟨[("G", "BOOL"), ("IN0", "INT"), ("IN1", "INT")], [("OUT", "INT")]⟩)]

/-- The pins of a function block whose type is not known. -/
def generic : FbDef := ⟨[("IN1", "BOOL"), ("IN2", "BOOL")], [("Q1", "BOOL"), ("Q2", "BOOL")]⟩

-- `String.prototype.toUpperCase`
variable (toUpperCase : String → String)

def getFbDef (fbType : String) : Option FbDef := registry.lookup (toUpperCase fbType)

/-- The pins of a function block. -/
def fbDef (fbType : String) : FbDef := (getFbDef toUpperCase fbType).getD generic

/-- The input pins of a function block. -/
def fbInputs (fbType : String) : List Pin :=
  (fbDef toUpperCase fbType).inputs.map fun d => createInputPin d.1 d.2

/-- The output pins of a function block. -/
def fbOutputs (fbType : String) : List Pin :=
  (fbDef toUpperCase fbType).outputs.map fun d => createOutputPin d.1 d.2

/-- A function block with the pins of its type, and the counter after it. -/
def createFbWithPins (fbType : String) (nextId : ℕ) : Node × ℕ :=
  createFB fbType (fbInputs toUpperCase fbType) (fbOutputs toUpperCase fbType) nextId

/-! ### The pins of the nodes that the editor makes -/

/-- The input pins of a kind of node. -/
def NodeKind.inputs : NodeKind → List Pin
  | .gate gateType => gateInputs gateType
  | .fb fbType => fbInputs toUpperCase fbType

/-- The output pins of a kind of node. -/
def NodeKind.outputs : NodeKind → List Pin
  | .gate _ => gateOutputs
  | .fb fbType => fbOutputs toUpperCase fbType

/-- The names of output pins. -/
def isOutputName (name : String) : Bool :=
  ["OUT", "Q", "ET", "CV", "QU", "QD", "Q1", "Q2"].contains name

/-- The pins of a definition have names that tell their directions. -/
def FbDef.TellsDirections (d : FbDef) : Prop :=
  (∀ p ∈ d.inputs, isOutputName p.1 = false) ∧ ∀ p ∈ d.outputs, isOutputName p.1 = true

instance (d : FbDef) : Decidable d.TellsDirections := inferInstanceAs (Decidable (_ ∧ _))

theorem registry_tellsDirections : ∀ d ∈ registry, d.2.TellsDirections := by decide

variable {toUpperCase}

theorem fbDef_tellsDirections (fbType : String) : (fbDef toUpperCase fbType).TellsDirections := by
  rw [fbDef, getFbDef]
  cases h : registry.lookup (toUpperCase fbType) with
  | none => decide
  | some d =>
      obtain ⟨l₁, l₂, heq, -⟩ := List.lookup_eq_some_iff.mp h
      exact registry_tellsDirections (toUpperCase fbType, d) (by rw [heq]; simp)

theorem gateInputs_tellDirections : ∀ gateType, ∀ p ∈ gateInputs gateType,
    p.direction = .input ∧ isOutputName p.name = false := by
  intro gateType
  cases gateType <;> decide

theorem fbInputs_tellDirections {fbType : String} {p : Pin}
    (h : p ∈ fbInputs toUpperCase fbType) :
    p.direction = .input ∧ isOutputName p.name = false := by
  obtain ⟨d, hd, rfl⟩ := List.mem_map.mp h
  exact ⟨rfl, (fbDef_tellsDirections fbType).1 d hd⟩

theorem fbOutputs_tellDirections {fbType : String} {p : Pin}
    (h : p ∈ fbOutputs toUpperCase fbType) :
    p.direction = .output ∧ isOutputName p.name = true := by
  obtain ⟨d, hd, rfl⟩ := List.mem_map.mp h
  exact ⟨rfl, (fbDef_tellsDirections fbType).2 d hd⟩

theorem NodeKind.of_mem_inputs {kind : NodeKind} {p : Pin} (h : p ∈ kind.inputs toUpperCase) :
    p.direction = .input ∧ isOutputName p.name = false := by
  cases kind with
  | gate gateType => exact gateInputs_tellDirections gateType p h
  | fb fbType => exact fbInputs_tellDirections h

theorem NodeKind.of_mem_outputs {kind : NodeKind} {p : Pin} (h : p ∈ kind.outputs toUpperCase) :
    p.direction = .output ∧ isOutputName p.name = true := by
  cases kind with
  | gate _ =>
      obtain rfl := List.mem_singleton.mp h
      exact ⟨rfl, by decide⟩
  | fb fbType => exact fbOutputs_tellDirections h

variable (toUpperCase) in
/-- The node has the pins of its kind. -/
def Node.Made (n : Node) : Prop :=
  n.inputPorts = n.kind.inputs toUpperCase ∧ n.outputPorts = n.kind.outputs toUpperCase

/-- The pin of a name, when it may be the source of a wire. -/
def Node.IsSource (n : Node) (name : String) : Prop :=
  ∃ p, n.findPin name = some p ∧ p.direction.isSource = true

/-- The pin of a name, when it may be the target of a wire. -/
def Node.IsTarget (n : Node) (name : String) : Prop :=
  ∃ p, n.findPin name = some p ∧ p.direction.isTarget = true

theorem Node.exists_findPin {n : Node} {p : Pin} (hp : p ∈ n.inputPorts ++ n.outputPorts) :
    ∃ q ∈ n.inputPorts ++ n.outputPorts, n.findPin p.name = some q ∧ q.name = p.name := by
  cases h : n.findPin p.name with
  | none => exact absurd (List.find?_eq_none.mp h p hp) (by simp)
  | some q => exact ⟨q, List.mem_of_find?_eq_some h, rfl, by simpa using List.find?_some h⟩

/-- The sources of wires at a node of the editor are its output pins. -/
theorem Node.Made.isSource_iff {n : Node} (hmade : n.Made toUpperCase) {name : String} :
    n.IsSource name ↔ name ∈ n.outputPorts.map Pin.name := by
  constructor
  · rintro ⟨p, hfind, hsource⟩
    have hname : p.name = name := by simpa using List.find?_some hfind
    rcases List.mem_append.mp (List.mem_of_find?_eq_some hfind) with hp | hp
    · rw [hmade.1] at hp
      rw [(NodeKind.of_mem_inputs hp).1] at hsource
      cases hsource
    · exact hname ▸ List.mem_map_of_mem hp
  · intro h
    obtain ⟨p, hp, rfl⟩ := List.mem_map.mp h
    obtain ⟨q, hq, hfind, hname⟩ := n.exists_findPin (List.mem_append_right _ hp)
    rw [hmade.2] at hp
    have hout := (NodeKind.of_mem_outputs hp).2
    rcases List.mem_append.mp hq with hq | hq
    · rw [hmade.1] at hq
      have hin := (NodeKind.of_mem_inputs hq).2
      rw [hname, hout] at hin
      cases hin
    · rw [hmade.2] at hq
      exact ⟨q, hfind, by rw [(NodeKind.of_mem_outputs hq).1]; rfl⟩

/-- The targets of wires at a node of the editor are its input pins. -/
theorem Node.Made.isTarget_iff {n : Node} (hmade : n.Made toUpperCase) {name : String} :
    n.IsTarget name ↔ name ∈ n.inputPorts.map Pin.name := by
  constructor
  · rintro ⟨p, hfind, htarget⟩
    have hname : p.name = name := by simpa using List.find?_some hfind
    rcases List.mem_append.mp (List.mem_of_find?_eq_some hfind) with hp | hp
    · exact hname ▸ List.mem_map_of_mem hp
    · rw [hmade.2] at hp
      rw [(NodeKind.of_mem_outputs hp).1] at htarget
      cases htarget
  · intro h
    obtain ⟨p, hp, rfl⟩ := List.mem_map.mp h
    obtain ⟨q, hq, hfind, hname⟩ := n.exists_findPin (List.mem_append_left _ hp)
    rw [hmade.1] at hp
    have hin := (NodeKind.of_mem_inputs hp).2
    rcases List.mem_append.mp hq with hq | hq
    · rw [hmade.1] at hq
      exact ⟨q, hfind, by rw [(NodeKind.of_mem_inputs hq).1]; rfl⟩
    · rw [hmade.2] at hq
      have hout := (NodeKind.of_mem_outputs hq).2
      rw [hname, hin] at hout
      cases hout

end Weftik.FbdEditor
