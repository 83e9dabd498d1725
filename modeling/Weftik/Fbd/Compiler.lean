import Weftik.Lib.SortedMap
import Weftik.Lib.Text
import Weftik.Platform

/-!
# The FBD Compiler

A text of function blocks and wires becomes Instruction List text. `BLOCK name KIND`
declares a block; `block.pin := source` wires one of its inputs; `target := block.pin` and
`target := source` assign an output. The generated text wires and calls the blocks one
after another, with the pins of a block in alphabetical order, and then has the outputs,
block by block.

## Main definitions

* `FbBlock`: a block with its wires.
* `parseLine`, `parseBlocks`: the blocks of a text.
* `generateIl`, `fbdCompile`: the Instruction List text.
* `assignment?`: the assignment on a line.
-/

namespace Weftik.Fbd

/-- The kinds of standard function blocks. -/
inductive FbKind
  | ton | tof | tp | ctu | ctd | ctud | sr | rs | rTrig | fTrig
  deriving DecidableEq, Repr

/-- The kind with the given name. -/
def FbKind.fromStr : String → Option FbKind
  | "TON" => some .ton
  | "TOF" => some .tof
  | "TP" => some .tp
  | "CTU" => some .ctu
  | "CTD" => some .ctd
  | "CTUD" => some .ctud
  | "SR" => some .sr
  | "RS" => some .rs
  | "R_TRIG" => some .rTrig
  | "F_TRIG" => some .fTrig
  | _ => none

/-- The name of a kind in Instruction List. -/
def FbKind.ilName : FbKind → String
  | .ton => "TON"
  | .tof => "TOF"
  | .tp => "TP"
  | .ctu => "CTU"
  | .ctd => "CTD"
  | .ctud => "CTUD"
  | .sr => "SR"
  | .rs => "RS"
  | .rTrig => "R_TRIG"
  | .fTrig => "F_TRIG"

/-- A function block: the sources of its input pins, and the pins of its output targets. -/
structure FbBlock where
  name : String
  kind : FbKind
  inputs : SortedMap String String
  outputs : SortedMap String String

/-! ### The parser -/

/-- The lines of a text, without the empty ones and the comments. -/
def tokenize (P : Platform) (source : String) : List String :=
  ((Text.lines source.toList).map (Text.trim P.white)).filterMap fun line =>
    if line = [] ∨ line.head? = some ';' ∨ line.take 2 = ['/', '/'] then none
    else some (String.ofList line)

/-- The two sides of an assignment, trimmed. -/
def parseAssignment (P : Platform) (line : List Char) : Option (String × String) :=
  (Text.splitOnce [':', '='] line).map fun p =>
    (String.ofList (Text.trim P.white p.1), String.ofList (Text.trim P.white p.2))

/-- The parts of a name before and after its first dot. -/
def splitDot (s : String) : Option (String × String) :=
  (Text.splitOnce ['.'] s.toList).map fun p => (String.ofList p.1, String.ofList p.2)

/-- The blocks with the first one of the given name changed. -/
def updateBlock (name : String) (f : FbBlock → FbBlock) : List FbBlock → Option (List FbBlock)
  | [] => none
  | b :: blocks =>
      if b.name = name then some (f b :: blocks)
      else (updateBlock name f blocks).map (b :: ·)

/-- The blocks so far, and the output assignments so far with their sources. -/
structure Parsed where
  blocks : List FbBlock
  outputs : List (String × String)

/-- One more `BLOCK` line; `rest` is what follows the keyword. -/
def parseBlock (P : Platform) (s : Parsed) (line : String) (rest : List Char) :
    Except String Parsed :=
  match (Text.words P.white rest).map String.ofList with
  | name :: kindStr :: _ =>
      match FbKind.fromStr kindStr with
      | none => .error ("unknown block kind: " ++ kindStr)
      | some kind =>
          if s.blocks.any (·.name == name) then .error ("duplicate block name: " ++ name)
          else .ok { s with blocks := s.blocks ++ [⟨name, kind, .empty, .empty⟩] }
  | _ => .error ("malformed BLOCK statement: " ++ line)

/-- One more assignment. -/
def parseWiring (s : Parsed) (lhs rhs : String) : Except String Parsed :=
  match splitDot lhs with
  | some (blockName, pin) =>
      match updateBlock blockName (fun b => { b with inputs := b.inputs.insert pin rhs })
          s.blocks with
      | some blocks => .ok { s with blocks := blocks }
      | none => .error ("unknown block in wiring: " ++ blockName)
  | none =>
      match splitDot rhs with
      | some (srcBlock, srcPin) =>
          if s.blocks.any (·.name == lhs) then
            .error ("invalid wiring: lhs '" ++ lhs ++
              "' is a block name, expected output variable")
          else if s.blocks.any (·.name == srcBlock) then
            .ok { s with outputs := s.outputs ++ [(lhs, srcBlock ++ "." ++ srcPin)] }
          else .error ("unknown block in output wiring: " ++ srcBlock)
      | none => .ok { s with outputs := s.outputs ++ [(lhs, rhs)] }

/-- One more line. -/
def parseLine (P : Platform) (s : Parsed) (line : String) : Except String Parsed :=
  let trimmed := line.toList.rdropWhile P.white
  if trimmed = [] then .ok s
  else
    match "BLOCK ".toList.isPrefixOf? trimmed with
    | some rest => parseBlock P s (String.ofList trimmed) rest
    | none =>
        match parseAssignment P trimmed with
        | some (lhs, rhs) => parseWiring s lhs rhs
        | none => .error ("unrecognized statement: " ++ String.ofList trimmed)

/-- The blocks with one output assignment stored at the block of its source. An assignment
whose source is no pin of a block is stored nowhere. -/
def storeOutput (blocks : List FbBlock) (output : String × String) : List FbBlock :=
  match splitDot output.2 with
  | some (srcBlock, srcPin) =>
      (updateBlock srcBlock (fun b => { b with outputs := b.outputs.insert output.1 srcPin })
        blocks).getD blocks
  | none => blocks

/-- The blocks of some lines. -/
def parseBlocks (P : Platform) (lines : List String) : Except String (List FbBlock) := do
  let parsed ← lines.foldlM (parseLine P) ⟨[], []⟩
  let blocks := parsed.outputs.foldl storeOutput parsed.blocks
  if blocks = [] then .error "no function blocks found" else .ok blocks

/-! ### The generator -/

/-- The lines of a block: its inputs, and its call. -/
def blockLines (b : FbBlock) : List String :=
  ("; BLOCK " ++ b.name ++ " " ++ b.kind.ilName) ::
    (b.inputs.entries.flatMap fun e => ["LD " ++ e.2, "ST " ++ b.name ++ "." ++ e.1]) ++
    ["CAL " ++ b.name]

/-- The lines of the outputs of a block, each after an empty line. -/
def outputLines (b : FbBlock) : List String :=
  b.outputs.entries.flatMap fun e =>
    ["", "; Output " ++ e.1, "LD " ++ b.name ++ "." ++ e.2, "ST " ++ e.1]

/-- The lines of the generated text, with an empty line between two blocks. -/
def ilLines (blocks : List FbBlock) : List String :=
  [""].intercalate (blocks.map blockLines) ++ blocks.flatMap outputLines

/-- The Instruction List text of some blocks. -/
def generateIl (P : Platform) (blocks : List FbBlock) : String :=
  String.ofList (((ilLines blocks).flatMap fun line => line.toList ++ ['\n']).rdropWhile P.white)

/-- Compile a text of function blocks to Instruction List text. -/
def fbdCompile (P : Platform) (source : String) : Except String String := do
  let lines := tokenize P source
  if lines = [] then .error "empty FBD source"
  else
    let blocks ← parseBlocks P lines
    .ok (generateIl P blocks)

example : fbdCompile .exact
    "// timer\nBLOCK t TON\nt.PT := 500\nt.IN := x\nr := t.Q\nq := x" =
    .ok ("; BLOCK t TON\nLD x\nST t.IN\nLD 500\nST t.PT\nCAL t\n" ++
      "\n; Output r\nLD t.Q\nST r") := by
  decide

end Weftik.Fbd
