import Weftik.HalValue
import Weftik.Platform

/-!
# The Syntax and the Types of Structured Text

Expressions, statements and programs as the parser hands them to the code generator, which
checks the types of assignments and of conditions before it compiles them. All integer
literals have the type `INT`, and `INT` is compatible with every integer type.

## Main definitions

* `VarType`: the types of variables.
* `Expr`, `Statement`, `Program`: the abstract syntax.
* `CodegenError`, `Abort`: the errors of the code generator, and the ways it does not return
  a program.
* `typeOfExpr`, `checkAssign`, `checkCondition`: the checks.
* `VarType.zero`, `VarType.pinType`: the HAL type of a variable.
-/

namespace Weftik.St

/-- The types of variables. The last ten are function blocks. -/
inductive VarType
  | int | real | bool | dInt | lReal | byte | word | dWord | sInt | usInt | uInt | ulInt | lInt
  | time | date | tod | dt | string | array
  | ton | tof | tp | ctu | ctd | ctud | sr | rs | rTrig | fTrig
  deriving DecidableEq, Repr

/-- The binary operators. -/
inductive BinOp
  | add | sub | mul | div | eq | neq | gt | lt | gte | lte | and | or | mod | xor
  deriving DecidableEq, Repr

/-- The unary operators. -/
inductive UnaryOp
  | neg | not
  deriving DecidableEq, Repr

variable (P : Platform)

/-- An expression. -/
inductive Expr
  | intLiteral (n : Int64)
  | realLiteral (x : P.F64)
  | boolLiteral (b : Bool)
  | variable (name : String)
  | binary (left : Expr) (op : BinOp) (right : Expr)
  | unary (op : UnaryOp) (inner : Expr)
  | arrayAccess (name : String) (index : Expr)
  | fieldAccess (name field : String)
  deriving DecidableEq

/-- A statement. A case has the values for which its statements are executed. -/
inductive Statement
  | assign (name : String) (value : Expr P)
  | ifThenElse (condition : Expr P) (thenBody elseBody : List Statement)
  | whileDo (condition : Expr P) (body : List Statement)
  | forTo (var : String) (start stop : Expr P) (step : Option (Expr P))
      (body : List Statement)
  | caseOf (var : String) (cases : List (List Int64 × List Statement))
      (elseBody : List Statement)
  | repeatUntil (body : List Statement) (condition : Expr P)
  | return
  | exit
  | funCall (name : String) (args : List (Expr P))
  | arrayAssign (name : String) (index value : Expr P)

/-- A variable declaration. The bounds of arrays and the lengths of strings, which the code
generator does not read, are left out. -/
structure Variable where
  name : String
  varType : VarType
  deriving DecidableEq, Repr

/-- A function definition. The code generator reads its name and its body only. -/
structure FunctionDef where
  name : String
  body : List (Statement P)

/-- A program. -/
structure Program where
  name : String
  vars : List Variable
  body : List (Statement P)
  functions : List (FunctionDef P)

/-! ### The type checks -/

variable {P : Platform}

/-- The errors of the code generator. -/
inductive CodegenError
  | undefinedVariable (name : String)
  | tooManyVariables (max : ℕ)
  | typeMismatch (expected got : VarType) (context : String)
  deriving DecidableEq, Repr

/-- Why the code generator returns no program. -/
inductive Abort
  | error (e : CodegenError)
  | panic (p : Panic)
  deriving DecidableEq, Repr

/-- The name of an operator in a message. -/
def BinOp.debugName : BinOp → String
  | .add => "Add"
  | .sub => "Sub"
  | .mul => "Mul"
  | .div => "Div"
  | .eq => "Eq"
  | .neq => "Neq"
  | .gt => "Gt"
  | .lt => "Lt"
  | .gte => "Gte"
  | .lte => "Lte"
  | .and => "And"
  | .or => "Or"
  | .mod => "Mod"
  | .xor => "Xor"

/-- The comparisons. -/
def BinOp.isCmp : BinOp → Bool
  | .eq | .neq | .gt | .lt | .gte | .lte => true
  | _ => false

namespace VarType

/-- The integer types, and the types of times and dates. -/
def isInteger : VarType → Bool
  | .int | .dInt | .sInt | .usInt | .uInt | .ulInt | .lInt | .byte | .word | .dWord | .time
  | .date | .tod | .dt => true
  | _ => false

/-- Equal types are compatible, `INT` with every integer type, and the two real types with
each other. -/
def compatible (a b : VarType) : Bool :=
  a = b || (a = .int && b.isInteger) || (b = .int && a.isInteger) ||
    (a = .real && b = .lReal) || (a = .lReal && b = .real)

/-- The zero that is added to a variable to copy it. -/
def zero : VarType → HalValue P
  | .bool => .bool false
  | .sInt => .s8 0
  | .usInt | .byte => .u8 0
  | .int => .s16 0
  | .uInt | .word => .u16 0
  | .dInt | .time => .s32 0
  | .ulInt | .dWord | .date | .tod | .dt => .u32 0
  | .lInt => .s64 0
  | .real => .f32 P.f32.zero
  | .lReal => .f64 P.f64.zero
  | .string => .string ""
  | .array => .array .s32 []
  | .ton | .tof | .tp | .ctu | .ctd | .ctud | .sr | .rs | .rTrig | .fTrig => .u32 0

/-- The type of the signal of a variable. -/
def pinType : VarType → HalPinType
  | .bool => .bool
  | .sInt => .s8
  | .usInt | .byte => .u8
  | .int => .s16
  | .uInt | .word => .u16
  | .dInt | .time => .s32
  | .ulInt | .dWord | .date | .tod | .dt => .u32
  | .lInt => .s64
  | .real => .f32
  | .lReal => .f64
  | .string => .string
  | .array => .blob
  | .ton | .tof | .tp | .ctu | .ctd | .ctud | .sr | .rs | .rTrig | .fTrig => .u32

/-- The type of an element of an array, or of another variable with an index. -/
def element : VarType → VarType
  | .array => .int
  | vt => vt

/-- The type of a field of a function block, or of another variable with a field. -/
def field : VarType → VarType
  | .ton | .tof | .tp | .ctu | .ctd | .ctud | .sr | .rs | .rTrig | .fTrig => .bool
  | vt => vt

/-- The types that have a negation. -/
def hasNeg : VarType → Bool
  | .int | .real | .dInt | .lReal => true
  | _ => false

end VarType

/-- The type of a variable. -/
def varType (varTypes : String → Option VarType) (name : String) : Except CodegenError VarType :=
  match varTypes name with
  | some vt => pure vt
  | none => .error (.undefinedVariable name)

/-- The type of an expression. -/
def typeOfExpr (varTypes : String → Option VarType) : Expr P → Except CodegenError VarType
  | .intLiteral _ => pure .int
  | .realLiteral _ => pure .real
  | .boolLiteral _ => pure .bool
  | .variable name => varType varTypes name
  | .arrayAccess name _ => VarType.element <$> varType varTypes name
  | .fieldAccess name _ => VarType.field <$> varType varTypes name
  | .binary left op right => do
      let lt ← typeOfExpr varTypes left
      let rt ← typeOfExpr varTypes right
      if op.isCmp || op = .and || op = .or then
        if (op = .and || op = .or) && (lt != .bool || rt != .bool) then
          .error (.typeMismatch .bool (if lt ≠ .bool then lt else rt)
            ("logic '" ++ op.debugName ++ "'"))
        else pure .bool
      else if op = .xor then
        if !lt.compatible rt then
          .error (.typeMismatch rt lt ("bitwise '" ++ op.debugName ++ "'"))
        else pure lt
      else if !lt.compatible rt then
        .error (.typeMismatch lt rt ("binary '" ++ op.debugName ++ "'"))
      else pure lt
  | .unary .neg inner => do
      let t ← typeOfExpr varTypes inner
      if !t.hasNeg then .error (.typeMismatch .int t "negation") else pure t
  | .unary .not inner => do
      let t ← typeOfExpr varTypes inner
      if !t.isInteger && t != .bool then .error (.typeMismatch .int t "NOT") else pure t

/-- The check of an assignment. A literal is accepted for every type of its kind. -/
def checkAssign (varTypes : String → Option VarType) (name : String) (value : Expr P) :
    Except CodegenError Unit := do
  let expected ← varType varTypes name
  let context := "assign to '" ++ name ++ "'"
  match value with
  | .intLiteral _ =>
      if !expected.isInteger then .error (.typeMismatch expected .int context) else pure ()
  | .realLiteral _ =>
      if expected ≠ .real ∧ expected ≠ .lReal then
        .error (.typeMismatch expected .real context)
      else pure ()
  | value =>
      let got ← typeOfExpr varTypes value
      if !got.compatible expected then .error (.typeMismatch expected got context)
      else pure ()

/-- The check of a condition. -/
def checkCondition (varTypes : String → Option VarType) (expr : Expr P) (context : String) :
    Except CodegenError Unit := do
  let t ← typeOfExpr varTypes expr
  if t ≠ .bool then .error (.typeMismatch .bool t context) else pure ()

/-- The check of the variable of a `FOR`. -/
def checkForVariable (varTypes : String → Option VarType) (var : String) :
    Except CodegenError Unit := do
  let vt ← varType varTypes var
  if vt ≠ .int ∧ vt ≠ .dInt then
    .error (.typeMismatch .int vt ("FOR variable '" ++ var ++ "'"))
  else pure ()

end Weftik.St
