import Mathlib

/-!
# The Checks of the Studio Backend

Before the backend calls a function of the bridge it takes a token from the bucket of the
session, looks up what the role may do, and validates the parameters. A check that fails
throws.

## Main definitions

* `Backend.Value`: a parameter of a call.
* `Backend.checkRateLimit`: the token buckets.
* `Backend.checkRbac`: the roles.
* `Backend.validateSource`, `validateSignalName`, `validateNumber`: the validators.

## Main results

* `Backend.checkRbac_eq_ok_iff`: who may call what.
-/

namespace Weftik.Backend

/-- A JavaScript value; a number that is not finite has no value, and what an object has in
it is not looked at. -/
inductive Value
  | undefined
  | null
  | boolean (b : Bool)
  | number (value : Option ℚ)
  | string (s : String)
  | object
  deriving DecidableEq, Repr

/-- The operator `typeof`. -/
def Value.typeof : Value → String
  | .undefined => "undefined"
  | .null => "object"
  | .boolean _ => "boolean"
  | .number _ => "number"
  | .string _ => "string"
  | .object => "object"

/-- What the checks and the bridge throw. -/
inductive Thrown
  | validation (message : String)
  | rbac (message : String)
  | other (message : String)
  deriving DecidableEq, Repr

/-- The message of the error. -/
def Thrown.message : Thrown → String
  | .validation message | .rbac message | .other message => message

/-! ### The rate limiter -/

structure TokenBucket where
  tokens : ℤ
  lastRefill : ℤ
  deriving DecidableEq, Repr

/-- The classes of methods that have buckets of their own. -/
inductive LimitClass
  | compile
  | signal
  | default
  deriving DecidableEq, Repr

/-- The calls that a class admits in a minute. -/
def LimitClass.limit : LimitClass → ℤ
  | .compile => 10
  | .signal => 1000
  | .default => 100

def LimitClass.name : LimitClass → String
  | .compile => "compile"
  | .signal => "signal"
  | .default => "default"

/-- The class of a method. -/
def getLimitForMethod (method : String) : LimitClass :=
  if method.startsWith "compile" then .compile
  else if method = "readSignal" ∨ method = "signalSnapshot" then .signal
  else .default

/-- The buckets by their keys. -/
abbrev Buckets : Type := String → Option TokenBucket

/-- The key of a bucket. -/
def bucketKey (sessionId method : String) : String :=
  sessionId ++ ":" ++ (getLimitForMethod method).name

/-- A bucket with the tokens of the minutes that have passed. -/
def TokenBucket.refill (bucket : TokenBucket) (limit now : ℤ) : TokenBucket :=
  let refill := (now - bucket.lastRefill) / 60000 * limit
  if 0 < refill then ⟨min limit (bucket.tokens + refill), now⟩ else bucket

/-- Whether the call is admitted, and the buckets after it. -/
def checkRateLimit (now : ℤ) (sessionId method : String) (buckets : Buckets) : Bool × Buckets :=
  let limit := (getLimitForMethod method).limit
  let store (bucket : TokenBucket) : Buckets := fun key =>
    if key = bucketKey sessionId method then some bucket else buckets key
  match buckets (bucketKey sessionId method) with
  | none => (true, store ⟨limit - 1, now⟩)
  | some bucket =>
      let bucket := bucket.refill limit now
      if 0 < bucket.tokens then (true, store { bucket with tokens := bucket.tokens - 1 })
      else (false, store bucket)

/-! ### The roles -/

inductive Role
  | engineer
  | operator
  | hmi
  | viewer
  | auditor
  | admin
  deriving DecidableEq, Repr

/-- The name of a role in a request. -/
def Role.name : Role → String
  | .engineer => "Engineer"
  | .operator => "Operator"
  | .hmi => "HMI"
  | .viewer => "Viewer"
  | .auditor => "Auditor"
  | .admin => "Admin"

/-- All roles, in the order of their declaration. -/
def Role.values : List Role := [.engineer, .operator, .hmi, .viewer, .auditor, .admin]

/-- The role of a request; a name that is none is that of a viewer. -/
def resolveRole (role : String) : Role :=
  (Role.values.find? fun r => r.name == role).getD .viewer

/-- The methods that modify state. -/
def writeMethods : List String :=
  ["compileFbd", "compileGcode", "compileIl", "compileLd", "compileSfc", "compileSt",
    "debugAddBreakpoint", "debugConnect", "debugDisconnect", "debugPause",
    "debugRemoveBreakpoint", "debugResume", "debugStep", "deployProgram", "loadHalConfig",
    "simCreate", "simDestroy", "simStep"]

/-- The roles that may modify state. -/
def writeRoles : List Role := [.engineer, .admin]

/-- The roles that may query it. -/
def readRoles : List Role := [.engineer, .admin, .operator, .hmi, .viewer, .auditor]

def checkRbac (role method : String) : Except Thrown Unit :=
  let denied : Thrown := .rbac ("RBAC denied: role \"" ++ (resolveRole role).name ++
    "\" is not authorized to call \"" ++ method ++ "\"")
  if method ∈ writeMethods then
    if resolveRole role ∈ writeRoles then .ok () else .error denied
  else if resolveRole role ∈ readRoles then .ok () else .error denied

/-- The roles that may modify state are requested by their names. -/
theorem resolveRole_mem_writeRoles {role : String} :
    resolveRole role ∈ writeRoles ↔ role = "Engineer" ∨ role = "Admin" := by
  constructor
  · intro h
    rw [resolveRole] at h
    cases hfind : Role.values.find? fun r => r.name == role with
    | none =>
        rw [hfind] at h
        exact absurd h (by decide)
    | some r =>
        rw [hfind, Option.getD_some] at h
        have hname : r.name = role := by simpa using List.find?_some hfind
        have hnames : ∀ r ∈ writeRoles, r.name = "Engineer" ∨ r.name = "Admin" := by decide
        exact hname ▸ hnames r h
  · rintro (rfl | rfl) <;> decide

/-- Everybody may call what is not listed. -/
theorem checkRbac_eq_ok_iff {role method : String} :
    checkRbac role method = .ok () ↔
      (method ∈ writeMethods → role = "Engineer" ∨ role = "Admin") := by
  have hread : resolveRole role ∈ readRoles := by
    cases resolveRole role <;> decide
  rw [← resolveRole_mem_writeRoles, checkRbac]
  by_cases hwrite : method ∈ writeMethods
  · by_cases hrole : resolveRole role ∈ writeRoles
    · simp [hwrite, hrole]
    · simp [hwrite, hrole]
  · simp [hwrite, hread]

/-! ### The validators -/

def validateString (value : Value) (paramName : String) : Except Thrown String :=
  match value with
  | .string s => .ok s
  | _ => .error (.validation (paramName ++ ": expected string, got " ++ value.typeof))

def validateNonEmptyString (value : Value) (paramName : String) : Except Thrown String := do
  let s ← validateString value paramName
  if s = "" then .error (.validation (paramName ++ ": must not be empty")) else .ok s

/-- One mebibyte. -/
def sourceMaxBytes : ℕ := 1048576

def validateSource (source : Value) (paramName : String) : Except Thrown String := do
  let s ← validateNonEmptyString source paramName
  if sourceMaxBytes < s.utf8ByteSize then
    .error (.validation (paramName ++ ": exceeds 1MB limit"))
  else .ok s

def isLower (c : Char) : Bool := 'a' ≤ c ∧ c ≤ 'z'

def isDigit (c : Char) : Bool := '0' ≤ c ∧ c ≤ '9'

/-- A lower-case letter, and then characters of a class. -/
def matchesPart (rest : Char → Bool) : List Char → Bool
  | [] => false
  | c :: cs => isLower c && cs.all rest

/-- The pattern `component.interface.name`. None of its classes has a dot, so that the parts
are those between the dots. -/
def matchesSignalName (name : String) : Bool :=
  match name.toList.splitOn '.' with
  | [component, interface, last] =>
      matchesPart (fun c => isLower c || isDigit c) component &&
        matchesPart (fun c => isLower c || isDigit c) interface &&
        matchesPart (fun c => isLower c || isDigit c || c == '_') last
  | _ => false

def validateSignalName (name : Value) (paramName : String) : Except Thrown String := do
  let s ← validateString name paramName
  if matchesSignalName s then .ok s
  else .error (.validation (paramName ++ ": must match pattern \"component.interface.name\" " ++
    "(e.g. \"axis.0.pos\"), got \"" ++ s ++ "\""))

def validateNumber (value : Value) (paramName : String) : Except Thrown ℚ :=
  match value with
  | .number (some n) => .ok n
  | _ => .error (.validation (paramName ++ ": expected finite number, got " ++ value.typeof))

end Weftik.Backend
