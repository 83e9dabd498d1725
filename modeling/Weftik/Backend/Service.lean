import Weftik.Backend.Checks

/-!
# The Studio Backend Service

Every call of a bridge function goes through `dispatch`: the rate limiter, the check of the
role, a lookup of the method in the bridge object, the validation of the parameters, the
call. What the role may do is decided by a list of method names, and the list misses some
functions of the bridge.

## Main definitions

* `Backend.executeNapiCall`, `Backend.dispatch`: the calls that are made, and the answer.
* `Backend.effects`: what the functions of the bridge change.
* `Backend.Gated`: only admitted and permitted calls are made.

## Main results

* `Backend.gated_iff`: the gate holds for all methods but the four that the list misses.
-/

namespace Weftik.Backend

/-- The bridge object: the functions by their names, with what they return or throw. -/
abbrev Bridge : Type := String → Option (List Value → Except String Value)

/-- A call of a function of the bridge. -/
structure Call where
  method : String
  args : List Value
  deriving DecidableEq, Repr

structure RpcError where
  code : ℤ
  message : String
  data : Option (String × String)
  deriving DecidableEq, Repr

/-- The answer to a request: what the function returned, or an error. -/
abbrev JsonRpcResult : Type := Except RpcError Value

/-! ### The call -/

/-- The arguments of a call: those that the method takes, validated, or for a method without
a case of its own all parameters as they are. -/
def validatedArgs (method : String) (params : List Value) : Except Thrown (List Value) :=
  let param (i : ℕ) := params.getD i .undefined
  match method with
  | "compileSt" | "compileIl" | "compileLd" | "compileFbd" | "compileSfc" | "compileGcode" => do
      let _ ← validateSource (param 0) "source"
      return [param 0]
  | "deployProgram" => do
      let _ ← validateNonEmptyString (param 0) "socketPath"
      let _ ← validateNonEmptyString (param 1) "secret"
      let _ ← validateNonEmptyString (param 2) "programJson"
      return [param 0, param 1, param 2]
  | "loadHalConfig" => do
      let _ ← validateNonEmptyString (param 0) "socketPath"
      let _ ← validateNonEmptyString (param 1) "secret"
      let _ ← validateNonEmptyString (param 2) "yaml"
      return [param 0, param 1, param 2]
  | "healthQuery" | "debugConnect" => do
      let _ ← validateNonEmptyString (param 0) "socketPath"
      let _ ← validateNonEmptyString (param 1) "secret"
      return [param 0, param 1]
  | "readSignal" => do
      let _ ← validateNonEmptyString (param 0) "socketPath"
      let _ ← validateNonEmptyString (param 1) "secret"
      let _ ← validateSignalName (param 2) "signalName"
      return [param 0, param 1, param 2]
  | "signalSnapshot" => do
      let _ ← validateNonEmptyString (param 0) "socketPath"
      let _ ← validateNonEmptyString (param 1) "secret"
      let _ ← validateString (param 2) "pattern"
      return [param 0, param 1, param 2]
  | "debugAddBreakpoint" | "debugRemoveBreakpoint" => do
      let _ ← validateNumber (param 0) "ip"
      return [param 0]
  | "debugGetBreakpoints" | "debugGetRegisters" | "debugGetState" | "debugDisconnect"
  | "debugPause" | "debugResume" | "debugStep" | "simDestroy" | "simStep" => return []
  | "openProject" => do
      let _ ← validateNonEmptyString (param 0) "projectPath"
      return [param 0]
  | "readProjectFile" => do
      let _ ← validateNonEmptyString (param 0) "filePath"
      return [param 0]
  | "simCreate" => do
      let _ ← validateNumber (param 0) "cycleMs"
      return [param 0]
  | _ => return params

/-- The calls that are made for a request, and what comes of it. -/
def executeNapiCall (bridge : Bridge) (method : String) (params : List Value) :
    List Call × Except Thrown Value :=
  match bridge method with
  | none => ([], .error (.other ("Unknown method: " ++ method)))
  | some fn =>
      match validatedArgs method params with
      | .error thrown => ([], .error thrown)
      | .ok args => ([⟨method, args⟩], (fn args).mapError .other)

/-- A text has another one in it. -/
def includesText (s part : String) : Bool :=
  s.toList.tails.any fun rest => part.toList.isPrefixOf rest

/-- The answer for what was thrown. -/
def handleError (thrown : Thrown) : RpcError :=
  let code : ℤ :=
    match thrown with
    | .validation _ => -32602
    | .rbac _ => -32000
    | .other _ => -32001
  let message := thrown.message
  match thrown with
  | .validation _ => ⟨code, message, none⟩
  | .rbac _ | .other _ =>
      if includesText message "CompileError" || includesText message "compilation" then
        ⟨-32002, message, some ("CompileError", message)⟩
      else if includesText message "IpcError" || includesText message "IPC" then
        ⟨-32003, message, some ("IpcError", message)⟩
      else ⟨code, message, none⟩

/-- What a request does. -/
structure Dispatched where
  buckets : Buckets
  calls : List Call
  result : JsonRpcResult

def dispatch (bridge : Bridge) (now : ℤ) (buckets : Buckets) (method : String)
    (params : List Value) (sessionId role : String) : Dispatched :=
  let (allowed, buckets) := checkRateLimit now sessionId method buckets
  if !allowed then ⟨buckets, [], .error ⟨-32000, "Rate limited: " ++ method, none⟩⟩
  else
    match checkRbac role method with
    | .error thrown => ⟨buckets, [], .error (handleError thrown)⟩
    | .ok () =>
        let (calls, outcome) := executeNapiCall bridge method params
        ⟨buckets, calls, outcome.mapError handleError⟩

/-! ### The functions of the bridge -/

/-- What a function of the bridge does besides answering. -/
inductive Effect
  | compile
  | deploy
  | configure
  | lifecycle
  | writeFile
  | debug
  | simulate
  deriving DecidableEq, Repr

/-- The functions of the bridge that do more than answer. -/
def effects : List (String × Effect) :=
  [("compileFbd", .compile), ("compileGcode", .compile), ("compileIl", .compile),
    ("compileLd", .compile), ("compileSfc", .compile), ("compileSt", .compile),
    ("controllerStart", .lifecycle), ("controllerStop", .lifecycle),
    ("debugAddBreakpoint", .debug), ("debugConnect", .debug), ("debugDisconnect", .debug),
    ("debugPause", .debug), ("debugRemoveBreakpoint", .debug), ("debugResume", .debug),
    ("debugStep", .debug), ("deployHmiLayout", .deploy), ("deployProgram", .deploy),
    ("loadHalConfig", .configure), ("saveHmiLayout", .writeFile), ("simCreate", .simulate),
    ("simDestroy", .simulate), ("simStep", .simulate)]

/-- The functions with an effect that the list of the role check misses. -/
def unlisted : List String :=
  ["controllerStart", "controllerStop", "deployHmiLayout", "saveHmiLayout"]

theorem mem_effects_iff {method : String} :
    method ∈ effects.map Prod.fst ↔ method ∈ writeMethods ∨ method ∈ unlisted := by
  have hperm : (effects.map Prod.fst).Perm (writeMethods ++ unlisted) := by decide
  rw [hperm.mem_iff, List.mem_append]

/-- No method is on both lists, and none of the second has a case of its own. -/
theorem validatedArgs_of_unlisted {method : String} (h : method ∈ unlisted)
    (params : List Value) : method ∉ writeMethods ∧ validatedArgs method params = .ok params := by
  simp only [unlisted, List.mem_cons, List.not_mem_nil, or_false] at h
  rcases h with rfl | rfl | rfl | rfl <;> exact ⟨by decide, rfl⟩

/-! ### The gate -/

/-- A function of the bridge is called only when the limiter admits the call and the role is
permitted, and one with an effect only for the two roles that may modify state. -/
def Gated (bridge : Bridge) (now : ℤ) (buckets : Buckets) (method : String)
    (params : List Value) (sessionId role : String) : Prop :=
  ∀ call ∈ (dispatch bridge now buckets method params sessionId role).calls,
    (checkRateLimit now sessionId method buckets).1 = true ∧ checkRbac role method = .ok () ∧
      (call.method ∈ effects.map Prod.fst → role = "Engineer" ∨ role = "Admin")

section

variable {bridge : Bridge} {now : ℤ} {buckets : Buckets} {method sessionId role : String}
  {params : List Value}

theorem mem_calls_executeNapiCall {call : Call}
    (h : call ∈ (executeNapiCall bridge method params).1) : call.method = method := by
  rw [executeNapiCall] at h
  split at h
  · cases h
  · split at h
    · cases h
    · obtain rfl := List.mem_singleton.mp h
      rfl

/-- A call that is made has passed the limiter and the check of the role. -/
theorem mem_calls_dispatch {call : Call}
    (h : call ∈ (dispatch bridge now buckets method params sessionId role).calls) :
    (checkRateLimit now sessionId method buckets).1 = true ∧ checkRbac role method = .ok () ∧
      call.method = method := by
  simp only [dispatch] at h
  split at h
  · cases h
  · rename_i hallowed
    split at h
    · cases h
    · rename_i hrbac
      exact ⟨by simpa using hallowed, hrbac, mem_calls_executeNapiCall h⟩

/-- A request for a function that the list misses is passed through. -/
theorem calls_dispatch_of_unlisted {fn : List Value → Except String Value}
    (hmethod : method ∈ unlisted) (hfn : bridge method = some fn)
    (hallowed : (checkRateLimit now sessionId method buckets).1 = true) :
    (dispatch bridge now buckets method params sessionId role).calls = [⟨method, params⟩] := by
  obtain ⟨hunlisted, hargs⟩ := validatedArgs_of_unlisted hmethod params
  have hrbac : checkRbac role method = .ok () :=
    checkRbac_eq_ok_iff.mpr fun hwrite => absurd hwrite hunlisted
  simp only [dispatch, hallowed, hrbac, executeNapiCall, hfn, hargs]
  rfl

end

/-- The gate holds unless one of the four methods is requested that the list of the role
check misses, the bridge has it, the limiter admits the call, and the role is another one. -/
theorem gated_iff (bridge : Bridge) (now : ℤ) (buckets : Buckets) (method : String)
    (params : List Value) (sessionId role : String) :
    Gated bridge now buckets method params sessionId role ↔
      method ∉ unlisted ∨ bridge method = none ∨
        (checkRateLimit now sessionId method buckets).1 = false ∨
          role = "Engineer" ∨ role = "Admin" := by
  constructor
  · intro h
    by_contra hnot
    simp only [not_or, not_not, Bool.not_eq_false] at hnot
    obtain ⟨hmethod, hfn, hallowed, hrole⟩ := hnot
    obtain ⟨fn, hfn⟩ := Option.ne_none_iff_exists'.mp hfn
    have hcall := h ⟨method, params⟩ (by
      rw [calls_dispatch_of_unlisted hmethod hfn hallowed]
      exact List.mem_singleton_self _)
    rcases hcall.2.2 (mem_effects_iff.mpr (Or.inr hmethod)) with hengineer | hadmin
    · exact hrole.1 hengineer
    · exact hrole.2 hadmin
  · intro h call hcall
    obtain ⟨hallowed, hrbac, hmethod⟩ := mem_calls_dispatch hcall
    refine ⟨hallowed, hrbac, fun heffect => ?_⟩
    rw [hmethod] at heffect
    rcases mem_effects_iff.mp heffect with hwrite | hunlisted
    · exact checkRbac_eq_ok_iff.mp hrbac hwrite
    · rcases h with h | h | h | h
      · exact absurd hunlisted h
      · simp only [dispatch, hallowed, hrbac, executeNapiCall, h] at hcall
        cases hcall
      · rw [hallowed] at h
        cases h
      · exact h

/-- Anyone may stop the controller. -/
theorem viewer_stops_controller :
    ∃ bridge : Bridge, (dispatch bridge 0 (fun _ => none) "controllerStop" [] "s" "Viewer").calls =
        [⟨"controllerStop", []⟩] ∧
      ¬Gated bridge 0 (fun _ => none) "controllerStop" [] "s" "Viewer" := by
  let bridge : Bridge := fun method =>
    if method = "controllerStop" then some fun _ => .ok (.string "\x7b\"status\":\"stopped\"\x7d")
    else none
  have hfn : bridge "controllerStop" =
      some fun _ => .ok (.string "\x7b\"status\":\"stopped\"\x7d") := if_pos rfl
  have hcalls : (dispatch bridge 0 (fun _ => none) "controllerStop" [] "s" "Viewer").calls =
      [⟨"controllerStop", []⟩] := calls_dispatch_of_unlisted (by decide) hfn rfl
  refine ⟨bridge, hcalls, fun h => ?_⟩
  have hcall := h ⟨"controllerStop", []⟩ (by rw [hcalls]; exact List.mem_singleton_self _)
  exact absurd (hcall.2.2 (by decide)) (by decide)

end Weftik.Backend
