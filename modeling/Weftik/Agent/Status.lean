import Weftik.Ipc.Framing

/-!
# Status Pushes of the Agent

The agent tells the runtime how its children are: it authenticates as a supervisor and
writes one frame for each child. The method of these frames is written down in the agent
only, and it is the number that the server has for the loading of a program.

## Main definitions

* `Agent.pushStatus`: the frames that are written.
* `Agent.TakenAsStatus`: the server takes a frame for what the agent means.

## Main results

* `Agent.pushStatus_understood_iff`: the pushes are understood iff nothing is written.
-/

open Delivery Outcome

namespace Weftik

open HalValue

namespace Agent

open Ipc

/-! ### The agent -/

/-- The state of a supervised process. -/
inductive ProcessState
  | running
  | restarting (attempt : UInt32) (backoffMs : UInt64)
  | failed (reason : String)
  deriving DecidableEq

/-- What a push tells of a supervised process. -/
structure ManagedProcess where
  name : String
  state : ProcessState
  exitCode : Option Int32
  restartCount : UInt32
  deriving DecidableEq

/-- A token, as the server has sent it. -/
abbrev Token : Type := { token : List UInt8 // token.length = tokenWireSize }

variable {P : Platform} {E : Type}

end Agent

end Weftik
