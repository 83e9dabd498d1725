import Weftik.Ld.PowerFlow

/-!
# The Scan Cycle of a Ladder

The rungs of a ladder are evaluated from top to bottom. All contacts of a rung see the
same values; the coils are energized by the power of the rung, and what they write is seen
by the next rung.

## Main definitions

* `VarStore`: the values of the variables.
* `Coil.energized`: what a coil writes.
* `evaluateCycle`: one scan of all rungs.

## Main results

* `cycleRung_ok`: a rung whose network evaluates to a power writes its coils.
-/

namespace Weftik.Ld

/-- The kinds of coil. -/
inductive CoilKind
  | out | set | reset | negated
  deriving DecidableEq, Repr

/-- A coil. -/
structure Coil where
  var : String
  kind : CoilKind
  deriving DecidableEq, Repr

/-- The values of the variables. -/
structure VarStore where
  values : String → Option Bool

namespace VarStore

/-- The value of a variable; one that is not in the store is `FALSE`. -/
def getBool (vars : VarStore) (var : String) : Bool := (vars.values var).getD false

/-- Set the value of a variable. -/
def setBool (vars : VarStore) (var : String) (value : Bool) : VarStore :=
  ⟨Function.update vars.values var (some value)⟩

/-- The values for the contacts of a rung. -/
def snapshot (vars : VarStore) : InputSnapshot := ⟨vars.values⟩

end VarStore

/-! ### Reports -/

/-- The contact types of a report. -/
inductive ContactType
  | no | nc
  deriving DecidableEq, Repr

/-- The report of a contact. -/
structure ContactState where
  contactId : String
  contactType : ContactType
  isClosed : Bool
  deriving DecidableEq, Repr

/-- The coil types of a report. -/
inductive CoilType
  | normal | negated | set | reset
  deriving DecidableEq, Repr

/-- The report of a coil. -/
structure CoilState where
  coilId : String
  coilType : CoilType
  energized : Bool
  deriving DecidableEq, Repr

/-- The report of a rung. -/
structure RungState where
  rungId : String
  contactStates : List ContactState
  coilStates : List CoilState
  deriving DecidableEq, Repr

/-- The report of a scan. -/
structure PowerFlowResult where
  rungStates : List RungState
  poweredCoils : List String
  deriving DecidableEq, Repr

/-- The report of a contact: one that detects edges is reported like one that does not. -/
def Contact.state (snapshot : InputSnapshot) (c : Contact) : ContactState :=
  ⟨c.varName,
    match c with
    | .no _ | .posEdge _ => .no
    | .nc _ | .negEdge _ => .nc,
    c.isClosed snapshot⟩

/-- The value that a coil writes. -/
def Coil.energized (power : Bool) (vars : VarStore) (coil : Coil) : Bool :=
  match coil.kind with
  | .out => power
  | .negated => !power
  | .set => if power then true else vars.getBool coil.var
  | .reset => if power then false else vars.getBool coil.var

/-- The report of a coil. -/
def Coil.state (power : Bool) (vars : VarStore) (coil : Coil) : CoilState :=
  ⟨coil.var,
    match coil.kind with
    | .out => .normal
    | .negated => .negated
    | .set => .set
    | .reset => .reset,
    coil.energized power vars⟩

/-! ### The scan -/

/-- A rung: its network and its coils. -/
structure RungDef where
  id : String
  network : ContactNetwork
  coils : List Coil

/-- The state between two rungs of a scan. -/
structure CycleState where
  vars : VarStore
  edgeState : EdgeState
  rungs : List RungDef
  rungStates : List RungState
  poweredCoils : List String

/-- Evaluate one rung. Every coil is computed from the values before the rung, and then
they are written one after another. -/
def cycleRung (fuel : ℕ) (s : CycleState) (rung : RungDef) :
    Option (Except Panic CycleState) :=
  (evaluatePowerFlow fuel rung.network s.vars.snapshot s.edgeState).map fun o => do
    let (power, network, es) ← o
    let contactStates := network.edges.map fun e => e.contact.state s.vars.snapshot
    let coilStates := rung.coils.map fun c => c.state power s.vars
    pure
      { vars := coilStates.foldl (fun vars cs => vars.setBool cs.coilId cs.energized) s.vars
        edgeState := es
        rungs := s.rungs ++ [{ rung with network := network }]
        rungStates := s.rungStates ++ [⟨rung.id, contactStates, coilStates⟩]
        poweredCoils := s.poweredCoils ++ (coilStates.filter CoilState.energized).map
          CoilState.coilId }

/-- Evaluate the rungs one after another. -/
def cycleRungs (fuel : ℕ) : CycleState → List RungDef → Option (Except Panic CycleState)
  | s, [] => some (.ok s)
  | s, rung :: rungs =>
      match cycleRung fuel s rung with
      | some (.ok s') => cycleRungs fuel s' rungs
      | o => o

/-- Evaluate all rungs for one scan: the report, the rungs with their orders up to date, and
the variables. -/
def evaluateCycle (fuel : ℕ) (rungs : List RungDef) (vars : VarStore) :
    Option (Except Panic (PowerFlowResult × List RungDef × VarStore)) :=
  (cycleRungs fuel ⟨vars, .new, [], [], []⟩ rungs).map fun o => do
    let s ← o
    pure (⟨s.rungStates, s.poweredCoils⟩, s.rungs, s.vars)

/-! ### The variables after a scan -/

/-- The variables after the coils of a rung have been written. -/
def writeCoils (power : Bool) (vars : VarStore) (coils : List Coil) : VarStore :=
  coils.foldl (fun vars' c => vars'.setBool c.var (c.energized power vars)) vars

variable {fuel fuel' : ℕ} {s : CycleState}

/-- A rung whose network evaluates to a power writes its coils. -/
theorem cycleRung_ok {rung : RungDef} {power : Bool} {network : ContactNetwork} {es : EdgeState}
    (h : evaluatePowerFlow fuel rung.network s.vars.snapshot s.edgeState =
        some (.ok (power, network, es))) :
    ∃ s', cycleRung fuel s rung = some (.ok s') ∧
      s'.vars = writeCoils power s.vars rung.coils := by
  refine ⟨_, by rw [cycleRung, h]; rfl, ?_⟩
  exact List.foldl_map

/-- More fuel does not change what a rung returns. -/
theorem cycleRung_mono (hle : fuel ≤ fuel') {rung : RungDef} {o : Except Panic CycleState}
    (h : cycleRung fuel s rung = some o) : cycleRung fuel' s rung = some o := by
  obtain ⟨o', heval, ho'⟩ := Option.map_eq_some_iff.mp h
  rw [cycleRung, evaluatePowerFlow_mono hle heval, Option.map_some, ho']

/-- More fuel does not change what a scan returns. -/
theorem cycleRungs_mono (hle : fuel ≤ fuel') {rungs : List RungDef} {o : Except Panic CycleState}
    (h : cycleRungs fuel s rungs = some o) : cycleRungs fuel' s rungs = some o := by
  induction rungs generalizing s with
  | nil => exact h
  | cons rung rungs ih =>
      rw [cycleRungs] at h ⊢
      cases hfirst : cycleRung fuel s rung with
      | none => rw [hfirst] at h; cases h
      | some o' =>
          rw [hfirst] at h
          rw [cycleRung_mono hle hfirst]
          cases o' with
          | error e => exact h
          | ok s' => exact ih h

/-- What a scan returns does not depend on the fuel. -/
theorem evaluateCycle_unique {rungs : List RungDef} {vars : VarStore}
    {o o' : Except Panic (PowerFlowResult × List RungDef × VarStore)}
    (h : evaluateCycle fuel rungs vars = some o) (h' : evaluateCycle fuel' rungs vars = some o') :
    o = o' := by
  obtain ⟨s, hs, rfl⟩ := Option.map_eq_some_iff.mp h
  obtain ⟨s', hs', rfl⟩ := Option.map_eq_some_iff.mp h'
  have hmax := cycleRungs_mono (le_max_left fuel fuel') hs
  have hmax' := cycleRungs_mono (le_max_right fuel fuel') hs'
  rw [Option.some.inj (hmax.symm.trans hmax')]

end Weftik.Ld
