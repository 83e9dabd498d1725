import Weftik.Il.StraightLine
import Weftik.Ld.HandOff
import Weftik.Ld.Rung

/-!
# One Scan of a Ladder Text

A ladder text is compiled to Instruction List and then to instructions; the rungs of the
same text are evaluated directly. `ScanState` follows both: the power and the variables of
the evaluation, and what the compiled code has in the registers of the variables. A
parallel contact reads that register, and a `SET` or `RESET` coil writes only there; the
two agree in every scan in which no element notices.

## Main definitions

* `ScanState.run`: the evaluation of the networks, with the registers of the code.
* `ElementCurrent`, `CurrentScan`: the elements do not notice the difference.

## Main results

* `evaluateCycle_eq`: the evaluation of the corresponding rungs.
* `copyRun_networks`: the run of the generated statements.
* `ldCompile_scan`: when no element notices, the compiled text computes what the rungs do.
-/

open Outcome Machine

namespace Weftik.Ld

open Il (AccState ILStatement operandName)

variable {P : Platform}

/-- The signal table with the values of the variables. -/
def VarStore.table (P : Platform) (vars : VarStore) : String → Option (HalValue P) :=
  fun v => (vars.values v).map .bool

/-- The coil of a kind. -/
def LdCoilKind.coil (var : String) : LdCoilKind → Coil
  | .out => ⟨var, .out⟩
  | .set => ⟨var, .set⟩
  | .reset => ⟨var, .reset⟩

/-- The evaluation in the middle of a network, with the value that was last loaded or set
into the register of each variable. `first` says that no contact came before. -/
structure ScanState where
  first : Bool
  power : Bool
  vars : VarStore
  registers : String → Option Bool

namespace ScanState

/-- Before the first network. -/
def start (vars : VarStore) : ScanState := ⟨true, true, vars, fun _ => none⟩

/-- One element of a network that began with the values `before`. -/
def step (before : VarStore) (s : ScanState) (e : LdElement) : ScanState where
  first := (elementLines s.first e).2
  power := elementPower before.snapshot s.power e
  vars :=
    match e with
    | .coil kind v => s.vars.setBool v ((kind.coil v).energized s.power before)
    | _ => s.vars
  registers :=
    match e with
    | .contact _ v => Function.update s.registers v (some (before.getBool v))
    | .coil .set v => Function.update s.registers v (some true)
    | .coil .reset v => Function.update s.registers v (some false)
    | _ => s.registers

/-- The elements of a network, one after another. -/
def runNetwork (s : ScanState) (es : List LdElement) : ScanState :=
  es.foldl (step s.vars) { s with first := true, power := true }

/-- The networks, one after another. -/
def run (s : ScanState) (networks : List (List LdElement)) : ScanState :=
  networks.foldl runNetwork s

end ScanState

/-- The value of a contact, from the value of its variable. -/
def contactValue (no value : Bool) : Bool := if no then value else !value

/-- A parallel contact passes the same power with what is in the register of its variable
as with its value, and a `SET` or `RESET` coil finds its variable with the value that it
writes. -/
def ElementCurrent (before : VarStore) (s : ScanState) : LdElement → Prop
  | .parallelContact no v => ∃ b, s.registers v = some b ∧
      (s.power || contactValue no b) = (s.power || contactValue no (before.getBool v))
  | .coil .set v => s.vars.values v = some ((LdCoilKind.set.coil v).energized s.power before)
  | .coil .reset v =>
      s.vars.values v = some ((LdCoilKind.reset.coil v).energized s.power before)
  | _ => True

/-- The elements of a network are current. -/
def CurrentNetwork (before : VarStore) : ScanState → List LdElement → Prop
  | _, [] => True
  | s, e :: es => ElementCurrent before s e ∧ CurrentNetwork before (s.step before e) es

/-- The elements of all networks are current. -/
def CurrentScan : ScanState → List (List LdElement) → Prop
  | _, [] => True
  | s, es :: networks =>
      CurrentNetwork s.vars { s with first := true, power := true } es ∧
        CurrentScan (s.runNetwork es) networks

/-! ### The rungs compute the variables -/

theorem isClosed_plainContact (vars : VarStore) (no : Bool) (v : String) :
    (plainContact no v).isClosed vars.snapshot = contactValue no (vars.getBool v) := by
  cases no <;> rfl

/-- Contacts combine the power and leave the variables alone. -/
theorem foldl_contacts {before : VarStore} {contacts : List LdElement}
    (hcontacts : ∀ e ∈ contacts, ∃ no v, e = .contact no v ∨ e = .parallelContact no v)
    (s : ScanState) :
    (contacts.foldl (ScanState.step before) s).vars = s.vars ∧
      (contacts.foldl (ScanState.step before) s).power =
        contacts.foldl (elementPower before.snapshot) s.power := by
  induction contacts generalizing s with
  | nil => exact ⟨rfl, rfl⟩
  | cons e contacts ih =>
      obtain ⟨hvars, hpower⟩ := ih (fun e' he' => hcontacts e' (List.mem_cons_of_mem e he'))
        (s.step before e)
      refine ⟨?_, hpower⟩
      rw [List.foldl_cons, hvars]
      obtain ⟨no, v, rfl | rfl⟩ := hcontacts e List.mem_cons_self
      · rfl
      · rfl

/-- Coils leave the power alone and write the variables. -/
theorem foldl_coils {before : VarStore} {coils : List LdElement}
    (hcoils : ∀ e ∈ coils, ∃ kind v, e = .coil kind v) (s : ScanState) :
    (coils.foldl (ScanState.step before) s).vars =
      (coils.filterMap LdElement.coil?).foldl
        (fun vars c => vars.setBool c.var (c.energized s.power before)) s.vars := by
  induction coils generalizing s with
  | nil => rfl
  | cons e coils ih =>
      obtain ⟨kind, v, rfl⟩ := hcoils e List.mem_cons_self
      rw [List.foldl_cons, ih fun e' he' => hcoils e' (List.mem_cons_of_mem _ he')]
      cases kind <;> rfl

/-- Coils do not change the power. -/
theorem foldl_elementPower_coils {coils : List LdElement}
    (hcoils : ∀ e ∈ coils, ∃ kind v, e = .coil kind v) (snapshot : InputSnapshot)
    (power : Bool) : coils.foldl (elementPower snapshot) power = power := by
  induction coils with
  | nil => rfl
  | cons e coils ih =>
      obtain ⟨kind, v, rfl⟩ := hcoils e List.mem_cons_self
      exact ih fun e' he' => hcoils e' (List.mem_cons_of_mem _ he')

variable {es : List LdElement}

/-- The variables after a network are those after its coils have been written with the
value of its contacts. -/
theorem runNetwork_vars (s : ScanState) (h : IsRung es) :
    (s.runNetwork es).vars =
      writeCoils (contactsPower s.vars.snapshot es) s.vars (es.filterMap LdElement.coil?) := by
  obtain ⟨no, v, contacts, coils, hcontacts, hcoils⟩ := h
  have hnone : contacts.filterMap LdElement.coil? = [] := by
    rw [List.filterMap_eq_nil_iff]
    intro e he
    obtain ⟨no, v, rfl | rfl⟩ := hcontacts e he
    · rfl
    · rfl
  obtain ⟨hvars, hpower⟩ := foldl_contacts hcontacts
    (ScanState.step s.vars { s with first := true, power := true } (.contact no v))
  rw [ScanState.runNetwork, List.foldl_cons, List.foldl_append, foldl_coils hcoils, writeCoils,
    contactsPower, List.foldl_cons, List.foldl_append, foldl_elementPower_coils hcoils,
    List.filterMap_cons_none rfl, List.filterMap_append, hnone, List.nil_append, hvars, hpower]
  rfl

/-- The evaluation of the rungs of some networks ends with the variables of the scan. -/
theorem evaluateCycle_eq {networks : List (List LdElement)} {rungs : List RungDef}
    (hrungs : ∀ es ∈ networks, IsRung es) (hcorr : List.Forall₂ Corresponds rungs networks)
    (vars : VarStore) :
    ∃ fuel result rungs', evaluateCycle fuel rungs vars =
      some (.ok (result, rungs', ((ScanState.start vars).run networks).vars)) := by
  have hcycle : ∀ (s : ScanState) (c : CycleState), c.vars = s.vars →
      ∃ fuel c', cycleRungs fuel c rungs = some (.ok c') ∧
        c'.vars = (s.run networks).vars := by
    induction hcorr with
    | nil => exact fun s c h => ⟨0, c, rfl, h⟩
    | @cons rung es rungs networks hrung _ ih =>
        intro s c h
        have hes := hrungs es List.mem_cons_self
        obtain ⟨fuel₁, net, edges, heval⟩ :=
          evaluate_contactNetwork hes c.vars.snapshot c.edgeState
        rw [← hrung.1] at heval
        obtain ⟨c₁, hfirst, hvars⟩ := cycleRung_ok heval
        have hsame : c₁.vars = (s.runNetwork es).vars := by
          rw [hvars, runNetwork_vars s hes, hrung.2, h]
        obtain ⟨fuel₂, c₂, hrest, hend⟩ :=
          ih (fun es' hes' => hrungs es' (List.mem_cons_of_mem es hes')) _ c₁ hsame
        refine ⟨max fuel₁ fuel₂, c₂, ?_, hend⟩
        rw [cycleRungs, cycleRung_mono (le_max_left _ _) hfirst]
        exact cycleRungs_mono (le_max_right _ _) hrest
  obtain ⟨fuel, c, hrun, hvars⟩ := hcycle (.start vars) ⟨vars, .new, [], [], []⟩ rfl
  refine ⟨fuel, ⟨c.rungStates, c.poweredCoils⟩, c.rungs, ?_⟩
  rw [evaluateCycle, hrun, ← hvars]
  rfl

/-! ### The generated statements follow the scan -/

/-- The statements of an element. -/
def elementStmts (first : Bool) (e : LdElement) : List ILStatement :=
  (elementMnemonics first e).map fun p => p.2.statement e.var

theorem networkStmts_cons (first : Bool) (e : LdElement) (es : List LdElement) :
    networkStmts first (e :: es) =
      elementStmts first e ++ networkStmts (elementLines first e).2 es := by
  rw [networkStmts, networkPairs, List.map_append, List.map_map]
  rfl

section Statements

variable {st : AccState P} {v : String} {b power : Bool}

/-- The first contact of a network loads its variable. -/
theorem copyRun_first (no : Bool) (h : st.value v = .bool b) :
    st.copyRun (elementStmts true (.contact no v)) =
      .ok ⟨.bool (contactValue no b), st.table, Function.update st.copy v (.bool b)⟩ := by
  cases no <;>
    simp [elementStmts, elementMnemonics, LdElement.var, Il.Mnemonic.statement,
      AccState.copyRun, AccState.copyStep, Il.operandFn, AccState.reload,
      Il.ILStatement.reloads, h] <;>
    rfl

/-- A later contact in series combines its variable with the accumulator. -/
theorem copyRun_series (no : Bool) (h : st.value v = .bool b) (hcr : st.cr = .bool power) :
    st.copyRun (elementStmts false (.contact no v)) =
      .ok ⟨.bool (power && contactValue no b), st.table,
        Function.update st.copy v (.bool b)⟩ := by
  cases no <;>
    simp [elementStmts, elementMnemonics, LdElement.var, Il.Mnemonic.statement,
      AccState.copyRun, AccState.copyStep, Il.operandFn, AccState.reload,
      Il.ILStatement.reloads, h, hcr] <;>
    rfl

/-- A parallel contact combines the register of its variable with the accumulator. -/
theorem copyRun_parallel (first no : Bool) (h : st.copy v = .bool b)
    (hcr : st.cr = .bool power) :
    st.copyRun (elementStmts first (.parallelContact no v)) =
      .ok { st with cr := .bool (power || contactValue no b) } := by
  cases no <;>
    simp [elementStmts, elementMnemonics, LdElement.var, Il.Mnemonic.statement,
      AccState.copyRun, AccState.copyStep, Il.operandFn, AccState.reload,
      Il.ILStatement.reloads, h, hcr] <;>
    rfl

end Statements

/-- The accumulator state follows the evaluation: after the first contact of a network the
accumulator is the power, the table has the variables, and the registers that have been
loaded or set have the values that were loaded or set. -/
structure Follows (s : ScanState) (st : AccState P) : Prop where
  power : s.first = true → s.power = true
  cr : s.first = false → st.cr = .bool s.power
  table : st.table = s.vars.table P
  registers : ∀ v b, s.registers v = some b → st.copy v = .bool b

namespace Follows

variable {s : ScanState} {st : AccState P} {before : VarStore}

theorem start (vars : VarStore) :
    Follows (.start vars) (AccState.start (vars.table P)) :=
  ⟨fun _ => rfl, nofun, rfl, nofun⟩

/-- The beginning of a network. -/
theorem network (h : Follows s st) : Follows { s with first := true, power := true } st :=
  ⟨fun _ => rfl, nofun, h.table, h.registers⟩

/-- The value of a variable, as IL and as LD have it. -/
theorem value (h : Follows s st) (v : String) : st.value v = .bool (s.vars.getBool v) := by
  rw [AccState.value, h.table, VarStore.table, VarStore.getBool]
  cases s.vars.values v with
  | none => rfl
  | some b => rfl

/-- The same value is written to the register of a variable on both sides. -/
theorem update (h : Follows s st) (v : String) (b : Bool) :
    ∀ w c, Function.update s.registers v (some b) w = some c →
      Function.update st.copy v (.bool b) w = .bool c := by
  intro w c hw
  by_cases hwv : w = v
  · subst hwv
    rw [Function.update_self] at hw ⊢
    rw [Option.some.inj hw]
  · rw [Function.update_of_ne hwv] at hw ⊢
    exact h.registers w c hw

/-- The same value is written to a variable on both sides. -/
theorem table_setBool (vars : VarStore) (v : String) (b : Bool) :
    (vars.setBool v b).table P = Function.update (vars.table P) v (some (.bool b)) := by
  funext w
  change (Function.update vars.values v (some b) w).map HalValue.bool = _
  by_cases hw : w = v
  · rw [hw, Function.update_self, Function.update_self]
    rfl
  · rw [Function.update_of_ne hw, Function.update_of_ne hw]
    rfl

/-- A contact in series. -/
theorem contact (h : Follows s st) (no : Bool) (v : String) :
    ∃ st', st.copyRun (elementStmts s.first (.contact no v)) = .ok st' ∧
      Follows (s.step s.vars (.contact no v)) st' := by
  have hclosed := isClosed_plainContact s.vars no v
  have hfirst' : (s.step s.vars (.contact no v)).first = false := by
    rw [ScanState.step, elementLines]
    split
    · rfl
    · rfl
  cases hfirst : s.first with
  | true =>
      refine ⟨_, copyRun_first no (h.value v), fun hf => ?_, fun _ => ?_, h.table, h.update v _⟩
      · rw [hfirst'] at hf
        cases hf
      · rw [ScanState.step, elementPower, hclosed, h.power hfirst, Bool.true_and]
  | false =>
      refine ⟨_, copyRun_series no (h.value v) (h.cr hfirst), fun hf => ?_, fun _ => ?_,
        h.table, h.update v _⟩
      · rw [hfirst'] at hf
        cases hf
      · rw [ScanState.step, elementPower, hclosed]

/-- A parallel contact that is current. -/
theorem parallelContact (h : Follows s st) (hfirst : s.first = false) {no : Bool} {v : String}
    (hcurrent : ElementCurrent s.vars s (.parallelContact no v)) :
    ∃ st', st.copyRun (elementStmts s.first (.parallelContact no v)) = .ok st' ∧
      Follows (s.step s.vars (.parallelContact no v)) st' := by
  obtain ⟨b, hb, hsame⟩ := hcurrent
  have hpower : (s.step s.vars (.parallelContact no v)).power =
      (s.power || contactValue no (s.vars.getBool v)) := by
    rw [← isClosed_plainContact]
    rfl
  refine ⟨_, copyRun_parallel _ no (h.registers v b hb) (h.cr hfirst), fun hf => ?_, fun _ => ?_,
    h.table, h.registers⟩
  · exact absurd (hf.symm.trans hfirst) (by decide)
  · rw [hpower, ← hsame]

/-- A coil that is current. -/
theorem coil (h : Follows s st) (hfirst : s.first = false) {kind : LdCoilKind} {v : String}
    (hcurrent : ElementCurrent before s (.coil kind v)) :
    ∃ st', st.copyRun (elementStmts s.first (.coil kind v)) = .ok st' ∧
      Follows (s.step before (.coil kind v)) st' := by
  have hkeep : (s.step before (.coil kind v)).first = false := by
    cases kind <;> exact hfirst
  have hpower : (s.step before (.coil kind v)).first = true →
      (s.step before (.coil kind v)).power = true := fun hf =>
    absurd (hf.symm.trans hkeep) (by decide)
  have hsame : ∀ b, s.vars.values v = some b →
      st.table = (s.vars.setBool v b).table P := by
    intro b hb
    rw [table_setBool, h.table]
    refine (Function.update_eq_self_iff.mpr ?_).symm
    rw [VarStore.table, hb]
    rfl
  cases kind with
  | out =>
      refine ⟨_, rfl, hpower, fun _ => h.cr hfirst, ?_, h.registers⟩
      change Function.update st.table v (some st.cr) = _
      rw [h.cr hfirst, h.table]
      exact (table_setBool _ _ _).symm
  | set => exact ⟨_, rfl, hpower, fun _ => h.cr hfirst, hsame _ hcurrent, h.update v true⟩
  | reset => exact ⟨_, rfl, hpower, fun _ => h.cr hfirst, hsame _ hcurrent, h.update v false⟩

/-- The coils of a network. -/
theorem coils (h : Follows s st) (hfirst : s.first = false) {coils : List LdElement}
    (hcoils : ∀ e ∈ coils, ∃ kind v, e = .coil kind v)
    (hcurrent : CurrentNetwork before s coils) :
    ∃ st', st.copyRun (networkStmts s.first coils) = .ok st' ∧
      Follows (coils.foldl (ScanState.step before) s) st' := by
  induction coils generalizing s st with
  | nil => exact ⟨st, rfl, h⟩
  | cons e coils ih =>
      obtain ⟨kind, v, rfl⟩ := hcoils e List.mem_cons_self
      obtain ⟨hone, hrest⟩ := hcurrent
      obtain ⟨st₁, hrun₁, h₁⟩ := h.coil hfirst hone
      have hfirst₁ : (s.step before (.coil kind v)).first = false := by
        cases kind <;> exact hfirst
      obtain ⟨st₂, hrun₂, h₂⟩ :=
        ih h₁ hfirst₁ (fun e' he' => hcoils e' (List.mem_cons_of_mem _ he')) hrest
      refine ⟨st₂, ?_, h₂⟩
      rw [networkStmts_cons, AccState.copyRun_append, hrun₁]
      exact hrun₂

/-- The contacts of a network after the first one, and its coils. -/
theorem contacts (h : Follows s st) (hfirst : s.first = false)
    {contacts coils : List LdElement}
    (hcontacts : ∀ e ∈ contacts, ∃ no v, e = .contact no v ∨ e = .parallelContact no v)
    (hcoils : ∀ e ∈ coils, ∃ kind v, e = .coil kind v)
    (hcurrent : CurrentNetwork s.vars s (contacts ++ coils)) :
    ∃ st', st.copyRun (networkStmts s.first (contacts ++ coils)) = .ok st' ∧
      Follows ((contacts ++ coils).foldl (ScanState.step s.vars) s) st' := by
  induction contacts generalizing s st with
  | nil => exact h.coils hfirst hcoils hcurrent
  | cons e contacts ih =>
      obtain ⟨hone, hrest⟩ := hcurrent
      have hstep : ∃ st₁, st.copyRun (elementStmts s.first e) = .ok st₁ ∧
          Follows (s.step s.vars e) st₁ ∧ (s.step s.vars e).first = false ∧
          (s.step s.vars e).vars = s.vars := by
        obtain ⟨no, v, rfl | rfl⟩ := hcontacts e List.mem_cons_self
        · obtain ⟨st₁, hrun₁, h₁⟩ := h.contact no v
          refine ⟨st₁, hrun₁, h₁, ?_, rfl⟩
          rw [ScanState.step, hfirst]
          rfl
        · obtain ⟨st₁, hrun₁, h₁⟩ := h.parallelContact hfirst hone
          exact ⟨st₁, hrun₁, h₁, hfirst, rfl⟩
      obtain ⟨st₁, hrun₁, h₁, hfirst₁, hvars₁⟩ := hstep
      obtain ⟨st₂, hrun₂, h₂⟩ := ih h₁ hfirst₁
        (fun e' he' => hcontacts e' (List.mem_cons_of_mem _ he')) (by rw [hvars₁]; exact hrest)
      rw [hvars₁] at h₂
      refine ⟨st₂, ?_, h₂⟩
      rw [List.cons_append, networkStmts_cons, AccState.copyRun_append, hrun₁]
      exact hrun₂

end Follows

/-- The statements of some networks follow the scan, as long as no element notices. -/
theorem copyRun_networks {networks : List (List LdElement)}
    (hrungs : ∀ es ∈ networks, IsRung es) {s : ScanState} {st : AccState P}
    (h : Follows s st) (hcurrent : CurrentScan s networks) :
    ∃ st', st.copyRun (networks.flatMap (networkStmts true)) = .ok st' ∧
      Follows (s.run networks) st' := by
  induction networks generalizing s st with
  | nil => exact ⟨st, rfl, h⟩
  | cons es networks ih =>
      obtain ⟨hone, hrest⟩ := hcurrent
      have hnetwork : ∃ st₁, st.copyRun (networkStmts true es) = .ok st₁ ∧
          Follows (s.runNetwork es) st₁ := by
        obtain ⟨no, v, contacts, coils, hcontacts, hcoils⟩ := hrungs es List.mem_cons_self
        obtain ⟨st₁, hrun₁, h₁⟩ := h.network.contact no v
        obtain ⟨st₂, hrun₂, h₂⟩ := h₁.contacts rfl hcontacts hcoils hone.2
        refine ⟨st₂, ?_, h₂⟩
        rw [networkStmts_cons, AccState.copyRun_append, hrun₁]
        exact hrun₂
      obtain ⟨st₁, hrun₁, h₁⟩ := hnetwork
      obtain ⟨st₂, hrun₂, h₂⟩ :=
        ih (fun es' hes' => hrungs es' (List.mem_cons_of_mem es hes')) h₁ hrest
      refine ⟨st₂, ?_, h₂⟩
      rw [List.flatMap_cons, AccState.copyRun_append, hrun₁]
      exact hrun₂

/-! ### The two compilers -/

/-- The variable that needs a register: that of every element but an `OUT` coil. -/
def LdElement.registerName : LdElement → Option String
  | .coil .out _ => none
  | e => some e.var

/-- The statement of an element that does not detect edges. -/
theorem elementStmts_plain {e : LdElement} (h : e.isPlain = true) (first : Bool) :
    ∃ stmt, elementStmts first e = [stmt] ∧ stmt.isStraightLine = true ∧
      operandName stmt = e.registerName := by
  cases e with
  | contact no v => cases no <;> cases first <;> exact ⟨_, rfl, rfl, rfl⟩
  | parallelContact no v => cases no <;> exact ⟨_, rfl, rfl, rfl⟩
  | edgeContact rising v => cases h
  | coil kind v => cases kind <;> exact ⟨_, rfl, rfl, rfl⟩

/-- The statements of a network whose elements do not detect edges. -/
theorem networkStmts_plain (h : ∀ e ∈ es, e.isPlain = true) (first : Bool) :
    (∀ stmt ∈ networkStmts first es, stmt.isStraightLine = true) ∧
      (networkStmts first es).filterMap operandName = es.filterMap LdElement.registerName := by
  induction es generalizing first with
  | nil => exact ⟨List.forall_mem_nil _, rfl⟩
  | cons e es ih =>
      obtain ⟨stmt, hstmt, hline, hname⟩ := elementStmts_plain (h e List.mem_cons_self) first
      obtain ⟨hlines, hnames⟩ :=
        ih (fun e' he' => h e' (List.mem_cons_of_mem e he')) (elementLines first e).2
      rw [networkStmts_cons, hstmt, List.singleton_append]
      refine ⟨List.forall_mem_cons.mpr ⟨hline, hlines⟩, ?_⟩
      rw [List.filterMap_cons, List.filterMap_cons, hnames, hname]

/-- The elements of a rung do not detect edges. -/
theorem IsRung.isPlain (h : IsRung es) : ∀ e ∈ es, e.isPlain = true := by
  obtain ⟨no, v, contacts, coils, hcontacts, hcoils⟩ := h
  intro e he
  rcases List.mem_cons.mp he with rfl | he
  · rfl
  · rcases List.mem_append.mp he with he | he
    · obtain ⟨no, v, rfl | rfl⟩ := hcontacts e he
      · rfl
      · rfl
    · obtain ⟨kind, v, rfl⟩ := hcoils e he
      rfl

/-- A ladder text whose networks are rungs over at most ten registers is compiled twice to
a program that ends with the table of `copyRun`, or panics as it does. -/
theorem ldCompile_runs {source : String} (vm : Vm P) (table : String → Option (HalValue P))
    (htokens : tokenize P source ≠ [])
    (hrungs : ∀ es ∈ parseNetworks P (tokenize P source), IsRung es)
    (hcomments : ∀ es ∈ parseNetworks P (tokenize P source), ∀ e ∈ es, NoComment e.var)
    (hregisters : ((parseNetworks P (tokenize P source)).flatMap
      (List.filterMap LdElement.registerName)).toFinset.card ≤ 10) :
    ∃ il program, ldCompile P source = .ok il ∧ Il.ilCompile P il = .ok (.ok program) ∧
      ∃ out, Exec (Vm.step program.instructions) (Il.scanStart vm table) out ∧
        Vm.signals <$> out = AccState.table <$> (AccState.start table).copyRun
          ((parseNetworks P (tokenize P source)).flatMap (networkStmts true)) := by
  have hparse : Il.parse (Il.tokenize P (generateIl (parseNetworks P (tokenize P source)))) =
      (parseNetworks P (tokenize P source)).flatMap (networkStmts true) :=
    parse_generateIl fun es hes e he =>
      ⟨isName_of_mem_parseNetworks es hes e he, hcomments es hes e he⟩
  have hlines : ∀ stmt ∈ (parseNetworks P (tokenize P source)).flatMap (networkStmts true),
      stmt.isStraightLine = true := by
    intro stmt hstmt
    obtain ⟨es, hes, hmem⟩ := List.mem_flatMap.mp hstmt
    exact (networkStmts_plain (hrungs es hes).isPlain true).1 stmt hmem
  have hnames : ((parseNetworks P (tokenize P source)).flatMap
      (networkStmts true)).filterMap operandName = (parseNetworks P (tokenize P source)).flatMap
        (List.filterMap LdElement.registerName) := by
    rw [List.filterMap_flatMap]
    exact List.flatMap_congr fun es hes =>
      (networkStmts_plain (hrungs es hes).isPlain true).2
  rw [← hparse] at hlines hnames ⊢
  rw [← hnames] at hregisters
  obtain ⟨program, hprogram, hrun⟩ := Il.ilCompile_runs _ vm table hlines hregisters
  refine ⟨_, program, ?_, hprogram, hrun⟩
  rw [ldCompile]
  exact if_neg htokens

/-- A ladder text is compiled twice to a program whose scan ends with the values that the
evaluation of the corresponding rungs gives, when no element of the scan notices what the
code has in the registers. -/
theorem ldCompile_scan {source : String} (vm : Vm P) (vars : VarStore) {rungs : List RungDef}
    (htokens : tokenize P source ≠ [])
    (hrungs : ∀ es ∈ parseNetworks P (tokenize P source), IsRung es)
    (hcorr : List.Forall₂ Corresponds rungs (parseNetworks P (tokenize P source)))
    (hcomments : ∀ es ∈ parseNetworks P (tokenize P source), ∀ e ∈ es, NoComment e.var)
    (hregisters : ((parseNetworks P (tokenize P source)).flatMap
      (List.filterMap LdElement.registerName)).toFinset.card ≤ 10)
    (hcurrent : CurrentScan (.start vars) (parseNetworks P (tokenize P source))) :
    ∃ il program vm' fuel result rungs' vars', ldCompile P source = .ok il ∧
      Il.ilCompile P il = .ok (.ok program) ∧
      Exec (Vm.step program.instructions) (Il.scanStart vm (vars.table P)) (.ok vm') ∧
      evaluateCycle fuel rungs vars = some (.ok (result, rungs', vars')) ∧
      vm'.signals = vars'.table P := by
  obtain ⟨il, program, hil, hprogram, out, hexec, hout⟩ :=
    ldCompile_runs vm (vars.table P) htokens hrungs hcomments hregisters
  obtain ⟨st, hst, hfollows⟩ := copyRun_networks hrungs (.start vars) hcurrent
  obtain ⟨fuel, result, rungs', heval⟩ := evaluateCycle_eq hrungs hcorr vars
  rw [hst] at hout
  cases out with
  | error e => cases hout
  | ok vm' =>
      refine ⟨il, program, vm', fuel, result, rungs', _, hil, hprogram, hexec, heval, ?_⟩
      rw [← hfollows.table]
      exact Except.ok.inj hout

/-! ### Two ladder texts -/

/-- The rung of a network of ladder text. -/
def rungOf (es : List LdElement) : RungDef :=
  ⟨"rung", contactNetwork es, es.filterMap LdElement.coil?⟩

theorem corresponds_rungOf (networks : List (List LdElement)) :
    List.Forall₂ Corresponds (networks.map rungOf) networks := by
  rw [List.forall₂_map_left_iff]
  exact List.forall₂_same.mpr fun es _ => ⟨rfl, rfl⟩

/-- The values of four variables; `X` and `W` are `TRUE`. -/
def fourVars : VarStore where
  values
    | "X" | "W" => some true
    | "Y" | "Z" => some false
    | _ => none

/-- The parallel contact reads what the contact in series has loaded, and the `SET` coil
finds its variable set. -/
theorem current_scan_run :
    ∃ il program vm' fuel result rungs' vars',
      ldCompile .exact "NO X\nNC Y\n| NO X\nOUT Z\nNETWORK\nNO Z\nSET W" = .ok il ∧
      Il.ilCompile .exact il = .ok (.ok program) ∧
      Exec (Vm.step program.instructions) (Il.scanStart Vm.new (fourVars.table .exact))
        (.ok vm') ∧
      evaluateCycle fuel ([[.contact true "X", .contact false "Y", .parallelContact true "X",
        .coil .out "Z"], [.contact true "Z", .coil .set "W"]].map rungOf) fourVars =
          some (.ok (result, rungs', vars')) ∧
      vm'.signals = vars'.table .exact := by
  have hnetworks : parseNetworks .exact
      (tokenize .exact "NO X\nNC Y\n| NO X\nOUT Z\nNETWORK\nNO Z\nSET W") =
        [[.contact true "X", .contact false "Y", .parallelContact true "X", .coil .out "Z"],
          [.contact true "Z", .coil .set "W"]] := by
    decide
  refine ldCompile_scan _ _ (by decide) ?_ ?_ ?_ ?_ ?_
  · rw [hnetworks]
    refine List.forall_mem_cons.mpr ⟨?_, List.forall_mem_singleton.mpr ?_⟩
    · exact .mk true "X" [.contact false "Y", .parallelContact true "X"] [.coil .out "Z"]
        (by simp) (by simp)
    · exact .mk true "Z" [] [.coil .set "W"] (by simp) (by simp)
  · rw [hnetworks]
    exact corresponds_rungOf _
  · rw [hnetworks]
    simp [LdElement.var, NoComment]
    decide
  · rw [hnetworks]
    decide
  · rw [hnetworks]
    exact ⟨⟨trivial, trivial, ⟨true, rfl, rfl⟩, trivial, trivial⟩,
      ⟨trivial, rfl, trivial⟩, trivial⟩

/-- A `SET` coil does not reach the signal table: `Y` stays `FALSE` where the rung makes it
`TRUE`. -/
theorem set_coil_not_stored :
    ¬ ∀ (P : Platform) (source : String) (vm : Vm P) (vars : VarStore) (rungs : List RungDef),
      tokenize P source ≠ [] →
      (∀ es ∈ parseNetworks P (tokenize P source), IsRung es) →
      List.Forall₂ Corresponds rungs (parseNetworks P (tokenize P source)) →
      (∀ es ∈ parseNetworks P (tokenize P source), ∀ e ∈ es, NoComment e.var) →
      ((parseNetworks P (tokenize P source)).flatMap
        (List.filterMap LdElement.registerName)).toFinset.card ≤ 10 →
      (∀ es ∈ parseNetworks P (tokenize P source), ∀ e ∈ es, vars.values e.var ≠ none) →
      ∃ il program vm' fuel result rungs' vars', ldCompile P source = .ok il ∧
        Il.ilCompile P il = .ok (.ok program) ∧
        Exec (Vm.step program.instructions) (Il.scanStart vm (vars.table P)) (.ok vm') ∧
        evaluateCycle fuel rungs vars = some (.ok (result, rungs', vars')) ∧
        vm'.signals = vars'.table P := by
  intro h
  have hnetworks : parseNetworks .exact (tokenize .exact "NO X\nSET Y") =
      [[.contact true "X", .coil .set "Y"]] := by
    decide
  have htokens : tokenize .exact "NO X\nSET Y" ≠ [] := by decide
  have hrungs : ∀ es ∈ parseNetworks .exact (tokenize .exact "NO X\nSET Y"), IsRung es := by
    rw [hnetworks, List.forall_mem_singleton]
    exact .mk true "X" [] [.coil .set "Y"] (by simp) (by simp)
  have hcorr := corresponds_rungOf (parseNetworks .exact (tokenize .exact "NO X\nSET Y"))
  have hcomments : ∀ es ∈ parseNetworks .exact (tokenize .exact "NO X\nSET Y"), ∀ e ∈ es,
      NoComment e.var := by
    rw [hnetworks]
    simp [LdElement.var, NoComment]
    decide
  have hregisters : ((parseNetworks .exact (tokenize .exact "NO X\nSET Y")).flatMap
      (List.filterMap LdElement.registerName)).toFinset.card ≤ 10 := by
    decide
  obtain ⟨il, program, vm', fuel, result, rungs', vars', hil, hprogram, hexec, heval, hsame⟩ :=
    h .exact "NO X\nSET Y" Vm.new fourVars _ htokens hrungs hcorr hcomments hregisters (by
      rw [hnetworks]
      simp [LdElement.var, fourVars])
  obtain ⟨il', program', hil', hprogram', out, hexec', hout⟩ :=
    ldCompile_runs Vm.new (fourVars.table .exact) htokens hrungs hcomments hregisters
  obtain ⟨fuel', result', rungs'', heval'⟩ := evaluateCycle_eq hrungs hcorr fourVars
  obtain rfl : il = il' := Except.ok.inj (hil.symm.trans hil')
  obtain rfl : program = program' := Except.ok.inj (Except.ok.inj (hprogram.symm.trans hprogram'))
  obtain rfl := hexec.deterministic hexec'
  have hvars : vars' = _ :=
    congrArg (fun p => p.2.2) (Except.ok.inj (evaluateCycle_unique heval heval'))
  have hrung : vars'.values "Y" = some true := by
    rw [hvars, hnetworks]
    rfl
  have hcode : vm'.signals "Y" = some (.bool false) := by
    rw [hnetworks] at hout
    have hy := congrArg (fun c => (fun t : String → Option (HalValue .exact) => t "Y") <$> c) hout
    exact Except.ok.inj hy
  rw [hsame, VarStore.table, hrung] at hcode
  exact absurd hcode (by decide)

end Weftik.Ld
