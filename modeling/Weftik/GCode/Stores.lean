import Weftik.GCode.Blocks
import Weftik.GCode.Interpreter
import Weftik.Motion.OnePass

/-!
# What a Program of Moves Stores

A rapid move stores its target, except for a coordinate of zero of the second and the third
axis. A linear move whose phases run once stores the position that they lead to, for the axes
that move. So a program stores in each axis what the last of its lines that stores there
stores, and otherwise leaves the axis where it was.

## Main definitions

* `IsLinearMove`, `MovesRunOnce`: the moves that have a profile, and those programs whose
  profiles run each phase at most once.
* `storedBy`, `lastStored`: what a line and what a program store.

## Main results

* `emitCommands_runs`: the code of such a program stores this.
* `movesRunOnce_of_exec`: only the code of such a program ends.
-/

namespace Weftik.GCode

open Motion Symbolic Outcome Machine

variable {P : Platform}

/-! ### Stores -/

/-- The second table is the first one with some positions stored. -/
def Stores (new : Axis → Option P.F64) (t t' : SignalTable P) : Prop :=
  ∀ a : Axis, t' a.posSignal = ((new a).map HalValue.f64).or (t a.posSignal)

/-- One store after another. -/
theorem Stores.trans {new new' : Axis → Option P.F64} {t t' t'' : SignalTable P}
    (h : Stores new t t') (h' : Stores new' t' t'') :
    Stores (fun a => (new' a).or (new a)) t t'' := by
  intro a
  rw [h' a, h a, ← Option.or_assoc, ← Option.map_or]

/-- The position of an axis after a store. -/
theorem Stores.getD {new : Axis → Option P.F64} {t t' : SignalTable P} (h : Stores new t t')
    {a : Axis} {v : P.F64} (ht : t a.posSignal = some (.f64 v)) :
    t' a.posSignal = some (.f64 ((new a).getD v)) := by
  rw [h a, ht]
  cases new a <;> rfl

/-- No code stores nothing. -/
theorem leads_nil {new : Axis → Option P.F64} (hnone : ∀ a, new a = none) (pc : ℕ) :
    Leads pc [] (Stores new) := by
  refine Leads.of_takes fun vm => ⟨_, .nil (.refl _), fun a => ?_⟩
  rw [hnone a]
  rfl

section

variable (M : FloatMath P)

/-- A linear move that is long enough to get a profile. -/
def IsLinearMove (cmd : GCodeCommand P) (state : ModalState P) : Prop :=
  cmd.kind = .motion ∧ cmd.gCode = some 1 ∧
    P.f64.ge ((profileOf state (state.advance cmd)).distance M) (P.f64.lit 1 9) = true

instance (cmd : GCodeCommand P) (state : ModalState P) : Decidable (IsLinearMove M cmd state) :=
  inferInstanceAs (Decidable (_ ∧ _ ∧ _))

/-- The profile of every linear move has a cruise, and no phase has more than one cycle. -/
def MovesRunOnce (cmds : List (GCodeCommand P)) (state : ModalState P) : Prop :=
  ∀ before cmd after, cmds = before ++ cmd :: after →
    let state := before.foldl ModalState.advance state
    IsLinearMove M cmd state → RunsOnce M (profileOf state (state.advance cmd))

/-- Does a profile move an axis? The first one always. -/
def movesAxis (p : TrapezoidalProfile P) : Axis → Bool
  | .x => true
  | .y => moves M p.dy
  | .z => moves M p.dz

/-- What a line stores for an axis. -/
def storedBy (a : Axis) (cmd : GCodeCommand P) (state : ModalState P) : Option P.F64 :=
  let next := state.advance cmd
  if cmd.kind = .motion ∧ cmd.gCode = some 0 then
    let target := coord next.position a
    if a ≠ .x ∧ P.f64.eq target P.f64.zero = true then none else some target
  else if IsLinearMove M cmd state then
    let p := profileOf state next
    if p.hasCycles M && movesAxis M p a then some (coord (p.onePass M) a) else none
  else none

/-- What a program stores for an axis: what the last of its lines does that stores for it. -/
def lastStored (a : Axis) : List (GCodeCommand P) → ModalState P → Option P.F64
  | [], _ => none
  | cmd :: cmds, state =>
      (lastStored a cmds (state.advance cmd)).or (storedBy M a cmd state)

end

variable {M : FloatMath P} {state : ModalState P} {cmds : List (GCodeCommand P)}
  {cmd : GCodeCommand P}

theorem MovesRunOnce.head (h : MovesRunOnce M (cmd :: cmds) state)
    (hmove : IsLinearMove M cmd state) : RunsOnce M (profileOf state (state.advance cmd)) :=
  h [] cmd cmds rfl hmove

theorem MovesRunOnce.tail (h : MovesRunOnce M (cmd :: cmds) state) :
    MovesRunOnce M cmds (state.advance cmd) :=
  fun before c after hsplit => h (cmd :: before) c after (by rw [hsplit, List.cons_append])

/-! ### Rapid moves -/

/-- The table after a target has been stored. -/
def storeTable (t : SignalTable P) (value : P.F64) (posSignal enableSignal : String) :
    SignalTable P :=
  Function.update (Function.update t posSignal (some (.f64 value))) enableSignal
    (some (.bool true))

/-- The table after a rapid move. -/
def rapidTable (next : ModalState P) (t : SignalTable P) : SignalTable P :=
  let t := storeTable t next.currentX "axis.0.pos" "axis.0.enable"
  let t := if P.f64.eq next.currentY P.f64.zero then t
    else storeTable t next.currentY "axis.1.pos" "axis.1.enable"
  if P.f64.eq next.currentZ P.f64.zero then t
  else storeTable t next.currentZ "axis.2.pos" "axis.2.enable"

theorem takes_emitG0 (pc : ℕ) (next : ModalState P) (t : SignalTable P) :
    Takes pc (emitG0 next) (onlyTable t) (onlyTable (rapidTable next t)) := by
  rw [emitG0, rapidTable]
  cases P.f64.eq next.currentY P.f64.zero <;> cases P.f64.eq next.currentZ P.f64.zero <;>
    exact takes_of_run rfl ⟨rfl, by rintro _ _ ⟨⟩, by rintro _ ⟨⟩⟩

theorem stores_rapidTable (next : ModalState P) (t : SignalTable P) :
    Stores (fun a => if a ≠ .x ∧ P.f64.eq (coord next.position a) P.f64.zero = true then none
      else some (coord next.position a)) t (rapidTable next t) := by
  intro a
  cases a with
  | x =>
      rw [rapidTable]
      split <;> split <;> simp [Axis.posSignal, storeTable, Function.update] <;> rfl
  | y =>
      change rapidTable next t "axis.1.pos" = Option.or (Option.map _
        (if Axis.y ≠ .x ∧ P.f64.eq next.currentY P.f64.zero = true then none
          else some next.currentY)) (t "axis.1.pos")
      rw [rapidTable]
      cases P.f64.eq next.currentY P.f64.zero <;> cases P.f64.eq next.currentZ P.f64.zero <;>
        simp [storeTable, Function.update]
  | z =>
      change rapidTable next t "axis.2.pos" = Option.or (Option.map _
        (if Axis.z ≠ .x ∧ P.f64.eq next.currentZ P.f64.zero = true then none
          else some next.currentZ)) (t "axis.2.pos")
      rw [rapidTable]
      cases P.f64.eq next.currentY P.f64.zero <;> cases P.f64.eq next.currentZ P.f64.zero <;>
        simp [storeTable, Function.update]

theorem leads_emitG0 (pc : ℕ) (next : ModalState P) :
    Leads pc (emitG0 next) (Stores fun a =>
      if a ≠ .x ∧ P.f64.eq (coord next.position a) P.f64.zero = true then none
      else some (coord next.position a)) :=
  Leads.of_takes fun vm => ⟨_, (takes_emitG0 pc next vm.signals).mono
    (onlyTable_le (ofVm vm)) (.refl _), stores_rapidTable next vm.signals⟩

/-! ### Linear moves -/

/-- A linear move whose phases run once. -/
theorem leads_onePass (hcounts : CountsExactly M) {p : TrapezoidalProfile P}
    {program : HalProgram P} (hlength : P.f64.lt (p.distance M) (P.f64.lit 1 9) = false)
    (hruns : RunsOnce M p) (hprogram : generateTrapezoidalProgram M p = .ok program) (pc : ℕ) :
    Leads pc program.instructions (Stores fun a =>
      if p.hasCycles M && movesAxis M p a then some (coord (p.onePass M) a) else none) := by
  refine Leads.of_takes fun vm => ?_
  obtain ⟨l, htakes, hsame, hshows⟩ := takes_onePass hcounts hlength hruns hprogram pc vm
  refine ⟨l.located p, htakes, fun a => ?_⟩
  have htable : (l.located p).table = l.table := rfl
  cases hcycles : p.hasCycles M with
  | false =>
      rw [htable, hsame hcycles]
      rfl
  | true =>
      have h := hshows hcycles
      rw [htable]
      cases a with
      | x => exact h.x
      | y =>
          refine h.y.trans ?_
          change _ = Option.or (Option.map _ (if moves M p.dy = true then _ else _)) _
          split <;> rfl
      | z =>
          refine h.z.trans ?_
          change _ = Option.or (Option.map _ (if moves M p.dz = true then _ else _)) _
          split <;> rfl

/-! ### Programs -/

/-- The code of a line. -/
theorem emitCommand_runs (hcounts : CountsExactly M) (hcmd : IsPositioning cmd)
    (hruns : IsLinearMove M cmd state → RunsOnce M (profileOf state (state.advance cmd)))
    (out : Emitted P) :
    ∃ insts signals, emitCommand M cmd state out = .ok ⟨out.instructions ++ insts, signals⟩ ∧
      ∀ pc, Leads pc insts (Stores fun a => storedBy M a cmd state) := by
  cases hcmd with
  | distanceMode hkind hcode =>
      refine ⟨[], out.signals, ?_, leads_nil fun a => ?_⟩
      · simp only [emitCommand, hkind, List.append_nil]
        rfl
      · simp [storedBy, IsLinearMove, hkind]
  | move hkind hcode =>
      rcases hcode with hcode | hcode
      · refine ⟨emitG0 (state.advance cmd), out.signals, ?_, fun pc => ?_⟩
        · simp only [emitCommand, hkind, emitMotion, hcode]
          rfl
        · simp only [storedBy, if_pos (And.intro hkind hcode)]
          exact leads_emitG0 pc (state.advance cmd)
      · have hrapid : ¬(cmd.kind = .motion ∧ cmd.gCode = some 0) := by
          rw [hcode]
          exact fun h => absurd h.2 (by decide)
        by_cases hge : P.f64.ge ((profileOf state (state.advance cmd)).distance M)
            (P.f64.lit 1 9) = true
        · have hmove : IsLinearMove M cmd state := ⟨hkind, hcode, hge⟩
          obtain ⟨program, hprogram⟩ := exists_generateTrapezoidalProgram (hruns hmove).long
          refine ⟨program.instructions, out.signals ++ program.signals, ?_, fun pc => ?_⟩
          · simp only [emitCommand, hkind, emitMotion, hcode, Option.getD_some, hge, if_true,
              hprogram]
            rfl
          · simp only [storedBy, if_neg hrapid, if_pos hmove]
            exact leads_onePass hcounts (lt_eq_false_of_ge hge) (hruns hmove) hprogram pc
        · have hmove : ¬IsLinearMove M cmd state := fun h => hge h.2.2
          refine ⟨[], out.signals, ?_, leads_nil fun a => ?_⟩
          · simp only [emitCommand, hkind, emitMotion, hcode, Option.getD_some, if_neg hge,
              List.append_nil]
            rfl
          · rw [storedBy, if_neg hrapid, if_neg hmove]

/-- The code of a program whose linear moves run their phases once. -/
theorem emitCommands_runs (hcounts : CountsExactly M) (hcmds : ∀ cmd ∈ cmds, IsPositioning cmd)
    (hruns : MovesRunOnce M cmds state) (out : Emitted P) :
    ∃ insts signals, emitCommands M cmds state out = .ok ⟨out.instructions ++ insts, signals⟩ ∧
      ∀ pc, Leads pc insts (Stores fun a => lastStored M a cmds state) := by
  induction cmds generalizing state out with
  | nil =>
      refine ⟨[], out.signals, ?_, leads_nil fun _ => rfl⟩
      rw [emitCommands, List.append_nil]
      rfl
  | cons cmd cmds ih =>
      obtain ⟨insts, signals, hcmd, hleads⟩ :=
        emitCommand_runs hcounts (hcmds cmd List.mem_cons_self) hruns.head out
      obtain ⟨insts', signals', hrest, hleads'⟩ :=
        ih (fun c hc => hcmds c (List.mem_cons_of_mem cmd hc)) hruns.tail
          ⟨out.instructions ++ insts, signals⟩
      refine ⟨insts ++ insts', signals', ?_, fun pc => ?_⟩
      · rw [emitCommands, hcmd, ok_bind, hrest, List.append_assoc]
      · exact (hleads pc).append (hleads' _) fun t t' t'' h h' => h.trans h'

/-! ### Programs that end -/

theorem isSequential_emitG0 (next : ModalState P) : IsSequential (emitG0 next) := by
  rw [emitG0]
  split <;> split <;> exact isSequential_of_all rfl

variable {out out' : Emitted P}

/-- The profile of a linear move. -/
theorem emitCommand_linearMove (hmove : IsLinearMove M cmd state)
    (h : emitCommand M cmd state out = .ok out') :
    ∃ program, generateTrapezoidalProgram M (profileOf state (state.advance cmd)) = .ok program ∧
      out'.instructions = out.instructions ++ program.instructions := by
  obtain ⟨hkind, hcode, hge⟩ := hmove
  simp only [emitCommand, hkind, emitMotion, hcode, Option.getD_some, hge, if_true] at h
  cases hprogram : generateTrapezoidalProgram M (profileOf state (state.advance cmd)) with
  | error e => rw [hprogram] at h; cases h
  | ok program =>
      rw [hprogram] at h
      obtain rfl := Except.ok.inj h
      exact ⟨program, rfl, rfl⟩

/-- The instructions stay within their own indices. -/
def IsClosed (insts : List (Instruction P)) : Prop :=
  ∀ inst ∈ insts, inst.staysWithin insts.length = true

theorem IsClosed.append {insts more : List (Instruction P)} (h : IsClosed insts)
    (hmore : IsClosed more) : IsClosed (insts ++ more) := by
  intro inst hinst
  rw [List.length_append]
  rcases List.mem_append.mp hinst with hinst | hinst
  · exact Instruction.staysWithin_mono (Nat.le_add_right _ _) (h inst hinst)
  · exact Instruction.staysWithin_mono (Nat.le_add_left _ _) (hmore inst hinst)

/-- The code of positioning lines stays within its own indices. -/
theorem ofPieces_isClosed : OfPieces M IsPositioning IsClosed where
  nil := nofun
  append := IsClosed.append
  rapid := fun next => (isSequential_emitG0 next).staysWithin _
  profile := fun hge h => generateTrapezoidalProgram_staysWithin (lt_eq_false_of_ge hge) h
  arc := fun h => (isSequential_of_all (emitArc_all rfl (fun _ _ _ _ => rfl) h)).staysWithin _
  spindle := fun cmd => by
    rw [emitSpindle]
    split <;> split <;> exact (isSequential_of_all rfl).staysWithin _
  control := fun cmd hcmd hkind => by
    cases hcmd with
    | distanceMode h _ => cases h.symm.trans hkind
    | move h _ => cases h.symm.trans hkind

/-- If the compiled program ends, its linear moves run their phases once: no other profile
ends behind the constants of the program. -/
theorem movesRunOnce_of_exec (hcounts : CountsExactly M) {body rest : List (GCodeCommand P)}
    (hbody : ∀ cmd ∈ body, IsPositioning cmd) {initialModal : ModalState P}
    {program : HalProgram P}
    (hcompile : compileCommands M (body ++ rest) initialModal = .ok program) {vm vm' : Vm P}
    (hip : vm.ip = 0) (h : Exec (Vm.step program.instructions) vm (.ok vm')) :
    MovesRunOnce M body initialModal := by
  rintro before cmd after rfl state hmove
  obtain ⟨out, hout, hprogram⟩ := bind_eq_ok hcompile
  obtain rfl := Except.ok.inj hprogram
  rw [List.append_assoc, List.cons_append, emitCommands_append] at hout
  obtain ⟨out₁, hbefore, hout⟩ := bind_eq_ok hout
  obtain ⟨out₂, hcmd, hafter⟩ := bind_eq_ok hout
  obtain ⟨code, hcode, -⟩ := emitCommands_extends hbefore
  obtain ⟨profile, hprofile, hinsts⟩ := emitCommand_linearMove hmove hcmd
  obtain ⟨more, hmore, -⟩ := emitCommands_extends hafter
  obtain ⟨code', hcode', hcodeClosed⟩ :=
    ofPieces_isClosed.emitCommands (fun c hc => hbody c (List.mem_append_left _ hc)) hbefore
  have hclosed : IsClosed out₁.instructions :=
    hcode' ▸ IsClosed.append ((isSequential_of_all rfl).staysWithin _) hcodeClosed
  change Exec (Vm.step out.instructions) vm (.ok vm') at h
  rw [hmore, hinsts, List.append_assoc] at h
  refine runsOnce_of_exec hcounts (lt_eq_false_of_ge hmove.2.2) hprofile hclosed ?_ ?_ h
  · rw [hcode, List.length_append]
    exact Nat.le_add_right 2 _
  · omega

end Weftik.GCode
