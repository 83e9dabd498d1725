import Weftik.St.Wiring

/-!
# The Parts of ST Statements

The code of a statement is put together from parts, some of which have jumps out of a loop
that has not been compiled to its end. A part is code for any end of that loop; what the jumps
of the part lead to is stated for any program in which the code stands.

## Main definitions

* `Part`: the code of a part of a statement, and where its jumps lead.
* `Codegen.Grown`: the state after a part.

## Main results

* `Part.append`, `Part.loop`: parts from parts.
* `Part.expression`, `Part.condition`, `Part.jump`, `Part.exit`: the parts of statements.
-/

open Outcome Code

namespace Weftik.St

open Codegen

variable {P : Platform}

/-- The code of a part of a statement as a function of the end of the loop around it, and the
indices of the jumps that lead there. The other jumps lead to `limit` at the furthest. Where
the code stands in a program, the jumps lead as `W` says just when `wires` holds. -/
structure Part (base size limit : ℕ) (code : UInt32 → List (Instruction P)) (new : List UInt32)
    (W : List (Instruction P) → Option ℕ → Prop) (wires : Prop) : Prop where
  template : Template retarget base (fun _ u => code u) [] (new.map UInt32.toNat)
  length : ∀ u, (code u).length = size
  jumps : ∀ u, ∀ inst ∈ code u, ∀ t, inst.jumpsTo = some t → t ≤ limit ∨ new ≠ [] ∧ t = u.toNat
  calls : ∀ u, ∀ inst ∈ code u, ∀ t, inst.callsTo = some t → t = 0
  wired : ∀ u program exit, CodeAt program base (code u) →
    (new ≠ [] → exit = some u.toNat) → (W program exit ↔ wires)

theorem callsTo_of_ne_call {inst : Instruction P} (h : inst.opcode ≠ .call) :
    inst.callsTo = none := by
  obtain ⟨opcode, ops⟩ := inst
  cases opcode <;> first | rfl | exact absurd rfl h

namespace Part

variable {base size size₁ size₂ limit limit' : ℕ}
  {code code₁ code₂ : UInt32 → List (Instruction P)}
  {new new₁ new₂ : List UInt32} {W W' W₁ W₂ : List (Instruction P) → Option ℕ → Prop}
  {wires wires' wires₁ wires₂ : Prop}

/-- The same part, described in another way. -/
theorem congr (h : Part base size limit code new W wires)
    (hW : ∀ program exit, W' program exit ↔ W program exit) (hwires : wires ↔ wires') :
    Part base size limit code new W' wires' :=
  { h with
    wired := fun u program exit hcode hexit =>
      (hW program exit).trans ((h.wired u program exit hcode hexit).trans hwires) }

theorem mono (h : Part base size limit code new W wires) (hle : limit ≤ limit') :
    Part base size limit' code new W wires :=
  { h with jumps := fun u inst hmem t ht => (h.jumps u inst hmem t ht).imp_left (·.trans hle) }

/-- No code. -/
theorem nil (base limit : ℕ) :
    Part (P := P) base 0 limit (fun _ => []) [] (fun _ _ => True) True where
  template := .const base []
  length _ := rfl
  jumps _ := List.forall_mem_nil _
  calls _ := List.forall_mem_nil _
  wired _ _ _ _ _ := Iff.rfl

/-- A part after another. -/
theorem append (h₁ : Part base size₁ limit code₁ new₁ W₁ wires₁)
    (h₂ : Part (base + size₁) size₂ limit code₂ new₂ W₂ wires₂) :
    Part base (size₁ + size₂) limit (fun u => code₁ u ++ code₂ u) (new₁ ++ new₂)
      (fun program exit => W₁ program exit ∧ W₂ program exit) (wires₁ ∧ wires₂) where
  template := by
    rw [List.map_append]
    exact h₁.template.append fun _ u => by rw [h₁.length]; exact h₂.template
  length u := by rw [List.length_append, h₁.length, h₂.length]
  jumps u inst hmem t ht := by
    rcases List.mem_append.mp hmem with hmem | hmem
    · refine (h₁.jumps u inst hmem t ht).imp_right fun h => ⟨fun hnil => h.1 ?_, h.2⟩
      exact (List.append_eq_nil_iff.mp hnil).1
    · refine (h₂.jumps u inst hmem t ht).imp_right fun h => ⟨fun hnil => h.1 ?_, h.2⟩
      exact (List.append_eq_nil_iff.mp hnil).2
  calls u inst hmem := by
    rcases List.mem_append.mp hmem with hmem | hmem
    · exact h₁.calls u inst hmem
    · exact h₂.calls u inst hmem
  wired u program exit hcode hexit := by
    obtain ⟨hcode₁, hcode₂⟩ := codeAt_append.mp hcode
    rw [h₁.length] at hcode₂
    have hexit₁ : new₁ ≠ [] → exit = some u.toNat :=
      fun hne => hexit fun hnil => hne (List.append_eq_nil_iff.mp hnil).1
    have hexit₂ : new₂ ≠ [] → exit = some u.toNat :=
      fun hne => hexit fun hnil => hne (List.append_eq_nil_iff.mp hnil).2
    exact and_congr (h₁.wired u program exit hcode₁ hexit₁)
      (h₂.wired u program exit hcode₂ hexit₂)

/-- A loop: the jumps out of it have got their target. -/
theorem loop (h : Part base size limit code new W wires) {u : UInt32} (hu : u.toNat ≤ limit) :
    Part base size limit (fun _ => code u) [] (fun program _ => W program (some u.toNat))
      wires where
  template := .const base (code u)
  length _ := h.length u
  jumps _ inst hmem t ht := by
    refine Or.inl ?_
    rcases h.jumps u inst hmem t ht with hle | ⟨-, rfl⟩
    · exact hle
    · exact hu
  calls _ := h.calls u
  wired _ program _ hcode _ := h.wired u program _ hcode fun _ => rfl

/-- A part outside of all loops. -/
theorem outside (h : Part base size limit code [] W wires) :
    Part base size limit (fun _ => code 0) [] (fun program _ => W program none) wires where
  template := .const base (code 0)
  length _ := h.length 0
  jumps _ inst hmem t ht := Or.inl ((h.jumps 0 inst hmem t ht).resolve_right (absurd rfl ·.1))
  calls _ := h.calls 0
  wired _ program _ hcode _ := h.wired 0 program none hcode (absurd rfl)

/-! ### The parts of statements -/

/-- An instruction that neither jumps nor calls. -/
theorem single (base limit : ℕ) (inst : Instruction P) (hjumps : inst.jumpsTo = none)
    (hcalls : inst.callsTo = none) :
    Part base 1 limit (fun _ => [inst]) [] (fun _ _ => True) True where
  template := .const base [inst]
  length _ := rfl
  jumps _ inst' hmem t ht := by
    rw [List.mem_singleton.mp hmem, hjumps] at ht
    cases ht
  calls _ inst' hmem t ht := by
    rw [List.mem_singleton.mp hmem, hcalls] at ht
    cases ht
  wired _ _ _ _ _ := Iff.rfl

variable (limit) in
/-- Code whose jumps go forward. -/
theorem expression {part : List (Instruction P)} (h : Forward base (base + size) part)
    (hlen : part.length = size) (hle : base + size ≤ limit) :
    Part base size limit (fun _ => part) [] (fun program _ => Within program base size [])
      True where
  template := .const base part
  length _ := hlen
  jumps _ inst hmem t ht := by
    obtain ⟨i, hi⟩ := List.mem_iff_getElem?.mp hmem
    exact Or.inl ((h.jumps i inst t hi ht).2.trans hle)
  calls _ inst hmem t ht := by
    rw [callsTo_of_ne_call (h.calls inst hmem)] at ht
    cases ht
  wired _ program _ hcode _ := by
    subst hlen
    refine iff_true_intro ⟨fun i inst t hi hinst ht => ?_, fun i inst hi hinst => ?_⟩
    · rw [hcode.getElem? hi] at hinst
      exact Or.inr (h.jumps i inst t hinst ht)
    · rw [hcode.getElem? hi] at hinst
      exact h.calls inst (List.mem_of_getElem? hinst)

/-- The code of a condition whose first list has got a target, and the second one too if it
has jumps. -/
theorem condition {e : Expr P} {label : ℕ} {code : UInt32 → UInt32 → List (Instruction P)}
    {elses ends : List UInt32} (h : CondLayout e base size code elses ends) {t u : UInt32}
    (ht : t.toNat = label) (hle : base + size ≤ limit) (hlabel : label ≤ limit)
    (hu : u.toNat ≤ limit) (hwires : wires ↔ (e.holes.2 = true → u.toNat = label))
    (hback : u.toNat = label ∨ u.toNat = 0) :
    Part base size limit (fun _ => code t u) []
      (fun program _ => Within program base size [label]) wires where
  template := .const base (code t u)
  length _ := h.length t u
  jumps _ inst hmem k hk := by
    obtain ⟨i, hi⟩ := List.mem_iff_getElem?.mp hmem
    refine Or.inl ?_
    rcases h.jumps t u i inst k hi hk with ⟨-, rfl⟩ | ⟨-, rfl⟩ | hforward
    · rw [ht]
      exact hlabel
    · exact hu
    · exact hforward.2.trans hle
  calls _ inst hmem k hk := by
    rw [callsTo_of_ne_call (h.calls t u inst hmem)] at hk
    cases hk
  wired _ program _ hcode _ := by
    refine Iff.trans ⟨fun hwithin hole => ?_, fun hholes => ⟨?_, ?_⟩⟩ hwires.symm
    · obtain ⟨i, inst, hinst, hjumps⟩ := mem_jumpTargets.mp (h.endJump hole t u)
      have hi := (List.getElem?_eq_some_iff.mp hinst).1
      rw [← hcode.getElem? hi] at hinst
      rw [h.length] at hi
      rcases hwithin.jumps i inst _ hi hinst hjumps with hlabels | hforward
      · exact List.mem_singleton.mp hlabels
      · exact hback.resolve_right (by omega)
    · intro i inst k hi hinst hk
      rw [hcode.getElem? (by rwa [h.length])] at hinst
      rcases h.jumps t u i inst k hinst hk with ⟨-, rfl⟩ | ⟨hole, rfl⟩ | hforward
      · exact Or.inl (List.mem_singleton.mpr ht)
      · exact Or.inl (List.mem_singleton.mpr (hholes hole))
      · exact Or.inr hforward
    · intro i inst hi hinst
      rw [hcode.getElem? (by rwa [h.length])] at hinst
      exact h.calls t u inst (List.mem_of_getElem? hinst)

variable (limit) in
/-- The code of a condition both of whose lists have got the target. -/
theorem ifCondition {e : Expr P} {label : ℕ} {code : UInt32 → UInt32 → List (Instruction P)}
    {elses ends : List UInt32} (h : CondLayout e base size code elses ends) {t : UInt32}
    (ht : t.toNat = label) (hle : base + size ≤ limit) (hlabel : label ≤ limit) :
    Part base size limit (fun _ => code t t) []
      (fun program _ => Within program base size [label]) True :=
  condition h ht hle hlabel (ht ▸ hlabel) (by simp [ht]) (Or.inl ht)

variable (limit) in
/-- The code of a condition whose second list has been forgotten. -/
theorem loopCondition {e : Expr P} {label : ℕ} {code : UInt32 → UInt32 → List (Instruction P)}
    {elses ends : List UInt32} (h : CondLayout e base size code elses ends) {t : UInt32}
    (ht : t.toNat = label) (hpos : 0 < label) (hle : base + size ≤ limit)
    (hlabel : label ≤ limit) :
    Part base size limit (fun _ => code t 0) []
      (fun program _ => Within program base size [label]) ((!e.holes.2) = true) := by
  refine condition h ht hle hlabel (Nat.zero_le _) ?_ (Or.inr rfl)
  have hne : (0 : UInt32).toNat ≠ label := hpos.ne
  cases e.holes.2 with
  | true => exact iff_of_false Bool.false_ne_true fun h => hne (h rfl)
  | false => exact iff_of_true rfl nofun

/-- A jump. -/
theorem jump (inst : Instruction P) {label : UInt32} {target : ℕ}
    (hjumps : inst.jumpsTo = some label.toNat) (hlabel : label.toNat = target)
    (hle : target ≤ limit) :
    Part base 1 limit (fun _ => [inst]) [] (fun program _ => JumpsAt program base target) True where
  template := .const base [inst]
  length _ := rfl
  jumps _ inst' hmem t ht := by
    rw [List.mem_singleton.mp hmem, hjumps, hlabel] at ht
    exact Or.inl (Option.some.inj ht ▸ hle)
  calls _ inst' hmem t ht := by
    rw [List.mem_singleton.mp hmem] at ht
    obtain ⟨opcode, ops⟩ := inst
    cases opcode <;> first | cases ht | cases hjumps
  wired _ program _ hcode _ := by
    rw [hlabel] at hjumps
    exact iff_true_intro ⟨inst, hcode.head, hjumps⟩

/-- A jump out of the loop. -/
theorem exit {idx : UInt32} (hidx : idx.toNat = base) :
    Part (P := P) base 1 limit (fun u => [.jump u]) [idx]
      (fun program exit => ∃ exitLabel, exit = some exitLabel ∧ JumpsAt program base exitLabel)
      True where
  template := by
    rw [List.map_singleton, hidx]
    exact (Template.hole base (fun u => Instruction.jump u) fun _ _ => rfl).swap
  length _ := rfl
  jumps u inst hmem t ht := by
    rw [List.mem_singleton.mp hmem] at ht
    exact Or.inr ⟨nofun, (Option.some.inj ht).symm⟩
  calls u inst hmem t ht := by
    rw [List.mem_singleton.mp hmem] at ht
    cases ht
  wired u program exit hcode hexit :=
    iff_true_intro ⟨u.toNat, hexit nofun, .jump u, hcode.head, rfl⟩

/-- A call that has no target, and where there is no function. -/
theorem call {callee : ℕ → Prop} (hcallee : ¬ callee 0) :
    Part (P := P) base 1 limit (fun _ => [.call 0]) []
      (fun program _ => ∃ target, callee target ∧ CallsAt program base target) False where
  template := .const base _
  length _ := rfl
  jumps _ inst hmem t ht := by
    rw [List.mem_singleton.mp hmem] at ht
    cases ht
  calls _ inst hmem t ht := by
    rw [List.mem_singleton.mp hmem] at ht
    exact (Option.some.inj ht).symm
  wired _ program _ hcode _ := by
    refine iff_false_intro ?_
    rintro ⟨target, htarget, inst, hinst, hcalls⟩
    rw [hcode.head] at hinst
    cases hinst
    cases hcalls
    exact hcallee htarget

end Part

/-! ### The state after a part -/

/-- The state after a part of a statement. Outside of all loops there are no jumps out of
one. -/
def Codegen.Grown (cg : Codegen P) (size : ℕ) (W : List (Instruction P) → Option ℕ → Prop)
    (wires : Prop) (cg' : Codegen P) : Prop :=
  ∃ code new, cg' = cg.grow (code 0) new ∧ (cg.inLoop = false → new = []) ∧
    Part cg.instructions.length size (cg.instructions.length + size) code new W wires

/-- The state after code whose jumps go forward. -/
theorem Codegen.Emits.grown {cg cg' : Codegen P} {size : ℕ} (h : cg.Emits size cg') :
    cg.Grown size (fun program _ => Within program cg.instructions.length size []) True cg' := by
  obtain ⟨code, rfl, rfl, hforward⟩ := h
  exact ⟨fun _ => code, [], emit_eq_grow _ _, fun _ => rfl, .expression _ hforward rfl le_rfl⟩

/-- A loop ends, and the jumps out of it lead behind it. -/
theorem popLoop_grow {cg : Codegen P} {size limit : ℕ} {code : UInt32 → List (Instruction P)}
    {new : List UInt32} {W : List (Instruction P) → Option ℕ → Prop} {wires : Prop}
    (h : Part cg.instructions.length size limit code new W wires) {label : UInt32}
    (hlabel : UInt32.ofNat (cg.instructions.length + size) = label) :
    (cg.pushLoop.grow (code 0) new).popLoop = cg.emit (code label) := by
  have hexits : (cg.pushLoop.grow (code 0) new).loopExits = new :: cg.loopExits := rfl
  have hidx : (cg.pushLoop.grow (code 0) new).currentIdx = label := by
    rw [← hlabel, ← h.length 0, ← length_grow cg (code 0) new]
    rfl
  rw [popLoop, hexits, hidx]
  refine (patchJumps_eq _ _ _).trans ?_
  have hfill := h.template.fill_ends cg.instructions [] 0 0 label rfl
  rw [List.append_nil, List.append_nil] at hfill
  exact congrArg (fun insts => { cg with instructions := insts }) hfill

/-- The state after a loop. -/
theorem grown_popLoop {cg : Codegen P} {size : ℕ} {code : UInt32 → List (Instruction P)}
    {new : List UInt32} {W : List (Instruction P) → Option ℕ → Prop} {wires : Prop}
    (h : Part cg.instructions.length size (cg.instructions.length + size) code new W wires)
    (hlt : cg.instructions.length + size < 2 ^ 32) :
    cg.Grown size (fun program _ => W program (some (cg.instructions.length + size))) wires
      (cg.pushLoop.grow (code 0) new).popLoop := by
  have hlabel := UInt32.toNat_ofNat_of_lt hlt
  refine ⟨fun _ => code (UInt32.ofNat (cg.instructions.length + size)), [],
    (popLoop_grow h rfl).trans (emit_eq_grow _ _), fun _ => rfl, ?_⟩
  have hloop := h.loop hlabel.le
  rw [hlabel] at hloop
  exact hloop

/-- The same state, described in another way. -/
theorem Codegen.Grown.congr {cg cg' : Codegen P} {size : ℕ}
    {W W' : List (Instruction P) → Option ℕ → Prop} {wires wires' : Prop}
    (h : cg.Grown size W wires cg') (hW : ∀ program exit, W' program exit ↔ W program exit)
    (hwires : wires ↔ wires') : cg.Grown size W' wires' cg' := by
  obtain ⟨code, new, hcg', hnew, hpart⟩ := h
  exact ⟨code, new, hcg', hnew, hpart.congr hW hwires⟩

/-- A part behind code whose jumps go forward. -/
theorem Codegen.Emits.trans_grown {cg cg₁ cg₂ : Codegen P} {m k : ℕ}
    {W : List (Instruction P) → Option ℕ → Prop} {wires : Prop} (h₁ : cg.Emits m cg₁)
    (h₂ : cg₁.Grown k W wires cg₂) :
    cg.Grown (m + k)
      (fun program exit => Within program cg.instructions.length m [] ∧ W program exit) wires
      cg₂ := by
  obtain ⟨before, rfl, rfl, hforward⟩ := h₁
  obtain ⟨code, new, rfl, hnew, hpart⟩ := h₂
  rw [length_emit] at hpart
  refine ⟨fun u => before ++ code u, new, emit_grow _ _ _ _, hnew, ?_⟩
  have hparts := (Part.expression _ hforward rfl (Nat.le_add_right _ k)).append hpart
  rw [Nat.add_assoc] at hparts
  exact hparts.congr (fun _ _ => Iff.rfl) (by rw [true_and])

end Weftik.St
