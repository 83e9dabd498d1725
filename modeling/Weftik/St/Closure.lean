import Weftik.St.Parser
import Weftik.St.Statements

/-!
# The ST Compiler from Text to Program

`compile` runs the lexer, the parser and the code generator. For every text it should return
a program or an error, and the jumps and the calls of the program should stay inside it and
lead where the source says. The code generator panics at an `EXIT` outside of all loops and
where a fourth scratch register is needed, it forgets the second list of jumps of a condition
of `WHILE` or `REPEAT`, and it leaves every call of a function at index `0`.

## Main definitions

* `compile`: the compiler.
* `Closes`: what it should do for a text.
* `Sound`: nothing in the text makes it do otherwise.

## Main results

* `closes_iff_sound`: it does what it should just for the texts that are sound.
-/

open Outcome Code

namespace Weftik.St

open Codegen

variable {P : Platform}

/-! ### Functions and programs -/

/-- The checks of the functions. -/
def functionsChecks (n : Names) : List (FunctionDef P) → Except Abort Unit
  | [] => pure ()
  | func :: functions => do
      stmtsChecks n func.body false
      functionsChecks n functions

/-- The size of the code of the functions; each has a `Ret` at its end. -/
def functionsSize (n : Names) : List (FunctionDef P) → ℕ
  | [] => 0
  | func :: functions => stmtsSize n func.body + (1 + functionsSize n functions)

/-- None of the functions has anything that is left at its placeholder. -/
def functionsWire (n : Names) : List (FunctionDef P) → Bool
  | [] => true
  | func :: functions => stmtsWire n func.body && functionsWire n functions

/-- One of the functions, whose code stands at `base`, has the name and begins at the index. -/
def FunctionEntryAt (n : Names) : List (FunctionDef P) → (base : ℕ) → String → ℕ → Prop
  | [], _, _, _ => False
  | func :: functions, base, name, target =>
      func.name = name ∧ base = target ∨
        FunctionEntryAt n functions (base + stmtsSize n func.body + 1) name target

/-- The jumps and the calls of the functions lead where they should. -/
def FunctionsWired (n : Names) (entry : String → ℕ → Prop) (insts : List (Instruction P)) :
    List (FunctionDef P) → (base : ℕ) → Prop
  | [], _ => True
  | func :: functions, base =>
      StmtsWired n entry insts func.body base none ∧
        FunctionsWired n entry insts functions (base + stmtsSize n func.body + 1)

namespace Program

variable (program : Program P)

/-- The declared variables. -/
def names : Names :=
  ⟨declareRegisters program.vars.zipIdx fun _ => none, declareTypes program.vars fun _ => none⟩

/-- The checks of a program. -/
def checks : Except Abort Unit := do
  if maxVarRegs < program.vars.length then .error (.error (.tooManyVariables maxVarRegs))
  stmtsChecks program.names program.body false
  functionsChecks program.names program.functions

/-- The size of the code of a program; a `Halt` stands behind its statements. -/
def size : ℕ :=
  stmtsSize program.names program.body + (1 + functionsSize program.names program.functions)

/-- The entries of the functions, which stand behind the `Halt`. -/
def Entry (name : String) (target : ℕ) : Prop :=
  FunctionEntryAt program.names program.functions
    (stmtsSize program.names program.body + 1) name target

/-- The jumps and the calls of the compiled program lead where the source says. -/
def Wired (hp : HalProgram P) : Prop :=
  StmtsWired program.names program.Entry hp.instructions program.body 0 none ∧
    FunctionsWired program.names program.Entry hp.instructions program.functions
      (stmtsSize program.names program.body + 1)

/-- Nothing in the program is left at its placeholder. -/
def wires : Bool :=
  stmtsWire program.names program.body && functionsWire program.names program.functions

/-- The jumps and the calls of the compiled program stay inside it, and lead where the source
says. -/
structure Closed (hp : HalProgram P) : Prop where
  inside : ∀ inst ∈ hp.instructions, ∀ t, inst.jumpsTo = some t ∨ inst.callsTo = some t →
    t < hp.instructions.length
  wired : program.Wired hp

end Program

/-! ### From text to program -/

/-- Why `compile` returns no program; the last two are no errors that it returns. -/
inductive Failure (P : Platform)
  | lex (e : LexError)
  | parse (e : ParseError P)
  | codegen (e : CodegenError)
  | panic (p : Panic)
  | outOfFuel
  deriving DecidableEq

/-- Is this an error that `compile` returns? -/
def Failure.isReturned : Failure P → Bool
  | .lex _ | .parse _ | .codegen _ => true
  | .panic _ | .outOfFuel => false

/-- The program of a text. -/
def ast (U : CharTables) (source : String) : Except (Failure P) (Program P) :=
  match tokenize U source with
  | .error (.error e) => .error (.lex e)
  | .error .outOfFuel => .error .outOfFuel
  | .ok tokens =>
      match parseProgram tokens with
      | .error (.error e) => .error (.parse e)
      | .error .outOfFuel => .error .outOfFuel
      | .ok program => .ok program

/-- The code of a program. -/
def codegen (program : Program P) : Except (Failure P) (HalProgram P) :=
  match compileAst program with
  | .error (.error e) => .error (.codegen e)
  | .error (.panic p) => .error (.panic p)
  | .ok hp => .ok hp

/-- The compiler. -/
def compile (U : CharTables) (source : String) : Except (Failure P) (HalProgram P) :=
  ast U source >>= codegen

/-- For this text, the compiler returns an error, or a program whose jumps and calls stay
inside it and lead where the source says. -/
def Closes (P : Platform) (U : CharTables) (source : String) : Prop :=
  Ends (compile (P := P) U source)
    (fun hp => ∃ program : Program P, ast U source = .ok program ∧ program.Closed hp)
    (·.isReturned = true)

/-- Nothing in the program makes the code generator panic, and nothing is left at its
placeholder: until a check fails, each `EXIT` is inside of a loop and no fourth scratch
register is needed; and if all checks succeed, only function blocks with enough arguments are
called, and the conditions of `WHILE` and `REPEAT` have no jumps of the second list. -/
def Program.isSound (program : Program P) : Bool :=
  match program.checks with
  | .ok () => program.wires
  | .error (.error _) => true
  | .error (.panic _) => false

/-- The program of this text, if there is one, is sound. -/
def Sound (P : Platform) (U : CharTables) (source : String) : Prop :=
  ∀ program : Program P, ast U source = .ok program → program.isSound = true

/-! ### The code of a program -/

variable {n : Names} {entry : String → ℕ → Prop}

/-- Some statements outside of all loops. -/
theorem compileStmts_outside (hentry : ∀ name, ¬ entry name 0) (stmts : List (Statement P))
    {cg : Codegen P} (hlevel : cg.Level 0) (hnames : cg.names = n) (hout : cg.inLoop = false)
    (hsmall : cg.instructions.length + stmtsSize n stmts < 2 ^ 32) :
    Agree (fun cg' _ => ∃ code, cg' = cg.emit code ∧
        Part cg.instructions.length (stmtsSize n stmts)
          (cg.instructions.length + stmtsSize n stmts) (fun _ => code) []
          (fun insts _ => StmtsWired n entry insts stmts cg.instructions.length none)
          (stmtsWire n stmts = true))
      (compileStmts stmts cg) (stmtsChecks n stmts false) := by
  have hplaces := compileStmts_places hentry stmts cg hlevel hnames hsmall
  rw [hout] at hplaces
  refine hplaces.mono fun cg' _ hcg' => ?_
  obtain ⟨code, new, rfl, hnew, hpart⟩ := hcg'
  obtain rfl := hnew hout
  exact ⟨code 0, (emit_eq_grow _ _).symm, hpart.outside⟩

/-- The functions. -/
theorem compileFunctions (hentry : ∀ name, ¬ entry name 0) (functions : List (FunctionDef P))
    (cg : Codegen P) (table : List FunctionEntry) (hlevel : cg.Level 0) (hnames : cg.names = n)
    (hout : cg.inLoop = false) (limit : ℕ)
    (hsmall : cg.instructions.length + functionsSize n functions < 2 ^ 32)
    (hlimit : cg.instructions.length + functionsSize n functions ≤ limit + 1) :
    Agree (fun p _ => ∃ code, p.1 = cg.emit code ∧
        Part cg.instructions.length (functionsSize n functions) limit (fun _ => code) []
          (fun insts _ => FunctionsWired n entry insts functions cg.instructions.length)
          (functionsWire n functions = true))
      (functions.foldlM (fun p func => do
        let (cg, entry) ← compileFunction func p.1
        pure (cg, p.2 ++ [entry])) (cg, table)) (functionsChecks n functions) := by
  induction functions generalizing cg table with
  | nil =>
      simp only [functionsSize, functionsWire, FunctionsWired]
      refine ⟨[], ?_, .nil _ _⟩
      rw [emit, List.append_nil]
  | cons func functions ih =>
      simp only [functionsSize, functionsWire, FunctionsWired, Bool.and_eq_true] at hsmall hlimit ⊢
      rw [List.foldlM_cons, functionsChecks]
      dsimp only [compileFunction]
      rw [bind_assoc, bind_assoc]
      refine Agree.bind (compileStmts_outside hentry func.body hlevel hnames hout (by omega))
        fun cg₁ _ hcg₁ => ?_
      obtain ⟨code, rfl, hpart⟩ := hcg₁
      simp only [pure_bind, emit_emit]
      have hret : (cg.emit (code ++ [.ret none])).instructions.length =
          cg.instructions.length + stmtsSize n func.body + 1 := by
        rw [length_emit, List.length_append, hpart.length 0]
        rfl
      refine (ih _ _ (hlevel.emit _) hnames hout (by rw [hret]; omega)
        (by rw [hret]; omega)).mono
        fun p _ hp => ?_
      obtain ⟨code', hp, hpart'⟩ := hp
      rw [hret] at hpart'
      refine ⟨code ++ ([.ret none] ++ code'), ?_, ?_⟩
      · rw [hp, emit_emit, List.append_assoc]
      · have hparts := (hpart.mono (by omega)).append
          ((Part.single _ limit (.ret none) rfl rfl).append hpart')
        exact hparts.congr (fun insts exit => by rw [true_and]) (by rw [true_and])

theorem functionEntryAt_ne_zero {functions : List (FunctionDef P)} {base : ℕ} {name : String}
    (hbase : 0 < base) : ¬ FunctionEntryAt n functions base name 0 := by
  induction functions generalizing base with
  | nil => exact id
  | cons func functions ih =>
      rintro (⟨-, rfl⟩ | hrest)
      · exact absurd hbase (Nat.lt_irrefl 0)
      · exact ih (Nat.succ_pos _) hrest

/-- The code generator fails as the checks of the program do. Otherwise the jumps and the
calls stay inside the program, and they lead where they should just when nothing is left at
its placeholder. -/
theorem compileAst_closed {program : Program P} (hsmall : program.size < 2 ^ 32) :
    Agree (fun hp _ => program.Closed hp ↔ program.wires = true) (compileAst program)
      program.checks := by
  have hentry : ∀ name, ¬ program.Entry name 0 := fun name =>
    functionEntryAt_ne_zero (Nat.succ_pos _)
  rw [Program.size] at hsmall
  rw [compileAst, Program.checks, Codegen.new]
  by_cases hvars : maxVarRegs < program.vars.length
  · rw [if_pos hvars, if_pos hvars]
    exact rfl
  · rw [if_neg hvars, if_neg hvars, pure_bind]
    refine Agree.bind (compileStmts_outside hentry program.body ⟨rfl, rfl, rfl⟩ rfl rfl
      (by rw [List.length_nil]; omega)) fun cg₁ _ hcg₁ => ?_
    obtain ⟨main, rfl, hmain⟩ := hcg₁
    rw [List.length_nil, Nat.zero_add] at hmain
    have hlen : (main ++ [Instruction.halt]).length =
        stmtsSize program.names program.body + 1 := by
      rw [List.length_append, hmain.length 0]
      rfl
    rw [emit_emit]
    have hfunctions := compileFunctions (n := program.names) hentry program.functions
      (Codegen.emit ⟨_, _, [], fun _ => true, []⟩ (main ++ [Instruction.halt])) []
      ⟨rfl, rfl, rfl⟩ rfl rfl (stmtsSize program.names program.body + functionsSize program.names
          program.functions)
      (by rw [length_emit, List.length_nil, hlen]; omega)
      (by rw [length_emit, List.length_nil, hlen]; omega)
    refine Agree.then_pure hfunctions fun p _ hp => ?_
    obtain ⟨rest, hp, hrest⟩ := hp
    rw [length_emit, List.length_nil, hlen, Nat.zero_add] at hrest
    have hinsts : p.1.instructions = main ++ ([Instruction.halt] ++ rest) := by
      rw [hp, emit_emit, List.append_assoc]
      rfl
    have hhalt := (Part.single (stmtsSize program.names program.body) _ (Instruction.halt (P := P))
      rfl rfl).append hrest
    have hparts := (hmain.mono (Nat.le_add_right _ _)).append (by rw [Nat.zero_add]; exact hhalt)
    have hlength := hparts.length 0
    have hcode : CodeAt (main ++ ([Instruction.halt] ++ rest)) 0
        (main ++ ([Instruction.halt] ++ rest)) := List.prefix_rfl
    have hwired := hparts.wired 0 _ none hcode (absurd rfl)
    refine Iff.trans ⟨fun h => ?_, fun h => ⟨fun inst hmem t ht => ?_, ?_⟩⟩ (hwired.trans ?_)
    · obtain ⟨hbody, hfuncs⟩ := h.wired
      simp only [hinsts] at hbody hfuncs
      exact ⟨hbody, trivial, hfuncs⟩
    · simp only [hinsts, hlength] at hmem ⊢
      rcases ht with ht | ht
      · rcases hparts.jumps 0 inst hmem t ht with hle | ⟨hne, -⟩
        · omega
        · exact absurd rfl hne
      · rw [hparts.calls 0 inst hmem t ht]
        omega
    · simp only [Program.Wired, hinsts]
      exact ⟨h.1, h.2.2⟩
    · rw [true_and, Program.wires, Bool.and_eq_true]

/-! ### The compiler -/

/-- The lexer and the parser return a program or an error. -/
theorem ast_ends (U : CharTables) (source : String) :
    Ends (ast (P := P) U source) (fun _ => True) (·.isReturned = true) := by
  rw [ast]
  have hlex := tokenize_terminates (P := P) U source
  cases htokens : tokenize (P := P) U source with
  | error stop =>
      cases stop with
      | error e => exact rfl
      | outOfFuel => exact absurd rfl (hlex.of_error htokens)
  | ok tokens =>
      have hparse := parseProgram_terminates tokens
      dsimp only
      cases hprogram : parseProgram tokens with
      | error stop =>
          cases stop with
          | error e => exact rfl
          | outOfFuel => exact absurd rfl (hparse.of_error hprogram)
      | ok program => trivial

theorem ast_of_parse {U : CharTables} {source : String} {tokens : Tokens P}
    {program : Program P} (htokens : tokenize U source = .ok tokens)
    (hprogram : parseProgram tokens = .ok program) : ast U source = .ok program := by
  rw [ast, htokens]
  dsimp only
  rw [hprogram]

/-- The code generator does what it should just for the programs that are sound. -/
theorem codegen_closes_iff {program : Program P} (hsmall : program.size < 2 ^ 32) :
    Ends (codegen program) (fun hp => program.Closed hp) (·.isReturned = true) ↔
      program.isSound = true := by
  have hclosed := compileAst_closed hsmall
  rw [codegen, Program.isSound]
  cases hchecks : program.checks with
  | error abort =>
      rw [hchecks] at hclosed
      rw [hclosed.of_error_right]
      cases abort <;> exact Iff.rfl
  | ok _ =>
      rw [hchecks] at hclosed
      obtain ⟨hp, hhp, hiff⟩ := hclosed.of_ok_right
      rw [hhp]
      exact hiff

/-- The compiler does what it should just for the texts that are sound, as long as the
indices of their instructions fit into `u32`. -/
theorem closes_iff_sound (U : CharTables) (source : String)
    (hsmall : ∀ program : Program P, ast U source = .ok program → program.size < 2 ^ 32) :
    Closes P U source ↔ Sound P U source := by
  rw [Closes, Sound, compile]
  cases hast : ast (P := P) U source with
  | error e =>
      exact iff_of_true ((ast_ends U source).of_error hast) nofun
  | ok program =>
      have hiff := codegen_closes_iff (hsmall program hast)
      constructor
      · rintro hends program' ⟨⟩
        refine hiff.mp (hends.mono (fun hp h => ?_) fun _ => id)
        obtain ⟨program', hprogram', hclosed⟩ := h
        cases hprogram'
        exact hclosed
      · intro hsound
        exact (hiff.mpr (hsound program rfl)).mono (fun hp h => ⟨program, rfl, h⟩) fun _ => id

theorem closes_iff_sound_empty :
    Closes .exact .ascii "PROGRAM p END_PROGRAM" ↔ Sound .exact .ascii "PROGRAM p END_PROGRAM" :=
  closes_iff_sound .ascii "PROGRAM p END_PROGRAM" fun program hprogram => by
    have hast := ast_of_parse
      (show tokenize (P := .exact) .ascii "PROGRAM p END_PROGRAM" =
        .ok [⟨.program, 1, 1⟩, ⟨.identifier "p", 1, 9⟩, ⟨.endProgram, 1, 11⟩] by decide)
      (show parseProgram _ = .ok ⟨"p", [], [], []⟩ from rfl)
    rw [Except.ok.inj (hprogram.symm.trans hast)]
    exact (by decide : 1 < 2 ^ 32)

theorem not_closes_of_panic {U : CharTables} {source : String} {program : Program P}
    {p : Panic} (hast : ast U source = .ok program)
    (hpanic : codegen program = .error (.panic p)) : ¬ Closes P U source := by
  intro hcloses
  rw [Closes, compile, hast, ok_bind, hpanic] at hcloses
  exact Bool.false_ne_true hcloses

/-- An `EXIT` outside of all loops makes the code generator panic. -/
theorem exit_panics : ¬ Closes .exact .ascii "PROGRAM p EXIT; END_PROGRAM" :=
  not_closes_of_panic
    (ast_of_parse
      (show tokenize .ascii "PROGRAM p EXIT; END_PROGRAM" =
        .ok [⟨.program, 1, 1⟩, ⟨.identifier "p", 1, 9⟩, ⟨.exit, 1, 11⟩, ⟨.semicolon, 1, 15⟩,
          ⟨.endProgram, 1, 17⟩] by decide)
      (show parseProgram _ = .ok ⟨"p", [], [.exit], []⟩ from rfl))
    (show codegen _ = .error (.panic
      (.message "called `Option::unwrap()` on a `None` value")) from rfl)

end Weftik.St
