import Weftik.Frame
import Weftik.Timers

/-!
# The Instances of the Function Blocks

The machine keeps the instances of its function blocks in four tables, one for each kind, and
numbers them from zero in each. An instance that has not been called is as a new one. An
instruction changes at most one instance, the one that it calls, and what it leaves there
depends on the inputs of the call alone.

## Main definitions

* `Vm.Block`, `Vm.block`: the state of an instance, and the instance of a kind at an index.
* `Vm.Call`, `Vm.Block.call`: the inputs of a call, and what it makes of an instance.
* `Vm.invocation`: the call that an instruction makes.
* `Vm.Block.fields`: the outputs of an instance, by their names.

## Main results

* `Vm.executeInstruction_block`: an instruction makes its call and changes no other instance.
-/

open Outcome

namespace Weftik.Vm

variable {P : Platform}

/-! ### Instances and calls -/

/-- The kinds of function blocks, each with a table of its own. -/
inductive BlockKind
  | timer | counter | latch | edge
  deriving DecidableEq, Repr

/-- The state of an instance. -/
inductive Block
  | timer (t : TimerState)
  | counter (c : CounterState)
  | latch (f : SrState)
  | edge (e : EdgeState)
  deriving DecidableEq, Repr

/-- The state without the kind of the timer or the flip-flop, which each call sets anew. -/
def Block.bare : Block → Block
  | .timer t => .timer { t with kind := .ton }
  | .latch f => .latch { f with kind := .sr }
  | b => b

/-- An instance that has not been called. -/
def BlockKind.fresh : BlockKind → Block
  | .timer => .timer ⟨.ton, false, 0, false, 0⟩
  | .counter => .counter ⟨.ctu, false, false, 0, 0, false, false, false⟩
  | .latch => .latch ⟨.sr, false, false, false, false⟩
  | .edge => .edge ⟨0, false, false⟩

/-- The instance of a kind at an index. -/
def block (vm : Vm P) : BlockKind → ℕ → Block
  | .timer, i => (Block.timer (vm.timers.getD i ⟨.ton, false, 0, false, 0⟩)).bare
  | .counter, i =>
      .counter (vm.counters.getD i ⟨.ctu, false, false, 0, 0, false, false, false⟩)
  | .latch, i => (Block.latch (vm.srs.getD i ⟨.sr, false, false, false, false⟩)).bare
  | .edge, i => .edge (vm.edges.getD i ⟨0, false, false⟩)

/-- What a call is given. -/
inductive Call
  | timer (kind : TimerKind) (input : Bool) (presetMs cycle : ℕ)
  | counter (kind : CounterKind) (cu cd : Bool) (pv : ℕ)
  | latch (kind : SrKind) (s1 r : Bool)
  | edge (kind : ℕ) (clk : Bool)
  deriving DecidableEq, Repr

/-- The kind of the instances that a call is for. -/
def Call.kind : Call → BlockKind
  | .timer .. => .timer
  | .counter .. => .counter
  | .latch .. => .latch
  | .edge .. => .edge

/-- The instance after a call. A counter that overflows stays as it is, and the machine
panics. -/
def Block.call (P : Platform) : Block → Call → Block
  | .timer t, .timer kind input pt cycle =>
      (Block.timer (({ t with presetMs := pt, kind := kind } : TimerState).tick input cycle)).bare
  | .counter c, .counter kind cu cd pv =>
      match ({ c with pv := pv, kind := kind } : CounterState).tick P cu cd with
      | .ok c => .counter c
      | .error _ => .counter c
  | .latch f, .latch kind s1 r =>
      (Block.latch (({ f with kind := kind } : SrState).tick s1 r)).bare
  | .edge e, .edge kind clk => .edge (e.tick kind clk)
  | b, _ => b

/-- The boolean of a register operand; `FALSE` for any other operand. -/
def boolOperand (vm : Vm P) : Operand P → Bool
  | .register r => asBool (vm.reg r)
  | _ => false

/-- The call that an instruction makes, and the index of the instance. -/
def invocation (vm : Vm P) (inst : Instruction P) : Option (ℕ × Call) :=
  match inst.opcode, inst.operands with
  | .timerRun, .immediate (.u32 i) :: .register r :: preset :: rest =>
      (timerPreset preset).map fun pt =>
        (i.toNat, .timer (timerKind rest) ((vm.reg r).beq (.bool true)) pt vm.cycleTimeMs)
  | .counterRun, .immediate (.u32 i) :: .register cu :: .register cd :: .immediate (.u32 pv) ::
      kind :: _ =>
      some (i.toNat,
        .counter (counterKind kind) (asBool (vm.reg cu)) (asBool (vm.reg cd)) pv.toNat)
  | .srRun, .immediate (.u32 i) :: s1 :: r :: kind :: _ =>
      some (i.toNat, .latch (srKind kind) (vm.boolOperand s1) (vm.boolOperand r))
  | .edgeRun, .immediate (.u32 i) :: clk :: kind :: _ =>
      some (i.toNat, .edge (edgeKind kind) (vm.boolOperand clk))
  | _, _ => none

/-- The instance of a kind at an index, after the call that an instruction makes. -/
def blockAfter (vm : Vm P) (inst : Instruction P) (k : BlockKind) (j : ℕ) : Block :=
  match vm.invocation inst with
  | some (i, c) => if i = j ∧ c.kind = k then (vm.block k j).call P c else vm.block k j
  | none => vm.block k j

/-- The outputs of an instance, by their names. -/
def Block.fields : Block → List (String × HalValue P)
  | .timer t => [("Q", .bool t.q), ("ET", .u32 (UInt32.ofNat t.elapsedMs))]
  | .counter c =>
      [("Q", .bool c.q), ("CV", .u32 (UInt32.ofNat c.cv)), ("QU", .bool c.qu),
        ("QD", .bool c.qd)]
  | .latch f => [("Q1", .bool f.q1), ("Q2", .bool f.q2)]
  | .edge e => [("Q", .bool e.q)]

/-- An output of an instance. -/
def Block.field (b : Block) (name : String) : Option (HalValue P) := b.fields.lookup name

/-! ### The tables -/

section Tables

variable {α β : Type} {f : α → β} {g : α → α} {a d : α}

/-- Growing a table changes no entry, when what is seen of the new ones is as the default. -/
theorem apply_getD_grow (h : f a = f d) (l : List α) (i j : ℕ) :
    f ((grow l i a).getD j d) = f (l.getD j d) := by
  simp only [grow, List.getD_eq_getElem?_getD]
  rcases Nat.lt_or_ge j l.length with hlt | hge
  · rw [List.getElem?_append_left hlt]
  · rw [List.getElem?_append_right hge, List.getElem?_eq_none hge, List.getElem?_replicate]
    split_ifs
    · exact h
    · rfl

/-- Changing one entry of a table that has been grown. -/
theorem apply_getD_modify (h : f a = f d) (hg : f (g a) = f (g d)) (l : List α) (i j : ℕ) :
    f (((grow l i a).modify i g).getD j d) =
      if i = j then f (g (l.getD j d)) else f (l.getD j d) := by
  by_cases hij : i = j
  · subst hij
    rw [if_pos rfl, List.getD_eq_getElem?_getD, List.getElem?_modify_eq, getElem?_grow,
      List.getD_eq_getElem?_getD, List.getD_eq_getElem?_getD]
    cases l[i]? with
    | none => exact hg
    | some b => rfl
  · rw [if_neg hij, List.getD_eq_getElem?_getD, List.getElem?_modify_ne _ _ hij,
      ← List.getD_eq_getElem?_getD, apply_getD_grow h]

/-- Replacing one entry of a table that has been grown. -/
theorem apply_getD_set (l : List α) (i j : ℕ) (b : α) :
    f (((grow l i d).set i b).getD j d) = if i = j then f b else f (l.getD j d) := by
  rw [List.set_eq_modify]
  exact apply_getD_modify rfl rfl l i j

end Tables

/-! ### What an instruction does to the instances -/

variable {vm vm' : Vm P}

theorem free_block (k : BlockKind) (j : ℕ) : Free (fun vm : Vm P => vm.block k j) := by
  cases k <;> exact ⟨fun _ _ _ => rfl, fun _ _ => rfl, fun _ _ => rfl, fun _ _ => rfl⟩

variable {inst : Instruction P}

/-- An instruction that makes no call. -/
theorem blockAfter_of_none (h : vm.invocation inst = none) (k : BlockKind) (j : ℕ) :
    vm.blockAfter inst k j = vm.block k j := by
  rw [blockAfter, h]

/-- The instances after a call of one of them. -/
theorem blockAfter_of_some {i : ℕ} {c : Call} (h : vm.invocation inst = some (i, c))
    (k : BlockKind) (j : ℕ) :
    vm.blockAfter inst k j =
      if i = j ∧ c.kind = k then (vm.block k j).call P c else vm.block k j := by
  rw [blockAfter, h]

theorem boolReg_eq_ok {op : Operand P} {b : Bool} (h : vm.boolReg op = .ok b) :
    b = vm.boolOperand op := by
  cases op with
  | register r =>
      obtain ⟨v, hv, rfl⟩ := map_eq_ok h
      rw [readRegister_eq_ok hv]
      rfl
  | immediate v | signalName name => exact (Except.ok.inj h).symm

/-- Only the instructions that run a function block make a call. -/
theorem invocation_of_notRun (htimer : inst.opcode ≠ .timerRun)
    (hcounter : inst.opcode ≠ .counterRun) (hlatch : inst.opcode ≠ .srRun)
    (hedge : inst.opcode ≠ .edgeRun) : vm.invocation inst = none := by
  unfold invocation
  split <;> first | contradiction | rfl

section Grown

/-- Growing the timers. -/
theorem block_growTimers (kind : TimerKind) (i : ℕ) (k : BlockKind) (j : ℕ) :
    { vm with timers := grow vm.timers i ⟨kind, false, 0, false, 0⟩ }.block k j =
      vm.block k j := by
  cases k with
  | timer =>
      exact @apply_getD_grow _ _ (fun t => (Block.timer t).bare) ⟨kind, false, 0, false, 0⟩
        ⟨.ton, false, 0, false, 0⟩ rfl _ _ _
  | counter | latch | edge => rfl

/-- Growing the counters. -/
theorem block_growCounters (i : ℕ) (k : BlockKind) (j : ℕ) :
    { vm with counters := grow vm.counters i ⟨.ctu, false, false, 0, 0, false, false, false⟩ }.block
      k j = vm.block k j := by
  cases k with
  | counter => exact apply_getD_grow (f := Block.counter) rfl _ _ _
  | timer | latch | edge => rfl

/-- Growing the flip-flops. -/
theorem block_growSrs (kind : SrKind) (i : ℕ) (k : BlockKind) (j : ℕ) :
    { vm with srs := grow vm.srs i ⟨kind, false, false, false, false⟩ }.block k j =
      vm.block k j := by
  cases k with
  | latch =>
      exact @apply_getD_grow _ _ (fun f => (Block.latch f).bare) ⟨kind, false, false, false, false⟩
        ⟨.sr, false, false, false, false⟩ rfl _ _ _
  | timer | counter | edge => rfl

/-- Growing the edge detectors. -/
theorem block_growEdges (i : ℕ) (k : BlockKind) (j : ℕ) :
    { vm with edges := grow vm.edges i ⟨0, false, false⟩ }.block k j = vm.block k j := by
  cases k with
  | edge => exact apply_getD_grow (f := Block.edge) rfl _ _ _
  | timer | counter | latch => rfl

end Grown

/-- An instruction that only writes two registers. -/
theorem block_of_writeTwice {vm₁ : Vm P} {k : BlockKind} {j : ℕ}
    (h : vm₁.block k j = vm.block k j) {r s : ℕ} {v w : HalValue P}
    (hwrite : (vm₁.writeRegister r v >>= fun vm => vm.writeRegister s w) = .ok vm') :
    vm'.block k j = vm.block k j :=
  ((free_block k j).writeTwice h r s v w).of_ok hwrite

variable {ops : List (Operand P)}

theorem execTimerRun_block (h : vm.execTimerRun ops = .ok vm') (k : BlockKind) (j : ℕ) :
    vm'.block k j = vm.blockAfter ⟨.timerRun, ops⟩ k j := by
  unfold execTimerRun at h
  split at h
  · rename_i i input preset rest
    dsimp only at h
    cases hpt : timerPreset preset with
    | none =>
        have hnone : vm.invocation ⟨.timerRun, .immediate (.u32 i) :: input :: preset :: rest⟩ =
            none := by
          cases input <;> simp only [invocation, hpt, Option.map_none]
        rw [hpt] at h
        rw [blockAfter_of_none hnone]
        cases input <;> exact Except.ok.inj h ▸ block_growTimers _ _ _ _
    | some pt =>
        rw [hpt] at h
        cases input with
        | register r =>
            obtain ⟨inVal, hin, h⟩ := bind_eq_ok h
            obtain rfl := Except.ok.inj h
            obtain rfl : inVal = vm.reg r := readRegister_eq_ok hin
            have hcall : vm.invocation
                ⟨.timerRun, .immediate (.u32 i) :: .register r :: preset :: rest⟩ =
                some (i.toNat, .timer (timerKind rest) ((vm.reg r).beq (.bool true)) pt
                  vm.cycleTimeMs) := by
              simp only [invocation, hpt, Option.map_some]
            rw [blockAfter_of_some hcall]
            cases k with
            | timer =>
                simp only [Call.kind, and_true]
                exact @apply_getD_modify _ _ (fun t => (Block.timer t).bare) _
                  ⟨timerKind rest, false, 0, false, 0⟩ ⟨.ton, false, 0, false, 0⟩ rfl rfl _ _ _
            | counter | latch | edge => exact (if_neg (by rintro ⟨-, ⟨⟩⟩)).symm
        | immediate v | signalName name =>
            rw [blockAfter_of_none rfl]
            exact Except.ok.inj h ▸ block_growTimers _ _ _ _
  · rename_i hnot
    obtain rfl := Except.ok.inj h
    refine (blockAfter_of_none ?_ k j).symm
    unfold invocation
    split
    · rename_i hops
      exact absurd hops (hnot _ _ _ _)
    all_goals first | rfl | contradiction

theorem execCounterRun_block (h : vm.execCounterRun ops = .ok vm') (k : BlockKind) (j : ℕ) :
    vm'.block k j = vm.blockAfter ⟨.counterRun, ops⟩ k j := by
  unfold execCounterRun at h
  split at h
  · rename_i i cu cd preset kind rest
    dsimp only at h
    split at h
    · rename_i cuReg cdReg pv
      obtain ⟨cuVal, hcu, h⟩ := bind_eq_ok h
      obtain ⟨cdVal, hcd, h⟩ := bind_eq_ok h
      obtain ⟨counter, htick, h⟩ := bind_eq_ok h
      obtain rfl := Except.ok.inj h
      obtain rfl : cuVal = vm.reg cuReg := readRegister_eq_ok hcu
      obtain rfl : cdVal = vm.reg cdReg := readRegister_eq_ok hcd
      have hget := apply_getD_grow (f := id) (a := CounterState.mk .ctu false false 0 0 false
        false false) rfl vm.counters i.toNat i.toNat
      simp only [id_eq] at hget
      rw [hget] at htick
      rw [blockAfter_of_some (show vm.invocation ⟨.counterRun, .immediate (.u32 i) ::
        .register cuReg :: .register cdReg :: .immediate (.u32 pv) :: kind :: rest⟩ = some
          (i.toNat, .counter (counterKind kind) (asBool (vm.reg cuReg)) (asBool (vm.reg cdReg))
            pv.toNat) from rfl)]
      cases k with
      | counter =>
          simp only [Call.kind, and_true]
          refine (apply_getD_set (f := Block.counter) _ _ _ _).trans ?_
          split_ifs with hij
          · subst hij
            rw [block, Block.call, htick]
          · rfl
      | timer | latch | edge => exact (if_neg (by rintro ⟨-, ⟨⟩⟩)).symm
    · rename_i hnot
      obtain rfl := Except.ok.inj h
      rw [blockAfter_of_none, block_growCounters]
      unfold invocation
      split
      · contradiction
      · rename_i hops
        simp only [List.cons.injEq] at hops
        exact (hnot _ _ _ hops.2.1 hops.2.2.1 hops.2.2.2.1).elim
      all_goals first | rfl | contradiction
  · rename_i hnot
    obtain rfl := Except.ok.inj h
    refine (blockAfter_of_none ?_ k j).symm
    unfold invocation
    split
    · contradiction
    · rename_i hops
      exact absurd hops (hnot _ _ _ _ _ _)
    all_goals first | rfl | contradiction

theorem execSrRun_block (h : vm.execSrRun ops = .ok vm') (k : BlockKind) (j : ℕ) :
    vm'.block k j = vm.blockAfter ⟨.srRun, ops⟩ k j := by
  unfold execSrRun at h
  split at h
  · rename_i i s1 r kind rest
    obtain ⟨s1Val, hs1, h⟩ := bind_eq_ok h
    obtain ⟨rVal, hr, h⟩ := bind_eq_ok h
    obtain rfl := Except.ok.inj h
    obtain rfl := boolReg_eq_ok hs1
    obtain rfl := boolReg_eq_ok hr
    have hcall : vm.invocation ⟨.srRun, .immediate (.u32 i) :: s1 :: r :: kind :: rest⟩ =
        some (i.toNat, .latch (srKind kind) (vm.boolOperand s1) (vm.boolOperand r)) := rfl
    rw [blockAfter_of_some hcall]
    cases k with
    | latch =>
        simp only [Call.kind, and_true]
        exact @apply_getD_modify _ _ (fun f => (Block.latch f).bare) _
          ⟨srKind kind, false, false, false, false⟩ ⟨.sr, false, false, false, false⟩ rfl rfl _ _ _
    | timer | counter | edge => exact (if_neg (by rintro ⟨-, ⟨⟩⟩)).symm
  · rename_i hnot
    obtain rfl := Except.ok.inj h
    refine (blockAfter_of_none ?_ k j).symm
    unfold invocation
    split
    iterate 2 contradiction
    · rename_i hops
      exact absurd hops (hnot _ _ _ _ _)
    all_goals first | rfl | contradiction

theorem execEdgeRun_block (h : vm.execEdgeRun ops = .ok vm') (k : BlockKind) (j : ℕ) :
    vm'.block k j = vm.blockAfter ⟨.edgeRun, ops⟩ k j := by
  unfold execEdgeRun at h
  split at h
  · rename_i i clk kind rest
    obtain ⟨clkVal, hclk, h⟩ := bind_eq_ok h
    obtain rfl := Except.ok.inj h
    obtain rfl := boolReg_eq_ok hclk
    have hcall : vm.invocation ⟨.edgeRun, .immediate (.u32 i) :: clk :: kind :: rest⟩ =
        some (i.toNat, .edge (edgeKind kind) (vm.boolOperand clk)) := rfl
    rw [blockAfter_of_some hcall]
    cases k with
    | edge =>
        simp only [Call.kind, and_true]
        exact apply_getD_modify (f := Block.edge) rfl rfl _ _ _
    | timer | counter | latch => exact (if_neg (by rintro ⟨-, ⟨⟩⟩)).symm
  · rename_i hnot
    obtain rfl := Except.ok.inj h
    refine (blockAfter_of_none ?_ k j).symm
    unfold invocation
    split
    iterate 3 contradiction
    · rename_i hops
      exact absurd hops (hnot _ _ _ _)
    · rfl

/-- The instructions that read an instance change none. -/
theorem execRead_block
    (h : vm.execReadTimer ops = .ok vm' ∨ vm.execReadCounter ops = .ok vm' ∨
        vm.execReadSr ops = .ok vm' ∨ vm.execReadEdge ops = .ok vm')
    (k : BlockKind) (j : ℕ) : vm'.block k j = vm.block k j := by
  rcases h with h | h | h | h
  · unfold execReadTimer at h
    split at h
    · dsimp only at h
      split at h
      · exact block_of_writeTwice (block_growTimers _ _ k j) h
      · exact Except.ok.inj h ▸ block_growTimers _ _ k j
    · exact Except.ok.inj h ▸ rfl
  · unfold execReadCounter at h
    split at h
    · dsimp only at h
      split at h
      · exact block_of_writeTwice (block_growCounters _ k j) h
      · exact Except.ok.inj h ▸ block_growCounters _ k j
    · exact Except.ok.inj h ▸ rfl
  · unfold execReadSr at h
    split at h
    · dsimp only at h
      split at h
      · exact block_of_writeTwice (block_growSrs _ _ k j) h
      · exact Except.ok.inj h ▸ block_growSrs _ _ k j
    · exact Except.ok.inj h ▸ rfl
  · unfold execReadEdge at h
    split at h
    · dsimp only at h
      split at h
      · exact ((free_block k j).writeRegister (block_growEdges _ k j) _ _).of_ok h
      · exact Except.ok.inj h ▸ block_growEdges _ k j
    · exact Except.ok.inj h ▸ rfl

/-- An instruction makes its call, and changes no other instance. -/
theorem executeInstruction_block {result : ExecutorResult}
    (h : vm.executeInstruction inst = .ok (vm', result)) (k : BlockKind) (j : ℕ) :
    vm'.block k j = vm.blockAfter inst k j := by
  have hcont : ∀ {c : Except Panic (Vm P)}, continues c = .ok (vm', result) → c = .ok vm' := by
    intro c hc
    obtain ⟨vm₁, hvm₁, heq⟩ := map_eq_ok hc
    obtain ⟨rfl, -⟩ := Prod.mk.inj heq
    exact hvm₁
  by_cases hblock : Opcode.isBlock inst.opcode = false
  · have hnone : vm.invocation inst = none := by
      refine invocation_of_notRun ?_ ?_ ?_ ?_ <;>
        exact fun hop => by rw [hop] at hblock; cases hblock
    rw [blockAfter_of_none hnone]
    by_cases hstore : inst.opcode = .store
    · obtain ⟨opcode, ops⟩ := inst
      subst hstore
      have hexec := hcont h
      unfold execStore at hexec
      split at hexec
      · obtain ⟨v, -, hexec⟩ := bind_eq_ok hexec
        obtain rfl := Except.ok.inj hexec
        cases k <;> rfl
      · exact Except.ok.inj hexec ▸ rfl
    · exact (executeInstruction_free (free_block k j) vm hstore hblock).of_ok h
  · obtain ⟨opcode, ops⟩ := inst
    have hread : vm.invocation ⟨opcode, ops⟩ = none → vm'.block k j = vm.block k j →
        vm'.block k j = vm.blockAfter ⟨opcode, ops⟩ k j :=
      fun hnone heq => heq.trans (blockAfter_of_none hnone k j).symm
    cases opcode with
    | timerRun => exact execTimerRun_block (hcont h) k j
    | counterRun => exact execCounterRun_block (hcont h) k j
    | srRun => exact execSrRun_block (hcont h) k j
    | edgeRun => exact execEdgeRun_block (hcont h) k j
    | readTimer => exact hread rfl (execRead_block (Or.inl (hcont h)) k j)
    | readCounter => exact hread rfl (execRead_block (Or.inr (Or.inl (hcont h))) k j)
    | readSr => exact hread rfl (execRead_block (Or.inr (Or.inr (Or.inl (hcont h)))) k j)
    | readEdge => exact hread rfl (execRead_block (Or.inr (Or.inr (Or.inr (hcont h)))) k j)
    | _ => exact absurd rfl hblock

/-! ### What is read of the instances -/

/-- Two registers after one of them and then the other has been written. -/
theorem writeTwice_reg (vm₁ : Vm P) {r s : ℕ} (hr : r < 16) (hs : s < 16) (hne : r ≠ s)
    (v w : HalValue P) :
    ∃ vm', (vm₁.writeRegister r v >>= fun vm => vm.writeRegister s w) = .ok vm' ∧
      vm'.reg r = v ∧ vm'.reg s = w := by
  refine ⟨(vm₁.setReg r v).setReg s w, ?_, ?_, ?_⟩
  · rw [writeRegister_of_lt hr]
    exact writeRegister_of_lt hs
  · rw [reg_setReg hs, if_neg hne, reg_setReg hr, if_pos rfl]
  · rw [reg_setReg hs, if_pos rfl]

/-- Reading a timer: the output and the elapsed time. -/
theorem executeInstruction_readTimer (vm : Vm P) {i : UInt32} {q et : ℕ} (hq : q < 16)
    (het : et < 16) (hne : q ≠ et) :
    ∃ vm', vm.executeInstruction ⟨.readTimer, [.immediate (.u32 i), .register q, .register et]⟩ =
        .ok (vm', .cont) ∧
      (vm.block .timer i.toNat).field "Q" = some (vm'.reg q) ∧
      (vm.block .timer i.toNat).field "ET" = some (vm'.reg et) := by
  have hgrow : ∀ {β : Type} (f : TimerState → β), _ :=
    fun f => apply_getD_grow (f := f) (a := ⟨.ton, false, 0, false, 0⟩) rfl vm.timers i.toNat
      i.toNat
  obtain ⟨vm', hwrite, hvq, hvet⟩ := writeTwice_reg
    { vm with timers := grow vm.timers i.toNat ⟨.ton, false, 0, false, 0⟩ } hq het hne
    (.bool ((grow vm.timers i.toNat ⟨.ton, false, 0, false, 0⟩).getD i.toNat
      ⟨.ton, false, 0, false, 0⟩).q)
    (.u32 (UInt32.ofNat ((grow vm.timers i.toNat ⟨.ton, false, 0, false, 0⟩).getD i.toNat
      ⟨.ton, false, 0, false, 0⟩).elapsedMs))
  refine ⟨vm', ?_, ?_, ?_⟩
  · exact congrArg continues hwrite
  · rw [hvq, hgrow TimerState.q]
    rfl
  · rw [hvet, hgrow TimerState.elapsedMs]
    rfl

/-- Reading a flip-flop: the two outputs. -/
theorem executeInstruction_readSr (vm : Vm P) {i : UInt32} {q1 q2 : ℕ} (hq1 : q1 < 16)
    (hq2 : q2 < 16) (hne : q1 ≠ q2) :
    ∃ vm', vm.executeInstruction ⟨.readSr, [.immediate (.u32 i), .register q1, .register q2]⟩ =
        .ok (vm', .cont) ∧
      (vm.block .latch i.toNat).field "Q1" = some (vm'.reg q1) ∧
      (vm.block .latch i.toNat).field "Q2" = some (vm'.reg q2) := by
  have hgrow : ∀ {β : Type} (f : SrState → β), _ :=
    fun f => apply_getD_grow (f := f) (a := ⟨.sr, false, false, false, false⟩) rfl vm.srs i.toNat
      i.toNat
  obtain ⟨vm', hwrite, hv1, hv2⟩ := writeTwice_reg
    { vm with srs := grow vm.srs i.toNat ⟨.sr, false, false, false, false⟩ } hq1 hq2 hne
    (.bool ((grow vm.srs i.toNat ⟨.sr, false, false, false, false⟩).getD i.toNat
      ⟨.sr, false, false, false, false⟩).q1)
    (.bool ((grow vm.srs i.toNat ⟨.sr, false, false, false, false⟩).getD i.toNat
      ⟨.sr, false, false, false, false⟩).q2)
  refine ⟨vm', ?_, ?_, ?_⟩
  · exact congrArg continues hwrite
  · rw [hv1, hgrow SrState.q1]
    rfl
  · rw [hv2, hgrow SrState.q2]
    rfl

/-- Reading an edge detector: the output. -/
theorem executeInstruction_readEdge (vm : Vm P) {i : UInt32} {q : ℕ} (hq : q < 16) :
    ∃ vm', vm.executeInstruction ⟨.readEdge, [.immediate (.u32 i), .register q]⟩ =
        .ok (vm', .cont) ∧
      (vm.block .edge i.toNat).field "Q" = some (vm'.reg q) := by
  refine ⟨_, congrArg continues (writeRegister_of_lt hq), ?_⟩
  rw [reg_setReg hq, if_pos rfl,
    apply_getD_grow (f := EdgeState.q) (a := ⟨0, false, false⟩) rfl vm.edges i.toNat i.toNat]
  rfl

end Weftik.Vm
