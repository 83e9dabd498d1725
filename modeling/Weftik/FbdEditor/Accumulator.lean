import Weftik.FbdEditor.Sorted
import Weftik.Lib.Code

/-!
# Running the Text of a Diagram

The accumulator machine of Instruction List, on the lines of a generated text: an
accumulator, a memory of variables, and jumps to labels. The lines of a gate leave its
output in one variable, so that the whole text is a sequence of stores, one for each node.

## Main definitions

* `FbdEditor.IlState.step`: one instruction.
* `FbdEditor.GateType.eval`: the function of a gate.
* `FbdEditor.FbdGraph.store`: what the lines of a gate do to the memory.

## Main results

* `FbdEditor.steps_emitGateNode`: the lines of a gate store its output.
* `FbdEditor.exec_ilLines`: the text stores the outputs of the nodes in their order.
-/

open Machine Code

namespace Weftik.FbdEditor

/-- What an instruction computes from the accumulator and its operand. -/
def IlOp.computes : IlOp → Option (Bool → Bool → Bool)
  | .ld => some fun _ x => x
  | .ldn => some fun _ x => !x
  | .and => some fun acc x => acc && x
  | .or => some fun acc x => acc || x
  | .xor => some fun acc x => acc ^^ x
  | .st | .jmpc | .jmp => none

/-- The state of the machine. -/
structure IlState where
  pc : ℕ
  acc : Bool
  memory : String → Bool

/-- What the machine has no meaning for. -/
inductive IlFault
  | unknownLabel (name : String)
  | functionBlock
  deriving DecidableEq, Repr

/-- The value of an operand. -/
def readOperand (memory : String → Bool) (operand : String) : Bool :=
  if operand = "FALSE" then false else memory operand

namespace IlState

/-- A jump to the first place of a label. -/
def jump (lines : List IlLine) (s : IlState) (name : String) : Result IlState IlFault :=
  match lines.findIdx? fun line => line == .label name with
  | some i => .next { s with pc := i }
  | none => .fail (.unknownLabel name)

/-- One line. -/
def step (lines : List IlLine) (s : IlState) : Result IlState IlFault :=
  match lines[s.pc]? with
  | none => .done s
  | some (.instr op operand _) =>
      match op.computes with
      | some f => .next { s with pc := s.pc + 1, acc := f s.acc (readOperand s.memory operand) }
      | none =>
          match op with
          | .jmpc => if s.acc then s.jump lines operand else .next { s with pc := s.pc + 1 }
          | .jmp => s.jump lines operand
          | _ =>
              .next
                { s with
                  pc := s.pc + 1
                  memory := fun v => if v = operand then s.acc else s.memory v }
  | some (.label _) => .next { s with pc := s.pc + 1 }
  | some (.cal _ _ _) => .fail .functionBlock

end IlState

/-- The function of a gate; a multiplexer selects its second data input when `SEL` holds. -/
def GateType.eval (gateType : GateType) (inputs : List Bool) : Bool :=
  match gateType with
  | .and => inputs.all id
  | .or => inputs.any id
  | .xor => inputs.foldr Bool.xor false
  | .not => !inputs.headD false
  | .mux => if inputs.getD 0 false then inputs.getD 2 false else inputs.getD 1 false

namespace FbdGraph

variable (graph : FbdGraph)

/-- What the lines of a node compute from the memory. -/
def output (memory : String → Bool) (node : Node) : Bool :=
  match node.kind with
  | .gate gateType => gateType.eval ((graph.inputValues node "FALSE").map (readOperand memory))
  | .fb _ => false

/-- What the lines of a gate do to the memory. -/
def store (memory : String → Bool) (node : Node) : String → Bool := fun v =>
  if v = graph.outLabel node.id then graph.output memory node else memory v

/-- All nodes are gates, with the pins of their types. -/
def OfGates (graph : FbdGraph) : Prop :=
  ∀ n ∈ graph.nodes, ∃ gateType, n.kind = .gate gateType ∧
    n.inputPorts = gateInputs gateType ∧ n.outputPorts = gateOutputs

end FbdGraph

/-! ### The lines of a gate -/

variable {graph : FbdGraph} {lines : List IlLine}

theorem length_inputValues (node : Node) (unconnected : String) :
    (graph.inputValues node unconnected).length = node.inputPorts.length := by
  rw [FbdGraph.inputValues, List.length_map]

/-- The labels of a multiplexer are where its lines are. -/
def LabelsAt (lines : List IlLine) (pc : ℕ) (id : String) : Prop :=
  (lines.findIdx? fun line => line == .label ("mux_" ++ id ++ "_sel0")) = some (pc + 4) ∧
    (lines.findIdx? fun line => line == .label ("mux_" ++ id ++ "_end")) = some (pc + 6)

variable {pc : ℕ} {acc : Bool} {memory : String → Bool} {operand name : String}
  {comment : Option String}

theorem step_compute {op : IlOp} {f : Bool → Bool → Bool}
    (hline : lines[pc]? = some (.instr op operand comment)) (hop : op.computes = some f) :
    IlState.step lines ⟨pc, acc, memory⟩ =
      .next ⟨pc + 1, f acc (readOperand memory operand), memory⟩ := by
  rw [IlState.step]
  dsimp only
  rw [hline]
  dsimp only
  rw [hop]

theorem step_st (hline : lines[pc]? = some (.instr .st operand comment)) :
    IlState.step lines ⟨pc, acc, memory⟩ =
      .next ⟨pc + 1, acc, fun v => if v = operand then acc else memory v⟩ := by
  rw [IlState.step]
  dsimp only
  rw [hline]
  rfl

theorem step_jmp {i : ℕ} (hline : lines[pc]? = some (.instr .jmp name comment))
    (hlabel : (lines.findIdx? fun line => line == .label name) = some i) :
    IlState.step lines ⟨pc, acc, memory⟩ = .next ⟨i, acc, memory⟩ := by
  rw [IlState.step]
  dsimp only
  rw [hline]
  change IlState.jump lines _ name = _
  rw [IlState.jump, hlabel]

theorem step_jmpc {i : ℕ} (hline : lines[pc]? = some (.instr .jmpc name comment))
    (hlabel : (lines.findIdx? fun line => line == .label name) = some i) :
    IlState.step lines ⟨pc, acc, memory⟩ =
      .next ⟨if acc then i else pc + 1, acc, memory⟩ := by
  rw [IlState.step]
  dsimp only
  rw [hline]
  change (if acc = true then IlState.jump lines _ name else _) = _
  rw [IlState.jump, hlabel]
  cases acc <;> rfl

theorem step_label (hline : lines[pc]? = some (.label name)) :
    IlState.step lines ⟨pc, acc, memory⟩ = .next ⟨pc + 1, acc, memory⟩ := by
  rw [IlState.step]
  dsimp only
  rw [hline]

/-- Two lines that combine two operands. -/
theorem steps_pair {op : IlOp} {f : Bool → Bool → Bool} {v w : String}
    (hop : op.computes = some f)
    (hcode : CodeAt lines pc [.instr .ld v comment, .instr op w none]) :
    Steps (IlState.step lines) ⟨pc, acc, memory⟩
      ⟨pc + 2, f (readOperand memory v) (readOperand memory w), memory⟩ :=
  Steps.head (step_compute hcode.head rfl) (Steps.single (step_compute hcode.tail.head hop))

/-- The lines of a gate leave its output in the accumulator. -/
theorem steps_gateLines {gateType : GateType} {id : String} {inputs : List String}
    (hlength : inputs.length = (gateInputs gateType).length)
    (hcode : CodeAt lines pc (FbdGraph.gateLines gateType id inputs))
    (hlabels : gateType = .mux → LabelsAt lines pc id) :
    Steps (IlState.step lines) ⟨pc, acc, memory⟩
      ⟨pc + (FbdGraph.gateLines gateType id inputs).length,
        gateType.eval (inputs.map (readOperand memory)), memory⟩ := by
  cases gateType with
  | not =>
      obtain ⟨v, rfl⟩ := List.length_eq_one_iff.mp hlength
      exact Steps.single (step_compute hcode.head rfl)
  | and =>
      obtain ⟨v, w, rfl⟩ := List.length_eq_two.mp hlength
      have heval : GateType.eval .and ([v, w].map (readOperand memory)) =
          (readOperand memory v && readOperand memory w) := by simp [GateType.eval]
      rw [heval]
      exact steps_pair rfl hcode
  | or =>
      obtain ⟨v, w, rfl⟩ := List.length_eq_two.mp hlength
      have heval : GateType.eval .or ([v, w].map (readOperand memory)) =
          (readOperand memory v || readOperand memory w) := by simp [GateType.eval]
      rw [heval]
      exact steps_pair rfl hcode
  | xor =>
      obtain ⟨v, w, rfl⟩ := List.length_eq_two.mp hlength
      have heval : GateType.eval .xor ([v, w].map (readOperand memory)) =
          (readOperand memory v ^^ readOperand memory w) := by simp [GateType.eval]
      rw [heval]
      exact steps_pair rfl hcode
  | mux =>
      obtain ⟨v, w, x, rfl⟩ := List.length_eq_three.mp hlength
      obtain ⟨hsel0, hend⟩ := hlabels rfl
      refine Steps.head (step_compute hcode.head rfl)
        (Steps.head (step_jmpc hcode.tail.head hsel0) ?_)
      have hlabel : CodeAt lines (pc + 4) _ := hcode.tail.tail.tail.tail
      change Steps _ (IlState.mk (if readOperand memory v = true then pc + 4 else pc + 2)
        (readOperand memory v) memory) _
      cases hsel : readOperand memory v with
      | false =>
          rw [if_neg Bool.false_ne_true]
          -- the first data input, and a jump over the second one
          have heval : GateType.eval .mux ([v, w, x].map (readOperand memory)) =
              readOperand memory w := by simp [GateType.eval, hsel]
          rw [heval]
          exact Steps.head (step_compute hcode.tail.tail.head rfl)
            (Steps.head (step_jmp hcode.tail.tail.tail.head hend)
              (Steps.single (step_label hlabel.tail.tail.head)))
      | true =>
          rw [if_pos rfl]
          have heval : GateType.eval .mux ([v, w, x].map (readOperand memory)) =
              readOperand memory x := by simp [GateType.eval, hsel]
          rw [heval]
          exact Steps.head (step_label hlabel.head)
            (Steps.head (step_compute hlabel.tail.head rfl)
              (Steps.single (step_label hlabel.tail.tail.head)))

/-- The lines of a gate store its output. -/
theorem steps_emitGateNode (acc : Bool) {node : Node} {gateType : GateType}
    (hkind : node.kind = .gate gateType)
    (hpins : node.inputPorts = gateInputs gateType)
    (hcode : CodeAt lines pc (graph.emitNode node))
    (hlabels : gateType = .mux → LabelsAt lines pc node.id) :
    ∃ acc', Steps (IlState.step lines) ⟨pc, acc, memory⟩
      ⟨pc + (graph.emitNode node).length, acc', graph.store memory node⟩ := by
  rw [FbdGraph.emitNode, hkind] at hcode ⊢
  obtain ⟨hgate, hstore⟩ := codeAt_append.mp hcode
  have hlength : (graph.inputValues node "FALSE").length = (gateInputs gateType).length := by
    rw [length_inputValues, hpins]
  have hsteps : Steps (IlState.step lines) ⟨pc, acc, memory⟩ _ :=
    steps_gateLines hlength hgate hlabels
  refine ⟨gateType.eval ((graph.inputValues node "FALSE").map (readOperand memory)),
    hsteps.trans (Steps.single ((step_st hstore.head).trans ?_))⟩
  have hend : (graph.emitGateNode node gateType).length =
      (FbdGraph.gateLines gateType node.id (graph.inputValues node "FALSE")).length + 1 := by
    rw [FbdGraph.emitGateNode, List.length_append, List.length_singleton]
  change Result.next (IlState.mk _ _ _) =
    Result.next (IlState.mk (pc + (graph.emitGateNode node gateType).length) _ _)
  rw [hend, ← Nat.add_assoc]
  congr 2
  funext v
  rw [FbdGraph.store, FbdGraph.output, hkind]

/-! ### The labels -/

theorem mux_label_ne {id id' : String} : "mux_" ++ id ++ "_sel0" ≠ "mux_" ++ id' ++ "_end" := by
  intro h
  have hlast := congrArg (fun name => name.toList.reverse.head?) h
  simp [String.toList_append] at hlast

theorem label_not_mem_foldLines {op : IlOp} {c name : String} {inputs : List String} :
    .label name ∉ FbdGraph.foldLines op c inputs := by
  rw [FbdGraph.foldLines]
  by_cases hlength : inputs.length = 2
  · rw [if_pos hlength]
    simp
  · rw [if_neg hlength, List.mem_cons, not_or]
    refine ⟨nofun, fun h => ?_⟩
    obtain ⟨v, -, hv⟩ := List.mem_map.mp h
    cases hv

/-- The labels in the lines of a gate are those of its own id. -/
theorem label_mem_emitNode {node : Node} {gateType : GateType} (hkind : node.kind = .gate gateType)
    {name : String} (h : .label name ∈ graph.emitNode node) :
    name = "mux_" ++ node.id ++ "_sel0" ∨ name = "mux_" ++ node.id ++ "_end" := by
  rw [FbdGraph.emitNode, hkind] at h
  rcases List.mem_append.mp h with h | h
  · cases gateType with
    | mux => simpa [FbdGraph.gateLines] using h
    | not => simp [FbdGraph.gateLines] at h
    | xor => simp [FbdGraph.gateLines] at h
    | and => exact absurd h label_not_mem_foldLines
    | or => exact absurd h label_not_mem_foldLines
  · simp at h

theorem mux_label_inj {id id' : String} :
    ("mux_" ++ id ++ "_sel0" = "mux_" ++ id' ++ "_sel0" → id = id') ∧
      ("mux_" ++ id ++ "_end" = "mux_" ++ id' ++ "_end" → id = id') := by
  rw [String.append_left_inj, String.append_left_inj, String.append_right_inj]
  exact ⟨fun h => h, fun h => h⟩

/-- A line that does not occur before is found where it stands. -/
theorem findIdx?_line (front middle rest : List IlLine) {line : IlLine} (hfront : line ∉ front)
    (hmiddle : line ∉ middle) :
    ((front ++ (middle ++ line :: rest)).findIdx? fun l => l == line) =
      some (front.length + middle.length) := by
  have hnone : ((front ++ middle).findIdx? fun l => l == line) = none := by
    rw [List.findIdx?_eq_none_iff]
    intro l hl
    refine beq_eq_false_iff_ne.mpr fun heq => ?_
    rw [heq, List.mem_append] at hl
    exact hl.elim hfront hmiddle
  rw [← List.append_assoc, List.findIdx?_append, hnone, List.findIdx?_cons, beq_self_eq_true,
    ← List.length_append]
  simp

/-- In the lines of distinct nodes, the labels of each are where its lines are. -/
theorem labelsAt_emitNode {before after : List Node} {node : Node}
    (hgates : ∀ n ∈ before, ∃ gateType, n.kind = .gate gateType)
    (hnew : ∀ n ∈ before, n.id ≠ node.id) (hkind : node.kind = .gate .mux) :
    LabelsAt ((before ++ node :: after).flatMap graph.emitNode)
      (before.flatMap graph.emitNode).length node.id := by
  have hother : ∀ name, name = "mux_" ++ node.id ++ "_sel0" ∨ name = "mux_" ++ node.id ++ "_end" →
      .label name ∉ before.flatMap graph.emitNode := by
    intro name hname h
    obtain ⟨n, hn, hmem⟩ := List.mem_flatMap.mp h
    obtain ⟨gateType, hgate⟩ := hgates n hn
    refine hnew n hn ?_
    rcases hname with rfl | rfl <;> rcases label_mem_emitNode hgate hmem with heq | heq
    · exact (mux_label_inj.1 heq).symm
    · exact absurd heq mux_label_ne
    · exact absurd heq.symm mux_label_ne
    · exact (mux_label_inj.2 heq).symm
  rw [List.flatMap_append, List.flatMap_cons, FbdGraph.emitNode, hkind]
  simp only [FbdGraph.emitGateNode, FbdGraph.gateLines, List.cons_append, List.nil_append]
  generalize before.flatMap graph.emitNode = front at hother
  constructor
  · exact findIdx?_line front [_, _, _, _] _ (hother _ (Or.inl rfl)) (by simp)
  · refine findIdx?_line front [_, _, _, _, _, _] _ (hother _ (Or.inr rfl)) ?_
    simp [mux_label_ne.symm]

/-- The text stores the outputs of the nodes, in their order. -/
theorem exec_ilLines (hgates : ∀ n ∈ graph.sorted, ∃ gateType, n.kind = .gate gateType ∧
      n.inputPorts = gateInputs gateType) (hdistinct : (graph.sorted.map Node.id).Nodup)
    (acc : Bool) (memory : String → Bool) :
    ∃ s, Exec (IlState.step graph.ilLines) ⟨0, acc, memory⟩ (.ok s) ∧
      s.memory = graph.sorted.foldl graph.store memory := by
  -- the nodes before are done, and the machine is at the lines of the nodes after
  have hsteps : ∀ after before : List Node, graph.sorted = before ++ after →
      ∀ acc memory, ∃ acc', Steps (IlState.step graph.ilLines)
        ⟨(before.flatMap graph.emitNode).length, acc, memory⟩
        ⟨graph.ilLines.length, acc', after.foldl graph.store memory⟩ := by
    intro after
    induction after with
    | nil =>
        intro before hsplit acc memory
        refine ⟨acc, ?_⟩
        rw [FbdGraph.ilLines, hsplit, List.append_nil]
        exact Steps.refl _
    | cons node after ih =>
        intro before hsplit acc memory
        obtain ⟨gateType, hkind, hpins⟩ := hgates node (by rw [hsplit]; simp)
        have hcode : CodeAt graph.ilLines (before.flatMap graph.emitNode).length
            (graph.emitNode node) := by
          rw [FbdGraph.ilLines, hsplit, List.flatMap_append, List.flatMap_cons]
          exact CodeAt.middle _ _ _
        have hlabels : gateType = .mux →
            LabelsAt graph.ilLines (before.flatMap graph.emitNode).length node.id := by
          rintro rfl
          rw [FbdGraph.ilLines, hsplit]
          refine labelsAt_emitNode (fun n hn => ?_) (fun n hn heq => ?_) hkind
          · obtain ⟨g, hg, -⟩ := hgates n (by rw [hsplit]; exact List.mem_append_left _ hn)
            exact ⟨g, hg⟩
          · rw [hsplit, List.map_append, List.map_cons, List.nodup_append] at hdistinct
            exact hdistinct.2.2 n.id (List.mem_map_of_mem hn) node.id List.mem_cons_self heq
        obtain ⟨acc₁, hnode⟩ := steps_emitGateNode acc hkind hpins hcode hlabels
        obtain ⟨acc₂, hrest⟩ := ih (before ++ [node]) (by rw [hsplit]; simp) acc₁ _
        refine ⟨acc₂, hnode.trans ?_⟩
        simpa using hrest
  obtain ⟨acc', hall⟩ := hsteps graph.sorted [] rfl acc memory
  refine ⟨⟨graph.ilLines.length, acc', graph.sorted.foldl graph.store memory⟩,
    Exec.of_steps hall (.done ?_), rfl⟩
  rw [IlState.step, List.getElem?_eq_none le_rfl]

end Weftik.FbdEditor
