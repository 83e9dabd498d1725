import Weftik.Amw.Stream
import Weftik.Lib.Wildcard

/-!
# The Patterns of a Snapshot

A snapshot of the signals takes those whose name matches a pattern, in which `*` stands for
any text. Both transports read the pattern literally. The in-process transport drops the stars
at its end and asks whether the name begins with the rest, the Zenoh transport drops the stars
at both ends and asks whether the rest is a part of the name.

## Main definitions

* `InprocTransport.matchesPattern`, `ZenohTransport.matchPattern`: the names that match.
* `MeansPattern`: both transports say what the pattern means.

## Main results

* `meansPattern_iff`: the names and the patterns for which they do.
-/

namespace Weftik.Amw

open Wildcard

variable {P : Platform}

/-! ### The transports -/

/-- The in-process transport: the name begins with the pattern without the stars at its
end. -/
def InprocTransport.matchesPattern (name pattern : String) : Bool :=
  decide (trimEnd '*' pattern.toList <+: name.toList)

/-- The Zenoh transport: the name contains the pattern without the stars at its ends. -/
def ZenohTransport.matchPattern (name pattern : String) : Bool :=
  if pattern = "*" then true
  else decide (trimBoth '*' pattern.toList <:+: name.toList)

/-! ### What a pattern means -/

/-- The name matches the pattern, `*` standing for any text. -/
def Matches (name pattern : String) : Prop :=
  Wild '*' pattern.toList name.toList

/-- Both transports say of the name what the pattern means. -/
def MeansPattern (name pattern : String) : Prop :=
  (InprocTransport.matchesPattern name pattern = true ↔ Matches name pattern) ∧
    (ZenohTransport.matchPattern name pattern = true ↔ Matches name pattern)

/-- The name begins with the pattern without the stars at its end, and ends with what stands
behind the last star; without a star it is the pattern. -/
def TakenLiterally (name pattern : String) : Prop :=
  if '*' ∈ pattern.toList then
    trimEnd '*' pattern.toList <+: name.toList ∧
      lastPart '*' pattern.toList <:+ name.toList
  else name = pattern

/-- The name does not contain the pattern without the stars at its ends; and when there are
stars left, the parts between them are not in the name one after the other. -/
def Absent (name pattern : String) : Prop :=
  ¬ trimBoth '*' pattern.toList <:+: name.toList ∧
    ('*' ∈ trimBoth '*' pattern.toList → ¬ Matches name pattern)

/-! ### When both transports say what it means -/

/-- What the in-process transport asks. -/
theorem matchesPattern_iff {name pattern : String} :
    InprocTransport.matchesPattern name pattern = true ↔
      trimEnd '*' pattern.toList <+: name.toList :=
  decide_eq_true_iff

/-- What the Zenoh transport asks; its case for a lone star makes no difference. -/
theorem matchPattern_iff {name pattern : String} :
    ZenohTransport.matchPattern name pattern = true ↔
      trimBoth '*' pattern.toList <:+: name.toList := by
  rw [ZenohTransport.matchPattern]
  by_cases hstar : pattern = "*"
  · subst hstar
    rw [if_pos rfl]
    exact iff_of_true rfl (List.nil_infix (l := name.toList))
  · rw [if_neg hstar]
    exact decide_eq_true_iff

/-- A name that the in-process transport takes, the Zenoh transport takes. -/
theorem isInfix_trimBoth {name pattern : String}
    (h : trimEnd '*' pattern.toList <+: name.toList) :
    trimBoth '*' pattern.toList <:+: name.toList :=
  (trimBoth_isInfix_trimEnd _).trans h.isInfix

/-- A name that is taken literally matches. -/
theorem TakenLiterally.matches {name pattern : String} (h : TakenLiterally name pattern) :
    trimEnd '*' pattern.toList <+: name.toList ∧ Matches name pattern := by
  rw [TakenLiterally] at h
  split at h
  · exact ⟨h.1, wild_of_prefix ‹_› h.1 h.2⟩
  · subst h
    exact ⟨List.rdropWhile_prefix _ _, wild_self _ _⟩

/-- A name that is absent does not match. -/
theorem Absent.not_matches {name pattern : String} (h : Absent name pattern) :
    ¬ Matches name pattern := by
  by_cases hinner : '*' ∈ trimBoth '*' pattern.toList
  · exact h.2 hinner
  · exact fun hmatch => h.1 (hmatch.isInfix_trimBoth hinner)

/-- **The patterns mean the same on both transports** for the names that are taken literally
and for those that are absent. -/
theorem meansPattern_iff (name pattern : String) :
    MeansPattern name pattern ↔ TakenLiterally name pattern ∨ Absent name pattern := by
  rw [MeansPattern, matchesPattern_iff, matchPattern_iff]
  constructor
  · rintro ⟨hinproc, hzenoh⟩
    by_cases hmatch : Matches name pattern
    · refine Or.inl ?_
      rw [TakenLiterally]
      split
      · exact ⟨hinproc.mpr hmatch, hmatch.lastPart_suffix⟩
      · exact String.toList_inj.mp (hmatch.eq_of_notMem ‹_›)
    · exact Or.inr ⟨fun hpart => hmatch (hzenoh.mp hpart), fun _ => hmatch⟩
  · rintro (htaken | habsent)
    · obtain ⟨hbegin, hmatch⟩ := htaken.matches
      exact ⟨iff_of_true hbegin hmatch, iff_of_true (isInfix_trimBoth hbegin) hmatch⟩
    · have hmatch := habsent.not_matches
      exact ⟨iff_of_false (fun h => habsent.1 (isInfix_trimBoth h)) hmatch,
        iff_of_false habsent.1 hmatch⟩

/-- The Zenoh transport takes a name that contains the text before the star. -/
theorem meansPattern_contains :
    ¬ ∀ name pattern : String, MeansPattern name pattern := by
  intro h
  have hzenoh := (h "x.motion.y" "motion.*").2.mp (by decide)
  rw [Matches] at hzenoh
  have htext : "motion.*".toList = 'm' :: "otion.*".toList := by decide
  have hname : "x.motion.y".toList = 'x' :: ".motion.y".toList := by decide
  rw [htext, hname] at hzenoh
  cases hzenoh

end Weftik.Amw
