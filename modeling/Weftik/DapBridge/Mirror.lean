import Weftik.Dap.MainLoop
import Weftik.Dap.Adapter
import Weftik.Executor
import Weftik.Lib.Transition

/-!
# The Mirror of the Breakpoints

The bridge keeps a list of the breakpoints of its own and sends the whole of it after each change.
The adapter asks the runtime which breakpoints there are, clears them one by one, and sets those
of the list one by one. It does not look at what a clearing returns, and says of each breakpoint
whether it was set; the bridge does not look at that. So the list and the executor agree when
every call has had its effect, and whenever one has not they agree by chance only.

## Main definitions

* `Exchange`: how the calls of the adapter end.
* `setBreakpoints`: the adapter and the executor behind it.
* `Mirror`, `MirrorEvent`, `step`: the bridge and the executor.
* `Faithful`: the list has the breakpoints of the executor.
* `Synced`: the condition on the state before an exchange and on its calls.

## Main results

* `existingIps_listText`: the adapter reads the answer of the runtime.
* `mem_clearAll`, `mem_setAll`: the breakpoints after the two loops.
* `sync_faithful_iff`: the list is faithful after an exchange iff it was synced.
* `mirror_run_iff`: the same for runs.
-/

open Transition

namespace Weftik.BreakpointMirror

open Dap

variable {P : Platform}

/-! ### The runtime -/

/-- The call has changed the executor, if there is one. -/
def takesEffect : Ending → Bool
  | .refused _ => false
  | .performed | .lost _ => true

/-- `set_breakpoint` and `clear_breakpoint`, which change the executor as it is said. -/
def changeBreakpoint (change : Executor P → ℕ → Executor P) (ending : Ending)
    (executor : Option (Executor P)) (ip : ℕ) : Except String Unit × Option (Executor P) :=
  match ending with
  | .refused reason => (.error reason, executor)
  | .lost reason => (.error reason, executor.map (change · ip))
  | .performed =>
      match executor with
      | none => (.error "no program loaded", none)
      | some e => (.ok (), some (change e ip))

/-- The answer of the runtime to `list_breakpoints`. -/
def listText (e : Executor P) : String :=
  String.intercalate "," (e.listBreakpoints.map toString)

/-- `list_breakpoints`. -/
def listBreakpoints (ending : Ending) (executor : Option (Executor P)) : Except String String :=
  match ending with
  | .refused reason | .lost reason => .error reason
  | .performed =>
      match executor with
      | none => .error "no program loaded"
      | some e => .ok (listText e)

/-! ### The adapter -/

/-- How the calls of one `setBreakpoints` end: the list, the clearing of an address, and the
setting of the breakpoint at a place of the list. -/
structure Exchange where
  list : Ending
  clear : ℕ → Ending
  set : ℕ → Ending

/-- `parse::<u32>`. -/
def parseU32 (cs : List Char) : Option ℕ := (parseUsize cs).filter (· < 2 ^ 32)

/-- A bracket of a list. -/
def isBracket (c : Char) : Bool := c = '[' || c = ']'

/-- The addresses that are cleared: those that the answer of the runtime says. -/
def existingIps (P : Platform) (existing : String) : List ℕ :=
  if existing ≠ "[]" ∧ existing ≠ "" then
    ((Text.trim isBracket existing.toList).splitOn ',').filterMap fun ip =>
      parseU32 (Text.trim P.white ip)
  else []

/-- The first loop: existing breakpoints are cleared. -/
def clearAll (o : Exchange) (executor : Option (Executor P)) (ips : List ℕ) :
    Option (Executor P) :=
  ips.foldl (fun e ip => (changeBreakpoint Executor.removeBreakpoint (o.clear ip) e ip).2) executor

/-- The second loop, from a place of the list on. -/
def setAll (o : Exchange) : ℕ → List ℕ → Option (Executor P) →
    List Breakpoint × Option (Executor P)
  | _, [], executor => ([], executor)
  | i, line :: lines, executor =>
      let (answer, executor) :=
        changeBreakpoint Executor.addBreakpoint (o.set i) executor (line % 2 ^ 32)
      let (breakpoints, executor) := setAll o (i + 1) lines executor
      let breakpoint :=
        match answer with
        | .ok () => ⟨i + 1, true, some line, none⟩
        | .error e => ⟨i + 1, false, some line, some e⟩
      (breakpoint :: breakpoints, executor)

/-- The lines of the arguments: each is a `usize`. -/
def decodeLines (lines : List ℤ) : Option (List ℕ) :=
  if ∀ line ∈ lines, 0 ≤ line ∧ line < 2 ^ 64 then some (lines.map Int.toNat) else none

/-- `handle_set_breakpoints` of an adapter that is connected. -/
def setBreakpoints (o : Exchange) (lines : List ℤ) (executor : Option (Executor P)) :
    Except String (List Breakpoint) × Option (Executor P) :=
  match decodeLines lines with
  | none => (.error "invalid breakpoint arguments", executor)
  | some lines =>
      let existing :=
        match listBreakpoints o.list executor with
        | .ok existing => existing
        | .error _ => ""
      let (breakpoints, executor) := setAll o 0 lines (clearAll o executor (existingIps P existing))
      (.ok breakpoints, executor)

/-! ### The bridge -/

/-- The list of the bridge, and the executor of the runtime; `none` when no program is loaded. -/
structure Mirror (P : Platform) where
  bps : List ℤ
  executor : Option (Executor P)

/-- The calls, each with how the calls of the adapter end. -/
inductive MirrorEvent
  | addBreakpoint (ip : ℤ) (o : Exchange)
  | removeBreakpoint (ip : ℤ) (o : Exchange)

/-- The list after a call. -/
def MirrorEvent.bps (bps : List ℤ) : MirrorEvent → List ℤ
  | .addBreakpoint ip _ => if ip ∈ bps then bps else bps ++ [ip]
  | .removeBreakpoint ip _ => bps.filter (· ≠ ip)

/-- How the calls of the adapter end. -/
def MirrorEvent.exchange : MirrorEvent → Exchange
  | .addBreakpoint _ o | .removeBreakpoint _ o => o

/-- `syncBreakpoints`. Whatever the answer is, the list stays. -/
def sync (s : Mirror P) (bps : List ℤ) (o : Exchange) : Mirror P :=
  ⟨bps, (setBreakpoints o bps s.executor).2⟩

/-- One call, which is awaited. -/
def step (s : Mirror P) (e : MirrorEvent) : Option (Mirror P) :=
  some (sync s (e.bps s.bps) e.exchange)

/-! ### The property and its condition -/

/-- The breakpoints of the executor. -/
def breakpoints (executor : Option (Executor P)) : Finset ℕ :=
  executor.elim ∅ fun e => e.debugState.breakpoints

/-- The list has the breakpoints of the executor and no others. -/
def Faithful (s : Mirror P) : Prop :=
  ∀ line : ℤ, line ∈ s.bps ↔ ∃ ip ∈ breakpoints s.executor, (ip : ℤ) = line

/-- The breakpoint is cleared, if the executor has it. -/
def Clears (o : Exchange) (line : ℤ) : Prop :=
  o.list = .performed ∧ takesEffect (o.clear line.toNat) = true

/-- The condition on the state before an exchange, the list that is sent and the calls. The lines
are addresses, and a program is loaded when there is one; each line is set, or is a breakpoint
already and not cleared; and each breakpoint that is not in the list is cleared. -/
structure Synced (s : Mirror P) (bps : List ℤ) (o : Exchange) : Prop where
  address : ∀ line ∈ bps, 0 ≤ line ∧ line < 2 ^ 32
  loaded : bps ≠ [] → s.executor.isSome = true
  stands : ∀ line ∈ bps, (∃ i, bps[i]? = some line ∧ takesEffect (o.set i) = true) ∨
    (line ∈ s.bps ∧ ¬ Clears o line)
  cleared : ∀ line ∈ s.bps, line ∉ bps → Clears o line

/-! ### The list of the runtime -/

/-- The characters of numbers that are joined with commas. -/
theorem mem_intercalate_digits {l : List ℕ} {c : Char}
    (h : c ∈ [','].intercalate (l.map (Nat.toDigits 10))) : c = ',' ∨ c.isDigit = true := by
  have hdigits : ∀ n, c ∈ Nat.toDigits 10 n → c.isDigit = true := fun n hc =>
    Nat.isDigit_of_mem_toDigits (by omega) (by omega) hc
  induction l with
  | nil => cases h
  | cons n l ih =>
      cases l with
      | nil =>
          rw [List.map_singleton, List.intercalate_singleton] at h
          exact Or.inr (hdigits n h)
      | cons m l =>
          rw [List.map_cons, List.map_cons, List.intercalate_cons_cons] at h
          rcases List.mem_append.mp h with h | h
          · rcases List.mem_append.mp h with h | h
            · exact Or.inr (hdigits n h)
            · exact Or.inl (List.mem_singleton.mp h)
          · exact ih h

theorem parseU32_trim {n : ℕ} (h : n < 2 ^ 32) :
    parseU32 (Text.trim P.white (Nat.toDigits 10 n)) = some n := by
  rw [Text.trim_of_forall (white_toDigits P n), parseU32, parseUsize_toDigits (by omega),
    Option.filter_some, if_pos (decide_eq_true h)]

/-- A text of numbers and commas is read as the numbers. -/
theorem existingIps_of_toList {text : String} {ips : List ℕ} (h : ∀ ip ∈ ips, ip < 2 ^ 32)
    (htext : text.toList = [','].intercalate (ips.map (Nat.toDigits 10))) :
    existingIps P text = ips := by
  have hchars : ∀ c ∈ text.toList, c = ',' ∨ c.isDigit = true := fun c hc =>
    mem_intercalate_digits (htext ▸ hc)
  have hbracket : ∀ c ∈ text.toList, isBracket c = false := by
    intro c hc
    rcases hchars c hc with rfl | hdigit
    · rfl
    · have hne : c ≠ '[' ∧ c ≠ ']' := by
        constructor <;> rintro rfl <;> cases hdigit
      rw [isBracket, decide_eq_false hne.1, decide_eq_false hne.2]
      rfl
  have hnotEmpty : text ≠ "[]" := by
    rintro rfl
    cases hbracket '[' (by rw [String.toList_ofList]; exact List.mem_cons_self)
  cases ips with
  | nil =>
      have hempty : text = "" := String.toList_eq_nil_iff.mp htext
      rw [existingIps, if_neg fun hand => hand.2 hempty]
  | cons ip ips =>
      have hcomma : ∀ digits ∈ (ip :: ips).map (Nat.toDigits 10), ',' ∉ digits := by
        intro digits hdigits hmem
        obtain ⟨n, -, rfl⟩ := List.mem_map.mp hdigits
        cases Nat.isDigit_of_mem_toDigits (by omega) (by omega) hmem
      have hsplit := List.splitOn_intercalate ',' hcomma (List.cons_ne_nil _ _)
      rw [← htext] at hsplit
      have hne : text ≠ "" := by
        rintro rfl
        exact Nat.toDigits_ne_nil (List.cons.inj hsplit).1.symm
      rw [existingIps, if_pos ⟨hnotEmpty, hne⟩, Text.trim_of_forall hbracket, hsplit,
        List.filterMap_map]
      refine (List.filterMap_congr fun n hn => parseU32_trim (h n hn)).trans List.filterMap_some

/-- The adapter reads the answer of the runtime. -/
theorem existingIps_listText {e : Executor P} (h : ∀ ip ∈ e.debugState.breakpoints, ip < 2 ^ 32) :
    existingIps P (listText e) = e.listBreakpoints := by
  have hdigits : (String.toList ∘ toString : ℕ → List Char) = Nat.toDigits 10 :=
    funext fun n => Nat.toList_repr
  refine existingIps_of_toList (fun ip hip => h ip ((Finset.mem_sort _).mp hip)) ?_
  rw [listText, String.toList_intercalate, List.map_map, hdigits]
  rfl

/-! ### The two loops -/

/-- What a call does to the breakpoints. -/
theorem breakpoints_add (ending : Ending) (executor : Option (Executor P)) (ip : ℕ) :
    breakpoints (changeBreakpoint Executor.addBreakpoint ending executor ip).2 =
      if takesEffect ending = true ∧ executor.isSome = true then insert ip (breakpoints executor)
      else breakpoints executor := by
  cases ending <;> cases executor <;> rfl

theorem breakpoints_remove (ending : Ending) (executor : Option (Executor P)) (ip : ℕ) :
    breakpoints (changeBreakpoint Executor.removeBreakpoint ending executor ip).2 =
      if takesEffect ending = true then (breakpoints executor).erase ip
      else breakpoints executor := by
  cases ending <;> cases executor <;> rfl

theorem isSome_changeBreakpoint (change : Executor P → ℕ → Executor P) (ending : Ending)
    (executor : Option (Executor P)) (ip : ℕ) :
    (changeBreakpoint change ending executor ip).2.isSome = executor.isSome := by
  cases ending <;> cases executor <;> rfl

/-- The breakpoints after the first loop. -/
theorem mem_clearAll (o : Exchange) (ips : List ℕ) (executor : Option (Executor P)) (x : ℕ) :
    x ∈ breakpoints (clearAll o executor ips) ↔
      x ∈ breakpoints executor ∧ ¬ (x ∈ ips ∧ takesEffect (o.clear x) = true) := by
  induction ips generalizing executor with
  | nil =>
      rw [clearAll, List.foldl_nil]
      simp only [List.not_mem_nil, false_and, not_false_eq_true, and_true]
  | cons ip ips ih =>
      have hcons : clearAll o executor (ip :: ips) =
          clearAll o (changeBreakpoint Executor.removeBreakpoint (o.clear ip) executor ip).2 ips :=
        rfl
      rw [hcons, ih, breakpoints_remove, List.mem_cons]
      by_cases hx : x = ip
      · subst hx
        by_cases heffect : takesEffect (o.clear x) = true
        · rw [if_pos heffect, Finset.mem_erase]
          grind
        · rw [if_neg heffect]
          grind
      · have hkept : x ∈ (if takesEffect (o.clear ip) = true then (breakpoints executor).erase ip
            else breakpoints executor) ↔ x ∈ breakpoints executor := by
          split
          · rw [Finset.mem_erase]
            exact and_iff_right hx
          · rfl
        rw [hkept]
        grind

theorem isSome_clearAll (o : Exchange) (ips : List ℕ) (executor : Option (Executor P)) :
    (clearAll o executor ips).isSome = executor.isSome := by
  induction ips generalizing executor with
  | nil => rfl
  | cons ip ips ih => exact (ih _).trans (isSome_changeBreakpoint _ _ _ _)

/-- The breakpoints after the second loop. -/
theorem mem_setAll (o : Exchange) (lines : List ℕ) (i : ℕ) (executor : Option (Executor P))
    (x : ℕ) :
    x ∈ breakpoints (setAll o i lines executor).2 ↔
      x ∈ breakpoints executor ∨ (executor.isSome = true ∧
        ∃ k line, lines[k]? = some line ∧ takesEffect (o.set (i + k)) = true ∧
          line % 2 ^ 32 = x) := by
  induction lines generalizing i executor with
  | nil =>
      rw [setAll]
      simp only [List.getElem?_nil, reduceCtorEq, false_and, exists_false, and_false, or_false]
  | cons line lines ih =>
      have hcons : (setAll o i (line :: lines) executor).2 = (setAll o (i + 1) lines
          (changeBreakpoint Executor.addBreakpoint (o.set i) executor (line % 2 ^ 32)).2).2 := rfl
      have hplaces : (∃ k line', (line :: lines)[k]? = some line' ∧
          takesEffect (o.set (i + k)) = true ∧ line' % 2 ^ 32 = x) ↔
          (takesEffect (o.set i) = true ∧ line % 2 ^ 32 = x) ∨
            ∃ k line', lines[k]? = some line' ∧ takesEffect (o.set (i + 1 + k)) = true ∧
              line' % 2 ^ 32 = x := by
        constructor
        · rintro ⟨k, line', hline, heffect, hx⟩
          cases k with
          | zero =>
              obtain rfl := Option.some.inj hline
              exact Or.inl ⟨heffect, hx⟩
          | succ k =>
              rw [Nat.add_comm k 1, ← Nat.add_assoc] at heffect
              exact Or.inr ⟨k, line', hline, heffect, hx⟩
        · rintro (⟨heffect, hx⟩ | ⟨k, line', hline, heffect, hx⟩)
          · exact ⟨0, line, rfl, heffect, hx⟩
          · refine ⟨k + 1, line', hline, ?_, hx⟩
            rwa [Nat.add_comm k 1, ← Nat.add_assoc]
      rw [hcons, ih, breakpoints_add, isSome_changeBreakpoint, hplaces]
      by_cases hset : takesEffect (o.set i) = true ∧ executor.isSome = true
      · rw [if_pos hset, Finset.mem_insert, eq_comm]
        grind
      · rw [if_neg hset]
        grind

/-! ### One exchange -/

/-- The breakpoints were set through the runtime: they are addresses of 32 bits. -/
def Addresses (s : Mirror P) : Prop := ∀ ip ∈ breakpoints s.executor, ip < 2 ^ 32

variable {s : Mirror P}

/-- The addresses that the adapter clears. -/
theorem mem_existingIps (hs : Addresses s) (ending : Ending) (x : ℕ) :
    x ∈ existingIps P (match listBreakpoints ending s.executor with
      | .ok existing => existing
      | .error _ => "") ↔ ending = .performed ∧ x ∈ breakpoints s.executor := by
  have hnone : x ∉ existingIps P "" := by
    rw [existingIps, if_neg fun hand => hand.2 rfl]
    exact List.not_mem_nil
  cases ending with
  | refused reason => exact iff_of_false hnone fun hand => nomatch hand.1
  | lost reason => exact iff_of_false hnone fun hand => nomatch hand.1
  | performed =>
      cases hexecutor : s.executor with
      | none => exact iff_of_false hnone fun hand => Finset.notMem_empty x hand.2
      | some e =>
          have haddresses : ∀ ip ∈ e.debugState.breakpoints, ip < 2 ^ 32 := by
            intro ip hip
            refine hs ip ?_
            rw [hexecutor]
            exact hip
          rw [listBreakpoints]
          simp only [existingIps_listText haddresses, true_and]
          exact Finset.mem_sort _

/-- The breakpoints after an exchange of lines that are numbers of the adapter. -/
theorem mem_sync (hs : Addresses s) {bps : List ℤ} {o : Exchange}
    (hlines : ∀ line ∈ bps, 0 ≤ line ∧ line < 2 ^ 64) (x : ℕ) :
    x ∈ breakpoints (sync s bps o).executor ↔
      (x ∈ breakpoints s.executor ∧
        ¬ (o.list = .performed ∧ takesEffect (o.clear x) = true)) ∨
      (s.executor.isSome = true ∧ ∃ k line, bps[k]? = some line ∧
        takesEffect (o.set k) = true ∧ line.toNat % 2 ^ 32 = x) := by
  have hplaces : (∃ k line, (bps.map Int.toNat)[k]? = some line ∧
      takesEffect (o.set (0 + k)) = true ∧ line % 2 ^ 32 = x) ↔
      ∃ k line, bps[k]? = some line ∧ takesEffect (o.set k) = true ∧
        line.toNat % 2 ^ 32 = x := by
    simp only [List.getElem?_map, Option.map_eq_some_iff, Nat.zero_add]
    constructor
    · rintro ⟨k, -, ⟨line, hline, rfl⟩, hrest⟩
      exact ⟨k, line, hline, hrest⟩
    · rintro ⟨k, line, hline, hrest⟩
      exact ⟨k, line.toNat, ⟨line, hline, rfl⟩, hrest⟩
  rw [sync, setBreakpoints, decodeLines, if_pos hlines]
  simp only
  rw [mem_setAll, mem_clearAll, isSome_clearAll, mem_existingIps hs, hplaces]
  grind

/-- An exchange with a line that is no number of the adapter changes nothing. -/
theorem sync_executor_of_not {bps : List ℤ} (h : ¬ ∀ line ∈ bps, 0 ≤ line ∧ line < 2 ^ 64)
    (o : Exchange) : (sync s bps o).executor = s.executor := by
  rw [sync, setBreakpoints, decodeLines, if_neg h]

theorem Addresses.sync (hs : Addresses s) (bps : List ℤ) (o : Exchange) :
    Addresses (sync s bps o) := by
  by_cases hlines : ∀ line ∈ bps, 0 ≤ line ∧ line < 2 ^ 64
  · intro ip hip
    rcases (mem_sync hs hlines ip).mp hip with ⟨hip, -⟩ | ⟨-, k, line, -, -, rfl⟩
    · exact hs ip hip
    · exact Nat.mod_lt _ (by decide)
  · intro ip hip
    rw [sync_executor_of_not hlines] at hip
    exact hs ip hip

/-- The list is faithful after an exchange iff it was synced. -/
theorem sync_faithful_iff (hs : Addresses s) (hfaithful : Faithful s) (bps : List ℤ)
    (o : Exchange) : Faithful (sync s bps o) ↔ Synced s bps o := by
  by_cases hlines : ∀ line ∈ bps, 0 ≤ line ∧ line < 2 ^ 64
  · have hmem := mem_sync hs (o := o) hlines
    constructor
    · intro h
      -- Each line is a breakpoint of the executor.
      have hline : ∀ line ∈ bps, ∃ ip, ip ∈ breakpoints (sync s bps o).executor ∧ (ip : ℤ) = line :=
        fun line hmem => (h line).mp hmem
      refine ⟨fun line hbps => ?_, fun hne => ?_, fun line hbps => ?_, fun line hold hnot => ?_⟩
      · obtain ⟨ip, hip, rfl⟩ := hline line hbps
        have := hs.sync bps o ip hip
        omega
      · obtain ⟨line, hbps⟩ := List.exists_mem_of_ne_nil bps hne
        obtain ⟨ip, hip, -⟩ := hline line hbps
        rcases (hmem ip).mp hip with ⟨hip, -⟩ | ⟨hsome, -⟩
        · cases hexecutor : s.executor with
          | none =>
              rw [hexecutor] at hip
              exact absurd hip (Finset.notMem_empty ip)
          | some e => rfl
        · exact hsome
      · obtain ⟨ip, hip, rfl⟩ := hline line hbps
        rcases (hmem ip).mp hip with ⟨hip, hclears⟩ | ⟨-, k, line', hk, heffect, hmod⟩
        · exact Or.inr ⟨(hfaithful ip).mpr ⟨ip, hip, rfl⟩, hclears⟩
        · obtain ⟨ip', hip', rfl⟩ := hline line' (List.mem_of_getElem? hk)
          have hlt := hs.sync bps o ip' hip'
          rw [Int.toNat_natCast, Nat.mod_eq_of_lt hlt] at hmod
          exact Or.inl ⟨k, hmod ▸ hk, heffect⟩
      · obtain ⟨ip, hip, rfl⟩ := (hfaithful line).mp hold
        by_contra hclears
        refine hnot ((h ip).mpr ⟨ip, (hmem ip).mpr (Or.inl ⟨hip, hclears⟩), rfl⟩)
    · intro h line
      constructor
      · intro hbps
        obtain ⟨hnonneg, hlt⟩ := h.address line hbps
        obtain ⟨ip, rfl⟩ := Int.eq_ofNat_of_zero_le hnonneg
        refine ⟨ip, (hmem ip).mpr ?_, rfl⟩
        rcases h.stands ip hbps with ⟨k, hk, heffect⟩ | ⟨hold, hclears⟩
        · refine Or.inr ⟨h.loaded (List.ne_nil_of_mem hbps), k, ip, hk, heffect, ?_⟩
          rw [Int.toNat_natCast]
          exact Nat.mod_eq_of_lt (by omega)
        · obtain ⟨ip', hip', heq⟩ := (hfaithful ip).mp hold
          obtain rfl := Int.ofNat.inj heq
          exact Or.inl ⟨hip', hclears⟩
      · rintro ⟨ip, hip, rfl⟩
        rcases (hmem ip).mp hip with ⟨hip, hclears⟩ | ⟨-, k, line', hk, -, hmod⟩
        · by_contra hnot
          exact hclears (h.cleared ip ((hfaithful ip).mpr ⟨ip, hip, rfl⟩) hnot)
        · have hline' := List.mem_of_getElem? hk
          obtain ⟨hnonneg, hlt⟩ := h.address line' hline'
          have heq : line' = ip := by omega
          exact heq ▸ hline'
  · refine iff_of_false (fun h => hlines fun line hline => ?_) fun h => hlines fun line hline => ?_
    · obtain ⟨ip, hip, rfl⟩ := (h line).mp hline
      have := hs.sync bps o ip hip
      omega
    · have := h.address line hline
      omega

/-! ### Runs -/

/-- After every call of a run the list has the breakpoints of the executor, iff each of the
exchanges finds the list synced. -/
theorem mirror_run_iff (s : Mirror P) (hs : Addresses s) (hfaithful : Faithful s)
    (events : List MirrorEvent) :
    (∀ pre rest t, events = pre ++ rest → run step s pre = some t → Faithful t) ↔
      EveryStep step (fun s e => Synced s (e.bps s.bps) e.exchange) s events := by
  have htotal : ∀ (events : List MirrorEvent) (s : Mirror P),
      (run step s events).isSome = true := by
    intro events
    induction events with
    | nil => exact fun _ => rfl
    | cons e events ih => exact fun s => ih _
  refine reached_iff_everyStep (I := Addresses) (fun s e t hs h => ?_)
      (fun s e t hs hfaithful h => ?_)
    hs hfaithful (htotal events s)
  · obtain rfl := Option.some.inj h
    exact hs.sync _ _
  · obtain rfl := Option.some.inj h
    exact sync_faithful_iff hs hfaithful _ _

/-- Every call succeeds. -/
def allPerformed : Exchange := ⟨.performed, fun _ => .performed, fun _ => .performed⟩

/-- A new connection, to a runtime with some program or with none. -/
def connected (program : Option (HalProgram Platform.exact)) : Mirror Platform.exact :=
  ⟨[], program.map Executor.new⟩

theorem connected_faithful (program : Option (HalProgram Platform.exact)) :
    Addresses (connected program) ∧ Faithful (connected program) := by
  have hnone : ∀ ip, ip ∉ breakpoints (connected program).executor := by
    intro ip
    cases program <;> exact Finset.notMem_empty ip
  refine ⟨fun ip hip => absurd hip (hnone ip), fun line => iff_of_false List.not_mem_nil ?_⟩
  rintro ⟨ip, hip, -⟩
  exact hnone ip hip

/-- A breakpoint that the runtime has set. -/
theorem mirror_run_iff_performed : ∃ t,
    run step (connected (some (.new "main" []))) [.addBreakpoint 5 allPerformed] = some t ∧
      Faithful t := by
  have hsynced : Synced (connected (some (.new "main" []))) [5] allPerformed :=
    ⟨by decide, fun _ => rfl, fun line hline => Or.inl ⟨0, by rw [List.mem_singleton.mp hline]; rfl,
      rfl⟩, fun line hline => absurd hline List.not_mem_nil⟩
  obtain ⟨haddresses, hfaithful⟩ := connected_faithful (some (.new "main" []))
  exact ⟨_, rfl, (mirror_run_iff _ haddresses hfaithful [.addBreakpoint 5 allPerformed]).mpr
    ⟨hsynced, trivial⟩ [.addBreakpoint 5 allPerformed] [] _ rfl rfl⟩

/-- No program is loaded: the list has a breakpoint that the runtime has refused. -/
theorem noProgram_not_faithful :
    ¬ ∀ (s : Mirror Platform.exact) (events : List MirrorEvent), Addresses s → Faithful s →
      ∀ t, run step s events = some t → Faithful t := by
  intro h
  obtain ⟨haddresses, hfaithful⟩ := connected_faithful none
  have ht := h (connected none) [.addBreakpoint 5 allPerformed] haddresses hfaithful _ rfl
  obtain ⟨ip, hip, -⟩ := (ht 5).mp List.mem_cons_self
  exact Finset.notMem_empty ip hip

end Weftik.BreakpointMirror
