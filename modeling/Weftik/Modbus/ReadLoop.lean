import Weftik.Modbus.Agreement
import Weftik.Modbus.VirtualDevice

/-!
# The Loops of the Read Handlers

A read handler goes through the addresses of its range in `u16`, reads the item of each and
writes it into a result of zeros: bits into the bytes, low bit first, or registers as two
bytes, the high one first. What has been written at one place stays there when the next items
are written. The first item that is refused ends the loop, and so does the first address that
is not a `u16`, when overflow is checked.

## Main definitions

* `Modbus.bitAt`: a bit of a sequence of bytes.
* `Modbus.pack`: the items written into a result.
* `Modbus.Reads`: the items of some addresses, read one after the other.
* `Modbus.reached`: the addresses that a loop comes to.

## Main results

* `Modbus.bitAt_packBits`, `Modbus.beWord_packWords`: the items that a packed result holds.
* `Modbus.foldlM_refusable`, `Modbus.foldlM_total`: what the loops compute.
-/

namespace Weftik.Modbus

/-! ### Bits -/

/-- A bit of a sequence of bytes, the low bit of a byte first; past the end there are zeros. -/
def bitAt (data : List UInt8) (j : ℕ) : Bool :=
  (data.getD (j / 8) 0).toNat.testBit (j % 8)

/-- The items written into a result, the first one at the given index. -/
def pack {α : Type} (write : List UInt8 → ℕ → α → List UInt8) :
    ℕ → List UInt8 → List α → List UInt8
  | _, result, [] => result
  | i, result, v :: vs => pack write (i + 1) (write result i v) vs

/-- A bit is written when it is set. -/
def writeBit (result : List UInt8) (i : ℕ) (v : Bool) : List UInt8 :=
  if v then setBit result i else result

/-- Zeros have no bit. -/
theorem bitAt_zeros (n j : ℕ) : bitAt (List.replicate n 0) j = false := by
  have hzero : (List.replicate n (0 : UInt8)).getD (j / 8) 0 = 0 := by
    rw [List.getD_eq_getElem?_getD, List.getElem?_replicate]
    split <;> rfl
  rw [bitAt, hzero]
  exact Nat.zero_testBit _

/-- The bits of a byte of which one is set. -/
theorem testBit_or_one_shiftLeft (b : UInt8) {k m : ℕ} (hk : k < 8) (hm : m < 8) :
    (b ||| 1 <<< UInt8.ofNat k).toNat.testBit m = (b.toNat.testBit m || decide (m = k)) := by
  rw [UInt8.toNat_or, Nat.testBit_or]
  have hbits : ∀ k < 8, ∀ m < 8,
      (1 <<< UInt8.ofNat k : UInt8).toNat.testBit m = decide (m = k) := by decide
  rw [hbits k hk m hm]

variable {i : ℕ}

/-- A bit that is set, and the others. -/
theorem bitAt_setBit {result : List UInt8} (hi : i / 8 < result.length) (j : ℕ) :
    bitAt (setBit result i) j = (bitAt result j || decide (j = i)) := by
  rw [bitAt, bitAt, setBit, List.getD_eq_getElem?_getD, List.getD_eq_getElem?_getD,
    List.getElem?_modify]
  by_cases hbyte : i / 8 = j / 8
  · rw [hbyte] at hi
    simp only [if_pos hbyte]
    rw [List.getElem?_eq_getElem hi, Option.map_eq_map, Option.map_some, Option.getD_some,
      Option.getD_some, testBit_or_one_shiftLeft _ (by omega) (by omega)]
    congr 1
    rw [decide_eq_decide]
    omega
  · have hne : j ≠ i := by
      rintro rfl
      exact hbyte rfl
    simp only [if_neg hbyte]
    rw [Option.map_eq_map, Option.map_id', decide_eq_false hne, Bool.or_false]

/-- Writing a bit keeps the length. -/
@[simp] theorem length_writeBit (result : List UInt8) (i : ℕ) (v : Bool) :
    (writeBit result i v).length = result.length := by
  rw [writeBit]
  split
  · rw [setBit, List.length_modify]
  · rfl

/-- The bits of a result into which bits have been written. -/
theorem bitAt_pack {result : List UInt8} {vs : List Bool}
    (hlen : i + vs.length ≤ 8 * result.length) (j : ℕ) :
    bitAt (pack writeBit i result vs) j =
      (bitAt result j || decide (i ≤ j) && vs.getD (j - i) false) := by
  induction vs generalizing i result with
  | nil => simp [pack]
  | cons v vs ih =>
      rw [List.length_cons] at hlen
      have hwrite : bitAt (writeBit result i v) j = (bitAt result j || v && decide (j = i)) := by
        rw [writeBit]
        cases v with
        | false => rw [if_neg Bool.false_ne_true, Bool.false_and, Bool.or_false]
        | true => rw [if_pos rfl, bitAt_setBit (by omega), Bool.true_and]
      rw [pack, ih (by rw [length_writeBit]; omega), hwrite]
      rcases Nat.lt_trichotomy j i with hlt | rfl | hgt
      · rw [decide_eq_false (by omega : ¬ i ≤ j), decide_eq_false (by omega : ¬ i + 1 ≤ j),
          decide_eq_false (by omega : ¬ j = i)]
        simp
      · rw [decide_eq_false (by omega : ¬ j + 1 ≤ j), Nat.sub_self]
        simp
      · obtain ⟨k, rfl⟩ := Nat.exists_eq_add_of_lt hgt
        have hsub : i + k + 1 - i = k + 1 := by omega
        have hsub' : i + k + 1 - (i + 1) = k := by omega
        rw [decide_eq_false (by omega : ¬ i + k + 1 = i), hsub, hsub',
          decide_eq_true (by omega : i ≤ i + k + 1), decide_eq_true (by omega : i + 1 ≤ i + k + 1)]
        simp

/-- The bits that have been written into zeros. -/
theorem bitAt_packBits {n : ℕ} {vs : List Bool} (hlen : vs.length ≤ 8 * n) (j : ℕ) :
    bitAt (pack writeBit 0 (List.replicate n 0) vs) j = vs.getD j false := by
  rw [bitAt_pack (by rw [List.length_replicate]; omega), bitAt_zeros, Nat.sub_zero]
  simp

/-- Writing items keeps the length when writing one does. -/
theorem length_pack {α : Type} {write : List UInt8 → ℕ → α → List UInt8}
    (hwrite : ∀ result i v, (write result i v).length = result.length) (i : ℕ)
    (result : List UInt8) (vs : List α) : (pack write i result vs).length = result.length := by
  induction vs generalizing i result with
  | nil => rfl
  | cons v vs ih => rw [pack, ih, hwrite]

/-! ### Registers -/

/-- Writing a register keeps the length. -/
@[simp] theorem length_setWord (result : List UInt8) (i : ℕ) (v : UInt16) :
    (setWord result i v).length = result.length := by
  rw [setWord, List.length_set, List.length_set]

/-- A register that has been written, as its two bytes are read. -/
theorem beWord_setWord_self {result : List UInt8} (hi : 2 * i + 1 < result.length) (v : UInt16) :
    beWord (setWord result i v) (2 * i) = v := by
  have hhigh : (setWord result i v).getD (2 * i) 0 = (v >>> 8).toUInt8 := by
    rw [setWord, List.getD_eq_getElem?_getD, List.getElem?_set_ne (by omega),
      List.getElem?_set_self (by omega), Option.getD_some]
  have hlow : (setWord result i v).getD (2 * i + 1) 0 = (v &&& 0xFF).toUInt8 := by
    rw [setWord, List.getD_eq_getElem?_getD,
      List.getElem?_set_self (by rw [List.length_set]; omega), Option.getD_some]
  have hv := v.toNat_lt
  have hdiv : (v >>> 8).toUInt8.toNat = v.toNat / 256 := by
    rw [UInt16.toNat_toUInt8, UInt16.toNat_shiftRight]
    change v.toNat >>> 8 % 2 ^ 8 = _
    rw [Nat.shiftRight_eq_div_pow]
    omega
  have hmod : (v &&& 0xFF).toUInt8.toNat = v.toNat % 256 := by
    rw [UInt16.toNat_toUInt8, UInt16.toNat_and]
    change (v.toNat &&& (2 ^ 8 - 1)) % 2 ^ 8 = _
    rw [Nat.and_two_pow_sub_one_eq_mod]
    omega
  rw [beWord, hhigh, hlow, hdiv, hmod, Nat.div_add_mod, UInt16.ofNat_toNat]

/-- The other registers are not changed. -/
theorem beWord_setWord_of_ne {result : List UInt8} {j : ℕ} (h : j ≠ i) (v : UInt16) :
    beWord (setWord result i v) (2 * j) = beWord result (2 * j) := by
  have hget : ∀ k, k ≠ 2 * i → k ≠ 2 * i + 1 →
      (setWord result i v).getD k 0 = result.getD k 0 := by
    intro k hk hk'
    rw [setWord, List.getD_eq_getElem?_getD, List.getElem?_set_ne (Ne.symm hk'),
      List.getElem?_set_ne (Ne.symm hk), List.getD_eq_getElem?_getD]
  rw [beWord, beWord, hget _ (by omega) (by omega), hget _ (by omega) (by omega)]

/-- The registers before those that are written are not changed. -/
theorem beWord_pack_of_lt {result : List UInt8} {j : ℕ} (h : j < i) (vs : List UInt16) :
    beWord (pack setWord i result vs) (2 * j) = beWord result (2 * j) := by
  induction vs generalizing i result with
  | nil => rfl
  | cons v vs ih => rw [pack, ih (by omega), beWord_setWord_of_ne (by omega)]

/-- The registers of a result into which registers have been written. -/
theorem beWord_pack {result : List UInt8} {vs : List UInt16}
    (hlen : 2 * (i + vs.length) ≤ result.length) {j : ℕ} (hj : j < vs.length) :
    beWord (pack setWord i result vs) (2 * (i + j)) = vs.getD j 0 := by
  induction vs generalizing i j result with
  | nil => cases hj
  | cons v vs ih =>
      rw [List.length_cons] at hlen hj
      cases j with
      | zero =>
          have hindex : 2 * (i + 0) = 2 * i := rfl
          rw [hindex, pack, beWord_pack_of_lt (by omega), beWord_setWord_self (by omega)]
          rfl
      | succ j =>
          have hlen' : 2 * (i + 1 + vs.length) ≤ (setWord result i v).length := by
            rw [length_setWord]
            omega
          have hnext := ih hlen' (by omega : j < vs.length)
          rw [pack, ← Nat.add_assoc, Nat.add_right_comm, hnext]
          rfl

/-- The registers that have been written into zeros. -/
theorem beWord_packWords {n : ℕ} {vs : List UInt16} (hlen : 2 * vs.length ≤ n) {j : ℕ}
    (hj : j < vs.length) :
    beWord (pack setWord 0 (List.replicate n 0) vs) (2 * j) = vs.getD j 0 := by
  have hlen' : 2 * (0 + vs.length) ≤ (List.replicate n (0 : UInt8)).length := by
    rw [List.length_replicate, Nat.zero_add]
    exact hlen
  have hword := beWord_pack hlen' hj
  rwa [Nat.zero_add] at hword

open Amw

variable {P : Platform} {σ α : Type}

/-! ### Computations that may be refused -/

variable {x : Fallible P σ α} {β : Type}

/-- A computation goes on with what its first part has returned. -/
theorem Fallible.bind_ok {f : α → Fallible P σ β} {a : α} {s s' : Session P σ}
    (hx : x.run s = (.ok (.ok a), s')) : (x >>= f).run s = (f a).run s' :=
  bind_of_ok hx

/-- A computation whose first part is refused is refused. -/
theorem Fallible.bind_refused {f : α → Fallible P σ β} {exc : UInt8} {s s' : Session P σ}
    (hx : x.run s = (.ok (.error exc), s')) : (x >>= f).run s = (.ok (.error exc), s') :=
  bind_of_ok hx

/-- A computation whose first part panics panics. -/
theorem bind_of_panic {x : Handling P σ α} {f : α → Handling P σ β} {panic : Panic}
    {s s' : Session P σ} (hx : x s = (.error panic, s')) : (x >>= f) s = (.error panic, s') := by
  change ExceptT.bindCont f (x s).1 (x s).2 = _
  rw [hx]
  rfl

@[inherit_doc bind_of_panic]
theorem Fallible.bind_panic {f : α → Fallible P σ β} {panic : Panic} {s s' : Session P σ}
    (hx : x.run s = (.error panic, s')) : (x >>= f).run s = (.error panic, s') :=
  bind_of_panic hx

/-- A computation that never panics. -/
def NeverPanics (x : Fallible P σ α) : Prop :=
  ∀ s, ∃ r s', x.run s = (.ok r, s')

theorem neverPanics_pure (a : α) : NeverPanics (pure a : Fallible P σ α) :=
  fun s => ⟨.ok a, s, rfl⟩

theorem neverPanics_throw (exc : UInt8) : NeverPanics (throw exc : Fallible P σ α) :=
  fun s => ⟨.error exc, s, rfl⟩

/-- A computation never panics when its parts do not. -/
theorem NeverPanics.bind {f : α → Fallible P σ β} (hx : NeverPanics x)
    (hf : ∀ a, NeverPanics (f a)) : NeverPanics (x >>= f) := by
  intro s
  obtain ⟨r, s', hr⟩ := hx s
  cases r with
  | error exc => exact ⟨_, _, Fallible.bind_refused hr⟩
  | ok a =>
      obtain ⟨r', s'', hr'⟩ := hf a s'
      exact ⟨r', s'', (Fallible.bind_ok hr).trans hr'⟩

/-! ### Reading items -/

/-- The items of the addresses are read one after the other, up to the first one that is
refused. -/
inductive Reads (read : UInt16 → Fallible P σ α) :
    List UInt16 → Session P σ → Except UInt8 (List α) → Session P σ → Prop
  | nil (s : Session P σ) : Reads read [] s (.ok []) s
  | refused {addr : UInt16} {addrs : List UInt16} {s s' : Session P σ} {exc : UInt8} :
      (read addr).run s = (.ok (.error exc), s') → Reads read (addr :: addrs) s (.error exc) s'
  | read {addr : UInt16} {addrs : List UInt16} {s s' s'' : Session P σ} {v : α}
      {r : Except UInt8 (List α)} :
      (read addr).run s = (.ok (.ok v), s') → Reads read addrs s' r s'' →
      Reads read (addr :: addrs) s (r.map (v :: ·)) s''

/-- Items can be read when the reader never panics. -/
theorem exists_reads {read : UInt16 → Fallible P σ α} (h : ∀ addr, NeverPanics (read addr))
    (addrs : List UInt16) (s : Session P σ) : ∃ r s', Reads read addrs s r s' := by
  induction addrs generalizing s with
  | nil => exact ⟨_, _, .nil s⟩
  | cons addr addrs ih =>
      obtain ⟨r, s', hread⟩ := h addr s
      cases r with
      | error exc => exact ⟨_, _, .refused hread⟩
      | ok v =>
          obtain ⟨r, s'', hrest⟩ := ih s'
          exact ⟨_, _, .read hread hrest⟩

/-- There is an item for each address. -/
theorem Reads.length {read : UInt16 → Fallible P σ α} {addrs : List UInt16}
    {s s' : Session P σ} {vs : List α} (h : Reads read addrs s (.ok vs) s') :
    vs.length = addrs.length := by
  induction addrs generalizing s vs with
  | nil =>
      cases h
      rfl
  | cons addr addrs ih =>
      generalize hr : (Except.ok vs : Except UInt8 (List α)) = r at h
      cases h with
      | refused => cases hr
      | @read _ _ _ _ _ v r hread hrest =>
          cases r with
          | error => cases hr
          | ok ws =>
              obtain rfl := Except.ok.inj hr
              rw [List.length_cons, List.length_cons, ih hrest]

/-- The items that are read are known. -/
theorem Reads.unique {read : UInt16 → Fallible P σ α} {addrs : List UInt16}
    {s s₁ s₂ : Session P σ} {r₁ r₂ : Except UInt8 (List α)} (h₁ : Reads read addrs s r₁ s₁)
    (h₂ : Reads read addrs s r₂ s₂) : r₁ = r₂ ∧ s₁ = s₂ := by
  induction h₁ generalizing r₂ s₂ with
  | nil =>
      cases h₂
      exact ⟨rfl, rfl⟩
  | refused hread =>
      cases h₂ with
      | refused hread' =>
          rw [hread] at hread'
          obtain ⟨hexc, hs⟩ := Prod.mk.inj hread'
          rw [Except.error.inj (Except.ok.inj hexc)]
          exact ⟨rfl, hs⟩
      | read hread' =>
          rw [hread] at hread'
          cases (Prod.mk.inj hread').1
  | read hread _ ih =>
      cases h₂ with
      | refused hread' =>
          rw [hread] at hread'
          cases (Prod.mk.inj hread').1
      | read hread' hrest =>
          rw [hread] at hread'
          obtain ⟨hv, rfl⟩ := Prod.mk.inj hread'
          obtain ⟨rfl, rfl⟩ := ih hrest
          rw [Except.ok.inj (Except.ok.inj hv)]
          exact ⟨rfl, rfl⟩

/-! ### The addresses -/

/-- The address `start + i`, as it is in `u16`. -/
def addressOf (start : UInt16) (i : ℕ) : UInt16 := UInt16.ofNat (start.toNat + i)

/-- The addresses of a range. -/
def addresses (start : UInt16) (count : ℕ) : List UInt16 :=
  (List.range count).map (addressOf start)

/-- The addresses that a loop over a range comes to: those up to the largest one, or all of
them, from zero again, when overflow is not checked. -/
def reached (P : Platform) (start : UInt16) (count : ℕ) : List UInt16 :=
  addresses start (if P.overflowChecks then min count (2 ^ 16 - start.toNat) else count)

/-- An address that is a `u16`, or that need not be one. -/
theorem addressAt_eq {start : UInt16} (h : start.toNat + i < 2 ^ 16 ∨ P.overflowChecks = false) :
    (addressAt start i : Handling P σ UInt16) = pure (addressOf start i) := by
  have hofInt : (MachineInt.ofInt ((start.toNat : ℤ) + i) : UInt16) = addressOf start i := by
    apply UInt16.toNat_inj.mp
    change (UInt16.ofNat (((start.toNat : ℤ) + i) % 2 ^ 16).toNat).toNat = _
    rw [addressOf, UInt16.toNat_ofNat', UInt16.toNat_ofNat']
    omega
  have hchecked : checked P ((start.toNat : ℤ) + i) = .ok (addressOf start i) := by
    rw [checked, if_pos, hofInt]
    refine h.imp_left fun hlt => ?_
    change (0 : ℤ) ≤ (start.toNat : ℤ) + i ∧ (start.toNat : ℤ) + i ≤ 2 ^ 16 - 1
    omega
  rw [addressAt, hchecked]

/-- An address that has to be a `u16` and is none. -/
theorem addressAt_panics {start : UInt16} (h : 2 ^ 16 ≤ start.toNat + i)
    (hchecks : P.overflowChecks = true) :
    (addressAt start i : Handling P σ UInt16) = throw .overflow := by
  have hchecked : (checked P ((start.toNat : ℤ) + i) : Except Panic UInt16) =
      .error .overflow := by
    rw [checked, if_neg]
    rintro (⟨-, hle⟩ | hnone)
    · change (start.toNat : ℤ) + i ≤ 2 ^ 16 - 1 at hle
      omega
    · rw [hchecks] at hnone
      cases hnone
  rw [addressAt, hchecked]

/-! ### The loops -/

/-- The loop of a reader that may refuse. -/
def refusableLoop (read : UInt16 → Fallible P σ α) (write : List UInt8 → ℕ → α → List UInt8)
    (start : UInt16) (result : List UInt8) (is : List ℕ) : Fallible P σ (List UInt8) :=
  is.foldlM (fun result i => do
    let addr ← (addressAt start i : Handling P σ UInt16)
    let v ← read addr
    pure (write result i v)) result

section

variable {read : UInt16 → Fallible P σ α} {write : List UInt8 → ℕ → α → List UInt8}
  {start : UInt16} {s s' : Session P σ} {r : Except UInt8 (List α)} {result : List UInt8}

/-- The loop over indices whose addresses are all there. -/
theorem refusableLoop_reads {count i : ℕ}
    (h : Reads read ((List.range' i count).map (addressOf start)) s r s')
    (haddr : start.toNat + i + count ≤ 2 ^ 16 ∨ P.overflowChecks = false) :
    (refusableLoop read write start result (List.range' i count)).run s =
      (.ok (r.map (pack write i result)), s') := by
  induction count generalizing i s r result with
  | zero =>
      cases h
      rfl
  | succ count ih =>
      have hfirst : (addressAt start i : Handling P σ UInt16) = pure (addressOf start i) :=
        addressAt_eq (haddr.imp_left fun hle => by omega)
      rw [List.range'_succ, List.map_cons] at h
      rw [refusableLoop, List.range'_succ, List.foldlM_cons, hfirst]
      cases h with
      | refused hread =>
          refine Fallible.bind_refused ?_
          exact (Fallible.bind_ok rfl).trans (Fallible.bind_refused hread)
      | @read _ _ _ s₁ _ v r hread hrest =>
          refine (Fallible.bind_ok ((Fallible.bind_ok rfl).trans
            ((Fallible.bind_ok hread).trans rfl))).trans ?_
          have hstep : (refusableLoop read write start (write result i v)
              (List.range' (i + 1) count)).run s₁ =
                (.ok (r.map (pack write (i + 1) (write result i v))), s') :=
            ih hrest (haddr.imp_left fun hle => by omega)
          refine Eq.trans hstep ?_
          cases r <;> rfl

end

/-- The range of addresses goes past the largest one, and overflow is checked. -/
def Overflows (P : Platform) (start : UInt16) (count : ℕ) : Prop :=
  P.overflowChecks = true ∧ 2 ^ 16 < start.toNat + count

instance (start : UInt16) (count : ℕ) : Decidable (Overflows P start count) :=
  inferInstanceAs (Decidable (_ ∧ _))

/-- How a loop ends when the items of the addresses that it comes to have been read. -/
def loopEnd (P : Platform) (write : List UInt8 → ℕ → α → List UInt8) (start : UInt16)
    (count : ℕ) (result : List UInt8) :
    Except UInt8 (List α) → Except Panic (Except UInt8 (List UInt8))
  | .error exc => .ok (.error exc)
  | .ok vs =>
      if Overflows P start count then .error .overflow else .ok (.ok (pack write 0 result vs))

/-- What the loop of a reader that may refuse computes. -/
theorem foldlM_refusable {read : UInt16 → Fallible P σ α}
    {write : List UInt8 → ℕ → α → List UInt8} {start : UInt16} {count : ℕ}
    {s s' : Session P σ} {r : Except UInt8 (List α)} {result : List UInt8}
    (h : Reads read (reached P start count) s r s') :
    (refusableLoop read write start result (List.range count)).run s =
      (loopEnd P write start count result r, s') := by
  rw [List.range_eq_range']
  rw [reached, addresses, List.range_eq_range'] at h
  by_cases hover : Overflows P start count
  · have hstart := start.toNat_lt
    obtain ⟨hchecks, hlt⟩ := hover
    obtain ⟨rest, hrest⟩ := Nat.exists_eq_add_of_lt (show 2 ^ 16 - start.toNat < count by omega)
    have hmin : min count (2 ^ 16 - start.toNat) = 2 ^ 16 - start.toNat := by omega
    rw [if_pos hchecks, hmin] at h
    have hloop : (refusableLoop read write start result
        (List.range' 0 (2 ^ 16 - start.toNat))).run s =
          (.ok (r.map (pack write 0 result)), s') :=
      refusableLoop_reads h (Or.inl (by omega))
    rw [hrest, Nat.add_assoc, ← List.range'_append_1, refusableLoop, List.foldlM_append,
      Nat.zero_add, List.range'_succ]
    cases r with
    | error exc => exact Fallible.bind_refused hloop
    | ok vs =>
        refine (Fallible.bind_ok hloop).trans ?_
        rw [loopEnd, if_pos ⟨hchecks, by omega⟩, List.foldlM_cons,
          addressAt_panics (by omega) hchecks]
        exact Fallible.bind_panic (Fallible.bind_panic rfl)
  · have hcount : (if P.overflowChecks then min count (2 ^ 16 - start.toNat) else count) =
        count := by
      split
      · rename_i hchecks
        have := mt (And.intro hchecks) hover
        omega
      · rfl
    rw [hcount] at h
    have haddr : start.toNat + 0 + count ≤ 2 ^ 16 ∨ P.overflowChecks = false := by
      by_cases hchecks : P.overflowChecks = true
      · have := mt (And.intro hchecks) hover
        exact Or.inl (by omega)
      · exact Or.inr (Bool.not_eq_true _ ▸ hchecks)
    rw [refusableLoop_reads h haddr]
    cases r with
    | error exc => rfl
    | ok vs => rw [loopEnd, if_neg hover, Except.map]

/-- The loop of a reader that refuses nothing. -/
def totalLoop (read : UInt16 → Handling P σ α) (write : List UInt8 → ℕ → α → List UInt8)
    (start : UInt16) (result : List UInt8) (is : List ℕ) : Handling P σ (List UInt8) :=
  is.foldlM (fun result i => do
    let addr ← addressAt start i
    let v ← read addr
    pure (write result i v)) result

/-- A loop that refuses nothing is one that may refuse. -/
theorem run_refusableLoop_lift (read : UInt16 → Handling P σ α)
    (write : List UInt8 → ℕ → α → List UInt8) (start : UInt16) (result : List UInt8)
    (is : List ℕ) :
    (refusableLoop (fun addr => ExceptT.lift (read addr)) write start result is).run =
      Except.ok <$> totalLoop read write start result is := by
  induction is generalizing result with
  | nil => simp [refusableLoop, totalLoop]
  | cons i is ih =>
      simp only [refusableLoop, totalLoop] at ih
      simp only [refusableLoop, totalLoop, List.foldlM_cons, bind_assoc, map_bind]
      refine (ExceptT.run_bind_lift (addressAt start i) _).trans (bind_congr fun addr => ?_)
      rw [ExceptT.run_bind_lift]
      refine bind_congr fun v => ?_
      rw [pure_bind, pure_bind]
      exact ih _

/-- What the loop of a reader that refuses nothing computes. -/
theorem foldlM_total {read : UInt16 → Handling P σ α}
    {write : List UInt8 → ℕ → α → List UInt8} {start : UInt16} {count : ℕ}
    {s s' : Session P σ} {vs : List α} {result : List UInt8}
    (h : Reads (fun addr => ExceptT.lift (read addr)) (reached P start count) s (.ok vs) s') :
    totalLoop read write start result (List.range count) s =
      (if Overflows P start count then .error .overflow
        else .ok (pack write 0 result vs), s') := by
  have hloop : (Except.ok <$> totalLoop read write start result (List.range count)) s =
      (loopEnd P write start count result (.ok vs), s') := by
    rw [← run_refusableLoop_lift]
    exact foldlM_refusable h
  generalize totalLoop read write start result (List.range count) = loop at hloop
  rw [map_eq_pure_bind] at hloop
  rcases hend : loop s with ⟨panic | r, s₁⟩
  · rw [bind_of_panic hend, loopEnd] at hloop
    split at hloop
    · rw [if_pos ‹_›, (Prod.mk.inj hloop).2, Except.error.inj (Prod.mk.inj hloop).1]
    · cases hloop
  · rw [bind_of_ok hend, loopEnd] at hloop
    split at hloop
    · cases hloop
    · obtain ⟨hr, rfl⟩ := Prod.mk.inj hloop
      rw [if_neg ‹_›, Except.ok.inj (Except.ok.inj hr)]

end Weftik.Modbus
