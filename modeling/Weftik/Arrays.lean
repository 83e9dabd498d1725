import Weftik.Arithmetic
import Weftik.RuntimeClient.Codec

/-!
# Array Elements

`LoadIndex` and `StoreIndex` find an element by its offset, which is the index times the size of
an element in `usize` arithmetic. A negative index is a large one after its cast, and the offset
of a large one overflows: it stops the machine or reaches another element, as the build says. A
stored value is cut to the size of an element, and one with fewer bytes stops the machine.

## Main definitions

* `HalValue.position`: the index that a register gives.
* `slot`: the element that an index reaches.
* `ArrayLaws`: loads and stores behave as those of an array.
* `LawsHold`: the condition on the array, the indexes and the stored value.

## Main results

* `HalValue.index_eq`, `HalValue.setIndex_eq`: what the code does with the element it reaches.
* `arrayLaws_iff`: the laws hold if and only if the condition does.
-/

open Outcome

namespace Weftik

variable {P : Platform}

open HalValue

/-! ### The element that an index reaches -/

/-- The index that a register gives, as an integer; zero for a value that is none. -/
def HalValue.position : HalValue P → ℤ
  | .s8 n => n.toInt
  | .u8 n => n.toNat
  | .s16 n => n.toInt
  | .u16 n => n.toNat
  | .s32 n => n.toInt
  | .u32 n => n.toNat
  | .s64 n => n.toInt
  | .u64 n => n.toNat
  | _ => 0

/-- The cast of an index to `usize`. -/
theorem valueAsUsize_eq (v : HalValue P) : Vm.valueAsUsize v = (v.position % 2 ^ 64).toNat := by
  cases v <;> rfl

/-- An index is a 64-bit integer, signed or not. -/
theorem position_bounds (v : HalValue P) : -2 ^ 63 ≤ v.position ∧ v.position < 2 ^ 64 := by
  cases v with
  | s8 n =>
      have hlo := n.le_toInt
      have hhi := n.toInt_lt
      simp only [position]
      omega
  | s16 n =>
      have hlo := n.le_toInt
      have hhi := n.toInt_lt
      simp only [position]
      omega
  | s32 n =>
      have hlo := n.le_toInt
      have hhi := n.toInt_lt
      simp only [position]
      omega
  | s64 n =>
      have hlo := n.le_toInt
      have hhi := n.toInt_lt
      simp only [position]
      omega
  | u8 n =>
      have hhi := n.toNat_lt
      simp only [position]
      omega
  | u16 n =>
      have hhi := n.toNat_lt
      simp only [position]
      omega
  | u32 n =>
      have hhi := n.toNat_lt
      simp only [position]
      omega
  | u64 n =>
      have hhi := n.toNat_lt
      simp only [position]
      omega
  | _ => simp only [position]; omega

/-- The element that an index reaches when its offset is computed in `usize`, which may overflow.
There is no slice up to the end of an element that wraps to zero. -/
def slot (P : Platform) (size n : ℕ) : Except Panic ℕ :=
  if (n + 1) * size < 2 ^ 64 then .ok n
  else if P.overflowChecks then .error .overflow
  else
    let k := n % (2 ^ 64 / size)
    if (k + 1) * size < 2 ^ 64 then .ok k else .error .sliceIndex

/-- The array has the element. -/
def Has (data : List UInt8) (size k : ℕ) : Prop := (k + 1) * size ≤ data.length

instance (data : List UInt8) (size k : ℕ) : Decidable (Has data size k) :=
  inferInstanceAs (Decidable ((k + 1) * size ≤ data.length))

/-- The bytes of an element. -/
def slice (data : List UInt8) (size k : ℕ) : List UInt8 :=
  data.extract (k * size) ((k + 1) * size)

/-- The bytes with those of an element replaced. -/
def replaced (data : List UInt8) (size k : ℕ) (bytes : List UInt8) : List UInt8 :=
  data.take (k * size) ++ bytes ++ data.drop ((k + 1) * size)

/-- The element of an array; zero when it has no such element. -/
def element (P : Platform) (t : HalPinType) (data : List UInt8) (k : ℕ) : HalValue P :=
  if Has data (byteSize t) k then fromBytes t (slice data (byteSize t) k) else zero t

/-- The sizes of elements divide the range of `usize`. -/
theorem byteSize_dvd (t : HalPinType) : 0 < byteSize t ∧
    byteSize t * (2 ^ 64 / byteSize t) = 2 ^ 64 := by
  cases t <;> decide

/-- A `usize` operation in a build without overflow checks. -/
theorem usize_of_unchecked (h : P.overflowChecks = false) (m : ℕ) :
    usize P m = .ok (m % 2 ^ 64) := by
  rw [usize, unsigned]
  split
  · rename_i hlt
    rw [Nat.mod_eq_of_lt hlt]
  · rw [h, if_neg Bool.false_ne_true]

/-- The offset and the end of an element, as the code computes them. -/
theorem span_eq {α : Type} (t : HalPinType) (n : ℕ) (f : ℕ → ℕ → Except Panic α) :
    (do
      let offset ← usize P (n * byteSize t)
      let stop ← usize P (offset + byteSize t)
      f offset stop) =
    if (n + 1) * byteSize t < 2 ^ 64 then f (n * byteSize t) ((n + 1) * byteSize t)
    else if P.overflowChecks then .error .overflow
    else
      let k := n % (2 ^ 64 / byteSize t)
      f (k * byteSize t) ((k + 1) * byteSize t % 2 ^ 64) := by
  obtain ⟨hpos, hdvd⟩ := byteSize_dvd t
  generalize byteSize t = size at hpos hdvd
  have hsucc : (n + 1) * size = n * size + size := Nat.succ_mul n size
  by_cases hfits : (n + 1) * size < 2 ^ 64
  · have hoffset : n * size < 2 ^ 64 := by omega
    rw [if_pos hfits, usize, unsigned, if_pos hoffset, ok_bind, usize, unsigned, ← hsucc,
      if_pos hfits, ok_bind]
  · rw [if_neg hfits]
    cases hchecks : P.overflowChecks with
    | true =>
        rw [if_pos rfl]
        by_cases hoffset : n * size < 2 ^ 64
        · rw [usize, unsigned, if_pos hoffset, ok_bind, usize, unsigned, ← hsucc, if_neg hfits,
            hchecks, if_pos rfl]
          rfl
        · rw [usize, unsigned, if_neg hoffset, hchecks, if_pos rfl]
          rfl
    | false =>
        have hmod : n * size % 2 ^ 64 = n % (2 ^ 64 / size) * size := by
          conv_lhs => rw [← hdvd, Nat.mul_comm size]
          exact Nat.mul_mod_mul_right size n _
        rw [if_neg Bool.false_ne_true, usize_of_unchecked hchecks, ok_bind,
          usize_of_unchecked hchecks, ok_bind, hmod, ← Nat.succ_mul]

/-- What is done with an element, from its offset and its end, is done with the element that the
index reaches. -/
theorem span_slot {α : Type} (t : HalPinType) (n : ℕ) {f : ℕ → ℕ → Except Panic α}
    {g : ℕ → Except Panic α}
    (hf : ∀ k, (k + 1) * byteSize t < 2 ^ 64 → f (k * byteSize t) ((k + 1) * byteSize t) = g k)
    (hend : ∀ offset, 0 < offset → f offset 0 = .error .sliceIndex) :
    (do
      let offset ← usize P (n * byteSize t)
      let stop ← usize P (offset + byteSize t)
      f offset stop) = slot P (byteSize t) n >>= g := by
  rw [span_eq, slot]
  obtain ⟨hpos, hdvd⟩ := byteSize_dvd t
  by_cases hfits : (n + 1) * byteSize t < 2 ^ 64
  · rw [if_pos hfits, if_pos hfits, hf n hfits]
    rfl
  · rw [if_neg hfits, if_neg hfits]
    cases P.overflowChecks with
    | true => rfl
    | false =>
        rw [if_neg Bool.false_ne_true, if_neg Bool.false_ne_true]
        dsimp only
        have hk : n % (2 ^ 64 / byteSize t) < 2 ^ 64 / byteSize t :=
          Nat.mod_lt n (by cases t <;> decide)
        generalize n % (2 ^ 64 / byteSize t) = k at hk
        by_cases hlast : (k + 1) * byteSize t < 2 ^ 64
        · rw [if_pos hlast, Nat.mod_eq_of_lt hlast, hf k hlast]
          rfl
        · -- the last element of the range, whose end is its number of bytes
          have hle : (k + 1) * byteSize t ≤ 2 ^ 64 := by
            rw [← hdvd, Nat.mul_comm (byteSize t)]
            exact Nat.mul_le_mul_right _ hk
          have heq : (k + 1) * byteSize t = 2 ^ 64 := by omega
          have hsmall : byteSize t ≤ 8 := by cases t <;> decide
          rw [Nat.succ_mul] at heq
          rw [if_neg hlast, Nat.succ_mul, heq, Nat.mod_self, hend _ (by omega)]
          rfl

/-- A load gives the element that its index reaches. -/
theorem HalValue.index_eq (t : HalPinType) (data : List UInt8) (n : ℕ) :
    (array t data : HalValue P).index n = element P t data <$> slot P (byteSize t) n := by
  have hspan := span_slot (P := P) t n
    (f := fun offset stop =>
      if data.length < stop then pure (zero t : HalValue P)
      else if stop < offset then .error .sliceIndex
      else pure (fromBytes t (data.extract offset stop)))
    (g := fun k => pure (element P t data k)) ?_ ?_
  · rw [bind_pure_comp] at hspan
    exact hspan
  · intro k _
    have hle : ¬(k + 1) * byteSize t < k * byteSize t :=
      Nat.not_lt.mpr (Nat.mul_le_mul_right _ (Nat.le_succ k))
    rw [element]
    by_cases hhas : Has data (byteSize t) k
    · rw [if_neg (Nat.not_lt.mpr hhas), if_neg hle, if_pos hhas, slice]
    · rw [if_pos (Nat.lt_of_not_le hhas), if_neg hhas]
  · intro offset hoffset
    rw [if_neg (Nat.not_lt_zero _), if_pos hoffset]

/-- A store replaces the element that its index reaches. -/
theorem HalValue.setIndex_eq (t : HalPinType) (data : List UInt8) (n : ℕ) (value : HalValue P) :
    (array t data : HalValue P).setIndex n value = (do
      let k ← slot P (byteSize t) n
      if Has data (byteSize t) k then
        if value.toBytes.length < byteSize t then .error .sliceIndex
        else
          pure (array t (replaced data (byteSize t) k (value.toBytes.take (byteSize t))))
      else pure (array t data)) := by
  refine span_slot t n (fun k _ => ?_) fun offset hoffset => ?_
  · have hle : ¬(k + 1) * byteSize t < k * byteSize t :=
      Nat.not_lt.mpr (Nat.mul_le_mul_right _ (Nat.le_succ k))
    by_cases hhas : Has data (byteSize t) k
    · simp only [if_neg (Nat.not_lt.mpr hhas), if_pos hhas, hle, false_or]
      rfl
    · rw [if_pos (Nat.lt_of_not_le hhas), if_neg hhas]
  · rw [if_neg (Nat.not_lt_zero _), if_pos (Or.inl hoffset)]

/-! ### The bytes of an element -/

section Bytes

variable {data bytes : List UInt8} {size k : ℕ}

theorem length_slice (h : Has data size k) : (slice data size k).length = size := by
  rw [Has, Nat.succ_mul] at h
  rw [slice, List.extract_eq_take_drop, List.length_take, List.length_drop, Nat.succ_mul]
  omega

theorem length_replaced (h : Has data size k) (hbytes : bytes.length = size) :
    (replaced data size k bytes).length = data.length := by
  rw [Has, Nat.succ_mul] at h
  rw [replaced, List.length_append, List.length_append, List.length_take, List.length_drop,
    hbytes, Nat.succ_mul]
  omega

/-- The array has the same elements after a store. -/
theorem has_replaced_iff (h : Has data size k) (hbytes : bytes.length = size) (j : ℕ) :
    Has (replaced data size k bytes) size j ↔ Has data size j := by
  rw [Has, Has, length_replaced h hbytes]

/-- The bytes outside the element that is replaced. -/
theorem getElem?_replaced (h : Has data size k) (hbytes : bytes.length = size) {i : ℕ}
    (hi : i < k * size ∨ (k + 1) * size ≤ i) : (replaced data size k bytes)[i]? = data[i]? := by
  have hhas := h
  rw [Has, Nat.succ_mul] at hhas
  have htake : (data.take (k * size)).length = k * size := by
    rw [List.length_take]
    omega
  rw [replaced, List.append_assoc]
  rcases hi with hi | hi
  · rw [List.getElem?_append_left (by omega), List.getElem?_take_of_lt hi]
  · rw [Nat.succ_mul] at hi ⊢
    rw [List.getElem?_append_right (by omega), List.getElem?_append_right (by omega),
      List.getElem?_drop]
    congr 1
    omega

/-- The bytes of the element that is replaced. -/
theorem slice_replaced_self (h : Has data size k) (hbytes : bytes.length = size) :
    slice (replaced data size k bytes) size k = bytes := by
  rw [Has, Nat.succ_mul] at h
  have htake : (data.take (k * size)).length = k * size := by
    rw [List.length_take]
    omega
  rw [slice, replaced, List.extract_eq_take_drop, List.append_assoc,
    List.drop_left' htake, List.take_left' (by rw [Nat.succ_mul]; omega)]

/-- The bytes of another element. -/
theorem slice_replaced_of_ne (h : Has data size k) (hbytes : bytes.length = size) {j : ℕ}
    (hj : j ≠ k) : slice (replaced data size k bytes) size j = slice data size j := by
  rw [slice, slice, List.extract_eq_take_drop, List.extract_eq_take_drop]
  refine List.ext_getElem? fun i => ?_
  rw [List.getElem?_take, List.getElem?_take]
  split
  · rename_i hi
    rw [List.getElem?_drop, List.getElem?_drop]
    refine getElem?_replaced h hbytes ?_
    rw [Nat.succ_mul] at hi
    rcases Nat.lt_or_gt_of_ne hj with hlt | hgt
    · have hle : (j + 1) * size ≤ k * size := Nat.mul_le_mul_right size hlt
      rw [Nat.succ_mul] at hle
      exact Or.inl (by omega)
    · have hle : (k + 1) * size ≤ j * size := Nat.mul_le_mul_right size hgt
      exact Or.inr (by omega)
  · rfl

/-- An element that is replaced by itself. -/
theorem replaced_eq_self_iff (h : Has data size k) (hbytes : bytes.length = size) :
    replaced data size k bytes = data ↔ bytes = slice data size k := by
  constructor
  · intro heq
    rw [← slice_replaced_self h hbytes, heq]
  · rintro rfl
    rw [replaced, slice, List.extract_eq_take_drop, Nat.succ_mul, Nat.add_sub_cancel_left,
      List.append_assoc, ← List.drop_drop, List.take_append_drop, List.take_append_drop]

end Bytes

/-! ### The bytes of a value -/

/-- The value is a scalar of the type, and no array of it. -/
def HalValue.OfType (v : HalValue P) (t : HalPinType) : Prop :=
  v.pinType = t ∧ ∀ t' data, v ≠ array t' data

/-- A scalar has the bytes of its type, which give it back. -/
theorem fromBytes_toBytes (hbits : P.BitsExact) {v : HalValue P} {t : HalPinType}
    (hv : v.OfType t) (hblob : t ≠ .blob) (hstring : t ≠ .string) :
    v.toBytes.length = byteSize t ∧ fromBytes t v.toBytes = v := by
  obtain ⟨rfl, harray⟩ := hv
  cases v with
  | array t' data => exact absurd rfl (harray t' data)
  | blob b => exact absurd rfl hblob
  | string s => exact absurd rfl hstring
  | bool b => cases b <;> exact ⟨rfl, rfl⟩
  | s8 n => exact ⟨rfl, congrArg s8 (ofNat_intBytes_int8 n)⟩
  | s16 n => exact ⟨rfl, congrArg s16 (ofNat_intBytes_int16 n)⟩
  | s32 n => exact ⟨rfl, congrArg s32 (ofNat_intBytes_int32 n)⟩
  | s64 n => exact ⟨rfl, congrArg s64 (ofNat_intBytes_int64 n)⟩
  | u8 n =>
      refine ⟨rfl, congrArg u8 (?_ : UInt8.ofNat (ofLeBytes (leBytes 1 n.toNat)) = n)⟩
      rw [ofLeBytes_leBytes_of_lt n.toNat_lt, UInt8.ofNat_toNat]
  | u16 n =>
      refine ⟨rfl, congrArg u16 (?_ : UInt16.ofNat (ofLeBytes (leBytes 2 n.toNat)) = n)⟩
      rw [ofLeBytes_leBytes_of_lt n.toNat_lt, UInt16.ofNat_toNat]
  | u32 n =>
      refine ⟨rfl, congrArg u32 (?_ : UInt32.ofNat (ofLeBytes (leBytes 4 n.toNat)) = n)⟩
      rw [ofLeBytes_leBytes_of_lt n.toNat_lt, UInt32.ofNat_toNat]
  | u64 n =>
      refine ⟨rfl, congrArg u64 (?_ : UInt64.ofNat (ofLeBytes (leBytes 8 n.toNat)) = n)⟩
      rw [ofLeBytes_leBytes_of_lt n.toNat_lt, UInt64.ofNat_toNat]
  | f32 x =>
      refine ⟨rfl, ?_⟩
      change f32 (P.ofBits32 (UInt32.ofNat (ofLeBytes (leBytes 4 (P.toBits32 x).toNat)))) = f32 x
      rw [ofLeBytes_leBytes_of_lt (P.toBits32 x).toNat_lt, UInt32.ofNat_toNat, hbits.f32]
  | f64 x =>
      refine ⟨rfl, ?_⟩
      change f64 (P.ofBits64 (UInt64.ofNat (ofLeBytes (leBytes 8 (P.toBits64 x).toNat)))) = f64 x
      rw [ofLeBytes_leBytes_of_lt (P.toBits64 x).toNat_lt, UInt64.ofNat_toNat, hbits.f64]

/-- A blob or a string is no element of an array. -/
theorem fromBytes_ne {v : HalValue P} {t : HalPinType} (hv : v.OfType t)
    (ht : t = .blob ∨ t = .string) (bytes : List UInt8) : fromBytes t bytes ≠ v := by
  rintro rfl
  rcases ht with rfl | rfl <;> cases hv.1

/-! ### The laws -/

/-- The index is one of the array. -/
def InRange (t : HalPinType) (data : List UInt8) (i : ℤ) : Prop :=
  0 ≤ i ∧ (i + 1) * byteSize t ≤ data.length

/-- What `LoadIndex` gives for the contents of its two registers. -/
def HalValue.loaded (a i : HalValue P) : Except Panic (HalValue P) := a.index (Vm.valueAsUsize i)

/-- What `StoreIndex` gives for the contents of its three registers. -/
def HalValue.stored (a i v : HalValue P) : Except Panic (HalValue P) :=
  a.setIndex (Vm.valueAsUsize i) v

/-- `LoadIndex` on three registers. -/
theorem executeInstruction_loadIndex (vm : Vm P) (dest a i : Fin registerCount) :
    vm.executeInstruction (.loadIndex dest a i) =
      (fun v => (vm.setReg dest v, ExecutorResult.cont)) <$> (vm.reg a).loaded (vm.reg i) := by
  change Vm.continues (vm.execLoadIndex [.register dest, .register a, .register i]) = _
  rw [Vm.execLoadIndex, Vm.readRegister_of_lt a.isLt, ok_bind, Vm.readRegister_of_lt i.isLt,
    ok_bind, ← HalValue.loaded]
  cases (vm.reg a).loaded (vm.reg i) with
  | ok v => rw [ok_bind, Vm.writeRegister_of_lt dest.isLt]; rfl
  | error e => rfl

/-- `StoreIndex` on three registers. -/
theorem executeInstruction_storeIndex (vm : Vm P) (a i v : Fin registerCount) :
    vm.executeInstruction (.storeIndex a i v) =
      (fun updated => (vm.setReg a updated, ExecutorResult.cont)) <$>
        (vm.reg a).stored (vm.reg i) (vm.reg v) := by
  change Vm.continues (vm.execStoreIndex [.register a, .register i, .register v]) = _
  rw [Vm.execStoreIndex, Vm.readRegister_of_lt a.isLt, ok_bind, Vm.readRegister_of_lt i.isLt,
    ok_bind, Vm.readRegister_of_lt v.isLt, ok_bind, ← HalValue.stored]
  cases (vm.reg a).stored (vm.reg i) (vm.reg v) with
  | ok updated => rw [ok_bind, Vm.writeRegister_of_lt a.isLt]; rfl
  | error e => rfl

/-- Loads and stores do not panic and behave as those of an array, on the machine whose register
`a` has the array: outside of the array a load gives the default and a store changes nothing;
after the store of a value of the type inside, a load at the index gives the value, a load at
another one gives what it gave before, and the array is as long as before. -/
structure ArrayLaws (vm : Vm P) (dest a i v : Fin registerCount) (t : HalPinType)
    (data : List UInt8) (other : HalValue P) : Prop where
  load : ∃ x, vm.executeInstruction (.loadIndex dest a i) = .ok (vm.setReg dest x, .cont) ∧
    (¬InRange t data (vm.reg i).position → x = zero t)
  store : ∃ data', vm.executeInstruction (.storeIndex a i v) =
      .ok (vm.setReg a (.array t data'), .cont) ∧
    (¬InRange t data (vm.reg i).position → data' = data) ∧
    (InRange t data (vm.reg i).position → (vm.reg v).OfType t →
      (array t data').loaded (vm.reg i) = .ok (vm.reg v) ∧
      (other.position ≠ (vm.reg i).position →
        (array t data').loaded other = (array t data).loaded other) ∧
      data'.length = data.length)

/-- The condition. Inside of the array the value has enough bytes; one of the type is neither a
blob nor a string, and no other index reaches the element, unless the element has the value
already. Outside of it the index reaches an element, which the array does not have, or which is
zero and keeps its bytes. -/
def LawsHold (t : HalPinType) (data : List UInt8) (i v other : HalValue P) : Prop :=
  (InRange t data i.position →
    byteSize t ≤ v.toBytes.length ∧
      (v.OfType t → t ≠ .blob ∧ t ≠ .string ∧
        (other.position ≠ i.position →
          slot P (byteSize t) (Vm.valueAsUsize other) = .ok i.position.toNat →
          element P t data i.position.toNat = v))) ∧
  (¬InRange t data i.position →
    ∃ k, slot P (byteSize t) (Vm.valueAsUsize i) = .ok k ∧
      (Has data (byteSize t) k →
        element P t data k = zero t ∧ v.toBytes.take (byteSize t) = slice data (byteSize t) k))

/-! ### The condition is exact -/

section Laws

variable {vm : Vm P} {dest a i v : Fin registerCount} {t : HalPinType} {data : List UInt8}
  {other : HalValue P} {k : ℕ} {x value : HalValue P}

/-- The result of an instruction that writes a register. -/
theorem written_eq_ok_iff {r : Fin registerCount} {c : Except Panic (HalValue P)} :
    (fun v => (vm.setReg r v, ExecutorResult.cont)) <$> c = .ok (vm.setReg r x, .cont) ↔
      c = .ok x := by
  cases c with
  | ok y =>
      constructor
      · intro h
        rw [setReg_inj (Prod.mk.inj (Except.ok.inj h)).1]
      · rintro h
        obtain rfl := Except.ok.inj h
        rfl
  | error e => exact iff_of_false (fun h => nomatch h) fun h => nomatch h

/-- The cast of an index of the array is the index. -/
theorem valueAsUsize_of_inRange (hlen : data.length < 2 ^ 63) (h : InRange t data x.position) :
    Vm.valueAsUsize x = x.position.toNat ∧ Has data (byteSize t) x.position.toNat ∧
      slot P (byteSize t) x.position.toNat = .ok x.position.toNat := by
  obtain ⟨hlo, hle⟩ := h
  have hhi := (position_bounds x).2
  have hnat : ((x.position.toNat : ℕ) : ℤ) = x.position := Int.toNat_of_nonneg hlo
  have hhas : (x.position.toNat + 1) * byteSize t ≤ data.length := by
    rw [← hnat] at hle
    exact_mod_cast hle
  refine ⟨?_, hhas, if_pos (by omega)⟩
  rw [valueAsUsize_eq, Int.emod_eq_of_lt hlo hhi]

/-- A load inside of the array. -/
theorem loaded_eq (x : HalValue P) :
    (array t data).loaded x = element P t data <$> slot P (byteSize t) (Vm.valueAsUsize x) :=
  index_eq t data _

/-- A store to an element that the array has. -/
theorem stored_of_has (hslot : slot P (byteSize t) (Vm.valueAsUsize x) = .ok k)
    (hhas : Has data (byteSize t) k) :
    (array t data).stored x value =
      if value.toBytes.length < byteSize t then .error .sliceIndex
      else .ok (array t (replaced data (byteSize t) k (value.toBytes.take (byteSize t)))) := by
  rw [HalValue.stored, setIndex_eq, hslot, ok_bind, if_pos hhas]
  rfl

/-- The elements after a store. -/
theorem element_replaced (hhas : Has data (byteSize t) k) {bytes : List UInt8}
    (hbytes : bytes.length = byteSize t) (j : ℕ) :
    element P t (replaced data (byteSize t) k bytes) j =
      if j = k then fromBytes t bytes else element P t data j := by
  rw [element, element]
  simp only [has_replaced_iff hhas hbytes]
  by_cases hj : j = k
  · rw [if_pos hj, hj, if_pos hhas, slice_replaced_self hhas hbytes]
  · rw [if_neg hj, slice_replaced_of_ne hhas hbytes hj]

/-- The laws of the store of a value of the type inside of the array. -/
theorem stored_laws_iff (hbits : P.BitsExact) (hvalue : value.OfType t)
    (hlong : byteSize t ≤ value.toBytes.length)
    (hslot : slot P (byteSize t) (Vm.valueAsUsize x) = .ok k) (hhas : Has data (byteSize t) k)
    {different : Prop} :
    ((array t (replaced data (byteSize t) k (value.toBytes.take (byteSize t)))).loaded x =
          .ok value ∧
        (different →
          (array t (replaced data (byteSize t) k (value.toBytes.take (byteSize t)))).loaded other =
            (array t data).loaded other) ∧
        (replaced data (byteSize t) k (value.toBytes.take (byteSize t))).length = data.length) ↔
      t ≠ .blob ∧ t ≠ .string ∧
        (different → slot P (byteSize t) (Vm.valueAsUsize other) = .ok k →
          element P t data k = value) := by
  have hbytes : (value.toBytes.take (byteSize t)).length = byteSize t :=
    List.length_take_of_le hlong
  have hload : ∀ y j, slot P (byteSize t) (Vm.valueAsUsize y) = .ok j →
      (array t (replaced data (byteSize t) k (value.toBytes.take (byteSize t)))).loaded y =
        .ok (if j = k then fromBytes t (value.toBytes.take (byteSize t))
          else element P t data j) := by
    intro y j hy
    rw [loaded_eq, hy, ← element_replaced hhas hbytes]
    rfl
  rw [hload x k hslot, if_pos rfl, length_replaced hhas hbytes]
  by_cases ht : t = .blob ∨ t = .string
  · refine iff_of_false (fun h => ?_) fun h => ht.elim h.1 h.2.1
    exact fromBytes_ne hvalue ht _ (Except.ok.inj h.1)
  · rw [not_or] at ht
    obtain ⟨hlength, hfrom⟩ := fromBytes_toBytes hbits hvalue ht.1 ht.2
    rw [List.take_of_length_le hlength.le] at hload ⊢
    rw [hfrom]
    have hother : (array t (replaced data (byteSize t) k value.toBytes)).loaded other =
        (array t data).loaded other ↔
        (slot P (byteSize t) (Vm.valueAsUsize other) = .ok k → element P t data k = value) := by
      cases hreach : slot P (byteSize t) (Vm.valueAsUsize other) with
      | error e =>
          refine iff_of_true ?_ nofun
          rw [loaded_eq, loaded_eq, hreach]
          rfl
      | ok j =>
          rw [hload other j hreach, loaded_eq, hreach, hfrom]
          by_cases hj : j = k
          · rw [if_pos hj, hj]
            exact ⟨fun h _ => (Except.ok.inj h).symm, fun h => congrArg _ (h rfl).symm⟩
          · rw [if_neg hj]
            exact iff_of_true rfl fun h => absurd (Except.ok.inj h) hj
    rw [hother]
    exact ⟨fun h => ⟨ht.1, ht.2, h.2.1⟩, fun h => ⟨rfl, h.2.2, rfl⟩⟩

/-- The laws on the machine are those of the two functions on values. -/
theorem arrayLaws_iff_loaded_stored (harray : vm.reg a = .array t data) :
    ArrayLaws vm dest a i v t data other ↔
      (∃ x, (array t data).loaded (vm.reg i) = .ok x ∧
        (¬InRange t data (vm.reg i).position → x = zero t)) ∧
      ∃ data', (array t data).stored (vm.reg i) (vm.reg v) = .ok (array t data') ∧
        (¬InRange t data (vm.reg i).position → data' = data) ∧
        (InRange t data (vm.reg i).position → (vm.reg v).OfType t →
          (array t data').loaded (vm.reg i) = .ok (vm.reg v) ∧
          (other.position ≠ (vm.reg i).position →
            (array t data').loaded other = (array t data).loaded other) ∧
          data'.length = data.length) := by
  constructor
  · rintro ⟨hload, hstore⟩
    simp only [executeInstruction_loadIndex, executeInstruction_storeIndex, written_eq_ok_iff,
      harray] at hload hstore
    exact ⟨hload, hstore⟩
  · rintro ⟨hload, hstore⟩
    refine ⟨?_, ?_⟩
    · simp only [executeInstruction_loadIndex, written_eq_ok_iff, harray]
      exact hload
    · simp only [executeInstruction_storeIndex, written_eq_ok_iff, harray]
      exact hstore

/-- A store leaves the array as it is if and only if it reaches an element that the array does
not have, or writes the bytes that are there. -/
theorem stored_eq_self_iff (hslot : slot P (byteSize t) (Vm.valueAsUsize x) = .ok k) :
    (∃ data', (array t data).stored x value = .ok (array t data') ∧ data' = data) ↔
      (Has data (byteSize t) k →
        value.toBytes.take (byteSize t) = slice data (byteSize t) k) := by
  by_cases hhas : Has data (byteSize t) k
  · rw [stored_of_has hslot hhas]
    simp only [hhas, true_implies]
    by_cases hshort : value.toBytes.length < byteSize t
    · rw [if_pos hshort]
      refine iff_of_false (fun ⟨_, h, _⟩ => nomatch h) fun h => ?_
      have hlength := congrArg List.length h
      rw [length_slice hhas, List.length_take] at hlength
      omega
    · rw [if_neg hshort]
      have hbytes : (value.toBytes.take (byteSize t)).length = byteSize t :=
        List.length_take_of_le (Nat.not_lt.mp hshort)
      rw [← replaced_eq_self_iff hhas hbytes]
      constructor
      · rintro ⟨data', hdata', rfl⟩
        exact (HalValue.array.inj (Except.ok.inj hdata')).2
      · intro h
        exact ⟨data, by rw [h], rfl⟩
  · have hstored : (array t data).stored x value = .ok (array t data) := by
      rw [HalValue.stored, setIndex_eq, hslot, ok_bind, if_neg hhas]
      rfl
    rw [hstored]
    exact iff_of_true ⟨data, rfl, rfl⟩ fun h => absurd h hhas

/-- Loads and stores behave as those of an array if and only if the condition holds. The data of
an array, as of any vector, is less than half of the address space. -/
theorem arrayLaws_iff (hbits : P.BitsExact) (harray : vm.reg a = .array t data)
    (hlen : data.length < 2 ^ 63) :
    ArrayLaws vm dest a i v t data other ↔ LawsHold t data (vm.reg i) (vm.reg v) other := by
  rw [arrayLaws_iff_loaded_stored harray]
  generalize vm.reg i = x
  generalize vm.reg v = value
  rw [LawsHold, loaded_eq]
  by_cases hin : InRange t data x.position
  · obtain ⟨hcast, hhas, hreach⟩ := valueAsUsize_of_inRange hlen hin
    have hslot : slot P (byteSize t) (Vm.valueAsUsize x) = .ok x.position.toNat := by
      rw [hcast, hreach]
    generalize x.position.toNat = k at hslot hhas
    have hload : ∃ y, element P t data <$> (Except.ok k : Except Panic ℕ) = .ok y := ⟨_, rfl⟩
    simp only [hin, not_true_eq_false, false_implies, true_implies, and_true, true_and, hslot,
      stored_of_has hslot hhas, and_iff_right hload]
    by_cases hshort : value.toBytes.length < byteSize t
    · rw [if_pos hshort]
      exact iff_of_false (fun ⟨_, h, _⟩ => nomatch h) fun h => Nat.not_le.mpr hshort h.1
    · rw [if_neg hshort]
      have hlong := Nat.not_lt.mp hshort
      rw [and_iff_right hlong]
      constructor
      · rintro ⟨data', hdata', hstored⟩ hvalue
        cases hdata'
        exact (stored_laws_iff hbits hvalue hlong hslot hhas).mp (hstored hvalue)
      · intro h
        exact ⟨_, rfl, fun hvalue =>
          (stored_laws_iff hbits hvalue hlong hslot hhas).mpr (h hvalue)⟩
  · simp only [hin, not_false_eq_true, false_implies, true_implies, and_true, true_and]
    cases hslot : slot P (byteSize t) (Vm.valueAsUsize x) with
    | error e => exact iff_of_false (fun ⟨⟨_, h, _⟩, _⟩ => nomatch h) fun ⟨_, h, _⟩ => nomatch h
    | ok k =>
        have hload : (∃ y, element P t data <$> (Except.ok k : Except Panic ℕ) = .ok y ∧
            y = zero t) ↔ element P t data k = zero t :=
          ⟨fun ⟨_, hy, hzero⟩ => (Except.ok.inj hy).trans hzero, fun h => ⟨_, rfl, h⟩⟩
        have hreach : ∀ {q : ℕ → Prop}, (∃ j, (Except.ok k : Except Panic ℕ) = .ok j ∧ q j) ↔ q k :=
          ⟨fun ⟨_, hj, hq⟩ => Except.ok.inj hj ▸ hq, fun hq => ⟨k, rfl, hq⟩⟩
        have hzero : ¬Has data (byteSize t) k → element P t data k = zero t :=
          fun hhas => if_neg hhas
        rw [hload, hreach, stored_eq_self_iff hslot]
        constructor
        · rintro ⟨helement, hbytes⟩ hhas
          exact ⟨helement, hbytes hhas⟩
        · intro h
          refine ⟨?_, fun hhas => (h hhas).2⟩
          by_cases hhas : Has data (byteSize t) k
          · exact (h hhas).1
          · exact hzero hhas

end Laws

/-- A machine with an array, an index and a value in its first registers. -/
def arrayVm (a i v : HalValue RuntimeClient.wholePlatform) : Vm RuntimeClient.wholePlatform :=
  ((Vm.new.setReg 0 a).setReg 1 i).setReg 2 v

/-- The laws at the second element of an array of three 16-bit numbers. -/
theorem arrayLaws_iff_second :
    ArrayLaws (arrayVm (.array .s16 [1, 0, 2, 0, 3, 0]) (.s32 1) (.s16 7)) ⟨3, by decide⟩
      ⟨0, by decide⟩ ⟨1, by decide⟩ ⟨2, by decide⟩ .s16 [1, 0, 2, 0, 3, 0] (.s32 2) := by
  refine (arrayLaws_iff RuntimeClient.wholePlatform_bitsExact rfl (by decide)).mpr ⟨?_, ?_⟩
  · intro _
    refine ⟨by decide, fun _ => ⟨nofun, nofun, fun _ h => ?_⟩⟩
    exact absurd (Except.ok.inj h) (by decide)
  · intro h
    exact absurd ⟨by decide, by decide⟩ h

/-- A negative index into an array of 16-bit numbers stops the machine. -/
theorem negative_index_panics :
    ¬ ∀ (P : Platform) (vm : Vm P) (dest a i v : Fin registerCount) (t : HalPinType)
      (data : List UInt8) (other : HalValue P), vm.reg a = .array t data →
      data.length < 2 ^ 63 → ArrayLaws vm dest a i v t data other := by
  intro h
  obtain ⟨⟨x, hx, -⟩, -⟩ := h _
    (arrayVm (.array .s16 [1, 0, 2, 0, 3, 0]) (.s32 (-1)) (.s16 7)) ⟨3, by decide⟩
    ⟨0, by decide⟩ ⟨1, by decide⟩ ⟨2, by decide⟩ .s16 [1, 0, 2, 0, 3, 0] (.s32 2) rfl (by decide)
  rw [executeInstruction_loadIndex] at hx
  cases hx

end Weftik
