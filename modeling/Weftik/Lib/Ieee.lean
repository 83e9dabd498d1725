import Mathlib

/-!
# Binary Floating-Point Formats

The number that a pattern of bits denotes: a sign, `w` bits of the exponent and `k` bits of
the fraction. A pattern of 64 bits that is read as an integer as well denotes the same number
only if it is zero.

## Main definitions

* `Ieee.Value`: the values of a format.
* `Ieee.ofBits`: the value of a pattern.

## Main results

* `Ieee.double_eq_iff`: the unsigned integers whose pattern denotes them.
* `Ieee.double_eq_signed_iff`: the signed ones.
-/

namespace Ieee

/-- The values of a binary format. The two zeros are one number. -/
inductive Value
  | finite (q : ℚ)
  | infinite (negative : Bool)
  | nan
  deriving DecidableEq

/-- The magnitude of a finite pattern, without the common denominator: the fraction, with a
leading one unless the exponent is zero. -/
def scaled (k e m : ℕ) : ℕ :=
  if e = 0 then m * 2 else (2 ^ k + m) * 2 ^ e

/-- The value of a pattern with `k` bits of the fraction and `w` bits of the exponent. -/
def ofBits (k w n : ℕ) : Value :=
  let s := n / 2 ^ (k + w) % 2
  let e := n / 2 ^ k % 2 ^ w
  let m := n % 2 ^ k
  if e = 2 ^ w - 1 then if m = 0 then .infinite (s == 1) else .nan
  else
    .finite ((if s = 1 then -1 else 1) * scaled k e m / 2 ^ (2 ^ (w - 1) - 1 + k))

/-- Single precision. -/
def single (n : ℕ) : Value := ofBits 23 8 n

/-- Double precision. -/
def double (n : ℕ) : Value := ofBits 52 11 n

/-! ### Double precision -/

/-- A large power of two outgrows the exponent. -/
theorem lt_two_pow_of_le {d : ℕ} (h : 11 ≤ d) : d + 1077 ≤ 2 ^ d := by
  obtain ⟨c, rfl⟩ := Nat.exists_eq_add_of_le h
  have hc : c < 2 ^ c := Nat.lt_two_pow_self
  rw [pow_add]
  omega

/-- The exponents up to which a double is no larger than its leading bits. -/
theorem le_of_scaled {e m n t : ℕ} (he : e ≠ 0) (hle : e ≤ t)
    (h : scaled 52 e m = 2 ^ t * n) : n ≤ 2 ^ 52 + m := by
  rw [scaled, if_neg he] at h
  have hpow : 2 ^ e ≤ 2 ^ t := Nat.pow_le_pow_right (by decide) hle
  have hmul : (2 ^ 52 + m) * 2 ^ e ≤ (2 ^ 52 + m) * 2 ^ t := Nat.mul_le_mul_left _ hpow
  rw [h, Nat.mul_comm (2 ^ 52 + m)] at hmul
  exact Nat.le_of_mul_le_mul_left hmul (Nat.two_pow_pos t)

/-- The doubles that are integers because their exponent is large. -/
theorem eq_of_scaled {d m n t : ℕ} (he : t + d ≠ 0)
    (h : scaled 52 (t + d) m = 2 ^ t * n) : (2 ^ 52 + m) * 2 ^ d = n := by
  rw [scaled, if_neg he, pow_add, ← Nat.mul_assoc, Nat.mul_right_comm,
    Nat.mul_comm _ (2 ^ t)] at h
  exact Nat.eq_of_mul_eq_mul_left (Nat.two_pow_pos _) h

/-- An integer of the size of the exponent has a small exponent. -/
theorem exponent_le {d m n : ℕ} (heq : (2 ^ 52 + m) * 2 ^ (d + 1) = n)
    (hn : n < 2 ^ 52 * (d + 1077)) : d ≤ 9 := by
  by_contra hlt
  have hpow := lt_two_pow_of_le (show 11 ≤ d + 1 by omega)
  have hmul := Nat.mul_le_mul (Nat.le_add_right (2 ^ 52) m) hpow
  rw [heq] at hmul
  omega

/-- A positive pattern, read as an integer, is not what it denotes. -/
theorem scaled_eq {e m t : ℕ} (ht : t = 1075) (hm : m < 2 ^ 52)
    (h : scaled 52 e m = 2 ^ t * (e * 2 ^ 52 + m)) : e = 0 ∧ m = 0 := by
  rcases Nat.lt_or_ge t e with hlt | hle
  · -- `1023 m = 61 * 2 ^ 52` for the only exponent of the right size
    obtain ⟨d, rfl⟩ := Nat.exists_eq_add_of_lt hlt
    rw [Nat.add_assoc] at h
    have heq := eq_of_scaled (by omega) h
    clear h hlt
    have hd := exponent_le heq (by omega)
    interval_cases d <;> omega
  · by_cases he : e = 0
    · subst he
      rw [scaled, if_pos rfl, Nat.zero_mul, Nat.zero_add] at h
      have hlarge : 2 ^ 2 ≤ 2 ^ t := Nat.pow_le_pow_right (by decide) (by omega)
      have hmul := Nat.mul_le_mul_right m hlarge
      rw [← h] at hmul
      clear h hlarge
      omega
    · have hone := le_of_scaled he hle h
      obtain rfl : e = 1 := by omega
      rw [scaled, if_neg he, Nat.one_mul, Nat.mul_comm] at h
      have hpow : 2 ^ 1 = 2 ^ t := Nat.eq_of_mul_eq_mul_right (by omega) h
      have hexp := Nat.pow_right_injective (le_refl 2) hpow
      omega

/-- A negative pattern is not its two's complement. -/
theorem scaled_ne {e m t : ℕ} (ht : t = 1075) (hm : m < 2 ^ 52) (he : e < 2047) :
    scaled 52 e m ≠ 2 ^ t * (2 ^ 63 - (e * 2 ^ 52 + m)) := by
  intro h
  rcases Nat.lt_or_ge t e with hlt | hle
  · -- `513 m = 452 * 2 ^ 52` for the only exponent of the right size
    obtain ⟨d, rfl⟩ := Nat.exists_eq_add_of_lt hlt
    rw [Nat.add_assoc] at h
    have heq := eq_of_scaled (by omega) h
    clear h hlt
    have hd := exponent_le heq (by omega)
    interval_cases d <;> omega
  · by_cases hzero : e = 0
    · subst hzero
      have hlarge : 2 ^ 64 ≤ 2 ^ t := Nat.pow_le_pow_right (by decide) (by omega)
      have hpos : 1 ≤ 2 ^ 63 - m := by omega
      rw [scaled, if_pos rfl, Nat.zero_mul, Nat.zero_add] at h
      have hmul := Nat.mul_le_mul hlarge hpos
      rw [← h] at hmul
      clear h hlarge
      omega
    · have hone := le_of_scaled hzero hle h
      omega

/-- The exponent of the common denominator of the doubles. -/
def doubleScale : ℕ := 2 ^ (11 - 1) - 1 + 52

/-- What it means that a pattern of 64 bits denotes an integer. -/
theorem scaled_of_double {s e m : ℕ} {v : ℤ} (hs : s < 2) (he : e < 2 ^ 11) (hm : m < 2 ^ 52)
    (h : double (s * 2 ^ 63 + e * 2 ^ 52 + m) = .finite v) :
    e < 2047 ∧ (if s = 1 then -1 else 1) * (scaled 52 e m : ℤ) = 2 ^ doubleScale * v := by
  have hsign : (s * 2 ^ 63 + e * 2 ^ 52 + m) / 2 ^ (52 + 11) % 2 = s := by omega
  have hexp : (s * 2 ^ 63 + e * 2 ^ 52 + m) / 2 ^ 52 % 2 ^ 11 = e := by omega
  have hfrac : (s * 2 ^ 63 + e * 2 ^ 52 + m) % 2 ^ 52 = m := by omega
  rw [double, ofBits, hsign, hexp, hfrac] at h
  split at h
  · split at h <;> cases h
  · refine ⟨by omega, ?_⟩
    have hq := Value.finite.inj h
    rw [div_eq_iff (by positivity)] at hq
    change _ = (v : ℚ) * 2 ^ doubleScale at hq
    rw [mul_comm (2 ^ doubleScale)]
    exact_mod_cast hq

/-- **An unsigned integer** is the double with its bits only if it is zero. -/
theorem double_eq_iff {n : ℕ} (hn : n < 2 ^ 64) : double n = .finite n ↔ n = 0 := by
  constructor
  · intro h
    obtain ⟨s, e, m, hs, he, hm, rfl⟩ : ∃ s e m, s < 2 ∧ e < 2 ^ 11 ∧ m < 2 ^ 52 ∧
        n = s * 2 ^ 63 + e * 2 ^ 52 + m :=
      ⟨n / 2 ^ 63, n / 2 ^ 52 % 2 ^ 11, n % 2 ^ 52, by omega, by omega, by omega, by omega⟩
    obtain ⟨he, hscaled⟩ :=
      scaled_of_double (v := (s * 2 ^ 63 + e * 2 ^ 52 + m : ℕ)) hs he hm (by exact_mod_cast h)
    by_cases hone : s = 1
    · subst hone
      rw [if_pos rfl] at hscaled
      have hpos : (0 : ℤ) < 2 ^ doubleScale * (1 * 2 ^ 63 + e * 2 ^ 52 + m : ℕ) := by positivity
      omega
    · obtain rfl : s = 0 := by omega
      rw [if_neg hone, one_mul] at hscaled
      have hzero := scaled_eq (t := doubleScale) rfl hm (by
        rw [Nat.zero_mul, Nat.zero_add] at hscaled
        exact_mod_cast hscaled)
      omega
  · rintro rfl
    simp [double, ofBits, scaled]

/-- **A signed integer** is the double with the bits of its two's complement only if it is
zero. -/
theorem double_eq_signed_iff {v : ℤ} (hmin : -2 ^ 63 ≤ v) (hmax : v < 2 ^ 63) :
    double (v % 2 ^ 64).toNat = .finite v ↔ v = 0 := by
  by_cases hneg : v < 0
  · refine iff_of_false (fun h => ?_) (by omega)
    obtain ⟨e, m, he, hm, hbits⟩ : ∃ e m, e < 2 ^ 11 ∧ m < 2 ^ 52 ∧
        (v % 2 ^ 64).toNat = 1 * 2 ^ 63 + e * 2 ^ 52 + m :=
      ⟨(v % 2 ^ 64).toNat / 2 ^ 52 % 2 ^ 11, (v % 2 ^ 64).toNat % 2 ^ 52, by omega, by omega,
        by omega⟩
    rw [hbits] at h
    obtain ⟨he, hscaled⟩ := scaled_of_double (by omega) he hm h
    have hv : v = -((2 ^ 63 - (e * 2 ^ 52 + m) : ℕ) : ℤ) := by omega
    rw [if_pos rfl, hv, neg_one_mul, mul_neg, neg_inj] at hscaled
    exact scaled_ne (t := doubleScale) rfl hm he (by exact_mod_cast hscaled)
  · obtain ⟨n, rfl⟩ := Int.eq_ofNat_of_zero_le (not_lt.mp hneg)
    have hbits : ((n : ℤ) % 2 ^ 64).toNat = n := by omega
    rw [hbits]
    have hiff := double_eq_iff (n := n) (by omega)
    rw [Int.natCast_eq_zero, ← hiff]
    rfl

end Ieee
