import Mathlib.Algebra.Order.Group.Nat
import Mathlib.Order.Bounds.Basic
import Mathlib.Tactic.Common

/-!
# Rounding up to a multiple

`roundUp n a` is the least multiple of `a` that is at least `n`.
-/

namespace RoundUp

/-- The least multiple of `a` from `n` on: what is missing is added to a number that overhangs. -/
def roundUp (n a : ℕ) : ℕ := if n % a = 0 then n else n + a - n % a

variable {a n m k w : ℕ}

lemma dvd_roundUp (n : ℕ) (ha : 0 < a) : a ∣ roundUp n a := by
  unfold roundUp
  split
  · next h => exact Nat.dvd_of_mod_eq_zero h
  · have hlt := Nat.mod_lt n ha
    have hdiv := Nat.div_add_mod n a
    refine ⟨n / a + 1, ?_⟩
    rw [Nat.mul_add, Nat.mul_one]
    omega

lemma le_roundUp (n : ℕ) (ha : 0 < a) : n ≤ roundUp n a := by
  have hlt := Nat.mod_lt n ha
  unfold roundUp
  split <;> omega

/-- No multiple lies between a number and the number rounded up. -/
lemma roundUp_le (ha : 0 < a) (hdvd : a ∣ m) (hle : n ≤ m) : roundUp n a ≤ m := by
  unfold roundUp
  split
  · exact hle
  · next h =>
    obtain ⟨c, rfl⟩ := hdvd
    have hdiv := Nat.div_add_mod n a
    -- the multiple is past the quotient, since it is not smaller than a number that overhangs
    have hlt : n / a < c := by
      by_contra hcon
      have hmul : a * c ≤ a * (n / a) := Nat.mul_le_mul_left a (Nat.le_of_not_lt hcon)
      omega
    have hmul : a * (n / a + 1) ≤ a * c := Nat.mul_le_mul_left a hlt
    rw [Nat.mul_add, Nat.mul_one] at hmul
    omega

lemma roundUp_mono (ha : 0 < a) (h : n ≤ m) : roundUp n a ≤ roundUp m a :=
  roundUp_le ha (dvd_roundUp m ha) (h.trans (le_roundUp m ha))

lemma isLeast_roundUp (n : ℕ) (ha : 0 < a) : IsLeast {m | a ∣ m ∧ n ≤ m} (roundUp n a) :=
  ⟨⟨dvd_roundUp n ha, le_roundUp n ha⟩, fun _ hm => roundUp_le ha hm.1 hm.2⟩

lemma roundUp_add_mod_le (n a : ℕ) : roundUp n a + n % a ≤ n + a := by
  have hle := Nat.mod_le n a
  unfold roundUp
  split <;> omega

/-! ### Powers of two -/

/-- A multiple of a power of two below another power leaves room for an overhang. -/
lemma roundUp_add_mod_lt (h : roundUp n (2 ^ k) < 2 ^ w) :
    roundUp n (2 ^ k) + n % 2 ^ k < 2 ^ w := by
  have hpos : 0 < 2 ^ k := Nat.two_pow_pos k
  obtain ⟨c, hc⟩ := dvd_roundUp n hpos
  rcases le_total k w with hk | hk
  · have hpow : 2 ^ k * 2 ^ (w - k) = 2 ^ w := by rw [← Nat.pow_add, Nat.add_sub_cancel' hk]
    rw [hc] at h ⊢
    have hlt : c < 2 ^ (w - k) := Nat.lt_of_mul_lt_mul_left (hpow ▸ h)
    have hmul : 2 ^ k * (c + 1) ≤ 2 ^ w := hpow ▸ Nat.mul_le_mul_left _ hlt
    have hmod := Nat.mod_lt n hpos
    rw [Nat.mul_add, Nat.mul_one] at hmul
    omega
  · -- the only multiple below the smaller power is zero
    have hpow : 2 ^ w ≤ 2 ^ k := Nat.pow_le_pow_right Nat.two_pos hk
    have hzero : c = 0 := by
      by_contra hc0
      have hmul := Nat.le_mul_of_pos_right (2 ^ k) (Nat.pos_of_ne_zero hc0)
      omega
    have hle := le_roundUp n hpos
    have hn : n = 0 := by simpa [hc, hzero] using hle
    simpa [hn] using h

/-- A mask of the high bits cuts the low ones off. -/
lemma land_two_pow_sub_two_pow {y : ℕ} (hk : k ≤ w) (hy : y < 2 ^ w) :
    y &&& (2 ^ w - 2 ^ k) = y - y % 2 ^ k := by
  have hmask : 2 ^ w - 2 ^ k = (2 ^ (w - k) - 1) <<< k := by
    rw [Nat.shiftLeft_eq, Nat.sub_mul, ← Nat.pow_add, Nat.sub_add_cancel hk, Nat.one_mul]
  have hcut : y - y % 2 ^ k = (y >>> k) <<< k := by
    have hdiv := Nat.div_add_mod y (2 ^ k)
    rw [Nat.shiftLeft_eq, Nat.shiftRight_eq_div_pow, Nat.mul_comm]
    omega
  rw [hmask, hcut]
  refine Nat.eq_of_testBit_eq fun i => ?_
  rw [Nat.testBit_and, Nat.testBit_shiftLeft, Nat.testBit_shiftLeft, Nat.testBit_two_pow_sub_one,
    Nat.testBit_shiftRight]
  by_cases hik : k ≤ i
  · rw [Nat.add_sub_cancel' hik]
    by_cases hiw : i < w
    · simp [hik, show i - k < w - k by omega]
    · -- the number has no bits from `w` on
      have hbit : y.testBit i = false :=
        Nat.testBit_lt_two_pow (hy.trans_le (Nat.pow_le_pow_right (by decide) (by omega)))
      simp [hbit]
  · simp [hik]

/-- Rounding up by a mask. -/
lemma roundUp_two_pow (hk : k ≤ w) (h : n + (2 ^ k - 1) < 2 ^ w) :
    roundUp n (2 ^ k) = (n + (2 ^ k - 1)) &&& (2 ^ w - 2 ^ k) := by
  have hpos : 0 < 2 ^ k := Nat.two_pow_pos k
  have hlt := Nat.mod_lt n hpos
  have hdiv := Nat.div_add_mod n (2 ^ k)
  rw [land_two_pow_sub_two_pow hk h, roundUp]
  split
  · next hzero =>
    have hmod : (n + (2 ^ k - 1)) % 2 ^ k = 2 ^ k - 1 := by
      rw [Nat.add_mod, hzero, Nat.zero_add, Nat.mod_mod, Nat.mod_eq_of_lt (by omega)]
    omega
  · next hne =>
    have hsum : n + (2 ^ k - 1) = 2 ^ k * (n / 2 ^ k + 1) + (n % 2 ^ k - 1) := by
      rw [Nat.mul_add, Nat.mul_one]
      omega
    have hmod : (n + (2 ^ k - 1)) % 2 ^ k = n % 2 ^ k - 1 := by
      rw [hsum, Nat.mul_add_mod, Nat.mod_eq_of_lt (by omega)]
    omega

end RoundUp
