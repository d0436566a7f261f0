import Mathlib.Data.Int.Lemmas
import Mathlib.Tactic.LinearCombination
import Mathlib.Tactic.Positivity
import Mathlib.Tactic.Ring

/-!
# Masks and shifts of integers

An integer in two's complement has a sign that repeats without end to the left. A mask of `k` ones
therefore takes the residue modulo `2 ^ k`, of a negative number as well, and a mask of `k` ones
that is shifted to the left takes the residue of the quotient.
-/

namespace BitMask

/-- The residue of a number with one more digit. -/
lemma bit_emod (b : Bool) (n : ℤ) {m : ℤ} (hm : 0 < m) :
    Int.bit b n % (m * 2) = Int.bit b (n % m) := by
  rw [Int.bit_val, Int.bit_val]
  have hnonneg := Int.emod_nonneg n hm.ne'
  have hlt := Int.emod_lt_of_pos n hm
  have hdigit : 0 ≤ (cond b 1 0 : ℤ) ∧ (cond b 1 0 : ℤ) ≤ 1 := by cases b <;> simp
  have hsplit : 2 * n + cond b 1 0 = 2 * (n % m) + cond b 1 0 + m * 2 * (n / m) := by
    have := Int.emod_add_mul_ediv n m
    linear_combination -2 * this
  rw [hsplit, Int.add_mul_emod_self_left]
  apply Int.emod_eq_of_lt
  · omega
  · omega

lemma land_zero (n : ℤ) : Int.land n 0 = 0 := by
  cases n with
  | ofNat n => exact congrArg Int.ofNat (Nat.and_zero n)
  | negSucc n =>
    have hldiff : Nat.ldiff 0 n = 0 := by simp [Nat.ldiff]
    exact congrArg Int.ofNat hldiff

/-- The mask of `k` ones takes the last `k` digits. -/
lemma land_two_pow_sub_one (n : ℤ) (k : ℕ) : Int.land n (2 ^ k - 1) = n % 2 ^ k := by
  induction k generalizing n with
  | zero => simp [land_zero]
  | succ k ih =>
    have hmask : (2 : ℤ) ^ (k + 1) - 1 = Int.bit true (2 ^ k - 1) := by
      rw [Int.bit_val, pow_succ]
      simp only [cond_true]
      ring
    rw [hmask, ← Int.bit_decomp n, Int.land_bit, Bool.and_true, ih, pow_succ,
      bit_emod _ _ (by positivity)]

/-- Masking above position `k` is masking what is left of it. -/
lemma land_mul_two_pow_ediv (n m : ℤ) (k : ℕ) :
    Int.land n (m * 2 ^ k) / 2 ^ k = Int.land (n / 2 ^ k) m := by
  induction k generalizing n with
  | zero => simp
  | succ k ih =>
    have hmask : m * 2 ^ (k + 1) = Int.bit false (m * 2 ^ k) := by
      rw [Int.bit_val, pow_succ]
      simp only [cond_false]
      ring
    have hhalf : ∀ b i, Int.bit b i / 2 ^ (k + 1) = i / 2 ^ k := by
      intro b i
      rw [pow_succ', ← Int.ediv_ediv_of_nonneg (by norm_num), ← Int.div2_val, Int.div2_bit]
    rw [hmask, ← Int.bit_decomp n, Int.land_bit, hhalf, hhalf, ih]

end BitMask
