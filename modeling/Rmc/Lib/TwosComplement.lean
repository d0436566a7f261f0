import Mathlib.Data.Int.ModEq
import Mathlib.Algebra.Order.Ring.Int
import Mathlib.Tactic.Common
import Mathlib.Tactic.Linarith
import Mathlib.Tactic.Ring
import Mathlib.Tactic.Positivity

/-!
# Two's complement

A word of `w` bits is the natural number below `2 ^ w` that its bits are the numeral of, its
*pattern*. `pattern w` takes an integer to the pattern of its residue modulo `2 ^ w`, and
`value signed w` reads a pattern as an integer, with the top bit counting negative when the word
is signed. Reading undoes writing on the integers that the word can represent, and writing undoes
reading on every pattern.
-/

namespace TwosComplement

/-- The pattern of an integer: its residue modulo `2 ^ w`. -/
def pattern (w : ℕ) (i : ℤ) : ℕ := (i % 2 ^ w).toNat

/-- The integer a pattern stands for. -/
def value (signed : Bool) (w n : ℕ) : ℤ :=
  if signed = true ∧ 2 ^ (w - 1) ≤ n then (n : ℤ) - 2 ^ w else n

/-- The integers that a word can represent. -/
def InRange (signed : Bool) (w : ℕ) (i : ℤ) : Prop :=
  if signed then -2 ^ (w - 1) ≤ i ∧ i < 2 ^ (w - 1) else 0 ≤ i ∧ i < 2 ^ w

instance (signed : Bool) (w : ℕ) (i : ℤ) : Decidable (InRange signed w i) :=
  inferInstanceAs (Decidable
    (if signed then -2 ^ (w - 1) ≤ i ∧ i < 2 ^ (w - 1) else 0 ≤ i ∧ i < 2 ^ w))

lemma two_pow_pos (w : ℕ) : (0 : ℤ) < 2 ^ w := by positivity

variable {w n : ℕ} {i j : ℤ} {signed : Bool}

/-- The halves of a nonempty word's patterns. -/
lemma two_pow_eq_half (hw : 0 < w) : (2 : ℤ) ^ w = 2 * 2 ^ (w - 1) := by
  rw [← pow_succ']
  congr 1
  omega

/-! ### Patterns -/

lemma cast_pattern (w : ℕ) (i : ℤ) : (pattern w i : ℤ) = i % 2 ^ w :=
  Int.toNat_of_nonneg (Int.emod_nonneg i (two_pow_pos w).ne')

lemma pattern_lt (w : ℕ) (i : ℤ) : pattern w i < 2 ^ w := by
  have h := Int.emod_lt_of_pos i (two_pow_pos w)
  rw [← cast_pattern] at h
  exact_mod_cast h

lemma pattern_natCast (w n : ℕ) : pattern w n = n % 2 ^ w := by
  have h := cast_pattern w n
  exact_mod_cast h

lemma pattern_natCast_of_lt (h : n < 2 ^ w) : pattern w n = n := by
  rw [pattern_natCast, Nat.mod_eq_of_lt h]

lemma pattern_eq_pattern_iff : pattern w i = pattern w j ↔ i ≡ j [ZMOD 2 ^ w] := by
  unfold Int.ModEq
  rw [← cast_pattern, ← cast_pattern, Nat.cast_inj]

lemma pattern_modEq (w : ℕ) (i : ℤ) : (pattern w i : ℤ) ≡ i [ZMOD 2 ^ w] := by
  rw [cast_pattern]
  exact Int.mod_modEq i _

lemma pattern_modEq_of_le {w' : ℕ} (h : w ≤ w') (i : ℤ) : (pattern w' i : ℤ) ≡ i [ZMOD 2 ^ w] :=
  (pattern_modEq w' i).of_dvd (pow_dvd_pow 2 h)

/-! ### Values -/

@[simp] lemma value_false (w n : ℕ) : value false w n = n := by simp [value]

lemma value_modEq (signed : Bool) (w n : ℕ) : value signed w n ≡ n [ZMOD 2 ^ w] := by
  unfold value
  split
  · exact Int.ModEq.symm (Int.modEq_iff_dvd.mpr ⟨-1, by ring⟩)
  · rfl

lemma value_pattern_modEq (signed : Bool) (w : ℕ) (i : ℤ) :
    value signed w (pattern w i) ≡ i [ZMOD 2 ^ w] :=
  (value_modEq signed w _).trans (pattern_modEq w i)

lemma pattern_value (h : n < 2 ^ w) : pattern w (value signed w n) = n := by
  rw [pattern_eq_pattern_iff.mpr (value_modEq signed w n), pattern_natCast_of_lt h]

lemma inRange_value (hw : 0 < w) (h : n < 2 ^ w) : InRange signed w (value signed w n) := by
  have hhalf := two_pow_eq_half hw
  have hn : (n : ℤ) < 2 ^ w := by exact_mod_cast h
  cases signed with
  | false => simp only [InRange, value_false, Bool.false_eq_true, if_false]; omega
  | true =>
    simp only [InRange, value, if_true, true_and]
    split
    · next hle =>
      have hle' : (2 : ℤ) ^ (w - 1) ≤ n := by exact_mod_cast hle
      omega
    · next hle =>
      have hlt : (n : ℤ) < 2 ^ (w - 1) := by exact_mod_cast Nat.lt_of_not_le hle
      have hpos := two_pow_pos (w - 1)
      omega

/-- Two integers that a word can represent are equal when they are congruent. -/
lemma InRange.eq_of_modEq (hw : 0 < w) (hi : InRange signed w i) (hj : InRange signed w j)
    (h : i ≡ j [ZMOD 2 ^ w]) :
    i = j := by
  have hhalf := two_pow_eq_half hw
  obtain ⟨k, hk⟩ := Int.modEq_iff_dvd.mp h
  -- the difference is a multiple of `2 ^ w` and smaller than `2 ^ w`
  have hpos := two_pow_pos w
  have hbound : j - i < 2 ^ w ∧ -2 ^ w < j - i := by
    cases signed <;> simp only [InRange, Bool.false_eq_true, if_true, if_false] at hi hj <;> omega
  have hk0 : k = 0 := by
    by_contra hne
    rcases Int.lt_or_gt_of_ne hne with hneg | hpos'
    · nlinarith
    · nlinarith
  rw [hk0, mul_zero] at hk
  omega

lemma value_pattern (hw : 0 < w) (h : InRange signed w i) : value signed w (pattern w i) = i :=
  (inRange_value hw (pattern_lt w i)).eq_of_modEq hw h (value_pattern_modEq signed w i)

lemma value_natCast_of_lt (h : n < 2 ^ (w - 1)) : value signed w n = n := by
  unfold value
  rw [if_neg]
  rintro ⟨-, hle⟩
  omega

/-- The value of a signed word whose top bit is set. -/
lemma value_true_of_le (h : 2 ^ (w - 1) ≤ n) : value true w n = (n : ℤ) - 2 ^ w := by
  simp [value, h]

/-! ### Bounds -/

/-- The smallest integer that a word can represent. -/
def minValue (signed : Bool) (w : ℕ) : ℤ := if signed then -2 ^ (w - 1) else 0

/-- The largest integer that a word can represent. -/
def maxValue (signed : Bool) (w : ℕ) : ℤ := if signed then 2 ^ (w - 1) - 1 else 2 ^ w - 1

/-- The integer that a word can represent and that is nearest to `i`. -/
def clamp (signed : Bool) (w : ℕ) (i : ℤ) : ℤ := max (minValue signed w) (min (maxValue signed w) i)

lemma inRange_iff : InRange signed w i ↔ minValue signed w ≤ i ∧ i ≤ maxValue signed w := by
  cases signed <;> simp only [InRange, minValue, maxValue, Bool.false_eq_true, if_true,
    if_false] <;>
    omega

lemma minValue_nonpos (signed : Bool) (w : ℕ) : minValue signed w ≤ 0 := by
  have hpos := two_pow_pos (w - 1)
  cases signed <;> simp only [minValue, Bool.false_eq_true, if_true, if_false] <;> omega

lemma maxValue_nonneg (signed : Bool) (w : ℕ) : 0 ≤ maxValue signed w := by
  have hpos := two_pow_pos (w - 1)
  have hpos' := two_pow_pos w
  cases signed <;> simp only [maxValue, Bool.false_eq_true, if_true, if_false] <;> omega

lemma clamp_of_inRange (h : InRange signed w i) : clamp signed w i = i := by
  obtain ⟨hmin, hmax⟩ := inRange_iff.mp h
  rw [clamp, min_eq_right hmax, max_eq_right hmin]

lemma clamp_of_lt (h : i < minValue signed w) : clamp signed w i = minValue signed w :=
  max_eq_left ((min_le_right _ _).trans h.le)

lemma clamp_of_gt (h : maxValue signed w < i) : clamp signed w i = maxValue signed w := by
  rw [clamp, min_eq_left h.le]
  exact max_eq_right ((minValue_nonpos signed w).trans (maxValue_nonneg signed w))

end TwosComplement
