import Mathlib.Data.Nat.Digits.Defs
import Mathlib.Tactic.Common

/-!
# Numerals

Upper case hexadecimal numerals of natural numbers, without leading zeros, and the numerals of
integers that put a minus sign before the numeral of the absolute value. Decimal numerals are told
apart in a longer text as long as no digit follows them.
-/

namespace Numeral

/-- The character of a digit below sixteen. -/
def upperHexDigit (d : ℕ) : Char := Char.ofNat (if d < 10 then 48 + d else 55 + d)

/-- The numeral of a natural number. -/
def upperHex (n : ℕ) : String :=
  if n = 0 then "0" else String.ofList ((Nat.digits 16 n).reverse.map upperHexDigit)

/-- The numeral of an integer: sign and absolute value. -/
def signedUpperHex (i : ℤ) : String :=
  if i < 0 then "-" ++ upperHex i.natAbs else upperHex i.natAbs

variable {d n : ℕ} {r : List Char}

lemma upperHexDigit_injOn {e : ℕ} (hd : d < 16) (he : e < 16)
    (h : upperHexDigit d = upperHexDigit e) :
    d = e := by
  revert h
  revert e
  revert d
  decide

lemma upperHexDigit_ne_minus (hd : d < 16) : upperHexDigit d ≠ '-' := by
  revert d
  decide

/-- Zero is the only number without digits, so its numeral is the only one with this case. -/
lemma toList_upperHex (n : ℕ) :
    (upperHex n).toList =
      if n = 0 then [upperHexDigit 0] else (Nat.digits 16 n).reverse.map upperHexDigit := by
  by_cases hn : n = 0
  · simp [upperHex, hn]
    decide
  · simp [upperHex, hn]

lemma exists_digit_of_mem_upperHex {c : Char} (hc : c ∈ (upperHex n).toList) :
    ∃ d < 16, c = upperHexDigit d := by
  rw [toList_upperHex] at hc
  split at hc
  · exact ⟨0, by decide, by simpa using hc⟩
  · simp only [List.mem_map, List.mem_reverse] at hc
    obtain ⟨d, hd, rfl⟩ := hc
    exact ⟨d, Nat.digits_lt_base (by decide) hd, rfl⟩

/-- Lists of digits are determined by their characters. -/
lemma digits_eq_of_map_eq {l l' : List ℕ} (hl : ∀ d ∈ l, d < 16) (hl' : ∀ d ∈ l', d < 16)
    (h : l.map upperHexDigit = l'.map upperHexDigit) : l = l' := by
  induction l generalizing l' with
  | nil => simpa [eq_comm] using h
  | cons d l ih =>
    cases l' with
    | nil => simp at h
    | cons d' l' =>
      simp only [List.map_cons, List.cons.injEq] at h
      rw [upperHexDigit_injOn (hl d (by simp)) (hl' d' (by simp)) h.1]
      rw [ih (fun e he => hl e (by simp [he])) (fun e he => hl' e (by simp [he])) h.2]

/-- The numeral of zero is read back from `[0]`, every other one from its digits. -/
lemma upperHex_injective : Function.Injective upperHex := by
  intro m n h
  have hlist := congrArg String.toList h
  have hlt : ∀ k, ∀ d ∈ Nat.digits 16 k, d < 16 :=
    fun k d hd => Nat.digits_lt_base (by decide) hd
  -- a positive number has a nonzero leading digit, so its numeral is not that of zero
  have hzero : ∀ k, k ≠ 0 → (Nat.digits 16 k).reverse.map upperHexDigit ≠ [upperHexDigit 0] := by
    intro k hk heq
    have hdigits : (Nat.digits 16 k).reverse = [0] :=
      digits_eq_of_map_eq (by simpa using hlt k) (by simp) (by simpa using heq)
    have hval : Nat.ofDigits 16 (Nat.digits 16 k) = 0 := by
      rw [← List.reverse_reverse (Nat.digits 16 k), hdigits]
      rfl
    rw [Nat.ofDigits_digits] at hval
    exact hk hval
  rw [toList_upperHex, toList_upperHex] at hlist
  by_cases hm : m = 0 <;> by_cases hn : n = 0 <;> simp only [hm, hn, if_true, if_false] at hlist ⊢
  · exact absurd hlist.symm (hzero n hn)
  · exact absurd hlist (hzero m hm)
  · have hrev := digits_eq_of_map_eq (by simpa using hlt m) (by simpa using hlt n) hlist
    exact Nat.digits_inj_iff.mp (List.reverse_inj.mp hrev)

/-- A numeral with a sign is not the numeral of a natural number. -/
lemma minus_append_ne_upperHex (m n : ℕ) : "-" ++ upperHex m ≠ upperHex n := by
  intro h
  have hmem : '-' ∈ (upperHex n).toList := by
    rw [← h]
    simp
  obtain ⟨d, hd, heq⟩ := exists_digit_of_mem_upperHex hmem
  exact upperHexDigit_ne_minus hd heq.symm

lemma signedUpperHex_eq_upperHex_iff (i : ℤ) (n : ℕ) :
    signedUpperHex i = upperHex n ↔ i = n := by
  unfold signedUpperHex
  split
  · next hi => simp only [minus_append_ne_upperHex, false_iff]; omega
  · next hi => rw [upperHex_injective.eq_iff]; omega

lemma signedUpperHex_injective : Function.Injective signedUpperHex := by
  intro i j h
  by_cases hi : i < 0
  · by_cases hj : j < 0
    · simp only [signedUpperHex, hi, hj, if_true, String.append_right_inj] at h
      have := upperHex_injective h
      omega
    · simp only [signedUpperHex, hi, hj, if_true, if_false] at h
      exact absurd h (minus_append_ne_upperHex _ _)
  · have hsigned : signedUpperHex j = upperHex i.natAbs := by
      rw [← h]
      simp [signedUpperHex, hi]
    rw [signedUpperHex_eq_upperHex_iff] at hsigned
    omega

/-! ### Decimal numerals -/

lemma toDigits_injective : Function.Injective (Nat.toDigits 10) := by
  intro m n h
  rw [← Nat.ofDigitChars_toDigits (b := 10) (n := m) (by decide) (by decide), h,
    Nat.ofDigitChars_toDigits (by decide) (by decide)]

lemma repr_injective : Function.Injective Nat.repr :=
  fun _ _ h => toDigits_injective (String.ofList_injective h)

lemma takeWhile_isDigit_toDigits_append (n : ℕ) (hr : ∀ c ∈ r.head?, c.isDigit = false) :
    (Nat.toDigits 10 n ++ r).takeWhile Char.isDigit = Nat.toDigits 10 n := by
  have hdigits : ∀ c ∈ Nat.toDigits 10 n, c.isDigit = true :=
    fun c hc => Nat.isDigit_of_mem_toDigits (by decide) (by decide) hc
  rw [List.takeWhile_append_of_pos hdigits]
  cases r with
  | nil => simp
  | cons c r => simp [hr c rfl]

/-- A numeral ends where the digits end. -/
lemma toDigits_append_inj {m : ℕ} {r' : List Char} (hr : ∀ c ∈ r.head?, c.isDigit = false)
    (hr' : ∀ c ∈ r'.head?, c.isDigit = false)
    (h : Nat.toDigits 10 m ++ r = Nat.toDigits 10 n ++ r') :
    m = n ∧ r = r' := by
  have hdigits : Nat.toDigits 10 m = Nat.toDigits 10 n := by
    rw [← takeWhile_isDigit_toDigits_append m hr, h, takeWhile_isDigit_toDigits_append n hr']
  rw [hdigits] at h
  exact ⟨toDigits_injective hdigits, List.append_cancel_left h⟩

end Numeral
