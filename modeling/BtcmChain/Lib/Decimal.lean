import Mathlib.Data.Nat.ModEq
import Mathlib.Tactic.Ring
import Mathlib.Tactic.Linarith

set_option autoImplicit false

/-!
# Decimal numerals

Sequences of digits and the numbers they count: concatenation, zeros written behind, and the
numeral of a number, split into its leading digit and the places behind it.

Numerals are those of `Nat.toDigits`, so what the standard library knows about them is used as it
is. `value` reads a sequence of digits as a number; `toDigits_split` and `toDigits_pow_add` say how
a numeral falls into its parts, and the truncating division and remainder of integers, by which a
sign is taken off, have their own lemmas at the end.
-/

namespace BtcmChain.Decimal

/-- The number that a sequence of digits counts; the empty one counts nothing. -/
def value (l : List Char) : Nat := Nat.ofDigitChars 10 l 0

/-- A text of decimal digits only; the empty text is one. -/
def AllDigits (l : List Char) : Prop := ∀ c ∈ l, c.isDigit = true

/-- The number from 0 to 9 that a decimal digit stands for. -/
def digit (c : Char) : Nat := c.toNat - '0'.toNat

@[simp] theorem value_nil : value [] = 0 := rfl

@[simp] theorem value_append (l m : List Char) :
    value (l ++ m) = 10 ^ m.length * value l + value m := by
  rw [value, Nat.ofDigitChars_append, Nat.ofDigitChars_eq_ofDigitChars_zero]
  rfl

theorem value_cons (c : Char) (l : List Char) :
    value (c :: l) = 10 ^ l.length * digit c + value l := by
  rw [← List.singleton_append, value_append]
  simp [value, Nat.ofDigitChars_cons, digit]

@[simp] theorem value_toDigits (n : Nat) : value (Nat.toDigits 10 n) = n :=
  Nat.ofDigitChars_ten_toDigits

@[simp] theorem allDigits_nil : AllDigits [] := fun _ h => absurd h List.not_mem_nil

@[simp] theorem allDigits_cons {c : Char} {l : List Char} :
    AllDigits (c :: l) ↔ c.isDigit = true ∧ AllDigits l := List.forall_mem_cons

@[simp] theorem allDigits_append {l m : List Char} :
    AllDigits (l ++ m) ↔ AllDigits l ∧ AllDigits m := List.forall_mem_append

@[simp] theorem allDigits_toDigits (n : Nat) : AllDigits (Nat.toDigits 10 n) :=
  fun _ h => Nat.isDigit_of_mem_toDigits (by decide) (by decide) h

theorem digit_le {c : Char} (h : c.isDigit = true) : digit c ≤ 9 := by
  simp only [Char.isDigit, Bool.and_eq_true, decide_eq_true_eq, UInt32.le_iff_toNat_le] at h
  have h9 : c.toNat ≤ 57 := h.2
  have h0 : '0'.toNat = 48 := rfl
  unfold digit
  omega

theorem value_lt {l : List Char} (h : AllDigits l) : value l < 10 ^ l.length := by
  induction l with
  | nil => simp
  | cons c l ih =>
      obtain ⟨hc, hl⟩ := allDigits_cons.mp h
      have hdigit := digit_le hc
      have hrest := ih hl
      rw [value_cons, List.length_cons, pow_succ]
      nlinarith

/-! ## Zeros behind -/

/-- A text written with at least `n` places, filled up with zeros on its right. -/
def padRight (n : Nat) (l : List Char) : List Char := l ++ List.replicate (n - l.length) '0'

theorem length_padRight {n : Nat} {l : List Char} (h : l.length ≤ n) : (padRight n l).length = n := by
  simp [padRight]
  omega

theorem value_padRight (n : Nat) (l : List Char) :
    value (padRight n l) = value l * 10 ^ (n - l.length) := by
  rw [padRight, value_append, List.length_replicate, value, value, Nat.ofDigitChars_replicate_zero]
  ring

theorem allDigits_padRight {n : Nat} {l : List Char} (h : AllDigits l) : AllDigits (padRight n l) := by
  rw [padRight, allDigits_append]
  refine ⟨h, fun c hc => ?_⟩
  rw [List.eq_of_mem_replicate hc]
  rfl

/-! ## The numeral of a number -/

/-- A positive number is its leading digit and the number its other places count. -/
theorem toDigits_split {n : Nat} (hn : 0 < n) :
    ∃ c places, Nat.toDigits 10 n = c :: places ∧ AllDigits places ∧
      1 ≤ digit c ∧ digit c ≤ 9 ∧ n = 10 ^ places.length * digit c + value places := by
  obtain ⟨c, places, heq⟩ := List.exists_cons_of_length_pos (Nat.length_toDigits_pos (b := 10) (n := n))
  obtain ⟨hc, hplaces⟩ := allDigits_cons.mp (heq ▸ allDigits_toDigits n)
  have hsum : n = 10 ^ places.length * digit c + value places := by
    rw [← value_cons, ← heq, value_toDigits]
  refine ⟨c, places, heq, hplaces, ?_, digit_le hc, hsum⟩
  have hlow : 10 ^ places.length ≤ n := by
    rcases Nat.eq_zero_or_pos places.length with h0 | hpos
    · rw [h0]
      exact hn
    · have hlen : ¬ (Nat.toDigits 10 n).length ≤ places.length := by simp [heq]
      rw [Nat.length_toDigits_le_iff (by decide) hpos] at hlen
      omega
  have hrest := value_lt hplaces
  by_contra hzero
  rw [Nat.lt_one_iff.mp (not_le.mp hzero)] at hsum
  omega

/-- Behind the leading one of `10^n + f` stand the `n` places of `f`. -/
theorem toDigits_pow_add {n f : Nat} (hf : f < 10 ^ n) :
    ∃ c places, Nat.toDigits 10 (10 ^ n + f) = c :: places ∧ AllDigits places ∧
      places.length = n ∧ value places = f := by
  obtain ⟨c, places, heq, hplaces, hc, hc9, hsum⟩ := toDigits_split (n := 10 ^ n + f) (by positivity)
  have hrest := value_lt hplaces
  have hlen : places.length = n := by
    rcases Nat.lt_trichotomy places.length n with hlt | h | hgt
    · have hpow : 10 ^ (places.length + 1) ≤ 10 ^ n := Nat.pow_le_pow_right (by decide) hlt
      rw [pow_succ] at hpow
      nlinarith
    · exact h
    · have hpow : 10 ^ (n + 1) ≤ 10 ^ places.length := Nat.pow_le_pow_right (by decide) hgt
      rw [pow_succ] at hpow
      nlinarith
  refine ⟨c, places, heq, hplaces, hlen, ?_⟩
  subst hlen
  have hone : digit c = 1 := by nlinarith
  rw [hone] at hsum
  omega

/-- The places of a number below `10^p`, moved to the left until there are `p` of them, never count
what the number lacks to `10^p`. -/
theorem moved_places_ne {k p d t : Nat} (hk : k < p) (hd : 1 ≤ d) (hd9 : d ≤ 9) :
    t * 10 ^ (p - k) + (10 ^ k * d + t) ≠ 10 ^ p := by
  intro h
  obtain ⟨m, rfl⟩ := Nat.exists_eq_add_of_lt hk
  have hm : k + m + 1 - k = m + 1 := by omega
  have hten : 10 ≤ 10 ^ (m + 1) := Nat.le_self_pow (by omega) 10
  rw [hm, add_assoc k m 1, pow_add 10 k (m + 1)] at h
  have hmul : t * (10 ^ (m + 1) + 1) = 10 ^ k * (10 ^ (m + 1) - d) := by
    rw [Nat.mul_sub, mul_add, mul_one]
    omega
  have hcoprime : Nat.Coprime (10 ^ (m + 1) + 1) (10 ^ k) := by
    apply Nat.Coprime.pow_right
    rw [pow_succ', Nat.coprime_comm]
    simp
  have hdvd : 10 ^ (m + 1) + 1 ∣ 10 ^ (m + 1) - d :=
    hcoprime.dvd_of_dvd_mul_left (hmul ▸ Dvd.intro_left t rfl)
  have hle := Nat.le_of_dvd (by omega) hdvd
  omega

/-! ## Truncated remainders -/

theorem tmod_nonpos {x p : ℤ} (hx : x ≤ 0) : x.tmod p ≤ 0 := by
  have h := Int.tmod_nonneg p (Int.neg_nonneg_of_nonpos hx)
  rw [Int.neg_tmod] at h
  omega

/-- The remainder is negative exactly for a negative number that leaves one. -/
theorem tmod_nonneg_iff {x p : ℤ} : 0 ≤ x.tmod p ↔ 0 ≤ x ∨ p ∣ x := by
  constructor
  · intro h
    by_cases hx : 0 ≤ x
    · exact Or.inl hx
    · exact Or.inr (Int.dvd_of_tmod_eq_zero (le_antisymm (tmod_nonpos (by omega)) h))
  · intro h
    obtain hx | hdvd := h
    · exact Int.tmod_nonneg p hx
    · rw [Int.tmod_eq_zero_of_dvd hdvd]

end BtcmChain.Decimal
