import Mathlib.Algebra.BigOperators.Intervals
import Mathlib.Algebra.Order.BigOperators.Group.Finset
import Mathlib.Algebra.Order.Ring.Int
import Mathlib.Tactic.Ring

set_option autoImplicit false

/-!
# What is held in each unit of time

A record of holdings is a function of time. It is written forward: `holdOver` enters what is held over an
interval, and sums over earlier times stay as they are.

Times are natural numbers and what is held is an integer. Sums are taken from one time up to
another: over a stretch in which the same is held they grow by that amount for each unit
(`sum_of_held`), and a bound on the holdings bounds them (`sum_held_le`).
-/

namespace BtcmChain

open Finset

variable {held : ℕ → ℤ} {start stop a b c : ℕ} {v bound : ℤ}

/-- The value `v` is held from `start` until `stop`; at all other times it is what was held before.
-/
def holdOver (held : ℕ → ℤ) (start stop : ℕ) (v : ℤ) : ℕ → ℤ := fun t =>
  if start ≤ t ∧ t < stop then v else held t

theorem holdOver_of_lt {t : ℕ} (h : t < start) : holdOver held start stop v t = held t :=
  if_neg fun hin => absurd hin.1 (not_le.mpr h)

theorem sum_holdOver (h : b ≤ start) : ∑ t ∈ Ico a b, holdOver held start stop v t = ∑ t ∈ Ico a b, held t := by
  refine sum_congr rfl fun t ht => holdOver_of_lt ?_
  exact (mem_Ico.mp ht).2.trans_le h

/-- While the same is held the sum grows by it. -/
theorem sum_of_held (hab : a ≤ b) (hbc : b ≤ c) (h : ∀ t, b ≤ t → t < c → held t = v) :
    ∑ t ∈ Ico a c, held t = ∑ t ∈ Ico a b, held t + v * (c - b) := by
  rw [← sum_Ico_consecutive held hab hbc]
  have hconst : ∑ t ∈ Ico b c, held t = ∑ _t ∈ Ico b c, v :=
    sum_congr rfl fun t ht => h t (mem_Ico.mp ht).1 (mem_Ico.mp ht).2
  rw [hconst, sum_const, Nat.card_Ico, nsmul_eq_mul, Nat.cast_sub hbc]
  ring

theorem sum_held_le (hpos : 0 ≤ bound) (h : ∀ t, held t ≤ bound) :
    ∑ t ∈ Ico a b, held t ≤ bound * b := by
  calc ∑ t ∈ Ico a b, held t ≤ ∑ _t ∈ Ico a b, bound := sum_le_sum fun t _ => h t
    _ = bound * ((b - a : ℕ) : ℤ) := by rw [sum_const, Nat.card_Ico, nsmul_eq_mul, mul_comm]
    _ ≤ bound * b := mul_le_mul_of_nonneg_left (by exact_mod_cast Nat.sub_le b a) hpos

end BtcmChain
