import Mathlib.Data.List.Basic
import Mathlib.Order.Basic
import Mathlib.Order.Lattice

set_option autoImplicit false

/-!
# Candles

A candle is the first, the last, the highest and the lowest of a series, as measured by a rate. It is
kept up to date one value at a time.

The rate is a parameter with values in a linear order, and of values with the same rate the earlier
one stays the highest or the lowest. `Of` says of which series a candle is the candle; a series of
one value has one (`of_single`), and extending the candle by a value extends the series
(`Of.extend`).
-/

namespace BtcmChain

structure Candle (α : Type) where
  first : α
  last : α
  high : α
  low : α

namespace Candle

variable {α κ : Type} {rate : α → κ} {l : List α} {c : Candle α} {a : α}

/-- The candle of a series with a single value, which is its first, its last, its highest and its
lowest one. -/
def single (a : α) : Candle α := ⟨a, a, a, a⟩

/-- The candle after one value more: the first stays, the last is the new one, and the new one may
be the highest or the lowest. -/
def extend [LT κ] [DecidableLT κ] (rate : α → κ) (c : Candle α) (a : α) : Candle α where
  first := c.first
  last := a
  high := if rate c.high < rate a then a else c.high
  low := if rate a < rate c.low then a else c.low

/-- `c` is the candle of the series `l`: its first and last value, and two of its values with the
highest and the lowest rate. -/
structure Of [LE κ] (rate : α → κ) (l : List α) (c : Candle α) : Prop where
  first : l.head? = some c.first
  last : l.getLast? = some c.last
  high_mem : c.high ∈ l
  le_high : ∀ a ∈ l, rate a ≤ rate c.high
  low_mem : c.low ∈ l
  low_le : ∀ a ∈ l, rate c.low ≤ rate a

theorem of_single [Preorder κ] : Of rate [a] (single a) where
  first := rfl
  last := rfl
  high_mem := List.mem_singleton.mpr rfl
  le_high := fun _ hb => (congrArg rate (List.mem_singleton.mp hb)).le
  low_mem := List.mem_singleton.mpr rfl
  low_le := fun _ hb => (congrArg rate (List.mem_singleton.mp hb)).ge

theorem Of.extend [LinearOrder κ] (h : Of rate l c) : Of rate (l ++ [a]) (c.extend rate a) where
  first := by
    rw [List.head?_append, h.first]
    rfl
  last := by simp [Candle.extend]
  high_mem := by
    by_cases hlt : rate c.high < rate a
    · simp [Candle.extend, hlt]
    · simp [Candle.extend, hlt, h.high_mem]
  le_high := by
    intro b hb
    by_cases hlt : rate c.high < rate a
    · simp only [Candle.extend, if_pos hlt]
      rcases List.mem_append.mp hb with hb | hb
      · exact (h.le_high b hb).trans hlt.le
      · exact (congrArg rate (List.mem_singleton.mp hb)).le
    · simp only [Candle.extend, if_neg hlt]
      rcases List.mem_append.mp hb with hb | hb
      · exact h.le_high b hb
      · exact (congrArg rate (List.mem_singleton.mp hb)).le.trans (not_lt.mp hlt)
  low_mem := by
    by_cases hlt : rate a < rate c.low
    · simp [Candle.extend, hlt]
    · simp [Candle.extend, hlt, h.low_mem]
  low_le := by
    intro b hb
    by_cases hlt : rate a < rate c.low
    · simp only [Candle.extend, if_pos hlt]
      rcases List.mem_append.mp hb with hb | hb
      · exact hlt.le.trans (h.low_le b hb)
      · exact (congrArg rate (List.mem_singleton.mp hb)).ge
    · simp only [Candle.extend, if_neg hlt]
      rcases List.mem_append.mp hb with hb | hb
      · exact h.low_le b hb
      · exact (not_lt.mp hlt).trans (congrArg rate (List.mem_singleton.mp hb)).ge

end Candle

end BtcmChain
