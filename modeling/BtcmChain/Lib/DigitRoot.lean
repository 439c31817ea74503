import Mathlib.Data.Nat.Sqrt
import Mathlib.Order.Bounds.Basic
import Mathlib.Tactic.Linarith
import Mathlib.Tactic.Ring

set_option autoImplicit false

/-!
# Square roots digit by digit

The root of a number and what remains, brought up to date when a digit of base four is appended
to the number. The comparison is with twice the root, as one makes it on paper.

`Rooted` is the invariant of the method: the square of the root and the remainder make the number,
and the remainder is at most twice the root. A digit one or a digit zero is appended to the root
according to the comparison (`Rooted.append_one`, `Rooted.append_zero`); starting from nothing
(`Rooted.zero`) this ends at the integer square root (`Rooted.eq_sqrt`).
-/

namespace BtcmChain.DigitRoot

/-- `r` is the root of `n`, and `rem` is left over. -/
structure Rooted (n r rem : ℕ) : Prop where
  split : r * r + rem = n
  small : rem ≤ 2 * r

variable {n r rem d : ℕ}

theorem Rooted.zero : Rooted 0 0 0 := ⟨rfl, le_rfl⟩

/-- The next digit of the root is 1 when the remainder has room for it. -/
theorem Rooted.append_one (h : Rooted n r rem) (hd : d < 4) (hroom : 4 * r < 4 * rem + d) :
    Rooted (4 * n + d) (2 * r + 1) (4 * rem + d - (4 * r + 1)) := by
  obtain ⟨hsplit, hsmall⟩ := h
  have hsquare : (2 * r + 1) * (2 * r + 1) = 4 * (r * r) + (4 * r + 1) := by ring
  exact ⟨by omega, by omega⟩

/-- The next digit of the root is 0 when there is no room for a 1, and the rest keeps the digits it
has. -/
theorem Rooted.append_zero (h : Rooted n r rem) (hroom : ¬ 4 * r < 4 * rem + d) :
    Rooted (4 * n + d) (2 * r) (4 * rem + d) := by
  obtain ⟨hsplit, hsmall⟩ := h
  have hsquare : 2 * r * (2 * r) = 4 * (r * r) := by ring
  exact ⟨by omega, by omega⟩

theorem Rooted.lt_succ_sq (h : Rooted n r rem) : n < (r + 1) * (r + 1) := by
  obtain ⟨hsplit, hsmall⟩ := h
  have hsquare : (r + 1) * (r + 1) = r * r + 2 * r + 1 := by ring
  omega

theorem Rooted.eq_sqrt (h : Rooted n r rem) : r = n.sqrt := by
  have hle : r * r ≤ n := h.split ▸ Nat.le_add_right _ _
  have hsqrt : n.sqrt < r + 1 := Nat.sqrt_lt.mpr h.lt_succ_sq
  have hroot : r ≤ n.sqrt := Nat.le_sqrt.mpr hle
  omega

/-- The root is the largest number with a square that is not above. -/
theorem isGreatest_iff {m : ℕ} : IsGreatest {x : ℕ | x * x ≤ n} m ↔ m = n.sqrt := by
  have hgreatest : IsGreatest {x : ℕ | x * x ≤ n} n.sqrt :=
    ⟨Nat.sqrt_le n, fun x hx => Nat.le_sqrt.mpr hx⟩
  constructor
  · intro h
    exact h.unique hgreatest
  · rintro rfl
    exact hgreatest

end BtcmChain.DigitRoot
