import Mathlib.Algebra.Order.Group.Int
import Mathlib.Algebra.Order.Ring.Int
import Mathlib.Tactic.Linarith
import Mathlib.Tactic.Ring

set_option autoImplicit false

/-!
# Rates of exchange

Whoever gives one thing for another names a rate: so much is asked for so much given. Amounts
are whole numbers and are rounded down. Two rates of opposite directions *meet* when neither
side asks for more than the other gives; then both are served at the rate of the one who was
there first (`settle`), and one of them in full.

An exchange that stops short of what one side has to give is exact or better for that side
(`Fair`), so over any number of exchanges only the last one may lose the fraction of a unit
(`Kept`).
-/

namespace BtcmChain

/-- The rate of an offer: so much is asked for so much given, and both are positive. -/
structure Rate where
  give : ℤ
  ask : ℤ
  give_pos : 0 < give
  ask_pos : 0 < ask

namespace Rate

variable {r q : Rate} {x y n m : ℤ}

/-- What is asked for `x` at the rate, rounded down to whole units. -/
def worth (r : Rate) (x : ℤ) : ℤ := x * r.ask / r.give

/-- The rate of the one who takes the offer: what is given and what is asked change places. -/
def inv (r : Rate) : Rate := ⟨r.ask, r.give, r.ask_pos, r.give_pos⟩

@[simp] theorem inv_give : r.inv.give = r.ask := rfl
@[simp] theorem inv_ask : r.inv.ask = r.give := rfl

/-- Two offers meet when neither side asks for more than the other gives. -/
def Meets (r q : Rate) : Prop := r.ask * q.ask ≤ r.give * q.give

theorem le_worth : x ≤ r.worth y ↔ x * r.give ≤ y * r.ask := Int.le_ediv_iff_mul_le r.give_pos

theorem worth_lt : r.worth y < x ↔ y * r.ask < x * r.give := Int.ediv_lt_iff_lt_mul r.give_pos

theorem worth_nonneg (h : 0 ≤ x) : 0 ≤ r.worth x :=
  Int.ediv_nonneg (mul_nonneg h r.ask_pos.le) r.give_pos.le

theorem worth_mono (h : x ≤ y) : r.worth x ≤ r.worth y :=
  Int.ediv_le_ediv r.give_pos (mul_le_mul_of_nonneg_right h r.ask_pos.le)

/-- Only a positive amount is worth something at a rate, once the worth is rounded down. -/
theorem pos_of_worth_pos (h : 0 < r.worth x) : 0 < x := by
  by_contra hx
  have hle : r.worth x ≤ r.worth 0 := worth_mono (not_lt.mp hx)
  have hzero : r.worth 0 = 0 := by rw [worth, zero_mul, Int.zero_ediv]
  omega

/-! ## Accounts -/

/-- So far nothing was lost against the rate: what was received is worth at least what was paid. -/
def Fair (r : Rate) (paid received : ℤ) : Prop := paid * r.ask ≤ received * r.give

/-- No more than the fraction of a unit was lost. -/
def Kept (r : Rate) (paid received : ℤ) : Prop := r.worth paid ≤ received

theorem fair_zero : r.Fair 0 0 := by simp [Fair]

theorem Fair.add {paid received : ℤ} (h : r.Fair paid received) (hx : r.Fair x y) :
    r.Fair (paid + x) (received + y) := by
  unfold Fair at h hx ⊢
  linarith

/-- The last exchange is the only one that may lose something. -/
theorem Fair.close {paid received : ℤ} (h : r.Fair paid received) (hx : r.Kept x y) :
    r.Kept (paid + x) (received + y) := by
  refine Int.lt_add_one_iff.mp (worth_lt.mpr ?_)
  have hy : x * r.ask < (y + 1) * r.give := worth_lt.mp (Int.lt_add_one_iff.mpr hx)
  unfold Fair at h
  calc (paid + x) * r.ask = paid * r.ask + x * r.ask := by ring
    _ < received * r.give + (y + 1) * r.give := by linarith
    _ = (received + y + 1) * r.give := by ring

theorem Fair.kept {paid received : ℤ} (h : r.Fair paid received) : r.Kept paid received := by
  have hnone : r.Kept 0 0 := by simp [Kept, worth]
  simpa using h.close hnone

/-! ## One exchange -/

/-- What a newcomer with `n` to give and an offer of `m` at the rate `q` pay each other. -/
def settle (q : Rate) (n m : ℤ) : ℤ × ℤ :=
  if n ≤ q.worth m then (n, q.inv.worth n) else (q.worth m, m)

/-- What the newcomer (`x`) and the offer (`y`) may pay each other. -/
structure Settled (r q : Rate) (n m x y : ℤ) : Prop where
  given_pos : 0 < x
  given_le : x ≤ n
  taken_pos : 0 < y
  taken_le : y ≤ m
  full : x = n ∨ y = m
  kept : r.Kept x y
  kept_offer : q.Kept y x
  fair : x < n → r.Fair x y
  fair_offer : y < m → q.Fair y x

/-- An offer never pays more than it has: what it pays for a rounded worth is at most the amount
that is worth it. -/
theorem inv_worth_le (h : n ≤ q.worth m) : q.inv.worth n ≤ m := by
  refine Int.lt_add_one_iff.mp (worth_lt.mpr ?_)
  have hle := le_worth.mp h
  have hpos := q.ask_pos
  show n * q.give < (m + 1) * q.ask
  linarith

/-- Whatever the newcomer asks for, neither pays more than there is. -/
theorem settle_bounds (hn : 0 < n) (hm : 0 < q.worth m) :
    (0 < (q.settle n m).1 ∧ (q.settle n m).1 ≤ n) ∧ (0 ≤ (q.settle n m).2 ∧ (q.settle n m).2 ≤ m) ∧
      ((q.settle n m).1 = n ∨ (q.settle n m).2 = m) := by
  unfold settle
  split
  case isTrue hfits => exact ⟨⟨hn, le_refl n⟩, ⟨worth_nonneg hn.le, inv_worth_le hfits⟩, Or.inl rfl⟩
  case isFalse hrest =>
    exact ⟨⟨hm, (not_le.mp hrest).le⟩, ⟨(pos_of_worth_pos hm).le, le_refl m⟩, Or.inr rfl⟩

/-- When rates meet, the offer is no worse than what the newcomer asks for. -/
theorem Meets.worth_le (h : r.Meets q) (hn : 0 ≤ n) : r.worth n ≤ q.inv.worth n := by
  refine le_worth.mpr ?_
  show r.worth n * q.ask ≤ n * q.give
  have hle : r.worth n * r.give ≤ n * r.ask := le_worth.mp (le_refl _)
  have hscaled : r.worth n * q.ask * r.give ≤ n * q.give * r.give := by
    calc r.worth n * q.ask * r.give = r.worth n * r.give * q.ask := by ring
      _ ≤ n * r.ask * q.ask := mul_le_mul_of_nonneg_right hle q.ask_pos.le
      _ = n * (r.ask * q.ask) := by ring
      _ ≤ n * (r.give * q.give) := mul_le_mul_of_nonneg_left h hn
      _ = n * q.give * r.give := by ring
  exact le_of_mul_le_mul_right hscaled r.give_pos

/-- Two offers that meet and are worth something are settled. -/
theorem Meets.settled (h : r.Meets q) (hn : 0 < r.worth n) (hm : 0 < q.worth m) :
    Settled r q n m (q.settle n m).1 (q.settle n m).2 := by
  have hnpos := pos_of_worth_pos hn
  have hmpos := pos_of_worth_pos hm
  unfold settle
  split
  case isTrue hfits =>
    -- the newcomer pays everything, and the offer what that is worth
    have hbetter := h.worth_le hnpos.le
    have hexact : q.inv.worth n * q.ask ≤ n * q.give := le_worth.mp (le_refl (q.inv.worth n))
    exact {
      given_pos := hnpos
      given_le := le_refl n
      taken_pos := lt_of_lt_of_le hn hbetter
      taken_le := inv_worth_le hfits
      full := Or.inl rfl
      kept := hbetter
      kept_offer := Fair.kept hexact
      fair := fun hlt => absurd hlt (lt_irrefl n)
      fair_offer := fun _ => hexact }
  case isFalse hrest =>
    -- the offer pays everything, and the newcomer what it is worth
    have hlt := not_le.mp hrest
    have hround : q.worth m * q.give ≤ m * q.ask := le_worth.mp (le_refl _)
    have hexact : r.Fair (q.worth m) m := by
      have hscaled : q.worth m * r.ask * q.give ≤ m * r.give * q.give := by
        calc q.worth m * r.ask * q.give = q.worth m * q.give * r.ask := by ring
          _ ≤ m * q.ask * r.ask := mul_le_mul_of_nonneg_right hround r.ask_pos.le
          _ = m * (r.ask * q.ask) := by ring
          _ ≤ m * (r.give * q.give) := mul_le_mul_of_nonneg_left h hmpos.le
          _ = m * r.give * q.give := by ring
      exact le_of_mul_le_mul_right hscaled q.give_pos
    exact {
      given_pos := hm
      given_le := hlt.le
      taken_pos := hmpos
      taken_le := le_refl m
      full := Or.inr rfl
      kept := hexact.kept
      kept_offer := le_refl (q.worth m)
      fair := fun _ => hexact
      fair_offer := fun hlt => absurd hlt (lt_irrefl m) }

end Rate

end BtcmChain
