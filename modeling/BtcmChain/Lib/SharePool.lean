import BtcmChain.Lib.Respects
import Mathlib.Tactic.Linarith
import Mathlib.Tactic.Ring

set_option autoImplicit false

/-!
# Shares in a fund

A fund is divided into shares. Whoever deposits is given shares for it, whoever redeems
shares is paid for them, both at the ratio there is at that moment and neither in full. What a
share is worth is compared without a division (`NoDilution`): as long as there are shares and
something behind them, rounding against the one who comes or goes favours those who stay.
-/

namespace BtcmChain

/-- A pool: so many shares, and the fund that they are shares of. -/
structure SharePool where
  shares : ℤ
  fund : ℤ
  deriving DecidableEq

namespace SharePool

variable {p q r : SharePool}

/-- There are shares, and there is something in the fund behind them. -/
def Solvent (p : SharePool) : Prop := 0 < p.shares ∧ 0 < p.fund

instance (p : SharePool) : Decidable p.Solvent := inferInstanceAs (Decidable (_ ∧ _))

/-- A share of `q` is worth no less than a share of `p`. -/
def NoDilution (p q : SharePool) : Prop := p.fund * q.shares ≤ q.fund * p.shares

theorem NoDilution.refl (p : SharePool) : NoDilution p p := le_refl _

theorem NoDilution.trans (hpq : NoDilution p q) (hqr : NoDilution q r) (hp : 0 ≤ p.shares)
    (hq : 0 < q.shares) (hr : 0 ≤ r.shares) : NoDilution p r := by
  have h1 : p.fund * q.shares * r.shares ≤ q.fund * p.shares * r.shares :=
    mul_le_mul_of_nonneg_right hpq hr
  have h2 : q.fund * r.shares * p.shares ≤ r.fund * q.shares * p.shares :=
    mul_le_mul_of_nonneg_right hqr hp
  have h3 : p.fund * r.shares * q.shares ≤ r.fund * p.shares * q.shares := by
    calc p.fund * r.shares * q.shares = p.fund * q.shares * r.shares := by ring
      _ ≤ q.fund * p.shares * r.shares := h1
      _ = q.fund * r.shares * p.shares := by ring
      _ ≤ r.fund * q.shares * p.shares := h2
      _ = r.fund * p.shares * q.shares := by ring
  exact le_of_mul_le_mul_right h3 hq

/-- While there are shares left after a step that dilutes nobody, there is something in the fund
behind them. -/
theorem NoDilution.solvent (h : NoDilution p q) (hp : p.Solvent) (hq : 0 < q.shares) : q.Solvent := by
  refine ⟨hq, ?_⟩
  have hpos : 0 < q.fund * p.shares := lt_of_lt_of_le (mul_pos hp.2 hq) h
  exact pos_of_mul_pos_left hpos hp.1.le

/-- No more shares are given than the deposit is worth. -/
theorem noDilution_deposit {x m : ℤ} (h : m * p.fund ≤ x * p.shares) :
    NoDilution p ⟨p.shares + m, p.fund + x⟩ := by
  show p.fund * (p.shares + m) ≤ (p.fund + x) * p.shares
  linarith

/-- Redeeming shares for no more than they are worth dilutes nobody: the fund per remaining share
does not fall. -/
theorem noDilution_redeem {n y : ℤ} (h : y * p.shares ≤ n * p.fund) :
    NoDilution p ⟨p.shares - n, p.fund - y⟩ := by
  show p.fund * (p.shares - n) ≤ (p.fund - y) * p.shares
  linarith

/-- Shares are redeemed only, and none of the rest loses by it while there is a rest. -/
def Redeems (p q : SharePool) : Prop :=
  q.shares ≤ p.shares ∧ (p.Solvent → 0 < q.shares → NoDilution p q)

theorem Redeems.refl (p : SharePool) : Redeems p p := ⟨le_refl _, fun _ _ => NoDilution.refl p⟩

theorem Redeems.trans (hpq : Redeems p q) (hqr : Redeems q r) : Redeems p r := by
  refine ⟨hqr.1.trans hpq.1, fun hp hr => ?_⟩
  have hq : 0 < q.shares := lt_of_lt_of_le hr hqr.1
  have h1 := hpq.2 hp hq
  exact h1.trans (hqr.2 (h1.solvent hp hq) hr) hp.1.le hq hr.le

/-- Programs may be compared by what they do to a pool. -/
instance {σ : Type} (f : σ → SharePool) : Preorder₂ fun s t => Redeems (f s) (f t) :=
  ⟨fun _ => Redeems.refl _, Redeems.trans⟩

end SharePool

end BtcmChain
