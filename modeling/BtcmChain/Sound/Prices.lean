import BtcmChain.Evaluator.Base
import BtcmChain.Lib.Rate
import Mathlib.Algebra.Order.Field.Basic
import Mathlib.Algebra.Order.Field.Rat
import Mathlib.Data.Prod.Lex
import Mathlib.Data.Rat.Cast.Order

set_option autoImplicit false

/-!
# Prices as an order and as rates

With positive amounts the 128-bit products of `operator<` do not wrap, so valid prices are
ordered by market and then by their quotient (`Price.key`), and a conversion is what the price
is worth as a rate.

The order of the source compares the assets of base and quote first, so it is a lexicographic order
of market and quotient, and `lt_iff_key` says so for the operator on machine integers. Conversions
are exact up to rounding down, whichever side of the price the amount is on
(`Asset.mulPrice_worth`, `Asset.mulPrice_inv_worth`). The modules on the order book and on feeds
use prices through these lemmas only.
-/

namespace BtcmChain

namespace Price

/-- What `price::validate` asks for: positive amounts of two different assets. -/
structure Valid (p : Price) : Prop where
  base_pos : 0 < p.base.amount.toInt
  quote_pos : 0 < p.quote.amount.toInt
  market : p.base.assetId ≠ p.quote.assetId

variable {p q a b : Price}

theorem valid_iff : p.validate = .ok () ↔ p.Valid :=
  validate_ok.trans ⟨fun h => ⟨h.1, h.2.1, h.2.2⟩, fun h => ⟨h.1, h.2, h.3⟩⟩

theorem Valid.inv (h : p.Valid) : p.inv.Valid := ⟨h.quote_pos, h.base_pos, h.market.symm⟩

theorem make_ok {base quote : Asset} :
    make base quote = .ok p ↔ base.assetId ≠ quote.assetId ∧ p = ⟨base, quote⟩ := by
  simp only [make]
  split <;> simp_all [eq_comm]

/-! ## The order -/

theorem toNat_cross (ha : 0 ≤ a.base.amount.toInt) (hb : 0 ≤ b.quote.amount.toInt) :
    ((cross a b).toNat : ℤ) = b.quote.amount.toInt * a.base.amount.toInt := by
  have hlt : b.quote.amount.toInt.toNat * a.base.amount.toInt.toNat < 2 ^ 128 := by
    have h1 : b.quote.amount.toInt.toNat < 2 ^ 64 := by
      have hlt := b.quote.amount.toInt_lt
      omega
    have h2 : a.base.amount.toInt.toNat < 2 ^ 64 := by
      have hlt := a.base.amount.toInt_lt
      omega
    calc b.quote.amount.toInt.toNat * a.base.amount.toInt.toNat < 2 ^ 64 * 2 ^ 64 :=
          Nat.mul_lt_mul'' h1 h2
      _ = 2 ^ 128 := by norm_num
  unfold cross
  rw [BitVec.toNat_mul, UInt128.toNat_ofShare hb, UInt128.toNat_ofShare ha, Nat.mod_eq_of_lt hlt]
  push_cast
  rw [Int.toNat_of_nonneg ha, Int.toNat_of_nonneg hb]

/-- Prices with the same assets and no negative amounts are compared by value. -/
theorem lt_iff (hbase : a.base.assetId = b.base.assetId) (hquote : a.quote.assetId = b.quote.assetId)
    (ha : 0 ≤ a.base.amount.toInt ∧ 0 ≤ a.quote.amount.toInt)
    (hb : 0 ≤ b.base.amount.toInt ∧ 0 ≤ b.quote.amount.toInt) :
    a.lt b = true ↔ b.quote.amount.toInt * a.base.amount.toInt <
      a.quote.amount.toInt * b.base.amount.toInt := by
  have hab := toNat_cross ha.1 hb.2
  have hba := toNat_cross hb.1 ha.2
  unfold Price.lt
  rw [hbase, hquote]
  simp only [lt_irrefl, if_false, decide_eq_true_eq, BitVec.lt_def]
  omega

/-- The rate of a valid price, which asks its quote for its base. -/
def Valid.rate (h : p.Valid) : Rate := ⟨p.base.amount.toInt, p.quote.amount.toInt, h.base_pos, h.quote_pos⟩

/-- Base, quote, and what one unit of the quote costs. -/
def key (p : Price) : ℕ ×ₗ ℕ ×ₗ ℚ :=
  toLex (p.base.assetId, toLex (p.quote.assetId, (p.base.amount.toInt : ℚ) / p.quote.amount.toInt))

/-- Both amounts of the price are positive. -/
structure Positive (p : Price) : Prop where
  base_pos : 0 < p.base.amount.toInt
  quote_pos : 0 < p.quote.amount.toInt

theorem Valid.positive (h : p.Valid) : p.Positive := ⟨h.base_pos, h.quote_pos⟩

theorem Positive.inv (h : p.Positive) : p.inv.Positive := ⟨h.quote_pos, h.base_pos⟩

/-- What one unit of the quote costs in units of the base. -/
def ratio (p : Price) : ℚ := (p.base.amount.toInt : ℚ) / p.quote.amount.toInt

theorem ratio_lt_ratio (hp : p.Positive) (hq : q.Positive) :
    p.ratio < q.ratio ↔
      p.base.amount.toInt * q.quote.amount.toInt < q.base.amount.toInt * p.quote.amount.toInt := by
  unfold ratio
  rw [div_lt_div_iff₀ (by exact_mod_cast hp.quote_pos) (by exact_mod_cast hq.quote_pos)]
  exact_mod_cast Iff.rfl

theorem cross_lt_cross (hp : p.Positive) (hq : q.Positive) :
    cross p q < cross q p ↔ p.ratio < q.ratio := by
  have hpq := toNat_cross hp.base_pos.le hq.quote_pos.le
  have hqp := toNat_cross hq.base_pos.le hp.quote_pos.le
  rw [ratio_lt_ratio hp hq, BitVec.lt_def, ← mul_comm q.quote.amount.toInt,
    ← mul_comm p.quote.amount.toInt, ← hpq, ← hqp, Nat.cast_lt]

/-- `operator<` compares prices of one market by their ratio, and markets by their assets. -/
theorem Positive.lt_iff_key (hp : p.Positive) (hq : q.Positive) : p.lt q = true ↔ p.key < q.key := by
  show _ ↔ toLex (p.base.assetId, toLex (p.quote.assetId, p.ratio)) <
    toLex (q.base.assetId, toLex (q.quote.assetId, q.ratio))
  simp only [lt, Prod.Lex.toLex_lt_toLex, ← cross_lt_cross hp hq]
  rcases lt_trichotomy p.base.assetId q.base.assetId with hb | hb | hb
  · simp [hb]
  · rcases lt_trichotomy p.quote.assetId q.quote.assetId with hc | hc | hc
    · simp [hb, hc]
    · simp [hb, hc]
    · simp [hb, hc, hc.not_gt, hc.ne']
  · simp [hb, hb.not_gt, hb.ne']

theorem div_lt_div (hp : p.Valid) (hq : q.Valid) :
    (p.base.amount.toInt : ℚ) / p.quote.amount.toInt < (q.base.amount.toInt : ℚ) / q.quote.amount.toInt ↔
      p.base.amount.toInt * q.quote.amount.toInt < q.base.amount.toInt * p.quote.amount.toInt :=
  ratio_lt_ratio hp.positive hq.positive

/-- `operator<` is the order of the keys, for valid prices. -/
theorem lt_iff_key (hp : p.Valid) (hq : q.Valid) : p.lt q = true ↔ p.key < q.key :=
  hp.positive.lt_iff_key hq.positive

theorem not_lt_iff_key (hp : p.Valid) (hq : q.Valid) : p.lt q = false ↔ q.key ≤ p.key := by
  rw [← Bool.not_eq_true, lt_iff_key hp hq, not_lt]

/-- Two orders cross when neither asks for more than the other gives. -/
theorem meets_iff_key (hp : p.Valid) (hq : q.Valid) (hbase : p.inv.base.assetId = q.base.assetId)
    (hquote : p.inv.quote.assetId = q.quote.assetId) :
    hp.rate.Meets hq.rate ↔ p.inv.key ≤ q.key := by
  have hcancel : ¬ q.base.amount.toInt * p.base.amount.toInt <
      p.quote.amount.toInt * q.quote.amount.toInt ↔ hp.rate.Meets hq.rate := by
    rw [not_lt, mul_comm q.base.amount.toInt]
    exact Iff.rfl
  have hlt : q.key < p.inv.key ↔ q.base.amount.toInt * p.base.amount.toInt <
      p.quote.amount.toInt * q.quote.amount.toInt := by
    simp only [key, Prod.Lex.toLex_lt_toLex, div_lt_div hq hp.inv, hbase, hquote, lt_irrefl, true_and,
      false_or]
    exact Iff.rfl
  rw [← not_lt, hlt, hcancel]

/-- What is between two prices of a market is in that market. -/
theorem market_of_between (hpa : a.key ≤ p.key) (hpb : p.key ≤ b.key)
    (hbase : a.base.assetId = b.base.assetId) (hquote : a.quote.assetId = b.quote.assetId) :
    p.base.assetId = a.base.assetId ∧ p.quote.assetId = a.quote.assetId := by
  simp only [key, Prod.Lex.toLex_le_toLex] at hpa hpb
  rw [← hbase, ← hquote] at hpb
  show @Eq ℕ _ _ ∧ @Eq ℕ _ _
  rcases hpa with hpa | ⟨hpa, hpa' | ⟨hpa', -⟩⟩ <;> rcases hpb with hpb | ⟨hpb, hpb' | ⟨hpb', -⟩⟩ <;>
    omega

end Price

/-! ## Conversions -/

section Conversion

variable {amount num den r : ShareType}

/-- Nothing is delivered for a negative amount: the quotient does not fit. -/
theorem scale_nonneg (hn : 0 < num.toInt) (hd : 0 < den.toInt) (h : scale amount num den = .ok r) :
    0 ≤ amount.toInt := by
  simp only [scale, except_bind_ok, except_pure_ok, UInt128.div_ok, UInt128.toUInt64_ok] at h
  obtain ⟨_, ⟨-, rfl⟩, q, hq, -⟩ := h
  by_contra hneg
  have hmul : UInt128.ofShare amount * UInt128.ofShare num =
      BitVec.ofInt 128 (amount.toInt * num.toInt) := by
    rw [UInt128.ofShare, UInt128.ofShare, BitVec.ofInt_mul]
  have hlow : -2 ^ 126 ≤ amount.toInt * num.toInt := by
    have h1 := amount.le_toInt
    have h2 := num.toInt_lt
    nlinarith
  have hhigh : amount.toInt * num.toInt < 0 := mul_neg_of_neg_of_pos (not_le.mp hneg) hn
  have hden := den.toInt_lt
  have hqlt := q.toNat_lt
  rw [BitVec.toNat_udiv, hmul, BitVec.toNat_ofInt, UInt128.toNat_ofShare hd.le] at hq
  have hbig : 2 ^ 64 ≤ (amount.toInt * num.toInt % (2 ^ 128 : ℕ)).toNat / den.toInt.toNat := by
    rw [Nat.le_div_iff_mul_le (by omega)]
    have h1 : 2 ^ 64 * den.toInt.toNat ≤ 2 ^ 64 * 2 ^ 63 := Nat.mul_le_mul_left _ (by omega)
    omega
  omega

/-- No more is delivered by a scaling than the exact value. -/
theorem scale_le (ha : 0 ≤ amount.toInt) (hn : 0 ≤ num.toInt) (hd : 0 < den.toInt)
    (h : scale amount num den = .ok r) : r.toInt * den.toInt ≤ amount.toInt * num.toInt := by
  obtain ⟨q, hq, rfl⟩ := scale_ok ha hn hd h
  have hle : (ShareType.ofUInt64 q).toInt ≤ q.toNat := by
    rw [ShareType.toInt_ofUInt64]
    split <;> omega
  calc (ShareType.ofUInt64 q).toInt * den.toInt ≤ q.toNat * den.toInt :=
        mul_le_mul_of_nonneg_right hle hd.le
    _ ≤ amount.toInt * num.toInt := by
        rw [hq]
        exact Int.ediv_mul_le _ hd.ne'

end Conversion

/-- A conversion of what is sold gives what it is worth. -/
theorem Asset.mulPrice_worth {p : Price} {a : Asset} (hp : p.Valid) (ha : a.assetId = p.base.assetId)
    (hpos : 0 ≤ a.amount.toInt) (hfit : hp.rate.worth a.amount.toInt < 2 ^ 63) :
    ∃ c : Asset, a.mulPrice p = .ok c ∧ c.assetId = p.quote.assetId ∧
      c.amount.toInt = hp.rate.worth a.amount.toInt := by
  obtain ⟨r, hr, hval⟩ := scale_exact hpos hp.quote_pos.le hp.base_pos hfit
  refine ⟨⟨r, p.quote.assetId⟩, ?_, rfl, hval⟩
  have hbase : (0 : ShareType) < p.base.amount := by
    rw [Int64.lt_iff_toInt_lt, Int64.toInt_zero]
    exact hp.base_pos
  rw [Asset.mulPrice, if_pos ha, if_pos hbase, hr]
  rfl

/-- Multiplying with the quote's side of a price gives what the amount is worth the other way round.
-/
theorem Asset.mulPrice_inv_worth {p : Price} {a : Asset} (hp : p.Valid)
    (ha : a.assetId = p.quote.assetId) (hpos : 0 ≤ a.amount.toInt)
    (hfit : hp.rate.inv.worth a.amount.toInt < 2 ^ 63) :
    ∃ c : Asset, a.mulPrice p = .ok c ∧ c.assetId = p.base.assetId ∧
      c.amount.toInt = hp.rate.inv.worth a.amount.toInt := by
  obtain ⟨r, hr, hval⟩ := scale_exact hpos hp.base_pos.le hp.quote_pos hfit
  refine ⟨⟨r, p.base.assetId⟩, ?_, rfl, hval⟩
  have hquote : (0 : ShareType) < p.quote.amount := by
    rw [Int64.lt_iff_toInt_lt, Int64.toInt_zero]
    exact hp.quote_pos
  rw [Asset.mulPrice, if_neg (ha.trans_ne hp.market.symm), if_pos ha, if_pos hquote, hr]
  rfl

/-- What an amount is sold for is positive only if the amount is. -/
theorem Asset.worth_of_mulPrice {p : Price} {a c : Asset} (hp : p.Valid)
    (ha : a.assetId = p.base.assetId) (h : a.mulPrice p = .ok c) (hc : 0 < c.amount.toInt) :
    hp.rate.worth a.amount.toInt = c.amount.toInt := by
  have hbase : (0 : ShareType) < p.base.amount := by
    rw [Int64.lt_iff_toInt_lt, Int64.toInt_zero]
    exact hp.base_pos
  rw [Asset.mulPrice, if_pos ha, if_pos hbase, except_map_ok] at h
  obtain ⟨r, hr, rfl⟩ := h
  have hpos := scale_nonneg hp.quote_pos hp.base_pos hr
  obtain ⟨q, hq, rfl⟩ := scale_ok hpos hp.quote_pos.le hp.base_pos hr
  have hc : 0 < (ShareType.ofUInt64 q).toInt := hc
  rw [ShareType.toInt_ofUInt64] at hc
  have hlt := q.toNat_lt
  have hsmall : q.toNat < 2 ^ 63 := by
    by_contra hbig
    rw [if_neg hbig] at hc
    omega
  show hp.rate.worth a.amount.toInt = (ShareType.ofUInt64 q).toInt
  rw [ShareType.toInt_ofUInt64, if_pos hsmall, hq]
  rfl

end BtcmChain
