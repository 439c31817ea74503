import BtcmChain.Lib.Comparison
import BtcmChain.Sound.Prices

set_option autoImplicit false

/-!
# The operators of prices

The order of prices is the key of the order book and of the medians: on prices with positive amounts
the six operators agree, and within a market they compare ratios (`price_order_lawful`). Converting
an amount is exact as long as the result fits; the source checks for 64 bits and stores 63 of them
(`mulPrice_exact_iff`).

From the key (`Price.key`) the lemmas of `Lib.Comparison` give a strict weak order, its equivalence
and the meaning of the other operators, and taking the inverse of two prices of one market reverses
their order (`inv_lt_inv`). `Asset.Exact` says of a conversion that it delivers what the amount is
worth, and fails just if that does not fit 63 bits; `mulPrice_exact_iff` has the exact set of
amounts and prices for which this is so.
-/

namespace BtcmChain

namespace Price

variable {p q : Price}

/-- The comparison operators of `price`, as one family. -/
def comparison : Comparison Price := ⟨lt, le, gt, ge, eq, ne⟩

theorem Positive.cross_inj (hp : p.Positive) (hq : q.Positive) :
    cross p q = cross q p ↔ p.ratio = q.ratio := by
  have hlt := cross_lt_cross hp hq
  have hgt := cross_lt_cross hq hp
  rw [BitVec.lt_def] at hlt hgt
  rw [← BitVec.toNat_inj]
  constructor
  · intro h
    refine le_antisymm (not_lt.mp fun hr => ?_) (not_lt.mp fun hr => ?_)
    · exact absurd (hgt.mpr hr) (by omega)
    · exact absurd (hlt.mpr hr) (by omega)
  · intro h
    refine le_antisymm (not_lt.mp fun hr => ?_) (not_lt.mp fun hr => ?_)
    · exact absurd (hgt.mp hr) (by rw [h]; exact lt_irrefl _)
    · exact absurd (hlt.mp hr) (by rw [h]; exact lt_irrefl _)

/-- `operator==` is equality of the keys, for prices of positive amounts. -/
theorem Positive.eq_iff_key (hp : p.Positive) (hq : q.Positive) : p.eq q = true ↔ p.key = q.key := by
  show _ ↔ toLex (p.base.assetId, toLex (p.quote.assetId, p.ratio)) =
    toLex (q.base.assetId, toLex (q.quote.assetId, q.ratio))
  simp only [eq, Bool.and_eq_true, decide_eq_true_eq, hp.cross_inj hq, toLex_inj, Prod.mk.injEq,
    and_assoc]

/-- Two prices of a market, turned around, compare the other way round. -/
theorem inv_lt_inv (hbase : p.base.assetId = q.base.assetId) (hquote : p.quote.assetId = q.quote.assetId) :
    q.inv.lt p.inv = p.lt q := by
  have hpq : cross q.inv p.inv = cross p q := BitVec.mul_comm _ _
  have hqp : cross p.inv q.inv = cross q p := BitVec.mul_comm _ _
  have hb : q.inv.base.assetId = p.inv.base.assetId := hquote.symm
  have hq : q.inv.quote.assetId = p.inv.quote.assetId := hbase.symm
  simp only [lt, hpq, hqp, hb, hq, hbase, hquote, lt_irrefl, if_false]

/-- `operator<=` compares the products, for prices of one market without negative amounts. -/
theorem le_iff (hbase : p.base.assetId = q.base.assetId) (hquote : p.quote.assetId = q.quote.assetId)
    (hp : 0 ≤ p.base.amount.toInt ∧ 0 ≤ p.quote.amount.toInt)
    (hq : 0 ≤ q.base.amount.toInt ∧ 0 ≤ q.quote.amount.toInt) :
    p.le q = true ↔ q.quote.amount.toInt * p.base.amount.toInt ≤
      p.quote.amount.toInt * q.base.amount.toInt := by
  have hpq := toNat_cross hp.1 hq.2
  have hqp := toNat_cross hq.1 hp.2
  rw [le, Bool.or_eq_true, lt_iff hbase hquote hp hq]
  simp only [eq, hbase, hquote, decide_true, Bool.true_and, decide_eq_true_eq, ← BitVec.toNat_inj]
  omega

end Price

/-- **Prices with positive amounts are ordered** by the operators, up to `==`; those of one market
by the ratio of their amounts, no product of which overflows, and the other way round once both are
turned around. -/
theorem price_order_lawful :
    Price.comparison.Lawful Price.Positive ∧
    ∀ p q : Price, p.Positive → q.Positive →
      p.base.assetId = q.base.assetId → p.quote.assetId = q.quote.assetId →
      ((Price.cross p q).toNat : ℤ) = q.quote.amount.toInt * p.base.amount.toInt ∧
      ((Price.cross q p).toNat : ℤ) = p.quote.amount.toInt * q.base.amount.toInt ∧
      (p.lt q = true ↔ p.ratio < q.ratio) ∧ (p.eq q = true ↔ p.ratio = q.ratio) ∧
      (q.inv.lt p.inv = true ↔ p.lt q = true) := by
  refine ⟨.of_key Price.key (fun p q hp hq => hp.lt_iff_key hq) (fun p q hp hq => hp.eq_iff_key hq)
    (fun _ _ => rfl) (fun _ _ => rfl) (fun _ _ => rfl) fun _ _ => rfl, ?_⟩
  intro p q hp hq hbase hquote
  have hlt : p.lt q = true ↔ p.ratio < q.ratio := by
    simp only [Price.lt, hbase, hquote, lt_irrefl, if_false, decide_eq_true_eq,
      Price.cross_lt_cross hp hq]
  have heq : p.eq q = true ↔ p.ratio = q.ratio := by
    simp [Price.eq, hbase, hquote, hp.cross_inj hq]
  exact ⟨Price.toNat_cross hp.base_pos.le hq.quote_pos.le,
    Price.toNat_cross hq.base_pos.le hp.quote_pos.le, hlt, heq, by
      rw [Price.inv_lt_inv hbase hquote]⟩

/-- One BTCM for three XUSD is less than one for two, and two XUSD for one BTCM less than three. -/
theorem thirds_below_halves :
    Price.lt ⟨btcm 1, xusd 3⟩ ⟨btcm 1, xusd 2⟩ = true ∧
    (Price.lt ⟨xusd 2, btcm 1⟩ ⟨xusd 3, btcm 1⟩ = true ↔
      Price.lt ⟨btcm 1, xusd 3⟩ ⟨btcm 1, xusd 2⟩ = true) :=
  ⟨by decide, (price_order_lawful.2 ⟨btcm 1, xusd 3⟩ ⟨btcm 1, xusd 2⟩ ⟨by decide, by decide⟩
    ⟨by decide, by decide⟩ rfl rfl).2.2.2.2⟩

/-! ## Conversions -/

section Conversion

variable {amount num den r : ShareType}

/-- A conversion succeeds as long as the exact value fits 64 bits. -/
theorem scale_ok_iff (ha : 0 ≤ amount.toInt) (hn : 0 ≤ num.toInt) (hd : 0 < den.toInt) :
    scale amount num den = .ok r ↔
      ∃ q : UInt64, (q.toNat : ℤ) = amount.toInt * num.toInt / den.toInt ∧ r = .ofUInt64 q := by
  constructor
  · exact scale_ok ha hn hd
  · rintro ⟨q, hq, rfl⟩
    have hprod : amount.toInt.toNat * num.toInt.toNat < 2 ^ 128 := by
      have h1 : amount.toInt.toNat < 2 ^ 64 := by
        have hlt := amount.toInt_lt
        omega
      have h2 : num.toInt.toNat < 2 ^ 64 := by
        have hlt := num.toInt_lt
        omega
      calc amount.toInt.toNat * num.toInt.toNat < 2 ^ 64 * 2 ^ 64 := Nat.mul_lt_mul'' h1 h2
        _ = 2 ^ 128 := by norm_num
    have hnat : (UInt128.ofShare amount * UInt128.ofShare num / UInt128.ofShare den).toNat = q.toNat := by
      rw [BitVec.toNat_udiv, BitVec.toNat_mul, UInt128.toNat_ofShare ha, UInt128.toNat_ofShare hn,
        UInt128.toNat_ofShare hd.le, Nat.mod_eq_of_lt hprod]
      zify
      rw [hq, Int.toNat_of_nonneg ha, Int.toNat_of_nonneg hn, Int.toNat_of_nonneg hd.le]
    have hzero : UInt128.ofShare den ≠ 0 := by
      intro h
      have hden : (UInt128.ofShare den).toNat = 0 := by rw [h]; rfl
      rw [UInt128.toNat_ofShare hd.le] at hden
      omega
    simp only [scale, except_bind_ok, except_pure_ok]
    exact ⟨_, UInt128.div_ok.mpr ⟨hzero, rfl⟩, q, UInt128.toUInt64_ok.mpr hnat.symm, rfl⟩

end Conversion

/-- The side of a price an amount counts, and the other one. -/
def Price.sides (p : Price) (id : AssetId) : Asset × Asset :=
  if id = p.base.assetId then (p.base, p.quote) else (p.quote, p.base)

/-- What an amount is worth at a price, rounded down. -/
def Asset.worthAt (a : Asset) (p : Price) : ℤ :=
  a.amount.toInt * (p.sides a.assetId).2.amount.toInt / (p.sides a.assetId).1.amount.toInt

/-- Converting the amount delivers what it is worth, and fails only if that does not fit. -/
structure Asset.Exact (a : Asset) (p : Price) : Prop where
  delivers : ∀ r, a.mulPrice p = .ok r → r.assetId = (p.sides a.assetId).2.assetId ∧
    r.amount.toInt = a.worthAt p ∧ 0 ≤ r.amount.toInt ∧ r.amount.toInt < 2 ^ 63
  throws : (∃ e, a.mulPrice p = .error e) ↔ 2 ^ 63 ≤ a.worthAt p

/-- `asset * price` is a conversion of one side into the other. -/
theorem Asset.mulPrice_eq_scale {a : Asset} {p : Price} (hp : p.Positive)
    (ha : a.assetId = p.base.assetId ∨ a.assetId = p.quote.assetId) :
    a.mulPrice p = (⟨·, (p.sides a.assetId).2.assetId⟩) <$>
      scale a.amount (p.sides a.assetId).2.amount (p.sides a.assetId).1.amount := by
  have hpos : ∀ x : ShareType, 0 < x.toInt → 0 < x := by
    intro x hx
    rwa [Int64.lt_iff_toInt_lt, Int64.toInt_zero]
  unfold Asset.mulPrice Price.sides
  by_cases hbase : a.assetId = p.base.assetId
  · rw [if_pos hbase, if_pos (hpos _ hp.base_pos), if_pos hbase]
  · rw [if_neg hbase, if_pos (ha.resolve_left hbase), if_pos (hpos _ hp.quote_pos), if_neg hbase]

/-- **`asset * price` is exact** but for values that fit 64 bits and not 63. -/
theorem mulPrice_exact_iff {a : Asset} {p : Price} (ha : 0 ≤ a.amount.toInt) (hp : p.Valid)
    (hasset : a.assetId = p.base.assetId ∨ a.assetId = p.quote.assetId) :
    a.Exact p ↔ a.worthAt p < 2 ^ 63 ∨ 2 ^ 64 ≤ a.worthAt p := by
  have hin : 0 < (p.sides a.assetId).1.amount.toInt := by
    unfold Price.sides
    split
    · exact hp.base_pos
    · exact hp.quote_pos
  have hout : 0 < (p.sides a.assetId).2.amount.toInt := by
    unfold Price.sides
    split
    · exact hp.quote_pos
    · exact hp.base_pos
  have hnonneg : 0 ≤ a.worthAt p := Int.ediv_nonneg (mul_nonneg ha hout.le) hin.le
  have hscale := fun r => scale_ok_iff (r := r) ha hout.le hin
  have hmul := Asset.mulPrice_eq_scale hp.positive hasset
  -- a value that fits 64 bits is read as signed
  have hfits : a.worthAt p < 2 ^ 64 → ∃ q : UInt64, (q.toNat : ℤ) = a.worthAt p ∧
      a.mulPrice p = .ok ⟨.ofUInt64 q, (p.sides a.assetId).2.assetId⟩ := by
    intro hlt
    have hq : ((UInt64.ofNat (a.worthAt p).toNat).toNat : ℤ) = a.worthAt p := by
      rw [UInt64.toNat_ofNat_of_lt' (by show _ < 2 ^ 64; omega)]
      omega
    refine ⟨_, hq, ?_⟩
    rw [hmul, (hscale _).mpr ⟨_, hq, rfl⟩]
    rfl
  have hlarge : 2 ^ 64 ≤ a.worthAt p → ∃ e, a.mulPrice p = .error e := by
    intro hle
    cases hr : a.mulPrice p with
    | error e => exact ⟨e, rfl⟩
    | ok r =>
        rw [hmul, except_map_ok] at hr
        obtain ⟨x, hx, -⟩ := hr
        obtain ⟨q, hq, -⟩ := (hscale x).mp hx
        have hlt := q.toNat_lt
        have hq : (q.toNat : ℤ) = a.worthAt p := hq
        omega
  constructor
  · intro h
    by_contra hno
    obtain ⟨hlow, hhigh⟩ := not_or.mp hno
    obtain ⟨q, hq, hok⟩ := hfits (by omega)
    obtain ⟨e, he⟩ := h.throws.mpr (by omega)
    rw [hok] at he
    cases he
  · rintro (hlow | hhigh)
    · obtain ⟨q, hq, hok⟩ := hfits (by omega)
      refine ⟨fun r hr => ?_, ⟨fun ⟨e, he⟩ => ?_, fun hge => absurd hlow (by omega)⟩⟩
      · obtain rfl := Except.ok.inj (hok.symm.trans hr)
        have hval : (ShareType.ofUInt64 q).toInt = a.worthAt p := by
          rw [ShareType.toInt_ofUInt64, if_pos (by omega), hq]
        exact ⟨rfl, hval, by rw [hval]; exact hnonneg, by rw [hval]; exact hlow⟩
      · rw [hok] at he
        cases he
    · obtain ⟨e, he⟩ := hlarge hhigh
      refine ⟨fun r hr => ?_, ⟨fun _ => by omega, fun _ => ⟨e, he⟩⟩⟩
      rw [he] at hr
      cases hr

/-- Three BTCM, at a price of one for two, are six XUSD exactly. -/
theorem three_for_six : Asset.Exact (btcm 3) ⟨btcm 1, xusd 2⟩ := by
  have hprice : Price.Valid ⟨btcm 1, xusd 2⟩ := ⟨by decide, by decide, by decide⟩
  have hasset : (btcm 3).assetId = (⟨btcm 1, xusd 2⟩ : Price).base.assetId := rfl
  exact (mulPrice_exact_iff (by decide) hprice (.inl hasset)).mpr (.inl (by decide))

/-- 2^62 BTCM, at a price of one for two, come out as -2^63 XUSD. -/
theorem doubled_amount_negative :
    (btcm 4611686018427387904).mulPrice ⟨btcm 1, xusd 2⟩ = .ok (xusd (-9223372036854775808)) ∧
    ¬ ∀ (a : Asset) (p : Price), 0 ≤ a.amount.toInt → p.Valid →
      (a.assetId = p.base.assetId ∨ a.assetId = p.quote.assetId) → a.Exact p := by
  have hneg : (btcm 4611686018427387904).mulPrice ⟨btcm 1, xusd 2⟩ =
      .ok (xusd (-9223372036854775808)) := by decide +kernel
  refine ⟨hneg, fun hclaim => ?_⟩
  have hexact := hclaim (btcm 4611686018427387904) ⟨btcm 1, xusd 2⟩ (by decide)
    ⟨by decide, by decide, by decide⟩ (.inl rfl)
  exact absurd (hexact.delivers _ hneg).2.2.1 (by decide)

end BtcmChain
