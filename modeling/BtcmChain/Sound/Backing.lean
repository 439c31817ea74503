import BtcmChain.Sound.FeedMedian
import BtcmChain.Sound.PriceOrder

set_option autoImplicit false

/-!
# What stands behind XUSD

The effective median is never below nineteen times the XUSD supply over the BTCM supply, so all XUSD
together are worth at most a nineteenth of the BTCM (`backing_limit`). At the end of a block the
virtual supply counts them at that price (`virtual_supply_at_block_end`).

The bound on the median is applied whenever the feeds are evaluated, at the supplies of that
moment. `AtLeast` and `IsLarger` compare prices by cross multiplication, as the quotes may be zero.
`xusd_is_backed` has both halves: an update that records a price while there is XUSD leaves
`Database.Backed`, and behind every block the virtual supply counts the XUSD at the effective
median (`Database.VirtualSupplyOk`). At the first feed conversions are at par, which is the
example.
-/

namespace BtcmChain

/-! ## What has been published -/

/-- Who is scheduled exists, and only feeds have been published and recorded. -/
structure Published (s : Database) : Prop where
  rates : RatesOk s.rates
  history : ∀ p ∈ s.feedHistory.priceHistory, p.IsFeed

theorem Published.congr {s s' : Database} (h : Published s) (hr : s'.rates = s.rates)
    (hf : s'.feedHistory = s.feedHistory) : Published s' :=
  ⟨hr ▸ h.rates, hf ▸ h.history⟩

/-- The median of the window is a feed that some witness has published. -/
theorem Published.updateMedianFeed {s s' : Database} (h : Published s)
    (hr : Runs updateMedianFeed s () s') : Published s' := by
  rcases (runs_updateMedianFeed h.rates).mp hr with ⟨-, feed, hfeed, hrecord⟩ | ⟨-, rfl⟩
  · refine ⟨Writes.rates_eq hr (by decide) ▸ h.rates, ?_⟩
    obtain ⟨recent, median, effective, rfl, -, -, rfl⟩ := runs_recordFeed.mp hrecord
    exact window_isFeed h.history (isFeed_of_mem_currentRates h.rates (mem_of_medianPrice hfeed))
  · exact h

section Runs

variable [Externals]

/-- Along every run, the prices that are in effect go back to feeds that witnesses have published.
-/
theorem PiecewiseIf.published {C : Database → Part → Prop} {s : Database} (h : PiecewiseIf C s) :
    Published s := by
  induction h with
  | genesis h =>
      have hok := initGenesis_pricesOk h
      exact ⟨hok.rates, fun p hp => (hok.feeds.history p hp).1⟩
  | @move m s s' hs hne hm ih =>
      refine (Move.run_induction (P := Published) (C := fun _ => True)
        (fun s x h => ⟨h.rates, h.history⟩) ?_ ?_ ?_ ?_ ?_ hs.proposalsValid (fun _ _ => trivial) ih hm).1
      · exact fun push op s s' hop hv _ hP h =>
          ⟨evaluate_ratesOk hop hv hP.rates h, evaluate_feedHistory hop h ▸ hP.history⟩
      · exact fun b s s' hP h =>
          hP.congr (Writes.rates_eq h (by decide)) (Writes.feeds_eq h (by decide))
      · exact fun b s s' hP h =>
          hP.congr (Writes.rates_eq h (by decide)) (Writes.feeds_eq h (by decide))
      · exact fun hsettle => absurd hsettle hne
      · exact fun s s' hP h =>
          hP.congr (Writes.rates_eq h (by decide)) (Writes.feeds_eq h (by decide))
  | @part p s s' hs hC hp ih =>
      by_cases hfeed : p = .medianFeed
      · subst hfeed
        exact ih.updateMedianFeed hp
      by_cases hsched : p = .schedule
      · subst hsched
        have hp : Runs updateWitnessSchedule s () s' := hp
        exact ⟨updateWitnessSchedule_ratesOk ih.rates hp,
          Writes.feeds_eq hp (by decide) ▸ ih.history⟩
      have hwrites := Part.writes hfeed hsched
      exact ih.congr (Writes.rates_eq hp (by decide)) (Writes.feeds_eq hp (by decide))

end Runs

/-! ## The limit -/

namespace Price

variable {e m p q : Price}

/-- The price with XUSD first, whichever way it was stored. -/
def inXusd (p : Price) : Price := if p.base.assetId ≠ XUSD_SYMBOL then p.inv else p

theorem IsFeed.inXusd_spec (h : p.IsFeed) : p.inXusd.base.assetId = XUSD_SYMBOL ∧
    p.inXusd.quote.assetId = BTCM_SYMBOL ∧ p.inXusd.Positive := by
  obtain ⟨⟨hb, hq⟩ | ⟨hb, hq⟩, hb0, hq0⟩ := h
  · rw [inXusd, if_pos (by rw [hb]; decide)]
    exact ⟨hq, hb, hq0, hb0⟩
  · rw [inXusd, if_neg (not_not.mpr hb)]
    exact ⟨hb, hq, hb0, hq0⟩

/-- No less of the base for the quote; the quotes may be zero. -/
def AtLeast (p q : Price) : Prop :=
  q.base.amount.toInt * p.quote.amount.toInt ≤ p.base.amount.toInt * q.quote.amount.toInt

structure IsLarger (e p q : Price) : Prop where
  one : e = p ∨ e = q
  first : e.AtLeast p
  second : e.AtLeast q

end Price

section Limit

variable {supply : GlobalSupply} {m e : Price}

theorem limitMedian_ok (hpos : 0 < supply.currentMbdSupply.toInt) :
    limitMedian supply m = .ok e ↔ ∃ limit : ShareType,
      limit.toInt = 19 * supply.currentMbdSupply.toInt ∧
      e = if !Price.le ⟨xusd limit, btcm supply.currentSupply⟩ m.inXusd
        then ⟨xusd limit, btcm supply.currentSupply⟩ else m.inXusd := by
  have hpos : 0 < supply.currentMbdSupply := by rwa [Int64.lt_iff_toInt_lt, Int64.toInt_zero]
  rw [limitMedian, if_pos hpos]
  simp only [except_bind_ok, except_pure_ok, safeMul_ok]
  constructor
  · rintro ⟨limit, hlimit, rfl⟩
    exact ⟨limit, hlimit, rfl⟩
  · rintro ⟨limit, hlimit, rfl⟩
    exact ⟨limit, hlimit, rfl⟩

/-- Without XUSD there is no limit on the price, so the median stays as it is. -/
theorem limitMedian_of_none (hnone : supply.currentMbdSupply.toInt ≤ 0) : limitMedian supply m = .ok m := by
  rw [limitMedian, if_neg]
  rw [Int64.lt_iff_toInt_lt, Int64.toInt_zero]
  exact not_lt.mpr hnone

/-- The limited median is the larger one of the median and the limit. -/
theorem limitMedian_isLarger (hm : m.IsFeed) (hsupply : 0 ≤ supply.currentSupply.toInt)
    (hpos : 0 < supply.currentMbdSupply.toInt) (h : limitMedian supply m = .ok e) :
    ∃ limit : ShareType, limit.toInt = 19 * supply.currentMbdSupply.toInt ∧
      e.IsLarger m.inXusd ⟨xusd limit, btcm supply.currentSupply⟩ := by
  obtain ⟨limit, hlimit, rfl⟩ := (limitMedian_ok hpos).mp h
  obtain ⟨hbase, hquote, hb, hq⟩ := hm.inXusd_spec
  have hle := Price.le_iff (p := ⟨xusd limit, btcm supply.currentSupply⟩) (q := m.inXusd)
    hbase.symm hquote.symm ⟨by rw [xusd_amount]; omega, hsupply⟩ ⟨hb.le, hq.le⟩
  rw [xusd_amount, btcm_amount] at hle
  refine ⟨limit, hlimit, ?_⟩
  split
  case isTrue hbelow =>
    rw [Bool.not_eq_true', ← Bool.not_eq_true, hle, not_le] at hbelow
    refine ⟨.inr rfl, ?_, le_refl _⟩
    show m.inXusd.base.amount.toInt * supply.currentSupply.toInt ≤
      limit.toInt * m.inXusd.quote.amount.toInt
    linarith
  case isFalse habove =>
    rw [Bool.not_eq_true', ← Bool.not_eq_true, not_not, hle] at habove
    refine ⟨.inl rfl, le_refl _, ?_⟩
    show limit.toInt * m.inXusd.quote.amount.toInt ≤
      m.inXusd.base.amount.toInt * supply.currentSupply.toInt
    linarith

/-- At a price no lower than the limit, all XUSD are worth a nineteenth of the BTCM at most. -/
theorem worth_le_of_atLeast {limit : ShareType} (hlimit : limit.toInt = 19 * supply.currentMbdSupply.toInt)
    (hpos : 0 < supply.currentMbdSupply.toInt) (hbase : e.base.assetId = XUSD_SYMBOL)
    (hquote : e.quote.assetId = BTCM_SYMBOL) (hb : 0 < e.base.amount.toInt)
    (hq : 0 ≤ e.quote.amount.toInt) (hle : e.AtLeast ⟨xusd limit, btcm supply.currentSupply⟩) :
    ∃ worth, (xusd supply.currentMbdSupply).mulPrice e = .ok (btcm worth) ∧ 0 ≤ worth.toInt ∧
      worth.toInt ≤ supply.currentSupply.toInt / 19 := by
  have hle : limit.toInt * e.quote.amount.toInt ≤ e.base.amount.toInt * supply.currentSupply.toInt := hle
  have hvalue : supply.currentMbdSupply.toInt * e.quote.amount.toInt / e.base.amount.toInt ≤
      supply.currentSupply.toInt / 19 := by
    rw [Int.le_ediv_iff_mul_le (by norm_num)]
    refine le_of_mul_le_mul_right ?_ hb
    calc supply.currentMbdSupply.toInt * e.quote.amount.toInt / e.base.amount.toInt * 19 *
          e.base.amount.toInt
        = 19 * (supply.currentMbdSupply.toInt * e.quote.amount.toInt / e.base.amount.toInt *
          e.base.amount.toInt) := by ring
      _ ≤ 19 * (supply.currentMbdSupply.toInt * e.quote.amount.toInt) :=
        mul_le_mul_of_nonneg_left (Int.ediv_mul_le _ hb.ne') (by norm_num)
      _ = limit.toInt * e.quote.amount.toInt := by rw [hlimit]; ring
      _ ≤ supply.currentSupply.toInt * e.base.amount.toInt := by rw [mul_comm supply.currentSupply.toInt]; exact hle
  have hlt := supply.currentSupply.toInt_lt
  obtain ⟨worth, hworth, hval⟩ := scale_exact hpos.le hq hb (by omega)
  refine ⟨worth, ?_, ?_, ?_⟩
  · have hbpos : 0 < e.base.amount := by rwa [Int64.lt_iff_toInt_lt, Int64.toInt_zero]
    rw [Asset.mulPrice, if_pos (show (xusd _).assetId = e.base.assetId from hbase.symm), if_pos hbpos,
      xusd_amount, hworth, hquote]
    rfl
  · rw [hval]
    exact Int.ediv_nonneg (mul_nonneg hpos.le hq) hb.le
  · rw [hval]
    exact hvalue

end Limit

/-! ## The effective median and the virtual supply -/

/-- The effective median is the larger of the median, XUSD first, and nineteen times the XUSD supply
over the BTCM supply. All XUSD are worth at most a nineteenth of the BTCM, which is a twentieth of
both. -/
structure Database.Backed (s : Database) : Prop where
  larger : ∃ limit : ShareType, limit.toInt = 19 * s.dgpo.currentMbdSupply.toInt ∧
    s.feedHistory.effectiveMedianHistory.IsLarger s.feedHistory.actualMedianHistory.inXusd
      ⟨xusd limit, btcm s.dgpo.currentSupply⟩
  covered : ∃ worth,
    (xusd s.dgpo.currentMbdSupply).mulPrice s.feedHistory.effectiveMedianHistory = .ok (btcm worth) ∧
    0 ≤ worth.toInt ∧ worth.toInt ≤ s.dgpo.currentSupply.toInt / 19 ∧
    20 * worth.toInt ≤ s.dgpo.currentSupply.toInt + worth.toInt

theorem recordFeed_backed {s s' : Database} {feed : Price} (h : Published s) (hfeed : feed.IsFeed)
    (hsupply : 0 ≤ s.dgpo.currentSupply.toInt) (hpos : 0 < s.dgpo.currentMbdSupply.toInt)
    (hr : Runs (recordFeed feed) s () s') : s'.Backed := by
  obtain ⟨recent, median, effective, rfl, hmedian, heff, rfl⟩ := runs_recordFeed.mp hr
  have hm : median.IsFeed := window_isFeed h.history hfeed median (mem_of_medianPrice hmedian)
  obtain ⟨hbase, hquote, hb, hq⟩ := hm.inXusd_spec
  obtain ⟨limit, hlimit, hlarger⟩ := limitMedian_isLarger hm hsupply hpos heff
  refine ⟨⟨limit, hlimit, hlarger⟩, ?_⟩
  have hspec : effective.base.assetId = XUSD_SYMBOL ∧ effective.quote.assetId = BTCM_SYMBOL ∧
      0 < effective.base.amount.toInt ∧ 0 ≤ effective.quote.amount.toInt := by
    rcases hlarger.one with rfl | rfl
    · exact ⟨hbase, hquote, hb, hq.le⟩
    · refine ⟨rfl, rfl, ?_, hsupply⟩
      show 0 < limit.toInt
      omega
  obtain ⟨hbase, hquote, hb, hq⟩ := hspec
  obtain ⟨worth, hworth, hnonneg, hle⟩ :=
    worth_le_of_atLeast hlimit hpos hbase hquote hb hq hlarger.second
  exact ⟨worth, hworth, hnonneg, hle, by show 20 * worth.toInt ≤ s.dgpo.currentSupply.toInt + _; omega⟩

/-- The virtual supply counts the XUSD at the effective median, if there is one. -/
def Database.VirtualSupplyOk (s : Database) : Prop :=
  s.feedHistory.effectiveMedianHistory.isNull = false → ∃ worth,
    (xusd s.dgpo.currentMbdSupply).mulPrice s.feedHistory.effectiveMedianHistory = .ok (btcm worth) ∧
    s.dgpo.virtualSupply.toInt = s.dgpo.currentSupply.toInt + worth.toInt

theorem updateVirtualSupply_ok {s s' : Database} (h : Runs updateVirtualSupply s () s') :
    s'.VirtualSupplyOk := by
  simp only [updateVirtualSupply, runs_bind_reads] at h
  obtain ⟨p, hp, rfl⟩ := runs_modifySupply.mp h
  intro hset
  have hset : s.feedHistory.effectiveMedianHistory.isNull = false := hset
  simp only [hset, Bool.false_eq_true, if_false, except_bind_ok, except_pure_ok, Asset.amountOf_ok] at hp
  obtain ⟨worth, hworth, total, htotal, x, ⟨-, rfl⟩, rfl⟩ := hp
  simp only [Asset.add, except_bind_ok, except_pure_ok, Asset.sameAsset_ok, safeAdd_ok] at htotal
  obtain ⟨-, hbtcm, sum, hsum, rfl⟩ := htotal
  obtain ⟨y, id⟩ := worth
  obtain rfl : BTCM_SYMBOL = id := hbtcm
  exact ⟨y, hworth, hsum⟩

section Blocks

variable [Externals]

/-- What comes after the last update touches neither supplies nor feeds. -/
theorem applyBlock_virtualSupplyOk {b : SignedBlock} {s s' : Database}
    (h : Runs (applyBlock b) s () s') : s'.VirtualSupplyOk := by
  simp only [applyBlock, finishBlock, runs_bind] at h
  obtain ⟨_, t1, -, _, t2, -, _, t3, -, _, t4, -, _, t5, -, _, t6, -, _, t7, hsettle, hrecover⟩ := h
  simp only [settleBlock, runs_bind] at hsettle
  obtain ⟨_, u1, -, _, u2, -, _, u3, -, _, u4, -, _, u5, -, c, u6, -, w, u7, -, _, u8, -, _, u9, -,
    p, u10, -, _, u11, -, _, u12, -, hlast⟩ := hsettle
  have hok := updateVirtualSupply_ok hlast
  have hfunds : s'.funds = t7.funds := Writes.funds_eq hrecover (by decide)
  have hsupply : s'.dgpo.toGlobalSupply = t7.dgpo.toGlobalSupply := congrArg (·.supply) hfunds
  have hfeeds : s'.feedHistory = t7.feedHistory := Writes.feeds_eq hrecover (by decide)
  unfold Database.VirtualSupplyOk
  rw [hfeeds, hsupply]
  exact hok

/-- **XUSD is backed.** Whenever an update of the median records a price while there is XUSD, the
effective median is limited, `adjust_supply` asserting that the BTCM supply is not negative; and at
the end of every block the virtual supply counts the XUSD at that price. -/
theorem xusd_is_backed :
    (∀ s s' : Database, PiecewiseIf (fun _ _ => True) s → 0 ≤ s.dgpo.currentSupply.toInt →
      0 < s.dgpo.currentMbdSupply.toInt → s.dgpo.headBlockNumber % 1200 = 0 → s.currentRates ≠ [] →
      Runs updateMedianFeed s () s' → s'.Backed) ∧
    ∀ (b : SignedBlock) (s s' : Database), Runs (applyBlock b) s () s' → s'.VirtualSupplyOk := by
  refine ⟨fun s s' hs hsupply hpos hdue hfeeds h => ?_, fun b s s' h => applyBlock_virtualSupplyOk h⟩
  have hp := hs.published
  rcases (runs_updateMedianFeed hp.rates).mp h with ⟨-, feed, hfeed, hr⟩ | ⟨hnot, -⟩
  · exact recordFeed_backed hp (isFeed_of_mem_currentRates hp.rates (mem_of_medianPrice hfeed))
      hsupply hpos hr
  · exact absurd hnot (not_or.mpr ⟨not_not.mpr hdue, hfeeds⟩)

end Blocks

section Samples

open Sample

/-- At the first feed 5000 of 1000000 BTCM are converted at par, and the median is updated again. -/
theorem par_conversion_is_backed : ∃ s s' : Database, PiecewiseIf (fun _ _ => True) s ∧
    s.dgpo.currentMbdSupply.toInt = 5000 ∧ Runs updateMedianFeed s () s' ∧ s'.Backed := by
  have hrun : leadsTo (initGenesis richGenesis) {} (fun s =>
      leadsTo (Move.operation (.feedPublish "initminer1" parFeed)).run s fun t =>
      leadsTo updateMedianFeed t fun u =>
      leadsTo (Move.operation (.convert "initminer" 1 (btcm 5000))).run u fun v =>
      decide (v.dgpo.currentSupply = 995000 ∧ v.dgpo.currentMbdSupply = 5000 ∧
        v.dgpo.headBlockNumber % 1200 = 0 ∧ v.currentRates ≠ []) &&
      leadsTo updateMedianFeed v fun _ => true) = true := by
    decide +kernel
  obtain ⟨s, hs, hrun⟩ := leadsTo_iff.mp hrun
  obtain ⟨t, ht, hrun⟩ := leadsTo_iff.mp hrun
  obtain ⟨u, hu, hrun⟩ := leadsTo_iff.mp hrun
  obtain ⟨v, hv, hrun⟩ := leadsTo_iff.mp hrun
  rw [Bool.and_eq_true] at hrun
  obtain ⟨hstate, hrun⟩ := hrun
  obtain ⟨w, hw, -⟩ := leadsTo_iff.mp hrun
  obtain ⟨hsupply, hmbd, hdue, hfeeds⟩ := of_decide_eq_true hstate
  have hur : PiecewiseIf (fun _ _ => True) u :=
    .part (p := .medianFeed) (.move (.genesis hs) (fun h => by cases h) ht) trivial hu
  have hvr : PiecewiseIf (fun _ _ => True) v := .move hur (fun h => by cases h) hv
  have hxusd : v.dgpo.currentMbdSupply.toInt = 5000 := by rw [hmbd]; decide
  refine ⟨v, w, hvr, hxusd, hw, xusd_is_backed.1 v w hvr ?_ ?_ hdue hfeeds hw⟩
  · rw [hsupply]
    decide
  · rw [hxusd]
    decide

end Samples

end BtcmChain
