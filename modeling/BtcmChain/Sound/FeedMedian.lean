import BtcmChain.Sound.PriceFeeds

set_option autoImplicit false

/-!
# Which feed is in the middle

Feeds are sorted with `operator<`, which compares assets before values: first come the feeds that
quote BTCM in XUSD, the highest rate first, then those that quote XUSD in BTCM, the lowest rate
first. Their middle is a median of the rates only if the feeds of one kind happen to lie right
(`median_by_rate_iff`). How old a feed is makes no difference, so feeds that were given up long ago
still count (`stale_feeds_iff`).
-/

namespace BtcmChain

namespace Price

variable {p q : Price}

theorem IsFeed.valid (h : p.IsFeed) : p.Valid := ⟨h.2.1, h.2.2, h.ne⟩

/-- The feed offers BTCM for XUSD, rather than the other way round. -/
def quotesBtcm (p : Price) : Bool := p.base.assetId = BTCM_SYMBOL

/-- How much XUSD the feed gives for one BTCM, whichever way it quotes. -/
def xusdPerBtcm (p : Price) : ℚ := if p.quotesBtcm then p.inv.ratio else p.ratio

theorem IsFeed.base_of_quotesBtcm (h : p.IsFeed) (hp : p.quotesBtcm = false) :
    p.base.assetId = XUSD_SYMBOL ∧ p.quote.assetId = BTCM_SYMBOL := by
  rcases h.1 with ⟨hb, -⟩ | h
  · exact absurd hb (of_decide_eq_false hp)
  · exact h

theorem IsFeed.quote_of_quotesBtcm (h : p.IsFeed) (hp : p.quotesBtcm = true) :
    p.base.assetId = BTCM_SYMBOL ∧ p.quote.assetId = XUSD_SYMBOL := by
  rcases h.1 with h | ⟨hb, -⟩
  · exact h
  · rw [of_decide_eq_true hp] at hb
    cases hb

theorem key_lt_key (hbase : p.base.assetId = q.base.assetId) (hquote : p.quote.assetId = q.quote.assetId) :
    p.key < q.key ↔ p.ratio < q.ratio := by
  show toLex (p.base.assetId, toLex (p.quote.assetId, p.ratio)) <
    toLex (q.base.assetId, toLex (q.quote.assetId, q.ratio)) ↔ _
  simp [Prod.Lex.toLex_lt_toLex, hbase, hquote]

theorem inv_ratio_lt (hp : p.Positive) (hq : q.Positive) : p.inv.ratio < q.inv.ratio ↔ q.ratio < p.ratio := by
  rw [ratio_lt_ratio hp.inv hq.inv, ratio_lt_ratio hq hp]
  show p.quote.amount.toInt * q.base.amount.toInt < q.quote.amount.toInt * p.base.amount.toInt ↔ _
  rw [mul_comm p.quote.amount.toInt, mul_comm q.quote.amount.toInt]

/-- Feeds that offer BTCM are sorted from the highest rate down. -/
theorem IsFeed.key_lt_of_btcm (hp : p.IsFeed) (hq : q.IsFeed) (hpb : p.quotesBtcm = true)
    (hqb : q.quotesBtcm = true) : p.key < q.key ↔ q.xusdPerBtcm < p.xusdPerBtcm := by
  obtain ⟨hp1, hp2⟩ := hp.quote_of_quotesBtcm hpb
  obtain ⟨hq1, hq2⟩ := hq.quote_of_quotesBtcm hqb
  rw [key_lt_key (hp1.trans hq1.symm) (hp2.trans hq2.symm), xusdPerBtcm, xusdPerBtcm, if_pos hpb,
    if_pos hqb, inv_ratio_lt hq.valid.positive hp.valid.positive]

/-- Feeds that quote XUSD first are sorted from the lowest rate up, as one would expect. -/
theorem IsFeed.key_lt_of_xusd (hp : p.IsFeed) (hq : q.IsFeed) (hpb : p.quotesBtcm = false)
    (hqb : q.quotesBtcm = false) : p.key < q.key ↔ p.xusdPerBtcm < q.xusdPerBtcm := by
  obtain ⟨hp1, hp2⟩ := hp.base_of_quotesBtcm hpb
  obtain ⟨hq1, hq2⟩ := hq.base_of_quotesBtcm hqb
  rw [key_lt_key (hp1.trans hq1.symm) (hp2.trans hq2.symm), xusdPerBtcm, xusdPerBtcm, hpb, hqb]
  rfl

/-- Feeds that quote XUSD first come behind those that quote BTCM first. -/
theorem IsFeed.key_lt_of_ne (hp : p.IsFeed) (hq : q.IsFeed) (hpb : p.quotesBtcm = true)
    (hqb : q.quotesBtcm = false) : p.key < q.key := by
  obtain ⟨hp1, -⟩ := hp.quote_of_quotesBtcm hpb
  obtain ⟨hq1, -⟩ := hq.base_of_quotesBtcm hqb
  show toLex (p.base.assetId, _) < toLex (q.base.assetId, _)
  rw [Prod.Lex.toLex_lt_toLex, hp1, hq1]
  exact .inl (show BTCM_SYMBOL < XUSD_SYMBOL by decide)

end Price

/-! ## The rank of the middle -/

section Middle

variable {feeds : List Price} {m : Price}

/-- The middle of the feeds is the middle of their keys. -/
theorem ranked_medianPrice (hfeeds : ∀ p ∈ feeds, p.IsFeed) (hm : medianPrice feeds = some m) :
    ranked (feeds.map Price.key) (feeds.length / 2) = some m.key := by
  have horder : ∀ a ∈ feeds, ∀ b ∈ feeds, feedOrder a b ↔ a.key ≤ b.key := by
    intro a ha b hb
    rw [feedOrder, Price.lt_iff_key (hfeeds b hb).valid (hfeeds a ha).valid, not_lt]
  have hm : (feeds.insertionSort feedOrder)[feeds.length / 2]? = some m := hm
  rw [ranked, ← List.map_insertionSort feedOrder (· ≤ ·) Price.key feeds horder, List.getElem?_map, hm]
  rfl

theorem medianPrice_rank (hfeeds : ∀ p ∈ feeds, p.IsFeed) (hm : medianPrice feeds = some m) :
    feeds.countP (fun p => p.key < m.key) ≤ feeds.length / 2 ∧
      feeds.length / 2 < feeds.countP (fun p => p.key ≤ m.key) := by
  obtain ⟨-, hbelow, habove⟩ := ranked_eq_some_iff.mp (ranked_medianPrice hfeeds hm)
  rw [List.countP_map] at hbelow habove
  exact ⟨hbelow, habove⟩

/-! ## Medians by rate -/

/-- A feed is a median of the rates if at most half of the feeds denote a lower rate and at most
half a higher one. -/
structure IsMedianRate (feeds : List Price) (m : Price) : Prop where
  published : m ∈ feeds
  lower : 2 * feeds.countP (fun p => p.xusdPerBtcm < m.xusdPerBtcm) ≤ feeds.length
  higher : 2 * feeds.countP (fun p => m.xusdPerBtcm < p.xusdPerBtcm) ≤ feeds.length

/-- At most half of the feeds denote a higher rate. -/
def highRate (feeds : List Price) (p : Price) : Bool :=
  2 * feeds.countP (fun q => p.xusdPerBtcm < q.xusdPerBtcm) ≤ feeds.length

/-- More than half of the feeds offer BTCM at a high rate, or at most half offer BTCM or denote a
rate that is not high. -/
def RatesInOrder (feeds : List Price) : Prop :=
  feeds.length / 2 < feeds.countP (fun p => p.quotesBtcm && highRate feeds p) ∨
    feeds.countP (fun p => p.quotesBtcm || !highRate feeds p) ≤ feeds.length / 2

instance (feeds : List Price) : Decidable (RatesInOrder feeds) :=
  inferInstanceAs (Decidable (_ ∨ _))

/-- Whoever is above a high rate is high too. -/
theorem highRate_mono {p q : Price} (h : highRate feeds p = true) (hpq : p.xusdPerBtcm ≤ q.xusdPerBtcm) :
    highRate feeds q = true := by
  have hle : feeds.countP (fun r => q.xusdPerBtcm < r.xusdPerBtcm) ≤
      feeds.countP fun r => p.xusdPerBtcm < r.xusdPerBtcm := by
    refine List.countP_mono_left fun r _ hr => ?_
    simp only [decide_eq_true_eq] at hr ⊢
    exact hpq.trans_lt hr
  simp only [highRate, decide_eq_true_eq] at h ⊢
  omega

/-- Never more than half of the feeds are below the middle. -/
theorem lower_medianPrice (hfeeds : ∀ p ∈ feeds, p.IsFeed) (hm : medianPrice feeds = some m) :
    2 * feeds.countP (fun p => p.xusdPerBtcm < m.xusdPerBtcm) ≤ feeds.length := by
  have hmf := hfeeds m (mem_of_medianPrice hm)
  obtain ⟨hbelow, habove⟩ := medianPrice_rank hfeeds hm
  cases hmb : m.quotesBtcm with
  | true =>
      -- a lower rate is sorted behind
      have hle : feeds.countP (fun p => p.xusdPerBtcm < m.xusdPerBtcm) ≤
          feeds.countP fun p => !decide (p.key ≤ m.key) := by
        refine List.countP_mono_left fun p hp hlt => ?_
        simp only [decide_eq_true_eq] at hlt
        rw [Bool.not_eq_true', decide_eq_false_iff_not, not_le]
        cases hpb : p.quotesBtcm with
        | true => exact (hmf.key_lt_of_btcm (hfeeds p hp) hmb hpb).mpr hlt
        | false => exact hmf.key_lt_of_ne (hfeeds p hp) hmb hpb
      have hsplit := List.length_eq_countP_add_countP (fun p : Price => decide (p.key ≤ m.key)) (l := feeds)
      simp only [decide_not, Bool.decide_eq_true] at hsplit
      omega
  | false =>
      -- a lower rate is sorted before
      have hle : feeds.countP (fun p => p.xusdPerBtcm < m.xusdPerBtcm) ≤
          feeds.countP fun p => p.key < m.key := by
        refine List.countP_mono_left fun p hp hlt => ?_
        simp only [decide_eq_true_eq] at hlt ⊢
        cases hpb : p.quotesBtcm with
        | true => exact (hfeeds p hp).key_lt_of_ne hmf hpb hmb
        | false => exact ((hfeeds p hp).key_lt_of_xusd hmf hpb hmb).mpr hlt
      omega

/-- The middle has a high rate just if the feeds are in order. -/
theorem highRate_medianPrice (hfeeds : ∀ p ∈ feeds, p.IsFeed) (hm : medianPrice feeds = some m) :
    highRate feeds m = true ↔ RatesInOrder feeds := by
  have hmf := hfeeds m (mem_of_medianPrice hm)
  obtain ⟨hbelow, habove⟩ := medianPrice_rank hfeeds hm
  -- feeds that offer BTCM stand before all others, so the side of the middle says which kind it is
  have hcount : ∀ a b : Price → Bool, (∀ p ∈ feeds, a p = true → b p = true) →
      feeds.countP a ≤ feeds.countP b := fun a b h => List.countP_mono_left h
  cases hmb : m.quotesBtcm with
  | true =>
      constructor
      · -- all before the middle offer BTCM at no lower rate
        intro hhigh
        refine .inl (habove.trans_le (hcount _ _ fun p hp hle => ?_))
        have hle := of_decide_eq_true hle
        cases hpb : p.quotesBtcm with
        | true =>
            refine highRate_mono hhigh (not_lt.mp fun hlt => ?_)
            exact absurd hle (not_le.mpr ((hmf.key_lt_of_btcm (hfeeds p hp) hmb hpb).mpr hlt))
        | false => exact absurd hle (not_le.mpr (hmf.key_lt_of_ne (hfeeds p hp) hmb hpb))
      · rintro (hmany | hfew)
        · by_contra hlow
          have hle := hcount (fun p => p.quotesBtcm && highRate feeds p) (fun p => p.key < m.key)
            fun p hp h => by
              obtain ⟨hpb, hhigh⟩ := Bool.and_eq_true_iff.mp h
              refine decide_eq_true (((hfeeds p hp).key_lt_of_btcm hmf hpb hmb).mpr ?_)
              exact not_le.mp fun hle => hlow (highRate_mono hhigh hle)
          omega
        · exfalso
          have hle := hcount (fun p => p.key ≤ m.key) (fun p => p.quotesBtcm || !highRate feeds p)
            fun p hp h => by
              cases hpb : p.quotesBtcm with
              | true => rfl
              | false =>
                  exact absurd (of_decide_eq_true h)
                    (not_le.mpr (hmf.key_lt_of_ne (hfeeds p hp) hmb hpb))
          omega
  | false =>
      constructor
      · -- whoever offers BTCM or denotes a lower rate is before the middle
        intro hhigh
        refine .inr ((hcount _ _ fun p hp h => ?_).trans hbelow)
        refine decide_eq_true ?_
        cases hpb : p.quotesBtcm with
        | true => exact (hfeeds p hp).key_lt_of_ne hmf hpb hmb
        | false =>
            rw [hpb, Bool.false_or, Bool.not_eq_true'] at h
            refine ((hfeeds p hp).key_lt_of_xusd hmf hpb hmb).mpr (not_le.mp fun hle => ?_)
            rw [highRate_mono hhigh hle] at h
            cases h
      · rintro (hmany | hfew)
        · exfalso
          have hle := hcount (fun p => p.quotesBtcm && highRate feeds p) (fun p => p.key < m.key)
            fun p hp h => decide_eq_true
              ((hfeeds p hp).key_lt_of_ne hmf (Bool.and_eq_true_iff.mp h).1 hmb)
          omega
        · by_contra hlow
          have hle := hcount (fun p => p.key ≤ m.key) (fun p => p.quotesBtcm || !highRate feeds p)
            fun p hp h => by
              cases hpb : p.quotesBtcm with
              | true => rfl
              | false =>
                  rw [Bool.false_or, Bool.not_eq_true', ← Bool.not_eq_true]
                  refine fun hhigh => hlow (highRate_mono hhigh (not_lt.mp fun hlt => ?_))
                  exact absurd (of_decide_eq_true h)
                    (not_le.mpr ((hmf.key_lt_of_xusd (hfeeds p hp) hmb hpb).mpr hlt))
          omega

/-- The feed in the middle is a median of the rates just if the feeds are in order. -/
theorem isMedianRate_iff (hfeeds : ∀ p ∈ feeds, p.IsFeed) (hm : medianPrice feeds = some m) :
    IsMedianRate feeds m ↔ RatesInOrder feeds := by
  rw [← highRate_medianPrice hfeeds hm, highRate, decide_eq_true_eq]
  exact ⟨IsMedianRate.higher, fun h => ⟨mem_of_medianPrice hm, lower_medianPrice hfeeds hm, h⟩⟩

end Middle

/-- The window of the last hours, with the newest median. -/
theorem window_isFeed {history : List Price} {feed : Price} (hhistory : ∀ p ∈ history, p.IsFeed)
    (hfeed : feed.IsFeed) : ∀ p ∈ (if 168 < (history ++ [feed]).length
      then (history ++ [feed]).tail else history ++ [feed]), p.IsFeed := by
  intro p hp
  have hp : p ∈ history ++ [feed] := by
    split at hp
    · exact List.mem_of_mem_tail hp
    · exact hp
  rcases List.mem_append.mp hp with hp | hp
  · exact hhistory p hp
  · rw [List.mem_singleton.mp hp]
    exact hfeed

/-- The last entry of the window is the new feed, also when an old one is dropped. -/
theorem getLast?_window (history : List Price) (feed : Price) :
    (if 168 < (history ++ [feed]).length then (history ++ [feed]).tail
      else history ++ [feed]).getLast? = some feed := by
  split
  case isTrue hlong =>
    have hne : history ≠ [] := by
      rintro rfl
      simp at hlong
    rw [List.tail_append_of_ne_nil hne]
    simp
  case isFalse => simp

/-- **What an update of the median feed records** is a median of the current rates just if these are
in order, and the new median over the window just if the prices of the window are. -/
theorem median_by_rate_iff {s s' : Database} (hrates : RatesOk s.rates)
    (hhistory : ∀ p ∈ s.feedHistory.priceHistory, p.IsFeed)
    (hdue : s.dgpo.headBlockNumber % 1200 = 0) (hfeeds : s.currentRates ≠ [])
    (h : Runs updateMedianFeed s () s') :
    ∃ feed, s'.feedHistory.priceHistory.getLast? = some feed ∧
      (IsMedianRate s.currentRates feed ↔ RatesInOrder s.currentRates) ∧
      (IsMedianRate s'.feedHistory.priceHistory s'.feedHistory.actualMedianHistory ↔
        RatesInOrder s'.feedHistory.priceHistory) := by
  rcases (runs_updateMedianFeed hrates).mp h with ⟨-, feed, hfeed, hr⟩ | ⟨hnot, -⟩
  swap
  · exact absurd hnot (not_or.mpr ⟨not_not.mpr hdue, hfeeds⟩)
  obtain ⟨recent, median, effective, hrecent, hmedian, -, rfl⟩ := runs_recordFeed.mp hr
  have hall : ∀ p ∈ s.currentRates, p.IsFeed := fun p hp => isFeed_of_mem_currentRates hrates hp
  have hwindow := window_isFeed hhistory (hall feed (mem_of_medianPrice hfeed))
  rw [← hrecent] at hwindow
  refine ⟨feed, ?_, isMedianRate_iff hall hfeed, isMedianRate_iff hwindow hmedian⟩
  show recent.getLast? = some feed
  rw [hrecent, getLast?_window]

/-! ### Three feeds -/

instance : DecidablePred Price.IsFeed := fun p =>
  inferInstanceAs (Decidable (((p.base.assetId = BTCM_SYMBOL ∧ p.quote.assetId = XUSD_SYMBOL) ∨
    (p.base.assetId = XUSD_SYMBOL ∧ p.quote.assetId = BTCM_SYMBOL)) ∧
    0 < p.base.amount.toInt ∧ 0 < p.quote.amount.toInt))

/-- A schedule at the end of the first hour, with the feeds of its first minute. -/
def publishing (feeds : List (String × Price)) : Database where
  witnesses := feeds.foldl (fun ix f => ix.create
    { owner := f.1, mbdExchangeRate := f.2, lastMbdExchangeUpdate := 1585422060 }) .empty
  witnessSchedule := { currentShuffledWitnesses := feeds.map Prod.fst }
  dgpo := { headBlockNumber := 1200, time := 1585425600 }

theorem ratesOk_of_entries {s : Database}
    (hseated : ∀ name ∈ s.rates.2, ∃ e ∈ s.rates.1.entries, e.2.1 = name)
    (hfeeds : ∀ e ∈ s.rates.1.entries, e.2.2 = {} ∨ e.2.2.IsFeed) : RatesOk s.rates where
  seated name hname := by
    obtain ⟨e, he, rfl⟩ := hseated name hname
    exact ⟨e.1, e.2.2, FlatMap.mem_entries_iff.mp he⟩
  feeds id name rate h := hfeeds (id, name, rate) (FlatMap.mem_entries_iff.mpr h)

/-- One, two and ten XUSD for one BTCM, the highest of them the other way round. -/
def mixedFeeds : Database :=
  publishing [("initminer", ⟨btcm 1, xusd 10⟩), ("initminer1", ⟨xusd 1, btcm 1⟩),
    ("initminer2", ⟨xusd 2, btcm 1⟩)]

/-- One, two and ten XUSD for one BTCM, all alike. -/
def alikeFeeds : Database :=
  publishing [("initminer", ⟨xusd 10, btcm 1⟩), ("initminer1", ⟨xusd 1, btcm 1⟩),
    ("initminer2", ⟨xusd 2, btcm 1⟩)]

/-- Feeds that all quote alike have their median recorded. -/
theorem alike_feeds_median : ∃ s' feed, Runs updateMedianFeed alikeFeeds () s' ∧
    s'.feedHistory.priceHistory.getLast? = some feed ∧ IsMedianRate alikeFeeds.currentRates feed := by
  obtain ⟨s', hs', -⟩ := leadsTo_iff.mp
    (show leadsTo updateMedianFeed alikeFeeds (fun _ => true) = true by decide +kernel)
  obtain ⟨feed, hlast, hiff, -⟩ := median_by_rate_iff
    (ratesOk_of_entries (by decide +kernel) (by decide +kernel)) (by simp [alikeFeeds, publishing])
    rfl (by decide +kernel) hs'
  exact ⟨s', feed, hs', hlast, hiff.mpr (by decide +kernel)⟩

/-- Of three feeds that quote in both ways, the lowest rate is recorded instead of the middle one.
-/
theorem mixed_feeds_lowest : ¬ ∀ s s' : Database, RatesOk s.rates →
    (∀ p ∈ s.feedHistory.priceHistory, p.IsFeed) → s.dgpo.headBlockNumber % 1200 = 0 →
    s.currentRates ≠ [] → Runs updateMedianFeed s () s' →
    ∃ feed, s'.feedHistory.priceHistory.getLast? = some feed ∧ IsMedianRate s.currentRates feed ∧
      IsMedianRate s'.feedHistory.priceHistory s'.feedHistory.actualMedianHistory := by
  intro hclaim
  obtain ⟨s', hs', hlast⟩ := leadsTo_iff.mp
    (show leadsTo updateMedianFeed mixedFeeds (fun s =>
      s.feedHistory.priceHistory.getLast? = some ⟨xusd 1, btcm 1⟩) = true by decide +kernel)
  obtain ⟨feed, hfeed, hmedian, -⟩ := hclaim mixedFeeds s'
    (ratesOk_of_entries (by decide +kernel) (by decide +kernel)) (by simp [mixedFeeds, publishing])
    rfl (by decide +kernel) hs'
  obtain rfl := Option.some.inj ((of_decide_eq_true hlast).symm.trans hfeed)
  have hhigher := hmedian.higher
  revert hhigher
  decide +kernel

end BtcmChain
