import BtcmChain.Sound.Conservation
import BtcmChain.Sound.Prices
import BtcmChain.Lib.Median
import Mathlib.Tactic.Linarith

set_option autoImplicit false

/-!
# Price feeds and the conversions they drive

What a witness publishes goes through two medians before it is used: the median of the
current feeds, once an hour, and the median of a week of these. Neither protects from a
median nobody would have agreed to: one feed is enough for the first, and feeds that quote
BTCM in XUSD are sorted before those that quote XUSD in BTCM, whatever their value. If the
feeds all quote the same way and more than half of them are sane, so is the median, and
then no conversion can fail.
-/

namespace BtcmChain

/-! ## Feeds -/

namespace Price

/-- What `feed_publish_operation::validate` accepts: a price of BTCM in XUSD or the other way round,
of positive amounts. -/
def IsFeed (p : Price) : Prop :=
  ((p.base.assetId = BTCM_SYMBOL ∧ p.quote.assetId = XUSD_SYMBOL) ∨
    (p.base.assetId = XUSD_SYMBOL ∧ p.quote.assetId = BTCM_SYMBOL)) ∧
  0 < p.base.amount.toInt ∧ 0 < p.quote.amount.toInt

/-- A price between 1/1000 and 1000, whichever way it quotes. -/
def sane (p : Price) : Bool :=
  decide (p.base.amount.toInt ≤ 1000 * p.quote.amount.toInt ∧
    p.quote.amount.toInt ≤ 1000 * p.base.amount.toInt)

variable {p q a b : Price}

theorem sane_iff : p.sane = true ↔ p.base.amount.toInt ≤ 1000 * p.quote.amount.toInt ∧
    p.quote.amount.toInt ≤ 1000 * p.base.amount.toInt := decide_eq_true_iff

/-- Feeds with the same base asset have the same quote asset. -/
theorem IsFeed.quote_eq (ha : a.IsFeed) (hb : b.IsFeed) (h : a.base.assetId = b.base.assetId) :
    a.quote.assetId = b.quote.assetId := by
  obtain ⟨ha, -⟩ := ha
  obtain ⟨hb, -⟩ := hb
  rcases ha with ⟨ha, ha'⟩ | ⟨ha, ha'⟩ <;> rcases hb with ⟨hb, hb'⟩ | ⟨hb, hb'⟩
  · rw [ha', hb']
  · rw [ha, hb] at h
    cases h
  · rw [ha, hb] at h
    cases h
  · rw [ha', hb']

theorem IsFeed.ne (h : p.IsFeed) : p.base.assetId ≠ p.quote.assetId := by
  rcases h.1 with ⟨hb, hq⟩ | ⟨hb, hq⟩ <;> rw [hb, hq] <;> decide

/-- A feed is not the null price, which is for no market at all. -/
theorem IsFeed.isNull (h : p.IsFeed) : p.isNull = false := by
  have hne := h.ne
  unfold Price.isNull Price.eq
  by_cases hb : p.base.assetId = BTCM_SYMBOL
  · have hq : ¬p.quote.assetId = BTCM_SYMBOL := fun hq => hne (hb.trans hq.symm)
    rw [decide_eq_false hq, Bool.and_false, Bool.false_and]
  · rw [decide_eq_false hb, Bool.false_and, Bool.false_and]

end Price

/-- The order in which feeds are sorted: one may stand before another that is not less. -/
def feedOrder (a b : Price) : Prop := ¬b.lt a = true

instance : DecidableRel feedOrder := fun a b => inferInstanceAs (Decidable (¬b.lt a = true))

/-! ## The median of the feeds -/

/-- The feeds all quote the same way, with the same asset first. -/
def QuoteAlike (feeds : List Price) : Prop :=
  ∀ p ∈ feeds, ∀ q ∈ feeds, p.base.assetId = q.base.assetId

section Median

variable {feeds : List Price} (hfeeds : ∀ p ∈ feeds, p.IsFeed) (hal : QuoteAlike feeds)

include hfeeds hal

theorem feedOrder_iff {a b : Price} (ha : a ∈ feeds) (hb : b ∈ feeds) :
    feedOrder a b ↔ b.quote.amount.toInt * a.base.amount.toInt ≤
      a.quote.amount.toInt * b.base.amount.toInt := by
  obtain ⟨-, ha1, ha2⟩ := hfeeds a ha
  obtain ⟨-, hb1, hb2⟩ := hfeeds b hb
  have hbase := hal b hb a ha
  unfold feedOrder
  rw [Price.lt_iff hbase ((hfeeds b hb).quote_eq (hfeeds a ha) hbase) ⟨hb1.le, hb2.le⟩
    ⟨ha1.le, ha2.le⟩, not_lt]

/-- The feeds are sorted by value, as long as all of them quote the same way. -/
theorem pairwise_sortedFeeds : (feeds.insertionSort feedOrder).Pairwise feedOrder := by
  refine pairwise_insertionSort_on (fun a ha b hb => ?_) fun a ha b hb c hc hab hbc => ?_
  · rw [feedOrder_iff hfeeds hal ha hb, feedOrder_iff hfeeds hal hb ha]
    rcases le_total (b.quote.amount.toInt * a.base.amount.toInt)
      (a.quote.amount.toInt * b.base.amount.toInt) with h | h
    · exact .inl h
    · exact .inr (by linarith)
  · have hab := (feedOrder_iff hfeeds hal ha hb).mp hab
    have hbc := (feedOrder_iff hfeeds hal hb hc).mp hbc
    refine (feedOrder_iff hfeeds hal ha hc).mpr ?_
    obtain ⟨-, ha1, ha2⟩ := hfeeds a ha
    obtain ⟨-, hb1, hb2⟩ := hfeeds b hb
    obtain ⟨-, hc1, hc2⟩ := hfeeds c hc
    generalize a.base.amount.toInt = a1, a.quote.amount.toInt = a2, b.base.amount.toInt = b1,
      b.quote.amount.toInt = b2, c.base.amount.toInt = c1, c.quote.amount.toInt = c2 at *
    -- a1/a2 ≤ b1/b2 ≤ c1/c2
    refine le_of_mul_le_mul_left ?_ hb2
    calc b2 * (c2 * a1) = c2 * (b2 * a1) := by ring
      _ ≤ c2 * (a2 * b1) := mul_le_mul_of_nonneg_left hab hc2.le
      _ = a2 * (c2 * b1) := by ring
      _ ≤ a2 * (b2 * c1) := mul_le_mul_of_nonneg_left hbc ha2.le
      _ = b2 * (a2 * c1) := by ring

/-- **The median.** If the feeds quote the same way and more than half of them are sane, the
median is. -/
theorem sane_medianPrice {m : Price} (hmaj : feeds.length < 2 * feeds.countP Price.sane)
    (hm : medianPrice feeds = some m) : m.IsFeed ∧ m.sane = true := by
  have hsorted := pairwise_sortedFeeds hfeeds hal
  have hperm : (feeds.insertionSort feedOrder).Perm feeds := List.perm_insertionSort _ _
  have hmem : m ∈ feeds := hperm.mem_iff.mp (List.mem_of_getElem? hm)
  have hm : (feeds.insertionSort feedOrder)[(feeds.insertionSort feedOrder).length / 2]? =
      some m := by
    rw [hperm.length_eq]
    exact hm
  rw [← hperm.length_eq, ← hperm.countP_eq] at hmaj
  -- a feed in the order, with its amounts
  have hrel : ∀ a ∈ feeds.insertionSort feedOrder, ∀ b ∈ feeds.insertionSort feedOrder,
      feedOrder a b → b.quote.amount.toInt * a.base.amount.toInt ≤
        a.quote.amount.toInt * b.base.amount.toInt ∧
        (0 < a.base.amount.toInt ∧ 0 < a.quote.amount.toInt) ∧
        0 < b.base.amount.toInt ∧ 0 < b.quote.amount.toInt := by
    intro a ha b hb hab
    have ha := hperm.mem_iff.mp ha
    have hb := hperm.mem_iff.mp hb
    exact ⟨(feedOrder_iff hfeeds hal ha hb).mp hab, (hfeeds a ha).2, (hfeeds b hb).2⟩
  refine ⟨hfeeds m hmem, Price.sane_iff.mpr ⟨not_lt.mp ?_, not_lt.mp ?_⟩⟩
  · refine median_not_above (fun p => 1000 * p.quote.amount.toInt < p.base.amount.toInt)
      hsorted hm hmaj (fun p hp => ?_) fun a ha b hb hab hside => ?_
    · rw [← Bool.not_eq_true, Price.sane_iff]
      exact fun h => absurd h.1 (not_le.mpr hp)
    · obtain ⟨hle, ⟨ha1, ha2⟩, hb1, hb2⟩ := hrel a ha b hb hab
      refine lt_of_mul_lt_mul_left ?_ ha2.le
      calc a.quote.amount.toInt * (1000 * b.quote.amount.toInt)
          = b.quote.amount.toInt * (1000 * a.quote.amount.toInt) := by ring
        _ < b.quote.amount.toInt * a.base.amount.toInt := mul_lt_mul_of_pos_left hside hb2
        _ ≤ a.quote.amount.toInt * b.base.amount.toInt := hle
  · refine median_not_below (fun p => 1000 * p.base.amount.toInt < p.quote.amount.toInt)
      hsorted hm hmaj (fun p hp => ?_) fun a ha b hb hab hside => ?_
    · rw [← Bool.not_eq_true, Price.sane_iff]
      exact fun h => absurd h.2 (not_le.mpr hp)
    · obtain ⟨hle, ⟨ha1, ha2⟩, hb1, hb2⟩ := hrel a ha b hb hab
      refine lt_of_mul_lt_mul_left ?_ hb1.le
      calc b.base.amount.toInt * (1000 * a.base.amount.toInt)
          = a.base.amount.toInt * (1000 * b.base.amount.toInt) := by ring
        _ < a.base.amount.toInt * b.quote.amount.toInt := mul_lt_mul_of_pos_left hside ha1
        _ = b.quote.amount.toInt * a.base.amount.toInt := by ring
        _ ≤ a.quote.amount.toInt * b.base.amount.toInt := hle
        _ = b.base.amount.toInt * a.quote.amount.toInt := by ring

end Median

/-! ## Conversions -/

/-- The amounts that the supplies are expected to stay within, from zero up. -/
def InRange (x : ShareType) : Prop := 0 ≤ x.toInt ∧ x.toInt < 2 ^ 50

/-- A price at which so much BTCM can be paid for XUSD that nothing overflows: at most a
thousand for one. -/
def Price.PaysWithin (p : Price) : Prop :=
  (p.base.assetId = XUSD_SYMBOL ∧ p.quote.assetId = BTCM_SYMBOL ∧ 0 < p.base.amount.toInt ∧
    0 ≤ p.quote.amount.toInt ∧ p.quote.amount.toInt ≤ 1000 * p.base.amount.toInt) ∨
  (p.base.assetId = BTCM_SYMBOL ∧ p.quote.assetId = XUSD_SYMBOL ∧ 0 < p.quote.amount.toInt ∧
    0 ≤ p.base.amount.toInt ∧ p.base.amount.toInt ≤ 1000 * p.quote.amount.toInt)

/-- A sane scaling of an amount in range is computed, and stays within a thousand times the amount.
-/
theorem scale_sane {x num den : ShareType} (hx : InRange x) (hn : 0 ≤ num.toInt)
    (hd : 0 < den.toInt) (hsane : num.toInt ≤ 1000 * den.toInt) :
    ∃ r, scale x num den = .ok r ∧ r.toInt = x.toInt * num.toInt / den.toInt ∧
      0 ≤ r.toInt ∧ r.toInt ≤ 1000 * x.toInt := by
  have hle : x.toInt * num.toInt / den.toInt ≤ 1000 * x.toInt := by
    refine Int.ediv_le_of_le_mul hd ?_
    calc x.toInt * num.toInt ≤ x.toInt * (1000 * den.toInt) := mul_le_mul_of_nonneg_left hsane hx.1
      _ = 1000 * x.toInt * den.toInt := by ring
  have hlt := hx.2
  obtain ⟨r, hr, hval⟩ := scale_exact hx.1 hn hd (by omega)
  refine ⟨r, hr, hval, ?_, ?_⟩
  · rw [hval]
    exact Int.ediv_nonneg (mul_nonneg hx.1 hn) hd.le
  · rw [hval]
    exact hle

/-- XUSD in range is converted into BTCM, and into a thousand times as much at most. -/
theorem Price.PaysWithin.convert {p : Price} (h : p.PaysWithin) {x : ShareType} (hx : InRange x) :
    ∃ y, (xusd x).mulPrice p = .ok (btcm y) ∧ 0 ≤ y.toInt ∧ y.toInt ≤ 1000 * x.toInt := by
  unfold Asset.mulPrice
  rcases h with ⟨hb, hq, h1, h2, h3⟩ | ⟨hb, hq, h1, h2, h3⟩
  · obtain ⟨y, hy, -, hy0, hy1⟩ := scale_sane hx h2 h1 h3
    rw [if_pos (show (xusd x).assetId = p.base.assetId from hb.symm), if_pos, xusd_amount, hy, hq]
    · exact ⟨y, rfl, hy0, hy1⟩
    · rwa [Int64.lt_iff_toInt_lt, Int64.toInt_zero]
  · obtain ⟨y, hy, -, hy0, hy1⟩ := scale_sane hx h2 h1 h3
    rw [if_neg, if_pos (show (xusd x).assetId = p.quote.assetId from hq.symm), if_pos, xusd_amount,
      hy, hb]
    · exact ⟨y, rfl, hy0, hy1⟩
    · rwa [Int64.lt_iff_toInt_lt, Int64.toInt_zero]
    · rw [hb]
      exact fun h => by cases h

/-- A sane feed, or its inverse, pays within a thousand. -/
theorem Price.IsFeed.paysWithin {p : Price} (h : p.IsFeed) (hs : p.sane = true) :
    p.PaysWithin := by
  obtain ⟨h1, h2⟩ := Price.sane_iff.mp hs
  obtain ⟨⟨hb, hq⟩ | ⟨hb, hq⟩, hb0, hq0⟩ := h
  · exact .inr ⟨hb, hq, hq0, hb0.le, h1⟩
  · exact .inl ⟨hb, hq, hb0, hq0.le, h2⟩

theorem Price.PaysWithin.isNull {p : Price} (h : p.PaysWithin) : p.isNull = false := by
  unfold Price.isNull Price.eq
  rcases h with ⟨hb, -⟩ | ⟨-, hq, -⟩
  · rw [hb]
    rfl
  · rw [hq, show decide (XUSD_SYMBOL = ({} : Price).quote.assetId) = false from rfl, Bool.and_false,
      Bool.false_and]

/-- BTCM in range is converted into XUSD, and into a thousand times as much at most. -/
theorem Price.IsFeed.convert {p : Price} (h : p.IsFeed) (hs : p.sane = true) {x : ShareType}
    (hx : InRange x) :
    ∃ y, (btcm x).mulPrice p = .ok (xusd y) ∧ 0 ≤ y.toInt ∧ y.toInt ≤ 1000 * x.toInt := by
  obtain ⟨h1, h2⟩ := Price.sane_iff.mp hs
  obtain ⟨⟨hb, hq⟩ | ⟨hb, hq⟩, hb0, hq0⟩ := h
  · obtain ⟨y, hy, -, hy0, hy1⟩ := scale_sane hx hq0.le hb0 h2
    unfold Asset.mulPrice
    rw [if_pos (show (btcm x).assetId = p.base.assetId from hb.symm), if_pos, btcm_amount, hy, hq]
    · exact ⟨y, rfl, hy0, hy1⟩
    · rwa [Int64.lt_iff_toInt_lt, Int64.toInt_zero]
  · obtain ⟨y, hy, -, hy0, hy1⟩ := scale_sane hx hb0.le hq0 h1
    unfold Asset.mulPrice
    rw [if_neg, if_pos (show (btcm x).assetId = p.quote.assetId from hq.symm), if_pos, btcm_amount,
      hy, hb]
    · exact ⟨y, rfl, hy0, hy1⟩
    · rwa [Int64.lt_iff_toInt_lt, Int64.toInt_zero]
    · rw [hb]
      exact fun h => by cases h

/-! ## The limit on the value of XUSD -/

/-- The limited median exists for a sane median, and pays within a thousand times an amount. -/
theorem limitMedian_sane {supply : GlobalSupply} {m : Price} (hm : m.IsFeed) (hs : m.sane = true)
    (hbtcm : InRange supply.currentSupply) (hmbd : supply.currentMbdSupply.toInt < 2 ^ 50) :
    ∃ p, limitMedian supply m = .ok p ∧ p.PaysWithin := by
  unfold limitMedian
  split
  case isFalse => exact ⟨m, rfl, hm.paysWithin hs⟩
  case isTrue hpos =>
    rw [Int64.lt_iff_toInt_lt, Int64.toInt_zero] at hpos
    obtain ⟨limit, hlimit⟩ : ∃ limit, safeMul 19 supply.currentMbdSupply = .ok limit :=
      ⟨_, checked_of_range (by show _ ≤ (19 : ℤ) * _; omega) (by show (19 : ℤ) * _ < _; omega)⟩
    have hval : limit.toInt = 19 * supply.currentMbdSupply.toInt := safeMul_ok.mp hlimit
    have hlimit0 : 0 < limit.toInt := by omega
    have hsupply0 : 0 ≤ supply.currentSupply.toInt := hbtcm.1
    rw [hlimit]
    refine ⟨_, rfl, ?_⟩
    -- the median, with XUSD as base
    have hturned : ∃ q : Price, (if m.base.assetId ≠ XUSD_SYMBOL then m.inv else m) = q ∧
        q.base.assetId = XUSD_SYMBOL ∧ q.quote.assetId = BTCM_SYMBOL ∧ 0 < q.base.amount.toInt ∧
        0 < q.quote.amount.toInt ∧ q.quote.amount.toInt ≤ 1000 * q.base.amount.toInt := by
      obtain ⟨h1, h2⟩ := Price.sane_iff.mp hs
      obtain ⟨⟨hb, hq⟩ | ⟨hb, hq⟩, hb0, hq0⟩ := hm
      · refine ⟨m.inv, if_pos ?_, hq, hb, hq0, hb0, h1⟩
        rw [hb]
        decide
      · exact ⟨m, if_neg (not_not.mpr hb), hb, hq, hb0, hq0, h2⟩
    obtain ⟨q, hq, hqb, hqq, hq1, hq2, hq3⟩ := hturned
    simp only [hq]
    split
    case isTrue hle =>
      -- the limit is not below a sane price
      have hlt : supply.currentSupply.toInt * q.base.amount.toInt ≤
          q.quote.amount.toInt * limit.toInt := by
        refine not_lt.mp fun habove => ?_
        have hbelow : Price.lt ⟨xusd limit, btcm supply.currentSupply⟩ q = true :=
          (Price.lt_iff (a := ⟨xusd limit, btcm supply.currentSupply⟩) (b := q) hqb.symm hqq.symm
            ⟨hlimit0.le, hsupply0⟩ ⟨hq1.le, hq2.le⟩).mpr habove
        unfold Price.le at hle
        rw [hbelow, Bool.or_true] at hle
        cases hle
      refine .inl ⟨rfl, rfl, hlimit0, hsupply0, ?_⟩
      show supply.currentSupply.toInt ≤ 1000 * limit.toInt
      refine le_of_mul_le_mul_right ?_ hq1
      calc supply.currentSupply.toInt * q.base.amount.toInt
          ≤ q.quote.amount.toInt * limit.toInt := hlt
        _ ≤ 1000 * q.base.amount.toInt * limit.toInt := mul_le_mul_of_nonneg_right hq3 hlimit0.le
        _ = 1000 * limit.toInt * q.base.amount.toInt := by ring
    case isFalse => exact .inl ⟨hqb, hqq, hq1, hq2.le, hq3⟩

/-! ## Who is scheduled, and what they published -/

/-- A view of the witnesses in which everybody who is scheduled exists, and nobody has
published what is not a feed. -/
structure RatesOk (r : FlatMap Nat (String × Price) × List String) : Prop where
  seated : ∀ name ∈ r.2, ∃ id rate, r.1.find? id = some (name, rate)
  feeds : ∀ id name rate, r.1.find? id = some (name, rate) → rate = {} ∨ rate.IsFeed

theorem Database.find?_rates (s : Database) (id : Nat) :
    s.rates.1.find? id = (s.witnesses.find? id).map fun w => (w.owner, w.mbdExchangeRate) :=
  FlatMap.find?_mapVals ..

namespace RatesOk

variable {s : Database}

/-- `get_witness` finds everybody who is scheduled, with a feed or without one. -/
theorem getWitness (h : RatesOk s.rates) {name : String}
    (hname : name ∈ s.witnessSchedule.currentShuffledWitnesses) :
    ∃ e, s.witnesses.findBy? (fun w => decide (w.owner = name)) = some e ∧
      (e.2.mbdExchangeRate = {} ∨ e.2.mbdExchangeRate.IsFeed) := by
  obtain ⟨id, rate, hid⟩ := h.seated name hname
  cases hfind : s.witnesses.findBy? (fun w => decide (w.owner = name)) with
  | none =>
      rw [s.find?_rates] at hid
      obtain ⟨w, hw, heq⟩ := Option.map_eq_some_iff.mp hid
      have hno := ObjectIndex.findBy?_eq_none.mp hfind id w hw
      exact absurd (congrArg Prod.fst heq) (of_decide_eq_false hno)
  | some e =>
      refine ⟨e, rfl, h.feeds e.1 e.2.owner _ ?_⟩
      rw [s.find?_rates, (ObjectIndex.find?_of_findBy? hfind).1]
      rfl

/-- A witness publishes a feed, and the rates of all witnesses are still in order. -/
theorem publish {w w' : WitnessObject} {id : Nat} (h : RatesOk s.rates)
    (hw : s.witnesses.find? id = some w) (howner : w'.owner = w.owner)
    (hrate : w'.mbdExchangeRate = w.mbdExchangeRate ∨ w'.mbdExchangeRate.IsFeed) :
    RatesOk { s with witnesses := s.witnesses.update id fun _ => w' : Database }.rates := by
  have hfind : ∀ k, { s with witnesses := s.witnesses.update id fun _ => w' : Database }.rates.1.find? k =
      if k = id then some (w'.owner, w'.mbdExchangeRate) else s.rates.1.find? k := by
    intro k
    rw [Database.find?_rates, Database.find?_rates]
    show Option.map _ ((s.witnesses.update id fun _ => w').find? k) = _
    rw [ObjectIndex.find?_update]
    split
    · rw [hw]
      rfl
    · rfl
  have hold : s.rates.1.find? id = some (w.owner, w.mbdExchangeRate) := by
    rw [s.find?_rates, hw]
    rfl
  refine ⟨fun name hname => ?_, fun k name rate hk => ?_⟩
  · obtain ⟨k, rate, hk⟩ := h.seated name hname
    by_cases hkid : k = id
    · subst hkid
      refine ⟨k, w'.mbdExchangeRate, ?_⟩
      obtain ⟨rfl, -⟩ := Prod.mk.inj (Option.some.inj (hold.symm.trans hk))
      rw [hfind, if_pos rfl, howner]
    · exact ⟨k, rate, by rw [hfind, if_neg hkid, hk]⟩
  · rw [hfind] at hk
    split at hk
    · obtain ⟨-, rfl⟩ := Prod.mk.inj (Option.some.inj hk)
      rcases hrate with hrate | hfeed
      · rw [hrate]
        exact h.feeds id _ _ hold
      · exact .inr hfeed
    · exact h.feeds k name rate hk

theorem find?_create (w : WitnessObject) (k : Nat) :
    { s with witnesses := s.witnesses.create w : Database }.rates.1.find? k =
      if k = s.witnesses.nextId then some (w.owner, w.mbdExchangeRate) else s.rates.1.find? k := by
  rw [Database.find?_rates, Database.find?_rates]
  show Option.map _ ((s.witnesses.create w).find? k) = _
  rw [ObjectIndex.find?_create]
  split <;> rfl

/-- A new witness hides nobody: whoever was found before is found again. -/
theorem find?_create_of_some {w : WitnessObject} {k : Nat} {x : String × Price}
    (hk : s.rates.1.find? k = some x) :
    { s with witnesses := s.witnesses.create w : Database }.rates.1.find? k = some x := by
  rw [find?_create, if_neg, hk]
  rintro rfl
  rw [s.find?_rates, show s.witnesses.find? s.witnesses.nextId = none from
    s.witnesses.find?_nextId] at hk
  cases hk

/-- A new witness has published nothing, so the rates are still in order. -/
theorem create {w : WitnessObject} (h : RatesOk s.rates) (hrate : w.mbdExchangeRate = {}) :
    RatesOk { s with witnesses := s.witnesses.create w : Database }.rates := by
  refine ⟨fun name hname => ?_, fun k name rate hk => ?_⟩
  · obtain ⟨k, rate, hk⟩ := h.seated name hname
    exact ⟨k, rate, find?_create_of_some hk⟩
  · rw [find?_create] at hk
    split at hk
    · obtain ⟨-, rfl⟩ := Prod.mk.inj (Option.some.inj hk)
      exact .inl hrate
    · exact h.feeds k name rate hk

end RatesOk

/-- The feeds that count at an update: those that scheduled witnesses have published, as far as the
comparison with the clock lets them. -/
def Database.currentRates (s : Database) : List Price :=
  s.witnessSchedule.currentShuffledWitnesses.filterMap fun name =>
    (s.witnesses.findBy? fun w => decide (w.owner = name)).bind fun w =>
      if w.2.lastMbdExchangeUpdate.toNat < s.dgpo.time.toNat + 604800 ∧ !w.2.mbdExchangeRate.isNull
      then some w.2.mbdExchangeRate else none

/-- The feeds are collected without an exception, when everybody who is scheduled is a witness. -/
theorem runs_currentFeeds {s : Database} (h : RatesOk s.rates) :
    Runs currentFeeds s s.currentRates s := by
  simp only [currentFeeds, runs_bind_headBlockTime, runs_bind_reads]
  unfold Database.currentRates
  have hloop : ∀ (names : List String) (acc : List Price),
      (∀ name ∈ names, name ∈ s.witnessSchedule.currentShuffledWitnesses) →
      Runs (names.foldlM (fun (feeds : List Price) name => do
        let w ← getWitness name
        return if w.val.lastMbdExchangeUpdate.toNat < s.dgpo.time.toNat + 604800 ∧
            !w.val.mbdExchangeRate.isNull
          then feeds ++ [w.val.mbdExchangeRate] else feeds) acc) s
        (acc ++ names.filterMap fun name =>
          (s.witnesses.findBy? fun w => decide (w.owner = name)).bind fun w =>
            if w.2.lastMbdExchangeUpdate.toNat < s.dgpo.time.toNat + 604800 ∧
                !w.2.mbdExchangeRate.isNull
            then some w.2.mbdExchangeRate else none) s := by
    intro names
    induction names with
    | nil =>
        intro acc _
        rw [List.filterMap_nil, List.append_nil]
        exact runs_pure.mpr ⟨rfl, rfl⟩
    | cons name names ih =>
        intro acc hnames
        obtain ⟨e, he, -⟩ := h.getWitness (hnames name List.mem_cons_self)
        have hget : Runs (getWitness name) s ⟨e.1, e.2⟩ s := Table.runs_getBy.mpr ⟨he, rfl⟩
        rw [List.foldlM_cons, runs_bind]
        refine ⟨_, s, runs_bind.mpr ⟨_, s, hget, runs_pure.mpr ⟨rfl, rfl⟩⟩, ?_⟩
        have hrest := ih (if e.2.lastMbdExchangeUpdate.toNat < s.dgpo.time.toNat + 604800 ∧
          !e.2.mbdExchangeRate.isNull then acc ++ [e.2.mbdExchangeRate] else acc)
          fun n hn => hnames n (List.mem_cons_of_mem _ hn)
        rw [List.filterMap_cons, he, Option.bind_some]
        split
        case isTrue hcond =>
          rw [if_pos hcond, List.append_assoc] at hrest
          exact hrest
        case isFalse hcond =>
          rw [if_neg hcond] at hrest
          exact hrest
  exact hloop _ [] fun _ hn => hn

theorem isFeed_of_mem_currentRates {s : Database} (h : RatesOk s.rates) {p : Price}
    (hp : p ∈ s.currentRates) : p.IsFeed := by
  obtain ⟨name, hname, hrate⟩ := List.mem_filterMap.mp hp
  obtain ⟨e, he, hfeed⟩ := h.getWitness hname
  rw [he, Option.bind_some] at hrate
  split at hrate
  case isTrue hcond =>
    obtain rfl := Option.some.inj hrate
    refine hfeed.resolve_left fun hnull => ?_
    rw [hnull] at hcond
    exact absurd hcond.2 (by decide)
  case isFalse => cases hrate

/-! ## The feed history -/

/-- The history holds sane feeds only, and the medians are sane, or there are none yet. -/
structure FeedsOk (h : FeedHistoryObject) : Prop where
  history : ∀ p ∈ h.priceHistory, p.IsFeed ∧ p.sane = true
  medians : (h.actualMedianHistory.isNull = true ∧ h.effectiveMedianHistory.isNull = true) ∨
    (h.actualMedianHistory.IsFeed ∧ h.actualMedianHistory.sane = true ∧
      h.effectiveMedianHistory.PaysWithin)

/-- What an update of the median feed may rely on, at the end of an hour: the feeds quote the
same way, more than half of them are sane, and the supplies are in range. -/
def FeedsSound (s : Database) : Prop :=
  s.dgpo.headBlockNumber % 1200 = 0 → s.currentRates ≠ [] →
    QuoteAlike s.currentRates ∧
    s.currentRates.length < 2 * s.currentRates.countP Price.sane ∧
    InRange s.dgpo.currentSupply ∧ s.dgpo.currentMbdSupply.toInt < 2 ^ 50

theorem medianPrice_isSome {feeds : List Price} (h : feeds ≠ []) : ∃ m, medianPrice feeds = some m := by
  have hpos := List.length_pos_iff.mpr h
  have hlen : (feeds.insertionSort feedOrder).length = feeds.length :=
    (List.perm_insertionSort _ _).length_eq
  refine ⟨_, List.getElem?_eq_getElem (i := feeds.length / 2) ?_⟩
  show feeds.length / 2 < (feeds.insertionSort feedOrder).length
  omega

theorem mem_of_medianPrice {feeds : List Price} {m : Price} (h : medianPrice feeds = some m) :
    m ∈ feeds := by
  have hperm : (feeds.insertionSort feedOrder).Perm feeds := List.perm_insertionSort _ _
  exact hperm.mem_iff.mp (List.mem_of_getElem? h)

theorem limitMedian_completes {supply : GlobalSupply} (m : Price)
    (hmbd : supply.currentMbdSupply.toInt < 2 ^ 50) : ∃ p, limitMedian supply m = .ok p := by
  unfold limitMedian
  split
  case isFalse => exact ⟨m, rfl⟩
  case isTrue hpos =>
    rw [Int64.lt_iff_toInt_lt, Int64.toInt_zero] at hpos
    obtain ⟨limit, hlimit⟩ : ∃ limit, safeMul 19 supply.currentMbdSupply = .ok limit :=
      ⟨_, checked_of_range (by show _ ≤ (19 : ℤ) * _; omega) (by show (19 : ℤ) * _ < _; omega)⟩
    rw [hlimit]
    exact ⟨_, rfl⟩

/-- What `recordFeed` does: the window moves on, and its median becomes the price, within the limit.
-/
theorem runs_recordFeed {s s' : Database} {feed : Price} :
    Runs (recordFeed feed) s () s' ↔ ∃ recent median effective,
      recent = (if 168 < (s.feedHistory.priceHistory ++ [feed]).length
        then (s.feedHistory.priceHistory ++ [feed]).tail else s.feedHistory.priceHistory ++ [feed]) ∧
      medianPrice recent = some median ∧
      limitMedian s.dgpo.toGlobalSupply median = .ok effective ∧
      s' = { s with feedHistory := ⟨median, effective, recent⟩ } := by
  simp only [recordFeed, runs_bind_reads]
  constructor
  · intro h
    cases hm : medianPrice (if 168 < (s.feedHistory.priceHistory ++ [feed]).length
        then (s.feedHistory.priceHistory ++ [feed]).tail
        else s.feedHistory.priceHistory ++ [feed]) with
    | none =>
        rw [hm] at h
        exact absurd h runs_throw
    | some median =>
        rw [hm, Option.elim_some, runs_bind_ofExcept] at h
        obtain ⟨effective, heff, h⟩ := h
        cases h
        exact ⟨_, median, effective, rfl, hm, heff, rfl⟩
  · rintro ⟨recent, median, effective, rfl, hm, heff, rfl⟩
    rw [hm, Option.elim_some, runs_bind_ofExcept]
    exact ⟨effective, heff, rfl⟩

/-- The window is never empty after a feed has been recorded. -/
theorem window_ne_nil (history : List Price) (feed : Price) :
    (if 168 < (history ++ [feed]).length then (history ++ [feed]).tail else history ++ [feed]) ≠
      [] := by
  split
  case isTrue hlen =>
    intro h
    have hzero := congrArg List.length h
    rw [List.length_tail, List.length_nil] at hzero
    omega
  case isFalse => exact List.append_ne_nil_of_right_ne_nil _ (List.cons_ne_nil _ _)

/-- `update_median_feed` records the median of the current feeds once an hour, if there are any. -/
theorem runs_updateMedianFeed {s s' : Database} (h : RatesOk s.rates) :
    Runs updateMedianFeed s () s' ↔
      (s.dgpo.headBlockNumber % 1200 = 0 ∧ ∃ feed, medianPrice s.currentRates = some feed ∧
        Runs (recordFeed feed) s () s') ∨
      ((s.dgpo.headBlockNumber % 1200 ≠ 0 ∨ s.currentRates = []) ∧ s' = s) := by
  have hfeeds := runs_currentFeeds h
  simp only [updateMedianFeed, runs_bind_reads, runs_whenM, decide_eq_true_eq, decide_eq_false_iff_not]
  by_cases hhead : s.dgpo.headBlockNumber % 1200 = 0
  swap
  · simp [hhead]
  have hloop : Runs (do
      let feeds ← currentFeeds
      whenM (!feeds.isEmpty) ((medianPrice feeds).elim (throw Exn.undefined) recordFeed)) s () s' ↔
      Runs (whenM (!s.currentRates.isEmpty)
        ((medianPrice s.currentRates).elim (throw Exn.undefined) recordFeed)) s () s' := by
    constructor
    · intro hr
      obtain ⟨feeds, t, ht, hr⟩ := runs_bind.mp hr
      obtain ⟨rfl, rfl⟩ := Prod.mk.inj (Except.ok.inj (hfeeds.symm.trans ht))
      exact hr
    · exact fun hr => runs_bind.mpr ⟨_, s, hfeeds, hr⟩
  rw [hloop, runs_whenM]
  by_cases hempty : s.currentRates = []
  · have hnone : medianPrice [] = none := rfl
    simp [hhead, hempty, hnone]
  · obtain ⟨feed, hfeed⟩ := medianPrice_isSome hempty
    simp [hhead, hempty, hfeed]

/-- `update_median_feed` completes without an exception, when the rates are in order and XUSD is in
range. -/
theorem updateMedianFeed_completes {s : Database} (h : RatesOk s.rates)
    (hmbd : s.dgpo.currentMbdSupply.toInt < 2 ^ 50) : ∃ s', Runs updateMedianFeed s () s' := by
  simp only [runs_updateMedianFeed h]
  by_cases hdue : s.dgpo.headBlockNumber % 1200 ≠ 0 ∨ s.currentRates = []
  · exact ⟨s, .inr ⟨hdue, rfl⟩⟩
  · obtain ⟨hhead, hne⟩ := not_or.mp hdue
    obtain ⟨feed, hfeed⟩ := medianPrice_isSome hne
    obtain ⟨median, hmedian⟩ := medianPrice_isSome (window_ne_nil s.feedHistory.priceHistory feed)
    obtain ⟨effective, heff⟩ := limitMedian_completes median hmbd
    exact ⟨_, .inl ⟨not_not.mp hhead, feed, hfeed,
      runs_recordFeed.mpr ⟨_, median, effective, rfl, hmedian, heff, rfl⟩⟩⟩

/-- `update_median_feed` leaves sane medians, when the feeds it collects are sound. -/
theorem updateMedianFeed_feedsOk {s s' : Database} (h : RatesOk s.rates) (hf : FeedsOk s.feedHistory)
    (hsound : FeedsSound s) (hr : Runs updateMedianFeed s () s') : FeedsOk s'.feedHistory := by
  rcases (runs_updateMedianFeed h).mp hr with ⟨hhead, feed, hfeed, hr⟩ | ⟨-, rfl⟩
  swap
  · exact hf
  · have hne : s.currentRates ≠ [] := by
      rintro hnil
      rw [hnil] at hfeed
      cases hfeed
    obtain ⟨hal, hmaj, hbtcm, hmbd⟩ := hsound hhead hne
    have hgood := sane_medianPrice (fun p hp => isFeed_of_mem_currentRates h hp) hal hmaj hfeed
    obtain ⟨recent, median, effective, hrecent, hmedian, heff, rfl⟩ := runs_recordFeed.mp hr
    have hall : ∀ p ∈ recent, p.IsFeed ∧ p.sane = true := by
      intro p hp
      have hp : p ∈ s.feedHistory.priceHistory ++ [feed] := by
        rw [hrecent] at hp
        split at hp
        · exact List.mem_of_mem_tail hp
        · exact hp
      rcases List.mem_append.mp hp with hp | hp
      · exact hf.history p hp
      · rw [List.mem_singleton.mp hp]
        exact hgood
    obtain ⟨hm1, hm2⟩ := hall median (mem_of_medianPrice hmedian)
    obtain ⟨p, hp, hwithin⟩ := limitMedian_sane hm1 hm2 hbtcm hmbd
    obtain rfl := Except.ok.inj (heff.symm.trans hp)
    exact ⟨hall, .inr ⟨hm1, hm2, hwithin⟩⟩

theorem add_btcm {x y z : ShareType} (h : safeAdd x y = .ok z) :
    (btcm x).add (btcm y) = .ok (btcm z) := by
  unfold Asset.add
  exact except_bind_ok.mpr ⟨(), rfl, except_bind_ok.mpr ⟨z, h, rfl⟩⟩

/-- `update_virtual_supply` completes without an exception, when the supplies are in range. -/
theorem updateVirtualSupply_completes {s : Database} (hf : FeedsOk s.feedHistory)
    (hbtcm : InRange s.dgpo.currentSupply) (hmbd : InRange s.dgpo.currentMbdSupply) :
    ∃ s', Runs updateVirtualSupply s () s' := by
  have hsum : ∀ y : ShareType, 0 ≤ y.toInt → y.toInt ≤ 1000 * s.dgpo.currentMbdSupply.toInt →
      ∃ z, (btcm s.dgpo.currentSupply).add (btcm y) = .ok (btcm z) := by
    intro y hy0 hy1
    obtain ⟨h1, h2⟩ := hbtcm
    obtain ⟨h3, h4⟩ := hmbd
    exact ⟨_, add_btcm (checked_of_range (by omega) (by omega))⟩
  simp only [updateVirtualSupply, runs_bind_reads]
  rcases hf.medians with ⟨-, hnull⟩ | ⟨-, -, hwithin⟩
  · obtain ⟨z, hz⟩ := hsum 0 (le_refl _) (by have := hmbd.1; show (0 : ℤ) ≤ _; omega)
    refine ⟨_, runs_modifySupply.mpr ⟨{ s.dgpo.toGlobalSupply with virtualSupply := z }, ?_, rfl⟩⟩
    rw [if_pos hnull]
    exact except_bind_ok.mpr ⟨btcm 0, rfl, except_bind_ok.mpr ⟨btcm z, hz, rfl⟩⟩
  · obtain ⟨y, hy, hy0, hy1⟩ := hwithin.convert hmbd
    obtain ⟨z, hz⟩ := hsum y hy0 hy1
    refine ⟨_, runs_modifySupply.mpr ⟨{ s.dgpo.toGlobalSupply with virtualSupply := z }, ?_, rfl⟩⟩
    rw [if_neg (by rw [hwithin.isNull]; exact Bool.false_ne_true)]
    exact except_bind_ok.mpr ⟨btcm y, hy, except_bind_ok.mpr ⟨btcm z, hz, rfl⟩⟩

/-- Adjusting the XUSD supply completes without an exception, when the price pays within its bound.
-/
theorem adjustSupply_xusd_completes {s : Database} {delta : ShareType}
    (hp : s.feedHistory.effectiveMedianHistory.PaysWithin) (hbtcm : InRange s.dgpo.currentSupply)
    (hmbd : 0 ≤ s.dgpo.currentMbdSupply.toInt + delta.toInt ∧
      s.dgpo.currentMbdSupply.toInt + delta.toInt < 2 ^ 50) :
    ∃ s', Runs (adjustSupply (xusd delta)) s () s' := by
  obtain ⟨mbd, hadd⟩ : ∃ mbd, safeAdd s.dgpo.currentMbdSupply delta = .ok mbd :=
    ⟨_, checked_of_range (by omega) (by omega)⟩
  have hval := safeAdd_ok.mp hadd
  have hrange : InRange mbd := by
    rw [InRange, hval]
    exact hmbd
  obtain ⟨y, hy, hy0, hy1⟩ := hp.convert hrange
  obtain ⟨z, hz⟩ : ∃ z, safeAdd y s.dgpo.currentSupply = .ok z := by
    obtain ⟨h1, h2⟩ := hbtcm
    obtain ⟨h3, h4⟩ := hrange
    exact ⟨_, checked_of_range (by omega) (by omega)⟩
  simp only [adjustSupply, runs_bind_reads]
  rw [if_neg (show ¬(xusd delta).assetId = BTCM_SYMBOL from fun h => by cases h),
    if_pos (xusd_assetId delta)]
  refine ⟨_, runs_modifySupply.mpr
    ⟨{ s.dgpo.toGlobalSupply with currentMbdSupply := mbd, virtualSupply := z }, ?_, rfl⟩⟩
  exact except_bind_ok.mpr ⟨mbd, hadd, except_bind_ok.mpr ⟨btcm y, hy,
    except_bind_ok.mpr ⟨btcm z, add_btcm hz, except_bind_ok.mpr ⟨z, rfl, rfl⟩⟩⟩⟩

/-! ## The schedule -/

theorem mem_swapSeats {l : List String} {i j : Nat} (hi : i < l.length) (hj : j < l.length)
    {x : String} (hx : x ∈ swapSeats l i j) : x ∈ l := by
  have hget : ∀ {k}, k < l.length → l.getD k "" ∈ l := by
    intro k hk
    rw [List.getD_eq_getElem?_getD, List.getElem?_eq_getElem hk]
    exact List.getElem_mem hk
  rcases List.mem_or_eq_of_mem_set hx with hx | rfl
  · rcases List.mem_or_eq_of_mem_set hx with hx | rfl
    · exact hx
    · exact hget hj
  · exact hget hi

/-- Shuffling the seats brings nobody new into the schedule. -/
theorem mem_shuffleWitnesses {now : TimePointSec} {l : List String} {x : String}
    (hx : x ∈ shuffleWitnesses now l) : x ∈ l := by
  have hloop : ∀ (is : List Nat) (cur : List String), (∀ i ∈ is, i < l.length) →
      cur.length = l.length → (∀ y ∈ cur, y ∈ l) →
      ∀ y ∈ is.foldl (fun l i => swapSeats l i (shufflePartner now i l.length)) cur, y ∈ l := by
    intro is
    induction is with
    | nil => exact fun cur _ _ hcur => hcur
    | cons i is ih =>
        intro cur his hlen hcur
        have hi : i < cur.length := by
          rw [hlen]
          exact his i List.mem_cons_self
        have hj : shufflePartner now i cur.length < cur.length := by
          have hmod : ∀ k : Nat, i + k % (cur.length - i) < cur.length := by
            intro k
            have hlt := Nat.mod_lt k (Nat.sub_pos_of_lt hi)
            omega
          exact hmod _
        refine ih _ (fun k hk => his k (List.mem_cons_of_mem _ hk)) ?_ fun y hy =>
          hcur y (mem_swapSeats hi hj hy)
        unfold swapSeats
        rw [List.length_set, List.length_set, hlen]
  exact hloop _ l (fun i hi => List.mem_range.mp hi) rfl (fun _ hy => hy) x hx

theorem mem_runnersUp {voted : List Nat} {count : Nat} {ws : List (Nat × WitnessObject)}
    {x : String} (hx : x ∈ (runnersUp voted count ws).2) : ∃ w ∈ ws, w.2.owner = x := by
  induction ws generalizing count with
  | nil => cases hx
  | cons w ws ih =>
      have htail : ∀ {c}, x ∈ (runnersUp voted c ws).2 → ∃ w' ∈ w :: ws, w'.2.owner = x := by
        intro c hc
        obtain ⟨w', hw', heq⟩ := ih hc
        exact ⟨w', List.mem_cons_of_mem _ hw', heq⟩
      unfold runnersUp at hx
      split at hx
      · split at hx
        · rcases List.mem_cons.mp hx with rfl | hx
          · exact ⟨w, List.mem_cons_self, rfl⟩
          · exact htail hx
        · exact htail hx
      · cases hx

/-- The next schedule seats witnesses only, so that everybody scheduled is found. -/
theorem updateWitnessSchedule_ratesOk {s s' : Database} (h : RatesOk s.rates)
    (hr : Runs updateWitnessSchedule s () s') : RatesOk s'.rates := by
  simp only [updateWitnessSchedule, runs_bind_reads] at hr
  rcases runs_whenM.mp hr with ⟨-, hr⟩ | ⟨-, rfl⟩
  swap
  · exact h
  simp only [updateWitnessSchedule4, runs_bind_reads] at hr
  rw [runs_bind] at hr
  obtain ⟨overflowed, t1, h1, hr⟩ := hr
  rw [runs_bind] at hr
  obtain ⟨_, t2, h2, hr⟩ := hr
  simp only [runs_bind_require, runs_bind_headBlockTime, runs_bind_reads] at hr
  obtain ⟨-, hr⟩ := hr
  rw [runs_bind] at hr
  obtain ⟨_, t3, h3, h4⟩ := hr
  have hreset : Writes (whenM overflowed resetVirtualScheduleTime) [.laps] :=
    ⟨by infer_instance⟩
  have hrates2 : t2.rates = s.rates := by
    rw [Writes.rates_eq h2 (by decide), Writes.rates_eq h1 (by decide)]
  rw [Writes.rates_eq h4 (by decide)]
  cases h3
  -- only the names have changed
  have hview : ∀ x : WitnessScheduleObject,
      { t2 with witnessSchedule := x : Database }.rates = (s.rates.1, x.currentShuffledWitnesses) :=
    fun x => congrArg (fun r => (r.1, x.currentShuffledWitnesses)) hrates2
  rw [hview]
  refine ⟨fun name hname => ?_, h.feeds⟩
  have hexists : ∀ w ∈ s.witnesses.entries, ∃ id rate, s.rates.1.find? id = some (w.2.owner, rate) := by
    intro w hw
    refine ⟨w.1, w.2.mbdExchangeRate, ?_⟩
    rw [s.find?_rates, ObjectIndex.mem_entries_iff.mp hw]
    rfl
  rcases List.mem_append.mp (mem_shuffleWitnesses hname) with hname | hname
  · obtain ⟨w, hw, rfl⟩ := List.mem_map.mp hname
    refine hexists w ?_
    exact (List.mem_insertionSort _).mp (List.mem_of_mem_filter (List.mem_of_mem_take hw))
  · obtain ⟨w, hw, rfl⟩ := mem_runnersUp hname
    exact hexists w ((List.mem_insertionSort _).mp hw)

/-! ## Runs -/

/-- What the steps that depend on prices rely on: rates and feeds are in order. -/
structure PricesOk (s : Database) : Prop where
  rates : RatesOk s.rates
  feeds : FeedsOk s.feedHistory

theorem PricesOk.congr {s s' : Database} (h : PricesOk s) (hr : s'.rates = s.rates)
    (hf : s'.feedHistory = s.feedHistory) : PricesOk s' :=
  ⟨hr ▸ h.rates, hf ▸ h.feeds⟩

section Runs

variable [Externals]

theorem evaluate_feedHistory {push : Nat → DbM Unit} {op : Operation} {s s' : Database}
    (hop : op.isProposalUpdate = false) (hr : Runs (evaluate push op) s () s') :
    s'.feedHistory = s.feedHistory := by
  refine evaluate_same (i := .feeds) hop ?_ hr
  cases op <;> rfl

/-- An operation publishes nothing but feeds, so the rates stay in order. -/
theorem evaluate_ratesOk {push : Nat → DbM Unit} {op : Operation} {s s' : Database}
    (hop : op.isProposalUpdate = false) (hv : op.validate = .ok ()) (h : RatesOk s.rates)
    (hr : Runs (evaluate push op) s () s') : RatesOk s'.rates := by
  cases hi : op.writes .rates with
  | false =>
      have hsame : s'.rates = s.rates := evaluate_same hop hi hr
      exact hsame ▸ h
  | true =>
      cases op <;> first | exact (Bool.false_ne_true hi).elim | skip
      case witnessUpdate o =>
        simp only [evaluate, witnessUpdateEvaluator, runs_bind_getAccount, runs_bind_require,
          runs_bind_findBy?, runs_bind_headBlockTime] at hr
        obtain ⟨_, -, -, hr⟩ := hr
        cases hw : (witnessIndex.read s).findBy? (fun w => decide (w.owner = o.owner)) with
        | none =>
            simp only [hw, Option.map_none, Option.elim_none, runs_bind_create, runs_pure] at hr
            obtain ⟨-, -, rfl⟩ := hr
            exact h.create rfl
        | some e =>
            simp only [hw, Option.map_some, Option.elim_some, Table.runs_modify,
              Except.ok.injEq] at hr
            obtain ⟨w, w', hw, rfl, rfl⟩ := hr
            exact h.publish hw rfl (.inl rfl)
      case feedPublish publisher rate =>
        have hfeed : rate.IsFeed := by
          simp only [Operation.validate, except_bind_ok, fcAssert_ok, Price.validate_ok, isAssetType,
            Bool.or_eq_true, Bool.and_eq_true, decide_eq_true_eq] at hv
          obtain ⟨_, -, _, hassets, hb, hq, -⟩ := hv
          exact ⟨hassets, hb, hq⟩
        simp only [evaluate, feedPublishEvaluator] at hr
        rw [runs_bind] at hr
        obtain ⟨e, t, he, hr⟩ := hr
        obtain ⟨-, rfl⟩ := Table.runs_getBy.mp he
        simp only [runs_bind_headBlockTime, Table.runs_modify, Except.ok.injEq] at hr
        obtain ⟨w, w', hw, rfl, rfl⟩ := hr
        exact h.publish hw rfl (.inr hfeed)

theorem evaluate_pricesOk {push : Nat → DbM Unit} {op : Operation} {s s' : Database}
    (hop : op.isProposalUpdate = false) (hv : op.validate = .ok ()) (h : PricesOk s)
    (hr : Runs (evaluate push op) s () s') : PricesOk s' :=
  ⟨evaluate_ratesOk hop hv h.rates hr, evaluate_feedHistory hop hr ▸ h.feeds⟩

omit [Externals] in
/-- An initial witness joins those there are, and the rates are still in order. -/
theorem createInitMiner_rates {s s' : Database} {name : String} {balance : ShareType}
    (h : RatesOk s.rates) (hr : Runs (createInitMiner name balance) s () s') :
    RatesOk s'.rates ∧ (∃ id rate, s'.rates.1.find? id = some (name, rate)) ∧
      ∀ id x, s.rates.1.find? id = some x → s'.rates.1.find? id = some x := by
  simp only [createInitMiner, runs_bind_create, runs_pure] at hr
  obtain ⟨-, -, -, rfl⟩ := hr
  have hcreate := RatesOk.create (w := { owner := name, signingKey := BTCM_INIT_PUBLIC_KEY }) h rfl
  refine ⟨hcreate, ⟨s.witnesses.nextId, {}, ?_⟩, fun id x hx => RatesOk.find?_create_of_some hx⟩
  exact (RatesOk.find?_create (s := s) _ _).trans (if_pos rfl)

theorem initGenesis_pricesOk {g : GenesisState} {s : Database}
    (hr : Runs (initGenesis g) {} () s) : PricesOk s := by
  have hfeeds : FeedsOk s.feedHistory := by
    rw [Writes.feeds_eq hr (by decide)]
    exact ⟨fun p hp => (by cases hp), .inl ⟨rfl, rfl⟩⟩
  have hnone : RatesOk ({} : Database).rates :=
    ⟨fun name hname => (by cases hname), fun id name rate hid => (by cases hid)⟩
  refine ⟨?_, hfeeds⟩
  simp only [initGenesis] at hr
  simp only [runs_bind] at hr
  obtain ⟨_, t1, h1, _, t2, h2, _, t3, h3, _, t4, h4, _, t5, h5, _, t6, h6, _, t7, h7, _, t8, h8,
    _, t9, h9, _, t10, h10, _, t11, h11, _, t12, h12, _, t13, h13, _, t14, h14, h15⟩ := hr
  have hrates3 : t3.rates = ({} : Database).rates := by
    rw [Writes.rates_eq h3 (by decide), Writes.rates_eq h2 (by decide),
      Writes.rates_eq h1 (by decide)]
  obtain ⟨ok4, ⟨i4, r4, hi4⟩, keep4⟩ := createInitMiner_rates (hrates3 ▸ hnone) h4
  obtain ⟨ok5, ⟨i5, r5, hi5⟩, keep5⟩ := createInitMiner_rates ok4 h5
  obtain ⟨ok6, ⟨i6, r6, hi6⟩, keep6⟩ := createInitMiner_rates ok5 h6
  have hrates10 : t10.rates = t6.rates := by
    rw [Writes.rates_eq h10 (by decide), Writes.rates_eq h9 (by decide),
      Writes.rates_eq h8 (by decide), Writes.rates_eq h7 (by decide)]
  have hrest : s.rates = t11.rates := by
    have himport : Writes (g.initialAssets.forM importAsset) [.funds] :=
      ⟨by unfold importAsset; infer_instance⟩
    have hbalance : Writes (g.initialBalances.forM importBalance) [.funds] :=
      ⟨by unfold importBalance; infer_instance⟩
    have hvesting : Writes (g.initialVestingBalances.forM importVesting) [.funds, .stakes, .voting] :=
      ⟨by unfold importVesting; infer_instance⟩
    have haccounts : Writes (g.initialAccounts.forM fun a => accountCreateEvaluator a.operation)
        [.funds, .stakes, .listening, .names, .voting, .laps, .redelegations] := ⟨by infer_instance⟩
    rw [Writes.rates_eq h15 (by decide), Writes.rates_eq h14 (by decide),
      Writes.rates_eq h13 (by decide), Writes.rates_eq h12 (by decide)]
  rw [hrest]
  cases h11
  have hview : { t10 with witnessSchedule := { t10.witnessSchedule with
      currentShuffledWitnesses := "initminer" :: initMinerNames } : Database }.rates =
      (t6.rates.1, "initminer" :: initMinerNames) :=
    congrArg (fun r => (r.1, "initminer" :: initMinerNames)) hrates10
  rw [hview]
  refine ⟨fun name hname => ?_, ok6.feeds⟩
  have hfirst : ∃ id rate, t6.rates.1.find? id = some ("initminer", rate) :=
    ⟨i4, r4, keep6 _ _ (keep5 _ _ hi4)⟩
  simp only [initMinerNames, List.mem_cons, List.not_mem_nil, or_false] at hname
  rcases hname with rfl | rfl | rfl | rfl
  · exact hfirst
  · exact hfirst
  · exact ⟨i5, r5, keep6 _ _ hi5⟩
  · exact ⟨i6, r6, hi6⟩

/-- The condition on the parts of a run: where feeds are collected, they are sound. -/
def FeedsSoundAt (s : Database) : Part → Prop
  | .medianFeed => FeedsSound s
  | _ => True

/-- Along runs that meet the condition, the prices are always in order. -/
theorem PiecewiseIf.pricesOk {s : Database} (h : PiecewiseIf FeedsSoundAt s) : PricesOk s := by
  induction h with
  | genesis h => exact initGenesis_pricesOk h
  | @move m s s' hs hne hm ih =>
      refine (Move.run_induction (P := PricesOk) (C := fun _ => True) (fun s x h => ⟨h.rates, h.feeds⟩)
        ?_ ?_ ?_ ?_ ?_ hs.proposalsValid (fun _ _ => trivial) ih hm).1
      · exact fun push op s s' hop hv _ hP h => evaluate_pricesOk hop hv hP h
      · exact fun b s s' hP h =>
          hP.congr (Writes.rates_eq h (by decide)) (Writes.feeds_eq h (by decide))
      · exact fun b s s' hP h =>
          hP.congr (Writes.rates_eq h (by decide)) (Writes.feeds_eq h (by decide))
      · exact fun hsettle => absurd hsettle hne
      · exact fun s s' hP h =>
          hP.congr (Writes.rates_eq h (by decide)) (Writes.feeds_eq h (by decide))
  | @part p s s' hs hC hp ih =>
      by_cases hfeed : p = .medianFeed
      · subst hfeed
        have hp : Runs updateMedianFeed s () s' := hp
        exact ⟨Writes.rates_eq hp (by decide) ▸ ih.rates,
          updateMedianFeed_feedsOk ih.rates ih.feeds hC hp⟩
      by_cases hsched : p = .schedule
      · subst hsched
        have hp : Runs updateWitnessSchedule s () s' := hp
        exact ⟨updateWitnessSchedule_ratesOk ih.rates hp,
          Writes.feeds_eq hp (by decide) ▸ ih.feeds⟩
      -- the other parts touch neither the witnesses nor the medians
      have hwrites := Part.writes hfeed hsched
      exact ih.congr (Writes.rates_eq hp (by decide)) (Writes.feeds_eq hp (by decide))

/-- **The price steps complete.** If at every update of the median the feeds that are counted
quote the same way and more than half of them are sane, then the median feed and the virtual
supply can be updated, and as long as the feed history `t` is that of `s` every conversion
`create_mbd`, `adjust_supply` and the interest payment do is exact. -/
theorem price_steps_complete {s : Database} (hs : PiecewiseIf FeedsSoundAt s)
    (hbtcm : InRange s.dgpo.currentSupply) (hmbd : InRange s.dgpo.currentMbdSupply) :
    (∃ s', Runs updateMedianFeed s () s') ∧ (∃ s', Runs updateVirtualSupply s () s') ∧
    ∀ t : Database, t.feedHistory = s.feedHistory →
      (t.feedHistory.actualMedianHistory.isNull = false →
        ∀ x, InRange x → ∃ y, (btcm x).mulPrice t.feedHistory.actualMedianHistory = .ok (xusd y) ∧
          0 ≤ y.toInt ∧ y.toInt ≤ 1000 * x.toInt) ∧
      (t.feedHistory.actualMedianHistory.isNull = t.feedHistory.effectiveMedianHistory.isNull) ∧
      (t.feedHistory.effectiveMedianHistory.isNull = false →
        (∀ x, InRange x → ∃ y, (xusd x).mulPrice t.feedHistory.effectiveMedianHistory = .ok (btcm y) ∧
          0 ≤ y.toInt ∧ y.toInt ≤ 1000 * x.toInt) ∧
        ∀ delta, InRange t.dgpo.currentSupply →
          0 ≤ t.dgpo.currentMbdSupply.toInt + delta.toInt ∧
            t.dgpo.currentMbdSupply.toInt + delta.toInt < 2 ^ 50 →
          ∃ t', Runs (adjustSupply (xusd delta)) t () t') := by
  obtain ⟨hrates, hfeeds⟩ := hs.pricesOk
  refine ⟨updateMedianFeed_completes hrates hmbd.2, updateVirtualSupply_completes hfeeds hbtcm hmbd,
    ?_⟩
  intro t ht
  rw [← ht] at hfeeds
  rcases hfeeds.medians with ⟨hactual, heffective⟩ | ⟨hfeed, hsane, hwithin⟩
  · refine ⟨fun h => ?_, hactual.trans heffective.symm, fun h => ?_⟩
    · exact absurd (hactual.symm.trans h) (by decide)
    · exact absurd (heffective.symm.trans h) (by decide)
  · refine ⟨fun _ x hx => hfeed.convert hsane hx, hfeed.isNull.trans hwithin.isNull.symm,
      fun _ => ⟨fun x hx => hwithin.convert hx, fun delta hb hd => ?_⟩⟩
    exact adjustSupply_xusd_completes hwithin hb hd

end Runs

/-! ## A feed that counts alone -/

section Samples

open Sample

/-- A feed of one XUSD for one BTCM. -/
def parFeed : Price := ⟨btcm 1, xusd 1⟩

/-- A feed that values a single satoshi of BTCM at 2^62. -/
def wildFeed : Price := ⟨btcm 1, xusd 4611686018427387904⟩

/-- With a feed of one to one, conversions are at par and nothing can fail. -/
theorem price_steps_complete_at_par :
    ∃ s, PiecewiseIf FeedsSoundAt s ∧ s.feedHistory.actualMedianHistory = parFeed ∧
      (∃ s', Runs updateVirtualSupply s () s') ∧
      ∃ y, (btcm 5000).mulPrice s.feedHistory.actualMedianHistory = .ok (xusd y) := by
  have hrun : leadsTo (initGenesis richGenesis) {} (fun s =>
      leadsTo (Move.operation (.feedPublish "initminer1" parFeed)).run s fun t =>
      decide (t.currentRates = [parFeed] ∧ t.dgpo.currentSupply = 1000000 ∧
        t.dgpo.currentMbdSupply = 0) &&
      leadsTo updateMedianFeed t fun u =>
      decide (u.feedHistory.actualMedianHistory = parFeed ∧ u.dgpo.currentSupply = 1000000 ∧
        u.dgpo.currentMbdSupply = 0)) = true := by
    decide +kernel
  obtain ⟨s, hs, hrun⟩ := leadsTo_iff.mp hrun
  obtain ⟨t, ht, hrun⟩ := leadsTo_iff.mp hrun
  rw [Bool.and_eq_true] at hrun
  obtain ⟨hsound, hrun⟩ := hrun
  obtain ⟨u, hu, hdone⟩ := leadsTo_iff.mp hrun
  obtain ⟨hrates, hsupply, hmbd⟩ := of_decide_eq_true hsound
  obtain ⟨hmedian, hsupply', hmbd'⟩ := of_decide_eq_true hdone
  have htr : PiecewiseIf FeedsSoundAt t := .move (.genesis hs) (fun h => by cases h) ht
  have hfeeds : FeedsSound t := by
    intro _ _
    rw [hrates, hsupply, hmbd]
    refine ⟨?_, by decide, by unfold InRange; decide, by decide⟩
    intro p hp q hq
    rw [List.mem_singleton.mp hp, List.mem_singleton.mp hq]
  have hur : PiecewiseIf FeedsSoundAt u := .part (p := .medianFeed) htr hfeeds hu
  have hin : InRange u.dgpo.currentSupply := by
    rw [hsupply']
    unfold InRange
    decide
  have hin' : InRange u.dgpo.currentMbdSupply := by
    rw [hmbd']
    unfold InRange
    decide
  obtain ⟨-, hvirtual, hconv⟩ := price_steps_complete hur hin hin'
  refine ⟨u, hur, hmedian, hvirtual, ?_⟩
  obtain ⟨y, hy, -⟩ := (hconv u rfl).1 (by rw [hmedian]; decide) 5000 (by unfold InRange; decide)
  exact ⟨y, hy⟩

/-- A block without transactions, at the time of the `n`th block behind the first one. -/
def quietBlock (n : Nat) : SignedBlock := ⟨"initminer", UInt32.ofNat (1585422006 + 3 * n), []⟩

/-- `initminer1` alone publishes a feed, and an hour of blocks passes. -/
def wildHour : DbM Unit := do
  initGenesis richGenesis
  applyBlock { firstBlock with transactions := [[.feedPublish "initminer1" wildFeed]] }
  ((List.range 1199).map quietBlock).forM advanceClock
  settleBlock

/-- Less than half of the scheduled witnesses have published anything, but their median counts,
and `create_mbd` cannot convert 5000 BTCM at it. -/
theorem lone_feed_stops_create_mbd :
    ∃ s, Reachable s ∧
      2 * s.currentRates.length < s.witnessSchedule.currentShuffledWitnesses.length ∧
      InRange s.dgpo.currentSupply ∧ 5000 ≤ s.dgpo.currentSupply.toInt ∧
      InRange s.dgpo.currentMbdSupply ∧
      ∀ a r s', ¬Runs (createMbd a (btcm 5000)) s r s' := by
  have hrun : leadsTo wildHour {} (fun s =>
      decide (s.feedHistory.actualMedianHistory = wildFeed ∧ s.dgpo.currentSupply = 1010000 ∧
        s.dgpo.currentMbdSupply = 0 ∧
        2 * s.currentRates.length < s.witnessSchedule.currentShuffledWitnesses.length)) = true := by
    decide +kernel
  obtain ⟨s, hs, hdone⟩ := leadsTo_iff.mp hrun
  obtain ⟨hfeed, hsupply, hmbd, hfew⟩ := of_decide_eq_true hdone
  have hreach : Reachable s := by
    simp only [wildHour, runs_bind] at hs
    obtain ⟨_, t1, h1, _, t2, h2, _, t3, h3, h4⟩ := hs
    have r2 : Reachable t2 := applyBlock_reachable (.genesis h1) h2
    have r3 : Reachable t3 :=
      forM_induction (fun b _ _ _ hr h => hr.move (m := .advance b) h) h3 r2
    exact r3.move (m := .settle) h4
  refine ⟨s, hreach, hfew, ?_, ?_, ?_, ?_⟩
  · rw [hsupply]
    unfold InRange
    decide
  · rw [hsupply]
    decide
  · rw [hmbd]
    unfold InRange
    decide
  · intro a r s' h
    unfold createMbd at h
    rw [if_neg (show ¬(btcm 5000).amount = 0 by decide), runs_bind_reads, hfeed,
      if_neg (show ¬wildFeed.isNull = true by decide), runs_bind_ofExcept] at h
    obtain ⟨mbd, hmbd, -⟩ := h
    have herr : ((btcm 5000).mulPrice wildFeed).toBool = false := by decide
    rw [hmbd] at herr
    cases herr

end Samples

end BtcmChain
