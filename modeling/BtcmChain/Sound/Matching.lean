import BtcmChain.Lib.Respects
import BtcmChain.Sound.Conservation
import BtcmChain.Sound.Prices

set_option autoImplicit false
set_option synthInstance.maxSize 10000000
set_option synthInstance.maxHeartbeats 200000

/-!
# Matching

What a walk of `apply_order` visits, and what a match of two orders does: both pay what the rate
of the resting order settles, one of them leaves the book, and what is left of the other stays in
it or is refunded.

`Filled` says how a match leaves one order, `Matched` what a match does to both, and `Thinned` what
any number of matches and cancellations do to the book: orders leave it or get smaller, none is
added, and none changes its price. `Price.ceiling` is where the walk starts. `Sound.OrderBook` asks
whether the book can be crossed afterwards, and `Sound.Fills` what was paid.
-/

namespace BtcmChain

/-! ## The walk -/

section Walk

variable {s : Database} {k : ℕ} {o : LimitOrderObject} {maxPrice bound : Price}

/-- Every price in the order book is a valid one. -/
def Database.PricesValid (s : Database) : Prop :=
  ∀ k o, s.limitOrders.find? k = some o → o.sellPrice.Valid

theorem mem_ordersByPrice : (k, o) ∈ s.ordersByPrice ↔ s.limitOrders.find? k = some o := by
  rw [Database.ordersByPrice, List.mem_insertionSort, ObjectIndex.mem_entries_iff]

/-- The best price comes first in the order that the book is walked through. -/
theorem ordersByPrice_sorted (h : s.PricesValid) :
    s.ordersByPrice.Pairwise fun a b => b.2.sellPrice.key ≤ a.2.sellPrice.key := by
  have hmap : s.ordersByPrice.map (fun e => e.2.sellPrice.key) =
      (s.limitOrders.entries.map fun e => e.2.sellPrice.key).insertionSort (· ≥ ·) := by
    refine List.map_insertionSort _ _ _ _ fun a ha b hb => ?_
    have hva := h a.1 a.2 (ObjectIndex.mem_entries_iff.mp ha)
    have hvb := h b.1 b.2 (ObjectIndex.mem_entries_iff.mp hb)
    rw [Bool.not_eq_true, Price.not_lt_iff_key hva hvb]
  have hsorted := List.pairwise_insertionSort (· ≥ ·)
    (s.limitOrders.entries.map fun e => e.2.sellPrice.key)
  rw [← hmap, List.pairwise_map] at hsorted
  exact hsorted

theorem runsOff_iff : (s.walkFor maxPrice bound).runsOff = true ↔
    ∃ k o, s.limitOrders.find? k = some o ∧ bound.lt o.sellPrice = true ∧
      o.sellPrice.lt maxPrice = true := by
  have hany : (s.ordersByPrice.any fun e => bound.lt e.2.sellPrice && e.2.sellPrice.lt maxPrice) = true ↔
      ∃ k o, s.limitOrders.find? k = some o ∧ bound.lt o.sellPrice = true ∧
        o.sellPrice.lt maxPrice = true := by
    simp only [List.any_eq_true, Bool.and_eq_true, Prod.exists, mem_ordersByPrice]
  rw [← hany, Database.walkFor]
  split
  case isTrue h => simp [h]
  case isFalse h => simp [h]

/-- The walk starts at its upper bound: what lies above the bound is skipped. -/
theorem dropWhile_ordersByPrice (hs : s.PricesValid) (hbound : bound.Valid) :
    (s.ordersByPrice.dropWhile fun e => bound.lt e.2.sellPrice) =
      s.ordersByPrice.filter fun e => !bound.lt e.2.sellPrice := by
  refine dropWhile_eq_filter ((ordersByPrice_sorted hs).imp_of_mem fun {a b} ha hb hab hlt => ?_)
  rw [Price.lt_iff_key hbound (hs b.1 b.2 (mem_ordersByPrice.mp hb))] at hlt
  exact (Price.lt_iff_key hbound (hs a.1 a.2 (mem_ordersByPrice.mp ha))).mpr (hlt.trans_le hab)

/-- A walk that stays in the index visits what is between the two prices. -/
theorem mem_walk (hs : s.PricesValid) (hmax : maxPrice.Valid) (hbound : bound.Valid)
    (h : (s.walkFor maxPrice bound).runsOff = false) :
    k ∈ (s.walkFor maxPrice bound).orders ↔ ∃ o, s.limitOrders.find? k = some o ∧
      maxPrice.key ≤ o.sellPrice.key ∧ o.sellPrice.key ≤ bound.key := by
  have hvalid : ∀ e ∈ s.ordersByPrice, e.2.sellPrice.Valid := fun e he => hs e.1 e.2 (mem_ordersByPrice.mp he)
  have htake : ((s.ordersByPrice.filter fun e => !bound.lt e.2.sellPrice).takeWhile
      fun e => ¬ e.2.sellPrice.lt maxPrice) =
      (s.ordersByPrice.filter fun e => !bound.lt e.2.sellPrice).filter
        fun e => ¬ e.2.sellPrice.lt maxPrice := by
    refine takeWhile_eq_filter
      (((ordersByPrice_sorted hs).filter _).imp_of_mem fun {a b} ha hb hab hge => ?_)
    have ha := hvalid _ (List.mem_filter.mp ha).1
    have hb := hvalid _ (List.mem_filter.mp hb).1
    simp only [decide_eq_true_eq, Bool.not_eq_true, Price.not_lt_iff_key ha hmax,
      Price.not_lt_iff_key hb hmax] at hge ⊢
    exact hge.trans hab
  rw [Database.walkFor] at h ⊢
  split at h
  · cases h
  · rename_i hoff
    rw [if_neg hoff, dropWhile_ordersByPrice hs hbound, htake]
    simp only [List.mem_map, List.mem_filter, Prod.exists, exists_and_right, exists_eq_right,
      mem_ordersByPrice, Bool.not_eq_true', decide_eq_true_eq, Bool.not_eq_true]
    refine exists_congr fun o => ?_
    constructor
    · rintro ⟨⟨ho, hle⟩, hge⟩
      exact ⟨ho, (Price.not_lt_iff_key (hs k o ho) hmax).mp hge,
        (Price.not_lt_iff_key hbound (hs k o ho)).mp hle⟩
    · rintro ⟨ho, hge, hle⟩
      exact ⟨⟨ho, (Price.not_lt_iff_key hbound (hs k o ho)).mpr hle⟩,
        (Price.not_lt_iff_key (hs k o ho) hmax).mpr hge⟩

/-- No walk visits an order whose price is above the walk's upper bound. -/
theorem walk_le_bound (hs : s.PricesValid) (hbound : bound.Valid)
    (h : k ∈ (s.walkFor maxPrice bound).orders) (ho : s.limitOrders.find? k = some o) :
    o.sellPrice.key ≤ bound.key := by
  have hmem : (k, o) ∈ s.ordersByPrice.dropWhile fun e => bound.lt e.2.sellPrice := by
    have hstart : ∃ e ∈ s.ordersByPrice.dropWhile fun e => bound.lt e.2.sellPrice, e.1 = k := by
      rw [Database.walkFor] at h
      split at h
      · exact List.mem_map.mp h
      · obtain ⟨e, he, hk⟩ := List.mem_map.mp h
        exact ⟨e, (List.takeWhile_sublist _).subset he, hk⟩
    obtain ⟨e, he, rfl⟩ := hstart
    have hfind := mem_ordersByPrice.mp ((List.dropWhile_sublist _).subset he)
    rw [Option.some.inj (ho.symm.trans hfind)]
    exact he
  rw [dropWhile_ordersByPrice hs hbound] at hmem
  have hnot := (List.mem_filter.mp hmem).2
  rw [Bool.not_eq_true'] at hnot
  exact (Price.not_lt_iff_key hbound (hs k o ho)).mp hnot

/-- No order is visited twice on one walk. -/
theorem walk_nodup : (s.walkFor maxPrice bound).orders.Nodup := by
  have hentries : (s.limitOrders.entries.map Prod.fst).Nodup :=
    List.pairwise_map.mpr (s.limitOrders.objs.sorted.imp fun h => h.ne)
  have hsorted : (s.ordersByPrice.map Prod.fst).Nodup :=
    ((List.perm_insertionSort _ s.limitOrders.entries).map Prod.fst).nodup_iff.mpr hentries
  rw [Database.walkFor]
  split
  · exact hsorted.sublist ((List.dropWhile_sublist _).map Prod.fst)
  · exact hsorted.sublist (((List.takeWhile_sublist _).trans (List.dropWhile_sublist _)).map Prod.fst)

end Walk

/-! ## Matches -/

theorem Asset.le_ok {a b : Asset} {r : Bool} :
    a.le b = .ok r ↔ a.assetId = b.assetId ∧ r = decide (a.amount.toInt ≤ b.amount.toInt) := by
  simp only [Asset.le]
  split
  case isTrue h =>
    subst h
    simp [eq_comm]
  case isFalse h =>
    rw [Asset.lt_ok]
    refine and_congr_right fun hid => ?_
    have hne : a.amount.toInt ≠ b.amount.toInt := fun heq => by
      obtain ⟨x, i⟩ := a
      obtain ⟨y, j⟩ := b
      obtain rfl := Int64.toInt_inj.mp heq
      obtain rfl : i = j := hid
      exact h rfl
    have hle : a.amount < b.amount ↔ a.amount.toInt ≤ b.amount.toInt := by
      rw [Int64.lt_iff_toInt_lt]
      omega
    simp only [hle]

section Match

variable {n o : LimitOrderObject}

/-- A resting order, as it should be: it has something for sale, for which it receives something. -/
structure LimitOrderObject.OnOffer (o : LimitOrderObject) : Prop where
  valid : o.sellPrice.Valid
  worth_pos : 0 < valid.rate.worth o.forSale.toInt
  worth_lt : valid.rate.worth o.forSale.toInt < 2 ^ 63

theorem LimitOrderObject.OnOffer.forSale_pos (h : o.OnOffer) : 0 < o.forSale.toInt :=
  Rate.pos_of_worth_pos h.worth_pos

theorem amountToReceive_worth (hp : o.sellPrice.Valid) (hpos : 0 ≤ o.forSale.toInt)
    (hfit : hp.rate.worth o.forSale.toInt < 2 ^ 63) :
    ∃ c, o.amountToReceive = .ok c ∧ c.assetId = o.sellPrice.quote.assetId ∧
      c.amount.toInt = hp.rate.worth o.forSale.toInt :=
  Asset.mulPrice_worth hp rfl hpos hfit

/-- Two orders trade only if one buys what the other sells. -/
theorem market_of_tradeAt {trade : Trade} (ho : o.OnOffer)
    (h : tradeAt n.amountForSale o.amountForSale o.sellPrice = .ok trade) :
    n.sellPrice.base.assetId = o.sellPrice.quote.assetId := by
  obtain ⟨c, hc, hid, -⟩ := amountToReceive_worth ho.valid ho.forSale_pos.le ho.worth_lt
  simp only [tradeAt, except_bind_ok] at h
  obtain ⟨c', hc', fits, hfits, -⟩ := h
  obtain rfl := Except.ok.inj (hc.symm.trans hc')
  exact (Asset.le_ok.mp hfits).1.trans hid

/-- What is traded is what the rate of the resting order settles. -/
theorem tradeAt_settle (ho : o.OnOffer) (hn : 0 < n.forSale.toInt)
    (hmarket : n.sellPrice.base.assetId = o.sellPrice.quote.assetId) :
    ∃ trade, tradeAt n.amountForSale o.amountForSale o.sellPrice = .ok trade ∧
      trade.newPays.assetId = n.sellPrice.base.assetId ∧
      trade.oldPays.assetId = o.sellPrice.base.assetId ∧
      trade.newPays.amount.toInt = (ho.valid.rate.settle n.forSale.toInt o.forSale.toInt).1 ∧
      trade.oldPays.amount.toInt = (ho.valid.rate.settle n.forSale.toInt o.forSale.toInt).2 := by
  obtain ⟨c, hc, hid, hval⟩ := amountToReceive_worth ho.valid ho.forSale_pos.le ho.worth_lt
  have hle : n.amountForSale.le c =
      .ok (decide (n.forSale.toInt ≤ ho.valid.rate.worth o.forSale.toInt)) := by
    rw [Asset.le_ok, hval]
    exact ⟨hmarket.trans hid.symm, rfl⟩
  by_cases hfits : n.forSale.toInt ≤ ho.valid.rate.worth o.forSale.toInt
  · have hpaid := Rate.inv_worth_le hfits
    have hbound := o.forSale.toInt_lt
    obtain ⟨d, hd, hdid, hdval⟩ := Asset.mulPrice_inv_worth (a := n.amountForSale) ho.valid hmarket hn.le
      (lt_of_le_of_lt hpaid (by omega))
    refine ⟨⟨n.amountForSale, d⟩, ?_, rfl, hdid, ?_, ?_⟩
    · simp only [tradeAt, except_bind_ok]
      refine ⟨c, hc, true, by rw [hle, decide_eq_true hfits], ?_⟩
      simp only [if_true, except_bind_ok, except_pure_ok]
      exact ⟨d, hd, rfl⟩
    · rw [Rate.settle, if_pos hfits]
      rfl
    · rw [Rate.settle, if_pos hfits, hdval]
      rfl
  · refine ⟨⟨c, o.amountForSale⟩, ?_, hid.trans hmarket.symm, rfl, ?_, ?_⟩
    · simp only [tradeAt, except_bind_ok]
      refine ⟨c, hc, false, by rw [hle, decide_eq_false hfits], ?_⟩
      rfl
    · rw [Rate.settle, if_neg hfits, hval]
    · rw [Rate.settle, if_neg hfits]
      rfl

/-- What is left of an order that has paid `x`: nothing, or nothing that is worth anything, or a
smaller order. -/
inductive Left (o : LimitOrderObject) (hp : o.sellPrice.Valid) (x : ℤ) : Option LimitOrderObject → Prop
  | sold : x = o.forSale.toInt → Left o hp x none
  | worthless : x < o.forSale.toInt → hp.rate.worth (o.forSale.toInt - x) = 0 → Left o hp x none
  | rests {rest : ShareType} : x < o.forSale.toInt → rest.toInt = o.forSale.toInt - x →
      0 < hp.rate.worth rest.toInt → Left o hp x (some (o.sold rest))

/-- An order with less for sale is still on offer, at the same price. -/
theorem Left.onOffer {x : ℤ} {o' : LimitOrderObject} (ho : o.OnOffer) (hx : 0 ≤ x)
    (h : Left o ho.valid x (some o')) : o'.OnOffer ∧ o'.sellPrice = o.sellPrice := by
  cases h with
  | rests _ hrest hpos =>
      have hle : ho.valid.rate.worth (o.forSale.toInt - x) ≤ ho.valid.rate.worth o.forSale.toInt :=
        Rate.worth_mono (by omega)
      rw [← hrest] at hle
      exact ⟨⟨ho.valid, hpos, lt_of_le_of_lt hle ho.worth_lt⟩, rfl⟩

variable {s s' : Database} {k : ℕ} {pays receives : Asset} {gone : Bool}

/-- What is left of an order stays in the book. -/
def Database.keepRest (s : Database) (k : ℕ) (o : LimitOrderObject) (rest : ShareType) : Database :=
  { s with limitOrders := s.limitOrders.update k fun _ => o.sold rest }

/-- An order is filled: its seller is credited, and then all of it was sold, or the rest is worth
nothing and refunded, or the rest stays in the book. -/
inductive Filled (k : ℕ) (o : LimitOrderObject) (hp : o.sellPrice.Valid) (pays receives : Asset)
    (s : Database) : Bool → Database → Prop
  | sold {id : AccountId} {a : AccountObject} {t : Database} :
      s.accountNamed o.seller = some (id, a) → Runs (adjustBalance id receives) s () t →
      pays = o.amountForSale →
      Filled k o hp pays receives s true { t with limitOrders := t.limitOrders.remove k }
  | refunded {id : AccountId} {a : AccountObject} {t : Database} {rest : ShareType}
      {id' : AccountId} {a' : AccountObject} {u : Database} :
      s.accountNamed o.seller = some (id, a) → Runs (adjustBalance id receives) s () t →
      pays.amount.toInt < o.forSale.toInt → rest.toInt = o.forSale.toInt - pays.amount.toInt →
      hp.rate.worth rest.toInt = 0 →
      (t.keepRest k o rest).accountNamed o.seller = some (id', a') →
      Runs (adjustBalance id' ⟨rest, o.sellPrice.base.assetId⟩) (t.keepRest k o rest) () u →
      Filled k o hp pays receives s true { u with limitOrders := u.limitOrders.remove k }
  | rests {id : AccountId} {a : AccountObject} {t : Database} {rest : ShareType} :
      s.accountNamed o.seller = some (id, a) → Runs (adjustBalance id receives) s () t →
      pays.amount.toInt < o.forSale.toInt → rest.toInt = o.forSale.toInt - pays.amount.toInt →
      0 < hp.rate.worth rest.toInt →
      Filled k o hp pays receives s false (t.keepRest k o rest)

/-- That is what `fill_order` does with an order on offer. -/
theorem fillOrder_filled (ho : o.OnOffer) (hfind : s.limitOrders.find? k = some o)
    (hpos : 0 ≤ pays.amount.toInt) (hle : pays.amount.toInt ≤ o.forSale.toInt)
    (h : Runs (fillOrder k pays receives) s gone s') :
    Filled k o ho.valid pays receives s gone s' := by
  obtain ⟨o', seller, t, ho', hbase, hseller, hcredit, horders, hcases⟩ := runs_fillOrder h
  obtain rfl := Option.some.inj (hfind.symm.trans ho')
  rw [← horders] at hcases
  rcases hcases with ⟨hall, rfl, rfl⟩ | ⟨hpart, rest, hrest, c, u, hc, rfl, hcases⟩
  · exact .sold hseller hcredit hall
  · have hlt : pays.amount.toInt < o.forSale.toInt := by
      refine lt_of_le_of_ne hle fun heq => hpart ?_
      obtain ⟨x, i⟩ := pays
      obtain rfl := Int64.toInt_inj.mp heq
      obtain rfl : o.sellPrice.base.assetId = i := hbase
      rfl
    have hmono : ho.valid.rate.worth rest.toInt ≤ ho.valid.rate.worth o.forSale.toInt :=
      Rate.worth_mono (by omega)
    obtain ⟨d, hd, -, hval⟩ := amountToReceive_worth (o := o.sold rest) ho.valid
      (by show 0 ≤ rest.toInt; omega) (lt_of_le_of_lt hmono ho.worth_lt)
    obtain rfl := Except.ok.inj (hd.symm.trans hc)
    have hrestworth : d.amount.toInt = ho.valid.rate.worth rest.toInt := hval
    rcases hcases with ⟨hzero, rfl, hcancel⟩ | ⟨hsome, rfl, rfl⟩
    · obtain ⟨o', seller', v, ho', hseller', hrefund, hbook, rfl⟩ := runs_cancelOrder hcancel
      have hkept : (t.keepRest k o rest).limitOrders.find? k = some (o.sold rest) := by
        show (t.limitOrders.update k fun _ => o.sold rest).find? k = _
        rw [ObjectIndex.find?_update, if_pos rfl, horders, hfind]
        rfl
      obtain rfl := Option.some.inj (hkept.symm.trans ho')
      rw [← hbook]
      refine .refunded hseller hcredit hlt hrest ?_ hseller' hrefund
      rw [← hrestworth, hzero]
      rfl
    · refine .rests hseller hcredit hlt hrest ?_
      refine lt_of_le_of_ne (Rate.worth_nonneg (by omega)) fun hzero => hsome ?_
      rw [← Int64.toInt_inj, hrestworth, ← hzero]
      rfl

/-- The order that was filled, and the rest of the book. -/
theorem Filled.left {hp : o.sellPrice.Valid} (hfind : s.limitOrders.find? k = some o)
    (h : Filled k o hp pays receives s gone s') :
    Left o hp pays.amount.toInt (s'.limitOrders.find? k) ∧ gone = (s'.limitOrders.find? k).isNone ∧
      (∀ j, j ≠ k → s'.limitOrders.find? j = s.limitOrders.find? j) ∧
      s'.limitOrders.nextId = s.limitOrders.nextId := by
  -- crediting the seller and refunding the rest leave the book alone
  have hremove : ∀ (ix : ObjectIndex LimitOrderObject) (j : ℕ), (ix.remove k).find? j =
      if j = k then none else ix.find? j := fun ix j => ObjectIndex.find?_remove ..
  have hkeep : ∀ {t : Database} {rest : ShareType}, t.limitOrders = s.limitOrders → ∀ j,
      (t.keepRest k o rest).limitOrders.find? j = if j = k then some (o.sold rest)
        else s.limitOrders.find? j := by
    intro t rest ht j
    show (t.limitOrders.update k fun _ => o.sold rest).find? j = _
    rw [ObjectIndex.find?_update, ht, hfind]
    rfl
  cases h with
  | @sold _ _ t _ hcredit hall =>
      have hbook := (adjustBalance_tables hcredit).1
      refine ⟨?_, ?_, fun j hj => ?_, ?_⟩
      · show Left o hp _ ((t.limitOrders.remove k).find? k)
        rw [hremove, if_pos rfl, hall]
        exact .sold rfl
      · show true = ((t.limitOrders.remove k).find? k).isNone
        rw [hremove, if_pos rfl]
        rfl
      · show (t.limitOrders.remove k).find? j = _
        rw [hremove, if_neg hj, hbook]
      · show t.limitOrders.nextId = _
        rw [hbook]
  | @refunded _ _ t rest _ _ u _ hcredit hlt hrest hzero _ hrefund =>
      have hbook := (adjustBalance_tables hcredit).1
      have hbook' := (adjustBalance_tables hrefund).1
      refine ⟨?_, ?_, fun j hj => ?_, ?_⟩
      · show Left o hp _ ((u.limitOrders.remove k).find? k)
        rw [hremove, if_pos rfl]
        exact .worthless hlt (hrest ▸ hzero)
      · show true = ((u.limitOrders.remove k).find? k).isNone
        rw [hremove, if_pos rfl]
        rfl
      · show (u.limitOrders.remove k).find? j = _
        rw [hremove, if_neg hj, hbook', hkeep hbook, if_neg hj]
      · show u.limitOrders.nextId = _
        rw [hbook', ← hbook]
        rfl
  | @rests _ _ t rest _ hcredit hlt hrest hpos =>
      have hbook := (adjustBalance_tables hcredit).1
      refine ⟨?_, ?_, fun j hj => ?_, ?_⟩
      · rw [hkeep hbook, if_pos rfl]
        exact .rests hlt hrest hpos
      · rw [hkeep hbook, if_pos rfl]
        rfl
      · rw [hkeep hbook, if_neg hj]
      · show t.limitOrders.nextId = _
        rw [hbook]

end Match

section Loop

variable {s s' : Database} {new old : ℕ} {gone : Bool}

/-- Every resting order of the book is on offer: it has something for sale, at a valid price. -/
def Database.BookSound (s : Database) : Prop :=
  ∀ k o, s.limitOrders.find? k = some o → o.OnOffer

theorem Database.BookSound.pricesValid (h : s.BookSound) : s.PricesValid := fun k o ho => (h k o ho).valid

/-- What a match of two orders does to the book. -/
structure Matched (s : Database) (new old : ℕ) (n o : LimitOrderObject) (trade : Trade) (gone : Bool)
    (s' : Database) : Prop where
  ne : new ≠ old
  onOffer : n.OnOffer
  onOffer_old : o.OnOffer
  found : s.limitOrders.find? new = some n
  found_old : s.limitOrders.find? old = some o
  market : n.sellPrice.base.assetId = o.sellPrice.quote.assetId
  trade_eq : tradeAt n.amountForSale o.amountForSale o.sellPrice = .ok trade
  pays : trade.newPays.amount.toInt =
    (onOffer_old.valid.rate.settle n.forSale.toInt o.forSale.toInt).1
  pays_old : trade.oldPays.amount.toInt =
    (onOffer_old.valid.rate.settle n.forSale.toInt o.forSale.toInt).2
  filled : ∃ t gone', Filled new n onOffer.valid trade.newPays trade.oldPays s gone t ∧
    Filled old o onOffer_old.valid trade.oldPays trade.newPays t gone' s'
  left : Left n onOffer.valid trade.newPays.amount.toInt (s'.limitOrders.find? new)
  left_old : Left o onOffer_old.valid trade.oldPays.amount.toInt (s'.limitOrders.find? old)
  gone_iff : gone = (s'.limitOrders.find? new).isNone
  others : ∀ j, j ≠ new → j ≠ old → s'.limitOrders.find? j = s.limitOrders.find? j
  nextId : s'.limitOrders.nextId = s.limitOrders.nextId

theorem matchOrders_matched (hs : s.BookSound) (h : Runs (matchOrders new old) s gone s') :
    ∃ n o trade, Matched s new old n o trade gone s' := by
  obtain ⟨n, o, trade, gone', t, hn, ho, htrade, h1, h2⟩ := runs_matchOrders h
  have hon := hs new n hn
  have hoo := hs old o ho
  have hmarket := market_of_tradeAt hoo htrade
  have hne : new ≠ old := by
    rintro rfl
    obtain rfl := Option.some.inj (hn.symm.trans ho)
    exact hon.valid.market hmarket
  obtain ⟨trade', htrade', -, -, hx, hy⟩ := tradeAt_settle hoo hon.forSale_pos hmarket
  obtain rfl := Except.ok.inj (htrade'.symm.trans htrade)
  obtain ⟨⟨hxpos, hxle⟩, ⟨hypos, hyle⟩, -⟩ := Rate.settle_bounds hon.forSale_pos hoo.worth_pos
  rw [← hx] at hxpos hxle
  rw [← hy] at hypos hyle
  have hfilled := fillOrder_filled hon hn hxpos.le hxle h1
  obtain ⟨hleft, hgone, hsame, hnext⟩ := hfilled.left hn
  have ho' : t.limitOrders.find? old = some o := (hsame old hne.symm).trans ho
  have hfilled' := fillOrder_filled hoo ho' hypos hyle h2
  obtain ⟨hleft', -, hsame', hnext'⟩ := hfilled'.left ho'
  exact ⟨n, o, trade', {
    ne := hne
    onOffer := hon
    onOffer_old := hoo
    found := hn
    found_old := ho
    market := hmarket
    trade_eq := htrade
    pays := hx
    pays_old := hy
    filled := ⟨t, gone', hfilled, hfilled'⟩
    left := (hsame' new hne).symm ▸ hleft
    left_old := hleft'
    gone_iff := (hsame' new hne).symm ▸ hgone
    others := fun j hj hj' => (hsame' j hj').trans (hsame j hj)
    nextId := hnext'.trans hnext }⟩

/-- Orders leave the book or get smaller; none is added, and none changes its price. -/
structure Thinned (s s' : Database) : Prop where
  find : ∀ k o', s'.limitOrders.find? k = some o' → ∃ o, s.limitOrders.find? k = some o ∧
    o'.sellPrice = o.sellPrice ∧ (o.OnOffer → o'.OnOffer)
  nextId : s'.limitOrders.nextId = s.limitOrders.nextId

instance : Preorder₂ Thinned where
  refl _ := ⟨fun _ o h => ⟨o, h, rfl, id⟩, rfl⟩
  trans h1 h2 := by
    refine ⟨fun k o'' h => ?_, h2.nextId.trans h1.nextId⟩
    obtain ⟨o', ho', hp', hon'⟩ := h2.find k o'' h
    obtain ⟨o, ho, hp, hon⟩ := h1.find k o' ho'
    exact ⟨o, ho, hp'.trans hp, fun h => hon' (hon h)⟩

theorem Thinned.pricesValid (h : Thinned s s') (hs : s.PricesValid) : s'.PricesValid := by
  intro k o' ho'
  obtain ⟨o, ho, hp, -⟩ := h.find k o' ho'
  exact hp ▸ hs k o ho

theorem Thinned.bookSound (h : Thinned s s') (hs : s.BookSound) : s'.BookSound := by
  intro k o' ho'
  obtain ⟨o, ho, -, hon⟩ := h.find k o' ho'
  exact hon (hs k o ho)

/-- An order that has left the book stays away from it. -/
theorem Thinned.find_none (h : Thinned s s') {k : ℕ} (hk : s.limitOrders.find? k = none) :
    s'.limitOrders.find? k = none := by
  cases hk' : s'.limitOrders.find? k with
  | none => rfl
  | some o' =>
      obtain ⟨o, ho, -⟩ := h.find k o' hk'
      rw [hk] at ho
      cases ho

theorem Left.none_of_sold {o : LimitOrderObject} {hp : o.sellPrice.Valid} {x : ℤ}
    {r : Option LimitOrderObject} (h : Left o hp x r) (hx : x = o.forSale.toInt) : r = none := by
  cases h with
  | sold => rfl
  | worthless => rfl
  | rests hlt => exact absurd hx hlt.ne

section Matched

variable {n o : LimitOrderObject} {trade : Trade} (h : Matched s new old n o trade gone s')

include h

theorem Matched.bounds :
    (0 < trade.newPays.amount.toInt ∧ trade.newPays.amount.toInt ≤ n.forSale.toInt) ∧
      (0 ≤ trade.oldPays.amount.toInt ∧ trade.oldPays.amount.toInt ≤ o.forSale.toInt) ∧
      (trade.newPays.amount.toInt = n.forSale.toInt ∨ trade.oldPays.amount.toInt = o.forSale.toInt) := by
  rw [h.pays, h.pays_old]
  exact Rate.settle_bounds h.onOffer.forSale_pos h.onOffer_old.worth_pos

/-- One of the two orders leaves the book in a match, since one of them is filled. -/
theorem Matched.one_leaves : s'.limitOrders.find? new = none ∨ s'.limitOrders.find? old = none := by
  obtain ⟨-, -, hfull | hfull⟩ := h.bounds
  · exact Or.inl (h.left.none_of_sold hfull)
  · exact Or.inr (h.left_old.none_of_sold hfull)

theorem Matched.thinned : Thinned s s' := by
  obtain ⟨⟨hxpos, -⟩, ⟨hypos, -⟩, -⟩ := h.bounds
  refine ⟨fun k o' ho' => ?_, h.nextId⟩
  by_cases hk : k = new
  · subst hk
    have hleft := h.left
    rw [ho'] at hleft
    obtain ⟨hon, hp⟩ := hleft.onOffer h.onOffer hxpos.le
    exact ⟨n, h.found, hp, fun _ => hon⟩
  · by_cases hk' : k = old
    · subst hk'
      have hleft := h.left_old
      rw [ho'] at hleft
      obtain ⟨hon, hp⟩ := hleft.onOffer h.onOffer_old hypos
      exact ⟨o, h.found_old, hp, fun _ => hon⟩
    · rw [h.others k hk hk'] at ho'
      exact ⟨o', ho', rfl, id⟩

end Matched

/-- A walk thins the book, and if the new order is still there then nothing it visited is. -/
theorem matchAll_thinned {off : Bool} {l : List ℕ} (hs : s.BookSound)
    (h : Runs (matchAll new off l) s () s') :
    Thinned s s' ∧ (s'.limitOrders.find? new = none ∨
      off = false ∧ ∀ k ∈ l, s'.limitOrders.find? k = none) := by
  induction l generalizing s with
  | nil =>
      rw [matchAll, runs_ite] at h
      rcases h with ⟨-, h⟩ | ⟨hoff, h⟩
      · exact absurd h runs_throw
      · obtain ⟨-, rfl⟩ := runs_pure.mp h
        exact ⟨Preorder₂.refl _, Or.inr ⟨Bool.eq_false_iff.mpr hoff, fun k hk => absurd hk List.not_mem_nil⟩⟩
  | cons old l ih =>
      rw [matchAll, runs_bind] at h
      obtain ⟨finished, t, h1, h2⟩ := h
      obtain ⟨n, o, trade, hm⟩ := matchOrders_matched hs h1
      rcases runs_ite.mp h2 with ⟨hfin, h2⟩ | ⟨hfin, h2⟩
      · obtain ⟨-, rfl⟩ := runs_pure.mp h2
        have hnone := hm.gone_iff.symm.trans hfin
        exact ⟨hm.thinned, Or.inl (Option.isNone_iff_eq_none.mp hnone)⟩
      · obtain ⟨hthin, hrest⟩ := ih (hm.thinned.bookSound hs) h2
        refine ⟨Preorder₂.trans hm.thinned hthin, hrest.imp id fun h => ⟨h.1, fun k hk => ?_⟩⟩
        rcases List.mem_cons.mp hk with rfl | hk
        · -- the new order is still there, so the old one is not
          rcases hm.one_leaves with hnew | hold
          · exact absurd (hm.gone_iff.trans (by rw [hnew]; rfl)) hfin
          · exact hthin.find_none hold
        · exact h.2 k hk

end Loop

/-! ## Everything else -/

section Thinning

/-- All concerns but the orders, with which the book does not change. -/
abbrev besideOrders : List Concern :=
  [.funds, .stakes, .listening, .requests, .splits, .pools, .catalogue, .pending, .names, .clock,
    .rates, .feeds, .voting, .redelegations, .routes, .finality, .slots, .laps]

theorem thinned_congr {s s' : Database} (h : s'.limitOrders = s.limitOrders) : Thinned s s' := by
  refine ⟨fun k o ho => ⟨o, ?_, rfl, id⟩, by rw [h]⟩
  rwa [h] at ho

instance (priority := low) {α : Type} (m : DbM α) [h : Within besideOrders m] : Respects Thinned m :=
  ⟨fun hr => thinned_congr (h.same (i := .orders) (by decide) hr)⟩

instance (order : ℕ) : Respects Thinned (cancelOrder order) :=
  ⟨fun {s _ _} hr => by
    obtain ⟨o, seller, t, -, -, -, -, rfl⟩ := runs_cancelOrder hr
    refine ⟨fun k o' ho' => ⟨o', ?_, rfl, id⟩, rfl⟩
    have ho' : (s.limitOrders.remove order).find? k = some o' := ho'
    rw [ObjectIndex.find?_remove] at ho'
    split at ho'
    · cases ho'
    · exact ho'⟩

instance : Respects Thinned clearExpiredOrders := by
  unfold clearExpiredOrders
  infer_instance

instance : Respects Thinned settleBlock := by
  unfold settleBlock
  infer_instance

end Thinning

/-! ## New orders -/

/-- The price at which an operation places a new order, if it places one. -/
def Operation.sellPrice? : Operation → Option Price
  | .limitOrderCreate o => some ⟨o.amountToSell, o.minToReceive⟩
  | .limitOrderCreate2 o => some o.exchangeRate
  | _ => none

/-- Where the walk of a new order at this price starts. -/
def Price.ceiling (p : Price) : Price :=
  ⟨⟨BTCM_MAX_SHARE_SUPPLY, p.quote.assetId⟩, ⟨1, p.base.assetId⟩⟩

theorem Price.Valid.ceiling {p : Price} (h : p.Valid) : p.ceiling.Valid where
  base_pos := show 0 < BTCM_MAX_SHARE_SUPPLY.toInt by decide
  quote_pos := show 0 < (1 : ShareType).toInt by decide
  market := h.market.symm

theorem Price.max_eq_ceiling {p : Price} (h : p.Valid) :
    Price.max p.inv.base.assetId p.inv.quote.assetId = .ok p.ceiling :=
  if_pos h.market.symm

/-- `limit_order_create_evaluator` up to `create<limit_order_object>`: the order rests in the book.
-/
def placeOrder (owner : String) (orderid : UInt32) (amountToSell : Asset) (price : Except Exn Price)
    (expiration : TimePointSec) : DbM ℕ := do
  let now ← headBlockTime
  require (now < expiration) "o.expiration > db().head_block_time()"
  let acct ← getAccount owner
  let balance ← getBalance acct.id amountToSell.assetId
  requireE (balance.ge amountToSell)
    "db().get_balance( owner, o.amount_to_sell.asset_id ) >= o.amount_to_sell"
  let debit ← ofExcept amountToSell.neg
  adjustBalance acct.id debit
  let sellPrice ← ofExcept price
  limitOrderIndex.create
    { created := now, seller := owner, orderid, forSale := amountToSell.amount, sellPrice, expiration }

section Orders

variable [Externals] {s s' : Database} {p : Price}

omit [Externals] in
/-- The walk of a new order through the book, which `apply_order` makes. -/
theorem runs_applyOrder {k : ℕ} {n : LimitOrderObject} {gone : Bool}
    (hn : s.limitOrders.find? k = some n) (hp : n.sellPrice.Valid)
    (h : Runs (applyOrder k) s gone s') :
    Runs (matchAll k (s.walkFor n.sellPrice.inv n.sellPrice.ceiling).runsOff
      (s.walkFor n.sellPrice.inv n.sellPrice.ceiling).orders) s () s' := by
  simp only [applyOrder, runs_bind_get, runs_bind_ofExcept, runs_bind_reads] at h
  obtain ⟨o, ho, bound, hbound, h⟩ := h
  obtain rfl := Option.some.inj (hn.symm.trans ho)
  obtain rfl := Except.ok.inj ((Price.max_eq_ceiling hp).symm.trans hbound)
  obtain ⟨_, t, hall, h⟩ := runs_bind.mp h
  obtain ⟨-, rfl⟩ := runs_reads.mp h
  exact hall

omit [Externals] in
theorem createOrder_eq {owner : String} {orderid : UInt32} {amountToSell : Asset}
    {price : Except Exn Price} {fillOrKill : Bool} {expiration : TimePointSec} :
    createOrder owner orderid amountToSell price fillOrKill expiration = (do
      let order ← placeOrder owner orderid amountToSell price expiration
      let filled ← applyOrder order
      require (!fillOrKill || filled) "filled") := by
  simp only [createOrder, placeOrder, bind_assoc]

omit [Externals] in
theorem runs_placeOrder {owner : String} {orderid : UInt32} {amountToSell : Asset}
    {price : Except Exn Price} {expiration : TimePointSec} {k : ℕ}
    (h : Runs (placeOrder owner orderid amountToSell price expiration) s k s') :
    k = s.limitOrders.nextId ∧ ∃ n : LimitOrderObject, price = .ok n.sellPrice ∧
      n.forSale = amountToSell.amount ∧ s'.limitOrders = s.limitOrders.create n := by
  simp only [placeOrder, runs_bind_headBlockTime, runs_bind_require, runs_bind_getAccount,
    runs_bind_getBalance, runs_bind_requireE, runs_bind_ofExcept] at h
  obtain ⟨-, e, -, acct, -, -, debit, -, h⟩ := h
  obtain ⟨_, s1, h1, h⟩ := runs_bind.mp h
  rw [runs_bind_ofExcept] at h
  obtain ⟨p, hp, h⟩ := h
  obtain ⟨-, rfl, rfl⟩ := Table.runs_create.mp h
  have hbook : s1.limitOrders = s.limitOrders := (adjustBalance_tables h1).1
  refine ⟨?_, { created := s.dgpo.time, seller := owner, orderid, forSale := amountToSell.amount
                sellPrice := p, expiration }, hp, rfl, ?_⟩
  · show s1.limitOrders.nextId = _
    rw [hbook]
  · show s1.limitOrders.create _ = _
    rw [hbook]

/-- The order an operation places, and the state in which it goes for its walk. -/
def Call.placed (c : Call) : Option (ℕ × Database) :=
  match c.op with
  | .limitOrderCreate o =>
      (placeOrder o.owner o.orderid o.amountToSell (Price.make o.amountToSell o.minToReceive)
        o.expiration c.state).toOption
  | .limitOrderCreate2 o =>
      (placeOrder o.owner o.orderid o.amountToSell (.ok o.exchangeRate) o.expiration c.state).toOption
  | _ => none

/-- A new order is on offer, is put in the book, and goes for its walk. -/
theorem evaluate_order {push : ℕ → DbM Unit} {op : Operation} (hv : op.validate = .ok ())
    (hop : op.sellPrice? = some p) (h : Runs (evaluate push op) s () s') :
    ∃ (n : LimitOrderObject) (t : Database), n.OnOffer ∧ n.sellPrice = p ∧
      Call.placed ⟨s, op⟩ = some (s.limitOrders.nextId, t) ∧ t.limitOrders = s.limitOrders.create n ∧
      Runs (matchAll s.limitOrders.nextId (t.walkFor p.inv p.ceiling).runsOff
        (t.walkFor p.inv p.ceiling).orders) t () s' := by
  -- the two operations differ in how the price is named and in what is checked before
  have hplaced : ∀ {owner orderid amount} {price : Except Exn Price} {kill expiration},
      price = .ok p → (∀ n : LimitOrderObject, n.sellPrice = p → n.forSale = amount.amount → n.OnOffer) →
      Runs (createOrder owner orderid amount price kill expiration) s () s' →
      ∃ (n : LimitOrderObject) (t : Database), n.OnOffer ∧ n.sellPrice = p ∧
        (placeOrder owner orderid amount price expiration s).toOption = some (s.limitOrders.nextId, t) ∧
        t.limitOrders = s.limitOrders.create n ∧
        Runs (matchAll s.limitOrders.nextId (t.walkFor p.inv p.ceiling).runsOff
          (t.walkFor p.inv p.ceiling).orders) t () s' := by
    intro owner orderid amount price kill expiration hprice hoffer h
    rw [createOrder_eq] at h
    obtain ⟨k, t, hplace, h⟩ := runs_bind.mp h
    obtain ⟨filled, u, happly, h⟩ := runs_bind.mp h
    obtain ⟨-, rfl⟩ := runs_require.mp h
    obtain ⟨rfl, n, hp, hsale, hbook⟩ := runs_placeOrder hplace
    have hnp : n.sellPrice = p := Except.ok.inj (hp.symm.trans hprice)
    have hon := hoffer n hnp hsale
    have hfind : t.limitOrders.find? s.limitOrders.nextId = some n := by
      rw [hbook, ObjectIndex.find?_create, if_pos rfl]
    have hall := runs_applyOrder hfind hon.valid happly
    rw [hnp] at hall
    exact ⟨n, t, hon, hnp, by rw [show placeOrder _ _ _ _ _ s = _ from hplace]; rfl, hbook, hall⟩
  cases op with
  | limitOrderCreate o =>
      obtain rfl := Option.some.inj hop
      simp only [Operation.validate, LimitOrderCreateOperation.validate, except_bind_ok, fcAssert_ok,
        Price.make_ok] at hv
      obtain ⟨_, -, _, -, q, ⟨hne, rfl⟩, hvalid⟩ := hv
      have hvalid := Price.valid_iff.mp hvalid
      refine hplaced (Price.make_ok.mpr ⟨hne, rfl⟩) (fun n hp hsale => ?_) h
      -- it asks for exactly what was named
      have hworth : ∀ hn : n.sellPrice.Valid,
          hn.rate.worth n.forSale.toInt = o.minToReceive.amount.toInt := by
        intro hn
        have hgive : hn.rate.give = o.amountToSell.amount.toInt := congrArg (fun q => q.base.amount.toInt) hp
        have hask : hn.rate.ask = o.minToReceive.amount.toInt := congrArg (fun q => q.quote.amount.toInt) hp
        rw [Rate.worth, hgive, hask, hsale]
        exact Int.mul_ediv_cancel_left _ hvalid.base_pos.ne'
      have hn : n.sellPrice.Valid := hp ▸ hvalid
      exact ⟨hn, (hworth hn).symm ▸ hvalid.quote_pos, (hworth hn).symm ▸ o.minToReceive.amount.toInt_lt⟩
  | limitOrderCreate2 o =>
      obtain rfl := Option.some.inj hop
      simp only [Operation.validate, LimitOrderCreate2Operation.validate, except_bind_ok, fcAssert_ok,
        decide_eq_true_eq] at hv
      obtain ⟨_, -, _, hbase, _, hvalid, _, -, c, hc, hpos⟩ := hv
      have hvalid := Price.valid_iff.mp hvalid
      refine hplaced rfl (fun n hp hsale => ?_) h
      have hcpos : 0 < c.amount.toInt := by
        rw [Int64.lt_iff_toInt_lt, Int64.toInt_zero] at hpos
        exact hpos
      have hworth := Asset.worth_of_mulPrice hvalid hbase hc hcpos
      obtain ⟨created, expiration, seller, orderid, forSale, sellPrice⟩ := n
      obtain rfl : sellPrice = o.exchangeRate := hp
      obtain rfl : forSale = o.amountToSell.amount := hsale
      refine ⟨hvalid, ?_, ?_⟩
      · rw [hworth]
        exact hcpos
      · rw [hworth]
        exact c.amount.toInt_lt
  | _ => cases hop

/-- What is no new order thins the book at most. -/
theorem evaluate_thinned {push : ℕ → DbM Unit} {op : Operation}
    (hprop : op.isProposalUpdate = false) (hop : op.sellPrice? = none)
    (h : Runs (evaluate push op) s () s') : Thinned s s' := by
  cases hi : op.writes .orders with
  | false => exact thinned_congr (evaluate_same (i := .orders) hprop hi h)
  | true =>
      cases op <;> first | exact (Bool.false_ne_true hi).elim | skip
      case limitOrderCreate o => cases hop
      case limitOrderCreate2 o => cases hop
      case limitOrderCancel owner orderid =>
        have h : Runs (limitOrderCancelEvaluator owner orderid) s () s' := h
        have hthin : Respects Thinned (limitOrderCancelEvaluator owner orderid) := by
          unfold limitOrderCancelEvaluator
          infer_instance
        exact hthin.rel h

end Orders

/-! ## A market -/

namespace Sample

/-- A hundred million BTCM for `initminer`, who may also issue a token. -/
def marketGenesis : GenesisState where
  initSupply := 100000000000000
  initialAssets := [⟨"TOKEN", "initminer", "", 1000, thousand_nonneg⟩]
  initSupply_nonneg := by decide

/-- An amount of the token, which is the first asset that a user has issued. -/
def token (x : ShareType) : Asset := ⟨x, 3⟩

/-- An order of `initminer`, which sells an amount for at least another one. -/
def sell (orderid : UInt32) (amount price : Asset) : Operation :=
  .limitOrderCreate
    { owner := "initminer", orderid := orderid, amountToSell := amount, minToReceive := price
      expiration := 1585500000 }

end Sample

end BtcmChain
