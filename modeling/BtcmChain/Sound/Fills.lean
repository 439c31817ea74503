import BtcmChain.Sound.Matching

set_option autoImplicit false
set_option synthInstance.maxSize 10000000
set_option synthInstance.maxHeartbeats 200000

/-!
# What orders pay and receive

The matches of a run are recorded in the order they are made (`History`), and from the record
what every order has paid and received. As long as an order rests, no fill has lost it anything;
the fill that ends it may cost the fraction of a unit (`Ledger`). For that every match has to be
one of orders that cross, so the walk must not run off: with an order above `price::max` and a
new one that asks for even more, `lower_bound` comes behind `upper_bound`, and the walk starts at
an order that does not cross.
-/

namespace BtcmChain

/-! ## Fills -/

/-- One side of a match: an order with its limit, what it pays and what it receives. -/
structure Fill where
  order : ℕ
  limit : Price
  pays : Asset
  receives : Asset

/-- What an order has paid, over all its fills. -/
def paid (k : ℕ) (fs : List Fill) : ℤ :=
  (fs.map fun f => if f.order = k then f.pays.amount.toInt else 0).sum

/-- What an order has received, over all its fills. -/
def received (k : ℕ) (fs : List Fill) : ℤ :=
  (fs.map fun f => if f.order = k then f.receives.amount.toInt else 0).sum

section Fills

variable {fs gs : List Fill} {f : Fill} {k : ℕ}

@[simp] theorem paid_append : paid k (fs ++ gs) = paid k fs + paid k gs := by simp [paid]

@[simp] theorem received_append : received k (fs ++ gs) = received k fs + received k gs := by
  simp [received]

theorem paid_self : paid f.order [f] = f.pays.amount.toInt := by simp [paid]

theorem received_self : received f.order [f] = f.receives.amount.toInt := by simp [received]

theorem paid_eq_zero (h : ∀ f ∈ fs, f.order ≠ k) : paid k fs = 0 := by
  refine List.sum_eq_zero fun x hx => ?_
  obtain ⟨f, hf, rfl⟩ := List.mem_map.mp hx
  exact if_neg (h f hf)

theorem received_eq_zero (h : ∀ f ∈ fs, f.order ≠ k) : received k fs = 0 := by
  refine List.sum_eq_zero fun x hx => ?_
  obtain ⟨f, hf, rfl⟩ := List.mem_map.mp hx
  exact if_neg (h f hf)

end Fills

/-! ## The ledger -/

section Ledger

variable {fs : List Fill} {f : Fill} {book : ℕ → Option LimitOrderObject} {next k : ℕ}
  {o : LimitOrderObject}

/-- The record of all fills is right about the book: nothing was lost by who still rests, and no
more than the fraction of a unit by anyone. -/
structure Ledger (fs : List Fill) (book : ℕ → Option LimitOrderObject) (next : ℕ) : Prop where
  known : ∀ f ∈ fs, f.order < next
  one_limit : ∀ f ∈ fs, ∀ g ∈ fs, f.order = g.order → f.limit = g.limit
  resting : ∀ k o, book k = some o → ∀ f ∈ fs, f.order = k → f.limit = o.sellPrice
  fair : ∀ k o, book k = some o → ∀ hp : o.sellPrice.Valid, hp.rate.Fair (paid k fs) (received k fs)
  kept : ∀ f ∈ fs, ∀ hp : f.limit.Valid, hp.rate.Kept (paid f.order fs) (received f.order fs)

theorem ledger_nil : Ledger [] book next where
  known := nofun
  one_limit := nofun
  resting := nofun
  fair := fun _ _ _ _ => Rate.fair_zero
  kept := nofun

/-- A new order has no fills yet, so the ledger is right for it. -/
theorem Ledger.create (h : Ledger fs book next) (n : LimitOrderObject) :
    Ledger fs (Function.update book next (some n)) (next + 1) where
  known := fun f hf => Nat.lt_succ_of_lt (h.known f hf)
  one_limit := h.one_limit
  resting := by
    intro k o ho f hf hk
    have hne : k ≠ next := hk ▸ (h.known f hf).ne
    rw [Function.update_of_ne hne] at ho
    exact h.resting k o ho f hf hk
  fair := by
    intro k o ho hp
    by_cases hk : k = next
    · have hnone : ∀ f ∈ fs, f.order ≠ k := fun f hf => hk ▸ (h.known f hf).ne
      rw [paid_eq_zero hnone, received_eq_zero hnone]
      exact Rate.fair_zero
    · rw [Function.update_of_ne hk] at ho
      exact h.fair k o ho hp
  kept := h.kept

/-- Orders may leave the book, and what they have for sale may change. -/
theorem Ledger.thinned {book' : ℕ → Option LimitOrderObject} (h : Ledger fs book next)
    (hthin : ∀ k o', book' k = some o' → ∃ o, book k = some o ∧ o'.sellPrice = o.sellPrice) :
    Ledger fs book' next where
  known := h.known
  one_limit := h.one_limit
  resting := by
    intro k o' ho' f hf hk
    obtain ⟨o, ho, hp⟩ := hthin k o' ho'
    rw [hp]
    exact h.resting k o ho f hf hk
  fair := by
    intro k o' ho'
    obtain ⟨o, ho, hp⟩ := hthin k o' ho'
    rw [hp]
    exact h.fair k o ho
  kept := h.kept

/-- An order is filled: the fill goes into the ledger, and the rest stays in the book or is gone. -/
theorem Ledger.fill (h : Ledger fs book next) (hk : f.order < next) (ho : book f.order = some o)
    (hlimit : f.limit = o.sellPrice) (hp : o.sellPrice.Valid) {r : Option LimitOrderObject}
    (hleft : Left o hp f.pays.amount.toInt r)
    (hkept : hp.rate.Kept f.pays.amount.toInt f.receives.amount.toInt)
    (hfair : f.pays.amount.toInt < o.forSale.toInt →
      hp.rate.Fair f.pays.amount.toInt f.receives.amount.toInt) :
    Ledger (fs ++ [f]) (Function.update book f.order r) next := by
  have hbefore := h.fair f.order o ho hp
  have hothers : ∀ j, j ≠ f.order → paid j (fs ++ [f]) = paid j fs ∧ received j (fs ++ [f]) = received j fs := by
    intro j hj
    have hnone : ∀ g ∈ [f], g.order ≠ j := fun g hg => by
      rw [List.mem_singleton.mp hg]
      exact hj.symm
    rw [paid_append, received_append, paid_eq_zero hnone, received_eq_zero hnone, add_zero, add_zero]
    exact ⟨rfl, rfl⟩
  -- the limit of every fill of this order
  have hsame : ∀ g ∈ fs ++ [f], g.order = f.order → g.limit = o.sellPrice := by
    intro g hg hgk
    rcases List.mem_append.mp hg with hg | hg
    · exact h.resting f.order o ho g hg hgk
    · rw [List.mem_singleton.mp hg]
      exact hlimit
  have hclosed : hp.rate.Kept (paid f.order (fs ++ [f])) (received f.order (fs ++ [f])) := by
    rw [paid_append, received_append, paid_self, received_self]
    exact hbefore.close hkept
  refine ⟨fun g hg => ?_, fun g hg g' hg' heq => ?_, fun j o' ho' g hg hgj => ?_,
    fun j o' ho' hp' => ?_, fun g hg hp' => ?_⟩
  · rcases List.mem_append.mp hg with hg | hg
    · exact h.known g hg
    · rw [List.mem_singleton.mp hg]
      exact hk
  · by_cases hgk : g.order = f.order
    · rw [hsame g hg hgk, hsame g' hg' (heq ▸ hgk)]
    · have hold : ∀ g'' ∈ fs ++ [f], g''.order ≠ f.order → g'' ∈ fs := by
        intro g'' hg'' hne
        rcases List.mem_append.mp hg'' with hg'' | hg''
        · exact hg''
        · exact absurd (congrArg Fill.order (List.mem_singleton.mp hg'')) hne
      exact h.one_limit g (hold g hg hgk) g' (hold g' hg' (heq ▸ hgk)) heq
  · by_cases hj : j = f.order
    · subst hj
      rw [Function.update_self] at ho'
      subst ho'
      cases hleft with
      | rests => exact hsame g hg hgj
    · rw [Function.update_of_ne hj] at ho'
      rcases List.mem_append.mp hg with hg | hg
      · exact h.resting j o' ho' g hg hgj
      · rw [List.mem_singleton.mp hg] at hgj
        exact absurd hgj.symm hj
  · by_cases hj : j = f.order
    · subst hj
      rw [Function.update_self] at ho'
      subst ho'
      cases hleft with
      | rests hlt =>
          rw [paid_append, received_append, paid_self, received_self]
          exact hbefore.add (hfair hlt)
    · rw [Function.update_of_ne hj] at ho'
      rw [(hothers j hj).1, (hothers j hj).2]
      exact h.fair j o' ho' hp'
  · by_cases hgk : g.order = f.order
    · have hrate : hp'.rate = hp.rate := by
        have hg := hsame g hg hgk
        simp only [Price.Valid.rate, hg]
      rw [hrate, hgk]
      exact hclosed
    · rw [(hothers _ hgk).1, (hothers _ hgk).2]
      rcases List.mem_append.mp hg with hg | hg
      · exact h.kept g hg hp'
      · exact absurd (congrArg Fill.order (List.mem_singleton.mp hg)) hgk

end Ledger

/-! ## Matches -/

/-- A match in the course of a run: the state in which it was made, and the two orders. -/
structure Match where
  state : Database
  new : ℕ
  old : ℕ

/-- The two fills of a match, that of the new order first. -/
def Match.fills (m : Match) : List Fill :=
  (m.state.limitOrders.find? m.new).elim [] fun n =>
    (m.state.limitOrders.find? m.old).elim [] fun o =>
      (tradeAt n.amountForSale o.amountForSale o.sellPrice).toOption.elim [] fun trade =>
        [⟨m.new, n.sellPrice, trade.newPays, trade.oldPays⟩,
          ⟨m.old, o.sellPrice, trade.oldPays, trade.newPays⟩]

/-- The matches that a new order makes on its walk through some orders of the book. -/
def walkMatches (new : ℕ) : List ℕ → Database → List Match
  | [], _ => []
  | old :: rest, s => ⟨s, new, old⟩ :: (matchOrders new old s).toOption.elim [] fun r =>
      if r.1 then [] else walkMatches new rest r.2

/-- A match as it should be: of two orders that cross, each pays something and no more than it
has, receives what the other pays and no less than its limit, and one of them leaves the book. -/
structure Proper (m : Match) (n o : LimitOrderObject) (trade : Trade) (gone : Bool) (s' : Database) :
    Prop where
  runs : Runs (matchOrders m.new m.old) m.state gone s'
  found : m.state.limitOrders.find? m.new = some n
  found_old : m.state.limitOrders.find? m.old = some o
  onOffer : n.OnOffer
  onOffer_old : o.OnOffer
  base : o.sellPrice.base.assetId = n.sellPrice.quote.assetId
  quote : o.sellPrice.quote.assetId = n.sellPrice.base.assetId
  crosses : o.sellPrice.lt n.sellPrice.inv = false
  trade_eq : tradeAt n.amountForSale o.amountForSale o.sellPrice = .ok trade
  pays_in : trade.newPays.assetId = n.sellPrice.base.assetId
  pays_in_old : trade.oldPays.assetId = o.sellPrice.base.assetId
  pays : 0 < trade.newPays.amount.toInt ∧ trade.newPays.amount.toInt ≤ n.forSale.toInt
  pays_old : 0 < trade.oldPays.amount.toInt ∧ trade.oldPays.amount.toInt ≤ o.forSale.toInt
  limit : onOffer.valid.rate.worth trade.newPays.amount.toInt ≤ trade.oldPays.amount.toInt
  limit_old : onOffer_old.valid.rate.worth trade.oldPays.amount.toInt ≤ trade.newPays.amount.toInt
  one_leaves : s'.limitOrders.find? m.new = none ∨ s'.limitOrders.find? m.old = none
  filled : ∃ t gone', Filled m.new n onOffer.valid trade.newPays trade.oldPays m.state gone t ∧
    Filled m.old o onOffer_old.valid trade.oldPays trade.newPays t gone' s'

/-- A match that is as it should be: it ran, on two orders that cross. -/
def Match.IsProper (m : Match) : Prop := ∃ n o trade gone s', Proper m n o trade gone s'

section Walks

variable {s s' : Database} {new old : ℕ} {n o : LimitOrderObject} {fs : List Fill}

/-- An order of the book that the new order crosses: each sells what the other wants, at a price
that suits both. -/
structure Crossed (n o : LimitOrderObject) : Prop where
  base : o.sellPrice.base.assetId = n.sellPrice.quote.assetId
  quote : o.sellPrice.quote.assetId = n.sellPrice.base.assetId
  crosses : o.sellPrice.lt n.sellPrice.inv = false

theorem Crossed.meets (h : Crossed n o) (hn : n.sellPrice.Valid) (ho : o.sellPrice.Valid) :
    hn.rate.Meets ho.rate := by
  rw [Price.meets_iff_key hn ho h.base.symm h.quote.symm, ← Price.not_lt_iff_key ho hn.inv]
  exact h.crosses

theorem Crossed.settled {trade : Trade} {gone : Bool} (h : Crossed n o)
    (hm : Matched s new old n o trade gone s') :
    Rate.Settled hm.onOffer.valid.rate hm.onOffer_old.valid.rate n.forSale.toInt o.forSale.toInt
      trade.newPays.amount.toInt trade.oldPays.amount.toInt := by
  rw [hm.pays, hm.pays_old]
  exact (h.meets hm.onOffer.valid hm.onOffer_old.valid).settled hm.onOffer.worth_pos hm.onOffer_old.worth_pos

/-- A match of orders that cross is as it should be. -/
theorem Crossed.proper {trade : Trade} {gone : Bool} (h : Crossed n o)
    (hm : Matched s new old n o trade gone s') (hr : Runs (matchOrders new old) s gone s') :
    Proper ⟨s, new, old⟩ n o trade gone s' := by
  have hsettled := h.settled hm
  obtain ⟨trade', htrade, hin, hin', -⟩ := tradeAt_settle hm.onOffer_old hm.onOffer.forSale_pos hm.market
  obtain rfl := Except.ok.inj (htrade.symm.trans hm.trade_eq)
  exact {
    runs := hr
    found := hm.found
    found_old := hm.found_old
    onOffer := hm.onOffer
    onOffer_old := hm.onOffer_old
    base := h.base
    quote := h.quote
    crosses := h.crosses
    trade_eq := htrade
    pays_in := hin
    pays_in_old := hin'
    pays := ⟨hsettled.given_pos, hsettled.given_le⟩
    pays_old := ⟨hsettled.taken_pos, hsettled.taken_le⟩
    limit := hsettled.kept
    limit_old := hsettled.kept_offer
    one_leaves := hm.one_leaves
    filled := hm.filled }

/-- The two fills of a match between crossing orders keep the ledger right. -/
theorem Crossed.ledger {trade : Trade} {gone : Bool} (h : Crossed n o)
    (hm : Matched s new old n o trade gone s')
    (hledger : Ledger fs s.limitOrders.find? s.limitOrders.nextId) :
    Ledger (fs ++ Match.fills ⟨s, new, old⟩) s'.limitOrders.find? s'.limitOrders.nextId := by
  have hsettled := h.settled hm
  have hfills : Match.fills ⟨s, new, old⟩ = [⟨new, n.sellPrice, trade.newPays, trade.oldPays⟩] ++
      [⟨old, o.sellPrice, trade.oldPays, trade.newPays⟩] := by
    simp only [Match.fills, hm.found, hm.found_old, Option.elim_some, hm.trade_eq, Except.toOption]
    rfl
  have hnew := hledger.fill (f := ⟨new, n.sellPrice, trade.newPays, trade.oldPays⟩)
    (s.limitOrders.bound new n hm.found) hm.found rfl hm.onOffer.valid hm.left hsettled.kept
    hsettled.fair
  have hbook : Function.update (Function.update s.limitOrders.find? new (s'.limitOrders.find? new)) old
      (s'.limitOrders.find? old) = s'.limitOrders.find? := by
    funext j
    by_cases hj : j = old
    · rw [hj, Function.update_self]
    · rw [Function.update_of_ne hj]
      by_cases hj' : j = new
      · rw [hj', Function.update_self]
      · rw [Function.update_of_ne hj', hm.others j hj' hj]
  have hold := hnew.fill (f := ⟨old, o.sellPrice, trade.oldPays, trade.newPays⟩)
    (s.limitOrders.bound old o hm.found_old) (by
      show Function.update _ _ _ old = _
      rw [Function.update_of_ne hm.ne.symm, hm.found_old])
    rfl hm.onOffer_old.valid hm.left_old hsettled.kept_offer hsettled.fair_offer
  rw [hfills, ← List.append_assoc, hm.nextId]
  exact hbook ▸ hold

/-- A walk through orders that the new one crosses: its matches are all proper, and their fills keep
the ledger right. -/
theorem matchAll_record {off : Bool} {l : List ℕ} (hs : s.BookSound)
    (hn : s.limitOrders.find? new = some n) (hl : l.Nodup)
    (hcross : ∀ k ∈ l, ∃ o, s.limitOrders.find? k = some o ∧ Crossed n o)
    (hledger : Ledger fs s.limitOrders.find? s.limitOrders.nextId)
    (h : Runs (matchAll new off l) s () s') :
    Ledger (fs ++ (walkMatches new l s).flatMap Match.fills) s'.limitOrders.find? s'.limitOrders.nextId ∧
      ∀ m ∈ walkMatches new l s, m.IsProper := by
  induction l generalizing s n fs with
  | nil =>
      rw [matchAll, runs_ite] at h
      rcases h with ⟨-, h⟩ | ⟨-, h⟩
      · exact absurd h runs_throw
      · obtain ⟨-, rfl⟩ := runs_pure.mp h
        simp only [walkMatches, List.flatMap_nil, List.append_nil]
        exact ⟨hledger, fun m hm => absurd hm List.not_mem_nil⟩
  | cons old l ih =>
      rw [matchAll, runs_bind] at h
      obtain ⟨finished, t, h1, h2⟩ := h
      obtain ⟨n', o, trade, hm⟩ := matchOrders_matched hs h1
      obtain rfl := Option.some.inj (hn.symm.trans hm.found)
      obtain ⟨o', ho', hc⟩ := hcross old List.mem_cons_self
      obtain rfl := Option.some.inj (ho'.symm.trans hm.found_old)
      have hnext := hc.ledger hm hledger
      have hproper : Match.IsProper ⟨s, new, old⟩ := ⟨_, _, _, _, _, hc.proper hm h1⟩
      -- the match is entered, and the walk goes on unless the new order is gone
      have hmatches : walkMatches new (old :: l) s = ⟨s, new, old⟩ ::
          if finished then [] else walkMatches new l t := by
        rw [walkMatches, show matchOrders new old s = .ok (finished, t) from h1]
        rfl
      rw [hmatches]
      rcases runs_ite.mp h2 with ⟨hfin, h2⟩ | ⟨hfin, h2⟩
      · obtain ⟨-, rfl⟩ := runs_pure.mp h2
        rw [if_pos hfin, List.flatMap_singleton]
        refine ⟨hnext, fun m hmem => ?_⟩
        rw [List.mem_singleton.mp hmem]
        exact hproper
      · -- the new order rests on, at the same price
        rw [if_neg hfin, List.flatMap_cons, ← List.append_assoc]
        obtain ⟨hxpos, -⟩ := hm.bounds.1
        have hleft := hm.left
        cases hrest : t.limitOrders.find? new with
        | none => exact absurd (hm.gone_iff.trans (by rw [hrest]; rfl)) hfin
        | some n₁ =>
            rw [hrest] at hleft
            obtain ⟨-, hp⟩ := hleft.onOffer hm.onOffer hxpos.le
            obtain ⟨hnot, hl⟩ := List.nodup_cons.mp hl
            have hrest' : ∀ k ∈ l, ∃ o, t.limitOrders.find? k = some o ∧ Crossed n₁ o := by
              intro k hk
              obtain ⟨o₁, ho₁, hc₁⟩ := hcross k (List.mem_cons_of_mem old hk)
              have hkold : k ≠ old := fun heq => hnot (heq ▸ hk)
              have hknew : k ≠ new := by
                rintro rfl
                obtain rfl := Option.some.inj (hn.symm.trans ho₁)
                exact hm.onOffer.valid.market hc₁.base
              refine ⟨o₁, (hm.others k hknew hkold).trans ho₁, ?_⟩
              exact ⟨hp.symm ▸ hc₁.base, hp.symm ▸ hc₁.quote, hp.symm ▸ hc₁.crosses⟩
            obtain ⟨hall, hmem⟩ := ih (hm.thinned.bookSound hs) hrest hl hrest' hnext h2
            refine ⟨hall, fun m hm' => ?_⟩
            rcases List.mem_cons.mp hm' with rfl | hm'
            · exact hproper
            · exact hmem m hm'

end Walks

/-! ## Runs -/

/-- The matches that the call of an evaluator makes, if it places an order. -/
def Call.matches (c : Call) : List Match :=
  c.placed.elim [] fun r => (r.2.limitOrders.find? r.1).elim [] fun n =>
    walkMatches r.1 (r.2.walkFor n.sellPrice.inv n.sellPrice.ceiling).orders r.2

/-- No resting order is priced above `price::max` and yet below what the new order asks for. -/
def Call.InRange (c : Call) : Prop :=
  ∀ p, c.op.sellPrice? = some p → ∀ k o, c.state.limitOrders.find? k = some o →
    ¬ (p.ceiling.lt o.sellPrice = true ∧ o.sellPrice.lt p.inv = true)

/-- The loop of `apply_order` ends: it visits resting orders only, none of them twice, and does not
leave the index. -/
def Call.Ends (c : Call) : Prop :=
  ∀ k t n, c.placed = some (k, t) → t.limitOrders.find? k = some n →
    (t.walkFor n.sellPrice.inv n.sellPrice.ceiling).runsOff = false ∧
      (t.walkFor n.sellPrice.inv n.sellPrice.ceiling).orders.Nodup ∧
      ∀ j ∈ (t.walkFor n.sellPrice.inv n.sellPrice.ceiling).orders,
        ∃ o, t.limitOrders.find? j = some o ∧ Crossed n o

/-- The matches that a move makes, in the order of its calls. -/
def Move.matches [Externals] (m : Move) (s : Database) : List Match := (m.calls s).flatMap Call.matches

/-- A run whose moves meet `C` where they start, and all its matches. -/
inductive History [Externals] (C : Database → Move → Prop) : List Match → Database → Prop
  | genesis {g : GenesisState} {s : Database} : Runs (initGenesis g) {} () s → History C [] s
  | move {ms : List Match} {m : Move} {s s' : Database} : History C ms s → C s m → Runs m.run s () s' →
      History C (ms ++ m.matches s) s'

section Runs

variable [Externals] {s s' : Database} {fs : List Fill} {C : Database → Move → Prop} {ms : List Match}

theorem History.reachableIf (h : History C ms s) : ReachableIf C s := by
  induction h with
  | genesis h => exact .genesis h
  | move _ hC hm ih => exact .move ih hC hm

/-- Every run has a record of its matches. -/
theorem ReachableIf.history (h : ReachableIf C s) : ∃ ms, History C ms s := by
  induction h with
  | genesis h => exact ⟨[], .genesis h⟩
  | move _ hC hm ih =>
      obtain ⟨ms, hms⟩ := ih
      exact ⟨_, hms.move hC hm⟩

omit [Externals] in
theorem Call.placed_none {c : Call} (h : c.op.sellPrice? = none) : c.placed = none := by
  obtain ⟨s, op⟩ := c
  cases op <;> first | rfl | cases h

/-- The book is in order, and so is the record of its fills. -/
structure Recorded (fs : List Fill) (s : Database) : Prop where
  sound : s.BookSound
  ledger : Ledger fs s.limitOrders.find? s.limitOrders.nextId

omit [Externals] in
theorem Recorded.thinned (h : Recorded fs s) (hthin : Thinned s s') : Recorded fs s' where
  sound := hthin.bookSound h.sound
  ledger := by
    rw [hthin.nextId]
    refine h.ledger.thinned fun k o' ho' => ?_
    obtain ⟨o, ho, hp, -⟩ := hthin.find k o' ho'
    exact ⟨o, ho, hp⟩

/-- An evaluator adds its fills to the record, which stays right when the call is in range. -/
theorem evaluate_record {push : ℕ → DbM Unit} {op : Operation} (hprop : op.isProposalUpdate = false)
    (hv : op.validate = .ok ()) (hrange : Call.InRange ⟨s, op⟩) (hs : Recorded fs s)
    (h : Runs (evaluate push op) s () s') :
    Recorded (fs ++ (Call.matches ⟨s, op⟩).flatMap Match.fills) s' ∧
      (∀ m ∈ Call.matches ⟨s, op⟩, m.IsProper) ∧ Call.Ends ⟨s, op⟩ := by
  cases hop : op.sellPrice? with
  | none =>
      have hnone : Call.placed ⟨s, op⟩ = none := Call.placed_none hop
      have hmatches : Call.matches ⟨s, op⟩ = [] := by
        rw [Call.matches, hnone]
        rfl
      rw [hmatches, List.flatMap_nil, List.append_nil]
      refine ⟨hs.thinned (evaluate_thinned hprop hop h), List.forall_mem_nil _, fun k t n hplaced => ?_⟩
      rw [hnone] at hplaced
      cases hplaced
  | some p =>
      obtain ⟨n, t, hn, rfl, hplaced, ht, hwalk⟩ := evaluate_order hv hop h
      have hbook : t.limitOrders.find? =
          Function.update s.limitOrders.find? s.limitOrders.nextId (some n) := by
        funext k
        rw [ht, ObjectIndex.find?_create, Function.update_apply]
      have hnew : t.limitOrders.find? s.limitOrders.nextId = some n := by
        rw [hbook, Function.update_self]
      have hsound : t.BookSound := by
        intro k o ho
        rw [ht, ObjectIndex.find?_create] at ho
        split at ho
        · obtain rfl := Option.some.inj ho
          exact hn
        · exact hs.sound k o ho
      have hledger : Ledger fs t.limitOrders.find? t.limitOrders.nextId := by
        have hnext : t.limitOrders.nextId = s.limitOrders.nextId + 1 := by
          rw [ht]
          rfl
        rw [hbook, hnext]
        exact hs.ledger.create n
      have hoff : (t.walkFor n.sellPrice.inv n.sellPrice.ceiling).runsOff = false := by
        rw [← Bool.not_eq_true, runsOff_iff]
        rintro ⟨k, o, ho, habove, hbelow⟩
        have hv := (hsound k o ho).valid
        rw [ht, ObjectIndex.find?_create] at ho
        split at ho
        · -- the new order is on the other side
          obtain rfl := Option.some.inj ho
          rw [Price.lt_iff_key hn.valid.ceiling hv] at habove
          rw [Price.lt_iff_key hv hn.valid.inv] at hbelow
          exact hn.valid.market (Price.market_of_between habove.le hbelow.le rfl rfl).1
        · exact hrange _ hop k o ho ⟨habove, hbelow⟩
      have hcross : ∀ k ∈ (t.walkFor n.sellPrice.inv n.sellPrice.ceiling).orders,
          ∃ o, t.limitOrders.find? k = some o ∧ Crossed n o := by
        intro k hk
        obtain ⟨o, ho, hge, hle⟩ :=
          (mem_walk hsound.pricesValid hn.valid.inv hn.valid.ceiling hoff).mp hk
        obtain ⟨hbase, hquote⟩ := Price.market_of_between hge hle rfl rfl
        exact ⟨o, ho, hbase, hquote, (Price.not_lt_iff_key (hsound k o ho).valid hn.valid.inv).mpr hge⟩
      have hmatches : Call.matches ⟨s, op⟩ =
          walkMatches s.limitOrders.nextId (t.walkFor n.sellPrice.inv n.sellPrice.ceiling).orders t := by
        rw [Call.matches, hplaced, Option.elim_some, hnew, Option.elim_some]
      obtain ⟨hthin, -⟩ := matchAll_thinned hsound hwalk
      obtain ⟨hall, hproper⟩ := matchAll_record hsound hnew walk_nodup hcross hledger hwalk
      rw [hmatches]
      refine ⟨⟨hthin.bookSound hsound, hall⟩, hproper, fun k' t' n' hplaced' hn' => ?_⟩
      obtain ⟨rfl, rfl⟩ := Prod.mk.inj (Option.some.inj (hplaced.symm.trans hplaced'))
      obtain rfl := Option.some.inj (hnew.symm.trans hn')
      exact ⟨hoff, walk_nodup, hcross⟩

/-- Every call of a move is in range, so that no amount wraps on the way. -/
def Move.InRange (s : Database) (m : Move) : Prop := ∀ c ∈ m.calls s, c.InRange

/-- A move adds the fills of its matches to the record. -/
theorem Move.run_record {m : Move} (hprop : ProposalsValid s) (hrange : m.InRange s)
    (hs : Recorded fs s) (h : Runs m.run s () s') :
    Recorded (fs ++ (m.matches s).flatMap Match.fills) s' ∧ (∀ x ∈ m.matches s, x.IsProper) ∧
      ∀ c ∈ m.calls s, c.Ends := by
  have hthin : ∀ {t u : Database}, Thinned t u → ∀ fs, (∀ c ∈ ([] : List Call), c.InRange) →
      Recorded fs t → Recorded (fs ++ (([] : List Call).flatMap Call.matches).flatMap Match.fills) u ∧
        (∀ x ∈ ([] : List Call).flatMap Call.matches, x.IsProper) ∧ ∀ c ∈ ([] : List Call), c.Ends := by
    intro t u hthin fs _ ht
    rw [List.flatMap_nil, List.flatMap_nil, List.append_nil]
    exact ⟨ht.thinned hthin, List.forall_mem_nil _, List.forall_mem_nil _⟩
  refine (Move.run_trace (R := fun s l s' => ∀ fs, (∀ c ∈ l, Call.InRange c) → Recorded fs s →
    Recorded (fs ++ (l.flatMap Call.matches).flatMap Match.fills) s' ∧
      (∀ x ∈ l.flatMap Call.matches, x.IsProper) ∧ ∀ c ∈ l, c.Ends) ?_ ?_ ?_ ?_ ?_ ?_ hprop h).1 fs hrange hs
  · refine ⟨fun s x => hthin (thinned_congr rfl), fun {s t u l l'} h1 h2 fs hC hP => ?_,
      fun {s u o l} h1 fs hC hP => ?_⟩
    · obtain ⟨hP1, hm1, he1⟩ := h1 fs (fun c hc => hC c (List.mem_append_left l' hc)) hP
      obtain ⟨hP2, hm2, he2⟩ := h2 _ (fun c hc => hC c (List.mem_append_right l hc)) hP1
      rw [List.flatMap_append, List.flatMap_append, ← List.append_assoc]
      refine ⟨hP2, fun x hx => ?_, fun c hc => ?_⟩
      · rcases List.mem_append.mp hx with hx | hx
        · exact hm1 x hx
        · exact hm2 x hx
      · rcases List.mem_append.mp hc with hc | hc
        · exact he1 c hc
        · exact he2 c hc
    · obtain ⟨hP1, hm1, he1⟩ := h1 fs (fun c hc => hC c (List.mem_cons_of_mem _ hc)) hP
      refine ⟨hP1, hm1, fun c hc => ?_⟩
      rcases List.mem_cons.mp hc with rfl | hc
      · exact fun k t n hplaced => by cases hplaced
      · exact he1 c hc
  · intro push op t u hplain hv hr fs hC hP
    obtain ⟨hP', hm, he⟩ := evaluate_record hplain hv (hC _ List.mem_cons_self) hP hr
    rw [List.flatMap_singleton]
    refine ⟨hP', hm, fun c hc => ?_⟩
    rw [List.mem_singleton.mp hc]
    exact he
  · exact fun b t u hr => hthin (Respects.rel hr)
  · exact fun b t u hr => hthin (Respects.rel hr)
  · exact fun _ t u hr => hthin (Respects.rel hr)
  · exact fun t u hr => hthin (Respects.rel hr)

theorem History.recorded (h : History (fun t m => m.InRange t) ms s) :
    Recorded (ms.flatMap Match.fills) s ∧ ∀ x ∈ ms, x.IsProper := by
  induction h with
  | @genesis g s h =>
      have hbook := Writes.orders_eq h (by decide)
      refine ⟨⟨fun k o ho => ?_, ledger_nil⟩, List.forall_mem_nil _⟩
      rw [hbook] at ho
      cases ho
  | move hr hrange hm ih =>
      obtain ⟨hrec, hproper⟩ := ih
      obtain ⟨hrec', hproper', -⟩ :=
        Move.run_record hr.reachableIf.reachable.proposalsValid hrange hrec hm
      rw [List.flatMap_append]
      refine ⟨hrec', fun x hx => ?_⟩
      rcases List.mem_append.mp hx with hx | hx
      · exact hproper x hx
      · exact hproper' x hx

/-- In a run whose new orders are in range, every resting order has something for sale for which it
receives something; every match is as it should be; over all its fills an order receives no less
than its limit asks for what it pays; and the loop of `apply_order` ends. -/
theorem fills_respect_limits (h : History (fun t m => m.InRange t) ms s) :
    (∀ k o, s.limitOrders.find? k = some o → 0 < o.forSale.toInt ∧
        ∃ c, o.amountToReceive = .ok c ∧ 0 < c.amount.toInt) ∧
      (∀ x ∈ ms, x.IsProper) ∧
      (∀ f ∈ ms.flatMap Match.fills, ∃ hp : f.limit.Valid,
        f.pays.assetId = f.limit.base.assetId ∧ f.receives.assetId = f.limit.quote.assetId ∧
        (∀ g ∈ ms.flatMap Match.fills, f.order = g.order → f.limit = g.limit) ∧
        hp.rate.worth (paid f.order (ms.flatMap Match.fills)) ≤
          received f.order (ms.flatMap Match.fills)) ∧
      ∀ (m : Move) s', m.InRange s → Runs m.run s () s' → ∀ c ∈ m.calls s, c.Ends := by
  obtain ⟨hrec, hproper⟩ := h.recorded
  refine ⟨fun k o ho => ?_, hproper, fun f hf => ?_, fun m s' hrange hr => ?_⟩
  · have hon := hrec.sound k o ho
    obtain ⟨c, hc, -, hval⟩ := amountToReceive_worth hon.valid hon.forSale_pos.le hon.worth_lt
    exact ⟨hon.forSale_pos, c, hc, hval.symm ▸ hon.worth_pos⟩
  · obtain ⟨x, hx, hfx⟩ := List.mem_flatMap.mp hf
    obtain ⟨n, o, trade, gone, t, hp⟩ := hproper x hx
    have hvalid : f.limit.Valid ∧ f.pays.assetId = f.limit.base.assetId ∧
        f.receives.assetId = f.limit.quote.assetId := by
      simp only [Match.fills, hp.found, hp.found_old, Option.elim_some, hp.trade_eq, Except.toOption,
        List.mem_cons, List.not_mem_nil, or_false] at hfx
      rcases hfx with rfl | rfl
      · exact ⟨hp.onOffer.valid, hp.pays_in, hp.pays_in_old.trans hp.base⟩
      · exact ⟨hp.onOffer_old.valid, hp.pays_in_old, hp.pays_in.trans hp.quote.symm⟩
    obtain ⟨hv, hpays, hreceives⟩ := hvalid
    exact ⟨hv, hpays, hreceives, hrec.ledger.one_limit f hf, hrec.ledger.kept f hf hv⟩
  · exact (Move.run_record h.reachableIf.reachable.proposalsValid hrange hrec hr).2.2

end Runs

section Samples

instance (c : Call) : Decidable c.InRange :=
  decidable_of_iff (∀ p ∈ c.op.sellPrice?, ∀ e ∈ c.state.limitOrders.entries,
      ¬ (p.ceiling.lt e.2.sellPrice = true ∧ e.2.sellPrice.lt p.inv = true))
    ⟨fun h p hp k o ho => h p hp (k, o) (ObjectIndex.mem_entries_iff.mpr ho),
      fun h p hp e he => h p hp e.1 e.2 (ObjectIndex.mem_entries_iff.mp he)⟩

instance [Externals] (s : Database) (m : Move) : Decidable (m.InRange s) :=
  inferInstanceAs (Decidable (∀ c ∈ m.calls s, c.InRange))

namespace Sample

/-- The operations of a list one after the other, with their matches and the state behind them. -/
def trades (check : Database → Move → Bool) : List Operation → Database → Option (List Match × Database)
  | [], s => some ([], s)
  | op :: ops, s =>
      if check s (.operation op) then
        (Move.run (.operation op) s).toOption.elim none fun r =>
          (trades check ops r.2).map fun t => ((Move.operation op).matches s ++ t.1, t.2)
      else none

theorem trades_history {C : Database → Move → Prop} {check : Database → Move → Bool}
    (hC : ∀ s m, check s m = true → C s m) {ops : List Operation} {ms ns : List Match}
    {s t : Database} (h : History C ms s) (hrun : trades check ops s = some (ns, t)) :
    History C (ms ++ ns) t := by
  induction ops generalizing s ms ns with
  | nil =>
      obtain ⟨rfl, rfl⟩ := Prod.mk.inj (Option.some.inj hrun)
      rw [List.append_nil]
      exact h
  | cons op ops ih =>
      rw [trades] at hrun
      split at hrun
      case isTrue hcheck =>
        cases hr : Move.run (.operation op) s with
        | error e =>
            rw [hr] at hrun
            cases hrun
        | ok r =>
            rw [hr] at hrun
            obtain ⟨⟨ns', t'⟩, hrest, heq⟩ := Option.map_eq_some_iff.mp hrun
            obtain ⟨rfl, rfl⟩ := Prod.mk.inj heq
            rw [← List.append_assoc]
            exact ih (h.move (hC s _ hcheck) hr) hrest
      case isFalse => cases hrun

/-- Ten units of the token for `initminer`, and then the orders. -/
def market (check : Database → Move → Bool) (orders : List Operation) :
    Option (List Match × Database) :=
  (initGenesis marketGenesis {}).toOption.elim none fun r =>
    trades check (.assetIssue "initminer" (token 10) "initminer" :: orders) r.2

theorem market_history {C : Database → Move → Prop} {check : Database → Move → Bool}
    (hC : ∀ s m, check s m = true → C s m) {orders : List Operation} {ms : List Match} {s : Database}
    (h : market check orders = some (ms, s)) : History C ms s := by
  rw [market] at h
  cases hg : initGenesis marketGenesis {} with
  | error e =>
      rw [hg] at h
      cases h
  | ok r =>
      rw [hg] at h
      exact trades_history hC (.genesis hg) h

end Sample

open Sample

/-- Behind an order for forty million BTCM rests one for 100 BTCM, and meets one that asks for
fifty million. -/
theorem sold_below_limit : ∃ ms s, History (fun _ _ => True) ms s ∧
    ∃ f ∈ ms.flatMap Match.fills, ∃ hp : f.limit.Valid,
      hp.rate.worth (paid f.order (ms.flatMap Match.fills)) = 50000000000000 ∧
      received f.order (ms.flatMap Match.fills) = 100 := by
  have hrun : ((market (fun _ _ => true) [sell 1 (btcm 40000000000000) (token 1),
      sell 2 (btcm 100) (token 1), sell 3 (token 1) (btcm 50000000000000)]).any fun r =>
      (r.1.flatMap Match.fills).any fun f => decide (f.limit = ⟨token 1, btcm 50000000000000⟩ ∧
        paid f.order (r.1.flatMap Match.fills) = 1 ∧
        received f.order (r.1.flatMap Match.fills) = 100)) = true := by
    decide +kernel
  obtain ⟨⟨ms, s⟩, hrun, hfills⟩ := (Option.any_eq_true _ _).mp hrun
  obtain ⟨f, hf, hdone⟩ := List.any_eq_true.mp hfills
  obtain ⟨hlimit, hpaid, hreceived⟩ := of_decide_eq_true hdone
  have hvalid : f.limit.Valid := by
    rw [hlimit]
    exact ⟨by decide, by decide, by decide⟩
  refine ⟨ms, s, market_history (fun _ _ _ => trivial) hrun, f, hf, hvalid, ?_, hreceived⟩
  rw [hpaid]
  simp only [Rate.worth, Price.Valid.rate, hlimit]
  decide

/-- An order for one unit at five BTCM trades at its limit, and the fill is recorded. -/
theorem trade_at_limit : ∃ ms s, History (fun t m => m.InRange t) ms s ∧
    ∃ f ∈ ms.flatMap Match.fills, f.limit = ⟨token 1, btcm 5⟩ ∧
      paid f.order (ms.flatMap Match.fills) = 1 ∧ 5 ≤ received f.order (ms.flatMap Match.fills) := by
  have hrun : ((market (fun s m => decide (m.InRange s)) [sell 1 (btcm 5) (token 1),
      sell 2 (token 1) (btcm 5)]).any fun r =>
      (r.1.flatMap Match.fills).any fun f => decide (f.limit = ⟨token 1, btcm 5⟩ ∧
        paid f.order (r.1.flatMap Match.fills) = 1)) = true := by
    decide +kernel
  obtain ⟨⟨ms, s⟩, hrun, hfills⟩ := (Option.any_eq_true _ _).mp hrun
  obtain ⟨f, hf, hdone⟩ := List.any_eq_true.mp hfills
  obtain ⟨hlimit, hpaid⟩ := of_decide_eq_true hdone
  have hist : History (fun t m => m.InRange t) ms s := market_history (fun _ _ => of_decide_eq_true) hrun
  refine ⟨ms, s, hist, f, hf, hlimit, hpaid, ?_⟩
  obtain ⟨-, -, hall, -⟩ := fills_respect_limits hist
  obtain ⟨hp, -, -, -, hkept⟩ := hall f hf
  have hworth : hp.rate.worth 1 = 5 := by
    simp only [Rate.worth, Price.Valid.rate, hlimit]
    decide
  rw [hpaid, hworth] at hkept
  exact hkept

end Samples

end BtcmChain
