import BtcmChain.Sound.Matching

set_option autoImplicit false
set_option synthInstance.maxSize 10000000
set_option synthInstance.maxHeartbeats 200000

/-!
# The order book

The walk of `apply_order` is meant to visit all orders that cross the new one, and each order it
has visited is gone unless the new one is. So the book would never be crossed if the walk started
at the best price. It starts at `price::max`, which gives 30000000000000 for one: an order that
gives more is passed over.

`Database.Uncrossed` is the statement about the book. It is kept by every move but new orders that
the walk does not bring to all they cross (`Call.Reaches`), and `visits_crossing_iff` says that
this is exactly the condition. `book_never_crossed` is the theorem about runs all of whose new
orders are reached; `crossed_book` creates two orders that cross and leave each other alone.
-/

namespace BtcmChain

/-! ## The book is not crossed -/

section Crossing

variable {p q : Price}

theorem Price.meets_comm (hp : p.Valid) (hq : q.Valid) : hp.rate.Meets hq.rate ↔ hq.rate.Meets hp.rate := by
  unfold Rate.Meets
  rw [mul_comm hp.rate.ask, mul_comm hp.rate.give]

/-- Of two prices in opposite directions both cross or neither. -/
theorem Price.lt_inv_iff (hp : p.Valid) (hq : q.Valid) (hbase : p.base.assetId = q.quote.assetId)
    (hquote : p.quote.assetId = q.base.assetId) :
    p.lt q.inv = true ↔ ¬ hp.rate.Meets hq.rate := by
  rw [Price.meets_comm, Price.meets_iff_key hq hp hbase.symm hquote.symm, not_le,
    Price.lt_iff_key hp hq.inv]

/-- No two orders cross: neither gives as much as the other asks. -/
def Database.Uncrossed (s : Database) : Prop :=
  ∀ i j o₁ o₂, s.limitOrders.find? i = some o₁ → s.limitOrders.find? j = some o₂ →
    o₁.sellPrice.base.assetId = o₂.sellPrice.quote.assetId →
    o₁.sellPrice.quote.assetId = o₂.sellPrice.base.assetId →
    o₁.sellPrice.lt o₂.sellPrice.inv = true

/-- No resting order that crosses the new one is priced above `price::max`. -/
def Call.Reaches (c : Call) : Prop :=
  ∀ p, c.op.sellPrice? = some p → ∀ k o, c.state.limitOrders.find? k = some o →
    o.sellPrice.base.assetId = p.quote.assetId → o.sellPrice.quote.assetId = p.base.assetId →
    p.ceiling.lt o.sellPrice = true → o.sellPrice.lt p.inv = true

variable {s s' : Database}

theorem Database.Uncrossed.thinned (h : s.Uncrossed) (hthin : Thinned s s') : s'.Uncrossed := by
  intro i j o₁ o₂ h₁ h₂ hbase hquote
  obtain ⟨o₁', h₁', hp₁, -⟩ := hthin.find i o₁ h₁
  obtain ⟨o₂', h₂', hp₂, -⟩ := hthin.find j o₂ h₂
  rw [hp₁, hp₂] at hbase hquote ⊢
  exact h i j o₁' o₂' h₁' h₂' hbase hquote

/-- A book with one more order is uncrossed if that order crosses none. -/
theorem uncrossed_create {n : LimitOrderObject} (hs : s.BookSound) (h : s.Uncrossed) (hn : n.OnOffer)
    (hthin : Thinned { s with limitOrders := s.limitOrders.create n } s')
    (hnew : ∀ n', s'.limitOrders.find? s.limitOrders.nextId = some n' →
      ∀ k o, k ≠ s.limitOrders.nextId → s'.limitOrders.find? k = some o →
        o.sellPrice.base.assetId = n.sellPrice.quote.assetId →
        o.sellPrice.quote.assetId = n.sellPrice.base.assetId →
        o.sellPrice.lt n.sellPrice.inv = true) : s'.Uncrossed := by
  have hcreate : ∀ k, (s.limitOrders.create n).find? k =
      if k = s.limitOrders.nextId then some n else s.limitOrders.find? k :=
    fun k => ObjectIndex.find?_create ..
  -- where an order of the new book comes from
  have horigin : ∀ k o, s'.limitOrders.find? k = some o →
      (k = s.limitOrders.nextId ∧ o.sellPrice = n.sellPrice) ∨
        (k ≠ s.limitOrders.nextId ∧ ∃ o', s.limitOrders.find? k = some o' ∧ o.sellPrice = o'.sellPrice) := by
    intro k o ho
    obtain ⟨o', ho', hp, -⟩ := hthin.find k o ho
    have ho' := (hcreate k).symm.trans ho'
    split at ho'
    case isTrue hk =>
      obtain rfl := Option.some.inj ho'
      exact Or.inl ⟨hk, hp⟩
    case isFalse hk => exact Or.inr ⟨hk, o', ho', hp⟩
  intro i j o₁ o₂ h₁ h₂ hbase hquote
  rcases horigin i o₁ h₁ with ⟨rfl, hp₁⟩ | ⟨hi, o₁', h₁', hp₁⟩ <;>
    rcases horigin j o₂ h₂ with ⟨rfl, hp₂⟩ | ⟨hj, o₂', h₂', hp₂⟩
  · rw [hp₁, hp₂] at hbase
    exact absurd hbase hn.valid.market
  · have hlt := hnew o₁ h₁ j o₂ hj h₂ (by rw [← hquote, hp₁]) (by rw [← hbase, hp₁])
    rw [hp₁, hp₂] at hbase hquote ⊢
    rw [hp₂] at hlt
    have hv := (hs j o₂' h₂').valid
    rw [Price.lt_inv_iff hv hn.valid hquote.symm hbase.symm] at hlt
    rw [Price.lt_inv_iff hn.valid hv hbase hquote, Price.meets_comm]
    exact hlt
  · have hlt := hnew o₂ h₂ i o₁ hi h₁ (by rw [hbase, hp₂]) (by rw [hquote, hp₂])
    rw [hp₂]
    exact hlt
  · rw [hp₁, hp₂] at hbase hquote ⊢
    exact h i j o₁' o₂' h₁' h₂' hbase hquote

variable [Externals]

/-- An evaluator that reaches every crossing order leaves an uncrossed book. -/
theorem evaluate_uncrossed {push : ℕ → DbM Unit} {op : Operation} (hprop : op.isProposalUpdate = false)
    (hv : op.validate = .ok ()) (hreach : Call.Reaches ⟨s, op⟩) (hs : s.BookSound ∧ s.Uncrossed)
    (h : Runs (evaluate push op) s () s') : s'.BookSound ∧ s'.Uncrossed := by
  obtain ⟨hsound, hs⟩ := hs
  cases hop : op.sellPrice? with
  | none =>
      have hthin := evaluate_thinned hprop hop h
      exact ⟨hthin.bookSound hsound, hs.thinned hthin⟩
  | some p =>
      obtain ⟨n, t, hn, rfl, -, ht, hwalk⟩ := evaluate_order hv hop h
      have hfound : ∀ k, t.limitOrders.find? k =
          if k = s.limitOrders.nextId then some n else s.limitOrders.find? k := fun k => by
        rw [ht, ObjectIndex.find?_create]
      have htsound : t.BookSound := by
        intro k o ho
        rw [hfound] at ho
        split at ho
        · obtain rfl := Option.some.inj ho
          exact hn
        · exact hsound k o ho
      obtain ⟨hthin, hgone⟩ := matchAll_thinned htsound hwalk
      refine ⟨hthin.bookSound htsound, uncrossed_create hsound hs hn
        ⟨fun k o ho => ?_, by rw [hthin.nextId, ht]⟩ ?_⟩
      · obtain ⟨o', ho', hrest⟩ := hthin.find k o ho
        rw [ht] at ho'
        exact ⟨o', ho', hrest⟩
      · intro n' hn' k o hk ho hbase hquote
        rcases hgone with hnone | ⟨hoff, hall⟩
        · rw [hnone] at hn'
          cases hn'
        · obtain ⟨o', ho', hp, -⟩ := hthin.find k o ho
          have hv := (htsound k o' ho').valid
          have hold : s.limitOrders.find? k = some o' := by
            rw [← ho', hfound, if_neg hk]
          rw [hp] at hbase hquote ⊢
          -- it was not visited, so it is above or below the range
          have hout : ¬ (n.sellPrice.inv.key ≤ o'.sellPrice.key ∧ o'.sellPrice.key ≤ n.sellPrice.ceiling.key) := by
            intro hin
            have hmem := (mem_walk htsound.pricesValid hn.valid.inv hn.valid.ceiling hoff (k := k)).mpr
              ⟨o', ho', hin⟩
            rw [hall k hmem] at ho
            cases ho
          by_cases habove : n.sellPrice.ceiling.key < o'.sellPrice.key
          · exact hreach _ hop k o' hold hbase hquote ((Price.lt_iff_key hn.valid.ceiling hv).mpr habove)
          · rw [Price.lt_iff_key hv hn.valid.inv, ← not_le]
            exact fun hle => hout ⟨hle, not_lt.mp habove⟩

omit [Externals] in
/-- The walk of a new order visits all orders that cross it exactly if it reaches them. -/
theorem visits_crossing_iff {op : Operation} {n : LimitOrderObject} {t : Database} (hs : s.BookSound)
    (hn : n.OnOffer) (hop : op.sellPrice? = some n.sellPrice)
    (ht : t.limitOrders = s.limitOrders.create n) :
    (∀ k o, s.limitOrders.find? k = some o → o.sellPrice.base.assetId = n.sellPrice.quote.assetId →
        o.sellPrice.quote.assetId = n.sellPrice.base.assetId → o.sellPrice.lt n.sellPrice.inv = false →
        k ∈ (t.walkFor n.sellPrice.inv n.sellPrice.ceiling).orders) ↔ Call.Reaches ⟨s, op⟩ := by
  have hold : ∀ k o, s.limitOrders.find? k = some o → t.limitOrders.find? k = some o := by
    intro k o ho
    have hlt : k < s.limitOrders.nextId := s.limitOrders.bound k o ho
    rw [ht, ObjectIndex.find?_create, if_neg hlt.ne, ho]
  have htsound : t.PricesValid := by
    intro k o ho
    rw [ht, ObjectIndex.find?_create] at ho
    split at ho
    · obtain rfl := Option.some.inj ho
      exact hn.valid
    · exact (hs k o ho).valid
  constructor
  · intro hall p hp k o ho hbase hquote habove
    obtain rfl := Option.some.inj (hop.symm.trans hp)
    by_contra hlt
    have hmem := hall k o ho hbase hquote (Bool.eq_false_iff.mpr hlt)
    have hle := walk_le_bound htsound hn.valid.ceiling hmem (hold k o ho)
    exact absurd ((Price.lt_iff_key hn.valid.ceiling (hs k o ho).valid).mp habove) (not_lt.mpr hle)
  · intro hreach k o ho hbase hquote hcross
    have hv := (hs k o ho).valid
    have hge := (Price.not_lt_iff_key hv hn.valid.inv).mp hcross
    have hle : o.sellPrice.key ≤ n.sellPrice.ceiling.key := by
      by_contra habove
      have hlt := hreach _ hop k o ho hbase hquote
        ((Price.lt_iff_key hn.valid.ceiling hv).mpr (not_le.mp habove))
      rw [hcross] at hlt
      cases hlt
    have hoff : (t.walkFor n.sellPrice.inv n.sellPrice.ceiling).runsOff = false := by
      rw [← Bool.not_eq_true, runsOff_iff]
      rintro ⟨j, o', ho', habove, hbelow⟩
      rw [Price.lt_iff_key hn.valid.ceiling (htsound j o' ho')] at habove
      rw [Price.lt_iff_key (htsound j o' ho') hn.valid.inv] at hbelow
      exact absurd (hge.trans hle) (not_le.mpr (habove.trans hbelow))
    exact (mem_walk htsound hn.valid.inv hn.valid.ceiling hoff).mpr ⟨o, hold k o ho, hge, hle⟩

/-- Every call of a move reaches what it crosses in the book. -/
def Move.Reaches (s : Database) (m : Move) : Prop := ∀ c ∈ m.calls s, c.Reaches

/-- A move keeps the book uncrossed, also between two of its calls. -/
theorem Move.run_uncrossed {m : Move} (hprop : ProposalsValid s) (hreach : m.Reaches s)
    (hs : s.BookSound ∧ s.Uncrossed) (h : Runs m.run s () s') :
    (s'.BookSound ∧ s'.Uncrossed) ∧ ∀ c ∈ m.calls s, c.state.Uncrossed := by
  have hthin : ∀ {t u : Database}, Thinned t u → t.BookSound ∧ t.Uncrossed → u.BookSound ∧ u.Uncrossed :=
    fun hthin ht => ⟨hthin.bookSound ht.1, ht.2.thinned hthin⟩
  refine (Move.run_trace (R := fun s l s' => (∀ c ∈ l, Call.Reaches c) → s.BookSound ∧ s.Uncrossed →
    (s'.BookSound ∧ s'.Uncrossed) ∧ ∀ c ∈ l, c.state.Uncrossed) ?_ ?_ ?_ ?_ ?_ ?_ hprop h).1 hreach hs
  · refine ⟨fun s x _ hP => ⟨hP, List.forall_mem_nil _⟩, fun {s t u l l'} h1 h2 hC hP => ?_, fun {s u o l} h1 hC hP => ?_⟩
    · obtain ⟨hP1, hl⟩ := h1 (fun c hc => hC c (List.mem_append_left l' hc)) hP
      obtain ⟨hP2, hl'⟩ := h2 (fun c hc => hC c (List.mem_append_right l hc)) hP1
      refine ⟨hP2, fun c hc => ?_⟩
      rcases List.mem_append.mp hc with hc | hc
      · exact hl c hc
      · exact hl' c hc
    · obtain ⟨hP1, hl⟩ := h1 (fun c hc => hC c (List.mem_cons_of_mem _ hc)) hP
      refine ⟨hP1, fun c hc => ?_⟩
      rcases List.mem_cons.mp hc with rfl | hc
      · exact hP.2
      · exact hl c hc
  · intro push op t u hplain hv hr hC hP
    refine ⟨evaluate_uncrossed hplain hv (hC _ List.mem_cons_self) hP hr, fun c hc => ?_⟩
    rw [List.mem_singleton.mp hc]
    exact hP.2
  · exact fun b t u hr _ hP => ⟨hthin (Respects.rel hr) hP, List.forall_mem_nil _⟩
  · exact fun b t u hr _ hP => ⟨hthin (Respects.rel hr) hP, List.forall_mem_nil _⟩
  · exact fun _ t u hr _ hP => ⟨hthin (Respects.rel hr) hP, List.forall_mem_nil _⟩
  · exact fun t u hr _ hP => ⟨hthin (Respects.rel hr) hP, List.forall_mem_nil _⟩

theorem ReachableIf.uncrossed (hs : ReachableIf (fun t m => m.Reaches t) s) :
    s.BookSound ∧ s.Uncrossed := by
  induction hs with
  | genesis h =>
      have hbook := Writes.orders_eq h (by decide)
      have hnone : ∀ k o, ¬ (_ : Database).limitOrders.find? k = some o := fun k o ho => by
        rw [hbook] at ho
        cases ho
      exact ⟨fun k o ho => absurd ho (hnone k o), fun i j o₁ o₂ h₁ => absurd h₁ (hnone i o₁)⟩
  | move hr hreach hm ih =>
      exact (Move.run_uncrossed hr.reachable.proposalsValid hreach ih hm).1

/-- In a run in which new orders reach what they cross, the book is never left crossed, neither
behind a move nor between two operations within one; and that is what decides whether the walk
of a new order visits all the orders it crosses. -/
theorem book_never_crossed (hs : ReachableIf (fun t m => m.Reaches t) s) :
    s.Uncrossed ∧
      (∀ (m : Move) s', m.Reaches s → Runs m.run s () s' → ∀ c ∈ m.calls s, c.state.Uncrossed) ∧
      ∀ (op : Operation) (n : LimitOrderObject) (t : Database), n.OnOffer → op.sellPrice? = some n.sellPrice →
        t.limitOrders = s.limitOrders.create n →
        ((∀ k o, s.limitOrders.find? k = some o →
            o.sellPrice.base.assetId = n.sellPrice.quote.assetId →
            o.sellPrice.quote.assetId = n.sellPrice.base.assetId →
            o.sellPrice.lt n.sellPrice.inv = false →
            k ∈ (t.walkFor n.sellPrice.inv n.sellPrice.ceiling).orders) ↔
          Call.Reaches ⟨s, op⟩) := by
  obtain ⟨hsound, huncrossed⟩ := hs.uncrossed
  refine ⟨huncrossed, fun m s' hreach hr => ?_, fun op n t hn hop ht => ?_⟩
  · exact (Move.run_uncrossed hs.reachable.proposalsValid hreach ⟨hsound, huncrossed⟩ hr).2
  · exact visits_crossing_iff hsound hn hop ht

end Crossing

section Samples

namespace Sample

/-- Forty million BTCM for one unit of the token, and one unit of the token for 10. -/
def crossingBlock : SignedBlock :=
  { firstBlock with transactions := [[.assetIssue "initminer" (token 10) "initminer",
      sell 1 (btcm 40000000000000) (token 1), sell 2 (token 1) (btcm 10)]] }

end Sample

open Sample

/-- Both orders rest, as the first one is above `price::max`. -/
theorem crossed_book : ∃ s, Reachable s ∧ ¬ s.Uncrossed := by
  have hrun : leadsTo (replay marketGenesis [crossingBlock]) {} (fun s =>
      ((s.limitOrders.find? 0).any fun o =>
        decide (o.sellPrice = ⟨btcm 40000000000000, token 1⟩)) &&
      (s.limitOrders.find? 1).any fun o => decide (o.sellPrice = ⟨token 1, btcm 10⟩)) = true := by
    decide +kernel
  obtain ⟨s, hs, hbook⟩ := leadsTo_iff.mp hrun
  rw [Bool.and_eq_true, Option.any_eq_true, Option.any_eq_true] at hbook
  obtain ⟨⟨o₁, h₁, hp₁⟩, o₂, h₂, hp₂⟩ := hbook
  have hp₁ := of_decide_eq_true hp₁
  have hp₂ := of_decide_eq_true hp₂
  refine ⟨s, replay_reachable hs, fun huncrossed => ?_⟩
  have hlt := huncrossed 0 1 o₁ o₂ h₁ h₂ (by rw [hp₁, hp₂]; rfl)
    (by rw [hp₁, hp₂])
  rw [hp₁, hp₂] at hlt
  exact absurd hlt (by decide)

/-- An order in an empty book crosses nothing, and the book stays uncrossed. -/
theorem single_order_uncrossed : ∃ s o, ReachableIf (fun t m => m.Reaches t) s ∧
    s.limitOrders.find? 0 = some o ∧ o.sellPrice = ⟨btcm 5, token 1⟩ ∧ s.Uncrossed := by
  have hrun : leadsTo (initGenesis marketGenesis) {} (fun t =>
      leadsTo (Move.run (.operation (sell 1 (btcm 5) (token 1)))) t (fun s =>
        (s.limitOrders.find? 0).any fun o => decide (o.sellPrice = ⟨btcm 5, token 1⟩))) = true := by
    decide +kernel
  obtain ⟨t, ht, hmove⟩ := leadsTo_iff.mp hrun
  obtain ⟨s, hs, hbook⟩ := leadsTo_iff.mp hmove
  obtain ⟨o, ho, hp⟩ := (Option.any_eq_true _ _).mp hbook
  have hempty := Writes.orders_eq ht (by decide)
  have hreach : (Move.operation (sell 1 (btcm 5) (token 1))).Reaches t := by
    intro c hc
    rw [Move.calls, calls_eq_self rfl, List.mem_singleton] at hc
    subst hc
    intro p hp k o ho
    have ho : t.limitOrders.find? k = some o := ho
    rw [hempty] at ho
    cases ho
  have hall : ReachableIf (fun t m => m.Reaches t) s := .move (.genesis ht) hreach hs
  exact ⟨s, o, hall, ho, of_decide_eq_true hp, (book_never_crossed hall).1⟩

end Samples

end BtcmChain
