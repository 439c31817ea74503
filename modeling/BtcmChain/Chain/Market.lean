import BtcmChain.Chain.Ledger

set_option autoImplicit false
set_option synthInstance.maxSize 10000000
set_option synthInstance.maxHeartbeats 200000

/-!
# The order book

A new order is matched against the resting orders of the opposite side, best price
first, at the resting order's price, until it is filled or the prices no longer
cross. Amounts round down; an order whose rest would buy nothing is cancelled and
refunded (`fillOrder`).

`applyOrder` walks an index range of the source. Its lower end is looked up from
`price::max`, so for an order priced beyond that bound the range can be empty *the
wrong way round*: the walk then starts after its end and leaves the index. The model
lists the orders the walk visits and throws `undefined` when it runs off.
-/

namespace BtcmChain

/-- `amount_for_sale`: what is left of what the order sells. -/
def LimitOrderObject.amountForSale (o : LimitOrderObject) : Asset := ⟨o.forSale, o.sellPrice.base.assetId⟩

/-- `amount_to_receive`: what is for sale, at the price of the order. -/
def LimitOrderObject.amountToReceive (o : LimitOrderObject) : Except Exn Asset :=
  o.amountForSale.mulPrice o.sellPrice

/-- `cancel_order`: what is left is given back to the seller, and the order is removed. -/
def cancelOrder (order : Nat) : DbM Unit := do
  let o ← limitOrderIndex.get order
  let seller ← getAccount o.seller
  adjustBalance seller.id o.amountForSale
  limitOrderIndex.remove order

/-- `fill_order`: credit what the order buys, and take what it sold out of the book.
Returns whether the order is gone. -/
def fillOrder (order : Nat) (pays receives : Asset) : DbM Bool := do
  let o ← limitOrderIndex.get order
  require (o.amountForSale.assetId = pays.assetId) "order.amount_for_sale().asset_id == pays.asset_id"
  require (pays.assetId ≠ receives.assetId) "pays.asset_id != receives.asset_id"
  let seller ← getAccount o.seller
  adjustBalance seller.id receives
  if pays = o.amountForSale then do
    limitOrderIndex.remove order
    return true
  else do
    let rest ← ofExcept (safeSub o.forSale pays.amount)
    limitOrderIndex.put order { o with forSale := rest }
    let toReceive ← ofExcept ({ o with forSale := rest }.amountToReceive)
    if toReceive.amount = 0 then do
      cancelOrder order
      return true
    else return false

/-- What the two sides of a match pay: `(new order pays, old order pays)`. -/
structure Trade where
  newPays : Asset
  oldPays : Asset

/-- The amounts that `match` trades, at the price of the order that rests in the book. -/
def tradeAt (new old : Asset) (matchPrice : Price) : Except Exn Trade := do
  let oldWorth ← old.mulPrice matchPrice
  let fits ← new.le oldWorth
  if fits then do
    let newReceives ← new.mulPrice matchPrice
    return ⟨new, newReceives⟩
  else return ⟨oldWorth, old⟩

/-- `match`. The result is whether the new order is gone (bit 0 of the source). -/
def matchOrders (new old : Nat) : DbM Bool := do
  let newOrder ← limitOrderIndex.get new
  let oldOrder ← limitOrderIndex.get old
  let trade ← ofExcept
    (tradeAt newOrder.amountForSale oldOrder.amountForSale oldOrder.sellPrice)
  let finished ← fillOrder new trade.newPays trade.oldPays
  let _ ← fillOrder old trade.oldPays trade.newPays
  return finished

/-! ## Inversion -/

section Inversion

variable {s s' : Database}

theorem runs_cancelOrder {order : Nat} (h : Runs (cancelOrder order) s () s') :
    ∃ (o : LimitOrderObject) (seller : Entry AccountObject) (t : Database),
      s.limitOrders.find? order = some o ∧ s.accountNamed o.seller = some (seller.id, seller.val) ∧
      Runs (adjustBalance seller.id o.amountForSale) s () t ∧ t.limitOrders = s.limitOrders ∧
      s' = { t with limitOrders := s.limitOrders.remove order } := by
  simp only [cancelOrder, runs_bind_get, runs_bind_getAccount] at h
  obtain ⟨o, ho, seller, hseller, h⟩ := h
  rw [runs_bind] at h
  obtain ⟨_, t, h1, h⟩ := h
  have horders := (adjustBalance_tables h1).1
  refine ⟨o, seller, t, ho, hseller, h1, horders, ?_⟩
  rw [← horders]
  exact Table.runs_remove.mp h

/-- An order after something was taken out of it, with `rest` left for sale. -/
def LimitOrderObject.sold (o : LimitOrderObject) (rest : ShareType) : LimitOrderObject :=
  { o with forSale := rest }

/-- A filled order is removed when all of it is paid, or when the rest buys nothing any
more and is refunded; otherwise the rest stays on sale. -/
theorem runs_fillOrder {order : Nat} {pays receives : Asset} {gone : Bool}
    (h : Runs (fillOrder order pays receives) s gone s') :
    ∃ (o : LimitOrderObject) (seller : Entry AccountObject) (t : Database),
      s.limitOrders.find? order = some o ∧ o.sellPrice.base.assetId = pays.assetId ∧
      s.accountNamed o.seller = some (seller.id, seller.val) ∧
      Runs (adjustBalance seller.id receives) s () t ∧ t.limitOrders = s.limitOrders ∧
      (pays = o.amountForSale ∧ gone = true ∧
          s' = { t with limitOrders := s.limitOrders.remove order } ∨
        pays ≠ o.amountForSale ∧ ∃ rest : ShareType, rest.toInt = o.forSale.toInt - pays.amount.toInt ∧
          ∃ toReceive u, (o.sold rest).amountToReceive = .ok toReceive ∧
            u = { t with limitOrders := s.limitOrders.update order fun _ => o.sold rest } ∧
            (toReceive.amount = 0 ∧ gone = true ∧ Runs (cancelOrder order) u () s' ∨
              toReceive.amount ≠ 0 ∧ gone = false ∧ s' = u)) := by
  simp only [fillOrder, runs_bind_get, runs_bind_require, runs_bind_getAccount] at h
  obtain ⟨o, ho, hbase, -, seller, hseller, h⟩ := h
  rw [runs_bind] at h
  obtain ⟨_, t, h1, h⟩ := h
  have horders := (adjustBalance_tables h1).1
  refine ⟨o, seller, t, ho, of_decide_eq_true hbase, hseller, h1, horders, ?_⟩
  rw [← horders]
  rcases runs_ite.mp h with ⟨hall, h⟩ | ⟨hpart, h⟩
  · rw [runs_bind_remove] at h
    obtain ⟨rfl, rfl⟩ := runs_pure.mp h
    exact Or.inl ⟨hall, rfl, rfl⟩
  · rw [runs_bind_ofExcept] at h
    obtain ⟨rest, hrest, h⟩ := h
    rw [runs_bind_put, runs_bind_ofExcept] at h
    obtain ⟨toReceive, htr, h⟩ := h
    refine Or.inr ⟨hpart, rest, safeSub_ok.mp hrest, toReceive, _, htr, rfl, ?_⟩
    rcases runs_ite.mp h with ⟨hzero, h⟩ | ⟨hsome, h⟩
    · rw [runs_bind] at h
      obtain ⟨_, v, h2, h⟩ := h
      obtain ⟨rfl, rfl⟩ := runs_pure.mp h
      exact Or.inl ⟨hzero, rfl, h2⟩
    · obtain ⟨rfl, rfl⟩ := runs_pure.mp h
      exact Or.inr ⟨hsome, rfl, rfl⟩

theorem runs_matchOrders {new old : Nat} {gone : Bool} (h : Runs (matchOrders new old) s gone s') :
    ∃ (n o : LimitOrderObject) (trade : Trade) (gone' : Bool) (t : Database),
      s.limitOrders.find? new = some n ∧ s.limitOrders.find? old = some o ∧
      tradeAt n.amountForSale o.amountForSale o.sellPrice = .ok trade ∧
      Runs (fillOrder new trade.newPays trade.oldPays) s gone t ∧
      Runs (fillOrder old trade.oldPays trade.newPays) t gone' s' := by
  simp only [matchOrders, runs_bind_get, runs_bind_ofExcept] at h
  obtain ⟨n, hn, o, ho, trade, htrade, h⟩ := h
  rw [runs_bind] at h
  obtain ⟨gone₁, t, h1, h⟩ := h
  rw [runs_bind] at h
  obtain ⟨gone', u, h2, h⟩ := h
  obtain ⟨rfl, rfl⟩ := runs_pure.mp h
  exact ⟨n, o, trade, gone', t, hn, ho, htrade, h1, h2⟩

end Inversion

/-- The book in the order of its prices, best first, and orders of one price by their number. -/
def Database.ordersByPrice (s : Database) : List (Nat × LimitOrderObject) :=
  s.limitOrders.entries.insertionSort fun a b => ¬ a.2.sellPrice.lt b.2.sellPrice

/-- The orders an `apply_order` walk visits, and whether it then leaves the index. -/
structure Walk where
  orders : List Nat
  runsOff : Bool

/-- The orders from `lower_bound( max_price.max() )` up to `upper_bound( max_price )`, which the
loop goes through. -/
def Database.walkFor (s : Database) (maxPrice bound : Price) : Walk :=
  let fromBound := s.ordersByPrice.dropWhile fun e => bound.lt e.2.sellPrice
  if s.ordersByPrice.any fun e => bound.lt e.2.sellPrice && e.2.sellPrice.lt maxPrice then
    ⟨fromBound.map Prod.fst, true⟩
  else ⟨(fromBound.takeWhile fun e => ¬ e.2.sellPrice.lt maxPrice).map Prod.fst, false⟩

/-- The loop of `apply_order` over the orders that may match, until the new one is filled. -/
def matchAll (new : Nat) (runsOff : Bool) : List Nat → DbM Unit
  | [] => if runsOff then throw .undefined else pure ()
  | old :: rest => do
      let finished ← matchOrders new old
      if finished then pure () else matchAll new runsOff rest

/-- `apply_order`: match a new order; the result is whether it is gone. -/
def applyOrder (order : Nat) : DbM Bool := do
  let o ← limitOrderIndex.get order
  let maxPrice := o.sellPrice.inv
  let bound ← ofExcept (Price.max maxPrice.base.assetId maxPrice.quote.assetId)
  let walk ← reads fun s => s.walkFor maxPrice bound
  matchAll order walk.runsOff walk.orders
  reads fun s => (s.limitOrders.find? order).isNone

/-- What every single match preserves, a walk through the book preserves. -/
theorem matchAll_induction {P : Database → Prop} {order : Nat}
    (hmatch : ∀ old gone s s', P s → Runs (matchOrders order old) s gone s' → P s') {runsOff : Bool}
    {l : List Nat} {s s' : Database} (h : Runs (matchAll order runsOff l) s () s') (hP : P s) :
    P s' := by
  induction l generalizing s with
  | nil =>
      rw [matchAll, runs_ite] at h
      rcases h with ⟨-, h⟩ | ⟨-, h⟩
      · exact absurd h runs_throw
      · rw [(runs_pure.mp h).2]
        exact hP
  | cons old l ih =>
      rw [matchAll, runs_bind] at h
      obtain ⟨finished, u, h1, h2⟩ := h
      have hP' := hmatch old finished s u hP h1
      rcases runs_ite.mp h2 with ⟨-, h2⟩ | ⟨-, h2⟩
      · rw [(runs_pure.mp h2).2]
        exact hP'
      · exact ih h2 hP'

/-- What every single match preserves, matching a new order preserves. -/
theorem applyOrder_induction {P : Database → Prop} {order : Nat}
    (hmatch : ∀ old gone s s', P s → Runs (matchOrders order old) s gone s' → P s')
    {s s' : Database} {gone : Bool} (h : Runs (applyOrder order) s gone s') (hP : P s) : P s' := by
  simp only [applyOrder, runs_bind_get, runs_bind_ofExcept, runs_bind_reads] at h
  obtain ⟨o, -, bound, -, h⟩ := h
  rw [runs_bind] at h
  obtain ⟨_, t, hall, h⟩ := h
  obtain ⟨-, rfl⟩ := runs_reads.mp h
  exact matchAll_induction hmatch hall hP

/-- The first entry with the least key, in the order of the list. -/
def firstBy {α : Type} (key : α → Nat) : List (Nat × α) → Option (Entry α)
  | [] => none
  | e :: rest =>
      match firstBy key rest with
      | none => some ⟨e.1, e.2⟩
      | some b => if key e.2 ≤ key b.val then some ⟨e.1, e.2⟩ else some b

/-- The head of an index ordered by `key`, if it is `due`. -/
def Table.due? {α : Type} (t : Table α) (key : α → Nat) (due : α → Bool) : DbM (Option (Entry α)) :=
  reads fun s => (firstBy key (t.read s).entries).filter fun e => due e.val

theorem mem_of_firstBy {α : Type} {key : α → Nat} {l : List (Nat × α)} {e : Entry α}
    (h : firstBy key l = some e) : (e.id, e.val) ∈ l := by
  induction l generalizing e with
  | nil => cases h
  | cons a l ih =>
      simp only [firstBy] at h
      split at h
      case h_1 =>
        obtain rfl := Option.some.inj h
        exact List.mem_cons_self
      case h_2 b hb =>
        split at h
        case isTrue =>
          obtain rfl := Option.some.inj h
          exact List.mem_cons_self
        case isFalse =>
          obtain rfl := Option.some.inj h
          exact List.mem_cons_of_mem a (ih hb)

/-- What is due is in the table and due, and nothing changed by looking. -/
theorem runs_due? {α : Type} {t : Table α} {key : α → Nat} {due : α → Bool} {s s' : Database}
    {e : Entry α} (h : Runs (t.due? key due) s (some e) s') :
    (t.read s).find? e.id = some e.val ∧ due e.val = true ∧ s' = s := by
  obtain ⟨he, rfl⟩ := runs_reads.mp h
  obtain ⟨hfirst, hdue⟩ := Option.filter_eq_some_iff.mp he.symm
  exact ⟨ObjectIndex.mem_entries_iff.mp (mem_of_firstBy hfirst), hdue, rfl⟩

/-- What a round on a due object preserves, a loop over the due objects preserves. -/
theorem due_induction {α γ : Type} {t : Table α} {key : α → Nat} {due : α → Bool} {stuck : Exn}
    {body : γ → Entry α → DbM γ} {P : γ → Database → Prop}
    (hround : ∀ acc acc' e s s', P acc s → (t.read s).find? e.id = some e.val → due e.val = true →
      Runs (body acc e) s acc' s' → P acc' s')
    {n : Nat} {acc acc' : γ} {s s' : Database}
    (h : Runs (drain stuck (t.due? key due) body n acc) s acc' s') (hP : P acc s) : P acc' s' := by
  refine drain_induction (fun acc acc' e s u v hP hn hb => ?_) (fun acc s u hP hn => ?_) h hP
  · obtain ⟨he, hdue, rfl⟩ := runs_due? hn
    exact hround acc acc' e u v hP he hdue hb
  · obtain ⟨-, rfl⟩ := runs_reads.mp hn
    exact hP

theorem firstBy_eq_none {α : Type} {key : α → Nat} {l : List (Nat × α)}
    (h : firstBy key l = none) : l = [] := by
  cases l with
  | nil => rfl
  | cons a l =>
      simp only [firstBy] at h
      split at h
      · cases h
      · split at h <;> cases h

/-- No entry has a lesser key than the first one found. -/
theorem firstBy_le {α : Type} {key : α → Nat} {l : List (Nat × α)} {e : Entry α}
    (h : firstBy key l = some e) : ∀ a ∈ l, key e.val ≤ key a.2 := by
  induction l generalizing e with
  | nil => cases h
  | cons b l ih =>
      simp only [firstBy] at h
      split at h
      case h_1 hnone =>
        obtain rfl := Option.some.inj h
        rw [firstBy_eq_none hnone]
        simp
      case h_2 c hc =>
        split at h
        case isTrue hle =>
          obtain rfl := Option.some.inj h
          intro a ha
          rcases List.mem_cons.mp ha with rfl | ha
          · exact le_refl _
          · exact hle.trans (ih hc a ha)
        case isFalse hle =>
          obtain rfl := Option.some.inj h
          intro a ha
          rcases List.mem_cons.mp ha with rfl | ha
          · exact Nat.le_of_lt (Nat.lt_of_not_le hle)
          · exact ih hc a ha

/-- A loop over the due objects ends when none is left, provided that what is due is due
before everything later. -/
theorem due_exhausted {α γ : Type} {t : Table α} {key : α → Nat} {due : α → Bool} {stuck : Exn}
    {body : γ → Entry α → DbM γ} (hdue : ∀ {a b}, key a ≤ key b → due b = true → due a = true)
    {n : Nat} {acc acc' : γ} {s s' : Database}
    (h : Runs (drain stuck (t.due? key due) body n acc) s acc' s') {id : Nat} {a : α}
    (ha : (t.read s').find? id = some a) : due a = false := by
  refine drain_trace (R := fun _ _ _ _ u => ∀ {id a}, (t.read u).find? id = some a → due a = false)
    (fun acc s u hstop id a ha => ?_) (fun _ _ _ _ _ _ _ _ _ _ _ h => h) h ha
  obtain ⟨hnone, rfl⟩ := runs_reads.mp hstop
  have hmem := ObjectIndex.mem_entries_iff.mpr ha
  cases hfirst : firstBy key (t.read u).entries with
  | none =>
      rw [firstBy_eq_none hfirst] at hmem
      cases hmem
  | some e =>
      rw [hfirst] at hnone
      cases hda : due a with
      | false => rfl
      | true =>
          have hde := hdue (firstBy_le hfirst _ hmem) hda
          simp [Option.filter, hde] at hnone

/-- `clear_expired_orders`. Each round removes an order, so the size of the book
bounds the number of rounds. -/
def clearExpiredOrders : DbM Unit := do
  let now ← headBlockTime
  let size ← reads fun s => s.limitOrders.objs.size
  drain .outOfFuel (limitOrderIndex.due? (·.expiration.toNat) (·.expiration < now))
    (fun _ o => cancelOrder o.id) size ()

instance (o : Nat) : Writes (cancelOrder o) [.funds, .orders] := ⟨by unfold cancelOrder; infer_instance⟩
instance (o : Nat) (p r : Asset) : Writes (fillOrder o p r) [.funds, .orders] :=
  ⟨by unfold fillOrder; infer_instance⟩
instance (n o : Nat) : Writes (matchOrders n o) [.funds, .orders] := ⟨by unfold matchOrders; infer_instance⟩

instance (new : Nat) (off : Bool) (l : List Nat) : Writes (matchAll new off l) [.funds, .orders] := by
  induction l with
  | nil => exact ⟨by unfold matchAll; infer_instance⟩
  | cons o l ih => exact ⟨by unfold matchAll; infer_instance⟩

instance (o : Nat) : Writes (applyOrder o) [.funds, .orders] := ⟨by unfold applyOrder; infer_instance⟩

instance {α : Type} (t : Table α) (key : α → Nat) (due : α → Bool) : Writes (t.due? key due) [] :=
  ⟨within_reads _⟩

instance : Writes clearExpiredOrders [.funds, .orders] := ⟨by unfold clearExpiredOrders; infer_instance⟩

end BtcmChain
