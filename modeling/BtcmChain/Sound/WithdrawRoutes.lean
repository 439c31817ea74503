import BtcmChain.Sound.Suffrage

set_option autoImplicit false
set_option synthInstance.maxSize 10000000
set_option synthInstance.maxHeartbeats 200000

/-!
# Withdraw routes

A power-down hands its shares on along the withdraw routes of the account. The check that the
routes take at most everything and both passes of the payout walk the same range of the index,
which begins behind the route to account number 0: that route is neither limited nor paid. As long
as none is set, the percents of all routes of an account add up to at most 100%, and every
withdrawal gives each target its share, rounded down, and the account the rest.
-/

namespace BtcmChain

/-! ## The routes of an account -/

/-- All routes of an account, in the order of the index. -/
def Database.routesFrom (s : Database) (a : AccountId) : List (Entry WithdrawVestingRouteObject) :=
  ((s.withdrawRoutes.entries.filter fun e => e.2.fromAccount = a).insertionSort fun x y =>
    x.2.toAccount ≤ y.2.toAccount).map fun e => ⟨e.1, e.2⟩

/-- No route of the state ends at account number 0. -/
def Database.RoutesElsewhere (s : Database) : Prop :=
  ∀ id r, s.withdrawRoutes.find? id = some r → 0 < r.toAccount

/-- The percents of all routes of an account, added up in unbounded numbers. -/
def percentTotal (ix : ObjectIndex WithdrawVestingRouteObject) (a : AccountId) : ℤ :=
  ix.sum fun _ r => if r.fromAccount = a then r.percent.toNat else 0

section Table

variable {s s' : Database} {a : AccountId} {ix : ObjectIndex WithdrawVestingRouteObject}

theorem mem_routesFrom {e : Entry WithdrawVestingRouteObject} :
    e ∈ s.routesFrom a ↔ s.withdrawRoutes.find? e.id = some e.val ∧ e.val.fromAccount = a := by
  have hlist : Runs (withdrawVestingRouteIndex.rangeBy (fun r => r.fromAccount = a) (·.toAccount)) s
      (s.routesFrom a) s := runs_reads.mpr ⟨rfl, rfl⟩
  rw [(mem_rangeBy hlist).2, decide_eq_true_eq]
  rfl

/-- Then the range that is walked has all of them. -/
theorem runs_withdrawRoutesOf {routes : List (Entry WithdrawVestingRouteObject)}
    (h : s.RoutesElsewhere) (hr : Runs (withdrawRoutesOf a) s routes s') :
    s' = s ∧ routes = s.routesFrom a := by
  obtain ⟨rfl, rfl⟩ := runs_reads.mp hr
  refine ⟨rfl, ?_⟩
  have hfilter : s'.withdrawRoutes.entries.filter (fun e => decide (e.2.fromAccount = a ∧ 0 < e.2.toAccount)) =
      s'.withdrawRoutes.entries.filter fun e => e.2.fromAccount = a := by
    refine List.filter_congr fun e he => ?_
    have hpos := h e.1 e.2 (ObjectIndex.mem_entries_iff.mp he)
    rw [decide_eq_decide]
    exact and_iff_left hpos
  rw [Database.routesFrom, ← hfilter]
  rfl

/-- The sum over the list is the one over the table. -/
theorem sum_routesFrom (s : Database) (a : AccountId) :
    ((s.routesFrom a).map fun r => (r.val.percent.toNat : ℤ)).sum = percentTotal s.withdrawRoutes a := by
  rw [Database.routesFrom, List.map_map, ((List.perm_insertionSort ..).map _).sum_eq]
  show _ = (s.withdrawRoutes.entries.map _).sum
  induction s.withdrawRoutes.entries with
  | nil => rfl
  | cons e l ih =>
      rw [List.filter_cons, List.map_cons, List.sum_cons, ← ih]
      by_cases he : e.2.fromAccount = a
      · simp [he]
      · simp [he]

theorem percentTotal_nonneg (ix : ObjectIndex WithdrawVestingRouteObject) (a : AccountId) :
    0 ≤ percentTotal ix a := by
  rw [percentTotal, ObjectIndex.sum]
  refine FlatMap.sum_nonneg fun _ r _ => ?_
  split
  · exact Int.natCast_nonneg _
  · exact le_refl _

/-- One route of an account takes at most what all of them take. -/
theorem percent_le_total {id : Nat} {r : WithdrawVestingRouteObject} (h : ix.find? id = some r) :
    (r.percent.toNat : ℤ) ≤ percentTotal ix r.fromAccount := by
  have hremove : percentTotal (ix.remove id) r.fromAccount =
      percentTotal ix r.fromAccount - if r.fromAccount = r.fromAccount then (r.percent.toNat : ℤ) else 0 :=
    ObjectIndex.sum_remove h
  have hrest := percentTotal_nonneg (ix.remove id) r.fromAccount
  rw [if_pos rfl] at hremove
  omega

/-- A sum of 16 bits that does not wrap is the sum of the numbers. -/
theorem toNat_sum_percents {l : List (Entry WithdrawVestingRouteObject)}
    (h : (l.map fun r => (r.val.percent.toNat : ℤ)).sum < 2 ^ 16) :
    ((l.map fun r : Entry WithdrawVestingRouteObject => r.val.percent).sum.toNat : ℤ) = (l.map fun r => (r.val.percent.toNat : ℤ)).sum := by
  have hmod : ((l.map fun r : Entry WithdrawVestingRouteObject => r.val.percent).sum.toNat : ℤ) =
      (l.map fun r => (r.val.percent.toNat : ℤ)).sum % 2 ^ 16 := by
    clear h
    induction l with
    | nil => rfl
    | cons r l ih =>
        rw [List.map_cons, List.sum_cons, UInt16.toNat_add, List.map_cons, List.sum_cons]
        omega
  have hnonneg : 0 ≤ (l.map fun r => (r.val.percent.toNat : ℤ)).sum :=
    List.sum_nonneg (by simp)
  rw [hmod, Int.emod_eq_of_lt hnonneg h]

/-! ## Setting a route -/

/-- What `set_withdraw_vesting_route` does to the table of routes: one is created, changed or
removed. -/
inductive RouteChange (from_ to_ : AccountId) (percent : UInt16) (autoVest : Bool)
    (ix : ObjectIndex WithdrawVestingRouteObject) : ObjectIndex WithdrawVestingRouteObject → Prop
  | create : percent ≠ 0 → RouteChange from_ to_ percent autoVest ix
      (ix.create { fromAccount := from_, toAccount := to_, percent, autoVest })
  | remove {id : Nat} {r : WithdrawVestingRouteObject} : ix.find? id = some r →
      RouteChange from_ to_ percent autoVest ix (ix.remove id)
  | change {id : Nat} {r : WithdrawVestingRouteObject} : ix.find? id = some r →
      r.fromAccount = from_ → RouteChange from_ to_ percent autoVest ix
        (ix.update id fun _ => { r with percent, autoVest })

theorem runs_setWithdrawVestingRouteEvaluator {f t : String} {percent : UInt16} {autoVest : Bool}
    (hr : Runs (setWithdrawVestingRouteEvaluator f t percent autoVest) s () s') :
    ∃ (from_ to_ : Entry AccountObject) (routes : List (Entry WithdrawVestingRouteObject)),
      s.accountNamed f = some (from_.id, from_.val) ∧ s.accountNamed t = some (to_.id, to_.val) ∧
      RouteChange from_.id to_.id percent autoVest s.withdrawRoutes s'.withdrawRoutes ∧
      Runs (withdrawRoutesOf from_.id) s' routes s' ∧
      (routes.map fun r => r.val.percent).sum ≤ 10000 := by
  simp only [setWithdrawVestingRouteEvaluator, runs_bind_getAccount, runs_bind_findBy?] at hr
  obtain ⟨from_, hfrom, to_, hto, hr⟩ := hr
  obtain ⟨_, u, hr, hend⟩ := runs_bind.mp hr
  obtain ⟨routes, u', hlist, hend⟩ := runs_bind.mp hend
  obtain ⟨hle, rfl⟩ := runs_require.mp hend
  obtain ⟨rfl, -⟩ := mem_rangeBy hlist
  refine ⟨from_, to_, routes, hfrom, hto, ?_, hlist, of_decide_eq_true hle⟩
  generalize hfound : ObjectIndex.findBy? _ _ = found at hr
  cases found with
  | none =>
      simp only [Option.map_none, Option.elim_none, runs_bind_require, runs_bind_create] at hr
      obtain ⟨hpercent, -, -, hr⟩ := hr
      rw [show s'.withdrawRoutes = _ from Writes.routes_eq hr (by decide)]
      exact .create (of_decide_eq_true hpercent)
  | some e =>
      simp only [Option.map_some, Option.elim_some] at hr
      obtain ⟨hid, hmatch⟩ := ObjectIndex.find?_of_findBy? hfound
      rcases runs_ite.mp hr with ⟨-, hr⟩ | ⟨-, hr⟩
      · obtain ⟨_, v, h1, h2⟩ := runs_bind.mp hr
        rw [show s'.withdrawRoutes = v.withdrawRoutes from Writes.routes_eq h2 (by decide)]
        obtain rfl := Table.runs_remove.mp h1
        exact .remove hid
      · obtain ⟨r, _, hx, hy, rfl⟩ := Table.runs_modify.mp hr
        cases hy
        obtain rfl := Option.some.inj (hid.symm.trans hx)
        exact .change hid (of_decide_eq_true hmatch).1

/-- A change adds at most the percent that is set, to the routes of one account. -/
theorem RouteChange.total_le {from_ to_ : AccountId} {percent : UInt16} {autoVest : Bool}
    {ix' : ObjectIndex WithdrawVestingRouteObject} (h : RouteChange from_ to_ percent autoVest ix ix')
    (a : AccountId) :
    percentTotal ix' a ≤ percentTotal ix a + if from_ = a then (percent.toNat : ℤ) else 0 := by
  have hnonneg : ∀ (b : AccountId) (n : ℕ), 0 ≤ if b = a then (n : ℤ) else 0 := by
    intro b n
    split <;> omega
  cases h with
  | create => exact (ObjectIndex.sum_create ..).le
  | remove hid =>
      have hremove : percentTotal (ix.remove _) a = percentTotal ix a - _ := ObjectIndex.sum_remove hid
      have hold := hnonneg
      grind
  | change hid hfrom =>
      rename_i id r
      have hupdate : percentTotal (ix.update id fun _ => { r with percent, autoVest }) a =
          percentTotal ix a + ((if r.fromAccount = a then (percent.toNat : ℤ) else 0) -
            if r.fromAccount = a then (r.percent.toNat : ℤ) else 0) := ObjectIndex.sum_update hid
      have hold := hnonneg r.fromAccount r.percent.toNat
      rw [hupdate, hfrom] at *
      omega

/-- And sets none to account number 0 unless it is asked to. -/
theorem RouteChange.elsewhere {from_ to_ : AccountId} {percent : UInt16} {autoVest : Bool}
    {ix' : ObjectIndex WithdrawVestingRouteObject} (h : RouteChange from_ to_ percent autoVest ix ix')
    (hto : percent = 0 ∨ 0 < to_) (hix : ∀ id r, ix.find? id = some r → 0 < r.toAccount) :
    ∀ id r, ix'.find? id = some r → 0 < r.toAccount := by
  intro id r hid
  cases h with
  | create hpercent =>
      rw [ObjectIndex.find?_create] at hid
      split at hid
      · obtain rfl := Option.some.inj hid
        exact hto.resolve_left hpercent
      · exact hix id r hid
  | remove =>
      rw [ObjectIndex.find?_remove] at hid
      split at hid
      · cases hid
      · exact hix id r hid
  | change hold =>
      have hpos := hix _ _ hold
      rw [ObjectIndex.find?_update] at hid
      split at hid
      · obtain ⟨_, -, rfl⟩ := Option.map_eq_some_iff.mp hid
        exact hpos
      · exact hix id r hid

/-- Every route is walked, and together they take at most everything. -/
structure Database.RoutesSound (s : Database) : Prop where
  elsewhere : s.RoutesElsewhere
  total : ∀ a, percentTotal s.withdrawRoutes a ≤ 10000

theorem Database.RoutesSound.congr (h : s.RoutesSound) (hr : s'.withdrawRoutes = s.withdrawRoutes) :
    s'.RoutesSound := by
  constructor
  · intro id r
    rw [hr]
    exact h.elsewhere id r
  · rw [hr]
    exact h.total

theorem Database.RoutesSound.percent_le (h : s.RoutesSound) {id : Nat} {r : WithdrawVestingRouteObject}
    (hr : s.withdrawRoutes.find? id = some r) : r.percent.toNat ≤ 10000 := by
  have hle := (percent_le_total hr).trans (h.total r.fromAccount)
  omega

/-- `set_withdraw_vesting_route`. The sum before and the new percent are at most 20000 together, so
the 16 bits of `total_percent` do not wrap. -/
theorem Database.RoutesSound.setRoute {f t : String} {percent : UInt16} {autoVest : Bool}
    (h : s.RoutesSound) (hp : percent ≤ 10000)
    (hto : percent = 0 ∨ ∀ e, s.accountNamed t = some e → 0 < e.1)
    (hr : Runs (setWithdrawVestingRouteEvaluator f t percent autoVest) s () s') : s'.RoutesSound := by
  have hp : percent.toNat ≤ 10000 := hp
  obtain ⟨from_, to_, routes, -, hnamed, hchange, hlist, hle⟩ :=
    runs_setWithdrawVestingRouteEvaluator hr
  have helsewhere : s'.RoutesElsewhere :=
    hchange.elsewhere (hto.imp_right fun hto => hto _ hnamed) h.elsewhere
  obtain ⟨-, rfl⟩ := runs_withdrawRoutesOf helsewhere hlist
  refine ⟨helsewhere, fun a => ?_⟩
  have hbound := hchange.total_le a
  have hbefore := h.total a
  by_cases hfrom : from_.id = a
  · rw [if_pos hfrom] at hbound
    subst hfrom
    rw [← sum_routesFrom] at hbound ⊢
    rw [← toNat_sum_percents (by omega)]
    exact_mod_cast UInt16.le_iff_toNat_le.mp hle
  · rw [if_neg hfrom] at hbound
    omega

end Table

/-! ## What a withdrawal hands out -/

/-- The shares that a route takes from a withdrawal, rounded down. -/
def WithdrawVestingRouteObject.share (r : WithdrawVestingRouteObject) (w : ShareType) : ShareType :=
  .ofInt (w.toInt * r.percent.toNat / 10000)

/-- Shares are turned into BTCM at the current price, and both leave the totals. -/
def GlobalSupply.redeem (p : GlobalSupply) (shares : ShareType) :
    Except Exn (ShareType × GlobalSupply) := do
  let converted ← (vests shares).mulPrice p.vestingSharePrice
  let x ← converted.amountOf BTCM_SYMBOL
  let totalVestingFundBtcm ← safeSub p.totalVestingFundBtcm x
  let totalVestingShares ← safeSub p.totalVestingShares shares
  return (x, { p with totalVestingFundBtcm, totalVestingShares })

/-- Redemptions one after the other, each at the price the one before leaves: who redeems how many
shares, and who gets how much BTCM for them. -/
inductive Redemptions : GlobalSupply → List (AccountId × ShareType) → List (AccountId × ShareType) →
    GlobalSupply → Prop
  | nil {p : GlobalSupply} : Redemptions p [] [] p
  | cons {p q p' : GlobalSupply} {a : AccountId} {n x : ShareType}
      {l paid : List (AccountId × ShareType)} : p.redeem n = .ok (x, q) → Redemptions q l paid p' →
      Redemptions p ((a, n) :: l) ((a, x) :: paid) p'

/-- Of a list of amounts for accounts, those for one account, added up. -/
def amountsFor (l : List (AccountId × ShareType)) (x : AccountId) : ℤ :=
  (l.map fun e => if e.1 = x then e.2.toInt else 0).sum

/-- What goes to the targets of routes as vesting shares. -/
def vestingParts (routes : List (Entry WithdrawVestingRouteObject)) (w : ShareType) :
    List (AccountId × ShareType) :=
  (routes.filter (·.val.autoVest)).map fun r => (r.val.toAccount, r.val.share w)

/-- What is converted for the targets; a share of nothing is not. -/
def convertedParts (routes : List (Entry WithdrawVestingRouteObject)) (w : ShareType) :
    List (AccountId × ShareType) :=
  (routes.filter fun r => !r.val.autoVest && decide (0 < r.val.share w)).map fun r =>
    (r.val.toAccount, r.val.share w)

/-- The vesting shares of an account in a state, and 0 without such an account. -/
def Database.vestsOf (s : Database) (x : AccountId) : ℤ :=
  (s.accounts.find? x).elim 0 fun a => a.vestingShares.toInt

/-- The liquid BTCM of an account in a state, and 0 without such an account. -/
def Database.btcmOf (s : Database) (x : AccountId) : ℤ :=
  (s.accounts.find? x).elim 0 fun a => a.balance.toInt

/-- A withdrawal of `w` shares by `a` along all its routes: each takes its share, rounded down, and
the account the rest; no share is negative, and together they are `w`. -/
structure WithdrawsExactly (a : AccountId) (w rest : ShareType) (s s' : Database) : Prop where
  share : ∀ r ∈ s.routesFrom a, (r.val.share w).toInt = w.toInt * r.val.percent.toNat / 10000
  share_nonneg : ∀ r ∈ s.routesFrom a, 0 ≤ (r.val.share w).toInt
  rest_nonneg : 0 ≤ rest.toInt
  total : ((s.routesFrom a).map fun r => (r.val.share w).toInt).sum + rest.toInt = w.toInt
  vests : ∀ x, s'.vestsOf x = s.vestsOf x + amountsFor (vestingParts (s.routesFrom a) w) x -
    if x = a then w.toInt else 0
  btcm : ∃ paid, Redemptions s.dgpo.toGlobalSupply
      (convertedParts (s.routesFrom a) w ++ [(a, rest)]) paid s'.dgpo.toGlobalSupply ∧
    ∀ x, s'.btcmOf x = s.btcmOf x + amountsFor paid x

section Withdrawals

variable {s s' t : Database} {a x : AccountId} {w total total' : ShareType}
  {r : Entry WithdrawVestingRouteObject} {routes : List (Entry WithdrawVestingRouteObject)}

@[simp] theorem amountsFor_nil : amountsFor [] x = 0 := rfl

@[simp] theorem amountsFor_cons {e : AccountId × ShareType} {l : List (AccountId × ShareType)} :
    amountsFor (e :: l) x = (if e.1 = x then e.2.toInt else 0) + amountsFor l x := by
  simp [amountsFor]

@[simp] theorem amountsFor_append {l l' : List (AccountId × ShareType)} :
    amountsFor (l ++ l') x = amountsFor l x + amountsFor l' x := by
  simp [amountsFor]

theorem Redemptions.append {p q p' : GlobalSupply} {l l' paid paid' : List (AccountId × ShareType)}
    (h : Redemptions p l paid q) (h' : Redemptions q l' paid' p') :
    Redemptions p (l ++ l') (paid ++ paid') p' := by
  induction h with
  | nil => exact h'
  | cons hredeem _ ih => exact .cons hredeem (ih h')

theorem vestsOf_congr (h : s'.stakes = s.stakes) (x : AccountId) : s'.vestsOf x = s.vestsOf x := by
  have hview : ∀ u : Database, u.vestsOf x =
      (u.stakes.accounts.find? x).elim 0 fun k => k.2.vestingShares.toInt := by
    intro u
    rw [Database.stakes, FlatMap.find?_mapVals, Option.elim_map]
    rfl
  rw [hview, hview, h]

theorem btcmOf_congr (h : s'.funds = s.funds) (x : AccountId) : s'.btcmOf x = s.btcmOf x := by
  have hview : ∀ u : Database, u.btcmOf x =
      (u.funds.accounts.find? x).elim 0 fun k => k.2.balance.toInt := by
    intro u
    rw [Database.funds, FlatMap.find?_mapVals, Option.elim_map]
    rfl
  rw [hview, hview, h]

theorem supply_congr (h : s'.funds = s.funds) : s'.dgpo.toGlobalSupply = s.dgpo.toGlobalSupply :=
  congrArg Funds.supply h

/-- What a route takes is its share, as long as its percentage is one. -/
theorem share_of_routeShare {d : ShareType} (hp : r.val.percent.toNat ≤ 10000)
    (h : routeShare w r.val.percent = .ok d) : d = r.val.share w ∧ 0 ≤ d.toInt := by
  obtain ⟨hpos, hd⟩ := routeShare_ok hp h
  refine ⟨?_, by omega⟩
  rw [WithdrawVestingRouteObject.share, ← hd, Int64.ofInt_toInt]

/-- The share that a route takes of a withdrawal fits into 64 bits. -/
theorem toInt_share (hp : r.val.percent.toNat ≤ 10000) (hw : 0 ≤ w.toInt) :
    (r.val.share w).toInt = w.toInt * r.val.percent.toNat / 10000 := by
  have hlt := w.toInt_lt
  have hle : w.toInt * r.val.percent.toNat ≤ w.toInt * 10000 :=
    mul_le_mul_of_nonneg_left (by exact_mod_cast hp) hw
  have hnonneg : 0 ≤ w.toInt * r.val.percent.toNat := mul_nonneg hw (Int.natCast_nonneg _)
  exact Int64.toInt_ofInt_of_le (by omega) (by omega)

/-! ### The first pass -/

/-- The shares that one route vests go to its target, and are added to the total. -/
theorem runs_depositVests (hp : r.val.percent.toNat ≤ 10000)
    (hr : Runs (depositVests w total r) s total' s') :
    s'.funds = s.funds ∧ total.toInt ≤ total'.toInt ∧
    total'.toInt = total.toInt + (if r.val.autoVest then (r.val.share w).toInt else 0) ∧
    ∀ x, s'.vestsOf x = s.vestsOf x + amountsFor (vestingParts [r] w) x := by
  refine ⟨Writes.funds_eq hr (by decide), ?_⟩
  rcases runs_ite.mp hr with ⟨hauto, hr⟩ | ⟨hauto, hr⟩
  · simp only [runs_bind_ofExcept, safeAdd_ok] at hr
    obtain ⟨d, hd, y, hy, hr⟩ := hr
    obtain ⟨rfl, hpos⟩ := share_of_routeShare hp hd
    obtain ⟨_, t, hr, hend⟩ := runs_bind.mp hr
    obtain ⟨rfl, rfl⟩ := runs_pure.mp hend
    rw [if_pos hauto]
    refine ⟨by omega, hy, fun x => ?_⟩
    simp only [vestingParts, List.filter_cons, hauto, if_true, List.filter_nil, List.map_cons,
      List.map_nil, amountsFor_cons, amountsFor_nil, add_zero]
    rcases runs_whenM.mp hr with ⟨-, hr⟩ | ⟨hzero, rfl⟩
    · obtain ⟨_, t1, h1, hr⟩ := runs_bind.mp hr
      obtain ⟨_, t2, h2, h3⟩ := runs_bind.mp hr
      rw [vestsOf_congr (Writes.stakes_eq h3 (by decide)), vestsOf_congr (Writes.stakes_eq h2 (by decide))]
      obtain ⟨acct, k, hacct, hk, rfl⟩ := runs_modifyStake.mp h1
      simp only [except_bind_ok, except_pure_ok, safeAdd_ok] at hk
      obtain ⟨z, hz, rfl⟩ := hk
      simp only [Database.vestsOf, ObjectIndex.find?_update]
      by_cases hx : r.val.toAccount = x
      · subst hx
        simp only [hacct, if_true, Option.map_some, Option.elim_some]
        exact hz
      · rw [if_neg hx, if_neg (Ne.symm hx), add_zero]
    · have hzero := of_decide_eq_false hzero
      rw [Int64.lt_iff_toInt_lt, Int64.toInt_zero] at hzero
      split <;> omega
  · obtain ⟨rfl, rfl⟩ := runs_pure.mp hr
    rw [if_neg hauto]
    refine ⟨le_refl _, (add_zero _).symm, fun x => ?_⟩
    simp [vestingParts, hauto]

/-- The shares that all routes vest go to their targets, one after the other. -/
theorem runs_depositAllVests (hp : ∀ r ∈ routes, r.val.percent.toNat ≤ 10000)
    (hr : Runs (routes.foldlM (depositVests w) total) s total' s') :
    s'.funds = s.funds ∧ total.toInt ≤ total'.toInt ∧
    total'.toInt = total.toInt +
      (routes.map fun r => if r.val.autoVest then (r.val.share w).toInt else 0).sum ∧
    ∀ x, s'.vestsOf x = s.vestsOf x + amountsFor (vestingParts routes w) x := by
  induction routes generalizing total s with
  | nil =>
      obtain ⟨rfl, rfl⟩ := runs_pure.mp hr
      simp [vestingParts]
  | cons r l ih =>
      rw [List.foldlM_cons] at hr
      obtain ⟨mid, t, h1, h2⟩ := runs_bind.mp hr
      obtain ⟨hfunds, hle, htotal, hvests⟩ := runs_depositVests (hp r List.mem_cons_self) h1
      obtain ⟨hfunds', hle', htotal', hvests'⟩ :=
        ih (fun r' hr' => hp r' (List.mem_cons_of_mem r hr')) h2
      refine ⟨hfunds'.trans hfunds, hle.trans hle', ?_, fun x => ?_⟩
      · rw [List.map_cons, List.sum_cons, htotal', htotal, add_assoc]
      · have hparts : vestingParts (r :: l) w = vestingParts [r] w ++ vestingParts l w := by
          rw [vestingParts, ← List.singleton_append, List.filter_append, List.map_append]
          rfl
        rw [hvests', hvests, hparts, amountsFor_append, add_assoc]

/-! ### The second pass -/

/-- A conversion credits an account with BTCM, and takes the shares out of the pool. -/
theorem runs_creditConverted {n : ShareType} {converted : Asset}
    (hprice : (vests n).mulPrice s.dgpo.vestingSharePrice = .ok converted)
    (hr : Runs (creditConverted a n converted) s () s') :
    ∃ y, s.dgpo.toGlobalSupply.redeem n = .ok (y, s'.dgpo.toGlobalSupply) ∧
      ∀ x, s'.btcmOf x = s.btcmOf x + amountsFor [(a, y)] x := by
  obtain ⟨_, t, h1, h2⟩ := runs_bind.mp hr
  obtain ⟨acct, f, hacct, hf, rfl⟩ := runs_modifyFunds.mp h1
  obtain ⟨p, hp, rfl⟩ := runs_modifySupply.mp h2
  simp only [except_bind_ok, except_pure_ok, safeAdd_ok] at hf
  obtain ⟨y, hy, balance, hbalance, rfl⟩ := hf
  refine ⟨y, ?_, fun x => ?_⟩
  · simp only [except_bind_ok, except_pure_ok] at hp
    obtain ⟨y', hy', fund, hfund, shares, hshares, rfl⟩ := hp
    obtain rfl := Except.ok.inj (hy.symm.trans hy')
    simp only [GlobalSupply.redeem, except_bind_ok, except_pure_ok]
    exact ⟨converted, hprice, y, hy, fund, hfund, shares, hshares, rfl⟩
  · simp only [Database.btcmOf, ObjectIndex.find?_update, amountsFor_cons, amountsFor_nil, add_zero]
    by_cases hx : a = x
    · subst hx
      simp only [hacct, if_true, Option.map_some, Option.elim_some]
      exact hbalance
    · rw [if_neg hx, if_neg (Ne.symm hx), add_zero]

/-- The shares that one route converts are paid to its target in BTCM, and added to the total. -/
theorem runs_depositBtcm (hp : r.val.percent.toNat ≤ 10000)
    (hr : Runs (depositBtcm w total r) s total' s') :
    s'.stakes = s.stakes ∧ total.toInt ≤ total'.toInt ∧
    total'.toInt = total.toInt + (if r.val.autoVest then 0 else (r.val.share w).toInt) ∧
    ∃ paid, Redemptions s.dgpo.toGlobalSupply (convertedParts [r] w) paid s'.dgpo.toGlobalSupply ∧
      ∀ x, s'.btcmOf x = s.btcmOf x + amountsFor paid x := by
  refine ⟨Writes.stakes_eq hr (by decide), ?_⟩
  rcases runs_ite.mp hr with ⟨hauto, hr⟩ | ⟨hauto, hr⟩
  · obtain ⟨rfl, rfl⟩ := runs_pure.mp hr
    rw [if_pos hauto]
    refine ⟨le_refl _, (add_zero _).symm, [], ?_, by simp⟩
    simp only [convertedParts, List.filter_cons, hauto]
    exact .nil
  · simp only [runs_bind_get, runs_bind_ofExcept, safeAdd_ok, convertShares, bind_assoc,
      runs_bind_reads] at hr
    obtain ⟨_, -, d, hd, y, hy, converted, hconverted, hr⟩ := hr
    obtain ⟨rfl, hpos⟩ := share_of_routeShare hp hd
    obtain ⟨_, t, hr, hend⟩ := runs_bind.mp hr
    obtain ⟨rfl, rfl⟩ := runs_pure.mp hend
    rw [if_neg hauto]
    refine ⟨by omega, hy, ?_⟩
    rcases runs_whenM.mp hr with ⟨hsome, hr⟩ | ⟨hnone, rfl⟩
    · obtain ⟨z, hz, hbtcm⟩ := runs_creditConverted hconverted hr
      refine ⟨[(r.val.toAccount, z)], ?_, hbtcm⟩
      simp only [convertedParts, List.filter_cons, hauto, hsome]
      exact .cons hz .nil
    · refine ⟨[], ?_, by simp⟩
      simp only [convertedParts, List.filter_cons, hnone, Bool.and_false]
      exact .nil

/-- The shares that all routes convert are paid to their targets in BTCM, one after the other. -/
theorem runs_depositAllBtcm (hp : ∀ r ∈ routes, r.val.percent.toNat ≤ 10000)
    (hr : Runs (routes.foldlM (depositBtcm w) total) s total' s') :
    s'.stakes = s.stakes ∧ total.toInt ≤ total'.toInt ∧
    total'.toInt = total.toInt +
      (routes.map fun r => if r.val.autoVest then 0 else (r.val.share w).toInt).sum ∧
    ∃ paid, Redemptions s.dgpo.toGlobalSupply (convertedParts routes w) paid s'.dgpo.toGlobalSupply ∧
      ∀ x, s'.btcmOf x = s.btcmOf x + amountsFor paid x := by
  induction routes generalizing total s with
  | nil =>
      obtain ⟨rfl, rfl⟩ := runs_pure.mp hr
      refine ⟨rfl, le_refl _, by simp, [], .nil, by simp⟩
  | cons r l ih =>
      rw [List.foldlM_cons] at hr
      obtain ⟨mid, t, h1, h2⟩ := runs_bind.mp hr
      obtain ⟨hstakes, hle, htotal, paid, hredeem, hbtcm⟩ := runs_depositBtcm (hp r List.mem_cons_self) h1
      obtain ⟨hstakes', hle', htotal', paid', hredeem', hbtcm'⟩ :=
        ih (fun r' hr' => hp r' (List.mem_cons_of_mem r hr')) h2
      refine ⟨hstakes'.trans hstakes, hle.trans hle', ?_, paid ++ paid', ?_, fun x => ?_⟩
      · rw [List.map_cons, List.sum_cons, htotal', htotal, add_assoc]
      · have hparts : convertedParts (r :: l) w = convertedParts [r] w ++ convertedParts l w := by
          rw [convertedParts, ← List.singleton_append, List.filter_append, List.map_append]
          rfl
        rw [hparts]
        exact hredeem.append hredeem'
      · rw [hbtcm', hbtcm, amountsFor_append, add_assoc]

/-! ### The whole -/

/-- The shares of the routes are those of the two passes. -/
theorem sum_shares (routes : List (Entry WithdrawVestingRouteObject)) (w : ShareType) :
    (routes.map fun r => (r.val.share w).toInt).sum =
      (routes.map fun r => if r.val.autoVest then (r.val.share w).toInt else 0).sum +
      (routes.map fun r => if r.val.autoVest then 0 else (r.val.share w).toInt).sum := by
  rw [← List.sum_map_add]
  refine congrArg List.sum (List.map_congr_left fun r _ => ?_)
  split <;> simp

/-- The withdrawn shares leave the account, and nobody else's change. -/
theorem vestsOf_withdraw (hr : Runs (modifyStake a (AccountStake.withdraw w)) s () s') (x : AccountId) :
    s'.vestsOf x = s.vestsOf x - if x = a then w.toInt else 0 := by
  obtain ⟨acct, k, hacct, hk, rfl⟩ := runs_modifyStake.mp hr
  have hshares := AccountStake.withdraw_ok hk
  simp only [Database.vestsOf, ObjectIndex.find?_update]
  by_cases hx : x = a
  · subst hx
    simp only [hacct, if_true, Option.map_some, Option.elim_some]
    exact hshares
  · rw [if_neg hx, if_neg hx, sub_zero]

/-- The votes and the scores have no part in it. -/
theorem same_of_recount (hr : Runs (whenM (0 < w) do
      let minus ← ofExcept (safeNeg w)
      adjustProxiedWitnessVotes a minus
      recursiveRecalculateScore a minus) s () s') : s'.stakes = s.stakes ∧ s'.funds = s.funds := by
  rcases runs_whenM.mp hr with ⟨-, hr⟩ | ⟨-, rfl⟩
  · obtain ⟨minus, -, hr⟩ := runs_bind_ofExcept.mp hr
    obtain ⟨_, t, h1, h2⟩ := runs_bind.mp hr
    exact ⟨(Writes.stakes_eq h2 (by decide)).trans (Writes.stakes_eq h1 (by decide)),
      (Writes.funds_eq h2 (by decide)).trans (Writes.funds_eq h1 (by decide))⟩
  · exact ⟨rfl, rfl⟩

/-- **A withdrawal**, where every route is walked, gives each target its share and the rest to the
account. -/
theorem Database.RoutesSound.withdrawsExactly (h : s.RoutesSound)
    (hr : Runs (withdrawFrom a) s () s') :
    ∃ (acct : AccountObject) (w rest : ShareType), s.accounts.find? a = some acct ∧
      acct.dueWithdrawal = .ok w ∧ WithdrawsExactly a w rest s s' := by
  simp only [withdrawFrom, runs_bind_get, runs_bind_ofExcept] at hr
  obtain ⟨acct, hacct, w, hw, hr⟩ := hr
  obtain ⟨routes, s0, hlist, hrest⟩ := runs_bind.mp hr
  obtain ⟨rfl, rfl⟩ := runs_withdrawRoutesOf h.elsewhere hlist
  obtain ⟨asVests, t1, h1, hrest⟩ := runs_bind.mp hrest
  obtain ⟨asBtcm, t2, h2, hrest⟩ := runs_bind.mp hrest
  simp only [runs_bind_ofExcept, safeSub_ok, runs_bind_require, convertShares, bind_assoc,
    runs_bind_reads] at hrest
  obtain ⟨left, hleft, rest, hrest', hpos, converted, hconverted, hend⟩ := hrest
  obtain ⟨_, t3, h3, hend⟩ := runs_bind.mp hend
  obtain ⟨_, t4, h4, h5⟩ := runs_bind.mp hend
  have hp : ∀ r ∈ s0.routesFrom a, r.val.percent.toNat ≤ 10000 := fun r hm =>
    h.percent_le (mem_routesFrom.mp hm).1
  obtain ⟨hfunds, hle, hvested, hvests⟩ := runs_depositAllVests hp h1
  obtain ⟨hstakes, hle', hasBtcm, paid, hredeem, hbtcm⟩ := runs_depositAllBtcm hp h2
  obtain ⟨hstakes', hfunds'⟩ := same_of_recount h5
  have hpos := of_decide_eq_true hpos
  rw [Int64.le_iff_toInt_le, Int64.toInt_zero] at hpos
  rw [Int64.toInt_zero] at hle hle' hvested hasBtcm
  have hnonneg : 0 ≤ w.toInt := by omega
  refine ⟨acct, w, rest, hacct, hw, ?_⟩
  constructor
  case share => exact fun r hm => toInt_share (hp r hm) hnonneg
  case share_nonneg =>
    intro r hm
    rw [toInt_share (hp r hm) hnonneg]
    have hproduct : 0 ≤ w.toInt * r.val.percent.toNat := mul_nonneg hnonneg (Int.natCast_nonneg _)
    omega
  case rest_nonneg => exact hpos
  case total =>
    have hsum := sum_shares (s0.routesFrom a) w
    omega
  case vests =>
    intro x
    rw [vestsOf_congr hstakes', vestsOf_congr (Writes.stakes_eq h4 (by decide)), vestsOf_withdraw h3,
      vestsOf_congr hstakes, hvests]
  case btcm =>
    -- the shares are taken from the account before its part is converted
    have hfunds₃ : t3.funds = t2.funds := Writes.funds_eq h3 (by decide)
    have hprice : (vests rest).mulPrice t3.dgpo.vestingSharePrice = .ok converted := by
      rw [supply_congr hfunds₃]
      exact hconverted
    obtain ⟨y, hy, hrest⟩ := runs_creditConverted hprice h4
    rw [supply_congr hfunds₃] at hy
    rw [supply_congr hfunds] at hredeem
    refine ⟨paid ++ [(a, y)], ?_, fun x => ?_⟩
    · rw [supply_congr hfunds']
      exact hredeem.append (.cons hy .nil)
    · rw [btcmOf_congr hfunds', hrest, btcmOf_congr hfunds₃, hbtcm, btcmOf_congr hfunds,
        amountsFor_append, add_assoc]

/-- Shares of at most everything are at most everything, however they are rounded. -/
theorem sum_floors_le {percents : List ℤ} {n : ℤ} (hn : 0 ≤ n) (h : percents.sum ≤ 10000) :
    (percents.map fun p => n * p / 10000).sum ≤ n := by
  have hfloors : (percents.map fun p => n * p / 10000).sum ≤ n * percents.sum / 10000 := by
    clear h
    induction percents with
    | nil => simp
    | cons p l ih =>
        rw [List.map_cons, List.sum_cons, List.sum_cons, mul_add]
        omega
  have hwhole : n * percents.sum ≤ n * 10000 := mul_le_mul_of_nonneg_left h hn
  omega

/-- The step of the loop for an account whose date has come. -/
def DueWithdrawal (now : TimePointSec) (s s' : Database) : Prop :=
  ∃ (a : AccountId) (acct : AccountObject) (w rest : ShareType), s.accounts.find? a = some acct ∧
    acct.nextVestingWithdrawal ≤ now ∧ acct.dueWithdrawal = .ok w ∧ WithdrawsExactly a w rest s s'

/-- The loop makes one withdrawal that is due after the other. -/
theorem Database.RoutesSound.withdrawalsFrom {now : TimePointSec} {n : Nat} {current : Option AccountId}
    (h : s.RoutesSound) (hr : Runs (BtcmChain.withdrawalsFrom now n current) s () s') :
    Relation.ReflTransGen (DueWithdrawal now) s s' := by
  induction n generalizing current s with
  | zero =>
      cases current with
      | none =>
          obtain ⟨-, rfl⟩ := runs_pure.mp hr
          exact .refl
      | some id => exact absurd hr runs_throw
  | succ n ih =>
      cases current with
      | none =>
          obtain ⟨-, rfl⟩ := runs_pure.mp hr
          exact .refl
      | some id =>
          simp only [BtcmChain.withdrawalsFrom, Option.elim_some, runs_bind_get, runs_ite,
            runs_bind_reads] at hr
          obtain ⟨acct, hacct, ⟨hdue, hr⟩ | ⟨-, hr⟩⟩ := hr
          · obtain ⟨_, t, h1, h2⟩ := runs_bind.mp hr
            obtain ⟨acct', w, rest, hacct', hw, hexact⟩ := h.withdrawsExactly h1
            obtain rfl := Option.some.inj (hacct.symm.trans hacct')
            exact .head ⟨id, acct, w, rest, hacct, hdue, hw, hexact⟩
              (ih (h.congr (Writes.routes_eq h1 (by decide))) h2)
          · obtain ⟨-, rfl⟩ := runs_pure.mp hr
            exact .refl

theorem Database.RoutesSound.processVestingWithdrawals (h : s.RoutesSound)
    (hr : Runs BtcmChain.processVestingWithdrawals s () s') :
    Relation.ReflTransGen (DueWithdrawal s.dgpo.time) s s' := by
  simp only [BtcmChain.processVestingWithdrawals, runs_bind_headBlockTime, runs_bind_reads] at hr
  exact h.withdrawalsFrom hr

end Withdrawals

/-! ## Runs -/

/-- A call that sets no route to account number 0. -/
def Call.RoutesElsewhere (c : Call) : Prop :=
  match c.op with
  | .setWithdrawVestingRoute _ toAccount percent _ =>
      percent = 0 ∨ ∀ e, c.state.accountNamed toAccount = some e → 0 < e.1
  | _ => True

/-- A move in which no route to account number 0 is set. -/
def Move.RoutesElsewhere [Externals] (s : Database) (m : Move) : Prop :=
  ∀ c ∈ m.calls s, c.RoutesElsewhere

section Runs

variable [Externals] {s s' : Database}

theorem evaluate_routesSound {push : Nat → DbM Unit} {op : Operation}
    (hop : op.isProposalUpdate = false) (hv : op.validate = .ok ())
    (hroute : Call.RoutesElsewhere ⟨s, op⟩) (h : s.RoutesSound) (hr : Runs (evaluate push op) s () s') :
    s'.RoutesSound := by
  cases hi : op.writes .routes with
  | false => exact h.congr (evaluate_same hop hi hr)
  | true =>
      cases op <;> first | exact (Bool.false_ne_true hi).elim | skip
      case setWithdrawVestingRoute f t percent auto =>
        simp only [Operation.validate, except_bind_ok, fcAssert_ok] at hv
        obtain ⟨_, -, _, -, hp⟩ := hv
        exact h.setRoute (of_decide_eq_true hp) hroute hr

/-- As long as no route to account number 0 is set, all are walked and limited. -/
theorem ReachableIf.routesSound (hs : ReachableIf (fun t m => m.RoutesElsewhere t) s) :
    s.RoutesSound := by
  induction hs with
  | genesis h =>
      have hroutes := Writes.routes_eq h (by decide)
      refine Database.RoutesSound.congr (s := {}) ⟨?_, ?_⟩ hroutes
      · intro id r hr
        cases hr
      · intro a
        exact le_of_eq_of_le rfl (by decide : (0 : ℤ) ≤ 10000)
  | move hs hc hm ih =>
      exact (Move.run_induction (P := Database.RoutesSound) (C := Call.RoutesElsewhere)
        (fun _ _ h => h.congr rfl)
        (fun _ _ _ _ hop hv hroute h hr => evaluate_routesSound hop hv hroute h hr)
        (fun _ _ _ h hr => h.congr (Writes.routes_eq hr (by decide)))
        (fun _ _ _ h hr => h.congr (Writes.routes_eq hr (by decide)))
        (fun _ _ _ h hr => h.congr (Writes.routes_eq hr (by decide)))
        (fun _ _ h hr => h.congr (Writes.routes_eq hr (by decide)))
        hs.reachable.proposalsValid hc ih hm).1

/-- **Withdraw routes.** In every state of a run in which no route to account number 0 is set, the
routes of each account take at most 100% together, so that their shares of no withdrawal exceed it;
and as nothing but `set_withdraw_vesting_route` touches them, each withdrawal that begins while they
are as in that state gives every target its share and the account the rest, and that is all that
`process_vesting_withdrawals` does. -/
theorem withdraw_routes_exact (hs : ReachableIf (fun t m => m.RoutesElsewhere t) s) :
    (∀ a, ((s.routesFrom a).map fun r => (r.val.percent.toNat : ℤ)).sum ≤ 10000) ∧
    (∀ a (w : ℤ), 0 ≤ w → ((s.routesFrom a).map fun r => w * r.val.percent.toNat / 10000).sum ≤ w) ∧
    (∀ a t t', t.withdrawRoutes = s.withdrawRoutes → Runs (withdrawFrom a) t () t' →
      ∃ (acct : AccountObject) (w rest : ShareType), t.accounts.find? a = some acct ∧
        acct.dueWithdrawal = .ok w ∧ WithdrawsExactly a w rest t t') ∧
    ∀ t t', t.withdrawRoutes = s.withdrawRoutes → Runs processVestingWithdrawals t () t' →
      Relation.ReflTransGen (DueWithdrawal t.dgpo.time) t t' := by
  have h := hs.routesSound
  have hpercents : ∀ a, ((s.routesFrom a).map fun r => (r.val.percent.toNat : ℤ)).sum ≤ 10000 := by
    intro a
    rw [sum_routesFrom]
    exact h.total a
  refine ⟨hpercents, fun a w hw => ?_, fun a t t' hroutes hr => (h.congr hroutes).withdrawsExactly hr,
    fun t t' hroutes hr => (h.congr hroutes).processVestingWithdrawals hr⟩
  have hle := sum_floors_le hw (hpercents a)
  rwa [List.map_map] at hle

end Runs

/-! ## Concrete chains -/

section Samples

open Sample

/-- `initminer2` hands half of its withdrawals on to `initminer`, and the rest is its own. -/
theorem withdraw_routes_exact_half :
    ∃ s, ReachableIf (fun t m => m.RoutesElsewhere t) s ∧ (s.routesFrom 5).length = 1 ∧
      ((s.routesFrom 5).map fun r => (r.val.percent.toNat : ℤ)).sum ≤ 10000 := by
  have hrun : leadsTo (initGenesis votersGenesis) {} (fun g =>
      leadsTo ((Move.emptyBlock firstBlock).forM Move.run) g fun s =>
      (s.accountNamed "initminer").all (fun e => decide (0 < e.1)) &&
      leadsTo (Move.operation (.setWithdrawVestingRoute "initminer2" "initminer" 5000 true)).run s fun t =>
        decide ((t.routesFrom 5).length = 1)) = true := by
    decide +kernel
  obtain ⟨g, hg, hrun⟩ := leadsTo_iff.mp hrun
  obtain ⟨s, hs, hrun⟩ := leadsTo_iff.mp hrun
  obtain ⟨hnamed, hrun⟩ := Bool.and_eq_true_iff.mp hrun
  obtain ⟨t, ht, hone⟩ := leadsTo_iff.mp hrun
  have hreach : ReachableIf (fun t m => m.RoutesElsewhere t) t := by
    have hfirst := ReachableIf.emptyBlock (C := fun t m => m.RoutesElsewhere t)
      (fun _ m hm c hc => by rw [hm] at hc; cases hc) (.genesis hg) hs
    refine .move hfirst ?_ ht
    intro c hc
    rw [Move.calls, calls_eq_self rfl, List.mem_singleton] at hc
    subst hc
    refine Or.inr fun e he => ?_
    have he : s.accountNamed "initminer" = some e := he
    rw [he] at hnamed
    exact of_decide_eq_true hnamed
  exact ⟨t, hreach, of_decide_eq_true hone, (withdraw_routes_exact hreach).1 5⟩

/-- In the second block, `initminer2` sets two routes of 100%, the first to account number 0, and
powers down. -/
def minersBlock : SignedBlock where
  witness := "initminer1"
  timestamp := 1585422006
  transactions := [[.setWithdrawVestingRoute "initminer2" "miners" 10000 true],
    [.setWithdrawVestingRoute "initminer2" "initminer" 10000 true],
    [.withdrawVesting "initminer2" (vests 1300)]]

/-- Both are accepted, and the first one is not paid. -/
theorem miners_route_unpaid :
    ∃ s s', Reachable s ∧ ((s.routesFrom 5).map fun r => (r.val.percent.toNat : ℤ)).sum = 20000 ∧
      ((s.accounts.find? 5).map fun x => x.dueWithdrawal.toOption) = some (some 100) ∧
      Runs (withdrawFrom 5) s () s' ∧ s'.vestsOf 0 = s.vestsOf 0 ∧ s'.vestsOf 3 = s.vestsOf 3 + 100 ∧
      ∀ rest, ¬ WithdrawsExactly 5 100 rest s s' := by
  have hrun : leadsTo (replay votersGenesis [firstBlock, minersBlock]) {} (fun s =>
      decide (((s.routesFrom 5).map fun r => (r.val.percent.toNat : ℤ)).sum = 20000) &&
      decide (((s.accounts.find? 5).map fun x => x.dueWithdrawal.toOption) = some (some 100)) &&
      decide (amountsFor (vestingParts (s.routesFrom 5) 100) 0 = 100) &&
      leadsTo (withdrawFrom 5) s fun s' =>
        decide (s'.vestsOf 0 = s.vestsOf 0) && decide (s'.vestsOf 3 = s.vestsOf 3 + 100)) = true := by
    decide +kernel
  obtain ⟨s, hs, hrun⟩ := leadsTo_iff.mp hrun
  simp only [Bool.and_eq_true, decide_eq_true_eq] at hrun
  obtain ⟨⟨⟨hpercents, hdue⟩, hpart⟩, hrun⟩ := hrun
  obtain ⟨s', hs', hvests⟩ := leadsTo_iff.mp hrun
  simp only [Bool.and_eq_true, decide_eq_true_eq] at hvests
  obtain ⟨hfirst, hsecond⟩ := hvests
  refine ⟨s, s', replay_reachable hs, hpercents, hdue, hs', hfirst, hsecond, fun rest hexact => ?_⟩
  have hvests := hexact.vests 0
  rw [hfirst, hpart, if_neg (by decide)] at hvests
  omega

end Samples

end BtcmChain
