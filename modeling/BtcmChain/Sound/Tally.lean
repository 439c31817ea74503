import BtcmChain.Sound.Influence

set_option autoImplicit false
set_option synthInstance.maxSize 10000000
set_option synthInstance.maxHeartbeats 200000

/-!
# The tallies follow the shares

Whatever a block does to vesting shares, proxies and votes, the records along the proxy
chains and the tallies of the candidates stay true. One lemma for each program that writes
one of them; a withdrawal is the one that leaves the total of the shares behind while it
runs, so `Tallied` says by how much.

The programs that write an account's shares tell the chain above right after; the
operation that changes a proxy takes the account's record back first, and passes it on
again when the new proxy is set. The vote for a platform does not ask whether the voter has
a proxy, which is why everything here says under which condition `p` it looks at platforms.
-/

namespace BtcmChain

/-- The electoral roll is in order and the records are true. -/
def Database.Tallied (p : Prop) (slack : ℤ) (s : Database) : Prop :=
  s.roll.Registered ∧ s.standing.Sound p slack

section Shares

variable {s s' : Database} {p : Prop} {slack : ℤ} {a : AccountId}

theorem Database.Tallied.congr (h : s.Tallied p slack) (hr : s'.roll = s.roll) :
    s'.Tallied p slack := by
  unfold Tallied Database.standing
  rw [hr]
  exact h

/-- The roll with another total of vesting shares. -/
def Roll.withTotal (r : Roll) (x : ShareType) : Roll :=
  { r with voting := { r.voting with total := x } }

theorem roll_modifySupply {change : GlobalSupply → Except Exn GlobalSupply} {u : Unit}
    (h : Runs (modifySupply change) s u s') :
    ∃ q, change s.dgpo.toGlobalSupply = .ok q ∧
      s'.roll = s.roll.withTotal q.totalVestingShares := by
  obtain ⟨q, hq, rfl⟩ := runs_modifySupply.mp h
  exact ⟨q, hq, rfl⟩

/-- Another total of vesting shares changes the slack by as much. -/
theorem Database.Tallied.withTotal (h : s.Tallied p slack) {x : ShareType}
    (hr : s'.roll = s.roll.withTotal x) :
    s'.Tallied p (slack + (x.toInt - s.dgpo.totalVestingShares.toInt)) := by
  unfold Tallied Database.standing
  rw [hr]
  refine ⟨⟨h.1.distinct, h.1.linked, h.1.slots⟩, h.2.acyclic, h.2.records, ?_, h.2.witnesses,
    h.2.platforms⟩
  have htotal : s.dgpo.totalVestingShares.toInt = (s.standing.shares.sum fun _ n => n) + slack :=
    h.2.total
  show x.toInt = (s.standing.shares.sum fun _ n => n) + _
  omega

/-- Shares are booked, and then the chain above is told. -/
theorem Database.Tallied.vest (h : s.Tallied p slack) {t : Database} {acct : AccountObject}
    {x total d : ShareType} (ha : s.accounts.find? a = some acct)
    (ht : t.roll = (s.roll.withShares a x.toInt).withTotal total)
    (hd : x.toInt = acct.vestingShares.toInt + d.toInt)
    (hr : Runs (adjustProxiedWitnessVotes a d) t () s') :
    s'.Tallied p (slack + (total.toInt - s.dgpo.totalVestingShares.toInt) - d.toInt) := by
  have hreg : t.roll.Registered := by
    rw [ht]
    exact ⟨h.1.distinct, h.1.linked, h.1.slots⟩
  have hfind : s.roll.holdings.find? a = some acct.vestingShares.toInt := by
    rw [find?_holdings, ha]
    rfl
  have hst : t.standing = { s.standing with
      shares := s.standing.shares + Finsupp.single a d.toInt
      total := total.toInt } := by
    have hshares := Roll.standing_withShares (m := x.toInt) hfind
    rw [hd, add_sub_cancel_left] at hshares
    rw [Database.standing, ht, hd]
    exact congrArg (fun y => { y with total := total.toInt }) hshares
  obtain ⟨hreg', hs'⟩ := runs_adjustProxiedWitnessVotes hreg hr
  rw [hst] at hs'
  exact ⟨hreg', hs' ▸ h.2.vest a d.toInt total.toInt⟩

/-- `create_vesting` keeps the tallies in order: the new shares are told to those who vote with
them. -/
theorem Database.Tallied.createVesting (h : s.Tallied p slack) {amount r : Asset}
    (hr : Runs (createVesting a amount) s r s') : s'.Tallied p slack := by
  obtain ⟨shares, acct, x, q, byPlatforms, rfl, hv⟩ := runs_createVesting hr
  obtain ⟨t, ht, hsame⟩ := hv.tallied
  have hroll : (s.vested a acct x q byPlatforms).roll =
      (s.roll.withShares a x.toInt).withTotal q.totalVestingShares := by
    have hbooked : Runs (modifyStake a fun k => .ok { k with vestingShares := x }) s ()
        { s with accounts := s.accounts.update a fun _ =>
          { acct with toAccountStake := { acct.toAccountStake with vestingShares := x } } } :=
      runs_modifyStake.mpr ⟨acct, _, hv.account, rfl, rfl⟩
    obtain ⟨acct', k, hacct', hk, hroll⟩ := roll_modifyStake hbooked
    cases hk
    exact congrArg (fun y => y.withTotal q.totalVestingShares) hroll
  have hdone := h.vest hv.account hroll hv.shares_eq ht
  rw [hv.total_eq, add_sub_cancel_left, add_sub_cancel_right] at hdone
  exact hdone.congr (roll_congr (hsame .names) (hsame .stakes) (hsame .voting))

end Shares

/-! ## Withdrawals -/

section Withdrawals

variable {s s' : Database} {p : Prop} {slack : ℤ} {a : AccountId}

/-- No route takes more than everything that is withdrawn. -/
def RoutesBounded (s : Database) : Prop :=
  ∀ id r, s.withdrawRoutes.find? id = some r → r.percent.toNat ≤ 10000

/-- What a route takes, rounded down; from a negative amount it cannot take anything, for the
quotient does not fit. -/
theorem routeShare_ok {w x : ShareType} {percent : UInt16} (hp : percent.toNat ≤ 10000)
    (h : routeShare w percent = .ok x) :
    0 ≤ w.toInt * percent.toNat ∧ x.toInt = w.toInt * percent.toNat / 10000 := by
  simp only [routeShare, except_bind_ok, except_pure_ok, UInt128.div_ok, UInt128.toUInt64_ok] at h
  obtain ⟨q, ⟨-, rfl⟩, y, hy, rfl⟩ := h
  have hmul : UInt128.ofShare w * BitVec.ofNat 128 percent.toNat =
      BitVec.ofInt 128 (w.toInt * percent.toNat) := by
    rw [UInt128.ofShare, BitVec.ofInt_mul, BitVec.ofInt_natCast]
  have hlow : -2 ^ 63 * 10000 ≤ w.toInt * percent.toNat := by
    have := w.le_toInt
    nlinarith
  have hhigh : w.toInt * percent.toNat ≤ (2 ^ 63 - 1) * 10000 := by
    have := w.toInt_lt
    nlinarith
  rw [BitVec.toNat_udiv, hmul, BitVec.toNat_ofInt] at hy
  have hy' : y.toNat = (w.toInt * percent.toNat % 2 ^ 128).toNat / 10000 := hy
  have hyb := y.toNat_lt
  generalize w.toInt * percent.toNat = z at *
  rw [ShareType.toInt_ofUInt64]
  split <;> omega

theorem routeShare_nonneg {w x : ShareType} {percent : UInt16} (hp : percent.toNat ≤ 10000)
    (h : routeShare w percent = .ok x) : 0 ≤ x.toInt := by
  obtain ⟨hpos, hx⟩ := routeShare_ok hp h
  omega

/-- A route that vests: what is deposited is missing in the total. -/
theorem tallied_depositVests {w total total' : ShareType} {r : Entry WithdrawVestingRouteObject}
    (hp : r.val.percent.toNat ≤ 10000) (h : s.Tallied p slack)
    (hr : Runs (depositVests w total r) s total' s') :
    s'.Tallied p (slack - (total'.toInt - total.toInt)) ∧ total.toInt ≤ total'.toInt := by
  rcases runs_ite.mp hr with ⟨-, hr⟩ | ⟨-, hr⟩
  · simp only [runs_bind_ofExcept, safeAdd_ok] at hr
    obtain ⟨d, hd, x, hx, hr⟩ := hr
    have hpos := routeShare_nonneg hp hd
    obtain ⟨_, t, hr, hx'⟩ := runs_bind.mp hr
    obtain ⟨rfl, rfl⟩ := runs_pure.mp hx'
    refine ⟨?_, by omega⟩
    rcases runs_whenM.mp hr with ⟨-, hr⟩ | ⟨hzero, rfl⟩
    · obtain ⟨_, t1, h1, hr⟩ := runs_bind.mp hr
      obtain ⟨_, t2, h2, h3⟩ := runs_bind.mp hr
      obtain ⟨acct, k, hacct, hk, hroll⟩ := roll_modifyStake h1
      simp only [except_bind_ok, except_pure_ok, safeAdd_ok] at hk
      obtain ⟨y, hy, rfl⟩ := hk
      have hvest := @Database.Tallied.vest _ _ _ _ _ h _ _ _ s.dgpo.totalVestingShares _ hacct hroll hy h2
      have hfix : s'.roll = t2.roll := Respects.rel (R := Fixing Database.roll) h3
      rw [sub_self, add_zero, show d.toInt = total'.toInt - total.toInt by omega] at hvest
      exact hvest.congr hfix
    · have hzero := of_decide_eq_false hzero
      rw [Int64.lt_iff_toInt_lt, Int64.toInt_zero] at hzero
      rw [show total'.toInt - total.toInt = 0 by omega, sub_zero]
      exact h
  · obtain ⟨rfl, rfl⟩ := runs_pure.mp hr
    rw [sub_self, sub_zero]
    exact ⟨h, le_refl _⟩

/-- Shares that are converted leave the total on the roll. -/
theorem roll_creditConverted {x : ShareType} {c : Asset}
    (hr : Runs (creditConverted a x c) s () s') : ∃ y : ShareType,
      y.toInt = s.dgpo.totalVestingShares.toInt - x.toInt ∧ s'.roll = s.roll.withTotal y := by
  obtain ⟨_, t, h1, h2⟩ := runs_bind.mp hr
  have hfix : t.roll = s.roll := Respects.rel (R := Fixing Database.roll) h1
  obtain ⟨q, hq, hroll⟩ := roll_modifySupply h2
  simp only [except_bind_ok, except_pure_ok, safeSub_ok] at hq
  obtain ⟨_, -, _, -, y, hy, rfl⟩ := hq
  have htotal : t.dgpo.totalVestingShares = s.dgpo.totalVestingShares :=
    congrArg (fun r => r.voting.total) hfix
  rw [hfix] at hroll
  exact ⟨y, htotal ▸ hy, hroll⟩

/-- A route that pays BTCM: its shares leave the total. -/
theorem tallied_depositBtcm {w total total' : ShareType} {r : Entry WithdrawVestingRouteObject}
    (hp : r.val.percent.toNat ≤ 10000) (h : s.Tallied p slack)
    (hr : Runs (depositBtcm w total r) s total' s') :
    s'.Tallied p (slack - (total'.toInt - total.toInt)) ∧ total.toInt ≤ total'.toInt := by
  rcases runs_ite.mp hr with ⟨-, hr⟩ | ⟨-, hr⟩
  · obtain ⟨rfl, rfl⟩ := runs_pure.mp hr
    rw [sub_self, sub_zero]
    exact ⟨h, le_refl _⟩
  · simp only [runs_bind_get, runs_bind_ofExcept, safeAdd_ok, convertShares, bind_assoc,
      runs_bind_reads] at hr
    obtain ⟨_, -, d, hd, x, hx, c, -, hr⟩ := hr
    have hpos := routeShare_nonneg hp hd
    obtain ⟨_, t, hr, hx'⟩ := runs_bind.mp hr
    obtain ⟨rfl, rfl⟩ := runs_pure.mp hx'
    refine ⟨?_, by omega⟩
    rcases runs_whenM.mp hr with ⟨-, hr⟩ | ⟨hzero, rfl⟩
    · obtain ⟨y, hy, hroll⟩ := roll_creditConverted hr
      have hdone := h.withTotal hroll
      rwa [show slack + (y.toInt - s.dgpo.totalVestingShares.toInt) =
        slack - (total'.toInt - total.toInt) by omega] at hdone
    · have hzero := of_decide_eq_false hzero
      rw [Int64.lt_iff_toInt_lt, Int64.toInt_zero] at hzero
      rw [show total'.toInt - total.toInt = 0 by omega, sub_zero]
      exact h

theorem AccountStake.withdraw_ok {w : ShareType} {k k' : AccountStake} (h : k.withdraw w = .ok k') :
    k'.vestingShares.toInt = k.vestingShares.toInt - w.toInt := by
  simp only [AccountStake.withdraw, except_bind_ok, safeSub_ok] at h
  obtain ⟨x, hx, y, -, h⟩ := h
  split at h
  · cases h
    exact hx
  · cases h
    exact hx

/-- The end of a withdrawal: the shares go, the rest of them out of the total. -/
theorem Database.Tallied.withdraw (h : s.Tallied p slack) {t u : Database} {w x : ShareType}
    {c : Asset} (hslack : slack - x.toInt + w.toInt = 0) (hw : 0 ≤ w.toInt)
    (hstake : Runs (modifyStake a (AccountStake.withdraw w)) s () t)
    (hcredit : Runs (creditConverted a x c) t () u)
    (hr : Runs (whenM (0 < w) do
      let minus ← ofExcept (safeNeg w)
      adjustProxiedWitnessVotes a minus
      recursiveRecalculateScore a minus) u () s') : s'.Tallied p 0 := by
  obtain ⟨acct, k, hacct, hk, hroll⟩ := roll_modifyStake hstake
  have hshares := AccountStake.withdraw_ok hk
  obtain ⟨y, hy, hroll'⟩ := roll_creditConverted hcredit
  have htotal : t.dgpo.totalVestingShares = s.dgpo.totalVestingShares :=
    congrArg (fun r => r.voting.total) hroll
  rw [htotal] at hy
  rw [hroll] at hroll'
  rcases runs_whenM.mp hr with ⟨-, hr⟩ | ⟨hzero, rfl⟩
  · simp only [runs_bind_ofExcept, safeNeg_ok] at hr
    obtain ⟨minus, hminus, hr⟩ := hr
    obtain ⟨_, v, h1, h2⟩ := runs_bind.mp hr
    have hvest := h.vest hacct hroll' (by omega) h1
    have hfix : s'.roll = v.roll := Respects.rel (R := Fixing Database.roll) h2
    rw [show slack + (y.toInt - s.dgpo.totalVestingShares.toInt) - minus.toInt = 0 by omega] at hvest
    exact hvest.congr hfix
  · have hzero := of_decide_eq_false hzero
    rw [Int64.lt_iff_toInt_lt, Int64.toInt_zero] at hzero
    have hsame : s.roll.withShares a k.vestingShares.toInt = s.roll := by
      refine Roll.withShares_self ?_
      rw [find?_holdings, hacct, Option.map_some, show k.vestingShares.toInt =
        acct.vestingShares.toInt by omega]
    rw [hsame] at hroll'
    have hdone := h.withTotal hroll'
    rwa [show slack + (y.toInt - s.dgpo.totalVestingShares.toInt) = 0 by omega] at hdone

/-- What a range lists is just what is there and satisfies its test. -/
theorem mem_rangeBy {α : Type} {t : Table α} {q : α → Bool} {key : α → Nat} {l : List (Entry α)}
    (h : Runs (t.rangeBy q key) s l s') :
    s' = s ∧ ∀ e, e ∈ l ↔ (t.read s).find? e.id = some e.val ∧ q e.val = true := by
  obtain ⟨rfl, rfl⟩ := runs_reads.mp h
  refine ⟨rfl, fun e => ?_⟩
  rw [List.mem_map, ← ObjectIndex.mem_entries_iff]
  constructor
  · rintro ⟨x, hx, rfl⟩
    rw [List.mem_insertionSort, List.mem_filter] at hx
    exact hx
  · intro he
    refine ⟨(e.id, e.val), ?_, rfl⟩
    rw [List.mem_insertionSort, List.mem_filter]
    exact he

/-- A withdrawal as a whole keeps the tallies in order. -/
theorem Database.Tallied.withdrawFrom (h : s.Tallied p 0) (hroutes : RoutesBounded s)
    (hr : Runs (withdrawFrom a) s () s') : s'.Tallied p 0 := by
  simp only [BtcmChain.withdrawFrom, runs_bind_get, runs_bind_ofExcept] at hr
  obtain ⟨acct, -, w, -, hr⟩ := hr
  obtain ⟨routes, s0, hlist, hrest⟩ := runs_bind.mp hr
  obtain ⟨rfl, hmem⟩ := mem_rangeBy hlist
  obtain ⟨asVests, t1, h1, hrest⟩ := runs_bind.mp hrest
  obtain ⟨asBtcm, t2, h2, hrest⟩ := runs_bind.mp hrest
  simp only [runs_bind_ofExcept, safeSub_ok, runs_bind_require, convertShares, bind_assoc,
    runs_bind_reads] at hrest
  obtain ⟨rest, hrest', toConvert, hconvert, hpos, c, -, hend⟩ := hrest
  obtain ⟨_, t3, h3, hend⟩ := runs_bind.mp hend
  obtain ⟨_, t4, h4, h5⟩ := runs_bind.mp hend
  have hbound : ∀ r ∈ routes, r.val.percent.toNat ≤ 10000 := fun r hm =>
    hroutes _ _ ((hmem r).mp hm).1
  -- first the vesting routes, then those that are paid in BTCM
  have hvests := foldlM_induction
    (P := fun (x : ShareType) (t : Database) => t.Tallied p (0 - x.toInt) ∧ 0 ≤ x.toInt)
    (fun r hm x x' t t' ht hstep => by
      obtain ⟨hd, hle⟩ := tallied_depositVests (hbound r hm) ht.1 hstep
      rw [show 0 - x.toInt - (x'.toInt - x.toInt) = 0 - x'.toInt by omega] at hd
      exact ⟨hd, le_trans ht.2 hle⟩) h1 ⟨by rw [Int64.toInt_zero, sub_zero]; exact h, le_refl _⟩
  have hbtcm := foldlM_induction (P := fun (x : ShareType) (t : Database) =>
      t.Tallied p (0 - asVests.toInt - x.toInt) ∧ 0 ≤ x.toInt)
    (fun r hm x x' t t' ht hstep => by
      obtain ⟨hd, hle⟩ := tallied_depositBtcm (hbound r hm) ht.1 hstep
      rw [show 0 - asVests.toInt - x.toInt - (x'.toInt - x.toInt) =
        0 - asVests.toInt - x'.toInt by omega] at hd
      exact ⟨hd, le_trans ht.2 hle⟩) h2 ⟨by rw [Int64.toInt_zero, sub_zero]; exact hvests.1, le_refl _⟩
  have hpos := of_decide_eq_true hpos
  rw [Int64.le_iff_toInt_le, Int64.toInt_zero] at hpos
  have hv := hvests.2
  have hb := hbtcm.2
  exact hbtcm.1.withdraw (by omega) (by omega) h3 h4 h5

end Withdrawals

/-! ## Votes -/

section Votes

variable {s s' : Database} {p : Prop} {slack : ℤ} {a : AccountId} {x : AccountObject}

/-- The weight of an account is what reaches it over four links. -/
theorem Database.Tallied.weight_eq (h : s.Tallied p slack) (ha : s.accounts.find? a = some x)
    {n : ShareType} (hn : x.witnessVoteWeight = .ok n) :
    n.toInt = reach s.standing.up s.standing.shares 4 a := by
  have hslots : x.proxiedVsfVotes.length = 4 :=
    h.1.slots (a := a) (v := x.toAccountProfile.voting) (by rw [find?_voting, ha]; rfl)
  have hproxied : ∀ k, s.standing.proxied a k = (x.proxiedVsfVotes.getD k 0).toInt := by
    intro k
    show s.roll.proxied a k = _
    rw [Roll.proxied, find?_voting, ha]
    rfl
  have hshares : s.standing.shares a = x.vestingShares.toInt := by
    show s.roll.holdings.weights a = _
    rw [FlatMap.weights_apply, find?_holdings, ha]
    rfl
  rw [foldlM_safeAdd_ok hn, reach, Finset.sum_range_succ', below_zero, hshares, add_comm,
    ← List.take_length (l := x.proxiedVsfVotes), hslots, sum_take_eq]
  refine congrArg (· + _) (Finset.sum_congr rfl fun k hk => ?_)
  rw [← h.2.records a k (Finset.mem_range.mp hk), hproxied]

/-- A tally that is overwritten is overwritten on the ballot too. -/
theorem votes_update {m : FlatMap Nat ShareType} {w : Nat} {y z : ShareType}
    (h : m.find? w = some y) : (fun c => ((m.update w fun _ => z).find? c).map Int64.toInt) =
      Function.update (fun c => (m.find? c).map Int64.toInt) w (some z.toInt) := by
  funext c
  rw [FlatMap.find?_update, Function.update_apply]
  split
  case isTrue => rw [h]; rfl
  case isFalse => rfl

/-- A record of a vote that is removed is gone from the ballot. -/
theorem mapVals_remove {α β : Type} (ix : ObjectIndex α) (k : Nat) (f : α → β) :
    (ix.remove k).objs.mapVals f = (ix.objs.mapVals f).erase k := FlatMap.ext_find? fun j => by
  rw [FlatMap.find?_mapVals, FlatMap.find?_erase]
  show ((ix.remove k).find? j).map f = _
  rw [ObjectIndex.find?_remove]
  split
  · rfl
  · exact (FlatMap.find?_mapVals ..).symm

/-- How many witnesses an account says it votes for is on the ballot too. -/
theorem standing_withWitnessesVotedFor {r : Roll} {v : AccountVoting}
    (hv : r.voting.accounts.find? a = some v) (n : UInt16) :
    (r.withVoting a { v with witnessesVotedFor := n }).standing = { r.standing with
      witnesses := { r.standing.witnesses with
        held := Function.update r.standing.witnesses.held a (some n.toNat) } } := by
  rw [Roll.standing_withVoting hv, Roll.up_self hv rfl, Roll.proxied_self hv rfl,
    Roll.platformsHeld_self hv rfl]
  rfl

theorem standing_withPlatformsVotedFor {r : Roll} {v : AccountVoting}
    (hv : r.voting.accounts.find? a = some v) (n : UInt16) :
    (r.withVoting a { v with streamingPlatformsVotedFor := n }).standing = { r.standing with
      platforms := { r.standing.platforms with
        held := Function.update r.standing.platforms.held a (some n.toNat) } } := by
  rw [Roll.standing_withVoting hv, Roll.up_self hv rfl, Roll.proxied_self hv rfl,
    Roll.witnessesHeld_self hv rfl]
  rfl

/-- The voting data of a profile is overwritten on the roll as well. -/
theorem roll_modifyVoting {change : AccountProfile → AccountProfile}
    {g : AccountVoting → AccountVoting} {v : AccountVoting}
    (hg : ∀ q, (change q).voting = g q.voting) (hv : s.roll.voting.accounts.find? a = some v)
    (h : Runs (modifyProfile a fun q => .ok (change q)) s () s') :
    s'.roll = s.roll.withVoting a (g v) := by
  obtain ⟨y, q, hy, hq, hroll⟩ := roll_modifyProfile h
  rw [find?_voting, hy] at hv
  cases hq
  obtain rfl := Option.some.inj hv
  rw [hroll, hg]

/-- An account changes how many witnesses or platforms it says it votes for. -/
theorem Roll.Registered.count {r : Roll} (h : r.Registered) {v w : AccountVoting}
    (hv : r.voting.accounts.find? a = some v) (hp : w.proxy = v.proxy)
    (hs : w.proxiedVsfVotes = v.proxiedVsfVotes) : (r.withVoting a w).Registered := by
  refine h.withVoting hv ?_ ?_
  · rw [hp]
    exact h.linked hv
  · rw [hs]
    exact h.slots hv

section Elections

variable {t u : Database} {w id : Nat} {n : ShareType} (hreg : s.roll.Registered)
  (ha : s.accounts.find? a = some x)
include hreg ha

/-- A vote for a witness is cast: the record of the vote, the tally, and the voter's count. -/
theorem standing_castWitnessVote
    (hcreate : t = { s with witnessVotes := s.witnessVotes.create { witness := w, account := a } })
    (hadjust : Runs (adjustWitnessVote w n) t () u)
    (hcount : Runs (modifyProfile a fun q => .ok
      { q with witnessesVotedFor := q.witnessesVotedFor + 1 }) u () s') :
    s'.roll.Registered ∧ ∃ m, s.standing.witnesses.votes w = some m ∧
      s'.standing = { s.standing with
        witnesses := {
          votes := Function.update s.standing.witnesses.votes w (some (m + n.toInt))
          cast := s.standing.witnesses.cast.set s.witnessVotes.nextId (a, w)
          held := Function.update s.standing.witnesses.held a
            (some (x.witnessesVotedFor + 1).toNat) } } := by
  subst hcreate
  obtain ⟨y, z, hy, hz, hroll⟩ := runs_adjustWitnessVote hadjust
  have hy : s.roll.voting.witnesses.find? w = some y := hy
  have hv : u.roll.voting.accounts.find? a = some x.toAccountProfile.voting := by
    rw [hroll]
    show s.roll.voting.accounts.find? a = _
    rw [find?_voting, ha]
    rfl
  have hreg' : u.roll.Registered := by
    rw [hroll]
    exact ⟨hreg.distinct, hreg.linked, hreg.slots⟩
  have hroll' := roll_modifyVoting
    (g := fun v => { v with witnessesVotedFor := v.witnessesVotedFor + 1 }) (fun _ => rfl) hv hcount
  refine ⟨?_, y.toInt, congrArg (Option.map Int64.toInt) hy, ?_⟩
  · rw [hroll']
    exact hreg'.count hv rfl rfl
  · rw [Database.standing, hroll', standing_withWitnessesVotedFor hv, hroll, ← hz]
    exact congrArg₂ (fun votes cast => ({ s.standing with witnesses :=
        ⟨votes, cast, Function.update s.standing.witnesses.held a
          (some (x.witnessesVotedFor + 1).toNat)⟩ } : Standing))
      (votes_update hy) (FlatMap.mapVals_set s.witnessVotes.objs s.witnessVotes.nextId ⟨w, a⟩
        fun v => (v.account, v.witness))

/-- A vote for a witness that is taken back is taken back on the ballot. -/
theorem standing_dropWitnessVote (hadjust : Runs (adjustWitnessVote w n) s () t)
    (hcount : Runs (modifyProfile a fun q => .ok
      { q with witnessesVotedFor := q.witnessesVotedFor - 1 }) t () u)
    (hremove : s' = { u with witnessVotes := u.witnessVotes.remove id }) :
    s'.roll.Registered ∧ ∃ m, s.standing.witnesses.votes w = some m ∧
      s'.standing = { s.standing with
        witnesses := {
          votes := Function.update s.standing.witnesses.votes w (some (m + n.toInt))
          cast := s.standing.witnesses.cast.erase id
          held := Function.update s.standing.witnesses.held a
            (some (x.witnessesVotedFor - 1).toNat) } } := by
  subst hremove
  obtain ⟨y, z, hy, hz, hroll⟩ := runs_adjustWitnessVote hadjust
  have hv : t.roll.voting.accounts.find? a = some x.toAccountProfile.voting := by
    rw [hroll]
    show s.roll.voting.accounts.find? a = _
    rw [find?_voting, ha]
    rfl
  have hreg' : t.roll.Registered := by
    rw [hroll]
    exact ⟨hreg.distinct, hreg.linked, hreg.slots⟩
  have hroll' := roll_modifyVoting
    (g := fun v => { v with witnessesVotedFor := v.witnessesVotedFor - 1 }) (fun _ => rfl) hv hcount
  refine ⟨?_, y.toInt, congrArg (Option.map Int64.toInt) hy, ?_⟩
  · have hreg'' : u.roll.Registered := by
      rw [hroll']
      exact hreg'.count hv rfl rfl
    exact ⟨hreg''.distinct, hreg''.linked, hreg''.slots⟩
  · have hu : u.standing = { s.standing with witnesses := {
        votes := Function.update s.standing.witnesses.votes w (some (y.toInt + n.toInt))
        cast := s.standing.witnesses.cast
        held := Function.update s.standing.witnesses.held a
          (some (x.witnessesVotedFor - 1).toNat) } } := by
      rw [Database.standing, hroll', standing_withWitnessesVotedFor hv, hroll, ← hz]
      exact congrArg (fun votes => ({ s.standing with witnesses :=
        ⟨votes, s.standing.witnesses.cast, Function.update s.standing.witnesses.held a
          (some (x.witnessesVotedFor - 1).toNat)⟩ } : Standing)) (votes_update hy)
    have hcast : (u.witnessVotes.remove id).objs.mapVals (fun v => (v.account, v.witness)) =
        s.standing.witnesses.cast.erase id :=
      (mapVals_remove ..).trans (congrArg (fun st => st.witnesses.cast.erase id) hu)
    exact congrArg₂ (fun (st : Standing) cast => { st with witnesses := { st.witnesses with cast } })
      hu hcast

/-- A vote for a platform is cast: the record of the vote, the tally, and the voter's count. -/
theorem standing_castPlatformVote
    (hcreate : t = { s with platformVotes := s.platformVotes.create { streamingPlatform := w, account := a } })
    (hadjust : Runs (adjustStreamingPlatformVote w n) t () u)
    (hcount : Runs (modifyProfile a fun q => .ok
      { q with streamingPlatformsVotedFor := q.streamingPlatformsVotedFor + 1 }) u () s') :
    s'.roll.Registered ∧ ∃ m, s.standing.platforms.votes w = some m ∧
      s'.standing = { s.standing with
        platforms := {
          votes := Function.update s.standing.platforms.votes w (some (m + n.toInt))
          cast := s.standing.platforms.cast.set s.platformVotes.nextId (a, w)
          held := Function.update s.standing.platforms.held a
            (some (x.streamingPlatformsVotedFor + 1).toNat) } } := by
  subst hcreate
  obtain ⟨y, z, hy, hz, hroll⟩ := runs_adjustStreamingPlatformVote hadjust
  have hy : s.roll.voting.platforms.find? w = some y := hy
  have hv : u.roll.voting.accounts.find? a = some x.toAccountProfile.voting := by
    rw [hroll]
    show s.roll.voting.accounts.find? a = _
    rw [find?_voting, ha]
    rfl
  have hreg' : u.roll.Registered := by
    rw [hroll]
    exact ⟨hreg.distinct, hreg.linked, hreg.slots⟩
  have hroll' := roll_modifyVoting
    (g := fun v => { v with streamingPlatformsVotedFor := v.streamingPlatformsVotedFor + 1 }) (fun _ => rfl) hv hcount
  refine ⟨?_, y.toInt, congrArg (Option.map Int64.toInt) hy, ?_⟩
  · rw [hroll']
    exact hreg'.count hv rfl rfl
  · rw [Database.standing, hroll', standing_withPlatformsVotedFor hv, hroll, ← hz]
    exact congrArg₂ (fun votes cast => ({ s.standing with platforms :=
        ⟨votes, cast, Function.update s.standing.platforms.held a
          (some (x.streamingPlatformsVotedFor + 1).toNat)⟩ } : Standing))
      (votes_update hy) (FlatMap.mapVals_set s.platformVotes.objs s.platformVotes.nextId ⟨w, a⟩
        fun v => (v.account, v.streamingPlatform))

/-- A vote for a platform that is taken back is taken back on the ballot. -/
theorem standing_dropPlatformVote (hadjust : Runs (adjustStreamingPlatformVote w n) s () t)
    (hcount : Runs (modifyProfile a fun q => .ok
      { q with streamingPlatformsVotedFor := q.streamingPlatformsVotedFor - 1 }) t () u)
    (hremove : s' = { u with platformVotes := u.platformVotes.remove id }) :
    s'.roll.Registered ∧ ∃ m, s.standing.platforms.votes w = some m ∧
      s'.standing = { s.standing with
        platforms := {
          votes := Function.update s.standing.platforms.votes w (some (m + n.toInt))
          cast := s.standing.platforms.cast.erase id
          held := Function.update s.standing.platforms.held a
            (some (x.streamingPlatformsVotedFor - 1).toNat) } } := by
  subst hremove
  obtain ⟨y, z, hy, hz, hroll⟩ := runs_adjustStreamingPlatformVote hadjust
  have hv : t.roll.voting.accounts.find? a = some x.toAccountProfile.voting := by
    rw [hroll]
    show s.roll.voting.accounts.find? a = _
    rw [find?_voting, ha]
    rfl
  have hreg' : t.roll.Registered := by
    rw [hroll]
    exact ⟨hreg.distinct, hreg.linked, hreg.slots⟩
  have hroll' := roll_modifyVoting
    (g := fun v => { v with streamingPlatformsVotedFor := v.streamingPlatformsVotedFor - 1 }) (fun _ => rfl) hv hcount
  refine ⟨?_, y.toInt, congrArg (Option.map Int64.toInt) hy, ?_⟩
  · have hreg'' : u.roll.Registered := by
      rw [hroll']
      exact hreg'.count hv rfl rfl
    exact ⟨hreg''.distinct, hreg''.linked, hreg''.slots⟩
  · have hu : u.standing = { s.standing with platforms := {
        votes := Function.update s.standing.platforms.votes w (some (y.toInt + n.toInt))
        cast := s.standing.platforms.cast
        held := Function.update s.standing.platforms.held a
          (some (x.streamingPlatformsVotedFor - 1).toNat) } } := by
      rw [Database.standing, hroll', standing_withPlatformsVotedFor hv, hroll, ← hz]
      exact congrArg (fun votes => ({ s.standing with platforms :=
        ⟨votes, s.standing.platforms.cast, Function.update s.standing.platforms.held a
          (some (x.streamingPlatformsVotedFor - 1).toNat)⟩ } : Standing)) (votes_update hy)
    have hcast : (u.platformVotes.remove id).objs.mapVals (fun v => (v.account, v.streamingPlatform)) =
        s.standing.platforms.cast.erase id :=
      (mapVals_remove ..).trans (congrArg (fun st => st.platforms.cast.erase id) hu)
    exact congrArg₂ (fun (st : Standing) cast => { st with platforms := { st.platforms with cast } })
      hu hcast

end Elections

section Cast

variable {α β : Type} {ix : ObjectIndex α} {q : α → Bool} {f : α → β} {y : β}

/-- Nobody has cast a vote that a search among the votes does not find. -/
theorem cast_ne (h : ix.findBy? q = none) (hq : ∀ v, f v = y → q v = true) (j : Nat) :
    (ix.objs.mapVals f).find? j ≠ some y := by
  intro hj
  rw [FlatMap.find?_mapVals] at hj
  obtain ⟨v, hv, hy⟩ := Option.map_eq_some_iff.mp hj
  have hfalse := ObjectIndex.findBy?_eq_none.mp h j v hv
  rw [hq v hy] at hfalse
  cases hfalse

theorem cast_find? {e : Nat × α} (h : ix.findBy? q = some e) (hq : ∀ v, q v = true → f v = y) :
    (ix.objs.mapVals f).find? e.1 = some y := by
  obtain ⟨hv, hqv⟩ := ObjectIndex.find?_of_findBy? (k := e.1) (a := e.2) h
  rw [FlatMap.find?_mapVals]
  exact Option.map_eq_some_iff.mpr ⟨e.2, hv, hq _ hqv⟩

theorem cast_nextId (ix : ObjectIndex α) (f : α → β) : (ix.objs.mapVals f).find? ix.nextId = none := by
  rw [FlatMap.find?_mapVals, ObjectIndex.find?_nextId]
  rfl

end Cast

/-- One more vote of at most thirty is counted without wrapping around. -/
theorem toNat_succ_of_lt {n : UInt16} (h : n < 30) : (n + 1).toNat = n.toNat + 1 ∧ n.toNat < 30 := by
  have h : n.toNat < 30 := h
  rw [UInt16.toNat_add]
  show (n.toNat + 1) % 2 ^ 16 = _ ∧ _
  omega

theorem toNat_pred_of_pos {n : UInt16} (h : 1 ≤ n.toNat) : (n - 1).toNat = n.toNat - 1 :=
  UInt16.toNat_sub_of_le n 1 (UInt16.le_iff_toNat_le.mpr h)

/-- `account_witness_vote_evaluator` keeps the tallies in order, for a vote and for taking one back.
-/
theorem Database.Tallied.witnessVote {account witness : String} {approve : Bool}
    (h : s.Tallied p slack) (hr : Runs (accountWitnessVoteEvaluator account witness approve) s () s') :
    s'.Tallied p slack := by
  simp only [accountWitnessVoteEvaluator, runs_bind_getAccount, runs_bind_require, getWitness,
    runs_bind_getBy, runs_bind_findBy?] at hr
  obtain ⟨voter, hvoter, hproxy, w, hw, hr⟩ := hr
  have hfind := (ObjectIndex.find?_of_findBy? hvoter).1
  have hup : s.standing.up voter.id = none :=
    (up_eq_none_iff h.1 hfind).mpr (of_decide_eq_true hproxy)
  have hheld : s.standing.witnesses.held voter.id = some voter.val.witnessesVotedFor.toNat := by
    show (s.roll.voting.accounts.find? voter.id).map _ = _
    rw [find?_voting, hfind]
    rfl
  generalize hvote : ObjectIndex.findBy? _ _ = found at hr
  cases found with
  | none =>
      simp only [Option.map_none, Option.elim_none, runs_bind_require, runs_bind_create,
        runs_bind_ofExcept] at hr
      obtain ⟨-, hlimit, -, n, hn, hr⟩ := hr
      obtain ⟨_, t, h1, h2⟩ := runs_bind.mp hr
      obtain ⟨hreg, m, hm, hst⟩ := standing_castWitnessVote h.1 hfind rfl h1 h2
      obtain ⟨hsucc, hlt⟩ := toNat_succ_of_lt (of_decide_eq_true hlimit)
      rw [hsucc, h.weight_eq hfind hn] at hst
      refine ⟨hreg, hst ▸ ⟨h.2.acyclic, h.2.records, h.2.total, ?_, h.2.platforms⟩⟩
      exact h.2.witnesses.vote hup hm hheld hlt (cast_nextId _ _)
        (cast_ne hvote fun v hv => decide_eq_true (Prod.mk.inj hv))
  | some e =>
      simp only [Option.map_some, Option.elim_some, runs_bind_require, runs_bind_ofExcept,
        safeNeg_ok] at hr
      obtain ⟨-, n, hn, minus, hminus, hr⟩ := hr
      obtain ⟨_, t, h1, hr⟩ := runs_bind.mp hr
      obtain ⟨_, u, h2, h3⟩ := runs_bind.mp hr
      obtain ⟨hreg, m, hm, hst⟩ := standing_dropWitnessVote h.1 hfind h1 h2 (Table.runs_remove.mp h3)
      have hcast : s.standing.witnesses.cast.find? e.1 = some (voter.id, w.id) :=
        cast_find? hvote fun v hv => by
          obtain ⟨h1, h2⟩ := of_decide_eq_true hv
          exact Prod.ext h1 h2
      obtain ⟨hpos, hfits⟩ := h.2.witnesses.unvote hcast hm hheld
      rw [toNat_pred_of_pos hpos, hminus, h.weight_eq hfind hn, ← sub_eq_add_neg] at hst
      exact ⟨hreg, hst ▸ ⟨h.2.acyclic, h.2.records, h.2.total, hfits, h.2.platforms⟩⟩

/-- `account_streaming_platform_vote_evaluator` keeps the tallies in order, for voters without a
proxy. -/
theorem Database.Tallied.platformVote {account platform : String} {approve : Bool}
    (h : s.Tallied p slack) (hproxy : p → ∀ id x, s.accountNamed account = some (id, x) → x.proxy = "")
    (hr : Runs (accountStreamingPlatformVoteEvaluator account platform approve) s () s') :
    s'.Tallied p slack := by
  simp only [accountStreamingPlatformVoteEvaluator, runs_bind_getAccount,
    runs_bind_getStreamingPlatform, runs_bind_findBy?] at hr
  obtain ⟨voter, hvoter, w, hw, hr⟩ := hr
  have hfind := (ObjectIndex.find?_of_findBy? hvoter).1
  have hup : p → s.standing.up voter.id = none := fun hp =>
    (up_eq_none_iff h.1 hfind).mpr (hproxy hp voter.id voter.val hvoter)
  have hheld : s.standing.platforms.held voter.id = some voter.val.streamingPlatformsVotedFor.toNat := by
    show (s.roll.voting.accounts.find? voter.id).map _ = _
    rw [find?_voting, hfind]
    rfl
  generalize hvote : ObjectIndex.findBy? _ _ = found at hr
  cases found with
  | none =>
      simp only [Option.map_none, Option.elim_none, runs_bind_require, runs_bind_create,
        runs_bind_ofExcept] at hr
      obtain ⟨-, hlimit, -, n, hn, hr⟩ := hr
      obtain ⟨_, t, h1, h2⟩ := runs_bind.mp hr
      obtain ⟨hreg, m, hm, hst⟩ := standing_castPlatformVote h.1 hfind rfl h1 h2
      obtain ⟨hsucc, hlt⟩ := toNat_succ_of_lt (of_decide_eq_true hlimit)
      rw [hsucc, h.weight_eq hfind hn] at hst
      refine ⟨hreg, hst ▸ ⟨h.2.acyclic, h.2.records, h.2.total, h.2.witnesses, fun hp => ?_⟩⟩
      exact (h.2.platforms hp).vote (hup hp) hm hheld hlt (cast_nextId _ _)
        (cast_ne hvote fun v hv => decide_eq_true (Prod.mk.inj hv))
  | some e =>
      simp only [Option.map_some, Option.elim_some, runs_bind_require, runs_bind_ofExcept,
        safeNeg_ok] at hr
      obtain ⟨-, n, hn, minus, hminus, hr⟩ := hr
      obtain ⟨_, t, h1, hr⟩ := runs_bind.mp hr
      obtain ⟨_, u, h2, h3⟩ := runs_bind.mp hr
      obtain ⟨hreg, m, hm, hst⟩ := standing_dropPlatformVote h.1 hfind h1 h2 (Table.runs_remove.mp h3)
      have hcast : s.standing.platforms.cast.find? e.1 = some (voter.id, w.id) :=
        cast_find? hvote fun v hv => by
          obtain ⟨h1, h2⟩ := of_decide_eq_true hv
          exact Prod.ext h1 h2
      refine ⟨hreg, hst ▸ ⟨h.2.acyclic, h.2.records, h.2.total, h.2.witnesses, fun hp => ?_⟩⟩
      obtain ⟨hpos, hfits⟩ := (h.2.platforms hp).unvote hcast hm hheld
      rw [toNat_pred_of_pos hpos, hminus, h.weight_eq hfind hn, ← sub_eq_add_neg]
      exact hfits

end Votes

/-! ## Proxies -/

section Proxies

variable {s s' : Database} {p : Prop} {slack : ℤ} {a b : AccountId}

/-- A loop that removes one record after the other leaves the table without any of them. -/
theorem forM_remove {α : Type} {t : Table α} (hread : ∀ s x, t.read (t.write s x) = x)
    (hwrite : ∀ s x y, t.write (t.write s x) y = t.write s y) (hself : ∀ s, t.write s (t.read s) = s)
    {l : List (Entry α)} (h : Runs (l.forM fun e => t.remove e.id) s () s') :
    ∃ ix, s' = t.write s ix ∧
      ∀ j, ix.find? j = if ∃ e ∈ l, e.id = j then none else (t.read s).find? j := by
  induction l generalizing s with
  | nil =>
      obtain ⟨-, rfl⟩ := runs_pure.mp h
      exact ⟨t.read s', (hself s').symm, fun j => by simp⟩
  | cons e l ih =>
      obtain ⟨_, u, h1, h2⟩ := runs_bind.mp h
      rw [Table.runs_remove] at h1
      subst h1
      obtain ⟨ix, rfl, hix⟩ := ih h2
      refine ⟨ix, hwrite _ _ _, fun j => ?_⟩
      rw [hix, hread, ObjectIndex.find?_remove]
      by_cases hj : j = e.id
      · subst hj
        simp
      · simp [hj, Ne.symm hj]

/-- What is left after all votes of `a` are removed. -/
theorem cast_filter {α β : Type} {ix ix' : ObjectIndex α} {f : α → AccountId × β} {q : α → Bool}
    {l : List (Entry α)} (hq : ∀ v, q v = true ↔ (f v).1 = a)
    (hl : ∀ e, e ∈ l ↔ ix.find? e.id = some e.val ∧ q e.val = true)
    (hix : ∀ j, ix'.find? j = if ∃ e ∈ l, e.id = j then none else ix.find? j) :
    ix'.objs.mapVals f = (ix.objs.mapVals f).filterVals (·.1 ≠ a) := FlatMap.ext_find? fun j => by
  have hix : ix'.objs.find? j = if ∃ e ∈ l, e.id = j then none else ix.objs.find? j := hix j
  rw [FlatMap.find?_mapVals, FlatMap.find?_filterVals, FlatMap.find?_mapVals, hix]
  cases hv : ix.objs.find? j with
  | none =>
      rw [ite_self]
      rfl
  | some v =>
      have hmem : (∃ e ∈ l, e.id = j) ↔ (f v).1 = a := by
        rw [← hq]
        constructor
        · rintro ⟨e, he, rfl⟩
          obtain ⟨hfind, hqe⟩ := (hl e).mp he
          rwa [← Option.some.inj (hv.symm.trans hfind)] at hqe
        · exact fun hqv => ⟨⟨j, v⟩, (hl ⟨j, v⟩).mpr ⟨hv, hqv⟩, rfl⟩
      by_cases hfa : (f v).1 = a
      · rw [if_pos (hmem.mpr hfa), Option.map_some, Option.filter_some, if_neg (by simp [hfa])]
        rfl
      · rw [if_neg fun h => hfa (hmem.mp h), Option.map_some, Option.filter_some,
          if_pos (by simp [hfa])]

section Clear

variable {v : AccountVoting} (hreg : s.roll.Registered)
  (hv : s.roll.voting.accounts.find? a = some v)
include hreg hv

/-- `clear_witness_votes` clears the votes of an account on the ballot, and says so in its record.
-/
theorem standing_clearWitnessVotes (h : Runs (clearWitnessVotes a) s () s') :
    s'.roll.Registered ∧ s'.roll.names = s.roll.names ∧
      s'.roll.voting.accounts.find? a = some { v with witnessesVotedFor := 0 } ∧
      s'.standing = { s.standing with witnesses := s.standing.witnesses.clear a } := by
  obtain ⟨l, s0, hlist, hrest⟩ := runs_bind.mp h
  obtain ⟨rfl, hl⟩ := mem_rangeBy hlist
  obtain ⟨_, t, h1, h2⟩ := runs_bind.mp hrest
  obtain ⟨ix, rfl, hix⟩ := forM_remove (fun _ _ => rfl) (fun _ _ _ => rfl) (fun _ => rfl) h1
  have hreg' : (witnessVoteIndex.write s0 ix).roll.Registered :=
    ⟨hreg.distinct, hreg.linked, hreg.slots⟩
  have hv' : (witnessVoteIndex.write s0 ix).roll.voting.accounts.find? a = some v := hv
  have hroll := roll_modifyVoting (g := fun v => { v with witnessesVotedFor := 0 }) (fun _ => rfl)
    hv' h2
  have hcast := cast_filter (a := a) (f := fun v : WitnessVoteObject => (v.account, v.witness))
    (fun v => decide_eq_true_iff) hl hix
  rw [Database.standing, hroll]
  refine ⟨hreg'.count hv' rfl rfl, rfl, (Roll.find?_withVoting hv' a).trans (if_pos rfl), ?_⟩
  rw [standing_withWitnessesVotedFor hv']
  exact congrArg (fun cast => ({ s0.standing with witnesses :=
    ⟨s0.standing.witnesses.votes, cast, Function.update s0.standing.witnesses.held a (some 0)⟩ } :
      Standing)) hcast

/-- `clear_streaming_platform_votes` clears the votes of an account on the ballot, and says so in
its record. -/
theorem standing_clearStreamingPlatformVotes (h : Runs (clearStreamingPlatformVotes a) s () s') :
    s'.roll.Registered ∧ s'.roll.names = s.roll.names ∧
      s'.roll.voting.accounts.find? a = some { v with streamingPlatformsVotedFor := 0 } ∧
      s'.standing = { s.standing with platforms := s.standing.platforms.clear a } := by
  obtain ⟨l, s0, hlist, hrest⟩ := runs_bind.mp h
  obtain ⟨rfl, hl⟩ := mem_rangeBy hlist
  obtain ⟨_, t, h1, h2⟩ := runs_bind.mp hrest
  obtain ⟨ix, rfl, hix⟩ := forM_remove (fun _ _ => rfl) (fun _ _ _ => rfl) (fun _ => rfl) h1
  have hreg' : (streamingPlatformVoteIndex.write s0 ix).roll.Registered :=
    ⟨hreg.distinct, hreg.linked, hreg.slots⟩
  have hv' : (streamingPlatformVoteIndex.write s0 ix).roll.voting.accounts.find? a = some v := hv
  have hroll := roll_modifyVoting (g := fun v => { v with streamingPlatformsVotedFor := 0 })
    (fun _ => rfl) hv' h2
  have hcast := cast_filter (a := a)
    (f := fun v : StreamingPlatformVoteObject => (v.account, v.streamingPlatform))
    (fun v => decide_eq_true_iff) hl hix
  rw [Database.standing, hroll]
  refine ⟨hreg'.count hv' rfl rfl, rfl, (Roll.find?_withVoting hv' a).trans (if_pos rfl), ?_⟩
  rw [standing_withPlatformsVotedFor hv']
  exact congrArg (fun cast => ({ s0.standing with platforms :=
    ⟨s0.standing.platforms.votes, cast, Function.update s0.standing.platforms.held a (some 0)⟩ } :
      Standing)) hcast

end Clear

theorem Ballot.silent_clear {κ : Type} [DecidableEq κ] (c : Ballot AccountId κ) (a : AccountId) :
    (c.clear a).Silent a := by
  intro k v hk
  rw [Ballot.clear, FlatMap.find?_filterVals] at hk
  exact of_decide_eq_true (Option.filter_eq_some_iff.mp hk).2

/-- The chain that is followed from `c` does not come to `a`. -/
theorem runs_checkProxyChain {n : ℕ} {chain : List AccountId} {c : AccountId} {x : AccountObject}
    (hreg : s.roll.Registered) (ha : a ∈ chain) (hc : s.accounts.find? c = some x)
    (h : Runs (checkProxyChain n chain x.proxy) s () s') :
    s' = s ∧ ∀ k, above s.standing.up (k + 1) c ≠ some a := by
  have hend : x.proxy = "" → ∀ k, above s.standing.up (k + 1) c ≠ some a := fun hp k hk => by
    rw [above_succ_of_none ((up_eq_none_iff hreg hc).mpr hp)] at hk
    cases hk
  induction n generalizing chain c x with
  | zero =>
      rcases runs_ite.mp h with ⟨hp, h⟩ | ⟨-, h⟩
      · exact ⟨(runs_pure.mp h).2, hend hp⟩
      · exact absurd h runs_throw
  | succ n ih =>
      rcases runs_ite.mp h with ⟨hp, h⟩ | ⟨hp, h⟩
      · exact ⟨(runs_pure.mp h).2, hend hp⟩
      · simp only [runs_bind_getAccount, runs_bind_require] at h
        obtain ⟨next, hnext, hnew, -, h⟩ := h
        have hfind := (ObjectIndex.find?_of_findBy? hnext).1
        obtain ⟨hs, hrest⟩ := ih (List.mem_cons_of_mem _ ha) hfind h fun hp k hk => by
          rw [above_succ_of_none ((up_eq_none_iff hreg hfind).mpr hp)] at hk
          cases hk
        refine ⟨hs, fun k => ?_⟩
        rw [above_succ_of_some (up_of_getAccount hreg hc hp hnext)]
        cases k with
        | zero =>
            intro hk
            obtain rfl := Option.some.inj hk
            exact of_decide_eq_true hnew ha
        | succ k => exact hrest k

/-- A proxy that is set or cleared is a link of the standing that is set or cleared. -/
theorem standing_setProxy {v : AccountVoting} {proxy : String} (hreg : s.roll.Registered)
    (hv : s.roll.voting.accounts.find? a = some v)
    (hproxy : proxy ≠ "" → ∃ b, s.roll.names.find? b = some proxy)
    (h : Runs (modifyProfile a fun q => .ok { q with proxy }) s () s') :
    s'.roll.Registered ∧ s'.standing = { s.standing with
      up := Function.update s.standing.up a (if proxy = "" then none else s.roll.idNamed proxy) } := by
  have hroll := roll_modifyVoting (g := fun v => { v with proxy }) (fun _ => rfl) hv h
  have hslots := hreg.slots hv
  rw [Database.standing, hroll]
  refine ⟨hreg.withVoting hv hproxy hslots, ?_⟩
  rw [Roll.standing_withVoting hv, Roll.proxied_self hv rfl, Roll.witnessesHeld_self hv rfl,
    Roll.platformsHeld_self hv rfl]
  rfl

theorem getD_neg_ok {l l' : List ShareType} (h : l.mapM safeNeg = .ok l') (j : ℕ) :
    (l'.getD j 0).toInt = -(l.getD j 0).toInt := by
  have hall := mapM_ok h
  have hlen := hall.length_eq
  by_cases hj : j < l.length
  · have hget := List.Forall₂.get hall hj (hlen ▸ hj)
    rw [List.getD_eq_getElem l' 0 (hlen ▸ hj), List.getD_eq_getElem l 0 hj]
    exact safeNeg_ok.mp hget
  · rw [List.getD_eq_default _ _ (by omega), List.getD_eq_default _ _ (by omega)]
    rfl

/-- The record of an account, its own shares first, is what is below it. -/
theorem Database.Tallied.getD_record (h : s.Tallied p slack) {x : AccountObject}
    (ha : s.accounts.find? a = some x) {j : ℕ} (hj : j ≤ 4) :
    ((x.vestingShares :: x.proxiedVsfVotes).getD j 0).toInt =
      below s.standing.up s.standing.shares j a := by
  cases j with
  | zero =>
      rw [below_zero]
      show _ = s.roll.holdings.weights a
      rw [FlatMap.weights_apply, find?_holdings, ha]
      rfl
  | succ k =>
      rw [← h.2.records a k (by omega)]
      show (x.proxiedVsfVotes.getD k 0).toInt = s.roll.proxied a k
      rw [Roll.proxied, find?_voting, ha]
      rfl

/-- `account_witness_proxy_evaluator` keeps the tallies in order, since an account cannot name
itself. -/
theorem Database.Tallied.proxy {account proxy : String} (hne : proxy ≠ account)
    (h : s.Tallied p slack) (hr : Runs (accountWitnessProxyEvaluator account proxy) s () s') :
    s'.Tallied p slack := by
  simp only [accountWitnessProxyEvaluator, runs_bind_getAccount, runs_bind_require,
    runs_bind_ofExcept] at hr
  obtain ⟨acct, hacct, hchange, delta, hdelta, hr⟩ := hr
  obtain ⟨hfind, hname⟩ := ObjectIndex.find?_of_findBy? hacct
  obtain ⟨_, t, hwalk, hr⟩ := runs_bind.mp hr
  obtain ⟨hreg, hst⟩ := runs_adjustProxiedWitnessVotesAll h.1 hwalk
  have hapart : t.standing.Apart p slack acct.id := by
    rw [hst]
    refine h.2.apart fun j hj => ?_
    rw [getD_neg_ok hdelta, h.getD_record hfind hj]
  have hnames : t.roll.names = s.roll.names :=
    congrArg Prod.fst (Writes.names_eq hwalk (by decide))
  have hself : t.roll.names.find? acct.id = some account := by
    rw [hnames, find?_names, hfind, Option.map_some, of_decide_eq_true hname]
  obtain ⟨x, hx, -⟩ := Option.map_eq_some_iff.mp ((find?_names t acct.id).symm.trans hself)
  have hv : t.roll.voting.accounts.find? acct.id = some x.toAccountProfile.voting := by
    rw [find?_voting, hx]
    rfl
  rcases runs_ite.mp hr with ⟨hproxy, hr⟩ | ⟨hproxy, hr⟩
  · simp only [runs_bind_getAccount] at hr
    obtain ⟨next, hnext, hr⟩ := hr
    obtain ⟨_, t', hcheck, hset⟩ := runs_bind.mp hr
    obtain ⟨hnextFind, hnextName⟩ := ObjectIndex.find?_of_findBy? hnext
    obtain ⟨rfl, hchain⟩ := runs_checkProxyChain (a := acct.id) hreg (by simp) hnextFind hcheck
    obtain ⟨_, t1, h1, hset⟩ := runs_bind.mp hset
    obtain ⟨_, t2, h2, hset⟩ := runs_bind.mp hset
    obtain ⟨_, t3, h3, hset⟩ := runs_bind.mp hset
    obtain ⟨back, hback, h4⟩ := runs_bind_ofExcept.mp hset
    have hnextNames : t'.roll.names.find? next.id = some proxy := by
      rw [find?_names, hnextFind, Option.map_some, of_decide_eq_true hnextName]
    have hdistinct : next.id ≠ acct.id := fun heq =>
      hne (Option.some.inj (hnextNames.symm.trans (heq ▸ hself)))
    -- the votes go, then the link changes
    obtain ⟨hreg1, hn1, hv1, hst1⟩ := standing_clearWitnessVotes hreg hv h1
    obtain ⟨hreg2, hn2, hv2, hst2⟩ := standing_clearStreamingPlatformVotes hreg1 hv1 h2
    have hnamed : t2.roll.names.find? next.id = some proxy := by rw [hn2, hn1, hnextNames]
    obtain ⟨hreg3, hst3⟩ := standing_setProxy hreg2 hv2 (fun _ => ⟨next.id, hnamed⟩) h3
    rw [if_neg hproxy, hreg2.idNamed_eq hnamed, hst2, hst1] at hst3
    have hapart3 : t3.standing.Apart p slack acct.id := hst3 ▸ hapart.clear.relink (some next.id)
    obtain ⟨hreg4, hst4⟩ := runs_adjustProxiedWitnessVotesAll hreg3 h4
    have hunlink : unlink t3.standing.up acct.id = unlink s.standing.up acct.id := by
      rw [hst3, hst]
      exact Function.update_idem ..
    have hup : t3.standing.up acct.id = some next.id := by
      rw [hst3]
      exact Function.update_self ..
    refine ⟨hreg4, hst4 ▸ hapart3.link hup (fun k hk => ?_) (fun j hj => ?_) ?_ fun _ => ?_⟩
    · rw [hunlink] at hk
      have hk := above_of_unlink hk
      cases k with
      | zero => exact hdistinct (Option.some.inj hk)
      | succ k =>
          rw [hst] at hchain
          exact hchain k hk
    · rw [getD_neg_ok hback, getD_neg_ok hdelta, neg_neg, h.getD_record hfind hj, hunlink,
        below_unlink_self h.2.acyclic, hst3, hst]
      rfl
    · rw [hst3]
      exact Ballot.silent_clear t'.standing.witnesses acct.id
    · rw [hst3]
      exact Ballot.silent_clear t'.standing.platforms acct.id
  · obtain rfl := not_not.mp hproxy
    obtain ⟨hreg', hst'⟩ := standing_setProxy hreg hv (fun h => absurd rfl h) hr
    rw [if_pos rfl] at hst'
    -- with a proxy the account had no votes
    have hup : s.standing.up acct.id ≠ none := fun hup =>
      of_decide_eq_true hchange ((up_eq_none_iff h.1 hfind).mp hup)
    have hsilent {κ : Type} [DecidableEq κ] {c : Ballot AccountId κ} {weight : AccountId → ℤ}
        (hc : c.Fits 30 s.standing.up weight) (root : Option (AccountId × ℕ)) (d : ℕ → ℤ) :
        (c.land root d).Silent acct.id := by
      intro k v hk hself
      have hk : c.cast.find? k = some v := by
        cases root <;> exact hk
      exact hup (hself ▸ (hc.voters hk).1)
    refine ⟨hreg', hst' ▸ (hapart.relink none).sound (Function.update_self ..) ?_ fun hp => ?_⟩
    · rw [hst]
      exact hsilent h.2.witnesses _ _
    · rw [hst]
      exact hsilent (h.2.platforms hp) _ _

end Proxies

end BtcmChain
