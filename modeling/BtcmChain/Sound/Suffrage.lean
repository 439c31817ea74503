import BtcmChain.Sound.Elections
import BtcmChain.Sound.Conservation

set_option autoImplicit false
set_option synthInstance.maxSize 10000000
set_option synthInstance.maxHeartbeats 200000

/-!
# Who counts for whom

What the records of the accounts and the tallies of the candidates say, in every reachable
state, in terms of the state itself: the total of the shares, the shares that come to an
account over its proxies, the votes of the witnesses, and, as far as only accounts without
a proxy vote for them, those of the platforms.

`witness_tallies` and `platform_tallies` state this for every run, from the invariant of
`Sound.Elections`: votes are the weights of those who vote, where the shares of an account with a
proxy count at the end of its chain of proxies. Vesting shares may wrap in the source, and
platforms may be voted for by accounts that have a proxy; the runs in which a witness gets a
negative tally or a platform counts shares twice are at the end, each behind an empty first block.
-/

namespace BtcmChain

/-- The account that speaks for `a` in a state, if it has a proxy. -/
def Database.proxyOf (s : Database) (a : AccountId) : Option AccountId :=
  (s.accounts.find? a).bind fun x =>
    if x.proxy = "" then none else (s.accountNamed x.proxy).map Prod.fst

/-- What `witness_vote_weight` adds up: own shares, and all that is proxied. -/
def AccountObject.weight (x : AccountObject) : ℤ :=
  x.vestingShares.toInt + (x.proxiedVsfVotes.map Int64.toInt).sum

/-- The weight of the account of that number, and 0 without one. -/
def Database.weightOf (s : Database) (a : AccountId) : ℤ := (s.accounts.find? a).elim 0 AccountObject.weight

/-- No account holds a negative number of vesting shares. -/
def Database.SharesNonneg (s : Database) : Prop :=
  ∀ a x, s.accounts.find? a = some x → 0 ≤ x.vestingShares.toInt

/-! ## `validate_invariants` -/

/-- What `validate_invariants` counts for an account: all its weight if it votes itself, and
what is just too far away from its proxy if it does not. -/
def AccountObject.vsfVotes (x : AccountObject) : Except Exn ShareType :=
  if x.proxy = "" then x.witnessVoteWeight else .ok (x.proxiedVsfVotes.getD 3 0)

/-- The `total_vsf_votes` of `validate_invariants`, which goes over the accounts by name. -/
def Database.totalVsfVotes (s : Database) : Except Exn ShareType :=
  (s.accounts.entries.insertionSort fun a b => a.2.name ≤ b.2.name).foldlM (fun total e => do
    let votes ← e.2.vsfVotes
    safeAdd total votes) 0

section Views

variable {s : Database}

theorem proxyOf_eq (s : Database) : s.proxyOf = s.standing.up := by
  funext a
  show s.proxyOf a = s.roll.up a
  rw [Database.proxyOf, Roll.up, find?_voting]
  cases s.accounts.find? a with
  | none => rfl
  | some x =>
      show (if x.proxy = "" then none else (s.accountNamed x.proxy).map Prod.fst) =
        if x.proxy = "" then none else s.roll.idNamed x.proxy
      split
      · rfl
      · show ((s.accounts.objs.entries.find? _).map Prod.fst) =
          ((s.accounts.objs.entries.map fun e => (e.1, e.2.name)).find? _).map Prod.fst
        rw [List.find?_map, Option.map_map]
        rfl

/-- A sum over the shares is one over the accounts. -/
theorem shares_sum (s : Database) {f : AccountId → ℤ → ℤ} (hzero : ∀ a, f a 0 = 0)
    (hadd : ∀ a x y, f a (x + y) = f a x + f a y) :
    s.standing.shares.sum f = s.accounts.sum fun a x => f a x.vestingShares.toInt :=
  (FlatMap.sum_weights _ hzero hadd).trans (FlatMap.sum_mapVals ..)

theorem below_shares (s : Database) (k : ℕ) (b : AccountId) :
    below s.standing.up s.standing.shares k b = s.accounts.sum fun a x =>
      if above s.proxyOf k a = some b then x.vestingShares.toInt else 0 := by
  rw [proxyOf_eq]
  refine shares_sum s (fun a => ite_self 0) fun a x y => ?_
  split
  · rfl
  · rfl

theorem shares_nonneg (h : s.SharesNonneg) (a : AccountId) : 0 ≤ s.standing.shares a := by
  show 0 ≤ s.roll.holdings.weights a
  rw [FlatMap.weights_apply, find?_holdings]
  cases ha : s.accounts.find? a with
  | none => exact le_refl 0
  | some x => exact h a x ha

section Ordered

variable {p : Prop} {slack : ℤ} {a : AccountId} {x : AccountObject}

/-- The record of an account adds up to the shares that reach it over at most four links. -/
theorem Database.Tallied.sum_record (h : s.Tallied p slack) (ha : s.accounts.find? a = some x) :
    x.weight = reach s.standing.up s.standing.shares 4 a := by
  have hslots : x.proxiedVsfVotes.length = 4 :=
    h.1.slots (a := a) (v := x.toAccountProfile.voting) (by rw [find?_voting, ha]; rfl)
  have hfirst : x.vestingShares.toInt = below s.standing.up s.standing.shares 0 a :=
    h.getD_record ha (Nat.zero_le 4)
  rw [AccountObject.weight, reach, Finset.sum_range_succ', ← hfirst, add_comm,
    ← List.take_length (l := x.proxiedVsfVotes), hslots, sum_take_eq]
  refine congrArg (· + _) (Finset.sum_congr rfl fun k hk => ?_)
  exact h.getD_record ha (j := k + 1) (by have := Finset.mem_range.mp hk; omega)

theorem Database.Tallied.weightOf_eq (h : s.Tallied p slack) (ha : s.accounts.find? a = some x) :
    s.weightOf a = reach s.standing.up s.standing.shares 4 a := by
  rw [Database.weightOf, ha]
  exact h.sum_record ha

/-- Nobody who votes without a proxy weighs more than all the shares there are. -/
theorem Database.Tallied.weight_le (h : s.Tallied p 0) (hpos : s.SharesNonneg)
    (ha : s.accounts.find? a = some x) (hp : x.proxy = "") :
    0 ≤ x.weight ∧ x.weight ≤ s.dgpo.totalVestingShares.toInt := by
  rw [h.sum_record ha]
  refine ⟨reach_nonneg (shares_nonneg hpos) 4 a, ?_⟩
  have hle : ∑ r ∈ {a}, reach s.standing.up s.standing.shares 4 r ≤ _ :=
    sum_reach_le (shares_nonneg hpos) {a} (fun r hr => by
      rw [Finset.mem_singleton.mp hr]
      exact (up_eq_none_iff h.1 ha).mpr hp) 4
  have htotal : s.dgpo.totalVestingShares.toInt = (s.standing.shares.sum fun _ n => n) + 0 := h.2.total
  rw [Finset.sum_singleton] at hle
  omega

end Ordered

/-- A sum over the entries of a map is one over its keys, when only these count. -/
theorem FlatMap.sum_keys {α : Type} (m : FlatMap Nat α) (g : Nat → ℤ) :
    (m.sum fun k _ => g k) = ∑ k ∈ (m.entries.map Prod.fst).toFinset, g k := by
  rw [List.sum_toFinset _ m.nodup_keys, List.map_map]
  rfl

end Views

/-! ## Totals and proxies -/

section Totals

variable {s : Database}

/-- What `total_vsf_votes` counts for an account: its weight, or what it could not pass on. -/
def AccountObject.countedVotes (x : AccountObject) : ℤ :=
  if x.proxy = "" then x.weight else (x.proxiedVsfVotes.getD 3 0).toInt

theorem AccountObject.vsfVotes_ok {x : AccountObject} {n : ShareType} (h : x.vsfVotes = .ok n) :
    n.toInt = x.countedVotes := by
  unfold vsfVotes at h
  unfold countedVotes
  split at h
  case isTrue hp =>
    rw [if_pos hp, foldlM_safeAdd_ok h]
    rfl
  case isFalse hp => rw [if_neg hp, ← Except.ok.inj h]

/-- Whoever is above someone who holds shares is an account. -/
theorem isSome_of_above {a y : AccountId} {k : ℕ} (ha : a ∈ s.standing.shares.support)
    (h : above s.standing.up k a = some y) : (s.accounts.find? y).isSome := by
  cases k with
  | zero =>
      obtain rfl := Option.some.inj h
      have hne : s.roll.holdings.weights a ≠ 0 := Finsupp.mem_support_iff.mp ha
      rw [FlatMap.weights_apply, find?_holdings] at hne
      cases hfind : s.accounts.find? a with
      | none =>
          rw [hfind] at hne
          exact absurd rfl hne
      | some x => rfl
  | succ k =>
      -- the last link leads to an account that is named
      rw [above_add] at h
      obtain ⟨z, -, hz⟩ := Option.bind_eq_some_iff.mp h
      obtain ⟨y', hup, hy'⟩ := Option.bind_eq_some_iff.mp hz
      obtain rfl := Option.some.inj hy'
      obtain ⟨n, hn⟩ := Roll.names_of_up hup
      rw [find?_names] at hn
      obtain ⟨x, hx, -⟩ := Option.map_eq_some_iff.mp hn
      rw [hx]
      rfl

/-- Every share is counted once: at the root it reaches, or where it is just too far. -/
theorem Database.Tallied.sum_countedVotes {p : Prop} (h : s.Tallied p 0) :
    (s.accounts.sum fun _ x => x.countedVotes) = s.dgpo.totalVestingShares.toInt := by
  have hcounted : (s.accounts.sum fun _ x => x.countedVotes) = s.accounts.sum fun a _ =>
      if s.standing.up a = none then reach s.standing.up s.standing.shares 4 a
      else below s.standing.up s.standing.shares 4 a := by
    refine FlatMap.sum_congr fun a x ha => ?_
    rw [AccountObject.countedVotes, h.sum_record ha]
    refine if_congr (up_eq_none_iff h.1 ha).symm rfl ?_
    exact h.getD_record ha (le_refl 4)
  have htotal : s.dgpo.totalVestingShares.toInt = (s.standing.shares.sum fun _ n => n) + 0 := h.2.total
  have hmem : ∀ a, a ∈ (s.accounts.objs.entries.map Prod.fst).toFinset ↔
      (s.accounts.find? a).isSome := by
    intro a
    rw [List.mem_toFinset, List.mem_map, Option.isSome_iff_exists]
    constructor
    · rintro ⟨e, he, rfl⟩
      exact ⟨e.2, FlatMap.mem_entries_iff.mp he⟩
    · rintro ⟨x, hx⟩
      exact ⟨(a, x), FlatMap.mem_entries_iff.mpr hx, rfl⟩
  rw [hcounted, htotal, add_zero]
  refine (FlatMap.sum_keys _ _).trans (sum_reach_or_below _ _ 4 fun a ha k y hy => ?_)
  exact (hmem y).mpr (isSome_of_above ha hy)

/-- The accounts by name add up to the same as by number. -/
theorem sum_byName (s : Database) : ((s.accounts.entries.insertionSort
      fun a b => a.2.name ≤ b.2.name).map fun e => e.2.countedVotes).sum =
    s.accounts.sum fun _ x => x.countedVotes :=
  ((List.perm_insertionSort ..).map _).sum_eq

/-- If the sum is computed at all, it is the total. -/
theorem Database.Tallied.totalVsfVotes_ok {p : Prop} {n : ShareType} (h : s.Tallied p 0)
    (hn : s.totalVsfVotes = .ok n) : n = s.dgpo.totalVestingShares := by
  have hsum : n.toInt = ((s.accounts.entries.insertionSort fun a b => a.2.name ≤ b.2.name).map
      fun e => e.2.countedVotes).sum := by
    refine foldlM_ok_induction
      (P := fun done (z : ShareType) => z.toInt = (done.map fun e => e.2.countedVotes).sum)
      hn rfl fun done e rest u v _ hu hv => ?_
    simp only [except_bind_ok, safeAdd_ok] at hv
    obtain ⟨m, hm, hv⟩ := hv
    rw [hv, hu, AccountObject.vsfVotes_ok hm, List.map_append, List.sum_append, List.map_singleton,
      List.sum_singleton]
  rw [← Int64.toInt_inj, hsum, sum_byName, h.sum_countedVotes]

/-- A checked sum of amounts that are not negative succeeds if the result fits. -/
theorem exists_foldlM_safeAdd {l : List ShareType} {x : ShareType} (hx : 0 ≤ x.toInt)
    (hl : ∀ y ∈ l, 0 ≤ y.toInt) (hfit : x.toInt + (l.map Int64.toInt).sum < 2 ^ 63) :
    ∃ y, l.foldlM safeAdd x = .ok y := by
  induction l generalizing x with
  | nil => exact ⟨x, rfl⟩
  | cons z l ih =>
      obtain ⟨hz, hl⟩ := List.forall_mem_cons.mp hl
      have hrest : 0 ≤ (l.map Int64.toInt).sum := List.sum_nonneg fun y hy => by
        obtain ⟨w, hw, rfl⟩ := List.mem_map.mp hy
        exact hl w hw
      rw [List.map_cons, List.sum_cons] at hfit
      obtain ⟨w, hw⟩ : ∃ w, safeAdd x z = .ok w := ⟨_, checked_of_range (by omega) (by omega)⟩
      obtain ⟨y, hy⟩ := ih (x := w) (by rw [safeAdd_ok.mp hw]; omega) hl
        (by rw [safeAdd_ok.mp hw]; omega)
      refine ⟨y, ?_⟩
      rw [List.foldlM_cons, except_bind_ok]
      exact ⟨w, hw, hy⟩

section Nonneg

variable {p : Prop} (h : s.Tallied p 0) (hpos : s.SharesNonneg)
include h hpos

theorem Database.Tallied.record_nonneg {a : AccountId} {x : AccountObject}
    (ha : s.accounts.find? a = some x) : ∀ y ∈ x.proxiedVsfVotes, 0 ≤ y.toInt := by
  have hslots : x.proxiedVsfVotes.length = 4 :=
    h.1.slots (a := a) (v := x.toAccountProfile.voting) (by rw [find?_voting, ha]; rfl)
  intro y hy
  obtain ⟨k, hk, rfl⟩ := List.mem_iff_getElem.mp hy
  have hrecord := h.getD_record ha (j := k + 1) (by omega)
  rw [List.getD_cons_succ, List.getD_eq_getElem _ 0 hk] at hrecord
  rw [hrecord]
  exact below_nonneg (shares_nonneg hpos) _ _

theorem Database.Tallied.countedVotes_nonneg {a : AccountId} {x : AccountObject}
    (ha : s.accounts.find? a = some x) : 0 ≤ x.countedVotes := by
  unfold AccountObject.countedVotes
  split
  case isTrue hp => exact (h.weight_le hpos ha hp).1
  case isFalse =>
    have hrecord : (x.proxiedVsfVotes.getD 3 0).toInt = _ := h.getD_record ha (le_refl 4)
    rw [hrecord]
    exact below_nonneg (shares_nonneg hpos) _ _

theorem Database.Tallied.exists_vsfVotes {a : AccountId} {x : AccountObject}
    (ha : s.accounts.find? a = some x) : ∃ n, x.vsfVotes = .ok n := by
  unfold AccountObject.vsfVotes
  split
  case isTrue hp =>
    have hle : x.vestingShares.toInt + (x.proxiedVsfVotes.map Int64.toInt).sum ≤ _ :=
      (h.weight_le hpos ha hp).2
    have hlt := s.dgpo.totalVestingShares.toInt_lt
    exact exists_foldlM_safeAdd (hpos a x ha) (h.record_nonneg hpos ha) (by omega)
  case isFalse => exact ⟨_, rfl⟩

/-- Without negative shares the sum is computed, and it is the total. -/
theorem Database.Tallied.totalVsfVotes_eq : s.totalVsfVotes = .ok s.dgpo.totalVestingShares := by
  have hsum := (sum_byName s).trans h.sum_countedVotes
  have hmem : ∀ e ∈ s.accounts.entries.insertionSort fun a b => a.2.name ≤ b.2.name,
      s.accounts.find? e.1 = some e.2 := fun e he =>
    ObjectIndex.mem_entries_iff.mp ((List.mem_insertionSort _).mp he)
  obtain ⟨n, hn⟩ : ∃ n, s.totalVsfVotes = .ok n := by
    obtain ⟨n, hn, -⟩ := exists_foldlM_ok
      (P := fun done (z : ShareType) => z.toInt = (done.map fun e => e.2.countedVotes).sum)
      (f := fun total (e : Nat × AccountObject) => do
        let votes ← e.2.vsfVotes
        safeAdd total votes)
      (l := s.accounts.entries.insertionSort fun a b => a.2.name ≤ b.2.name) (s := 0) rfl
      fun done e rest t hl ht => by
        obtain ⟨m, hm⟩ := h.exists_vsfVotes hpos (hmem e (by rw [hl]; simp))
        have hnonneg : ∀ l : List (Nat × AccountObject), (∀ e ∈ l, s.accounts.find? e.1 = some e.2) →
            0 ≤ (l.map fun e => e.2.countedVotes).sum := fun l hl =>
          List.sum_nonneg fun y hy => by
            obtain ⟨e, he, rfl⟩ := List.mem_map.mp hy
            exact h.countedVotes_nonneg hpos (hl e he)
        have hdone := hnonneg done fun e he => hmem e (by rw [hl]; simp [he])
        have hrest := hnonneg rest fun e he => hmem e (by rw [hl]; simp [he])
        have he := h.countedVotes_nonneg hpos (hmem e (by rw [hl]; simp))
        rw [hl, List.map_append, List.sum_append, List.map_cons, List.sum_cons] at hsum
        have hlt := s.dgpo.totalVestingShares.toInt_lt
        have hmv := AccountObject.vsfVotes_ok hm
        obtain ⟨w, hw⟩ : ∃ w, safeAdd t m = .ok w :=
          ⟨_, checked_of_range (by omega) (by omega)⟩
        refine ⟨w, except_bind_ok.mpr ⟨m, hm, hw⟩, ?_⟩
        rw [safeAdd_ok.mp hw, ht, hmv, List.map_append, List.sum_append, List.map_singleton,
          List.sum_singleton]
    exact ⟨n, hn⟩
  rw [hn, h.totalVsfVotes_ok hn]

end Nonneg

/-- The vesting shares of the accounts add up to the total; proxies never form a cycle; what an
account records for a distance is what the accounts at that distance below it hold; and so
the votes `validate_invariants` counts add up to the total, which is also what it computes
unless there are negative shares for it to overflow on. -/
theorem vesting_and_proxy_totals [Externals] (hs : Reachable s) :
    s.dgpo.totalVestingShares.toInt = (s.accounts.sum fun _ x => x.vestingShares.toInt) ∧
    Acyclic s.proxyOf ∧
    (∀ b x, s.accounts.find? b = some x → x.proxiedVsfVotes.length = 4 ∧
      ∀ d < 4, (x.proxiedVsfVotes.getD d 0).toInt = s.accounts.sum fun a y =>
        if above s.proxyOf (d + 1) a = some b then y.vestingShares.toInt else 0) ∧
    (s.accounts.sum fun _ x => x.countedVotes) = s.dgpo.totalVestingShares.toInt ∧
    (∀ n, s.totalVsfVotes = .ok n → n = s.dgpo.totalVestingShares) ∧
    (s.SharesNonneg → s.totalVsfVotes = .ok s.dgpo.totalVestingShares) := by
  obtain ⟨htallied, -⟩ := hs.inOrder
  have htotal : s.dgpo.totalVestingShares.toInt = (s.standing.shares.sum fun _ n => n) + 0 :=
    htallied.2.total
  refine ⟨?_, ?_, fun b x hb => ⟨?_, fun d hd => ?_⟩, htallied.sum_countedVotes,
    fun n hn => htallied.totalVsfVotes_ok hn, fun hpos => htallied.totalVsfVotes_eq hpos⟩
  · rw [htotal, add_zero]
    exact shares_sum s (fun _ => rfl) fun _ _ _ => rfl
  · rw [proxyOf_eq]
    exact htallied.2.acyclic
  · exact htallied.1.slots (a := b) (v := x.toAccountProfile.voting) (by rw [find?_voting, hb]; rfl)
  · rw [← below_shares]
    exact htallied.getD_record hb (j := d + 1) hd

end Totals

/-! ## Tallies -/

section Ballots

variable {s : Database} {p : Prop} {κ α : Type} [DecidableEq κ] {b : Ballot AccountId κ}
  (h : s.Tallied p 0) (hb : b.Fits 30 s.standing.up (reach s.standing.up s.standing.shares 4))
include h hb

/-- A recount goes through the records of the votes and asks each voter for its weight. -/
theorem recount_eq_sum (ix : ObjectIndex α) (f : α → AccountId × κ)
    (hcast : b.cast = ix.objs.mapVals f) (hheld : ∀ a, (b.held a).isSome → (s.accounts.find? a).isSome)
    (c : κ) : b.recount (reach s.standing.up s.standing.shares 4) c =
      ix.sum fun _ v => if (f v).2 = c then s.weightOf (f v).1 else 0 := by
  rw [Ballot.recount, hcast, FlatMap.sum_mapVals]
  refine FlatMap.sum_congr fun k v hk => ?_
  have hvote : b.cast.find? k = some (f v) := by
    rw [hcast, FlatMap.find?_mapVals, hk]
    rfl
  obtain ⟨x, hx⟩ := Option.isSome_iff_exists.mp (hheld _ (hb.voters hvote).2.2)
  rw [h.weightOf_eq hx]

omit h in
/-- Every account's shares count once for a candidate, if the chain of its proxies comes to one
of the voters over at most four links, and otherwise not at all. -/
theorem recount_eq_once (c : κ) : b.recount (reach s.standing.up s.standing.shares 4) c =
    s.accounts.sum fun a x =>
      if (landing s.proxyOf 4 a).any (·.1 ∈ b.votersOf c) then x.vestingShares.toInt else 0 := by
  have hroots : ∀ r ∈ b.votersOf c, s.standing.up r = none := fun r hr => by
    obtain ⟨k, hk⟩ := Ballot.mem_votersOf.mp hr
    exact (hb.voters hk).1
  rw [hb.recount_eq, sum_reach_eq _ _ hroots, proxyOf_eq]
  refine shares_sum s (fun a => ite_self 0) fun a x y => ?_
  split
  · rfl
  · rfl

/-- Without negative shares a tally is between nothing and everything. -/
theorem recount_bounds (hpos : s.SharesNonneg) (c : κ) :
    0 ≤ b.recount (reach s.standing.up s.standing.shares 4) c ∧
      b.recount (reach s.standing.up s.standing.shares 4) c ≤ s.dgpo.totalVestingShares.toInt := by
  have hroots : ∀ r ∈ b.votersOf c, s.standing.up r = none := fun r hr => by
    obtain ⟨k, hk⟩ := Ballot.mem_votersOf.mp hr
    exact (hb.voters hk).1
  have htotal : s.dgpo.totalVestingShares.toInt = (s.standing.shares.sum fun _ n => n) + 0 := h.2.total
  rw [hb.recount_eq, htotal, add_zero]
  exact ⟨Finset.sum_nonneg fun r _ => reach_nonneg (shares_nonneg hpos) 4 r,
    sum_reach_le (shares_nonneg hpos) _ hroots 4⟩

end Ballots

section Tallies

variable {s : Database}

/-- What `witness_vote_weight` returns is the weight of the account. -/
theorem witnessVoteWeight_ok {x : AccountObject} {n : ShareType} (h : x.witnessVoteWeight = .ok n) :
    n.toInt = x.weight := foldlM_safeAdd_ok h

theorem isSome_of_held {f : AccountVoting → ℕ} {a : AccountId}
    (h : ((s.roll.voting.accounts.find? a).map f).isSome) : (s.accounts.find? a).isSome := by
  rw [Option.isSome_map, find?_voting, Option.isSome_map] at h
  exact h

/-- The votes of a witness are the weights of the accounts that vote for it, once each; these
have no proxy, and every account knows how many it votes for, at most thirty. Unless there
are negative shares, the votes are between zero and all shares there are. -/
theorem witness_tallies [Externals] (hs : Reachable s) :
    (∀ w x, s.witnesses.find? w = some x → x.votes.toInt =
      s.witnessVotes.sum fun _ v => if v.witness = w then s.weightOf v.account else 0) ∧
    (∀ i v, s.witnessVotes.find? i = some v →
      ∃ x, s.accounts.find? v.account = some x ∧ x.proxy = "" ∧
        ∀ n, x.witnessVoteWeight = .ok n → n.toInt = s.weightOf v.account) ∧
    (∀ i j v, s.witnessVotes.find? i = some v → s.witnessVotes.find? j = some v → i = j) ∧
    (∀ a x, s.accounts.find? a = some x →
      (x.witnessesVotedFor.toNat : ℤ) = (s.witnessVotes.sum fun _ v => if v.account = a then 1 else 0) ∧
      x.witnessesVotedFor.toNat ≤ 30) ∧
    (s.SharesNonneg → ∀ w x, s.witnesses.find? w = some x →
      0 ≤ x.votes.toInt ∧ x.votes.toInt ≤ s.dgpo.totalVestingShares.toInt) := by
  obtain ⟨h, -⟩ := hs.inOrder
  have hfits := h.2.witnesses
  have hvotes : ∀ {w x}, s.witnesses.find? w = some x →
      s.standing.witnesses.votes w = some x.votes.toInt := fun {w x} hx => by
    show ((s.witnesses.objs.mapVals WitnessObject.votes).find? w).map Int64.toInt = _
    rw [FlatMap.find?_mapVals, show s.witnesses.objs.find? w = some x from hx]
    rfl
  have hcast : ∀ {i v}, s.witnessVotes.find? i = some v →
      s.standing.witnesses.cast.find? i = some (v.account, v.witness) := fun {i v} hv => by
    show (s.witnessVotes.objs.mapVals _).find? i = _
    rw [FlatMap.find?_mapVals, show s.witnessVotes.objs.find? i = some v from hv]
    rfl
  refine ⟨fun w x hx => ?_, fun i v hv => ?_, fun i j v hi hj => ?_, fun a x ha => ?_,
    fun hpos w x hx => ?_⟩
  · rw [hfits.tally (hvotes hx)]
    exact recount_eq_sum h hfits s.witnessVotes (fun v => (v.account, v.witness)) rfl
      (fun a => isSome_of_held) w
  · obtain ⟨hup, -, hheld⟩ := hfits.voters (hcast hv)
    obtain ⟨x, hx⟩ := Option.isSome_iff_exists.mp (isSome_of_held hheld)
    refine ⟨x, hx, (up_eq_none_iff h.1 hx).mp hup, fun n hn => ?_⟩
    rw [witnessVoteWeight_ok hn, Database.weightOf, hx]
    rfl
  · exact hfits.once (hcast hi) (hcast hj)
  · have hheld : s.standing.witnesses.held a = some x.witnessesVotedFor.toNat := by
      show (s.roll.voting.accounts.find? a).map _ = _
      rw [find?_voting, ha]
      rfl
    obtain ⟨hcount, hlimit⟩ := hfits.counted hheld
    exact ⟨hcount.trans (FlatMap.sum_mapVals s.witnessVotes.objs (fun v => (v.account, v.witness))
      fun _ v => if v.1 = a then 1 else 0), hlimit⟩
  · rw [hfits.tally (hvotes hx)]
    exact recount_bounds h hfits hpos w

/-- The accounts that vote for a platform, as a set. -/
def Database.platformVoters (s : Database) (c : StreamingPlatformId) : Finset AccountId :=
  s.roll.platforms.votersOf c

/-- As long as only accounts without a proxy vote for platforms, the votes of a platform are
the weights of its voters, nobody's shares count twice, and unless there are negative shares
the votes are between zero and all shares there are. -/
theorem platform_tallies [Externals] (hs : ReachableIf (fun t m => m.RootVotes t) s) :
    ∀ c x, s.platforms.find? c = some x →
      x.votes.toInt = (s.platformVotes.sum fun _ v =>
        if v.streamingPlatform = c then s.weightOf v.account else 0) ∧
      x.votes.toInt = (s.accounts.sum fun a y =>
        if (landing s.proxyOf 4 a).any (·.1 ∈ s.platformVoters c) then y.vestingShares.toInt else 0) ∧
      (s.SharesNonneg → 0 ≤ x.votes.toInt ∧ x.votes.toInt ≤ s.dgpo.totalVestingShares.toInt) := by
  obtain ⟨h, -⟩ := ReachableIf.inOrder (p := True) (fun _ _ hvotes _ => hvotes) hs
  have hfits := h.2.platforms trivial
  intro c x hx
  have hvotes : s.standing.platforms.votes c = some x.votes.toInt := by
    show ((s.platforms.objs.mapVals StreamingPlatformObject.votes).find? c).map Int64.toInt = _
    rw [FlatMap.find?_mapVals, show s.platforms.objs.find? c = some x from hx]
    rfl
  rw [hfits.tally hvotes]
  refine ⟨?_, recount_eq_once hfits c, fun hpos => recount_bounds h hfits hpos c⟩
  exact recount_eq_sum h hfits s.platformVotes (fun v => (v.account, v.streamingPlatform)) rfl
    (fun a => isSome_of_held) c

end Tallies

/-! ## Concrete chains -/

section Samples

open Sample

/-- A genesis in which `initminer` and `initminer2` hold vesting shares. -/
def votersGenesis : GenesisState where
  initSupply := 1000000000000000
  initialVestingBalances := [⟨3, 1000000, million_nonneg⟩, ⟨5, 10000000, by decide⟩]

/-- `initminer` lets `initminer1` speak for it, which lets `initminer2` speak for it. -/
def proxyBlock : SignedBlock where
  witness := "initminer1"
  timestamp := 1585422006
  transactions := [[.accountWitnessProxy "initminer" "initminer1"],
    [.accountWitnessProxy "initminer1" "initminer2"],
    [.accountWitnessVote "initminer2" "initminer" true]]

/-- Two links away, the shares are in the second slot. -/
theorem proxyBlock_records :
    ∃ s x, Reachable s ∧ s.accounts.find? 5 = some x ∧ (x.proxiedVsfVotes.getD 1 0).toInt = 1000000 ∧
      (s.accounts.sum fun a y => if above s.proxyOf 2 a = some 5 then y.vestingShares.toInt else 0) =
        1000000 := by
  have hrun : leadsTo (replay votersGenesis [firstBlock, proxyBlock]) {} (fun s =>
      decide ((s.accounts.find? 5).map (fun x => (x.proxiedVsfVotes.getD 1 0).toInt) =
        some 1000000)) = true := by
    decide +kernel
  obtain ⟨s, hs, hslot⟩ := leadsTo_iff.mp hrun
  obtain ⟨x, hx, hslot⟩ := Option.map_eq_some_iff.mp (of_decide_eq_true hslot)
  have hreach := replay_reachable hs
  refine ⟨s, x, hreach, hx, hslot, ?_⟩
  rw [← hslot, ((vesting_and_proxy_totals hreach).2.2.1 5 x hx).2 1 (by decide)]

/-- `initminer2` votes with the shares of both accounts, its own and those of the account it speaks
for. -/
theorem proxyBlock_tally :
    ∃ s x, Reachable s ∧ s.witnesses.find? 0 = some x ∧ x.votes.toInt = 11005000 ∧
      (s.witnessVotes.sum fun _ v => if v.witness = 0 then s.weightOf v.account else 0) =
        11005000 := by
  have hrun : leadsTo (replay votersGenesis [firstBlock, proxyBlock]) {} (fun s =>
      decide ((s.witnesses.find? 0).map (fun x => x.votes.toInt) = some 11005000)) = true := by
    decide +kernel
  obtain ⟨s, hs, hvotes⟩ := leadsTo_iff.mp hrun
  obtain ⟨x, hx, hvotes⟩ := Option.map_eq_some_iff.mp (of_decide_eq_true hvotes)
  have hreach := replay_reachable hs
  refine ⟨s, x, hreach, hx, hvotes, ?_⟩
  rw [← hvotes, (witness_tallies hreach).1 0 x hx]

/-- A genesis with nine quintillion vesting shares, a trillion of them of `initminer`, and no BTCM in
the vesting fund. -/
def crowdedGenesis : GenesisState where
  initSupply := 1000000000000000000
  initSupply_nonneg := quintillion_nonneg
  initialVestingBalances :=
    [⟨3, 1000000000000, trillion_nonneg⟩, ⟨5, 9000000000000000000, nineQuintillion_nonneg⟩]

/-- The second block after it. The first deposit puts a million into the fund, and every further one
is worth nine trillion shares; two million of them are more than a signed amount holds. -/
def overflowingBlock : SignedBlock where
  witness := "initminer1"
  timestamp := 1585422006
  transactions := [[.transferToVesting "initminer" "initminer" (btcm 1000000)],
    [.transferToVesting "initminer" "initminer" (btcm 2000000)],
    [.accountWitnessVote "initminer" "initminer1" true]]

/-- The shares wrap, and the witness ends up with a negative number of votes. -/
theorem witness_votes_negative :
    ∃ s x, Reachable s ∧ s.witnesses.find? 1 = some x ∧ x.votes.toInt = -446741073706551616 := by
  have hrun : leadsTo (replay crowdedGenesis [firstBlock, overflowingBlock]) {} (fun s =>
      decide ((s.witnesses.find? 1).map (fun x => x.votes.toInt) =
        some (-446741073706551616))) = true := by
    decide +kernel
  obtain ⟨s, hs, hvotes⟩ := leadsTo_iff.mp hrun
  obtain ⟨x, hx, hvotes⟩ := Option.map_eq_some_iff.mp (of_decide_eq_true hvotes)
  exact ⟨s, x, replay_reachable hs, hx, hvotes⟩

/-- An account without a proxy votes for a platform, and the tally is its weight. -/
theorem platform_votes_once :
    ∃ s x, ReachableIf (fun t m => m.RootVotes t) s ∧ s.platforms.find? 0 = some x ∧
      x.votes.toInt = 1000000 ∧ (s.platformVotes.sum fun _ v =>
        if v.streamingPlatform = 0 then s.weightOf v.account else 0) = 1000000 := by
  have hrun : leadsTo (initGenesis votersGenesis) {} (fun g =>
      leadsTo ((Move.emptyBlock firstBlock).forM Move.run) g fun s =>
      leadsTo (Move.operation (.streamingPlatformUpdate "initminer" "https://platform"
        (btcm 100000000000000))).run s fun t =>
      decide ((t.accountNamed "initminer").all (fun e => decide (e.2.proxy = "")) = true) &&
      leadsTo (Move.operation (.accountStreamingPlatformVote "initminer" "initminer" true)).run t fun u =>
        decide ((u.platforms.find? 0).map (fun x => x.votes.toInt) = some 1000000)) = true := by
    decide +kernel
  obtain ⟨g, hg, hrun⟩ := leadsTo_iff.mp hrun
  obtain ⟨s, hs, hrun⟩ := leadsTo_iff.mp hrun
  obtain ⟨t, ht, hrun⟩ := leadsTo_iff.mp hrun
  obtain ⟨hroot, hrun⟩ := Bool.and_eq_true_iff.mp hrun
  obtain ⟨u, hu, hvotes⟩ := leadsTo_iff.mp hrun
  obtain ⟨x, hx, hvotes⟩ := Option.map_eq_some_iff.mp (of_decide_eq_true hvotes)
  have hroot := of_decide_eq_true hroot
  have hreach : ReachableIf (fun t m => m.RootVotes t) u := by
    have hfirst := ReachableIf.emptyBlock (C := fun t m => m.RootVotes t)
      (fun _ m hm c hc => by rw [hm] at hc; cases hc) (.genesis hg) hs
    refine .move (.move hfirst ?_ ht) ?_ hu
    · intro c hc
      rw [Move.calls, calls_eq_self rfl, List.mem_singleton] at hc
      subst hc
      trivial
    · intro c hc
      rw [Move.calls, calls_eq_self rfl, List.mem_singleton] at hc
      subst hc
      intro id y hy
      have hy : t.accountNamed "initminer" = some (id, y) := hy
      rw [hy] at hroot
      exact of_decide_eq_true hroot
  refine ⟨u, x, hreach, hx, hvotes, ?_⟩
  rw [← hvotes, (platform_tallies hreach 0 x hx).1]

/-- In the second block, `initminer` has a proxy and votes for a platform; its proxy votes for it
too, and then `initminer` vests ten BTCM. -/
def doubleVoteBlock : SignedBlock where
  witness := "initminer1"
  timestamp := 1585422006
  transactions := [[.accountWitnessProxy "initminer" "initminer1"],
    [.streamingPlatformUpdate "initminer" "https://platform" (btcm 100000000000000)],
    [.accountStreamingPlatformVote "initminer" "initminer" true],
    [.accountStreamingPlatformVote "initminer1" "initminer" true],
    [.transferToVesting "initminer" "initminer" (btcm 10)]]

/-- The shares count twice, and the tally is no longer the weight of the voters. -/
theorem platform_votes_double :
    ∃ s x, Reachable s ∧ s.platforms.find? 0 = some x ∧ x.votes.toInt = 5502005010 ∧
      (s.platformVotes.sum fun _ v =>
        if v.streamingPlatform = 0 then s.weightOf v.account else 0) = 5502005020 ∧
      (s.accounts.sum fun a y => if (landing s.proxyOf 4 a).any (·.1 ∈ s.platformVoters 0) then
        y.vestingShares.toInt else 0) = 5501005010 := by
  have hrun : leadsTo (replay votersGenesis [firstBlock, doubleVoteBlock]) {} (fun s =>
      decide ((s.platforms.find? 0).map (fun x => x.votes.toInt) = some 5502005010 ∧
        (s.platformVotes.sum fun _ v =>
          if v.streamingPlatform = 0 then s.weightOf v.account else 0) = 5502005020 ∧
        (s.accounts.sum fun a y => if (landing s.proxyOf 4 a).any (·.1 ∈ s.platformVoters 0) then
          y.vestingShares.toInt else 0) = 5501005010)) = true := by
    decide +kernel
  obtain ⟨s, hs, hvotes⟩ := leadsTo_iff.mp hrun
  obtain ⟨hvotes, hweights, honce⟩ := of_decide_eq_true hvotes
  obtain ⟨x, hx, hvotes⟩ := Option.map_eq_some_iff.mp hvotes
  exact ⟨s, x, replay_reachable hs, hx, hvotes, hweights, honce⟩

end Samples

end BtcmChain
