import BtcmChain.Chain.Sidelong
import BtcmChain.Lib.Ballot

set_option autoImplicit false
set_option synthInstance.maxSize 10000000
set_option synthInstance.maxHeartbeats 200000

/-!
# The standing of accounts

A view of the state in the terms of parent links and ballots: who speaks for whom, who holds
how many vesting shares, what is recorded as passed on to whom, and the two elections that
are held with it, that of witnesses and that of streaming platforms.

`Registered` is what makes names work as links: no two accounts share one, and a proxy that
is set exists. The rest of the module says how the primitives that write accounts, witnesses
and platforms change the view, and that most programs do not.
-/

namespace BtcmChain

/-! ## The view -/

/-- The part of the state that elections depend on: names, shares and voting data. -/
structure Roll where
  names : FlatMap AccountId String
  holdings : FlatMap AccountId ℤ
  voting : Voting

/-- The electoral roll of a state. -/
def Database.roll (s : Database) : Roll where
  names := s.names.1
  holdings := s.accounts.objs.mapVals fun a => a.vestingShares.toInt
  voting := s.voting

/-- The number of the account of that name on the roll. -/
def Roll.idNamed (r : Roll) (name : String) : Option AccountId :=
  (r.names.entries.find? (·.2 = name)).map Prod.fst

/-- The account that speaks for `a`, if it has a proxy. -/
def Roll.up (r : Roll) (a : AccountId) : Option AccountId :=
  (r.voting.accounts.find? a).bind fun v => if v.proxy = "" then none else r.idNamed v.proxy

/-- What is recorded for the accounts `k + 1` links below. -/
def Roll.proxied (r : Roll) (a : AccountId) (k : ℕ) : ℤ :=
  (((r.voting.accounts.find? a).elim [] AccountVoting.proxiedVsfVotes).getD k 0).toInt

/-- The election of witnesses on the roll, as a ballot. -/
def Roll.witnesses (r : Roll) : Ballot AccountId Nat where
  votes w := (r.voting.witnesses.find? w).map Int64.toInt
  cast := r.voting.witnessVotes.objs.mapVals fun x => (x.account, x.witness)
  held a := (r.voting.accounts.find? a).map fun x => x.witnessesVotedFor.toNat

/-- The election of platforms on the roll, as a ballot. -/
def Roll.platforms (r : Roll) : Ballot AccountId StreamingPlatformId where
  votes w := (r.voting.platforms.find? w).map Int64.toInt
  cast := r.voting.platformVotes.objs.mapVals fun x => (x.account, x.streamingPlatform)
  held a := (r.voting.accounts.find? a).map fun x => x.streamingPlatformsVotedFor.toNat

/-- Links to proxies, shares, what is passed on, and both elections. -/
structure Standing where
  up : AccountId → Option AccountId
  shares : AccountId →₀ ℤ
  proxied : AccountId → ℕ → ℤ
  witnesses : Ballot AccountId Nat
  platforms : Ballot AccountId StreamingPlatformId
  total : ℤ

/-- The standing of the accounts on a roll. -/
noncomputable def Roll.standing (r : Roll) : Standing where
  up := r.up
  shares := r.holdings.weights
  proxied := r.proxied
  witnesses := r.witnesses
  platforms := r.platforms
  total := r.voting.total.toInt

/-- The standing of the accounts in a state. -/
noncomputable abbrev Database.standing (s : Database) : Standing := s.roll.standing

/-- Names are unique, proxies exist, and there is a record for each distance. -/
structure Roll.Registered (r : Roll) : Prop where
  distinct : ∀ ⦃i j n⦄, r.names.find? i = some n → r.names.find? j = some n → i = j
  linked : ∀ ⦃a v⦄, r.voting.accounts.find? a = some v → v.proxy ≠ "" →
    ∃ b, r.names.find? b = some v.proxy
  slots : ∀ ⦃a v⦄, r.voting.accounts.find? a = some v → v.proxiedVsfVotes.length = 4

/-! ## Lookup -/

section Lookup

variable {s : Database} {r : Roll} {a b : AccountId} {v : AccountVoting} {n : String}

theorem find?_names (s : Database) (a : AccountId) :
    s.roll.names.find? a = (s.accounts.find? a).map AccountObject.name := FlatMap.find?_mapVals ..

theorem find?_voting (s : Database) (a : AccountId) :
    s.roll.voting.accounts.find? a =
      (s.accounts.find? a).map fun x => x.toAccountProfile.voting :=
  FlatMap.find?_mapVals ..

theorem find?_holdings (s : Database) (a : AccountId) :
    s.roll.holdings.find? a = (s.accounts.find? a).map fun x => x.vestingShares.toInt :=
  FlatMap.find?_mapVals ..

theorem Roll.names_of_idNamed (h : r.idNamed n = some b) : r.names.find? b = some n := by
  obtain ⟨⟨i, m⟩, he, rfl⟩ := Option.map_eq_some_iff.mp h
  have hm := List.find?_some he
  obtain rfl : m = n := of_decide_eq_true hm
  exact FlatMap.mem_entries_iff.mp (List.mem_of_find?_eq_some he)

theorem Roll.Registered.idNamed_eq (h : r.Registered) (hb : r.names.find? b = some n) :
    r.idNamed n = some b := by
  have hsome : (r.idNamed n).isSome := by
    rw [idNamed, Option.isSome_map, List.find?_isSome]
    exact ⟨(b, n), FlatMap.mem_entries_iff.mpr hb, decide_eq_true rfl⟩
  obtain ⟨i, hi⟩ := Option.isSome_iff_exists.mp hsome
  rw [hi, h.distinct (names_of_idNamed hi) hb]

/-- The account that an evaluator fetches by name is the one of that name on the roll. -/
theorem Roll.Registered.idNamed_of_accountNamed (h : s.roll.Registered) {e : Nat × AccountObject}
    (he : s.accountNamed n = some e) : s.roll.idNamed n = some e.1 := by
  obtain ⟨hfind, hname⟩ := ObjectIndex.find?_of_findBy? (k := e.1) (a := e.2) he
  refine h.idNamed_eq ?_
  rw [find?_names, hfind, Option.map_some, of_decide_eq_true hname]

theorem Roll.up_eq_none (ha : r.voting.accounts.find? a = some v) (hp : v.proxy = "") :
    r.up a = none := by
  rw [up, ha, Option.bind_some, if_pos hp]

theorem Roll.up_of_ne (ha : r.voting.accounts.find? a = some v) (hp : v.proxy ≠ "") :
    r.up a = r.idNamed v.proxy := by
  rw [up, ha, Option.bind_some, if_neg hp]

/-- An account that exists is a root exactly if it has no proxy. -/
theorem Roll.Registered.up_eq_none_iff (h : r.Registered)
    (ha : r.voting.accounts.find? a = some v) : r.up a = none ↔ v.proxy = "" := by
  refine ⟨fun hnone => ?_, up_eq_none ha⟩
  by_contra hp
  obtain ⟨b, hb⟩ := h.linked ha hp
  rw [up_of_ne ha hp, h.idNamed_eq hb] at hnone
  cases hnone

/-- A link to a proxy leads to an account that is on the roll. -/
theorem Roll.names_of_up (h : r.up a = some b) : ∃ n, r.names.find? b = some n := by
  obtain ⟨v, -, hv⟩ := Option.bind_eq_some_iff.mp h
  split at hv
  · cases hv
  · exact ⟨_, names_of_idNamed hv⟩

end Lookup

/-! ## How the roll changes -/

section Changes

variable {s : Database} {r : Roll} {a : AccountId}

/-- The roll with other voting data for an account. -/
def Roll.withVoting (r : Roll) (a : AccountId) (v : AccountVoting) : Roll :=
  { r with voting := { r.voting with accounts := r.voting.accounts.update a fun _ => v } }

/-- The roll with other shares for an account. -/
def Roll.withShares (r : Roll) (a : AccountId) (n : ℤ) : Roll :=
  { r with holdings := r.holdings.update a fun _ => n }

/-- A change of the profile changes the voting data of that account on the roll. -/
theorem roll_modifyProfile {change : AccountProfile → Except Exn AccountProfile} {s' : Database}
    {u : Unit} (h : Runs (modifyProfile a change) s u s') :
    ∃ x p, s.accounts.find? a = some x ∧ change x.toAccountProfile = .ok p ∧
      s'.roll = s.roll.withVoting a p.voting := by
  obtain ⟨x, p, hx, hp, rfl⟩ := runs_modifyProfile.mp h
  refine ⟨x, p, hx, hp, ?_⟩
  have hm {β : Type} (g : AccountObject → β) (hg : g { x with toAccountProfile := p } = g x) :=
    ObjectIndex.mapVals_update_const hx hg
  show Roll.mk ((s.accounts.update a fun _ => { x with toAccountProfile := p }).objs.mapVals _)
    ((s.accounts.update a fun _ => { x with toAccountProfile := p }).objs.mapVals _)
    { s.voting with accounts :=
      (s.accounts.objs.update a fun _ => { x with toAccountProfile := p }).mapVals _ } = _
  rw [hm AccountObject.name rfl, hm (fun a => a.vestingShares.toInt) rfl, FlatMap.mapVals_update]
  rfl

/-- A change of the stake may change the shares of that account on the roll. -/
theorem roll_modifyStake {change : AccountStake → Except Exn AccountStake} {s' : Database}
    {u : Unit} (h : Runs (modifyStake a change) s u s') :
    ∃ x p, s.accounts.find? a = some x ∧ change x.toAccountStake = .ok p ∧
      s'.roll = s.roll.withShares a p.vestingShares.toInt := by
  obtain ⟨x, p, hx, hp, rfl⟩ := runs_modifyStake.mp h
  refine ⟨x, p, hx, hp, ?_⟩
  have hm {β : Type} (g : AccountObject → β) (hg : g { x with toAccountStake := p } = g x) :=
    ObjectIndex.mapVals_update_const hx hg
  show Roll.mk ((s.accounts.update a fun _ => { x with toAccountStake := p }).objs.mapVals _)
    ((s.accounts.objs.update a fun _ => { x with toAccountStake := p }).mapVals _)
    { s.voting with accounts :=
      (s.accounts.update a fun _ => { x with toAccountStake := p }).objs.mapVals _ } = _
  rw [hm AccountObject.name rfl, hm (fun a => a.toAccountProfile.voting) rfl,
    FlatMap.mapVals_update]
  rfl

/-- Giving an account the shares that it has leaves the roll as it is. -/
theorem Roll.withShares_self {n : ℤ} (h : r.holdings.find? a = some n) : r.withShares a n = r := by
  have hsame : (r.holdings.update a fun _ => n) = r.holdings := FlatMap.ext_find? fun k => by
    rw [FlatMap.find?_update]
    split
    case isTrue hk => rw [hk, h]; rfl
    case isFalse => rfl
  rw [withShares, hsame]

/-- When the shares of an account change, so does its standing, and nothing else of the standing. -/
theorem Roll.standing_withShares {n m : ℤ} (h : r.holdings.find? a = some n) :
    (r.withShares a m).standing =
      { r.standing with shares := r.standing.shares + Finsupp.single a (m - n) } :=
  congrArg (fun x => { r.standing with shares := x }) (FlatMap.weights_update h)

variable {v w : AccountVoting}

theorem Roll.find?_withVoting (hv : r.voting.accounts.find? a = some v) (x : AccountId) :
    (r.withVoting a w).voting.accounts.find? x =
      if x = a then some w else r.voting.accounts.find? x := by
  rw [withVoting, FlatMap.find?_update, hv]
  rfl

theorem Roll.Registered.withVoting (h : r.Registered) (hv : r.voting.accounts.find? a = some v)
    (hproxy : w.proxy ≠ "" → ∃ b, r.names.find? b = some w.proxy)
    (hslots : w.proxiedVsfVotes.length = 4) : (r.withVoting a w).Registered where
  distinct := h.distinct
  linked x y hy := by
    rw [find?_withVoting hv] at hy
    split at hy
    · obtain rfl := Option.some.inj hy
      exact hproxy
    · exact h.linked hy
  slots x y hy := by
    rw [find?_withVoting hv] at hy
    split at hy
    · obtain rfl := Option.some.inj hy
      exact hslots
    · exact h.slots hy

/-- Every part of the standing changes at that account, if at all. -/
theorem Roll.standing_withVoting (hv : r.voting.accounts.find? a = some v) :
    (r.withVoting a w).standing = { r.standing with
      up := Function.update r.up a (if w.proxy = "" then none else r.idNamed w.proxy)
      proxied := Function.update r.proxied a fun k => (w.proxiedVsfVotes.getD k 0).toInt
      witnesses := { r.witnesses with
        held := Function.update r.witnesses.held a (some w.witnessesVotedFor.toNat) }
      platforms := { r.platforms with
        held := Function.update r.platforms.held a (some w.streamingPlatformsVotedFor.toNat) } } := by
  have hup : (r.withVoting a w).up =
      Function.update r.up a (if w.proxy = "" then none else r.idNamed w.proxy) := by
    funext x
    rw [up, find?_withVoting hv, Function.update_apply]
    split
    · rfl
    · rfl
  have hproxied : (r.withVoting a w).proxied =
      Function.update r.proxied a fun k => (w.proxiedVsfVotes.getD k 0).toInt := by
    funext x k
    rw [proxied, find?_withVoting hv, Function.update_apply]
    split
    · rfl
    · rfl
  have hheld {β : Type} (f : AccountVoting → β) :
      (fun x => ((r.withVoting a w).voting.accounts.find? x).map f) =
        Function.update (fun x => (r.voting.accounts.find? x).map f) a (some (f w)) := by
    funext x
    rw [find?_withVoting hv, Function.update_apply]
    split
    · rfl
    · rfl
  have hw := hheld fun v => v.witnessesVotedFor.toNat
  have hp := hheld fun v => v.streamingPlatformsVotedFor.toNat
  show Standing.mk (r.withVoting a w).up _ (r.withVoting a w).proxied ⟨_, _, _⟩ ⟨_, _, _⟩ _ = _
  rw [hup, hproxied, hw, hp]
  rfl

section Parts

variable (hv : r.voting.accounts.find? a = some v)

include hv

theorem Roll.up_self (h : w.proxy = v.proxy) :
    Function.update r.up a (if w.proxy = "" then none else r.idNamed w.proxy) = r.up := by
  refine Function.update_eq_self_iff.mpr ?_
  rw [up, hv, h]
  rfl

theorem Roll.proxied_self (h : w.proxiedVsfVotes = v.proxiedVsfVotes) :
    Function.update r.proxied a (fun k => (w.proxiedVsfVotes.getD k 0).toInt) = r.proxied := by
  refine Function.update_eq_self_iff.mpr ?_
  funext k
  rw [proxied, hv, h]
  rfl

theorem Roll.witnessesHeld_self (h : w.witnessesVotedFor = v.witnessesVotedFor) :
    Function.update r.witnesses.held a (some w.witnessesVotedFor.toNat) = r.witnesses.held := by
  refine Function.update_eq_self_iff.mpr ?_
  simp only [witnesses, hv, h, Option.map_some]

theorem Roll.platformsHeld_self (h : w.streamingPlatformsVotedFor = v.streamingPlatformsVotedFor) :
    Function.update r.platforms.held a (some w.streamingPlatformsVotedFor.toNat) =
      r.platforms.held := by
  refine Function.update_eq_self_iff.mpr ?_
  simp only [platforms, hv, h, Option.map_some]

end Parts

/-- The roll with other tallies of the witnesses. -/
def Roll.withWitnesses (r : Roll) (x : FlatMap Nat ShareType) : Roll :=
  { r with voting := { r.voting with witnesses := x } }

/-- The roll with other tallies of the platforms. -/
def Roll.withPlatforms (r : Roll) (x : FlatMap StreamingPlatformId ShareType) : Roll :=
  { r with voting := { r.voting with platforms := x } }

theorem Roll.Registered.withWitnesses (h : r.Registered) (x : FlatMap Nat ShareType) :
    (r.withWitnesses x).Registered := ⟨h.distinct, h.linked, h.slots⟩

theorem Roll.Registered.withPlatforms (h : r.Registered)
    (x : FlatMap StreamingPlatformId ShareType) : (r.withPlatforms x).Registered :=
  ⟨h.distinct, h.linked, h.slots⟩

/-- Overwriting a witness overwrites its tally on the roll. -/
theorem roll_witness_update (s : Database) (w : Nat) (x : WitnessObject) :
    ({ s with witnesses := s.witnesses.update w fun _ => x } : Database).roll =
      s.roll.withWitnesses (s.voting.witnesses.update w fun _ => x.votes) := by
  show s.roll.withWitnesses ((s.witnesses.objs.update w fun _ => x).mapVals WitnessObject.votes) = _
  rw [FlatMap.mapVals_update]
  rfl

/-- Overwriting a platform, with its owner kept, overwrites its tally on the roll. -/
theorem roll_platform_update (s : Database) (p : Nat) (x : StreamingPlatformObject) :
    ({ s with platforms := s.platforms.update p fun _ => x } : Database).roll =
      s.roll.withPlatforms (s.voting.platforms.update p fun _ => x.votes) := by
  show s.roll.withPlatforms
    ((s.platforms.objs.update p fun _ => x).mapVals StreamingPlatformObject.votes) = _
  rw [FlatMap.mapVals_update]
  rfl

theorem runs_adjustWitnessVote {w : Nat} {d : ShareType} {s' : Database} {u : Unit}
    (h : Runs (adjustWitnessVote w d) s u s') :
    ∃ x y, s.roll.voting.witnesses.find? w = some x ∧ y.toInt = x.toInt + d.toInt ∧
      s'.roll = s.roll.withWitnesses (s.roll.voting.witnesses.update w fun _ => y) := by
  simp only [adjustWitnessVote, runs_bind_reads, Table.runs_modify, except_bind_ok, except_pure_ok,
    safeAdd_ok] at h
  obtain ⟨x, _, hx, ⟨y, hy, _, -, _, -, rfl⟩, rfl⟩ := h
  refine ⟨x.votes, y, ?_, hy, roll_witness_update _ _ _⟩
  exact (FlatMap.find?_mapVals ..).trans (Option.map_eq_some_iff.mpr ⟨x, hx, rfl⟩)

theorem runs_adjustStreamingPlatformVote {p : Nat} {d : ShareType} {s' : Database} {u : Unit}
    (h : Runs (adjustStreamingPlatformVote p d) s u s') :
    ∃ x y, s.roll.voting.platforms.find? p = some x ∧ y.toInt = x.toInt + d.toInt ∧
      s'.roll = s.roll.withPlatforms (s.roll.voting.platforms.update p fun _ => y) := by
  simp only [adjustStreamingPlatformVote, runs_bind_reads, modifyPlatformInfo, Table.runs_modify,
    except_map_ok, except_bind_ok, except_pure_ok, safeAdd_ok] at h
  obtain ⟨x, _, hx, ⟨_, ⟨y, hy, _, -, rfl⟩, rfl⟩, rfl⟩ := h
  refine ⟨x.votes, y, ?_, hy, roll_platform_update _ _ _⟩
  exact (FlatMap.find?_mapVals ..).trans (Option.map_eq_some_iff.mpr ⟨x, hx, rfl⟩)

end Changes

/-! ## Telling the candidates -/

section Candidates

variable {s s' : Database} {a : AccountId} {d : ShareType}

/-- The sum over the entries of a range is the sum over those of the index that are in the range. -/
theorem sum_rangeBy {α : Type} (ix : ObjectIndex α) (p : α → Bool) (key : α → Nat) (f : α → ℤ) :
    ((((ix.entries.filter fun e => p e.2).insertionSort fun a b => key a.2 ≤ key b.2).map
      fun e => (⟨e.1, e.2⟩ : Entry α)).map fun e => f e.val).sum =
      ix.sum fun _ v => if p v then f v else 0 := by
  have hperm := List.perm_insertionSort (fun a b : Nat × α => key a.2 ≤ key b.2)
    (ix.entries.filter fun e => p e.2)
  rw [List.map_map, (hperm.map _).sum_eq]
  simp only [ObjectIndex.sum, FlatMap.sum, ObjectIndex.entries]
  induction ix.objs.entries with
  | nil => rfl
  | cons e l ih =>
      rw [List.map_cons, List.sum_cons, ← ih, List.filter_cons]
      split
      · rfl
      · exact (zero_add _).symm

/-- A loop that adds `d` to the tally of one candidate after the other. `g` and `p` say which
election it is. -/
theorem forM_tally {α : Type} {f : α → DbM Unit} {candidate : α → Nat}
    {g : Roll → FlatMap Nat ShareType} {p : Roll → FlatMap Nat ShareType → Roll}
    (hself : ∀ r, p r (g r) = r) (hget : ∀ r x, g (p r x) = x)
    (hput : ∀ r x y, p (p r x) y = p r y)
    (hf : ∀ e t t', Runs (f e) t () t' → ∃ x y, (g t.roll).find? (candidate e) = some x ∧
      y.toInt = x.toInt + d.toInt ∧
      t'.roll = p t.roll ((g t.roll).update (candidate e) fun _ => y))
    {l : List α} (h : Runs (l.forM f) s () s') :
    ∃ x, s'.roll = p s.roll x ∧ ∀ c, (x.find? c).map Int64.toInt =
      ((g s.roll).find? c).map fun n => n.toInt +
        (l.map fun e => if candidate e = c then d.toInt else 0).sum := by
  induction l generalizing s with
  | nil =>
      obtain ⟨-, rfl⟩ := runs_pure.mp h
      refine ⟨g s'.roll, (hself _).symm, fun c => ?_⟩
      simp only [List.map_nil, List.sum_nil, add_zero]
  | cons e l ih =>
      obtain ⟨⟨⟩, t, h1, h2⟩ := runs_bind.mp h
      obtain ⟨n, m, hn, hm, ht⟩ := hf e s t h1
      obtain ⟨x, hx, hsum⟩ := ih h2
      rw [ht, hput] at hx
      refine ⟨x, hx, fun c => ?_⟩
      rw [hsum, ht, hget, FlatMap.find?_update, List.map_cons, List.sum_cons]
      split
      case isTrue hc =>
        subst hc
        rw [hn, Option.map_some, Option.map_some, Option.map_some, hm, if_pos rfl, add_assoc]
      case isFalse hc => simp only [if_neg (Ne.symm hc), zero_add]

/-- Tallies that have grown by what the votes of `a` add up to. -/
theorem votes_eq_gain {b : Ballot AccountId Nat} {x y : FlatMap Nat ShareType} {n : ℤ}
    {f : Nat → ℤ} (hb : b.votes = fun c => (y.find? c).map Int64.toInt)
    (hx : ∀ c, (x.find? c).map Int64.toInt = (y.find? c).map fun m => m.toInt + f c)
    (hf : ∀ c, f c = b.cast.sum fun _ v => if v = (a, c) then n else 0) :
    (fun c => (x.find? c).map Int64.toInt) = (b.gain a n).votes := by
  funext c
  simp only [hx, hf, Ballot.gain, hb, Option.map_map, Function.comp_def]

/-- Every witness an account has voted for gains the same. -/
theorem runs_adjustWitnessVotes (h : Runs (adjustWitnessVotes a d) s () s') :
    (∃ x, s'.roll = s.roll.withWitnesses x) ∧
      s'.standing = { s.standing with witnesses := s.standing.witnesses.gain a d.toInt } := by
  simp only [adjustWitnessVotes, Table.rangeBy, runs_bind_reads] at h
  obtain ⟨x, hx, hsum⟩ := forM_tally (g := fun r => r.voting.witnesses) (p := Roll.withWitnesses)
    (fun _ => rfl) (fun _ _ => rfl) (fun _ _ _ => rfl)
    (fun e t t' ht => runs_adjustWitnessVote ht) h
  refine ⟨⟨x, hx⟩, ?_⟩
  have hvotes := votes_eq_gain (a := a) (b := s.standing.witnesses) (n := d.toInt) rfl hsum
    fun c => by
      rw [sum_rangeBy (witnessVoteIndex.read s) (fun v => v.account = a) (fun v => v.witness)
        fun v => if v.witness = c then d.toInt else 0]
      show _ = (s.witnessVotes.objs.mapVals fun x => (x.account, x.witness)).sum _
      rw [FlatMap.sum_mapVals]
      refine FlatMap.sum_congr fun k v _ => ?_
      by_cases ha : v.account = a <;> by_cases hc : v.witness = c <;> simp [ha, hc]
  rw [Database.standing, hx]
  exact congrArg (fun y => { s.standing with witnesses := { s.standing.witnesses with votes := y } })
    hvotes

/-- Every platform an account has voted for gains the same. -/
theorem runs_adjustStreamingPlatformVotes (h : Runs (adjustStreamingPlatformVotes a d) s () s') :
    (∃ x, s'.roll = s.roll.withPlatforms x) ∧
      s'.standing = { s.standing with platforms := s.standing.platforms.gain a d.toInt } := by
  simp only [adjustStreamingPlatformVotes, Table.rangeBy, runs_bind_reads] at h
  obtain ⟨x, hx, hsum⟩ := forM_tally (g := fun r => r.voting.platforms) (p := Roll.withPlatforms)
    (fun _ => rfl) (fun _ _ => rfl) (fun _ _ _ => rfl)
    (fun e t t' ht => runs_adjustStreamingPlatformVote ht) h
  refine ⟨⟨x, hx⟩, ?_⟩
  have hvotes := votes_eq_gain (a := a) (b := s.standing.platforms) (n := d.toInt) rfl hsum
    fun c => by
      rw [sum_rangeBy (streamingPlatformVoteIndex.read s) (fun v => v.account = a)
        (fun v => v.streamingPlatform) fun v => if v.streamingPlatform = c then d.toInt else 0]
      show _ = (s.platformVotes.objs.mapVals fun x => (x.account, x.streamingPlatform)).sum _
      rw [FlatMap.sum_mapVals]
      refine FlatMap.sum_congr fun k v _ => ?_
      by_cases ha : v.account = a <;> by_cases hc : v.streamingPlatform = c <;> simp [ha, hc]
  rw [Database.standing, hx]
  exact congrArg (fun y => { s.standing with platforms := { s.standing.platforms with votes := y } })
    hvotes

end Candidates

/-! ## Programs beside the roll -/

/-- Names, stakes and votes make up the roll, so it stays when they do. -/
theorem roll_congr {s s' : Database} (hn : s'.names = s.names) (hs : s'.stakes = s.stakes)
    (hv : s'.voting = s.voting) : s'.roll = s.roll := by
  have hholdings : s'.roll.holdings = s.roll.holdings := FlatMap.ext_find? fun k => by
    have hk := congrArg (fun x => (Stakes.accounts x).find? k) hs
    simp only [Database.stakes, FlatMap.find?_mapVals] at hk
    simp only [Database.roll, FlatMap.find?_mapVals]
    have := congrArg (Option.map fun x => x.2.vestingShares.toInt) hk
    rwa [Option.map_map, Option.map_map] at this
  show Roll.mk s'.names.1 s'.roll.holdings s'.voting = Roll.mk s.names.1 s.roll.holdings s.voting
  rw [hn, hholdings, hv]

/-- The concerns that have nothing to do with the roll. -/
abbrev besideRoll : List Concern :=
  [.funds, .listening, .requests, .splits, .pools, .catalogue, .pending, .clock, .rates, .feeds,
    .redelegations, .routes, .finality, .slots, .laps, .orders]

instance (priority := low) {α : Type} (m : DbM α) [h : Within besideRoll m] :
    Respects (Fixing Database.roll) m :=
  ⟨fun hr => roll_congr (h.same (i := .names) (by decide) hr) (h.same (i := .stakes) (by decide) hr)
    (h.same (i := .voting) (by decide) hr)⟩

/-- A change of the stake that keeps the shares leaves the roll alone. -/
instance (id : AccountId) (change : AccountStake → Except Exn AccountStake)
    [hk : Keeps AccountStake.vestingShares change] :
    Respects (Fixing Database.roll) (modifyStake id change) :=
  ⟨fun {s _ s'} hr => by
    obtain ⟨x, p, hx, hp, hroll⟩ := roll_modifyStake hr
    refine hroll.trans (Roll.withShares_self ?_)
    rw [find?_holdings, hx, hk.keeps hp]
    rfl⟩

end BtcmChain
