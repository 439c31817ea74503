import BtcmChain.Sound.Tally

set_option autoImplicit false
set_option synthInstance.maxSize 10000000
set_option synthInstance.maxHeartbeats 200000

/-!
# Elections

New accounts, new candidates, genesis, and with them every run: in every reachable state the
proxies form a forest, the records along it are true, and the tally of a witness is the
weight of the accounts that vote for it.

`Database.InOrder` collects the invariant, with a proposition on which the tallies of platforms
depend. Genesis starts with accounts that vote for nobody (`Database.Fresh`, `Database.Blank`), so
it holds there, and `evaluate_inOrder` has a case for every operation, most of which the footprints
dispatch. The condition on runs (`Move.RootVotes`) asks that accounts vote for platforms only while
they have no proxy; witnesses need no condition. What this means for the figures of the state is
worked out in `Sound.Suffrage`.
-/

namespace BtcmChain

/-! ## New accounts -/

section Register

variable {s s' : Database} {p : Prop} {slack : ℤ} {x : AccountObject}

/-- The voting data that every account starts with: no proxy, no votes, and nothing proxied to it.
-/
def AccountVoting.initial : AccountVoting := ⟨"", [0, 0, 0, 0], 0, 0⟩

/-- The roll with one more account on it, which holds no shares and has not voted. -/
def Roll.register (r : Roll) (id : AccountId) (name : String) : Roll where
  names := r.names.set id name
  holdings := r.holdings.set id 0
  voting := { r.voting with accounts := r.voting.accounts.set id AccountVoting.initial }

theorem roll_create (hx : x.toAccountProfile.voting = AccountVoting.initial)
    (hshares : x.vestingShares = 0) :
    ({ s with accounts := s.accounts.create x } : Database).roll =
      s.roll.register s.accounts.nextId x.name := by
  have hnames := FlatMap.mapVals_set s.accounts.objs s.accounts.nextId x AccountObject.name
  have hholdings := FlatMap.mapVals_set s.accounts.objs s.accounts.nextId x
    fun a => a.vestingShares.toInt
  have hvoting := FlatMap.mapVals_set s.accounts.objs s.accounts.nextId x
    fun a => a.toAccountProfile.voting
  simp only [hx, hshares, Int64.toInt_zero] at hholdings hvoting
  show Roll.mk ((s.accounts.objs.set _ x).mapVals _) ((s.accounts.objs.set _ x).mapVals _)
    { s.voting with accounts := (s.accounts.objs.set _ x).mapVals _ } = _
  rw [hnames, hholdings, hvoting]
  rfl

variable {r : Roll} {id : AccountId} {name : String}

theorem Roll.Registered.register (h : r.Registered)
    (hid : r.names.find? id = none) (hfree : ∀ i, r.names.find? i ≠ some name) :
    (r.register id name).Registered where
  distinct i j n hi hj := by
    simp only [Roll.register, FlatMap.find?_set] at hi hj
    split at hi <;> split at hj
    case isTrue.isTrue h1 h2 => exact h1.trans h2.symm
    case isTrue.isFalse => exact absurd (hi ▸ hj) (hfree j)
    case isFalse.isTrue => exact absurd (hj ▸ hi) (hfree i)
    case isFalse.isFalse => exact h.distinct hi hj
  linked a v hv hp := by
    simp only [Roll.register, FlatMap.find?_set] at hv ⊢
    split at hv
    · obtain rfl := Option.some.inj hv
      exact absurd rfl hp
    · obtain ⟨b, hb⟩ := h.linked hv hp
      refine ⟨b, ?_⟩
      rw [if_neg, hb]
      rintro rfl
      rw [hid] at hb
      cases hb
  slots a v hv := by
    simp only [Roll.register, FlatMap.find?_set] at hv
    split at hv
    · obtain rfl := Option.some.inj hv
      rfl
    · exact h.slots hv

/-- A new account changes nothing but that there is one more that could vote. -/
theorem Roll.Registered.standing_register (h : r.Registered)
    (hid : r.names.find? id = none) (hvoting : r.voting.accounts.find? id = none)
    (hholdings : r.holdings.find? id = none) (hfree : ∀ i, r.names.find? i ≠ some name) :
    (r.register id name).standing = { r.standing with
      witnesses := { r.witnesses with held := Function.update r.witnesses.held id (some 0) }
      platforms := { r.platforms with held := Function.update r.platforms.held id (some 0) } } := by
  have hreg := h.register hid hfree
  have hfind : ∀ y, (r.register id name).voting.accounts.find? y =
      if y = id then some AccountVoting.initial else r.voting.accounts.find? y :=
    fun y => FlatMap.find?_set ..
  have hup : (r.register id name).up = r.up := by
    funext y
    by_cases hy : y = id
    · subst hy
      rw [Roll.up_eq_none ((hfind y).trans (if_pos rfl)) rfl, Roll.up, hvoting]
      rfl
    · have hsame := (hfind y).trans (if_neg hy)
      cases hv : r.voting.accounts.find? y with
      | none => rw [Roll.up, Roll.up, hsame, hv]; rfl
      | some v =>
          rw [hv] at hsame
          by_cases hp : v.proxy = ""
          · rw [Roll.up_eq_none hsame hp, Roll.up_eq_none hv hp]
          · obtain ⟨b, hb⟩ := h.linked hv hp
            have hb' : (r.register id name).names.find? b = some v.proxy := by
              rw [Roll.register, FlatMap.find?_set, if_neg, hb]
              rintro rfl
              rw [hid] at hb
              cases hb
            rw [Roll.up_of_ne hsame hp, Roll.up_of_ne hv hp, hreg.idNamed_eq hb', h.idNamed_eq hb]
  have hproxied : (r.register id name).proxied = r.proxied := by
    funext y k
    rw [Roll.proxied, Roll.proxied, hfind]
    split
    case isTrue hy =>
      rw [hy, hvoting]
      rcases k with _ | _ | _ | _ | k <;> rfl
    case isFalse => rfl
  have hheld {β : Type} (f : AccountVoting → β) :
      (fun y => ((r.register id name).voting.accounts.find? y).map f) =
        Function.update (fun y => (r.voting.accounts.find? y).map f) id
          (some (f AccountVoting.initial)) := by
    funext y
    rw [hfind, Function.update_apply]
    split <;> rfl
  have hw := hheld fun v => v.witnessesVotedFor.toNat
  have hp := hheld fun v => v.streamingPlatformsVotedFor.toNat
  show Standing.mk (r.register id name).up (FlatMap.weights (r.holdings.set id 0))
    (r.register id name).proxied ⟨_, _, _⟩ ⟨_, _, _⟩ _ = _
  rw [hup, hproxied, FlatMap.weights_set_zero hholdings, hw, hp]
  rfl

/-- A new account keeps all tallies in order, since it has no shares to vote with. -/
theorem Database.Tallied.createAccount (h : s.Tallied p slack)
    (hx : x.toAccountProfile.voting = AccountVoting.initial) (hshares : x.vestingShares = 0)
    (hfree : s.accounts.any (fun b => x.name = b.name) = false)
    (hs' : s' = { s with accounts := s.accounts.create x }) :
    s'.Tallied p slack ∧ s'.standing.up = s.standing.up ∧
      s'.standing.witnesses.cast = s.standing.witnesses.cast ∧
      s'.standing.platforms.cast = s.standing.platforms.cast := by
  subst hs'
  have hid : s.accounts.find? s.accounts.nextId = none := ObjectIndex.find?_nextId _
  have hname : ∀ i, s.roll.names.find? i ≠ some x.name := by
    intro i hi
    rw [find?_names] at hi
    obtain ⟨b, hb, hbx⟩ := Option.map_eq_some_iff.mp hi
    have hnone := Option.isNone_iff_eq_none.mp (Option.isSome_eq_false_iff.mp hfree)
    have hne := ObjectIndex.findBy?_eq_none.mp hnone i b hb
    exact absurd hbx.symm (of_decide_eq_false hne)
  have hnames : s.roll.names.find? s.accounts.nextId = none := by rw [find?_names, hid]; rfl
  have hvoting : s.roll.voting.accounts.find? s.accounts.nextId = none := by
    rw [find?_voting, hid]
    rfl
  have hroll := roll_create (s := s) hx hshares
  have hst := h.1.standing_register hnames hvoting (by rw [find?_holdings, hid]; rfl) hname
  unfold Tallied Database.standing
  rw [hroll, hst]
  have hheld {f : AccountVoting → ℕ} :
      (fun a => (s.roll.voting.accounts.find? a).map f) s.accounts.nextId = none := by
    show (s.roll.voting.accounts.find? _).map f = none
    rw [hvoting]
    rfl
  refine ⟨⟨h.1.register hnames hname, h.2.acyclic, h.2.records, h.2.total,
    h.2.witnesses.register hheld, fun hp => (h.2.platforms hp).register hheld⟩, rfl, rfl, rfl⟩

end Register

/-! ## New candidates -/

section Candidates

variable {s s' : Database} {p : Prop} {slack : ℤ}

/-- A new tally starts at zero, in the map of tallies as on the ballot. -/
theorem votes_set {m : FlatMap Nat ShareType} {w : Nat} :
    (fun c => ((m.set w 0).find? c).map Int64.toInt) =
      Function.update (fun c => (m.find? c).map Int64.toInt) w (some 0) := by
  funext c
  rw [FlatMap.find?_set, Function.update_apply]
  split <;> rfl

theorem Database.Tallied.createWitness {x : WitnessObject} (h : s.Tallied p slack)
    (hx : x.votes = 0) (hs' : s' = { s with witnesses := s.witnesses.create x }) :
    s'.Tallied p slack ∧ s'.standing.up = s.standing.up ∧
      s'.standing.witnesses.cast = s.standing.witnesses.cast ∧
      s'.standing.platforms.cast = s.standing.platforms.cast := by
  subst hs'
  have hset := FlatMap.mapVals_set s.witnesses.objs s.witnesses.nextId x WitnessObject.votes
  rw [hx] at hset
  have hnone : s.standing.witnesses.votes s.witnesses.nextId = none := by
    show ((s.witnesses.objs.mapVals WitnessObject.votes).find? _).map _ = none
    rw [FlatMap.find?_mapVals, ObjectIndex.find?_nextId]
    rfl
  have hst : ({ s with witnesses := s.witnesses.create x } : Database).standing =
      { s.standing with witnesses := { s.standing.witnesses with
        votes := Function.update s.standing.witnesses.votes s.witnesses.nextId (some 0) } } := by
    rw [← show _ = Function.update s.standing.witnesses.votes _ _ from
      votes_set (m := s.voting.witnesses) (w := s.witnesses.nextId)]
    exact congrArg (fun m => { s.standing with witnesses := { s.standing.witnesses with
      votes := fun c => (FlatMap.find? m c).map Int64.toInt } }) hset
  refine ⟨⟨⟨h.1.distinct, h.1.linked, h.1.slots⟩, hst ▸ ⟨h.2.acyclic, h.2.records, h.2.total,
    h.2.witnesses.stand hnone, h.2.platforms⟩⟩, rfl, rfl, rfl⟩

theorem Database.Tallied.createPlatform {x : StreamingPlatformObject} (h : s.Tallied p slack)
    (hx : x.votes = 0) (hs' : s' = { s with platforms := s.platforms.create x }) :
    s'.Tallied p slack := by
  subst hs'
  have hset := FlatMap.mapVals_set s.platforms.objs s.platforms.nextId x StreamingPlatformObject.votes
  rw [hx] at hset
  have hnone : s.standing.platforms.votes s.platforms.nextId = none := by
    show ((s.platforms.objs.mapVals StreamingPlatformObject.votes).find? _).map _ = none
    rw [FlatMap.find?_mapVals, ObjectIndex.find?_nextId]
    rfl
  have hst : ({ s with platforms := s.platforms.create x } : Database).standing =
      { s.standing with platforms := { s.standing.platforms with
        votes := Function.update s.standing.platforms.votes s.platforms.nextId (some 0) } } := by
    rw [← show _ = Function.update s.standing.platforms.votes _ _ from
      votes_set (m := s.voting.platforms) (w := s.platforms.nextId)]
    exact congrArg (fun m => { s.standing with platforms := { s.standing.platforms with
      votes := fun c => (FlatMap.find? m c).map Int64.toInt } }) hset
  exact ⟨⟨h.1.distinct, h.1.linked, h.1.slots⟩, hst ▸ ⟨h.2.acyclic, h.2.records, h.2.total,
    h.2.witnesses, fun hp => (h.2.platforms hp).stand hnone⟩⟩

end Candidates

/-! ## Operations and blocks -/

section Programs

variable {s s' : Database} {p : Prop}

/-- Everything in order: records and tallies are true, and routes take at most everything. -/
def Database.InOrder (p : Prop) (s : Database) : Prop := s.Tallied p 0 ∧ RoutesBounded s

/-- All concerns but the routes of withdrawals. -/
abbrev besideRoutes : List Concern :=
  [.funds, .stakes, .listening, .requests, .splits, .pools, .catalogue, .pending, .names, .clock,
    .rates, .feeds, .voting, .redelegations, .finality, .slots, .laps, .orders]

theorem RoutesBounded.congr (h : RoutesBounded s) (hr : s'.withdrawRoutes = s.withdrawRoutes) :
    RoutesBounded s' := by
  unfold RoutesBounded
  rw [hr]
  exact h

theorem inOrder_of_fixing {α : Type} {m : DbM α} [h : Respects (Fixing Database.roll) m]
    [h' : Within besideRoutes m] {x : α} (hs : s.InOrder p) (hr : Runs m s x s') : s'.InOrder p :=
  ⟨hs.1.congr (h.rel hr), hs.2.congr (h'.same (i := .routes) (by decide) hr)⟩

instance (priority := low) {α : Type} (m : DbM α) [Respects (Fixing Database.roll) m]
    [Within besideRoutes m] : Respects (Holding (Database.InOrder p)) m :=
  ⟨fun hr hs => inOrder_of_fixing hs hr⟩

instance (a : AccountId) (x : Asset) : Respects (Holding (Database.InOrder p)) (createVesting a x) :=
  ⟨fun hr hs => ⟨hs.1.createVesting hr, hs.2.congr (Writes.routes_eq hr (by decide))⟩⟩

instance (a : AccountId) : Respects (Holding (Database.InOrder p)) (withdrawFrom a) :=
  ⟨fun hr hs => ⟨hs.1.withdrawFrom hs.2 hr, hs.2.congr (Writes.routes_eq hr (by decide))⟩⟩

instance : contentIndex.Beside (Holding (Database.InOrder p)) := ⟨fun _ _ h => h⟩
instance : reportIndex.Beside (Holding (Database.InOrder p)) := ⟨fun _ _ h => h⟩

/-! Delegations have nothing to do with elections. -/

instance (d : ShareType) : Respects (Fixing Database.roll) (adjustTotalVestedByPlatforms d) :=
  ⟨fun hr => by
    obtain ⟨_, -, rfl⟩ := runs_adjustTotalVestedByPlatforms.mp hr
    rfl⟩

instance : vestingDelegationIndex.Beside (Fixing Database.roll) := ⟨fun _ _ => rfl⟩
instance : vestingDelegationExpirationIndex.Beside (Fixing Database.roll) := ⟨fun _ _ => rfl⟩

instance (e : Entry VestingDelegationExpirationObject) :
    Respects (Fixing Database.roll) (returnDelegation e) := by
  unfold returnDelegation
  infer_instance

instance : Respects (Fixing Database.roll) clearExpiredDelegations := by
  unfold clearExpiredDelegations
  infer_instance

instance (a b : String) (x : Asset) :
    Respects (Fixing Database.roll) (delegateVestingSharesEvaluator a b x) := by
  unfold delegateVestingSharesEvaluator increaseDelegation decreaseDelegation bookPlatformDelta
    adjustDelegated adjustReceived
  infer_instance

instance (a : String) (x : Asset) :
    Respects (Fixing Database.roll) (withdrawVestingEvaluator a x) := by
  unfold withdrawVestingEvaluator AccountStake.startWithdrawal
  infer_instance

instance (f t : String) (x : Asset) :
    Respects (Holding (Database.InOrder p)) (transferToVestingEvaluator f t x) := by
  unfold transferToVestingEvaluator
  infer_instance

instance (o : ContentUpdateOperation) :
    Respects (Holding (Database.InOrder p)) (contentUpdateEvaluator o) := by
  unfold contentUpdateEvaluator
  infer_instance

instance (a b : String) (c : Bool) :
    Respects (Holding (Database.InOrder p)) (challengeAuthorityEvaluator a b c) := by
  unfold challengeAuthorityEvaluator
  infer_instance

instance : Respects (Holding (Database.InOrder p)) settleBlock := by
  unfold settleBlock
  infer_instance

/-- `account_create_evaluator` keeps the state in order. -/
theorem Database.InOrder.accountCreate [Externals] {o : AccountCreateOperation} (h : s.InOrder p)
    (hr : Runs (accountCreateEvaluator o) s () s') : s'.InOrder p := by
  have hroutes := h.2.congr (Writes.routes_eq hr (by decide))
  obtain ⟨creator, t, u, a, -, -, hdebit, rfl, hfree, hu, hend⟩ := runs_accountCreateEvaluator hr
  have ht : t.Tallied p 0 := (inOrder_of_fixing h hdebit).1
  obtain ⟨hu, -⟩ := ht.createAccount rfl rfl hfree hu
  rcases hend with ⟨-, _, hvest⟩ | ⟨-, rfl⟩
  · exact ⟨hu.createVesting hvest, hroutes⟩
  · exact ⟨hu, hroutes⟩

/-- `account_create_with_delegation_evaluator` keeps the state in order, and delegated shares do not
vote. -/
theorem Database.InOrder.accountCreateWithDelegation {o : AccountCreateWithDelegationOperation}
    (h : s.InOrder p) (hr : Runs (accountCreateWithDelegationEvaluator o) s () s') :
    s'.InOrder p := by
  have hroutes := h.2.congr (Writes.routes_eq hr (by decide))
  obtain ⟨creator, t, t1, t2, u, a, d, -, -, -, -, hdebit, hstake, rfl, hfree, ht2, hu, hend⟩ :=
    runs_accountCreateWithDelegationEvaluator hr
  have ht : t.Tallied p 0 := (inOrder_of_fixing h hdebit).1
  have hfix : t1.roll = t.roll := Respects.rel (R := Fixing Database.roll) hstake
  obtain ⟨ht2, -⟩ := (ht.congr hfix).createAccount rfl rfl hfree ht2
  have hu : u.Tallied p 0 := by
    rcases hu with ⟨-, rfl⟩ | ⟨-, rfl⟩
    · exact ht2
    · exact ht2
  rcases hend with ⟨-, _, hvest⟩ | ⟨-, rfl⟩
  · exact ⟨hu.createVesting hvest, hroutes⟩
  · exact ⟨hu, hroutes⟩

/-- `witness_update_evaluator` keeps the state in order: a new witness starts without votes. -/
theorem Database.InOrder.witnessUpdate {o : WitnessUpdateOperation} (h : s.InOrder p)
    (hr : Runs (witnessUpdateEvaluator o) s () s') : s'.InOrder p := by
  have hroutes := h.2.congr (Writes.routes_eq hr (by decide))
  simp only [witnessUpdateEvaluator, runs_bind_getAccount, runs_bind_require, runs_bind_findBy?,
    runs_bind_headBlockTime] at hr
  obtain ⟨_, -, -, hr⟩ := hr
  generalize ObjectIndex.findBy? _ _ = found at hr
  cases found with
  | none =>
      simp only [Option.map_none, Option.elim_none, runs_bind_create, runs_pure] at hr
      exact ⟨(h.1.createWitness rfl hr.2.2).1, hroutes⟩
  | some w =>
      simp only [Option.map_some, Option.elim_some, Table.runs_modify] at hr
      obtain ⟨x, _, hx, hy, rfl⟩ := hr
      cases hy
      refine ⟨h.1.congr ((roll_witness_update ..).trans ?_), hroutes⟩
      have hx : s.voting.witnesses.find? w.1 = some x.votes :=
        (FlatMap.find?_mapVals ..).trans (Option.map_eq_some_iff.mpr ⟨x, hx, rfl⟩)
      have hsame : (s.voting.witnesses.update w.1 fun _ => x.votes) = s.voting.witnesses :=
        FlatMap.ext_find? fun k => by
          rw [FlatMap.find?_update]
          split
          case isTrue hk => rw [hk, hx]; rfl
          case isFalse => rfl
      show s.roll.withWitnesses (s.voting.witnesses.update w.1 fun _ => x.votes) = _
      rw [hsame]
      rfl

/-- `streaming_platform_update_evaluator` keeps the state in order: a new platform starts without
votes. -/
theorem Database.InOrder.platformUpdate {owner url : String} {fee : Asset} (h : s.InOrder p)
    (hr : Runs (streamingPlatformUpdateEvaluator owner url fee) s () s') : s'.InOrder p := by
  have hroutes := h.2.congr (Writes.routes_eq hr (by decide))
  obtain ⟨acct, -, -, -, ⟨-, hsame, -⟩ | ⟨-, x, t, u, vested, rfl, ht, hfee, -, hbook⟩⟩ :=
    runs_streamingPlatformUpdateEvaluator hr
  · exact ⟨h.1.congr (roll_congr (hsame .names) (hsame .stakes) (hsame .voting)), hroutes⟩
  · have hfix : u.roll = t.roll := Respects.rel (R := Fixing Database.roll) hfee
    have hfix' : s'.roll = u.roll := by
      rcases runs_ite.mp hbook with ⟨-, hbook⟩ | ⟨-, hbook⟩
      · exact Respects.rel (R := Fixing Database.roll) hbook
      · rw [(runs_pure.mp hbook).2]
    exact ⟨((h.1.createPlatform rfl ht).congr hfix).congr hfix', hroutes⟩

/-- `set_withdraw_vesting_route_evaluator` keeps the state in order, when the percentage is one. -/
theorem Database.InOrder.setRoute {f t : String} {percent : UInt16} {auto : Bool}
    (hp : percent ≤ 10000) (h : s.InOrder p)
    (hr : Runs (setWithdrawVestingRouteEvaluator f t percent auto) s () s') : s'.InOrder p := by
  have hroll : s'.roll = s.roll := Respects.rel (R := Fixing Database.roll) hr
  refine ⟨h.1.congr hroll, ?_⟩
  have hp : percent.toNat ≤ 10000 := hp
  simp only [setWithdrawVestingRouteEvaluator, runs_bind_getAccount, runs_bind_findBy?] at hr
  obtain ⟨from_, -, to_, -, hr⟩ := hr
  obtain ⟨_, u, hr, hend⟩ := runs_bind.mp hr
  have hsame : s'.withdrawRoutes = u.withdrawRoutes := by
    obtain ⟨l, u', hl, hend⟩ := runs_bind.mp hend
    rw [(runs_require.mp hend).2, (mem_rangeBy hl).1]
  refine RoutesBounded.congr (s := u) ?_ hsame
  generalize ObjectIndex.findBy? _ _ = found at hr
  cases found with
  | none =>
      simp only [Option.map_none, Option.elim_none, runs_bind_require, runs_bind_create] at hr
      obtain ⟨-, -, -, hr⟩ := hr
      refine RoutesBounded.congr ?_ (Writes.routes_eq hr (by decide))
      intro id r hid
      have hid : (s.withdrawRoutes.create _).find? id = some r := hid
      rw [ObjectIndex.find?_create] at hid
      split at hid
      · obtain rfl := Option.some.inj hid
        exact hp
      · exact h.2 id r hid
  | some e =>
      simp only [Option.map_some, Option.elim_some] at hr
      rcases runs_ite.mp hr with ⟨-, hr⟩ | ⟨-, hr⟩
      · obtain ⟨_, v, h1, h2⟩ := runs_bind.mp hr
        refine RoutesBounded.congr ?_ (Writes.routes_eq h2 (by decide))
        obtain rfl := Table.runs_remove.mp h1
        intro id r hid
        have hid : (s.withdrawRoutes.remove _).find? id = some r := hid
        rw [ObjectIndex.find?_remove] at hid
        split at hid
        · cases hid
        · exact h.2 id r hid
      · obtain ⟨x, _, hx, hy, rfl⟩ := Table.runs_modify.mp hr
        cases hy
        intro id r hid
        have hid : (s.withdrawRoutes.update _ _).find? id = some r := hid
        rw [ObjectIndex.find?_update] at hid
        split at hid
        · obtain ⟨_, -, rfl⟩ := Option.map_eq_some_iff.mp hid
          exact hp
        · exact h.2 id r hid

end Programs

/-! ## Genesis -/

section Genesis

variable {s s' : Database}

/-- The state while genesis is built: nobody has a proxy, nobody has voted. -/
structure Database.Fresh (s : Database) : Prop where
  tallied : s.Tallied True 0
  roots : ∀ a, s.standing.up a = none
  noWitnessVotes : ∀ k, s.standing.witnesses.cast.find? k = none
  noPlatformVotes : ∀ k, s.standing.platforms.cast.find? k = none

theorem Database.Fresh.congr (h : s.Fresh) (hr : s'.roll = s.roll) : s'.Fresh := by
  obtain ⟨h1, h2, h3, h4⟩ := h
  refine ⟨h1.congr hr, ?_, ?_, ?_⟩
  all_goals
    unfold Database.standing
    rw [hr]
    assumption

instance (priority := low) {α : Type} (m : DbM α) [h : Respects (Fixing Database.roll) m] :
    Respects (Holding Database.Fresh) m :=
  ⟨fun hr hs => hs.congr (h.rel hr)⟩

theorem Database.Fresh.createAccount (h : s.Fresh) {x : AccountObject}
    (hx : x.toAccountProfile.voting = AccountVoting.initial) (hshares : x.vestingShares = 0)
    (hfree : s.accounts.any (fun b => x.name = b.name) = false) :
    Database.Fresh { s with accounts := s.accounts.create x } := by
  obtain ⟨ht, hup, hw, hp⟩ := h.tallied.createAccount hx hshares hfree rfl
  exact ⟨ht, fun a => hup ▸ h.roots a, fun k => hw ▸ h.noWitnessVotes k,
    fun k => hp ▸ h.noPlatformVotes k⟩

theorem Database.Fresh.createWitness (h : s.Fresh) {x : WitnessObject} (hx : x.votes = 0) :
    Database.Fresh { s with witnesses := s.witnesses.create x } := by
  obtain ⟨ht, hup, hw, hp⟩ := h.tallied.createWitness hx rfl
  exact ⟨ht, fun a => hup ▸ h.roots a, fun k => hw ▸ h.noWitnessVotes k,
    fun k => hp ▸ h.noPlatformVotes k⟩

/-- Where nobody has voted, nothing is gained by anybody's shares. -/
theorem Ballot.gain_of_empty {κ : Type} [DecidableEq κ] {b : Ballot AccountId κ}
    (h : ∀ k, b.cast.find? k = none) (a : AccountId) (d : ℤ) : b.gain a d = b := by
  have hvotes : (b.gain a d).votes = b.votes := by
    funext c
    have hzero : (b.cast.sum fun _ v => if v = (a, c) then d else 0) = 0 :=
      FlatMap.sum_eq_zero fun k v hk => by rw [h k] at hk; cases hk
    simp only [Ballot.gain, hzero, add_zero, Option.map_id']
  show Ballot.mk (b.gain a d).votes b.cast b.held = b
  rw [hvotes]

/-- An initial vesting balance keeps a state fresh: shares are held, and nobody has voted. -/
theorem Database.Fresh.importVesting (h : s.Fresh) {v : InitialVestingBalance}
    (hr : Runs (importVesting v) s () s') : s'.Fresh := by
  obtain ⟨_, t, h1, h2⟩ := runs_bind.mp hr
  obtain ⟨acct, k, hacct, hk, hroll⟩ := roll_modifyStake h1
  simp only [except_bind_ok, except_pure_ok, safeAdd_ok] at hk
  obtain ⟨x, hx, rfl⟩ := hk
  obtain ⟨q, hq, hroll'⟩ := roll_modifySupply h2
  simp only [except_bind_ok, except_pure_ok, safeAdd_ok] at hq
  obtain ⟨y, hy, rfl⟩ := hq
  have htotal : t.dgpo.totalVestingShares = s.dgpo.totalVestingShares :=
    congrArg (fun r => r.voting.total) hroll
  have hfind : s.roll.holdings.find? v.owner = some acct.vestingShares.toInt := by
    rw [find?_holdings, hacct]
    rfl
  have hst : s'.standing = { s.standing with
      shares := s.standing.shares + Finsupp.single v.owner v.amount.toInt
      total := y.toInt } := by
    have hshares := Roll.standing_withShares (m := x.toInt) hfind
    rw [hx, add_sub_cancel_left] at hshares
    rw [Database.standing, hroll', hroll, hx]
    exact congrArg (fun z => { z with total := y.toInt }) hshares
  have hroots : ∀ a, s'.standing.up a = none := hst ▸ h.roots
  have hwitness : ∀ k, s'.standing.witnesses.cast.find? k = none := hst ▸ h.noWitnessVotes
  have hplatform : ∀ k, s'.standing.platforms.cast.find? k = none := hst ▸ h.noPlatformVotes
  have hsound := h.tallied.2.vest v.owner v.amount.toInt y.toInt
  rw [← hst, Standing.raise_of_root (hroots v.owner), Ballot.gain_of_empty hwitness,
    Ballot.gain_of_empty hplatform] at hsound
  have hslack : 0 + (y.toInt - s.standing.total) - v.amount.toInt = 0 := by
    show 0 + (y.toInt - s.dgpo.totalVestingShares.toInt) - v.amount.toInt = 0
    rw [hy, htotal]
    omega
  rw [hslack] at hsound
  have hreg : s'.roll.Registered := by
    rw [hroll', hroll]
    exact ⟨h.tallied.1.distinct, h.tallied.1.linked, h.tallied.1.slots⟩
  exact ⟨⟨hreg, hsound⟩, hroots, hwitness, hplatform⟩

instance (v : InitialVestingBalance) : Respects (Holding Database.Fresh) (importVesting v) :=
  ⟨fun hr hs => hs.importVesting hr⟩

/-- An initial account is created without a fee, which keeps a state fresh. -/
instance [Externals] (a : InitialAccount) :
    Respects (Holding Database.Fresh) (accountCreateEvaluator a.operation) :=
  ⟨fun hr hs => by
    obtain ⟨creator, t, u, x, -, -, hdebit, rfl, hfree, rfl, hend⟩ := runs_accountCreateEvaluator hr
    have ht : t.Fresh := Respects.rel (R := Holding Database.Fresh) hdebit hs
    rcases hend with ⟨hpos, -⟩ | ⟨-, rfl⟩
    · have hzero : (0 : ℤ) < Int64.toInt 0 := hpos
      exact absurd hzero (by decide)
    · exact ht.createAccount rfl rfl hfree⟩

theorem empty_fresh : ({} : Database).Fresh := by
  have hcast {κ : Type} [DecidableEq κ] {b : Ballot AccountId κ} (hvotes : ∀ c, b.votes c = none)
      (hcast : ∀ k, b.cast.find? k = none) (hheld : ∀ a, b.held a = none)
      (up : AccountId → Option AccountId) (weight : AccountId → ℤ) : b.Fits 30 up weight := by
    refine ⟨fun c n hn => ?_, fun k v hk => ?_, fun j k v hj => ?_, fun a m hm => ?_⟩
    · rw [hvotes] at hn
      cases hn
    · rw [hcast] at hk
      cases hk
    · rw [hcast] at hj
      cases hj
    · rw [hheld] at hm
      cases hm
  have hshares : ({} : Database).standing.shares = 0 := rfl
  have hup : ∀ a, ({} : Database).standing.up a = none := fun _ => rfl
  refine ⟨⟨⟨nofun, nofun, nofun⟩, ⟨fun a k h => ?_, fun a k _ => ?_, ?_, ?_, fun _ => ?_⟩⟩, hup,
    fun _ => rfl, fun _ => rfl⟩
  · rw [above_succ_of_none (hup a)] at h
    cases h
  · rw [hshares, below, Finsupp.sum_zero_index]
    rfl
  · rw [hshares, Finsupp.sum_zero_index]
    rfl
  · exact hcast (fun _ => rfl) (fun _ => rfl) (fun _ => rfl) _ _
  · exact hcast (fun _ => rfl) (fun _ => rfl) (fun _ => rfl) _ _

/-- The state before the global properties are set: it is fresh, and there are no shares. -/
def Database.Blank (s : Database) : Prop := s.Fresh ∧ s.dgpo.totalVestingShares = 0

instance (name : String) (threshold : UInt32) :
    Respects (Holding Database.Blank) (accountIndex.create (keylessAccount name threshold)) :=
  ⟨fun hr hs => by
    obtain ⟨hfree, -, rfl⟩ := Table.runs_create.mp hr
    exact ⟨hs.1.createAccount rfl rfl hfree, hs.2⟩⟩

instance (name : String) (x : ShareType) : Respects (Holding Database.Blank) (createInitMiner name x) :=
  ⟨fun hr hs => by
    simp only [createInitMiner, runs_bind_create, runs_pure] at hr
    obtain ⟨hfree, -, -, rfl⟩ := hr
    exact ⟨Database.Fresh.createWitness (hs.1.createAccount rfl rfl hfree) rfl, hs.2⟩⟩

theorem Database.Blank.setProperties (h : s.Blank) (x : ShareType) :
    Database.Fresh { s with dgpo := genesisProperties x } := by
  have hvoting : ({ s with dgpo := genesisProperties x } : Database).roll =
      s.roll.withTotal (genesisProperties x).totalVestingShares := rfl
  refine h.1.congr (hvoting.trans ?_)
  show s.roll.withTotal 0 = s.roll
  rw [← h.2]
  rfl

instance (a : InitialAsset) : Respects (Fixing Database.roll) (importAsset a) := by
  unfold importAsset
  infer_instance

instance [Externals] (b : InitialBalance) : Respects (Fixing Database.roll) (importBalance b) := by
  unfold importBalance
  infer_instance

theorem initGenesis_fresh [Externals] {g : GenesisState} (h : Runs (initGenesis g) {} () s) :
    s.Fresh := by
  have hblank : ({} : Database).Blank := ⟨empty_fresh, rfl⟩
  obtain ⟨_, t1, h1, h⟩ := runs_bind.mp h
  obtain ⟨_, t2, h2, h⟩ := runs_bind.mp h
  obtain ⟨_, t3, h3, h⟩ := runs_bind.mp h
  obtain ⟨_, t4, h4, h⟩ := runs_bind.mp h
  obtain ⟨_, t5, h5, h⟩ := runs_bind.mp h
  obtain ⟨_, t6, h6, h⟩ := runs_bind.mp h
  have hrel {α : Type} {m : DbM α} [hm : Respects (Holding Database.Blank) m] {a : α} {t u : Database}
      (hr : Runs m t a u) (ht : t.Blank) : u.Blank := hm.rel hr ht
  have h6 : t6.Blank := hrel h6 (hrel h5 (hrel h4 (hrel h3 (hrel h2 (hrel h1 hblank)))))
  obtain ⟨_, t7, h7, hrest⟩ := runs_bind.mp h
  obtain ⟨_, hq, rfl⟩ := runs_modifyDgpo.mp h7
  cases hq
  exact Respects.rel (R := Holding Database.Fresh) hrest (h6.setProperties _)

end Genesis

/-- A vote for a platform by someone who has no proxy, if it is one at all. -/
def Call.RootVote (c : Call) : Prop :=
  match c.op with
  | .accountStreamingPlatformVote account _ _ =>
      ∀ id x, c.state.accountNamed account = some (id, x) → x.proxy = ""
  | _ => True

/-- A move in which all votes for platforms are such votes. -/
def Move.RootVotes [Externals] (s : Database) (m : Move) : Prop := ∀ c ∈ m.calls s, c.RootVote

section Runs

variable [Externals] {s s' : Database} {p : Prop}

theorem evaluate_inOrder {push : Nat → DbM Unit} {op : Operation}
    (hop : op.isProposalUpdate = false) (hv : op.validate = .ok ())
    (hvote : p → Call.RootVote ⟨s, op⟩) (h : s.InOrder p) (hr : Runs (evaluate push op) s () s') :
    s'.InOrder p := by
  have hroutes : op.writes .routes = false → RoutesBounded s' := fun hi =>
    h.2.congr (evaluate_same hop hi hr)
  have hbeside : op.writes .names = false → op.writes .stakes = false → op.writes .voting = false →
      s'.Tallied p 0 := fun h1 h2 h3 =>
    h.1.congr (roll_congr (evaluate_same hop h1 hr) (evaluate_same hop h2 hr)
      (evaluate_same hop h3 hr))
  cases op with
  | proposalUpdate o => cases hop
  | accountCreate o => exact h.accountCreate hr
  | accountCreateWithDelegation o => exact h.accountCreateWithDelegation hr
  | witnessUpdate o => exact h.witnessUpdate hr
  | streamingPlatformUpdate owner url fee => exact h.platformUpdate hr
  | setWithdrawVestingRoute f t percent auto =>
      simp only [Operation.validate, except_bind_ok, fcAssert_ok] at hv
      obtain ⟨_, -, _, -, hp⟩ := hv
      exact h.setRoute (of_decide_eq_true hp) hr
  | accountWitnessVote account witness approve =>
      exact ⟨h.1.witnessVote hr, hroutes rfl⟩
  | accountStreamingPlatformVote account platform approve =>
      exact ⟨h.1.platformVote hvote hr, hroutes rfl⟩
  | accountWitnessProxy account proxy =>
      have hne : proxy ≠ account := by
        simp only [Operation.validate, except_bind_ok] at hv
        obtain ⟨_, -, hv⟩ := hv
        split at hv
        · exact of_decide_eq_true (fcAssert_ok.mp hv)
        · obtain ⟨_, -, hv⟩ := except_bind_ok.mp hv
          exact of_decide_eq_true (fcAssert_ok.mp hv)
      exact ⟨h.1.proxy hne hr, hroutes rfl⟩
  | delegateVestingShares delegator delegatee shares =>
      exact inOrder_of_fixing (m := delegateVestingSharesEvaluator delegator delegatee shares) h hr
  | withdrawVesting account shares =>
      exact inOrder_of_fixing (m := withdrawVestingEvaluator account shares) h hr
  | transferToVesting f t x =>
      exact Respects.rel (R := Holding (Database.InOrder p)) (m := transferToVestingEvaluator f t x) hr h
  | contentUpdate o =>
      exact Respects.rel (R := Holding (Database.InOrder p)) (m := contentUpdateEvaluator o) hr h
  | challengeAuthority a b c =>
      exact Respects.rel (R := Holding (Database.InOrder p)) (m := challengeAuthorityEvaluator a b c) hr h
  | _ => exact ⟨hbeside rfl rfl rfl, hroutes rfl⟩

/-- A move keeps everything in order, as long as votes for platforms are cast by accounts
without a proxy or platforms are not looked at. -/
theorem Move.inOrder {m : Move} (hvalid : ProposalsValid s) (hvotes : p → m.RootVotes s)
    (h : s.InOrder p) (hr : Runs m.run s () s') : s'.InOrder p :=
  (Move.run_induction (P := Database.InOrder p) (C := fun c => p → c.RootVote)
    (fun _ _ h => h)
    (fun _ _ _ _ hop hv hvote h hr => evaluate_inOrder hop hv hvote h hr)
    (fun _ _ _ h hr => inOrder_of_fixing h hr) (fun _ _ _ h hr => inOrder_of_fixing h hr)
    (fun _ _ _ h hr => Respects.rel (R := Holding (Database.InOrder p)) hr h)
    (fun _ _ h hr => inOrder_of_fixing h hr) hvalid (fun c hc hp => hvotes hp c hc) h hr).1

/-- In every state of a run in which votes for platforms are cast by accounts without a proxy,
everything is in order; without that condition, everything but the tallies of the platforms. -/
theorem ReachableIf.inOrder {C : Database → Move → Prop} (hC : ∀ t m, C t m → p → m.RootVotes t)
    (hs : ReachableIf C s) : s.InOrder p := by
  induction hs with
  | genesis h =>
      obtain ⟨⟨hreg, hsound⟩, -⟩ := initGenesis_fresh h
      refine ⟨⟨hreg, hsound.acyclic, hsound.records, hsound.total, hsound.witnesses,
        fun _ => hsound.platforms trivial⟩, ?_⟩
      have hroutes := Writes.routes_eq h (by decide)
      intro id r hr
      rw [hroutes] at hr
      cases hr
  | move hs hc hm ih => exact Move.inOrder hs.reachable.proposalsValid (hC _ _ hc) ih hm

theorem Reachable.inOrder (hs : Reachable s) : s.InOrder False :=
  ReachableIf.inOrder (fun _ _ _ h => h.elim) hs

end Runs

end BtcmChain
