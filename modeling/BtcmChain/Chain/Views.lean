import BtcmChain.Chain.Database

set_option autoImplicit false

/-!
# Concerns of the state and the footprints of the primitives

Nineteen concerns cut the state: `funds` (everything that holds or books money),
`stakes` (vesting positions and who is a platform), `listening` (statistics and
the reports behind them), `requests` (who reports for whom), `splits` (how contents
share rewards), `pools` (what contents have accumulated, which is money too),
`catalogue` (everything else a content says), `pending` (the proposals), `names` (which
accounts and platforms exist), `clock`, `rates` (the witnesses with their price feeds, and
who is scheduled), `feeds` (the medians of the price feeds), `voting` (proxies and votes),
`redelegations` (received shares passed on), `routes` (where withdrawn shares go),
`finality` (who confirmed which block), `slots` (how many slots have passed), `laps` (the
virtual schedule) and `orders` (the order book, which holds money too). Writing a table shows in the concerns it is
`Owned` by, and the `modify…` primitives write a single part of an object; every program
built from them inherits its footprint by instance search.
-/

namespace BtcmChain

/-! ## The views -/

/-- Everything that holds or books BTCM, XUSD or a user-issued asset. -/
structure Funds where
  accounts : FlatMap AccountId (String × AccountFunds)
  accountBalances : ObjectIndex AccountBalanceObject
  assets : ObjectIndex AssetObject
  balances : ObjectIndex BalanceObject
  limitOrders : ObjectIndex LimitOrderObject
  convertRequests : ObjectIndex ConvertRequestObject
  pools : FlatMap Nat ContentPool
  supply : GlobalSupply

/-- The money in the state: liquid holdings, whoever has them and whatever they are kept in. -/
def Database.funds (s : Database) : Funds where
  accounts := s.accounts.objs.mapVals fun a => (a.name, a.toAccountFunds)
  accountBalances := s.accountBalances
  assets := s.assets
  balances := s.balances
  limitOrders := s.limitOrders
  convertRequests := s.convertRequests
  pools := s.contents.objs.mapVals ContentObject.toContentPool
  supply := s.dgpo.toGlobalSupply

/-- Vesting positions, platform owners and the total platforms are believed to hold. -/
structure Stakes where
  accounts : FlatMap AccountId (String × AccountStake)
  platforms : FlatMap StreamingPlatformId String
  delegations : ObjectIndex VestingDelegationObject
  delegationExpirations : ObjectIndex VestingDelegationExpirationObject
  totalVestedByPlatforms : ShareType

/-- The stake in the state: vesting shares, delegations and everything that counts them. -/
def Database.stakes (s : Database) : Stakes where
  accounts := s.accounts.objs.mapVals fun a => (a.name, a.toAccountStake)
  platforms := s.platforms.objs.mapVals StreamingPlatformObject.owner
  delegations := s.delegations
  delegationExpirations := s.delegationExpirations
  totalVestedByPlatforms := s.dgpo.totalVestedByPlatforms

/-- Listening statistics, and the reports that they summarise. -/
structure Listening where
  accounts : FlatMap AccountId AccountListening
  platforms : FlatMap StreamingPlatformId PlatformListening
  reports : ObjectIndex ReportObject
  platformUsers : ObjectIndex StreamingPlatformUserObject
  totals : GlobalListening

/-- The listening statistics in the state: those of accounts and of platforms, the global ones, and
the reports. -/
def Database.listening (s : Database) : Listening where
  accounts := s.accounts.objs.mapVals AccountObject.toAccountListening
  platforms := s.platforms.objs.mapVals StreamingPlatformObject.toPlatformListening
  reports := s.reports
  platformUsers := s.platformUsers
  totals := s.dgpo.toGlobalListening

/-- How each content shares its rewards, by the number of the content. -/
def Database.splits (s : Database) : FlatMap Nat ContentSplit :=
  s.contents.objs.mapVals ContentObject.toContentSplit

/-- What each content has accumulated and not paid out, by the number of the content. -/
def Database.pools (s : Database) : FlatMap Nat ContentPool :=
  s.contents.objs.mapVals ContentObject.toContentPool

/-- The contents, less what they have accumulated, which belongs to a concern of its own. -/
def Database.catalogue (s : Database) : FlatMap Nat ContentObject :=
  s.contents.objs.mapVals fun c => { c with toContentPool := {} }

/-- Account names and platform owners, by their numbers; no program changes them once they are
there. -/
def Database.names (s : Database) : FlatMap AccountId String × FlatMap StreamingPlatformId String :=
  (s.accounts.objs.mapVals AccountObject.name, s.platforms.objs.mapVals StreamingPlatformObject.owner)

/-- Head block number and time, which only the advance of a block changes. -/
def Database.clock (s : Database) : UInt32 × TimePointSec := (s.dgpo.headBlockNumber, s.dgpo.time)

/-- The witnesses with the rates they published, and the schedule. -/
def Database.rates (s : Database) : FlatMap Nat (String × Price) × List String :=
  (s.witnesses.objs.mapVals fun w => (w.owner, w.mbdExchangeRate),
    s.witnessSchedule.currentShuffledWitnesses)

/-- The vote of an account: who speaks for it, for whom it speaks, and how often it voted. -/
structure AccountVoting where
  proxy : String
  proxiedVsfVotes : List ShareType
  witnessesVotedFor : UInt16
  streamingPlatformsVotedFor : UInt16

def AccountProfile.voting (p : AccountProfile) : AccountVoting where
  proxy := p.proxy
  proxiedVsfVotes := p.proxiedVsfVotes
  witnessesVotedFor := p.witnessesVotedFor
  streamingPlatformsVotedFor := p.streamingPlatformsVotedFor

/-- Proxies, and who has voted for whom with what effect. -/
structure Voting where
  accounts : FlatMap AccountId AccountVoting
  /-- The votes that each witness has received. -/
  witnesses : FlatMap Nat ShareType
  witnessVotes : ObjectIndex WitnessVoteObject
  /-- The votes that each platform has received. -/
  platforms : FlatMap StreamingPlatformId ShareType
  platformVotes : ObjectIndex StreamingPlatformVoteObject
  /-- The vesting shares that there are to vote with, which bound every tally. -/
  total : ShareType

/-- The votes in the state: proxies, votes cast, and the tallies of witnesses and platforms. -/
def Database.voting (s : Database) : Voting where
  accounts := s.accounts.objs.mapVals fun a => a.toAccountProfile.voting
  witnesses := s.witnesses.objs.mapVals WitnessObject.votes
  witnessVotes := s.witnessVotes
  platforms := s.platforms.objs.mapVals StreamingPlatformObject.votes
  platformVotes := s.platformVotes
  total := s.dgpo.totalVestingShares

/-- The received shares that an account passes on, to whom, and how much it got in that way. -/
structure AccountRedelegation where
  redelegations : FlatMap AccountId Redelegation
  redelegatedVestingShares : ShareType
  rereceivedVestingShares : ShareType

def AccountProfile.redelegation (p : AccountProfile) : AccountRedelegation where
  redelegations := p.redelegations
  redelegatedVestingShares := p.redelegatedVestingShares
  rereceivedVestingShares := p.rereceivedVestingShares

/-- The redelegations in the state, by the account that passes them on. -/
def Database.redelegations (s : Database) : FlatMap AccountId AccountRedelegation :=
  s.accounts.objs.mapVals fun a => a.toAccountProfile.redelegation

/-- The last irreversible block, and the last block each witness has signed. -/
def Database.finality (s : Database) : UInt32 × FlatMap Nat UInt64 :=
  (s.dgpo.lastIrreversibleBlockNum, s.witnesses.objs.mapVals WitnessObject.lastConfirmedBlockNum)

/-- Where a witness is on its virtual lap, and the votes that carry it. -/
structure Lap where
  votes : ShareType
  lastUpdate : UInt128
  position : UInt128
  scheduled : UInt128
  deriving DecidableEq

def WitnessObject.lap (w : WitnessObject) : Lap where
  votes := w.votes
  lastUpdate := w.virtualLastUpdate
  position := w.virtualPosition
  scheduled := w.virtualScheduledTime

/-- The virtual schedule: the lap of each witness, and the current virtual time. -/
def Database.laps (s : Database) : FlatMap Nat Lap × UInt128 :=
  (s.witnesses.objs.mapVals WitnessObject.lap, s.witnessSchedule.currentVirtualTime)

/-- The concerns that the state is cut into, each with a view of its own. -/
inductive Concern where
  | funds
  | stakes
  | listening
  | requests
  | splits
  | pools
  | catalogue
  | pending
  | names
  | clock
  | rates
  | feeds
  | voting
  | redelegations
  | routes
  | finality
  | slots
  | laps
  | orders
  deriving DecidableEq

/-- The two states agree on a concern, which is to say that they have the same view of it. -/
def Concern.same : Concern → Database → Database → Prop
  | .funds, s, t => t.funds = s.funds
  | .stakes, s, t => t.stakes = s.stakes
  | .listening, s, t => t.listening = s.listening
  | .requests, s, t => t.reportRequests = s.reportRequests
  | .splits, s, t => t.splits = s.splits
  | .pools, s, t => t.pools = s.pools
  | .catalogue, s, t => t.catalogue = s.catalogue
  | .pending, s, t => t.proposals = s.proposals
  | .names, s, t => t.names = s.names
  | .clock, s, t => t.clock = s.clock
  | .rates, s, t => t.rates = s.rates
  | .feeds, s, t => t.feedHistory = s.feedHistory
  | .voting, s, t => t.voting = s.voting
  | .redelegations, s, t => t.redelegations = s.redelegations
  | .routes, s, t => t.withdrawRoutes = s.withdrawRoutes
  | .finality, s, t => t.finality = s.finality
  | .slots, s, t => t.dgpo.currentAslot = s.dgpo.currentAslot
  | .laps, s, t => t.laps = s.laps
  | .orders, s, t => t.limitOrders = s.limitOrders

instance : Cut Database Concern where
  same := Concern.same
  same_refl i _ := by cases i <;> rfl
  same_trans {i _ _ _} h1 h2 := by cases i <;> exact Eq.trans h2 h1

section Frames

variable {α : Type} {m : DbM α} {C : List Concern} {s s' : Database} {a : α}

theorem Writes.funds_eq [h : Writes m C] (hr : Runs m s a s') (hi : Concern.funds ∉ C) :
    s'.funds = s.funds := h.within.same hi hr

theorem Writes.stakes_eq [h : Writes m C] (hr : Runs m s a s') (hi : Concern.stakes ∉ C) :
    s'.stakes = s.stakes := h.within.same hi hr

theorem Writes.listening_eq [h : Writes m C] (hr : Runs m s a s') (hi : Concern.listening ∉ C) :
    s'.listening = s.listening := h.within.same hi hr

theorem Writes.splits_eq [h : Writes m C] (hr : Runs m s a s') (hi : Concern.splits ∉ C) :
    s'.splits = s.splits := h.within.same hi hr

theorem Writes.pools_eq [h : Writes m C] (hr : Runs m s a s') (hi : Concern.pools ∉ C) :
    s'.pools = s.pools := h.within.same hi hr

theorem Writes.catalogue_eq [h : Writes m C] (hr : Runs m s a s') (hi : Concern.catalogue ∉ C) :
    s'.catalogue = s.catalogue := h.within.same hi hr

theorem Writes.proposals_eq [h : Writes m C] (hr : Runs m s a s') (hi : Concern.pending ∉ C) :
    s'.proposals = s.proposals := h.within.same hi hr

theorem Writes.names_eq [h : Writes m C] (hr : Runs m s a s') (hi : Concern.names ∉ C) :
    s'.names = s.names := h.within.same hi hr

theorem Writes.clock_eq [h : Writes m C] (hr : Runs m s a s') (hi : Concern.clock ∉ C) :
    s'.clock = s.clock := h.within.same hi hr

theorem Writes.rates_eq [h : Writes m C] (hr : Runs m s a s') (hi : Concern.rates ∉ C) :
    s'.rates = s.rates := h.within.same hi hr

theorem Writes.feeds_eq [h : Writes m C] (hr : Runs m s a s') (hi : Concern.feeds ∉ C) :
    s'.feedHistory = s.feedHistory := h.within.same hi hr

theorem Writes.voting_eq [h : Writes m C] (hr : Runs m s a s') (hi : Concern.voting ∉ C) :
    s'.voting = s.voting := h.within.same hi hr

theorem Writes.routes_eq [h : Writes m C] (hr : Runs m s a s') (hi : Concern.routes ∉ C) :
    s'.withdrawRoutes = s.withdrawRoutes := h.within.same hi hr

theorem Writes.finality_eq [h : Writes m C] (hr : Runs m s a s') (hi : Concern.finality ∉ C) :
    s'.finality = s.finality := h.within.same hi hr

theorem Writes.slots_eq [h : Writes m C] (hr : Runs m s a s') (hi : Concern.slots ∉ C) :
    s'.dgpo.currentAslot = s.dgpo.currentAslot := h.within.same hi hr

theorem Writes.orders_eq [h : Writes m C] (hr : Runs m s a s') (hi : Concern.orders ∉ C) :
    s'.limitOrders = s.limitOrders := h.within.same hi hr

end Frames

/-! ## Footprints of tables -/

/-- Writing the table `t` shows in the concerns `C` only. -/
class Table.Owned {α : Type} (t : Table α) (C : outParam (List Concern)) : Prop where
  /-- A concern that is not listed is the same before and after the table is written. -/
  same : ∀ {i}, i ∉ C → ∀ s x, Concern.same i s (t.write s x)

section Tables

variable {α : Type} {t : Table α}

instance (p : α → Bool) : Writes (t.findBy? p) [] := ⟨within_reads _⟩

instance (p : α → Bool) : Writes (t.any p) [] := ⟨within_reads _⟩

instance (p : α → Bool) (msg : String) : Writes (t.getBy p msg) [] :=
  ⟨by unfold Table.getBy; infer_instance⟩

instance (id : Nat) : Writes (t.get id) [] := ⟨by unfold Table.get; infer_instance⟩

instance (c : Bool) (msg : String) : Writes (require c msg) [] := ⟨within_ofExcept _⟩

instance (c : Except Exn Bool) (msg : String) : Writes (requireE c msg) [] :=
  ⟨by unfold requireE; infer_instance⟩

variable {C : List Concern} [h : t.Owned C]

instance (id : Nat) (b : α) : Writes (t.put id b) C :=
  ⟨⟨fun hi _ _ _ hr => by rw [Table.runs_put.mp hr]; exact h.same hi _ _⟩⟩

instance (id : Nat) (change : α → Except Exn α) : Writes (t.modify id change) C :=
  ⟨⟨fun hi _ _ _ hr => by
    obtain ⟨_, _, -, -, rfl⟩ := Table.runs_modify.mp hr
    exact h.same hi _ _⟩⟩

instance (a : α) : Writes (t.create a) C :=
  ⟨⟨fun hi _ _ _ hr => by rw [(Table.runs_create.mp hr).2.2]; exact h.same hi _ _⟩⟩

instance (id : Nat) : Writes (t.remove id) C :=
  ⟨⟨fun hi _ _ _ hr => by rw [Table.runs_remove.mp hr]; exact h.same hi _ _⟩⟩

end Tables

instance : accountIndex.Owned [.funds, .stakes, .listening, .names, .voting, .redelegations] :=
  ⟨fun {i} hi _ _ => by cases i <;> first | rfl | exact absurd hi (by decide)⟩
instance : accountBalanceIndex.Owned [.funds] :=
  ⟨fun {i} hi _ _ => by cases i <;> first | rfl | exact absurd hi (by decide)⟩
instance : assetIndex.Owned [.funds] :=
  ⟨fun {i} hi _ _ => by cases i <;> first | rfl | exact absurd hi (by decide)⟩
instance : balanceIndex.Owned [.funds] :=
  ⟨fun {i} hi _ _ => by cases i <;> first | rfl | exact absurd hi (by decide)⟩
instance : limitOrderIndex.Owned [.funds, .orders] :=
  ⟨fun {i} hi _ _ => by cases i <;> first | rfl | exact absurd hi (by decide)⟩
instance : convertRequestIndex.Owned [.funds] :=
  ⟨fun {i} hi _ _ => by cases i <;> first | rfl | exact absurd hi (by decide)⟩
instance : vestingDelegationIndex.Owned [.stakes] :=
  ⟨fun {i} hi _ _ => by cases i <;> first | rfl | exact absurd hi (by decide)⟩
instance : vestingDelegationExpirationIndex.Owned [.stakes] :=
  ⟨fun {i} hi _ _ => by cases i <;> first | rfl | exact absurd hi (by decide)⟩
instance : contentIndex.Owned [.funds, .splits, .pools, .catalogue] :=
  ⟨fun {i} hi _ _ => by cases i <;> first | rfl | exact absurd hi (by decide)⟩
instance : streamingPlatformIndex.Owned [.stakes, .listening, .names, .voting] :=
  ⟨fun {i} hi _ _ => by cases i <;> first | rfl | exact absurd hi (by decide)⟩
instance : reportIndex.Owned [.listening] :=
  ⟨fun {i} hi _ _ => by cases i <;> first | rfl | exact absurd hi (by decide)⟩
instance : streamingPlatformUserIndex.Owned [.listening] :=
  ⟨fun {i} hi _ _ => by cases i <;> first | rfl | exact absurd hi (by decide)⟩
instance : streamReportRequestIndex.Owned [.requests] :=
  ⟨fun {i} hi _ _ => by cases i <;> first | rfl | exact absurd hi (by decide)⟩
instance : proposalIndex.Owned [.pending] :=
  ⟨fun {i} hi _ _ => by cases i <;> first | rfl | exact absurd hi (by decide)⟩
instance : withdrawVestingRouteIndex.Owned [.routes] :=
  ⟨fun {i} hi _ _ => by cases i <;> first | rfl | exact absurd hi (by decide)⟩
instance : ownerAuthorityHistoryIndex.Owned [] := ⟨fun {i} _ _ _ => by cases i <;> rfl⟩
instance : accountRecoveryRequestIndex.Owned [] := ⟨fun {i} _ _ _ => by cases i <;> rfl⟩
instance : changeRecoveryAccountRequestIndex.Owned [] := ⟨fun {i} _ _ _ => by cases i <;> rfl⟩
instance : contentApproveIndex.Owned [] := ⟨fun {i} _ _ _ => by cases i <;> rfl⟩
instance : contentVoteIndex.Owned [] := ⟨fun {i} _ _ _ => by cases i <;> rfl⟩
instance : streamingPlatformVoteIndex.Owned [.voting] :=
  ⟨fun {i} hi _ _ => by cases i <;> first | rfl | exact absurd hi (by decide)⟩
instance : witnessVoteIndex.Owned [.voting] :=
  ⟨fun {i} hi _ _ => by cases i <;> first | rfl | exact absurd hi (by decide)⟩
instance : witnessIndex.Owned [.rates, .voting, .finality, .laps] :=
  ⟨fun {i} hi _ _ => by cases i <;> first | rfl | exact absurd hi (by decide)⟩

/-! ## Writing one part of an object -/

/-- Change the liquid holdings of an account, and nothing else about it. -/
def modifyFunds (id : AccountId) (change : AccountFunds → Except Exn AccountFunds) : DbM Unit :=
  accountIndex.modify id fun a => (fun p => { a with toAccountFunds := p }) <$> change a.toAccountFunds

/-- Change the vesting position of an account, and nothing else about it. -/
def modifyStake (id : AccountId) (change : AccountStake → Except Exn AccountStake) : DbM Unit :=
  accountIndex.modify id fun a => (fun p => { a with toAccountStake := p }) <$> change a.toAccountStake

/-- Change the listening statistics of an account, and nothing else about it. -/
def modifyAccountListening (id : AccountId) (change : AccountListening → AccountListening) : DbM Unit :=
  accountIndex.modify id fun a => .ok { a with toAccountListening := change a.toAccountListening }

/-- Change the profile of an account, and nothing else about it. -/
def modifyProfile (id : AccountId) (change : AccountProfile → Except Exn AccountProfile) : DbM Unit :=
  accountIndex.modify id fun a =>
    (fun p => { a with toAccountProfile := p }) <$> change a.toAccountProfile

/-- Change the unpaid royalties of a content, and nothing else about it. -/
def modifyPool (id : Nat) (change : ContentPool → Except Exn ContentPool) : DbM Unit :=
  contentIndex.modify id fun c => (fun p => { c with toContentPool := p }) <$> change c.toContentPool

/-- Change descriptive data of a content: anything but its pool and its splits. -/
def modifyContentInfo (id : Nat) (change : ContentObject → ContentObject) : DbM Unit :=
  contentIndex.modify id fun c =>
    .ok { change c with toContentPool := c.toContentPool, toContentSplit := c.toContentSplit }

/-- Change the listening statistics of a platform, and nothing else about it. -/
def modifyPlatformListening (id : StreamingPlatformId)
    (change : PlatformListening → PlatformListening) : DbM Unit :=
  streamingPlatformIndex.modify id fun p =>
    .ok { p with toPlatformListening := change p.toPlatformListening }

/-- Change the url or the votes of a platform, and nothing else about it. -/
def modifyPlatformInfo (id : StreamingPlatformId)
    (change : StreamingPlatformObject → Except Exn StreamingPlatformObject) : DbM Unit :=
  streamingPlatformIndex.modify id fun p =>
    (fun q => { q with toPlatformListening := p.toPlatformListening, owner := p.owner }) <$> change p

/-- Change the global properties, which may throw. -/
def modifyDgpo (change : DynamicGlobalPropertyObject → Except Exn DynamicGlobalPropertyObject) :
    DbM Unit := fun s => (fun d => ((), { s with dgpo := d })) <$> change s.dgpo

/-- Change the books, which are a part of the global properties. -/
def modifySupply (change : GlobalSupply → Except Exn GlobalSupply) : DbM Unit :=
  modifyDgpo fun d => (fun p => { d with toGlobalSupply := p }) <$> change d.toGlobalSupply

/-- Change the global listening statistics, which are a part of the global properties. -/
def modifyGlobalListening (change : GlobalListening → GlobalListening) : DbM Unit :=
  modifyDgpo fun d => .ok { d with toGlobalListening := change d.toGlobalListening }

/-- Add to `total_vested_by_platforms`, which is a part of the global properties. -/
def adjustTotalVestedByPlatforms (delta : ShareType) : DbM Unit :=
  modifyDgpo fun d =>
    (fun x => { d with totalVestedByPlatforms := x }) <$> safeAdd d.totalVestedByPlatforms delta

/-- Change the global parameters, which are a part of the global properties. -/
def modifyParams (change : GlobalParams → GlobalParams) : DbM Unit :=
  modifyDgpo fun d => .ok { d with toGlobalParams := change d.toGlobalParams }

/-- Set head block number and time, which are a part of the global properties. -/
def setClock (headBlockNumber : UInt32) (time : TimePointSec) : DbM Unit :=
  modifyDgpo fun d => .ok { d with headBlockNumber, time }

/-- Change the witness schedule, of which there is one object. -/
def modifySchedule (change : WitnessScheduleObject → WitnessScheduleObject) : DbM Unit := fun s =>
  .ok ((), { s with witnessSchedule := change s.witnessSchedule })

/-- Change the feed history, of which there is one object. -/
def modifyFeedHistory (change : FeedHistoryObject → FeedHistoryObject) : DbM Unit := fun s =>
  .ok ((), { s with feedHistory := change s.feedHistory })

/-! ### What they do -/

section PartRuns

variable {s s' : Database} {u : Unit} {id : Nat}

@[simp] theorem runs_modifyDgpo
    {change : DynamicGlobalPropertyObject → Except Exn DynamicGlobalPropertyObject} :
    Runs (modifyDgpo change) s u s' ↔ ∃ d, change s.dgpo = .ok d ∧ s' = { s with dgpo := d } := by
  simp only [Runs, modifyDgpo, except_map_ok, Prod.mk.injEq, true_and]
  exact exists_congr fun d => and_congr_right fun _ => eq_comm

theorem runs_modifyFunds {change : AccountFunds → Except Exn AccountFunds} :
    Runs (modifyFunds id change) s u s' ↔
      ∃ a p, s.accounts.find? id = some a ∧ change a.toAccountFunds = .ok p ∧
        s' = { s with accounts := s.accounts.update id fun _ => { a with toAccountFunds := p } } := by
  simp only [modifyFunds, Table.runs_modify, except_map_ok, exists_and_left,
    exists_exists_and_eq_and]
  exact Iff.rfl

theorem runs_modifyStake {change : AccountStake → Except Exn AccountStake} :
    Runs (modifyStake id change) s u s' ↔
      ∃ a p, s.accounts.find? id = some a ∧ change a.toAccountStake = .ok p ∧
        s' = { s with accounts := s.accounts.update id fun _ => { a with toAccountStake := p } } := by
  simp only [modifyStake, Table.runs_modify, except_map_ok, exists_and_left,
    exists_exists_and_eq_and]
  exact Iff.rfl

theorem runs_modifyAccountListening {change : AccountListening → AccountListening} :
    Runs (modifyAccountListening id change) s u s' ↔
      ∃ a, s.accounts.find? id = some a ∧
        s' = { s with accounts := s.accounts.update id fun _ =>
          { a with toAccountListening := change a.toAccountListening } } := by
  simp only [modifyAccountListening, Table.runs_modify, Except.ok.injEq, exists_and_left,
    exists_eq_left']
  exact Iff.rfl

theorem runs_modifyProfile {change : AccountProfile → Except Exn AccountProfile} :
    Runs (modifyProfile id change) s u s' ↔
      ∃ a p, s.accounts.find? id = some a ∧ change a.toAccountProfile = .ok p ∧
        s' = { s with accounts := s.accounts.update id fun _ => { a with toAccountProfile := p } } := by
  simp only [modifyProfile, Table.runs_modify, except_map_ok, exists_and_left,
    exists_exists_and_eq_and]
  exact Iff.rfl

theorem runs_modifyPool {change : ContentPool → Except Exn ContentPool} :
    Runs (modifyPool id change) s u s' ↔
      ∃ c p, s.contents.find? id = some c ∧ change c.toContentPool = .ok p ∧
        s' = { s with contents := s.contents.update id fun _ => { c with toContentPool := p } } := by
  simp only [modifyPool, Table.runs_modify, except_map_ok, exists_and_left,
    exists_exists_and_eq_and]
  exact Iff.rfl

theorem runs_modifyPlatformListening {change : PlatformListening → PlatformListening} :
    Runs (modifyPlatformListening id change) s u s' ↔
      ∃ p, s.platforms.find? id = some p ∧
        s' = { s with platforms := s.platforms.update id fun _ =>
          { p with toPlatformListening := change p.toPlatformListening } } := by
  simp only [modifyPlatformListening, Table.runs_modify, Except.ok.injEq, exists_and_left,
    exists_eq_left']
  exact Iff.rfl

theorem runs_modifySupply {change : GlobalSupply → Except Exn GlobalSupply} :
    Runs (modifySupply change) s u s' ↔
      ∃ p, change s.dgpo.toGlobalSupply = .ok p ∧
        s' = { s with dgpo := { s.dgpo with toGlobalSupply := p } } := by
  simp only [modifySupply, runs_modifyDgpo, except_map_ok,
    exists_exists_and_eq_and]

theorem runs_adjustTotalVestedByPlatforms {delta : ShareType} :
    Runs (adjustTotalVestedByPlatforms delta) s u s' ↔
      ∃ x : ShareType, x.toInt = s.dgpo.totalVestedByPlatforms.toInt + delta.toInt ∧
        s' = { s with dgpo := { s.dgpo with totalVestedByPlatforms := x } } := by
  simp only [adjustTotalVestedByPlatforms, runs_modifyDgpo, except_map_ok, safeAdd_ok,
    exists_exists_and_eq_and]

end PartRuns

/-! ### Their footprints -/

section PartFootprints

/-- Overwriting an account shows only where one of its parts changed. -/
theorem same_account_update {i : Concern} {s : Database} {id : AccountId} {a b : AccountObject}
    (ha : s.accounts.find? id = some a) (hn : b.name = a.name)
    (hf : i = .funds → b.toAccountFunds = a.toAccountFunds)
    (hs : i = .stakes → b.toAccountStake = a.toAccountStake)
    (hl : i = .listening → b.toAccountListening = a.toAccountListening)
    (hv : i = .voting → b.toAccountProfile.voting = a.toAccountProfile.voting)
    (hr : i = .redelegations → b.toAccountProfile.redelegation = a.toAccountProfile.redelegation) :
    Cut.same i s { s with accounts := s.accounts.update id fun _ => b } := by
  have hm {β : Type} (g : AccountObject → β) (hg : g b = g a) :=
    ObjectIndex.mapVals_update_const ha hg
  cases i with
  | funds => simp [Cut.same, Concern.same, Database.funds, hm, hn, hf rfl]
  | stakes => simp [Cut.same, Concern.same, Database.stakes, hm, hn, hs rfl]
  | listening => simp [Cut.same, Concern.same, Database.listening, hm, hl rfl]
  | names => simp [Cut.same, Concern.same, Database.names, hm, hn]
  | voting => simp [Cut.same, Concern.same, Database.voting, hm, hv rfl]
  | redelegations => simp [Cut.same, Concern.same, Database.redelegations, hm, hr rfl]
  | requests | splits | pools | catalogue | pending | clock | rates | feeds | routes | finality
  | slots | laps | orders => rfl

/-- Overwriting a content shows only where one of its parts changed. -/
theorem same_content_update {i : Concern} {s : Database} {id : Nat} {c d : ContentObject}
    (hc : s.contents.find? id = some c)
    (hf : i = .funds ∨ i = .pools → d.toContentPool = c.toContentPool)
    (hs : i = .splits → d.toContentSplit = c.toContentSplit)
    (hd : i = .catalogue → { d with toContentPool := {} } = { c with toContentPool := {} }) :
    Cut.same i s { s with contents := s.contents.update id fun _ => d } := by
  have hm {β : Type} (g : ContentObject → β) (hg : g d = g c) :=
    ObjectIndex.mapVals_update_const hc hg
  cases i with
  | funds => simp [Cut.same, Concern.same, Database.funds, hm, hf (.inl rfl)]
  | pools => simp [Cut.same, Concern.same, Database.pools, hm, hf (.inr rfl)]
  | splits => simp [Cut.same, Concern.same, Database.splits, hm, hs rfl]
  | catalogue => simp [Cut.same, Concern.same, Database.catalogue, hm, hd rfl]
  | stakes | listening | requests | names | pending | clock | rates | feeds | voting
  | redelegations | routes | finality | slots | laps | orders => rfl

/-- Overwriting a platform, its owner kept, shows only in its statistics. -/
theorem same_platform_update {i : Concern} {s : Database} {id : Nat} {p q : StreamingPlatformObject}
    (hp : s.platforms.find? id = some p) (hn : q.owner = p.owner)
    (hl : i = .listening → q.toPlatformListening = p.toPlatformListening)
    (hv : i = .voting → q.votes = p.votes) :
    Cut.same i s { s with platforms := s.platforms.update id fun _ => q } := by
  have hm {β : Type} (g : StreamingPlatformObject → β) (hg : g q = g p) :=
    ObjectIndex.mapVals_update_const hp hg
  cases i with
  | stakes => simp [Cut.same, Concern.same, Database.stakes, hm, hn]
  | listening => simp [Cut.same, Concern.same, Database.listening, hm, hl rfl]
  | names => simp [Cut.same, Concern.same, Database.names, hm, hn]
  | voting => simp [Cut.same, Concern.same, Database.voting, hm, hv rfl]
  | funds | requests | splits | pools | catalogue | pending | clock | rates | feeds | redelegations
  | routes | finality | slots | laps | orders => rfl

/-- Overwriting the global properties shows only where one of their parts changed. -/
theorem same_dgpo {i : Concern} {s : Database} {d : DynamicGlobalPropertyObject}
    (hf : i = .funds → d.toGlobalSupply = s.dgpo.toGlobalSupply)
    (hs : i = .stakes → d.totalVestedByPlatforms = s.dgpo.totalVestedByPlatforms)
    (hl : i = .listening → d.toGlobalListening = s.dgpo.toGlobalListening)
    (hc : i = .clock → d.headBlockNumber = s.dgpo.headBlockNumber ∧ d.time = s.dgpo.time)
    (hi : i = .finality → d.lastIrreversibleBlockNum = s.dgpo.lastIrreversibleBlockNum)
    (hv : i = .voting → d.totalVestingShares = s.dgpo.totalVestingShares)
    (ha : i = .slots → d.currentAslot = s.dgpo.currentAslot) :
    Cut.same i s { s with dgpo := d } := by
  cases i with
  | funds => simp [Cut.same, Concern.same, Database.funds, hf rfl]
  | stakes => simp [Cut.same, Concern.same, Database.stakes, hs rfl]
  | listening => simp [Cut.same, Concern.same, Database.listening, hl rfl]
  | clock => simp [Cut.same, Concern.same, Database.clock, hc rfl]
  | finality => simp [Cut.same, Concern.same, Database.finality, hi rfl]
  | voting => simp [Cut.same, Concern.same, Database.voting, hv rfl]
  | slots => exact ha rfl
  | names | requests | splits | pools | catalogue | pending | rates | feeds | redelegations
  | routes | laps | orders => rfl

instance (id : AccountId) (change : AccountFunds → Except Exn AccountFunds) :
    Writes (modifyFunds id change) [.funds] :=
  ⟨⟨fun hi _ _ _ hr => by
    obtain ⟨a, p, ha, -, rfl⟩ := runs_modifyFunds.mp hr
    exact same_account_update ha rfl (fun h => absurd h (by simpa using hi)) (fun _ => rfl)
      (fun _ => rfl) (fun _ => rfl) fun _ => rfl⟩⟩

instance (id : AccountId) (change : AccountStake → Except Exn AccountStake) :
    Writes (modifyStake id change) [.stakes] :=
  ⟨⟨fun hi _ _ _ hr => by
    obtain ⟨a, p, ha, -, rfl⟩ := runs_modifyStake.mp hr
    exact same_account_update ha rfl (fun _ => rfl) (fun h => absurd h (by simpa using hi))
      (fun _ => rfl) (fun _ => rfl) fun _ => rfl⟩⟩

instance (id : AccountId) (change : AccountListening → AccountListening) :
    Writes (modifyAccountListening id change) [.listening] :=
  ⟨⟨fun hi _ _ _ hr => by
    obtain ⟨a, ha, rfl⟩ := runs_modifyAccountListening.mp hr
    exact same_account_update ha rfl (fun _ => rfl) (fun _ => rfl)
      (fun h => absurd h (by simpa using hi)) (fun _ => rfl) fun _ => rfl⟩⟩

/-- A change that leaves a view of what it changes alone. -/
class Keeps {α ν : Type} (f : α → ν) (change : α → Except Exn α) : Prop where
  keeps : ∀ {p q}, change p = .ok q → f q = f p

section Keeps

instance {α β ν : Type} (f : α → ν) (e : α → Except Exn β) (k : α → β → Except Exn α)
    [h : ∀ b, Keeps f fun p => k p b] : Keeps f fun p => e p >>= k p :=
  ⟨fun hq => by
    obtain ⟨b, -, hk⟩ := except_bind_ok.mp hq
    exact (h b).keeps hk⟩

instance {α ν : Type} (f : α → ν) (c : α → Prop) [∀ p, Decidable (c p)] (m n : α → Except Exn α)
    [hm : Keeps f m] [hn : Keeps f n] : Keeps f fun p => if c p then m p else n p :=
  ⟨fun hq => by
    split at hq
    · exact hm.keeps hq
    · exact hn.keeps hq⟩

/-- What `pure` returns, `.ok` returns: a change that keeps a view keeps it either way it is
written. -/
instance {α ν : Type} (f : α → ν) (g : α → α) [h : Keeps f fun p => .ok (g p)] :
    Keeps f fun p => pure (g p) := h

/-! The records below name every field: unification finds the changed ones, and what is not
changed must be the field it was. -/

variable (owner active basic : AccountProfile → Authority) (memoKey : AccountProfile → PublicKey)
  (jsonMetadata proxy recoveryAccount : AccountProfile → String)
  (lastOwnerUpdate created lastOwnerProved lastActiveProved lastAccountRecovery lastVoteTime :
    AccountProfile → TimePointSec)
  (ownerChallenged activeChallenged : AccountProfile → Bool)
  (lifetimeVoteCount : AccountProfile → UInt32) (score : AccountProfile → UInt64)
  (votingPower withdrawRoutes witnessesVotedFor streamingPlatformsVotedFor : AccountProfile → UInt16)
  (redelegations : AccountProfile → FlatMap AccountId Redelegation)
  (redelegatedVestingShares rereceivedVestingShares : AccountProfile → ShareType)
  (proxiedVsfVotes : AccountProfile → List ShareType)
  (friends secondLevel waiting : AccountProfile → List AccountId)

instance : Keeps AccountProfile.voting fun p => .ok { p with
    owner := owner p, active := active p, basic := basic p, memoKey := memoKey p
    jsonMetadata := jsonMetadata p, lastOwnerUpdate := lastOwnerUpdate p, created := created p
    ownerChallenged := ownerChallenged p, activeChallenged := activeChallenged p
    lastOwnerProved := lastOwnerProved p, lastActiveProved := lastActiveProved p
    recoveryAccount := recoveryAccount p, lastAccountRecovery := lastAccountRecovery p
    lifetimeVoteCount := lifetimeVoteCount p, score := score p, votingPower := votingPower p
    lastVoteTime := lastVoteTime p, redelegations := redelegations p
    redelegatedVestingShares := redelegatedVestingShares p
    rereceivedVestingShares := rereceivedVestingShares p, withdrawRoutes := withdrawRoutes p
    friends := friends p, secondLevel := secondLevel p, waiting := waiting p } :=
  ⟨fun hq => by
    cases hq
    rfl⟩

instance : Keeps AccountProfile.redelegation fun p => .ok { p with
    owner := owner p, active := active p, basic := basic p, memoKey := memoKey p
    jsonMetadata := jsonMetadata p, proxy := proxy p, lastOwnerUpdate := lastOwnerUpdate p
    created := created p, ownerChallenged := ownerChallenged p
    activeChallenged := activeChallenged p, lastOwnerProved := lastOwnerProved p
    lastActiveProved := lastActiveProved p, recoveryAccount := recoveryAccount p
    lastAccountRecovery := lastAccountRecovery p, lifetimeVoteCount := lifetimeVoteCount p
    score := score p, votingPower := votingPower p, lastVoteTime := lastVoteTime p
    withdrawRoutes := withdrawRoutes p, proxiedVsfVotes := proxiedVsfVotes p
    witnessesVotedFor := witnessesVotedFor p
    streamingPlatformsVotedFor := streamingPlatformsVotedFor p, friends := friends p
    secondLevel := secondLevel p, waiting := waiting p } :=
  ⟨fun hq => by
    cases hq
    rfl⟩

instance (virtualSupply currentSupply currentMbdSupply totalVestingFundBtcm totalRewardFundBtcm
    supplyDelta : GlobalSupply → ShareType) :
    Keeps GlobalSupply.totalVestingShares fun p => .ok { p with
      virtualSupply := virtualSupply p, currentSupply := currentSupply p
      currentMbdSupply := currentMbdSupply p, totalVestingFundBtcm := totalVestingFundBtcm p
      totalRewardFundBtcm := totalRewardFundBtcm p, supplyDelta := supplyDelta p } :=
  ⟨fun hq => by
    cases hq
    rfl⟩

end Keeps

section Profile

variable (id : AccountId) (change : AccountProfile → Except Exn AccountProfile)

instance [hv : Keeps AccountProfile.voting change] [hr : Keeps AccountProfile.redelegation change] :
    Writes (modifyProfile id change) [] :=
  ⟨⟨fun _ _ _ _ h => by
    obtain ⟨a, p, ha, hp, rfl⟩ := runs_modifyProfile.mp h
    exact same_account_update ha rfl (fun _ => rfl) (fun _ => rfl) (fun _ => rfl)
      (fun _ => hv.keeps hp) fun _ => hr.keeps hp⟩⟩

instance (priority := low) [hr : Keeps AccountProfile.redelegation change] :
    Writes (modifyProfile id change) [.voting] :=
  ⟨⟨fun hi _ _ _ h => by
    obtain ⟨a, p, ha, hp, rfl⟩ := runs_modifyProfile.mp h
    exact same_account_update ha rfl (fun _ => rfl) (fun _ => rfl) (fun _ => rfl)
      (fun h => absurd h (by simpa using hi)) fun _ => hr.keeps hp⟩⟩

instance (priority := low) [hv : Keeps AccountProfile.voting change] :
    Writes (modifyProfile id change) [.redelegations] :=
  ⟨⟨fun hi _ _ _ h => by
    obtain ⟨a, p, ha, hp, rfl⟩ := runs_modifyProfile.mp h
    exact same_account_update ha rfl (fun _ => rfl) (fun _ => rfl) (fun _ => rfl)
      (fun _ => hv.keeps hp) fun h => absurd h (by simpa using hi)⟩⟩

end Profile

instance (id : Nat) (change : ContentPool → Except Exn ContentPool) :
    Writes (modifyPool id change) [.funds, .pools] :=
  ⟨⟨fun hi _ _ _ hr => by
    obtain ⟨c, p, hc, -, rfl⟩ := runs_modifyPool.mp hr
    exact same_content_update hc (fun h => absurd h (by simpa using hi)) (fun _ => rfl)
      fun _ => rfl⟩⟩

instance (id : Nat) (change : ContentObject → ContentObject) :
    Writes (modifyContentInfo id change) [.catalogue] :=
  ⟨⟨fun hi _ _ _ hr => by
    obtain ⟨c, d, hc, hd, rfl⟩ := Table.runs_modify.mp hr
    obtain rfl := Except.ok.inj hd
    exact same_content_update hc (fun _ => rfl) (fun _ => rfl)
      fun h => absurd h (by simpa using hi)⟩⟩

instance (id : StreamingPlatformId) (change : PlatformListening → PlatformListening) :
    Writes (modifyPlatformListening id change) [.listening] :=
  ⟨⟨fun hi _ _ _ hr => by
    obtain ⟨p, hp, rfl⟩ := runs_modifyPlatformListening.mp hr
    exact same_platform_update hp rfl (fun h => absurd h (by simpa using hi)) fun _ => rfl⟩⟩

instance (id : StreamingPlatformId)
    (change : StreamingPlatformObject → Except Exn StreamingPlatformObject) :
    Writes (modifyPlatformInfo id change) [.voting] :=
  ⟨⟨fun hi _ _ _ hr => by
    obtain ⟨p, q, hp, hq, rfl⟩ := Table.runs_modify.mp hr
    obtain ⟨q', -, rfl⟩ := except_map_ok.mp hq
    exact same_platform_update hp rfl (fun _ => rfl) fun h => absurd h (by simpa using hi)⟩⟩

instance (change : GlobalSupply → Except Exn GlobalSupply)
    [hv : Keeps GlobalSupply.totalVestingShares change] : Writes (modifySupply change) [.funds] :=
  ⟨⟨fun hi _ _ _ hr => by
    obtain ⟨p, hp, rfl⟩ := runs_modifySupply.mp hr
    exact same_dgpo (fun h => absurd h (by simpa using hi)) (fun _ => rfl) (fun _ => rfl)
      (fun _ => ⟨rfl, rfl⟩) (fun _ => rfl) (fun _ => hv.keeps hp) fun _ => rfl⟩⟩

instance (priority := low) (change : GlobalSupply → Except Exn GlobalSupply) :
    Writes (modifySupply change) [.funds, .voting] :=
  ⟨⟨fun hi _ _ _ hr => by
    obtain ⟨p, -, rfl⟩ := runs_modifySupply.mp hr
    refine same_dgpo ?_ (fun _ => rfl) (fun _ => rfl) (fun _ => ⟨rfl, rfl⟩) (fun _ => rfl) ?_
      fun _ => rfl
    all_goals
      intro h
      exact absurd h (by rintro rfl; simp at hi)⟩⟩

instance (change : GlobalListening → GlobalListening) :
    Writes (modifyGlobalListening change) [.listening] :=
  ⟨⟨fun hi _ _ _ hr => by
    obtain ⟨d, hd, rfl⟩ := runs_modifyDgpo.mp hr
    obtain rfl := Except.ok.inj hd
    exact same_dgpo (fun _ => rfl) (fun _ => rfl) (fun h => absurd h (by simpa using hi))
      (fun _ => ⟨rfl, rfl⟩) (fun _ => rfl) (fun _ => rfl) fun _ => rfl⟩⟩

instance (delta : ShareType) : Writes (adjustTotalVestedByPlatforms delta) [.stakes] :=
  ⟨⟨fun hi _ _ _ hr => by
    obtain ⟨x, -, rfl⟩ := runs_adjustTotalVestedByPlatforms.mp hr
    exact same_dgpo (fun _ => rfl) (fun h => absurd h (by simpa using hi)) (fun _ => rfl)
      (fun _ => ⟨rfl, rfl⟩) (fun _ => rfl) (fun _ => rfl) fun _ => rfl⟩⟩

instance (currentWitness : GlobalParams → String)
    (maximumProposalLifetime maximumBlockSize delegationReturnPeriod : GlobalParams → UInt32)
    (mbdInterestRate : GlobalParams → UInt16) :
    Writes (modifyParams fun p => { p with
      currentWitness := currentWitness p, maximumProposalLifetime := maximumProposalLifetime p
      mbdInterestRate := mbdInterestRate p, maximumBlockSize := maximumBlockSize p
      delegationReturnPeriod := delegationReturnPeriod p }) [] :=
  ⟨⟨fun _ _ _ _ hr => by
    obtain ⟨d, hd, rfl⟩ := runs_modifyDgpo.mp hr
    obtain rfl := Except.ok.inj hd
    exact same_dgpo (fun _ => rfl) (fun _ => rfl) (fun _ => rfl) (fun _ => ⟨rfl, rfl⟩)
      (fun _ => rfl) (fun _ => rfl) fun _ => rfl⟩⟩

instance (currentAslot : GlobalParams → UInt64) :
    Writes (modifyParams fun p => { p with currentAslot := currentAslot p }) [.slots] :=
  ⟨⟨fun hi _ _ _ hr => by
    obtain ⟨d, hd, rfl⟩ := runs_modifyDgpo.mp hr
    obtain rfl := Except.ok.inj hd
    exact same_dgpo (fun _ => rfl) (fun _ => rfl) (fun _ => rfl) (fun _ => ⟨rfl, rfl⟩)
      (fun _ => rfl) (fun _ => rfl) fun h => absurd h (by simpa using hi)⟩⟩

instance (lastIrreversibleBlockNum : GlobalParams → UInt32) :
    Writes (modifyParams fun p => { p with
      lastIrreversibleBlockNum := lastIrreversibleBlockNum p }) [.finality] :=
  ⟨⟨fun hi _ _ _ hr => by
    obtain ⟨d, hd, rfl⟩ := runs_modifyDgpo.mp hr
    obtain rfl := Except.ok.inj hd
    exact same_dgpo (fun _ => rfl) (fun _ => rfl) (fun _ => rfl) (fun _ => ⟨rfl, rfl⟩)
      (fun h => absurd h (by simpa using hi)) (fun _ => rfl) fun _ => rfl⟩⟩

instance (n : UInt32) (time : TimePointSec) : Writes (setClock n time) [.clock] :=
  ⟨⟨fun hi _ _ _ hr => by
    obtain ⟨d, hd, rfl⟩ := runs_modifyDgpo.mp hr
    obtain rfl := Except.ok.inj hd
    exact same_dgpo (fun _ => rfl) (fun _ => rfl) (fun _ => rfl)
      (fun h => absurd h (by simpa using hi)) (fun _ => rfl) (fun _ => rfl) fun _ => rfl⟩⟩

instance (change : WitnessScheduleObject → WitnessScheduleObject) :
    Writes (modifySchedule change) [.rates, .laps] :=
  ⟨⟨fun {i} hi _ _ _ hr => by
    cases hr
    cases i <;> first | rfl | exact absurd hi (by decide)⟩⟩

instance (change : FeedHistoryObject → FeedHistoryObject) :
    Writes (modifyFeedHistory change) [.feeds] :=
  ⟨⟨fun {i} hi _ _ _ hr => by
    cases hr
    cases i <;> first | rfl | exact absurd hi (by decide)⟩⟩

variable {D : List Concern}

/-- A change of a witness shows only where it changes name, feed, votes, confirmations or
lap. -/
theorem within_modifyWitness (id : Nat) (change : WitnessObject → Except Exn WitnessObject)
    (hr : .rates ∉ D → ∀ w w', change w = .ok w' →
      w'.owner = w.owner ∧ w'.mbdExchangeRate = w.mbdExchangeRate)
    (hv : .voting ∉ D → ∀ w w', change w = .ok w' → w'.votes = w.votes)
    (hf : .finality ∉ D → ∀ w w', change w = .ok w' →
      w'.lastConfirmedBlockNum = w.lastConfirmedBlockNum)
    (hl : .laps ∉ D → ∀ w w', change w = .ok w' → w'.lap = w.lap) :
    Within D (witnessIndex.modify id change) where
  same {i} hi s _ _ h := by
    obtain ⟨w, w', hw, hw', rfl⟩ := Table.runs_modify.mp h
    have hm {β : Type} (g : WitnessObject → β) (hg : g w' = g w) :
        (s.witnesses.update id fun _ => w').objs.mapVals g = s.witnesses.objs.mapVals g :=
      ObjectIndex.mapVals_update_const hw hg
    cases i with
    | rates =>
        obtain ⟨howner, hrate⟩ := hr hi w w' hw'
        exact Prod.ext (hm (fun w => (w.owner, w.mbdExchangeRate)) (Prod.ext howner hrate)) rfl
    | voting =>
        exact congrArg (fun x => { s.voting with witnesses := x })
          (hm WitnessObject.votes (hv hi w w' hw'))
    | finality => exact Prod.ext rfl (hm WitnessObject.lastConfirmedBlockNum (hf hi w w' hw'))
    | laps => exact Prod.ext (hm WitnessObject.lap (hl hi w w' hw')) rfl
    | _ => rfl

/-- A change of a witness that keeps name, feed, confirmations and lap does not show. -/
theorem within_modifyWitness_quiet (id : Nat) (change : WitnessObject → Except Exn WitnessObject)
    (h : ∀ w w', change w = .ok w' → (w'.owner = w.owner ∧ w'.mbdExchangeRate = w.mbdExchangeRate) ∧
      w'.lap = w.lap ∧ w'.lastConfirmedBlockNum = w.lastConfirmedBlockNum) :
    Within D (witnessIndex.modify id change) :=
  within_modifyWitness id change (fun _ w w' hw => (h w w' hw).1)
    (fun _ w w' hw => congrArg Lap.votes (h w w' hw).2.1) (fun _ w w' hw => (h w w' hw).2.2)
    fun _ w w' hw => (h w w' hw).2.1

/-- A change of the schedule that keeps who is scheduled, or the virtual time. -/
theorem within_modifySchedule (change : WitnessScheduleObject → WitnessScheduleObject)
    (h : .rates ∉ D → ∀ w, (change w).currentShuffledWitnesses = w.currentShuffledWitnesses)
    (hl : .laps ∉ D → ∀ w, (change w).currentVirtualTime = w.currentVirtualTime) :
    Within D (modifySchedule change) where
  same {i} hi _ _ _ hr := by
    cases hr
    cases i with
    | rates => exact Prod.ext rfl (h hi _)
    | laps => exact Prod.ext rfl (hl hi _)
    | _ => rfl

end PartFootprints

end BtcmChain
