import BtcmChain.Chain.Objects

set_option autoImplicit false

/-!
# The object database: tables and their primitives

`DbM` is the monad of everything that applies operations and blocks. A `Table`
names one index of the state; `get`, `create`, `modify` and `remove` are the
calls of `graphene::db` the source makes on it. A reference to an object
(`const account_object&`) becomes the object's number together with the value it
had when it was fetched (`Entry`), and code that reads through a reference after
a modification fetches again.
-/

namespace BtcmChain

/-- Programs over the chain state, which return or throw. -/
abbrev DbM := StateT Database (Except Exn)

/-- A fetched object: its number and its value at the time it was fetched. -/
structure Entry (α : Type) where
  id : Nat
  val : α

/-- One index of the state. `clash` holds of two objects that a unique secondary
key of the index does not admit together. -/
structure Table (α : Type) where
  read : Database → ObjectIndex α
  write : Database → ObjectIndex α → Database
  clash : α → α → Bool := fun _ _ => false

/-- `FC_ASSERT` inside an evaluator: go on where the condition holds, and throw otherwise. -/
def require (c : Bool) (msg : String) : DbM Unit := ofExcept (fcAssert c msg)

/-- `FC_ASSERT` of a comparison that can throw by itself. -/
def requireE (c : Except Exn Bool) (msg : String) : DbM Unit := do
  let b ← ofExcept c
  require b msg

namespace Table

variable {α : Type} (t : Table α)

/-- The first object satisfying `p`, as a search through a secondary index. -/
def findBy? (p : α → Bool) : DbM (Option (Entry α)) :=
  reads fun s => ((t.read s).findBy? p).map fun e => ⟨e.1, e.2⟩

/-- Whether some object of the table satisfies `p`. -/
def any (p : α → Bool) : DbM Bool := reads fun s => (t.read s).any p

/-- The object of the table that satisfies `p`; where there is none, throw with this message. -/
def getBy (p : α → Bool) (msg : String) : DbM (Entry α) := do
  let e ← t.findBy? p
  e.elim (throw (.assert msg)) pure

/-- `get( id )`: the object with number `id`, or throw. -/
def get (id : Nat) : DbM α := do
  let a ← reads fun s => (t.read s).find? id
  a.elim (throw (.assert "Unable to find Object")) pure

/-- Overwrite the object with number `id`, without a check that it is there. -/
def put (id : Nat) (b : α) : DbM Unit := fun s =>
  .ok ((), t.write s ((t.read s).update id fun _ => b))

/-- `modify( object, change )`; the change may throw, and then nothing is written. -/
def modify (id : Nat) (change : α → Except Exn α) : DbM Unit := do
  let a ← t.get id
  let b ← ofExcept (change a)
  t.put id b

/-- `create( init )`: a new object, unless a unique key forbids it. -/
def create (a : α) : DbM Nat := fun s =>
  if (t.read s).any (t.clash a) then
    .error (.assert "Could not create object! Most likely a uniqueness constraint is violated.")
  else .ok ((t.read s).nextId, t.write s ((t.read s).create a))

/-- `remove( object )`: the object with this number is gone from its table. -/
def remove (id : Nat) : DbM Unit := fun s => .ok ((), t.write s ((t.read s).remove id))

/-! ## Inversion -/

variable {t} {s s' : Database} {u : Unit} {id : Nat}

@[simp] theorem runs_findBy? {p : α → Bool} {r : Option (Entry α)} :
    Runs (t.findBy? p) s r s' ↔
      r = ((t.read s).findBy? p).map (fun e => ⟨e.1, e.2⟩) ∧ s' = s := runs_reads

@[simp] theorem runs_any {p : α → Bool} {r : Bool} :
    Runs (t.any p) s r s' ↔ r = (t.read s).any p ∧ s' = s := runs_reads

@[simp] theorem runs_getBy {p : α → Bool} {msg : String} {e : Entry α} :
    Runs (t.getBy p msg) s e s' ↔ (t.read s).findBy? p = some (e.id, e.val) ∧ s' = s := by
  obtain ⟨i, a⟩ := e
  simp only [getBy, runs_bind, runs_findBy?]
  cases h : (t.read s).findBy? p with
  | none => simp
  | some x =>
      simp only [Option.map_some, Option.some.injEq, Prod.ext_iff]
      constructor
      · rintro ⟨_, _, ⟨rfl, rfl⟩, hr⟩
        obtain ⟨hx, rfl⟩ := runs_pure.mp hr
        exact ⟨⟨(congrArg Entry.id hx).symm, (congrArg Entry.val hx).symm⟩, rfl⟩
      · rintro ⟨⟨rfl, rfl⟩, rfl⟩
        exact ⟨_, _, ⟨rfl, rfl⟩, runs_pure.mpr ⟨rfl, rfl⟩⟩

@[simp] theorem runs_get {a : α} :
    Runs (t.get id) s a s' ↔ (t.read s).find? id = some a ∧ s' = s := by
  simp only [get, runs_bind, runs_reads]
  cases h : (t.read s).find? id with
  | none => simp
  | some x =>
      constructor
      · rintro ⟨_, _, ⟨rfl, rfl⟩, hr⟩
        obtain ⟨rfl, rfl⟩ := runs_pure.mp hr
        exact ⟨rfl, rfl⟩
      · rintro ⟨hx, rfl⟩
        obtain rfl := Option.some.inj hx
        exact ⟨_, _, ⟨rfl, rfl⟩, runs_pure.mpr ⟨rfl, rfl⟩⟩

@[simp] theorem runs_put {b : α} :
    Runs (t.put id b) s u s' ↔ s' = t.write s ((t.read s).update id fun _ => b) := by
  simp only [Runs, put, Except.ok.injEq, Prod.mk.injEq, true_and]
  exact eq_comm

@[simp] theorem runs_modify {change : α → Except Exn α} :
    Runs (t.modify id change) s u s' ↔
      ∃ a b, (t.read s).find? id = some a ∧ change a = .ok b ∧
        s' = t.write s ((t.read s).update id fun _ => b) := by
  simp only [modify, runs_bind, runs_get, runs_ofExcept, runs_put]
  constructor
  · rintro ⟨a, _, ⟨ha, rfl⟩, b, _, ⟨hb, rfl⟩, hs⟩
    exact ⟨a, b, ha, hb, hs⟩
  · rintro ⟨a, b, ha, hb, hs⟩
    exact ⟨a, s, ⟨ha, rfl⟩, b, s, ⟨hb, rfl⟩, hs⟩

@[simp] theorem runs_create {a : α} :
    Runs (t.create a) s id s' ↔
      (t.read s).any (t.clash a) = false ∧ id = (t.read s).nextId ∧
        s' = t.write s ((t.read s).create a) := by
  simp only [Runs, create]
  split
  case isTrue h => simp [h]
  case isFalse h =>
    have hfree : (t.read s).any (t.clash a) = false := by simpa using h
    simp only [Except.ok.injEq, Prod.mk.injEq, hfree, true_and]
    exact ⟨fun h => ⟨h.1.symm, h.2.symm⟩, fun h => ⟨h.1.symm, h.2.symm⟩⟩

@[simp] theorem runs_remove :
    Runs (t.remove id) s u s' ↔ s' = t.write s ((t.read s).remove id) := by
  simp only [Runs, remove, Except.ok.injEq, Prod.mk.injEq, true_and]
  exact eq_comm

end Table

@[simp] theorem runs_require {c : Bool} {msg : String} {s s' : Database} {u : Unit} :
    Runs (require c msg) s u s' ↔ c = true ∧ s' = s := by
  simp [require]

@[simp] theorem runs_requireE {c : Except Exn Bool} {msg : String} {s s' : Database} {u : Unit} :
    Runs (requireE c msg) s u s' ↔ c = .ok true ∧ s' = s := by
  simp only [requireE, runs_bind, runs_ofExcept, runs_require]
  constructor
  · rintro ⟨b, _, ⟨hb, rfl⟩, rfl, rfl⟩
    exact ⟨hb, rfl⟩
  · rintro ⟨hb, rfl⟩
    exact ⟨true, _, ⟨hb, rfl⟩, rfl, rfl⟩

/-! ### Leading steps -/

section Leading

variable {α β : Type} {t : Table α} {s s' : Database} {b : β}

@[simp] theorem runs_bind_require {c : Bool} {msg : String} {f : Unit → DbM β} :
    Runs (require c msg >>= f) s b s' ↔ c = true ∧ Runs (f ()) s b s' := by
  rw [runs_bind_of_still fun _ _ => runs_require]
  exact ⟨fun ⟨_, h⟩ => h, fun h => ⟨(), h⟩⟩

@[simp] theorem runs_bind_requireE {c : Except Exn Bool} {msg : String} {f : Unit → DbM β} :
    Runs (requireE c msg >>= f) s b s' ↔ c = .ok true ∧ Runs (f ()) s b s' := by
  rw [runs_bind_of_still fun _ _ => runs_requireE]
  exact ⟨fun ⟨_, h⟩ => h, fun h => ⟨(), h⟩⟩

@[simp] theorem runs_bind_findBy? {p : α → Bool} {f : Option (Entry α) → DbM β} :
    Runs (t.findBy? p >>= f) s b s' ↔
      Runs (f (((t.read s).findBy? p).map fun e => ⟨e.1, e.2⟩)) s b s' := runs_bind_reads

@[simp] theorem runs_bind_any {p : α → Bool} {f : Bool → DbM β} :
    Runs (t.any p >>= f) s b s' ↔ Runs (f ((t.read s).any p)) s b s' := runs_bind_reads

@[simp] theorem runs_bind_getBy {p : α → Bool} {msg : String} {f : Entry α → DbM β} :
    Runs (t.getBy p msg >>= f) s b s' ↔
      ∃ e, (t.read s).findBy? p = some (e.id, e.val) ∧ Runs (f e) s b s' :=
  runs_bind_of_still fun _ _ => Table.runs_getBy

@[simp] theorem runs_bind_get {id : Nat} {f : α → DbM β} :
    Runs (t.get id >>= f) s b s' ↔ ∃ a, (t.read s).find? id = some a ∧ Runs (f a) s b s' :=
  runs_bind_of_still fun _ _ => Table.runs_get

@[simp] theorem runs_bind_create {a : α} {f : Nat → DbM β} :
    Runs (t.create a >>= f) s b s' ↔
      (t.read s).any (t.clash a) = false ∧
        Runs (f (t.read s).nextId) (t.write s ((t.read s).create a)) b s' := by
  simp only [runs_bind, Table.runs_create]
  constructor
  · intro h
    obtain ⟨_, _, ⟨hc, hid, hs⟩, h⟩ := h
    exact ⟨hc, hid ▸ hs ▸ h⟩
  · intro h
    exact ⟨_, _, ⟨h.1, rfl, rfl⟩, h.2⟩

@[simp] theorem runs_bind_modify {id : Nat} {change : α → Except Exn α} {f : Unit → DbM β} :
    Runs (t.modify id change >>= f) s b s' ↔
      ∃ x y, (t.read s).find? id = some x ∧ change x = .ok y ∧
        Runs (f ()) (t.write s ((t.read s).update id fun _ => y)) b s' := by
  simp only [runs_bind, Table.runs_modify]
  constructor
  · intro h
    obtain ⟨_, _, ⟨x, y, hx, hy, hs⟩, h⟩ := h
    exact ⟨x, y, hx, hy, hs ▸ h⟩
  · intro h
    obtain ⟨x, y, hx, hy, h⟩ := h
    exact ⟨(), _, ⟨x, y, hx, hy, rfl⟩, h⟩

@[simp] theorem runs_bind_remove {id : Nat} {f : Unit → DbM β} :
    Runs (t.remove id >>= f) s b s' ↔ Runs (f ()) (t.write s ((t.read s).remove id)) b s' := by
  simp only [runs_bind, Table.runs_remove]
  constructor
  · intro h
    obtain ⟨_, _, hs, h⟩ := h
    exact hs ▸ h
  · intro h
    exact ⟨(), _, rfl, h⟩

@[simp] theorem runs_bind_put {id : Nat} {x : α} {f : Unit → DbM β} :
    Runs (t.put id x >>= f) s b s' ↔
      Runs (f ()) (t.write s ((t.read s).update id fun _ => x)) b s' := by
  simp only [runs_bind, Table.runs_put]
  constructor
  · intro h
    obtain ⟨_, _, hs, h⟩ := h
    exact hs ▸ h
  · intro h
    exact ⟨(), _, rfl, h⟩

end Leading

/-! ## The tables -/

/-- A table of the registry, seen as a table of the whole state. -/
def Table.ofRegistry {α : Type} (read : Registry → ObjectIndex α)
    (write : Registry → ObjectIndex α → Registry) (clash : α → α → Bool) : Table α where
  read s := read s.toRegistry
  write s x := { s with toRegistry := write s.toRegistry x }
  clash := clash

def accountIndex : Table AccountObject where
  read := Database.accounts
  write s x := { s with accounts := x }
  clash a b := a.name = b.name

def accountBalanceIndex : Table AccountBalanceObject where
  read := Database.accountBalances
  write s x := { s with accountBalances := x }
  clash a b := a.owner = b.owner ∧ a.assetType = b.assetType

def assetIndex : Table AssetObject where
  read := Database.assets
  write s x := { s with assets := x }
  clash a b := a.symbolString = b.symbolString

def balanceIndex : Table BalanceObject where
  read := Database.balances
  write s x := { s with balances := x }

def limitOrderIndex : Table LimitOrderObject where
  read := Database.limitOrders
  write s x := { s with limitOrders := x }
  clash a b := a.seller = b.seller ∧ a.orderid = b.orderid

def convertRequestIndex : Table ConvertRequestObject where
  read := Database.convertRequests
  write s x := { s with convertRequests := x }
  clash a b := a.owner = b.owner ∧ a.requestid = b.requestid

def vestingDelegationIndex : Table VestingDelegationObject where
  read := Database.delegations
  write s x := { s with delegations := x }
  clash a b := a.delegator = b.delegator ∧ a.delegatee = b.delegatee

def vestingDelegationExpirationIndex : Table VestingDelegationExpirationObject where
  read := Database.delegationExpirations
  write s x := { s with delegationExpirations := x }

def contentIndex : Table ContentObject where
  read := Database.contents
  write s x := { s with contents := x }
  clash a b := a.url = b.url

def streamingPlatformIndex : Table StreamingPlatformObject where
  read := Database.platforms
  write s x := { s with platforms := x }
  clash a b := a.owner = b.owner

def reportIndex : Table ReportObject where
  read := Database.reports
  write s x := { s with reports := x }

def streamingPlatformUserIndex : Table StreamingPlatformUserObject where
  read := Database.platformUsers
  write s x := { s with platformUsers := x }
  clash a b := a.streamingPlatform = b.streamingPlatform ∧ a.spUserId = b.spUserId

def streamReportRequestIndex : Table StreamReportRequestObject where
  read := Database.reportRequests
  write s x := { s with reportRequests := x }
  clash a b := a.requestor = b.requestor ∧ a.reporter = b.reporter

def proposalIndex : Table ProposalObject where
  read := Database.proposals
  write s x := { s with proposals := x }

abbrev withdrawVestingRouteIndex : Table WithdrawVestingRouteObject :=
  .ofRegistry Registry.withdrawRoutes (fun r x => { r with withdrawRoutes := x })
    fun a b => a.fromAccount = b.fromAccount ∧ a.toAccount = b.toAccount

abbrev ownerAuthorityHistoryIndex : Table OwnerAuthorityHistoryObject :=
  .ofRegistry Registry.ownerHistory (fun r x => { r with ownerHistory := x }) fun _ _ => false

abbrev accountRecoveryRequestIndex : Table AccountRecoveryRequestObject :=
  .ofRegistry Registry.recoveryRequests (fun r x => { r with recoveryRequests := x }) fun _ _ => false

abbrev changeRecoveryAccountRequestIndex : Table ChangeRecoveryAccountRequestObject :=
  .ofRegistry Registry.changeRecoveryRequests (fun r x => { r with changeRecoveryRequests := x })
    fun _ _ => false

/-- Both the content and the approver are unique keys of the approvals. -/
abbrev contentApproveIndex : Table ContentApproveObject :=
  .ofRegistry Registry.contentApprovals (fun r x => { r with contentApprovals := x })
    fun a b => a.content = b.content ∨ a.approver = b.approver

abbrev contentVoteIndex : Table ContentVoteObject :=
  .ofRegistry Registry.contentVotes (fun r x => { r with contentVotes := x })
    fun a b => a.content = b.content ∧ a.voter = b.voter

abbrev streamingPlatformVoteIndex : Table StreamingPlatformVoteObject :=
  .ofRegistry Registry.platformVotes (fun r x => { r with platformVotes := x })
    fun a b => a.account = b.account ∧ a.streamingPlatform = b.streamingPlatform

abbrev witnessIndex : Table WitnessObject :=
  .ofRegistry Registry.witnesses (fun r x => { r with witnesses := x }) fun a b => a.owner = b.owner

abbrev witnessVoteIndex : Table WitnessVoteObject :=
  .ofRegistry Registry.witnessVotes (fun r x => { r with witnessVotes := x })
    fun a b => a.account = b.account ∧ a.witness = b.witness

end BtcmChain
