import BtcmChain.Chain.Block

set_option autoImplicit false

/-!
# Genesis

`init_genesis`: the state before the first block, from the genesis file. The amounts
of the file are not negative by construction of its type.

The accounts that every chain has come first, among them the initial witnesses, of which
`initminer` gets the initial supply; then the global properties, the three core assets and the
first schedule; and at last what the file lists, accounts, assets, balances and vesting balances in
this order. Accounts of the file are created by the evaluator of the operation
(`InitialAccount.operation`). `initGenesis` fails where the source asserts, so that a state it
leads to is one the source starts from.
-/

namespace BtcmChain

/-- `initial_account_type`: an account that is there from the start, with its two keys. -/
structure InitialAccount where
  name : String
  ownerKey : PublicKey
  activeKey : PublicKey

/-- `initial_asset_type`: an asset that is there from the start, whose supply is not negative. -/
structure InitialAsset where
  symbol : String
  issuerName : String
  description : String := ""
  maxSupply : ShareType
  maxSupply_nonneg : 0 ≤ maxSupply.toInt

/-- `initial_balance_type`; the owner is an account name or an address. -/
structure InitialBalance where
  owner : String
  amount : ShareType
  amount_nonneg : 0 ≤ amount.toInt

/-- `initial_vesting_balance_type`: vesting shares that an account has from the start. -/
structure InitialVestingBalance where
  owner : AccountId
  amount : ShareType
  amount_nonneg : 0 ≤ amount.toInt

/-- `genesis_state_type`: what `init_genesis` is given to start a chain with. -/
structure GenesisState where
  initSupply : ShareType := 0
  initialAccounts : List InitialAccount := []
  initialAssets : List InitialAsset := []
  initialBalances : List InitialBalance := []
  initialVestingBalances : List InitialVestingBalance := []
  initSupply_nonneg : 0 ≤ initSupply.toInt := by decide

section Amounts

theorem nothing_nonneg : 0 ≤ (0 : ShareType).toInt := by decide

theorem thousand_nonneg : 0 ≤ (1000 : ShareType).toInt := by decide

theorem million_nonneg : 0 ≤ (1000000 : ShareType).toInt := by decide

theorem quintillion_nonneg : 0 ≤ (1000000000000000000 : ShareType).toInt := by decide

theorem nineQuintillion_nonneg : 0 ≤ (9000000000000000000 : ShareType).toInt := by decide

theorem trillion_nonneg : 0 ≤ (1000000000000 : ShareType).toInt := by decide

end Amounts

/-- `BTCM_INIT_PUBLIC_KEY`: the key that the initial witnesses sign with. -/
def BTCM_INIT_PUBLIC_KEY : PublicKey := 1

/-- The three accounts without keys: the first two can never sign, the third always. -/
def keylessAccount (name : String) (threshold : UInt32) : AccountObject where
  name
  owner := { weightThreshold := threshold }
  active := { weightThreshold := threshold }

/-- The names of the initial witnesses, in the order in which genesis creates them. -/
def initMinerNames : List String := ["initminer", "initminer1", "initminer2"]

/-- An initial witness and its account; the first one holds the initial supply. -/
def createInitMiner (name : String) (balance : ShareType) : DbM Unit := do
  let auth := Authority.ofKey 1 BTCM_INIT_PUBLIC_KEY 1
  let _ ← accountIndex.create
    { name, owner := auth, active := auth, basic := auth, memoKey := BTCM_INIT_PUBLIC_KEY, balance }
  let _ ← witnessIndex.create { owner := name, signingKey := BTCM_INIT_PUBLIC_KEY }

/-- A core asset; its issuer is the default account number 0. -/
def coreAsset (symbol description : String) : AssetObject where
  symbolString := symbol
  options := { description }

variable [Externals]

/-- The operation that an initial account is created by, on behalf of the temporary account. -/
def InitialAccount.operation (a : InitialAccount) : AccountCreateOperation :=
  let active := Authority.ofKey 1 (if a.activeKey = 0 then a.ownerKey else a.activeKey) 1
  { fee := {}
    creator := "temp"
    newAccountName := a.name
    owner := Authority.ofKey 1 a.ownerKey 1
    active
    basic := active
    memoKey := if a.activeKey = 0 then a.ownerKey else a.activeKey }

/-- An initial asset is created for its issuer, with its description and the largest supply it may
have. -/
def importAsset (a : InitialAsset) : DbM Unit := do
  let issuer ← getAccount a.issuerName
  let _ ← assetIndex.create {
    symbolString := a.symbol
    issuer := issuer.id
    options := { description := a.description, maxSupply := a.maxSupply, flags := 0x40 } }

/-- An initial balance: on the account of that name, or claimable by an address. -/
def importBalance (b : InitialBalance) : DbM Unit := do
  let owner ← accountIndex.findBy? (·.name = b.owner)
  owner.elim
    (do
      let address ← ofExcept (Externals.parseAddress b.owner)
      let _ ← balanceIndex.create { owner := address, balance := b.amount })
    fun a => adjustBalance a.id (btcm b.amount)
  modifySupply fun p => do
    let currentSupply ← safeAdd p.currentSupply b.amount
    return { p with currentSupply, virtualSupply := currentSupply }
  assetIndex.modify BTCM_SYMBOL fun a => do
    let currentSupply ← safeAdd a.currentSupply b.amount
    return { a with currentSupply }

/-- An initial vesting balance. No BTCM goes into the vesting fund for it. -/
def importVesting (v : InitialVestingBalance) : DbM Unit := do
  modifyStake v.owner fun a => do
    let vestingShares ← safeAdd a.vestingShares v.amount
    return { a with vestingShares }
  modifySupply fun p => do
    let totalVestingShares ← safeAdd p.totalVestingShares v.amount
    return { p with totalVestingShares }

/-- The global properties that genesis starts with, before anything is issued. -/
def genesisProperties (initSupply : ShareType) : DynamicGlobalPropertyObject where
  currentWitness := "initminer"
  time := 1585422000
  currentSupply := initSupply
  virtualSupply := initSupply
  maximumBlockSize := 393216000

/-- `init_genesis`: the first accounts, the properties, and what the genesis state lists, in this
order. -/
def initGenesis (g : GenesisState) : DbM Unit := do
  let _ ← accountIndex.create (keylessAccount "miners" 1)
  let _ ← accountIndex.create (keylessAccount "null" 1)
  let _ ← accountIndex.create (keylessAccount "temp" 0)
  createInitMiner "initminer" g.initSupply
  createInitMiner "initminer1" 0
  createInitMiner "initminer2" 0
  modifyDgpo fun _ => .ok (genesisProperties g.initSupply)
  let _ ← assetIndex.create (coreAsset "BTCM" "BTCM Core asset")
  let _ ← assetIndex.create (coreAsset "VEST" "BTCM Power asset")
  let _ ← assetIndex.create (coreAsset "XUSD" "BTCM backed dollars")
  modifySchedule fun s => { s with currentShuffledWitnesses := "initminer" :: initMinerNames }
  g.initialAccounts.forM fun a => accountCreateEvaluator a.operation
  g.initialAssets.forM importAsset
  g.initialBalances.forM importBalance
  g.initialVestingBalances.forM importVesting

end BtcmChain
