import BtcmChain.Evaluator.Proposal
import BtcmChain.Lib.FlatSet

set_option autoImplicit false

/-!
# Signatures against authorities

`sign_state` answers whether a set of signatures and approvals satisfies an authority. It notes
which signatures it has made use of and which accounts it has found to approve; the second note
is kept from one authority to the next. The depth up to which it follows accounts is counted
down here, from the `max_recursion` of the source to zero.

`verify_authority` asks it for everything a list of operations requires, and
`get_required_signatures` lets it loose on keys that could sign and returns the ones it made
use of. A getter may return a null pointer (`none`) and may throw.
-/

namespace BtcmChain

/-- `authority_getter`: the authority of an account, which may be missing, or an exception. -/
abbrev AuthorityLookup := String → Except Exn (Option Authority)

/-- `sign_state`, less what does not change: which signatures were made use of, and who approves. -/
structure SignState where
  providedSignatures : FlatMap PublicKey Bool
  approvedBy : List String

/-- A computation that consults a `sign_state`, and may throw what the getters throw. -/
abbrev SignM := StateT SignState (Except Exn)

namespace SignState

/-- The constructor of `sign_state`, with the accounts that `verify_authority` inserts behind it. -/
def init (sigs : List PublicKey) (approvals : List String) : SignState where
  providedSignatures := FlatMap.ofList (sigs.map fun k => (k, false))
  approvedBy := "temp" :: approvals

/-- A signature has been made use of, and is marked so. -/
def use (s : SignState) (k : PublicKey) : SignState :=
  { s with providedSignatures := s.providedSignatures.set k true }

/-- An account has been found to approve, and is noted so that it is not looked at again. -/
def approve (s : SignState) (id : String) : SignState := { s with approvedBy := id :: s.approvedBy }

/-- The keys that `remove_unused_signatures` takes away: those that were not made use of. -/
def unused (s : SignState) : List PublicKey :=
  (s.providedSignatures.entries.filter fun e => !e.2).map Prod.fst

section Check

variable (availableKeys : List PublicKey) (getActive : AuthorityLookup)

/-- `signed_by`: whether the key has signed, or is available to sign, which marks it as used. -/
def signedBy (k : PublicKey) : SignM Bool := fun s =>
  match s.providedSignatures.find? k with
  | none => if k ∈ availableKeys then .ok (true, s.use k) else .ok (false, s)
  | some _ => .ok (true, s.use k)

/-- The loop over the keys: whether the threshold was reached, and the weight so far. -/
def sumKeys (threshold : UInt32) : List (PublicKey × UInt16) → UInt32 → SignM (Bool × UInt32)
  | [], w => pure (false, w)
  | k :: ks, w => do
      let signed ← signedBy availableKeys k.1
      if signed then
        if threshold ≤ w + k.2.toUInt32 then return (true, w + k.2.toUInt32)
        else sumKeys threshold ks (w + k.2.toUInt32)
      else sumKeys threshold ks w

/-- The loop over the accounts. `check` is absent at the depth limit. -/
def sumAccounts (check : Option (Option Authority → SignM Bool)) (threshold : UInt32) :
    List (String × UInt16) → UInt32 → SignM Bool
  | [], w => pure (threshold ≤ w)
  | a :: as, w => do
      let approved ← reads fun s => decide (a.1 ∈ s.approvedBy)
      if approved then
        if threshold ≤ w + a.2.toUInt32 then return true
        else sumAccounts check threshold as (w + a.2.toUInt32)
      else
        match check with
        | none => sumAccounts check threshold as w
        | some f => do
            let auth ← ofExcept (getActive a.1)
            let satisfied ← f auth
            if satisfied then do
              modify fun s => s.approve a.1
              if threshold ≤ w + a.2.toUInt32 then return true
              else sumAccounts check threshold as (w + a.2.toUInt32)
            else sumAccounts check threshold as w

/-- The body of `check_authority`, given how nested accounts are checked. -/
def checkMembers (check : Option (Option Authority → SignM Bool)) (auth : Authority) : SignM Bool := do
  let byKeys ← sumKeys availableKeys auth.weightThreshold auth.keyAuths.entries 0
  if byKeys.1 then return true
  else sumAccounts getActive check auth.weightThreshold auth.accountAuths.entries byKeys.2

/-- `check_authority( authority, depth )`, by the depth that is left. -/
def checkAuthority : Nat → Option Authority → SignM Bool
  | _, none => pure false
  | 0, some auth => checkMembers availableKeys getActive none auth
  | n + 1, some auth => checkMembers availableKeys getActive (some (checkAuthority n)) auth

/-- `check_authority( id )`: the account is noted as approving, or its active authority is checked.
-/
def checkAccount (maxRecursion : Nat) (id : String) : SignM Bool := do
  let approved ← reads fun s => decide (id ∈ s.approvedBy)
  if approved then return true
  else do
    let auth ← ofExcept (getActive id)
    checkAuthority availableKeys getActive maxRecursion auth

/-- `check_authority( getter( id ) )`: the authority that a getter finds is checked. -/
def checkFetched (maxRecursion : Nat) (auth : Except Exn (Option Authority)) : SignM Bool := do
  let auth ← ofExcept auth
  checkAuthority availableKeys getActive maxRecursion auth

end Check

end SignState

/-! ## `verify_authority` -/

/-- The getters for the authorities of accounts and of contents. -/
structure AuthorityLookups where
  active : AuthorityLookup
  owner : AuthorityLookup
  basic : AuthorityLookup
  masterContent : AuthorityLookup
  compContent : AuthorityLookup

/-- The approvals that a proposal has collected, for each of the three authorities. -/
structure Approvals where
  active : List String := []
  owner : List String := []
  basic : List String := []

/-- The approvals of a proposal in the order in which they are inserted. -/
def Approvals.all (a : Approvals) : List String := a.basic ++ a.active ++ a.owner

/-- What the operations require, less what active and owner authority cover. -/
def requiredAuthorities (ops : List Operation) : Required :=
  let active := nameSet (ops.flatMap Operation.requiredActive)
  let owner := nameSet (ops.flatMap Operation.requiredOwner)
  { active
    owner
    basic := (nameSet (ops.flatMap Operation.requiredBasic)).filter fun n => n ∉ active ∧ n ∉ owner
    masterContent := nameSet (ops.flatMap Operation.requiredMasterContent)
    compContent := nameSet (ops.flatMap Operation.requiredCompContent)
    other := ops.flatMap Operation.requiredOther }

/-- The getter that nested accounts are looked up with, which depends on what is required. -/
def AuthorityLookups.nested (g : AuthorityLookups) (req : Required) : AuthorityLookup :=
  if req.basic.isEmpty then g.active else g.basic

/-- Of several checks, the first to succeed decides; the others are not made. -/
def firstOf : List (SignM Bool) → SignM Bool
  | [] => pure false
  | c :: cs => do
      let satisfied ← c
      if satisfied then return true else firstOf cs

/-- Throw with this message unless one of the checks succeeds. -/
def needOneOf (msg : String) (checks : List (SignM Bool)) : SignM Unit := do
  let satisfied ← firstOf checks
  ofExcept (fcAssert satisfied msg)

/-- The checks of `verify_authority`, for each required authority in turn. -/
def checkRequired (g : AuthorityLookups) (maxRecursion : Nat) (ownerApprovals : List String)
    (req : Required) : SignM Unit := do
  let get := g.nested req
  let account := SignState.checkAccount [] get maxRecursion
  let fetched := SignState.checkFetched [] get maxRecursion
  req.other.forM fun auth => needOneOf "Missing Authority" [fetched (.ok (some auth))]
  req.basic.forM fun id => needOneOf "Missing Basic Authority ${id}"
    [account id, fetched (g.active id), fetched (g.owner id)]
  req.active.forM fun id => needOneOf "Missing Active Authority ${id}"
    [account id, fetched (g.owner id)]
  req.masterContent.forM fun url => needOneOf "Missing Content Authority for content ${con}"
    [fetched (g.masterContent url)]
  req.compContent.forM fun url => needOneOf "Missing Content Authority for content ${con}"
    [fetched (g.compContent url)]
  req.owner.forM fun id => needOneOf "Missing Owner Authority ${id}"
    [pure (decide (id ∈ ownerApprovals)), fetched (g.owner id)]

/-- `verify_authority`: all that is required is checked, and no signature may be superfluous unless
that is allowed. -/
def verifyAuthority (ops : List Operation) (sigs : List PublicKey) (g : AuthorityLookups)
    (allowExtraSigs : Bool) (maxRecursionDepth : UInt32) (approvals : Approvals) :
    Except Exn Unit := do
  let req ← requiredOf ops
  let r ← checkRequired g maxRecursionDepth.toNat approvals.owner req (.init sigs approvals.all)
  fcAssert (allowExtraSigs || r.2.unused.isEmpty) "Unnecessary signature(s) detected"

/-! ## `get_required_signatures` -/

/-- `tx_missing_owner_auth`, `tx_missing_active_auth`, `tx_missing_basic_auth` and
`tx_missing_other_auth`, which are known by their texts. -/
def Exn.isMissingAuth : Exn → Bool
  | .assert msg => ["Missing Owner Authority ${id}", "Missing Active Authority ${id}",
      "Missing Content Authority for content ${con}", "Missing Basic Authority ${id}",
      "Missing Authority"].contains msg
  | _ => false

end BtcmChain
