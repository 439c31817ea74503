import BtcmChain.Sound.Approvals
import BtcmChain.Sound.Chains

set_option autoImplicit false
set_option synthInstance.maxSize 10000000
set_option synthInstance.maxHeartbeats 200000

/-!
# Signed transactions

`Chain.Transactions` takes the check of a transaction's signatures as a parameter. Here it is the
check of the source: the keys are recovered from the signatures, no two of them the same, and go to
the `verify_authority` of `Chain.SignState` with the authorities of the database. Only hashing and
the recovery of one key stay parameters. What is shown of that verifier then holds of every
transaction of a chain whose checks are all made.
-/

namespace BtcmChain

open Threshold

/-- `BTCM_MAX_SIG_CHECK_DEPTH`: so deep authorities may be nested in a transaction. -/
def BTCM_MAX_SIG_CHECK_DEPTH : UInt32 := 2

namespace SignedTransaction

/-- `get_signature_keys`, given how a key is recovered from a signature. -/
def getSignatureKeys (recover : Transaction → Nat → Except Exn PublicKey) (t : SignedTransaction) :
    Except Exn (List PublicKey) :=
  t.signatures.foldlM (fun keys sig => do
    let k ← recover t.toTransaction sig
    fcAssert (k ∉ keys) "Duplicate Signature detected"
    return keys ++ [k]) []

/-- `signed_transaction::verify_authority`, with the keys behind the signatures and with the getters
of `_apply_transaction`. -/
def verifyAuthority (recover : Transaction → Nat → Except Exn PublicKey) (t : SignedTransaction)
    (s : Database) : Except Exn Unit := do
  let keys ← t.getSignatureKeys recover
  BtcmChain.verifyAuthority t.operations keys s.authorityLookups false BTCM_MAX_SIG_CHECK_DEPTH {}

end SignedTransaction

/-- Hashing, and the recovery of keys; signatures are checked as the source checks them. -/
class Recovery extends Cryptography where
  recover : Transaction → Nat → Except Exn PublicKey
  verifyAuthority_eq (t : SignedTransaction) (s : Database) :
    verifyAuthority t s = t.verifyAuthority recover s

/-- Any way to recover keys goes with any hashing, and makes up its `verify_authority`. -/
abbrev Recovery.with (c : Cryptography) (recover : Transaction → Nat → Except Exn PublicKey) :
    Recovery where
  toCryptography := { c with verifyAuthority := fun t s => t.verifyAuthority recover s }
  recover
  verifyAuthority_eq _ _ := rfl

/-! ## Recovered keys -/

/-- `get_signature_keys` gives a key for every signature, and no key twice. -/
theorem getSignatureKeys_ok {recover : Transaction → Nat → Except Exn PublicKey}
    {t : SignedTransaction} {keys : List PublicKey} (h : t.getSignatureKeys recover = .ok keys) :
    keys.Nodup ∧ List.Forall₂ (fun sig k => recover t.toTransaction sig = .ok k) t.signatures keys := by
  have hloop (sigs : List Nat) (before after : List PublicKey) (hbefore : before.Nodup)
      (h : sigs.foldlM (fun keys sig => do
        let k ← recover t.toTransaction sig
        fcAssert (k ∉ keys) "Duplicate Signature detected"
        return keys ++ [k]) before = .ok after) :
      after.Nodup ∧ ∃ new, after = before ++ new ∧
        List.Forall₂ (fun sig k => recover t.toTransaction sig = .ok k) sigs new := by
    induction sigs generalizing before with
    | nil =>
        obtain rfl := except_pure_ok.mp h
        exact ⟨hbefore, [], (List.append_nil _).symm, .nil⟩
    | cons sig sigs ih =>
        rw [List.foldlM_cons] at h
        obtain ⟨next, hnext, h⟩ := except_bind_ok.mp h
        obtain ⟨k, hk, hnext⟩ := except_bind_ok.mp hnext
        obtain ⟨⟨⟩, hfresh, hnext⟩ := except_bind_ok.mp hnext
        obtain rfl := except_pure_ok.mp hnext
        rw [fcAssert_ok, decide_eq_true_eq] at hfresh
        obtain ⟨hnodup, new, rfl, hnew⟩ := ih _ (List.nodup_append.mpr ⟨hbefore,
          List.nodup_singleton k, fun a ha b hb hab => hfresh (by
            rw [List.mem_singleton.mp hb] at hab
            exact hab ▸ ha)⟩) h
        exact ⟨hnodup, k :: new, by rw [List.append_assoc, List.singleton_append], .cons hk hnew⟩
  obtain ⟨hnodup, new, rfl, hnew⟩ := hloop _ _ _ List.nodup_nil h
  exact ⟨hnodup, hnew⟩

/-! ## Transactions of a chain -/

/-- The signatures of a transaction satisfy what its operations require in this database, by finite
derivations, and every one of them belongs to an authority the requirements lead to. -/
def SignedTransaction.Authorized (recover : Transaction → Nat → Except Exn PublicKey)
    (t : SignedTransaction) (s : Database) : Prop :=
  ∃ keys, t.getSignatureKeys recover = .ok keys ∧ keys.Nodup ∧
    (requiredAuthorities t.operations).Met (· ∈ keys) (Preapproved []) s.authorityLookups [] ∧
    ∀ k ∈ keys, ∃ scheme, Leads (s.authorityLookups.nested (requiredAuthorities t.operations)).scheme
      (Roots s.authorityLookups (requiredAuthorities t.operations)) scheme ∧
        k ∈ scheme.keys.map Prod.fst

section Chain

variable [Externals] [Recovery] {s s' : Objects}

/-- **One transaction**: with all checks made, it is authorized where it is applied. -/
theorem authorized_of_applied {t : SignedTransaction}
    (h : Runs (applySignedTransaction skipNothing t) s () s') :
    t.Authorized Recovery.recover s.db := by
  obtain ⟨-, -, hauth, -⟩ := runs_applySignedTransaction.mp h
  have hverified := hauth rfl
  rw [Recovery.verifyAuthority_eq] at hverified
  obtain ⟨keys, hkeys, hverified⟩ := except_bind_ok.mp hverified
  obtain ⟨hmet, _, _, hused⟩ := authority_sound hverified
  exact ⟨keys, hkeys, (getSignatureKeys_ok hkeys).1, hmet, fun k hk => ((hused rfl).2 k hk).2⟩

/-- **The transactions of a block**: each is authorized behind those before it. -/
theorem authorized_of_forM {front back : List SignedTransaction} {t : SignedTransaction}
    (h : Runs ((front ++ t :: back).forM (applySignedTransaction skipNothing)) s () s') :
    ∃ u, Runs (front.forM (applySignedTransaction skipNothing)) s () u ∧
      t.Authorized Recovery.recover u.db := by
  induction front generalizing s with
  | nil =>
      obtain ⟨_, u, ht, _⟩ := runs_bind.mp h
      exact ⟨s, runs_pure.mpr ⟨rfl, rfl⟩, authorized_of_applied ht⟩
  | cons first front ih =>
      obtain ⟨_, v, hfirst, h⟩ := runs_bind.mp h
      obtain ⟨u, hfront, hu⟩ := ih h
      exact ⟨u, runs_bind.mpr ⟨(), v, hfirst, hfront⟩, hu⟩

variable {β : Type} [ChainBlock β] [HasContents β]

/-- **The transactions of a chain**: with all checks made, each is authorized in the database it was
applied to, behind the blocks before its own, the header of its block and the transactions before
it. -/
theorem authorized_of_chained {g : GenesisState} {front back : List β} {b : β}
    {last : ChainState Objects}
    (h : Chained (fun _ => .ok skipNothing) g (front ++ b :: back) last)
    {before after : List SignedTransaction} {t : SignedTransaction}
    (ht : (HasContents.contents b).transactions = before ++ t :: after) :
    ∃ c d u, Chained (fun _ => .ok skipNothing) g front c ∧
      Runs (do
        validateBlockHeader skipNothing (HasContents.contents b)
        modifyParams fun p => { p with currentWitness := (HasContents.contents b).witness })
        c.rest.db () d ∧
      Runs (before.forM (applySignedTransaction skipNothing)) { c.rest with db := d } () u ∧
      t.Authorized Recovery.recover u.db := by
  obtain ⟨c, _, hc, hb⟩ := h.applied rfl
  obtain ⟨-, -, skip, hskip, hr⟩ := applyBlockUnder_ok.mp hb
  obtain rfl := Except.ok.inj hskip
  obtain ⟨d, _, _, _, hparts⟩ := runs_applyContents.mp hr
  have htransactions := hparts.transactions
  rw [ht] at htransactions
  obtain ⟨u, hbefore, hu⟩ := authorized_of_forM htransactions
  exact ⟨c, d, u, hc, hparts.header, hbefore, hu⟩

end Chain

end BtcmChain
