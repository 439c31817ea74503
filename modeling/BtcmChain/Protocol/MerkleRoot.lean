import BtcmChain.Fc.Safe
import BtcmChain.Lib.Effect

set_option autoImplicit false

/-!
# The Merkle root of a block

`calculate_merkle_root` as the source writes it: one vector of digests is paired up in place, round
after round. Counters are `uint32_t`, sizes `size_t`. Every access to the vector is written down.

`hashRound` is one round of the outer loop: it joins neighbours in the front part of the vector and
moves an odd last one, and `hashRounds` repeats it while more than one hash is left. The hash
functions are a parameter (`MerkleHashes`). Each read and each write is noted with its index, and
one behind the end is an error, so that memory safety and the number of rounds are statements about
the result; `Sound.MerkleRoot` shows how many rounds suffice.
-/

namespace BtcmChain

/-- What happens to the vector: the outer loop comes to its head, or a slot is read or written. -/
inductive Access where
  | round
  | read (slot : Nat)
  | write (slot : Nat)
  deriving DecidableEq, Repr

/-- The vector `ids`, and what has happened to it so far. -/
structure Digests (δ : Type) where
  ids : List δ
  trace : List Access := []

/-- A part of `calculate_merkle_root`, which works on the vector and may throw. -/
abbrev DigestM (δ : Type) := StateT (Digests δ) (Except Exn)

/-- The hash functions: of a transaction, of two digests, and of the root; and the values of digests
and checksums that nothing was hashed into. -/
structure MerkleHashes (τ δ γ : Type) where
  /-- `merkle_digest` of a transaction, which is what stands at the leaves. -/
  merkleDigest : τ → δ
  /-- `digest_type::hash( std::make_pair( a, b ) )`: the hash of two neighbours. -/
  hashPair : δ → δ → δ
  /-- `checksum_type::hash` of the root, which makes the checksum of it. -/
  checksum : δ → γ
  /-- `digest_type()`, which the vector is filled with before anything is hashed. -/
  noDigest : δ
  /-- `checksum_type()`, which a block without transactions has. -/
  noChecksum : γ

section Loops

variable {τ δ γ : Type}

/-- Write an event down, behind those that have happened already. -/
def note (event : Access) : DigestM δ Unit :=
  modify fun d => { d with trace := d.trace ++ [event] }

/-- `ids[i]` is read, which is undefined behind the end of the vector. -/
def readId (i : UInt32) : DigestM δ δ := do
  let d ← get
  note (.read i.toNat)
  d.ids[i.toNat]?.elim (throw .undefined) pure

/-- `ids[k] = x` is written, which is undefined behind the end of the vector. -/
def writeId (k : UInt32) (x : δ) : DigestM δ Unit := do
  let d ← get
  note (.write k.toNat)
  if k.toNat < d.ids.length then modify fun d => { d with ids := d.ids.set k.toNat x }
  else throw .undefined

/-- The loop that hashes the transactions into the vector, from number `i` on. -/
def digestLoop (merkleDigest : τ → δ) (transactions : List τ) : Nat → UInt32 → DigestM δ Unit
  | 0, _ => throw .outOfFuel
  | fuel + 1, i =>
      if i.toNat < transactions.length then do
        let t ← transactions[i.toNat]?.elim (throw .undefined) pure
        writeId i (merkleDigest t)
        digestLoop merkleDigest transactions fuel (i + 1)
      else pure ()

/-- The loop that hashes pairs, from `i` and `k`; it leaves `k`. -/
def pairLoop (hashPair : δ → δ → δ) (iMax : UInt32) : Nat → UInt32 → UInt32 → DigestM δ UInt32
  | 0, _, _ => throw .outOfFuel
  | fuel + 1, i, k =>
      if i < iMax then do
        let left ← readId i
        let right ← readId (i + 1)
        writeId k (hashPair left right)
        pairLoop hashPair iMax fuel (i + 2) (k + 1)
      else pure k

/-- The body of the outer loop: `current_number_of_hashes` slots are hashed in pairs, an odd one is
moved. -/
def hashRound (hashPair : δ → δ → δ) (fuel : Nat) (currentNumberOfHashes : UInt64) :
    DigestM δ UInt64 := do
  let iMax := (currentNumberOfHashes - (currentNumberOfHashes &&& 1)).toUInt32
  let k ← pairLoop hashPair iMax fuel 0 0
  if currentNumberOfHashes &&& 1 ≠ 0 then do
    let last ← readId iMax
    writeId k last
    return (k + 1).toUInt64
  else return k.toUInt64

/-- The outer loop: while more than one hash is left, a round hashes them in pairs. -/
def hashRounds (hashPair : δ → δ → δ) (steps : Nat) : Nat → UInt64 → DigestM δ Unit
  | 0, _ => throw .outOfFuel
  | fuel + 1, currentNumberOfHashes => do
      note .round
      if 1 < currentNumberOfHashes then do
        let k ← hashRound hashPair steps currentNumberOfHashes
        hashRounds hashPair steps fuel k
      else pure ()

/-- The part of `calculate_merkle_root` that works on the vector. Each loop gets `steps` rounds. -/
def hashTransactions (h : MerkleHashes τ δ γ) (transactions : List τ) (steps : Nat) :
    DigestM δ γ := do
  digestLoop h.merkleDigest transactions steps 0
  hashRounds h.hashPair steps steps (UInt64.ofNat transactions.length)
  let root ← readId 0
  return h.checksum root

/-- `calculate_merkle_root` of the transactions, with what happened to the vector on the way. -/
def calculateMerkleRoot (h : MerkleHashes τ δ γ) (transactions : List τ) (steps : Nat) :
    Except Exn (γ × List Access) :=
  if transactions.length = 0 then .ok (h.noChecksum, [])
  else do
    let (root, d) ← hashTransactions h transactions steps
      { ids := List.replicate transactions.length h.noDigest }
    return (root, d.trace)

end Loops

end BtcmChain
