import BtcmChain.Fc.Safe
import BtcmChain.Lib.FlatMap
import Mathlib.Data.String.Basic
import Mathlib.Data.UInt

set_option autoImplicit false

/-!
# Names, keys, authorities

The identities that sign operations. Strings are Lean strings, i.e. sequences of
Unicode scalar values, so the `is_utf8` assertions of the source hold by typing;
their `size()` is the number of UTF-8 bytes. Public keys are opaque numbers with
`0` for the default-constructed key.

Four computations of `fc` are *parameters* of the development (`Externals`):
the JSON well-formedness test, the two key hashes that address a genesis balance,
and the parsing of an address. No result depends on what they compute.
-/

namespace BtcmChain

/-- A `public_key_type`; `0` is the default-constructed key, which is no key of anybody. -/
abbrev PublicKey := Nat
/-- An `address`, as balances of the first chain name their owners. -/
abbrev Address := Nat
/-- `time_point_sec`: the seconds since the epoch, in 32 bits. -/
abbrev TimePointSec := UInt32

/-- Computations of `fc` that the model leaves open: checking JSON, and making addresses of keys. -/
class Externals where
  /-- `fc::json::is_valid`: whether the text is JSON. -/
  jsonIsValid : String → Bool
  /-- `address( key )`: the address that belongs to a key. -/
  addressOf : PublicKey → Address
  /-- `address( pts_address( key, compressed, version ) )`: the address that belongs to the older
  form of a key's address. -/
  ptsAddress : PublicKey → Bool → Nat → Address
  /-- `address( string )`: the address that a text stands for, which may be none. -/
  parseAddress : String → Except Exn Address

namespace Sample

/-- One way to fill them in, for the runs this development evaluates. -/
scoped instance externals : Externals where
  jsonIsValid _ := true
  addressOf key := key
  ptsAddress key _ _ := key
  parseAddress _ := .ok 1

end Sample

/-! ## Authorities -/

/-- `struct authority`: a threshold, and the accounts and keys that may vouch, each with a weight.
-/
structure Authority where
  weightThreshold : UInt32 := 0
  accountAuths : FlatMap String UInt16 := FlatMap.empty
  keyAuths : FlatMap PublicKey UInt16 := FlatMap.empty
  deriving DecidableEq, Inhabited

namespace Authority

/-- The total weight of all members of the authority, added up in 64 bits. -/
def totalWeight (a : Authority) : UInt64 :=
  (a.accountAuths.entries.map fun e => e.2.toUInt64).sum +
    (a.keyAuths.entries.map fun e => e.2.toUInt64).sum

/-- `is_impossible`: the members of the authority together do not reach its threshold. -/
def isImpossible (a : Authority) : Bool := decide (a.totalWeight < a.weightThreshold.toUInt64)

/-- An authority of a single key, as `authority( w, key, w )` builds it. -/
def ofKey (threshold : UInt32) (key : PublicKey) (weight : UInt16) : Authority where
  weightThreshold := threshold
  keyAuths := FlatMap.empty.set key weight

end Authority

/-! ## Account names -/

/-- A lower-case letter, which a label of an account name starts with. -/
def isNameLetter (c : Char) : Bool := decide ('a' ≤ c) && decide (c ≤ 'z')

/-- A decimal digit, which may stand anywhere in a label but at its start. -/
def isNameDigit (c : Char) : Bool := decide ('0' ≤ c) && decide (c ≤ '9')

/-- A label: at least three characters, starting with a letter, ending with a
letter or digit, with letters, digits and hyphens between. -/
def isValidLabel (label : List Char) : Bool :=
  decide (3 ≤ label.length) &&
    (label.head?.elim false isNameLetter) &&
    (label.getLast?.elim false fun c => isNameLetter c || isNameDigit c) &&
    label.tail.dropLast.all fun c => isNameLetter c || isNameDigit c || c = '-'

/-- `is_valid_account_name`: 3 to 16 bytes, a dot-separated sequence of labels. -/
def isValidAccountName (name : String) : Bool :=
  decide (3 ≤ name.utf8ByteSize) && decide (name.utf8ByteSize ≤ 16) &&
    (name.toList.splitOn '.').all isValidLabel

/-- `authority::validate`: every account among the members has a valid name. -/
def Authority.validate (a : Authority) : Except Exn Unit :=
  fcAssert (a.accountAuths.keys.all isValidAccountName) "is_valid_account_name( item.first )"

end BtcmChain
