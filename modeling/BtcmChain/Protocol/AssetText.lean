import BtcmChain.Fc.Numeral
import BtcmChain.Protocol.Asset
import Mathlib.Data.UInt

set_option autoImplicit false

/-!
# Assets as text

`asset::to_string` and `asset::from_string`, and the variants made of them. Machine arithmetic is
kept as the source has it: the fraction is printed from 64 unsigned bits, and the amount is put
together with wrapping operators.

Reading trims the text and takes it apart at its first dot and its first space, and a dot counts
for the amount only in front of the space. Behind it stands the object id of the asset, whose
instance number is at most 48 bits wide. The conversions of numerals are those of `Fc.Numeral`,
with Boost as a parameter. As a variant, one of the three core assets is its text, and any other is
an object with amount and id; `Asset.fromVariant` refuses a text of an asset that is not one of the
three.
-/

namespace BtcmChain

open Decimal

variable [Boost]

/-- `asset::static_precision`, which `precision` of every `asset` returns, whatever asset it is. -/
def STATIC_PRECISION : Int64 := 1000000
/-- `BTCM_ASSET_PRECISION`: the decimals that an amount is written with. -/
def BTCM_ASSET_PRECISION : Nat := 6
/-- `GRAPHENE_DB_MAX_INSTANCE_ID`: the highest number of an object, which has 48 bits. -/
def GRAPHENE_DB_MAX_INSTANCE_ID : UInt64 := 2 ^ 48 - 1

/-- `std::string( object_id_type )` of an asset: `implementation_ids`, `impl_asset_object_type` and
the instance. -/
def AssetId.toText (id : AssetId) : Text :=
  fcToString 2 ++ '.' :: fcToString 28 ++ '.' :: fcToString id

/-- `asset::to_string`: the amount with its decimals, and the id of its asset behind it. -/
def Asset.toText (a : Asset) : Text :=
  let initDigits := a.amount / STATIC_PRECISION
  let fraction := (a.amount % STATIC_PRECISION).toUInt64
  let output := Text.ofInt initDigits.toInt
  let output := output ++ '.' :: (Text.ofInt (STATIC_PRECISION.toUInt64 + fraction).toNat).drop 1
  output ++ ' ' :: a.assetId.toText

/-- The number behind the second dot of an id, where an asset has its instance number. -/
def assetNumber (assetIdS : Text) : Except Exn UInt64 := do
  let firstDot := assetIdS.find '.'
  let secondDot := assetIdS.findFrom '.' (firstDot.elim 0 (· + 1))
  fcAssert (firstDot ≠ secondDot) "first_dot != second_dot"
  fcAssert (firstDot ≠ some 0 && firstDot ≠ none)
    "first_dot != 0 && first_dot != std::string::npos"
  let number ← fcToUInt64 (assetIdS.substr (secondDot.elim 0 (· + 1)) assetIdS.length)
  fcAssert (number ≤ GRAPHENE_DB_MAX_INSTANCE_ID) "number <= GRAPHENE_DB_MAX_INSTANCE_ID"
  return number

/-- The amount in front of the space: a dot counts only there. -/
def parseAmount (s : Text) (dotPos : Option Nat) (spacePos : Nat) : Except Exn Int64 :=
  match dotPos.filter (· ≤ spacePos) with
  | none => do
      let intpart := s.substr 0 spacePos
      return (← fcToInt64 intpart) * STATIC_PRECISION
  | some dotPos => do
      let intpart := s.substr 0 dotPos
      let amount := (← fcToInt64 intpart) * STATIC_PRECISION
      let fractpart :=
        padRight BTCM_ASSET_PRECISION
          (s.substr (dotPos + 1) (min (spacePos - dotPos - 1) BTCM_ASSET_PRECISION))
      let fractAmount := (← fcToInt64 fractpart).toUInt64
      return (amount.toUInt64 + fractAmount).toInt64

/-- `asset::from_string`: the text is trimmed and taken apart at its first dot and first space. -/
def Asset.fromText (source : Text) : Except Exn Asset := do
  let s := fcTrim source
  let dotPos := s.find '.'
  match s.find ' ' with
  | none => throw (.assert "space_pos != std::string::npos")
  | some spacePos => do
      let amount ← parseAmount s dotPos spacePos
      let number ← assetNumber (s.substr (spacePos + 1) s.length)
      return ⟨amount, number.toNat⟩

/-! ## Variants -/

/-- The variants that an asset is written as: a text for the core assets, an object with both fields
for the others. -/
inductive AssetVariant where
  | string (s : Text)
  | object (amount : ShareType) (assetId : AssetId)

/-- Whether this is one of the three assets that every chain has. -/
def isCoreAsset (id : AssetId) : Bool := id = BTCM_SYMBOL || id = XUSD_SYMBOL || id = VESTS_SYMBOL

/-- `to_variant` of an asset, which writes a text for the core assets only. -/
def Asset.toVariant (a : Asset) : AssetVariant :=
  if isCoreAsset a.assetId then .string a.toText else .object a.amount a.assetId

/-- `from_variant` of an asset, which takes a text for the core assets only. -/
def Asset.fromVariant : AssetVariant → Except Exn Asset
  | .object amount assetId => .ok ⟨amount, assetId⟩
  | .string s => do
      let a ← Asset.fromText s
      fcAssert (isCoreAsset a.assetId)
        "Invalid serialized asset amount, use object representation instead of string!"
      return a

end BtcmChain
