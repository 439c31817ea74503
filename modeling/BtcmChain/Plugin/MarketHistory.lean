import BtcmChain.Plugin.AccountHistory
import BtcmChain.Protocol.Asset

set_option autoImplicit false

/-!
# The market history plugin

Before every fill the plugin sums it up in a bucket for each tracked size: the one of the time window
the head block is in. Sizes and times are `uint32_t`, and the cutoff before which buckets are old is
converted to one.

A bucket has the first, last, highest and lowest price as pairs of amounts, and the two volumes,
and a fill is entered with its BTCM side first, whatever the market is. `updateMarketHistories`
walks over the tracked sizes as the source does, opens a bucket or adds to it, and removes what is
older than the history it keeps. The loop that removes does not look for the end of the index,
which is undefined behaviour where it gets there (`removeOldBuckets`).
-/

namespace BtcmChain

/-- `bucket_object`; its fields `seconds` and `open` are its key. -/
structure BucketObject where
  highBtcm : ShareType := 0
  highMbd : ShareType := 0
  lowBtcm : ShareType := 0
  lowMbd : ShareType := 0
  openBtcm : ShareType := 0
  openMbd : ShareType := 0
  closeBtcm : ShareType := 0
  closeMbd : ShareType := 0
  btcmVolume : ShareType := 0
  mbdVolume : ShareType := 0
  deriving DecidableEq

namespace BucketObject

def high (b : BucketObject) : Price := ⟨xusd b.highMbd, btcm b.highBtcm⟩
def low (b : BucketObject) : Price := ⟨xusd b.lowMbd, btcm b.lowBtcm⟩

/-- The bucket of a first fill, whose prices are those of that fill. -/
def ofFill (btcmSide mbdSide : Asset) : BucketObject where
  highBtcm := btcmSide.amount
  highMbd := mbdSide.amount
  lowBtcm := btcmSide.amount
  lowMbd := mbdSide.amount
  openBtcm := btcmSide.amount
  openMbd := mbdSide.amount
  closeBtcm := btcmSide.amount
  closeMbd := mbdSide.amount
  btcmVolume := btcmSide.amount
  mbdVolume := mbdSide.amount

/-- The bucket after a further fill: the volumes grow, and the prices are compared. -/
def addFill (b : BucketObject) (btcmSide mbdSide : Asset) : Except Exn BucketObject := do
  let btcmVolume ← safeAdd b.btcmVolume btcmSide.amount
  let mbdVolume ← safeAdd b.mbdVolume mbdSide.amount
  let b := { b with
    btcmVolume, mbdVolume, closeBtcm := btcmSide.amount, closeMbd := mbdSide.amount }
  let b := if b.high.lt ⟨mbdSide, btcmSide⟩ then
    { b with highBtcm := btcmSide.amount, highMbd := mbdSide.amount } else b
  return if b.low.gt ⟨mbdSide, btcmSide⟩ then
    { b with lowBtcm := btcmSide.amount, lowMbd := mbdSide.amount } else b

end BucketObject

/-- The key of `by_bucket`: the size of a bucket, then its start. -/
abbrev BucketKey := ℕ ×ₗ ℕ

def bucketKey (seconds open_ : ℕ) : BucketKey := toLex (seconds, open_)

/-- `order_history_object`: a fill, and when it happened. -/
structure OrderHistoryObject where
  time : TimePointSec
  op : Notification

/-- The objects of the plugin: the buckets, and the fills one after the other. -/
structure MarketHistoryState where
  buckets : FlatMap BucketKey BucketObject := .empty
  orderHistory : ObjectIndex OrderHistoryObject := .empty

/-- `market_history_plugin_impl`: which sizes of buckets are kept, and how many; the maximum is an
`int32_t`. -/
structure MarketHistoryPlugin where
  trackedBuckets : FlatSet ℕ := .ofKeys [15, 60, 300, 3600, 86400]
  maximumHistoryPerBucketSize : ℤ := 5760

abbrev MarketHistoryM := StateT MarketHistoryState (Except Exn)

/-- What a fill pays on the BTCM side, and on the other. -/
def btcmFirst (openPays currentPays : Asset) : Asset × Asset :=
  if openPays.assetId = BTCM_SYMBOL then (openPays, currentPays) else (currentPays, openPays)

/-- The cutoff, as it is compared: the product is a `uint32_t`, and so is the difference. -/
def bucketCutoff (p : MarketHistoryPlugin) (headBlockTime : TimePointSec) (bucket : ℕ) : ℕ :=
  ((headBlockTime.toNat - bucket * p.maximumHistoryPerBucketSize % 2 ^ 32) % 2 ^ 32).toNat

/-- The loop that removes old buckets; it does not look for the end of the index. -/
def removeOldBuckets (seconds cutoff : ℕ) : List BucketKey → MarketHistoryM Unit
  | [] => throw .undefined
  | itr :: rest => do
    if (ofLex itr).1 = seconds ∧ (ofLex itr).2 < cutoff then
      modify fun s => { s with buckets := s.buckets.erase itr }
      removeOldBuckets seconds cutoff rest

/-- One round of `update_market_histories`: the fill is put into its bucket of one size, and old
buckets go. -/
def updateBucket (p : MarketHistoryPlugin) (headBlockTime : TimePointSec) (sides : Asset × Asset)
    (bucket : ℕ) : MarketHistoryM Unit := do
  if bucket = 0 then throw .divideByZero
  let cutoff := bucketCutoff p headBlockTime bucket
  let itr := bucketKey bucket (headBlockTime.toNat / bucket * bucket)
  let buckets ← reads (·.buckets)
  match buckets.find? itr with
  | none => modify fun s => { s with buckets := s.buckets.set itr (.ofFill sides.1 sides.2) }
  | some b =>
    let b ← ofExcept (b.addFill sides.1 sides.2)
    modify fun s => { s with buckets := s.buckets.update itr fun _ => b }
    if 0 < p.maximumHistoryPerBucketSize then
      let keys ← reads (·.buckets.keys)
      removeOldBuckets bucket cutoff (keys.dropWhile fun k => decide (k < bucketKey bucket 0))

/-- `update_market_histories`: a fill is recorded, and put into its buckets of all sizes. -/
def updateMarketHistories (p : MarketHistoryPlugin) (o : OperationObject) (headBlockTime : TimePointSec) :
    MarketHistoryM Unit :=
  match o.op with
  | .notification op =>
    match op with
    | .fillOrder _ _ currentPays _ _ openPays => do
      modify fun s => { s with orderHistory := s.orderHistory.create ⟨headBlockTime, op⟩ }
      if p.maximumHistoryPerBucketSize ≠ 0 then
        p.trackedBuckets.keys.forM (updateBucket p headBlockTime (btcmFirst openPays currentPays))
    | _ => return ()
  | .operation _ => return ()

end BtcmChain
