import BtcmChain.Net.Synopsis
import BtcmChain.Protocol.Authority
import Mathlib.Data.List.DropRight

set_option autoImplicit false

/-!
# Asking a peer for the ids of its blocks

What a node and its peer tell each other before blocks are fetched: one asks with a synopsis, the
other answers with ids, and the first one adds them to the list of what it will fetch. The blocks
themselves, other peers and the time a request is given are outside; of the other peers only the
first ids on their lists are looked at.
-/

namespace BtcmChain

/-- What a node notes about a peer while it synchronizes with it. -/
structure PeerConnection where
  idsOfItemsToGet : List BlockId := []
  numberOfUnfetchedItemIds : Nat := 0
  weNeedSyncItemsFromPeer : Bool := false
  peerNeedsSyncItemsFromUs : Bool := false
  inhibitFetchingSyncBlocks : Bool := false
  itemIdsRequestedFromPeer : Option (List BlockId) := none
  lastBlockDelegateHasSeen : BlockId := BlockId.zero
  lastBlockTimeDelegateHasSeen : TimePointSec := 0

/-- `blockchain_item_ids_inventory_message`: the ids that come next, and how many there are behind
them. -/
structure ItemIdsInventory where
  totalRemainingItemCount : Nat
  itemHashesAvailable : List BlockId

/-- What a node goes on with after a message of a peer. -/
inductive Sequel where
  /-- The node has sent a request with this synopsis. -/
  | asked (synopsis : List BlockId)
  /-- The node goes to `trigger_fetch_sync_items_loop`, for what is on its lists. -/
  | fetchItems
  /-- The node misses nothing that the peer has. -/
  | upToDate
  /-- The node had not asked for an answer. -/
  | ignored
  | disconnect (reason : String)
  /-- An exception that nobody expects here has come up. -/
  | failed (e : SyncExn)
  deriving DecidableEq, Repr

/-- `GRAPHENE_NET_MIN_BLOCK_IDS_TO_PREFETCH`: with more ids than these on a list, a node asks for no
more. -/
def GRAPHENE_NET_MIN_BLOCK_IDS_TO_PREFETCH : Nat := 10000

/-- `GRAPHENE_NET_FUTURE_SYNC_BLOCKS_GRACE_PERIOD_SEC`: so far ahead a peer's clock may be. -/
def GRAPHENE_NET_FUTURE_SYNC_BLOCKS_GRACE_PERIOD_SEC : UInt32 := 60 * 60

/-- `BTCM_BLOCK_INTERVAL`: the seconds from one slot to the next. -/
def BTCM_BLOCK_INTERVAL : UInt32 := 3

/-- The timestamp of a block, which a class gives for every kind of block. -/
class TimedBlock (β : Type) where
  timestamp : β → TimePointSec

variable {β ρ : Type} [ChainBlock β]

/-- `get_block_time`: the time of a block that the node has, and 0 for any other. -/
def Node.getBlockTime [TimedBlock β] (n : Node β ρ) (id : BlockId) : TimePointSec :=
  (n.fetchBlockById id).elim 0 TimedBlock.timestamp

/-! ## Asking -/

namespace PeerConnection

/-- What the peer has told of a number: nothing below the first one. -/
def toldAt (ids : List BlockId) (first num : Nat) : Except Exn (List BlockId) :=
  if first ≤ num then
    match ids[num - first]? with
    | some id => return [id]
    | none => throw .undefined
  else return []

/-- The loop that adds ids the peer has told to a synopsis, at most so many rounds. -/
def appendTold (ids : List BlockId) (first trueHigh : Nat) : Nat → Nat → Except Exn (List BlockId)
  | 0, _ => throw .outOfFuel
  | rounds + 1, low => do
      let here ← toldAt ids first low
      let next := low + (trueHigh - low + 2) / 2
      if next ≤ trueHigh then do
        let rest ← appendTold ids first trueHigh rounds next
        return here ++ rest
      else return here

/-- `create_blockchain_synopsis_for_peer`: a synopsis of the chain and of what the peer has on the
list. -/
def synopsisFor (n : Node β ρ) (undoSize : Nat) (p : PeerConnection) :
    Except SyncExn (List BlockId) := do
  let ids := p.idsOfItemsToGet
  let synopsis ← n.getBlockchainSynopsis undoSize p.lastBlockDelegateHasSeen ids.length
  match ids.head? with
  | none => return synopsis
  | some id =>
      let trueHigh := id.num + ids.length - 1
      let low := synopsis.head?.elim 1 BlockId.num
      let told ← onChainOf (appendTold ids id.num trueHigh (trueHigh + 1) low)
      return synopsis ++ told

/-- `fetch_next_batch_of_item_ids_from_peer`: a request with a new synopsis is sent and noted. -/
def fetchNextBatch (n : Node β ρ) (undoSize : Nat) (p : PeerConnection) :
    PeerConnection × Sequel :=
  match p.synopsisFor n undoSize with
  | .ok synopsis => ({ p with itemIdsRequestedFromPeer := some synopsis }, .asked synopsis)
  | .error .blockOlderThanUndoHistory => (p, .disconnect "You are on a fork I'm unable to switch to")
  | .error e => (p, .failed e)

/-- `start_synchronizing_with_peer`: the list is emptied, and a first request sent. -/
def startSynchronizing [TimedBlock β] (n : Node β ρ) (undoSize : Nat) (p : PeerConnection) :
    PeerConnection × Sequel :=
  fetchNextBatch n undoSize { p with
    idsOfItemsToGet := []
    numberOfUnfetchedItemIds := 0
    weNeedSyncItemsFromPeer := true
    lastBlockDelegateHasSeen := BlockId.zero
    lastBlockTimeDelegateHasSeen := n.getBlockTime BlockId.zero
    inhibitFetchingSyncBlocks := false }

end PeerConnection

/-! ## Answering -/

/-- What comes of a request: the answer, and whether the peer is then left; before the answer, the
node may have started to synchronize itself. -/
structure Served where
  peer : PeerConnection
  reply : ItemIdsInventory
  restarted : Option Sequel
  leaves : Bool

/-- The answer to a request: a peer on an unreachable fork is told of no blocks. -/
def Node.inventory (n : Node β ρ) (synopsis : List BlockId) : Except SyncExn ItemIdsInventory :=
  match n.getBlockIds synopsis BLOCK_IDS_LIMIT with
  | .ok (ids, remaining) => .ok ⟨remaining, ids⟩
  | .error .peerIsOnAnUnreachableFork => .ok ⟨0, []⟩
  | .error e => .error e

/-- `on_fetch_blockchain_item_ids_message`, of a peer whose handshake is over: the ids behind its
synopsis are sent. -/
def onFetchItemIds [TimedBlock β] (n : Node β ρ) (undoSize : Nat) (p : PeerConnection)
    (synopsis : List BlockId) : Except SyncExn Served := do
  let reply ← n.inventory synopsis
  let ids := reply.itemHashesAvailable
  let same := decide (synopsis ≠ [] ∧ ids.length = 1) && ids.getLast?.any (· ∈ synopsis)
  let p := { p with peerNeedsSyncItemsFromUs := !ids.isEmpty && !same }
  let lastSeen := synopsis.getLast?.getD BlockId.zero
  if !p.weNeedSyncItemsFromPeer && !synopsis.isEmpty && !n.isKnownBlock lastSeen then
    let started := p.startSynchronizing n undoSize
    return ⟨started.1, reply, some started.2, same && p.inhibitFetchingSyncBlocks⟩
  else return ⟨p, reply, none, same && p.inhibitFetchingSyncBlocks⟩

/-! ## Taking the answer in -/

/-- The answer is a sequence of blocks, and starts with one of those asked for. -/
def answers (synopsis ids : List BlockId) : Bool :=
  match ids with
  | [] => true
  | first :: rest =>
      ((rest.zipIdx 1).all fun x => x.1.num == first.num + x.2) &&
        if synopsis.isEmpty then first.num == 1 else decide (first ∈ synopsis)

namespace PeerConnection

variable [TimedBlock β]

/-- Leave out the ids of blocks that other peers have delivered already. -/
def skipKnown (n : Node β ρ) : List BlockId → PeerConnection → List BlockId × PeerConnection
  | [], p => ([], p)
  | id :: ids, p =>
      if n.isKnownBlock id then
        skipKnown n ids { p with
          lastBlockDelegateHasSeen := id
          lastBlockTimeDelegateHasSeen := n.getBlockTime id }
      else (id :: ids, p)

/-- The ids of an answer behind those that are on the list, or known, already; `fronts` are the
first ids on the lists of other peers. -/
def mergeIds (n : Node β ρ) (fronts : List BlockId) (ids : List BlockId) (p : PeerConnection) :
    List BlockId × PeerConnection :=
  match ids with
  | [] => ([], p)
  | first :: rest =>
      if p.idsOfItemsToGet = [] then
        if first ∈ fronts then (ids, p) else skipKnown n ids p
      else
        let kept := p.idsOfItemsToGet.rdropWhile (· ≠ first)
        if kept = [] then
          (rest, { p with
            idsOfItemsToGet := []
            lastBlockDelegateHasSeen := first
            lastBlockTimeDelegateHasSeen := n.getBlockTime first })
        else (ids, { p with idsOfItemsToGet := kept.dropLast })

/-- Whether the peer offers more blocks than there can be by now. -/
def offersTooMany (p : PeerConnection) (now : TimePointSec) : Bool :=
  decide (now + GRAPHENE_NET_FUTURE_SYNC_BLOCKS_GRACE_PERIOD_SEC <
    p.lastBlockTimeDelegateHasSeen + UInt32.ofNat p.numberOfUnfetchedItemIds * BTCM_BLOCK_INTERVAL)

/-- What comes next when the list is made up: another request, the blocks themselves, or nothing. -/
def goOn (n : Node β ρ) (undoSize : Nat) (p : PeerConnection) : PeerConnection × Sequel :=
  if p.numberOfUnfetchedItemIds ≠ 0 then
    if GRAPHENE_NET_MIN_BLOCK_IDS_TO_PREFETCH < p.idsOfItemsToGet.length then (p, .fetchItems)
    else p.fetchNextBatch n undoSize
  else if p.idsOfItemsToGet ≠ [] then (p, .fetchItems)
  else p.fetchNextBatch n undoSize

/-- Nothing is missing: the peer has no blocks behind those this node has. -/
def saysUpToDate (n : Node β ρ) (p : PeerConnection) (m : ItemIdsInventory) : Bool :=
  m.totalRemainingItemCount == 0 &&
    (match m.itemHashesAvailable with
      | [] => true
      | [id] => n.isKnownBlock id
      | _ => false) &&
    p.idsOfItemsToGet.isEmpty && p.numberOfUnfetchedItemIds == 0

/-- `on_blockchain_item_ids_inventory_message`: the answer is checked, and its ids are put on the
list. -/
def onInventory (n : Node β ρ) (undoSize : Nat) (fronts : List BlockId) (now : TimePointSec)
    (p : PeerConnection) (m : ItemIdsInventory) : PeerConnection × Sequel :=
  match p.itemIdsRequestedFromPeer with
  | none => (p, .ignored)
  | some synopsis =>
      if !answers synopsis m.itemHashesAvailable then
        (p, .disconnect "You gave an invalid response to my request for sync blocks")
      else
        let p := { p with itemIdsRequestedFromPeer := none }
        if p.saysUpToDate n m then ({ p with weNeedSyncItemsFromPeer := false }, .upToDate)
        else
          let merged := mergeIds n fronts m.itemHashesAvailable
            { p with numberOfUnfetchedItemIds := m.totalRemainingItemCount }
          if merged.2.offersTooMany now then
            (merged.2, .disconnect
              "You offered me a list of more sync blocks than could possibly exist")
          else
            { merged.2 with idsOfItemsToGet := merged.2.idsOfItemsToGet ++ merged.1 }.goOn n undoSize

end PeerConnection

end BtcmChain
