import BtcmChain.Net.Inventory

set_option autoImplicit false

/-!
# Two nodes that synchronize

What happens between a node and one peer, seen from the node that asks: its requests are under way
to the peer, and answers are under way back, each in the order they were sent. Between any two
messages both nodes may go on with their chains, blocks may be taken from the list of what is to be
fetched, and the node may ask again. It does not always wait for an answer: where a peer delivers a
block that does not link, or the list of blocks to be fetched runs empty, a new request is sent even
while another one is under way. Every handler is one step here. What the peer asks in turn is a
dialogue of its own, with the roles exchanged.
-/

namespace BtcmChain

/-- An answer under way: the node that gave it, as it was then, and the synopsis it answers. -/
structure Answer (β ρ : Type) where
  server : Node β ρ
  synopsis : List BlockId
  reply : ItemIdsInventory

/-- What is under way between a node and its peer, the oldest first: requests the peer has not seen
yet, and answers the node has not seen yet. -/
structure Mail (β ρ : Type) where
  requests : List (List BlockId) := []
  answers : List (Answer β ρ) := []

variable {β ρ : Type} [ChainBlock β] [TimedBlock β]

namespace Mail

/-- A request is sent behind the others; nothing else is sent. -/
def send (m : Mail β ρ) : Sequel → Mail β ρ
  | .asked synopsis => { m with requests := m.requests ++ [synopsis] }
  | _ => m

/-- The requests that are outstanding: first those whose answers are under way. -/
def outstanding (m : Mail β ρ) : List (List BlockId) := m.answers.map Answer.synopsis ++ m.requests

/-- The mailbox is in order: no more than one request is outstanding. -/
def orderly (m : Mail β ρ) : Bool := decide (m.outstanding.length ≤ 1)

end Mail

/-- What a node can note about a peer, and what can be under way, when both nodes are as `Running`
says, whatever they do between two messages; and whether the node has always waited for an answer
before it asked again. -/
inductive Dialogue (Running : Node β ρ → Prop) : Bool → PeerConnection → Mail β ρ → Prop
  | meet : Dialogue Running true {} {}
  | start {waited : Bool} {p p' : PeerConnection} {m : Mail β ρ} {n : Node β ρ} {undoSize : Nat}
      {sequel : Sequel} :
      Dialogue Running waited p m → Running n → p.startSynchronizing n undoSize = (p', sequel) →
      Dialogue Running (waited && (m.send sequel).orderly) p' (m.send sequel)
  | ask {waited : Bool} {p p' : PeerConnection} {m : Mail β ρ} {n : Node β ρ} {undoSize : Nat}
      {sequel : Sequel} :
      Dialogue Running waited p m → Running n → p.fetchNextBatch n undoSize = (p', sequel) →
      Dialogue Running (waited && (m.send sequel).orderly) p' (m.send sequel)
  | answer {waited : Bool} {p q : PeerConnection} {synopsis : List BlockId}
      {requests : List (List BlockId)} {answers : List (Answer β ρ)} {server : Node β ρ}
      {undoSize : Nat} {served : Served} :
      Dialogue Running waited p ⟨synopsis :: requests, answers⟩ → Running server →
      onFetchItemIds server undoSize q synopsis = .ok served →
      Dialogue Running waited p ⟨requests, answers ++ [⟨server, synopsis, served.reply⟩]⟩
  | hear {waited : Bool} {p p' : PeerConnection} {requests : List (List BlockId)}
      {a : Answer β ρ} {answers : List (Answer β ρ)} {n : Node β ρ} {undoSize : Nat}
      {fronts : List BlockId} {now : TimePointSec} {sequel : Sequel} :
      Dialogue Running waited p ⟨requests, a :: answers⟩ → Running n →
      p.onInventory n undoSize fronts now a.reply = (p', sequel) →
      Dialogue Running (waited && (Mail.send ⟨requests, answers⟩ sequel).orderly) p'
        (Mail.send ⟨requests, answers⟩ sequel)
  | fetch {waited : Bool} {p p' : PeerConnection} {m : Mail β ρ} :
      Dialogue Running waited p m → p'.idsOfItemsToGet <:+ p.idsOfItemsToGet →
      p'.itemIdsRequestedFromPeer = p.itemIdsRequestedFromPeer → Dialogue Running waited p' m

/-- Two nodes that only exchange ids, so many answers: what the node that asks goes on with. -/
def exchange (client : Node β ρ) (undoSize : Nat) (server : Node β ρ) (fronts : List BlockId)
    (now : TimePointSec) : Nat → PeerConnection × Sequel → Except SyncExn (PeerConnection × Sequel)
  | 0, x => return x
  | rounds + 1, (p, .asked synopsis) => do
      let reply ← server.inventory synopsis
      exchange client undoSize server fronts now rounds
        (p.onInventory client undoSize fronts now reply)
  | _, x => return x

end BtcmChain
