import BtcmChain.Sound.Dialogue

set_option autoImplicit false

/-!
# What two chains have in common

Which blocks a node knows, which block of a synopsis it finds, and where the chain of another node
leaves its own.

A node that follows a chain (`OnChain`) knows all ids on it, so the last block of a synopsis is
recognised if it is on the chain (`OnChain.lastRecognised_last`), and the answer starts from there.
`Common` says how many blocks two chains have in common when a node knows no others of the other
chain, and `exists_common` finds that number for nodes that know nothing of each other but what is
on both chains. `Sound.CatchUp` follows the exchange of two such nodes.
-/

namespace BtcmChain

variable {β ρ : Type} [ChainBlock β]

namespace Node

variable [BlockCode β ρ] {n : Node β ρ} {chain : List β} {b : β} {k : Nat}

/-! ## What a node knows -/

theorem OnChain.isKnownBlock_eq (h : n.OnChain chain) (hk : chain[k]? = some b) :
    n.isKnownBlock (blockId b) = true := by
  have hnum : (blockId b).num = k + 1 := h.spine.toAncestry.blockNum_eq hk
  rw [isKnownBlock, hnum, h.spine.find?_eq hk]
  simp

theorem OnChain.fetchBlockById_eq (h : n.OnChain chain) (hk : chain[k]? = some b) :
    n.fetchBlockById (blockId b) = some b := by
  have hnum : (blockId b).num = k + 1 := h.spine.toAncestry.blockNum_eq hk
  rw [fetchBlockById]
  cases hfork : n.fork.fetch? (blockId b) with
  | none =>
      rw [hnum, h.spine.find?_eq hk]
      simp
  | some x =>
      have hid := h.fork.blockId_of_fetch? hfork
      show some x.2 = some b
      rw [blockId_injective hid]

/-- The answer, when the last block that is found is a block of the chain. -/
theorem OnChain.inventory_from (h : n.OnChain chain) (hk : chain[k]? = some b)
    {synopsis : List BlockId} (hpos : ∀ id ∈ synopsis, 0 < id.num) (hne : synopsis ≠ [])
    (hfind : n.lastRecognised synopsis.reverse = .ok (some (blockId b))) :
    ∃ reply, n.inventory synopsis = .ok reply ∧ reply.From chain k ∧
      reply.itemHashesAvailable.head? = some (blockId b) := by
  obtain ⟨hlt, _⟩ := List.getElem?_eq_some_iff.mp hk
  have hnum : (blockId b).num = k + 1 := h.spine.toAncestry.blockNum_eq hk
  have hlast : n.lastKnownBlockId synopsis = .ok (blockId b) := by
    have hzero : synopsis ≠ [BlockId.zero] := by
      intro heq
      exact ne_zero_of_pos (hpos BlockId.zero (by rw [heq]; exact List.mem_cons_self)) rfl
    rw [lastKnownBlockId, if_neg (by simp [hne, hzero]), hfind]
    rfl
  have hreply := h.inventory_eq (by rw [← h.length_eq]; omega) hlast
  rw [hnum, Nat.add_sub_cancel] at hreply
  refine ⟨_, hreply, h.from_chain hlt, ?_⟩
  show List.head? (List.take _ (List.drop _ _)) = _
  rw [List.head?_take, if_neg (by decide), List.head?_drop, List.getElem?_map, hk]
  rfl

/-- The last block of a synopsis is found, when it is a block of the chain. -/
theorem OnChain.lastRecognised_last (h : n.OnChain chain) (hk : chain[k]? = some b)
    {synopsis : List BlockId} (hlast : synopsis.getLast? = some (blockId b)) :
    n.lastRecognised synopsis.reverse = .ok (some (blockId b)) := by
  obtain ⟨init, rfl⟩ := List.getLast?_eq_some_iff.mp hlast
  have hne : blockId b ≠ BlockId.zero := ne_zero_of_pos (blockNum_pos b)
  rw [List.reverse_concat, lastRecognised, if_neg hne, if_pos (h.isKnownBlock_eq hk),
    h.isIncludedBlock_eq hk]
  rfl

end Node

/-! ## What both chains start with -/

/-- The first blocks of the other chain are those of the own one, and the node knows no others. -/
structure Common (client : Node β ρ) (ours theirs : List β) (common : Nat) : Prop where
  le_ours : common ≤ ours.length
  le_theirs : common ≤ theirs.length
  take : theirs.take common = ours.take common
  unknown : ∀ b ∈ theirs.drop common, client.isKnownBlock (blockId b) = false

section Common

variable {client : Node β ρ} {ours theirs : List β} {common k : Nat} {b : β}

theorem Common.getElem? (h : Common client ours theirs common) (hk : k < common) :
    theirs[k]? = ours[k]? := by
  have htake := congrArg (·[k]?) h.take
  simpa [List.getElem?_take_of_lt hk] using htake

end Common

end BtcmChain
