import BtcmChain.Net.Dialogue
import BtcmChain.Sound.Synopsis

set_option autoImplicit false

/-!
# Answers that are taken

An answer of a node that runs is a piece of its chain, from the last block on that it finds in the
synopsis. As an answer to that synopsis it is never turned down, and where it is taken, what is on
the list afterwards is a piece of the same chain.

`ItemIdsInventory.From` says that an answer is the chain from some place on, with the right number
of blocks left over, and `Strung` that the ids on the list of the receiver are those of linked
blocks. The receiver leaves out what it knows already (`skipKnown_eq`) and joins the rest to its
list (`mergeIds_eq`). `Sound.Dialogue` applies this to answers that arrive while more than one
request is under way.
-/

namespace BtcmChain

variable {β ρ : Type} [ChainBlock β]

/-! ## The ids of a synopsis are those of blocks -/

theorem blockNum_pos (b : β) : 0 < (blockId b).num := Nat.succ_pos _

theorem ne_zero_of_pos {id : BlockId} (h : 0 < id.num) : id ≠ BlockId.zero := by
  rintro rfl
  cases h

namespace Node

variable {n : Node β ρ} {undoSize : Nat}

theorem getBlockIdsOnFork_pos {r id : BlockId} {ids : List BlockId}
    (h : n.getBlockIdsOnFork r = .ok ids) (hid : id ∈ ids.dropLast) : 0 < id.num := by
  obtain ⟨branches, _, h⟩ := except_bind_ok.mp h
  cases hlast : branches.1.getLast? with
  | none =>
      rw [hlast] at h
      cases h
  | some x =>
      rw [hlast] at h
      obtain rfl := Except.ok.inj h
      rw [List.dropLast_concat] at hid
      obtain ⟨y, _, rfl⟩ := List.mem_map.mp hid
      exact blockNum_pos y.2

theorem span_forkHistory_pos {r id : BlockId} {s : Span} (h : n.span undoSize r = .ok (some s))
    (hid : id ∈ s.forkHistory) : 0 < id.num := by
  unfold span at h
  split at h
  · obtain ⟨included, _, h⟩ := except_bind_ok.mp h
    split at h
    · obtain rfl := Option.some.inj (Except.ok.inj h)
      cases hid
    · obtain ⟨ids, hids, h⟩ := except_bind_ok.mp h
      dsimp only at h
      split at h
      · cases h
      · obtain rfl := Option.some.inj (Except.ok.inj h)
        exact getBlockIdsOnFork_pos (onChainOf_ok.mp hids) (List.mem_reverse.mp hid)
  · split at h
    · cases h
    · obtain rfl := Option.some.inj (Except.ok.inj h)
      cases hid

theorem Span.idAt_pos {s : Span} {num : Nat} {id : BlockId}
    (hs : ∀ id ∈ s.forkHistory, 0 < id.num) (h : s.idAt n num = .ok id) : 0 < id.num := by
  unfold Span.idAt at h
  split at h
  · obtain ⟨b, _, rfl⟩ := getBlockIdForNum_ok h
    exact blockNum_pos b
  · split at h
    · rename_i id' hid
      obtain rfl := Except.ok.inj h
      exact hs _ (List.mem_of_getElem? hid)
    · cases h

theorem Span.synopsis_pos {s : Span} {high rounds low : Nat} {synopsis : List BlockId}
    (hs : ∀ id ∈ s.forkHistory, 0 < id.num) (h : s.synopsis n high rounds low = .ok synopsis) :
    ∀ id ∈ synopsis, 0 < id.num := by
  induction rounds generalizing low synopsis with
  | zero => cases h
  | succ rounds ih =>
      obtain ⟨first, hfirst, h⟩ := except_bind_ok.mp h
      have hpos := Span.idAt_pos hs hfirst
      dsimp only at h
      split at h
      · obtain ⟨rest, hrest, h⟩ := except_bind_ok.mp h
        obtain rfl := Except.ok.inj h
        intro id hid
        cases List.mem_cons.mp hid with
        | inl heq => rw [heq]; exact hpos
        | inr hmem => exact ih hrest id hmem
      · obtain rfl := Except.ok.inj h
        intro id hid
        rw [List.mem_singleton.mp hid]
        exact hpos

theorem getBlockchainSynopsis_pos {r : BlockId} {count : Nat} {synopsis : List BlockId}
    (h : n.getBlockchainSynopsis undoSize r count = .ok synopsis) : ∀ id ∈ synopsis, 0 < id.num := by
  obtain ⟨spanned, hspan, h⟩ := except_bind_ok.mp h
  cases spanned with
  | none =>
      obtain rfl := Except.ok.inj h
      intro id hid
      cases hid
  | some s => exact Span.synopsis_pos (fun id => span_forkHistory_pos hspan) (onChainOf_ok.mp h)

end Node

namespace PeerConnection

theorem mem_of_toldAt {ids here : List BlockId} {first num : Nat} {id : BlockId}
    (h : toldAt ids first num = .ok here) (hid : id ∈ here) : id ∈ ids := by
  unfold toldAt at h
  split at h
  · split at h
    · rename_i id' hfound
      obtain rfl := Except.ok.inj h
      rw [List.mem_singleton.mp hid]
      exact List.mem_of_getElem? hfound
    · cases h
  · obtain rfl := Except.ok.inj h
    cases hid

theorem mem_of_appendTold {ids told : List BlockId} {first high rounds low : Nat} {id : BlockId}
    (h : appendTold ids first high rounds low = .ok told) (hid : id ∈ told) : id ∈ ids := by
  induction rounds generalizing low told with
  | zero => cases h
  | succ rounds ih =>
      obtain ⟨here, hhere, h⟩ := except_bind_ok.mp h
      dsimp only at h
      split at h
      · obtain ⟨rest, hrest, h⟩ := except_bind_ok.mp h
        obtain rfl := Except.ok.inj h
        cases List.mem_append.mp hid with
        | inl hmem => exact mem_of_toldAt hhere hmem
        | inr hmem => exact ih hrest hmem
      · obtain rfl := Except.ok.inj h
        exact mem_of_toldAt hhere hid

/-- A synopsis names blocks only, which are numbered from one on. -/
theorem synopsisFor_pos {n : Node β ρ} {undoSize : Nat} {p : PeerConnection}
    {synopsis : List BlockId} (hids : ∀ id ∈ p.idsOfItemsToGet, 0 < id.num)
    (h : p.synopsisFor n undoSize = .ok synopsis) :
    ∀ id ∈ synopsis, 0 < id.num := by
  obtain ⟨own, hown, h⟩ := except_bind_ok.mp h
  have hpos := Node.getBlockchainSynopsis_pos hown
  split at h
  · obtain rfl := Except.ok.inj h
    exact hpos
  · obtain ⟨told, htold, h⟩ := except_bind_ok.mp h
    obtain rfl := Except.ok.inj h
    intro id hid
    cases List.mem_append.mp hid with
    | inl hmem => exact hpos id hmem
    | inr hmem => exact hids id (mem_of_appendTold (onChainOf_ok.mp htold) hmem)

end PeerConnection

/-! ## Answers are pieces of the chain -/

/-- What is behind the start of a piece is a piece, too. -/
theorem prefix_drop_of_append {α : Type} {x y l : List α} {a : Nat} (h : x ++ y <+: l.drop a) :
    y <+: l.drop (a + x.length) := by
  obtain ⟨t, ht⟩ := h
  refine ⟨t, ?_⟩
  rw [← List.drop_drop, ← ht, List.append_assoc, List.drop_left]

/-- The ids a node answers with: its chain from place `i` on, as many as there may be, and how many
blocks are left. -/
structure ItemIdsInventory.From (chain : List β) (i : Nat) (reply : ItemIdsInventory) : Prop where
  lt : i < chain.length
  ids : reply.itemHashesAvailable = ((chain.map blockId).drop i).take BLOCK_IDS_LIMIT
  remaining : reply.totalRemainingItemCount = chain.length - (i + reply.itemHashesAvailable.length)

namespace Node

variable [BlockCode β ρ] {n : Node β ρ} {chain : List β}

theorem OnChain.collectIds_eq (h : n.OnChain chain) {rounds num : Nat} (room : Nat)
    (hrounds : rounds = n.headNum + 1 - num) :
    n.collectIds rounds num room = .ok (((chain.map blockId).drop (num - 1)).take room) := by
  have hlength := h.length_eq
  induction rounds generalizing num room with
  | zero =>
      have hnil : (chain.map blockId).drop (num - 1) = [] := by
        refine List.drop_eq_nil_of_le ?_
        rw [List.length_map]
        omega
      rw [hnil, List.take_nil]
      rfl
  | succ rounds ih =>
      unfold collectIds
      by_cases hroom : room = 0
      · rw [if_pos hroom, hroom, List.take_zero]
        rfl
      · by_cases hnum : 0 < num
        · obtain ⟨b, hb⟩ : ∃ b, chain[num - 1]? = some b :=
            ⟨_, List.getElem?_eq_getElem (by omega)⟩
          have hid := h.getBlockIdForNum_eq hb
          rw [Nat.sub_add_cancel hnum] at hid
          have hdrop : (chain.map blockId).drop (num - 1) =
              blockId b :: (chain.map blockId).drop num := by
            have hb' : (chain.map blockId)[num - 1]? = some (blockId b) := by
              rw [List.getElem?_map, hb]
              rfl
            rw [List.drop_eq_getElem?_toList_append, hb', Nat.sub_add_cancel hnum]
            rfl
          rw [if_neg hroom, if_pos hnum, hid, hdrop,
            ← Nat.sub_add_cancel (Nat.pos_of_ne_zero hroom), List.take_succ_cons]
          show (n.collectIds rounds (num + 1) (room - 1 + 1 - 1) >>= _) = _
          rw [ih (room - 1 + 1 - 1) (by omega)]
          rfl
        · rw [if_neg hroom, if_neg hnum, ih room (by omega)]
          have hzero : num = 0 := by omega
          rw [hzero]

omit [BlockCode β ρ] in
theorem lastRecognised_some {ids : List BlockId} {id : BlockId} (hpos : ∀ id ∈ ids, 0 < id.num)
    (h : n.lastRecognised ids = .ok (some id)) : id ∈ ids ∧ n.isIncludedBlock id = .ok true := by
  induction ids with
  | nil => cases h
  | cons first ids ih =>
      have hne : first ≠ BlockId.zero := ne_zero_of_pos (hpos first List.mem_cons_self)
      have hrest (hr : n.lastRecognised ids = .ok (some id)) :
          id ∈ first :: ids ∧ n.isIncludedBlock id = .ok true := by
        obtain ⟨hmem, hincluded⟩ := ih (fun x hx => hpos x (List.mem_cons_of_mem _ hx)) hr
        exact ⟨List.mem_cons_of_mem _ hmem, hincluded⟩
      rw [lastRecognised, if_neg hne] at h
      split at h
      · obtain ⟨included, hincluded, h⟩ := except_bind_ok.mp h
        split at h
        · obtain rfl := Option.some.inj (Except.ok.inj h)
          refine ⟨List.mem_cons_self, ?_⟩
          rw [hincluded]
          congr
        · exact hrest h
      · exact hrest h

/-- Behind a place of the chain, the last id tells how many blocks are left. -/
theorem OnChain.from_chain (h : n.OnChain chain) {i : Nat} (hi : i < chain.length) :
    ItemIdsInventory.From chain i
      ⟨(((chain.map blockId).drop i).take BLOCK_IDS_LIMIT).getLast?.elim 0 fun id =>
        n.headNum - id.num, ((chain.map blockId).drop i).take BLOCK_IDS_LIMIT⟩ := by
  refine ⟨hi, rfl, ?_⟩
  have hlength : (((chain.map blockId).drop i).take BLOCK_IDS_LIMIT).length =
      min BLOCK_IDS_LIMIT (chain.length - i) := by simp
  have hlimit : 0 < BLOCK_IDS_LIMIT := by decide
  obtain ⟨b, hb⟩ : ∃ b, chain[i + (min BLOCK_IDS_LIMIT (chain.length - i) - 1)]? = some b :=
    ⟨_, List.getElem?_eq_getElem (by omega)⟩
  have hlast : (((chain.map blockId).drop i).take BLOCK_IDS_LIMIT).getLast? = some (blockId b) := by
    rw [List.getLast?_eq_getElem?, hlength, List.getElem?_take_of_lt (by omega),
      List.getElem?_drop, List.getElem?_map, hb]
    rfl
  show (Option.elim _ 0 _) = _
  rw [hlast, hlength, ← h.length_eq]
  show chain.length - blockNum b = _
  rw [h.spine.toAncestry.blockNum_eq hb]
  omega

/-- The answer, when the block it starts with is known. -/
theorem OnChain.inventory_eq (h : n.OnChain chain) (hempty : n.headNum ≠ 0)
    {synopsis : List BlockId} {id : BlockId} (hlast : n.lastKnownBlockId synopsis = .ok id) :
    n.inventory synopsis = .ok
      ⟨(((chain.map blockId).drop (id.num - 1)).take BLOCK_IDS_LIMIT).getLast?.elim 0 fun id =>
        n.headNum - id.num, ((chain.map blockId).drop (id.num - 1)).take BLOCK_IDS_LIMIT⟩ := by
  have hids : n.collectIds (n.headNum + 1 - id.num) id.num BLOCK_IDS_LIMIT = _ :=
    h.collectIds_eq BLOCK_IDS_LIMIT rfl
  rw [inventory, getBlockIds, if_neg hempty, hlast]
  simp only [Bind.bind, Except.bind, hids, onChainOf, Except.mapError]
  rfl

/-- **Answers**: a request is answered with no ids, or with the chain from a block on that is in the
synopsis; without a synopsis, from the first block on. -/
theorem OnChain.inventory_ok (h : n.OnChain chain) {synopsis : List BlockId}
    (hpos : ∀ id ∈ synopsis, 0 < id.num) {reply : ItemIdsInventory}
    (hreply : n.inventory synopsis = .ok reply) :
    reply.itemHashesAvailable = [] ∨ ∃ i, reply.From chain i ∧ (synopsis = [] → i = 0) ∧
      (synopsis ≠ [] → ∃ id ∈ synopsis, reply.itemHashesAvailable.head? = some id) := by
  by_cases hempty : n.headNum = 0
  · rw [inventory, getBlockIds, if_pos hempty] at hreply
    obtain rfl := Except.ok.inj hreply
    exact Or.inl rfl
  · cases hlast : n.lastKnownBlockId synopsis with
    | error e =>
        rw [inventory, getBlockIds, if_neg hempty, hlast] at hreply
        cases e with
        | peerIsOnAnUnreachableFork =>
            obtain rfl := Except.ok.inj hreply
            exact Or.inl rfl
        | blockOlderThanUndoHistory => cases hreply
        | other e => cases hreply
    | ok id =>
        rw [h.inventory_eq hempty hlast] at hreply
        obtain rfl := Except.ok.inj hreply
        by_cases hbehind : chain.length ≤ id.num - 1
        · refine Or.inl ?_
          show List.take _ (List.drop _ _) = _
          rw [List.drop_eq_nil_of_le (by rw [List.length_map]; exact hbehind), List.take_nil]
        · refine Or.inr ⟨id.num - 1, h.from_chain (by omega), fun hnil => ?_, fun hne => ?_⟩
          · rw [lastKnownBlockId, if_pos (Or.inl hnil)] at hlast
            obtain rfl := Except.ok.inj hlast
            rfl
          · have hzero : synopsis ≠ [BlockId.zero] := by
              intro heq
              exact ne_zero_of_pos (hpos BlockId.zero (by rw [heq]; exact List.mem_cons_self)) rfl
            rw [lastKnownBlockId, if_neg (by rintro (hc | hc) <;> contradiction)] at hlast
            obtain ⟨found, hfound, hlast⟩ := except_bind_ok.mp hlast
            cases found with
            | none => cases hlast
            | some id' =>
                obtain rfl := Except.ok.inj hlast
                obtain ⟨hmem, hincluded⟩ := lastRecognised_some
                  (fun x hx => hpos x (List.mem_reverse.mp hx)) (onChainOf_ok.mp hfound)
                obtain ⟨k, b, hk, rfl, hnum⟩ := h.mem_of_isIncluded hincluded (by
                  rw [← h.length_eq]
                  omega)
                refine ⟨_, List.mem_reverse.mp hmem, ?_⟩
                show List.head? (List.take _ (List.drop _ _)) = _
                rw [hnum, Nat.add_sub_cancel, List.head?_take, if_neg (by decide), List.head?_drop,
                  List.getElem?_map, hk]
                rfl

end Node

/-! ## Taking an answer -/

namespace ItemIdsInventory.From

variable {chain : List β} {i : Nat} {reply : ItemIdsInventory} {tip : BlockId}

theorem prefix_drop (h : reply.From chain i) :
    reply.itemHashesAvailable <+: (chain.map blockId).drop i := by
  rw [h.ids]
  exact List.take_prefix _ _

/-- The ids of an answer are numbered on from the block that it starts behind. -/
theorem num_eq (h : reply.From chain i) (hchain : Ancestry tip chain) {k : Nat} {id : BlockId}
    (hk : reply.itemHashesAvailable[k]? = some id) : id.num = i + k + 1 := by
  obtain ⟨hlt, _⟩ := List.getElem?_eq_some_iff.mp hk
  obtain ⟨left, hleft⟩ := h.prefix_drop
  have hplace : ((chain.map blockId).drop i)[k]? = some id := by
    rw [← hleft, List.getElem?_append_left hlt, hk]
  rw [List.getElem?_drop, List.getElem?_map] at hplace
  obtain ⟨b, hb, rfl⟩ := Option.map_eq_some_iff.mp hplace
  exact hchain.blockNum_eq hb

theorem ne_nil (h : reply.From chain i) : reply.itemHashesAvailable ≠ [] := by
  rw [h.ids]
  refine List.ne_nil_of_length_pos ?_
  have hlt := h.lt
  have hlimit : 0 < BLOCK_IDS_LIMIT := by decide
  rw [List.length_take, List.length_drop, List.length_map]
  omega

/-- Such an answer is one to a synopsis that names its first block. -/
theorem answers (h : reply.From chain i) (hchain : Ancestry tip chain) {synopsis : List BlockId}
    (hempty : synopsis = [] → i = 0)
    (hfirst : synopsis ≠ [] → ∃ id ∈ synopsis, reply.itemHashesAvailable.head? = some id) :
    answers synopsis reply.itemHashesAvailable = true := by
  cases hids : reply.itemHashesAvailable with
  | nil => rfl
  | cons first rest =>
      have hnum (k : Nat) (id : BlockId) (hk : (first :: rest)[k]? = some id) :
          id.num = i + k + 1 := h.num_eq hchain (by rw [hids]; exact hk)
      have hone := hnum 0 first rfl
      unfold BtcmChain.answers
      rw [Bool.and_eq_true]
      refine ⟨List.all_eq_true.mpr fun x hx => ?_, ?_⟩
      · obtain ⟨hle, hx⟩ := List.mem_zipIdx_iff_le_and_getElem?_sub.mp hx
        have hplace : (first :: rest)[x.2]? = some x.1 := by
          rw [← Nat.sub_add_cancel hle, List.getElem?_cons_succ]
          exact hx
        rw [hnum _ _ hplace, hone]
        simp
        omega
      · by_cases hnil : synopsis = []
        · rw [hnil, List.isEmpty_nil, if_pos rfl, hone, hempty hnil]
          rfl
        · obtain ⟨id, hmem, hid⟩ := hfirst hnil
          rw [hids, List.head?_cons, Option.some.injEq] at hid
          rw [List.isEmpty_eq_false_iff.mpr hnil, if_neg (by simp), hid]
          exact decide_eq_true hmem

end ItemIdsInventory.From

namespace PeerConnection

variable [TimedBlock β] {n : Node β ρ} {p : PeerConnection}

/-- Only the front of an answer is left out as known, and the list of the node stays as it is. -/
theorem skipKnown_eq {ids : List BlockId} : ∃ known, ids = known ++ (skipKnown n ids p).1 ∧
    (skipKnown n ids p).2.idsOfItemsToGet = p.idsOfItemsToGet ∧
    (skipKnown n ids p).2.numberOfUnfetchedItemIds = p.numberOfUnfetchedItemIds ∧
    (skipKnown n ids p).2.itemIdsRequestedFromPeer = p.itemIdsRequestedFromPeer := by
  induction ids generalizing p with
  | nil => exact ⟨[], rfl, rfl, rfl, rfl⟩
  | cons id ids ih =>
      unfold skipKnown
      split
      · obtain ⟨known, hknown, hids, hcount, hrequest⟩ := @ih { p with
          lastBlockDelegateHasSeen := id
          lastBlockTimeDelegateHasSeen := n.getBlockTime id }
        exact ⟨id :: known, by rw [List.cons_append, ← hknown], hids, hcount, hrequest⟩
      · exact ⟨[], rfl, rfl, rfl, rfl⟩

/-- The ids on the list are those of linked blocks. -/
def Strung (β : Type) [ChainBlock β] (p : PeerConnection) : Prop :=
  ∃ told : List β, told.IsChain (fun b c => previous c = blockId b) ∧
    p.idsOfItemsToGet = told.map blockId

omit [TimedBlock β] in
/-- What is kept of linked ids, up to a block of a chain, is what the chain up to it ends with. -/
theorem kept_suffix {chain told : List β} {tip : BlockId} {b : β} {i : Nat}
    (hchain : Ancestry tip chain) (hb : chain[i]? = some b)
    (htold : told.IsChain fun b c => previous c = blockId b)
    (hne : (told.map blockId).rdropWhile (· ≠ blockId b) ≠ []) :
    ∃ front, chain.take (i + 1) =
      front ++ told.take ((told.map blockId).rdropWhile (· ≠ blockId b)).length ∧
      (told.map blockId).rdropWhile (· ≠ blockId b) =
        (told.take ((told.map blockId).rdropWhile (· ≠ blockId b)).length).map blockId ∧
      ((told.map blockId).rdropWhile (· ≠ blockId b)).getLast hne = blockId b := by
  have hlast := List.rdropWhile_last_not _ _ hne
  have htake := List.prefix_iff_eq_take.mp
    (List.rdropWhile_prefix (· ≠ blockId b) (told.map blockId))
  generalize (told.map blockId).rdropWhile (· ≠ blockId b) = kept at *
  rw [← List.map_take] at htake
  have hend : kept.getLast hne = blockId b := by simpa using hlast
  obtain ⟨c, hc, hid⟩ : ∃ c, (told.take kept.length).getLast? = some c ∧
      blockId c = blockId b := by
    have hkept : kept.getLast? = some (blockId b) := by
      rw [List.getLast?_eq_some_getLast hne, hend]
    rw [htake, List.getLast?_map] at hkept
    exact Option.map_eq_some_iff.mp hkept
  obtain rfl := blockId_injective hid
  obtain ⟨front, hfront⟩ := (hchain.take hb).suffix_of_linked (htold.take _) hc
  exact ⟨front, hfront.symm, htake, hend⟩

/-- **Merging**: with an answer that is a piece of a chain, linked ids become a piece of the same
chain that ends where the answer does. -/
theorem mergeIds_eq {chain : List β} {i : Nat} {reply : ItemIdsInventory} {tip : BlockId}
    (hchain : Ancestry tip chain) (h : reply.From chain i) (hp : p.Strung β)
    {fronts new : List BlockId} {p' : PeerConnection}
    (hmerge : mergeIds n fronts reply.itemHashesAvailable p = (new, p')) :
    (∃ a, p'.idsOfItemsToGet ++ new <+: (chain.map blockId).drop a ∧
      a + (p'.idsOfItemsToGet ++ new).length = i + reply.itemHashesAvailable.length) ∧
      p'.numberOfUnfetchedItemIds = p.numberOfUnfetchedItemIds ∧
      p'.itemIdsRequestedFromPeer = p.itemIdsRequestedFromPeer := by
  have hprefix := h.prefix_drop
  obtain ⟨told, hlinked, hids⟩ := hp
  cases hreply : reply.itemHashesAvailable with
  | nil => exact absurd hreply h.ne_nil
  | cons first rest =>
      rw [hreply] at hprefix hmerge
      obtain ⟨b, hb, hfirst⟩ : ∃ b, chain[i]? = some b ∧ blockId b = first := by
        obtain ⟨left, hleft⟩ := hprefix
        have hplace : ((chain.map blockId).drop i)[0]? = some first := by rw [← hleft]; rfl
        rw [List.getElem?_drop, List.getElem?_map] at hplace
        exact Option.map_eq_some_iff.mp hplace
      unfold mergeIds at hmerge
      dsimp only at hmerge
      split at hmerge
      case isTrue hnil =>
        split at hmerge
        case isTrue =>
          obtain ⟨rfl, rfl⟩ := Prod.mk.inj hmerge
          rw [hnil]
          exact ⟨⟨i, hprefix, rfl⟩, rfl, rfl⟩
        case isFalse =>
          obtain ⟨known, hknown, hlist, hcount, hrequest⟩ :=
            @skipKnown_eq _ _ _ _ n p (first :: rest)
          rw [hmerge] at hknown hlist hcount hrequest
          simp only at hknown hlist hcount hrequest
          rw [hlist, hnil, List.nil_append]
          rw [hknown] at hprefix ⊢
          refine ⟨⟨i + known.length, prefix_drop_of_append hprefix, ?_⟩, hcount, hrequest⟩
          rw [List.length_append, Nat.add_assoc]
      case isFalse hne =>
        split at hmerge
        case isTrue =>
          -- Nothing that was on the list is on the chain.
          obtain ⟨rfl, rfl⟩ := Prod.mk.inj hmerge
          refine ⟨⟨i + 1, ?_, ?_⟩, rfl, rfl⟩
          · exact prefix_drop_of_append (x := [first]) hprefix
          · simp only [List.nil_append, List.length_cons]
            omega
        case isFalse hkept =>
          obtain ⟨rfl, rfl⟩ := Prod.mk.inj hmerge
          rw [hids, ← hfirst] at hkept ⊢
          obtain ⟨front, hfront, htake, hend⟩ := kept_suffix hchain hb hlinked hkept
          have hsplit : ((told.map blockId).rdropWhile (· ≠ blockId b)).dropLast ++
              blockId b :: rest = (told.map blockId).rdropWhile (· ≠ blockId b) ++ rest := by
            conv_rhs => rw [← List.dropLast_append_getLast hkept, hend]
            simp
          have hrest : rest <+: (chain.map blockId).drop (i + 1) := prefix_drop_of_append
            (x := [first]) hprefix
          have hlength := congrArg List.length hfront
          have hlt := h.lt
          rw [List.length_take_of_le (by omega), List.length_append] at hlength
          have hcount := congrArg List.length htake
          rw [List.length_map] at hcount
          refine ⟨⟨front.length, ?_, ?_⟩, rfl, rfl⟩
          · have hdrop : (chain.map blockId).drop front.length =
                (told.map blockId).rdropWhile (· ≠ blockId b) ++
                  (chain.map blockId).drop (i + 1) := by
              conv_lhs => rw [← List.take_append_drop (i + 1) chain, hfront]
              rw [List.append_assoc, List.map_append, ← List.length_map blockId, List.drop_left,
                List.map_append, ← htake, List.map_drop]
            show _ ++ _ :: rest <+: _
            rw [hsplit, hdrop]
            exact (List.prefix_append_right_inj _).mpr hrest
          · show _ + (_ ++ _ :: rest).length = _
            rw [hsplit, List.length_append, List.length_cons]
            omega

end PeerConnection

end BtcmChain
