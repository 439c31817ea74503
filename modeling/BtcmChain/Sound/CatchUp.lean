import BtcmChain.Sound.CommonChain

set_option autoImplicit false

/-!
# Catching up

Two nodes that stay as they are exchange requests and answers. When neither has blocks of the other
beyond those both chains start with, the exchange comes to an end: the one that asked then knows of
every block it misses, or has as many ids as it wants at once.

The exchange is that of `Net.Dialogue` without interruption: a synopsis, an inventory, and again,
until there is nothing to fetch or enough to fetch. `Caught` says what a node has heard of the
other chain, and `Waiting` that it has asked for more; every answer adds to what was heard, up to
1999 ids at a time. `catches_up` assumes that the records of the undo database are no more than the
blocks, so that a synopsis can be made (`Sound.Synopsis`).
-/

namespace BtcmChain

variable {β ρ : Type} [ChainBlock β]

/-! ## How far a node has come -/

/-- The node has heard of the first `heard` blocks of the other chain: it has seen those that are
common, and the others are on the list. -/
structure Caught [TimedBlock β] (theirs : List β) (common heard : Nat) (p : PeerConnection) :
    Prop where
  ids : p.idsOfItemsToGet = ((theirs.take heard).drop common).map blockId
  seen : p.lastBlockDelegateHasSeen =
    ((theirs.take heard).take common).getLast?.elim BlockId.zero blockId
  time : p.lastBlockTimeDelegateHasSeen =
    ((theirs.take heard).take common).getLast?.elim 0 TimedBlock.timestamp

namespace Caught

variable {client : Node β ρ} {ours theirs : List β} {common heard undoSize : Nat}
  {p : PeerConnection} {id : BlockId}

/-- The first blocks, as far as they are heard of, are on the own chain. -/
theorem take_eq (hcommon : Common client ours theirs common) :
    (theirs.take heard).take common = ours.take (min common heard) := by
  rw [List.take_take, Nat.min_comm, ← List.take_take, hcommon.take, List.take_take, Nat.min_comm]

variable [BlockCode β ρ] [TimedBlock β]

/-- The reference point of the next synopsis is the last block that is seen. -/
theorem reference (h : Caught theirs common heard p) (hclient : client.OnChain ours)
    (hcommon : Common client ours theirs common) (hstart : 0 < common ∨ ours = [])
    (hpos : 0 < heard) :
    Ancestry (client.tip p.lastBlockDelegateHasSeen) ((theirs.take heard).take common) ∧
      p.lastBlockDelegateHasSeen.num ≤ client.headNum ∧
      (p.lastBlockDelegateHasSeen = BlockId.zero → client.headNum = 0) ∧
      ∃ s, client.span undoSize p.lastBlockDelegateHasSeen = .ok s := by
  have hle := hcommon.le_ours
  rw [h.seen, take_eq hcommon, List.getLast?_take]
  by_cases hzero : min common heard = 0
  · have hours : ours = [] := hstart.resolve_left (by omega)
    have hempty : client.headNum = 0 := by rw [← hclient.length_eq, hours]; rfl
    subst hours
    rw [if_pos hzero, List.take_nil]
    refine ⟨.nil hempty, Nat.zero_le _, fun _ => hempty, none, ?_⟩
    rw [Node.span, if_neg (fun hne => hne rfl), if_pos hempty]
    rfl
  · obtain ⟨b, hb⟩ : ∃ b, ours[min common heard - 1]? = some b :=
      ⟨_, List.getElem?_eq_getElem (by omega)⟩
    have hne := ne_zero_of_pos (blockNum_pos b)
    obtain ⟨s, hs, hspans⟩ := hclient.spans_included undoSize hb hne
    rw [if_neg hzero, hb]
    have hancestry := hspans.ancestry
    rw [Nat.sub_add_cancel (Nat.pos_of_ne_zero hzero)] at hancestry
    refine ⟨hancestry, ?_, fun heq => absurd heq hne, some s, hs⟩
    show blockNum b ≤ _
    rw [hclient.spine.toAncestry.blockNum_eq hb, ← hclient.length_eq]
    omega

/-- The synopsis a node sends ends with the last block it has heard of. -/
theorem synopsis (h : Caught theirs common heard p) (hclient : client.OnChain ours)
    (htheirs : Ancestry id theirs) (hcommon : Common client ours theirs common)
    (hstart : 0 < common ∨ ours = []) (hpos : 0 < heard) (hle : heard ≤ theirs.length) :
    ∃ synopsis, p.synopsisFor client undoSize = .ok synopsis ∧
      synopsis.getLast? = ((theirs.take heard).map blockId).getLast? := by
  have hheard : (theirs.take heard).length = heard := List.length_take_of_le hle
  obtain ⟨hancestry, hseen, hzero, s, hs⟩ := h.reference hclient hcommon hstart hpos
  have hnext : ∀ b, ((theirs.take heard).drop common).head? = some b →
      (previous b).num = (client.tip p.lastBlockDelegateHasSeen).num := by
    intro b hb
    rw [List.head?_drop] at hb
    obtain ⟨hlt, _⟩ := List.getElem?_eq_some_iff.mp hb
    rw [List.getElem?_take_of_lt (by omega)] at hb
    have hnum := htheirs.blockNum_eq hb
    rw [← hancestry.length, List.length_take_of_le (by omega)]
    exact Nat.succ.inj hnum
  obtain ⟨own, hown⟩ := hclient.exists_getBlockchainSynopsis
    ((theirs.take heard).drop common).length hseen
    (fun heq hblocks => absurd (hzero heq) (Nat.ne_of_gt hblocks)) hs
  obtain ⟨lineage, low, hline, _, _, hlow, hsum⟩ :=
    PeerConnection.synopsisFor_eq hclient h.ids hnext hseen hown
  rw [hline.eq_of_ancestry hancestry, List.take_append_drop] at hsum
  refine ⟨_, hsum, getLast?_summary ?_⟩
  have hlength := hline.length
  rw [← hancestry.length, List.length_take] at hlength
  rw [List.length_map, hheard]
  omega

end Caught

namespace PeerConnection

variable [TimedBlock β] {n : Node β ρ} {undoSize : Nat}

omit [TimedBlock β] in
theorem fetchNextBatch_of_synopsis {p : PeerConnection} {synopsis : List BlockId}
    (h : p.synopsisFor n undoSize = .ok synopsis) : p.fetchNextBatch n undoSize =
      ({ p with itemIdsRequestedFromPeer := some synopsis }, .asked synopsis) := by
  rw [fetchNextBatch, h]

/-- The known blocks an answer starts with are noted as seen. -/
theorem skipKnown_append {known rest : List β}
    (hknown : ∀ b ∈ known, n.isKnownBlock (blockId b) = true)
    (hrest : ∀ b ∈ rest, n.isKnownBlock (blockId b) = false) (p : PeerConnection) :
    skipKnown n ((known ++ rest).map blockId) p = (rest.map blockId, { p with
      lastBlockDelegateHasSeen := known.getLast?.elim p.lastBlockDelegateHasSeen blockId
      lastBlockTimeDelegateHasSeen := known.getLast?.elim p.lastBlockTimeDelegateHasSeen
        fun b => n.getBlockTime (blockId b) }) := by
  induction known generalizing p with
  | nil =>
      cases rest with
      | nil => rfl
      | cons b rest =>
          rw [List.nil_append, List.map_cons, skipKnown, hrest b List.mem_cons_self]
          rfl
  | cons b known ih =>
      rw [List.cons_append, List.map_cons, skipKnown, if_pos (hknown b List.mem_cons_self),
        ih fun c hc => hknown c (List.mem_cons_of_mem _ hc), List.getLast?_cons]
      cases known.getLast? <;> rfl

end PeerConnection

/-- The ids of an answer, as a piece of the chain. -/
theorem ItemIdsInventory.From.ids_eq {chain : List β} {i : Nat} {reply : ItemIdsInventory}
    (h : reply.From chain i) : i + reply.itemHashesAvailable.length ≤ chain.length ∧
      0 < reply.itemHashesAvailable.length ∧ reply.itemHashesAvailable =
        ((chain.take (i + reply.itemHashesAvailable.length)).drop i).map blockId := by
  have hlt := h.lt
  have hprefix := h.prefix_drop
  have hle := hprefix.length_le
  rw [List.length_drop, List.length_map] at hle
  refine ⟨by omega, List.length_pos_iff.mpr h.ne_nil, ?_⟩
  conv_lhs => rw [List.prefix_iff_eq_take.mp hprefix]
  rw [List.take_drop, List.map_drop, List.map_take]

namespace Caught

variable [BlockCode β ρ] [TimedBlock β] {client : Node β ρ} {ours theirs : List β}
  {common heard i : Nat} {p p' : PeerConnection} {reply : ItemIdsInventory}
  {fronts new : List BlockId}

/-- An answer that starts with a block both chains have, where nothing is on the list. -/
theorem merge_known (h : Caught theirs common heard p) (hclient : client.OnChain ours)
    (hcommon : Common client ours theirs common) (hreply : reply.From theirs i)
    (hnil : p.idsOfItemsToGet = []) (hi : i < common ∨ (common = 0 ∧ i = 0))
    (hfronts : ∀ id ∈ fronts, id ∉ theirs.map blockId) :
    ∃ q new, PeerConnection.mergeIds client fronts reply.itemHashesAvailable p = (new, q) ∧
      Caught theirs common (i + reply.itemHashesAvailable.length)
        { q with idsOfItemsToGet := q.idsOfItemsToGet ++ new } ∧
      q.numberOfUnfetchedItemIds = p.numberOfUnfetchedItemIds := by
  obtain ⟨hle, hpos, hids⟩ := hreply.ids_eq
  generalize heq : i + reply.itemHashesAvailable.length = heard' at *
  have hcommon_le := hcommon.le_theirs
  have hown : ((theirs.take heard').take common).length = min common heard' := by
    rw [List.length_take, List.length_take]
    omega
  have hsplit : (theirs.take heard').drop i =
      ((theirs.take heard').take common).drop i ++ (theirs.take heard').drop common := by
    conv_lhs => rw [← List.take_append_drop common (theirs.take heard')]
    rw [List.drop_append_of_le_length (by omega)]
  -- up to the common block all ids are known, and from there on none is
  have hmem (b : β) (hb : b ∈ (theirs.take heard').take common) :
      client.isKnownBlock (blockId b) = true ∧
        client.getBlockTime (blockId b) = TimedBlock.timestamp b := by
    rw [take_eq hcommon] at hb
    obtain ⟨k, hk⟩ := List.mem_iff_getElem?.mp (List.mem_of_mem_take hb)
    refine ⟨hclient.isKnownBlock_eq hk, ?_⟩
    rw [Node.getBlockTime, hclient.fetchBlockById_eq hk]
    rfl
  have hrest : ∀ b ∈ (theirs.take heard').drop common, client.isKnownBlock (blockId b) = false := by
    intro b hb
    rw [List.drop_take] at hb
    exact hcommon.unknown b (List.mem_of_mem_take hb)
  have hknown : ∀ b ∈ ((theirs.take heard').take common).drop i,
      client.isKnownBlock (blockId b) = true := fun b hb => (hmem b (List.mem_of_mem_drop hb)).1
  have hskip := PeerConnection.skipKnown_append hknown hrest p
  rw [← hsplit, ← hids] at hskip
  -- leaving out the known ids, the node notes the last of them, which is the common block
  have hlast {α : Type} (none : α) (before : α) (value : β → α)
      (hbefore : common = 0 → before = none) :
      (((theirs.take heard').take common).drop i).getLast?.elim before value =
        ((theirs.take heard').take common).getLast?.elim none value := by
    rw [List.getLast?_drop, hown]
    rcases hi with hi | ⟨hzero, _⟩
    · obtain ⟨b, hb⟩ : ∃ b, ((theirs.take heard').take common).getLast? = some b :=
        ⟨_, List.getLast?_eq_some_getLast (List.ne_nil_of_length_pos (by omega))⟩
      rw [if_neg (by omega), hb]
      rfl
    · rw [if_pos (by omega), hzero, List.take_zero]
      exact hbefore hzero
  have hmerge : PeerConnection.mergeIds client fronts reply.itemHashesAvailable p =
      PeerConnection.skipKnown client reply.itemHashesAvailable p := by
    cases hreply' : reply.itemHashesAvailable with
    | nil => exact absurd hreply' hreply.ne_nil
    | cons first rest =>
        have hfirst : first ∈ reply.itemHashesAvailable := by
          rw [hreply']
          exact List.mem_cons_self
        have hother : first ∉ fronts := fun hfront =>
          hfronts first hfront (List.mem_of_mem_drop (hreply.prefix_drop.subset hfirst))
        rw [PeerConnection.mergeIds, if_pos hnil, if_neg hother]
  refine ⟨_, _, hmerge.trans hskip, ⟨?_, ?_, ?_⟩, rfl⟩
  · rw [hnil]
    rfl
  · refine hlast _ _ _ fun hzero => ?_
    rw [h.seen, hzero]
    rfl
  · refine Eq.trans (hlast 0 _ _ fun hzero => ?_) ?_
    · rw [h.time, hzero]
      rfl
    · cases hb : ((theirs.take heard').take common).getLast? with
      | none => rfl
      | some b => exact (hmem b (List.mem_of_getLast? hb)).2

omit [BlockCode β ρ] in
/-- An answer that starts with the last block on the list. -/
theorem merge_listed (h : Caught theirs common (i + 1) p) (hreply : reply.From theirs i)
    (hne : p.idsOfItemsToGet ≠ []) :
    ∃ q new, PeerConnection.mergeIds client fronts reply.itemHashesAvailable p = (new, q) ∧
      Caught theirs common (i + reply.itemHashesAvailable.length)
        { q with idsOfItemsToGet := q.idsOfItemsToGet ++ new } ∧
      q.numberOfUnfetchedItemIds = p.numberOfUnfetchedItemIds := by
  obtain ⟨hle, hpos, hids⟩ := hreply.ids_eq
  generalize heq : i + reply.itemHashesAvailable.length = heard' at *
  obtain ⟨b, hb⟩ : ∃ b, theirs[i]? = some b := ⟨_, List.getElem?_eq_getElem hreply.lt⟩
  have hlt : common < i + 1 := by
    by_contra hge
    refine hne ?_
    rw [h.ids, List.drop_eq_nil_of_le (by rw [List.length_take]; omega), List.map_nil]
  have htake : theirs.take (i + 1) = theirs.take i ++ [b] := by
    rw [List.take_add_one, hb, Option.toList_some]
  have hlisted : p.idsOfItemsToGet = ((theirs.take i).drop common).map blockId ++ [blockId b] := by
    have hlength : common ≤ (theirs.take i).length := by
      rw [List.length_take]
      have hi := hreply.lt
      omega
    rw [h.ids, htake, List.drop_append_of_le_length hlength, List.map_append, List.map_singleton]
  have hfirst : reply.itemHashesAvailable.head? = some (blockId b) := by
    rw [hids, List.head?_map, List.head?_drop, List.getElem?_take_of_lt (by omega), hb]
    rfl
  have hseen : (theirs.take (i + 1)).take common = (theirs.take heard').take common := by
    rw [List.take_take, List.take_take]
    congr 1
    omega
  have hsplit : (theirs.take heard').drop common =
      (theirs.take i).drop common ++ (theirs.take heard').drop i := by
    have hfront : (theirs.take heard').take i = theirs.take i := by
      rw [List.take_take]
      congr 1
      omega
    conv_lhs => rw [← List.take_append_drop i (theirs.take heard'), hfront]
    rw [List.drop_append_of_le_length]
    rw [List.length_take]
    have hi := hreply.lt
    omega
  refine ⟨{ p with idsOfItemsToGet := ((theirs.take i).drop common).map blockId },
    reply.itemHashesAvailable, ?_, ⟨?_, ?_, ?_⟩, rfl⟩
  · cases hreply' : reply.itemHashesAvailable with
    | nil => exact absurd hreply' hreply.ne_nil
    | cons first rest =>
        rw [hreply', List.head?_cons, Option.some.injEq] at hfirst
        subst hfirst
        have hkept : p.idsOfItemsToGet.rdropWhile (· ≠ blockId b) = p.idsOfItemsToGet := by
          rw [hlisted, List.rdropWhile_concat_neg _ _ _ (by simp)]
        rw [PeerConnection.mergeIds, if_neg hne]
        simp only [hkept, if_neg hne]
        rw [hlisted, List.dropLast_concat]
  · rw [hsplit, List.map_append, ← hids]
  · rw [← hseen]
    exact h.seen
  · rw [← hseen]
    exact h.time

end Caught

/-! ## One round -/

/-- The blocks are no less than three seconds apart, from the start of time on, and the last one is
not too far ahead of the clock. -/
structure Timely [TimedBlock β] (theirs : List β) (now : TimePointSec) : Prop where
  clock : now.toNat + 3600 < 2 ^ 32
  start : 3 * theirs.length ≤ now.toNat + 3600
  block : ∀ k b, theirs[k]? = some b →
    (TimedBlock.timestamp b).toNat + 3 * (theirs.length - (k + 1)) ≤ now.toNat + 3600

namespace Caught

variable [BlockCode β ρ] [TimedBlock β] {client : Node β ρ} {ours theirs : List β}
  {common heard i undoSize : Nat} {p p' : PeerConnection} {reply : ItemIdsInventory}
  {fronts synopsis : List BlockId} {now : TimePointSec} {sequel : Sequel} {id : BlockId}

omit [BlockCode β ρ] in
/-- With as many blocks as can be on the list, the peer does not offer too many. -/
theorem offersTooMany_eq (h : Caught theirs common heard p) (htimely : Timely theirs now)
    (hle : heard ≤ theirs.length) (hcount : p.numberOfUnfetchedItemIds = theirs.length - heard) :
    p.offersTooMany now = false := by
  obtain ⟨hclock, hstart, hblock⟩ := htimely
  have hseen : p.lastBlockTimeDelegateHasSeen.toNat + 3 * (theirs.length - heard) ≤
      now.toNat + 3600 := by
    rw [h.time]
    cases hlast : ((theirs.take heard).take common).getLast? with
    | none =>
        show 0 + _ ≤ _
        omega
    | some b =>
        rw [List.take_take, List.getLast?_take] at hlast
        by_cases hzero : min common heard = 0
        · rw [if_pos hzero] at hlast
          cases hlast
        · obtain ⟨c, hc⟩ : ∃ c, theirs[min common heard - 1]? = some c :=
            ⟨_, List.getElem?_eq_getElem (by omega)⟩
          rw [if_neg hzero, hc] at hlast
          obtain rfl := Option.some.inj hlast
          have htime := hblock _ c hc
          show (TimedBlock.timestamp c).toNat + _ ≤ _
          omega
  have hnow : (now + GRAPHENE_NET_FUTURE_SYNC_BLOCKS_GRACE_PERIOD_SEC).toNat = now.toNat + 3600 := by
    rw [UInt32.toNat_add]
    exact Nat.mod_eq_of_lt hclock
  have hlast : (p.lastBlockTimeDelegateHasSeen +
      UInt32.ofNat p.numberOfUnfetchedItemIds * BTCM_BLOCK_INTERVAL).toNat =
      p.lastBlockTimeDelegateHasSeen.toNat + 3 * (theirs.length - heard) := by
    rw [UInt32.toNat_add, UInt32.toNat_mul, hcount, UInt32.toNat_ofNat']
    show (_ + (_ % 2 ^ 32 * 3) % 2 ^ 32) % 2 ^ 32 = _
    omega
  rw [PeerConnection.offersTooMany, decide_eq_false_iff_not, UInt32.lt_iff_toNat_lt, hnow, hlast]
  omega

/-- **One round**: the node has everything, or it has heard of more blocks and goes on. -/
theorem round (h : Caught theirs common heard p) (hclient : client.OnChain ours)
    (htheirs : Ancestry id theirs) (hcommon : Common client ours theirs common)
    (hasked : p.itemIdsRequestedFromPeer = some synopsis) (hfits : reply.Fits theirs synopsis)
    (hreply : reply.From theirs i)
    (hi : heard = i + 1 ∨ (p.idsOfItemsToGet = [] ∧ (i < common ∨ (common = 0 ∧ i = 0))))
    (hfronts : ∀ id ∈ fronts, id ∉ theirs.map blockId) (htimely : Timely theirs now)
    (hear : p.onInventory client undoSize fronts now reply = (p', sequel)) :
    (sequel = .upToDate ∧ common = theirs.length ∧ p'.idsOfItemsToGet = []) ∨
    p.saysUpToDate client reply = false ∧
      ∃ q, Caught theirs common (i + reply.itemHashesAvailable.length) q ∧
        q.numberOfUnfetchedItemIds =
          theirs.length - (i + reply.itemHashesAvailable.length) ∧
        q.goOn client undoSize = (p', sequel) := by
  have hremaining := hreply.remaining
  obtain ⟨hle, hpos, hids⟩ := hreply.ids_eq
  obtain ⟨hdone, hsequel, hlist, _⟩ | ⟨hmore, new, merged, hmerge, hrest⟩ :=
    PeerConnection.onInventory_cases hasked (hfits.answers htheirs) hear
  · -- the answer is a single id, which the node knows: the other chain ends in the common block
    obtain ⟨hleft, hnil, _, id, heq, hknown⟩ :=
      PeerConnection.of_saysUpToDate hdone hreply.ne_nil
    refine Or.inl ⟨hsequel, ?_, hlist.trans hnil⟩
    rw [heq, List.length_singleton] at hremaining hle hids
    obtain ⟨b, hb⟩ : ∃ b, theirs[i]? = some b := ⟨_, List.getElem?_eq_getElem hreply.lt⟩
    have hid : blockId b = id := by
      have hfirst := congrArg List.head? hids
      rw [List.head?_map, List.head?_drop, List.getElem?_take_of_lt (by omega), hb] at hfirst
      exact (Option.some.inj hfirst).symm
    by_contra hcommon'
    have hcommon_le := hcommon.le_theirs
    have hunknown := hcommon.unknown b (by
      refine List.mem_of_getElem? (i := i - common) ?_
      rw [List.getElem?_drop, Nat.add_sub_cancel' (by omega), hb])
    rw [hid, hknown] at hunknown
    cases hunknown
  · have hanswered : Caught theirs common heard { p with
        itemIdsRequestedFromPeer := none
        numberOfUnfetchedItemIds := reply.totalRemainingItemCount } := ⟨h.ids, h.seen, h.time⟩
    have hmerged : Caught theirs common (i + reply.itemHashesAvailable.length)
          { merged with idsOfItemsToGet := merged.idsOfItemsToGet ++ new } ∧
        merged.numberOfUnfetchedItemIds = reply.totalRemainingItemCount := by
      -- a list that is empty is filled from the common block on, another one is continued
      by_cases hnil : p.idsOfItemsToGet = []
      · have hi' : i < common ∨ (common = 0 ∧ i = 0) := by
          rcases hi with rfl | hi
          · refine Or.inl ?_
            have hlength := congrArg List.length (h.ids.symm.trans hnil)
            have hlt := hreply.lt
            simp only [List.length_map, List.length_drop, List.length_take, List.length_nil]
              at hlength
            omega
          · exact hi.2
        obtain ⟨q, new', hmerge', hq, hcount⟩ :=
          hanswered.merge_known hclient hcommon hreply hnil hi' hfronts
        obtain ⟨rfl, rfl⟩ := Prod.mk.inj (hmerge.symm.trans hmerge')
        exact ⟨hq, hcount⟩
      · obtain rfl := hi.resolve_right fun hi => hnil hi.1
        obtain ⟨q, new', hmerge', hq, hcount⟩ := hanswered.merge_listed hreply hnil
        obtain ⟨rfl, rfl⟩ := Prod.mk.inj (hmerge.symm.trans hmerge')
        exact ⟨hq, hcount⟩
    obtain ⟨hcaught, hcount⟩ := hmerged
    rw [hremaining] at hcount
    refine Or.inr ⟨hmore, _, hcaught, hcount, hrest.resolve_left ?_⟩
    intro htooMany
    -- the blocks keep their distance in time, so there are not too many of them
    have hfew : merged.offersTooMany now = false :=
      offersTooMany_eq (p := { merged with idsOfItemsToGet := merged.idsOfItemsToGet ++ new }) hcaught
        htimely hle hcount
    rw [htooMany.1] at hfew
    cases hfew

end Caught

/-! ## The exchange -/

/-- The exchange is over: there is nothing to fetch, or the list has the first blocks that are
missing, all of them or more than are wanted at once. -/
def Settled (missing : List β) (x : PeerConnection × Sequel) : Prop :=
  (x.2 = .upToDate ∧ missing = [] ∧ x.1.idsOfItemsToGet = []) ∨
  (x.2 = .fetchItems ∧ x.1.idsOfItemsToGet ≠ [] ∧
    x.1.idsOfItemsToGet <+: missing.map blockId ∧
    x.1.idsOfItemsToGet.length + x.1.numberOfUnfetchedItemIds = missing.length ∧
    (x.1.numberOfUnfetchedItemIds = 0 ∨
      GRAPHENE_NET_MIN_BLOCK_IDS_TO_PREFETCH < x.1.idsOfItemsToGet.length))

/-- A node that has heard of some blocks waits for more. -/
structure Waiting [TimedBlock β] (theirs : List β) (common heard : Nat) (p : PeerConnection)
    (synopsis : List BlockId) : Prop where
  caught : Caught theirs common heard p
  pos : 0 < heard
  le : heard ≤ theirs.length
  count : p.numberOfUnfetchedItemIds = theirs.length - heard
  all : heard = theirs.length → p.idsOfItemsToGet = []
  asked : p.itemIdsRequestedFromPeer = some synopsis
  last : synopsis.getLast? = ((theirs.take heard).map blockId).getLast?
  ids_pos : ∀ id ∈ synopsis, 0 < id.num

section Exchange

variable [BlockCode β ρ] [TimedBlock β] {client server : Node β ρ} {ours theirs : List β}
  {common heard undoSize : Nat} {p p' q : PeerConnection} {fronts synopsis : List BlockId}
  {now : TimePointSec} {sequel : Sequel} {id : BlockId}

/-- A client that has not heard of all common blocks asks on, and waits for the next answer. -/
theorem Caught.waiting (h : Caught theirs common heard q) (hclient : client.OnChain ours)
    (htheirs : Ancestry id theirs) (hcommon : Common client ours theirs common)
    (hstart : 0 < common ∨ ours = []) (hpos : 0 < heard) (hle : heard ≤ theirs.length)
    (hcount : q.numberOfUnfetchedItemIds = theirs.length - heard)
    (hall : heard = theirs.length → q.idsOfItemsToGet = [])
    (hask : q.fetchNextBatch client undoSize = (p', sequel)) :
    ∃ synopsis, sequel = .asked synopsis ∧ Waiting theirs common heard p' synopsis := by
  obtain ⟨synopsis, hsynopsis, hlast⟩ := h.synopsis hclient htheirs hcommon hstart hpos hle
  rw [PeerConnection.fetchNextBatch_of_synopsis hsynopsis] at hask
  obtain ⟨rfl, rfl⟩ := Prod.mk.inj hask
  have hstrung : q.Strung β := by
    refine ⟨_, ?_, h.ids⟩
    exact (htheirs.linked.take _).drop _
  exact ⟨synopsis, rfl, ⟨h.ids, h.seen, h.time⟩, hpos, hle, hcount, hall, rfl, hlast,
    PeerConnection.synopsisFor_pos hstrung.pos hsynopsis⟩

/-- A node that has heard of some blocks is done, or asks on. -/
theorem Caught.goOn (h : Caught theirs common heard q) (hclient : client.OnChain ours)
    (htheirs : Ancestry id theirs) (hcommon : Common client ours theirs common)
    (hstart : 0 < common ∨ ours = []) (hpos : 0 < heard) (hle : heard ≤ theirs.length)
    (hcount : q.numberOfUnfetchedItemIds = theirs.length - heard)
    (hgo : q.goOn client undoSize = (p', sequel)) :
    Settled (theirs.drop common) (p', sequel) ∨
      ∃ synopsis, sequel = .asked synopsis ∧ Waiting theirs common heard p' synopsis := by
  have hprefix : q.idsOfItemsToGet <+: (theirs.drop common).map blockId := by
    rw [h.ids, List.drop_take, List.map_take]
    exact List.take_prefix _ _
  have hlength : q.idsOfItemsToGet ≠ [] →
      q.idsOfItemsToGet.length + q.numberOfUnfetchedItemIds = (theirs.drop common).length := by
    intro hne
    have hlist := congrArg List.length h.ids
    have hlist_pos := List.length_pos_iff.mpr hne
    simp only [List.length_map, List.length_drop, List.length_take] at hlist
    rw [List.length_drop]
    omega
  unfold PeerConnection.goOn at hgo
  split at hgo
  case isTrue hleft =>
    split at hgo
    case isTrue hmany =>
      obtain ⟨rfl, rfl⟩ := Prod.mk.inj hgo
      have hne : q.idsOfItemsToGet ≠ [] := List.ne_nil_of_length_pos (by omega)
      exact Or.inl (Or.inr ⟨rfl, hne, hprefix, hlength hne, Or.inr hmany⟩)
    case isFalse =>
      exact Or.inr (h.waiting hclient htheirs hcommon hstart hpos hle hcount
        (fun hall => absurd hcount (by omega)) hgo)
  case isFalse hnone =>
    split at hgo
    case isTrue hne =>
      obtain ⟨rfl, rfl⟩ := Prod.mk.inj hgo
      exact Or.inl (Or.inr ⟨rfl, hne, hprefix, hlength hne, Or.inl (not_not.mp hnone)⟩)
    case isFalse hnil =>
      exact Or.inr (h.waiting hclient htheirs hcommon hstart hpos hle hcount
        (fun _ => not_not.mp hnil) hgo)

omit [BlockCode β ρ] in
/-- Once a client is settled, it stays as it is in all further rounds. -/
theorem exchange_settled {missing : List β} {x : PeerConnection × Sequel}
    (h : Settled missing x) (rounds : Nat) : exchange client undoSize server fronts now rounds x = .ok x := by
  obtain ⟨p, sequel⟩ := x
  cases rounds with
  | zero => rfl
  | succ rounds => obtain ⟨rfl, _⟩ | ⟨rfl, _⟩ := h <;> rfl

omit [BlockCode β ρ] in
theorem exchange_step {reply : ItemIdsInventory} (hinventory : server.inventory synopsis = .ok reply)
    (hear : p.onInventory client undoSize fronts now reply = (p', sequel)) (rounds : Nat) :
    exchange client undoSize server fronts now (rounds + 1) (p, .asked synopsis) =
      exchange client undoSize server fronts now rounds (p', sequel) := by
  show (server.inventory synopsis >>= _) = _
  rw [hinventory]
  show exchange client undoSize server fronts now rounds (p.onInventory client undoSize fronts now reply) = _
  rw [hear]

/-- When nothing is left to be told, and nothing on the list, the answer says so. -/
theorem Waiting.upToDate {reply : ItemIdsInventory} {i : Nat}
    (h : Waiting theirs common heard p synopsis) (hclient : client.OnChain ours)
    (hcommon : Common client ours theirs common) (hall : heard = theirs.length)
    (hi : heard = i + 1) (hreply : reply.From theirs i) : p.saysUpToDate client reply = true := by
  obtain ⟨hle, hpos, hids⟩ := hreply.ids_eq
  have hremaining := hreply.remaining
  have hone : reply.itemHashesAvailable.length = 1 := by omega
  have hnil := h.all hall
  have hlt : i < common := by
    have hlength := congrArg List.length (h.caught.ids.symm.trans hnil)
    simp only [List.length_map, List.length_drop, List.length_take, List.length_nil] at hlength
    omega
  obtain ⟨b, hb⟩ : ∃ b, theirs[i]? = some b := ⟨_, List.getElem?_eq_getElem hreply.lt⟩
  have heq : reply.itemHashesAvailable = [blockId b] := by
    obtain ⟨x, hx⟩ := List.length_eq_one_iff.mp hone
    have hfirst := congrArg List.head? hids
    rw [List.head?_map, List.head?_drop, List.getElem?_take_of_lt (by omega), hb, hx] at hfirst
    rw [hx, Option.some.inj hfirst]
  have hknown : client.isKnownBlock (blockId b) = true :=
    hclient.isKnownBlock_eq ((hcommon.getElem? hlt).symm.trans hb)
  have hzero : reply.totalRemainingItemCount = 0 := by omega
  have hcount : p.numberOfUnfetchedItemIds = 0 := by rw [h.count]; omega
  simp [PeerConnection.saysUpToDate, hzero, heq, hknown, hnil, hcount]

/-- The answer to a node that waits starts with the last block it has heard of. -/
theorem Waiting.inventory (h : Waiting theirs common heard p synopsis)
    (hserver : server.OnChain theirs) : ∃ i reply, heard = i + 1 ∧
      server.inventory synopsis = .ok reply ∧ reply.From theirs i ∧ reply.Fits theirs synopsis := by
  have hpos := h.pos
  have hle := h.le
  obtain ⟨b, hb⟩ : ∃ b, theirs[heard - 1]? = some b := ⟨_, List.getElem?_eq_getElem (by omega)⟩
  have hlast : synopsis.getLast? = some (blockId b) := by
    rw [h.last, List.getLast?_map, List.getLast?_take, if_neg (by omega), hb]
    rfl
  have hmem := List.mem_of_getLast? hlast
  obtain ⟨reply, hinventory, hreply, hfirst⟩ := hserver.inventory_from hb h.ids_pos
    (List.ne_nil_of_mem hmem) (hserver.lastRecognised_last hb hlast)
  exact ⟨heard - 1, reply, (Nat.sub_add_cancel hpos).symm, hinventory, hreply,
    Or.inr ⟨_, hreply, fun hnil => absurd hnil (List.ne_nil_of_mem hmem),
      fun _ => ⟨_, hmem, hfirst⟩⟩⟩

/-- **The exchange comes to an end**: every answer has two thousand ids, the first of which is known
already. -/
theorem Waiting.exchange (h : Waiting theirs common heard p synopsis)
    (hclient : client.OnChain ours) (hserver : server.OnChain theirs)
    (hcommon : Common client ours theirs common) (hstart : 0 < common ∨ ours = [])
    (hfronts : ∀ id ∈ fronts, id ∉ theirs.map blockId) (htimely : Timely theirs now) {rounds : Nat}
    (hrounds : (theirs.length - heard + 1998) / 1999 < rounds) :
    ∃ x, exchange client undoSize server fronts now rounds (p, .asked synopsis) = .ok x ∧
      Settled (theirs.drop common) x := by
  induction rounds generalizing heard p synopsis with
  | zero => omega
  | succ rounds ih =>
      have htheirs := hserver.spine.toAncestry
      obtain ⟨i, reply, hi, hinventory, hreply, hfits⟩ := h.inventory hserver
      obtain ⟨hle, hpos, hids⟩ := hreply.ids_eq
      cases hhear : p.onInventory client undoSize fronts now reply with
      | mk p' sequel =>
          rw [exchange_step hinventory hhear]
          obtain ⟨rfl, hall, hnil⟩ | ⟨hmore, q, hq, hcount, hgo⟩ :=
            h.caught.round hclient htheirs hcommon h.asked hfits hreply (Or.inl hi) hfronts htimely
              hhear
          · have hsettled : Settled (theirs.drop common) (p', .upToDate) :=
              Or.inl ⟨rfl, List.drop_eq_nil_of_le (by omega), hnil⟩
            exact ⟨_, exchange_settled hsettled rounds, hsettled⟩
          · have hlt : heard < theirs.length := by
              refine Nat.lt_of_le_of_ne h.le fun hall => ?_
              rw [h.upToDate hclient hcommon hall hi hreply] at hmore
              cases hmore
            have hlength : reply.itemHashesAvailable.length = min 2000 (theirs.length - i) := by
              rw [hreply.ids, List.length_take, List.length_drop, List.length_map]
              rfl
            obtain hsettled | ⟨synopsis', rfl, hwaiting⟩ :=
              hq.goOn hclient htheirs hcommon hstart (by omega) hle hcount hgo
            · exact ⟨_, exchange_settled hsettled rounds, hsettled⟩
            · exact ih hwaiting (by omega)

end Exchange

end BtcmChain
