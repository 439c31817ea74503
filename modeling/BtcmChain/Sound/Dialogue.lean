import BtcmChain.Sound.Inventory

set_option autoImplicit false

/-!
# No honest answer is turned down

Requests and answers are under way in the order they were sent, so that the answer that arrives is
one to the oldest request that is outstanding. As long as a node waits for an answer before it asks
again, that request is the one it has noted, and the answer is taken. A node that did not wait may
turn an honest answer down, and then changes nothing of what it has noted. Whenever an answer is
taken, what the list holds afterwards is a piece of the chain the other node had when it answered, up
to what is left to be told.
-/

namespace BtcmChain

variable {β ρ : Type} [ChainBlock β]

namespace PeerConnection

variable {n : Node β ρ} {undoSize : Nat} {p p' : PeerConnection} {sequel : Sequel}

/-! ## What a node goes on with -/

/-- `fetch_next_batch`: a request with a synopsis is sent and noted, or nothing is sent at all. -/
theorem fetchNextBatch_cases (h : p.fetchNextBatch n undoSize = (p', sequel)) :
    (∃ synopsis, p.synopsisFor n undoSize = .ok synopsis ∧
      p' = { p with itemIdsRequestedFromPeer := some synopsis } ∧ sequel = .asked synopsis) ∨
    (p' = p ∧ (sequel = .disconnect "You are on a fork I'm unable to switch to" ∨
      ∃ e, sequel = .failed e)) := by
  unfold fetchNextBatch at h
  split at h
  · obtain ⟨rfl, rfl⟩ := Prod.mk.inj h
    exact Or.inl ⟨_, ‹_›, rfl, rfl⟩
  · obtain ⟨rfl, rfl⟩ := Prod.mk.inj h
    exact Or.inr ⟨rfl, Or.inl rfl⟩
  · obtain ⟨rfl, rfl⟩ := Prod.mk.inj h
    exact Or.inr ⟨rfl, Or.inr ⟨_, rfl⟩⟩

theorem goOn_cases (h : p.goOn n undoSize = (p', sequel)) :
    (p' = p ∧ sequel = .fetchItems) ∨ p.fetchNextBatch n undoSize = (p', sequel) := by
  unfold goOn at h
  split at h
  · split at h
    · obtain ⟨rfl, rfl⟩ := Prod.mk.inj h
      exact Or.inl ⟨rfl, rfl⟩
    · exact Or.inr h
  · split at h
    · obtain ⟨rfl, rfl⟩ := Prod.mk.inj h
      exact Or.inl ⟨rfl, rfl⟩
    · exact Or.inr h

/-- Whatever the node goes on with, it does not touch the list of ids. -/
theorem goOn_fields (h : p.goOn n undoSize = (p', sequel)) :
    p'.idsOfItemsToGet = p.idsOfItemsToGet ∧
      p'.numberOfUnfetchedItemIds = p.numberOfUnfetchedItemIds := by
  cases goOn_cases h with
  | inl hfetch => rw [hfetch.1]; exact ⟨rfl, rfl⟩
  | inr hask =>
      obtain ⟨synopsis, _, rfl, _⟩ | ⟨rfl, _⟩ := fetchNextBatch_cases hask
      · exact ⟨rfl, rfl⟩
      · exact ⟨rfl, rfl⟩

/-- Going on, a node neither ignores the peer, nor says that it is up to date, nor complains of an
answer. -/
theorem goOn_sequel (h : p.goOn n undoSize = (p', sequel)) :
    sequel ≠ .ignored ∧ sequel ≠ .upToDate ∧
      sequel ≠ .disconnect "You gave an invalid response to my request for sync blocks" := by
  cases goOn_cases h with
  | inl hfetch => simp [hfetch.2]
  | inr hask =>
      obtain ⟨synopsis, _, _, rfl⟩ | ⟨_, rfl | ⟨e, rfl⟩⟩ := fetchNextBatch_cases hask <;> simp

/-! ## One answer -/

/-- A piece of a chain is linked: each id on it is that of the next block's parent. -/
theorem strung_of_piece {chain : List β} {tip : BlockId} {a : Nat} (hchain : Ancestry tip chain)
    (h : p.idsOfItemsToGet <+: (chain.map blockId).drop a) : p.Strung β := by
  rw [← List.map_drop] at h
  obtain ⟨k, hk⟩ : ∃ k, p.idsOfItemsToGet = ((chain.drop a).map blockId).take k :=
    ⟨_, List.prefix_iff_eq_take.mp h⟩
  refine ⟨(chain.drop a).take k, (hchain.linked.drop a).take k, ?_⟩
  rw [hk, List.map_take]

end PeerConnection

/-- The answer is one that a node with this chain can give to this request. -/
def ItemIdsInventory.Fits (chain : List β) (synopsis : List BlockId) (reply : ItemIdsInventory) :
    Prop :=
  reply.itemHashesAvailable = [] ∨ ∃ i, reply.From chain i ∧ (synopsis = [] → i = 0) ∧
    (synopsis ≠ [] → ∃ id ∈ synopsis, reply.itemHashesAvailable.head? = some id)

/-- An answer that fits a synopsis and a chain is a valid one for the node that asked. -/
theorem ItemIdsInventory.Fits.answers {chain : List β} {synopsis : List BlockId} {tip : BlockId}
    {reply : ItemIdsInventory} (h : reply.Fits chain synopsis) (hchain : Ancestry tip chain) :
    answers synopsis reply.itemHashesAvailable = true := by
  obtain hnil | ⟨i, hfrom, hempty, hfirst⟩ := h
  · rw [hnil]
    rfl
  · exact hfrom.answers hchain hempty hfirst

namespace Mail

variable {m : Mail β ρ} {sequel : Sequel}

omit [ChainBlock β] in
theorem outstanding_send_asked (m : Mail β ρ) (synopsis : List BlockId) :
    (m.send (.asked synopsis)).outstanding = m.outstanding ++ [synopsis] := by
  simp [send, outstanding]

omit [ChainBlock β] in
/-- Answering moves a request over, and leaves it as outstanding as it was. -/
theorem outstanding_answered (requests : List (List BlockId)) (answers : List (Answer β ρ))
    (a : Answer β ρ) : outstanding ⟨requests, answers ++ [a]⟩ =
      outstanding ⟨a.synopsis :: requests, answers⟩ := by
  simp [outstanding]

omit [ChainBlock β] in
theorem outstanding_heard (requests : List (List BlockId)) (answers : List (Answer β ρ))
    (a : Answer β ρ) : outstanding ⟨requests, a :: answers⟩ =
      a.synopsis :: outstanding ⟨requests, answers⟩ := rfl

end Mail

/-- What is under way goes back to what was asked: the list is linked, requests name blocks, and an
answer is one its node could give to the request it answers. As long as the node has waited, it has
noted the one request that may be outstanding. -/
structure PeerConnection.Awaits (waited : Bool) (p : PeerConnection) (m : Mail β ρ) : Prop where
  strung : p.Strung β
  pos : ∀ synopsis ∈ m.requests, ∀ id ∈ synopsis, 0 < id.num
  honest : ∀ a ∈ m.answers, ∃ chain : List β, Ancestry a.server.state.headId chain ∧
    a.reply.Fits chain a.synopsis
  orderly : waited = true → m.outstanding.length ≤ 1
  asked : waited = true → ∀ synopsis ∈ m.outstanding, p.itemIdsRequestedFromPeer = some synopsis

namespace PeerConnection

variable {n : Node β ρ} {undoSize : Nat} {p p' : PeerConnection} {sequel : Sequel} {waited : Bool}
  {m : Mail β ρ}

/-- The ids on a list of linked blocks are numbered from one. -/
theorem Strung.pos (h : p.Strung β) : ∀ id ∈ p.idsOfItemsToGet, 0 < id.num := by
  obtain ⟨told, _, hids⟩ := h
  intro id hid
  rw [hids] at hid
  obtain ⟨b, _, rfl⟩ := List.mem_map.mp hid
  exact blockNum_pos b

/-- While nothing is sent, what the node awaits stays as it is. -/
theorem Awaits.keep (h : p.Awaits waited m) : p.Awaits (waited && m.orderly) m where
  strung := h.strung
  pos := h.pos
  honest := h.honest
  orderly hw := h.orderly (Bool.and_eq_true_iff.mp hw).1
  asked hw := h.asked (Bool.and_eq_true_iff.mp hw).1

/-- When a request is sent and noted, the node awaits an answer to it, behind those to earlier
requests. -/
theorem Awaits.ask (h : p.Awaits waited m) {synopsis : List BlockId}
    (hpos : ∀ id ∈ synopsis, 0 < id.num) :
    { p with itemIdsRequestedFromPeer := some synopsis }.Awaits
      (waited && (m.send (.asked synopsis)).orderly) (m.send (.asked synopsis)) where
  strung := h.strung
  pos other hother := by
    cases List.mem_append.mp hother with
    | inl hbefore => exact h.pos other hbefore
    | inr hnew =>
        rw [List.mem_singleton.mp hnew]
        exact hpos
  honest := h.honest
  orderly hw := of_decide_eq_true (Bool.and_eq_true_iff.mp hw).2
  asked hw other hother := by
    have horderly : (m.send (.asked synopsis)).outstanding.length ≤ 1 :=
      of_decide_eq_true (Bool.and_eq_true_iff.mp hw).2
    rw [Mail.outstanding_send_asked, List.length_append, List.length_singleton] at horderly
    have hnone : m.outstanding = [] := List.eq_nil_of_length_eq_zero (by omega)
    rw [Mail.outstanding_send_asked, hnone, List.nil_append, List.mem_singleton] at hother
    rw [hother]

/-- When the peer has answered the oldest request, the answer waits in the request's place. -/
theorem Awaits.answer {a : Answer β ρ} {requests : List (List BlockId)}
    {answers : List (Answer β ρ)} (h : p.Awaits waited ⟨a.synopsis :: requests, answers⟩)
    (ha : ∃ chain : List β, Ancestry a.server.state.headId chain ∧
      a.reply.Fits chain a.synopsis) : p.Awaits waited ⟨requests, answers ++ [a]⟩ where
  strung := h.strung
  pos synopsis hsynopsis := h.pos synopsis (List.mem_cons_of_mem _ hsynopsis)
  honest b hb := by
    cases List.mem_append.mp hb with
    | inl hbefore => exact h.honest b hbefore
    | inr hnew =>
        rw [List.mem_singleton.mp hnew]
        exact ha
  orderly := by
    rw [Mail.outstanding_answered]
    exact h.orderly
  asked := by
    rw [Mail.outstanding_answered]
    exact h.asked

/-- An answer is heard: a node that has waited has nothing else under way. -/
theorem Awaits.hear {a : Answer β ρ} {requests : List (List BlockId)} {answers : List (Answer β ρ)}
    (h : p.Awaits waited ⟨requests, a :: answers⟩) (hp : p'.Strung β) :
    p'.Awaits waited ⟨requests, answers⟩ where
  strung := hp
  pos := h.pos
  honest b hb := h.honest b (List.mem_cons_of_mem _ hb)
  orderly hw := by
    have hle := h.orderly hw
    rw [Mail.outstanding_heard, List.length_cons] at hle
    omega
  asked hw synopsis hsynopsis := by
    have hle := h.orderly hw
    rw [Mail.outstanding_heard, List.length_cons] at hle
    have hpos := List.length_pos_of_mem hsynopsis
    omega

/-- What a node fetches, and what else it notes, does not touch what is under way. -/
theorem Awaits.fetch (h : p.Awaits waited m) (hsuffix : p'.idsOfItemsToGet <:+ p.idsOfItemsToGet)
    (hasked : p'.itemIdsRequestedFromPeer = p.itemIdsRequestedFromPeer) : p'.Awaits waited m where
  strung := by
    obtain ⟨told, hlinked, hids⟩ := h.strung
    obtain ⟨k, hk⟩ : ∃ k, p'.idsOfItemsToGet = (told.map blockId).drop k :=
      ⟨_, List.suffix_iff_eq_drop.mp (hids ▸ hsuffix)⟩
    exact ⟨told.drop k, hlinked.drop k, by rw [hk, List.map_drop]⟩
  pos := h.pos
  honest := h.honest
  orderly := h.orderly
  asked hw synopsis hsynopsis := by
    rw [hasked]
    exact h.asked hw synopsis hsynopsis

theorem Awaits.fetchNextBatch (h : p.Awaits waited m)
    (hask : p.fetchNextBatch n undoSize = (p', sequel)) :
    p'.Awaits (waited && (m.send sequel).orderly) (m.send sequel) := by
  obtain ⟨synopsis, hsynopsis, rfl, rfl⟩ | ⟨rfl, rfl | ⟨e, rfl⟩⟩ := fetchNextBatch_cases hask
  · exact h.ask (synopsisFor_pos h.strung.pos hsynopsis)
  · exact h.keep
  · exact h.keep

theorem Awaits.goOn (h : p.Awaits waited m) (hgo : p.goOn n undoSize = (p', sequel)) :
    p'.Awaits (waited && (m.send sequel).orderly) (m.send sequel) := by
  cases goOn_cases hgo with
  | inl hfetch =>
      obtain ⟨rfl, rfl⟩ := hfetch
      exact h.keep
  | inr hask => exact h.fetchNextBatch hask

/-- With ids in the answer, a node says that it misses nothing when there is one, which it knows. -/
theorem of_saysUpToDate {m : ItemIdsInventory} (h : p.saysUpToDate n m = true)
    (hne : m.itemHashesAvailable ≠ []) : m.totalRemainingItemCount = 0 ∧
      p.idsOfItemsToGet = [] ∧ p.numberOfUnfetchedItemIds = 0 ∧
      ∃ id, m.itemHashesAvailable = [id] ∧ n.isKnownBlock id = true := by
  unfold saysUpToDate at h
  simp only [Bool.and_eq_true, beq_iff_eq, List.isEmpty_iff] at h
  obtain ⟨⟨⟨hleft, hknown⟩, hnil⟩, hzero⟩ := h
  refine ⟨hleft, hnil, hzero, ?_⟩
  split at hknown
  case h_1 heq => exact absurd heq hne
  case h_2 id heq => exact ⟨id, heq, hknown⟩
  case h_3 => cases hknown

variable [TimedBlock β]

/-- A restart clears the list, and leaves noted what was asked. -/
theorem Awaits.startSynchronizing (h : p.Awaits waited m)
    (hstart : p.startSynchronizing n undoSize = (p', sequel)) :
    p'.Awaits (waited && (m.send sequel).orderly) (m.send sequel) := by
  have hcleared : { p with
      idsOfItemsToGet := []
      numberOfUnfetchedItemIds := 0
      weNeedSyncItemsFromPeer := true
      lastBlockDelegateHasSeen := BlockId.zero
      lastBlockTimeDelegateHasSeen := n.getBlockTime BlockId.zero
      inhibitFetchingSyncBlocks := false }.Awaits waited m :=
    ⟨⟨[], .nil, rfl⟩, h.pos, h.honest, h.orderly, h.asked⟩
  exact hcleared.fetchNextBatch hstart

/-- An answer is not taken, and changes nothing, or it is a valid one to what is noted. -/
theorem onInventory_turned {reply : ItemIdsInventory} {fronts : List BlockId} {now : TimePointSec}
    (h : p.onInventory n undoSize fronts now reply = (p', sequel)) :
    (p' = p ∧ (sequel = .ignored ∨
      sequel = .disconnect "You gave an invalid response to my request for sync blocks")) ∨
    ∃ synopsis, p.itemIdsRequestedFromPeer = some synopsis ∧
      answers synopsis reply.itemHashesAvailable = true := by
  unfold onInventory at h
  split at h
  · obtain ⟨rfl, rfl⟩ := Prod.mk.inj h
    exact Or.inl ⟨rfl, Or.inl rfl⟩
  case h_2 synopsis hasked =>
    cases hanswers : answers synopsis reply.itemHashesAvailable with
    | true => exact Or.inr ⟨synopsis, hasked, hanswers⟩
    | false =>
        rw [hanswers] at h
        obtain ⟨rfl, rfl⟩ := Prod.mk.inj h
        exact Or.inl ⟨rfl, Or.inr rfl⟩

/-- What comes of a valid answer: nothing is missing, or there are too many blocks, or the list is
made up and the node goes on. -/
theorem onInventory_cases {synopsis : List BlockId} {reply : ItemIdsInventory}
    {fronts : List BlockId} {now : TimePointSec}
    (hasked : p.itemIdsRequestedFromPeer = some synopsis)
    (hanswers : answers synopsis reply.itemHashesAvailable = true)
    (h : p.onInventory n undoSize fronts now reply = (p', sequel)) :
    (p.saysUpToDate n reply = true ∧ sequel = .upToDate ∧ p'.idsOfItemsToGet = p.idsOfItemsToGet ∧
      p'.numberOfUnfetchedItemIds = p.numberOfUnfetchedItemIds) ∨
    p.saysUpToDate n reply = false ∧
      ∃ new merged, mergeIds n fronts reply.itemHashesAvailable { p with
        itemIdsRequestedFromPeer := none
        numberOfUnfetchedItemIds := reply.totalRemainingItemCount } = (new, merged) ∧
      ((merged.offersTooMany now = true ∧ p' = merged ∧ sequel = .disconnect
          "You offered me a list of more sync blocks than could possibly exist") ∨
        { merged with idsOfItemsToGet := merged.idsOfItemsToGet ++ new }.goOn n undoSize =
          (p', sequel)) := by
  unfold onInventory at h
  rw [hasked] at h
  simp only [hanswers, Bool.not_true, Bool.false_eq_true, if_false] at h
  split at h
  case isTrue hdone =>
    obtain ⟨rfl, rfl⟩ := Prod.mk.inj h
    exact Or.inl ⟨hdone, rfl, rfl, rfl⟩
  case isFalse hmore =>
    refine Or.inr ⟨Bool.eq_false_iff.mpr hmore, _, _, rfl, ?_⟩
    split at h
    · obtain ⟨rfl, rfl⟩ := Prod.mk.inj h
      exact Or.inl ⟨‹_›, rfl, rfl⟩
    · exact Or.inr h

/-- A valid answer to the request that was noted is not turned down. -/
theorem sequel_of_onInventory {synopsis : List BlockId} {reply : ItemIdsInventory}
    {fronts : List BlockId} {now : TimePointSec}
    (hasked : p.itemIdsRequestedFromPeer = some synopsis)
    (hanswers : answers synopsis reply.itemHashesAvailable = true)
    (h : p.onInventory n undoSize fronts now reply = (p', sequel)) : sequel ≠ .ignored ∧
      sequel ≠ .disconnect "You gave an invalid response to my request for sync blocks" := by
  obtain ⟨_, rfl, _⟩ | ⟨_, _, _, _, ⟨_, _, rfl⟩ | hgo⟩ := onInventory_cases hasked hanswers h
  · simp
  · simp
  · exact ⟨(goOn_sequel hgo).1, (goOn_sequel hgo).2.2⟩

/-- **One answer**: the list stays linked, and what is still under way goes back to what was
asked. -/
theorem Awaits.onInventory {a : Answer β ρ} {requests : List (List BlockId)}
    {answers : List (Answer β ρ)} {fronts : List BlockId} {now : TimePointSec}
    (hawaits : p.Awaits waited ⟨requests, a :: answers⟩)
    (h : p.onInventory n undoSize fronts now a.reply = (p', sequel)) :
    p'.Awaits (waited && (Mail.send ⟨requests, answers⟩ sequel).orderly)
      (Mail.send ⟨requests, answers⟩ sequel) := by
  have hp := hawaits.strung
  obtain ⟨rfl, rfl | rfl⟩ | ⟨synopsis, hasked, hanswers⟩ := onInventory_turned h
  · exact (hawaits.hear hp).keep
  · exact (hawaits.hear hp).keep
  · obtain ⟨_, rfl, hids, _⟩ | ⟨_, new, merged, hmerge, hrest⟩ :=
      onInventory_cases hasked hanswers h
    · refine (hawaits.hear ?_).keep
      rw [Strung, hids]
      exact hp
    · have hlist : merged.Strung β ∧
          { merged with idsOfItemsToGet := merged.idsOfItemsToGet ++ new }.Strung β := by
        obtain ⟨chain, hchain, hnil | ⟨i, hfrom, _⟩⟩ := hawaits.honest a List.mem_cons_self
        · rw [hnil, mergeIds] at hmerge
          obtain ⟨rfl, rfl⟩ := Prod.mk.inj hmerge
          rw [List.append_nil]
          exact ⟨hp, hp⟩
        · have hanswered : { p with
              itemIdsRequestedFromPeer := none
              numberOfUnfetchedItemIds := a.reply.totalRemainingItemCount }.Strung β := hp
          obtain ⟨⟨_, hprefix, _⟩, _⟩ := mergeIds_eq hchain hfrom hanswered hmerge
          exact ⟨strung_of_piece hchain ((List.prefix_append _ _).trans hprefix),
            strung_of_piece hchain hprefix⟩
      obtain ⟨_, rfl, rfl⟩ | hgo := hrest
      · exact (hawaits.hear hlist.1).keep
      · exact (hawaits.hear hlist.2).goOn hgo

/-- The list after an answer with ids: a piece of the chain, and behind it what is left to be told;
a node that misses nothing has the last block. -/
theorem list_of_onInventory {chain : List β} {tip : BlockId} {synopsis : List BlockId}
    {reply : ItemIdsInventory} {fronts : List BlockId} {now : TimePointSec}
    {i : Nat} (hchain : Ancestry tip chain) (hp : p.Strung β)
    (hasked : p.itemIdsRequestedFromPeer = some synopsis)
    (hanswers : answers synopsis reply.itemHashesAvailable = true) (hfrom : reply.From chain i)
    (h : p.onInventory n undoSize fronts now reply = (p', sequel))
    (hfew : sequel ≠ .disconnect
      "You offered me a list of more sync blocks than could possibly exist") :
    (∃ a, p'.idsOfItemsToGet <+: (chain.map blockId).drop a ∧
      a + p'.idsOfItemsToGet.length + p'.numberOfUnfetchedItemIds = chain.length) ∧
    (sequel = .upToDate → n.isKnownBlock tip = true) := by
  have hne := hfrom.ne_nil
  have hremaining := hfrom.remaining
  have hlength : i + reply.itemHashesAvailable.length ≤ chain.length := by
    have hle := congrArg List.length hfrom.ids
    have hlt := hfrom.lt
    simp only [List.length_take, List.length_drop, List.length_map] at hle
    omega
  obtain ⟨hdone, _, hids, hcount⟩ | ⟨_, new, merged, hmerge, hrest⟩ :=
    onInventory_cases hasked hanswers h
  · -- nothing is missing: the list is empty, and so is what is left of the chain
    obtain ⟨hleft, hnil, hzero, id, heq, hknown⟩ := of_saysUpToDate hdone hne
    refine ⟨⟨chain.length, ?_, ?_⟩, fun _ => ?_⟩
    · rw [hids, hnil]
      exact List.nil_prefix
    · rw [hids, hnil, hcount, hzero]
      rfl
    · -- The answer is the one id of the last block.
      rw [heq, List.length_singleton] at hlength hremaining
      have hprefix := hfrom.prefix_drop
      rw [heq] at hprefix
      obtain ⟨left, hleft'⟩ := hprefix
      have hplace : ((chain.map blockId).drop i)[0]? = some id := by rw [← hleft']; rfl
      rw [List.getElem?_drop, List.getElem?_map] at hplace
      obtain ⟨b, hb, rfl⟩ := Option.map_eq_some_iff.mp hplace
      have hlast : chain.getLast? = some b := by
        rw [List.getLast?_eq_getElem?, ← hb]
        congr 1
        omega
      rw [← hchain.last b hlast]
      exact hknown
  · have hanswered : { p with
        itemIdsRequestedFromPeer := none
        numberOfUnfetchedItemIds := reply.totalRemainingItemCount }.Strung β := hp
    obtain ⟨⟨a, hprefix, hend⟩, hcount, _⟩ := mergeIds_eq hchain hfrom hanswered hmerge
    obtain ⟨_, _, hdisconnect⟩ | hgo := hrest
    · exact absurd hdisconnect hfew
    · obtain ⟨hids, hcount'⟩ := goOn_fields hgo
      refine ⟨⟨a, ?_, ?_⟩, fun hdone => absurd hdone (goOn_sequel hgo).2.1⟩
      · rw [hids]
        exact hprefix
      · rw [hids, hcount']
        show a + (merged.idsOfItemsToGet ++ new).length + merged.numberOfUnfetchedItemIds = _
        rw [hend, hcount]
        show _ + reply.totalRemainingItemCount = _
        omega

end PeerConnection

/-! ## Any interleaving -/

variable [BlockCode β ρ] [TimedBlock β]

omit [BlockCode β ρ] in
/-- What a peer answers is its inventory, whatever else comes of the request. -/
theorem onFetchItemIds_reply {server : Node β ρ} {undoSize : Nat} {q : PeerConnection}
    {synopsis : List BlockId} {served : Served}
    (h : onFetchItemIds server undoSize q synopsis = .ok served) :
    server.inventory synopsis = .ok served.reply := by
  obtain ⟨reply, hreply, h⟩ := except_bind_ok.mp h
  dsimp only at h
  split at h
  · obtain rfl := Except.ok.inj h
    exact hreply
  · obtain rfl := Except.ok.inj h
    exact hreply

/-- Whatever the two nodes do, what is under way goes back to what was asked. -/
theorem Dialogue.awaits {waited : Bool} {p : PeerConnection} {m : Mail β ρ}
    (h : Dialogue Node.Running waited p m) : p.Awaits waited m := by
  induction h with
  | meet =>
      exact ⟨⟨[], .nil, rfl⟩, (fun _ h => nomatch h), (fun _ h => nomatch h),
        fun _ => Nat.zero_le _, (fun _ _ h => nomatch h)⟩
  | start _ _ hstart ih => exact ih.startSynchronizing hstart
  | ask _ _ hask ih => exact ih.fetchNextBatch hask
  | answer _ hserver hserved ih =>
      obtain ⟨chain, hchain⟩ := hserver.onChain
      have hpos := ih.pos _ List.mem_cons_self
      exact ih.answer (a := ⟨_, _, _⟩)
        ⟨chain, hchain.spine.toAncestry, hchain.inventory_ok hpos (onFetchItemIds_reply hserved)⟩
  | hear _ _ hhear ih => exact ih.onInventory hhear
  | fetch _ hsuffix hasked ih => exact ih.fetch hsuffix hasked

/-- **Honest answers are taken**: two nodes that run may exchange requests and answers, go on with
their chains between any two of them, and fetch blocks from the list, in any order. As long as the
node that asks has waited for an answer before it asked again, the answer that arrives is one to the
request it has noted, and is neither ignored nor turned down as invalid; otherwise it may be, and
then changes nothing. Whenever an answer with ids is taken, and does not offer more blocks than there
can be, it leaves on the list a piece of the chain the other node had when it answered, with as many
blocks behind it as are noted as not told yet; and when the node says that nothing is missing, it has
the head block of that chain. -/
theorem honest_answers_taken {waited : Bool} {p p' : PeerConnection}
    {requests : List (List BlockId)} {a : Answer β ρ} {answers : List (Answer β ρ)} {n : Node β ρ}
    {undoSize : Nat} {fronts : List BlockId} {now : TimePointSec} {sequel : Sequel}
    (h : Dialogue Node.Running waited p ⟨requests, a :: answers⟩)
    (hear : p.onInventory n undoSize fronts now a.reply = (p', sequel)) :
    (waited = true → p.itemIdsRequestedFromPeer = some a.synopsis ∧ sequel ≠ .ignored ∧
      sequel ≠ .disconnect "You gave an invalid response to my request for sync blocks") ∧
    ((sequel = .ignored ∨
        sequel = .disconnect "You gave an invalid response to my request for sync blocks") →
      p' = p) ∧
    (sequel ≠ .ignored →
      sequel ≠ .disconnect "You gave an invalid response to my request for sync blocks" →
      sequel ≠ .disconnect "You offered me a list of more sync blocks than could possibly exist" →
      a.reply.itemHashesAvailable ≠ [] →
      ∃ chain : List β, Ancestry a.server.state.headId chain ∧
        (∃ k, p'.idsOfItemsToGet <+: (chain.map blockId).drop k ∧
          k + p'.idsOfItemsToGet.length + p'.numberOfUnfetchedItemIds = chain.length) ∧
        (sequel = .upToDate → n.isKnownBlock a.server.state.headId = true)) := by
  have hawaits := h.awaits
  obtain ⟨chain, hchain, hfits⟩ := hawaits.honest a List.mem_cons_self
  refine ⟨fun hwaited => ?_, fun hturned => ?_, fun hheard hvalid hfew hne => ?_⟩
  · have hasked := hawaits.asked hwaited a.synopsis List.mem_cons_self
    exact ⟨hasked, PeerConnection.sequel_of_onInventory hasked (hfits.answers hchain) hear⟩
  · obtain ⟨hsame, _⟩ | ⟨synopsis, hasked, hanswers⟩ := PeerConnection.onInventory_turned hear
    · exact hsame
    · obtain ⟨hheard, hvalid⟩ := PeerConnection.sequel_of_onInventory hasked hanswers hear
      exact absurd hturned (not_or.mpr ⟨hheard, hvalid⟩)
  · obtain ⟨_, hturned⟩ | ⟨synopsis, hasked, hanswers⟩ := PeerConnection.onInventory_turned hear
    · exact absurd hturned (not_or.mpr ⟨hheard, hvalid⟩)
    · obtain ⟨i, hfrom, _⟩ := hfits.resolve_left hne
      exact ⟨chain, hchain, PeerConnection.list_of_onInventory hchain hawaits.strung hasked hanswers
        hfrom hear hfew⟩

/-- In the sample, three seconds pass from one block to the next. -/
instance : TimedBlock Sample.Blk where
  timestamp b := 3 * UInt32.ofNat (blockId b).num

/-- A new node asks one that has switched to a fork, and puts its blocks on the list. -/
theorem honest_answers_taken_sample : ∃ (p' : PeerConnection) (chain : List Sample.Blk) (k : Nat),
    p'.idsOfItemsToGet.length = 2 ∧ p'.idsOfItemsToGet <+: (chain.map blockId).drop k := by
  have hstart : Dialogue Node.Running true _ (Mail.send {} (.asked [])) :=
    Dialogue.meet.start (Sample.running [])
      (show PeerConnection.startSynchronizing (Sample.told []) 0 {} = (_, .asked []) from rfl)
  have hanswer := hstart.answer (Sample.running [.a1, .b1, .b2])
    (show onFetchItemIds _ 2 {} [] = Except.ok ⟨_, ⟨0, [⟨1, 2⟩, ⟨2, 4⟩]⟩, none, _⟩ from rfl)
  obtain ⟨_, _, hlist⟩ := honest_answers_taken hanswer
    (show PeerConnection.onInventory (Sample.told []) 0 [] 100 _ _ = (_, _) from rfl)
  obtain ⟨chain, _, ⟨k, hprefix, _⟩, _⟩ := hlist (by decide) (by decide) (by decide) (by simp)
  exact ⟨_, chain, k, rfl, hprefix⟩

/-- A node that asks twice is up to date with the first answer, and ignores the second one. -/
example : ∃ (p : PeerConnection) (a : Answer Sample.Blk Unit),
    Dialogue Node.Running false p ⟨[], [a]⟩ ∧
      (p.onInventory (Sample.told []) 0 [] 100 a.reply).2 = .ignored := by
  have hasked : Dialogue Node.Running true _ (Mail.send {} (.asked [])) :=
    Dialogue.meet.start (Sample.running [])
      (show PeerConnection.startSynchronizing (Sample.told []) 0 {} = (_, .asked []) from rfl)
  have hagain : Dialogue Node.Running false _ ⟨[[], []], []⟩ :=
    hasked.start (Sample.running [])
      (show PeerConnection.startSynchronizing (Sample.told []) 0 _ = (_, .asked []) from rfl)
  have hfirst : Dialogue Node.Running false _ ⟨[[]], [_]⟩ :=
    hagain.answer (Sample.running [])
      (show onFetchItemIds _ 0 {} [] = Except.ok ⟨_, ⟨0, []⟩, none, _⟩ from rfl)
  have hsecond : Dialogue Node.Running false _ ⟨[], [_, _]⟩ :=
    hfirst.answer (Sample.running [])
      (show onFetchItemIds _ 0 {} [] = Except.ok ⟨_, ⟨0, []⟩, none, _⟩ from rfl)
  have hheard : Dialogue Node.Running false _ ⟨[], [_]⟩ :=
    hsecond.hear (Sample.running [])
      (show PeerConnection.onInventory (Sample.told []) 0 [] 100 _ _ = (_, .upToDate) from rfl)
  exact ⟨_, _, hheard, rfl⟩

end BtcmChain
