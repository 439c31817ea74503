import BtcmChain.Lib.Effect
import BtcmChain.Lib.Halving
import BtcmChain.Net.Inventory
import BtcmChain.Sound.BlockLog

set_option autoImplicit false

/-!
# What a synopsis sums up

The synopsis a node sends to a peer is the summary of one chain: the blocks of the node up to the
last one the peer has delivered, and behind it the ids the peer has told.

Halving what is left (`Lib.Halving`) makes a summary of a stretch of block numbers, and `Spans`
says which stretch it is: it starts no higher than the last block that cannot be undone, and ends
at the reference point. The number of that last block is a difference in 32 bits and counts the
session of pending transactions too, so `synopsis_sums_up` also says when a synopsis can be made at
all: if the node has no blocks, or no fewer than records in its undo database.
-/

namespace BtcmChain

variable {β ρ : Type} [ChainBlock β]

@[simp] theorem onChainOf_ok {α : Type} {x : Except Exn α} {a : α} :
    onChainOf x = .ok a ↔ x = .ok a := by
  cases x <;> simp [onChainOf, Except.mapError]

namespace Node

/-- A node with its chain in the block file, and with a well-formed fork database. -/
structure OnChain [BlockCode β ρ] (n : Node β ρ) (chain : List β) : Prop where
  spine : Spine n.blockLog n.state.headId chain
  linked : Linked n.blockLog n.state n.history
  fork : n.fork.WF

variable [BlockCode β ρ] {n : Node β ρ} {chain : List β} {b : β} {k undoSize : Nat}

/-- What a node can come to that is opened with its chain in the file. -/
def Running (n : Node β ρ) : Prop :=
  ∃ start : Node β ρ, start.Opened ∧ (∃ chain, Spine start.blockLog start.state.headId chain) ∧
    RunIf (fun _ _ => True) start n

/-- Whatever a node is told, it has its chain in the file. -/
theorem Running.onChain (h : n.Running) : ∃ chain, n.OnChain chain := by
  obtain ⟨start, hopen, hstart, h⟩ := h
  have hon : Has OnSpine start := by
    refine ⟨?_, hstart⟩
    rw [hopen.1]
    exact .nil _
  obtain ⟨hlinked, chain, hspine⟩ := h.enduring enduring_onSpine hon
  exact ⟨chain, hspine, hlinked, (h.wf hopen.wf).fork⟩

theorem OnChain.length_eq (h : n.OnChain chain) : chain.length = n.headNum := h.spine.length

theorem OnChain.getBlockIdForNum_eq (h : n.OnChain chain) (hk : chain[k]? = some b) :
    n.getBlockIdForNum (k + 1) = .ok (blockId b) := by
  rw [getBlockIdForNum, h.spine.find?_eq hk]

omit [BlockCode β ρ] in
theorem getBlockIdForNum_ok {num : Nat} {id : BlockId} (h : n.getBlockIdForNum num = .ok id) :
    ∃ b, n.blockLog.find? num = some b ∧ blockId b = id := by
  unfold getBlockIdForNum at h
  split at h
  · exact ⟨_, ‹_›, Except.ok.inj h⟩
  · cases h

/-- A block that is included, and not above the head, is on the chain. -/
theorem OnChain.mem_of_isIncluded (h : n.OnChain chain) {id : BlockId}
    (hincluded : n.isIncludedBlock id = .ok true) (hnum : id.num ≤ n.headNum) :
    ∃ k b, chain[k]? = some b ∧ blockId b = id ∧ id.num = k + 1 := by
  obtain ⟨id', hid, heq⟩ := except_bind_ok.mp hincluded
  have hsame : id = id' := of_decide_eq_true (Except.ok.inj heq)
  subst hsame
  obtain ⟨b, hfind, hb⟩ := getBlockIdForNum_ok hid
  have hpos : id.num = (previous b).num + 1 := by
    rw [← hb]
    rfl
  have hlt : (previous b).num < chain.length := by
    rw [h.length_eq]
    omega
  have hstored := h.spine.stored _ hlt
  rw [← hpos, hfind] at hstored
  exact ⟨_, b, hstored.symm, hb, hpos⟩

theorem OnChain.isIncludedBlock_eq (h : n.OnChain chain) (hk : chain[k]? = some b) :
    n.isIncludedBlock (blockId b) = .ok true := by
  have hnum : (blockId b).num = k + 1 := h.spine.toAncestry.blockNum_eq hk
  rw [isIncludedBlock, hnum, h.getBlockIdForNum_eq hk]
  show Except.ok (decide (blockId b = blockId b)) = _
  rw [decide_eq_true rfl]

/-! ## The blocks a synopsis is about -/

/-- What a reference point stands for: without one, the head. -/
def tip (n : Node β ρ) (referencePoint : BlockId) : BlockId :=
  if referencePoint = BlockId.zero then n.state.headId else referencePoint

/-- `lineage` is the blocks up to the reference point, and the span finds their ids. -/
structure Spans (n : Node β ρ) (undoSize : Nat) (referencePoint : BlockId) (s : Span)
    (lineage : List β) : Prop where
  ancestry : Ancestry (n.tip referencePoint) lineage
  high : s.high = lineage.length
  pos : 0 < lineage.length
  low_le : s.low ≤ lineage.length
  undoable : s.low ≤ n.lastNonUndoableBlockNum undoSize
  idAt : ∀ k b, lineage[k]? = some b → s.idAt n (k + 1) = .ok (blockId b)

/-- Without a fork, the ids are those of the chain. -/
theorem OnChain.idAt_eq (h : n.OnChain chain) {s : Span} (hk : chain[k]? = some b)
    (hle : k + 1 ≤ s.nonForkHigh) : s.idAt n (k + 1) = .ok (blockId b) := by
  rw [Span.idAt, if_pos hle]
  exact h.getBlockIdForNum_eq hk

/-- A reference point on the chain is where the synopsis ends, and the chain below it is what it
spans. -/
theorem OnChain.spans_included (h : n.OnChain chain) (undoSize : Nat) (hk : chain[k]? = some b)
    (hb : blockId b ≠ BlockId.zero) :
    ∃ s, n.span undoSize (blockId b) = .ok (some s) ∧
      n.Spans undoSize (blockId b) s (chain.take (k + 1)) := by
  have hnum : (blockId b).num = k + 1 := h.spine.toAncestry.blockNum_eq hk
  obtain ⟨hlt, _⟩ := List.getElem?_eq_some_iff.mp hk
  have hlength : (chain.take (k + 1)).length = k + 1 := List.length_take_of_le (by omega)
  refine ⟨{
    low := min (n.lastNonUndoableBlockNum undoSize) (blockId b).num
    high := (blockId b).num
    nonForkHigh := (blockId b).num }, ?_, ⟨?_, ?_, ?_, ?_, ?_, fun j c hj => ?_⟩⟩
  · rw [span, if_pos hb, onChainOf_ok.mpr (h.isIncludedBlock_eq hk)]
    rfl
  · rw [tip, if_neg hb]
    exact h.spine.toAncestry.take hk
  · rw [hlength]
    exact hnum
  · omega
  · rw [hlength, ← hnum]
    exact Nat.min_le_right _ _
  · exact Nat.min_le_left _ _
  · obtain ⟨hj', _⟩ := List.getElem?_eq_some_iff.mp hj
    rw [List.getElem?_take_of_lt (by omega)] at hj
    exact h.idAt_eq hj (by show j + 1 ≤ (blockId b).num; omega)

omit [BlockCode β ρ] in
/-- Without a reference point, all blocks of a node that has some are to be summed up. -/
theorem span_head (hpos : 0 < n.headNum) : n.span undoSize BlockId.zero = .ok (some {
    low := n.lastNonUndoableBlockNum undoSize
    high := n.headNum
    nonForkHigh := n.headNum }) := by
  rw [span, if_neg (fun hne => hne rfl), if_neg (by omega)]
  rfl

/-- No reference point, on a node that has blocks, where the number of the last block that cannot be
undone has not wrapped. -/
theorem OnChain.spans_head (h : n.OnChain chain) (hpos : 0 < n.headNum)
    (hundo : n.lastNonUndoableBlockNum undoSize ≤ n.headNum) :
    ∃ s, n.span undoSize BlockId.zero = .ok (some s) ∧ n.Spans undoSize BlockId.zero s chain := by
  refine ⟨_, span_head hpos, ⟨?_, h.length_eq.symm, ?_, ?_, Nat.le_refl _, fun j c hj => ?_⟩⟩
  · rw [tip, if_pos rfl]
    exact h.spine.toAncestry
  · rw [h.length_eq]
    exact hpos
  · rw [h.length_eq]
    exact hundo
  · obtain ⟨hj', _⟩ := List.getElem?_eq_some_iff.mp hj
    rw [h.length_eq] at hj'
    exact h.idAt_eq hj hj'

omit [BlockCode β ρ] in
/-- Without a reference point, a node can tell what is to be summed up. -/
theorem exists_span (n : Node β ρ) (undoSize : Nat) :
    ∃ s, n.span undoSize BlockId.zero = .ok s := by
  by_cases hempty : n.headNum = 0
  · refine ⟨none, ?_⟩
    rw [span, if_neg (fun hne => hne rfl), if_pos hempty]
    rfl
  · exact ⟨_, span_head (Nat.pos_of_ne_zero hempty)⟩

/-- A reference point on a fork: the line is the chain up to where the fork starts, and then the
fork. -/
theorem OnChain.spans_fork (h : n.OnChain chain) {r : BlockId} {ids : List BlockId} {s : Span}
    (hr : r ≠ BlockId.zero) (hids : n.getBlockIdsOnFork r = .ok ids)
    (hlow : n.lastNonUndoableBlockNum undoSize ≤ s.nonForkHigh)
    (hslow : s.low = n.lastNonUndoableBlockNum undoSize)
    (hnon : s.nonForkHigh = (ids.getLast?.getD BlockId.zero).num)
    (hfork : s.forkHistory = ids.dropLast.reverse)
    (hhigh : s.high = s.nonForkHigh + s.forkHistory.length) :
    ∃ lineage, n.Spans undoSize r s lineage := by
  obtain ⟨⟨first, second⟩, hfetch, hids⟩ := except_bind_ok.mp hids
  obtain ⟨x, y, hx, hy, hbr⟩ := ForkDatabase.fetchBranchFrom_spec h.fork hfetch
  obtain ⟨u, v, hu, hv, hsame⟩ := hbr.siblings
  simp only [hu] at hids
  have hids := (Except.ok.inj hids).symm
  obtain ⟨x', hhead⟩ : ∃ l, first = x :: l := by
    cases first with
    | nil => cases hbr.first_head
    | cons z l => exact ⟨l, by rw [Option.some.inj hbr.first_head]⟩
  obtain ⟨y', hreference⟩ : ∃ l, second = y :: l := by
    cases second with
    | nil => cases hbr.second_head
    | cons z l => exact ⟨l, by rw [Option.some.inj hbr.second_head]⟩
  have hxid : blockId x.2 = n.state.headId := h.fork.blockId_of_fetch? hx
  have hyid : blockId y.2 = r := h.fork.blockId_of_fetch? hy
  have hfirst : (first.map Prod.snd).IsChain fun a b => previous a = blockId b :=
    (List.isChain_map _).mpr (hbr.first_chain.imp fun _ _ hlink => hlink.2.2)
  have hsecond : (second.map Prod.snd).IsChain fun a b => previous a = blockId b :=
    (List.isChain_map _).mpr (hbr.second_chain.imp fun _ _ hlink => hlink.2.2)
  have hlastFirst : (first.map Prod.snd).getLast? = some u.2 := by rw [List.getLast?_map, hu]; rfl
  have hlastSecond : (second.map Prod.snd).getLast? = some v.2 := by
    rw [List.getLast?_map, hv]
    rfl
  rw [hhead, List.map_cons] at hfirst hlastFirst
  rw [hreference, List.map_cons] at hsecond hlastSecond
  have hchain := h.spine.toAncestry
  rw [← hxid] at hchain
  -- both branches stand on one block, up to which the chain is that of the reference point as well
  obtain ⟨init, hsplit, hinit⟩ := hchain.split hfirst hlastFirst
  rw [hsame] at hinit
  have hline := hinit.join hsecond hlastSecond
  rw [hyid, ← List.map_cons, ← hreference] at hline
  have hnonFork : s.nonForkHigh = init.length := by
    rw [hnon, hids, List.getLast?_concat, hsame, hinit.length]
    rfl
  have hhistory : s.forkHistory = (second.map Prod.snd).reverse.map blockId := by
    rw [hfork, hids, List.dropLast_concat, List.map_reverse, List.map_map]
    rfl
  refine ⟨init ++ (second.map Prod.snd).reverse, ?_, ?_, ?_, ?_, hslow.le, fun k b hk => ?_⟩
  · rw [tip, if_neg hr]
    exact hline
  · rw [hhigh, hnonFork, hhistory, List.length_append, List.length_map]
  · rw [hreference]
    simp
  · rw [hslow, List.length_append, ← hnonFork]
    omega
  · -- up to the fork the id is looked up by its number, behind it in the list of the branch
    by_cases hlt : k < init.length
    · rw [List.getElem?_append_left hlt] at hk
      refine h.idAt_eq ?_ (by omega)
      rw [hsplit, List.getElem?_append_left hlt]
      exact hk
    · rw [List.getElem?_append_right (by omega)] at hk
      have hplace : s.forkHistory[k + 1 - s.nonForkHigh - 1]? = some (blockId b) := by
        have hindex : k + 1 - s.nonForkHigh - 1 = k - init.length := by omega
        rw [hhistory, List.getElem?_map, hindex, hk]
        rfl
      rw [Span.idAt, if_neg (by omega), hplace]
      rfl

/-- What a synopsis is about is one chain; without a reference point, where the number of the last
block that cannot be undone has not wrapped. -/
theorem OnChain.spans (h : n.OnChain chain) {r : BlockId} {s : Span} (hr : r.num ≤ n.headNum)
    (hundo : r = BlockId.zero → n.lastNonUndoableBlockNum undoSize ≤ n.headNum)
    (hs : n.span undoSize r = .ok (some s)) : ∃ lineage, n.Spans undoSize r s lineage := by
  by_cases hzero : r = BlockId.zero
  · subst hzero
    by_cases hempty : n.headNum = 0
    · rw [span, if_neg (fun hne => hne rfl), if_pos hempty] at hs
      cases hs
    · obtain ⟨s', hs', hspans⟩ := h.spans_head (Nat.pos_of_ne_zero hempty) (hundo rfl)
      rw [hs, Except.ok.injEq, Option.some.injEq] at hs'
      rw [hs']
      exact ⟨_, hspans⟩
  · have hspan := hs
    rw [span, if_pos hzero] at hs
    obtain ⟨included, hincluded, hs⟩ := except_bind_ok.mp hs
    rw [onChainOf_ok] at hincluded
    cases included with
    | true =>
        obtain ⟨k, b, hk, rfl, _⟩ := h.mem_of_isIncluded hincluded hr
        obtain ⟨s', hs', hspans⟩ := h.spans_included undoSize hk hzero
        rw [hspan, Except.ok.injEq, Option.some.injEq] at hs'
        rw [hs']
        exact ⟨_, hspans⟩
    | false =>
        obtain ⟨ids, hids, hs⟩ := except_bind_ok.mp hs
        rw [onChainOf_ok] at hids
        by_cases hold :
            (ids.getLast?.getD BlockId.zero).num < n.lastNonUndoableBlockNum undoSize
        · simp [hold] at hs
        · simp only [hold, if_false] at hs
          obtain rfl := Option.some.inj (Except.ok.inj hs)
          exact h.spans_fork hzero hids (Nat.le_of_not_lt hold) rfl rfl rfl rfl

omit [BlockCode β ρ] in
/-- Only an empty chain has nothing to be summed up. -/
theorem span_none {r : BlockId} (h : n.span undoSize r = .ok none) :
    r = BlockId.zero ∧ n.headNum = 0 := by
  unfold span at h
  split at h
  · obtain ⟨included, _, h⟩ := except_bind_ok.mp h
    split at h
    · cases h
    · obtain ⟨ids, _, h⟩ := except_bind_ok.mp h
      dsimp only at h
      split at h <;> cases h
  · split at h
    · exact ⟨not_not.mp ‹_›, ‹_›⟩
    · cases h

omit [BlockCode β ρ] in
/-- A node with something to be summed up has blocks. -/
theorem pos_of_span {s : Span} (h : n.span undoSize BlockId.zero = .ok (some s)) :
    0 < n.headNum := by
  by_contra hempty
  rw [span, if_neg (fun hne => hne rfl), if_pos (by omega)] at h
  cases h

/-! ## The loops over half of what is left -/

omit [BlockCode β ρ] in
/-- The loop of the application sums up the line, as far as it goes. -/
theorem Span.synopsis_eq {s : Span} {lineage : List β} (hhigh : s.high = lineage.length)
    (hidAt : ∀ k b, lineage[k]? = some b → s.idAt n (k + 1) = .ok (blockId b)) {high low rounds : Nat}
    (hpos : 0 < low) (hlow : low ≤ s.high) (hle : s.high ≤ high) (hrounds : s.high < low + rounds) :
    s.synopsis n high rounds low =
      .ok (((halving high (high + 1 - low)).filter fun k => decide (k ≤ s.high)).filterMap
        fun k => (lineage.map blockId)[k - 1]?) := by
  induction rounds generalizing low with
  | zero => omega
  | succ rounds ih =>
      obtain ⟨b, hb⟩ : ∃ b, lineage[low - 1]? = some b :=
        ⟨_, List.getElem?_eq_getElem (by omega)⟩
      have hid := hidAt _ b hb
      rw [Nat.sub_add_cancel hpos] at hid
      have hplace : (lineage.map blockId)[low - 1]? = some (blockId b) := by
        rw [List.getElem?_map, hb]
        rfl
      have hfirst : high + 1 - (high + 1 - low) = low := by omega
      have hstep := halving_step (high + 1 - low) high (by omega) (by omega)
      rw [hfirst] at hstep
      rw [halving_of_pos (by omega), hfirst, List.filter_cons_of_pos (by simpa using hlow),
        List.filterMap_cons, Span.synopsis, hid]
      simp only [hplace]
      generalize hnext : low + (high - low + 2) / 2 = next at *
      show (if next ≤ s.high then _ else _ : Except Exn (List BlockId)) = _
      by_cases hgo : next ≤ s.high
      · have hrest := @ih next (by omega) hgo (by omega)
        have hleft : high + 1 - next = (high + 1 - low) / 2 := by omega
        rw [hleft] at hrest
        rw [if_pos hgo, hrest]
        rfl
      · rw [if_neg hgo, List.filter_eq_nil_iff.mpr fun k hk => ?_]
        · rfl
        · have hge := (mem_halving (by omega) hk).1
          simp
          omega

end Node

/-- The loop of the network sums up what the peer has told. -/
theorem PeerConnection.appendTold_eq {ids : List BlockId} {first high low rounds : Nat}
    (hhigh : first + ids.length = high + 1) (hlow : low ≤ high) (hrounds : high < low + rounds) :
    appendTold ids first high rounds low =
      .ok (((halving high (high + 1 - low)).filter fun k => decide (first ≤ k)).filterMap
        fun k => ids[k - first]?) := by
  induction rounds generalizing low with
  | zero => omega
  | succ rounds ih =>
      have hfirst : high + 1 - (high + 1 - low) = low := by omega
      have hstep := halving_step (high + 1 - low) high (by omega) (by omega)
      rw [hfirst] at hstep
      rw [halving_of_pos (by omega), hfirst, List.filter_cons, appendTold]
      have hhere : toldAt ids first low =
          .ok ((if decide (first ≤ low) then [low] else []).filterMap fun k => ids[k - first]?) := by
        unfold toldAt
        by_cases hin : first ≤ low
        · have hplace : ids[low - first]? = some ids[low - first] :=
            List.getElem?_eq_getElem (by omega)
          simp [hin, hplace]
          rfl
        · simp [hin]
          rfl
      rw [hhere]
      generalize hnext : low + (high - low + 2) / 2 = next at *
      show (if next ≤ high then _ else _ : Except Exn (List BlockId)) = _
      by_cases hgo : next ≤ high
      · have hrest := @ih next hgo (by omega)
        have hleft : high + 1 - next = (high + 1 - low) / 2 := by omega
        rw [hleft] at hrest
        rw [if_pos hgo, hrest]
        show Except.ok (_ ++ _) = _
        rw [← List.filterMap_append]
        split <;> rfl
      · have hend : (high + 1 - low) / 2 = 0 := by omega
        rw [if_neg hgo, hend, halving_zero]
        split <;> rfl

variable [BlockCode β ρ] {n : Node β ρ} {chain told : List β} {p : PeerConnection} {undoSize : Nat}

/-! ## The number of the last block that cannot be undone -/

omit [ChainBlock β] [BlockCode β ρ] in
/-- With no more records than blocks, the number does not wrap. -/
theorem Node.lastNonUndoableBlockNum_le (h : undoSize ≤ n.headNum) :
    n.lastNonUndoableBlockNum undoSize ≤ n.headNum := by
  rw [lastNonUndoableBlockNum, if_pos h]
  exact Nat.sub_le _ _

omit [ChainBlock β] [BlockCode β ρ] in
/-- With more records than blocks, it is above the head. -/
theorem Node.lt_lastNonUndoableBlockNum (h : n.headNum < undoSize) (hsize : undoSize < 2 ^ 32) :
    n.headNum < n.lastNonUndoableBlockNum undoSize := by
  rw [lastNonUndoableBlockNum, if_neg (by omega)]
  omega

omit [BlockCode β ρ] in
/-- Above the head there is no id to start a summary of the whole chain with. -/
theorem Node.lastNonUndoableBlockNum_le_of_synopsis (hpos : 0 < n.headNum) {count : Nat}
    {synopsis : List BlockId}
    (h : n.getBlockchainSynopsis undoSize BlockId.zero count = .ok synopsis) :
    n.lastNonUndoableBlockNum undoSize ≤ n.headNum := by
  by_contra hwrapped
  rw [getBlockchainSynopsis, span_head hpos] at h
  obtain ⟨id, hid, _⟩ := except_bind_ok.mp (onChainOf_ok.mp h)
  have habove : ¬max (n.lastNonUndoableBlockNum undoSize) 1 ≤ n.headNum := by omega
  rw [Span.idAt, if_neg habove] at hid
  cases hid

/-- The part of the application: the line to the reference point, as far as it goes. -/
theorem Node.OnChain.getBlockchainSynopsis_eq (h : n.OnChain chain) {r : BlockId} {count : Nat}
    (hr : r.num ≤ n.headNum) {synopsis : List BlockId}
    (hsynopsis : n.getBlockchainSynopsis undoSize r count = .ok synopsis) :
    ∃ (lineage : List β) (low : Nat), Ancestry (n.tip r) lineage ∧ 0 < low ∧
      low ≤ max 1 (n.lastNonUndoableBlockNum undoSize) ∧ low ≤ max 1 lineage.length ∧
      synopsis.head?.elim 1 BlockId.num = low ∧
      synopsis = ((halving (lineage.length + count) (lineage.length + count + 1 - low)).filter
        fun k => decide (k ≤ lineage.length)).filterMap fun k => (lineage.map blockId)[k - 1]? := by
  have hundo : r = BlockId.zero → 0 < n.headNum →
      n.lastNonUndoableBlockNum undoSize ≤ n.headNum := by
    rintro rfl hpos
    exact Node.lastNonUndoableBlockNum_le_of_synopsis hpos hsynopsis
  obtain ⟨spanned, hspan, hsynopsis⟩ := except_bind_ok.mp hsynopsis
  cases spanned with
  | none =>
      obtain rfl := Except.ok.inj hsynopsis
      obtain ⟨hzero, hempty⟩ := Node.span_none hspan
      refine ⟨[], 1, ?_, Nat.one_pos, Nat.le_max_left _ _, Nat.le_max_left _ _, rfl, by simp⟩
      rw [Node.tip, if_pos hzero]
      exact .nil hempty
  | some s =>
      rw [onChainOf_ok] at hsynopsis
      have hpos : r = BlockId.zero → 0 < n.headNum := by
        rintro rfl
        exact Node.pos_of_span hspan
      obtain ⟨lineage, hline⟩ := h.spans hr (fun hzero => hundo hzero (hpos hzero)) hspan
      have hlow : max s.low 1 ≤ s.high := by
        rw [hline.high]
        exact Nat.max_le.mpr ⟨hline.low_le, hline.pos⟩
      rw [Node.Span.synopsis_eq hline.high hline.idAt (by omega) hlow (by omega) (by omega),
        Except.ok.injEq] at hsynopsis
      have hundoable := hline.undoable
      have hhigh := hline.high
      refine ⟨lineage, max s.low 1, hline.ancestry, by omega, by omega, by omega, ?_, ?_⟩
      · obtain ⟨b, hb⟩ : ∃ b, lineage[max s.low 1 - 1]? = some b :=
          ⟨_, List.getElem?_eq_getElem (by omega)⟩
        have hplace : (lineage.map blockId)[max s.low 1 - 1]? = some (blockId b) := by
          rw [List.getElem?_map, hb]
          rfl
        have hfirst : s.high + count + 1 - (s.high + count + 1 - max s.low 1) = max s.low 1 := by
          omega
        rw [← hsynopsis, halving_of_pos (by omega), hfirst,
          List.filter_cons_of_pos (by simpa using hlow), List.filterMap_cons]
        simp only [hplace]
        show blockNum b = _
        rw [hline.ancestry.blockNum_eq hb]
        omega
      · rw [← hsynopsis, hhigh]

/-- It sums up all that can be told of the blocks up to the reference point; without one, where the
number of the last block that cannot be undone has not wrapped. -/
theorem Node.OnChain.exists_getBlockchainSynopsis (h : n.OnChain chain) {r : BlockId} (count : Nat)
    (hr : r.num ≤ n.headNum)
    (hundo : r = BlockId.zero → 0 < n.headNum → n.lastNonUndoableBlockNum undoSize ≤ n.headNum)
    {s : Option Node.Span} (hs : n.span undoSize r = .ok s) :
    ∃ synopsis, n.getBlockchainSynopsis undoSize r count = .ok synopsis := by
  unfold Node.getBlockchainSynopsis
  rw [hs]
  cases s with
  | none => exact ⟨_, rfl⟩
  | some s =>
      have hpos : r = BlockId.zero → 0 < n.headNum := by
        rintro rfl
        exact Node.pos_of_span hs
      obtain ⟨lineage, hline⟩ := h.spans hr (fun hzero => hundo hzero (hpos hzero)) hs
      have hlow := hline.low_le
      have hpos := hline.pos
      have hhigh := hline.high
      have hloop : s.synopsis n (s.high + count) (s.high + 1) (max s.low 1) = _ :=
        Node.Span.synopsis_eq hhigh hline.idAt (by omega) (by omega) (by omega) (by omega)
      exact ⟨_, onChainOf_ok.mpr hloop⟩

namespace PeerConnection

/-- **Synopsis**: what is sent to a peer sums up the blocks up to the last one the peer has
delivered, with the ids it has told behind them. -/
theorem synopsisFor_eq (h : n.OnChain chain) (hids : p.idsOfItemsToGet = told.map blockId)
    (hnext : ∀ b, told.head? = some b →
      (previous b).num = (n.tip p.lastBlockDelegateHasSeen).num)
    (hseen : p.lastBlockDelegateHasSeen.num ≤ n.headNum) {own : List BlockId}
    (hown : n.getBlockchainSynopsis undoSize p.lastBlockDelegateHasSeen told.length = .ok own) :
    ∃ lineage low, Ancestry (n.tip p.lastBlockDelegateHasSeen) lineage ∧ 0 < low ∧
      low ≤ max 1 (n.lastNonUndoableBlockNum undoSize) ∧ low ≤ max 1 lineage.length ∧
      p.synopsisFor n undoSize = .ok (summary ((lineage ++ told).map blockId) low) := by
  obtain ⟨lineage, low, hline, hpos, hundoable, hle, hfirst, heq⟩ :=
    h.getBlockchainSynopsis_eq hseen hown
  refine ⟨lineage, low, hline, hpos, hundoable, hle, ?_⟩
  rw [List.map_append, summary_append _ _ hpos, List.length_append, List.length_map,
    List.length_map, ← heq, synopsisFor, hids, List.length_map, hown]
  cases told with
  | nil => simp
  | cons b told =>
      have hnum : (blockId b).num = lineage.length + 1 := by
        rw [hline.length, ← hnext b rfl]
        rfl
      have htop : (blockId b).num + (b :: told).length - 1 = lineage.length + (b :: told).length := by
        omega
      have hmore : appendTold ((b :: told).map blockId) (blockId b).num
          (lineage.length + (b :: told).length) (lineage.length + (b :: told).length + 1) low = _ :=
        appendTold_eq (by rw [hnum, List.length_map]; omega)
          (by simp only [List.length_cons]; omega) (by omega)
      show (onChainOf (appendTold _ (blockId b).num ((blockId b).num + (b :: told).length - 1)
        ((blockId b).num + (b :: told).length - 1 + 1) (own.head?.elim 1 BlockId.num)) >>= _) = _
      rw [htop, hfirst, hmore, hnum]
      rfl

/-- There is a synopsis wherever the blocks up to the last one delivered can be told. -/
theorem synopsisFor_ok (h : n.OnChain chain) (hids : p.idsOfItemsToGet = told.map blockId)
    (hnext : ∀ b, told.head? = some b →
      (previous b).num = (n.tip p.lastBlockDelegateHasSeen).num)
    (hseen : p.lastBlockDelegateHasSeen.num ≤ n.headNum) {synopsis : List BlockId}
    (hsynopsis : p.synopsisFor n undoSize = .ok synopsis) :
    ∃ lineage low, Ancestry (n.tip p.lastBlockDelegateHasSeen) lineage ∧ 0 < low ∧
      low ≤ max 1 (n.lastNonUndoableBlockNum undoSize) ∧ low ≤ max 1 lineage.length ∧
      synopsis = summary ((lineage ++ told).map blockId) low := by
  obtain ⟨own, hown, _⟩ := except_bind_ok.mp hsynopsis
  rw [hids, List.length_map] at hown
  obtain ⟨lineage, low, hline, hpos, hundoable, hle, heq⟩ := synopsisFor_eq h hids hnext hseen hown
  exact ⟨lineage, low, hline, hpos, hundoable, hle, Except.ok.inj (hsynopsis.symm.trans heq)⟩

end PeerConnection

/-- **Summing up**: on a node that runs, where a peer has told the ids of blocks numbered on from
the last block it has delivered (at first, from the head), the synopsis sent to it is a summary of
the node's line to that block and of those ids: its first block is not above the last one that
cannot be undone, its last block is the end, at most 32 ids are sent, and before every block behind
the first one sent there is one in the synopsis that is no farther away than the end. At first, there
is a synopsis just when the node has no blocks, or no fewer than records in its undo database. The
records of the blocks are never too many; the session of pending transactions may be the one record
too many, as long as every block can be undone. -/
theorem synopsis_sums_up (undoSize : Nat) (hrun : n.Running)
    (hids : p.idsOfItemsToGet = told.map blockId)
    (hnext : ∀ b, told.head? = some b → (previous b).num = (n.tip p.lastBlockDelegateHasSeen).num)
    (hseen : p.lastBlockDelegateHasSeen.num ≤ n.headNum) :
    (p.lastBlockDelegateHasSeen = BlockId.zero → undoSize < 2 ^ 32 →
      ((∃ synopsis, p.synopsisFor n undoSize = .ok synopsis) ↔
        n.headNum = 0 ∨ undoSize ≤ n.headNum)) ∧
      n.history.length ≤ n.headNum ∧
      ∀ synopsis, p.synopsisFor n undoSize = .ok synopsis → ∃ lineage low ids,
        Ancestry (n.tip p.lastBlockDelegateHasSeen) lineage ∧ ids = (lineage ++ told).map blockId ∧
        0 < low ∧ low ≤ max 1 (n.lastNonUndoableBlockNum undoSize) ∧ synopsis = summary ids low ∧
        synopsis.getLast? = ids.getLast? ∧ (ids.length < 2 ^ 32 → synopsis.length ≤ 32) ∧
        ∀ t, low ≤ t → t ≤ ids.length → ∃ k id, id ∈ synopsis ∧ ids[k - 1]? = some id ∧
          low ≤ k ∧ k ≤ t ∧ t - k ≤ ids.length - t := by
  obtain ⟨chain, h⟩ := hrun.onChain
  refine ⟨fun hzero hsize => ⟨?_, fun hundo => ?_⟩, h.linked.length_le,
    fun synopsis hsynopsis => ?_⟩
  · rintro ⟨synopsis, hsynopsis⟩
    obtain ⟨own, hown, _⟩ := except_bind_ok.mp hsynopsis
    rw [hzero] at hown
    by_contra hneither
    obtain ⟨hblocks, hmore⟩ := not_or.mp hneither
    have hle := Node.lastNonUndoableBlockNum_le_of_synopsis (Nat.pos_of_ne_zero hblocks) hown
    have hlt := Node.lt_lastNonUndoableBlockNum (Nat.lt_of_not_le hmore) hsize
    omega
  · obtain ⟨s, hs⟩ := n.exists_span undoSize
    rw [← hzero] at hs
    obtain ⟨own, hown⟩ := h.exists_getBlockchainSynopsis told.length hseen
      (fun _ hpos => Node.lastNonUndoableBlockNum_le (hundo.resolve_left (by omega))) hs
    obtain ⟨_, _, _, _, _, _, heq⟩ := PeerConnection.synopsisFor_eq h hids hnext hseen hown
    exact ⟨_, heq⟩
  · obtain ⟨lineage, low, hline, hpos, hundoable, hle, rfl⟩ :=
      PeerConnection.synopsisFor_ok h hids hnext hseen hsynopsis
    refine ⟨lineage, low, _, hline, rfl, hpos, hundoable, rfl, ?_,
      fun hlength => length_summary_le hlength hpos, fun t => exists_summary_near hpos⟩
    by_cases hlow : low ≤ ((lineage ++ told).map blockId).length
    · exact getLast?_summary hlow
    · rw [List.length_map, List.length_append] at hlow
      have hline : lineage = [] := List.eq_nil_of_length_eq_zero (by omega)
      have htold : told = [] := List.eq_nil_of_length_eq_zero (by omega)
      subst hline htold
      simp [summary]

theorem Sample.running (bs : List Sample.Blk) : (Sample.told bs).Running :=
  ⟨Sample.genesis, Sample.genesis_opened, ⟨[], Sample.spine_genesis⟩, Sample.told_run bs⟩

/-- A node with a chain of two blocks asks a peer it knows nothing of. -/
theorem synopsis_sums_up_sample : ∃ synopsis,
    ({} : PeerConnection).synopsisFor (Sample.told [.a1, .b1, .b2]) 2 = .ok synopsis ∧
      synopsis.length ≤ 32 := by
  obtain ⟨hsome, _, hall⟩ := synopsis_sums_up (p := {}) 2 (Sample.running [.a1, .b1, .b2])
    (show [] = List.map blockId [] from rfl) (fun _ hb => (nomatch hb)) (Nat.zero_le _)
  obtain ⟨synopsis, hsynopsis⟩ := (hsome rfl (by decide)).mpr (Or.inr (by decide))
  obtain ⟨lineage, low, ids, hline, rfl, _, _, _, _, hlength, _⟩ := hall synopsis hsynopsis
  refine ⟨synopsis, hsynopsis, hlength ?_⟩
  rw [List.append_nil, List.length_map, hline.length]
  decide

end BtcmChain
