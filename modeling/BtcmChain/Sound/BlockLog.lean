import BtcmChain.Chain.BlockLog
import BtcmChain.Sound.PushBlock
import BtcmChain.Sound.ForkSwitch

set_option autoImplicit false

/-!
# The file of blocks follows the chain

Whatever a node is told, forks that fail included, the blocks in its file up to the head are the
ancestors of the head.

A block that is popped stays in the file until another of its number is written over it, and a
switch back to the old branch writes the old blocks again. So the file holds the chain of the head
at all times, although it may hold other blocks above it. `Spine` is the chain as the file should
have it, and `Enduring` says of a property what popping, forgetting old records and storing the
next block have to keep; from that `RunIf.enduring` has it for every run, and
`block_log_follows_chain` says what this means for the queries of the node.
-/

namespace BtcmChain

variable {β ρ : Type} [ChainBlock β]

/-! ## Ancestors -/

/-- The blocks from number one on up to the block `id`. -/
structure Ancestry (id : BlockId) (chain : List β) : Prop where
  linked : chain.IsChain fun b c => previous c = blockId b
  first : ∀ b, chain.head? = some b → (previous b).num = 0
  last : ∀ b, chain.getLast? = some b → blockId b = id
  length : chain.length = id.num

namespace Ancestry

variable {id : BlockId} {chain other : List β} {b c : β} {k : Nat}

/-- The chain of the parent, and the block behind it. -/
theorem eq_concat (h : Ancestry (blockId b) chain) :
    ∃ init, chain = init ++ [b] ∧ Ancestry (previous b) init := by
  have hlength : chain.length = (previous b).num + 1 := h.length
  obtain ⟨init, c, rfl⟩ : ∃ init c, chain = init ++ [c] := by
    refine ⟨chain.dropLast, chain.getLast (List.ne_nil_of_length_pos (by omega)), ?_⟩
    exact (List.dropLast_append_getLast _).symm
  obtain rfl : c = b := blockId_injective (h.last c List.getLast?_concat)
  obtain ⟨hinit, _, hlink⟩ := List.isChain_append.mp h.linked
  rw [List.length_append, List.length_singleton] at hlength
  refine ⟨init, rfl, hinit, fun x hx => ?_, fun x hx => ?_, by omega⟩
  · refine h.first x ?_
    rw [List.head?_append, hx]
    rfl
  · exact (hlink x hx c rfl).symm

theorem concat (h : Ancestry (previous b) chain) : Ancestry (blockId b) (chain ++ [b]) := by
  have hlength := h.length
  refine ⟨?_, fun x hx => ?_, fun x hx => ?_, ?_⟩
  · refine List.isChain_append.mpr ⟨h.linked, List.isChain_singleton b, fun x hx y hy => ?_⟩
    obtain rfl : b = y := Option.some.inj hy
    exact (h.last x hx).symm
  · cases chain with
    | nil =>
        obtain rfl : b = x := Option.some.inj hx
        rw [← hlength]
        rfl
    | cons c rest => exact h.first x hx
  · rw [List.getLast?_concat, Option.some.injEq] at hx
    rw [hx]
  · rw [List.length_append, List.length_singleton, hlength]
    rfl

theorem nil (h : id.num = 0) : Ancestry id ([] : List β) :=
  ⟨List.isChain_nil, fun _ hb => (nomatch hb), fun _ hb => (nomatch hb), h.symm⟩

/-- The chain of every block on a chain is the part of it up to that block. -/
theorem take (h : Ancestry id chain) (hk : chain[k]? = some b) :
    Ancestry (blockId b) (chain.take (k + 1)) := by
  induction chain using List.reverseRecOn generalizing id with
  | nil => cases hk
  | append_singleton init c ih =>
      obtain rfl : blockId c = id := h.last c List.getLast?_concat
      obtain ⟨rest, hrest, hinit⟩ := h.eq_concat
      obtain rfl : init = rest := (List.append_inj' hrest rfl).1
      by_cases hlt : k < init.length
      · rw [List.getElem?_append_left hlt] at hk
        rw [List.take_append_of_le_length (by omega)]
        exact ih hinit hk
      · obtain ⟨hle, _⟩ := List.getElem?_eq_some_iff.mp hk
        rw [List.length_append, List.length_singleton] at hle
        obtain rfl : k = init.length := by omega
        rw [List.getElem?_concat_length, Option.some.injEq] at hk
        rw [List.take_of_length_le (by simp), ← hk]
        exact h

/-- Blocks on a chain are numbered by their place in it, from one on. -/
theorem blockNum_eq (h : Ancestry id chain) (hk : chain[k]? = some b) : blockNum b = k + 1 := by
  obtain ⟨hlt, _⟩ := List.getElem?_eq_some_iff.mp hk
  have hlength := (h.take hk).length
  rw [List.length_take_of_le (by omega)] at hlength
  exact hlength.symm

/-- A block has one chain only, since every id on it is that of one block. -/
theorem unique (h : Ancestry (blockId b) chain) (hother : Ancestry (blockId b) other) :
    chain = other := by
  induction chain using List.reverseRecOn generalizing b other with
  | nil =>
      have hlength : 0 = (previous b).num + 1 := h.length
      omega
  | append_singleton init c ih =>
      obtain ⟨rest, hrest, hinit⟩ := h.eq_concat
      obtain ⟨rfl, hc⟩ := List.append_inj' hrest rfl
      obtain ⟨rest', rfl, hother'⟩ := hother.eq_concat
      rw [hc]
      congr 1
      cases init using List.reverseRecOn with
      | nil =>
          have hlength := hother'.length.trans hinit.length.symm
          exact (List.eq_nil_of_length_eq_zero hlength).symm
      | append_singleton init' d =>
          have hd : blockId d = previous b := hinit.last d List.getLast?_concat
          rw [← hd] at hinit hother'
          exact ih hinit hother'

theorem eq_of_ancestry (h : Ancestry id chain) (hother : Ancestry id other) : chain = other := by
  have hlength := h.length.trans hother.length.symm
  cases hlast : chain.getLast? with
  | none =>
      rw [List.getLast?_eq_none_iff] at hlast
      rw [hlast] at hlength ⊢
      exact (List.eq_nil_of_length_eq_zero hlength.symm).symm
  | some b =>
      obtain rfl := h.last b hlast
      exact h.unique hother

/-- A branch that ends with a block is what its chain ends with. -/
theorem split {l : List β} (h : Ancestry (blockId b) chain)
    (hl : (b :: l).IsChain fun x y => previous x = blockId y) (hlast : (b :: l).getLast? = some c) :
    ∃ init, chain = init ++ (b :: l).reverse ∧ Ancestry (previous c) init := by
  induction l generalizing b chain with
  | nil =>
      obtain rfl : b = c := Option.some.inj hlast
      exact h.eq_concat
  | cons d l ih =>
      obtain ⟨init, rfl, hinit⟩ := h.eq_concat
      obtain ⟨hlink, hrest⟩ := List.isChain_cons_cons.mp hl
      rw [hlink] at hinit
      obtain ⟨init', rfl, hbase⟩ := ih hinit hrest (by rwa [List.getLast?_cons_cons] at hlast)
      exact ⟨init', by simp, hbase⟩

/-- Linked blocks up to a block are what its chain ends with. -/
theorem suffix_of_linked {l : List β} (h : Ancestry (blockId b) chain)
    (hl : l.IsChain fun x y => previous y = blockId x) (hlast : l.getLast? = some b) :
    l <:+ chain := by
  induction l using List.reverseRecOn generalizing b chain with
  | nil => cases hlast
  | append_singleton init c ih =>
      rw [List.getLast?_concat, Option.some.injEq] at hlast
      subst hlast
      obtain ⟨rest, rfl, hrest⟩ := h.eq_concat
      cases hinit : init.getLast? with
      | none =>
          rw [List.getLast?_eq_none_iff] at hinit
          rw [hinit]
          exact ⟨rest, rfl⟩
      | some d =>
          obtain ⟨hchain, _, hlink⟩ := List.isChain_append.mp hl
          rw [hlink d hinit c rfl] at hrest
          obtain ⟨front, hfront⟩ := ih hrest hchain hinit
          exact ⟨front, by rw [← List.append_assoc, hfront]⟩

/-- A branch on top of a chain makes a longer chain, when its last block is a child of the chain's.
-/
theorem join {l : List β} (h : Ancestry (previous c) chain)
    (hl : (b :: l).IsChain fun x y => previous x = blockId y) (hlast : (b :: l).getLast? = some c) :
    Ancestry (blockId b) (chain ++ (b :: l).reverse) := by
  induction l generalizing b with
  | nil =>
      obtain rfl : b = c := Option.some.inj hlast
      exact h.concat
  | cons d l ih =>
      obtain ⟨hlink, hrest⟩ := List.isChain_cons_cons.mp hl
      have hjoin := ih hrest (by rwa [List.getLast?_cons_cons] at hlast)
      rw [← hlink] at hjoin
      have hconcat := hjoin.concat
      rw [List.append_assoc] at hconcat
      rwa [List.reverse_cons]

end Ancestry

/-! ## Chains in the file -/

/-- `chain` is the blocks from number one on up to the block `id`, and the file has them. -/
structure Spine (log : FlatMap Nat β) (id : BlockId) (chain : List β) : Prop
    extends Ancestry id chain where
  stored : ∀ k, k < chain.length → log.find? (k + 1) = chain[k]?

namespace Spine

variable {log : FlatMap Nat β} {id : BlockId} {chain : List β} {b : β} {k : Nat}

theorem find?_eq (h : Spine log id chain) (hk : chain[k]? = some b) :
    log.find? (k + 1) = some b := by
  obtain ⟨hlt, _⟩ := List.getElem?_eq_some_iff.mp hk
  rw [h.stored k hlt, hk]

/-- The chain of the parent is the chain of the block without its last block. -/
theorem dropLast (h : Spine log (blockId b) chain) : Spine log (previous b) chain.dropLast := by
  obtain ⟨init, rfl, hinit⟩ := h.toAncestry.eq_concat
  rw [List.dropLast_concat]
  refine ⟨hinit, fun k hk => ?_⟩
  rw [h.stored k (by rw [List.length_append]; omega), List.getElem?_append_left hk]

/-- When a child is stored under its number, the chain with the child in the end is the one that the
file has. -/
theorem concat (h : Spine log (previous b) chain) :
    Spine (log.set (blockNum b) b) (blockId b) (chain ++ [b]) := by
  refine ⟨h.toAncestry.concat, fun k hk => ?_⟩
  rw [List.length_append, List.length_singleton] at hk
  rw [FlatMap.find?_set]
  have hb : blockNum b = chain.length + 1 := by
    rw [h.length]
    rfl
  by_cases hend : k = chain.length
  · rw [if_pos (by omega), hend, List.getElem?_concat_length]
  · rw [if_neg (by omega), h.stored k (by omega), List.getElem?_append_left (by omega)]

end Spine

/-! ## What blocks and pops keep -/

variable [BlockCode β ρ]

/-- Of a state, its undo history and the file: what popping, forgetting old records and storing the
block of a next state keep. -/
structure Enduring (Q : ChainState ρ → List (ChainState ρ) → FlatMap Nat β → Prop) : Prop where
  pop : ∀ s t rest log, Q s (t :: rest) log → Q t rest log
  forget : ∀ s history log k, Q s history log → Q s (history.take k) log
  extend : ∀ b s s' history log, Q s history log → (s.apply b).outcome = .ok s' →
    Q s' (s :: history) (log.set (blockNum b) b)

namespace Node

variable {Q : ChainState ρ → List (ChainState ρ) → FlatMap Nat β → Prop} {n : Node β ρ} {b : β}
  {target : BlockId} {held : List Nat}

/-- `Q` holds of a node: of its state, of the states it remembers, and of its block file. -/
def Has (Q : ChainState ρ → List (ChainState ρ) → FlatMap Nat β → Prop) (n : Node β ρ) : Prop :=
  Q n.state n.history n.blockLog

theorem popBlock_enduring (hQ : Enduring Q) (h : Has Q n) :
    Post (popBlock held) n (fun _ => Has Q) (fun _ => Has Q) := by
  simp only [popBlock, post_bind, post_get, post_liftExcept, post_set]
  refine ⟨fun _ _ => ⟨fun fork _ => ?_, fun _ _ => h⟩, fun _ _ => h⟩
  cases hh : n.history with
  | nil =>
      show Q n.state [] n.blockLog
      rw [← hh]
      exact h
  | cons s rest =>
      refine hQ.pop n.state s rest n.blockLog ?_
      rw [← hh]
      exact h

theorem popTo_enduring (hQ : Enduring Q) (h : Has Q n) :
    Post (popTo target held) n (fun _ => Has Q) (fun _ => Has Q) := by
  unfold popTo
  rw [post_bind, post_get]
  generalize n.history.length + 1 = fuel
  induction fuel generalizing n with
  | zero => exact h
  | succ fuel ih =>
      unfold popUntil
      rw [post_bind, post_get]
      split
      case isTrue =>
        rw [post_bind]
        exact (popBlock_enduring hQ h).mono (fun _ _ hm => ih hm) fun _ _ hm => hm
      case isFalse => exact h

theorem applyInSession_enduring (hQ : Enduring Q) (h : Has Q n) :
    Post (applyInSession b) n (fun _ => Has Q) (fun _ => Has Q) := by
  have hkept : Q n.state (n.history.take n.undoMaxSize) n.blockLog := hQ.forget _ _ _ _ h
  simp only [applyInSession, post_bind, post_get, post_liftExcept, post_set, post_modifyThe]
  exact ⟨fun s hs => hQ.extend b _ _ _ _ hkept hs, fun _ _ => hkept⟩

theorem switchFork_enduring (hQ : Enduring Q) {first second : List (Nat × β)} (h : Has Q n) :
    Post (switchFork first second) n (fun _ => Has Q) (fun _ => Has Q) := by
  have hbranch : ∀ (target : BlockId) (held : List Nat) (l : List (Nat × β)) {m : Node β ρ},
      Has Q m → Post (applyBranch target held second l) m (fun _ => Has Q) (fun _ => Has Q) := by
    intro target held l
    induction l with
    | nil => exact fun hm => hm
    | cons x l ih =>
        intro m hm
        unfold applyBranch
        rw [post_bind, post_tryCatch]
        refine (applyInSession_enduring hQ hm).mono (fun _ _ hu => ih hu) fun e u hu => ?_
        simp only [switchBack, post_bind, post_modifyThe]
        -- the fork database has changed, nothing else
        refine (popTo_enduring hQ (by exact hu)).mono (fun _ _ hv => ?_) fun _ _ hv => hv
        exact post_forM (P := fun _ => Has Q) (fun y _ w hw => applyInSession_enduring hQ hw) _ hv
  unfold switchFork
  rw [post_bind]
  exact (popTo_enduring hQ h).mono (fun _ _ hm => hbranch _ _ _ hm) fun _ _ hm => hm

theorem exec_enduring (hQ : Enduring Q) {c : Call β} (h : Has Q n) : Has Q (after (exec c) n) := by
  refine post_after.mp ?_
  cases c with
  | pop => exact popBlock_enduring hQ h
  | push b =>
      show Post (pushBlock b >>= fun _ => pure ()) n _ _
      simp only [post_bind, pushBlock, post_get, post_liftExcept, post_set]
      refine ⟨fun fork _ => ?_, fun _ _ => h⟩
      have hn : Has Q { n with fork := fork } := h
      split
      case h_1 => exact hn
      case h_2 newHead _ =>
      split
      case isTrue =>
        split
        case isTrue =>
          rw [post_bind, post_liftExcept]
          refine ⟨fun branches _ => ?_, fun _ _ => hn⟩
          rw [post_bind]
          exact (switchFork_enduring hQ hn).mono (fun _ _ hm => hm) fun _ _ hm => hm
        case isFalse => exact hn
      case isFalse =>
        rw [post_bind, post_tryCatch]
        refine (applyInSession_enduring hQ hn).mono (fun _ _ hm => hm) fun e m hm => ?_
        rw [post_bind, post_modifyThe]
        exact hm

theorem RunIf.enduring {C : Node β ρ → Call β → Prop} {start : Node β ρ} (hQ : Enduring Q)
    (hstart : Has Q start) (h : RunIf C start n) : Has Q n := by
  induction h with
  | start => exact hstart
  | step _ _ ih => exact exec_enduring hQ ih

/-- The undo history is linked by blocks from the file, and the file has the chain of the head. -/
def OnSpine (s : ChainState ρ) (history : List (ChainState ρ)) (log : FlatMap Nat β) : Prop :=
  Linked log s history ∧ ∃ chain, Spine log s.headId chain

theorem enduring_onSpine : Enduring (OnSpine (β := β) (ρ := ρ)) where
  pop s t rest log h := by
    obtain ⟨hlinked, chain, hspine⟩ := h
    cases hlinked with
    | cons b happly _ hrest =>
        obtain ⟨hprev, hid⟩ := ChainState.apply_ok happly
        rw [hid] at hspine
        refine ⟨hrest, chain.dropLast, ?_⟩
        rw [hprev]
        exact hspine.dropLast
  forget s history log k h := ⟨h.1.take k, h.2⟩
  extend b s s' history log h happly := by
    obtain ⟨hlinked, chain, hspine⟩ := h
    obtain ⟨hprev, hid⟩ := ChainState.apply_ok happly
    have hnum : s.headId.num < blockNum b := by
      rw [hprev]
      exact Nat.lt_succ_self _
    refine ⟨.cons b happly (FlatMap.find?_set_self _ _ _) (hlinked.store hnum), chain ++ [b], ?_⟩
    rw [hid]
    rw [hprev] at hspine
    exact hspine.concat

end Node

/-! ## What a node answers -/

/-- **The file follows the chain**: when the file of a node that is opened has the ancestors of its
head, then after any run of pushes and pops, failing ones and fork switches included, the blocks up
to the head are a chain that ends in the head, block `k` of it is what the node says has number `k`,
each of them can be fetched, and a block not above the head is included just when it is one of
them. -/
theorem block_log_follows_chain {start n : Node β ρ} (hopen : start.Opened)
    (hstart : ∃ chain, Spine start.blockLog start.state.headId chain)
    (h : Node.RunIf (fun _ _ => True) start n) :
    ∃ chain : List β, chain.length = n.headNum ∧
      (chain.IsChain fun b c => previous c = blockId b) ∧
      (∀ b, chain.getLast? = some b → blockId b = n.state.headId) ∧
      (∀ k b, chain[k]? = some b → n.getBlockIdForNum (k + 1) = .ok (blockId b) ∧
        n.isKnownBlock (blockId b) = true ∧ n.fetchBlockById (blockId b) = some b) ∧
      ∀ id : BlockId, 0 < id.num → id.num ≤ n.headNum →
        n.isIncludedBlock id = .ok (decide (id ∈ chain.map blockId)) := by
  have hon : Node.Has Node.OnSpine start := by
    refine ⟨?_, hstart⟩
    rw [hopen.1]
    exact .nil _
  obtain ⟨_, chain, hspine⟩ := h.enduring Node.enduring_onSpine hon
  have hwf : n.WF := h.wf hopen.wf
  have hfind (k : Nat) (b : β) (hk : chain[k]? = some b) : n.blockLog.find? (k + 1) = some b :=
    hspine.find?_eq hk
  refine ⟨chain, hspine.length, hspine.linked, hspine.last, fun k b hk => ⟨?_, ?_, ?_⟩,
    fun id hpos hle => ?_⟩
  · rw [Node.getBlockIdForNum, hfind k b hk]
  · have hnum := hspine.blockNum_eq hk
    simp [Node.isKnownBlock, hnum, hfind k b hk]
  · have hnum := hspine.blockNum_eq hk
    rw [Node.fetchBlockById]
    cases hfork : n.fork.fetch? (blockId b) with
    | none => simp [hnum, hfind k b hk]
    | some x =>
        have hid := hwf.fork.blockId_of_fetch? hfork
        show some x.2 = some b
        rw [blockId_injective hid]
  · have hlt : id.num - 1 < chain.length := by
      rw [hspine.length]
      show id.num - 1 < n.headNum
      omega
    obtain ⟨c, hc⟩ : ∃ c, chain[id.num - 1]? = some c := ⟨_, List.getElem?_eq_getElem hlt⟩
    have hlog : n.blockLog.find? id.num = some c := by
      have hlog := hfind _ c hc
      rwa [Nat.sub_add_cancel hpos] at hlog
    -- an id of the chain is that of the block with its number
    have hiff : id = blockId c ↔ id ∈ chain.map blockId := by
      constructor
      · intro hid
        rw [hid]
        exact List.mem_map_of_mem (List.mem_of_getElem? hc)
      · intro hmem
        obtain ⟨b, hb, hbid⟩ := List.mem_map.mp hmem
        obtain ⟨j, hj⟩ := List.mem_iff_getElem?.mp hb
        have hnum : id.num - 1 = j := by
          rw [← hbid, num_blockId, hspine.blockNum_eq hj, Nat.add_sub_cancel]
        rw [hnum, hj, Option.some.injEq] at hc
        rw [← hbid, hc]
    rw [Node.isIncludedBlock, Node.getBlockIdForNum, hlog, ← decide_eq_decide.mpr hiff]
    rfl

namespace Sample

/-- The chain of a new node is empty, as is its block file. -/
theorem spine_genesis : Spine genesis.blockLog genesis.state.headId [] :=
  ⟨.nil rfl, fun k hk => absurd hk (Nat.not_lt_zero k)⟩

theorem told_run (bs : List Blk) : Node.RunIf (fun _ _ => True) genesis (told bs) :=
  List.foldlRecOn bs _ .start fun _ hn _ _ => hn.step trivial

end Sample

/-- After the fork has won, the file has its blocks. -/
theorem block_log_follows_chain_sample :
    ∃ chain : List Sample.Blk, chain.length = 2 ∧
      (Sample.told [.a1, .b1, .b2]).getBlockIdForNum 2 = .ok (blockId Sample.Blk.b2) ∧
      (Sample.told [.a1, .b1, .b2]).isIncludedBlock Sample.a1Id =
        .ok (decide (Sample.a1Id ∈ chain.map blockId)) := by
  obtain ⟨chain, hlength, _, _, _, hincluded⟩ :=
    block_log_follows_chain Sample.genesis_opened ⟨[], Sample.spine_genesis⟩
      (Sample.told_run [.a1, .b1, .b2])
  exact ⟨chain, hlength.trans (by decide), by decide, hincluded _ (by decide) (by decide)⟩

end BtcmChain
