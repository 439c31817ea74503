import BtcmChain.Sound.PushBlock

set_option autoImplicit false

/-!
# Fork switches

A push that returns `true` leaves the state at the fork with the new branch replayed on it.

The fork database names the two branches that `fetch_branch_from` finds (`Branches.forked`), the
undo history gives the states between the fork and the head, and `Sound.PushBlock` has shown for
every reachable node that the two fit. `switch_replays_branch` puts these together: after the
switch the state is the one at the fork, with the blocks of the new branch applied to it one after
the other, and nothing of the old branch is left in it. Two siblings on genesis and a block on the
second of them serve as the example (`told`).
-/

namespace BtcmChain

variable {β ρ : Type} [ChainBlock β] [BlockCode β ρ]

/-- Two branches, from the blocks `i` and `j` down to two blocks with the same parent. -/
structure Forked (i j : BlockId) (first second : List (Nat × β)) : Prop where
  first_ne : first ≠ []
  second_ne : second ≠ []
  first_linked : first.IsChain fun x y => previous x.2 = blockId y.2
  second_linked : second.IsChain fun x y => previous x.2 = blockId y.2
  first_head : first.head?.map (fun x => blockId x.2) = some i
  second_head : second.head?.map (fun x => blockId x.2) = some j
  same_parent : first.getLast?.map (fun x => previous x.2) =
    second.getLast?.map fun x => previous x.2

namespace ForkDatabase

variable {f : ForkDatabase β} {x y : Nat × β} {first second : List (Nat × β)}

theorem Branches.forked (h : f.Branches x y first second) :
    Forked (blockId x.2) (blockId y.2) first second where
  first_ne := by
    rintro rfl
    have hhead := h.first_head
    cases hhead
  second_ne := by
    rintro rfl
    have hhead := h.second_head
    cases hhead
  first_linked := h.first_chain.imp fun _ _ hlink => hlink.2.2
  second_linked := h.second_chain.imp fun _ _ hlink => hlink.2.2
  first_head := by rw [h.first_head]; rfl
  second_head := by rw [h.second_head]; rfl
  same_parent := by
    obtain ⟨u, v, hu, hv, hsame⟩ := h.siblings
    rw [hu, hv, Option.map_some, Option.map_some, hsame]

/-- Numbers fall by one along a branch, so that its length is the difference of its ends. -/
theorem num_of_isChain {l : List (Nat × β)} {u : Nat × β} (h : l.IsChain f.Link)
    (hhead : l.head? = some x) (hlast : l.getLast? = some u) :
    blockNum u.2 + l.length = blockNum x.2 + 1 := by
  cases l with
  | nil => cases hhead
  | cons z l =>
      obtain rfl := Option.some.inj hhead
      induction l generalizing z with
      | nil =>
          obtain rfl := Option.some.inj hlast
          rfl
      | cons w l ih =>
          obtain ⟨hlink, h⟩ := List.isChain_cons_cons.mp h
          have hrest := ih w h (by rwa [List.getLast?_cons_cons] at hlast) rfl
          have hnum := hlink.blockNum
          simp only [List.length_cons] at hrest ⊢
          omega

/-- The item found under an id holds the block with this id. -/
theorem WF.blockId_of_fetch? (hf : f.WF) {id : BlockId} (h : f.fetch? id = some x) :
    blockId x.2 = id := by
  obtain ⟨hindex, hdata⟩ := fetch?_eq_some.mp h
  obtain ⟨b, hb, hid⟩ := hf.index hindex
  obtain rfl : x.2 = b := Option.some.inj (hdata.symm.trans hb)
  exact hid

end ForkDatabase

/-- A replay ends with its last block as the head block. -/
theorem ChainState.headId_replay {t s : ChainState ρ} {l : List β} {b : β}
    (h : t.replay (l ++ [b]) = .ok s) : s.headId = blockId b := by
  unfold ChainState.replay at h
  rw [List.foldlM_append, except_bind_ok] at h
  obtain ⟨u, -, h⟩ := h
  rw [List.foldlM_cons, except_bind_ok] at h
  obtain ⟨v, hv, h⟩ := h
  obtain rfl := Except.ok.inj h
  exact (ChainState.apply_ok hv).2

/-- For every reachable node: a push that returns `true` has replayed, on the state at the
fork of the old and the new head, the blocks of the new branch in order, and the branches
`fetch_branch_from` returns are non-empty, linked by parents, start at the two blocks asked
for and end in two blocks with the same parent. -/
theorem switch_replays_branch (n : Node β ρ) (hn : n.Reachable) :
    (∀ b n', Node.pushBlock b n = .ok true n' → ∃ fork newHead first second t,
      n.fork.pushBlock b = .ok fork ∧ fork.head? = some newHead ∧
      fork.fetchBranchFrom (blockId newHead.2) n.state.headId = .ok (first, second) ∧
      Forked (blockId newHead.2) n.state.headId first second ∧
      t ∈ n.history ∧ first.getLast?.map (fun x => previous x.2) = some t.headId ∧
      t.replay (first.reverse.map Prod.snd) = .ok n'.state ∧
      n'.state.headId = blockId newHead.2) ∧
    ∀ i j first second, n.fork.fetchBranchFrom i j = .ok (first, second) →
      Forked i j first second := by
  have hwf : n.WF := hn.wf
  constructor
  · intro b n' hpush
    obtain ⟨-, hswitched⟩ := (post_iff.mp (Node.pushBlock_post hwf)).1 true n' hpush
    obtain ⟨fork, newHead, first, second, t, hfork, hsw⟩ := hswitched rfl
    have hforkwf : fork.WF := hwf.fork.pushBlock hfork
    obtain ⟨x, y, hx, hy, hbr⟩ := ForkDatabase.fetchBranchFrom_spec hforkwf hsw.fetch
    have hxid := hforkwf.blockId_of_fetch? hx
    have hyid := hforkwf.blockId_of_fetch? hy
    have hforked : Forked (blockId newHead.2) n.state.headId first second := by
      rw [← hxid, ← hyid]
      exact hbr.forked
    obtain ⟨u, v, hu, hv, hsame⟩ := hbr.siblings
    have ht : t.headId = previous v.2 := by
      rw [hsw.headId, hv]
      rfl
    -- the old head is above the fork
    have hbelow : t ∈ n.history := by
      refine (List.mem_cons.mp hsw.mem).resolve_left ?_
      rintro rfl
      have hnum := ForkDatabase.num_of_isChain hbr.second_chain hbr.second_head hv
      have hpos := List.length_pos_iff.mpr hforked.second_ne
      have hhead : blockNum y.2 = (previous v.2).num := by
        rw [← ht, ← hyid]
        rfl
      have hv : blockNum v.2 = (previous v.2).num + 1 := rfl
      omega
    refine ⟨fork, newHead, first, second, t, hfork, hsw.head, hsw.fetch, hforked, hbelow, ?_,
      hsw.replay, ?_⟩
    · rw [hu, Option.map_some, ht, hsame]
    · cases hfirst : first with
      | nil => exact absurd hfirst hforked.first_ne
      | cons z l =>
          have hreplay := hsw.replay
          have hz := hforked.first_head
          rw [hfirst] at hreplay hz
          rw [List.reverse_cons, List.map_append] at hreplay
          rw [ChainState.headId_replay hreplay]
          exact Option.some.inj hz
  · intro i j first second h
    obtain ⟨x, y, hx, hy, hbr⟩ := ForkDatabase.fetchBranchFrom_spec hwf.fork h
    rw [← hwf.fork.blockId_of_fetch? hx, ← hwf.fork.blockId_of_fetch? hy]
    exact hbr.forked

/-! ## A small chain -/

namespace Sample

/-- Two blocks on the genesis block, one valid block on each, an invalid one on each, and a
block on one of the invalid ones. -/
inductive Blk where
  | a1 | a2 | b1 | b2 | badA2 | badB2 | c3
  deriving DecidableEq

/-- The id of the first of the two first blocks. -/
def a1Id : BlockId := ⟨1, 1⟩

/-- The id of the second of the two first blocks. -/
def b1Id : BlockId := ⟨1, 2⟩

/-- The id of the invalid block that has a child. -/
def badA2Id : BlockId := ⟨2, 5⟩

instance : ChainBlock Blk where
  previous
    | .a1 | .b1 => .zero
    | .a2 | .badA2 => a1Id
    | .b2 | .badB2 => b1Id
    | .c3 => badA2Id
  digest
    | .a1 => 1
    | .b1 => 2
    | .a2 => 3
    | .b2 => 4
    | .badA2 => 5
    | .badB2 => 6
    | .c3 => 7
  digest_injective := by
    intro x y h
    cases x <;> cases y <;> first | rfl | cases h

instance : BlockCode Blk Unit where
  body b _ :=
    { undoSize := some 10, forkSize := some 10
      outcome :=
        match b with
        | .badA2 | .badB2 => .error (.assert "invalid")
        | _ => .ok () }

/-- A new node, which has no block yet. -/
def genesis : Node Blk Unit := { state := ⟨.zero, ()⟩ }

theorem genesis_opened : genesis.Opened := ⟨rfl, .inl rfl⟩

/-- What a node comes to that is told these blocks. -/
def told (bs : List Blk) : Node Blk Unit :=
  bs.foldl (fun n b => after (Node.exec (.push b)) n) genesis

theorem told_reachable (bs : List Blk) : (told bs).Reachable := by
  refine ⟨genesis, genesis_opened, ?_⟩
  suffices h : ∀ n : Node Blk Unit, Node.RunIf (fun _ _ => True) genesis n →
      Node.RunIf (fun _ _ => True) genesis
        (bs.foldl (fun n b => after (Node.exec (.push b)) n) n) from h _ .start
  induction bs with
  | nil => exact fun n hn => hn
  | cons b bs ih => exact fun n hn => ih _ (hn.step trivial)

end Sample

/-- The second block of a competing branch makes the node switch; it ends as if it had only
ever seen that branch. -/
theorem switch_replays_sample : ∃ n' t, Node.pushBlock Sample.Blk.b2 (Sample.told [.a1, .b1]) =
      .ok true n' ∧
    t ∈ (Sample.told [.a1, .b1]).history ∧ t.headId = BlockId.zero ∧
    t.replay [Sample.Blk.b1, .b2] = .ok n'.state := by
  obtain ⟨hswitch, -⟩ := switch_replays_branch _ (Sample.told_reachable [.a1, .b1])
  obtain ⟨fork, newHead, first, second, t, hfork, hhead, hfetch, -, ht, hid, hreplay, -⟩ :=
    hswitch .b2 _ rfl
  obtain rfl := Except.ok.inj hfork
  obtain rfl := Option.some.inj hhead
  obtain ⟨rfl, rfl⟩ := Prod.mk.inj (Except.ok.inj hfetch)
  exact ⟨_, t, rfl, ht, (Option.some.inj hid).symm, hreplay⟩

end BtcmChain
