import BtcmChain.Sound.Unwind

set_option autoImplicit false

/-!
# The two heads

The fork database has a head of its own. It moves when a block is pushed, before the block is
applied; it moves back with every block that is popped; and nothing puts it right when a
block fails. The heads stay together only along calls that apply what they push.

`HeadIs` compares the head of the fork database with an id, and `Agrees` says that this is the id
of the head of the chain. `pushBlock_agrees_low`, `pushBlock_agrees_extend` and
`pushBlock_agrees_switch` are the ways in which a push keeps the heads together, and `KeepsHeads`
lists them as a condition on calls. `heads_agree` is the theorem about runs of such calls, and
`heads_disagree` has runs outside of them, after which the two heads differ.
-/

namespace BtcmChain

variable {β ρ : Type} [ChainBlock β] [BlockCode β ρ]

namespace ForkDatabase

variable {f g : ForkDatabase β} {held : List Nat} {id : BlockId} {b : β}

/-- The head item has the id, and it is the one in the index. -/
def HeadIs (f : ForkDatabase β) (id : BlockId) : Prop :=
  ∃ h, f.head? = some h ∧ blockId h.2 = id ∧ f.index.find? id = some h.1

theorem find?_setMaxSize {s : Nat} {h : Nat × β} (hhead : f.head? = some h)
    (hnum : blockNum h.2 ≤ id.num + s) : (f.setMaxSize s).index.find? id = f.index.find? id := by
  unfold setMaxSize
  rw [hhead]
  show (f.index.filterKeys _).find? id = _
  rw [FlatMap.find?_filterKeys, if_pos]
  exact decide_eq_true (by omega)

theorem head?_setMaxSize (s : Nat) : (f.setMaxSize s).head? = f.head? := by
  unfold setMaxSize
  split <;> rfl

/-- The head is never pruned, whatever the maximum size is set to. -/
theorem HeadIs.setMaxSize (h : f.HeadIs id) (s : Option Nat) :
    (s.elim f f.setMaxSize).HeadIs id := by
  cases s with
  | none => exact h
  | some s =>
      obtain ⟨x, hx, hid, hindex⟩ := h
      refine ⟨x, (head?_setMaxSize s).trans hx, hid, ?_⟩
      show (f.setMaxSize s).index.find? id = some x.1
      rw [find?_setMaxSize hx, hindex]
      rw [← hid]
      exact Nat.le_add_right _ _

/-- Pushing a block that is not higher than the head leaves the head as it is. -/
theorem HeadIs.pushBlock_low (h : f.HeadIs id) (hpush : f.pushBlock b = .ok g)
    (hnum : blockNum b ≤ id.num) : g.HeadIs id := by
  obtain ⟨x, hx, rfl, hindex⟩ := h
  have hlow : ¬blockNum x.2 < blockNum b := not_lt.mpr hnum
  have hhead := head?_pushBlock hpush
  simp only [hx, if_neg hlow] at hhead
  refine ⟨x, hhead, rfl, ?_⟩
  obtain ⟨prev, -, pushed, rfl, rfl⟩ := pushBlock_ok.mp hpush
  simp only [hx, if_neg hlow]
  split
  case isTrue => exact hindex
  case isFalse hnew =>
    rw [FlatMap.find?_set, if_neg, hindex]
    intro heq
    rw [heq] at hindex
    rw [hindex] at hnew
    exact hnew rfl

/-- A higher block becomes the head; it is the one in the index if its id was not there. -/
theorem HeadIs.pushBlock_high (h : f.HeadIs id) (hpush : f.pushBlock b = .ok g)
    (hnum : id.num < blockNum b) (hnew : f.index.find? (blockId b) = none) :
    g.HeadIs (blockId b) := by
  obtain ⟨x, hx, rfl, -⟩ := h
  have hhigh : blockNum x.2 < blockNum b := hnum
  have hhead := head?_pushBlock hpush
  simp only [hx, if_pos hhigh] at hhead
  refine ⟨_, hhead, rfl, ?_⟩
  obtain ⟨prev, -, pushed, rfl, rfl⟩ := pushBlock_ok.mp hpush
  simp only [hx, if_pos hhigh, hnew]
  show (FlatMap.filterKeys (f.index.set (blockId b) f.items.length) _).find? _ = _
  rw [FlatMap.find?_filterKeys, if_pos, FlatMap.find?_set_self]
  exact decide_eq_true (Nat.sub_le _ _)

/-- The parent of the head is held by the index alone. -/
theorem HeadIs.popBlock (hf : f.WF) (h : f.HeadIs (blockId b))
    (hpop : f.popBlock [] = .ok g) : g.HeadIs (previous b) := by
  obtain ⟨x, hx, hid, hindex⟩ := h
  obtain rfl : x.2 = b := blockId_injective hid
  obtain ⟨hhead, hdata⟩ := head?_eq_some.mp hx
  obtain ⟨a, p, ha, hp, rfl⟩ := popBlock_ok.mp hpop
  obtain rfl : a = x.1 := Option.some.inj (ha.symm.trans hhead)
  obtain ⟨-, hpdata, halive⟩ := lockPrev_eq_some.mp hp
  have hlink : f.Link x p := hf.link_of_lockPrev hdata hp
  have hne : x.2 ≠ p.2 := by
    intro heq
    have hnum := hlink.blockNum
    rw [heq] at hnum
    omega
  refine ⟨p, head?_eq_some.mpr ⟨rfl, hpdata⟩, hlink.2.2.symm, ?_⟩
  rw [hlink.2.2]
  exact hf.find?_of_alive hpdata hx hne halive

/-! ## Two branches do not meet -/

/-- Two branches of the same length with the same first block have the same last block. -/
theorem same_last {l r : List (Nat × β)} {x y u v : Nat × β} (hl : (x :: l).IsChain f.Link)
    (hr : (y :: r).IsChain f.Link) (hlen : l.length = r.length) (hxy : x.2 = y.2)
    (hu : (x :: l).getLast? = some u) (hv : (y :: r).getLast? = some v) : u.2 = v.2 := by
  induction l generalizing r x y with
  | nil =>
      obtain rfl : r = [] := List.length_eq_zero_iff.mp hlen.symm
      obtain rfl := Option.some.inj hu
      obtain rfl := Option.some.inj hv
      exact hxy
  | cons x' l ih =>
      cases r with
      | nil => cases hlen
      | cons y' r =>
          obtain ⟨hx, hl⟩ := List.isChain_cons_cons.mp hl
          obtain ⟨hy, hr⟩ := List.isChain_cons_cons.mp hr
          have hsame : x'.2 = y'.2 := by
            refine blockId_injective ?_
            rw [← hx.2.2, ← hy.2.2, hxy]
          rw [List.getLast?_cons_cons] at hu hv
          exact ih hl hr (Nat.succ.inj hlen) hsame hu hv

/-- If the old head is on the new branch, the branches end in the same block. -/
theorem Branches.same_last {x y u v w : Nat × β} {first second : List (Nat × β)}
    (h : f.Branches x y first second) (hw : w ∈ first) (hwy : w.2 = y.2)
    (hu : first.getLast? = some u) (hv : second.getLast? = some v) : u.2 = v.2 := by
  obtain ⟨l, r, rfl⟩ := List.append_of_mem hw
  have hchain : (w :: r).IsChain f.Link := (List.isChain_append.mp h.first_chain).2.1
  have hu : (w :: r).getLast? = some u := by
    rwa [List.getLast?_append_of_ne_nil _ (List.cons_ne_nil _ _)] at hu
  have hhead := h.second_head
  cases second with
  | nil => cases hhead
  | cons y' s =>
      obtain rfl := Option.some.inj hhead
      refine ForkDatabase.same_last hchain h.second_chain ?_ hwy hu hv
      have hr := num_of_isChain hchain rfl hu
      have hs := num_of_isChain h.second_chain rfl hv
      obtain ⟨u', v', hu', hv', hsib⟩ := h.siblings
      rw [List.getLast?_append_of_ne_nil _ (List.cons_ne_nil _ _), hu] at hu'
      obtain rfl := Option.some.inj hu'
      obtain rfl := Option.some.inj (hv.symm.trans hv')
      have hnum : blockNum u.2 = blockNum v.2 := congrArg (fun i => i.num + 1) hsib
      rw [hwy] at hr
      simp only [List.length_cons] at hr hs
      omega

/-- Numbers fall by one along a branch, from its head down. -/
theorem num_getElem? {l : List (Nat × β)} {x z : Nat × β} {k : Nat} (h : l.IsChain f.Link)
    (hhead : l.head? = some x) (hz : l[k]? = some z) : blockNum z.2 + k = blockNum x.2 := by
  induction k generalizing l x with
  | zero =>
      rw [← List.head?_eq_getElem?, hhead] at hz
      obtain rfl := Option.some.inj hz
      rfl
  | succ k ih =>
      match l, h, hz with
      | [_], _, hz => simp at hz
      | w :: w' :: l, h, hz =>
          obtain rfl := Option.some.inj hhead
          obtain ⟨hlink, h⟩ := List.isChain_cons_cons.mp h
          have hrest := ih h rfl hz
          have hnum := hlink.blockNum
          omega

/-- Removing other blocks from the index does not change what is filed under this id. -/
theorem find?_foldl_remove {l : List (Nat × β)} (f : ForkDatabase β)
    (h : ∀ x ∈ l, blockId x.2 ≠ id) :
    (l.foldl (fun f x => f.remove (blockId x.2)) f).index.find? id = f.index.find? id := by
  induction l generalizing f with
  | nil => rfl
  | cons x l ih =>
      rw [List.foldl_cons, ih _ fun y hy => h y (List.mem_cons_of_mem _ hy)]
      show (f.index.erase (blockId x.2)).find? id = _
      rw [FlatMap.find?_erase, if_neg]
      exact fun heq => h x List.mem_cons_self heq.symm

theorem items_foldl_remove (l : List (Nat × β)) (f : ForkDatabase β) :
    (l.foldl (fun f x => f.remove (blockId x.2)) f).items = f.items := by
  induction l generalizing f with
  | nil => rfl
  | cons x l ih => exact ih _

/-- When the way back begins, the old head is the head again. -/
theorem headIs_turned {rest second : List (Nat × β)} {y : Nat × β} (hhead : second.head? = some y)
    (hdata : f.data? y.1 = some y.2) (hindex : f.index.find? (blockId y.2) = some y.1)
    (hrest : ∀ x ∈ rest, blockId x.2 ≠ blockId y.2) :
    (f.turned rest second).HeadIs (blockId y.2) := by
  unfold turned
  rw [hhead, Option.elim_some]
  refine ⟨y, head?_eq_some.mpr ⟨rfl, ?_⟩, rfl, ?_⟩
  · show (rest.foldl (fun f x => f.remove (blockId x.2)) f).items[y.1]?.map ForkItem.data = _
    rw [items_foldl_remove]
    exact hdata
  · show (rest.foldl (fun f x => f.remove (blockId x.2)) f).index.find? _ = _
    rw [find?_foldl_remove f hrest, hindex]

end ForkDatabase

namespace Node

variable {n : Node β ρ} {b : β} {items : List (ForkItem β)}

/-- The fork database and the chain agree on the head. -/
def Agrees (n : Node β ρ) : Prop := n.fork.HeadIs n.state.headId

/-! ## A switch that fails at its first block -/

/-- A push of `b` switches and fails at the first block of the new branch: the fork point can
be reached, and the block that fails does not make the old head too old. -/
def FailsAtOnce (n : Node β ρ) (b : β) : Prop :=
  ∃ fork newHead first second t x, n.fork.pushBlock b = .ok fork ∧
    fork.head? = some newHead ∧ previous newHead.2 ≠ n.state.headId ∧
    fork.fetchBranchFrom (blockId newHead.2) n.state.headId = .ok (first, second) ∧
    (∃ f, fork.popBlock ((first ++ second).map Prod.fst) = .ok f) ∧
    n.history[second.length - 1]? = some t ∧ first.getLast? = some x ∧
    (∃ e, (t.apply x.2).outcome = .error e) ∧
    ∀ s, (t.apply x.2).forkSize = some s → blockNum newHead.2 ≤ n.headNum + second.length + s

/-- Replaying the old branch leaves the head of the fork database. -/
theorem forM_applyInSession_head {id : BlockId} (l : List (Nat × β)) {s : ChainState ρ}
    (hhead : n.fork.HeadIs id) (hl : n.state.replay (l.map Prod.snd) = .ok s) :
    Post (l.forM fun x => applyInSession x.2) n
      (fun _ n' => n'.fork.HeadIs id ∧ n'.state = s) fun _ _ => False := by
  have hloop := post_forM (Q := fun _ _ => False)
    (P := fun l (m : Node β ρ) => m.fork.HeadIs id ∧ m.state.replay (l.map Prod.snd) = .ok s)
    (f := fun x => applyInSession x.2) (fun x l m hm => ?_) l ⟨hhead, hl⟩
  · exact hloop.mono (fun _ m hm => ⟨hm.1, Except.ok.inj hm.2⟩) fun _ _ h => h
  · obtain ⟨hid, hreplay⟩ := hm
    unfold ChainState.replay at hreplay
    rw [List.map_cons, List.foldlM_cons, except_bind_ok] at hreplay
    obtain ⟨t, ht, hreplay⟩ := hreplay
    refine (applyInSession_spec x.2 m).mono (fun _ m' hm' => ?_) fun e m' hm' => ?_
    · obtain ⟨t', ht', rfl⟩ := hm'
      obtain rfl : t = t' := Except.ok.inj (ht.symm.trans ht')
      exact ⟨hid.setMaxSize _, hreplay⟩
    · rw [ht] at hm'
      cases hm'.1

/-- The way back from the fork point itself: the old branch is applied again, and both heads are on
its last block. -/
theorem switchBack_head {rest second : List (Nat × β)} {home : ChainState ρ} {held : List Nat}
    (hhead : (n.fork.turned rest second).HeadIs home.headId)
    (hhome : n.state.replay (second.reverse.map Prod.snd) = .ok home) :
    Post (switchBack n.state.headId held rest second) n (fun _ => Agrees) fun _ _ => False := by
  simp only [switchBack, post_bind, post_modifyThe]
  show Post (popTo n.state.headId held) { n with fork := n.fork.turned rest second } _ _
  have hstay : popTo n.state.headId held { n with fork := n.fork.turned rest second } =
      .ok () { n with fork := n.fork.turned rest second } := by
    show popUntil _ _ (n.history.length + 1) _ = _
    rw [popUntil_succ, if_neg (not_not.mpr rfl)]
  unfold Post
  rw [hstay]
  refine (forM_applyInSession_head (n := { n with fork := n.fork.turned rest second })
    second.reverse hhead hhome).mono (fun _ m hm => ?_)
    fun _ _ hfalse => hfalse
  show m.fork.HeadIs m.state.headId
  rw [hm.2]
  exact hm.1

theorem switchFork_head {first second : List (Nat × β)} {x y w : Nat × β} {f : ForkDatabase β}
    {t : ChainState ρ} {e : Exn} (hn : Keeps items n) (hbr : n.fork.Branches x y first second)
    (hhead : n.fork.head?.map Prod.snd = some x.2)
    (hfetch : n.fork.fetch? n.state.headId = some y)
    (hknown : Known items (first ++ second)) (hlong : n.headNum < blockNum x.2)
    (hf : n.fork.popBlock ((first ++ second).map Prod.fst) = .ok f)
    (ht : n.history[second.length - 1]? = some t) (hw : first.getLast? = some w)
    (he : (t.apply w.2).outcome = .error e)
    (hsize : ∀ s, (t.apply w.2).forkSize = some s →
      blockNum x.2 ≤ n.headNum + second.length + s) :
    Post (switchFork first second) n (fun _ _ => False) fun _ => Agrees := by
  have hy : blockId y.2 = n.state.headId := hn.1.fork.blockId_of_fetch? hfetch
  obtain ⟨hyindex, hydata⟩ := ForkDatabase.fetch?_eq_some.mp hfetch
  have hpos := List.length_pos_iff.mpr hbr.forked.second_ne
  have hhist : second.length ≤ n.history.length := by
    have hlt := (List.getElem?_eq_some_iff.mp ht).1
    omega
  obtain ⟨t', z, ht', hz, hlast, hreplay, hmany, hdown⟩ :=
    popTo_fork hn hbr hhead hy hknown hlong hhist hf
  obtain rfl : t = t' := Option.some.inj (ht.symm.trans ht')
  obtain ⟨v, hv, hvid⟩ := Option.map_eq_some_iff.mp hlast
  -- the first block of the old branch is not the one that fails
  have hwv : w.2 ≠ v.2 := by
    intro heq
    have hsecond : second.reverse = v :: (second.reverse).tail := by
      have hrev : second.reverse.head? = some v := by rw [List.head?_reverse, hv]
      exact (List.cons_head?_tail hrev).symm
    unfold ChainState.replay at hreplay
    rw [hsecond, List.map_cons, List.foldlM_cons, except_bind_ok] at hreplay
    obtain ⟨s, hs, -⟩ := hreplay
    rw [← heq, he] at hs
    cases hs
  have hother : ∀ u ∈ first.reverse, blockId u.2 ≠ n.state.headId := by
    intro u hu heq
    exact hwv (hbr.same_last (List.mem_reverse.mp hu) (blockId_injective (heq.trans hy.symm)) hw hv)
  have hrev : first.reverse = w :: first.reverse.tail := by
    have hrev : first.reverse.head? = some w := by rw [List.head?_reverse, hw]
    exact (List.cons_head?_tail hrev).symm
  unfold switchFork
  rw [post_bind, hv, Option.elim_some, hvid]
  unfold Post
  rw [hdown, hrev]
  show Post (applyBranch _ _ _ (w :: first.reverse.tail)) _ _ _
  unfold applyBranch
  rw [post_bind, post_tryCatch]
  have hpopped := (post_iff.mp
    (popTo_post t.headId ((first ++ second).map Prod.fst) hn)).1 _ _ hdown
  refine ((applyInSession_spec w.2 _).and (applyInSession_post hpopped.1)).mono
    (fun _ m hm => ?_) fun e' m hm => ?_
  · obtain ⟨⟨s, hs, -⟩, -⟩ := hm
    cases he.symm.trans hs
  · obtain ⟨⟨-, rfl⟩, hkeeps, -⟩ := hm
    rw [post_bind]
    refine (switchBack_head ?_ hreplay).mono (fun _ m hm => hm)
      fun _ _ hfalse => hfalse.elim
    rw [← hrev]
    rw [← hy] at hother ⊢
    refine ForkDatabase.headIs_turned hbr.second_head ?_ ?_ hother
    · show (ForkDatabase.items _)[y.1]?.map ForkItem.data = some y.2
      rw [hkeeps.2]
      exact hknown y (List.mem_append_right _ (List.mem_of_mem_head? hbr.second_head))
    · -- the old head is still in the index
      have hzdata : (n.fork.setHead z.1).head? = some z := by
        refine ForkDatabase.head?_eq_some.mpr ⟨rfl, ?_⟩
        show n.fork.items[z.1]?.map ForkItem.data = some z.2
        rw [hn.2]
        exact hknown z (List.mem_append_left _ (List.mem_of_getElem? hz))
      have hznum := ForkDatabase.num_getElem? hbr.first_chain hbr.first_head hz
      show (Option.elim (t.apply w.2).forkSize (n.fork.setHead z.1)
        (n.fork.setHead z.1).setMaxSize).index.find? (blockId y.2) = some y.1
      rw [hy]
      cases hs : (t.apply w.2).forkSize with
      | none => exact hyindex
      | some s =>
          have hroom := hsize s hs
          rw [Option.elim_some, ForkDatabase.find?_setMaxSize hzdata]
          · exact hyindex
          · show blockNum z.2 ≤ n.headNum + s
            omega

/-! ## Runs -/

/-- The calls that keep the heads together. A push does if the fork database refuses the
block; if the block is not higher than the head; if it extends the head, is new, and can be
applied; or if it switches and fails at once. A pop does if the fork database refuses it or
there is something to undo. -/
def KeepsHeads (n : Node β ρ) : Call β → Prop
  | .push b =>
      (∃ e, n.fork.pushBlock b = .error e) ∨ blockNum b ≤ n.headNum ∨
      (previous b = n.state.headId ∧ n.fork.index.find? (blockId b) = none ∧
        ∃ s, (n.state.apply b).outcome = .ok s) ∨
      n.FailsAtOnce b
  | .pop => (∃ e, n.fork.popBlock [] = .error e) ∨ n.history ≠ []

/-- A block at the height of the head or below only goes into the index. -/
theorem pushBlock_agrees_low (ha : n.Agrees) (hnum : blockNum b ≤ n.headNum) :
    Post (pushBlock b) n (fun _ => Agrees) fun _ => Agrees := by
  simp only [pushBlock, post_bind, post_get, post_liftExcept, post_set]
  refine ⟨fun fork hpush => ?_, fun _ _ => ha⟩
  have hfork : fork.HeadIs n.state.headId := ha.pushBlock_low hpush hnum
  obtain ⟨h, hhead, hid, -⟩ := hfork
  have hprev : previous h.2 ≠ n.state.headId := by
    rw [← hid]
    exact previous_ne_blockId h.2
  have hlow : ¬n.headNum < blockNum h.2 := by
    have hsame : blockNum h.2 = n.headNum := congrArg BlockId.num hid
    omega
  rw [hhead]
  simp only [if_pos hprev, if_neg hlow, post_pure]
  exact ha.pushBlock_low hpush hnum

/-- A new block on the head that can be applied becomes the head of both. -/
theorem pushBlock_agrees_extend {s : ChainState ρ} (ha : n.Agrees)
    (hprev : previous b = n.state.headId) (hnew : n.fork.index.find? (blockId b) = none)
    (hs : (n.state.apply b).outcome = .ok s) :
    Post (pushBlock b) n (fun _ => Agrees) fun _ => Agrees := by
  simp only [pushBlock, post_bind, post_get, post_liftExcept, post_set]
  refine ⟨fun fork hpush => ?_, fun _ _ => ha⟩
  have hnum : n.state.headId.num < blockNum b := by
    rw [← hprev]
    exact Nat.lt_succ_self _
  have hfork : fork.HeadIs (blockId b) := ha.pushBlock_high hpush hnum hnew
  obtain ⟨h, hhead, hid, -⟩ := hfork
  obtain rfl : h.2 = b := blockId_injective hid
  rw [hhead]
  simp only [if_neg (not_not.mpr hprev), post_bind, post_tryCatch]
  refine (applyInSession_spec h.2 _).mono (fun _ m hm => ?_) fun e m hm => ?_
  · obtain ⟨t, ht, rfl⟩ := hm
    show ForkDatabase.HeadIs _ t.headId
    rw [(ChainState.apply_ok ht).2]
    exact (ha.pushBlock_high hpush hnum hnew).setMaxSize _
  · cases hs.symm.trans hm.1

/-- A switch that fails at once goes back to the old head. -/
theorem pushBlock_agrees_switch (hwf : n.WF) (ha : n.Agrees) (hfail : n.FailsAtOnce b)
    (hnum : n.headNum < blockNum b) :
    Post (pushBlock b) n (fun _ => Agrees) fun _ => Agrees := by
  obtain ⟨fork, newHead, first, second, t, x, hpush, hhead, hprev, hfetch, ⟨f, hf⟩, ht, hx,
    ⟨e, he⟩, hsize⟩ := hfail
  have hfork : fork.WF := hwf.fork.pushBlock hpush
  have hn : Keeps fork.items { n with fork := fork } := ⟨⟨hfork, hwf.chain⟩, rfl⟩
  obtain ⟨u, y, hbr, hsame, huhead, hy, -, hknown⟩ := branches_of_fetch hfork hhead hfetch
  have hhigh : n.headNum < blockNum newHead.2 := by
    obtain ⟨h, hh, hid, -⟩ := ha
    have hnew := ForkDatabase.head?_pushBlock hpush
    have hlt : blockNum h.2 < blockNum b := by
      have hsame : blockNum h.2 = n.headNum := congrArg BlockId.num hid
      omega
    simp only [hh, if_pos hlt, hhead] at hnew
    obtain rfl := Option.some.inj hnew
    exact hnum
  simp only [pushBlock, post_bind, post_get, post_liftExcept, post_set]
  refine ⟨fun fork' hpush' => ?_, fun _ _ => ha⟩
  obtain rfl : fork = fork' := Except.ok.inj (hpush.symm.trans hpush')
  rw [hhead]
  simp only [if_pos hprev, if_pos hhigh, post_bind, post_liftExcept]
  refine ⟨fun branches hb => ?_, fun e' he' => ?_⟩
  · obtain rfl := Except.ok.inj (hfetch.symm.trans hb)
    exact (switchFork_head hn hbr huhead hy hknown (hsame ▸ hhigh) hf ht hx he
      (hsame ▸ hsize)).mono (fun _ _ hfalse => hfalse.elim) fun _ _ h => h
  · cases hfetch.symm.trans he'

/-- A pop moves both heads to the parent of the head block. -/
theorem popBlock_agrees (hwf : n.WF) (ha : n.Agrees) (hc : n.KeepsHeads .pop) :
    Post (popBlock []) n (fun _ => Agrees) fun _ => Agrees := by
  simp only [popBlock, post_bind, post_get, post_liftExcept, post_set]
  refine ⟨fun _ _ => ⟨fun fork hpop => ?_, fun _ _ => ha⟩, fun _ _ => ha⟩
  rcases hc with ⟨e, he⟩ | hhist
  · cases he.symm.trans hpop
  · cases hh : n.history with
    | nil => exact absurd hh hhist
    | cons t rest =>
        have hchain := hwf.chain
        rw [hh] at hchain
        cases hchain with
        | cons b happly _ _ =>
            obtain ⟨hprev, hid⟩ := ChainState.apply_ok happly
            have hheads : n.fork.HeadIs (blockId b) := hid ▸ ha
            show fork.HeadIs t.headId
            rw [hprev]
            exact hheads.popBlock hwf.fork hpop

/-- One call that keeps the heads leaves them in agreement, whether it returns or throws. -/
theorem exec_agrees {c : Call β} (hwf : n.WF) (ha : n.Agrees) (hc : n.KeepsHeads c) :
    (after (exec c) n).Agrees := by
  refine post_after.mp ?_
  cases c with
  | push b =>
      show Post (pushBlock b >>= fun _ => pure ()) n _ _
      rw [post_bind]
      show Post (pushBlock b) n (fun _ => Agrees) fun _ => Agrees
      by_cases hnum : blockNum b ≤ n.headNum
      · exact pushBlock_agrees_low ha hnum
      · rcases hc with ⟨e, he⟩ | hlow | ⟨hprev, hnew, s, hs⟩ | hfail
        · simp only [pushBlock, post_bind, post_get, post_liftExcept]
          exact ⟨fun fork hpush => (by cases he.symm.trans hpush), fun _ _ => ha⟩
        · exact absurd hlow hnum
        · exact pushBlock_agrees_extend ha hprev hnew hs
        · exact pushBlock_agrees_switch hwf ha hfail (not_le.mp hnum)
  | pop => exact popBlock_agrees hwf ha hc

end Node

/-- In every run of calls that keep the heads together, from a reachable node where the fork
database and the chain agree on the head, they agree after every call. -/
theorem heads_agree (start : Node β ρ) (hstart : start.Reachable) (hagree : start.Agrees)
    (n : Node β ρ) (hrun : Node.RunIf Node.KeepsHeads start n) : n.Agrees := by
  have hwf : start.WF := hstart.wf
  induction hrun with
  | start => exact hagree
  | @step n c hrun hc ih => exact Node.exec_agrees (hrun.wf hwf) ih hc

/-- The node stays on `a2` when a competing branch fails at its first block. -/
theorem heads_agree_sample : (Sample.told [.a1, .a2, .badA2, .c3]).Agrees := by
  refine heads_agree (Sample.told [.a1]) (Sample.told_reachable _) ⟨_, rfl, rfl, rfl⟩ _ ?_
  have hextend : Node.KeepsHeads (Sample.told [.a1]) (.push .a2) :=
    .inr (.inr (.inl ⟨rfl, rfl, _, rfl⟩))
  have hlow : Node.KeepsHeads (Sample.told [.a1, .a2]) (.push .badA2) :=
    .inr (.inl (Nat.le_of_ble_eq_true rfl))
  have hfail : Node.KeepsHeads (Sample.told [.a1, .a2, .badA2]) (.push .c3) := by
    refine .inr (.inr (.inr ⟨_, _, _, _, _, _, rfl, rfl, by decide, rfl, ⟨_, rfl⟩, rfl, rfl,
      ⟨_, rfl⟩, fun s hs => ?_⟩))
    obtain rfl := Option.some.inj hs
    exact Nat.le_of_ble_eq_true rfl
  exact .step (.step (.step .start hextend) hlow) hfail

/-- The heads agree on `a1`, and do not after an invalid block on `a1`. They agree on `a1` with
a sibling `b1` known, and do not after a block on `b1`, whether it is valid and the node
switches, or invalid and the node tries to go back. -/
theorem heads_disagree :
    (Sample.told [.a1]).Agrees ∧ ¬(Sample.told [.a1, .badA2]).Agrees ∧
    (Sample.told [.a1, .b1]).Agrees ∧ ¬(Sample.told [.a1, .b1, .b2]).Agrees ∧
    ¬(Sample.told [.a1, .b1, .badB2]).Agrees := by
  refine ⟨⟨_, rfl, rfl, rfl⟩, ?_, ⟨_, rfl, rfl, rfl⟩, ?_, ?_⟩
  · rintro ⟨h, hhead, hid, -⟩
    obtain rfl := Option.some.inj hhead
    exact absurd hid (by decide)
  · rintro ⟨h, hhead, hid, -⟩
    obtain rfl := Option.some.inj hhead
    exact absurd hid (by decide)
  · rintro ⟨h, hhead, hid, -⟩
    obtain rfl := Option.some.inj hhead
    exact absurd hid (by decide)

end BtcmChain
