import BtcmChain.Sound.ForkHead

set_option autoImplicit false

/-!
# When a longer fork is adopted

A push looks at the head of the fork database, not at the block it was called with. So a
valid block on a longer branch is adopted only if nothing that was pushed before and refused
is in the way there.

`Follows` and `ValidBranch` describe the branch: blocks linked by their parents, which can be
applied in order to whatever state the node can still return to. `Adopts` is what a push needs in
order to make the block the head. `longer_fork_adopted` is an equivalence for every reachable node,
and `longer_fork_refused` has a run after which a valid block on a longer branch is refused,
because a block that was refused before is still the head of the fork database.
-/

namespace BtcmChain

variable {β ρ : Type} [ChainBlock β] [BlockCode β ρ]

/-- The blocks follow one another, the first one on the block `id`. -/
def Follows (id : BlockId) : List β → Prop
  | [] => True
  | b :: bs => previous b = id ∧ Follows (blockId b) bs

theorem follows_append {id : BlockId} {l r : List β} :
    Follows id (l ++ r) ↔ Follows id l ∧ Follows (l.getLast?.elim id blockId) r := by
  induction l generalizing id with
  | nil => exact ⟨fun h => ⟨trivial, h⟩, fun h => h.2⟩
  | cons b l ih =>
      show previous b = id ∧ Follows (blockId b) (l ++ r) ↔
        (previous b = id ∧ Follows (blockId b) l) ∧ _
      rw [ih, and_assoc]
      cases l with
      | nil => rfl
      | cons c l =>
          rw [List.getLast?_cons_cons]
          cases hlast : (c :: l).getLast? with
          | none => cases List.getLast?_eq_none_iff.mp hlast
          | some d => rfl

/-- A branch of the fork database, from its oldest block on. -/
theorem ForkDatabase.follows_reverse {f : ForkDatabase β} {l : List (Nat × β)} {id : BlockId}
    (h : l.IsChain f.Link) (hlast : l.getLast?.map (fun x => previous x.2) = some id) :
    Follows id (l.reverse.map Prod.snd) := by
  induction l with
  | nil => cases hlast
  | cons x l ih =>
      rw [List.reverse_cons, List.map_append, follows_append]
      cases l with
      | nil => exact ⟨trivial, Option.some.inj hlast, trivial⟩
      | cons y l =>
          obtain ⟨hlink, h⟩ := List.isChain_cons_cons.mp h
          rw [List.getLast?_cons_cons] at hlast
          refine ⟨ih h hlast, ?_, trivial⟩
          rw [List.reverse_cons, List.map_append, List.map_singleton, List.getLast?_concat]
          exact hlink.2.2

/-- The head after a push is the block, or the head from before. -/
theorem ForkDatabase.head?_after_push {f g : ForkDatabase β} {b : β} (h : f.pushBlock b = .ok g) :
    ∃ x, g.head? = some x ∧
      ((x.2 = b ∧ ∀ y, f.head? = some y → blockNum y.2 < blockNum b) ∨
        (f.head? = some x ∧ blockNum b ≤ blockNum x.2)) := by
  have hhead := head?_pushBlock h
  cases hf : f.head? with
  | none =>
      simp only [hf] at hhead
      exact ⟨_, hhead, .inl ⟨rfl, fun y hy => (by cases hy)⟩⟩
  | some y =>
      simp only [hf] at hhead
      split at hhead
      case isTrue hlt =>
        refine ⟨_, hhead, .inl ⟨rfl, fun z hz => ?_⟩⟩
        obtain rfl := Option.some.inj hz
        exact hlt
      case isFalse hlt => exact ⟨_, hhead, .inr ⟨rfl, not_lt.mp hlt⟩⟩

/-- A block whose parent is known is refused only for its age. -/
theorem ForkDatabase.pushBlock_accepts {f : ForkDatabase β} {b : β}
    (hparent : (f.index.find? (previous b)).isSome) :
    (∃ g, f.pushBlock b = .ok g) ↔
      ∀ h, f.head? = some h → blockNum h.2 < blockNum b + f.maxSize := by
  have hpos : 0 < blockNum b := Nat.succ_pos _
  constructor
  · rintro ⟨g, hg⟩ h hhead
    obtain ⟨prev, hlink, -⟩ := pushBlock_ok.mp hg
    rcases link_ok.mp hlink with ⟨hnone, -⟩ | ⟨h', hhead', hnum, -⟩
    · cases hnone.symm.trans hhead
    · obtain rfl := Option.some.inj (hhead.symm.trans hhead')
      omega
  · intro hold
    obtain ⟨a, ha⟩ := Option.isSome_iff_exists.mp hparent
    have hlink : ∃ prev, f.link b = .ok prev := by
      cases hhead : f.head? with
      | none => exact ⟨none, link_ok.mpr (.inl ⟨hhead, rfl⟩)⟩
      | some h =>
          have hnum : blockNum h.2 - f.maxSize < blockNum b := by
            have hlt := hold h hhead
            omega
          by_cases hzero : previous b = BlockId.zero
          · exact ⟨none, link_ok.mpr (.inr ⟨h, hhead, hnum, by rw [if_pos hzero]⟩)⟩
          · exact ⟨some a, link_ok.mpr (.inr ⟨h, hhead, hnum, by
              rw [if_neg hzero]
              exact ⟨a, ha, rfl⟩⟩)⟩
    obtain ⟨prev, hprev⟩ := hlink
    exact ⟨_, pushBlock_ok.mpr ⟨prev, hprev, _, rfl, rfl⟩⟩

namespace Node

variable {n : Node β ρ} {b : β} {target : BlockId} {held : List Nat} {items : List (ForkItem β)}

/-- The branch that ends in `b` is valid: on whichever state of the chain it stands that the
node can still return to, it can be applied in order. -/
def ValidBranch (n : Node β ρ) (b : β) : Prop :=
  ∀ t ∈ n.state :: n.history, ∀ bs : List β, Follows t.headId (bs ++ [b]) →
    ∃ s, t.replay (bs ++ [b]) = .ok s

/-- What it takes for a push of `b` to make `b` the head. The fork database does not find `b`
too old. If `b` extends the head, the head of the fork database is below `b` or extends the
head too. Else the head of the fork database is below `b` or is `b`; with `b` put in, both
branches are found and the head can be popped; and the undo history reaches down to the
fork. -/
def Adopts (n : Node β ρ) (b : β) : Prop :=
  (∀ h, n.fork.head? = some h → blockNum h.2 < blockNum b + n.fork.maxSize) ∧
  if previous b = n.state.headId then
    ∀ h, n.fork.head? = some h → blockNum h.2 < blockNum b ∨ previous h.2 = n.state.headId
  else
    (∀ h, n.fork.head? = some h → blockNum h.2 < blockNum b ∨ h.2 = b) ∧
    ∃ fork first second, n.fork.pushBlock b = .ok fork ∧
      fork.fetchBranchFrom (blockId b) n.state.headId = .ok (first, second) ∧
      (∃ f, fork.popBlock ((first ++ second).map Prod.fst) = .ok f) ∧
      second.length ≤ n.history.length

/-- A branch whose replay succeeds is applied to its end. -/
theorem applyBranch_ok {second : List (Nat × β)} (l : List (Nat × β)) {s : ChainState ρ}
    (hl : n.state.replay (l.map Prod.snd) = .ok s) :
    Post (applyBranch target held second l) n (fun _ n' => n'.state = s) fun _ _ => False := by
  induction l generalizing n with
  | nil => exact Except.ok.inj hl
  | cons x l ih =>
      unfold ChainState.replay at hl
      rw [List.map_cons, List.foldlM_cons, except_bind_ok] at hl
      obtain ⟨t, ht, hl⟩ := hl
      unfold applyBranch
      rw [post_bind, post_tryCatch]
      refine (applyInSession_spec x.2 n).mono (fun _ m hm => ?_) fun e m hm => ?_
      · obtain ⟨t', ht', rfl⟩ := hm
        obtain rfl : t = t' := Except.ok.inj (ht.symm.trans ht')
        exact ih hl
      · cases ht.symm.trans hm.1

/-- What a switch that returns has found: the head is the block it was to switch to, the fork database
could step back, and there were undo records enough to pop down to the common block. -/
theorem switchFork_found {first second : List (Nat × β)} {x y : Nat × β}
    (hn : Keeps items n) (hbr : n.fork.Branches x y first second)
    (hy : blockId y.2 = n.state.headId) (hknown : Known items (first ++ second)) :
    Post (switchFork first second) n
      (fun _ n' => n'.state.headId = blockId x.2 ∧
        (∃ f, n.fork.popBlock ((first ++ second).map Prod.fst) = .ok f) ∧
        second.length ≤ n.history.length) fun _ _ => True := by
  by_cases hpop : n.history ≠ [] ∧ ∃ f, n.fork.popBlock ((first ++ second).map Prod.fst) = .ok f
  · refine (switchFork_post hn fun w hw => hknown w (List.mem_append_right _ hw)).mono
      (fun _ n' hn' => ?_) fun _ _ _ => trivial
    obtain ⟨-, t, ht, hid, hreplay⟩ := hn'
    refine ⟨?_, hpop.2, ?_⟩
    · have hfirst := hbr.first_head
      cases first with
      | nil => cases hfirst
      | cons z l =>
          obtain rfl := Option.some.inj hfirst
          rw [List.reverse_cons, List.map_append] at hreplay
          exact ChainState.headId_replay hreplay
    · -- the state at the fork is as far down as the old branch is long
      obtain ⟨u, v, -, hv, -⟩ := hbr.siblings
      obtain ⟨k, hk⟩ := List.mem_iff_getElem?.mp ht
      have hlt := (List.getElem?_eq_some_iff.mp hk).1
      have hdown := hn.1.num_le hk
      have hnum := ForkDatabase.num_of_isChain hbr.second_chain hbr.second_head hv
      have hyhead : blockNum y.2 = n.state.headId.num := congrArg BlockId.num hy
      have hvnum : blockNum v.2 = (previous v.2).num + 1 := rfl
      rw [hv, Option.elim_some] at hid
      rw [hid] at hdown
      rw [List.length_cons] at hlt
      omega
  · exact (switchFork_refused hbr hy hpop).mono (fun _ _ hfalse => hfalse.elim)
      fun _ _ _ => trivial

/-- A switch to a valid branch that can be popped down to. -/
theorem switchFork_adopts {first second : List (Nat × β)} {x y : Nat × β} {f : ForkDatabase β}
    (hn : Keeps items n) (hbr : n.fork.Branches x y first second)
    (hhead : n.fork.head?.map Prod.snd = some x.2) (hy : blockId y.2 = n.state.headId)
    (hknown : Known items (first ++ second)) (hlong : n.headNum < blockNum x.2)
    (hhist : second.length ≤ n.history.length)
    (hf : n.fork.popBlock ((first ++ second).map Prod.fst) = .ok f)
    (hvalid : n.ValidBranch x.2) :
    Post (switchFork first second) n (fun _ n' => n'.state.headId = blockId x.2)
      fun _ _ => False := by
  obtain ⟨t, z, ht, -, hlast, -, -, hdown⟩ := popTo_fork hn hbr hhead hy hknown hlong hhist hf
  obtain ⟨v, hv, hvid⟩ := Option.map_eq_some_iff.mp hlast
  have hfollows : Follows t.headId (first.reverse.map Prod.snd) := by
    refine ForkDatabase.follows_reverse hbr.first_chain ?_
    rw [hbr.forked.same_parent, hlast]
  have hfirst : ∃ l, first.reverse.map Prod.snd = l ++ [x.2] := by
    have hx := hbr.first_head
    cases first with
    | nil => cases hx
    | cons z l =>
        obtain rfl := Option.some.inj hx
        exact ⟨l.reverse.map Prod.snd, by rw [List.reverse_cons, List.map_append]; rfl⟩
  obtain ⟨l, hl⟩ := hfirst
  obtain ⟨s, hs⟩ := hvalid t (List.mem_cons_of_mem _ (List.mem_of_getElem? ht)) l (hl ▸ hfollows)
  unfold switchFork
  rw [post_bind, hv, Option.elim_some, hvid]
  unfold Post
  rw [hdown]
  refine (applyBranch_ok first.reverse (s := s) ?_).mono (fun _ m hm => ?_) fun _ _ h => h
  · rw [hl]
    exact hs
  · rw [hm]
    exact ChainState.headId_replay hs

/-- A push that returns with `b` as the head is one that adopts `b`: the fork database took it, and
its branch was valid. -/
theorem adopts_of_pushBlock (h : n.WF) (hparent : (n.fork.index.find? (previous b)).isSome)
    (hnum : n.headNum < blockNum b) :
    Post (pushBlock b) n (fun _ n' => n'.state.headId = blockId b → n.Adopts b)
      fun _ _ => True := by
  simp only [pushBlock, post_bind, post_get, post_liftExcept, post_set]
  refine ⟨fun fork hpush => ?_, fun _ _ => trivial⟩
  have hold := (ForkDatabase.pushBlock_accepts hparent).mp ⟨fork, hpush⟩
  have hfork : fork.WF := h.fork.pushBlock hpush
  have hn : Keeps fork.items { n with fork := fork } := ⟨⟨hfork, h.chain⟩, rfl⟩
  obtain ⟨newHead, hhead, hnew⟩ := ForkDatabase.head?_after_push hpush
  rw [hhead]
  simp only
  split
  case isTrue hprev =>
    split
    case isTrue hhigh =>
      rw [post_bind, post_liftExcept]
      refine ⟨fun branches hb => ?_, fun _ _ => trivial⟩
      obtain ⟨first, second⟩ := branches
      obtain ⟨x, y, hbr, hsame, hxhead, -, hy, hknown⟩ := branches_of_fetch hfork hhead hb
      rw [post_bind]
      refine (switchFork_found hn hbr hy hknown).mono (fun _ n' hn' hid => ?_)
        fun _ _ _ => trivial
      obtain ⟨hxid, hpop, hlen⟩ := hn'
      obtain rfl : newHead.2 = b := blockId_injective (by rw [← hsame, ← hxid, hid])
      refine ⟨hold, ?_⟩
      rw [if_neg hprev]
      refine ⟨fun k hk => ?_, fork, first, second, hpush, hb, hpop, hlen⟩
      rcases hnew with ⟨-, hlt⟩ | ⟨hsome, -⟩
      · exact .inl (hlt k hk)
      · obtain rfl := Option.some.inj (hk.symm.trans hsome)
        exact .inr rfl
    case isFalse =>
      intro hid
      have hsame : n.headNum = blockNum b := congrArg BlockId.num hid
      omega
  case isFalse hprev =>
    rw [post_bind, post_tryCatch]
    refine (applyInSession_spec b _).mono (fun _ n' hn' _ => ?_) fun _ _ _ => trivial
    obtain ⟨s, hs, -⟩ := hn'
    obtain ⟨hb, -⟩ := ChainState.apply_ok hs
    refine ⟨hold, ?_⟩
    rw [if_pos hb.symm]
    intro k hk
    rcases hnew with ⟨-, hlt⟩ | ⟨hsome, -⟩
    · exact .inl (hlt k hk)
    · obtain rfl := Option.some.inj (hk.symm.trans hsome)
      exact .inr (not_not.mp hprev)

/-- A push of a block that is adopted and whose branch is valid returns, and makes the block the
head. -/
theorem pushBlock_adopts (h : n.WF) (hparent : (n.fork.index.find? (previous b)).isSome)
    (hnum : n.headNum < blockNum b) (hvalid : n.ValidBranch b) (hadopts : n.Adopts b) :
    Post (pushBlock b) n (fun _ n' => n'.state.headId = blockId b) fun _ _ => False := by
  obtain ⟨hold, hadopts⟩ := hadopts
  obtain ⟨fork, hpush⟩ := (ForkDatabase.pushBlock_accepts hparent).mpr hold
  have hfork : fork.WF := h.fork.pushBlock hpush
  have hn : Keeps fork.items { n with fork := fork } := ⟨⟨hfork, h.chain⟩, rfl⟩
  obtain ⟨newHead, hhead, hnew⟩ := ForkDatabase.head?_after_push hpush
  simp only [pushBlock, post_bind, post_get, post_liftExcept, post_set]
  refine ⟨fun fork' hpush' => ?_, fun e he => (by cases hpush.symm.trans he)⟩
  obtain rfl : fork = fork' := Except.ok.inj (hpush.symm.trans hpush')
  rw [hhead]
  simp only
  split at hadopts
  case isTrue hprev =>
    have hsame : previous newHead.2 = n.state.headId := by
      rcases hnew with ⟨hb, -⟩ | ⟨hsome, hle⟩
      · rw [hb, hprev]
      · exact (hadopts newHead hsome).resolve_left (not_lt.mpr hle)
    obtain ⟨s, hs⟩ := hvalid n.state List.mem_cons_self [] ⟨hprev, trivial⟩
    have happly : (n.state.apply b).outcome = .ok s := by
      unfold ChainState.replay at hs
      rw [List.nil_append, List.foldlM_cons, except_bind_ok] at hs
      obtain ⟨t, ht, hs⟩ := hs
      obtain rfl : t = s := Except.ok.inj hs
      exact ht
    rw [if_neg (not_not.mpr hsame), post_bind, post_tryCatch]
    refine (applyInSession_spec b _).mono (fun _ n' hn' => ?_) fun e n' hn' => ?_
    · obtain ⟨t, ht, rfl⟩ := hn'
      exact (ChainState.apply_ok ht).2
    · cases happly.symm.trans hn'.1
  case isFalse hprev =>
    obtain ⟨hfree, fork', first, second, hpush', hb, ⟨f, hf⟩, hlen⟩ := hadopts
    obtain rfl : fork = fork' := Except.ok.inj (hpush.symm.trans hpush')
    obtain rfl : newHead.2 = b := by
      rcases hnew with ⟨hb, -⟩ | ⟨hsome, hle⟩
      · exact hb
      · exact (hfree newHead hsome).resolve_left (not_lt.mpr hle)
    obtain ⟨x, y, hbr, hsame, hxhead, -, hy, hknown⟩ := branches_of_fetch hfork hhead hb
    rw [if_pos hprev, if_pos hnum, post_bind, post_liftExcept]
    refine ⟨fun branches hb' => ?_, fun e he => (by cases hb.symm.trans he)⟩
    obtain rfl := Except.ok.inj (hb.symm.trans hb')
    rw [post_bind]
    refine (switchFork_adopts hn hbr hxhead hy hknown (hsame ▸ hnum) hlen hf ?_).mono
      (fun _ m hm => ?_) fun _ _ h => h
    · rw [hsame]
      exact hvalid
    · rw [post_pure, hm, hsame]

end Node

/-- For every reachable node and every block above the head whose parent is in the fork
database and whose branch is valid: the push succeeds and makes the block the head if and only
if nothing is in the way. -/
theorem longer_fork_adopted (n : Node β ρ) (hn : n.Reachable) (b : β)
    (hparent : (n.fork.index.find? (previous b)).isSome) (hnum : n.headNum < blockNum b)
    (hvalid : n.ValidBranch b) :
    (∃ switched n', Node.pushBlock b n = .ok switched n' ∧ n'.state.headId = blockId b) ↔
      n.Adopts b := by
  constructor
  · rintro ⟨switched, n', hpush, hid⟩
    exact (post_iff.mp (Node.adopts_of_pushBlock hn.wf hparent hnum)).1 switched n' hpush hid
  · intro hadopts
    have hpost := post_iff.mp (Node.pushBlock_adopts hn.wf hparent hnum hvalid hadopts)
    cases hrun : Node.pushBlock b n with
    | ok switched n' => exact ⟨switched, n', rfl, hpost.1 switched n' hrun⟩
    | error e n' => exact (hpost.2 e n' hrun).elim

/-- The branch `b1`, `b2` is valid for every node that has not applied `b1`. -/
theorem Sample.validBranch_b2 {n : Node Sample.Blk Unit}
    (h : Sample.b1Id ∉ (n.state :: n.history).map ChainState.headId) : n.ValidBranch .b2 := by
  intro t ht bs hbs
  obtain ⟨hbs, hlast, -⟩ := follows_append.mp hbs
  rcases List.eq_nil_or_concat bs with rfl | ⟨bs, c, rfl⟩
  · exact absurd (List.mem_map.mpr ⟨t, ht, hlast.symm⟩) h
  · rw [List.concat_eq_append] at hbs hlast ⊢
    rw [List.getLast?_concat] at hlast
    obtain rfl : .b1 = c := blockId_injective hlast
    obtain ⟨hbs, hlast, -⟩ := follows_append.mp hbs
    rcases List.eq_nil_or_concat bs with rfl | ⟨bs, d, rfl⟩
    · -- both blocks, on the genesis block
      obtain ⟨id, rest⟩ := t
      obtain rfl : BlockId.zero = id := hlast
      exact ⟨_, rfl⟩
    · rw [List.concat_eq_append, List.getLast?_concat] at hlast
      have hnum : 0 = blockNum d := congrArg BlockId.num hlast
      cases hnum

/-- With `a1` as the head and `b1` known, the valid block `b2` on `b1` is adopted. -/
theorem longer_fork_adopted_sample : ∃ switched n',
    Node.pushBlock Sample.Blk.b2 (Sample.told [.a1, .b1]) = .ok switched n' ∧
      n'.state.headId = blockId Sample.Blk.b2 := by
  refine (longer_fork_adopted _ (Sample.told_reachable [.a1, .b1]) Sample.Blk.b2 rfl
    (Nat.le_of_ble_eq_true rfl) (Sample.validBranch_b2 (by decide))).mpr ⟨?_, ?_⟩
  · intro h hh
    obtain rfl := Option.some.inj hh
    exact Nat.le_of_ble_eq_true rfl
  · rw [if_neg (by decide)]
    refine ⟨fun h hh => ?_, _, _, _, rfl, rfl, ⟨_, rfl⟩, Nat.le_of_ble_eq_true rfl⟩
    obtain rfl := Option.some.inj hh
    exact .inl (Nat.le_of_ble_eq_true rfl)

/-- After the invalid block `badA2` on the head has been refused, the fork database still has
it as its head, and the valid block `b2` on `b1` is taken for an extension of the head and
refused. -/
theorem longer_fork_refused : (Sample.told [.a1, .b1, .badA2]).Reachable ∧
    ((Sample.told [.a1, .b1, .badA2]).fork.index.find? (previous Sample.Blk.b2)).isSome ∧
    (Sample.told [.a1, .b1, .badA2]).headNum < blockNum Sample.Blk.b2 ∧
    (Sample.told [.a1, .b1, .badA2]).ValidBranch .b2 ∧
    ∃ e n', Node.pushBlock Sample.Blk.b2 (Sample.told [.a1, .b1, .badA2]) = .error e n' ∧
      n'.state.headId = Sample.a1Id := by
  refine ⟨Sample.told_reachable _, rfl, Nat.le_of_ble_eq_true rfl,
    Sample.validBranch_b2 (by decide), _, _, rfl, rfl⟩

end BtcmChain
