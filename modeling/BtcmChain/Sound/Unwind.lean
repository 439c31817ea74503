import BtcmChain.Sound.ForkSwitch

set_option autoImplicit false

/-!
# A failed push leaves the objects alone, when it can be unwound

Going back from a failed switch takes as many pops as blocks of the new branch were
applied. Every pop takes a record of the undo history and moves the head of the fork
database, which stands on the *old* branch by then, one block further back. So the node
gets home only if the undo history and the parents of the old head last that long.
-/

namespace BtcmChain

variable {β ρ : Type} [ChainBlock β] [BlockCode β ρ]

namespace ForkDatabase

variable {f g : ForkDatabase β} {held : List Nat} {x : Nat × β} {l : List (Nat × β)}

/-- `pop_block` of the fork database, a number of times. -/
def popMany (held : List Nat) : Nat → ForkDatabase β → Except Exn (ForkDatabase β)
  | 0, f => .ok f
  | k + 1, f => f.popBlock held >>= popMany held k

omit [ChainBlock β] in
theorem alive_of_mem {a : Nat} (h : a ∈ held) : f.alive held a = true := by
  rw [alive, List.contains_iff_mem.mpr h, Bool.or_true]

/-- The head walks down a branch whose items are held. -/
theorem popMany_of_isChain (k : Nat) {z : Nat × β} (hchain : (x :: l).IsChain f.Link)
    (hhead : f.head = some x.1) (hheld : ∀ y ∈ l, y.1 ∈ held) (hz : (x :: l)[k]? = some z) :
    f.popMany held k = .ok (f.setHead z.1) := by
  induction k generalizing f x l with
  | zero =>
      obtain rfl := Option.some.inj hz
      cases f
      simp only at hhead
      subst hhead
      rfl
  | succ k ih =>
      cases l with
      | nil => simp at hz
      | cons y l =>
          obtain ⟨hlink, hrest⟩ := List.isChain_cons_cons.mp hchain
          have hpop : f.popBlock held = .ok (f.setHead y.1) := by
            refine popBlock_ok.mpr ⟨x.1, y, hhead, lockPrev_eq_some.mpr ?_, rfl⟩
            exact ⟨hlink.1, hlink.2.1, alive_of_mem (hheld y List.mem_cons_self)⟩
          have hstep := ih (f := f.setHead y.1) (x := y) (l := l) hrest rfl
            (fun w hw => hheld w (List.mem_cons_of_mem _ hw)) hz
          show (f.popBlock held >>= popMany held k) = _
          rw [hpop]
          exact hstep

/-- What is alive by itself is what the index knows, unless it is the head. -/
theorem WF.find?_of_alive (hf : f.WF) {z h : Nat × β} (hz : f.data? z.1 = some z.2)
    (hhead : f.head? = some h) (hne : h.2 ≠ z.2) (halive : f.alive [] z.1 = true) :
    f.index.find? (blockId z.2) = some z.1 := by
  rw [alive, Bool.or_eq_true, Bool.or_eq_true] at halive
  rcases halive with (hindex | hself) | hheld
  · obtain ⟨⟨id, a⟩, hmem, ha⟩ := List.any_eq_true.mp hindex
    obtain rfl : a = z.1 := beq_iff_eq.mp ha
    have hfind := FlatMap.mem_entries_iff.mp hmem
    obtain ⟨c, hc, rfl⟩ := hf.index hfind
    obtain rfl : z.2 = c := Option.some.inj (hz.symm.trans hc)
    exact hfind
  · obtain ⟨hh, hdata⟩ := head?_eq_some.mp hhead
    have hsame : h.1 = z.1 := Option.some.inj (hh.symm.trans (beq_iff_eq.mp hself))
    rw [hsame, hz] at hdata
    exact absurd (Option.some.inj hdata).symm hne
  · cases hheld

/-- The head of the fork database may be another item with the same block; its parent is the
one on the branch all the same. -/
theorem Branches.second_item (hf : f.WF) {y h w p : Nat × β} {first second : List (Nat × β)}
    (hbr : f.Branches x y first second) (hfirst : first = x :: w :: l)
    (hhead : f.head? = some h) (hsame : h.2 = x.2)
    (hknown : ∀ z ∈ first ++ second, f.data? z.1 = some z.2)
    (hp : f.lockPrev ((first ++ second).map Prod.fst) h.1 = some p) : p = w := by
  obtain ⟨hprev, hpdata, halive⟩ := lockPrev_eq_some.mp hp
  have hlinkp : f.Link h p := hf.link_of_lockPrev (head?_eq_some.mp hhead).2 hp
  have hlinkw : f.Link x w := by
    have hchain := hbr.first_chain
    rw [hfirst] at hchain
    exact (List.isChain_cons_cons.mp hchain).1
  have hblock : p.2 = w.2 := by
    refine blockId_injective ?_
    rw [← hlinkp.2.2, ← hlinkw.2.2, hsame]
  have hne : h.2 ≠ p.2 := by
    intro heq
    have hnum := hlinkp.blockNum
    rw [heq] at hnum
    omega
  have hw : w ∈ first ++ second := by
    rw [hfirst]
    simp
  -- whoever holds the parent, it is alive by itself
  have hself : f.alive [] p.1 = true := by
    rw [ForkDatabase.alive, Bool.or_eq_true] at halive
    rcases halive with hself | hheld
    · rw [ForkDatabase.alive, hself, Bool.true_or]
    · obtain ⟨z, hz, hza⟩ := List.mem_map.mp (List.contains_iff_mem.mp hheld)
      exact hza ▸ hbr.alive z hz
  have hfindp := hf.find?_of_alive hpdata hhead hne hself
  have hfindw := hf.find?_of_alive (hknown w hw) hhead (hblock ▸ hne) (hbr.alive w hw)
  rw [hblock, hfindw] at hfindp
  exact Prod.ext (Option.some.inj hfindp).symm hblock

/-- When the head can be popped at all, it can be popped as often as the old branch is
long. -/
theorem Branches.popMany (hf : f.WF) {y h : Nat × β} {first second : List (Nat × β)}
    (hbr : f.Branches x y first second) (hhead : f.head? = some h) (hsame : h.2 = x.2)
    (hknown : ∀ z ∈ first ++ second, f.data? z.1 = some z.2)
    (hpop : f.popBlock ((first ++ second).map Prod.fst) = .ok g) {k : Nat} {z : Nat × β}
    (hz : first[k + 1]? = some z) :
    f.popMany ((first ++ second).map Prod.fst) (k + 1) = .ok (f.setHead z.1) := by
  obtain ⟨a, p, ha, hp, rfl⟩ := popBlock_ok.mp hpop
  obtain rfl : a = h.1 := Option.some.inj (ha.symm.trans (head?_eq_some.mp hhead).1)
  have hfirst : ∃ w l, first = x :: w :: l := by
    have hx := hbr.first_head
    match first, hx, hz with
    | [_], _, hz => simp at hz
    | _ :: w :: l, hx, _ => exact ⟨w, l, by rw [Option.some.inj hx]⟩
  obtain ⟨w, l, hfirst⟩ := hfirst
  obtain rfl : p = w := hbr.second_item hf hfirst hhead hsame hknown hp
  have hchain := hbr.first_chain
  rw [hfirst] at hchain hz
  have hrest : (p :: l).IsChain (f.setHead p.1).Link := (List.isChain_cons_cons.mp hchain).2
  show (f.popBlock _ >>= ForkDatabase.popMany _ k) = _
  rw [hpop]
  refine popMany_of_isChain (f := f.setHead p.1) k hrest rfl (fun u hu => ?_) hz
  refine List.mem_map.mpr ⟨u, ?_, rfl⟩
  rw [hfirst]
  exact List.mem_append_left _ (List.mem_cons_of_mem _ (List.mem_cons_of_mem _ hu))

end ForkDatabase

namespace Node

variable {n : Node β ρ} {b : β} {target : BlockId} {held : List Nat} {items : List (ForkItem β)}

/-- What one pop of a node does when it goes through, exactly. -/
theorem popBlock_eq (h : n.WF) {t : ChainState ρ} {rest : List (ChainState ρ)}
    {f : ForkDatabase β} (hh : n.history = t :: rest) (hf : n.fork.popBlock held = .ok f) :
    popBlock held n = .ok () { n with fork := f, state := t, history := rest } := by
  have hfetch : (n.fetchBlockById n.state.headId).isSome = true := h.fetch_head hh
  have hrun : Post (popBlock held) n
      (fun _ n' => n' = { n with fork := f, state := t, history := rest }) fun _ _ => False := by
    simp only [popBlock, post_bind, post_get, post_liftExcept, post_set, hfetch, hh]
    refine ⟨fun _ _ => ⟨fun f' hf' => ?_, fun e he => ?_⟩, fun e he => ?_⟩
    · obtain rfl := Except.ok.inj (hf.symm.trans hf')
      rfl
    · rw [hf] at he
      cases he
    · simp [fcAssert] at he
  unfold Post at hrun
  split at hrun
  case h_1 heq => rw [heq, hrun]
  case h_2 => exact hrun.elim

omit [BlockCode β ρ] in
theorem popUntil_succ (fuel : Nat) : popUntil target held (fuel + 1) n =
    if n.state.headId ≠ target then (popBlock held >>= fun _ => popUntil target held fuel) n
    else .ok () n := by
  show (if n.state.headId ≠ target then _ else _ : Op β ρ Unit) n = _
  split <;> rfl

/-- The heads of the history below are other blocks, each numbered one less. -/
theorem WF.num_le (h : n.WF) {m : Nat} {t : ChainState ρ}
    (ht : (n.state :: n.history)[m]? = some t) : t.headId.num + m = n.state.headId.num := by
  have hchain := h.chain
  generalize n.state = s at hchain ht
  generalize n.history = history at hchain ht
  induction m generalizing s history with
  | zero =>
      obtain rfl := Option.some.inj ht
      rfl
  | succ m ih =>
      cases history with
      | nil => simp at ht
      | cons u rest =>
          have hnum := hchain.num_eq
          have hrest := ih u rest hchain.tail ht
          omega

/-- What popping down to a state of the history does, exactly. -/
theorem popUntil_eq (m : Nat) {fuel : Nat} (h : n.WF) {t : ChainState ρ} {f : ForkDatabase β}
    (ht : (n.state :: n.history)[m]? = some t) (htarget : t.headId = target)
    (hf : n.fork.popMany held m = .ok f) (hfuel : m < fuel) :
    popUntil target held fuel n =
      .ok () { n with fork := f, state := t, history := n.history.drop m } := by
  obtain ⟨fuel, rfl⟩ : ∃ k, fuel = k + 1 := ⟨fuel - 1, by omega⟩
  rw [popUntil_succ]
  induction m generalizing n fuel with
  | zero =>
      obtain rfl := Option.some.inj ht
      obtain rfl := Except.ok.inj hf
      rw [if_neg (not_not.mpr htarget)]
      rfl
  | succ m ih =>
      have hnum := h.num_le ht
      have hne : n.state.headId ≠ target := by
        rintro heq
        rw [← htarget] at heq
        rw [heq] at hnum
        omega
      rw [if_pos hne]
      obtain ⟨g, hg, hf⟩ := except_bind_ok.mp hf
      cases hh : n.history with
      | nil => simp [hh] at ht
      | cons s rest =>
          have hpop : popBlock held n = .ok () { n with fork := g, state := s, history := rest } :=
            popBlock_eq h hh hg
          have hwf : WF { n with fork := g, state := s, history := rest } := by
            refine ⟨h.fork.popBlock hg, ?_⟩
            have hchain := h.chain
            rw [hh] at hchain
            exact hchain.tail
          rw [hh] at ht
          obtain ⟨k, rfl⟩ : ∃ k, fuel = k + 1 := ⟨fuel - 1, by omega⟩
          have hrest := ih hwf ht hf k (by omega)
          rw [← popUntil_succ] at hrest
          show EStateM.bind (popBlock held) (fun _ => popUntil target held (k + 1)) n = _
          unfold EStateM.bind
          rw [hpop]
          exact hrest

theorem popTo_eq (m : Nat) (h : n.WF) {t : ChainState ρ} {f : ForkDatabase β}
    (ht : (n.state :: n.history)[m]? = some t) (htarget : t.headId = target)
    (hf : n.fork.popMany held m = .ok f) :
    popTo target held n =
      .ok () { n with fork := f, state := t, history := n.history.drop m } := by
  have hm : m < (n.state :: n.history).length := List.getElem?_eq_some_iff.mp ht |>.1
  exact popUntil_eq m h ht htarget hf hm

/-! ## The blocks of the old branch -/

/-- The old branch is what the history was made of. -/
theorem WF.replay_second (h : n.WF) {f : ForkDatabase β} {y : Nat × β} {second : List (Nat × β)}
    (hchain : second.IsChain f.Link) (hhead : second.head? = some y)
    (hy : blockId y.2 = n.state.headId) {t : ChainState ρ}
    (ht : (n.state :: n.history)[second.length]? = some t) :
    t.replay (second.reverse.map Prod.snd) = .ok n.state ∧
      second.getLast?.map (fun x => previous x.2) = some t.headId := by
  have hlinked := h.chain
  generalize n.state = s at *
  generalize n.history = history at *
  induction second generalizing s history y with
  | nil => cases hhead
  | cons z l ih =>
      obtain rfl := Option.some.inj hhead
      cases hlinked with
      | nil => simp at ht
      | @cons _ u rest b happly hlog hrest =>
          obtain ⟨hprev, hid⟩ := ChainState.apply_ok happly
          obtain rfl : z.2 = b := blockId_injective (hy.trans hid)
          cases l with
          | nil =>
              obtain rfl := Option.some.inj ht
              refine ⟨?_, ?_⟩
              · show ChainState.replay u [z.2] = .ok s
                unfold ChainState.replay
                rw [List.foldlM_cons, happly]
                rfl
              · show some (previous z.2) = some u.headId
                rw [hprev]
          | cons w l =>
              obtain ⟨hlink, hchain⟩ := List.isChain_cons_cons.mp hchain
              have hw : blockId w.2 = u.headId := hlink.2.2.symm.trans hprev.symm
              obtain ⟨hreplay, hlast⟩ := ih hchain rfl u hw rest ht hrest
              refine ⟨?_, ?_⟩
              · unfold ChainState.replay at hreplay ⊢
                rw [List.reverse_cons, List.map_append, List.foldlM_append, hreplay]
                show [z.2].foldlM (fun (s : ChainState ρ) b => (s.apply b).outcome) u = _
                rw [List.foldlM_cons, happly]
                rfl
              · rw [List.getLast?_cons_cons]
                exact hlast

/-- A branch whose replay succeeds can be pushed block by block. -/
theorem forM_applyInSession (h : Keeps items n) (l : List (Nat × β)) {s : ChainState ρ}
    (hl : n.state.replay (l.map Prod.snd) = .ok s) :
    Post (l.forM fun x => applyInSession x.2) n
      (fun _ n' => Keeps items n' ∧ n'.state = s) fun _ _ => False := by
  have hloop := post_forM (Q := fun _ _ => False)
    (P := fun l (m : Node β ρ) => Keeps items m ∧ m.state.replay (l.map Prod.snd) = .ok s)
    (f := fun x => applyInSession x.2) (fun x l m hm => ?_) l ⟨h, hl⟩
  · exact hloop.mono (fun _ m hm => ⟨hm.1, Except.ok.inj hm.2⟩) fun _ _ h => h
  · obtain ⟨hkeeps, hreplay⟩ := hm
    unfold ChainState.replay at hreplay
    rw [List.map_cons, List.foldlM_cons, except_bind_ok] at hreplay
    obtain ⟨t, ht, hreplay⟩ := hreplay
    refine (applyInSession_post hkeeps).mono (fun _ m' hm' => ⟨hm'.1, ?_⟩) fun e m' hm' => ?_
    · obtain rfl : t = m'.state := Except.ok.inj (ht.symm.trans hm'.2)
      exact hreplay
    · rw [ht] at hm'
      cases hm'.2.2

/-! ## What a failed branch costs -/

end Node

/-- The runs of the blocks of a branch, up to the first that fails. -/
def ChainState.trial : List β → ChainState ρ → List (BlockRun (ChainState ρ))
  | [], _ => []
  | b :: bs, s => s.apply b :: match (s.apply b).outcome with
      | .ok t => ChainState.trial bs t
      | .error _ => []

/-- How many blocks of a run were applied. -/
def applied {σ : Type} (runs : List (BlockRun σ)) : Nat :=
  runs.countP fun r => r.outcome.toBool

/-- The length of the undo history after the runs: a session starts by dropping what is
beyond the maximal size, and the session of a block that fails takes its record away. -/
def undoLeft {σ : Type} (maxSize length : Nat) : List (BlockRun σ) → Nat
  | [] => length
  | r :: rs =>
      match r.outcome with
      | .ok _ => undoLeft (r.undoSize.getD maxSize) (min maxSize length + 1) rs
      | .error _ => min maxSize length

namespace ForkDatabase

/-- The fork database after the runs: the index is cut to the sizes the blocks set. -/
def sized {σ : Type} (f : ForkDatabase β) (runs : List (BlockRun σ)) : ForkDatabase β :=
  runs.foldl (fun f r => r.forkSize.elim f f.setMaxSize) f

/-- The fork database as it is when the way back begins: without the rest of the new branch, and
with the old head. -/
def turned (f : ForkDatabase β) (rest second : List (Nat × β)) : ForkDatabase β :=
  let dropped := rest.foldl (fun f x => f.remove (blockId x.2)) f
  second.head?.elim dropped fun x => dropped.setHead x.1

end ForkDatabase

namespace Node

variable {n : Node β ρ} {b : β} {target : BlockId} {held : List Nat} {items : List (ForkItem β)}

/-- The way back is open after `l` has been tried: as many records and as many parents of the
old head are left as blocks have been applied, `done` of them before. -/
def WayBack (n : Node β ρ) (held : List Nat) (second : List (Nat × β)) (done : Nat)
    (l : List (Nat × β)) : Prop :=
  let runs := n.state.trial (l.map Prod.snd)
  applied runs < l.length →
    done + applied runs ≤ undoLeft n.undoMaxSize n.history.length runs ∧
    ∃ f, ((n.fork.sized runs).turned (l.drop (applied runs)) second).popMany held
      (done + applied runs) = .ok f

/-- The node after a block has been applied in its session. -/
def extended (n : Node β ρ) (b : β) (s : ChainState ρ) : Node β ρ :=
  { n with
    state := s
    history := n.state :: n.history.take n.undoMaxSize
    undoMaxSize := (n.state.apply b).undoSize.getD n.undoMaxSize
    fork := (n.state.apply b).forkSize.elim n.fork n.fork.setMaxSize
    blockLog := n.blockLog.set (blockNum b) b }

/-- The node after a block has failed in its session: the state is as before, and perhaps the bounds
are others. -/
def spared (n : Node β ρ) (b : β) : Node β ρ :=
  { n with
    history := n.history.take n.undoMaxSize
    undoMaxSize := (n.state.apply b).undoSize.getD n.undoMaxSize
    fork := (n.state.apply b).forkSize.elim n.fork n.fork.setMaxSize }

/-- What applying a block in a session does to a node, exactly, whether it returns or throws. -/
theorem applyInSession_spec (b : β) (n : Node β ρ) :
    Post (applyInSession b) n
      (fun _ n' => ∃ s, (n.state.apply b).outcome = .ok s ∧ n' = n.extended b s)
      (fun e n' => (n.state.apply b).outcome = .error e ∧ n' = n.spared b) := by
  simp only [applyInSession, post_bind, post_get, post_liftExcept, post_set, post_modifyThe]
  exact ⟨fun s hs => ⟨s, hs, rfl⟩, fun e he => ⟨he, rfl⟩⟩

theorem getElem?_cons_take {σ : Type} {s : σ} {l : List σ} {k i : Nat} (h : i ≤ (l.take k).length) :
    (s :: l.take k)[i]? = (s :: l)[i]? := by
  cases i with
  | zero => rfl
  | succ i =>
      rw [List.getElem?_cons_succ, List.getElem?_cons_succ, List.getElem?_take, if_pos]
      have hk : (l.take k).length ≤ k := List.length_take_le _ _
      omega

/-- When a block of the branch is applied, the way back is one block longer and still open. -/
theorem WayBack.extended {second l : List (Nat × β)} {x : Nat × β} {done : Nat}
    {s : ChainState ρ} (h : n.WayBack held second done (x :: l))
    (hs : (n.state.apply x.2).outcome = .ok s) :
    (n.extended x.2 s).WayBack held second (done + 1) l := by
  have htrial : n.state.trial ((x :: l).map Prod.snd) =
      n.state.apply x.2 :: s.trial (l.map Prod.snd) := by
    show n.state.apply x.2 :: _ = _
    rw [hs]
  have happlied : applied (n.state.apply x.2 :: s.trial (l.map Prod.snd)) =
      applied (s.trial (l.map Prod.snd)) + 1 := by
    unfold applied
    rw [List.countP_cons_of_pos (by rw [hs]; rfl)]
  have hundo : undoLeft n.undoMaxSize n.history.length
      (n.state.apply x.2 :: s.trial (l.map Prod.snd)) =
        undoLeft ((n.state.apply x.2).undoSize.getD n.undoMaxSize)
          (min n.undoMaxSize n.history.length + 1) (s.trial (l.map Prod.snd)) := by
    unfold undoLeft
    rw [hs]
    cases s.trial (l.map Prod.snd) <;> rfl
  unfold WayBack at h ⊢
  simp only [htrial, happlied, hundo, List.length_cons, Nat.add_lt_add_iff_right] at h
  intro runs hlt
  obtain ⟨hleft, f, hf⟩ := h hlt
  refine ⟨?_, f, ?_⟩
  · show done + 1 + _ ≤ undoLeft _ (List.length (n.state :: n.history.take n.undoMaxSize)) _
    rw [List.length_cons, List.length_take, Nat.add_right_comm]
    exact hleft
  · rw [Nat.add_right_comm]
    exact hf

/-- When a block of the branch fails, the way back from there is the one that was open before it. -/
theorem WayBack.spared {second l : List (Nat × β)} {x : Nat × β} {done : Nat} {e : Exn}
    (h : n.WayBack held second done (x :: l)) (he : (n.state.apply x.2).outcome = .error e) :
    done ≤ (n.history.take n.undoMaxSize).length ∧
      ∃ f, ((n.spared x.2).fork.turned (x :: l) second).popMany held done = .ok f := by
  have htrial : n.state.trial ((x :: l).map Prod.snd) = [n.state.apply x.2] := by
    show n.state.apply x.2 :: _ = _
    rw [he]
  have happlied : applied [n.state.apply x.2] = 0 := by
    unfold applied
    rw [List.countP_cons_of_neg (by rw [he]; exact Bool.false_ne_true)]
    rfl
  have hundo : undoLeft n.undoMaxSize n.history.length [n.state.apply x.2] =
      min n.undoMaxSize n.history.length := by
    unfold undoLeft
    rw [he]
  unfold WayBack at h
  simp only [htrial, happlied, hundo, List.length_cons, Nat.add_zero, List.drop_zero] at h
  rw [List.length_take]
  exact h (Nat.succ_pos _)

/-- The way back, when it is open, leads to the state that the switch started from. -/
theorem switchBack_home {rest second : List (Nat × β)} {t home : ChainState ρ} {done : Nat}
    {f : ForkDatabase β} (h : Keeps items n) (hsecond : Known items second)
    (htarget : t.headId = target) (hhome : t.replay (second.reverse.map Prod.snd) = .ok home)
    (ht : (n.state :: n.history)[done]? = some t)
    (hf : (n.fork.turned rest second).popMany held done = .ok f) :
    Post (switchBack target held rest second) n
      (fun _ n' => n'.state = home) fun _ _ => False := by
  have hturned : Keeps items { n with fork := n.fork.turned rest second } :=
    keeps_setHead (keeps_remove h rest) hsecond
  have hpop := popTo_eq done hturned.1 ht htarget hf
  have hpopped := (post_iff.mp (popTo_post target held hturned)).1 _ _ hpop
  simp only [switchBack, post_bind, post_modifyThe]
  show Post (popTo target held) { n with fork := n.fork.turned rest second } _ _
  unfold Post
  rw [hpop]
  exact (forM_applyInSession hpopped.1 second.reverse hhome).mono (fun _ _ hm => hm.2)
    fun _ _ hm => hm

/-- **The new branch fails and the way back is open:** the node comes home. -/
theorem applyBranch_home {second : List (Nat × β)} {t home : ChainState ρ}
    (hsecond : Known items second) (htarget : t.headId = target)
    (hhome : t.replay (second.reverse.map Prod.snd) = .ok home) (l : List (Nat × β))
    (done : Nat) (h : Keeps items n)
    (ht : done ≤ n.history.length → (n.state :: n.history)[done]? = some t)
    (hback : n.WayBack held second done l) :
    Post (applyBranch target held second l) n (fun _ _ => True) fun _ n' => n'.state = home := by
  induction l generalizing n done with
  | nil => exact trivial
  | cons x l ih =>
      unfold applyBranch
      rw [post_bind, post_tryCatch]
      refine ((applyInSession_spec x.2 n).and (applyInSession_post h)).mono (fun _ n' hn' => ?_)
        fun e n' hn' => ?_
      · obtain ⟨⟨s, hs, rfl⟩, hkeeps, -⟩ := hn'
        refine ih (done + 1) hkeeps (fun hlen => ?_) (hback.extended hs)
        -- the records up to the fork are still there
        have hlen : done ≤ (n.history.take n.undoMaxSize).length := Nat.le_of_succ_le_succ hlen
        show (n.state :: n.history.take n.undoMaxSize)[done]? = some t
        rw [getElem?_cons_take hlen]
        exact ht (hlen.trans (List.length_take_le' _ _))
      · obtain ⟨⟨he, rfl⟩, hkeeps, -⟩ := hn'
        obtain ⟨hleft, f, hf⟩ := hback.spared he
        rw [post_bind]
        refine (switchBack_home hkeeps hsecond htarget hhome ?_ hf).mono (fun _ n' hn' => hn')
          fun _ _ hfalse => hfalse.elim
        show (n.state :: n.history.take n.undoMaxSize)[done]? = some t
        rw [getElem?_cons_take hleft]
        exact ht (hleft.trans (List.length_take_le' _ _))

/-! ## A failed push -/

omit [BlockCode β ρ] in
/-- The fork database refuses to pop, or there is nothing to undo: the objects stay. -/
theorem popBlock_refused (h : ¬(n.history ≠ [] ∧ ∃ f, n.fork.popBlock held = .ok f)) :
    Post (popBlock held) n (fun _ _ => False) fun _ n' => n'.state = n.state := by
  simp only [popBlock, post_bind, post_get, post_liftExcept, post_set]
  refine ⟨fun _ _ => ⟨fun f hf => ?_, fun _ _ => trivial⟩, fun _ _ => trivial⟩
  have hh : n.history = [] := by
    by_contra hne
    exact h ⟨hne, f, hf⟩
  rw [hh]
  exact rfl

/-- What it takes to come home from a switch to `first`, away from `second`: nothing if the
undo history is empty; else it reaches down to the fork, and from there the way back is open
wherever `first` fails. -/
def Returns (n : Node β ρ) (first second : List (Nat × β)) : Prop :=
  let held := (first ++ second).map Prod.fst
  n.history = [] ∨ (second.length ≤ n.history.length ∧
    ∀ t fork, n.history[second.length - 1]? = some t →
      n.fork.popMany held second.length = .ok fork →
      WayBack { n with fork := fork, state := t, history := n.history.drop second.length }
        held second 0 first.reverse)

/-- The way down to the fork: as many pops as the old branch is long, if the first one is not
refused. -/
theorem popTo_fork {first second : List (Nat × β)} {x y : Nat × β} {f : ForkDatabase β}
    (hn : Keeps items n) (hbr : n.fork.Branches x y first second)
    (hhead : n.fork.head?.map Prod.snd = some x.2) (hy : blockId y.2 = n.state.headId)
    (hknown : Known items (first ++ second)) (hlong : n.headNum < blockNum x.2)
    (hhist : second.length ≤ n.history.length)
    (hf : n.fork.popBlock ((first ++ second).map Prod.fst) = .ok f) :
    ∃ t z, n.history[second.length - 1]? = some t ∧ first[second.length]? = some z ∧
      second.getLast?.map (fun v => previous v.2) = some t.headId ∧
      t.replay (second.reverse.map Prod.snd) = .ok n.state ∧
      n.fork.popMany ((first ++ second).map Prod.fst) second.length =
        .ok (n.fork.setHead z.1) ∧
      popTo t.headId ((first ++ second).map Prod.fst) n =
        .ok () { n with
          fork := n.fork.setHead z.1, state := t, history := n.history.drop second.length } := by
  obtain ⟨h, hhead, hsame⟩ := Option.map_eq_some_iff.mp hhead
  have hdata : ∀ z ∈ first ++ second, n.fork.data? z.1 = some z.2 := by
    intro z hz
    show n.fork.items[z.1]?.map ForkItem.data = some z.2
    rw [hn.2]
    exact hknown z hz
  have hpos := List.length_pos_iff.mpr hbr.forked.second_ne
  have hyhead : blockNum y.2 = n.headNum := congrArg BlockId.num hy
  -- the new branch is longer than the old one
  have hlen : second.length < first.length := by
    have hlengths := hbr.lengths
    omega
  obtain ⟨k, hk⟩ : ∃ k, second.length = k + 1 := ⟨second.length - 1, by omega⟩
  obtain ⟨z, hz⟩ : ∃ z, first[k + 1]? = some z := ⟨_, List.getElem?_eq_getElem (by omega)⟩
  have hmany := hbr.popMany hn.1.fork hhead hsame hdata hf hz
  obtain ⟨t, ht⟩ : ∃ t, n.history[k]? = some t := ⟨_, List.getElem?_eq_getElem (by omega)⟩
  have ht' : (n.state :: n.history)[second.length]? = some t := by
    rw [hk]
    exact ht
  obtain ⟨hreplay, hlast⟩ := hn.1.replay_second hbr.second_chain hbr.second_head hy ht'
  rw [hk]
  exact ⟨t, z, ht, hz, hlast, hreplay, hmany, popTo_eq (k + 1) hn.1 ht rfl hmany⟩

/-- A switch whose first pop is refused does nothing to the node. -/
theorem switchFork_refused {first second : List (Nat × β)} {x y : Nat × β}
    (hbr : n.fork.Branches x y first second) (hy : blockId y.2 = n.state.headId)
    (hpop : ¬(n.history ≠ [] ∧ ∃ f, n.fork.popBlock ((first ++ second).map Prod.fst) = .ok f)) :
    Post (switchFork first second) n (fun _ _ => False) fun _ n' => n'.state = n.state := by
  obtain ⟨u, v, hu, hv, hsib⟩ := hbr.siblings
  have hne : n.state.headId ≠ previous v.2 := by
    intro heq
    have hpos := List.length_pos_iff.mpr hbr.forked.second_ne
    have hnum := ForkDatabase.num_of_isChain hbr.second_chain hbr.second_head hv
    have hyhead : blockNum y.2 = n.headNum := congrArg BlockId.num hy
    have hvnum : blockNum v.2 = (previous v.2).num + 1 := rfl
    have hheads : n.headNum = (previous v.2).num := congrArg BlockId.num heq
    omega
  unfold switchFork
  rw [post_bind, hv, Option.elim_some]
  unfold popTo popUntil
  rw [post_bind, post_get, post_bind, post_get, if_pos hne, post_bind]
  exact (popBlock_refused hpop).mono (fun _ _ hfalse => hfalse.elim) fun _ _ h => h

/-- A switch that fails and can be taken back leaves both heads where they were. -/
theorem switchFork_home {first second : List (Nat × β)} {x y : Nat × β}
    (hn : Keeps items n) (hbr : n.fork.Branches x y first second)
    (hhead : n.fork.head?.map Prod.snd = some x.2) (hy : blockId y.2 = n.state.headId)
    (hknown : Known items (first ++ second)) (hlong : n.headNum < blockNum x.2)
    (hret : n.Returns first second) :
    Post (switchFork first second) n (fun _ _ => True) fun _ n' => n'.state = n.state := by
  by_cases hpop : n.history ≠ [] ∧ ∃ f, n.fork.popBlock ((first ++ second).map Prod.fst) = .ok f
  · obtain ⟨hhist, f, hf⟩ := hpop
    obtain ⟨hlen, hback⟩ := hret.resolve_left hhist
    obtain ⟨t, z, ht, -, hlast, hreplay, hmany, hdown⟩ :=
      popTo_fork hn hbr hhead hy hknown hlong hlen hf
    obtain ⟨v, hv, hvid⟩ := Option.map_eq_some_iff.mp hlast
    have hpopped := (post_iff.mp
      (popTo_post t.headId ((first ++ second).map Prod.fst) hn)).1 _ _ hdown
    unfold switchFork
    rw [post_bind, hv, Option.elim_some, hvid]
    unfold Post
    rw [hdown]
    exact applyBranch_home (fun w hw => hknown w (List.mem_append_right _ hw)) rfl hreplay
      first.reverse 0 hpopped.1 (fun _ => rfl) (hback t _ ht hmany)
  · exact (switchFork_refused hbr hy hpop).mono (fun _ _ hfalse => hfalse.elim) fun _ _ h => h

omit [BlockCode β ρ] in
/-- The branches that a push switches between are those of the new head and of the node's head. -/
theorem branches_of_fetch {fork : ForkDatabase β} {newHead : Nat × β} {id : BlockId}
    {first second : List (Nat × β)} (hfork : fork.WF) (hhead : fork.head? = some newHead)
    (hb : fork.fetchBranchFrom (blockId newHead.2) id = .ok (first, second)) :
    ∃ x y, fork.Branches x y first second ∧ x.2 = newHead.2 ∧
      fork.head?.map Prod.snd = some x.2 ∧ fork.fetch? id = some y ∧ blockId y.2 = id ∧
      Known fork.items (first ++ second) := by
  obtain ⟨x, y, hx, hy, hbr⟩ := ForkDatabase.fetchBranchFrom_spec hfork hb
  have hsame : x.2 = newHead.2 := blockId_injective (hfork.blockId_of_fetch? hx)
  have hfirst : Known fork.items first :=
    known_of_isChain hbr.first_chain hbr.first_head (ForkDatabase.fetch?_eq_some.mp hx).2
  have hsecond : Known fork.items second :=
    known_of_isChain hbr.second_chain hbr.second_head (ForkDatabase.fetch?_eq_some.mp hy).2
  refine ⟨x, y, hbr, hsame, ?_, hy, hfork.blockId_of_fetch? hy, fun z hz => ?_⟩
  · rw [hhead, hsame]
    rfl
  · rcases List.mem_append.mp hz with hz | hz
    · exact hfirst z hz
    · exact hsecond z hz

/-- A push of `b` can be taken back: if it makes the node switch, the switch can. -/
def Unwinds (n : Node β ρ) (b : β) : Prop :=
  ∀ fork newHead first second, n.fork.pushBlock b = .ok fork → fork.head? = some newHead →
    previous newHead.2 ≠ n.state.headId → n.headNum < blockNum newHead.2 →
    fork.fetchBranchFrom (blockId newHead.2) n.state.headId = .ok (first, second) →
    Returns { n with fork := fork } first second

theorem pushBlock_home (h : n.WF) (hun : n.Unwinds b) :
    Post (pushBlock b) n (fun _ _ => True) fun _ n' => n'.state = n.state := by
  simp only [pushBlock, post_bind, post_get, post_liftExcept, post_set]
  refine ⟨fun fork hpush => ?_, fun _ _ => trivial⟩
  have hfork : fork.WF := h.fork.pushBlock hpush
  have hn : Keeps fork.items { n with fork := fork } := ⟨⟨hfork, h.chain⟩, rfl⟩
  split
  case h_1 => exact rfl
  case h_2 newHead hhead =>
  split
  case isTrue hprev =>
    split
    case isTrue hnum =>
      rw [post_bind, post_liftExcept]
      refine ⟨fun branches hb => ?_, fun _ _ => rfl⟩
      obtain ⟨first, second⟩ := branches
      obtain ⟨x, y, hbr, hsame, hxhead, -, hy, hknown⟩ := branches_of_fetch hfork hhead hb
      rw [post_bind]
      refine (switchFork_home hn hbr hxhead hy hknown (hsame ▸ hnum)
        (hun fork newHead first second hpush hhead hprev hnum hb)).mono
        (fun _ _ _ => trivial) fun _ _ hm => hm
    case isFalse => exact trivial
  case isFalse =>
    rw [post_bind, post_tryCatch]
    refine (applyInSession_post hn).mono (fun _ n' hn' => trivial) fun e n' hn' => ?_
    rw [post_bind, post_modifyThe]
    exact hn'.2.1

end Node

/-- For every reachable node and every block whose push can be taken back: if the push
throws, the objects and the head block are those before the call. -/
theorem failed_push_changes_nothing (n : Node β ρ) (hn : n.Reachable) (b : β)
    (hun : n.Unwinds b) : ∀ e n', Node.pushBlock b n = .error e n' → n'.state = n.state :=
  (post_iff.mp (Node.pushBlock_home hn.wf hun)).2

/-- The head is `a2` and its invalid sibling `badA2` is known; a block on the latter makes the
node switch, `badA2` fails, and the node is back on `a2`. -/
theorem failed_push_changes_nothing_sample : ∃ e n',
    Node.pushBlock Sample.Blk.c3 (Sample.told [.a1, .a2, .badA2]) = .error e n' ∧
      n'.state = (Sample.told [.a1, .a2, .badA2]).state := by
  refine ⟨_, _, rfl, failed_push_changes_nothing _ (Sample.told_reachable [.a1, .a2, .badA2])
    Sample.Blk.c3 ?_ _ _ rfl⟩
  intro fork newHead first second hfork hhead hprev hnum hfetch
  obtain rfl := Except.ok.inj hfork
  obtain rfl := Option.some.inj hhead
  obtain ⟨rfl, rfl⟩ := Prod.mk.inj (Except.ok.inj hfetch)
  refine .inr ⟨Nat.le_of_ble_eq_true rfl, fun t fork ht hf => ?_⟩
  obtain rfl := Option.some.inj ht
  obtain rfl := Except.ok.inj hf
  exact fun _ => ⟨Nat.le_of_ble_eq_true rfl, _, rfl⟩

/-- The head is `a1` and its sibling `b1` is known. An invalid block on `b1` makes the node
switch; `b1` is applied, `badB2` fails, and the first pop of the way back fails, since the
head of the fork database is on `a1` by then, whose parent it does not know. The node is left
on `b1`. -/
theorem failed_push_leaves_fork : (Sample.told [.a1, .b1]).Reachable ∧
    (Sample.told [.a1, .b1]).state.headId = Sample.a1Id ∧
    ∃ e n', Node.pushBlock Sample.Blk.badB2 (Sample.told [.a1, .b1]) = .error e n' ∧
      n'.state.headId = Sample.b1Id ∧ n'.state ≠ (Sample.told [.a1, .b1]).state := by
  refine ⟨Sample.told_reachable _, rfl, _, _, rfl, rfl, ?_⟩
  intro h
  have hid : Sample.b1Id = Sample.a1Id := congrArg ChainState.headId h
  exact absurd hid (by decide)

end BtcmChain
