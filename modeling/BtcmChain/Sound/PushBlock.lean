import BtcmChain.Chain.PushBlock
import BtcmChain.Sound.ForkDatabase

set_option autoImplicit false

/-!
# What holds of a node after any run

The undo history is a chain: each state in it became the next one by a block, and that
block is still in the file. All calls keep this, whether they return or throw, and so a
fork switch that returns has replayed the new branch on the state at the fork.

`Linked` is that chain, and `WF` is what every call keeps of a node, the fork database included.
Pushing a block is looked at once in `pushBlock_post`, which says how it may end; `Along` lifts a
property of states to the head and all states that can be popped back to, and `exec_along` has it
for every call, if applying a block keeps the property. The theorems on switches, heads, chains and
the file of blocks all start from here.
-/

namespace BtcmChain

variable {β ρ : Type} [ChainBlock β] [BlockCode β ρ]

/-! ## Applying blocks -/

/-- A block is applied to its parent and becomes the head. -/
theorem ChainState.apply_ok {b : β} {s t : ChainState ρ} (h : (s.apply b).outcome = .ok t) :
    s.headId = previous b ∧ t.headId = blockId b := by
  unfold ChainState.apply at h
  split at h
  case isTrue hid =>
    cases hr : (BlockCode.body b s.rest : BlockRun ρ).outcome with
    | error e =>
        simp only [hr] at h
        cases h
    | ok r =>
        simp only [hr] at h
        obtain rfl := Except.ok.inj h
        exact ⟨hid, rfl⟩
  case isFalse => cases h

/-- The states below `s` in the undo history, with blocks from the file. -/
inductive Linked (log : FlatMap Nat β) : ChainState ρ → List (ChainState ρ) → Prop
  | nil (s : ChainState ρ) : Linked log s []
  | cons {s t : ChainState ρ} {rest : List (ChainState ρ)} (b : β) :
      (t.apply b).outcome = .ok s → log.find? (blockNum b) = some b → Linked log t rest →
      Linked log s (t :: rest)

namespace Linked

variable {log : FlatMap Nat β} {s t : ChainState ρ} {history rest : List (ChainState ρ)} {b : β}

theorem num_eq (h : Linked log s (t :: rest)) : s.headId.num = t.headId.num + 1 := by
  cases h with
  | cons b happly _ _ =>
      obtain ⟨ht, hs⟩ := ChainState.apply_ok happly
      rw [ht, hs]
      rfl

theorem tail (h : Linked log s (t :: rest)) : Linked log t rest := by
  cases h with
  | cons _ _ _ hrest => exact hrest

/-- There are no more records than blocks: every record is of one block fewer. -/
theorem length_le (h : Linked log s history) : history.length ≤ s.headId.num := by
  induction h with
  | nil s => exact Nat.zero_le _
  | @cons s t rest b happly hlog hrest ih =>
      rw [num_eq (.cons b happly hlog hrest), List.length_cons]
      exact Nat.succ_le_succ ih

/-- Dropping the oldest records leaves the others linked as they were. -/
theorem take (h : Linked log s history) (k : Nat) : Linked log s (history.take k) := by
  induction h generalizing k with
  | nil s => rw [List.take_nil]; exact .nil s
  | cons b happly hlog _ ih =>
      cases k with
      | zero => exact .nil _
      | succ k => exact .cons b happly hlog (ih k)

/-- A block behind the head goes to a place in the file that nobody needs. -/
theorem store (h : Linked log s history) (hb : s.headId.num < blockNum b) :
    Linked (log.set (blockNum b) b) s history := by
  induction h with
  | nil s => exact .nil s
  | cons c happly hlog hrest ih =>
      obtain ⟨hprev, hid⟩ := ChainState.apply_ok happly
      have hnum : blockNum c < blockNum b := by rwa [hid, num_blockId] at hb
      refine .cons c happly ?_ (ih ?_)
      · rw [FlatMap.find?_set, if_neg (Nat.ne_of_lt hnum), hlog]
      · rw [hprev]
        exact lt_trans (Nat.lt_succ_self _) hnum

end Linked

namespace Node

variable {n : Node β ρ} {b : β} {target : BlockId} {held : List Nat}

/-- What every call keeps of a node: the fork database is well formed, and states and blocks are
linked. -/
structure WF (n : Node β ρ) : Prop where
  fork : n.fork.WF
  chain : Linked n.blockLog n.state n.history

/-- The node is well formed, with a fixed set of fork items. -/
def Keeps (items : List (ForkItem β)) (n : Node β ρ) : Prop := n.WF ∧ n.fork.items = items

theorem items_setMaxSize (f : ForkDatabase β) (s : Nat) : (f.setMaxSize s).items = f.items := by
  unfold ForkDatabase.setMaxSize
  split <;> rfl

/-- The head block can be popped off the file while there is a record to go back to. -/
theorem WF.fetch_head (h : n.WF) {t : ChainState ρ} {rest : List (ChainState ρ)}
    (hh : n.history = t :: rest) : (n.fetchBlockById n.state.headId).isSome := by
  have hchain := h.chain
  rw [hh] at hchain
  cases hchain with
  | cons b happly hlog _ =>
      obtain ⟨-, hid⟩ := ChainState.apply_ok happly
      unfold fetchBlockById
      cases n.fork.fetch? n.state.headId with
      | some x => rfl
      | none => simp [hid, hlog]

variable {items : List (ForkItem β)}

/-- One pop takes the node to the state below, or leaves the state when it throws. -/
theorem popBlock_post (h : Keeps items n) :
    Post (popBlock held) n
      (fun _ n' => Keeps items n' ∧ n'.state :: n'.history = n.history)
      (fun _ n' => Keeps items n' ∧ n'.state = n.state) := by
  obtain ⟨hwf, hitems⟩ := h
  simp only [popBlock, post_bind, post_get, post_liftExcept, post_set]
  refine ⟨fun _ _ => ⟨fun fork hpop => ?_, fun _ _ => ⟨⟨hwf, hitems⟩, trivial⟩⟩,
    fun _ _ => ⟨⟨hwf, hitems⟩, trivial⟩⟩
  have hfork : fork.WF := hwf.fork.popBlock hpop
  have hsame : fork.items = items := by
    obtain ⟨a, p, -, -, rfl⟩ := ForkDatabase.popBlock_ok.mp hpop
    exact hitems
  cases hh : n.history with
  | nil => exact ⟨⟨⟨hfork, by rw [← hh]; exact hwf.chain⟩, hsame⟩, rfl⟩
  | cons s rest =>
      have hchain := hwf.chain
      rw [hh] at hchain
      exact ⟨⟨⟨hfork, hchain.tail⟩, hsame⟩, rfl⟩

/-- A block is applied, or the state is as before. -/
theorem applyInSession_post (h : Keeps items n) :
    Post (applyInSession b) n
      (fun _ n' => Keeps items n' ∧ (n.state.apply b).outcome = .ok n'.state)
      (fun e n' => Keeps items n' ∧ n'.state = n.state ∧
        (n.state.apply b).outcome = .error e) := by
  obtain ⟨hwf, hitems⟩ := h
  have hfork : ∀ s : Option Nat, ForkDatabase.WF (s.elim n.fork n.fork.setMaxSize) ∧
      (s.elim n.fork n.fork.setMaxSize).items = items := by
    intro s
    cases s with
    | none => exact ⟨hwf.fork, hitems⟩
    | some s => exact ⟨hwf.fork.setMaxSize s, (items_setMaxSize _ _).trans hitems⟩
  obtain ⟨hf, hi⟩ := hfork (n.state.apply b).forkSize
  simp only [applyInSession, post_bind, post_get, post_liftExcept, post_set, post_modifyThe]
  refine ⟨fun s hs => ⟨⟨⟨hf, ?_⟩, hi⟩, hs⟩, fun e he => ⟨⟨⟨hf, hwf.chain.take _⟩, hi⟩, trivial, he⟩⟩
  obtain ⟨hprev, -⟩ := ChainState.apply_ok hs
  refine .cons b hs (FlatMap.find?_set_self _ _ _) ((hwf.chain.take _).store ?_)
  rw [hprev]
  exact Nat.lt_succ_self _

/-- Popping goes down the history until the target is the head. -/
theorem popUntil_post (h : Keeps items n) (fuel : Nat) :
    Post (popUntil target held fuel) n
      (fun _ n' => Keeps items n' ∧ n'.state.headId = target ∧
        (n'.state :: n'.history) <:+ n.state :: n.history)
      (fun _ n' => Keeps items n') := by
  induction fuel generalizing n with
  | zero => exact h
  | succ fuel ih =>
      unfold popUntil
      rw [post_bind, post_get]
      split
      case isTrue hne =>
        rw [post_bind]
        refine (popBlock_post h).mono (fun _ n' hn' => ?_) fun _ _ hn' => hn'.1
        refine (ih hn'.1).mono (fun _ m hm => ⟨hm.1, hm.2.1, ?_⟩) fun _ _ hm => hm
        exact hm.2.2.trans (hn'.2 ▸ List.suffix_cons n.state n.history)
      case isFalse heq => exact ⟨h, not_not.mp heq, List.suffix_refl _⟩

theorem popTo_post (target : BlockId) (held : List Nat) (h : Keeps items n) :
    Post (popTo target held) n
      (fun _ n' => Keeps items n' ∧ n'.state.headId = target ∧
        (n'.state :: n'.history) <:+ n.state :: n.history)
      (fun _ n' => Keeps items n') := by
  unfold popTo
  rw [post_bind, post_get]
  exact popUntil_post h _

/-! ## Switching -/

/-- A branch whose items exist in the fork database, with the blocks that the branch has. -/
def Known (items : List (ForkItem β)) (l : List (Nat × β)) : Prop :=
  ∀ x ∈ l, items[x.1]?.map ForkItem.data = some x.2

theorem keeps_remove (h : Keeps items n) (l : List (Nat × β)) :
    Keeps items { n with fork := l.foldl (fun f x => f.remove (blockId x.2)) n.fork } := by
  obtain ⟨hwf, hitems⟩ := h
  suffices hl : ∀ f : ForkDatabase β, f.WF → f.items = items →
      (l.foldl (fun f x => f.remove (blockId x.2)) f).WF ∧
        (l.foldl (fun f x => f.remove (blockId x.2)) f).items = items from
    ⟨⟨(hl n.fork hwf.fork hitems).1, hwf.chain⟩, (hl n.fork hwf.fork hitems).2⟩
  induction l with
  | nil => exact fun f hf hi => ⟨hf, hi⟩
  | cons x l ih => exact fun f hf hi => ih _ (hf.remove _) hi

theorem keeps_setHead (h : Keeps items n) {l : List (Nat × β)} (hl : Known items l) :
    Keeps items { n with fork := l.head?.elim n.fork fun x => n.fork.setHead x.1 } := by
  cases l with
  | nil => exact h
  | cons x l =>
      obtain ⟨hwf, hitems⟩ := h
      refine ⟨⟨hwf.fork.setHead (b := x.2) ?_, hwf.chain⟩, hitems⟩
      unfold ForkDatabase.data?
      rw [hitems]
      exact hl x List.mem_cons_self

/-- Going back to the old branch keeps the node well formed, whether it is successful or not. -/
theorem switchBack_post (h : Keeps items n) {rest second : List (Nat × β)}
    (hsecond : Known items second) :
    Post (switchBack target held rest second) n (fun _ => Keeps items) fun _ => Keeps items := by
  simp only [switchBack, post_bind, post_modifyThe]
  have hback := keeps_setHead (keeps_remove h rest) hsecond
  refine (popTo_post _ _ hback).mono (fun _ m hm => ?_) fun _ _ hm => hm
  refine post_forM (P := fun _ => Keeps items) (fun x _ m hm => ?_) _ hm.1
  exact (applyInSession_post hm).mono (fun _ _ h => h.1) fun _ _ h => h.1

/-- Pushing the new branch replays it, block by block, and keeps the node well formed. -/
theorem applyBranch_post {second : List (Nat × β)} (hsecond : Known items second)
    (l : List (Nat × β)) (h : Keeps items n) :
    Post (applyBranch target held second l) n
      (fun _ n' => Keeps items n' ∧ n.state.replay (l.map Prod.snd) = .ok n'.state)
      (fun _ => Keeps items) := by
  induction l generalizing n with
  | nil => exact ⟨h, rfl⟩
  | cons x l ih =>
      unfold applyBranch
      rw [post_bind, post_tryCatch]
      refine (applyInSession_post h).mono (fun _ m hm => ?_) fun e m hm => ?_
      · refine (ih hm.1).mono (fun _ m' hm' => ⟨hm'.1, ?_⟩) fun _ _ hm' => hm'
        show ChainState.replay n.state (x.2 :: l.map Prod.snd) = _
        unfold ChainState.replay
        rw [List.foldlM_cons, hm.2]
        exact hm'.2
      · rw [post_bind]
        exact (switchBack_post hm.1 hsecond).mono (fun _ _ hm' => hm') fun _ _ hm' => hm'

/-- What a switch that returns has done: it went back to an earlier state, and replayed the branch
from there. -/
theorem switchFork_post {first second : List (Nat × β)} (h : Keeps items n)
    (hsecond : Known items second) :
    Post (switchFork first second) n
      (fun _ n' => Keeps items n' ∧ ∃ t, t ∈ n.state :: n.history ∧
        t.headId = (second.getLast?.elim BlockId.zero fun x => previous x.2) ∧
        t.replay (first.reverse.map Prod.snd) = .ok n'.state)
      (fun _ => Keeps items) := by
  unfold switchFork
  rw [post_bind]
  refine (popTo_post _ _ h).mono (fun _ m hm => ?_) fun _ _ hm => hm
  refine (applyBranch_post hsecond _ hm.1).mono (fun _ m' hm' => ⟨hm'.1, m.state, ?_, hm.2.1, hm'.2⟩)
    fun _ _ hm' => hm'
  exact hm.2.2.subset List.mem_cons_self

/-! ## Pushing a block -/

/-- The items of a branch exist when its first one does, since each leads to the next. -/
theorem known_of_isChain {f : ForkDatabase β} {l : List (Nat × β)} {x : Nat × β}
    (hchain : l.IsChain f.Link) (hhead : l.head? = some x) (hx : f.data? x.1 = some x.2) :
    Known f.items l := by
  cases l with
  | nil => cases hhead
  | cons y l =>
      obtain rfl := Option.some.inj hhead
      intro z hz
      induction l generalizing y with
      | nil =>
          obtain rfl := List.mem_singleton.mp hz
          exact hx
      | cons w l ih =>
          obtain ⟨hlink, hchain⟩ := List.isChain_cons_cons.mp hchain
          rcases List.mem_cons.mp hz with rfl | hz
          · exact hx
          · exact ih w hchain hlink.2.1 rfl hz

/-- What a push that switches has found and done: `t` is the state at the fork. -/
structure Switched (n n' : Node β ρ) (fork : ForkDatabase β) (newHead : Nat × β)
    (first second : List (Nat × β)) (t : ChainState ρ) : Prop where
  head : fork.head? = some newHead
  fetch : fork.fetchBranchFrom (blockId newHead.2) n.state.headId = .ok (first, second)
  mem : t ∈ n.state :: n.history
  headId : t.headId = (second.getLast?.elim BlockId.zero fun x => previous x.2)
  replay : t.replay (first.reverse.map Prod.snd) = .ok n'.state

/-- **Pushing a block.** A push that returns `true` has switched; in any case the node is
still well formed. -/
theorem pushBlock_post (h : n.WF) :
    Post (pushBlock b) n
      (fun switched n' => n'.WF ∧ (switched = true → ∃ fork newHead first second t,
        n.fork.pushBlock b = .ok fork ∧ n.Switched n' fork newHead first second t))
      (fun _ n' => n'.WF) := by
  simp only [pushBlock, post_bind, post_get, post_liftExcept, post_set]
  refine ⟨fun fork hpush => ?_, fun _ _ => h⟩
  have hfork : fork.WF := h.fork.pushBlock hpush
  have hn : Keeps fork.items { n with fork := fork } := ⟨⟨hfork, h.chain⟩, rfl⟩
  split
  case h_1 => exact hn.1
  case h_2 newHead hhead =>
  split
  case isTrue =>
    split
    case isTrue =>
      rw [post_bind, post_liftExcept]
      refine ⟨fun branches hb => ?_, fun _ _ => hn.1⟩
      obtain ⟨first, second⟩ := branches
      obtain ⟨x, y, -, hy, hbr⟩ := ForkDatabase.fetchBranchFrom_spec hfork hb
      have hknown : Known fork.items second :=
        known_of_isChain hbr.second_chain hbr.second_head (ForkDatabase.fetch?_eq_some.mp hy).2
      rw [post_bind]
      refine (switchFork_post hn hknown).mono (fun _ n' hn' => ?_) fun _ _ hn' => hn'.1
      obtain ⟨hk, t, ht, hid, hreplay⟩ := hn'
      exact ⟨hk.1, fun _ => ⟨fork, newHead, first, second, t, hpush, hhead, hb, ht, hid, hreplay⟩⟩
    case isFalse => exact ⟨hn.1, fun h => by cases h⟩
  case isFalse =>
    rw [post_bind, post_tryCatch]
    refine (applyInSession_post hn).mono (fun _ n' hn' => ?_) fun e n' hn' => ?_
    · exact ⟨hn'.1.1, fun h => by cases h⟩
    · rw [post_bind, post_modifyThe]
      exact ⟨hn'.1.1.fork.remove _, hn'.1.1.chain⟩

theorem Opened.wf (h : n.Opened) : n.WF := by
  obtain ⟨hhist, hfork⟩ := h
  refine ⟨?_, hhist ▸ .nil _⟩
  rcases hfork with hfork | ⟨b, hfork, -⟩
  · rw [hfork]
    exact .empty
  · rw [hfork]
    exact ForkDatabase.WF.empty.startBlock b

/-- **Runs.** Whatever a node is told, it stays well formed. -/
theorem RunIf.wf {C : Node β ρ → Call β → Prop} {start : Node β ρ} (hstart : start.WF)
    (h : RunIf C start n) : n.WF := by
  induction h with
  | start => exact hstart
  | @step n c _ _ ih =>
      refine post_after.mp ?_
      cases c with
      | push b =>
          show Post (pushBlock b >>= fun _ => pure ()) n _ _
          rw [post_bind]
          exact (pushBlock_post ih).mono (fun _ _ h => h.1) fun _ _ h => h
      | pop =>
          exact (popBlock_post ⟨ih, rfl⟩).mono (fun _ _ h => h.1.1) fun _ _ h => h.1.1

theorem Reachable.wf (h : n.Reachable) : n.WF := by
  obtain ⟨start, hopen, hrun⟩ := h
  exact hrun.wf hopen.wf

/-! ## The states a node passes through -/

section States

variable {P : ChainState ρ → Prop}

/-- `P` of the state, and of every state that can still be popped back to. -/
def Along (P : ChainState ρ → Prop) (n : Node β ρ) : Prop := P n.state ∧ ∀ s ∈ n.history, P s

omit [BlockCode β ρ] in
theorem popBlock_along (h : Along P n) :
    Post (popBlock held) n (fun _ => Along P) (fun _ => Along P) := by
  simp only [popBlock, post_bind, post_get, post_liftExcept, post_set]
  refine ⟨fun _ _ => ⟨fun fork _ => ?_, fun _ _ => h⟩, fun _ _ => h⟩
  cases hh : n.history with
  | nil => exact ⟨h.1, by rw [← hh]; exact h.2⟩
  | cons s rest =>
      have hpast := h.2
      rw [hh] at hpast
      exact ⟨hpast s List.mem_cons_self, fun u hu => hpast u (List.mem_cons_of_mem s hu)⟩

omit [BlockCode β ρ] in
theorem popUntil_along (fuel : Nat) (h : Along P n) :
    Post (popUntil target held fuel) n (fun _ => Along P) (fun _ => Along P) := by
  induction fuel generalizing n with
  | zero => exact h
  | succ fuel ih =>
      unfold popUntil
      rw [post_bind, post_get]
      split
      case isTrue =>
        rw [post_bind]
        exact (popBlock_along h).mono (fun _ _ hm => ih hm) fun _ _ hm => hm
      case isFalse => exact h

variable (happly : ∀ (b : β) (s t : ChainState ρ), P s → (s.apply b).outcome = .ok t → P t)

include happly

theorem applyInSession_along (h : Along P n) :
    Post (applyInSession b) n (fun _ => Along P) (fun _ => Along P) := by
  have hkept : ∀ s ∈ n.history.take n.undoMaxSize, P s := fun s hs => h.2 s (List.mem_of_mem_take hs)
  simp only [applyInSession, post_bind, post_get, post_liftExcept, post_set, post_modifyThe]
  refine ⟨fun s hs => ⟨happly b n.state s h.1 hs, ?_⟩, fun _ _ => ⟨h.1, hkept⟩⟩
  exact List.forall_mem_cons.mpr ⟨h.1, hkept⟩

theorem switchFork_along {first second : List (Nat × β)} (h : Along P n) :
    Post (switchFork first second) n (fun _ => Along P) (fun _ => Along P) := by
  have hpop : ∀ (target : BlockId) (held : List Nat) {m : Node β ρ}, Along P m →
      Post (popTo target held) m (fun _ => Along P) (fun _ => Along P) := by
    intro target held m hm
    unfold popTo
    rw [post_bind, post_get]
    exact popUntil_along _ hm
  have hbranch : ∀ (target : BlockId) (held : List Nat) (l : List (Nat × β)) {m : Node β ρ},
      Along P m →
      Post (applyBranch target held second l) m (fun _ => Along P) (fun _ => Along P) := by
    intro target held l
    induction l with
    | nil => exact fun hm => hm
    | cons x l ih =>
        intro m hm
        unfold applyBranch
        rw [post_bind, post_tryCatch]
        refine (applyInSession_along happly hm).mono (fun _ _ hu => ih hu) fun e u hu => ?_
        simp only [switchBack, post_bind, post_modifyThe]
        -- the fork database has changed, the states have not
        refine (hpop target held (by exact hu)).mono (fun _ _ hv => ?_) fun _ _ hv => hv
        exact post_forM (P := fun _ => Along P) (fun y _ w hw => applyInSession_along happly hw) _ hv
  unfold switchFork
  rw [post_bind]
  exact (hpop _ _ h).mono (fun _ _ hm => hbranch _ _ _ hm) fun _ _ hm => hm

theorem exec_along {c : Call β} (h : Along P n) : Along P (after (exec c) n) := by
  refine post_after.mp ?_
  cases c with
  | pop => exact popBlock_along h
  | push b =>
      show Post (pushBlock b >>= fun _ => pure ()) n _ _
      simp only [post_bind, pushBlock, post_get, post_liftExcept, post_set]
      refine ⟨fun fork _ => ?_, fun _ _ => h⟩
      have hn : Along P { n with fork := fork } := h
      split
      case h_1 => exact hn
      case h_2 newHead _ =>
      split
      case isTrue =>
        split
        case isTrue =>
          rw [post_bind, post_liftExcept]
          refine ⟨fun branches _ => ?_, fun _ _ => hn⟩
          rw [post_bind]
          exact (switchFork_along happly hn).mono (fun _ _ hm => hm) fun _ _ hm => hm
        case isFalse => exact hn
      case isFalse =>
        rw [post_bind, post_tryCatch]
        refine (applyInSession_along happly hn).mono (fun _ _ hm => hm) fun e m hm => ?_
        rw [post_bind, post_modifyThe]
        exact hm

/-- What holds of the states a node can be opened with, and of a block's state if it held of its
parent's, holds of every state the node passes through. -/
theorem RunIf.along {C : Node β ρ → Call β → Prop} {start : Node β ρ} (hstart : Along P start)
    (h : RunIf C start n) : Along P n := by
  induction h with
  | start => exact hstart
  | step _ _ ih => exact exec_along happly ih

end States

end Node

end BtcmChain
