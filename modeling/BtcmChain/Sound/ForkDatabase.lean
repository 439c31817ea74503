import BtcmChain.Chain.ForkDatabase
import BtcmChain.Lib.Effect
import Mathlib.Data.List.Chain

set_option autoImplicit false

/-!
# Well-formed fork databases

The weak pointer of an item leads to an older item that holds its parent, and the index
files items under their ids. All operations keep this, and it makes the two branches of
`fetch_branch_from` what they should be: linked by parents, from the two blocks asked for
down to two siblings.

Weak pointers can be lost, when old items are removed, and the walk of `fetch_branch_from` throws
then; the results here are about walks that return. `Link` is one step down and `Branches` what the
two walks together leave: two chains of items, from the given blocks down to siblings.
`fetchBranchFrom_spec` is used wherever a switch pops the old branch and applies the new one.
-/

namespace BtcmChain

namespace ForkDatabase

variable {β : Type} [ChainBlock β]

/-- Pointers lead to older items with the parent; the index knows the ids. -/
structure WF (f : ForkDatabase β) : Prop where
  prev : ∀ {a p}, f.prev? a = some p →
    p < a ∧ ∃ x y, f.data? a = some x ∧ f.data? p = some y ∧ previous x = blockId y
  index : ∀ {id a}, f.index.find? id = some a → ∃ x, f.data? a = some x ∧ blockId x = id
  head : ∀ {a}, f.head = some a → ∃ x, f.data? a = some x

/-- `y` is the parent item of `x`: the weak pointer leads there, and the block found is the parent.
-/
def Link (f : ForkDatabase β) (x y : Nat × β) : Prop :=
  f.prev? x.1 = some y.1 ∧ f.data? y.1 = some y.2 ∧ previous x.2 = blockId y.2

variable {f g : ForkDatabase β} {held : List Nat} {x y : Nat × β} {b : β}

omit [ChainBlock β] in
theorem lockPrev_eq_some {a : Nat} : f.lockPrev held a = some y ↔
    f.prev? a = some y.1 ∧ f.data? y.1 = some y.2 ∧ f.alive held y.1 = true := by
  unfold lockPrev
  cases f.prev? a with
  | none => simp
  | some p =>
      simp only [Option.bind_eq_bind, Option.bind_some, Option.some.injEq]
      constructor
      · intro h
        obtain ⟨b, hb, h⟩ := Option.bind_eq_some_iff.mp h
        split at h
        case isTrue halive =>
          obtain rfl := Option.some.inj h
          exact ⟨rfl, hb, halive⟩
        case isFalse => cases h
      · rintro ⟨rfl, hb, halive⟩
        rw [hb, Option.bind_some, if_pos halive]

omit [ChainBlock β] in
theorem head?_eq_some : f.head? = some x ↔ f.head = some x.1 ∧ f.data? x.1 = some x.2 := by
  unfold head?
  cases f.head with
  | none => simp
  | some a =>
      simp only [Option.bind_eq_bind, Option.bind_some, Option.some.injEq]
      constructor
      · intro h
        obtain ⟨b, hb, h⟩ := Option.bind_eq_some_iff.mp h
        obtain rfl := Option.some.inj h
        exact ⟨rfl, hb⟩
      · rintro ⟨rfl, hb⟩
        rw [hb]
        rfl

omit [ChainBlock β] in
theorem fetch?_eq_some {id : BlockId} :
    f.fetch? id = some x ↔ f.index.find? id = some x.1 ∧ f.data? x.1 = some x.2 := by
  unfold fetch?
  cases f.index.find? id with
  | none => simp
  | some a =>
      simp only [Option.bind_eq_bind, Option.bind_some, Option.some.injEq]
      constructor
      · intro h
        obtain ⟨b, hb, h⟩ := Option.bind_eq_some_iff.mp h
        obtain rfl := Option.some.inj h
        exact ⟨rfl, hb⟩
      · rintro ⟨rfl, hb⟩
        rw [hb]
        rfl

theorem WF.link_of_lockPrev (hf : f.WF) (hx : f.data? x.1 = some x.2)
    (h : f.lockPrev held x.1 = some y) : f.Link x y := by
  obtain ⟨hprev, hy, -⟩ := lockPrev_eq_some.mp h
  obtain ⟨-, x', y', hx', hy', hid⟩ := hf.prev hprev
  obtain rfl : x.2 = x' := Option.some.inj (hx.symm.trans hx')
  obtain rfl : y.2 = y' := Option.some.inj (hy.symm.trans hy')
  exact ⟨hprev, hy, hid⟩

theorem Link.blockNum (h : f.Link x y) : blockNum x.2 = blockNum y.2 + 1 := by
  show (previous x.2).num + 1 = _
  rw [h.2.2]
  rfl

/-! ## The operations keep fork databases well formed -/

/-- Only the index and the head pointer matter besides the items. -/
theorem WF.congr (hf : f.WF) (hitems : g.items = f.items)
    (hindex : ∀ id a, g.index.find? id = some a → f.index.find? id = some a)
    (hhead : ∀ a, g.head = some a → ∃ x, f.data? a = some x) : g.WF where
  prev {a p} h := by
    unfold prev? data? at *
    rw [hitems] at h ⊢
    exact hf.prev h
  index {id a} h := by
    unfold data?
    rw [hitems]
    exact hf.index (hindex id a h)
  head {a} h := by
    unfold data?
    rw [hitems]
    exact hhead a h

theorem WF.empty : (WF ({} : ForkDatabase β)) where
  prev h := by simp [prev?] at h
  index h := by cases h
  head h := by cases h

theorem WF.prune (hf : f.WF) (minNum : Nat) : (f.prune minNum).WF := by
  refine hf.congr rfl (fun id a h => ?_) fun a h => hf.head h
  have h : (f.index.filterKeys fun id => decide (minNum ≤ id.num)).find? id = some a := h
  rw [FlatMap.find?_filterKeys] at h
  split at h
  · exact h
  · cases h

theorem WF.setMaxSize (hf : f.WF) (s : Nat) : (f.setMaxSize s).WF := by
  have hsize : WF { f with maxSize := s } := hf.congr rfl (fun _ _ h => h) fun _ h => hf.head h
  unfold ForkDatabase.setMaxSize
  split
  · exact hsize
  · exact hsize.prune _

theorem WF.setHead (hf : f.WF) {a : Nat} (ha : f.data? a = some b) : (f.setHead a).WF := by
  refine hf.congr rfl (fun _ _ h => h) fun a' h => ?_
  obtain rfl := Option.some.inj h
  exact ⟨b, ha⟩

theorem WF.remove (hf : f.WF) (id : BlockId) : (f.remove id).WF := by
  refine hf.congr rfl (fun id' a h => ?_) fun _ h => hf.head h
  have h : (f.index.erase id).find? id' = some a := h
  rw [FlatMap.find?_erase] at h
  split at h
  · cases h
  · exact h

omit [ChainBlock β] in
theorem popBlock_ok : f.popBlock held = .ok g ↔
    ∃ a p, f.head = some a ∧ f.lockPrev held a = some p ∧ g = f.setHead p.1 := by
  unfold popBlock
  cases hh : f.head with
  | none => simp
  | some a =>
      cases hp : f.lockPrev held a with
      | none => simp [hp]
      | some p =>
          simp only [hp, Option.some.injEq, Except.ok.injEq, setHead]
          exact ⟨fun h => ⟨a, p, rfl, hp, h.symm⟩, fun ⟨_, _, rfl, hq, h⟩ => by
            rw [hp] at hq
            cases hq
            exact h.symm⟩

theorem WF.popBlock (hf : f.WF) (h : f.popBlock held = .ok g) : g.WF := by
  obtain ⟨a, p, -, hp, rfl⟩ := popBlock_ok.mp h
  exact hf.setHead (lockPrev_eq_some.mp hp).2.1

/-! ## A new item -/

/-- Add an item for a block, which links to the item of its parent. -/
def append (f : ForkDatabase β) (b : β) (prev : Option Nat) : ForkDatabase β :=
  { f with items := f.items ++ [{ data := b, prev }] }

omit [ChainBlock β] in
theorem data?_append {prev : Option Nat} (a : Nat) : (f.append b prev).data? a =
    if a = f.items.length then some b else f.data? a := by
  unfold data? append
  rw [List.getElem?_append]
  split
  case isTrue hlt =>
    rw [if_neg (by omega)]
  case isFalse hge =>
    by_cases ha : a = f.items.length
    · subst ha
      simp
    · have hout : f.items[a]? = none := List.getElem?_eq_none (by omega)
      rw [if_neg ha, hout, List.getElem?_eq_none (by simp; omega)]

omit [ChainBlock β] in
theorem prev?_append {prev : Option Nat} (a : Nat) : (f.append b prev).prev? a =
    if a = f.items.length then prev else f.prev? a := by
  unfold prev? append
  rw [List.getElem?_append]
  split
  case isTrue hlt =>
    rw [if_neg (by omega)]
  case isFalse hge =>
    by_cases ha : a = f.items.length
    · subst ha
      simp
    · have hout : f.items[a]? = none := List.getElem?_eq_none (by omega)
      rw [if_neg ha, hout, List.getElem?_eq_none (by simp; omega)]

omit [ChainBlock β] in
theorem lt_of_data? {a : Nat} (h : f.data? a = some b) : a < f.items.length := by
  unfold data? at h
  by_contra hge
  rw [List.getElem?_eq_none (by omega)] at h
  cases h

omit [ChainBlock β] in
/-- Old items stay what they are when another one is added. -/
theorem data?_append_of_some {prev : Option Nat} {a : Nat} {c : β} (h : f.data? a = some c) :
    (f.append b prev).data? a = some c := by
  rw [data?_append, if_neg (Nat.ne_of_lt (lt_of_data? h)), h]

theorem WF.append (hf : f.WF) {prev : Option Nat}
    (hprev : ∀ p, prev = some p → ∃ y, f.data? p = some y ∧ previous b = blockId y) :
    (f.append b prev).WF where
  prev {a p} h := by
    rw [prev?_append] at h
    split at h
    case isTrue ha =>
      obtain ⟨y, hy, hid⟩ := hprev p h
      refine ⟨ha ▸ lt_of_data? hy, b, y, ?_, data?_append_of_some hy, hid⟩
      rw [data?_append, if_pos ha]
    case isFalse =>
      obtain ⟨hlt, x, y, hx, hy, hid⟩ := hf.prev h
      exact ⟨hlt, x, y, data?_append_of_some hx, data?_append_of_some hy, hid⟩
  index {id a} h := by
    obtain ⟨x, hx, hid⟩ := hf.index h
    exact ⟨x, data?_append_of_some hx, hid⟩
  head {a} h := by
    obtain ⟨x, hx⟩ := hf.head h
    exact ⟨x, data?_append_of_some hx⟩

/-- Filing an item under its own id keeps the fork database well formed. -/
theorem WF.setIndex (hf : f.WF) {a : Nat} (ha : f.data? a = some b) :
    WF { f with index := f.index.set (blockId b) a } where
  prev h := hf.prev h
  index {id a'} h := by
    rw [FlatMap.find?_set] at h
    split at h
    case isTrue hid =>
      obtain rfl := Option.some.inj h
      exact ⟨b, ha, hid.symm⟩
    case isFalse => exact hf.index h
  head h := hf.head h

theorem WF.startBlock (hf : f.WF) (b : β) : (f.startBlock b).WF := by
  have hnew : (f.append b none).data? f.items.length = some b := by rw [data?_append, if_pos rfl]
  have happend : (f.append b none).WF := hf.append fun p hp => by cases hp
  exact (happend.setIndex hnew).setHead hnew

/-- What `_push_block` checks, and which item it links the block to. -/
theorem link_ok {prev : Option Nat} : f.link b = .ok prev ↔
    (f.head? = none ∧ prev = none) ∨
    ∃ h, f.head? = some h ∧ blockNum h.2 - f.maxSize < blockNum b ∧
      if previous b = BlockId.zero then prev = none
      else ∃ a, f.index.find? (previous b) = some a ∧ prev = some a := by
  unfold link
  cases f.head? with
  | none =>
      simp only [Except.ok.injEq, true_and, reduceCtorEq, false_and, exists_false, or_false]
      exact eq_comm
  | some h =>
      simp only [except_bind_ok, fcAssert_ok, decide_eq_true_eq, exists_const, reduceCtorEq,
        false_and, false_or, Option.some.injEq, exists_eq_left']
      refine and_congr_right fun _ => ?_
      split
      · exact ⟨fun h => (Except.ok.inj h).symm, fun h => h ▸ rfl⟩
      · cases f.index.find? (previous b) with
        | none => simp
        | some a =>
            simp only [Option.some.injEq, exists_eq_left']
            exact ⟨fun h => (Except.ok.inj h).symm, fun h => h ▸ rfl⟩

/-- What `push_block` does: the block is checked and added, filed if it is new, and becomes the head
if it is the highest. -/
theorem pushBlock_ok : f.pushBlock b = .ok g ↔ ∃ prev, f.link b = .ok prev ∧
    ∃ pushed : ForkDatabase β, pushed = { f.append b prev with
      index := if (f.index.find? (blockId b)).isSome then f.index
        else f.index.set (blockId b) f.items.length } ∧
    g = match f.head? with
      | none => pushed.setHead f.items.length
      | some h => if blockNum h.2 < blockNum b then
          (pushed.setHead f.items.length).prune (blockNum b - f.maxSize) else pushed := by
  unfold pushBlock
  rw [except_bind_ok]
  refine exists_congr fun prev => and_congr_right fun _ => ?_
  simp only [exists_eq_left]
  cases f.head? with
  | none => exact ⟨fun h => (Except.ok.inj h).symm, fun h => h ▸ rfl⟩
  | some h =>
      simp only
      split
      · exact ⟨fun h => (Except.ok.inj h).symm, fun h => h ▸ rfl⟩
      · exact ⟨fun h => (Except.ok.inj h).symm, fun h => h ▸ rfl⟩

/-- The item that a pushed block is linked to is that of its parent. -/
theorem WF.link (hf : f.WF) {prev : Option Nat} (h : f.link b = .ok prev) (p : Nat)
    (hp : prev = some p) : ∃ y, f.data? p = some y ∧ previous b = blockId y := by
  subst hp
  obtain ⟨-, h⟩ | ⟨_, -, -, h⟩ := link_ok.mp h
  · cases h
  · split at h
    · cases h
    · obtain ⟨a, ha, hpa⟩ := h
      obtain rfl := Option.some.inj hpa
      obtain ⟨y, hy, hid⟩ := hf.index ha
      exact ⟨y, hy, hid.symm⟩

theorem WF.pushBlock (hf : f.WF) (h : f.pushBlock b = .ok g) : g.WF := by
  obtain ⟨prev, hlink, pushed, rfl, rfl⟩ := pushBlock_ok.mp h
  have happend : (f.append b prev).WF := hf.append (hf.link hlink)
  have hnew : (f.append b prev).data? f.items.length = some b := by rw [data?_append, if_pos rfl]
  have hpushed : WF { f.append b prev with
      index := if (f.index.find? (blockId b)).isSome then f.index
        else f.index.set (blockId b) f.items.length } := by
    split
    · exact happend
    · exact happend.setIndex hnew
  split
  · exact hpushed.setHead hnew
  · split
    · exact (hpushed.setHead hnew).prune _
    · exact hpushed

/-- The head of the fork database is the block, or a block that is at least as high. -/
theorem head?_pushBlock (h : f.pushBlock b = .ok g) : g.head? =
    match f.head? with
    | none => some (f.items.length, b)
    | some x => if blockNum x.2 < blockNum b then some (f.items.length, b) else some x := by
  obtain ⟨prev, -, pushed, rfl, rfl⟩ := pushBlock_ok.mp h
  have hnew : (f.append b prev).data? f.items.length = some b := by rw [data?_append, if_pos rfl]
  cases hhead : f.head? with
  | none => exact head?_eq_some.mpr ⟨rfl, hnew⟩
  | some x =>
      simp only
      split
      · exact head?_eq_some.mpr ⟨rfl, hnew⟩
      · obtain ⟨hx, hdata⟩ := head?_eq_some.mp hhead
        exact head?_eq_some.mpr ⟨hx, data?_append_of_some hdata⟩

/-! ## Branches -/

omit [ChainBlock β] in
/-- The index keeps the items alive that are filed in it. -/
theorem alive_of_find? {id : BlockId} {a : Nat} (h : f.index.find? id = some a) :
    f.alive held a = true := by
  have hmem : f.index.entries.any (fun e => e.2 == a) = true :=
    List.any_eq_true.mpr ⟨(id, a), FlatMap.mem_entries_iff.mpr h, beq_self_eq_true a⟩
  rw [alive, hmem, Bool.true_or, Bool.true_or]

/-- What walking down to a number finds: a chain of parents, and the item at that number. -/
theorem descend_spec (hf : f.WF) {bound fuel : Nat} {l : List (Nat × β)} {e : Nat × β}
    (hx : f.data? x.1 = some x.2) (h : f.descend bound fuel x = .ok (l, e)) :
    f.data? e.1 = some e.2 ∧ (l ++ [e]).IsChain f.Link ∧ (l ++ [e]).head? = some x ∧
      blockNum e.2 + l.length = blockNum x.2 ∧ blockNum e.2 = min bound (blockNum x.2) ∧
      (f.alive [] x.1 = true → ∀ z ∈ l ++ [e], f.alive [] z.1 = true) := by
  induction fuel generalizing x l with
  | zero => cases h
  | succ fuel ih =>
      unfold descend at h
      split at h
      case isTrue hlt =>
        split at h
        case h_1 => cases h
        case h_2 p hp =>
          obtain ⟨⟨l', e'⟩, hrest, h⟩ := except_bind_ok.mp h
          obtain ⟨rfl, rfl⟩ := Prod.mk.inj (Except.ok.inj h)
          have hlink : f.Link x p := hf.link_of_lockPrev hx hp
          obtain ⟨hdata, hchain, hhead, hlen, hnum, halive⟩ := ih hlink.2.1 hrest
          simp only at hlen hnum
          have hp' := hlink.blockNum
          refine ⟨hdata, ?_, rfl, ?_, ?_, fun hx z hz => ?_⟩
          · show (x :: (l' ++ [e'])).IsChain f.Link
            refine hchain.cons fun y hy => ?_
            rw [hhead] at hy
            obtain rfl := Option.some.inj hy
            exact hlink
          · simp only [List.length_cons]
            omega
          · show blockNum e'.2 = _
            omega
          · rcases List.mem_cons.mp hz with rfl | hz
            · exact hx
            · exact halive (lockPrev_eq_some.mp hp).2.2 z hz
      case isFalse hge =>
        obtain ⟨rfl, rfl⟩ := Prod.mk.inj (Except.ok.inj h)
        refine ⟨hx, List.IsChain.singleton _, rfl, rfl, by omega, fun hx z hz => ?_⟩
        obtain rfl := List.mem_singleton.mp hz
        exact hx

/-- What walking down to two siblings finds: two chains of parents that end on the same block. -/
theorem meet_spec (hf : f.WF) {fuel : Nat} {l r : List (Nat × β)} (hx : f.data? x.1 = some x.2)
    (hy : f.data? y.1 = some y.2) (h : f.meet fuel x y = .ok (l, r)) :
    l.IsChain f.Link ∧ r.IsChain f.Link ∧ l.head? = some x ∧ r.head? = some y ∧
      l.length = r.length ∧ (f.alive [] x.1 = true → ∀ z ∈ l, f.alive [] z.1 = true) ∧
      (f.alive [] y.1 = true → ∀ z ∈ r, f.alive [] z.1 = true) ∧
      ∃ u v, l.getLast? = some u ∧ r.getLast? = some v ∧ previous u.2 = previous v.2 := by
  induction fuel generalizing x y l r with
  | zero => cases h
  | succ fuel ih =>
      unfold meet at h
      split at h
      case isTrue hne =>
        split at h
        case h_1 p q hp hq =>
          obtain ⟨⟨l', r'⟩, hrest, h⟩ := except_bind_ok.mp h
          obtain ⟨rfl, rfl⟩ := Prod.mk.inj (Except.ok.inj h)
          have hlp : f.Link x p := hf.link_of_lockPrev hx hp
          have hlq : f.Link y q := hf.link_of_lockPrev hy hq
          obtain ⟨hl, hr, hlx, hry, hlen, hal, har, u, v, hu, hv, hsame⟩ :=
            ih hlp.2.1 hlq.2.1 hrest
          refine ⟨hl.cons fun z hz => ?_, hr.cons fun z hz => ?_, rfl, rfl, by simp [hlen],
            fun hx z hz => ?_, fun hy z hz => ?_, u, v, ?_, ?_, hsame⟩
          · rw [hlx] at hz
            obtain rfl := Option.some.inj hz
            exact hlp
          · rw [hry] at hz
            obtain rfl := Option.some.inj hz
            exact hlq
          · rcases List.mem_cons.mp hz with rfl | hz
            · exact hx
            · exact hal (lockPrev_eq_some.mp hp).2.2 z hz
          · rcases List.mem_cons.mp hz with rfl | hz
            · exact hy
            · exact har (lockPrev_eq_some.mp hq).2.2 z hz
          · show (x :: l').getLast? = some u
            rw [List.getLast?_cons, hu]
            rfl
          · show (y :: r').getLast? = some v
            rw [List.getLast?_cons, hv]
            rfl
        case h_2 => cases h
      case isFalse heq =>
        obtain ⟨rfl, rfl⟩ := Prod.mk.inj (Except.ok.inj h)
        refine ⟨.singleton _, .singleton _, rfl, rfl, rfl, fun hx z hz => ?_, fun hy z hz => ?_,
          x, y, rfl, rfl, not_not.mp heq⟩
        · obtain rfl := List.mem_singleton.mp hz
          exact hx
        · obtain rfl := List.mem_singleton.mp hz
          exact hy

/-- Two branches of the fork graph down to two siblings. -/
structure Branches (f : ForkDatabase β) (x y : Nat × β) (first second : List (Nat × β)) :
    Prop where
  first_chain : first.IsChain f.Link
  second_chain : second.IsChain f.Link
  first_head : first.head? = some x
  second_head : second.head? = some y
  lengths : blockNum x.2 + second.length = blockNum y.2 + first.length
  siblings : ∃ u v, first.getLast? = some u ∧ second.getLast? = some v ∧
    previous u.2 = previous v.2
  alive : ∀ z ∈ first ++ second, f.alive [] z.1 = true

/-- A walk down to a number, and a walk on from there, make one chain. -/
theorem isChain_append_of_meet {l r : List (Nat × β)} {e : Nat × β}
    (hl : (l ++ [e]).IsChain f.Link) (hr : r.IsChain f.Link) (hhead : r.head? = some e) :
    (l ++ r).IsChain f.Link := by
  rw [List.isChain_append] at hl ⊢
  refine ⟨hl.1, hr, fun a ha b hb => ?_⟩
  rw [hhead] at hb
  exact hl.2.2 a ha b hb

/-- **Branches.** What `fetch_branch_from` returns: two chains of items from the given blocks down
to siblings. -/
theorem fetchBranchFrom_spec (hf : f.WF) {i j : BlockId} {first second : List (Nat × β)}
    (h : f.fetchBranchFrom i j = .ok (first, second)) :
    ∃ x y, f.fetch? i = some x ∧ f.fetch? j = some y ∧ f.Branches x y first second := by
  unfold fetchBranchFrom at h
  split at h
  case h_2 => cases h
  case h_1 x y hx hy =>
  obtain ⟨⟨l1, e1⟩, hup, h⟩ := except_bind_ok.mp h
  obtain ⟨⟨l2, e2⟩, hdown, h⟩ := except_bind_ok.mp h
  obtain ⟨⟨r1, r2⟩, hmeet, h⟩ := except_bind_ok.mp h
  obtain ⟨rfl, rfl⟩ := Prod.mk.inj (Except.ok.inj h)
  have hxd := (fetch?_eq_some.mp hx).2
  have hyd := (fetch?_eq_some.mp hy).2
  have hxa : f.alive [] x.1 = true := alive_of_find? (fetch?_eq_some.mp hx).1
  have hya : f.alive [] y.1 = true := alive_of_find? (fetch?_eq_some.mp hy).1
  obtain ⟨he1, hc1, hh1, hn1, hm1, ha1⟩ := descend_spec hf hxd hup
  obtain ⟨he2, hc2, hh2, hn2, hm2, ha2⟩ := descend_spec hf hyd hdown
  obtain ⟨hr1, hr2, hhr1, hhr2, hlen, har1, har2, u, v, hu, hv, hsame⟩ := meet_spec hf he1 he2 hmeet
  simp only at hn1 hn2 hm1 hm2 hu hv hlen
  refine ⟨x, y, hx, hy, isChain_append_of_meet hc1 hr1 hhr1, isChain_append_of_meet hc2 hr2 hhr2,
    ?_, ?_, ?_, ⟨u, v, ?_, ?_, hsame⟩, fun z hz => ?_⟩
  · cases l1 with
    | nil => exact hhr1.trans hh1
    | cons => exact hh1
  · cases l2 with
    | nil => exact hhr2.trans hh2
    | cons => exact hh2
  · simp only [List.length_append]
    omega
  · rw [List.getLast?_append, hu]
    rfl
  · rw [List.getLast?_append, hv]
    rfl
  · have he1 : f.alive [] e1.1 = true := ha1 hxa e1 (List.mem_append_right _ List.mem_cons_self)
    have he2 : f.alive [] e2.1 = true := ha2 hya e2 (List.mem_append_right _ List.mem_cons_self)
    rcases List.mem_append.mp hz with hz | hz
    · rcases List.mem_append.mp hz with hz | hz
      · exact ha1 hxa z (List.mem_append_left _ hz)
      · exact har1 he1 z hz
    · rcases List.mem_append.mp hz with hz | hz
      · exact ha2 hya z (List.mem_append_left _ hz)
      · exact har2 he2 z hz

end ForkDatabase

end BtcmChain
