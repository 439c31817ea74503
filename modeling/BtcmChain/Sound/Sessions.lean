import BtcmChain.Sound.Merge

set_option autoImplicit false

/-!
# Nested sessions

The undo database as a stack of snapshots. `Nested d active committed` follows a run and
remembers, for every session that is open and every committed one whose record is still
kept, the store it started with. Whatever the run, the records on the stack lead from each
of these stores to the next (`Lineage`), so undoing the innermost session brings back the
store it started with, and popping a commit the one its session started with.

Two things the source leaves to its callers. A session that starts while more than
`max_size` others are open loses the record of the oldest; and committing a session inside
another leaves its record on top of the other's. Runs that do either are not followed.
-/

namespace BtcmChain

variable {α : Type} [UniqueKeys α]

/-! ## Records and snapshots -/

/-- The records lead from store to store, the last one to the store at hand. -/
def Lineage : List (UndoState α) → List (Store α) → Store α → Prop
  | [], [], s => s.WF
  | u :: us, start :: starts, s => u.Describes start s ∧ s.WF ∧ Lineage us starts start
  | _, _, _ => False

variable {us : List (UndoState α)} {starts : List (Store α)} {s : Store α}

theorem Lineage.wf (h : Lineage us starts s) : s.WF := by
  cases us with
  | nil =>
      cases starts with
      | nil => exact h
      | cons => exact h.elim
  | cons u us =>
      cases starts with
      | nil => exact h.elim
      | cons => exact h.2.1

theorem Lineage.length_eq (h : Lineage us starts s) : us.length = starts.length := by
  induction us generalizing starts s with
  | nil =>
      cases starts with
      | nil => rfl
      | cons => exact h.elim
  | cons u us ih =>
      cases starts with
      | nil => exact h.elim
      | cons start starts => exact congrArg (· + 1) (ih h.2.2)

/-- Forgetting the oldest records leaves a lineage of the others. -/
theorem Lineage.take (h : Lineage us starts s) (n : Nat) :
    Lineage (us.take n) (starts.take n) s := by
  induction us generalizing starts s n with
  | nil =>
      cases starts with
      | nil => simpa using h
      | cons => exact h.elim
  | cons u us ih =>
      cases starts with
      | nil => exact h.elim
      | cons start starts =>
          cases n with
          | zero => exact h.2.1
          | succ n => exact ⟨h.1, h.2.1, ih h.2.2 n⟩

/-! ## Runs -/

/-- Runs of the undo database, with the starts of the open sessions and of the committed
ones, the latest first. A change outside all sessions opens one of its own. -/
inductive Nested : UndoDatabase α → List (Store α) → List (Store α) → Prop
  | init {d} : d.store.WF → d.disabled = false → d.stack = [] → d.activeSessions = 0 →
      Nested d [] []
  | change {d d' active committed c} : Nested d active committed → d.change c = .ok d' →
      Nested d' active (if d.stack = [] then [d.store] else committed)
  | setMaxSize {d active committed} (n : Nat) : Nested d active committed →
      Nested (d.setMaxSize n) active committed
  | start {d active committed} : Nested d active committed → d.activeSessions ≤ d.maxSize →
      Nested d.startUndoSession (d.store :: active) (committed.take (d.maxSize - active.length))
  | undo {d d' start active committed h} : Nested d (start :: active) committed →
      d.undo h = .ok d' → Nested d' active committed
  | merge {d d' start active committed h} : Nested d (start :: active) committed →
      d.merge h = .ok d' → Nested d' active committed
  | commit {d d' start committed} : Nested d [start] committed → d.commit = .ok d' →
      Nested d' [] (start :: committed)
  | popCommit {d d' start committed h} : Nested d [] (start :: committed) →
      d.popCommit h = .ok d' → Nested d' [] committed

/-- The index accepts what the innermost record puts back. -/
def UndoDatabase.Accepts (d : UndoDatabase α) : Prop := ∀ u ∈ d.stack.head?, u.Accepts d.store

/-- What a run keeps true of a database: it is enabled, and its records describe the sessions from
their starts on. -/
structure Aligned (d : UndoDatabase α) (active committed : List (Store α)) : Prop where
  enabled : d.disabled = false
  count : d.activeSessions = active.length
  lineage : Lineage d.stack (active ++ committed) d.store

variable {d d' : UndoDatabase α} {start : Store α} {active committed rest : List (Store α)}
  {h : HashOrder}

/-- With a session to go back to, there is a record of it on the stack. -/
theorem Lineage.cons_inv (hl : Lineage us (start :: rest) s) :
    ∃ u us', us = u :: us' ∧ u.Describes start s ∧ s.WF ∧ Lineage us' rest start := by
  cases us with
  | nil => exact hl.elim
  | cons u us' => exact ⟨u, us', rfl, hl⟩

/-- A rollback that goes through is exact: the objects are those at the start of the session. -/
theorem rollbackState_ok (hl : Lineage d.stack (start :: rest) d.store)
    (hr : d.rollbackState h = .ok d') :
    d'.store = start ∧ Lineage d'.stack rest start ∧ d'.activeSessions = d.activeSessions ∧
      d'.disabled = d.disabled := by
  obtain ⟨u, us, hstack, hd, hwf, hrest⟩ := hl.cons_inv
  rw [UndoDatabase.rollbackState, hstack] at hr
  obtain ⟨store, hroll, hd'⟩ := except_bind_ok.mp hr
  obtain rfl := except_pure_ok.mp hd'
  obtain rfl := eq_start_of_rollback hd hrest.wf hroll
  exact ⟨rfl, hrest, rfl, rfl⟩

/-- A rollback goes through if the index accepts the old values. -/
theorem exists_rollbackState (hl : Lineage d.stack (start :: rest) d.store) (hacc : d.Accepts)
    (h : HashOrder) : ∃ d', d.rollbackState h = .ok d' ∧ d'.store = start := by
  obtain ⟨u, us, hstack, hd, hwf, hrest⟩ := hl.cons_inv
  have hroll := rollback_eq_start (h := h) hd hrest.wf (hacc u (by simp [hstack]))
  refine ⟨{ d with store := start, stack := us }, ?_, rfl⟩
  rw [UndoDatabase.rollbackState, hstack, except_bind_ok]
  exact ⟨start, hroll, rfl⟩

/-! ## Each step keeps records and snapshots together -/

theorem Aligned.change {c : UndoDatabase.Change α} (ha : Aligned d active committed)
    (hc : d.change c = .ok d') :
    Aligned d' active (if d.stack = [] then [d.store] else committed) := by
  cases hstack : d.stack with
  | nil =>
      -- nothing to go back to yet: the change is the first of a session of its own
      have hlen := ha.lineage.length_eq
      rw [hstack, List.length_append, List.length_nil] at hlen
      have hactive : active = [] := List.length_eq_zero_iff.mp (by omega)
      obtain ⟨u, hs, hu, hwf, hen, hact, -⟩ := change_describes ha.enabled
        (by rw [hstack]; exact describes_empty _) ha.lineage.wf ha.lineage.wf hc
      refine ⟨hen, hact.trans ha.count, ?_⟩
      rw [hs, hstack, hactive]
      exact ⟨hu, hwf, ha.lineage.wf⟩
  | cons u us =>
      have hl := ha.lineage
      rw [hstack] at hl
      rw [if_neg (List.cons_ne_nil u us)]
      generalize hall : active ++ committed = starts at hl
      cases starts with
      | nil => exact hl.elim
      | cons start starts =>
          obtain ⟨u', hs, hu, hwf, hen, hact, -⟩ := change_describes ha.enabled
            (by rw [hstack]; exact hl.1) hl.2.2.wf hl.2.1 hc
          refine ⟨hen, hact.trans ha.count, ?_⟩
          rw [hs, hall, hstack]
          exact ⟨hu, hwf, hl.2.2⟩

theorem Aligned.startSession (ha : Aligned d active committed) (hmax : d.activeSessions ≤ d.maxSize) :
    Aligned d.startUndoSession (d.store :: active)
      (committed.take (d.maxSize - active.length)) := by
  have hopened : d.startUndoSession = { d with
      disabled := false
      stack := {} :: d.stack.take d.maxSize
      activeSessions := d.activeSessions + 1 } := by
    simp [UndoDatabase.startUndoSession, ha.enabled]
  have hlen : active.length ≤ d.maxSize := ha.count ▸ hmax
  have htake := ha.lineage.take d.maxSize
  rw [List.take_append, List.take_of_length_le hlen] at htake
  rw [hopened]
  refine ⟨rfl, ?_, describes_empty _, ha.lineage.wf, htake⟩
  show d.activeSessions + 1 = (d.store :: active).length
  rw [ha.count, List.length_cons]

theorem Aligned.undo (ha : Aligned d (start :: active) committed) (hd : d.undo h = .ok d') :
    d'.store = start ∧ Aligned d' active committed := by
  simp only [UndoDatabase.undo, except_bind_ok, fcAssert_ok, except_pure_ok] at hd
  obtain ⟨_, -, _, -, d1, hr, rfl⟩ := hd
  obtain ⟨hstore, hl, hact, hen⟩ := rollbackState_ok ha.lineage hr
  have hcount := ha.count
  rw [List.length_cons] at hcount
  exact ⟨hstore, hen.trans ha.enabled, by dsimp only; omega, hstore ▸ hl⟩

theorem Aligned.popCommit (ha : Aligned d [] (start :: committed)) (hd : d.popCommit h = .ok d') :
    d'.store = start ∧ Aligned d' [] committed := by
  simp only [UndoDatabase.popCommit, except_bind_ok, fcAssert_ok, except_pure_ok] at hd
  obtain ⟨_, -, _, -, d1, hr, rfl⟩ := hd
  obtain ⟨hstore, hl, hact, -⟩ := rollbackState_ok ha.lineage hr
  exact ⟨hstore, rfl, hact.trans ha.count, hstore ▸ hl⟩

theorem Aligned.merge (ha : Aligned d (start :: active) committed) (hd : d.merge h = .ok d') :
    Aligned d' active committed := by
  have hcount := ha.count
  rw [List.length_cons] at hcount
  obtain ⟨_, -, hd⟩ := except_bind_ok.mp hd
  obtain ⟨b, us, hstack, hb, hwf, hrest⟩ := ha.lineage.cons_inv
  replace hrest : Lineage us (active ++ committed) start := hrest
  rw [hstack] at hd
  cases us with
  | nil =>
      -- the only record: its changes become final
      simp only at hd
      split at hd
      case isFalse => cases hd
      case isTrue hone =>
        obtain rfl := except_pure_ok.mp hd
        generalize hall : active ++ committed = starts at hrest
        cases starts with
        | cons => exact hrest.elim
        | nil =>
            obtain ⟨rfl, rfl⟩ := List.append_eq_nil_iff.mp hall
            exact ⟨ha.enabled, rfl, hwf⟩
  | cons a us =>
      obtain rfl := except_pure_ok.mp hd
      refine ⟨ha.enabled, by dsimp only; omega, ?_⟩
      generalize active ++ committed = starts at hrest
      cases starts with
      | nil => exact hrest.elim
      | cons start' starts =>
          exact ⟨hrest.1.merge hb hrest.2.2.wf h, hwf, hrest.2.2⟩

theorem Aligned.commit (ha : Aligned d [start] committed) (hd : d.commit = .ok d') :
    Aligned d' [] (start :: committed) := by
  obtain ⟨_, -, hd⟩ := except_bind_ok.mp hd
  obtain rfl := except_pure_ok.mp hd
  have hcount := ha.count
  rw [List.length_singleton] at hcount
  exact ⟨ha.enabled, by dsimp only; rw [hcount]; rfl, ha.lineage⟩

theorem Nested.aligned (hn : Nested d active committed) : Aligned d active committed := by
  induction hn with
  | init hwf hen hstack hact =>
      refine ⟨hen, hact, ?_⟩
      rw [hstack]
      exact hwf
  | change _ hc ih => exact ih.change hc
  | setMaxSize n _ ih => exact ⟨ih.enabled, ih.count, ih.lineage⟩
  | start _ hmax ih => exact ih.startSession hmax
  | undo _ hd ih => exact (ih.undo hd).2
  | merge _ hd ih => exact ih.merge hd
  | commit _ hd ih => exact ih.commit hd
  | popCommit _ hd ih => exact (ih.popCommit hd).2

/-! ## Undo is exact -/

/-- Undoing the innermost session brings back the store it started with, and with no
session open `pop_commit` the one the last committed session started with. -/
theorem undo_restores_start (hn : Nested d active committed) (hacc : d.Accepts) (h : HashOrder) :
    (∀ start ∈ active.head?, ∃ d', d.undo h = .ok d' ∧ d'.store = start) ∧
      (active = [] → ∀ start ∈ committed.head?, ∃ d', d.popCommit h = .ok d' ∧ d'.store = start) := by
  have ha := hn.aligned
  constructor
  · intro start hstart
    obtain ⟨active', rfl⟩ := List.head?_eq_some_iff.mp hstart
    obtain ⟨d1, hr, hstore⟩ := exists_rollbackState ha.lineage hacc h
    have hcount := ha.count
    rw [List.length_cons] at hcount
    refine ⟨{ d1 with activeSessions := d1.activeSessions - 1 }, ?_, hstore⟩
    simp only [UndoDatabase.undo, except_bind_ok, fcAssert_ok, except_pure_ok]
    exact ⟨(), by simp [ha.enabled], (), by simp [hcount], d1, hr, rfl⟩
  · rintro rfl start hstart
    obtain ⟨committed', rfl⟩ := List.head?_eq_some_iff.mp hstart
    obtain ⟨d1, hr, hstore⟩ := exists_rollbackState ha.lineage hacc h
    obtain ⟨u, us, hstack, -⟩ := ha.lineage.cons_inv
    refine ⟨{ d1 with disabled := false }, ?_, hstore⟩
    simp only [UndoDatabase.popCommit, except_bind_ok, fcAssert_ok, except_pure_ok]
    exact ⟨(), by simp [ha.count], (), by simp [hstack], d1, hr, rfl⟩

section Samples

open UndoDatabase Sample

/-- `n` sessions opened one inside the other, with no change in any of them. -/
def openSessions (d : UndoDatabase Nat) : Nat → UndoDatabase Nat
  | 0 => d
  | n + 1 => (openSessions d n).startUndoSession

/-- Undo the `n` innermost sessions, one after the other. -/
def undoSessions : Nat → UndoDatabase Nat → Except Exn (UndoDatabase Nat)
  | 0, d => .ok d
  | n + 1, d => d.undo .forward >>= undoSessions n

/-- With the history the chain starts with, twelve nested sessions are one too many: eleven
can be undone, and the first one has lost its record. And a session committed inside another
is undone in place of the other. -/
theorem deep_or_inner_commit_not_undone :
    (∃ d1 d2, UndoDatabase.change (startUndoSession { store := twoNumbers, maxSize := 10 })
          (.modify ⟨0, 0⟩ 30) = .ok d1 ∧
        undoSessions 11 (openSessions d1 11) = .ok d2 ∧ d2.activeSessions = 1 ∧
        d2.undo .forward = .error .undefined) ∧
      ∃ d1 d2 d3, UndoDatabase.change (startUndoSession { store := twoNumbers })
          (.modify ⟨0, 0⟩ 30) = .ok d1 ∧
        d1.startUndoSession.commit = .ok d2 ∧ d2.activeSessions = 1 ∧ d2.undo .forward = .ok d3 ∧
        d3.store.find? ⟨0, 0⟩ = some 30 := by
  refine ⟨⟨_, _, rfl, rfl, ?_, ?_⟩, ⟨_, _, _, rfl, rfl, ?_, rfl, ?_⟩⟩
  · decide +kernel
  · rfl
  · decide +kernel
  · decide +kernel

/-- A removal is undone: the object is there again, with its value. -/
theorem removal_undone :
    ∃ d1 : UndoDatabase Nat, Nested d1 [twoNumbers] [] ∧ d1.store.find? ⟨0, 1⟩ = none ∧
      ∀ h, ∃ d', d1.undo h = .ok d' ∧ d'.store = twoNumbers := by
  obtain ⟨d1, hc, hold, hgone⟩ : ∃ d1, UndoDatabase.change
      (startUndoSession { store := twoNumbers }) (.remove ⟨0, 1⟩) = .ok d1 ∧
        d1.stack.map UndoState.oldValues = [FlatMap.empty] ∧ d1.store.find? ⟨0, 1⟩ = none :=
    ⟨_, rfl, rfl, rfl⟩
  have hinit : Nested { store := twoNumbers } [] [] := .init twoNumbers_wf rfl rfl rfl
  have hn : Nested d1 [twoNumbers] [] := (hinit.start (by decide)).change hc
  have hacc : d1.Accepts := by
    intro u hu id old hfind
    have hmem : u.oldValues ∈ d1.stack.map UndoState.oldValues :=
      List.mem_map_of_mem (List.mem_of_mem_head? hu)
    rw [hold, List.mem_singleton] at hmem
    rw [hmem] at hfind
    cases hfind
  exact ⟨d1, hn, hgone, fun h => (undo_restores_start hn hacc h).1 twoNumbers rfl⟩

end Samples

end BtcmChain
