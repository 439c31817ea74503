import BtcmChain.Sound.Sessions
import BtcmChain.Db.SnapshotLog

set_option autoImplicit false

/-!
# The undo database keeps snapshots

Seen through the starts of its sessions, the undo database is the log of snapshots that
`Db.SnapshotLog` describes: every step of a run is the step of the same name there.

The view of an undo database is its objects, the starts of the sessions on its stack, active and
committed, and how many are active. `view_start`, `view_change`, `view_undo`, `view_merge`,
`view_commit` and `view_popCommit` are the steps; since the conditions of the source hold in every
state that a run of nested sessions reaches (`Nested`), such a run is a run of the log
(`Nested.reached`). `Chain.PushBlock` and `Chain.ProposalSessions` use the log in place of the
records.
-/

namespace BtcmChain

variable {α : Type} [UniqueKeys α] {d d' : UndoDatabase α} {start : Store α}
  {active committed : List (Store α)} {h : HashOrder}

/-- An undo database seen by the starts of its sessions: a log of snapshots. -/
def UndoDatabase.view (d : UndoDatabase α) (active committed : List (Store α)) :
    Watched (Store α) where
  objects := d.store
  stack := active ++ committed
  activeSessions := active.length
  disabled := d.disabled
  maxSize := d.maxSize

theorem change_maxSize {c : UndoDatabase.Change α} (hc : d.change c = .ok d') :
    d'.maxSize = d.maxSize := by
  have hrecord : ∀ f, (d.record f).maxSize = d.maxSize := by
    intro f
    unfold UndoDatabase.record
    split <;> rfl
  cases c with
  | create index v =>
      obtain ⟨s, -, hd⟩ := except_bind_ok.mp hc
      obtain rfl := except_pure_ok.mp hd
      exact hrecord _
  | modify id v =>
      obtain ⟨s, -, hd⟩ := except_bind_ok.mp hc
      obtain rfl := except_pure_ok.mp hd
      exact hrecord _
  | remove id =>
      obtain ⟨s, -, hd⟩ := except_bind_ok.mp hc
      obtain rfl := except_pure_ok.mp hd
      exact hrecord _

theorem rollbackState_maxSize (hr : d.rollbackState h = .ok d') : d'.maxSize = d.maxSize := by
  unfold UndoDatabase.rollbackState at hr
  split at hr
  · cases hr
  · obtain ⟨s, -, hd⟩ := except_bind_ok.mp hr
    obtain rfl := except_pure_ok.mp hd
    rfl

theorem view_change {c : UndoDatabase.Change α} (ha : Aligned d active committed)
    (hc : d.change c = .ok d') :
    d'.view active (if d.stack = [] then [d.store] else committed) =
      (d.view active committed).change d'.store := by
  have hlen := ha.lineage.length_eq
  have hen := (ha.change hc).enabled
  simp only [UndoDatabase.view, Watched.change, hen, ha.enabled, change_maxSize hc]
  cases hstack : d.stack with
  | nil =>
      rw [hstack, List.length_append, List.length_nil] at hlen
      obtain rfl := List.eq_nil_of_length_eq_zero (show active.length = 0 by omega)
      obtain rfl := List.eq_nil_of_length_eq_zero (show committed.length = 0 by omega)
      rfl
  | cons u us =>
      have hne : active ++ committed ≠ [] := by
        intro hnil
        rw [hstack, hnil] at hlen
        cases hlen
      rw [if_neg (List.cons_ne_nil u us), if_pos (Or.inr hne)]

theorem view_start (ha : Aligned d active committed) (hmax : d.activeSessions ≤ d.maxSize)
    (forceEnable : Bool) :
    (d.startUndoSession).view (d.store :: active) (committed.take (d.maxSize - active.length)) =
      (d.view active committed).startUndoSession forceEnable := by
  have hlen : active.length ≤ d.maxSize := ha.count ▸ hmax
  simp [UndoDatabase.view, UndoDatabase.startUndoSession, Watched.startUndoSession, ha.enabled,
    List.take_append, List.take_of_length_le hlen]

theorem view_undo (ha : Aligned d (start :: active) committed) (hd : d.undo h = .ok d') :
    (d.view (start :: active) committed).undo = .ok (d'.view active committed) := by
  obtain ⟨hstore, ha'⟩ := ha.undo hd
  have hmax : d'.maxSize = d.maxSize := by
    simp only [UndoDatabase.undo, except_bind_ok, except_pure_ok] at hd
    obtain ⟨_, -, _, -, d1, hr, rfl⟩ := hd
    exact (rollbackState_maxSize hr :)
  rw [Watched.undo_eq ha.enabled (Nat.succ_pos _) rfl]
  simp only [UndoDatabase.view, hstore, hmax, ha'.enabled, ha.enabled, List.length_cons,
    Nat.add_sub_cancel]
  rfl

theorem view_merge (ha : Aligned d (start :: active) committed) (hd : d.merge h = .ok d') :
    (d.view (start :: active) committed).merge = .ok (d'.view active committed) := by
  have ha' := ha.merge hd
  have hsame : d'.store = d.store ∧ d'.maxSize = d.maxSize := by
    obtain ⟨_, -, hd⟩ := except_bind_ok.mp hd
    split at hd
    · split at hd
      · obtain rfl := except_pure_ok.mp hd
        exact ⟨rfl, rfl⟩
      · cases hd
    · obtain rfl := except_pure_ok.mp hd
      exact ⟨rfl, rfl⟩
    · cases hd
  have hrecorded : (d.view (start :: active) committed).Recorded := by
    unfold Watched.Recorded UndoDatabase.view
    simp
  rw [Watched.merge_eq hrecorded (Nat.succ_pos _) rfl]
  simp only [UndoDatabase.view, hsame.1, hsame.2, ha'.enabled, ha.enabled, List.length_cons,
    Nat.add_sub_cancel]
  rfl

omit [UniqueKeys α] in
theorem view_commit (hd : d.commit = .ok d') :
    (d.view [start] committed).commit = .ok (d'.view [] (start :: committed)) := by
  obtain ⟨_, -, hd⟩ := except_bind_ok.mp hd
  obtain rfl := except_pure_ok.mp hd
  rfl

theorem view_popCommit (ha : Aligned d [] (start :: committed)) (hd : d.popCommit h = .ok d') :
    (d.view [] (start :: committed)).popCommit = .ok (d'.view [] committed) := by
  obtain ⟨hstore, ha'⟩ := ha.popCommit hd
  have hmax : d'.maxSize = d.maxSize := by
    simp only [UndoDatabase.popCommit, except_bind_ok, except_pure_ok] at hd
    obtain ⟨_, -, _, -, d1, hr, rfl⟩ := hd
    exact (rollbackState_maxSize hr :)
  simp only [UndoDatabase.view, hstore, hmax, ha'.enabled]
  rfl

/-- **The undo database refines the log of snapshots**: what a run leads to is a state that the log
can reach. -/
theorem Nested.reached (hn : Nested d active committed) : (d.view active committed).Reached := by
  induction hn with
  | @init d hwf hen hstack hact =>
      have hinit : d.view [] [] = ⟨d.store, [], 0, false, d.maxSize⟩ := by
        simp [UndoDatabase.view, hen]
      rw [hinit]
      exact .init d.store d.maxSize
  | change hn hc ih =>
      rw [view_change hn.aligned hc]
      exact .change _ ih
  | setMaxSize n _ ih => exact .setMaxSize n ih
  | start hn hmax ih =>
      rw [view_start hn.aligned hmax false]
      refine .start false ih ?_
      have hcount := hn.aligned.count
      show _ ≤ _
      rw [hcount] at hmax
      exact hmax
  | undo hn hd ih => exact .undo ih (view_undo hn.aligned hd)
  | merge hn hd ih => exact .merge ih (view_merge hn.aligned hd)
  | commit hn hd ih => exact .commit ih (view_commit hd)
  | popCommit hn hd ih => exact .popCommit ih (view_popCommit hn.aligned hd)

end BtcmChain
