import BtcmChain.Fc.Safe

set_option autoImplicit false

/-!
# Undo sessions by snapshots

What the undo database does for those who open sessions, whatever its records look like: every
session remembers the objects as they were when it started; undoing it brings them back, merging
it leaves it to the session below. A change outside of every session opens one for itself.

`Watched` is such a log: the objects, a stack of their former states, how many sessions are active,
and how many records are kept at most. Its operations carry the names of the source and assert what
the source asserts. What all runs of the log have in common is that every active session has its
record (`Recorded`), so undo and merge never reach behind the end of the stack. That the undo
database, with its records of old values, is such a log is shown in `Sound.SnapshotLog`.
-/

namespace BtcmChain

/-- Objects with the sessions on them. The innermost session comes first. -/
structure Watched (σ : Type) where
  objects : σ
  stack : List σ := []
  activeSessions : Nat := 0
  disabled : Bool := false
  maxSize : Nat := 256

namespace Watched

variable {σ : Type}

/-- Change the objects in the innermost session; where there is none, a record is made unless
recording is disabled. -/
def change (w : Watched σ) (s : σ) : Watched σ :=
  { w with
    objects := s
    stack := if w.disabled ∨ w.stack ≠ [] then w.stack else [w.objects] }

/-- `set_max_size`: from now on the stack keeps so many records. -/
def setMaxSize (w : Watched σ) (n : Nat) : Watched σ := { w with maxSize := n }

/-- `enable`: from now on changes are recorded. -/
def enable (w : Watched σ) : Watched σ := { w with disabled := false }

/-- `disable`: from now on changes are not recorded, unless a session is opened by force. -/
def disable (w : Watched σ) : Watched σ := { w with disabled := true }

/-- `start_undo_session`: remember the objects as they are, and drop the oldest record when there
are too many. -/
def startUndoSession (w : Watched σ) (forceEnable : Bool := false) : Watched σ :=
  if w.disabled ∧ forceEnable = false then w
  else { w with
    disabled := false
    stack := w.objects :: w.stack.take w.maxSize
    activeSessions := w.activeSessions + 1 }

/-- `merge`: the innermost session becomes a part of the one around it. -/
def merge (w : Watched σ) : Except Exn (Watched σ) := do
  fcAssert (0 < w.activeSessions) "_active_sessions > 0"
  match w.stack with
  | [_] =>
      if w.activeSessions = 1 then return { w with stack := [], activeSessions := 0 }
      else .error (.assert "_stack.size() >=2")
  | _ :: a :: rest =>
      return { w with stack := a :: rest, activeSessions := w.activeSessions - 1 }
  | [] => .error (.assert "_stack.size() >=2")

/-- `commit`: the innermost session ends, and its record stays for `pop_commit`. -/
def commit (w : Watched σ) : Except Exn (Watched σ) := do
  fcAssert (0 < w.activeSessions) "_active_sessions > 0"
  return { w with activeSessions := w.activeSessions - 1 }

/-- `undo`; without a record the source reads behind the end of its stack. -/
def undo (w : Watched σ) : Except Exn (Watched σ) := do
  fcAssert (!w.disabled) "!_disabled"
  fcAssert (0 < w.activeSessions) "_active_sessions > 0"
  match w.stack with
  | [] => .error .undefined
  | start :: rest =>
      return { w with objects := start, stack := rest, activeSessions := w.activeSessions - 1 }

/-- `pop_commit`: the objects are again as they were when the innermost record was made. -/
def popCommit (w : Watched σ) : Except Exn (Watched σ) := do
  fcAssert (w.activeSessions = 0) "_active_sessions == 0"
  match w.stack with
  | [] => .error (.assert "!_stack.empty()")
  | start :: rest => return { w with objects := start, stack := rest, disabled := false }

/-- The destructor of a session that has not been merged, committed or undone; it catches what
`undo` throws, and leaves it at that. -/
def destroy (w : Watched σ) (disableOnExit : Bool) : Watched σ :=
  match w.undo with
  | .ok w' => if disableOnExit then w'.disable else w'
  | .error _ => w

/-! ## What is true of every log -/

/-- Whatever may happen to it. A session may only be opened while its record and those of the
active ones fit, and only on its own a session is committed. -/
inductive Reached : Watched σ → Prop
  | init (s : σ) (maxSize : Nat) : Reached { objects := s, maxSize }
  | change {w : Watched σ} (s : σ) : Reached w → Reached (w.change s)
  | setMaxSize {w : Watched σ} (n : Nat) : Reached w → Reached (w.setMaxSize n)
  | enable {w : Watched σ} : Reached w → Reached w.enable
  | disable {w : Watched σ} : Reached w → Reached w.disable
  | start {w : Watched σ} (forceEnable : Bool) : Reached w → w.activeSessions ≤ w.maxSize →
      Reached (w.startUndoSession forceEnable)
  | merge {w w' : Watched σ} : Reached w → w.merge = .ok w' → Reached w'
  | commit {w w' : Watched σ} : Reached w → w.commit = .ok w' → Reached w'
  | undo {w w' : Watched σ} : Reached w → w.undo = .ok w' → Reached w'
  | popCommit {w w' : Watched σ} : Reached w → w.popCommit = .ok w' → Reached w'

/-- Every active session has its record on the stack. -/
def Recorded (w : Watched σ) : Prop := w.activeSessions ≤ w.stack.length

variable {w w' : Watched σ}

theorem Recorded.change (h : w.Recorded) (s : σ) : (w.change s).Recorded := by
  unfold Recorded at h
  unfold Watched.change Recorded
  dsimp only
  split
  case isTrue => exact h
  case isFalse hno =>
    have hnil : w.stack = [] := by
      by_contra hne
      exact hno (Or.inr hne)
    rw [hnil, List.length_nil] at h
    omega

theorem Recorded.start (h : w.Recorded) (hmax : w.activeSessions ≤ w.maxSize) (forceEnable : Bool) :
    (w.startUndoSession forceEnable).Recorded := by
  unfold Watched.startUndoSession
  split
  case isTrue => exact h
  case isFalse =>
    unfold Recorded at h ⊢
    simp only [List.length_cons, List.length_take]
    omega

theorem Recorded.merge (h : w.Recorded) (hm : w.merge = .ok w') : w'.Recorded := by
  obtain ⟨⟨⟩, -, hm⟩ := except_bind_ok.mp hm
  unfold Recorded at h ⊢
  split at hm
  case h_1 hstack =>
    split at hm
    case isTrue =>
      obtain rfl := except_pure_ok.mp hm
      exact le_refl _
    case isFalse => cases hm
  case h_2 hstack =>
    obtain rfl := except_pure_ok.mp hm
    rw [hstack, List.length_cons] at h
    dsimp only
    omega
  case h_3 => cases hm

theorem Recorded.undo (h : w.Recorded) (hu : w.undo = .ok w') : w'.Recorded := by
  obtain ⟨⟨⟩, -, hu⟩ := except_bind_ok.mp hu
  obtain ⟨⟨⟩, -, hu⟩ := except_bind_ok.mp hu
  unfold Recorded at h ⊢
  split at hu
  case h_1 => cases hu
  case h_2 hstack =>
    obtain rfl := except_pure_ok.mp hu
    rw [hstack, List.length_cons] at h
    dsimp only
    omega

/-- **No active session has lost its record**, whatever was called and however the stack was
bounded. -/
theorem Reached.recorded (h : w.Reached) : w.Recorded := by
  induction h with
  | init => exact le_refl _
  | change s _ ih => exact ih.change s
  | setMaxSize n _ ih => exact ih
  | enable _ ih => exact ih
  | disable _ ih => exact ih
  | start force _ hmax ih => exact ih.start hmax force
  | merge _ hm ih => exact ih.merge hm
  | commit _ hc ih =>
      obtain ⟨⟨⟩, -, hc⟩ := except_bind_ok.mp hc
      obtain rfl := except_pure_ok.mp hc
      exact (Nat.sub_le _ _).trans ih
  | undo _ hu ih => exact ih.undo hu
  | popCommit _ hp ih =>
      obtain ⟨⟨⟩, hzero, hp⟩ := except_bind_ok.mp hp
      rw [fcAssert_ok, decide_eq_true_eq] at hzero
      split at hp
      case h_1 => cases hp
      case h_2 =>
        obtain rfl := except_pure_ok.mp hp
        unfold Recorded
        dsimp only
        omega

/-! ## The end of a session -/

variable {start : σ} {rest : List σ}

/-- Undoing a session whose record is there brings its objects back. -/
theorem undo_eq (hdisabled : w.disabled = false) (hactive : 0 < w.activeSessions)
    (hstack : w.stack = start :: rest) :
    w.undo = .ok { w with objects := start, stack := rest, activeSessions := w.activeSessions - 1 } := by
  rw [undo, except_bind_ok]
  refine ⟨(), by rw [fcAssert_ok, hdisabled]; rfl, ?_⟩
  rw [except_bind_ok]
  refine ⟨(), by simpa using hactive, ?_⟩
  rw [hstack]
  rfl

/-- Merging a session drops nothing but its own record: the objects and all other records stay. -/
theorem merge_eq (h : w.Recorded) (hactive : 0 < w.activeSessions) (hstack : w.stack = start :: rest) :
    w.merge = .ok { w with stack := rest, activeSessions := w.activeSessions - 1 } := by
  rw [merge, except_bind_ok]
  refine ⟨(), by simpa using hactive, ?_⟩
  rw [hstack]
  cases rest with
  | nil =>
      unfold Recorded at h
      rw [hstack, List.length_singleton] at h
      have hone : w.activeSessions = 1 := by omega
      simp only [hone, if_true]
      rfl
  | cons a rest => rfl

/-- With the log on, a session starts with a record of its own. -/
theorem startUndoSession_eq (h : w.disabled = false) : w.startUndoSession =
    { w with stack := w.objects :: w.stack.take w.maxSize, activeSessions := w.activeSessions + 1 } := by
  simp [startUndoSession, h]

/-- A session that ends without being merged brings its record back. -/
theorem destroy_objects (hdisabled : w.disabled = false) (hactive : 0 < w.activeSessions)
    (hstack : ∃ rest, w.stack = start :: rest) :
    (w.destroy false).objects = start ∧ (w.destroy false).disabled = false := by
  obtain ⟨rest, hstack⟩ := hstack
  rw [destroy, undo_eq hdisabled hactive hstack]
  exact ⟨rfl, hdisabled⟩

/-- What was changed in a session is taken back when it ends without being merged. -/
theorem destroy_change (h : w.disabled = false) (s : σ) :
    ((w.startUndoSession.change s).destroy false).objects = w.objects ∧
      ((w.startUndoSession.change s).destroy false).disabled = false := by
  rw [startUndoSession_eq h]
  exact destroy_objects h (Nat.succ_pos _) ⟨w.stack.take w.maxSize, by simp [Watched.change]⟩

theorem merge_objects (hm : w.merge = .ok w') : w'.objects = w.objects ∧ w'.disabled = w.disabled := by
  obtain ⟨⟨⟩, -, hm⟩ := except_bind_ok.mp hm
  split at hm
  case h_1 =>
    split at hm
    case isTrue =>
      obtain rfl := except_pure_ok.mp hm
      exact ⟨rfl, rfl⟩
    case isFalse => cases hm
  case h_2 =>
    obtain rfl := except_pure_ok.mp hm
    exact ⟨rfl, rfl⟩
  case h_3 => cases hm

end Watched

end BtcmChain
