import BtcmChain.Db.Store
import Mathlib.Data.List.Rotate

set_option autoImplicit false

/-!
# The undo database

Every session keeps a record of what changed since it started: the old value of each
object it modified or removed, the ids it created, and the next number of each index
it created in. `rollback` puts all of this back; `merge` folds the record of the
innermost session into the one below it.

The source keeps the records in hash maps and iterates over them in whatever order
these have; a `HashOrder` stands for that order.
-/

namespace BtcmChain

/-- The order in which a hash map is iterated: some permutation of its entries, of which nothing
else is known. -/
structure HashOrder where
  order : {β : Type} → List β → List β
  perm : ∀ {β : Type} (l : List β), (order l).Perm l

/-- The hash map that is iterated in the order of insertion. -/
def HashOrder.forward : HashOrder := ⟨fun l => l, fun l => .refl l⟩

/-- The order that starts with the entry at position `k`. -/
def HashOrder.startAt (k : Nat) : HashOrder := ⟨fun l => l.rotate k, fun l => l.rotate_perm k⟩

/-- `undo_state`: the old values of what was changed, the next numbers as they were, what is new,
and what was removed. -/
structure UndoState (α : Type) where
  oldValues : FlatMap ObjectId α := .empty
  oldIndexNextIds : FlatMap Nat Nat := .empty
  newIds : FlatMap ObjectId Unit := .empty
  removed : FlatMap ObjectId α := .empty

namespace UndoState

variable {α : Type}

/-- `on_create`: the id of the first object created in an index is its old next id. -/
def onCreate (u : UndoState α) (id : ObjectId) : UndoState α :=
  { u with
    oldIndexNextIds :=
      if (u.oldIndexNextIds.find? id.index).isSome then u.oldIndexNextIds
      else u.oldIndexNextIds.set id.index id.number
    newIds := u.newIds.set id () }

/-- `on_modify`: only the first old value counts, and only of an object that is not new. -/
def onModify (u : UndoState α) (id : ObjectId) (v : α) : UndoState α :=
  if (u.newIds.find? id).isSome then u
  else if (u.oldValues.find? id).isSome then u
  else { u with oldValues := u.oldValues.set id v }

/-- `on_remove`: a new object is forgotten, a modified one is removed with the value it
had first. -/
def onRemove (u : UndoState α) (id : ObjectId) (v : α) : UndoState α :=
  if (u.newIds.find? id).isSome then { u with newIds := u.newIds.erase id }
  else
    match u.oldValues.find? id with
    | some old =>
        { u with removed := u.removed.set id old, oldValues := u.oldValues.erase id }
    | none =>
        if (u.removed.find? id).isSome then u else { u with removed := u.removed.set id v }

/-- One step of the pass of `merge` over changed objects: an old value is taken over unless the
outer record already knows more. -/
def mergeOld (a : UndoState α) (e : ObjectId × α) : UndoState α :=
  if (a.newIds.find? e.1).isSome then a
  else if (a.oldValues.find? e.1).isSome then a
  else { a with oldValues := a.oldValues.set e.1 e.2 }

/-- One step of the pass of `merge` over created objects: what is new in the inner session is new in
the outer one. -/
def mergeNew (a : UndoState α) (e : ObjectId × Unit) : UndoState α :=
  { a with newIds := a.newIds.set e.1 () }

/-- One step of the pass of `merge` over the next numbers: the older number is kept. -/
def mergeNextId (a : UndoState α) (e : Nat × Nat) : UndoState α :=
  if (a.oldIndexNextIds.find? e.1).isSome then a
  else { a with oldIndexNextIds := a.oldIndexNextIds.set e.1 e.2 }

/-- One step of the pass of `merge` over removed objects, which depends on what the outer record
says of the object. -/
def mergeRemoved (a : UndoState α) (e : ObjectId × α) : UndoState α :=
  if (a.newIds.find? e.1).isSome then { a with newIds := a.newIds.erase e.1 }
  else
    match a.oldValues.find? e.1 with
    | some old =>
        { a with removed := a.removed.set e.1 old, oldValues := a.oldValues.erase e.1 }
    | none => { a with removed := a.removed.set e.1 e.2 }

/-- The body of `merge`: the four passes that fold `b` into `a`. -/
def merge (h : HashOrder) (a b : UndoState α) : UndoState α :=
  (h.order b.removed.entries).foldl mergeRemoved
    ((h.order b.oldIndexNextIds.entries).foldl mergeNextId
      ((h.order b.newIds.entries).foldl mergeNew
        ((h.order b.oldValues.entries).foldl mergeOld a)))

variable [UniqueKeys α]

/-- `rollback_state`: restore what was modified, remove what is new, reset the next ids,
re-insert what was removed. -/
def rollback (h : HashOrder) (u : UndoState α) (s : Store α) : Except Exn (Store α) := do
  let s ← (h.order u.oldValues.entries).foldlM (fun s e => s.modify e.1 e.2) s
  let s ← (h.order u.newIds.entries).foldlM (fun s e => s.remove e.1) s
  let s := (h.order u.oldIndexNextIds.entries).foldl (fun s e => s.setNextId e.1 e.2) s
  (h.order u.removed.entries).foldlM (fun s e => s.insert e.1 e.2) s

end UndoState

/-- `undo_database` with the objects it watches over. The innermost session comes first. -/
structure UndoDatabase (α : Type) where
  store : Store α := {}
  stack : List (UndoState α) := []
  activeSessions : Nat := 0
  disabled : Bool := false
  maxSize : Nat := 256

namespace UndoDatabase

variable {α : Type}

/-- Note a change in the innermost session; without any session one is opened for it. -/
def record (d : UndoDatabase α) (f : UndoState α → UndoState α) : UndoDatabase α :=
  if d.disabled then d else { d with stack := f (d.stack.headD {}) :: d.stack.tail }

/-- `set_max_size`: from now on the stack keeps so many records. -/
def setMaxSize (d : UndoDatabase α) (n : Nat) : UndoDatabase α := { d with maxSize := n }

/-- `start_undo_session`: the oldest records are dropped beyond the maximal size. -/
def startUndoSession (d : UndoDatabase α) (forceEnable : Bool := false) : UndoDatabase α :=
  if d.disabled ∧ forceEnable = false then d
  else { d with
    disabled := false
    stack := {} :: d.stack.take d.maxSize
    activeSessions := d.activeSessions + 1 }

/-- `merge`: the innermost record is taken into the one below it, in the order in which the hash
maps are iterated. -/
def merge (h : HashOrder) (d : UndoDatabase α) : Except Exn (UndoDatabase α) := do
  fcAssert (0 < d.activeSessions) "_active_sessions > 0"
  match d.stack with
  | [_] =>
      if d.activeSessions = 1 then return { d with stack := [], activeSessions := 0 }
      else .error (.assert "_stack.size() >=2")
  | b :: a :: rest =>
      return { d with stack := a.merge h b :: rest, activeSessions := d.activeSessions - 1 }
  | [] => .error (.assert "_stack.size() >=2")

/-- `commit`: the innermost session is no longer active, and its record stays, for `pop_commit`. -/
def commit (d : UndoDatabase α) : Except Exn (UndoDatabase α) := do
  fcAssert (0 < d.activeSessions) "_active_sessions > 0"
  return { d with activeSessions := d.activeSessions - 1 }

/-- `remove` of an object, noted in the innermost record. -/
def remove (d : UndoDatabase α) (id : ObjectId) : Except Exn (UndoDatabase α) := do
  let store ← d.store.remove id
  return { d.record fun u => (d.store.find? id).elim u (u.onRemove id) with store }

variable [UniqueKeys α]

/-- `create` of an object, noted in the innermost record. -/
def create (d : UndoDatabase α) (index : Nat) (v : α) : Except Exn (UndoDatabase α) := do
  let store ← d.store.create index v
  return { d.record fun u => u.onCreate (d.store.freshId index) with store }

/-- `modify` of an object, with the value the modifier leaves; the old value is noted in the
innermost record. -/
def modify (d : UndoDatabase α) (id : ObjectId) (v : α) : Except Exn (UndoDatabase α) := do
  let store ← d.store.modify id v
  return { d.record fun u => (d.store.find? id).elim u (u.onModify id) with store }

/-- A change of the store from outside: an object is created, changed or removed. -/
inductive Change (α : Type) where
  | create (index : Nat) (v : α)
  | modify (id : ObjectId) (v : α)
  | remove (id : ObjectId)

/-- Make a change, noted in the record of the innermost session. -/
def change (d : UndoDatabase α) : Change α → Except Exn (UndoDatabase α)
  | .create index v => d.create index v
  | .modify id v => d.modify id v
  | .remove id => d.remove id

/-- `rollback_state`; without a record the source reads behind the end of its stack. -/
def rollbackState (h : HashOrder) (d : UndoDatabase α) : Except Exn (UndoDatabase α) :=
  match d.stack with
  | [] => .error .undefined
  | u :: rest => do
      let store ← u.rollback h d.store
      return { d with store, stack := rest }

/-- `undo`: the innermost session is rolled back, and its record dropped. -/
def undo (h : HashOrder) (d : UndoDatabase α) : Except Exn (UndoDatabase α) := do
  fcAssert (!d.disabled) "!_disabled"
  fcAssert (0 < d.activeSessions) "_active_sessions > 0"
  let d ← d.rollbackState h
  return { d with activeSessions := d.activeSessions - 1 }

/-- `pop_commit`: the innermost record, of a session that was committed, is rolled back and dropped.
-/
def popCommit (h : HashOrder) (d : UndoDatabase α) : Except Exn (UndoDatabase α) := do
  fcAssert (d.activeSessions = 0) "_active_sessions == 0"
  fcAssert (!d.stack.isEmpty) "!_stack.empty()"
  let d ← d.rollbackState h
  return { d with disabled := false }

end UndoDatabase

end BtcmChain
