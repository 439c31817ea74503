import BtcmChain.Db.UndoDatabase
import BtcmChain.Lib.Attempt

set_option autoImplicit false

/-!
# Primary indexes and their secondary indexes

A secondary index follows one index of the database through four callbacks and keeps a
state of its own, which the undo records know nothing about. Here exceptions matter: a
modifier that throws leaves the object as it is then, a modified object that violates a
unique key is dropped from the container, and a rollback that throws stops half way. So
the operations are programs that keep what they changed before they threw.

The container calls `object_inserted` on `load` and on `create`, and not on `insert`,
which is what `rollback_state` re-inserts removed objects with.
-/

namespace BtcmChain

/-- `secondary_index`: the number of the index it follows, and the callbacks that the index calls on
it. -/
structure SecondaryIndex (α σ : Type) where
  index : Nat
  objectInserted : ObjectId → α → EStateM Exn σ Unit
  objectRemoved : ObjectId → α → EStateM Exn σ Unit
  aboutToModify : ObjectId → α → EStateM Exn σ Unit
  objectModified : ObjectId → α → EStateM Exn σ Unit

/-- Two secondary indexes of the same index, called one after the other. -/
def SecondaryIndex.both {α σ τ : Type} (a : SecondaryIndex α σ) (b : SecondaryIndex α τ) :
    SecondaryIndex α (σ × τ) where
  index := a.index
  objectInserted id v := do
    focus Prod.fst (fun x p => (x, p.2)) (a.objectInserted id v)
    focus Prod.snd (fun y p => (p.1, y)) (b.objectInserted id v)
  objectRemoved id v := do
    focus Prod.fst (fun x p => (x, p.2)) (a.objectRemoved id v)
    focus Prod.snd (fun y p => (p.1, y)) (b.objectRemoved id v)
  aboutToModify id v := do
    focus Prod.fst (fun x p => (x, p.2)) (a.aboutToModify id v)
    focus Prod.snd (fun y p => (p.1, y)) (b.aboutToModify id v)
  objectModified id v := do
    focus Prod.fst (fun x p => (x, p.2)) (a.objectModified id v)
    focus Prod.snd (fun y p => (p.1, y)) (b.objectModified id v)

/-- A database and what the secondary indexes of one of its indexes keep. -/
structure PrimaryIndex (α σ : Type) extends UndoDatabase α where
  sindex : σ

namespace PrimaryIndex

variable {α σ : Type}

/-- A computation on a database whose index is followed by a secondary index with a state of its
own. -/
abbrev Op (α σ β : Type) := EStateM Exn (PrimaryIndex α σ) β

/-- Call a secondary index about an object of the index it follows. -/
def notify (S : SecondaryIndex α σ) (id : ObjectId) (callback : EStateM Exn σ Unit) :
    Op α σ Unit :=
  if id.index = S.index then
    focus PrimaryIndex.sindex (fun x d => { d with sindex := x }) callback
  else pure ()

/-- Note a change in the innermost record, for `undo`, unless recording is disabled; where there is
no record, one is made. -/
def saveUndo (f : UndoState α → UndoState α) : Op α σ Unit :=
  modifyThe (PrimaryIndex α σ) fun d =>
    { d with toUndoDatabase := d.toUndoDatabase.record f }

/-- Replace the objects of the database, without telling anybody. -/
def setStore (s : Store α) : Op α σ Unit :=
  modifyThe (PrimaryIndex α σ) fun d => { d with store := s }

/-- `get_object`: the object with this id, which has to be there. -/
def getObject (id : ObjectId) : Op α σ α := do
  let d ← get
  match d.store.find? id with
  | some v => pure v
  | none => throw (.assert "Unable to find Object")

/-- `remove`: the callbacks and the undo record are told of the object before it goes. -/
def remove (S : SecondaryIndex α σ) (id : ObjectId) : Op α σ Unit := do
  let v ← getObject id
  notify S id (S.objectRemoved id v)
  saveUndo (·.onRemove id v)
  modifyThe (PrimaryIndex α σ) fun d =>
    { d with store := { d.store with objs := d.store.objs.erase id } }

variable [UniqueKeys α]

/-- `insert` of an object under its own id, which no callback hears of. -/
def insert (id : ObjectId) (v : α) : Op α σ Unit := do
  let d ← get
  setStore (← liftExcept (d.store.insert id v))

/-- `load` of an object from the disk: the callbacks hear of it, and no undo record is made. -/
def load (S : SecondaryIndex α σ) (id : ObjectId) (v : α) : Op α σ Unit := do
  insert id v
  notify S id (S.objectInserted id v)

/-- `create`: the object gets the next number of its index, and callbacks and undo record are told
afterwards. -/
def create (S : SecondaryIndex α σ) (index : Nat) (v : α) : Op α σ Unit := do
  let d ← get
  setStore (← liftExcept (d.store.create index v))
  notify S (d.store.freshId index) (S.objectInserted (d.store.freshId index) v)
  saveUndo (·.onCreate (d.store.freshId index))

/-- What the container is left with when a modifier left `v`: a violated unique key costs
the object its place. -/
def replaced (s : Store α) (id : ObjectId) (v : α) : Store α :=
  { s with objs := if s.collides id v then s.objs.erase id else s.objs.set id v }

/-- The second half of `modify`: the modifier has left `v`, or thrown and left `v`. -/
def finishModify (S : SecondaryIndex α σ) (id : ObjectId) (v : α) (threw : Option Exn) :
    Op α σ Unit := do
  let d ← get
  setStore (replaced d.store id v)
  liftExcept (threw.elim (.ok ()) .error)
  liftExcept (fcAssert (!d.store.collides id v)
    "Could not modify object, most likely an index constraint was violated")
  notify S id (S.objectModified id v)

/-- `modify` with a modifier that leaves `v`, throws or not, and has an effect of its own on
the rest of the database. -/
def modifyWith (S : SecondaryIndex α σ) (id : ObjectId) (v : α) (threw : Option Exn)
    (effect : PrimaryIndex α σ → PrimaryIndex α σ) : Op α σ Unit := do
  let before ← getObject id
  saveUndo (·.onModify id before)
  notify S id (S.aboutToModify id before)
  modifyThe (PrimaryIndex α σ) effect
  finishModify S id v threw

/-- `modify`, where the modifier leaves the value `v` and may throw, and has no effect on the rest
of the database. -/
def modify (S : SecondaryIndex α σ) (id : ObjectId) (v : α) (threw : Option Exn) : Op α σ Unit :=
  modifyWith S id v threw fun d => d

/-! ## Rollback -/

omit [UniqueKeys α] in
/-- Change the record of the innermost session, and nothing else. -/
def onRecord (f : UndoState α → UndoState α) (d : PrimaryIndex α σ) : PrimaryIndex α σ :=
  { d with stack := d.stack.modifyHead f }

/-- `rollback_state`. The old values are moved out of the record; `moved` is what a move
leaves behind. -/
def rollbackState (S : SecondaryIndex α σ) (h : HashOrder) (moved : α → α) : Op α σ Unit := do
  let d ← get
  match d.stack with
  | [] => throw .undefined
  | u :: _ =>
      (h.order u.oldValues.entries).forM fun e =>
        modifyWith S e.1 e.2 none
          (onRecord fun u => { u with oldValues := u.oldValues.update e.1 moved })
      (h.order u.newIds.entries).forM fun e => remove S e.1
      modifyThe (PrimaryIndex α σ) fun d =>
        { d with
          store := (h.order u.oldIndexNextIds.entries).foldl (fun s e => s.setNextId e.1 e.2)
            d.store }
      (h.order u.removed.entries).forM fun e => do
        insert e.1 e.2
        modifyThe (PrimaryIndex α σ)
          (onRecord fun u => { u with removed := u.removed.update e.1 moved })
      modifyThe (PrimaryIndex α σ) fun d => { d with stack := d.stack.tail }

/-- `undo`: a rollback that throws leaves the undo database disabled. -/
def undo (S : SecondaryIndex α σ) (h : HashOrder) (moved : α → α) : Op α σ Unit := do
  let d ← get
  liftExcept (fcAssert (!d.disabled) "!_disabled")
  liftExcept (fcAssert (0 < d.activeSessions) "_active_sessions > 0")
  modifyThe (PrimaryIndex α σ) fun d => { d with disabled := true }
  rollbackState S h moved
  modifyThe (PrimaryIndex α σ) fun d =>
    { d with disabled := false, activeSessions := d.activeSessions - 1 }

/-- `pop_commit`: the undo database is enabled again in any case, also when something throws on the
way. -/
def popCommit (S : SecondaryIndex α σ) (h : HashOrder) (moved : α → α) : Op α σ Unit := do
  let d ← get
  liftExcept (fcAssert (d.activeSessions = 0) "_active_sessions == 0")
  liftExcept (fcAssert (!d.stack.isEmpty) "!_stack.empty()")
  modifyThe (PrimaryIndex α σ) fun d => { d with disabled := true }
  tryCatch (rollbackState S h moved) fun e => do
    modifyThe (PrimaryIndex α σ) fun d => { d with disabled := false }
    throw e
  modifyThe (PrimaryIndex α σ) fun d => { d with disabled := false }

/-! ## Runs -/

/-- A call of the database from outside, with what the functions it is given are going to do. -/
inductive Command (α : Type) where
  /-- `create` of an object, with the object that the constructor makes, or what it throws. -/
  | create (index : Nat) (v : Except Exn α)
  /-- `modify` of an object, with the value that the modifier leaves and what it throws, if it
  throws. -/
  | modify (id : ObjectId) (v : α) (threw : Option Exn)
  | remove (id : ObjectId)
  | load (id : ObjectId) (v : α)
  | startUndoSession (forceEnable : Bool)
  | merge (h : HashOrder)
  | commit
  | setMaxSize (n : Nat)
  | undo (h : HashOrder)
  | popCommit (h : HashOrder)

omit [UniqueKeys α] in
/-- A call that only concerns the sessions; when it throws, nothing has changed. -/
def onSessions (f : UndoDatabase α → Except Exn (UndoDatabase α)) : Op α σ Unit := do
  let d ← get
  let sessions ← liftExcept (f d.toUndoDatabase)
  set { d with toUndoDatabase := sessions }

/-- Carry out a call on the database, with its callbacks. -/
def exec (S : SecondaryIndex α σ) (moved : α → α) : Command α → Op α σ Unit
  | .create index v => liftExcept v >>= create S index
  | .modify id v threw => modify S id v threw
  | .remove id => remove S id
  | .load id v => load S id v
  | .startUndoSession forceEnable => onSessions fun d => .ok (d.startUndoSession forceEnable)
  | .merge h => onSessions (UndoDatabase.merge h)
  | .commit => onSessions UndoDatabase.commit
  | .setMaxSize n => onSessions fun d => .ok (d.setMaxSize n)
  | .undo h => undo S h moved
  | .popCommit h => popCommit S h moved

/-- What a run of calls that all meet `C` can lead to; a call that throws ends there, and
the next one goes on from what it left. -/
inductive RunIf (S : SecondaryIndex α σ) (moved : α → α)
    (C : PrimaryIndex α σ → Command α → Prop) (start : PrimaryIndex α σ) :
    PrimaryIndex α σ → Prop
  | start : RunIf S moved C start start
  | step {d : PrimaryIndex α σ} {c : Command α} :
      RunIf S moved C start d → C d c → RunIf S moved C start (after (exec S moved c) d)

end PrimaryIndex

end BtcmChain
