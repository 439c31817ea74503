import BtcmChain.Chain.Objects
import BtcmChain.Db.PrimaryIndex
import BtcmChain.Lib.FlatSet

set_option autoImplicit false

/-!
# The secondary indexes of the chain

`required_approval_index` finds the proposals that wait for an account,
`account_member_index` the accounts an account or a key may sign for,
`content_by_genre_index` and `content_by_category_index` the contents of a genre or of a
category. The first ignores modifications; the second remembers what the object about to
be modified named; the last two keep such a memory for each object.

The callbacks are those of `secondary_index`: an object was inserted, was removed, is about to be
modified, was modified. What the four keep are maps from an account, a key, a genre or a category
to sets of objects (`FlatMap`, `FlatSet`), and queries are lookups in these. A second modification
of an object that is in progress is refused by the indexes that keep a memory for each object.
`setDifference` is the one of the standard library, on sorted sets.
-/

namespace BtcmChain

/-! ## The unique keys of the three containers

Keys that contain the object id cannot be shared and are left out. -/

instance : UniqueKeys ProposalObject := ⟨Unit, inferInstance, fun _ => []⟩

instance : UniqueKeys AccountObject := ⟨String, inferInstance, fun _ => [AccountObject.name]⟩

instance : UniqueKeys ContentObject := ⟨String, inferInstance, fun _ => [ContentObject.url]⟩

/-! ## Proposals by required approval -/

/-- `required_approval_index`: the proposals that each account has to approve. -/
structure RequiredApprovalIndex where
  accountToProposals : FlatMap String (FlatSet ObjectId) := .empty

namespace RequiredApprovalIndex

/-- The accounts whose approval a proposal needs, in the order they are walked through. -/
def approvers (p : ProposalObject) : List String :=
  p.requiredActiveApprovals ++ p.requiredOwnerApprovals ++ p.requiredBasicApprovals

/-- `object_inserted` of the index: the proposal is listed under each account that has to approve
it. -/
def objectInserted (id : ObjectId) (p : ProposalObject) (x : RequiredApprovalIndex) :
    RequiredApprovalIndex :=
  ⟨(approvers p).foldl (·.insertAt · id) x.accountToProposals⟩

/-- `object_removed` of the index: the proposal is no longer listed under those accounts. -/
def objectRemoved (id : ObjectId) (p : ProposalObject) (x : RequiredApprovalIndex) :
    RequiredApprovalIndex :=
  ⟨(approvers p).foldl (·.eraseOrDrop · id) x.accountToProposals⟩

/-- `lookup` of the index: the proposals listed under an account. -/
def lookup (x : RequiredApprovalIndex) (account : String) : FlatSet ObjectId :=
  x.accountToProposals.setAt account

/-- The callbacks of the index; a modification of a proposal is not looked at. -/
def callbacks (index : Nat) : SecondaryIndex ProposalObject RequiredApprovalIndex where
  index := index
  objectInserted id p := modify (objectInserted id p)
  objectRemoved id p := modify (objectRemoved id p)
  aboutToModify _ _ := pure ()
  objectModified _ _ := pure ()

end RequiredApprovalIndex

/-! ## Accounts by who may sign for them -/

/-- `account_member_index`: in which accounts' authorities each account and each key is a member,
and what was there before a change. -/
structure AccountMemberIndex where
  accountToAccountMemberships : FlatMap String (FlatSet String) := .empty
  accountToKeyMemberships : FlatMap PublicKey (FlatSet String) := .empty
  beforeAccountMembers : FlatSet String := .empty
  beforeKeyMembers : FlatSet PublicKey := .empty

namespace AccountMemberIndex

/-- `get_account_members`: the accounts in the three authorities of an account. -/
def getAccountMembers (a : AccountObject) : FlatSet String :=
  .ofKeys (a.owner.accountAuths.keys ++ a.active.accountAuths.keys ++ a.basic.accountAuths.keys)

/-- `get_key_members`: the keys in the three authorities of an account. -/
def getKeyMembers (a : AccountObject) : FlatSet PublicKey :=
  .ofKeys (a.owner.keyAuths.keys ++ a.active.keyAuths.keys ++ a.basic.keyAuths.keys ++ [a.memoKey])

/-- `std::set_difference`: the members of the first set that the second does not have, in order. -/
def setDifference {κ : Type} [LinearOrder κ] (s1 s2 : FlatSet κ) : List κ :=
  s1.keys.filter fun k => !s2.has k

/-- `object_inserted` of the index: the account is listed under the members of its authorities. -/
def objectInserted (a : AccountObject) (x : AccountMemberIndex) : AccountMemberIndex :=
  { x with
    accountToAccountMemberships :=
      (getAccountMembers a).keys.foldl (·.insertAt · a.name) x.accountToAccountMemberships
    accountToKeyMemberships :=
      (getKeyMembers a).keys.foldl (·.insertAt · a.name) x.accountToKeyMemberships }

/-- `object_removed` of the index: the account is no longer listed under the members of its
authorities. -/
def objectRemoved (a : AccountObject) (x : AccountMemberIndex) : AccountMemberIndex :=
  { x with
    accountToKeyMemberships :=
      (getKeyMembers a).keys.foldl (·.eraseAt · a.name) x.accountToKeyMemberships
    accountToAccountMemberships :=
      (getAccountMembers a).keys.foldl (·.eraseAt · a.name) x.accountToAccountMemberships }

/-- `about_to_modify`: the index remembers the members of the account's authorities. -/
def aboutToModify (a : AccountObject) (x : AccountMemberIndex) : AccountMemberIndex :=
  { x with beforeKeyMembers := getKeyMembers a, beforeAccountMembers := getAccountMembers a }

/-- One half of `object_modified`: first what is no longer named, then what is new. -/
def followMembers {κ : Type} [LinearOrder κ] (name : String) (before after : FlatSet κ)
    (memberships : FlatMap κ (FlatSet String)) : FlatMap κ (FlatSet String) :=
  (setDifference after before).foldl (·.insertAt · name)
    ((setDifference before after).foldl (·.eraseAt · name) memberships)

/-- `object_modified`: the account is listed under its new members, and no longer under those that
it has lost. -/
def objectModified (a : AccountObject) (x : AccountMemberIndex) : AccountMemberIndex :=
  { x with
    accountToAccountMemberships := followMembers a.name x.beforeAccountMembers
      (getAccountMembers a) x.accountToAccountMemberships
    accountToKeyMemberships := followMembers a.name x.beforeKeyMembers
      (getKeyMembers a) x.accountToKeyMemberships }

/-- The callbacks of the index, which all look at the account alone. -/
def callbacks (index : Nat) : SecondaryIndex AccountObject AccountMemberIndex where
  index := index
  objectInserted _ a := modify (objectInserted a)
  objectRemoved _ a := modify (objectRemoved a)
  aboutToModify _ a := modify (aboutToModify a)
  objectModified _ a := modify (objectModified a)

end AccountMemberIndex

/-! ## Contents by genre -/

/-- `content_by_genre_index`: the contents of each genre, and those that are being modified. -/
structure ContentByGenreIndex where
  inProgress : FlatMap ObjectId (FlatSet Nat) := .empty
  contentByGenre : FlatMap Nat (FlatSet ObjectId) := .empty

namespace ContentByGenreIndex

/-- `get_genres`: the genres of the album and of the track of a content. -/
def getGenres (c : ContentObject) : FlatSet Nat :=
  .ofKeys (c.albumMeta.genre1.toNat :: c.albumMeta.genre2.toList.map UInt32.toNat ++
    c.trackMeta.genre1.toNat :: c.trackMeta.genre2.toList.map UInt32.toNat)

/-- `add_content` of the index: the content is listed under each of the genres. -/
def addContent (genres : FlatSet Nat) (id : ObjectId) (m : FlatMap Nat (FlatSet ObjectId)) :
    FlatMap Nat (FlatSet ObjectId) :=
  genres.keys.foldl (·.insertAt · id) m

/-- `remove_content` of the index: the content is no longer listed under any of the genres. -/
def removeContent (genres : FlatSet Nat) (id : ObjectId) (m : FlatMap Nat (FlatSet ObjectId)) :
    FlatMap Nat (FlatSet ObjectId) :=
  genres.keys.foldl (·.eraseIn · id) m

/-- `find_by_genre`: the contents listed under a genre. -/
def findByGenre (x : ContentByGenreIndex) (genre : Nat) : FlatSet ObjectId :=
  x.contentByGenre.setAt genre

/-- `about_to_modify`: refused while a modification of the same object is pending. -/
def aboutToModify (id : ObjectId) (before : ContentObject) : EStateM Exn ContentByGenreIndex Unit := do
  let x ← get
  liftExcept (fcAssert (x.inProgress.find? id).isNone
    "in_progress.find( c.id ) == in_progress.end()")
  set { x with inProgress := x.inProgress.set id (getGenres before) }

/-- `object_modified`: the content moves from the genres that it has lost to those that are new. -/
def objectModified (id : ObjectId) (c : ContentObject) : EStateM Exn ContentByGenreIndex Unit := do
  let x ← get
  match x.inProgress.find? id with
  | none => throw (.assert "prev_genres != in_progress.end()")
  | some prevGenres =>
      let common := FlatSet.intersect prevGenres (getGenres c)
      set { x with
        contentByGenre :=
          addContent (FlatSet.subtract (getGenres c) common) id
            (removeContent (FlatSet.subtract prevGenres common) id x.contentByGenre)
        inProgress := x.inProgress.erase id : ContentByGenreIndex }

/-- The callbacks of the index, with the genres of contents in progress in between. -/
def callbacks (index : Nat) : SecondaryIndex ContentObject ContentByGenreIndex where
  index := index
  objectInserted id c := modify fun x =>
    { x with contentByGenre := addContent (getGenres c) id x.contentByGenre }
  objectRemoved id c := modify fun x =>
    { x with contentByGenre := removeContent (getGenres c) id x.contentByGenre }
  aboutToModify := aboutToModify
  objectModified := objectModified

end ContentByGenreIndex

/-! ## Contents by category -/

/-- `content_by_category_index`: the contents of each category, and those that are being modified.
-/
structure ContentByCategoryIndex where
  inProgress : FlatMap ObjectId (Option String) := .empty
  contentByCategory : FlatMap String (FlatSet ObjectId) := .empty

namespace ContentByCategoryIndex

/-- `add_content` of the index: the content is listed under its category, if it has one. -/
def addContent (category : Option String) (id : ObjectId) (m : FlatMap String (FlatSet ObjectId)) :
    FlatMap String (FlatSet ObjectId) :=
  category.elim m (m.insertAt · id)

/-- `remove_content` of the index: the content is no longer listed under the category. -/
def removeContent (category : Option String) (id : ObjectId)
    (m : FlatMap String (FlatSet ObjectId)) : FlatMap String (FlatSet ObjectId) :=
  category.elim m fun c => if (m.setAt c).has id then m.eraseOrDrop c id else m

/-- `find_by_category`: the contents listed under a category. -/
def findByCategory (x : ContentByCategoryIndex) (category : String) : FlatSet ObjectId :=
  x.contentByCategory.setAt category

/-- `about_to_modify`: refused while a modification of the same object is pending. -/
def aboutToModify (id : ObjectId) (before : ContentObject) :
    EStateM Exn ContentByCategoryIndex Unit := do
  let x ← get
  liftExcept (fcAssert (x.inProgress.find? id).isNone
    "in_progress.find( c.id ) == in_progress.end()")
  set { x with inProgress := x.inProgress.set id before.albumMeta.albumType }

/-- `object_modified`: when the category has changed, the content moves from the old one to the new
one. -/
def objectModified (id : ObjectId) (c : ContentObject) :
    EStateM Exn ContentByCategoryIndex Unit := do
  let x ← get
  match x.inProgress.find? id with
  | none => throw (.assert "prev_category != in_progress.end()")
  | some prevCategory =>
      set { x with
        contentByCategory :=
          if c.albumMeta.albumType = prevCategory then x.contentByCategory
          else addContent c.albumMeta.albumType id
            (removeContent prevCategory id x.contentByCategory)
        inProgress := x.inProgress.erase id : ContentByCategoryIndex }

/-- The callbacks of the index, with the categories of contents in progress in between. -/
def callbacks (index : Nat) : SecondaryIndex ContentObject ContentByCategoryIndex where
  index := index
  objectInserted id c := modify fun x =>
    { x with contentByCategory := addContent c.albumMeta.albumType id x.contentByCategory }
  objectRemoved id c := modify fun x =>
    { x with contentByCategory := removeContent c.albumMeta.albumType id x.contentByCategory }
  aboutToModify := aboutToModify
  objectModified := objectModified

end ContentByCategoryIndex

/-- The secondary indexes of the contents: by genre and by category, called in this order. -/
def contentIndexes (index : Nat) :
    SecondaryIndex ContentObject (ContentByGenreIndex × ContentByCategoryIndex) :=
  (ContentByGenreIndex.callbacks index).both (ContentByCategoryIndex.callbacks index)

end BtcmChain
