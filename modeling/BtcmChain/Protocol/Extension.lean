import BtcmChain.Fc.Raw

set_option autoImplicit false

/-!
# Extensions

`ext.hpp`. An extension is a reflected type with optional members. It is packed as the number of
members that are set, and for each of them its place in the reflection and its value. The visitors
keep their counters in `uint32_t`.

The members are described by a list (`ExtensionType`), each with the codec of its type, so that
packing and unpacking here are those of the templates for every reflected type at once.
`UnpackVisitor` is the state of the reader: the member it is at, the next tag, and how many are
left. A tag is read as an `unsigned_int` and cut to 32 bits before it is compared, which
`Sound.Extension` looks at closely.
-/

namespace BtcmChain

/-- A member `optional<type>` of a reflected type, with the codec of its type at every remaining
depth. -/
structure Member where
  type : Type
  codec : Nat → RawCodec type

/-- A reflected type whose members are all optional, and few enough for a 32-bit tag. -/
structure ExtensionType where
  members : List Member
  few : members.length < 2 ^ 32

/-- What the members of a value hold, in the order of the members; each of them may hold nothing. -/
def Values : List Member → Type
  | [] => Unit
  | m :: members => Option m.type × Values members

/-! ## Packing -/

/-- `extension_pack_count_visitor`: how many of the members hold something. -/
def packCount : (members : List Member) → Values members → UInt32 → UInt32
  | [], _, count => count
  | _ :: members, (x, value), count => packCount members value (count + if x.isSome then 1 else 0)

/-- `extension_pack_read_visitor`: the tag and the value of each member that holds something. -/
def packRead (maxDepth : Nat) :
    (members : List Member) → Values members → UInt32 → Except Exn Bytes
  | [], _, _ => pure []
  | m :: members, (x, value), which => do
      let field ← match x with
        | some x => do
            let tag ← unsignedInt.pack which.toUInt64
            let bytes ← (m.codec maxDepth).pack x
            pure (tag ++ bytes)
        | none => pure []
      let fields ← packRead maxDepth members value (which + 1)
      return field ++ fields

/-- `pack` of an extension: the count, and then the tagged members in order. -/
def ExtensionType.pack (T : ExtensionType) (maxDepth : Nat) (value : Values T.members) :
    Except Exn Bytes := do
  fcAssert (0 < maxDepth) "_max_depth > 0"
  let maxDepth := maxDepth - 1
  let count ← unsignedInt.pack (packCount T.members value 0).toUInt64
  fcAssert (0 < maxDepth) "_max_depth > 0"
  let fields ← packRead (maxDepth - 1) T.members value 0
  return count ++ fields

/-! ## Unpacking -/

/-- What `extension_unpack_visitor` counts: the member it is at, the next tag, and how many are
left. -/
structure UnpackVisitor where
  which : UInt32 := 0
  nextWhich : UInt32 := 0
  countLeft : UInt32 := 0

namespace UnpackVisitor

/-- `maybe_read_next_which`: the next tag is read only while members are left to come. -/
def maybeReadNextWhich (vtor : UnpackVisitor) : UnpackM UnpackVisitor :=
  if 0 < vtor.countLeft then do
    let w ← unsignedInt.unpack
    return { vtor with nextWhich := w.toUInt32 }
  else return vtor

/-- The constructor of `extension_unpack_visitor`, which reads the count and the first tag. -/
def create (maxDepth : Nat) : UnpackM UnpackVisitor := do
  ofExcept (fcAssert (0 < maxDepth) "_max_depth > 0")
  let c ← unsignedInt.unpack
  maybeReadNextWhich { countLeft := c.toUInt32 }

/-- `operator()` of the visitor: a member is read when its number is the next tag, and left empty
otherwise. -/
def visit (maxDepth : Nat) (m : Member) (vtor : UnpackVisitor) :
    UnpackM (Option m.type × UnpackVisitor) :=
  if 0 < vtor.countLeft ∧ vtor.which = vtor.nextWhich then do
    let temp ← (m.codec maxDepth).unpack
    let vtor ← maybeReadNextWhich { vtor with countLeft := vtor.countLeft - 1 }
    return (some temp, { vtor with which := vtor.which + 1 })
  else return (none, { vtor with which := vtor.which + 1 })

/-- `reflector<T>::visit`: the visitor goes to the members in the order in which they are declared.
-/
def visitAll (maxDepth : Nat) :
    (members : List Member) → UnpackVisitor → UnpackM (Values members × UnpackVisitor)
  | [], vtor => return ((), vtor)
  | m :: members, vtor => do
      let (x, vtor) ← visit maxDepth m vtor
      let (value, vtor) ← visitAll maxDepth members vtor
      return ((x, value), vtor)

end UnpackVisitor

/-- `unpack` of an extension: every member is visited, and at the end none may be left to come. -/
def ExtensionType.unpack (T : ExtensionType) (maxDepth : Nat) : UnpackM (Values T.members) := do
  ofExcept (fcAssert (0 < maxDepth) "_max_depth > 0")
  let maxDepth := maxDepth - 1
  let vtor ← UnpackVisitor.create maxDepth
  let (value, vtor) ← vtor.visitAll (maxDepth - 1) T.members
  ofExcept (fcAssert (vtor.countLeft = 0) "vtor.count_left == 0")
  return value

/-- `extension<T>`: what packing and unpacking make of it, at a given remaining depth. -/
def ExtensionType.codec (T : ExtensionType) (maxDepth : Nat) : RawCodec (Values T.members) where
  pack := T.pack maxDepth
  unpack := T.unpack maxDepth

/-- `report_extensions`: a text and a number, both optional. -/
def reportExtensions : ExtensionType where
  members := [⟨RawString, rawString⟩, ⟨UInt64, fun _ => unsignedInt⟩]
  few := by decide

end BtcmChain
