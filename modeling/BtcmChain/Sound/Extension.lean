import BtcmChain.Protocol.Extension

set_option autoImplicit false

/-!
# The encoding of extensions

A stream is laid out in *fields*: a count, and behind it tags, each with a value of the member it
stands for. What the writer makes and what the reader takes are both described by the fields a value
is *spelled* by; they differ only in the tags, of which the reader looks at 32 bits.

What the writer makes of a value is the canonical spelling: the members that are set, in the order
of the reflection. The reader accepts others: `RaisedAt` says where a tag or a count has bits above
the lowest 32. `extension_canonical_iff` says for every string of bytes that what is accepted is
what would be written, unless some tag or the count is raised so; that reading undoes writing needs
no such exception (`ExtensionType.undoes`).
-/

namespace BtcmChain

variable {T : ExtensionType} {d : Nat}

/-- A tag, and a packed value of the member it stands for in 32 bits. -/
structure TaggedField (T : ExtensionType) (d : Nat) where
  tag : UInt64
  position : Nat
  bytes : Bytes
  named : tag.toUInt32 = UInt32.ofNat position
  packed : ∃ m, T.members[position]? = some m ∧ ∃ x, (m.codec d).pack x = .ok bytes

namespace TaggedField

def encode (f : TaggedField T d) : Bytes := packUnsignedInt f.tag ++ f.bytes

/-- The bytes of some fields, one behind the other. -/
def encodeAll (fields : List (TaggedField T d)) : Bytes := fields.flatMap encode

@[simp] theorem encodeAll_nil : encodeAll ([] : List (TaggedField T d)) = [] := rfl

@[simp] theorem encodeAll_cons (f : TaggedField T d) (fields : List (TaggedField T d)) :
    encodeAll (f :: fields) = packUnsignedInt f.tag ++ (f.bytes ++ encodeAll fields) := by
  simp [encodeAll, encode]

theorem position_lt (f : TaggedField T d) : f.position < T.members.length := by
  obtain ⟨m, hm, -⟩ := f.packed
  exact (List.getElem?_eq_some_iff.mp hm).1

theorem position_lt_size (f : TaggedField T d) : f.position < 2 ^ 32 := f.position_lt.trans T.few

/-- The tag is the place of its member, up to a multiple of `2 ^ 32`. -/
theorem tag_mod (f : TaggedField T d) : f.tag.toNat % 2 ^ 32 = f.position := by
  have h := congrArg UInt32.toNat f.named
  rwa [UInt64.toNat_toUInt32, UInt32.toNat_ofNat_of_lt' f.position_lt_size] at h

end TaggedField

open TaggedField

/-- The fields a value is spelled by: one for each member that is set. -/
inductive Spells : (members : List Member) → Nat → Values members → List (TaggedField T d) → Prop
  | nil (i : Nat) : Spells [] i () []
  | unset {m : Member} {members : List Member} {i : Nat} {value : Values members}
      {fields : List (TaggedField T d)} (rest : Spells members (i + 1) value fields) :
      Spells (m :: members) i (none, value) fields
  | set {m : Member} {members : List Member} {x : m.type} {value : Values members}
      {f : TaggedField T d} {fields : List (TaggedField T d)}
      (packs : (m.codec d).pack x = .ok f.bytes)
      (rest : Spells members (f.position + 1) value fields) :
      Spells (m :: members) f.position (some x, value) (f :: fields)

section Spelling

variable {members : List Member} {i : Nat} {value : Values members}
  {fields : List (TaggedField T d)}

theorem Spells.bounds (h : Spells members i value fields) : ∀ f ∈ fields, i ≤ f.position := by
  induction h with
  | nil i => simp
  | unset _ ih =>
      intro f hf
      exact (Nat.le_succ _).trans (ih f hf)
  | set _ _ ih =>
      intro g hg
      rcases List.mem_cons.mp hg with rfl | hg
      · exact Nat.le_refl _
      · exact (Nat.le_succ _).trans (ih g hg)

/-- The fields that spell a value come in the order of the members. -/
theorem Spells.increasing (h : Spells members i value fields) :
    (fields.map position).Pairwise (· < ·) := by
  induction h with
  | nil i => exact .nil
  | unset _ ih => exact ih
  | set _ hrest ih =>
      refine List.pairwise_cons.mpr ⟨fun p hp => ?_, ih⟩
      obtain ⟨g, hg, rfl⟩ := List.mem_map.mp hp
      exact hrest.bounds g hg

theorem Spells.length_le (h : Spells members i value fields) :
    fields.length ≤ members.length := by
  induction h with
  | nil i => exact Nat.le_refl _
  | unset _ ih => exact ih.trans (Nat.le_succ _)
  | set _ _ ih => exact Nat.succ_le_succ ih

theorem Spells.count_eq (h : Spells members i value fields) (count : UInt32) :
    packCount members value count = count + UInt32.ofNat fields.length := by
  induction h generalizing count with
  | nil i => simp [packCount]
  | unset _ ih => simp [packCount, ih]
  | set _ _ ih =>
      simp only [packCount, Option.isSome_some, if_true, ih, List.length_cons, UInt32.ofNat_add]
      rw [UInt32.add_assoc, UInt32.add_comm 1]
      rfl

theorem member_of_drop {m : Member} (hmembers : T.members.drop i = m :: members) :
    T.members[i]? = some m ∧ T.members.drop (i + 1) = members := by
  refine ⟨?_, ?_⟩
  · rw [← List.head?_drop, hmembers]
    rfl
  · rw [← List.tail_drop, hmembers]
    rfl

/-- Fields that stand for members from `i` on, in their order, spell a value. -/
theorem exists_spells (hmembers : T.members.drop i = members)
    (hincreasing : (fields.map position).Pairwise (· < ·)) (hfrom : ∀ f ∈ fields, i ≤ f.position) :
    ∃ value : Values members, Spells members i value fields := by
  induction members generalizing i fields with
  | nil =>
      cases fields with
      | nil => exact ⟨(), .nil i⟩
      | cons f fields =>
          have hlt := f.position_lt
          have hle := List.drop_eq_nil_iff.mp hmembers
          have := hfrom f (List.mem_cons_self ..)
          omega
  | cons m members ih =>
      obtain ⟨hm, hrest⟩ := member_of_drop hmembers
      by_cases hunset : ∀ f ∈ fields, i + 1 ≤ f.position
      · obtain ⟨value, hvalue⟩ := ih hrest hincreasing hunset
        exact ⟨(none, value), .unset hvalue⟩
      · cases fields with
        | nil => simp at hunset
        | cons f fields =>
            obtain ⟨hfirst, hincreasing⟩ := List.pairwise_cons.mp hincreasing
            have hlater : ∀ g ∈ fields, f.position + 1 ≤ g.position := fun g hg =>
              hfirst _ (List.mem_map_of_mem hg)
            have hi : f.position = i := by
              have := hfrom f (List.mem_cons_self ..)
              by_contra hne
              refine hunset fun g hg => ?_
              rcases List.mem_cons.mp hg with rfl | hg
              · omega
              · have := hlater g hg
                omega
            subst hi
            obtain ⟨value, hvalue⟩ := ih hrest hincreasing hlater
            obtain ⟨m', hm', x, hx⟩ := f.packed
            obtain rfl := Option.some.inj (hm'.symm.trans hm)
            exact ⟨(some x, value), .set hx hvalue⟩

/-- Every value is spelled by fields whose tags are the places of the members. -/
theorem exists_fields (undone : ∀ m ∈ members, (m.codec d).Undoes)
    (hmembers : T.members.drop i = members) (value : Values members) :
    ∃ fields : List (TaggedField T d), Spells members i value fields ∧
      ∀ f ∈ fields, f.tag.toNat = f.position := by
  induction members generalizing i with
  | nil => exact ⟨[], .nil i, by simp⟩
  | cons m members ih =>
      obtain ⟨hm, hrest⟩ := member_of_drop hmembers
      obtain ⟨x, value⟩ := value
      obtain ⟨fields, hspells, htags⟩ :=
        ih (List.forall_mem_cons.mp undone).2 hrest value
      cases x with
      | none => exact ⟨fields, .unset hspells, htags⟩
      | some x =>
          obtain ⟨b, hb, -⟩ := undone m (List.mem_cons_self ..) x
          have hlt : i < 2 ^ 32 := (List.getElem?_eq_some_iff.mp hm).1.trans T.few
          let f : TaggedField T d :=
            { tag := UInt64.ofNat i, position := i, bytes := b, named := UInt64.toUInt32_ofNat' i,
              packed := ⟨m, hm, x, hb⟩ }
          refine ⟨f :: fields, Spells.set (f := f) hb hspells, ?_⟩
          intro g hg
          rcases List.mem_cons.mp hg with rfl | hg
          · exact UInt64.toNat_ofNat_of_lt' (hlt.trans (by decide))
          · exact htags g hg

/-! ## What is packed -/

/-- `extension_pack_read_visitor` writes the fields, when their tags are the places of the members. -/
theorem Spells.packRead (h : Spells members i value fields)
    (htags : ∀ f ∈ fields, f.tag.toNat = f.position) :
    packRead d members value (UInt32.ofNat i) = .ok (encodeAll fields) := by
  induction h with
  | nil i => rfl
  | unset _ ih =>
      have hrest : BtcmChain.packRead d _ _ (UInt32.ofNat _ + 1) = _ := UInt32.ofNat_add .. ▸ ih htags
      simp [BtcmChain.packRead, hrest, bind, Except.bind, pure, Except.pure]
  | @set m members x value f fields packs _ ih =>
      have hrest : BtcmChain.packRead d members value (UInt32.ofNat f.position + 1) = _ :=
        UInt32.ofNat_add .. ▸ ih fun g hg => htags g (List.mem_cons_of_mem _ hg)
      have htag : (UInt32.ofNat f.position).toUInt64 = f.tag := by
        rw [← UInt64.toNat_inj, htags f (List.mem_cons_self ..), UInt32.toNat_toUInt64,
          UInt32.toNat_ofNat_of_lt' f.position_lt_size]
      simp [BtcmChain.packRead, unsignedInt, htag, packs, hrest, bind, Except.bind, pure, Except.pure]

/-- What a value is packed as: the bytes of the fields that spell it, one behind the other. -/
theorem Spells.pack {value : Values T.members} {fields : List (TaggedField T d)}
    (h : Spells T.members 0 value fields) (htags : ∀ f ∈ fields, f.tag.toNat = f.position) :
    T.pack (d + 2) value =
      .ok (packUnsignedInt (UInt64.ofNat fields.length) ++ encodeAll fields) := by
  have hcount : (packCount T.members value 0).toUInt64 = UInt64.ofNat fields.length := by
    have hfew : fields.length < 2 ^ 32 := h.length_le.trans_lt T.few
    rw [h.count_eq, UInt32.zero_add, ← UInt64.toNat_inj, UInt32.toNat_toUInt64,
      UInt32.toNat_ofNat_of_lt' hfew, UInt64.toNat_ofNat_of_lt' (hfew.trans (by decide))]
  refine except_bind_ok.mpr ⟨(), by simp, ?_⟩
  refine except_bind_ok.mpr ⟨packUnsignedInt (UInt64.ofNat fields.length), by rw [hcount]; rfl, ?_⟩
  refine except_bind_ok.mpr ⟨(), by simp, ?_⟩
  exact except_bind_ok.mpr ⟨_, h.packRead htags, rfl⟩

/-! ## What is unpacked -/

/-- What the visitor has read of the stream `s` when `fields` and then `rest` are to come: `w` is the
tag in front of them. -/
def Ahead (vtor : UnpackVisitor) (w : UInt64) : List (TaggedField T d) → Bytes → Bytes → Prop
  | [], s, rest => vtor.countLeft.toNat = 0 ∧ s = rest
  | f :: fields, s, rest => vtor.countLeft.toNat = fields.length + 1 ∧ f.tag = w ∧
      vtor.nextWhich = w.toUInt32 ∧ s = f.bytes ++ (encodeAll fields ++ rest)

theorem Ahead.count {vtor : UnpackVisitor} {w : UInt64} {s rest : Bytes}
    (h : Ahead vtor w fields s rest) : vtor.countLeft.toNat = fields.length := by
  cases fields with
  | nil => exact h.1
  | cons f fields => exact h.1

theorem Ahead.advance {vtor : UnpackVisitor} {w : UInt64} {s rest : Bytes}
    (h : Ahead vtor w fields s rest) (n : UInt32) : Ahead { vtor with which := n } w fields s rest := by
  cases fields with
  | nil => exact h
  | cons f fields => exact h

theorem countLeft_pos {vtor : UnpackVisitor} : 0 < vtor.countLeft ↔ 0 < vtor.countLeft.toNat :=
  UInt32.lt_iff_toNat_lt

theorem countLeft_pred {vtor : UnpackVisitor} (h : 0 < vtor.countLeft) :
    (vtor.countLeft - 1).toNat = vtor.countLeft.toNat - 1 :=
  UInt32.toNat_sub_of_le _ _ (UInt32.le_iff_toNat_le.mpr (countLeft_pos.mp h))

theorem runs_maybeReadNextWhich (vtor : UnpackVisitor) (rest : Bytes)
    (hcount : vtor.countLeft.toNat = fields.length) :
    ∃ vtor' w s, Runs vtor.maybeReadNextWhich (encodeAll fields ++ rest) vtor' s ∧
      vtor'.which = vtor.which ∧ Ahead vtor' w fields s rest := by
  cases fields with
  | nil =>
      have hnone : ¬ 0 < vtor.countLeft := by
        rw [countLeft_pos, hcount]
        exact Nat.lt_irrefl 0
      refine ⟨vtor, 0, rest, ?_, rfl, hcount, rfl⟩
      simp [UnpackVisitor.maybeReadNextWhich, hnone]
  | cons f fields =>
      have hsome : 0 < vtor.countLeft := by
        rw [countLeft_pos, hcount]
        exact Nat.succ_pos _
      refine ⟨{ vtor with nextWhich := f.tag.toUInt32 }, f.tag, f.bytes ++ (encodeAll fields ++ rest),
        ?_, rfl, hcount, rfl, rfl, rfl⟩
      rw [UnpackVisitor.maybeReadNextWhich, if_pos hsome, runs_bind, encodeAll_cons,
        List.append_assoc, List.append_assoc]
      exact ⟨f.tag, _, unsignedInt_undoes.runs rfl, runs_pure.mpr ⟨rfl, rfl⟩⟩

theorem maybeReadNextWhich_inv {vtor vtor' : UnpackVisitor} {s s' : Bytes}
    (hrun : Runs vtor.maybeReadNextWhich s vtor' s') (hint : unsignedInt.RepacksIn s) :
    vtor'.which = vtor.which ∧ vtor'.countLeft = vtor.countLeft ∧ s' <:+ s ∧
      ∃ w, (0 < vtor'.countLeft → vtor'.nextWhich = w.toUInt32) ∧
        ∀ (fields : List (TaggedField T d)) rest, Ahead vtor' w fields s' rest →
          s = encodeAll fields ++ rest := by
  rw [UnpackVisitor.maybeReadNextWhich, runs_ite] at hrun
  rcases hrun with ⟨hsome, hrun⟩ | ⟨hnone, hrun⟩
  · obtain ⟨w, t, hread, hpure⟩ := runs_bind.mp hrun
    obtain ⟨rfl, rfl⟩ := runs_pure.mp hpure
    obtain ⟨b, hb, rfl⟩ := hint.split hread
    obtain rfl : packUnsignedInt w = b := Except.ok.inj hb
    refine ⟨rfl, rfl, List.suffix_append _ _, w, fun _ => rfl, fun fields rest hahead => ?_⟩
    cases fields with
    | nil =>
        have hzero : vtor.countLeft.toNat = 0 := hahead.1
        rw [countLeft_pos, hzero] at hsome
        exact absurd hsome (Nat.lt_irrefl 0)
    | cons f fields =>
        obtain ⟨-, rfl, -, rfl⟩ := hahead
        rw [encodeAll_cons, List.append_assoc, List.append_assoc]
  · obtain ⟨rfl, rfl⟩ := runs_pure.mp hrun
    refine ⟨rfl, rfl, List.suffix_rfl, 0, fun h => absurd h hnone, fun fields rest hahead => ?_⟩
    cases fields with
    | nil => exact hahead.2
    | cons f fields =>
        exact absurd (countLeft_pos.mpr (hahead.1 ▸ Nat.succ_pos _)) hnone

/-- A visit takes its member off the stream, or leaves it unset. -/
theorem runs_visit {m : Member} {x : Option m.type} {vtor vtor' : UnpackVisitor} {s rest : Bytes} :
    Runs (vtor.visit d m) s (x, vtor') rest ↔
      ((0 < vtor.countLeft ∧ vtor.which = vtor.nextWhich) ∧ ∃ temp t next,
        Runs (m.codec d).unpack s temp t ∧
        Runs { vtor with countLeft := vtor.countLeft - 1 }.maybeReadNextWhich t next rest ∧
        x = some temp ∧ vtor' = { next with which := next.which + 1 }) ∨
      (¬ (0 < vtor.countLeft ∧ vtor.which = vtor.nextWhich) ∧
        x = none ∧ vtor' = { vtor with which := vtor.which + 1 } ∧ rest = s) := by
  simp only [UnpackVisitor.visit, runs_ite, runs_bind, runs_pure, Prod.mk.injEq]
  refine or_congr (and_congr_right fun _ => ?_) (and_congr_right fun _ => and_assoc)
  constructor
  · intro h
    obtain ⟨temp, t, htemp, next, u, hread, ⟨hx, hvtor⟩, hrest⟩ := h
    exact ⟨temp, t, next, htemp, hrest ▸ hread, hx, hvtor⟩
  · intro h
    obtain ⟨temp, t, next, htemp, hread, hx, hvtor⟩ := h
    exact ⟨temp, t, htemp, next, rest, hread, ⟨hx, hvtor⟩, rfl⟩

theorem runs_visitAll_cons {m : Member} {x : Option m.type} {vtor vtor' : UnpackVisitor}
    {s rest : Bytes} :
    Runs (vtor.visitAll d (m :: members)) s ((x, value), vtor') rest ↔
      ∃ next t, Runs (vtor.visit d m) s (x, next) t ∧
        Runs (next.visitAll d members) t (value, vtor') rest := by
  rw [UnpackVisitor.visitAll, runs_bind]
  constructor
  · intro ⟨⟨x', next⟩, t, hvisit, hrun⟩
    obtain ⟨⟨value', vtor''⟩, t', hlater, hpure⟩ := runs_bind.mp hrun
    obtain ⟨hpair, rfl⟩ := runs_pure.mp hpure
    obtain ⟨hvalue, rfl⟩ := Prod.mk.inj hpair
    obtain ⟨rfl, rfl⟩ := Prod.mk.inj hvalue
    exact ⟨next, t, hvisit, hlater⟩
  · intro ⟨next, t, hvisit, hrun⟩
    exact ⟨(x, next), t, hvisit, runs_bind.mpr ⟨(value, vtor'), rest, hrun, runs_pure.mpr ⟨rfl, rfl⟩⟩⟩

theorem which_succ {vtor : UnpackVisitor} (hwhich : vtor.which = UInt32.ofNat i) :
    vtor.which + 1 = UInt32.ofNat (i + 1) := by
  rw [hwhich, UInt32.ofNat_add]
  rfl

/-- A member whose tag is not the next one is skipped. -/
theorem Ahead.skips {vtor : UnpackVisitor} {w : UInt64} {s rest : Bytes}
    (h : Ahead vtor w fields s rest) (hwhich : vtor.which = UInt32.ofNat i)
    (hlater : ∀ f ∈ fields, i < f.position) :
    ¬ (0 < vtor.countLeft ∧ vtor.which = vtor.nextWhich) := by
  intro ⟨hsome, heq⟩
  cases fields with
  | nil =>
      rw [countLeft_pos, h.count] at hsome
      exact absurd hsome (Nat.lt_irrefl 0)
  | cons f fields =>
      obtain ⟨-, rfl, hnext, -⟩ := h
      have hlt := hlater f (List.mem_cons_self ..)
      rw [hwhich, hnext, f.named, ← UInt32.toNat_inj, UInt32.toNat_ofNat_of_lt' f.position_lt_size,
        UInt32.toNat_ofNat_of_lt' (hlt.trans f.position_lt_size)] at heq
      omega

/-- The visitor takes the fields a value is spelled by. -/
theorem Spells.runs_visitAll (h : Spells members i value fields) {vtor : UnpackVisitor} {w : UInt64}
    {s rest : Bytes} (undone : ∀ m ∈ members, (m.codec d).Undoes)
    (hahead : Ahead vtor w fields s rest) (hwhich : vtor.which = UInt32.ofNat i) :
    ∃ vtor', vtor'.countLeft = 0 ∧ Runs (vtor.visitAll d members) s (value, vtor') rest := by
  induction h generalizing vtor w s with
  | nil i =>
      obtain ⟨hzero, rfl⟩ := hahead
      exact ⟨vtor, UInt32.toNat_inj.mp hzero, runs_pure.mpr ⟨rfl, rfl⟩⟩
  | @unset m members i value fields hrest ih =>
      have hskip := hahead.skips hwhich hrest.bounds
      obtain ⟨vtor', hend, hrun⟩ := ih (List.forall_mem_cons.mp undone).2
        (hahead.advance (vtor.which + 1)) (which_succ hwhich)
      have hvisit : Runs (vtor.visit d m) s (none, { vtor with which := vtor.which + 1 }) s :=
        runs_visit.mpr (Or.inr ⟨hskip, rfl, rfl, rfl⟩)
      exact ⟨vtor', hend, runs_visitAll_cons.mpr ⟨_, s, hvisit, hrun⟩⟩
  | @set m members x value f fields packs hrest ih =>
      obtain ⟨hcount, rfl, hnext, rfl⟩ := hahead
      have htake : 0 < vtor.countLeft ∧ vtor.which = vtor.nextWhich :=
        ⟨countLeft_pos.mpr (hcount ▸ Nat.succ_pos _), by rw [hwhich, hnext, f.named]⟩
      have hleft : (vtor.countLeft - 1).toNat = fields.length := by
        rw [countLeft_pred htake.1, hcount, Nat.add_one_sub_one]
      obtain ⟨next, w, t, hread, hwhich', hahead'⟩ :=
        runs_maybeReadNextWhich { vtor with countLeft := vtor.countLeft - 1 } rest hleft
      obtain ⟨vtor', hend, hrun⟩ := ih (List.forall_mem_cons.mp undone).2
        (hahead'.advance (next.which + 1)) (which_succ (hwhich'.trans hwhich))
      have hvisit : Runs (vtor.visit d m) (f.bytes ++ (encodeAll fields ++ rest))
          (some x, { next with which := next.which + 1 }) t :=
        runs_visit.mpr (Or.inl ⟨htake, x, _, next, (undone m (List.mem_cons_self ..)).runs packs,
          hread, rfl, rfl⟩)
      exact ⟨vtor', hend, runs_visitAll_cons.mpr ⟨_, t, hvisit, hrun⟩⟩

/-- What the visitor took are the fields of what it gives. -/
theorem visitAll_inv {vtor vtor' : UnpackVisitor} {w : UInt64} {s rest : Bytes}
    (hrun : Runs (vtor.visitAll d members) s (value, vtor') rest) (hend : vtor'.countLeft = 0)
    (hmembers : T.members.drop i = members) (hint : unsignedInt.RepacksIn s)
    (repacks : ∀ m ∈ members, (m.codec d).RepacksIn s) (hwhich : vtor.which = UInt32.ofNat i)
    (hnext : 0 < vtor.countLeft → vtor.nextWhich = w.toUInt32) :
    ∃ fields : List (TaggedField T d), Spells members i value fields ∧ Ahead vtor w fields s rest := by
  induction members generalizing i vtor w s with
  | nil =>
      obtain ⟨hpair, rfl⟩ := runs_pure.mp hrun
      obtain ⟨rfl, rfl⟩ := Prod.mk.inj hpair
      exact ⟨[], .nil i, congrArg UInt32.toNat hend, rfl⟩
  | cons m members ih =>
      obtain ⟨hm, hrest⟩ := member_of_drop hmembers
      obtain ⟨x, value⟩ := value
      obtain ⟨next, t, hvisit, hothers⟩ := runs_visitAll_cons.mp hrun
      have hlater := fun m' hm' => repacks m' (List.mem_cons_of_mem m hm')
      rcases runs_visit.mp hvisit with ⟨⟨hsome, heq⟩, temp, u, next', htemp, hread, rfl, rfl⟩ |
        ⟨hskip, rfl, rfl, rfl⟩
      · obtain ⟨b, hb, rfl⟩ := (repacks m (List.mem_cons_self ..)).split htemp
        obtain ⟨hwhich', hcount', hsuffix, w', hw', hbefore⟩ :=
          maybeReadNextWhich_inv (T := T) (d := d) hread (hint.of_suffix (List.suffix_append b u))
        have hin : t <:+ b ++ u := hsuffix.trans (List.suffix_append b u)
        obtain ⟨fields, hspells, hahead⟩ := ih hothers hrest (hint.of_suffix hin)
          (fun m' hm' => (hlater m' hm').of_suffix hin) (which_succ (hwhich'.trans hwhich)) hw'
        have hahead' : Ahead next' w' fields t rest := hahead.advance next'.which
        let f : TaggedField T d :=
          { tag := w, position := i, bytes := b, named := (hnext hsome).symm.trans (heq.symm.trans hwhich),
            packed := ⟨m, hm, temp, hb⟩ }
        refine ⟨f :: fields, Spells.set (f := f) hb hspells, ?_, rfl, hnext hsome, ?_⟩
        · have hleft := countLeft_pred hsome
          have hpos := countLeft_pos.mp hsome
          rw [← hahead'.count, hcount', hleft]
          omega
        · rw [hbefore fields rest hahead']
      · obtain ⟨fields, hspells, hahead⟩ := ih hothers hrest hint hlater (which_succ hwhich) hnext
        exact ⟨fields, .unset hspells, hahead.advance vtor.which⟩

end Spelling

/-! ## Whole streams -/

/-- A stream of some fields, with a count in front of them. -/
def announced (count : UInt64) (fields : List (TaggedField T d)) : Bytes :=
  packUnsignedInt count ++ encodeAll fields

theorem runs_create {s u : Bytes} {next : UnpackVisitor} :
    Runs (UnpackVisitor.create (d + 1)) s next u ↔ ∃ (count : UInt64) (t : Bytes),
      Runs unsignedInt.unpack s count t ∧
        Runs { countLeft := count.toUInt32 : UnpackVisitor }.maybeReadNextWhich t next u := by
  simp [UnpackVisitor.create]

theorem runs_unpack {value : Values T.members} {s rest : Bytes} :
    Runs (T.unpack (d + 2)) s value rest ↔ ∃ (count : UInt64) (t : Bytes) (next : UnpackVisitor)
      (u : Bytes) (vtor : UnpackVisitor), Runs unsignedInt.unpack s count t ∧
        Runs { countLeft := count.toUInt32 : UnpackVisitor }.maybeReadNextWhich t next u ∧
        Runs (next.visitAll d T.members) u (value, vtor) rest ∧ vtor.countLeft = 0 := by
  have hdepth : fcAssert (decide (0 < d + 2)) "_max_depth > 0" = .ok () := by simp
  rw [ExtensionType.unpack, hdepth, runs_bind_ofExcept]
  constructor
  · intro ⟨_, _, hrun⟩
    obtain ⟨next, u, hcreate, hrun⟩ := runs_bind.mp hrun
    obtain ⟨count, t, hcount, hread⟩ := runs_create.mp hcreate
    obtain ⟨⟨value', vtor⟩, t', hvisit, hrun⟩ := runs_bind.mp hrun
    obtain ⟨_, hend, hrun⟩ := runs_bind_ofExcept.mp hrun
    obtain ⟨rfl, rfl⟩ := runs_pure.mp hrun
    exact ⟨count, t, next, u, vtor, hcount, hread, hvisit, by simpa using hend⟩
  · intro ⟨count, t, next, u, vtor, hcount, hread, hvisit, hend⟩
    refine ⟨(), rfl, runs_bind.mpr ⟨next, u, runs_create.mpr ⟨count, t, hcount, hread⟩, ?_⟩⟩
    refine runs_bind.mpr ⟨(value, vtor), rest, hvisit, ?_⟩
    exact runs_bind_ofExcept.mpr ⟨(), by simpa using hend, runs_pure.mpr ⟨rfl, rfl⟩⟩

section Streams

variable {value : Values T.members} {fields fields' : List (TaggedField T d)} {s rest rest' : Bytes}
  {count : UInt64}

/-- The reader takes whatever count and tags agree in 32 bits with the members that are set. -/
theorem Spells.runs_unpack (h : Spells T.members 0 value fields)
    (undone : ∀ m ∈ T.members, (m.codec d).Undoes)
    (hcount : count.toUInt32 = UInt32.ofNat fields.length) (rest : Bytes) :
    Runs (T.unpack (d + 2)) (announced count fields ++ rest) value rest := by
  have hleft : count.toUInt32.toNat = fields.length := by
    rw [hcount, UInt32.toNat_ofNat_of_lt' (h.length_le.trans_lt T.few)]
  obtain ⟨next, w, t, hread, hwhich, hahead⟩ :=
    runs_maybeReadNextWhich { countLeft := count.toUInt32 } rest hleft
  obtain ⟨vtor, hend, hrun⟩ := h.runs_visitAll undone hahead hwhich
  rw [announced, List.append_assoc]
  exact BtcmChain.runs_unpack.mpr ⟨count, _, next, t, vtor, unsignedInt_undoes.runs rfl, hread, hrun, hend⟩

/-- What the reader takes is spelled by fields, with a count and tags that agree in 32 bits. -/
theorem unpack_inv (hrun : Runs (T.unpack (d + 2)) s value rest) (hint : unsignedInt.RepacksIn s)
    (repacks : ∀ m ∈ T.members, (m.codec d).RepacksIn s) :
    ∃ (count : UInt64) (fields : List (TaggedField T d)), Spells T.members 0 value fields ∧
      count.toUInt32 = UInt32.ofNat fields.length ∧ s = announced count fields ++ rest := by
  obtain ⟨count, t, next, u, vtor, hcount, hread, hvisit, hend⟩ := runs_unpack.mp hrun
  obtain ⟨b, hb, rfl⟩ := hint.split hcount
  obtain rfl : packUnsignedInt count = b := Except.ok.inj hb
  obtain ⟨hwhich, hleft, hsuffix, w, hnext, hbefore⟩ :=
    maybeReadNextWhich_inv (T := T) (d := d) hread (hint.of_suffix (List.suffix_append _ t))
  have hin := hsuffix.trans (List.suffix_append (packUnsignedInt count) t)
  obtain ⟨fields, hspells, hahead⟩ := visitAll_inv hvisit hend List.drop_zero (hint.of_suffix hin)
    (fun m hm => (repacks m hm).of_suffix hin) hwhich hnext
  refine ⟨count, fields, hspells, ?_, ?_⟩
  · have hcount' : count.toUInt32.toNat = fields.length := (congrArg UInt32.toNat hleft).symm.trans hahead.count
    rw [← hcount', UInt32.ofNat_toNat]
  · rw [announced, List.append_assoc, hbefore fields rest hahead]

/-- Where one list of fields is laid out, a longer one only adds to it. -/
theorem encodeAll_prefix (undone : ∀ m ∈ T.members, (m.codec d).Undoes)
    (hle : fields.length ≤ fields'.length)
    (heq : encodeAll fields ++ rest = encodeAll fields' ++ rest') :
    ∃ later : List (TaggedField T d), fields'.map tag = fields.map tag ++ later.map tag ∧
      rest = encodeAll later ++ rest' := by
  induction fields generalizing fields' with
  | nil => exact ⟨fields', rfl, heq⟩
  | cons f fields ih =>
      cases fields' with
      | nil => exact absurd hle (Nat.not_succ_le_zero _)
      | cons g fields' =>
          simp only [encodeAll_cons, List.append_assoc] at heq
          obtain ⟨htag, -, heq⟩ := unsignedInt_undoes.unique rfl rfl heq
          have hposition : f.position = g.position := by rw [← f.tag_mod, ← g.tag_mod, htag]
          obtain ⟨m, hm, x, hx⟩ := f.packed
          obtain ⟨m', hm', y, hy⟩ := g.packed
          rw [← hposition] at hm'
          obtain rfl := Option.some.inj (hm.symm.trans hm')
          obtain ⟨-, -, heq⟩ := (undone m (List.mem_of_getElem? hm)).unique hx hy heq
          obtain ⟨later, htags, hrest⟩ := ih (Nat.le_of_succ_le_succ hle) heq
          exact ⟨later, by simp [htag, htags], hrest⟩

/-- The tags are strictly increasing places of members. -/
def ExtensionType.InOrder (T : ExtensionType) (tags : List UInt64) : Prop :=
  tags.Pairwise (· < ·) ∧ ∀ n ∈ tags, n.toNat < T.members.length

theorem ExtensionType.InOrder.left {tags tags' : List UInt64} (h : T.InOrder (tags ++ tags')) :
    T.InOrder tags :=
  ⟨(List.pairwise_append.mp h.1).1, fun n hn => h.2 n (List.mem_append_left _ hn)⟩

theorem ExtensionType.InOrder.length_le {tags : List UInt64} (h : T.InOrder tags) :
    tags.length ≤ T.members.length := by
  have hincreasing : (tags.map UInt64.toNat).Pairwise (· < ·) :=
    List.pairwise_map.mpr (h.1.imp UInt64.lt_iff_toNat_lt.mp)
  have hnodup : (tags.map UInt64.toNat).Nodup := hincreasing.imp Nat.ne_of_lt
  have hsubset : tags.map UInt64.toNat ⊆ List.range T.members.length := fun p hp => by
    obtain ⟨n, hn, rfl⟩ := List.mem_map.mp hp
    exact List.mem_range.mpr (h.2 n hn)
  simpa using List.Nodup.length_le_of_subset hnodup hsubset

theorem inOrder_of_increasing (hincreasing : (fields.map position).Pairwise (· < ·))
    (htags : ∀ f ∈ fields, f.tag.toNat = f.position) : T.InOrder (fields.map tag) := by
  refine ⟨?_, fun n hn => ?_⟩
  · rw [List.pairwise_map] at hincreasing ⊢
    refine hincreasing.imp_of_mem fun {f g} hf hg hlt => ?_
    rwa [UInt64.lt_iff_toNat_lt, htags f hf, htags g hg]
  · obtain ⟨f, hf, rfl⟩ := List.mem_map.mp hn
    rw [htags f hf]
    exact f.position_lt

/-- What is read of `s` stands there as it would be packed. -/
structure CanonicalAt (T : ExtensionType) (d : Nat) (s : Bytes) : Prop where
  /-- What is accepted announces as many fields as there are, for members in their order, and is
  packed as it was. -/
  accepts : ∀ value rest, Runs (T.unpack (d + 2)) s value rest →
    ∃ (count : UInt64) (fields : List (TaggedField T d)), count.toNat = fields.length ∧
      T.InOrder (fields.map tag) ∧ s = announced count fields ++ rest ∧
      T.pack (d + 2) value = .ok (announced count fields)
  /-- An announced field is refused if its tag is unknown, repeated or out of order. -/
  refuses : ∀ (count : UInt64) (fields : List (TaggedField T d)) (n : UInt64) (rest : Bytes),
    fields.length < count.toNat → s = announced count fields ++ (packUnsignedInt n ++ rest) →
    ¬ T.InOrder (fields.map tag ++ [n]) → ∀ value rest', ¬ Runs (T.unpack (d + 2)) s value rest'

/-- `s` begins like the encoding of a value, but the count or a tag has been raised by a multiple of
`2 ^ 32`. -/
def RaisedAt (T : ExtensionType) (d : Nat) (s : Bytes) : Prop :=
  ∃ (count : UInt64) (fields : List (TaggedField T d)) (rest : Bytes),
    s = announced count fields ++ rest ∧ (fields.map position).Pairwise (· < ·) ∧
    count.toNat % 2 ^ 32 = fields.length ∧
    (2 ^ 32 ≤ count.toNat ∨ ∃ f ∈ fields, 2 ^ 32 ≤ f.tag.toNat)

theorem toUInt32_eq_ofNat {n : Nat} (hn : n < 2 ^ 32) :
    count.toUInt32 = UInt32.ofNat n ↔ count.toNat % 2 ^ 32 = n := by
  rw [← UInt32.toNat_inj, UInt64.toNat_toUInt32, UInt32.toNat_ofNat_of_lt' hn]

theorem announced_inj {count' : UInt64}
    (heq : announced count fields ++ rest = announced count' fields' ++ rest') :
    count = count' ∧ encodeAll fields ++ rest = encodeAll fields' ++ rest' := by
  rw [announced, announced, List.append_assoc, List.append_assoc] at heq
  obtain ⟨hcount, -, hfields⟩ := unsignedInt_undoes.unique rfl rfl heq
  exact ⟨hcount, hfields⟩

/-- Unpacking an extension undoes packing it, when it does so for every member. -/
theorem ExtensionType.undoes (undone : ∀ m ∈ T.members, (m.codec d).Undoes) :
    (T.codec (d + 2)).Undoes := by
  intro value
  obtain ⟨fields, hspells, htags⟩ := exists_fields undone List.drop_zero value
  exact ⟨announced (UInt64.ofNat fields.length) fields, hspells.pack htags,
    hspells.runs_unpack undone (UInt64.toUInt32_ofNat' _)⟩

/-- What has been raised is taken, but not in the form it is packed in. -/
theorem not_raisedAt (undone : ∀ m ∈ T.members, (m.codec d).Undoes) (h : CanonicalAt T d s) :
    ¬ RaisedAt T d s := by
  intro ⟨count, fields, rest, hs, hincreasing, hcount, hraised⟩
  obtain ⟨value, hspells⟩ := exists_spells List.drop_zero hincreasing fun f _ => f.position.zero_le
  have hrun := hspells.runs_unpack undone
    ((toUInt32_eq_ofNat (hspells.length_le.trans_lt T.few)).mpr hcount) rest
  obtain ⟨count', fields', hcount', horder, heq, -⟩ := h.accepts value rest (hs ▸ hrun)
  obtain ⟨rfl, hfields⟩ := announced_inj (hs.symm.trans heq)
  have hbelow : count.toNat < 2 ^ 32 := by
    have hlength := horder.length_le
    rw [List.length_map] at hlength
    exact (hcount' ▸ hlength).trans_lt T.few
  have hle : fields.length ≤ fields'.length := by
    rw [← hcount', ← hcount]
    exact Nat.mod_le ..
  obtain ⟨later, htags, -⟩ := encodeAll_prefix undone hle hfields
  rcases hraised with hbig | ⟨f, hf, hbig⟩
  · omega
  · have hin : f.tag ∈ fields'.map tag := htags ▸ List.mem_append_left _ (List.mem_map_of_mem hf)
    exact absurd ((horder.2 f.tag hin).trans T.few) (Nat.not_lt.mpr hbig)

/-- What is taken is in the form it is packed in, unless it has been raised. -/
theorem accepted_canonical (hint : unsignedInt.RepacksIn s)
    (repacks : ∀ m ∈ T.members, (m.codec d).RepacksIn s) (h : ¬ RaisedAt T d s)
    (hrun : Runs (T.unpack (d + 2)) s value rest) :
    ∃ (count : UInt64) (fields : List (TaggedField T d)), count.toNat = fields.length ∧
      T.InOrder (fields.map tag) ∧ s = announced count fields ++ rest ∧
      T.pack (d + 2) value = .ok (announced count fields) := by
  obtain ⟨count, fields, hspells, hcount, hs⟩ := unpack_inv hrun hint repacks
  have hmod := (toUInt32_eq_ofNat (hspells.length_le.trans_lt T.few)).mp hcount
  have hlow : count.toNat < 2 ^ 32 ∧ ∀ f ∈ fields, f.tag.toNat < 2 ^ 32 := by
    by_contra hbig
    refine h ⟨count, fields, rest, hs, hspells.increasing, hmod, ?_⟩
    by_contra hnot
    simp only [not_or, not_exists, not_and, Nat.not_le] at hnot
    exact hbig hnot
  have hlength : count.toNat = fields.length := by rw [← hmod, Nat.mod_eq_of_lt hlow.1]
  have htags : ∀ f ∈ fields, f.tag.toNat = f.position := fun f hf => by
    rw [← f.tag_mod, Nat.mod_eq_of_lt (hlow.2 f hf)]
  refine ⟨count, fields, hlength, inOrder_of_increasing hspells.increasing htags, hs, ?_⟩
  rw [hspells.pack htags, ← hlength, UInt64.ofNat_toNat]
  rfl

theorem canonicalAt (undone : ∀ m ∈ T.members, (m.codec d).Undoes) (hint : unsignedInt.RepacksIn s)
    (repacks : ∀ m ∈ T.members, (m.codec d).RepacksIn s) (h : ¬ RaisedAt T d s) :
    CanonicalAt T d s := by
  refine ⟨fun value rest => accepted_canonical hint repacks h, ?_⟩
  intro count fields n rest hless hs hdisorder value rest' hrun
  obtain ⟨count', fields', hcount', horder, heq, -⟩ := accepted_canonical hint repacks h hrun
  obtain ⟨rfl, hfields⟩ := announced_inj (hs.symm.trans heq)
  obtain ⟨later, htags, hnext⟩ := encodeAll_prefix undone (hcount' ▸ Nat.le_of_lt hless) hfields
  cases later with
  | nil =>
      have hlength := congrArg List.length htags
      simp only [List.map_nil, List.append_nil, List.length_map] at hlength
      omega
  | cons g later =>
      rw [encodeAll_cons, List.append_assoc] at hnext
      obtain ⟨rfl, -, -⟩ := unsignedInt_undoes.unique rfl rfl hnext
      rw [htags, List.map_cons, ← List.singleton_append, ← List.append_assoc] at horder
      exact hdisorder horder.left

/-- Extensions are read as they were packed; and streams are only taken in the form they are packed in,
but for those in which the count or a tag has been raised by a multiple of `2 ^ 32`. -/
theorem extension_canonical_iff (T : ExtensionType) (d : Nat)
    (undone : ∀ m ∈ T.members, (m.codec d).Undoes) (s : Bytes) (hint : unsignedInt.RepacksIn s)
    (repacks : ∀ m ∈ T.members, (m.codec d).RepacksIn s) :
    (T.codec (d + 2)).Undoes ∧ (CanonicalAt T d s ↔ ¬ RaisedAt T d s) :=
  ⟨ExtensionType.undoes undone, not_raisedAt undone, canonicalAt undone hint repacks⟩

end Streams

/-! ## The extension of a report -/

theorem reportExtensions_undone (d : Nat) :
    ∀ m ∈ reportExtensions.members, (m.codec (d + 2)).Undoes := by
  intro m hm
  rcases List.mem_pair.mp hm with rfl | rfl
  · exact rawString_undoes d
  · exact unsignedInt_undoes

/-- The extension of a report is read as it was packed. -/
theorem reportExtensions_undoes (d : Nat) : (reportExtensions.codec (d + 4)).Undoes :=
  ExtensionType.undoes (reportExtensions_undone d)

theorem extension_canonical_iff_report :
    (reportExtensions.codec 1000).Undoes ∧
      (CanonicalAt reportExtensions 998 [2, 0, 2, 97, 98, 1, 172, 2] ↔
        ¬ RaisedAt reportExtensions 998 [2, 0, 2, 97, 98, 1, 172, 2]) := by
  refine extension_canonical_iff reportExtensions 998 (reportExtensions_undone 996) _
    (PrefixCodec.repacksIn_of_tails (by decide)) fun m hm => ?_
  rcases List.mem_pair.mp hm with rfl | rfl
  · exact PrefixCodec.repacksIn_of_tails (by decide)
  · exact PrefixCodec.repacksIn_of_tails (by decide)

/-- The tag `2 ^ 32 + 1` is read as the tag 1, and the count `2 ^ 32` as an empty extension. -/
theorem raised_extension_taken :
    unsignedInt.RepacksIn [1, 0x81, 0x80, 0x80, 0x80, 0x10, 7] ∧
    (∀ m ∈ reportExtensions.members, (m.codec 998).Undoes ∧
      (m.codec 998).RepacksIn [1, 0x81, 0x80, 0x80, 0x80, 0x10, 7]) ∧
    Runs (reportExtensions.unpack 1000) [1, 0x81, 0x80, 0x80, 0x80, 0x10, 7]
      (none, some (7 : UInt64), ()) [] ∧
    reportExtensions.pack 1000 (none, some (7 : UInt64), ()) = .ok [1, 1, 7] ∧
    Runs (reportExtensions.unpack 1000) [0x80, 0x80, 0x80, 0x80, 0x10] (none, none, ()) [] ∧
    reportExtensions.pack 1000 (none, none, ()) = .ok [0] ∧
    ¬ CanonicalAt reportExtensions 998 [1, 0x81, 0x80, 0x80, 0x80, 0x10, 7] := by
  have hrun : Runs (reportExtensions.unpack 1000) [1, 0x81, 0x80, 0x80, 0x80, 0x10, 7]
      (none, some (7 : UInt64), ()) [] := rfl
  have hpack : reportExtensions.pack 1000 (none, some (7 : UInt64), ()) = .ok [1, 1, 7] := rfl
  refine ⟨PrefixCodec.repacksIn_of_tails (by decide), fun m hm => ?_, hrun, hpack, rfl, rfl, ?_⟩
  · refine ⟨reportExtensions_undone 996 m hm, ?_⟩
    rcases List.mem_pair.mp hm with rfl | rfl
    · exact PrefixCodec.repacksIn_of_tails (by decide)
    · exact PrefixCodec.repacksIn_of_tails (by decide)
  · intro hcanonical
    obtain ⟨count, fields, -, -, hs, hbytes⟩ := hcanonical.accepts _ _ hrun
    have hsame := Except.ok.inj (hpack.symm.trans hbytes)
    rw [← hsame] at hs
    exact absurd hs (by decide)

end BtcmChain
