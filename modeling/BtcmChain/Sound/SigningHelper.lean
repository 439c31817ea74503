import BtcmChain.Sound.Walks

set_option autoImplicit false

/-!
# The signing helper against the verifier

`get_required_signatures` walks the requirements with every key that is available and returns the
keys it made use of. A walk depends on nothing but which keys are answered for and which accounts
are noted; so the same walk with fewer keys takes the same steps as long as every key that was
made use of is still there. This carries the walk of the verifier with all keys over to the keys
that the helper returns, unless it makes use of one the helper misses: the helper looks at the
direct authorities only, one after the other, and passes over content authorities, and over the
active and owner authorities that the verifier falls back on.
-/

namespace BtcmChain

open Threshold

/-! ## Walks with fewer keys -/

section Walks

variable {α β : Type} {availableKeys availableKeys' : List PublicKey} {get : AuthorityLookup}
  {s s' t t' : SignState}

/-- A walk answers for the same keys all along, and forgets none it has made use of. -/
structure Grows (availableKeys : List PublicKey) (s s' : SignState) : Prop where
  answers : ∀ k, s'.Answers availableKeys k ↔ s.Answers availableKeys k
  used : ∀ k, s.Used k → s'.Used k

theorem Grows.refl (s : SignState) : Grows availableKeys s s := ⟨fun _ => Iff.rfl, fun _ hk => hk⟩

theorem Grows.trans (h : Grows availableKeys s t) (h' : Grows availableKeys t s') :
    Grows availableKeys s s' :=
  ⟨fun k => (h'.answers k).trans (h.answers k), fun k hk => h'.used k (h.used k hk)⟩

/-- Two walks have noted the same so far: who has approved, and which keys were made use of. -/
structure Alike (s t : SignState) : Prop where
  approved : t.approvedBy = s.approvedBy
  marked : ∀ k, t.Used k ↔ s.Used k

/-- From here the first walk can be repeated: fewer keys are answered for, but all that it
makes use of. -/
structure Repeats (availableKeys : List PublicKey) (s : SignState) (used : PublicKey → Prop)
    (availableKeys' : List PublicKey) (t : SignState) : Prop extends Alike s t where
  fewer : ∀ k, t.Answers availableKeys' k → s.Answers availableKeys k
  enough : ∀ k, used k → t.Answers availableKeys' k

/-- A walk that only asks which keys are answered for and which accounts are noted. -/
structure Traversal (m : List PublicKey → SignM α) : Prop where
  grows : ∀ {availableKeys s a s'}, Runs (m availableKeys) s a s' → Grows availableKeys s s'
  repeats : ∀ {availableKeys s a s' availableKeys' t}, Runs (m availableKeys) s a s' →
    Repeats availableKeys s s'.Used availableKeys' t →
    ∃ t', Runs (m availableKeys') t a t' ∧ Alike s' t'

/-- After the first part of a walk, the second can be repeated. -/
theorem Repeats.next {m : List PublicKey → SignM α} {a : α} {used : PublicKey → Prop} (hm : Traversal m)
    (h : Repeats availableKeys s used availableKeys' t) (hr : Runs (m availableKeys) s a s')
    (hr' : Runs (m availableKeys') t a t') (halike : Alike s' t') :
    Repeats availableKeys s' used availableKeys' t' where
  toAlike := halike
  fewer k hk := ((hm.grows hr).answers k).mpr (h.fewer k (((hm.grows hr').answers k).mp hk))
  enough k hk := ((hm.grows hr').answers k).mpr (h.enough k hk)

theorem Traversal.pure (a : α) : Traversal fun _ => (Pure.pure a : SignM α) where
  grows hr := by
    obtain ⟨-, rfl⟩ := runs_pure.mp hr
    exact .refl _
  repeats hr h := by
    obtain ⟨rfl, rfl⟩ := runs_pure.mp hr
    exact ⟨_, runs_pure.mpr ⟨rfl, rfl⟩, h.toAlike⟩

theorem Traversal.bind {m : List PublicKey → SignM α} {f : α → List PublicKey → SignM β} (hm : Traversal m)
    (hf : ∀ a, Traversal (f a)) : Traversal fun av => m av >>= fun a => f a av where
  grows hr := by
    obtain ⟨a, u, h1, h2⟩ := runs_bind.mp hr
    exact (hm.grows h1).trans ((hf a).grows h2)
  repeats hr h := by
    obtain ⟨a, u, h1, h2⟩ := runs_bind.mp hr
    obtain ⟨t₁, h1', halike⟩ := hm.repeats h1
      ⟨h.toAlike, h.fewer, fun k hk => h.enough k (((hf a).grows h2).used k hk)⟩
    obtain ⟨t₂, h2', halike'⟩ := (hf a).repeats h2 (h.next hm h1 h1' halike)
    exact ⟨t₂, runs_bind.mpr ⟨a, t₁, h1', h2'⟩, halike'⟩

theorem Traversal.ite {c : Prop} [Decidable c] {m m' : List PublicKey → SignM α} (hm : Traversal m)
    (hm' : Traversal m') : Traversal fun av => if c then m av else m' av := by
  split
  · exact hm
  · exact hm'

theorem Traversal.ofExcept (e : Except Exn α) : Traversal fun _ => (BtcmChain.ofExcept e : SignM α) where
  grows hr := by
    obtain ⟨-, rfl⟩ := runs_ofExcept.mp hr
    exact .refl _
  repeats hr h := by
    obtain ⟨ha, rfl⟩ := runs_ofExcept.mp hr
    exact ⟨_, runs_ofExcept.mpr ⟨ha, rfl⟩, h.toAlike⟩

theorem Traversal.approved (id : String) : Traversal fun _ => reads fun s => decide (id ∈ s.approvedBy) where
  grows hr := by
    obtain ⟨-, rfl⟩ := runs_reads.mp hr
    exact .refl _
  repeats hr h := by
    obtain ⟨rfl, rfl⟩ := runs_reads.mp hr
    exact ⟨_, runs_reads.mpr ⟨by rw [h.approved], rfl⟩, h.toAlike⟩

theorem Traversal.approve (id : String) : Traversal fun _ => modify fun s => s.approve id where
  grows hr := by
    obtain rfl := runs_modify.mp hr
    exact ⟨fun _ => Iff.rfl, fun _ hk => hk⟩
  repeats hr h := by
    obtain rfl := runs_modify.mp hr
    exact ⟨_, runs_modify.mpr rfl, by simp only [SignState.approve, h.approved], h.marked⟩

theorem Traversal.forM {l : List β} {f : β → List PublicKey → SignM Unit} (hf : ∀ b, Traversal (f b)) :
    Traversal fun av => l.forM fun b => f b av := by
  induction l with
  | nil => exact .pure ()
  | cons b l ih => exact (hf b).bind fun _ => ih

theorem grows_use {k : PublicKey} (hk : s.Answers availableKeys k) :
    Grows availableKeys s (s.use k) where
  answers _ := answers_use hk
  used _ hj := used_use.mpr (Or.inl hj)

theorem Traversal.signedBy (k : PublicKey) : Traversal fun av => SignState.signedBy av k where
  grows hr := by
    rcases runs_signedBy.mp hr with ⟨hk, -, rfl⟩ | ⟨-, -, rfl⟩
    · exact grows_use hk
    · exact .refl _
  repeats hr h := by
    rcases runs_signedBy.mp hr with ⟨hk, rfl, rfl⟩ | ⟨hk, rfl, rfl⟩
    · have hans := h.enough k (used_use.mpr (Or.inr rfl))
      refine ⟨_, runs_signedBy.mpr (Or.inl ⟨hans, rfl, rfl⟩), h.approved, fun j => ?_⟩
      rw [used_use, used_use, h.marked]
    · exact ⟨_, runs_signedBy.mpr (Or.inr ⟨fun hk' => hk (h.fewer k hk'), rfl, rfl⟩), h.toAlike⟩

theorem Traversal.sumKeys (threshold : UInt32) (ks : List (PublicKey × UInt16)) (w : UInt32) :
    Traversal fun av => SignState.sumKeys av threshold ks w := by
  induction ks generalizing w with
  | nil => exact .pure _
  | cons k ks ih =>
      refine (Traversal.signedBy k.1).bind fun signed => ?_
      exact Traversal.ite (Traversal.ite (.pure _) (ih _)) (ih w)

/-- The loop over accounts is a walk too, when `check` is one for the nested accounts. -/
theorem Traversal.sumAccounts {check : Option (List PublicKey → Option Authority → SignM Bool)}
    (hcheck : ∀ f, check = some f → ∀ auth, Traversal fun av => f av auth) (threshold : UInt32)
    (as : List (String × UInt16)) (w : UInt32) :
    Traversal fun av => SignState.sumAccounts get (check.map fun f => f av) threshold as w := by
  induction as generalizing w with
  | nil => exact .pure _
  | cons a as ih =>
      have hcount : Traversal fun av => (if threshold ≤ w + a.2.toUInt32 then Pure.pure true
          else SignState.sumAccounts get (check.map fun f => f av) threshold as
            (w + a.2.toUInt32) : SignM Bool) := Traversal.ite (.pure _) (ih _)
      refine (Traversal.approved a.1).bind fun approved => ?_
      refine Traversal.ite hcount ?_
      cases hc : check with
      | none =>
          subst hc
          exact ih w
      | some f =>
          subst hc
          refine (Traversal.ofExcept (get a.1)).bind fun auth => (hcheck f rfl auth).bind fun satisfied => ?_
          exact Traversal.ite ((Traversal.approve a.1).bind fun _ => hcount) (ih w)

theorem Traversal.checkMembers (check : Option (List PublicKey → Option Authority → SignM Bool))
    (hcheck : ∀ f, check = some f → ∀ auth, Traversal fun av => f av auth) (auth : Authority) :
    Traversal fun av => SignState.checkMembers av get (check.map fun f => f av) auth := by
  refine (Traversal.sumKeys _ _ 0).bind fun byKeys => ?_
  exact Traversal.ite (.pure true) (Traversal.sumAccounts hcheck _ _ _)

theorem Traversal.checkAuthority (n : ℕ) (auth : Option Authority) :
    Traversal fun av => SignState.checkAuthority av get n auth := by
  induction n generalizing auth with
  | zero =>
      cases auth with
      | none => exact .pure false
      | some auth =>
          refine Traversal.checkMembers none ?_ auth
          intro f hf
          cases hf
  | succ n ih =>
      cases auth with
      | none => exact .pure false
      | some auth =>
          refine Traversal.checkMembers (some fun av => SignState.checkAuthority av get n) ?_ auth
          intro f hf
          cases hf
          exact ih

theorem Traversal.checkFetched (n : ℕ) (auth : Except Exn (Option Authority)) :
    Traversal fun av => SignState.checkFetched av get n auth :=
  (Traversal.ofExcept auth).bind fun a => Traversal.checkAuthority n a

theorem Traversal.checkAccount (n : ℕ) (id : String) :
    Traversal fun av => SignState.checkAccount av get n id := by
  refine (Traversal.approved id).bind fun approved => ?_
  exact Traversal.ite (.pure true) (Traversal.checkFetched n (get id))

theorem Traversal.firstOf {cs : List (List PublicKey → SignM Bool)} (hcs : ∀ c ∈ cs, Traversal c) :
    Traversal fun av => BtcmChain.firstOf (cs.map fun c => c av) := by
  induction cs with
  | nil => exact .pure false
  | cons c cs ih =>
      refine (hcs c List.mem_cons_self).bind fun satisfied => ?_
      exact Traversal.ite (.pure true) (ih fun d hd => hcs d (List.mem_cons_of_mem c hd))

/-- Several checks of which one has to succeed are a walk, if each of them is one. -/
theorem Traversal.needOneOf {cs : List (List PublicKey → SignM Bool)} (msg : String)
    (hcs : ∀ c ∈ cs, Traversal c) :
    Traversal fun av => BtcmChain.needOneOf msg (cs.map fun c => c av) :=
  (Traversal.firstOf hcs).bind fun satisfied => .ofExcept (fcAssert satisfied msg)

/-! ## Walks from the start -/

theorem not_used_init {c : List PublicKey} {k : PublicKey} : ¬ (SignState.init c []).Used k := by
  rw [SignState.Used, find?_init]
  split
  · exact fun h => Bool.false_ne_true (Option.some.inj h)
  · intro h
    cases h

/-- What a walk makes use of has signed or is available. -/
theorem Traversal.used {c : List PublicKey} {m : List PublicKey → SignM α} {a : α} (hm : Traversal m)
    (hr : Runs (m availableKeys) (.init c []) a s) {k : PublicKey} (hk : s.Used k) :
    k ∈ c ∨ k ∈ availableKeys := by
  have hans : s.Answers availableKeys k := Or.inl (by rw [hk]; rfl)
  exact answers_init.mp (((hm.grows hr).answers k).mp hans)

/-- A walk from the start is repeated with other signatures and keys, no more of them in all, when
those it makes use of are there. -/
theorem Traversal.again {c : List PublicKey} {m : List PublicKey → SignM α} {a : α} (hm : Traversal m)
    (d availableKeys' : List PublicKey) (hr : Runs (m availableKeys) (.init c []) a s)
    (hfewer : ∀ k, k ∈ d ∨ k ∈ availableKeys' → k ∈ c ∨ k ∈ availableKeys)
    (henough : ∀ k, s.Used k → k ∈ d ∨ k ∈ availableKeys') :
    ∃ t, Runs (m availableKeys') (.init d []) a t ∧ Alike s t :=
  hm.repeats hr
    { approved := rfl
      marked := fun _ => iff_of_false not_used_init not_used_init
      fewer := fun k hk => answers_init.mpr (hfewer k (answers_init.mp hk))
      enough := fun k hk => answers_init.mpr (henough k hk) }

end Walks

/-! ## Direct checks -/

section Direct

variable {α : Type} {g : AuthorityLookups} {req : Required} {n : ℕ} {s s' : SignState}

/-- The getters without those that the verifier falls back on. -/
def AuthorityLookups.direct (g : AuthorityLookups) (req : Required) : AuthorityLookups :=
  { g with
    active := if req.basic.isEmpty then g.active else fun _ => .ok none
    owner := if req.owner.isEmpty then fun _ => .ok none else g.owner }

end Direct

namespace Sample

/-- A content that key 1 manages, and no accounts. -/
def managed : AuthorityLookups := lookups [("ipfs://song", anyOneOf [1] [])]

end Sample

end BtcmChain
