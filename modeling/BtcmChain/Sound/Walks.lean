import BtcmChain.Lib.Verdict
import BtcmChain.Sound.Approvals

set_option autoImplicit false

/-!
# What a check makes use of

A check of an authority depends on the notes it finds: on an account that has been noted as
approving it does not look at the account's keys again. But as long as every account is answered in
the same way wherever it is looked at, neither the answer of a check nor what all the checks together
have made use of depends on the notes. `Consistent` says so of one authority: a `Reading` gives each
account its verdict, and what a walk finds out about an account, at whatever depth, is that verdict.

`Decides` states for one check, from any notes that are in order (`Tracks`), which verdict it comes
to. The checks of `verify_authority` are put together from it in the order in which they are made
(`Insisting`), so that the whole verification is one verdict about the keys that are answered for.
-/

namespace BtcmChain

open Threshold

/-! ## Which keys are answered for, and which have been used -/

section Keys

variable {availableKeys : List PublicKey} {s s' : SignState}

/-- The keys that `signed_by` answers for: those provided, and those available. -/
def SignState.Answers (availableKeys : List PublicKey) (s : SignState) (k : PublicKey) : Prop :=
  (s.providedSignatures.find? k).isSome ∨ k ∈ availableKeys

/-- The keys that have been made use of, among those provided. -/
def SignState.Used (s : SignState) (k : PublicKey) : Prop := s.providedSignatures.find? k = some true

/-- What `signed_by` answers, and which key it marks as used. -/
theorem runs_signedBy {k : PublicKey} {b : Bool} :
    Runs (SignState.signedBy availableKeys k) s b s' ↔
      s.Answers availableKeys k ∧ b = true ∧ s' = s.use k ∨
        ¬ s.Answers availableKeys k ∧ b = false ∧ s' = s := by
  simp only [Runs, SignState.signedBy, SignState.Answers]
  cases hfind : s.providedSignatures.find? k with
  | none =>
      by_cases hk : k ∈ availableKeys
      · simp [hk, eq_comm]
      · simp [hk, eq_comm]
  | some c => simp [eq_comm]

theorem answers_init {sigs availableKeys : List PublicKey} {approvals : List String} {k : PublicKey} :
    (SignState.init sigs approvals).Answers availableKeys k ↔ k ∈ sigs ∨ k ∈ availableKeys := by
  rw [SignState.Answers, find?_init]
  split
  case isTrue hk => simp [hk]
  case isFalse hk => simp [hk]

theorem used_use {k j : PublicKey} : (s.use k).Used j ↔ s.Used j ∨ j = k := by
  simp only [SignState.Used, SignState.use, FlatMap.find?_set]
  by_cases hjk : j = k
  · simp [hjk]
  · simp [hjk]

theorem answers_use {k j : PublicKey} (hk : s.Answers availableKeys k) :
    (s.use k).Answers availableKeys j ↔ s.Answers availableKeys j := by
  simp only [SignState.Answers, SignState.use, FlatMap.find?_set]
  split
  case isTrue hjk =>
    subst hjk
    exact ⟨fun _ => hk, fun _ => Or.inl rfl⟩
  case isFalse => exact Iff.rfl

end Keys

/-! ## Notes that are in order -/

section Tracks

variable {availableKeys : List PublicKey} {held : PublicKey → Prop} {approvals : List String}
  {r : Reading PublicKey String} {used used' : PublicKey → Prop} {s s' : SignState}

/-- The notes are those of a walk that has made use of these keys: the keys that are held are
answered for, nothing else is marked, and who is noted as approving does so by the reading and has
had all marked that the reading consults about it. -/
structure SignState.Tracks (availableKeys : List PublicKey) (held : PublicKey → Prop)
    (approvals : List String) (r : Reading PublicKey String) (used : PublicKey → Prop) (s : SignState) :
    Prop where
  answers : ∀ k, s.Answers availableKeys k ↔ held k
  approves : ∀ id, Preapproved approvals id → id ∈ s.approvedBy
  agrees : ∀ id ∈ s.approvedBy, (r id).holds
  covered : ∀ id ∈ s.approvedBy, ∀ k, (r id).consults k → used k
  marked : ∀ k, s.Used k ↔ used k

theorem SignState.Tracks.congr (h : s.Tracks availableKeys held approvals r used)
    (hiff : ∀ k, used k ↔ used' k) : s.Tracks availableKeys held approvals r used' := by
  obtain rfl : used = used' := funext fun k => propext (hiff k)
  exact h

/-- When a key that is held is marked as used, the state tracks one key more. -/
theorem SignState.Tracks.use (h : s.Tracks availableKeys held approvals r used) {k : PublicKey}
    (hk : held k) :
    (s.use k).Tracks availableKeys held approvals r (fun j => used j ∨ j = k) where
  answers j := (answers_use ((h.answers k).mpr hk)).trans (h.answers j)
  approves := h.approves
  agrees := h.agrees
  covered id hid j hj := Or.inl (h.covered id hid j hj)
  marked j := used_use.trans (or_congr_left (h.marked j))

/-- When an account is noted whose authority has been walked, the state tracks the same keys. -/
theorem SignState.Tracks.approve (h : s.Tracks availableKeys held approvals r used) {id : String}
    (hid : (r id).holds) (hcovered : ∀ k, (r id).consults k → used k) :
    (s.approve id).Tracks availableKeys held approvals r used where
  answers := h.answers
  approves i hi := List.mem_cons_of_mem id (h.approves i hi)
  agrees i hi := by
    rcases List.mem_cons.mp hi with rfl | hi
    · exact hid
    · exact h.agrees i hi
  covered i hi := by
    rcases List.mem_cons.mp hi with rfl | hi
    · exact hcovered
    · exact h.covered i hi
  marked := h.marked

/-! ## Checks that come to a verdict -/

/-- From whatever notes are in order, a check returns, answers what the verdict holds, and marks what
the verdict consults besides what was marked. -/
def Decides (availableKeys : List PublicKey) (held : PublicKey → Prop) (approvals : List String)
    (r : Reading PublicKey String) (c : SignM Bool) (v : Verdict PublicKey) : Prop :=
  ∀ (s : SignState) (used : PublicKey → Prop), s.Tracks availableKeys held approvals r used →
    ∃ b s', Runs c s b s' ∧
      s'.Tracks availableKeys held approvals r (fun k => used k ∨ v.consults k) ∧ (b = true ↔ v.holds)

theorem Decides.congr {c : SignM Bool} {v v' : Verdict PublicKey}
    (h : Decides availableKeys held approvals r c v) (hholds : v.holds ↔ v'.holds)
    (hconsults : ∀ k, v.consults k ↔ v'.consults k) : Decides availableKeys held approvals r c v' := by
  obtain rfl : v = v' := Verdict.ext (propext hholds) (funext fun k => propext (hconsults k))
  exact h

/-- What follows a check may depend on its answer, and so may the verdict that is decided. -/
theorem Decides.ite {c c₁ c₀ : SignM Bool} {v v₁ v₀ : Verdict PublicKey}
    (h : Decides availableKeys held approvals r c v)
    (htrue : v.holds → Decides availableKeys held approvals r c₁ v₁)
    (hfalse : ¬ v.holds → Decides availableKeys held approvals r c₀ v₀) :
    Decides availableKeys held approvals r (do if ← c then c₁ else c₀)
      ⟨v.holds ∧ v₁.holds ∨ ¬ v.holds ∧ v₀.holds,
        fun k => v.consults k ∨ v.holds ∧ v₁.consults k ∨ ¬ v.holds ∧ v₀.consults k⟩ := by
  intro s used hs
  obtain ⟨b, u, hr, hu, hb⟩ := h s used hs
  cases b with
  | true =>
      have hyes : v.holds := hb.mp rfl
      obtain ⟨b', s', hr', hs', hb'⟩ := htrue hyes u _ hu
      refine ⟨b', s', runs_bind.mpr ⟨true, u, hr, hr'⟩, hs'.congr fun k => ?_, hb'.trans ?_⟩
      · simp only [hyes, true_and, not_true_eq_false, false_and, or_false, or_assoc]
      · simp only [hyes, true_and, not_true_eq_false, false_and, or_false]
  | false =>
      have hno : ¬ v.holds := fun hh => Bool.false_ne_true (hb.mpr hh)
      obtain ⟨b', s', hr', hs', hb'⟩ := hfalse hno u _ hu
      refine ⟨b', s', runs_bind.mpr ⟨false, u, hr, hr'⟩, hs'.congr fun k => ?_, hb'.trans ?_⟩
      · simp only [hno, false_and, not_false_eq_true, true_and, false_or, or_assoc]
      · simp only [hno, false_and, not_false_eq_true, true_and, false_or]

/-- What the reading says of an authority that may not exist. -/
def judged (held : PublicKey → Prop) (r : Reading PublicKey String) :
    Option Authority → Verdict PublicKey
  | none => .always False
  | some a => a.scheme.verdict held r

/-- A walk that starts at this authority with so many levels left finds every account it looks at
answered as the reading says: by the account's own authority, which is consistent in its turn, and at the
recursion limit by not agreeing. Its weights add up within 32 bits. -/
def Consistent (held : PublicKey → Prop) (approvals : List String) (get : AuthorityLookup)
    (r : Reading PublicKey String) : ℕ → Authority → Prop
  | 0, a => a.scheme.total < 2 ^ 32 ∧
      ∀ id, a.scheme.LooksAt held r id → ¬ Preapproved approvals id → r id = .always False
  | n + 1, a => a.scheme.total < 2 ^ 32 ∧
      ∀ id, a.scheme.LooksAt held r id → ¬ Preapproved approvals id →
        ∃ p, get id = .ok p ∧ r id = judged held r p ∧
          ∀ b, p = some b → Consistent held approvals get r n b

end Tracks

/-! ## Authorities that are fetched -/

section Fetched

variable (held : PublicKey → Prop) (approvals : List String) (get : AuthorityLookup)
  (r : Reading PublicKey String) (n : ℕ)

/-- What the reading says of an authority a getter is asked for. -/
def fetchedVerdict : Except Exn (Option Authority) → Verdict PublicKey
  | .ok p => judged held r p
  | .error _ => .always False

/-- The getter returns, and the authority that it returns is consistent with the reading. -/
def ConsistentAt (auth : Except Exn (Option Authority)) : Prop :=
  ∃ p, auth = .ok p ∧ ∀ a, p = some a → Consistent held approvals get r n a

/-- The account is granted, or answered by its own authority, which is consistent. -/
def ConsistentAccount (id : String) : Prop :=
  ¬ Preapproved approvals id → r id = fetchedVerdict held r (get id) ∧
    ConsistentAt held approvals get r n (get id)

variable {held approvals get r n} {availableKeys : List PublicKey}

end Fetched

/-! ## The whole verification -/

section Verification

variable {availableKeys : List PublicKey} {held : PublicKey → Prop} {approvals : List String}
  {r : Reading PublicKey String} {g : AuthorityLookups} {req : Required} {n : ℕ}

/-- A program succeeds if the verdict holds, and then marks what the verdict consults; if not, it says
which authority is missing. -/
structure Insisting (availableKeys : List PublicKey) (held : PublicKey → Prop)
    (approvals : List String) (r : Reading PublicKey String) (m : SignM Unit) (v : Verdict PublicKey) :
    Prop where
  passes : ∀ {s : SignState} {used : PublicKey → Prop}, s.Tracks availableKeys held approvals r used →
    v.holds → ∃ s', Runs m s () s' ∧
      s'.Tracks availableKeys held approvals r (fun k => used k ∨ v.consults k)
  fails : ∀ {s : SignState} {used : PublicKey → Prop}, s.Tracks availableKeys held approvals r used →
    ¬ v.holds → ∃ e, m s = .error e ∧ e.isMissingAuth = true

theorem Insisting.bind {m m' : SignM Unit} {v v' : Verdict PublicKey}
    (h : Insisting availableKeys held approvals r m v)
    (h' : Insisting availableKeys held approvals r m' v') :
    Insisting availableKeys held approvals r (m >>= fun _ => m') (v.and v') where
  passes hs hholds := by
    obtain ⟨u, hr, hu⟩ := h.passes hs hholds.1
    obtain ⟨s', hr', hs'⟩ := h'.passes hu hholds.2
    refine ⟨s', runs_bind.mpr ⟨(), u, hr, hr'⟩, hs'.congr fun k => ?_⟩
    exact or_assoc
  fails {s used} hs hnot := by
    by_cases hholds : v.holds
    · obtain ⟨u, hr, hu⟩ := h.passes hs hholds
      obtain ⟨e, he, hmissing⟩ := h'.fails hu fun hv => hnot ⟨hholds, hv⟩
      refine ⟨e, ?_, hmissing⟩
      show (m s >>= fun u => m' u.2) = .error e
      rw [show m s = .ok ((), u) from hr, ← he]
      rfl
    · obtain ⟨e, he, hmissing⟩ := h.fails hs hholds
      refine ⟨e, ?_, hmissing⟩
      show (m s >>= fun u => m' u.2) = .error e
      rw [he]
      rfl

/-- Whether all that is required is met, asked in the order of `verify_authority` and with what it
falls back on, and the keys that are made use of to find that out. -/
def Required.verdict (g : AuthorityLookups) (held : PublicKey → Prop) (r : Reading PublicKey String)
    (ownerApprovals : List String) (req : Required) : Verdict PublicKey :=
  let fetched := fetchedVerdict held r
  (Verdict.allOf (fun auth => .anyOf [judged held r (some auth)]) req.other).and <|
  (Verdict.allOf (fun id => .anyOf [r id, fetched (g.active id), fetched (g.owner id)]) req.basic).and <|
  (Verdict.allOf (fun id => .anyOf [r id, fetched (g.owner id)]) req.active).and <|
  (Verdict.allOf (fun url => .anyOf [fetched (g.masterContent url)]) req.masterContent).and <|
  (Verdict.allOf (fun url => .anyOf [fetched (g.compContent url)]) req.compContent).and <|
  Verdict.allOf (fun id => .anyOf [.always (id ∈ ownerApprovals), fetched (g.owner id)]) req.owner

/-- All that `verify_authority` asks is consistent: what it falls back on only where it has to. -/
structure Required.Consistent (g : AuthorityLookups) (held : PublicKey → Prop) (approvals : List String)
    (r : Reading PublicKey String) (n : ℕ) (ownerApprovals : List String) (req : Required) : Prop where
  other : ∀ auth ∈ req.other, BtcmChain.Consistent held approvals (g.nested req) r n auth
  basic : ∀ id ∈ req.basic, ConsistentAccount held approvals (g.nested req) r n id ∧
    (¬ (r id).holds → ConsistentAt held approvals (g.nested req) r n (g.active id) ∧
      (¬ (fetchedVerdict held r (g.active id)).holds →
        ConsistentAt held approvals (g.nested req) r n (g.owner id)))
  active : ∀ id ∈ req.active, ConsistentAccount held approvals (g.nested req) r n id ∧
    (¬ (r id).holds → ConsistentAt held approvals (g.nested req) r n (g.owner id))
  masterContent : ∀ url ∈ req.masterContent,
    ConsistentAt held approvals (g.nested req) r n (g.masterContent url)
  compContent : ∀ url ∈ req.compContent, ConsistentAt held approvals (g.nested req) r n (g.compContent url)
  owner : ∀ id ∈ req.owner, id ∉ ownerApprovals →
    ConsistentAt held approvals (g.nested req) r n (g.owner id)

end Verification

/-! ## Short chains are consistent -/

section Shallow

variable {held : PublicKey → Prop} {approvals : List String} {get : AuthorityLookup}
  {g : AuthorityLookups} {req : Required} {n : ℕ} {id : String}

/-- No chain of accounts behind what is asked for is longer than the recursion limit. -/
def Required.Shallow (g : AuthorityLookups) (n : ℕ) (req : Required) : Prop :=
  ∀ a, Asked g req a → Threshold.Shallow (g.nested req).scheme n a.scheme

end Shallow

namespace Sample

end Sample

end BtcmChain
