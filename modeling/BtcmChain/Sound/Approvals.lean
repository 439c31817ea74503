import BtcmChain.Sound.Authority

set_option autoImplicit false

/-!
# More signatures, more approvals

A derivation that fits into the recursion limit is found from whatever notes the checker starts
with, so more signatures and more approvals cannot hurt it. One that does not fit may be found
all the same, with the help of an account that an earlier authority has had noted; and there a
further signature can hurt: it lets the earlier check return before it looks at the account.
-/

namespace BtcmChain

open Threshold

/-- The whole weight behind a scheme: that of its keys and of its members. -/
def Threshold.Scheme.total {κ ι : Type} (t : Scheme κ ι) : ℕ := weight t.keys + weight t.members

/-- Weights whose sum fits into 32 bits are added up as they are. -/
theorem toNat_add_weight {w : UInt32} {x : UInt16} (h : w.toNat + x.toNat < 2 ^ 32) :
    (w + x.toUInt32).toNat = w.toNat + x.toNat := by
  rw [UInt32.toNat_add, UInt16.toNat_toUInt32, Nat.mod_eq_of_lt h]

/-! ## Completeness of a check -/

section Complete

variable {sigs : List PublicKey} {approvals : List String} {get : AuthorityLookup}
  {roots : Scheme PublicKey String → Prop} {s : SignState}

/-- The state knows these signatures and approvals, whatever else it has noted on the way. -/
structure SignState.Offers (sigs : List PublicKey) (approvals : List String) (s : SignState) :
    Prop where
  signatures : ∀ k ∈ sigs, (s.providedSignatures.find? k).isSome
  approvals : ∀ id, Preapproved approvals id → id ∈ s.approvedBy

theorem SignState.Offers.use (h : s.Offers sigs approvals) (k : PublicKey) :
    (s.use k).Offers sigs approvals where
  signatures j hj := by
    simp only [SignState.use, FlatMap.find?_set]
    split
    · rfl
    · exact h.signatures j hj
  approvals := h.approvals

theorem SignState.Offers.approve (h : s.Offers sigs approvals) (id : String) :
    (s.approve id).Offers sigs approvals where
  signatures := h.signatures
  approvals i hi := List.mem_cons_of_mem id (h.approvals i hi)

theorem offers_init : (SignState.init sigs approvals).Offers sigs approvals where
  signatures k hk := by rw [find?_init, if_pos hk, Option.isSome_some]
  approvals _ hid := List.mem_cons.mpr hid

/-- A key that has signed counts, and asking for a key takes nothing away from what the state knows.
-/
theorem offers_signedBy (h : s.Offers sigs approvals) (k : PublicKey) :
    ∃ b s', Runs (SignState.signedBy [] k) s b s' ∧ s'.Offers sigs approvals ∧
      (k ∈ sigs → b = true) := by
  simp only [Runs, SignState.signedBy]
  cases hfind : s.providedSignatures.find? k with
  | none =>
      refine ⟨false, s, rfl, h, fun hk => ?_⟩
      have hsome := h.signatures k hk
      rw [hfind] at hsome
      cases hsome
  | some b => exact ⟨true, s.use k, rfl, h.use k, fun _ => rfl⟩

/-- Unless the threshold is reached, all keys that have signed have been counted. -/
theorem offers_sumKeys (h : s.Offers sigs approvals) {threshold : UInt32}
    {ks good : List (PublicKey × UInt16)} (hgood : good.Sublist ks) (hsigs : ∀ k ∈ good, k.1 ∈ sigs)
    {w : UInt32} (hfit : w.toNat + weight (ks.map fun e => (e.1, e.2.toNat)) < 2 ^ 32) :
    ∃ r s', Runs (SignState.sumKeys [] threshold ks w) s r s' ∧ s'.Offers sigs approvals ∧
      (r.1 = false → w.toNat + weight (good.map fun e => (e.1, e.2.toNat)) ≤ r.2.toNat ∧
        r.2.toNat ≤ w.toNat + weight (ks.map fun e => (e.1, e.2.toNat))) := by
  induction hgood generalizing s w with
  | slnil => exact ⟨(false, w), s, runs_pure.mpr ⟨rfl, rfl⟩, h, fun _ => ⟨le_refl _, le_refl _⟩⟩
  | @cons good ks k hsub ih =>
      rw [List.map_cons, weight_cons] at hfit
      obtain ⟨signed, u, h1, hu, -⟩ := offers_signedBy h k.1
      cases signed with
      | false =>
          obtain ⟨r, s', h2, hs', hr⟩ := ih hu hsigs (w := w) (by omega)
          refine ⟨r, s', runs_bind.mpr ⟨false, u, h1, h2⟩, hs', fun hf => ?_⟩
          rw [List.map_cons, weight_cons]
          obtain ⟨hlow, hhigh⟩ := hr hf
          omega
      | true =>
          have hadd : (w + k.2.toUInt32).toNat = w.toNat + k.2.toNat := toNat_add_weight (by omega)
          by_cases hreach : threshold ≤ w + k.2.toUInt32
          · refine ⟨(true, w + k.2.toUInt32), u, runs_bind.mpr ⟨true, u, h1, ?_⟩, hu, nofun⟩
            rw [if_pos rfl, if_pos hreach]
            exact runs_pure.mpr ⟨rfl, rfl⟩
          · obtain ⟨r, s', h2, hs', hr⟩ := ih hu hsigs (w := w + k.2.toUInt32) (by omega)
            refine ⟨r, s', runs_bind.mpr ⟨true, u, h1, ?_⟩, hs', fun hf => ?_⟩
            · rw [if_pos rfl, if_neg hreach]
              exact h2
            · rw [List.map_cons, weight_cons]
              obtain ⟨hlow, hhigh⟩ := hr hf
              omega
  | @cons_cons good ks k hsub ih =>
      rw [List.map_cons, weight_cons] at hfit
      obtain ⟨signed, u, h1, hu, hsigned⟩ := offers_signedBy h k.1
      obtain rfl := hsigned (hsigs k List.mem_cons_self)
      have hadd : (w + k.2.toUInt32).toNat = w.toNat + k.2.toNat := toNat_add_weight (by omega)
      by_cases hreach : threshold ≤ w + k.2.toUInt32
      · refine ⟨(true, w + k.2.toUInt32), u, runs_bind.mpr ⟨true, u, h1, ?_⟩, hu, nofun⟩
        rw [if_pos rfl, if_pos hreach]
        exact runs_pure.mpr ⟨rfl, rfl⟩
      · obtain ⟨r, s', h2, hs', hr⟩ := ih hu (fun j hj => hsigs j (List.mem_cons_of_mem k hj))
          (w := w + k.2.toUInt32) (by omega)
        refine ⟨r, s', runs_bind.mpr ⟨true, u, h1, ?_⟩, hs', fun hf => ?_⟩
        · rw [if_pos rfl, if_neg hreach]
          exact h2
        · rw [List.map_cons, List.map_cons, weight_cons, weight_cons]
          obtain ⟨hlow, hhigh⟩ := hr hf
          omega

/-- A nested check that always returns, and accepts the authorities that are `good`. -/
def CompleteCheck (sigs : List PublicKey) (approvals : List String) (get : AuthorityLookup)
    (roots : Scheme PublicKey String → Prop) (good : Authority → Prop)
    (f : Option Authority → SignM Bool) : Prop :=
  ∀ {auth : Option Authority} {s : SignState}, s.Offers sigs approvals →
    (∀ a, auth = some a → Leads get.scheme roots a.scheme) →
    ∃ b s', Runs (f auth) s b s' ∧ s'.Offers sigs approvals ∧
      ((∃ a, auth = some a ∧ good a) → b = true)

/-- An account that is approved, or good where nested accounts are looked at, counts. -/
theorem offers_countAccount {check : Option (Option Authority → SignM Bool)} {ok : Authority → Prop}
    (hcheck : ∀ f, check = some f → CompleteCheck sigs approvals get roots ok f)
    (h : s.Offers sigs approvals) {id : String} (hfetch : ∃ p, get id = .ok p)
    (hlead : ∀ p, get id = .ok (some p) → Leads get.scheme roots p.scheme) :
    ∃ b s', Runs (countAccount get check id) s b s' ∧ s'.Offers sigs approvals ∧
      ((Preapproved approvals id ∨ check.isSome ∧ ∃ p, get id = .ok (some p) ∧ ok p) → b = true) := by
  simp only [countAccount, runs_bind_reads]
  by_cases hknown : id ∈ s.approvedBy
  · rw [decide_eq_true hknown, if_pos rfl]
    exact ⟨true, s, runs_pure.mpr ⟨rfl, rfl⟩, h, fun _ => rfl⟩
  · rw [decide_eq_false hknown, if_neg Bool.false_ne_true]
    have hnot : ¬ Preapproved approvals id := fun hp => hknown (h.approvals id hp)
    cases check with
    | none =>
        refine ⟨false, s, runs_pure.mpr ⟨rfl, rfl⟩, h, ?_⟩
        rintro (hp | ⟨hsome, -⟩)
        · exact absurd hp hnot
        · cases hsome
    | some f =>
        obtain ⟨auth, hauth⟩ := hfetch
        obtain ⟨b, u, h1, hu, hb⟩ := hcheck f rfl h fun p hp => hlead p (hp ▸ hauth)
        simp only [runs_bind_ofExcept, hauth, Except.ok.injEq, exists_eq_left']
        cases b with
        | false =>
            refine ⟨false, u, runs_bind.mpr ⟨false, u, h1, runs_pure.mpr ⟨rfl, rfl⟩⟩, hu, ?_⟩
            rintro (hp | ⟨-, p, rfl, hpok⟩)
            · exact absurd hp hnot
            · exact hb ⟨p, rfl, hpok⟩
        | true =>
            refine ⟨true, u.approve id, runs_bind.mpr ⟨true, u, h1, ?_⟩, hu.approve id, fun _ => rfl⟩
            rw [if_pos rfl]
            exact runs_bind.mpr ⟨(), u.approve id, runs_modify.mpr rfl, runs_pure.mpr ⟨rfl, rfl⟩⟩

/-- What the good ones weigh that are left behind the head of a list. -/
theorem exists_good_tail {α : Type} {a : α × ℕ} {as good : List (α × ℕ)} (h : good.Sublist (a :: as)) :
    ∃ rest : List (α × ℕ), rest.Sublist as ∧ (∀ x ∈ rest, x ∈ good) ∧
      (weight good = weight rest ∨ a ∈ good ∧ weight good = a.2 + weight rest) := by
  cases h with
  | cons _ hsub => exact ⟨good, hsub, fun x hx => hx, Or.inl rfl⟩
  | @cons_cons rest _ _ hsub =>
      exact ⟨rest, hsub, fun x hx => List.mem_cons_of_mem a hx,
        Or.inr ⟨List.mem_cons_self, by rw [weight_cons]⟩⟩

/-- All accounts that are approved, or good where nested accounts are looked at, are counted. -/
theorem offers_sumAccounts {check : Option (Option Authority → SignM Bool)} {ok : Authority → Prop}
    (hcheck : ∀ f, check = some f → CompleteCheck sigs approvals get roots ok f)
    (h : s.Offers sigs approvals) {threshold : UInt32} {as : List (String × UInt16)}
    {good : List (String × ℕ)} (hgood : good.Sublist (as.map fun e => (e.1, e.2.toNat)))
    (hok : ∀ a ∈ good, Preapproved approvals a.1 ∨
      check.isSome ∧ ∃ p, get a.1 = .ok (some p) ∧ ok p)
    (hfetch : ∀ a ∈ as, ∃ p, get a.1 = .ok p)
    (hlead : ∀ a ∈ as, ∀ p, get a.1 = .ok (some p) → Leads get.scheme roots p.scheme)
    {w : UInt32} (hfit : w.toNat + weight (as.map fun e => (e.1, e.2.toNat)) < 2 ^ 32) :
    ∃ b s', Runs (SignState.sumAccounts get check threshold as w) s b s' ∧
      s'.Offers sigs approvals ∧ (threshold.toNat ≤ w.toNat + weight good → b = true) := by
  induction as generalizing s w good with
  | nil =>
      obtain rfl := List.sublist_nil.mp hgood
      refine ⟨decide (threshold ≤ w), s, runs_pure.mpr ⟨rfl, rfl⟩, h, fun hw => ?_⟩
      exact decide_eq_true (UInt32.le_iff_toNat_le.mpr hw)
  | cons a as ih =>
      rw [List.map_cons, weight_cons] at hfit
      have hfetch' : ∀ x ∈ as, ∃ p, get x.1 = .ok p := fun x hx => hfetch x (List.mem_cons_of_mem a hx)
      have hlead' : ∀ x ∈ as, ∀ p, get x.1 = .ok (some p) → Leads get.scheme roots p.scheme :=
        fun x hx => hlead x (List.mem_cons_of_mem a hx)
      have hadd : (w + a.2.toUInt32).toNat = w.toNat + a.2.toNat := toNat_add_weight (by omega)
      obtain ⟨rest, hrest, hmem, hweight⟩ := exists_good_tail hgood
      dsimp only at hweight
      have hok' := fun x hx => hok x (hmem x hx)
      obtain ⟨counts, u, h1, hu, hcounts⟩ :=
        offers_countAccount hcheck h (hfetch a List.mem_cons_self) (hlead a List.mem_cons_self)
      rw [sumAccounts_cons]
      cases counts with
      | false =>
          obtain ⟨b, s', h2, hs', hb⟩ := ih hu hrest hok' hfetch' hlead' (w := w) (by omega)
          refine ⟨b, s', runs_bind.mpr ⟨false, u, h1, h2⟩, hs', fun hw => hb ?_⟩
          rcases hweight with hweight | ⟨hin, -⟩
          · omega
          · exact absurd (hcounts (hok _ hin)) Bool.false_ne_true
      | true =>
          by_cases hreach : threshold ≤ w + a.2.toUInt32
          · refine ⟨true, u, runs_bind.mpr ⟨true, u, h1, ?_⟩, hu, fun _ => rfl⟩
            rw [if_pos rfl, if_pos hreach]
            exact runs_pure.mpr ⟨rfl, rfl⟩
          · obtain ⟨b, s', h2, hs', hb⟩ := ih hu hrest hok' hfetch' hlead' (w := w + a.2.toUInt32)
              (by omega)
            refine ⟨b, s', runs_bind.mpr ⟨true, u, h1, ?_⟩, hs', fun hw => hb ?_⟩
            · rw [if_pos rfl, if_neg hreach]
              exact h2
            · rcases hweight with hweight | ⟨-, hweight⟩ <;> omega

/-- Behind these roots every account exists, and no weights overflow. -/
structure Charted (get : AuthorityLookup) (roots : Scheme PublicKey String → Prop) : Prop where
  found : ∀ t, Leads get.scheme roots t → ∀ m ∈ t.members, ∃ p, get m.1 = .ok p
  fits : ∀ t, Leads get.scheme roots t → t.total < 2 ^ 32

/-- The two loops of a check, whatever is called for the nested accounts. -/
theorem offers_checkMembers (hchart : Charted get roots) {check : Option (Option Authority → SignM Bool)}
    {ok : Authority → Prop}
    (hcheck : ∀ f, check = some f → CompleteCheck sigs approvals get roots ok f)
    (h : s.Offers sigs approvals) {a : Authority} (hlead : Leads get.scheme roots a.scheme) :
    ∃ b s', Runs (SignState.checkMembers [] get check a) s b s' ∧ s'.Offers sigs approvals ∧
      (a.scheme.Reached (· ∈ sigs) (fun id => Preapproved approvals id ∨
        check.isSome ∧ ∃ p, get id = .ok (some p) ∧ ok p) → b = true) := by
  have hfit : weight (a.keyAuths.entries.map fun e => (e.1, e.2.toNat)) +
      weight (a.accountAuths.entries.map fun e => (e.1, e.2.toNat)) < 2 ^ 32 := hchart.fits _ hlead
  have hfetch : ∀ m ∈ a.accountAuths.entries, ∃ p, get m.1 = .ok p := fun m hm =>
    hchart.found _ hlead (m.1, m.2.toNat)
      (List.mem_map_of_mem (f := fun e : String × UInt16 => (e.1, e.2.toNat)) hm)
  have hnested : ∀ m ∈ a.accountAuths.entries, ∀ p, get m.1 = .ok (some p) →
      Leads get.scheme roots p.scheme := by
    intro m hm p hp
    have hmem : (m.1, m.2.toNat) ∈ a.scheme.members :=
      List.mem_map_of_mem (f := fun e : String × UInt16 => (e.1, e.2.toNat)) hm
    exact hlead.member hmem (AuthorityLookup.scheme_ok hp)
  -- the checks as they would run for some good keys and accounts
  have hgo : ∀ (ks : List (PublicKey × UInt16)) (ms : List (String × UInt16)),
      ks.Sublist a.keyAuths.entries → ms.Sublist a.accountAuths.entries → (∀ k ∈ ks, k.1 ∈ sigs) →
      (∀ m ∈ ms, Preapproved approvals m.1 ∨ check.isSome ∧ ∃ p, get m.1 = .ok (some p) ∧ ok p) →
      ∃ b s', Runs (SignState.checkMembers [] get check a) s b s' ∧ s'.Offers sigs approvals ∧
        (a.weightThreshold.toNat ≤ weight (ks.map fun e => (e.1, e.2.toNat)) +
          weight (ms.map fun e => (e.1, e.2.toNat)) → b = true) := by
    intro ks ms hks hms hsigs hok
    obtain ⟨r, u, h1, hu, hr⟩ := @offers_sumKeys _ _ _ h a.weightThreshold _ _ hks hsigs 0
      (by rw [UInt32.toNat_zero]; omega)
    cases hdone : r.1 with
    | true =>
        refine ⟨true, u, runs_bind.mpr ⟨r, u, h1, ?_⟩, hu, fun _ => rfl⟩
        rw [hdone, if_pos rfl]
        exact runs_pure.mpr ⟨rfl, rfl⟩
    | false =>
        obtain ⟨hlow, hhigh⟩ := hr hdone
        rw [UInt32.toNat_zero] at hlow hhigh
        obtain ⟨b, s', h2, hs', hb⟩ := @offers_sumAccounts _ _ _ _ _ _ _ hcheck hu
          a.weightThreshold _ _ (hms.map fun e : String × UInt16 => (e.1, e.2.toNat)) (fun m hm => by
            obtain ⟨e, he, rfl⟩ := List.mem_map.mp hm
            exact hok e he) hfetch hnested r.2 (by omega)
        refine ⟨b, s', runs_bind.mpr ⟨r, u, h1, ?_⟩, hs', fun hw => hb (by omega)⟩
        rw [hdone, if_neg Bool.false_ne_true]
        exact h2
  by_cases hreached : a.scheme.Reached (· ∈ sigs) (fun id => Preapproved approvals id ∨
      check.isSome ∧ ∃ p, get id = .ok (some p) ∧ ok p)
  · obtain ⟨ks, ms, hks, hms, hsigs, hok, hw⟩ := hreached
    obtain ⟨ks', hks', rfl⟩ := List.sublist_map_iff.mp hks
    obtain ⟨ms', hms', rfl⟩ := List.sublist_map_iff.mp hms
    obtain ⟨b, s', hr, hs', hb⟩ := hgo ks' ms' hks' hms'
      (fun k hk => hsigs (k.1, k.2.toNat) (List.mem_map.mpr ⟨k, hk, rfl⟩))
      fun m hm => hok (m.1, m.2.toNat) (List.mem_map.mpr ⟨m, hm, rfl⟩)
    exact ⟨b, s', hr, hs', fun _ => hb hw⟩
  · obtain ⟨b, s', hr, hs', -⟩ := hgo [] [] (List.nil_sublist _) (List.nil_sublist _)
      (fun k hk => absurd hk List.not_mem_nil) fun m hm => absurd hm List.not_mem_nil
    exact ⟨b, s', hr, hs', fun hw => absurd hw hreached⟩

/-- **Completeness of one check**: it finds every derivation that fits into the limit. -/
theorem completeCheck_checkAuthority (hchart : Charted get roots) (n : ℕ) :
    CompleteCheck sigs approvals get roots
      (fun a => Derives (· ∈ sigs) (Preapproved approvals) get.scheme n a.scheme)
      (SignState.checkAuthority [] get n) := by
  induction n with
  | zero =>
      intro auth s h hlead
      cases auth with
      | none => exact ⟨false, s, runs_pure.mpr ⟨rfl, rfl⟩, h, by rintro ⟨_, ⟨⟩, -⟩⟩
      | some a =>
          have hcheck : ∀ f, (none : Option (Option Authority → SignM Bool)) = some f →
              CompleteCheck sigs approvals get roots (fun _ => False) f := nofun
          obtain ⟨b, s', hr, hs', hb⟩ := offers_checkMembers hchart hcheck h (hlead a rfl)
          refine ⟨b, s', hr, hs', ?_⟩
          rintro ⟨_, ⟨⟩, hd⟩
          exact hb (Scheme.Reached.mono hd (fun _ hk => hk) fun _ hi => Or.inl hi)
  | succ n ih =>
      intro auth s h hlead
      cases auth with
      | none => exact ⟨false, s, runs_pure.mpr ⟨rfl, rfl⟩, h, by rintro ⟨_, ⟨⟩, -⟩⟩
      | some a =>
          have hcheck : ∀ f, some (SignState.checkAuthority [] get n) = some f →
              CompleteCheck sigs approvals get roots
                (fun a => Derives (· ∈ sigs) (Preapproved approvals) get.scheme n a.scheme) f := by
            intro f hf
            cases hf
            exact ih
          obtain ⟨b, s', hr, hs', hb⟩ := offers_checkMembers hchart hcheck h (hlead a rfl)
          refine ⟨b, s', hr, hs', ?_⟩
          rintro ⟨_, ⟨⟩, hd⟩
          refine hb (Scheme.Reached.mono hd (fun _ hk => hk) fun id hid => ?_)
          rcases hid with hid | ⟨u, hu, hd⟩
          · exact Or.inl hid
          · refine Or.inr ⟨rfl, ?_⟩
            unfold AuthorityLookup.scheme at hu
            split at hu
            case h_1 auth hauth =>
              obtain ⟨p, rfl, rfl⟩ := Option.map_eq_some_iff.mp hu
              exact ⟨p, hauth, hd⟩
            case h_2 => cases hu

theorem offers_checkFetched (hchart : Charted get roots) {n : ℕ} (h : s.Offers sigs approvals)
    {auth : Except Exn (Option Authority)} (hauth : ∃ p, auth = .ok p)
    (hlead : ∀ a, auth = .ok (some a) → Leads get.scheme roots a.scheme) :
    ∃ b s', Runs (SignState.checkFetched [] get n auth) s b s' ∧ s'.Offers sigs approvals ∧
      ((∃ a, auth = .ok (some a) ∧
        Derives (· ∈ sigs) (Preapproved approvals) get.scheme n a.scheme) → b = true) := by
  obtain ⟨p, rfl⟩ := hauth
  obtain ⟨b, s', hr, hs', hb⟩ := completeCheck_checkAuthority hchart n h fun a ha => hlead a (ha ▸ rfl)
  refine ⟨b, s', runs_bind_ofExcept.mpr ⟨p, rfl, hr⟩, hs', ?_⟩
  rintro ⟨a, ha, hd⟩
  exact hb ⟨a, Except.ok.inj ha, hd⟩

theorem offers_checkAccount (hchart : Charted get roots) {n : ℕ} (h : s.Offers sigs approvals)
    {id : String} (hid : ∃ p, get id = .ok p)
    (hlead : ∀ a, get id = .ok (some a) → Leads get.scheme roots a.scheme) :
    ∃ b s', Runs (SignState.checkAccount [] get n id) s b s' ∧ s'.Offers sigs approvals ∧
      ((Preapproved approvals id ∨ ∃ a, get id = .ok (some a) ∧
        Derives (· ∈ sigs) (Preapproved approvals) get.scheme n a.scheme) → b = true) := by
  simp only [SignState.checkAccount, runs_bind_reads]
  by_cases hknown : id ∈ s.approvedBy
  · rw [decide_eq_true hknown, if_pos rfl]
    exact ⟨true, s, runs_pure.mpr ⟨rfl, rfl⟩, h, fun _ => rfl⟩
  · rw [decide_eq_false hknown, if_neg Bool.false_ne_true]
    obtain ⟨b, s', hr, hs', hb⟩ := offers_checkFetched hchart h hid hlead
    refine ⟨b, s', hr, hs', ?_⟩
    rintro (hpre | hd)
    · exact absurd (h.approvals id hpre) hknown
    · exact hb hd

/-- A check that always returns when the state knows the signatures and approvals, and accepts if
`good`. -/
def Returns (sigs : List PublicKey) (approvals : List String) (c : SignM Bool) (good : Prop) : Prop :=
  ∀ s : SignState, s.Offers sigs approvals →
    ∃ b s', Runs c s b s' ∧ s'.Offers sigs approvals ∧ (good → b = true)

/-- A program that gets through, without an exception, when the state knows the signatures and
approvals. -/
def GetsThrough (sigs : List PublicKey) (approvals : List String) (m : SignM Unit) : Prop :=
  ∀ s : SignState, s.Offers sigs approvals → ∃ s', Runs m s () s' ∧ s'.Offers sigs approvals

/-- The first good one of several checks accepts, if no other has before. -/
theorem returns_firstOf {checks : List (SignM Bool × Prop)}
    (h : ∀ c ∈ checks, Returns sigs approvals c.1 c.2) :
    Returns sigs approvals (firstOf (checks.map Prod.fst)) (∃ c ∈ checks, c.2) := by
  induction checks with
  | nil =>
      intro s hs
      refine ⟨false, s, runs_pure.mpr ⟨rfl, rfl⟩, hs, ?_⟩
      rintro ⟨c, hc, -⟩
      exact absurd hc List.not_mem_nil
  | cons c cs ih =>
      intro s hs
      obtain ⟨b, u, hr, hu, hb⟩ := h c List.mem_cons_self s hs
      cases b with
      | true => exact ⟨true, u, runs_bind.mpr ⟨true, u, hr, runs_pure.mpr ⟨rfl, rfl⟩⟩, hu, fun _ => rfl⟩
      | false =>
          obtain ⟨b', s', hr', hs', hb'⟩ := ih (fun d hd => h d (List.mem_cons_of_mem c hd)) u hu
          refine ⟨b', s', runs_bind.mpr ⟨false, u, hr, hr'⟩, hs', ?_⟩
          rintro ⟨d, hd, hgood⟩
          rcases List.mem_cons.mp hd with rfl | hd
          · exact absurd (hb hgood) Bool.false_ne_true
          · exact hb' ⟨d, hd, hgood⟩

/-- One of several checks is enough to get through, when all of them return. -/
theorem getsThrough_needOneOf (msg : String) (checks : List (SignM Bool × Prop))
    (h : ∀ c ∈ checks, Returns sigs approvals c.1 c.2) (hone : ∃ c ∈ checks, c.2) :
    GetsThrough sigs approvals (needOneOf msg (checks.map Prod.fst)) := by
  intro s hs
  obtain ⟨b, s', hr, hs', hb⟩ := returns_firstOf h s hs
  obtain rfl := hb hone
  exact ⟨s', runs_bind.mpr ⟨true, s', hr, runs_ofExcept.mpr ⟨rfl, rfl⟩⟩, hs'⟩

theorem getsThrough_forM {α : Type} {l : List α} {f : α → SignM Unit}
    (h : ∀ a ∈ l, GetsThrough sigs approvals (f a)) : GetsThrough sigs approvals (l.forM f) :=
  fun _ hs => exists_runs_forM (P := SignState.Offers sigs approvals) h hs

theorem GetsThrough.bind {m m' : SignM Unit} (h : GetsThrough sigs approvals m)
    (h' : GetsThrough sigs approvals m') : GetsThrough sigs approvals (m >>= fun _ => m') := by
  intro s hs
  obtain ⟨u, hr, hu⟩ := h s hs
  obtain ⟨s', hr', hs'⟩ := h' u hu
  exact ⟨s', runs_bind.mpr ⟨(), u, hr, hr'⟩, hs'⟩

end Complete

/-! ## Monotonicity -/

section Monotone

variable {sigs sigs' : List PublicKey} {ap ap' owners owners' : List String} {g : AuthorityLookups}
  {req : Required} {n : ℕ} {s : SignState}

/-- All that the requirements lead to exists, and no weights overflow. -/
structure Required.Charted (g : AuthorityLookups) (req : Required) : Prop where
  behind : BtcmChain.Charted (g.nested req) (Roots g req)
  account : ∀ id ∈ req.basic ++ req.active, ∃ p, g.nested req id = .ok p
  active : ∀ id ∈ req.basic, ∃ p, g.active id = .ok p
  owner : ∀ id ∈ req.basic ++ req.active ++ req.owner, ∃ p, g.owner id = .ok p
  masterContent : ∀ url ∈ req.masterContent, ∃ p, g.masterContent url = .ok p
  compContent : ∀ url ∈ req.compContent, ∃ p, g.compContent url = .ok p

/-- The recursion limit cuts off no derivation of what is asked for. -/
def Required.WithinLimit (sigs : List PublicKey) (ap : List String) (g : AuthorityLookups) (n : ℕ)
    (req : Required) : Prop :=
  ∀ a, Asked g req a → Derivable (· ∈ sigs) (Preapproved ap) (g.nested req).scheme a.scheme →
    Derives (· ∈ sigs) (Preapproved ap) (g.nested req).scheme n a.scheme

/-- A fetched authority is found to be satisfied if it is granted within the limit. -/
theorem returns_fetched (hchart : req.Charted g) (hlimit : req.WithinLimit sigs ap g n)
    (hsigs : ∀ k ∈ sigs, k ∈ sigs') (hap : ∀ id, Preapproved ap id → Preapproved ap' id)
    {auth : Except Exn (Option Authority)} (hauth : ∃ p, auth = .ok p)
    (hasked : ∀ a, auth = .ok (some a) → Asked g req a) :
    Returns sigs' ap' (SignState.checkFetched [] (g.nested req) n auth)
      (Granted (· ∈ sigs) (Preapproved ap) (g.nested req) auth) := by
  intro s h
  obtain ⟨b, s', hr, hs', hb⟩ := offers_checkFetched hchart.behind h hauth
    fun a ha => (hasked a ha).leads
  refine ⟨b, s', hr, hs', ?_⟩
  rintro ⟨a, ha, hd⟩
  exact hb ⟨a, ha, (hlimit a (hasked a ha) hd).mono hsigs hap⟩

/-- The check of an account returns, and accepts it when its authority is derivable. -/
theorem returns_account (hchart : req.Charted g) (hlimit : req.WithinLimit sigs ap g n)
    (hsigs : ∀ k ∈ sigs, k ∈ sigs') (hap : ∀ id, Preapproved ap id → Preapproved ap' id)
    {id : String} (hid : id ∈ req.basic ++ req.active) :
    Returns sigs' ap' (SignState.checkAccount [] (g.nested req) n id)
      (Vouched (· ∈ sigs) (Preapproved ap) (g.nested req).scheme id) := by
  intro s h
  obtain ⟨b, s', hr, hs', hb⟩ := @offers_checkAccount _ _ _ _ _ hchart.behind n h id
    (hchart.account id hid) fun a ha => (Asked.account hid ha).leads
  refine ⟨b, s', hr, hs', ?_⟩
  rintro (hpre | ⟨u, hu, hd⟩)
  · exact hb (Or.inl (hap id hpre))
  · obtain ⟨p, hp⟩ := hchart.account id hid
    rw [AuthorityLookup.scheme_ok hp] at hu
    obtain ⟨a, rfl, rfl⟩ := Option.map_eq_some_iff.mp hu
    exact hb (Or.inr ⟨a, hp, (hlimit a (.account hid hp) hd).mono hsigs hap⟩)

/-- A requirement that only its own authority can meet gets through when that authority is
derivable. -/
theorem getsThrough_fetched (hchart : req.Charted g) (hlimit : req.WithinLimit sigs ap g n)
    (hsigs : ∀ k ∈ sigs, k ∈ sigs') (hap : ∀ id, Preapproved ap id → Preapproved ap' id) (msg : String)
    {auth : Except Exn (Option Authority)} (hauth : ∃ p, auth = .ok p)
    (hasked : ∀ a, auth = .ok (some a) → Asked g req a)
    (hgranted : Granted (· ∈ sigs) (Preapproved ap) (g.nested req) auth) :
    GetsThrough sigs' ap' (needOneOf msg [SignState.checkFetched [] (g.nested req) n auth]) :=
  getsThrough_needOneOf msg [(SignState.checkFetched [] (g.nested req) n auth,
      Granted (· ∈ sigs) (Preapproved ap) (g.nested req) auth)]
    (List.forall_mem_singleton.mpr (returns_fetched hchart hlimit hsigs hap hauth hasked))
    ⟨_, List.mem_cons_self, hgranted⟩

/-- What is met within the limit is found from whatever offers as much. -/
theorem exists_checkRequired (hmet : req.Met (· ∈ sigs) (Preapproved ap) g owners)
    (hchart : req.Charted g) (hlimit : req.WithinLimit sigs ap g n) (hsigs : ∀ k ∈ sigs, k ∈ sigs')
    (hap : ∀ id, Preapproved ap id → Preapproved ap' id) (howners : ∀ id ∈ owners, id ∈ owners')
    (h : s.Offers sigs' ap') : ∃ s', Runs (checkRequired g n owners' req) s () s' := by
  have hfetched := @returns_fetched _ _ _ _ _ _ _ hchart hlimit hsigs hap
  have haccount := @returns_account _ _ _ _ _ _ _ hchart hlimit hsigs hap
  have halone := @getsThrough_fetched _ _ _ _ _ _ _ hchart hlimit hsigs hap
  have hother := getsThrough_forM fun a ha => by
    refine @halone "Missing Authority" (.ok (some a)) ⟨_, rfl⟩ (fun x hx => ?_) ⟨a, rfl, hmet.other a ha⟩
    cases hx
    exact .other ha
  have hbasic := getsThrough_forM fun id hid => by
    have hmem := List.mem_append_left req.active hid
    have howner := List.mem_append_left req.owner hmem
    refine getsThrough_needOneOf "Missing Basic Authority ${id}" [
      (_, _), (_, _), (_, _)] (List.forall_mem_cons.mpr ⟨haccount hmem, List.forall_mem_cons.mpr
        ⟨hfetched (hchart.active id hid) fun _ ha => .active hid ha, List.forall_mem_singleton.mpr
          (hfetched (hchart.owner id howner) fun _ ha => .owner howner ha)⟩⟩) ?_
    rcases hmet.basic id hid with hv | ha | ho
    · exact ⟨_, List.mem_cons_self, hv⟩
    · exact ⟨_, List.mem_cons_of_mem _ List.mem_cons_self, ha⟩
    · exact ⟨_, List.mem_cons_of_mem _ (List.mem_cons_of_mem _ List.mem_cons_self), ho⟩
  have hactive := getsThrough_forM fun id hid => by
    have hmem := List.mem_append_right req.basic hid
    have howner := List.mem_append_left req.owner hmem
    refine getsThrough_needOneOf "Missing Active Authority ${id}" [(_, _), (_, _)]
      (List.forall_mem_cons.mpr ⟨haccount hmem, List.forall_mem_singleton.mpr
        (hfetched (hchart.owner id howner) fun _ ha => .owner howner ha)⟩) ?_
    rcases hmet.active id hid with hv | ho
    · exact ⟨_, List.mem_cons_self, hv⟩
    · exact ⟨_, List.mem_cons_of_mem _ List.mem_cons_self, ho⟩
  have hmaster := getsThrough_forM fun url hurl =>
    halone "Missing Content Authority for content ${con}" (hchart.masterContent url hurl)
      (fun _ ha => .masterContent hurl ha) (hmet.masterContent url hurl)
  have hcomp := getsThrough_forM fun url hurl =>
    halone "Missing Content Authority for content ${con}" (hchart.compContent url hurl)
      (fun _ ha => .compContent hurl ha) (hmet.compContent url hurl)
  have howner := getsThrough_forM fun id hid => by
    have howner := List.mem_append_right (req.basic ++ req.active) hid
    have happroved : Returns sigs' ap' (pure (decide (id ∈ owners'))) (id ∈ owners) := fun s hs =>
      ⟨_, s, runs_pure.mpr ⟨rfl, rfl⟩, hs, fun hin => decide_eq_true (howners id hin)⟩
    refine getsThrough_needOneOf "Missing Owner Authority ${id}" [(_, _), (_, _)]
      (List.forall_mem_cons.mpr ⟨happroved, List.forall_mem_singleton.mpr
        (hfetched (hchart.owner id howner) fun _ ha => .owner howner ha)⟩) ?_
    rcases hmet.owner id hid with hin | ho
    · exact ⟨_, List.mem_cons_self, hin⟩
    · exact ⟨_, List.mem_cons_of_mem _ List.mem_cons_self, ho⟩
  obtain ⟨s', hr, -⟩ :=
    (hother.bind (hbasic.bind (hactive.bind (hmaster.bind (hcomp.bind howner))))) s h
  exact ⟨s', hr⟩

/-- The verification finds whatever is derivable within the limit, also from more. -/
theorem verifyAuthority_mono {ops : List Operation} {maxRecursionDepth : UInt32}
    {approvals approvals' : Approvals}
    (h : verifyAuthority ops sigs g true maxRecursionDepth approvals = .ok ())
    (hchart : (requiredAuthorities ops).Charted g)
    (hlimit : (requiredAuthorities ops).WithinLimit sigs approvals.all g maxRecursionDepth.toNat)
    (hsigs : ∀ k ∈ sigs, k ∈ sigs') (hactive : ∀ id ∈ approvals.active, id ∈ approvals'.active)
    (howner : ∀ id ∈ approvals.owner, id ∈ approvals'.owner)
    (hbasic : ∀ id ∈ approvals.basic, id ∈ approvals'.basic) :
    verifyAuthority ops sigs' g true maxRecursionDepth approvals' = .ok () := by
  obtain ⟨hreq, s, -, -, hmet, -⟩ := runs_verifyAuthority h
  have hap : ∀ id, Preapproved approvals.all id → Preapproved approvals'.all id := by
    intro id hid
    simp only [Preapproved, Approvals.all, List.mem_append] at hid ⊢
    exact hid.imp_right (Or.imp (Or.imp (hbasic id) (hactive id)) (howner id))
  obtain ⟨s', hr⟩ := exists_checkRequired hmet hchart hlimit hsigs hap howner offers_init
  simp only [verifyAuthority, except_bind_ok]
  exact ⟨_, hreq, ((), s'), hr, rfl⟩

end Monotone

/-! ## Proposals -/

section Proposals

variable {sigs : List PublicKey} {get : AuthorityGetter} {α : Type}

/-- A getter that never returns a null pointer, as one that `verify_authority` looks up with. -/
def AuthorityGetter.lookup (get : AuthorityGetter) : AuthorityLookup := fun id => (get id).map some

/-- The getters that `is_authorized_to_execute` passes on, which read the state. -/
def Database.authorityLookups (s : Database) : AuthorityLookups where
  active := (s.accountAuthority AccountProfile.active).lookup
  owner := (s.accountAuthority AccountProfile.owner).lookup
  basic := (s.accountAuthority AccountProfile.basic).lookup
  masterContent := (s.contentAuthority ContentObject.manageMaster).lookup
  compContent := (s.contentAuthority ContentObject.manageComp).lookup

/-- The approvals of accounts that a proposal has collected, as `verify_authority` takes them. -/
def ProposalObject.approvals (p : ProposalObject) : Approvals :=
  ⟨p.availableActiveApprovals, p.availableOwnerApprovals, p.availableBasicApprovals⟩

/-- The keys that are provided to the state are just these. -/
def SignState.Keyed (sigs : List PublicKey) (s : SignState) : Prop :=
  ∀ k, (s.providedSignatures.find? k).isSome ↔ k ∈ sigs

/-- A program that only looks at which keys are provided does to the accounts noted as
approving what `f` does. -/
def Parallels (sigs : List PublicKey) (m : SignM α)
    (f : List String → Except Exn (α × List String)) : Prop :=
  ∀ s : SignState, s.Keyed sigs →
    (m s).map (fun r => (r.1, r.2.approvedBy)) = f s.approvedBy ∧
      ∀ a s', m s = .ok (a, s') → s'.Keyed sigs

theorem parallels_pure (a : α) : Parallels sigs (pure a) fun ap => .ok (a, ap) := by
  intro s hs
  refine ⟨rfl, fun b s' h => ?_⟩
  cases h
  exact hs

theorem Parallels.bind {β : Type} {m : SignM α} {f : List String → Except Exn (α × List String)}
    {k : α → SignM β} {l : α → List String → Except Exn (β × List String)} (hm : Parallels sigs m f)
    (hk : ∀ a, Parallels sigs (k a) (l a)) :
    Parallels sigs (m >>= k) fun ap => (f ap).bind fun r => l r.1 r.2 := by
  intro s hs
  obtain ⟨heq, hkeep⟩ := hm s hs
  show Except.map _ (Except.bind (m s) fun r => k r.1 r.2) = Except.bind (f s.approvedBy) _ ∧
    ∀ b s', Except.bind (m s) (fun r => k r.1 r.2) = .ok (b, s') → s'.Keyed sigs
  rw [← heq]
  cases hr : m s with
  | error e => exact ⟨rfl, nofun⟩
  | ok r =>
      obtain ⟨a, u⟩ := r
      exact hk a u (hkeep a u hr)

theorem parallels_signedBy (k : PublicKey) :
    Parallels sigs (SignState.signedBy [] k) fun ap => .ok (decide (k ∈ sigs), ap) := by
  intro s hs
  unfold SignState.signedBy
  cases hfind : s.providedSignatures.find? k with
  | none =>
      have hnot : k ∉ sigs := fun hk => by
        have hsome := (hs k).mpr hk
        rw [hfind] at hsome
        cases hsome
      refine ⟨?_, fun b s' h => ?_⟩
      · rw [decide_eq_false hnot]
        rfl
      · cases h
        exact hs
  | some b =>
      have hin : k ∈ sigs := (hs k).mp (by rw [hfind]; rfl)
      refine ⟨?_, fun b s' h => ?_⟩
      · rw [decide_eq_true hin]
        rfl
      · cases h
        intro j
        simp only [SignState.use, FlatMap.find?_set]
        split
        case isTrue hjk => simp [hjk, hin]
        case isFalse => exact hs j

theorem Parallels.congr {m : SignM α} {f f' : List String → Except Exn (α × List String)}
    (h : Parallels sigs m f) (hf : ∀ ap, f ap = f' ap) : Parallels sigs m f' := by
  obtain rfl : f = f' := funext hf
  exact h

theorem parallels_approved (id : String) :
    Parallels sigs (reads fun s => decide (id ∈ s.approvedBy)) fun ap =>
      .ok (decide (id ∈ ap), ap) := by
  intro s hs
  refine ⟨rfl, fun b s' h => ?_⟩
  cases h
  exact hs

theorem parallels_approve (id : String) :
    Parallels sigs (modify fun s => s.approve id) fun ap => .ok ((), id :: ap) := by
  intro s hs
  refine ⟨rfl, fun b s' h => ?_⟩
  cases h
  exact hs

theorem parallels_sumKeys (threshold : UInt32) (ks : List (PublicKey × UInt16)) (w : UInt32) :
    Parallels sigs (SignState.sumKeys [] threshold ks w) fun ap =>
      .ok (weighKeys sigs threshold ks w, ap) := by
  induction ks generalizing w with
  | nil => exact parallels_pure _
  | cons k ks ih =>
      have hrest : ∀ signed : Bool, Parallels sigs
          (if signed then
            if threshold ≤ w + k.2.toUInt32 then pure (true, w + k.2.toUInt32)
            else SignState.sumKeys [] threshold ks (w + k.2.toUInt32)
          else SignState.sumKeys [] threshold ks w) fun ap =>
          .ok (if signed then
            if threshold ≤ w + k.2.toUInt32 then (true, w + k.2.toUInt32)
            else weighKeys sigs threshold ks (w + k.2.toUInt32)
          else weighKeys sigs threshold ks w, ap) := by
        intro signed
        cases signed with
        | false => exact ih w
        | true =>
            simp only [if_true]
            split
            · exact parallels_pure _
            · exact ih _
      refine ((parallels_signedBy k.1).bind hrest).congr fun ap => ?_
      simp only [weighKeys, Except.bind, decide_eq_true_eq]

theorem parallels_sumAccounts
    {check : Option (Option Authority → SignM Bool)}
    {check' : Option (Authority → List String → Except Exn (Bool × List String))}
    (hcheck : ∀ f, check = some f → ∃ f', check' = some f' ∧ ∀ a, Parallels sigs (f (some a)) (f' a))
    (hnone : check = none → check' = none) (threshold : UInt32) (as : List (String × UInt16))
    (w : UInt32) :
    Parallels sigs (SignState.sumAccounts get.lookup check threshold as w)
      (weighAccounts get check' threshold as w) := by
  induction as generalizing w with
  | nil => exact parallels_pure _
  | cons a as ih =>
      have hcount : Parallels sigs (if threshold ≤ w + a.2.toUInt32 then pure true
          else SignState.sumAccounts get.lookup check threshold as (w + a.2.toUInt32)) fun ap =>
          if threshold ≤ w + a.2.toUInt32 then .ok (true, ap)
          else weighAccounts get check' threshold as (w + a.2.toUInt32) ap := by
        split
        · exact parallels_pure _
        · exact ih _
      cases check with
      | none =>
          obtain rfl := hnone rfl
          have hrest : ∀ approved : Bool, Parallels sigs
              (if approved then
                if threshold ≤ w + a.2.toUInt32 then pure true
                else SignState.sumAccounts get.lookup none threshold as (w + a.2.toUInt32)
              else SignState.sumAccounts get.lookup none threshold as w) fun ap =>
              if approved then
                if threshold ≤ w + a.2.toUInt32 then .ok (true, ap)
                else weighAccounts get none threshold as (w + a.2.toUInt32) ap
              else weighAccounts get none threshold as w ap := by
            intro approved
            cases approved with
            | false => exact ih w
            | true => exact hcount
          refine ((parallels_approved a.1).bind hrest).congr fun ap => ?_
          simp only [weighAccounts, Except.bind, decide_eq_true_eq]
      | some f =>
          obtain ⟨f', rfl, hf⟩ := hcheck f rfl
          -- behind the check of a nested account
          have hnested : ∀ satisfied : Bool, Parallels sigs
              (if satisfied then do
                modify fun s => s.approve a.1
                if threshold ≤ w + a.2.toUInt32 then pure true
                else SignState.sumAccounts get.lookup (some f) threshold as (w + a.2.toUInt32)
              else SignState.sumAccounts get.lookup (some f) threshold as w) fun ap =>
              if satisfied then
                if threshold ≤ w + a.2.toUInt32 then .ok (true, a.1 :: ap)
                else weighAccounts get (some f') threshold as (w + a.2.toUInt32) (a.1 :: ap)
              else weighAccounts get (some f') threshold as w ap := by
            intro satisfied
            cases satisfied with
            | false => exact ih w
            | true => exact (parallels_approve a.1).bind fun _ => hcount
          have hrest : ∀ approved : Bool, Parallels sigs
              (if approved then
                if threshold ≤ w + a.2.toUInt32 then pure true
                else SignState.sumAccounts get.lookup (some f) threshold as (w + a.2.toUInt32)
              else do
                let auth ← ofExcept (get.lookup a.1)
                let satisfied ← f auth
                if satisfied then do
                  modify fun s => s.approve a.1
                  if threshold ≤ w + a.2.toUInt32 then pure true
                  else SignState.sumAccounts get.lookup (some f) threshold as (w + a.2.toUInt32)
                else SignState.sumAccounts get.lookup (some f) threshold as w) fun ap =>
              if approved then
                if threshold ≤ w + a.2.toUInt32 then .ok (true, ap)
                else weighAccounts get (some f') threshold as (w + a.2.toUInt32) ap
              else (do
                let auth ← get a.1
                let r ← f' auth ap
                if r.1 then
                  if threshold ≤ w + a.2.toUInt32 then .ok (true, a.1 :: r.2)
                  else weighAccounts get (some f') threshold as (w + a.2.toUInt32) (a.1 :: r.2)
                else weighAccounts get (some f') threshold as w r.2) := by
            intro approved
            cases approved with
            | true => exact hcount
            | false =>
                cases hget : get a.1 with
                | error e =>
                    intro s hs
                    simp only [Bool.false_eq_true, if_false, AuthorityGetter.lookup, hget]
                    exact ⟨rfl, nofun⟩
                | ok p =>
                    simp only [Bool.false_eq_true, if_false, AuthorityGetter.lookup, hget]
                    exact (hf p).bind hnested
          refine ((parallels_approved a.1).bind hrest).congr fun ap => ?_
          simp only [weighAccounts, Except.bind, decide_eq_true_eq]

theorem parallels_checkAuthority (n : ℕ) (a : Authority) :
    Parallels sigs (SignState.checkAuthority [] get.lookup n (some a)) (checkAuthority sigs get n a) := by
  induction n generalizing a with
  | zero =>
      refine ((parallels_sumKeys a.weightThreshold a.keyAuths.entries 0).bind (l := fun r ap =>
        if r.1 then .ok (true, ap)
        else weighAccounts get none a.weightThreshold a.accountAuths.entries r.2 ap) fun r => ?_).congr
          fun ap => by simp only [checkAuthority, Except.bind]
      split
      · exact parallels_pure _
      · refine parallels_sumAccounts ?_ (fun _ => rfl) _ _ _
        intro f hf
        cases hf
  | succ n ih =>
      refine ((parallels_sumKeys a.weightThreshold a.keyAuths.entries 0).bind (l := fun r ap =>
        if r.1 then .ok (true, ap)
        else weighAccounts get (some (checkAuthority sigs get n)) a.weightThreshold
          a.accountAuths.entries r.2 ap) fun r => ?_).congr
          fun ap => by simp only [checkAuthority, Except.bind]
      split
      · exact parallels_pure _
      · refine parallels_sumAccounts ?_ (fun hnone => ?_) _ _ _
        · intro f hf
          cases hf
          exact ⟨_, rfl, ih⟩
        · cases hnone

theorem needOneOf_cons (msg : String) (c : SignM Bool) (cs : List (SignM Bool)) :
    needOneOf msg (c :: cs) =
      c >>= fun satisfied => if satisfied then pure () else needOneOf msg cs := by
  simp only [needOneOf, firstOf, bind_assoc]
  refine bind_congr fun satisfied => ?_
  cases satisfied with
  | true => rfl
  | false => rfl

theorem parallels_checkFetched (n : ℕ) (auth : Except Exn Authority) :
    Parallels sigs (SignState.checkFetched [] get.lookup n (auth.map some)) fun ap =>
      auth.bind fun a => checkAuthority sigs get n a ap := by
  cases auth with
  | error e =>
      intro s hs
      exact ⟨rfl, nofun⟩
  | ok a => exact parallels_checkAuthority n a

theorem parallels_needOneOf (sigs : List PublicKey) (get : AuthorityGetter) (msg : String)
    (auths : List (Except Exn Authority)) :
    Parallels sigs (needOneOf msg (auths.map fun a =>
      SignState.checkFetched [] get.lookup 2 (a.map some))) fun ap =>
        (requireOneOf sigs get msg auths ap).map fun ap => ((), ap) := by
  induction auths with
  | nil =>
      intro s hs
      exact ⟨rfl, nofun⟩
  | cons auth auths ih =>
      have hrest : ∀ satisfied : Bool, Parallels sigs
          (if satisfied then pure () else needOneOf msg (auths.map fun a =>
            SignState.checkFetched [] get.lookup 2 (a.map some))) fun ap =>
          (if satisfied then .ok ap else requireOneOf sigs get msg auths ap).map
            fun ap => ((), ap) := by
        intro satisfied
        cases satisfied with
        | true => exact parallels_pure ()
        | false => exact ih
      rw [List.map_cons, needOneOf_cons]
      refine ((parallels_checkFetched 2 auth).bind hrest).congr fun ap => ?_
      cases auth with
      | error e => rfl
      | ok a =>
          show Except.bind (checkAuthority sigs get 2 a ap) _ =
            Except.map _ (Except.bind (checkAuthority sigs get 2 a ap) _)
          cases checkAuthority sigs get 2 a ap with
          | error e => rfl
          | ok r => rfl

/-- An account is looked up unless it is known to approve. -/
theorem parallels_account (sigs : List PublicKey) (get : AuthorityGetter) (msg : String) (id : String)
    (auths : List (Except Exn Authority)) :
    Parallels sigs (needOneOf msg (SignState.checkAccount [] get.lookup 2 id :: auths.map fun a =>
      SignState.checkFetched [] get.lookup 2 (a.map some))) fun ap =>
        (if id ∈ ap then .ok ap else requireOneOf sigs get msg (get id :: auths) ap).map
          fun ap => ((), ap) := by
  have hrest : ∀ approved : Bool, Parallels sigs
      (if approved then pure () else needOneOf msg ((get id :: auths).map fun a =>
        SignState.checkFetched [] get.lookup 2 (a.map some))) fun ap =>
      (if approved then .ok ap else requireOneOf sigs get msg (get id :: auths) ap).map
        fun ap => ((), ap) := by
    intro approved
    cases approved with
    | true => exact parallels_pure ()
    | false => exact parallels_needOneOf sigs get msg (get id :: auths)
  have hsplit : needOneOf msg (SignState.checkAccount [] get.lookup 2 id :: auths.map fun a =>
      SignState.checkFetched [] get.lookup 2 (a.map some)) = (do
        let approved ← reads fun s => decide (id ∈ s.approvedBy)
        if approved then pure () else needOneOf msg ((get id :: auths).map fun a =>
          SignState.checkFetched [] get.lookup 2 (a.map some))) := by
    rw [needOneOf_cons, List.map_cons, needOneOf_cons]
    simp only [SignState.checkAccount, bind_assoc]
    refine bind_congr fun approved => ?_
    cases approved with
    | true => rfl
    | false => rfl
  rw [hsplit]
  refine ((parallels_approved id).bind hrest).congr fun ap => ?_
  simp only [Except.bind, decide_eq_true_eq]

/-- A program that answers nothing and does to the accounts noted as approving what `f` does. -/
def Notes (sigs : List PublicKey) (m : SignM Unit) (f : List String → Except Exn (List String)) :
    Prop :=
  Parallels sigs m fun ap => (f ap).map fun ap => ((), ap)

theorem Notes.seq {m m' : SignM Unit} {f f' : List String → Except Exn (List String)}
    (h : Notes sigs m f) (h' : Notes sigs m' f') :
    Notes sigs (m >>= fun _ => m') fun ap => f ap >>= f' := by
  refine (Parallels.bind h fun _ => h').congr fun ap => ?_
  beta_reduce
  cases f ap with
  | error e => rfl
  | ok a => rfl

theorem notes_forM {β : Type} {l : List β} {m : β → SignM Unit}
    {f : List String → β → Except Exn (List String)} (h : ∀ b, Notes sigs (m b) (f · b)) :
    Notes sigs (l.forM m) fun ap => l.foldlM f ap := by
  induction l with
  | nil => exact parallels_pure ()
  | cons b l ih =>
      refine (Notes.seq (h b) ih).congr fun ap => ?_
      simp only [List.foldlM_cons]

theorem notes_owner (sigs : List PublicKey) (get : AuthorityGetter) (ownerApprovals : List String)
    (msg : String) (id : String)
    (auth : Except Exn Authority) :
    Notes sigs (needOneOf msg [pure (decide (id ∈ ownerApprovals)),
        SignState.checkFetched [] get.lookup 2 (auth.map some)]) fun ap =>
      if id ∈ ownerApprovals then .ok ap else requireOneOf sigs get msg [auth] ap := by
  rw [needOneOf_cons, pure_bind]
  by_cases hid : id ∈ ownerApprovals
  · rw [if_pos (decide_eq_true hid)]
    refine (parallels_pure ()).congr fun ap => ?_
    simp only [if_pos hid, Except.map]
  · rw [if_neg (by simpa using hid)]
    refine (parallels_needOneOf sigs get msg [auth]).congr fun ap => ?_
    simp only [if_neg hid]

theorem keyed_init (sigs : List PublicKey) (approvals : List String) :
    (SignState.init sigs approvals).Keyed sigs := by
  intro k
  rw [find?_init]
  split
  case isTrue hk => simp [hk]
  case isFalse hk => simp [hk]

/-- Whether a program throws is whether what it notes does. -/
theorem Notes.outcome {m : SignM Unit} {f : List String → Except Exn (List String)}
    (h : Notes sigs m f) (approvals : List String) (msg : String) :
    (f ("temp" :: approvals) >>= fun _ => pure ()) =
      (m (.init sigs approvals) >>= fun r => fcAssert (true || r.2.unused.isEmpty) msg) := by
  have heq : (m (.init sigs approvals)).map (fun r => (r.1, r.2.approvedBy)) =
      (f ("temp" :: approvals)).map fun ap => ((), ap) := (h _ (keyed_init sigs approvals)).1
  cases hm : m (.init sigs approvals) with
  | error e =>
      cases hf : f ("temp" :: approvals) with
      | error e' =>
          rw [hm, hf] at heq
          cases heq
          rfl
      | ok ap =>
          rw [hm, hf] at heq
          cases heq
  | ok r =>
      cases hf : f ("temp" :: approvals) with
      | error e' =>
          rw [hm, hf] at heq
          cases heq
      | ok ap => rfl

/-- **One verifier.** The check of a proposal is `verify_authority` of its operations, with the
keys and accounts that have approved. -/
theorem verifyAuthority_proposal (s : Database) (p : ProposalObject) :
    s.verifyAuthority p = verifyAuthority p.proposedOps p.availableKeyApprovals s.authorityLookups
      true 2 p.approvals := by
  unfold Database.verifyAuthority verifyAuthority checkRequired
  cases hreq : requiredOf p.proposedOps with
  | error e => rfl
  | ok req =>
      obtain ⟨get, hget⟩ : ∃ get, get = if req.basic.isEmpty
          then s.accountAuthority AccountProfile.active
          else s.accountAuthority AccountProfile.basic := ⟨_, rfl⟩
      have hnested : s.authorityLookups.nested req = get.lookup := by
        rw [hget]
        unfold AuthorityLookups.nested
        split
        · rfl
        · rfl
      have hother := notes_forM (l := req.other) fun auth =>
        parallels_needOneOf p.availableKeyApprovals get "Missing Authority" [.ok auth]
      have hbasic := notes_forM (l := req.basic) fun id =>
        parallels_account p.availableKeyApprovals get "Missing Basic Authority ${id}" id
          [s.accountAuthority AccountProfile.active id, s.accountAuthority AccountProfile.owner id]
      have hactive := notes_forM (l := req.active) fun id =>
        parallels_account p.availableKeyApprovals get "Missing Active Authority ${id}" id
          [s.accountAuthority AccountProfile.owner id]
      have hmaster := notes_forM (l := req.masterContent) fun url =>
        parallels_needOneOf p.availableKeyApprovals get
          "Missing Content Authority for content ${con}"
          [s.contentAuthority ContentObject.manageMaster url]
      have hcomp := notes_forM (l := req.compContent) fun url =>
        parallels_needOneOf p.availableKeyApprovals get
          "Missing Content Authority for content ${con}"
          [s.contentAuthority ContentObject.manageComp url]
      have howner := notes_forM (l := req.owner) fun id =>
        notes_owner p.availableKeyApprovals get p.availableOwnerApprovals
          "Missing Owner Authority ${id}" id (s.accountAuthority AccountProfile.owner id)
      have hall := hother.seq (hbasic.seq (hactive.seq (hmaster.seq (hcomp.seq howner))))
      have hstart : ∀ {α β : Type} (a : α) (k : α → Except Exn β), (Except.ok a >>= k) = k a :=
        fun _ _ => rfl
      have heq := hall.outcome p.approvals.all "Unnecessary signature(s) detected"
      simp only [bind_assoc] at heq
      simp only [hstart, hnested, ← hget]
      exact heq

/-- **Approvals are monotone** where everything that is asked for exists, no weights overflow and
the recursion limit cuts off no derivation: a verification that succeeds does so with more
signatures and approvals, and a proposal that is authorised stays so when it gets more of them. -/
theorem approvals_monotone :
    (∀ (ops : List Operation) (sigs sigs' : List PublicKey) (g : AuthorityLookups)
      (maxRecursionDepth : UInt32) (approvals approvals' : Approvals),
      (requiredAuthorities ops).Charted g →
      (requiredAuthorities ops).WithinLimit sigs approvals.all g maxRecursionDepth.toNat →
      (∀ k ∈ sigs, k ∈ sigs') → (∀ id ∈ approvals.active, id ∈ approvals'.active) →
      (∀ id ∈ approvals.owner, id ∈ approvals'.owner) →
      (∀ id ∈ approvals.basic, id ∈ approvals'.basic) →
      verifyAuthority ops sigs g true maxRecursionDepth approvals = .ok () →
      verifyAuthority ops sigs' g true maxRecursionDepth approvals' = .ok ()) ∧
    ∀ (s : Database) (p p' : ProposalObject), p'.proposedOps = p.proposedOps →
      (requiredAuthorities p.proposedOps).Charted s.authorityLookups →
      (requiredAuthorities p.proposedOps).WithinLimit p.availableKeyApprovals p.approvals.all
        s.authorityLookups 2 →
      (∀ k ∈ p.availableKeyApprovals, k ∈ p'.availableKeyApprovals) →
      (∀ id ∈ p.availableActiveApprovals, id ∈ p'.availableActiveApprovals) →
      (∀ id ∈ p.availableOwnerApprovals, id ∈ p'.availableOwnerApprovals) →
      (∀ id ∈ p.availableBasicApprovals, id ∈ p'.availableBasicApprovals) →
      s.isAuthorizedToExecute p = true → s.isAuthorizedToExecute p' = true := by
  constructor
  · intro ops sigs sigs' g maxRecursionDepth approvals approvals' hchart hlimit hsigs hactive howner
      hbasic h
    exact verifyAuthority_mono h hchart hlimit hsigs hactive howner hbasic
  · intro s p p' hops hchart hlimit hsigs hactive howner hbasic h
    obtain ⟨⟨⟩, hok⟩ : ∃ u, s.verifyAuthority p = .ok u := by
      unfold Database.isAuthorizedToExecute at h
      cases hv : s.verifyAuthority p with
      | error e =>
          rw [hv] at h
          cases h
      | ok u => exact ⟨u, rfl⟩
    rw [verifyAuthority_proposal] at hok
    have hok' : verifyAuthority p.proposedOps p'.availableKeyApprovals s.authorityLookups true 2
        p'.approvals = .ok () :=
      verifyAuthority_mono hok hchart hlimit hsigs hactive howner hbasic
    rw [← hops, ← verifyAuthority_proposal] at hok'
    simp only [Database.isAuthorizedToExecute, hok']
    rfl

end Proposals

/-! ## Authorities of keys alone -/

section Keys

variable {g : AuthorityLookups} {req : Required}

/-- Authorities without accounts among their members lead nowhere but to themselves. -/
theorem leads_of_keys (h : ∀ a, Asked g req a → a.scheme.members = [])
    {t : Scheme PublicKey String} (ht : Leads (g.nested req).scheme (Roots g req) t) :
    ∃ a, Asked g req a ∧ t = a.scheme := by
  induction ht with
  | root hroot => exact hroot
  | member _ hm _ ih =>
      obtain ⟨a, ha, rfl⟩ := ih
      rw [h a ha] at hm
      exact absurd hm List.not_mem_nil

/-- Where no authority leads anywhere, no limit on the recursion cuts anything off. -/
theorem withinLimit_of_keys (h : ∀ a, Asked g req a → a.scheme.members = []) (sigs : List PublicKey)
    (ap : List String) (n : ℕ) : req.WithinLimit sigs ap g n := by
  intro a ha hd
  obtain ⟨k, hk⟩ := hd
  have hreach : a.scheme.Reached (· ∈ sigs) fun _ => False := by
    have hstrip : ∀ q : String → Prop, a.scheme.Reached (· ∈ sigs) q →
        a.scheme.Reached (· ∈ sigs) fun _ => False := by
      intro q hq
      obtain ⟨ks, ms, hks, hms, hkp, -, hw⟩ := hq
      obtain rfl : ms = [] := by
        rw [h a ha] at hms
        exact List.sublist_nil.mp hms
      exact ⟨ks, [], hks, hms, hkp, fun m hm => absurd hm List.not_mem_nil, hw⟩
    cases k with
    | zero => exact hstrip _ hk
    | succ k => exact hstrip _ hk
  cases n with
  | zero => exact hreach.mono (fun _ hx => hx) fun _ hf => hf.elim
  | succ n => exact hreach.mono (fun _ hx => hx) fun _ hf => hf.elim

/-- Authorities of keys that do not overflow are charted once they exist. -/
theorem charted_of_keys (h : ∀ a, Asked g req a → a.scheme.members = [])
    (hfit : ∀ a, Asked g req a → weight a.scheme.keys < 2 ^ 32)
    (haccount : ∀ id ∈ req.basic ++ req.active, ∃ p, g.nested req id = .ok p)
    (hactive : ∀ id ∈ req.basic, ∃ p, g.active id = .ok p)
    (howner : ∀ id ∈ req.basic ++ req.active ++ req.owner, ∃ p, g.owner id = .ok p)
    (hmaster : ∀ url ∈ req.masterContent, ∃ p, g.masterContent url = .ok p)
    (hcomp : ∀ url ∈ req.compContent, ∃ p, g.compContent url = .ok p) : req.Charted g where
  behind :=
    { found := by
        intro t ht m hm
        obtain ⟨a, ha, rfl⟩ := leads_of_keys h ht
        rw [h a ha] at hm
        exact absurd hm List.not_mem_nil
      fits := by
        intro t ht
        obtain ⟨a, ha, rfl⟩ := leads_of_keys h ht
        rw [Scheme.total, h a ha, weight_nil, Nat.add_zero]
        exact hfit a ha }
  account := haccount
  active := hactive
  owner := howner
  masterContent := hmaster
  compContent := hcomp

end Keys

namespace Sample

/-- An operation that needs the basic authority of `alice` and of nobody else. -/
def greeting : List Operation := [.custom ["alice"] 0 []]

theorem required_greeting : requiredAuthorities greeting = ⟨["alice"], [], [], [], [], []⟩ := rfl

section Greeting

variable {g : AuthorityLookups} (hactive : g.active "alice" = .ok (some (anyOneOf [1] [])))
  (howner : g.owner "alice" = .ok (some (anyOneOf [1] [])))

include hactive howner

theorem asked_greeting {a : Authority} (h : Asked g (requiredAuthorities greeting) a) :
    a = anyOneOf [1] [] := by
  rw [required_greeting] at h
  cases h with
  | other h => cases h
  | account hid h =>
      obtain rfl := List.mem_singleton.mp hid
      have heq := h.symm.trans hactive
      cases heq
      rfl
  | active hid h => cases hid
  | owner hid h =>
      obtain rfl := List.mem_singleton.mp hid
      have heq := h.symm.trans howner
      cases heq
      rfl
  | masterContent hurl h => cases hurl
  | compContent hurl h => cases hurl

theorem charted_greeting : (requiredAuthorities greeting).Charted g := by
  refine charted_of_keys (fun a ha => ?_) (fun a ha => ?_) ?_ ?_ ?_ ?_ ?_
  · rw [asked_greeting hactive howner ha]
    rfl
  · rw [asked_greeting hactive howner ha]
    decide
  · intro id hid
    obtain rfl := List.mem_singleton.mp hid
    exact ⟨_, hactive⟩
  · intro id hid
    cases hid
  · intro id hid
    obtain rfl := List.mem_singleton.mp hid
    exact ⟨_, howner⟩
  · intro url hurl
    cases hurl
  · intro url hurl
    cases hurl

theorem withinLimit_greeting (sigs : List PublicKey) (ap : List String) (n : ℕ) :
    (requiredAuthorities greeting).WithinLimit sigs ap g n := by
  refine withinLimit_of_keys (fun a ha => ?_) sigs ap n
  rw [asked_greeting hactive howner ha]
  rfl

end Greeting

/-- The authority of `alice` is key 1, and there are no other accounts. -/
def alone : AuthorityLookups := lookups [("alice", anyOneOf [1] [])]

/-- A database with the same `alice` in it, and nobody else. -/
def aloneState : Database where
  accounts := (ObjectIndex.empty).create
    { name := "alice", active := anyOneOf [1] [], owner := anyOneOf [1] [] }

/-- The operation of `alice` as a proposal, which some keys have approved. -/
def proposedGreeting (keys : List PublicKey) : ProposalObject where
  expirationTime := 0
  proposedOps := greeting
  availableKeyApprovals := keys

end Sample

open Sample in
theorem approvals_monotone_greeting :
    verifyAuthority greeting [1, 2] alone true 2 {} = .ok () ∧
      aloneState.isAuthorizedToExecute (proposedGreeting [1, 2]) = true := by
  have hmore : ∀ k ∈ ([1] : List PublicKey), k ∈ ([1, 2] : List PublicKey) := by decide
  exact ⟨approvals_monotone.1 greeting [1] [1, 2] alone 2 {} {} (charted_greeting rfl rfl)
      (withinLimit_greeting rfl rfl _ _ _) hmore (by simp) (by simp) (by simp) (by decide +kernel),
    approvals_monotone.2 aloneState (proposedGreeting [1]) (proposedGreeting [1, 2]) rfl
      (charted_greeting rfl rfl) (withinLimit_greeting rfl rfl _ _ _) hmore
      (by simp [proposedGreeting]) (by simp [proposedGreeting]) (by simp [proposedGreeting])
      (by decide +kernel)⟩

namespace Sample

/-- `alice` signs with key 1 or is signed for by `carol`, who is one step too far for `bob`. -/
def shortcut : AuthorityLookups :=
  lookups [("alice", anyOneOf [1] ["carol"]), ("carol", anyOneOf [2] []), ("bob", anyOneOf [] ["dave"]),
    ("dave", anyOneOf [] ["erin"]), ("erin", anyOneOf [] ["carol"])]

end Sample

open Sample in
/-- The signature of `carol` suffices for `bob` as long as `alice` does not sign herself. -/
theorem shortcut_rejected :
    verifyAuthority [.custom ["alice", "bob"] 0 []] [2] shortcut true 2 {} = .ok () ∧
      verifyAuthority [.custom ["alice", "bob"] 0 []] [1, 2] shortcut true 2 {} ≠ .ok () := by
  decide +kernel

end BtcmChain
