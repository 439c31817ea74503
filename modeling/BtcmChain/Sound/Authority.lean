import BtcmChain.Chain.SignState
import BtcmChain.Lib.Threshold

set_option autoImplicit false

/-!
# What `verify_authority` vouches for

Whatever accounts refer to each other, an authority that `check_authority` accepts has a
finite derivation from the signatures and approvals: an account is noted as approving only
behind the check of its own authority, so the notes always have derivations that do not use
them. The signatures that are marked as used are keys of authorities that the requirements lead
to.
-/

namespace BtcmChain

open Threshold

/-! ## Derivations -/

/-- An authority as a threshold scheme, with its keys and with its accounts as members. -/
def Authority.scheme (a : Authority) : Scheme PublicKey String where
  threshold := a.weightThreshold.toNat
  keys := a.keyAuths.entries.map fun e => (e.1, e.2.toNat)
  members := a.accountAuths.entries.map fun e => (e.1, e.2.toNat)

/-- The schemes that stand behind accounts, as far as the getter finds an authority. -/
def AuthorityLookup.scheme (get : AuthorityLookup) (id : String) : Option (Scheme PublicKey String) :=
  match get id with
  | .ok auth => auth.map Authority.scheme
  | .error _ => none

theorem AuthorityLookup.scheme_ok {get : AuthorityLookup} {id : String} {auth : Option Authority}
    (h : get id = .ok auth) : get.scheme id = auth.map Authority.scheme := by
  simp only [AuthorityLookup.scheme, h]

/-- The accounts that approve without a check: the temporary one, and those whose approval was
given. -/
def Preapproved (approvals : List String) (id : String) : Prop := id = "temp" ∨ id ∈ approvals

theorem mem_schemeKeys {a : Authority} {k : PublicKey × UInt16} (h : k ∈ a.keyAuths.entries) :
    k.1 ∈ a.scheme.keys.map Prod.fst := by
  simp only [Authority.scheme, List.map_map, List.mem_map]
  exact ⟨k, h, rfl⟩

/-- Weights in 32 bits are at most what they are without the bound. -/
theorem toNat_add_weight_le (w : UInt32) (x : UInt16) : (w + x.toUInt32).toNat ≤ w.toNat + x.toNat := by
  rw [UInt32.toNat_add, UInt16.toNat_toUInt32]
  exact Nat.mod_le _ _

/-! ## One account of an authority -/

/-- What the loop over the accounts does about one of them: it counts if it has been noted as
approving, or if its own authority is found to be satisfied, and then it is noted. -/
def countAccount (get : AuthorityLookup) (check : Option (Option Authority → SignM Bool)) (id : String) :
    SignM Bool := do
  let approved ← reads fun s => decide (id ∈ s.approvedBy)
  if approved then return true
  else
    match check with
    | none => return false
    | some f => do
        let auth ← ofExcept (get id)
        let satisfied ← f auth
        if satisfied then do
          modify fun s => s.approve id
          return true
        else return false

/-- The loop over the accounts goes on with the weight that this account adds, or ends at the
threshold. -/
theorem sumAccounts_cons {get : AuthorityLookup} {check : Option (Option Authority → SignM Bool)}
    {threshold : UInt32} {a : String × UInt16} {as : List (String × UInt16)} {w : UInt32} :
    SignState.sumAccounts get check threshold (a :: as) w = (do
      let counts ← countAccount get check a.1
      if counts then
        if threshold ≤ w + a.2.toUInt32 then return true
        else SignState.sumAccounts get check threshold as (w + a.2.toUInt32)
      else SignState.sumAccounts get check threshold as w) := by
  simp only [SignState.sumAccounts, countAccount, bind_assoc]
  congr 1
  funext approved
  cases approved with
  | true => simp
  | false =>
      cases check with
      | none => simp
      | some f =>
          simp only [Bool.false_eq_true, if_false, bind_assoc]
          congr 1
          funext auth
          congr 1
          funext satisfied
          cases satisfied <;> simp

/-! ## The notes of a `sign_state` -/

section Notes

variable (sigs : List PublicKey) (held : PublicKey → Prop) (granted : String → Prop)
  (get : AuthorityLookup) (roots : Scheme PublicKey String → Prop)

/-- The notes are justified: who approves is vouched for, and what is used has been looked at. -/
structure SignState.Justified (s : SignState) : Prop where
  approved : ∀ id ∈ s.approvedBy, Vouched held granted get.scheme id
  provided : ∀ k b, s.providedSignatures.find? k = some b → held k
  kept : ∀ k ∈ sigs, (s.providedSignatures.find? k).isSome
  used : ∀ k, s.providedSignatures.find? k = some true →
    ∃ t, Leads get.scheme roots t ∧ k ∈ t.keys.map Prod.fst

variable {sigs held granted get roots} {availableKeys : List PublicKey} {s s' : SignState} {b : Bool}
  {t : Scheme PublicKey String}

theorem SignState.Justified.use (h : s.Justified sigs held granted get roots) {k : PublicKey} (hk : held k)
    (hlead : Leads get.scheme roots t) (hmem : k ∈ t.keys.map Prod.fst) :
    (s.use k).Justified sigs held granted get roots where
  approved := h.approved
  provided j b hj := by
    simp only [SignState.use, FlatMap.find?_set] at hj
    split at hj
    case isTrue hjk => exact hjk ▸ hk
    case isFalse => exact h.provided j b hj
  kept j hj := by
    simp only [SignState.use, FlatMap.find?_set]
    split
    · rfl
    · exact h.kept j hj
  used j hj := by
    simp only [SignState.use, FlatMap.find?_set] at hj
    split at hj
    case isTrue hjk => exact ⟨t, hlead, hjk ▸ hmem⟩
    case isFalse => exact h.used j hj

theorem SignState.Justified.approve (h : s.Justified sigs held granted get roots) {id : String}
    (hid : Vouched held granted get.scheme id) : (s.approve id).Justified sigs held granted get roots where
  approved i hi := by
    rcases List.mem_cons.mp hi with rfl | hi
    · exact hid
    · exact h.approved i hi
  provided := h.provided
  kept := h.kept
  used := h.used

/-! ## The checks -/

/-- A key counts only if it is held, and the state stays justified when it is marked. -/
theorem justified_signedBy (havail : ∀ k ∈ availableKeys, held k) {k : PublicKey}
    (hr : Runs (SignState.signedBy availableKeys k) s b s') (h : s.Justified sigs held granted get roots)
    (hlead : Leads get.scheme roots t) (hmem : k ∈ t.keys.map Prod.fst) :
    s'.Justified sigs held granted get roots ∧ (b = true → held k) := by
  simp only [Runs, SignState.signedBy] at hr
  cases hfind : s.providedSignatures.find? k with
  | none =>
      rw [hfind] at hr
      dsimp only at hr
      split at hr
      case isTrue hk =>
        cases hr
        exact ⟨h.use (havail k hk) hlead hmem, fun _ => havail k hk⟩
      case isFalse =>
        cases hr
        exact ⟨h, fun hb => absurd hb Bool.false_ne_true⟩
  | some c =>
      rw [hfind] at hr
      cases hr
      have hk := h.provided k c hfind
      exact ⟨h.use hk hlead hmem, fun _ => hk⟩

/-- The weight the keys bring is that of keys that are held. -/
theorem justified_sumKeys (havail : ∀ k ∈ availableKeys, held k) {threshold : UInt32}
    {ks : List (PublicKey × UInt16)} {w : UInt32} {r : Bool × UInt32}
    (hr : Runs (SignState.sumKeys availableKeys threshold ks w) s r s')
    (h : s.Justified sigs held granted get roots) (hlead : Leads get.scheme roots t)
    (hmem : ∀ k ∈ ks, k.1 ∈ t.keys.map Prod.fst) :
    s'.Justified sigs held granted get roots ∧
      ∃ good : List (PublicKey × UInt16), good.Sublist ks ∧ (∀ k ∈ good, held k.1) ∧
        r.2.toNat ≤ w.toNat + weight (good.map fun e => (e.1, e.2.toNat)) ∧
        (r.1 = true → threshold.toNat ≤ r.2.toNat) := by
  induction ks generalizing w s with
  | nil =>
      obtain ⟨rfl, rfl⟩ := runs_pure.mp hr
      exact ⟨h, [], .slnil, fun k hk => absurd hk List.not_mem_nil, le_refl _, nofun⟩
  | cons k ks ih =>
      obtain ⟨signed, u, h1, h2⟩ := runs_bind.mp hr
      obtain ⟨hu, hheld⟩ := justified_signedBy havail h1 h hlead (hmem k List.mem_cons_self)
      have hrest : ∀ j ∈ ks, j.1 ∈ t.keys.map Prod.fst := fun j hj =>
        hmem j (List.mem_cons_of_mem k hj)
      have hadd := toNat_add_weight_le w k.2
      cases signed with
      | false =>
          obtain ⟨hs', good, hsub, hgood, hw, hthr⟩ := ih h2 hu hrest
          exact ⟨hs', good, hsub.cons k, hgood, hw, hthr⟩
      | true =>
          rw [if_pos rfl] at h2
          split at h2
          case isTrue hreach =>
            obtain ⟨rfl, rfl⟩ := runs_pure.mp h2
            refine ⟨hu, [k], List.singleton_sublist.mpr List.mem_cons_self, ?_, ?_, fun _ => ?_⟩
            · intro j hj
              rw [List.mem_singleton.mp hj]
              exact hheld rfl
            · simpa using hadd
            · exact UInt32.le_iff_toNat_le.mp hreach
          case isFalse =>
            obtain ⟨hs', good, hsub, hgood, hw, hthr⟩ := ih h2 hu hrest
            refine ⟨hs', k :: good, hsub.cons_cons k, ?_, ?_, hthr⟩
            · intro j hj
              rcases List.mem_cons.mp hj with rfl | hj
              · exact hheld rfl
              · exact hgood j hj
            · simp only [List.map_cons, weight_cons]
              omega

/-- What a check that is called for nested accounts guarantees. -/
def SoundCheck (sigs : List PublicKey) (held : PublicKey → Prop) (granted : String → Prop) (get : AuthorityLookup)
    (roots : Scheme PublicKey String → Prop) (f : Option Authority → SignM Bool) : Prop :=
  ∀ {auth : Option Authority} {s s' : SignState} {b : Bool}, Runs (f auth) s b s' →
    s.Justified sigs held granted get roots → (∀ a, auth = some a → Leads get.scheme roots a.scheme) →
    s'.Justified sigs held granted get roots ∧
      (b = true → ∃ a, auth = some a ∧ Derivable held granted get.scheme a.scheme)

/-- An account that counts is vouched for: it was noted already, or its own authority has a
derivation. -/
theorem justified_countAccount {check : Option (Option Authority → SignM Bool)}
    (hcheck : ∀ f, check = some f → SoundCheck sigs held granted get roots f) {id : String}
    (hr : Runs (countAccount get check id) s b s') (h : s.Justified sigs held granted get roots)
    (hlead : ∀ p, get id = .ok (some p) → Leads get.scheme roots p.scheme) :
    s'.Justified sigs held granted get roots ∧ (b = true → Vouched held granted get.scheme id) := by
  simp only [countAccount, runs_bind_reads] at hr
  by_cases hknown : id ∈ s.approvedBy
  · rw [decide_eq_true hknown, if_pos rfl] at hr
    obtain ⟨-, rfl⟩ := runs_pure.mp hr
    exact ⟨h, fun _ => h.approved id hknown⟩
  · rw [decide_eq_false hknown, if_neg Bool.false_ne_true] at hr
    cases check with
    | none =>
        obtain ⟨rfl, rfl⟩ := runs_pure.mp hr
        exact ⟨h, fun hfalse => absurd hfalse Bool.false_ne_true⟩
    | some f =>
        rw [runs_bind_ofExcept] at hr
        obtain ⟨auth, hauth, hr⟩ := hr
        obtain ⟨satisfied, u, h1, h2⟩ := runs_bind.mp hr
        obtain ⟨hu, hsat⟩ := hcheck f rfl h1 h fun p hp => hlead p (hp ▸ hauth)
        cases satisfied with
        | false =>
            obtain ⟨rfl, rfl⟩ := runs_pure.mp h2
            exact ⟨hu, fun hfalse => absurd hfalse Bool.false_ne_true⟩
        | true =>
            obtain ⟨p, rfl, hp⟩ := hsat rfl
            have hvouched : Vouched held granted get.scheme id :=
              Or.inr ⟨p.scheme, AuthorityLookup.scheme_ok hauth, hp⟩
            rw [if_pos rfl] at h2
            obtain ⟨_, v, hv, h3⟩ := runs_bind.mp h2
            obtain rfl := runs_modify.mp hv
            obtain ⟨-, rfl⟩ := runs_pure.mp h3
            exact ⟨hu.approve hvouched, fun _ => hvouched⟩

/-- The weight the accounts bring is that of accounts that are vouched for. -/
theorem justified_sumAccounts {check : Option (Option Authority → SignM Bool)}
    (hcheck : ∀ f, check = some f → SoundCheck sigs held granted get roots f) {threshold : UInt32}
    {as : List (String × UInt16)} {w : UInt32}
    (hr : Runs (SignState.sumAccounts get check threshold as w) s b s')
    (h : s.Justified sigs held granted get roots)
    (hlead : ∀ a ∈ as, ∀ p, get a.1 = .ok (some p) → Leads get.scheme roots p.scheme) :
    s'.Justified sigs held granted get roots ∧ (b = true →
      ∃ good : List (String × UInt16), good.Sublist as ∧
        (∀ a ∈ good, Vouched held granted get.scheme a.1) ∧
        threshold.toNat ≤ w.toNat + weight (good.map fun e => (e.1, e.2.toNat))) := by
  induction as generalizing w s with
  | nil =>
      obtain ⟨rfl, rfl⟩ := runs_pure.mp hr
      refine ⟨h, fun hb => ⟨[], .slnil, fun a ha => absurd ha List.not_mem_nil, ?_⟩⟩
      exact UInt32.le_iff_toNat_le.mp (of_decide_eq_true hb)
  | cons a as ih =>
      have hrest : ∀ x ∈ as, ∀ p, get x.1 = .ok (some p) → Leads get.scheme roots p.scheme :=
        fun x hx => hlead x (List.mem_cons_of_mem a hx)
      have hadd := toNat_add_weight_le w a.2
      rw [sumAccounts_cons] at hr
      obtain ⟨counts, u, h1, h2⟩ := runs_bind.mp hr
      obtain ⟨hu, hvouched⟩ := justified_countAccount hcheck h1 h (hlead a List.mem_cons_self)
      cases counts with
      | false =>
          obtain ⟨hs', hgood⟩ := ih h2 hu hrest
          refine ⟨hs', fun hb => ?_⟩
          obtain ⟨good, hsub, hall, hw⟩ := hgood hb
          exact ⟨good, hsub.cons a, hall, hw⟩
      | true =>
          rw [if_pos rfl] at h2
          split at h2
          case isTrue hreach =>
            obtain ⟨rfl, rfl⟩ := runs_pure.mp h2
            refine ⟨hu, fun _ => ⟨[a], List.singleton_sublist.mpr List.mem_cons_self,
              List.forall_mem_singleton.mpr (hvouched rfl), ?_⟩⟩
            have hreach := UInt32.le_iff_toNat_le.mp hreach
            simp only [List.map_cons, List.map_nil, weight_cons, weight_nil]
            omega
          case isFalse =>
            obtain ⟨hs', hgood⟩ := ih h2 hu hrest
            refine ⟨hs', fun hb => ?_⟩
            obtain ⟨good, hsub, hall, hw⟩ := hgood hb
            refine ⟨a :: good, hsub.cons_cons a, List.forall_mem_cons.mpr ⟨hvouched rfl, hall⟩, ?_⟩
            simp only [List.map_cons, weight_cons]
            omega

/-- The two loops of a check, whatever is called for the nested accounts. -/
theorem justified_checkMembers (havail : ∀ k ∈ availableKeys, held k) {a : Authority}
    {check : Option (Option Authority → SignM Bool)}
    (hcheck : ∀ f, check = some f → SoundCheck sigs held granted get roots f)
    (hr : Runs (SignState.checkMembers availableKeys get check a) s b s')
    (h : s.Justified sigs held granted get roots) (hlead : Leads get.scheme roots a.scheme) :
    s'.Justified sigs held granted get roots ∧ (b = true → Derivable held granted get.scheme a.scheme) := by
  obtain ⟨byKeys, u, h1, h2⟩ := runs_bind.mp hr
  obtain ⟨hu, ks, hks, hheld, hw, hreach⟩ :=
    justified_sumKeys havail h1 h hlead fun k hk => mem_schemeKeys hk
  rw [UInt32.toNat_zero, Nat.zero_add] at hw
  have hks' : (ks.map fun e => (e.1, e.2.toNat)).Sublist a.scheme.keys := hks.map _
  have hheld' : ∀ k ∈ ks.map fun e => (e.1, e.2.toNat), held k.1 := by
    intro k hk
    obtain ⟨e, he, rfl⟩ := List.mem_map.mp hk
    exact hheld e he
  cases hdone : byKeys.1 with
  | true =>
      rw [hdone, if_pos rfl] at h2
      obtain ⟨rfl, rfl⟩ := runs_pure.mp h2
      refine ⟨hu, fun _ => Scheme.Reached.derivable ⟨_, [], hks', List.nil_sublist _, hheld', ?_, ?_⟩⟩
      · exact fun m hm => absurd hm List.not_mem_nil
      · exact (hreach hdone).trans hw
  | false =>
      rw [hdone, if_neg Bool.false_ne_true] at h2
      have hnested : ∀ m ∈ a.accountAuths.entries, ∀ p, get m.1 = .ok (some p) →
          Leads get.scheme roots p.scheme := by
        intro m hm p hp
        have hmem : (m.1, m.2.toNat) ∈ a.scheme.members :=
          List.mem_map_of_mem (f := fun e : String × UInt16 => (e.1, e.2.toNat)) hm
        exact hlead.member hmem (AuthorityLookup.scheme_ok hp)
      obtain ⟨hs', hgood⟩ := justified_sumAccounts hcheck h2 hu hnested
      refine ⟨hs', fun hb => ?_⟩
      obtain ⟨ms, hms, hvouched, hw'⟩ := hgood hb
      refine Scheme.Reached.derivable ⟨_, _, hks', hms.map _, hheld', ?_, ?_⟩
      · intro m hm
        obtain ⟨e, he, rfl⟩ := List.mem_map.mp hm
        exact hvouched e he
      · exact hw'.trans (Nat.add_le_add_right hw _)

/-- **Soundness of one check**, at every depth: what it accepts has a derivation, and the state
stays justified. -/
theorem soundCheck_checkAuthority (havail : ∀ k ∈ availableKeys, held k) (n : ℕ) :
    SoundCheck sigs held granted get roots (SignState.checkAuthority availableKeys get n) := by
  induction n with
  | zero =>
      intro auth s s' b hr h hlead
      cases auth with
      | none =>
          obtain ⟨rfl, rfl⟩ := runs_pure.mp hr
          exact ⟨h, nofun⟩
      | some a =>
          have hcheck : ∀ f, (none : Option (Option Authority → SignM Bool)) = some f →
              SoundCheck sigs held granted get roots f := nofun
          obtain ⟨hs', hb⟩ := justified_checkMembers havail hcheck hr h (hlead a rfl)
          exact ⟨hs', fun ht => ⟨a, rfl, hb ht⟩⟩
  | succ n ih =>
      intro auth s s' b hr h hlead
      cases auth with
      | none =>
          obtain ⟨rfl, rfl⟩ := runs_pure.mp hr
          exact ⟨h, nofun⟩
      | some a =>
          have hcheck : ∀ f, some (SignState.checkAuthority availableKeys get n) = some f →
              SoundCheck sigs held granted get roots f := by
            intro f hf
            cases hf
            exact ih
          obtain ⟨hs', hb⟩ := justified_checkMembers havail hcheck hr h (hlead a rfl)
          exact ⟨hs', fun ht => ⟨a, rfl, hb ht⟩⟩

/-- A check of an authority that has to be fetched first. -/
theorem justified_checkFetched (havail : ∀ k ∈ availableKeys, held k) {n : ℕ}
    {auth : Except Exn (Option Authority)}
    (hr : Runs (SignState.checkFetched availableKeys get n auth) s b s')
    (h : s.Justified sigs held granted get roots)
    (hlead : ∀ a, auth = .ok (some a) → Leads get.scheme roots a.scheme) :
    s'.Justified sigs held granted get roots ∧
      (b = true → ∃ a, auth = .ok (some a) ∧ Derivable held granted get.scheme a.scheme) := by
  simp only [SignState.checkFetched, runs_bind_ofExcept] at hr
  obtain ⟨auth, rfl, hr⟩ := hr
  obtain ⟨hs', hb⟩ := soundCheck_checkAuthority havail n hr h fun a ha => hlead a (ha ▸ rfl)
  refine ⟨hs', fun ht => ?_⟩
  obtain ⟨a, rfl, ha⟩ := hb ht
  exact ⟨a, rfl, ha⟩

theorem justified_checkAccount (havail : ∀ k ∈ availableKeys, held k) {n : ℕ} {id : String}
    (hr : Runs (SignState.checkAccount availableKeys get n id) s b s')
    (h : s.Justified sigs held granted get roots)
    (hlead : ∀ a, get id = .ok (some a) → Leads get.scheme roots a.scheme) :
    s'.Justified sigs held granted get roots ∧ (b = true → Vouched held granted get.scheme id) := by
  simp only [SignState.checkAccount, runs_bind_reads] at hr
  by_cases hknown : id ∈ s.approvedBy
  · rw [decide_eq_true hknown, if_pos rfl] at hr
    obtain ⟨rfl, rfl⟩ := runs_pure.mp hr
    exact ⟨h, fun _ => h.approved id hknown⟩
  · rw [decide_eq_false hknown, if_neg Bool.false_ne_true] at hr
    obtain ⟨hs', hb⟩ := justified_checkFetched havail hr h hlead
    refine ⟨hs', fun ht => ?_⟩
    obtain ⟨a, ha, hd⟩ := hb ht
    exact Or.inr ⟨a.scheme, AuthorityLookup.scheme_ok ha, hd⟩

/-- What each of several checks guarantees, the first to succeed guarantees. -/
theorem justified_needOneOf {P : Prop} {msg : String} {checks : List (SignM Bool)}
    (hchecks : ∀ c ∈ checks, ∀ {s s' : SignState} {b : Bool}, Runs c s b s' →
      s.Justified sigs held granted get roots → s'.Justified sigs held granted get roots ∧ (b = true → P))
    (hr : Runs (needOneOf msg checks) s () s') (h : s.Justified sigs held granted get roots) :
    s'.Justified sigs held granted get roots ∧ P := by
  obtain ⟨b, u, h1, h2⟩ := runs_bind.mp hr
  obtain ⟨hb, rfl⟩ := runs_ofExcept.mp h2
  rw [fcAssert_ok] at hb
  subst hb
  clear hr h2
  induction checks generalizing s with
  | nil => exact absurd (runs_pure.mp h1).1 (by decide)
  | cons c cs ih =>
      obtain ⟨satisfied, v, h1, h2⟩ := runs_bind.mp h1
      obtain ⟨hv, hP⟩ := hchecks c List.mem_cons_self h1 h
      cases satisfied with
      | true =>
          obtain ⟨-, rfl⟩ := runs_pure.mp h2
          exact ⟨hv, hP rfl⟩
      | false => exact ih (fun d hd => hchecks d (List.mem_cons_of_mem c hd)) hv h2

/-- The state stays justified along a list of programs, and each of them has established what it
establishes for its element. -/
theorem justified_forM {α : Type} {P : α → Prop} {l : List α} {f : α → SignM Unit}
    (hf : ∀ x ∈ l, ∀ {s s' : SignState}, Runs (f x) s () s' → s.Justified sigs held granted get roots →
      s'.Justified sigs held granted get roots ∧ P x)
    (hr : Runs (l.forM f) s () s') (h : s.Justified sigs held granted get roots) :
    s'.Justified sigs held granted get roots ∧ ∀ x ∈ l, P x := by
  induction l generalizing s with
  | nil =>
      obtain ⟨-, rfl⟩ := runs_pure.mp hr
      exact ⟨h, fun x hx => absurd hx List.not_mem_nil⟩
  | cons x l ih =>
      obtain ⟨⟨⟩, u, h1, h2⟩ := runs_bind.mp hr
      obtain ⟨hu, hx⟩ := hf x List.mem_cons_self h1 h
      obtain ⟨hs', hl⟩ := ih (fun y hy => hf y (List.mem_cons_of_mem x hy)) h2 hu
      refine ⟨hs', fun y hy => ?_⟩
      rcases List.mem_cons.mp hy with rfl | hy
      · exact hx
      · exact hl y hy

end Notes

/-! ## The requirements -/

section Requirements

variable {sigs : List PublicKey} {held : PublicKey → Prop} {granted : String → Prop}
  {g : AuthorityLookups} {req : Required} {approvals : List String} {s s' : SignState}

/-- The authorities that `verify_authority` may ask for: those given literally, and those of
required accounts and contents. -/
inductive Asked (g : AuthorityLookups) (req : Required) : Authority → Prop
  | other {a : Authority} : a ∈ req.other → Asked g req a
  | account {a : Authority} {id : String} : id ∈ req.basic ++ req.active →
      g.nested req id = .ok (some a) → Asked g req a
  | active {a : Authority} {id : String} : id ∈ req.basic → g.active id = .ok (some a) → Asked g req a
  | owner {a : Authority} {id : String} : id ∈ req.basic ++ req.active ++ req.owner →
      g.owner id = .ok (some a) → Asked g req a
  | masterContent {a : Authority} {url : String} : url ∈ req.masterContent →
      g.masterContent url = .ok (some a) → Asked g req a
  | compContent {a : Authority} {url : String} : url ∈ req.compContent →
      g.compContent url = .ok (some a) → Asked g req a

/-- The schemes of the authorities that `verify_authority` may ask for. -/
def Roots (g : AuthorityLookups) (req : Required) (t : Scheme PublicKey String) : Prop :=
  ∃ a, Asked g req a ∧ t = a.scheme

/-- The authority that a getter has returned is derivable, so it did return one. -/
def Granted (held : PublicKey → Prop) (granted : String → Prop) (get : AuthorityLookup)
    (auth : Except Exn (Option Authority)) : Prop :=
  ∃ a, auth = .ok (some a) ∧ Derivable held granted get.scheme a.scheme

/-- Every requirement is met by a derivation: a basic one by the basic, active or owner
authority of the account, an active one by the active or owner authority. -/
structure Required.Met (held : PublicKey → Prop) (granted : String → Prop) (g : AuthorityLookups)
    (ownerApprovals : List String) (req : Required) : Prop where
  other : ∀ a ∈ req.other, Derivable held granted (g.nested req).scheme a.scheme
  basic : ∀ id ∈ req.basic, Vouched held granted (g.nested req).scheme id ∨
    Granted held granted (g.nested req) (g.active id) ∨ Granted held granted (g.nested req) (g.owner id)
  active : ∀ id ∈ req.active, Vouched held granted (g.nested req).scheme id ∨
    Granted held granted (g.nested req) (g.owner id)
  masterContent : ∀ url ∈ req.masterContent, Granted held granted (g.nested req) (g.masterContent url)
  compContent : ∀ url ∈ req.compContent, Granted held granted (g.nested req) (g.compContent url)
  owner : ∀ id ∈ req.owner, id ∈ ownerApprovals ∨ Granted held granted (g.nested req) (g.owner id)

theorem Asked.leads {a : Authority} (h : Asked g req a) :
    Leads (g.nested req).scheme (Roots g req) a.scheme := .root ⟨a, h, rfl⟩

/-- When all the checks of `verify_authority` pass, every requirement has a derivation, and the
state stays justified. -/
theorem justified_checkRequired {n : ℕ} (hr : Runs (checkRequired g n approvals req) s () s')
    (h : s.Justified sigs held granted (g.nested req) (Roots g req)) :
    s'.Justified sigs held granted (g.nested req) (Roots g req) ∧ req.Met held granted g approvals := by
  have hnone : ∀ k ∈ ([] : List PublicKey), held k := fun k hk => absurd hk List.not_mem_nil
  -- a fetched authority, and an account
  have hfetched : ∀ {auth : Except Exn (Option Authority)} {s s' : SignState} {b : Bool},
      (∀ a, auth = .ok (some a) → Asked g req a) →
      Runs (SignState.checkFetched [] (g.nested req) n auth) s b s' →
      s.Justified sigs held granted (g.nested req) (Roots g req) →
      s'.Justified sigs held granted (g.nested req) (Roots g req) ∧
        (b = true → Granted held granted (g.nested req) auth) :=
    fun hasked hc hs => justified_checkFetched hnone hc hs fun a ha => (hasked a ha).leads
  have haccount : ∀ {id : String} {s s' : SignState} {b : Bool}, id ∈ req.basic ++ req.active →
      Runs (SignState.checkAccount [] (g.nested req) n id) s b s' →
      s.Justified sigs held granted (g.nested req) (Roots g req) →
      s'.Justified sigs held granted (g.nested req) (Roots g req) ∧
        (b = true → Vouched held granted (g.nested req).scheme id) :=
    fun hid hc hs => justified_checkAccount hnone hc hs fun a ha => (Asked.account hid ha).leads
  obtain ⟨_, s1, h1, hr⟩ := runs_bind.mp hr
  obtain ⟨_, s2, h2, hr⟩ := runs_bind.mp hr
  obtain ⟨_, s3, h3, hr⟩ := runs_bind.mp hr
  obtain ⟨_, s4, h4, hr⟩ := runs_bind.mp hr
  obtain ⟨_, s5, h5, h6⟩ := runs_bind.mp hr
  obtain ⟨hs1, hother⟩ := justified_forM (P := fun a =>
      Derivable held granted (g.nested req).scheme a.scheme) (fun a ha _ _ hc hs => by
    refine justified_needOneOf (fun c hcs {s s' b} hrun hs => ?_) hc hs
    obtain rfl := List.mem_singleton.mp hcs
    obtain ⟨hs', hb⟩ := hfetched (fun x hx => by cases hx; exact .other ha) hrun hs
    refine ⟨hs', fun ht => ?_⟩
    obtain ⟨x, hx, hd⟩ := hb ht
    cases hx
    exact hd) h1 h
  obtain ⟨hs2, hbasic⟩ := justified_forM (P := fun id =>
      Vouched held granted (g.nested req).scheme id ∨
        Granted held granted (g.nested req) (g.active id) ∨
        Granted held granted (g.nested req) (g.owner id)) (fun id hid _ _ hc hs => by
    have hmem := List.mem_append_left req.active hid
    refine justified_needOneOf (fun c hcs {s s' b} hrun hs => ?_) hc hs
    simp only [List.mem_cons, List.not_mem_nil, or_false] at hcs
    rcases hcs with rfl | rfl | rfl
    · exact (haccount hmem hrun hs).imp_right fun hb ht => Or.inl (hb ht)
    · exact (hfetched (fun _ ha => .active hid ha) hrun hs).imp_right fun hb ht =>
        Or.inr (Or.inl (hb ht))
    · exact (hfetched (fun _ ha => .owner (List.mem_append_left _ hmem) ha) hrun hs).imp_right
        fun hb ht => Or.inr (Or.inr (hb ht))) h2 hs1
  obtain ⟨hs3, hactive⟩ := justified_forM (P := fun id =>
      Vouched held granted (g.nested req).scheme id ∨
        Granted held granted (g.nested req) (g.owner id)) (fun id hid _ _ hc hs => by
    have hmem := List.mem_append_right req.basic hid
    refine justified_needOneOf (fun c hcs {s s' b} hrun hs => ?_) hc hs
    simp only [List.mem_cons, List.not_mem_nil, or_false] at hcs
    rcases hcs with rfl | rfl
    · exact (haccount hmem hrun hs).imp_right fun hb ht => Or.inl (hb ht)
    · exact (hfetched (fun _ ha => .owner (List.mem_append_left _ hmem) ha) hrun hs).imp_right
        fun hb ht => Or.inr (hb ht)) h3 hs2
  obtain ⟨hs4, hmaster⟩ := justified_forM (P := fun url =>
      Granted held granted (g.nested req) (g.masterContent url)) (fun url hurl _ _ hc hs => by
    refine justified_needOneOf (fun c hcs {s s' b} hrun hs => ?_) hc hs
    obtain rfl := List.mem_singleton.mp hcs
    exact hfetched (fun _ ha => .masterContent hurl ha) hrun hs) h4 hs3
  obtain ⟨hs5, hcomp⟩ := justified_forM (P := fun url =>
      Granted held granted (g.nested req) (g.compContent url)) (fun url hurl _ _ hc hs => by
    refine justified_needOneOf (fun c hcs {s s' b} hrun hs => ?_) hc hs
    obtain rfl := List.mem_singleton.mp hcs
    exact hfetched (fun _ ha => .compContent hurl ha) hrun hs) h5 hs4
  obtain ⟨hs6, howner⟩ := justified_forM (P := fun id => id ∈ approvals ∨
      Granted held granted (g.nested req) (g.owner id)) (fun id hid _ _ hc hs => by
    have hmem := List.mem_append_right (req.basic ++ req.active) hid
    refine justified_needOneOf (fun c hcs {s s' b} hrun hs => ?_) hc hs
    simp only [List.mem_cons, List.not_mem_nil, or_false] at hcs
    rcases hcs with rfl | rfl
    · obtain ⟨rfl, rfl⟩ := runs_pure.mp hrun
      exact ⟨hs, fun ht => Or.inl (of_decide_eq_true ht)⟩
    · exact (hfetched (fun _ ha => .owner hmem ha) hrun hs).imp_right fun hb ht => Or.inr (hb ht)) h6 hs5
  exact ⟨hs6, hother, hbasic, hactive, hmaster, hcomp, howner⟩

end Requirements

/-! ## The whole verification -/

theorem find?_init (sigs : List PublicKey) (approvals : List String) (k : PublicKey) :
    (SignState.init sigs approvals).providedSignatures.find? k =
      if k ∈ sigs then some false else none := by
  have hfold : ∀ (l : List PublicKey) (m : FlatMap PublicKey Bool),
      ((l.map fun j => (j, false)).foldl (fun m e => m.set e.1 e.2) m).find? k =
        if k ∈ l then some false else m.find? k := by
    intro l
    induction l with
    | nil => exact fun m => rfl
    | cons j l ih =>
        intro m
        rw [List.map_cons, List.foldl_cons, ih, FlatMap.find?_set]
        simp only [List.mem_cons]
        split_ifs <;> simp_all
  exact hfold sigs .empty

theorem init_justified {sigs : List PublicKey} {held : PublicKey → Prop} {get : AuthorityLookup}
    {roots : Scheme PublicKey String → Prop} {approvals : List String} (hsigs : ∀ k ∈ sigs, held k) :
    (SignState.init sigs approvals).Justified sigs held (Preapproved approvals) get roots where
  approved id hid := Or.inl (List.mem_cons.mp hid)
  provided k b h := by
    rw [find?_init] at h
    split at h
    case isTrue hk => exact hsigs k hk
    case isFalse => cases h
  kept k hk := by rw [find?_init, if_pos hk, Option.isSome_some]
  used k h := by
    rw [find?_init] at h
    split at h <;> cases h

theorem requiredOf_ok {ops : List Operation} {req : Required} (h : requiredOf ops = .ok req) :
    req = requiredAuthorities ops := by
  simp only [requiredOf, except_bind_ok, except_pure_ok] at h
  obtain ⟨-, -, rfl⟩ := h
  rfl

/-- A provided key that is not among the unused ones has been marked as used. -/
theorem find?_of_unused {s : SignState} {k : PublicKey} (h : s.unused = [])
    (hk : (s.providedSignatures.find? k).isSome) : s.providedSignatures.find? k = some true := by
  obtain ⟨b, hb⟩ := Option.isSome_iff_exists.mp hk
  cases b with
  | true => exact hb
  | false =>
      have hmem : k ∈ s.unused := by
        refine List.mem_map.mpr ⟨(k, false), List.mem_filter.mpr ⟨?_, rfl⟩, rfl⟩
        exact FlatMap.mem_entries_iff.mpr hb
      rw [h] at hmem
      exact absurd hmem List.not_mem_nil

/-- A verification that succeeds has run all the checks from the fresh notes to some state `s` whose
notes are justified, and unless extra signatures are allowed `s` has no signature left unmarked. -/
theorem runs_verifyAuthority {ops : List Operation} {sigs : List PublicKey} {g : AuthorityLookups}
    {allowExtraSigs : Bool} {maxRecursionDepth : UInt32} {approvals : Approvals}
    (h : verifyAuthority ops sigs g allowExtraSigs maxRecursionDepth approvals = .ok ()) :
    requiredOf ops = .ok (requiredAuthorities ops) ∧ ∃ s : SignState,
      Runs (checkRequired g maxRecursionDepth.toNat approvals.owner (requiredAuthorities ops))
        (.init sigs approvals.all) () s ∧
      s.Justified sigs (· ∈ sigs) (Preapproved approvals.all) (g.nested (requiredAuthorities ops))
        (Roots g (requiredAuthorities ops)) ∧
      (requiredAuthorities ops).Met (· ∈ sigs) (Preapproved approvals.all) g approvals.owner ∧
      (allowExtraSigs = false → s.unused = []) := by
  simp only [verifyAuthority, except_bind_ok] at h
  obtain ⟨req, hreq, ⟨⟨⟩, s⟩, hr, hextra⟩ := h
  obtain rfl := requiredOf_ok hreq
  obtain ⟨hs, hmet⟩ := justified_checkRequired hr (init_justified fun k hk => hk)
  refine ⟨hreq, s, hr, hs, hmet, fun hallow => ?_⟩
  rwa [hallow, Bool.false_or, fcAssert_ok, List.isEmpty_iff] at hextra

/-- **Authority soundness.** What `verify_authority` accepts is required only of keys and accounts
that a finite derivation leads back to signatures and approvals. It accepts after a run of its checks
from notes in which no signature is marked yet (`find?_init`), and `signed_by`, asked about a key, is
the only one to set a mark. Unless extra signatures are allowed, that run has left no signature
unmarked: each of them was consulted, as a key of an authority that the requirements lead to. -/
theorem authority_sound {ops : List Operation} {sigs : List PublicKey} {g : AuthorityLookups}
    {allowExtraSigs : Bool} {maxRecursionDepth : UInt32} {approvals : Approvals}
    (h : verifyAuthority ops sigs g allowExtraSigs maxRecursionDepth approvals = .ok ()) :
    (requiredAuthorities ops).Met (· ∈ sigs) (Preapproved approvals.all) g approvals.owner ∧
      ∃ s : SignState,
        Runs (checkRequired g maxRecursionDepth.toNat approvals.owner (requiredAuthorities ops))
          (.init sigs approvals.all) () s ∧
        (allowExtraSigs = false → s.unused = [] ∧
          ∀ k ∈ sigs, s.providedSignatures.find? k = some true ∧ ∃ t,
            Leads (g.nested (requiredAuthorities ops)).scheme (Roots g (requiredAuthorities ops)) t ∧
              k ∈ t.keys.map Prod.fst) := by
  obtain ⟨-, s, hr, hs, hmet, hextra⟩ := runs_verifyAuthority h
  refine ⟨hmet, s, hr, fun hallow => ⟨hextra hallow, fun k hk => ?_⟩⟩
  have hmarked : s.providedSignatures.find? k = some true :=
    find?_of_unused (hextra hallow) (hs.kept k hk)
  exact ⟨hmarked, hs.used k hmarked⟩

namespace Sample

/-- Accounts by name, each with the same authority at every level. -/
def lookups (accounts : List (String × Authority)) : AuthorityLookups :=
  let get : AuthorityLookup := fun id => .ok ((accounts.find? fun a => a.1 = id).map Prod.snd)
  ⟨get, get, get, get, get⟩

/-- An authority for which any one of some keys and accounts suffices. -/
def anyOneOf (keys : List PublicKey) (accounts : List String) : Authority where
  weightThreshold := 1
  keyAuths := .ofList (keys.map fun k => (k, 1))
  accountAuths := .ofList (accounts.map fun a => (a, 1))

/-- The owner of `alice` signs for `bob`, and the two refer to each other. -/
def circle : AuthorityLookups := lookups [("alice", anyOneOf [1] ["bob"]), ("bob", anyOneOf [] ["alice"])]

end Sample

open Sample in
theorem circle_sound :
    ∃ s : SignState,
      Runs (checkRequired circle 2 [] (requiredAuthorities [.custom ["bob"] 0 []])) (.init [1] []) () s ∧
      s.providedSignatures.find? 1 = some true := by
  have h : verifyAuthority [.custom ["bob"] 0 []] [1] circle false 2 {} = .ok () := by decide +kernel
  obtain ⟨-, s, hr, hs⟩ := authority_sound h
  exact ⟨s, hr, ((hs rfl).2 1 List.mem_cons_self).1⟩

end BtcmChain
