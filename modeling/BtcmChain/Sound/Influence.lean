import BtcmChain.Sound.Standing
import Mathlib.Data.List.GetD

set_option autoImplicit false
set_option synthInstance.maxSize 10000000
set_option synthInstance.maxHeartbeats 200000

/-!
# Influence passed on to proxies

Vesting shares count for the account that holds them or, if it has named a proxy, for the
one who speaks for it, over at most four links. The chain does not follow the links when it
needs a total: each account records what the accounts one, two, three and four links below
it hold, and the candidates it votes for record what it counts for.

The walks up the chain (`adjust_proxied_witness_votes`, for one amount and for a whole
record) are specified by what they add where. Everything else follows: a change of shares
followed by its walk keeps the records true, and so does changing a proxy between the walk
that takes a record back and the walk that passes it on along the new chain.
-/

namespace BtcmChain

/-! ## One link -/

section Link

variable {s s' : Database} {r : Roll} {a b : AccountId} {v : AccountVoting}

/-- A record of an account changes: in the view of the votes its amounts grow by what is gained. -/
theorem Roll.standing_raise (hv : r.voting.accounts.find? b = some v) {l : List ShareType}
    {gain : ℕ → ℤ}
    (hgain : ∀ k, (l.getD k 0).toInt = (v.proxiedVsfVotes.getD k 0).toInt + gain k) :
    (r.withVoting b { v with proxiedVsfVotes := l }).standing = { r.standing with
      proxied := fun x k => r.standing.proxied x k + if x = b then gain k else 0 } := by
  have hproxied : Function.update r.proxied b (fun k => (l.getD k 0).toInt) =
      fun x k => r.proxied x k + if x = b then gain k else 0 := by
    funext x k
    rw [Function.update_apply]
    split
    case isTrue hx =>
      subst hx
      show (l.getD k 0).toInt = _
      rw [hgain, proxied, hv, Option.elim_some]
    case isFalse => exact (add_zero _).symm
  rw [standing_withVoting hv, up_self hv rfl, witnessesHeld_self hv rfl, platformsHeld_self hv rfl,
    hproxied]
  rfl

/-- The account that is fetched as the proxy of `a` is the one a link above. -/
theorem up_of_getAccount (hreg : s.roll.Registered) {x : AccountObject}
    (ha : s.accounts.find? a = some x) (hp : x.proxy ≠ "") {e : Entry AccountObject}
    (he : s.accountNamed x.proxy = some (e.id, e.val)) : s.standing.up a = some e.id := by
  have hv : s.roll.voting.accounts.find? a = some x.toAccountProfile.voting := by
    rw [find?_voting, ha]
    rfl
  exact (Roll.up_of_ne hv hp).trans (hreg.idNamed_of_accountNamed he)

theorem up_eq_none_iff (hreg : s.roll.Registered) {x : AccountObject}
    (ha : s.accounts.find? a = some x) : s.standing.up a = none ↔ x.proxy = "" := by
  have hv : s.roll.voting.accounts.find? a = some x.toAccountProfile.voting := by
    rw [find?_voting, ha]
    rfl
  exact hreg.up_eq_none_iff hv

/-- At the end of the chain, the votes of the account count. -/
theorem runs_adjustVotes (hreg : s.roll.Registered) {d : ShareType}
    (h : Runs (do
      adjustWitnessVotes a d
      adjustStreamingPlatformVotes a d) s () s') :
    s'.roll.Registered ∧ s'.standing = { s.standing with
      witnesses := s.standing.witnesses.gain a d.toInt
      platforms := s.standing.platforms.gain a d.toInt } := by
  obtain ⟨_, t, h1, h2⟩ := runs_bind.mp h
  obtain ⟨⟨x, hx⟩, hwit⟩ := runs_adjustWitnessVotes h1
  obtain ⟨⟨y, hy⟩, hplat⟩ := runs_adjustStreamingPlatformVotes h2
  refine ⟨?_, ?_⟩
  · rw [hy, hx]
    exact (hreg.withWitnesses x).withPlatforms y
  · rw [hplat, hwit]

end Link

/-! ## The walk -/

/-- What a ballot gains at the root a walk ends at. -/
def Ballot.land {ι κ : Type} [DecidableEq ι] [DecidableEq κ] (b : Ballot ι κ)
    (root : Option (ι × ℕ)) (d : ℕ → ℤ) : Ballot ι κ :=
  root.elim b fun p => b.gain p.1 (d p.2)

/-- The record of an account grows: so much more is proxied to it, over each number of links. -/
def Standing.record (st : Standing) (b : AccountId) (gain : ℕ → ℤ) : Standing :=
  { st with proxied := fun x k => st.proxied x k + if x = b then gain k else 0 }

/-- What a walk from `a` over at most `n` links leaves in the record of `x`: an amount from
`j` links below `a` goes to the slot of its distance from `x`, as long as there is one. -/
def passedOn (up : AccountId → Option AccountId) (delta : ℕ → ℤ) (n : ℕ) (a x : AccountId)
    (k : ℕ) : ℤ :=
  ∑ i ∈ Finset.range n,
    if 4 - n + i ≤ k ∧ k < 4 ∧ above up (i + 1) a = some x then delta (k - (4 - n + i)) else 0

/-- What comes near enough to count for a root with `m` links left. -/
def arriving (delta : ℕ → ℤ) (m : ℕ) : ℤ := ∑ j ∈ Finset.range (m + 1), delta j

/-- The standing after a walk from `a` with `n` links left: every account on the way records
what passes it, and a root counts all that came near enough. -/
def Standing.raise (st : Standing) (delta : ℕ → ℤ) (n : ℕ) (a : AccountId) : Standing :=
  { st with
    proxied := fun x k => st.proxied x k + passedOn st.up delta n a x k
    witnesses := st.witnesses.land (landing st.up n a) (arriving delta)
    platforms := st.platforms.land (landing st.up n a) (arriving delta) }

theorem arriving_single (d : ℤ) (m : ℕ) : arriving (fun j => if j = 0 then d else 0) m = d := by
  rw [arriving, Finset.sum_ite_eq', if_pos (Finset.mem_range.mpr (Nat.succ_pos m))]

theorem passedOn_of_root {up : AccountId → Option AccountId} {a : AccountId} (h : up a = none)
    (delta : ℕ → ℤ) (n : ℕ) (x : AccountId) (k : ℕ) : passedOn up delta n a x k = 0 := by
  refine Finset.sum_eq_zero fun i _ => if_neg ?_
  rintro ⟨-, -, habove⟩
  rw [above_succ_of_none h] at habove
  cases habove

/-- What is passed on up the chain of proxies goes over the first link, and on from there. -/
theorem passedOn_succ {up : AccountId → Option AccountId} {a b : AccountId} (h : up a = some b)
    (delta : ℕ → ℤ) {n : ℕ} (hn : n < 4) (x : AccountId) (k : ℕ) :
    passedOn up delta (n + 1) a x k =
      (if x = b then if 3 - n ≤ k ∧ k < 4 then delta (k - (3 - n)) else 0 else 0) +
        passedOn up delta n b x k := by
  unfold passedOn
  rw [Finset.sum_range_succ', add_comm]
  congr 1
  · rw [above_succ_of_some h, show 4 - (n + 1) + 0 = 3 - n by omega]
    by_cases hx : x = b
    · subst hx
      rw [if_pos rfl]
      exact if_congr ⟨fun hk => ⟨hk.1, hk.2.1⟩, fun hk => ⟨hk.1, hk.2, rfl⟩⟩ rfl rfl
    · rw [if_neg hx, if_neg]
      exact fun hk => hx (Option.some.inj hk.2.2).symm
  · refine Finset.sum_congr rfl fun i _ => ?_
    rw [above_succ_of_some h, show 4 - (n + 1) + (i + 1) = 4 - n + i by omega]

/-- At a root the walk ends: the root has no proxy, so its own votes gain the change. -/
theorem Standing.raise_of_root {st : Standing} {a : AccountId} (h : st.up a = none)
    (delta : ℕ → ℤ) (n : ℕ) : st.raise delta n a = { st with
      witnesses := st.witnesses.gain a (arriving delta n)
      platforms := st.platforms.gain a (arriving delta n) } := by
  have hproxied : (fun x k => st.proxied x k + passedOn st.up delta n a x k) = st.proxied := by
    funext x k
    rw [passedOn_of_root h, add_zero]
  rw [raise, hproxied, landing_of_root h]
  rfl

/-- Beyond the last link nothing is passed on, and the view of the votes stays as it is. -/
theorem Standing.raise_zero {st : Standing} {a b : AccountId} (h : st.up a = some b)
    (delta : ℕ → ℤ) : st.raise delta 0 a = st := by
  have hproxied : (fun x k => st.proxied x k + passedOn st.up delta 0 a x k) = st.proxied := by
    funext x k
    exact add_zero _
  rw [raise, hproxied, landing_zero_of_some h]
  rfl

/-- The walk takes one link at a time: the record of the next account grows, and the rest of the
walk starts there. -/
theorem Standing.raise_succ {st : Standing} {a b : AccountId} (h : st.up a = some b)
    (delta : ℕ → ℤ) {n : ℕ} (hn : n < 4) : st.raise delta (n + 1) a =
      (st.record b fun k => if 3 - n ≤ k ∧ k < 4 then delta (k - (3 - n)) else 0).raise
        delta n b := by
  have hproxied : (fun x k => st.proxied x k + passedOn st.up delta (n + 1) a x k) = fun x k =>
      st.proxied x k +
        (if x = b then if 3 - n ≤ k ∧ k < 4 then delta (k - (3 - n)) else 0 else 0) +
        passedOn st.up delta n b x k := by
    funext x k
    rw [passedOn_succ h delta hn, add_assoc]
  rw [raise, hproxied, landing_succ_of_some h]
  rfl

section Walks

variable {s s' : Database} {a b : AccountId}

/-- Writing the record of an account changes that record in the view of the votes, and nothing else.
-/
theorem runs_record {change : List ShareType → Except Exn (List ShareType)} {gain : ℕ → ℤ}
    (hreg : s.roll.Registered)
    (hchange : ∀ l l', l.length = 4 → change l = .ok l' →
      l'.length = 4 ∧ ∀ k, (l'.getD k 0).toInt = (l.getD k 0).toInt + gain k)
    (h : Runs (modifyProfile b fun p => do
      let l ← change p.proxiedVsfVotes
      return { p with proxiedVsfVotes := l }) s () s') :
    s'.roll.Registered ∧ s'.standing = s.standing.record b gain := by
  obtain ⟨x, p, hx, hp, hroll⟩ := roll_modifyProfile h
  simp only [except_bind_ok, except_pure_ok] at hp
  obtain ⟨l, hl, rfl⟩ := hp
  have hfind : s.roll.voting.accounts.find? b = some x.toAccountProfile.voting := by
    rw [find?_voting, hx]
    rfl
  obtain ⟨hlen, hgain⟩ := hchange _ l (hreg.slots hfind) hl
  have hvoting : s'.roll = s.roll.withVoting b
      { x.toAccountProfile.voting with proxiedVsfVotes := l } := hroll
  have hlinked := hreg.linked hfind
  refine ⟨?_, ?_⟩
  · rw [hvoting]
    exact hreg.withVoting hfind hlinked hlen
  · rw [Database.standing, hvoting]
    exact Roll.standing_raise hfind hgain

/-- Both kinds of walk: `root` counts for the votes of a root what has come near enough, and
`write` puts into the record of a proxy what there is still a slot for. -/
def walkUp (root : ℕ → AccountId → DbM Unit)
    (write : ℕ → List ShareType → Except Exn (List ShareType)) : ℕ → AccountId → DbM Unit
  | n, a => do
      let acct ← accountIndex.get a
      if acct.proxy ≠ "" then
        match n with
        | 0 => pure ()
        | n + 1 => do
            let proxy ← getAccount acct.proxy
            modifyProfile proxy.id fun p => do
              let l ← write n p.proxiedVsfVotes
              return { p with proxiedVsfVotes := l }
            walkUp root write n proxy.id
      else root n a

section Walk

variable {root : ℕ → AccountId → DbM Unit}
  {write : ℕ → List ShareType → Except Exn (List ShareType)} {n : ℕ}

/-- One round: a root, the last link, or a link and the way on. -/
theorem walkUp_cases (hreg : s.roll.Registered) (h : Runs (walkUp root write n a) s () s') :
    s.standing.up a = none ∧ Runs (root n a) s () s' ∨
      ∃ b, s.standing.up a = some b ∧ (n = 0 ∧ s' = s ∨ ∃ m t, n = m + 1 ∧
        Runs (modifyProfile b fun p => do
          let l ← write m p.proxiedVsfVotes
          return { p with proxiedVsfVotes := l }) s () t ∧ Runs (walkUp root write m b) t () s') := by
  unfold walkUp at h
  rw [runs_bind_get] at h
  obtain ⟨x, hx, h⟩ := h
  rcases runs_ite.mp h with ⟨hp, h⟩ | ⟨hp, h⟩
  · obtain ⟨b, hb⟩ : ∃ b, s.standing.up a = some b :=
      Option.ne_none_iff_exists'.mp fun hnone => hp ((up_eq_none_iff hreg hx).mp hnone)
    refine Or.inr ⟨b, hb, ?_⟩
    cases n with
    | zero => exact Or.inl ⟨rfl, (runs_pure.mp h).2⟩
    | succ m =>
        simp only [runs_bind_getAccount] at h
        obtain ⟨e, he, h⟩ := h
        obtain rfl : b = e.id := Option.some.inj (hb.symm.trans (up_of_getAccount hreg hx hp he))
        obtain ⟨_, t, h1, h2⟩ := runs_bind.mp h
        exact Or.inr ⟨m, t, rfl, h1, h2⟩
  · exact Or.inl ⟨(up_eq_none_iff hreg hx).mpr (not_not.mp hp), h⟩

theorem runs_walkUp {delta : ℕ → ℤ}
    (hroot : ∀ n a t t', Runs (root n a) t () t' → ∃ d : ShareType,
      d.toInt = arriving delta n ∧ Runs (do
        adjustWitnessVotes a d
        adjustStreamingPlatformVotes a d) t () t')
    (hwrite : ∀ n l l', n < 4 → l.length = 4 → write n l = .ok l' → l'.length = 4 ∧
      ∀ k, (l'.getD k 0).toInt = (l.getD k 0).toInt +
        if 3 - n ≤ k ∧ k < 4 then delta (k - (3 - n)) else 0)
    (hn : n ≤ 4) (hreg : s.roll.Registered) (h : Runs (walkUp root write n a) s () s') :
    s'.roll.Registered ∧ s'.standing = s.standing.raise delta n a := by
  induction n generalizing a s with
  | zero =>
      rcases walkUp_cases hreg h with ⟨hup, h⟩ | ⟨b, hup, ⟨-, rfl⟩ | ⟨_, _, h0, -⟩⟩
      · obtain ⟨d, hd, h⟩ := hroot _ _ _ _ h
        rw [Standing.raise_of_root hup, ← hd]
        exact runs_adjustVotes hreg h
      · exact ⟨hreg, (Standing.raise_zero hup delta).symm⟩
      · cases h0
  | succ n ih =>
      rcases walkUp_cases hreg h with ⟨hup, h⟩ | ⟨b, hup, ⟨h0, -⟩ | ⟨_, t, h0, h1, h2⟩⟩
      · obtain ⟨d, hd, h⟩ := hroot _ _ _ _ h
        rw [Standing.raise_of_root hup, ← hd]
        exact runs_adjustVotes hreg h
      · cases h0
      · obtain rfl := Nat.succ.inj h0
        obtain ⟨hreg', ht⟩ := runs_record hreg (fun l l' => hwrite n l l' hn) h1
        obtain ⟨hreg'', hs'⟩ := ih (Nat.le_of_lt hn) hreg' h2
        exact ⟨hreg'', by rw [hs', ht, Standing.raise_succ hup delta hn]⟩

end Walk

theorem adjustProxiedWitnessVotesFrom_eq (d : ShareType) (n : ℕ) (a : AccountId) :
    adjustProxiedWitnessVotesFrom d n a = walkUp (fun _ a => do
        adjustWitnessVotes a d
        adjustStreamingPlatformVotes a d)
      (fun n l => do
        let v ← safeAdd (l.getD (3 - n) 0) d
        return l.set (3 - n) v) n a := by
  induction n generalizing a with
  | zero => rfl
  | succ n ih =>
      unfold adjustProxiedWitnessVotesFrom walkUp
      simp only [ih, bind_assoc, pure_bind]

/-- The walk with one amount changes the view of the votes as passing it on up the chain does. -/
theorem runs_adjustProxiedWitnessVotes {d : ShareType} (hreg : s.roll.Registered)
    (h : Runs (adjustProxiedWitnessVotes a d) s () s') :
    s'.roll.Registered ∧
      s'.standing = s.standing.raise (fun j => if j = 0 then d.toInt else 0) 4 a := by
  rw [adjustProxiedWitnessVotes, adjustProxiedWitnessVotesFrom_eq] at h
  refine runs_walkUp ?_ ?_ (le_refl 4) hreg h
  · intro n a t t' ht
    exact ⟨d, (arriving_single _ n).symm, ht⟩
  · intro n l l' hn hlen hl
    simp only [except_bind_ok, except_pure_ok, safeAdd_ok] at hl
    obtain ⟨v, hv, rfl⟩ := hl
    refine ⟨by rw [List.length_set, hlen], fun k => ?_⟩
    rw [List.getD_eq_getElem?_getD, List.getElem?_set]
    by_cases hk : 3 - n = k
    · subst hk
      rw [if_pos rfl, if_pos (by omega), if_pos (by omega), if_pos (Nat.sub_self _)]
      exact hv
    · rw [if_neg hk, ← List.getD_eq_getElem?_getD]
      split
      · rw [if_neg (by omega), add_zero]
      · rw [add_zero]

/-- A checked sum that succeeds is the sum of the numbers. -/
theorem foldlM_safeAdd_ok {l : List ShareType} {x y : ShareType} (h : l.foldlM safeAdd x = .ok y) :
    y.toInt = x.toInt + (l.map Int64.toInt).sum := by
  refine foldlM_ok_induction (P := fun done z => z.toInt = x.toInt + (done.map Int64.toInt).sum) h
    (add_zero _).symm fun done b rest u v _ hu hv => ?_
  rw [List.map_append, List.sum_append, ← add_assoc, ← hu]
  simpa using hv

theorem sum_take_eq (l : List ShareType) (n : ℕ) :
    ((l.take n).map Int64.toInt).sum = ∑ j ∈ Finset.range n, (l.getD j 0).toInt := by
  induction n generalizing l with
  | zero => rfl
  | succ n ih =>
      cases l with
      | nil => simp
      | cons a l =>
          rw [List.take_succ_cons, List.map_cons, List.sum_cons, ih, Finset.sum_range_succ', add_comm]
          rfl

theorem addProxiedVotes_ok {l l' delta : List ShareType} {depth : ℕ}
    (h : addProxiedVotes l delta depth = .ok l') : l'.length = l.length ∧ ∀ k,
      (l'.getD k 0).toInt = (l.getD k 0).toInt +
        if depth ≤ k ∧ k < l.length then (delta.getD (k - depth) 0).toInt else 0 := by
  have hall := mapM_ok h
  have hlen : l'.length = l.length := hall.length_eq.symm.trans List.length_range
  refine ⟨hlen, fun k => ?_⟩
  by_cases hk : k < l.length
  · have hk' := List.Forall₂.get hall (by rwa [List.length_range]) (hlen.symm ▸ hk)
    simp only [List.get_eq_getElem, List.getElem_range] at hk'
    rw [List.getD_eq_getElem l' 0 (hlen.symm ▸ hk)]
    split at hk'
    case isTrue hd =>
      rw [if_pos ⟨hd, hk⟩]
      exact safeAdd_ok.mp hk'
    case isFalse hd =>
      rw [if_neg fun hd' => hd hd'.1, add_zero, ← Except.ok.inj hk']
  · rw [if_neg fun hk' => hk hk'.2, List.getD_eq_default _ _ (by omega),
      List.getD_eq_default _ _ (by omega)]
    rfl

theorem adjustProxiedWitnessVotesAll_eq (delta : List ShareType) (n : ℕ) (a : AccountId) :
    adjustProxiedWitnessVotesAll delta n a = walkUp (fun n a => do
        let total ← ofExcept (sumShares (delta.take (n + 1)).reverse)
        adjustWitnessVotes a total
        adjustStreamingPlatformVotes a total)
      (fun n l => addProxiedVotes l delta (3 - n)) n a := by
  induction n generalizing a with
  | zero => rfl
  | succ n ih =>
      unfold adjustProxiedWitnessVotesAll walkUp
      simp only [ih]

/-- The walk with a whole record changes the view of the votes as passing it on up the chain does.
-/
theorem runs_adjustProxiedWitnessVotesAll {delta : List ShareType} (hreg : s.roll.Registered)
    (h : Runs (adjustProxiedWitnessVotesAll delta 4 a) s () s') :
    s'.roll.Registered ∧ s'.standing = s.standing.raise (fun j => (delta.getD j 0).toInt) 4 a := by
  rw [adjustProxiedWitnessVotesAll_eq] at h
  refine runs_walkUp ?_ ?_ (le_refl 4) hreg h
  · intro n a t t' ht
    obtain ⟨d, hd, ht⟩ := runs_bind_ofExcept.mp ht
    refine ⟨d, ?_, ht⟩
    rw [foldlM_safeAdd_ok hd, List.map_reverse, List.sum_reverse, sum_take_eq]
    exact zero_add _
  · intro n l l' _ hlen hl
    obtain ⟨hlen', hk⟩ := addProxiedVotes_ok hl
    rw [hlen] at hlen' hk
    exact ⟨hlen', hk⟩

end Walks

/-! ## True records -/

/-- What links, records and tallies have to do with each other. `slack` is by how much the
total exceeds the shares there are, which is zero but in the middle of a withdrawal; `p`
says whether the tallies of the platforms are looked at. -/
structure Standing.Sound (p : Prop) (slack : ℤ) (st : Standing) : Prop where
  acyclic : Acyclic st.up
  records : ∀ x k, k < 4 → st.proxied x k = below st.up st.shares (k + 1) x
  total : st.total = (st.shares.sum fun _ n => n) + slack
  witnesses : st.witnesses.Fits 30 st.up (reach st.up st.shares 4)
  platforms : p → st.platforms.Fits 30 st.up (reach st.up st.shares 4)

section Land

variable {ι κ : Type} [DecidableEq ι] [DecidableEq κ] {b : Ballot ι κ} {up : ι → Option ι}
  {limit : ℕ} {weight weight' : ι → ℤ}

theorem Ballot.Fits.land (h : b.Fits limit up weight) (root : Option (ι × ℕ)) (d : ℕ → ℤ)
    (hw : ∀ x, up x = none →
      weight' x = weight x + root.elim 0 fun p => if p.1 = x then d p.2 else 0) :
    (b.land root d).Fits limit up weight' := by
  cases root with
  | none => exact h.congr fun k v hk => ⟨(h.voters hk).1, (hw _ (h.voters hk).1).trans (add_zero _)⟩
  | some q =>
      refine h.gain fun x hx => (hw x hx).trans ?_
      exact congrArg _ (if_congr eq_comm rfl rfl)

end Land

section Vest

variable {p : Prop} {slack : ℤ} {st : Standing} {a : AccountId}

theorem passedOn_single (up : AccountId → Option AccountId) (d : ℤ) (a x : AccountId) {k : ℕ}
    (hk : k < 4) : passedOn up (fun j => if j = 0 then d else 0) 4 a x k =
      if above up (k + 1) a = some x then d else 0 := by
  unfold passedOn
  rw [Finset.sum_eq_single_of_mem k (Finset.mem_range.mpr hk)]
  · refine if_congr ⟨fun h => h.2.2, fun h => ⟨by omega, hk, h⟩⟩ ?_ rfl
    exact if_pos (by omega)
  · intro i _ hi
    split
    case isTrue h => exact if_neg (by omega)
    case isFalse => rfl

/-- Shares that change hands, and are told to the chain of proxies above, keep the view of the votes
sound. -/
theorem Standing.Sound.vest (h : st.Sound p slack) (a : AccountId) (d t : ℤ) :
    Sound p (slack + (t - st.total) - d) (raise { st with
      shares := st.shares + Finsupp.single a d
      total := t } (fun j => if j = 0 then d else 0) 4 a) := by
  have hsum : ((st.shares + Finsupp.single a d).sum fun _ n => n) =
      (st.shares.sum fun _ n => n) + d := by
    rw [Finsupp.sum_add_index' (fun _ => rfl) (fun _ _ _ => rfl), Finsupp.sum_single_index rfl]
  have hweight : ∀ x, st.up x = none → reach st.up (st.shares + Finsupp.single a d) 4 x =
      reach st.up st.shares 4 x + (landing st.up 4 a).elim 0 fun q =>
        if q.1 = x then arriving (fun j => if j = 0 then d else 0) q.2 else 0 := by
    intro x hx
    simp only [reach_add_single hx, arriving_single]
  refine ⟨h.acyclic, fun x k hk => ?_, ?_, h.witnesses.land (landing st.up 4 a) _ hweight,
    fun hp => (h.platforms hp).land (landing st.up 4 a) _ hweight⟩
  · show st.proxied x k + passedOn st.up _ 4 a x k =
      below st.up (st.shares + Finsupp.single a d) (k + 1) x
    rw [passedOn_single _ _ _ _ hk, h.records x k hk, below_add_single]
  · show t = ((st.shares + Finsupp.single a d).sum fun _ n => n) + _
    rw [hsum]
    have := h.total
    omega

end Vest

/-! ## A change of proxy -/

/-- The records are true as if `a` had no proxy and no votes, whatever it has. -/
structure Standing.Apart (p : Prop) (slack : ℤ) (a : AccountId) (st : Standing) : Prop where
  acyclic : Acyclic (unlink st.up a)
  records : ∀ x k, k < 4 → st.proxied x k = below (unlink st.up a) st.shares (k + 1) x
  total : st.total = (st.shares.sum fun _ n => n) + slack
  witnesses : st.witnesses.Fits 30 (unlink st.up a)
    (Function.update (reach (unlink st.up a) st.shares 4) a 0)
  platforms : p → st.platforms.Fits 30 (unlink st.up a)
    (Function.update (reach (unlink st.up a) st.shares 4) a 0)

/-- Nobody votes under that name: no vote on the ballot was cast by it. -/
def Ballot.Silent {ι κ : Type} (b : Ballot ι κ) (a : ι) : Prop :=
  ∀ k v, b.cast.find? k = some v → v.1 ≠ a

section Proxy

variable {p : Prop} {slack : ℤ} {st : Standing} {a b : AccountId} {delta : ℕ → ℤ}

/-- What the link of `a` contributes to the records above. -/
theorem passedOn_below (up : AccountId → Option AccountId) (w : AccountId →₀ ℤ) (a x : AccountId)
    {k : ℕ} (hk : k < 4) : below up w (k + 1) x = below (unlink up a) w (k + 1) x +
      passedOn up (fun j => below (unlink up a) w j a) 4 a x k := by
  rw [below_succ_relink up w a]
  refine congrArg _ (Finset.sum_subset_zero_on_sdiff ?_ (fun i hi => ?_) fun i hi => ?_)
  · exact Finset.range_subset_range.mpr hk
  · rw [Finset.mem_sdiff, Finset.mem_range, Finset.mem_range] at hi
    exact if_neg (by omega)
  · have hi := Finset.mem_range.mp hi
    rw [show 4 - 4 + i = i by omega]
    exact if_congr ⟨fun h => ⟨by omega, hk, h⟩, fun h => h.2.2⟩ rfl rfl

theorem passedOn_congr {delta' : ℕ → ℤ} (up : AccountId → Option AccountId)
    (h : ∀ j ≤ 4, delta j = delta' j) (a x : AccountId) (k : ℕ) :
    passedOn up delta 4 a x k = passedOn up delta' 4 a x k := by
  refine Finset.sum_congr rfl fun i _ => ?_
  split
  case isTrue hk => exact h _ (by omega)
  case isFalse => rfl

theorem passedOn_neg (up : AccountId → Option AccountId) (a x : AccountId) (k : ℕ) :
    passedOn up (fun j => -delta j) 4 a x k = -passedOn up delta 4 a x k := by
  rw [passedOn, passedOn, ← Finset.sum_neg_distrib]
  refine Finset.sum_congr rfl fun i _ => ?_
  split
  · rfl
  · exact neg_zero.symm

theorem unlink_of_root {up : AccountId → Option AccountId} (h : up a = none) : unlink up a = up :=
  Function.update_eq_self_iff.mpr h.symm

/-- A root stays a root when some link is taken away. -/
theorem unlink_eq_none {up : AccountId → Option AccountId} {x : AccountId} (h : up x = none) :
    unlink up a x = none := by
  by_cases hx : x = a
  · rw [hx, unlink_self]
  · rw [unlink_of_ne hx, h]

/-- What a walk from `a` brings to a root or takes away from it. -/
theorem weight_apart (hacyclic : Acyclic st.up)
    (hdelta : ∀ j ≤ 4, delta j = -below st.up st.shares j a) {x : AccountId} (hx : st.up x = none) :
    Function.update (reach (unlink st.up a) st.shares 4) a 0 x = reach st.up st.shares 4 x +
      (landing st.up 4 a).elim 0 fun q => if q.1 = x then arriving delta q.2 else 0 := by
  have harriving : ∀ m ≤ 4, arriving delta m = -reach st.up st.shares m a := by
    intro m hm
    rw [arriving, reach, ← Finset.sum_neg_distrib]
    exact Finset.sum_congr rfl fun j hj => hdelta j (by have := Finset.mem_range.mp hj; omega)
  cases hup : st.up a with
  | none =>
      rw [landing_of_root hup, Option.elim_some, unlink_of_root hup, harriving 4 (le_refl 4)]
      by_cases hxa : x = a
      · subst hxa
        rw [Function.update_self, if_pos rfl]
        omega
      · rw [Function.update_of_ne hxa, if_neg (Ne.symm hxa), add_zero]
  | some b =>
      have hxa : x ≠ a := by
        rintro rfl
        rw [hx] at hup
        cases hup
      rw [Function.update_of_ne hxa, reach_relink hx hup]
      cases hl : landing st.up 4 a with
      | none => simp
      | some q =>
          obtain ⟨-, hq, -⟩ := above_of_landing (r := q.1) (m := q.2) hl
          have hself : reach (unlink st.up a) st.shares q.2 a = reach st.up st.shares q.2 a :=
            Finset.sum_congr rfl fun j _ => below_unlink_self hacyclic st.shares a j
          simp only [Option.elim_some, harriving _ hq, hself]
          split <;> omega

/-- The walk that takes the record of an account back. -/
theorem Standing.Sound.apart (h : st.Sound p slack)
    (hdelta : ∀ j ≤ 4, delta j = -below st.up st.shares j a) :
    (st.raise delta 4 a).Apart p slack a := by
  have hweight := fun x hx => weight_apart h.acyclic hdelta (x := x) hx
  have hapart {κ : Type} [DecidableEq κ] {b : Ballot AccountId κ}
      (hb : b.Fits 30 st.up (reach st.up st.shares 4)) :
      (b.land (landing st.up 4 a) (arriving delta)).Fits 30 (unlink st.up a)
        (Function.update (reach (unlink st.up a) st.shares 4) a 0) :=
    have hland := hb.land _ _ hweight
    hland.congr fun k v hk => ⟨unlink_eq_none (hland.voters hk).1, rfl⟩
  refine ⟨h.acyclic.unlink a, fun x k hk => ?_, h.total, hapart h.witnesses,
    fun hp => hapart (h.platforms hp)⟩
  have hself : ∀ j ≤ 4, delta j = -below (unlink st.up a) st.shares j a := fun j hj => by
    rw [hdelta j hj, below_unlink_self h.acyclic]
  show st.proxied x k + passedOn st.up delta 4 a x k = below (unlink st.up a) st.shares (k + 1) x
  rw [h.records x k hk, passedOn_below st.up st.shares a x hk, passedOn_congr _ hself, passedOn_neg]
  omega

/-- Without votes, someone who is apart just counts for itself. -/
theorem Ballot.Fits.silent {κ : Type} [DecidableEq κ] {b : Ballot AccountId κ}
    {up : AccountId → Option AccountId} {weight : AccountId → ℤ}
    (h : b.Fits 30 up (Function.update weight a 0)) (hs : b.Silent a) : b.Fits 30 up weight :=
  h.congr fun k v hk => ⟨(h.voters hk).1, (Function.update_of_ne (hs k v hk) _ _).symm⟩

/-- Dropping the votes of someone who stands apart keeps the view of the votes in order. -/
theorem Standing.Apart.clear (h : st.Apart p slack a) :
    Apart p slack a { st with
      witnesses := st.witnesses.clear a
      platforms := st.platforms.clear a } :=
  ⟨h.acyclic, h.records, h.total, (h.witnesses.clear (Function.update_self ..)).1,
    fun hp => ((h.platforms hp).clear (Function.update_self ..)).1⟩

/-- Another link for someone who stands apart keeps the view of the votes in order, as it is not
followed so far. -/
theorem Standing.Apart.relink (h : st.Apart p slack a) (l : Option AccountId) :
    Apart p slack a { st with up := Function.update st.up a l } := by
  have hsame : unlink (Function.update st.up a l) a = unlink st.up a := Function.update_idem ..
  refine ⟨?_, ?_, h.total, ?_, ?_⟩
  all_goals
    simp only [hsame]
  · exact h.acyclic
  · exact h.records
  · exact h.witnesses
  · exact h.platforms

/-- Someone without a proxy and without votes need not stand apart: nobody is to be told of
anything. -/
theorem Standing.Apart.sound (h : st.Apart p slack a) (hup : st.up a = none)
    (hw : st.witnesses.Silent a) (hp : p → st.platforms.Silent a) : st.Sound p slack := by
  have hsame := unlink_of_root hup
  obtain ⟨h1, h2, h3, h4, h5⟩ := h
  rw [hsame] at h1 h2 h4 h5
  exact ⟨h1, h2, h3, h4.silent hw, fun h => (h5 h).silent (hp h)⟩

/-- The walk that passes the record on along the new chain. -/
theorem Standing.Apart.link (h : st.Apart p slack a) (hup : st.up a = some b)
    (hb : ∀ k, above (unlink st.up a) k b ≠ some a)
    (hdelta : ∀ j ≤ 4, delta j = below (unlink st.up a) st.shares j a)
    (hw : st.witnesses.Silent a) (hp : p → st.platforms.Silent a) :
    (st.raise delta 4 a).Sound p slack := by
  have harriving : ∀ m ≤ 4, arriving delta m = reach (unlink st.up a) st.shares m a := fun m hm =>
    Finset.sum_congr rfl fun j hj => hdelta j (by have := Finset.mem_range.mp hj; omega)
  have hweight : ∀ x, st.up x = none → reach st.up st.shares 4 x =
      reach (unlink st.up a) st.shares 4 x + (landing st.up 4 a).elim 0 fun q =>
        if q.1 = x then arriving delta q.2 else 0 := by
    intro x hx
    rw [reach_relink hx hup]
    cases hl : landing st.up 4 a with
    | none => rfl
    | some q =>
        obtain ⟨-, hq, -⟩ := above_of_landing (r := q.1) (m := q.2) hl
        simp only [Option.elim_some, harriving _ hq]
  have hland {κ : Type} [DecidableEq κ] {c : Ballot AccountId κ} (hs : c.Silent a)
      (hc : c.Fits 30 (unlink st.up a)
        (Function.update (reach (unlink st.up a) st.shares 4) a 0)) :
      (c.land (landing st.up 4 a) (arriving delta)).Fits 30 st.up (reach st.up st.shares 4) := by
    refine Ballot.Fits.land ((hc.silent hs).congr fun k v hk => ⟨?_, rfl⟩) _ _ hweight
    rw [show st.up v.1 = unlink st.up a v.1 from (unlink_of_ne (hs k v hk)).symm]
    exact (hc.voters hk).1
  refine ⟨Acyclic.link h.acyclic hup hb, fun x k hk => ?_, h.total, hland hw h.witnesses,
    fun hq => hland (hp hq) (h.platforms hq)⟩
  show st.proxied x k + passedOn st.up delta 4 a x k = below st.up st.shares (k + 1) x
  rw [h.records x k hk, passedOn_below st.up st.shares a x hk, passedOn_congr _ hdelta]

end Proxy

end BtcmChain
