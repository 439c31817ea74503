import BtcmChain.Lib.FlatMap
import BtcmChain.Lib.Forest

set_option autoImplicit false

/-!
# Ballots

Voters cast votes for candidates; a candidate's tally is kept up to date instead of being
recounted. `Fits` says that it is what a recount would give, when every voter has a given
weight, that only roots of the parent links vote, nobody twice for the same candidate, and
that every voter knows how many votes it has cast. One lemma for each way in which a ballot
changes.
-/

namespace BtcmChain

/-! ## Weights from a map -/

namespace FlatMap

variable {κ : Type} [LinearOrder κ]

/-- The entries of a map as weights, where the weights of its keys add up to finitely many that are
not zero. -/
noncomputable def weights (m : FlatMap κ ℤ) : κ →₀ ℤ :=
  (m.entries.map fun e => Finsupp.single e.1 e.2).sum

theorem weights_apply (m : FlatMap κ ℤ) (k : κ) : m.weights k = (m.find? k).getD 0 := by
  obtain ⟨l, hs⟩ := m
  simp only [weights, find?]
  induction l with
  | nil => rfl
  | cons e l ih =>
      obtain ⟨he, hs⟩ := List.pairwise_cons.mp hs
      rw [List.map_cons, List.sum_cons, Finsupp.add_apply, ih hs, findL]
      split
      case isTrue hk =>
        have hnone : findL k l = none := findL_eq_none.mpr fun x hx h => by
          have hlt := he x hx
          rw [h, ← hk] at hlt
          exact lt_irrefl _ hlt
        rw [hnone, hk, Finsupp.single_eq_same]
        exact add_zero _
      case isFalse hk => rw [Finsupp.single_eq_of_ne (Ne.symm hk), zero_add]

theorem sum_weights (m : FlatMap κ ℤ) {f : κ → ℤ → ℤ} (hzero : ∀ k, f k 0 = 0)
    (hadd : ∀ k x y, f k (x + y) = f k x + f k y) : m.weights.sum f = m.sum f := by
  obtain ⟨l, hs⟩ := m
  simp only [weights, sum]
  induction l with
  | nil => exact Finsupp.sum_zero_index
  | cons e l ih =>
      rw [List.map_cons, List.sum_cons, Finsupp.sum_add_index' hzero hadd,
        Finsupp.sum_single_index (hzero _), ih (List.pairwise_cons.mp hs).2]
      rfl

theorem weights_update {m : FlatMap κ ℤ} {k : κ} {v v' : ℤ} (h : m.find? k = some v) :
    (m.update k fun _ => v').weights = m.weights + Finsupp.single k (v' - v) := by
  refine Finsupp.ext fun x => ?_
  rw [Finsupp.add_apply, weights_apply, weights_apply, find?_update]
  split
  case isTrue hx =>
    subst hx
    rw [h, Finsupp.single_eq_same]
    show v' = v + (v' - v)
    omega
  case isFalse hx => rw [Finsupp.single_eq_of_ne hx, add_zero]

/-- A new entry of weight zero does not change the weights of a map. -/
theorem weights_set_zero {m : FlatMap κ ℤ} {k : κ} (h : m.find? k = none) :
    (m.set k 0).weights = m.weights := by
  refine Finsupp.ext fun x => ?_
  rw [weights_apply, weights_apply, find?_set]
  split
  case isTrue hx => rw [hx, h]; rfl
  case isFalse => rfl

end FlatMap

/-! ## Ballots -/

/-- Who has voted for whom, with the tallies and how many votes every voter has cast. -/
structure Ballot (ι κ : Type) where
  /-- A ballot: the tally of every candidate, the votes that were cast, by their numbers, and how
  many votes each voter is noted to have cast. -/
  votes : κ → Option ℤ
  cast : FlatMap Nat (ι × κ)
  held : ι → Option ℕ

/-- Giving the function a value at one place takes no value away at another. -/
theorem isSome_update {α β : Type} [DecidableEq α] {f : α → Option β} {x : α}
    (h : (f x).isSome) (y : α) (v : β) : (Function.update f y (some v) x).isSome := by
  by_cases hxy : x = y
  · rw [hxy, Function.update_self]
    rfl
  · rw [Function.update_of_ne hxy]
    exact h

namespace Ballot

variable {ι κ : Type} [DecidableEq ι] [DecidableEq κ] {b : Ballot ι κ} {up : ι → Option ι}
  {weight : ι → ℤ} {limit : ℕ} {a : ι} {c : κ} {k : Nat} {n : ℤ} {m : ℕ}

/-- The weight of the voters of candidate `c`, counted again from the votes that were cast. -/
def recount (b : Ballot ι κ) (weight : ι → ℤ) (c : κ) : ℤ :=
  b.cast.sum fun _ v => if v.2 = c then weight v.1 else 0

/-- How many of the votes on the ballot were cast by voter `a`. -/
def castBy (b : Ballot ι κ) (a : ι) : ℤ := b.cast.sum fun _ v => if v.1 = a then 1 else 0

/-- Every candidate that `a` has voted for gains `d`, which may be negative when the voter loses
weight. -/
def gain (b : Ballot ι κ) (a : ι) (d : ℤ) : Ballot ι κ :=
  { b with votes := fun c => (b.votes c).map (· + b.cast.sum fun _ v => if v = (a, c) then d else 0) }

/-- The ballot without the votes of `a`, whatever the tallies say. -/
def clear (b : Ballot ι κ) (a : ι) : Ballot ι κ :=
  { b with
    cast := b.cast.filterVals (·.1 ≠ a)
    held := Function.update b.held a (some 0) }

/-- The tallies are what a recount gives, only those vote who have nobody above them, no vote is
cast twice, and every voter's number of votes is the one noted and within the limit. -/
structure Fits (b : Ballot ι κ) (limit : ℕ) (up : ι → Option ι) (weight : ι → ℤ) : Prop where
  tally : ∀ ⦃c n⦄, b.votes c = some n → n = b.recount weight c
  voters : ∀ ⦃k v⦄, b.cast.find? k = some v →
    up v.1 = none ∧ (b.votes v.2).isSome ∧ (b.held v.1).isSome
  once : ∀ ⦃j k v⦄, b.cast.find? j = some v → b.cast.find? k = some v → j = k
  counted : ∀ ⦃a m⦄, b.held a = some m → (m : ℤ) = b.castBy a ∧ m ≤ limit

/-- Only what the voters weigh, and that they are roots, matters. -/
theorem Fits.congr (h : b.Fits limit up weight) {up' : ι → Option ι} {weight' : ι → ℤ}
    (hv : ∀ k v, b.cast.find? k = some v → up' v.1 = none ∧ weight' v.1 = weight v.1) :
    b.Fits limit up' weight' where
  tally c n hn := by
    rw [h.tally hn]
    refine FlatMap.sum_congr fun k v hk => ?_
    rw [(hv k v hk).2]
  voters k v hk := ⟨(hv k v hk).1, (h.voters hk).2⟩
  once := h.once
  counted := h.counted

/-- Where the weight of one voter changes, its candidates follow. -/
theorem Fits.gain (h : b.Fits limit up weight) {d : ℤ} {weight' : ι → ℤ}
    (hw : ∀ x, up x = none → weight' x = weight x + if x = a then d else 0) :
    (b.gain a d).Fits limit up weight' where
  tally c n hn := by
    obtain ⟨n, hold, rfl⟩ := Option.map_eq_some_iff.mp hn
    have hsplit : (b.gain a d).recount weight' c =
        b.recount weight c + b.cast.sum fun _ v => if v = (a, c) then d else 0 := by
      rw [recount, recount, ← FlatMap.sum_add]
      refine FlatMap.sum_congr fun k v hk => ?_
      obtain ⟨x, y⟩ := v
      have hx : weight' x = weight x + if x = a then d else 0 := hw x (h.voters hk).1
      rw [hx]
      by_cases hy : y = c <;> by_cases hxa : x = a <;> simp [hy, hxa]
    rw [hsplit, ← h.tally hold]
  voters k v hk := by
    obtain ⟨hup, hvotes, hheld⟩ := h.voters hk
    exact ⟨hup, by rw [Ballot.gain, Option.isSome_map]; exact hvotes, hheld⟩
  once := h.once
  counted := h.counted

/-- A voter with votes left casts a new vote: the candidate's tally grows by the weight of the
voter, and the ballot fits again. -/
theorem Fits.vote (h : b.Fits limit up weight) (hup : up a = none) (hn : b.votes c = some n)
    (hm : b.held a = some m) (hlt : m < limit) (hk : b.cast.find? k = none)
    (hfree : ∀ j, b.cast.find? j ≠ some (a, c)) :
    Fits { votes := Function.update b.votes c (some (n + weight a))
           cast := b.cast.set k (a, c)
           held := Function.update b.held a (some (m + 1)) } limit up weight where
  tally c' n' hn' := by
    simp only at hn'
    simp only [recount, FlatMap.sum_set_new hk]
    by_cases hc : c' = c
    · subst hc
      rw [Function.update_self] at hn'
      obtain rfl := Option.some.inj hn'
      rw [if_pos rfl, h.tally hn]
      rfl
    · rw [Function.update_of_ne hc] at hn'
      rw [if_neg (Ne.symm hc), add_zero, h.tally hn']
      rfl
  voters j v hj := by
    simp only at hj
    rw [FlatMap.find?_set] at hj
    split at hj
    · obtain rfl := Option.some.inj hj
      exact ⟨hup, isSome_update (by rw [hn]; rfl) _ _, isSome_update (by rw [hm]; rfl) _ _⟩
    · obtain ⟨h1, h2, h3⟩ := h.voters hj
      exact ⟨h1, isSome_update h2 _ _, isSome_update h3 _ _⟩
  once i j v hi hj := by
    simp only [FlatMap.find?_set] at hi hj
    split at hi <;> split at hj
    case isTrue.isTrue hi' hj' => exact hi'.trans hj'.symm
    case isTrue.isFalse => exact absurd (Option.some.inj hi ▸ hj) (hfree j)
    case isFalse.isTrue => exact absurd (Option.some.inj hj ▸ hi) (hfree i)
    case isFalse.isFalse => exact h.once hi hj
  counted x l hl := by
    simp only at hl
    simp only [castBy, FlatMap.sum_set_new hk]
    by_cases hx : x = a
    · subst hx
      rw [Function.update_self] at hl
      obtain rfl := Option.some.inj hl
      rw [if_pos rfl, Nat.cast_add, (h.counted hm).1]
      exact ⟨rfl, hlt⟩
    · rw [Function.update_of_ne hx] at hl
      rw [if_neg (Ne.symm hx), add_zero]
      exact h.counted hl

/-- A vote is taken back: the voter had at least one noted, the tally loses the voter's weight, and
the ballot fits again. -/
theorem Fits.unvote (h : b.Fits limit up weight) (hk : b.cast.find? k = some (a, c))
    (hn : b.votes c = some n) (hm : b.held a = some m) :
    1 ≤ m ∧ Fits { votes := Function.update b.votes c (some (n - weight a))
                   cast := b.cast.erase k
                   held := Function.update b.held a (some (m - 1)) } limit up weight := by
  -- the vote that is withdrawn is counted, so there is one to take away
  have hpos : 1 ≤ m := by
    have hle : (1 : ℤ) ≤ b.castBy a := by
      have := FlatMap.le_sum (w := fun _ v => if v.1 = a then 1 else 0)
        (fun j v _ => by split <;> decide) hk
      rwa [if_pos rfl] at this
    have := (h.counted hm).1
    omega
  refine ⟨hpos, ?_, ?_, ?_, ?_⟩
  · intro c' n' hn'
    simp only at hn'
    simp only [recount, FlatMap.sum_erase hk]
    by_cases hc : c' = c
    · subst hc
      rw [Function.update_self] at hn'
      obtain rfl := Option.some.inj hn'
      rw [if_pos rfl, h.tally hn]
      rfl
    · rw [Function.update_of_ne hc] at hn'
      rw [if_neg (Ne.symm hc), sub_zero, h.tally hn']
      rfl
  · intro j v hj
    simp only [FlatMap.find?_erase] at hj
    split at hj
    · cases hj
    · obtain ⟨h1, h2, h3⟩ := h.voters hj
      exact ⟨h1, isSome_update h2 _ _, isSome_update h3 _ _⟩
  · intro i j v hi hj
    simp only [FlatMap.find?_erase] at hi hj
    split at hi
    · cases hi
    · split at hj
      · cases hj
      · exact h.once hi hj
  · intro x l hl
    simp only at hl
    simp only [castBy, FlatMap.sum_erase hk]
    by_cases hx : x = a
    · subst hx
      rw [Function.update_self] at hl
      obtain rfl := Option.some.inj hl
      obtain ⟨hcount, hlim⟩ := h.counted hm
      rw [castBy] at hcount
      rw [if_pos rfl]
      omega
    · rw [Function.update_of_ne hx] at hl
      rw [if_neg (Ne.symm hx), sub_zero]
      exact h.counted hl

/-- Dropping all votes of someone who weighs nothing changes no tally, and afterwards no vote is
left that this voter has cast. -/
theorem Fits.clear (h : b.Fits limit up weight) (ha : weight a = 0) :
    (b.clear a).Fits limit up weight ∧ ∀ k v, (b.clear a).cast.find? k = some v → v.1 ≠ a := by
  have hcast : ∀ k v, (b.clear a).cast.find? k = some v → b.cast.find? k = some v ∧ v.1 ≠ a := by
    intro k v hk
    rw [Ballot.clear, FlatMap.find?_filterVals] at hk
    obtain ⟨hk, hv⟩ := Option.filter_eq_some_iff.mp hk
    exact ⟨hk, of_decide_eq_true hv⟩
  refine ⟨⟨?_, ?_, ?_, ?_⟩, fun k v hk => (hcast k v hk).2⟩
  · intro c n hn
    rw [h.tally hn, recount, recount, Ballot.clear, FlatMap.sum_filterVals]
    refine FlatMap.sum_congr fun k v _ => ?_
    by_cases hv : v.1 = a
    · simp [hv, ha]
    · simp [hv]
  · intro k v hk
    obtain ⟨hk, hv⟩ := hcast k v hk
    obtain ⟨h1, h2, h3⟩ := h.voters hk
    exact ⟨h1, h2, isSome_update h3 _ _⟩
  · exact fun i j v hi hj => h.once (hcast i v hi).1 (hcast j v hj).1
  · intro x l hl
    simp only [Ballot.clear] at hl
    simp only [castBy, Ballot.clear, FlatMap.sum_filterVals]
    by_cases hx : x = a
    · subst hx
      rw [Function.update_self] at hl
      obtain rfl := Option.some.inj hl
      refine ⟨(FlatMap.sum_eq_zero fun k v _ => ?_).symm, Nat.zero_le _⟩
      by_cases hv : v.1 = x <;> simp [hv]
    · rw [Function.update_of_ne hx] at hl
      obtain ⟨hcount, hlim⟩ := h.counted hl
      refine ⟨hcount.trans (FlatMap.sum_congr fun k v _ => ?_), hlim⟩
      by_cases hv : v.1 = a
      · simp [hv, Ne.symm hx]
      · simp [hv]

/-- A new candidate starts with a tally of zero, since nobody can have voted for it before. -/
theorem Fits.stand (h : b.Fits limit up weight) (hc : b.votes c = none) :
    Fits { b with votes := Function.update b.votes c (some 0) } limit up weight where
  tally c' n hn := by
    simp only at hn
    by_cases hc' : c' = c
    · subst hc'
      rw [Function.update_self] at hn
      obtain rfl := Option.some.inj hn
      refine (FlatMap.sum_eq_zero fun k v hk => if_neg fun hv => ?_).symm
      have hsome := (h.voters hk).2.1
      rw [hv, hc] at hsome
      cases hsome
    · rw [Function.update_of_ne hc'] at hn
      exact h.tally hn
  voters k v hk := by
    obtain ⟨h1, h2, h3⟩ := h.voters hk
    exact ⟨h1, isSome_update h2 _ _, h3⟩
  once := h.once
  counted := h.counted

/-- A new voter has cast no vote, and none is noted for it. -/
theorem Fits.register (h : b.Fits limit up weight) (ha : b.held a = none) :
    Fits { b with held := Function.update b.held a (some 0) } limit up weight where
  tally := h.tally
  voters k v hk := by
    obtain ⟨h1, h2, h3⟩ := h.voters hk
    exact ⟨h1, h2, isSome_update h3 _ _⟩
  once := h.once
  counted x l hl := by
    simp only at hl
    by_cases hx : x = a
    · subst hx
      rw [Function.update_self] at hl
      obtain rfl := Option.some.inj hl
      refine ⟨(FlatMap.sum_eq_zero fun k v hk => if_neg fun hv => ?_).symm, Nat.zero_le _⟩
      have hsome := (h.voters hk).2.2
      rw [hv, ha] at hsome
      cases hsome
    · rw [Function.update_of_ne hx] at hl
      exact h.counted hl

/-- The voters who have cast a vote for candidate `c`, as a set. -/
def votersOf (b : Ballot ι κ) (c : κ) : Finset ι :=
  ((b.cast.entries.filter fun e => e.2.2 = c).map fun e => e.2.1).toFinset

theorem mem_votersOf : a ∈ b.votersOf c ↔ ∃ k, b.cast.find? k = some (a, c) := by
  simp only [votersOf, List.mem_toFinset, List.mem_map, List.mem_filter, decide_eq_true_eq]
  constructor
  · rintro ⟨⟨k, x, y⟩, ⟨hmem, rfl⟩, rfl⟩
    exact ⟨k, FlatMap.mem_entries_iff.mp hmem⟩
  · rintro ⟨k, hk⟩
    exact ⟨(k, a, c), ⟨FlatMap.mem_entries_iff.mpr hk, rfl⟩, rfl⟩

/-- Nobody counts twice for a candidate: a recount adds up the weights of the different voters,
whatever weights it is made with. -/
theorem Fits.recount_eq (h : b.Fits limit up weight) (weight' : ι → ℤ) (c : κ) :
    b.recount weight' c = ∑ r ∈ b.votersOf c, weight' r := by
  have hnodup : ((b.cast.entries.filter fun e => e.2.2 = c).map fun e => e.2.1).Nodup := by
    refine List.Nodup.map_on ?_ ((FlatMap.nodup_keys b.cast).of_map.filter _)
    rintro ⟨j, x, y⟩ hx ⟨k, x', y'⟩ hx' heq
    have hk := FlatMap.mem_entries_iff.mp (List.mem_filter.mp hx).1
    have hk' := FlatMap.mem_entries_iff.mp (List.mem_filter.mp hx').1
    have hy : y = c := of_decide_eq_true (List.mem_filter.mp hx).2
    have hy' : y' = c := of_decide_eq_true (List.mem_filter.mp hx').2
    obtain rfl : x = x' := heq
    rw [hy] at hk ⊢
    rw [hy'] at hk' ⊢
    rw [h.once hk hk']
  rw [votersOf, List.sum_toFinset _ hnodup, recount, FlatMap.sum]
  clear hnodup
  induction b.cast.entries with
  | nil => rfl
  | cons e l ih =>
      rw [List.map_cons, List.sum_cons, ih, List.filter_cons]
      by_cases he : e.2.2 = c <;> simp [he]

end Ballot

end BtcmChain
