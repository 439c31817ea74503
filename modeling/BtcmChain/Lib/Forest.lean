import Mathlib.Algebra.BigOperators.Finsupp.Basic
import Mathlib.Algebra.BigOperators.Intervals
import Mathlib.Algebra.Order.BigOperators.Group.Finset
import Mathlib.Tactic.Ring

set_option autoImplicit false

/-!
# Weights along parent links

Nodes point to at most one parent (`up`), and carry a weight. `above up k a` is the node
`k` links above `a`, `below up w k x` the weight of all nodes exactly `k` links below `x`.
The lemmas say how the weights below a node change when a weight changes and when a node is
linked to another parent, and that different roots never count the same node twice.
-/

namespace BtcmChain

variable {ι : Type} {up : ι → Option ι} {a b r x y : ι} {j k m : ℕ}

/-- The node that is `k` links above `a`, as far as the links lead. -/
def above (up : ι → Option ι) : ℕ → ι → Option ι
  | 0, a => some a
  | k + 1, a => (up a).bind (above up k)

theorem above_succ_of_some (h : up a = some b) (k : ℕ) : above up (k + 1) a = above up k b := by
  rw [above, h, Option.bind_some]

theorem above_succ_of_none (h : up a = none) (k : ℕ) : above up (k + 1) a = none := by
  rw [above, h, Option.bind_none]

theorem above_add (j k : ℕ) (a : ι) : above up (j + k) a = (above up j a).bind (above up k) := by
  induction j generalizing a with
  | zero => rw [Nat.zero_add, above, Option.bind_some]
  | succ j ih =>
      rw [Nat.add_right_comm]
      cases h : up a with
      | none => rw [above_succ_of_none h, above_succ_of_none h, Option.bind_none]
      | some b => rw [above_succ_of_some h, above_succ_of_some h, ih]

/-- There is nothing above a root: the only node reached from it is the root itself, over no link.
-/
theorem above_root (h : up r = none) (hk : above up k r = some x) : k = 0 ∧ x = r := by
  cases k with
  | zero => exact ⟨rfl, (Option.some.inj hk).symm⟩
  | succ k =>
      rw [above_succ_of_none h] at hk
      cases hk

/-- A node has at most one root, at one distance. -/
theorem root_unique {r' : ι} (hr : up r = none) (hr' : up r' = none) (hj : above up j a = some r)
    (hk : above up k a = some r') : j = k ∧ r = r' := by
  rcases Nat.le_total j k with h | h
  · obtain ⟨d, rfl⟩ := Nat.exists_eq_add_of_le h
    rw [above_add, hj, Option.bind_some] at hk
    obtain ⟨rfl, rfl⟩ := above_root hr hk
    exact ⟨rfl, rfl⟩
  · obtain ⟨d, rfl⟩ := Nat.exists_eq_add_of_le h
    rw [above_add, hk, Option.bind_some] at hj
    obtain ⟨rfl, rfl⟩ := above_root hr' hj
    exact ⟨rfl, rfl⟩

/-- The root that is at most `n` links above `a`, and how many links are left. -/
def landing (up : ι → Option ι) : ℕ → ι → Option (ι × ℕ)
  | 0, a => (up a).elim (some (a, 0)) fun _ => none
  | n + 1, a => (up a).elim (some (a, n + 1)) (landing up n)

theorem landing_of_root (h : up a = none) (n : ℕ) : landing up n a = some (a, n) := by
  cases n <;> rw [landing, h, Option.elim_none]

theorem landing_zero_of_some (h : up a = some b) : landing up 0 a = none := by
  rw [landing, h, Option.elim_some]

theorem landing_succ_of_some (h : up a = some b) (n : ℕ) :
    landing up (n + 1) a = landing up n b := by
  rw [landing, h, Option.elim_some]

theorem above_of_landing {n : ℕ} (h : landing up n a = some (r, m)) :
    up r = none ∧ m ≤ n ∧ above up (n - m) a = some r := by
  induction n generalizing a with
  | zero =>
      cases hup : up a with
      | none =>
          rw [landing_of_root hup] at h
          cases h
          exact ⟨hup, le_refl 0, rfl⟩
      | some b =>
          rw [landing_zero_of_some hup] at h
          cases h
  | succ n ih =>
      cases hup : up a with
      | none =>
          rw [landing_of_root hup] at h
          cases h
          exact ⟨hup, le_refl _, by rw [Nat.sub_self, above]⟩
      | some b =>
          rw [landing_succ_of_some hup] at h
          obtain ⟨hr, hm, habove⟩ := ih h
          refine ⟨hr, Nat.le_succ_of_le hm, ?_⟩
          rw [Nat.succ_sub hm, above_succ_of_some hup, habove]

theorem landing_of_above {n : ℕ} (hr : up r = none) (hk : k ≤ n) (h : above up k a = some r) :
    landing up n a = some (r, n - k) := by
  induction k generalizing a n with
  | zero =>
      obtain rfl := Option.some.inj h
      exact landing_of_root hr n
  | succ k ih =>
      obtain ⟨n, rfl⟩ := Nat.exists_eq_add_of_lt hk
      cases hup : up a with
      | none =>
          rw [above_succ_of_none hup] at h
          cases h
      | some b =>
          rw [above_succ_of_some hup] at h
          rw [show k + n + 1 = (k + n) + 1 from rfl, landing_succ_of_some hup,
            ih (Nat.le_add_right k n) h]
          simp

/-- If no root is near, then there is someone at every distance. -/
theorem above_of_landing_none {n : ℕ} (h : landing up n a = none) :
    ∃ x, above up n a = some x ∧ up x ≠ none := by
  induction n generalizing a with
  | zero =>
      refine ⟨a, rfl, fun hup => ?_⟩
      rw [landing_of_root hup] at h
      cases h
  | succ n ih =>
      cases hup : up a with
      | none =>
          rw [landing_of_root hup] at h
          cases h
      | some b =>
          rw [landing_succ_of_some hup] at h
          obtain ⟨x, hx, hux⟩ := ih h
          exact ⟨x, by rw [above_succ_of_some hup, hx], hux⟩

/-- A sum over the distances at which a root may be. -/
theorem sum_above_root [DecidableEq ι] (hr : up r = none) (f : ℕ → ℤ) (n : ℕ) (a : ι) :
    ∑ k ∈ Finset.range (n + 1), (if above up k a = some r then f k else 0) =
      (landing up n a).elim 0 fun p => if p.1 = r then f (n - p.2) else 0 := by
  cases hl : landing up n a with
  | none =>
      refine Finset.sum_eq_zero fun k hk => if_neg fun h => ?_
      rw [landing_of_above hr (Nat.lt_succ_iff.mp (Finset.mem_range.mp hk)) h] at hl
      cases hl
  | some p =>
      obtain ⟨r', m⟩ := p
      obtain ⟨hr', hm, habove⟩ := above_of_landing hl
      have honly : ∀ k ∈ Finset.range (n + 1), k ≠ n - m →
          (if above up k a = some r then f k else 0) = 0 := by
        intro k _ hk
        exact if_neg fun h => hk (root_unique hr hr' h habove).1
      have hmem : n - m ∈ Finset.range (n + 1) := Finset.mem_range.mpr (by omega)
      rw [Finset.sum_eq_single_of_mem _ hmem honly, habove, Option.elim_some]
      exact if_congr (Option.some_inj) rfl rfl

/-- The links have no circle: no node is reached from itself over one link or more. -/
def Acyclic (up : ι → Option ι) : Prop := ∀ a k, above up (k + 1) a ≠ some a

section Relink

variable [DecidableEq ι]

/-- The links without that of `a`, which becomes a root; all other nodes keep theirs. -/
def unlink (up : ι → Option ι) (a : ι) : ι → Option ι := Function.update up a none

theorem unlink_self : unlink up a a = none := Function.update_self ..

theorem unlink_of_ne (h : x ≠ a) : unlink up a x = up x := Function.update_of_ne h ..

/-- Removing a link puts nothing above a node that was not above it before. -/
theorem above_of_unlink (h : above (unlink up a) k x = some y) : above up k x = some y := by
  induction k generalizing x with
  | zero => exact h
  | succ k ih =>
      by_cases hx : x = a
      · subst hx
        rw [above_succ_of_none unlink_self] at h
        cases h
      · cases hup : up x with
        | none =>
            rw [above_succ_of_none (by rw [unlink_of_ne hx, hup])] at h
            cases h
        | some z =>
            rw [above_succ_of_some (by rw [unlink_of_ne hx, hup])] at h
            rw [above_succ_of_some hup]
            exact ih h

/-- The way up from a node that never comes to `a` does not use its link. -/
theorem above_unlink_of_avoids (h : ∀ j, above (unlink up a) j x ≠ some a) (k : ℕ) :
    above up k x = above (unlink up a) k x := by
  induction k generalizing x with
  | zero => rfl
  | succ k ih =>
      have hx : x ≠ a := fun hx => h 0 (congrArg some hx)
      cases hup : up x with
      | none => rw [above_succ_of_none hup, above_succ_of_none (by rw [unlink_of_ne hx, hup])]
      | some z =>
          have hup' : unlink up a x = some z := by rw [unlink_of_ne hx, hup]
          rw [above_succ_of_some hup, above_succ_of_some hup']
          refine ih fun j => ?_
          have hj := h (j + 1)
          rwa [above_succ_of_some hup'] at hj

theorem Acyclic.unlink (h : Acyclic up) (a : ι) : Acyclic (unlink up a) :=
  fun x k hx => h x k (above_of_unlink hx)

/-- Linking a root below a node that is not under it makes no cycle. -/
theorem Acyclic.link (h : Acyclic (BtcmChain.unlink up a)) (hup : up a = some b)
    (hb : ∀ k, above (BtcmChain.unlink up a) k b ≠ some a) : Acyclic up := by
  intro x k hx
  by_cases havoid : ∀ j, above (BtcmChain.unlink up a) j x ≠ some a
  · rw [above_unlink_of_avoids havoid] at hx
    exact h x k hx
  -- the way from `x` comes to `a`, and from there over `b` back to `x`
  · obtain ⟨j, hj⟩ := not_forall_not.mp havoid
    have hbx : ∃ d, above up d b = some x := by
      rcases Nat.lt_or_ge k j with hjk | hjk
      · -- all the way round without the link
        exfalso
        obtain ⟨d, rfl⟩ := Nat.exists_eq_add_of_le (show k + 1 ≤ j from hjk)
        have hpath : above (BtcmChain.unlink up a) (k + 1) x = some x := by
          cases hmid : above (BtcmChain.unlink up a) (k + 1) x with
          | none =>
              rw [above_add, hmid, Option.bind_none] at hj
              cases hj
          | some z =>
              have hz := above_of_unlink hmid
              rw [hx] at hz
              exact hz.symm
        exact h x k hpath
      · obtain ⟨d, hd⟩ := Nat.exists_eq_add_of_le hjk
        refine ⟨d, ?_⟩
        rw [hd, Nat.add_assoc, above_add, above_of_unlink hj, Option.bind_some,
          above_succ_of_some hup] at hx
        exact hx
    obtain ⟨d, hd⟩ := hbx
    rw [above_unlink_of_avoids hb] at hd
    refine hb (d + j) ?_
    rw [above_add, hd, Option.bind_some, hj]

/-- Which ways up lead over the link of `a`: those that are there with the link and not without it,
sorted by where they meet it. -/
theorem indicator_relink (up : ι → Option ι) (a x y : ι) (k : ℕ) (n : ℤ) :
    (if above up k x = some y then n else 0) =
      (if above (unlink up a) k x = some y then n else 0) +
        ∑ j ∈ Finset.range k,
          if above (unlink up a) j x = some a ∧ above up (k - j) a = some y then n else 0 := by
  induction k generalizing x with
  | zero => rw [Finset.sum_range_zero, add_zero]; rfl
  | succ k ih =>
      rw [Finset.sum_range_succ']
      by_cases hx : x = a
      · subst hx
        have hzero : ∀ j ∈ Finset.range k, (if above (unlink up x) (j + 1) x = some x ∧
            above up (k + 1 - (j + 1)) x = some y then n else 0) = 0 := by
          intro j _
          rw [above_succ_of_none unlink_self, if_neg]
          rintro ⟨h, -⟩
          cases h
        rw [Finset.sum_eq_zero hzero, above_succ_of_none unlink_self,
          if_neg (show ¬(none : Option ι) = some y from nofun), zero_add, zero_add, Nat.sub_zero]
        exact if_congr (and_iff_right rfl).symm rfl rfl
      · have hfirst : ¬(above (unlink up a) 0 x = some a ∧ above up (k + 1 - 0) a = some y) :=
          fun h => hx (Option.some.inj h.1)
        rw [if_neg hfirst, add_zero]
        cases hup : up x with
        | none =>
            have hup' : unlink up a x = none := by rw [unlink_of_ne hx, hup]
            rw [above_succ_of_none hup, above_succ_of_none hup']
            have hzero : ∀ j ∈ Finset.range k, (if above (unlink up a) (j + 1) x = some a ∧
                above up (k + 1 - (j + 1)) a = some y then n else 0) = 0 := by
              intro j _
              rw [above_succ_of_none hup', if_neg]
              rintro ⟨h, -⟩
              cases h
            rw [Finset.sum_eq_zero hzero, add_zero]
        | some z =>
            have hup' : unlink up a x = some z := by rw [unlink_of_ne hx, hup]
            rw [above_succ_of_some hup, above_succ_of_some hup', ih]
            refine congrArg _ (Finset.sum_congr rfl fun j _ => ?_)
            rw [above_succ_of_some hup', Nat.add_sub_add_right]

end Relink

/-! ## Weights -/

section Weights

variable [DecidableEq ι] {w : ι →₀ ℤ}

/-- The weight of the nodes exactly `k` links below `x`. -/
noncomputable def below (up : ι → Option ι) (w : ι →₀ ℤ) (k : ℕ) (x : ι) : ℤ :=
  w.sum fun a n => if above up k a = some x then n else 0

theorem below_zero (up : ι → Option ι) (w : ι →₀ ℤ) (x : ι) : below up w 0 x = w x := by
  unfold below above
  rw [Finsupp.sum, Finset.sum_eq_single x]
  · exact if_pos rfl
  · intro a _ hne
    exact if_neg fun h => hne (Option.some.inj h)
  · intro hx
    rw [if_pos rfl]
    exact Finsupp.notMem_support_iff.mp hx

theorem below_add_single (up : ι → Option ι) (w : ι →₀ ℤ) (a : ι) (d : ℤ) (k : ℕ) (x : ι) :
    below up (w + Finsupp.single a d) k x =
      below up w k x + if above up k a = some x then d else 0 := by
  unfold below
  rw [Finsupp.sum_add_index', Finsupp.sum_single_index]
  · exact ite_self 0
  · exact fun _ => ite_self 0
  · intro _ m n
    split
    · rfl
    · exact (add_zero 0).symm

theorem below_nonneg (hw : ∀ a, 0 ≤ w a) (k : ℕ) (x : ι) : 0 ≤ below up w k x := by
  refine Finset.sum_nonneg fun a _ => ?_
  show 0 ≤ if above up k a = some x then w a else 0
  split
  · exact hw a
  · exact le_refl 0

/-- How the weights below a node depend on the link of `a`. -/
theorem below_relink (up : ι → Option ι) (w : ι →₀ ℤ) (a : ι) (k : ℕ) (x : ι) :
    below up w k x = below (unlink up a) w k x +
      ∑ j ∈ Finset.range k, if above up (k - j) a = some x then below (unlink up a) w j a else 0 := by
  unfold below
  rw [Finsupp.sum, Finset.sum_congr rfl fun b _ => indicator_relink up a b x k (w b),
    Finset.sum_add_distrib, Finset.sum_comm]
  refine congrArg _ (Finset.sum_congr rfl fun j _ => ?_)
  split
  case isTrue h => exact Finset.sum_congr rfl fun b _ => if_congr (and_iff_left h) rfl rfl
  case isFalse h => exact Finset.sum_eq_zero fun b _ => if_neg fun hb => h hb.2

/-- The same, by how far up from `a` the node is. -/
theorem below_succ_relink (up : ι → Option ι) (w : ι →₀ ℤ) (a : ι) (k : ℕ) (x : ι) :
    below up w (k + 1) x = below (unlink up a) w (k + 1) x +
      ∑ i ∈ Finset.range (k + 1),
        if above up (i + 1) a = some x then below (unlink up a) w (k - i) a else 0 := by
  rw [below_relink up w a, ← Finset.sum_range_reflect]
  refine congrArg _ (Finset.sum_congr rfl fun i hi => ?_)
  have hi := Finset.mem_range.mp hi
  rw [show k + 1 - (k + 1 - 1 - i) = i + 1 by omega, show k + 1 - 1 - i = k - i by omega]

/-- Without cycles, what is below `a` does not depend on its link. -/
theorem below_unlink_self (h : Acyclic up) (w : ι →₀ ℤ) (a : ι) (k : ℕ) :
    below (unlink up a) w k a = below up w k a := by
  rw [below_relink up w a k a, Finset.sum_eq_zero, add_zero]
  intro j hj
  refine if_neg fun hcycle => ?_
  obtain ⟨d, hd⟩ := Nat.exists_eq_add_of_lt (Finset.mem_range.mp hj)
  rw [show k - j = d + 1 by omega] at hcycle
  exact h a d hcycle

/-- The weight that reaches `x` over at most `m` links. -/
noncomputable def reach (up : ι → Option ι) (w : ι →₀ ℤ) (m : ℕ) (x : ι) : ℤ :=
  ∑ k ∈ Finset.range (m + 1), below up w k x

theorem reach_nonneg (hw : ∀ a, 0 ≤ w a) (m : ℕ) (x : ι) : 0 ≤ reach up w m x :=
  Finset.sum_nonneg fun k _ => below_nonneg hw k x

/-- A change of one weight is felt at the root it reaches. -/
theorem reach_add_single (hr : up r = none) (w : ι →₀ ℤ) (a : ι) (d : ℤ) (m : ℕ) :
    reach up (w + Finsupp.single a d) m r =
      reach up w m r + (landing up m a).elim 0 fun p => if p.1 = r then d else 0 := by
  unfold reach
  rw [Finset.sum_congr rfl fun k _ => below_add_single up w a d k r, Finset.sum_add_distrib,
    sum_above_root hr fun _ => d]

/-- The pairs below the diagonal may be sorted by their first number or by their difference; the sum
over them is the same. -/
theorem sum_below_diagonal (F : ℕ → ℕ → ℤ) (m : ℕ) :
    ∑ k ∈ Finset.range (m + 1), ∑ j ∈ Finset.range k, F (k - j) j =
      ∑ i ∈ Finset.range m, ∑ j ∈ Finset.range (m - i), F (i + 1) j := by
  induction m with
  | zero => rfl
  | succ m ih =>
      have hlast : ∑ j ∈ Finset.range (m + 1), F (m + 1 - j) j =
          ∑ i ∈ Finset.range (m + 1), F (i + 1) (m - i) := by
        rw [← Finset.sum_range_reflect]
        refine Finset.sum_congr rfl fun i hi => ?_
        have hi := Finset.mem_range.mp hi
        rw [show m + 1 - (m + 1 - 1 - i) = i + 1 by omega, show m + 1 - 1 - i = m - i by omega]
      have hgrow : ∀ i ∈ Finset.range (m + 1), ∑ j ∈ Finset.range (m + 1 - i), F (i + 1) j =
          ∑ j ∈ Finset.range (m - i), F (i + 1) j + F (i + 1) (m - i) := by
        intro i hi
        have hi := Finset.mem_range.mp hi
        rw [show m + 1 - i = m - i + 1 by omega, Finset.sum_range_succ]
      rw [Finset.sum_range_succ, ih, hlast, Finset.sum_congr rfl hgrow, Finset.sum_add_distrib,
        Finset.sum_range_succ (fun i => ∑ j ∈ Finset.range (m - i), F (i + 1) j) m, Nat.sub_self,
        Finset.sum_range_zero, add_zero]

/-- What the link of `a` brings to the root above it. -/
theorem reach_relink (hr : up r = none) (hup : up a = some b) (w : ι →₀ ℤ) (m : ℕ) :
    reach up w m r = reach (unlink up a) w m r +
      (landing up m a).elim 0 fun p => if p.1 = r then reach (unlink up a) w p.2 a else 0 := by
  have hsplit : reach up w m r = reach (unlink up a) w m r +
      ∑ k ∈ Finset.range (m + 1), ∑ j ∈ Finset.range k,
        if above up (k - j) a = some r then below (unlink up a) w j a else 0 := by
    unfold reach
    rw [← Finset.sum_add_distrib]
    exact Finset.sum_congr rfl fun k _ => below_relink up w a k r
  rw [hsplit, sum_below_diagonal fun i j =>
    if above up i a = some r then below (unlink up a) w j a else 0]
  refine congrArg _ ?_
  have hinner : ∀ i ∈ Finset.range m, (∑ j ∈ Finset.range (m - i),
      if above up (i + 1) a = some r then below (unlink up a) w j a else 0) =
      if above up i b = some r then ∑ j ∈ Finset.range (m - i), below (unlink up a) w j a else 0 := by
    intro i _
    rw [above_succ_of_some hup]
    split
    · rfl
    · exact Finset.sum_const_zero
  rw [Finset.sum_congr rfl hinner]
  cases m with
  | zero => rw [landing_zero_of_some hup]; rfl
  | succ m =>
      rw [sum_above_root hr (fun i => ∑ j ∈ Finset.range (m + 1 - i), below (unlink up a) w j a),
        landing_succ_of_some hup]
      cases hl : landing up m b with
      | none => rfl
      | some p =>
          obtain ⟨-, hp, -⟩ := above_of_landing (r := p.1) (m := p.2) hl
          rw [Option.elim_some, Option.elim_some, show m + 1 - (m - p.2) = p.2 + 1 by omega]
          rfl

/-- Together, roots count each node once, if it reaches one of them at all. -/
theorem sum_reach_eq (w : ι →₀ ℤ) (roots : Finset ι) (hroots : ∀ r ∈ roots, up r = none) (m : ℕ) :
    ∑ r ∈ roots, reach up w m r =
      w.sum fun a n => if (landing up m a).any (·.1 ∈ roots) then n else 0 := by
  have hterm : ∀ a ∈ w.support, (∑ r ∈ roots, ∑ k ∈ Finset.range (m + 1),
      if above up k a = some r then w a else 0) =
        if (landing up m a).any (·.1 ∈ roots) then w a else 0 := by
    intro a _
    rw [Finset.sum_congr rfl fun r hr => sum_above_root (hroots r hr) (fun _ => w a) m a]
    cases landing up m a with
    | none => exact Finset.sum_const_zero
    | some p => simp [Finset.sum_ite_eq]
  calc ∑ r ∈ roots, reach up w m r
      = ∑ a ∈ w.support, ∑ r ∈ roots, ∑ k ∈ Finset.range (m + 1),
          (if above up k a = some r then w a else 0) := by
        unfold reach below Finsupp.sum
        exact (Finset.sum_congr rfl fun r _ => Finset.sum_comm).trans Finset.sum_comm
    _ = _ := Finset.sum_congr rfl hterm

/-- Together, the roots reach no more weight than there is, since no node lies below two of them. -/
theorem sum_reach_le (hw : ∀ a, 0 ≤ w a) (roots : Finset ι) (hroots : ∀ r ∈ roots, up r = none)
    (m : ℕ) : ∑ r ∈ roots, reach up w m r ≤ w.sum fun _ n => n := by
  rw [sum_reach_eq w roots hroots]
  refine Finset.sum_le_sum fun a _ => ?_
  show (if (landing up m a).any (·.1 ∈ roots) then w a else 0) ≤ w a
  split
  · exact le_refl _
  · exact hw a

/-- Roots with all they reach, and the others with what is just out of reach of their root:
that is everybody. -/
theorem sum_reach_or_below (w : ι →₀ ℤ) (nodes : Finset ι) (m : ℕ)
    (hnodes : ∀ a ∈ w.support, ∀ k x, above up k a = some x → x ∈ nodes) :
    ∑ x ∈ nodes, (if up x = none then reach up w m x else below up w m x) =
      w.sum fun _ n => n := by
  have hterm : ∀ a ∈ w.support, (∑ x ∈ nodes, if up x = none then
      ∑ k ∈ Finset.range (m + 1), (if above up k a = some x then w a else 0)
      else if above up m a = some x then w a else 0) = w a := by
    intro a ha
    have hroot : ∀ x ∈ nodes, (if up x = none then
        ∑ k ∈ Finset.range (m + 1), (if above up k a = some x then w a else 0)
        else if above up m a = some x then w a else 0) =
        if up x = none then (landing up m a).elim 0 fun p => if p.1 = x then w a else 0
        else if above up m a = some x then w a else 0 := by
      intro x _
      split
      case isTrue hx => rw [sum_above_root hx fun _ => w a]
      case isFalse => rfl
    rw [Finset.sum_congr rfl hroot]
    cases hl : landing up m a with
    | none =>
        obtain ⟨y, hy, huy⟩ := above_of_landing_none hl
        rw [Finset.sum_eq_single_of_mem y (hnodes a ha m y hy), if_neg huy, if_pos hy]
        intro x _ hne
        split
        · rfl
        · exact if_neg fun hx => hne (Option.some.inj (hx.symm.trans hy))
    | some p =>
        obtain ⟨hr, hm, habove⟩ := above_of_landing (r := p.1) (m := p.2) hl
        rw [Finset.sum_eq_single_of_mem p.1 (hnodes a ha _ p.1 habove), if_pos hr,
          Option.elim_some, if_pos rfl]
        intro x _ hne
        split
        case isTrue => exact if_neg fun h => hne h.symm
        case isFalse hux =>
          -- past the root there is nobody
          refine if_neg fun hx => ?_
          rw [← Nat.sub_add_cancel hm, above_add, habove, Option.bind_some] at hx
          exact hux ((above_root hr hx).2 ▸ hr)
  calc ∑ x ∈ nodes, (if up x = none then reach up w m x else below up w m x)
      = ∑ a ∈ w.support, ∑ x ∈ nodes, (if up x = none then
          ∑ k ∈ Finset.range (m + 1), (if above up k a = some x then w a else 0)
          else if above up m a = some x then w a else 0) := by
        rw [Finset.sum_comm]
        refine Finset.sum_congr rfl fun x _ => ?_
        unfold reach below Finsupp.sum
        split
        · exact Finset.sum_comm
        · rfl
    _ = ∑ a ∈ w.support, w a := Finset.sum_congr rfl hterm

end Weights

end BtcmChain
