import Mathlib.Algebra.GroupWithZero.Nat
import Mathlib.Data.List.Basic
import Mathlib.Order.Nat

set_option autoImplicit false

/-!
# Threshold schemes

A scheme weighs keys and members and asks that those who agree reach a threshold. A member
agrees because it is granted from outside, or because a scheme of its own is satisfied in turn;
`Derives n` says so of a tree of such reasons of height at most `n`. Schemes may refer to each
other in circles: a derivation is finite all the same.
-/

namespace BtcmChain.Threshold

variable {κ ι : Type}

/-- What has to be reached, and what keys and members weigh. -/
structure Scheme (κ ι : Type) where
  threshold : ℕ
  keys : List (κ × ℕ)
  members : List (ι × ℕ)

/-- The sum of the weights of a list of weighted members. -/
def weight {α : Type} (l : List (α × ℕ)) : ℕ := (l.map Prod.snd).sum

@[simp] theorem weight_nil {α : Type} : weight ([] : List (α × ℕ)) = 0 := rfl

@[simp] theorem weight_cons {α : Type} (a : α × ℕ) (l : List (α × ℕ)) :
    weight (a :: l) = a.2 + weight l := by simp [weight]

/-- Some keys that meet `p` and members that meet `q` reach the threshold together. -/
def Scheme.Reached (t : Scheme κ ι) (p : κ → Prop) (q : ι → Prop) : Prop :=
  ∃ (ks : List (κ × ℕ)) (ms : List (ι × ℕ)), ks.Sublist t.keys ∧ ms.Sublist t.members ∧
    (∀ k ∈ ks, p k.1) ∧ (∀ m ∈ ms, q m.1) ∧ t.threshold ≤ weight ks + weight ms

theorem Scheme.Reached.mono_members {t : Scheme κ ι} {p p' : κ → Prop} {q q' : ι → Prop}
    (h : t.Reached p q) (hp : ∀ k, p k → p' k) (hq : ∀ m ∈ t.members, q m.1 → q' m.1) :
    t.Reached p' q' := by
  obtain ⟨ks, ms, hks, hms, hkp, hmq, hw⟩ := h
  refine ⟨ks, ms, hks, hms, fun k hk => hp _ (hkp k hk), fun m hm => ?_, hw⟩
  exact hq m (hms.subset hm) (hmq m hm)

theorem Scheme.Reached.mono {t : Scheme κ ι} {p p' : κ → Prop} {q q' : ι → Prop}
    (h : t.Reached p q) (hp : ∀ k, p k → p' k) (hq : ∀ i, q i → q' i) : t.Reached p' q' :=
  h.mono_members hp fun m _ => hq m.1

variable (held : κ → Prop) (granted : ι → Prop) (scheme : ι → Option (Scheme κ ι))

/-- A derivation of height at most `n`: the scheme is reached by the keys held and by members whose
own schemes have lower derivations. -/
def Derives : ℕ → Scheme κ ι → Prop
  | 0, t => t.Reached held granted
  | n + 1, t => t.Reached held fun i => granted i ∨ ∃ u, scheme i = some u ∧ Derives n u

/-- The scheme has a derivation of some height, however high it is. -/
def Derivable (t : Scheme κ ι) : Prop := ∃ n, Derives held granted scheme n t

/-- A member that is granted, or whose scheme is derivable. -/
def Vouched (i : ι) : Prop := granted i ∨ ∃ u, scheme i = some u ∧ Derivable held granted scheme u

/-- The schemes that those at the root lead to, from one scheme to those of its members. -/
inductive Leads (roots : Scheme κ ι → Prop) : Scheme κ ι → Prop
  | root {t : Scheme κ ι} : roots t → Leads roots t
  | member {t u : Scheme κ ι} {m : ι × ℕ} : Leads roots t → m ∈ t.members → scheme m.1 = some u →
      Leads roots u

/-- No chain of members that have schemes of their own is longer than this number. -/
def Shallow : ℕ → Scheme κ ι → Prop
  | 0, t => ∀ m ∈ t.members, scheme m.1 = none
  | n + 1, t => ∀ m ∈ t.members, ∀ u, scheme m.1 = some u → Shallow n u

variable {held granted scheme} {held' : κ → Prop} {granted' : ι → Prop} {t : Scheme κ ι} {n k : ℕ}

/-- More keys and more grants do no harm to a derivation. -/
theorem Derives.mono (h : Derives held granted scheme n t) (hk : ∀ x, held x → held' x)
    (hg : ∀ i, granted i → granted' i) : Derives held' granted' scheme n t := by
  induction n generalizing t with
  | zero => exact Scheme.Reached.mono h hk hg
  | succ n ih =>
      refine Scheme.Reached.mono h hk fun i hi => ?_
      rcases hi with hi | ⟨u, hu, hd⟩
      · exact Or.inl (hg i hi)
      · exact Or.inr ⟨u, hu, ih hd⟩

theorem Derives.succ (h : Derives held granted scheme n t) :
    Derives held granted scheme (n + 1) t := by
  induction n generalizing t with
  | zero => exact Scheme.Reached.mono h (fun _ hx => hx) fun _ hi => Or.inl hi
  | succ n ih =>
      refine Scheme.Reached.mono h (fun _ hx => hx) fun i hi => ?_
      rcases hi with hi | ⟨u, hu, hd⟩
      · exact Or.inl hi
      · exact Or.inr ⟨u, hu, ih hd⟩

theorem Derives.le (h : Derives held granted scheme n t) (hnk : n ≤ k) :
    Derives held granted scheme k t := by
  induction hnk with
  | refl => exact h
  | step _ ih => exact ih.succ

/-- A derivation is no higher than the chains of members are long. -/
theorem Derives.of_shallow (ht : Shallow scheme n t) (h : Derives held granted scheme k t) :
    Derives held granted scheme n t := by
  induction n generalizing t k with
  | zero =>
      cases k with
      | zero => exact h
      | succ k =>
          refine Scheme.Reached.mono_members h (fun _ hx => hx) fun m hm hi => ?_
          rcases hi with hi | ⟨u, hu, -⟩
          · exact hi
          · rw [ht m hm] at hu
            cases hu
  | succ n ih =>
      cases k with
      | zero => exact h.le (Nat.zero_le _)
      | succ k =>
          refine Scheme.Reached.mono_members h (fun _ hx => hx) fun m hm hi => ?_
          rcases hi with hi | ⟨u, hu, hd⟩
          · exact Or.inl hi
          · exact Or.inr ⟨u, hu, ih (ht m hm u hu) hd⟩

/-- Finitely many members that are vouched for have derivations of one bounded height. -/
theorem exists_height {ms : List (ι × ℕ)} (h : ∀ m ∈ ms, Vouched held granted scheme m.1) :
    ∃ n, ∀ m ∈ ms, granted m.1 ∨ ∃ u, scheme m.1 = some u ∧ Derives held granted scheme n u := by
  induction ms with
  | nil => exact ⟨0, fun m hm => absurd hm List.not_mem_nil⟩
  | cons m ms ih =>
      obtain ⟨n, hn⟩ := ih fun x hx => h x (List.mem_cons_of_mem m hx)
      rcases h m List.mem_cons_self with hm | ⟨u, hu, k, hk⟩
      · refine ⟨n, fun x hx => ?_⟩
        rcases List.mem_cons.mp hx with rfl | hx
        · exact Or.inl hm
        · exact hn x hx
      · refine ⟨max n k, fun x hx => ?_⟩
        rcases List.mem_cons.mp hx with rfl | hx
        · exact Or.inr ⟨u, hu, hk.le (le_max_right n k)⟩
        · rcases hn x hx with hx | ⟨v, hv, hd⟩
          · exact Or.inl hx
          · exact Or.inr ⟨v, hv, hd.le (le_max_left n k)⟩

/-- Keys that are held and members that are vouched for make a derivation. -/
theorem Scheme.Reached.derivable (h : t.Reached held (Vouched held granted scheme)) :
    Derivable held granted scheme t := by
  obtain ⟨ks, ms, hks, hms, hkp, hmq, hw⟩ := h
  obtain ⟨n, hn⟩ := exists_height hmq
  exact ⟨n + 1, ks, ms, hks, hms, hkp, hn, hw⟩

theorem Derivable.mono (h : Derivable held granted scheme t) (hk : ∀ x, held x → held' x)
    (hg : ∀ i, granted i → granted' i) : Derivable held' granted' scheme t := by
  obtain ⟨n, hn⟩ := h
  exact ⟨n, hn.mono hk hg⟩

theorem Vouched.mono {i : ι} (h : Vouched held granted scheme i) (hk : ∀ x, held x → held' x)
    (hg : ∀ i, granted i → granted' i) : Vouched held' granted' scheme i := by
  rcases h with h | ⟨u, hu, hd⟩
  · exact Or.inl (hg i h)
  · exact Or.inr ⟨u, hu, hd.mono hk hg⟩

end BtcmChain.Threshold
