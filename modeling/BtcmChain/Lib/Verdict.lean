import BtcmChain.Lib.Threshold

set_option autoImplicit false

/-!
# What is decided, and which keys that depends on

Whoever decides a threshold scheme counts its keys, and then its members, until the threshold is
reached, and looks at no key behind that. What a member adds is taken from a `Reading`, which gives
one `Verdict` for every member: whether it agrees, and which keys are made use of to find that out.
So a scheme is read off one level at a time, and a reading that agrees with itself wherever it is
consulted says what a walk over all the levels comes to.

Derivability is such a reading (`vouching`). There, with fewer keys held, a count takes longer: a key
that is looked at while others are held is also looked at without them. Verdicts for which this
holds are `Steadfast`, and they combine the way checks do, one after the other.
-/

namespace BtcmChain

/-- What is decided, and which keys are made use of for that. -/
@[ext]
structure Verdict (κ : Type) where
  holds : Prop
  consults : κ → Prop

end BtcmChain

namespace BtcmChain.Threshold

/-! ## Counting up to a threshold -/

section Count

variable {α : Type} (accepts : α → Prop) (threshold : ℕ)

/-- What a count looks at. It starts with some weight, adds what it accepts and stops as soon as
that reaches the threshold. -/
def Visits : ℕ → List (α × ℕ) → α → Prop
  | _, [], _ => False
  | w, a :: l, x => x = a.1 ∨ (accepts a.1 ∧ w + a.2 < threshold ∧ Visits (w + a.2) l x) ∨
      (¬ accepts a.1 ∧ Visits w l x)

/-- The count comes to the end of the list, with this weight. -/
def Exhausts : ℕ → List (α × ℕ) → ℕ → Prop
  | w, [], w' => w' = w
  | w, a :: l, w' => (accepts a.1 ∧ w + a.2 < threshold ∧ Exhausts (w + a.2) l w') ∨
      (¬ accepts a.1 ∧ Exhausts w l w')

variable {accepts threshold} {accepts' : α → Prop} {l : List (α × ℕ)} {w w' v v' : ℕ} {x : α}

/-- A count that accepts fewer members, and starts from less, looks at more of the list. -/
theorem Visits.anti (h : Visits accepts' threshold w' l x) (hacc : ∀ a, accepts a → accepts' a)
    (hw : w ≤ w') : Visits accepts threshold w l x := by
  induction l generalizing w w' with
  | nil => exact h
  | cons a l ih =>
      rcases h with rfl | ⟨-, hlt, h⟩ | ⟨hnot, h⟩
      · exact Or.inl rfl
      · by_cases ha : accepts a.1
        · exact Or.inr (Or.inl ⟨ha, by omega, ih h (by omega)⟩)
        · exact Or.inr (Or.inr ⟨ha, ih h (by omega)⟩)
      · exact Or.inr (Or.inr ⟨fun ha => hnot (hacc _ ha), ih h hw⟩)

/-- A count that accepts fewer members comes to the end of the list too, and with less weight. -/
theorem Exhausts.anti (h : Exhausts accepts' threshold w' l v') (hacc : ∀ a, accepts a → accepts' a)
    (hw : w ≤ w') : ∃ v ≤ v', Exhausts accepts threshold w l v := by
  induction l generalizing w w' with
  | nil => exact ⟨w, by rw [h]; exact hw, rfl⟩
  | cons a l ih =>
      rcases h with ⟨-, hlt, h⟩ | ⟨hnot, h⟩
      · by_cases ha : accepts a.1
        · obtain ⟨v, hv, h'⟩ := ih h (w := w + a.2) (by omega)
          exact ⟨v, hv, Or.inl ⟨ha, by omega, h'⟩⟩
        · obtain ⟨v, hv, h'⟩ := ih h (w := w) (by omega)
          exact ⟨v, hv, Or.inr ⟨ha, h'⟩⟩
      · obtain ⟨v, hv, h'⟩ := ih h hw
        exact ⟨v, hv, Or.inr ⟨fun ha => hnot (hacc _ ha), h'⟩⟩

theorem Exhausts.unique (h : Exhausts accepts threshold w l v) (h' : Exhausts accepts threshold w l v') :
    v = v' := by
  induction l generalizing w with
  | nil => exact Eq.trans h (Eq.symm h')
  | cons a l ih =>
      rcases h with ⟨ha, -, h⟩ | ⟨hnot, h⟩
      · rcases h' with ⟨-, -, h'⟩ | ⟨hnot, -⟩
        · exact ih h h'
        · exact absurd ha hnot
      · rcases h' with ⟨ha, -, -⟩ | ⟨-, h'⟩
        · exact absurd ha hnot
        · exact ih h h'

/-- Nothing that is accepted weighs more than what the count has added when it comes to the end. -/
theorem Exhausts.weight_le {good : List (α × ℕ)} (h : Exhausts accepts threshold w l v)
    (hgood : good.Sublist l) (hacc : ∀ a ∈ good, accepts a.1) : w + weight good ≤ v := by
  induction hgood generalizing w with
  | slnil => exact le_of_eq (Eq.symm h)
  | @cons good l a hsub ih =>
      rcases h with ⟨-, -, h⟩ | ⟨-, h⟩
      · have hle := ih h hacc
        omega
      · exact ih h hacc
  | @cons_cons good l a hsub ih =>
      rcases h with ⟨-, -, h⟩ | ⟨hnot, -⟩
      · have hle := ih h fun x hx => hacc x (List.mem_cons_of_mem a hx)
        rw [weight_cons]
        omega
      · exact absurd (hacc a List.mem_cons_self) hnot

theorem Visits.mem (h : Visits accepts threshold w l x) : x ∈ l.map Prod.fst := by
  induction l generalizing w with
  | nil => exact absurd h id
  | cons a l ih =>
      rw [List.map_cons, List.mem_cons]
      rcases h with h | ⟨-, -, h⟩ | ⟨-, h⟩
      · exact Or.inl h
      · exact Or.inr (ih h)
      · exact Or.inr (ih h)

end Count

/-! ## Counting keys, then members -/

/-- What is known about members: one verdict for each of them. -/
abbrev Reading (κ ι : Type) := ι → Verdict κ

section Decide

variable {κ ι : Type} (held : κ → Prop) (r : Reading κ ι)

/-- The members that are looked at when a scheme is decided: none if its keys suffice, and none
behind the one with which the threshold is reached. -/
def Scheme.LooksAt (t : Scheme κ ι) (i : ι) : Prop :=
  ∃ w, Exhausts held t.threshold 0 t.keys w ∧ Visits (fun j => (r j).holds) t.threshold w t.members i

/-- Whether a scheme is satisfied, and the keys that are made use of to find that out: those that
are held and looked at, and those that the members make use of that are looked at. -/
def Scheme.verdict (t : Scheme κ ι) : Verdict κ where
  holds := t.Reached held fun i => (r i).holds
  consults k := (Visits held t.threshold 0 t.keys k ∧ held k) ∨ ∃ i, t.LooksAt held r i ∧ (r i).consults k

variable {held r} {t : Scheme κ ι} {k : κ}

theorem Scheme.LooksAt.mem {i : ι} (h : t.LooksAt held r i) : i ∈ t.members.map Prod.fst := by
  obtain ⟨w, -, h⟩ := h
  exact h.mem

end Decide

/-! ## Derivability as a reading -/

section Consult

variable {κ ι : Type} (held : κ → Prop) (granted : ι → Prop) (scheme : ι → Option (Scheme κ ι))

/-- The keys that are made use of when a scheme is decided by derivability: those that are held and
looked at, and where they do not suffice, those behind the members that are looked at. -/
inductive Consults : Scheme κ ι → κ → Prop
  | key {t : Scheme κ ι} {k : κ} : Visits held t.threshold 0 t.keys k → held k → Consults t k
  | member {t u : Scheme κ ι} {w : ℕ} {i : ι} {k : κ} : Exhausts held t.threshold 0 t.keys w →
      Visits (Vouched held granted scheme) t.threshold w t.members i → ¬ granted i →
      scheme i = some u → Consults u k → Consults t k

variable {held granted scheme} {held' : κ → Prop} {t : Scheme κ ι} {k : κ}

/-- The members of a derivable scheme that count are vouched for. -/
theorem Derivable.reached (h : Derivable held granted scheme t) :
    t.Reached held (Vouched held granted scheme) := by
  obtain ⟨n, h⟩ := h
  cases n with
  | zero => exact Scheme.Reached.mono h (fun _ hk => hk) fun _ hi => Or.inl hi
  | succ n =>
      refine Scheme.Reached.mono h (fun _ hk => hk) fun _ hi => ?_
      exact hi.imp_right fun hu => hu.imp fun u hu => ⟨hu.1, n, hu.2⟩

/-- A key that is consulted while others are held is consulted without them. -/
theorem Consults.anti (h : Consults held' granted scheme t k) (hheld : ∀ x, held x → held' x)
    (hk : held k) : Consults held granted scheme t k := by
  induction h with
  | key hvisit _ => exact .key (hvisit.anti hheld le_rfl) hk
  | member hend hvisit hgranted hu _ ih =>
      obtain ⟨v, hv, hend'⟩ := hend.anti hheld le_rfl
      exact .member hend' (hvisit.anti (fun i hi => hi.mono hheld fun _ hg => hg) hv) hgranted hu (ih hk)

end Consult

end BtcmChain.Threshold

namespace BtcmChain.Verdict

/-! ## Verdicts one after the other -/

variable {κ α : Type}

/-- The verdict that holds just when `c` does, and for which no key matters. -/
def always (c : Prop) : Verdict κ := ⟨c, fun _ => False⟩

/-- Two verdicts in turn: the second is asked, and its keys are consulted, unless the first holds.
-/
def or (v v' : Verdict κ) : Verdict κ where
  holds := v.holds ∨ v'.holds
  consults k := v.consults k ∨ ¬ v.holds ∧ v'.consults k

/-- Two verdicts that both have to hold; the keys of both are consulted. -/
def and (v v' : Verdict κ) : Verdict κ where
  holds := v.holds ∧ v'.holds
  consults k := v.consults k ∨ v'.consults k

/-- One verdict of a list has to hold, and they are asked in order until one does. -/
def anyOf : List (Verdict κ) → Verdict κ
  | [] => always False
  | v :: vs => v.or (anyOf vs)

/-- The verdicts of a whole family have to hold, and the keys of all of them are consulted. -/
def allOf (v : α → Verdict κ) : List α → Verdict κ
  | [] => always True
  | a :: l => (v a).and (allOf v l)

/-- The verdict holds, and none of the keys that satisfy `p` is superfluous for it. -/
def Exact (v : Verdict κ) (p : κ → Prop) : Prop := v.holds ∧ ∀ k, p k → v.consults k

/-! ## Verdicts that depend on which keys are held -/

/-- More keys do no harm to what holds, and fewer make none of them superfluous. -/
structure Steadfast (v : (κ → Prop) → Verdict κ) : Prop where
  mono : ∀ {p q : κ → Prop}, (∀ k, p k → q k) → (v p).holds → (v q).holds
  anti : ∀ {p q : κ → Prop} {k : κ}, (∀ k, p k → q k) → (v q).consults k → p k → (v p).consults k

variable {v v' : (κ → Prop) → Verdict κ}

theorem Steadfast.or (h : Steadfast v) (h' : Steadfast v') : Steadfast fun p => (v p).or (v' p) where
  mono hpq hv := hv.imp (h.mono hpq) (h'.mono hpq)
  anti hpq hv hk := hv.imp (h.anti hpq · hk) fun hv => ⟨fun hn => hv.1 (h.mono hpq hn), h'.anti hpq hv.2 hk⟩

theorem Steadfast.and (h : Steadfast v) (h' : Steadfast v') : Steadfast fun p => (v p).and (v' p) where
  mono hpq hv := hv.imp (h.mono hpq) (h'.mono hpq)
  anti hpq hv hk := hv.imp (h.anti hpq · hk) (h'.anti hpq · hk)

section Vouching

open Threshold

variable {ι : Type} {granted : ι → Prop} {scheme : ι → Option (Scheme κ ι)}

end Vouching

end BtcmChain.Verdict
