import Mathlib.Data.List.Basic

set_option autoImplicit false

/-!
# Effectful programs: state passing with exceptions

Programs are `StateT σ (Except ε) α`. `Runs m s a s'` says that `m` started in
`s` returns `a` and leaves the state `s'`; the `runs_*` equivalences below turn
the run of a compound program into a logical description of its parts, so that
`simp only [..., runs_*] at h` *inverts* a successful run into its guards, its
reads and the sub-runs it performed.

`Within D m` packages what is said most often about a program: the concerns of the
state that no run of it changes.

A failed run produces no state at all, which is how the roll-back of an aborted
operation is modelled: `attempt` resumes from the state before the failed part.
-/

namespace BtcmChain

variable {σ ε α β γ : Type}

/-- `m`, started in `s`, returns `a` and leaves the state `s'`; everything about programs is stated
with this relation. -/
def Runs (m : StateT σ (Except ε) α) (s : σ) (a : α) (s' : σ) : Prop :=
  m s = .ok (a, s')

/-- Read a function of the state, without changing anything and without failing. -/
def reads (f : σ → α) : StateT σ (Except ε) α := fun s => .ok (f s, s)

/-- Run `m` only if the condition `c` holds, and do nothing otherwise. -/
def whenM (c : Bool) (m : StateT σ (Except ε) Unit) : StateT σ (Except ε) Unit :=
  if c then m else pure ()

/-- Lift a computation that may only throw to one that also has a state, which it leaves alone. -/
def ofExcept (e : Except ε α) : StateT σ (Except ε) α := fun s => e.map fun a => (a, s)

/-- Run `m`; if it fails, resume from the state before it. The result tells
whether `m` succeeded. -/
def attempt (m : StateT σ (Except ε) Unit) : StateT σ (Except ε) Bool := fun s =>
  match m s with
  | .ok ((), s') => .ok (true, s')
  | .error _ => .ok (false, s)

/-- Repeat `body` on what `next` delivers until it delivers nothing, threading an
accumulator. The loop is given a number of rounds and fails with `stuck` should they
not suffice. -/
def drain (stuck : ε) (next : StateT σ (Except ε) (Option β))
    (body : γ → β → StateT σ (Except ε) γ) : Nat → γ → StateT σ (Except ε) γ
  | 0, acc => do
      let b ← next
      b.elim (pure acc) fun _ => throw stuck
  | n + 1, acc => do
      let b ← next
      b.elim (pure acc) fun b => do
        let acc' ← body acc b
        drain stuck next body n acc'

/-- Whether `m` succeeds from `s` and its final state satisfies `p`; decidable, so that
concrete runs can be evaluated. -/
def leadsTo (m : StateT σ (Except ε) Unit) (s : σ) (p : σ → Bool) : Bool :=
  match m s with
  | .ok ((), s') => p s'
  | .error _ => false

/-! ## Exception-only computations -/

theorem except_bind_ok {x : Except ε α} {f : α → Except ε β} {b : β} :
    (x >>= f) = .ok b ↔ ∃ a, x = .ok a ∧ f a = .ok b := by
  cases x <;> simp [bind, Except.bind]

theorem except_map_ok {x : Except ε α} {f : α → β} {b : β} :
    (f <$> x) = .ok b ↔ ∃ a, x = .ok a ∧ f a = b := by
  cases x <;> simp [Functor.map, Except.map]

theorem except_pure_ok {a b : α} : (pure a : Except ε α) = .ok b ↔ a = b := by
  simp [pure, Except.pure]

/-- A fold succeeds when every step does, from a state its invariant holds in after the
steps before. -/
theorem exists_foldlM_ok {f : σ → β → Except ε σ} {P : List β → σ → Prop} {l : List β} {s : σ}
    (hstart : P [] s)
    (hstep : ∀ done b rest t, l = done ++ b :: rest → P done t →
      ∃ t', f t b = .ok t' ∧ P (done ++ [b]) t') :
    ∃ t, l.foldlM f s = .ok t ∧ P l t := by
  have hfrom : ∀ rest done t, l = done ++ rest → P done t →
      ∃ t', rest.foldlM f t = .ok t' ∧ P l t' := by
    intro rest
    induction rest with
    | nil =>
        intro done t hl hP
        rw [List.append_nil] at hl
        exact ⟨t, rfl, hl ▸ hP⟩
    | cons b rest ih =>
        intro done t hl hP
        obtain ⟨u, hu, hP'⟩ := hstep done b rest t hl hP
        obtain ⟨v, hv, hP''⟩ := ih (done ++ [b]) u (by simpa using hl) hP'
        refine ⟨v, ?_, hP''⟩
        rw [List.foldlM_cons, except_bind_ok]
        exact ⟨u, hu, hv⟩
  exact hfrom l [] s rfl hstart

/-- What every step of a fold that succeeds keeps true holds at its end. -/
theorem foldlM_ok_induction {f : σ → β → Except ε σ} {P : List β → σ → Prop} {l : List β} {s t : σ}
    (h : l.foldlM f s = .ok t) (hstart : P [] s)
    (hstep : ∀ done b rest u v, l = done ++ b :: rest → P done u → f u b = .ok v →
      P (done ++ [b]) v) : P l t := by
  have hfrom : ∀ rest done u, l = done ++ rest → P done u → rest.foldlM f u = .ok t → P l t := by
    intro rest
    induction rest with
    | nil =>
        intro done u hl hP hr
        rw [List.append_nil] at hl
        obtain rfl := except_pure_ok.mp hr
        exact hl ▸ hP
    | cons b rest ih =>
        intro done u hl hP hr
        rw [List.foldlM_cons, except_bind_ok] at hr
        obtain ⟨v, hv, hr⟩ := hr
        exact ih (done ++ [b]) v (by simpa using hl) (hstep done b rest u v hl hP hv) hr
  exact hfrom l [] s rfl hstart h

/-- A traversal that succeeds gives a result for every element. -/
theorem mapM_ok {f : α → Except ε β} {l : List α} {l' : List β} (h : l.mapM f = .ok l') :
    List.Forall₂ (fun a b => f a = .ok b) l l' := by
  induction l generalizing l' with
  | nil =>
      rw [List.mapM_nil, except_pure_ok] at h
      subst h
      exact .nil
  | cons a l ih =>
      simp only [List.mapM_cons, except_bind_ok, except_pure_ok] at h
      obtain ⟨b, hb, m, hm, rfl⟩ := h
      exact .cons hb (ih hm)

/-! ## Inversion of runs -/

@[simp] theorem runs_pure {s s' : σ} {a b : α} :
    Runs (pure a : StateT σ (Except ε) α) s b s' ↔ b = a ∧ s' = s := by
  change Except.ok (a, s) = Except.ok (b, s') ↔ _
  rw [Except.ok.injEq, Prod.mk.injEq]
  exact and_congr eq_comm eq_comm

@[simp] theorem runs_throw {s s' : σ} {a : α} {e : ε} :
    ¬ Runs (throw e : StateT σ (Except ε) α) s a s' := by
  intro h; cases h

@[simp] theorem runs_bind {m : StateT σ (Except ε) α} {f : α → StateT σ (Except ε) β}
    {s s'' : σ} {b : β} :
    Runs (m >>= f) s b s'' ↔ ∃ a s', Runs m s a s' ∧ Runs (f a) s' b s'' := by
  simp only [Runs, bind, StateT.bind, Except.bind]
  cases m s with
  | error e => simp
  | ok r => obtain ⟨a, t⟩ := r; simp

@[simp] theorem runs_map {m : StateT σ (Except ε) α} {f : α → β} {s s' : σ} {b : β} :
    Runs (f <$> m) s b s' ↔ ∃ a, Runs m s a s' ∧ b = f a := by
  simp only [Runs, Functor.map, StateT.map, bind, Except.bind, pure, Except.pure]
  cases m s with
  | error e => simp
  | ok r => obtain ⟨a, t⟩ := r; simp; grind

@[simp] theorem runs_get {s s' t : σ} :
    Runs (get : StateT σ (Except ε) σ) s t s' ↔ t = s ∧ s' = s := runs_pure

@[simp] theorem runs_reads {f : σ → α} {s s' : σ} {a : α} :
    Runs (reads f : StateT σ (Except ε) α) s a s' ↔ a = f s ∧ s' = s := by
  simp only [Runs, reads, Except.ok.injEq, Prod.mk.injEq]
  exact ⟨fun h => ⟨h.1.symm, h.2.symm⟩, fun h => ⟨h.1.symm, h.2.symm⟩⟩

@[simp] theorem runs_set {s s' t : σ} {u : PUnit} :
    Runs (set t : StateT σ (Except ε) PUnit) s u s' ↔ s' = t := by
  change Except.ok (PUnit.unit, t) = Except.ok (u, s') ↔ _
  rw [Except.ok.injEq, Prod.mk.injEq, eq_comm (a := t)]
  exact and_iff_right rfl

@[simp] theorem runs_modify {f : σ → σ} {s s' : σ} {u : PUnit} :
    Runs (modify f : StateT σ (Except ε) PUnit) s u s' ↔ s' = f s := by
  simp only [Runs, modify, modifyGet, MonadStateOf.modifyGet, StateT.modifyGet, pure, Except.pure,
    Except.ok.injEq, Prod.mk.injEq, true_and]
  exact eq_comm

@[simp] theorem runs_ofExcept {e : Except ε α} {s s' : σ} {a : α} :
    Runs (ofExcept e) s a s' ↔ e = .ok a ∧ s' = s := by
  simp only [Runs, ofExcept]
  cases e with
  | error e => simp [Except.map]
  | ok b => simp [Except.map, eq_comm]

/-- A program that cannot go on without a value runs just when the value is there and the rest runs
with it. -/
theorem runs_elim_throw {o : Option α} {e : ε} {f : α → StateT σ (Except ε) β} {s s' : σ} {b : β} :
    Runs (o.elim (throw e) f) s b s' ↔ ∃ a, o = some a ∧ Runs (f a) s b s' := by
  cases o with
  | none => exact ⟨fun h => absurd h runs_throw, fun ⟨a, ha, _⟩ => nomatch ha⟩
  | some a => exact ⟨fun h => ⟨a, rfl, h⟩, fun ⟨_, ha, h⟩ => Option.some.inj ha ▸ h⟩

theorem runs_ite {c : Prop} [Decidable c] {m n : StateT σ (Except ε) α} {s s' : σ} {a : α} :
    Runs (if c then m else n) s a s' ↔ (c ∧ Runs m s a s') ∨ (¬ c ∧ Runs n s a s') := by
  split <;> simp [*]

@[simp] theorem runs_whenM {c : Bool} {m : StateT σ (Except ε) Unit} {s s' : σ} {u : Unit} :
    Runs (whenM c m) s u s' ↔ (c = true ∧ Runs m s u s') ∨ (c = false ∧ s' = s) := by
  cases c <;> simp [whenM]

@[simp] theorem runs_attempt {m : StateT σ (Except ε) Unit} {s s' : σ} {b : Bool} :
    Runs (attempt m) s b s' ↔
      (b = true ∧ Runs m s () s') ∨ (b = false ∧ s' = s ∧ ∃ e, m s = .error e) := by
  simp only [Runs, attempt]
  cases h : m s with
  | error e => simp [eq_comm]
  | ok r => obtain ⟨⟨⟩, t⟩ := r; cases b <;> simp

theorem leadsTo_iff {m : StateT σ (Except ε) Unit} {s : σ} {p : σ → Bool} :
    leadsTo m s p = true ↔ ∃ s', Runs m s () s' ∧ p s' = true := by
  simp only [leadsTo, Runs]
  cases m s with
  | error e => simp
  | ok r => obtain ⟨⟨⟩, t⟩ := r; simp

/-! ### Leading steps

A step that only reads drops out of an inversion, and leaves what it found out. -/

theorem runs_bind_of_still {m : StateT σ (Except ε) α} {f : α → StateT σ (Except ε) β} {R : α → Prop}
    {s s'' : σ} {b : β} (hm : ∀ a s', Runs m s a s' ↔ R a ∧ s' = s) :
    Runs (m >>= f) s b s'' ↔ ∃ a, R a ∧ Runs (f a) s b s'' := by
  simp only [runs_bind, hm]
  exact ⟨fun ⟨a, _, ⟨hR, hs⟩, h⟩ => ⟨a, hR, hs ▸ h⟩, fun ⟨a, hR, h⟩ => ⟨a, s, ⟨hR, rfl⟩, h⟩⟩

@[simp] theorem runs_bind_pure {a : α} {f : α → StateT σ (Except ε) β} {s s' : σ} {b : β} :
    Runs (pure a >>= f) s b s' ↔ Runs (f a) s b s' := by
  rw [pure_bind]

@[simp] theorem runs_bind_reads {g : σ → α} {f : α → StateT σ (Except ε) β} {s s' : σ} {b : β} :
    Runs (reads g >>= f) s b s' ↔ Runs (f (g s)) s b s' := by
  rw [runs_bind_of_still fun _ _ => runs_reads]
  simp

@[simp] theorem runs_bind_ofExcept {e : Except ε α} {f : α → StateT σ (Except ε) β} {s s' : σ}
    {b : β} : Runs (ofExcept e >>= f) s b s' ↔ ∃ a, e = .ok a ∧ Runs (f a) s b s' :=
  runs_bind_of_still fun _ _ => runs_ofExcept

/-- A check that is made under a condition, before the rest: where the condition holds, the check
has to succeed. -/
theorem runs_bind_whenM_ofExcept {c : Bool} {e : Except ε Unit} {f : Unit → StateT σ (Except ε) β}
    {s s' : σ} {b : β} :
    Runs (whenM c (ofExcept e) >>= f) s b s' ↔ (c = true → e = .ok ()) ∧ Runs (f ()) s b s' := by
  cases c with
  | true =>
      simp only [whenM, if_true, runs_bind_ofExcept]
      exact ⟨fun ⟨⟨⟩, he, h⟩ => ⟨fun _ => he, h⟩, fun ⟨he, h⟩ => ⟨(), he trivial, h⟩⟩
  | false =>
      simp only [whenM]
      exact ⟨fun h => ⟨fun hc => absurd hc Bool.false_ne_true, h⟩, fun h => h.2⟩

/-- What one round of a loop preserves, the whole loop preserves. -/
theorem drain_induction {stuck : ε} {next : StateT σ (Except ε) (Option β)}
    {body : γ → β → StateT σ (Except ε) γ} {P : γ → σ → Prop}
    (hround : ∀ acc acc' b s t u, P acc s → Runs next s (some b) t → Runs (body acc b) t acc' u →
      P acc' u)
    (hstop : ∀ acc s t, P acc s → Runs next s none t → P acc t) :
    ∀ {n acc acc' s s'}, Runs (drain stuck next body n acc) s acc' s' → P acc s → P acc' s'
  | 0, acc, acc', s, s', h, hP => by
      obtain ⟨b, t, h1, h2⟩ := runs_bind.mp h
      cases b with
      | none =>
          obtain ⟨rfl, rfl⟩ := runs_pure.mp h2
          exact hstop _ _ _ hP h1
      | some b => exact absurd h2 runs_throw
  | n + 1, acc, acc', s, s', h, hP => by
      obtain ⟨b, t, h1, h2⟩ := runs_bind.mp h
      cases b with
      | none =>
          obtain ⟨rfl, rfl⟩ := runs_pure.mp h2
          exact hstop _ _ _ hP h1
      | some b =>
          obtain ⟨acc₁, u, h3, h4⟩ := runs_bind.mp h2
          exact drain_induction hround hstop h4 (hround _ _ _ _ _ _ hP h1 h3)

/-- A round of `drain`: what its body is called with, and in which state. -/
structure Round (σ β γ : Type) where
  acc : γ
  item : β
  state : σ

/-- The rounds that `drain` goes through from a state on, each with the element it was given and the
states before and after. -/
def rounds (next : StateT σ (Except ε) (Option β)) (body : γ → β → StateT σ (Except ε) γ) :
    Nat → γ → σ → List (Round σ β γ)
  | 0, _, _ => []
  | n + 1, acc, s =>
      match next s with
      | .ok (some b, t) => ⟨acc, b, t⟩ ::
          match body acc b t with
          | .ok (acc', u) => rounds next body n acc' u
          | .error _ => []
      | _ => []

/-- A relation between the two ends of a loop and its rounds, by induction over these. -/
theorem drain_trace {stuck : ε} {next : StateT σ (Except ε) (Option β)}
    {body : γ → β → StateT σ (Except ε) γ} {R : γ → σ → List (Round σ β γ) → γ → σ → Prop}
    (hstop : ∀ acc s t, Runs next s none t → R acc s [] acc t)
    (hround : ∀ acc acc' acc'' b s t u v l, Runs next s (some b) t → Runs (body acc b) t acc' u →
      R acc' u l acc'' v → R acc s (⟨acc, b, t⟩ :: l) acc'' v) :
    ∀ {n acc acc' s s'}, Runs (drain stuck next body n acc) s acc' s' →
      R acc s (rounds next body n acc s) acc' s'
  | 0, acc, acc', s, s', h => by
      obtain ⟨b, t, h1, h2⟩ := runs_bind.mp h
      cases b with
      | none =>
          obtain ⟨rfl, rfl⟩ := runs_pure.mp h2
          exact hstop _ _ _ h1
      | some b => exact absurd h2 runs_throw
  | n + 1, acc, acc', s, s', h => by
      obtain ⟨b, t, h1, h2⟩ := runs_bind.mp h
      have hnext : next s = .ok (b, t) := h1
      cases b with
      | none =>
          obtain ⟨rfl, rfl⟩ := runs_pure.mp h2
          simp only [rounds, hnext]
          exact hstop _ _ _ h1
      | some b =>
          obtain ⟨acc₁, u, h3, h4⟩ := runs_bind.mp h2
          have hbody : body acc b t = .ok (acc₁, u) := h3
          simp only [rounds, hnext, hbody]
          exact hround _ _ _ _ _ _ _ _ _ h1 h3 (drain_trace hstop hround h4)

/-- What every call of a loop over a list preserves, the loop preserves. -/
theorem forM_induction {f : β → StateT σ (Except ε) PUnit} {P : σ → Prop} {l : List β}
    (hf : ∀ b ∈ l, ∀ s s', P s → Runs (f b) s () s' → P s') {s s' : σ} {u : PUnit}
    (h : Runs (l.forM f) s u s') (hP : P s) : P s' := by
  induction l generalizing s with
  | nil =>
      obtain ⟨-, rfl⟩ := runs_pure.mp h
      exact hP
  | cons b l ih =>
      obtain ⟨⟨⟩, t, h1, h2⟩ := runs_bind.mp h
      have hP' := hf b List.mem_cons_self s t hP h1
      exact ih (fun c hc => hf c (List.mem_cons_of_mem b hc)) h2 hP'

/-- `m`, started in `s`, throws some exception, so that nothing of what it did remains. -/
def Fails (m : StateT σ (Except ε) α) (s : σ) : Prop := ∃ e, m s = .error e

theorem not_fails_of_runs {m : StateT σ (Except ε) α} {s s' : σ} {a : α} (h : Runs m s a s') :
    ¬ Fails m s := by
  rintro ⟨e, he⟩
  rw [Runs, he] at h
  cases h

/-- A program either returns, in one of its runs, or throws; there is no third outcome. -/
theorem runs_or_fails (m : StateT σ (Except ε) α) (s : σ) : (∃ a s', Runs m s a s') ∨ Fails m s := by
  cases h : m s with
  | ok r => exact Or.inl ⟨r.1, r.2, h⟩
  | error e => exact Or.inr ⟨e, h⟩

theorem fails_bind {m : StateT σ (Except ε) α} {f : α → StateT σ (Except ε) β} {s : σ} :
    Fails (m >>= f) s ↔ Fails m s ∨ ∃ a t, Runs m s a t ∧ Fails (f a) t := by
  simp only [Fails, Runs, bind, StateT.bind, Except.bind]
  cases m s with
  | error e => simp
  | ok r =>
      obtain ⟨a, t⟩ := r
      simp

/-- A program succeeds if its first step does and the rest does after it. -/
theorem exists_runs_bind {m : StateT σ (Except ε) α} {f : α → StateT σ (Except ε) β} {s t : σ} {a : α}
    {b : β} (hm : Runs m s a t) (hf : ∃ s', Runs (f a) t b s') : ∃ s', Runs (m >>= f) s b s' := by
  obtain ⟨s', hf⟩ := hf
  exact ⟨s', runs_bind.mpr ⟨a, t, hm, hf⟩⟩

/-- What succeeds for every element and keeps what it needs succeeds for the list. -/
theorem exists_runs_forM {f : β → StateT σ (Except ε) PUnit} {P : σ → Prop} {l : List β}
    (h : ∀ b ∈ l, ∀ t, P t → ∃ t', Runs (f b) t () t' ∧ P t') {s : σ} (hs : P s) :
    ∃ s', Runs (l.forM f) s () s' ∧ P s' := by
  induction l generalizing s with
  | nil => exact ⟨s, runs_pure.mpr ⟨rfl, rfl⟩, hs⟩
  | cons b l ih =>
      obtain ⟨t, ht, hP⟩ := h b List.mem_cons_self s hs
      obtain ⟨s', hr, hP'⟩ := ih (fun c hc => h c (List.mem_cons_of_mem b hc)) hP
      exact ⟨s', runs_bind.mpr ⟨(), t, ht, hr⟩, hP'⟩

/-- What every step of a fold over a list preserves, the fold preserves. -/
theorem foldlM_induction {f : α → β → StateT σ (Except ε) α} {P : α → σ → Prop} {l : List β}
    (hf : ∀ b ∈ l, ∀ a a' s s', P a s → Runs (f a b) s a' s' → P a' s') {a a' : α} {s s' : σ}
    (h : Runs (l.foldlM f a) s a' s') (hP : P a s) : P a' s' := by
  induction l generalizing a s with
  | nil =>
      obtain ⟨rfl, rfl⟩ := runs_pure.mp h
      exact hP
  | cons b l ih =>
      rw [List.foldlM_cons] at h
      obtain ⟨a₁, t, h1, h2⟩ := runs_bind.mp h
      have hP' := hf b List.mem_cons_self a a₁ s t hP h1
      exact ih (fun c hc => hf c (List.mem_cons_of_mem b hc)) h2 hP'

/-! ## Footprints

A state is *cut* into concerns `ι`, each with a relation `same i` saying that two
states agree on it. `Within D m` says that `m` writes no concern outside the list
`D`. It is a class, so that instance search walks through a program and assembles
its footprint from those of the primitives and of the helpers it calls; the
latter declare theirs by `Writes`. -/

/-- A division of the state into concerns, each with its own notion of two states agreeing on it. -/
class Cut (σ : Type) (ι : outParam Type) where
  /-- The two states agree on the concern `i`, whatever else is different between them. -/
  same : ι → σ → σ → Prop
  same_refl : ∀ i s, same i s s
  same_trans : ∀ {i s t u}, same i s t → same i t u → same i s u

/-- The concern `i` is listed in `D`; instances look it up in a list that is written out. -/
class Listed {ι : Type} (i : ι) (D : List ι) : Prop where
  mem : i ∈ D

/-- Every concern that is listed in `C` is listed in `D` too, so that a smaller footprint lies
within a larger one. -/
class Covers {ι : Type} (C D : List ι) : Prop where
  covers : ∀ {i}, i ∈ C → i ∈ D

section Lists

variable {ι : Type}

instance listed_head (i : ι) (D : List ι) : Listed i (i :: D) := ⟨List.mem_cons_self⟩

instance listed_tail (i j : ι) (D : List ι) [h : Listed i D] : Listed i (j :: D) :=
  ⟨List.mem_cons_of_mem _ h.mem⟩

instance covers_nil (D : List ι) : Covers [] D := ⟨fun h => absurd h List.not_mem_nil⟩

instance covers_cons (i : ι) (C D : List ι) [hi : Listed i D] [hC : Covers C D] :
    Covers (i :: C) D :=
  ⟨fun h => by
    rcases List.mem_cons.mp h with rfl | h
    · exact hi.mem
    · exact hC.covers h⟩

end Lists

section Footprints

variable {ι : Type} [Cut σ ι]

/-- No successful run of `m` changes a concern outside `D`. -/
class Within (D : List ι) (m : StateT σ (Except ε) α) : Prop where
  /-- A concern that is not listed is the same before and after every run that returns. -/
  same : ∀ {i}, i ∉ D → ∀ {s a s'}, Runs m s a s' → Cut.same i s s'

/-- The declared footprint of a named program: the list of concerns it may write, which callers look
up instead of unfolding it. -/
class Writes (m : StateT σ (Except ε) α) (C : outParam (List ι)) : Prop where
  within : Within C m

variable {D : List ι}

instance within_of_writes (m : StateT σ (Except ε) α) (C : List ι) [hm : Writes m C]
    [hC : Covers C D] : Within D m :=
  ⟨fun hi _ _ _ h => hm.within.same (fun hC' => hi (hC.covers hC')) h⟩

instance within_pure (a : α) : Within D (pure a : StateT σ (Except ε) α) :=
  ⟨fun _ _ _ _ h => by rw [(runs_pure.mp h).2]; exact Cut.same_refl _ _⟩

instance within_throw (e : ε) : Within D (throw e : StateT σ (Except ε) α) :=
  ⟨fun _ _ _ _ h => absurd h runs_throw⟩

instance within_bind (m : StateT σ (Except ε) α) (f : α → StateT σ (Except ε) β)
    [hm : Within D m] [hf : ∀ a, Within D (f a)] : Within D (m >>= f) :=
  ⟨fun hi _ _ _ h => by
    obtain ⟨a, t, h1, h2⟩ := runs_bind.mp h
    exact Cut.same_trans (hm.same hi h1) ((hf a).same hi h2)⟩

instance within_map (m : StateT σ (Except ε) α) (f : α → β) [hm : Within D m] :
    Within D (f <$> m) :=
  ⟨fun hi _ _ _ h => by
    obtain ⟨a, h1, -⟩ := runs_map.mp h
    exact hm.same hi h1⟩

instance within_reads (f : σ → α) : Within D (reads f : StateT σ (Except ε) α) :=
  ⟨fun _ _ _ _ h => by rw [(runs_reads.mp h).2]; exact Cut.same_refl _ _⟩

instance within_ofExcept (e : Except ε α) : Within D (ofExcept e : StateT σ (Except ε) α) :=
  ⟨fun _ _ _ _ h => by rw [(runs_ofExcept.mp h).2]; exact Cut.same_refl _ _⟩

instance within_ite (c : Prop) [Decidable c] (m n : StateT σ (Except ε) α)
    [hm : Within D m] [hn : Within D n] : Within D (if c then m else n) := by
  split
  · exact hm
  · exact hn

instance within_whenM (c : Bool) (m : StateT σ (Except ε) Unit) [hm : Within D m] :
    Within D (whenM c m) := by
  unfold whenM
  infer_instance

instance within_elim (o : Option β) (m : StateT σ (Except ε) α) (f : β → StateT σ (Except ε) α)
    [hm : Within D m] [hf : ∀ b, Within D (f b)] : Within D (o.elim m f) := by
  cases o with
  | none => exact hm
  | some b => exact hf b

instance within_attempt (m : StateT σ (Except ε) Unit) [hm : Within D m] :
    Within D (attempt m) :=
  ⟨fun hi _ _ _ h => by
    rcases runs_attempt.mp h with ⟨-, h⟩ | ⟨-, rfl, -⟩
    · exact hm.same hi h
    · exact Cut.same_refl _ _⟩

instance within_forM (l : List β) (f : β → StateT σ (Except ε) PUnit)
    [hf : ∀ b, Within D (f b)] : Within D (l.forM f) := by
  induction l with
  | nil => exact within_pure _
  | cons b l ih => exact within_bind (f b) fun _ => l.forM f

instance within_foldlM (l : List β) (f : α → β → StateT σ (Except ε) α) (a : α)
    [hf : ∀ a b, Within D (f a b)] : Within D (l.foldlM f a) := by
  induction l generalizing a with
  | nil => exact within_pure _
  | cons b l ih =>
      rw [List.foldlM_cons]
      exact within_bind (f a b) fun a' => l.foldlM f a'

instance within_drain (stuck : ε) (next : StateT σ (Except ε) (Option β))
    (body : γ → β → StateT σ (Except ε) γ) (n : Nat) (acc : γ) [hn : Within D next]
    [hb : ∀ acc b, Within D (body acc b)] : Within D (drain stuck next body n acc) := by
  induction n generalizing acc with
  | zero => unfold drain; infer_instance
  | succ n ih => unfold drain; infer_instance

end Footprints

end BtcmChain
