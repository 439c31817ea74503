import BtcmChain.Lib.Effect

set_option autoImplicit false

/-!
# Programs that respect a relation

`Respects R m` says that every successful run of `m` ends in a state that is related by
the preorder `R` to the one it started in. Two preorders are used throughout: `Holding P`
(an invariant that held still holds) and `Fixing f` (a view of the state has not changed).
Like a footprint, `Respects` is a class: instance search walks through a program and asks
for the primitives and the helpers it calls.
-/

namespace BtcmChain

variable {σ ε α β γ ν : Type}

/-- A relation between the state before and the state after, which holds of no step and along two
steps. -/
class Preorder₂ (R : σ → σ → Prop) : Prop where
  refl : ∀ s, R s s
  trans : ∀ {s t u}, R s t → R t u → R s u

/-- An invariant that held before still holds afterwards, as a relation between the two states. -/
def Holding (P : σ → Prop) : σ → σ → Prop := fun s t => P s → P t

/-- A view of the state is afterwards as it was before, as a relation between the two states. -/
def Fixing (f : σ → ν) : σ → σ → Prop := fun s t => f t = f s

instance (P : σ → Prop) : Preorder₂ (Holding P) := ⟨fun _ h => h, fun h1 h2 h => h2 (h1 h)⟩

instance (f : σ → ν) : Preorder₂ (Fixing f) := ⟨fun _ => rfl, fun h1 h2 => Eq.trans h2 h1⟩

/-- No successful run of the program `m` leaves the relation between the states before and after it.
-/
class Respects (R : σ → σ → Prop) (m : StateT σ (Except ε) α) : Prop where
  rel : ∀ {s a s'}, Runs m s a s' → R s s'

section Programs

variable {R : σ → σ → Prop} [Preorder₂ R]

instance respects_pure (a : α) : Respects R (pure a : StateT σ (Except ε) α) :=
  ⟨fun h => by
    rw [(runs_pure.mp h).2]
    exact Preorder₂.refl _⟩

instance respects_throw (e : ε) : Respects R (throw e : StateT σ (Except ε) α) :=
  ⟨fun h => absurd h runs_throw⟩

instance respects_bind (m : StateT σ (Except ε) α) (f : α → StateT σ (Except ε) β)
    [hm : Respects R m] [hf : ∀ a, Respects R (f a)] : Respects R (m >>= f) :=
  ⟨fun h => by
    obtain ⟨a, t, h1, h2⟩ := runs_bind.mp h
    exact Preorder₂.trans (hm.rel h1) ((hf a).rel h2)⟩

instance respects_map (m : StateT σ (Except ε) α) (f : α → β) [hm : Respects R m] :
    Respects R (f <$> m) :=
  ⟨fun h => by
    obtain ⟨a, h1, -⟩ := runs_map.mp h
    exact hm.rel h1⟩

instance respects_reads (f : σ → α) : Respects R (reads f : StateT σ (Except ε) α) :=
  ⟨fun h => by
    rw [(runs_reads.mp h).2]
    exact Preorder₂.refl _⟩

instance respects_ofExcept (e : Except ε α) : Respects R (ofExcept e : StateT σ (Except ε) α) :=
  ⟨fun h => by
    rw [(runs_ofExcept.mp h).2]
    exact Preorder₂.refl _⟩

instance respects_ite (c : Prop) [Decidable c] (m n : StateT σ (Except ε) α)
    [hm : Respects R m] [hn : Respects R n] : Respects R (if c then m else n) := by
  split
  · exact hm
  · exact hn

instance respects_whenM (c : Bool) (m : StateT σ (Except ε) Unit) [hm : Respects R m] :
    Respects R (whenM c m) := by
  unfold whenM
  infer_instance

instance respects_elim (o : Option β) (m : StateT σ (Except ε) α) (f : β → StateT σ (Except ε) α)
    [hm : Respects R m] [hf : ∀ b, Respects R (f b)] : Respects R (o.elim m f) := by
  cases o with
  | none => exact hm
  | some b => exact hf b

instance respects_attempt (m : StateT σ (Except ε) Unit) [hm : Respects R m] :
    Respects R (attempt m) :=
  ⟨fun h => by
    rcases runs_attempt.mp h with ⟨-, h⟩ | ⟨-, rfl, -⟩
    · exact hm.rel h
    · exact Preorder₂.refl _⟩

instance respects_forM (l : List β) (f : β → StateT σ (Except ε) PUnit)
    [hf : ∀ b, Respects R (f b)] : Respects R (l.forM f) := by
  induction l with
  | nil => exact respects_pure _
  | cons b l ih => exact respects_bind (f b) fun _ => l.forM f

instance respects_foldlM (l : List β) (f : α → β → StateT σ (Except ε) α) (a : α)
    [hf : ∀ a b, Respects R (f a b)] : Respects R (l.foldlM f a) := by
  induction l generalizing a with
  | nil => exact respects_pure _
  | cons b l ih =>
      rw [List.foldlM_cons]
      exact respects_bind (f a b) fun a' => l.foldlM f a'

instance respects_drain (stuck : ε) (next : StateT σ (Except ε) (Option β))
    (body : γ → β → StateT σ (Except ε) γ) (n : Nat) (acc : γ) [hn : Respects R next]
    [hb : ∀ acc b, Respects R (body acc b)] : Respects R (drain stuck next body n acc) := by
  induction n generalizing acc with
  | zero => unfold drain; infer_instance
  | succ n ih => unfold drain; infer_instance

end Programs

end BtcmChain
