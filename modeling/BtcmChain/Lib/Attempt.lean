import Mathlib.Data.List.Basic

set_option autoImplicit false

/-!
# Programs that keep their changes when they throw

Programs are `EStateM ε σ α`: an exception leaves the state as it was when it was
thrown, and a handler goes on from there. `Post m s P Q` says what holds afterwards
when `m` is started in `s`: `P` of the value and the state it returns, or `Q` of the
exception and the state it was thrown in. The `post_*` equivalences compute it from the
parts of a program.
-/

namespace BtcmChain

variable {σ ε α β : Type}

/-- `m`, started in `s`, returns with `P` or throws with `Q`. -/
def Post (m : EStateM ε σ α) (s : σ) (P : α → σ → Prop) (Q : ε → σ → Prop) : Prop :=
  match m s with
  | .ok a t => P a t
  | .error e t => Q e t

/-- The state that `m` leaves when it is started in `s`, whether it returns or throws: an exception
does not undo what was done before it. -/
def after (m : EStateM ε σ α) (s : σ) : σ :=
  match m s with
  | .ok _ t => t
  | .error _ t => t

/-- An exception-only computation; it leaves the state as it is. -/
def liftExcept (x : Except ε α) : EStateM ε σ α := fun s =>
  match x with
  | .ok a => .ok a s
  | .error e => .error e s

/-- Run `m` on a part of the state, and put back what it leaves of that part, also when it throws.
-/
def focus {τ : Type} (part : σ → τ) (put : τ → σ → σ) (m : EStateM ε τ α) : EStateM ε σ α :=
  fun s =>
    match m (part s) with
    | .ok a x => .ok a (put x s)
    | .error e x => .error e (put x s)

variable {s : σ} {P : α → σ → Prop} {Q : ε → σ → Prop}

theorem post_iff {m : EStateM ε σ α} : Post m s P Q ↔
    (∀ a t, m s = .ok a t → P a t) ∧ ∀ e t, m s = .error e t → Q e t := by
  unfold Post
  cases m s <;> simp

theorem post_after {m : EStateM ε σ α} {R : σ → Prop} :
    Post m s (fun _ => R) (fun _ => R) ↔ R (after m s) := by
  unfold Post after
  cases m s <;> rfl

theorem Post.mono {m : EStateM ε σ α} {P' : α → σ → Prop} {Q' : ε → σ → Prop}
    (h : Post m s P Q) (hP : ∀ a t, P a t → P' a t) (hQ : ∀ e t, Q e t → Q' e t) :
    Post m s P' Q' := by
  rw [post_iff] at h ⊢
  exact ⟨fun a t ht => hP a t (h.1 a t ht), fun e t ht => hQ e t (h.2 e t ht)⟩

theorem Post.and {m : EStateM ε σ α} {P' : α → σ → Prop} {Q' : ε → σ → Prop}
    (h : Post m s P Q) (h' : Post m s P' Q') :
    Post m s (fun a t => P a t ∧ P' a t) (fun e t => Q e t ∧ Q' e t) := by
  rw [post_iff] at *
  exact ⟨fun a t ht => ⟨h.1 a t ht, h'.1 a t ht⟩, fun e t ht => ⟨h.2 e t ht, h'.2 e t ht⟩⟩

@[simp] theorem post_pure {a : α} : Post (pure a : EStateM ε σ α) s P Q ↔ P a s := Iff.rfl

@[simp] theorem post_throw {e : ε} : Post (throw e : EStateM ε σ α) s P Q ↔ Q e s := Iff.rfl

@[simp] theorem post_get {P : σ → σ → Prop} :
    Post (get : EStateM ε σ σ) s P Q ↔ P s s := Iff.rfl

@[simp] theorem post_set {t : σ} {P : PUnit → σ → Prop} :
    Post (set t : EStateM ε σ PUnit) s P Q ↔ P ⟨⟩ t := Iff.rfl

@[simp] theorem post_modify {f : σ → σ} {P : PUnit → σ → Prop} :
    Post (modify f : EStateM ε σ PUnit) s P Q ↔ P ⟨⟩ (f s) := Iff.rfl

@[simp] theorem post_modifyThe {f : σ → σ} {P : PUnit → σ → Prop} :
    Post (modifyThe σ f : EStateM ε σ PUnit) s P Q ↔ P ⟨⟩ (f s) := Iff.rfl

@[simp] theorem post_bind {m : EStateM ε σ α} {f : α → EStateM ε σ β} {P : β → σ → Prop} :
    Post (m >>= f) s P Q ↔ Post m s (fun a t => Post (f a) t P Q) Q := by
  show Post (EStateM.bind m f) s P Q ↔ _
  unfold Post EStateM.bind
  cases m s <;> rfl

/-- A handler goes on from the state the exception was thrown in. -/
@[simp] theorem post_tryCatch {m : EStateM ε σ α} {f : ε → EStateM ε σ α} :
    Post (tryCatch m f) s P Q ↔ Post m s P (fun e t => Post (f e) t P Q) := by
  show Post (EStateM.tryCatch m f) s P Q ↔ _
  unfold Post EStateM.tryCatch
  cases m s <;> rfl

@[simp] theorem post_liftExcept {x : Except ε α} :
    Post (liftExcept x : EStateM ε σ α) s P Q ↔
      (∀ a, x = .ok a → P a s) ∧ ∀ e, x = .error e → Q e s := by
  cases x <;> simp [liftExcept, Post]

@[simp] theorem post_focus {τ : Type} {part : σ → τ} {put : τ → σ → σ} {m : EStateM ε τ α} :
    Post (focus part put m) s P Q ↔
      Post m (part s) (fun a x => P a (put x s)) (fun e x => Q e (put x s)) := by
  unfold Post focus
  cases m (part s) <;> rfl

/-! ## Results

What a program gives, where the result is known. -/

theorem bind_eq_of_ok {m : EStateM ε σ α} {f : α → EStateM ε σ β} {a : α} {t : σ}
    (h : m s = .ok a t) : (m >>= f) s = f a t := by
  show EStateM.bind m f s = _
  rw [EStateM.bind, h]

theorem bind_eq_of_error {m : EStateM ε σ α} {f : α → EStateM ε σ β} {e : ε} {t : σ}
    (h : m s = .error e t) : (m >>= f) s = .error e t := by
  show EStateM.bind m f s = _
  rw [EStateM.bind, h]

theorem tryCatch_eq_of_ok {m : EStateM ε σ α} {f : ε → EStateM ε σ α} {a : α} {t : σ}
    (h : m s = .ok a t) : tryCatch m f s = .ok a t := by
  show EStateM.tryCatch m f s = _
  rw [EStateM.tryCatch, h]

theorem tryCatch_eq_of_error {m : EStateM ε σ α} {f : ε → EStateM ε σ α} {e : ε} {t : σ}
    (h : m s = .error e t) : tryCatch m f s = f e t := by
  show EStateM.tryCatch m f s = _
  rw [EStateM.tryCatch, h]
  rfl

theorem focus_eq_of_ok {τ : Type} {part : σ → τ} {put : τ → σ → σ} {m : EStateM ε τ α} {a : α}
    {x : τ} (h : m (part s) = .ok a x) : focus part put m s = .ok a (put x s) := by
  rw [focus, h]

theorem focus_eq_of_error {τ : Type} {part : σ → τ} {put : τ → σ → σ} {m : EStateM ε τ α} {e : ε}
    {x : τ} (h : m (part s) = .error e x) : focus part put m s = .error e (put x s) := by
  rw [focus, h]

/-- **Loop rule.** `P l` holds before the rounds of `l`, and each round that returns leaves
`P` of the rest. -/
theorem post_forM {f : β → EStateM ε σ PUnit} {P : List β → σ → Prop}
    (hstep : ∀ b l s, P (b :: l) s → Post (f b) s (fun _ => P l) Q) (l : List β) :
    P l s → Post (l.forM f) s (fun _ => P []) Q := by
  induction l generalizing s with
  | nil => exact fun h => h
  | cons b l ih =>
      intro h
      show Post (f b >>= fun _ => l.forM f) s (fun _ => P []) Q
      rw [post_bind]
      exact (hstep b l s h).mono (fun _ t ht => ih ht) (fun _ _ hQ => hQ)

end BtcmChain
