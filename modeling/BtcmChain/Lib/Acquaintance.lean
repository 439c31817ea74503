import Mathlib.Data.Set.Basic
import Mathlib.Logic.Function.Basic

set_option autoImplicit false

/-!
# Friends by mutual consent

A circle of nodes that are friends of each other, and the questions that wait for an answer:
`asked a b` says that `b` has asked `a`. A question from both sides makes a friendship. The
friends of friends are no state of the circle but what `second` says they are, and the lemmas
say how they change when two nodes become friends or part.
-/

namespace BtcmChain

/-- Who is a friend of whom, and whose question waits at whom. -/
@[ext] structure Circle (ι : Type) where
  friend : ι → ι → Prop
  asked : ι → ι → Prop

namespace Circle

variable {ι : Type} {c : Circle ι} {a b x y : ι}

/-- The friends of the friends of `a`, less `a` itself: those that a question of `a` may reach
through somebody it knows. -/
def second (c : Circle ι) (a x : ι) : Prop := x ≠ a ∧ ∃ b, c.friend a b ∧ c.friend b x

/-- Friendship is mutual and between two; a question between friends, or one that has been
asked from the other side as well, is settled. -/
structure Sound (c : Circle ι) : Prop where
  symm : ∀ {a b}, c.friend a b → c.friend b a
  irrefl : ∀ a, ¬c.friend a a
  settled : ∀ {a b}, c.asked a b → ¬c.friend a b
  oneSided : ∀ {a b}, c.asked a b → c.asked b a → a = b

/-- `a` puts the question to `b`: from now on it waits at `b`, and the friendships stay as they are.
-/
def ask (c : Circle ι) (a b : ι) : Circle ι where
  friend := c.friend
  asked x y := c.asked x y ∨ x = b ∧ y = a

/-- The question of `b` no longer waits at `a`, whether it was answered or withdrawn; all other
questions wait on. -/
def forget (c : Circle ι) (a b : ι) : Circle ι where
  friend := c.friend
  asked x y := c.asked x y ∧ ¬(x = a ∧ y = b)

/-- `a` and `b` become friends of each other; no question is put or answered by that. -/
def link (c : Circle ι) (a b : ι) : Circle ι where
  friend x y := c.friend x y ∨ x = a ∧ y = b ∨ x = b ∧ y = a
  asked := c.asked

/-- `a` and `b` are friends no longer, in neither direction; the questions that wait are left alone.
-/
def part (c : Circle ι) (a b : ι) : Circle ι where
  friend x y := c.friend x y ∧ ¬(x = a ∧ y = b) ∧ ¬(x = b ∧ y = a)
  asked := c.asked

open Classical in
/-- `a` asks `b`, or says yes to what `b` has asked. -/
noncomputable def request (c : Circle ι) (a b : ι) : Circle ι :=
  if c.friend a b ∨ c.asked b a then c
  else if c.asked a b then (c.forget a b).link a b
  else c.ask a b

open Classical in
/-- `a` takes back what it asked of `b`, refuses what `b` asked, or ends the friendship. -/
noncomputable def cancel (c : Circle ι) (a b : ι) : Circle ι :=
  if c.asked b a then c.forget b a
  else if c.asked a b then c.forget a b
  else c.part a b

/-! ## What stays sound -/

theorem Sound.forget (h : c.Sound) (a b : ι) : (c.forget a b).Sound where
  symm := h.symm
  irrefl := h.irrefl
  settled hxy := h.settled hxy.1
  oneSided hxy hyx := h.oneSided hxy.1 hyx.1

theorem Sound.ask (h : c.Sound) (hf : ¬c.friend a b) (hab : ¬c.asked a b) : (c.ask a b).Sound where
  symm := h.symm
  irrefl := h.irrefl
  settled {x y} hxy := by
    rcases hxy with hxy | ⟨rfl, rfl⟩
    · exact h.settled hxy
    · exact fun hba => hf (h.symm hba)
  oneSided {x y} hxy hyx := by
    rcases hxy with hxy | ⟨rfl, rfl⟩
    · rcases hyx with hyx | ⟨rfl, rfl⟩
      · exact h.oneSided hxy hyx
      · exact absurd hxy hab
    · rcases hyx with hyx | ⟨rfl, -⟩
      · exact absurd hyx hab
      · rfl

theorem Sound.link (h : c.Sound) (hab : a ≠ b) (ha : ¬c.asked a b) (hb : ¬c.asked b a) :
    (c.link a b).Sound where
  symm {x y} hxy := by
    rcases hxy with hxy | ⟨rfl, rfl⟩ | ⟨rfl, rfl⟩
    · exact .inl (h.symm hxy)
    · exact .inr (.inr ⟨rfl, rfl⟩)
    · exact .inr (.inl ⟨rfl, rfl⟩)
  irrefl x hx := by
    rcases hx with hx | ⟨rfl, rfl⟩ | ⟨rfl, rfl⟩
    · exact h.irrefl x hx
    · exact hab rfl
    · exact hab rfl
  settled {x y} hxy hlink := by
    rcases hlink with hf | ⟨rfl, rfl⟩ | ⟨rfl, rfl⟩
    · exact h.settled hxy hf
    · exact ha hxy
    · exact hb hxy
  oneSided := h.oneSided

theorem Sound.part (h : c.Sound) (a b : ι) : (c.part a b).Sound where
  symm {x y} hxy := by
    obtain ⟨hf, h1, h2⟩ := hxy
    exact ⟨h.symm hf, fun he => h2 ⟨he.2, he.1⟩, fun he => h1 ⟨he.2, he.1⟩⟩
  irrefl x hx := h.irrefl x hx.1
  settled hxy hf := h.settled hxy hf.1
  oneSided := h.oneSided

theorem Sound.request (h : c.Sound) (a b : ι) : (c.request a b).Sound := by
  unfold Circle.request
  split
  case isTrue => exact h
  case isFalse hopen =>
    rw [not_or] at hopen
    split
    case isTrue hasked =>
      have hab : a ≠ b := by
        rintro rfl
        exact hopen.2 hasked
      exact (h.forget a b).link hab (fun hxy => hxy.2 ⟨rfl, rfl⟩) fun hxy => hopen.2 hxy.1
    case isFalse hasked => exact h.ask hopen.1 hasked

theorem Sound.cancel (h : c.Sound) (a b : ι) : (c.cancel a b).Sound := by
  unfold Circle.cancel
  split
  case isTrue => exact h.forget b a
  case isFalse =>
    split
    case isTrue => exact h.forget a b
    case isFalse => exact h.part a b

/-- There is nothing to end between two who are no friends. -/
theorem Sound.part_of_not_friend (h : c.Sound) (hf : ¬c.friend a b) : c.part a b = c := by
  refine Circle.ext ?_ rfl
  funext x y
  refine propext ⟨fun hxy => hxy.1, fun hxy => ⟨hxy, ?_, ?_⟩⟩
  · rintro ⟨rfl, rfl⟩
    exact hf hxy
  · rintro ⟨rfl, rfl⟩
    exact hf (h.symm hxy)

/-! ## Friends of friends -/

@[simp] theorem second_forget : (c.forget a b).second = c.second := rfl

@[simp] theorem second_ask : (c.ask a b).second = c.second := rfl

/-- A new friendship brings each its friend's friends, and each friend's friends the other. -/
theorem Sound.second_link (h : c.Sound) (hab : a ≠ b) (hf : ¬c.friend a b) :
    (c.link a b).second x y ↔ c.second x y ∨ y = a ∧ c.friend b x ∨ y = b ∧ c.friend a x ∨
      x = a ∧ c.friend b y ∨ x = b ∧ c.friend a y := by
  have hf' : ¬c.friend b a := fun hba => hf (h.symm hba)
  constructor
  · rintro ⟨hne, z, hxz, hzy⟩
    rcases hxz with hxz | ⟨rfl, rfl⟩ | ⟨rfl, rfl⟩
    · rcases hzy with hzy | ⟨rfl, rfl⟩ | ⟨rfl, rfl⟩
      · exact .inl ⟨hne, z, hxz, hzy⟩
      · exact .inr (.inr (.inl ⟨rfl, h.symm hxz⟩))
      · exact .inr (.inl ⟨rfl, h.symm hxz⟩)
    · rcases hzy with hzy | ⟨rfl, -⟩ | ⟨-, rfl⟩
      · exact .inr (.inr (.inr (.inl ⟨rfl, hzy⟩)))
      · exact absurd rfl hab
      · exact absurd rfl hne
    · rcases hzy with hzy | ⟨-, rfl⟩ | ⟨rfl, -⟩
      · exact .inr (.inr (.inr (.inr ⟨rfl, hzy⟩)))
      · exact absurd rfl hne
      · exact absurd rfl hab
  · rintro (⟨hne, z, hxz, hzy⟩ | ⟨rfl, hbx⟩ | ⟨rfl, hax⟩ | ⟨rfl, hby⟩ | ⟨rfl, hay⟩)
    · exact ⟨hne, z, .inl hxz, .inl hzy⟩
    · refine ⟨?_, b, .inl (h.symm hbx), .inr (.inr ⟨rfl, rfl⟩)⟩
      rintro rfl
      exact hf' hbx
    · refine ⟨?_, a, .inl (h.symm hax), .inr (.inl ⟨rfl, rfl⟩)⟩
      rintro rfl
      exact hf hax
    · refine ⟨?_, b, .inr (.inl ⟨rfl, rfl⟩), .inl hby⟩
      rintro rfl
      exact hf' hby
    · refine ⟨?_, a, .inr (.inr ⟨rfl, rfl⟩), .inl hay⟩
      rintro rfl
      exact hf hay

/-- Whoever is neither of the two nor a friend of one of them keeps its friends of friends. -/
theorem Sound.second_part (h : c.Sound) (hxa : x ≠ a) (hxb : x ≠ b) (ha : ¬c.friend a x)
    (hb : ¬c.friend b x) : (c.part a b).second x y ↔ c.second x y := by
  constructor
  · rintro ⟨hne, z, hxz, hzy⟩
    exact ⟨hne, z, hxz.1, hzy.1⟩
  · rintro ⟨hne, z, hxz, hzy⟩
    refine ⟨hne, z, ⟨hxz, fun he => hxa he.1, fun he => hxb he.1⟩, hzy, ?_, ?_⟩
    · rintro ⟨rfl, -⟩
      exact ha (h.symm hxz)
    · rintro ⟨rfl, -⟩
      exact hb (h.symm hxz)

end Circle

end BtcmChain
