import BtcmChain.Lib.Effect
import Mathlib.Data.List.Infix

set_option autoImplicit false

/-!
# Codecs on a stream

A value is packed in front of whatever follows, and unpacked from the front of a stream. When
unpacking undoes packing, a stream can be read in one way only; when packing undoes unpacking as
well, what was read stands there as it would be packed.

`Undoes` is the first law, whatever follows in the stream, and `RepacksIn` the second, at all
places of a given stream; a codec that obeys it at one stream may fail at another. `Undoes.unique`
and `RepacksIn.split` are what others need of a codec. `repacks` evaluates the second law at one
place, so that a concrete stream can be checked place by place (`repacksIn_of_tails`).
-/

namespace BtcmChain

/-- A way to pack values of `α` into symbols of `β`, and to unpack them. -/
structure PrefixCodec (ε β α : Type) where
  pack : α → Except ε (List β)
  unpack : StateT (List β) (Except ε) α

namespace PrefixCodec

variable {ε β α : Type} {c : PrefixCodec ε β α} {x y : α} {b b' rest rest' s t : List β}

/-- Unpacking undoes packing, whatever follows in the stream, and every value can be packed. -/
def Undoes (c : PrefixCodec ε β α) : Prop :=
  ∀ x, ∃ b, c.pack x = .ok b ∧ ∀ rest, Runs c.unpack (b ++ rest) x rest

/-- Packing undoes unpacking wherever in the stream `s` it succeeds: what was read is packed to just
the bytes that were read. -/
def RepacksIn (c : PrefixCodec ε β α) (s : List β) : Prop :=
  ∀ t, t <:+ s → ∀ x rest, Runs c.unpack t x rest → ∃ b, c.pack x = .ok b ∧ t = b ++ rest

theorem Undoes.runs (h : c.Undoes) (hb : c.pack x = .ok b) : Runs c.unpack (b ++ rest) x rest := by
  obtain ⟨b', hb', hrun⟩ := h x
  obtain rfl := Except.ok.inj (hb.symm.trans hb')
  exact hrun rest

/-- A stream begins with at most one packed value: two that both are prefixes of it are the same,
and the same is left. -/
theorem Undoes.unique (h : c.Undoes) (hx : c.pack x = .ok b) (hy : c.pack y = .ok b')
    (heq : b ++ rest = b' ++ rest') : x = y ∧ b = b' ∧ rest = rest' := by
  have hread : Except.ok (ε := ε) (x, rest) = .ok (y, rest') := by
    have hxrun : c.unpack (b ++ rest) = .ok (x, rest) := h.runs hx
    have hyrun : c.unpack (b' ++ rest') = .ok (y, rest') := h.runs hy
    rw [← hxrun, heq, hyrun]
  obtain ⟨rfl, rfl⟩ := Prod.mk.inj (Except.ok.inj hread)
  exact ⟨rfl, List.append_cancel_right heq, rfl⟩

theorem RepacksIn.of_suffix (h : c.RepacksIn s) (hs : t <:+ s) : c.RepacksIn t :=
  fun u hu => h u (hu.trans hs)

theorem RepacksIn.split (h : c.RepacksIn s) (hrun : Runs c.unpack s x rest) :
    ∃ b, c.pack x = .ok b ∧ s = b ++ rest :=
  h s List.suffix_rfl x rest hrun

/-- Whether packing undoes unpacking at the stream `t`, evaluated for the codec at hand. -/
def repacks [DecidableEq β] (c : PrefixCodec ε β α) (t : List β) : Bool :=
  match c.unpack t with
  | .ok (x, rest) =>
      match c.pack x with
      | .ok b => t = b ++ rest
      | .error _ => false
  | .error _ => true

theorem repacksIn_of_tails [DecidableEq β] (h : s.tails.all c.repacks = true) : c.RepacksIn s := by
  intro t ht x rest hrun
  have hrepacks := List.all_eq_true.mp h t ((List.mem_tails t s).mpr ht)
  have hread : c.unpack t = .ok (x, rest) := hrun
  simp only [repacks, hread] at hrepacks
  split at hrepacks
  · next b hb => exact ⟨b, hb, of_decide_eq_true hrepacks⟩
  · cases hrepacks

end PrefixCodec

end BtcmChain
