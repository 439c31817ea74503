import Mathlib.Data.List.Basic

set_option autoImplicit false

/-!
# Machines that answer calls

A machine takes a call, answers it and goes on in another state. Two machines that stay related
give the same answers; the relation may look ahead to the calls that are still to come.

`transcript` is the list of answers to a list of calls, with the state that is left. For relations
of the states alone, `transcript_simulates` is the usual forward simulation; but the relation also
sees the calls that remain, which allows for bounds on all of them together, such as the room that
they will take.
-/

namespace BtcmChain

variable {κ α σ τ : Type} {exec : κ → σ → α × σ} {exec' : κ → τ → α × τ}

/-- The answers to some calls, in their order, and the state that is left. -/
def transcript (exec : κ → σ → α × σ) : List κ → σ → List α × σ
  | [], s => ([], s)
  | c :: cs, s =>
      let r := exec c s
      let rest := transcript exec cs r.2
      (r.1 :: rest.1, rest.2)

/-- **Simulation**: what every call keeps, with equal answers, the calls keep together. -/
theorem transcript_simulates {R : List κ → σ → τ → Prop}
    (hstep : ∀ c cs s t, R (c :: cs) s t →
      (exec c s).1 = (exec' c t).1 ∧ R cs (exec c s).2 (exec' c t).2)
    {cs : List κ} {s : σ} {t : τ} (h : R cs s t) :
    (transcript exec cs s).1 = (transcript exec' cs t).1 ∧
      R [] (transcript exec cs s).2 (transcript exec' cs t).2 := by
  induction cs generalizing s t with
  | nil => exact ⟨rfl, h⟩
  | cons c cs ih =>
      obtain ⟨hanswer, hrest⟩ := hstep c cs s t h
      obtain ⟨hanswers, hend⟩ := ih hrest
      refine ⟨?_, hend⟩
      rw [transcript, transcript, hanswer, hanswers]

end BtcmChain
