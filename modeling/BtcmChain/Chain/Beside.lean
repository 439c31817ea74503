import BtcmChain.Chain.Run
import BtcmChain.Lib.Respects

set_option autoImplicit false
set_option synthInstance.maxSize 10000000
set_option synthInstance.maxHeartbeats 200000

/-!
# Tables and views

Which programs respect a relation between states, as far as it does not depend on the
relation: those that only read, and those that write a table `Beside` it. A view that is
part of a concern is fixed by every program whose footprint leaves the concern out.

Relations are those of `Lib.Respects`. A table is beside a relation if writing it, whatever is
written, stays within the relation; the instances say which functions of the database then do so.
`respects_of_within` turns a footprint into such a fact. The modules that follow one concern
through all operations (delegations, friendships, votes and others) start from here.
-/

namespace BtcmChain

/-- Writing the table `t` stays within the relation `R`, whatever is written. -/
class Table.Beside {α : Type} (R : Database → Database → Prop) (t : Table α) : Prop where
  rel : ∀ s x, R s (t.write s x)

section Tables

variable {R : Database → Database → Prop} [Preorder₂ R] {α : Type} {t : Table α}

instance (p : α → Bool) : Respects R (t.findBy? p) := respects_reads _

instance (p : α → Bool) : Respects R (t.any p) := respects_reads _

instance (p : α → Bool) (msg : String) : Respects R (t.getBy p msg) := by
  unfold Table.getBy
  infer_instance

instance (id : Nat) : Respects R (t.get id) := by
  unfold Table.get
  infer_instance

instance (p : α → Bool) (key : α → Nat) : Respects R (t.rangeBy p key) := respects_reads _

instance (key : α → Nat) (due : α → Bool) : Respects R (t.due? key due) := by
  unfold Table.due?
  infer_instance

instance (c : Bool) (msg : String) : Respects R (require c msg) := respects_ofExcept _

instance (c : Except Exn Bool) (msg : String) : Respects R (requireE c msg) := by
  unfold requireE
  infer_instance

instance : Respects R headBlockTime := respects_reads _

instance (name : String) : Respects R (getAccount name) := by
  unfold getAccount
  infer_instance

instance (name : String) : Respects R (getWitness name) := by
  unfold getWitness
  infer_instance

instance (name : String) : Respects R (findStreamingPlatform name) := by
  unfold findStreamingPlatform
  infer_instance

instance (name : String) : Respects R (getStreamingPlatform name) := by
  unfold getStreamingPlatform
  infer_instance

instance (url : String) : Respects R (getContent url) := by
  unfold getContent
  infer_instance

variable [h : t.Beside R]

instance (id : Nat) (b : α) : Respects R (t.put id b) :=
  ⟨fun hr => by
    rw [Table.runs_put.mp hr]
    exact h.rel _ _⟩

instance (id : Nat) (change : α → Except Exn α) : Respects R (t.modify id change) :=
  ⟨fun hr => by
    obtain ⟨_, _, -, -, rfl⟩ := Table.runs_modify.mp hr
    exact h.rel _ _⟩

instance (a : α) : Respects R (t.create a) :=
  ⟨fun hr => by
    rw [(Table.runs_create.mp hr).2.2]
    exact h.rel _ _⟩

instance (id : Nat) : Respects R (t.remove id) :=
  ⟨fun hr => by
    rw [Table.runs_remove.mp hr]
    exact h.rel _ _⟩

end Tables

section Payouts

variable {R : Database → Database → Prop} [Preorder₂ R]

instance (r : ReportObject) (p : StreamingPlatformId) : Respects R (listenerOf r p) :=
  ⟨fun hr => by
    rw [runs_listenerOf hr]
    exact Preorder₂.refl _⟩

instance (x : ShareType) (r : ReportObject) : Respects R (assessReport x r) := by
  unfold assessReport
  infer_instance

variable [∀ a x, Respects R (createVesting a x)] [∀ a x, Respects R (createMbd a x)]

instance (toPay total : ShareType) (d : Distribution) :
    Respects R (payDistribution toPay total d) := by
  unfold payDistribution
  infer_instance

instance (toPay : ShareType) (ds : List Distribution) :
    Respects R (payDistributions toPay ds) := by
  unfold payDistributions
  infer_instance

instance (p : StreamingPlatformId) (x : ShareType) : Respects R (payToPlatform p x) := by
  unfold payToPlatform
  infer_instance

instance (r : ReportObject) (x y : ShareType) : Respects R (payPlatforms r x y) := by
  unfold payPlatforms
  infer_instance

variable [contentIndex.Beside R] [reportIndex.Beside R]

instance (side : Side) (content : Nat) (x : ShareType) :
    Respects R (payToContentSide side content x) := by
  unfold payToContentSide modifyPool
  infer_instance

instance (content : Nat) (x : ShareType) : Respects R (payToContent content x) := by
  unfold payToContent payToContentMaster payToContentComp modifyContentInfo
  infer_instance

instance (x : ShareType) (acc : Cashout) (r : Entry ReportObject) :
    Respects R (cashReport x acc r) := by
  unfold cashReport
  infer_instance

instance [∀ l, Respects R (adjustStatistics l)] (x : ShareType) :
    Respects R (processContentCashout x) := by
  unfold processContentCashout
  infer_instance

instance [∀ a x, Respects R (adjustBtcm a x)] : Respects R getProducerReward := by
  unfold getProducerReward
  infer_instance

end Payouts

section Withdrawals

variable {R : Database → Database → Prop} [Preorder₂ R]

instance (a : AccountId) : Respects R (withdrawRoutesOf a) := by
  unfold withdrawRoutesOf
  infer_instance

instance (x : ShareType) : Respects R (convertShares x) := by
  unfold convertShares
  infer_instance

instance [∀ a, Respects R (withdrawFrom a)] (now : TimePointSec) (n : Nat)
    (current : Option AccountId) : Respects R (withdrawalsFrom now n current) := by
  induction n generalizing current with
  | zero => unfold withdrawalsFrom; infer_instance
  | succ n ih => unfold withdrawalsFrom; infer_instance

instance [∀ a, Respects R (withdrawFrom a)] : Respects R processVestingWithdrawals := by
  unfold processVestingWithdrawals
  infer_instance

instance (names : List String) : Respects R (requireAccounts names) := by
  unfold requireAccounts
  infer_instance

end Withdrawals

/-- A view of one concern is fixed by what stays within the others. -/
theorem respects_of_within {ν α : Type} {f : Database → ν} {i : Concern} {D : List Concern}
    (hf : ∀ {s t : Database}, Cut.same i s t → f t = f s) (hi : i ∉ D) {m : DbM α}
    [h : Within D m] : Respects (Fixing f) m :=
  ⟨fun hr => hf (h.same hi hr)⟩

end BtcmChain
