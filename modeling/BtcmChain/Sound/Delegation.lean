import BtcmChain.Chain.Beside
import BtcmChain.Sound.Conservation

set_option autoImplicit false
set_option synthInstance.maxSize 10000000
set_option synthInstance.maxHeartbeats 200000

/-!
# Delegated vesting shares

A view of the state: what accounts have lent and borrowed, and the objects this is booked
from. `Loans.Balanced` says that the two agree; it is shown for one loan and one return at
a time (`Balanced.shift`), and from there for every reachable state. Everything but
delegations, their expiry and new accounts leaves the view alone.

Every delegation is in one of two tables: that of the delegations that run, and that of shares on
their way back. So what an account has lent is what is outgoing and what is returning, and what it
has borrowed is what is incoming. Operations change the books by shifts (`Shifts`).
`delegations_balance` says of every reachable state that the sums are right, and of the clearing at
the end of a block that it pays back what is due, once.
-/

namespace BtcmChain

/-- What an account has lent to others and borrowed from them, with its name. -/
structure AccountLoans where
  name : String
  delegatedVestingShares : ShareType
  receivedVestingShares : ShareType

def AccountObject.loans (a : AccountObject) : AccountLoans where
  name := a.name
  delegatedVestingShares := a.delegatedVestingShares
  receivedVestingShares := a.receivedVestingShares

/-- The accounts as lenders and borrowers, and the objects in between. -/
structure Loans where
  accounts : FlatMap AccountId AccountLoans
  delegations : ObjectIndex VestingDelegationObject
  expirations : ObjectIndex VestingDelegationExpirationObject

/-- The view of the state that the delegations are about. -/
def Database.loans (s : Database) : Loans where
  accounts := s.accounts.objs.mapVals AccountObject.loans
  delegations := s.delegations
  expirations := s.delegationExpirations

namespace Loans

/-- What `name` delegates to others, by the objects. -/
def outgoing (l : Loans) (name : String) : ℤ :=
  l.delegations.sum fun _ d => if d.delegator = name then d.vestingShares.toInt else 0

/-- What others delegate to `name`, by the objects. -/
def incoming (l : Loans) (name : String) : ℤ :=
  l.delegations.sum fun _ d => if d.delegatee = name then d.vestingShares.toInt else 0

/-- What is on its way back to `name`, by the objects. -/
def returning (l : Loans) (name : String) : ℤ :=
  l.expirations.sum fun _ e => if e.delegator = name then e.vestingShares.toInt else 0

theorem returning_congr {l l' : Loans} (h : l'.expirations = l.expirations) (n : String) :
    l'.returning n = l.returning n := by
  rw [returning, h]
  rfl

theorem returning_create {l l' : Loans} {e : VestingDelegationExpirationObject}
    (h : l'.expirations = l.expirations.create e) (n : String) :
    l'.returning n = l.returning n + if e.delegator = n then e.vestingShares.toInt else 0 := by
  rw [returning, h, ObjectIndex.sum_create]
  rfl

/-- What comes back to `name` now, since its time has come. -/
def due (l : Loans) (now : TimePointSec) (name : String) : ℤ :=
  l.expirations.sum fun _ e =>
    if e.delegator = name ∧ e.expiration < now then e.vestingShares.toInt else 0

/-- What comes back to `name` later, since its time is still to come. -/
def later (l : Loans) (now : TimePointSec) (name : String) : ℤ :=
  l.expirations.sum fun _ e =>
    if e.delegator = name ∧ ¬e.expiration < now then e.vestingShares.toInt else 0

theorem returning_eq (l : Loans) (now : TimePointSec) (name : String) :
    l.returning name = l.due now name + l.later now name := by
  unfold returning due later
  rw [← ObjectIndex.sum_add]
  refine ObjectIndex.sum_congr fun k e _ => ?_
  by_cases hn : e.delegator = name <;> by_cases hd : e.expiration < now <;> simp [hn, hd]

/-- Some account has that name, so that something can be lent to it. -/
def Knows (l : Loans) (name : String) : Prop := ∃ id a, l.accounts.find? id = some a ∧ a.name = name

/-- No two accounts share a name. -/
def Distinct (m : FlatMap AccountId AccountLoans) : Prop :=
  ∀ ⦃i j a b⦄, m.find? i = some a → m.find? j = some b → a.name = b.name → i = j

/-- No two delegations have the same delegator and the same delegatee. -/
def Unique (ix : ObjectIndex VestingDelegationObject) : Prop :=
  ∀ ⦃i j d e⦄, ix.find? i = some d → ix.find? j = some e → d.delegator = e.delegator →
    d.delegatee = e.delegatee → i = j

/-- Every account's books agree with the objects: what it has lent is delegated or on its way back,
what it has borrowed is delegated to it. -/
structure Balanced (l : Loans) : Prop where
  names : Distinct l.accounts
  delegated : ∀ {id a}, l.accounts.find? id = some a →
    a.delegatedVestingShares.toInt = l.outgoing a.name + l.returning a.name
  received : ∀ {id a}, l.accounts.find? id = some a →
    a.receivedVestingShares.toInt = l.incoming a.name
  unique : Unique l.delegations
  known : ∀ {id d}, l.delegations.find? id = some d → l.Knows d.delegator ∧ l.Knows d.delegatee
  knownReturn : ∀ {id e}, l.expirations.find? id = some e → l.Knows e.delegator

/-! ## Booking on accounts -/

/-- The accounts of `m'` are those of `m`, with `d` more lent and `r` more borrowed. -/
structure Shifts (m m' : FlatMap AccountId AccountLoans) (d r : String → ℤ) : Prop where
  forth : ∀ {id a}, m.find? id = some a → ∃ a', m'.find? id = some a' ∧ a'.name = a.name
  back : ∀ {id a'}, m'.find? id = some a' → ∃ a, m.find? id = some a ∧ a'.name = a.name ∧
    a'.delegatedVestingShares.toInt = a.delegatedVestingShares.toInt + d a.name ∧
    a'.receivedVestingShares.toInt = a.receivedVestingShares.toInt + r a.name

section Shifts

variable {m m' m'' : FlatMap AccountId AccountLoans} {d d' r r' : String → ℤ}

theorem Shifts.refl (m : FlatMap AccountId AccountLoans) : Shifts m m (fun _ => 0) fun _ => 0 where
  forth h := ⟨_, h, rfl⟩
  back h := ⟨_, h, rfl, by omega, by omega⟩

theorem Shifts.trans (h : Shifts m m' d r) (h' : Shifts m' m'' d' r') :
    Shifts m m'' (fun n => d n + d' n) fun n => r n + r' n where
  forth ha := by
    obtain ⟨a', ha', hname⟩ := h.forth ha
    obtain ⟨a'', ha'', hname'⟩ := h'.forth ha'
    exact ⟨a'', ha'', hname'.trans hname⟩
  back ha'' := by
    obtain ⟨a', ha', hname', hd', hr'⟩ := h'.back ha''
    obtain ⟨a, ha, hname, hd, hr⟩ := h.back ha'
    rw [hname] at hd' hr'
    exact ⟨a, ha, hname'.trans hname, by omega, by omega⟩

/-- One account is booked on, and all others keep what they have lent and borrowed. -/
theorem Shifts.single {id : AccountId} {a x : AccountLoans} {δ ρ : ℤ}
    (hnames : Distinct m) (ha : m.find? id = some a) (hname : x.name = a.name)
    (hd : x.delegatedVestingShares.toInt = a.delegatedVestingShares.toInt + δ)
    (hr : x.receivedVestingShares.toInt = a.receivedVestingShares.toInt + ρ) :
    Shifts m (m.update id fun _ => x) (fun n => if a.name = n then δ else 0)
      fun n => if a.name = n then ρ else 0 where
  forth {i b} hb := by
    rw [FlatMap.find?_update]
    split
    case isTrue hi =>
      subst hi
      obtain rfl := Option.some.inj (ha.symm.trans hb)
      exact ⟨x, by rw [ha]; rfl, hname⟩
    case isFalse => exact ⟨b, hb, rfl⟩
  back {i b'} hb' := by
    rw [FlatMap.find?_update] at hb'
    split at hb'
    case isTrue hi =>
      subst hi
      rw [ha] at hb'
      obtain rfl := Option.some.inj hb'
      exact ⟨a, ha, hname, by rw [if_pos rfl, hd], by rw [if_pos rfl, hr]⟩
    case isFalse hi =>
      have hne : a.name ≠ b'.name := fun h => hi (hnames hb' ha h.symm)
      exact ⟨b', hb', rfl, by rw [if_neg hne, add_zero], by rw [if_neg hne, add_zero]⟩

/-- A new account enters the books with what is lent to it from the start, and the others change as
they did. -/
theorem Shifts.insert {id : AccountId} {x : AccountLoans} (h : Shifts m m' d fun _ => 0)
    (hd : d x.name = 0) (hx : x.delegatedVestingShares = 0)
    (hnew : ∀ {k a}, m.find? k = some a → a.name ≠ x.name) :
    Shifts (m.set id ⟨x.name, 0, 0⟩) (m'.set id x) d
      fun n => if x.name = n then x.receivedVestingShares.toInt else 0 where
  forth {k a} ha := by
    rw [FlatMap.find?_set] at ha ⊢
    split at ha
    case isTrue hk =>
      obtain rfl := Option.some.inj ha
      exact ⟨x, if_pos hk, rfl⟩
    case isFalse hk =>
      obtain ⟨a', ha', hname⟩ := h.forth ha
      exact ⟨a', by rw [if_neg hk, ha'], hname⟩
  back {k a'} ha' := by
    rw [FlatMap.find?_set] at ha' ⊢
    split at ha'
    case isTrue hk =>
      obtain rfl := Option.some.inj ha'
      exact ⟨_, if_pos hk, rfl, by rw [hx, hd]; rfl, by
        rw [if_pos rfl]
        exact (zero_add _).symm⟩
    case isFalse hk =>
      obtain ⟨a, ha, hname, hda, hra⟩ := h.back ha'
      have hne : x.name ≠ a.name := fun h => hnew ha h.symm
      exact ⟨a, by rw [if_neg hk, ha], hname, hda, by rw [hra, if_neg hne]⟩

theorem Shifts.distinct (h : Shifts m m' d r) (hnames : Distinct m) : Distinct m' := by
  intro i j a b ha hb hname
  obtain ⟨a₀, ha₀, hna, -⟩ := h.back ha
  obtain ⟨b₀, hb₀, hnb, -⟩ := h.back hb
  exact hnames ha₀ hb₀ (hna.symm.trans (hname.trans hnb))

end Shifts

section Balanced

variable {l l' : Loans} {d r : String → ℤ} {name : String}

theorem Knows.shift (h : l.Knows name) (hs : Shifts l.accounts l'.accounts d r) : l'.Knows name := by
  obtain ⟨id, a, ha, rfl⟩ := h
  obtain ⟨a', ha', hname⟩ := hs.forth ha
  exact ⟨id, a', ha', hname⟩

/-- When books and objects change by the same amounts, the loans stay balanced. -/
theorem Balanced.shift (h : l.Balanced) (hs : Shifts l.accounts l'.accounts d r)
    (hd : ∀ n, l'.outgoing n + l'.returning n = l.outgoing n + l.returning n + d n)
    (hr : ∀ n, l'.incoming n = l.incoming n + r n)
    (hunique : Unique l'.delegations)
    (hknown : ∀ {id d}, l'.delegations.find? id = some d → l'.Knows d.delegator ∧ l'.Knows d.delegatee)
    (hreturn : ∀ {id e}, l'.expirations.find? id = some e → l'.Knows e.delegator) : l'.Balanced where
  names := hs.distinct h.names
  delegated ha' := by
    obtain ⟨a, ha, hname, hda, -⟩ := hs.back ha'
    rw [hname, hd, hda, h.delegated ha]
  received ha' := by
    obtain ⟨a, ha, hname, -, hra⟩ := hs.back ha'
    rw [hname, hr, hra, h.received ha]
  unique := hunique
  known := hknown
  knownReturn := hreturn

/-- Loans stay balanced when the accounts look the same and the objects are the same. -/
theorem Balanced.congr (h : l.Balanced)
    (hs : Shifts l.accounts l'.accounts (fun _ => 0) fun _ => 0)
    (hdel : l'.delegations = l.delegations) (hexp : l'.expirations = l.expirations) : l'.Balanced := by
  refine h.shift hs ?_ ?_ (hdel ▸ h.unique) ?_ ?_
  · intro n
    simp only [outgoing, returning, hdel, hexp, add_zero]
  · intro n
    simp only [incoming, hdel, add_zero]
  · intro k d hd
    rw [hdel] at hd
    exact ⟨(h.known hd).1.shift hs, (h.known hd).2.shift hs⟩
  · intro k e he
    rw [hexp] at he
    exact (h.knownReturn he).shift hs

theorem outgoing_of_not_knows (hl : l.Balanced) (h : ¬l.Knows name) :
    l.outgoing name = 0 := by
  refine ObjectIndex.sum_eq_zero fun k d hd => if_neg fun hn => h ?_
  rw [← hn]
  exact (hl.known hd).1

theorem incoming_of_not_knows (hl : l.Balanced) (h : ¬l.Knows name) :
    l.incoming name = 0 := by
  refine ObjectIndex.sum_eq_zero fun k d hd => if_neg fun hn => h ?_
  rw [← hn]
  exact (hl.known hd).2

theorem returning_of_not_knows (hl : l.Balanced) (h : ¬l.Knows name) :
    l.returning name = 0 := by
  refine ObjectIndex.sum_eq_zero fun k e he => if_neg fun hn => h ?_
  rw [← hn]
  exact hl.knownReturn he

theorem Knows.insert {id : AccountId} {x : AccountLoans} (h : l.Knows name)
    (hnew : l.accounts.find? id = none) :
    Knows { l with accounts := l.accounts.set id x } name := by
  obtain ⟨k, y, hy, rfl⟩ := h
  refine ⟨k, y, ?_, rfl⟩
  rw [FlatMap.find?_set, if_neg, hy]
  rintro rfl
  rw [hnew] at hy
  cases hy

/-- A new account that has lent and borrowed nothing keeps the loans balanced, when nobody has that
name. -/
theorem Balanced.insert {id : AccountId} {x : AccountLoans} (hl : l.Balanced)
    (hnew : l.accounts.find? id = none) (hnot : ¬l.Knows x.name)
    (hd : x.delegatedVestingShares = 0) (hr : x.receivedVestingShares = 0) :
    Balanced { l with accounts := l.accounts.set id x } := by
  refine ⟨?_, ?_, ?_, hl.unique, ?_, ?_⟩
  · intro i j y z hy hz hname
    rw [FlatMap.find?_set] at hy hz
    split at hy <;> split at hz
    case isTrue.isTrue hi hj => exact hi.trans hj.symm
    case isTrue.isFalse =>
      obtain rfl := Option.some.inj hy
      exact absurd ⟨j, z, hz, hname.symm⟩ hnot
    case isFalse.isTrue =>
      obtain rfl := Option.some.inj hz
      exact absurd ⟨i, y, hy, hname⟩ hnot
    case isFalse.isFalse => exact hl.names hy hz hname
  · intro k y hy
    rw [FlatMap.find?_set] at hy
    split at hy
    · obtain rfl := Option.some.inj hy
      show x.delegatedVestingShares.toInt = l.outgoing x.name + l.returning x.name
      rw [outgoing_of_not_knows hl hnot, returning_of_not_knows hl hnot, hd]
      rfl
    · exact hl.delegated hy
  · intro k y hy
    rw [FlatMap.find?_set] at hy
    split at hy
    · obtain rfl := Option.some.inj hy
      show x.receivedVestingShares.toInt = l.incoming x.name
      rw [incoming_of_not_knows hl hnot, hr]
      rfl
    · exact hl.received hy
  · intro k d hd
    exact ⟨(hl.known hd).1.insert hnew, (hl.known hd).2.insert hnew⟩
  · intro k e he
    exact (hl.knownReturn he).insert hnew

end Balanced

/-! ## The delegations as a table -/

section Table

variable {ix : ObjectIndex VestingDelegationObject} {x : VestingDelegationObject} {id : Nat}

theorem Unique.create (h : Unique ix)
    (hfree : ix.any (fun d => x.delegator = d.delegator ∧ x.delegatee = d.delegatee) = false) :
    Unique (ix.create x) := by
  have hnone := ObjectIndex.findBy?_eq_none.mp (Option.isNone_iff_eq_none.mp (by
    rw [← Option.not_isSome, show (ix.findBy? _).isSome = _ from hfree]
    rfl))
  have hfree : ∀ {k d}, ix.find? k = some d → x.delegator = d.delegator →
      x.delegatee ≠ d.delegatee := by
    intro k d hd h1 h2
    exact of_decide_eq_false (hnone k d hd) ⟨h1, h2⟩
  intro i j d e hi hj h1 h2
  rw [ObjectIndex.find?_create] at hi hj
  split at hi <;> split at hj
  case isTrue.isTrue hi' hj' => exact hi'.trans hj'.symm
  case isTrue.isFalse =>
    obtain rfl := Option.some.inj hi
    exact absurd h2 (hfree hj h1)
  case isFalse.isTrue =>
    obtain rfl := Option.some.inj hj
    exact absurd h2.symm (hfree hi h1.symm)
  case isFalse.isFalse => exact h hi hj h1 h2

/-- A first delegation between two accounts keeps the loans balanced, when it is booked on both. -/
theorem Balanced.create {l l' : Loans} (h : l.Balanced)
    (hs : Shifts l.accounts l'.accounts
      (fun n => if x.delegator = n then x.vestingShares.toInt else 0)
      fun n => if x.delegatee = n then x.vestingShares.toInt else 0)
    (hfree : l.delegations.any (fun d => x.delegator = d.delegator ∧ x.delegatee = d.delegatee) = false)
    (hdel : l'.delegations = l.delegations.create x) (hexp : l'.expirations = l.expirations)
    (h1 : l.Knows x.delegator) (h2 : l.Knows x.delegatee) : l'.Balanced := by
  refine h.shift hs ?_ ?_ ?_ ?_ ?_
  · intro n
    simp only [outgoing, returning, hdel, hexp, ObjectIndex.sum_create]
    ring
  · intro n
    simp only [incoming, hdel, ObjectIndex.sum_create]
  · rw [hdel]
    exact h.unique.create hfree
  · intro k e he
    rw [hdel, ObjectIndex.find?_create] at he
    split at he
    · obtain rfl := Option.some.inj he
      exact ⟨h1.shift hs, h2.shift hs⟩
    · exact ⟨(h.known he).1.shift hs, (h.known he).2.shift hs⟩
  · intro k e he
    rw [hexp] at he
    exact (h.knownReturn he).shift hs

/-- What is found after an overwrite that keeps the sides. -/
theorem find?_update_sides {d : VestingDelegationObject} (hd : ix.find? id = some d)
    (h1 : x.delegator = d.delegator) (h2 : x.delegatee = d.delegatee) {k : Nat}
    {e : VestingDelegationObject} (he : (ix.update id fun _ => x).find? k = some e) :
    ∃ e', ix.find? k = some e' ∧ e.delegator = e'.delegator ∧ e.delegatee = e'.delegatee := by
  rw [ObjectIndex.find?_update] at he
  split at he
  case isTrue hk =>
    subst hk
    rw [hd] at he
    obtain rfl := Option.some.inj he
    exact ⟨d, hd, h1, h2⟩
  case isFalse => exact ⟨e, he, rfl, rfl⟩

theorem Unique.update {d : VestingDelegationObject} (h : Unique ix) (hd : ix.find? id = some d)
    (h1 : x.delegator = d.delegator) (h2 : x.delegatee = d.delegatee) :
    Unique (ix.update id fun _ => x) := by
  intro i j e f hi hj hef hef'
  obtain ⟨e', he', hee, hee'⟩ := find?_update_sides hd h1 h2 hi
  obtain ⟨f', hf', hff, hff'⟩ := find?_update_sides hd h1 h2 hj
  exact h he' hf' (hee.symm.trans (hef.trans hff)) (hee'.symm.trans (hef'.trans hff'))

theorem find?_of_remove {α : Type} {ix : ObjectIndex α} {id k : Nat} {e : α}
    (he : (ix.remove id).find? k = some e) : ix.find? k = some e := by
  rw [ObjectIndex.find?_remove] at he
  split at he
  · cases he
  · exact he

/-- One delegation is overwritten by another amount between the same sides. -/
theorem Balanced.overwrite {l l' : Loans} {d r : String → ℤ} {y : VestingDelegationObject}
    (h : l.Balanced) (hy : l.delegations.find? id = some y) (h1 : x.delegator = y.delegator)
    (h2 : x.delegatee = y.delegatee) (hs : Shifts l.accounts l'.accounts d r)
    (hdel : l'.delegations = l.delegations.update id fun _ => x)
    (hexp : ∀ {k e}, l'.expirations.find? k = some e → l'.Knows e.delegator)
    (hd : ∀ n, l'.returning n + (if y.delegator = n then
      x.vestingShares.toInt - y.vestingShares.toInt else 0) = l.returning n + d n)
    (hr : ∀ n, (if y.delegatee = n then x.vestingShares.toInt - y.vestingShares.toInt else 0) = r n) :
    l'.Balanced := by
  refine h.shift hs ?_ ?_ ?_ ?_ hexp
  · intro n
    have hsum := ObjectIndex.sum_update (f := fun _ => x) hy
      (w := fun _ d => if d.delegator = n then d.vestingShares.toInt else 0)
    have hd := hd n
    simp only [outgoing, hdel, hsum, h1]
    split at hd <;> simp_all <;> omega
  · intro n
    have hsum := ObjectIndex.sum_update (f := fun _ => x) hy
      (w := fun _ d => if d.delegatee = n then d.vestingShares.toInt else 0)
    have hr := hr n
    simp only [incoming, hdel, hsum, h2]
    split at hr <;> simp_all
  · rw [hdel]
    exact h.unique.update hy h1 h2
  · intro k e he
    rw [hdel] at he
    obtain ⟨e', he', hee, hee'⟩ := find?_update_sides hy h1 h2 he
    rw [hee, hee']
    exact ⟨(h.known he').1.shift hs, (h.known he').2.shift hs⟩

theorem Unique.remove (h : Unique ix) (id : Nat) : Unique (ix.remove id) :=
  fun _ _ _ _ hi hj => h (find?_of_remove hi) (find?_of_remove hj)

end Table

end Loans

/-! ## One delegation -/

section Programs

open Loans

variable {s t : Database} {id : AccountId} {a : AccountObject} {delta : ShareType}

theorem find?_loans (s : Database) (id : AccountId) :
    s.loans.accounts.find? id = (s.accounts.find? id).map AccountObject.loans :=
  FlatMap.find?_mapVals ..

/-- One account of the state is overwritten, and books change by what it has lent or borrowed more.
-/
theorem shifts_update {x : AccountObject} {δ ρ : ℤ} (hs : Distinct s.loans.accounts)
    (ha : s.accounts.find? id = some a) (hname : x.name = a.name)
    (hd : x.delegatedVestingShares.toInt = a.delegatedVestingShares.toInt + δ)
    (hr : x.receivedVestingShares.toInt = a.receivedVestingShares.toInt + ρ) :
    Shifts s.loans.accounts ((s.accounts.update id fun _ => x).objs.mapVals AccountObject.loans)
      (fun n => if a.name = n then δ else 0) fun n => if a.name = n then ρ else 0 := by
  have hloans : s.loans.accounts.find? id = some a.loans := by rw [find?_loans, ha]; rfl
  have hupdate : (s.accounts.update id fun _ => x).objs.mapVals AccountObject.loans =
    s.loans.accounts.update id fun _ => x.loans := FlatMap.mapVals_update ..
  rw [hupdate]
  exact Shifts.single hs hloans hname hd hr

theorem adjustDelegated_shifts (hs : Distinct s.loans.accounts) (ha : s.accounts.find? id = some a)
    (h : Runs (adjustDelegated id delta) s () t) :
    Shifts s.loans.accounts t.loans.accounts (fun n => if a.name = n then delta.toInt else 0)
      fun _ => 0 := by
  obtain ⟨a', x, ha', hx, rfl⟩ := runs_adjustDelegated.mp h
  obtain rfl := Option.some.inj (ha.symm.trans ha')
  have hshift := shifts_update (x := { a with delegatedVestingShares := x }) (ρ := 0) hs ha rfl hx
    (add_zero _).symm
  simp only [ite_self] at hshift
  exact hshift

theorem adjustReceived_shifts (hs : Distinct s.loans.accounts) (ha : s.accounts.find? id = some a)
    (h : Runs (adjustReceived id delta) s () t) :
    Shifts s.loans.accounts t.loans.accounts (fun _ => 0)
      fun n => if a.name = n then delta.toInt else 0 := by
  obtain ⟨a', x, ha', hx, rfl⟩ := runs_adjustReceived.mp h
  obtain rfl := Option.some.inj (ha.symm.trans ha')
  have hshift := shifts_update (x := { a with receivedVestingShares := x }) (δ := 0) hs ha rfl
    (add_zero _).symm hx
  simp only [ite_self] at hshift
  exact hshift

theorem find?_of_loans {x : AccountLoans} (h : s.loans.accounts.find? id = some x) :
    ∃ a, s.accounts.find? id = some a ∧ a.loans = x := by
  rw [find?_loans, Option.map_eq_some_iff] at h
  exact h

theorem increaseDelegation_shifts {from_ to_ : AccountId} {a b : AccountObject} {p q : Bool}
    (h : Runs (increaseDelegation from_ to_ p q delta) s () t) (hs : Distinct s.loans.accounts)
    (ha : s.accounts.find? from_ = some a) (hb : s.accounts.find? to_ = some b) :
    Shifts s.loans.accounts t.loans.accounts (fun n => if a.name = n then delta.toInt else 0)
      fun n => if b.name = n then delta.toInt else 0 := by
  obtain ⟨t1, t2, h1, h2, hacc, -, -⟩ := runs_increaseDelegation h
  have hshift1 := adjustDelegated_shifts hs ha h1
  obtain ⟨x, hx, hname⟩ := hshift1.forth (show s.loans.accounts.find? to_ = some b.loans by
    rw [find?_loans, hb]
    rfl)
  obtain ⟨b', hb', rfl⟩ := find?_of_loans hx
  have hshift2 := adjustReceived_shifts (hshift1.distinct hs) hb' h2
  have htotal := hshift1.trans hshift2
  have hname : b'.name = b.name := hname
  simp only [add_zero, zero_add, hname] at htotal
  have haccounts : t.loans.accounts = t2.loans.accounts :=
    congrArg (fun x : ObjectIndex AccountObject => x.objs.mapVals AccountObject.loans) hacc
  rw [haccounts]
  exact htotal

theorem decreaseDelegation_shifts {delegator : String} {to_ : AccountId} {b : AccountObject}
    {p q : Bool} {expiration : TimePointSec}
    (h : Runs (decreaseDelegation delegator to_ p q delta expiration) s () t)
    (hs : Distinct s.loans.accounts) (hb : s.accounts.find? to_ = some b) :
    Shifts s.loans.accounts t.loans.accounts (fun _ => 0)
      fun n => if b.name = n then -delta.toInt else 0 := by
  obtain ⟨t1, t2, minus, hminus, ht1, h2, hacc, -, -⟩ := runs_decreaseDelegation h
  have hsame : t1.loans.accounts = s.loans.accounts := by rw [ht1]; rfl
  have hshift := adjustReceived_shifts (hsame ▸ hs) (by rw [ht1]; exact hb) h2
  rw [hsame] at hshift
  have haccounts : t.loans.accounts = t2.loans.accounts :=
    congrArg (fun x : ObjectIndex AccountObject => x.objs.mapVals AccountObject.loans) hacc
  rw [haccounts, ← hminus]
  exact hshift

/-- A delegation that is made, increased or decreased keeps the loans balanced. -/
theorem Delegates.balanced {delegator delegatee : String} {amount available old : ShareType}
    {from_ to_ : AccountId} {a b : AccountObject} (hs : s.loans.Balanced)
    (ha : s.accounts.find? from_ = some a) (hb : s.accounts.find? to_ = some b)
    (hfrom : a.name = delegator) (hto : b.name = delegatee) (hamount : 0 ≤ amount.toInt)
    (h : Delegates delegator delegatee amount available from_ to_ s old t) : t.loans.Balanced := by
  have hknows : s.loans.Knows delegator ∧ s.loans.Knows delegatee :=
    ⟨⟨from_, a.loans, by rw [find?_loans, ha]; rfl, hfrom⟩,
      ⟨to_, b.loans, by rw [find?_loans, hb]; rfl, hto⟩⟩
  subst hfrom hto
  cases h with
  | first hnone hfree henough hrun =>
      -- a first delegation is a new object, and nothing comes back by it
      obtain ⟨-, -, -, -, -, hdel, hexp⟩ := runs_increaseDelegation hrun
      have hshift := increaseDelegation_shifts hrun hs.names ha hb
      exact hs.create (x := ⟨a.name, b.name, amount, s.dgpo.time⟩) hshift hfree hdel hexp
        hknows.1 hknows.2
  | @more p q k d delta t hfound hdelta hgrows henough hrun =>
      obtain ⟨hd, hsides⟩ := ObjectIndex.find?_of_findBy? hfound
      obtain ⟨h1, h2⟩ := of_decide_eq_true hsides
      obtain ⟨-, -, -, -, -, hdel, hexp⟩ := runs_increaseDelegation hrun
      have hshift := increaseDelegation_shifts hrun hs.names ha hb
      -- the object stays under its number; only the amount between the two changes
      refine hs.overwrite (x := { d with vestingShares := amount }) hd rfl rfl hshift
        (congrArg (ObjectIndex.update · _ _) hdel) ?_ ?_ ?_
      · intro k e he
        have he : t.delegationExpirations.find? k = some e := he
        rw [hexp] at he
        exact (hs.knownReturn he).shift hshift
      · intro n
        rw [returning_congr (l := s.loans) hexp, h1]
        simp only [hdelta]
      · intro n
        rw [h2]
        simp only [hdelta]
  | @less p q k d delta expiration t hfound hdelta hshrinks hpos hrun =>
      obtain ⟨hd, hsides⟩ := ObjectIndex.find?_of_findBy? hfound
      obtain ⟨h1, h2⟩ := of_decide_eq_true hsides
      obtain ⟨_, _, _, -, rfl, -, -, hdel, hexp⟩ := runs_decreaseDelegation hrun
      have hshift := decreaseDelegation_shifts hrun hs.names hb
      refine hs.overwrite (x := { d with vestingShares := amount }) hd rfl rfl hshift
        (congrArg (ObjectIndex.update · _ _) hdel) ?_ ?_ ?_
      · intro k e he
        have he : t.delegationExpirations.find? k = some e := he
        rw [hexp, ObjectIndex.find?_create] at he
        split at he
        · obtain rfl := Option.some.inj he
          exact hknows.1.shift hshift
        · exact (hs.knownReturn he).shift hshift
      · intro n
        rw [returning_create (l := s.loans) hexp, h1]
        simp only [hdelta]
        split <;> ring
      · intro n
        rw [h2]
        simp only [hdelta]
        split <;> ring
  | @none p q k d delta expiration t hfound hdelta hshrinks hzero hrun =>
      -- all of it is taken back: the object goes, and its shares are on their way
      obtain ⟨hd, hsides⟩ := ObjectIndex.find?_of_findBy? hfound
      obtain ⟨h1, h2⟩ := of_decide_eq_true hsides
      have hd : s.loans.delegations.find? k = some d := hd
      obtain ⟨_, _, _, -, rfl, -, -, hdel, hexp⟩ := runs_decreaseDelegation hrun
      have hshift := decreaseDelegation_shifts hrun hs.names hb
      have hsame : delta.toInt = d.vestingShares.toInt := by omega
      have hdel : ({ t with delegations := t.delegations.remove k } : Database).loans.delegations =
        s.loans.delegations.remove k := congrArg (ObjectIndex.remove · _) hdel
      refine hs.shift hshift ?_ ?_ ?_ ?_ ?_
      · intro n
        rw [returning_create (l := s.loans) hexp, outgoing, hdel, ObjectIndex.sum_remove hd, h1]
        simp only [outgoing, hsame]
        ring
      · intro n
        rw [incoming, hdel, ObjectIndex.sum_remove hd, h2]
        simp only [incoming, hsame]
        split <;> ring
      · rw [hdel]
        exact hs.unique.remove k
      · intro k e he
        rw [hdel] at he
        have he := find?_of_remove he
        exact ⟨(hs.known he).1.shift hshift, (hs.known he).2.shift hshift⟩
      · intro k e he
        have he : t.delegationExpirations.find? k = some e := he
        rw [hexp, ObjectIndex.find?_create] at he
        split at he
        · obtain rfl := Option.some.inj he
          exact hknows.1.shift hshift
        · exact (hs.knownReturn he).shift hshift

/-- A delegation that returns to the delegator leaves the loans balanced. -/
theorem returnDelegation_balanced {e : Entry VestingDelegationExpirationObject}
    (hs : s.loans.Balanced) (he : s.delegationExpirations.find? e.id = some e.val)
    (h : Runs (returnDelegation e) s () t) : t.loans.Balanced := by
  simp only [returnDelegation, runs_bind_findStreamingPlatform] at h
  rw [runs_bind] at h
  obtain ⟨_, t1, h1, h⟩ := h
  have hsame : t1.loans = s.loans := by
    rcases runs_whenM.mp h1 with ⟨-, h1⟩ | ⟨-, rfl⟩
    · obtain ⟨_, -, rfl⟩ := runs_adjustTotalVestedByPlatforms.mp h1
      rfl
    · rfl
  rw [← hsame] at hs
  replace he : t1.loans.expirations.find? e.id = some e.val := by rw [hsame]; exact he
  clear h1 hsame
  rw [runs_bind_getAccount] at h
  obtain ⟨a, ha, h⟩ := h
  obtain ⟨ha, hname⟩ := ObjectIndex.find?_of_findBy? ha
  have hname : a.val.name = e.val.delegator := of_decide_eq_true hname
  rw [runs_bind] at h
  obtain ⟨_, t2, h2, h⟩ := h
  obtain ⟨a', p, ha', hp, rfl⟩ := runs_modifyStake.mp h2
  obtain rfl := Option.some.inj (ha.symm.trans ha')
  simp only [except_bind_ok, except_pure_ok, safeSub_ok] at hp
  obtain ⟨x, hx, rfl⟩ := hp
  obtain rfl := Table.runs_remove.mp h
  have hshift := shifts_update (δ := -e.val.vestingShares.toInt) (ρ := 0)
    (x := { a.val with toAccountStake := { a.val.toAccountStake with delegatedVestingShares := x } })
    hs.names ha rfl hx (add_zero _).symm
  refine hs.shift hshift ?_ ?_ hs.unique ?_ ?_
  · intro n
    show t1.loans.outgoing n + (t1.loans.expirations.remove e.id).sum _ = _
    rw [ObjectIndex.sum_remove he, hname]
    simp only [returning]
    split <;> ring
  · intro n
    show t1.loans.incoming n = _
    simp only [ite_self, add_zero]
  · intro k d hd
    exact ⟨(hs.known hd).1.shift hshift, (hs.known hd).2.shift hshift⟩
  · intro k d hd
    exact (hs.knownReturn (@find?_of_remove _ t1.loans.expirations _ _ _ hd)).shift hshift

end Programs

/-! ## Programs beside the view -/

/-- The view of the loans is a part of the stakes. -/
theorem loans_of_stakes {s t : Database} (h : Cut.same Concern.stakes s t) : t.loans = s.loans := by
  have hview : ∀ u : Database, u.loans = ⟨u.stakes.accounts.mapVals fun p =>
      ⟨p.1, p.2.delegatedVestingShares, p.2.receivedVestingShares⟩, u.stakes.delegations,
      u.stakes.delegationExpirations⟩ := by
    intro u
    show Loans.mk _ _ _ = _
    congr 1
    refine FlatMap.ext ?_
    simp only [FlatMap.mapVals, Database.stakes, List.map_map]
    rfl
  rw [hview, hview, show t.stakes = s.stakes from h]

section Beside

/-- All concerns but the stakes, with which the loans do not change. -/
abbrev besideStakes : List Concern :=
  [.funds, .listening, .requests, .splits, .pools, .catalogue, .pending, .names, .clock, .rates,
    .feeds, .voting, .redelegations, .routes, .finality, .slots, .laps, .orders]

instance (priority := low) {α : Type} (m : DbM α) [Within besideStakes m] :
    Respects (Fixing Database.loans) m :=
  respects_of_within (D := besideStakes) loans_of_stakes (by decide)

instance : streamingPlatformIndex.Beside (Fixing Database.loans) := ⟨fun _ _ => rfl⟩
instance : contentIndex.Beside (Fixing Database.loans) := ⟨fun _ _ => rfl⟩
instance : reportIndex.Beside (Fixing Database.loans) := ⟨fun _ _ => rfl⟩

instance (delta : ShareType) : Respects (Fixing Database.loans) (adjustTotalVestedByPlatforms delta) :=
  ⟨fun hr => by
    obtain ⟨_, -, rfl⟩ := runs_adjustTotalVestedByPlatforms.mp hr
    rfl⟩

/-- A change of the stake that neither lends nor borrows. -/
theorem respects_modifyStake_loans (id : AccountId)
    (change : AccountStake → Except Exn AccountStake)
    (h : ∀ p q, change p = .ok q → q.delegatedVestingShares = p.delegatedVestingShares ∧
      q.receivedVestingShares = p.receivedVestingShares) :
    Respects (Fixing Database.loans) (modifyStake id change) :=
  ⟨fun {s _ _} hr => by
    obtain ⟨a, p, ha, hp, rfl⟩ := runs_modifyStake.mp hr
    obtain ⟨h1, h2⟩ := h _ _ hp
    have hsame : ({ a with toAccountStake := p } : AccountObject).loans = a.loans := by
      simp only [AccountObject.loans, h1, h2]
    show Loans.mk _ _ _ = _
    rw [ObjectIndex.mapVals_update_const ha hsame]
    rfl⟩

/-- More or fewer shares of one's own do not change what an account has lent and borrowed. -/
instance (id : AccountId) (x : ShareType) : Respects (Fixing Database.loans)
    (modifyStake id fun a => do
      let vestingShares ← safeAdd a.vestingShares x
      return { a with vestingShares }) :=
  respects_modifyStake_loans id _ fun p q h => by
    simp only [except_bind_ok, except_pure_ok] at h
    obtain ⟨_, -, rfl⟩ := h
    exact ⟨rfl, rfl⟩

instance (id : AccountId) (x : ShareType) :
    Respects (Fixing Database.loans) (modifyStake id (AccountStake.withdraw x)) :=
  respects_modifyStake_loans id _ fun p q h => by
    simp only [AccountStake.withdraw, except_bind_ok] at h
    obtain ⟨_, -, _, -, h⟩ := h
    split at h <;> cases h <;> exact ⟨rfl, rfl⟩

instance (id : AccountId) (x : ShareType) (now : TimePointSec) :
    Respects (Fixing Database.loans) (modifyStake id (AccountStake.startWithdrawal x now)) :=
  respects_modifyStake_loans id _ fun p q h => by
    simp only [AccountStake.startWithdrawal, except_bind_ok, except_pure_ok] at h
    obtain ⟨_, -, _, -, rfl⟩ := h
    exact ⟨rfl, rfl⟩

instance (id : AccountId) : Respects (Fixing Database.loans)
    (modifyStake id fun a => .ok { a with
      vestingWithdrawRate := 0
      nextVestingWithdrawal := 0xffffffff
      toWithdraw := 0
      withdrawn := 0 }) :=
  respects_modifyStake_loans id _ fun p q h => by
    cases h
    exact ⟨rfl, rfl⟩

instance (a : AccountId) (x : Asset) : Respects (Fixing Database.loans) (createVesting a x) := by
  unfold createVesting
  infer_instance

instance (w t : ShareType) (r : Entry WithdrawVestingRouteObject) :
    Respects (Fixing Database.loans) (depositVests w t r) := by
  unfold depositVests
  infer_instance

instance (a : AccountId) : Respects (Fixing Database.loans) (withdrawFrom a) := by
  unfold withdrawFrom
  infer_instance

instance (f t : String) (x : Asset) :
    Respects (Fixing Database.loans) (transferToVestingEvaluator f t x) := by
  unfold transferToVestingEvaluator
  infer_instance

instance (a : String) (x : Asset) :
    Respects (Fixing Database.loans) (withdrawVestingEvaluator a x) := by
  unfold withdrawVestingEvaluator
  infer_instance

instance (o : ContentUpdateOperation) : Respects (Fixing Database.loans) (contentUpdateEvaluator o) := by
  unfold contentUpdateEvaluator
  infer_instance

instance (a b : String) (r : Bool) :
    Respects (Fixing Database.loans) (challengeAuthorityEvaluator a b r) := by
  unfold challengeAuthorityEvaluator
  infer_instance

instance (owner url : String) (fee : Asset) :
    Respects (Fixing Database.loans) (streamingPlatformUpdateEvaluator owner url fee) := by
  unfold streamingPlatformUpdateEvaluator bookPlatformDelta modifyPlatformInfo
  infer_instance

end Beside

/-! ## New accounts -/

section Accounts

open Loans

variable {s t : Database} {a : AccountObject}

/-- A name that is free is free in the view. -/
theorem not_knows_of_any (h : s.accounts.any (fun b => a.name = b.name) = false) :
    ¬s.loans.Knows a.name := by
  rintro ⟨id, x, hx, hname⟩
  obtain ⟨b, hb, rfl⟩ := find?_of_loans hx
  have hnone := ObjectIndex.findBy?_eq_none.mp (Option.isNone_iff_eq_none.mp (by
    rw [← Option.not_isSome, show (s.accounts.findBy? _).isSome = _ from h]
    rfl))
  exact of_decide_eq_false (hnone id b hb) hname.symm

theorem loans_account_create (s : Database) (a : AccountObject) :
    ({ s with accounts := s.accounts.create a } : Database).loans =
      { s.loans with accounts := s.loans.accounts.set s.accounts.nextId a.loans } := by
  show Loans.mk ((s.accounts.objs.set s.accounts.nextId a).mapVals AccountObject.loans) _ _ = _
  rw [FlatMap.mapVals_set]
  rfl

theorem find?_loans_nextId (s : Database) : s.loans.accounts.find? s.accounts.nextId = none := by
  rw [find?_loans, show s.accounts.find? s.accounts.nextId = none from s.accounts.find?_nextId]
  rfl

/-- A new account that has lent and borrowed nothing keeps the loans of the state balanced. -/
theorem balanced_account_create (hs : s.loans.Balanced)
    (hfree : s.accounts.any (fun b => a.name = b.name) = false)
    (hd : a.delegatedVestingShares = 0) (hr : a.receivedVestingShares = 0) :
    ({ s with accounts := s.accounts.create a } : Database).loans.Balanced := by
  rw [loans_account_create]
  exact hs.insert (find?_loans_nextId s) (not_knows_of_any hfree) hd hr

/-- What leaves the view of the loans alone keeps them balanced. -/
theorem balanced_of_fixing {α : Type} {m : DbM α} {r : α} [h : Respects (Fixing Database.loans) m]
    (hs : s.loans.Balanced) (hr : Runs m s r t) : t.loans.Balanced := by
  rw [show t.loans = s.loans from h.rel hr]
  exact hs

theorem accountCreateEvaluator_balanced [Externals] {o : AccountCreateOperation}
    (hs : s.loans.Balanced) (h : Runs (accountCreateEvaluator o) s () t) : t.loans.Balanced := by
  obtain ⟨creator, t1, u, a, -, -, hdebit, rfl, hfree, rfl, hvest⟩ := runs_accountCreateEvaluator h
  have hcreated := balanced_account_create (balanced_of_fixing hs hdebit) hfree rfl rfl
  rcases hvest with ⟨-, r, hvest⟩ | ⟨-, rfl⟩
  · exact balanced_of_fixing hcreated hvest
  · exact hcreated

theorem accountCreateWithDelegationEvaluator_balanced {o : AccountCreateWithDelegationOperation}
    (hamount : 0 ≤ o.delegation.amount.toInt) (hs : s.loans.Balanced)
    (h : Runs (accountCreateWithDelegationEvaluator o) s () t) : t.loans.Balanced := by
  obtain ⟨creator, t1, t2, t3, u, a, x, hcreator, -, -, hx, hdebit, hstake, rfl, hfree, rfl, hu, hvest⟩ :=
    runs_accountCreateWithDelegationEvaluator h
  obtain ⟨hcreator, hname⟩ := ObjectIndex.find?_of_findBy? hcreator
  have hname : creator.val.name = o.creator := of_decide_eq_true hname
  have hloans : t1.loans = s.loans := Respects.rel (R := Fixing Database.loans) hdebit
  have hs1 : t1.loans.Balanced := hloans ▸ hs
  obtain ⟨c, hc, hcloans⟩ := find?_of_loans (s := t1) (x := creator.val.loans) (by
    rw [hloans, find?_loans, hcreator]
    rfl)
  have hcname : c.name = o.creator := (congrArg AccountLoans.name hcloans).trans hname
  have hshift : Shifts t1.loans.accounts t2.loans.accounts _ _ := adjustDelegated_shifts hs1.names hc hstake
  have hkept : t2.accounts.nextId = t1.accounts.nextId ∧ t2.delegations = t1.delegations ∧
      t2.delegationExpirations = t1.delegationExpirations := by
    obtain ⟨_, _, -, -, rfl⟩ := runs_adjustDelegated.mp hstake
    exact ⟨rfl, rfl, rfl⟩
  obtain ⟨hnext, hdel, hexp⟩ := hkept
  -- the new account, first without the delegation
  have hnot : ¬t1.loans.Knows o.newAccountName := fun hknows =>
    not_knows_of_any hfree (hknows.shift hshift)
  have hnew := hs1.insert (x := ⟨o.newAccountName, 0, 0⟩) (find?_loans_nextId t1) hnot rfl rfl
  have hne : c.name ≠ o.newAccountName := fun hsame => hnot
    ⟨creator.id, c.loans, by rw [find?_loans, hc]; rfl, hsame⟩
  have hboth := @Shifts.insert _ _ _ t1.accounts.nextId ⟨o.newAccountName, 0, x⟩ hshift (if_neg hne)
    rfl fun hk hname => hnot ⟨_, _, hk, hname⟩
  have haccounts : ({ t2 with accounts := t2.accounts.create (newAccount o.newAccountName o.owner
      o.active o.basic o.memoKey o.jsonMetadata "" x s.dgpo.time) } : Database).loans.accounts =
      t2.loans.accounts.set t1.accounts.nextId ⟨o.newAccountName, 0, x⟩ := by
    rw [loans_account_create, hnext]
    rfl
  rw [← haccounts] at hboth
  have hcreated : u.loans.Balanced := by
    rcases hu with ⟨hle, rfl⟩ | ⟨hunused, rfl⟩
    · have hzero : x.toInt = 0 := by rw [hx]; omega
      simp only [hzero, ite_self] at hboth
      exact hnew.congr hboth hdel hexp
    · rw [hcname] at hboth
      have hunused : t2.delegations.any (fun d =>
        o.creator = d.delegator ∧ o.newAccountName = d.delegatee) = false := hunused
      rw [hdel] at hunused
      refine hnew.create (x := ⟨o.creator, o.newAccountName, x, s.dgpo.time + 2592000⟩) hboth hunused
        (congrArg (ObjectIndex.create · _) hdel) hexp ?_ ?_
      · have hknows : t1.loans.Knows o.creator :=
          ⟨creator.id, c.loans, by rw [find?_loans, hc]; rfl, hcname⟩
        exact hknows.insert (find?_loans_nextId t1)
      · exact ⟨_, _, FlatMap.find?_set_self .., rfl⟩
  rcases hvest with ⟨-, r, hvest⟩ | ⟨-, rfl⟩
  · exact balanced_of_fixing hcreated hvest
  · exact hcreated

end Accounts

/-! ## Runs -/

section Runs

/-- The books of all accounts agree with the delegations in the state. -/
def Database.LoansBalanced (s : Database) : Prop := s.loans.Balanced

instance (change : DynamicGlobalPropertyObject → Except Exn DynamicGlobalPropertyObject) :
    Respects (Fixing Database.loans) (modifyDgpo change) :=
  ⟨fun hr => by
    obtain ⟨_, -, rfl⟩ := runs_modifyDgpo.mp hr
    rfl⟩

instance (priority := low) {α : Type} (m : DbM α) [h : Respects (Fixing Database.loans) m] :
    Respects (Holding Database.LoansBalanced) m :=
  ⟨fun hr hs => balanced_of_fixing hs hr⟩

theorem respects_accountCreate (a : AccountObject) (hd : a.delegatedVestingShares = 0)
    (hr : a.receivedVestingShares = 0) :
    Respects (Holding Database.LoansBalanced) (accountIndex.create a) :=
  ⟨fun h hs => by
    obtain ⟨hfree, -, rfl⟩ := Table.runs_create.mp h
    exact balanced_account_create hs hfree hd hr⟩

instance (name : String) (threshold : UInt32) :
    Respects (Holding Database.LoansBalanced) (accountIndex.create (keylessAccount name threshold)) :=
  respects_accountCreate _ rfl rfl

instance (name : String) (x : ShareType) :
    Respects (Holding Database.LoansBalanced) (createInitMiner name x) := by
  unfold createInitMiner
  have := respects_accountCreate
    { name, owner := Authority.ofKey 1 BTCM_INIT_PUBLIC_KEY 1
      active := Authority.ofKey 1 BTCM_INIT_PUBLIC_KEY 1
      basic := Authority.ofKey 1 BTCM_INIT_PUBLIC_KEY 1, memoKey := BTCM_INIT_PUBLIC_KEY
      balance := x } rfl rfl
  infer_instance

instance [Externals] (o : AccountCreateOperation) :
    Respects (Holding Database.LoansBalanced) (accountCreateEvaluator o) :=
  ⟨fun h hs => accountCreateEvaluator_balanced hs h⟩

instance [Externals] (g : GenesisState) :
    Respects (Holding Database.LoansBalanced) (initGenesis g) := by
  unfold initGenesis importAsset importBalance importVesting
  infer_instance

instance : Respects (Holding Database.LoansBalanced) clearExpiredDelegations :=
  ⟨fun h hs => by
    simp only [clearExpiredDelegations, runs_bind_headBlockTime, runs_bind_reads] at h
    exact due_induction (P := fun _ t => t.LoansBalanced)
      (fun _ _ _ _ _ ht he _ hr => returnDelegation_balanced ht he hr) h hs⟩

instance : Respects (Holding Database.LoansBalanced) settleBlock := by
  unfold settleBlock
  infer_instance

variable [Externals] {s s' : Database}

theorem evaluate_balanced {push : Nat → DbM Unit} {op : Operation}
    (hop : op.isProposalUpdate = false) (hv : op.validate = .ok ()) (hs : s.LoansBalanced)
    (h : Runs (evaluate push op) s () s') : s'.LoansBalanced := by
  cases op with
  | proposalUpdate o => cases hop
  | custom | escrowTransfer | escrowDispute | escrowRelease | virtualOperation =>
      first
        | exact absurd h runs_throw
        | rw [(runs_pure.mp h).2]; exact hs
  | accountCreate o => exact accountCreateEvaluator_balanced hs h
  | accountCreateWithDelegation o =>
      simp only [Operation.validate, AccountCreateWithDelegationOperation.validate, except_bind_ok,
        fcAssertE, fcAssert_ok, Asset.ge_ok] at hv
      obtain ⟨_, -, _, -, _, -, _, -, _, -, _, -, _, -, _, -, _, -, _, ⟨-, rfl⟩, hge⟩ := hv
      exact accountCreateWithDelegationEvaluator_balanced
        (Int64.le_iff_toInt_le.mp (of_decide_eq_true hge)) hs h
  | delegateVestingShares delegator delegatee vestingShares =>
      simp only [Operation.validate, except_bind_ok, fcAssertE, fcAssert_ok, Asset.ge_ok] at hv
      obtain ⟨_, -, _, -, _, -, _, -, _, ⟨-, rfl⟩, hge⟩ := hv
      obtain ⟨from_, to_, available, old, t, hfrom, hto, -, hbook, hredel⟩ :=
        runs_delegateVestingSharesEvaluator h
      obtain ⟨hfrom, hfromName⟩ := ObjectIndex.find?_of_findBy? hfrom
      obtain ⟨hto, htoName⟩ := ObjectIndex.find?_of_findBy? hto
      have hbooked := hbook.balanced hs hfrom hto (of_decide_eq_true hfromName)
        (of_decide_eq_true htoName) (Int64.le_iff_toInt_le.mp (of_decide_eq_true hge))
      exact balanced_of_fixing hbooked hredel
  | _ =>
      simp only [evaluate] at h
      exact balanced_of_fixing hs h

/-- In every reachable state the books agree with the objects. -/
theorem Reachable.loansBalanced (hs : Reachable s) : s.LoansBalanced := by
  induction hs with
  | @genesis g s h =>
      have hempty : ({} : Database).LoansBalanced := by
        refine ⟨?_, ?_, ?_, ?_, ?_, ?_⟩
        · intro i j a b ha
          cases ha
        · intro id a ha
          cases ha
        · intro id a ha
          cases ha
        · intro i j d e hd
          cases hd
        · intro id d hd
          cases hd
        · intro id e he
          cases he
      exact Respects.rel (R := Holding Database.LoansBalanced) h hempty
  | move hs _ hm ih =>
      exact (Move.run_induction (C := fun _ => True) (fun _ _ h => h)
        (fun _ _ _ _ hop hv _ h hr => evaluate_balanced hop hv h hr)
        (fun _ _ _ h hr => balanced_of_fixing h hr) (fun _ _ _ h hr => balanced_of_fixing h hr)
        (fun _ _ _ h hr => Respects.rel (R := Holding Database.LoansBalanced) hr h)
        (fun _ _ h hr => balanced_of_fixing h hr) hs.reachable.proposalsValid (fun _ _ => trivial)
        ih hm).1

omit [Externals] in
/-- Returning a delegation touches no delegation and nothing that is due later. -/
theorem returnDelegation_keeps {e : Entry VestingDelegationExpirationObject} {now : TimePointSec}
    (he : s.delegationExpirations.find? e.id = some e.val) (hdue : e.val.expiration < now)
    (h : Runs (returnDelegation e) s () s') :
    s'.delegations = s.delegations ∧
      s'.delegationExpirations = s.delegationExpirations.remove e.id ∧
      ∀ n, s'.loans.later now n = s.loans.later now n := by
  simp only [returnDelegation, runs_bind_findStreamingPlatform] at h
  rw [runs_bind] at h
  obtain ⟨_, t1, h1, h⟩ := h
  have hsame : t1.delegations = s.delegations ∧
      t1.delegationExpirations = s.delegationExpirations := by
    rcases runs_whenM.mp h1 with ⟨-, h1⟩ | ⟨-, rfl⟩
    · obtain ⟨_, -, rfl⟩ := runs_adjustTotalVestedByPlatforms.mp h1
      exact ⟨rfl, rfl⟩
    · exact ⟨rfl, rfl⟩
  rw [runs_bind_getAccount] at h
  obtain ⟨a, -, h⟩ := h
  rw [runs_bind] at h
  obtain ⟨_, t2, h2, h⟩ := h
  obtain ⟨_, _, -, -, rfl⟩ := runs_modifyStake.mp h2
  obtain rfl := Table.runs_remove.mp h
  refine ⟨hsame.1, congrArg (ObjectIndex.remove · _) hsame.2, fun n => ?_⟩
  show (t1.delegationExpirations.remove e.id).sum _ = _
  rw [hsame.2, ObjectIndex.sum_remove he, if_neg fun h => h.2 hdue, sub_zero]
  rfl

omit [Externals] in
/-- Clearing returns the delegations that are due to their delegators, and nothing else changes. -/
theorem clearExpiredDelegations_returns (h : Runs clearExpiredDelegations s () s') :
    s'.delegations = s.delegations ∧
      (∀ id e, s'.delegationExpirations.find? id = some e ↔
        s.delegationExpirations.find? id = some e ∧ ¬e.expiration < s.dgpo.time) ∧
      ∀ n, s'.loans.returning n = s.loans.later s.dgpo.time n := by
  simp only [clearExpiredDelegations, runs_bind_headBlockTime, runs_bind_reads] at h
  have hnone : ∀ {id e}, s'.delegationExpirations.find? id = some e → ¬e.expiration < s.dgpo.time :=
    fun he => of_decide_eq_false (due_exhausted (fun hle hb => by
      rw [decide_eq_true_eq, UInt32.lt_iff_toNat_lt] at hb ⊢
      omega) h he)
  let Kept : Unit → Database → Prop := fun _ t => t.delegations = s.delegations ∧
    (∀ id e, ¬e.expiration < s.dgpo.time → (t.delegationExpirations.find? id = some e ↔
      s.delegationExpirations.find? id = some e)) ∧
    (∀ id e, t.delegationExpirations.find? id = some e →
      s.delegationExpirations.find? id = some e) ∧
    ∀ n, t.loans.later s.dgpo.time n = s.loans.later s.dgpo.time n
  obtain ⟨hdel, hexp, hsub, hlater⟩ : Kept () s' := by
    refine due_induction (P := Kept) (fun _ _ e t u ht he hdue hr => ?_) h
      ⟨rfl, fun _ _ _ => Iff.rfl, fun _ _ h => h, fun _ => rfl⟩
    have he : t.delegationExpirations.find? e.id = some e.val := he
    have hdue := of_decide_eq_true hdue
    obtain ⟨hdel, hexp, hlater⟩ := returnDelegation_keeps he hdue hr
    refine ⟨hdel.trans ht.1, fun id d hd => ?_, fun id d hd => ?_, fun n => (hlater n).trans (ht.2.2.2 n)⟩
    · rw [← ht.2.1 id d hd, hexp, ObjectIndex.find?_remove]
      split
      case isTrue hid =>
        subst hid
        rw [he]
        refine ⟨(nomatch ·), fun h => ?_⟩
        obtain rfl := Option.some.inj h
        exact absurd hdue hd
      case isFalse => rfl
    · rw [hexp] at hd
      exact ht.2.2.1 id d (Loans.find?_of_remove hd)
  refine ⟨hdel, fun id e => ⟨fun he => ⟨hsub id e he, hnone he⟩, fun he => (hexp id e he.2).mpr he.1⟩,
    fun n => ?_⟩
  have hzero : s'.loans.due s.dgpo.time n = 0 :=
    ObjectIndex.sum_eq_zero fun k e he => if_neg fun h => hnone he h.2
  rw [Loans.returning_eq _ s.dgpo.time, hzero, zero_add, hlater]

/-- What accounts have delegated and received is what the delegations between them and the
returns under way add up to, and no two accounts have two delegations one way. Clearing
returns what is due, once, and keeps the rest. -/
theorem delegations_balance (hs : Reachable s) :
    (∀ id a, s.accounts.find? id = some a →
      a.delegatedVestingShares.toInt = s.loans.outgoing a.name + s.loans.returning a.name ∧
      a.receivedVestingShares.toInt = s.loans.incoming a.name) ∧
    (∀ i j d e, s.delegations.find? i = some d → s.delegations.find? j = some e →
      d.delegator = e.delegator → d.delegatee = e.delegatee → i = j) ∧
    ∀ t, Runs clearExpiredDelegations s () t →
      (∀ id e, t.delegationExpirations.find? id = some e ↔
        s.delegationExpirations.find? id = some e ∧ ¬e.expiration < s.dgpo.time) ∧
      ∀ id a, t.accounts.find? id = some a → ∃ b, s.accounts.find? id = some b ∧
        a.delegatedVestingShares.toInt =
          b.delegatedVestingShares.toInt - s.loans.due s.dgpo.time b.name ∧
        a.receivedVestingShares = b.receivedVestingShares := by
  have hl := hs.loansBalanced
  have hfind : ∀ {u : Database} {id a}, u.accounts.find? id = some a →
      u.loans.accounts.find? id = some a.loans := by
    intro u id a ha
    rw [find?_loans, ha]
    rfl
  refine ⟨fun id a ha => ⟨hl.delegated (hfind ha), hl.received (hfind ha)⟩,
    fun i j d e hd he => hl.unique hd he, fun t ht => ?_⟩
  obtain ⟨hdel, hexp, hreturning⟩ := clearExpiredDelegations_returns ht
  have hl' : t.LoansBalanced := Respects.rel (R := Holding Database.LoansBalanced) ht hl
  refine ⟨hexp, fun id a ha => ?_⟩
  have hnames : t.names = s.names := Writes.names_eq ht (by decide)
  have hname : (s.accounts.find? id).map AccountObject.name = some a.name := by
    have := congrArg (fun m => (Prod.fst m).find? id) hnames
    simp only [Database.names, FlatMap.find?_mapVals] at this
    rw [show s.accounts.find? id = s.accounts.objs.find? id from rfl, ← this,
      show t.accounts.objs.find? id = some a from ha]
    rfl
  obtain ⟨b, hb, hba⟩ := Option.map_eq_some_iff.mp hname
  have hout : t.loans.outgoing a.name = s.loans.outgoing a.name :=
    congrArg (fun ix => ObjectIndex.sum ix _) hdel
  have hin : t.loans.incoming a.name = s.loans.incoming a.name :=
    congrArg (fun ix => ObjectIndex.sum ix _) hdel
  refine ⟨b, hb, ?_, Int64.toInt_inj.mp ?_⟩
  · have ha := hl'.delegated (hfind ha)
    have hb := hl.delegated (hfind hb)
    have hsplit := Loans.returning_eq s.loans s.dgpo.time b.name
    simp only [AccountObject.loans, hba, hout, hreturning] at ha hb hsplit ⊢
    omega
  · have ha := hl'.received (hfind ha)
    have hb := hl.received (hfind hb)
    simp only [AccountObject.loans, hba, hin] at ha hb
    exact ha.trans hb.symm

end Runs

section Samples

open Sample

/-- A genesis in which `initminer` holds a million vesting shares. -/
def vestedGenesis : GenesisState where
  initialVestingBalances := [⟨3, 1000000, million_nonneg⟩]
  initSupply_nonneg := nothing_nonneg

/-- The second block after it, in which `initminer` lends half of its shares and takes back a
part. -/
def lendingBlock : SignedBlock where
  witness := "initminer1"
  timestamp := 1585422006
  transactions := [[.delegateVestingShares "initminer" "initminer1" (vests 500000)],
    [.delegateVestingShares "initminer" "initminer1" (vests 200000)]]

/-- 200000 shares are delegated and 300000 on their way back, as they are booked. -/
theorem lending_balances :
    ∃ s, Reachable s ∧ s.loans.outgoing "initminer" = 200000 ∧
      s.loans.returning "initminer" = 300000 ∧
      ∀ id a, s.accounts.find? id = some a →
        a.delegatedVestingShares.toInt = s.loans.outgoing a.name + s.loans.returning a.name ∧
        a.receivedVestingShares.toInt = s.loans.incoming a.name := by
  have hrun : leadsTo (replay vestedGenesis [⟨"initminer", 1585422003, []⟩, lendingBlock]) {} (fun s =>
      decide (s.loans.outgoing "initminer" = 200000 ∧ s.loans.returning "initminer" = 300000)) =
        true := by
    decide +kernel
  obtain ⟨s, hs, hloans⟩ := leadsTo_iff.mp hrun
  obtain ⟨hout, hback⟩ := of_decide_eq_true hloans
  exact ⟨s, replay_reachable hs, hout, hback, (delegations_balance (replay_reachable hs)).1⟩

end Samples

end BtcmChain
