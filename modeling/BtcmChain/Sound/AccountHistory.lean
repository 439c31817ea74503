import BtcmChain.Plugin.AccountHistory
import Mathlib.Tactic.Linarith

set_option autoImplicit false

/-!
# Whose operations are noted

Every account the plugin tracks has its operations, in order and without gaps. Which accounts these
are is another matter: the configured ranges are never read, so all accounts are tracked, and a range
that was read would track the account it starts with, if it ends before (`account_history_iff`).

`HistoryNotes` is the invariant: for every account the notes are its operations so far, numbered
without gaps. `account_history_iff` compares with the accounts that the configuration asks for
(`HistoriesOf`), and is exact: the two agree if no range was given, or everybody who is impacted in
the run is in one of them; and were the ranges read, it says on which accounts the test of the
plugin and the ranges differ. The examples are votes of accounts inside and outside a range.
-/

namespace BtcmChain

/-! ## The order of the index -/

namespace HistoryKey

def account (k : HistoryKey) : String := (ofLex k).1
def sequence (k : HistoryKey) : ℕ := OrderDual.ofDual (ofLex k).2

theorem eta (k : HistoryKey) : historyKey k.account k.sequence = k := rfl

theorem le_iff {a b : String} {m n : ℕ} : historyKey a m ≤ historyKey b n ↔ a < b ∨ (a = b ∧ n ≤ m) := by
  unfold historyKey
  rw [Prod.Lex.toLex_le_toLex, OrderDual.toDual_le_toDual]

theorem inj {a b : String} {m n : ℕ} (h : historyKey a m = historyKey b n) : a = b ∧ m = n := by
  obtain ⟨ha, hm⟩ := Prod.mk.inj (toLex_inj.mp h)
  exact ⟨ha, OrderDual.toDual_inj.mp hm⟩

end HistoryKey

/-! ## Recorded histories -/

/-- The operation noted for an account under a sequence number. -/
def HistoryState.recorded (s : HistoryState) (a : String) (n : ℕ) : Option (Option OperationObject) :=
  (s.byAccount.find? (historyKey a n)).map s.operations.find?

/-- For every account these operations are noted, with the numbers from 0 on. -/
structure HistoryNotes (s : HistoryState) (ls : String → List OperationObject) : Prop where
  recorded : ∀ a n, s.recorded a n = ((ls a)[n]?).map some
  fits : ∀ a, (ls a).length ≤ 2 ^ 32

section Rounds

variable {s s' : HistoryState} {ls : String → List OperationObject} {o opObj : OperationObject}
  {now : TimePointSec} {a item : String} {n : ℕ}

theorem HistoryNotes.isSome_iff (h : HistoryNotes s ls) :
    (s.byAccount.find? (historyKey a n)).isSome = true ↔ n < (ls a).length := by
  have hr := congrArg Option.isSome (h.recorded a n)
  rw [HistoryState.recorded, Option.isSome_map, Option.isSome_map] at hr
  rw [hr]
  simp

/-- The next sequence number of an account is that of its last entry and one, as far as 32 bits go.
-/
theorem HistoryNotes.nextSequence (h : HistoryNotes s ls) : s.nextSequence a = (ls a).length % 2 ^ 32 := by
  have hfits := h.fits a
  -- the last entry of the account, if it has any
  have hlast : 0 < (ls a).length → ∃ v, s.byAccount.find? (historyKey a ((ls a).length - 1)) = some v ∧
      historyKey a 4294967295 ≤ historyKey a ((ls a).length - 1) := by
    intro hpos
    have hsome := (h.isSome_iff (a := a) (n := (ls a).length - 1)).mpr (by omega)
    obtain ⟨v, hv⟩ := Option.isSome_iff_exists.mp hsome
    exact ⟨v, hv, HistoryKey.le_iff.mpr (.inr ⟨rfl, by omega⟩)⟩
  unfold HistoryState.nextSequence
  cases hbound : s.byAccount.lowerBound (historyKey a 4294967295) with
  | none =>
      have hall := FlatMap.lowerBound_eq_none.mp hbound
      have hzero : (ls a).length = 0 := by
        by_contra hne
        obtain ⟨v, hv, hle⟩ := hlast (Nat.pos_of_ne_zero hne)
        exact absurd (hall _ _ hv) (not_lt.mpr hle)
      rw [hzero, Nat.zero_mod]
  | some e =>
      obtain ⟨hfind, hge, hleast⟩ := FlatMap.lowerBound_eq_some.mp hbound
      rw [← HistoryKey.eta e.1] at hfind hge hleast
      show (if HistoryKey.account e.1 = a then (HistoryKey.sequence e.1 + 1) % 2 ^ 32 else 0) = _
      by_cases hacct : HistoryKey.account e.1 = a
      · rw [if_pos hacct]
        rw [hacct] at hfind hleast
        have hlt := h.isSome_iff.mp (Option.isSome_iff_exists.mpr ⟨e.2, hfind⟩)
        obtain ⟨v, hv, hle⟩ := hlast (by omega)
        rcases HistoryKey.le_iff.mp (hleast _ _ hv hle) with hlt' | ⟨-, hge'⟩
        · exact absurd hlt' (lt_irrefl a)
        · rw [show HistoryKey.sequence e.1 + 1 = (ls a).length by omega]
      · rw [if_neg hacct]
        have hzero : (ls a).length = 0 := by
          by_contra hne
          obtain ⟨v, hv, hle⟩ := hlast (Nat.pos_of_ne_zero hne)
          rcases HistoryKey.le_iff.mp (hleast _ _ hv hle) with hlt | ⟨heq, -⟩
          · rcases HistoryKey.le_iff.mp hge with hlt' | ⟨heq, -⟩
            · exact absurd hlt hlt'.asymm
            · exact hacct heq.symm
          · exact hacct heq
        rw [hzero, Nat.zero_mod]

theorem recorded_createOperation (h : HistoryNotes s ls) :
    HistoryNotes { s with operations := s.operations.create o } ls := by
  refine ⟨fun a n => ?_, h.fits⟩
  rw [← h.recorded a n]
  unfold HistoryState.recorded
  cases hid : s.byAccount.find? (historyKey a n) with
  | none => rfl
  | some id =>
      have hr := h.recorded a n
      rw [HistoryState.recorded, hid, Option.map_some] at hr
      obtain ⟨x, -, hx⟩ := Option.map_eq_some_iff.mp hr.symm
      have hne : id ≠ s.operations.nextId := by
        rintro rfl
        rw [show s.operations.find? s.operations.nextId = none from s.operations.find?_nextId] at hx
        cases hx
      rw [Option.map_some, Option.map_some, ObjectIndex.find?_create, if_neg hne]

/-- Noting an operation for an account puts it at the end of that account's history, and leaves the
others. -/
theorem visitAccount_notes {newObj r : Option Nat} (h : HistoryNotes s ls)
    (hnew : ∀ id, newObj = some id → s.operations.find? id = some { opObj with timestamp := now })
    (hr : Runs (visitAccount opObj now newObj item) s r s') :
    HistoryNotes s' (Function.update ls item (ls item ++ [{ opObj with timestamp := now }])) ∧
      s'.trackedAccounts = s.trackedAccounts ∧
      ∀ id, r = some id → s'.operations.find? id = some { opObj with timestamp := now } := by
  unfold visitAccount at hr
  rw [runs_bind] at hr
  obtain ⟨id, t, hid, hr⟩ := hr
  -- the operation is stored, now or before
  have ht : HistoryNotes t ls ∧ t.trackedAccounts = s.trackedAccounts ∧
      t.operations.find? id = some { opObj with timestamp := now } := by
    cases newObj with
    | some id' =>
        obtain ⟨rfl, rfl⟩ := runs_pure.mp hid
        exact ⟨h, rfl, hnew id rfl⟩
    | none =>
        cases hid
        refine ⟨recorded_createOperation h, rfl, ?_⟩
        show (s.operations.create _).find? s.operations.nextId = _
        rw [ObjectIndex.find?_create, if_pos rfl]
  obtain ⟨hnotes, htracked, hstored⟩ := ht
  rw [runs_bind_reads, runs_bind] at hr
  obtain ⟨_, u, hcreate, hr⟩ := hr
  obtain ⟨rfl, rfl⟩ := runs_pure.mp hr
  unfold Runs createAccountHistory at hcreate
  split at hcreate
  case isTrue => cases hcreate
  case isFalse hfree =>
  cases hcreate
  rw [hnotes.nextSequence] at hfree
  rw [hnotes.isSome_iff, not_lt] at hfree
  have hfits := hnotes.fits item
  have hlt : (ls item).length < 2 ^ 32 := by
    rcases hfits.lt_or_eq with hlt | heq
    · exact hlt
    · rw [heq] at hfree
      exact absurd hfree (by norm_num)
  have hseq : t.nextSequence item = (ls item).length := by
    rw [hnotes.nextSequence, Nat.mod_eq_of_lt hlt]
  refine ⟨⟨fun a n => ?_, fun a => ?_⟩, htracked, fun id' heq => Option.some.inj heq ▸ hstored⟩
  · unfold HistoryState.recorded
    rw [FlatMap.find?_set, hseq]
    by_cases hkey : historyKey a n = historyKey item (ls item).length
    · obtain ⟨rfl, rfl⟩ := HistoryKey.inj hkey
      rw [if_pos rfl, Function.update_self, Option.map_some, hstored, List.getElem?_concat_length]
      rfl
    · rw [if_neg hkey]
      refine (hnotes.recorded a n).trans ?_
      by_cases ha : a = item
      · subst ha
        have hne : n ≠ (ls a).length := fun heq => hkey (by rw [heq])
        rw [Function.update_self]
        rcases Nat.lt_or_gt_of_ne hne with hn | hn
        · rw [List.getElem?_append_left hn]
        · rw [List.getElem?_eq_none hn.le, List.getElem?_eq_none (by simpa using Nat.succ_le_of_lt hn)]
      · rw [Function.update_of_ne ha]
  · by_cases ha : a = item
    · subst ha
      rw [Function.update_self, List.length_append, List.length_singleton]
      exact hlt
    · rw [Function.update_of_ne ha]
      exact hnotes.fits a

/-- The loop over the impacted accounts notes the operation once for each of them that is tracked.
-/
theorem visit_fold {tracked : FlatMap String String} {l : List String} (hl : l.Nodup)
    {newObj r : Option Nat} (h : HistoryNotes s ls)
    (hnew : ∀ id, newObj = some id → s.operations.find? id = some { opObj with timestamp := now })
    (hr : Runs (l.foldlM (fun newObj item =>
      if isTracked tracked item then visitAccount opObj now newObj item else return newObj) newObj) s r s') :
    HistoryNotes s' (fun a => ls a ++ if a ∈ l ∧ isTracked tracked a = true
      then [{ opObj with timestamp := now }] else []) ∧ s'.trackedAccounts = s.trackedAccounts := by
  induction l generalizing s ls newObj with
  | nil =>
      obtain ⟨-, rfl⟩ := runs_pure.mp hr
      refine ⟨?_, rfl⟩
      simpa using h
  | cons b l ih =>
      obtain ⟨hb, hl⟩ := List.nodup_cons.mp hl
      rw [List.foldlM_cons, runs_bind] at hr
      obtain ⟨newObj1, s1, h1, hr⟩ := hr
      split at h1
      case isTrue htracked =>
        obtain ⟨hnotes1, hsame, hnew1⟩ := visitAccount_notes h hnew h1
        obtain ⟨hnotes, hsame'⟩ := ih hl hnotes1 hnew1 hr
        refine ⟨?_, hsame'.trans hsame⟩
        have heq : ∀ a, Function.update ls b (ls b ++ [{ opObj with timestamp := now }]) a ++
            (if a ∈ l ∧ isTracked tracked a = true then [{ opObj with timestamp := now }] else []) =
            ls a ++ if a ∈ b :: l ∧ isTracked tracked a = true
              then [{ opObj with timestamp := now }] else [] := by
          intro a
          by_cases ha : a = b
          · subst ha
            rw [Function.update_self, if_neg (fun h => hb h.1), if_pos ⟨List.mem_cons_self, htracked⟩,
              List.append_nil]
          · rw [Function.update_of_ne ha]
            simp only [List.mem_cons, ha, false_or]
        exact funext heq ▸ hnotes
      case isFalse htracked =>
        obtain ⟨rfl, rfl⟩ := runs_pure.mp h1
        obtain ⟨hnotes, hsame⟩ := ih hl h hnew hr
        refine ⟨?_, hsame⟩
        have heq : ∀ a, (a ∈ l ∧ isTracked tracked a = true) ↔
            (a ∈ b :: l ∧ isTracked tracked a = true) := by
          intro a
          constructor
          · exact fun ⟨ha, ht⟩ => ⟨List.mem_cons_of_mem b ha, ht⟩
          · rintro ⟨ha, ht⟩
            rcases List.mem_cons.mp ha with rfl | ha
            · exact absurd ht htracked
            · exact ⟨ha, ht⟩
        simpa only [heq] using hnotes

end Rounds

/-! ## Runs -/

/-- The operations of a run that impact an account, as they are stored. -/
def impacting (run : List (OperationObject × TimePointSec)) (a : String) : List OperationObject :=
  (run.filter fun e => e.1.op.impacted.has a).map fun e => { e.1 with timestamp := e.2 }

/-- The plugin along a run of operations, each with the head block time. -/
def historyAfter (run : List (OperationObject × TimePointSec)) : HistoryM Unit :=
  run.forM fun e => onOperationHistory e.1 e.2

theorem impacting_cons (e : OperationObject × TimePointSec) (run : List (OperationObject × TimePointSec))
    (a : String) : impacting (e :: run) a =
      (if e.1.op.impacted.has a = true then [{ e.1 with timestamp := e.2 }] else []) ++ impacting run a := by
  unfold impacting
  rw [List.filter_cons]
  split <;> rfl

section Runs

variable {s s' : HistoryState} {ls : String → List OperationObject} {tracked : FlatMap String String}
  {run : List (OperationObject × TimePointSec)}

theorem onOperation_notes {e : OperationObject × TimePointSec} (h : HistoryNotes s ls)
    (ht : s.trackedAccounts = tracked) (hr : Runs (onOperationHistory e.1 e.2) s () s') :
    HistoryNotes s' (fun a => ls a ++ if e.1.op.impacted.has a = true ∧ isTracked tracked a = true
      then [{ e.1 with timestamp := e.2 }] else []) ∧ s'.trackedAccounts = tracked := by
  unfold onOperationHistory at hr
  rw [runs_bind_reads, runs_bind] at hr
  obtain ⟨_, t, hfold, hr⟩ := hr
  obtain ⟨-, rfl⟩ := runs_pure.mp hr
  have hkeys : e.1.op.impacted.keys.Nodup :=
    (FlatMap.keys_sorted e.1.op.impacted).imp fun h => ne_of_lt h
  obtain ⟨hnotes, hsame⟩ := visit_fold hkeys h (by rintro id ⟨⟩) hfold
  simp only [FlatSet.mem_keys, ht] at hnotes
  exact ⟨hnotes, hsame.trans ht⟩

/-- **Whoever is tracked has its operations**: after a run, each tracked account's history is that
of the operations it is impacted by. -/
theorem historyAfter_notes (h : HistoryNotes s ls) (ht : s.trackedAccounts = tracked)
    (hr : Runs (historyAfter run) s () s') :
    HistoryNotes s' fun a => ls a ++ if isTracked tracked a = true then impacting run a else [] := by
  induction run generalizing s ls with
  | nil =>
      obtain ⟨-, rfl⟩ := runs_pure.mp hr
      simpa [impacting] using h
  | cons e run ih =>
      obtain ⟨_, t, h1, h2⟩ := runs_bind.mp hr
      obtain ⟨hnotes, ht'⟩ := onOperation_notes h ht h1
      have hnotes' := ih hnotes ht' h2
      have heq : ∀ a, (ls a ++ if e.1.op.impacted.has a = true ∧ isTracked tracked a = true
            then [{ e.1 with timestamp := e.2 }] else []) ++
          (if isTracked tracked a = true then impacting run a else []) =
          ls a ++ if isTracked tracked a = true then impacting (e :: run) a else [] := by
        intro a
        rw [impacting_cons, List.append_assoc]
        by_cases htracked : isTracked tracked a = true <;> simp [htracked]
      exact funext heq ▸ hnotes'

/-- The histories of a plugin that has just started are those of the operations it has seen since.
-/
theorem recorded_of_start (ht : s.trackedAccounts = tracked) (hops : s.byAccount = .empty)
    (hr : Runs (historyAfter run) s () s') (a : String) (n : ℕ) :
    s'.recorded a n = if isTracked tracked a = true then ((impacting run a)[n]?).map some else none := by
  have hstart : HistoryNotes s fun _ => [] :=
    ⟨fun a n => by rw [HistoryState.recorded, hops]; rfl, fun _ => Nat.zero_le _⟩
  have hnotes := (historyAfter_notes hstart ht hr).recorded a n
  rw [hnotes]
  split <;> simp

end Runs

/-! ## The configured ranges -/

/-- In one of the ranges [from, to), or there is none. -/
def inRanges (ranges : List (String × String)) (a : String) : Bool :=
  ranges.isEmpty || ranges.any fun r => decide (r.1 ≤ a ∧ a < r.2)

/-- An account in a range has exactly the operations that impact it, numbered from 0 on, and an
account outside has none. -/
def HistoriesOf (ranges : List (String × String)) (run : List (OperationObject × TimePointSec))
    (s : HistoryState) : Prop :=
  ∀ a n, s.recorded a n =
    if inRanges ranges a = true then ((impacting run a)[n]?).map some else none

/-- The ranges that the configuration gives for the option which is meant, whatever the code loads.
-/
def configuredRanges (dejsonify : String → Except Exn (String × String))
    (given : List (String × List String)) : Except Exn (List (String × String)) :=
  match given.find? fun o => decide (o.1 = "track-account-range") with
  | none => .ok []
  | some o => o.2.mapM dejsonify

/-- The test is passed by the account a range starts with, if the range ends before. -/
theorem isTracked_iff {tracked : FlatMap String String} {a : String} :
    isTracked tracked a = true ↔
      tracked.entries = [] ∨ ∃ to_, tracked.find? a = some to_ ∧ to_ < a := by
  unfold isTracked
  rw [Bool.or_eq_true, List.isEmpty_iff]
  refine or_congr Iff.rfl ?_
  cases hbound : tracked.lowerBound a with
  | none =>
      have hall := FlatMap.lowerBound_eq_none.mp hbound
      refine iff_of_false (fun h => by cases h) ?_
      rintro ⟨to_, hfind, -⟩
      exact lt_irrefl a (hall a to_ hfind)
  | some e =>
      obtain ⟨hfind, hge, hleast⟩ := FlatMap.lowerBound_eq_some.mp hbound
      rw [Option.any_some, decide_eq_true_eq]
      constructor
      · rintro ⟨hle, hlt⟩
        obtain heq : e.1 = a := le_antisymm hle hge
        exact ⟨e.2, heq ▸ hfind, hlt⟩
      · rintro ⟨to_, hto, hlt⟩
        have hle := hleast a to_ hto le_rfl
        obtain heq : e.1 = a := le_antisymm hle hge
        rw [heq, hto] at hfind
        exact ⟨hle, Option.some.inj hfind ▸ hlt⟩

section Ranges

variable {s s' : HistoryState} {tracked : FlatMap String String}
  {run : List (OperationObject × TimePointSec)}

/-- The histories are those of the ranges just if the accounts that occur pass the test when they are
in a range. -/
theorem historiesOf_iff {ranges : List (String × String)} (ht : s.trackedAccounts = tracked)
    (hops : s.byAccount = .empty) (hr : Runs (historyAfter run) s () s') :
    HistoriesOf ranges run s' ↔ ∀ e ∈ run, ∀ a, e.1.op.impacted.has a = true →
      (isTracked tracked a = true ↔ inRanges ranges a = true) := by
  have hrecorded := recorded_of_start ht hops hr
  have hsome : ∀ {a}, impacting run a ≠ [] → ((impacting run a)[0]?).map some ≠ none := by
    intro a hne
    cases hl : impacting run a with
    | nil => exact absurd hl hne
    | cons o l => simp
  constructor
  · intro h e he a ha
    have hne : impacting run a ≠ [] := by
      have hmem : e ∈ run.filter fun e => e.1.op.impacted.has a := List.mem_filter.mpr ⟨he, ha⟩
      exact List.ne_nil_of_mem (List.mem_map_of_mem hmem)
    have heq := (hrecorded a 0).symm.trans (h a 0)
    by_cases htracked : isTracked tracked a = true <;> by_cases hin : inRanges ranges a = true
    · exact iff_of_true htracked hin
    · rw [if_pos htracked, if_neg hin] at heq
      exact absurd heq (hsome hne)
    · rw [if_neg htracked, if_pos hin] at heq
      exact absurd heq.symm (hsome hne)
    · exact iff_of_false htracked hin
  · intro h a n
    rw [hrecorded]
    by_cases hoccurs : impacting run a = []
    · simp [hoccurs]
    · -- somebody who occurs
      obtain ⟨o, ho⟩ := List.exists_mem_of_ne_nil _ hoccurs
      obtain ⟨e, he, -⟩ := List.mem_map.mp ho
      obtain ⟨he, ha⟩ := List.mem_filter.mp he
      simp only [h e he a ha]

/-- **The histories are those of the configured ranges** just if there is none or everybody who occurs
is in one of them; and if ranges were read, just if those in a range start one that ends before. -/
theorem account_history_iff (run : List (OperationObject × TimePointSec)) (s' : HistoryState) :
    (∀ (dejsonify : String → Except Exn (String × String)) (given : List (String × List String))
      (ranges : List (String × String)) (s : HistoryState), configuredRanges dejsonify given = .ok ranges →
      pluginInitialize dejsonify (variablesMap given) = .ok s → Runs (historyAfter run) s () s' →
      (HistoriesOf ranges run s' ↔ ranges = [] ∨
        ∀ e ∈ run, ∀ a, e.1.op.impacted.has a = true → ∃ r ∈ ranges, r.1 ≤ a ∧ a < r.2)) ∧
    ∀ tracked : FlatMap String String, Runs (historyAfter run) { trackedAccounts := tracked } () s' →
      (HistoriesOf tracked.entries run s' ↔ tracked.entries = [] ∨
        ∀ e ∈ run, ∀ a, e.1.op.impacted.has a = true →
          ((∃ to_, tracked.find? a = some to_ ∧ to_ < a) ↔
            ∃ r ∈ tracked.entries, r.1 ≤ a ∧ a < r.2)) := by
  have hin : ∀ (ranges : List (String × String)) (a : String), inRanges ranges a = true ↔
      ranges = [] ∨ ∃ r ∈ ranges, r.1 ≤ a ∧ a < r.2 := by
    intro ranges a
    simp [inRanges]
  constructor
  · intro dejsonify given ranges s _ hinit hr
    -- the name that is looked for is not registered
    have hnone : (variablesMap given).find? (fun o => decide (o.1 = "tracked-accounts")) = none := by
      rw [List.find?_eq_none]
      intro o ho hname
      have hreg := of_decide_eq_true (List.mem_filter.mp ho).2
      rw [of_decide_eq_true hname] at hreg
      exact absurd hreg (by decide)
    rw [pluginInitialize, loadValueSet, hnone] at hinit
    obtain rfl := Except.ok.inj hinit
    rw [historiesOf_iff rfl rfl hr]
    have hall : ∀ a, isTracked .empty a = true := fun _ => rfl
    constructor
    · intro h
      by_cases hranges : ranges = []
      · exact .inl hranges
      · exact .inr fun e he a ha => ((hin ranges a).mp ((h e he a ha).mp (hall a))).resolve_left hranges
    · rintro (rfl | h) e he a ha
      · exact iff_of_true (hall a) rfl
      · exact iff_of_true (hall a) ((hin ranges a).mpr (.inr (h e he a ha)))
  · intro tracked hr
    rw [historiesOf_iff rfl rfl hr]
    simp only [isTracked_iff, hin]
    by_cases hempty : tracked.entries = []
    · simp [hempty]
    · simp [hempty]

end Ranges

/-! ### A vote -/

/-- The first operation of a block: a vote of the given account, for a song. -/
def voteOf (voter : String) : OperationObject × TimePointSec :=
  ({ block := 1, op := .operation (.vote voter "ipfs://song" 1) }, 1585422003)

/-- Without ranges every account is tracked, and the vote is noted for Alice alone. -/
theorem vote_noted_for_alice : ∃ s', Runs (historyAfter [voteOf "alice"]) {} () s' ∧
    HistoriesOf [] [voteOf "alice"] s' := by
  obtain ⟨s', hs', -⟩ := leadsTo_iff.mp
    (show leadsTo (historyAfter [voteOf "alice"]) {} (fun _ => true) = true by decide +kernel)
  have hiff := (account_history_iff [voteOf "alice"] s').1 (fun _ => .ok ("", "")) [] [] {} rfl rfl hs'
  exact ⟨s', hs', hiff.mpr (.inl rfl)⟩

/-- With the range from Alice to Bob, a vote is noted for Zoe. -/
theorem vote_noted_for_zoe : ¬ ∀ (dejsonify : String → Except Exn (String × String))
    (given : List (String × List String)) (ranges : List (String × String))
    (run : List (OperationObject × TimePointSec)) (s s' : HistoryState),
    configuredRanges dejsonify given = .ok ranges →
    pluginInitialize dejsonify (variablesMap given) = .ok s → Runs (historyAfter run) s () s' →
    HistoriesOf ranges run s' := by
  intro hclaim
  obtain ⟨s', hs', hnoted⟩ := leadsTo_iff.mp
    (show leadsTo (historyAfter [voteOf "zoe"]) {} (fun s =>
      (s.byAccount.find? (historyKey "zoe" 0)).isSome) = true by decide +kernel)
  have hranges := hclaim (fun _ => .ok ("alice", "bob"))
    [("track-account-range", ["[\"alice\",\"bob\"]"])] [("alice", "bob")] [voteOf "zoe"] {} s' rfl rfl
    hs' "zoe" 0
  rw [if_neg (by decide +kernel), HistoryState.recorded, Option.map_eq_none_iff] at hranges
  rw [hranges] at hnoted
  cases hnoted

end BtcmChain
