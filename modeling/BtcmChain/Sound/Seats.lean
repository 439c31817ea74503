import BtcmChain.Sound.WitnessSchedule

set_option autoImplicit false
set_option synthInstance.maxSize 10000000
set_option synthInstance.maxHeartbeats 200000

/-!
# Who is seated

The seats of a round go to the twenty keyed witnesses with the most votes and to the next one
of the virtual schedule. Both passes draw from one list of witnesses in two orders, so what the
second pass takes is drawn from what the first one left (`selected_perm`); size, freedom from
duplicates and the rest follow from that. Shuffling only permutes the seats.
-/

namespace BtcmChain

/-! ## Shuffling -/

theorem swapSeats_perm {l : List String} {i j : Nat} (hi : i < l.length) (hj : j < l.length) :
    (swapSeats l i j).Perm l := by
  have hperm : (l.toArray.swap i j hi hj).Perm l.toArray := Array.swap_perm hi hj
  rw [Array.perm_iff_toList_perm] at hperm
  have heq : (l.toArray.swap i j hi hj).toList = swapSeats l i j := by
    simp [swapSeats, List.getD_eq_getElem?_getD, hi, hj]
  rw [heq] at hperm
  exact hperm

/-- The partner of a seat is a seat, whatever the generator yields. -/
theorem shufflePartner_lt {now : TimePointSec} {i size : Nat} (hi : i < size) :
    shufflePartner now i size < size := by
  have hmod : ∀ k : Nat, i + k % (size - i) < size := by
    intro k
    have hlt := Nat.mod_lt k (Nat.sub_pos_of_lt hi)
    omega
  exact hmod _

/-- At every block time, shuffling is a permutation of the seats. -/
theorem shuffleWitnesses_perm (now : TimePointSec) (l : List String) :
    (shuffleWitnesses now l).Perm l := by
  have hloop : ∀ (is : List Nat) (cur : List String), (∀ i ∈ is, i < cur.length) →
      (is.foldl (fun l i => swapSeats l i (shufflePartner now i l.length)) cur).Perm cur := by
    intro is
    induction is with
    | nil => exact fun cur _ => .refl cur
    | cons i is ih =>
        intro cur his
        have hi : i < cur.length := his i List.mem_cons_self
        have hswap := swapSeats_perm hi (@shufflePartner_lt now i _ hi)
        refine (ih _ fun k hk => ?_).trans hswap
        rw [hswap.length_eq]
        exact his k (List.mem_cons_of_mem _ hk)
  exact hloop _ l fun i hi => List.mem_range.mp hi

/-! ## Selection -/

section Selection

variable {s : Database}

/-- The witnesses that can sign, with their numbers. -/
def Database.keyedWitnesses (s : Database) : List (Nat × WitnessObject) :=
  s.witnesses.entries.filter fun w => w.2.signingKey ≠ 0

/-- No two witnesses share a name; the index over the names is a unique one. -/
def Database.WitnessesDistinct (s : Database) : Prop :=
  ∀ i j v w, s.witnesses.find? i = some v → s.witnesses.find? j = some w → v.owner = w.owner → i = j

/-- The witness comes before the other one in the order of the votes. -/
def WitnessObject.Outranks (v w : WitnessObject) : Prop :=
  w.votes < v.votes ∨ (v.votes = w.votes ∧ v.owner < w.owner)

instance (v w : WitnessObject) : Decidable (v.Outranks w) :=
  inferInstanceAs (Decidable (_ ∨ _))

/-- The witnesses that can sign, by their votes. -/
def Database.ranked (s : Database) : List (Nat × WitnessObject) :=
  s.witnessesByVote.filter fun w => w.2.signingKey ≠ 0

theorem ranked_perm (s : Database) : s.ranked.Perm s.keyedWitnesses :=
  (List.perm_insertionSort _ _).filter _

/-- What the virtual schedule seats: the first keyed witnesses that have no seat yet. -/
theorem runnersUp_seats (voted : List Nat) (count : Nat) (ws : List (Nat × WitnessObject)) :
    (runnersUp voted count ws).2 =
      ((ws.filter fun w => w.2.signingKey ≠ 0 ∧ w.1 ∉ voted).take (21 - count)).map
        fun w => w.2.owner := by
  induction ws generalizing count with
  | nil => simp [runnersUp]
  | cons w ws ih =>
      unfold runnersUp
      split
      case isTrue hcount =>
        split
        case isTrue hw =>
          have htake : 21 - count = 21 - (count + 1) + 1 := by omega
          rw [List.filter_cons_of_pos (by simpa using hw), htake, List.take_succ_cons, List.map_cons,
            ← ih (count + 1)]
        case isFalse hw =>
          rw [List.filter_cons_of_neg (by simpa using hw), ← ih count]
      case isFalse hcount =>
        rw [show 21 - count = 0 by omega, List.take_zero]
        rfl

theorem nodup_keyed (s : Database) : (s.keyedWitnesses.map Prod.fst).Nodup :=
  (s.witnesses.objs.nodup_keys).sublist (List.filter_sublist.map _)

/-- Of a list without duplicate keys, what is not among the first `n` comes after them. -/
theorem filter_notMem_take {κ α : Type} [DecidableEq κ] {l : List (κ × α)}
    (h : (l.map Prod.fst).Nodup) (n : Nat) :
    (l.filter fun e => e.1 ∉ (l.take n).map Prod.fst) = l.drop n := by
  have hdisjoint : ∀ e ∈ l.drop n, e.1 ∉ (l.take n).map Prod.fst := by
    rw [← List.take_append_drop n l, List.map_append, List.nodup_append] at h
    exact fun e he hmem => h.2.2 e.1 hmem e.1 (List.mem_map_of_mem he) rfl
  calc (l.filter fun e => e.1 ∉ (l.take n).map Prod.fst)
      = (l.take n ++ l.drop n).filter fun e => e.1 ∉ (l.take n).map Prod.fst := by
        rw [List.take_append_drop]
    _ = [] ++ l.drop n := by
        rw [List.filter_append]
        congr 1
        · exact List.filter_eq_nil_iff.mpr fun e he => by simpa using List.mem_map_of_mem he
        · exact List.filter_eq_self.mpr fun e he => decide_eq_true (hdisjoint e he)

theorem nodup_ranked (s : Database) : (s.ranked.map Prod.fst).Nodup :=
  ((ranked_perm s).map Prod.fst).nodup_iff.mpr (nodup_keyed s)

/-- The second pass draws from what the first one left. -/
theorem unseated_perm (s : Database) :
    (s.witnessesBySchedule.filter fun w =>
      w.2.signingKey ≠ 0 ∧ w.1 ∉ s.votedWitnesses.map Prod.fst).Perm (s.ranked.drop 20) := by
  have hdrop : (s.witnessesByVote.filter fun w =>
      w.2.signingKey ≠ 0 ∧ w.1 ∉ s.votedWitnesses.map Prod.fst) = s.ranked.drop 20 := by
    rw [← filter_notMem_take (nodup_ranked s) 20, Database.ranked, List.filter_filter]
    refine List.filter_congr fun w _ => ?_
    rw [Bool.and_comm]
    exact Bool.decide_and _ _
  have hperm : s.witnessesBySchedule.Perm s.witnessesByVote := by
    unfold Database.witnessesBySchedule Database.witnessesByVote
    exact (List.perm_insertionSort _ _).trans (List.perm_insertionSort _ _).symm
  exact hdrop ▸ hperm.filter _

/-- The seats are those of the first twenty and of some of the others. -/
theorem selected_eq (s : Database) : ∃ rest : List (Nat × WitnessObject),
    rest.Perm (s.ranked.drop 20) ∧
      s.selected = (s.ranked.take 20 ++ rest.take (21 - (s.ranked.take 20).length)).map
        fun w => w.2.owner := by
  refine ⟨_, unseated_perm s, ?_⟩
  rw [List.map_append, Database.selected, Database.runners, runnersUp_seats]
  rfl

/-- The seats of a round as they should be: different witnesses that can sign, those with the most
votes among them. -/
structure Database.Seated (s : Database) (seats : List String) : Prop where
  nodup : seats.Nodup
  size : seats.length = min 21 s.keyedWitnesses.length
  keyed : ∀ name ∈ seats, ∃ w ∈ s.keyedWitnesses, w.2.owner = name
  /-- Whoever is outranked by fewer than twenty keyed witnesses has a seat. -/
  top : ∀ w ∈ s.keyedWitnesses,
    (s.keyedWitnesses.countP fun v => v.2.Outranks w.2) < 20 → w.2.owner ∈ seats

theorem Database.Seated.perm {l l' : List String} (h : s.Seated l) (hperm : l'.Perm l) :
    s.Seated l' where
  nodup := hperm.nodup_iff.mpr h.nodup
  size := hperm.length_eq.trans h.size
  keyed name hname := h.keyed name (hperm.mem_iff.mp hname)
  top w hw hrank := hperm.mem_iff.mpr (h.top w hw hrank)

theorem nodup_owners (hd : s.WitnessesDistinct) :
    (s.keyedWitnesses.map fun w => w.2.owner).Nodup := by
  refine List.Nodup.map_on (fun v hv w hw howner => ?_) (nodup_keyed s).of_map
  have hfind : ∀ {e}, e ∈ s.keyedWitnesses → s.witnesses.find? e.1 = some e.2 :=
    fun he => ObjectIndex.mem_entries_iff.mp (List.mem_of_mem_filter he)
  have hid := hd v.1 w.1 v.2 w.2 (hfind hv) (hfind hw) howner
  refine Prod.ext hid ?_
  have hw' := hfind hw
  rw [← hid, hfind hv] at hw'
  exact Option.some.inj hw'

/-- Whoever is earlier in the ranking outranks whoever is later in it. -/
theorem pairwise_ranked (hd : s.WitnessesDistinct) :
    s.ranked.Pairwise fun v w => v.2.Outranks w.2 := by
  have hsorted : s.witnessesByVote.Pairwise fun a b : Nat × WitnessObject =>
      b.2.votes < a.2.votes ∨ (a.2.votes = b.2.votes ∧ a.2.owner ≤ b.2.owner) := by
    have : Std.Total fun a b : Nat × WitnessObject =>
        b.2.votes < a.2.votes ∨ (a.2.votes = b.2.votes ∧ a.2.owner ≤ b.2.owner) := ⟨fun a b => by
      rcases lt_trichotomy a.2.votes.toInt b.2.votes.toInt with h | h | h
      · exact .inr (.inl (Int64.lt_iff_toInt_lt.mpr h))
      · have h := Int64.toInt_inj.mp h
        rcases le_total a.2.owner b.2.owner with ho | ho
        · exact .inl (.inr ⟨h, ho⟩)
        · exact .inr (.inr ⟨h.symm, ho⟩)
      · exact .inl (.inl (Int64.lt_iff_toInt_lt.mpr h))⟩
    have : IsTrans (Nat × WitnessObject) fun a b =>
        b.2.votes < a.2.votes ∨ (a.2.votes = b.2.votes ∧ a.2.owner ≤ b.2.owner) := ⟨fun a b c => by
      rintro (h1 | ⟨h1, ho1⟩) (h2 | ⟨h2, ho2⟩)
      · exact .inl (Int64.lt_trans h2 h1)
      · exact .inl (h2 ▸ h1)
      · exact .inl (h1 ▸ h2)
      · exact .inr ⟨h1.trans h2, ho1.trans ho2⟩⟩
    exact List.pairwise_insertionSort _ _
  have hnames : (s.ranked.map fun w => w.2.owner).Nodup :=
    ((ranked_perm s).map _).nodup_iff.mpr (nodup_owners hd)
  refine ((hsorted.sublist List.filter_sublist).and (List.pairwise_map.mp hnames)).imp ?_
  rintro v w ⟨h | ⟨hv, ho⟩, hne⟩
  · exact .inl h
  · exact .inr ⟨hv, lt_of_le_of_ne ho hne⟩

/-- The selection before shuffling seats the witnesses as they should be. -/
theorem selected_seated (hd : s.WitnessesDistinct) : s.Seated s.selected := by
  obtain ⟨rest, hrest, hsel⟩ := selected_eq s
  have hall : (s.ranked.take 20 ++ rest).Perm s.keyedWitnesses := by
    refine (hrest.append_left _).trans ?_
    rw [List.take_append_drop]
    exact ranked_perm s
  have hsub : (s.ranked.take 20 ++ rest.take (21 - (s.ranked.take 20).length)).Sublist
      (s.ranked.take 20 ++ rest) := (List.take_sublist _ _).append_left _
  rw [hsel]
  refine ⟨?_, ?_, ?_, ?_⟩
  · exact ((hall.map _).nodup_iff.mpr (nodup_owners hd)).sublist (hsub.map _)
  · have hlen := (ranked_perm s).length_eq
    have hleft := hrest.length_eq
    rw [List.length_drop] at hleft
    simp only [List.length_map, List.length_append, List.length_take]
    omega
  · intro name hname
    obtain ⟨w, hw, rfl⟩ := List.mem_map.mp hname
    exact ⟨w, hall.mem_iff.mp (hsub.subset hw), rfl⟩
  · intro w hw hrank
    refine List.mem_map_of_mem (List.mem_append_left _ ?_)
    have hw := (ranked_perm s).mem_iff.mpr hw
    rw [← List.take_append_drop 20 s.ranked, List.mem_append] at hw
    refine hw.resolve_right fun hlow => ?_
    -- whoever is not among the first twenty is outranked by all of them
    have hpair := pairwise_ranked hd
    rw [← List.take_append_drop 20 s.ranked, List.pairwise_append] at hpair
    have hfull : (s.ranked.take 20).length = 20 := by
      have hpos := List.length_pos_of_mem hlow
      rw [List.length_drop] at hpos
      rw [List.length_take]
      omega
    have hcount : 20 ≤ s.ranked.countP fun v => v.2.Outranks w.2 := by
      have htop : (s.ranked.take 20).countP (fun v => v.2.Outranks w.2) = 20 := by
        rw [List.countP_eq_length.mpr fun v hv => decide_eq_true (hpair.2.2 v hv w hlow), hfull]
      exact htop ▸ (List.take_sublist 20 s.ranked).countP_le
    rw [(ranked_perm s).countP_eq] at hcount
    omega

end Selection

/-! ## The update succeeds -/

section Succeeds

variable {s s' : Database}

theorem exists_lapTime {votes : ShareType} (h : votes ≠ -1) : ∃ lap, lapTime votes = .ok lap :=
  ⟨_, UInt128.div_ok.mpr ⟨UInt128.ofShare_ne_zero (succ_ne_zero_of_ne h), rfl⟩⟩

/-- No witness of the state has minus one vote, by which a lap would be divided. -/
def Database.Moving (s : Database) : Prop :=
  ∀ id v, s.voting.witnesses.find? id = some v → v ≠ -1

theorem Database.find?_votes (s : Database) (id : Nat) :
    s.voting.witnesses.find? id = (s.witnesses.find? id).map WitnessObject.votes :=
  FlatMap.find?_mapVals ..

theorem Database.OnCourse.moving (h : s.OnCourse) : s.Moving := by
  intro id v hv
  rw [s.find?_votes] at hv
  obtain ⟨w, hw, rfl⟩ := Option.map_eq_some_iff.mp hv
  exact (h.witness hw).moving

theorem exists_advanceWitnesses {time : UInt128} {ws : List (Nat × WitnessObject)}
    (hvotes : ∀ e ∈ ws, e.2.votes ≠ -1) (hfound : ∀ e ∈ ws, (s.witnesses.find? e.1).isSome) :
    ∃ b s', Runs (advanceWitnesses time ws) s b s' := by
  induction ws generalizing s with
  | nil => exact ⟨false, s, runs_pure.mpr ⟨rfl, rfl⟩⟩
  | cons e ws ih =>
      obtain ⟨lap, hlap⟩ := exists_lapTime (hvotes e List.mem_cons_self)
      simp only [advanceWitnesses, runs_bind_ofExcept, hlap, Except.ok.injEq, exists_eq_left',
        runs_ite]
      by_cases hfits : time + lap < time
      · exact ⟨true, s, .inl ⟨hfits, runs_pure.mpr ⟨rfl, rfl⟩⟩⟩
      · obtain ⟨w, hw⟩ := Option.isSome_iff_exists.mp (hfound e List.mem_cons_self)
        obtain ⟨b, s', hrest⟩ := ih (s := { s with
            witnesses := s.witnesses.update e.1 fun _ => { w with
              virtualPosition := 0
              virtualLastUpdate := time
              virtualScheduledTime := time + lap } })
          (fun f hf => hvotes f (List.mem_cons_of_mem _ hf)) fun f hf => by
            show ((s.witnesses.update e.1 fun _ => _).find? f.1).isSome
            rw [ObjectIndex.find?_update]
            split
            · rw [hw]
              rfl
            · exact hfound f (List.mem_cons_of_mem _ hf)
        exact ⟨b, s', .inr ⟨hfits, runs_bind.mpr ⟨(), _, Table.runs_modify.mpr ⟨w, _, hw, rfl, rfl⟩,
          hrest⟩⟩⟩

theorem exists_resetVirtualScheduleTime (h : s.Moving) :
    ∃ s', Runs resetVirtualScheduleTime s () s' := by
  obtain ⟨s', hr, -⟩ := exists_runs_forM (s := { s with witnessSchedule := { s.witnessSchedule with
      currentVirtualTime := 0 } }) (l := s.witnesses.entries)
    (f := fun w => witnessIndex.modify w.1 fun w => do
      let lap ← lapTime w.votes
      return { w with virtualPosition := 0, virtualLastUpdate := 0, virtualScheduledTime := lap })
    (P := fun t => t.voting.witnesses = s.voting.witnesses) (fun e he t ht => by
      have hvotes : t.voting.witnesses.find? e.1 = some e.2.votes := by
        rw [ht, s.find?_votes, ObjectIndex.mem_entries_iff.mp he]
        rfl
      rw [t.find?_votes] at hvotes
      obtain ⟨w, hw, hwe⟩ := Option.map_eq_some_iff.mp hvotes
      have hne : w.votes ≠ -1 := by
        refine h e.1 w.votes ?_
        rw [← ht, t.find?_votes, hw]
        rfl
      obtain ⟨lap, hlap⟩ := exists_lapTime hne
      refine ⟨_, Table.runs_modify.mpr ⟨w, { w with
        virtualPosition := 0, virtualLastUpdate := 0, virtualScheduledTime := lap }, hw, ?_, rfl⟩, ?_⟩
      · rw [hlap]
        rfl
      · rw [← ht]
        exact @ObjectIndex.mapVals_update_const _ _ _ _ _ _ WitnessObject.votes hw rfl) rfl
  exact ⟨s', runs_bind.mpr ⟨(), _, rfl, runs_bind_reads.mpr hr⟩⟩

/-- The median exists for every list that is not empty. -/
theorem exists_medianBy {α : Type} [LE α] [DecidableRel fun (a b : α) => a ≤ b]
    (key : ChainProperties → α) {active : List WitnessObject} (h : active ≠ []) :
    ∃ p, medianBy key active = some p := by
  have hlt : active.length / 2 < ((active.map WitnessObject.props).insertionSort
      fun a b => key a ≤ key b).length := by
    rw [List.length_insertionSort, List.length_map]
    have hpos := List.length_pos_of_ne_nil h
    omega
  exact ⟨_, List.getElem?_eq_getElem hlt⟩

theorem exists_updateMedianWitnessProps (hne : s.witnessSchedule.currentShuffledWitnesses ≠ [])
    (hfound : ∀ name ∈ s.witnessSchedule.currentShuffledWitnesses,
      ∃ e, s.witnesses.findBy? (fun w => decide (w.owner = name)) = some e) :
    ∃ s', Runs updateMedianWitnessProps s () s' := by
  have hloop : ∀ (names : List String) (acc : List WitnessObject),
      (∀ name ∈ names, ∃ e, s.witnesses.findBy? (fun w => decide (w.owner = name)) = some e) →
      ∃ active : List WitnessObject, active.length = acc.length + names.length ∧
        Runs (names.foldlM (fun (acc : List WitnessObject) name => do
          let w ← getWitness name
          return acc ++ [w.val]) acc) s active s := by
    intro names
    induction names with
    | nil => exact fun acc _ => ⟨acc, rfl, runs_pure.mpr ⟨rfl, rfl⟩⟩
    | cons name names ih =>
        intro acc hnames
        obtain ⟨e, he⟩ := hnames name List.mem_cons_self
        obtain ⟨active, hlen, hr⟩ := ih (acc ++ [e.2]) fun n hn => hnames n (List.mem_cons_of_mem _ hn)
        refine ⟨active, ?_, ?_⟩
        · simp only [hlen, List.length_append, List.length_cons, List.length_nil]
          omega
        · rw [List.foldlM_cons]
          have hget : Runs (getWitness name) s ⟨e.1, e.2⟩ s := Table.runs_getBy.mpr ⟨he, rfl⟩
          exact runs_bind.mpr ⟨_, s, runs_bind.mpr ⟨_, s, hget, runs_pure.mpr ⟨rfl, rfl⟩⟩, hr⟩
  obtain ⟨active, hlen, hactive⟩ := hloop _ [] hfound
  have hactive_ne : active ≠ [] := by
    have hpos := List.length_pos_of_ne_nil hne
    exact List.ne_nil_of_length_pos (by omega)
  obtain ⟨p, hp⟩ := exists_medianBy (·.accountCreationFee.amount) hactive_ne
  obtain ⟨q, hq⟩ := exists_medianBy (·.streamingPlatformUpdateFee.amount) hactive_ne
  obtain ⟨r, hr⟩ := exists_medianBy (·.maximumBlockSize) hactive_ne
  obtain ⟨x, hx⟩ := exists_medianBy (·.mbdInterestRate) hactive_ne
  unfold updateMedianWitnessProps
  simp only [runs_bind_reads]
  refine exists_runs_bind hactive ?_
  simp only [hp, hq, hr, hx, Option.elim_some]
  exact exists_runs_bind rfl (exists_runs_bind rfl (exists_runs_bind rfl ⟨_, rfl⟩))

/-- From a state in which everybody is on course and names are unique, the update succeeds and
seats whom it should. -/
theorem exists_updateWitnessSchedule4 (h : s.OnCourse) (hd : s.WitnessesDistinct)
    (hkey : s.keyedWitnesses ≠ []) :
    ∃ s', Runs updateWitnessSchedule4 s () s' ∧
      s.Seated s'.witnessSchedule.currentShuffledWitnesses := by
  have hseated := selected_seated hd
  obtain ⟨overflowed, t, hadvance⟩ := @exists_advanceWitnesses s s.reachedTime s.runners.1
    (fun e he => (h.witness (find?_of_mem_runners he)).moving)
    fun e he => by rw [find?_of_mem_runners he]; rfl
  obtain ⟨u, hreset⟩ : ∃ u, Runs (whenM overflowed resetVirtualScheduleTime) t () u := by
    cases overflowed with
    | false => exact ⟨t, runs_whenM.mpr (.inr ⟨rfl, rfl⟩)⟩
    | true =>
        have hmoving : t.Moving := by
          unfold Database.Moving
          rw [Writes.voting_eq hadvance (by decide)]
          exact h.moving
        obtain ⟨u, hu⟩ := exists_resetVirtualScheduleTime hmoving
        exact ⟨u, runs_whenM.mpr (.inl ⟨rfl, hu⟩)⟩
  have hwrites : Writes (whenM overflowed resetVirtualScheduleTime) [.laps] := ⟨by infer_instance⟩
  have hrates : u.rates = s.rates := by
    rw [Writes.rates_eq hreset (by decide), Writes.rates_eq hadvance (by decide)]
  have hperm := shuffleWitnesses_perm u.dgpo.time s.selected
  obtain ⟨s', hmedian⟩ := exists_updateMedianWitnessProps (s := { u with
      witnessSchedule := { u.witnessSchedule with
        currentShuffledWitnesses := shuffleWitnesses u.dgpo.time s.selected
        currentVirtualTime := if overflowed then 0 else s.reachedTime
        nextShuffleBlockNum := u.dgpo.headBlockNumber + UInt32.ofNat s.selected.length } })
    (by
      have hpos := List.length_pos_of_ne_nil hkey
      refine List.ne_nil_of_length_pos ?_
      show 0 < (shuffleWitnesses u.dgpo.time s.selected).length
      rw [hperm.length_eq, hseated.size]
      omega)
    (by
      intro name hname
      obtain ⟨w, hw, rfl⟩ := hseated.keyed name (hperm.mem_iff.mp hname)
      -- the witness is still there, under the same name
      have hfound : s.rates.1.find? w.1 = some (w.2.owner, w.2.mbdExchangeRate) := by
        refine (FlatMap.find?_mapVals ..).trans ?_
        exact congrArg (Option.map _) (ObjectIndex.mem_entries_iff.mp (List.mem_of_mem_filter hw))
      rw [← hrates] at hfound
      obtain ⟨v, hv, hnames⟩ := Option.map_eq_some_iff.mp ((FlatMap.find?_mapVals ..).symm.trans hfound)
      cases hby : u.witnesses.findBy? (fun x => decide (x.owner = w.2.owner)) with
      | none =>
          have hno := ObjectIndex.findBy?_eq_none.mp hby w.1 v hv
          exact absurd (congrArg Prod.fst hnames) (of_decide_eq_false hno)
      | some e => exact ⟨e, rfl⟩)
  refine ⟨s', runs_updateWitnessSchedule4.mpr ⟨overflowed, t, u, hadvance, hreset, ?_, hmedian⟩, ?_⟩
  · rw [hseated.size]
    omega
  · have hseats : s'.witnessSchedule.currentShuffledWitnesses =
        shuffleWitnesses u.dgpo.time s.selected :=
      congrArg Prod.snd (Writes.rates_eq hmedian (by decide))
    rw [hseats]
    exact hseated.perm hperm

end Succeeds

/-! ## Runs -/

section Runs

variable {s s' : Database}

theorem Database.WitnessesDistinct.congr (h : s.WitnessesDistinct) (hr : s'.rates.1 = s.rates.1) :
    s'.WitnessesDistinct := by
  have hname : ∀ {id w}, s'.witnesses.find? id = some w →
      ∃ v, s.witnesses.find? id = some v ∧ v.owner = w.owner := by
    intro id w hw
    have hfound : s'.rates.1.find? id = some (w.owner, w.mbdExchangeRate) :=
      (FlatMap.find?_mapVals ..).trans (congrArg (Option.map _) hw)
    rw [hr] at hfound
    obtain ⟨v, hv, heq⟩ := Option.map_eq_some_iff.mp ((FlatMap.find?_mapVals ..).symm.trans hfound)
    exact ⟨v, hv, congrArg Prod.fst heq⟩
  intro i j v w hv hw howner
  obtain ⟨v', hv', hveq⟩ := hname hv
  obtain ⟨w', hw', hweq⟩ := hname hw
  exact h i j v' w' hv' hw' (hveq.trans (howner.trans hweq.symm))

theorem Database.WitnessesDistinct.create (h : s.WitnessesDistinct) {w : WitnessObject}
    (hfree : s.witnesses.any (fun v => w.owner = v.owner) = false) :
    Database.WitnessesDistinct { s with witnesses := s.witnesses.create w } := by
  have hother : ∀ {id v}, s.witnesses.find? id = some v → v.owner ≠ w.owner := by
    intro id v hv heq
    have hnone : s.witnesses.findBy? (fun v => w.owner = v.owner) = none := by
      simpa [ObjectIndex.any] using hfree
    exact of_decide_eq_false (ObjectIndex.findBy?_eq_none.mp hnone id v hv) heq.symm
  intro i j x y hx hy howner
  have hx : (s.witnesses.create w).find? i = some x := hx
  have hy : (s.witnesses.create w).find? j = some y := hy
  rw [ObjectIndex.find?_create] at hx hy
  split at hx <;> split at hy
  case isTrue.isTrue hi hj => exact hi.trans hj.symm
  case isTrue.isFalse =>
    obtain rfl := Option.some.inj hx
    exact absurd howner.symm (hother hy)
  case isFalse.isTrue =>
    obtain rfl := Option.some.inj hy
    exact absurd howner (hother hx)
  case isFalse.isFalse => exact h i j x y hx hy howner

/-- A witness that is changed under its name leaves the witnesses distinct. -/
theorem Database.WitnessesDistinct.update (h : s.WitnessesDistinct) {id : Nat} {v w : WitnessObject}
    (hv : s.witnesses.find? id = some v) (hw : w.owner = v.owner) :
    Database.WitnessesDistinct { s with witnesses := s.witnesses.update id fun _ => w } := by
  have hname : ∀ {k x}, (s.witnesses.update id fun _ => w).find? k = some x →
      ∃ y, s.witnesses.find? k = some y ∧ y.owner = x.owner := by
    intro k x hx
    rw [ObjectIndex.find?_update] at hx
    split at hx
    case isTrue hk =>
      obtain ⟨_, -, rfl⟩ := Option.map_eq_some_iff.mp hx
      exact ⟨v, hk ▸ hv, hw.symm⟩
    case isFalse => exact ⟨x, hx, rfl⟩
  intro i j x y hx hy howner
  obtain ⟨x', hx', hxeq⟩ := hname hx
  obtain ⟨y', hy', hyeq⟩ := hname hy
  exact h i j x' y' hx' hy' (hxeq.trans (howner.trans hyeq.symm))

/-- All concerns but the witnesses and their rates. -/
abbrev besideRates : List Concern :=
  [.funds, .stakes, .listening, .requests, .splits, .pools, .catalogue, .pending, .names, .clock,
    .feeds, .voting, .redelegations, .routes, .finality, .slots, .laps, .orders]

theorem distinct_of_within {α : Type} {m : DbM α} [h : Within besideRates m] {x : α}
    (hs : s.WitnessesDistinct) (hr : Runs m s x s') : s'.WitnessesDistinct :=
  hs.congr (congrArg Prod.fst (h.same (i := .rates) (by decide) hr))

instance (priority := low) {α : Type} (m : DbM α) [Within besideRates m] :
    Respects (Holding Database.WitnessesDistinct) m :=
  ⟨fun hr hs => distinct_of_within hs hr⟩

instance (change : WitnessScheduleObject → WitnessScheduleObject) :
    Respects (Holding Database.WitnessesDistinct) (modifySchedule change) :=
  ⟨fun hr hs => by
    cases hr
    exact hs⟩

instance : Respects (Holding Database.WitnessesDistinct) updateWitnessSchedule4 := by
  unfold updateWitnessSchedule4
  infer_instance

instance : Respects (Holding Database.WitnessesDistinct) settleBlock := by
  unfold settleBlock updateWitnessSchedule
  infer_instance

instance (name : String) (x : ShareType) :
    Respects (Holding Database.WitnessesDistinct) (createInitMiner name x) :=
  ⟨fun hr hs => by
    obtain ⟨_, t, haccount, hr⟩ := runs_bind.mp hr
    have ht : t.WitnessesDistinct := distinct_of_within hs haccount
    simp only [runs_bind_create, runs_pure] at hr
    obtain ⟨hfree, -, rfl⟩ := hr
    exact ht.create hfree⟩

variable [Externals]

instance (g : GenesisState) : Respects (Holding Database.WitnessesDistinct) (initGenesis g) := by
  unfold initGenesis importAsset importBalance importVesting
  infer_instance

/-- An evaluator leaves the names of the witnesses unique. -/
theorem evaluate_witnessesDistinct {push : Nat → DbM Unit} {op : Operation}
    (hop : op.isProposalUpdate = false) (h : s.WitnessesDistinct)
    (hr : Runs (evaluate push op) s () s') : s'.WitnessesDistinct := by
  cases hi : op.writes .rates with
  | false => exact h.congr (congrArg Prod.fst (evaluate_same (i := .rates) hop hi hr))
  | true =>
      cases op <;> first | exact (Bool.false_ne_true hi).elim | skip
      case witnessUpdate o =>
        simp only [evaluate, witnessUpdateEvaluator, runs_bind_getAccount, runs_bind_require,
          runs_bind_findBy?, runs_bind_headBlockTime] at hr
        obtain ⟨_, -, -, hr⟩ := hr
        generalize ObjectIndex.findBy? _ _ = found at hr
        cases found with
        | none =>
            simp only [Option.map_none, Option.elim_none, runs_bind_create, runs_pure] at hr
            obtain ⟨hfree, -, rfl⟩ := hr
            exact h.create hfree
        | some w =>
            simp only [Option.map_some, Option.elim_some, Table.runs_modify] at hr
            obtain ⟨x, _, hx, hy, rfl⟩ := hr
            cases hy
            exact h.update hx rfl
      case feedPublish publisher rate =>
        simp only [evaluate, feedPublishEvaluator, getWitness, runs_bind_getBy,
          runs_bind_headBlockTime, Table.runs_modify] at hr
        obtain ⟨e, -, x, _, hx, hy, rfl⟩ := hr
        cases hy
        exact h.update hx rfl

/-- In every reachable state the names of the witnesses are unique. -/
theorem Reachable.witnessesDistinct (hs : Reachable s) : s.WitnessesDistinct := by
  induction hs with
  | genesis h =>
      have hempty : ({} : Database).WitnessesDistinct := fun _ _ _ _ hv => by cases hv
      exact Respects.rel (R := Holding Database.WitnessesDistinct) h hempty
  | move hs _ hm ih =>
      exact (Move.run_induction (P := Database.WitnessesDistinct) (C := fun _ => True)
        (fun _ _ h => h) (fun _ _ _ _ hop _ _ h hr => evaluate_witnessesDistinct hop h hr)
        (fun _ _ _ h hr => distinct_of_within h hr) (fun _ _ _ h hr => distinct_of_within h hr)
        (fun _ _ _ h hr => Respects.rel (R := Holding Database.WitnessesDistinct) hr h)
        (fun _ _ h hr => distinct_of_within h hr) hs.reachable.proposalsValid (fun _ _ => trivial)
        ih hm).1

/-- In every state with a witness that can sign, `update_witness_schedule4` produces a schedule:
without duplicates, with as many seats as it can fill, of keyed witnesses only, and with
the top twenty among them. The shuffle is a permutation at every block time. -/
theorem schedule_sound (hs : Reachable s) (hkey : ∃ id w, s.witnesses.find? id = some w ∧
    w.signingKey ≠ 0) :
    (∃ s', Runs updateWitnessSchedule4 s () s' ∧
      s.Seated s'.witnessSchedule.currentShuffledWitnesses) ∧
    ∀ now l, (shuffleWitnesses now l).Perm l := by
  refine ⟨exists_updateWitnessSchedule4 hs.onCourse hs.witnessesDistinct ?_, shuffleWitnesses_perm⟩
  obtain ⟨id, w, hw, hk⟩ := hkey
  refine List.ne_nil_of_mem (a := (id, w)) ?_
  exact List.mem_filter.mpr ⟨ObjectIndex.mem_entries_iff.mpr hw, decide_eq_true hk⟩

end Runs

section Samples

open Sample

/-- With the three witnesses of genesis, the first update seats all three. -/
theorem genesis_round_seated :
    ∃ s s', Reachable s ∧ Runs updateWitnessSchedule4 s () s' ∧ s.keyedWitnesses.length = 3 ∧
      s'.witnessSchedule.currentShuffledWitnesses.length = 3 := by
  have hrun : leadsTo (initGenesis {}) {} (fun s =>
      decide ((s.witnesses.find? 0).any (fun w => decide (w.signingKey ≠ 0)) = true ∧
        s.keyedWitnesses.length = 3)) = true := by
    decide +kernel
  obtain ⟨s, hs, hkey⟩ := leadsTo_iff.mp hrun
  obtain ⟨hkey, hthree⟩ := of_decide_eq_true hkey
  have hsome : ∃ id w, s.witnesses.find? id = some w ∧ w.signingKey ≠ 0 := by
    cases hw : s.witnesses.find? 0 with
    | none => rw [hw] at hkey; cases hkey
    | some w =>
        rw [hw] at hkey
        exact ⟨0, w, hw, of_decide_eq_true hkey⟩
  obtain ⟨s', hr, hseated⟩ := (schedule_sound (.genesis hs) hsome).1
  refine ⟨s, s', .genesis hs, hr, hthree, ?_⟩
  rw [hseated.size, hthree]
  rfl

end Samples

end BtcmChain
