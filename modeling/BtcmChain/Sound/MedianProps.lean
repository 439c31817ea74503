import BtcmChain.Sound.Seats

set_option autoImplicit false
set_option synthInstance.maxSize 10000000
set_option synthInstance.maxHeartbeats 200000

/-!
# The medians of the proposed properties

`update_median_witness_props` sorts the active witnesses by one amount after the other and stores
what the one in the middle proposes. The amounts are medians, however equal ones are ordered. A fee
is stored with its asset, which is not compared, and no witness is asked to propose BTCM: a fee in
another asset that comes to lie in the middle is one that nobody can pay (`vests_in_the_middle`).
-/

namespace BtcmChain

/-- What the scheduled witnesses propose, in the order of the round. -/
def Database.scheduledProps (s : Database) : Option (List ChainProperties) :=
  s.witnessSchedule.currentShuffledWitnesses.mapM fun name =>
    (s.witnesses.findBy? fun w => decide (w.owner = name)).map fun e => e.2.props

/-- One of the four sorts of `active`, and who lies in the middle then. -/
def SortedMiddle (key : ChainProperties → ℤ) (active sorted : List ChainProperties)
    (middle : ChainProperties) : Prop :=
  SortedBy key active sorted ∧ sorted[active.length / 2]? = some middle

/-- The state with other median properties: each of four proposals gives one of the values. -/
def Database.withMedians (s : Database) (creation platform size rate : ChainProperties) : Database :=
  { s with
    witnessSchedule := { s.witnessSchedule with medianProps := { s.witnessSchedule.medianProps with
      accountCreationFee := creation.accountCreationFee
      streamingPlatformUpdateFee := platform.streamingPlatformUpdateFee } }
    dgpo := { s.dgpo with
      maximumBlockSize := size.maximumBlockSize
      mbdInterestRate := rate.mbdInterestRate } }

/-- `update_median_witness_props` with any `std::sort`: each sort starts with what the one before
left, and may leave equal keys in any order. -/
inductive MedianUpdate (active : List ChainProperties) (s : Database) : Database → Prop
  | intro {byCreation byPlatform bySize byRate : List ChainProperties}
      {creation platform size rate : ChainProperties}
      (hcreation : SortedMiddle (·.accountCreationFee.amount.toInt) active byCreation creation)
      (hplatform : SortedMiddle (·.streamingPlatformUpdateFee.amount.toInt) byCreation byPlatform
        platform)
      (hsize : SortedMiddle (·.maximumBlockSize.toNat) byPlatform bySize size)
      (hrate : SortedMiddle (·.mbdInterestRate.toNat) bySize byRate rate) :
      MedianUpdate active s (s.withMedians creation platform size rate)

/-- A fee as it should be: proposed, a median of the amounts, and payable in BTCM. -/
structure GoodFee (fee : ChainProperties → Asset) (active : List ChainProperties) (v : Asset) :
    Prop where
  proposed : ∃ p ∈ active, fee p = v
  median : IsMedian (active.map fun p => (fee p).amount.toInt) v.amount.toInt
  inBtcm : v.assetId = BTCM_SYMBOL
  payable : ∀ x : ShareType, v.amount ≤ x → (btcm x).ge v = .ok true

/-- All four values are as they should be: medians of what the scheduled witnesses propose. -/
structure MedianHolds (active : List ChainProperties) (s : Database) : Prop where
  creation : GoodFee (·.accountCreationFee) active s.witnessSchedule.medianProps.accountCreationFee
  platform : GoodFee (·.streamingPlatformUpdateFee) active
    s.witnessSchedule.medianProps.streamingPlatformUpdateFee
  size : IsMedian (active.map fun p => (p.maximumBlockSize.toNat : ℤ)) s.dgpo.maximumBlockSize.toNat
  rate : IsMedian (active.map fun p => (p.mbdInterestRate.toNat : ℤ)) s.dgpo.mbdInterestRate.toNat

/-- Whoever proposes a fee in another asset does not get it into the middle: so many amounts are
less, or so few are not more. -/
def OthersAside (fee : ChainProperties → Asset) (active : List ChainProperties) : Prop :=
  ∀ p ∈ active, (fee p).assetId ≠ BTCM_SYMBOL →
    active.length / 2 < active.countP (fun q => (fee q).amount.toInt < (fee p).amount.toInt) ∨
      active.countP (fun q => (fee q).amount.toInt ≤ (fee p).amount.toInt) ≤ active.length / 2

variable {key : ChainProperties → ℤ} {fee : ChainProperties → Asset}
  {active sorted : List ChainProperties} {middle p : ChainProperties} {s s' : Database}

/-! ## One sort -/

namespace SortedMiddle

theorem perm (h : SortedMiddle key active sorted middle) : sorted.Perm active := h.1.1

/-- It does not matter in which order the witnesses lay before they were sorted. -/
theorem of_perm (h : SortedMiddle key sorted active middle) {before : List ChainProperties}
    (hperm : sorted.Perm before) : SortedMiddle key before active middle :=
  ⟨h.1.trans_perm hperm, hperm.length_eq ▸ h.2⟩

theorem isMedian (h : SortedMiddle key active sorted middle) :
    IsMedian (active.map key) (key middle) := h.1.isMedian h.2

/-- A list that is not empty has a middle, whatever it is sorted by. -/
theorem exists_of_ne_nil (key : ChainProperties → ℤ) (h : active ≠ []) :
    ∃ sorted middle, SortedMiddle key active sorted middle := by
  have hsorted := sortedBy_insertionSort key active
  have hpos := List.length_pos_of_ne_nil h
  have hlt : active.length / 2 < (active.insertionSort fun a b => key a ≤ key b).length := by
    rw [hsorted.1.length_eq]
    omega
  exact ⟨_, _, hsorted, List.getElem?_eq_getElem hlt⟩

/-- If fees in other assets stay aside, the middle one is as it should be. -/
theorem goodFee (h : SortedMiddle (fun p => (fee p).amount.toInt) active sorted middle)
    (haside : OthersAside fee active) : GoodFee fee active (fee middle) := by
  obtain ⟨hmem, hbelow, habove⟩ := h.1.rank h.2
  have hbtcm : (fee middle).assetId = BTCM_SYMBOL := by
    by_contra hother
    rcases haside middle hmem hother with hless | hfew
    · exact absurd hbelow (Nat.not_le.mpr hless)
    · exact absurd habove (Nat.not_lt.mpr hfew)
  refine ⟨⟨middle, hmem, rfl⟩, h.isMedian, hbtcm, fun x hx => Asset.ge_ok.mpr ⟨hbtcm.symm, ?_⟩⟩
  exact (decide_eq_true hx).symm

end SortedMiddle

/-- A fee in another asset that does not stay aside lies in the middle of some sort. -/
theorem exists_sortedMiddle_of_not_aside (haside : ¬OthersAside fee active) :
    ∃ p sorted, (fee p).assetId ≠ BTCM_SYMBOL ∧
      SortedMiddle (fun p => (fee p).amount.toInt) active sorted p := by
  simp only [OthersAside, not_forall, not_or, Nat.not_lt, Nat.not_le] at haside
  obtain ⟨p, hp, hother, hbelow, habove⟩ := haside
  obtain ⟨sorted, hsorted, hmiddle⟩ :=
    exists_sortedBy (f := fun p => (fee p).amount.toInt) hp hbelow habove
  exact ⟨p, sorted, hother, hsorted, hmiddle⟩

/-! ## The function -/

/-- The witnesses are collected in the order in which they are scheduled, when everybody is known.
-/
theorem runs_collectWitnesses {names : List String} {witnesses : List WitnessObject}
    (h : Runs (names.foldlM (fun (acc : List WitnessObject) name => do
      let w ← getWitness name
      return acc ++ [w.val]) []) s witnesses s') :
    s' = s ∧ names.mapM (fun name => (s.witnesses.findBy? fun w => decide (w.owner = name)).map
      fun e => e.2.props) = some (witnesses.map WitnessObject.props) := by
  -- induction on the seats still to be read, from what has been read before
  suffices hfrom : ∀ (names : List String) (acc : List WitnessObject),
      Runs (names.foldlM (fun (acc : List WitnessObject) name => do
        let w ← getWitness name
        return acc ++ [w.val]) acc) s witnesses s' →
      s' = s ∧ ∃ rest, witnesses = acc ++ rest ∧
        names.mapM (fun name => (s.witnesses.findBy? fun w => decide (w.owner = name)).map
          fun e => e.2.props) = some (rest.map WitnessObject.props) by
    obtain ⟨hs, rest, rfl, hprops⟩ := hfrom names [] h
    exact ⟨hs, hprops⟩
  intro names
  induction names with
  | nil =>
      intro acc h
      obtain ⟨rfl, rfl⟩ := runs_pure.mp h
      exact ⟨rfl, [], (List.append_nil _).symm, rfl⟩
  | cons name names ih =>
      intro acc h
      rw [List.foldlM_cons] at h
      obtain ⟨acc', t, h1, h2⟩ := runs_bind.mp h
      simp only [getWitness, runs_bind_getBy, runs_pure] at h1
      obtain ⟨e, he, rfl, rfl⟩ := h1
      obtain ⟨rfl, rest, hrest, hprops⟩ := ih _ h2
      refine ⟨rfl, e.val :: rest, by simpa using hrest, ?_⟩
      have he : (s'.witnesses.findBy? fun w => decide (w.owner = name)) = some (e.id, e.val) := he
      simp [List.mapM_cons, he, hprops]

/-- A stable sort is one of the sorts that `std::sort` may make. -/
theorem sortedMiddle_of_medianBy {α : Type} [LE α] [DecidableRel fun (a b : α) => a ≤ b]
    {field : ChainProperties → α} {witnesses : List WitnessObject}
    (hkey : ∀ p q, field p ≤ field q ↔ key p ≤ key q) (h : medianBy field witnesses = some middle) :
    ∃ sorted, SortedMiddle key (witnesses.map WitnessObject.props) sorted middle := by
  refine ⟨_, ⟨List.perm_insertionSort (fun a b => field a ≤ field b) _, ?_⟩, ?_⟩
  · refine (pairwise_insertionSort_on (fun a _ b _ => ?_) fun a _ b _ c _ => ?_).imp ?_
    · rw [hkey, hkey]
      exact le_total (key a) (key b)
    · rw [hkey, hkey, hkey]
      exact le_trans
    · exact fun {a b} => (hkey a b).mp
  · rw [List.length_map]
    exact h

/-- What the function leaves is what some sorts of the proposals leave. -/
theorem runs_updateMedianWitnessProps (h : Runs updateMedianWitnessProps s () s') :
    ∃ active, s.scheduledProps = some active ∧ MedianUpdate active s s' := by
  simp only [updateMedianWitnessProps, runs_bind_reads] at h
  obtain ⟨witnesses, t, hcollect, hsorts⟩ := runs_bind.mp h
  obtain ⟨hsame, hprops⟩ := runs_collectWitnesses hcollect
  subst hsame
  refine ⟨_, hprops, ?_⟩
  obtain ⟨_, _, hcreation, hsorts⟩ := runs_bind.mp hsorts
  obtain ⟨creation, hmiddle₁, hcreation⟩ := runs_elim_throw.mp hcreation
  obtain ⟨_, _, hplatform, hsorts⟩ := runs_bind.mp hsorts
  obtain ⟨platform, hmiddle₂, hplatform⟩ := runs_elim_throw.mp hplatform
  obtain ⟨_, _, hsize, hsorts⟩ := runs_bind.mp hsorts
  obtain ⟨size, hmiddle₃, hsize⟩ := runs_elim_throw.mp hsize
  obtain ⟨rate, hmiddle₄, hrate⟩ := runs_elim_throw.mp hsorts
  cases hcreation
  cases hplatform
  cases hsize
  cases hrate
  obtain ⟨byCreation, h₁⟩ := sortedMiddle_of_medianBy
    (fun _ _ => Int64.le_iff_toInt_le) hmiddle₁
  obtain ⟨byPlatform, h₂⟩ := sortedMiddle_of_medianBy
    (fun _ _ => Int64.le_iff_toInt_le) hmiddle₂
  obtain ⟨bySize, h₃⟩ := sortedMiddle_of_medianBy
    (fun _ _ => UInt32.le_iff_toNat_le.trans Int.ofNat_le.symm) hmiddle₃
  obtain ⟨byRate, h₄⟩ := sortedMiddle_of_medianBy
    (fun _ _ => UInt16.le_iff_toNat_le.trans Int.ofNat_le.symm) hmiddle₄
  -- each sort may as well start with what the one before left
  have hupdate : MedianUpdate _ t (t.withMedians creation platform size rate) :=
    .intro h₁ (h₂.of_perm h₁.perm.symm) (h₃.of_perm h₂.perm.symm) (h₄.of_perm h₃.perm.symm)
  exact hupdate

/-- Whoever is scheduled is found, and in the order of the schedule. -/
theorem exists_of_mapM_eq_some {α β : Type} {f : α → Option β} {l : List α} {l' : List β}
    (h : l.mapM f = some l') : l'.length = l.length ∧ ∀ a ∈ l, ∃ b, f a = some b := by
  induction l generalizing l' with
  | nil =>
      obtain rfl := Option.some.inj h
      exact ⟨rfl, fun a ha => absurd ha List.not_mem_nil⟩
  | cons a l ih =>
      simp only [List.mapM_cons, Option.bind_eq_bind, Option.bind_eq_some_iff, Option.pure_def,
        Option.some.injEq] at h
      obtain ⟨b, hb, rest, hrest, rfl⟩ := h
      obtain ⟨hlen, hfound⟩ := ih hrest
      refine ⟨by simp [hlen], fun c hc => ?_⟩
      rcases List.mem_cons.mp hc with rfl | hc
      · exact ⟨b, hb⟩
      · exact hfound c hc

/-- With somebody scheduled, and everybody known, the function returns. -/
theorem exists_medianUpdate (hs : s.scheduledProps = some active) (hne : active ≠ []) :
    ∃ s', Runs updateMedianWitnessProps s () s' ∧ MedianUpdate active s s' := by
  obtain ⟨hlen, hall⟩ := exists_of_mapM_eq_some hs
  have hpos := List.length_pos_of_ne_nil hne
  have hfound : ∀ name ∈ s.witnessSchedule.currentShuffledWitnesses,
      ∃ e, s.witnesses.findBy? (fun w => decide (w.owner = name)) = some e := by
    intro name hname
    obtain ⟨p, hp⟩ := hall name hname
    obtain ⟨e, he, -⟩ := Option.map_eq_some_iff.mp hp
    exact ⟨e, he⟩
  obtain ⟨s', h⟩ := exists_updateMedianWitnessProps
    (List.ne_nil_of_length_pos (hlen ▸ hpos)) hfound
  obtain ⟨active', hs', hupdate⟩ := runs_updateMedianWitnessProps h
  obtain rfl := Option.some.inj (hs.symm.trans hs')
  exact ⟨s', h, hupdate⟩

/-! ## The exact condition -/

/-- Any sorts by the two fees may happen, and the function then leaves their middle. -/
theorem exists_medianUpdate_of_fees {byCreation byPlatform : List ChainProperties}
    {creation platform : ChainProperties} (hne : active ≠ [])
    (hcreation : SortedMiddle (·.accountCreationFee.amount.toInt) active byCreation creation)
    (hplatform : SortedMiddle (·.streamingPlatformUpdateFee.amount.toInt) active byPlatform platform) :
    ∃ size rate, MedianUpdate active s (s.withMedians creation platform size rate) := by
  obtain ⟨bySize, size, hsize⟩ :=
    SortedMiddle.exists_of_ne_nil (fun p => (p.maximumBlockSize.toNat : ℤ)) hne
  obtain ⟨byRate, rate, hrate⟩ :=
    SortedMiddle.exists_of_ne_nil (fun p => (p.mbdInterestRate.toNat : ℤ)) hne
  exact ⟨size, rate, .intro hcreation (hplatform.of_perm hcreation.perm.symm)
    (hsize.of_perm hplatform.perm.symm) (hrate.of_perm hsize.perm.symm)⟩

/-- **Median properties.** The update returns, and its four values are as they should be, however
`std::sort` treats equal amounts, just if fees in other assets stay aside. -/
theorem median_props_exact (hs : s.scheduledProps = some active) (hne : active ≠ []) :
    (∃ s', Runs updateMedianWitnessProps s () s' ∧ MedianUpdate active s s') ∧
      ((∀ s', MedianUpdate active s s' → MedianHolds active s') ↔
        OthersAside (·.accountCreationFee) active ∧
          OthersAside (·.streamingPlatformUpdateFee) active) := by
  refine ⟨exists_medianUpdate hs hne, fun hholds => ⟨?_, ?_⟩, ?_⟩
  · by_contra haside
    obtain ⟨p, byCreation, hother, hcreation⟩ := exists_sortedMiddle_of_not_aside haside
    obtain ⟨byPlatform, platform, hplatform⟩ := SortedMiddle.exists_of_ne_nil
      (fun p => p.streamingPlatformUpdateFee.amount.toInt) hne
    obtain ⟨size, rate, hupdate⟩ := exists_medianUpdate_of_fees hne hcreation hplatform
    exact hother (hholds _ hupdate).creation.inBtcm
  · by_contra haside
    obtain ⟨p, byPlatform, hother, hplatform⟩ := exists_sortedMiddle_of_not_aside haside
    obtain ⟨byCreation, creation, hcreation⟩ := SortedMiddle.exists_of_ne_nil
      (fun p => p.accountCreationFee.amount.toInt) hne
    obtain ⟨size, rate, hupdate⟩ := exists_medianUpdate_of_fees hne hcreation hplatform
    exact hother (hholds _ hupdate).platform.inBtcm
  · rintro ⟨hcreation, hplatform⟩ _ ⟨h₁, h₂, h₃, h₄⟩
    -- what was sorted before is a permutation of what is scheduled
    have h₂ := h₂.of_perm h₁.perm
    have h₃ := (h₃.of_perm h₂.perm)
    have h₄ := (h₄.of_perm h₃.perm)
    exact ⟨h₁.goodFee hcreation, h₂.goodFee hplatform, h₃.isMedian, h₄.isMedian⟩

section Samples

open Sample

/-- With the proposals of genesis, all four values are medians after every update. -/
theorem median_props_exact_genesis : ∃ s active, Reachable s ∧ s.scheduledProps = some active ∧
    active ≠ [] ∧ ∀ s', MedianUpdate active s s' → MedianHolds active s' := by
  have hrun : leadsTo (replay {} [⟨"initminer", 1585422003, []⟩]) {} (fun s =>
      decide (s.scheduledProps = some [{}, {}, {}, {}])) = true := by decide +kernel
  obtain ⟨s, hs, hprops⟩ := leadsTo_iff.mp hrun
  have haside : ∀ fee : ChainProperties → Asset, (fee {}).assetId = BTCM_SYMBOL →
      OthersAside fee [{}, {}, {}, {}] := by
    intro fee hfee p hp hother
    obtain rfl : p = {} := List.eq_of_mem_replicate (n := 4) hp
    exact absurd hfee hother
  exact ⟨s, _, replay_reachable hs, of_decide_eq_true hprops, by simp,
    (median_props_exact (of_decide_eq_true hprops) (by simp)).2.mpr
      ⟨haside _ rfl, haside _ rfl⟩⟩

/-- A witness proposes a fee for new accounts, and leaves the other properties at their defaults. -/
def proposeFee (owner : String) (fee : Asset) : Operation :=
  .witnessUpdate ⟨owner, "url", BTCM_INIT_PUBLIC_KEY, { accountCreationFee := fee }, btcm 0⟩

/-- One of three witnesses, with one of four seats, proposes a fee in VESTS, between the others. -/
def vestsFee : SignedBlock :=
  ⟨"initminer", 1585422003, [[proposeFee "initminer" (btcm 1),
    proposeFee "initminer1" ⟨2, VESTS_SYMBOL⟩, proposeFee "initminer2" (btcm 3)]]⟩

/-- It becomes the fee, and no amount of BTCM pays it. -/
theorem vests_in_the_middle : ∃ s s' active, Reachable s ∧ s.scheduledProps = some active ∧
    (∀ p ∈ active, p.validate = .ok ()) ∧ active.length = 4 ∧
    active.countP (fun p => p.accountCreationFee.assetId ≠ BTCM_SYMBOL) = 1 ∧
    Runs updateMedianWitnessProps s () s' ∧ MedianUpdate active s s' ∧ ¬MedianHolds active s' ∧
    ∀ x : ShareType, (btcm x).ge s'.witnessSchedule.medianProps.accountCreationFee ≠ .ok true := by
  have hrun : leadsTo (replay {} [vestsFee]) {} (fun s =>
      leadsTo updateMedianWitnessProps s fun s' =>
        decide (s.scheduledProps = some (([btcm 1, btcm 1, ⟨2, VESTS_SYMBOL⟩, btcm 3] : List Asset).map
          fun fee => { accountCreationFee := fee }) ∧
          s'.witnessSchedule.medianProps.accountCreationFee = ⟨2, VESTS_SYMBOL⟩)) = true := by
    decide +kernel
  obtain ⟨s, hs, hrun⟩ := leadsTo_iff.mp hrun
  obtain ⟨s', hupdate, hfee⟩ := leadsTo_iff.mp hrun
  obtain ⟨hprops, hfee⟩ := of_decide_eq_true hfee
  obtain ⟨active, hactive, hmedians⟩ := runs_updateMedianWitnessProps hupdate
  obtain rfl := Option.some.inj (hprops.symm.trans hactive)
  have hunpaid : ∀ x : ShareType,
      (btcm x).ge s'.witnessSchedule.medianProps.accountCreationFee ≠ .ok true := by
    intro x hx
    rw [hfee] at hx
    exact absurd (Asset.ge_ok.mp hx).1 (by simp [btcm, BTCM_SYMBOL, VESTS_SYMBOL])
  refine ⟨s, s', _, replay_reachable hs, hprops, by decide, rfl, by decide, hupdate, hmedians,
    fun hholds => ?_, hunpaid⟩
  exact hunpaid _ (hholds.creation.payable _ (Int64.le_refl _))

end Samples

end BtcmChain
