import BtcmChain.Chain.Reindex
import BtcmChain.Sound.BlockDatabase

set_option autoImplicit false

/-!
# Reindexing loses and repeats no block

Blocks are cut off down to where they are wanted, and a range is gone through up to its first gap.
Reindexing hands every block behind the head to the chain, once and in order, as far as there is
no gap; what stands behind a gap is gone.

The replayer may be anything that obeys `Hands`: what is done with a block is done to the chain
beside the files, and may store the block again. `gap` is where a stretch ends early, `handOver`
the effect that reindexing should have on the chain, and `reindex_eq` the equation of the two, for
any stored blocks, with exceptions of the chain passed on. It is composed of the ranges that are
applied (`reindex_eq_ranges`, `applyRanges_eq`) and the rest, which is pushed (`pushRest_eq`).
-/

namespace BtcmChain

open BlockDatabase

variable {β σ : Type} [BlockFormat β] [LawfulBlockFormat β]

/-! ## Cutting off blocks -/

namespace BlockDatabase

variable {d : BlockDatabase} {a : Archive RawBlockId β} {n m bound : Nat}

/-- A round of the loop: the last block goes, and the next one is looked for. -/
theorem cutoffRound (h : Sound β d) (htop : (contents β d).top = some m) :
    ∃ id, (contents β d).label m = some id ∧ id.num = m ∧ ∃ d', Sound β d' ∧ d'.blocks = d.blocks ∧
      contents β d' = ((contents β d).cut m).settle ∧
      (do remove id; lastId β : Op (Option RawBlockId)) d =
        .ok ((contents β d').top.bind (contents β d').label) d' := by
  have hlabel := label_top htop
  obtain ⟨hnum, _⟩ := h.num_of_label hlabel
  obtain ⟨hsome, _⟩ := Archive.top_eq_some.mp htop
  obtain ⟨b, hb⟩ := Option.isSome_iff_exists.mp hsome
  have hlt : (d.entryAt m).blockId.num < d.count := by
    rw [hnum]
    exact Archive.lt_size_of_document hb
  obtain ⟨e, hremove, hsound, hblocks, hcontents⟩ := remove_eq_ok h hlt
  rw [hnum, if_pos hlabel] at hcontents
  obtain ⟨d', hlast, hsettled⟩ := lastId_eq hsound
  refine ⟨_, hlabel, hnum, d', hsettled.sound hsound, hsettled.blocks.trans hblocks, ?_, ?_⟩
  · rw [hsettled.contents, hcontents, Archive.settle_strike_top htop]
  · rw [bind_eq_of_ok hremove, hlast, hsettled.contents, Archive.label_top_settle]

theorem cutoffFrom_eq (bound n : Nat) (h : Sound β d) (hsettled : (contents β d).settle = contents β d)
    (hn : ∀ m, (contents β d).top = some m → m < n) :
    ∃ d', cutoffFrom β bound n ((contents β d).top.bind (contents β d).label) d = .ok () d' ∧
      Sound β d' ∧ d'.blocks = d.blocks ∧
      contents β d' = ((contents β d).cut (bound + 1)).settle := by
  induction n generalizing d with
  | zero =>
      cases htop : (contents β d).top with
      | some m => exact absurd (hn m htop) (Nat.not_lt_zero m)
      | none =>
          refine ⟨d, rfl, h, rfl, ?_⟩
          rw [Archive.settle_cut_of_none fun m _ => Archive.top_eq_none.mp htop m, hsettled]
  | succ n ih =>
      cases htop : (contents β d).top with
      | none =>
          refine ⟨d, rfl, h, rfl, ?_⟩
          rw [Archive.settle_cut_of_none fun m _ => Archive.top_eq_none.mp htop m, hsettled]
      | some m =>
          obtain ⟨id, hlabel, hnum, e, hsound, hblocks, hcontents, hround⟩ := cutoffRound h htop
          rw [Option.bind_some, hlabel]
          by_cases hbound : bound < id.num
          · have hsettledE : (contents β e).settle = contents β e := by
              rw [hcontents, Archive.settle_settle]
            obtain ⟨d', hrun, hsound', hblocks', hcontents'⟩ := ih hsound hsettledE (by
              intro k hk
              rw [hcontents, Archive.top_settle] at hk
              have hkm := Archive.lt_of_top_cut hk
              have hmn := hn m htop
              omega)
            refine ⟨d', ?_, hsound', hblocks'.trans hblocks, ?_⟩
            · rw [cutoffFrom, if_pos hbound, ← bind_assoc, bind_eq_of_ok hround]
              exact hrun
            · rw [hcontents', hcontents, Archive.settle_cut_settle,
                Archive.settle_cut_cut (by omega)]
          · refine ⟨d, ?_, h, rfl, ?_⟩
            · rw [cutoffFrom, if_neg hbound]
              rfl
            · obtain ⟨_, hnone⟩ := Archive.top_eq_some.mp htop
              rw [Archive.settle_cut_of_none fun j hj => hnone j (by omega), hsettled]

/-- **Cutting off**: the blocks up to the bound stay, all others are gone, and the index ends with
the last block. -/
theorem cutoffBlocks_eq (bound : Nat) (h : Sound β d) :
    ∃ d', cutoffBlocks β bound d = .ok () d' ∧ Sound β d' ∧ d'.blocks = d.blocks ∧
      contents β d' = ((contents β d).cut (bound + 1)).settle := by
  obtain ⟨e, hlast, hsettled⟩ := lastId_eq h
  have hsound := hsettled.sound h
  obtain ⟨d', hrun, hsound', hblocks, hcontents⟩ := cutoffFrom_eq bound
    (e.blockNumToPos.bytes.length + 1) hsound
    (by rw [hsettled.contents, Archive.settle_settle]) (by
      intro m hm
      obtain ⟨hsome, _⟩ := Archive.top_eq_some.mp hm
      obtain ⟨b, hb⟩ := Option.isSome_iff_exists.mp hsome
      have hlt : m < e.count := Archive.lt_size_of_document hb
      have hle : e.count ≤ e.blockNumToPos.bytes.length := Nat.div_le_self _ _
      omega)
  refine ⟨d', ?_, hsound', hblocks.trans hsettled.blocks, ?_⟩
  · rw [cutoffBlocks, bind_eq_of_ok hlast, ← Archive.label_top_settle, ← hsettled.contents]
    exact hrun
  · rw [hcontents, hsettled.contents, Archive.settle_cut_settle]

end BlockDatabase

namespace Restart

variable {x : Restart σ} {a : Archive RawBlockId β} {f : β → Op σ Unit} {g : β → EStateM Exn σ Unit}
  {size : β → Nat} {i n : Nat}

/-- `f` does to the chain what `g` does; it may store the block it is handed again, which takes up
to `size` bytes. -/
def Hands (a : Archive RawBlockId β) (f : β → Op σ Unit) (g : β → EStateM Exn σ Unit)
    (size : β → Nat) : Prop :=
  ∀ (b : β) (n : Nat) (x : Restart σ), a.document n = some b → Sound β x.log →
    contents β x.log = a → x.log.blocks.bytes.length + size b < 2 ^ 63 →
    match g b x.chain with
    | .error e s => ∃ d, f b x = .error e ⟨d, s⟩
    | .ok _ s => ∃ d, f b x = .ok () ⟨d, s⟩ ∧ Sound β d ∧ contents β d = a ∧
        d.blocks.bytes.length ≤ x.log.blocks.bytes.length + size b

/-- The gap in a stretch that is shorter than asked for. -/
def gap (a : Archive RawBlockId β) (i n : Nat) : Option Nat :=
  if (a.stretch i n).length < n then some (i + (a.stretch i n).length) else none

/-- The archive that is left when a stretch was gone through. -/
def left (a : Archive RawBlockId β) (i n : Nat) : Archive RawBlockId β :=
  (gap a i n).elim a fun g => (a.cut (g + 1)).settle

omit [BlockFormat β] [LawfulBlockFormat β] in
theorem gap_of_none (h : a.document i = none) : gap a i (n + 1) = some i := by
  rw [gap, Archive.stretch_of_none h, List.length_nil, if_pos (Nat.succ_pos n)]
  rfl

omit [BlockFormat β] [LawfulBlockFormat β] in
theorem gap_of_some {b : β} (h : a.document i = some b) : gap a i (n + 1) = gap a (i + 1) n := by
  have hstretch : a.stretch i (n + 1) = b :: a.stretch (i + 1) n := by rw [Archive.stretch, h]
  rw [gap, gap, hstretch, List.length_cons]
  by_cases hshort : (a.stretch (i + 1) n).length < n
  · rw [if_pos hshort, if_pos (by omega)]
    congr 1
    omega
  · rw [if_neg hshort, if_neg (by omega)]

/-- **Range**: the blocks of a stretch are handed over one after the other; at a gap the archive is
cut off. -/
theorem reindexFrom_eq (hands : Hands a f g size) (hx : Sound β x.log)
    (ha : contents β x.log = a)
    (hroom : x.log.blocks.bytes.length + ((a.stretch i n).map size).sum < 2 ^ 63) :
    match (a.stretch i n).forM g x.chain with
    | .error e s => ∃ d, reindexFrom f n i x = .error e ⟨d, s⟩
    | .ok _ s => ∃ d, reindexFrom f n i x = .ok (gap a i n) ⟨d, s⟩ ∧ Sound β d ∧
        contents β d = left a i n ∧ d.blocks.bytes.length ≤
          x.log.blocks.bytes.length + ((a.stretch i n).map size).sum := by
  induction n generalizing i x with
  | zero => exact ⟨x.log, rfl, hx, ha, Nat.le_refl _⟩
  | succ n ih =>
      have hfetch : onLog (σ := σ) (BlockDatabase.fetchByNumber (β := β) i) x =
          .ok (a.document i) x := by
        rw [← ha]
        exact focus_eq_of_ok (fetchByNumber_eq hx)
      rw [reindexFrom, bind_eq_of_ok hfetch, left]
      cases hb : a.document i with
      | none =>
          -- a number without a block: what stands behind it is cut off
          obtain ⟨d, hcutoff, hsound, hblocks, hcontents⟩ := cutoffBlocks_eq i hx
          have hcut : onLog (cutoffBlocks β i) x = .ok () ⟨d, x.chain⟩ := focus_eq_of_ok hcutoff
          have hrun : (do onLog (cutoffBlocks β i); return some i : Op σ (Option Nat)) x =
              .ok (some i) ⟨d, x.chain⟩ := by
            rw [bind_eq_of_ok hcut]
            rfl
          rw [gap_of_none hb, Archive.stretch_of_none hb]
          refine ⟨d, hrun, hsound, ?_, ?_⟩
          · rw [hcontents, ha]
            rfl
          · rw [hblocks]
            exact Nat.le_add_right _ _
      | some b =>
          have hstretch : a.stretch i (n + 1) = b :: a.stretch (i + 1) n := by
            rw [Archive.stretch, hb]
          rw [hstretch, List.map_cons, List.sum_cons] at hroom
          have hstep := hands b i x hb hx ha (by omega)
          rw [gap_of_some hb, hstretch, List.map_cons, List.sum_cons]
          -- both sides handle this block, and then the rest
          show match (g b >>= fun _ => (a.stretch (i + 1) n).forM g) x.chain with
            | .error e s => ∃ d, (f b >>= fun _ => reindexFrom f n (i + 1)) x = .error e ⟨d, s⟩
            | .ok _ s => ∃ d, (f b >>= fun _ => reindexFrom f n (i + 1)) x = _ ∧ _
          cases hg : g b x.chain with
          | error e s =>
              rw [hg] at hstep
              obtain ⟨d, hf⟩ := hstep
              rw [bind_eq_of_error hg, bind_eq_of_error hf]
              exact ⟨d, rfl⟩
          | ok u s =>
              rw [hg] at hstep
              obtain ⟨d, hf, hsound, hcontents, hlength⟩ := hstep
              have hrest := ih (i := i + 1) (x := ⟨d, s⟩) hsound hcontents
                (by show d.blocks.bytes.length + _ < _; omega)
              rw [bind_eq_of_ok hg, bind_eq_of_ok hf]
              cases hm : (a.stretch (i + 1) n).forM g s with
              | error e s' =>
                  rw [hm] at hrest
                  exact hrest
              | ok u' s' =>
                  rw [hm] at hrest
                  obtain ⟨d', hrun, hsound', hcontents', hlength'⟩ := hrest
                  refine ⟨d', hrun, hsound', hcontents', ?_⟩
                  have hlog : d'.blocks.bytes.length ≤ d.blocks.bytes.length + _ := hlength'
                  omega

/-! ## The two ways -/

variable {r : Replayer β σ}

omit [LawfulBlockFormat β] in
theorem hands_applyBlock : Hands a (applyBlock r) r.applyBlock fun _ => 0 := by
  intro b n x _ hx ha _
  unfold applyBlock
  cases hg : r.applyBlock b x.chain with
  | error e s => exact ⟨x.log, focus_eq_of_error hg⟩
  | ok u s => exact ⟨x.log, focus_eq_of_ok hg, hx, ha, Nat.le_refl _⟩

theorem hands_pushBlock :
    Hands a (pushBlock r) r.pushBlock fun b => (BlockFormat.pack b).length := by
  intro b n x hb hx ha hroom
  unfold pushBlock
  cases hg : r.pushBlock b x.chain with
  | error e s =>
      have hchain : onChain (r.pushBlock b) x = .error e ⟨x.log, s⟩ := focus_eq_of_error hg
      exact ⟨x.log, bind_eq_of_error hchain⟩
  | ok u s =>
      have hchain : onChain (r.pushBlock b) x = .ok () ⟨x.log, s⟩ := focus_eq_of_ok hg
      obtain ⟨d, hstore, hsound, hcontents, hlength⟩ := store_eq hx (Or.inl rfl) hroom
      rw [← ha] at hb
      obtain ⟨hnum, hslot⟩ := hx.slot_of_document hb
      refine ⟨d, ?_, hsound, ?_, hlength.le⟩
      · rw [bind_eq_of_ok hchain]
        exact focus_eq_of_ok hstore
      · rw [hcontents, hnum, Archive.put_of_slot hslot, ha]

/-! ## One range after the other -/

omit [BlockFormat β] [LawfulBlockFormat β] in
theorem left_of_full (h : (a.stretch i n).length = n) : left a i n = a := by
  rw [left, gap, if_neg (by omega)]
  rfl

omit [BlockFormat β] [LawfulBlockFormat β] in
theorem left_of_short (h : (a.stretch i n).length < n) :
    left a i n = (a.cut (i + (a.stretch i n).length + 1)).settle := by
  rw [left, gap, if_pos h]
  rfl

omit [BlockFormat β] [LawfulBlockFormat β] in
theorem document_left {k : Nat} (hk : k ≤ i + (a.stretch i n).length) :
    (left a i n).document k = a.document k := by
  by_cases hfull : (a.stretch i n).length = n
  · rw [left_of_full hfull]
  · have hle := Archive.length_stretch_le (a := a) (i := i) (n := n)
    rw [left_of_short (by omega), Archive.document_settle, Archive.document_cut, if_pos (by omega)]

omit [BlockFormat β] [LawfulBlockFormat β] in
/-- Behind a range, the next one finds the same blocks. -/
theorem stretch_left {m : Nat} : (left a i n).stretch (i + (a.stretch i n).length) m =
    a.stretch (i + (a.stretch i n).length) m := by
  by_cases hfull : (a.stretch i n).length = n
  · rw [left_of_full hfull]
  · have hle := Archive.length_stretch_le (a := a) (i := i) (n := n)
    have hnone := Archive.document_of_short (a := a) (i := i) (n := n) (by omega)
    rw [Archive.stretch_of_none hnone, Archive.stretch_of_none]
    rw [document_left (Nat.le_refl _)]
    exact hnone

omit [BlockFormat β] [LawfulBlockFormat β] in
/-- What two ranges leave is what one over both leaves. -/
theorem left_left {m : Nat} (h : n ≤ m) :
    left (left a i n) (i + (a.stretch i n).length) (m - (a.stretch i n).length) = left a i m := by
  have hle := Archive.length_stretch_le (a := a) (i := i) (n := n)
  have hsplit := Archive.stretch_add (a := a) (i := i) (n := n) (m := m - n)
  rw [Nat.add_sub_cancel' h] at hsplit
  by_cases hfull : (a.stretch i n).length = n
  · rw [left_of_full hfull, left, left, gap, gap, hsplit, List.length_append, hfull]
    by_cases hshort : (a.stretch (i + n) (m - n)).length < m - n
    · rw [if_pos hshort, if_pos (by omega), Nat.add_assoc]
    · rw [if_neg hshort, if_neg (by omega)]
  · have hnone := Archive.document_of_short (a := a) (i := i) (n := n) (by omega)
    rw [Archive.stretch_of_none hnone, List.append_nil] at hsplit
    have hnoneLeft : (left a i n).document (i + (a.stretch i n).length) = none := by
      rw [document_left (Nat.le_refl _)]
      exact hnone
    rw [left_of_short (a := a) (n := m) (by rw [hsplit]; omega), hsplit,
      left_of_short (by rw [Archive.stretch_of_none hnoneLeft]; show 0 < _; omega),
      Archive.stretch_of_none hnoneLeft, left_of_short (by omega), List.length_nil, Nat.add_zero,
      Archive.settle_cut_settle, Archive.settle_cut_cut (Nat.le_refl _)]

omit [LawfulBlockFormat β] in
/-- A range returns the number behind its last block, or that of its gap. -/
theorem reindexRange_of_from {start last : Nat} {y : Restart σ} (h : start ≤ last + 1)
    (hrun : reindexFrom f (last + 1 - start) start x = .ok (gap a start (last + 1 - start)) y) :
    reindexRange start last f x =
      .ok (start + (a.stretch start (last + 1 - start)).length) y := by
  have hle := Archive.length_stretch_le (a := a) (i := start) (n := last + 1 - start)
  rw [reindexRange, bind_eq_of_ok hrun, gap]
  split
  · rfl
  · show EStateM.Result.ok (last + 1) y = _
    congr 1
    omega

theorem reindexRange_eq (start last : Nat) (h : start ≤ last + 1) (hands : Hands a f g size)
    (hx : Sound β x.log) (ha : contents β x.log = a)
    (hroom : x.log.blocks.bytes.length +
      ((a.stretch start (last + 1 - start)).map size).sum < 2 ^ 63) :
    match (a.stretch start (last + 1 - start)).forM g x.chain with
    | .error e s => ∃ d, reindexRange start last f x = .error e ⟨d, s⟩
    | .ok _ s => ∃ d, reindexRange start last f x =
          .ok (start + (a.stretch start (last + 1 - start)).length) ⟨d, s⟩ ∧ Sound β d ∧
        contents β d = left a start (last + 1 - start) ∧ d.blocks.bytes.length ≤
          x.log.blocks.bytes.length + ((a.stretch start (last + 1 - start)).map size).sum := by
  have hfrom := reindexFrom_eq hands hx ha hroom
  cases hm : (a.stretch start (last + 1 - start)).forM g x.chain with
  | error e s =>
      rw [hm] at hfrom
      obtain ⟨d, hrun⟩ := hfrom
      exact ⟨d, bind_eq_of_error hrun⟩
  | ok u s =>
      rw [hm] at hfrom
      obtain ⟨d, hrun, hrest⟩ := hfrom
      exact ⟨d, reindexRange_of_from h hrun, hrest⟩

/-! ## Reindexing -/

variable {undoBlocks last head : Nat}

omit [BlockFormat β] [LawfulBlockFormat β] in
theorem modify_eq (f : σ → σ) (s : σ) :
    (modifyThe σ f : EStateM Exn σ Unit) s = .ok () (f s) := rfl

omit [BlockFormat β] [LawfulBlockFormat β] in
theorem onChain_modify_eq (f : σ → σ) (x : Restart σ) :
    onChain (modifyThe σ f) x = .ok () { x with chain := f x.chain } := rfl

/-- How many blocks are applied, if there is no gap. -/
def appliedCount (undoBlocks last head : Nat) : Nat :=
  if undoBlocks < last ∧ head + 1 < last - undoBlocks then last - undoBlocks - head else 0

/-- Both ranges that are applied, one after the other, apply the blocks of one stretch. -/
theorem applyRanges_eq (last head : Nat) (hundo : 1 < undoBlocks) (hx : Sound β x.log) (ha : contents β x.log = a)
    (hroom : x.log.blocks.bytes.length < 2 ^ 63) :
    match (a.stretch (head + 1) (appliedCount undoBlocks last head)).forM r.applyBlock x.chain with
    | .error e s => ∃ d, applyRanges r undoBlocks last head x = .error e ⟨d, s⟩
    | .ok _ s => ∃ d, applyRanges r undoBlocks last head x = .ok (head + 1 +
          (a.stretch (head + 1) (appliedCount undoBlocks last head)).length) ⟨d, s⟩ ∧
        Sound β d ∧ contents β d = left a (head + 1) (appliedCount undoBlocks last head) ∧
        d.blocks.bytes.length ≤ x.log.blocks.bytes.length := by
  have hzero (bs : List β) : (bs.map fun _ => 0).sum = 0 := by simp
  by_cases hfirst : 2 * undoBlocks < last ∧ head + 1 < last - 2 * undoBlocks
  · have hsplit := Archive.stretch_add (a := a) (i := head + 1)
      (n := last - 2 * undoBlocks - head) (m := undoBlocks)
    have hboth : last - 2 * undoBlocks - head + undoBlocks = appliedCount undoBlocks last head := by
      rw [appliedCount, if_pos ⟨by omega, by omega⟩]
      omega
    have hle := Archive.length_stretch_le (a := a) (i := head + 1)
      (n := last - 2 * undoBlocks - head)
    -- the first range leaves the archive cut at its gap, if it has one
    have hrange := reindexRange_eq (head + 1) (last - 2 * undoBlocks) (by omega)
      (hands_applyBlock (r := r)) hx ha (by rw [hzero]; exact hroom)
    have hcount : last - 2 * undoBlocks + 1 - (head + 1) = last - 2 * undoBlocks - head := by omega
    rw [hcount, hzero] at hrange
    have hleft := left_left (a := a) (i := head + 1) (n := last - 2 * undoBlocks - head)
      (m := last - 2 * undoBlocks - head + undoBlocks) (Nat.le_add_right _ _)
    rw [hboth] at hsplit hleft
    have happend (bs cs : List β) : (bs ++ cs).forM r.applyBlock =
        (bs.forM r.applyBlock >>= fun _ => cs.forM r.applyBlock) := List.forM_append
    rw [hsplit, happend]
    unfold applyRanges
    rw [if_pos hfirst]
    cases hm : (a.stretch (head + 1) (last - 2 * undoBlocks - head)).forM r.applyBlock x.chain with
    | error e s =>
        rw [hm] at hrange
        obtain ⟨d, hrun⟩ := hrange
        rw [bind_eq_of_error hm, bind_eq_of_error hrun]
        exact ⟨d, rfl⟩
    | ok u s =>
        rw [hm] at hrange
        obtain ⟨d, hrun, hsound, hcontents, hlength⟩ := hrange
        rw [bind_eq_of_ok hm, bind_eq_of_ok hrun, if_pos ⟨by omega, by omega⟩]
        have hnext := reindexRange_eq (x := ⟨d, s⟩)
          (head + 1 + (a.stretch (head + 1) (last - 2 * undoBlocks - head)).length)
          (last - undoBlocks) (by omega) (hands_applyBlock (r := r)) hsound hcontents
          (by rw [hzero]; show d.blocks.bytes.length + 0 < _; omega)
        -- so the second range starts at the gap and finds nothing, or goes on behind the first
        have hrest : last - undoBlocks + 1 -
            (head + 1 + (a.stretch (head + 1) (last - 2 * undoBlocks - head)).length) =
            appliedCount undoBlocks last head -
              (a.stretch (head + 1) (last - 2 * undoBlocks - head)).length := by omega
        rw [hrest, stretch_left, hleft, hzero] at hnext
        rw [List.length_append, ← Nat.add_assoc]
        cases hm' : (a.stretch
            (head + 1 + (a.stretch (head + 1) (last - 2 * undoBlocks - head)).length)
            (appliedCount undoBlocks last head -
              (a.stretch (head + 1) (last - 2 * undoBlocks - head)).length)).forM
              r.applyBlock s with
        | error e s' =>
            rw [hm'] at hnext
            exact hnext
        | ok u' s' =>
            rw [hm'] at hnext
            obtain ⟨d', hrun', hsound', hcontents', hlength'⟩ := hnext
            exact ⟨d', hrun', hsound', hcontents', hlength'.trans hlength⟩
  · have hskip : applyRanges r undoBlocks last head x =
        (if undoBlocks < last ∧ head + 1 < last - undoBlocks then
          reindexRange (head + 1) (last - undoBlocks) (applyBlock r)
        else return head + 1 : Op σ Nat) x := by
      unfold applyRanges
      rw [if_neg hfirst]
      rfl
    rw [hskip]
    unfold appliedCount
    by_cases hsecond : undoBlocks < last ∧ head + 1 < last - undoBlocks
    · have hrange := reindexRange_eq (head + 1) (last - undoBlocks) (by omega)
        (hands_applyBlock (r := r)) hx ha (by rw [hzero]; exact hroom)
      have hcount : last - undoBlocks + 1 - (head + 1) = last - undoBlocks - head := by omega
      rw [hcount, hzero] at hrange
      rw [if_pos hsecond, if_pos hsecond]
      exact hrange
    · rw [if_neg hsecond, if_neg hsecond]
      exact ⟨x.log, rfl, hx, ha, Nat.le_refl _⟩

theorem startFork_eq (first : Nat) (base : Option β) (hx : Sound β x.log)
    (hbase : (contents β x.log).document (first - 1) = base) (hfirst : 0 < first)
    (hsome : 1 < first → base.isSome) :
    startFork r first x = .ok () { x with chain := base.elim x.chain (r.startBlock · x.chain) } := by
  have hfetch : onLog (σ := σ) (fetchByNumber (β := β) (first - 1)) x = .ok base x := by
    rw [← hbase]
    exact focus_eq_of_ok (fetchByNumber_eq hx)
  unfold startFork
  by_cases hone : 1 < first
  · obtain ⟨b, hb⟩ := Option.isSome_iff_exists.mp (hsome hone)
    rw [if_pos hone, bind_eq_of_ok hfetch, hb]
    rfl
  · -- There is no block number zero.
    have hzero : first - 1 = 0 := by omega
    have hnone : base = none := by
      rw [← hbase, hzero]
      cases hb : (contents β x.log).document 0 with
      | none => rfl
      | some b =>
          have hpos := LawfulBlockFormat.num_pos b
          rw [(hx.slot_of_document hb).1] at hpos
          exact absurd hpos (Nat.lt_irrefl 0)
    rw [if_neg hone, hnone]
    rfl

/-- Apply some blocks, start the fork database with one, and push others. -/
def handOver (r : Replayer β σ) (applied : List β) (base : Option β) (pushed : List β) :
    EStateM Exn σ Unit := do
  modifyThe σ (r.setUndo false)
  applied.forM r.applyBlock
  modifyThe σ fun s => base.elim s (r.startBlock · s)
  modifyThe σ (r.setUndo true)
  pushed.forM r.pushBlock

theorem appliedCount_le (undoBlocks last head : Nat) : appliedCount undoBlocks last head ≤ last - undoBlocks - head := by
  unfold appliedCount
  split <;> omega

omit [BlockFormat β] [LawfulBlockFormat β] in
/-- The block the fork database is started with is stored. -/
theorem isSome_base {k : Nat} (hlogged : 0 < head → (a.document head).isSome)
    (hk : k = (a.stretch (head + 1) n).length) (h : 1 < head + 1 + k) :
    (a.document (head + k)).isSome := by
  cases k with
  | zero => exact hlogged (by omega)
  | succ k =>
      have hdocument := Archive.document_of_lt (a := a) (i := head + 1) (n := n) (j := k) (by omega)
      rw [Nat.add_right_comm] at hdocument
      exact hdocument

/-- What is left to do once the ranges that are applied are through: the fork database is started
with the block below `first`, undo is enabled, and the blocks from `first` on are pushed. -/
def pushRest (r : Replayer β σ) (first last : Nat) : Op σ Unit := do
  startFork r first
  onChain (modifyThe σ (r.setUndo true))
  let _ ← reindexRange first last (pushBlock r)
  return ()

omit [LawfulBlockFormat β] in
/-- The last stored block is found, which settles the index, and undo is disabled; then come the
ranges that are applied and those that are pushed. -/
theorem reindex_eq_ranges {t : Nat} {d : BlockDatabase}
    (hlast : BlockDatabase.last β x.log = .ok (contents β x.log).last d) (hx : Sound β x.log)
    (htop : (contents β x.log).top = some t) (ht : r.headBlockNum x.chain < t) :
    reindex r undoBlocks x = (do
      let first ← applyRanges r undoBlocks t (r.headBlockNum x.chain)
      pushRest r first t : Op σ Unit) ⟨d, r.setUndo false x.chain⟩ := by
  obtain ⟨hsome, _⟩ := Archive.top_eq_some.mp htop
  obtain ⟨b, hb⟩ := Option.isSome_iff_exists.mp hsome
  have hnum : (BlockFormat.id b).num = t := (hx.slot_of_document hb).1
  have hlastLog : onLog (σ := σ) (BlockDatabase.last β) x = .ok (some b) ⟨d, x.chain⟩ := by
    refine focus_eq_of_ok ?_
    rw [hlast, Archive.last, htop, Option.bind_some, hb]
  unfold reindex
  rw [bind_eq_of_ok hlastLog]
  show (if (BlockFormat.id b).num ≤ r.headBlockNum x.chain then _ else _ : Op σ Unit) _ = _
  rw [hnum, if_neg (Nat.not_le.mpr ht)]
  rfl

/-- Behind a range of `n` blocks that were applied, the rest up to `t` is pushed: the chain is given
what stands below the rest and then the rest, and the archive is left as one range over both would
leave it. -/
theorem pushRest_eq {t k : Nat} {base : Option β} (hx : Sound β x.log)
    (ha : contents β x.log = left a (head + 1) n) (hn : n ≤ t - head)
    (hk : k = (a.stretch (head + 1) n).length) (hbase : a.document (head + k) = base)
    (hsome : 1 < head + 1 + k → base.isSome) (ht : head < t)
    (hroom : x.log.blocks.bytes.length + ((a.stretch (head + 1 + k) (t - head - k)).map
      fun b => (BlockFormat.pack b).length).sum < 2 ^ 63) :
    match (a.stretch (head + 1 + k) (t - head - k)).forM r.pushBlock
        (r.setUndo true (base.elim x.chain (r.startBlock · x.chain))) with
    | .error e s => ∃ d, pushRest r (head + 1 + k) t x = .error e ⟨d, s⟩
    | .ok _ s => ∃ d, pushRest r (head + 1 + k) t x = .ok () ⟨d, s⟩ ∧ Sound β d ∧
        contents β d = left a (head + 1) (t - head) := by
  have hle := Archive.length_stretch_le (a := a) (i := head + 1) (n := n)
  have hdocument : (contents β x.log).document (head + 1 + k - 1) = base := by
    rw [ha, ← hbase, ← document_left (a := a) (i := head + 1) (n := n) (k := head + k) (by omega)]
    congr 1
    omega
  have hstart := startFork_eq (r := r) (head + 1 + k) base hx hdocument (by omega) hsome
  have hcount : t + 1 - (head + 1 + k) = t - head - k := by omega
  have hstretch : (left a (head + 1) n).stretch (head + 1 + k) (t - head - k) =
      a.stretch (head + 1 + k) (t - head - k) := by
    rw [hk]
    exact stretch_left
  have hleft : left (left a (head + 1) n) (head + 1 + k) (t - head - k) =
      left a (head + 1) (t - head) := by
    rw [hk]
    exact left_left hn
  have hpushed := reindexRange_eq (head + 1 + k) t
    (x := ⟨x.log, r.setUndo true (base.elim x.chain (r.startBlock · x.chain))⟩) (by omega)
    (hands_pushBlock (r := r)) hx ha (by rw [hcount, hstretch]; exact hroom)
  rw [hcount, hstretch, hleft] at hpushed
  have hrest : pushRest r (head + 1 + k) t x = (do
      let _ ← reindexRange (head + 1 + k) t (pushBlock r)
      return () : Op σ Unit) ⟨x.log, r.setUndo true (base.elim x.chain (r.startBlock · x.chain))⟩ := by
    rw [pushRest, bind_eq_of_ok hstart, bind_eq_of_ok (onChain_modify_eq _ _)]
  rw [hrest]
  cases hm : (a.stretch (head + 1 + k) (t - head - k)).forM r.pushBlock
      (r.setUndo true (base.elim x.chain (r.startBlock · x.chain))) with
  | error e s =>
      rw [hm] at hpushed
      obtain ⟨d, hrun⟩ := hpushed
      exact ⟨d, bind_eq_of_error hrun⟩
  | ok u s =>
      rw [hm] at hpushed
      obtain ⟨d, hrun, hsound, hcontents, _⟩ := hpushed
      exact ⟨d, bind_eq_of_ok hrun, hsound, hcontents⟩

/-- **Reindexing**: the stored blocks behind the head, up to the first gap, are handed over once and
in order. Those that are pushed include the last `undoBlocks`; the block before them starts the fork
database. Behind the gap nothing is left. -/
theorem reindex_eq {t : Nat} (hundo : 1 < undoBlocks) (hx : Sound β x.log)
    (htop : (contents β x.log).top = some t) (hhead : head = r.headBlockNum x.chain) (ht : head < t)
    (hlogged : 0 < head → ((contents β x.log).document head).isSome)
    (hroom : x.log.blocks.bytes.length + (((contents β x.log).stretch (head + 1) (t - head)).map
      fun b => (BlockFormat.pack b).length).sum < 2 ^ 63) :
    ∃ applied pushed, applied ++ pushed = (contents β x.log).stretch (head + 1) (t - head) ∧
      applied.length ≤ t - undoBlocks - head ∧
      match handOver r applied ((contents β x.log).document (head + applied.length)) pushed
        x.chain with
      | .error e s => ∃ d, reindex r undoBlocks x = .error e ⟨d, s⟩
      | .ok _ s => ∃ d, reindex r undoBlocks x = .ok () ⟨d, s⟩ ∧ Sound β d ∧
          contents β d = left (contents β x.log).settle (head + 1) (t - head) := by
  subst hhead
  obtain ⟨d, hlast, hsettled⟩ := last_eq hx
  have hsound := hsettled.sound hx
  rw [reindex_eq_ranges hlast hx htop ht]
  generalize hhead : r.headBlockNum x.chain = head at *
  -- From here on the archive is settled; it has the same blocks.
  have hdocument (j : Nat) : (contents β x.log).document j = (contents β x.log).settle.document j :=
    Archive.document_settle.symm
  rw [Archive.stretch_congr hdocument] at hroom ⊢
  simp only [hdocument] at hlogged ⊢
  have hcontents := hsettled.contents
  generalize (contents β x.log).settle = a at *
  have hlength : d.blocks.bytes.length = x.log.blocks.bytes.length := by rw [hsettled.blocks]
  have hcount : appliedCount undoBlocks t head ≤ t - head := by
    have hle := appliedCount_le undoBlocks t head
    omega
  have hsplit := Archive.stretch_add (a := a) (i := head + 1)
    (n := appliedCount undoBlocks t head) (m := t - head - appliedCount undoBlocks t head)
  rw [Nat.add_sub_cancel' hcount] at hsplit
  have hle := Archive.length_stretch_le (a := a) (i := head + 1)
    (n := appliedCount undoBlocks t head)
  rw [hsplit, List.map_append, List.sum_append] at hroom
  refine ⟨_, _, hsplit.symm, hle.trans (appliedCount_le undoBlocks t head), ?_⟩
  show match ((a.stretch (head + 1) (appliedCount undoBlocks t head)).forM r.applyBlock >>=
    fun _ => _ : EStateM Exn σ Unit) (r.setUndo false x.chain) with | .error e s => _ | .ok _ s => _
  have happlied := applyRanges_eq (r := r) (x := ⟨d, r.setUndo false x.chain⟩) t
    head hundo hsound hcontents (by show d.blocks.bytes.length < _; omega)
  cases hm : (a.stretch (head + 1) (appliedCount undoBlocks t head)).forM r.applyBlock
      (r.setUndo false x.chain) with
  | error e s =>
      rw [hm] at happlied
      obtain ⟨d', hrun⟩ := happlied
      rw [bind_eq_of_error hm, bind_eq_of_error hrun]
      exact ⟨d', rfl⟩
  | ok u s =>
      rw [hm] at happlied
      obtain ⟨d', hrun, hsound', hcontents', hlength'⟩ := happlied
      rw [bind_eq_of_ok hm, bind_eq_of_ok hrun, bind_eq_of_ok (modify_eq _ s),
        bind_eq_of_ok (modify_eq _ _)]
      exact pushRest_eq (r := r) (x := ⟨d', s⟩) hsound' hcontents' hcount rfl rfl
        (isSome_base hlogged rfl) ht (by
          have hle' : d'.blocks.bytes.length ≤ d.blocks.bytes.length := hlength'
          show d'.blocks.bytes.length + _ < _
          omega)

namespace RestartSample

open BlockDatabase.FileSample

/-- A chain that only notes what happens to it: the numbers of its blocks. -/
def notes : Replayer Leaf (List Nat) where
  headBlockNum := List.length
  applyBlock b := modifyThe (List Nat) (b.id.num :: ·)
  pushBlock b := modifyThe (List Nat) (b.id.num :: ·)
  startBlock _ s := s
  setUndo _ s := s

/-- A block database in which block two is missing. -/
def gapped : BlockDatabase := (exec (.store third.id third) (exec (.store first.id first) {}).2).2

theorem sound_gapped : Sound Leaf gapped := by
  have hfirst := exec_eq (c := .store first.id first) (sound_empty (β := Leaf)) (Or.inl rfl)
    (by decide)
  exact (exec_eq (c := .store third.id third) hfirst.2.1 (Or.inl rfl) (by decide +kernel)).2.1

end RestartSample

open RestartSample BlockDatabase.FileSample in
/-- Block one is pushed, and block three, behind the gap, is gone. -/
theorem reindex_eq_gapped : ∃ d, reindex notes 10000 ⟨gapped, []⟩ = .ok () ⟨d, [1]⟩ ∧
    (contents Leaf d).document 1 = some first ∧ (contents Leaf d).document 3 = none := by
  obtain ⟨applied, pushed, hblocks, happlied, hmatch⟩ := reindex_eq (r := notes) (t := 3)
    (x := ⟨gapped, []⟩) (show 1 < 10000 by decide) sound_gapped (by decide +kernel)
    (show 0 = _ from rfl) (by decide) (by decide) (by decide +kernel)
  have hnil : applied = [] := List.eq_nil_of_length_eq_zero (Nat.le_zero.mp happlied)
  have hfirst : (contents Leaf gapped).stretch 1 3 = [first] := by decide +kernel
  subst hnil
  rw [show pushed = [first] from hblocks.trans hfirst] at hmatch
  have hok (base : Option Leaf) : handOver notes [] base [first] [] = .ok () [1] := by
    cases base <;> rfl
  rw [hok] at hmatch
  obtain ⟨d, hrun, _, hcontents⟩ := hmatch
  refine ⟨d, hrun, ?_, ?_⟩
  · rw [hcontents]
    decide +kernel
  · rw [hcontents]
    decide +kernel

end Restart

end BtcmChain
