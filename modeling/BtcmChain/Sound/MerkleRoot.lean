import BtcmChain.Lib.PairingTree
import BtcmChain.Protocol.MerkleRoot
import BtcmChain.Sound.Chains

set_option autoImplicit false

/-!
# The Merkle root is that of the pairing tree

Hashing in place is safe because the slots that are written stay behind those that are read: in
every round the front of the vector holds the next level, then come slots that are used up, then
what is still to be read. As long as the transactions can be counted in 32 bits the loops end, and
what they leave in front is joined along the pairing tree. With more transactions the first loop
does not end.
-/

namespace BtcmChain

/-! ## Reads and writes -/

/-- No slot is read that was overwritten since the outer loop was last at its head; `stale` are
those overwritten so far. -/
def ReadsFresh : List Nat → List Access → Prop
  | _, [] => True
  | _, .round :: rest => ReadsFresh [] rest
  | stale, .read slot :: rest => slot ∉ stale ∧ ReadsFresh stale rest
  | stale, .write slot :: rest => ReadsFresh (slot :: stale) rest

/-- The slots that have been overwritten since the last round began, at the end of a trace. -/
def overwritten : List Nat → List Access → List Nat
  | stale, [] => stale
  | _, .round :: rest => overwritten [] rest
  | stale, .read _ :: rest => overwritten stale rest
  | stale, .write slot :: rest => overwritten (slot :: stale) rest

theorem readsFresh_append {stale : List Nat} {l l' : List Access} :
    ReadsFresh stale (l ++ l') ↔ ReadsFresh stale l ∧ ReadsFresh (overwritten stale l) l' := by
  induction l generalizing stale with
  | nil => simp [ReadsFresh, overwritten]
  | cons e l ih => cases e <;> simp [ReadsFresh, overwritten, ih, and_assoc]

theorem overwritten_append {stale : List Nat} {l l' : List Access} :
    overwritten stale (l ++ l') = overwritten (overwritten stale l) l' := by
  induction l generalizing stale with
  | nil => rfl
  | cons e l ih => cases e <;> simp [overwritten, ih]

/-- Nothing stale was read so far, and what the round has overwritten lies below `k`. -/
structure Fresh (trace : List Access) (k : Nat) : Prop where
  reads : ReadsFresh [] trace
  below : ∀ slot ∈ overwritten [] trace, slot < k

section Events

variable {trace : List Access} {k slot : Nat}

theorem Fresh.round (h : Fresh trace k) : Fresh (trace ++ [.round]) 0 := by
  refine ⟨readsFresh_append.mpr ⟨h.reads, trivial⟩, ?_⟩
  simp [overwritten_append, overwritten]

/-- Reading a slot is safe from `k` on, where nothing was overwritten in this round. -/
theorem Fresh.read (h : Fresh trace k) (hk : k ≤ slot) : Fresh (trace ++ [.read slot]) k := by
  have hslot : slot ∉ overwritten [] trace := fun hmem => by
    have hlt := h.below slot hmem
    omega
  refine ⟨readsFresh_append.mpr ⟨h.reads, hslot, trivial⟩, ?_⟩
  rw [overwritten_append]
  exact h.below

/-- Writing takes slot `k`, which is the next one of the round. -/
theorem Fresh.write (h : Fresh trace k) : Fresh (trace ++ [.write k]) (k + 1) := by
  refine ⟨readsFresh_append.mpr ⟨h.reads, trivial⟩, ?_⟩
  intro slot hslot
  rw [overwritten_append] at hslot
  obtain rfl | hslot := List.mem_cons.mp hslot
  · omega
  · have hlt := h.below slot hslot
    omega

end Events

/-! ## Accesses -/

section Loops

variable {τ δ γ : Type} {x : δ} {trace : List Access}

theorem runs_note {e : Access} {d d' : Digests δ} {u : Unit} :
    Runs (note e) d u d' ↔ d' = { d with trace := d.trace ++ [e] } := by
  simp [note]

theorem runs_readId {i : UInt32} {slot : Nat} (pre post : List δ) (trace : List Access)
    (hi : i.toNat = slot) (hpre : pre.length = slot) :
    Runs (readId i) ⟨pre ++ x :: post, trace⟩ x ⟨pre ++ x :: post, trace ++ [.read slot]⟩ := by
  have hslot : (pre ++ x :: post)[slot]? = some x := by simp [← hpre]
  simp only [readId, runs_bind, runs_get, runs_note, hi]
  refine ⟨_, _, ⟨rfl, rfl⟩, (), _, rfl, ?_⟩
  rw [hslot]
  exact runs_pure.mpr ⟨rfl, rfl⟩

theorem runs_writeId {k : UInt32} {y : δ} {slot : Nat} (pre post : List δ) (trace : List Access)
    (hk : k.toNat = slot) (hpre : pre.length = slot) :
    Runs (writeId k x) ⟨pre ++ y :: post, trace⟩ () ⟨pre ++ x :: post, trace ++ [.write slot]⟩ := by
  have hfit : slot < (pre ++ y :: post).length := by simp [hpre]
  simp only [writeId, runs_bind, runs_get, runs_note, hk]
  refine ⟨_, _, ⟨rfl, rfl⟩, (), _, rfl, ?_⟩
  rw [if_pos hfit, runs_modify]
  simp [← hpre]

/-- A counter that does not wrap has the sum of both numbers. -/
theorem toNat_advance {i n : UInt32} {a b : Nat} (hi : i.toNat = a) (hn : n.toNat = b)
    (h : a + b < 2 ^ 32) : (i + n).toNat = a + b := by
  rw [UInt32.toNat_add, hi, hn]
  exact Nat.mod_eq_of_lt h

/-! ## The loops -/

/-- The first loop puts the digests of the transactions into the vector. -/
theorem runs_digestLoop (merkleDigest : τ → δ) {transactions : List τ} (before rest : List τ)
    (blank : List δ) {fuel : Nat} {i : UInt32} (hlist : transactions = before ++ rest)
    (hcount : transactions.length < 2 ^ 32) (hi : i.toNat = before.length)
    (hblank : blank.length = rest.length) (hfuel : rest.length < fuel)
    (hfresh : Fresh trace before.length) :
    ∃ trace', Runs (digestLoop merkleDigest transactions fuel i)
      ⟨before.map merkleDigest ++ blank, trace⟩ () ⟨transactions.map merkleDigest, trace'⟩ ∧
      Fresh trace' transactions.length := by
  induction rest generalizing before blank trace fuel i with
  | nil =>
      obtain ⟨fuel, rfl⟩ : ∃ n, fuel = n + 1 := ⟨fuel - 1, by omega⟩
      obtain rfl := List.length_eq_zero_iff.mp hblank
      rw [List.append_nil] at hlist
      subst hlist
      refine ⟨trace, ?_, hfresh⟩
      rw [digestLoop, if_neg (by omega), List.append_nil]
      exact runs_pure.mpr ⟨rfl, rfl⟩
  | cons t rest ih =>
      obtain ⟨fuel, rfl⟩ : ∃ n, fuel = n + 1 := ⟨fuel - 1, by omega⟩
      obtain ⟨y, blank, rfl⟩ := List.exists_cons_of_length_pos (l := blank) (by simp [hblank])
      have hlen : transactions.length = before.length + (rest.length + 1) := by simp [hlist]
      have hnext : (i + 1).toNat = (before ++ [t]).length := by
        rw [List.length_append]
        exact toNat_advance hi rfl (by simp; omega)
      have hget : transactions[i.toNat]? = some t := by simp [hlist, hi]
      have hfuel' : rest.length < fuel := Nat.lt_of_succ_lt_succ hfuel
      have hfresh₁ : Fresh (trace ++ [.write before.length]) (before ++ [t]).length := by
        rw [List.length_append]
        exact hfresh.write
      obtain ⟨trace', hrun, hfresh'⟩ := ih (before ++ [t]) blank (by simp [hlist]) hnext
        (by simpa using hblank) hfuel' hfresh₁
      refine ⟨trace', ?_, hfresh'⟩
      rw [digestLoop, if_pos (by omega), hget]
      refine runs_bind.mpr ⟨t, _, runs_pure.mpr ⟨rfl, rfl⟩, runs_bind.mpr ⟨(), _,
        runs_writeId _ _ _ hi (by simp), ?_⟩⟩
      simpa using hrun

/-- The loop over the pairs. `front` holds the pairs that have been hashed, `used` the slots that are
left of them, and `2 m` slots are still to be read. -/
theorem runs_pairLoop (hashPair : δ → δ → δ) {iMax i k : UInt32} {fuel m : Nat}
    (front used rest after : List δ) (hused : used.length = front.length)
    (hrest : rest.length = 2 * m) (hk : k.toNat = front.length) (hi : i.toNat = 2 * front.length)
    (hmax : iMax.toNat = 2 * front.length + 2 * m) (hfuel : m < fuel)
    (hfresh : Fresh trace front.length) :
    ∃ used' k' trace', Runs (pairLoop hashPair iMax fuel i k)
      ⟨front ++ (used ++ (rest ++ after)), trace⟩ k'
      ⟨front ++ pairUp hashPair rest ++ (used' ++ after), trace'⟩ ∧
      used'.length = front.length + m ∧ k'.toNat = front.length + m ∧
      Fresh trace' (front.length + m) := by
  induction m generalizing front used rest trace fuel i k with
  | zero =>
      obtain ⟨fuel, rfl⟩ : ∃ n, fuel = n + 1 := ⟨fuel - 1, by omega⟩
      obtain rfl := List.length_eq_zero_iff.mp hrest
      refine ⟨used, k, trace, ?_, by omega, by omega, hfresh⟩
      rw [pairLoop, if_neg (by rw [UInt32.lt_iff_toNat_lt]; omega), pairUp_nil, List.append_nil]
      exact runs_pure.mpr ⟨rfl, rfl⟩
  | succ m ih =>
      obtain ⟨fuel, rfl⟩ : ∃ n, fuel = n + 1 := ⟨fuel - 1, by omega⟩
      have hroom := iMax.toNat_lt
      match rest, hrest with
      | a :: b :: rest, hrest =>
          have hrest' : rest.length = 2 * m := by
            simp only [List.length_cons] at hrest
            omega
          -- the slot that is written is the first of those used up
          obtain ⟨y, used', hshift⟩ : ∃ y used', used ++ [a, b] = y :: used' := by
            cases used with
            | nil => exact ⟨a, [b], rfl⟩
            | cons y used => exact ⟨y, used ++ [a, b], rfl⟩
          have hused' : used'.length = front.length + 1 := by
            have hlen := congrArg List.length hshift
            simp only [List.length_append, List.length_cons, List.length_nil] at hlen
            omega
          have hi1 : (i + 1).toNat = 2 * front.length + 1 := toNat_advance hi rfl (by omega)
          have hi2 : (i + 2).toNat = 2 * front.length + 2 := toNat_advance hi rfl (by omega)
          have hk1 : (k + 1).toNat = front.length + 1 := toNat_advance hk rfl (by omega)
          have hread₁ := runs_readId (x := a) (front ++ used) (b :: (rest ++ after)) trace hi
            (by rw [List.length_append]; omega)
          have hread₂ := runs_readId (x := b) (front ++ used ++ [a]) (rest ++ after)
            (trace ++ [.read (2 * front.length)]) hi1
            (by simp only [List.length_append, List.length_cons, List.length_nil]; omega)
          have hwrite := runs_writeId (x := hashPair a b) (y := y) front (used' ++ (rest ++ after))
            (trace ++ [.read (2 * front.length)] ++ [.read (2 * front.length + 1)]) hk rfl
          have hslots : used ++ a :: b :: (rest ++ after) = y :: (used' ++ (rest ++ after)) := by
            have happ := congrArg (· ++ (rest ++ after)) hshift
            simpa using happ
          have hfresh₁ : Fresh (trace ++ [.read (2 * front.length)]) front.length :=
            hfresh.read (by omega)
          have hfresh₂ : Fresh (trace ++ [.read (2 * front.length)] ++
              [.read (2 * front.length + 1)]) front.length := hfresh₁.read (by omega)
          have hfront : (front ++ [hashPair a b]).length = front.length + 1 := by simp
          obtain ⟨used'', k', trace', hrun, hlen, hk', hfresh''⟩ := ih (front ++ [hashPair a b])
            used' rest (i := i + 2) (hused'.trans hfront.symm) hrest' (hk1.trans hfront.symm)
            (by omega) (by omega) (Nat.lt_of_succ_lt_succ hfuel) (hfront ▸ hfresh₂.write)
          refine ⟨used'', k', trace', ?_, by omega, by omega, ?_⟩
          · rw [pairLoop, if_pos (by rw [UInt32.lt_iff_toNat_lt]; omega)]
            refine runs_bind.mpr ⟨a, _, by simpa using hread₁, runs_bind.mpr ⟨b, _,
              by simpa using hread₂, runs_bind.mpr ⟨(), _, ?_, by simpa using hrun⟩⟩⟩
            simpa [hslots] using hwrite
          · rw [hfront] at hfresh''
            rwa [show front.length + (m + 1) = front.length + 1 + m by omega]

theorem toNat_odd (n : UInt64) : (n &&& 1).toNat = n.toNat % 2 := by
  rw [UInt64.toNat_and]
  exact Nat.and_one_is_mod _

/-- The pairs of a round end at the last even position. -/
theorem toNat_iMax {n : UInt64} (h : n.toNat < 2 ^ 32) :
    (n - (n &&& 1)).toUInt32.toNat = 2 * (n.toNat / 2) := by
  have hodd := toNat_odd n
  have hle : n &&& 1 ≤ n := by
    rw [UInt64.le_iff_toNat_le]
    omega
  rw [UInt64.toNat_toUInt32, UInt64.toNat_sub_of_le _ _ hle, hodd, Nat.mod_eq_of_lt (by omega)]
  omega

/-- A round leaves the next level in front: the hashes of the pairs, and an odd one behind them. -/
theorem runs_hashRound (hashPair : δ → δ → δ) (l after : List δ) {n : UInt64} {fuel : Nat}
    (hn : n.toNat = l.length) (hcount : l.length < 2 ^ 32) (hfuel : l.length / 2 < fuel)
    (hfresh : Fresh trace 0) :
    ∃ after' n' trace' k, Runs (hashRound hashPair fuel n) ⟨l ++ after, trace⟩ n'
      ⟨pairUp hashPair l ++ after', trace'⟩ ∧ n'.toNat = (pairUp hashPair l).length ∧
      Fresh trace' k := by
  obtain ⟨pairs, odd, rfl, hpairs, hodd⟩ : ∃ pairs odd, l = pairs ++ odd ∧
      pairs.length = 2 * (l.length / 2) ∧ odd.length = l.length % 2 :=
    ⟨l.take (2 * (l.length / 2)), l.drop (2 * (l.length / 2)), (List.take_append_drop _ _).symm,
      by rw [List.length_take]; omega, by rw [List.length_drop]; omega⟩
  generalize hm : (pairs ++ odd).length / 2 = m at *
  have hmax := toNat_iMax (n := n) (by omega)
  have hparity := toNat_odd n
  rw [hn, hm] at hmax
  rw [hn, ← hodd] at hparity
  have hend : (n - (n &&& 1)).toUInt32.toNat = 2 * ([] : List δ).length + 2 * m := by
    rw [hmax, List.length_nil, Nat.mul_zero, Nat.zero_add]
  obtain ⟨used, k, trace', hrun, hused, hk, hfresh'⟩ := runs_pairLoop hashPair [] [] pairs
    (odd ++ after) (i := 0) (k := 0) rfl hpairs rfl rfl hend hfuel hfresh
  simp only [List.length_nil, Nat.zero_add, List.nil_append] at hrun hused hk hfresh'
  have hlevel : (pairUp hashPair pairs).length = m := by
    rw [length_pairUp, hpairs]
    omega
  rw [pairUp_append hpairs, List.append_assoc pairs]
  match odd, hodd, hparity with
  | [], hodd, hparity =>
      have heven : n &&& 1 = 0 := by
        rw [← UInt64.toNat_inj, hparity]
        rfl
      refine ⟨used ++ after, k.toUInt64, trace', m, ?_, ?_, hfresh'⟩
      · refine runs_bind.mpr ⟨k, _, hrun, ?_⟩
        rw [if_neg (not_not_intro heven)]
        simp
      · rw [UInt32.toNat_toUInt64, hk, pairUp_nil, List.append_nil, hlevel]
  | [x], hodd, hparity =>
      have hne : n &&& 1 ≠ 0 := by
        rw [ne_eq, ← UInt64.toNat_inj, hparity]
        simp
      have hread := runs_readId (x := x) (pairUp hashPair pairs ++ used) after trace' hmax
        (by rw [List.length_append]; omega)
      -- the slot the odd digest moves to: its own, when nothing has been paired
      obtain ⟨y, used', hshift⟩ : ∃ y used', used ++ x :: after = y :: used' := by
        cases used with
        | nil => exact ⟨x, after, rfl⟩
        | cons y used => exact ⟨y, used ++ x :: after, rfl⟩
      have hwrite := runs_writeId (x := x) (y := y) (pairUp hashPair pairs) used'
        (trace' ++ [.read (2 * m)]) hk hlevel
      have hk1 : (k + 1).toNat = m + 1 := toNat_advance hk rfl (by omega)
      refine ⟨used', (k + 1).toUInt64, trace' ++ [.read (2 * m)] ++ [.write m], m + 1, ?_, ?_,
        (hfresh'.read (by omega)).write⟩
      · refine runs_bind.mpr ⟨k, _, hrun, ?_⟩
        rw [if_pos hne]
        refine runs_bind.mpr ⟨x, _, by simpa using hread, runs_bind.mpr ⟨(), _, ?_,
          runs_pure.mpr ⟨rfl, rfl⟩⟩⟩
        simpa [hshift] using hwrite
      · rw [UInt32.toNat_toUInt64, hk1, pairUp_singleton, List.length_append, hlevel]
        rfl
  | _ :: _ :: _, hodd, _ =>
      simp only [List.length_cons] at hodd
      omega

/-- Round after round the list collapses to what its tree joins to. -/
theorem runs_hashRounds (hashPair : δ → δ → δ) {steps fuel : Nat} (l after : List δ) {n : UInt64}
    {k : Nat} (hl : 0 < l.length) (hn : n.toNat = l.length) (hcount : l.length < 2 ^ 32)
    (hsteps : l.length ≤ steps) (hfuel : l.length ≤ fuel) (hfresh : Fresh trace k) :
    ∃ root after' trace', Runs (hashRounds hashPair steps fuel n) ⟨l ++ after, trace⟩ ()
      ⟨root :: after', trace'⟩ ∧ collapse hashPair l = some root ∧ Fresh trace' 0 := by
  induction fuel generalizing l after n trace k with
  | zero => omega
  | succ fuel ih =>
      have hhead := hfresh.round
      by_cases hone : l.length = 1
      · obtain ⟨x, rfl⟩ := List.length_eq_one_iff.mp hone
        refine ⟨x, after, trace ++ [.round], ?_, collapse_singleton, hhead⟩
        refine runs_bind.mpr ⟨(), _, runs_note.mpr rfl, ?_⟩
        rw [if_neg (by rw [UInt64.lt_iff_toNat_lt, hn, hone]; decide)]
        exact runs_pure.mpr ⟨rfl, rfl⟩
      · have hhalf : l.length / 2 < steps := by omega
        obtain ⟨after₁, n', trace₁, k', hround, hn', hfresh₁⟩ := runs_hashRound
          hashPair l after hn hcount hhalf hhead
        have hlen := length_pairUp hashPair l
        obtain ⟨root, after', trace', hrun, hroot, hfresh'⟩ := ih (pairUp hashPair l) after₁ (by omega) hn' (by omega) (by omega) (by omega) hfresh₁
        refine ⟨root, after', trace', ?_, ?_, hfresh'⟩
        · refine runs_bind.mpr ⟨(), _, runs_note.mpr rfl, ?_⟩
          rw [if_pos (by rw [UInt64.lt_iff_toNat_lt, hn]; change 1 < l.length; omega)]
          exact runs_bind.mpr ⟨n', _, hround, hrun⟩
        · rwa [collapse_pairUp (by omega)] at hroot

/-- Every slot has a transaction: a counter of 32 bits never comes to the end of so many. -/
theorem not_runs_digestLoop {merkleDigest : τ → δ} {transactions : List τ} {fuel : Nat} {i : UInt32}
    {d d' : Digests δ} (hcount : 2 ^ 32 ≤ transactions.length) :
    ¬ Runs (digestLoop merkleDigest transactions fuel i) d () d' := by
  induction fuel generalizing i d with
  | zero => exact runs_throw
  | succ fuel ih =>
      intro hr
      have hi := i.toNat_lt
      rw [digestLoop, if_pos (by omega)] at hr
      obtain ⟨t, _, -, hr⟩ := runs_bind.mp hr
      obtain ⟨_, _, -, hr⟩ := runs_bind.mp hr
      exact ih hr

end Loops

/-! ## The root -/

section Root

variable {τ δ γ : Type}

/-- The checksum of what the digests of the transactions join to along their pairing tree. -/
def MerkleHashes.treeRoot (h : MerkleHashes τ δ γ) (transactions : List τ) : γ :=
  (pairingTree (transactions.map h.merkleDigest)).elim h.noChecksum fun t =>
    h.checksum (t.digest h.hashPair)

theorem exists_runs_hashTransactions (h : MerkleHashes τ δ γ) {transactions : List τ} {steps : Nat}
    (hpos : 0 < transactions.length) (hcount : transactions.length < 2 ^ 32)
    (hsteps : transactions.length < steps) :
    ∃ d, Runs (hashTransactions h transactions steps)
      ⟨List.replicate transactions.length h.noDigest, []⟩ (h.treeRoot transactions) d ∧
      ReadsFresh [] d.trace := by
  have hstart : Fresh [] 0 := ⟨trivial, by simp [overwritten]⟩
  have hlen : (transactions.map h.merkleDigest).length = transactions.length := List.length_map _
  have hsize : (UInt64.ofNat transactions.length).toNat = transactions.length :=
    UInt64.toNat_ofNat_of_lt' (lt_trans hcount (by decide))
  have hroom : (transactions.map h.merkleDigest).length ≤ steps := by omega
  obtain ⟨trace₁, hdigests, hfresh₁⟩ := runs_digestLoop h.merkleDigest [] transactions
    (List.replicate transactions.length h.noDigest) (i := 0) rfl hcount rfl List.length_replicate
    hsteps hstart
  obtain ⟨root, after, trace₂, hrounds, hroot, hfresh₂⟩ := runs_hashRounds h.hashPair
    (transactions.map h.merkleDigest) [] (by omega) (hsize.trans hlen.symm) (by omega) hroom hroom
    hfresh₁
  have hread := runs_readId (x := root) (i := 0) [] after trace₂ rfl rfl
  refine ⟨⟨root :: after, trace₂ ++ [.read 0]⟩, ?_, (hfresh₂.read le_rfl).reads⟩
  have hchecksum : h.treeRoot transactions = h.checksum root := by
    rw [collapse_eq_digest, Option.map_eq_some_iff] at hroot
    obtain ⟨t, ht, rfl⟩ := hroot
    rw [MerkleHashes.treeRoot, ht, Option.elim_some]
  rw [hchecksum]
  rw [List.append_nil] at hrounds
  exact runs_bind.mpr ⟨(), _, hdigests, runs_bind.mpr ⟨(), _, hrounds, runs_bind.mpr ⟨root, _, hread,
    runs_pure.mpr ⟨rfl, rfl⟩⟩⟩⟩

/-- With fewer than 2^32 transactions the loops end at the root of the tree. -/
theorem calculateMerkleRoot_eq (h : MerkleHashes τ δ γ) {transactions : List τ} {steps : Nat}
    (hcount : transactions.length < 2 ^ 32) (hsteps : transactions.length < steps) :
    ∃ trace, calculateMerkleRoot h transactions steps = .ok (h.treeRoot transactions, trace) ∧
      ReadsFresh [] trace := by
  by_cases hempty : transactions.length = 0
  · obtain rfl := List.length_eq_zero_iff.mp hempty
    refine ⟨[], ?_, trivial⟩
    simp [calculateMerkleRoot, MerkleHashes.treeRoot, pairingTree]
  · obtain ⟨d, hrun, hfresh⟩ := exists_runs_hashTransactions h (by omega) hcount hsteps
    refine ⟨d.trace, ?_, hfresh⟩
    rw [calculateMerkleRoot, if_neg hempty]
    exact except_bind_ok.mpr ⟨_, hrun, rfl⟩

/-- With more of them no number of steps is enough. -/
theorem calculateMerkleRoot_ne_ok (h : MerkleHashes τ δ γ) {transactions : List τ} {steps : Nat}
    (hcount : 2 ^ 32 ≤ transactions.length) (r : γ × List Access) :
    calculateMerkleRoot h transactions steps ≠ .ok r := by
  intro hr
  rw [calculateMerkleRoot, if_neg (by omega)] at hr
  obtain ⟨⟨root, d⟩, hrun, -⟩ := except_bind_ok.mp hr
  obtain ⟨_, _, hdigests, -⟩ := runs_bind.mp (show Runs _ _ _ _ from hrun)
  exact not_runs_digestLoop hcount hdigests

/-- **Merkle roots.** `calculate_merkle_root` ends, with the root of the pairing tree of its
transactions and without having read a slot it had overwritten in the round, if and only if there are
fewer than 2^32 transactions. -/
theorem merkle_root_iff (h : MerkleHashes τ δ γ) (transactions : List τ) :
    (∃ enough, ∀ steps, enough ≤ steps → ∃ trace,
      calculateMerkleRoot h transactions steps = .ok (h.treeRoot transactions, trace) ∧
        ReadsFresh [] trace) ↔ transactions.length < 2 ^ 32 := by
  constructor
  · rintro ⟨enough, hall⟩
    obtain ⟨trace, hr, -⟩ := hall enough le_rfl
    by_contra hcount
    exact calculateMerkleRoot_ne_ok h (by omega) _ hr
  · intro hcount
    exact ⟨transactions.length + 1, fun steps hsteps => calculateMerkleRoot_eq h hcount (by omega)⟩

/-- A block whose root is checked commits to the pairing tree of its transactions. -/
theorem block_commits [Externals] [Cryptography] {h : MerkleHashes SignedTransaction δ ℕ}
    (hroot : ∀ transactions steps r, calculateMerkleRoot h transactions steps = .ok r →
      r.1 = Cryptography.merkleRoot transactions)
    {skip : SkipFlags} {id : BlockId} {b : BlockContents} {s s' : Objects}
    (hskip : skip.merkleCheck = false) (hcount : b.transactions.length < 2 ^ 32)
    (hr : Runs (applyContents skip id b) s () s') :
    b.transactionMerkleRoot = h.treeRoot b.transactions := by
  obtain ⟨_, _, _, _, hparts⟩ := runs_applyContents.mp hr
  obtain ⟨trace, hok, -⟩ := calculateMerkleRoot_eq h hcount (Nat.lt_succ_self _)
  rw [hparts.merkle hskip, ← hroot _ _ _ hok]

end Root

/-- Hash functions that take the greatest of their arguments, for a run that can be followed. -/
def Sample.greatest : MerkleHashes ℕ ℕ ℕ where
  merkleDigest t := t
  hashPair a b := max a b
  checksum a := a
  noDigest := 0
  noChecksum := 0

/-- For 2^32 transactions nothing is ever returned: the counter of the first loop wraps around. -/
theorem merkle_root_endless :
    (∀ steps r, calculateMerkleRoot Sample.greatest (List.replicate (2 ^ 32) 7) steps ≠ .ok r) ∧
    ¬ ∃ enough, ∀ steps, enough ≤ steps → ∃ trace,
      calculateMerkleRoot Sample.greatest (List.replicate (2 ^ 32) 7) steps =
        .ok (Sample.greatest.treeRoot (List.replicate (2 ^ 32) 7), trace) ∧ ReadsFresh [] trace := by
  have hcount : 2 ^ 32 ≤ (List.replicate (2 ^ 32) 7).length := by rw [List.length_replicate]
  refine ⟨fun steps r => calculateMerkleRoot_ne_ok _ hcount r, ?_⟩
  rintro ⟨enough, hall⟩
  obtain ⟨trace, hr, -⟩ := hall enough le_rfl
  exact calculateMerkleRoot_ne_ok _ hcount _ hr

end BtcmChain
