import Twister.Chain.Merkle
import Twister.Serialize

/-!
# Partial Merkle trees

A `CPartialMerkleTree` (main.h, main.cpp) proves that some transactions are in a
block: a depth-first walk of the block's Merkle tree that stores one flag bit per
visited node (whether a matched transaction lies below) and one hash per node it does
not descend into. `TraverseAndBuild` writes the walk for a match mask,
`IMPLEMENT_SERIALIZE` sends it with the bits packed eight to a byte, least
significant first, and `ExtractMatches` replays it with `TraverseAndExtract`,
collecting the matched txids and recomputing the root.

`TraverseAndBuild` is modelled by the bits and hashes it pushes, in order; the
extraction state is passed explicitly. The round trip `partialMerkleTree_round_trip`
holds for every hash function and every fixed-size encoding of the hashes.
-/

namespace Twister.Chain

open MerkleTree Twister.Serialize

/-- `MAX_BLOCK_SIZE`. -/
def maxBlockSize : Nat := 50000

/-- A `CPartialMerkleTree`. -/
structure PartialMerkleTree (H : Type) where
  nTransactions : Nat
  vBits : List Bool
  vHash : List H
  fBad : Bool

/-- The counters and the matches of a `TraverseAndExtract` walk. -/
structure ExtractState (H : Type) where
  nBitsUsed : Nat
  nHashUsed : Nat
  vMatch : List H
  fBad : Bool

variable {H : Type} [Inhabited H] (hash : H → H → H)

/-- The loop of `TraverseAndBuild` computing `fParentOfMatch`: some transaction from
`pos << height` to before `(pos + 1) << height` and before `nTransactions` matches.
The loop stops at the first index past `nTransactions`, after which every index is. -/
def parentOfMatch (nTransactions : Nat) (vMatch : List Bool) (height pos : Nat) : Bool :=
  (List.range' (pos <<< height) ((pos + 1) <<< height - pos <<< height)).any fun p =>
    decide (p < nTransactions) && vMatch.getD p false

/-- `TraverseAndBuild(height, pos, vTxid, vMatch)`: the flag bits and the hashes it
pushes onto `vBits` and `vHash`, in order. A leaf, or a node with no match below,
stores its hash; any other node descends into its children, the right one only where
it exists. -/
def traverseAndBuild (nTransactions : Nat) (vTxid : List H) (vMatch : List Bool) :
    Nat → Nat → List Bool × List H
  | 0, pos => ([parentOfMatch nTransactions vMatch 0 pos], [calcHash hash nTransactions vTxid 0 pos])
  | height + 1, pos =>
    let fParentOfMatch := parentOfMatch nTransactions vMatch (height + 1) pos
    if !fParentOfMatch then
      ([fParentOfMatch], [calcHash hash nTransactions vTxid (height + 1) pos])
    else
      let left := traverseAndBuild nTransactions vTxid vMatch height (pos * 2)
      let right := if pos * 2 + 1 < calcTreeWidth nTransactions height
        then traverseAndBuild nTransactions vTxid vMatch height (pos * 2 + 1) else ([], [])
      (fParentOfMatch :: left.1 ++ right.1, left.2 ++ right.2)

/-- `CPartialMerkleTree(vTxid, vMatch)`. -/
def partialMerkleTree (vTxid : List H) (vMatch : List Bool) : PartialMerkleTree H :=
  let walk := traverseAndBuild hash vTxid.length vTxid vMatch (treeHeight vTxid.length) 0
  ⟨vTxid.length, walk.1, walk.2, false⟩

/-- The branch of `TraverseAndExtract` that uses the next stored hash: fail past the
end of `vHash`, and push the hash onto `vMatch` at a matched leaf. -/
def useHash (t : PartialMerkleTree H) (matched : Bool) (st : ExtractState H) : H × ExtractState H :=
  if st.nHashUsed ≥ t.vHash.length then (default, { st with fBad := true })
  else
    let h := t.vHash.getD st.nHashUsed default
    let st := { st with nHashUsed := st.nHashUsed + 1 }
    (h, if matched then { st with vMatch := st.vMatch ++ [h] } else st)

/-- `TraverseAndExtract(height, pos, nBitsUsed, nHashUsed, vMatch)`, split on
`height`: fail past the end of `vBits`, read the flag, and use a stored hash at a leaf
or an unflagged node, or else combine the hashes of the children. -/
def traverseAndExtract (t : PartialMerkleTree H) : Nat → Nat → ExtractState H → H × ExtractState H
  | 0, _, st =>
    if st.nBitsUsed ≥ t.vBits.length then (default, { st with fBad := true })
    else useHash t (t.vBits.getD st.nBitsUsed false) { st with nBitsUsed := st.nBitsUsed + 1 }
  | height + 1, pos, st =>
    if st.nBitsUsed ≥ t.vBits.length then (default, { st with fBad := true })
    else
      let fParentOfMatch := t.vBits.getD st.nBitsUsed false
      let st := { st with nBitsUsed := st.nBitsUsed + 1 }
      if !fParentOfMatch then useHash t false st
      else
        let (left, st) := traverseAndExtract t height (pos * 2) st
        let (right, st) := if pos * 2 + 1 < calcTreeWidth t.nTransactions height
          then traverseAndExtract t height (pos * 2 + 1) st else (left, st)
        (hash left right, st)

/-- `CPartialMerkleTree::ExtractMatches(vMatch)`: the root and the matched txids, or
`none` where the source returns 0. -/
def extractMatches (t : PartialMerkleTree H) : Option (H × List H) :=
  if t.nTransactions = 0 then none
  else if t.nTransactions > maxBlockSize / 60 then none
  else if t.vHash.length > t.nTransactions then none
  else if t.vBits.length < t.vHash.length then none
  else
    let (hashMerkleRoot, st) :=
      traverseAndExtract hash t (treeHeight t.nTransactions) 0 ⟨0, 0, [], t.fBad⟩
    if st.fBad then none
    else if (st.nBitsUsed + 7) / 8 ≠ (t.vBits.length + 7) / 8 then none
    else if st.nHashUsed ≠ t.vHash.length then none
    else some (hashMerkleRoot, st.vMatch)

/-! ## Serialization -/

/-- The flag bytes `IMPLEMENT_SERIALIZE` writes: `vBytes[p / 8] |= vBits[p] << (p % 8)`. -/
def packBits (vBits : List Bool) : Bytes :=
  vBits.zipIdx.foldl (fun vBytes bp =>
    vBytes.modify (bp.2 / 8) (· ||| ((if bp.1 then 1 else 0) <<< (bp.2 % 8).toUInt8)))
    (List.replicate ((vBits.length + 7) / 8) 0)

/-- The flags `IMPLEMENT_SERIALIZE` reads: `vBits[p] = (vBytes[p / 8] & (1 << (p % 8))) != 0`. -/
def unpackBits (vBytes : Bytes) : List Bool :=
  (List.range (vBytes.length * 8)).map fun p => vBytes.getD (p / 8) 0 &&& (1 <<< (p % 8).toUInt8) ≠ 0

/-- `IMPLEMENT_SERIALIZE` writing: `nTransactions` as an `unsigned int`, `vHash`, and the
packed flag bytes. -/
def serialize (codec : FixedCodec H) (t : PartialMerkleTree H) : Bytes :=
  leBytes 4 t.nTransactions ++ writeVector codec t.vHash ++ writeByteVector (packBits t.vBits)

/-- `IMPLEMENT_SERIALIZE` reading; `fBad` is cleared. -/
def unserialize (codec : FixedCodec H) (bytes : Bytes) : Option (PartialMerkleTree H × Bytes) := do
  let (nTransactions, rest) ← readLe 4 bytes
  let (vHash, rest) ← readVector codec rest
  let (vBytes, rest) ← readByteVector rest
  some (⟨nTransactions, unpackBits vBytes, vHash, false⟩, rest)

/-! ## The flag bytes -/

/-- The bit that `vBits[p] << (p % 8)` sets, for `k = p % 8 < 8`. -/
theorem testBit_flag (b : Bool) {k : Nat} (hk : k < 8) (j : Nat) :
    ((if b then (1 : UInt8) else 0) <<< k.toUInt8).toNat.testBit j = (b && decide (k = j)) := by
  have hk' : k.toUInt8.toNat % 8 = k := by
    simp [Nat.toUInt8, Nat.mod_eq_of_lt (show k < 256 by omega), Nat.mod_eq_of_lt hk]
  cases b with
  | false => simp
  | true =>
    have hpow : 2 ^ k < 2 ^ 8 := Nat.pow_lt_pow_right (by decide) hk
    rw [UInt8.toNat_shiftLeft, hk', if_pos rfl, UInt8.toNat_one, Nat.shiftLeft_eq, Nat.one_mul,
      Nat.mod_eq_of_lt hpow, Nat.testBit_two_pow]
    simp

/-- `x & (1 << k)` tests bit `k` of a byte. -/
theorem and_shift_ne_zero_iff (x : UInt8) {k : Nat} (hk : k < 8) :
    x &&& (1 <<< k.toUInt8) ≠ 0 ↔ x.toNat.testBit k = true := by
  have hshift : (1 <<< k.toUInt8 : UInt8).toNat = 2 ^ k := by
    have h := testBit_flag true hk
    have hk' : k.toUInt8.toNat % 8 = k := by
      simp [Nat.toUInt8, Nat.mod_eq_of_lt (show k < 256 by omega), Nat.mod_eq_of_lt hk]
    rw [UInt8.toNat_shiftLeft, hk', UInt8.toNat_one, Nat.shiftLeft_eq, Nat.one_mul,
      Nat.mod_eq_of_lt (Nat.pow_lt_pow_right (by decide) hk)]
  rw [ne_eq, ← UInt8.toNat_inj, UInt8.toNat_and, hshift, Nat.and_two_pow, UInt8.toNat_zero]
  cases x.toNat.testBit k <;> simp

/-- One step of the packing loop: the byte `p / 8` gains bit `p % 8` when the flag is
set; every other byte stays. -/
theorem testBit_modify_flag (vBytes : Bytes) (b : Bool) (p i j : Nat) (hi : i < vBytes.length)
    (hj : j < 8) :
    ((vBytes.modify (p / 8) (· ||| ((if b then 1 else 0) <<< (p % 8).toUInt8))).getD i 0).toNat.testBit j =
      ((vBytes.getD i 0).toNat.testBit j || (b && decide (p = 8 * i + j))) := by
  rw [List.getD_eq_getElem?_getD, List.getElem?_modify, List.getD_eq_getElem?_getD,
    List.getElem?_eq_getElem hi]
  simp only [Option.map_eq_map, Option.map_some, Option.getD_some]
  by_cases hp : p / 8 = i
  · rw [if_pos hp, UInt8.toNat_or, Nat.testBit_or, testBit_flag b (Nat.mod_lt _ (by decide))]
    have hbit : p % 8 = j ↔ p = 8 * i + j := by omega
    simp only [hbit]
  · rw [if_neg hp]
    have hbit : p ≠ 8 * i + j := by omega
    simp [hbit]

/-- The packing loop over flags `(b, p)` sets bit `j` of byte `i` exactly when some
flag at `p = 8i + j` is set. -/
theorem testBit_foldl_flags :
    ∀ (L : List (Bool × Nat)) (vBytes : Bytes) (i j : Nat), i < vBytes.length → j < 8 →
      ((L.foldl (fun vBytes bp =>
          vBytes.modify (bp.2 / 8) (· ||| ((if bp.1 then 1 else 0) <<< (bp.2 % 8).toUInt8)))
        vBytes).getD i 0).toNat.testBit j =
        ((vBytes.getD i 0).toNat.testBit j || L.any fun bp => bp.1 && decide (bp.2 = 8 * i + j))
  | [], _, _, _, _, _ => by simp
  | bp :: L, vBytes, i, j, hi, hj => by
    rw [List.foldl_cons, testBit_foldl_flags L _ i j (by rw [List.length_modify]; exact hi) hj,
      testBit_modify_flag vBytes bp.1 bp.2 i j hi hj, List.any_cons, Bool.or_assoc]

/-- The packing loop keeps the number of bytes. -/
theorem length_foldl_flags :
    ∀ (L : List (Bool × Nat)) (vBytes : Bytes),
      (L.foldl (fun vBytes bp =>
          vBytes.modify (bp.2 / 8) (· ||| ((if bp.1 then 1 else 0) <<< (bp.2 % 8).toUInt8)))
        vBytes).length = vBytes.length
  | [], _ => rfl
  | bp :: L, vBytes => by
    rw [List.foldl_cons, length_foldl_flags L, List.length_modify]

theorem length_packBits (vBits : List Bool) : (packBits vBits).length = (vBits.length + 7) / 8 := by
  rw [packBits, length_foldl_flags, List.length_replicate]

/-- Bit `j` of byte `i` of the flag bytes is flag `8i + j`. -/
theorem testBit_packBits (vBits : List Bool) {i j : Nat} (hi : i < (vBits.length + 7) / 8)
    (hj : j < 8) : ((packBits vBits).getD i 0).toNat.testBit j = vBits.getD (8 * i + j) false := by
  have hzero : (List.replicate ((vBits.length + 7) / 8) (0 : UInt8)).getD i 0 = 0 := by
    simp [List.getD_eq_getElem?_getD, hi]
  rw [packBits, testBit_foldl_flags _ _ i j (by rw [List.length_replicate]; exact hi) hj,
    hzero, UInt8.toNat_zero, Nat.zero_testBit, Bool.false_or]
  rw [Bool.eq_iff_iff, List.any_eq_true, List.getD_eq_getElem?_getD]
  constructor
  · rintro ⟨⟨b, p⟩, hmem, hb⟩
    simp only [Bool.and_eq_true, decide_eq_true_eq] at hb
    obtain ⟨rfl, rfl⟩ := hb
    rw [List.mem_zipIdx_iff_getElem?] at hmem
    simp [hmem]
  · intro h
    cases hget : vBits[8 * i + j]? with
    | none => simp [hget] at h
    | some b =>
      simp only [hget, Option.getD_some] at h
      exact ⟨(b, 8 * i + j), List.mem_zipIdx_iff_getElem?.mpr hget, by simp [h]⟩

/-- Reading the flag bytes gives the flags back, padded with `false` to whole bytes. -/
theorem unpackBits_packBits (vBits : List Bool) :
    unpackBits (packBits vBits) =
      vBits ++ List.replicate (8 * ((vBits.length + 7) / 8) - vBits.length) false := by
  apply List.ext_getElem
  · rw [unpackBits, List.length_map, List.length_range, length_packBits, List.length_append,
      List.length_replicate]
    omega
  · intro p hp _
    simp only [unpackBits, List.length_map, List.length_range, length_packBits] at hp
    have hbit : (packBits vBits).getD (p / 8) 0 &&& (1 <<< (p % 8).toUInt8) ≠ 0 ↔
        vBits.getD p false = true := by
      rw [and_shift_ne_zero_iff _ (Nat.mod_lt _ (by decide)),
        testBit_packBits vBits (by omega) (Nat.mod_lt _ (by decide)),
        show 8 * (p / 8) + p % 8 = p by omega]
    simp only [unpackBits, List.getElem_map, List.getElem_range]
    rw [show decide ((packBits vBits).getD (p / 8) 0 &&& (1 <<< (p % 8).toUInt8) ≠ 0) =
        vBits.getD p false by rw [Bool.eq_iff_iff, decide_eq_true_iff]; exact hbit,
      List.getElem_append]
    split_ifs with hlt
    · simp [List.getD_eq_getElem?_getD, List.getElem?_eq_getElem hlt]
    · simp [List.getD_eq_getElem?_getD, List.getElem?_eq_none (by omega : vBits.length ≤ p)]

/-! ## The walk -/

/-- The transactions below node `pos` of `height`: from `pos << height` to before
`(pos + 1) << height` and before `nTransactions`. -/
def leavesBelow (nTransactions height pos : Nat) : List Nat :=
  List.range' (pos * 2 ^ height) (min ((pos + 1) * 2 ^ height) nTransactions - pos * 2 ^ height)

/-- The txids matched below node `pos` of `height`, in order. -/
def matchedBelow (vTxid : List H) (vMatch : List Bool) (height pos : Nat) : List H :=
  (leavesBelow vTxid.length height pos).filterMap
    fun p => if vMatch.getD p false then some (vTxid.getD p default) else none

theorem length_leavesBelow (n height pos : Nat) :
    (leavesBelow n height pos).length = min ((pos + 1) * 2 ^ height) n - pos * 2 ^ height :=
  List.length_range' ..

theorem leavesBelow_zero {n pos : Nat} (hpos : pos < n) : leavesBelow n 0 pos = [pos] := by
  rw [leavesBelow, pow_zero, Nat.mul_one, Nat.mul_one, show min (pos + 1) n - pos = 1 by omega,
    List.range'_one]

/-- A node that exists has a transaction below it. -/
theorem leavesBelow_ne_nil {n height pos : Nat} (hpos : pos < width n height) :
    leavesBelow n height pos ≠ [] := by
  have hcover := lt_width_iff.mp hpos
  have hpow : pos * 2 ^ height < (pos + 1) * 2 ^ height := by
    rw [Nat.add_one_mul]
    exact Nat.lt_add_of_pos_right (Nat.two_pow_pos height)
  rw [← List.length_pos_iff, length_leavesBelow]
  omega

/-- The transactions below a node are those below its left child, then those below its
right child where it exists. -/
theorem leavesBelow_succ (n height pos : Nat) :
    leavesBelow n (height + 1) pos =
      leavesBelow n height (pos * 2) ++
        if pos * 2 + 1 < width n height then leavesBelow n height (pos * 2 + 1) else [] := by
  have ha : pos * 2 ^ (height + 1) = pos * 2 * 2 ^ height := by ring
  have hb : (pos + 1) * 2 ^ (height + 1) = pos * 2 * 2 ^ height + 2 ^ height + 2 ^ height := by ring
  have hc : (pos * 2 + 1) * 2 ^ height = pos * 2 * 2 ^ height + 2 ^ height := by ring
  have hd : (pos * 2 + 1 + 1) * 2 ^ height = pos * 2 * 2 ^ height + 2 ^ height + 2 ^ height := by ring
  unfold leavesBelow
  rw [ha, hb, hc, hd]
  simp only [lt_width_iff, hc]
  generalize pos * 2 * 2 ^ height = a
  generalize 2 ^ height = m
  split_ifs with hlt
  · have h1 : min (a + m) n - a = m := by omega
    have h2 : min (a + m + m) n - a = m + (min (a + m + m) n - (a + m)) := by omega
    rw [h1, h2, ← List.range'_append, Nat.one_mul]
  · have h1 : min (a + m) n = min (a + m + m) n := by omega
    rw [h1, List.append_nil]

omit [Inhabited H] in
/-- Below the root lie all the transactions. -/
theorem leavesBelow_treeHeight (n : Nat) : leavesBelow n (treeHeight n) 0 = List.range n := by
  have htop : n ≤ 2 ^ treeHeight n := by
    have h := Nat.not_lt.mpr (treeHeight_spec n).2
    rwa [lt_width_iff, Nat.one_mul, Nat.not_lt] at h
  rw [leavesBelow, Nat.zero_mul, Nat.zero_add, Nat.one_mul, Nat.sub_zero, Nat.min_eq_right htop,
    List.range_eq_range']

/-- At a leaf, the flag is the transaction's match bit. -/
theorem parentOfMatch_zero {n : Nat} (vMatch : List Bool) {pos : Nat} (hpos : pos < n) :
    parentOfMatch n vMatch 0 pos = vMatch.getD pos false := by
  simp [parentOfMatch, hpos]

theorem matchedBelow_zero (vTxid : List H) (vMatch : List Bool) {pos : Nat} (hpos : pos < vTxid.length) :
    matchedBelow vTxid vMatch 0 pos = if vMatch.getD pos false then [vTxid.getD pos default] else [] := by
  rw [matchedBelow, leavesBelow_zero hpos]
  by_cases hm : vMatch.getD pos false = true
  · simp only [List.filterMap_cons, List.filterMap_nil, hm, if_true]
  · simp only [List.filterMap_cons, List.filterMap_nil, hm, Bool.false_eq_true, if_false]

/-- Nothing below an unflagged node matches. -/
theorem matchedBelow_of_parentOfMatch (vTxid : List H) (vMatch : List Bool) {height pos : Nat}
    (hf : parentOfMatch vTxid.length vMatch height pos = false) :
    matchedBelow vTxid vMatch height pos = [] := by
  rw [matchedBelow, leavesBelow, List.filterMap_eq_nil_iff]
  intro p hp
  rw [parentOfMatch, Nat.shiftLeft_eq, Nat.shiftLeft_eq, List.any_eq_false] at hf
  rw [List.mem_range'_1] at hp
  have hnot := hf p (List.mem_range'_1.mpr ⟨hp.1, by omega⟩)
  have hlt : p < vTxid.length := by omega
  simp only [hlt, decide_true, Bool.true_and] at hnot
  exact if_neg hnot

/-- The matches below a node are those below its left child, then those below its right
child where it exists. -/
theorem matchedBelow_succ (vTxid : List H) (vMatch : List Bool) (height pos : Nat) :
    matchedBelow vTxid vMatch (height + 1) pos =
      matchedBelow vTxid vMatch height (pos * 2) ++
        if pos * 2 + 1 < width vTxid.length height then matchedBelow vTxid vMatch height (pos * 2 + 1)
        else [] := by
  rw [matchedBelow, leavesBelow_succ, List.filterMap_append]
  split_ifs
  · rfl
  · rw [List.filterMap_nil]
    rfl

variable (n : Nat) (vTxid : List H) (vMatch : List Bool)

/-- Every stored hash comes with a flag bit. -/
theorem length_hashes_le_bits :
    ∀ height pos, (traverseAndBuild hash n vTxid vMatch height pos).2.length ≤
      (traverseAndBuild hash n vTxid vMatch height pos).1.length
  | 0, pos => by simp [traverseAndBuild]
  | height + 1, pos => by
    have hl := length_hashes_le_bits height (pos * 2)
    have hr := length_hashes_le_bits height (pos * 2 + 1)
    rw [traverseAndBuild]
    dsimp only
    split_ifs <;> simp <;> omega

/-- The walk visits at most the nodes of a full tree of its height. -/
theorem length_bits_le :
    ∀ height pos, (traverseAndBuild hash n vTxid vMatch height pos).1.length ≤ 2 ^ (height + 1) - 1
  | 0, pos => by simp [traverseAndBuild]
  | height + 1, pos => by
    have hl := length_bits_le height (pos * 2)
    have hr := length_bits_le height (pos * 2 + 1)
    have hpow : 2 ^ (height + 1 + 1) = 2 * 2 ^ (height + 1) := by ring
    have hpos : 0 < 2 ^ (height + 1) := Nat.two_pow_pos _
    rw [traverseAndBuild]
    dsimp only
    split_ifs <;> simp <;> omega

/-- No more hashes are stored below a node than there are transactions below it. -/
theorem length_hashes_le_leaves :
    ∀ height pos, pos < width n height →
      (traverseAndBuild hash n vTxid vMatch height pos).2.length ≤ (leavesBelow n height pos).length
  | 0, pos, hpos => by
    rw [width_zero] at hpos
    simp [traverseAndBuild, leavesBelow_zero hpos]
  | height + 1, pos, hpos => by
    have hleft : pos * 2 < width n height := by
      rw [width_succ] at hpos
      omega
    have hl := length_hashes_le_leaves height (pos * 2) hleft
    by_cases hf : parentOfMatch n vMatch (height + 1) pos = true
    · rw [traverseAndBuild, leavesBelow_succ]
      simp only [hf, Bool.not_true, Bool.false_eq_true, if_false, calcTreeWidth_eq]
      by_cases hr : pos * 2 + 1 < width n height
      · have := length_hashes_le_leaves height (pos * 2 + 1) hr
        simp only [if_pos hr, List.length_append]
        omega
      · simp only [if_neg hr, List.length_append, List.length_nil]
        omega
    · rw [Bool.not_eq_true] at hf
      have hone := List.length_pos_iff.mpr (leavesBelow_ne_nil hpos)
      simp only [traverseAndBuild, hf, Bool.not_false, if_true, List.length_singleton]
      exact hone

/-- The walk from the root holds fewer than `4n` flag bits, `n ≥ 1`. -/
theorem length_bits_lt (hn : 0 < n) : (traverseAndBuild hash n vTxid vMatch (treeHeight n) 0).1.length < 4 * n := by
  have hle := length_bits_le hash n vTxid vMatch (treeHeight n) 0
  have hpow := two_pow_treeHeight_lt hn
  rw [Nat.pow_succ] at hle
  omega

/-- The walk from the root stores at most one hash per transaction. -/
theorem length_hashes_le (hn : 0 < n) : (traverseAndBuild hash n vTxid vMatch (treeHeight n) 0).2.length ≤ n := by
  have hle := length_hashes_le_leaves hash n vTxid vMatch (treeHeight n) 0 (one_le_width hn _)
  rwa [leavesBelow_treeHeight, List.length_range] at hle

/-! ## Reading the walk back -/

section Cursor

variable {α : Type}

/-- A cursor at `o` over a list that holds `x :: rest` from there reads `x` and moves to
`rest`. -/
theorem read_of_drop_eq_cons {l rest : List α} {o : Nat} {x : α} (d : α) (h : l.drop o = x :: rest) :
    o < l.length ∧ l.getD o d = x ∧ l.drop (o + 1) = rest := by
  have hget : l[o]? = some x := by
    rw [← Nat.add_zero o, ← List.getElem?_drop, h]
    rfl
  refine ⟨(List.getElem?_eq_some_iff.mp hget).1, ?_, ?_⟩
  · rw [List.getD_eq_getElem?_getD, hget, Option.getD_some]
  · rw [← List.drop_drop, h]
    rfl

/-- A cursor moves past the part of the list it has read. -/
theorem drop_add_of_drop_eq_append {l X rest : List α} {o : Nat} (h : l.drop o = X ++ rest) :
    l.drop (o + X.length) = rest := by
  rw [← List.drop_drop, h, List.drop_left]

end Cursor

/-- With a hash left to read, `useHash` reads it, advances `nHashUsed` and records it
when matched. -/
theorem useHash_of_drop_eq_cons (t : PartialMerkleTree H) (matched : Bool) (st : ExtractState H)
    {x : H} {rest : List H} (h : t.vHash.drop st.nHashUsed = x :: rest) :
    useHash t matched st =
      (x, { st with nHashUsed := st.nHashUsed + 1, vMatch := st.vMatch ++ if matched then [x] else [] }) := by
  obtain ⟨hlt, hx, -⟩ := read_of_drop_eq_cons default h
  rw [useHash, if_neg (by omega), hx]
  cases matched with
  | false => simp
  | true => rfl

/-- `TraverseAndExtract` reads back what `TraverseAndBuild` wrote: started where the walk
of a node is stored, it returns the node's hash, consumes exactly the walk's bits and
hashes, and appends the txids matched below the node. The induction is on the height,
with the state threaded through both children. -/
theorem traverseAndExtract_traverseAndBuild (t : PartialMerkleTree H)
    (ht : t.nTransactions = vTxid.length) :
    ∀ (height pos : Nat) (st : ExtractState H) (restB : List Bool) (restH : List H),
      pos < width vTxid.length height →
      t.vBits.drop st.nBitsUsed = (traverseAndBuild hash vTxid.length vTxid vMatch height pos).1 ++ restB →
      t.vHash.drop st.nHashUsed = (traverseAndBuild hash vTxid.length vTxid vMatch height pos).2 ++ restH →
      traverseAndExtract hash t height pos st =
        (calcHash hash vTxid.length vTxid height pos,
          { st with
            nBitsUsed := st.nBitsUsed + (traverseAndBuild hash vTxid.length vTxid vMatch height pos).1.length
            nHashUsed := st.nHashUsed + (traverseAndBuild hash vTxid.length vTxid vMatch height pos).2.length
            vMatch := st.vMatch ++ matchedBelow vTxid vMatch height pos })
  | 0, pos, st, restB, restH, hpos, hB, hH => by
    rw [width_zero] at hpos
    simp only [traverseAndBuild, List.singleton_append] at hB hH ⊢
    obtain ⟨hlt, hbit, -⟩ := read_of_drop_eq_cons false hB
    rw [traverseAndExtract, if_neg (by omega), hbit,
      useHash_of_drop_eq_cons t _ { st with nBitsUsed := st.nBitsUsed + 1 } hH,
      parentOfMatch_zero vMatch hpos, matchedBelow_zero vTxid vMatch hpos]
    rfl
  | height + 1, pos, st, restB, restH, hpos, hB, hH => by
    have hwidth : calcTreeWidth t.nTransactions height = width vTxid.length height := by
      rw [ht, calcTreeWidth_eq]
    by_cases hf : parentOfMatch vTxid.length vMatch (height + 1) pos = true
    · have hleft : pos * 2 < width vTxid.length height := by
        rw [width_succ] at hpos
        omega
      generalize hR : (if pos * 2 + 1 < width vTxid.length height
        then traverseAndBuild hash vTxid.length vTxid vMatch height (pos * 2 + 1) else ([], [])) = R
      have hwalk : traverseAndBuild hash vTxid.length vTxid vMatch (height + 1) pos =
          (true :: ((traverseAndBuild hash vTxid.length vTxid vMatch height (pos * 2)).1 ++ R.1),
            (traverseAndBuild hash vTxid.length vTxid vMatch height (pos * 2)).2 ++ R.2) := by
        rw [← hR]
        simp only [traverseAndBuild, hf, Bool.not_true, calcTreeWidth_eq]
        rfl
      rw [hwalk] at hB hH ⊢
      rw [List.cons_append, List.append_assoc] at hB
      rw [List.append_assoc] at hH
      obtain ⟨hlt, hbit, hB1⟩ := read_of_drop_eq_cons false hB
      have ihL := traverseAndExtract_traverseAndBuild t ht height (pos * 2)
        { st with nBitsUsed := st.nBitsUsed + 1 } _ _ hleft hB1 hH
      rw [traverseAndExtract, if_neg (by omega)]
      simp only [hbit, Bool.not_true, Bool.false_eq_true, if_false, ihL, hwidth]
      generalize traverseAndBuild hash vTxid.length vTxid vMatch height (pos * 2) = L at hB1 hH ⊢
      by_cases hr : pos * 2 + 1 < width vTxid.length height
      · rw [if_pos hr] at hR
        subst hR
        have ihR := traverseAndExtract_traverseAndBuild t ht height (pos * 2 + 1)
          { nBitsUsed := st.nBitsUsed + 1 + L.1.length, nHashUsed := st.nHashUsed + L.2.length,
            vMatch := st.vMatch ++ matchedBelow vTxid vMatch height (pos * 2), fBad := st.fBad }
          restB restH hr (drop_add_of_drop_eq_append hB1) (drop_add_of_drop_eq_append hH)
        rw [if_pos hr, ihR]
        simp only [calcHash, calcTreeWidth_eq, if_pos hr, matchedBelow_succ, List.length_cons,
          List.length_append, List.append_assoc, Prod.mk.injEq, ExtractState.mk.injEq, true_and, and_true]
        omega
      · rw [if_neg hr] at hR
        subst hR
        rw [if_neg hr]
        simp only [calcHash, calcTreeWidth_eq, if_neg hr, matchedBelow_succ, List.length_cons,
          List.append_nil, Prod.mk.injEq, ExtractState.mk.injEq, true_and, and_true]
        omega
    · rw [Bool.not_eq_true] at hf
      have hwalk : traverseAndBuild hash vTxid.length vTxid vMatch (height + 1) pos =
          ([false], [calcHash hash vTxid.length vTxid (height + 1) pos]) := by
        simp [traverseAndBuild, hf]
      rw [hwalk] at hB hH ⊢
      obtain ⟨hlt, hbit, -⟩ := read_of_drop_eq_cons false hB
      rw [traverseAndExtract, if_neg (by omega)]
      simp only [hbit]
      rw [useHash_of_drop_eq_cons t _ { st with nBitsUsed := st.nBitsUsed + 1 } hH,
        matchedBelow_of_parentOfMatch vTxid vMatch hf]
      rfl

/-! ## The round trip -/

/-- The txids `vMatch` selects, in order. -/
def matchedTxids (vTxid : List H) (vMatch : List Bool) : List H :=
  (vTxid.zip vMatch).filterMap fun p => if p.2 then some p.1 else none

omit [Inhabited H] in
theorem zip_eq_map_range (d : H) {vTxid : List H} {vMatch : List Bool} (hlen : vMatch.length = vTxid.length) :
    vTxid.zip vMatch = (List.range vTxid.length).map fun p => (vTxid.getD p d, vMatch.getD p false) := by
  apply List.ext_getElem
  · simp [hlen]
  · intro i h1 _
    simp only [List.length_zip, hlen, Nat.min_self] at h1
    simp [List.getD_eq_getElem?_getD, List.getElem?_eq_getElem h1, List.getElem?_eq_getElem (hlen ▸ h1)]

/-- The matches below the root are the matched txids. -/
theorem matchedBelow_treeHeight (hlen : vMatch.length = vTxid.length) :
    matchedBelow vTxid vMatch (treeHeight vTxid.length) 0 = matchedTxids vTxid vMatch := by
  rw [matchedBelow, leavesBelow_treeHeight, matchedTxids, zip_eq_map_range default hlen, List.filterMap_map]
  rfl

omit [Inhabited H] in
/-- Serialising a tree and reading the bytes back gives its fields, the flag bits padded
with `false` to whole bytes and `fBad` cleared. -/
theorem unserialize_serialize (codec : FixedCodec H) (t : PartialMerkleTree H)
    (hn : t.nTransactions < 2 ^ 32) (hh : t.vHash.length ≤ maxSize) (hb : (t.vBits.length + 7) / 8 ≤ maxSize) :
    unserialize codec (serialize codec t) =
      some (⟨t.nTransactions, t.vBits ++ List.replicate (8 * ((t.vBits.length + 7) / 8) - t.vBits.length) false,
        t.vHash, false⟩, []) := by
  have hbytes : (packBits t.vBits).length ≤ maxSize := by rwa [length_packBits]
  rw [serialize, unserialize, List.append_assoc, readLe_leBytes 4 _ (by norm_num; omega)]
  simp only [Option.bind_eq_bind, Option.bind_some]
  rw [readVector_writeVector codec hh]
  simp only [Option.bind_some]
  rw [← List.append_nil (writeByteVector _), readByteVector_writeByteVector hbytes]
  simp only [Option.bind_some, unpackBits_packBits]

/-- `ExtractMatches` on the walk of `CPartialMerkleTree(vTxid, vMatch)`, its flag bits
padded to as many whole bytes as they fill: the root and the matched txids. -/
theorem extractMatches_walk (hne : vTxid ≠ []) (hmax : vTxid.length ≤ maxBlockSize / 60)
    (hlen : vMatch.length = vTxid.length) (pad : List Bool)
    (hpad : ((traverseAndBuild hash vTxid.length vTxid vMatch (treeHeight vTxid.length) 0).1.length + 7) / 8 =
      ((traverseAndBuild hash vTxid.length vTxid vMatch (treeHeight vTxid.length) 0).1.length + pad.length + 7) / 8) :
    extractMatches hash
        ⟨vTxid.length, (traverseAndBuild hash vTxid.length vTxid vMatch (treeHeight vTxid.length) 0).1 ++ pad,
          (traverseAndBuild hash vTxid.length vTxid vMatch (treeHeight vTxid.length) 0).2, false⟩ =
      some (root hash vTxid, matchedTxids vTxid vMatch) := by
  have hn : 0 < vTxid.length := List.length_pos_iff.mpr hne
  have htop : 0 < width vTxid.length (treeHeight vTxid.length) := one_le_width hn _
  have hhashes := length_hashes_le hash vTxid.length vTxid vMatch hn
  have hbits := length_hashes_le_bits hash vTxid.length vTxid vMatch (treeHeight vTxid.length) 0
  have hrun := traverseAndExtract_traverseAndBuild hash vTxid vMatch
    ⟨vTxid.length, (traverseAndBuild hash vTxid.length vTxid vMatch (treeHeight vTxid.length) 0).1 ++ pad,
      (traverseAndBuild hash vTxid.length vTxid vMatch (treeHeight vTxid.length) 0).2, false⟩ rfl
    (treeHeight vTxid.length) 0 ⟨0, 0, [], false⟩ pad [] htop (by simp) (by simp)
  rw [extractMatches]
  simp only [hrun, List.length_append, Nat.zero_add, List.nil_append, Bool.false_eq_true, if_false]
  rw [if_neg (by omega), if_neg (by omega), if_neg (by omega), if_neg (by omega), if_neg (by omega),
    if_neg (by omega), calcHash_treeHeight hash hne, matchedBelow_treeHeight vTxid vMatch hlen]

/-- The round trip of `CPartialMerkleTree`: built from a match mask, serialised and read
back, `ExtractMatches` returns the matched txids in their order and the root that
`BuildMerkleTree` computes, never the failure value; for every hash function and every
fixed-size encoding of the hashes. -/
theorem partialMerkleTree_round_trip (codec : FixedCodec H) (hne : vTxid ≠ [])
    (hmax : vTxid.length ≤ maxBlockSize / 60) (hlen : vMatch.length = vTxid.length) :
    ∃ t', unserialize codec (serialize codec (partialMerkleTree hash vTxid vMatch)) = some (t', []) ∧
      extractMatches hash t' = some (root hash vTxid, matchedTxids vTxid vMatch) ∧
      buildMerkleTree hash vTxid = some (root hash vTxid) := by
  have hn : 0 < vTxid.length := List.length_pos_iff.mpr hne
  have hsmall : vTxid.length ≤ 833 := by simpa [maxBlockSize] using hmax
  have hbits := length_bits_lt hash vTxid.length vTxid vMatch hn
  have hhashes := length_hashes_le hash vTxid.length vTxid vMatch hn
  refine ⟨_, unserialize_serialize codec _ (by simp [partialMerkleTree]; omega)
    (by simp [partialMerkleTree, maxSize]; omega) (by simp [partialMerkleTree, maxSize]; omega), ?_,
    buildMerkleTree_eq_root hash hne⟩
  exact extractMatches_walk hash vTxid vMatch hne hmax hlen _ (by simp [partialMerkleTree]; omega)

/-- The round trip over three one-byte txids, the first and the last matched. -/
theorem partialMerkleTree_round_trip_three :
    ([1, 2, 3] : List UInt8) ≠ [] ∧ ([1, 2, 3] : List UInt8).length ≤ maxBlockSize / 60 ∧
      [true, false, true].length = ([1, 2, 3] : List UInt8).length ∧
      ∃ t', unserialize byteCodec
          (serialize byteCodec (partialMerkleTree (fun a b => a + 2 * b) [1, 2, 3] [true, false, true])) =
            some (t', []) ∧
        extractMatches (fun a b => a + 2 * b) t' =
          some (root (fun a b => a + 2 * b) [1, 2, 3], matchedTxids [1, 2, 3] [true, false, true]) ∧
        buildMerkleTree (fun (a b : UInt8) => a + 2 * b) [1, 2, 3] = some (root (fun a b => a + 2 * b) [1, 2, 3]) :=
  ⟨by decide, by decide, rfl,
    partialMerkleTree_round_trip (fun a b => a + 2 * b) [1, 2, 3] [true, false, true] byteCodec
      (by decide) (by decide) rfl⟩

end Twister.Chain
