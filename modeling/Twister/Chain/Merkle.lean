import Twister.Lib.MerkleTree

/-!
# Merkle roots and branches

Three computations of the Merkle root of a block's transactions:
`CBlock::BuildMerkleTree` (core.cpp) fills the array `vMerkleTree` level by level
with index arithmetic, `GetMerkleBranch` reads the siblings of a transaction out of
that array and `CheckMerkleBranch` hashes them back up to a root; and
`CPartialMerkleTree::CalcHash` (main.cpp) computes a node top-down from the tree
width `CalcTreeWidth`. All of them agree with `MerkleTree.root`.

A transaction is given by its hash, and `Hash` of two hashes by an arbitrary
function `hash`. Where the source returns `0` for no result (an empty block, an
index of `-1`) the model returns `none`.
-/

namespace Twister.Chain

open MerkleTree

variable {H : Type} [Inhabited H] (hash : H → H → H)

/-- The inner loop of `BuildMerkleTree` on the level of `nSize` nodes that starts at
`vMerkleTree[j]`: for `i = 0, 2, 4, ... < nSize`, push the hash of
`vMerkleTree[j + i]` and `vMerkleTree[j + min(i + 1, nSize - 1)]`. -/
def buildMerkleLevel (j nSize : Nat) (vMerkleTree : List H) : List H :=
  (List.range ((nSize + 1) / 2)).foldl (fun tree t =>
    let i := 2 * t
    let i2 := min (i + 1) (nSize - 1)
    tree ++ [hash (tree.getD (j + i) default) (tree.getD (j + i2) default)]) vMerkleTree

/-- The outer loop of `BuildMerkleTree`: one level at a time while the level has more
than one node, `j` moving to the start of the next. -/
def buildMerkleLevels (j nSize : Nat) (vMerkleTree : List H) : List H :=
  if nSize > 1 then
    buildMerkleLevels (j + nSize) ((nSize + 1) / 2) (buildMerkleLevel hash j nSize vMerkleTree)
  else vMerkleTree
termination_by nSize
decreasing_by omega

/-- `vMerkleTree` after `BuildMerkleTree`: the transaction hashes, then the levels. -/
def vMerkleTree (vtx : List H) : List H := buildMerkleLevels hash 0 vtx.length vtx

/-- `CBlock::BuildMerkleTree()`: the last node of `vMerkleTree`. -/
def buildMerkleTree (vtx : List H) : Option H := (vMerkleTree hash vtx).getLast?

/-- The loop of `GetMerkleBranch`: on each level of `nSize > 1` nodes from `j`, the
node `min(nIndex ^ 1, nSize - 1)`, then `nIndex >>= 1`. -/
def getMerkleBranchLoop (tree : List H) (j nSize nIndex : Nat) : List H :=
  if nSize > 1 then
    tree.getD (j + min (nIndex ^^^ 1) (nSize - 1)) default ::
      getMerkleBranchLoop tree (j + nSize) ((nSize + 1) / 2) (nIndex >>> 1)
  else []
termination_by nSize
decreasing_by omega

/-- `CBlock::GetMerkleBranch(nIndex)`, on the tree `BuildMerkleTree` fills. -/
def getMerkleBranch (vtx : List H) (nIndex : Nat) : List H :=
  getMerkleBranchLoop (vMerkleTree hash vtx) 0 vtx.length nIndex

/-- The loop of `CheckMerkleBranch`. `nIndex & 1` of an `int` is `nIndex % 2` with the
remainder taken non-negative, and `>>=` an arithmetic shift. -/
def checkMerkleBranchLoop (h : H) : List H → Int → H
  | [], _ => h
  | otherside :: rest, nIndex =>
    checkMerkleBranchLoop (if nIndex % 2 ≠ 0 then hash otherside h else hash h otherside) rest
      (nIndex >>> (1 : Nat))

/-- `CBlock::CheckMerkleBranch(hash, vMerkleBranch, nIndex)`. -/
def checkMerkleBranch (h : H) (vMerkleBranch : List H) (nIndex : Int) : Option H :=
  if nIndex = -1 then none else some (checkMerkleBranchLoop hash h vMerkleBranch nIndex)

/-- `CPartialMerkleTree::CalcTreeWidth(height)`. -/
def calcTreeWidth (nTransactions height : Nat) : Nat :=
  (nTransactions + (1 <<< height) - 1) >>> height

/-- `CPartialMerkleTree::CalcHash(height, pos, vTxid)`: a leaf is its txid; a node
hashes its left child with its right child, or with the left one again where the
right one is beyond the width of the level below. -/
def calcHash (nTransactions : Nat) (vTxid : List H) : Nat → Nat → H
  | 0, pos => vTxid.getD pos default
  | height + 1, pos =>
    let left := calcHash nTransactions vTxid height (pos * 2)
    let right := if pos * 2 + 1 < calcTreeWidth nTransactions height
      then calcHash nTransactions vTxid height (pos * 2 + 1) else left
    hash left right

theorem calcTreeWidth_eq (n height : Nat) : calcTreeWidth n height = width n height := by
  rw [calcTreeWidth, width, Nat.shiftRight_eq_div_pow, Nat.shiftLeft_eq, Nat.one_mul]

/-- A level above a width of more than one is above more leaves than its height. -/
theorem lt_of_one_lt_width {n height : Nat} (h : 1 < width n height) : height < n := by
  have hpow : 0 < 2 ^ height := Nat.two_pow_pos height
  have hmul : 2 * 2 ^ height ≤ n + 2 ^ height - 1 := by
    have := (Nat.le_div_iff_mul_le hpow).mp h
    omega
  have := Nat.lt_two_pow_self (n := height)
  omega

/-- The loop of the constructor and of `ExtractMatches` that computes the height of
the tree: the first height whose width is at most one. -/
def treeHeightFrom (nTransactions height : Nat) : Nat :=
  if calcTreeWidth nTransactions height > 1 then treeHeightFrom nTransactions (height + 1)
  else height
termination_by nTransactions - height
decreasing_by
  rw [calcTreeWidth_eq] at *
  have := lt_of_one_lt_width ‹_›
  omega

/-- `int nHeight = 0; while (CalcTreeWidth(nHeight) > 1) nHeight++;`. -/
def treeHeight (nTransactions : Nat) : Nat := treeHeightFrom nTransactions 0

/-! ## The tree array -/

/-- The inner loop appends the next level. -/
theorem buildMerkleLevel_eq (pre l : List H) :
    buildMerkleLevel hash pre.length l.length (pre ++ l) = pre ++ l ++ nextLevel hash l := by
  have hsteps : ∀ t ≤ (l.length + 1) / 2,
      (List.range t).foldl (fun tree t =>
        tree ++ [hash (tree.getD (pre.length + 2 * t) default)
          (tree.getD (pre.length + min (2 * t + 1) (l.length - 1)) default)]) (pre ++ l) =
        pre ++ l ++ (nextLevel hash l).take t := by
    intro t ht
    induction t with
    | zero => simp
    | succ t ih =>
      have hlen : (nextLevel hash l).length = (l.length + 1) / 2 := length_nextLevel hash l
      have hread : ∀ m, m < l.length →
          (pre ++ l ++ (nextLevel hash l).take t).getD (pre.length + m) default = l.getD m default := by
        intro m hm
        rw [List.append_assoc, List.getD_append_right _ _ _ _ (by omega), Nat.add_sub_cancel_left,
          List.getD_append _ _ _ _ hm]
      rw [List.range_succ, List.foldl_append, ih (by omega), List.foldl_cons, List.foldl_nil,
        hread _ (by omega), hread _ (by omega), ← getD_nextLevel hash default l t (by omega),
        List.take_add_one, List.append_assoc, List.getD_eq_getElem?_getD]
      congr 2
      rw [List.getElem?_eq_getElem (by omega)]
      rfl
  unfold buildMerkleLevel
  rw [hsteps _ le_rfl, List.take_of_length_le (by rw [length_nextLevel])]

/-- The outer loop lays out every level, from the leaves to the root. -/
theorem buildMerkleLevels_eq (pre l : List H) :
    buildMerkleLevels hash pre.length l.length (pre ++ l) = pre ++ flatLevels hash l := by
  induction l using WellFounded.induction (measure List.length).wf generalizing pre with
  | h l ih =>
    rw [buildMerkleLevels]
    by_cases hlen : 1 < l.length
    · have hnext : (nextLevel hash l).length = (l.length + 1) / 2 := length_nextLevel hash l
      rw [if_pos hlen, buildMerkleLevel_eq, ← hnext, ← List.length_append,
        ih (nextLevel hash l) (show _ < l.length by omega) (pre ++ l),
        flatLevels_of_one_lt hash hlen, List.append_assoc]
    · rw [if_neg hlen, flatLevels_of_length_le_one hash (by omega)]

theorem vMerkleTree_eq (vtx : List H) : vMerkleTree hash vtx = flatLevels hash vtx := by
  simpa [vMerkleTree] using buildMerkleLevels_eq hash [] vtx

/-- `BuildMerkleTree` returns the root of a non-empty block. -/
theorem buildMerkleTree_eq_root {vtx : List H} (hne : vtx ≠ []) :
    buildMerkleTree hash vtx = some (root hash vtx) := by
  rw [buildMerkleTree, vMerkleTree_eq, getLast?_flatLevels hash vtx hne]

/-! ## Branches -/

/-- The bit tests of `CheckMerkleBranch` on a non-negative index. -/
theorem natCast_mod_two_ne_zero (i : Nat) : (i : Int) % 2 ≠ 0 ↔ i % 2 = 1 := by
  omega

theorem natCast_shiftRight_one (i : Nat) : (i : Int) >>> (1 : Nat) = ((i / 2 : Nat) : Int) := by
  rw [Int.shiftRight_eq_div_pow]
  push_cast
  omega

/-- Checking the branch read from the levels above `l` leads from the node at `i` to
the root of `l`. -/
theorem checkMerkleBranchLoop_getMerkleBranchLoop (l pre post : List H) (i : Nat)
    (hi : i < l.length) :
    checkMerkleBranchLoop hash (l.getD i default)
      (getMerkleBranchLoop (pre ++ flatLevels hash l ++ post) pre.length l.length i) i =
      root hash l := by
  induction l using WellFounded.induction (measure List.length).wf generalizing pre i with
  | h l ih =>
    rw [getMerkleBranchLoop]
    by_cases hlen : 1 < l.length
    · have htree : pre ++ flatLevels hash l ++ post =
          (pre ++ l) ++ flatLevels hash (nextLevel hash l) ++ post := by
        rw [flatLevels_of_one_lt hash hlen]
        simp only [List.append_assoc]
      have hread : (pre ++ flatLevels hash l ++ post).getD
          (pre.length + min (i ^^^ 1) (l.length - 1)) default =
          l.getD (min (i ^^^ 1) (l.length - 1)) default := by
        rw [htree, List.append_assoc, List.append_assoc, List.getD_append_right _ _ _ _ (by omega),
          Nat.add_sub_cancel_left, List.getD_append _ _ _ _ (by omega)]
      have hnext : (nextLevel hash l).length = (l.length + 1) / 2 := length_nextLevel hash l
      have habove := ih (nextLevel hash l) (show _ < l.length by omega) (pre ++ l) (i / 2) (by omega)
      rw [List.length_append, hnext] at habove
      rw [if_pos hlen, hread, checkMerkleBranchLoop, natCast_shiftRight_one,
        Nat.shiftRight_eq_div_pow, pow_one]
      simp only [natCast_mod_two_ne_zero]
      rw [sibling_step hash default l hi, ← root_nextLevel hash hlen, htree]
      exact habove
    · have hi0 : i = 0 := by omega
      subst hi0
      rw [if_neg hlen, checkMerkleBranchLoop, root_of_length_le_one hash (by omega)]

/-! ## `CalcHash` -/

/-- `CalcHash` computes the node at `pos` of level `height`. -/
theorem calcHash_eq (vTxid : List H) :
    ∀ (height pos : Nat), pos < width vTxid.length height →
      calcHash hash vTxid.length vTxid height pos = (levelAt hash vTxid height).getD pos default
  | 0, pos, _ => rfl
  | height + 1, pos, hpos => by
    have hlen := length_levelAt hash vTxid height
    rw [width_succ] at hpos
    have hleft := calcHash_eq vTxid height (pos * 2) (by omega)
    rw [calcHash, levelAt_succ, getD_nextLevel hash default _ pos (by omega), calcTreeWidth_eq]
    rw [hleft, show pos * 2 = 2 * pos by ring]
    split_ifs with hright
    · rw [calcHash_eq vTxid height (2 * pos + 1) hright, min_eq_left (by omega)]
    · rw [min_eq_right (by omega), show (levelAt hash vTxid height).length - 1 = 2 * pos by omega]

/-- The height loop stops at the first height of width at most one. -/
theorem treeHeightFrom_spec (n : Nat) :
    ∀ height, (∀ j < height, 1 < width n j) →
      (∀ j < treeHeightFrom n height, 1 < width n j) ∧ width n (treeHeightFrom n height) ≤ 1 := by
  intro height
  induction height using WellFounded.induction (measure fun h => n - h).wf with
  | h height ih =>
    intro hbelow
    rw [treeHeightFrom]
    split_ifs with hwide
    · rw [calcTreeWidth_eq] at hwide
      have := lt_of_one_lt_width hwide
      exact ih (height + 1) (show n - (height + 1) < n - height by omega) fun j hj =>
        (Nat.lt_succ_iff_lt_or_eq.mp hj).elim (hbelow j) (fun e => e ▸ hwide)
    · rw [calcTreeWidth_eq] at hwide
      exact ⟨hbelow, by omega⟩

theorem treeHeight_spec (n : Nat) :
    (∀ j < treeHeight n, 1 < width n j) ∧ width n (treeHeight n) ≤ 1 :=
  treeHeightFrom_spec n 0 fun _ hj => absurd hj (Nat.not_lt_zero _)

/-- Every level above leaves has a node. -/
theorem one_le_width {n : Nat} (hn : 0 < n) (height : Nat) : 1 ≤ width n height := by
  have hpow : 0 < 2 ^ height := Nat.two_pow_pos height
  exact (Nat.le_div_iff_mul_le hpow).mpr (by omega)

/-- The tree over `n ≥ 1` leaves is no taller than it needs to be: `2 ^ height < 2n`. -/
theorem two_pow_treeHeight_lt {n : Nat} (hn : 0 < n) : 2 ^ treeHeight n < 2 * n := by
  obtain ⟨hbelow, -⟩ := treeHeight_spec n
  cases hH : treeHeight n with
  | zero =>
    rw [pow_zero]
    omega
  | succ k =>
    have hk := hbelow k (by omega)
    rw [lt_width_iff, Nat.one_mul] at hk
    rw [Nat.pow_succ]
    omega

/-- `CalcHash` at the tree height and position 0 is the root. -/
theorem calcHash_treeHeight {vTxid : List H} (hne : vTxid ≠ []) :
    calcHash hash vTxid.length vTxid (treeHeight vTxid.length) 0 = root hash vTxid := by
  have hn : 0 < vTxid.length := List.length_pos_iff.mpr hne
  obtain ⟨hbelow, htop⟩ := treeHeight_spec vTxid.length
  rw [calcHash_eq hash vTxid _ 0 (one_le_width hn _),
    root_eq_getD_levelAt hash (treeHeight vTxid.length) vTxid
      (fun j hj => (length_levelAt hash vTxid j).symm ▸ hbelow j hj)
      ((length_levelAt hash vTxid _).symm ▸ htop)]

/-- The three computations of the root agree: for every non-empty block and every
transaction index, checking the transaction's branch gives the root
`BuildMerkleTree` returns, and so does `CalcHash` at the tree height. -/
theorem merkle_branch_and_calcHash_agree (vtx : List H) (i : Nat) (hi : i < vtx.length) :
    checkMerkleBranch hash (vtx.getD i default) (getMerkleBranch hash vtx i) i =
        buildMerkleTree hash vtx ∧
      some (calcHash hash vtx.length vtx (treeHeight vtx.length) 0) = buildMerkleTree hash vtx ∧
      buildMerkleTree hash vtx = some (root hash vtx) := by
  have hne : vtx ≠ [] := List.ne_nil_of_length_pos (by omega)
  have hbranch := checkMerkleBranchLoop_getMerkleBranchLoop hash vtx [] [] i hi
  simp only [List.nil_append, List.append_nil, List.length_nil] at hbranch
  rw [buildMerkleTree_eq_root hash hne, calcHash_treeHeight hash hne]
  refine ⟨?_, rfl, rfl⟩
  rw [checkMerkleBranch, if_neg (by omega), getMerkleBranch, vMerkleTree_eq, hbranch]

/-- Three transactions, hashed by `a + 2b`: the branch of the last one. -/
theorem merkle_branch_and_calcHash_agree_three :
    2 < [1, 2, 3].length ∧
      (checkMerkleBranch (fun a b => a + 2 * b) ([1, 2, 3].getD 2 default)
          (getMerkleBranch (fun a b => a + 2 * b) [1, 2, 3] 2) 2 =
          buildMerkleTree (fun a b => a + 2 * b) [1, 2, 3] ∧
        some (calcHash (fun a b => a + 2 * b) [1, 2, 3].length [1, 2, 3] (treeHeight [1, 2, 3].length) 0) =
          buildMerkleTree (fun a b => a + 2 * b) [1, 2, 3] ∧
        buildMerkleTree (fun a b => a + 2 * b) [1, 2, 3] =
          some (root (fun a b => a + 2 * b) ([1, 2, 3] : List Nat))) :=
  ⟨by decide, merkle_branch_and_calcHash_agree (fun a b => a + 2 * b) [1, 2, 3] 2 (by decide)⟩

end Twister.Chain
