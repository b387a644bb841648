import Mathlib

/-!
# Merkle trees that pair the last node of an odd level with itself

The tree over a list of leaves that Bitcoin-derived code builds: each level holds the
hashes of adjacent pairs of the level below, the last node of a level of odd size
hashed with itself, up to a level of one node. `nextLevel` is one level up,
`levelAt l k` the level `k` steps above the leaves, `width n k` its size for `n`
leaves, and `root` the node at the top. Cells are read with `getD`, as an array is
indexed. Nothing here is specific to one program.
-/

namespace MerkleTree

variable {H : Type} (hash : H → H → H)

/-- One level up: the hash of each pair of adjacent nodes, the last node of an odd
level paired with itself. -/
def nextLevel : List H → List H
  | [] => []
  | [a] => [hash a a]
  | a :: b :: rest => hash a b :: nextLevel rest

/-- The level `k` steps above `l`. -/
def levelAt (l : List H) (k : Nat) : List H := (nextLevel hash)^[k] l

/-- The number of nodes `k` levels above `n` leaves, `⌈n / 2 ^ k⌉`. -/
def width (n k : Nat) : Nat := (n + 2 ^ k - 1) / 2 ^ k

theorem length_nextLevel : ∀ l : List H, (nextLevel hash l).length = (l.length + 1) / 2
  | [] => by simp [nextLevel]
  | [_] => by simp [nextLevel]
  | _ :: _ :: rest => by
    simp only [nextLevel, List.length_cons, length_nextLevel rest]
    omega

/-- The node at position `p` of the next level: the hash of nodes `2p` and
`min (2p + 1) (size - 1)`, the second being the first again at the end of an odd
level. -/
theorem getD_nextLevel (d : H) :
    ∀ (l : List H) (p : Nat), 2 * p < l.length →
      (nextLevel hash l).getD p d = hash (l.getD (2 * p) d) (l.getD (min (2 * p + 1) (l.length - 1)) d)
  | [], _, hp => absurd hp (Nat.not_lt_zero _)
  | [a], p, hp => by
    have hp0 : p = 0 := by simp at hp; omega
    subst hp0
    rfl
  | a :: b :: rest, 0, _ => by simp [nextLevel]
  | a :: b :: rest, p + 1, hp => by
    simp only [List.length_cons] at hp
    have hrest := getD_nextLevel d rest p (by omega)
    have h2 : 2 * (p + 1) = 2 * p + 1 + 1 := by ring
    have hmin : min (2 * p + 1 + 1 + 1) ((a :: b :: rest).length - 1) =
        min (2 * p + 1) (rest.length - 1) + 1 + 1 := by
      simp only [List.length_cons]
      omega
    rw [h2, hmin, nextLevel]
    simp only [List.getD_cons_succ]
    exact hrest

theorem levelAt_zero (l : List H) : levelAt hash l 0 = l := rfl

theorem levelAt_succ (l : List H) (k : Nat) :
    levelAt hash l (k + 1) = nextLevel hash (levelAt hash l k) :=
  Function.iterate_succ_apply' _ k l

theorem levelAt_succ' (l : List H) (k : Nat) :
    levelAt hash l (k + 1) = levelAt hash (nextLevel hash l) k :=
  Function.iterate_succ_apply _ k l

/-- `⌈⌈n / 2 ^ k⌉ / 2⌉ = ⌈n / 2 ^ (k + 1)⌉`. -/
theorem width_succ (n k : Nat) : width n (k + 1) = (width n k + 1) / 2 := by
  unfold width
  rcases Nat.eq_zero_or_pos n with rfl | hn
  · have h1 : (0 + 2 ^ k - 1) / 2 ^ k = 0 := Nat.div_eq_of_lt (by have := Nat.two_pow_pos k; omega)
    have h2 : (0 + 2 ^ (k + 1) - 1) / 2 ^ (k + 1) = 0 :=
      Nat.div_eq_of_lt (by have := Nat.two_pow_pos (k + 1); omega)
    rw [h1, h2]
  · have hceil : ∀ a, 0 < a → (n + a - 1) / a = (n - 1) / a + 1 := by
      intro a ha
      rw [show n + a - 1 = n - 1 + a * 1 by omega, Nat.add_mul_div_left _ _ ha]
    rw [hceil _ (Nat.two_pow_pos _), hceil _ (Nat.two_pow_pos _), Nat.pow_succ,
      ← Nat.div_div_eq_div_mul]
    omega

theorem width_zero (n : Nat) : width n 0 = n := by simp [width]

/-- Position `k` exists `h` levels up exactly when its leftmost leaf does. -/
theorem lt_width_iff {n h k : Nat} : k < width n h ↔ k * 2 ^ h < n := by
  have hpos : 0 < 2 ^ h := Nat.two_pow_pos h
  rw [width, ← Nat.add_one_le_iff, Nat.le_div_iff_mul_le hpos, Nat.add_mul, Nat.one_mul]
  omega

theorem length_levelAt (l : List H) (k : Nat) : (levelAt hash l k).length = width l.length k := by
  induction k with
  | zero => simp [levelAt_zero, width_zero]
  | succ k ih => rw [levelAt_succ, length_nextLevel, ih, width_succ]

/-- What one level of a branch check does: the node at `i` hashed with its sibling
`min (i ^^^ 1) (size - 1)`, on the side the parity of `i` says, is the node at `i / 2`
one level up. -/
theorem sibling_step (d : H) (l : List H) {i : Nat} (hi : i < l.length) :
    (if i % 2 = 1 then hash (l.getD (min (i ^^^ 1) (l.length - 1)) d) (l.getD i d)
      else hash (l.getD i d) (l.getD (min (i ^^^ 1) (l.length - 1)) d)) =
      (nextLevel hash l).getD (i / 2) d := by
  rcases Nat.mod_two_eq_zero_or_one i with hev | hodd
  · have hxor : i ^^^ 1 = i + 1 := Nat.xor_one_of_even (Nat.even_iff.mpr hev)
    rw [if_neg (by omega), hxor, getD_nextLevel hash d l (i / 2) (by omega),
      show 2 * (i / 2) = i by omega]
  · have hxor : i ^^^ 1 = i - 1 := Nat.xor_one_of_odd (Nat.odd_iff.mpr hodd)
    rw [if_pos hodd, hxor, getD_nextLevel hash d l (i / 2) (by omega),
      show 2 * (i / 2) = i - 1 by omega, show min (i - 1) (l.length - 1) = i - 1 by omega,
      show min (i - 1 + 1) (l.length - 1) = i by omega]

/-- The levels from `l` up to the root, one after the other: the array layout of the
tree. -/
def flatLevels (l : List H) : List H :=
  if 1 < l.length then l ++ flatLevels (nextLevel hash l) else l
termination_by l.length
decreasing_by
  rw [length_nextLevel]
  omega

theorem flatLevels_of_one_lt {l : List H} (h : 1 < l.length) :
    flatLevels hash l = l ++ flatLevels hash (nextLevel hash l) := by
  rw [flatLevels, if_pos h]

theorem flatLevels_of_length_le_one {l : List H} (h : l.length ≤ 1) : flatLevels hash l = l := by
  rw [flatLevels, if_neg (by omega)]

variable [Inhabited H]

/-- The root: the levels up to a single node. -/
def root (l : List H) : H :=
  if 1 < l.length then root (nextLevel hash l) else l.getD 0 default
termination_by l.length
decreasing_by
  rw [length_nextLevel]
  omega

theorem root_of_length_le_one {l : List H} (h : l.length ≤ 1) : root hash l = l.getD 0 default := by
  rw [root, if_neg (by omega)]

theorem root_nextLevel {l : List H} (h : 1 < l.length) : root hash (nextLevel hash l) = root hash l := by
  conv_rhs => rw [root, if_pos h]

/-- The last node of the layout is the root. -/
theorem getLast?_flatLevels (l : List H) (hne : l ≠ []) :
    (flatLevels hash l).getLast? = some (root hash l) := by
  induction l using WellFounded.induction (measure List.length).wf with
  | h l ih =>
    by_cases hlen : 1 < l.length
    · have hnext : nextLevel hash l ≠ [] := by
        rw [← List.length_pos_iff, length_nextLevel]
        omega
      have hsmaller : (nextLevel hash l).length < l.length := by
        rw [length_nextLevel]
        omega
      rw [flatLevels_of_one_lt hash hlen, List.getLast?_append, ih _ hsmaller hnext,
        root_nextLevel hash hlen]
      rfl
    · obtain ⟨a, rfl⟩ : ∃ a, l = [a] := by
        match l, hne with
        | [a], _ => exact ⟨a, rfl⟩
        | _ :: _ :: _, _ => simp at hlen
      rw [flatLevels_of_length_le_one hash (by simp), root_of_length_le_one hash (by simp)]
      rfl

/-- The root is the one node of the first level of at most one node. -/
theorem root_eq_getD_levelAt :
    ∀ (k : Nat) (l : List H), (∀ j < k, 1 < (levelAt hash l j).length) →
      (levelAt hash l k).length ≤ 1 → root hash l = (levelAt hash l k).getD 0 default
  | 0, l, _, hk => root_of_length_le_one hash hk
  | k + 1, l, hbelow, hk => by
    have h0 : 1 < l.length := hbelow 0 (Nat.succ_pos k)
    rw [← root_nextLevel hash h0, levelAt_succ']
    refine root_eq_getD_levelAt k (nextLevel hash l) (fun j hj => ?_) (by rwa [← levelAt_succ'])
    rw [← levelAt_succ']
    exact hbelow (j + 1) (by omega)

end MerkleTree
