import Mathlib

/-!
# Tables of buckets

A table is a list of buckets, each a list of elements. How often an element is held by
the table is its count in the concatenated buckets, so that an element that must sit
in exactly `n` buckets, once in each, is one whose count is `n`. The lemmas below say
how replacing one bucket moves that count, and how a bucket is read back after it was
replaced. Nothing here is specific to one program.
-/

namespace Buckets

variable {α : Type}

/-- Reading bucket `c` after bucket `b` was replaced. -/
theorem getD_set (vv : List (List α)) (b c : ℕ) (l : List α) :
    (vv.set b l).getD c [] = if b = c ∧ b < vv.length then l else vv.getD c [] := by
  simp only [List.getD_eq_getElem?_getD, List.getElem?_set]
  by_cases hbc : b = c
  · subst hbc
    by_cases hb : b < vv.length <;> simp [hb]
  · simp [hbc]

@[simp] theorem getD_set_self {vv : List (List α)} {b : ℕ} (hb : b < vv.length) (l : List α) :
    (vv.set b l).getD b [] = l := by
  simp [hb]

theorem getD_set_of_ne (vv : List (List α)) {b c : ℕ} (l : List α) (hbc : b ≠ c) :
    (vv.set b l).getD c [] = vv.getD c [] := by
  simp [hbc]

theorem getD_mem {vv : List (List α)} {b : ℕ} (hb : b < vv.length) : vv.getD b [] ∈ vv := by
  rw [List.getD_eq_getElem _ _ hb]
  exact List.getElem_mem hb

/-- An element of a bucket is held by the table. -/
theorem mem_flatten_of_mem_getD {vv : List (List α)} {b : ℕ} {a : α} (h : a ∈ vv.getD b []) :
    a ∈ vv.flatten := by
  by_cases hb : b < vv.length
  · exact List.mem_flatten.mpr ⟨_, getD_mem hb, h⟩
  · rw [List.getD_eq_getElem?_getD, List.getElem?_eq_none (by omega)] at h
    simp at h

/-- Every bucket of the table sits at some index. -/
theorem exists_getD_of_mem {vv : List (List α)} {l : List α} (h : l ∈ vv) :
    ∃ b < vv.length, vv.getD b [] = l := by
  obtain ⟨b, hb, rfl⟩ := List.mem_iff_getElem.mp h
  exact ⟨b, hb, by simp [hb]⟩

/-- A bucket, or the empty list past the last one, is no longer than every bucket may be. -/
theorem length_getD_le {vv : List (List α)} {n : ℕ} (h : ∀ l ∈ vv, l.length ≤ n) (b : ℕ) :
    (vv.getD b []).length ≤ n := by
  by_cases hb : b < vv.length
  · exact h _ (getD_mem hb)
  · rw [List.getD_eq_getElem?_getD, List.getElem?_eq_none (by omega)]
    simp

/-- A search over all `n` buckets, from any start `q`, finds a bucket whenever one of
them is what it looks for. -/
theorem find?_range_rotate_isSome {n q b : ℕ} {p : ℕ → Bool} (hb : b < n) (hp : p b = true) :
    ((List.range n).find? fun i => p ((i + q) % n)).isSome := by
  have hn : 0 < n := by omega
  rw [List.find?_isSome]
  refine ⟨(b + (n - q % n)) % n, List.mem_range.mpr (Nat.mod_lt _ hn), ?_⟩
  have hq := Nat.mod_add_div q n
  have hlt := Nat.mod_lt q hn
  have hsum : b + (n - q % n) + q = b + n * (q / n + 1) := by
    rw [Nat.mul_add, Nat.mul_one]
    omega
  rw [Nat.mod_add_mod, hsum, Nat.add_mul_mod_self_left, Nat.mod_eq_of_lt hb]
  exact hp

/-- A bucket of the table with bucket `b` replaced is an old bucket or the new one. -/
theorem mem_set {vv : List (List α)} {b : ℕ} {l l' : List α} (h : l' ∈ vv.set b l) :
    l' ∈ vv ∨ l' = l :=
  List.mem_or_eq_of_mem_set h

/-- A table of `vv.length` buckets of at most `n` elements holds at most
`vv.length * n`. -/
theorem length_flatten_le {vv : List (List α)} {n : ℕ} (h : ∀ l ∈ vv, l.length ≤ n) :
    vv.flatten.length ≤ vv.length * n := by
  induction vv with
  | nil => simp
  | cons l vv ih =>
    have hl := h l List.mem_cons_self
    have hrest := ih fun l' hl' => h l' (List.mem_cons_of_mem _ hl')
    rw [List.flatten_cons, List.length_append, List.length_cons, Nat.succ_mul]
    omega

section Count

variable [BEq α]

/-- Replacing bucket `b` takes its old count of an element out of the table and adds
the new one. -/
theorem count_flatten_set {vv : List (List α)} {b : ℕ} (hb : b < vv.length) (l : List α) (a : α) :
    (vv.set b l).flatten.count a + (vv.getD b []).count a = vv.flatten.count a + l.count a := by
  have hlen : b < (vv.map (List.count a)).length := by simpa using hb
  rw [List.count_flatten, List.count_flatten, List.map_set, List.sum_set]
  conv_rhs => rw [← List.set_getElem_self hlen, List.sum_set]
  simp [hb]
  omega

/-- A bucket holds an element at most as often as the table does. -/
theorem count_getD_le (vv : List (List α)) (b : ℕ) (a : α) :
    (vv.getD b []).count a ≤ vv.flatten.count a := by
  by_cases hb : b < vv.length
  · have := count_flatten_set hb [] a
    simp only [List.count_nil] at this
    omega
  · rw [List.getD_eq_getElem?_getD, List.getElem?_eq_none (by omega)]
    simp

end Count

section Erase

variable [DecidableEq α]

theorem getD_map_erase (vv : List (List α)) (a : α) (b : ℕ) :
    (vv.map (·.erase a)).getD b [] = (vv.getD b []).erase a :=
  List.getD_map vv [] (·.erase a)

/-- Taking `a` out of every bucket leaves the count of every other element. -/
theorem count_flatten_map_erase_of_ne (vv : List (List α)) {a x : α} (hx : x ≠ a) :
    (vv.map (·.erase a)).flatten.count x = vv.flatten.count x := by
  simp only [List.count_flatten, List.map_map]
  congr 1
  refine List.map_congr_left fun l _ => ?_
  rw [Function.comp_apply, List.count_erase, if_neg (by simpa using Ne.symm hx), Nat.sub_zero]

/-- Taking `a` out of every bucket of sets removes it from the table. -/
theorem count_flatten_map_erase_self {vv : List (List α)} (hnd : ∀ l ∈ vv, l.Nodup) (a : α) :
    (vv.map (·.erase a)).flatten.count a = 0 := by
  rw [List.count_eq_zero]
  intro ha
  obtain ⟨l', hl', hal⟩ := List.mem_flatten.mp ha
  obtain ⟨l, hl, rfl⟩ := List.mem_map.mp hl'
  exact ((hnd l hl).not_mem_erase) hal

/-- In a table of sets, the buckets holding `a` are as many as the table holds it. -/
theorem countP_mem_eq_count_flatten {vv : List (List α)} (hnd : ∀ l ∈ vv, l.Nodup) (a : α) :
    vv.countP (fun l => decide (a ∈ l)) = vv.flatten.count a := by
  induction vv with
  | nil => rfl
  | cons l vv ih =>
    rw [List.countP_cons, List.flatten_cons, List.count_append,
      ih fun l' hl' => hnd l' (List.mem_cons_of_mem _ hl')]
    by_cases ha : a ∈ l
    · rw [List.count_eq_one_of_mem (hnd l List.mem_cons_self) ha]
      simp [ha, Nat.add_comm]
    · rw [List.count_eq_zero_of_not_mem ha]
      simp [ha]

end Erase

section Rename

variable {β : Type} [DecidableEq α] [DecidableEq β]

/-- Renaming the elements of every bucket by `f` keeps the count of `a`, when no other
element of the table is renamed as `a` is. -/
theorem count_flatten_map_map (vv : List (List α)) (f : α → β) {a : α}
    (hf : ∀ x ∈ vv.flatten, f x = f a → x = a) :
    (vv.map (List.map f)).flatten.count (f a) = vv.flatten.count a := by
  rw [← List.map_flatten, List.count_eq_countP, List.count_eq_countP, List.countP_map]
  refine List.countP_congr fun x hx => ?_
  simp only [Function.comp_apply, beq_iff_eq]
  exact ⟨hf x hx, congrArg f⟩

end Rename

end Buckets
