import Mathlib

/-!
# Vectors with back-pointers

A vector `v` of distinct elements together with a position index `pos`, where each
listed element records the position it sits at, is the idiom behind random
selection with O(1) removal: an element is removed by swapping it with the last one,
fixing the two recorded positions, and popping the end. `Indexes pos v` says the two
agree in both directions; the lemmas below show that appending, swapping two
positions and popping keep it, with the index updated at the elements that moved.
Nothing here is specific to one program.
-/

namespace BackIndex

variable {α : Type}

/-- `pos` and `v` are inverse: the element at position `i` records `i`, and an
element that records `i` is at position `i`. Elements that record nothing are not
in `v`. -/
structure Indexes (pos : α → Option ℕ) (v : List α) : Prop where
  pos_of_get : ∀ i a, v[i]? = some a → pos a = some i
  get_of_pos : ∀ a i, pos a = some i → v[i]? = some a

variable {pos : α → Option ℕ} {v : List α}

theorem indexes_nil : Indexes (fun _ => none) ([] : List α) :=
  ⟨fun i a h => by simp at h, fun a i h => by simp at h⟩

namespace Indexes

theorem lt_length (h : Indexes pos v) {a : α} {i : ℕ} (ha : pos a = some i) : i < v.length := by
  have hget := h.get_of_pos a i ha
  by_contra hi
  rw [List.getElem?_eq_none (by omega)] at hget
  cases hget

theorem mem_iff (h : Indexes pos v) (a : α) : a ∈ v ↔ (pos a).isSome := by
  constructor
  · intro ha
    obtain ⟨i, hi, hget⟩ := List.getElem_of_mem ha
    rw [h.pos_of_get i a (List.getElem?_eq_some_iff.mpr ⟨hi, hget⟩)]
    rfl
  · intro ha
    obtain ⟨i, hi⟩ := Option.isSome_iff_exists.mp ha
    exact List.mem_of_getElem? (h.get_of_pos a i hi)

theorem nodup (h : Indexes pos v) : v.Nodup := by
  rw [List.nodup_iff_getElem?_ne_getElem?]
  intro i j hij hj heq
  have hi : i < v.length := by omega
  obtain ⟨a, ha⟩ : ∃ a, v[i]? = some a := ⟨v[i], by simp [hi]⟩
  have hposi := h.pos_of_get i a ha
  have hposj := h.pos_of_get j a (heq ▸ ha)
  rw [hposi] at hposj
  cases hposj
  omega

/-- The listed elements are the elements with a position, each once. -/
theorem perm_of_nodup (h : Indexes pos v) {w : List α} (hw : w.Nodup)
    (hmem : ∀ a, a ∈ w ↔ (pos a).isSome) : v.Perm w :=
  (List.perm_ext_iff_of_nodup h.nodup hw).mpr fun a => (h.mem_iff a).trans (hmem a).symm

variable [DecidableEq α]

/-- `push_back` of an element without a position, which records the old length. -/
theorem push (h : Indexes pos v) {a : α} (ha : pos a = none) :
    Indexes (Function.update pos a (some v.length)) (v ++ [a]) where
  pos_of_get i b hb := by
    by_cases hi : i < v.length
    · rw [List.getElem?_append_left hi] at hb
      have hpos := h.pos_of_get i b hb
      have hne : b ≠ a := by
        rintro rfl
        rw [ha] at hpos
        cases hpos
      rw [Function.update_of_ne hne, hpos]
    · rw [List.getElem?_append_right (by omega)] at hb
      have hlast : i - v.length = 0 := by
        by_contra hne
        rw [List.getElem?_eq_none (by simp; omega)] at hb
        cases hb
      simp only [hlast, List.getElem?_cons_zero, Option.some.injEq] at hb
      subst hb
      rw [Function.update_self]
      congr 1
      omega
  get_of_pos b i hb := by
    by_cases hba : b = a
    · subst hba
      rw [Function.update_self] at hb
      cases hb
      simp
    · rw [Function.update_of_ne hba] at hb
      rw [List.getElem?_append_left (h.lt_length hb)]
      exact h.get_of_pos b i hb

/-- Exchanging the elements at two distinct positions, each recording its new place. -/
theorem swap (h : Indexes pos v) {i j : ℕ} {a b : α} (hij : i ≠ j)
    (ha : v[i]? = some a) (hb : v[j]? = some b) :
    Indexes (Function.update (Function.update pos a (some j)) b (some i))
      ((v.set i b).set j a) := by
  have hposa := h.pos_of_get i a ha
  have hposb := h.pos_of_get j b hb
  have hab : a ≠ b := by
    rintro rfl
    rw [hposa] at hposb
    exact hij (Option.some.inj hposb)
  have hi : i < v.length := h.lt_length hposa
  have hj : j < v.length := h.lt_length hposb
  have hget : ∀ k, ((v.set i b).set j a)[k]? =
      if k = j then some a else if k = i then some b else v[k]? := by
    intro k
    simp only [List.getElem?_set, List.length_set]
    by_cases hkj : k = j
    · simp [hkj, hj]
    · by_cases hki : k = i
      · simp [hki, hi, hij, Ne.symm hij]
      · simp [Ne.symm hkj, Ne.symm hki, hkj, hki]
  constructor
  · intro k c hc
    rw [hget] at hc
    by_cases hkj : k = j
    · rw [if_pos hkj] at hc
      cases hc
      rw [Function.update_of_ne hab, Function.update_self, hkj]
    · rw [if_neg hkj] at hc
      by_cases hki : k = i
      · rw [if_pos hki] at hc
        cases hc
        rw [Function.update_self, hki]
      · rw [if_neg hki] at hc
        have hpos := h.pos_of_get k c hc
        have hca : c ≠ a := by
          rintro rfl
          rw [hposa] at hpos
          exact hki (Option.some.inj hpos).symm
        have hcb : c ≠ b := by
          rintro rfl
          rw [hposb] at hpos
          exact hkj (Option.some.inj hpos).symm
        rw [Function.update_of_ne hcb, Function.update_of_ne hca, hpos]
  · intro c k hc
    rw [hget]
    by_cases hcb : c = b
    · subst hcb
      rw [Function.update_self] at hc
      cases hc
      simp [hij]
    · rw [Function.update_of_ne hcb] at hc
      by_cases hca : c = a
      · subst hca
        rw [Function.update_self] at hc
        cases hc
        simp
      · rw [Function.update_of_ne hca] at hc
        have hk := h.get_of_pos c k hc
        have hkj : k ≠ j := by
          rintro rfl
          rw [hb] at hk
          exact hcb (Option.some.inj hk).symm
        have hki : k ≠ i := by
          rintro rfl
          rw [ha] at hk
          exact hca (Option.some.inj hk).symm
        rw [if_neg hkj, if_neg hki, hk]

/-- `pop_back` of the last element, which loses its position. -/
theorem pop (h : Indexes pos v) {a : α} (ha : v.getLast? = some a) :
    Indexes (Function.update pos a none) v.dropLast := by
  have hv : v.dropLast ++ [a] = v := List.dropLast_append_getLast? a ha
  have hlen : v.dropLast.length + 1 = v.length := by
    rw [← hv, List.length_append, List.length_singleton]
    simp
  have hlast : v[v.dropLast.length]? = some a :=
    calc v[v.dropLast.length]? = (v.dropLast ++ [a])[v.dropLast.length]? := by rw [hv]
      _ = some a := by simp
  have hposa := h.pos_of_get _ a hlast
  constructor
  · intro k c hc
    have hk : k < v.dropLast.length := by
      by_contra hk
      rw [List.getElem?_eq_none (by omega)] at hc
      cases hc
    have hcv : v[k]? = some c := by
      rw [← hv, List.getElem?_append_left hk]
      exact hc
    have hpos := h.pos_of_get k c hcv
    have hca : c ≠ a := by
      rintro rfl
      rw [hposa] at hpos
      cases hpos
      omega
    rw [Function.update_of_ne hca, hpos]
  · intro c k hc
    have hca : c ≠ a := by
      rintro rfl
      rw [Function.update_self] at hc
      cases hc
    rw [Function.update_of_ne hca] at hc
    have hk := h.get_of_pos c k hc
    have hkne : k ≠ v.dropLast.length := by
      rintro rfl
      rw [hlast] at hk
      exact hca (Option.some.inj hk).symm
    have hklt : k < v.dropLast.length := by
      have := h.lt_length hc
      omega
    calc v.dropLast[k]? = (v.dropLast ++ [a])[k]? := (List.getElem?_append_left hklt).symm
      _ = some c := by rw [hv]; exact hk

end Indexes

end BackIndex
