import Mathlib

/-!
# Ordered association lists

A model of an ordered map (`std::map`, `std::set`) as a list of key/value pairs
kept in increasing key order. Lookup and erasure compare keys for equality only,
so their lemmas need no order axioms; insertion walks to the first larger key,
which keeps a sorted list sorted. Nothing here is specific to one program.
-/

namespace OrdMap

section Lookup

variable {κ ν : Type} [DecidableEq κ]

/-- Lookup of a key: the value of the first pair carrying it. -/
def find? (k : κ) : List (κ × ν) → Option ν
  | [] => none
  | (k', v) :: m => if k = k' then some v else find? k m

/-- Membership of a key. -/
def contains (k : κ) (m : List (κ × ν)) : Bool := (find? k m).isSome

/-- Removal of the pair carrying a key. -/
def erase (k : κ) : List (κ × ν) → List (κ × ν)
  | [] => []
  | (k', v') :: m => if k = k' then m else (k', v') :: erase k m

/-- `m[k]` with a default for an absent key, as `operator[]` reads it. -/
def findD (k : κ) (d : ν) (m : List (κ × ν)) : ν := (find? k m).getD d

/-- The keys, in list order. -/
def keys (m : List (κ × ν)) : List κ := m.map Prod.fst

@[simp] theorem find?_nil (k : κ) : find? k ([] : List (κ × ν)) = none := rfl

theorem find?_cons (k k' : κ) (v : ν) (m : List (κ × ν)) :
    find? k ((k', v) :: m) = if k = k' then some v else find? k m := rfl

/-- A key is found exactly when it is among the keys. -/
theorem find?_isSome_iff (k : κ) (m : List (κ × ν)) :
    (find? k m).isSome ↔ k ∈ keys m := by
  induction m with
  | nil => simp [keys]
  | cons p m ih =>
    obtain ⟨k', v'⟩ := p
    by_cases h : k = k'
    · simp [find?, keys, h]
    · simp [find?, keys, h] at ih ⊢
      exact ih

theorem find?_eq_none_of_not_mem {k : κ} {m : List (κ × ν)} (h : k ∉ keys m) :
    find? k m = none := by
  rw [← Option.not_isSome_iff_eq_none, find?_isSome_iff]
  exact h

/-- Erasure removes exactly the erased key, assuming no key is repeated. -/
theorem find?_erase (k k' : κ) (m : List (κ × ν)) (hnd : (keys m).Nodup) :
    find? k' (erase k m) = if k' = k then none else find? k' m := by
  induction m with
  | nil => simp [erase]
  | cons p m ih =>
    obtain ⟨k'', v'⟩ := p
    simp only [keys, List.map_cons, List.nodup_cons] at hnd
    unfold erase
    by_cases heq : k = k''
    · subst heq
      by_cases h : k' = k
      · subst h
        simpa using find?_eq_none_of_not_mem hnd.1
      · simp [find?, h]
    · simp only [if_neg heq, find?_cons, ih hnd.2]
      by_cases h : k' = k
      · subst h
        simp [heq]
      · simp [h]

/-- Erasure keeps the other pairs in order. -/
theorem erase_sublist (k : κ) (m : List (κ × ν)) : (erase k m).Sublist m := by
  induction m with
  | nil => exact List.Sublist.slnil
  | cons p m ih =>
    obtain ⟨k', v'⟩ := p
    unfold erase
    split_ifs
    · exact List.sublist_cons_self _ m
    · exact ih.cons_cons _

/-- Erasing a present key removes one pair. -/
theorem length_erase_of_mem {k : κ} {m : List (κ × ν)} (h : k ∈ keys m) :
    (erase k m).length + 1 = m.length := by
  induction m with
  | nil => simp [keys] at h
  | cons p m ih =>
    obtain ⟨k', v'⟩ := p
    unfold erase
    split_ifs with heq
    · rfl
    · have hk : k ∈ keys m := by simpa [keys, heq] using h
      simp [ih hk]

/-- A key found with a value is stored with it. -/
theorem mem_of_find?_eq_some {k : κ} {v : ν} {m : List (κ × ν)} (h : find? k m = some v) :
    (k, v) ∈ m := by
  induction m with
  | nil => simp at h
  | cons p m ih =>
    obtain ⟨k', v'⟩ := p
    rw [find?_cons] at h
    split_ifs at h with hk
    · cases h
      subst hk
      exact List.mem_cons_self
    · exact List.mem_cons_of_mem _ (ih h)

/-- In a map without a repeated key, a stored pair is what lookup finds. -/
theorem find?_eq_some_of_mem {k : κ} {v : ν} {m : List (κ × ν)} (hnd : (keys m).Nodup)
    (h : (k, v) ∈ m) : find? k m = some v := by
  induction m with
  | nil => simp at h
  | cons p m ih =>
    obtain ⟨k', v'⟩ := p
    simp only [keys, List.map_cons, List.nodup_cons] at hnd
    rcases List.mem_cons.mp h with heq | hmem
    · cases heq
      simp [find?]
    · have hne : k ≠ k' := by
        rintro rfl
        exact hnd.1 (List.mem_map_of_mem (f := Prod.fst) hmem)
      rw [find?_cons, if_neg hne]
      exact ih hnd.2 hmem

/-- Lookup through a map of the values. -/
theorem find?_map_snd {μ : Type} (f : ν → μ) (k : κ) (m : List (κ × ν)) :
    find? k (m.map fun p => (p.1, f p.2)) = (find? k m).map f := by
  induction m with
  | nil => rfl
  | cons p m ih =>
    obtain ⟨k', v'⟩ := p
    by_cases h : k = k' <;> simp [find?, h, ih]

end Lookup

section Order

variable {κ ν : Type} [LT κ]

/-- What the lemmas on key order need of `<`: a strict total order. -/
structure StrictOrder (κ : Type) [LT κ] : Prop where
  irrefl : ∀ a : κ, ¬ a < a
  trans : ∀ {a b c : κ}, a < b → b < c → a < c
  total : ∀ a b : κ, ¬ a < b → ¬ b < a → a = b

/-- The keys are strictly increasing, as in a `std::map`. -/
def Sorted (m : List (κ × ν)) : Prop := (keys m).Pairwise (· < ·)

theorem sorted_nil : Sorted ([] : List (κ × ν)) := List.Pairwise.nil

theorem Sorted.nodup (ho : StrictOrder κ) {m : List (κ × ν)} (h : Sorted m) : (keys m).Nodup :=
  h.imp fun {a b} (hab : a < b) (heq : a = b) => ho.irrefl b (heq ▸ hab)

theorem Sorted.of_sublist {m m' : List (κ × ν)} (h : Sorted m) (hs : m'.Sublist m) : Sorted m' :=
  List.Pairwise.sublist (hs.map Prod.fst) h

end Order

/-- A linear order is a strict total order. -/
theorem StrictOrder.of_linearOrder {κ : Type} [LinearOrder κ] : StrictOrder κ :=
  ⟨lt_irrefl, lt_trans, fun _ _ hab hba => le_antisymm (not_lt.mp hba) (not_lt.mp hab)⟩

section Insert

variable {κ ν : Type} [DecidableEq κ] [LT κ] [DecidableRel (α := κ) (· < ·)]

/-- Assignment `m[k] = v`: replace the value of `k`, or insert `(k, v)` before
the first larger key. -/
def insert (k : κ) (v : ν) : List (κ × ν) → List (κ × ν)
  | [] => [(k, v)]
  | (k', v') :: m =>
    if k = k' then (k, v) :: m
    else if k < k' then (k, v) :: (k', v') :: m
    else (k', v') :: insert k v m

/-- Read-modify-write `f (m[k])`, where an absent key reads as the default. -/
def modify (k : κ) (d : ν) (f : ν → ν) (m : List (κ × ν)) : List (κ × ν) :=
  insert k (f (findD k d m)) m

/-- A key reads back the value just assigned to it. -/
@[simp] theorem find?_insert_self (k : κ) (v : ν) (m : List (κ × ν)) :
    find? k (insert k v m) = some v := by
  induction m with
  | nil => simp [insert, find?]
  | cons p m ih =>
    obtain ⟨k', v'⟩ := p
    unfold insert
    by_cases heq : k = k'
    · simp [heq, find?]
    · by_cases hlt : k < k'
      · simp [heq, hlt, find?]
      · simp [heq, hlt, find?, ih]

/-- Assignment leaves every other key alone. -/
theorem find?_insert_of_ne {k k' : κ} (v : ν) (m : List (κ × ν)) (hne : k' ≠ k) :
    find? k' (insert k v m) = find? k' m := by
  induction m with
  | nil => simp [insert, find?, hne]
  | cons p m ih =>
    obtain ⟨k'', v'⟩ := p
    unfold insert
    by_cases heq : k = k''
    · subst heq
      simp [find?, hne]
    · by_cases hlt : k < k''
      · simp [heq, hlt, find?, hne]
      · simp [heq, hlt, find?, ih]

theorem find?_insert (k k' : κ) (v : ν) (m : List (κ × ν)) :
    find? k' (insert k v m) = if k' = k then some v else find? k' m := by
  by_cases h : k' = k
  · subst h
    simp
  · simp [h, find?_insert_of_ne v m h]

@[simp] theorem findD_insert_self (k : κ) (d v : ν) (m : List (κ × ν)) :
    findD k d (insert k v m) = v := by
  simp [findD]

theorem findD_insert_of_ne {k k' : κ} (d v : ν) (m : List (κ × ν)) (hne : k' ≠ k) :
    findD k' d (insert k v m) = findD k' d m := by
  simp [findD, find?_insert_of_ne v m hne]

/-- An assignment adds the assigned pair and keeps only pairs already there. -/
theorem mem_of_mem_insert {k : κ} {v : ν} {m : List (κ × ν)} {x : κ × ν}
    (h : x ∈ insert k v m) : x = (k, v) ∨ x ∈ m := by
  induction m with
  | nil => simpa [insert] using h
  | cons p m ih =>
    obtain ⟨k', v'⟩ := p
    unfold insert at h
    split_ifs at h with heq hlt
    · rcases List.mem_cons.mp h with h | h
      · exact Or.inl h
      · exact Or.inr (List.mem_cons_of_mem _ h)
    · rcases List.mem_cons.mp h with h | h
      · exact Or.inl h
      · exact Or.inr h
    · rcases List.mem_cons.mp h with h | h
      · exact Or.inr (h ▸ List.mem_cons_self)
      · rcases ih h with h | h
        · exact Or.inl h
        · exact Or.inr (List.mem_cons_of_mem _ h)

theorem mem_keys_insert (k k' : κ) (v : ν) (m : List (κ × ν)) :
    k' ∈ keys (insert k v m) ↔ k' = k ∨ k' ∈ keys m := by
  rw [← find?_isSome_iff, ← find?_isSome_iff, find?_insert]
  by_cases h : k' = k <;> simp [h]

/-- Assigning a new key adds one pair. -/
theorem length_insert_of_not_mem {k : κ} (v : ν) {m : List (κ × ν)} (h : k ∉ keys m) :
    (insert k v m).length = m.length + 1 := by
  induction m with
  | nil => rfl
  | cons p m ih =>
    obtain ⟨k', v'⟩ := p
    simp only [keys, List.map_cons, List.mem_cons, not_or] at h
    unfold insert
    rw [if_neg h.1]
    split_ifs
    · rfl
    · simp [ih h.2]

/-- Assigning a present key of a sorted map replaces its value in place. -/
theorem length_insert_of_mem (ho : StrictOrder κ) {k : κ} (v : ν) {m : List (κ × ν)}
    (hs : (keys m).Pairwise (· < ·)) (h : k ∈ keys m) : (insert k v m).length = m.length := by
  induction m with
  | nil => simp [keys] at h
  | cons p m ih =>
    obtain ⟨k', v'⟩ := p
    simp only [keys, List.map_cons, List.pairwise_cons, List.mem_cons] at hs h
    unfold insert
    split_ifs with heq hlt
    · rfl
    · rcases h with h | h
      · exact absurd h heq
      · exact absurd (ho.trans hlt (hs.1 k h)) (ho.irrefl k)
    · rcases h with h | h
      · exact absurd h heq
      · simp [ih hs.2 h]

/-- Assignment commutes with a map of the values. -/
theorem insert_map_snd {μ : Type} (f : ν → μ) (k : κ) (v : ν) (m : List (κ × ν)) :
    insert k (f v) (m.map fun p => (p.1, f p.2)) = (insert k v m).map fun p => (p.1, f p.2) := by
  induction m with
  | nil => rfl
  | cons p m ih =>
    obtain ⟨k', v'⟩ := p
    by_cases heq : k = k'
    · simp [insert, heq]
    · by_cases hlt : k < k' <;> simp [insert, heq, hlt, ih]

/-- Assignment keeps the keys increasing: a new key goes before the first larger
one, after the smaller ones. -/
theorem sorted_insert (ho : StrictOrder κ) (k : κ) (v : ν) {m : List (κ × ν)} (h : Sorted m) :
    Sorted (insert k v m) := by
  induction m with
  | nil => simp [Sorted, insert, keys]
  | cons p m ih =>
    obtain ⟨k', v'⟩ := p
    simp only [Sorted, keys, List.map_cons, List.pairwise_cons] at h
    unfold insert
    split_ifs with heq hlt
    · subst heq
      simpa [Sorted, keys] using h
    · simp only [Sorted, keys, List.map_cons]
      refine List.pairwise_cons.mpr ⟨fun a ha => ?_, List.pairwise_cons.mpr h⟩
      rcases List.mem_cons.mp ha with rfl | ha
      · exact hlt
      · exact ho.trans hlt (h.1 a ha)
    · have hgt : k' < k := by
        by_contra hnot
        exact heq (ho.total k k' hlt hnot)
      refine List.pairwise_cons.mpr ⟨fun a ha => ?_, ih h.2⟩
      rcases (mem_keys_insert k a v m).mp ha with rfl | ha
      · exact hgt
      · exact h.1 a ha

/-- Assigning a present key of a sorted map changes the number of values with a
property by what the new value adds and the old one took. -/
theorem length_filter_insert_of_find? (ho : StrictOrder κ) (p : ν → Bool) {k : κ} {v v₀ : ν}
    {m : List (κ × ν)} (hs : Sorted m) (hk : find? k m = some v₀) :
    ((insert k v m).filter fun q => p q.2).length + (p v₀).toNat =
      (m.filter fun q => p q.2).length + (p v).toNat := by
  induction m with
  | nil => simp at hk
  | cons q m ih =>
    obtain ⟨k', v'⟩ := q
    simp only [Sorted, keys, List.map_cons, List.pairwise_cons] at hs
    rw [find?_cons] at hk
    unfold insert
    split_ifs at hk ⊢ with heq hlt
    · cases hk
      cases hv : p v <;> cases hv₀ : p v₀ <;> simp [hv, hv₀]
    · have hmem : k ∈ keys m := (find?_isSome_iff k m).mp (by simp [hk])
      exact absurd (ho.trans hlt (hs.1 k hmem)) (ho.irrefl k)
    · have := ih hs.2 hk
      cases hv' : p v' <;> simp [hv', this]
      omega

/-- Assigning an absent key adds its value to the count of values with a property. -/
theorem length_filter_insert_of_find?_none (p : ν → Bool) {k : κ} (v : ν) {m : List (κ × ν)}
    (hk : find? k m = none) :
    ((insert k v m).filter fun q => p q.2).length =
      (m.filter fun q => p q.2).length + (p v).toNat := by
  induction m with
  | nil => cases hv : p v <;> simp [insert, hv]
  | cons q m ih =>
    obtain ⟨k', v'⟩ := q
    rw [find?_cons] at hk
    unfold insert
    split_ifs at hk ⊢ with heq hlt
    · cases hv : p v <;> cases hv' : p v' <;> simp [hv, hv']
    · have := ih hk
      cases hv' : p v' <;> simp [hv', this]
      omega

/-- A second assignment of the same key overwrites the first. -/
@[simp] theorem insert_insert (k : κ) (v v' : ν) (m : List (κ × ν)) :
    insert k v (insert k v' m) = insert k v m := by
  induction m with
  | nil => simp [insert]
  | cons p m ih =>
    obtain ⟨k', w⟩ := p
    by_cases heq : k = k'
    · simp [insert, heq]
    · by_cases hlt : k < k' <;> simp [insert, heq, hlt, ih]

/-- Assigning a key above every key appends it. -/
theorem insert_of_forall_lt (ho : StrictOrder κ) {k : κ} (v : ν) {m : List (κ × ν)}
    (h : ∀ k' ∈ keys m, k' < k) : insert k v m = m ++ [(k, v)] := by
  induction m with
  | nil => rfl
  | cons p m ih =>
    obtain ⟨k', v'⟩ := p
    have hlt : k' < k := h k' List.mem_cons_self
    have hne : k ≠ k' := by
      rintro rfl
      exact ho.irrefl k hlt
    have hnlt : ¬k < k' := fun hkk => ho.irrefl k (ho.trans hkk hlt)
    rw [insert, if_neg hne, if_neg hnlt, ih fun k'' hk => h k'' (List.mem_cons_of_mem _ hk)]
    rfl

end Insert

section Ext

variable {κ ν : Type} [DecidableEq κ] [LT κ]

/-- The first key of a sorted map is below every later one, so it is not found after. -/
theorem find?_eq_none_of_sorted_cons (ho : StrictOrder κ) {k : κ} {v : ν} {m : List (κ × ν)}
    (h : Sorted ((k, v) :: m)) : find? k m = none := by
  apply find?_eq_none_of_not_mem
  intro hk
  simp only [Sorted, keys, List.map_cons, List.pairwise_cons] at h
  exact ho.irrefl k (h.1 k hk)

/-- Two sorted maps that agree on every lookup are the same list. -/
theorem ext_of_sorted (ho : StrictOrder κ) {m₁ m₂ : List (κ × ν)} (h₁ : Sorted m₁)
    (h₂ : Sorted m₂) (h : ∀ k, find? k m₁ = find? k m₂) : m₁ = m₂ := by
  induction m₁ generalizing m₂ with
  | nil =>
    cases m₂ with
    | nil => rfl
    | cons p m₂ =>
      have := h p.1
      simp [find?] at this
  | cons p m₁ ih =>
    obtain ⟨k₁, v₁⟩ := p
    cases m₂ with
    | nil =>
      have := h k₁
      simp [find?] at this
    | cons q m₂ =>
      obtain ⟨k₂, v₂⟩ := q
      have hs₁ := h₁
      have hs₂ := h₂
      simp only [Sorted, keys, List.map_cons, List.pairwise_cons] at hs₁ hs₂
      have hk : k₁ = k₂ := by
        by_contra hne
        have h1 := h k₁
        have h2 := h k₂
        rw [find?_cons, find?_cons, if_pos rfl, if_neg hne] at h1
        rw [find?_cons, find?_cons, if_pos rfl, if_neg (Ne.symm hne)] at h2
        have hm₂ : k₁ ∈ keys m₂ := (find?_isSome_iff _ _).mp (by rw [← h1]; rfl)
        have hm₁ : k₂ ∈ keys m₁ := (find?_isSome_iff _ _).mp (by rw [h2]; rfl)
        exact ho.irrefl k₁ (ho.trans (hs₁.1 k₂ hm₁) (hs₂.1 k₁ hm₂))
      subst hk
      have hv : v₁ = v₂ := by
        have := h k₁
        rw [find?_cons, find?_cons, if_pos rfl, if_pos rfl] at this
        exact Option.some.inj this
      subst hv
      congr 1
      refine ih hs₁.2 hs₂.2 fun x => ?_
      by_cases hx : x = k₁
      · subst hx
        rw [find?_eq_none_of_sorted_cons ho h₁, find?_eq_none_of_sorted_cons ho h₂]
      · have := h x
        rwa [find?_cons, find?_cons, if_neg hx, if_neg hx] at this

variable [DecidableRel (α := κ) (· < ·)]

/-- Assignments of two different keys to a sorted map commute. -/
theorem insert_comm (ho : StrictOrder κ) {k k' : κ} (v v' : ν) {m : List (κ × ν)}
    (hs : Sorted m) (hne : k ≠ k') :
    insert k v (insert k' v' m) = insert k' v' (insert k v m) := by
  apply ext_of_sorted ho (sorted_insert ho _ _ (sorted_insert ho _ _ hs))
    (sorted_insert ho _ _ (sorted_insert ho _ _ hs))
  intro x
  simp only [find?_insert]
  by_cases hx : x = k
  · subst hx
    simp [hne]
  · simp [hx]

end Ext

/-- Erasing a present key takes its value out of the count of values with a property. -/
theorem length_filter_erase_of_find? {κ ν : Type} [DecidableEq κ] (p : ν → Bool) {k : κ}
    {v₀ : ν} {m : List (κ × ν)} (hk : find? k m = some v₀) :
    ((erase k m).filter fun q => p q.2).length + (p v₀).toNat =
      (m.filter fun q => p q.2).length := by
  induction m with
  | nil => simp at hk
  | cons q m ih =>
    obtain ⟨k', v'⟩ := q
    rw [find?_cons] at hk
    unfold erase
    split_ifs at hk ⊢ with heq
    · cases hk
      cases hv₀ : p v₀ <;> simp [hv₀]
    · have := ih hk
      cases hv' : p v' <;> simp [hv', this]
      omega

end OrdMap

namespace OrdSet

variable {κ : Type} [LT κ] [DecidableRel (α := κ) (· < ·)]

/-- The list with `k` placed before the first larger element. -/
def insertBefore (k : κ) : List κ → List κ
  | [] => [k]
  | k' :: s => if k < k' then k :: k' :: s else k' :: insertBefore k s

theorem insertBefore_perm (k : κ) (s : List κ) : (insertBefore k s).Perm (k :: s) := by
  induction s with
  | nil => simp [insertBefore]
  | cons k' s ih =>
    unfold insertBefore
    split
    · exact List.Perm.refl _
    · exact (ih.cons k').trans (List.Perm.swap k k' s)

variable [DecidableEq κ]

/-- `std::set::insert`: an absent key is placed in order, a present one is kept once. -/
def insert (k : κ) (s : List κ) : List κ := if k ∈ s then s else insertBefore k s

@[simp] theorem mem_insert (k k' : κ) (s : List κ) : k' ∈ insert k s ↔ k' = k ∨ k' ∈ s := by
  unfold insert
  split
  · constructor
    · exact Or.inr
    · rintro (rfl | h) <;> assumption
  · rw [(insertBefore_perm k s).mem_iff, List.mem_cons]

theorem nodup_insert (k : κ) {s : List κ} (h : s.Nodup) : (insert k s).Nodup := by
  unfold insert
  split
  · exact h
  · rw [(insertBefore_perm k s).nodup_iff, List.nodup_cons]
    exact ⟨‹_›, h⟩

theorem length_insert_of_not_mem {k : κ} {s : List κ} (h : k ∉ s) :
    (insert k s).length = s.length + 1 := by
  simp [insert, h, (insertBefore_perm k s).length_eq]

theorem perm_insert_of_not_mem {k : κ} {s : List κ} (h : k ∉ s) : (insert k s).Perm (k :: s) := by
  simpa [insert, h] using insertBefore_perm k s

/-- Inserting an element above every element appends it. -/
theorem insert_of_forall_lt (ho : OrdMap.StrictOrder κ) {k : κ} {s : List κ}
    (h : ∀ k' ∈ s, k' < k) : insert k s = s ++ [k] := by
  have hk : k ∉ s := fun hk => ho.irrefl k (h k hk)
  rw [insert, if_neg hk]
  clear hk
  induction s with
  | nil => rfl
  | cons k' s ih =>
    have hnlt : ¬k < k' := fun hkk => ho.irrefl k (ho.trans hkk (h k' List.mem_cons_self))
    rw [insertBefore, if_neg hnlt, ih fun k'' hk => h k'' (List.mem_cons_of_mem _ hk)]
    rfl

/-- Insertion keeps a set's elements increasing. -/
theorem pairwise_insert (ho : OrdMap.StrictOrder κ) (k : κ) {s : List κ}
    (h : s.Pairwise (· < ·)) : (insert k s).Pairwise (· < ·) := by
  unfold insert
  split
  · exact h
  · induction s with
    | nil => simp [insertBefore]
    | cons k' s ih =>
      rw [List.pairwise_cons] at h
      unfold insertBefore
      split_ifs with hlt
      · refine List.pairwise_cons.mpr ⟨fun a ha => ?_, List.pairwise_cons.mpr h⟩
        rcases List.mem_cons.mp ha with rfl | ha
        · exact hlt
        · exact ho.trans hlt (h.1 a ha)
      · have hne : k ≠ k' := fun heq => ‹k ∉ k' :: s› (heq ▸ List.mem_cons_self)
        have hgt : k' < k := by
          by_contra hnot
          exact hne (ho.total k k' hlt hnot)
        refine List.pairwise_cons.mpr ⟨fun a ha => ?_, ih h.2 (fun hk => ‹k ∉ k' :: s›
          (List.mem_cons_of_mem _ hk))⟩
        rcases List.mem_cons.mp ((insertBefore_perm k s).mem_iff.mp ha) with rfl | ha
        · exact hgt
        · exact h.1 a ha

end OrdSet
