import Mathlib

/-!
# Capped enumerations

A loop that adds items to a set without repetition and stops once the set holds
`count` of them, as a depth-first listing with a result limit does. `Adds`
says what one pass of such a loop does, and `adds_foldl` composes the passes of
the items of a list whose contributions are disjoint. Nothing here is specific
to one program.
-/

namespace Enumeration

variable {α : Type} {count : Nat}

/-- One pass of an enumeration capped at `count`: from `names`, allowed to add the
names `T`, the result `r` keeps `names`, adds only names of `T`, repeats none,
and holds as many names as the cap lets in. -/
structure Adds (count : Nat) (names : List α) (T : Finset α) (r : List α) : Prop where
  nodup : r.Nodup
  mem_of_mem : ∀ n ∈ names, n ∈ r
  mem_or_mem : ∀ n ∈ r, n ∈ names ∨ n ∈ T
  length_eq : r.length = max names.length (min count (names.length + T.card))

/-- A full set stays as it is. -/
theorem adds_self_of_le {names : List α} (T : Finset α) (hnd : names.Nodup)
    (hfull : count ≤ names.length) : Adds count names T names where
  nodup := hnd
  mem_of_mem _ h := h
  mem_or_mem _ h := Or.inl h
  length_eq := by omega

/-- Nothing to add leaves the set as it is. -/
theorem adds_empty {names : List α} (hnd : names.Nodup) : Adds count names ∅ names where
  nodup := hnd
  mem_of_mem _ h := h
  mem_or_mem _ h := Or.inl h
  length_eq := by simp

/-- A loop whose every step only adds items with a property only adds such items. -/
theorem mem_foldl_of_step {β : Type} {P : α → Prop} {step : List α → β → List α} :
    ∀ {bs : List β}, (∀ b ∈ bs, ∀ names n, n ∈ step names b → n ∈ names ∨ P n) →
      ∀ (names : List α) (n : α), n ∈ bs.foldl step names → n ∈ names ∨ P n := by
  intro bs
  induction bs with
  | nil => exact fun _ names n hn => Or.inl hn
  | cons b bs ih =>
    intro hstep names n hn
    rcases ih (fun b' hb' => hstep b' (List.mem_cons_of_mem b hb')) (step names b) n hn with h | h
    · exact hstep b List.mem_cons_self names n h
    · exact Or.inr h

variable [DecidableEq α]

/-- Two passes over disjoint names are one pass over both. -/
theorem Adds.trans {names r₁ r : List α} {T₁ T₂ : Finset α} (h₁ : Adds count names T₁ r₁)
    (h₂ : Adds count r₁ T₂ r) (hdisj : Disjoint T₁ T₂) : Adds count names (T₁ ∪ T₂) r where
  nodup := h₂.nodup
  mem_of_mem n hn := h₂.mem_of_mem n (h₁.mem_of_mem n hn)
  mem_or_mem n hn := by
    rcases h₂.mem_or_mem n hn with h | h
    · rcases h₁.mem_or_mem n h with h | h
      · exact Or.inl h
      · exact Or.inr (Finset.mem_union_left _ h)
    · exact Or.inr (Finset.mem_union_right _ h)
  length_eq := by
    rw [h₂.length_eq, h₁.length_eq, Finset.card_union_of_disjoint hdisj]
    omega

/-- The loop of a capped enumeration: when the step at each item is a pass over
its own names, and the items' names are pairwise disjoint and new, the loop is a
pass over all of them. -/
theorem adds_foldl {β : Type} [DecidableEq β] {step : List α → β → List α} {F : β → Finset α}
    {cs : List β} (hcs : cs.Nodup)
    (hdisj : ∀ b ∈ cs, ∀ b' ∈ cs, b ≠ b' → Disjoint (F b) (F b'))
    (hstep : ∀ b ∈ cs, ∀ names : List α, names.Nodup → (∀ n ∈ names, n ∉ F b) →
      Adds count names (F b) (step names b))
    {names : List α} (hnames : names.Nodup) (hfresh : ∀ n ∈ names, ∀ b ∈ cs, n ∉ F b) :
    Adds count names (cs.toFinset.biUnion F) (cs.foldl step names) := by
  induction cs generalizing names with
  | nil => simpa using adds_empty hnames
  | cons b cs ih =>
    rw [List.nodup_cons] at hcs
    have h₁ := hstep b (by simp) names hnames fun n hn => hfresh n hn b (by simp)
    have hfresh' : ∀ n ∈ step names b, ∀ b' ∈ cs, n ∉ F b' := by
      intro n hn b' hb'
      rcases h₁.mem_or_mem n hn with h | h
      · exact hfresh n h b' (by simp [hb'])
      · have hne : b ≠ b' := fun e => hcs.1 (e ▸ hb')
        exact Finset.disjoint_left.mp (hdisj b (by simp) b' (by simp [hb']) hne) h
    have h₂ := ih hcs.2 (fun b hb b' hb' => hdisj b (by simp [hb]) b' (by simp [hb']))
      (fun b hb => hstep b (by simp [hb])) h₁.nodup hfresh'
    have hdisj' : Disjoint (F b) (cs.toFinset.biUnion F) := by
      rw [Finset.disjoint_biUnion_right]
      intro b' hb'
      rw [List.mem_toFinset] at hb'
      exact hdisj b (by simp) b' (by simp [hb']) fun e => hcs.1 (e ▸ hb')
    rw [List.foldl_cons, List.toFinset_cons, Finset.biUnion_insert]
    exact h₁.trans h₂ hdisj'

end Enumeration
