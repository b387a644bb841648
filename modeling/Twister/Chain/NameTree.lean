import Twister.Chain.Block
import Twister.Lib.Enumeration

/-!
# The partial-name index

`CBlockTreeDB` (txdb.cpp) keeps a trie of the registered usernames for the
`listusernamespartial` RPC, flattened into records `('n', prefix) ↦ nextChars`:
the characters seen after each non-empty prefix, in the order they were first
added, with `'.'` marking that the prefix is itself a name.
`AddNameToPartialNameTree` records every step of a name, and
`GetNamesFromPartial` walks the trie depth first into a `std::set`, stopping
when the set holds `count` names.

Over the model stands the abstract view: a record set is the trie of a set of
names (`IsTrieOf`). Adding a name keeps it the trie of the set with that name,
and from a trie the walk returns exactly `min count k` of the `k` names under the
prefix.
-/

namespace Twister.Chain

/-- The partial-name records: each prefix with its next characters. -/
abbrev NameTree := List (Bytes × Bytes)

/-- The character that marks the end of a name, `'.'`. -/
def nameEnd : UInt8 := 46

/-- `AddCharToPartialNameTree(partialName, ch)`: append `ch` to the prefix's
characters unless it is there, creating the record if needed. -/
def addCharToPartialNameTree (db : NameTree) (partialName : Bytes) (ch : UInt8) : NameTree :=
  match OrdMap.find? partialName db with
  | some nextChars =>
    if ch ∈ nextChars then db else OrdMap.insert partialName (nextChars ++ [ch]) db
  | none => OrdMap.insert partialName [ch] db

/-- The loop of `AddNameToPartialNameTree`: with `partialName` the part of the
name already walked, record each next character after the prefix ending in the
current one. -/
def addNameFrom (db : NameTree) (partialName : Bytes) : Bytes → NameTree
  | c :: d :: rest =>
    addNameFrom (addCharToPartialNameTree db (partialName ++ [c]) d) (partialName ++ [c]) (d :: rest)
  | _ => db

/-- `AddNameToPartialNameTree(name)`: every step of the name, then `'.'` after
the whole name. (The source reads out of range on an empty name; usernames are
never empty.) -/
def addNameToPartialNameTree (db : NameTree) (name : Bytes) : NameTree :=
  addCharToPartialNameTree (addNameFrom db [] name) name nameEnd

/-- `GetNamesFromPartial(partial, names, count)`: for each recorded character in
turn, while `names` holds fewer than `count` names, insert the prefix at `'.'`
and descend otherwise. A character reached after the set is full does nothing,
as the source's loop condition stops there. The fuel bounds the depth. -/
def getNamesFromPartialLoop (db : NameTree) : Nat → Bytes → List Bytes → Nat → List Bytes
  | 0, _, names, _ => names
  | fuel + 1, partialName, names, count =>
    match OrdMap.find? partialName db with
    | none => names
    | some nextChars =>
      nextChars.foldl (fun names c =>
        if names.length < count then
          if c = nameEnd then OrdSet.insert partialName names
          else getNamesFromPartialLoop db fuel (partialName ++ [c]) names count
        else names) names

/-- The length of the longest recorded prefix. -/
def nameTreeDepth (db : NameTree) : Nat := (db.map fun e => e.1.length).foldr max 0

/-- `GetNamesFromPartial`, with fuel one past the longest prefix: a walk that
deep asks for a prefix that has no record, where the source stops too. -/
def getNamesFromPartial (db : NameTree) (partialName : Bytes) (names : List Bytes)
    (count : Nat) : List Bytes :=
  getNamesFromPartialLoop db (nameTreeDepth db + 1) partialName names count

/-- The characters recorded after a prefix; none without a record. -/
def nextChars (db : NameTree) (q : Bytes) : Bytes := (OrdMap.find? q db).getD []

/-- `db` is the trie of the set of names `S`: after each non-empty prefix it
records, without repetition, `'.'` when the prefix is a name of `S` and each
character that extends the prefix towards a name of `S`; exactly the non-empty
prefixes of names of `S` have a record. -/
structure IsTrieOf (db : NameTree) (S : Finset Bytes) : Prop where
  nodup : ∀ q, (nextChars db q).Nodup
  mem_nextChars : ∀ q c, c ∈ nextChars db q ↔
    q ≠ [] ∧ ((c = nameEnd ∧ q ∈ S) ∨ (c ≠ nameEnd ∧ ∃ n ∈ S, q ++ [c] <+: n))
  isSome_find : ∀ q, (OrdMap.find? q db).isSome ↔ q ≠ [] ∧ ∃ n ∈ S, q <+: n

/-- A name the trie can hold: not empty, and without the end mark. -/
def ValidName (n : Bytes) : Prop := n ≠ [] ∧ nameEnd ∉ n

/-- A username that passes `CheckUsername` is one the trie can hold. -/
theorem validName_of_checkUsername {n : Bytes} (h : checkUsername n = true) : ValidName n := by
  simp only [checkUsername, Bool.and_eq_true, Bool.not_eq_eq_eq_not, Bool.not_true,
    List.isEmpty_eq_false_iff, List.all_eq_true] at h
  obtain ⟨⟨hne, -⟩, hall⟩ := h
  refine ⟨hne, fun hmem => absurd (hall nameEnd hmem) (by decide)⟩

/-- The names of `S` under a prefix. -/
def namesUnder (S : Finset Bytes) (q : Bytes) : Finset Bytes := S.filter (q <+: ·)

section Records

variable (db : NameTree) (p : Bytes) (ch : UInt8)

theorem find?_addCharToPartialNameTree (q : Bytes) :
    OrdMap.find? q (addCharToPartialNameTree db p ch) =
      if q = p then some (if ch ∈ nextChars db p then nextChars db p else nextChars db p ++ [ch])
      else OrdMap.find? q db := by
  unfold addCharToPartialNameTree nextChars
  cases hp : OrdMap.find? p db with
  | none => simp [OrdMap.find?_insert]
  | some nc =>
    by_cases hch : ch ∈ nc
    · by_cases hq : q = p
      · subst hq; simp [hp, hch]
      · simp [hch, hq]
    · simp [hch, OrdMap.find?_insert]

theorem nextChars_addChar (q : Bytes) :
    nextChars (addCharToPartialNameTree db p ch) q =
      if q = p then (if ch ∈ nextChars db p then nextChars db p else nextChars db p ++ [ch])
      else nextChars db q := by
  by_cases hq : q = p
  · subst hq
    simp only [nextChars, find?_addCharToPartialNameTree, if_true, Option.getD_some]
  · simp only [nextChars, find?_addCharToPartialNameTree, hq, if_false]

theorem mem_nextChars_addChar (q : Bytes) (c : UInt8) :
    c ∈ nextChars (addCharToPartialNameTree db p ch) q ↔
      c ∈ nextChars db q ∨ (q = p ∧ c = ch) := by
  rw [nextChars_addChar]
  by_cases hq : q = p
  · subst hq
    by_cases hch : ch ∈ nextChars db q
    · simp only [if_true, hch, true_and]
      constructor
      · exact Or.inl
      · rintro (h | rfl)
        · exact h
        · exact hch
    · simp [hch]
  · simp [hq]

theorem nodup_nextChars_addChar {db : NameTree} (hnd : ∀ q, (nextChars db q).Nodup) (q : Bytes) :
    (nextChars (addCharToPartialNameTree db p ch) q).Nodup := by
  rw [nextChars_addChar]
  by_cases hq : q = p
  · subst hq
    by_cases hch : ch ∈ nextChars db q
    · rw [if_pos rfl, if_pos hch]
      exact hnd q
    · rw [if_pos rfl, if_neg hch, List.nodup_append]
      refine ⟨hnd q, List.nodup_singleton ch, ?_⟩
      intro a ha b hb
      rw [List.mem_singleton] at hb
      subst hb
      exact fun h => hch (h ▸ ha)
  · simpa [hq] using hnd q

theorem isSome_find_addChar (q : Bytes) :
    (OrdMap.find? q (addCharToPartialNameTree db p ch)).isSome ↔
      (OrdMap.find? q db).isSome ∨ q = p := by
  rw [find?_addCharToPartialNameTree]
  by_cases hq : q = p <;> simp [hq]

end Records

section AddName

/-- The steps of a name's rest after the walked part `pre`: the prefixes `pre ++ m`,
for a non-empty `m` followed by the character `x` in `c :: d :: rest`, are the
first step `(pre ++ [c], d)` and the steps of `d :: rest` after `pre ++ [c]`. -/
theorem steps_cons_iff {α : Type} (pre q : List α) (c d x : α) (rest : List α) :
    (∃ m, m ≠ [] ∧ q = pre ++ m ∧ m ++ [x] <+: c :: d :: rest) ↔
      (q = pre ++ [c] ∧ x = d) ∨ ∃ m, m ≠ [] ∧ q = pre ++ [c] ++ m ∧ m ++ [x] <+: d :: rest := by
  constructor
  · rintro ⟨m, hm, rfl, hpre⟩
    obtain ⟨y, m', rfl⟩ := List.exists_cons_of_ne_nil hm
    rw [List.cons_append, List.cons_prefix_cons] at hpre
    obtain ⟨rfl, hpre⟩ := hpre
    by_cases hm' : m' = []
    · subst hm'
      rw [List.nil_append, List.cons_prefix_cons] at hpre
      exact Or.inl ⟨rfl, hpre.1⟩
    · exact Or.inr ⟨m', hm', by simp, hpre⟩
  · rintro (⟨rfl, rfl⟩ | ⟨m, hm, rfl, hpre⟩)
    · exact ⟨[c], by simp, rfl, by simp⟩
    · exact ⟨c :: m, by simp, by simp, by simpa using hpre⟩

/-- A rest of at most one character has no steps. -/
theorem no_steps_of_length_le {α : Type} {rest m : List α} {x : α} (hrest : rest.length ≤ 1)
    (hm : m ≠ []) (hpre : m ++ [x] <+: rest) : False := by
  have hlen := hpre.length_le
  have hpos : 0 < m.length := List.length_pos_iff.mpr hm
  simp only [List.length_append, List.length_singleton] at hlen
  omega

/-- The characters `addNameFrom` records: after each prefix `pre ++ m` with `m`
non-empty, the character that follows `m` in the rest. -/
theorem mem_nextChars_addNameFrom (db : NameTree) (pre rest q : Bytes) (x : UInt8) :
    x ∈ nextChars (addNameFrom db pre rest) q ↔
      x ∈ nextChars db q ∨ ∃ m, m ≠ [] ∧ q = pre ++ m ∧ m ++ [x] <+: rest := by
  fun_induction addNameFrom db pre rest with
  | case1 db pre c d rest ih =>
    rw [ih, mem_nextChars_addChar, steps_cons_iff, or_assoc]
  | case2 rest db pre hshort =>
    have hlen : rest.length ≤ 1 := by
      rcases rest with _ | ⟨c, _ | ⟨d, rest⟩⟩
      · simp
      · simp
      · exact absurd rfl (hshort c d rest)
    constructor
    · exact Or.inl
    · rintro (h | ⟨m, hm, -, hpre⟩)
      · exact h
      · exact (no_steps_of_length_le hlen hm hpre).elim

/-- The prefixes `addNameFrom` gives a record: those of the form `pre ++ m` with
`m` non-empty and followed by a character in the rest. -/
theorem isSome_find_addNameFrom (db : NameTree) (pre rest q : Bytes) :
    (OrdMap.find? q (addNameFrom db pre rest)).isSome ↔
      (OrdMap.find? q db).isSome ∨ ∃ x m, m ≠ [] ∧ q = pre ++ m ∧ m ++ [x] <+: rest := by
  fun_induction addNameFrom db pre rest with
  | case1 db pre c d rest ih =>
    simp only [ih, isSome_find_addChar, steps_cons_iff, exists_or, exists_eq_right, or_assoc]
  | case2 rest db pre hshort =>
    have hlen : rest.length ≤ 1 := by
      rcases rest with _ | ⟨c, _ | ⟨d, rest⟩⟩
      · simp
      · simp
      · exact absurd rfl (hshort c d rest)
    constructor
    · exact Or.inl
    · rintro (h | ⟨x, m, hm, -, hpre⟩)
      · exact h
      · exact (no_steps_of_length_le hlen hm hpre).elim

theorem nodup_nextChars_addNameFrom {db : NameTree} (hnd : ∀ q, (nextChars db q).Nodup)
    (pre rest : Bytes) (q : Bytes) : (nextChars (addNameFrom db pre rest) q).Nodup := by
  fun_induction addNameFrom db pre rest with
  | case1 db pre c d rest ih => exact ih (nodup_nextChars_addChar _ _ hnd)
  | case2 => exact hnd q

end AddName

section Trie

variable {db : NameTree} {S : Finset Bytes}

/-- A prefix of a list is the list, or a step short of a longer prefix. -/
theorem prefix_eq_or_step {α : Type} {q n : List α} (h : q <+: n) :
    q = n ∨ ∃ x, q ++ [x] <+: n := by
  obtain ⟨t, rfl⟩ := h
  cases t with
  | nil => exact Or.inl (by simp)
  | cons x t => exact Or.inr ⟨x, t, by simp⟩

/-- No records: the trie of no names. -/
theorem isTrieOf_nil : IsTrieOf [] ∅ where
  nodup q := by simp [nextChars]
  mem_nextChars q c := by simp [nextChars]
  isSome_find q := by simp

/-- `AddNameToPartialNameTree` keeps a trie of `S` the trie of `S` with the new
name, whatever names it held before and in whatever order they came. -/
theorem isTrieOf_addNameToPartialNameTree (htrie : IsTrieOf db S) {n : Bytes}
    (hn : ValidName n) : IsTrieOf (addNameToPartialNameTree db n) (insert n S) where
  nodup := nodup_nextChars_addChar _ _ (nodup_nextChars_addNameFrom htrie.nodup [] n)
  mem_nextChars q c := by
    simp only [addNameToPartialNameTree, mem_nextChars_addChar, mem_nextChars_addNameFrom,
      htrie.mem_nextChars, List.nil_append, Finset.mem_insert]
    constructor
    · rintro ((⟨hq, (⟨hc, hS⟩ | ⟨hc, n', hn', hpre⟩)⟩ | ⟨m, hm, rfl, hpre⟩) | ⟨rfl, rfl⟩)
      · exact ⟨hq, Or.inl ⟨hc, Or.inr hS⟩⟩
      · exact ⟨hq, Or.inr ⟨hc, n', Or.inr hn', hpre⟩⟩
      · have hc : c ≠ nameEnd := by
          rintro rfl
          exact hn.2 (hpre.subset (by simp))
        exact ⟨hm, Or.inr ⟨hc, n, Or.inl rfl, hpre⟩⟩
      · exact ⟨hn.1, Or.inl ⟨rfl, Or.inl rfl⟩⟩
    · rintro ⟨hq, (⟨rfl, rfl | hS⟩ | ⟨hc, n', hn', hpre⟩)⟩
      · exact Or.inr ⟨rfl, rfl⟩
      · exact Or.inl (Or.inl ⟨hq, Or.inl ⟨rfl, hS⟩⟩)
      · rcases hn' with rfl | hS
        · exact Or.inl (Or.inr ⟨q, hq, rfl, hpre⟩)
        · exact Or.inl (Or.inl ⟨hq, Or.inr ⟨hc, n', hS, hpre⟩⟩)
  isSome_find q := by
    simp only [addNameToPartialNameTree, isSome_find_addChar, isSome_find_addNameFrom,
      htrie.isSome_find, List.nil_append, Finset.mem_insert]
    constructor
    · rintro ((⟨hq, n', hn', hpre⟩ | ⟨x, m, hm, rfl, hpre⟩) | rfl)
      · exact ⟨hq, n', Or.inr hn', hpre⟩
      · exact ⟨hm, n, Or.inl rfl, (List.prefix_append _ [x]).trans hpre⟩
      · exact ⟨hn.1, q, Or.inl rfl, List.prefix_refl q⟩
    · rintro ⟨hq, n', rfl | hS, hpre⟩
      · rcases prefix_eq_or_step hpre with rfl | ⟨x, hstep⟩
        · exact Or.inr rfl
        · exact Or.inl (Or.inr ⟨x, q, hq, rfl, hstep⟩)
      · exact Or.inl (Or.inl ⟨hq, n', hS, hpre⟩)

/-- Records built name after name from none are the trie of those names. -/
theorem isTrieOf_foldl_addName {names : List Bytes} (hvalid : ∀ n ∈ names, ValidName n)
    (htrie : IsTrieOf db S) :
    IsTrieOf (names.foldl addNameToPartialNameTree db) (S ∪ names.toFinset) := by
  induction names generalizing db S with
  | nil => simpa using htrie
  | cons n names ih =>
    have hS : insert n S ∪ names.toFinset = S ∪ (n :: names).toFinset := by
      ext x
      simp
    rw [List.foldl_cons, ← hS]
    exact ih (fun m hm => hvalid m (by simp [hm]))
      (isTrieOf_addNameToPartialNameTree htrie (hvalid n (by simp)))

end Trie

section Walk

open Enumeration

variable {db : NameTree} {S : Finset Bytes}

/-- What the walk may add at a recorded character: the prefix itself at the end
mark, and the names under the longer prefix at any other character. -/
def charNames (S : Finset Bytes) (q : Bytes) (c : UInt8) : Finset Bytes :=
  if c = nameEnd then S.filter (· = q) else namesUnder S (q ++ [c])

theorem charNames_subset (S : Finset Bytes) (q : Bytes) (c : UInt8) :
    charNames S q c ⊆ namesUnder S q := by
  intro n hn
  unfold charNames at hn
  split at hn
  · obtain ⟨hS, rfl⟩ := Finset.mem_filter.mp hn
    exact Finset.mem_filter.mpr ⟨hS, List.prefix_refl n⟩
  · obtain ⟨hS, hpre⟩ := Finset.mem_filter.mp hn
    exact Finset.mem_filter.mpr ⟨hS, (List.prefix_append q [c]).trans hpre⟩

/-- Two prefixes one step past `q` of the same name take the same step. -/
theorem eq_of_prefixes_step {q n : Bytes} {c c' : UInt8} (h : q ++ [c] <+: n)
    (h' : q ++ [c'] <+: n) : c = c' := by
  have hle : (q ++ [c]).length ≤ (q ++ [c']).length := by simp
  have heq := (List.prefix_of_prefix_length_le h h' hle).eq_of_length (by simp)
  simpa using heq

theorem charNames_disjoint {q : Bytes} {c c' : UInt8} (hne : c ≠ c') :
    Disjoint (charNames S q c) (charNames S q c') := by
  rw [Finset.disjoint_left]
  intro n h h'
  unfold charNames namesUnder at h h'
  by_cases hc : c = nameEnd <;> by_cases hc' : c' = nameEnd
  · exact hne (hc.trans hc'.symm)
  · simp only [hc, hc', if_true, if_false, Finset.mem_filter] at h h'
    obtain ⟨-, rfl⟩ := h
    have hlen := h'.2.length_le
    simp only [List.length_append, List.length_singleton] at hlen
    omega
  · simp only [hc, hc', if_true, if_false, Finset.mem_filter] at h h'
    obtain ⟨-, rfl⟩ := h'
    have hlen := h.2.length_le
    simp only [List.length_append, List.length_singleton] at hlen
    omega
  · simp only [hc, hc', if_false, Finset.mem_filter] at h h'
    exact hne (eq_of_prefixes_step h.2 h'.2)

/-- Under a recorded prefix, the names are split by the recorded characters. -/
theorem biUnion_charNames (htrie : IsTrieOf db S) (hvalid : ∀ n ∈ S, ValidName n) {q : Bytes}
    (hq : q ≠ []) : (nextChars db q).toFinset.biUnion (charNames S q) = namesUnder S q := by
  ext n
  simp only [Finset.mem_biUnion, List.mem_toFinset]
  constructor
  · rintro ⟨c, -, hn⟩
    exact charNames_subset S q c hn
  · intro hn
    obtain ⟨hS, hpre⟩ := Finset.mem_filter.mp hn
    rcases prefix_eq_or_step hpre with rfl | ⟨x, hstep⟩
    · refine ⟨nameEnd, (htrie.mem_nextChars q nameEnd).mpr ⟨hq, Or.inl ⟨rfl, hS⟩⟩, ?_⟩
      simp [charNames, hS]
    · have hx : x ≠ nameEnd := by
        rintro rfl
        exact (hvalid n hS).2 (hstep.subset (by simp))
      refine ⟨x, (htrie.mem_nextChars q x).mpr ⟨hq, Or.inr ⟨hx, n, hS, hstep⟩⟩, ?_⟩
      simp [charNames, hx, namesUnder, hS, hstep]

/-- No record means no name under the prefix. -/
theorem namesUnder_eq_empty (htrie : IsTrieOf db S) {q : Bytes} (hq : q ≠ [])
    (hnone : OrdMap.find? q db = none) : namesUnder S q = ∅ := by
  refine Finset.filter_eq_empty_iff.mpr fun n hn hpre => ?_
  have hsome := (htrie.isSome_find q).mpr ⟨hq, n, hn, hpre⟩
  simp [hnone] at hsome

theorem length_le_nameTreeDepth {q : Bytes} (h : (OrdMap.find? q db).isSome) :
    q.length ≤ nameTreeDepth db := by
  rw [OrdMap.find?_isSome_iff] at h
  induction db with
  | nil => simp [OrdMap.keys] at h
  | cons e db ih =>
    simp only [OrdMap.keys, List.map_cons, List.mem_cons] at h
    simp only [nameTreeDepth, List.map_cons, List.foldr_cons] at ih ⊢
    rcases h with rfl | h
    · exact le_max_left _ _
    · exact le_max_of_le_right (ih h)

/-- At the end mark the walk inserts the prefix, a name not yet listed. -/
theorem adds_insert {count : Nat} {names : List Bytes} {q : Bytes} (hnd : names.Nodup)
    (hq : q ∉ names) (hlt : names.length < count) :
    Adds count names {q} (OrdSet.insert q names) where
  nodup := OrdSet.nodup_insert q hnd
  mem_of_mem n hn := (OrdSet.mem_insert q n names).mpr (Or.inr hn)
  mem_or_mem n hn := by
    rcases (OrdSet.mem_insert q n names).mp hn with rfl | h
    · exact Or.inr (Finset.mem_singleton_self n)
    · exact Or.inl h
  length_eq := by
    rw [OrdSet.length_insert_of_not_mem hq, Finset.card_singleton]
    omega

/-- The walk from a non-empty prefix of a trie, with fuel past the deepest
record, adds the names under the prefix up to the cap. -/
theorem getNamesFromPartialLoop_adds (htrie : IsTrieOf db S) (hvalid : ∀ n ∈ S, ValidName n)
    (count : Nat) :
    ∀ fuel q names, q ≠ [] → nameTreeDepth db < fuel + q.length → names.Nodup →
      (∀ n ∈ names, n ∉ namesUnder S q) →
      Adds count names (namesUnder S q) (getNamesFromPartialLoop db fuel q names count) := by
  intro fuel
  induction fuel with
  | zero =>
    intro q names hq hdepth hnd _
    have hnone : OrdMap.find? q db = none := by
      rw [← Option.not_isSome_iff_eq_none]
      intro h
      have := length_le_nameTreeDepth h
      omega
    rw [namesUnder_eq_empty htrie hq hnone]
    exact adds_empty hnd
  | succ fuel ih =>
    intro q names hq hdepth hnd hfresh
    simp only [getNamesFromPartialLoop]
    cases hfind : OrdMap.find? q db with
    | none =>
      rw [namesUnder_eq_empty htrie hq hfind]
      exact adds_empty hnd
    | some nc =>
      have hnc : nextChars db q = nc := by simp [nextChars, hfind]
      rw [← biUnion_charNames htrie hvalid hq, hnc]
      refine adds_foldl (hnc ▸ htrie.nodup q) (fun c _ c' _ hne => charNames_disjoint hne) ?_ hnd
        fun n hn c _ h => hfresh n hn (charNames_subset S q c h)
      intro c hc names' hnd' hfresh'
      split_ifs with hlen hend
      · subst hend
        have hS : q ∈ S := (((htrie.mem_nextChars q nameEnd).mp (hnc ▸ hc)).2.resolve_right
          fun h => h.1 rfl).2
        have hq' : charNames S q nameEnd = {q} := by
          ext n
          simp [charNames, and_iff_right_of_imp (fun h : n = q => h ▸ hS)]
        rw [hq'] at hfresh' ⊢
        exact adds_insert hnd' (fun h => hfresh' q h (Finset.mem_singleton_self q)) hlen
      · have hdown := ih (q ++ [c]) names' (by simp) (by simp; omega) hnd'
          (by simpa [charNames, hend] using hfresh')
        simpa [charNames, hend] using hdown
      · exact adds_self_of_le _ hnd' (by omega)

/-- `GetNamesFromPartial(p, {}, count)` over the trie of a set of valid names
returns, without repetition, `min count k` names of the set under `p`, where `k`
is how many there are. -/
theorem getNamesFromPartial_spec (htrie : IsTrieOf db S) (hvalid : ∀ n ∈ S, ValidName n)
    {p : Bytes} (hp : p ≠ []) (count : Nat) :
    (getNamesFromPartial db p [] count).Nodup ∧
      (∀ n ∈ getNamesFromPartial db p [] count, n ∈ S ∧ p <+: n) ∧
      (getNamesFromPartial db p [] count).length = min count (namesUnder S p).card := by
  have hadds : Adds count [] (namesUnder S p) (getNamesFromPartial db p [] count) :=
    getNamesFromPartialLoop_adds htrie hvalid count (nameTreeDepth db + 1) p []
      hp (by have := List.length_pos_iff.mpr hp; omega) List.nodup_nil (by simp)
  refine ⟨hadds.nodup, fun n hn => ?_, by simpa using hadds.length_eq⟩
  rcases hadds.mem_or_mem n hn with h | h
  · simp at h
  · exact Finset.mem_filter.mp h

end Walk

end Twister.Chain
