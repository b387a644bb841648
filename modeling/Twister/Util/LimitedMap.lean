import Twister.Lib.OrdMap

/-!
# limitedmap

`limitedmap<K, V>` (limitedmap.h) is a `std::map` with a `std::multimap` from values
to iterators into the map, `rmap`, and a capacity `nMaxSize`, `0` for none. The node
keeps the inventory it asked for in one (`mapAlreadyAskedFor`, net.cpp), the value
being the time of the request. An iterator to a map entry is named here by the
entry's key, and `rmap` is the list of its pairs in multimap order: by value, a new
pair after those of equal value.

Every operation keeps `rmap` the list of the map's entries with key and value
swapped (`consistent_run`). `insert` first inserts into the map and, when the map has
then reached the capacity, removes the entry of lowest value among the old ones; so
the map holds fewer than `nMaxSize` entries (`bounded_run`) and may drop an entry of
higher value than the new one, and a map of capacity one reads `rmap.begin()` of an
empty multimap at its first insertion. The loops of `erase` and `update` never reach
their `assert(0)` (`erase_isSome`, `update_isSome`).
-/

namespace Twister

/-- A `limitedmap<K, V>`: `map`, `rmap` and `nMaxSize`. -/
structure LimitedMap (K V : Type) where
  map : List (K × V)
  rmap : List (V × K)
  nMaxSize : Nat
  deriving DecidableEq

/-- A call on a `limitedmap`; `update` names the entry its iterator points at by key. -/
inductive LimitedMapOp (K V : Type) where
  | insert (k : K) (v : V)
  | erase (k : K)
  | update (k : K) (v : V)
  | maxSize (s : Nat)
  deriving DecidableEq

namespace LimitedMap

variable {K V : Type} [LinearOrder K] [LinearOrder V]

/-- `limitedmap(nMaxSizeIn)`. -/
def empty (nMaxSizeIn : Nat) : LimitedMap K V := ⟨[], [], nMaxSizeIn⟩

/-- `rmap.insert(make_pair(v, it))`: a multimap inserts after the pairs of equal value. -/
def rmapInsert (v : V) (k : K) : List (V × K) → List (V × K)
  | [] => [(v, k)]
  | (v', k') :: rest =>
    if v < v' then (v, k) :: (v', k') :: rest else (v', k') :: rmapInsert v k rest

/-- The loop over `rmap.equal_range(v)` for the pair that points at `k`, and
`rmap.erase(it)`; `none` when the loop ends without it, at `assert(0)`. The pairs of
value `v` stand together in `rmap`, so the loop sees them all. -/
def rmapErase (v : V) (k : K) : List (V × K) → Option (List (V × K))
  | [] => none
  | (v', k') :: rest =>
    if v' = v ∧ k' = k then some rest else (rmapErase v k rest).map ((v', k') :: ·)

/-- `insert(x)` of `x = (k, v)`: nothing when `k` is in the map; otherwise `map.insert`,
then, when the map has reached `nMaxSize`, erase the entry of `rmap.begin()` from both,
then register the new entry in `rmap`. `none` where `rmap.begin()` is the end of an
empty multimap. -/
def insert (m : LimitedMap K V) (k : K) (v : V) : Option (LimitedMap K V) :=
  if k ∈ OrdMap.keys m.map then some m
  else
    let map := OrdMap.insert k v m.map
    if m.nMaxSize ≠ 0 ∧ map.length = m.nMaxSize then
      match m.rmap with
      | [] => none
      | (_, lowest) :: rest => some { m with map := OrdMap.erase lowest map, rmap := rmapInsert v k rest }
    else some { m with map := map, rmap := rmapInsert v k m.rmap }

/-- `erase(k)`. -/
def erase (m : LimitedMap K V) (k : K) : Option (LimitedMap K V) :=
  match OrdMap.find? k m.map with
  | none => some m
  | some v => (rmapErase v k m.rmap).map fun rmap => { m with map := OrdMap.erase k m.map, rmap }

/-- `update(itIn, v)` for the entry of key `k`. -/
def update (m : LimitedMap K V) (k : K) (v : V) : Option (LimitedMap K V) :=
  match OrdMap.find? k m.map with
  | none => some m
  | some old => (rmapErase old k m.rmap).map fun rmap =>
    { m with map := OrdMap.insert k v m.map, rmap := rmapInsert v k rmap }

/-- The loop of `max_size(s)`: erase the entry of `rmap.begin()` from both while the
map is larger than `s`. -/
def trimLowest (s : Nat) (map : List (K × V)) : List (V × K) → Option (List (K × V) × List (V × K))
  | [] => if map.length > s then none else some (map, [])
  | (v, k) :: rest =>
    if map.length > s then trimLowest s (OrdMap.erase k map) rest else some (map, (v, k) :: rest)

/-- `max_size(s)`. -/
def maxSize (m : LimitedMap K V) (s : Nat) : Option (LimitedMap K V) :=
  if s ≠ 0 then (trimLowest s m.map m.rmap).map fun (map, rmap) => ⟨map, rmap, s⟩
  else some { m with nMaxSize := s }

/-- One call. -/
def step (m : LimitedMap K V) : LimitedMapOp K V → Option (LimitedMap K V)
  | .insert k v => m.insert k v
  | .erase k => m.erase k
  | .update k v => m.update k v
  | .maxSize s => m.maxSize s

/-- A sequence of calls; `none` once one of them fails. -/
def run : LimitedMap K V → List (LimitedMapOp K V) → Option (LimitedMap K V)
  | m, [] => some m
  | m, op :: ops => (m.step op).bind (run · ops)

/-! ## The reverse multimap -/

section Rmap

omit [LinearOrder K] in
theorem rmapInsert_perm (v : V) (k : K) (r : List (V × K)) : (rmapInsert v k r).Perm ((v, k) :: r) := by
  induction r with
  | nil => exact List.Perm.refl _
  | cons p r ih =>
    obtain ⟨v', k'⟩ := p
    unfold rmapInsert
    split_ifs
    · exact List.Perm.refl _
    · exact (ih.cons _).trans (List.Perm.swap _ _ _)

omit [LinearOrder K] in
/-- `rmapInsert` keeps the pairs ordered by value. -/
theorem rsorted_rmapInsert (v : V) (k : K) {r : List (V × K)}
    (h : r.Pairwise fun a b => a.1 ≤ b.1) : (rmapInsert v k r).Pairwise fun a b => a.1 ≤ b.1 := by
  induction r with
  | nil => exact List.pairwise_singleton _ _
  | cons p r ih =>
    obtain ⟨v', k'⟩ := p
    rw [List.pairwise_cons] at h
    unfold rmapInsert
    split_ifs with hlt
    · refine List.pairwise_cons.mpr ⟨fun a ha => ?_, List.pairwise_cons.mpr h⟩
      rcases List.mem_cons.mp ha with rfl | ha
      · exact hlt.le
      · exact hlt.le.trans (h.1 a ha)
    · refine List.pairwise_cons.mpr ⟨fun a ha => ?_, ih h.2⟩
      rcases List.mem_cons.mp ((rmapInsert_perm v k r).subset ha) with rfl | ha
      · exact not_lt.mp hlt
      · exact h.1 a ha

/-- What the loop of `erase` and `update` removes: the one pair it looks for, keeping
the others in order. -/
theorem rmapErase_eq_some {v : V} {k : K} :
    ∀ {r r' : List (V × K)}, rmapErase v k r = some r' → (v, k) ∈ r ∧ r' = r.erase (v, k)
  | [], _, h => by simp [rmapErase] at h
  | (v', k') :: rest, r', h => by
    unfold rmapErase at h
    split_ifs at h with hit
    · obtain ⟨rfl, rfl⟩ := hit
      cases h
      simp
    · obtain ⟨r'', hr'', rfl⟩ := Option.map_eq_some_iff.mp h
      obtain ⟨hmem, rfl⟩ := rmapErase_eq_some hr''
      have hne : (v', k') ≠ (v, k) := fun e => hit (Prod.mk.inj e)
      refine ⟨List.mem_cons_of_mem _ hmem, ?_⟩
      rw [List.erase_cons_tail (by simpa using hne)]

/-- The loop finds every pair that is there. -/
theorem rmapErase_isSome {v : V} {k : K} : ∀ {r : List (V × K)}, (v, k) ∈ r → (rmapErase v k r).isSome
  | [], h => absurd h List.not_mem_nil
  | (v', k') :: rest, h => by
    unfold rmapErase
    split_ifs with hit
    · rfl
    · have hne : (v, k) ≠ (v', k') := fun e => hit ⟨(Prod.mk.inj e).1.symm, (Prod.mk.inj e).2.symm⟩
      have hrest : (v, k) ∈ rest := (List.mem_cons.mp h).resolve_left hne
      simpa using rmapErase_isSome hrest

end Rmap

/-! ## The representation invariant -/

/-- `map` is a `std::map`, `rmap` is ordered by value, and `rmap` holds one pair
`(value, key)` for each entry of `map` and no other. -/
structure Consistent (m : LimitedMap K V) : Prop where
  sorted : OrdMap.Sorted m.map
  rsorted : m.rmap.Pairwise fun a b => a.1 ≤ b.1
  nodup : m.rmap.Nodup
  mem_rmap : ∀ v k, (v, k) ∈ m.rmap ↔ OrdMap.find? k m.map = some v

/-- The state inside `insert` and `update` between the write to the map and the one to
`rmap`: `map` holds `k` with `v`, and `rmap` matches `map` everywhere else. -/
structure Pending (m : LimitedMap K V) (k : K) (v : V) : Prop where
  sorted : OrdMap.Sorted m.map
  rsorted : m.rmap.Pairwise fun a b => a.1 ≤ b.1
  nodup : m.rmap.Nodup
  find_self : OrdMap.find? k m.map = some v
  mem_rmap : ∀ v' k', (v', k') ∈ m.rmap ↔ k' ≠ k ∧ OrdMap.find? k' m.map = some v'

section Invariant

theorem consistent_empty (n : Nat) : Consistent (empty n : LimitedMap K V) where
  sorted := OrdMap.sorted_nil
  rsorted := List.Pairwise.nil
  nodup := List.nodup_nil
  mem_rmap _ _ := by simp [empty]

omit [LinearOrder V] in
theorem keys_nodup {map : List (K × V)} (h : OrdMap.Sorted map) : (OrdMap.keys map).Nodup :=
  h.nodup OrdMap.StrictOrder.of_linearOrder

/-- `rmap` is as long as the map. -/
theorem Consistent.length_rmap {m : LimitedMap K V} (h : Consistent m) :
    m.rmap.length = m.map.length := by
  have hnd := keys_nodup h.sorted
  have hperm : m.rmap.Perm (m.map.map Prod.swap) := by
    refine (List.perm_ext_iff_of_nodup h.nodup ?_).mpr fun ⟨v, k⟩ => ?_
    · exact (List.Nodup.of_map Prod.fst hnd).map Prod.swap_injective
    · rw [h.mem_rmap, List.mem_map]
      constructor
      · exact fun hf => ⟨(k, v), OrdMap.mem_of_find?_eq_some hf, rfl⟩
      · rintro ⟨⟨k', v'⟩, hmem, he⟩
        cases he
        exact OrdMap.find?_eq_some_of_mem hnd hmem
  rw [hperm.length_eq, List.length_map]

/-- A new key, written to the map, is pending. -/
theorem Consistent.pending_insert {m : LimitedMap K V} (h : Consistent m) {k : K}
    (hk : k ∉ OrdMap.keys m.map) (v : V) :
    Pending { m with map := OrdMap.insert k v m.map } k v where
  sorted := OrdMap.sorted_insert OrdMap.StrictOrder.of_linearOrder k v h.sorted
  rsorted := h.rsorted
  nodup := h.nodup
  find_self := OrdMap.find?_insert_self k v m.map
  mem_rmap v' k' := by
    simp only [h.mem_rmap, OrdMap.find?_insert]
    by_cases hk' : k' = k
    · subst hk'
      simp [OrdMap.find?_eq_none_of_not_mem hk]
    · simp [hk']

/-- Removing a pair that `rmap` has leaves its key pending. -/
theorem Consistent.pending_of_rmapErase {m : LimitedMap K V} (h : Consistent m) {v : V} {k : K}
    {r : List (V × K)} (hr : rmapErase v k m.rmap = some r) : Pending { m with rmap := r } k v := by
  obtain ⟨hmem, rfl⟩ := rmapErase_eq_some hr
  have hfind : OrdMap.find? k m.map = some v := (h.mem_rmap v k).mp hmem
  refine ⟨h.sorted, h.rsorted.sublist List.erase_sublist, h.nodup.sublist List.erase_sublist,
    hfind, fun v' k' => ?_⟩
  rw [h.nodup.mem_erase_iff, h.mem_rmap]
  by_cases hk : k' = k
  · subst hk
    simp only [ne_eq, Prod.mk.injEq, and_true, not_true_eq_false, false_and, iff_false, not_and,
      hfind, Option.some.injEq]
    exact fun hne heq => hne heq.symm
  · simp [hk]

/-- Registering a pending key in `rmap` restores the invariant. -/
theorem Pending.consistent_rmapInsert {m : LimitedMap K V} {k : K} {v : V} (h : Pending m k v) :
    Consistent { m with rmap := rmapInsert v k m.rmap } where
  sorted := h.sorted
  rsorted := rsorted_rmapInsert v k h.rsorted
  nodup := (rmapInsert_perm v k m.rmap).nodup_iff.mpr
    (List.nodup_cons.mpr ⟨fun hin => ((h.mem_rmap v k).mp hin).1 rfl, h.nodup⟩)
  mem_rmap v' k' := by
    rw [(rmapInsert_perm v k m.rmap).mem_iff, List.mem_cons, h.mem_rmap]
    by_cases hk : k' = k
    · subst hk
      simp [h.find_self, eq_comm]
    · simp [hk]

/-- Erasing a pending key from the map restores the invariant. -/
theorem Pending.consistent_erase {m : LimitedMap K V} {k : K} {v : V} (h : Pending m k v) :
    Consistent { m with map := OrdMap.erase k m.map } where
  sorted := h.sorted.of_sublist (OrdMap.erase_sublist k m.map)
  rsorted := h.rsorted
  nodup := h.nodup
  mem_rmap v' k' := by
    rw [h.mem_rmap, OrdMap.find?_erase k k' m.map (keys_nodup h.sorted)]
    by_cases hk : k' = k <;> simp [hk]

/-- A new value for a pending key, written to the map, is pending. -/
theorem Pending.assign {m : LimitedMap K V} {k : K} {old : V} (h : Pending m k old) (v : V) :
    Pending { m with map := OrdMap.insert k v m.map } k v where
  sorted := OrdMap.sorted_insert OrdMap.StrictOrder.of_linearOrder k v h.sorted
  rsorted := h.rsorted
  nodup := h.nodup
  find_self := OrdMap.find?_insert_self k v m.map
  mem_rmap v' k' := by
    rw [h.mem_rmap, OrdMap.find?_insert]
    by_cases hk : k' = k <;> simp [hk]

/-- Evicting the entry of `rmap.begin()` from both keeps another key pending. -/
theorem Pending.evict {m : LimitedMap K V} {k : K} {v : V} (h : Pending m k v) {v₀ : V} {k₀ : K}
    {rest : List (V × K)} (hr : m.rmap = (v₀, k₀) :: rest) :
    Pending { m with map := OrdMap.erase k₀ m.map, rmap := rest } k v := by
  have hrs := h.rsorted
  have hnd := h.nodup
  rw [hr, List.pairwise_cons] at hrs
  rw [hr, List.nodup_cons] at hnd
  obtain ⟨hne, hfind₀⟩ := (h.mem_rmap v₀ k₀).mp (hr ▸ List.mem_cons_self)
  have herase : ∀ k', OrdMap.find? k' (OrdMap.erase k₀ m.map) =
      if k' = k₀ then none else OrdMap.find? k' m.map :=
    fun k' => OrdMap.find?_erase k₀ k' m.map (keys_nodup h.sorted)
  refine ⟨h.sorted.of_sublist (OrdMap.erase_sublist k₀ m.map), hrs.2, hnd.2, ?_, fun v' k' => ?_⟩
  · rw [herase, if_neg (Ne.symm hne)]
    exact h.find_self
  · rw [herase]
    by_cases hk : k' = k₀
    · subst hk
      simp only [if_true, reduceCtorEq, and_false, iff_false]
      intro hin
      have hfind := ((h.mem_rmap v' k').mp (hr ▸ List.mem_cons_of_mem _ hin)).2
      rw [hfind₀, Option.some.injEq] at hfind
      exact hnd.1 (hfind ▸ hin)
    · rw [if_neg hk, ← h.mem_rmap, hr, List.mem_cons]
      simp [hk]

/-- The invariant does not read the capacity. -/
theorem Consistent.with_nMaxSize {m : LimitedMap K V} (h : Consistent m) (n : Nat) :
    Consistent { m with nMaxSize := n } :=
  ⟨h.sorted, h.rsorted, h.nodup, h.mem_rmap⟩

/-- Evicting the entry of `rmap.begin()` from both keeps the invariant. -/
theorem Consistent.evict {m : LimitedMap K V} (h : Consistent m) {v₀ : V} {k₀ : K}
    {rest : List (V × K)} (hr : m.rmap = (v₀, k₀) :: rest) :
    Consistent { m with map := OrdMap.erase k₀ m.map, rmap := rest } := by
  have hpop : rmapErase v₀ k₀ m.rmap = some rest := by simp [hr, rmapErase]
  exact (h.pending_of_rmapErase hpop).consistent_erase

/-- The loop of `max_size(s)` stops with the map within `s`, keeping the invariant;
it never reads the end of `rmap`, which is as long as the map. -/
theorem trimLowest_spec (s n : Nat) :
    ∀ (rmap : List (V × K)) (map : List (K × V)), Consistent ⟨map, rmap, n⟩ →
      ∃ map' rmap', trimLowest s map rmap = some (map', rmap') ∧
        Consistent ⟨map', rmap', n⟩ ∧ map'.length ≤ s
  | [], map, h => by
    have hlen := h.length_rmap
    simp only [List.length_nil] at hlen
    exact ⟨map, [], by simp [trimLowest, ← hlen], h, by simp [← hlen]⟩
  | (v, k) :: rest, map, h => by
    unfold trimLowest
    split_ifs with hlong
    · exact trimLowest_spec s n rest (OrdMap.erase k map) (h.evict rfl)
    · exact ⟨map, (v, k) :: rest, rfl, h, by omega⟩

variable {m m' : LimitedMap K V}

/-- What a successful `insert` does: nothing for a present key; for a new one, the
entry goes into both, after the entry of `rmap.begin()` left both when the map
reached the capacity. -/
theorem insert_eq_some {k : K} {v : V} (hm : m.insert k v = some m') :
    (k ∈ OrdMap.keys m.map ∧ m' = m) ∨
    (k ∉ OrdMap.keys m.map ∧ ¬(m.nMaxSize ≠ 0 ∧ m.map.length + 1 = m.nMaxSize) ∧
      m' = { m with map := OrdMap.insert k v m.map, rmap := rmapInsert v k m.rmap }) ∨
    (k ∉ OrdMap.keys m.map ∧ (m.nMaxSize ≠ 0 ∧ m.map.length + 1 = m.nMaxSize) ∧
      ∃ v₀ k₀ rest, m.rmap = (v₀, k₀) :: rest ∧
        m' = { m with map := OrdMap.erase k₀ (OrdMap.insert k v m.map), rmap := rmapInsert v k rest }) := by
  unfold insert at hm
  dsimp only at hm
  split_ifs at hm with hk hfull
  · exact Or.inl ⟨hk, (Option.some.inj hm).symm⟩
  · rw [OrdMap.length_insert_of_not_mem v hk] at hfull
    split at hm
    · cases hm
    · rename_i v₀ k₀ rest hr
      exact Or.inr (Or.inr ⟨hk, hfull, v₀, k₀, rest, hr, (Option.some.inj hm).symm⟩)
  · rw [OrdMap.length_insert_of_not_mem v hk] at hfull
    exact Or.inr (Or.inl ⟨hk, hfull, (Option.some.inj hm).symm⟩)

theorem consistent_insert (h : Consistent m) {k : K} {v : V} (hm : m.insert k v = some m') :
    Consistent m' := by
  rcases insert_eq_some hm with ⟨-, rfl⟩ | ⟨hk, -, rfl⟩ | ⟨hk, -, v₀, k₀, rest, hr, rfl⟩
  · exact h
  · exact (h.pending_insert hk v).consistent_rmapInsert
  · exact ((h.pending_insert hk v).evict hr).consistent_rmapInsert

theorem consistent_erase (h : Consistent m) {k : K} (hm : m.erase k = some m') : Consistent m' := by
  unfold erase at hm
  split at hm
  · cases hm
    exact h
  · obtain ⟨r, hr, rfl⟩ := Option.map_eq_some_iff.mp hm
    exact (h.pending_of_rmapErase hr).consistent_erase

theorem consistent_update (h : Consistent m) {k : K} {v : V} (hm : m.update k v = some m') :
    Consistent m' := by
  unfold update at hm
  split at hm
  · cases hm
    exact h
  · obtain ⟨r, hr, rfl⟩ := Option.map_eq_some_iff.mp hm
    exact ((h.pending_of_rmapErase hr).assign v).consistent_rmapInsert

theorem consistent_maxSize (h : Consistent m) {s : Nat} (hm : m.maxSize s = some m') :
    Consistent m' := by
  unfold maxSize at hm
  split_ifs at hm with hs
  · obtain ⟨map', rmap', htrim, hcons, -⟩ := trimLowest_spec s m.nMaxSize m.rmap m.map h
    rw [htrim] at hm
    cases hm
    exact hcons.with_nMaxSize s
  · cases hm
    exact h.with_nMaxSize s

theorem consistent_step (h : Consistent m) : ∀ {op : LimitedMapOp K V}, m.step op = some m' → Consistent m'
  | .insert _ _, hm => consistent_insert h hm
  | .erase _, hm => consistent_erase h hm
  | .update _ _, hm => consistent_update h hm
  | .maxSize _, hm => consistent_maxSize h hm

/-- Every sequence of calls that does not fail keeps `rmap` one pair for each map entry. -/
theorem consistent_run : ∀ {m m' : LimitedMap K V} {ops : List (LimitedMapOp K V)},
    Consistent m → m.run ops = some m' → Consistent m'
  | _, _, [], h, hm => by
    cases hm
    exact h
  | m, _, op :: ops, h, hm => by
    obtain ⟨m₁, h₁, hrun⟩ := Option.bind_eq_some_iff.mp hm
    exact consistent_run (consistent_step h h₁) hrun

/-! ## What can fail -/

/-- `insert` fails exactly at the first entry of a map of capacity one, where the map
reaches its capacity while `rmap` is empty. -/
theorem insert_eq_none_iff (h : Consistent m) (k : K) (v : V) :
    m.insert k v = none ↔ k ∉ OrdMap.keys m.map ∧ m.nMaxSize = 1 ∧ m.map = [] := by
  have hlen := h.length_rmap
  unfold insert
  dsimp only
  split_ifs with hk hfull
  · simp [hk]
  · rw [OrdMap.length_insert_of_not_mem v hk] at hfull
    cases hr : m.rmap with
    | nil =>
      rw [hr, List.length_nil] at hlen
      simp only [true_iff]
      exact ⟨hk, by omega, List.eq_nil_of_length_eq_zero hlen.symm⟩
    | cons p rest =>
      rw [hr, List.length_cons] at hlen
      simp only [reduceCtorEq, false_iff, not_and]
      intro _ _ hnil
      simp [hnil] at hlen
  · rw [OrdMap.length_insert_of_not_mem v hk] at hfull
    simp only [false_iff, not_and]
    intro _ hone hnil
    simp [hnil, hone] at hfull

/-- The loop of `erase` finds the pair it looks for: `assert(0)` is never reached. -/
theorem erase_isSome (h : Consistent m) (k : K) : (m.erase k).isSome := by
  unfold erase
  split
  · rfl
  · rename_i v hv
    simpa using rmapErase_isSome ((h.mem_rmap v k).mpr hv)

/-- The loop of `update` finds the pair it looks for: `assert(0)` is never reached. -/
theorem update_isSome (h : Consistent m) (k : K) (v : V) : (m.update k v).isSome := by
  unfold update
  split
  · rfl
  · rename_i old hold
    simpa using rmapErase_isSome ((h.mem_rmap old k).mpr hold)

theorem maxSize_isSome (h : Consistent m) (s : Nat) : (m.maxSize s).isSome := by
  unfold maxSize
  split_ifs with hs
  · obtain ⟨map', rmap', htrim, -⟩ := trimLowest_spec s m.nMaxSize m.rmap m.map h
    simp [htrim]
  · rfl

/-- `max_size(s)` with `s ≠ 0` leaves at most `s` entries. -/
theorem length_maxSize_le (h : Consistent m) {s : Nat} (hs : s ≠ 0) (hm : m.maxSize s = some m') :
    m'.map.length ≤ s := by
  unfold maxSize at hm
  rw [if_pos hs] at hm
  obtain ⟨map', rmap', htrim, -, hle⟩ := trimLowest_spec s m.nMaxSize m.rmap m.map h
  rw [htrim] at hm
  cases hm
  exact hle

/-! ## The size of the map -/

/-- The map stays below a non-zero capacity. -/
def Bounded (m : LimitedMap K V) : Prop := m.nMaxSize ≠ 0 → m.map.length < m.nMaxSize

/-- The entry `insert` evicts is one of lowest value among the old entries. -/
theorem Consistent.head_le (h : Consistent m) {v₀ : V} {k₀ : K} {rest : List (V × K)}
    (hr : m.rmap = (v₀, k₀) :: rest) {k : K} {v : V} (hv : OrdMap.find? k m.map = some v) :
    v₀ ≤ v := by
  have hrs := h.rsorted
  rw [hr, List.pairwise_cons] at hrs
  have hin : (v, k) ∈ m.rmap := (h.mem_rmap v k).mpr hv
  rw [hr, List.mem_cons] at hin
  rcases hin with he | hin
  · exact le_of_eq (Prod.mk.inj he).1.symm
  · exact hrs.1 _ hin

theorem bounded_insert (h : Consistent m) (hb : Bounded m) {k : K} {v : V}
    (hm : m.insert k v = some m') : Bounded m' := by
  rcases insert_eq_some hm with ⟨-, rfl⟩ | ⟨hk, hfull, rfl⟩ | ⟨hk, -, v₀, k₀, rest, hr, rfl⟩
  · exact hb
  · intro hcap
    have hlt := hb hcap
    simp only [OrdMap.length_insert_of_not_mem v hk] at hcap ⊢
    omega
  · have hk₀ : k₀ ∈ OrdMap.keys (OrdMap.insert k v m.map) := by
      rw [OrdMap.mem_keys_insert, ← OrdMap.find?_isSome_iff,
        ((h.mem_rmap v₀ k₀).mp (hr ▸ List.mem_cons_self))]
      exact Or.inr rfl
    have hlen := OrdMap.length_erase_of_mem hk₀
    rw [OrdMap.length_insert_of_not_mem v hk] at hlen
    intro hcap
    have hlt := hb hcap
    simp only at hcap ⊢
    omega

theorem bounded_erase (hb : Bounded m) {k : K} (hm : m.erase k = some m') : Bounded m' := by
  unfold erase at hm
  split at hm
  · cases hm
    exact hb
  · obtain ⟨r, -, rfl⟩ := Option.map_eq_some_iff.mp hm
    intro hcap
    have hle := (OrdMap.erase_sublist k m.map).length_le
    have := hb hcap
    simp only at hcap ⊢
    omega

theorem bounded_update (h : Consistent m) (hb : Bounded m) {k : K} {v : V}
    (hm : m.update k v = some m') : Bounded m' := by
  unfold update at hm
  split at hm
  · cases hm
    exact hb
  · rename_i old hold
    obtain ⟨r, -, rfl⟩ := Option.map_eq_some_iff.mp hm
    have hk : k ∈ OrdMap.keys m.map := by
      rw [← OrdMap.find?_isSome_iff, hold]
      rfl
    intro hcap
    have := hb hcap
    simp only [OrdMap.length_insert_of_mem OrdMap.StrictOrder.of_linearOrder v h.sorted hk]
    exact this

/-- Calls other than `max_size`. -/
def NoMaxSize (ops : List (LimitedMapOp K V)) : Prop := ∀ op ∈ ops, ∀ s, op ≠ .maxSize s

/-- Without `max_size` calls, the map stays below a non-zero capacity: `insert` evicts
when the map reaches `nMaxSize`, not when it would exceed it. -/
theorem bounded_run : ∀ {m m' : LimitedMap K V} {ops : List (LimitedMapOp K V)},
    Consistent m → Bounded m → NoMaxSize ops → m.run ops = some m' → Bounded m'
  | _, _, [], _, hb, _, hm => by
    cases hm
    exact hb
  | m, _, op :: ops, h, hb, hops, hm => by
    obtain ⟨m₁, h₁, hrun⟩ := Option.bind_eq_some_iff.mp hm
    have hrest : NoMaxSize ops := fun o ho => hops o (List.mem_cons_of_mem _ ho)
    have hb₁ : Bounded m₁ := by
      cases op with
      | insert k v => exact bounded_insert h hb h₁
      | erase k => exact bounded_erase hb h₁
      | update k v => exact bounded_update h hb h₁
      | maxSize s => exact absurd rfl (hops _ List.mem_cons_self s)
    exact bounded_run (consistent_step h h₁) hb₁ hrest hrun

end Invariant

/-- The three failures of `insert`. Capacity 2: `insert(0, 5)` then `insert(1, 1)`
keeps the entry of lower value alone, one entry where two fit. Capacity 3: two
entries, `max_size(2)`, then a third entry: the map holds three. Capacity 1: the first
`insert` reads `rmap.begin()` of an empty multimap. -/
theorem limitedmap_evicts_higher_value :
    ((empty 2 : LimitedMap Nat Nat).run [.insert 0 5, .insert 1 1]).map (·.map) = some [(1, 1)] ∧
      ((empty 3 : LimitedMap Nat Nat).run [.insert 0 0, .insert 1 0, .maxSize 2, .insert 2 0]).map
        (fun m => (m.nMaxSize, m.map.length)) = some (2, 3) ∧
      (empty 1 : LimitedMap Nat Nat).insert 0 0 = none := by
  decide

end LimitedMap

end Twister
