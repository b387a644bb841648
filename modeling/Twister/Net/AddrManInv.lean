import Twister.Net.AddrMan
import Twister.Lib.BackIndex
import Twister.Lib.Buckets

/-!
# The invariant of the address manager

`Check_` (addrman.cpp, built with `DEBUG_ADDRMAN`) walks the whole state and returns 0
when it is consistent. `Consistent` states what it verifies, with what the source
relies on without checking: `mapAddr` holds only the entries' addresses, ids stay below
`nIdCount`, every tried entry sits in the tried bucket its address hashes to, and
buckets keep within their sizes.

The parameter `pending` counts, per id, references an entry holds that no new bucket
holds yet. `Add_` increments a reference count, then lets `ShrinkNew` run, and only then
puts the id in its bucket; in between, the count of that one id is ahead by one. The
state of the source between calls has nothing pending.

This module states the invariant and shows how each kind of update of `mapInfo`,
`mapAddr`, `vRandom` and the buckets keeps each part of it.
-/

namespace Twister.Net

namespace CAddrMan

/-! ## What the indexes are compared with -/

/-- The position in `vRandom` each entry records. -/
def randomPos (mapInfo : List (Int × CAddrInfo)) (nId : Int) : Option ℕ :=
  (OrdMap.find? nId mapInfo).map fun info => info.nRandomPos.toNat

/-- How many tried buckets must hold an id: one for a tried entry. -/
def triedRefs (mapInfo : List (Int × CAddrInfo)) (nId : Int) : ℕ :=
  match OrdMap.find? nId mapInfo with
  | some info => if info.fInTried then 1 else 0
  | none => 0

/-- How many new buckets must hold an id: the reference count of a new entry. -/
def newRefs (mapInfo : List (Int × CAddrInfo)) (nId : Int) : ℕ :=
  match OrdMap.find? nId mapInfo with
  | some info => if info.fInTried then 0 else info.nRefCount.toNat
  | none => 0

/-- The number of tried entries. -/
def countTried (mapInfo : List (Int × CAddrInfo)) : ℕ :=
  (mapInfo.filter fun p => p.2.fInTried).length

/-- The number of new entries. -/
def countNew (mapInfo : List (Int × CAddrInfo)) : ℕ :=
  (mapInfo.filter fun p => !p.2.fInTried).length

/-! ## The invariant -/

/-- What `Check_` asks of one entry apart from the indexes. -/
structure EntryOk (info : CAddrInfo) : Prop where
  randomPos : 0 ≤ info.nRandomPos
  lastTry : 0 ≤ info.nLastTry
  lastSuccess : 0 ≤ info.nLastSuccess
  tried : info.fInTried = true → info.nRefCount = 0 ∧ info.nLastSuccess ≠ 0
  new : info.fInTried = false → 0 ≤ info.nRefCount ∧ info.nRefCount ≤ addrmanNewBucketsPerAddress

/-- `mapAddr` maps the address of each entry to its id, and holds nothing else. -/
structure AddrIndex (mapInfo : List (Int × CAddrInfo)) (mapAddr : List (CNetAddr × Int)) :
    Prop where
  sorted : OrdMap.Sorted mapAddr
  find_iff : ∀ a nId, OrdMap.find? a mapAddr = some nId ↔
    ∃ info, OrdMap.find? nId mapInfo = some info ∧ info.netAddr = a

/-- The tried table: 64 buckets of at most 64 ids, holding each tried entry once, in
the bucket its address hashes to, and nothing else. -/
structure TriedTable (env : AddrEnv) (nKey : Bytes) (mapInfo : List (Int × CAddrInfo))
    (vvTried : List (List Int)) : Prop where
  length : vvTried.length = addrmanTriedBucketCount
  size : ∀ vTried ∈ vvTried, vTried.length ≤ addrmanTriedBucketSize
  count : ∀ nId, vvTried.flatten.count nId = triedRefs mapInfo nId
  bucket : ∀ b nId, nId ∈ vvTried.getD b [] → ∃ info, OrdMap.find? nId mapInfo = some info ∧
    getTriedBucket env nKey info.toCService = b

/-- The new table: 256 sets of at most 64 ids, holding each new entry in as many
buckets as its reference count says, less what is pending, and nothing else. -/
structure NewTable (pending : Int → ℕ) (mapInfo : List (Int × CAddrInfo))
    (vvNew : List (List Int)) : Prop where
  length : vvNew.length = addrmanNewBucketCount
  size : ∀ vNew ∈ vvNew, vNew.length ≤ addrmanNewBucketSize
  sorted : ∀ vNew ∈ vvNew, vNew.Pairwise (· < ·)
  count : ∀ nId, vvNew.flatten.count nId + pending nId = newRefs mapInfo nId

/-- Every new entry has a reference. -/
def Live (mapInfo : List (Int × CAddrInfo)) : Prop :=
  ∀ nId info, OrdMap.find? nId mapInfo = some info → info.fInTried = false → 1 ≤ info.nRefCount

/-- Every index of `CAddrMan` agrees with `mapInfo`, with `pending` references. -/
structure Indexed (env : AddrEnv) (pending : Int → ℕ) (s : CAddrMan) : Prop where
  sorted : OrdMap.Sorted s.mapInfo
  idCount : 0 ≤ s.nIdCount
  fresh : ∀ nId ∈ OrdMap.keys s.mapInfo, 0 ≤ nId ∧ nId < s.nIdCount
  entry : ∀ nId info, OrdMap.find? nId s.mapInfo = some info → EntryOk info
  addr : AddrIndex s.mapInfo s.mapAddr
  random : BackIndex.Indexes (randomPos s.mapInfo) s.vRandom
  tried : TriedTable env s.nKey s.mapInfo s.vvTried
  new : NewTable pending s.mapInfo s.vvNew
  nTried : s.nTried = countTried s.mapInfo
  nNew : s.nNew = countNew s.mapInfo

/-- The representation invariant of `CAddrMan`: the indexes agree, and every new entry
has a reference. Within a call, an entry may have no reference for a moment (`Add_`
creates it with none, `ShrinkNew` and `MakeTried` take its last one); those states are
`Indexed` only. -/
structure Consistent (env : AddrEnv) (pending : Int → ℕ) (s : CAddrMan) : Prop
    extends Indexed env pending s where
  live : Live s.mapInfo

theorem intStrictOrder : OrdMap.StrictOrder Int := OrdMap.StrictOrder.of_linearOrder

theorem consistent_empty (env : AddrEnv) (nKey : Bytes) : Consistent env 0 (empty nKey) where
  live _ _ h := by simp [empty] at h
  sorted := OrdMap.sorted_nil
  idCount := le_refl 0
  fresh := by simp [empty, OrdMap.keys]
  entry := by simp [empty]
  addr := ⟨OrdMap.sorted_nil, by simp [empty]⟩
  random := by
    have hpos : randomPos (empty nKey).mapInfo = fun _ => none := rfl
    rw [hpos]
    exact BackIndex.indexes_nil
  tried := ⟨by simp [empty], by simp [empty], by simp [empty, triedRefs],
    fun b nId h => by
      simp only [empty, List.getD_eq_getElem?_getD, List.getElem?_replicate] at h
      split at h <;> simp at h⟩
  new := ⟨by simp [empty], by simp [empty], by simp [empty], by simp [empty, newRefs]⟩
  nTried := rfl
  nNew := rfl

/-! ## Reading the derived functions after an update of `mapInfo` -/

section Derived

variable {m : List (Int × CAddrInfo)} {k : Int} {v v₀ : CAddrInfo}

theorem randomPos_insert (m : List (Int × CAddrInfo)) (k : Int) (v : CAddrInfo) :
    randomPos (OrdMap.insert k v m) = Function.update (randomPos m) k (some v.nRandomPos.toNat) := by
  funext x
  simp only [randomPos, OrdMap.find?_insert, Function.update_apply]
  split_ifs <;> rfl

theorem randomPos_erase (hs : OrdMap.Sorted m) (k : Int) :
    randomPos (OrdMap.erase k m) = Function.update (randomPos m) k none := by
  funext x
  simp only [randomPos, OrdMap.find?_erase k x m (hs.nodup intStrictOrder), Function.update_apply]
  split_ifs <;> rfl

theorem triedRefs_insert (m : List (Int × CAddrInfo)) (k : Int) (v : CAddrInfo) (x : Int) :
    triedRefs (OrdMap.insert k v m) x = if x = k then (if v.fInTried then 1 else 0)
      else triedRefs m x := by
  simp only [triedRefs, OrdMap.find?_insert]
  by_cases hx : x = k <;> simp [hx]

theorem newRefs_insert (m : List (Int × CAddrInfo)) (k : Int) (v : CAddrInfo) (x : Int) :
    newRefs (OrdMap.insert k v m) x = if x = k then (if v.fInTried then 0 else v.nRefCount.toNat)
      else newRefs m x := by
  simp only [newRefs, OrdMap.find?_insert]
  by_cases hx : x = k <;> simp [hx]

theorem triedRefs_erase (hs : OrdMap.Sorted m) (k x : Int) :
    triedRefs (OrdMap.erase k m) x = if x = k then 0 else triedRefs m x := by
  simp only [triedRefs, OrdMap.find?_erase k x m (hs.nodup intStrictOrder)]
  by_cases hx : x = k <;> simp [hx]

theorem newRefs_erase (hs : OrdMap.Sorted m) (k x : Int) :
    newRefs (OrdMap.erase k m) x = if x = k then 0 else newRefs m x := by
  simp only [newRefs, OrdMap.find?_erase k x m (hs.nodup intStrictOrder)]
  by_cases hx : x = k <;> simp [hx]

theorem triedRefs_of_find? (hk : OrdMap.find? k m = some v) :
    triedRefs m k = if v.fInTried then 1 else 0 := by
  simp [triedRefs, hk]

theorem newRefs_of_find? (hk : OrdMap.find? k m = some v) :
    newRefs m k = if v.fInTried then 0 else v.nRefCount.toNat := by
  simp [newRefs, hk]

theorem countTried_insert (hs : OrdMap.Sorted m) (hk : OrdMap.find? k m = some v₀) (v : CAddrInfo) :
    countTried (OrdMap.insert k v m) + v₀.fInTried.toNat = countTried m + v.fInTried.toNat := by
  unfold countTried
  exact OrdMap.length_filter_insert_of_find? intStrictOrder (fun info : CAddrInfo => info.fInTried) hs hk

theorem countNew_insert (hs : OrdMap.Sorted m) (hk : OrdMap.find? k m = some v₀) (v : CAddrInfo) :
    countNew (OrdMap.insert k v m) + (!v₀.fInTried).toNat = countNew m + (!v.fInTried).toNat := by
  unfold countNew
  exact OrdMap.length_filter_insert_of_find? intStrictOrder (fun info : CAddrInfo => !info.fInTried) hs hk

end Derived

/-! ## Updates that keep the shape of an entry

Most calls only change the statistics of an entry: the times, the services, the
attempts. An entry keeps its place in every index as long as its service, its position
in `vRandom`, its table and its reference count stay. -/

section Frame

variable {env : AddrEnv} {nKey : Bytes} {d : Int → ℕ} {m : List (Int × CAddrInfo)}
  {k : Int} {v v₀ : CAddrInfo}

theorem AddrIndex.setInfo {mapAddr : List (CNetAddr × Int)} (h : AddrIndex m mapAddr)
    (hk : OrdMap.find? k m = some v₀) (hv : v.netAddr = v₀.netAddr) :
    AddrIndex (OrdMap.insert k v m) mapAddr := by
  refine ⟨h.sorted, fun a nId => ?_⟩
  rw [h.find_iff, OrdMap.find?_insert]
  by_cases hn : nId = k
  · subst hn
    simp [hk, hv]
  · simp [hn]

theorem TriedTable.setInfo {vvTried : List (List Int)} (h : TriedTable env nKey m vvTried)
    (hk : OrdMap.find? k m = some v₀) (hsvc : v.toCService = v₀.toCService)
    (htried : v.fInTried = v₀.fInTried) : TriedTable env nKey (OrdMap.insert k v m) vvTried where
  length := h.length
  size := h.size
  count nId := by
    rw [h.count, triedRefs_insert]
    by_cases hn : nId = k
    · subst hn
      rw [triedRefs_of_find? hk, if_pos rfl, htried]
    · rw [if_neg hn]
  bucket b nId hmem := by
    obtain ⟨info, hinfo, hb⟩ := h.bucket b nId hmem
    by_cases hn : nId = k
    · subst hn
      rw [hk] at hinfo
      cases hinfo
      exact ⟨v, OrdMap.find?_insert_self _ _ _, by rw [hsvc]; exact hb⟩
    · exact ⟨info, by rw [OrdMap.find?_insert_of_ne _ _ hn]; exact hinfo, hb⟩

theorem NewTable.setInfo {vvNew : List (List Int)} (h : NewTable d m vvNew)
    (hk : OrdMap.find? k m = some v₀) (htried : v.fInTried = v₀.fInTried)
    (href : v.nRefCount = v₀.nRefCount) : NewTable d (OrdMap.insert k v m) vvNew where
  length := h.length
  size := h.size
  sorted := h.sorted
  count nId := by
    rw [h.count, newRefs_insert]
    by_cases hn : nId = k
    · subst hn
      rw [newRefs_of_find? hk, if_pos rfl, htried, href]
    · rw [if_neg hn]

theorem randomPos_setInfo (hk : OrdMap.find? k m = some v₀) (hpos : v.nRandomPos = v₀.nRandomPos) :
    randomPos (OrdMap.insert k v m) = randomPos m := by
  rw [randomPos_insert, hpos]
  exact Function.update_eq_self_iff.mpr (by simp [randomPos, hk])

theorem countTried_setInfo (hs : OrdMap.Sorted m) (hk : OrdMap.find? k m = some v₀)
    (htried : v.fInTried = v₀.fInTried) : countTried (OrdMap.insert k v m) = countTried m := by
  have := countTried_insert hs hk v
  rw [htried] at this
  omega

theorem countNew_setInfo (hs : OrdMap.Sorted m) (hk : OrdMap.find? k m = some v₀)
    (htried : v.fInTried = v₀.fInTried) : countNew (OrdMap.insert k v m) = countNew m := by
  have := countNew_insert hs hk v
  rw [htried] at this
  omega

theorem fresh_insert_of_mem {nIdCount : Int}
    (hfresh : ∀ nId ∈ OrdMap.keys m, 0 ≤ nId ∧ nId < nIdCount) (hk : k ∈ OrdMap.keys m) :
    ∀ nId ∈ OrdMap.keys (OrdMap.insert k v m), 0 ≤ nId ∧ nId < nIdCount := by
  intro nId hn
  rcases (OrdMap.mem_keys_insert k nId v m).mp hn with rfl | hn
  · exact hfresh _ hk
  · exact hfresh _ hn

theorem entry_insert (hentry : ∀ nId info, OrdMap.find? nId m = some info → EntryOk info)
    (hok : EntryOk v) : ∀ nId info, OrdMap.find? nId (OrdMap.insert k v m) = some info →
      EntryOk info := by
  intro nId info hinfo
  rw [OrdMap.find?_insert] at hinfo
  split_ifs at hinfo
  · cases hinfo
    exact hok
  · exact hentry nId info hinfo

theorem mem_keys_of_find? (hk : OrdMap.find? k m = some v₀) : k ∈ OrdMap.keys m :=
  (OrdMap.find?_isSome_iff k m).mp (by simp [hk])

/-- An update of one entry that keeps its service and its position keeps the indexes
that read only those; the tables and the counters, which also read its table and its
references, are given. -/
theorem Indexed.of_setInfo {s s' : CAddrMan} {d' : Int → ℕ} (h : Indexed env d s)
    (hk : OrdMap.find? k s.mapInfo = some v₀) (hsvc : v.toCService = v₀.toCService)
    (hpos : v.nRandomPos = v₀.nRandomPos) (hok : EntryOk v)
    (hmap : s'.mapInfo = OrdMap.insert k v s.mapInfo) (hid : s'.nIdCount = s.nIdCount)
    (haddr : s'.mapAddr = s.mapAddr) (hrandom : s'.vRandom = s.vRandom)
    (htried : TriedTable env s'.nKey s'.mapInfo s'.vvTried) (hnew : NewTable d' s'.mapInfo s'.vvNew)
    (hnTried : s'.nTried = countTried s'.mapInfo) (hnNew : s'.nNew = countNew s'.mapInfo) :
    Indexed env d' s' where
  sorted := hmap ▸ OrdMap.sorted_insert intStrictOrder k v h.sorted
  idCount := hid ▸ h.idCount
  fresh := hmap ▸ hid ▸ fresh_insert_of_mem h.fresh (mem_keys_of_find? hk)
  entry := hmap ▸ entry_insert h.entry hok
  addr := hmap ▸ haddr ▸ h.addr.setInfo hk (congrArg CService.netAddr hsvc)
  random := by
    rw [hmap, hrandom, randomPos_setInfo hk hpos]
    exact h.random
  tried := htried
  new := hnew
  nTried := hnTried
  nNew := hnNew

/-- A change of the statistics of an entry keeps the indexes, when the new statistics
pass the checks of one entry. -/
theorem Indexed.setInfo {s : CAddrMan} (h : Indexed env d s)
    (hk : OrdMap.find? k s.mapInfo = some v₀) (hsvc : v.toCService = v₀.toCService)
    (hpos : v.nRandomPos = v₀.nRandomPos) (htried : v.fInTried = v₀.fInTried)
    (href : v.nRefCount = v₀.nRefCount) (hok : EntryOk v) :
    Indexed env d { s with mapInfo := OrdMap.insert k v s.mapInfo } :=
  h.of_setInfo hk hsvc hpos hok rfl rfl rfl rfl (h.tried.setInfo hk hsvc htried)
    (h.new.setInfo hk htried href)
    (h.nTried.trans (by rw [countTried_setInfo h.sorted hk htried]))
    (h.nNew.trans (by rw [countNew_setInfo h.sorted hk htried]))

theorem Live.insert (hlive : Live m) (hv : v.fInTried = false → 1 ≤ v.nRefCount) :
    Live (OrdMap.insert k v m) := by
  intro nId info hinfo
  rw [OrdMap.find?_insert] at hinfo
  split_ifs at hinfo
  · cases hinfo
    exact hv
  · exact hlive nId info hinfo

theorem Consistent.setInfo {s : CAddrMan} (h : Consistent env d s)
    (hk : OrdMap.find? k s.mapInfo = some v₀) (hsvc : v.toCService = v₀.toCService)
    (hpos : v.nRandomPos = v₀.nRandomPos) (htried : v.fInTried = v₀.fInTried)
    (href : v.nRefCount = v₀.nRefCount) (hok : EntryOk v) :
    Consistent env d { s with mapInfo := OrdMap.insert k v s.mapInfo } where
  toIndexed := h.toIndexed.setInfo hk hsvc hpos htried href hok
  live := h.live.insert fun hnew => by
    rw [href]
    exact h.live k v₀ hk (htried ▸ hnew)

end Frame

/-! ## Positions in `vRandom` -/

section Swap

variable {env : AddrEnv} {d : Int → ℕ} {s : CAddrMan}

theorem find?_of_randomPos {m : List (Int × CAddrInfo)} {x : Int} {p : ℕ}
    (h : randomPos m x = some p) : ∃ info, OrdMap.find? x m = some info ∧ info.nRandomPos.toNat = p := by
  unfold randomPos at h
  cases hx : OrdMap.find? x m with
  | none => simp [hx] at h
  | some info =>
    simp only [hx, Option.map_some, Option.some.injEq] at h
    exact ⟨info, rfl, h⟩

/-- The id at a position of `vRandom` has an entry, which records that position. -/
theorem Indexed.find?_of_getElem? (h : Indexed env d s) {i : ℕ} {a : Int}
    (ha : s.vRandom[i]? = some a) :
    ∃ info, OrdMap.find? a s.mapInfo = some info ∧ info.nRandomPos = i := by
  obtain ⟨info, hinfo, hpos⟩ := find?_of_randomPos (h.random.pos_of_get i a ha)
  refine ⟨info, hinfo, ?_⟩
  have := (h.entry a info hinfo).randomPos
  omega

theorem EntryOk.setRandomPos {info : CAddrInfo} (h : EntryOk info) (p : ℕ) :
    EntryOk { info with nRandomPos := p } :=
  ⟨Int.natCast_nonneg p, h.lastTry, h.lastSuccess, h.tried, h.new⟩

theorem setRandomPos_eq {m : List (Int × CAddrInfo)} {k : Int} {info : CAddrInfo} (p : ℕ)
    (hk : OrdMap.find? k m = some info) :
    setRandomPos k p m = OrdMap.insert k { info with nRandomPos := p } m := by
  simp [setRandomPos, OrdMap.modify, OrdMap.findD, hk]

theorem getD_of_getElem? {l : List Int} {i : ℕ} {a : Int} (h : l[i]? = some a) : l.getD i 0 = a := by
  rw [List.getD_eq_getElem?_getD, h]
  rfl

/-- What `SwapRandom(i, j)` does to two distinct positions holding ids with entries. -/
theorem swapRandom_of_ne {i j : ℕ} {a b : Int} (hij : i ≠ j)
    (ha : s.vRandom[i]? = some a) (hb : s.vRandom[j]? = some b)
    (hia : OrdMap.contains a s.mapInfo = true) (hib : OrdMap.contains b s.mapInfo = true) :
    s.swapRandom i j = some { s with
      mapInfo := setRandomPos b i (setRandomPos a j s.mapInfo),
      vRandom := (s.vRandom.set i b).set j a } := by
  have hi : i < s.vRandom.length := (List.getElem?_eq_some_iff.mp ha).1
  have hj : j < s.vRandom.length := (List.getElem?_eq_some_iff.mp hb).1
  unfold swapRandom
  rw [getD_of_getElem? ha, getD_of_getElem? hb]
  simp [hij, hi, hj, hia, hib]

theorem Indexed.contains_of_getElem? (h : Indexed env d s) {i : ℕ} {a : Int}
    (ha : s.vRandom[i]? = some a) : OrdMap.contains a s.mapInfo = true := by
  obtain ⟨info, hinfo, -⟩ := h.find?_of_getElem? ha
  simp [OrdMap.contains, hinfo]

/-- Exchanging two positions of `vRandom`, each entry recording its new one, keeps
the indexes. -/
theorem Indexed.swap (h : Indexed env d s) {i j : ℕ} {a b : Int} (hij : i ≠ j)
    (ha : s.vRandom[i]? = some a) (hb : s.vRandom[j]? = some b) :
    Indexed env d { s with
      mapInfo := setRandomPos b i (setRandomPos a j s.mapInfo),
      vRandom := (s.vRandom.set i b).set j a } := by
  obtain ⟨ia, hia, -⟩ := h.find?_of_getElem? ha
  obtain ⟨ib, hib, -⟩ := h.find?_of_getElem? hb
  have hab : a ≠ b := by
    rintro rfl
    have hposi := h.random.pos_of_get i a ha
    rw [h.random.pos_of_get j a hb] at hposi
    exact hij (Option.some.inj hposi).symm
  have hib1 : OrdMap.find? b (OrdMap.insert a { ia with nRandomPos := j } s.mapInfo) = some ib := by
    rw [OrdMap.find?_insert_of_ne _ _ (Ne.symm hab)]
    exact hib
  rw [setRandomPos_eq j hia, setRandomPos_eq i hib1]
  have hs1 := OrdMap.sorted_insert intStrictOrder a { ia with nRandomPos := (j : Int) } h.sorted
  exact {
    sorted := OrdMap.sorted_insert intStrictOrder _ _ hs1
    idCount := h.idCount
    fresh := fresh_insert_of_mem (fresh_insert_of_mem h.fresh (mem_keys_of_find? hia))
      (mem_keys_of_find? hib1)
    entry := entry_insert (entry_insert h.entry ((h.entry a ia hia).setRandomPos j))
      ((h.entry b ib hib).setRandomPos i)
    addr := (h.addr.setInfo (v := { ia with nRandomPos := (j : Int) }) hia rfl).setInfo
      (v := { ib with nRandomPos := (i : Int) }) hib1 rfl
    random := by
      rw [randomPos_insert, randomPos_insert]
      simpa using h.random.swap hij ha hb
    tried := (h.tried.setInfo (v := { ia with nRandomPos := (j : Int) }) hia rfl rfl).setInfo
      (v := { ib with nRandomPos := (i : Int) }) hib1 rfl rfl
    new := (h.new.setInfo (v := { ia with nRandomPos := (j : Int) }) hia rfl rfl).setInfo
      (v := { ib with nRandomPos := (i : Int) }) hib1 rfl rfl
    nTried := h.nTried.trans (by
      dsimp only
      rw [countTried_setInfo (v := { ib with nRandomPos := (i : Int) }) hs1 hib1 rfl,
        countTried_setInfo (v := { ia with nRandomPos := (j : Int) }) h.sorted hia rfl])
    nNew := h.nNew.trans (by
      dsimp only
      rw [countNew_setInfo (v := { ib with nRandomPos := (i : Int) }) hs1 hib1 rfl,
        countNew_setInfo (v := { ia with nRandomPos := (j : Int) }) h.sorted hia rfl]) }

end Swap

/-! ## Taking an id out of a new bucket -/

section Remove

variable {env : AddrEnv} {d : Int → ℕ} {m : List (Int × CAddrInfo)} {k : Int} {v₀ : CAddrInfo}

theorem NewTable.nodup_getD {vvNew : List (List Int)} (h : NewTable d m vvNew) (b : ℕ) :
    (vvNew.getD b []).Nodup := by
  by_cases hb : b < vvNew.length
  · exact (h.sorted _ (Buckets.getD_mem hb)).nodup
  · rw [List.getD_eq_getElem?_getD, List.getElem?_eq_none (by omega)]
    exact List.nodup_nil

/-- An id in a new bucket, with nothing pending, is a new entry with a reference. -/
theorem NewTable.find?_of_mem {vvNew : List (List Int)} {b : ℕ} (h : NewTable d m vvNew)
    (hk : k ∈ vvNew.getD b []) (hd : d k = 0) :
    ∃ info, OrdMap.find? k m = some info ∧ info.fInTried = false ∧ 1 ≤ info.nRefCount := by
  have hpos : 0 < vvNew.flatten.count k :=
    List.count_pos_iff.mpr (Buckets.mem_flatten_of_mem_getD hk)
  have hc := h.count k
  rw [hd, Nat.add_zero] at hc
  cases hf : OrdMap.find? k m with
  | none =>
    simp only [newRefs, hf] at hc
    omega
  | some info =>
    cases ht : info.fInTried
    · refine ⟨info, rfl, ht, ?_⟩
      simp only [newRefs, hf, ht, Bool.false_eq_true, if_false] at hc
      omega
    · simp only [newRefs, hf, ht, if_true] at hc
      omega

theorem EntryOk.setRefCount {info : CAddrInfo} (h : EntryOk info) (hnew : info.fInTried = false)
    {r : Int} (h0 : 0 ≤ r) (h4 : r ≤ addrmanNewBucketsPerAddress) :
    EntryOk { info with nRefCount := r } :=
  ⟨h.randomPos, h.lastTry, h.lastSuccess, fun ht => by simp [hnew] at ht, fun _ => ⟨h0, h4⟩⟩

/-- One reference fewer and one bucket fewer for a new entry. -/
theorem NewTable.dropRef {vvNew : List (List Int)} {b : ℕ} (h : NewTable d m vvNew)
    (hb : b < vvNew.length) (hk : k ∈ vvNew.getD b []) (hinfo : OrdMap.find? k m = some v₀)
    (hnew : v₀.fInTried = false) (hd : d k = 0) :
    NewTable d (OrdMap.insert k { v₀ with nRefCount := v₀.nRefCount - 1 } m)
      (vvNew.set b ((vvNew.getD b []).erase k)) where
  length := by rw [List.length_set]; exact h.length
  size l hl := by
    rcases Buckets.mem_set hl with hl | rfl
    · exact h.size l hl
    · exact List.length_erase_le.trans (h.size _ (Buckets.getD_mem hb))
  sorted l hl := by
    rcases Buckets.mem_set hl with hl | rfl
    · exact h.sorted l hl
    · exact (h.sorted _ (Buckets.getD_mem hb)).sublist List.erase_sublist
  count x := by
    have hset := Buckets.count_flatten_set hb ((vvNew.getD b []).erase k) x
    have hc := h.count x
    rw [newRefs_insert]
    by_cases hx : x = k
    · subst hx
      have h1 : (vvNew.getD b []).count x = 1 := List.count_eq_one_of_mem (h.nodup_getD b) hk
      rw [List.count_erase_self, h1] at hset
      rw [newRefs_of_find? hinfo, hnew, hd] at hc
      simp only [if_true, hnew, Bool.false_eq_true, if_false, hd] at hc ⊢
      omega
    · rw [List.count_erase_of_ne hx] at hset
      rw [if_neg hx]
      omega

/-- The first half of the removal block: a new entry in bucket `b`, with nothing
pending, loses one reference and leaves the bucket. -/
theorem Indexed.dropRef {s : CAddrMan} {b : ℕ} (h : Indexed env d s) (hb : b < s.vvNew.length)
    (hk : k ∈ s.vvNew.getD b []) (hd : d k = 0) :
    ∃ info, OrdMap.find? k s.mapInfo = some info ∧ info.fInTried = false ∧ 1 ≤ info.nRefCount ∧
      Indexed env d { s with
        mapInfo := OrdMap.insert k { info with nRefCount := info.nRefCount - 1 } s.mapInfo,
        vvNew := s.vvNew.set b ((s.vvNew.getD b []).erase k) } := by
  obtain ⟨info, hinfo, hnew, href⟩ := h.new.find?_of_mem hk hd
  have hok := h.entry k info hinfo
  have htried : ({ info with nRefCount := info.nRefCount - 1 } : CAddrInfo).fInTried =
      info.fInTried := rfl
  refine ⟨info, hinfo, hnew, href, h.of_setInfo (v := { info with nRefCount := info.nRefCount - 1 })
    hinfo rfl rfl
    (hok.setRefCount hnew (by omega) (by have := (hok.new hnew).2; omega)) rfl rfl rfl rfl
    (h.tried.setInfo hinfo rfl htried) (h.new.dropRef hb hk hinfo hnew hd) ?_ ?_⟩
  · exact h.nTried.trans (by dsimp only; rw [countTried_setInfo h.sorted hinfo htried])
  · exact h.nNew.trans (by dsimp only; rw [countNew_setInfo h.sorted hinfo htried])

theorem AddrIndex.erase {mapAddr : List (CNetAddr × Int)} (h : AddrIndex m mapAddr)
    (hs : OrdMap.Sorted m) (hk : OrdMap.find? k m = some v₀) :
    AddrIndex (OrdMap.erase k m) (OrdMap.erase v₀.netAddr mapAddr) := by
  refine ⟨h.sorted.of_sublist (OrdMap.erase_sublist _ _), fun a nId => ?_⟩
  rw [OrdMap.find?_erase _ _ _ (h.sorted.nodup cNetAddrStrictOrder),
    OrdMap.find?_erase _ _ _ (hs.nodup intStrictOrder)]
  by_cases ha : a = v₀.netAddr
  · subst ha
    simp only [if_true, reduceCtorEq, false_iff, not_exists, not_and]
    intro info hinfo hnet
    split_ifs at hinfo with hn
    have h1 := (h.find_iff _ nId).mpr ⟨info, hinfo, hnet⟩
    rw [(h.find_iff _ k).mpr ⟨v₀, hk, rfl⟩] at h1
    exact hn (Option.some.inj h1).symm
  · rw [if_neg ha, h.find_iff]
    constructor
    · rintro ⟨info, hinfo, hnet⟩
      have hn : nId ≠ k := by
        rintro rfl
        rw [hk] at hinfo
        cases hinfo
        exact ha hnet.symm
      exact ⟨info, by rw [if_neg hn]; exact hinfo, hnet⟩
    · rintro ⟨info, hinfo, hnet⟩
      split_ifs at hinfo
      exact ⟨info, hinfo, hnet⟩

theorem TriedTable.erase {nKey : Bytes} {vvTried : List (List Int)}
    (h : TriedTable env nKey m vvTried) (hs : OrdMap.Sorted m) (hk : OrdMap.find? k m = some v₀)
    (hnew : v₀.fInTried = false) : TriedTable env nKey (OrdMap.erase k m) vvTried where
  length := h.length
  size := h.size
  count x := by
    rw [h.count, triedRefs_erase hs]
    split_ifs with hx
    · subst hx
      rw [triedRefs_of_find? hk, hnew]
      rfl
    · rfl
  bucket b x hx := by
    obtain ⟨info, hinfo, hb⟩ := h.bucket b x hx
    have hxk : x ≠ k := by
      rintro rfl
      have hc := h.count x
      rw [triedRefs_of_find? hk, hnew] at hc
      have := List.count_pos_iff.mpr (Buckets.mem_flatten_of_mem_getD hx)
      simp only [Bool.false_eq_true, if_false] at hc
      omega
    exact ⟨info, by rw [OrdMap.find?_erase _ _ _ (hs.nodup intStrictOrder), if_neg hxk]; exact hinfo, hb⟩

theorem NewTable.erase {vvNew : List (List Int)} (h : NewTable d m vvNew) (hs : OrdMap.Sorted m)
    (hk : OrdMap.find? k m = some v₀) (hnew : v₀.fInTried = false) (hzero : v₀.nRefCount = 0) :
    NewTable d (OrdMap.erase k m) vvNew where
  length := h.length
  size := h.size
  sorted := h.sorted
  count x := by
    rw [newRefs_erase hs]
    split_ifs with hx
    · subst hx
      have hc := h.count x
      rw [newRefs_of_find? hk, hnew, hzero] at hc
      simpa using hc
    · exact h.count x

theorem countTried_erase (hk : OrdMap.find? k m = some v₀) :
    countTried (OrdMap.erase k m) + v₀.fInTried.toNat = countTried m := by
  unfold countTried
  exact OrdMap.length_filter_erase_of_find? (fun info : CAddrInfo => info.fInTried) hk

theorem countNew_erase (hk : OrdMap.find? k m = some v₀) :
    countNew (OrdMap.erase k m) + (!v₀.fInTried).toNat = countNew m := by
  unfold countNew
  exact OrdMap.length_filter_erase_of_find? (fun info : CAddrInfo => !info.fInTried) hk

theorem keys_erase_subset {x : Int} (hx : x ∈ OrdMap.keys (OrdMap.erase k m)) :
    x ∈ OrdMap.keys m :=
  ((OrdMap.erase_sublist k m).map Prod.fst).subset hx

/-- The second half of the removal block: a new entry without references, last in
`vRandom`, leaves `vRandom`, `mapAddr` and `mapInfo`. -/
theorem Indexed.deleteLast {s : CAddrMan} (h : Indexed env d s)
    (hlast : s.vRandom.getLast? = some k) (hk : OrdMap.find? k s.mapInfo = some v₀)
    (hnew : v₀.fInTried = false) (hzero : v₀.nRefCount = 0) :
    Indexed env d { s with
      vRandom := s.vRandom.dropLast, mapAddr := OrdMap.erase v₀.netAddr s.mapAddr,
      mapInfo := OrdMap.erase k s.mapInfo, nNew := s.nNew - 1 } where
  sorted := h.sorted.of_sublist (OrdMap.erase_sublist k s.mapInfo)
  idCount := h.idCount
  fresh x hx := h.fresh x (keys_erase_subset hx)
  entry x info hx := by
    rw [OrdMap.find?_erase _ _ _ (h.sorted.nodup intStrictOrder)] at hx
    split_ifs at hx
    exact h.entry x info hx
  addr := h.addr.erase h.sorted hk
  random := by
    rw [randomPos_erase h.sorted]
    exact h.random.pop hlast
  tried := h.tried.erase h.sorted hk hnew
  new := h.new.erase h.sorted hk hnew hzero
  nTried := by
    have := countTried_erase hk
    rw [hnew] at this
    simp only [Bool.toNat_false, Nat.add_zero] at this
    rw [h.nTried, ← this]
  nNew := by
    have := countNew_erase hk
    rw [hnew] at this
    simp only [Bool.not_false, Bool.toNat_true] at this
    rw [h.nNew, ← this]
    dsimp only
    omega

theorem info_of_find? {s : CAddrMan} (hk : OrdMap.find? k s.mapInfo = some v₀) : s.info k = v₀ := by
  simp [CAddrMan.info, OrdMap.findD, hk]

theorem unsignedOfInt_of_lt {n : Int} (h0 : 0 ≤ n) (h1 : n < 4294967296) :
    unsignedOfInt n = n.toNat := by
  unfold unsignedOfInt
  rw [Int.emod_eq_of_lt h0 h1]

theorem swapRandom_self (s : CAddrMan) (i : ℕ) : s.swapRandom i i = some s := by
  simp [swapRandom]

/-- Each entry of `m'` is an entry of `m` in the same table with the same references;
only positions in `vRandom` may differ. -/
def SameRefs (m m' : List (Int × CAddrInfo)) : Prop :=
  ∀ x info', OrdMap.find? x m' = some info' → ∃ info, OrdMap.find? x m = some info ∧
    info'.fInTried = info.fInTried ∧ info'.nRefCount = info.nRefCount

theorem sameRefs_refl (m : List (Int × CAddrInfo)) : SameRefs m m :=
  fun _ info hx => ⟨info, hx, rfl, rfl⟩

theorem SameRefs.trans {m₁ m₂ m₃ : List (Int × CAddrInfo)} (h₁ : SameRefs m₁ m₂)
    (h₂ : SameRefs m₂ m₃) : SameRefs m₁ m₃ := by
  intro x info₃ hx
  obtain ⟨info₂, hx₂, ht₂, hr₂⟩ := h₂ x info₃ hx
  obtain ⟨info₁, hx₁, ht₁, hr₁⟩ := h₁ x info₂ hx₂
  exact ⟨info₁, hx₁, ht₂.trans ht₁, hr₂.trans hr₁⟩

theorem sameRefs_setRandomPos (hk : OrdMap.find? k m = some v₀) (p : ℕ) :
    SameRefs m (setRandomPos k p m) := by
  intro x info' hx
  rw [setRandomPos_eq p hk, OrdMap.find?_insert] at hx
  split_ifs at hx with hxk
  · cases hx
    subst hxk
    exact ⟨v₀, hk, rfl, rfl⟩
  · exact ⟨info', hx, rfl, rfl⟩

/-- Erasing the one entry that was changed leaves entries as they were. -/
theorem sameRefs_erase_insert {v : CAddrInfo} {m' : List (Int × CAddrInfo)}
    (hs : SameRefs (OrdMap.insert k v m) m') (hnd : (OrdMap.keys m').Nodup) :
    SameRefs m (OrdMap.erase k m') := by
  intro x info' hx
  rw [OrdMap.find?_erase _ _ _ hnd] at hx
  split_ifs at hx with hxk
  obtain ⟨info, hinfo, ht, hr⟩ := hs x info' hx
  rw [OrdMap.find?_insert_of_ne _ _ hxk] at hinfo
  exact ⟨info, hinfo, ht, hr⟩

theorem Live.of_sameRefs {m' : List (Int × CAddrInfo)} (h : Live m) (hs : SameRefs m m') :
    Live m' := by
  intro x info' hx hnew
  obtain ⟨info, hinfo, ht, hr⟩ := hs x info' hx
  rw [hr]
  exact h x info hinfo (ht ▸ hnew)

/-- The removal block of `ShrinkNew`, on an id of bucket `b` with nothing pending,
passes its asserts and keeps the invariant; of the new table only bucket `b` changes.
The conversions to `unsigned int` of its `SwapRandom` call are exact below `2 ^ 32`
entries. -/
theorem Consistent.removeFromNew {s : CAddrMan} {b : ℕ} (h : Consistent env d s)
    (hb : b < s.vvNew.length) (hk : k ∈ s.vvNew.getD b []) (hd : d k = 0)
    (hlen : s.vRandom.length ≤ 4294967296) :
    ∃ s', s.removeFromNew b k = some s' ∧ Consistent env d s' ∧ s'.nKey = s.nKey ∧
      s'.vvNew = s.vvNew.set b ((s.vvNew.getD b []).erase k) ∧ s'.vvTried = s.vvTried ∧
      s'.vRandom.length ≤ s.vRandom.length := by
  obtain ⟨info, hinfo, hnew, href, hdrop⟩ := h.toIndexed.dropRef hb hk hd
  have hok := h.entry k info hinfo
  have hposk : randomPos s.mapInfo k = some info.nRandomPos.toNat := by simp [randomPos, hinfo]
  have hget : s.vRandom[info.nRandomPos.toNat]? = some k := h.random.get_of_pos k _ hposk
  have hlt : info.nRandomPos.toNat < s.vRandom.length := h.random.lt_length hposk
  have hp : unsignedOfInt info.nRandomPos = info.nRandomPos.toNat :=
    unsignedOfInt_of_lt hok.randomPos (by omega)
  have hq : unsignedOfInt ((s.vRandom.length : Int) - 1) = s.vRandom.length - 1 := by
    rw [unsignedOfInt_of_lt (by omega) (by omega)]
    omega
  have hnd := hdrop.sorted.nodup intStrictOrder
  have hk1 : OrdMap.find? k (OrdMap.insert k { info with nRefCount := info.nRefCount - 1 }
      s.mapInfo) = some { info with nRefCount := info.nRefCount - 1 } :=
    OrdMap.find?_insert_self _ _ _
  unfold CAddrMan.removeFromNew
  simp only [CAddrMan.info, OrdMap.findD, hinfo, Option.getD_some]
  by_cases hzero : info.nRefCount - 1 = 0
  · rw [if_pos hzero, hp, hq]
    set info' : CAddrInfo := { info with nRefCount := info.nRefCount - 1 } with hinfo'
    by_cases hpq : info.nRandomPos.toNat = s.vRandom.length - 1
    · rw [hpq, swapRandom_self]
      have hlast : s.vRandom.getLast? = some k := by
        rw [List.getLast?_eq_getElem?, ← hpq]
        exact hget
      have hdel := hdrop.deleteLast hlast hk1 hnew hzero
      refine ⟨_, rfl, ⟨hdel, ?_⟩, rfl, rfl, rfl, by simp⟩
      exact h.live.of_sameRefs (sameRefs_erase_insert (sameRefs_refl _) hnd)
    · obtain ⟨b', hb'⟩ : ∃ b', s.vRandom[s.vRandom.length - 1]? = some b' :=
        ⟨_, List.getElem?_eq_getElem (by omega)⟩
      have hkb : k ≠ b' := by
        rintro rfl
        have hpos' := h.random.pos_of_get _ _ hb'
        rw [hposk] at hpos'
        exact hpq (Option.some.inj hpos')
      have hb1 : OrdMap.find? b' (OrdMap.insert k info' s.mapInfo) = OrdMap.find? b' s.mapInfo :=
        OrdMap.find?_insert_of_ne _ _ (Ne.symm hkb)
      have hcb : OrdMap.contains b' (OrdMap.insert k info' s.mapInfo) = true := by
        rw [OrdMap.contains, hb1]
        exact h.contains_of_getElem? hb'
      have hsw : ({ s with mapInfo := OrdMap.insert k info' s.mapInfo } : CAddrMan).swapRandom
          info.nRandomPos.toNat (s.vRandom.length - 1) = some _ :=
        swapRandom_of_ne hpq hget hb' (by simp [OrdMap.contains]) hcb
      rw [hsw]
      have hswap := hdrop.swap hpq hget hb'
      have hk2 : OrdMap.find? k (setRandomPos b' info.nRandomPos.toNat
          (setRandomPos k (s.vRandom.length - 1) (OrdMap.insert k info' s.mapInfo))) =
          some { info' with nRandomPos := ((s.vRandom.length - 1 : ℕ) : Int) } := by
        rw [setRandomPos_eq _ hk1]
        unfold setRandomPos OrdMap.modify
        rw [OrdMap.find?_insert_of_ne _ _ hkb, OrdMap.find?_insert_self]
      have hlast : ((s.vRandom.set info.nRandomPos.toNat b').set (s.vRandom.length - 1) k).getLast? =
          some k := by
        rw [List.getLast?_eq_getElem?]
        simp only [List.length_set]
        exact List.getElem?_set_self (by simp; omega)
      have hsame : SameRefs (OrdMap.insert k info' s.mapInfo)
          (setRandomPos b' info.nRandomPos.toNat (setRandomPos k (s.vRandom.length - 1)
            (OrdMap.insert k info' s.mapInfo))) := by
        have hb2 : OrdMap.find? b' (setRandomPos k (s.vRandom.length - 1)
            (OrdMap.insert k info' s.mapInfo)) = OrdMap.find? b' s.mapInfo := by
          rw [setRandomPos_eq _ hk1, OrdMap.find?_insert_of_ne _ _ (Ne.symm hkb), hb1]
        obtain ⟨ib, hib, -⟩ := h.find?_of_getElem? hb'
        exact (sameRefs_setRandomPos hk1 _).trans (sameRefs_setRandomPos (hb2.trans hib) _)
      have hdel := hswap.deleteLast hlast hk2 hnew hzero
      refine ⟨_, rfl, ⟨hdel, ?_⟩, rfl, rfl, rfl, by simp⟩
      exact h.live.of_sameRefs (sameRefs_erase_insert hsame (hswap.sorted.nodup intStrictOrder))
  · rw [if_neg hzero]
    have hpos : 1 ≤ info.nRefCount - 1 := by omega
    exact ⟨_, rfl, ⟨hdrop, h.live.insert fun _ => hpos⟩, rfl, rfl, rfl, le_refl _⟩

end Remove

end CAddrMan

end Twister.Net
