import Twister.Net.AddrManInv

/-!
# Adding addresses

`Add_` either updates a known entry or creates one, and then gives the entry one more
new bucket: the reference count goes up first, `ShrinkNew` makes room when the bucket is
full, and the id joins the bucket last. In between, the entry's count is one ahead of
the table, which the `pending` parameter of the invariant accounts for; the lemmas here
move it up and back down.
-/

namespace Twister.Net

namespace CAddrMan

/-! ## `ShrinkNew` -/

section Shrink

variable {m : List (Int × CAddrInfo)}

theorem getRandInt_lt {n : ℕ} (hn : 0 < n) (rs : List Nat) : (getRandInt n rs).1 < n := by
  cases rs with
  | nil => exact hn
  | cons r rs => exact Nat.mod_lt r hn

/-- The first loop of `ShrinkNew` passes its assert when every id of the bucket has an
entry, and what it finds is in the bucket. -/
theorem findTerrible_mem (nNow : Int) :
    ∀ {vNew : List Int}, (∀ x ∈ vNew, OrdMap.contains x m = true) →
      ∃ r, findTerrible m nNow vNew = some r ∧ ∀ x, r = some x → x ∈ vNew
  | [], _ => ⟨none, rfl, by simp⟩
  | nId :: vNew, hc => by
    obtain ⟨info, hinfo⟩ := Option.isSome_iff_exists.mp (hc nId List.mem_cons_self)
    by_cases ht : info.isTerrible nNow
    · exact ⟨some nId, by simp [findTerrible, hinfo, ht], by simp⟩
    · obtain ⟨r, hr, hmem⟩ := findTerrible_mem nNow fun x hx =>
        hc x (List.mem_cons_of_mem _ hx)
      exact ⟨r, by simp [findTerrible, hinfo, ht, hr], fun x hx => List.mem_cons_of_mem _ (hmem x hx)⟩

/-- The second loop of `ShrinkNew` passes its assert when every id of the bucket has an
entry, and returns an id of `S` when it starts from one, or from none (`-1`) with a
drawn position still ahead. -/
theorem selectOldest_mem {n : List ℕ} {S : List Int} :
    ∀ (nI : ℕ) {vNew : List Int} (nOldest : Int),
      (∀ x ∈ vNew, OrdMap.contains x m = true ∧ 0 ≤ x) → vNew ⊆ S →
      (nOldest = -1 ∨ nOldest ∈ S) →
      (nOldest = -1 → ∃ j ∈ n, nI ≤ j ∧ j < nI + vNew.length) →
      ∃ r, selectOldest m n nI vNew nOldest = some r ∧ r ∈ S
  | nI, [], nOldest, _, _, hS, hj => by
    have hold : nOldest ≠ -1 := fun h => by
      obtain ⟨j, -, hj1, hj2⟩ := hj h
      simp at hj2
      omega
    exact ⟨nOldest, rfl, hS.resolve_left hold⟩
  | nI, nId :: vNew, nOldest, hc, hsub, hS, hj => by
    have hnId := hc nId List.mem_cons_self
    have hc' := fun x hx => hc x (List.mem_cons_of_mem nId hx)
    obtain ⟨hnS, hsub'⟩ := List.cons_subset.mp hsub
    by_cases hin : nI ∈ n
    · have hguard : ¬ (nOldest ≠ -1 ∧ OrdMap.contains nId m = false) := by simp [hnId.1]
      by_cases hsel : nOldest = -1 ∨ (OrdMap.findD nId CAddrInfo.default m).nTime <
          (OrdMap.findD nOldest CAddrInfo.default m).nTime
      · obtain ⟨r, hr, hrS⟩ := selectOldest_mem (nI + 1) nId hc' hsub'
          (Or.inr hnS) (fun h => by have := hnId.2; omega)
        refine ⟨r, ?_, hrS⟩
        rw [selectOldest, if_pos hin, if_neg (by simpa using hguard), if_pos hsel, hr]
      · obtain ⟨r, hr, hrS⟩ := selectOldest_mem (nI + 1) nOldest hc' hsub' hS
          (fun h => absurd (Or.inl h) hsel)
        refine ⟨r, ?_, hrS⟩
        rw [selectOldest, if_pos hin, if_neg (by simpa using hguard), if_neg hsel, hr]
    · obtain ⟨r, hr, hrS⟩ := selectOldest_mem (nI + 1) nOldest hc' hsub' hS (fun h => by
        obtain ⟨j, hjn, hj1, hj2⟩ := hj h
        have hjI : j ≠ nI := fun e => hin (e ▸ hjn)
        exact ⟨j, hjn, by omega, by simp at hj2 ⊢; omega⟩)
      refine ⟨r, ?_, hrS⟩
      rw [selectOldest, if_neg hin, hr]

/-- `ShrinkNew` on a nonempty bucket whose ids all have entries passes its asserts and
runs the removal block on one id of the bucket: a terrible one, else the oldest of
those drawn. -/
theorem shrinkNew_eq {s : CAddrMan} {b : ℕ} (nNow : Int) (rs : List Nat)
    (hb : b < s.vvNew.length)
    (hc : ∀ x ∈ s.vvNew.getD b [], OrdMap.contains x s.mapInfo = true ∧ 0 ≤ x)
    (hne : s.vvNew.getD b [] ≠ []) :
    ∃ k ∈ s.vvNew.getD b [], ∃ r rs', s.shrinkNew nNow b rs =
      (s.removeFromNew b k).map fun s' => (s', r, rs') := by
  obtain ⟨t, ht, htmem⟩ := findTerrible_mem (m := s.mapInfo) nNow fun x hx => (hc x hx).1
  unfold shrinkNew
  rw [if_neg (not_not.mpr hb)]
  simp only [ht]
  cases t with
  | some k => exact ⟨k, htmem k rfl, 0, rs, rfl⟩
  | none =>
    set vNew := s.vvNew.getD b [] with hvNew
    have hlen : 0 < vNew.length := List.length_pos_iff.mpr hne
    have hd0 := getRandInt_lt hlen rs
    generalize getRandInt vNew.length rs = d0 at hd0 ⊢
    generalize getRandInt vNew.length d0.2 = d1
    generalize getRandInt vNew.length d1.2 = d2
    generalize getRandInt vNew.length d2.2 = d3
    obtain ⟨k, hk, hkS⟩ := selectOldest_mem (m := s.mapInfo) (n := [d0.1, d1.1, d2.1, d3.1])
      (S := vNew) 0 (-1) hc (List.Subset.refl _) (Or.inl rfl)
      (fun _ => ⟨d0.1, List.mem_cons_self, Nat.zero_le _, by omega⟩)
    refine ⟨k, hkS, 1, d3.2, ?_⟩
    simp only [hk, (hc k hkS).1, not_true_eq_false, if_false]

end Shrink

/-! ## How many entries the tables leave room for -/

section Capacity

variable {env : AddrEnv} {d : Int → ℕ} {s : CAddrMan}

/-- `vRandom` lists every entry once, so it is as long as the tried and new entries
together: the first test of `Check_`. -/
theorem Indexed.length_vRandom (h : Indexed env d s) :
    s.vRandom.length = countTried s.mapInfo + countNew s.mapInfo := by
  have hperm := h.random.perm_of_nodup (h.sorted.nodup intStrictOrder) fun a => by
    rw [randomPos, Option.isSome_map, OrdMap.find?_isSome_iff]
  rw [hperm.length_eq, OrdMap.keys, List.length_map, countTried, countNew]
  exact List.length_eq_length_filter_add _

/-- The ids of the entries of a table that satisfy `p`, each held by some bucket, are at
most as many as the buckets have room for. -/
theorem length_filter_le {m : List (Int × CAddrInfo)} {vv : List (List Int)} {n : ℕ}
    (hs : OrdMap.Sorted m) (p : CAddrInfo → Bool) (hsize : ∀ l ∈ vv, l.length ≤ n)
    (hheld : ∀ x info, OrdMap.find? x m = some info → p info = true → 0 < vv.flatten.count x) :
    (m.filter fun q => p q.2).length ≤ vv.length * n := by
  have hnd : (OrdMap.keys (m.filter fun q => p q.2)).Nodup :=
    (hs.nodup intStrictOrder).sublist (List.filter_sublist.map Prod.fst)
  have hsub : OrdMap.keys (m.filter fun q => p q.2) ⊆ vv.flatten := by
    intro x hx
    obtain ⟨⟨x', info⟩, hmem, rfl⟩ := List.mem_map.mp hx
    rw [List.mem_filter] at hmem
    exact List.count_pos_iff.mp
      (hheld x' info (OrdMap.find?_eq_some_of_mem (hs.nodup intStrictOrder) hmem.1) hmem.2)
  calc (m.filter fun q => p q.2).length
      = (OrdMap.keys (m.filter fun q => p q.2)).length := by rw [OrdMap.keys, List.length_map]
    _ ≤ vv.flatten.length := (hnd.subperm hsub).length_le
    _ ≤ vv.length * n := Buckets.length_flatten_le hsize

theorem Indexed.countTried_le (h : Indexed env d s) :
    countTried s.mapInfo ≤ addrmanTriedBucketCount * addrmanTriedBucketSize := by
  rw [← h.tried.length]
  refine length_filter_le h.sorted _ h.tried.size fun x info hx ht => ?_
  rw [h.tried.count, triedRefs_of_find? hx, if_pos ht]
  exact Nat.one_pos

theorem Consistent.countNew_le (h : Consistent env 0 s) :
    countNew s.mapInfo ≤ addrmanNewBucketCount * addrmanNewBucketSize := by
  rw [← h.new.length, countNew]
  refine length_filter_le h.sorted (fun info => !info.fInTried) h.new.size fun x info hx hn => ?_
  have hc := h.new.count x
  have hlive := h.live x info hx (by simpa using hn)
  rw [newRefs_of_find? hx, if_neg (by simpa using hn)] at hc
  simp only [Pi.zero_apply, Nat.add_zero] at hc
  omega

/-- The address manager never holds more entries than its 64 tried and 256 new buckets
of 64 have room for. -/
theorem Consistent.length_vRandom_le (h : Consistent env 0 s) : s.vRandom.length ≤ 20480 := by
  have ht := h.countTried_le
  have hn := h.countNew_le
  rw [h.length_vRandom]
  simp only [addrmanTriedBucketCount, addrmanTriedBucketSize, addrmanNewBucketCount,
    addrmanNewBucketSize] at ht hn
  omega

end Capacity

/-! ## One reference more -/

section AddRef

variable {env : AddrEnv} {d : Int → ℕ} {m : List (Int × CAddrInfo)} {k : Int} {v₀ : CAddrInfo}
  {s : CAddrMan}

theorem getNewBucket_lt (env : AddrEnv) (nKey : Bytes) (addr src : CNetAddr) :
    getNewBucket env nKey addr src < addrmanNewBucketCount :=
  Nat.mod_lt _ (by decide)

/-- One reference more for a new entry, not yet in a bucket: it is pending. -/
theorem NewTable.addRef {vvNew : List (List Int)} (h : NewTable d m vvNew)
    (hinfo : OrdMap.find? k m = some v₀) (hnew : v₀.fInTried = false) (h0 : 0 ≤ v₀.nRefCount) :
    NewTable (Function.update d k (d k + 1))
      (OrdMap.insert k { v₀ with nRefCount := v₀.nRefCount + 1 } m) vvNew where
  length := h.length
  size := h.size
  sorted := h.sorted
  count x := by
    have hc := h.count x
    rw [newRefs_insert]
    by_cases hx : x = k
    · subst hx
      rw [newRefs_of_find? hinfo, hnew] at hc
      simp only [if_true, Function.update_self, hnew, Bool.false_eq_true, if_false] at hc ⊢
      omega
    · rw [if_neg hx, Function.update_of_ne hx]
      exact hc

/-- The id joins a bucket it is not in, which has room: one pending reference fewer. -/
theorem NewTable.insertBucket {vvNew : List (List Int)} {b : ℕ} (h : NewTable d m vvNew)
    (hb : b < vvNew.length) (hk : k ∉ vvNew.getD b [])
    (hsize : (vvNew.getD b []).length < addrmanNewBucketSize) (hd : 1 ≤ d k) :
    NewTable (Function.update d k (d k - 1)) m
      (vvNew.set b (OrdSet.insert k (vvNew.getD b []))) where
  length := by rw [List.length_set]; exact h.length
  size l hl := by
    rcases Buckets.mem_set hl with hl | rfl
    · exact h.size l hl
    · rw [OrdSet.length_insert_of_not_mem hk]
      omega
  sorted l hl := by
    rcases Buckets.mem_set hl with hl | rfl
    · exact h.sorted l hl
    · exact OrdSet.pairwise_insert intStrictOrder k (h.sorted _ (Buckets.getD_mem hb))
  count x := by
    have hset := Buckets.count_flatten_set hb (OrdSet.insert k (vvNew.getD b [])) x
    have hc := h.count x
    rw [(OrdSet.perm_insert_of_not_mem hk).count_eq, List.count_cons] at hset
    by_cases hx : x = k
    · subst hx
      simp only [beq_self_eq_true, if_true] at hset
      rw [Function.update_self]
      omega
    · simp only [beq_iff_eq, Ne.symm hx, if_false, Nat.add_zero] at hset
      rw [Function.update_of_ne hx]
      omega

/-- Moving a reference up and back down leaves nothing pending that was not before. -/
theorem update_pending_restore (d : Int → ℕ) (k : Int) :
    Function.update (Function.update d k (d k + 1)) k (Function.update d k (d k + 1) k - 1) = d := by
  rw [Function.update_idem, Function.update_self, Nat.add_sub_cancel]
  exact Function.update_eq_self k d

/-- The increment of `Add_`: a new entry with room for one more reference gets it. -/
theorem Indexed.addRef (h : Indexed env d s) (hk : OrdMap.find? k s.mapInfo = some v₀)
    (hnew : v₀.fInTried = false) (h4 : v₀.nRefCount < addrmanNewBucketsPerAddress) :
    Indexed env (Function.update d k (d k + 1)) { s with
      mapInfo := OrdMap.insert k { v₀ with nRefCount := v₀.nRefCount + 1 } s.mapInfo } := by
  have hok := h.entry k v₀ hk
  have h0 := (hok.new hnew).1
  have htried : ({ v₀ with nRefCount := v₀.nRefCount + 1 } : CAddrInfo).fInTried = v₀.fInTried :=
    rfl
  refine h.of_setInfo (v := { v₀ with nRefCount := v₀.nRefCount + 1 }) hk rfl rfl
    (hok.setRefCount hnew (by omega) (by omega)) rfl rfl rfl rfl
    (h.tried.setInfo hk rfl htried) (h.new.addRef hk hnew h0) ?_ ?_
  · exact h.nTried.trans (by dsimp only; rw [countTried_setInfo h.sorted hk htried])
  · exact h.nNew.trans (by dsimp only; rw [countNew_setInfo h.sorted hk htried])

/-- The bucket insertion that ends `Add_`. -/
theorem Consistent.insertBucket {b : ℕ} (h : Consistent env d s) (hb : b < s.vvNew.length)
    (hk : k ∉ s.vvNew.getD b []) (hsize : (s.vvNew.getD b []).length < addrmanNewBucketSize)
    (hd : 1 ≤ d k) :
    Consistent env (Function.update d k (d k - 1))
      { s with vvNew := s.vvNew.set b (OrdSet.insert k (s.vvNew.getD b [])) } :=
  { h with new := h.new.insertBucket hb hk hsize hd }

/-- An id in a new bucket with nothing pending has an entry, and ids are not negative. -/
theorem Indexed.contains_of_mem_bucket (h : Indexed env d s) {b : ℕ} {x : Int}
    (hx : x ∈ s.vvNew.getD b []) (hd : d x = 0) :
    OrdMap.contains x s.mapInfo = true ∧ 0 ≤ x := by
  obtain ⟨info, hinfo, -⟩ := h.new.find?_of_mem hx hd
  exact ⟨by simp [OrdMap.contains, hinfo], (h.fresh x (mem_keys_of_find? hinfo)).1⟩

theorem Live.insert_of_ne {v : CAddrInfo}
    (hlive : ∀ x info, x ≠ k → OrdMap.find? x m = some info → info.fInTried = false →
      1 ≤ info.nRefCount)
    (hv : v.fInTried = false → 1 ≤ v.nRefCount) : Live (OrdMap.insert k v m) := by
  intro x info hx
  rw [OrdMap.find?_insert] at hx
  split_ifs at hx with hxk
  · cases hx
    exact hv
  · exact hlive x info hxk hx

end AddRef

/-! ## A new entry -/

section Create

variable {env : AddrEnv} {nKey : Bytes} {d : Int → ℕ} {m : List (Int × CAddrInfo)} {k : Int}
  {v : CAddrInfo} {s : CAddrMan}

theorem AddrIndex.insertNew {mapAddr : List (CNetAddr × Int)} (h : AddrIndex m mapAddr)
    (hk : OrdMap.find? k m = none) (ha : OrdMap.find? v.netAddr mapAddr = none) :
    AddrIndex (OrdMap.insert k v m) (OrdMap.insert v.netAddr k mapAddr) := by
  refine ⟨OrdMap.sorted_insert cNetAddrStrictOrder _ _ h.sorted, fun a nId => ?_⟩
  rw [OrdMap.find?_insert]
  by_cases ha' : a = v.netAddr
  · subst ha'
    simp only [if_true, Option.some.injEq]
    constructor
    · rintro rfl
      exact ⟨v, OrdMap.find?_insert_self _ _ _, rfl⟩
    · rintro ⟨info, hinfo, hnet⟩
      rw [OrdMap.find?_insert] at hinfo
      split_ifs at hinfo with hn
      · exact hn.symm
      · have hold := (h.find_iff _ nId).mpr ⟨info, hinfo, hnet⟩
        rw [ha] at hold
        cases hold
  · rw [if_neg ha', h.find_iff]
    constructor
    · rintro ⟨info, hinfo, hnet⟩
      have hn : nId ≠ k := by
        rintro rfl
        rw [hk] at hinfo
        cases hinfo
      exact ⟨info, by rw [OrdMap.find?_insert_of_ne _ _ hn]; exact hinfo, hnet⟩
    · rintro ⟨info, hinfo, hnet⟩
      rw [OrdMap.find?_insert] at hinfo
      split_ifs at hinfo with hn
      · cases hinfo
        exact absurd hnet.symm ha'
      · exact ⟨info, hinfo, hnet⟩

theorem TriedTable.insertNew {vvTried : List (List Int)} (h : TriedTable env nKey m vvTried)
    (hk : OrdMap.find? k m = none) (hv : v.fInTried = false) :
    TriedTable env nKey (OrdMap.insert k v m) vvTried where
  length := h.length
  size := h.size
  count x := by
    rw [h.count, triedRefs_insert]
    by_cases hx : x = k
    · subst hx
      simp [triedRefs, hk, hv]
    · rw [if_neg hx]
  bucket b x hx := by
    obtain ⟨info, hinfo, hb⟩ := h.bucket b x hx
    have hxk : x ≠ k := by
      rintro rfl
      rw [hk] at hinfo
      cases hinfo
    exact ⟨info, by rw [OrdMap.find?_insert_of_ne _ _ hxk]; exact hinfo, hb⟩

theorem NewTable.insertNew {vvNew : List (List Int)} (h : NewTable d m vvNew)
    (hk : OrdMap.find? k m = none) (hv : v.nRefCount = 0) :
    NewTable d (OrdMap.insert k v m) vvNew where
  length := h.length
  size := h.size
  sorted := h.sorted
  count x := by
    have hc := h.count x
    rw [newRefs_insert]
    by_cases hx : x = k
    · subst hx
      simp only [newRefs, hk] at hc
      simp [hv]
      omega
    · rw [if_neg hx]
      exact hc

/-- No entry has the next id yet. -/
theorem Indexed.find?_nIdCount (h : Indexed env d s) : OrdMap.find? s.nIdCount s.mapInfo = none :=
  OrdMap.find?_eq_none_of_not_mem fun hmem => by
    have := h.fresh _ hmem
    omega

/-- An entry at the next id leaves every id below the one after it. -/
theorem Indexed.fresh_insert_nIdCount (h : Indexed env d s) (v : CAddrInfo) :
    ∀ x ∈ OrdMap.keys (OrdMap.insert s.nIdCount v s.mapInfo), 0 ≤ x ∧ x < s.nIdCount + 1 := by
  intro x hx
  have hid := h.idCount
  rcases (OrdMap.mem_keys_insert _ x _ _).mp hx with rfl | hx
  · exact ⟨hid, Int.lt_succ_self _⟩
  · have := h.fresh x hx
    exact ⟨this.1, by omega⟩

/-- An entry at the next id that records the end of `vRandom` as its position, with the id
pushed there. -/
theorem Indexed.random_insert_nIdCount (h : Indexed env d s) (hpos : v.nRandomPos = s.vRandom.length) :
    BackIndex.Indexes (randomPos (OrdMap.insert s.nIdCount v s.mapInfo)) (s.vRandom ++ [s.nIdCount]) := by
  rw [randomPos_insert, hpos]
  simpa using h.random.push (a := s.nIdCount) (by simp [randomPos, h.find?_nIdCount])

theorem countTried_insert_of_find?_none (hk : OrdMap.find? k m = none) (v : CAddrInfo) :
    countTried (OrdMap.insert k v m) = countTried m + v.fInTried.toNat :=
  OrdMap.length_filter_insert_of_find?_none (fun info : CAddrInfo => info.fInTried) v hk

theorem countNew_insert_of_find?_none (hk : OrdMap.find? k m = none) (v : CAddrInfo) :
    countNew (OrdMap.insert k v m) = countNew m + (!v.fInTried).toNat :=
  OrdMap.length_filter_insert_of_find?_none (fun info : CAddrInfo => !info.fInTried) v hk

/-- A fresh id `s.nIdCount` with a new entry `v` without references, last in `vRandom`,
under an address no entry has: the indexes agree, with one more new entry. -/
theorem Indexed.insertNew (h : Indexed env d s) (hok : EntryOk v) (hv : v.fInTried = false)
    (hr : v.nRefCount = 0) (hpos : v.nRandomPos = s.vRandom.length)
    (haddr : OrdMap.find? v.netAddr s.mapAddr = none) :
    Indexed env d { s with
      nIdCount := s.nIdCount + 1, mapInfo := OrdMap.insert s.nIdCount v s.mapInfo,
      mapAddr := OrdMap.insert v.netAddr s.nIdCount s.mapAddr,
      vRandom := s.vRandom ++ [s.nIdCount], nNew := s.nNew + 1 } := by
  have hk := h.find?_nIdCount
  exact {
    sorted := OrdMap.sorted_insert intStrictOrder _ _ h.sorted
    idCount := by
      have := h.idCount
      dsimp only
      omega
    fresh := h.fresh_insert_nIdCount v
    entry := entry_insert h.entry hok
    addr := h.addr.insertNew hk haddr
    random := h.random_insert_nIdCount hpos
    tried := h.tried.insertNew hk hv
    new := h.new.insertNew hk hr
    nTried := by
      rw [h.nTried, countTried_insert_of_find?_none hk, hv]
      rfl
    nNew := by
      rw [h.nNew, countNew_insert_of_find?_none hk, hv]
      rfl }

/-- `Create` of an address no entry has, with the count of new entries moved up as
`Add_` does next: the fresh id gets a new entry without references, last in `vRandom`. -/
theorem Indexed.create (h : Indexed env d s) (addr : CAddress) (source : CNetAddr)
    (haddr : OrdMap.find? addr.netAddr s.mapAddr = none) :
    Indexed env d { (s.create addr source).1 with nNew := s.nNew + 1 } :=
  h.insertNew ⟨Int.natCast_nonneg _, le_refl 0, le_refl 0, (fun ht => by cases ht),
    fun _ => ⟨le_refl 0, show (0 : Int) ≤ 4 by decide⟩⟩ rfl rfl rfl haddr

end Create

/-! ## `Add_` -/

section Add

variable {env : AddrEnv} {s : CAddrMan} {nId : Int} {info : CAddrInfo}

/-- The end of `Add_` on a new entry with room for one more reference, every other new
entry having one: the entry gets a reference and a bucket, after `ShrinkNew` when the
bucket is full, and the invariant holds again with nothing pending. -/
theorem Indexed.addToNew (h : Indexed env 0 s)
    (hlive : ∀ x ix, x ≠ nId → OrdMap.find? x s.mapInfo = some ix → ix.fInTried = false →
      1 ≤ ix.nRefCount)
    (hk : OrdMap.find? nId s.mapInfo = some info) (hnew : info.fInTried = false)
    (h4 : info.nRefCount < addrmanNewBucketsPerAddress) (hlen : s.vRandom.length ≤ 4294967296)
    (nNow : Int) (source : CNetAddr) (rs : List Nat) :
    ∃ s', s.addToNew env nNow nId source rs = some s' ∧ Consistent env 0 s' := by
  unfold CAddrMan.addToNew
  rw [info_of_find? hk]
  dsimp only
  set b := getNewBucket env s.nKey info.netAddr source
  have hb : b < s.vvNew.length := by
    rw [h.new.length]
    exact getNewBucket_lt _ _ _ _
  by_cases hin : nId ∈ s.vvNew.getD b []
  · rw [if_pos hin]
    refine ⟨s, rfl, h, fun x ix hx hxnew => ?_⟩
    by_cases hxk : x = nId
    · subst hxk
      rw [hk] at hx
      cases hx
      have hc := h.new.count x
      have hpos := List.count_pos_iff.mpr (Buckets.mem_flatten_of_mem_getD hin)
      rw [newRefs_of_find? hk, hnew] at hc
      simp only [Pi.zero_apply, Nat.add_zero, Bool.false_eq_true, if_false] at hc
      omega
    · exact hlive x ix hxk hx hxnew
  rw [if_neg hin]
  set info' : CAddrInfo := { info with nRefCount := info.nRefCount + 1 }
  set d : Int → ℕ := Function.update 0 nId ((0 : Int → ℕ) nId + 1) with hd
  have hd1 : 1 ≤ d nId := by simp [hd]
  have hdx : ∀ x, x ≠ nId → d x = 0 := fun x hx => by simp [hd, hx]
  have h1 : Consistent env d { s with mapInfo := OrdMap.insert nId info' s.mapInfo } :=
    ⟨h.addRef hk hnew h4, Live.insert_of_ne hlive fun _ => by
      have := ((h.entry nId info hk).new hnew).1
      show 1 ≤ info.nRefCount + 1
      omega⟩
  have hrestore : Function.update d nId (d nId - 1) = 0 := update_pending_restore 0 nId
  by_cases hfull : (s.vvNew.getD b []).length = addrmanNewBucketSize
  · rw [if_pos hfull]
    have hne : s.vvNew.getD b [] ≠ [] := fun he => by
      rw [he] at hfull
      cases hfull
    have hnotk : ∀ x ∈ s.vvNew.getD b [], x ≠ nId := fun x hx hxk => hin (hxk ▸ hx)
    obtain ⟨k, hkb, r, rs', hshrink⟩ := shrinkNew_eq (s := { s with
      mapInfo := OrdMap.insert nId info' s.mapInfo }) nNow rs hb
      (fun x hx => h1.contains_of_mem_bucket hx (hdx x (hnotk x hx))) hne
    obtain ⟨s2, hs2, hc2, -, hvv, -, -⟩ := h1.removeFromNew hb hkb (hdx k (hnotk k hkb)) hlen
    rw [hshrink, hs2]
    simp only [Option.map_some]
    have hb2 : b < s2.vvNew.length := by rw [hvv, List.length_set]; exact hb
    have hget : s2.vvNew.getD b [] = (s.vvNew.getD b []).erase k := by
      rw [hvv]
      exact Buckets.getD_set_self hb _
    have hin2 : nId ∉ s2.vvNew.getD b [] := fun hmem => by
      rw [hget] at hmem
      exact hin (List.erase_subset hmem)
    have hsize2 : (s2.vvNew.getD b []).length < addrmanNewBucketSize := by
      rw [hget, List.length_erase_of_mem hkb, hfull]
      decide
    have := hc2.insertBucket hb2 hin2 hsize2 hd1
    rw [hrestore] at this
    exact ⟨_, rfl, this⟩
  · rw [if_neg hfull]
    simp only [Option.map_some]
    have hsize : (s.vvNew.getD b []).length < addrmanNewBucketSize := by
      have := h.new.size _ (Buckets.getD_mem hb)
      omega
    have := h1.insertBucket hb hin hsize hd1
    rw [hrestore] at this
    exact ⟨_, rfl, this⟩

/-- What `Find` returns is an entry, under the id `mapAddr` gives. -/
theorem find_eq_some {a : CNetAddr} (hf : s.find a = some (nId, info)) :
    OrdMap.find? a s.mapAddr = some nId ∧ OrdMap.find? nId s.mapInfo = some info := by
  unfold CAddrMan.find at hf
  split at hf
  · cases hf
  · rename_i nId' hnId
    obtain ⟨info', hinfo', he⟩ := Option.map_eq_some_iff.mp hf
    cases he
    exact ⟨hnId, hinfo'⟩

/-- `Find` misses only addresses `mapAddr` does not hold. -/
theorem Indexed.find_eq_none {d : Int → ℕ} (h : Indexed env d s) {a : CNetAddr}
    (hf : s.find a = none) : OrdMap.find? a s.mapAddr = none := by
  cases hx : OrdMap.find? a s.mapAddr with
  | none => rfl
  | some x =>
    obtain ⟨ix, hix, -⟩ := (h.addr.find_iff a x).mp hx
    simp [CAddrMan.find, hx, hix] at hf

theorem Consistent.add (h : Consistent env 0 s) (nNow : Int) (addr : CAddress)
    (source : CNetAddr) (nTimePenalty : Int) (rs : List Nat) :
    ∃ s' fNew, s.add env nNow addr source nTimePenalty rs = some (s', fNew) ∧
      Consistent env 0 s' := by
  unfold CAddrMan.add
  by_cases hr : env.isRoutable addr.netAddr = true
  · rw [if_neg (by simp [hr])]
    have hcap := h.length_vRandom_le
    cases hf : s.find addr.netAddr with
    | some p =>
      obtain ⟨nId, info⟩ := p
      obtain ⟨-, hk⟩ := find_eq_some hf
      have hok := h.entry nId info hk
      have hupd : ∀ (t : UInt32) (sv : UInt64), Consistent env 0 { s with
          mapInfo := OrdMap.insert nId { info with nTime := t, nServices := sv } s.mapInfo } :=
        fun t sv => h.setInfo hk rfl rfl rfl rfl
          ⟨hok.randomPos, hok.lastTry, hok.lastSuccess, hok.tried, hok.new⟩
      dsimp only
      generalize updateTime nNow info addr nTimePenalty = t
      have hmore : info.fInTried = false → info.nRefCount ≠ addrmanNewBucketsPerAddress →
          ∀ rs', ∃ s', (Option.map (fun s => (s, false)) (addToNew env nNow { s with
            mapInfo := OrdMap.insert nId
              { info with nTime := t, nServices := info.nServices ||| addr.nServices } s.mapInfo }
            nId source rs')) = some (s', false) ∧ Consistent env 0 s' := by
        intro hnew hne rs'
        have h4 : info.nRefCount < addrmanNewBucketsPerAddress := by
          have := (hok.new hnew).2
          omega
        have hc := hupd t (info.nServices ||| addr.nServices)
        obtain ⟨s', hs', hc'⟩ := hc.toIndexed.addToNew (fun x ix _ hx => hc.live x ix hx)
          (OrdMap.find?_insert_self _ _ _) hnew h4 (by dsimp only; omega) nNow source rs'
        exact ⟨s', congrArg (Option.map _) hs', hc'⟩
      split_ifs with hc1 htr h4
      · exact ⟨_, _, rfl, hupd _ _⟩
      · exact ⟨_, _, rfl, hupd _ _⟩
      · exact ⟨_, _, rfl, hupd _ _⟩
      · exact ⟨_, _, rfl, hupd _ _⟩
      · obtain ⟨s', hs', hc'⟩ := hmore (by simpa using htr) h4 _
        exact ⟨s', false, hs', hc'⟩
      · exact ⟨_, _, rfl, hupd _ _⟩
      · obtain ⟨s', hs', hc'⟩ := hmore (by simpa using htr) h4 _
        exact ⟨s', false, hs', hc'⟩
    | none =>
      have hc := h.toIndexed.create addr source (h.find_eq_none hf)
      simp only [create] at hc
      simp only [create, CAddrMan.info, OrdMap.findD, OrdMap.find?_insert_self, Option.getD_some]
      set v : CAddrInfo := { CAddrInfo.ofAddress addr source with nRandomPos := s.vRandom.length }
      have hv : OrdMap.find? s.nIdCount (OrdMap.insert s.nIdCount v s.mapInfo) = some v :=
        OrdMap.find?_insert_self _ _ _
      have hc2 := hc.setInfo (v := { v with
        nTime := uint32OfInt (max 0 (v.nTime.toNat - nTimePenalty)) }) hv rfl rfl rfl rfl
        ⟨(hc.entry _ v hv).randomPos, le_refl 0, le_refl 0, (fun ht => by cases ht),
          fun _ => ⟨le_refl 0, show (0 : Int) ≤ 4 by decide⟩⟩
      obtain ⟨s', hs', hc'⟩ := hc2.addToNew (fun x ix hx hix => by
          rw [OrdMap.find?_insert_of_ne _ _ hx, OrdMap.find?_insert_of_ne _ _ hx] at hix
          exact h.live x ix hix)
        (OrdMap.find?_insert_self _ _ _) rfl (show (0 : Int) < 4 by decide)
        (by dsimp only; simp only [List.length_append, List.length_singleton]; omega) nNow source rs
      exact ⟨s', true, congrArg (Option.map _) hs', hc'⟩
  · rw [if_pos (by simp [hr])]
    exact ⟨s, false, rfl, h⟩

end Add

end CAddrMan

end Twister.Net
