import Twister.Net.AddrManAdd

/-!
# Moving an entry to the tried table

`Good_` records a successful connection; an entry still in the new table then goes
through `MakeTried`: it leaves every new bucket, and joins the tried bucket its address
hashes to. When that bucket is full, `SelectTried` shuffles its first entries and picks
a position, whose entry goes back to a new bucket (the one its own source picks, or the
bucket the promoted entry was found in when that one is full).

The lemmas below follow those steps: the loop over the new buckets counts the
references down to zero, the shuffle is a permutation and picks a position of the
bucket, and the exchange keeps each table. `Consistent.makeTried` and
`Consistent.good` assemble them.
-/

namespace Twister.Net

namespace CAddrMan

/-! ## The new buckets -/

section EraseNew

variable {d : Int → ℕ} {m : List (Int × CAddrInfo)} {vvNew : List (List Int)} {k : Int}
  {v₀ : CAddrInfo}

/-- The loop of `MakeTried` over the new buckets: each bucket loses the id, and the
count goes down once for each bucket that held it. -/
theorem eraseFromNew_eq (nId : Int) : ∀ (vvNew : List (List Int)) (nRefCount : Int),
    eraseFromNew nId vvNew nRefCount =
      (vvNew.map (·.erase nId), nRefCount - (vvNew.countP fun l => decide (nId ∈ l) : ℕ))
  | [], nRefCount => by simp [eraseFromNew]
  | vNew :: vvNew, nRefCount => by
    rw [eraseFromNew, eraseFromNew_eq nId vvNew, List.map_cons, List.countP_cons]
    by_cases h : nId ∈ vNew
    · simp only [h, if_true, decide_true]
      congr 1
      push_cast
      ring
    · simp [h]

theorem NewTable.nodup {b : List Int} (h : NewTable d m vvNew) (hb : b ∈ vvNew) : b.Nodup :=
  (h.sorted b hb).nodup

/-- The buckets holding a new entry, with nothing pending, are as many as its references. -/
theorem NewTable.countP_mem (h : NewTable d m vvNew) (hk : OrdMap.find? k m = some v₀)
    (hnew : v₀.fInTried = false) (hd : d k = 0) :
    vvNew.countP (fun l => decide (k ∈ l)) = v₀.nRefCount.toNat := by
  have hc := h.count k
  rw [newRefs_of_find? hk, hnew, hd, Nat.add_zero] at hc
  rw [Buckets.countP_mem_eq_count_flatten (fun l hl => h.nodup hl), hc]
  rfl

/-- Taking an id out of every new bucket, its entry left without references. -/
theorem NewTable.eraseAll (h : NewTable d m vvNew) (hd : d k = 0) {v : CAddrInfo}
    (hv : v.nRefCount = 0) : NewTable d (OrdMap.insert k v m) (vvNew.map (·.erase k)) where
  length := by rw [List.length_map]; exact h.length
  size l hl := by
    obtain ⟨l₀, hl₀, rfl⟩ := List.mem_map.mp hl
    exact List.length_erase_le.trans (h.size l₀ hl₀)
  sorted l hl := by
    obtain ⟨l₀, hl₀, rfl⟩ := List.mem_map.mp hl
    exact (h.sorted l₀ hl₀).sublist List.erase_sublist
  count x := by
    rw [newRefs_insert]
    by_cases hx : x = k
    · subst hx
      rw [Buckets.count_flatten_map_erase_self (fun l hl => h.nodup hl), hd, if_pos rfl, hv]
      simp
    · rw [if_neg hx, Buckets.count_flatten_map_erase_of_ne _ hx]
      exact h.count x

/-- A tried entry sent back to the new table, with one reference and no bucket yet. -/
theorem NewTable.demote (h : NewTable d m vvNew) (hk : OrdMap.find? k m = some v₀)
    (htried : v₀.fInTried = true) :
    NewTable (Function.update d k (d k + 1))
      (OrdMap.insert k { v₀ with fInTried := false, nRefCount := 1 } m) vvNew where
  length := h.length
  size := h.size
  sorted := h.sorted
  count x := by
    have hc := h.count x
    rw [newRefs_insert]
    by_cases hx : x = k
    · subst hx
      rw [newRefs_of_find? hk, htried, if_pos rfl] at hc
      simp only [if_true, Function.update_self, Bool.false_eq_true, if_false]
      omega
    · rw [if_neg hx, Function.update_of_ne hx]
      exact hc

end EraseNew

/-! ## `SelectTried` -/

section Select

variable {m : List (Int × CAddrInfo)}

theorem getD_eq_getElem' {l : List Int} {i : ℕ} (hi : i < l.length) : l.getD i 0 = l[i] := by
  rw [List.getD_eq_getElem?_getD, List.getElem?_eq_getElem hi, Option.getD_some]

/-- The loop of `SelectTried` passes its assert when every id of the bucket has an
entry, shuffles the bucket, and returns a position of it: the one it had, or, when the
loop starts with none (`-1`) and runs at least once, the one it draws first. -/
theorem selectTriedLoop_spec : ∀ (k i : ℕ) (vTried : List Int) (nOldest nOldestPos : Int)
    (rs : List Nat), (∀ x ∈ vTried, OrdMap.contains x m = true) → i + k ≤ vTried.length →
    ((0 ≤ nOldestPos ∧ nOldestPos < vTried.length) ∨ (nOldest = -1 ∧ 0 < k)) →
    ∃ v' nPos rs', selectTriedLoop m k i vTried nOldest nOldestPos rs = some (v', nPos, rs') ∧
      v'.Perm vTried ∧ 0 ≤ nPos ∧ nPos < vTried.length
  | 0, _, vTried, _, nOldestPos, rs, _, _, hpos => by
    have hpos' : 0 ≤ nOldestPos ∧ nOldestPos < vTried.length := by omega
    exact ⟨vTried, nOldestPos, rs, rfl, List.Perm.refl _, hpos'⟩
  | k + 1, i, vTried, nOldest, nOldestPos, rs, hc, hk, hpos => by
    have hlen : 0 < vTried.length - i := by omega
    rcases hr : getRandInt (vTried.length - i) rs with ⟨r, rs₁⟩
    have hrlt : r < vTried.length - i := by
      have := getRandInt_lt hlen rs
      rw [hr] at this
      exact this
    have hi : i < vTried.length := by omega
    have hp : r + i < vTried.length := by omega
    have hperm : ((vTried.set (r + i) (vTried.getD i 0)).set i (vTried.getD (r + i) 0)).Perm
        vTried := by
      rw [getD_eq_getElem' hi, getD_eq_getElem' hp]
      exact List.set_set_perm hp hi
    have hc' : ∀ x ∈ (vTried.set (r + i) (vTried.getD i 0)).set i (vTried.getD (r + i) 0),
        OrdMap.contains x m = true := fun x hx => hc x (hperm.subset hx)
    have hlen' := hperm.length_eq
    have htemp : OrdMap.contains (vTried.getD (r + i) 0) m = true := by
      rw [getD_eq_getElem' hp]
      exact hc _ (List.getElem_mem hp)
    rw [selectTriedLoop, hr]
    dsimp only
    rw [if_neg fun hguard => hguard.2 htemp]
    split_ifs with hsel
    · obtain ⟨v', nPos, rs', hloop, hv', hnPos⟩ := selectTriedLoop_spec k (i + 1) _ _
        ((r + i : ℕ) : Int) rs₁ hc' (by omega) (Or.inl (by omega))
      exact ⟨v', nPos, rs', hloop, hv'.trans hperm, by omega⟩
    · have hold : 0 ≤ nOldestPos ∧ nOldestPos < vTried.length := by
        rcases hpos with hpos | ⟨hneg, -⟩
        · exact hpos
        · exact absurd (Or.inl hneg) hsel
      obtain ⟨v', nPos, rs', hloop, hv', hnPos⟩ := selectTriedLoop_spec k (i + 1) _ nOldest
        nOldestPos rs₁ hc' (by omega) (Or.inl (by omega))
      exact ⟨v', nPos, rs', hloop, hv'.trans hperm, by omega⟩

/-- `SelectTried` on a nonempty bucket whose ids all have entries passes its assert,
shuffles the bucket, and returns one of its positions. -/
theorem selectTried_eq (s : CAddrMan) (nKBucket : ℕ) (rs : List Nat)
    (hc : ∀ x ∈ s.vvTried.getD nKBucket [], OrdMap.contains x s.mapInfo = true)
    (hne : s.vvTried.getD nKBucket [] ≠ []) :
    ∃ v' nPos rs', s.selectTried nKBucket rs =
      some ({ s with vvTried := s.vvTried.set nKBucket v' }, nPos, rs') ∧
      v'.Perm (s.vvTried.getD nKBucket []) ∧ 0 ≤ nPos ∧ nPos < (s.vvTried.getD nKBucket []).length := by
  have hlen : 0 < (s.vvTried.getD nKBucket []).length := List.length_pos_iff.mpr hne
  obtain ⟨v', nPos, rs', hloop, hv', hnPos⟩ := selectTriedLoop_spec
    (min addrmanTriedEntriesInspectOnEvict (s.vvTried.getD nKBucket []).length) 0
    (s.vvTried.getD nKBucket []) (-1) (-1) rs hc (by omega)
    (Or.inr ⟨rfl, lt_min (by decide) hlen⟩)
  refine ⟨v', nPos, rs', ?_, hv', hnPos⟩
  unfold selectTried
  dsimp only
  rw [hloop]

end Select

/-! ## The tried table -/

section TriedTable

variable {env : AddrEnv} {nKey : Bytes} {m : List (Int × CAddrInfo)}
  {vvTried : List (List Int)} {k : Int} {v₀ : CAddrInfo} {kb : ℕ}

/-- An id in a tried bucket is a tried entry. -/
theorem TriedTable.tried_of_mem (h : TriedTable env nKey m vvTried) {b : ℕ} {x : Int}
    (hx : x ∈ vvTried.getD b []) : ∃ info, OrdMap.find? x m = some info ∧ info.fInTried = true := by
  obtain ⟨info, hinfo, -⟩ := h.bucket b x hx
  refine ⟨info, hinfo, ?_⟩
  have hc := h.count x
  have hpos := List.count_pos_iff.mpr (Buckets.mem_flatten_of_mem_getD hx)
  rw [triedRefs_of_find? hinfo] at hc
  cases ht : info.fInTried
  · simp only [ht, Bool.false_eq_true, if_false] at hc
    omega
  · rfl

/-- No id of a tried bucket is one that no tried entry has. -/
theorem TriedTable.ne_of_triedRefs (h : TriedTable env nKey m vvTried) {b : ℕ} {x : Int}
    (hx : x ∈ vvTried.getD b []) (hk : triedRefs m k = 0) : x ≠ k := by
  rintro rfl
  have hc := h.count x
  have hpos := List.count_pos_iff.mpr (Buckets.mem_flatten_of_mem_getD hx)
  omega

theorem TriedTable.ne_of_mem (h : TriedTable env nKey m vvTried) {b : ℕ} {x : Int}
    (hx : x ∈ vvTried.getD b []) (hk : OrdMap.find? k m = some v₀) (hnew : v₀.fInTried = false) :
    x ≠ k :=
  h.ne_of_triedRefs hx (by rw [triedRefs_of_find? hk, hnew]; rfl)

/-- The shuffle of `SelectTried` keeps the table. -/
theorem TriedTable.perm {v' : List Int} (h : TriedTable env nKey m vvTried)
    (hb : kb < vvTried.length) (hv : v'.Perm (vvTried.getD kb [])) :
    TriedTable env nKey m (vvTried.set kb v') where
  length := by rw [List.length_set]; exact h.length
  size l hl := by
    rcases Buckets.mem_set hl with hl | rfl
    · exact h.size l hl
    · rw [hv.length_eq]
      exact h.size _ (Buckets.getD_mem hb)
  count x := by
    have hset := Buckets.count_flatten_set hb v' x
    rw [hv.count_eq] at hset
    rw [← h.count x]
    omega
  bucket b x hx := by
    rw [Buckets.getD_set] at hx
    split_ifs at hx with hbc
    · obtain ⟨rfl, -⟩ := hbc
      exact h.bucket _ x (hv.subset hx)
    · exact h.bucket b x hx

/-- An id that is no tried entry's joins its tried bucket, which has room, at the end,
with a tried entry. -/
theorem TriedTable.append {v : CAddrInfo} (h : TriedTable env nKey m vvTried)
    (hb : kb < vvTried.length) (hk : triedRefs m k = 0)
    (hv : v.fInTried = true) (hkb : getTriedBucket env nKey v.toCService = kb)
    (hsize : (vvTried.getD kb []).length < addrmanTriedBucketSize) :
    TriedTable env nKey (OrdMap.insert k v m) (vvTried.set kb (vvTried.getD kb [] ++ [k])) where
  length := by rw [List.length_set]; exact h.length
  size l hl := by
    rcases Buckets.mem_set hl with hl | rfl
    · exact h.size l hl
    · rw [List.length_append, List.length_singleton]
      omega
  count x := by
    have hset := Buckets.count_flatten_set hb (vvTried.getD kb [] ++ [k]) x
    have hc := h.count x
    rw [List.count_append, List.count_singleton] at hset
    rw [triedRefs_insert]
    by_cases hx : x = k
    · subst hx
      rw [hk] at hc
      simp only [beq_self_eq_true, if_true, hv] at hset hc ⊢
      omega
    · simp only [beq_iff_eq, Ne.symm hx, if_false, Nat.add_zero] at hset
      rw [if_neg hx]
      omega
  bucket b x hx := by
    rw [Buckets.getD_set] at hx
    split_ifs at hx with hbc
    · obtain ⟨rfl, -⟩ := hbc
      rcases List.mem_append.mp hx with hx | hx
      · obtain ⟨info, hinfo, hb'⟩ := h.bucket _ x hx
        exact ⟨info, by rw [OrdMap.find?_insert_of_ne _ _ (h.ne_of_triedRefs hx hk)]; exact hinfo, hb'⟩
      · rw [List.mem_singleton.mp hx]
        exact ⟨v, OrdMap.find?_insert_self _ _ _, hkb⟩
    · obtain ⟨info, hinfo, hb'⟩ := h.bucket b x hx
      exact ⟨info, by rw [OrdMap.find?_insert_of_ne _ _ (h.ne_of_triedRefs hx hk)]; exact hinfo, hb'⟩

/-- The eviction of `MakeTried`: at position `p` of its tried bucket, a tried entry
gives its place to a new one, and goes back to the new table with its service. -/
theorem TriedTable.exchange {kOld : Int} {vOld w v : CAddrInfo} {p : ℕ}
    (h : TriedTable env nKey m vvTried) (hb : kb < vvTried.length)
    (hp : (vvTried.getD kb [])[p]? = some kOld) (hOld : OrdMap.find? kOld m = some vOld)
    (hk : OrdMap.find? k m = some v₀) (hnew : v₀.fInTried = false)
    (hsvcOld : w.toCService = vOld.toCService) (hOld' : w.fInTried = false)
    (hv : v.fInTried = true) (hkb : getTriedBucket env nKey v.toCService = kb) :
    TriedTable env nKey (OrdMap.insert k v (OrdMap.insert kOld w m))
      (vvTried.set kb ((vvTried.getD kb []).set p k)) where
  length := by rw [List.length_set]; exact h.length
  size l hl := by
    rcases Buckets.mem_set hl with hl | rfl
    · exact h.size l hl
    · rw [List.length_set]
      exact h.size _ (Buckets.getD_mem hb)
  count x := by
    have hmem : kOld ∈ vvTried.getD kb [] := List.mem_of_getElem? hp
    have hne : kOld ≠ k := h.ne_of_mem hmem hk hnew
    have hplt : p < (vvTried.getD kb []).length := (List.getElem?_eq_some_iff.mp hp).1
    have hset := Buckets.count_flatten_set hb ((vvTried.getD kb []).set p k) x
    have hc := h.count x
    have hbucket := Buckets.count_getD_le vvTried kb x
    rw [List.count_set hplt, (List.getElem?_eq_some_iff.mp hp).2] at hset
    rw [triedRefs_insert, triedRefs_insert]
    by_cases hxk : x = k
    · subst hxk
      rw [triedRefs_of_find? hk, hnew] at hc
      simp only [Bool.false_eq_true, if_false] at hc
      simp only [beq_self_eq_true, if_true, hv, beq_iff_eq, hne] at hset ⊢
      omega
    · by_cases hxo : x = kOld
      · subst hxo
        obtain ⟨info, hinfo, ht⟩ := h.tried_of_mem hmem
        rw [hOld] at hinfo
        cases hinfo
        rw [triedRefs_of_find? hOld, ht] at hc
        simp only [beq_self_eq_true, if_true, beq_iff_eq, Ne.symm hxk, if_false, hOld',
          Bool.false_eq_true, hxk] at hset hc ⊢
        have hone : (vvTried.getD kb []).count x ≥ 1 := List.count_pos_iff.mpr hmem
        omega
      · simp only [beq_iff_eq, Ne.symm hxk, Ne.symm hxo, if_false, Nat.sub_zero, Nat.add_zero,
          hxk, hxo] at hset ⊢
        omega
  bucket b x hx := by
    have hmem : kOld ∈ vvTried.getD kb [] := List.mem_of_getElem? hp
    rw [Buckets.getD_set] at hx
    have hold : ∀ b', x ∈ vvTried.getD b' [] → ∃ info, OrdMap.find? x
        (OrdMap.insert k v (OrdMap.insert kOld w m)) = some info ∧
          getTriedBucket env nKey info.toCService = b' := fun b' hx' => by
      obtain ⟨info, hinfo, hb'⟩ := h.bucket b' x hx'
      rw [OrdMap.find?_insert_of_ne _ _ (h.ne_of_mem hx' hk hnew), OrdMap.find?_insert]
      by_cases hxo : x = kOld
      · subst hxo
        rw [hOld] at hinfo
        cases hinfo
        exact ⟨w, if_pos rfl, by rw [hsvcOld]; exact hb'⟩
      · exact ⟨info, by rw [if_neg hxo]; exact hinfo, hb'⟩
    split_ifs at hx with hbc
    · obtain ⟨rfl, -⟩ := hbc
      rcases List.mem_or_eq_of_mem_set hx with hx | rfl
      · exact hold _ hx
      · exact ⟨v, OrdMap.find?_insert_self _ _ _, hkb⟩
    · exact hold b hx

end TriedTable

/-! ## `MakeTried` and `Good_` -/

section MakeTried

variable {env : AddrEnv} {s : CAddrMan} {nId : Int} {info : CAddrInfo}

/-- `MakeTried` when the tried bucket has room: the entry leaves every new bucket and
joins the end of its tried bucket. -/
theorem Consistent.promote (h : Consistent env 0 s) (hk : OrdMap.find? nId s.mapInfo = some info)
    (hnew : info.fInTried = false) (hsucc : info.nLastSuccess ≠ 0) {kb : ℕ}
    (hkb : getTriedBucket env s.nKey info.toCService = kb)
    (hsize : (s.vvTried.getD kb []).length < addrmanTriedBucketSize) :
    Consistent env 0 { s with
      mapInfo := OrdMap.insert nId { info with nRefCount := 0, fInTried := true } s.mapInfo,
      nTried := s.nTried + 1, vvTried := s.vvTried.set kb (s.vvTried.getD kb [] ++ [nId]),
      nNew := s.nNew - 1, vvNew := s.vvNew.map (·.erase nId) } := by
  have hok := h.entry nId info hk
  have hb : kb < s.vvTried.length := by
    rw [h.tried.length, ← hkb]
    exact Nat.mod_lt _ (by decide)
  set infoT : CAddrInfo := { info with nRefCount := 0, fInTried := true }
  have hokT : EntryOk infoT :=
    ⟨hok.randomPos, hok.lastTry, hok.lastSuccess, fun _ => ⟨rfl, hsucc⟩, fun ht => by cases ht⟩
  have hcT := countTried_insert h.sorted hk infoT
  have hcN := countNew_insert h.sorted hk infoT
  have hT : infoT.fInTried = true := rfl
  rw [hnew, hT] at hcT hcN
  simp only [Bool.toNat_false, Bool.toNat_true, Bool.not_false, Bool.not_true, Nat.add_zero]
    at hcT hcN
  refine ⟨h.toIndexed.of_setInfo (v := infoT) hk rfl rfl hokT rfl rfl rfl rfl
    (h.tried.append hb (by rw [triedRefs_of_find? hk, hnew]; rfl) rfl hkb hsize) (h.new.eraseAll rfl rfl) ?_ ?_, ?_⟩
  · show s.nTried + 1 = countTried (OrdMap.insert nId infoT s.mapInfo)
    rw [h.nTried]
    omega
  · show s.nNew - 1 = countNew (OrdMap.insert nId infoT s.mapInfo)
    rw [h.nNew]
    omega
  · exact h.live.insert fun ht => by cases ht

/-- `MakeTried` when the tried bucket is full: the entry leaves every new bucket and
takes position `p` of its tried bucket, shuffled to `v'`; the entry it evicts goes back
to new bucket `B`, which has room once the promoted entry has left it. -/
theorem Consistent.evict (h : Consistent env 0 s) (hk : OrdMap.find? nId s.mapInfo = some info)
    (hnew : info.fInTried = false) (hsucc : info.nLastSuccess ≠ 0) {kb : ℕ}
    (hkb : getTriedBucket env s.nKey info.toCService = kb) {v' : List Int}
    (hv' : v'.Perm (s.vvTried.getD kb [])) {p : ℕ} {nOld : Int} (hp : v'[p]? = some nOld)
    {B : ℕ} (hB : B < s.vvNew.length)
    (hBsize : ((s.vvNew.getD B []).erase nId).length < addrmanNewBucketSize) :
    Consistent env 0 { s with
      mapInfo := OrdMap.insert nId { info with nRefCount := 0, fInTried := true }
        (OrdMap.insert nOld { s.info nOld with fInTried := false, nRefCount := 1 } s.mapInfo),
      vvTried := (s.vvTried.set kb v').set kb (v'.set p nId), nNew := s.nNew - 1 + 1,
      vvNew := (s.vvNew.map (·.erase nId)).set B
        (OrdSet.insert nOld ((s.vvNew.map (·.erase nId)).getD B [])) } := by
  have hok := h.entry nId info hk
  have hb : kb < s.vvTried.length := by
    rw [h.tried.length, ← hkb]
    exact Nat.mod_lt _ (by decide)
  have hperm := h.tried.perm hb hv'
  have hpOld : (s.vvTried.set kb v' |>.getD kb [])[p]? = some nOld := by
    rw [Buckets.getD_set_self hb]
    exact hp
  have hmemOld : nOld ∈ s.vvTried.getD kb [] := hv'.subset (List.mem_of_getElem? hp)
  obtain ⟨iOld, hiOld, hiOldT⟩ := h.tried.tried_of_mem hmemOld
  have hne : nOld ≠ nId := h.tried.ne_of_mem hmemOld hk hnew
  have hokOld := h.entry nOld iOld hiOld
  rw [info_of_find? hiOld]
  set iOld' : CAddrInfo := { iOld with fInTried := false, nRefCount := 1 }
  set infoT : CAddrInfo := { info with nRefCount := 0, fInTried := true }
  have hk1 : OrdMap.find? nId (OrdMap.insert nOld iOld' s.mapInfo) = some info := by
    rw [OrdMap.find?_insert_of_ne _ _ (Ne.symm hne)]
    exact hk
  have hs1 := OrdMap.sorted_insert intStrictOrder nOld iOld' h.sorted
  have hokO' : EntryOk iOld' :=
    ⟨hokOld.randomPos, hokOld.lastTry, hokOld.lastSuccess, (fun ht => by cases ht),
      fun _ => ⟨show (0 : Int) ≤ 1 by decide, show (1 : Int) ≤ 4 by decide⟩⟩
  have hokT : EntryOk infoT :=
    ⟨hok.randomPos, hok.lastTry, hok.lastSuccess, fun _ => ⟨rfl, hsucc⟩, fun ht => by cases ht⟩
  have hnotB : nOld ∉ (s.vvNew.map (·.erase nId)).getD B [] := by
    rw [Buckets.getD_map_erase]
    intro hmem
    have hc := h.new.count nOld
    have hpos := List.count_pos_iff.mpr
      (Buckets.mem_flatten_of_mem_getD (List.erase_subset hmem))
    rw [newRefs_of_find? hiOld, hiOldT] at hc
    simp at hc
    omega
  have hnewT : NewTable (Function.update 0 nOld ((0 : Int → ℕ) nOld + 1))
      (OrdMap.insert nId infoT (OrdMap.insert nOld iOld' s.mapInfo)) (s.vvNew.map (·.erase nId)) :=
    (h.new.demote hiOld hiOldT).eraseAll (by simp [Function.update_of_ne (Ne.symm hne)]) rfl
  have hnewB := hnewT.insertBucket (by rw [List.length_map]; exact hB) hnotB
    (by rw [Buckets.getD_map_erase]; exact hBsize) (by simp)
  rw [update_pending_restore] at hnewB
  have hcT1 := countTried_insert h.sorted hiOld iOld'
  have hcT2 := countTried_insert hs1 hk1 infoT
  have hcN1 := countNew_insert h.sorted hiOld iOld'
  have hcN2 := countNew_insert hs1 hk1 infoT
  have hO' : iOld'.fInTried = false := rfl
  have hT : infoT.fInTried = true := rfl
  rw [hiOldT, hO'] at hcT1 hcN1
  rw [hnew, hT] at hcT2 hcN2
  simp only [Bool.toNat_false, Bool.toNat_true, Bool.not_false, Bool.not_true, Nat.add_zero]
    at hcT1 hcN1 hcT2 hcN2
  have htried := hperm.exchange (by rw [List.length_set]; exact hb) hpOld hiOld hk hnew
    (w := iOld') rfl rfl (v := infoT) rfl hkb
  rw [Buckets.getD_set_self hb] at htried
  refine ⟨{
    sorted := OrdMap.sorted_insert intStrictOrder _ _ hs1
    idCount := h.idCount
    fresh := fresh_insert_of_mem (fresh_insert_of_mem h.fresh (mem_keys_of_find? hiOld))
      (mem_keys_of_find? hk1)
    entry := entry_insert (entry_insert h.entry hokO') hokT
    addr := (h.addr.setInfo hiOld (v := iOld') rfl).setInfo hk1 (v := infoT) rfl
    random := by
      dsimp only
      rw [randomPos_setInfo hk1 (v := infoT) rfl, randomPos_setInfo hiOld (v := iOld') rfl]
      exact h.random
    tried := htried
    new := hnewB
    nTried := by
      show s.nTried = countTried (OrdMap.insert nId infoT (OrdMap.insert nOld iOld' s.mapInfo))
      rw [h.nTried]
      omega
    nNew := by
      show s.nNew - 1 + 1 = countNew (OrdMap.insert nId infoT (OrdMap.insert nOld iOld' s.mapInfo))
      rw [h.nNew]
      omega }, ?_⟩
  exact (h.live.insert fun _ => show (1 : Int) ≤ 1 by decide).insert fun ht => by cases ht

/-- `MakeTried` on a new entry found in bucket `nOrigin`, with a success recorded,
passes its asserts and keeps the invariant; the entry is then a tried one. -/
theorem Consistent.makeTried (h : Consistent env 0 s) (hk : OrdMap.find? nId s.mapInfo = some info)
    (hnew : info.fInTried = false) (hsucc : info.nLastSuccess ≠ 0) {nOrigin : ℕ}
    (hb : nOrigin < s.vvNew.length) (horigin : nId ∈ s.vvNew.getD nOrigin []) (rs : List Nat) :
    ∃ s' rs', s.makeTried env nId nOrigin rs = some (s', rs') ∧ Consistent env 0 s' ∧
      OrdMap.find? nId s'.mapInfo = some { info with nRefCount := 0, fInTried := true } := by
  have hok := h.entry nId info hk
  have hone : (s.vvNew.getD nOrigin []).count nId = 1 :=
    List.count_eq_one_of_mem (h.new.nodup_getD nOrigin) horigin
  have hzero : info.nRefCount -
      ((s.vvNew.countP fun l => decide (nId ∈ l) : ℕ) : Int) = 0 := by
    rw [h.new.countP_mem hk hnew rfl]
    have := (hok.new hnew).1
    omega
  unfold CAddrMan.makeTried
  rw [if_neg (by rw [hone]; exact not_not.mpr rfl), info_of_find? hk]
  dsimp only
  rw [eraseFromNew_eq]
  dsimp only
  rw [hzero, if_neg (not_not.mpr rfl)]
  set kb := getTriedBucket env s.nKey info.toCService with hkb
  by_cases hsize : (s.vvTried.getD kb []).length < addrmanTriedBucketSize
  · rw [if_pos hsize]
    simp only [OrdMap.insert_insert]
    exact ⟨_, _, rfl, h.promote hk hnew hsucc hkb.symm hsize, OrdMap.find?_insert_self _ _ _⟩
  rw [if_neg hsize]
  have hkbl : kb < s.vvTried.length := by
    rw [h.tried.length, hkb]
    exact Nat.mod_lt _ (by decide)
  have hne : s.vvTried.getD kb [] ≠ [] := fun he => by
    rw [he] at hsize
    exact hsize (by decide)
  have hnotk : ∀ x ∈ s.vvTried.getD kb [], x ≠ nId := fun x hx => h.tried.ne_of_mem hx hk hnew
  obtain ⟨v', nPos, rs', hsel, hv', hnPos⟩ := selectTried_eq { s with
    mapInfo := OrdMap.insert nId { info with nRefCount := 0 } s.mapInfo, nNew := s.nNew - 1,
    vvNew := s.vvNew.map (·.erase nId) } kb rs (fun x hx => by
      obtain ⟨ix, hix, -⟩ := h.tried.tried_of_mem hx
      simp [OrdMap.contains, OrdMap.find?_insert_of_ne _ _ (hnotk x hx), hix]) hne
  rw [hsel]
  dsimp only
  rw [Buckets.getD_set_self hkbl]
  have hplt : nPos.toNat < v'.length := by
    have hlt : nPos < ((s.vvTried.getD kb []).length : Int) := hnPos.2
    rw [hv'.length_eq]
    omega
  set nOld := v'.getD nPos.toNat 0 with hnOld
  have hp : v'[nPos.toNat]? = some nOld := by
    rw [hnOld, getD_eq_getElem' hplt]
    exact List.getElem?_eq_getElem hplt
  have hmemOld : nOld ∈ s.vvTried.getD kb [] := hv'.subset (List.mem_of_getElem? hp)
  obtain ⟨iOld, hiOld, -⟩ := h.tried.tried_of_mem hmemOld
  have hneOld := hnotk nOld hmemOld
  rw [if_neg (by simp [OrdMap.contains, OrdMap.find?_insert_of_ne _ _ hneOld, hiOld])]
  simp only [CAddrMan.info, OrdMap.findD_insert_of_ne _ _ _ hneOld]
  rw [OrdMap.modify, OrdMap.findD_insert_of_ne _ _ _ (Ne.symm hneOld), OrdMap.findD_insert_self,
    OrdMap.insert_comm intStrictOrder _ _ h.sorted hneOld, OrdMap.insert_insert]
  split_ifs with hB
  · exact ⟨_, _, rfl, h.evict hk hnew hsucc hkb.symm hv' hp
      (by rw [h.new.length]; exact getNewBucket_lt _ _ _ _)
      (by rw [← Buckets.getD_map_erase]; exact hB), OrdMap.find?_insert_self _ _ _⟩
  · refine ⟨_, _, rfl, h.evict hk hnew hsucc hkb.symm hv' hp hb ?_, OrdMap.find?_insert_self _ _ _⟩
    rw [List.length_erase_of_mem horigin]
    have hsz := h.new.size _ (Buckets.getD_mem hb)
    have hpos := List.length_pos_of_mem horigin
    omega

/-- `Good_` at a positive time keeps the invariant and passes its asserts; the entry of
the address, when it is known with this port, records the success and is then a tried
one. -/
theorem Consistent.good (h : Consistent env 0 s) (addr : CService) {nTime : Int}
    (hTime : 0 < nTime) (rs : List Nat) :
    ∃ s', s.good env addr nTime rs = some s' ∧ Consistent env 0 s' ∧
      ∀ nId info, s.find addr.netAddr = some (nId, info) → info.toCService = addr →
        OrdMap.find? nId s'.mapInfo = some { info with
          nLastSuccess := nTime, nLastTry := nTime, nTime := uint32OfInt nTime, nAttempts := 0,
          nRefCount := 0, fInTried := true } := by
  unfold CAddrMan.good
  cases hf : s.find addr.netAddr with
  | none => exact ⟨s, rfl, h, fun _ _ he => by cases he⟩
  | some p =>
    obtain ⟨nId, info⟩ := p
    obtain ⟨-, hk⟩ := find_eq_some hf
    have hok := h.entry nId info hk
    dsimp only
    by_cases hsvc : info.toCService ≠ addr
    · rw [if_pos hsvc]
      exact ⟨s, rfl, h, fun _ _ he hsvc' => by cases he; exact absurd hsvc' hsvc⟩
    rw [if_neg hsvc]
    set info' : CAddrInfo := { info with
      nLastSuccess := nTime, nLastTry := nTime, nTime := uint32OfInt nTime, nAttempts := 0 }
    have hok' : EntryOk info' := ⟨hok.randomPos, hTime.le, hTime.le,
      fun ht => ⟨(hok.tried ht).1, hTime.ne'⟩, hok.new⟩
    have h1 := h.setInfo (v := info') hk rfl rfl rfl rfl hok'
    by_cases htried : info.fInTried = true
    · rw [if_pos htried]
      refine ⟨_, rfl, h1, fun _ _ he _ => ?_⟩
      cases he
      have hr := (hok.tried htried).1
      rw [OrdMap.find?_insert_self]
      simp [hr, htried]
    rw [if_neg htried]
    have hnew : info.fInTried = false := by simpa using htried
    obtain ⟨b, hb, hmem⟩ : ∃ b < s.vvNew.length, nId ∈ s.vvNew.getD b [] := by
      have hpos : 0 < s.vvNew.countP fun l => decide (nId ∈ l) := by
        rw [h.new.countP_mem hk hnew rfl]
        have := h.live nId info hk hnew
        omega
      obtain ⟨l, hl, hin⟩ := List.countP_pos_iff.mp hpos
      obtain ⟨b, hb, rfl⟩ := Buckets.exists_getD_of_mem hl
      exact ⟨b, hb, by simpa using hin⟩
    generalize getRandInt s.vvNew.length rs = q
    cases hfind : (List.range s.vvNew.length).find?
        (fun n => decide (nId ∈ s.vvNew.getD ((n + q.1) % s.vvNew.length) [])) with
    | none =>
      have hsome := Buckets.find?_range_rotate_isSome (q := q.1)
        (p := fun b => decide (nId ∈ s.vvNew.getD b [])) hb (by simpa using hmem)
      simp only [hfind, Option.isSome_none, Bool.false_eq_true] at hsome
    | some n =>
      have horigin := List.find?_some hfind
      simp only [decide_eq_true_eq] at horigin
      obtain ⟨s', rs'', hs', hc', hT⟩ := h1.makeTried (OrdMap.find?_insert_self _ _ _)
        hnew hTime.ne' (Nat.mod_lt _ (Nat.zero_lt_of_lt hb)) horigin q.2
      exact ⟨s', congrArg (Option.map Prod.fst) hs', hc', fun _ _ he _ => by cases he; exact hT⟩

end MakeTried

end CAddrMan

end Twister.Net
