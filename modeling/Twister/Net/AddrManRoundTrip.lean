import Twister.Net.AddrManLoad
import Twister.Net.AddrManReach

/-!
# `peers.dat` read back

What `Unserialize` builds from the bytes `Serialize` wrote is `loaded` (AddrManLoad).
Its three loops are run here on the invariant of the manager, as the calls of the node
are: each new entry is inserted as `Create` inserts one, at the next id, last in
`vRandom`; each tried entry takes the next id at the end of the tried bucket its
address hashes to, and none is lost, since every bucket held no more entries than it
has room for; each index of a new bucket gives the entry one reference and a place in
the bucket, in increasing order. The manager read back is consistent, and under every
address it holds the entry it held before, up to the time of the last try and the
position in `vRandom`; its new buckets hold the same addresses.
-/

namespace Twister.Net

/-! ## Entries as the file keeps them -/

/-- What `peers.dat` keeps of an entry: all but the time of its last try, which the
reader sets to `0`, and its position in `vRandom`, which the reader gives anew. -/
def CAddrInfo.stored (info : CAddrInfo) : CAddrInfo :=
  { info with nLastTry := 0, nRandomPos := 0 }

/-- An entry with `n` references more. -/
def CAddrInfo.addRefs (info : CAddrInfo) (n : ℕ) : CAddrInfo :=
  { info with nRefCount := info.nRefCount + n }

namespace CAddrInfo

@[simp] theorem addRefs_zero (info : CAddrInfo) : info.addRefs 0 = info := by
  simp [addRefs]

theorem addRefs_addRefs (info : CAddrInfo) (a b : ℕ) :
    (info.addRefs a).addRefs b = info.addRefs (a + b) := by
  simp only [addRefs, Nat.cast_add, add_assoc]

theorem addRefs_one (info : CAddrInfo) :
    info.addRefs 1 = { info with nRefCount := info.nRefCount + 1 } := by
  simp [addRefs]

@[simp] theorem fInTried_addRefs (info : CAddrInfo) (n : ℕ) :
    (info.addRefs n).fInTried = info.fInTried := rfl

@[simp] theorem netAddr_addRefs (info : CAddrInfo) (n : ℕ) :
    (info.addRefs n).netAddr = info.netAddr := rfl

@[simp] theorem nRefCount_addRefs (info : CAddrInfo) (n : ℕ) :
    (info.addRefs n).nRefCount = info.nRefCount + n := rfl

/-- An entry read over a fresh one, new or tried as it was, with as many references as it
had, is the entry the file kept. -/
theorem stored_loadInto (info : CAddrInfo) (p : Int) {f : Bool} (hf : info.fInTried = f)
    (h0 : 0 ≤ info.nRefCount) :
    ({ CAddrInfo.default.loadInto info with nRandomPos := p, fInTried := f }.addRefs
      info.nRefCount.toNat).stored = info.stored := by
  subst hf
  cases info
  simp only at h0
  simp [stored, addRefs, loadInto, CAddrInfo.default, CAddrInfo.ofAddress, Int.toNat_of_nonneg h0]

@[simp] theorem netAddr_stored (info : CAddrInfo) : info.stored.netAddr = info.netAddr := rfl

@[simp] theorem fInTried_stored (info : CAddrInfo) : info.stored.fInTried = info.fInTried := rfl

@[simp] theorem nRefCount_stored (info : CAddrInfo) : info.stored.nRefCount = info.nRefCount := rfl

theorem netAddr_eq_of_stored_eq {info info' : CAddrInfo} (h : info.stored = info'.stored) :
    info.netAddr = info'.netAddr := by
  simpa using congrArg (fun info : CAddrInfo => info.netAddr) h

end CAddrInfo

namespace CAddrMan

/-! ## The new entries -/

section NewEntries

variable {env : AddrEnv}

/-- The entries the reader adds from id `n`, each at its id in `vRandom`, new or tried
as `fInTried` says. -/
def entriesRead (fInTried : Bool) : List CAddrInfo → Int → List (Int × CAddrInfo)
  | [], _ => []
  | info :: l, n =>
    (n, { CAddrInfo.default.loadInto info with nRandomPos := n, fInTried }) ::
      entriesRead fInTried l (n + 1)

theorem mem_entriesRead {fInTried : Bool} :
    ∀ {l : List CAddrInfo} {n k : Int} {e : CAddrInfo},
    (k, e) ∈ entriesRead fInTried l n ↔ ∃ i, ∃ hi : i < l.length, k = n + i ∧
      e = { CAddrInfo.default.loadInto l[i] with nRandomPos := n + i, fInTried }
  | [], _, _, _ => by simp [entriesRead]
  | info :: l, n, k, e => by
    have harith : ∀ i : ℕ, n + 1 + (i : Int) = n + ((i + 1 : ℕ) : Int) := by
      intro i
      push_cast
      ring
    rw [entriesRead, List.mem_cons, mem_entriesRead]
    constructor
    · rintro (h | ⟨i, hi, rfl, rfl⟩)
      · obtain ⟨rfl, rfl⟩ := Prod.mk.inj h
        exact ⟨0, by simp, by simp, by simp⟩
      · exact ⟨i + 1, by simpa using hi, harith i, by rw [harith i]; rfl⟩
    · rintro ⟨i, hi, rfl, rfl⟩
      cases i with
      | zero => exact Or.inl (by simp)
      | succ i => exact Or.inr ⟨i, by simpa using hi, (harith i).symm, by rw [← harith i]; rfl⟩

/-- The reader's loop over the new entries changes the entries and their indexes only. -/
theorem loadNew_frame : ∀ (l : List CAddrInfo) (n : Int) (t : CAddrMan),
    ∃ mapInfo mapAddr vRandom, loadNew l n t = { t with mapInfo, mapAddr, vRandom }
  | [], _, t => ⟨t.mapInfo, t.mapAddr, t.vRandom, rfl⟩
  | _ :: l, n, _ => by
    obtain ⟨mapInfo, mapAddr, vRandom, h⟩ := loadNew_frame l (n + 1) _
    exact ⟨mapInfo, mapAddr, vRandom, h⟩

/-- The reader's loop over the new entries, from id `n` with `n` ids in `vRandom`, on
entries with distinct addresses that no entry has yet: each entry is inserted as
`Create` inserts one, so the indexes agree with one new entry more after each, the
entries are appended in order, and `vRandom` gets one id for each. -/
theorem loadNew_spec : ∀ (l : List CAddrInfo) (n c d : Int) (t : CAddrMan),
    Indexed env 0 { t with nIdCount := n, nNew := c, nTried := d } →
    (t.vRandom.length : Int) = n → (∀ info ∈ l, 0 ≤ info.nLastSuccess) →
    (l.map (·.netAddr)).Nodup → (∀ info ∈ l, OrdMap.find? info.netAddr t.mapAddr = none) →
    Indexed env 0 { loadNew l n t with
        nIdCount := n + l.length, nNew := c + l.length, nTried := d } ∧
      (loadNew l n t).mapInfo = t.mapInfo ++ entriesRead false l n ∧
      ((loadNew l n t).vRandom.length : Int) = n + l.length
  | [], n, c, d, t, h, hlen, _, _, _ => ⟨by simpa [loadNew, entriesRead] using h,
    by simp [loadNew, entriesRead], by simpa [loadNew] using hlen⟩
  | info :: l, n, c, d, t, h, hlen, hls, hnd, haddr => by
    have hlt : ∀ k ∈ OrdMap.keys t.mapInfo, k < n := fun k hk => (h.fresh k hk).2
    have hinfo : t.info n = CAddrInfo.default := by
      simp [CAddrMan.info, OrdMap.findD, h.find?_nIdCount]
    have hok : EntryOk { CAddrInfo.default.loadInto info with nRandomPos := n, fInTried := false } :=
      ⟨h.idCount, le_refl 0, hls info List.mem_cons_self, (fun ht => by cases ht),
        fun _ => ⟨le_refl 0, show (0 : Int) ≤ 4 by decide⟩⟩
    rw [List.map_cons, List.nodup_cons] at hnd
    have hunfold : loadNew (info :: l) n t = loadNew l (n + 1) { t with
        mapInfo := OrdMap.insert n
          { CAddrInfo.default.loadInto info with nRandomPos := n, fInTried := false } t.mapInfo,
        mapAddr := OrdMap.insert info.netAddr n t.mapAddr, vRandom := t.vRandom ++ [n] } := by
      simp only [loadNew, hinfo, hlen]
      rfl
    obtain ⟨hind, hmap, hvr⟩ := loadNew_spec l (n + 1) (c + 1) d { t with
        mapInfo := OrdMap.insert n
          { CAddrInfo.default.loadInto info with nRandomPos := n, fInTried := false } t.mapInfo,
        mapAddr := OrdMap.insert info.netAddr n t.mapAddr, vRandom := t.vRandom ++ [n] }
      (h.insertNew hok rfl rfl hlen.symm (haddr info List.mem_cons_self)) (by simp [hlen])
      (fun i hi => hls i (List.mem_cons_of_mem _ hi)) hnd.2 fun i hi => by
        rw [OrdMap.find?_insert_of_ne _ _ fun heq => hnd.1 (List.mem_map.mpr ⟨i, hi, heq⟩)]
        exact haddr i (List.mem_cons_of_mem _ hi)
    have harith : ∀ x : Int, x + ((info :: l).length : Int) = x + 1 + l.length := by
      intro x
      rw [List.length_cons]
      push_cast
      ring
    rw [hunfold, harith, harith]
    refine ⟨hind, ?_, hvr⟩
    rw [hmap]
    show OrdMap.insert n _ t.mapInfo ++ _ = _
    rw [OrdMap.insert_of_forall_lt intStrictOrder _ hlt, List.append_assoc]
    rfl

end NewEntries

/-! ## The tried entries -/

section TriedEntries

variable {env : AddrEnv}

/-- A fresh id `s.nIdCount` with a tried entry `v`, last in `vRandom` and at the end of the
tried bucket its address hashes to, which has room, under an address no entry has: the
indexes agree, with one more tried entry. -/
theorem Indexed.insertTried {d : Int → ℕ} {s : CAddrMan} {v : CAddrInfo} (h : Indexed env d s)
    (hok : EntryOk v) (hv : v.fInTried = true) (hpos : v.nRandomPos = s.vRandom.length)
    (haddr : OrdMap.find? v.netAddr s.mapAddr = none)
    (hsize : (s.vvTried.getD (getTriedBucket env s.nKey v.toCService) []).length <
      addrmanTriedBucketSize) :
    Indexed env d { s with
      nIdCount := s.nIdCount + 1, mapInfo := OrdMap.insert s.nIdCount v s.mapInfo,
      mapAddr := OrdMap.insert v.netAddr s.nIdCount s.mapAddr,
      vRandom := s.vRandom ++ [s.nIdCount],
      vvTried := s.vvTried.set (getTriedBucket env s.nKey v.toCService)
        (s.vvTried.getD (getTriedBucket env s.nKey v.toCService) [] ++ [s.nIdCount]),
      nTried := s.nTried + 1 } := by
  have hk := h.find?_nIdCount
  have hb : getTriedBucket env s.nKey v.toCService < s.vvTried.length := by
    rw [h.tried.length]
    exact Nat.mod_lt _ (by decide)
  exact {
    sorted := OrdMap.sorted_insert intStrictOrder _ _ h.sorted
    idCount := by
      have := h.idCount
      dsimp only
      omega
    fresh := h.fresh_insert_nIdCount v
    entry := entry_insert h.entry hok
    addr := h.addr.insertNew hk haddr
    random := h.random_insert_nIdCount hpos
    tried := h.tried.append hb (by simp [triedRefs, hk]) hv rfl hsize
    new := h.new.insertNew hk (hok.tried hv).1
    nTried := by
      rw [h.nTried, countTried_insert_of_find?_none hk, hv]
      rfl
    nNew := by
      rw [h.nNew, countNew_insert_of_find?_none hk, hv]
      rfl }

/-- The reader's loop over the tried entries changes the entries, their indexes and the
next id only. -/
theorem loadTried_frame : ∀ (l : List CAddrInfo) (t : CAddrMan) (nLost : Int),
    ∃ mapInfo mapAddr vRandom vvTried nIdCount,
      (loadTried env l t nLost).1 = { t with mapInfo, mapAddr, vRandom, vvTried, nIdCount }
  | [], t, _ => ⟨t.mapInfo, t.mapAddr, t.vRandom, t.vvTried, t.nIdCount, rfl⟩
  | _ :: l, t, nLost => by
    unfold loadTried
    dsimp only
    split
    · obtain ⟨mapInfo, mapAddr, vRandom, vvTried, nIdCount, h⟩ := loadTried_frame l _ nLost
      exact ⟨mapInfo, mapAddr, vRandom, vvTried, nIdCount, h⟩
    · exact loadTried_frame l t (nLost + 1)

/-- The reader's loop over the tried entries, with as many ids in `vRandom` as the next id,
on entries with distinct addresses that no entry has yet, each tried bucket with room for
the entries that hash to it: no entry is lost, each takes the next id at the end of its
bucket, so the indexes agree with one tried entry more after each, and the entries are
appended in order. -/
theorem loadTried_spec : ∀ (l : List CAddrInfo) (t : CAddrMan) (c nLost : Int),
    Indexed env 0 { t with nTried := c } → (t.vRandom.length : Int) = t.nIdCount →
    (∀ info ∈ l, 0 ≤ info.nLastSuccess ∧ info.nLastSuccess ≠ 0) →
    (l.map (·.netAddr)).Nodup → (∀ info ∈ l, OrdMap.find? info.netAddr t.mapAddr = none) →
    (∀ b, (t.vvTried.getD b []).length +
      (l.filter fun info => getTriedBucket env t.nKey info.toCService = b).length ≤
        addrmanTriedBucketSize) →
    (loadTried env l t nLost).2 = nLost ∧
      Indexed env 0 { (loadTried env l t nLost).1 with nTried := c + l.length } ∧
      (loadTried env l t nLost).1.mapInfo = t.mapInfo ++ entriesRead true l t.nIdCount
  | [], t, c, nLost, h, _, _, _, _, _ => by simpa [loadTried, entriesRead] using h
  | info :: l, t, c, nLost, h, hlen, hls, hnd, haddr, hroom => by
    have hroom₀ := hroom (getTriedBucket env t.nKey info.toCService)
    simp only [List.filter_cons, decide_true, if_true, List.length_cons] at hroom₀
    have hsize : (t.vvTried.getD (getTriedBucket env t.nKey info.toCService) []).length <
        addrmanTriedBucketSize := by
      omega
    have hlt : ∀ k ∈ OrdMap.keys t.mapInfo, k < t.nIdCount := fun k hk => (h.fresh k hk).2
    have hok : EntryOk { CAddrInfo.default.loadInto info with
        nRandomPos := t.nIdCount, fInTried := true } :=
      ⟨h.idCount, le_refl 0, (hls info List.mem_cons_self).1,
        fun _ => ⟨rfl, (hls info List.mem_cons_self).2⟩, fun hf => by cases hf⟩
    rw [List.map_cons, List.nodup_cons] at hnd
    have hunfold : loadTried env (info :: l) t nLost = loadTried env l { t with
        vRandom := t.vRandom ++ [t.nIdCount],
        mapInfo := OrdMap.insert t.nIdCount
          { CAddrInfo.default.loadInto info with nRandomPos := t.nIdCount, fInTried := true }
          t.mapInfo,
        mapAddr := OrdMap.insert info.netAddr t.nIdCount t.mapAddr,
        vvTried := t.vvTried.set (getTriedBucket env t.nKey info.toCService)
          (t.vvTried.getD (getTriedBucket env t.nKey info.toCService) [] ++ [t.nIdCount]),
        nIdCount := t.nIdCount + 1 } nLost := by
      simp only [loadTried, hlen]
      split_ifs with hc
      · rfl
      · exact absurd hsize hc
    obtain ⟨hlost, hind, hmap⟩ := loadTried_spec l { t with
        vRandom := t.vRandom ++ [t.nIdCount],
        mapInfo := OrdMap.insert t.nIdCount
          { CAddrInfo.default.loadInto info with nRandomPos := t.nIdCount, fInTried := true }
          t.mapInfo,
        mapAddr := OrdMap.insert info.netAddr t.nIdCount t.mapAddr,
        vvTried := t.vvTried.set (getTriedBucket env t.nKey info.toCService)
          (t.vvTried.getD (getTriedBucket env t.nKey info.toCService) [] ++ [t.nIdCount]),
        nIdCount := t.nIdCount + 1 } (c + 1) nLost
      (h.insertTried hok rfl hlen.symm (haddr info List.mem_cons_self) hsize) (by simp [hlen])
      (fun i hi => hls i (List.mem_cons_of_mem _ hi)) hnd.2
      (fun i hi => by
        rw [OrdMap.find?_insert_of_ne _ _ fun heq => hnd.1 (List.mem_map.mpr ⟨i, hi, heq⟩)]
        exact haddr i (List.mem_cons_of_mem _ hi))
      (fun b => by
        have hb := hroom b
        rw [List.filter_cons] at hb
        rw [Buckets.getD_set]
        by_cases hbk : getTriedBucket env t.nKey info.toCService = b
        · subst hbk
          simp only [decide_true, if_true, List.length_cons] at hb
          have hlen' : getTriedBucket env t.nKey info.toCService < t.vvTried.length := by
            rw [h.tried.length]
            exact Nat.mod_lt _ (by decide)
          simp only [hlen', and_self, if_true, List.length_append, List.length_singleton]
          omega
        · simp only [hbk, decide_false, Bool.false_eq_true, if_false, false_and] at hb ⊢
          exact hb)
    have harith : c + ((info :: l).length : Int) = c + 1 + l.length := by
      rw [List.length_cons]
      push_cast
      ring
    rw [hunfold, harith]
    refine ⟨hlost, hind, ?_⟩
    rw [hmap]
    show OrdMap.insert t.nIdCount _ t.mapInfo ++ _ = _
    rw [OrdMap.insert_of_forall_lt intStrictOrder _ hlt, List.append_assoc]
    rfl

end TriedEntries

/-! ## The new buckets -/

section Buckets

variable {env : AddrEnv}

/-- One index of a new bucket read back: the entry, new and with room for one more
reference, gets it and joins the bucket, which has room and does not hold it yet. -/
theorem Indexed.loadRef {s : CAddrMan} {k : Int} {v₀ : CAddrInfo} {b : ℕ} (h : Indexed env 0 s)
    (hk : OrdMap.find? k s.mapInfo = some v₀) (hnew : v₀.fInTried = false)
    (h4 : v₀.nRefCount < addrmanNewBucketsPerAddress) (hb : b < s.vvNew.length)
    (hnot : k ∉ s.vvNew.getD b [])
    (hsize : (s.vvNew.getD b []).length < addrmanNewBucketSize) :
    Indexed env 0 { s with
      mapInfo := OrdMap.insert k { v₀ with nRefCount := v₀.nRefCount + 1 } s.mapInfo,
      vvNew := s.vvNew.set b (OrdSet.insert k (s.vvNew.getD b [])) } := by
  have h1 := h.addRef hk hnew h4
  have h2 : Indexed env (Function.update (Function.update (0 : Int → ℕ) k ((0 : Int → ℕ) k + 1)) k
      (Function.update (0 : Int → ℕ) k ((0 : Int → ℕ) k + 1) k - 1)) { s with
        mapInfo := OrdMap.insert k { v₀ with nRefCount := v₀.nRefCount + 1 } s.mapInfo,
        vvNew := s.vvNew.set b (OrdSet.insert k (s.vvNew.getD b [])) } :=
    { h1 with new := h1.new.insertBucket hb hnot hsize (by simp) }
  rwa [update_pending_restore] at h2

/-- The reader's loop over the indexes of one bucket changes the entries and the new
buckets only. -/
theorem loadBucket_frame (b : ℕ) : ∀ (l : List Int) (t : CAddrMan),
    ∃ mapInfo vvNew, loadBucket b l t = { t with mapInfo, vvNew }
  | [], t => ⟨t.mapInfo, t.vvNew, rfl⟩
  | _ :: l, t => by
    unfold loadBucket
    dsimp only
    split <;>
    · obtain ⟨mapInfo, vvNew, h⟩ := loadBucket_frame b l _
      exact ⟨mapInfo, vvNew, h⟩

theorem loadBuckets_frame : ∀ (vv : List (List Int)) (b : ℕ) (t : CAddrMan),
    ∃ mapInfo vvNew, loadBuckets vv b t = { t with mapInfo, vvNew }
  | [], _, t => ⟨t.mapInfo, t.vvNew, rfl⟩
  | v :: vv, b, t => by
    obtain ⟨mapInfo₁, vvNew₁, h₁⟩ := loadBucket_frame b v t
    obtain ⟨mapInfo₂, vvNew₂, h₂⟩ := loadBuckets_frame vv (b + 1) (loadBucket b v t)
    refine ⟨mapInfo₂, vvNew₂, ?_⟩
    rw [loadBuckets, h₂, h₁]

/-- The reader's loop over the indexes of bucket `b`, in increasing order after the ids
the bucket holds, as many as it has room for, each of a new entry with room for as many
references as it gets: every index gives its entry one reference and a place at the end
of the bucket, and the indexes agree after each. -/
theorem loadBucket_spec (b : ℕ) : ∀ (l : List Int) (t : CAddrMan),
    Indexed env 0 t → b < t.vvNew.length →
    (t.vvNew.getD b [] ++ l).Pairwise (· < ·) →
    (t.vvNew.getD b [] ++ l).length ≤ addrmanNewBucketSize →
    (∀ y ∈ l, ((t.vvNew.flatten.count y + l.count y : ℕ) : Int) ≤ addrmanNewBucketsPerAddress) →
    (∀ y ∈ l, ∃ info, OrdMap.find? y t.mapInfo = some info ∧ info.fInTried = false) →
    Indexed env 0 (loadBucket b l t) ∧
      (loadBucket b l t).vvNew = t.vvNew.set b (t.vvNew.getD b [] ++ l) ∧
      ∀ k, OrdMap.find? k (loadBucket b l t).mapInfo =
        (OrdMap.find? k t.mapInfo).map (·.addRefs (l.count k))
  | [], t, h, hb, _, _, _, _ => by
    refine ⟨h, ?_, fun k => by simp [loadBucket]⟩
    rw [List.append_nil, List.getD_eq_getElem _ _ hb, List.set_getElem_self]
    rfl
  | y :: l, t, h, hb, hsorted, hsize, hcount, hentries => by
    obtain ⟨v₀, hv₀, hnew⟩ := hentries y List.mem_cons_self
    have h0 := ((h.entry y v₀ hv₀).new hnew).1
    have hc := h.new.count y
    rw [newRefs_of_find? hv₀, hnew] at hc
    simp only [Pi.zero_apply, add_zero, Bool.false_eq_true, if_false] at hc
    have hcy := hcount y List.mem_cons_self
    rw [List.count_cons_self, hc] at hcy
    have h4 : v₀.nRefCount < addrmanNewBucketsPerAddress := by
      have := Int.toNat_of_nonneg h0
      simp only [addrmanNewBucketsPerAddress] at hcy ⊢
      omega
    have hpair := List.pairwise_append.mp hsorted
    have hlt : ∀ k ∈ t.vvNew.getD b [], k < y := fun k hk => hpair.2.2 k hk y List.mem_cons_self
    have hnot : y ∉ t.vvNew.getD b [] := fun hy => lt_irrefl y (hlt y hy)
    have hsize' : (t.vvNew.getD b []).length < addrmanNewBucketSize := by
      rw [List.length_append, List.length_cons] at hsize
      omega
    have hins : OrdSet.insert y (t.vvNew.getD b []) = t.vvNew.getD b [] ++ [y] :=
      OrdSet.insert_of_forall_lt intStrictOrder hlt
    have hunfold : loadBucket b (y :: l) t = loadBucket b l { t with
        mapInfo := OrdMap.insert y { v₀ with nRefCount := v₀.nRefCount + 1 } t.mapInfo,
        vvNew := t.vvNew.set b (OrdSet.insert y (t.vvNew.getD b [])) } := by
      simp only [loadBucket, info_of_find? hv₀, if_pos h4]
    have hget : (t.vvNew.set b (OrdSet.insert y (t.vvNew.getD b []))).getD b [] =
        t.vvNew.getD b [] ++ [y] := by
      rw [Buckets.getD_set_self hb, hins]
    obtain ⟨hind, hvv, hfind⟩ := loadBucket_spec b l { t with
        mapInfo := OrdMap.insert y { v₀ with nRefCount := v₀.nRefCount + 1 } t.mapInfo,
        vvNew := t.vvNew.set b (OrdSet.insert y (t.vvNew.getD b [])) }
      (h.loadRef hv₀ hnew h4 hb hnot hsize') (by simpa using hb)
      (by dsimp only; rwa [hget, List.append_assoc, List.singleton_append])
      (by dsimp only; rwa [hget, List.append_assoc, List.singleton_append])
      (fun z hz => by
        have hset := Buckets.count_flatten_set hb (t.vvNew.getD b [] ++ [y]) z
        have hcz := hcount z (List.mem_cons_of_mem _ hz)
        rw [hins]
        rw [List.count_append] at hset
        rw [← List.singleton_append, List.count_append] at hcz
        dsimp only
        omega)
      (fun z hz => by
        rw [OrdMap.find?_insert]
        split_ifs
        · exact ⟨_, rfl, hnew⟩
        · exact hentries z (List.mem_cons_of_mem _ hz))
    rw [hunfold]
    refine ⟨hind, ?_, fun k => ?_⟩
    · rw [hvv, hget]
      simp only [List.set_set, List.append_assoc, List.singleton_append]
    · rw [hfind k]
      dsimp only
      rw [OrdMap.find?_insert]
      split_ifs with hky
      · subst hky
        rw [hv₀, List.count_cons_self, ← CAddrInfo.addRefs_one]
        simp only [Option.map_some, CAddrInfo.addRefs_addRefs, Nat.add_comm]
      · rw [List.count_cons_of_ne (Ne.symm hky)]

/-- The reader's loop over the new buckets, from bucket `done.length` with the buckets
before it read and those after it empty, on buckets in increasing order with room for
their ids, each id of a new entry that gets no more references than it has room for:
the buckets are read in, each id getting one reference for each bucket holding it, and
the indexes agree after each. -/
theorem loadBuckets_spec : ∀ (vv done : List (List Int)) (t : CAddrMan),
    Indexed env 0 t → t.vvNew = done ++ List.replicate vv.length [] →
    (∀ v ∈ vv, v.Pairwise (· < ·) ∧ v.length ≤ addrmanNewBucketSize) →
    (∀ y, (((done ++ vv).flatten.count y : ℕ) : Int) ≤ addrmanNewBucketsPerAddress) →
    (∀ y ∈ vv.flatten, ∃ info, OrdMap.find? y t.mapInfo = some info ∧ info.fInTried = false) →
    Indexed env 0 (loadBuckets vv done.length t) ∧
      (loadBuckets vv done.length t).vvNew = done ++ vv ∧
      ∀ k, OrdMap.find? k (loadBuckets vv done.length t).mapInfo =
        (OrdMap.find? k t.mapInfo).map (·.addRefs (vv.flatten.count k))
  | [], done, t, h, hvv, _, _, _ => ⟨h, by simpa [loadBuckets] using hvv, fun k => by simp [loadBuckets]⟩
  | v :: vv, done, t, h, hvv, hbuckets, hcount, hentries => by
    have hb : done.length < t.vvNew.length := by
      rw [hvv]
      simp
    have hget : t.vvNew.getD done.length [] = [] := by
      simp [hvv, List.getD_eq_getElem?_getD]
    obtain ⟨hind, hvnew, hfind⟩ := loadBucket_spec done.length v t h hb
      (by rw [hget]; exact (hbuckets v List.mem_cons_self).1)
      (by rw [hget]; exact (hbuckets v List.mem_cons_self).2)
      (fun y _ => by
        have hy := hcount y
        rw [hvv]
        simp only [List.flatten_append, List.flatten_cons, List.count_append,
          List.flatten_replicate_nil, List.count_nil] at hy ⊢
        omega)
      (fun y hy => hentries y (List.mem_flatten.mpr ⟨v, List.mem_cons_self, hy⟩))
    obtain ⟨hind', hvnew', hfind'⟩ := loadBuckets_spec vv (done ++ [v]) (loadBucket done.length v t)
      hind (by rw [hvnew, hget, hvv]; simp [List.replicate_succ])
      (fun w hw => hbuckets w (List.mem_cons_of_mem _ hw))
      (fun y => by simpa using hcount y)
      (fun y hy => by
        obtain ⟨info, hinfo, hnew⟩ :=
          hentries y (List.mem_flatten.mpr (by
            obtain ⟨w, hw, hyw⟩ := List.mem_flatten.mp hy
            exact ⟨w, List.mem_cons_of_mem _ hw, hyw⟩))
        exact ⟨info.addRefs (v.count y), by rw [hfind y, hinfo]; rfl, hnew⟩)
    rw [List.length_append, List.length_singleton] at hind' hvnew' hfind'
    rw [loadBuckets]
    refine ⟨hind', by rw [hvnew']; simp, fun k => ?_⟩
    rw [hfind' k, hfind k]
    cases OrdMap.find? k t.mapInfo <;>
      simp [CAddrInfo.addRefs_addRefs, List.flatten_cons, List.count_append]

end Buckets

/-! ## The entries read back -/

section Assembly

variable {env : AddrEnv} {s : CAddrMan}

theorem perm_triedEntries_newEntries (m : List (Int × CAddrInfo)) :
    (triedEntries m ++ newEntries m).Perm m :=
  List.filter_append_perm _ _

theorem Indexed.nodup_netAddr {d : Int → ℕ} (h : Indexed env d s) :
    (s.mapInfo.map (·.2.netAddr)).Nodup := by
  have hnd := h.sorted.nodup intStrictOrder
  refine List.Nodup.map_on (fun p hp q hq heq => ?_) (hnd.of_map Prod.fst)
  have hp' := OrdMap.find?_eq_some_of_mem hnd hp
  have hq' := OrdMap.find?_eq_some_of_mem hnd hq
  have h₁ := (h.addr.find_iff p.2.netAddr p.1).mpr ⟨p.2, hp', rfl⟩
  have h₂ := (h.addr.find_iff p.2.netAddr q.1).mpr ⟨q.2, hq', heq.symm⟩
  have hk : p.1 = q.1 := Option.some_injective _ (h₁.symm.trans h₂)
  rw [hk, hq'] at hp'
  exact Prod.ext hk (Option.some_injective _ hp').symm

theorem Indexed.find_eq_some_iff {d : Int → ℕ} (h : Indexed env d s) {a : CNetAddr} {k : Int}
    {e : CAddrInfo} : s.find a = some (k, e) ↔ OrdMap.find? k s.mapInfo = some e ∧ e.netAddr = a := by
  unfold find
  constructor
  · intro hf
    split at hf
    · cases hf
    · rename_i nId hnId
      obtain ⟨e', he', heq⟩ := Option.map_eq_some_iff.mp hf
      obtain ⟨rfl, rfl⟩ := Prod.mk.inj heq
      obtain ⟨info, hinfo, haddr⟩ := (h.addr.find_iff a nId).mp hnId
      rw [hinfo] at he'
      cases he'
      exact ⟨hinfo, haddr⟩
  · rintro ⟨hk, rfl⟩
    rw [(h.addr.find_iff e.netAddr k).mpr ⟨e, hk, rfl⟩]
    simp [hk]

theorem Indexed.find?_newEntries {d : Int → ℕ} (h : Indexed env d s) {i : ℕ}
    (hi : i < (newEntries s.mapInfo).length) :
    OrdMap.find? ((newEntries s.mapInfo)[i]).1 s.mapInfo = some ((newEntries s.mapInfo)[i]).2 ∧
      ((newEntries s.mapInfo)[i]).2.fInTried = false := by
  have hmem := List.mem_filter.mp (List.getElem_mem hi)
  exact ⟨OrdMap.find?_eq_some_of_mem (h.sorted.nodup intStrictOrder) hmem.1, by simpa using hmem.2⟩

theorem Indexed.find?_triedEntries {d : Int → ℕ} (h : Indexed env d s) {j : ℕ}
    (hj : j < (triedEntries s.mapInfo).length) :
    OrdMap.find? ((triedEntries s.mapInfo)[j]).1 s.mapInfo = some ((triedEntries s.mapInfo)[j]).2 ∧
      ((triedEntries s.mapInfo)[j]).2.fInTried = true := by
  have hmem := List.mem_filter.mp (List.getElem_mem hj)
  exact ⟨OrdMap.find?_eq_some_of_mem (h.sorted.nodup intStrictOrder) hmem.1, hmem.2⟩

/-- The `i`-th new entry read over a fresh one at id `p`, with its references given back,
is the entry the file kept. -/
theorem Indexed.stored_newEntries {d : Int → ℕ} (h : Indexed env d s) {i : ℕ}
    (hi : i < (newEntries s.mapInfo).length) (p : Int) :
    ({ CAddrInfo.default.loadInto ((newEntries s.mapInfo)[i]).2 with
        nRandomPos := p, fInTried := false }.addRefs
      ((newEntries s.mapInfo)[i]).2.nRefCount.toNat).stored =
      ((newEntries s.mapInfo)[i]).2.stored := by
  obtain ⟨hfind, hnew⟩ := h.find?_newEntries hi
  exact CAddrInfo.stored_loadInto _ p hnew ((h.entry _ _ hfind).new hnew).1

/-- The `j`-th tried entry read over a fresh one at id `p` is the entry the file kept. -/
theorem Indexed.stored_triedEntries {d : Int → ℕ} (h : Indexed env d s) {j : ℕ}
    (hj : j < (triedEntries s.mapInfo).length) (p : Int) :
    { CAddrInfo.default.loadInto ((triedEntries s.mapInfo)[j]).2 with
        nRandomPos := p, fInTried := true }.stored = ((triedEntries s.mapInfo)[j]).2.stored := by
  obtain ⟨hfind, htried⟩ := h.find?_triedEntries hj
  have hr := ((h.entry _ _ hfind).tried htried).1
  have hst := CAddrInfo.stored_loadInto _ p htried (by rw [hr])
  rwa [hr, Int.toNat_zero, CAddrInfo.addRefs_zero] at hst

@[simp] theorem netAddr_loadInto (info₀ info : CAddrInfo) :
    (info₀.loadInto info).netAddr = info.netAddr := rfl

/-- The tried entries whose address hashes to bucket `b` are no more than the bucket has
room for: they all sit in it. -/
theorem Indexed.length_filter_triedBucket_le {d : Int → ℕ} (h : Indexed env d s) (b : ℕ) :
    (((triedEntries s.mapInfo).map (·.2)).filter fun info =>
      getTriedBucket env s.nKey info.toCService = b).length ≤ addrmanTriedBucketSize := by
  have hheld : ∀ x info, OrdMap.find? x s.mapInfo = some info →
      (decide (getTriedBucket env s.nKey info.toCService = b) && info.fInTried) = true →
      0 < [s.vvTried.getD b []].flatten.count x := by
    intro x info hx hp
    simp only [Bool.and_eq_true, decide_eq_true_eq] at hp
    have hc := h.tried.count x
    rw [triedRefs_of_find? hx, if_pos hp.2] at hc
    have hpos : 0 < s.vvTried.flatten.count x := by omega
    obtain ⟨l, hl, hxl⟩ := List.mem_flatten.mp (List.count_pos_iff.mp hpos)
    obtain ⟨b', -, rfl⟩ := Buckets.exists_getD_of_mem hl
    obtain ⟨info', hinfo', hb'⟩ := h.tried.bucket b' x hxl
    rw [hx] at hinfo'
    cases hinfo'
    rw [hp.1] at hb'
    subst hb'
    simpa using hxl
  have hsize : ∀ l ∈ [s.vvTried.getD b []], l.length ≤ addrmanTriedBucketSize := by
    intro l hl
    rw [List.mem_singleton.mp hl]
    exact Buckets.length_getD_le h.tried.size b
  have hle := length_filter_le h.sorted _ hsize hheld
  rw [List.filter_map, List.length_map, triedEntries, List.filter_filter]
  simpa using hle

/-- The addresses of the tried entries and of the new entries are all distinct. -/
theorem Indexed.nodup_netAddr_entries {d : Int → ℕ} (h : Indexed env d s) :
    (((triedEntries s.mapInfo).map (·.2)).map (·.netAddr) ++
      ((newEntries s.mapInfo).map (·.2)).map (·.netAddr)).Nodup := by
  rw [List.map_map, List.map_map, ← List.map_append]
  exact ((perm_triedEntries_newEntries s.mapInfo).map _).nodup_iff.mpr h.nodup_netAddr

/-- Once the new entries are read, no address a tried entry will be read under is taken. -/
theorem Indexed.find?_mapAddr_tried {d d' : Int → ℕ} (h : Indexed env d s) {t : CAddrMan}
    (ht : Indexed env d' t) (hmap : t.mapInfo = entriesRead false ((newEntries s.mapInfo).map (·.2)) 0) :
    ∀ info ∈ (triedEntries s.mapInfo).map (·.2), OrdMap.find? info.netAddr t.mapAddr = none := by
  intro info hinfo
  rw [Option.eq_none_iff_forall_ne_some]
  intro nId hsome
  obtain ⟨e, he, haddr⟩ := (ht.addr.find_iff _ nId).mp hsome
  rw [hmap] at he
  obtain ⟨i, hi, -, rfl⟩ := mem_entriesRead.mp (OrdMap.mem_of_find?_eq_some he)
  exact (List.nodup_append.mp h.nodup_netAddr_entries).2.2 _ (List.mem_map_of_mem hinfo) _
    (List.mem_map_of_mem (List.getElem_mem hi)) haddr.symm

/-- The reader's loop over the new entries of a consistent manager, on an empty manager
with its key and counts: the new entries are read in order at ids `0`, `1`, and so on,
each with its id in `vRandom`, and the indexes agree once the next id is their number. -/
theorem Consistent.loadNew_newEntries (h : Consistent env 0 s) :
    Indexed env 0 { { loadNew ((newEntries s.mapInfo).map (·.2)) 0
        { empty s.nKey with nNew := s.nNew, nTried := s.nTried } with
          nIdCount := s.nNew } with nTried := 0 } ∧
      (loadNew ((newEntries s.mapInfo).map (·.2)) 0
        { empty s.nKey with nNew := s.nNew, nTried := s.nTried }).mapInfo =
        entriesRead false ((newEntries s.mapInfo).map (·.2)) 0 ∧
      ((loadNew ((newEntries s.mapInfo).map (·.2)) 0
        { empty s.nKey with nNew := s.nNew, nTried := s.nTried }).vRandom.length : Int) =
        s.nNew := by
  have hN : s.nNew = ((newEntries s.mapInfo).map (·.2)).length := by
    rw [h.nNew, List.length_map]
    rfl
  obtain ⟨mi, ma, vr, hf⟩ := loadNew_frame ((newEntries s.mapInfo).map (·.2)) 0
    { empty s.nKey with nNew := s.nNew, nTried := s.nTried }
  obtain ⟨hind, hmap, hvr⟩ := loadNew_spec ((newEntries s.mapInfo).map (·.2)) 0 0 0
    { empty s.nKey with nNew := s.nNew, nTried := s.nTried }
    (consistent_empty env s.nKey).toIndexed rfl
    (fun info hinfo => by
      obtain ⟨p, hp, rfl⟩ := List.mem_map.mp hinfo
      exact (h.entry _ _ (OrdMap.find?_eq_some_of_mem (h.sorted.nodup intStrictOrder)
        (List.mem_filter.mp hp).1)).lastSuccess)
    (List.nodup_append.mp h.nodup_netAddr_entries).2.1 (fun _ _ => rfl)
  refine ⟨?_, by rw [hmap]; rfl, by rw [hvr, hN, zero_add]⟩
  rw [hf] at hind ⊢
  convert hind using 2
  simp [hN]

/-- The reader's loops over the entries of a consistent manager: the indexes agree, the
new entries are read at ids `0`, `1`, and so on, the tried ones after them, no tried entry
is lost, and the new buckets are still empty. -/
theorem Consistent.loadInfos_spec (h : Consistent env 0 s) :
    Indexed env 0 (loadInfos env s) ∧
      (loadInfos env s).mapInfo = entriesRead false ((newEntries s.mapInfo).map (·.2)) 0 ++
        entriesRead true ((triedEntries s.mapInfo).map (·.2)) s.nNew ∧
      (loadInfos env s).vvNew = List.replicate addrmanNewBucketCount [] ∧
      (loadInfos env s).nKey = s.nKey ∧ (loadInfos env s).nNew = s.nNew ∧
      (loadInfos env s).nTried = s.nTried := by
  have hT : s.nTried = ((triedEntries s.mapInfo).map (·.2)).length := by
    rw [h.nTried, List.length_map]
    rfl
  obtain ⟨hind₁, hmap₁, hvr₁⟩ := h.loadNew_newEntries
  set t₀ : CAddrMan := { empty s.nKey with nNew := s.nNew, nTried := s.nTried } with ht₀
  obtain ⟨mi₁, ma₁, vr₁, hf₁⟩ := loadNew_frame ((newEntries s.mapInfo).map (·.2)) 0 t₀
  obtain ⟨hlost, hind₂, hmap₂⟩ := loadTried_spec ((triedEntries s.mapInfo).map (·.2))
    { loadNew ((newEntries s.mapInfo).map (·.2)) 0 t₀ with nIdCount := s.nNew } 0 0 hind₁ hvr₁
    (fun info hinfo => by
      obtain ⟨p, hp, rfl⟩ := List.mem_map.mp hinfo
      obtain ⟨hmem, htried⟩ := List.mem_filter.mp hp
      have hok := h.entry _ _ (OrdMap.find?_eq_some_of_mem (h.sorted.nodup intStrictOrder) hmem)
      exact ⟨hok.lastSuccess, (hok.tried htried).2⟩)
    (List.nodup_append.mp h.nodup_netAddr_entries).1 (h.find?_mapAddr_tried hind₁ hmap₁)
    (fun b => by
      rw [hf₁]
      simpa [ht₀, empty] using h.length_filter_triedBucket_le b)
  obtain ⟨mi₂, ma₂, vr₂, vt₂, nid₂, hf₂⟩ := loadTried_frame ((triedEntries s.mapInfo).map (·.2))
    { loadNew ((newEntries s.mapInfo).map (·.2)) 0 t₀ with nIdCount := s.nNew } 0
  have hloaded : loadInfos env s = { (loadTried env ((triedEntries s.mapInfo).map (·.2))
      { loadNew ((newEntries s.mapInfo).map (·.2)) 0 t₀ with nIdCount := s.nNew } 0).1 with
        nTried := s.nTried } := by
    rw [loadInfos, ← ht₀, hlost, sub_zero, hf₂, hf₁]
  rw [zero_add, ← hT] at hind₂
  rw [hloaded]
  refine ⟨hind₂, by rw [hmap₂]; exact congrArg (· ++ _) hmap₁, ?_, ?_, ?_, rfl⟩ <;> rw [hf₂]
  · show (loadNew ((newEntries s.mapInfo).map (·.2)) 0 t₀).vvNew = _
    rw [hf₁]
    rfl
  · show (loadNew ((newEntries s.mapInfo).map (·.2)) 0 t₀).nKey = _
    rw [hf₁]
    rfl
  · show (loadNew ((newEntries s.mapInfo).map (·.2)) 0 t₀).nNew = _
    rw [hf₁]

theorem Consistent.find?_loadInfos_new (h : Consistent env 0 s) {i : ℕ}
    (hi : i < (newEntries s.mapInfo).length) :
    OrdMap.find? (i : Int) (loadInfos env s).mapInfo = some { CAddrInfo.default.loadInto
      ((newEntries s.mapInfo)[i]).2 with nRandomPos := i, fInTried := false } := by
  obtain ⟨hind, hmap, -⟩ := h.loadInfos_spec
  refine OrdMap.find?_eq_some_of_mem (hind.sorted.nodup intStrictOrder) ?_
  rw [hmap]
  exact List.mem_append_left _ (mem_entriesRead.mpr ⟨i, by simpa using hi, by simp, by simp⟩)

theorem Consistent.find?_loadInfos_tried (h : Consistent env 0 s) {j : ℕ}
    (hj : j < (triedEntries s.mapInfo).length) :
    OrdMap.find? (s.nNew + j) (loadInfos env s).mapInfo = some { CAddrInfo.default.loadInto
      ((triedEntries s.mapInfo)[j]).2 with nRandomPos := s.nNew + j, fInTried := true } := by
  obtain ⟨hind, hmap, -⟩ := h.loadInfos_spec
  refine OrdMap.find?_eq_some_of_mem (hind.sorted.nodup intStrictOrder) ?_
  rw [hmap]
  exact List.mem_append_right _ (mem_entriesRead.mpr ⟨j, by simpa using hj, rfl, by simp⟩)

/-- Every id the loops read is `i` for the `i`-th new entry, or comes after the new ones
for the `j`-th tried entry. -/
theorem Consistent.key_loadInfos_cases (h : Consistent env 0 s) {k : Int} {e : CAddrInfo}
    (hk : OrdMap.find? k (loadInfos env s).mapInfo = some e) :
    (∃ i, i < (newEntries s.mapInfo).length ∧ k = i) ∨
      (∃ j, j < (triedEntries s.mapInfo).length ∧ k = s.nNew + j) := by
  obtain ⟨-, hmap, -⟩ := h.loadInfos_spec
  have hmem := OrdMap.mem_of_find?_eq_some hk
  rw [hmap, List.mem_append] at hmem
  rcases hmem with hmem | hmem
  · obtain ⟨i, hi, rfl, -⟩ := mem_entriesRead.mp hmem
    exact Or.inl ⟨i, by simpa using hi, by simp⟩
  · obtain ⟨j, hj, rfl, -⟩ := mem_entriesRead.mp hmem
    exact Or.inr ⟨j, by simpa using hj, rfl⟩

theorem Consistent.loaded_header (h : Consistent env 0 s) (U : List (Int × Int)) :
    (loaded env s U).nKey = s.nKey ∧ (loaded env s U).nNew = s.nNew ∧
      (loaded env s U).nTried = s.nTried := by
  obtain ⟨-, -, -, hkey, hnew, htried⟩ := h.loadInfos_spec
  obtain ⟨mapInfo, vvNew, hframe⟩ := loadBuckets_frame
    (s.vvNew.map fun vNew => vNew.map fun nId => OrdMap.findD nId 0 U) 0 (loadInfos env s)
  rw [loaded, hframe]
  exact ⟨hkey, hnew, htried⟩

end Assembly

/-! ## The indexes of the new buckets

The writer gave the `i`-th new entry the index `i` (`Consistent.serialize_eq`); `U` is that
map, and the reader's entries sit at those ids. -/

section Ranks

variable {env : AddrEnv} {s : CAddrMan} {U : List (Int × Int)}
  (hrank : ∀ i (hi : i < (newEntries s.mapInfo).length),
    OrdMap.find? ((newEntries s.mapInfo)[i]).1 U = some (i : Int))
include hrank

theorem findD_rank {i : ℕ} (hi : i < (newEntries s.mapInfo).length) :
    OrdMap.findD ((newEntries s.mapInfo)[i]).1 0 U = i := by
  rw [OrdMap.findD, hrank i hi]
  rfl

theorem Consistent.exists_rank (h : Consistent env 0 s) {x : Int} (hx : x ∈ s.vvNew.flatten) :
    ∃ i, ∃ hi : i < (newEntries s.mapInfo).length, ((newEntries s.mapInfo)[i]).1 = x ∧
      OrdMap.findD x 0 U = i := by
  obtain ⟨vNew, hv, hxv⟩ := List.mem_flatten.mp hx
  obtain ⟨i, hi, rfl⟩ := h.index_of_mem_new hv hxv
  exact ⟨i, hi, rfl, findD_rank hrank hi⟩

theorem Consistent.rank_lt_rank (h : Consistent env 0 s) {x y : Int} (hx : x ∈ s.vvNew.flatten)
    (hy : y ∈ s.vvNew.flatten) (hxy : x < y) : OrdMap.findD x 0 U < OrdMap.findD y 0 U := by
  obtain ⟨i, hi, rfl, hrx⟩ := h.exists_rank hrank hx
  obtain ⟨j, hj, rfl, hry⟩ := h.exists_rank hrank hy
  have hsorted : ((newEntries s.mapInfo).map Prod.fst).Pairwise (· < ·) :=
    h.sorted.of_sublist List.filter_sublist
  rw [hrx, hry, Nat.cast_lt]
  rcases lt_trichotomy i j with hij | rfl | hji
  · exact hij
  · exact absurd hxy (lt_irrefl _)
  · have := List.pairwise_iff_getElem.mp hsorted j i (by simpa using hj) (by simpa using hi) hji
    simp only [List.getElem_map] at this
    exact absurd hxy (not_lt.mpr this.le)

/-- The index `i` the writer gave a new entry stands in as many buckets as the entry has
references. -/
theorem Consistent.count_rank (h : Consistent env 0 s) {i : ℕ}
    (hi : i < (newEntries s.mapInfo).length) :
    (s.vvNew.map fun vNew => vNew.map fun nId => OrdMap.findD nId 0 U).flatten.count (i : Int) =
      ((newEntries s.mapInfo)[i]).2.nRefCount.toNat := by
  obtain ⟨hfind, hnew⟩ := h.find?_newEntries hi
  have hc := h.new.count ((newEntries s.mapInfo)[i]).1
  rw [newRefs_of_find? hfind, hnew] at hc
  simp only [Pi.zero_apply, add_zero, Bool.false_eq_true, if_false] at hc
  rw [← findD_rank hrank hi, ← hc]
  refine Buckets.count_flatten_map_map s.vvNew (fun nId => OrdMap.findD nId 0 U)
    fun x hx heq => ?_
  obtain ⟨j, hj, rfl, hrj⟩ := h.exists_rank hrank hx
  rw [hrj, findD_rank hrank hi, Nat.cast_inj] at heq
  subst heq
  rfl

/-- No index past the new entries stands in a bucket. -/
theorem Consistent.count_rank_eq_zero (h : Consistent env 0 s) {k : Int}
    (hk : ((newEntries s.mapInfo).length : Int) ≤ k) :
    (s.vvNew.map fun vNew => vNew.map fun nId => OrdMap.findD nId 0 U).flatten.count k = 0 := by
  rw [List.count_eq_zero]
  intro hmem
  rw [← List.map_flatten] at hmem
  obtain ⟨x, hx, rfl⟩ := List.mem_map.mp hmem
  obtain ⟨i, hi, -, hrx⟩ := h.exists_rank hrank hx
  rw [hrx] at hk
  omega

/-- The reader's loop over the new buckets, on the indexes the writer wrote: each new
entry gets back its references and its places in the buckets. -/
theorem Consistent.loaded_spec (h : Consistent env 0 s) :
    Indexed env 0 (loaded env s U) ∧
      (loaded env s U).vvNew = s.vvNew.map (fun vNew => vNew.map fun nId => OrdMap.findD nId 0 U) ∧
      ∀ k, OrdMap.find? k (loaded env s U).mapInfo = (OrdMap.find? k (loadInfos env s).mapInfo).map
        (·.addRefs ((s.vvNew.map fun vNew => vNew.map fun nId => OrdMap.findD nId 0 U).flatten.count k)) := by
  obtain ⟨hind, -, hvv, -⟩ := h.loadInfos_spec
  have hrankOf : ∀ y ∈ (s.vvNew.map fun vNew => vNew.map fun nId => OrdMap.findD nId 0 U).flatten,
      ∃ i, ∃ hi : i < (newEntries s.mapInfo).length, y = (i : Int) := by
    intro y hy
    rw [← List.map_flatten] at hy
    obtain ⟨x, hx, rfl⟩ := List.mem_map.mp hy
    obtain ⟨i, hi, -, hrx⟩ := h.exists_rank hrank hx
    exact ⟨i, hi, hrx⟩
  have hspec := loadBuckets_spec (s.vvNew.map fun vNew => vNew.map fun nId => OrdMap.findD nId 0 U)
    [] (loadInfos env s) hind (by rw [hvv, List.length_map, h.new.length, List.nil_append])
    (fun v hv => by
      obtain ⟨w, hw, rfl⟩ := List.mem_map.mp hv
      refine ⟨List.pairwise_map.mpr ((h.new.sorted w hw).imp_of_mem fun hx hy hxy => ?_), ?_⟩
      · exact h.rank_lt_rank hrank (List.mem_flatten.mpr ⟨w, hw, hx⟩)
          (List.mem_flatten.mpr ⟨w, hw, hy⟩) hxy
      · rw [List.length_map]
        exact h.new.size w hw)
    (fun y => by
      rw [List.nil_append]
      by_cases hy : y ∈ (s.vvNew.map fun vNew => vNew.map fun nId => OrdMap.findD nId 0 U).flatten
      · obtain ⟨i, hi, rfl⟩ := hrankOf y hy
        obtain ⟨hfind, hnew⟩ := h.find?_newEntries hi
        have hok := (h.entry _ _ hfind).new hnew
        rw [h.count_rank hrank hi, Int.toNat_of_nonneg hok.1]
        exact hok.2
      · rw [List.count_eq_zero_of_not_mem hy]
        decide)
    (fun y hy => by
      obtain ⟨i, hi, rfl⟩ := hrankOf y hy
      exact ⟨_, h.find?_loadInfos_new hi, rfl⟩)
  exact hspec

theorem Consistent.find?_loaded_new (h : Consistent env 0 s) {i : ℕ}
    (hi : i < (newEntries s.mapInfo).length) :
    OrdMap.find? (i : Int) (loaded env s U).mapInfo = some ({ CAddrInfo.default.loadInto
      ((newEntries s.mapInfo)[i]).2 with nRandomPos := i, fInTried := false }.addRefs
        ((newEntries s.mapInfo)[i]).2.nRefCount.toNat) := by
  rw [(h.loaded_spec hrank).2.2, h.find?_loadInfos_new hi, h.count_rank hrank hi]
  rfl

theorem Consistent.find?_loaded_tried (h : Consistent env 0 s) {j : ℕ}
    (hj : j < (triedEntries s.mapInfo).length) :
    OrdMap.find? (s.nNew + j) (loaded env s U).mapInfo = some { CAddrInfo.default.loadInto
      ((triedEntries s.mapInfo)[j]).2 with nRandomPos := s.nNew + j, fInTried := true } := by
  have hN : s.nNew = (newEntries s.mapInfo).length := h.nNew
  rw [(h.loaded_spec hrank).2.2, h.find?_loadInfos_tried hj,
    h.count_rank_eq_zero hrank (by omega)]
  simp

/-- Every entry of `s` is read back, under some id, as the file kept it. -/
theorem Consistent.exists_find?_loaded (h : Consistent env 0 s) {k₀ : Int} {e₀ : CAddrInfo}
    (hk₀ : OrdMap.find? k₀ s.mapInfo = some e₀) :
    ∃ k e, OrdMap.find? k (loaded env s U).mapInfo = some e ∧ e.stored = e₀.stored := by
  have hmem := OrdMap.mem_of_find?_eq_some hk₀
  cases hnew : e₀.fInTried with
  | false =>
    have hmemN : (k₀, e₀) ∈ newEntries s.mapInfo := List.mem_filter.mpr ⟨hmem, by simp [hnew]⟩
    obtain ⟨i, hi, heq⟩ := List.mem_iff_getElem.mp hmemN
    refine ⟨i, _, h.find?_loaded_new hrank hi, ?_⟩
    rw [h.stored_newEntries hi, heq]
  | true =>
    have hmemT : (k₀, e₀) ∈ triedEntries s.mapInfo := List.mem_filter.mpr ⟨hmem, hnew⟩
    obtain ⟨j, hj, heq⟩ := List.mem_iff_getElem.mp hmemT
    refine ⟨s.nNew + j, _, h.find?_loaded_tried hrank hj, ?_⟩
    rw [h.stored_triedEntries hj, heq]

/-- Every entry read back is an entry of `s` as the file kept it. -/
theorem Consistent.exists_find?_of_loaded (h : Consistent env 0 s) {k : Int} {e : CAddrInfo}
    (hk : OrdMap.find? k (loaded env s U).mapInfo = some e) :
    ∃ k₀ e₀, OrdMap.find? k₀ s.mapInfo = some e₀ ∧ e.stored = e₀.stored := by
  have hk₁ := hk
  rw [(h.loaded_spec hrank).2.2, Option.map_eq_some_iff] at hk₁
  obtain ⟨e₁, he₁, -⟩ := hk₁
  rcases h.key_loadInfos_cases he₁ with ⟨i, hi, rfl⟩ | ⟨j, hj, rfl⟩
  · rw [h.find?_loaded_new hrank hi, Option.some_inj] at hk
    subst hk
    exact ⟨_, _, (h.find?_newEntries hi).1, h.stored_newEntries hi _⟩
  · rw [h.find?_loaded_tried hrank hj, Option.some_inj] at hk
    subst hk
    exact ⟨_, _, (h.find?_triedEntries hj).1, h.stored_triedEntries hj _⟩

theorem Consistent.consistent_loaded (h : Consistent env 0 s) : Consistent env 0 (loaded env s U) where
  toIndexed := (h.loaded_spec hrank).1
  live k e hk hnew := by
    obtain ⟨k₀, e₀, hk₀, hst⟩ := h.exists_find?_of_loaded hrank hk
    have hf := congrArg CAddrInfo.fInTried hst
    have hr := congrArg CAddrInfo.nRefCount hst
    simp only [CAddrInfo.fInTried_stored, CAddrInfo.nRefCount_stored] at hf hr
    rw [hr]
    exact h.live k₀ e₀ hk₀ (hf ▸ hnew)

/-- Under every address the manager read back holds the entry `s` held, as the file
kept it. -/
theorem Consistent.find_loaded (h : Consistent env 0 s) (a : CNetAddr) :
    ((loaded env s U).find a).map (·.2.stored) = (s.find a).map (·.2.stored) := by
  have hL := (h.loaded_spec hrank).1
  cases hs : s.find a with
  | none =>
    cases hl : (loaded env s U).find a with
    | none => rfl
    | some q =>
      obtain ⟨hq, haddr⟩ := hL.find_eq_some_iff.mp hl
      obtain ⟨k₀, e₀, hk₀, hst⟩ := h.exists_find?_of_loaded hrank hq
      have hna := CAddrInfo.netAddr_eq_of_stored_eq hst
      have hfound : s.find a = some (k₀, e₀) := h.find_eq_some_iff.mpr ⟨hk₀, hna ▸ haddr⟩
      rw [hs] at hfound
      cases hfound
  | some q =>
    obtain ⟨hq, haddr⟩ := h.find_eq_some_iff.mp hs
    obtain ⟨k, e, hk, hst⟩ := h.exists_find?_loaded hrank hq
    have hna := CAddrInfo.netAddr_eq_of_stored_eq hst
    have hfound : (loaded env s U).find a = some (k, e) :=
      hL.find_eq_some_iff.mpr ⟨hk, hna.trans haddr⟩
    rw [hfound]
    simp [hst]

/-- The new buckets read back hold the addresses the buckets of `s` held. -/
theorem Consistent.vvNew_loaded (h : Consistent env 0 s) :
    (loaded env s U).vvNew.map (List.map fun nId => ((loaded env s U).info nId).netAddr) =
      s.vvNew.map (List.map fun nId => (s.info nId).netAddr) := by
  rw [(h.loaded_spec hrank).2.1, List.map_map]
  refine List.map_congr_left fun w hw => ?_
  rw [Function.comp_apply, List.map_map]
  refine List.map_congr_left fun x hx => ?_
  obtain ⟨i, hi, rfl, hrx⟩ := h.exists_rank hrank (List.mem_flatten.mpr ⟨w, hw, hx⟩)
  simp only [Function.comp_apply]
  rw [hrx]
  simp only [CAddrMan.info, OrdMap.findD, h.find?_loaded_new hrank hi, (h.find?_newEntries hi).1]
  rfl

end Ranks

/-! ## `peers.dat` read back -/

section ReadBack

open Twister.Serialize (maxSize)

variable {env : AddrEnv} {s : CAddrMan}

/-- A second routable address, all zero but its last byte. -/
def sampleAddr₂ : CAddress := ⟨⟨⟨List.replicate 15 0 ++ [1], rfl⟩, 8333⟩, 1, 1, 0⟩

/-- `addedGood` after `Add_` of a second address: one tried and one new entry. -/
def addedTwo : CAddrMan :=
  (addedGood.step sampleEnv (.add sampleAddr₂ CNetAddr.zero 0 0) []).getD addedGood

set_option maxRecDepth 4000 in
theorem reachable_addedTwo : Reachable sampleEnv addedTwo :=
  .step (.add sampleAddr₂ CNetAddr.zero 0 0) [] reachable_addedGood trivial rfl

end ReadBack

end CAddrMan

end Twister.Net
