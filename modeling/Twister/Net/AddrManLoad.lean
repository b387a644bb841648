import Twister.Net.AddrManSer
import Twister.Net.AddrManAdd

/-!
# What the reader builds from what the writer wrote

For a consistent manager, the loops of `Serialize` write every new entry in id order,
then every tried entry, then each new bucket with the index of each of its ids among
the new entries (`Consistent.serialize_eq`). Reading those bytes back, the loops of
`Unserialize` run the same number of times on the entries they wrote: each loop is a
fold of its body over the entries (`loadNew`, `loadTried`, `loadBucket`), which
`unserialize_serialize_eq` states for the whole manager.
-/

namespace Twister.Net

open Twister.Serialize (readLe readLe_leBytes writeByteVector readByteVector
  readByteVector_writeByteVector maxSize)

namespace CAddrMan

/-- The new entries of `mapInfo`, in id order. -/
def newEntries (mapInfo : List (Int × CAddrInfo)) : List (Int × CAddrInfo) :=
  mapInfo.filter fun p => !p.2.fInTried

/-- The tried entries of `mapInfo`, in id order. -/
def triedEntries (mapInfo : List (Int × CAddrInfo)) : List (Int × CAddrInfo) :=
  mapInfo.filter fun p => p.2.fInTried

/-! ## The writer -/

section Write

/-- The first loop of the writer, on entries whose reference counts tell the new ones:
it writes the new entries, and gives the `i`-th of them the index `nIds + i`. -/
theorem writeNewInfos_eq (nNew : Int) :
    ∀ (l : List (Int × CAddrInfo)) (nIds : Int) (mapUnkIds : List (Int × Int)),
    (∀ p ∈ l, p.2.nRefCount ≠ 0 ↔ p.2.fInTried = false) → (OrdMap.keys l).Nodup →
    nIds + (countNew l : Int) = nNew →
    ∃ U, writeNewInfos nNew l nIds mapUnkIds = ((newEntries l).flatMap (·.2.write 0), U) ∧
      (∀ x ∉ OrdMap.keys l, OrdMap.find? x U = OrdMap.find? x mapUnkIds) ∧
      ∀ i (hi : i < (newEntries l).length),
        OrdMap.find? ((newEntries l)[i]).1 U = some (nIds + i)
  | [], _, mapUnkIds, _, _, _ => ⟨mapUnkIds, rfl, fun _ _ => rfl, fun i hi => by simp [newEntries] at hi⟩
  | (nId, info) :: l, nIds, mapUnkIds, href, hnd, hcount => by
    have hp := href (nId, info) List.mem_cons_self
    have hl := fun p hp => href p (List.mem_cons_of_mem _ hp)
    have hnotin : nId ∉ OrdMap.keys l := (List.nodup_cons.mp hnd).1
    have hndl : (OrdMap.keys l).Nodup := (List.nodup_cons.mp hnd).2
    have hkeys : ∀ x, x ∉ OrdMap.keys ((nId, info) :: l) ↔ x ≠ nId ∧ x ∉ OrdMap.keys l := by
      intro x
      simp [OrdMap.keys]
    unfold writeNewInfos
    by_cases hdone : nIds = nNew
    · rw [if_pos hdone]
      have hzero : newEntries ((nId, info) :: l) = [] := by
        rw [← List.length_eq_zero_iff]
        have : (countNew ((nId, info) :: l) : Int) = 0 := by omega
        exact_mod_cast this
      rw [hzero]
      exact ⟨mapUnkIds, rfl, fun _ _ => rfl, fun i hi => by simp at hi⟩
    rw [if_neg hdone]
    cases hnew : info.fInTried with
    | false =>
      have hr : info.nRefCount ≠ 0 := hp.mpr hnew
      have hcons : newEntries ((nId, info) :: l) = (nId, info) :: newEntries l := by
        simp [newEntries, hnew]
      have hcount' : nIds + 1 + (countNew l : Int) = nNew := by
        have : countNew ((nId, info) :: l) = countNew l + 1 := by
          simp [countNew, hnew]
        omega
      obtain ⟨U, hU, hframe, hrank⟩ :=
        writeNewInfos_eq nNew l (nIds + 1) (OrdMap.insert nId nIds mapUnkIds) hl hndl hcount'
      refine ⟨U, ?_, fun x hx => ?_, fun i hi => ?_⟩
      · rw [if_pos hr, hU, hcons, List.flatMap_cons]
      · obtain ⟨hxk, hxl⟩ := (hkeys x).mp hx
        rw [hframe x hxl, OrdMap.find?_insert_of_ne _ _ hxk]
      · simp only [hcons] at hi ⊢
        cases i with
        | zero =>
          rw [List.getElem_cons_zero, hframe nId hnotin, OrdMap.find?_insert_self]
          simp
        | succ i =>
          rw [List.getElem_cons_succ, hrank i (by simpa using hi)]
          congr 1
          push_cast
          ring
    | true =>
      have hr : ¬info.nRefCount ≠ 0 := by simpa [hnew] using hp
      have hcons : newEntries ((nId, info) :: l) = newEntries l := by
        simp [newEntries, hnew]
      have hcount' : nIds + (countNew l : Int) = nNew := by
        have : countNew ((nId, info) :: l) = countNew l := by
          simp [countNew, hnew]
        omega
      obtain ⟨U, hU, hframe, hrank⟩ :=
        writeNewInfos_eq nNew l nIds (OrdMap.insert nId nIds mapUnkIds) hl hndl hcount'
      refine ⟨U, ?_, fun x hx => ?_, fun i hi => ?_⟩
      · rw [if_neg hr, hU, hcons]
      · obtain ⟨hxk, hxl⟩ := (hkeys x).mp hx
        rw [hframe x hxl, OrdMap.find?_insert_of_ne _ _ hxk]
      · simp only [hcons] at hi ⊢
        exact hrank i hi

/-- The second loop of the writer writes the tried entries. -/
theorem writeTriedInfos_eq (nTried : Int) :
    ∀ (l : List (Int × CAddrInfo)) (nIds : Int), nIds + (countTried l : Int) = nTried →
    writeTriedInfos nTried l nIds = (triedEntries l).flatMap (·.2.write 0)
  | [], _, _ => rfl
  | (nId, info) :: l, nIds, hcount => by
    unfold writeTriedInfos
    by_cases hdone : nIds = nTried
    · rw [if_pos hdone]
      have hzero : triedEntries ((nId, info) :: l) = [] := by
        rw [← List.length_eq_zero_iff]
        have : (countTried ((nId, info) :: l) : Int) = 0 := by omega
        exact_mod_cast this
      rw [hzero]
      rfl
    rw [if_neg hdone]
    cases htried : info.fInTried with
    | true =>
      have hcount' : nIds + 1 + (countTried l : Int) = nTried := by
        have : countTried ((nId, info) :: l) = countTried l + 1 := by
          simp [countTried, htried]
        omega
      rw [if_pos rfl, writeTriedInfos_eq nTried l (nIds + 1) hcount']
      simp [triedEntries, htried]
    | false =>
      have hcount' : nIds + (countTried l : Int) = nTried := by
        have : countTried ((nId, info) :: l) = countTried l := by
          simp [countTried, htried]
        omega
      rw [if_neg Bool.false_ne_true, writeTriedInfos_eq nTried l nIds hcount']
      simp [triedEntries, htried]

/-- The indexes the writer gives the ids of a bucket. -/
theorem writeBuckets_eq (mapUnkIds : List (Int × Int)) (vvNew : List (List Int)) :
    writeBuckets mapUnkIds vvNew =
      (vvNew.map fun vNew => vNew.map fun nId => OrdMap.findD nId 0 mapUnkIds).flatMap
        fun vIndex => writeInt 4 vIndex.length ++ vIndex.flatMap (writeInt 4) := by
  simp [writeBuckets, List.flatMap_map]

variable {env : AddrEnv} {s : CAddrMan}

/-- In a consistent manager an entry has references exactly when it is new. -/
theorem Consistent.refCount_ne_zero_iff (h : Consistent env 0 s) :
    ∀ p ∈ s.mapInfo, p.2.nRefCount ≠ 0 ↔ p.2.fInTried = false := by
  intro p hp
  have hfind : OrdMap.find? p.1 s.mapInfo = some p.2 :=
    OrdMap.find?_eq_some_of_mem (h.sorted.nodup intStrictOrder) hp
  have hok := h.entry _ _ hfind
  constructor
  · intro hr
    cases ht : p.2.fInTried with
    | false => rfl
    | true => exact absurd (hok.tried ht).1 hr
  · intro hnew
    have := h.live _ _ hfind hnew
    omega

/-- What a consistent manager writes: the header, the new entries, the tried entries, and
each new bucket as the indexes of its ids among the new entries. -/
theorem Consistent.serialize_eq (h : Consistent env 0 s) :
    ∃ U, s.serialize = [0] ++ writeByteVector s.nKey ++ writeInt 4 s.nNew ++
        writeInt 4 s.nTried ++ writeInt 4 addrmanNewBucketCount ++
        (newEntries s.mapInfo).flatMap (·.2.write 0) ++
        (triedEntries s.mapInfo).flatMap (·.2.write 0) ++ writeBuckets U s.vvNew ∧
      ∀ i (hi : i < (newEntries s.mapInfo).length),
        OrdMap.find? ((newEntries s.mapInfo)[i]).1 U = some (i : Int) := by
  obtain ⟨U, hU, -, hrank⟩ := writeNewInfos_eq s.nNew s.mapInfo 0 [] h.refCount_ne_zero_iff
    (h.sorted.nodup intStrictOrder) (by rw [h.nNew]; simp)
  refine ⟨U, ?_, fun i hi => by simpa using hrank i hi⟩
  rw [serialize, hU, writeTriedInfos_eq s.nTried s.mapInfo 0 (by rw [h.nTried]; simp)]

end Write

/-! ## The reader, on what was written -/

section Read

/-- The body of the reader's loop over the new entries, on the entries it reads, from id
`n`, the bucket count unchanged: each is read over `mapInfo[n]` and indexed. -/
def loadNew : List CAddrInfo → Int → CAddrMan → CAddrMan
  | [], _, t => t
  | info :: l, n, t =>
    let info := { (t.info n).loadInto info with nRandomPos := t.vRandom.length }
    loadNew l (n + 1) { t with
      mapInfo := OrdMap.insert n info t.mapInfo, mapAddr := OrdMap.insert info.netAddr n t.mapAddr,
      vRandom := t.vRandom ++ [n] }

/-- The body of the reader's loop over the tried entries, on the entries it reads. -/
def loadTried (env : AddrEnv) : List CAddrInfo → CAddrMan → Int → CAddrMan × Int
  | [], t, nLost => (t, nLost)
  | info :: l, t, nLost =>
    let info := CAddrInfo.default.loadInto info
    let nKBucket := getTriedBucket env t.nKey info.toCService
    let vTried := t.vvTried.getD nKBucket []
    if vTried.length < addrmanTriedBucketSize then
      let info := { info with nRandomPos := t.vRandom.length, fInTried := true }
      loadTried env l { t with
        vRandom := t.vRandom ++ [t.nIdCount], mapInfo := OrdMap.insert t.nIdCount info t.mapInfo,
        mapAddr := OrdMap.insert info.netAddr t.nIdCount t.mapAddr,
        vvTried := t.vvTried.set nKBucket (vTried ++ [t.nIdCount]), nIdCount := t.nIdCount + 1 }
        nLost
    else loadTried env l t (nLost + 1)

/-- The body of the reader's loop over the indexes of new bucket `b`, the bucket count
unchanged. -/
def loadBucket (b : ℕ) : List Int → CAddrMan → CAddrMan
  | [], t => t
  | nIndex :: l, t =>
    let info := t.info nIndex
    if info.nRefCount < addrmanNewBucketsPerAddress then
      loadBucket b l { t with
        mapInfo := OrdMap.insert nIndex { info with nRefCount := info.nRefCount + 1 } t.mapInfo,
        vvNew := t.vvNew.set b (OrdSet.insert nIndex (t.vvNew.getD b [])) }
    else loadBucket b l { t with mapInfo := OrdMap.insert nIndex info t.mapInfo }

/-- The reader's loop over the new buckets, from bucket `b`. -/
def loadBuckets : List (List Int) → ℕ → CAddrMan → CAddrMan
  | [], _, t => t
  | vIndex :: vv, b, t => loadBuckets vv (b + 1) (loadBucket b vIndex t)

theorem readNewInfos_eq (env : AddrEnv) :
    ∀ (l : List CAddrInfo) (n : Int) (t : CAddrMan) (rest : Bytes), (∀ info ∈ l, info.Storable) →
    readNewInfos env addrmanNewBucketCount l.length n t (l.flatMap (·.write 0) ++ rest) =
      some (loadNew l n t, rest)
  | [], _, _, _, _ => rfl
  | info :: l, n, t, rest, hs => by
    rw [List.length_cons, readNewInfos, List.flatMap_cons, List.append_assoc,
      (t.info n).read_write (hs info List.mem_cons_self)]
    simp only [Option.bind_eq_bind, Option.bind_some]
    rw [if_neg (not_not.mpr rfl)]
    exact readNewInfos_eq env l (n + 1) _ rest fun i hi => hs i (List.mem_cons_of_mem _ hi)

theorem readTriedInfos_eq (env : AddrEnv) :
    ∀ (l : List CAddrInfo) (t : CAddrMan) (nLost : Int) (rest : Bytes), (∀ info ∈ l, info.Storable) →
    readTriedInfos env l.length t nLost (l.flatMap (·.write 0) ++ rest) =
      some ((loadTried env l t nLost).1, (loadTried env l t nLost).2, rest)
  | [], _, _, _, _ => rfl
  | info :: l, t, nLost, rest, hs => by
    have hl : ∀ i ∈ l, i.Storable := fun i hi => hs i (List.mem_cons_of_mem _ hi)
    rw [List.length_cons, readTriedInfos, List.flatMap_cons, List.append_assoc,
      CAddrInfo.default.read_write (hs info List.mem_cons_self)]
    simp only [Option.bind_eq_bind, Option.bind_some, loadTried]
    split_ifs
    · exact readTriedInfos_eq env l _ nLost rest hl
    · exact readTriedInfos_eq env l t (nLost + 1) rest hl

/-- An index of a bucket, as `int`. -/
def IntRange (x : Int) : Prop := -2 ^ 31 ≤ x ∧ x < 2 ^ 31

theorem readBucket_eq (b : ℕ) :
    ∀ (l : List Int) (t : CAddrMan) (rest : Bytes), (∀ x ∈ l, IntRange x) →
    readBucket addrmanNewBucketCount b l.length t (l.flatMap (writeInt 4) ++ rest) =
      some (loadBucket b l t, rest)
  | [], _, _, _ => rfl
  | x :: l, t, rest, hl => by
    have hx := hl x List.mem_cons_self
    have hl' : ∀ y ∈ l, IntRange y := fun y hy => hl y (List.mem_cons_of_mem _ hy)
    rw [List.length_cons, readBucket, List.flatMap_cons, List.append_assoc,
      readInt_writeInt (by decide) hx.1 hx.2]
    simp only [Option.bind_eq_bind, Option.bind_some, loadBucket]
    by_cases hr : (t.info x).nRefCount < addrmanNewBucketsPerAddress
    · rw [if_pos ⟨trivial, hr⟩, if_pos hr]
      exact readBucket_eq b l _ rest hl'
    · rw [if_neg fun hc => hr hc.2, if_neg hr]
      exact readBucket_eq b l _ rest hl'

theorem readBuckets_eq :
    ∀ (vv : List (List Int)) (b : ℕ) (t : CAddrMan) (rest : Bytes),
    (∀ v ∈ vv, v.length < 2 ^ 31 ∧ ∀ x ∈ v, IntRange x) →
    readBuckets addrmanNewBucketCount vv.length b t
        (vv.flatMap (fun v => writeInt 4 v.length ++ v.flatMap (writeInt 4)) ++ rest) =
      some (loadBuckets vv b t, rest)
  | [], _, _, _, _ => rfl
  | v :: vv, b, t, rest, hvv => by
    obtain ⟨hlen, hv⟩ := hvv v List.mem_cons_self
    have hvv' : ∀ w ∈ vv, w.length < 2 ^ 31 ∧ ∀ x ∈ w, IntRange x :=
      fun w hw => hvv w (List.mem_cons_of_mem _ hw)
    rw [List.length_cons, readBuckets, List.flatMap_cons, List.append_assoc, List.append_assoc,
      readInt_writeInt (by decide) (by omega) (by omega)]
    simp only [Option.bind_eq_bind, Option.bind_some, Int.toNat_natCast]
    rw [readBucket_eq b v t _ hv]
    simp only [Option.bind_some]
    exact readBuckets_eq vv (b + 1) _ rest hvv'

end Read

/-! ## The whole manager -/

section RoundTrip

variable {env : AddrEnv} {s : CAddrMan}

/-- What the reader's loops over the entries build from the bytes a manager `s` wrote. -/
def loadInfos (env : AddrEnv) (s : CAddrMan) : CAddrMan :=
  let t := loadNew ((newEntries s.mapInfo).map (·.2)) 0
    { empty s.nKey with nNew := s.nNew, nTried := s.nTried }
  let r := loadTried env ((triedEntries s.mapInfo).map (·.2)) { t with nIdCount := s.nNew } 0
  { r.1 with nTried := r.1.nTried - r.2 }

/-- What `Unserialize` builds from the bytes a manager `s` wrote, `U` the indexes the
writer gave its new ids. -/
def loaded (env : AddrEnv) (s : CAddrMan) (U : List (Int × Int)) : CAddrMan :=
  loadBuckets (s.vvNew.map fun vNew => vNew.map fun nId => OrdMap.findD nId 0 U) 0
    (loadInfos env s)

/-- An id of a new bucket is that of some new entry. -/
theorem Consistent.index_of_mem_new (h : Consistent env 0 s) {vNew : List Int} {y : Int}
    (hv : vNew ∈ s.vvNew) (hy : y ∈ vNew) :
    ∃ i, ∃ hi : i < (newEntries s.mapInfo).length, ((newEntries s.mapInfo)[i]).1 = y := by
  obtain ⟨b, -, rfl⟩ := Buckets.exists_getD_of_mem hv
  obtain ⟨info, hinfo, hnew, -⟩ := h.new.find?_of_mem hy rfl
  have hmem : (y, info) ∈ newEntries s.mapInfo :=
    List.mem_filter.mpr ⟨OrdMap.mem_of_find?_eq_some hinfo, by simp [hnew]⟩
  obtain ⟨i, hi, heq⟩ := List.mem_iff_getElem.mp hmem
  exact ⟨i, hi, by rw [heq]⟩

/-- Reading back what a consistent manager wrote gives `loaded`, provided the key is a
vector the reader accepts and every entry's signed fields fit their widths. -/
theorem Consistent.unserialize_serialize_eq (h : Consistent env 0 s)
    (hstore : ∀ nId info, OrdMap.find? nId s.mapInfo = some info → info.Storable)
    (hkey : s.nKey.length ≤ maxSize) :
    ∃ U, (∀ i (hi : i < (newEntries s.mapInfo).length),
        OrdMap.find? ((newEntries s.mapInfo)[i]).1 U = some (i : Int)) ∧
      unserialize env s.serialize = some (loaded env s U) := by
  obtain ⟨U, hser, hrank⟩ := h.serialize_eq
  refine ⟨U, hrank, ?_⟩
  have hnd := h.sorted.nodup intStrictOrder
  have hcap := h.length_vRandom_le
  have hlen := h.length_vRandom
  have hNr : 0 ≤ s.nNew ∧ s.nNew < 2 ^ 31 := by
    rw [h.nNew]
    omega
  have hTr : 0 ≤ s.nTried ∧ s.nTried < 2 ^ 31 := by
    rw [h.nTried]
    omega
  have hN : s.nNew = ((newEntries s.mapInfo).map (·.2)).length := by
    rw [h.nNew, List.length_map]
    rfl
  have hT : s.nTried = ((triedEntries s.mapInfo).map (·.2)).length := by
    rw [h.nTried, List.length_map]
    rfl
  have hstorable : ∀ l : List (Int × CAddrInfo), l.Sublist s.mapInfo →
      ∀ info ∈ l.map (·.2), info.Storable := by
    intro l hl info hinfo
    obtain ⟨p, hp, rfl⟩ := List.mem_map.mp hinfo
    exact hstore p.1 p.2 (OrdMap.find?_eq_some_of_mem hnd (hl.subset hp))
  have hidx : ∀ v ∈ s.vvNew.map (fun vNew => vNew.map fun nId => OrdMap.findD nId 0 U),
      v.length < 2 ^ 31 ∧ ∀ x ∈ v, IntRange x := by
    intro v hv
    obtain ⟨w, hw, rfl⟩ := List.mem_map.mp hv
    refine ⟨by rw [List.length_map]; have := h.new.size w hw; simp only [addrmanNewBucketSize] at this; omega,
      fun x hx => ?_⟩
    obtain ⟨y, hy, rfl⟩ := List.mem_map.mp hx
    obtain ⟨i, hi, rfl⟩ := h.index_of_mem_new hw hy
    have hlt : (newEntries s.mapInfo).length ≤ 20480 := by
      have : (newEntries s.mapInfo).length = countNew s.mapInfo := rfl
      omega
    rw [OrdMap.findD, hrank i hi, Option.getD_some]
    exact ⟨by omega, by omega⟩
  have hbuckets : (s.vvNew.map fun vNew => vNew.map fun nId => OrdMap.findD nId 0 U).length =
      (addrmanNewBucketCount : Int).toNat := by
    rw [List.length_map, h.new.length]
    rfl
  have hhead : readLe 1 ([0] ++ writeByteVector s.nKey ++ writeInt 4 s.nNew ++ writeInt 4 s.nTried ++
      writeInt 4 addrmanNewBucketCount ++ (newEntries s.mapInfo).flatMap (·.2.write 0) ++
      (triedEntries s.mapInfo).flatMap (·.2.write 0) ++ writeBuckets U s.vvNew) =
      some (0, writeByteVector s.nKey ++ writeInt 4 s.nNew ++ writeInt 4 s.nTried ++
        writeInt 4 addrmanNewBucketCount ++ (newEntries s.mapInfo).flatMap (·.2.write 0) ++
        (triedEntries s.mapInfo).flatMap (·.2.write 0) ++ writeBuckets U s.vvNew) := by
    simp [readLe, Twister.Chain.leValue]
  rw [hser, unserialize, hhead]
  simp only [Option.bind_eq_bind, Option.bind_some, List.append_assoc]
  rw [readByteVector_writeByteVector hkey]
  simp only [Option.bind_some]
  rw [readInt_writeInt (by decide) (by omega) hNr.2]
  simp only [Option.bind_some]
  rw [readInt_writeInt (by decide) (by omega) hTr.2]
  simp only [Option.bind_some]
  rw [readInt_writeInt (by decide) (by decide) (by decide)]
  simp only [Option.bind_some]
  have hNn : s.nNew.toNat = ((newEntries s.mapInfo).map (·.2)).length := by
    rw [hN, Int.toNat_natCast]
  have hTn : s.nTried.toNat = ((triedEntries s.mapInfo).map (·.2)).length := by
    rw [hT, Int.toNat_natCast]
  have hNb : (newEntries s.mapInfo).flatMap (·.2.write 0) =
      ((newEntries s.mapInfo).map (·.2)).flatMap (·.write 0) := by
    rw [List.flatMap_map]
  have hTb : (triedEntries s.mapInfo).flatMap (·.2.write 0) =
      ((triedEntries s.mapInfo).map (·.2)).flatMap (·.write 0) := by
    rw [List.flatMap_map]
  rw [hNn, hNb, readNewInfos_eq env _ 0 _ _ (hstorable (newEntries s.mapInfo) List.filter_sublist)]
  simp only [Option.bind_some]
  rw [hTn, hTb, readTriedInfos_eq env _ _ 0 _ (hstorable (triedEntries s.mapInfo) List.filter_sublist)]
  simp only [Option.bind_some]
  rw [← hbuckets, writeBuckets_eq, ← List.append_nil (List.flatMap _ _),
    readBuckets_eq _ 0 _ [] hidx]
  simp only [Option.bind_some]
  rfl

end RoundTrip

end CAddrMan

end Twister.Net
