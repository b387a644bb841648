import Twister.Serialize

/-!
# The address manager

`CAddrMan` (addrman.h, addrman.cpp) keeps the peer addresses a node has heard of.
Entries not yet connected to live in 256 "new" buckets, each a `std::set` of ids, and
one entry may sit in up to four of them; entries a connection succeeded with move to
64 "tried" buckets, each a `std::vector` of ids. Around them are `mapInfo` (id to
statistics), `mapAddr` (address to id), `vRandom` (all ids, each entry recording its
position there in `nRandomPos`) and the counters `nNew` and `nTried`.

The model follows the source statement by statement. Maps are sorted association
lists (`OrdMap`), a `std::set` is a sorted list, and `int` and `int64` values are
integers. Each `assert` of the source is a branch to `none`. `GetRandInt(n)` takes
the next raw value of a list of draws modulo `n`, which is how `GetRand` computes it;
an exhausted list reads as zero. `IsRoutable`, `GetGroup` and `Hash` are parameters,
and the current adjusted time is an argument of the calls that read it.
-/

namespace Twister.Net

open Twister.Chain (leBytes)
open Twister.Serialize (writeByteVector)

/-! ## Constants of addrman.h -/

/-- `ADDRMAN_TRIED_BUCKET_COUNT`. -/
def addrmanTriedBucketCount : Nat := 64
/-- `ADDRMAN_TRIED_BUCKET_SIZE`. -/
def addrmanTriedBucketSize : Nat := 64
/-- `ADDRMAN_NEW_BUCKET_COUNT`. -/
def addrmanNewBucketCount : Nat := 256
/-- `ADDRMAN_NEW_BUCKET_SIZE`. -/
def addrmanNewBucketSize : Nat := 64
/-- `ADDRMAN_TRIED_BUCKETS_PER_GROUP`. -/
def addrmanTriedBucketsPerGroup : Nat := 4
/-- `ADDRMAN_NEW_BUCKETS_PER_SOURCE_GROUP`. -/
def addrmanNewBucketsPerSourceGroup : Nat := 32
/-- `ADDRMAN_NEW_BUCKETS_PER_ADDRESS`. -/
def addrmanNewBucketsPerAddress : Int := 4
/-- `ADDRMAN_TRIED_ENTRIES_INSPECT_ON_EVICT`. -/
def addrmanTriedEntriesInspectOnEvict : Nat := 4
/-- `ADDRMAN_HORIZON_DAYS`. -/
def addrmanHorizonDays : Int := 30
/-- `ADDRMAN_RETRIES`. -/
def addrmanRetries : Int := 3
/-- `ADDRMAN_MAX_FAILURES`. -/
def addrmanMaxFailures : Int := 10
/-- `ADDRMAN_MIN_FAIL_DAYS`. -/
def addrmanMinFailDays : Int := 7
/-- `ADDRMAN_GETADDR_MAX_PCT` (the `[MF]` value of 100). -/
def addrmanGetaddrMaxPct : Nat := 100
/-- `ADDRMAN_GETADDR_MAX`. -/
def addrmanGetaddrMax : Nat := 2500

/-! ## Addresses -/

/-- `CNetAddr`: the sixteen bytes of an IPv6 address (an IPv4 address mapped into
it), in network order. -/
structure CNetAddr where
  ip : Bytes
  length_ip : ip.length = 16
  deriving DecidableEq

/-- `operator<` of `CNetAddr`: `memcmp` of the sixteen bytes, the order of `mapAddr`. -/
instance : LT CNetAddr := ⟨fun a b => a.ip < b.ip⟩

instance : DecidableRel (α := CNetAddr) (· < ·) := fun a b =>
  inferInstanceAs (Decidable (a.ip < b.ip))

theorem cNetAddrStrictOrder : OrdMap.StrictOrder CNetAddr :=
  ⟨fun a => bytesStrictOrder.irrefl a.ip, fun hab hbc => bytesStrictOrder.trans hab hbc,
    fun a b hab hba => by
      cases a
      cases b
      simp only [CNetAddr.mk.injEq]
      exact bytesStrictOrder.total _ _ hab hba⟩

/-- `CNetAddr::Init`: all sixteen bytes zero. -/
def CNetAddr.zero : CNetAddr := ⟨List.replicate 16 0, rfl⟩

/-- `CService`: an address and a port, compared on both by `operator==`. -/
structure CService where
  netAddr : CNetAddr
  port : UInt16
  deriving DecidableEq

/-- `CService::GetKey`: the sixteen address bytes, then the port high byte first. -/
def CService.getKey (addr : CService) : Bytes :=
  addr.netAddr.ip ++ [(addr.port / 0x100).toUInt8, (addr.port &&& 0x0FF).toUInt8]

/-- `CAddress`: a service, the services it offers, when it was last seen (`unsigned
int`) and, in memory only, when we last tried it. -/
structure CAddress extends CService where
  nServices : UInt64
  nTime : UInt32
  nLastTry : Int
  deriving DecidableEq

/-- `CAddrInfo`: an entry of the address manager. -/
structure CAddrInfo extends CAddress where
  source : CNetAddr
  nLastSuccess : Int
  nAttempts : Int
  nRefCount : Int
  fInTried : Bool
  nRandomPos : Int
  deriving DecidableEq

/-- `CAddrInfo::Init` over a copy of an address and its source. -/
def CAddrInfo.ofAddress (addrIn : CAddress) (addrSource : CNetAddr) : CAddrInfo :=
  { addrIn with nLastTry := 0, source := addrSource, nLastSuccess := 0, nAttempts := 0,
                nRefCount := 0, fInTried := false, nRandomPos := -1 }

/-- `CAddrInfo()`: the default entry `operator[]` of `mapInfo` creates, over
`CAddress()` (`NODE_NETWORK` services, time 100000000). -/
def CAddrInfo.default : CAddrInfo :=
  CAddrInfo.ofAddress ⟨⟨CNetAddr.zero, 0⟩, 1, 100000000, 0⟩ CNetAddr.zero

/-- The conversion of an `int64` to `unsigned int`, modulo `2 ^ 32`. -/
def uint32OfInt (n : Int) : UInt32 := UInt32.ofInt n

/-- The conversion of an `int` or a `size_t` to `unsigned int`, modulo `2 ^ 32`. -/
def unsignedOfInt (n : Int) : Nat := (n % 4294967296).toNat

/-! ## The environment -/

/-- What the address manager calls outside addrman.cpp: `CNetAddr::IsRoutable`,
`CNetAddr::GetGroup`, and the low 64 bits of `Hash` (double SHA-256) of a stream. -/
structure AddrEnv where
  isRoutable : CNetAddr → Bool
  getGroup : CNetAddr → Bytes
  hash64 : Bytes → UInt64

/-- `CAddrInfo::GetTriedBucket(nKey)`: the full key picks one of four buckets of the
address's group, the group and that choice pick the bucket. It reads only the
service of the entry. -/
def getTriedBucket (env : AddrEnv) (nKey : Bytes) (addr : CService) : Nat :=
  let hash1 := env.hash64 (writeByteVector nKey ++ writeByteVector addr.getKey)
  let hash2 := env.hash64 (writeByteVector nKey ++ writeByteVector (env.getGroup addr.netAddr) ++
    leBytes 8 (hash1.toNat % addrmanTriedBucketsPerGroup))
  hash2.toNat % addrmanTriedBucketCount

/-- `CAddrInfo::GetNewBucket(nKey, src)`: the two groups pick one of 32 buckets of the
source's group, the source group and that choice pick the bucket. -/
def getNewBucket (env : AddrEnv) (nKey : Bytes) (addr src : CNetAddr) : Nat :=
  let vchGroupKey := env.getGroup addr
  let vchSourceGroupKey := env.getGroup src
  let hash1 := env.hash64 (writeByteVector nKey ++ writeByteVector vchGroupKey ++
    writeByteVector vchSourceGroupKey)
  let hash2 := env.hash64 (writeByteVector nKey ++ writeByteVector vchSourceGroupKey ++
    leBytes 8 (hash1.toNat % addrmanNewBucketsPerSourceGroup))
  hash2.toNat % addrmanNewBucketCount

/-- `CAddrInfo::IsTerrible(nNow)`. -/
def CAddrInfo.isTerrible (info : CAddrInfo) (nNow : Int) : Bool :=
  if info.nLastTry ≠ 0 ∧ info.nLastTry ≥ nNow - 60 then false
  else if (info.nTime.toNat : Int) > nNow + 10 * 60 then true
  else if info.nTime = 0 ∨ nNow - info.nTime.toNat > addrmanHorizonDays * 86400 then true
  else if info.nLastSuccess = 0 ∧ info.nAttempts ≥ addrmanRetries then true
  else if nNow - info.nLastSuccess > addrmanMinFailDays * 86400 ∧
      info.nAttempts ≥ addrmanMaxFailures then true
  else false

/-- `GetRandInt(nMax)`: the next raw draw modulo `nMax`, and the draws left. -/
def getRandInt (nMax : Nat) : List Nat → Nat × List Nat
  | [] => (0, [])
  | r :: rs => (r % nMax, rs)

/-! ## The state -/

/-- The fields of `CAddrMan`. -/
structure CAddrMan where
  nKey : Bytes
  nIdCount : Int
  mapInfo : List (Int × CAddrInfo)
  mapAddr : List (CNetAddr × Int)
  vRandom : List Int
  nTried : Int
  vvTried : List (List Int)
  nNew : Int
  vvNew : List (List Int)

/-- `CAddrMan()`, with the 32 random bytes of its key given. -/
def CAddrMan.empty (nKey : Bytes) : CAddrMan :=
  ⟨nKey, 0, [], [], [], 0, List.replicate addrmanTriedBucketCount [], 0,
    List.replicate addrmanNewBucketCount []⟩

namespace CAddrMan

/-- `mapInfo[nId]` read through `operator[]`. -/
def info (s : CAddrMan) (nId : Int) : CAddrInfo := OrdMap.findD nId CAddrInfo.default s.mapInfo

/-- `Find(addr, &nId)`: the id `mapAddr` gives and its entry, when both exist. -/
def find (s : CAddrMan) (addr : CNetAddr) : Option (Int × CAddrInfo) :=
  match OrdMap.find? addr s.mapAddr with
  | none => none
  | some nId => (OrdMap.find? nId s.mapInfo).map fun info => (nId, info)

/-- `Create(addr, addrSource, &nId)`: a fresh id, its entry at the end of `vRandom`. -/
def create (s : CAddrMan) (addr : CAddress) (addrSource : CNetAddr) : CAddrMan × Int :=
  let nId := s.nIdCount
  let info := { CAddrInfo.ofAddress addr addrSource with nRandomPos := s.vRandom.length }
  ({ s with nIdCount := nId + 1, mapInfo := OrdMap.insert nId info s.mapInfo,
            mapAddr := OrdMap.insert addr.netAddr nId s.mapAddr,
            vRandom := s.vRandom ++ [nId] }, nId)

/-- `mapInfo[nId].nRandomPos = nRandomPos`. -/
def setRandomPos (nId : Int) (nRandomPos : Nat) (mapInfo : List (Int × CAddrInfo)) :
    List (Int × CAddrInfo) :=
  OrdMap.modify nId CAddrInfo.default (fun info => { info with nRandomPos := nRandomPos }) mapInfo

/-- `SwapRandom(nRndPos1, nRndPos2)`; its three asserts are one `none`. -/
def swapRandom (s : CAddrMan) (nRndPos1 nRndPos2 : Nat) : Option CAddrMan :=
  if nRndPos1 = nRndPos2 then some s
  else if ¬ (nRndPos1 < s.vRandom.length ∧ nRndPos2 < s.vRandom.length) then none
  else
    let nId1 := s.vRandom.getD nRndPos1 0
    let nId2 := s.vRandom.getD nRndPos2 0
    if ¬ (OrdMap.contains nId1 s.mapInfo ∧ OrdMap.contains nId2 s.mapInfo) then none
    else some { s with
      mapInfo := setRandomPos nId2 nRndPos1 (setRandomPos nId1 nRndPos2 s.mapInfo)
      vRandom := (s.vRandom.set nRndPos1 nId2).set nRndPos2 nId1 }

/-- The loop of `SelectTried` from position `i`, with `k` rounds left: exchange
position `i` with a random later one and keep the entry of least `nLastSuccess` seen,
with the position it was drawn from. -/
def selectTriedLoop (mapInfo : List (Int × CAddrInfo)) :
    Nat → Nat → List Int → Int → Int → List Nat → Option (List Int × Int × List Nat)
  | 0, _, vTried, _, nOldestPos, rs => some (vTried, nOldestPos, rs)
  | k + 1, i, vTried, nOldest, nOldestPos, rs =>
    let (r, rs) := getRandInt (vTried.length - i) rs
    let nPos := r + i
    let nTemp := vTried.getD nPos 0
    let vTried := (vTried.set nPos (vTried.getD i 0)).set i nTemp
    if nOldest ≠ -1 ∧ ¬ OrdMap.contains nTemp mapInfo then none
    else if nOldest = -1 ∨
        (OrdMap.findD nTemp CAddrInfo.default mapInfo).nLastSuccess <
          (OrdMap.findD nOldest CAddrInfo.default mapInfo).nLastSuccess then
      selectTriedLoop mapInfo k (i + 1) vTried nTemp nPos rs
    else selectTriedLoop mapInfo k (i + 1) vTried nOldest nOldestPos rs

/-- `SelectTried(nKBucket)`: the position of the tried bucket to evict, after the
first entries of the bucket were shuffled. -/
def selectTried (s : CAddrMan) (nKBucket : Nat) (rs : List Nat) :
    Option (CAddrMan × Int × List Nat) :=
  let vTried := s.vvTried.getD nKBucket []
  match selectTriedLoop s.mapInfo (min addrmanTriedEntriesInspectOnEvict vTried.length) 0 vTried
      (-1) (-1) rs with
  | none => none
  | some (vTried, nOldestPos, rs) =>
    some ({ s with vvTried := s.vvTried.set nKBucket vTried }, nOldestPos, rs)

/-- The first loop of `ShrinkNew`: the first entry of the bucket, in increasing id
order, that `IsTerrible`; each entry looked at must be in `mapInfo`. -/
def findTerrible (mapInfo : List (Int × CAddrInfo)) (nNow : Int) :
    List Int → Option (Option Int)
  | [] => some none
  | nId :: vNew =>
    match OrdMap.find? nId mapInfo with
    | none => none
    | some info => if info.isTerrible nNow then some (some nId) else findTerrible mapInfo nNow vNew

/-- The second loop of `ShrinkNew`: among the entries at the drawn positions `n`, the
first one of least `nTime`. -/
def selectOldest (mapInfo : List (Int × CAddrInfo)) (n : List Nat) :
    Nat → List Int → Int → Option Int
  | _, [], nOldest => some nOldest
  | nI, nId :: vNew, nOldest =>
    if nI ∈ n then
      if nOldest ≠ -1 ∧ ¬ OrdMap.contains nId mapInfo then none
      else if nOldest = -1 ∨
          (OrdMap.findD nId CAddrInfo.default mapInfo).nTime <
            (OrdMap.findD nOldest CAddrInfo.default mapInfo).nTime then
        selectOldest mapInfo n (nI + 1) vNew nId
      else selectOldest mapInfo n (nI + 1) vNew nOldest
    else selectOldest mapInfo n (nI + 1) vNew nOldest

/-- The block both paths of `ShrinkNew` end with: `nId` loses one reference and leaves
the bucket; at its last reference the entry is swapped to the end of `vRandom`, popped,
and erased from `mapAddr` and `mapInfo`. -/
def removeFromNew (s : CAddrMan) (nUBucket : Nat) (nId : Int) : Option CAddrMan :=
  let info := s.info nId
  let info := { info with nRefCount := info.nRefCount - 1 }
  let s := { s with mapInfo := OrdMap.insert nId info s.mapInfo }
  let erase := fun (s : CAddrMan) =>
    { s with vvNew := s.vvNew.set nUBucket ((s.vvNew.getD nUBucket []).erase nId) }
  if info.nRefCount = 0 then
    match s.swapRandom (unsignedOfInt info.nRandomPos) (unsignedOfInt (s.vRandom.length - 1)) with
    | none => none
    | some s => some (erase { s with
        vRandom := s.vRandom.dropLast, mapAddr := OrdMap.erase info.netAddr s.mapAddr,
        mapInfo := OrdMap.erase nId s.mapInfo, nNew := s.nNew - 1 })
  else some (erase s)

/-- `ShrinkNew(nUBucket)`: drop a terrible entry of the bucket if there is one, else the
oldest of four drawn at random. Returns the source's 0 or 1 and the draws left. -/
def shrinkNew (nNow : Int) (s : CAddrMan) (nUBucket : Nat) (rs : List Nat) :
    Option (CAddrMan × Nat × List Nat) :=
  if ¬ nUBucket < s.vvNew.length then none
  else
    let vNew := s.vvNew.getD nUBucket []
    match findTerrible s.mapInfo nNow vNew with
    | none => none
    | some (some nId) => (s.removeFromNew nUBucket nId).map fun s => (s, 0, rs)
    | some none =>
      let (n0, rs) := getRandInt vNew.length rs
      let (n1, rs) := getRandInt vNew.length rs
      let (n2, rs) := getRandInt vNew.length rs
      let (n3, rs) := getRandInt vNew.length rs
      match selectOldest s.mapInfo [n0, n1, n2, n3] 0 vNew (-1) with
      | none => none
      | some nOldest =>
        if ¬ OrdMap.contains nOldest s.mapInfo then none
        else (s.removeFromNew nUBucket nOldest).map fun s => (s, 1, rs)

/-- The loop of `MakeTried` over all new buckets: erase `nId`, one reference fewer for
each bucket it was in. -/
def eraseFromNew (nId : Int) : List (List Int) → Int → List (List Int) × Int
  | [], nRefCount => ([], nRefCount)
  | vNew :: vvNew, nRefCount =>
    let nRefCount := if nId ∈ vNew then nRefCount - 1 else nRefCount
    let (vvNew, nRefCount) := eraseFromNew nId vvNew nRefCount
    (vNew.erase nId :: vvNew, nRefCount)

/-- `MakeTried(info, nId, nOrigin)`: move `nId` from the new buckets to its tried bucket;
when that is full, the entry at the position `SelectTried` returns goes back to a new
bucket (its own source's, or `nOrigin` when that one is full). -/
def makeTried (env : AddrEnv) (s : CAddrMan) (nId : Int) (nOrigin : Nat) (rs : List Nat) :
    Option (CAddrMan × List Nat) :=
  if (s.vvNew.getD nOrigin []).count nId ≠ 1 then none
  else
    let info := s.info nId
    let (vvNew, nRefCount) := eraseFromNew nId s.vvNew info.nRefCount
    let info := { info with nRefCount := nRefCount }
    let s := { s with vvNew := vvNew, nNew := s.nNew - 1,
                      mapInfo := OrdMap.insert nId info s.mapInfo }
    if nRefCount ≠ 0 then none
    else
      let nKBucket := getTriedBucket env s.nKey info.toCService
      let vTried := s.vvTried.getD nKBucket []
      if vTried.length < addrmanTriedBucketSize then
        some ({ s with vvTried := s.vvTried.set nKBucket (vTried ++ [nId]), nTried := s.nTried + 1,
                       mapInfo := OrdMap.insert nId { info with fInTried := true } s.mapInfo }, rs)
      else
        match s.selectTried nKBucket rs with
        | none => none
        | some (s, nPos, rs) =>
          let vTried := s.vvTried.getD nKBucket []
          let nOld := vTried.getD nPos.toNat 0
          if ¬ OrdMap.contains nOld s.mapInfo then none
          else
            let infoOld := s.info nOld
            let nUBucket := getNewBucket env s.nKey infoOld.netAddr infoOld.source
            let infoOld := { infoOld with fInTried := false, nRefCount := 1 }
            let s := { s with mapInfo := OrdMap.insert nOld infoOld s.mapInfo }
            let vNew := s.vvNew.getD nUBucket []
            let vvNew :=
              if vNew.length < addrmanNewBucketSize then s.vvNew.set nUBucket (OrdSet.insert nOld vNew)
              else s.vvNew.set nOrigin (OrdSet.insert nOld (s.vvNew.getD nOrigin []))
            some ({ s with vvNew := vvNew, nNew := s.nNew + 1,
                           vvTried := s.vvTried.set nKBucket (vTried.set nPos.toNat nId),
                           mapInfo := OrdMap.modify nId CAddrInfo.default
                             (fun info => { info with fInTried := true }) s.mapInfo }, rs)

/-- `Good_(addr, nTime)`: record a successful connection, and move a new entry to the
tried table, taking the first bucket holding it from a random start. -/
def good (env : AddrEnv) (s : CAddrMan) (addr : CService) (nTime : Int) (rs : List Nat) :
    Option CAddrMan :=
  match s.find addr.netAddr with
  | none => some s
  | some (nId, info) =>
    if info.toCService ≠ addr then some s
    else
      let info := { info with nLastSuccess := nTime, nLastTry := nTime,
                              nTime := uint32OfInt nTime, nAttempts := 0 }
      let s := { s with mapInfo := OrdMap.insert nId info s.mapInfo }
      if info.fInTried then some s
      else
        let (nRnd, rs) := getRandInt s.vvNew.length rs
        match (List.range s.vvNew.length).find?
            (fun n => nId ∈ s.vvNew.getD ((n + nRnd) % s.vvNew.length) []) with
        | none => some s
        | some n => (s.makeTried env nId ((n + nRnd) % s.vvNew.length) rs).map Prod.fst

/-- The end of `Add_`: `nId` joins the new bucket of the source unless it is there,
after `ShrinkNew` made room in a full bucket. -/
def addToNew (env : AddrEnv) (nNow : Int) (s : CAddrMan) (nId : Int) (source : CNetAddr)
    (rs : List Nat) : Option CAddrMan :=
  let info := s.info nId
  let nUBucket := getNewBucket env s.nKey info.netAddr source
  if nId ∈ s.vvNew.getD nUBucket [] then some s
  else
    let info := { info with nRefCount := info.nRefCount + 1 }
    let s := { s with mapInfo := OrdMap.insert nId info s.mapInfo }
    let shrunk :=
      if (s.vvNew.getD nUBucket []).length = addrmanNewBucketSize then
        (s.shrinkNew nNow nUBucket rs).map Prod.fst
      else some s
    shrunk.map fun s =>
      { s with vvNew := s.vvNew.set nUBucket (OrdSet.insert nId (s.vvNew.getD nUBucket [])) }

/-- The time `Add_` gives a known entry ("periodically update nTime"): the address's
time less the penalty, when the address is newer by more than the update interval, an
hour for a node seen within the last day and a day otherwise. -/
def updateTime (nNow : Int) (info : CAddrInfo) (addr : CAddress) (nTimePenalty : Int) : UInt32 :=
  let fCurrentlyOnline := nNow - addr.nTime.toNat < 24 * 60 * 60
  let nUpdateInterval : Int := if fCurrentlyOnline then 60 * 60 else 24 * 60 * 60
  if addr.nTime ≠ 0 ∧ (info.nTime = 0 ∨
      (info.nTime.toNat : Int) < addr.nTime.toNat - nUpdateInterval - nTimePenalty) then
    uint32OfInt (max 0 (addr.nTime.toNat - nTimePenalty))
  else info.nTime

/-- `Add_(addr, source, nTimePenalty)` at adjusted time `nNow`: update a known entry
(and maybe give it one more new bucket, with probability halving per bucket it has),
or create one. Returns whether the address was new. -/
def add (env : AddrEnv) (nNow : Int) (s : CAddrMan) (addr : CAddress) (source : CNetAddr)
    (nTimePenalty : Int) (rs : List Nat) : Option (CAddrMan × Bool) :=
  if !env.isRoutable addr.netAddr then some (s, false)
  else
    match s.find addr.netAddr with
    | some (nId, info) =>
      let info := { info with nTime := updateTime nNow info addr nTimePenalty }
      let info := { info with nServices := info.nServices ||| addr.nServices }
      let s := { s with mapInfo := OrdMap.insert nId info s.mapInfo }
      if addr.nTime = 0 ∨ (info.nTime ≠ 0 ∧ addr.nTime ≤ info.nTime) then some (s, false)
      else if info.fInTried then some (s, false)
      else if info.nRefCount = addrmanNewBucketsPerAddress then some (s, false)
      else
        let nFactor : Nat := 2 ^ info.nRefCount.toNat
        let (r, rs) := if nFactor > 1 then getRandInt nFactor rs else (0, rs)
        if nFactor > 1 ∧ r ≠ 0 then some (s, false)
        else (s.addToNew env nNow nId source rs).map fun s => (s, false)
    | none =>
      let (s, nId) := s.create addr source
      let info := s.info nId
      let info := { info with nTime := uint32OfInt (max 0 (info.nTime.toNat - nTimePenalty)) }
      let s := { s with mapInfo := OrdMap.insert nId info s.mapInfo, nNew := s.nNew + 1 }
      (s.addToNew env nNow nId source rs).map fun s => (s, true)

/-- `Attempt_(addr, nTime)`. -/
def attempt (s : CAddrMan) (addr : CService) (nTime : Int) : CAddrMan :=
  match s.find addr.netAddr with
  | none => s
  | some (nId, info) =>
    if info.toCService ≠ addr then s
    else
      let info := { info with nLastTry := nTime, nAttempts := info.nAttempts + 1 }
      { s with mapInfo := OrdMap.insert nId info s.mapInfo }

/-- `Connected_(addr, nTime)`: refresh the time last seen at most every twenty minutes. -/
def connected (s : CAddrMan) (addr : CService) (nTime : Int) : CAddrMan :=
  match s.find addr.netAddr with
  | none => s
  | some (nId, info) =>
    if info.toCService ≠ addr then s
    else if nTime - info.nTime.toNat > 20 * 60 then
      let info := { info with nTime := uint32OfInt nTime }
      { s with mapInfo := OrdMap.insert nId info s.mapInfo }
    else s

/-- The loop of `GetAddr_` from position `n`, with `k` rounds left: exchange position
`n` of `vRandom` with a random later one and report the entry now at `n`. -/
def getAddrLoop : Nat → Nat → CAddrMan → List CAddress → List Nat →
    Option (CAddrMan × List CAddress)
  | 0, _, s, vAddr, _ => some (s, vAddr)
  | k + 1, n, s, vAddr, rs =>
    let (r, rs) := getRandInt (s.vRandom.length - n) rs
    match s.swapRandom n (r + n) with
    | none => none
    | some s =>
      let nId := s.vRandom.getD n 0
      if ¬ OrdMap.contains nId s.mapInfo then none
      else getAddrLoop k (n + 1) s (vAddr ++ [(s.info nId).toCAddress]) rs

/-- `GetAddr_(vAddr)`: a random selection of all entries, at most `ADDRMAN_GETADDR_MAX`. -/
def getAddr (s : CAddrMan) (rs : List Nat) : Option (CAddrMan × List CAddress) :=
  getAddrLoop (min (addrmanGetaddrMaxPct * s.vRandom.length / 100) addrmanGetaddrMax) 0 s [] rs

/-! ## The consistency check -/

/-- The checks `Check_` makes of one entry of `mapInfo`, in its order, collecting the
tried ids and the reference counts of the new ones. -/
def checkEntry (s : CAddrMan) (n : Int) (info : CAddrInfo) (setTried : List Int)
    (mapNew : List (Int × Int)) : Except Int (List Int × List (Int × Int)) := do
  let (setTried, mapNew) ←
    if info.fInTried then
      if info.nLastSuccess = 0 then throw (-1)
      else if info.nRefCount ≠ 0 then throw (-2)
      else pure (OrdSet.insert n setTried, mapNew)
    else
      if info.nRefCount < 0 ∨ info.nRefCount > addrmanNewBucketsPerAddress then throw (-3)
      else if info.nRefCount = 0 then throw (-4)
      else pure (setTried, OrdMap.insert n info.nRefCount mapNew)
  if OrdMap.findD info.netAddr 0 s.mapAddr ≠ n then throw (-5)
  if info.nRandomPos < 0 ∨ info.nRandomPos ≥ s.vRandom.length ∨
      s.vRandom.getD info.nRandomPos.toNat 0 ≠ n then throw (-14)
  if info.nLastTry < 0 then throw (-6)
  if info.nLastSuccess < 0 then throw (-8)
  pure (setTried, mapNew)

/-- The loop of `Check_` over `mapInfo`. -/
def checkEntries (s : CAddrMan) :
    List (Int × CAddrInfo) → List Int → List (Int × Int) → Except Int (List Int × List (Int × Int))
  | [], setTried, mapNew => pure (setTried, mapNew)
  | (n, info) :: rest, setTried, mapNew => do
    let (setTried, mapNew) ← s.checkEntry n info setTried mapNew
    s.checkEntries rest setTried mapNew

/-- The loop of `Check_` over the tried buckets: each id must still be in `setTried`,
and leaves it. -/
def checkTried : List Int → List Int → Except Int (List Int)
  | [], setTried => pure setTried
  | n :: vTried, setTried =>
    if n ∉ setTried then throw (-11) else checkTried vTried (setTried.erase n)

/-- The loop of `Check_` over the new buckets: each id must still have a count in
`mapNew`, which goes down by one and is erased at zero. -/
def checkNew : List Int → List (Int × Int) → Except Int (List (Int × Int))
  | [], mapNew => pure mapNew
  | n :: vNew, mapNew =>
    match OrdMap.find? n mapNew with
    | none => throw (-12)
    | some c =>
      if c - 1 = 0 then checkNew vNew (OrdMap.erase n mapNew)
      else checkNew vNew (OrdMap.insert n (c - 1) mapNew)

/-- `Check_()`: 0 for a consistent state, else the code of the first check that fails.
The buckets are walked in order, so the nested loops read the concatenated buckets. -/
def check (s : CAddrMan) : Int :=
  if (s.vRandom.length : Int) ≠ s.nTried + s.nNew then -7
  else
    match s.checkEntries s.mapInfo [] [] with
    | .error e => e
    | .ok (setTried, mapNew) =>
      if (setTried.length : Int) ≠ s.nTried then -9
      else if (mapNew.length : Int) ≠ s.nNew then -10
      else
        match checkTried s.vvTried.flatten setTried with
        | .error e => e
        | .ok setTried =>
          match checkNew s.vvNew.flatten mapNew with
          | .error e => e
          | .ok mapNew =>
            if setTried ≠ [] then -13
            else if mapNew ≠ [] then -15
            else 0

/-! ## Runs -/

/-- The calls that change the state, with the adjusted time `Add_` reads. -/
inductive AddrOp where
  | add (addr : CAddress) (source : CNetAddr) (nTimePenalty nNow : Int)
  | good (addr : CService) (nTime : Int)
  | attempt (addr : CService) (nTime : Int)
  | connected (addr : CService) (nTime : Int)
  | getAddr

/-- One call, with the random draws it makes; `none` when an assert fails. -/
def step (env : AddrEnv) (s : CAddrMan) : AddrOp → List Nat → Option CAddrMan
  | .add addr source nTimePenalty nNow, rs =>
    (s.add env nNow addr source nTimePenalty rs).map Prod.fst
  | .good addr nTime, rs => s.good env addr nTime rs
  | .attempt addr nTime, _ => some (s.attempt addr nTime)
  | .connected addr nTime, _ => some (s.connected addr nTime)
  | .getAddr, rs => (s.getAddr rs).map Prod.fst

/-- A sequence of calls; `none` when one of them fails an assert. -/
def run (env : AddrEnv) : CAddrMan → List (AddrOp × List Nat) → Option CAddrMan
  | s, [] => some s
  | s, (op, rs) :: ops =>
    match s.step env op rs with
    | none => none
    | some s => run env s ops

end CAddrMan

end Twister.Net
