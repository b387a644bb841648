import Twister.Net.AddrMan

/-!
# The on-disk form of the address manager

`peers.dat` holds `CAddrMan` as its `IMPLEMENT_SERIALIZE` writes it (addrman.h): a
version byte, the key, `nNew`, `nTried` and the number of new buckets; then the new
entries, the tried entries, and for each new bucket its size and the indexes of its
ids among the new entries. The reader rebuilds `mapAddr`, `vRandom` and the tried
buckets from the entries, and the new buckets from the indexes when the bucket count
is the one it was written with. `mapInfo` is renumbered on the way: the new entries get
ids from 0, the tried ones the ids after them.

An entry is written as `CAddrInfo` serializes it: its `CAddress` with `SER_DISK` (the
stream version and the time first, then the services and the service), the source, the
time of the last success and the number of attempts. The version the entries are written
with is the manager's local `nVersion`, 0. Signed integers are two's complement,
little-endian; a port is written in network order. A read past the end of the data,
where `CDataStream` throws, is `none`.
-/

namespace Twister.Net

open Twister.Chain (leBytes)
open Twister.Serialize (readLe readLe_leBytes writeByteVector readByteVector)

/-! ## Integers and addresses on the wire -/

section Wire

/-- `WRITEDATA` of a signed integer of `w` bytes: its two's complement, little-endian. -/
def writeInt (w : Nat) (x : Int) : Bytes := leBytes w (x % 2 ^ (8 * w)).toNat

/-- `READDATA` of a signed integer of `w` bytes. -/
def readInt (w : Nat) (bytes : Bytes) : Option (Int × Bytes) :=
  (readLe w bytes).map fun (n, rest) =>
    (if n < 2 ^ (8 * w - 1) then (n : Int) else (n : Int) - 2 ^ (8 * w), rest)

/-- A signed integer that fits in `w` bytes reads back. -/
theorem readInt_writeInt {w : Nat} {x : Int} (hw : 0 < w) (hlo : -2 ^ (8 * w - 1) ≤ x)
    (hhi : x < 2 ^ (8 * w - 1)) (rest : Bytes) :
    readInt w (writeInt w x ++ rest) = some (x, rest) := by
  have hM : (2 : Int) ^ (8 * w) = 2 * 2 ^ (8 * w - 1) := by
    rw [← pow_succ']
    congr 1
    omega
  have hH : (0 : Int) < 2 ^ (8 * w - 1) := by positivity
  have hmod : 0 ≤ x % 2 ^ (8 * w) ∧ x % 2 ^ (8 * w) < 2 ^ (8 * w) :=
    ⟨Int.emod_nonneg _ (by positivity), Int.emod_lt_of_pos _ (by positivity)⟩
  have hlt : (x % 2 ^ (8 * w)).toNat < 256 ^ w := by
    have h256 : (256 : ℕ) ^ w = 2 ^ (8 * w) := by rw [pow_mul]; norm_num
    rw [h256, Int.toNat_lt hmod.1]
    exact_mod_cast hmod.2
  rw [writeInt, readInt, readLe_leBytes w _ hlt rest]
  simp only [Option.map_some, Option.some.injEq, Prod.mk.injEq, and_true]
  by_cases hx : 0 ≤ x
  · have he : x % 2 ^ (8 * w) = x := Int.emod_eq_of_lt hx (by omega)
    have hn : (x % 2 ^ (8 * w)).toNat < 2 ^ (8 * w - 1) := by
      rw [he]
      exact_mod_cast (show (x.toNat : Int) < 2 ^ (8 * w - 1) by omega)
    rw [if_pos hn, Int.toNat_of_nonneg hmod.1, he]
  · have he : x % 2 ^ (8 * w) = x + 2 ^ (8 * w) := by
      rw [Int.emod_eq_add_self_emod]
      exact Int.emod_eq_of_lt (by omega) (by omega)
    have hn : ¬(x % 2 ^ (8 * w)).toNat < 2 ^ (8 * w - 1) := by
      intro hn
      have : ((x % 2 ^ (8 * w)).toNat : Int) < 2 ^ (8 * w - 1) := by exact_mod_cast hn
      rw [Int.toNat_of_nonneg hmod.1] at this
      omega
    rw [if_neg hn, Int.toNat_of_nonneg hmod.1, he]
    ring

/-- `FLATDATA(ip)` of a `CNetAddr`: its sixteen bytes. -/
def CNetAddr.write (a : CNetAddr) : Bytes := a.ip

/-- Reading `FLATDATA(ip)`. -/
def CNetAddr.read (bytes : Bytes) : Option (CNetAddr × Bytes) :=
  if h : 16 ≤ bytes.length then
    some (⟨bytes.take 16, by rw [List.length_take]; omega⟩, bytes.drop 16)
  else none

theorem CNetAddr.read_write (a : CNetAddr) (rest : Bytes) :
    CNetAddr.read (a.write ++ rest) = some (a, rest) := by
  have hlen := a.length_ip
  have htake : (a.ip ++ rest).take 16 = a.ip := List.take_left' hlen
  have hdrop : (a.ip ++ rest).drop 16 = rest := List.drop_left' hlen
  rw [CNetAddr.write, CNetAddr.read, dif_pos (by simp [hlen])]
  simp only [htake, hdrop]

/-- `htons` and `ntohs` on a little-endian host: the two bytes of a port exchanged. -/
def swapBytes (n : Nat) : Nat := n % 256 * 256 + n / 256 % 256

theorem swapBytes_digits {a b : Nat} (ha : a < 256) (hb : b < 256) :
    swapBytes (a * 256 + b) = b * 256 + a := by
  unfold swapBytes
  omega

theorem swapBytes_swapBytes {n : Nat} (hn : n < 65536) : swapBytes (swapBytes n) = n := by
  show swapBytes (n % 256 * 256 + n / 256 % 256) = n
  rw [swapBytes_digits (Nat.mod_lt _ (by decide)) (Nat.mod_lt _ (by decide))]
  omega

theorem swapBytes_lt (n : Nat) : swapBytes n < 65536 := by
  unfold swapBytes
  omega

/-- `Serialize` of a `CService`: the address, then `htons(port)` as an `unsigned short`. -/
def CService.write (svc : CService) : Bytes :=
  svc.netAddr.write ++ leBytes 2 (swapBytes svc.port.toNat)

/-- `Unserialize` of a `CService`: the port is `ntohs` of what was read. -/
def CService.read (bytes : Bytes) : Option (CService × Bytes) := do
  let (netAddr, bytes) ← CNetAddr.read bytes
  let (portN, bytes) ← readLe 2 bytes
  some (⟨netAddr, (swapBytes portN).toUInt16⟩, bytes)

theorem CService.read_write (svc : CService) (rest : Bytes) :
    CService.read (svc.write ++ rest) = some (svc, rest) := by
  have hport : svc.port.toNat < 65536 := svc.port.toNat_lt
  have hswap : ((swapBytes (swapBytes svc.port.toNat)).toUInt16) = svc.port := by
    rw [swapBytes_swapBytes hport]
    exact UInt16.ofNat_toNat
  rw [CService.write, List.append_assoc, CService.read, CNetAddr.read_write]
  simp only [Option.bind_eq_bind, Option.bind_some]
  rw [readLe_leBytes 2 _ (swapBytes_lt _) rest]
  simp only [Option.bind_some, hswap]

/-- `Serialize` of a `CAddress` with `SER_DISK` at stream version `nVersion`: the
version, the time, the services and the service. -/
def CAddress.write (nVersion : Int) (addr : CAddress) : Bytes :=
  writeInt 4 nVersion ++ leBytes 4 addr.nTime.toNat ++ leBytes 8 addr.nServices.toNat ++
    addr.toCService.write

/-- `Unserialize` of a `CAddress` with `SER_DISK`. `Init` runs first, so the time of the
last try is 0; the version read goes into the by-value parameter and is used no more. -/
def CAddress.read (bytes : Bytes) : Option (CAddress × Bytes) := do
  let (_, bytes) ← readInt 4 bytes
  let (nTime, bytes) ← readLe 4 bytes
  let (nServices, bytes) ← readLe 8 bytes
  let (svc, bytes) ← CService.read bytes
  some (⟨svc, nServices.toUInt64, nTime.toUInt32, 0⟩, bytes)

theorem CAddress.read_write {nVersion : Int} (hlo : -2 ^ 31 ≤ nVersion) (hhi : nVersion < 2 ^ 31)
    (addr : CAddress) (rest : Bytes) :
    CAddress.read (addr.write nVersion ++ rest) = some ({ addr with nLastTry := 0 }, rest) := by
  simp only [CAddress.write, List.append_assoc, CAddress.read]
  rw [readInt_writeInt (by decide) hlo hhi]
  simp only [Option.bind_eq_bind, Option.bind_some]
  have hTime : addr.nTime.toNat.toUInt32 = addr.nTime := UInt32.ofNat_toNat
  have hServices : addr.nServices.toNat.toUInt64 = addr.nServices := UInt64.ofNat_toNat
  rw [readLe_leBytes 4 _ addr.nTime.toNat_lt, Option.bind_some,
    readLe_leBytes 8 _ addr.nServices.toNat_lt, Option.bind_some, CService.read_write,
    Option.bind_some]
  simp only [hTime, hServices]

/-- The widths an entry's signed fields are written in: `int64` for the time of the last
success, `int` for the number of attempts. -/
def CAddrInfo.Storable (info : CAddrInfo) : Prop :=
  -2 ^ 63 ≤ info.nLastSuccess ∧ info.nLastSuccess < 2 ^ 63 ∧
    -2 ^ 31 ≤ info.nAttempts ∧ info.nAttempts < 2 ^ 31

instance (info : CAddrInfo) : Decidable info.Storable :=
  inferInstanceAs (Decidable (_ ∧ _))

/-- `Serialize` of a `CAddrInfo` at stream version `nVersion`. -/
def CAddrInfo.write (nVersion : Int) (info : CAddrInfo) : Bytes :=
  info.toCAddress.write nVersion ++ info.source.write ++ writeInt 8 info.nLastSuccess ++
    writeInt 4 info.nAttempts

/-- `Unserialize` of a `CAddrInfo` into `info`: the fields written, over what `info`
held before. -/
def CAddrInfo.read (info : CAddrInfo) (bytes : Bytes) : Option (CAddrInfo × Bytes) := do
  let (addr, bytes) ← CAddress.read bytes
  let (source, bytes) ← CNetAddr.read bytes
  let (nLastSuccess, bytes) ← readInt 8 bytes
  let (nAttempts, bytes) ← readInt 4 bytes
  some ({ info with toCAddress := addr, source, nLastSuccess, nAttempts }, bytes)

/-- An entry read back over `info₀`: what was written, with no time of a last try, and
the fields that are not written as `info₀` had them. -/
def CAddrInfo.loadInto (info₀ info : CAddrInfo) : CAddrInfo :=
  { info₀ with toCAddress := { info.toCAddress with nLastTry := 0 }, source := info.source,
               nLastSuccess := info.nLastSuccess, nAttempts := info.nAttempts }

theorem CAddrInfo.read_write (info₀ : CAddrInfo) {info : CAddrInfo} (h : info.Storable)
    (rest : Bytes) :
    info₀.read (info.write 0 ++ rest) = some (info₀.loadInto info, rest) := by
  obtain ⟨hs₁, hs₂, ha₁, ha₂⟩ := h
  simp only [CAddrInfo.write, List.append_assoc, CAddrInfo.read]
  rw [CAddress.read_write (by decide) (by decide)]
  simp only [Option.bind_eq_bind, Option.bind_some]
  rw [CNetAddr.read_write, Option.bind_some, readInt_writeInt (by decide) hs₁ hs₂,
    Option.bind_some, readInt_writeInt (by decide) ha₁ ha₂, Option.bind_some]
  rfl

end Wire

/-! ## `CAddrMan::Serialize` -/

namespace CAddrMan

section Write

/-- The first loop of the writer: each entry with references, in id order, until `nNew`
of them are written; `mapUnkIds` gives each id it visits the number written before it. -/
def writeNewInfos (nNew : Int) :
    List (Int × CAddrInfo) → Int → List (Int × Int) → Bytes × List (Int × Int)
  | [], _, mapUnkIds => ([], mapUnkIds)
  | (nId, info) :: rest, nIds, mapUnkIds =>
    if nIds = nNew then ([], mapUnkIds)
    else
      let mapUnkIds := OrdMap.insert nId nIds mapUnkIds
      if info.nRefCount ≠ 0 then
        let (bytes, mapUnkIds) := writeNewInfos nNew rest (nIds + 1) mapUnkIds
        (info.write 0 ++ bytes, mapUnkIds)
      else writeNewInfos nNew rest nIds mapUnkIds

/-- The second loop of the writer: each tried entry, in id order, until `nTried` of them
are written. -/
def writeTriedInfos (nTried : Int) : List (Int × CAddrInfo) → Int → Bytes
  | [], _ => []
  | (_, info) :: rest, nIds =>
    if nIds = nTried then []
    else if info.fInTried then info.write 0 ++ writeTriedInfos nTried rest (nIds + 1)
    else writeTriedInfos nTried rest nIds

/-- The last loop of the writer: each new bucket's size, then the index of each of its
ids, read through `operator[]` of `mapUnkIds`. -/
def writeBuckets (mapUnkIds : List (Int × Int)) (vvNew : List (List Int)) : Bytes :=
  vvNew.flatMap fun vNew =>
    writeInt 4 vNew.length ++ vNew.flatMap fun nId => writeInt 4 (OrdMap.findD nId 0 mapUnkIds)

/-- `CAddrMan::Serialize`. -/
def serialize (s : CAddrMan) : Bytes :=
  let nVersion : UInt8 := 0
  let (vNewInfos, mapUnkIds) := writeNewInfos s.nNew s.mapInfo 0 []
  [nVersion] ++ writeByteVector s.nKey ++ writeInt 4 s.nNew ++ writeInt 4 s.nTried ++
    writeInt 4 addrmanNewBucketCount ++ vNewInfos ++ writeTriedInfos s.nTried s.mapInfo 0 ++
    writeBuckets mapUnkIds s.vvNew

end Write

section Read

/-- The new entries of `Unserialize`, from id `n`, `k` of them: entry `n` is read into
`mapInfo[n]` and indexed in `mapAddr` and `vRandom`; it joins the new bucket of its
source only when the bucket count changed. -/
def readNewInfos (env : AddrEnv) (nUBuckets : Int) :
    ℕ → Int → CAddrMan → Bytes → Option (CAddrMan × Bytes)
  | 0, _, s, bytes => some (s, bytes)
  | k + 1, n, s, bytes => do
    let (info, bytes) ← (s.info n).read bytes
    let info := { info with nRandomPos := s.vRandom.length }
    let s := { s with
      mapAddr := OrdMap.insert info.netAddr n s.mapAddr, vRandom := s.vRandom ++ [n] }
    if nUBuckets ≠ addrmanNewBucketCount then
      let nUBucket := getNewBucket env s.nKey info.netAddr info.source
      readNewInfos env nUBuckets k (n + 1) { s with
        mapInfo := OrdMap.insert n { info with nRefCount := info.nRefCount + 1 } s.mapInfo,
        vvNew := s.vvNew.set nUBucket (OrdSet.insert n (s.vvNew.getD nUBucket [])) } bytes
    else readNewInfos env nUBuckets k (n + 1) { s with mapInfo := OrdMap.insert n info s.mapInfo } bytes

/-- The tried entries of `Unserialize`, `k` of them: each is read into a fresh
`CAddrInfo` and takes the next id at the end of its tried bucket, or is lost (counted in
`nLost`) when that bucket is full. -/
def readTriedInfos (env : AddrEnv) : ℕ → CAddrMan → Int → Bytes → Option (CAddrMan × Int × Bytes)
  | 0, s, nLost, bytes => some (s, nLost, bytes)
  | k + 1, s, nLost, bytes => do
    let (info, bytes) ← CAddrInfo.default.read bytes
    let nKBucket := getTriedBucket env s.nKey info.toCService
    let vTried := s.vvTried.getD nKBucket []
    if vTried.length < addrmanTriedBucketSize then
      let info := { info with nRandomPos := s.vRandom.length, fInTried := true }
      readTriedInfos env k { s with
        vRandom := s.vRandom ++ [s.nIdCount], mapInfo := OrdMap.insert s.nIdCount info s.mapInfo,
        mapAddr := OrdMap.insert info.netAddr s.nIdCount s.mapAddr,
        vvTried := s.vvTried.set nKBucket (vTried ++ [s.nIdCount]), nIdCount := s.nIdCount + 1 }
        nLost bytes
    else readTriedInfos env k s (nLost + 1) bytes

/-- The indexes of new bucket `b`, `k` of them: `mapInfo[nIndex]` is read through
`operator[]`, and takes one more reference and a place in the bucket when the bucket
count is unchanged and it has fewer than `ADDRMAN_NEW_BUCKETS_PER_ADDRESS`. -/
def readBucket (nUBuckets : Int) (b : ℕ) : ℕ → CAddrMan → Bytes → Option (CAddrMan × Bytes)
  | 0, s, bytes => some (s, bytes)
  | k + 1, s, bytes => do
    let (nIndex, bytes) ← readInt 4 bytes
    let info := s.info nIndex
    if nUBuckets = addrmanNewBucketCount ∧ info.nRefCount < addrmanNewBucketsPerAddress then
      readBucket nUBuckets b k { s with
        mapInfo := OrdMap.insert nIndex { info with nRefCount := info.nRefCount + 1 } s.mapInfo,
        vvNew := s.vvNew.set b (OrdSet.insert nIndex (s.vvNew.getD b [])) } bytes
    else readBucket nUBuckets b k { s with mapInfo := OrdMap.insert nIndex info s.mapInfo } bytes

/-- The new buckets of `Unserialize`, from bucket `b`, `k` of them: a size, then as many
indexes. -/
def readBuckets (nUBuckets : Int) : ℕ → ℕ → CAddrMan → Bytes → Option (CAddrMan × Bytes)
  | 0, _, s, bytes => some (s, bytes)
  | k + 1, b, s, bytes => do
    let (nSize, bytes) ← readInt 4 bytes
    let (s, bytes) ← readBucket nUBuckets b nSize.toNat s bytes
    readBuckets nUBuckets k (b + 1) s bytes

/-- `CAddrMan::Unserialize`: the version byte is read and not checked; `nIdCount`, the
maps, `vRandom` and the buckets are cleared before the entries are read. -/
def unserialize (env : AddrEnv) (bytes : Bytes) : Option CAddrMan := do
  let (_, bytes) ← readLe 1 bytes
  let (nKey, bytes) ← readByteVector bytes
  let (nNew, bytes) ← readInt 4 bytes
  let (nTried, bytes) ← readInt 4 bytes
  let (nUBuckets, bytes) ← readInt 4 bytes
  let (s, bytes) ← readNewInfos env nUBuckets nNew.toNat 0 { empty nKey with nNew, nTried } bytes
  let (s, nLost, bytes) ← readTriedInfos env nTried.toNat { s with nIdCount := nNew } 0 bytes
  let (s, _) ← readBuckets nUBuckets nUBuckets.toNat 0 { s with nTried := s.nTried - nLost } bytes
  some s

end Read

end CAddrMan

end Twister.Net
