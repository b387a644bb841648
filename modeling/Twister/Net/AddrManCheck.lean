import Twister.Net.AddrManRun

/-!
# `Check_` accepts every consistent state

`Check_` (compiled with `DEBUG_ADDRMAN`) walks `mapInfo`, collecting the tried ids and
the reference counts of the new ones, then walks the tried and the new buckets and
crosses each id off. It returns 0 exactly when every walk finds what the others
collected. The invariant `Consistent` was stated independently of it; this module shows
that it refines the source's own check: every consistent state, and so every state a
run reaches, passes it.
-/

namespace Twister.Net

namespace CAddrMan

/-! ## What the walk over `mapInfo` collects -/

section Collect

/-- The tried ids, in `mapInfo` order. -/
def triedIds (mapInfo : List (Int × CAddrInfo)) : List Int :=
  (mapInfo.filter fun p => p.2.fInTried).map Prod.fst

/-- The new ids with their reference counts, in `mapInfo` order. -/
def newCounts (mapInfo : List (Int × CAddrInfo)) : List (Int × Int) :=
  (mapInfo.filter fun p => !p.2.fInTried).map fun p => (p.1, p.2.nRefCount)

theorem triedIds_cons (n : Int) (info : CAddrInfo) (m : List (Int × CAddrInfo)) :
    triedIds ((n, info) :: m) = if info.fInTried then n :: triedIds m else triedIds m := by
  unfold triedIds
  cases h : info.fInTried <;> simp [h]

theorem newCounts_cons (n : Int) (info : CAddrInfo) (m : List (Int × CAddrInfo)) :
    newCounts ((n, info) :: m) =
      if info.fInTried then newCounts m else (n, info.nRefCount) :: newCounts m := by
  unfold newCounts
  cases h : info.fInTried <;> simp [h]

/-- A new id's count is its entry's reference count, and only new ids have one. -/
theorem find?_newCounts (x : Int) {m : List (Int × CAddrInfo)} (hnd : (OrdMap.keys m).Nodup) :
    OrdMap.find? x (newCounts m) =
      (OrdMap.find? x m).bind fun info => if info.fInTried then none else some info.nRefCount := by
  induction m with
  | nil => rfl
  | cons p m ih =>
    obtain ⟨n, info⟩ := p
    simp only [OrdMap.keys, List.map_cons, List.nodup_cons] at hnd
    have ih' := ih hnd.2
    rw [newCounts_cons, OrdMap.find?_cons]
    by_cases hx : x = n
    · subst hx
      have hnone : OrdMap.find? x m = none := OrdMap.find?_eq_none_of_not_mem hnd.1
      rw [hnone] at ih'
      cases ht : info.fInTried <;> simp [ht, ih', OrdMap.find?_cons]
    · cases info.fInTried <;> simp [OrdMap.find?_cons, hx, ih']

theorem keys_newCounts (m : List (Int × CAddrInfo)) :
    OrdMap.keys (newCounts m) = OrdMap.keys (m.filter fun p => !p.2.fInTried) := by
  simp [newCounts, OrdMap.keys]

end Collect

/-! ## The walk over `mapInfo` -/

section Entries

variable {env : AddrEnv} {s : CAddrMan}

/-- An entry of a consistent state passes the checks `Check_` makes of it, which add it
to the tried ids or to the counts of the new ones. -/
theorem Consistent.checkEntry (h : Consistent env 0 s) {n : Int} {info : CAddrInfo}
    (hk : OrdMap.find? n s.mapInfo = some info) (setTried : List Int)
    (mapNew : List (Int × Int)) :
    s.checkEntry n info setTried mapNew = .ok (if info.fInTried then
      (OrdSet.insert n setTried, mapNew) else (setTried, OrdMap.insert n info.nRefCount mapNew)) := by
  have hok := h.entry n info hk
  have haddr : OrdMap.findD info.netAddr 0 s.mapAddr = n := by
    simp [OrdMap.findD, (h.addr.find_iff _ n).mpr ⟨info, hk, rfl⟩]
  have hpos : randomPos s.mapInfo n = some info.nRandomPos.toNat := by simp [randomPos, hk]
  have hlt := h.random.lt_length hpos
  have hget := getD_of_getElem? (h.random.get_of_pos n _ hpos)
  have hget' : s.vRandom[info.nRandomPos.toNat]?.getD 0 = n := hget
  have hpos0 : ¬ info.nRandomPos < 0 := by have := hok.randomPos; omega
  have hposlt : ¬ (s.vRandom.length : Int) ≤ info.nRandomPos := by omega
  have htry : ¬ info.nLastTry < 0 := by have := hok.lastTry; omega
  have hsucc : ¬ info.nLastSuccess < 0 := by have := hok.lastSuccess; omega
  unfold CAddrMan.checkEntry
  cases ht : info.fInTried
  · have hr := hok.new ht
    have hl := h.live n info hk ht
    simp only [Bool.false_eq_true, if_false]
    rw [if_neg (by omega), if_neg (by omega)]
    simp [haddr, hget', hpos0, hposlt, htry, hsucc]
    rfl
  · have htr := hok.tried ht
    simp only [if_true]
    rw [if_neg htr.2, if_neg (not_not.mpr htr.1)]
    simp [haddr, hget', hpos0, hposlt, htry, hsucc]
    rfl

/-- The walk over a part `l` of `mapInfo`, from collections that share no id with it,
adds the tried ids of `l` to the set and the counts of its new ids to the map. -/
theorem Consistent.checkEntries (h : Consistent env 0 s) :
    ∀ (l : List (Int × CAddrInfo)) (setTried : List Int) (mapNew : List (Int × Int)),
      (∀ p ∈ l, OrdMap.find? p.1 s.mapInfo = some p.2) → (OrdMap.keys l).Nodup →
      setTried.Nodup → (∀ x ∈ setTried, x ∉ OrdMap.keys l) → OrdMap.Sorted mapNew →
      (∀ x ∈ OrdMap.keys mapNew, x ∉ OrdMap.keys l) →
      ∃ T N, s.checkEntries l setTried mapNew = .ok (T, N) ∧ T.Perm (setTried ++ triedIds l) ∧
        OrdMap.Sorted N ∧
        ∀ x, OrdMap.find? x N = (OrdMap.find? x mapNew).or (OrdMap.find? x (newCounts l))
  | [], setTried, mapNew, _, _, _, _, hM, _ =>
    ⟨setTried, mapNew, rfl, by simp [triedIds], hM, fun x => by simp [newCounts]⟩
  | (n, info) :: l, setTried, mapNew, hl, hnd, hS, hSl, hM, hMl => by
    have hk := hl (n, info) List.mem_cons_self
    have hl' := fun p hp => hl p (List.mem_cons_of_mem _ hp)
    simp only [OrdMap.keys, List.map_cons, List.nodup_cons] at hnd
    have hnl : n ∉ OrdMap.keys l := hnd.1
    have hSl' : ∀ x ∈ setTried, x ∉ OrdMap.keys l := fun x hx hxl =>
      hSl x hx (List.mem_cons_of_mem _ hxl)
    have hMl' : ∀ x ∈ OrdMap.keys mapNew, x ∉ OrdMap.keys l := fun x hx hxl =>
      hMl x hx (List.mem_cons_of_mem _ hxl)
    rw [CAddrMan.checkEntries, h.checkEntry hk]
    cases ht : info.fInTried
    · simp only [Bool.false_eq_true, if_false]
      obtain ⟨T, N, hT, hperm, hN, hfind⟩ := h.checkEntries l setTried
        (OrdMap.insert n info.nRefCount mapNew) hl' hnd.2 hS hSl'
        (OrdMap.sorted_insert intStrictOrder _ _ hM) (fun x hx hxl => by
          rcases (OrdMap.mem_keys_insert _ _ _ _).mp hx with rfl | hx
          · exact hnl hxl
          · exact hMl' x hx hxl)
      refine ⟨T, N, hT, by rw [triedIds_cons, ht]; exact hperm, hN, fun x => ?_⟩
      rw [hfind, newCounts_cons, ht, OrdMap.find?_insert]
      by_cases hx : x = n
      · subst hx
        have hnM : OrdMap.find? x mapNew = none :=
          OrdMap.find?_eq_none_of_not_mem fun hmem => hMl x hmem List.mem_cons_self
        simp [hnM, OrdMap.find?_cons]
      · simp [hx, OrdMap.find?_cons]
    · simp only [if_true]
      have hnS : n ∉ setTried := fun hmem => hSl n hmem List.mem_cons_self
      obtain ⟨T, N, hT, hperm, hN, hfind⟩ := h.checkEntries l (OrdSet.insert n setTried) mapNew
        hl' hnd.2 (OrdSet.nodup_insert n hS) (fun x hx hxl => by
          rcases List.mem_cons.mp ((OrdSet.perm_insert_of_not_mem hnS).subset hx) with rfl | hx
          · exact hnl hxl
          · exact hSl' x hx hxl) hM hMl'
      refine ⟨T, N, hT, ?_, hN, fun x => by rw [hfind, newCounts_cons, ht, if_pos rfl]⟩
      rw [triedIds_cons, ht, if_pos rfl]
      calc List.Perm T (OrdSet.insert n setTried ++ triedIds l) := hperm
        List.Perm _ ((n :: setTried) ++ triedIds l) :=
          (OrdSet.perm_insert_of_not_mem hnS).append_right _
        List.Perm _ (setTried ++ n :: triedIds l) := List.perm_middle.symm

end Entries

/-! ## The walks over the buckets -/

section Buckets

/-- The walk over the tried buckets crosses off every collected id when the buckets
hold the collected ids, each once. -/
theorem checkTried_of_perm : ∀ {l setTried : List Int}, l.Perm setTried →
    checkTried l setTried = .ok []
  | [], setTried, h => by
    rw [h.symm.eq_nil]
    rfl
  | n :: l, setTried, h => by
    have hn : n ∈ setTried := h.subset List.mem_cons_self
    have h' : l.Perm (setTried.erase n) := (h.trans (List.perm_cons_erase hn)).cons_inv
    rw [checkTried, if_neg (not_not.mpr hn)]
    exact checkTried_of_perm h'

/-- The walk over the new buckets crosses off every count when each id occurs as often
as the map counts it, and every count is positive. -/
theorem checkNew_of_count : ∀ (l : List Int) (mapNew : List (Int × Int)), OrdMap.Sorted mapNew →
    (∀ x c, OrdMap.find? x mapNew = some c → 0 < c) →
    (∀ x, (l.count x : Int) = (OrdMap.find? x mapNew).getD 0) → checkNew l mapNew = .ok []
  | [], mapNew, _, hpos, hcount => by
    cases mapNew with
    | nil => rfl
    | cons p mapNew =>
      obtain ⟨k, c⟩ := p
      have hk : OrdMap.find? k ((k, c) :: mapNew) = some c := by simp [OrdMap.find?_cons]
      have := hcount k
      rw [hk, List.count_nil, Option.getD_some] at this
      have := hpos k c hk
      omega
  | n :: l, mapNew, hs, hpos, hcount => by
    have hn := hcount n
    rw [List.count_cons_self] at hn
    obtain ⟨c, hc⟩ : ∃ c, OrdMap.find? n mapNew = some c := by
      cases hf : OrdMap.find? n mapNew with
      | none =>
        rw [hf] at hn
        simp at hn
        omega
      | some c => exact ⟨c, rfl⟩
    rw [hc, Option.getD_some] at hn
    have hnd := hs.nodup intStrictOrder
    rw [checkNew, hc]
    dsimp only
    split_ifs with hc1
    · refine checkNew_of_count l _ (hs.of_sublist (OrdMap.erase_sublist _ _)) (fun x c' hx => ?_)
        fun x => ?_
      · rw [OrdMap.find?_erase _ _ _ hnd] at hx
        split_ifs at hx
        exact hpos x c' hx
      · have hx := hcount x
        rw [OrdMap.find?_erase _ _ _ hnd]
        by_cases hxn : x = n
        · subst hxn
          simp only [if_true, Option.getD_none]
          omega
        · rw [if_neg hxn, ← hx, List.count_cons_of_ne (Ne.symm hxn)]
    · refine checkNew_of_count l _ (OrdMap.sorted_insert intStrictOrder _ _ hs)
        (fun x c' hx => ?_) fun x => ?_
      · rw [OrdMap.find?_insert] at hx
        split_ifs at hx
        · cases hx
          have := hpos n c hc
          omega
        · exact hpos x c' hx
      · have hx := hcount x
        rw [OrdMap.find?_insert]
        by_cases hxn : x = n
        · subst hxn
          simp only [if_true, Option.getD_some]
          omega
        · rw [if_neg hxn, ← hx, List.count_cons_of_ne (Ne.symm hxn)]

end Buckets

/-! ## `Check_` -/

section Check

variable {env : AddrEnv} {s : CAddrMan}

theorem mem_triedIds {m : List (Int × CAddrInfo)} (hnd : (OrdMap.keys m).Nodup) (x : Int) :
    x ∈ triedIds m ↔ ∃ info, OrdMap.find? x m = some info ∧ info.fInTried = true := by
  constructor
  · intro hx
    obtain ⟨⟨x', info⟩, hmem, rfl⟩ := List.mem_map.mp hx
    rw [List.mem_filter] at hmem
    exact ⟨info, OrdMap.find?_eq_some_of_mem hnd hmem.1, hmem.2⟩
  · rintro ⟨info, hinfo, ht⟩
    exact List.mem_map.mpr ⟨(x, info), List.mem_filter.mpr
      ⟨OrdMap.mem_of_find?_eq_some hinfo, ht⟩, rfl⟩

/-- The tried buckets hold exactly the tried ids, each once. -/
theorem Indexed.perm_triedIds {d : Int → ℕ} (h : Indexed env d s) :
    s.vvTried.flatten.Perm (triedIds s.mapInfo) := by
  have hnd := h.sorted.nodup intStrictOrder
  have hndT : (triedIds s.mapInfo).Nodup := hnd.sublist (List.filter_sublist.map Prod.fst)
  rw [List.perm_iff_count]
  intro x
  rw [h.tried.count x]
  by_cases hx : x ∈ triedIds s.mapInfo
  · rw [List.count_eq_one_of_mem hndT hx]
    obtain ⟨info, hinfo, ht⟩ := (mem_triedIds hnd x).mp hx
    rw [triedRefs_of_find? hinfo, if_pos ht]
  · rw [List.count_eq_zero_of_not_mem hx]
    unfold triedRefs
    cases hf : OrdMap.find? x s.mapInfo with
    | none => rfl
    | some info =>
      have ht : info.fInTried = false := by
        cases ht : info.fInTried
        · rfl
        · exact absurd ((mem_triedIds hnd x).mpr ⟨info, hf, ht⟩) hx
      simp [ht]

/-- Every consistent state passes `Check_`. -/
theorem Consistent.check (h : Consistent env 0 s) : s.check = 0 := by
  have hnd := h.sorted.nodup intStrictOrder
  have hlen := h.length_vRandom
  obtain ⟨T, N, hT, hperm, hN, hfind⟩ := h.checkEntries s.mapInfo [] []
    (fun p hp => OrdMap.find?_eq_some_of_mem hnd hp) hnd List.nodup_nil (by simp)
    OrdMap.sorted_nil (by simp [OrdMap.keys])
  rw [List.nil_append] at hperm
  have hsortedC : OrdMap.Sorted (newCounts s.mapInfo) := by
    unfold OrdMap.Sorted
    rw [keys_newCounts]
    exact List.Pairwise.sublist (List.filter_sublist.map Prod.fst) h.sorted
  have hNeq : N = newCounts s.mapInfo :=
    OrdMap.ext_of_sorted intStrictOrder hN hsortedC fun x => by rw [hfind]; rfl
  subst hNeq
  have hlenT : T.length = countTried s.mapInfo := by
    rw [hperm.length_eq, triedIds, List.length_map]
    rfl
  have hlenN : (newCounts s.mapInfo).length = countNew s.mapInfo := by
    rw [newCounts, List.length_map]
    rfl
  have htried := checkTried_of_perm (h.perm_triedIds.trans hperm.symm)
  have hnew := checkNew_of_count s.vvNew.flatten (newCounts s.mapInfo) hsortedC
    (fun x c hx => by
      rw [find?_newCounts x hnd] at hx
      obtain ⟨info, hinfo, hc⟩ := Option.bind_eq_some_iff.mp hx
      split_ifs at hc with ht
      cases hc
      exact h.live x info hinfo (by simpa using ht))
    (fun x => by
      have hc := h.new.count x
      simp only [Pi.zero_apply, Nat.add_zero] at hc
      rw [hc, find?_newCounts x hnd]
      cases hf : OrdMap.find? x s.mapInfo with
      | none => simp [newRefs, hf]
      | some info =>
        rw [newRefs_of_find? hf]
        cases ht : info.fInTried
        · have := h.live x info hf ht
          simp [ht]
          omega
        · simp [ht])
  unfold CAddrMan.check
  rw [if_neg (by rw [hlen, h.nTried, h.nNew]; push_cast; omega), hT]
  dsimp only
  rw [if_neg (by rw [hlenT, h.nTried]; exact not_not.mpr rfl),
    if_neg (by rw [hlenN, h.nNew]; exact not_not.mpr rfl), htried]
  dsimp only
  rw [hnew]
  rfl

end Check

/-! ## Every reachable state -/

section Reachable

end Reachable

end CAddrMan

end Twister.Net
