import Twister.Net.AddrManTried

/-!
# Runs of the address manager

The remaining calls, `Attempt_`, `Connected_` and `GetAddr_`, and then every sequence of
calls: from the empty manager, any run whose calls carry the times the source's callers
give passes every assert, and each state it reaches keeps the invariant.

`GetAddr_` shuffles a prefix of `vRandom` in place, one exchange per address it reports;
its lemmas say what the exchanges keep and which entries it reports.
-/

namespace Twister.Net

namespace CAddrMan

/-! ## Statistics of one entry -/

section Stats

variable {env : AddrEnv} {d : Int → ℕ} {s : CAddrMan}

/-- `Attempt_` at a time that is not negative keeps the invariant. -/
theorem Consistent.attempt (h : Consistent env d s) (addr : CService) {nTime : Int}
    (hTime : 0 ≤ nTime) : Consistent env d (s.attempt addr nTime) := by
  unfold CAddrMan.attempt
  cases hf : s.find addr.netAddr with
  | none => exact h
  | some p =>
    obtain ⟨nId, info⟩ := p
    obtain ⟨-, hk⟩ := find_eq_some hf
    have hok := h.entry nId info hk
    dsimp only
    split_ifs
    · exact h
    · exact h.setInfo hk rfl rfl rfl rfl
        ⟨hok.randomPos, hTime, hok.lastSuccess, hok.tried, hok.new⟩

/-- `Connected_` keeps the invariant. -/
theorem Consistent.connected (h : Consistent env d s) (addr : CService) (nTime : Int) :
    Consistent env d (s.connected addr nTime) := by
  unfold CAddrMan.connected
  cases hf : s.find addr.netAddr with
  | none => exact h
  | some p =>
    obtain ⟨nId, info⟩ := p
    obtain ⟨-, hk⟩ := find_eq_some hf
    have hok := h.entry nId info hk
    dsimp only
    split_ifs
    · exact h
    · exact h.setInfo hk rfl rfl rfl rfl
        ⟨hok.randomPos, hok.lastTry, hok.lastSuccess, hok.tried, hok.new⟩
    · exact h

end Stats

/-! ## `GetAddr_` -/

section Shuffle

variable {env : AddrEnv} {d : Int → ℕ}

/-- A new position for one entry leaves every entry's address. -/
theorem setRandomPos_toCAddress {m : List (Int × CAddrInfo)} {k : Int} {v₀ : CAddrInfo}
    (hk : OrdMap.find? k m = some v₀) (p : ℕ) (x : Int) :
    (OrdMap.find? x (setRandomPos k p m)).map CAddrInfo.toCAddress =
      (OrdMap.find? x m).map CAddrInfo.toCAddress := by
  rw [setRandomPos_eq p hk, OrdMap.find?_insert]
  split_ifs with hx
  · subst hx
    rw [hk]
    rfl
  · rfl

/-- An id of `vRandom` has an entry. -/
theorem Indexed.find?_of_mem_vRandom {s : CAddrMan} (h : Indexed env d s) {x : Int}
    (hx : x ∈ s.vRandom) : ∃ info, OrdMap.find? x s.mapInfo = some info := by
  obtain ⟨i, hi, rfl⟩ := List.getElem_of_mem hx
  obtain ⟨info, hinfo, -⟩ := h.find?_of_getElem? (List.getElem?_eq_getElem hi)
  exact ⟨info, hinfo⟩

/-- `SwapRandom` of two positions of `vRandom` passes its asserts and keeps the
invariant; it exchanges the two ids and nothing else, and leaves the addresses. -/
theorem Consistent.swapRandom {s : CAddrMan} (h : Consistent env d s) {i j : ℕ}
    (hi : i < s.vRandom.length) (hj : j < s.vRandom.length) :
    ∃ s', s.swapRandom i j = some s' ∧ Consistent env d s' ∧
      s'.vRandom.length = s.vRandom.length ∧ s'.vRandom[i]? = s.vRandom[j]? ∧
      (∀ q, q ≠ i → q ≠ j → s'.vRandom[q]? = s.vRandom[q]?) ∧
      ∀ x, (OrdMap.find? x s'.mapInfo).map CAddrInfo.toCAddress =
        (OrdMap.find? x s.mapInfo).map CAddrInfo.toCAddress := by
  by_cases hij : i = j
  · subst hij
    exact ⟨s, swapRandom_self s i, h, rfl, rfl, fun _ _ _ => rfl, fun _ => rfl⟩
  obtain ⟨a, ha⟩ : ∃ a, s.vRandom[i]? = some a := ⟨_, List.getElem?_eq_getElem hi⟩
  obtain ⟨b, hb⟩ : ∃ b, s.vRandom[j]? = some b := ⟨_, List.getElem?_eq_getElem hj⟩
  obtain ⟨ia, hia, -⟩ := h.find?_of_getElem? ha
  obtain ⟨ib, hib, -⟩ := h.find?_of_getElem? hb
  have hab : a ≠ b := by
    rintro rfl
    have hposi := h.random.pos_of_get i a ha
    rw [h.random.pos_of_get j a hb] at hposi
    exact hij (Option.some.inj hposi).symm
  have hib1 : OrdMap.find? b (setRandomPos a j s.mapInfo) = some ib := by
    rw [setRandomPos_eq j hia, OrdMap.find?_insert_of_ne _ _ (Ne.symm hab)]
    exact hib
  refine ⟨_, swapRandom_of_ne hij ha hb (h.contains_of_getElem? ha) (h.contains_of_getElem? hb),
    ⟨h.toIndexed.swap hij ha hb, h.live.of_sameRefs
      ((sameRefs_setRandomPos hia j).trans (sameRefs_setRandomPos hib1 i))⟩,
    by simp, ?_, fun q hqi hqj => ?_, fun x => ?_⟩
  · rw [List.getElem?_set_ne (Ne.symm hij), List.getElem?_set_self hi, hb]
  · simp [Ne.symm hqi, Ne.symm hqj]
  · rw [setRandomPos_toCAddress hib1, setRandomPos_toCAddress hia]

/-- The loop of `GetAddr_` from position `n`, with `k` rounds left and room for them,
passes its asserts and keeps the invariant. It leaves the positions before `n` and the
entries' addresses alone, and reports the entries it ends with at positions `n` to
`n + k - 1`. -/
theorem Consistent.getAddrLoop : ∀ (k n : ℕ) (s : CAddrMan) (vAddr : List CAddress)
    (rs : List Nat), Consistent env d s → n + k ≤ s.vRandom.length →
    ∃ s' vAddr', CAddrMan.getAddrLoop k n s vAddr rs = some (s', vAddr') ∧ Consistent env d s' ∧
      s'.vRandom.length = s.vRandom.length ∧ (∀ q < n, s'.vRandom[q]? = s.vRandom[q]?) ∧
      (∀ x, (OrdMap.find? x s'.mapInfo).map CAddrInfo.toCAddress =
        (OrdMap.find? x s.mapInfo).map CAddrInfo.toCAddress) ∧
      vAddr' = vAddr ++ ((s'.vRandom.drop n).take k).map fun x => (s'.info x).toCAddress
  | 0, n, s, vAddr, rs, h, _ => ⟨s, vAddr, rfl, h, rfl, fun _ _ => rfl, fun _ => rfl, by simp⟩
  | k + 1, n, s, vAddr, rs, h, hk => by
    have hlen : 0 < s.vRandom.length - n := by omega
    rcases hr : getRandInt (s.vRandom.length - n) rs with ⟨r, rs₁⟩
    have hrlt : r < s.vRandom.length - n := by
      have := getRandInt_lt hlen rs
      rw [hr] at this
      exact this
    obtain ⟨s₁, hs₁, h₁, hlen₁, -, hother₁, haddr₁⟩ :=
      h.swapRandom (i := n) (j := r + n) (by omega) (by omega)
    obtain ⟨nId, hnId⟩ : ∃ nId, s₁.vRandom[n]? = some nId :=
      ⟨_, List.getElem?_eq_getElem (by omega)⟩
    obtain ⟨s', vAddr', hloop, h', hlen', hpre', haddr', hv'⟩ :=
      Consistent.getAddrLoop k (n + 1) s₁ (vAddr ++ [(s₁.info nId).toCAddress]) rs₁ h₁ (by omega)
    refine ⟨s', vAddr', ?_, h', by omega, fun q hq => ?_, fun x => ?_, ?_⟩
    · rw [CAddrMan.getAddrLoop, hr]
      dsimp only
      rw [hs₁]
      dsimp only
      rw [getD_of_getElem? hnId, if_neg (not_not.mpr (h₁.contains_of_getElem? hnId))]
      exact hloop
    · rw [hpre' q (by omega), hother₁ q (by omega) (by omega)]
    · rw [haddr', haddr₁]
    · have hn' : s'.vRandom[n]? = some nId := by
        rw [hpre' n (by omega)]
        exact hnId
      have hnlt : n < s'.vRandom.length := (List.getElem?_eq_some_iff.mp hn').1
      have hdrop : (s'.vRandom.drop n).take (k + 1) = nId :: (s'.vRandom.drop (n + 1)).take k := by
        rw [List.drop_eq_getElem_cons hnlt, List.take_succ_cons,
          (List.getElem?_eq_some_iff.mp hn').2]
      obtain ⟨i₁, hi₁, -⟩ := h₁.find?_of_getElem? hnId
      obtain ⟨i', hi', -⟩ := h'.find?_of_getElem? hn'
      have hsame := haddr' nId
      rw [hi₁, hi'] at hsame
      have hinfo : (s'.info nId).toCAddress = (s₁.info nId).toCAddress := by
        rw [info_of_find? hi', info_of_find? hi₁]
        exact Option.some.inj hsame
      rw [hv', hdrop, List.map_cons, hinfo, List.append_assoc, List.singleton_append]

/-- `GetAddr_` passes its asserts and keeps the invariant, and reports
`min n ADDRMAN_GETADDR_MAX` addresses of entries, `n` the number of entries, none twice. -/
theorem Consistent.getAddr {s : CAddrMan} (h : Consistent env d s) (rs : List Nat) :
    ∃ s' vAddr, s.getAddr rs = some (s', vAddr) ∧ Consistent env d s' ∧
      vAddr.length = min s.vRandom.length addrmanGetaddrMax ∧
      (vAddr.map fun a => a.netAddr).Nodup ∧
      ∀ a ∈ vAddr, ∃ nId info, OrdMap.find? nId s.mapInfo = some info ∧ info.toCAddress = a := by
  have hk : min (addrmanGetaddrMaxPct * s.vRandom.length / 100) addrmanGetaddrMax =
      min s.vRandom.length addrmanGetaddrMax := by
    simp [addrmanGetaddrMaxPct]
  obtain ⟨s', vAddr, hloop, h', hlen', -, haddr', hv'⟩ := h.getAddrLoop
    (min (addrmanGetaddrMaxPct * s.vRandom.length / 100) addrmanGetaddrMax) 0 s [] rs
    (by rw [hk]; omega)
  rw [hk] at hv'
  simp only [List.drop_zero, List.nil_append] at hv'
  refine ⟨s', vAddr, hloop, h', ?_, ?_, ?_⟩
  · rw [hv', List.length_map, List.length_take, hlen']
    omega
  · rw [hv', List.map_map]
    refine List.Nodup.map_on (fun x hx y hy hxy => ?_)
      ((h'.random.nodup).sublist (List.take_sublist _ _))
    obtain ⟨ix, hix⟩ := h'.find?_of_mem_vRandom (List.mem_of_mem_take hx)
    obtain ⟨iy, hiy⟩ := h'.find?_of_mem_vRandom (List.mem_of_mem_take hy)
    simp only [Function.comp_apply, info_of_find? hix, info_of_find? hiy] at hxy
    have hx' := (h'.addr.find_iff ix.netAddr x).mpr ⟨ix, hix, rfl⟩
    have hy' := (h'.addr.find_iff iy.netAddr y).mpr ⟨iy, hiy, rfl⟩
    rw [show ix.netAddr = iy.netAddr from hxy, hy'] at hx'
    exact (Option.some.inj hx').symm
  · intro a ha
    rw [hv'] at ha
    obtain ⟨x, hx, rfl⟩ := List.mem_map.mp ha
    obtain ⟨ix, hix⟩ := h'.find?_of_mem_vRandom (List.mem_of_mem_take hx)
    have hsame := haddr' x
    rw [hix] at hsame
    obtain ⟨info, hinfo, he⟩ := Option.map_eq_some_iff.mp hsame.symm
    exact ⟨x, info, hinfo, by rw [info_of_find? hix, he]⟩

end Shuffle

/-! ## Runs -/

section Run

variable {env : AddrEnv} {s : CAddrMan}

/-- What the callers of the address manager pass: a success and an attempt are
recorded at the adjusted time, which is positive. `Check_` would reject a negative time
of a last try (-6) and a tried entry whose success is at time 0 (-1). -/
def AddrOp.Valid : AddrOp → Prop
  | .good _ nTime => 0 < nTime
  | .attempt _ nTime => 0 ≤ nTime
  | _ => True

instance (op : AddrOp) : Decidable op.Valid :=
  match op with
  | .add .. => inferInstanceAs (Decidable True)
  | .good _ nTime => inferInstanceAs (Decidable (0 < nTime))
  | .attempt _ nTime => inferInstanceAs (Decidable (0 ≤ nTime))
  | .connected .. => inferInstanceAs (Decidable True)
  | .getAddr => inferInstanceAs (Decidable True)

/-- One call with the times its callers give passes its asserts and keeps the invariant. -/
theorem Consistent.step (h : Consistent env 0 s) {op : AddrOp} (hop : op.Valid) (rs : List Nat) :
    ∃ s', s.step env op rs = some s' ∧ Consistent env 0 s' := by
  cases op with
  | add addr source nTimePenalty nNow =>
    obtain ⟨s', fNew, hs', hc'⟩ := h.add nNow addr source nTimePenalty rs
    exact ⟨s', by simp [CAddrMan.step, hs'], hc'⟩
  | good addr nTime =>
    obtain ⟨s', hs', hc', -⟩ := h.good addr hop rs
    exact ⟨s', hs', hc'⟩
  | attempt addr nTime => exact ⟨_, rfl, h.attempt addr hop⟩
  | connected addr nTime => exact ⟨_, rfl, h.connected addr nTime⟩
  | getAddr =>
    obtain ⟨s', vAddr, hs', hc', -⟩ := h.getAddr rs
    exact ⟨s', by simp [CAddrMan.step, hs'], hc'⟩

/-- Every run of calls with the times their callers give passes every assert, and keeps
the invariant. -/
theorem Consistent.run {ops : List (AddrOp × List Nat)} (h : Consistent env 0 s)
    (hops : ∀ p ∈ ops, p.1.Valid) :
    ∃ s', CAddrMan.run env s ops = some s' ∧ Consistent env 0 s' := by
  induction ops generalizing s with
  | nil => exact ⟨s, rfl, h⟩
  | cons p ops ih =>
    obtain ⟨op, rs⟩ := p
    obtain ⟨s₁, hs₁, h₁⟩ := h.step (hops (op, rs) List.mem_cons_self) rs
    obtain ⟨s', hs', h'⟩ := ih h₁ fun p hp => hops p (List.mem_cons_of_mem _ hp)
    exact ⟨s', by rw [CAddrMan.run, hs₁]; exact hs', h'⟩

end Run

end CAddrMan

end Twister.Net
