import Mathlib

/-!
# The last piece held by the piece picker

Twister adds `m_last_have` to libtorrent's `piece_picker` (piece_picker.cpp): the
index of the highest piece the node has, or `-1`. A user's torrent holds the
user's posts as pieces, and `torrent::get_pieces` starts its walk for the newest
posts at `last_have()`. `we_have` raises it by a `max`. `we_dont_have`, called when
reading a piece fails, lowers it by a backwards scan whose condition reads
`m_piece_map[m_last_have].have()` before it tests `m_last_have >= 0`.

Only whether each piece is held matters here (`piece_pos::have()`). A read of
`m_piece_map` outside its range yields whatever the memory there holds; the
model takes that as a parameter `outside` and records every index the scan reads.
-/

namespace Twister.Torrent

/-- What of `piece_picker` the last-have logic reads and writes: which pieces are
held, and `m_last_have`. -/
structure PiecePicker where
  pieceMap : List Bool
  lastHave : Int
  deriving Repr, DecidableEq

/-- `init(blocks_per_piece, blocks_in_last_piece, total_num_pieces)`: every piece
reset to not held (`index = 0`), and `m_last_have = -1`. -/
def PiecePicker.init (totalNumPieces : Nat) : PiecePicker :=
  ⟨List.replicate totalNumPieces false, -1⟩

/-- `piece_picker::increase_num_pieces(total_num_pieces)`: resize the map, new
pieces not held. -/
def PiecePicker.increaseNumPieces (pp : PiecePicker) (totalNumPieces : Nat) : PiecePicker :=
  ⟨pp.pieceMap.take totalNumPieces ++ List.replicate (totalNumPieces - pp.pieceMap.length) false,
    pp.lastHave⟩

/-- `piece_pos::have()` of piece `i`; outside the map, what the memory holds. -/
def haveAt (outside : Int → Bool) (pieceMap : List Bool) (i : Int) : Bool :=
  if i < 0 then outside i else pieceMap.getD i.toNat (outside i)

/-- `while( !m_piece_map[m_last_have].have() && m_last_have >= 0 ) m_last_have--;`
from `m_last_have = lh`: the final value and the indices read, in order. -/
def lastHaveScan (outside : Int → Bool) (pieceMap : List Bool) : Nat → Int → Int × List Int
  | 0, lh => (lh, [])
  | fuel + 1, lh =>
    if !haveAt outside pieceMap lh && decide (lh ≥ 0) then
      let r := lastHaveScan outside pieceMap fuel (lh - 1)
      (r.1, lh :: r.2)
    else (lh, [lh])

/-- `piece_picker::we_have(index, flags)`: mark the piece held and raise
`m_last_have` to it. -/
def PiecePicker.weHave (pp : PiecePicker) (index : Nat) : PiecePicker :=
  if pp.pieceMap.getD index false then pp
  else ⟨pp.pieceMap.set index true, if (index : Int) > pp.lastHave then index else pp.lastHave⟩

/-- `piece_picker::we_dont_have(index)`: mark the piece not held and, when it was
the last one, scan down for the new last piece. The picker and the indices the
scan read. The scan starts at `m_last_have ≥ 0` and moves down by one per step,
so `m_last_have + 2` steps reach `-1`, where it stops. -/
def PiecePicker.weDontHave (outside : Int → Bool) (pp : PiecePicker) (index : Nat) :
    PiecePicker × List Int :=
  if !pp.pieceMap.getD index false then (pp, [])
  else
    let pieceMap := pp.pieceMap.set index false
    if (index : Int) = pp.lastHave then
      let r := lastHaveScan outside pieceMap (pp.lastHave.toNat + 2) pp.lastHave
      (⟨pieceMap, r.1⟩, r.2)
    else (⟨pieceMap, pp.lastHave⟩, [])

/-- The calls that change which pieces are held. -/
inductive PickerOp where
  /-- `torrent::increase_num_pieces(n)`, which returns when the torrent already has
  more pieces, and otherwise calls the picker's `increase_num_pieces`. -/
  | increaseNumPieces (n : Nat)
  | weHave (index : Nat)
  | weDontHave (index : Nat)
  deriving Repr, DecidableEq

/-- One call with the indices read outside the scan's range: `none` when a piece
index is outside the map, where the source's assertions fail. -/
def PiecePicker.step (outside : Int → Bool) (pp : PiecePicker) : PickerOp →
    Option (PiecePicker × List Int)
  | .increaseNumPieces n =>
    some (if pp.pieceMap.length > n then pp else pp.increaseNumPieces n, [])
  | .weHave index => if index < pp.pieceMap.length then some (pp.weHave index, []) else none
  | .weDontHave index =>
    if index < pp.pieceMap.length then some (pp.weDontHave outside index) else none

/-- A run of calls from a picker: the final picker and every index the scans read. -/
def PiecePicker.run (outside : Int → Bool) (pp : PiecePicker) : List PickerOp →
    Option (PiecePicker × List Int)
  | [] => some (pp, [])
  | op :: ops => do
    let (pp', reads) ← pp.step outside op
    let (pp'', reads') ← pp'.run outside ops
    pure (pp'', reads ++ reads')

/-- `m_last_have` is the greatest index of a held piece, or `-1` when none is. -/
structure LastHaveOk (pp : PiecePicker) : Prop where
  le_lastHave : ∀ i, pp.pieceMap.getD i false = true → (i : Int) ≤ pp.lastHave
  held : pp.lastHave = -1 ∨ (0 ≤ pp.lastHave ∧ pp.pieceMap.getD pp.lastHave.toNat false = true)

section LastHave

variable {outside : Int → Bool} {pp : PiecePicker}

theorem lastHaveOk_init (n : Nat) : LastHaveOk (PiecePicker.init n) where
  le_lastHave i hi := by simp [PiecePicker.init] at hi
  held := Or.inl rfl

theorem getD_set_self {l : List Bool} {i : Nat} (hi : i < l.length) (b : Bool) :
    (l.set i b).getD i false = b := by
  simp [List.getD_eq_getElem?_getD, hi]

theorem getD_set_of_ne {l : List Bool} {i j : Nat} (hne : j ≠ i) (b : Bool) :
    (l.set i b).getD j false = l.getD j false := by
  simp [List.getD_eq_getElem?_getD, List.getElem?_set_ne (Ne.symm hne)]

/-- Growing the map keeps what is held and holds nothing new. -/
theorem getD_increaseNumPieces (pp : PiecePicker) {n : Nat} (hn : pp.pieceMap.length ≤ n)
    (i : Nat) :
    (pp.increaseNumPieces n).pieceMap.getD i false = pp.pieceMap.getD i false := by
  simp only [PiecePicker.increaseNumPieces, List.take_of_length_le hn,
    List.getD_eq_getElem?_getD, List.getElem?_append]
  split
  · rfl
  · rename_i hi
    simp only [List.getElem?_eq_none (Nat.le_of_not_lt hi), List.getElem?_replicate]
    split <;> rfl

/-- Inside the map, `have()` reads the map. -/
theorem haveAt_of_nonneg (outside : Int → Bool) {pieceMap : List Bool} {i : Int} (hi : 0 ≤ i)
    (hlt : i < pieceMap.length) :
    haveAt outside pieceMap i = pieceMap.getD i.toNat false := by
  have hnat : i.toNat < pieceMap.length := by omega
  simp [haveAt, Int.not_lt.mpr hi, List.getD_eq_getElem?_getD, hnat]

/-- From a start inside the map, the scan ends at `-1` or at a held piece, with no
held piece between its end and its start. -/
theorem lastHaveScan_spec (outside : Int → Bool) {pieceMap : List Bool} (fuel : Nat) (lh : Int)
    {r : Int} (hr : (lastHaveScan outside pieceMap fuel lh).1 = r) (hlo : -1 ≤ lh)
    (hhi : lh < pieceMap.length) (hfuel : lh + 1 ≤ fuel) :
    -1 ≤ r ∧ r ≤ lh ∧ (r = -1 ∨ (0 ≤ r ∧ pieceMap.getD r.toNat false = true)) ∧
      ∀ j : Nat, r < j → (j : Int) ≤ lh → pieceMap.getD j false = false := by
  induction fuel generalizing lh with
  | zero =>
    have hlh : lh = -1 := by omega
    subst hlh hr
    exact ⟨le_refl _, le_refl _, Or.inl rfl, fun j hj hjle => by omega⟩
  | succ fuel ih =>
    simp only [lastHaveScan] at hr
    by_cases hneg : lh < 0
    · have hlh : lh = -1 := by omega
      subst hlh
      have hcond : ¬ (!haveAt outside pieceMap (-1) && decide ((-1 : Int) ≥ 0)) = true := by
        simp
      rw [if_neg hcond] at hr
      subst hr
      exact ⟨le_refl _, le_refl _, Or.inl rfl, fun j hj hjle => by omega⟩
    · have hread := haveAt_of_nonneg outside (Int.not_lt.mp hneg) hhi
      cases hheld : pieceMap.getD lh.toNat false
      · have hcond : (!haveAt outside pieceMap lh && decide (lh ≥ 0)) = true := by
          rw [hread, hheld]
          simpa using Int.not_lt.mp hneg
        rw [if_pos hcond] at hr
        obtain ⟨hr1, hr2, hr3, hr4⟩ := ih (lh - 1) hr (by omega) (by omega) (by omega)
        refine ⟨hr1, by omega, hr3, fun j hj hjle => ?_⟩
        by_cases hjl : (j : Int) = lh
        · have : j = lh.toNat := by omega
          rw [this, hheld]
        · exact hr4 j hj (by omega)
      · have hcond : ¬ (!haveAt outside pieceMap lh && decide (lh ≥ 0)) = true := by
          rw [hread, hheld]
          simp
        rw [if_neg hcond] at hr
        subst hr
        exact ⟨hlo, le_refl lh, Or.inr ⟨Int.not_lt.mp hneg, hheld⟩, fun j hj hjle => by omega⟩

theorem LastHaveOk.lastHave_lt (h : LastHaveOk pp) : pp.lastHave < pp.pieceMap.length := by
  rcases h.held with hl | ⟨hnn, hheld⟩
  · omega
  · by_contra hge
    have : pp.pieceMap.length ≤ pp.lastHave.toNat := by omega
    simp [List.getD_eq_getElem?_getD, List.getElem?_eq_none this] at hheld

theorem LastHaveOk.neg_one_le (h : LastHaveOk pp) : -1 ≤ pp.lastHave := by
  rcases h.held with hl | ⟨hnn, -⟩ <;> omega

theorem lastHaveOk_weHave (h : LastHaveOk pp) {index : Nat} (hi : index < pp.pieceMap.length) :
    LastHaveOk (pp.weHave index) := by
  unfold PiecePicker.weHave
  split
  · exact h
  · rename_i hnot
    refine ⟨fun i hheld => ?_, ?_⟩
    · dsimp only at hheld ⊢
      by_cases hieq : i = index
      · subst hieq
        split <;> omega
      · rw [getD_set_of_ne hieq] at hheld
        have := h.le_lastHave i hheld
        split <;> omega
    · dsimp only
      split
      · exact Or.inr ⟨by omega, by simpa using getD_set_self hi true⟩
      · rename_i hle
        rcases h.held with hl | ⟨hnn, hheld⟩
        · omega
        · have hne : pp.lastHave.toNat ≠ index := by
            intro heq
            rw [heq] at hheld
            exact hnot hheld
          exact Or.inr ⟨hnn, by rw [getD_set_of_ne hne]; exact hheld⟩

theorem lastHaveOk_weDontHave (h : LastHaveOk pp) {index : Nat}
    (hi : index < pp.pieceMap.length) : LastHaveOk (pp.weDontHave outside index).1 := by
  unfold PiecePicker.weDontHave
  split
  · exact h
  · dsimp only
    split
    · rename_i hlast
      have hlen : (pp.pieceMap.set index false).length = pp.pieceMap.length := List.length_set
      obtain ⟨hr1, hr2, hr3, hr4⟩ := lastHaveScan_spec outside (pp.lastHave.toNat + 2)
        pp.lastHave rfl h.neg_one_le (hlen ▸ h.lastHave_lt) (by omega)
      refine ⟨fun j hj => ?_, hr3⟩
      dsimp only at hj ⊢
      have hjne : j ≠ index := by
        rintro rfl
        rw [getD_set_self hi] at hj
        exact Bool.false_ne_true hj
      have hjold := h.le_lastHave j (by rwa [getD_set_of_ne hjne] at hj)
      by_contra hgt
      rw [hr4 j (by omega) hjold] at hj
      exact Bool.false_ne_true hj
    · rename_i hnotlast
      refine ⟨fun j hj => ?_, ?_⟩
      · by_cases hjeq : j = index
        · subst hjeq
          rw [getD_set_self hi] at hj
          exact absurd hj Bool.false_ne_true
        · rw [getD_set_of_ne hjeq] at hj
          exact h.le_lastHave j hj
      · rcases h.held with hl | ⟨hnn, hheld⟩
        · exact Or.inl hl
        · have hne : pp.lastHave.toNat ≠ index := by omega
          exact Or.inr ⟨hnn, by dsimp only; rw [getD_set_of_ne hne]; exact hheld⟩

/-- One call keeps `m_last_have` right, whatever an out-of-range read returns. -/
theorem lastHaveOk_step (h : LastHaveOk pp) {op : PickerOp} {r : PiecePicker × List Int}
    (hstep : pp.step outside op = some r) : LastHaveOk r.1 := by
  cases op with
  | increaseNumPieces n =>
    simp only [PiecePicker.step, Option.some.injEq] at hstep
    subst hstep
    split
    · exact h
    · rename_i hle
      have hgrow := getD_increaseNumPieces pp (Nat.le_of_not_lt hle)
      refine ⟨fun i hi => h.le_lastHave i (by rwa [hgrow] at hi), ?_⟩
      rcases h.held with hl | ⟨hnn, hheld⟩
      · exact Or.inl hl
      · exact Or.inr ⟨hnn, by rw [hgrow]; exact hheld⟩
  | weHave index =>
    simp only [PiecePicker.step] at hstep
    split at hstep
    · cases hstep
      exact lastHaveOk_weHave h ‹_›
    · cases hstep
  | weDontHave index =>
    simp only [PiecePicker.step] at hstep
    split at hstep
    · cases hstep
      exact lastHaveOk_weDontHave h ‹_›
    · cases hstep

/-- Along every run of calls with piece indices inside the map, `m_last_have` is
the greatest index of a held piece, or `-1`; this holds whatever the scan reads
outside the map. -/
theorem lastHaveOk_run (h : LastHaveOk pp) (ops : List PickerOp) {r : PiecePicker × List Int}
    (hrun : pp.run outside ops = some r) : LastHaveOk r.1 := by
  induction ops generalizing pp r with
  | nil =>
    simp only [PiecePicker.run, Option.some.injEq] at hrun
    subst hrun
    exact h
  | cons op ops ih =>
    simp only [PiecePicker.run, Option.bind_eq_bind, Option.bind_eq_some_iff, Option.pure_def,
      Option.some.injEq] at hrun
    obtain ⟨⟨pp', reads⟩, hstep, ⟨pp'', reads'⟩, hrest, rfl⟩ := hrun
    exact ih (r := (pp'', reads')) (lastHaveOk_step h hstep) hrest

end LastHave

/-- A torrent of one piece that gets the piece and then fails to read it:
`we_dont_have(0)` scans down from `m_last_have = 0` and reads
`m_piece_map[-1]` before it tests `m_last_have >= 0`, whatever that memory holds. -/
theorem weDontHave_reads_before_map (outside : Int → Bool) :
    ((PiecePicker.init 1).run outside [.weHave 0, .weDontHave 0]).map Prod.snd = some [0, -1] ∧
      ((PiecePicker.init 1).run outside [.weHave 0, .weDontHave 0]).map (·.1.lastHave) = some (-1) := by
  simp [PiecePicker.run, PiecePicker.step, PiecePicker.init, PiecePicker.weHave,
    PiecePicker.weDontHave, lastHaveScan, haveAt]

end Twister.Torrent
