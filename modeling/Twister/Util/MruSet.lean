import Mathlib

/-!
# mruset

`mruset<T>` (mruset.h) is a `std::set` with a `std::deque` of its elements in the
order they came in, and a capacity `nMaxSize`, `0` for none. `insert` of a new
element pushes it at the back of the queue, and when the queue is full first removes
the front element from both; `max_size(s)` pops the front while the queue is longer
than `s` (for `s ≠ 0`) and makes `s` the capacity. The node keeps the inventory a
peer already knows in one (`setInventoryKnown`).

The set and the queue hold the same distinct elements, never more than the capacity
(`window_run`). The queue is the last `nMaxSize` elements of the history of new
insertions as long as no `max_size` call raises the capacity (`queue_eq_rtake_run`);
a raised capacity keeps the shorter window the set had.
-/

namespace Twister

/-- An `mruset<T>`: `set`, `queue` and `nMaxSize`. -/
structure MruSet (T : Type) where
  set : Finset T
  queue : List T
  nMaxSize : Nat
  deriving DecidableEq

/-- A call on an `mruset`. -/
inductive MruOp (T : Type) where
  | insert (x : T)
  | maxSize (s : Nat)
  deriving DecidableEq

namespace MruSet

variable {T : Type} [DecidableEq T]

/-- `mruset(nMaxSizeIn)`. -/
def empty (nMaxSizeIn : Nat) : MruSet T := ⟨∅, [], nMaxSizeIn⟩

/-- `set.erase(queue.front()); queue.pop_front();`. Both callers pop a queue that is
not empty. -/
def popFront (m : MruSet T) : MruSet T :=
  match m.queue with
  | [] => m
  | front :: rest => { m with set := m.set.erase front, queue := rest }

/-- `insert(x)`: nothing when `x` is already there; otherwise, when the queue is full,
pop its front, then push `x`. -/
def insert (m : MruSet T) (x : T) : MruSet T :=
  if x ∈ m.set then m
  else
    let m := if m.nMaxSize ≠ 0 ∧ m.queue.length = m.nMaxSize then m.popFront else m
    { m with set := Insert.insert x m.set, queue := m.queue ++ [x] }

/-- The loop of `max_size(s)`: pop the front while the queue is longer than `s`. -/
def trimQueue (s : Nat) (set : Finset T) : List T → Finset T × List T
  | [] => (set, [])
  | front :: rest =>
    if rest.length + 1 > s then trimQueue s (set.erase front) rest else (set, front :: rest)

/-- `max_size(s)`. -/
def maxSize (m : MruSet T) (s : Nat) : MruSet T :=
  let (set, queue) := if s ≠ 0 then trimQueue s m.set m.queue else (m.set, m.queue)
  ⟨set, queue, s⟩

/-- One call. -/
def step (m : MruSet T) : MruOp T → MruSet T
  | .insert x => m.insert x
  | .maxSize s => m.maxSize s

/-- A sequence of calls. -/
def run (m : MruSet T) (ops : List (MruOp T)) : MruSet T := ops.foldl step m

/-- The elements that a sequence of calls inserts while they are absent, in order:
the insertions that are new. -/
def newInsertions : MruSet T → List (MruOp T) → List T
  | _, [] => []
  | m, .insert x :: ops => (if x ∈ m.set then [] else [x]) ++ newInsertions (m.insert x) ops
  | m, .maxSize s :: ops => newInsertions (m.maxSize s) ops

/-- Calls that never raise the capacity `n` and never remove the limit. -/
def Shrinking : Nat → List (MruOp T) → Prop
  | _, [] => True
  | n, .insert _ :: ops => Shrinking n ops
  | n, .maxSize s :: ops => 0 < s ∧ s ≤ n ∧ Shrinking s ops

/-! ## The set and the queue -/

/-- The representation invariant: the set is the set of the queue's elements, the
queue holds each once, and never more than a non-zero capacity. -/
structure Window (m : MruSet T) : Prop where
  set_eq : m.set = m.queue.toFinset
  nodup : m.queue.Nodup
  bounded : m.nMaxSize ≠ 0 → m.queue.length ≤ m.nMaxSize

theorem window_empty (n : Nat) : Window (empty n : MruSet T) where
  set_eq := rfl
  nodup := List.nodup_nil
  bounded _ := Nat.zero_le n

/-- `size()`, the size of the set, is the length of the queue. -/
theorem Window.card_set {m : MruSet T} (h : Window m) : m.set.card = m.queue.length := by
  rw [h.set_eq, List.toFinset_card_of_nodup h.nodup]

@[simp] theorem nMaxSize_insert (m : MruSet T) (x : T) : (m.insert x).nMaxSize = m.nMaxSize := by
  unfold insert popFront
  split_ifs <;> (try split) <;> rfl

theorem popFront_of_cons {m : MruSet T} {front : T} {rest : List T} (hq : m.queue = front :: rest) :
    m.popFront = { m with set := m.set.erase front, queue := rest } := by
  rw [popFront, hq]

/-- Popping the front of a well-formed queue keeps it well-formed, one shorter. -/
theorem popFront_window {m : MruSet T} (h : Window m) (hne : m.queue ≠ []) :
    m.popFront.set = m.popFront.queue.toFinset ∧ m.popFront.queue.Nodup ∧
      m.popFront.queue = m.queue.tail := by
  obtain ⟨front, rest, hq⟩ := List.exists_cons_of_ne_nil hne
  have hnd := h.nodup
  rw [hq, List.nodup_cons] at hnd
  rw [popFront_of_cons hq]
  refine ⟨?_, hnd.2, by simp [hq]⟩
  rw [h.set_eq, hq, List.toFinset_cons, Finset.erase_insert (by simpa using hnd.1)]

/-- The queue after `insert x` of a new `x`: the old queue, without its front when it
was full, then `x`. -/
theorem queue_insert_of_not_mem {m : MruSet T} {x : T} (hx : x ∉ m.set) :
    (m.insert x).queue =
      (if m.nMaxSize ≠ 0 ∧ m.queue.length = m.nMaxSize then m.queue.tail else m.queue) ++ [x] := by
  unfold insert
  rw [if_neg hx]
  split_ifs with hfull
  · cases hq : m.queue with
    | nil => simp [popFront, hq]
    | cons front rest => simp [popFront_of_cons hq]
  · rfl

theorem insert_window {m : MruSet T} (h : Window m) (x : T) : Window (m.insert x) := by
  by_cases hx : x ∈ m.set
  · simpa [insert, hx] using h
  have hxq : x ∉ m.queue := by simpa [h.set_eq] using hx
  set q := if m.nMaxSize ≠ 0 ∧ m.queue.length = m.nMaxSize then m.queue.tail else m.queue with hq
  have hsub : q.Sublist m.queue := by
    rw [hq]
    split_ifs
    · exact List.tail_sublist m.queue
    · exact List.Sublist.refl _
  have hqueue : (m.insert x).queue = q ++ [x] := queue_insert_of_not_mem hx
  have hset : (m.insert x).set = Insert.insert x q.toFinset := by
    unfold insert
    rw [if_neg hx]
    split_ifs with hfull
    · have hne : m.queue ≠ [] := by
        intro he
        rw [he] at hfull
        exact hfull.1 hfull.2.symm
      obtain ⟨hset, -, hpop⟩ := popFront_window h hne
      simp only [hset, hpop, hq, if_pos hfull]
    · simp only [hq, if_neg hfull, h.set_eq]
  refine ⟨?_, ?_, ?_⟩
  · ext y
    simp [hset, hqueue]
  · rw [hqueue, List.nodup_append]
    exact ⟨h.nodup.sublist hsub, List.nodup_singleton x,
      fun a ha b hb hab => hxq (hsub.subset (by simp_all))⟩
  · intro hcap
    rw [nMaxSize_insert] at hcap ⊢
    have hbound := h.bounded hcap
    rw [hqueue, List.length_append, List.length_singleton, hq]
    split_ifs with hfull
    · rw [List.length_tail]
      omega
    · omega

/-- `max_size`'s loop leaves the last `s` elements of a well-formed queue. -/
theorem trimQueue_eq (s : Nat) :
    ∀ (queue : List T), queue.Nodup →
      trimQueue s queue.toFinset queue = ((queue.rtake s).toFinset, queue.rtake s)
  | [], _ => by simp [trimQueue, List.rtake]
  | front :: rest, hnd => by
    rw [List.nodup_cons] at hnd
    unfold trimQueue
    split_ifs with hlong
    · have herase : (front :: rest).toFinset.erase front = rest.toFinset := by
        rw [List.toFinset_cons, Finset.erase_insert (by simpa using hnd.1)]
      rw [herase, trimQueue_eq s rest hnd.2]
      have hdrop : (front :: rest).rtake s = rest.rtake s := by
        simp only [List.rtake, List.length_cons]
        rw [show rest.length + 1 - s = rest.length - s + 1 by omega, List.drop_succ_cons]
      rw [hdrop]
    · have hall : (front :: rest).rtake s = front :: rest := by
        simp only [List.rtake, List.length_cons]
        rw [show rest.length + 1 - s = 0 by omega, List.drop_zero]
      rw [hall]

theorem maxSize_window {m : MruSet T} (h : Window m) (s : Nat) : Window (m.maxSize s) := by
  by_cases hs : s ≠ 0
  · have htrim := trimQueue_eq s m.queue h.nodup
    rw [← h.set_eq] at htrim
    simp only [maxSize, if_pos hs, htrim]
    refine ⟨rfl, h.nodup.sublist (List.drop_sublist _ _), fun _ => ?_⟩
    simp only [List.rtake, List.length_drop]
    omega
  · simp only [maxSize, if_neg hs]
    exact ⟨h.set_eq, h.nodup, fun hs' => absurd hs' hs⟩

theorem step_window {m : MruSet T} (h : Window m) : ∀ op : MruOp T, Window (m.step op)
  | .insert x => insert_window h x
  | .maxSize s => maxSize_window h s

theorem run_window {m : MruSet T} (h : Window m) : ∀ ops : List (MruOp T), Window (m.run ops)
  | [] => h
  | op :: ops => run_window (step_window h op) ops

/-- Every run from an empty `mruset` keeps its set and queue equal, without repetition,
and within a non-zero capacity. -/
theorem window_run (n : Nat) (ops : List (MruOp T)) : Window ((empty n : MruSet T).run ops) :=
  run_window (window_empty n) ops

/-! ## The window of new insertions -/

/-- `insert` of a new element keeps the queue the last `nMaxSize` new insertions. -/
theorem queue_insert_rtake {m : MruSet T} {h : List T} (hcap : m.nMaxSize ≠ 0)
    (hq : m.queue = h.rtake m.nMaxSize) (x : T) :
    (m.insert x).queue = (h ++ if x ∈ m.set then [] else [x]).rtake m.nMaxSize := by
  by_cases hx : x ∈ m.set
  · simp [insert, hx, hq]
  obtain ⟨n, hn⟩ := Nat.exists_eq_succ_of_ne_zero hcap
  rw [queue_insert_of_not_mem hx, if_neg hx, hn, List.rtake_concat_succ]
  congr 1
  have hlen : m.queue.length = min (n + 1) h.length := by
    rw [hq, hn, List.rtake, List.length_drop]
    omega
  split_ifs with hfull
  · rw [hq, hn, List.rtake, List.rtake, List.tail_drop]
    congr 1
    omega
  · have hshort : h.length ≤ n := by omega
    rw [hq, hn, List.rtake, List.rtake, show h.length - (n + 1) = 0 by omega,
      show h.length - n = 0 by omega]

/-- `max_size(s)` with `0 < s ≤ nMaxSize` keeps the queue the last `s` new insertions. -/
theorem queue_maxSize_rtake {m : MruSet T} {h : List T} (hw : Window m)
    (hq : m.queue = h.rtake m.nMaxSize) {s : Nat} (hs : 0 < s) (hle : s ≤ m.nMaxSize) :
    (m.maxSize s).queue = h.rtake s := by
  have htrim := trimQueue_eq s m.queue hw.nodup
  rw [← hw.set_eq] at htrim
  simp only [maxSize, if_pos (Nat.pos_iff_ne_zero.mp hs), htrim]
  rw [hq, List.rtake, List.rtake, List.rtake, List.length_drop, List.drop_drop]
  congr 1
  omega

/-- Over calls that never raise the capacity, the queue stays the last `nMaxSize`
elements of the history of new insertions. -/
theorem queue_eq_rtake_run :
    ∀ (ops : List (MruOp T)) (m : MruSet T) (h : List T), Window m → 0 < m.nMaxSize →
      m.queue = h.rtake m.nMaxSize → Shrinking m.nMaxSize ops →
      (m.run ops).queue = (h ++ newInsertions m ops).rtake (m.run ops).nMaxSize
  | [], m, h, _, _, hq, _ => by simpa [run, newInsertions] using hq
  | .insert x :: ops, m, h, hw, hpos, hq, hops => by
    have hnext := queue_eq_rtake_run ops (m.insert x) (h ++ if x ∈ m.set then [] else [x])
      (insert_window hw x) (by rw [nMaxSize_insert]; exact hpos)
      (by rw [nMaxSize_insert]; exact queue_insert_rtake (Nat.pos_iff_ne_zero.mp hpos) hq x)
      (by rw [nMaxSize_insert]; exact hops)
    simpa [run, step, newInsertions, List.append_assoc] using hnext
  | .maxSize s :: ops, m, h, hw, _, hq, ⟨hs, hle, hops⟩ => by
    have hnext := queue_eq_rtake_run ops (m.maxSize s) h (maxSize_window hw s) hs
      (queue_maxSize_rtake hw hq hs hle) hops
    simpa [run, step, newInsertions] using hnext

/-- The representation of every `mruset` of capacity `n > 0` after any calls: the set is
the set of the queue, which repeats nothing, and `size()` stays within a non-zero
capacity; over calls that never raise the capacity nor remove the limit, the queue is
the last `nMaxSize` new insertions, oldest first. -/
theorem mruset_window_of_shrinking (n : Nat) (hn : 0 < n) (ops : List (MruOp T)) :
    let m := (empty n : MruSet T).run ops
    m.set = m.queue.toFinset ∧ m.queue.Nodup ∧ (m.nMaxSize ≠ 0 → m.set.card ≤ m.nMaxSize) ∧
      (Shrinking n ops → m.queue = (newInsertions (empty n) ops).rtake m.nMaxSize) := by
  intro m
  have hw : Window m := window_run n ops
  refine ⟨hw.set_eq, hw.nodup, fun hcap => hw.card_set ▸ hw.bounded hcap, fun hops => ?_⟩
  simpa using queue_eq_rtake_run ops (empty n) [] (window_empty n) hn (by simp [empty]) hops

/-- Capacity 2 and three new insertions: the queue holds the last two. -/
theorem mruset_window_of_shrinking_three :
    0 < 2 ∧ (let m := (empty 2 : MruSet Nat).run [.insert 0, .insert 1, .insert 2]
      m.set = m.queue.toFinset ∧ m.queue.Nodup ∧ (m.nMaxSize ≠ 0 → m.set.card ≤ m.nMaxSize) ∧
        (Shrinking 2 [.insert 0, .insert 1, .insert 2] →
          m.queue = (newInsertions (empty 2) [.insert 0, .insert 1, .insert 2]).rtake m.nMaxSize)) :=
  ⟨by decide, mruset_window_of_shrinking 2 (by decide) _⟩

/-- A raised capacity keeps the shorter window: capacity 1, `insert(0)`, `insert(1)`,
then `max_size(2)`. Both insertions were new and the capacity is 2, but the set holds
only the second. -/
theorem mruset_raised_capacity_window :
    newInsertions (empty 1 : MruSet Nat) [.insert 0, .insert 1, .maxSize 2] = [0, 1] ∧
      ((empty 1 : MruSet Nat).run [.insert 0, .insert 1, .maxSize 2]).nMaxSize = 2 ∧
      ((empty 1 : MruSet Nat).run [.insert 0, .insert 1, .maxSize 2]).set = {1} := by
  decide

end MruSet

end Twister
