import Twister.Dht.Storage

/-!
# Refreshing stored items while the table changes

`refresh_storage` (node.cpp) walks `m_storage_table` and, for every item it
republishes, starts a `dht_get` traversal whose data callback is
`putData_confirm(_1, boost::ref(item))`: a reference to the `std::list` node that
holds the item. Each reply of the traversal runs the callback
(`dht_get::got_data`), at any later time and any number of times. Between the
replies the node handles packets and local posts, and `store_dht_item` inserts
into the lists and cuts a list longer than `max_entries_per_multi` with `resize`,
which destroys the nodes past the cut.

The model gives every list node an identity, allocated from a counter when
`store_dht_item` creates the node, and records for every started traversal the
target and node its callback refers to. A reply whose node is no longer in its
target's list reads and writes freed memory; the state records that it happened.
Forgetting the identities gives back the table of `store_dht_item`.

Refresh times are not part of the items (see `DhtStorageItem`): whether a node is
due is a parameter of each `refresh_storage` call, as are the clock, the post
counts of `m_posts_by_user` and the random draw of the probabilistic post refresh.
-/

namespace Twister.Dht

open Bencode

/-- A storage list with the identity of each node. -/
abbrev NodeList := List (Nat × DhtStorageItem)

/-- `m_storage_table` with node identities. -/
abbrev NodeTable := List (Bytes × NodeList)

/-- The table without the node identities. -/
def storageItems (table : NodeTable) : StorageTable :=
  table.map fun p => (p.1, p.2.map Prod.snd)

/-- The nodes of a target's list. -/
def targetNodes (table : NodeTable) (target : Bytes) : List Nat :=
  (OrdMap.findD target [] table).map Prod.fst

section Store

/-- `storeMulti` on a list of nodes: the walk runs over the items, and the new item
gets the node `fresh`. -/
def storeMultiNodes (lsto : NodeList) (fresh : Nat) (item : DhtStorageItem) (height : Int32)
    (bufv : Bytes) : Option (NodeList × Bool) :=
  let items := lsto.map Prod.snd
  match scanMulti bufv height (items.zipIdx.map fun (x, i) => (i, x)).reverse items.length with
  | none => none
  | some none => some (lsto, false)
  | some (some pos) => some (lsto.take pos ++ (fresh, item) :: lsto.drop pos, true)

/-- `storeSingle` on a list of nodes: `olditem = item` assigns into the node, which
keeps its identity. -/
def storeSingleNodes (lsto : NodeList) (item : DhtStorageItem) (seq : Int32) :
    Option (NodeList × Bool) :=
  (replaceNewer item seq (lsto.map Prod.snd).reverse).map fun (l, b) =>
    ((lsto.map Prod.fst).zip l.reverse, b)

/-- `store_dht_item` on the table of nodes, a new node taking the identity `fresh`. -/
def storeDhtItemNodes (maxEntriesPerMulti : Nat) (table : NodeTable) (fresh : Nat)
    (item : DhtStorageItem) (target : Bytes) (multi : Bool) (seq height : Int32) (bufv : Bytes) :
    Option (NodeTable × Bool) :=
  match OrdMap.find? target table with
  | none => some (OrdMap.insert target [(fresh, item)] table, true)
  | some lsto =>
    let updated := if multi then storeMultiNodes lsto fresh item height bufv
      else storeSingleNodes lsto item seq
    updated.map fun (l, stored) => (OrdMap.insert target (l.take maxEntriesPerMulti) table, stored)

/-- The single walk replaces items and never adds or drops one. -/
theorem length_replaceNewer {item : DhtStorageItem} {seq : Int32} {xs l : List DhtStorageItem}
    {b : Bool} (h : replaceNewer item seq xs = some (l, b)) : l.length = xs.length := by
  induction xs generalizing l b with
  | nil =>
    simp only [replaceNewer, Option.some.injEq, Prod.mk.injEq] at h
    rw [← h.1]
  | cons old rest ih =>
    unfold replaceNewer at h
    split at h
    · cases h
    · split_ifs at h
      · obtain ⟨⟨l', b'⟩, hrest, hl⟩ := Option.map_eq_some_iff.mp h
        simp only [Prod.mk.injEq] at hl
        rw [← hl.1, List.length_cons, ih hrest, List.length_cons]
      · simp only [Option.some.injEq, Prod.mk.injEq] at h
        rw [← h.1]

theorem storeMultiNodes_items (lsto : NodeList) (fresh : Nat) (item : DhtStorageItem)
    (height : Int32) (bufv : Bytes) :
    (storeMultiNodes lsto fresh item height bufv).map (fun r => (r.1.map Prod.snd, r.2)) =
      storeMulti (lsto.map Prod.snd) item height bufv := by
  unfold storeMultiNodes storeMulti
  dsimp only
  cases scanMulti bufv height ((lsto.map Prod.snd).zipIdx.map fun (x, i) => (i, x)).reverse
      (lsto.map Prod.snd).length with
  | none => rfl
  | some r =>
    cases r with
    | none => rfl
    | some pos => simp [List.map_take, List.map_drop]

theorem storeSingleNodes_items (lsto : NodeList) (item : DhtStorageItem) (seq : Int32) :
    (storeSingleNodes lsto item seq).map (fun r => (r.1.map Prod.snd, r.2)) =
      storeSingle (lsto.map Prod.snd) item seq := by
  unfold storeSingleNodes storeSingle
  cases h : replaceNewer item seq (lsto.map Prod.snd).reverse with
  | none => rfl
  | some r =>
    obtain ⟨l, b⟩ := r
    have hlen : l.reverse.length = (lsto.map Prod.fst).length := by
      simp [length_replaceNewer h]
    simp [List.map_snd_zip, hlen]

/-- Forgetting the node identities, the store on nodes is `store_dht_item`. -/
theorem storeDhtItemNodes_items (maxEntriesPerMulti : Nat) (table : NodeTable) (fresh : Nat)
    (item : DhtStorageItem) (target : Bytes) (multi : Bool) (seq height : Int32) (bufv : Bytes) :
    (storeDhtItemNodes maxEntriesPerMulti table fresh item target multi seq height bufv).map
        (fun r => (storageItems r.1, r.2)) =
      storeDhtItem maxEntriesPerMulti (storageItems table) item target multi seq height bufv := by
  unfold storeDhtItemNodes storeDhtItem storageItems
  rw [OrdMap.find?_map_snd]
  cases OrdMap.find? target table with
  | none =>
    simp only [Option.map_none, Option.map_some]
    rw [← OrdMap.insert_map_snd]
    rfl
  | some lsto =>
    simp only [Option.map_some]
    cases multi
    · rw [if_neg Bool.false_ne_true, if_neg Bool.false_ne_true, ← storeSingleNodes_items]
      cases storeSingleNodes lsto item seq <;> simp [← OrdMap.insert_map_snd, List.map_take]
    · rw [if_pos rfl, if_pos rfl, ← storeMultiNodes_items]
      cases storeMultiNodes lsto fresh item height bufv <;>
        simp [← OrdMap.insert_map_snd, List.map_take]

/-- A multi store keeps every node of the list and adds at most the new one. -/
theorem storeMultiNodes_nodes {lsto l : NodeList} {fresh : Nat} {item : DhtStorageItem}
    {height : Int32} {bufv : Bytes} {stored : Bool}
    (h : storeMultiNodes lsto fresh item height bufv = some (l, stored)) :
    (∀ n ∈ lsto.map Prod.fst, n ∈ l.map Prod.fst) ∧ l.length ≤ lsto.length + 1 := by
  unfold storeMultiNodes at h
  dsimp only at h
  split at h
  · cases h
  · simp only [Option.some.injEq, Prod.mk.injEq] at h
    rw [← h.1]
    exact ⟨fun n hn => hn, Nat.le_succ _⟩
  · rename_i pos _
    simp only [Option.some.injEq, Prod.mk.injEq] at h
    rw [← h.1]
    refine ⟨fun n hn => ?_, by simp; omega⟩
    rw [← List.take_append_drop pos lsto, List.map_append, List.mem_append] at hn
    simp only [List.map_append, List.map_cons, List.mem_append, List.mem_cons]
    rcases hn with hn | hn
    · exact Or.inl hn
    · exact Or.inr (Or.inr hn)

/-- A single store keeps the nodes of the list. -/
theorem storeSingleNodes_nodes {lsto l : NodeList} {item : DhtStorageItem} {seq : Int32}
    {stored : Bool} (h : storeSingleNodes lsto item seq = some (l, stored)) :
    l.map Prod.fst = lsto.map Prod.fst := by
  unfold storeSingleNodes at h
  obtain ⟨⟨l', b'⟩, hr, hl⟩ := Option.map_eq_some_iff.mp h
  simp only [Prod.mk.injEq] at hl
  rw [← hl.1, List.map_fst_zip]
  simp [length_replaceNewer hr]

/-- A store assigns one list, to its target; when the target's list had room, the
new list holds all of its nodes. -/
theorem storeDhtItemNodes_eq {maxEntriesPerMulti : Nat} {table t' : NodeTable} {fresh : Nat}
    {item : DhtStorageItem} {target : Bytes} {multi : Bool} {seq height : Int32} {bufv : Bytes}
    {stored : Bool}
    (h : storeDhtItemNodes maxEntriesPerMulti table fresh item target multi seq height bufv =
      some (t', stored)) :
    ∃ l : NodeList, t' = OrdMap.insert target l table ∧
      ((OrdMap.findD target [] table).length < maxEntriesPerMulti →
        ∀ n ∈ targetNodes table target, n ∈ l.map Prod.fst) := by
  unfold storeDhtItemNodes at h
  cases hfind : OrdMap.find? target table with
  | none =>
    rw [hfind, Option.some.injEq, Prod.mk.injEq] at h
    refine ⟨_, h.1.symm, fun _ n hn => ?_⟩
    simp [targetNodes, OrdMap.findD, hfind] at hn
  | some lsto =>
    rw [hfind] at h
    obtain ⟨⟨l, b⟩, hupd, heq⟩ := Option.map_eq_some_iff.mp h
    simp only [Prod.mk.injEq] at heq
    refine ⟨l.take maxEntriesPerMulti, heq.1.symm, fun hroom n hn => ?_⟩
    simp only [targetNodes, OrdMap.findD, hfind, Option.getD_some] at hroom hn
    have hkeep : (∀ n ∈ lsto.map Prod.fst, n ∈ l.map Prod.fst) ∧ l.length ≤ lsto.length + 1 := by
      cases multi
      · simp only [Bool.false_eq_true, if_false] at hupd
        have hnodes := storeSingleNodes_nodes hupd
        have hlen : l.length = lsto.length := by
          simpa using congrArg List.length hnodes
        exact ⟨fun n hn => hnodes ▸ hn, by omega⟩
      · exact storeMultiNodes_nodes hupd
    rw [List.take_of_length_le (by omega)]
    exact hkeep.1 n hn

/-- A store into a list with room keeps every node of every list. -/
theorem targetNodes_storeDhtItemNodes {maxEntriesPerMulti : Nat} {table t' : NodeTable}
    {fresh : Nat} {item : DhtStorageItem} {target : Bytes} {multi : Bool} {seq height : Int32}
    {bufv : Bytes} {stored : Bool}
    (h : storeDhtItemNodes maxEntriesPerMulti table fresh item target multi seq height bufv =
      some (t', stored))
    (hroom : (OrdMap.findD target [] table).length < maxEntriesPerMulti) {tg : Bytes} {n : Nat}
    (hn : n ∈ targetNodes table tg) : n ∈ targetNodes t' tg := by
  obtain ⟨l, rfl, hkeep⟩ := storeDhtItemNodes_eq h
  by_cases htg : tg = target
  · subst htg
    simpa [targetNodes] using hkeep hroom n hn
  · simpa [targetNodes, OrdMap.findD_insert_of_ne _ _ _ htg] using hn

theorem sorted_storeDhtItemNodes {maxEntriesPerMulti : Nat} {table t' : NodeTable} {fresh : Nat}
    {item : DhtStorageItem} {target : Bytes} {multi : Bool} {seq height : Int32} {bufv : Bytes}
    {stored : Bool} (hs : OrdMap.Sorted table)
    (h : storeDhtItemNodes maxEntriesPerMulti table fresh item target multi seq height bufv =
      some (t', stored)) : OrdMap.Sorted t' := by
  obtain ⟨l, rfl, -⟩ := storeDhtItemNodes_eq h
  exact OrdMap.sorted_insert bytesStrictOrder _ _ hs

end Store

section Refresh

/-- What one `refresh_storage` call reads besides the table: `has_expired`'s inputs,
whose best height is also `getBestHeight()`; whether a node's `next_refresh_time`
has passed; the clock `time(NULL)`; `m_posts_by_user`, the known posts and last post
number of a user; and whether `getRandom() > 25. / (knownPosts - 25)` for a user
with `knownPosts` posts. -/
structure RefreshEnv where
  expiry : ExpiryEnv
  due : Nat → Bool
  now : Int64
  postsByUser : Bytes → Int32 × Int32
  randomSkip : Int32 → Bool

/-- Two days in seconds: how long a locally added item counts as recent, and how
long `putData_confirm` waits before it confirms an item anyway. -/
def twoDays : Int64 := 60 * 60 * 24 * 2

/-- The body of `refresh_storage`'s inner loop for one node, up to the start of the
traversal: whether a `dht_get` is started with a reference to the node. An expired
item, one not due, and one without a `target` start none; an item above the best
height, and a post of a user that posts a lot, unless the draw keeps it, are
skipped; of the others, single items, mentions and recent local items are
refreshed. -/
def refreshesItem (env : RefreshEnv) (node : Nat) (item : DhtStorageItem) : Bool :=
  if hasExpired env.expiry item true then false
  else if !env.due node then false
  else
    let localAndRecent := item.localAddTime != 0 && item.localAddTime + twoDays > env.now
    let p := decodeStored item
    let height := (p.dictFindIntValue item.p (bytesOf "height")).toInt32
    let skip : Bool := height > env.expiry.bestHeight
    match p.dictFindDict item.p (bytesOf "target") with
    | none => false
    | some target =>
      let username := target.dictFindStringValue item.p (bytesOf "n")
      let resource := target.dictFindStringValue item.p (bytesOf "r")
      let multi := target.dictFindStringValue item.p (bytesOf "t") == bytesOf "m"
      let skip :=
        if resource.take 4 = bytesOf "post" then
          let resourceNumber := atoi (resource.drop 4)
          let (knownPosts, lastPost) := env.postsByUser username
          if resourceNumber < lastPost - 100 && knownPosts > 25 then skip || env.randomSkip knownPosts
          else skip
        else skip
      !skip && (!multi || resource == bytesOf "mention" || localAndRecent)

/-- `refresh_storage`: the target and node of every traversal it starts, in table
order. -/
def refreshStorage (env : RefreshEnv) (table : NodeTable) : List (Bytes × Nat) :=
  table.flatMap fun p =>
    (p.2.filter fun x => refreshesItem env x.1 x.2).map fun x => (p.1, x.1)

/-- Every traversal `refresh_storage` starts refers to a node of its target's list. -/
theorem mem_refreshStorage {env : RefreshEnv} {table : NodeTable} (hs : OrdMap.Sorted table)
    {b : Bytes × Nat} (hb : b ∈ refreshStorage env table) : b.2 ∈ targetNodes table b.1 := by
  unfold refreshStorage at hb
  obtain ⟨p, hp, hbp⟩ := List.mem_flatMap.mp hb
  obtain ⟨x, hx, rfl⟩ := List.mem_map.mp hbp
  have hfind : OrdMap.find? p.1 table = some p.2 :=
    OrdMap.find?_eq_some_of_mem (hs.nodup bytesStrictOrder) hp
  simp only [targetNodes, OrdMap.findD, hfind, Option.getD_some]
  exact List.mem_map_of_mem (List.mem_filter.mp hx).1

/-- `putData_confirm(values_list, item)` at time `now`: an unconfirmed item is
confirmed by a reply value carrying its `sig_p`, or by timeout two days after its
local add. -/
def putDataConfirm (valuesList : List Entry) (now : Int64) (item : DhtStorageItem) :
    DhtStorageItem :=
  if item.confirmed then item
  else
    let confirmed := valuesList.any fun e => e.findKey (bytesOf "sig_p") == some (.string item.sigP)
    { item with confirmed := confirmed || now > item.localAddTime + twoDays }

/-- The callback's write through its reference: the node's item becomes `f` of it. -/
def updateNode (table : NodeTable) (target : Bytes) (node : Nat)
    (f : DhtStorageItem → DhtStorageItem) : NodeTable :=
  OrdMap.insert target
    ((OrdMap.findD target [] table).map fun x => if x.1 = node then (x.1, f x.2) else x) table

/-- Writing through a reference changes no list's nodes. -/
theorem targetNodes_updateNode (table : NodeTable) (target : Bytes) (node : Nat)
    (f : DhtStorageItem → DhtStorageItem) (tg : Bytes) :
    targetNodes (updateNode table target node f) tg = targetNodes table tg := by
  unfold updateNode targetNodes
  by_cases htg : tg = target
  · subst htg
    simp only [OrdMap.findD_insert_self, List.map_map]
    congr 1
    funext x
    simp only [Function.comp_apply]
    split <;> rfl
  · rw [OrdMap.findD_insert_of_ne _ _ _ htg]

end Refresh

section Node

/-- The storage side of a DHT node: the table, the identity the next node gets,
the target and node of every traversal started so far, in start order, and whether
a callback has run on a destroyed node. -/
structure DhtNodeState where
  table : NodeTable
  nextNode : Nat
  traversals : List (Bytes × Nat)
  freedAccess : Bool

/-- What happens to a node's storage: a `refresh_storage` call, a reply reaching a
started traversal (`got_data`, at time `now`), or a `store_dht_item` call, from a
`putData` request or a local `putDataSigned`. -/
inductive DhtEvent where
  | refreshStorage (env : RefreshEnv)
  | gotData (traversal : Nat) (valuesList : List Entry) (now : Int64)
  | storeDhtItem (item : DhtStorageItem) (target : Bytes) (multi : Bool) (seq height : Int32)
      (bufv : Bytes)

/-- The node is still in its target's list. -/
def nodeLive (table : NodeTable) (target : Bytes) (node : Nat) : Bool :=
  decide (node ∈ targetNodes table target)

/-- One event. A reply for a traversal never started changes nothing; a reply whose
node was destroyed reads and writes freed memory, which is recorded. `none` when
`store_dht_item` dereferences a missing field. -/
def stepNode (maxEntriesPerMulti : Nat) (s : DhtNodeState) : DhtEvent → Option DhtNodeState
  | .refreshStorage env => some { s with traversals := s.traversals ++ refreshStorage env s.table }
  | .gotData traversal valuesList now =>
    match s.traversals[traversal]? with
    | none => some s
    | some (target, node) =>
      if nodeLive s.table target node then
        some { s with table := updateNode s.table target node (putDataConfirm valuesList now) }
      else some { s with freedAccess := true }
  | .storeDhtItem item target multi seq height bufv =>
    (storeDhtItemNodes maxEntriesPerMulti s.table s.nextNode item target multi seq height
      bufv).map fun r => { s with table := r.1, nextNode := s.nextNode + 1 }

/-- A run of events, stopped by a failed store. -/
def runNode (maxEntriesPerMulti : Nat) : DhtNodeState → List DhtEvent → Option DhtNodeState
  | s, [] => some s
  | s, ev :: evs => (stepNode maxEntriesPerMulti s ev).bind fun s' => runNode maxEntriesPerMulti s' evs

/-- The event is not a store into a target whose list is already full. -/
def DhtEvent.findsRoom (maxEntriesPerMulti : Nat) (table : NodeTable) : DhtEvent → Bool
  | .storeDhtItem _ target .. => decide ((OrdMap.findD target [] table).length < maxEntriesPerMulti)
  | _ => true

/-- Every store of the run finds its target's list with room for one more item. -/
def storesFindRoom (maxEntriesPerMulti : Nat) : DhtNodeState → List DhtEvent → Bool
  | _, [] => true
  | s, ev :: evs => ev.findsRoom maxEntriesPerMulti s.table &&
      match stepNode maxEntriesPerMulti s ev with
      | some s' => storesFindRoom maxEntriesPerMulti s' evs
      | none => true

/-- The state of a node no callback has hurt: the table is a map, every started
traversal's node is still in its target's list, and no callback has run on a
destroyed node. -/
structure NodeSafe (s : DhtNodeState) : Prop where
  sorted : OrdMap.Sorted s.table
  live : ∀ b ∈ s.traversals, nodeLive s.table b.1 b.2 = true
  noFreed : s.freedAccess = false

/-- Refreshes and replies keep a node safe, and so does a store that finds room. -/
theorem nodeSafe_step {maxEntriesPerMulti : Nat} {s s' : DhtNodeState} {ev : DhtEvent}
    (hs : NodeSafe s) (hroom : ev.findsRoom maxEntriesPerMulti s.table = true)
    (h : stepNode maxEntriesPerMulti s ev = some s') : NodeSafe s' := by
  cases ev with
  | refreshStorage env =>
    simp only [stepNode, Option.some.injEq] at h
    subst h
    refine ⟨hs.sorted, fun b hb => ?_, hs.noFreed⟩
    rcases List.mem_append.mp hb with hb | hb
    · exact hs.live b hb
    · simpa [nodeLive] using mem_refreshStorage hs.sorted hb
  | gotData traversal valuesList now =>
    simp only [stepNode] at h
    cases hi : s.traversals[traversal]? with
    | none =>
      simp only [hi, Option.some.injEq] at h
      exact h ▸ hs
    | some b =>
      obtain ⟨target, node⟩ := b
      have hlive := hs.live _ (List.mem_of_getElem? hi)
      simp only [hi, hlive, if_true, Option.some.injEq] at h
      subst h
      refine ⟨OrdMap.sorted_insert bytesStrictOrder _ _ hs.sorted, fun b hb => ?_, hs.noFreed⟩
      simpa [nodeLive, targetNodes_updateNode] using hs.live b hb
  | storeDhtItem item target multi seq height bufv =>
    simp only [stepNode] at h
    obtain ⟨⟨t', stored⟩, hstore, rfl⟩ := Option.map_eq_some_iff.mp h
    simp only [DhtEvent.findsRoom, decide_eq_true_eq] at hroom
    refine ⟨sorted_storeDhtItemNodes hs.sorted hstore, fun b hb => ?_, hs.noFreed⟩
    have hb' := hs.live b hb
    simp only [nodeLive, decide_eq_true_eq] at hb' ⊢
    exact targetNodes_storeDhtItemNodes hstore hroom hb'

/-- Until a store finds its target's list full, every reply of every traversal
finds its node in its target's list: a run whose stores all find room keeps a safe
node safe. -/
theorem nodeSafe_run {maxEntriesPerMulti : Nat} {evs : List DhtEvent} :
    ∀ {s s' : DhtNodeState}, NodeSafe s → storesFindRoom maxEntriesPerMulti s evs = true →
      runNode maxEntriesPerMulti s evs = some s' → NodeSafe s' := by
  induction evs with
  | nil =>
    intro s s' hs _ h
    simp only [runNode, Option.some.injEq] at h
    exact h ▸ hs
  | cons ev evs ih =>
    intro s s' hs hroom h
    obtain ⟨s₁, h₁, h₂⟩ := Option.bind_eq_some_iff.mp h
    simp only [storesFindRoom, h₁, Bool.and_eq_true] at hroom
    exact ih (nodeSafe_step hs hroom.1 h₁) hroom.2 h₂

end Node

section Scenario

/-- A mention of `alice` stored at `height`, with value `height`. -/
def mentionAt (height : Nat) : DhtStorageItem :=
  { p := bencode (.dict [(bytesOf "height", .int (Int64.ofNat height)),
      (bytesOf "target", .dict [(bytesOf "n", .string (bytesOf "alice")),
        (bytesOf "r", .string (bytesOf "mention")), (bytesOf "t", .string (bytesOf "m"))]),
      (bytesOf "time", .int 1), (bytesOf "v", .int (Int64.ofNat height))]),
    sigP := [1], sigUser := bytesOf "bob" }

/-- A node whose list of mentions of `alice` is full at the default
`max_entries_per_multi` of 32: the mentions at heights 32 down to 1, in the order
`store_dht_item` keeps them, as `load_storage` fills the table at start, its nodes
numbered from the front. -/
def fullMentionNode : DhtNodeState where
  table := [(sampleTarget, (List.range 32).map fun k => (k, mentionAt (32 - k)))]
  nextNode := 32
  traversals := []
  freedAccess := false

/-- A `refresh_storage` call at best height 100 with every node due. -/
def refreshAllDue : RefreshEnv where
  expiry := { bestHeight := 100, verifySignature := fun _ _ _ => true }
  due _ := true
  now := 0
  postsByUser _ := (0, 0)
  randomSkip _ := false

/-- `refresh_storage` refreshes all 32 mentions; traversal 31 refers to the lowest.
A mention at height 33 then arrives, goes to the front, and `resize` destroys the
lowest; the next reply of traversal 31 runs `putData_confirm` on the destroyed node. -/
theorem putDataConfirm_reaches_freed_node :
    (runNode 32 fullMentionNode
      [.refreshStorage refreshAllDue,
        .storeDhtItem (mentionAt 33) sampleTarget true 0 33 (bencode (.int 33)),
        .gotData 31 [] 0]).map (fun s => (s.traversals[31]?, s.freedAccess)) =
      some (some (sampleTarget, 31), true) := by
  decide +kernel

end Scenario

end Twister.Dht
