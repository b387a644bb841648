import Twister.Dht.Expire
import Twister.Dht.Message

/-!
# The DHT storage table

`node_impl::m_storage_table` maps a target id to a list of stored items. One
writer, `store_dht_item` (node.cpp), serves both incoming `putData` requests and
local `putDataSigned` calls: a single-item target keeps the item with the
greatest sequence number, a multi-item target keeps a list ordered by height,
without two items of byte-equal value, cut to `max_entries_per_multi`. The
old items are re-decoded with `lazy_bdecode(..., 10, 500)` on every call, and
the fields read from them are dereferenced without a check; the model makes such
a null dereference a failed call (`none`). The `putData` branch of
`incoming_request` checks a request and passes `store_dht_item` the `seq` and
`height` of `p` narrowed to `int`s.

`save_storage` writes the table into an entry and `load_storage` reads it back
when the node starts, dropping the items `has_expired` reports.
-/

namespace Twister.Dht

open Bencode

/-- `dht_storage_item`: the bencoded `p`, its signature and signer, the time it
was added locally and whether it was confirmed. The refresh time is not modelled. -/
structure DhtStorageItem where
  p : Bytes
  sigP : Bytes
  sigUser : Bytes
  localAddTime : Int64 := 0
  confirmed : Bool := true
  deriving Repr, DecidableEq

/-- `dht_storage_table_t`: target id to item list, in key order. -/
abbrev StorageTable := List (Bytes × List DhtStorageItem)

/-- A stored item's `p`, re-decoded as the storage code does it. The return code
is ignored by the source, so a failed parse yields its partial tree. -/
def decodeStored (item : DhtStorageItem) : LazyEntry := (lazyBdecode item.p 10 500).ret

/-- The single-target walk from the back of the list: the new item replaces every
item whose `seq` it exceeds, until the first one it does not. The second
component says whether anything was replaced; `none` when an item has no integer
`seq` to dereference. -/
def replaceNewer (item : DhtStorageItem) (seq : Int32) :
    List DhtStorageItem → Option (List DhtStorageItem × Bool)
  | [] => some ([], false)
  | old :: rest =>
    match (decodeStored old).dictFindInt old.p (bytesOf "seq") with
    | none => none
    | some e =>
      if seq.toInt64 > e.intValue old.p then
        (replaceNewer item seq rest).map fun (l, _) => (item :: l, true)
      else some (old :: rest, false)

/-- The multi-target walk from the back, over items paired with their index. An
item whose `v` is byte-equal to the new one stops the walk (`some none`); otherwise
the insertion position is the index of the last item visited whose height is at
most the new height, the end if none is. `none` when an item has no `v`. -/
def scanMulti (bufv : Bytes) (height : Int32) :
    List (Nat × DhtStorageItem) → Nat → Option (Option Nat)
  | [], pos => some (some pos)
  | (i, old) :: rest, pos =>
    let p := decodeStored old
    match p.dictFind old.p (bytesOf "v") with
    | none => none
    | some v =>
      if bufv = v.dataSection old.p then some none
      else
        let pos := if height.toInt64 ≥ p.dictFindIntValue old.p (bytesOf "height") then i else pos
        scanMulti bufv height rest pos

/-- The list of a target after a multi-target store, before truncation, and
whether the item was inserted. -/
def storeMulti (lsto : List DhtStorageItem) (item : DhtStorageItem) (height : Int32)
    (bufv : Bytes) : Option (List DhtStorageItem × Bool) :=
  match scanMulti bufv height (lsto.zipIdx.map fun (x, i) => (i, x)).reverse lsto.length with
  | none => none
  | some none => some (lsto, false)
  | some (some pos) => some (lsto.take pos ++ item :: lsto.drop pos, true)

/-- The list of a target after a single-target store, and whether an item was
replaced. -/
def storeSingle (lsto : List DhtStorageItem) (item : DhtStorageItem) (seq : Int32) :
    Option (List DhtStorageItem × Bool) :=
  (replaceNewer item seq lsto.reverse).map fun (l, b) => (l.reverse, b)

/-- `store_dht_item(item, target, multi, seq, height, bufv)`: the new table and the
returned `stored`. A new target gets a one-item list; an existing list is updated
by `storeSingle` or `storeMulti` and then cut to `max_entries_per_multi`. -/
def storeDhtItem (maxEntriesPerMulti : Nat) (table : StorageTable) (item : DhtStorageItem)
    (target : Bytes) (multi : Bool) (seq height : Int32) (bufv : Bytes) :
    Option (StorageTable × Bool) :=
  match OrdMap.find? target table with
  | none => some (OrdMap.insert target [item] table, true)
  | some lsto =>
    let updated := if multi then storeMulti lsto item height bufv else storeSingle lsto item seq
    updated.map fun (l, stored) => (OrdMap.insert target (l.take maxEntriesPerMulti) table, stored)

/-! ## The `putData` request -/

/-- The key description of a `putData` request, from `mk_token` to `mk_t`: `p` with
its children, and `target` with its children inside `p`. -/
def putDataDesc : List KeyDesc :=
  [{ name := bytesOf "token", type := .string },
    { name := bytesOf "sig_p", type := .string },
    { name := bytesOf "sig_user", type := .string },
    { name := bytesOf "p", type := .dict, parseChildren := true },
    { name := bytesOf "v", type := .none },
    { name := bytesOf "seq", type := .int, optional := true },
    { name := bytesOf "time", type := .int },
    { name := bytesOf "height", type := .int },
    { name := bytesOf "target", type := .dict, parseChildren := true },
    { name := bytesOf "n", type := .string },
    { name := bytesOf "r", type := .string },
    { name := bytesOf "t", type := .string }]

/-- What a `putData` request reads besides the message and the table: the target id
`hasher(target).final()`, `verify_token` for the sender, `verifySignature`,
`getBestHeight()`, `GetAdjustedTime()`, and whether the routing table puts this node
among the closest to a target (`possiblyNeighbor`). -/
structure PutEnv where
  hash : Bytes → Bytes
  verifyToken : Bytes → Bytes → Bool
  verifySignature : Bytes → Bytes → Bytes → Bool
  bestHeight : Int32
  adjustedTime : Int64
  possiblyNeighbor : Bytes → Bool

/-- How `incoming_request` ends a `putData`: `verify_message` rejects the message
(its error text is not modelled); `incoming_error` with a text; the request is
dropped by a node that is not a possible neighbour of the target; or
`store_dht_item` ran, giving the new table and its result, on which
`process_newly_stored_entry` runs. -/
inductive PutDataResult where
  | invalid
  | error (msg : String)
  | ignored
  | stored (table : StorageTable) (stored : Bool)
  deriving DecidableEq

/-- The `putData` branch of `incoming_request` on the arguments `msg` of a request,
read in the packet `input`. After its checks, in the source's order, it stores the
item under the target id, passing `store_dht_item` the `seq` and `height` of `p`
narrowed to `int`s. `none` is a null dereference in `store_dht_item`. -/
def putData (env : PutEnv) (maxEntriesPerMulti : Nat) (table : StorageTable) (input : Bytes)
    (msg : LazyEntry) : Option PutDataResult :=
  match verifyMessage input msg putDataDesc with
  | some [some token, some sigP, some sigUser, some p, some v, seq, some time, some height,
      some target, some n, some r, some t] =>
    let multi := t.stringValue input = bytesOf "m"
    let maxSize : Int := if multi then 768 else 8192
    if p.length > maxSize ∨ p.length ≤ 0 then some (.error "message too big")
    else if target.dictSize ≠ 3 then some (.error "target dict size != 3")
    else
      let targetId := env.hash (target.dataSection input)
      let strP := p.dataSection input
      if !env.verifyToken (token.stringValue input) targetId then some (.error "invalid token")
      else if !env.verifySignature strP (sigUser.stringValue input) (sigP.stringValue input) then
        some (.error "invalid signature")
      else if !multi ∧ sigUser.stringValue input ≠ n.stringValue input then
        some (.error "only owner is allowed")
      else if (r.stringValue input).length > 32 then some (.error "resource name too big")
      else if !multi && (seq.map fun s : LazyEntry => decide (s.intValue input < 0)).getD true then
        some (.error "seq is required for single")
      else if height.intValue input > (env.bestHeight + 1).toInt64 ∧ env.bestHeight > 0 then
        some (.error "height > getBestHeight")
      else if time.intValue input > env.adjustedTime + maxTimeInFuture then
        some (.error "time > GetAdjustedTime")
      else if !env.possiblyNeighbor targetId then some .ignored
      else
        let item : DhtStorageItem :=
          { p := strP, sigP := sigP.stringValue input, sigUser := sigUser.stringValue input }
        let seqArg : Int32 := if multi then 0 else ((seq.map (LazyEntry.intValue input)).getD 0).toInt32
        (storeDhtItem maxEntriesPerMulti table item targetId multi seqArg
            (height.intValue input).toInt32 (v.dataSection input)).map
          fun (table, stored) => .stored table stored
  | _ => some .invalid

/-- The entry `save_storage` writes for one item. -/
def saveItem (item : DhtStorageItem) : Entry :=
  let d : List (Bytes × Entry) :=
    OrdMap.insert (bytesOf "sig_user") (.string item.sigUser) <|
      OrdMap.insert (bytesOf "sig_p") (.string item.sigP) <|
        OrdMap.insert (bytesOf "p") (.string item.p) []
  let d := if item.localAddTime ≠ 0 then
    OrdMap.insert (bytesOf "local_add_time") (.int item.localAddTime) d else d
  .dict (OrdMap.insert (bytesOf "confirmed") (.int (if item.confirmed then 1 else 0)) d)

/-- `save_storage`: every non-empty list under its target, or nothing when no list
was written. -/
def saveStorage (table : StorageTable) : Option Entry :=
  let lists := table.filterMap fun (target, lsto) =>
    if lsto.isEmpty then none else some (target, Entry.list (lsto.map saveItem))
  if lists.isEmpty then none
  else some (.dict (lists.foldl (fun d (k, v) => OrdMap.insert k v d) []))

/-- Reading one saved item back. `find_key(...)->string()` and `integer()` throw or
dereference null on a missing or mistyped field; that is `none`. -/
def loadItem (j : Entry) : Option DhtStorageItem :=
  match j.findKey (bytesOf "p"), j.findKey (bytesOf "sig_p"), j.findKey (bytesOf "sig_user") with
  | some (.string p), some (.string sigP), some (.string sigUser) =>
    let localAddTime : Option Int64 := match j.findKey (bytesOf "local_add_time") with
      | none => some 0
      | some (.int v) => some v
      | some _ => none
    let confirmed : Option Bool := match j.findKey (bytesOf "confirmed") with
      | none => some true
      | some (.int v) => some (v ≠ 0)
      | some _ => none
    match localAddTime, confirmed with
    | some localAddTime, some confirmed => some { p, sigP, sigUser, localAddTime, confirmed }
    | _, _ => none
  | _, _, _ => none

/-- What `has_expired` reads besides the item: the best height, and the signature
check `verifySignature(p, sig_user, sig_p)`, which rests on the key store. -/
structure ExpiryEnv where
  bestHeight : Int32
  verifySignature : Bytes → Bytes → Bytes → Bool

/-- The key description `has_expired` checks `p` against. -/
def expireDesc : List KeyDesc :=
  [{ name := bytesOf "v", type := .none },
    { name := bytesOf "seq", type := .int, optional := true },
    { name := bytesOf "time", type := .int },
    { name := bytesOf "height", type := .int },
    { name := bytesOf "target", type := .dict, parseChildren := true },
    { name := bytesOf "n", type := .string },
    { name := bytesOf "r", type := .string },
    { name := bytesOf "t", type := .string }]

/-- The node found for the `i`-th description. -/
def keyAt (keys : List (Option LazyEntry)) (i : Nat) : Option LazyEntry := (keys[i]?).join

/-- `has_expired(item, skipSigCheck)`: never before the chain has a block; a bad
signature or a `p` that fails the description expires; otherwise the resource's
expiry rule decides, at the item's height truncated to an `int`. -/
def hasExpired (env : ExpiryEnv) (item : DhtStorageItem) (skipSigCheck : Bool := false) : Bool :=
  if env.bestHeight < 1 then false
  else if !skipSigCheck && !env.verifySignature item.p item.sigUser item.sigP then true
  else
    match verifyMessage item.p (decodeStored item) expireDesc with
    | none => true
    | some keys =>
      let str (i : Nat) := ((keyAt keys i).map (LazyEntry.stringValue item.p)).getD []
      let multi := str 7 = bytesOf "m"
      let height := (((keyAt keys 3).map (LazyEntry.intValue item.p)).getD 0).toInt32
      shouldDhtResourceExpire env.bestHeight (str 6) multi height

/-- The items of one saved list that `load_storage` keeps: those not expired. -/
def loadList (env : ExpiryEnv) : List Entry → Option (List DhtStorageItem)
  | [] => some []
  | j :: js =>
    match loadItem j, loadList env js with
    | some item, some rest => some (if hasExpired env item then rest else item :: rest)
    | _, _ => none

/-- `load_storage(e)`: every list of the saved dictionary is inserted under its
target, with `std::map::insert`, which keeps an existing key. A target whose items
all expired still gets its (empty) list. -/
def loadStorage (env : ExpiryEnv) (table : StorageTable) : Option Entry → Option StorageTable
  | some (.dict d) =>
    d.foldl (fun acc (key, value) =>
      acc.bind fun t =>
        match value with
        | .list js =>
          (loadList env js).map fun items =>
            if OrdMap.contains (key.take 20) t then t else OrdMap.insert (key.take 20) items t
        | _ => some t) (some table)
  | _ => some table

/-- The `p` of an item stored at `height`: target `{n: alice, r, t}`, and a `seq`
for a single item. -/
def sampleP (resource type : String) (height : Int64) (seq : Option Int64) : Entry :=
  .dict ([(bytesOf "height", .int height)] ++
    (seq.map fun s => [(bytesOf "seq", Entry.int s)]).getD [] ++
    [(bytesOf "target", .dict [(bytesOf "n", .string (bytesOf "alice")),
        (bytesOf "r", .string (bytesOf resource)), (bytesOf "t", .string (bytesOf type))]),
      (bytesOf "time", .int 1), (bytesOf "v", .string (bytesOf "hi"))])

/-- A mention stored at height 5, a multi item. -/
def mentionItem : DhtStorageItem :=
  { p := bencode (sampleP "mention" "m" 5 none), sigP := [1], sigUser := bytesOf "alice" }

/-- A status with sequence number 1, a single item. -/
def statusItem : DhtStorageItem :=
  { p := bencode (sampleP "status" "s" 5 (some 1)), sigP := [1], sigUser := bytesOf "alice" }

/-- A target id. -/
def sampleTarget : Bytes := List.replicate 20 7

/-- A mention stored as a `putData` request stores it, saved, and loaded again once
the chain is 5000 blocks long: the mention has expired, and `load_storage` still
inserts the target, with an empty list. -/
theorem loadStorage_expired_target_empty :
    storeDhtItem 32 [] mentionItem sampleTarget true 0 5 (bencode (.string (bytesOf "hi"))) =
        some ([(sampleTarget, [mentionItem])], true) ∧
      loadStorage { bestHeight := 5000, verifySignature := fun _ _ _ => true } []
        (saveStorage [(sampleTarget, [mentionItem])]) = some [(sampleTarget, [])] := by
  decide

/-- A mention stored at height 3 with value `yo`. -/
def lowerMentionItem : DhtStorageItem :=
  { p := bencode (.dict [(bytesOf "height", .int 3),
      (bytesOf "target", .dict [(bytesOf "n", .string (bytesOf "alice")),
        (bytesOf "r", .string (bytesOf "mention")), (bytesOf "t", .string (bytesOf "m"))]),
      (bytesOf "time", .int 1), (bytesOf "v", .string (bytesOf "yo"))]),
    sigP := [2], sigUser := bytesOf "alice" }

/-- A `putData` request packet with the given arguments. -/
def putRequest (args : Entry) : Bytes :=
  bencode (.dict [(bytesOf "a", args), (bytesOf "q", .string (bytesOf "putData")),
    (bytesOf "t", .string [0, 1]), (bytesOf "y", .string (bytesOf "q"))])

/-- The arguments `incoming_request` reads from a packet: its `a` dictionary. -/
def requestArgs (packet : Bytes) : LazyEntry :=
  ((lazyBdecode packet 10 500).ret.dictFindDict packet (bytesOf "a")).getD .none

/-- A `putData` of alice's `status` with sequence number `seq`. -/
def statusPut (seq : Int64) : Bytes :=
  putRequest (.dict [(bytesOf "p", sampleP "status" "s" 5 (some seq)),
    (bytesOf "sig_p", .string [1]), (bytesOf "sig_user", .string (bytesOf "alice")),
    (bytesOf "token", .string [9])])

/-- Every token and signature verifies, every target id is `sampleTarget`, the best
height is `10`, the clock reads `100`, and the node is a possible neighbour. -/
def acceptAllPut : PutEnv where
  hash _ := sampleTarget
  verifyToken _ _ := true
  verifySignature _ _ _ := true
  bestHeight := 10
  adjustedTime := 100
  possiblyNeighbor _ := true

/-- The `seq` of a stored item, as `dict_find_int("seq")->int_value()` reads it. -/
def storedSeq (old : DhtStorageItem) : Option Int64 :=
  ((decodeStored old).dictFindInt old.p (bytesOf "seq")).map (LazyEntry.intValue old.p)

/-- The bencoded `v` of a stored item, its `data_section`. -/
def storedValue (old : DhtStorageItem) : Option Bytes :=
  ((decodeStored old).dictFind old.p (bytesOf "v")).map (LazyEntry.dataSection old.p)

/-- The `height` of a stored item, `0` when it has none. -/
def storedHeight (old : DhtStorageItem) : Int64 :=
  (decodeStored old).dictFindIntValue old.p (bytesOf "height")

/-- A list `store_dht_item` walks without dereferencing a missing field: a single
target's list has at most one item, with an integer `seq`, and every item of a
multi target's list has a `v`. -/
def storable (multi : Bool) (lsto : List DhtStorageItem) : Bool :=
  if multi then lsto.all fun old => (storedValue old).isSome
  else lsto.length ≤ 1 && lsto.all fun old => (storedSeq old).isSome

/-- What `store_dht_item` does, over whole lists. A new target gets a one-item
list. A single target's item is replaced when the request's `seq`, an `int`,
exceeds the stored one, and an empty single list stays empty. A multi target is
left as it is when an item has the new bencoded `v`, and otherwise gets the item
before the first item at most as high, at the end if there is none. The list is
then cut to `max_entries_per_multi`, and the result says whether the item was put
into it, whether or not the cut keeps it. -/
def storeDhtItemReference (maxEntriesPerMulti : Nat) (table : StorageTable) (item : DhtStorageItem)
    (target : Bytes) (multi : Bool) (seq height : Int32) (bufv : Bytes) : StorageTable × Bool :=
  match OrdMap.find? target table with
  | none => (OrdMap.insert target [item] table, true)
  | some lsto =>
    let (l, stored) :=
      if multi then
        if lsto.any (fun old => storedValue old = some bufv) then (lsto, false)
        else
          let pos := (lsto.findIdx? fun old => height.toInt64 ≥ storedHeight old).getD lsto.length
          (lsto.take pos ++ item :: lsto.drop pos, true)
      else
        match lsto with
        | [old] => if seq.toInt64 > (storedSeq old).getD 0 then ([item], true) else ([old], false)
        | _ => (lsto, false)
    (OrdMap.insert target (l.take maxEntriesPerMulti) table, stored)

/-- The multi walk over items that all have a `v`: it stops at an equal `v`, and
otherwise ends at the last position it was moved to. -/
theorem scanMulti_eq (bufv : Bytes) (height : Int32) (items : List (Nat × DhtStorageItem))
    (hv : ∀ x ∈ items, (storedValue x.2).isSome) (pos : Nat) :
    scanMulti bufv height items pos =
      if items.any (fun x => storedValue x.2 = some bufv) then some none
      else some (some (items.foldl
        (fun pos x => if height.toInt64 ≥ storedHeight x.2 then x.1 else pos) pos)) := by
  induction items generalizing pos with
  | nil => rfl
  | cons x items ih =>
    obtain ⟨i, old⟩ := x
    have hold := hv (i, old) (by simp)
    obtain ⟨v, hfind⟩ : ∃ v, (decodeStored old).dictFind old.p (bytesOf "v") = some v := by
      simpa [storedValue, Option.isSome_iff_exists] using hold
    have hval : storedValue old = some (v.dataSection old.p) := by simp [storedValue, hfind]
    simp only [scanMulti, hfind, List.any_cons, hval, List.foldl_cons]
    by_cases heq : bufv = v.dataSection old.p
    · simp [heq]
    · have hne : (some (v.dataSection old.p) = some bufv) = False := by
        simp only [Option.some.injEq, eq_iff_iff, iff_false]
        exact fun h => heq h.symm
      simp only [heq, if_false, hne, decide_false, Bool.false_or]
      exact ih (fun x hx => hv x (by simp [hx])) _

/-- The last position the walk from the back moves to is the first item, in list
order, that the new height reaches. -/
theorem foldl_reverse_zipIdx_position (P : DhtStorageItem → Bool) (l : List DhtStorageItem)
    (n d : Nat) :
    ((l.zipIdx n).map fun (x, i) => (i, x)).reverse.foldl
        (fun pos x => if P x.2 then x.1 else pos) d =
      match l.findIdx? P with
      | some i => n + i
      | none => d := by
  rw [List.foldl_reverse]
  induction l generalizing n with
  | nil => rfl
  | cons x l ih =>
    simp only [List.zipIdx_cons, List.map_cons, List.foldr_cons, ih (n + 1), List.findIdx?_cons]
    by_cases hx : P x
    · simp [hx]
    · cases l.findIdx? P with
      | none => simp [hx]
      | some i =>
        simp only [hx, Bool.false_eq_true, if_false, Option.map_some]
        exact (Nat.add_right_comm n 1 i).trans (Nat.add_assoc n i 1)

/-- The walk from the back visits the items of the list. -/
theorem any_reverse_zipIdx (f : DhtStorageItem → Bool) (l : List DhtStorageItem) :
    ((l.zipIdx.map fun (x, i) => (i, x)).reverse.any fun x => f x.2) = l.any f := by
  rw [List.any_reverse, List.any_map]
  conv_rhs => rw [← List.zipIdx_map_fst 0 l]
  rw [List.any_map]
  rfl

end Twister.Dht
