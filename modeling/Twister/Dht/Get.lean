import Twister.Rpc.Json
import Twister.DhtProxy
import Twister.Dht.Message

/-!
# Reading a resource from the DHT

The `dhtget` RPC (twister.cpp) asks for the items stored under the target
`{n: username, r: resource, t: s|m}` and waits for `dht_reply_data_alert`s posted
to that target's hash. The items come from DHT nodes or from DHT proxies; a node
that uses proxies listens to the proxy replies only.

A DHT node's reply is a packet that `lazy_bdecode(..., 10, 500)` reads into a
dictionary (dht_tracker.cpp), handed to the observer of the traversal it answers.
`dht_get_observer::reply` (dht_get.cpp) checks each item of its `data` list on the
lazy tree, where `dict_find` takes the first item with a key and the signature is
over the bytes of `p` in the packet, its `data_section`. The items that pass are
converted to `entry`s, where a repeated key keeps its last value. A reply without
`data` to a traversal of a multi `tracker` resource gives instead an unsigned item
built from its `followers` and `values`. The session-alert thread posts a
non-empty list to the target of its first item.

A proxy's reply names a target hash and carries bencoded data, which
`DhtProxy::dhtgetReplyReceived` (dhtproxy.cpp) reads with `lazy_bdecode` and checks
item by item in the same way, and the list goes to the hash the proxy names.

`dhtget` keeps, for a single resource, the last item whose `seq` (read as an
`int`) beats the best so far, and for a multi resource every item with a new
`sig_p`, and stops after `minMultiReplies + 1` alerts or a done alert.
-/

namespace Twister.Dht

open Bencode Rpc

/-- What the reply handlers read besides the replies: the signature check
`verifySignature(strMessage, strUsername, strSign)`, which rests on the key
store, and `GetAdjustedTime()`. -/
structure GetEnv where
  verifySignature : Bytes → Bytes → Bytes → Bool
  adjustedTime : Int64

/-! ## The reply handlers -/

/-- The checks of `dht_get_observer::reply` on one item `e` of a `data` list, read in
the packet `input`: a dictionary with a dictionary `p` and strings `sig_p` and
`sig_user`, a signature over the bytes of `p` that verifies for `sig_user`, and a
`p.time` that is not zero and at most `MAX_TIME_IN_FUTURE` ahead. -/
def observerAccepts (env : GetEnv) (input : Bytes) (e : LazyEntry) : Bool :=
  e.type = .dict &&
    match e.dictFind input (bytesOf "p"), e.dictFind input (bytesOf "sig_p"),
      e.dictFind input (bytesOf "sig_user") with
    | some p, some sigP, some sigUser =>
      p.type = .dict && sigP.type = .string && sigUser.type = .string &&
        env.verifySignature (p.dataSection input) (sigUser.stringValue input)
          (sigP.stringValue input) &&
        (let pTime := p.dictFindIntValue input (bytesOf "time")
        pTime ≠ 0 && !(pTime > env.adjustedTime + maxTimeInFuture))
    | _, _, _ => false

/-- The list `dht_get_observer::reply` hands to `got_data` for the items of a `data`
list: those that pass, each converted to an `entry`. -/
def observerValues (env : GetEnv) (input : Bytes) (items : List LazyEntry) : List Entry :=
  (items.filter (observerAccepts env input)).map (LazyEntry.toEntry input)

/-- The unsigned item `dht_get_observer::reply` builds for the traversal of
`(targetUser, targetResource, multi)` from a reply's `followers`, narrowed to an
`int`, and its `values` list, if it has one. -/
def trackerItem (targetUser targetResource : Bytes) (multi : Bool) (followers : Int32)
    (input : Bytes) (values : Option LazyEntry) : Entry :=
  let v : List (Bytes × Entry) := OrdMap.insert (bytesOf "followers") (.int followers.toInt64) []
  let v := match values with
    | some values =>
      OrdMap.insert (bytesOf "values") (values.toEntry input) <|
        OrdMap.insert (bytesOf "values_size") (.int (Int64.ofNat values.listItems.length)) v
    | none => v
  let target : List (Bytes × Entry) :=
    OrdMap.insert (bytesOf "t") (.string (bytesOf (if multi then "m" else "s"))) <|
      OrdMap.insert (bytesOf "r") (.string targetResource) <|
        OrdMap.insert (bytesOf "n") (.string targetUser) []
  let p : List (Bytes × Entry) :=
    OrdMap.insert (bytesOf "v") (.dict v) (OrdMap.insert (bytesOf "target") (.dict target) [])
  .dict (OrdMap.insert (bytesOf "p") (.dict p) [])

/-- `dht_get_observer::reply` on the reply `msg`, read in the packet `input`, to the
traversal of `(targetUser, targetResource, multi)`: the list it hands to `got_data`,
when it calls it. -/
def observerReply (env : GetEnv) (targetUser targetResource : Bytes) (multi : Bool)
    (input : Bytes) (msg : LazyEntry) : Option (List Entry) :=
  match msg.dictFindDict input (bytesOf "r") with
  | none => none
  | some r =>
    match r.dictFindString input (bytesOf "id") with
    | none => none
    | some id =>
      if id.stringLength ≠ 20 then none
      else
        match r.dictFindList input (bytesOf "data") with
        | some n => some (observerValues env input n.listItems)
        | none =>
          let followers := (r.dictFindIntValue input (bytesOf "followers")).toInt32
          if targetResource = bytesOf "tracker" ∧ multi = true ∧ followers ≠ 0 then
            some [trackerItem targetUser targetResource multi followers input
              (r.dictFindList input (bytesOf "values"))]
          else none

/-- A DHT node's reply packet to the traversal of `(targetUser, targetResource, multi)`:
`lazy_bdecode(..., 10, 500)` reads it, and it is dropped unless that succeeds with a
dictionary; the list the observer hands to `got_data`. -/
def nodeReply (env : GetEnv) (targetUser targetResource : Bytes) (multi : Bool)
    (packet : Bytes) : Option (List Entry) :=
  let decoded := lazyBdecode packet 10 500
  if decoded.error = none ∧ decoded.ret.type = .dict then
    observerReply env targetUser targetResource multi packet decoded.ret
  else none

/-- The checks of `DhtProxy::dhtgetReplyReceived` on one item `e`, read in the data
`input`: a dictionary with a dictionary `p` whose `target` is a dictionary with
strings `r` and `t`, and, unless the item is a tracker list (`r = tracker`,
`t = m`), strings `sig_p` and `sig_user` with a signature over the bytes of `p`
that verifies for `sig_user`. -/
def proxyAccepts (env : GetEnv) (input : Bytes) (e : LazyEntry) : Bool :=
  e.type = .dict &&
    match e.dictFind input (bytesOf "p") with
    | some p =>
      p.type = .dict &&
        match p.dictFind input (bytesOf "target") with
        | some target =>
          target.type = .dict &&
            match target.dictFind input (bytesOf "r"), target.dictFind input (bytesOf "t") with
            | some r, some t =>
              r.type = .string && t.type = .string &&
                if r.stringValue input = bytesOf "tracker" ∧ t.stringValue input = bytesOf "m" then
                  true
                else
                  match e.dictFind input (bytesOf "sig_p"), e.dictFind input (bytesOf "sig_user") with
                  | some sigP, some sigUser =>
                    sigP.type = .string && sigUser.type = .string &&
                      env.verifySignature (p.dataSection input) (sigUser.stringValue input)
                        (sigP.stringValue input)
                  | _, _ => false
            | _, _ => false
        | none => false
    | none => false

/-- `dht_reply_data_alert` with its list, and `dht_reply_data_done_alert`. -/
inductive GetAlert where
  | replyData (lst : List Entry)
  | done
  deriving Repr

/-- What `DhtProxy::dhtgetReplyReceived` posts to the target hash the proxy names: a
done alert for empty data; the items that pass, converted, when `lazy_bdecode` reads
the data as a list; nothing otherwise. -/
def proxyReply (env : GetEnv) (data : Bytes) : Option GetAlert :=
  if data.isEmpty then some .done
  else
    let v := lazyBdecode data
    if v.error = none ∧ v.ret.type = .list then
      some (.replyData ((v.ret.listItems.filter (proxyAccepts env data)).map
        (LazyEntry.toEntry data)))
    else none

/-- The target hash the session-alert thread posts a node reply's list to: that
of the first item's `p.target`, when it has string `n`, `r` and `t`. -/
def routeKey : List Entry → Option Bytes
  | [] => none
  | e :: _ =>
    match e.findKey (bytesOf "p") with
    | some p =>
      match p.findKey (bytesOf "target") with
      | some target =>
        match target.findKey (bytesOf "n"), target.findKey (bytesOf "r"),
          target.findKey (bytesOf "t") with
        | some (.string n), some (.string r), some (.string t) =>
          some (DhtProxy.dhtTargetKey n r t)
        | _, _, _ => none
      | none => none
    | none => none

/-- What reaches a node: a DHT node's reply packet to the traversal of
`(user, resource, multi)`, the end of the DHT traversal of a target hash with whether
it got data, or a proxy's reply naming a target hash, with its data. -/
inductive GetReply where
  | node (user resource : Bytes) (multi : Bool) (packet : Bytes)
  | nodeDone (targetKey : Bytes) (gotData : Bool)
  | proxy (targetKey : Bytes) (data : Bytes)
  deriving Repr

/-- The alerts a `dhtget` listening on `key` receives. Without proxies (`fEnabled`
false), a node reply's list when it is not empty and its first item names the
target, and the end of a traversal of the target that got no data. With proxies,
what a proxy reply naming the target posts. -/
def alertsFor (env : GetEnv) (fEnabled : Bool) (key : Bytes) : List GetReply → List GetAlert
  | [] => []
  | .node user resource multi packet :: rs =>
    match nodeReply env user resource multi packet with
    | some lst =>
      if !fEnabled && !lst.isEmpty && routeKey lst = some key then
        .replyData lst :: alertsFor env fEnabled key rs
      else alertsFor env fEnabled key rs
    | none => alertsFor env fEnabled key rs
  | .nodeDone k gotData :: rs =>
    if !fEnabled && !gotData && k = key then .done :: alertsFor env fEnabled key rs
    else alertsFor env fEnabled key rs
  | .proxy k data :: rs =>
    if fEnabled && k = key then
      match proxyReply env data with
      | some a => a :: alertsFor env fEnabled key rs
      | none => alertsFor env fEnabled key rs
    else alertsFor env fEnabled key rs

/-! ## The wait loop of `dhtget` -/

/-- `safeGetEntryString(e, key)`. -/
def safeGetEntryString (e : Entry) (key : Bytes) : Bytes :=
  match e.findKey key with
  | some (.string s) => s
  | _ => []

/-- `safeGetEntryInt(e, key)`: the integer narrowed to an `int`, or `0`. -/
def safeGetEntryInt (e : Entry) (key : Bytes) : Int32 :=
  match e.findKey key with
  | some (.int v) => v.toInt32
  | _ => 0

/-- `safeGetEntryDict(e, key)`: the dictionary, or an empty one. -/
def safeGetEntryDict (e : Entry) (key : Bytes) : Entry :=
  match e.findKey key with
  | some (.dict d) => .dict d
  | _ => .dict []

/-- The state of the `dhtget` loop: the entries kept (before `entryToJson`), the
`sig_p`s seen and the last accepted `seq`. -/
structure DhtgetState where
  ret : List Entry := []
  uniqueSigPs : List Bytes := []
  lastSeq : Int32 := -1
  deriving Repr

/-- One item of an alert's list: hex-escape it; a multi item is kept when its
`sig_p` is empty or new, a single item when its `seq` beats `lastSeq`, and then
replaces what was kept. -/
def acceptReply (multi : Bool) (st : DhtgetState) (e : Entry) : DhtgetState :=
  let e := hexcapeDht e
  let sigP := safeGetEntryString e (bytesOf "sig_p")
  let seq : Int32 := if multi then 0 else safeGetEntryInt (safeGetEntryDict e (bytesOf "p")) (bytesOf "seq")
  let acceptEntry := if multi then sigP.isEmpty || sigP ∉ st.uniqueSigPs else seq > st.lastSeq
  if acceptEntry then
    { ret := (if multi then st.ret else []) ++ [e]
      lastSeq := seq
      uniqueSigPs := if sigP.isEmpty then st.uniqueSigPs else OrdSet.insert sigP st.uniqueSigPs }
  else st

/-- The wait loop of `dhtget`: each reply alert's items in turn; a done alert or
the end of the alerts stops it, and so does the alert after `minMultiReplies`
of them. -/
def dhtgetLoop (multi : Bool) (minMultiReplies : Int) :
    Nat → DhtgetState → List GetAlert → DhtgetState
  | _, st, [] => st
  | _, st, .done :: _ => st
  | repliesReceived, st, .replyData lst :: rest =>
    let st := lst.foldl (acceptReply multi) st
    if (repliesReceived : Int) < minMultiReplies then
      dhtgetLoop multi minMultiReplies (repliesReceived + 1) st rest
    else st

/-- The entries `dhtget(username, resource, t)` returns, before `entryToJson`,
when the replies reach the node in the given order. -/
def dhtgetEntries (env : GetEnv) (fEnabled : Bool) (username resource strMulti : Bytes)
    (minMultiReplies : Int) (replies : List GetReply) : List Entry :=
  let multi := strMulti = bytesOf "m"
  let key := DhtProxy.dhtTargetKey username resource strMulti
  (dhtgetLoop multi minMultiReplies 0 {} (alertsFor env fEnabled key replies)).ret

/-- `dhtget(username, resource, t)`: the JSON array. -/
def dhtget (env : GetEnv) (fEnabled : Bool) (username resource strMulti : Bytes)
    (minMultiReplies : Int) (replies : List GetReply) : List JsonValue :=
  (dhtgetEntries env fEnabled username resource strMulti minMultiReplies replies).map entryToJson

/-- The `seq` `dhtget` reads from a kept entry, narrowed to an `int`. -/
def seqOf (e : Entry) : Int32 := safeGetEntryInt (safeGetEntryDict e (bytesOf "p")) (bytesOf "seq")

/-- The entries the path a node listens to lets through, `fEnabled` telling whether it
is that of the proxies: an item of a reply that passed the path's check, converted;
or, on the node path, the tracker item of a traversal of a multi `tracker` resource. -/
inductive Passed (env : GetEnv) : Bool → Entry → Prop where
  | node (input : Bytes) (e : LazyEntry) :
      observerAccepts env input e = true → Passed env false (e.toEntry input)
  | tracker (targetUser : Bytes) (followers : Int32) (input : Bytes) (values : Option LazyEntry) :
      Passed env false (trackerItem targetUser (bytesOf "tracker") true followers input values)
  | proxy (input : Bytes) (e : LazyEntry) :
      proxyAccepts env input e = true → Passed env true (e.toEntry input)

/-- The items of the alerts the wait loop goes through before it stops. -/
def dhtgetSeen (minMultiReplies : Int) : Nat → List GetAlert → List Entry
  | _, [] => []
  | _, .done :: _ => []
  | repliesReceived, .replyData lst :: rest =>
    lst ++ if (repliesReceived : Int) < minMultiReplies then
      dhtgetSeen minMultiReplies (repliesReceived + 1) rest else []

/-- What the wait loop keeps, having gone through the items `seen`: only
hex-escaped items the listened path let through; and for a single resource at most
one, whose `seq` is the last accepted and at least that of every item seen. -/
structure DhtgetInv (env : GetEnv) (fEnabled multi : Bool) (seen : List Entry)
    (st : DhtgetState) : Prop where
  accepted : ∀ r ∈ st.ret, ∃ e, Passed env fEnabled e ∧ r = hexcapeDht e
  single : multi = false → st.ret.length ≤ 1
  seq_eq : multi = false → ∀ r ∈ st.ret, seqOf r = st.lastSeq
  seen_le : multi = false → ∀ e ∈ seen, seqOf (hexcapeDht e) ≤ st.lastSeq

variable {env : GetEnv} {fEnabled multi : Bool}

theorem mem_observerValues_passed {input : Bytes} {items : List LazyEntry} {x : Entry}
    (hx : x ∈ observerValues env input items) : Passed env false x := by
  obtain ⟨e, he, rfl⟩ := List.mem_map.mp hx
  exact .node input e (List.mem_filter.mp he).2

/-- Every item the observer hands to `got_data` passed its check, or is the tracker
item of a multi `tracker` traversal. -/
theorem observerReply_passed {targetUser targetResource input : Bytes} {msg : LazyEntry}
    {lst : List Entry} (h : observerReply env targetUser targetResource multi input msg = some lst) :
    ∀ x ∈ lst, Passed env false x := by
  unfold observerReply at h
  split at h
  · cases h
  split at h
  · cases h
  rw [ite_not] at h
  split_ifs at h
  split at h
  · cases h
    exact fun x hx => mem_observerValues_passed hx
  · dsimp only at h
    split_ifs at h with htracker
    obtain ⟨rfl, rfl, -⟩ := htracker
    cases h
    intro x hx
    rw [List.mem_singleton.mp hx]
    exact .tracker _ _ _ _

theorem nodeReply_passed {user resource packet : Bytes} {lst : List Entry}
    (h : nodeReply env user resource multi packet = some lst) : ∀ x ∈ lst, Passed env false x := by
  unfold nodeReply at h
  dsimp only at h
  split_ifs at h
  exact observerReply_passed h

theorem proxyReply_passed {data : Bytes} {lst : List Entry}
    (h : proxyReply env data = some (.replyData lst)) : ∀ x ∈ lst, Passed env true x := by
  unfold proxyReply at h
  dsimp only at h
  split_ifs at h
  · cases h
  cases h
  intro x hx
  obtain ⟨e, he, rfl⟩ := List.mem_map.mp hx
  exact .proxy data e (List.mem_filter.mp he).2

theorem dhtgetInv_init : DhtgetInv env fEnabled multi [] {} where
  accepted := by simp
  single _ := by simp
  seq_eq _ := by simp
  seen_le _ := by simp

/-- One item keeps the invariant. -/
theorem dhtgetInv_acceptReply {seen : List Entry} {st : DhtgetState} {e : Entry}
    (hinv : DhtgetInv env fEnabled multi seen st) (he : Passed env fEnabled e) :
    DhtgetInv env fEnabled multi (seen ++ [e]) (acceptReply multi st e) := by
  cases multi with
  | true =>
    refine ⟨?_, by simp, by simp, by simp⟩
    simp only [acceptReply, ↓reduceIte]
    split
    · intro r hr
      simp only [List.mem_append, List.mem_singleton] at hr
      rcases hr with hr | rfl
      · exact hinv.accepted r hr
      · exact ⟨e, he, rfl⟩
    · exact hinv.accepted
  | false =>
    unfold acceptReply
    simp only [Bool.false_eq_true, if_false]
    split
    · rename_i hgt
      refine ⟨?_, fun _ => by simp, fun _ r hr => ?_, fun _ x hx => ?_⟩
      · intro r hr
        simp only [List.nil_append, List.mem_singleton] at hr
        exact ⟨e, he, hr⟩
      · simp only [List.nil_append, List.mem_singleton] at hr
        subst hr
        rfl
      · rcases List.mem_append.mp hx with hx | hx
        · have hle := hinv.seen_le rfl x hx
          rw [Int32.le_iff_toInt_le] at hle ⊢
          rw [decide_eq_true_eq, gt_iff_lt, Int32.lt_iff_toInt_lt] at hgt
          dsimp only
          omega
        · rw [List.mem_singleton] at hx
          subst hx
          exact Int32.le_of_eq rfl
    · rename_i hle
      refine ⟨hinv.accepted, hinv.single, hinv.seq_eq, fun _ x hx => ?_⟩
      rcases List.mem_append.mp hx with hx | hx
      · exact hinv.seen_le rfl x hx
      · rw [List.mem_singleton] at hx
        subst hx
        simp only [decide_eq_true_eq] at hle
        exact Int32.not_lt.mp hle

/-- An alert's list keeps the invariant. -/
theorem dhtgetInv_foldl {seen : List Entry} {st : DhtgetState} {lst : List Entry}
    (hinv : DhtgetInv env fEnabled multi seen st) (hlst : ∀ e ∈ lst, Passed env fEnabled e) :
    DhtgetInv env fEnabled multi (seen ++ lst) (lst.foldl (acceptReply multi) st) := by
  induction lst generalizing seen st with
  | nil => simpa using hinv
  | cons e lst ih =>
    have hstep := dhtgetInv_acceptReply hinv (hlst e (by simp))
    have := ih hstep (fun x hx => hlst x (by simp [hx]))
    simpa using this

/-- The wait loop keeps the invariant over the alerts it goes through. -/
theorem dhtgetInv_loop (minMultiReplies : Int) {seen : List Entry} {st : DhtgetState}
    (hinv : DhtgetInv env fEnabled multi seen st) (n : Nat) (alerts : List GetAlert)
    (halerts : ∀ lst, GetAlert.replyData lst ∈ alerts → ∀ e ∈ lst, Passed env fEnabled e) :
    DhtgetInv env fEnabled multi (seen ++ dhtgetSeen minMultiReplies n alerts)
      (dhtgetLoop multi minMultiReplies n st alerts) := by
  induction alerts generalizing seen st n with
  | nil => simpa [dhtgetSeen, dhtgetLoop] using hinv
  | cons a alerts ih =>
    cases a with
    | done => simpa [dhtgetSeen, dhtgetLoop] using hinv
    | replyData lst =>
      have hfold := dhtgetInv_foldl hinv (halerts lst (by simp))
      simp only [dhtgetSeen, dhtgetLoop]
      split
      · have := ih hfold (n + 1) fun l hl => halerts l (by simp [hl])
        simpa using this
      · simpa using hfold

/-- Reply lists that all pass a check still do with one more alert in front, a
done alert or a list that passes too. -/
theorem forall_replyData_cons {P : Entry → Prop} {a : GetAlert} {alerts : List GetAlert}
    (ha : ∀ lst, a = .replyData lst → ∀ e ∈ lst, P e)
    (hrest : ∀ lst, GetAlert.replyData lst ∈ alerts → ∀ e ∈ lst, P e) :
    ∀ lst, GetAlert.replyData lst ∈ a :: alerts → ∀ e ∈ lst, P e := by
  intro lst hlst
  rcases List.mem_cons.mp hlst with h | h
  · exact ha lst h.symm
  · exact hrest lst h

/-- Every item of an alert a `dhtget` receives went through the path it listens to. -/
theorem alertsFor_passed (key : Bytes) (replies : List GetReply) :
    ∀ lst, GetAlert.replyData lst ∈ alertsFor env fEnabled key replies →
      ∀ e ∈ lst, Passed env fEnabled e := by
  induction replies with
  | nil => simp [alertsFor]
  | cons r rs ih =>
    cases r with
    | node user resource multi packet =>
      simp only [alertsFor]
      split
      · rename_i lst hlst
        split
        · rename_i hcond
          simp only [Bool.and_eq_true, Bool.not_eq_eq_eq_not, Bool.not_true] at hcond
          obtain rfl := hcond.1.1
          refine forall_replyData_cons (fun l hl => ?_) ih
          cases hl
          exact nodeReply_passed hlst
        · exact ih
      · exact ih
    | nodeDone k gotData =>
      simp only [alertsFor]
      split
      · exact forall_replyData_cons (fun _ h => by cases h) ih
      · exact ih
    | proxy k data =>
      simp only [alertsFor]
      split
      · rename_i hcond
        simp only [Bool.and_eq_true, decide_eq_true_eq] at hcond
        obtain rfl := hcond.1
        split
        · rename_i a ha
          refine forall_replyData_cons (fun l hl => ?_) ih
          subst hl
          exact proxyReply_passed ha
        · exact ih
      · exact ih

/-- Every signature verifies, and the clock reads `100`. -/
def acceptAllEnv : GetEnv where
  verifySignature _ _ _ := true
  adjustedTime := 100

/-- A `status` item of a user, with its `seq` and `sig_p`. -/
def signedStatus (user : String) (seq : Int64) (sig : Bytes) : Entry :=
  .dict [(bytesOf "p", .dict [(bytesOf "height", .int 1), (bytesOf "seq", .int seq),
      (bytesOf "target", .dict [(bytesOf "n", .string (bytesOf user)),
        (bytesOf "r", .string (bytesOf "status")), (bytesOf "t", .string (bytesOf "s"))]),
      (bytesOf "time", .int 1), (bytesOf "v", .string (bytesOf "hi"))]),
    (bytesOf "sig_p", .string sig), (bytesOf "sig_user", .string (bytesOf user))]

/-- A DHT node's reply packet with the given `data` items. -/
def dataReply (items : List Entry) : Bytes :=
  bencode (.dict [(bytesOf "r", .dict [(bytesOf "data", .list items),
      (bytesOf "id", .string (List.replicate 20 1))]),
    (bytesOf "t", .string [0, 1]), (bytesOf "y", .string (bytesOf "r"))])

end Twister.Dht
