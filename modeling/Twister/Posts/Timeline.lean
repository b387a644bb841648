import Twister.Posts.Accept
import Twister.Rpc.Json
import Twister.Torrent.PiecePicker
import Twister.Dht.Message

/-!
# The timeline of `getposts`

`getposts` (twister.cpp) merges the newest posts of several users. For each user
it asks the user's torrent for pieces with `torrent_handle::get_pieces`: the
torrent walks its pieces down from `min(max_id, last_have())` and requests the
reads of at most `count` pieces above `since_id` that it holds and whose post flags
are among `flags` (torrent.cpp); the handle waits until the reads complete, in the
disk thread's order, and a failed read adds nothing. Every piece that decodes to a
dictionary goes into a `std::multimap` keyed by its `userpost.time`; the newest
`count` come out, newest first, and at most once every eight hours the spam
message the node received goes in front.

A post without a time (`-1`) or dated more than `MAX_TIME_IN_FUTURE` ahead of the
node's clock is reported with `printf` and inserted like any other.
`GetAdjustedTime()` is read as one value `now` for the whole call, and the order
in which each user's reads complete is a parameter. The `we_dont_have` of a failed
read changes the picker, which `Torrent.PiecePicker` models; this call's result does
not depend on it.
-/

namespace Twister.Posts

open Bencode Rpc Torrent
open Dht (maxTimeInFuture)

/-- What `getposts` reads of a user's torrent through its handle: the piece picker,
absent until the torrent has one; the post flags of each piece; and what reading
a piece from disk gives, `none` when the read fails. -/
structure UserTorrent where
  picker : Option PiecePicker
  postFlags : List UInt32
  readPiece : Nat → Option Bytes

/-- The loop of `torrent::get_pieces` from piece `i` down, with `reqs` reads
requested so far: the pieces whose reads it requests, in order. Each round lowers
`i` and the loop stops below `0`, so `i + 1` rounds are enough. -/
def getPiecesLoop (pp : PiecePicker) (postFlags : List UInt32) (count sinceId : Int) (filterFlags : UInt32) :
    Nat → Int → Int → List Nat
  | 0, _, _ => []
  | fuel + 1, i, reqs =>
    if i ≥ 0 ∧ i > sinceId ∧ reqs < count then
      let flags := postFlags.getD i.toNat 0
      if pp.pieceMap.getD i.toNat false ∧ (flags &&& filterFlags) = flags then
        i.toNat :: getPiecesLoop pp postFlags count sinceId filterFlags fuel (i - 1) (reqs + 1)
      else getPiecesLoop pp postFlags count sinceId filterFlags fuel (i - 1) reqs
    else []

/-- `torrent::get_pieces(pieces, count, max_id, since_id, filter_flags, ...)`: the
pieces whose reads it requests, newest first; none without a picker. -/
def getPieces (t : UserTorrent) (count maxId sinceId : Int32) (filterFlags : UInt32) : List Nat :=
  match t.picker with
  | none => []
  | some pp =>
    let maxId := min maxId.toInt pp.lastHave
    getPiecesLoop pp t.postFlags count.toInt sinceId.toInt filterFlags (maxId + 1).toNat maxId 0

/-- `torrent_handle::get_pieces`: the pieces read, in the order the reads complete,
given by `order` from the requests; a failed read adds nothing. -/
def handleGetPieces (t : UserTorrent) (order : List Nat → List Nat) (count maxId sinceId : Int32)
    (filterFlags : UInt32) : List Bytes :=
  (order (getPieces t count maxId sinceId filterFlags)).filterMap t.readPiece

/-- `std::multimap::insert`: after every element whose key is not greater. -/
def multimapInsert (p : Int64 × Entry) : List (Int64 × Entry) → List (Int64 × Entry)
  | [] => [p]
  | q :: rest => if p.1 < q.1 then p :: q :: rest else q :: multimapInsert p rest

/-- What one piece adds to `postsByTime`: nothing unless it decodes to a
dictionary, and otherwise its `userpost.time`, `-1` when absent, with the
hex-escaped entry. `none` where there is no `userpost` dictionary: the source then
calls `dict_find_int_value` through a null pointer. -/
def postOfPiece (piece : Bytes) : Option (List (Int64 × Entry)) :=
  let r := lazyBdecode piece
  if r.error = none ∧ r.ret.type = .dict then
    match LazyEntry.dictFindDict piece r.ret (bytesOf "userpost") with
    | none => none
    | some post =>
      let time := LazyEntry.dictFindIntValue piece post (bytesOf "time") (-1)
      some [(time, hexcapePost (r.ret.toEntry piece))]
  else some []

/-- One object of the `users` parameter: `username`, `max_id` and `since_id`. -/
structure UserReq where
  strUsername : Bytes := []
  maxId : Int32 := Int32.maxValue
  sinceId : Int32 := -1
  deriving DecidableEq, Repr

/-- The loop over the fields of a user object; `none` where json_spirit's
`get_str` or `get_int` throws on a value of another type. -/
def parseUserFields (req : UserReq) : List (Bytes × JsonValue) → Option UserReq
  | [] => some req
  | (name, value) :: fields =>
    let req :=
      if name = bytesOf "username" then
        match value with
        | .str s => some { req with strUsername := s }
        | _ => none
      else if name = bytesOf "max_id" then
        match value with
        | .int v => some { req with maxId := v.toInt32 }
        | _ => none
      else if name = bytesOf "since_id" then
        match value with
        | .int v => some { req with sinceId := v.toInt32 }
        | _ => none
      else some req
    req.bind fun req => parseUserFields req fields

/-- `users[u].get_obj()` and its fields, from the defaults. -/
def parseUserReq : JsonValue → Option UserReq
  | .obj fields => parseUserFields {} fields
  | _ => none

/-- The spam message a node shows in timelines: the text and sender last received,
and when one was last shown. -/
structure SpamState where
  receivedSpamMsgStr : Bytes
  receivedSpamUserStr : Bytes
  lastSpamTime : Int64
  deriving DecidableEq, Repr

/-- `formatSpamPost(msg, username)` with the default time and height: post `1` at
the best height and the current time, with 65 random bytes, hex-encoded, as its
signature. -/
def formatSpamPost (msg username : Bytes) (now : Int64) (bestHeight : Int) (vchSig : Bytes) : Entry :=
  .dict [(bytesOf "sig_userpost", .string (hexStr vchSig)),
    (bytesOf "userpost", .dict [(bytesOf "height", .int (Int64.ofInt bestHeight)), (bytesOf "k", .int 1),
      (bytesOf "msg", .string msg), (bytesOf "n", .string username), (bytesOf "time", .int now)])]

/-- What `getposts` reads besides its parameters and the spam state: the torrent
of each followed user, the order in which each user's reads complete,
`GetAdjustedTime()`, `getBestHeight()` and the random bytes of a spam post's
signature. -/
structure TimelineEnv where
  getTorrentUser : Bytes → Option UserTorrent
  readOrder : Bytes → List Nat → List Nat
  now : Int64
  bestHeight : Int
  vchSig : Bytes

/-- The pieces `getposts` collects for one user. -/
def userPieces (env : TimelineEnv) (count : Int32) (flags : Int32) (req : UserReq) : List Bytes :=
  match env.getTorrentUser req.strUsername with
  | none => []
  | some h => handleGetPieces h (env.readOrder req.strUsername) count req.maxId req.sinceId flags.toUInt32

/-- The loop of `getposts` over the users and their pieces: the posts it inserts
into `postsByTime`, in order; `none` where json_spirit throws on a parameter or a
piece has no `userpost`. -/
def collectPosts (env : TimelineEnv) (count : Int32) (users : List JsonValue) (flags : Int32) :
    Option (List (Int64 × Entry)) := do
  let reqs ← users.mapM parseUserReq
  let items ← ((reqs.map (userPieces env count flags)).flatten).mapM postOfPiece
  pure items.flatten

/-- `getposts(count, users, flags)` up to `entryToJson`: the entries returned,
newest first after at most one spam post, and the spam state after the call. -/
def timeline (env : TimelineEnv) (spam : SpamState) (count : Int32) (users : List JsonValue) (flags : Int32) :
    Option (List Entry × SpamState) := do
  let items ← collectPosts env count users flags
  let postsByTime := items.foldl (fun m p => multimapInsert p m) []
  let ret := (postsByTime.reverse.take count.toInt.toNat).map Prod.snd
  if spam.receivedSpamMsgStr ≠ [] ∧ env.now > spam.lastSpamTime + 8 * 3600 then
    let v := formatSpamPost spam.receivedSpamMsgStr spam.receivedSpamUserStr env.now env.bestHeight env.vchSig
    some (v :: ret, ⟨[], [], env.now⟩)
  else some (ret, spam)

/-- `~USERPOST_FLAG_DM`, the `flags` of `getposts` when the parameter is omitted. -/
def defaultFlags : Int32 := ~~~2

/-- `getposts(count, users, flags)`: the JSON array, and the spam state after. -/
def getposts (env : TimelineEnv) (spam : SpamState) (count : Int32) (users : List JsonValue)
    (flags : Int32 := defaultFlags) : Option (List JsonValue × SpamState) :=
  (timeline env spam count users flags).map fun r => (r.1.map entryToJson, r.2)

/-! ## The multimap -/

/-- Oldest first: the order in which `std::multimap<int64, entry>` iterates. -/
def TimeOrdered (l : List (Int64 × Entry)) : Prop := l.Pairwise fun a b => a.1 ≤ b.1

/-- Inserting into `postsByTime` adds the element and keeps the others. -/
theorem multimapInsert_perm (p : Int64 × Entry) (l : List (Int64 × Entry)) :
    (multimapInsert p l).Perm (p :: l) := by
  fun_induction multimapInsert p l with
  | case1 => rfl
  | case2 q rest h => rfl
  | case3 q rest h ih => exact (ih.cons q).trans (List.Perm.swap p q rest)

/-- Inserting after every element that is not later keeps `postsByTime` in time
order. -/
theorem timeOrdered_multimapInsert (p : Int64 × Entry) {l : List (Int64 × Entry)} (hl : TimeOrdered l) :
    TimeOrdered (multimapInsert p l) := by
  induction l with
  | nil => exact List.pairwise_singleton _ _
  | cons q rest ih =>
    obtain ⟨hq, hrest⟩ := List.pairwise_cons.mp hl
    rw [multimapInsert]
    split
    · next hlt =>
      refine List.pairwise_cons.mpr ⟨?_, hl⟩
      intro r hr
      rcases List.mem_cons.mp hr with rfl | hr
      · exact Int64.le_of_lt hlt
      · exact Int64.le_trans (Int64.le_of_lt hlt) (hq r hr)
    · next hnlt =>
      refine List.pairwise_cons.mpr ⟨?_, ih hrest⟩
      intro r hr
      rcases List.mem_cons.mp ((multimapInsert_perm p rest).mem_iff.mp hr) with rfl | hr
      · exact Int64.not_lt.mp hnlt
      · exact hq r hr

/-- `postsByTime` after inserting `items` one after another. -/
def insertAll (m items : List (Int64 × Entry)) : List (Int64 × Entry) :=
  items.foldl (fun m p => multimapInsert p m) m

theorem insertAll_perm : ∀ (m items : List (Int64 × Entry)), (insertAll m items).Perm (m ++ items)
  | m, [] => by simp [insertAll]
  | m, p :: items => by
    have ih := insertAll_perm (multimapInsert p m) items
    rw [insertAll, List.foldl_cons, ← insertAll]
    have hp : (multimapInsert p m ++ items).Perm ((p :: m) ++ items) := (multimapInsert_perm p m).append_right items
    exact ih.trans (hp.trans List.perm_middle.symm)

theorem timeOrdered_insertAll : ∀ {m : List (Int64 × Entry)} (items : List (Int64 × Entry)),
    TimeOrdered m → TimeOrdered (insertAll m items)
  | _, [], hm => hm
  | m, p :: items, hm => by
    rw [insertAll, List.foldl_cons, ← insertAll]
    exact timeOrdered_insertAll items (timeOrdered_multimapInsert p hm)

/-- The first `n` of a list ordered newest first are the `n` newest: none of the
others is later than any of them. -/
theorem newest_take {s : List (Int64 × Entry)} (hs : s.Pairwise fun a b => b.1 ≤ a.1) (n : Nat) :
    ∀ p ∈ s.take n, ∀ q ∈ s.drop n, q.1 ≤ p.1 := by
  have h := List.take_append_drop n s ▸ hs
  exact (List.pairwise_append.mp h).2.2

/-! ## The pieces `get_pieces` reads -/

section GetPieces

variable (pp : PiecePicker) (postFlags : List UInt32) (sinceId : Int) (filterFlags : UInt32)

/-- The pieces from `top` down that `get_pieces` may read, newest first: held,
above `sinceId`, and with post flags among `filterFlags`. -/
def eligiblePieces (top : Int) : List Nat :=
  (List.range (top + 1).toNat).reverse.filter fun j =>
    decide (sinceId < j) && pp.pieceMap.getD j false && (postFlags.getD j 0 &&& filterFlags) == postFlags.getD j 0

theorem eligiblePieces_of_lt {top : Int} (h : top < 0 ∨ top ≤ sinceId) :
    eligiblePieces pp postFlags sinceId filterFlags top = [] := by
  rw [eligiblePieces, List.filter_eq_nil_iff]
  intro j hj
  rw [List.mem_reverse, List.mem_range] at hj
  simp only [Bool.and_eq_true, decide_eq_true_eq, not_and]
  intro hlt
  omega

/-- One piece more from the top: `top` itself when it passes, then those below. -/
theorem eligiblePieces_of_nonneg {top : Int} (h : 0 ≤ top) :
    eligiblePieces pp postFlags sinceId filterFlags top =
      (if sinceId < top ∧ pp.pieceMap.getD top.toNat false ∧
          (postFlags.getD top.toNat 0 &&& filterFlags) = postFlags.getD top.toNat 0
        then [top.toNat] else []) ++ eligiblePieces pp postFlags sinceId filterFlags (top - 1) := by
  have hsucc : (top + 1).toNat = top.toNat + 1 := by omega
  have hprev : (top - 1 + 1).toNat = top.toNat := by omega
  rw [eligiblePieces, eligiblePieces, hsucc, hprev, List.range_succ, List.reverse_append, List.reverse_singleton,
    List.singleton_append, List.filter_cons]
  have hcast : ((top.toNat : Nat) : Int) = top := Int.toNat_of_nonneg h
  split_ifs with h1 h2 h2 <;> simp_all

/-- `get_pieces` requests the first `count - reqs` eligible pieces from `i` down,
given enough rounds. The induction follows the loop, one piece per round. -/
theorem getPiecesLoop_eq (count : Int) :
    ∀ (fuel : Nat) (i reqs : Int), (i + 1).toNat ≤ fuel →
      getPiecesLoop pp postFlags count sinceId filterFlags fuel i reqs =
        (eligiblePieces pp postFlags sinceId filterFlags i).take (count - reqs).toNat
  | 0, i, reqs, hfuel => by
    rw [getPiecesLoop, eligiblePieces_of_lt pp postFlags sinceId filterFlags (by omega), List.take_nil]
  | fuel + 1, i, reqs, hfuel => by
    rw [getPiecesLoop]
    by_cases hloop : i ≥ 0 ∧ i > sinceId ∧ reqs < count
    · rw [if_pos hloop, eligiblePieces_of_nonneg pp postFlags sinceId filterFlags hloop.1]
      dsimp only
      by_cases hpiece : pp.pieceMap.getD i.toNat false = true ∧
          (postFlags.getD i.toNat 0 &&& filterFlags) = postFlags.getD i.toNat 0
      · rw [if_pos hpiece, if_pos ⟨hloop.2.1, hpiece⟩, getPiecesLoop_eq count fuel (i - 1) (reqs + 1) (by omega),
          List.singleton_append, show (count - reqs).toNat = (count - (reqs + 1)).toNat + 1 by omega,
          List.take_succ_cons]
      · rw [if_neg hpiece, if_neg (fun h => hpiece h.2), List.nil_append,
          getPiecesLoop_eq count fuel (i - 1) reqs (by omega)]
    · rw [if_neg hloop]
      rcases (by omega : i < 0 ∨ i ≤ sinceId ∨ count ≤ reqs) with h | h | h
      · rw [eligiblePieces_of_lt pp postFlags sinceId filterFlags (.inl h), List.take_nil]
      · rw [eligiblePieces_of_lt pp postFlags sinceId filterFlags (.inr h), List.take_nil]
      · rw [show (count - reqs).toNat = 0 by omega, List.take_zero]

/-- No held piece lies above `m_last_have` when it is right: from there up, nothing
is eligible. -/
theorem eligiblePieces_above_lastHave (hpp : LastHaveOk pp) :
    ∀ (n : Nat) (top : Int), top = pp.lastHave + n →
      eligiblePieces pp postFlags sinceId filterFlags top = eligiblePieces pp postFlags sinceId filterFlags pp.lastHave
  | 0, top, h => by rw [h, Int.natCast_zero, Int.add_zero]
  | n + 1, top, h => by
    have hlow := hpp.neg_one_le
    rw [eligiblePieces_of_nonneg pp postFlags sinceId filterFlags (by omega), if_neg, List.nil_append,
      eligiblePieces_above_lastHave hpp n (top - 1) (by omega)]
    rintro ⟨-, hheld, -⟩
    have hle := hpp.le_lastHave top.toNat hheld
    omega

/-- The bound `last_have()` passes over no held piece. -/
theorem eligiblePieces_min_lastHave (hpp : LastHaveOk pp) (maxId : Int) :
    eligiblePieces pp postFlags sinceId filterFlags (min maxId pp.lastHave) =
      eligiblePieces pp postFlags sinceId filterFlags maxId := by
  rcases le_total maxId pp.lastHave with h | h
  · rw [min_eq_left h]
  · rw [min_eq_right h, eligiblePieces_above_lastHave pp postFlags sinceId filterFlags hpp (maxId - pp.lastHave).toNat
      maxId (by omega)]

end GetPieces

/-- `get_pieces` requests the `count` newest eligible pieces at or below
`min(max_id, last_have())`. -/
theorem getPieces_eq {t : UserTorrent} {pp : PiecePicker} (hpp : t.picker = some pp) (count maxId sinceId : Int32)
    (filterFlags : UInt32) :
    getPieces t count maxId sinceId filterFlags =
      (eligiblePieces pp t.postFlags sinceId.toInt filterFlags (min maxId.toInt pp.lastHave)).take count.toInt.toNat := by
  rw [getPieces, hpp]
  dsimp only
  rw [getPiecesLoop_eq pp t.postFlags sinceId.toInt filterFlags count.toInt _ _ _ le_rfl, Int.sub_zero]

/-- On a picker whose `m_last_have` is right, `get_pieces` requests the `count`
newest pieces in `(since_id, max_id]` that are held and whose post flags are among
`filter_flags`, newest first. -/
theorem getPieces_newest {t : UserTorrent} {pp : PiecePicker} (hpp : t.picker = some pp) (hok : LastHaveOk pp)
    (count maxId sinceId : Int32) (filterFlags : UInt32) :
    getPieces t count maxId sinceId filterFlags =
      (eligiblePieces pp t.postFlags sinceId.toInt filterFlags maxId.toInt).take count.toInt.toNat := by
  rw [getPieces_eq hpp, eligiblePieces_min_lastHave pp t.postFlags sinceId.toInt filterFlags hok]

/-! ## What `getposts` returns -/

section Timeline

variable {env : TimelineEnv} {spam : SpamState} {count : Int32} {users : List JsonValue} {flags : Int32}

/-- `postsByTime` read backwards holds the collected posts, newest first. -/
theorem reverse_insertAll (items : List (Int64 × Entry)) :
    (insertAll [] items).reverse.Perm items ∧ (insertAll [] items).reverse.Pairwise fun a b => b.1 ≤ a.1 :=
  ⟨(List.reverse_perm _).trans (insertAll_perm [] items),
    List.pairwise_reverse.mpr (timeOrdered_insertAll items List.Pairwise.nil)⟩

/-- `getposts` returns at most one spam post, then the `count` newest of the posts
it collected, newest first: none of the others is newer than any of them. -/
theorem timeline_newest {ret : List Entry} {spam' : SpamState}
    (h : timeline env spam count users flags = some (ret, spam')) :
    ∃ items, collectPosts env count users flags = some items ∧
      ∃ (front : List Entry) (taken dropped : List (Int64 × Entry)), front.length ≤ 1 ∧
        ret = front ++ taken.map Prod.snd ∧
        (taken ++ dropped).Perm items ∧ taken.length = min count.toInt.toNat items.length ∧
        (taken.Pairwise fun a b => b.1 ≤ a.1) ∧ ∀ p ∈ taken, ∀ q ∈ dropped, q.1 ≤ p.1 := by
  cases hc : collectPosts env count users flags with
  | none => simp [timeline, hc] at h
  | some items =>
    refine ⟨items, rfl, ?_⟩
    obtain ⟨hperm, hord⟩ := reverse_insertAll items
    have hsplit : ((insertAll [] items).reverse.take count.toInt.toNat ++
        (insertAll [] items).reverse.drop count.toInt.toNat).Perm items := by
      rw [List.take_append_drop]
      exact hperm
    have hlen : ((insertAll [] items).reverse.take count.toInt.toNat).length = min count.toInt.toNat items.length := by
      rw [List.length_take, hperm.length_eq]
    have htaken := hord.sublist (List.take_sublist count.toInt.toNat _)
    have hnewest := newest_take hord count.toInt.toNat
    simp only [timeline, hc, Option.bind_eq_bind, Option.bind_some] at h
    split_ifs at h
    · obtain ⟨rfl, -⟩ := Prod.mk.inj (Option.some.inj h).symm
      exact ⟨[_], _, _, le_rfl, rfl, hsplit, hlen, htaken, hnewest⟩
    · obtain ⟨rfl, -⟩ := Prod.mk.inj (Option.some.inj h).symm
      exact ⟨[], _, _, Nat.zero_le 1, rfl, hsplit, hlen, htaken, hnewest⟩

/-- A piece that `acceptSignedPost` accepted gives one post, keyed by its time
whatever the time is. -/
theorem postOfPiece_of_accepted {penv : PostEnv} {piece username : Bytes} {seq : Int32}
    (h : (acceptSignedPost penv piece username seq).ret = true) :
    ∃ post, LazyEntry.dictFindDict piece (lazyBdecode piece).ret (bytesOf "userpost") = some post ∧
      postOfPiece piece = some [(LazyEntry.dictFindIntValue piece post (bytesOf "time") (-1),
        hexcapePost ((lazyBdecode piece).ret.toEntry piece))] := by
  obtain ⟨-, -, herr, htype, -, post, hpost, -⟩ := acceptSignedPost_ret.mp h
  refine ⟨post, hpost, ?_⟩
  rw [postOfPiece]
  dsimp only
  rw [if_pos ⟨herr, htype⟩, hpost]

theorem mapM_isSome {α β : Type} {f : α → Option β} :
    ∀ {l : List α}, (∀ x ∈ l, (f x).isSome) → (l.mapM f).isSome
  | [], _ => rfl
  | x :: l, h => by
    obtain ⟨y, hy⟩ := Option.isSome_iff_exists.mp (h x List.mem_cons_self)
    obtain ⟨ys, hys⟩ := Option.isSome_iff_exists.mp (mapM_isSome fun z hz => h z (List.mem_cons_of_mem x hz))
    simp [List.mapM_cons, hy, hys]

/-- Every piece a torrent holds passed `acceptSignedPost` for its user
(`hash_for_slot` runs it before a piece is kept): then `getposts` never meets a
piece without `userpost`, and fails only on a parameter of the wrong type. -/
theorem collectPosts_isSome
    (hacc : ∀ u t, env.getTorrentUser u = some t → ∀ i piece, t.readPiece i = some piece →
      ∃ penv seq, (acceptSignedPost penv piece u seq).ret = true)
    (hparse : (users.mapM parseUserReq).isSome) : (collectPosts env count users flags).isSome := by
  obtain ⟨reqs, hreqs⟩ := Option.isSome_iff_exists.mp hparse
  have hpieces : ∀ piece ∈ (reqs.map (userPieces env count flags)).flatten, (postOfPiece piece).isSome := by
    intro piece hmem
    simp only [List.mem_flatten, List.mem_map] at hmem
    obtain ⟨_, ⟨req, -, rfl⟩, hpiece⟩ := hmem
    unfold userPieces at hpiece
    split at hpiece
    · cases hpiece
    · next t ht =>
      obtain ⟨i, -, hi⟩ := List.mem_filterMap.mp hpiece
      obtain ⟨penv, seq, hok⟩ := hacc _ t ht i piece hi
      obtain ⟨_, -, hpost⟩ := postOfPiece_of_accepted hok
      rw [hpost]
      rfl
  obtain ⟨items, hitems⟩ := Option.isSome_iff_exists.mp (mapM_isSome hpieces)
  simp [collectPosts, hreqs, hitems]

end Timeline

/-! ## Posts from the future

The clock reads `1000000`, so `MAX_TIME_IN_FUTURE` admits times up to `1007200`.
User `a` holds two posts: piece 0 dated `1007201`, and piece 1 with no `time`. -/

/-- A post of `a` dated one second past `MAX_TIME_IN_FUTURE`. -/
def futurePost : Bytes :=
  bytesOf "d12:sig_userpost3:sig8:userpostd6:heighti1e1:ki0e3:msg2:hi1:n1:a4:timei1007201eee"

/-- A post of `a` without a time. -/
def untimedPost : Bytes :=
  bytesOf "d12:sig_userpost3:sig8:userpostd6:heighti1e1:ki1e3:msg2:yo1:n1:aee"

/-- The node: `a`'s torrent holds both pieces, and the reads complete in the order
they are requested. -/
def futureEnv : TimelineEnv where
  getTorrentUser u :=
    if u = bytesOf "a" then
      some ⟨some ⟨[true, true], 1⟩, [0, 0], fun i => if i = 0 then some futurePost else if i = 1 then some untimedPost
        else none⟩
    else none
  readOrder _ requests := requests
  now := 1000000
  bestHeight := 1
  vchSig := []

/-- No spam message waiting. -/
def noSpam : SpamState := ⟨[], [], 0⟩

theorem getposts_returns_future_and_untimed_posts :
    futureEnv.now + maxTimeInFuture < 1007201 ∧
      getposts futureEnv noSpam 10 [.obj [(bytesOf "username", .str (bytesOf "a"))]] =
        some ([entryToJson (.dict [(bytesOf "sig_userpost", .string (bytesOf "736967")),
              (bytesOf "userpost", .dict [(bytesOf "height", .int 1), (bytesOf "k", .int 0),
                (bytesOf "msg", .string (bytesOf "hi")), (bytesOf "n", .string (bytesOf "a")),
                (bytesOf "time", .int 1007201)])]),
            entryToJson (.dict [(bytesOf "sig_userpost", .string (bytesOf "736967")),
              (bytesOf "userpost", .dict [(bytesOf "height", .int 1), (bytesOf "k", .int 1),
                (bytesOf "msg", .string (bytesOf "yo")), (bytesOf "n", .string (bytesOf "a"))])])], noSpam) := by
  have htimeline : timeline futureEnv noSpam 10 [.obj [(bytesOf "username", .str (bytesOf "a"))]] defaultFlags =
      some ([.dict [(bytesOf "sig_userpost", .string (bytesOf "736967")),
            (bytesOf "userpost", .dict [(bytesOf "height", .int 1), (bytesOf "k", .int 0),
              (bytesOf "msg", .string (bytesOf "hi")), (bytesOf "n", .string (bytesOf "a")),
              (bytesOf "time", .int 1007201)])],
          .dict [(bytesOf "sig_userpost", .string (bytesOf "736967")),
            (bytesOf "userpost", .dict [(bytesOf "height", .int 1), (bytesOf "k", .int 1),
              (bytesOf "msg", .string (bytesOf "yo")), (bytesOf "n", .string (bytesOf "a"))])]], noSpam) := by
    decide +kernel
  refine ⟨by decide, ?_⟩
  rw [getposts, htimeline]
  rfl

end Twister.Posts
