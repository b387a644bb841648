import Twister.Bencode.Lazy

/-!
# Searching messages

The `search` RPC in the `messages` scope (twister.cpp) runs `TextSearch` over the
raw bytes of every post piece of the followed torrents and of every `p` stored in
the DHT. `matchRawMessage` decodes a raw message with `lazy_bdecode`, finds the
user post (under `v` for a DHT item, at the top for a swarm post, in either case
possibly a retwist `rt`), and checks the username, time and text filters. Before
decoding it rejects, when the search is case-sensitive and not in `any` mode, a raw
message that does not contain the first keyword.

`std::string::find(k) != npos` is `k` being an infix. Lower-casing is `to_lower` in
the C locale.
-/

namespace Twister.Posts

open Bencode LazyEntry

/-- `TextSearch::search_mode`. -/
inductive SearchMode where
  | exact
  | all
  | any
  deriving DecidableEq, Repr

/-- The state of a `TextSearch`: its keywords and filters. -/
structure TextSearch where
  keywords : List Bytes
  mode : SearchMode
  caseInsensitive : Bool
  timeMin : Int64
  timeMax : Int64
  username : Bytes
  deriving Repr

/-- A day in seconds. -/
def daySeconds : Int64 := 24 * 60 * 60

/-- `TextSearch::TextSearch(keyword, params)` at adjusted time `now`: the mode, case,
age window and username from the parameters; the whole keyword in `exact` mode,
otherwise its non-empty space-separated words; lower-cased when case-insensitive. -/
def textSearch (keyword : Bytes) (params : Entry) (now : Int64) : TextSearch :=
  let mode : SearchMode := match params.findKey (bytesOf "mode") with
    | some (.string m) =>
      if m = bytesOf "all" then .all else if m = bytesOf "any" then .any else .exact
    | _ => .exact
  let caseInsensitive := params.findKey (bytesOf "case") == some (.string (bytesOf "insensitive"))
  let timeMax := match params.findKey (bytesOf "agemin") with
    | some (.int a) => now - a * daySeconds
    | _ => Int64.maxValue
  let timeMin := match params.findKey (bytesOf "agemax") with
    | some (.int a) => now - a * daySeconds
    | _ => Int64.minValue
  let username := match params.findKey (bytesOf "username") with
    | some (.string u) => u
    | _ => []
  let keywords := if mode = .exact then [keyword]
    else (keyword.splitOnP (· = 32)).filter (!·.isEmpty)
  let keywords := if caseInsensitive then keywords.map (·.map toLowerAscii) else keywords
  ⟨keywords, mode, caseInsensitive, timeMin, timeMax, username⟩

/-- `msg.find(k) != string::npos`. -/
def occursIn (k msg : Bytes) : Bool := decide (k <:+: msg)

/-- `TextSearch::matchText(msg)`. -/
def TextSearch.matchText (ts : TextSearch) (msg : Bytes) : Bool :=
  match ts.keywords with
  | [] => false
  | k :: _ =>
    let msg := if ts.caseInsensitive then msg.map toLowerAscii else msg
    match ts.mode with
    | .exact => occursIn k msg
    | .all => ts.keywords.all (occursIn · msg)
    | .any => ts.keywords.any (occursIn · msg)

/-- `TextSearch::matchTime(time)`. -/
def TextSearch.matchTime (ts : TextSearch) (time : Int64) : Bool :=
  time ≥ ts.timeMin && time ≤ ts.timeMax

/-- The decoding part of `matchRawMessage`: decode the raw message, find the user
post (under `v`, or at the top), take its retwist if it has one, and check the
username, time and text. The node the source returns a pointer to. -/
def TextSearch.matchDecoded (ts : TextSearch) (rawMessage : Bytes) : Option LazyEntry :=
  let r := lazyBdecode rawMessage
  if r.error = Option.none ∧ r.ret.type = .dict then
    let v := r.ret
    let post := match dictFindDict rawMessage v (bytesOf "v") with
      | some vv => dictFindDict rawMessage vv (bytesOf "userpost")
      | Option.none => dictFindDict rawMessage v (bytesOf "userpost")
    match post with
    | some post =>
      let p := (dictFindDict rawMessage post (bytesOf "rt")).getD post
      if !ts.username.isEmpty ∧ dictFindStringValue rawMessage p (bytesOf "n") ≠ ts.username then
        Option.none
      else if !ts.matchTime (dictFindIntValue rawMessage p (bytesOf "time")) then Option.none
      else if ts.matchText (dictFindStringValue rawMessage p (bytesOf "msg")) then some p
      else Option.none
    | Option.none => Option.none
  else Option.none

/-- `TextSearch::matchRawMessage(rawMessage, v)`: no keywords match nothing; the fast
check rejects a raw message without the first keyword when the search is
case-sensitive and not in `any` mode; then the decoding check. -/
def TextSearch.matchRawMessage (ts : TextSearch) (rawMessage : Bytes) : Option LazyEntry :=
  match ts.keywords with
  | [] => Option.none
  | k :: _ =>
    if !ts.caseInsensitive && ts.mode ≠ .any && !occursIn k rawMessage then Option.none
    else ts.matchDecoded rawMessage

/-- `matchRawMessage` without the fast check: the full check alone. -/
def TextSearch.matchRawMessageFull (ts : TextSearch) (rawMessage : Bytes) : Option LazyEntry :=
  match ts.keywords with
  | [] => Option.none
  | _ :: _ => ts.matchDecoded rawMessage

/-- A slice of the buffer is an infix of it. -/
theorem isInfix_slice (input : Bytes) (pos len : Int) : slice input pos len <:+: input :=
  ⟨input.take pos.toNat, (input.drop pos.toNat).drop len.toNat, by
    simp only [slice, List.append_assoc, List.take_append_drop]⟩

/-- Every string value read from a lazily decoded message is a contiguous part of
the raw bytes. -/
theorem isInfix_dictFindStringValue (input : Bytes) (e : LazyEntry) (name : Bytes) :
    dictFindStringValue input e name <:+: input := by
  unfold dictFindStringValue
  split
  · rename_i v _
    cases v with
    | string start size => exact isInfix_slice input start _
    | _ => exact List.nil_infix
  · exact List.nil_infix

/-- A case-sensitive match outside `any` mode finds the first keyword in the text. -/
theorem matchText_first_keyword {ts : TextSearch} {k : Bytes} {rest : List Bytes} {msg : Bytes}
    (hk : ts.keywords = k :: rest) (hcase : ts.caseInsensitive = false) (hmode : ts.mode ≠ .any)
    (hmatch : ts.matchText msg = true) : k <:+: msg := by
  unfold TextSearch.matchText at hmatch
  rw [hk, hcase] at hmatch
  simp only [Bool.false_eq_true, if_false] at hmatch
  cases hm : ts.mode with
  | exact =>
    rw [hm] at hmatch
    simpa [occursIn] using hmatch
  | all =>
    rw [hm, List.all_eq_true] at hmatch
    simpa [occursIn] using hmatch k List.mem_cons_self
  | any => exact absurd hm hmode

/-- The decoding check only matches raw messages that contain the first keyword,
when the search is case-sensitive and not in `any` mode. -/
theorem matchDecoded_first_keyword {ts : TextSearch} {k : Bytes} {rest : List Bytes}
    {rawMessage : Bytes} {p : LazyEntry} (hk : ts.keywords = k :: rest)
    (hcase : ts.caseInsensitive = false) (hmode : ts.mode ≠ .any)
    (hmatch : ts.matchDecoded rawMessage = some p) : k <:+: rawMessage := by
  unfold TextSearch.matchDecoded at hmatch
  dsimp only at hmatch
  split_ifs at hmatch with hparse
  split at hmatch
  · rename_i post _
    split_ifs at hmatch with huser htime htext
    exact (matchText_first_keyword hk hcase hmode htext).trans (isInfix_dictFindStringValue _ _ _)
  · cases hmatch

/-- The fast path of `matchRawMessage` agrees with the full check on every raw
message, for every search state: the early rejection never discards a message the
full check would match. -/
theorem matchRawMessage_eq_full (ts : TextSearch) (rawMessage : Bytes) :
    ts.matchRawMessage rawMessage = ts.matchRawMessageFull rawMessage := by
  unfold TextSearch.matchRawMessage TextSearch.matchRawMessageFull
  split
  · rfl
  · rename_i k rest hk
    split_ifs with hfast
    · simp only [Bool.and_eq_true, Bool.not_eq_eq_eq_not, Bool.not_true, decide_eq_true_eq,
        occursIn, decide_eq_false_iff_not] at hfast
      obtain ⟨⟨hcase, hmode⟩, hnot⟩ := hfast
      cases hfull : ts.matchDecoded rawMessage with
      | none => rfl
      | some p => exact absurd (matchDecoded_first_keyword hk hcase hmode hfull) hnot
    · rfl

end Twister.Posts
