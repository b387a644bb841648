import Twister.Bencode.Decode
import Twister.Lib.Enumeration

/-!
# Trending hashtags

`updateSeenHashtags` (twister.cpp) splits a message into tokens on
`msgTokensDelimiter`, takes the tokens of at least two bytes that start with `#`,
lower-cases them, splits those that still hold a `#` into sub-tags, and collects
the distinct tags of the message in a `std::set`. Each tag then gets one vote,
`pow(0.5, timeDiff / hashtagHalfLife)`, added to its score in `m_seenHashtags`.
`ThreadHashtagsAging` multiplies every score by `hashtagAgingFactor` each minute
and drops the scores below `hashtagCriticalValue`. `gettrendinghashtags(count)`
ranks the tags by inserting them into a `std::map` keyed by their score and
returns the first `count` from the highest score down.

Scores are `double`s in the source; the model keeps them abstract, in any
linearly ordered type with the vote, the aging factor and the threshold as
parameters. `boost::algorithm::split` with `token_compress_on` differs from a split
at every delimiter only by empty tokens, which both loops skip. Lower-casing is
`to_lower` in the C locale.
-/

namespace Twister.Posts

open Bencode

/-- `msgTokensDelimiter`: ``" \n\t.,:/?!;'\"()[]{}*"``. -/
def isTokenDelimiter (c : UInt8) : Bool :=
  c ∈ [32, 10, 9, 46, 44, 58, 47, 63, 33, 59, 39, 34, 40, 41, 91, 93, 123, 125, 42]

/-- The character `#`. -/
def hashChar : UInt8 := 35

/-- The distinct lower-cased tags of one message, the `std::set` `hashtags`. -/
def messageHashtags (message : Bytes) : List Bytes :=
  if hashChar ∉ message then []
  else
    (message.splitOnP isTokenDelimiter).foldl (fun hashtags token =>
      if token.length ≥ 2 ∧ token.head? = some hashChar then
        let word := (token.drop 1).map toLowerAscii
        if hashChar ∉ word then OrdSet.insert word hashtags
        else (word.splitOnP (· = hashChar)).foldl
          (fun hashtags sub => if sub.isEmpty then hashtags else OrdSet.insert sub hashtags) hashtags
      else hashtags) []

/-- What the hashtag code reads besides the messages: the clock, the vote for a
message of a given age, the aging factor and the threshold below which a score
is dropped. -/
structure HashtagEnv (S : Type) where
  curTime : Int64
  vote : Int64 → S
  agingFactor : S
  criticalValue : S

variable {S : Type} [LinearOrder S]

/-- `updateSeenHashtags(message, msgTime)` on `m_seenHashtags`: one vote for each
distinct tag of the message, from a time no later than now. -/
def updateSeenHashtags [Add S] (env : HashtagEnv S) (seen : List (Bytes × S)) (message : Bytes)
    (msgTime : Int64) : List (Bytes × S) :=
  let hashtags := messageHashtags message
  if hashtags.isEmpty then seen
  else
    let msgTime := if msgTime > env.curTime then env.curTime else msgTime
    let vote := env.vote (env.curTime - msgTime)
    hashtags.foldl (fun seen word =>
      match OrdMap.find? word seen with
      | some score => OrdMap.insert word (score + vote) seen
      | none => OrdMap.insert word vote seen) seen

/-- One round of `ThreadHashtagsAging`: every score decays, and those below the
threshold are erased. -/
def hashtagsAging [Mul S] (env : HashtagEnv S) (seen : List (Bytes × S)) : List (Bytes × S) :=
  seen.filterMap fun (word, score) =>
    let score := score * env.agingFactor
    if score < env.criticalValue then none else some (word, score)

/-- `gettrendinghashtags(count)`: the tags inserted in key order into a map keyed
by their score, a later tag taking the place of an earlier one with an equal
score, then read from the highest score down, at most `count` of them. -/
def gettrendinghashtags (seen : List (Bytes × S)) (count : Nat) : List Bytes :=
  let sortedHashtags : List (S × Bytes) :=
    seen.foldl (fun sorted item => OrdMap.insert item.2 item.1 sorted) []
  (sortedHashtags.reverse.map Prod.snd).take count

/-- What changes the scores, under `cs_seenHashtags`: a message with hashtags seen
at adjusted time `curTime`, or a round of `ThreadHashtagsAging`. -/
inductive HashtagEvent where
  | message (curTime : Int64) (message : Bytes) (msgTime : Int64)
  | aging

/-- One event on `m_seenHashtags`. -/
def HashtagEvent.apply [Add S] [Mul S] (env : HashtagEnv S) (seen : List (Bytes × S)) :
    HashtagEvent → List (Bytes × S)
  | .message curTime msg msgTime => updateSeenHashtags { env with curTime } seen msg msgTime
  | .aging => hashtagsAging env seen

section Scores

/-- One vote for each tag of a message keeps `m_seenHashtags` a map: each vote is
an assignment. -/
theorem sorted_foldl_vote {T : Type} [Add T] (vote : T) (hashtags : List Bytes) :
    ∀ {seen : List (Bytes × T)}, OrdMap.Sorted seen →
      OrdMap.Sorted (hashtags.foldl (fun seen word =>
        match OrdMap.find? word seen with
        | some score => OrdMap.insert word (score + vote) seen
        | none => OrdMap.insert word vote seen) seen) := by
  induction hashtags with
  | nil => exact fun hs => hs
  | cons word hashtags ih =>
    intro seen hs
    rw [List.foldl_cons]
    apply ih
    split <;> exact OrdMap.sorted_insert bytesStrictOrder _ _ hs

/-- `updateSeenHashtags` keeps `m_seenHashtags` a map. -/
theorem sorted_updateSeenHashtags {T : Type} [Add T] (env : HashtagEnv T) {seen : List (Bytes × T)}
    (hs : OrdMap.Sorted seen) (message : Bytes) (msgTime : Int64) :
    OrdMap.Sorted (updateSeenHashtags env seen message msgTime) := by
  unfold updateSeenHashtags
  dsimp only
  split_ifs
  · exact hs
  · exact sorted_foldl_vote _ _ hs
  · exact sorted_foldl_vote _ _ hs

/-- Aging keeps the keys it does not erase, in order. -/
theorem keys_hashtagsAging_sublist [Mul S] (env : HashtagEnv S) (seen : List (Bytes × S)) :
    (OrdMap.keys (hashtagsAging env seen)).Sublist (OrdMap.keys seen) := by
  unfold hashtagsAging OrdMap.keys
  induction seen with
  | nil => simp
  | cons x seen ih =>
    obtain ⟨word, score⟩ := x
    simp only [List.filterMap_cons, List.map_cons]
    split_ifs
    · exact ih.cons word
    · exact ih.cons_cons word

theorem sorted_hashtagsAging [Mul S] (env : HashtagEnv S) {seen : List (Bytes × S)}
    (hs : OrdMap.Sorted seen) : OrdMap.Sorted (hashtagsAging env seen) :=
  hs.sublist (keys_hashtagsAging_sublist env seen)

/-- Every interleaving of messages and aging rounds keeps `m_seenHashtags` a map. -/
theorem sorted_hashtagEvents [Add S] [Mul S] (env : HashtagEnv S) (events : List HashtagEvent) :
    ∀ {seen : List (Bytes × S)}, OrdMap.Sorted seen →
      OrdMap.Sorted (events.foldl (HashtagEvent.apply env) seen) := by
  induction events with
  | nil => exact fun hs => hs
  | cons ev events ih =>
    intro seen hs
    rw [List.foldl_cons]
    apply ih
    cases ev with
    | message curTime msg msgTime => exact sorted_updateSeenHashtags _ hs msg msgTime
    | aging => exact sorted_hashtagsAging env hs

/-- The ranking map of `gettrendinghashtags` holds each of its pairs, score first,
as a pair of `m_seenHashtags`. -/
theorem mem_foldl_insert_score (seen : List (Bytes × S)) (acc : List (S × Bytes)) (x : S × Bytes)
    (hx : x ∈ seen.foldl (fun sorted item => OrdMap.insert item.2 item.1 sorted) acc) :
    x ∈ acc ∨ (x.2, x.1) ∈ seen := by
  refine Enumeration.mem_foldl_of_step (P := fun y => (y.2, y.1) ∈ seen)
    (fun item hitem sorted y hy => ?_) acc x hx
  rcases OrdMap.mem_of_mem_insert hy with rfl | hy
  · exact Or.inr hitem
  · exact Or.inl hy

/-- The ranking map is a map: one tag per score. -/
theorem sorted_foldl_insert_score (seen : List (Bytes × S)) :
    ∀ {acc : List (S × Bytes)}, OrdMap.Sorted acc →
      OrdMap.Sorted (seen.foldl (fun sorted item => OrdMap.insert item.2 item.1 sorted) acc) := by
  induction seen with
  | nil => exact fun hs => hs
  | cons item seen ih =>
    intro acc hs
    exact ih (OrdMap.sorted_insert OrdMap.StrictOrder.of_linearOrder _ _ hs)

/-- No two tags `gettrendinghashtags` returns have the same score in
`m_seenHashtags`: a tag takes the place of every earlier tag with its score. -/
theorem gettrendinghashtags_scores_ne (seen : List (Bytes × S)) (hseen : OrdMap.Sorted seen)
    (count : Nat) {t t' : Bytes} (ht : t ∈ gettrendinghashtags seen count)
    (ht' : t' ∈ gettrendinghashtags seen count) (hne : t ≠ t') :
    OrdMap.find? t seen ≠ OrdMap.find? t' seen := by
  have hsorted := sorted_foldl_insert_score seen OrdMap.sorted_nil
  have hmem : ∀ u ∈ gettrendinghashtags seen count, ∃ score,
      (score, u) ∈ seen.foldl (fun sorted item => OrdMap.insert item.2 item.1 sorted) [] ∧
        OrdMap.find? u seen = some score := by
    intro u hu
    unfold gettrendinghashtags at hu
    obtain ⟨⟨score, u'⟩, hx, rfl⟩ := List.mem_map.mp (List.mem_of_mem_take hu)
    rw [List.mem_reverse] at hx
    have hpair := (mem_foldl_insert_score seen [] _ hx).resolve_left List.not_mem_nil
    exact ⟨score, hx, OrdMap.find?_eq_some_of_mem (hseen.nodup bytesStrictOrder) hpair⟩
  obtain ⟨s, hs, hfind⟩ := hmem t ht
  obtain ⟨s', hs', hfind'⟩ := hmem t' ht'
  rw [hfind, hfind']
  intro heq
  cases Option.some.inj heq
  have hnodup := hsorted.nodup OrdMap.StrictOrder.of_linearOrder
  have h₁ := OrdMap.find?_eq_some_of_mem hnodup hs
  have h₂ := OrdMap.find?_eq_some_of_mem hnodup hs'
  exact hne (Option.some.inj (h₁.symm.trans h₂))

/-- Along every interleaving of messages and aging rounds from an empty table, the
tags `gettrendinghashtags` returns have pairwise different scores: of several tags
with one score, at most one is ever returned. -/
theorem gettrendinghashtags_run_scores_ne [Add S] [Mul S] (env : HashtagEnv S)
    (events : List HashtagEvent) (count : Nat) {t t' : Bytes}
    (ht : t ∈ gettrendinghashtags (events.foldl (HashtagEvent.apply env) []) count)
    (ht' : t' ∈ gettrendinghashtags (events.foldl (HashtagEvent.apply env) []) count)
    (hne : t ≠ t') :
    OrdMap.find? t (events.foldl (HashtagEvent.apply env) []) ≠
      OrdMap.find? t' (events.foldl (HashtagEvent.apply env) []) :=
  gettrendinghashtags_scores_ne _ (sorted_hashtagEvents env events OrdMap.sorted_nil) count ht ht' hne

end Scores

/-- One message `#a #b` gives the tags `a` and `b` the same vote, whatever the
score type and the vote; asked for two trending tags, `gettrendinghashtags` returns
one, since `b` takes the place of `a` under their common score. -/
theorem gettrendinghashtags_drops_ties [Add S] (env : HashtagEnv S) :
    (updateSeenHashtags env [] (bytesOf "#a #b") env.curTime).length = 2 ∧
      gettrendinghashtags (updateSeenHashtags env [] (bytesOf "#a #b") env.curTime) 2 =
        [bytesOf "b"] := by
  have htags : messageHashtags (bytesOf "#a #b") = [bytesOf "a", bytesOf "b"] := by decide
  have hne : bytesOf "b" ≠ bytesOf "a" := by decide
  have hnlt : ¬ bytesOf "b" < bytesOf "a" := by decide
  have hseen : updateSeenHashtags env [] (bytesOf "#a #b") env.curTime =
      [(bytesOf "a", env.vote 0), (bytesOf "b", env.vote 0)] := by
    simp [updateSeenHashtags, htags, OrdMap.insert, OrdMap.find?, hne, hnlt]
  rw [hseen]
  simp [gettrendinghashtags, OrdMap.insert]

end Twister.Posts
