import Twister.Util.Utf8
import Twister.Bencode.Lazy
import Twister.Chain.TxIndex

/-!
# Accepting a signed post

A user's posts are the pieces of the user's torrent. `acceptSignedPost`
(twister.cpp) admits a piece as post number `seq` of `username`: a bencoded
dictionary of at most 2048 bytes whose `userpost` names the user and the number,
whose number is not too far ahead of the user's registration, whose `height` is not
in the future, whose `msg` has at most 140 UTF-8 characters, and whose
`sig_userpost` is the user's signature over the bytes of `userpost` with the key
registered at that height; a retwist (`rt`) carries its own signature `sig_rt`.

The integers `k` and `height` are read with `dict_find_int_value`, which returns
a 64-bit value, into an `int`: the model keeps that conversion
(`Int64.toInt32`). `validatePostNumberForUser` bounds the post number from the
height of the block in which `GetTransaction` finds the user at the best height,
the latest key transaction. The public key of a registration is its first push;
whether it is a valid key, and the key id that `RecoverCompact` recovers from a
signature over a message, are parameters. The error texts are those `sprintf`
writes, taken in full: `errbuf` holds 200 bytes.
-/

namespace Twister.Posts

open Bencode Chain

/-- What `acceptSignedPost` reads of the node besides the post: the block tree and
the chain state for `GetTransaction` and `getBestHeight()`; `CPubKey::IsValid()`;
the key id of the key `RecoverCompact` recovers from a signature over the hash of
`strMessageMagic` and a message; and `CPubKey::GetID()`. -/
structure PostEnv where
  tree : BlockTree
  node : Node
  isValidKey : Bytes → Bool
  recoverMessage : Bytes → Bytes → Option Nat
  keyId : Bytes → Nat

/-- `USERPOST_FLAG_RT`. -/
def userpostFlagRt : UInt32 := 0x01

/-- `USERPOST_FLAG_DM`. -/
def userpostFlagDm : UInt32 := 0x02

/-- `getUserPubKey(strUsername, pubkey, maxHeight)`: the first push of the
registration `GetTransaction` finds, when it is a valid key. -/
def getUserPubKey (env : PostEnv) (strUsername : Bytes) (maxHeight : Int) : Option Bytes :=
  match getTransaction env.tree env.node strUsername maxHeight with
  | none => none
  | some (txOut, _) =>
    match extractPushData txOut.pubKey with
    | some (vData0 :: _) => if env.isValidKey vData0 then some vData0 else none
    | _ => none

/-- `verifySignature(strMessage, strUsername, strSign, maxHeight)`: the key
recovered from the signature is the user's key at `maxHeight`. -/
def verifySignature (env : PostEnv) (strMessage strUsername strSign : Bytes) (maxHeight : Int) : Bool :=
  match getUserPubKey env strUsername maxHeight with
  | none => false
  | some pubkey =>
    match env.recoverMessage strMessage strSign with
    | some pubkeyRec => pubkeyRec = env.keyId pubkey
    | none => false

/-- `validatePostNumberForUser(username, k)`: the user is registered, and `k` is
not negative and, once the chain has grown past the genesis block, at most twenty
plus twice the blocks since the block of the registration found at the best
height. -/
def validatePostNumberForUser (env : PostEnv) (username : Bytes) (k : Int32) : Bool :=
  match getTransaction env.tree env.node username (-1) with
  | none => false
  | some (_, hashBlock) =>
    if k < 0 then false
    else if env.node.bestHeight > 0 ∧
        k.toInt > 2 * (env.node.bestHeight - env.tree.height hashBlock) + 20 then false
    else true

/-- `%s` of `c_str()`: the bytes before the first zero byte. -/
def cStr (s : Bytes) : Bytes := s.takeWhile (· ≠ 0)

/-- `%d`: the decimal digits, after a minus sign for a negative number. -/
def formatInt (n : Int) : Bytes :=
  (if n < 0 then bytesOf "-" else []) ++ bytesOf (Nat.repr n.natAbs)

/-- `int v = e->dict_find_int_value(name, -1)`: the 64-bit value, or `-1` when the
item is missing or not an integer, converted to `int`. -/
def dictFindIntValueInt (data : Bytes) (e : LazyEntry) (name : Bytes) : Int32 :=
  (LazyEntry.dictFindIntValue data e name (-1)).toInt32

/-- What `acceptSignedPost` returns, with what it writes to `errmsg` and `*flags`. -/
structure AcceptResult where
  ret : Bool
  errmsg : Bytes
  flags : UInt32
  deriving DecidableEq, Repr

/-- A refusal with its text; `*flags` stays `0`. -/
def AcceptResult.reject (errbuf : Bytes) : AcceptResult := ⟨false, errbuf, 0⟩

/-- The end of `acceptSignedPost` for a post whose own signature verified: the
retwist's signature, and the flags. The DM and post processing that follow when
`flags` is given write other state, which is not modelled. -/
def acceptRetwist (env : PostEnv) (data : Bytes) (post : LazyEntry) : AcceptResult :=
  let rt := LazyEntry.dictFindDict data post (bytesOf "rt")
  let sigRt := LazyEntry.dictFindStringValue data post (bytesOf "sig_rt")
  let (ret, errbuf, flags) : Bool × Bytes × UInt32 :=
    match rt with
    | some rt =>
      let usernameRt := LazyEntry.dictFindStringValue data rt (bytesOf "n")
      let heightRt := dictFindIntValueInt data rt (bytesOf "height")
      let ret := verifySignature env (rt.dataSection data) usernameRt sigRt heightRt.toInt
      (ret, if ret then [] else bytesOf "bad RT signature", userpostFlagRt)
    | none => (true, [], 0)
  let flags :=
    if (LazyEntry.dictFindDict data post (bytesOf "dm")).isSome then flags ||| userpostFlagDm else flags
  ⟨ret, errbuf, flags⟩

/-- The chain of checks of `acceptSignedPost` on the `userpost` dictionary `post`
and the signature `sig`. -/
def checkUserPost (env : PostEnv) (data : Bytes) (post : LazyEntry) (sig username : Bytes) (seq : Int32) :
    AcceptResult :=
  let n := LazyEntry.dictFindStringValue data post (bytesOf "n")
  let msg := LazyEntry.dictFindStringValue data post (bytesOf "msg")
  let msgUtf8Chars := Utf8.numCharacters msg
  let k := dictFindIntValueInt data post (bytesOf "k")
  let height := dictFindIntValueInt data post (bytesOf "height")
  let bestHeight := env.node.bestHeight
  if n ≠ username then
    .reject (bytesOf "expected username '" ++ cStr username ++ bytesOf "' got '" ++ cStr n ++ bytesOf "'")
  else if k ≠ seq then
    .reject (bytesOf "expected piece '" ++ formatInt seq.toInt ++ bytesOf "' got '" ++ formatInt k.toInt ++
      bytesOf "'")
  else if !validatePostNumberForUser env username k then
    .reject (bytesOf "too much posts from user '" ++ cStr username ++ bytesOf "' rejecting post")
  else if height < 0 ∨ (height.toInt > bestHeight + 1 ∧ bestHeight > 0) then
    .reject (bytesOf "post from future not accepted (height: " ++ formatInt height.toInt ++ bytesOf " > " ++
      formatInt bestHeight ++ bytesOf ")")
  else if msgUtf8Chars < 0 then
    .reject (bytesOf "invalid utf8 string")
  else if msgUtf8Chars > 140 then
    .reject (bytesOf "msg too big (" ++ formatInt msgUtf8Chars ++ bytesOf " > 140)")
  else if !verifySignature env (post.dataSection data) username sig height.toInt then
    .reject (bytesOf "bad post signature")
  else acceptRetwist env data post

/-- `acceptSignedPost(data, data_size, username, seq, errmsg, flags)`. A buffer that
does not decode, or decodes to something other than a dictionary, is refused with
an empty `errmsg`. -/
def acceptSignedPost (env : PostEnv) (data : Bytes) (username : Bytes) (seq : Int32) : AcceptResult :=
  if data.length = 0 ∨ data.length > 2048 then .reject (bytesOf "bad bencoded post size")
  else
    let r := lazyBdecode data
    if r.error ≠ none then .reject []
    else if r.ret.type ≠ .dict then .reject []
    else
      let sig := LazyEntry.dictFindStringValue data r.ret (bytesOf "sig_userpost")
      match LazyEntry.dictFindDict data r.ret (bytesOf "userpost") with
      | some post => if sig = [] then .reject (bytesOf "missing post or signature.")
          else checkUserPost env data post sig username seq
      | none => .reject (bytesOf "missing post or signature.")

/-! ## What is accepted -/

section Spec

variable {env : PostEnv} {data sig username : Bytes} {seq : Int32}

theorem verifySignature_eq_true_iff {strMessage strUsername strSign : Bytes} {maxHeight : Int} :
    verifySignature env strMessage strUsername strSign maxHeight = true ↔
      ∃ pubkey, getUserPubKey env strUsername maxHeight = some pubkey ∧
        env.recoverMessage strMessage strSign = some (env.keyId pubkey) := by
  unfold verifySignature
  split
  · next h => simp [h]
  · next pubkey h =>
    split <;> simp_all

theorem validatePostNumberForUser_of_none {k : Int32}
    (h : getTransaction env.tree env.node username (-1) = none) : validatePostNumberForUser env username k = false := by
  rw [validatePostNumberForUser, h]

/-- For a user registered at the best height, the number is not negative and is
within the bound measured from the block of that registration. -/
theorem validatePostNumberForUser_of_some {k : Int32} {txOut : Tx} {hashBlock : BlockId}
    (h : getTransaction env.tree env.node username (-1) = some (txOut, hashBlock)) :
    validatePostNumberForUser env username k = true ↔
      0 ≤ k ∧ (env.node.bestHeight > 0 → k.toInt ≤ 2 * (env.node.bestHeight - env.tree.height hashBlock) + 20) := by
  rw [validatePostNumberForUser, h]
  dsimp only
  split_ifs with hk hb
  · simp only [false_iff, not_and]
    exact fun hk' => absurd hk (Int32.not_lt.mpr hk')
  · simp only [false_iff, not_and]
    exact fun _ himp => absurd (himp hb.1) (not_le.mpr hb.2)
  · simp only [not_and, not_lt] at hb
    simp only [true_iff]
    exact ⟨Int32.not_lt.mp hk, hb⟩

/-- The retwist check passes when there is no retwist or its signature verifies. -/
theorem acceptRetwist_ret {post : LazyEntry} :
    (acceptRetwist env data post).ret = true ↔
      ∀ rt, LazyEntry.dictFindDict data post (bytesOf "rt") = some rt →
        verifySignature env (rt.dataSection data) (LazyEntry.dictFindStringValue data rt (bytesOf "n"))
          (LazyEntry.dictFindStringValue data post (bytesOf "sig_rt"))
          (dictFindIntValueInt data rt (bytesOf "height")).toInt = true := by
  unfold acceptRetwist
  cases hrt : LazyEntry.dictFindDict data post (bytesOf "rt") with
  | none => simp
  | some rt => simp

/-- The retwist check writes a text exactly when it fails. -/
theorem acceptRetwist_errmsg {post : LazyEntry} :
    (acceptRetwist env data post).errmsg = [] ↔ (acceptRetwist env data post).ret = true := by
  unfold acceptRetwist
  cases hrt : LazyEntry.dictFindDict data post (bytesOf "rt") with
  | none => simp
  | some rt =>
    by_cases hv : verifySignature env (rt.dataSection data) (LazyEntry.dictFindStringValue data rt (bytesOf "n"))
        (LazyEntry.dictFindStringValue data post (bytesOf "sig_rt")) (dictFindIntValueInt data rt (bytesOf "height")).toInt
    · simp [hv]
    · simp [hv]
      decide

/-- What `checkUserPost` requires of a `userpost` dictionary, one field per check. -/
structure PostChecks (env : PostEnv) (data : Bytes) (post : LazyEntry) (sig username : Bytes) (seq : Int32) :
    Prop where
  name : LazyEntry.dictFindStringValue data post (bytesOf "n") = username
  number : dictFindIntValueInt data post (bytesOf "k") = seq
  numberValid : validatePostNumberForUser env username seq = true
  heightNonneg : 0 ≤ dictFindIntValueInt data post (bytesOf "height")
  heightNotFuture : env.node.bestHeight > 0 →
    (dictFindIntValueInt data post (bytesOf "height")).toInt ≤ env.node.bestHeight + 1
  msgValid : 0 ≤ Utf8.numCharacters (LazyEntry.dictFindStringValue data post (bytesOf "msg"))
  msgShort : Utf8.numCharacters (LazyEntry.dictFindStringValue data post (bytesOf "msg")) ≤ 140
  signature : verifySignature env (post.dataSection data) username sig
    (dictFindIntValueInt data post (bytesOf "height")).toInt = true
  retwist : ∀ rt, LazyEntry.dictFindDict data post (bytesOf "rt") = some rt →
    verifySignature env (rt.dataSection data) (LazyEntry.dictFindStringValue data rt (bytesOf "n"))
      (LazyEntry.dictFindStringValue data post (bytesOf "sig_rt"))
      (dictFindIntValueInt data rt (bytesOf "height")).toInt = true

theorem checkUserPost_ret {post : LazyEntry} :
    (checkUserPost env data post sig username seq).ret = true ↔ PostChecks env data post sig username seq := by
  unfold checkUserPost
  dsimp only
  split_ifs with hn hk hv hh hm1 hm2 hs
  · simpa [AcceptResult.reject] using fun h => hn h.name
  · simpa [AcceptResult.reject] using fun h => hk h.number
  · simp only [not_not] at hk
    simp only [AcceptResult.reject, Bool.false_eq_true, false_iff]
    intro h
    rw [hk, h.numberValid] at hv
    cases hv
  · simp only [not_not] at hk
    simp only [AcceptResult.reject, Bool.false_eq_true, false_iff]
    intro h
    rcases hh with hneg | ⟨hfut, hpos⟩
    · exact absurd h.heightNonneg (Int32.not_le.mpr hneg)
    · exact absurd (h.heightNotFuture hpos) (not_le.mpr hfut)
  · simpa [AcceptResult.reject] using fun h => absurd h.msgValid (not_le.mpr hm1)
  · simpa [AcceptResult.reject] using fun h => absurd h.msgShort (not_le.mpr hm2)
  · simp only [AcceptResult.reject, Bool.false_eq_true, false_iff]
    intro h
    rw [h.signature] at hs
    cases hs
  · simp only [not_not, not_or, not_and, not_lt, Bool.not_eq_true', Bool.not_eq_false] at hn hk hv hh hm1 hm2 hs
    rw [acceptRetwist_ret]
    constructor
    · intro hrt
      exact ⟨hn, hk, hk ▸ hv, Int32.not_lt.mp hh.1, fun hpos => hh.2 |> fun h => by omega, hm1, hm2, hs, hrt⟩
    · exact fun h => h.retwist

/-- A refusal with a text: neither an empty `errmsg` nor a true result. -/
theorem reject_errmsg {errbuf : Bytes} (h : errbuf ≠ []) :
    (AcceptResult.reject errbuf).errmsg = [] ↔ (AcceptResult.reject errbuf).ret = true := by
  simp [AcceptResult.reject, h]

/-- Every check of `checkUserPost` that fails writes its text. -/
theorem checkUserPost_errmsg {post : LazyEntry} :
    (checkUserPost env data post sig username seq).errmsg = [] ↔
      (checkUserPost env data post sig username seq).ret = true := by
  unfold checkUserPost
  dsimp only
  split_ifs
  · exact reject_errmsg (by simp [bytesOf])
  · exact reject_errmsg (by simp [bytesOf])
  · exact reject_errmsg (by simp [bytesOf])
  · exact reject_errmsg (by simp [bytesOf])
  · exact reject_errmsg (by simp [bytesOf])
  · exact reject_errmsg (by simp [bytesOf])
  · exact reject_errmsg (by simp [bytesOf])
  · exact acceptRetwist_errmsg

/-- `acceptSignedPost` returns true exactly for a buffer of 1 to 2048 bytes that
decodes to a dictionary with a non-empty `sig_userpost` and a `userpost`
dictionary that passes every check. -/
theorem acceptSignedPost_ret :
    (acceptSignedPost env data username seq).ret = true ↔
      0 < data.length ∧ data.length ≤ 2048 ∧ (lazyBdecode data).error = none ∧
        (lazyBdecode data).ret.type = .dict ∧
        LazyEntry.dictFindStringValue data (lazyBdecode data).ret (bytesOf "sig_userpost") ≠ [] ∧
        ∃ post, LazyEntry.dictFindDict data (lazyBdecode data).ret (bytesOf "userpost") = some post ∧
          PostChecks env data post (LazyEntry.dictFindStringValue data (lazyBdecode data).ret (bytesOf "sig_userpost"))
            username seq := by
  unfold acceptSignedPost
  dsimp only
  split_ifs with hsize herr htype hsig
  · simp only [AcceptResult.reject, Bool.false_eq_true, false_iff]
    omega
  · simp [AcceptResult.reject, herr]
  · simp [AcceptResult.reject, htype]
  · simp only [hsig, ne_eq, not_true_eq_false, false_and, and_false, iff_false]
    split <;> simp [AcceptResult.reject]
  · simp only [not_or, not_lt, not_not] at hsize herr htype
    split
    · next post hpost =>
      rw [checkUserPost_ret]
      constructor
      · intro h
        exact ⟨Nat.pos_of_ne_zero hsize.1, hsize.2, herr, htype, hsig, post, hpost, h⟩
      · rintro ⟨-, -, -, -, -, post', hpost', h⟩
        rw [hpost, Option.some.injEq] at hpost'
        exact hpost' ▸ h
    · next hpost =>
      simp [AcceptResult.reject, hpost]

/-- An accepted post leaves `errmsg` empty, and so does a refused one only when the
buffer, of a size the check admits, does not decode to a dictionary: every other
refusal says why. -/
theorem acceptSignedPost_errmsg :
    (acceptSignedPost env data username seq).errmsg = [] ↔
      (acceptSignedPost env data username seq).ret = true ∨
        0 < data.length ∧ data.length ≤ 2048 ∧
          ((lazyBdecode data).error ≠ none ∨ (lazyBdecode data).ret.type ≠ .dict) := by
  unfold acceptSignedPost
  dsimp only
  split_ifs with hsize herr htype hsig
  · have hne : bytesOf "bad bencoded post size" ≠ [] := by decide
    simp only [AcceptResult.reject, hne, Bool.false_eq_true, false_or, false_iff, not_and]
    intro hpos hle
    omega
  · simp [AcceptResult.reject, herr]
    omega
  · simp [AcceptResult.reject, htype]
    omega
  · simp only [not_or, not_lt, not_not] at hsize herr htype
    split <;> simp [AcceptResult.reject, bytesOf, herr, htype]
  · simp only [not_or, not_lt, not_not] at hsize herr htype
    split
    · simp [checkUserPost_errmsg, herr, htype]
    · simp [AcceptResult.reject, bytesOf, herr, htype]

end Spec

/-! ## Two posts the checks misjudge

A chain in which `a` registers at height 1, and one in which `a` replaces the key
at height 10. Every signature recovers the key id `7`, which both keys have: the
signatures are the user's own. -/

/-- The registration of `a`. -/
def registrationA : Tx := { userName := pushData (bytesOf "a"), pubKey := pushData (bytesOf "key") }

/-- The key replacement of `a`: the new key, and a signature over it. -/
def replacementA : Tx :=
  { userName := pushData (bytesOf "a"), pubKey := pushData (bytesOf "key2") ++ pushData (bytesOf "sig") }

/-- Blocks `0` to `top`, each on the one before, with `txs i` in block `i`. -/
def chainOf (top : Nat) (txs : Nat → List Tx) : BlockTree :=
  ⟨(List.range (top + 1)).map fun i => (i, ⟨if i = 0 then none else some (i - 1), i, txs i⟩), 0⟩

/-- The node at the top of such a chain, with the given index. -/
def nodeOf (top : Nat) (txIndex : List (TxKey × TxPos)) : Node :=
  { txIndex, byHeight := (List.range (top + 1)).map some, best := some top, bestHeight := top }

/-- Signatures and keys of the two chains. -/
def signaturesOf (tree : BlockTree) (node : Node) : PostEnv :=
  ⟨tree, node, fun _ => true, fun _ _ => some 7, fun _ => 7⟩

/-- `a` registered at height 1, the best height. -/
def registeredEnv : PostEnv :=
  signaturesOf (chainOf 1 fun i => if i = 1 then [registrationA] else []) (nodeOf 1 [(⟨bytesOf "a", -1⟩, ⟨1, 0⟩)])

/-- `a` registered at height 1 and replaced its key at height 10, the best height:
the index keeps the registration under `(a, 9)`. -/
def replacedKeyEnv : PostEnv :=
  signaturesOf
    (chainOf 10 fun i => if i = 1 then [registrationA] else if i = 10 then [replacementA] else [])
    (nodeOf 10 [(⟨bytesOf "a", -1⟩, ⟨10, 0⟩), (⟨bytesOf "a", 9⟩, ⟨1, 0⟩)])

/-- A post of `a` whose `k` is `2^32`. -/
def wrappedPost : Bytes :=
  bytesOf "d12:sig_userpost3:sig8:userpostd6:heighti1e1:ki4294967296e3:msg2:hi1:n1:a4:timei1eee"

/-- Post 30 of `a`, at height 10. -/
def post30 : Bytes :=
  bytesOf "d12:sig_userpost3:sig8:userpostd6:heighti10e1:ki30e3:msg2:hi1:n1:a4:timei1eee"

theorem acceptSignedPost_wraps_and_uses_latest_key :
    (lazyBdecode wrappedPost).ret.toEntry wrappedPost =
        .dict [(bytesOf "sig_userpost", .string (bytesOf "sig")),
          (bytesOf "userpost", .dict [(bytesOf "height", .int 1), (bytesOf "k", .int 4294967296),
            (bytesOf "msg", .string (bytesOf "hi")), (bytesOf "n", .string (bytesOf "a")),
            (bytesOf "time", .int 1)])] ∧
      acceptSignedPost registeredEnv wrappedPost (bytesOf "a") 0 = ⟨true, [], 0⟩ ∧
      getTransaction replacedKeyEnv.tree replacedKeyEnv.node (bytesOf "a") 1 = some (registrationA, 1) ∧
      replacedKeyEnv.tree.height 1 = 1 ∧
      acceptSignedPost replacedKeyEnv post30 (bytesOf "a") 30 =
        .reject (bytesOf "too much posts from user 'a' rejecting post") := by
  decide +kernel

end Twister.Posts
