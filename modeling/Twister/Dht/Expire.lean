import Twister.Bencode.Lazy

/-!
# Expiry of DHT resources

`shouldDhtResourceExpire` (twister.cpp) decides, from the best block height, when
a stored DHT item may be dropped: anything older than `BLOCK_AGE_TO_EXPIRE_DHT_ENTRY`
blocks expires unless it is a single item of one of the resources listed in
`m_noExpireResources`, and posts expire later, after
`BLOCK_AGE_TO_EXPIRE_DHT_POSTS` blocks. The resource name is split into its
alphabetic prefix and a decimal number. Heights are C `int`s, so the sums wrap
in 32-bit arithmetic.
-/

namespace Twister.Dht

open Bencode

/-- `ExpireResType`: how a listed resource escapes expiry. -/
inductive ExpireResType where
  | simpleNoExpire
  | numberedNoExpire
  | postNoExpireRecent
  deriving Repr, DecidableEq

/-- `m_noExpireResources` as `startSessionTorrent` fills it, in key order. -/
def noExpireResources : List (Bytes × ExpireResType) :=
  [(bytesOf "avatar", .simpleNoExpire), (bytesOf "following", .numberedNoExpire),
    (bytesOf "post", .postNoExpireRecent), (bytesOf "profile", .simpleNoExpire),
    (bytesOf "status", .simpleNoExpire)]

/-- `BLOCK_AGE_TO_EXPIRE_DHT_ENTRY`, about two weeks of blocks. -/
def blockAgeToExpireDhtEntry : Int32 := 2016

/-- `BLOCK_AGE_TO_EXPIRE_DHT_POSTS`, about two months of blocks. -/
def blockAgeToExpireDhtPosts : Int32 := 4320 * 2

/-- The number after the alphabetic prefix: `-1` unless the rest of the name is
a non-empty run of digits without a leading zero (a lone `0` is allowed), and
then its `atoi` value. -/
def resourceNumber (resource basic : Bytes) : Int32 :=
  let rest := resource.drop basic.length
  match rest with
  | [] => -1
  | c :: more =>
    if c = 48 && !more.isEmpty then -1
    else if rest.all isDigit then atoi rest else -1

/-- `shouldDhtResourceExpire(resource, multi, height)` at best height `bestHeight`. -/
def shouldDhtResourceExpire (bestHeight : Int32) (resource : Bytes) (multi : Bool)
    (height : Int32) : Bool :=
  if height + blockAgeToExpireDhtEntry < bestHeight then
    if multi then true
    else
      let basic := resource.takeWhile isAlpha
      let number := resourceNumber resource basic
      match OrdMap.find? basic noExpireResources with
      | none => true
      | some kind =>
        if kind = .simpleNoExpire && resource.length > basic.length then true
        else if kind = .numberedNoExpire && (number < 0 || number > 200) then true
        else if kind = .postNoExpireRecent && number < 0 then true
        else if kind = .postNoExpireRecent && height + blockAgeToExpireDhtPosts < bestHeight then
          true
        else false
  else false

/-- At best height `10000` and item height `0`, `following4294967296` is kept:
`atoi` truncates `4294967296` to `0`, a sane number. `post2147483648` at height
`5000`, recent enough for a post, expires: `atoi` truncates `2147483648` to a
negative number. And a multi item at height `2^31 - 1` expires, since
`height + 2016` wraps below the best height. -/
theorem shouldDhtResourceExpire_number_wraps :
    shouldDhtResourceExpire 10000 (bytesOf "following4294967296") false 0 = false ∧
      shouldDhtResourceExpire 10000 (bytesOf "post2147483648") false 5000 = true ∧
      shouldDhtResourceExpire 10000 (bytesOf "status") true 2147483647 = true := by
  decide

end Twister.Dht
