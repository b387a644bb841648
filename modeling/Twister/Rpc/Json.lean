import Twister.Bencode.Decode

/-!
# Entries through the JSON-RPC layer

The RPC layer (twister_utils.cpp) turns a libtorrent `entry` into a json_spirit
`Value` with `entryToJson` and back with `jsonToEntry`. Binary fields of posts are
hex-escaped first, by `hexcapePost`, and unescaped after, by `unHexcapePost`,
through `HexStr` and `ParseHex` (util.h, util.cpp).

A json_spirit integer holds an `int64`, and `entryToJson` stores the full value;
`jsonToEntry` reads it back with `get_int`, which narrows it to a 32-bit `int`
before the entry widens it again.
-/

namespace Twister.Rpc

open Bencode

/-- A json_spirit `Value`: objects keep their pairs in order, integers are 64-bit.
Real numbers are not produced by the functions modelled here and are left out. -/
inductive JsonValue where
  | obj (pairs : List (Bytes × JsonValue))
  | array (items : List JsonValue)
  | str (s : Bytes)
  | bool (b : Bool)
  | int (v : Int64)
  | null
  deriving Repr, Inhabited

/-- The string json_spirit conversions put for an entry they cannot convert. -/
def uninitialized : Bytes := bytesOf "<uninitialized>"

mutual

/-- `entryToJson`: integers and strings as values, lists as arrays, dictionaries
as objects in key order, and an undefined entry as the text `<uninitialized>`. -/
def entryToJson : Entry → JsonValue
  | .int v => .int v
  | .string s => .str s
  | .list l => .array (entryListToJson l)
  | .dict d => .obj (entryDictToJson d)
  | .undefined => .str uninitialized

/-- The items of a list. -/
def entryListToJson : List Entry → List JsonValue
  | [] => []
  | e :: l => entryToJson e :: entryListToJson l

/-- The pairs of a dictionary. -/
def entryDictToJson : List (Bytes × Entry) → List (Bytes × JsonValue)
  | [] => []
  | (k, e) :: d => (k, entryToJson e) :: entryDictToJson d

end

/-- `get_int()`: the stored `int64` cast to `int`, kept as the entry's 64-bit
integer after sign extension. -/
def getInt (v : Int64) : Int64 := v.toInt32.toInt64

mutual

/-- `jsonToEntry`: integers through `get_int`, strings as strings, arrays as lists,
objects as dictionaries assigned pair by pair (`dict[name] = ...`), and anything
else as the text `<uninitialized>`. -/
def jsonToEntry : JsonValue → Entry
  | .int v => .int (getInt v)
  | .str s => .string s
  | .array items => .list (jsonListToEntry items)
  | .obj pairs => .dict (jsonObjToEntry [] pairs)
  | .bool _ => .string uninitialized
  | .null => .string uninitialized

/-- The items of an array. -/
def jsonListToEntry : List JsonValue → List Entry
  | [] => []
  | v :: l => jsonToEntry v :: jsonListToEntry l

/-- The pairs of an object, assigned one after another into `acc`. -/
def jsonObjToEntry (acc : List (Bytes × Entry)) : List (Bytes × JsonValue) → List (Bytes × Entry)
  | [] => acc
  | (k, v) :: pairs => jsonObjToEntry (OrdMap.insert k (jsonToEntry v) acc) pairs

end

/-- The lowercase hexadecimal digit of a nibble, `hexmap` in `HexStr`. -/
def hexDigit (n : UInt8) : UInt8 := if n < 10 then 48 + n else 87 + n

/-- `HexStr`: two lowercase hexadecimal digits per byte, high nibble first. -/
def hexStr : Bytes → Bytes
  | [] => []
  | b :: bs => hexDigit (b >>> 4) :: hexDigit (b &&& 15) :: hexStr bs

/-- `phexdigit`: the value of a hexadecimal digit of either case. -/
def phexdigit (c : UInt8) : Option UInt8 :=
  if 48 ≤ c ∧ c ≤ 57 then some (c - 48)
  else if 97 ≤ c ∧ c ≤ 102 then some (c - 87)
  else if 65 ≤ c ∧ c ≤ 70 then some (c - 55)
  else none

/-- `ParseHex`: skip white space, then read pairs of digits into bytes until a
character that is not a digit; an odd final digit is dropped. The end of the
input plays the part of the terminating NUL. -/
def parseHex : Bytes → Bytes
  | [] => []
  | c :: rest =>
    if isSpace c then parseHex rest
    else match phexdigit c, rest with
      | some hi, c' :: rest' =>
        match phexdigit c' with
        | some lo => ((hi <<< 4) ||| lo) :: parseHex rest'
        | none => []
      | _, _ => []

/-- `findAndHexcape(e, key)`: a string field of a dictionary replaced by its hex text. -/
def findAndHexcape (e : Entry) (key : Bytes) : Entry :=
  match e.findKey key with
  | some (.string s) => e.setKey key (.string (hexStr s))
  | _ => e

/-- `findAndUnHexcape(e, key)`: a string field of a dictionary parsed back from hex. -/
def findAndUnHexcape (e : Entry) (key : Bytes) : Entry :=
  match e.findKey key with
  | some (.string s) => e.setKey key (.string (parseHex s))
  | _ => e

/-- The walk shared by `hexcapePost` and `unHexcapePost` over the binary fields of
a post: `sig_userpost`, `userpost.sig_rt` and `userpost.dm.{body,key,mac}`, each
visited with `esc` when its dictionary is there. -/
def postEscape (esc : Entry → Bytes → Entry) (e : Entry) : Entry :=
  match e with
  | .dict _ =>
    let e := esc e (bytesOf "sig_userpost")
    e.updateDict (bytesOf "userpost") fun userpost =>
      let userpost := esc userpost (bytesOf "sig_rt")
      userpost.updateDict (bytesOf "dm") fun dm =>
        esc (esc (esc dm (bytesOf "body")) (bytesOf "key")) (bytesOf "mac")
  | e => e

/-- `hexcapePost`. -/
def hexcapePost (e : Entry) : Entry := postEscape findAndHexcape e

/-- `unHexcapePost`. -/
def unHexcapePost (e : Entry) : Entry := postEscape findAndUnHexcape e

/-- `hexcapeDht`: the DHT item's `sig_p`, and the post inside `p.v` when it is a
dictionary. -/
def hexcapeDht (e : Entry) : Entry :=
  match e with
  | .dict _ =>
    let e := findAndHexcape e (bytesOf "sig_p")
    e.updateDict (bytesOf "p") fun p =>
      p.updateDict (bytesOf "v") hexcapePost
  | e => e

/-- A post of the year 2038: its `time` is `2^31`, one past the largest `int`. -/
def post2038 : Entry :=
  .dict [(bytesOf "sig_userpost", .string [1, 250]),
    (bytesOf "userpost", .dict [(bytesOf "height", .int 1), (bytesOf "k", .int 0),
      (bytesOf "msg", .string (bytesOf "hi")), (bytesOf "n", .string (bytesOf "alice")),
      (bytesOf "time", .int 2147483648)])]

/-- Through the JSON layer the post keeps its hex-escaped signature but its `time`
comes back as `-2^31`: `get_int` keeps the low 32 bits of the stored `int64`. -/
theorem unHexcapePost_jsonToEntry_post2038 :
    unHexcapePost (jsonToEntry (entryToJson (hexcapePost post2038))) =
      .dict [(bytesOf "sig_userpost", .string [1, 250]),
        (bytesOf "userpost", .dict [(bytesOf "height", .int 1), (bytesOf "k", .int 0),
          (bytesOf "msg", .string (bytesOf "hi")), (bytesOf "n", .string (bytesOf "alice")),
          (bytesOf "time", .int (-2147483648))])] := by
  decide

end Twister.Rpc
