import Twister.Lib.OrdMap

/-!
# Bencoded entries and the encoder

`libtorrent::entry` is a tagged union of a 64-bit integer, a byte string, a list
and a dictionary ordered by key (`std::map<std::string, entry>`), with an
`undefined_t` state for a value that was never set. This file models the type
and `bencode_recursive` (bencode.hpp), whose integers go through
`detail::integer_to_str` (entry.cpp). The integer writer is modelled at the
precision of the source: it negates a negative value in 64-bit arithmetic and
takes the C `%` and `/` of the result, which is what decides its output at
`INT64_MIN`.
-/

namespace Twister

/-- Byte strings: `std::string` and `std::vector<char>` as raw bytes. -/
abbrev Bytes := List UInt8

/-- Membership tests on byte strings all go through this one instance. -/
instance : LawfulBEq Bytes := inferInstance

/-- The bytes of an ASCII literal such as a dictionary key. -/
def bytesOf (s : String) : Bytes := s.toList.map fun c => c.toNat.toUInt8

/-- Byte strings under `std::string`'s `<`, the order of the keys of every map
keyed by them. -/
theorem bytesStrictOrder : OrdMap.StrictOrder Bytes :=
  ⟨List.lt_irrefl, List.lt_trans,
    fun _ _ hab hba => List.le_antisymm (List.not_lt.mp hba) (List.not_lt.mp hab)⟩

/-- `libtorrent::entry`. A dictionary is a list of pairs kept in increasing key
order, as `std::map` iterates it. -/
inductive Entry where
  | int (v : Int64)
  | string (s : Bytes)
  | list (l : List Entry)
  | dict (d : List (Bytes × Entry))
  | undefined
  deriving Repr, Inhabited

mutual

/-- Structural equality of entries, decided constructor by constructor. -/
def Entry.decEq : (a b : Entry) → Decidable (a = b)
  | .int x, .int y => decidable_of_iff (x = y) (by simp)
  | .string s, .string t => decidable_of_iff (s = t) (by simp)
  | .list l, .list m =>
    match Entry.decEqList l m with
    | isTrue h => isTrue (by rw [h])
    | isFalse h => isFalse (by simpa using h)
  | .dict d, .dict e =>
    match Entry.decEqDict d e with
    | isTrue h => isTrue (by rw [h])
    | isFalse h => isFalse (by simpa using h)
  | .undefined, .undefined => isTrue rfl
  | .int _, .string _ | .int _, .list _ | .int _, .dict _ | .int _, .undefined
  | .string _, .int _ | .string _, .list _ | .string _, .dict _ | .string _, .undefined
  | .list _, .int _ | .list _, .string _ | .list _, .dict _ | .list _, .undefined
  | .dict _, .int _ | .dict _, .string _ | .dict _, .list _ | .dict _, .undefined
  | .undefined, .int _ | .undefined, .string _ | .undefined, .list _
  | .undefined, .dict _ => isFalse nofun

/-- Equality of entry lists. -/
def Entry.decEqList : (l m : List Entry) → Decidable (l = m)
  | [], [] => isTrue rfl
  | [], _ :: _ | _ :: _, [] => isFalse nofun
  | a :: l, b :: m =>
    match Entry.decEq a b, Entry.decEqList l m with
    | isTrue h, isTrue h' => isTrue (by rw [h, h'])
    | isFalse h, _ => isFalse (by simp [h])
    | _, isFalse h' => isFalse (by simp [h'])

/-- Equality of dictionaries, keys first. -/
def Entry.decEqDict : (d e : List (Bytes × Entry)) → Decidable (d = e)
  | [], [] => isTrue rfl
  | [], _ :: _ | _ :: _, [] => isFalse nofun
  | (k, a) :: d, (k', b) :: e =>
    if hk : k = k' then
      match Entry.decEq a b, Entry.decEqDict d e with
      | isTrue h, isTrue h' => isTrue (by rw [hk, h, h'])
      | isFalse h, _ => isFalse (by simp [h])
      | _, isFalse h' => isFalse (by simp [h'])
    else isFalse (by simp [hk])

end

instance : DecidableEq Entry := Entry.decEq

namespace Entry

/-- `entry::find_key` on a dictionary; other types have no keys. -/
def findKey : Entry → Bytes → Option Entry
  | .dict d, k => OrdMap.find? k d
  | _, _ => none

/-- The entry is a dictionary (`type() == dictionary_t`). -/
def isDict : Entry → Bool
  | .dict _ => true
  | _ => false

/-- The entry is a string (`type() == string_t`). -/
def isString : Entry → Bool
  | .string _ => true
  | _ => false

/-- The entry is an integer (`type() == int_t`). -/
def isInt : Entry → Bool
  | .int _ => true
  | _ => false

/-- `entry[key]` assignment on a dictionary entry. -/
def setKey (e : Entry) (key : Bytes) (v : Entry) : Entry :=
  match e with
  | .dict d => .dict (OrdMap.insert key v d)
  | e => e

/-- Apply `f` to the dictionary found under `key`, if there is one. -/
def updateDict (e : Entry) (key : Bytes) (f : Entry → Entry) : Entry :=
  match e.findKey key with
  | some (.dict d) => e.setKey key (f (.dict d))
  | _ => e

end Entry

namespace Bencode

/-- The ASCII code of a decimal digit character `'0' + r`, for the C remainder
`r` of a 64-bit value, truncated to a `char` as the source stores it. -/
def digitChar (r : Int64) : UInt8 := UInt8.ofInt (48 + r.toInt)

/-- The digit loop of `integer_to_str`: while room is left in the buffer and the
value is non-zero, write `'0' + val % 10` in front and divide by ten. `room`
counts the buffer positions the loop may still fill. -/
def digitLoop : Nat → Int64 → Bytes → Bytes
  | 0, _, acc => acc
  | room + 1, val, acc =>
    if val = 0 then acc else digitLoop room (val / 10) (digitChar (val % 10) :: acc)

/-- `detail::integer_to_str` with its 21-byte buffer: a sign, then the digits of
the negated value. The negation wraps at `INT64_MIN`, as 64-bit arithmetic does. -/
def integerToStr (val : Int64) : Bytes :=
  let sign : Nat := if val < 0 then 1 else 0
  let v := if val < 0 then -val else val
  let digits := if v = 0 then [48] else digitLoop (20 - sign) v []
  (if sign = 1 then [45] else []) ++ digits

/-- `write_integer` for a string length, which is converted to
`entry::integer_type` first. -/
def lengthToStr (n : Nat) : Bytes := integerToStr (Int64.ofNat n)

mutual

/-- `bencode_recursive`: integers as `i<digits>e`, strings as `<length>:<bytes>`,
lists as `l...e` and dictionaries as `d...e` with their keys in map order. An
undefined entry writes nothing. -/
def bencode : Entry → Bytes
  | .int v => [105] ++ integerToStr v ++ [101]
  | .string s => lengthToStr s.length ++ [58] ++ s
  | .list l => [108] ++ bencodeList l ++ [101]
  | .dict d => [100] ++ bencodeDict d ++ [101]
  | .undefined => []

/-- The items of a list, in order. -/
def bencodeList : List Entry → Bytes
  | [] => []
  | e :: l => bencode e ++ bencodeList l

/-- The pairs of a dictionary, each key written as a string before its value. -/
def bencodeDict : List (Bytes × Entry) → Bytes
  | [] => []
  | (k, e) :: d => lengthToStr k.length ++ [58] ++ k ++ bencode e ++ bencodeDict d

end

end Bencode

end Twister
