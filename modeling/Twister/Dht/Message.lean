import Twister.Bencode.Lazy

/-!
# Checking a message against a key description

`verify_message` (node.cpp) looks up the keys of a `key_desc_t` table in a
decoded dictionary, checks their types and sizes, and descends into child
dictionaries marked `parse_children` until an entry marked `last_child` returns
to the parent. The result array holds the node found for every key, or nothing
for an absent optional one.
-/

namespace Twister.Dht

open Bencode

/-- `MAX_TIME_IN_FUTURE` (twister.h), two hours in seconds: how far ahead of the node's
clock a signed item or a post may be dated. -/
def maxTimeInFuture : Int64 := 2 * 60 * 60

/-- `key_desc_t`: a key, its type (`none` accepts any type), a required size for
strings (zero for none) and the flags `optional`, `parse_children`, `last_child`
and `size_divisible`. -/
structure KeyDesc where
  name : Bytes
  type : LazyType
  size : Nat := 0
  optional : Bool := false
  parseChildren : Bool := false
  lastChild : Bool := false
  sizeDivisible : Bool := false

/-- The lookup of one key: the node when present with the described type. -/
def KeyDesc.lookup (input : Bytes) (msg : LazyEntry) (k : KeyDesc) : Option LazyEntry :=
  (msg.dictFind input k.name).filter fun e => k.type = .none || e.type = k.type

/-- A string of the wrong size, for a key that prescribes one. -/
def KeyDesc.badSize (k : KeyDesc) (e : LazyEntry) : Bool :=
  k.size > 0 && k.type = .string &&
    (if k.sizeDivisible then e.stringLength % k.size ≠ 0 else e.stringLength ≠ k.size)

/-- Skip the children of an absent optional dictionary: the descriptions up to
and including the next one marked `last_child` get no node. -/
def skipChildren : List KeyDesc → List (Option LazyEntry) × List KeyDesc
  | [] => ([], [])
  | k :: ks =>
    if k.lastChild then ([none], ks)
    else
      let (r, rest) := skipChildren ks
      (none :: r, rest)

/-- The loop of `verify_message` over the descriptions, with the current
dictionary and the stack of parents. `none` is a `false` return. -/
def verifyLoop (input : Bytes) : Nat → List KeyDesc → LazyEntry → List LazyEntry →
    Option (List (Option LazyEntry))
  | 0, _, _, _ => none
  | _ + 1, [], _, _ => some []
  | fuel + 1, k :: ks, msg, stack =>
    let found := k.lookup input msg
    if found.isNone && !k.optional then none
    else
      let bad := match found with
        | some e => k.badSize e
        | none => false
      if bad && !k.optional then none
      else
        let found := if bad then none else found
        if k.parseChildren then
          match found with
          | some child => (verifyLoop input fuel ks child (msg :: stack)).map (found :: ·)
          | none =>
            let (skipped, rest) := skipChildren ks
            (verifyLoop input fuel rest msg stack).map fun r => found :: skipped ++ r
        else if k.lastChild then
          match stack with
          | [] => none
          | parent :: stack => (verifyLoop input fuel ks parent stack).map (found :: ·)
        else (verifyLoop input fuel ks msg stack).map (found :: ·)

/-- `verify_message(msg, desc, ret, size, ...)`: the nodes found for the
descriptions, in order, when the message passes. -/
def verifyMessage (input : Bytes) (msg : LazyEntry) (desc : List KeyDesc) :
    Option (List (Option LazyEntry)) :=
  if msg.type ≠ .dict then none
  else verifyLoop input (desc.length + 1) desc msg []

end Twister.Dht
