import Twister.Bencode.Decode

/-!
# The iterative decoder `lazy_bdecode`

`lazy_bdecode` (lazy_bdecode.cpp) parses without copying: every node records
where its bytes are in the input buffer. It keeps an explicit stack of the nodes
under construction; a container's last item is the node above it on the stack.
The model keeps the stack as a zipper: a frame holds a node and the slot it will
fill in its parent, and a finished node is attached to the frame below it.

Positions are integers because the source's pointer arithmetic can move a
position backwards: string lengths are accumulated by `parse_int` in wrapping
64-bit arithmetic. A read outside the buffer, which the source does not guard
against on those paths, ends the model's run with `outOfRange`.

The loop ends when the input is exhausted, even with containers still open; the
error macro `TORRENT_FAIL_BDECODE` pops every frame and drops the last item of
each container it pops, which the model reproduces in `failRet`.
-/

namespace Twister.Bencode

/-- `lazy_entry`. Containers record `m_begin` and `m_len` (zero until `set_end`);
a dictionary item records the position of its key; integers and strings record
`m_data.start` and the length they were constructed with. -/
inductive LazyEntry where
  | none
  | dict (begin : Int) (items : List (Int × LazyEntry)) (len : Int)
  | list (begin : Int) (items : List LazyEntry) (len : Int)
  | int (start : Int) (size : Int)
  | string (start : Int) (size : Int32)
  deriving Repr, Inhabited

/-- The error codes `lazy_bdecode` reports, and `outOfRange` for a read outside the
buffer. Allocation failure (`no_memory`) is not modelled. -/
inductive LazyError where
  | depthExceeded
  | unexpectedEof
  | expectedString
  | expectedColon
  | limitExceeded
  | expectedValue
  | outOfRange
  deriving Repr, DecidableEq

/-- Where a node under construction goes when it is finished. -/
inductive Slot where
  | root
  | listItem
  | dictItem (name : Int)
  deriving Repr

/-- A stack entry: the node under construction and its slot. -/
structure Frame where
  slot : Slot
  node : LazyEntry
  deriving Repr

/-- The loop's variables: `start`, the stack (top first) and `item_limit`. -/
structure LazyState where
  pos : Int
  stack : List Frame
  itemLimit : Int
  deriving Repr

/-- What `lazy_bdecode` leaves behind: the tree in `ret` and the error, if any. -/
structure LazyResult where
  ret : LazyEntry
  error : Option LazyError
  deriving Repr

/-- The byte at a position, when the position is inside the buffer. -/
def byteAt (input : Bytes) (pos : Int) : Option UInt8 :=
  if pos < 0 then none else input[pos.toNat]?

/-- The bytes of the range `[pos, pos + len)` that lie in the buffer. -/
def slice (input : Bytes) (pos len : Int) : Bytes :=
  (input.drop pos.toNat).take len.toNat

/-- `parse_int` from a position: digits up to `delim` accumulated into `val` in
wrapping 64-bit arithmetic. The position of the delimiter (or of the end) and
the value; `none` at a non-digit, where the source returns a null pointer. -/
def parseIntFrom (delim : UInt8) : Bytes → Int → Int64 → Option (Int × Int64)
  | [], pos, val => some (pos, val)
  | c :: rest, pos, val =>
    if c = delim then some (pos, val)
    else if !isDigit c then none
    else parseIntFrom delim rest (pos + 1) (val * 10 + Int64.ofNat (c.toNat - 48))

/-- `parse_int(start, end, delim, val)` on the buffer. -/
def parseInt (input : Bytes) (pos : Int) (delim : UInt8) (val : Int64) : Option (Int × Int64) :=
  parseIntFrom delim (input.drop pos.toNat) pos val

/-- `find_char`: the position of the first `delim` at or after `pos`, or the end. -/
def findChar (input : Bytes) (pos : Int) (delim : UInt8) : Int :=
  match (input.drop pos.toNat).idxOf? delim with
  | some i => pos + i
  | none => input.length

namespace LazyEntry

/-- `lazy_entry::pop`: a container loses its last item. -/
def pop : LazyEntry → LazyEntry
  | .dict b items len => .dict b items.dropLast len
  | .list b items len => .list b items.dropLast len
  | e => e

/-- Attach a finished child as the last item of its parent. -/
def attach (parent : LazyEntry) (slot : Slot) (child : LazyEntry) : LazyEntry :=
  match parent, slot with
  | .list b items len, _ => .list b (items ++ [child]) len
  | .dict b items len, .dictItem name => .dict b (items ++ [(name, child)]) len
  | p, _ => p

/-- `set_end`: a container's length runs from its first byte to `pos`. -/
def setEnd (pos : Int) : LazyEntry → LazyEntry
  | .dict b items _ => .dict b items (pos - b)
  | .list b items _ => .list b items (pos - b)
  | e => e

end LazyEntry

/-- Fold the stack into its root: every frame becomes the last item of the frame
below it. -/
def zipFrom (slot : Slot) (child : LazyEntry) : List Frame → LazyEntry
  | [] => child
  | g :: rest => zipFrom g.slot (g.node.attach slot child) rest

/-- The root of a stack, with the whole chain of open nodes attached. -/
def zipStack : List Frame → LazyEntry
  | [] => .none
  | f :: rest => zipFrom f.slot f.node rest

/-- The root node of a stack, without the chain of open nodes above it. -/
def bottomNode : List Frame → LazyEntry
  | [] => .none
  | [f] => f.node
  | _ :: rest => bottomNode rest

/-- `ret` after `TORRENT_FAIL_BDECODE`. Every popped container drops its last item:
for all frames but the top that item is the open node above it, and for a root
that is itself the top it is a finished item. -/
def failRet : List Frame → LazyEntry
  | [f] => f.node.pop
  | stack => bottomNode stack

/-- One step of the loop. -/
inductive LazyStep where
  | next (s : LazyState)
  | success (ret : LazyEntry)
  | failure (e : LazyError) (stack : List Frame)

/-- Pop the finished top node: attach it to the frame below, or finish the parse
when it is the root. -/
def popFinished (s : LazyState) (pos : Int) (child : Frame) : List Frame → LazyStep
  | [] => .success child.node
  | g :: rest => .next { s with pos, stack := { g with node := g.node.attach child.slot child.node } :: rest }

/-- The item part of an iteration: construct the value whose type byte `t` was
read, in the node on top of `stack`, after charging one item to the limit. -/
def constructItem (input : Bytes) (s : LazyState) (t : UInt8) (pos : Int) :
    List Frame → LazyStep
  | [] => .success .none
  | top :: below =>
    let itemLimit := s.itemLimit - 1
    let s := { s with itemLimit }
    if itemLimit ≤ 0 then .failure .limitExceeded (top :: below)
    else if t = 100 then
      .next { s with pos, stack := { top with node := .dict (pos - 1) [] 0 } :: below }
    else if t = 108 then
      .next { s with pos, stack := { top with node := .list (pos - 1) [] 0 } :: below }
    else if t = 105 then
      let e := findChar input pos 101
      let top := { top with node := .int pos (e - pos) }
      if e = input.length then .failure .unexpectedEof (top :: below)
      else popFinished s (e + 1) top below
    else if !isDigit t then .failure .expectedValue (top :: below)
    else
      match parseInt input pos 58 (Int64.ofNat (t.toNat - 48)) with
      | none => .failure .expectedColon (top :: below)
      | some (p, len) =>
        if p + len.toInt + 1 > input.length then .failure .expectedColon (top :: below)
        else match byteAt input p with
          | none => .failure .outOfRange (top :: below)
          | some c =>
            if c ≠ 58 then .failure .expectedColon (top :: below)
            else
              let top := { top with node := .string (p + 1) len.toInt32 }
              popFinished s (p + 1 + len.toInt) top below

/-- The key part of an iteration on a dictionary: read the key `<len>:<bytes>`
whose first digit is `t`, open the item, and read the value's type byte. -/
def readKey (input : Bytes) (s : LazyState) (t : UInt8) (pos : Int) (top : Frame)
    (below : List Frame) : LazyStep :=
  if !isDigit t then .failure .expectedString (top :: below)
  else
    match parseInt input pos 58 (Int64.ofNat (t.toNat - 48)) with
    | none => .failure .expectedColon (top :: below)
    | some (p, len) =>
      if p + len.toInt + 3 > input.length then .failure .expectedColon (top :: below)
      else match byteAt input p with
        | none => .failure .outOfRange (top :: below)
        | some c =>
          if c ≠ 58 then .failure .expectedColon (top :: below)
          else if p + 1 = input.length then .failure .unexpectedEof (top :: below)
          else
            let stack := { slot := .dictItem (p + 1), node := .none } :: top :: below
            let vpos := p + 1 + len.toInt
            if vpos ≥ input.length then .failure .unexpectedEof stack
            else match byteAt input vpos with
              | none => .failure .outOfRange stack
              | some t' => constructItem input s t' (vpos + 1) stack

/-- One iteration of the `while (start < end)` loop of `lazy_bdecode`. -/
def lazyStep (input : Bytes) (depthLimit : Int) (s : LazyState) : LazyStep :=
  match s.stack with
  | [] => .success .none
  | top :: below =>
    if (s.stack.length : Int) > depthLimit then .failure .depthExceeded s.stack
    else match byteAt input s.pos with
      | none => .failure .outOfRange s.stack
      | some t =>
        let pos := s.pos + 1
        if pos ≥ input.length ∧ t ≠ 101 then .failure .unexpectedEof s.stack
        else match top.node with
          | .dict .. =>
            if t = 101 then popFinished s pos { top with node := top.node.setEnd pos } below
            else readKey input s t pos top below
          | .list .. =>
            if t = 101 then popFinished s pos { top with node := top.node.setEnd pos } below
            else constructItem input s t pos ({ slot := .listItem, node := .none } :: top :: below)
          | _ => constructItem input s t pos (top :: below)

/-- The loop, with a fuel bound on the number of iterations. When the input is
exhausted the tree built so far is returned as a success, open containers
included. -/
def lazyLoop (input : Bytes) (depthLimit : Int) : Nat → LazyState → LazyResult
  | 0, s => ⟨failRet s.stack, some .limitExceeded⟩
  | fuel + 1, s =>
    if s.pos < input.length then
      match lazyStep input depthLimit s with
      | .next s' => lazyLoop input depthLimit fuel s'
      | .success ret => ⟨ret, none⟩
      | .failure e stack => ⟨failRet stack, some e⟩
    else ⟨zipStack s.stack, none⟩

/-- `lazy_bdecode(start, end, ret, ec, error_pos, depth_limit, item_limit)`.
Every iteration that does not close a container charges the item limit, and
every closing iteration pops a frame that an earlier iteration pushed, so the
loop runs at most `2 * item_limit + 2` times; that many units of fuel are given. -/
def lazyBdecode (input : Bytes) (depthLimit : Int := 1000) (itemLimit : Int := 1000000) :
    LazyResult :=
  if input = [] then ⟨.none, none⟩
  else
    lazyLoop input depthLimit (2 * itemLimit.toNat + 2)
      { pos := 0, stack := [{ slot := .root, node := .none }], itemLimit }

/-- `num_digits`: the number of decimal digits of an `int`, one for values
below ten. -/
def numDigits (v : Int32) : Nat :=
  if v < 10 then 1 else numDigitsNat v.toInt.toNat
where
  /-- The digit count of a natural number of at least one digit. -/
  numDigitsNat (n : Nat) : Nat := if n < 10 then 1 else numDigitsNat (n / 10) + 1

/-- `lazy_entry::entry_type_t`. -/
inductive LazyType where
  | none
  | dict
  | list
  | string
  | int
  deriving Repr, DecidableEq

/-- `lazy_entry::type()`. -/
def LazyEntry.type : LazyEntry → LazyType
  | .none => .none
  | .dict .. => .dict
  | .list .. => .list
  | .int .. => .int
  | .string .. => .string

/-- `string_length()`: the length a string was constructed with. -/
def LazyEntry.stringLength : LazyEntry → Int
  | .string _ size => size.toInt
  | _ => 0

namespace LazyEntry

/-- `m_begin`: where the node's bytes start. A string's start is recomputed by
`construct_string` from the digit count of its length. -/
def beginPos : LazyEntry → Int
  | .none => 0
  | .dict b _ _ => b
  | .list b _ _ => b
  | .int start _ => start - 1
  | .string start size => start - 1 - numDigits size

/-- `m_len`: the number of bytes the node spans. -/
def length : LazyEntry → Int
  | .none => 0
  | .dict _ _ len => len
  | .list _ _ len => len
  | .int _ size => size + 2
  | .string start size => start - beginPos (.string start size) + size.toInt

/-- `data_section()`: the bytes of the buffer the node records as its encoding. -/
def dataSection (input : Bytes) (e : LazyEntry) : Bytes :=
  slice input e.beginPos e.length

/-- `string_value()`: `m_size` bytes from `m_data.start`, the length read as the
unsigned `m_size`. -/
def stringValue (input : Bytes) : LazyEntry → Bytes
  | .string start size => slice input start size.toUInt32.toNat
  | _ => []

/-- The digits loop of `int_value`: the value of the digit prefix, accumulated in
wrapping 64-bit arithmetic as `parse_int` does before it stops at a non-digit. -/
def digitPrefixValue : Bytes → Int64 → Int64
  | [], val => val
  | c :: rest, val =>
    if isDigit c then digitPrefixValue rest (val * 10 + Int64.ofNat (c.toNat - 48)) else val

/-- `int_value()`: an optional minus sign, then the digit prefix of the recorded
digits, negated in 64-bit arithmetic. -/
def intValue (input : Bytes) : LazyEntry → Int64
  | .int start size =>
    match slice input start size with
    | 45 :: ds => -digitPrefixValue ds 0
    | ds => digitPrefixValue ds 0
  | _ => 0

/-- The key of a dictionary item: the bytes from its name to the start of its
value, as `dict_at` and `dict_find` compute it. -/
def keyOf (input : Bytes) (item : Int × LazyEntry) : Bytes :=
  slice input item.1 (item.2.beginPos - item.1)

/-- `dict_find(name)`: the first item whose key is `name`. A node that is not a
dictionary has no items to search here. -/
def dictFind (input : Bytes) (e : LazyEntry) (name : Bytes) : Option LazyEntry :=
  match e with
  | .dict _ items _ => (items.find? fun item => keyOf input item = name).map Prod.snd
  | _ => Option.none

/-- The node is a dictionary. -/
def isDict : LazyEntry → Bool
  | .dict .. => true
  | _ => false

/-- The node is a list. -/
def isList : LazyEntry → Bool
  | .list .. => true
  | _ => false

/-- The node is a string. -/
def isString : LazyEntry → Bool
  | .string .. => true
  | _ => false

/-- The node is an integer. -/
def isInt : LazyEntry → Bool
  | .int .. => true
  | _ => false

/-- The items of a list node, as `list_at(0)` to `list_at(list_size() - 1)` give them. -/
def listItems : LazyEntry → List LazyEntry
  | .list _ items _ => items
  | _ => []

/-- `dict_size()`: the number of items of a dictionary node. -/
def dictSize : LazyEntry → Nat
  | .dict _ items _ => items.length
  | _ => 0

/-- `dict_find_int`: the item when it is an integer. -/
def dictFindInt (input : Bytes) (e : LazyEntry) (name : Bytes) : Option LazyEntry :=
  (dictFind input e name).filter isInt

/-- `dict_find_string`: the item when it is a string. -/
def dictFindString (input : Bytes) (e : LazyEntry) (name : Bytes) : Option LazyEntry :=
  (dictFind input e name).filter isString

/-- `dict_find_dict`: the item when it is a dictionary. -/
def dictFindDict (input : Bytes) (e : LazyEntry) (name : Bytes) : Option LazyEntry :=
  (dictFind input e name).filter isDict

/-- `dict_find_list`: the item when it is a list. -/
def dictFindList (input : Bytes) (e : LazyEntry) (name : Bytes) : Option LazyEntry :=
  (dictFind input e name).filter isList

/-- `dict_find_int_value(name, default)`. -/
def dictFindIntValue (input : Bytes) (e : LazyEntry) (name : Bytes) (default : Int64 := 0) :
    Int64 :=
  match dictFindInt input e name with
  | some v => v.intValue input
  | Option.none => default

/-- `dict_find_string_value(name)`, empty when absent. -/
def dictFindStringValue (input : Bytes) (e : LazyEntry) (name : Bytes) : Bytes :=
  match dictFindString input e name with
  | some v => v.stringValue input
  | Option.none => []

mutual

/-- `entry::operator=(lazy_entry const&)` into a fresh entry: strings and integers
by value, dictionary items assigned in order (a repeated key keeps its last value),
and an empty node as an undefined entry. -/
def toEntry (input : Bytes) : LazyEntry → Entry
  | .none => .undefined
  | .string start size => .string (stringValue input (.string start size))
  | .int start size => .int (intValue input (.int start size))
  | .list _ items _ => .list (toEntryList input items)
  | .dict _ items _ => .dict (toEntryDict input [] items)

/-- The items of a list, converted in order. -/
def toEntryList (input : Bytes) : List LazyEntry → List Entry
  | [] => []
  | e :: l => toEntry input e :: toEntryList input l

/-- The items of a dictionary, assigned one after another into `acc`. -/
def toEntryDict (input : Bytes) (acc : List (Bytes × Entry)) :
    List (Int × LazyEntry) → List (Bytes × Entry)
  | [] => acc
  | (name, e) :: items =>
    toEntryDict input (OrdMap.insert (keyOf input (name, e)) (toEntry input e) acc) items

end

end LazyEntry

end Twister.Bencode

namespace Twister.Bencode

/-- At `INT64_MIN` the encoder's negation wraps back to `INT64_MIN`, so
`integer_to_str` writes a minus sign followed by characters `'0' + r` for negative
remainders `r`. `bdecode` finds no digit after the sign and returns an undefined
entry; `lazy_bdecode` accepts the text, and `int_value` stops at the first
non-digit and reads zero. -/
theorem bdecode_bencode_int64_min :
    bencode (.int Int64.minValue) =
        [105, 45, 39, 46, 46, 45, 45, 41, 46, 48, 45, 42, 40, 43, 44, 41, 41, 43, 40, 48, 40, 101] ∧
      bdecode (bencode (.int Int64.minValue)) = .undefined ∧
      (lazyBdecode (bencode (.int Int64.minValue))).error = none ∧
      (lazyBdecode (bencode (.int Int64.minValue))).ret.toEntry (bencode (.int Int64.minValue)) =
        .int 0 := by
  decide

/-- `lazy_bdecode` reports success on `li1e`, whose list is never closed: the input
runs out with the list still on the stack, so `set_end` never runs and its length
stays zero (`li1ee` spans five bytes). It also reports success on a string whose
length prefix `18446744073709551615` wraps to `-1` in 64-bit arithmetic: the bound
check `start + len + 1 > end` passes, and the string is constructed with length
`-1`, which `string_value` reads as `2^32 - 1` bytes. -/
theorem lazyBdecode_success_malformed :
    (lazyBdecode (bytesOf "li1e")).error = none ∧
      (lazyBdecode (bytesOf "li1e")).ret.type = .list ∧
      (lazyBdecode (bytesOf "li1e")).ret.length = 0 ∧
      (lazyBdecode (bytesOf "18446744073709551615:")).error = none ∧
      (lazyBdecode (bytesOf "18446744073709551615:")).ret.type = .string ∧
      (lazyBdecode (bytesOf "18446744073709551615:")).ret.stringLength = -1 := by
  decide

end Twister.Bencode
