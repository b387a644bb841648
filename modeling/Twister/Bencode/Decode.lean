import Twister.Bencode.Entry

/-!
# The recursive decoder `bdecode`

`bdecode_recursive` (bencode.hpp) reads one value from an iterator range and
builds an `entry`, failing through an error flag. Integers are converted by the
C library's `strtoll`, which saturates and accepts a digit prefix; string
lengths by `atoi`, which narrows to `int`. The recursion depth is limited to 100.
A dictionary key that decodes to something other than a string ends the
dictionary without raising the error flag, so `bdecode` then returns what was
decoded so far; the model keeps that path.

The functions carry a fuel argument so that they compute by structural
recursion; `bdecode` gives one unit per input byte, and every call consumes a
byte before it recurses.
-/

namespace Twister.Bencode

/-- `is_digit`. -/
def isDigit (c : UInt8) : Bool := 48 ≤ c && c ≤ 57

/-- `isspace` in the C locale: space, tab, newline, vertical tab, form feed,
carriage return. -/
def isSpace (c : UInt8) : Bool := c = 32 || (9 ≤ c && c ≤ 13)

/-- `isalpha` in the C locale. -/
def isAlpha (c : UInt8) : Bool := (65 ≤ c && c ≤ 90) || (97 ≤ c && c ≤ 122)

/-- `tolower` in the C locale. -/
def toLowerAscii (c : UInt8) : UInt8 := if 65 ≤ c ∧ c ≤ 90 then c + 32 else c

/-- The value of a run of decimal digits. -/
def digitsValue (ds : Bytes) : Nat :=
  ds.foldl (fun n c => 10 * n + (c.toNat - 48)) 0

/-- `strtoll(s, &end, 10)`: leading white space, an optional sign and a maximal
run of digits, saturated to the 64-bit range. `none` when no digit was read, which
is when `end` stays at the start. -/
def strtoll (s : Bytes) : Option Int64 :=
  let s := s.dropWhile isSpace
  let (neg, s) : Bool × Bytes := match s with
    | 45 :: r => (true, r)
    | 43 :: r => (false, r)
    | r => (false, r)
  let ds := s.takeWhile isDigit
  if ds = [] then none
  else
    let v : Int := if neg then -(digitsValue ds : Int) else digitsValue ds
    some (Int64.ofInt (max Int64.minValue.toInt (min Int64.maxValue.toInt v)))

/-- `atoi`, as `(int) strtol(s, NULL, 10)` with a 64-bit `long`: zero when no digit
is read, otherwise the saturated value truncated to 32 bits. -/
def atoi (s : Bytes) : Int32 := ((strtoll s).getD 0).toInt32

/-- `read_until`: the bytes before the first `tok`, and the input from `tok` on.
`none` when the input ends first. -/
def readUntil (tok : UInt8) : Bytes → Option (Bytes × Bytes)
  | [] => none
  | c :: rest =>
    if c = tok then some ([], c :: rest)
    else (readUntil tok rest).map fun (s, r) => (c :: s, r)

/-- `read_string`: `len` bytes; a negative length reads nothing. -/
def readString (len : Int32) (input : Bytes) : Option (Bytes × Bytes) :=
  let n := len.toInt.toNat
  if n ≤ input.length then some (input.take n, input.drop n) else none

mutual

/-- `bdecode_recursive` at nesting `depth`: the value read and the rest of the
input, or `none` when the error flag is raised. An `'i'` reads digits up to `'e'` and
converts them by `strtoll`; an `'l'` reads items and a `'d'` key/value pairs until `'e'`;
a digit starts a string. -/
def decodeValue : Nat → Nat → Bytes → Option (Entry × Bytes)
  | 0, _, _ => none
  | fuel + 1, depth, input =>
    if 100 ≤ depth then none
    else match input with
      | [] => none
      | 105 :: rest =>
        match readUntil 101 rest with
        | none => none
        | some (val, _ :: rest') =>
          match strtoll val with
          | none => none
          | some v => some (.int v, rest')
        | some (_, []) => none
      | 108 :: rest =>
        (decodeList fuel depth [] rest).map fun (l, r) => (.list l, r)
      | 100 :: rest =>
        (decodeDict fuel depth [] rest).map fun (d, r) => (.dict d, r)
      | c :: rest =>
        if isDigit c then
          match readUntil 58 (c :: rest) with
          | none => none
          | some (lenStr, _ :: rest') =>
            (readString (atoi lenStr) rest').map fun (s, r) => (.string s, r)
          | some (_, []) => none
        else none

/-- The loop `while (*in != 'e')` of a list; reading past the end is an error. -/
def decodeList : Nat → Nat → List Entry → Bytes → Option (List Entry × Bytes)
  | 0, _, _, _ => none
  | _ + 1, _, _, [] => none
  | fuel + 1, depth, acc, c :: rest =>
    if c = 101 then some (acc, rest)
    else
      match decodeValue fuel (depth + 1) (c :: rest) with
      | none => none
      | some (_, []) => none
      | some (e, r) => decodeList fuel depth (acc ++ [e]) r

/-- The loop of a dictionary. A key of another type than string ends the
dictionary without an error: the entries read so far are the result. A repeated
key is assigned again, through `ret[key]`. -/
def decodeDict : Nat → Nat → List (Bytes × Entry) → Bytes →
    Option (List (Bytes × Entry) × Bytes)
  | 0, _, _, _ => none
  | _ + 1, _, _, [] => none
  | fuel + 1, depth, acc, c :: rest =>
    if c = 101 then some (acc, rest)
    else
      match decodeValue fuel (depth + 1) (c :: rest) with
      | none => none
      | some (.string k, r) =>
        match decodeValue fuel (depth + 1) r with
        | none => none
        | some (_, []) => none
        | some (e, r') => decodeDict fuel depth (OrdMap.insert k e acc) r'
      | some (_, r) => some (acc, r)

end

/-- `bdecode(start, end)`: the decoded entry, or an undefined entry on error. -/
def bdecode (input : Bytes) : Entry :=
  match decodeValue (input.length + 1) 0 input with
  | some (e, _) => e
  | none => .undefined

end Twister.Bencode
