import Twister.Bencode.Entry

/-!
# Counting UTF-8 characters

`utf8::num_characters` (utf8core.h, the utf8cpp library) counts the characters of
a byte string and returns `-1` at the first octet sequence that `validate_next`
refuses. `acceptSignedPost` bounds a post's `msg` with it, and `CheckTransaction`
a spam message.

`validate_next` reads the sequence length off the lead octet, collects that many
octets with `get_sequence_1` to `get_sequence_4`, each trail octet checked by
`increase_safely`, and refuses a code point above `U+10FFFF`, a surrogate, and one
written in more octets than it needs. The code point is `uint32_t` arithmetic;
the count is an `int`, which a byte string shorter than `2^31` cannot overflow.
-/

namespace Twister.Utf8

/-- The errors of `utf_error`; `UTF8_OK` is a result. -/
inductive UtfError where
  | notEnoughRoom
  | invalidLead
  | incompleteSequence
  | overlongSequence
  | invalidCodePoint
  deriving DecidableEq, Repr

/-- `is_trail`: an octet `10xxxxxx`. -/
def isTrail (oc : UInt8) : Bool := oc >>> 6 == 2

/-- `is_surrogate`: `0xd800` to `0xdfff`. -/
def isSurrogate (cp : UInt32) : Bool := 0xd800 ≤ cp && cp ≤ 0xdfff

/-- `is_code_point_valid`: at most `CODE_POINT_MAX = 0x10ffff`, and not a surrogate. -/
def isCodePointValid (cp : UInt32) : Bool := cp ≤ 0x10ffff && !isSurrogate cp

/-- `sequence_length`: the number of octets the lead octet announces, `0` for an
octet that cannot lead. -/
def sequenceLength (lead : UInt8) : Nat :=
  if lead < 0x80 then 1
  else if lead >>> 5 == 0x6 then 2
  else if lead >>> 4 == 0xe then 3
  else if lead >>> 3 == 0x1e then 4
  else 0

/-- `is_overlong_sequence`: a code point written in more octets than it needs. -/
def isOverlongSequence (cp : UInt32) (length : Nat) : Bool :=
  if cp < 0x80 then length != 1
  else if cp < 0x800 then length != 2
  else if cp < 0x10000 then length != 3
  else false

/-- `increase_safely`: the next octet, which must be there and be a trail octet. -/
def increaseSafely : Bytes → Except UtfError (UInt8 × Bytes)
  | [] => .error .notEnoughRoom
  | oc :: rest => if isTrail oc then .ok (oc, rest) else .error .incompleteSequence

/-- `get_sequence_1`, after the lead octet: the code point and the octets after it. -/
def getSequence1 (lead : UInt8) (rest : Bytes) : Except UtfError (UInt32 × Bytes) :=
  .ok (lead.toUInt32, rest)

/-- `get_sequence_2`. -/
def getSequence2 (lead : UInt8) (rest : Bytes) : Except UtfError (UInt32 × Bytes) := do
  let codePoint := lead.toUInt32
  let (t1, rest) ← increaseSafely rest
  let codePoint : UInt32 := ((codePoint <<< 6) &&& 0x7ff) + (t1.toUInt32 &&& 0x3f)
  pure (codePoint, rest)

/-- `get_sequence_3`. -/
def getSequence3 (lead : UInt8) (rest : Bytes) : Except UtfError (UInt32 × Bytes) := do
  let codePoint := lead.toUInt32
  let (t1, rest) ← increaseSafely rest
  let codePoint : UInt32 := ((codePoint <<< 12) &&& (0xffff : UInt32)) + ((t1.toUInt32 <<< 6) &&& 0xfff)
  let (t2, rest) ← increaseSafely rest
  let codePoint := codePoint + (t2.toUInt32 &&& 0x3f)
  pure (codePoint, rest)

/-- `get_sequence_4`. -/
def getSequence4 (lead : UInt8) (rest : Bytes) : Except UtfError (UInt32 × Bytes) := do
  let codePoint := lead.toUInt32
  let (t1, rest) ← increaseSafely rest
  let codePoint : UInt32 := ((codePoint <<< 18) &&& (0x1fffff : UInt32)) + ((t1.toUInt32 <<< 12) &&& 0x3ffff)
  let (t2, rest) ← increaseSafely rest
  let codePoint := codePoint + ((t2.toUInt32 <<< 6) &&& 0xfff)
  let (t3, rest) ← increaseSafely rest
  let codePoint := codePoint + (t3.toUInt32 &&& 0x3f)
  pure (codePoint, rest)

/-- `validate_next` from a lead octet: the code point and the octets after its
sequence, or why the sequence is refused. -/
def validateNext (lead : UInt8) (rest : Bytes) : Except UtfError (UInt32 × Bytes) :=
  let length := sequenceLength lead
  let seq := match length with
    | 1 => getSequence1 lead rest
    | 2 => getSequence2 lead rest
    | 3 => getSequence3 lead rest
    | 4 => getSequence4 lead rest
    | _ => .error .invalidLead
  match seq with
  | .error err => .error err
  | .ok (cp, rest) =>
    if isCodePointValid cp then
      if !isOverlongSequence cp length then .ok (cp, rest) else .error .overlongSequence
    else .error .invalidCodePoint

/-! ## What each step reads -/

theorem bind_eq_ok {ε α β : Type} {x : Except ε α} {f : α → Except ε β} {b : β} :
    (x >>= f) = .ok b ↔ ∃ a, x = .ok a ∧ f a = .ok b := by
  cases x <;> simp [bind, Except.bind]

theorem increaseSafely_eq_ok {l r : Bytes} {oc : UInt8} :
    increaseSafely l = .ok (oc, r) ↔ l = oc :: r ∧ isTrail oc = true := by
  cases l with
  | nil => simp [increaseSafely]
  | cons c l =>
    simp only [increaseSafely]
    split
    · next h => simp only [Except.ok.injEq, Prod.mk.injEq, List.cons.injEq]; grind
    · next h => simp only [reduceCtorEq, false_iff, List.cons.injEq]; grind

theorem getSequence2_eq_ok {lead : UInt8} {rest r : Bytes} {cp : UInt32} :
    getSequence2 lead rest = .ok (cp, r) ↔ ∃ t1, rest = t1 :: r ∧ isTrail t1 = true ∧
      cp = ((lead.toUInt32 <<< 6) &&& 0x7ff) + (t1.toUInt32 &&& 0x3f) := by
  simp only [getSequence2, bind_eq_ok, pure, Except.pure, Except.ok.injEq, Prod.mk.injEq, Prod.exists,
    increaseSafely_eq_ok]
  grind

theorem getSequence3_eq_ok {lead : UInt8} {rest r : Bytes} {cp : UInt32} :
    getSequence3 lead rest = .ok (cp, r) ↔ ∃ t1 t2, rest = t1 :: t2 :: r ∧ isTrail t1 = true ∧
      isTrail t2 = true ∧ cp = ((lead.toUInt32 <<< 12) &&& (0xffff : UInt32)) +
        ((t1.toUInt32 <<< 6) &&& 0xfff) + (t2.toUInt32 &&& 0x3f) := by
  simp only [getSequence3, bind_eq_ok, pure, Except.pure, Except.ok.injEq, Prod.mk.injEq, Prod.exists,
    increaseSafely_eq_ok]
  grind

theorem getSequence4_eq_ok {lead : UInt8} {rest r : Bytes} {cp : UInt32} :
    getSequence4 lead rest = .ok (cp, r) ↔ ∃ t1 t2 t3, rest = t1 :: t2 :: t3 :: r ∧ isTrail t1 = true ∧
      isTrail t2 = true ∧ isTrail t3 = true ∧ cp = ((lead.toUInt32 <<< 18) &&& (0x1fffff : UInt32)) +
        ((t1.toUInt32 <<< 12) &&& (0x3ffff : UInt32)) + ((t2.toUInt32 <<< 6) &&& 0xfff) + (t3.toUInt32 &&& 0x3f) := by
  simp only [getSequence4, bind_eq_ok, pure, Except.pure, Except.ok.injEq, Prod.mk.injEq, Prod.exists,
    increaseSafely_eq_ok]
  grind

/-- The octets a sequence of `sequenceLength lead` octets reads after its lead. -/
theorem validateNext_eq_ok {lead : UInt8} {rest r : Bytes} {cp : UInt32}
    (h : validateNext lead rest = .ok (cp, r)) :
    ∃ pre, rest = pre ++ r ∧ pre.length + 1 = sequenceLength lead := by
  unfold validateNext at h
  dsimp only at h
  split at h
  · cases h
  · next cp' r' hseq =>
    have hr : r' = r := by
      split at h
      · split at h
        · cases h; rfl
        · cases h
      · cases h
    subst hr
    split at hseq
    · next hlen =>
      simp only [getSequence1, Except.ok.injEq, Prod.mk.injEq] at hseq
      exact ⟨[], by rw [hseq.2, List.nil_append], by rw [hlen]; rfl⟩
    · next hlen =>
      obtain ⟨t1, rfl, -⟩ := getSequence2_eq_ok.mp hseq
      exact ⟨[t1], rfl, by rw [hlen]; rfl⟩
    · next hlen =>
      obtain ⟨t1, t2, rfl, -⟩ := getSequence3_eq_ok.mp hseq
      exact ⟨[t1, t2], rfl, by rw [hlen]; rfl⟩
    · next hlen =>
      obtain ⟨t1, t2, t3, rfl, -⟩ := getSequence4_eq_ok.mp hseq
      exact ⟨[t1, t2, t3], rfl, by rw [hlen]; rfl⟩
    · cases hseq

theorem length_validateNext {lead : UInt8} {rest r : Bytes} {cp : UInt32}
    (h : validateNext lead rest = .ok (cp, r)) : r.length ≤ rest.length := by
  obtain ⟨pre, rfl, -⟩ := validateNext_eq_ok h
  simp

/-- The loop of `num_characters`, after `count` characters: `-1` at the first
sequence `validate_next` refuses. -/
def numCharactersFrom (count : Int) : Bytes → Int
  | [] => count
  | lead :: rest =>
    match h : validateNext lead rest with
    | .error _ => -1
    | .ok (_, rest') => numCharactersFrom (count + 1) rest'
termination_by bytes => bytes.length
decreasing_by
  have := length_validateNext h
  simp only [List.length_cons]
  omega

/-- `utf8::num_characters(start, end)`. -/
def numCharacters (bytes : Bytes) : Int := numCharactersFrom 0 bytes

theorem numCharactersFrom_nil (count : Int) : numCharactersFrom count [] = count := by
  rw [numCharactersFrom]

theorem numCharactersFrom_cons (count : Int) (lead : UInt8) (rest : Bytes) :
    numCharactersFrom count (lead :: rest) =
      match validateNext lead rest with
      | .error _ => -1
      | .ok (_, rest') => numCharactersFrom (count + 1) rest' := by
  rw [numCharactersFrom]
  split <;> simp_all

/-- The count is `-1`, or one more than what came before for each character and so
at most one for each octet. -/
theorem numCharactersFrom_bounds (bytes : Bytes) : ∀ count : Int,
    numCharactersFrom count bytes = -1 ∨
      count ≤ numCharactersFrom count bytes ∧ numCharactersFrom count bytes ≤ count + bytes.length := by
  induction h : bytes.length using Nat.strong_induction_on generalizing bytes with
  | _ n ih =>
    intro count
    cases bytes with
    | nil =>
      rw [numCharactersFrom_nil]
      right
      simp
    | cons lead rest =>
      rw [numCharactersFrom_cons]
      split
      · left; rfl
      · next cp r hv =>
        have hr := length_validateNext hv
        simp only [List.length_cons] at h
        rcases ih r.length (by omega) r rfl (count + 1) with hneg | ⟨hlo, hhi⟩
        · left; exact hneg
        · right
          constructor <;> omega

theorem numCharacters_bounds (bytes : Bytes) :
    numCharacters bytes = -1 ∨ 0 ≤ numCharacters bytes ∧ numCharacters bytes ≤ bytes.length := by
  rcases numCharactersFrom_bounds bytes 0 with h | h
  · exact .inl h
  · right
    simpa [numCharacters] using h

/-- An octet below `0x80` is a character of its own. -/
theorem validateNext_ascii {c : UInt8} (hc : c < 0x80) (rest : Bytes) :
    validateNext c rest = .ok (c.toUInt32, rest) := by
  have hlen : sequenceLength c = 1 := by
    rw [sequenceLength, if_pos hc]
  have hcp : c.toUInt32 < 0x80 := by
    rw [UInt32.lt_iff_toNat_lt, UInt8.toNat_toUInt32]
    exact UInt8.lt_iff_toNat_lt.mp hc
  have hvalid : isCodePointValid c.toUInt32 = true := by
    simp only [isCodePointValid, isSurrogate, Bool.and_eq_true, decide_eq_true_eq, Bool.not_eq_true',
      Bool.and_eq_false_iff, decide_eq_false_iff_not, UInt32.not_le]
    constructor
    · exact UInt32.le_of_lt (UInt32.lt_of_lt_of_le hcp (by decide))
    · exact .inl (UInt32.lt_of_lt_of_le hcp (by decide))
  simp only [validateNext, hlen, getSequence1, hvalid, isOverlongSequence, if_pos hcp]
  rfl

/-- A string of ASCII octets has one character per octet. -/
theorem numCharactersFrom_ascii (count : Int) : ∀ bytes : Bytes, (∀ c ∈ bytes, c < 0x80) →
    numCharactersFrom count bytes = count + bytes.length
  | [], _ => by rw [numCharactersFrom_nil]; simp
  | c :: rest, h => by
    rw [numCharactersFrom_cons, validateNext_ascii (h c List.mem_cons_self)]
    dsimp only
    rw [numCharactersFrom_ascii (count + 1) rest fun d hd => h d (List.mem_cons_of_mem c hd), List.length_cons]
    omega

end Twister.Utf8
