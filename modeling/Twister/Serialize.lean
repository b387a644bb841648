import Twister.Chain.Script

/-!
# Compact sizes and variable-length integers

serialize.h writes the length of every vector and string as a `CompactSize`: one
byte below 253, otherwise a marker byte 253, 254 or 255 and the size in 2, 4 or 8
little-endian bytes. `ReadCompactSize` refuses a size above `MAX_SIZE`. A
`VARINT` is the base-128 form that stores the most significant digit first and
subtracts one from every digit but the last, so that every number has exactly one
encoding.

A stream is a byte list: writing gives the bytes written, reading gives the value
and the bytes after it, or `none` where `READDATA` runs past the end or the source
throws. Values are natural numbers. `ReadVarInt` into an `I` of `bits` bits wraps
its shift and its increment modulo `2 ^ bits`; for `I = int` that is the reading of
a non-negative value, the only one the round trip meets.
-/

namespace Twister.Serialize

open Twister.Chain (leValue leBytes leBytes_length leValue_leBytes)

/-! ## CompactSize -/

/-- `MAX_SIZE`. -/
def maxSize : Nat := 0x02000000

/-- `GetSizeOfCompactSize(nSize)`. -/
def getSizeOfCompactSize (nSize : Nat) : Nat :=
  if nSize < 253 then 1
  else if nSize ≤ 0xffff then 1 + 2
  else if nSize ≤ 0xffffffff then 1 + 4
  else 1 + 8

/-- `WriteCompactSize(os, nSize)`: the bytes written. -/
def writeCompactSize (nSize : Nat) : Bytes :=
  if nSize < 253 then [nSize.toUInt8]
  else if nSize ≤ 0xffff then 253 :: leBytes 2 nSize
  else if nSize ≤ 0xffffffff then 254 :: leBytes 4 nSize
  else 255 :: leBytes 8 nSize

/-- `READDATA` of a little-endian number of `w` bytes. -/
def readLe (w : Nat) (bytes : Bytes) : Option (Nat × Bytes) :=
  if w ≤ bytes.length then some (leValue (bytes.take w), bytes.drop w) else none

/-- `ReadCompactSize(is)`. -/
def readCompactSize : Bytes → Option (Nat × Bytes)
  | [] => none
  | chSize :: rest => do
    let (nSizeRet, rest) ←
      if chSize < 253 then some (chSize.toNat, rest)
      else if chSize = 253 then readLe 2 rest
      else if chSize = 254 then readLe 4 rest
      else readLe 8 rest
    if nSizeRet > maxSize then none else some (nSizeRet, rest)

theorem readLe_leBytes (w n : Nat) (hn : n < 256 ^ w) (rest : Bytes) :
    readLe w (leBytes w n ++ rest) = some (n, rest) := by
  have htake : (leBytes w n ++ rest).take w = leBytes w n := List.take_left' (leBytes_length w n)
  have hdrop : (leBytes w n ++ rest).drop w = rest := List.drop_left' (leBytes_length w n)
  simp [readLe, htake, hdrop, leValue_leBytes w n hn]

/-- The size bytes `WriteCompactSize` writes are as many as `GetSizeOfCompactSize` counts. -/
theorem length_writeCompactSize (nSize : Nat) :
    (writeCompactSize nSize).length = getSizeOfCompactSize nSize := by
  unfold writeCompactSize getSizeOfCompactSize
  split_ifs <;> simp

/-- Reading a written size up to `MAX_SIZE` gives it back and leaves the bytes after it. -/
theorem readCompactSize_writeCompactSize {nSize : Nat} (h : nSize ≤ maxSize) (rest : Bytes) :
    readCompactSize (writeCompactSize nSize ++ rest) = some (nSize, rest) := by
  have hmax : ¬nSize > maxSize := by omega
  unfold writeCompactSize
  by_cases h1 : nSize < 253
  · have hbyte : nSize.toUInt8.toNat = nSize := by simp [Nat.toUInt8]; omega
    have hlt : nSize.toUInt8 < 253 := by rw [UInt8.lt_iff_toNat_lt, hbyte]; simpa using h1
    simp [h1, readCompactSize, hlt, hbyte, hmax]
  · by_cases h2 : nSize ≤ 0xffff
    · simp [h1, h2, readCompactSize, readLe_leBytes 2 nSize (by simp; omega), hmax]
    · have h3 : nSize ≤ 0xffffffff := by simp only [maxSize] at h; omega
      simp [h1, h2, h3, readCompactSize, readLe_leBytes 4 nSize (by simp; omega), hmax]

/-! ## Vectors -/

/-- How a fixed-size value such as a `uint256` is written: `size` raw bytes that `read`
turns back into the value. -/
structure FixedCodec (H : Type) where
  size : Nat
  write : H → Bytes
  read : Bytes → H
  length_write : ∀ h, (write h).length = size
  read_write : ∀ h, read (write h) = h

/-- An `unsigned char`: one byte, written as itself. -/
def byteCodec : FixedCodec UInt8 :=
  ⟨1, fun b => [b], fun bytes => bytes.headD 0, fun _ => rfl, fun _ => rfl⟩

/-- `Serialize` of a `std::vector` of fixed-size values: the count, then the values. -/
def writeVector {H : Type} (codec : FixedCodec H) (v : List H) : Bytes :=
  writeCompactSize v.length ++ v.flatMap codec.write

/-- `count` fixed-size values, one after the other. -/
def readValues {H : Type} (codec : FixedCodec H) : Nat → Bytes → Option (List H × Bytes)
  | 0, bytes => some ([], bytes)
  | count + 1, bytes =>
    if codec.size ≤ bytes.length then
      (readValues codec count (bytes.drop codec.size)).map fun (v, rest) =>
        (codec.read (bytes.take codec.size) :: v, rest)
    else none

/-- `Unserialize` of a `std::vector` of fixed-size values. The source reads it in
blocks of at most 5 MB, which changes nothing in what is read. -/
def readVector {H : Type} (codec : FixedCodec H) (bytes : Bytes) : Option (List H × Bytes) := do
  let (nSize, rest) ← readCompactSize bytes
  readValues codec nSize rest

/-- `Serialize` of a `std::vector<unsigned char>`. -/
def writeByteVector (v : Bytes) : Bytes := writeCompactSize v.length ++ v

/-- `Unserialize` of a `std::vector<unsigned char>`, read in blocks as above. -/
def readByteVector (bytes : Bytes) : Option (Bytes × Bytes) := do
  let (nSize, rest) ← readCompactSize bytes
  if nSize ≤ rest.length then some (rest.take nSize, rest.drop nSize) else none

theorem readValues_flatMap {H : Type} (codec : FixedCodec H) :
    ∀ (v : List H) (rest : Bytes), readValues codec v.length (v.flatMap codec.write ++ rest) = some (v, rest)
  | [], rest => rfl
  | h :: v, rest => by
    have hlen := codec.length_write h
    have htake : (codec.write h ++ (v.flatMap codec.write ++ rest)).take codec.size = codec.write h :=
      List.take_left' hlen
    have hdrop : (codec.write h ++ (v.flatMap codec.write ++ rest)).drop codec.size =
        v.flatMap codec.write ++ rest :=
      List.drop_left' hlen
    rw [List.length_cons, List.flatMap_cons, List.append_assoc, readValues,
      if_pos (by simp [hlen]), hdrop, readValues_flatMap codec v rest, htake, codec.read_write]
    rfl

/-- A written vector of at most `MAX_SIZE` values reads back. -/
theorem readVector_writeVector {H : Type} (codec : FixedCodec H) {v : List H}
    (hv : v.length ≤ maxSize) (rest : Bytes) :
    readVector codec (writeVector codec v ++ rest) = some (v, rest) := by
  rw [writeVector, List.append_assoc, readVector, readCompactSize_writeCompactSize hv]
  exact readValues_flatMap codec v rest

/-- A written byte vector of at most `MAX_SIZE` bytes reads back. -/
theorem readByteVector_writeByteVector {v : Bytes} (hv : v.length ≤ maxSize) (rest : Bytes) :
    readByteVector (writeByteVector v ++ rest) = some (v, rest) := by
  rw [writeByteVector, List.append_assoc, readByteVector, readCompactSize_writeCompactSize hv]
  simp

/-! ## VarInt -/

/-- The byte `tmp[len]` of `WriteVarInt`: the low seven bits of `n`, with the
continuation bit on every digit but the one stored first. -/
def varIntByte (n len : Nat) : UInt8 :=
  ((n &&& 0x7F) ||| (if len ≠ 0 then 0x80 else 0x00)).toUInt8

/-- The loop of `WriteVarInt` filling `tmp[len]`, `tmp[len + 1]`, ...: the digit of
`n`, then, while `n > 0x7F`, the digits of `(n >> 7) - 1`. -/
def varIntTmp (n len : Nat) : List UInt8 :=
  if n ≤ 0x7F then [varIntByte n len]
  else varIntByte n len :: varIntTmp ((n >>> 7) - 1) (len + 1)
termination_by n
decreasing_by
  rw [Nat.shiftRight_eq_div_pow]
  omega

/-- `WriteVarInt(os, n)`: the bytes of `tmp` from the last stored down to `tmp[0]`. -/
def writeVarInt (n : Nat) : Bytes := (varIntTmp n 0).reverse

/-- `GetSizeOfVarInt(n)`. -/
def getSizeOfVarInt (n : Nat) : Nat :=
  if n ≤ 0x7F then 1 else getSizeOfVarInt ((n >>> 7) - 1) + 1
termination_by n
decreasing_by
  rw [Nat.shiftRight_eq_div_pow]
  omega

/-- The loop of `ReadVarInt` into an `I` of `bits` bits, from the value `n` read so far. -/
def readVarIntLoop (bits n : Nat) : Bytes → Option (Nat × Bytes)
  | [] => none
  | chData :: rest =>
    let n := ((n <<< 7) % 2 ^ bits) ||| (chData &&& 0x7F).toNat
    if chData &&& 0x80 ≠ 0 then readVarIntLoop bits ((n + 1) % 2 ^ bits) rest
    else some (n, rest)

/-- `ReadVarInt<I>(is)` for an `I` of `bits` bits. -/
def readVarInt (bits : Nat) (bytes : Bytes) : Option (Nat × Bytes) :=
  readVarIntLoop bits 0 bytes

/-- `count` calls of `ReadVarInt` one after the other on one stream. -/
def readVarInts (bits : Nat) : Nat → Bytes → Option (List Nat × Bytes)
  | 0, bytes => some ([], bytes)
  | count + 1, bytes => do
    let (n, rest) ← readVarInt bits bytes
    let (ns, rest) ← readVarInts bits count rest
    pure (n :: ns, rest)

theorem varIntTmp_eq (n len : Nat) :
    varIntTmp n len = if n ≤ 0x7F then [varIntByte n len]
      else varIntByte n len :: varIntTmp (n / 128 - 1) (len + 1) := by
  rw [varIntTmp, Nat.shiftRight_eq_div_pow]

theorem getSizeOfVarInt_eq (n : Nat) :
    getSizeOfVarInt n = if n ≤ 0x7F then 1 else getSizeOfVarInt (n / 128 - 1) + 1 := by
  rw [getSizeOfVarInt, Nat.shiftRight_eq_div_pow]

/-- The value of a stored digit: seven bits, and `128` for a continuation. -/
theorem toNat_varIntByte (n len : Nat) :
    (varIntByte n len).toNat = n % 128 + if len ≠ 0 then 128 else 0 := by
  have hlow : n &&& 0x7F = n % 2 ^ 7 := Nat.and_two_pow_sub_one_eq_mod n 7
  have hlt : n % 2 ^ 7 < 2 ^ 7 := Nat.mod_lt _ (by decide)
  unfold varIntByte
  split_ifs with hlen
  · have hor : n % 2 ^ 7 ||| 0x80 = 2 ^ 7 * 1 + n % 2 ^ 7 := by
      rw [Nat.lor_comm, Nat.two_pow_add_eq_or_of_lt hlt]
    rw [hlow, hor]
    simp [Nat.toUInt8]
    omega
  · rw [hlow, Nat.or_zero]
    simp [Nat.toUInt8]
    omega

/-- The seven digit bits of a byte. -/
theorem toNat_and_7f (c : UInt8) : (c &&& 0x7F).toNat = c.toNat % 128 := by
  rw [UInt8.toNat_and]
  exact Nat.and_two_pow_sub_one_eq_mod c.toNat 7

/-- The continuation bit of a byte. -/
theorem and_80_ne_zero_iff (c : UInt8) : c &&& 0x80 ≠ 0 ↔ 128 ≤ c.toNat := by
  have hbit : ∀ i : Fin 256, i.val &&& 128 = i.val / 128 * 128 := by decide +kernel
  have h := hbit ⟨c.toNat, c.toNat_lt⟩
  rw [ne_eq, ← UInt8.toNat_inj, UInt8.toNat_and]
  simp only at h
  simp only [UInt8.reduceToNat, h]
  have := c.toNat_lt
  omega

/-- A stored digit reads back as the low seven bits of its number. -/
theorem varIntByte_digit (n len : Nat) : (varIntByte n len).toNat % 128 = n % 128 := by
  rw [toNat_varIntByte]
  split_ifs <;> omega

/-- A stored digit continues exactly when it is not the one stored first. -/
theorem varIntByte_continues (n len : Nat) : varIntByte n len &&& 0x80 ≠ 0 ↔ len ≠ 0 := by
  rw [and_80_ne_zero_iff, toNat_varIntByte]
  split_ifs with hlen
  · simp only [ne_eq, hlen, not_false_eq_true, iff_true]
    omega
  · simp only [hlen, iff_false, not_le]
    omega

/-- One byte of `ReadVarInt` when the value read so far fits: shift in seven bits. -/
theorem shift_or_eq {bits n : Nat} (c : UInt8) (hfit : n * 128 + c.toNat % 128 < 2 ^ bits) :
    ((n <<< 7) % 2 ^ bits) ||| (c &&& 0x7F).toNat = n * 128 + c.toNat % 128 := by
  have hshift : (n <<< 7) % 2 ^ bits = 2 ^ 7 * n := by
    rw [Nat.shiftLeft_eq, Nat.mod_eq_of_lt (by omega)]
    ring
  rw [hshift, toNat_and_7f, ← Nat.two_pow_add_eq_or_of_lt (Nat.mod_lt _ (by decide))]
  ring

/-- `ReadVarInt` on one byte, when the value read so far fits. -/
theorem readVarIntLoop_cons {bits n : Nat} (c : UInt8) (rest : Bytes)
    (hfit : n * 128 + c.toNat % 128 < 2 ^ bits) :
    readVarIntLoop bits n (c :: rest) =
      if c &&& 0x80 ≠ 0 then readVarIntLoop bits ((n * 128 + c.toNat % 128 + 1) % 2 ^ bits) rest
      else some (n * 128 + c.toNat % 128, rest) := by
  simp only [readVarIntLoop, shift_or_eq c hfit]

/-- Reading the digits `WriteVarInt` stores from `tmp[len]` on: a continued number
(`len ≠ 0`) leaves `n + 1` for the digits after it, the last digit ends with `n`. -/
theorem readVarIntLoop_varIntTmp {bits : Nat} :
    ∀ (n len : Nat), n < 2 ^ bits → ∀ rest : Bytes,
      readVarIntLoop bits 0 ((varIntTmp n len).reverse ++ rest) =
        if len ≠ 0 then readVarIntLoop bits ((n + 1) % 2 ^ bits) rest else some (n, rest) := by
  intro n
  induction n using Nat.strongRecOn with
  | ind n ih =>
    intro len hn rest
    have hdigit := varIntByte_digit n len
    rw [varIntTmp_eq]
    by_cases hsmall : n ≤ 0x7F
    · have hfit : 0 * 128 + (varIntByte n len).toNat % 128 < 2 ^ bits := by omega
      have hvalue : 0 * 128 + n % 128 = n := by omega
      rw [if_pos hsmall, List.reverse_singleton, List.singleton_append,
        readVarIntLoop_cons _ _ hfit]
      simp only [hdigit, varIntByte_continues, hvalue]
    · have hq : n / 128 - 1 < n := by omega
      have hnext := ih (n / 128 - 1) hq (len + 1) (by omega) (varIntByte n len :: rest)
      have hcarry : (n / 128 - 1 + 1) % 2 ^ bits = n / 128 := by
        rw [Nat.mod_eq_of_lt (by omega)]
        omega
      have hvalue : n / 128 * 128 + n % 128 = n := by omega
      have hfit : n / 128 * 128 + (varIntByte n len).toNat % 128 < 2 ^ bits := by omega
      rw [if_neg hsmall, List.reverse_cons, List.append_assoc, List.singleton_append, hnext,
        if_pos (Nat.add_one_ne_zero len), hcarry, readVarIntLoop_cons _ _ hfit]
      simp only [hdigit, varIntByte_continues, hvalue]

/-- `ReadVarInt` reads back what `WriteVarInt` wrote, whenever the number fits in `I`. -/
theorem readVarInt_writeVarInt {bits n : Nat} (hn : n < 2 ^ bits) (rest : Bytes) :
    readVarInt bits (writeVarInt n ++ rest) = some (n, rest) := by
  have h := readVarIntLoop_varIntTmp n 0 hn rest
  rw [if_neg (not_not.mpr rfl)] at h
  exact h

/-- The encoding of `2 ^ 32` in the table of serialize.h. -/
example : writeVarInt (2 ^ 32) = [0x8E, 0xFE, 0xFE, 0xFF, 0x00] := by
  simp [writeVarInt, varIntTmp_eq, varIntByte]

/-- Reading one number per written number gives the list back. -/
theorem readVarInts_flatMap {bits : Nat} :
    ∀ (ns : List Nat), (∀ n ∈ ns, n < 2 ^ bits) → ∀ rest : Bytes,
      readVarInts bits ns.length (ns.flatMap writeVarInt ++ rest) = some (ns, rest)
  | [], _, rest => rfl
  | n :: ns, hns, rest => by
    have hhead := readVarInt_writeVarInt (hns n List.mem_cons_self) (ns.flatMap writeVarInt ++ rest)
    have htail := readVarInts_flatMap ns (fun m hm => hns m (List.mem_cons_of_mem n hm)) rest
    rw [List.length_cons, List.flatMap_cons, List.append_assoc, readVarInts, hhead]
    simp [htail]

/-- `tmp` holds as many digits as `GetSizeOfVarInt` counts. -/
theorem length_varIntTmp (n len : Nat) : (varIntTmp n len).length = getSizeOfVarInt n := by
  induction n using Nat.strongRecOn generalizing len with
  | ind n ih =>
    rw [varIntTmp_eq, getSizeOfVarInt_eq]
    split_ifs with hsmall
    · rfl
    · rw [List.length_cons, ih (n / 128 - 1) (by omega)]

theorem length_writeVarInt (n : Nat) : (writeVarInt n).length = getSizeOfVarInt n := by
  rw [writeVarInt, List.length_reverse, length_varIntTmp]

/-- A number below `2 ^ (7 * k)` takes at most `k` digits: `tmp`, of
`(sizeof(n) * 8 + 6) / 7` bytes, is never overrun. -/
theorem getSizeOfVarInt_le : ∀ (k n : Nat), n < 2 ^ (7 * k) → 0 < k → getSizeOfVarInt n ≤ k
  | 0, _, _, hk => absurd hk (by decide)
  | k + 1, n, hn, _ => by
    rw [getSizeOfVarInt_eq]
    split_ifs with hsmall
    · omega
    · have hpow : 2 ^ (7 * (k + 1)) = 2 ^ (7 * k) * 128 := by
        rw [Nat.mul_succ, Nat.pow_add]
      have hq : n / 128 - 1 < 2 ^ (7 * k) := by
        rw [hpow] at hn
        have := Nat.div_lt_of_lt_mul hn
        omega
      have hk : 0 < k := by
        rcases Nat.eq_zero_or_pos k with rfl | hk
        · simp at hn; omega
        · exact hk
      have := getSizeOfVarInt_le k (n / 128 - 1) hq hk
      omega

/-- Two numbers with one encoding are equal. -/
theorem writeVarInt_injective : Function.Injective writeVarInt := by
  intro n m h
  have hn := @readVarInt_writeVarInt (n + m) n (Nat.lt_two_pow_self.trans_le
    (Nat.pow_le_pow_right (by decide) (by omega))) []
  have hm := @readVarInt_writeVarInt (n + m) m (Nat.lt_two_pow_self.trans_le
    (Nat.pow_le_pow_right (by decide) (by omega))) []
  rw [h, hm] at hn
  simpa using hn.symm

/-- Variable-length integers and compact sizes read back what was written: a list of
`uint64`, or of non-negative `int`, written with `WriteVarInt` and read with as many
`ReadVarInt`s; each encoding as long as `GetSizeOfVarInt` says, no two numbers
sharing one; and every size up to `MAX_SIZE`, read after `WriteCompactSize`, with
the bytes after it untouched and `GetSizeOfCompactSize` bytes consumed. -/
theorem varInt_compactSize_round_trip :
    (∀ ns : List UInt64, readVarInts 64 ns.length ((ns.map UInt64.toNat).flatMap writeVarInt) =
        some (ns.map UInt64.toNat, [])) ∧
      (∀ ns : List Int32, (∀ n ∈ ns, 0 ≤ n) →
        readVarInts 32 ns.length ((ns.map fun n => n.toInt.toNat).flatMap writeVarInt) =
          some (ns.map fun n => n.toInt.toNat, [])) ∧
      (∀ n : Nat, (writeVarInt n).length = getSizeOfVarInt n) ∧
      Function.Injective writeVarInt ∧
      (∀ nSize ≤ maxSize, ∀ rest : Bytes,
        readCompactSize (writeCompactSize nSize ++ rest) = some (nSize, rest) ∧
          (writeCompactSize nSize).length = getSizeOfCompactSize nSize) := by
  refine ⟨fun ns => ?_, fun ns hns => ?_, length_writeVarInt, writeVarInt_injective,
    fun nSize h rest => ⟨readCompactSize_writeCompactSize h rest, length_writeCompactSize nSize⟩⟩
  · have h := @readVarInts_flatMap 64 (ns.map UInt64.toNat)
      (fun n hn => by
        obtain ⟨m, -, rfl⟩ := List.mem_map.mp hn
        exact m.toNat_lt) []
    simpa using h
  · have h := @readVarInts_flatMap 32 (ns.map fun n => n.toInt.toNat)
      (fun n hn => by
        obtain ⟨m, hm, rfl⟩ := List.mem_map.mp hn
        have hlt := m.toInt_lt
        have hle := Int32.le_iff_toInt_le.mp (hns m hm)
        simp only [Int32.toInt_zero] at hle
        omega) []
    simpa using h

end Twister.Serialize
