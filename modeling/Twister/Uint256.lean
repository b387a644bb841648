import Twister.Chain.Script

/-!
# `base_uint`: fixed-width unsigned integers

`base_uint<BITS>` (uint256.h), the type of `uint160` and `uint256`, keeps a number of
`BITS = 32 * WIDTH` bits as `WIDTH` 32-bit limbs `pn`, least significant first, and
implements its operators by loops over the limbs: a carry chain for `+=`, `-=` through
`operator-`, a limb offset and a bit offset for the shifts, a loop that stops at the
first limb that does not wrap for `++` and `--`, and a scan from the top limb for the
comparisons. `GetHex` prints the bytes of the limbs from the last one, and `SetHex`
parses hex digits from the right.

The bytes of a limb are taken in little-endian order, as they lie in memory on the
machines twister runs on. `baseUint_value_ops` says that every operator computes the
corresponding operation on the numbers the limbs stand for, modulo `2 ^ BITS`.
-/

namespace Twister

open Chain (leBytes leValue leBytes_length leValue_leBytes)

/-- `isspace` in the C locale: the space, and tab to carriage return. -/
def isspace (c : UInt8) : Bool := c == 32 || (9 ≤ c && c ≤ 13)

/-- `tolower` in the C locale. -/
def tolower (c : UInt8) : UInt8 := if 65 ≤ c ∧ c ≤ 90 then c + 32 else c

/-- A `base_uint<32 * WIDTH>`: its limbs `pn`, least significant first. -/
@[ext]
structure BaseUint (WIDTH : Nat) where
  pn : List UInt32
  length_pn : pn.length = WIDTH
deriving DecidableEq

namespace BaseUint

/-! ## The loops over limbs -/

/-- The number the limbs `pn` stand for. -/
def limbsValue (pn : List UInt32) : Nat := Nat.ofDigits (2 ^ 32) (pn.map UInt32.toNat)

/-- The limbs of `operator~`: each one complemented. -/
def notLimbs (pn : List UInt32) : List UInt32 := pn.map (~~~ ·)

/-- The loop of prefix `operator++`: increment limb `i`, and go on to the next limb while
the incremented one wrapped to zero and is not the last. -/
def incLoop : List UInt32 → List UInt32
  | [] => []
  | [x] => [x + 1]
  | x :: y :: rest =>
    let x := x + 1
    if x = 0 then x :: incLoop (y :: rest) else x :: y :: rest

/-- The loop of prefix `operator--`: decrement limb `i`, and go on while it wrapped to
`-1`, that is to `0xffffffff` once `-1` is converted to `uint32_t`, and is not the
last. -/
def decLoop : List UInt32 → List UInt32
  | [] => []
  | [x] => [x - 1]
  | x :: y :: rest =>
    let x := x - 1
    if x = 0xffffffff then x :: decLoop (y :: rest) else x :: y :: rest

/-- The carry loop of `operator+=`: `n = carry + pn[i] + b.pn[i]` in 64 bits, its low 32
bits stored and the rest carried. -/
def addLoop (carry : UInt64) : List UInt32 → List UInt32 → List UInt32
  | x :: xs, y :: ys =>
    let n := carry + x.toUInt64 + y.toUInt64
    (n &&& 0xffffffff).toUInt32 :: addLoop (n >>> 32) xs ys
  | _, _ => []

/-- One turn of the loop of `operator<<=(shift)`, with `k = shift / 32` and `shift % 32`
as `shift`: limb `i` of the old value `a` goes, shifted by `shift` bits, into limb
`i + k`, and its top `shift` bits into limb `i + k + 1`, where these exist. -/
def shiftLeftStep (a : List UInt32) (k shift : Nat) (pn : List UInt32) (i : Nat) : List UInt32 :=
  let pn := if i + k + 1 < a.length ∧ shift ≠ 0
    then pn.modify (i + k + 1) (· ||| a.getD i 0 >>> (32 - shift).toUInt32) else pn
  if i + k < a.length then pn.modify (i + k) (· ||| a.getD i 0 <<< shift.toUInt32) else pn

/-- The loop of `operator<<=`, over cleared limbs. -/
def shiftLeftLoop (a : List UInt32) (k shift : Nat) : List UInt32 :=
  (List.range a.length).foldl (shiftLeftStep a k shift) (List.replicate a.length 0)

/-- One turn of the loop of `operator>>=(shift)`: limb `i` goes, shifted down by `shift`
bits, into limb `i - k`, and its low `shift` bits into the top of limb `i - k - 1`, where
these exist. -/
def shiftRightStep (a : List UInt32) (k shift : Nat) (pn : List UInt32) (i : Nat) : List UInt32 :=
  let pn := if k + 1 ≤ i ∧ shift ≠ 0
    then pn.modify (i - k - 1) (· ||| a.getD i 0 <<< (32 - shift).toUInt32) else pn
  if k ≤ i then pn.modify (i - k) (· ||| a.getD i 0 >>> shift.toUInt32) else pn

/-- The loop of `operator>>=`, over cleared limbs. -/
def shiftRightLoop (a : List UInt32) (k shift : Nat) : List UInt32 :=
  (List.range a.length).foldl (shiftRightStep a k shift) (List.replicate a.length 0)

/-- The loop of `operator<` and `operator<=` over the limbs from the most significant:
the first limb where `a`'s is smaller gives `true`, where it is larger `false`, and
`onEqual` is returned when all are equal. -/
def lessLoop (onEqual : Bool) : List UInt32 → List UInt32 → Bool
  | x :: xs, y :: ys => if x < y then true else if x > y then false else lessLoop onEqual xs ys
  | _, _ => onEqual

/-- The loop of `operator>` and `operator>=`: the same scan, with the two tests made the
other way. -/
def greaterLoop (onEqual : Bool) : List UInt32 → List UInt32 → Bool
  | x :: xs, y :: ys => if x > y then true else if x < y then false else greaterLoop onEqual xs ys
  | _, _ => onEqual

/-- The loop of `operator==`: `false` at the first limb that differs. -/
def eqLoop : List UInt32 → List UInt32 → Bool
  | x :: xs, y :: ys => if x ≠ y then false else eqLoop xs ys
  | _, _ => true

theorem length_notLimbs (pn : List UInt32) : (notLimbs pn).length = pn.length := List.length_map ..

theorem length_incLoop : ∀ pn : List UInt32, (incLoop pn).length = pn.length
  | [] => rfl
  | [_] => rfl
  | x :: y :: rest => by
    rw [incLoop]
    split_ifs
    · simp [length_incLoop (y :: rest)]
    · rfl

theorem length_decLoop : ∀ pn : List UInt32, (decLoop pn).length = pn.length
  | [] => rfl
  | [_] => rfl
  | x :: y :: rest => by
    rw [decLoop]
    split_ifs
    · simp [length_decLoop (y :: rest)]
    · rfl

theorem length_addLoop : ∀ (carry : UInt64) (xs ys : List UInt32),
    (addLoop carry xs ys).length = min xs.length ys.length
  | _, _ :: xs, _ :: ys => by simp [addLoop, length_addLoop _ xs ys, Nat.succ_min_succ]
  | _, [], _ => by simp [addLoop]
  | _, _ :: _, [] => by simp [addLoop]

/-- A conditional OR-write keeps the number of limbs. -/
theorem length_modify_ite (pn : List UInt32) (c : Prop) [Decidable c] (p : Nat) (f : UInt32 → UInt32) :
    (if c then pn.modify p f else pn).length = pn.length := by
  split_ifs <;> simp

/-- A loop whose turns keep the number of limbs keeps it. -/
theorem length_foldl_of_step {step : List UInt32 → Nat → List UInt32}
    (hstep : ∀ pn i, (step pn i).length = pn.length) :
    ∀ (is : List Nat) (pn : List UInt32), (is.foldl step pn).length = pn.length
  | [], _ => rfl
  | i :: is, pn => by rw [List.foldl_cons, length_foldl_of_step hstep is, hstep]

theorem length_shiftLeftLoop (a : List UInt32) (k shift : Nat) :
    (shiftLeftLoop a k shift).length = a.length := by
  rw [shiftLeftLoop, length_foldl_of_step, List.length_replicate]
  intro pn i
  rw [shiftLeftStep, length_modify_ite, length_modify_ite]

theorem length_shiftRightLoop (a : List UInt32) (k shift : Nat) :
    (shiftRightLoop a k shift).length = a.length := by
  rw [shiftRightLoop, length_foldl_of_step, List.length_replicate]
  intro pn i
  rw [shiftRightStep, length_modify_ite, length_modify_ite]

/-! ## The operators -/

variable {WIDTH : Nat}

/-- The number a `base_uint` stands for. -/
def value (a : BaseUint WIDTH) : Nat := limbsValue a.pn

/-- `operator~`. -/
def not (a : BaseUint WIDTH) : BaseUint WIDTH := ⟨notLimbs a.pn, by rw [length_notLimbs, a.length_pn]⟩

/-- Prefix `operator++`. -/
def inc (a : BaseUint WIDTH) : BaseUint WIDTH := ⟨incLoop a.pn, by rw [length_incLoop, a.length_pn]⟩

/-- Prefix `operator--`. -/
def dec (a : BaseUint WIDTH) : BaseUint WIDTH := ⟨decLoop a.pn, by rw [length_decLoop, a.length_pn]⟩

/-- `operator-`: the complement, incremented. -/
def neg (a : BaseUint WIDTH) : BaseUint WIDTH := a.not.inc

/-- `operator+=`, and so `operator+`, which applies it to a copy. -/
def add (a b : BaseUint WIDTH) : BaseUint WIDTH :=
  ⟨addLoop 0 a.pn b.pn, by rw [length_addLoop, a.length_pn, b.length_pn, Nat.min_self]⟩

/-- `operator-=`: `*this += -b`. -/
def sub (a b : BaseUint WIDTH) : BaseUint WIDTH := a.add b.neg

/-- `operator<<=`, and so `operator<<`. -/
def shiftLeft (a : BaseUint WIDTH) (shift : Nat) : BaseUint WIDTH :=
  ⟨shiftLeftLoop a.pn (shift / 32) (shift % 32), by rw [length_shiftLeftLoop, a.length_pn]⟩

/-- `operator>>=`, and so `operator>>`. -/
def shiftRight (a : BaseUint WIDTH) (shift : Nat) : BaseUint WIDTH :=
  ⟨shiftRightLoop a.pn (shift / 32) (shift % 32), by rw [length_shiftRightLoop, a.length_pn]⟩

/-- `operator<`. -/
def lt (a b : BaseUint WIDTH) : Bool := lessLoop false a.pn.reverse b.pn.reverse

/-- `operator<=`. -/
def le (a b : BaseUint WIDTH) : Bool := lessLoop true a.pn.reverse b.pn.reverse

/-- `operator>`. -/
def gt (a b : BaseUint WIDTH) : Bool := greaterLoop false a.pn.reverse b.pn.reverse

/-- `operator>=`. -/
def ge (a b : BaseUint WIDTH) : Bool := greaterLoop true a.pn.reverse b.pn.reverse

/-- `operator==`. -/
def eq (a b : BaseUint WIDTH) : Bool := eqLoop a.pn b.pn

/-- The bytes of the limbs as they lie in memory, each limb little-endian. -/
def pnBytes (pn : List UInt32) : Bytes := pn.flatMap fun x => leBytes 4 x.toNat

/-- The `n` limbs whose memory holds `bytes`, the bytes past its end zero. -/
def limbsOfBytes : Nat → Bytes → List UInt32
  | 0, _ => []
  | n + 1, bytes => (leValue (bytes.take 4)).toUInt32 :: limbsOfBytes n (bytes.drop 4)

/-- The digit `"%x"` prints for `d < 16`. -/
def hexDigit (d : Nat) : UInt8 := if d < 10 then (48 + d).toUInt8 else (87 + d).toUInt8

/-- `GetHex`: `"%02x"` of each byte of the limbs, from the last byte. -/
def getHex (a : BaseUint WIDTH) : Bytes :=
  (pnBytes a.pn).reverse.flatMap fun b => [hexDigit (b.toNat / 16), hexDigit (b.toNat % 16)]

/-- `phexdigit`: the value of a hex digit, and 0 for every other character. -/
def phexdigit (c : UInt8) : UInt8 :=
  if 48 ≤ c ∧ c ≤ 57 then c - 48
  else if 65 ≤ c ∧ c ≤ 70 then c - 55
  else if 97 ≤ c ∧ c ≤ 102 then c - 87
  else 0

/-- The loop of `SetHex` filling the bytes of `pn` from the first: two digits to a byte,
taken from the last digit (`digits` comes reversed), the low one first, until the digits
or the `n` bytes run out. -/
def setHexLoop : Nat → Bytes → Bytes
  | 0, _ => []
  | _ + 1, [] => []
  | _ + 1, [lo] => [phexdigit lo]
  | n + 1, lo :: hi :: rest => (phexdigit lo ||| phexdigit hi <<< 4) :: setHexLoop n rest

theorem length_limbsOfBytes : ∀ (n : Nat) (bytes : Bytes), (limbsOfBytes n bytes).length = n
  | 0, _ => rfl
  | n + 1, bytes => by rw [limbsOfBytes, List.length_cons, length_limbsOfBytes n]

/-- `SetHex(psz)`, `psz` the characters before the terminating zero: skip spaces and a
`0x`, take the hex digits, and fill the bytes of the cleared limbs from the last digit. -/
def setHex (WIDTH : Nat) (psz : Bytes) : BaseUint WIDTH :=
  let psz := psz.dropWhile isspace
  let psz := if psz.getD 0 0 = 48 ∧ tolower (psz.getD 1 0) = 120 then psz.drop 2 else psz
  let digits := psz.takeWhile fun c => phexdigit c != 0 || c == 48
  ⟨limbsOfBytes WIDTH (setHexLoop (WIDTH * 4) digits.reverse), length_limbsOfBytes _ _⟩

/-! ## The value of the limbs -/

@[simp] theorem limbsValue_nil : limbsValue [] = 0 := rfl

@[simp] theorem limbsValue_cons (x : UInt32) (xs : List UInt32) :
    limbsValue (x :: xs) = x.toNat + 2 ^ 32 * limbsValue xs := by
  simp [limbsValue, Nat.ofDigits_cons]

theorem pow_length_cons (x : UInt32) (xs : List UInt32) :
    2 ^ (32 * (x :: xs).length) = 2 ^ 32 * 2 ^ (32 * xs.length) := by
  rw [List.length_cons, Nat.mul_succ, pow_add, Nat.mul_comm]

/-- The limbs are digits below `2 ^ 32`. -/
theorem lt_of_mem_map_toNat {pn : List UInt32} : ∀ d ∈ pn.map UInt32.toNat, d < 2 ^ 32 := by
  intro d hd
  obtain ⟨x, -, rfl⟩ := List.mem_map.mp hd
  exact x.toNat_lt

theorem limbsValue_lt (pn : List UInt32) : limbsValue pn < 2 ^ (32 * pn.length) := by
  have h := @Nat.ofDigits_lt_base_pow_length (2 ^ 32) (pn.map UInt32.toNat) (by norm_num)
    lt_of_mem_map_toNat
  rwa [List.length_map, ← pow_mul] at h

theorem limbsValue_append (xs ys : List UInt32) :
    limbsValue (xs ++ ys) = limbsValue xs + 2 ^ (32 * xs.length) * limbsValue ys := by
  rw [limbsValue, List.map_append, Nat.ofDigits_append, List.length_map, ← pow_mul]
  rfl

/-- Limbs of one length are determined by their value. -/
theorem limbsValue_inj {xs ys : List UInt32} (hlen : xs.length = ys.length) :
    limbsValue xs = limbsValue ys ↔ xs = ys := by
  constructor
  · intro h
    have hmap := Nat.ofDigits_inj_of_len_eq (by norm_num : 1 < 2 ^ 32) (by simp [hlen])
      lt_of_mem_map_toNat lt_of_mem_map_toNat h
    exact List.map_injective_iff.mpr (fun _ _ h => UInt32.toNat_inj.mp h) hmap
  · rintro rfl
    rfl

/-- Bit `j` of the value is bit `j % 32` of limb `j / 32`. -/
theorem testBit_limbsValue : ∀ (pn : List UInt32) (j : Nat),
    (limbsValue pn).testBit j = (pn.getD (j / 32) 0).toNat.testBit (j % 32)
  | [], j => by simp
  | x :: xs, j => by
    rw [limbsValue_cons, Nat.add_comm, Nat.testBit_two_pow_mul_add _ x.toNat_lt]
    split_ifs with hj
    · rw [Nat.div_eq_of_lt hj, Nat.mod_eq_of_lt hj]
      rfl
    · rw [testBit_limbsValue xs (j - 32), show j / 32 = (j - 32) / 32 + 1 by omega,
        show j % 32 = (j - 32) % 32 by omega]
      rfl

theorem value_lt (a : BaseUint WIDTH) : a.value < 2 ^ (32 * WIDTH) := by
  have h := limbsValue_lt a.pn
  rwa [a.length_pn] at h

/-- Two `base_uint`s are equal exactly when their values are. -/
theorem value_inj {a b : BaseUint WIDTH} : a.value = b.value ↔ a = b := by
  rw [value, value, limbsValue_inj (by rw [a.length_pn, b.length_pn]), BaseUint.ext_iff]

/-! ## The arithmetic loops -/

/-- Complementing every limb subtracts the value from `2 ^ BITS - 1`. -/
theorem limbsValue_notLimbs : ∀ pn : List UInt32,
    limbsValue (notLimbs pn) = 2 ^ (32 * pn.length) - 1 - limbsValue pn
  | [] => rfl
  | x :: xs => by
    have ih := limbsValue_notLimbs xs
    have hx := x.toNat_lt
    have hv := limbsValue_lt xs
    rw [notLimbs, List.map_cons, limbsValue_cons, UInt32.toNat_not, ← notLimbs, ih, limbsValue_cons,
      pow_length_cons]
    generalize 2 ^ (32 * xs.length) = P at hv ⊢
    simp only [UInt32.size]
    omega

/-- `++` adds one modulo `2 ^ BITS`: the carry runs through the limbs that wrap. -/
theorem limbsValue_incLoop : ∀ pn : List UInt32,
    limbsValue (incLoop pn) = (limbsValue pn + 1) % 2 ^ (32 * pn.length)
  | [] => rfl
  | [x] => by simp [incLoop, UInt32.toNat_add]
  | x :: y :: rest => by
    have ih := limbsValue_incLoop (y :: rest)
    have hx := x.toNat_lt
    have hv := limbsValue_lt (y :: rest)
    have hadd := UInt32.toNat_add x 1
    rw [incLoop, pow_length_cons, Nat.mod_mul]
    split_ifs with hwrap
    · rw [hwrap, UInt32.toNat_zero, UInt32.toNat_one] at hadd
      rw [hwrap, limbsValue_cons 0, ih, UInt32.toNat_zero, limbsValue_cons x]
      have hlow : (x.toNat + 2 ^ 32 * limbsValue (y :: rest) + 1) % 2 ^ 32 = 0 := by omega
      have hhigh : (x.toNat + 2 ^ 32 * limbsValue (y :: rest) + 1) / 2 ^ 32 = limbsValue (y :: rest) + 1 := by
        omega
      rw [hlow, hhigh]
    · have hne : x.toNat + 1 < 2 ^ 32 := by
        by_contra hge
        apply hwrap
        apply UInt32.toNat_inj.mp
        rw [hadd, UInt32.toNat_one, UInt32.toNat_zero]
        omega
      rw [limbsValue_cons (x + 1), hadd, UInt32.toNat_one, limbsValue_cons x]
      have hlow : (x.toNat + 2 ^ 32 * limbsValue (y :: rest) + 1) % 2 ^ 32 = x.toNat + 1 := by omega
      have hhigh : (x.toNat + 2 ^ 32 * limbsValue (y :: rest) + 1) / 2 ^ 32 = limbsValue (y :: rest) := by
        omega
      rw [hlow, hhigh, Nat.mod_eq_of_lt hv, Nat.mod_eq_of_lt hne]

/-- `--` subtracts one modulo `2 ^ BITS`: the borrow runs through the limbs that wrap. -/
theorem limbsValue_decLoop : ∀ pn : List UInt32,
    limbsValue (decLoop pn) = (limbsValue pn + (2 ^ (32 * pn.length) - 1)) % 2 ^ (32 * pn.length)
  | [] => rfl
  | [x] => by
    simp only [decLoop, limbsValue_cons, limbsValue_nil, UInt32.toNat_sub, UInt32.toNat_one,
      List.length_singleton]
    omega
  | x :: y :: rest => by
    have ih := limbsValue_decLoop (y :: rest)
    have hx := x.toNat_lt
    have hv := limbsValue_lt (y :: rest)
    have hsub := UInt32.toNat_sub x 1
    rw [UInt32.toNat_one] at hsub
    rw [decLoop, pow_length_cons, Nat.mod_mul, limbsValue_cons x]
    generalize 2 ^ (32 * (y :: rest).length) = P at ih hv ⊢
    split_ifs with hwrap
    · have hmax : (0xffffffff : UInt32).toNat = 2 ^ 32 - 1 := rfl
      rw [hwrap, hmax] at hsub
      rw [hwrap, limbsValue_cons 0xffffffff, ih, hmax]
      generalize limbsValue (y :: rest) = v at hv ⊢
      have hlow : (x.toNat + 2 ^ 32 * v + (2 ^ 32 * P - 1)) % 2 ^ 32 = 2 ^ 32 - 1 := by omega
      have hhigh : (x.toNat + 2 ^ 32 * v + (2 ^ 32 * P - 1)) / 2 ^ 32 = v + (P - 1) := by omega
      rw [hlow, hhigh]
    · have hpos : 1 ≤ x.toNat := by
        by_contra h0
        have hzero : x = 0 := UInt32.toNat_inj.mp (by rw [UInt32.toNat_zero]; omega)
        exact hwrap (by rw [hzero]; decide)
      rw [limbsValue_cons (x - 1), hsub]
      generalize limbsValue (y :: rest) = v at hv ⊢
      have hlow : (x.toNat + 2 ^ 32 * v + (2 ^ 32 * P - 1)) % 2 ^ 32 = x.toNat - 1 := by omega
      have hhigh : (x.toNat + 2 ^ 32 * v + (2 ^ 32 * P - 1)) / 2 ^ 32 = v + P := by omega
      rw [hlow, hhigh, Nat.add_mod_right, Nat.mod_eq_of_lt hv, show (2 ^ 32 - 1 + x.toNat) % 2 ^ 32 = x.toNat - 1 by omega]

/-- One step of the carry chain in 64 bits: `carry + x + y` does not overflow, its low
32 bits are its remainder and the carry its quotient by `2 ^ 32`. -/
theorem addLoop_step (carry : UInt64) (x y : UInt32) (hc : carry.toNat ≤ 1) :
    ((carry + x.toUInt64 + y.toUInt64) &&& 0xffffffff).toUInt32.toNat =
        (carry.toNat + x.toNat + y.toNat) % 2 ^ 32 ∧
      ((carry + x.toUInt64 + y.toUInt64) >>> 32).toNat = (carry.toNat + x.toNat + y.toNat) / 2 ^ 32 := by
  have hx := x.toNat_lt
  have hy := y.toNat_lt
  have hn : (carry + x.toUInt64 + y.toUInt64).toNat = carry.toNat + x.toNat + y.toNat := by
    rw [UInt64.toNat_add, UInt64.toNat_add, UInt32.toNat_toUInt64, UInt32.toNat_toUInt64,
      Nat.mod_eq_of_lt (by omega), Nat.mod_eq_of_lt (by omega)]
  constructor
  · rw [UInt64.toNat_toUInt32, UInt64.toNat_and, hn, show (0xffffffff : UInt64).toNat = 2 ^ 32 - 1 from rfl,
      Nat.and_two_pow_sub_one_eq_mod, Nat.mod_mod]
  · rw [UInt64.toNat_shiftRight, hn, show (32 : UInt64).toNat % 64 = 32 from rfl, Nat.shiftRight_eq_div_pow]

/-- `+=` adds modulo `2 ^ BITS`: the carry chain over limbs of one length. -/
theorem limbsValue_addLoop : ∀ (carry : UInt64) (xs ys : List UInt32), carry.toNat ≤ 1 →
    xs.length = ys.length →
      limbsValue (addLoop carry xs ys) = (carry.toNat + limbsValue xs + limbsValue ys) % 2 ^ (32 * xs.length)
  | carry, x :: xs, y :: ys, hc, hlen => by
    obtain ⟨hlow, hcarry⟩ := addLoop_step carry x y hc
    have hx := x.toNat_lt
    have hy := y.toNat_lt
    have ih := limbsValue_addLoop _ xs ys (by rw [hcarry]; omega) (by simpa using hlen)
    rw [addLoop, limbsValue_cons, hlow, ih, hcarry, limbsValue_cons x, limbsValue_cons y, pow_length_cons,
      Nat.mod_mul]
    generalize limbsValue xs = vx
    generalize limbsValue ys = vy
    have h1 : (carry.toNat + (x.toNat + 2 ^ 32 * vx) + (y.toNat + 2 ^ 32 * vy)) % 2 ^ 32 =
        (carry.toNat + x.toNat + y.toNat) % 2 ^ 32 := by omega
    have h2 : (carry.toNat + (x.toNat + 2 ^ 32 * vx) + (y.toNat + 2 ^ 32 * vy)) / 2 ^ 32 =
        (carry.toNat + x.toNat + y.toNat) / 2 ^ 32 + vx + vy := by omega
    rw [h1, h2]
  | _, [], _, _, _ => by simp [addLoop, Nat.mod_one]
  | _, _ :: _, [], _, hlen => absurd hlen (by simp)

/-! ## The comparison loops -/

/-- The scan from the top limb decides the order of the values: `lessLoop` over the
reversed limbs is `<` on the values, or `onEqual` where they are equal. -/
theorem lessLoop_reverse (onEqual : Bool) : ∀ xs ys : List UInt32, xs.length = ys.length →
    lessLoop onEqual xs ys =
      (decide (limbsValue xs.reverse < limbsValue ys.reverse) ||
        decide (limbsValue xs.reverse = limbsValue ys.reverse) && onEqual)
  | [], [], _ => by simp [lessLoop]
  | x :: xs, y :: ys, hlen => by
    have hlen' : ys.length = xs.length := by simpa using hlen.symm
    have ih := lessLoop_reverse onEqual xs ys hlen'.symm
    have hx := limbsValue_lt xs.reverse
    have hy := limbsValue_lt ys.reverse
    rw [List.length_reverse] at hx hy
    rw [hlen'] at hy
    rw [lessLoop, ih, List.reverse_cons, List.reverse_cons, limbsValue_append, limbsValue_append,
      List.length_reverse, List.length_reverse, hlen']
    simp only [limbsValue_cons, limbsValue_nil, Nat.mul_zero, Nat.add_zero]
    generalize 2 ^ (32 * xs.length) = P at hx hy ⊢
    have hmono : ∀ a b : UInt32, a < b → P * a.toNat + P ≤ P * b.toNat := fun a b hab => by
      rw [← Nat.mul_succ]
      exact Nat.mul_le_mul_left _ hab
    by_cases hlt : x < y
    · have := hmono x y hlt
      simp only [hlt, if_true]
      simp only [Bool.true_eq, Bool.or_eq_true, decide_eq_true_eq, Bool.and_eq_true]
      omega
    · by_cases hgt : x > y
      · have := hmono y x hgt
        simp only [hlt, hgt, if_true, if_false]
        simp only [Bool.false_eq, Bool.or_eq_false_iff, decide_eq_false_iff_not, Bool.and_eq_false_imp,
          decide_eq_true_eq]
        omega
      · have hxy : x = y := UInt32.le_antisymm (UInt32.not_lt.mp hgt) (UInt32.not_lt.mp hlt)
        subst hxy
        simp only [hlt, if_false, Nat.add_left_inj, Nat.add_lt_add_iff_right]

/-- `operator>` and `operator>=` make their tests the other way round: they are `<` and
`<=` with the operands swapped. -/
theorem greaterLoop_eq_lessLoop (onEqual : Bool) : ∀ xs ys : List UInt32,
    greaterLoop onEqual xs ys = lessLoop onEqual ys xs
  | x :: xs, y :: ys => by
    rw [greaterLoop, lessLoop, greaterLoop_eq_lessLoop onEqual xs ys]
  | [], [] => rfl
  | [], _ :: _ => rfl
  | _ :: _, [] => rfl

/-- `operator==` compares the limbs. -/
theorem eqLoop_eq : ∀ xs ys : List UInt32, xs.length = ys.length → eqLoop xs ys = decide (xs = ys)
  | [], [], _ => rfl
  | x :: xs, y :: ys, hlen => by
    rw [eqLoop, eqLoop_eq xs ys (by simpa using hlen)]
    by_cases h : x = y <;> simp [h]

/-! ## The shift loops, bit by bit -/

theorem toNat_toUInt32_mod {s : Nat} (hs : s < 32) : s.toUInt32.toNat % 32 = s := by
  simp only [Nat.toUInt32, UInt32.toNat_ofNat']
  omega

/-- Bit `r` of a limb shifted up by `s < 32` bits. -/
theorem testBit_shiftLeft_limb (x : UInt32) {s : Nat} (hs : s < 32) (r : Nat) :
    (x <<< s.toUInt32).toNat.testBit r = (decide (r < 32) && decide (s ≤ r) && x.toNat.testBit (r - s)) := by
  rw [UInt32.toNat_shiftLeft, toNat_toUInt32_mod hs, Nat.testBit_mod_two_pow, Nat.testBit_shiftLeft,
    Bool.and_assoc]

/-- Bit `r` of a limb shifted down by `s < 32` bits. -/
theorem testBit_shiftRight_limb (x : UInt32) {s : Nat} (hs : s < 32) (r : Nat) :
    (x >>> s.toUInt32).toNat.testBit r = x.toNat.testBit (s + r) := by
  rw [UInt32.toNat_shiftRight, toNat_toUInt32_mod hs, Nat.testBit_shiftRight]

theorem testBit_limb_of_le (x : UInt32) {r : Nat} (hr : 32 ≤ r) : x.toNat.testBit r = false :=
  Nat.testBit_lt_two_pow (lt_of_lt_of_le x.toNat_lt (Nat.pow_le_pow_right (by norm_num) hr))

/-- A set bit of `getD` lies in a limb that exists. -/
theorem lt_length_of_testBit {pn : List UInt32} {m r : Nat} (h : (pn.getD m 0).toNat.testBit r = true) :
    m < pn.length := by
  by_contra hge
  rw [List.getD_eq_default _ _ (by omega), UInt32.toNat_zero, Nat.zero_testBit] at h
  exact Bool.false_ne_true h

/-- Bit `r` of limb `m` after an OR-write into limb `p`. -/
theorem testBit_getD_modify_or (pn : List UInt32) (p : Nat) (v : UInt32) {m : Nat} (hm : m < pn.length)
    (r : Nat) :
    ((pn.modify p (· ||| v)).getD m 0).toNat.testBit r =
      ((pn.getD m 0).toNat.testBit r || decide (p = m) && v.toNat.testBit r) := by
  rw [List.getD_eq_getElem?_getD, List.getElem?_modify, List.getD_eq_getElem?_getD,
    List.getElem?_eq_getElem hm]
  simp only [Option.map_eq_map, Option.map_some, Option.getD_some]
  by_cases hp : p = m
  · rw [if_pos hp, UInt32.toNat_or, Nat.testBit_or]
    simp [hp]
  · rw [if_neg hp]
    simp [hp]

theorem testBit_getD_modify_or_ite (pn : List UInt32) (c : Prop) [Decidable c] (p : Nat) (v : UInt32)
    {m : Nat} (hm : m < pn.length) (r : Nat) :
    ((if c then pn.modify p (· ||| v) else pn).getD m 0).toNat.testBit r =
      ((pn.getD m 0).toNat.testBit r || decide c && decide (p = m) && v.toNat.testBit r) := by
  split_ifs with hc
  · rw [testBit_getD_modify_or pn p v hm]
    simp [hc]
  · simp [hc]

/-- The rule for a loop of OR-writes: a bit of a limb is set at the end exactly when it
was set at the start or some turn ORs it in. -/
theorem testBit_foldl_of_step {step : List UInt32 → Nat → List UInt32} (contrib : Nat → Nat → Nat → Bool)
    (hlen : ∀ pn i, (step pn i).length = pn.length)
    (hstep : ∀ pn i m r, m < pn.length →
      ((step pn i).getD m 0).toNat.testBit r = ((pn.getD m 0).toNat.testBit r || contrib i m r)) :
    ∀ (is : List Nat) (pn : List UInt32) (m r : Nat), m < pn.length →
      ((is.foldl step pn).getD m 0).toNat.testBit r =
        ((pn.getD m 0).toNat.testBit r || is.any fun i => contrib i m r)
  | [], _, _, _, _ => by simp
  | i :: is, pn, m, r, hm => by
    rw [List.foldl_cons, testBit_foldl_of_step contrib hlen hstep is _ m r (by rw [hlen]; exact hm),
      hstep pn i m r hm, List.any_cons, Bool.or_assoc]

/-- Bit `r` of limb `m` after `<<=`: what the turns of the loop OR into it. -/
theorem testBit_shiftLeftLoop (a : List UInt32) (k shift : Nat) {m : Nat} (hm : m < a.length) (r : Nat) :
    ((shiftLeftLoop a k shift).getD m 0).toNat.testBit r = (List.range a.length).any fun i =>
      (decide (i + k + 1 < a.length ∧ shift ≠ 0) && decide (i + k + 1 = m) &&
          (a.getD i 0 >>> (32 - shift).toUInt32).toNat.testBit r) ||
        (decide (i + k < a.length) && decide (i + k = m) && (a.getD i 0 <<< shift.toUInt32).toNat.testBit r) := by
  have hzero : ((List.replicate a.length (0 : UInt32)).getD m 0).toNat.testBit r = false := by
    simp [List.getD_eq_getElem?_getD, hm]
  rw [shiftLeftLoop, testBit_foldl_of_step (fun i m r =>
      (decide (i + k + 1 < a.length ∧ shift ≠ 0) && decide (i + k + 1 = m) &&
          (a.getD i 0 >>> (32 - shift).toUInt32).toNat.testBit r) ||
        (decide (i + k < a.length) && decide (i + k = m) && (a.getD i 0 <<< shift.toUInt32).toNat.testBit r))
    (fun pn i => by rw [shiftLeftStep, length_modify_ite, length_modify_ite])
    (fun pn i m r hm => by
      rw [shiftLeftStep, testBit_getD_modify_or_ite _ _ _ _ (by rw [length_modify_ite]; exact hm),
        testBit_getD_modify_or_ite _ _ _ _ hm, Bool.or_assoc])
    _ _ m r (by rw [List.length_replicate]; exact hm), hzero, Bool.false_or]

/-- The turns of `<<=` that reach bit `r` of limb `m` bring bit `32m + r - s` of the old
value, `s = 32k + shift`: the low part of limb `m - k`, or the top part of limb
`m - k - 1`. -/
theorem any_shiftLeft_contrib (a : List UInt32) (k : Nat) {shift : Nat} (hs : shift < 32) {m r : Nat}
    (hm : m < a.length) (hr : r < 32) :
    ((List.range a.length).any fun i =>
      (decide (i + k + 1 < a.length ∧ shift ≠ 0) && decide (i + k + 1 = m) &&
          (a.getD i 0 >>> (32 - shift).toUInt32).toNat.testBit r) ||
        (decide (i + k < a.length) && decide (i + k = m) && (a.getD i 0 <<< shift.toUInt32).toNat.testBit r)) =
      (decide (32 * k + shift ≤ 32 * m + r) && (limbsValue a).testBit (32 * m + r - (32 * k + shift))) := by
  rw [testBit_limbsValue, Bool.eq_iff_iff, List.any_eq_true]
  simp only [List.mem_range, Bool.or_eq_true, Bool.and_eq_true, decide_eq_true_eq]
  constructor
  · rintro ⟨i, hi, ⟨⟨⟨-, hsh⟩, hik⟩, hbit⟩ | ⟨⟨-, hik⟩, hbit⟩⟩
    · rw [testBit_shiftRight_limb _ (by omega)] at hbit
      have hrs : r < shift := by
        by_contra hge
        rw [testBit_limb_of_le _ (by omega)] at hbit
        exact Bool.false_ne_true hbit
      refine ⟨by omega, ?_⟩
      rwa [show (32 * m + r - (32 * k + shift)) / 32 = i by omega,
        show (32 * m + r - (32 * k + shift)) % 32 = 32 - shift + r by omega]
    · rw [testBit_shiftLeft_limb _ hs] at hbit
      simp only [Bool.and_eq_true, decide_eq_true_eq] at hbit
      obtain ⟨⟨-, hsr⟩, hbit⟩ := hbit
      refine ⟨by omega, ?_⟩
      rwa [show (32 * m + r - (32 * k + shift)) / 32 = i by omega,
        show (32 * m + r - (32 * k + shift)) % 32 = r - shift by omega]
  · rintro ⟨hle, hbit⟩
    by_cases hsr : shift ≤ r
    · rw [show (32 * m + r - (32 * k + shift)) / 32 = m - k by omega,
        show (32 * m + r - (32 * k + shift)) % 32 = r - shift by omega] at hbit
      refine ⟨m - k, by omega, Or.inr ⟨⟨by omega, by omega⟩, ?_⟩⟩
      rw [testBit_shiftLeft_limb _ hs]
      simp only [hr, hsr, decide_true, Bool.true_and, hbit]
    · rw [show (32 * m + r - (32 * k + shift)) / 32 = m - k - 1 by omega,
        show (32 * m + r - (32 * k + shift)) % 32 = 32 - shift + r by omega] at hbit
      refine ⟨m - k - 1, by omega, Or.inl ⟨⟨⟨by omega, by omega⟩, by omega⟩, ?_⟩⟩
      rwa [testBit_shiftRight_limb _ (by omega)]

/-- `<<=` multiplies by `2 ^ shift` modulo `2 ^ BITS`. -/
theorem limbsValue_shiftLeftLoop (a : List UInt32) (shift : Nat) :
    limbsValue (shiftLeftLoop a (shift / 32) (shift % 32)) = limbsValue a * 2 ^ shift % 2 ^ (32 * a.length) := by
  apply Nat.eq_of_testBit_eq
  intro j
  rw [Nat.testBit_mod_two_pow, Nat.testBit_mul_two_pow, testBit_limbsValue]
  by_cases hj : j < 32 * a.length
  · rw [testBit_shiftLeftLoop _ _ _ (by omega),
      any_shiftLeft_contrib a _ (Nat.mod_lt _ (by norm_num)) (by omega) (Nat.mod_lt _ (by norm_num)),
      show 32 * (j / 32) + j % 32 = j by omega, show 32 * (shift / 32) + shift % 32 = shift by omega]
    simp [hj]
  · rw [List.getD_eq_default _ _ (by rw [length_shiftLeftLoop]; omega)]
    simp [hj]

/-- Bit `r` of limb `m` after `>>=`: what the turns of the loop OR into it. -/
theorem testBit_shiftRightLoop (a : List UInt32) (k shift : Nat) {m : Nat} (hm : m < a.length) (r : Nat) :
    ((shiftRightLoop a k shift).getD m 0).toNat.testBit r = (List.range a.length).any fun i =>
      (decide (k + 1 ≤ i ∧ shift ≠ 0) && decide (i - k - 1 = m) &&
          (a.getD i 0 <<< (32 - shift).toUInt32).toNat.testBit r) ||
        (decide (k ≤ i) && decide (i - k = m) && (a.getD i 0 >>> shift.toUInt32).toNat.testBit r) := by
  have hzero : ((List.replicate a.length (0 : UInt32)).getD m 0).toNat.testBit r = false := by
    simp [List.getD_eq_getElem?_getD, hm]
  rw [shiftRightLoop, testBit_foldl_of_step (fun i m r =>
      (decide (k + 1 ≤ i ∧ shift ≠ 0) && decide (i - k - 1 = m) &&
          (a.getD i 0 <<< (32 - shift).toUInt32).toNat.testBit r) ||
        (decide (k ≤ i) && decide (i - k = m) && (a.getD i 0 >>> shift.toUInt32).toNat.testBit r))
    (fun pn i => by rw [shiftRightStep, length_modify_ite, length_modify_ite])
    (fun pn i m r hm => by
      rw [shiftRightStep, testBit_getD_modify_or_ite _ _ _ _ (by rw [length_modify_ite]; exact hm),
        testBit_getD_modify_or_ite _ _ _ _ hm, Bool.or_assoc])
    _ _ m r (by rw [List.length_replicate]; exact hm), hzero, Bool.false_or]

/-- The turns of `>>=` that reach bit `r` of limb `m` bring bit `32m + r + s` of the old
value: the high part of limb `m + k`, or the bottom part of limb `m + k + 1`. -/
theorem any_shiftRight_contrib (a : List UInt32) (k : Nat) {shift : Nat} (hs : shift < 32) {m r : Nat}
    (hr : r < 32) :
    ((List.range a.length).any fun i =>
      (decide (k + 1 ≤ i ∧ shift ≠ 0) && decide (i - k - 1 = m) &&
          (a.getD i 0 <<< (32 - shift).toUInt32).toNat.testBit r) ||
        (decide (k ≤ i) && decide (i - k = m) && (a.getD i 0 >>> shift.toUInt32).toNat.testBit r)) =
      (limbsValue a).testBit (32 * m + r + (32 * k + shift)) := by
  rw [testBit_limbsValue, Bool.eq_iff_iff, List.any_eq_true]
  simp only [List.mem_range, Bool.or_eq_true, Bool.and_eq_true, decide_eq_true_eq]
  constructor
  · rintro ⟨i, hi, ⟨⟨⟨hki, hsh⟩, hik⟩, hbit⟩ | ⟨⟨hki, hik⟩, hbit⟩⟩
    · rw [testBit_shiftLeft_limb _ (by omega)] at hbit
      simp only [Bool.and_eq_true, decide_eq_true_eq] at hbit
      obtain ⟨⟨-, hsr⟩, hbit⟩ := hbit
      rwa [show (32 * m + r + (32 * k + shift)) / 32 = i by omega,
        show (32 * m + r + (32 * k + shift)) % 32 = r - (32 - shift) by omega]
    · rw [testBit_shiftRight_limb _ hs] at hbit
      have hrs : shift + r < 32 := by
        by_contra hge
        rw [testBit_limb_of_le _ (by omega)] at hbit
        exact Bool.false_ne_true hbit
      rwa [show (32 * m + r + (32 * k + shift)) / 32 = i by omega,
        show (32 * m + r + (32 * k + shift)) % 32 = shift + r by omega]
  · intro hbit
    have hlt := lt_length_of_testBit hbit
    by_cases hrs : shift + r < 32
    · have hdiv : (32 * m + r + (32 * k + shift)) / 32 = m + k := by omega
      rw [hdiv, show (32 * m + r + (32 * k + shift)) % 32 = shift + r by omega] at hbit
      rw [hdiv] at hlt
      refine ⟨m + k, hlt, Or.inr ⟨⟨by omega, by omega⟩, ?_⟩⟩
      rwa [testBit_shiftRight_limb _ hs]
    · have hdiv : (32 * m + r + (32 * k + shift)) / 32 = m + k + 1 := by omega
      rw [hdiv, show (32 * m + r + (32 * k + shift)) % 32 = r - (32 - shift) by omega] at hbit
      rw [hdiv] at hlt
      refine ⟨m + k + 1, hlt, Or.inl ⟨⟨⟨by omega, by omega⟩, by omega⟩, ?_⟩⟩
      rw [testBit_shiftLeft_limb _ (by omega)]
      simp only [hr, show 32 - shift ≤ r by omega, decide_true, Bool.true_and, hbit]

/-- `>>=` divides by `2 ^ shift`. -/
theorem limbsValue_shiftRightLoop (a : List UInt32) (shift : Nat) :
    limbsValue (shiftRightLoop a (shift / 32) (shift % 32)) = limbsValue a / 2 ^ shift := by
  apply Nat.eq_of_testBit_eq
  intro j
  rw [Nat.testBit_div_two_pow, testBit_limbsValue]
  by_cases hj : j < 32 * a.length
  · rw [testBit_shiftRightLoop _ _ _ (by omega),
      any_shiftRight_contrib a _ (Nat.mod_lt _ (by norm_num)) (Nat.mod_lt _ (by norm_num)),
      show 32 * (j / 32) + j % 32 + (32 * (shift / 32) + shift % 32) = j + shift by omega]
  · have hpow : 2 ^ (32 * a.length) ≤ 2 ^ (j + shift) := Nat.pow_le_pow_right (by norm_num) (by omega)
    rw [List.getD_eq_default _ _ (by rw [length_shiftRightLoop]; omega), UInt32.toNat_zero, Nat.zero_testBit,
      Nat.testBit_lt_two_pow (lt_of_lt_of_le (limbsValue_lt a) hpow)]

/-! ## The operators on values -/

variable (a b : BaseUint WIDTH)

theorem value_not : a.not.value = 2 ^ (32 * WIDTH) - 1 - a.value := by
  rw [not, value, limbsValue_notLimbs, length_pn]
  rfl

theorem value_inc : a.inc.value = (a.value + 1) % 2 ^ (32 * WIDTH) := by
  rw [inc, value, limbsValue_incLoop, length_pn]
  rfl

theorem value_dec : a.dec.value = (a.value + (2 ^ (32 * WIDTH) - 1)) % 2 ^ (32 * WIDTH) := by
  rw [dec, value, limbsValue_decLoop, length_pn]
  rfl

/-- `operator-` is the complement plus one: `2 ^ BITS - a`, and `0` for `0`. -/
theorem value_neg : a.neg.value = (2 ^ (32 * WIDTH) - a.value) % 2 ^ (32 * WIDTH) := by
  have h := a.value_lt
  rw [neg, value_inc, value_not]
  congr 1
  omega

theorem value_add : (a.add b).value = (a.value + b.value) % 2 ^ (32 * WIDTH) := by
  rw [add, value, limbsValue_addLoop 0 a.pn b.pn (by decide) (by rw [a.length_pn, b.length_pn]),
    a.length_pn, UInt64.toNat_zero, Nat.zero_add]
  rfl

/-- The carry out of the low limb. -/
example : (add ⟨[0xffffffff, 0], rfl⟩ ⟨[1, 0], rfl⟩ : BaseUint 2).pn = [0, 1] := by decide

theorem value_sub : (a.sub b).value = (a.value + (2 ^ (32 * WIDTH) - b.value)) % 2 ^ (32 * WIDTH) := by
  rw [sub, value_add, value_neg, Nat.add_mod_mod]

theorem value_shiftLeft (shift : Nat) : (a.shiftLeft shift).value = a.value * 2 ^ shift % 2 ^ (32 * WIDTH) := by
  rw [shiftLeft, value, limbsValue_shiftLeftLoop, a.length_pn]
  rfl

theorem value_shiftRight (shift : Nat) : (a.shiftRight shift).value = a.value / 2 ^ shift := by
  rw [shiftRight, value, limbsValue_shiftRightLoop]
  rfl

theorem lt_eq_decide : a.lt b = decide (a.value < b.value) := by
  rw [lt, lessLoop_reverse false _ _ (by rw [List.length_reverse, List.length_reverse, a.length_pn, b.length_pn]),
    List.reverse_reverse, List.reverse_reverse, Bool.and_false, Bool.or_false]
  rfl

theorem le_eq_decide : a.le b = decide (a.value ≤ b.value) := by
  rw [le, lessLoop_reverse true _ _ (by rw [List.length_reverse, List.length_reverse, a.length_pn, b.length_pn]),
    List.reverse_reverse, List.reverse_reverse, Bool.and_true, Bool.eq_iff_iff]
  simp [value, Nat.le_iff_lt_or_eq]

theorem gt_eq_decide : a.gt b = decide (b.value < a.value) := by
  rw [gt, greaterLoop_eq_lessLoop]
  exact lt_eq_decide b a

theorem ge_eq_decide : a.ge b = decide (b.value ≤ a.value) := by
  rw [ge, greaterLoop_eq_lessLoop]
  exact le_eq_decide b a

theorem eq_eq_decide : a.eq b = decide (a.value = b.value) := by
  rw [eq, eqLoop_eq _ _ (by rw [a.length_pn, b.length_pn])]
  simp only [value_inj, BaseUint.ext_iff]

/-! ## Hex -/

/-- Each digit `GetHex` prints is one `SetHex` reads back: not a space, not an `x`, a
character of the digit scan, of its own value. -/
theorem hexDigit_read : ∀ d < 16, isspace (hexDigit d) = false ∧ tolower (hexDigit d) ≠ 120 ∧
    (phexdigit (hexDigit d) != 0 || hexDigit d == 48) = true := by
  decide

/-- The two digits of a byte give the byte back, the high one shifted by four. -/
theorem hexDigit_byte (b : UInt8) :
    phexdigit (hexDigit (b.toNat % 16)) ||| phexdigit (hexDigit (b.toNat / 16)) <<< 4 = b := by
  have hall : ∀ i : Fin 256,
      phexdigit (hexDigit (i.val % 16)) ||| phexdigit (hexDigit (i.val / 16)) <<< 4 = i.val.toUInt8 := by
    decide +kernel
  calc _ = b.toNat.toUInt8 := hall ⟨b.toNat, b.toNat_lt⟩
    _ = b := by rw [Nat.toUInt8_eq, UInt8.ofNat_toNat]

/-- `SetHex`'s loop over the digits of bytes, low digit first, gives the bytes. -/
theorem setHexLoop_digits : ∀ bytes : Bytes,
    setHexLoop bytes.length (bytes.flatMap fun b => [hexDigit (b.toNat % 16), hexDigit (b.toNat / 16)]) = bytes
  | [] => rfl
  | b :: bytes => by
    rw [List.flatMap_cons, List.length_cons, List.cons_append, List.cons_append, List.nil_append, setHexLoop,
      hexDigit_byte, setHexLoop_digits bytes]

theorem length_pnBytes : ∀ pn : List UInt32, (pnBytes pn).length = pn.length * 4
  | [] => rfl
  | x :: xs => by
    rw [pnBytes, List.flatMap_cons, List.length_append, leBytes_length, ← pnBytes, length_pnBytes xs,
      List.length_cons]
    ring

/-- The limbs read from their own memory are themselves. -/
theorem limbsOfBytes_pnBytes : ∀ pn : List UInt32, limbsOfBytes pn.length (pnBytes pn) = pn
  | [] => rfl
  | x :: xs => by
    have hlen := leBytes_length 4 x.toNat
    rw [List.length_cons, limbsOfBytes, pnBytes, List.flatMap_cons, ← pnBytes, List.take_left' hlen,
      List.drop_left' hlen, leValue_leBytes 4 _ x.toNat_lt, limbsOfBytes_pnBytes xs, Nat.toUInt32_eq,
      UInt32.ofNat_toNat]

/-- Every character `GetHex` prints is a hex digit. -/
theorem mem_getHex (a : BaseUint WIDTH) {c : UInt8} (hc : c ∈ a.getHex) : ∃ d < 16, c = hexDigit d := by
  rw [getHex, List.mem_flatMap] at hc
  obtain ⟨b, -, hb⟩ := hc
  have hlt := b.toNat_lt
  simp only [List.mem_cons, List.not_mem_nil, or_false] at hb
  rcases hb with rfl | rfl
  · exact ⟨b.toNat / 16, by omega, rfl⟩
  · exact ⟨b.toNat % 16, by omega, rfl⟩

/-- `SetHex` reads back what `GetHex` prints. -/
theorem setHex_getHex (a : BaseUint WIDTH) : setHex WIDTH a.getHex = a := by
  have hspace : a.getHex.dropWhile isspace = a.getHex := by
    cases h : a.getHex with
    | nil => rfl
    | cons c rest =>
      obtain ⟨d, hd, rfl⟩ := mem_getHex a (c := c) (by rw [h]; exact List.mem_cons_self)
      exact List.dropWhile_cons_of_neg (by rw [(hexDigit_read d hd).1]; decide)
  have hx : ¬ (a.getHex.getD 0 0 = 48 ∧ tolower (a.getHex.getD 1 0) = 120) := by
    rintro ⟨-, h⟩
    by_cases hlen : 1 < a.getHex.length
    · obtain ⟨d, hd, hc⟩ := mem_getHex a (c := a.getHex.getD 1 0)
        (by rw [List.getD_eq_getElem _ _ hlen]; exact List.getElem_mem _)
      rw [hc] at h
      exact (hexDigit_read d hd).2.1 h
    · rw [List.getD_eq_default _ _ (by omega)] at h
      exact absurd h (by decide)
  have htake : a.getHex.takeWhile (fun c => phexdigit c != 0 || c == 48) = a.getHex :=
    List.takeWhile_eq_self_iff.mpr fun c hc => by
      obtain ⟨d, hd, rfl⟩ := mem_getHex a hc
      exact (hexDigit_read d hd).2.2
  have hrev : a.getHex.reverse =
      (pnBytes a.pn).flatMap fun b => [hexDigit (b.toNat % 16), hexDigit (b.toNat / 16)] := by
    rw [getHex, List.reverse_flatMap, List.reverse_reverse]
    rfl
  have hbytes : WIDTH * 4 = (pnBytes a.pn).length := by rw [length_pnBytes, a.length_pn]
  ext1
  simp only [setHex]
  rw [hspace, if_neg hx, htake, hrev, hbytes, setHexLoop_digits]
  have hlimbs := limbsOfBytes_pnBytes a.pn
  rwa [a.length_pn] at hlimbs

/-- `base_uint<BITS>` computes modulo `2 ^ BITS`: for all `a` and `b` and every shift,
each operator gives the operation on the values modulo `2 ^ BITS`, the comparisons are
those of the values, and `SetHex` reads back what `GetHex` prints. -/
theorem baseUint_value_ops (a b : BaseUint WIDTH) (s : Nat) :
    (a.add b).value = (a.value + b.value) % 2 ^ (32 * WIDTH) ∧
      (a.sub b).value = (a.value + (2 ^ (32 * WIDTH) - b.value)) % 2 ^ (32 * WIDTH) ∧
      a.neg.value = (2 ^ (32 * WIDTH) - a.value) % 2 ^ (32 * WIDTH) ∧
      a.not.value = 2 ^ (32 * WIDTH) - 1 - a.value ∧
      (a.shiftLeft s).value = a.value * 2 ^ s % 2 ^ (32 * WIDTH) ∧
      (a.shiftRight s).value = a.value / 2 ^ s ∧
      a.inc.value = (a.value + 1) % 2 ^ (32 * WIDTH) ∧
      a.dec.value = (a.value + (2 ^ (32 * WIDTH) - 1)) % 2 ^ (32 * WIDTH) ∧
      a.lt b = decide (a.value < b.value) ∧ a.le b = decide (a.value ≤ b.value) ∧
      a.gt b = decide (b.value < a.value) ∧ a.ge b = decide (b.value ≤ a.value) ∧
      a.eq b = decide (a.value = b.value) ∧
      setHex WIDTH a.getHex = a :=
  ⟨value_add a b, value_sub a b, value_neg a, value_not a, value_shiftLeft a s, value_shiftRight a s,
    value_inc a, value_dec a, lt_eq_decide a b, le_eq_decide a b, gt_eq_decide a b, ge_eq_decide a b,
    eq_eq_decide a b, setHex_getHex a⟩

end BaseUint

end Twister
