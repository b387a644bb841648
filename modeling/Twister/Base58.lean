import Twister.Uint256

/-!
# Base58

`EncodeBase58` (base58.h) writes a byte string as a number in base 58, after a `'1'` for
each leading zero byte, and `DecodeBase58` reads it back through a `CBigNum`; the
`Check` forms append and verify four bytes of the hash of the data. twister uses them
for the secrets that `createwalletuser` exports and `importprivkey` reads back.

A `CBigNum` is an integer here, with OpenSSL's byte forms for it: `BN_bn2mpi` writes
the magnitude big-endian after a zero byte where its top bit is set, and `BN_mpi2bn`
reads the top bit of the first byte as the sign; `setvch` and `getvch` reverse them to
little-endian. The hash is any function to a `uint256`. `base58_round_trip` says that
both decoders give back what the encoders were given.
-/

namespace Twister

open BaseUint (pnBytes)

/-- `pszBase58`. -/
def pszBase58 : Bytes := bytesOf "123456789ABCDEFGHJKLMNPQRSTUVWXYZabcdefghijkmnopqrstuvwxyz"

/-! ## `CBigNum` bytes -/

/-- A big-endian byte string as a number. -/
def beValue (bytes : Bytes) : Nat := bytes.foldl (fun n b => 256 * n + b.toNat) 0

/-- The big-endian bytes of a number, without leading zeros: none for zero. -/
def bnBytes (n : Nat) : Bytes :=
  if n = 0 then [] else bnBytes (n / 256) ++ [(n % 256).toUInt8]
termination_by n
decreasing_by omega

/-- `BN_bn2mpi`'s bytes after its length field, for `n ≥ 0`: the magnitude, after a zero
byte where its top bit is set, so that it does not read as negative. -/
def bn2mpi (n : Nat) : Bytes :=
  let bytes := bnBytes n
  if bytes.headD 0 ≥ 0x80 then 0 :: bytes else bytes

/-- `BN_mpi2bn` on the bytes after the length field: big-endian, with the top bit of the
first byte as the sign. -/
def mpi2bn : Bytes → Int
  | [] => 0
  | b :: rest =>
    if b &&& 0x80 ≠ 0 then -(beValue ((b &&& 0x7f) :: rest) : Int) else beValue (b :: rest)

/-- `CBigNum::setvch`: the bytes little-endian, reversed for `BN_mpi2bn`. -/
def setvch (vch : Bytes) : Int := mpi2bn vch.reverse

/-- `CBigNum::getvch` of a non-negative number: the bytes of `BN_bn2mpi` reversed. -/
def getvch (n : Nat) : Bytes := (bn2mpi n).reverse

/-! ## Encoding and decoding -/

/-- The conversion loop of `EncodeBase58`: while `bn > 0`, the character of `bn % 58`,
then `bn / 58`; the least significant digit comes first. -/
def base58Digits (bn : Nat) : Bytes :=
  if bn > 0 then pszBase58.getD (bn % 58) 0 :: base58Digits (bn / 58) else []
termination_by bn
decreasing_by omega

/-- `EncodeBase58(pbegin, pend)`: the input read as a little-endian number, with an extra
zero byte so that it is not negative; its digits, none when it is zero; then a `'1'` for
each leading zero byte of the input. -/
def encodeBase58 (input : Bytes) : Bytes :=
  let vchTmp := input.reverse ++ [0]
  let bn := setvch vchTmp
  let str := base58Digits bn.toNat
  let str := str ++ List.replicate (input.takeWhile (· = 0)).length (pszBase58.getD 0 0)
  str.reverse

/-- The loop of `DecodeBase58` over the characters after the leading spaces: a character
of `pszBase58` is a digit; at any other one, only spaces may follow. -/
def decodeBase58Loop (bn : Nat) : Bytes → Option Nat
  | [] => some bn
  | c :: rest =>
    match pszBase58.idxOf? c with
    | some d => decodeBase58Loop (bn * 58 + d) rest
    | none => if ((c :: rest).dropWhile isspace).isEmpty then some bn else none

/-- `DecodeBase58(psz, vchRet)`, `psz` the characters before the terminating zero; `none`
where it returns false. The sign byte `getvch` may add is trimmed, and each leading `'1'`
gives back a leading zero byte. -/
def decodeBase58 (psz : Bytes) : Option Bytes := do
  let psz := psz.dropWhile isspace
  let bn ← decodeBase58Loop 0 psz
  let vchTmp := getvch bn
  let vchTmp := if vchTmp.length ≥ 2 ∧ vchTmp.getLast? = some 0 ∧ vchTmp.getD (vchTmp.length - 2) 0 ≥ 0x80
    then vchTmp.dropLast else vchTmp
  let nLeadingZeros := (psz.takeWhile (· = pszBase58.getD 0 0)).length
  some (List.replicate nLeadingZeros 0 ++ vchTmp.reverse)

/-- `EncodeBase58Check(vchIn)`: the first four bytes of `Hash(vchIn)`, as they lie in
memory, appended before encoding. -/
def encodeBase58Check (hash : Bytes → BaseUint 8) (vchIn : Bytes) : Bytes :=
  encodeBase58 (vchIn ++ (pnBytes (hash vchIn).pn).take 4)

/-- `DecodeBase58Check(psz, vchRet)`: decode, and check the last four bytes against the
hash of the others. -/
def decodeBase58Check (hash : Bytes → BaseUint 8) (psz : Bytes) : Option Bytes := do
  let vchRet ← decodeBase58 psz
  if vchRet.length < 4 then none
  else
    let body := vchRet.take (vchRet.length - 4)
    if (pnBytes (hash body).pn).take 4 ≠ vchRet.drop (vchRet.length - 4) then none
    else some body

/-! ## The bytes of a number -/

theorem beValue_append_singleton (l : Bytes) (b : UInt8) : beValue (l ++ [b]) = 256 * beValue l + b.toNat := by
  rw [beValue, List.foldl_append]
  rfl

/-- Leading zero bytes do not change the number. -/
theorem beValue_replicate_append : ∀ (z : Nat) (l : Bytes), beValue (List.replicate z 0 ++ l) = beValue l
  | 0, _ => rfl
  | z + 1, l => by
    rw [List.replicate_succ, List.cons_append, beValue, List.foldl_cons, ← beValue_replicate_append z l]
    rfl

theorem bnBytes_zero : bnBytes 0 = [] := by
  rw [bnBytes, if_pos rfl]

theorem bnBytes_of_pos {n : Nat} (h : 0 < n) : bnBytes n = bnBytes (n / 256) ++ [(n % 256).toUInt8] := by
  rw [bnBytes, if_neg (by omega)]

/-- The bytes of a number do not start with zero. -/
theorem head?_bnBytes_ne_zero (n : Nat) : (bnBytes n).head? ≠ some 0 := by
  induction n using Nat.strong_induction_on with
  | _ n ih =>
    rcases Nat.eq_zero_or_pos n with rfl | hn
    · rw [bnBytes_zero]
      simp
    · rw [bnBytes_of_pos hn]
      by_cases hq : n / 256 = 0
      · rw [hq, bnBytes_zero, List.nil_append, List.head?_singleton]
        intro h
        have h' := congrArg UInt8.toNat (Option.some.inj h)
        rw [Nat.toUInt8_eq, UInt8.toNat_ofNat', UInt8.toNat_zero] at h'
        omega
      · have hne : bnBytes (n / 256) ≠ [] := by
          rw [bnBytes_of_pos (by omega)]
          simp
        rw [List.head?_append_of_ne_nil _ hne]
        exact ih _ (by omega)

/-- A byte string that does not start with zero is the bytes of its number. -/
theorem bnBytes_beValue (l : Bytes) (hl : l.head? ≠ some 0) : bnBytes (beValue l) = l := by
  induction l using List.reverseRecOn with
  | nil => rw [beValue, List.foldl_nil, bnBytes_zero]
  | append_singleton l b ih =>
    rw [beValue_append_singleton]
    by_cases hnil : l = []
    · subst hnil
      have hb : b ≠ 0 := fun h => hl (by rw [h]; rfl)
      have hpos : 0 < b.toNat := by
        rcases Nat.eq_zero_or_pos b.toNat with h | h
        · exact absurd (UInt8.toNat_inj.mp (by rw [h, UInt8.toNat_zero])) hb
        · exact h
      rw [beValue, List.foldl_nil, Nat.mul_zero, Nat.zero_add, bnBytes_of_pos hpos,
        Nat.div_eq_of_lt b.toNat_lt, bnBytes_zero, Nat.mod_eq_of_lt b.toNat_lt, Nat.toUInt8_eq, UInt8.ofNat_toNat]
    · have hl' : l.head? ≠ some 0 := by rwa [List.head?_append_of_ne_nil _ hnil] at hl
      have hv := ih hl'
      have hpos : 0 < beValue l := by
        rcases Nat.eq_zero_or_pos (beValue l) with h | h
        · rw [h, bnBytes_zero] at hv
          exact absurd hv.symm hnil
        · exact h
      have hb := b.toNat_lt
      rw [bnBytes_of_pos (by omega), show (256 * beValue l + b.toNat) / 256 = beValue l by omega,
        show (256 * beValue l + b.toNat) % 256 = b.toNat by omega, hv, Nat.toUInt8_eq, UInt8.ofNat_toNat]

/-- `DecodeBase58`'s trim of a sign byte undoes the one `getvch` adds: what is left is the
number's bytes, little-endian. -/
theorem trim_getvch (n : Nat) :
    (if (getvch n).length ≥ 2 ∧ (getvch n).getLast? = some 0 ∧ (getvch n).getD ((getvch n).length - 2) 0 ≥ 0x80
      then (getvch n).dropLast else getvch n) = (bnBytes n).reverse := by
  have hhead := head?_bnBytes_ne_zero n
  unfold getvch bn2mpi
  dsimp only
  generalize bnBytes n = bytes at hhead ⊢
  by_cases htop : bytes.headD 0 ≥ 0x80
  · obtain ⟨b, rest, rfl⟩ : ∃ b rest, bytes = b :: rest := by
      cases bytes with
      | nil => exact absurd htop (by decide)
      | cons b rest => exact ⟨b, rest, rfl⟩
    rw [if_pos htop, List.reverse_cons, List.reverse_cons, if_pos]
    · rw [List.append_assoc, List.singleton_append, List.dropLast_append_of_ne_nil (by simp)]
      rfl
    · refine ⟨by simp, by simp, ?_⟩
      simp only [List.headD_cons] at htop
      simpa [List.getD_eq_getElem?_getD, List.getElem?_append_left, List.getElem?_append_right] using htop
  · rw [if_neg htop, if_neg]
    rintro ⟨-, hlast, -⟩
    rw [List.getLast?_reverse] at hlast
    exact hhead hlast

/-! ## The digits -/

/-- Each character of `pszBase58` is found at its own place, and is not a space. -/
theorem pszBase58_digit : ∀ d < 58,
    pszBase58.idxOf? (pszBase58.getD d 0) = some d ∧ isspace (pszBase58.getD d 0) = false := by
  decide

theorem base58Digits_zero : base58Digits 0 = [] := by
  rw [base58Digits, if_neg (by omega)]

theorem base58Digits_of_pos {n : Nat} (h : 0 < n) :
    base58Digits n = pszBase58.getD (n % 58) 0 :: base58Digits (n / 58) := by
  rw [base58Digits, if_pos h]

/-- Reading the digits of `n`, the most significant first, appends `n` to the number read
so far. The induction follows the conversion loop, on `n / 58`. -/
theorem decodeBase58Loop_digits (n : Nat) : ∀ (bn : Nat) (rest : Bytes),
    decodeBase58Loop bn ((base58Digits n).reverse ++ rest) =
      decodeBase58Loop (bn * 58 ^ (base58Digits n).length + n) rest := by
  induction n using Nat.strong_induction_on with
  | _ n ih =>
    intro bn rest
    rcases Nat.eq_zero_or_pos n with rfl | hn
    · rw [base58Digits_zero, List.reverse_nil, List.nil_append, List.length_nil, pow_zero, Nat.mul_one,
        Nat.add_zero]
    · have hd := (pszBase58_digit (n % 58) (Nat.mod_lt _ (by norm_num))).1
      rw [base58Digits_of_pos hn, List.reverse_cons, List.append_assoc, List.singleton_append,
        ih _ (Nat.div_lt_self hn (by norm_num)), decodeBase58Loop, hd, List.length_cons]
      rw [pow_succ, ← Nat.mul_assoc]
      dsimp only
      congr 1
      omega

/-- Every character written is a digit of `pszBase58`. -/
theorem mem_base58Digits {n : Nat} {c : UInt8} (h : c ∈ base58Digits n) : ∃ d < 58, pszBase58.getD d 0 = c := by
  induction n using Nat.strong_induction_on with
  | _ n ih =>
    rcases Nat.eq_zero_or_pos n with rfl | hn
    · rw [base58Digits_zero] at h
      exact absurd h List.not_mem_nil
    · rw [base58Digits_of_pos hn, List.mem_cons] at h
      rcases h with rfl | h
      · exact ⟨n % 58, Nat.mod_lt _ (by norm_num), rfl⟩
      · exact ih _ (Nat.div_lt_self hn (by norm_num)) h

/-- `'1'`s, the zero digit, leave the number at zero. -/
theorem decodeBase58Loop_ones : ∀ (z : Nat) (rest : Bytes),
    decodeBase58Loop 0 (List.replicate z (pszBase58.getD 0 0) ++ rest) = decodeBase58Loop 0 rest
  | 0, _ => rfl
  | z + 1, rest => by
    rw [List.replicate_succ, List.cons_append, decodeBase58Loop, (pszBase58_digit 0 (by norm_num)).1]
    exact decodeBase58Loop_ones z rest

/-- The most significant digit of a number is not `'1'`, the zero digit. -/
theorem getLast?_base58Digits_ne (n : Nat) : (base58Digits n).getLast? ≠ some (pszBase58.getD 0 0) := by
  induction n using Nat.strong_induction_on with
  | _ n ih =>
    rcases Nat.eq_zero_or_pos n with rfl | hn
    · rw [base58Digits_zero]
      simp
    · rw [base58Digits_of_pos hn]
      by_cases hq : n / 58 = 0
      · rw [hq, base58Digits_zero, List.getLast?_singleton]
        intro h
        have hidx := (pszBase58_digit (n % 58) (Nat.mod_lt _ (by norm_num))).1
        rw [Option.some.inj h, (pszBase58_digit 0 (by norm_num)).1] at hidx
        have h0 := Option.some.inj hidx
        omega
      · have hne : base58Digits (n / 58) ≠ [] := by
          rw [base58Digits_of_pos (by omega)]
          simp
        rw [List.getLast?_cons, List.getLast?_eq_some_getLast hne, Option.getD_some,
          ← List.getLast?_eq_some_getLast hne]
        exact ih _ (Nat.div_lt_self hn (by norm_num))

/-! ## The round trips -/

/-- `setvch` of the reversed bytes after a zero byte is their big-endian number. -/
theorem setvch_reverse_append_zero (input : Bytes) : setvch (input.reverse ++ [0]) = beValue input := by
  rw [setvch, List.reverse_append, List.reverse_reverse, List.reverse_singleton, List.singleton_append,
    mpi2bn, if_neg (by decide), ← beValue_replicate_append 1 input]
  rfl

/-- What `EncodeBase58` writes: a `'1'` for each leading zero byte, then the digits of
the number, the most significant first. -/
theorem encodeBase58_eq (input : Bytes) :
    encodeBase58 input = List.replicate (input.takeWhile (· = 0)).length (pszBase58.getD 0 0) ++
      (base58Digits (beValue input)).reverse := by
  rw [encodeBase58, setvch_reverse_append_zero, Int.toNat_natCast, List.reverse_append, List.reverse_replicate]

/-- The leading zero bytes of a byte string. -/
theorem takeWhile_eq_zero (input : Bytes) :
    input.takeWhile (· = 0) = List.replicate (input.takeWhile (· = 0)).length 0 :=
  List.eq_replicate_iff.mpr ⟨rfl, fun b hb => by simpa using List.mem_takeWhile_imp hb⟩

/-- `DecodeBase58` reads back what `EncodeBase58` writes. -/
theorem decodeBase58_encodeBase58 (input : Bytes) : decodeBase58 (encodeBase58 input) = some input := by
  have hone := (pszBase58_digit 0 (by norm_num)).2
  have htop := getLast?_base58Digits_ne (beValue input)
  have hspace : (encodeBase58 input).dropWhile isspace = encodeBase58 input := by
    rw [encodeBase58_eq]
    cases hz : (input.takeWhile (· = 0)).length with
    | succ z => exact List.dropWhile_cons_of_neg (by rw [hone]; decide)
    | zero =>
      rw [List.replicate_zero, List.nil_append]
      cases hd : (base58Digits (beValue input)).reverse with
      | nil => rfl
      | cons c rest =>
        apply List.dropWhile_cons_of_neg
        have hmem : c ∈ base58Digits (beValue input) := by
          rw [← List.mem_reverse, hd]
          exact List.mem_cons_self
        obtain ⟨d, hd58, rfl⟩ := mem_base58Digits hmem
        rw [(pszBase58_digit d hd58).2]
        decide
  have hloop : decodeBase58Loop 0 (encodeBase58 input) = some (beValue input) := by
    rw [encodeBase58_eq, decodeBase58Loop_ones, ← List.append_nil (base58Digits _).reverse,
      decodeBase58Loop_digits, Nat.zero_mul, Nat.zero_add]
    rfl
  have hzeros : ((encodeBase58 input).takeWhile (· = pszBase58.getD 0 0)).length =
      (input.takeWhile (· = 0)).length := by
    rw [encodeBase58_eq, List.takeWhile_append_of_pos (by simp)]
    cases hd : (base58Digits (beValue input)).reverse with
    | nil => simp
    | cons c rest =>
      rw [List.takeWhile_cons_of_neg, List.append_nil, List.length_replicate]
      intro hc
      apply htop
      rw [← List.head?_reverse, hd, List.head?_cons]
      simpa using hc
  have hbytes : bnBytes (beValue input) = input.dropWhile (· = 0) := by
    conv_lhs => rw [← List.takeWhile_append_dropWhile (p := fun b => decide (b = 0)) (l := input),
      takeWhile_eq_zero, beValue_replicate_append]
    apply bnBytes_beValue
    intro h
    have hnot := List.head?_dropWhile_not (fun b => decide (b = 0)) input
    rw [h] at hnot
    exact absurd hnot (by decide)
  rw [decodeBase58]
  simp only [hspace, hloop, Option.bind_eq_bind, Option.bind_some, trim_getvch, List.reverse_reverse, hzeros,
    hbytes]
  rw [← takeWhile_eq_zero, List.takeWhile_append_dropWhile]

/-- The check bytes are four: `Hash` gives a `uint256` of 32. -/
theorem length_checkBytes (hash : Bytes → BaseUint 8) (vchIn : Bytes) :
    ((pnBytes (hash vchIn).pn).take 4).length = 4 := by
  rw [List.length_take, BaseUint.length_pnBytes, (hash vchIn).length_pn]
  rfl

/-- `DecodeBase58Check` reads back what `EncodeBase58Check` writes. -/
theorem decodeBase58Check_encodeBase58Check (hash : Bytes → BaseUint 8) (vchIn : Bytes) :
    decodeBase58Check hash (encodeBase58Check hash vchIn) = some vchIn := by
  have hlen := length_checkBytes hash vchIn
  rw [decodeBase58Check, encodeBase58Check, decodeBase58_encodeBase58, Option.bind_eq_bind, Option.bind_some]
  have hsplit : (vchIn ++ (pnBytes (hash vchIn).pn).take 4).length - 4 = vchIn.length := by
    rw [List.length_append, hlen, Nat.add_sub_cancel]
  rw [hsplit, List.take_left, List.drop_left, if_neg (by simp [hlen]), if_neg (not_not.mpr rfl)]

/-- Both decoders give back what the encoders were given. -/
theorem base58_round_trip (hash : Bytes → BaseUint 8) (b : Bytes) :
    decodeBase58 (encodeBase58 b) = some b ∧ decodeBase58Check hash (encodeBase58Check hash b) = some b :=
  ⟨decodeBase58_encodeBase58 b, decodeBase58Check_encodeBase58Check hash b⟩

end Twister
