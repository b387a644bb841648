import Twister.Bencode.Entry

/-!
# Transaction scripts

A twister transaction keeps its spam message, username and public key in
`CScript`s (script.h), and the node reads them only as data pushes: `GetOp2`
reads one operation with the bytes it pushes, `ExtractPushData` the pushes of a
script made of pushes alone, and `IsSmallString` / `ExtractSmallString` a script
that is one short push, as a username is. Scripts are written with
`CScript::operator<<` on a byte vector, `pushData` here; the lemmas at the end
say that reading a written script gives back what was pushed.
-/

namespace Twister.Chain

/-- `CScript`: its bytes. -/
abbrev Script := Bytes

/-- `OP_PUSHDATA1`. -/
def opPushdata1 : UInt8 := 76

/-- `OP_PUSHDATA2`. -/
def opPushdata2 : UInt8 := 77

/-- `OP_PUSHDATA4`. -/
def opPushdata4 : UInt8 := 78

/-- `OP_16`, the last opcode `ExtractPushData` accepts. -/
def op16 : UInt8 := 96

/-- A little-endian number, as `memcpy` into an `unsigned int` reads it. -/
def leValue : Bytes → Nat
  | [] => 0
  | b :: bs => b.toNat + 256 * leValue bs

/-- The `w` little-endian bytes of a number. -/
def leBytes : Nat → Nat → Bytes
  | 0, _ => []
  | w + 1, n => (n % 256).toUInt8 :: leBytes w (n / 256)

/-- How many length bytes follow a push opcode. -/
def lengthWidth (opcode : UInt8) : Nat :=
  if opcode < opPushdata1 then 0
  else if opcode = opPushdata1 then 1
  else if opcode = opPushdata2 then 2
  else 4

/-- `GetOp2(pc, opcode, &vch)` at the start of `script`: the opcode, the bytes it
pushes (none for an opcode above `OP_PUSHDATA4`) and the rest of the script;
`none` at the end of the script or when a length or the data runs past it. -/
def getOp2 : Script → Option (UInt8 × Bytes × Script)
  | [] => none
  | opcode :: rest =>
    if opcode ≤ opPushdata4 then
      let width := lengthWidth opcode
      if rest.length < width then none
      else
        let nSize := if opcode < opPushdata1 then opcode.toNat else leValue (rest.take width)
        let rest := rest.drop width
        if rest.length < nSize then none
        else some (opcode, rest.take nSize, rest.drop nSize)
    else some (opcode, [], rest)

/-- The loop of `ExtractPushData`: read operations up to the end of the script,
failing on an operation that cannot be read or that is not a push (above `OP_16`).
Every operation takes at least one byte, so the script's length is enough fuel. -/
def extractPushDataLoop : Nat → Script → Option (List Bytes)
  | _, [] => some []
  | 0, _ :: _ => none
  | fuel + 1, pc@(_ :: _) =>
    match getOp2 pc with
    | none => none
    | some (opcode, vch, rest) =>
      if opcode > op16 then none
      else (extractPushDataLoop fuel rest).map (vch :: ·)

/-- `ExtractPushData(vData)`. -/
def extractPushData (script : Script) : Option (List Bytes) :=
  extractPushDataLoop script.length script

/-- `ExtractPushDataString(n)`: the `n`-th push, or the empty string. -/
def extractPushDataString (script : Script) (n : Nat) : Bytes :=
  match extractPushData script with
  | some vData => vData.getD n []
  | none => []

/-- `IsSmallString()`: a single push of fewer than `OP_PUSHDATA1` bytes that fills
the script. -/
def isSmallString : Script → Bool
  | [] => false
  | opSize :: rest => opSize < opPushdata1 && rest.length == opSize.toNat

/-- `ExtractSmallString()`: the pushed bytes of a small string, or the empty string. -/
def extractSmallString : Script → Bytes
  | [] => []
  | opSize :: rest => if isSmallString (opSize :: rest) then rest.take opSize.toNat else []

/-- `CScript::operator<<(const std::vector<unsigned char>&)`: the shortest length
prefix, then the bytes. -/
def pushData (b : Bytes) : Script :=
  (if b.length < opPushdata1.toNat then [b.length.toUInt8]
    else if b.length ≤ 0xff then [opPushdata1, b.length.toUInt8]
    else if b.length ≤ 0xffff then opPushdata2 :: leBytes 2 b.length
    else opPushdata4 :: leBytes 4 b.length) ++ b

/-- A script written as a sequence of pushes, `CScript() << b₁ << b₂ << ...`. -/
def pushAll (bs : List Bytes) : Script := (bs.map pushData).flatten

@[simp] theorem leBytes_length (w n : Nat) : (leBytes w n).length = w := by
  induction w generalizing n with
  | zero => rfl
  | succ w ih => simp [leBytes, ih]

theorem leValue_leBytes (w n : Nat) (hn : n < 256 ^ w) : leValue (leBytes w n) = n := by
  induction w generalizing n with
  | zero => simp at hn; simp [leBytes, leValue, hn]
  | succ w ih =>
    have hdiv : n / 256 < 256 ^ w := by
      rw [Nat.div_lt_iff_lt_mul (by decide)]
      simpa [Nat.pow_succ] using hn
    have hbyte : ((n % 256).toUInt8).toNat = n % 256 := by
      simp [Nat.toUInt8]
    simp only [leBytes, leValue, hbyte, ih (n / 256) hdiv]
    omega

/-- Every operation `GetOp2` reads takes at least one byte. -/
theorem getOp2_rest_length {script rest : Script} {opcode : UInt8} {vch : Bytes}
    (h : getOp2 script = some (opcode, vch, rest)) : rest.length < script.length := by
  match script with
  | [] => simp [getOp2] at h
  | op :: tail =>
    simp only [getOp2] at h
    split_ifs at h <;>
      · obtain ⟨-, -, rfl⟩ := h
        simp only [List.length_drop, List.length_cons]
        omega

/-- Any fuel of at least the script's length gives the same result. -/
theorem extractPushDataLoop_congr {fuel fuel' : Nat} {script : Script}
    (h : script.length ≤ fuel) (h' : script.length ≤ fuel') :
    extractPushDataLoop fuel script = extractPushDataLoop fuel' script := by
  induction fuel generalizing fuel' script with
  | zero =>
    match script with
    | [] => cases fuel' <;> rfl
    | _ :: _ => simp at h
  | succ fuel ih =>
    match script, fuel' with
    | [], fuel' => cases fuel' <;> rfl
    | _ :: _, 0 => simp at h'
    | b :: tail, fuel' + 1 =>
      simp only [extractPushDataLoop]
      cases hop : getOp2 (b :: tail) with
      | none => rfl
      | some r =>
        obtain ⟨opcode, vch, rest⟩ := r
        have hrest := getOp2_rest_length hop
        simp only [List.length_cons] at h h' hrest
        dsimp only
        rw [@ih fuel' rest (by omega) (by omega)]

/-- More fuel than the script's length changes nothing. -/
theorem extractPushDataLoop_fuel {fuel : Nat} {script : Script} (h : script.length ≤ fuel) :
    extractPushDataLoop fuel script = extractPushData script :=
  extractPushDataLoop_congr h (Nat.le_refl _)

/-- A push opcode, its length bytes and its data are read back as that data. -/
theorem getOp2_cons_push (opcode : UInt8) (hdr b rest : Bytes) (hop : opcode ≤ opPushdata4)
    (hwidth : hdr.length = lengthWidth opcode)
    (hsize : (if opcode < opPushdata1 then opcode.toNat else leValue hdr) = b.length) :
    getOp2 (opcode :: (hdr ++ (b ++ rest))) = some (opcode, b, rest) := by
  have htake : (hdr ++ (b ++ rest)).take (lengthWidth opcode) = hdr := by
    rw [← hwidth, List.take_left]
  have hdrop : (hdr ++ (b ++ rest)).drop (lengthWidth opcode) = b ++ rest := by
    rw [← hwidth, List.drop_left]
  simp only [getOp2, hop, if_true, htake, hdrop, hsize]
  simp [hwidth]

theorem toNat_toUInt8_of_lt {n : Nat} (h : n < 256) : n.toUInt8.toNat = n := by
  simp [Nat.toUInt8, Nat.mod_eq_of_lt h]

/-- What `operator<<` writes, `GetOp2` reads back: some push opcode and the bytes,
for data shorter than `2^32` bytes (the widest length field). -/
theorem getOp2_pushData {b : Bytes} (rest : Bytes) (hb : b.length < 2 ^ 32) :
    ∃ opcode, opcode ≤ opPushdata4 ∧ getOp2 (pushData b ++ rest) = some (opcode, b, rest) := by
  unfold pushData
  split_ifs with h1 h2 h3
  · change b.length < 76 at h1
    have hlen : b.length.toUInt8.toNat = b.length := toNat_toUInt8_of_lt (by omega)
    have hsmall : b.length.toUInt8 < opPushdata1 := by
      rw [UInt8.lt_iff_toNat_lt, hlen]; exact h1
    have hop : b.length.toUInt8 ≤ opPushdata4 := by
      rw [UInt8.le_iff_toNat_le, hlen]; change b.length ≤ 78; omega
    refine ⟨_, hop, ?_⟩
    simpa using getOp2_cons_push _ [] b rest hop (by simp [lengthWidth, hsmall])
      (by simp [hsmall, hlen])
  · have hlen : b.length.toUInt8.toNat = b.length := toNat_toUInt8_of_lt (by omega)
    refine ⟨opPushdata1, by decide, ?_⟩
    simpa using getOp2_cons_push opPushdata1 [b.length.toUInt8] b rest (by decide)
      rfl (by simp [leValue, hlen, opPushdata1])
  · have hvalue := leValue_leBytes 2 b.length (by simp only [Nat.reducePow]; omega)
    refine ⟨opPushdata2, by decide, ?_⟩
    simpa using getOp2_cons_push opPushdata2 (leBytes 2 b.length) b rest (by decide)
      (by simp; decide) (by simp [opPushdata2, opPushdata1, hvalue])
  · have hvalue := leValue_leBytes 4 b.length (by simp only [Nat.reducePow] at hb ⊢; omega)
    refine ⟨opPushdata4, by decide, ?_⟩
    simpa using getOp2_cons_push opPushdata4 (leBytes 4 b.length) b rest (by decide)
      (by simp; decide) (by simp [opPushdata4, opPushdata1, hvalue])

@[simp] theorem pushAll_cons (b : Bytes) (bs : List Bytes) :
    pushAll (b :: bs) = pushData b ++ pushAll bs := rfl

theorem pushData_ne_nil (b : Bytes) : pushData b ≠ [] := by
  unfold pushData
  split_ifs <;> simp

/-- A script written as pushes reads back, through `ExtractPushData`, as the
pushed data. -/
theorem extractPushData_pushAll {bs : List Bytes} (hbs : ∀ b ∈ bs, b.length < 2 ^ 32) :
    extractPushData (pushAll bs) = some bs := by
  rw [← extractPushDataLoop_fuel (Nat.le_refl _)]
  suffices h : ∀ fuel, (pushAll bs).length ≤ fuel → extractPushDataLoop fuel (pushAll bs) = some bs from
    h _ (Nat.le_refl _)
  induction bs with
  | nil => intro fuel _; cases fuel <;> rfl
  | cons b bs ih =>
    intro fuel hfuel
    obtain ⟨opcode, hop, hget⟩ := getOp2_pushData (pushAll bs) (hbs b (by simp))
    have hrest := getOp2_rest_length hget
    obtain ⟨x, xs, hx⟩ : ∃ x xs, pushData b ++ pushAll bs = x :: xs := by
      cases h : pushData b with
      | nil => exact absurd h (pushData_ne_nil b)
      | cons x xs => exact ⟨x, xs ++ pushAll bs, rfl⟩
    have hpush : ¬ opcode > op16 := by
      rw [UInt8.le_iff_toNat_le] at hop
      rw [gt_iff_lt, UInt8.lt_iff_toNat_lt]
      change ¬ 96 < opcode.toNat
      change opcode.toNat ≤ 78 at hop
      omega
    rw [pushAll_cons] at hfuel ⊢
    rw [hx] at hfuel hget hrest ⊢
    cases fuel with
    | zero => simp at hfuel
    | succ fuel =>
      simp only [List.length_cons] at hfuel hrest
      simp only [extractPushDataLoop, hget, hpush, if_false,
        ih (fun b' hb' => hbs b' (by simp [hb'])) fuel (by omega), Option.map_some]

/-- The `n`-th push of a written script is the `n`-th pushed item. -/
theorem extractPushDataString_pushAll {bs : List Bytes} (hbs : ∀ b ∈ bs, b.length < 2 ^ 32)
    (n : Nat) : extractPushDataString (pushAll bs) n = bs.getD n [] := by
  simp [extractPushDataString, extractPushData_pushAll hbs]

/-- A push of fewer than `OP_PUSHDATA1` bytes is a small string, and reads back. -/
theorem extractSmallString_pushData {b : Bytes} (hb : b.length < 76) :
    isSmallString (pushData b) = true ∧ extractSmallString (pushData b) = b := by
  have hlen : b.length.toUInt8.toNat = b.length := toNat_toUInt8_of_lt (by omega)
  have hsmall : b.length.toUInt8 < opPushdata1 := by
    rw [UInt8.lt_iff_toNat_lt, hlen]; exact hb
  have hpush : pushData b = b.length.toUInt8 :: b := by
    simp [pushData, opPushdata1, hb]
  simp [hpush, isSmallString, extractSmallString, hsmall, hlen]

/-- A small string is exactly one direct push of fewer than `OP_PUSHDATA1` bytes. -/
theorem eq_pushData_of_isSmallString {script : Script} (h : isSmallString script = true) :
    ∃ b : Bytes, b.length < 76 ∧ script = pushData b := by
  match script with
  | [] => simp [isSmallString] at h
  | opSize :: rest =>
    simp only [isSmallString, Bool.and_eq_true, decide_eq_true_eq, beq_iff_eq] at h
    obtain ⟨hsmall, hlen⟩ := h
    have hop : opSize.toNat < 76 := by
      rw [UInt8.lt_iff_toNat_lt] at hsmall
      exact hsmall
    have hrest : rest.length < 76 := by omega
    refine ⟨rest, hrest, ?_⟩
    have hbyte : rest.length.toUInt8 = opSize := by
      rw [hlen]
      exact UInt8.ofNat_toNat
    simp [pushData, opPushdata1, hrest, hbyte]

/-- Pushes written by `operator<<` read back through `ExtractPushData`; a push of
fewer than `OP_PUSHDATA1` bytes is a small string and reads back through
`ExtractSmallString`; and a script that is no such push is not a small string. -/
theorem pushData_round_trip :
    (∀ bs : List Bytes, (∀ b ∈ bs, b.length < 2 ^ 32) → extractPushData (pushAll bs) = some bs) ∧
      (∀ b : Bytes, b.length < 76 →
        isSmallString (pushData b) = true ∧ extractSmallString (pushData b) = b) ∧
      (∀ script : Script, (¬ ∃ b : Bytes, b.length < 76 ∧ script = pushData b) →
        isSmallString script = false) := by
  refine ⟨fun bs hbs => extractPushData_pushAll hbs, fun b hb => extractSmallString_pushData hb,
    fun script hnot => ?_⟩
  cases hsmall : isSmallString script with
  | false => rfl
  | true => exact absurd (eq_pushData_of_isSmallString hsmall) hnot

end Twister.Chain
