import Twister.Chain.Script
import Twister.Bencode.Decode

/-!
# Transactions, blocks and the block tree

A twister transaction registers a username with a public key (or replaces the
key); the first transaction of a block is instead the spam message of the miner,
signed by the user it names unless that user is `nobody` (core.h, main.cpp).
`CheckTransaction` and `CheckBlock` are the checks that do not depend on the
chain; their proof-of-work, time, size, UTF-8 and merkle-root parts rest on hashes
and clocks and are the parameter `ChainEnv.checkProofs`, as the public-key
recovery of signatures is `ChainEnv.recoverSpam` and `ChainEnv.recoverNewKey`.

Blocks are named by their hash, `BlockId`; transaction hashes are taken to be
injective, so that two transactions with one hash are equal.
-/

namespace Twister.Chain

open Bencode

/-- `CTransaction`. -/
structure Tx where
  nVersion : Int32 := 1
  message : Script := []
  userName : Script
  pubKey : Script := []
  nNonce : UInt32 := 0
  deriving DecidableEq, Repr

/-- `IsSpamMessage()`: a transaction with a message is the block's spam message. -/
def Tx.isSpamMessage (tx : Tx) : Bool := !tx.message.isEmpty

/-- `GetUsername()`: the username of a small-string `userName`, or the empty string. -/
def Tx.getUsername (tx : Tx) : Bytes :=
  if isSmallString tx.userName then extractSmallString tx.userName else []

/-- `MAX_USERNAME_SIZE`. -/
def maxUsernameSize : Nat := 16

/-- `islower` in the C locale. -/
def isLower (c : UInt8) : Bool := 97 ≤ c && c ≤ 122

/-- `CheckUsername`: one to sixteen characters, each a lowercase letter, a digit
or an underscore. -/
def checkUsername (userName : Bytes) : Bool :=
  !userName.isEmpty && userName.length ≤ 16 &&
    userName.all fun c =>
      if isAlpha c then isLower c
      else if isDigit c then true
      else if isSpace c then false
      else c = 95

/-- `CheckTransaction` without its encoding, size and proof-of-work parts: a spam
message needs a message and a spam user of at most `MAX_USERNAME_SIZE` bytes;
a registration needs a username and a key, and a small-string username that
passes `CheckUsername`. -/
def checkTransaction (tx : Tx) : Bool :=
  if tx.isSpamMessage then
    let spamUser := extractPushDataString tx.userName 0
    !(extractPushDataString tx.message 0).isEmpty && !spamUser.isEmpty &&
      spamUser.length ≤ maxUsernameSize
  else
    !tx.userName.isEmpty && !tx.pubKey.isEmpty && isSmallString tx.userName &&
      checkUsername (extractSmallString tx.userName)

/-- A block hash. -/
abbrev BlockId := Nat

/-- `CBlock`: the header fields the chain code reads, and the transactions. The
genesis block has no previous block. -/
structure Block where
  hashPrevBlock : Option BlockId
  nHeight : Nat
  vtx : List Tx
  deriving DecidableEq, Repr

/-- What the chain code reads besides its state: the parts of `CheckBlock` and
`CheckTransaction` on proof of work, time, sizes, message encoding and the merkle
root; the key id `RecoverCompact` recovers from a spam signature over the spam
message, and from a key-replacement signature over the new key; and
`CPubKey(v).GetID()`. -/
structure ChainEnv where
  checkProofs : Block → Bool
  recoverSpam : Script → Bytes → Option Nat
  recoverNewKey : Bytes → Bytes → Option Nat
  keyId : Bytes → Nat

/-- `CheckBlock`: a spam message first and only first, every transaction checked,
no transaction twice and no username twice. -/
def checkBlock (env : ChainEnv) (block : Block) : Bool :=
  env.checkProofs block &&
    (match block.vtx with
      | [] => false
      | tx :: rest => tx.isSpamMessage && rest.all fun tx => !tx.isSpamMessage) &&
    block.vtx.all checkTransaction &&
    decide block.vtx.Nodup &&
    decide ((block.vtx.drop 1).map Tx.getUsername).Nodup

/-- The usernames a block registers, in order: those of its transactions other
than the spam message. -/
def Block.usernames (block : Block) : List Bytes :=
  (block.vtx.filter fun tx => !tx.isSpamMessage).map Tx.getUsername

/-- `mapBlockIndex` with the blocks stored on disk, and
`Params().HashGenesisBlock()`. -/
structure BlockTree where
  blocks : List (BlockId × Block)
  genesis : BlockId

namespace BlockTree

variable (t : BlockTree)

/-- The block of a hash. -/
def get? (id : BlockId) : Option Block := OrdMap.find? id t.blocks

/-- `pprev`. -/
def prev (id : BlockId) : Option BlockId := (t.get? id).bind (·.hashPrevBlock)

/-- `nHeight`. -/
def height (id : BlockId) : Nat := ((t.get? id).map (·.nHeight)).getD 0

/-- Enough steps for any walk along `pprev` links of a tree without cycles. -/
def fuel : Nat := t.blocks.length + 1

end BlockTree

/-- Every username that `CheckBlock` lets into a block passes `CheckUsername`. -/
theorem checkUsername_of_checkBlock {env : ChainEnv} {block : Block}
    (h : checkBlock env block = true) : ∀ u ∈ block.usernames, checkUsername u = true := by
  intro u hu
  simp only [Block.usernames, List.mem_map, List.mem_filter] at hu
  obtain ⟨tx, ⟨hmem, hspam⟩, rfl⟩ := hu
  simp only [checkBlock, Bool.and_eq_true, List.all_eq_true] at h
  obtain ⟨⟨⟨-, hall⟩, -⟩, -⟩ := h
  have htx := hall tx hmem
  simp only [Bool.not_eq_eq_eq_not, Bool.not_true] at hspam
  simp only [checkTransaction, hspam, Bool.false_eq_true, if_false, Bool.and_eq_true] at htx
  simp [Tx.getUsername, htx.1.2, htx.2]

end Twister.Chain
