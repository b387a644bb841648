import Twister.Chain.Connect

/-!
# The username registry of a chain

What the index is for, stated over chains of blocks: the registrations of a
chain, the latest one of a username, and the rule by which a block would be
judged on its own ancestors. Against these stand the node's `ConnectBlock`,
`GetTransaction` and `GetNamesFromPartial`, which consult state that the node's
history has written: blocks of a branch being abandoned still count as main
chain while `SetBestChain` runs, index writes of a failed switch stay, and no
step removes a name from the partial-name records.
-/

namespace Twister.Chain

open Bencode

/-- The registrations of a chain of blocks, oldest first: every transaction that
is not a spam message. -/
def registrations (blocks : List Block) : List Tx :=
  blocks.flatMap fun b => b.vtx.filter fun tx => !tx.isSpamMessage

/-- The latest registration of a username in a chain of blocks. -/
def latestRegistration (blocks : List Block) (u : Bytes) : Option Tx :=
  ((registrations blocks).filter fun tx => tx.getUsername = u).getLast?

/-- A spam message's signature, its second push, recovers to the key of a
registration's first push. -/
def spamSignatureOk (env : ChainEnv) (reg spam : Tx) : Bool :=
  let strSign := extractPushDataString spam.userName 1
  !strSign.isEmpty &&
    match extractPushData reg.pubKey, env.recoverSpam spam.message strSign with
    | some (key :: _), some id => id = env.keyId key
    | _, _ => false

/-- The refusal rule judged on a block's ancestors alone: a registration of a
name registered among the ancestors that is neither the latest such registration
nor a key replacement signed by it, or a spam message whose signer, other than
`nobody`, has no registration among the ancestors or a latest key that does not
verify the spam signature. -/
def ancestorRejects (env : ChainEnv) (ancestors : List Block) (block : Block) : Bool :=
  block.vtx.any (fun tx => !tx.isSpamMessage &&
    match latestRegistration ancestors tx.getUsername with
    | some old => old ≠ tx && !isKeyReplacement env old tx
    | none => false) ||
  match block.vtx with
  | [] => false
  | spam :: _ =>
    let spamUser := extractPushDataString spam.userName 0
    spamUser ≠ bytesOf "nobody" &&
      match latestRegistration ancestors spamUser with
      | none => true
      | some reg => !spamSignatureOk env reg spam

/-- The latest registration of a username in the node's main chain up to height
`H`, with its block. -/
def mainChainRegistration (t : BlockTree) (node : Node) (u : Bytes) (H : Nat) :
    Option (Tx × BlockId) :=
  let chain := (node.byHeight.take (H + 1)).filterMap id
  (chain.flatMap fun b =>
    (((t.get? b).map fun block =>
      block.vtx.filter fun tx => !tx.isSpamMessage && tx.getUsername = u).getD []).map (·, b)).getLast?

/-- The usernames of the blocks a node connected, in order. -/
def connectedNames (t : BlockTree) (connected : List BlockId) : List Bytes :=
  connected.flatMap (blockNames t)

/-- The partial-name records after any history list, without repetition,
`min count k` names under a non-empty prefix, from the usernames of the blocks
connected on the way, where `k` is how many of those are under the prefix;
blocks disconnected since keep their names. -/
theorem getNamesFromPartial_runChain (env : ChainEnv) (t : BlockTree) (history : List BlockId)
    {p : Bytes} (hp : p ≠ []) (count : Nat) :
    (getNamesFromPartial (runChain env t {} history).1.nameTree p [] count).Nodup ∧
      (∀ n ∈ getNamesFromPartial (runChain env t {} history).1.nameTree p [] count,
        n ∈ connectedNames t (runChain env t {} history).2 ∧ p <+: n) ∧
      (getNamesFromPartial (runChain env t {} history).1.nameTree p [] count).length =
        min count (namesUnder (connectedNames t (runChain env t {} history).2).toFinset p).card := by
  obtain ⟨hnt, hcheck⟩ := runChain_nameTree env t {} history
  have hvalid : ∀ n ∈ connectedNames t (runChain env t {} history).2, ValidName n := by
    intro n hn
    obtain ⟨b, hb, hnb⟩ := List.mem_flatMap.mp hn
    exact validName_of_checkUsername (hcheck b hb n hnb)
  have htrie : IsTrieOf (runChain env t {} history).1.nameTree
      (connectedNames t (runChain env t {} history).2).toFinset := by
    have h := isTrieOf_foldl_addName hvalid isTrieOf_nil
    rw [Finset.empty_union] at h
    rw [hnt]
    exact h
  obtain ⟨hnd, hmem, hlen⟩ :=
    getNamesFromPartial_spec htrie (fun n hn => hvalid n (List.mem_toFinset.mp hn)) hp count
  exact ⟨hnd, fun n hn => ⟨List.mem_toFinset.mp (hmem n hn).1, (hmem n hn).2⟩, hlen⟩

/-- The checks that do not rest on the chain all pass, and no signature recovers
a key. -/
def registryEnv : ChainEnv where
  checkProofs _ := true
  recoverSpam _ _ := none
  recoverNewKey _ _ := none
  keyId _ := 0

/-- A spam message signed by `nobody`. -/
def nobodySpam : Tx := { message := pushAll [bytesOf "spam"], userName := pushAll [bytesOf "nobody"] }

/-- A spam message signed by `bob`, who never registered. -/
def bobSpam : Tx := { message := pushAll [bytesOf "spam"], userName := pushAll [bytesOf "bob", [66]] }

/-- A registration of `u` with key `[1]`. -/
def registerU : Tx := { userName := pushData (bytesOf "u"), pubKey := pushAll [[1]] }

/-- Another registration of `u`, with key `[2]` and no signature by the first key. -/
def registerU' : Tx := { userName := pushData (bytesOf "u"), pubKey := pushAll [[2]] }

/-- Genesis `0`; block `1` registers `u` on it; block `2`, beside it, registers
`u` otherwise, and block `3` extends `2`; blocks `21` and `22` are a third
branch without registrations. -/
def forkTree : BlockTree where
  genesis := 0
  blocks := [(0, ⟨none, 0, [nobodySpam]⟩), (1, ⟨some 0, 1, [nobodySpam, registerU]⟩),
    (2, ⟨some 0, 1, [nobodySpam, registerU']⟩), (3, ⟨some 2, 2, [nobodySpam]⟩),
    (21, ⟨some 0, 1, [nobodySpam]⟩), (22, ⟨some 21, 2, [nobodySpam]⟩)]

theorem getNamesFromPartial_runChain_fork :
    bytesOf "u" ≠ [] ∧
      (getNamesFromPartial (runChain registryEnv forkTree {} [0, 1, 22]).1.nameTree
          (bytesOf "u") [] 10).Nodup ∧
      (∀ n ∈ getNamesFromPartial (runChain registryEnv forkTree {} [0, 1, 22]).1.nameTree
          (bytesOf "u") [] 10,
        n ∈ connectedNames forkTree (runChain registryEnv forkTree {} [0, 1, 22]).2 ∧
          bytesOf "u" <+: n) ∧
      (getNamesFromPartial (runChain registryEnv forkTree {} [0, 1, 22]).1.nameTree
          (bytesOf "u") [] 10).length =
        min 10 (namesUnder (connectedNames forkTree
          (runChain registryEnv forkTree {} [0, 1, 22]).2).toFinset (bytesOf "u")).card :=
  ⟨by decide, getNamesFromPartial_runChain registryEnv forkTree [0, 1, 22] (by decide) 10⟩

/-- A node that switched from block `1` to block `22` lists `u` under the prefix
`u` though its main chain has no registration of `u`. -/
theorem getNamesFromPartial_keeps_disconnected :
    (runChain registryEnv forkTree {} [0, 1, 22]).1.best = some 22 ∧
      mainChainRegistration forkTree (runChain registryEnv forkTree {} [0, 1, 22]).1
        (bytesOf "u") 2 = none ∧
      getNamesFromPartial (runChain registryEnv forkTree {} [0, 1, 22]).1.nameTree
        (bytesOf "u") [] 10 = [bytesOf "u"] := by
  decide

/-- Node A connects block `1`, node B does not. Switching to block `3`, node A
refuses block `2` as an overwrite: block `1` still counts as main chain while the
switch runs. Judged on its own ancestor, the genesis block, block `2` is fine, and
node B connects it and block `3`. -/
theorem connectBlock_rejects_by_history :
    (setBestChain registryEnv forkTree (runChain registryEnv forkTree {} [0, 1]).1 3).error =
        some (.connectFailed 2 .overwrite) ∧
      ancestorRejects registryEnv [⟨none, 0, [nobodySpam]⟩] ⟨some 0, 1, [nobodySpam, registerU']⟩ =
        false ∧
      (runChain registryEnv forkTree {} [0, 1, 3]).1.best = some 1 ∧
      (runChain registryEnv forkTree {} [0, 3]).1.best = some 3 := by
  decide

/-- Main chain `0-1-2-3` with `u` registered in block `1`; a branch from block `1`
repeats that registration in block `12`, has a spam message of an unknown signer
in block `13`, and ends in block `14`. -/
def reorgTree : BlockTree where
  genesis := 0
  blocks := [(0, ⟨none, 0, [nobodySpam]⟩), (1, ⟨some 0, 1, [nobodySpam, registerU]⟩),
    (2, ⟨some 1, 2, [nobodySpam]⟩), (3, ⟨some 2, 3, [nobodySpam]⟩),
    (12, ⟨some 1, 2, [nobodySpam, registerU]⟩), (13, ⟨some 12, 3, [bobSpam]⟩),
    (14, ⟨some 13, 4, [nobodySpam]⟩)]

/-- The switch to block `14` fails at block `13` after block `12` has moved
`(u, -1)` to itself; the node stays on block `3`, whose chain registers `u` in
block `1`, and `GetTransaction(u, 3)` finds nothing. -/
theorem getTransaction_after_failed_reorg :
    (setBestChain registryEnv reorgTree (runChain registryEnv reorgTree {} [0, 3]).1 14).error =
        some (.connectFailed 13 .spamUnknownUser) ∧
      (runChain registryEnv reorgTree {} [0, 3, 14]).1.best = some 3 ∧
      mainChainRegistration reorgTree (runChain registryEnv reorgTree {} [0, 3, 14]).1
        (bytesOf "u") 3 = some (registerU, 1) ∧
      getTransaction reorgTree (runChain registryEnv reorgTree {} [0, 3, 14]).1 (bytesOf "u") 3 =
        none := by
  decide

end Twister.Chain
