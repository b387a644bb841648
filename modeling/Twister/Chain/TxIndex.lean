import Twister.Chain.NameTree

/-!
# The username transaction index

Twister keeps no coins: the chain state is the index from usernames to their
registrations (main.cpp). A registration of `u` is written under the key
`(u, -1)`; when a later block re-registers `u` (a duplicate after an unclean
shutdown, or a key replacement), the previous position is kept under `(u, h-1)`,
with `h` the height of the new block. `GetTransaction(u, maxHeight)` starts at
`(u, -1)` and follows these links back while the block it finds is above
`maxHeight`, giving up when a block is not in the main chain.

`verifyDuplicateOrReplacementTx` accepts a transaction that is the registration
`GetTransaction` finds, or that carries the new key signed by that
registration's key; with `removeOrphan`, when `GetTransaction` finds nothing it
erases a stale `(u, -1)` and accepts.
-/

namespace Twister.Chain

/-- The key `SerializeHash(make_pair(username, height))` of the transaction
index; hashes are taken to be injective, so the pair stands for its hash. -/
structure TxKey where
  username : Bytes
  height : Int
  deriving DecidableEq, Repr

instance : LT TxKey :=
  ⟨fun a b => a.username < b.username ∨ (a.username = b.username ∧ a.height < b.height)⟩

instance : DecidableRel (α := TxKey) (· < ·) := fun a b =>
  inferInstanceAs (Decidable (a.username < b.username ∨ (a.username = b.username ∧ a.height < b.height)))

/-- `CDiskTxPos`: where a transaction is stored, as its block and its index there. -/
structure TxPos where
  block : BlockId
  index : Nat
  deriving DecidableEq, Repr

/-- What the chain code keeps: in `CBlockTreeDB`, the transaction index and the
partial-name records, whose writes are not undone when `SetBestChain` fails; the
failure flags of block index entries; `vBlockIndexByHeight`; and the best block
with `nBestHeight`. -/
structure Node where
  txIndex : List (TxKey × TxPos) := []
  nameTree : NameTree := []
  failed : List BlockId := []
  byHeight : List (Option BlockId) := []
  best : Option BlockId := none
  bestHeight : Int := -1
  deriving Repr

/-- `CBlockIndex::IsInMainChain()`: the block stands at its height in
`vBlockIndexByHeight`. -/
def Node.isInMainChain (node : Node) (id : BlockId) (nHeight : Nat) : Bool :=
  node.byHeight[nHeight]? == some (some id)

/-- The loop of `GetTransaction`: read the position under `(username, height)`,
the block and the transaction there; fail on a missing key or block or a
username mismatch, stop at a block outside the main chain, return a block at most
`maxHeight` high, and otherwise continue from the key below that block while
`height > 0 && height >= maxHeight`. A walk that reads a key twice never ends in
the source; one that does not reads each key at most once, so one step more than
there are index entries is enough fuel. -/
def getTransactionLoop (t : BlockTree) (node : Node) (username : Bytes) (maxHeight : Int) :
    Nat → Int → Option (Tx × BlockId)
  | 0, _ => none
  | fuel + 1, height =>
    match OrdMap.find? ⟨username, height⟩ node.txIndex with
    | none => none
    | some postx =>
      match t.get? postx.block with
      | none => none
      | some header =>
        match header.vtx[postx.index]? with
        | none => none
        | some txOut =>
          if txOut.getUsername ≠ username then none
          else if !node.isInMainChain postx.block header.nHeight then none
          else if (header.nHeight : Int) > maxHeight then
            let height := (header.nHeight : Int) - 1
            if height > 0 ∧ height ≥ maxHeight then
              getTransactionLoop t node username maxHeight fuel height
            else none
          else some (txOut, postx.block)

/-- `GetTransaction(username, tx, hashBlock, maxHeight)`: the registration and its
block, where a negative `maxHeight` means `nBestHeight`. -/
def getTransaction (t : BlockTree) (node : Node) (username : Bytes) (maxHeight : Int) :
    Option (Tx × BlockId) :=
  let maxHeight := if maxHeight < 0 then node.bestHeight else maxHeight
  getTransactionLoop t node username maxHeight (node.txIndex.length + 1) (-1)

/-- The key-replacement test of `verifyDuplicateOrReplacementTx`: the new
`pubKey` pushes a key and a signature over it from which `RecoverCompact` gets
the key id of the old registration's first push. -/
def isKeyReplacement (env : ChainEnv) (oldTx tx : Tx) : Bool :=
  match extractPushData tx.pubKey with
  | some (newKey :: sig :: _) =>
    match env.recoverNewKey newKey sig, extractPushData oldTx.pubKey with
    | some id, some (oldKey :: _) => id = env.keyId oldKey
    | _, _ => false
  | _ => false

/-- `verifyDuplicateOrReplacementTx(tx, checkDuplicate, checkReplacement,
maxHeight, removeOrphan)`: the node, changed only by the erasure of an orphan
`(u, -1)`, and the verdict. -/
def verifyDuplicateOrReplacementTx (env : ChainEnv) (t : BlockTree) (node : Node) (tx : Tx)
    (checkDuplicate checkReplacement : Bool) (maxHeight : Int) (removeOrphan : Bool) :
    Node × Bool :=
  match getTransaction t node tx.getUsername maxHeight with
  | some (oldTx, _) =>
    if checkDuplicate && oldTx = tx then (node, true)
    else (node, checkReplacement && isKeyReplacement env oldTx tx)
  | none =>
    let txid : TxKey := ⟨tx.getUsername, -1⟩
    if removeOrphan && OrdMap.contains txid node.txIndex then
      ({ node with txIndex := OrdMap.erase txid node.txIndex }, true)
    else (node, false)

/-- `verifyDuplicateOrReplacementTx` writes nothing but the transaction index. -/
theorem verifyDuplicateOrReplacementTx_nameTree (env : ChainEnv) (t : BlockTree) (node : Node)
    (tx : Tx) (checkDuplicate checkReplacement : Bool) (maxHeight : Int) (removeOrphan : Bool) :
    (verifyDuplicateOrReplacementTx env t node tx checkDuplicate checkReplacement maxHeight
      removeOrphan).1.nameTree = node.nameTree := by
  unfold verifyDuplicateOrReplacementTx
  split
  · split <;> rfl
  · dsimp only
    split <;> rfl

end Twister.Chain
