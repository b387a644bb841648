import Twister.Chain.TxIndex

/-!
# Connecting blocks and switching the best chain

`ConnectBlock` (main.cpp) checks a block against the index as it stands: the
spam message's signer must have a registration at most as high as the block, and
a transaction for a username that `GetTransaction` already finds must be that
registration or a key replacement signed by it. It then writes the block's
registrations into the index, keeping the previous position of a re-registered
name under `(u, h-1)`, and adds the names to the partial-name records.
`DisconnectBlock` restores `(u, -1)` from `(u, h-1)` where that key exists.

`SetBestChain(pindexNew)` finds the fork between the best block and `pindexNew`,
disconnects down to it and connects up to `pindexNew`; only when every block
connects does it rewrite `vBlockIndexByHeight` and the best block. The index and
the name records are written by each `ConnectBlock` and `DisconnectBlock` as it
runs, so a failed switch leaves their writes in place, as the coin view's
best-block pointer is not.
-/

namespace Twister.Chain

open Bencode

/-- Why `ConnectBlock` refuses a block. `assertionFailed` is the `assert` that the
block's parent is the view's best block, which ends the process. -/
inductive ConnectError where
  | checkBlock
  | assertionFailed
  | spamSignatureMissing
  | spamUnknownUser
  | spamBrokenPubkey
  | recoverCompactFailed
  | spamSignatureFailed
  | overwrite
  deriving DecidableEq, Repr

/-- The spam-user check of `ConnectBlock`: a spam message not signed by `nobody`
carries a signature as its second push, from which `RecoverCompact` must get the
key of the signer's registration at most as high as the block. -/
def checkSpamUser (env : ChainEnv) (t : BlockTree) (node : Node) (block : Block) :
    Option ConnectError :=
  match block.vtx with
  | [] => none
  | tx :: _ =>
    let spamUser := extractPushDataString tx.userName 0
    if spamUser = bytesOf "nobody" then none
    else
      let strSign := extractPushDataString tx.userName 1
      if strSign.isEmpty then some .spamSignatureMissing
      else
        match getTransaction t node spamUser block.nHeight with
        | none => some .spamUnknownUser
        | some (txPubKey, _) =>
          match extractPushData txPubKey.pubKey with
          | some (key :: _) =>
            match env.recoverSpam tx.message strSign with
            | none => some .recoverCompactFailed
            | some id => if id = env.keyId key then none else some .spamSignatureFailed
          | _ => some .spamBrokenPubkey

/-- The overwrite check of `ConnectBlock` over the transactions after the spam
message: a username `GetTransaction` finds must pass
`verifyDuplicateOrReplacementTx(tx, true, true, nHeight, true)`, whose orphan
erasures stay in the index. -/
def checkOverwrites (env : ChainEnv) (t : BlockTree) (nHeight : Nat) :
    Node → List Tx → Node × Bool
  | node, [] => (node, true)
  | node, tx :: txs =>
    match getTransaction t node tx.getUsername (-1) with
    | none => checkOverwrites env t nHeight node txs
    | some _ =>
      let (node, ok) := verifyDuplicateOrReplacementTx env t node tx true true nHeight true
      if ok then checkOverwrites env t nHeight node txs else (node, false)

/-- The index writes `vPos` of `ConnectBlock`: for each registration, its position
under `(u, -1)`, and the position `(u, -1)` held before, when it differs, under
`(u, nHeight - 1)`. -/
def txIndexWrites (node : Node) (blk : BlockId) (nHeight : Nat) :
    List (Tx × Nat) → List (TxKey × TxPos)
  | [] => []
  | (tx, i) :: txs =>
    if tx.isSpamMessage then txIndexWrites node blk nHeight txs
    else
      let txid : TxKey := ⟨tx.getUsername, -1⟩
      let pos : TxPos := ⟨blk, i⟩
      let saved : List (TxKey × TxPos) :=
        match OrdMap.find? txid node.txIndex with
        | some oldPos => if pos ≠ oldPos then [(⟨tx.getUsername, (nHeight : Int) - 1⟩, oldPos)] else []
        | none => []
      (txid, pos) :: saved ++ txIndexWrites node blk nHeight txs

/-- `WriteTxIndex(vPos)`: the pairs written in order. -/
def writeTxIndex (txIndex : List (TxKey × TxPos)) (vPos : List (TxKey × TxPos)) :
    List (TxKey × TxPos) :=
  vPos.foldl (fun idx (k, v) => OrdMap.insert k v idx) txIndex

/-- `ConnectBlock(block, state, pindex, view)` with the view's best block `view`:
the node after the call and the reason of a refusal. The genesis block connects
without touching the index. -/
def connectBlock (env : ChainEnv) (t : BlockTree) (view : Option BlockId) (node : Node)
    (blk : BlockId) (block : Block) : Node × Option ConnectError :=
  if !checkBlock env block then (node, some .checkBlock)
  else if block.hashPrevBlock ≠ view then (node, some .assertionFailed)
  else if blk = t.genesis then (node, none)
  else
    match checkSpamUser env t node block with
    | some e => (node, some e)
    | none =>
      let (node, ok) := checkOverwrites env t block.nHeight node (block.vtx.drop 1)
      if !ok then (node, some .overwrite)
      else
        let vPos := txIndexWrites node blk block.nHeight block.vtx.zipIdx
        let node := { node with txIndex := writeTxIndex node.txIndex vPos }
        ({ node with nameTree := block.usernames.foldl addNameToPartialNameTree node.nameTree },
          none)

/-- `DisconnectBlock(block, state, pindex, view)`: from the last transaction down
to the first after the spam message, `(u, -1)` gets the position under
`(u, nHeight - 1)` when there is one. -/
def disconnectBlock (node : Node) (block : Block) : Node :=
  (block.vtx.drop 1).reverse.foldl (fun node tx =>
    match OrdMap.find? ⟨tx.getUsername, (block.nHeight : Int) - 1⟩ node.txIndex with
    | some oldPos => { node with txIndex := OrdMap.insert ⟨tx.getUsername, -1⟩ oldPos node.txIndex }
    | none => node) node

namespace BlockTree

variable (t : BlockTree)

/-- The inner loop of the fork search: step back while higher than `h`. -/
def descend (h : Nat) : Nat → BlockId → BlockId
  | 0, b => b
  | fuel + 1, b =>
    if t.height b > h then
      match t.prev b with
      | some p => descend h fuel p
      | none => b
    else b

/-- The fork search of `SetBestChain`: from the best block `pfork` and
`plonger = pindexNew`, bring `plonger` down to the height of `pfork`, and step
`pfork` back until the two meet. -/
def findFork : Nat → Option BlockId → BlockId → Option BlockId
  | 0, pfork, _ => pfork
  | _ + 1, none, _ => none
  | fuel + 1, some pfork, plonger =>
    if pfork = plonger then some pfork
    else
      let plonger := t.descend (t.height pfork) t.fuel plonger
      if pfork = plonger then some pfork else findFork fuel (t.prev pfork) plonger

/-- `for (pindex = from; pindex != stop; pindex = pindex->pprev)`: the blocks from
`from` back to `stop`, without it. -/
def chainDown (stop : Option BlockId) : Nat → Option BlockId → List BlockId
  | 0, _ => []
  | _ + 1, none => []
  | fuel + 1, some b => if some b = stop then [] else b :: chainDown stop fuel (t.prev b)

end BlockTree

/-- The loop that fills `vConnect`, from `pindexNew` down: a block with a failure
flag flags every block collected so far, itself included, and empties the list.
Returns the list and the newly flagged blocks. -/
def collectConnect (failed : List BlockId) :
    List BlockId → List BlockId → List BlockId → List BlockId × List BlockId
  | [], vConnect, marks => (vConnect, marks)
  | b :: bs, vConnect, marks =>
    let vConnect := vConnect ++ [b]
    if b ∈ failed then collectConnect failed bs [] (marks ++ vConnect)
    else collectConnect failed bs vConnect marks

/-- Why `SetBestChain` fails: the new branch is shorter once failed blocks are cut
off, a block cannot be read, or a block does not connect. -/
inductive ChainError where
  | shorterChain
  | missingBlock
  | connectFailed (blk : BlockId) (e : ConnectError)
  deriving DecidableEq, Repr

/-- The disconnect loop of `SetBestChain`. -/
def disconnectAll (t : BlockTree) : Node → List BlockId → Node × Option ChainError
  | node, [] => (node, none)
  | node, b :: bs =>
    match t.get? b with
    | none => (node, some .missingBlock)
    | some block => disconnectAll t (disconnectBlock node block) bs

/-- The connect loop of `SetBestChain`, with the view's best block: the node, the
blocks connected, and the failure. A block refused as invalid gets its failure
flag (`InvalidBlockFound`); it is never in the main chain, so no further
`ConnectBestBlock` follows. -/
def connectAll (env : ChainEnv) (t : BlockTree) :
    Option BlockId → Node → List BlockId → Node × List BlockId × Option ChainError
  | _, node, [] => (node, [], none)
  | view, node, b :: bs =>
    match t.get? b with
    | none => (node, [], some .missingBlock)
    | some block =>
      match connectBlock env t view node b block with
      | (node, some e) =>
        let failed := if e = .assertionFailed then node.failed else node.failed ++ [b]
        ({ node with failed }, [], some (.connectFailed b e))
      | (node, none) =>
        let (node, connected, err) := connectAll env t (some b) node bs
        (node, b :: connected, err)

/-- `vBlockIndexByHeight.resize(n)`: cut, or extend with null entries. -/
def resizeByHeight (byHeight : List (Option BlockId)) (n : Nat) : List (Option BlockId) :=
  byHeight.take n ++ List.replicate (n - byHeight.length) none

/-- The result of `SetBestChain`: the node, the blocks it connected, and the
failure. -/
structure SetBestResult where
  node : Node
  connected : List BlockId
  error : Option ChainError

/-- `SetBestChain(state, pindexNew)`. -/
def setBestChain (env : ChainEnv) (t : BlockTree) (node : Node) (pindexNew : BlockId) :
    SetBestResult :=
  let pfork := t.findFork t.fuel node.best pindexNew
  let vDisconnect := t.chainDown pfork t.fuel node.best
  let (vConnect, marks) := collectConnect node.failed (t.chainDown pfork t.fuel (some pindexNew)) [] []
  let vConnect := vConnect.reverse
  let node := { node with failed := node.failed ++ marks }
  if vConnect.length < vDisconnect.length then ⟨node, [], some .shorterChain⟩
  else
    match disconnectAll t node vDisconnect with
    | (node, some e) => ⟨node, [], some e⟩
    | (node, none) =>
      match connectAll env t pfork node vConnect with
      | (node, connected, some e) => ⟨node, connected, some e⟩
      | (node, connected, none) =>
        let byHeight := vConnect.foldl (fun byHeight b => byHeight.set (t.height b) (some b))
          (resizeByHeight node.byHeight (t.height pindexNew + 1))
        ⟨{ node with byHeight, best := some pindexNew, bestHeight := t.height pindexNew },
          connected, none⟩

/-- A node's history: `SetBestChain` towards each block in turn, from the node;
the final node and every block connected on the way. -/
def runChain (env : ChainEnv) (t : BlockTree) (node : Node) :
    List BlockId → Node × List BlockId
  | [] => (node, [])
  | b :: bs =>
    let r := setBestChain env t node b
    let (node, connected) := runChain env t r.node bs
    (node, r.connected ++ connected)

section NameRecords

/-- The names a block adds to the partial-name records when it connects: none for
the genesis block, whose transactions `ConnectBlock` skips. -/
def blockNames (t : BlockTree) (blk : BlockId) : List Bytes :=
  if blk = t.genesis then [] else ((t.get? blk).map Block.usernames).getD []

theorem checkOverwrites_nameTree (env : ChainEnv) (t : BlockTree) (nHeight : Nat) (node : Node)
    (txs : List Tx) : (checkOverwrites env t nHeight node txs).1.nameTree = node.nameTree := by
  induction txs generalizing node with
  | nil => rfl
  | cons tx txs ih =>
    simp only [checkOverwrites]
    split
    · exact ih node
    · have hvd := verifyDuplicateOrReplacementTx_nameTree env t node tx true true nHeight true
      split
      · rw [ih]; exact hvd
      · exact hvd

theorem disconnectBlock_nameTree (node : Node) (block : Block) :
    (disconnectBlock node block).nameTree = node.nameTree := by
  unfold disconnectBlock
  generalize (block.vtx.drop 1).reverse = txs
  induction txs generalizing node with
  | nil => rfl
  | cons tx txs ih =>
    rw [List.foldl_cons, ih]
    split <;> rfl

theorem disconnectAll_nameTree (t : BlockTree) (node : Node) (bs : List BlockId) :
    (disconnectAll t node bs).1.nameTree = node.nameTree := by
  induction bs generalizing node with
  | nil => rfl
  | cons b bs ih =>
    simp only [disconnectAll]
    split
    · rfl
    · rw [ih, disconnectBlock_nameTree]

/-- What `ConnectBlock` does to the partial-name records: nothing when it refuses
the block or connects the genesis block, and otherwise it adds the block's
usernames, which `CheckBlock` has passed. -/
theorem connectBlock_nameTree_cases (env : ChainEnv) (t : BlockTree) (view : Option BlockId)
    (node : Node) (blk : BlockId) (block : Block) :
    ((connectBlock env t view node blk block).2.isSome ∧
        (connectBlock env t view node blk block).1.nameTree = node.nameTree) ∨
      ((connectBlock env t view node blk block).2 = none ∧ blk = t.genesis ∧
        (connectBlock env t view node blk block).1 = node) ∨
      ((connectBlock env t view node blk block).2 = none ∧ blk ≠ t.genesis ∧
        checkBlock env block = true ∧
        (connectBlock env t view node blk block).1.nameTree =
          block.usernames.foldl addNameToPartialNameTree node.nameTree) := by
  unfold connectBlock
  by_cases hcheck : checkBlock env block = true
  · by_cases hview : block.hashPrevBlock = view
    · by_cases hgen : blk = t.genesis
      · simp [hcheck, hview, hgen]
      · simp only [hcheck, hview, hgen, Bool.not_true, Bool.false_eq_true, if_false, ne_eq,
          not_true_eq_false, not_false_eq_true]
        cases checkSpamUser env t node block with
        | some e => simp
        | none =>
          have hover : (checkOverwrites env t block.nHeight node block.vtx.tail).1.nameTree =
              node.nameTree := checkOverwrites_nameTree env t block.nHeight node _
          dsimp only
          split
          · simp [hover]
          · simp [hover]
    · simp [hcheck, hview]
  · simp [hcheck]

/-- The connect loop adds the names of the blocks it connects, in order, and they
all pass `CheckUsername`. -/
theorem connectAll_nameTree (env : ChainEnv) (t : BlockTree) (view : Option BlockId) (node : Node)
    (bs : List BlockId) :
    (connectAll env t view node bs).1.nameTree =
        ((connectAll env t view node bs).2.1.flatMap (blockNames t)).foldl
          addNameToPartialNameTree node.nameTree ∧
      ∀ b ∈ (connectAll env t view node bs).2.1, ∀ n ∈ blockNames t b, checkUsername n = true := by
  induction bs generalizing view node with
  | nil => simp [connectAll]
  | cons b bs ih =>
    simp only [connectAll]
    cases hget : t.get? b with
    | none => simp
    | some block =>
      dsimp only
      have hcases := connectBlock_nameTree_cases env t view node b block
      generalize connectBlock env t view node b block = r at hcases ⊢
      obtain ⟨node', err⟩ := r
      rcases hcases with ⟨herr, hnt⟩ | ⟨herr, hgen, hnode⟩ | ⟨herr, hgen, hcheck, hnt⟩
      · obtain ⟨e, rfl⟩ := Option.isSome_iff_exists.mp herr
        simpa using hnt
      · dsimp only at herr hnode
        subst herr hnode
        obtain ⟨ih₁, ih₂⟩ := ih (some b) node'
        refine ⟨by simpa [blockNames, hgen] using ih₁, ?_⟩
        simp only [List.mem_cons, forall_eq_or_imp]
        exact ⟨by simp [blockNames, hgen], ih₂⟩
      · dsimp only at herr hnt
        subst herr
        have hnames : blockNames t b = block.usernames := by simp [blockNames, hgen, hget]
        obtain ⟨ih₁, ih₂⟩ := ih (some b) node'
        refine ⟨?_, ?_⟩
        · simp only [List.flatMap_cons, List.foldl_append, hnames, ← hnt]
          exact ih₁
        · simp only [List.mem_cons, forall_eq_or_imp]
          exact ⟨hnames ▸ checkUsername_of_checkBlock hcheck, ih₂⟩

/-- A switch of the best chain, failed or not, adds the names of the blocks it
connected, and only those. -/
theorem setBestChain_nameTree (env : ChainEnv) (t : BlockTree) (node : Node) (pindexNew : BlockId) :
    (setBestChain env t node pindexNew).node.nameTree =
        ((setBestChain env t node pindexNew).connected.flatMap (blockNames t)).foldl
          addNameToPartialNameTree node.nameTree ∧
      ∀ b ∈ (setBestChain env t node pindexNew).connected, ∀ n ∈ blockNames t b,
        checkUsername n = true := by
  unfold setBestChain
  dsimp only
  split_ifs
  · simp
  · split
    · rename_i nd e hdisc
      have hd := congrArg (fun r => r.1.nameTree) hdisc
      simp only [disconnectAll_nameTree] at hd
      simp [← hd]
    · rename_i nd hdisc
      have hd := congrArg (fun r => r.1.nameTree) hdisc
      simp only [disconnectAll_nameTree] at hd
      have hc := connectAll_nameTree env t (t.findFork t.fuel node.best pindexNew) nd
        (collectConnect node.failed (t.chainDown (t.findFork t.fuel node.best pindexNew) t.fuel
          (some pindexNew)) [] []).1.reverse
      rw [← hd] at hc
      split <;> (rename_i hconn; rw [hconn] at hc; exact hc)

/-- Along a node's history the partial-name records are those of its start with
the names of every block connected since added, each passing `CheckUsername`. -/
theorem runChain_nameTree (env : ChainEnv) (t : BlockTree) (node : Node) (history : List BlockId) :
    (runChain env t node history).1.nameTree =
        ((runChain env t node history).2.flatMap (blockNames t)).foldl
          addNameToPartialNameTree node.nameTree ∧
      ∀ b ∈ (runChain env t node history).2, ∀ n ∈ blockNames t b, checkUsername n = true := by
  induction history generalizing node with
  | nil => simp [runChain]
  | cons b history ih =>
    obtain ⟨hs₁, hs₂⟩ := setBestChain_nameTree env t node b
    obtain ⟨ih₁, ih₂⟩ := ih (setBestChain env t node b).node
    simp only [runChain, List.flatMap_append, List.foldl_append, List.mem_append]
    refine ⟨by rw [ih₁, hs₁], ?_⟩
    rintro b' (hb' | hb')
    · exact hs₂ b' hb'
    · exact ih₂ b' hb'

end NameRecords

end Twister.Chain
