import Twister.Bencode.Entry

/-!
# Soft checkpoints

`SoftCheckpoints` (softcheckpoint.cpp) lets a fixed set of users vote on the block
hash at heights that are multiples of `SOFT_CHECKPOINT_PERIOD`. Votes for a
height above the current soft checkpoint are collected per candidate in
`nextCandidates`; a candidate wins when it has more voters than half of
`uniqueUsersList`, and then becomes `lastSoftCP` with its voters, clearing all
candidates. Votes at the height of `lastSoftCP` only add signatures to it.

Votes are counted from `uniqueUsersList` and `upcomingUsersList` together, while
the threshold is computed from `uniqueUsersList` alone.

The signature check `verifySignature(CPtoString(cp), username, sign)` rests on the
key store and is a parameter. `LastSoftCPUpdated` only asks the chain to switch
branches and changes none of the state modelled here.
-/

namespace Twister.SoftCheckpoints

/-- `Checkpoint`: a height and a block hash, ordered as `std::pair` orders them. -/
structure Checkpoint where
  height : Int32
  hash : Nat
  deriving DecidableEq, Repr

instance : LT Checkpoint := ⟨fun a b => a.height < b.height ∨ (a.height = b.height ∧ a.hash < b.hash)⟩

instance : DecidableRel (α := Checkpoint) (· < ·) :=
  fun a b => inferInstanceAs (Decidable (a.height < b.height ∨ (a.height = b.height ∧ a.hash < b.hash)))

/-- `CPSigMap`: voter to signature. -/
abbrev CPSigMap := List (Bytes × Bytes)

/-- `SOFT_CHECKPOINT_PERIOD`. -/
def softCheckpointPeriod : Int32 := 6

/-- `uniqueUsersList`, in set order. -/
def uniqueUsersList : List Bytes :=
  ["mf1", "mf1a", "mf2", "mf2a", "mf3", "omgasm", "rantisluni", "rantizdani", "wn41"].map bytesOf

/-- `upcomingUsersList`. -/
def upcomingUsersList : List Bytes := [bytesOf "nobody"]

/-- The state of the `SoftCheckpoints` namespace: the last soft checkpoint with its
signatures, and the candidates voted on above it. `uncheckedCandidates` collects
votes that arrive before the chain reaches the hard checkpoint. -/
structure SoftCPState where
  lastSoftCP : Checkpoint := ⟨0, 0⟩
  lastSoftCPSigs : CPSigMap := []
  nextCandidates : List (Checkpoint × CPSigMap) := []
  uncheckedCandidates : List (Checkpoint × CPSigMap) := []
  deriving Repr

/-- What a vote is checked against: the highest hard checkpoint, the best height,
and the signature check of a vote on a checkpoint. -/
structure VoteEnv where
  hardCheckPointHeight : Int32
  bestHeight : Int32
  verifyVote : Checkpoint → Bytes → Bytes → Bool

/-- `CastVerifiedVote(cp, username, sign)`: the new state and whether the vote is
relayed. -/
def castVerifiedVote (s : SoftCPState) (cp : Checkpoint) (username sign : Bytes) :
    SoftCPState × Bool :=
  if cp.height = s.lastSoftCP.height then
    if OrdMap.contains username s.lastSoftCPSigs then (s, false)
    else if cp ≠ s.lastSoftCP then (s, false)
    else ({ s with lastSoftCPSigs := OrdMap.insert username sign s.lastSoftCPSigs }, true)
  else
    let votes := OrdMap.findD cp [] s.nextCandidates
    if OrdMap.contains username votes then (s, false)
    else
      let votes := OrdMap.insert username sign votes
      if votes.length > uniqueUsersList.length / 2 then
        ({ s with lastSoftCP := cp, lastSoftCPSigs := votes, nextCandidates := [] }, true)
      else ({ s with nextCandidates := OrdMap.insert cp votes s.nextCandidates }, true)

/-- `CastVoteSoftCheckpoint(height, hash, username, sign)`: the period, hard
checkpoint, current soft checkpoint and voter checks, then either the unchecked
queue, the signature check, or `CastVerifiedVote`. -/
def castVoteSoftCheckpoint (env : VoteEnv) (s : SoftCPState) (height : Int32) (hash : Nat)
    (username sign : Bytes) : SoftCPState × Bool :=
  if height % softCheckpointPeriod ≠ 0 then (s, false)
  else if height < env.hardCheckPointHeight then (s, false)
  else if height < s.lastSoftCP.height then (s, false)
  else if username ∉ uniqueUsersList ∧ username ∉ upcomingUsersList then (s, false)
  else
    let cp : Checkpoint := ⟨height, hash⟩
    if env.bestHeight < env.hardCheckPointHeight then
      let votes := OrdMap.insert username sign (OrdMap.findD cp [] s.uncheckedCandidates)
      ({ s with uncheckedCandidates := OrdMap.insert cp votes s.uncheckedCandidates }, false)
    else if !env.verifyVote cp username sign then (s, false)
    else castVerifiedVote s cp username sign

/-- A signed vote as it arrives in a `cp` message. -/
structure Vote where
  height : Int32
  hash : Nat
  username : Bytes
  sign : Bytes
  deriving DecidableEq, Repr

/-- A node's state after receiving votes one after another. -/
def receiveVotes (env : VoteEnv) (s : SoftCPState) (votes : List Vote) : SoftCPState :=
  votes.foldl (fun s v => (castVoteSoftCheckpoint env s v.height v.hash v.username v.sign).1) s

/-- No voter signs two different hashes at one height. -/
def NoEquivocation (votes : List Vote) : Prop :=
  ∀ v ∈ votes, ∀ w ∈ votes, v.username = w.username → v.height = w.height → v.hash = w.hash

instance (votes : List Vote) : Decidable (NoEquivocation votes) :=
  inferInstanceAs (Decidable (∀ v ∈ votes, ∀ w ∈ votes,
    v.username = w.username → v.height = w.height → v.hash = w.hash))

/-- A call of `CastVoteSoftCheckpoint`: what the node reads at that moment (hard
checkpoint, best height, signature check) and the vote. -/
abbrev VoteCall := VoteEnv × Vote

/-- The state after a sequence of calls, each with the environment of its moment. -/
def castVotes (s : SoftCPState) (calls : List VoteCall) : SoftCPState :=
  calls.foldl (fun s c => (castVoteSoftCheckpoint c.1 s c.2.height c.2.hash c.2.username c.2.sign).1) s

/-- Some call is a vote of `u` for `cp` with signature `sign`, by an accepted voter,
that passed the signature check of its moment. -/
def VotedFor (calls : List VoteCall) (cp : Checkpoint) (u sign : Bytes) : Prop :=
  ∃ c ∈ calls, c.2.username = u ∧ c.2.sign = sign ∧ (⟨c.2.height, c.2.hash⟩ : Checkpoint) = cp ∧
    c.1.verifyVote cp u sign = true ∧ (u ∈ uniqueUsersList ∨ u ∈ upcomingUsersList)

/-- What the state after `calls` satisfies: every candidate stands above the soft
checkpoint, and every signature kept, for a candidate or for the soft checkpoint,
is a vote among the calls for exactly that checkpoint. -/
structure VoteInv (calls : List VoteCall) (s : SoftCPState) : Prop where
  candidates_above : ∀ c ∈ s.nextCandidates, s.lastSoftCP.height < c.1.height
  candidate_votes : ∀ c ∈ s.nextCandidates, ∀ sig ∈ c.2, VotedFor calls c.1 sig.1 sig.2
  last_votes : ∀ sig ∈ s.lastSoftCPSigs, VotedFor calls s.lastSoftCP sig.1 sig.2

section Invariant

variable {calls : List VoteCall} {s : SoftCPState}

theorem voteInv_init : VoteInv [] {} where
  candidates_above := by simp
  candidate_votes := by simp
  last_votes := by simp

theorem VotedFor.append {cp : Checkpoint} {u sign : Bytes} (h : VotedFor calls cp u sign)
    (more : List VoteCall) : VotedFor (calls ++ more) cp u sign := by
  obtain ⟨c, hc, hrest⟩ := h
  exact ⟨c, List.mem_append_left more hc, hrest⟩

theorem VoteInv.append (h : VoteInv calls s) (more : List VoteCall) : VoteInv (calls ++ more) s where
  candidates_above := h.candidates_above
  candidate_votes c hc sig hsig := (h.candidate_votes c hc sig hsig).append more
  last_votes sig hsig := (h.last_votes sig hsig).append more

/-- The invariant reads three fields only. -/
theorem VoteInv.of_fields {s' : SoftCPState} (h : VoteInv calls s)
    (hlast : s'.lastSoftCP = s.lastSoftCP) (hsigs : s'.lastSoftCPSigs = s.lastSoftCPSigs)
    (hnext : s'.nextCandidates = s.nextCandidates) : VoteInv calls s' := by
  obtain ⟨habove, hcand, hlastv⟩ := h
  refine ⟨?_, ?_, ?_⟩
  · rw [hlast, hnext]
    exact habove
  · rw [hnext]
    exact hcand
  · rw [hlast, hsigs]
    exact hlastv

/-- The signatures collected for a checkpoint among the candidates are votes for it. -/
theorem VoteInv.findD_votes (h : VoteInv calls s) (cp : Checkpoint) :
    ∀ sig ∈ OrdMap.findD cp [] s.nextCandidates, VotedFor calls cp sig.1 sig.2 := by
  intro sig hsig
  unfold OrdMap.findD at hsig
  cases hfind : OrdMap.find? cp s.nextCandidates with
  | none => simp [hfind] at hsig
  | some votes =>
    rw [hfind, Option.getD_some] at hsig
    exact h.candidate_votes (cp, votes) (OrdMap.mem_of_find?_eq_some hfind) sig hsig

theorem int32_lt_of_not_lt_of_ne {a b : Int32} (h : ¬ a < b) (hne : a ≠ b) : b < a := by
  rw [Int32.lt_iff_toInt_lt] at h ⊢
  have : a.toInt ≠ b.toInt := fun heq => hne (Int32.toInt_inj.mp heq)
  omega

/-- What `CastVerifiedVote` can do: nothing; add a signature to the soft
checkpoint it was cast for; make a candidate at another height win; or add a
signature to that candidate. -/
theorem castVerifiedVote_cases (s : SoftCPState) (cp : Checkpoint) (username sign : Bytes) :
    (castVerifiedVote s cp username sign).1 = s ∨
      (cp = s.lastSoftCP ∧ (castVerifiedVote s cp username sign).1 =
        { s with lastSoftCPSigs := OrdMap.insert username sign s.lastSoftCPSigs }) ∨
      (cp.height ≠ s.lastSoftCP.height ∧ (castVerifiedVote s cp username sign).1 =
        { s with
          lastSoftCP := cp
          lastSoftCPSigs := OrdMap.insert username sign (OrdMap.findD cp [] s.nextCandidates)
          nextCandidates := [] }) ∨
      (cp.height ≠ s.lastSoftCP.height ∧ (castVerifiedVote s cp username sign).1 =
        { s with
          nextCandidates := OrdMap.insert cp
            (OrdMap.insert username sign (OrdMap.findD cp [] s.nextCandidates)) s.nextCandidates }) := by
  unfold castVerifiedVote
  dsimp only
  split_ifs with hheight hsigned hother hvoted hwin
  · exact Or.inl rfl
  · exact Or.inl rfl
  · exact Or.inr (Or.inl ⟨Decidable.not_not.mp hother, rfl⟩)
  · exact Or.inl rfl
  · exact Or.inr (Or.inr (Or.inl ⟨hheight, rfl⟩))
  · exact Or.inr (Or.inr (Or.inr ⟨hheight, rfl⟩))

/-- A vote at or above the soft checkpoint's height keeps the invariant. -/
theorem castVerifiedVote_inv {cp : Checkpoint} {u sign : Bytes} (hinv : VoteInv calls s)
    (hle : ¬ cp.height < s.lastSoftCP.height) (hvote : VotedFor calls cp u sign) :
    VoteInv calls (castVerifiedVote s cp u sign).1 := by
  have hvotes := hinv.findD_votes cp
  rcases castVerifiedVote_cases s cp u sign with h | ⟨rfl, h⟩ | ⟨-, h⟩ | ⟨hne, h⟩ <;> rw [h]
  · exact hinv
  · refine ⟨hinv.candidates_above, hinv.candidate_votes, fun sig hsig => ?_⟩
    rcases OrdMap.mem_of_mem_insert hsig with rfl | hsig
    · exact hvote
    · exact hinv.last_votes sig hsig
  · refine ⟨by simp, by simp, fun sig hsig => ?_⟩
    rcases OrdMap.mem_of_mem_insert hsig with rfl | hsig
    · exact hvote
    · exact hvotes sig hsig
  · have habove : s.lastSoftCP.height < cp.height := int32_lt_of_not_lt_of_ne hle hne
    refine ⟨fun c hc => ?_, fun c hc sig hsig => ?_, hinv.last_votes⟩
    · rcases OrdMap.mem_of_mem_insert hc with rfl | hc
      · exact habove
      · exact hinv.candidates_above c hc
    · rcases OrdMap.mem_of_mem_insert hc with rfl | hc
      · rcases OrdMap.mem_of_mem_insert hsig with rfl | hsig
        · exact hvote
        · exact hvotes sig hsig
      · exact hinv.candidate_votes c hc sig hsig

/-- The soft checkpoint stays, or moves to a greater height. -/
theorem castVerifiedVote_lastSoftCP {cp : Checkpoint} {u sign : Bytes}
    (hle : ¬ cp.height < s.lastSoftCP.height) :
    (castVerifiedVote s cp u sign).1.lastSoftCP = s.lastSoftCP ∨
      s.lastSoftCP.height < (castVerifiedVote s cp u sign).1.lastSoftCP.height := by
  rcases castVerifiedVote_cases s cp u sign with h | ⟨-, h⟩ | ⟨hne, h⟩ | ⟨-, h⟩ <;> rw [h]
  · exact Or.inl rfl
  · exact Or.inl rfl
  · exact Or.inr (int32_lt_of_not_lt_of_ne hle hne)
  · exact Or.inl rfl

/-- What `CastVoteSoftCheckpoint` can do: leave the three fields the invariant
reads as they are (every early exit, and the unchecked queue), or pass a vote
that is not below the soft checkpoint, by an accepted voter and with a valid
signature, to `CastVerifiedVote`. -/
theorem castVoteSoftCheckpoint_cases (s : SoftCPState) (env : VoteEnv) (height : Int32) (hash : Nat)
    (username sign : Bytes) :
    ((castVoteSoftCheckpoint env s height hash username sign).1.lastSoftCP = s.lastSoftCP ∧
        (castVoteSoftCheckpoint env s height hash username sign).1.lastSoftCPSigs =
          s.lastSoftCPSigs ∧
        (castVoteSoftCheckpoint env s height hash username sign).1.nextCandidates =
          s.nextCandidates) ∨
      (¬ height < s.lastSoftCP.height ∧
        (username ∈ uniqueUsersList ∨ username ∈ upcomingUsersList) ∧
        env.verifyVote ⟨height, hash⟩ username sign = true ∧
        (castVoteSoftCheckpoint env s height hash username sign).1 =
          (castVerifiedVote s ⟨height, hash⟩ username sign).1) := by
  unfold castVoteSoftCheckpoint
  dsimp only
  split_ifs with hperiod hhard hbelow huser hbest hsig
  · exact Or.inl ⟨rfl, rfl, rfl⟩
  · exact Or.inl ⟨rfl, rfl, rfl⟩
  · exact Or.inl ⟨rfl, rfl, rfl⟩
  · exact Or.inl ⟨rfl, rfl, rfl⟩
  · exact Or.inl ⟨rfl, rfl, rfl⟩
  · exact Or.inl ⟨rfl, rfl, rfl⟩
  · have hmem := (not_and_or.mp huser).imp Decidable.not_not.mp Decidable.not_not.mp
    exact Or.inr ⟨hbelow, hmem, by simpa using hsig, rfl⟩

/-- One call keeps the invariant, over the calls with this one added. -/
theorem castVoteSoftCheckpoint_inv (hinv : VoteInv calls s) (c : VoteCall) :
    VoteInv (calls ++ [c])
      (castVoteSoftCheckpoint c.1 s c.2.height c.2.hash c.2.username c.2.sign).1 := by
  have hinv' := hinv.append [c]
  rcases castVoteSoftCheckpoint_cases s c.1 c.2.height c.2.hash c.2.username c.2.sign with
    ⟨hlast, hsigs, hnext⟩ | ⟨hle, huser, hsig, h⟩
  · exact hinv'.of_fields hlast hsigs hnext
  · rw [h]
    have hvote : VotedFor (calls ++ [c]) ⟨c.2.height, c.2.hash⟩ c.2.username c.2.sign :=
      ⟨c, by simp, rfl, rfl, rfl, hsig, huser⟩
    exact castVerifiedVote_inv hinv' hle hvote

theorem castVoteSoftCheckpoint_lastSoftCP (s : SoftCPState) (env : VoteEnv) (height : Int32) (hash : Nat)
    (username sign : Bytes) :
    (castVoteSoftCheckpoint env s height hash username sign).1.lastSoftCP = s.lastSoftCP ∨
      s.lastSoftCP.height <
        (castVoteSoftCheckpoint env s height hash username sign).1.lastSoftCP.height := by
  rcases castVoteSoftCheckpoint_cases s env height hash username sign with
    ⟨hlast, -, -⟩ | ⟨hle, -, -, h⟩
  · exact Or.inl hlast
  · rw [h]
    exact castVerifiedVote_lastSoftCP hle

/-- The invariant holds along every run of calls. -/
theorem castVotes_inv (hinv : VoteInv calls s) (more : List VoteCall) :
    VoteInv (calls ++ more) (castVotes s more) := by
  induction more generalizing calls s with
  | nil => simpa [castVotes] using hinv
  | cons c more ih =>
    have h := ih (castVoteSoftCheckpoint_inv hinv c)
    simpa [castVotes] using h

/-- Along a run the soft checkpoint stays, or moves to a greater height. -/
theorem castVotes_lastSoftCP (s : SoftCPState) (more : List VoteCall) :
    (castVotes s more).lastSoftCP = s.lastSoftCP ∨
      s.lastSoftCP.height < (castVotes s more).lastSoftCP.height := by
  induction more generalizing s with
  | nil => exact Or.inl rfl
  | cons c more ih =>
    have hstep := castVoteSoftCheckpoint_lastSoftCP s c.1 c.2.height c.2.hash c.2.username c.2.sign
    have hrest := ih (castVoteSoftCheckpoint c.1 s c.2.height c.2.hash c.2.username c.2.sign).1
    change (castVotes _ more).lastSoftCP = _ ∨ _ < (castVotes _ more).lastSoftCP.height
    rcases hstep with hstep | hstep <;> rcases hrest with hrest | hrest
    · exact Or.inl (hrest.trans hstep)
    · exact Or.inr (hstep ▸ hrest)
    · exact Or.inr (hrest ▸ hstep)
    · exact Or.inr (Int32.lt_trans hstep hrest)

/-- Between any two moments of a node's life, the soft checkpoint stays or moves
to a greater height; and at every moment candidates stand above it, every kept
signature is a vote by an accepted voter for exactly the checkpoint it is kept
under, and those of the soft checkpoint are votes for the soft checkpoint. -/
theorem castVotes_softCheckpoint_invariant (calls₁ calls₂ : List VoteCall) :
    ((castVotes {} (calls₁ ++ calls₂)).lastSoftCP = (castVotes {} calls₁).lastSoftCP ∨
        (castVotes {} calls₁).lastSoftCP.height <
          (castVotes {} (calls₁ ++ calls₂)).lastSoftCP.height) ∧
      VoteInv (calls₁ ++ calls₂) (castVotes {} (calls₁ ++ calls₂)) := by
  have happend : castVotes {} (calls₁ ++ calls₂) = castVotes (castVotes {} calls₁) calls₂ :=
    List.foldl_append
  refine ⟨?_, ?_⟩
  · rw [happend]
    exact castVotes_lastSoftCP _ calls₂
  · have h := castVotes_inv voteInv_init (calls₁ ++ calls₂)
    simpa using h

end Invariant

end Twister.SoftCheckpoints

namespace Twister.SoftCheckpoints

/-- Five of the nine unique voters vote for hash `1` at height 6. -/
def quorumOfUnique : List Vote :=
  ["mf1", "mf1a", "mf2", "mf2a", "mf3"].map fun u => ⟨6, 1, bytesOf u, [1]⟩

/-- The other four unique voters and the upcoming voter vote for hash `2` at the
same height. -/
def quorumWithUpcoming : List Vote :=
  ["wn41", "omgasm", "rantizdani", "rantisluni", "nobody"].map fun u => ⟨6, 2, bytesOf u, [2]⟩

/-- Two nodes that accept every signature, one receiving the first five votes and
the other the second five, both make height 6 their soft checkpoint, with
different hashes, although no voter signed two hashes: ten voters are accepted
and five of them are a winning quorum, so two winning quorums need not meet. -/
theorem castVoteSoftCheckpoint_disjoint_quorums :
    let env : VoteEnv := { hardCheckPointHeight := 0, bestHeight := 12, verifyVote := fun _ _ _ => true }
    NoEquivocation (quorumOfUnique ++ quorumWithUpcoming) ∧
      (receiveVotes env {} quorumOfUnique).lastSoftCP = ⟨6, 1⟩ ∧
      (receiveVotes env {} quorumWithUpcoming).lastSoftCP = ⟨6, 2⟩ := by
  decide

end Twister.SoftCheckpoints
