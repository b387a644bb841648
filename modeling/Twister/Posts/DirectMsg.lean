import Twister.Bencode.Entry

/-!
# Stored direct-message threads

Each local user keeps, per remote user, the vector of direct messages exchanged
(`UserData::m_directmsg`, twister_utils.h). `processReceivedDM` (twister.cpp) stores
a message it could decrypt by walking the vector from the front: it stops at an
entry with the same time and text, inserts before the first entry with a later
time, and appends when it reaches the end. `newdirectmsg`, when it sends no copy
to the sender, appends the sent message with `push_back` at the time of its own
post. `getdirectmsgs` numbers the messages by their position in the vector.

The decryption, and the decoding of the new format (`msg`, `to`), are taken as
done: the model starts from the sender, the addressee, the text and the time.
`saveUserData` writes each vector in order and `loadUserData` appends the entries
back in that order, so a save and load cycle leaves every vector as it was.
-/

namespace Twister.Posts

open Bencode

/-- `StoredDirectMsg`. -/
structure StoredDirectMsg where
  utcTime : Int64
  text : Bytes
  fromMe : Bool
  deriving DecidableEq, Repr

/-- The direct messages of every local user, per remote user. -/
abbrev DirectMsgStore := List (Bytes × List (Bytes × List StoredDirectMsg))

/-- `m_users[local].m_directmsg[remote]`. -/
def thread (store : DirectMsgStore) (localUser remote : Bytes) : List StoredDirectMsg :=
  OrdMap.findD remote [] (OrdMap.findD localUser [] store)

/-- Write back `m_users[local].m_directmsg[remote]`. -/
def setThread (store : DirectMsgStore) (localUser remote : Bytes) (t : List StoredDirectMsg) :
    DirectMsgStore :=
  OrdMap.insert localUser (OrdMap.insert remote t (OrdMap.findD localUser [] store)) store

/-- The insertion loop of `processReceivedDM`: stop at an entry with the same time
and text, insert before the first entry with a later time, append at the end. -/
def insertDirectMsg (stoDM : StoredDirectMsg) : List StoredDirectMsg → List StoredDirectMsg
  | [] => [stoDM]
  | m :: rest =>
    if stoDM.utcTime = m.utcTime ∧ stoDM.text = m.text then m :: rest
    else if stoDM.utcTime < m.utcTime then stoDM :: m :: rest
    else m :: insertDirectMsg stoDM rest

/-- The storing part of `processReceivedDM` for a message decrypted with the key of
local user `localUser`: `fromUser` is the post's `n`, `toUser` the addressee (the
local user in the old format), `msg` the text and `time` the post's `time`. A message
without text or addressee is not stored. -/
def processReceivedDM (store : DirectMsgStore) (localUser fromUser toUser msg : Bytes)
    (time : Int64) : DirectMsgStore :=
  if msg.isEmpty || toUser.isEmpty then store
  else
    let fromMe := fromUser = toUser
    let stoDM : StoredDirectMsg := ⟨time, msg, fromMe⟩
    let remote := if fromMe then toUser else fromUser
    setThread store localUser remote (insertDirectMsg stoDM (thread store localUser remote))

/-- The local store of `newdirectmsg(from, to, msg)` without a copy to self:
`push_back` of the sent message, at the time of its post. -/
def newDirectMsgStore (store : DirectMsgStore) (fromUser toUser msg : Bytes) (time : Int64) :
    DirectMsgStore :=
  setThread store fromUser toUser (thread store fromUser toUser ++ [⟨time, msg, true⟩])

/-- A thread as `getdirectmsgs` expects it: ordered by time, and without two
entries of equal time and text. -/
def ThreadOk (t : List StoredDirectMsg) : Prop :=
  t.Pairwise (fun a b => a.utcTime ≤ b.utcTime) ∧
    t.Pairwise (fun a b => ¬ (a.utcTime = b.utcTime ∧ a.text = b.text))

instance (t : List StoredDirectMsg) : Decidable (ThreadOk t) :=
  inferInstanceAs (Decidable (_ ∧ _))

section Insert

theorem mem_insertDirectMsg {stoDM x : StoredDirectMsg} {t : List StoredDirectMsg}
    (h : x ∈ insertDirectMsg stoDM t) : x = stoDM ∨ x ∈ t := by
  induction t with
  | nil => simpa [insertDirectMsg] using h
  | cons m rest ih =>
    simp only [insertDirectMsg] at h
    split_ifs at h
    · exact Or.inr h
    · rcases List.mem_cons.mp h with h | h
      · exact Or.inl h
      · exact Or.inr h
    · rcases List.mem_cons.mp h with h | h
      · exact Or.inr (h ▸ List.mem_cons_self)
      · rcases ih h with h | h
        · exact Or.inl h
        · exact Or.inr (List.mem_cons_of_mem _ h)

/-- The walk of `processReceivedDM` keeps a thread ordered and free of duplicates:
it only looks for a duplicate among the entries before the first later one, which
in an ordered thread are all the entries of the same time. -/
theorem threadOk_insertDirectMsg (stoDM : StoredDirectMsg) {t : List StoredDirectMsg}
    (h : ThreadOk t) : ThreadOk (insertDirectMsg stoDM t) := by
  induction t with
  | nil => simp [insertDirectMsg, ThreadOk]
  | cons m rest ih =>
    obtain ⟨hsorted, hnodup⟩ := h
    rw [List.pairwise_cons] at hsorted hnodup
    have hrest := ih ⟨hsorted.2, hnodup.2⟩
    simp only [insertDirectMsg]
    split_ifs with hdup hlt
    · exact ⟨List.pairwise_cons.mpr hsorted, List.pairwise_cons.mpr hnodup⟩
    · have hle : ∀ y ∈ m :: rest, stoDM.utcTime ≤ y.utcTime := by
        intro y hy
        rcases List.mem_cons.mp hy with rfl | hy
        · exact Int64.le_of_lt hlt
        · exact Int64.le_trans (Int64.le_of_lt hlt) (hsorted.1 y hy)
      have hne : ∀ y ∈ m :: rest, ¬ (stoDM.utcTime = y.utcTime ∧ stoDM.text = y.text) := by
        rintro y hy ⟨heq, -⟩
        rcases List.mem_cons.mp hy with rfl | hy
        · exact Int64.lt_irrefl (heq ▸ hlt)
        · exact Int64.lt_irrefl (heq ▸ Int64.lt_of_lt_of_le hlt (hsorted.1 y hy))
      exact ⟨List.pairwise_cons.mpr ⟨hle, List.pairwise_cons.mpr hsorted⟩,
        List.pairwise_cons.mpr ⟨hne, List.pairwise_cons.mpr hnodup⟩⟩
    · have hge : m.utcTime ≤ stoDM.utcTime := Int64.not_lt.mp hlt
      refine ⟨List.pairwise_cons.mpr ⟨fun y hy => ?_, hrest.1⟩,
        List.pairwise_cons.mpr ⟨fun y hy => ?_, hrest.2⟩⟩
      · rcases mem_insertDirectMsg hy with rfl | hy
        · exact hge
        · exact hsorted.1 y hy
      · rcases mem_insertDirectMsg hy with rfl | hy
        · exact fun ⟨htime, htext⟩ => hdup ⟨htime.symm, htext.symm⟩
        · exact hnodup.1 y hy

end Insert

section Store

theorem thread_setThread (store : DirectMsgStore) (localUser remote : Bytes)
    (t : List StoredDirectMsg) (localUser' remote' : Bytes) :
    thread (setThread store localUser remote t) localUser' remote' =
      if localUser' = localUser ∧ remote' = remote then t else thread store localUser' remote' := by
  unfold thread setThread
  by_cases hl : localUser' = localUser
  · subst hl
    by_cases hr : remote' = remote
    · subst hr
      simp
    · simp [hr, OrdMap.findD_insert_of_ne _ _ _ hr]
  · simp [hl, OrdMap.findD_insert_of_ne _ _ _ hl]

/-- Receiving a message keeps every thread ordered and free of duplicates. -/
theorem threadOk_processReceivedDM {store : DirectMsgStore}
    (h : ∀ l r, ThreadOk (thread store l r)) (localUser fromUser toUser msg : Bytes) (time : Int64) :
    ∀ l r, ThreadOk (thread (processReceivedDM store localUser fromUser toUser msg time) l r) := by
  intro l r
  unfold processReceivedDM
  split
  · exact h l r
  · dsimp only
    rw [thread_setThread]
    split_ifs with hfrom hthread hthread
    · exact threadOk_insertDirectMsg _ (h _ _)
    · exact h l r
    · exact threadOk_insertDirectMsg _ (h _ _)
    · exact h l r

/-- Threads built by receiving messages alone, in any order and with any number of
re-deliveries, stay ordered and free of duplicates. -/
theorem threadOk_receiveAll (msgs : List (Bytes × Bytes × Bytes × Bytes × Int64)) (l r : Bytes) :
    ThreadOk (thread (msgs.foldl (fun s m => processReceivedDM s m.1 m.2.1 m.2.2.1 m.2.2.2.1 m.2.2.2.2)
      [] ) l r) := by
  suffices hall : ∀ store : DirectMsgStore, (∀ l r, ThreadOk (thread store l r)) →
      ∀ l r, ThreadOk (thread (msgs.foldl (fun s m =>
        processReceivedDM s m.1 m.2.1 m.2.2.1 m.2.2.2.1 m.2.2.2.2) store) l r) from
    hall [] (fun l r => by simp [thread, OrdMap.findD, ThreadOk]) l r
  induction msgs with
  | nil => intro store h; exact h
  | cons m msgs ih =>
    intro store h
    exact ih _ (threadOk_processReceivedDM h _ _ _ _ _)

end Store

/-- Alice receives `hi` from bob, posted at time `100`, then sends bob `yo` from a
node whose clock reads `50`; `newdirectmsg` appends it behind the later message.
Sending `yo` twice within one second stores the same time and text twice. -/
theorem newDirectMsgStore_breaks_order :
    thread (newDirectMsgStore (processReceivedDM [] (bytesOf "alice") (bytesOf "bob")
        (bytesOf "alice") (bytesOf "hi") 100) (bytesOf "alice") (bytesOf "bob") (bytesOf "yo") 50)
        (bytesOf "alice") (bytesOf "bob") = [⟨100, bytesOf "hi", false⟩, ⟨50, bytesOf "yo", true⟩] ∧
      ¬ ThreadOk (thread (newDirectMsgStore (processReceivedDM [] (bytesOf "alice")
        (bytesOf "bob") (bytesOf "alice") (bytesOf "hi") 100) (bytesOf "alice") (bytesOf "bob")
        (bytesOf "yo") 50) (bytesOf "alice") (bytesOf "bob")) ∧
      ¬ ThreadOk (thread (newDirectMsgStore (newDirectMsgStore [] (bytesOf "alice") (bytesOf "bob")
        (bytesOf "yo") 50) (bytesOf "alice") (bytesOf "bob") (bytesOf "yo") 50)
        (bytesOf "alice") (bytesOf "bob")) := by
  decide

end Twister.Posts
