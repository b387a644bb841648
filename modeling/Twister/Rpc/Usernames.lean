import Twister.Chain.NameTree

/-!
# Listing usernames by prefix

`listusernamespartial(prefix, count, exact_match)` (twister.cpp) fills a
`std::set` first from the users that the wallet's users follow, then from the
partial-name index through `GetNamesFromPartial`. The first source filters by
length and prefix and breaks its inner loop once the set holds `count` names;
the second adds names under the prefix until the set holds `count` names, and
knows nothing of `exact_match`.
-/

namespace Twister.Rpc

open Chain

/-- The inner loop over the users one wallet user follows, in set order: a name
shorter than the prefix, or of another length under `exact_match`, is skipped; a
name that starts with the prefix is inserted; the loop breaks once the set holds
`count` names, a test made after the insertion. -/
def followingLoop (userStartsWith : Bytes) (count : Nat) (exactMatch : Bool) :
    List Bytes → List Bytes → List Bytes
  | [], ret => ret
  | user :: rest, ret =>
    if (exactMatch && userStartsWith.length ≠ user.length) || userStartsWith.length > user.length then
      followingLoop userStartsWith count exactMatch rest ret
    else
      let ret := if user.take userStartsWith.length = userStartsWith then OrdSet.insert user ret else ret
      if ret.length ≥ count then ret else followingLoop userStartsWith count exactMatch rest ret

/-- `listusernamespartial(userStartsWith, count, exact_match)` with the wallet's
users' following sets, in the order the wallet lists its keys, and the
partial-name records. -/
def listusernamespartial (followingSets : List (List Bytes)) (db : NameTree)
    (userStartsWith : Bytes) (count : Nat) (exactMatch : Bool) : List Bytes :=
  let retStrings := followingSets.foldl
    (fun ret following => followingLoop userStartsWith count exactMatch following ret) []
  getNamesFromPartial db userStartsWith retStrings count

section Prefix

/-- The walk of the partial-name index only adds names under the prefix it starts
from. -/
theorem mem_getNamesFromPartialLoop (db : NameTree) (count : Nat) :
    ∀ (fuel : Nat) (q : Bytes) (names : List Bytes) (n : Bytes),
      n ∈ getNamesFromPartialLoop db fuel q names count → n ∈ names ∨ q <+: n := by
  intro fuel
  induction fuel with
  | zero => exact fun q names n hn => Or.inl hn
  | succ fuel ih =>
    intro q names n hn
    unfold getNamesFromPartialLoop at hn
    split at hn
    · exact Or.inl hn
    · refine Enumeration.mem_foldl_of_step (fun c _ names n hn => ?_) names n hn
      split_ifs at hn with hroom hend
      · rcases (OrdSet.mem_insert _ _ _).mp hn with rfl | hn
        · exact Or.inr (List.prefix_refl n)
        · exact Or.inl hn
      · rcases ih (q ++ [c]) names n hn with hn | hn
        · exact Or.inl hn
        · exact Or.inr ((List.prefix_append q [c]).trans hn)
      · exact Or.inl hn

/-- The loop over one following set only adds names under the prefix, and under
`exact_match` only names of the prefix's length. -/
theorem mem_followingLoop (userStartsWith : Bytes) (count : Nat) (exactMatch : Bool) :
    ∀ (following ret : List Bytes) (n : Bytes),
      n ∈ followingLoop userStartsWith count exactMatch following ret →
        n ∈ ret ∨ (userStartsWith <+: n ∧ (exactMatch → n.length = userStartsWith.length)) := by
  intro following
  induction following with
  | nil => exact fun ret n hn => Or.inl hn
  | cons user rest ih =>
    intro ret n hn
    unfold followingLoop at hn
    split at hn
    · exact ih ret n hn
    · rename_i hskip
      simp only [Bool.or_eq_true, Bool.and_eq_true, not_or, not_and, decide_eq_true_eq] at hskip
      dsimp only at hn
      generalize hret : (if user.take userStartsWith.length = userStartsWith then
        OrdSet.insert user ret else ret) = ret' at hn
      have hins : ∀ m ∈ ret',
          m ∈ ret ∨ (userStartsWith <+: m ∧ (exactMatch → m.length = userStartsWith.length)) := by
        intro m hm
        subst hret
        split_ifs at hm with htake
        · rcases (OrdSet.mem_insert _ _ _).mp hm with rfl | hm
          · refine Or.inr ⟨List.prefix_iff_eq_take.mpr htake.symm, fun hexact => ?_⟩
            have := hskip.1 hexact
            omega
          · exact Or.inl hm
        · exact Or.inl hm
      split_ifs at hn
      · exact hins n hn
      · rcases ih ret' n hn with hn | hn
        · exact hins n hn
        · exact Or.inr hn

/-- Every name `listusernamespartial` returns starts with the requested prefix,
whatever the following sets and the partial-name records; `exact_match` is kept
only by the names that come from the following sets. -/
theorem listusernamespartial_prefix (followingSets : List (List Bytes)) (db : NameTree)
    (userStartsWith : Bytes) (count : Nat) (exactMatch : Bool) :
    ∀ n ∈ listusernamespartial followingSets db userStartsWith count exactMatch,
      userStartsWith <+: n := by
  intro n hn
  unfold listusernamespartial getNamesFromPartial at hn
  rcases mem_getNamesFromPartialLoop db count _ _ _ n hn with hn | hn
  · rcases Enumeration.mem_foldl_of_step
        (fun following _ ret n hn => mem_followingLoop userStartsWith count exactMatch following ret n hn)
        [] n hn with hn | hn
    · simp at hn
    · exact hn.1
  · exact hn

end Prefix

/-- With two wallet users, following `alice` and `alex`, a request for one name
under `al` returns two: the `break` leaves only the inner loop. With no wallet
user and `alice` registered, an exact request for `al` returns `alice`: the walk
of the partial-name index ignores `exact_match`. -/
theorem listusernamespartial_breaks_bounds :
    listusernamespartial [[bytesOf "alice"], [bytesOf "alex"]] [] (bytesOf "al") 1 false =
        [bytesOf "alex", bytesOf "alice"] ∧
      listusernamespartial [] (addNameToPartialNameTree [] (bytesOf "alice")) (bytesOf "al") 10 true =
        [bytesOf "alice"] := by
  decide

end Twister.Rpc
