import Mathlib

/-! Searching a sorted list: a predicate that only falls along the list splits it into a
prefix and a suffix, which is what a binary search finds.
-/

namespace PacketQuapture.Library

universe u

variable {α : Type u} {list : List α} {test : α → Bool}

/-- Where the test only falls, its leading run is every element that passes.
Witness: list induction; after the first failure no later element passes.
-/
theorem takeWhile_eq_filter (falling : list.Pairwise fun left right => test right → test left)
    : list.takeWhile test = list.filter test := by
  induction list with
  | nil => rfl
  | cons head rest ih =>
    obtain ⟨first, tail⟩ := List.pairwise_cons.mp falling
    by_cases passes : test head
    · rw [List.takeWhile_cons_of_pos passes, List.filter_cons_of_pos passes, ih tail]
    · rw [List.takeWhile_cons_of_neg passes, List.filter_cons_of_neg passes]
      refine (List.filter_eq_nil_iff.mpr fun later member passed => ?_).symm
      exact passes (first later member passed)

theorem dropWhile_eq_filter (falling : list.Pairwise fun left right => test right → test left)
    : list.dropWhile test = list.filter (fun entry => !test entry) := by
  induction list with
  | nil => rfl
  | cons head rest ih =>
    obtain ⟨first, tail⟩ := List.pairwise_cons.mp falling
    by_cases passes : test head
    · rw [List.dropWhile_cons_of_pos passes, List.filter_cons_of_neg (by simp [passes]), ih tail]
    · rw [List.dropWhile_cons_of_neg passes, List.filter_eq_self.mpr]
      intro entry member
      rcases List.mem_cons.mp member with rfl | later
      · simpa using passes
      · simpa using fun passed => passes (first entry later passed)

theorem insert_sorted {relation : α → α → Prop} {entry : α}
    (sorted : list.Pairwise relation)
    (falling : list.Pairwise fun left right => test right → test left)
    (below : ∀ other ∈ list, test other → relation other entry)
    (above : ∀ other ∈ list, ¬ test other → relation entry other)
    : (list.takeWhile test ++ entry :: list.dropWhile test).Pairwise relation := by
  have split := List.pairwise_append.mp
    (show (list.takeWhile test ++ list.dropWhile test).Pairwise relation by
      rwa [List.takeWhile_append_dropWhile])
  refine List.pairwise_append.mpr ⟨split.1, List.pairwise_cons.mpr ⟨?_, split.2.1⟩, ?_⟩
  · intro other member
    rw [dropWhile_eq_filter falling, List.mem_filter] at member
    exact above other member.1 (by simpa using member.2)
  · intro left leftMember right rightMember
    rcases List.mem_cons.mp rightMember with rfl | later
    · rw [takeWhile_eq_filter falling, List.mem_filter] at leftMember
      exact below left leftMember.1 leftMember.2
    · exact split.2.2 left leftMember right later

end PacketQuapture.Library
