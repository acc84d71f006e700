import Mathlib

/-! A part of a list that stands at an offset.
Formats that are read by random access are followed through the list this way: what stands at an
offset says what a read there finds, and parts of a part stand at their own offsets.
-/

namespace PacketQuapture.Library

variable {α : Type}

/-- The part stands in the list from the offset on. -/
structure PartAt (data : List α) (offset : Nat) (part : List α) : Prop where
  inside : offset + part.length ≤ data.length
  taken : (data.drop offset).take part.length = part

namespace PartAt

variable {data more : List α} {offset : Nat} {part first second : List α}

theorem of_append (before part after : List α)
    : PartAt (before ++ (part ++ after)) before.length part where
  inside := by simp
  taken := by simp

theorem getElem? (at_ : PartAt data offset part) {index : Nat} (within : index < part.length)
    : data[offset + index]? = part[index]? := by
  have taken := congrArg (fun items => items[index]?) at_.taken
  rw [List.getElem?_take_of_lt within, List.getElem?_drop] at taken
  exact taken

theorem head {item : α} (at_ : PartAt data offset (item :: part)) : data[offset]? = some item :=
  at_.getElem? (Nat.zero_lt_succ _)

theorem append_iff
    : PartAt data offset (first ++ second)
      ↔ PartAt data offset first ∧ PartAt data (offset + first.length) second := by
  refine ⟨fun whole => ?_, fun both => ?_⟩
  · have inside := whole.inside
    have taken := whole.taken
    rw [List.length_append] at inside taken
    refine ⟨⟨by omega, ?_⟩, ⟨by omega, ?_⟩⟩
    · have prefix_ := congrArg (List.take first.length) taken
      rw [List.take_take, Nat.min_eq_left (Nat.le_add_right ..), List.take_left] at prefix_
      exact prefix_
    · have suffix := congrArg (List.drop first.length) taken
      rw [List.drop_take, List.drop_drop, Nat.add_sub_cancel_left, List.drop_left] at suffix
      exact suffix
  · obtain ⟨left, right⟩ := both
    have inside := right.inside
    refine ⟨by rw [List.length_append]; omega, ?_⟩
    rw [List.length_append, List.take_add, left.taken, List.drop_drop, right.taken]

theorem extend (at_ : PartAt data offset part) (more : List α)
    : PartAt (data ++ more) offset part := by
  have inside := at_.inside
  refine ⟨by rw [List.length_append]; omega, ?_⟩
  rw [List.drop_append_of_le_length (by omega), List.take_append_of_le_length
    (by rw [List.length_drop]; omega), at_.taken]

theorem tail {item : α} (at_ : PartAt data offset (item :: part))
    : PartAt data (offset + 1) part :=
  (append_iff.mp (show PartAt data offset ([item] ++ part) from at_)).2

theorem nil (inside : offset ≤ data.length) : PartAt data offset [] :=
  ⟨inside, List.take_zero⟩

theorem cons {item : α} (found : data[offset]? = some item) (rest : PartAt data (offset + 1) part)
    : PartAt data offset (item :: part) := by
  obtain ⟨inside, same⟩ := List.getElem?_eq_some_iff.mp found
  refine append_iff.mpr (⟨⟨inside, ?_⟩, rest⟩ : PartAt data offset [item] ∧ _)
  rw [List.drop_eq_getElem_cons inside, same]
  rfl

end PartAt

end PacketQuapture.Library
