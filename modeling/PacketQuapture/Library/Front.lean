import Mathlib

/-! The least element of a finite ordered set, as a queue reads its front. -/

namespace PacketQuapture.Library

universe u

variable {α : Type u} [LinearOrder α]

/-- The least element, if there is one. -/
def front? (queue : Finset α) : Option α :=
  if nonempty : queue.Nonempty then some (queue.min' nonempty) else none

theorem front?_eq_some_iff {queue : Finset α} {entry : α}
    : front? queue = some entry ↔ entry ∈ queue ∧ ∀ other ∈ queue, entry ≤ other := by
  unfold front?
  split
  case isTrue nonempty =>
    rw [Option.some.injEq]
    constructor
    · rintro rfl
      exact ⟨queue.min'_mem nonempty, fun other member => queue.min'_le other member⟩
    · rintro ⟨member, least⟩
      exact le_antisymm (queue.min'_le entry member) (queue.le_min' nonempty entry least)
  case isFalse vacant =>
    simp [Finset.not_nonempty_iff_eq_empty.mp vacant]

theorem front?_eq_none_iff {queue : Finset α} : front? queue = none ↔ queue = ∅ := by
  unfold front?
  split
  case isTrue nonempty => simp [nonempty.ne_empty]
  case isFalse vacant => simpa using vacant

theorem sort_of_front? {queue : Finset α} {entry : α} (front : front? queue = some entry)
    : queue.sort = entry :: (queue.erase entry).sort := by
  obtain ⟨member, least⟩ := front?_eq_some_iff.mp front
  rw [← Finset.sort_insert (· ≤ ·) (fun other found => least other (Finset.mem_of_mem_erase found))
    (Finset.notMem_erase entry queue), Finset.insert_erase member]

end PacketQuapture.Library
