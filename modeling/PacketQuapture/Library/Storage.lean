import Mathlib

/-! Bytes written at a position that moves on. -/

namespace PacketQuapture.Library

/-- What is stored, and where the next bytes go. -/
structure Storage where
  contents : List UInt8 := []
  position : Nat := 0
deriving DecidableEq, Repr

namespace Storage

/-- Overwrites from the position on; a gap before it is zero. -/
def store (storage : Storage) (data : List UInt8) : Storage where
  contents := storage.contents.take storage.position
    ++ List.replicate (storage.position - storage.contents.length) 0
    ++ data ++ storage.contents.drop (storage.position + data.length)
  position := storage.position + data.length

def seek (storage : Storage) (offset : Nat) : Storage :=
  { storage with position := offset }

/-- Where the position is: after `before`, ahead of `behind`. -/
structure At (storage : Storage) (before behind : List UInt8) : Prop where
  contents : storage.contents = before ++ behind
  position : storage.position = before.length

variable {storage : Storage} {before behind : List UInt8}

/-- Bytes go between what is before the position and what they do not reach. -/
theorem At.store (at_ : storage.At before behind) (data : List UInt8)
    : (storage.store data).At (before ++ data) (behind.drop data.length) := by
  obtain ⟨contents, position⟩ := at_
  refine ⟨?_, ?_⟩
  · rw [Storage.store, contents, position, List.take_left, List.length_append,
      Nat.sub_eq_zero_of_le (Nat.le_add_right _ _), ← List.drop_drop, List.drop_left]
    simp only [List.replicate_zero, List.append_nil]
  · rw [Storage.store, position, List.length_append]

theorem At.seek (at_ : storage.At before behind) {front rest : List UInt8}
    (split : before ++ behind = front ++ rest)
    : (storage.seek front.length).At front rest :=
  ⟨at_.contents.trans split, rfl⟩

end Storage

end PacketQuapture.Library
