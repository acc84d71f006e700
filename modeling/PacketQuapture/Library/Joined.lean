import Mathlib

/-! Lists joined by a separator are read back.
A separator that no part holds splits the text where it was joined; only an empty list and a list
of one empty part look alike.
-/

namespace PacketQuapture.Library

variable {α : Type} {separator : α} {left right : List (List α)}

theorem intercalate_inj [DecidableEq α] (leftPlain : ∀ part ∈ left, separator ∉ part)
    (rightPlain : ∀ part ∈ right, separator ∉ part) (leftSome : left ≠ []) (rightSome : right ≠ [])
    : [separator].intercalate left = [separator].intercalate right ↔ left = right := by
  refine ⟨fun same => ?_, fun same => same ▸ rfl⟩
  rw [← List.splitOn_intercalate separator leftPlain leftSome, same,
    List.splitOn_intercalate separator rightPlain rightSome]

theorem intercalate_cons (first : List α) (rest : List (List α))
    : [separator].intercalate (first :: rest) = first ++ rest.flatMap (separator :: ·) := by
  induction rest generalizing first with
  | nil => simp
  | cons second rest ih =>
    rw [List.intercalate_cons_cons, ih, List.flatMap_cons, List.append_assoc]
    rfl

/-- A part that can be told from no part at all. -/
structure Fielded (separator : α) (part : List α) : Prop where
  occupied : part ≠ []
  plain : separator ∉ part

theorem intercalate_cons_ne_nil {first : List α} (rest : List (List α)) (occupied : first ≠ [])
    : [separator].intercalate (first :: rest) ≠ [] := by
  cases rest with
  | nil => simpa using occupied
  | cons second rest => simp [List.intercalate_cons_cons]

theorem intercalate_eq_nil_iff (fielded : ∀ part ∈ left, Fielded separator part)
    : [separator].intercalate left = [] ↔ left = [] := by
  cases left with
  | nil => simp
  | cons first rest =>
    have occupied := (fielded first List.mem_cons_self).occupied
    simp [intercalate_cons_ne_nil rest occupied]

theorem intercalate_fielded_inj [DecidableEq α] (leftFielded : ∀ part ∈ left, Fielded separator part)
    (rightFielded : ∀ part ∈ right, Fielded separator part)
    : [separator].intercalate left = [separator].intercalate right ↔ left = right := by
  by_cases leftEmpty : left = []
  · subst leftEmpty
    rw [eq_comm, List.intercalate_nil, intercalate_eq_nil_iff rightFielded, eq_comm]
  · by_cases rightEmpty : right = []
    · subst rightEmpty
      rw [List.intercalate_nil, intercalate_eq_nil_iff leftFielded]
    · exact intercalate_inj (fun part member => (leftFielded part member).plain)
        (fun part member => (rightFielded part member).plain) leftEmpty rightEmpty

theorem mem_intercalate {item : α} (parts : List (List α))
    (member : item ∈ [separator].intercalate parts)
    : item = separator ∨ ∃ part ∈ parts, item ∈ part := by
  induction parts with
  | nil => simp at member
  | cons first rest ih =>
    cases rest with
    | nil => exact .inr ⟨first, List.mem_cons_self, by simpa using member⟩
    | cons second rest =>
      rw [List.intercalate_cons_cons, List.mem_append, List.mem_append,
        List.mem_singleton] at member
      rcases member with (here | same) | later
      · exact .inr ⟨first, List.mem_cons_self, here⟩
      · exact .inl same
      · rcases ih later with same | ⟨part, among, inside⟩
        · exact .inl same
        · exact .inr ⟨part, List.mem_cons_of_mem _ among, inside⟩

end PacketQuapture.Library
