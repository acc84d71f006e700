import Mathlib

/-! Filtered lists, related lists, and the place of an item's last occurrence. -/

namespace PacketQuapture.Library

/-- With distinct keys an element is the only one of its key. -/
theorem filter_eq_singleton {α κ : Type} [DecidableEq κ] {key : α → κ} {elements : List α}
    {element : α} (distinct : (elements.map key).Nodup) (member : element ∈ elements)
    : elements.filter (fun other => key other = key element) = [element] := by
  induction elements with
  | nil => exact absurd member List.not_mem_nil
  | cons head tail ih =>
    obtain ⟨fresh, distinct⟩ := List.nodup_cons.mp distinct
    rcases List.mem_cons.mp member with rfl | later
    · rw [List.filter_cons_of_pos (by simp), List.filter_eq_nil_iff.mpr]
      intro other among
      have different : key other ≠ key element := fun same =>
        fresh (same ▸ List.mem_map_of_mem among)
      simpa using different
    · have different : key head ≠ key element := fun same =>
        fresh (same ▸ List.mem_map_of_mem later)
      rw [List.filter_cons_of_neg (by simpa using different), ih distinct later]

/-- Mapping the items of a list that may be absent. -/
theorem getD_map_map {α β : Type} {f : α → β} (values : Option (List α))
    : (values.map (List.map f)).getD [] = (values.getD []).map f := by
  cases values <;> rfl

/-- The numbers below a bound are those of the shorter range. -/
theorem range_filter_lt {bound size : Nat} (inside : bound ≤ size)
    : (List.range size).filter (fun index => decide (index < bound)) = List.range bound := by
  obtain ⟨extra, rfl⟩ := Nat.exists_eq_add_of_le inside
  rw [List.range_add, List.filter_append, List.filter_eq_self.mpr, List.filter_eq_nil_iff.mpr,
    List.append_nil]
  · intro index member
    obtain ⟨above, _, rfl⟩ := List.mem_map.mp member
    simp
  · intro index member
    simpa using member

/-- A relation that is decided by the left side wherever another relation holds.
Witness: induction on the other relation.
-/
theorem forall₂_iff_of_forall₂ {α β : Type} {related other : α → β → Prop} {holds : α → Prop}
    {left : List α} {right : List β}
    (decided : ∀ first second, related first second → (other first second ↔ holds first))
    (told : List.Forall₂ related left right)
    : List.Forall₂ other left right ↔ ∀ first ∈ left, holds first := by
  induction told with
  | nil => simp
  | cons head _ ih => rw [List.forall₂_cons, decided _ _ head, ih, List.forall_mem_cons]

theorem exists_left_of_forall₂ {α β : Type} {related : α → β → Prop} {left : List α}
    {right : List β} (told : List.Forall₂ related left right) {second : β} (member : second ∈ right)
    : ∃ first, related first second := by
  induction told with
  | nil => cases member
  | cons head _ ih =>
    rcases List.mem_cons.mp member with rfl | later
    · exact ⟨_, head⟩
    · exact ih later

variable {α : Type} [DecidableEq α]

/-- Lists with the same items of every kind, in the same order, are permutations of each other. -/
theorem perm_of_filter_eq {κ : Type} [DecidableEq κ] (kind : α → κ) {left right : List α}
    (parts : ∀ key, left.filter (kind · = key) = right.filter (kind · = key))
    : left.Perm right := by
  refine List.perm_iff_count.mpr fun item => ?_
  have count (list : List α) : list.count item = (list.filter (kind · = kind item)).count item :=
    (List.count_filter (by simp)).symm
  rw [count left, count right, parts]

/-- A list whose items of every kind come first among those of another is a part of it. -/
theorem subperm_of_filter_prefix {κ : Type} [DecidableEq κ] (kind : α → κ) {left right : List α}
    (parts : ∀ key, left.filter (kind · = key) <+: right.filter (kind · = key))
    : left.Subperm right := by
  refine List.subperm_ext_iff.mpr fun item _ => ?_
  have count (list : List α) : list.count item = (list.filter (kind · = kind item)).count item :=
    (List.count_filter (by simp)).symm
  rw [count left, count right]
  exact (parts _).sublist.count_le item

/-- Where an item occurs last, counted from one; zero if it does not occur. -/
def lastOccurrence (list : List α) (item : α) : Nat :=
  list.length - list.reverse.idxOf item

theorem lastOccurrence_lt {front rest : List α} {item other : α} (once : item ∉ rest)
    (later : other ∈ rest)
    : lastOccurrence (front ++ item :: rest) item
      < lastOccurrence (front ++ item :: rest) other := by
  have place : (front ++ item :: rest).reverse = rest.reverse ++ item :: front.reverse := by
    rw [List.reverse_append, List.reverse_cons, List.append_assoc, List.singleton_append]
  have absent : item ∉ rest.reverse := fun member => once (List.mem_reverse.mp member)
  have present : other ∈ rest.reverse := List.mem_reverse.mpr later
  have before := List.idxOf_lt_length_iff.mpr present
  rw [List.length_reverse] at before
  unfold lastOccurrence
  rw [place, List.idxOf_append_of_notMem absent, List.idxOf_append_of_mem present,
    List.idxOf_cons_self, List.length_reverse, List.length_append, List.length_cons]
  omega

end PacketQuapture.Library
