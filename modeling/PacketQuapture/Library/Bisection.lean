import Mathlib.Data.List.TakeWhile

/-! Searching an ordered list by halving. -/

namespace PacketQuapture.Library

variable {α : Type} {test : α → Bool} {list : List α}

/-- `std::upper_bound` on `count` elements from `first` on: halves them until the first element that
fails the test is found.
-/
def bisect (test : α → Bool) (list : List α) : Nat → Nat → Nat → Nat
  | fuel + 1, first, count =>
    if count = 0 then first
    else if (list[first + count / 2]?.map test).getD false then
      bisect test list fuel (first + count / 2 + 1) (count - count / 2 - 1)
    else
      bisect test list fuel first (count / 2)
  | 0, first, _ => first

def upperBound (test : α → Bool) (list : List α) : Nat :=
  bisect test list (list.length + 1) 0 list.length

/-- The elements that pass come before those that fail. -/
def Partitioned (test : α → Bool) (list : List α) : Prop :=
  list.Pairwise fun left right => test right = true → test left = true

/-- In a partitioned list an element passes exactly when it is among the leading ones. -/
theorem Partitioned.passes_iff (partitioned : Partitioned test list) (index : Nat)
    : (list[index]?.map test).getD false = true ↔ index < (list.takeWhile test).length := by
  induction list generalizing index with
  | nil => simp
  | cons head rest ih =>
    obtain ⟨first, later⟩ := List.pairwise_cons.mp partitioned
    by_cases passes : test head = true
    · rw [List.takeWhile_cons_of_pos passes]
      cases index with
      | zero => simp [passes]
      | succ index => simpa using ih later index
    · rw [List.takeWhile_cons_of_neg passes]
      cases index with
      | zero => simp [passes]
      | succ index =>
        cases found : rest[index]? with
        | none => simp [found]
        | some item =>
          have fails : ¬ test item = true := fun pass =>
            passes (first item (List.mem_of_getElem? found) pass)
          simp [found, fails]

theorem Partitioned.takeWhile_eq_filter (partitioned : Partitioned test list)
    : list.takeWhile test = list.filter test := by
  induction list with
  | nil => rfl
  | cons head rest ih =>
    obtain ⟨first, later⟩ := List.pairwise_cons.mp partitioned
    by_cases passes : test head = true
    · rw [List.takeWhile_cons_of_pos passes, List.filter_cons_of_pos passes, ih later]
    · rw [List.takeWhile_cons_of_neg passes, eq_comm, List.filter_eq_nil_iff]
      exact List.forall_mem_cons.mpr ⟨passes, fun item member pass =>
        passes (first item member pass)⟩

/-- Halving ends at the first element that fails.
Witness: induction on the fuel; the boundary stays within the elements left.
-/
theorem Partitioned.bisect_eq (partitioned : Partitioned test list) {fuel first count : Nat}
    (enough : count < fuel) (lower : first ≤ (list.takeWhile test).length)
    (upper : (list.takeWhile test).length ≤ first + count)
    : bisect test list fuel first count = (list.takeWhile test).length := by
  induction fuel generalizing first count with
  | zero => exact absurd enough (Nat.not_lt_zero _)
  | succ fuel ih =>
    have middle := partitioned.passes_iff (first + count / 2)
    rw [bisect]
    by_cases empty : count = 0
    · rw [if_pos empty]
      omega
    rw [if_neg empty]
    by_cases passes : (list[first + count / 2]?.map test).getD false = true
    · have beyond := middle.mp passes
      rw [if_pos passes]
      exact ih (by omega) (by omega) (by omega)
    · have before := mt middle.mpr passes
      rw [if_neg passes]
      exact ih (by omega) lower (by omega)

theorem Partitioned.upperBound_eq (partitioned : Partitioned test list)
    : upperBound test list = (list.takeWhile test).length :=
  partitioned.bisect_eq (Nat.lt_succ_self _) (Nat.zero_le _)
    ((List.takeWhile_prefix test).length_le.trans_eq (Nat.zero_add _).symm)

end PacketQuapture.Library
