import PacketQuapture.Library.Front

/-! A queue of deadlines that moves an entry only when it reaches the front.
Every waiting item has one entry, placed at its deadline or before it. Once the front entry
stands at its item's deadline, it is also the least of the exact deadlines.
-/

namespace PacketQuapture.Library

universe u

variable {κ : Type u} [LinearOrder κ]

/-- `queue` holds one entry for each waiting item. `places` gives the time an item is queued
at and its deadline, which is never earlier.
-/
structure Lags (queue : Finset (Int ×ₗ κ)) (places : κ → Option (Int × Int)) : Prop where
  entry_iff : ∀ time item,
    toLex (time, item) ∈ queue ↔ ∃ deadline, places item = some (time, deadline)
  early : ∀ item time deadline, places item = some (time, deadline) → time ≤ deadline

/-- `queue` holds each waiting item at its deadline. -/
def Exact (queue : Finset (Int ×ₗ κ)) (places : κ → Option (Int × Int)) : Prop :=
  ∀ deadline item,
    toLex (deadline, item) ∈ queue ↔ ∃ time, places item = some (time, deadline)

/-- The entries that stand before their item's deadline. -/
def stale (queue : Finset (Int ×ₗ κ)) (places : κ → Option (Int × Int))
    : Finset (Int ×ₗ κ) :=
  queue.filter fun entry =>
    places (ofLex entry).2 ≠ some ((ofLex entry).1, (ofLex entry).1)

namespace Lags

variable {queue exact : Finset (Int ×ₗ κ)} {places : κ → Option (Int × Int)}
variable {item : κ} {time deadline : Int}

omit [LinearOrder κ] in
theorem vacant (idle : ∀ item, places item = none) : Lags ∅ places := by
  refine ⟨?_, ?_⟩
  · intro time item
    simp [idle item]
  · intro item time deadline place
    simp [idle item] at place

theorem exists_entry_le (lags : Lags queue places) (precise : Exact exact places)
    {entry : Int ×ₗ κ} (member : entry ∈ exact)
    : ∃ placed ∈ queue, placed ≤ entry := by
  obtain ⟨time, known⟩ := (precise (ofLex entry).1 (ofLex entry).2).mp member
  refine ⟨toLex (time, (ofLex entry).2), (lags.entry_iff _ _).mpr ⟨_, known⟩, ?_⟩
  rw [Prod.Lex.le_iff]
  rcases (lags.early _ _ _ known).lt_or_eq with before | same
  · exact .inl before
  · exact .inr ⟨same, le_rfl⟩

theorem front_le (lags : Lags queue places) (precise : Exact exact places)
    {entry other : Int ×ₗ κ} (front : front? queue = some entry) (member : other ∈ exact)
    : entry ≤ other := by
  obtain ⟨_, least⟩ := front?_eq_some_iff.mp front
  obtain ⟨placed, queued, before⟩ := lags.exists_entry_le precise member
  exact (least placed queued).trans before

/-- A front entry that stands at its deadline is the least exact deadline.
Witness: it precedes every other entry, and each of those precedes its own deadline.
-/
theorem front_exact (lags : Lags queue places) (precise : Exact exact places)
    (front : front? queue = some (toLex (time, item)))
    (current : places item = some (time, time))
    : front? exact = some (toLex (time, item)) :=
  front?_eq_some_iff.mpr ⟨(precise time item).mpr ⟨time, current⟩,
    fun _ member => lags.front_le precise front member⟩

theorem exact_eq_empty_iff (lags : Lags queue places) (precise : Exact exact places)
    : exact = ∅ ↔ queue = ∅ := by
  refine ⟨fun vacant => ?_, fun vacant => ?_⟩
  · refine Finset.eq_empty_of_forall_notMem fun entry member => ?_
    obtain ⟨deadline, known⟩ := (lags.entry_iff (ofLex entry).1 (ofLex entry).2).mp member
    have waiting := (precise deadline (ofLex entry).2).mpr ⟨_, known⟩
    simp [vacant] at waiting
  · refine Finset.eq_empty_of_forall_notMem fun entry member => ?_
    obtain ⟨placed, queued, _⟩ := lags.exists_entry_le precise member
    simp [vacant] at queued

theorem remove (lags : Lags queue places) (known : places item = some (time, deadline))
    : Lags (queue.erase (toLex (time, item))) (Function.update places item none) := by
  refine ⟨?_, ?_⟩
  · intro other key
    by_cases same : key = item
    · subst same
      simp only [Finset.mem_erase, ne_eq, EmbeddingLike.apply_eq_iff_eq, Prod.mk.injEq, and_true,
        lags.entry_iff, known, Option.some.injEq, Function.update_self, reduceCtorEq,
        exists_false, iff_false, not_and, not_exists]
      intro distinct _ placed
      exact absurd placed.symm distinct
    · simp only [Finset.mem_erase, ne_eq, EmbeddingLike.apply_eq_iff_eq, Prod.mk.injEq, same,
        and_false, not_false_eq_true, true_and, Function.update_of_ne same, lags.entry_iff]
  · intro key other late placed
    by_cases same : key = item
    · subst same
      simp at placed
    · rw [Function.update_of_ne same] at placed
      exact lags.early key other late placed

theorem place (lags : Lags queue places) (fresh : places item = none) (before : time ≤ deadline)
    : Lags (insert (toLex (time, item)) queue)
        (Function.update places item (some (time, deadline))) := by
  refine ⟨?_, ?_⟩
  · intro other key
    by_cases same : key = item
    · subst same
      simp only [Finset.mem_insert, EmbeddingLike.apply_eq_iff_eq, Prod.mk.injEq, and_true,
        lags.entry_iff, fresh, reduceCtorEq, exists_false, or_false, Function.update_self,
        Option.some.injEq, exists_and_left, exists_eq', eq_comm]
    · simp only [Finset.mem_insert, EmbeddingLike.apply_eq_iff_eq, Prod.mk.injEq, same,
        and_false, false_or, Function.update_of_ne same, lags.entry_iff]
  · intro key other late placed
    by_cases same : key = item
    · subst same
      simp only [Function.update_self, Option.some.injEq, Prod.mk.injEq] at placed
      obtain ⟨rfl, rfl⟩ := placed
      exact before
    · rw [Function.update_of_ne same] at placed
      exact lags.early key other late placed

theorem postpone (lags : Lags queue places) (known : places item = some (time, deadline))
    {later : Int} (after : deadline ≤ later)
    : Lags queue (Function.update places item (some (time, later))) := by
  refine ⟨?_, ?_⟩
  · intro other key
    by_cases same : key = item
    · subst same
      simp only [lags.entry_iff, known, Function.update_self, Option.some.injEq, Prod.mk.injEq,
        exists_and_left, exists_eq', and_true]
    · simp only [lags.entry_iff, Function.update_of_ne same]
  · intro key other late placed
    by_cases same : key = item
    · subst same
      simp only [Function.update_self, Option.some.injEq, Prod.mk.injEq] at placed
      obtain ⟨rfl, rfl⟩ := placed
      exact (lags.early _ _ _ known).trans after
    · rw [Function.update_of_ne same] at placed
      exact lags.early key other late placed

theorem requeue (lags : Lags queue places) (known : places item = some (time, deadline))
    : Lags (insert (toLex (deadline, item)) (queue.erase (toLex (time, item))))
        (Function.update places item (some (deadline, deadline))) := by
  have moved := (lags.remove known).place (Function.update_self ..) (le_refl deadline)
  rwa [Function.update_idem] at moved

/-- Moving a stale entry leaves fewer stale entries. -/
theorem stale_requeue (lags : Lags queue places) (known : places item = some (time, deadline))
    (late : time ≠ deadline)
    : (stale (insert (toLex (deadline, item)) (queue.erase (toLex (time, item))))
        (Function.update places item (some (deadline, deadline)))).card
      < (stale queue places).card := by
  have held : toLex (time, item) ∈ stale queue places := by
    refine Finset.mem_filter.mpr ⟨(lags.entry_iff _ _).mpr ⟨_, known⟩, ?_⟩
    simpa [known] using late.symm
  refine lt_of_le_of_lt (Finset.card_le_card ?_) (Finset.card_erase_lt_of_mem held)
  intro entry member
  obtain ⟨queued, misplaced⟩ := Finset.mem_filter.mp member
  by_cases same : (ofLex entry).2 = item
  · rcases Finset.mem_insert.mp queued with rfl | kept
    · simp at misplaced
    · -- the only entry of the item was the one just erased
      obtain ⟨distinct, before⟩ := Finset.mem_erase.mp kept
      obtain ⟨_, placed⟩ := (lags.entry_iff (ofLex entry).1 (ofLex entry).2).mp before
      rw [same, known] at placed
      simp only [Option.some.injEq, Prod.mk.injEq] at placed
      exact absurd (by rw [placed.1, ← same]; rfl) distinct
  · rw [Function.update_of_ne same] at misplaced
    rcases Finset.mem_insert.mp queued with rfl | kept
    · exact absurd rfl same
    · obtain ⟨distinct, before⟩ := Finset.mem_erase.mp kept
      exact Finset.mem_erase.mpr ⟨distinct, Finset.mem_filter.mpr ⟨before, misplaced⟩⟩

end Lags

end PacketQuapture.Library
