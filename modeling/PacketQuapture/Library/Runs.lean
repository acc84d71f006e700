import Mathlib

/-! The maximal runs of a list under a key, each with the offset it starts at. -/

namespace PacketQuapture.Library

variable {α β γ : Type} [DecidableEq β]

/-- The elements from the front on that share the first one's key. -/
def leadingRun (key : α → β) : List α → List α
  | [] => []
  | head :: rest => (head :: rest).takeWhile fun next => key next = key head

/-- Cuts a list into its maximal runs of one key; `fuel` bounds their number. -/
def runs (key : α → β) : Nat → Nat → List α → List (Nat × List α)
  | fuel + 1, offset, head :: rest =>
    let run := leadingRun key (head :: rest)
    (offset, run) :: runs key fuel (offset + run.length) ((head :: rest).drop run.length)
  | _, _, _ => []

variable {key : α → β}
variable {fuel : Nat} {list : List α}

theorem leadingRun_cons_length_pos (key : α → β) (head : α) (rest : List α)
    : 0 < (leadingRun key (head :: rest)).length := by
  simp [leadingRun]

theorem leadingRun_append_drop (key : α → β) (list : List α)
    : leadingRun key list ++ list.drop (leadingRun key list).length = list := by
  cases list with
  | nil => rfl
  | cons head rest =>
    have isPrefix : leadingRun key (head :: rest) <+: head :: rest := List.takeWhile_prefix _
    exact List.prefix_iff_eq_append.mp isPrefix

theorem key_of_mem_leadingRun {head : α} {rest : List α} {item : α}
    (member : item ∈ leadingRun key (head :: rest))
    : key item = key head := by
  simpa using List.mem_takeWhile_imp member

theorem leadingRun_map (key : α → β) (change : γ → α) (list : List γ)
    : leadingRun key (list.map change)
      = (leadingRun (fun item => key (change item)) list).map change := by
  cases list with
  | nil => rfl
  | cons head rest =>
    rw [List.map_cons, leadingRun, leadingRun, ← List.map_cons, List.takeWhile_map]
    rfl

/-- Runs of an image under a key are the images of the runs under the pulled-back key.
Witness: induction on the fuel; both sides cut off the same number of elements.
-/
theorem runs_map (change : γ → α) (fuel offset : Nat) (list : List γ)
    : runs key fuel offset (list.map change)
      = (runs (fun item => key (change item)) fuel offset list).map
          fun piece => (piece.1, piece.2.map change) := by
  induction fuel generalizing offset list with
  | zero => rfl
  | succ fuel ih =>
    cases list with
    | nil => rfl
    | cons head rest =>
      have cut := leadingRun_map key change (head :: rest)
      rw [List.map_cons] at cut
      rw [List.map_cons, runs, runs, List.map_cons]
      dsimp only
      rw [cut, List.length_map, ← List.map_cons, ← List.map_drop, ih]

/-- A run is not empty, lies inside the list, and all its elements share a key. -/
theorem mem_runs {offset : Nat} {piece : Nat × List α} (member : piece ∈ runs key fuel offset list)
    : piece.2 ≠ []
      ∧ offset ≤ piece.1
      ∧ piece.1 + piece.2.length ≤ offset + list.length
      ∧ ∀ left ∈ piece.2, ∀ right ∈ piece.2, key left = key right := by
  induction fuel generalizing offset list with
  | zero => cases list <;> cases member
  | succ fuel ih =>
    cases list with
    | nil => cases member
    | cons head rest =>
      have positive := leadingRun_cons_length_pos key head rest
      have split := congrArg List.length (leadingRun_append_drop key (head :: rest))
      rw [List.length_append] at split
      rw [runs, List.mem_cons] at member
      rcases member with rfl | later
      · refine ⟨List.ne_nil_of_length_pos positive, le_rfl, by dsimp only; omega, ?_⟩
        intro left leftIn right rightIn
        exact (key_of_mem_leadingRun leftIn).trans (key_of_mem_leadingRun rightIn).symm
      · obtain ⟨occupied, lower, upper, uniform⟩ := ih later
        exact ⟨occupied, by omega, by omega, uniform⟩

/-- With fuel for every element, each element lies in a run at its own position. -/
theorem exists_mem_runs (key : α → β) (offset : Nat) (enough : list.length ≤ fuel) {index : Nat}
    {item : α} (at_ : list[index]? = some item)
    : ∃ piece ∈ runs key fuel offset list,
        ∃ within, piece.1 + within = offset + index ∧ piece.2[within]? = some item := by
  induction fuel generalizing offset list index with
  | zero =>
    have empty : list = [] := List.eq_nil_of_length_eq_zero (Nat.le_zero.mp enough)
    simp [empty] at at_
  | succ fuel ih =>
    cases list with
    | nil => simp at at_
    | cons head rest =>
      have positive := leadingRun_cons_length_pos key head rest
      have split := leadingRun_append_drop key (head :: rest)
      rw [runs]
      generalize leadingRun key (head :: rest) = run at positive split ⊢
      rw [← split] at at_
      by_cases inRun : index < run.length
      · rw [List.getElem?_append_left inRun] at at_
        exact ⟨_, List.mem_cons_self, index, rfl, at_⟩
      · rw [List.getElem?_append_right (Nat.not_lt.mp inRun)] at at_
        have shorter : ((head :: rest).drop run.length).length ≤ fuel := by
          rw [List.length_drop]
          omega
        obtain ⟨piece, member, within, place, found⟩ :=
          ih (offset + run.length) shorter at_
        exact ⟨piece, List.mem_cons_of_mem _ member, within, by omega, found⟩

theorem runs_uniform (occupied : list ≠ [])
    (uniform : ∀ left ∈ list, ∀ right ∈ list, key left = key right) (fuel offset : Nat)
    : runs key (fuel + 1) offset list = [(offset, list)] := by
  obtain ⟨head, rest, rfl⟩ := List.exists_cons_of_ne_nil occupied
  have whole : leadingRun key (head :: rest) = head :: rest := by
    refine List.takeWhile_eq_self_iff.mpr fun item member => ?_
    simpa using uniform item member head List.mem_cons_self
  rw [runs, whole, List.drop_length]
  cases fuel <;> rfl

/-! ### Maximal runs of positions -/

/-- A run of positions below `extent` where `holds`, which cannot be made longer. -/
structure MaximalRun (holds : Nat → Prop) (extent start length : Nat) : Prop where
  occupied : 0 < length
  inside : start + length ≤ extent
  throughout : ∀ pos, start ≤ pos → pos < start + length → holds pos
  left : start = 0 ∨ ¬ holds (start - 1)
  right : start + length = extent ∨ ¬ holds (start + length)

namespace MaximalRun

variable {holds other : Nat → Prop} {extent start length start' length' : Nat}

theorem congr (same : ∀ pos < extent, holds pos ↔ other pos)
    (run : MaximalRun holds extent start length)
    : MaximalRun other extent start length := by
  have occupied := run.occupied
  have inside := run.inside
  refine ⟨occupied, inside, fun pos lower upper => ?_, ?_, ?_⟩
  · exact (same pos (by omega)).mp (run.throughout pos lower upper)
  · rw [← same _ (by omega)]
    exact run.left
  · by_cases ends : start + length = extent
    · exact .inl ends
    · rw [← same _ (by omega)]
      exact run.right

theorem le_of_shared (run : MaximalRun holds extent start length)
    (fellow : MaximalRun holds extent start' length') {pos : Nat} (lower : start ≤ pos)
    (upper : pos < start + length) (lower' : start' ≤ pos) (upper' : pos < start' + length')
    : start ≤ start' ∧ start' + length' ≤ start + length := by
  have inside := fellow.inside
  constructor
  · by_contra later
    rcases run.left with first | bound
    · omega
    · exact bound (fellow.throughout _ (by omega) (by omega))
  · by_contra longer
    rcases run.right with last | bound
    · omega
    · exact bound (fellow.throughout _ (by omega) (by omega))

theorem unique (run : MaximalRun holds extent start length)
    (fellow : MaximalRun holds extent start' length') {pos : Nat} (lower : start ≤ pos)
    (upper : pos < start + length) (lower' : start' ≤ pos) (upper' : pos < start' + length')
    : start = start' ∧ length = length' := by
  have here := run.le_of_shared fellow lower upper lower' upper'
  have there := fellow.le_of_shared run lower' upper' lower upper
  omega

end MaximalRun

theorem getElem?_of_mem_runs {offset : Nat} {piece : Nat × List α}
    (member : piece ∈ runs key fuel offset list) {within : Nat} (inside : within < piece.2.length)
    : list[piece.1 - offset + within]? = piece.2[within]? := by
  induction fuel generalizing offset list with
  | zero => cases list <;> cases member
  | succ fuel ih =>
    cases list with
    | nil => cases member
    | cons head rest =>
      have split := leadingRun_append_drop key (head :: rest)
      rw [runs, List.mem_cons] at member
      generalize leadingRun key (head :: rest) = run at split member
      rcases member with rfl | later
      · dsimp only at inside ⊢
        rw [Nat.sub_self, Nat.zero_add, ← split, List.getElem?_append_left inside]
      · have lower := (mem_runs later).2.1
        rw [← ih later, List.getElem?_drop]
        congr 1
        omega

theorem key_after_leadingRun {head : α} {rest : List α} {next : α}
    (follows : (head :: rest)[(leadingRun key (head :: rest)).length]? = some next)
    : key next ≠ key head := by
  rw [leadingRun] at follows
  have stops := List.head?_dropWhile_not (fun next => decide (key next = key head)) (head :: rest)
  nth_rewrite 1 [← List.takeWhile_append_dropWhile (p := fun next => decide (key next = key head))
    (l := head :: rest)] at follows
  rw [List.getElem?_append_right le_rfl, Nat.sub_self, ← List.head?_eq_getElem?] at follows
  rw [follows] at stops
  simpa using stops

/-- Each run of a list, from a place on where the key changes, is a maximal run of positions.
Witness: induction on the fuel; the key changes again where the leading run ends.
-/
theorem runs_maximal {whole : List α} {offset : Nat}
    (cut : offset = 0 ∨ whole[offset - 1]?.map key ≠ whole[offset]?.map key) {piece : Nat × List α}
    (member : piece ∈ runs key fuel offset (whole.drop offset))
    : ∃ label, (∀ item ∈ piece.2, key item = label)
        ∧ MaximalRun (fun pos => whole[pos]?.map key = some label) whole.length piece.1
          piece.2.length := by
  induction fuel generalizing offset with
  | zero => cases whole.drop offset <;> cases member
  | succ fuel ih =>
    cases left : whole.drop offset with
    | nil =>
      rw [left] at member
      cases member
    | cons head rest =>
      have positive := leadingRun_cons_length_pos key head rest
      have split := leadingRun_append_drop key (head :: rest)
      have size := congrArg List.length left
      have count := congrArg List.length split
      rw [List.length_drop] at size
      rw [List.length_append] at count
      have first : whole[offset]? = some head := by
        have found := congrArg (·[0]?) left
        simpa using found
      have after (next : α)
          (follows : whole[offset + (leadingRun key (head :: rest)).length]? = some next)
          : key next ≠ key head := by
        rw [← List.getElem?_drop, left] at follows
        exact key_after_leadingRun follows
      have inRun (pos : Nat) (lower : offset ≤ pos)
          (upper : pos < offset + (leadingRun key (head :: rest)).length)
          : whole[pos]?.map key = some (key head) := by
        obtain ⟨within, rfl⟩ := Nat.exists_eq_add_of_le lower
        rw [← List.getElem?_drop, left, ← split, List.getElem?_append_left (by omega),
          List.getElem?_eq_getElem (by omega), Option.map_some]
        exact congrArg some (key_of_mem_leadingRun (List.getElem_mem _))
      rw [left, runs, List.mem_cons] at member
      rcases member with rfl | later
      · refine ⟨key head, fun item itemIn => key_of_mem_leadingRun itemIn, positive, ?_, inRun,
          ?_, ?_⟩
        · dsimp only
          omega
        · rw [first] at cut
          exact cut
        · by_cases ends : offset + (leadingRun key (head :: rest)).length = whole.length
          · exact .inl ends
          · refine .inr fun same => ?_
            obtain ⟨next, follows, keyed⟩ := Option.map_eq_some_iff.mp same
            exact after next follows keyed
      · have further : (head :: rest).drop (leadingRun key (head :: rest)).length
            = whole.drop (offset + (leadingRun key (head :: rest)).length) := by
          rw [← List.drop_drop, left]
        rw [further] at later
        refine ih (.inr ?_) later
        rw [inRun _ (by omega) (by omega)]
        intro same
        obtain ⟨next, follows, keyed⟩ := Option.map_eq_some_iff.mp same.symm
        exact after next follows keyed

theorem maximalRun_iff_mem_runs {whole : List α} {label : β} {start length : Nat}
    : MaximalRun (fun pos => whole[pos]?.map key = some label) whole.length start length
      ↔ ∃ piece ∈ runs key whole.length 0 whole,
          (∀ item ∈ piece.2, key item = label) ∧ piece.1 = start ∧ piece.2.length = length := by
  constructor
  · intro run
    have occupied := run.occupied
    obtain ⟨item, found, keyed⟩ := Option.map_eq_some_iff.mp (run.throughout start le_rfl (by omega))
    obtain ⟨piece, member, within, place, there⟩ := exists_mem_runs key 0 le_rfl found
    obtain ⟨inside, _⟩ := List.getElem?_eq_some_iff.mp there
    obtain ⟨other, uniform, fellow⟩ := runs_maximal (.inl rfl) member
    obtain rfl : other = label := (uniform item (List.mem_of_getElem? there)).symm.trans keyed
    obtain ⟨starts, ends⟩ := fellow.unique run (show piece.1 ≤ start by omega) (by omega) le_rfl
      (by omega)
    exact ⟨piece, member, uniform, starts, ends⟩
  · rintro ⟨piece, member, uniform, rfl, rfl⟩
    obtain ⟨other, labelled, run⟩ := runs_maximal (.inl rfl) member
    obtain ⟨item, itemIn⟩ := List.exists_mem_of_ne_nil _ (mem_runs member).1
    obtain rfl : other = label := (labelled item itemIn).symm.trans (uniform item itemIn)
    exact run

end PacketQuapture.Library
