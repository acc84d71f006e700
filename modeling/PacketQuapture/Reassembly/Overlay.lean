import PacketQuapture.Reassembly.Measure

/-! Overlaying segments: a position holds the byte some segment supplies there, and the overlay
fails exactly when two segments supply different bytes for one position.
-/

namespace PacketQuapture.Reassembly

variable {byte : UInt8}

/-! ### Positions and the bytes supplied for them -/

/-- The byte a cell holds, if a segment owns it. -/
def Cell.content (cell : Cell) : Option UInt8 :=
  if cell.owner = unowned then none else some cell.byte

def contentAt (cells : List Cell) (pos : Nat) : Option UInt8 :=
  cells[pos]?.bind Cell.content

/-- Some segment, placed by its distance from `base`, has `byte` at stream position `pos`. -/
def Supplies (base : UInt32) (segments : List Segment) (pos : Nat) (byte : UInt8) : Prop :=
  ∃ segment ∈ segments,
    ∃ index, segment.bytes[index]? = some byte ∧ pos = (segment.sequence - base).toNat + index

theorem supplies_cons {base : UInt32} {segment : Segment} {rest : List Segment} {pos : Nat}
    : Supplies base (segment :: rest) pos byte
      ↔ (∃ index,
          segment.bytes[index]? = some byte ∧ pos = (segment.sequence - base).toNat + index)
        ∨ Supplies base rest pos byte := by
  simp only [Supplies, List.mem_cons, exists_eq_or_imp]

theorem Supplies.mono {base : UInt32} {left right : List Segment} {pos : Nat}
    (within
      : ∀ segment ∈ left,
          ∃ other ∈ right, other.sequence = segment.sequence ∧ other.bytes = segment.bytes)
    (supplied : Supplies base left pos byte)
    : Supplies base right pos byte := by
  obtain ⟨segment, member, index, found, place⟩ := supplied
  obtain ⟨other, otherMember, sequence, bytes⟩ := within segment member
  exact ⟨other, otherMember, index, by rw [bytes, found], by rw [sequence, place]⟩

@[simp] theorem contentAt_blank (extent pos : Nat)
    : contentAt (List.replicate extent {}) pos = none := by
  simp only [contentAt, List.getElem?_replicate]
  split <;> simp [Cell.content]

/-! ### One byte, one segment, all segments -/

variable {index pos : Nat} {cells next : List Cell}

theorem overlayByte_eq_some (inside : pos < cells.length) (named : index < unowned)
    (wrote : overlayByte index pos byte cells = some next)
    : next.length = cells.length
      ∧ ∀ at_ other,
          contentAt next at_ = some other
          ↔ contentAt cells at_ = some other ∨ at_ = pos ∧ other = byte := by
  have owner : index % 2 ^ 32 ≠ unowned := by
    rw [Nat.mod_eq_of_lt (by unfold unowned at named; omega)]
    exact Nat.ne_of_lt named
  simp only [overlayByte, List.getD_eq_getElem?_getD, List.getElem?_eq_getElem inside,
    Option.getD_some] at wrote
  split at wrote
  · cases wrote
  case isFalse agrees =>
    split at wrote
    case isTrue free =>
      cases wrote
      refine ⟨List.length_set, fun at_ other => ?_⟩
      by_cases here : at_ = pos
      · subst here
        simp only [contentAt, List.getElem?_set_self inside, List.getElem?_eq_getElem inside,
          Option.bind_some, Cell.content, if_neg owner, if_pos free, Option.some.injEq,
          reduceCtorEq, true_and, false_or]
        exact eq_comm
      · simp [contentAt, List.getElem?_set_ne (Ne.symm here), here]
    case isFalse taken =>
      cases wrote
      refine ⟨rfl, fun at_ other => ?_⟩
      constructor
      · exact .inl
      · rintro (held | ⟨rfl, rfl⟩)
        · exact held
        · simp only [ne_eq, taken, not_false_eq_true, true_and, not_not] at agrees
          simp [contentAt, List.getElem?_eq_getElem inside, Cell.content, taken, agrees]

theorem overlayByte_eq_none (inside : pos < cells.length)
    (clash : overlayByte index pos byte cells = none)
    : ∃ other, contentAt cells pos = some other ∧ other ≠ byte := by
  simp only [overlayByte, List.getD_eq_getElem?_getD, List.getElem?_eq_getElem inside,
    Option.getD_some] at clash
  split at clash
  case isTrue differs =>
    refine ⟨cells[pos].byte, ?_, differs.2⟩
    simp [contentAt, List.getElem?_eq_getElem inside, Cell.content, differs.1]
  · split at clash <;> cases clash

theorem exists_getElem?_cons {head other : UInt8} {rest : List UInt8} {at_ : Nat}
    : (∃ index, (head :: rest)[index]? = some other ∧ at_ = pos + index)
      ↔ (at_ = pos ∧ other = head)
        ∨ ∃ index, rest[index]? = some other ∧ at_ = pos + 1 + index := by
  constructor
  · rintro ⟨index, found, rfl⟩
    cases index with
    | zero => exact .inl ⟨rfl, by simpa using found.symm⟩
    | succ index => exact .inr ⟨index, by simpa using found, by omega⟩
  · rintro (⟨rfl, rfl⟩ | ⟨index, found, rfl⟩)
    · exact ⟨0, rfl, rfl⟩
    · exact ⟨index + 1, by simpa using found, by omega⟩

theorem overlaySegment_eq_some {bytes : List UInt8} (inside : pos + bytes.length ≤ cells.length)
    (named : index < unowned) (wrote : overlaySegment index pos bytes cells = some next)
    : next.length = cells.length
      ∧ ∀ at_ other,
          contentAt next at_ = some other
          ↔ contentAt cells at_ = some other
            ∨ ∃ offset, bytes[offset]? = some other ∧ at_ = pos + offset := by
  induction bytes generalizing pos cells with
  | nil =>
    cases wrote
    simp
  | cons head rest ih =>
    rw [List.length_cons] at inside
    obtain ⟨middle, first, later⟩ := Option.bind_eq_some_iff.mp wrote
    obtain ⟨length, content⟩ := overlayByte_eq_some (by omega) named first
    obtain ⟨lengthLater, contentLater⟩ := ih (by omega) later
    refine ⟨lengthLater.trans length, fun at_ other => ?_⟩
    rw [contentLater, content, exists_getElem?_cons, or_assoc]

theorem overlaySegment_eq_none {bytes : List UInt8} (inside : pos + bytes.length ≤ cells.length)
    (named : index < unowned) (clash : overlaySegment index pos bytes cells = none)
    : ∃ at_ left right,
        left ≠ right
        ∧ contentAt cells at_ = some left
        ∧ ∃ offset, bytes[offset]? = some right ∧ at_ = pos + offset := by
  induction bytes generalizing pos cells with
  | nil => cases clash
  | cons head rest ih =>
    rw [List.length_cons] at inside
    rw [overlaySegment] at clash
    cases first : overlayByte index pos head cells with
    | none =>
      obtain ⟨other, held, differs⟩ := overlayByte_eq_none (by omega) first
      exact ⟨pos, other, head, differs, held, 0, rfl, rfl⟩
    | some middle =>
      rw [first, Option.bind_some] at clash
      obtain ⟨length, content⟩ := overlayByte_eq_some (by omega) named first
      obtain ⟨at_, left, right, differs, held, offset, found, place⟩ :=
        ih (by omega) clash
      rcases (content at_ left).mp held with before | ⟨here, _⟩
      · exact ⟨at_, left, right, differs, before, offset + 1, by simpa using found,
          by omega⟩
      · omega

/-- A segment lies at its distance from `base`, inside `extent` positions. -/
abbrev Inside (base : UInt32) (extent : Nat) (segment : Segment) (offset : Nat) : Prop :=
  offset = (segment.sequence - base).toNat ∧ offset + segment.bytes.length ≤ extent

variable {base : UInt32} {extent : Nat} {segments : List Segment} {offsets : List Nat}

theorem overlay_eq_some (inside : List.Forall₂ (Inside base extent) segments offsets)
    (sized : cells.length = extent) (named : index + segments.length ≤ unowned)
    (wrote : overlay index segments offsets cells = some next)
    : next.length = cells.length
      ∧ ∀ pos byte,
          contentAt next pos = some byte
          ↔ contentAt cells pos = some byte ∨ Supplies base segments pos byte := by
  induction inside generalizing index cells with
  | nil =>
    cases wrote
    simp [Supplies]
  | @cons segment offset rest offsets head tail ih =>
    rw [List.length_cons] at named
    obtain ⟨middle, first, later⟩ := Option.bind_eq_some_iff.mp wrote
    obtain ⟨length, content⟩ := overlaySegment_eq_some (by omega) (by omega) first
    obtain ⟨lengthLater, contentLater⟩ := ih (length.trans sized) (by omega) later
    refine ⟨lengthLater.trans length, fun pos byte => ?_⟩
    rw [contentLater, content, supplies_cons, or_assoc, head.1]

theorem overlay_eq_none (inside : List.Forall₂ (Inside base extent) segments offsets)
    (sized : cells.length = extent) (named : index + segments.length ≤ unowned)
    (clash : overlay index segments offsets cells = none)
    : ∃ pos left right,
        left ≠ right
        ∧ (contentAt cells pos = some left ∨ Supplies base segments pos left)
        ∧ Supplies base segments pos right := by
  induction inside generalizing index cells with
  | nil => cases clash
  | @cons segment offset rest offsets head tail ih =>
    rw [List.length_cons] at named
    rw [overlay] at clash
    cases first : overlaySegment index offset segment.bytes cells with
    | none =>
      obtain ⟨pos, left, right, differs, held, supplied⟩ :=
        overlaySegment_eq_none (by omega) (by omega) first
      exact ⟨pos, left, right, differs, .inl held, supplies_cons.mpr (.inl (head.1 ▸ supplied))⟩
    | some middle =>
      rw [first, Option.bind_some] at clash
      obtain ⟨length, content⟩ := overlaySegment_eq_some (by omega) (by omega) first
      obtain ⟨pos, left, right, differs, held, supplied⟩ :=
        ih (length.trans sized) (by omega) clash
      refine ⟨pos, left, right, differs, ?_, supplies_cons.mpr (.inr supplied)⟩
      rw [content, or_assoc, head.1, ← supplies_cons] at held
      exact held

theorem overlay_blank_eq_some (inside : List.Forall₂ (Inside base extent) segments offsets)
    (named : segments.length ≤ unowned)
    (wrote : overlay 0 segments offsets (List.replicate extent {}) = some cells)
    : cells.length = extent
      ∧ ∀ pos byte, contentAt cells pos = some byte ↔ Supplies base segments pos byte := by
  have sized : (List.replicate extent ({} : Cell)).length = extent := List.length_replicate
  obtain ⟨length, content⟩ := overlay_eq_some inside sized (by omega) wrote
  refine ⟨length.trans sized, fun pos byte => ?_⟩
  rw [content, contentAt_blank]
  simp

theorem overlay_blank_eq_none_iff (inside : List.Forall₂ (Inside base extent) segments offsets)
    (named : segments.length ≤ unowned)
    : overlay 0 segments offsets (List.replicate extent {}) = none
      ↔ ∃ pos left right,
          left ≠ right ∧ Supplies base segments pos left ∧ Supplies base segments pos right := by
  have sized : (List.replicate extent ({} : Cell)).length = extent := List.length_replicate
  constructor
  · intro clash
    obtain ⟨pos, left, right, differs, held, supplied⟩ :=
      overlay_eq_none inside sized (by omega) clash
    rw [contentAt_blank] at held
    exact ⟨pos, left, right, differs, held.resolve_left (by simp), supplied⟩
  · rintro ⟨pos, left, right, differs, leftSupplied, rightSupplied⟩
    cases wrote : overlay 0 segments offsets (List.replicate extent {}) with
    | none => rfl
    | some cells =>
      obtain ⟨_, content⟩ := overlay_blank_eq_some inside named wrote
      have same := ((content pos left).mpr leftSupplied).symm.trans
        ((content pos right).mpr rightSupplied)
      exact absurd (Option.some.inj same) differs

end PacketQuapture.Reassembly
