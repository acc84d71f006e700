import PacketQuapture.Reassembly.Finish

/-! Finishing does not depend on the order of the segments: the stream's base is the earliest
sequence whichever segment it is measured from, as long as every segment fits a window shorter
than half the sequence circle.
-/

namespace PacketQuapture.Reassembly

open Library

/-! ### Distances within half the circle -/

theorem add_ofInt_relativeSequence (sequence base : UInt32)
    : base + UInt32.ofInt (relativeSequence sequence base) = sequence := by
  apply UInt32.toNat_inj.mp
  have bound := sequence.toNat_lt
  have baseBound := base.toNat_lt
  simp only [UInt32.toNat_add, UInt32.ofInt, UInt32.toNat_ofNat', relativeSequence,
    UInt32.toNat_sub]
  split <;> omega

theorem relativeSequence_self (base : UInt32) : relativeSequence base base = 0 := by
  simp [relativeSequence]

theorem relativeSequence_of_window {base left right : UInt32}
    (leftNear : (left - base).toNat < 2 ^ 31) (rightNear : (right - base).toNat < 2 ^ 31)
    : relativeSequence left right
      = ((left - base).toNat : Int) - ((right - base).toNat : Int) := by
  have leftBound := left.toNat_lt
  have rightBound := right.toNat_lt
  have baseBound := base.toNat_lt
  simp only [relativeSequence, UInt32.toNat_sub] at *
  split <;> omega

theorem eq_of_toNat_sub_eq_zero {sequence base : UInt32} (near : (sequence - base).toNat = 0)
    : sequence = base := by
  apply UInt32.toNat_inj.mp
  have bound := sequence.toNat_lt
  have baseBound := base.toNat_lt
  rw [UInt32.toNat_sub] at near
  omega

theorem foldl_min_spec {α : Type} (value : α → Int) (list : List α) (start : Int)
    : list.foldl (fun least item => min least (value item)) start ≤ start
      ∧ (∀ item ∈ list, list.foldl (fun least item => min least (value item)) start ≤ value item)
      ∧ (list.foldl (fun least item => min least (value item)) start = start
        ∨ ∃ item ∈ list,
            list.foldl (fun least item => min least (value item)) start = value item) := by
  induction list generalizing start with
  | nil => simp
  | cons head rest ih =>
    obtain ⟨bound, bounds, attained⟩ := ih (min start (value head))
    simp only [List.foldl_cons, List.forall_mem_cons, List.exists_mem_cons_iff]
    generalize rest.foldl (fun least item => min least (value item)) (min start (value head))
      = least at bound bounds attained
    refine ⟨by omega, ⟨by omega, bounds⟩, ?_⟩
    rcases attained with here | later
    · rcases min_choice start (value head) with first | second
      · exact .inl (here.trans first)
      · exact .inr (.inl (here.trans second))
    · exact .inr (.inr later)

/-! ### The base -/

/-- Without a SYN the base is the sequence of a segment no other precedes, seen from the first.
-/
theorem streamBase_spec {flow : Flow} (unanchored : flow.hasSyn = false) {front : Segment}
    {rest : List Segment} (segments : flow.segments = front :: rest)
    : ∃ first ∈ flow.segments,
        streamBase flow = first.sequence
        ∧ ∀ segment ∈ flow.segments,
            relativeSequence first.sequence front.sequence
            ≤ relativeSequence segment.sequence front.sequence := by
  obtain ⟨bound, bounds, attained⟩ := foldl_min_spec
    (fun segment : Segment => relativeSequence segment.sequence front.sequence) flow.segments 0
  have base : streamBase flow = front.sequence + UInt32.ofInt (flow.segments.foldl
      (fun least segment => min least (relativeSequence segment.sequence front.sequence)) 0) := by
    simp [streamBase, unanchored, segments]
  rcases attained with zero | ⟨first, member, least⟩
  · refine ⟨front, by simp [segments], ?_, fun segment member => ?_⟩
    · rw [base, zero, ← relativeSequence_self front.sequence, add_ofInt_relativeSequence]
    · rw [relativeSequence_self, ← zero]
      exact bounds segment member
  · refine ⟨first, member, ?_, fun segment memberSegment => ?_⟩
    · rw [base, least, add_ofInt_relativeSequence]
    · rw [← least]
      exact bounds segment memberSegment

/-- What identifies a segment's contribution: its range and its bytes. -/
def Segment.range (segment : Segment) : UInt32 × UInt32 × List UInt8 :=
  (segment.sequence, segment.declared, segment.bytes)

/-- Two directions with the same flags and the same segments, in whatever order. -/
structure SameData (left right : Flow) : Prop where
  hasSyn : left.hasSyn = right.hasSyn
  synSequence : left.synSequence = right.synSequence
  hasFin : left.hasFin = right.hasFin
  finSequence : left.finSequence = right.finSequence
  ranges
    : ∀ range,
        range ∈ left.segments.map Segment.range ↔ range ∈ right.segments.map Segment.range

namespace SameData

variable {left right : Flow}

theorem symm (same : SameData left right) : SameData right left :=
  ⟨same.hasSyn.symm, same.synSequence.symm, same.hasFin.symm, same.finSequence.symm,
    fun range => (same.ranges range).symm⟩

theorem exists_mem (same : SameData left right) {segment : Segment}
    (member : segment ∈ left.segments)
    : ∃ other ∈ right.segments,
        other.sequence = segment.sequence
        ∧ other.declared = segment.declared
        ∧ other.bytes = segment.bytes := by
  obtain ⟨other, otherIn, equal⟩ :=
    List.mem_map.mp ((same.ranges segment.range).mp (List.mem_map_of_mem member))
  simp only [Segment.range, Prod.mk.injEq] at equal
  exact ⟨other, otherIn, equal⟩

theorem nil_iff (same : SameData left right) : left.segments = [] ↔ right.segments = [] := by
  constructor
  · intro empty
    refine List.eq_nil_iff_forall_not_mem.mpr fun segment member => ?_
    obtain ⟨_, impossible, _⟩ := same.symm.exists_mem member
    simp [empty] at impossible
  · intro empty
    refine List.eq_nil_iff_forall_not_mem.mpr fun segment member => ?_
    obtain ⟨_, impossible, _⟩ := same.exists_mem member
    simp [empty] at impossible

theorem supplies_iff (same : SameData left right) (base : UInt32) (pos : Nat) (byte : UInt8)
    : Supplies base left.segments pos byte ↔ Supplies base right.segments pos byte := by
  constructor
  · refine Supplies.mono fun segment member => ?_
    obtain ⟨other, otherIn, sequence, _, bytes⟩ := same.exists_mem member
    exact ⟨other, otherIn, sequence, bytes⟩
  · refine Supplies.mono fun segment member => ?_
    obtain ⟨other, otherIn, sequence, _, bytes⟩ := same.symm.exists_mem member
    exact ⟨other, otherIn, sequence, bytes⟩

/-- Directions with the same data share their base once one of them places every segment in a
short window.
Witness: seen from any segment of the window, the earliest is the one at distance zero.
-/
theorem streamBase_eq (same : SameData left right)
    (near : ∀ segment ∈ left.segments, (segment.sequence - streamBase left).toNat < 2 ^ 31)
    : streamBase right = streamBase left := by
  cases anchored : left.hasSyn with
  | true =>
    have rightAnchored := same.hasSyn ▸ anchored
    simp [streamBase, anchored, rightAnchored, same.synSequence]
  | false =>
    have rightUnanchored : right.hasSyn = false := same.hasSyn ▸ anchored
    cases rightSegments : right.segments with
    | nil =>
      have leftSegments := same.nil_iff.mpr rightSegments
      simp [streamBase, anchored, rightUnanchored, leftSegments, rightSegments]
    | cons front rest =>
      obtain ⟨first, firstIn, rightBase, earliest⟩ :=
        streamBase_spec rightUnanchored rightSegments
      have nearRight (segment : Segment) (member : segment ∈ right.segments)
          : (segment.sequence - streamBase left).toNat < 2 ^ 31 := by
        obtain ⟨other, otherIn, sequence, _⟩ := same.symm.exists_mem member
        exact sequence ▸ near other otherIn
      -- the segment that sets the left base is on the right as well
      have occupied : left.segments ≠ [] := by
        rw [ne_eq, same.nil_iff, rightSegments]
        exact List.cons_ne_nil _ _
      obtain ⟨leftFront, leftRest, leftSegments⟩ := List.exists_cons_of_ne_nil occupied
      obtain ⟨start, startIn, leftBase, _⟩ := streamBase_spec anchored leftSegments
      obtain ⟨twin, twinIn, twinSequence, _⟩ := same.exists_mem startIn
      have frontNear := nearRight front (by simp [rightSegments])
      have least := earliest twin twinIn
      rw [relativeSequence_of_window (nearRight first firstIn) frontNear,
        relativeSequence_of_window (nearRight twin twinIn) frontNear, twinSequence,
        ← leftBase, UInt32.sub_self] at least
      rw [rightBase]
      exact eq_of_toNat_sub_eq_zero (by simp at least; omega)

end SameData

/-! ### Measuring -/

variable {limits : AcceptedLimits} {base : UInt32} {segments : List Segment}
  {offsets : List Nat}

theorem exists_mapM_place_iff
    : (∃ offsets, segments.mapM (place limits base) = some offsets)
      ↔ ∀ segment ∈ segments, ∃ offset, place limits base segment = some offset := by
  induction segments with
  | nil => simp
  | cons head rest ih =>
    rw [List.forall_mem_cons, ← ih]
    simp only [mapM_place_eq_some_iff, List.forall₂_cons_left_iff]
    constructor
    · rintro ⟨_, offset, offsets, placed, rest, rfl⟩
      exact ⟨⟨offset, placed⟩, offsets, rest⟩
    · rintro ⟨⟨offset, placed⟩, offsets, rest⟩
      exact ⟨_, offset, offsets, placed, rest, rfl⟩

theorem dataExtent_le_iff (placed : segments.mapM (place limits base) = some offsets)
    {bound : Nat}
    : dataExtent segments offsets ≤ bound
      ↔ ∀ segment ∈ segments,
          (segment.sequence - base).toNat + segment.declared.toNat ≤ bound := by
  rw [mapM_place_eq_some_iff] at placed
  rw [foldl_max_le]
  simp only [Nat.zero_le, true_and]
  induction placed with
  | nil => simp
  | cons head _ ih =>
    have distance := relativeSequence_eq_natCast (place_eq_some_iff.mp head).1
    rw [List.zipWith_cons_cons, List.forall_mem_cons, List.forall_mem_cons, ih, distance.1]

namespace SameData

variable {left right : Flow} {key : TcpFlowKey}

theorem place_iff (same : SameData left right)
    : (∀ segment ∈ left.segments, ∃ offset, place limits base segment = some offset)
      ↔ ∀ segment ∈ right.segments, ∃ offset, place limits base segment = some offset := by
  constructor
  · intro placed segment member
    obtain ⟨other, otherIn, sequence, declared, _⟩ := same.symm.exists_mem member
    simpa only [place, sequence, declared] using placed other otherIn
  · intro placed segment member
    obtain ⟨other, otherIn, sequence, declared, _⟩ := same.exists_mem member
    simpa only [place, sequence, declared] using placed other otherIn

theorem dataExtent_le (same : SameData left right) {leftOffsets rightOffsets : List Nat}
    (leftPlaced : left.segments.mapM (place limits base) = some leftOffsets)
    (rightPlaced : right.segments.mapM (place limits base) = some rightOffsets)
    : dataExtent left.segments leftOffsets ≤ dataExtent right.segments rightOffsets := by
  refine (dataExtent_le_iff leftPlaced).mpr fun segment member => ?_
  obtain ⟨other, otherIn, sequence, declared, _⟩ := same.exists_mem member
  rw [← sequence, ← declared]
  exact (dataExtent_le_iff rightPlaced).mp le_rfl other otherIn

theorem diagnostic_view (same : SameData left right) (status : TcpStreamStatus)
    (error : String)
    : (diagnostic key left status error).view = (diagnostic key right status error).view := by
  simp [TcpStream.view, diagnostic, same.synSequence]

/-- Measured from one base, directions with the same data agree on the extent or on the
diagnostic.
-/
theorem measure_same (same : SameData left right) (base : UInt32)
    (placed : ∀ segment ∈ left.segments, ∃ offset, place limits base segment = some offset)
    : (∃ leftOffsets rightOffsets extent,
        measure limits key left base = .ok (leftOffsets, extent)
        ∧ measure limits key right base = .ok (rightOffsets, extent))
      ∨ ∃ leftStream rightStream,
          measure limits key left base = .error leftStream
          ∧ measure limits key right base = .error rightStream
          ∧ leftStream.view = rightStream.view := by
  obtain ⟨leftOffsets, leftPlaced⟩ := exists_mapM_place_iff.mpr placed
  obtain ⟨rightOffsets, rightPlaced⟩ := exists_mapM_place_iff.mpr (same.place_iff.mp placed)
  have extent : dataExtent left.segments leftOffsets = dataExtent right.segments rightOffsets :=
    Nat.le_antisymm (same.dataExtent_le leftPlaced rightPlaced)
      (same.symm.dataExtent_le rightPlaced leftPlaced)
  simp only [dataExtent] at extent
  simp only [measure, leftPlaced, rightPlaced, extent, ← same.hasFin, ← same.finSequence]
  split
  · split
    · exact .inr ⟨_, _, rfl, rfl, same.diagnostic_view _ _⟩
    split
    · exact .inr ⟨_, _, rfl, rfl, same.diagnostic_view _ _⟩
    · exact .inl ⟨_, _, _, rfl, rfl⟩
  · exact .inl ⟨_, _, _, rfl, rfl⟩

theorem measure_unplaced {flow : Flow}
    (unplaced : ¬ ∀ segment ∈ flow.segments, ∃ offset, place limits base segment = some offset)
    : measure limits key flow base
      = .error (diagnostic key flow .limit
          "TCP sequence span exceeds bounded reassembly window") := by
  rw [← exists_mapM_place_iff] at unplaced
  unfold measure
  cases placed : flow.segments.mapM (place limits base) with
  | none => rfl
  | some offsets => exact absurd ⟨offsets, placed⟩ unplaced

/-- Measured each from its own base, directions with the same data agree: either the bases
coincide, or neither fits the window.
-/
theorem measure_agrees (same : SameData left right)
    : (streamBase right = streamBase left
        ∧ ∃ leftOffsets rightOffsets extent,
            measure limits key left (streamBase left) = .ok (leftOffsets, extent)
            ∧ measure limits key right (streamBase right) = .ok (rightOffsets, extent))
      ∨ ∃ leftStream rightStream,
          measure limits key left (streamBase left) = .error leftStream
          ∧ measure limits key right (streamBase right) = .error rightStream
          ∧ leftStream.view = rightStream.view := by
  have near {flow : Flow} {segment : Segment}
      (placed : ∃ offset, place limits (streamBase flow) segment = some offset)
      : (segment.sequence - streamBase flow).toNat < 2 ^ 31 := by
    obtain ⟨offset, found⟩ := placed
    have distance := relativeSequence_eq_natCast (place_eq_some_iff.mp found).1
    omega
  by_cases placed : ∀ segment ∈ left.segments,
      ∃ offset, place limits (streamBase left) segment = some offset
  · have base := same.streamBase_eq fun segment member => near (placed segment member)
    rw [base]
    exact (same.measure_same (streamBase left) placed).imp_left fun agree => ⟨rfl, agree⟩
  · have unplaced : ¬ ∀ segment ∈ right.segments,
        ∃ offset, place limits (streamBase right) segment = some offset := by
      intro rightPlaced
      have base := same.symm.streamBase_eq fun segment member => near (rightPlaced segment member)
      rw [base] at placed
      exact placed (same.symm.place_iff.mp rightPlaced)
    exact .inr ⟨_, _, measure_unplaced placed, measure_unplaced unplaced,
      same.diagnostic_view _ _⟩

theorem bounded_iff (same : SameData left right) : left.Bounded ↔ right.Bounded := by
  rw [Flow.Bounded, Flow.Bounded, ne_eq, ne_eq, same.nil_iff, same.hasFin, same.hasSyn]

theorem contents_eq (same : SameData left right) {leftCells rightCells : List Cell}
    (length : leftCells.length = rightCells.length)
    (leftContent
      : ∀ pos byte, contentAt leftCells pos = some byte ↔ Supplies base left.segments pos byte)
    (rightContent
      : ∀ pos byte,
          contentAt rightCells pos = some byte ↔ Supplies base right.segments pos byte)
    : leftCells.map Cell.content = rightCells.map Cell.content := by
  refine List.ext_getElem (by simpa using length) fun pos leftIn rightIn => ?_
  rw [List.length_map] at leftIn rightIn
  have agree : contentAt leftCells pos = contentAt rightCells pos :=
    Option.ext fun byte => by rw [leftContent, rightContent, same.supplies_iff]
  simpa [contentAt, leftIn, rightIn] using agree

/-- Finishing directions with the same data shows the same streams. -/
theorem finished_views (same : SameData left right) (leftSound : left.Sound)
    (rightSound : right.Sound) (leftLive : left.failure = "") (rightLive : right.failure = "")
    {leftStreams rightStreams : List TcpStream}
    (leftFinished : Finished limits key left leftStreams)
    (rightFinished : Finished limits key right rightStreams)
    : leftStreams.map TcpStream.view = rightStreams.map TcpStream.view := by
  by_cases bounded : left.Bounded
  case neg =>
    rw [leftFinished.of_unbounded leftLive bounded,
      rightFinished.of_unbounded rightLive (mt same.bounded_iff.mpr bounded)]
  have rightBounded := same.bounded_iff.mp bounded
  rcases same.measure_agrees with ⟨bases, leftOffsets, rightOffsets, extent, leftMeasured,
    rightMeasured⟩ | ⟨leftStream, rightStream, leftMeasured, rightMeasured, view⟩
  · have leftInside := leftSound.inside leftMeasured
    have rightInside := rightSound.inside rightMeasured
    have clashes := overlay_blank_eq_none_iff leftInside leftSound.counted
    simp only [same.supplies_iff, ← bases] at clashes
    rw [← overlay_blank_eq_none_iff rightInside rightSound.counted] at clashes
    rcases leftFinished.of_ok leftLive bounded leftMeasured with
      ⟨leftClash, rfl⟩ | ⟨leftCells, leftWrote, leftShown⟩
    · rcases rightFinished.of_ok rightLive rightBounded rightMeasured with
        ⟨_, rfl⟩ | ⟨rightCells, rightWrote, _⟩
      · exact congrArg (fun view => [view]) (same.diagnostic_view _ _)
      · rw [clashes.mp leftClash] at rightWrote
        cases rightWrote
    · rcases rightFinished.of_ok rightLive rightBounded rightMeasured with
        ⟨rightClash, _⟩ | ⟨rightCells, rightWrote, rightShown⟩
      · rw [clashes.mpr rightClash] at leftWrote
        cases leftWrote
      · obtain ⟨leftLength, leftContent⟩ :=
          overlay_blank_eq_some leftInside leftSound.counted leftWrote
        obtain ⟨rightLength, rightContent⟩ :=
          overlay_blank_eq_some rightInside rightSound.counted rightWrote
        rw [bases] at rightContent
        have contents := same.contents_eq (leftLength.trans rightLength.symm) leftContent
          rightContent
        rw [leftShown leftLength, rightShown rightLength, contents, bases, same.hasSyn]
  · rw [leftFinished.of_error leftLive bounded leftMeasured,
      rightFinished.of_error rightLive rightBounded rightMeasured]
    exact congrArg (fun view => [view]) view

end SameData

end PacketQuapture.Reassembly
