import PacketQuapture.Reassembly.Reassembler
import PacketQuapture.Library.SortedList

/-! The sorted index over a direction's segments finds exactly the segments of one range. -/

namespace PacketQuapture.Reassembly

open Library

theorem position_eq (segment : Segment)
    : position segment = segment.sequence.toNat * 2 ^ 32 + segment.declared.toNat := by
  have bound := segment.declared.toNat_lt
  rw [position, ← Nat.shiftLeft_add_eq_or_of_lt bound, Nat.shiftLeft_eq]

theorem position_inj {left right : Segment}
    : position left = position right
      ↔ left.sequence = right.sequence ∧ left.declared = right.declared := by
  have leftBound := left.declared.toNat_lt
  have rightBound := right.declared.toNat_lt
  rw [position_eq, position_eq, ← UInt32.toNat_inj, ← UInt32.toNat_inj]
  omega

/-- A direction's own books: its byte count, its limits, and an index that lists every segment
once, sorted, under its key. A failed direction holds no segments.
-/
structure Flow.Consistent (limits : AcceptedLimits) (flow : Flow) : Prop where
  bytesEq : flow.bytes = (flow.segments.map fun segment => segment.bytes.length).sum
  bytesLe : flow.bytes ≤ limits.maxStreamBytes
  segmentsLe : flow.segments.length ≤ limits.maxSegments
  failedEmpty : flow.failure ≠ "" → flow.segments = []
  orderSorted : flow.segmentOrder.Pairwise (· < ·)
  orderIndices
    : (flow.segmentOrder.map fun entry => (ofLex entry).2).Perm
        (List.range flow.segments.length)
  orderKeys
    : ∀ entry ∈ flow.segmentOrder,
        ∃ segment,
          flow.segments[(ofLex entry).2]? = some segment ∧ (ofLex entry).1 = position segment

/-- The direction holds a segment of the same range with exactly these bytes. -/
def Flow.Buffers (flow : Flow) (segment : Segment) (payload : List UInt8) : Prop :=
  ∃ existing ∈ flow.segments,
    existing.sequence = segment.sequence
    ∧ existing.declared = segment.declared
    ∧ existing.bytes = payload

namespace Flow.Consistent

variable {limits : AcceptedLimits} {flow : Flow}

theorem orderLength (consistent : flow.Consistent limits)
    : flow.segmentOrder.length = flow.segments.length := by
  simpa using consistent.orderIndices.length_eq

theorem index_lt (consistent : flow.Consistent limits) {entry : Nat ×ₗ Nat}
    (member : entry ∈ flow.segmentOrder)
    : (ofLex entry).2 < flow.segments.length :=
  List.mem_range.mp (consistent.orderIndices.mem_iff.mp (List.mem_map.mpr ⟨entry, member, rfl⟩))

theorem relabel (consistent : flow.Consistent limits) {changed : Flow}
    (bytes : changed.bytes = flow.bytes) (segments : changed.segments = flow.segments)
    (order : changed.segmentOrder = flow.segmentOrder) (failure : changed.failure = flow.failure)
    : changed.Consistent limits := by
  obtain ⟨bytesEq, bytesLe, segmentsLe, failedEmpty, sorted, indices, keys⟩ := consistent
  rw [← bytes] at bytesEq bytesLe
  rw [← segments] at bytesEq segmentsLe failedEmpty indices keys
  rw [← order] at sorted indices keys
  rw [← failure] at failedEmpty
  exact ⟨bytesEq, bytesLe, segmentsLe, failedEmpty, sorted, indices, keys⟩

/-- Binary search yields exactly the entries under the segment's key.
Witness: along the sorted index both boundary tests only fall.
-/
theorem mem_candidates_iff (consistent : flow.Consistent limits) (segment : Segment)
    {entry : Nat ×ₗ Nat}
    : entry ∈ flow.candidates segment
      ↔ entry ∈ flow.segmentOrder ∧ (ofLex entry).1 = position segment := by
  have lower : flow.segmentOrder.Pairwise fun left right =>
      decide (right < toLex (position segment, 0)) → decide (left < toLex (position segment, 0)) :=
    consistent.orderSorted.imp fun below test => by
      simp only [decide_eq_true_eq] at test ⊢
      exact below.trans test
  have suffix := dropWhile_eq_filter lower
  have upper : (flow.segmentOrder.dropWhile fun entry =>
      entry < toLex (position segment, 0)).Pairwise fun left right =>
        decide ((ofLex right).1 = position segment) → decide ((ofLex left).1 = position segment) := by
    rw [suffix, List.pairwise_filter]
    refine consistent.orderSorted.imp fun below kept _ test => ?_
    simp only [Bool.not_eq_true', decide_eq_false_iff_not, not_lt, decide_eq_true_eq] at kept test ⊢
    have first := Prod.Lex.monotone_fst _ _ kept
    have second := Prod.Lex.monotone_fst _ _ below.le
    simp only [ofLex_toLex] at first
    omega
  rw [candidates, takeWhile_eq_filter upper, suffix]
  simp only [List.mem_filter, Bool.not_eq_true', decide_eq_false_iff_not, not_lt,
    decide_eq_true_eq]
  constructor
  · rintro ⟨⟨member, _⟩, key⟩
    exact ⟨member, key⟩
  · rintro ⟨member, key⟩
    refine ⟨⟨member, ?_⟩, key⟩
    exact Prod.Lex.toLex_le_toLex.mpr (.inr ⟨key.symm, Nat.zero_le _⟩)

/-- A segment is recognized as a retransmission exactly when its range and bytes are buffered. -/
theorem retransmits_iff (consistent : flow.Consistent limits) (segment : Segment)
    (payload : List UInt8)
    : flow.retransmits segment payload = true ↔ flow.Buffers segment payload := by
  simp only [Buffers, retransmits, List.any_eq_true, Option.any_eq_true, decide_eq_true_eq]
  constructor
  · rintro ⟨entry, candidate, existing, found, bytes⟩
    obtain ⟨member, key⟩ := (consistent.mem_candidates_iff segment).mp candidate
    obtain ⟨indexed, located, entryKey⟩ := consistent.orderKeys entry member
    have same : indexed = existing := Option.some.inj (located.symm.trans found)
    subst same
    obtain ⟨sequence, declared⟩ := position_inj.mp (entryKey.symm.trans key)
    exact ⟨indexed, List.mem_of_getElem? found, sequence, declared, bytes⟩
  · rintro ⟨existing, member, sequence, declared, bytes⟩
    obtain ⟨index, inRange, at_⟩ := List.mem_iff_getElem.mp member
    have listed : index ∈ flow.segmentOrder.map fun entry => (ofLex entry).2 :=
      consistent.orderIndices.mem_iff.mpr (List.mem_range.mpr inRange)
    obtain ⟨entry, entryMember, rfl⟩ := List.mem_map.mp listed
    have found : flow.segments[(ofLex entry).2]? = some existing := by
      rw [List.getElem?_eq_getElem inRange, at_]
    obtain ⟨indexed, located, entryKey⟩ := consistent.orderKeys entry entryMember
    have same : indexed = existing := Option.some.inj (located.symm.trans found)
    subst same
    refine ⟨entry, (consistent.mem_candidates_iff segment).mpr ⟨entryMember, ?_⟩,
      indexed, found, bytes⟩
    rw [entryKey]
    exact position_inj.mpr ⟨sequence, declared⟩

/-- Appending a segment within the limits keeps the books.
Witness: the fresh index is larger than every stored one, so its entry stays in order.
-/
theorem keep (consistent : flow.Consistent limits) (segment : Segment) (payload : List UInt8)
    (live : flow.failure = "")
    (room : flow.segments.length < limits.maxSegments)
    (space : payload.length ≤ limits.maxStreamBytes - flow.bytes)
    : (flow.keep segment payload).Consistent limits := by
  have fits := limits.segmentsFit
  have index : flow.segments.length % 2 ^ 32 = flow.segments.length :=
    Nat.mod_eq_of_lt (by omega)
  have falling : flow.segmentOrder.Pairwise fun left right =>
      decide (right ≤ toLex (position segment, 2 ^ 32 - 1))
        → decide (left ≤ toLex (position segment, 2 ^ 32 - 1)) :=
    consistent.orderSorted.imp fun below test => by
      simp only [decide_eq_true_eq] at test ⊢
      exact below.le.trans test
  have split (other : Nat ×ₗ Nat)
      : other ∈ (flow.keep segment payload).segmentOrder
        ↔ other = toLex (position segment, flow.segments.length) ∨ other ∈ flow.segmentOrder := by
    simp only [Flow.keep, index, takeWhile_eq_filter falling, dropWhile_eq_filter falling,
      List.mem_append, List.mem_cons, List.mem_filter]
    constructor
    · rintro (⟨member, _⟩ | rfl | ⟨member, _⟩)
      · exact .inr member
      · exact .inl rfl
      · exact .inr member
    · rintro (rfl | member)
      · exact .inr (.inl rfl)
      · by_cases test : other ≤ toLex (position segment, 2 ^ 32 - 1)
        · exact .inl ⟨member, by simpa using test⟩
        · exact .inr (.inr ⟨member, by simpa using test⟩)
  constructor
  · simp [Flow.keep, consistent.bytesEq]
  · have below := consistent.bytesLe
    simp only [Flow.keep]
    omega
  · simp only [Flow.keep, List.length_append, List.length_singleton]
    omega
  · intro failed
    exact absurd live failed
  · simp only [Flow.keep, index]
    refine insert_sorted consistent.orderSorted falling ?_ ?_
    · intro other member test
      have smaller := consistent.index_lt member
      rw [decide_eq_true_eq, Prod.Lex.le_iff] at test
      refine Prod.Lex.lt_iff.mpr (test.imp_right fun tie => ⟨tie.1, smaller⟩)
    · intro other member test
      have smaller := consistent.index_lt member
      simp only [decide_eq_true_eq, not_le] at test
      rcases Prod.Lex.lt_iff.mp test with above | ⟨_, overflow⟩
      · exact Prod.Lex.lt_iff.mpr (.inl above)
      · simp only [ofLex_toLex] at overflow
        omega
  · have perm : (flow.keep segment payload).segmentOrder.Perm
        (flow.segmentOrder ++ [toLex (position segment, flow.segments.length)]) := by
      simp only [Flow.keep, index]
      refine List.perm_middle.trans ?_
      rw [List.takeWhile_append_dropWhile]
      exact (List.perm_append_singleton _ _).symm
    refine (perm.map _).trans ?_
    simp only [List.map_append, List.map_cons, List.map_nil, ofLex_toLex, Flow.keep,
      List.length_append, List.length_singleton, List.range_succ]
    exact consistent.orderIndices.append_right _
  · intro other member
    rcases (split other).mp member with rfl | earlier
    · exact ⟨{ segment with bytes := payload }, by simp [Flow.keep], rfl⟩
    · obtain ⟨stored, found, key⟩ := consistent.orderKeys other earlier
      refine ⟨stored, ?_, key⟩
      simp only [Flow.keep]
      rw [List.getElem?_append_left (consistent.index_lt earlier), found]

end Flow.Consistent

end PacketQuapture.Reassembly
