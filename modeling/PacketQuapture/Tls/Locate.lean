import PacketQuapture.Library.Bisection
import PacketQuapture.Tls.Records

/-! Where the bytes of the handshake messages stand in their chunk.
The spans say which bytes of the chunk were collected; `locate` maps a range of the collected bytes
back.
-/

namespace PacketQuapture.Tls

open Library Reassembly

variable {spans : List (Nat × Nat)}

/-! ### Positions -/

/-- The chunk offset of a collected byte. -/
def positionAt : List (Nat × Nat) → Nat → Option Nat
  | [], _ => none
  | span :: rest, index =>
    if index < span.2 then some (span.1 + index) else positionAt rest (index - span.2)

/-- How many bytes the spans cover. -/
def spanTotal (spans : List (Nat × Nat)) : Nat :=
  (spans.map Prod.snd).sum

/-- Spans that are not empty and follow each other in the chunk. -/
structure SpansPlaced (spans : List (Nat × Nat)) : Prop where
  ordered : spans.Pairwise fun left right => left.1 + left.2 ≤ right.1
  occupied : ∀ span ∈ spans, 0 < span.2

theorem SpansPlaced.tail {span : Nat × Nat} {rest : List (Nat × Nat)}
    (placed : SpansPlaced (span :: rest))
    : SpansPlaced rest :=
  ⟨(List.pairwise_cons.mp placed.ordered).2,
    fun later member => placed.occupied later (List.mem_cons_of_mem _ member)⟩

theorem mem_span_of_positionAt {index place : Nat} (found : positionAt spans index = some place)
    : ∃ span ∈ spans, span.1 ≤ place ∧ place < span.1 + span.2 := by
  induction spans generalizing index with
  | nil => cases found
  | cons span rest ih =>
    rw [positionAt] at found
    split at found
    case isTrue inside =>
      obtain rfl := Option.some.inj found
      exact ⟨span, List.mem_cons_self, by omega, by omega⟩
    case isFalse =>
      obtain ⟨later, member, within⟩ := ih found
      exact ⟨later, List.mem_cons_of_mem _ member, within⟩

/-- A collected byte is the chunk's byte at its position. -/
theorem getElem?_of_positionAt {data : List UInt8}
    (inside : ∀ span ∈ spans, span.1 + span.2 ≤ data.length) {index place : Nat}
    (found : positionAt spans index = some place)
    : (spans.flatMap fun span => (data.drop span.1).take span.2)[index]? = data[place]? := by
  induction spans generalizing index with
  | nil => cases found
  | cons span rest ih =>
    have size : ((data.drop span.1).take span.2).length = span.2 := by
      have bound := inside span List.mem_cons_self
      rw [List.length_take, List.length_drop]
      omega
    rw [positionAt] at found
    rw [List.flatMap_cons]
    split at found
    case isTrue within =>
      obtain rfl := Option.some.inj found
      rw [List.getElem?_append_left (by rwa [size]), List.getElem?_take_of_lt within,
        List.getElem?_drop]
    case isFalse outside =>
      rw [List.getElem?_append_right (by rw [size]; omega), size]
      exact ih (fun later member => inside later (List.mem_cons_of_mem _ member)) found

/-- Later collected bytes stand later in the chunk. -/
theorem SpansPlaced.positionAt_lt (placed : SpansPlaced spans) {left right first last : Nat}
    (before : left < right) (starts : positionAt spans left = some first)
    (ends : positionAt spans right = some last)
    : first < last := by
  induction spans generalizing left right with
  | nil => cases starts
  | cons span rest ih =>
    rw [positionAt] at starts ends
    split at starts
    case isTrue inside =>
      obtain rfl := Option.some.inj starts
      split at ends
      case isTrue =>
        obtain rfl := Option.some.inj ends
        omega
      case isFalse =>
        obtain ⟨later, member, within⟩ := mem_span_of_positionAt ends
        have after := (List.pairwise_cons.mp placed.ordered).1 later member
        omega
    case isFalse outside =>
      rw [if_neg (by omega)] at ends
      exact ih placed.tail (by omega) starts ends

/-! ### Locating a range -/

/-- The span that `locate` starts from is the one that holds the first byte of the range. -/
theorem covering_eq (placed : SpansPlaced spans) {total start : Nat} (after : total ≤ start)
    (inside : start < total + spanTotal spans)
    : ∃ origin span rest,
        0 < ((spanStarts total spans).takeWhile fun span => span.1 ≤ start).length
        ∧ (spanStarts total spans).drop
            (((spanStarts total spans).takeWhile fun span => span.1 ≤ start).length - 1)
          = spanStarts origin (span :: rest)
        ∧ origin ≤ start ∧ start < origin + span.2
        ∧ SpansPlaced (span :: rest)
        ∧ origin + spanTotal (span :: rest) = total + spanTotal spans
        ∧ ∀ index, start ≤ index →
            positionAt spans (index - total) = positionAt (span :: rest) (index - origin) := by
  induction spans generalizing total with
  | nil =>
    simp only [spanTotal, List.map_nil, List.sum_nil] at inside
    omega
  | cons span rest ih =>
    rw [spanStarts, List.takeWhile_cons, if_pos (by simpa using after), List.length_cons]
    by_cases here : start < total + span.2
    · refine ⟨total, span, rest, Nat.succ_pos _, ?_, after, here, placed, rfl, fun _ _ => rfl⟩
      have stops : (spanStarts (total + span.2) rest).takeWhile (fun span => span.1 ≤ start)
          = [] := by
        cases rest with
        | nil => rfl
        | cons next later =>
          rw [spanStarts, List.takeWhile_cons, if_neg (by simpa using here)]
      rw [stops]
      rfl
    · have remains : start < total + span.2 + spanTotal rest := by
        simp only [spanTotal, List.map_cons, List.sum_cons] at inside ⊢
        omega
      obtain ⟨origin, holds, later, some_, dropped, low, high, follow, ends, same⟩ :=
        ih placed.tail (by omega) remains
      refine ⟨origin, holds, later, Nat.succ_pos _, ?_, low, high, follow, ?_,
        fun index beyond => ?_⟩
      · rw [Nat.add_sub_cancel, ← dropped]
        obtain ⟨count, counted⟩ := Nat.exists_eq_succ_of_ne_zero (Nat.ne_of_gt some_)
        rw [counted]
        rfl
      · rw [ends]
        simp only [spanTotal, List.map_cons, List.sum_cons]
        omega
      · rw [positionAt, if_neg (by omega), ← same index beyond, Nat.sub_sub]

/-- What the spans from one on are covered to: just past the last byte before `stop`. -/
theorem coveredTo_eq (placed : SpansPlaced spans) {origin stop : Nat} (last : Nat)
    (before : origin < stop) (inside : stop ≤ origin + spanTotal spans)
    : ∃ place, positionAt spans (stop - 1 - origin) = some place
        ∧ coveredTo stop last (spanStarts origin spans) = place + 1 := by
  induction spans generalizing origin last with
  | nil =>
    simp only [spanTotal, List.map_nil, List.sum_nil] at inside
    omega
  | cons span rest ih =>
    rw [spanStarts, coveredTo, if_pos before, positionAt]
    by_cases here : stop ≤ origin + span.2
    · refine ⟨span.1 + (stop - 1 - origin), if_pos (by omega), ?_⟩
      have stops (last : Nat) : coveredTo stop last (spanStarts (origin + span.2) rest) = last := by
        cases rest with
        | nil => rfl
        | cons next later => rw [spanStarts, coveredTo, if_neg (by omega)]
      rw [stops, Nat.min_eq_right (by omega)]
      omega
    · obtain ⟨place, found, covered⟩ := ih placed.tail (span.1 + min span.2 (stop - origin))
        (show origin + span.2 < stop by omega) (by
          simp only [spanTotal, List.map_cons, List.sum_cons] at inside ⊢
          omega)
      refine ⟨place, ?_, covered⟩
      rw [if_neg (by omega), Nat.sub_sub, Nat.sub_sub, ← found]
      congr 1
      omega

/-- Locating a range of the collected bytes finds the chunk range from its first byte to its last.
-/
theorem SpansPlaced.locate_eq (placed : SpansPlaced spans) {start length : Nat} (some_ : 0 < length)
    (inside : start + length ≤ spanTotal spans)
    : ∃ first last, positionAt spans start = some first
        ∧ positionAt spans (start + length - 1) = some last
        ∧ first ≤ last
        ∧ locate spans start length = .ok (first, last + 1 - first) := by
  obtain ⟨origin, span, rest, occupied, dropped, low, high, follow, ends, same⟩ :=
    covering_eq placed (Nat.zero_le start) (by omega)
  obtain ⟨last, reached, covered⟩ := @coveredTo_eq (span :: rest) follow origin (start + length)
    (span.1 + (start - origin)) (by omega) (by omega)
  have starts : positionAt spans start = some (span.1 + (start - origin)) := by
    rw [← Nat.sub_zero start, same start le_rfl, positionAt, if_pos (by omega)]
    rfl
  have stops : positionAt spans (start + length - 1) = some last := by
    rw [← reached, ← Nat.sub_zero (start + length - 1)]
    exact same (start + length - 1) (by omega)
  have ordered : span.1 + (start - origin) ≤ last := by
    rcases Nat.eq_or_lt_of_le (show start ≤ start + length - 1 by omega) with only | before
    · rw [← only, starts] at stops
      exact (Option.some.inj stops).le
    · exact (placed.positionAt_lt before starts stops).le
  refine ⟨_, last, starts, stops, ordered, ?_⟩
  unfold locate
  rw [require_eq_ok _ some_, ok_bind]
  dsimp only
  rw [require_eq_ok _ occupied, ok_bind, dropped]
  rw [spanStarts] at covered ⊢
  dsimp only
  rw [covered, require_eq_ok _ (by omega), ok_bind]
  rfl

/-! ### Collected bytes -/

/-- The spans say where each collected byte stands in the data before an offset. -/
structure Collected.Placed (data : List UInt8) (offset : Nat) (collected : Collected) : Prop where
  spans : SpansPlaced collected.spans
  before : ∀ span ∈ collected.spans, span.1 + span.2 ≤ offset
  bytes : collected.bytes = collected.spans.flatMap fun span => (data.drop span.1).take span.2

namespace Collected.Placed

variable {data : List UInt8} {offset : Nat} {collected : Collected}

theorem start (data : List UInt8) (offset : Nat) : ({} : Collected).Placed data offset :=
  ⟨⟨.nil, fun _ member => absurd member List.not_mem_nil⟩,
    fun _ member => absurd member List.not_mem_nil, rfl⟩

theorem mono {later : Nat} (placed : collected.Placed data offset) (further : offset ≤ later)
    : collected.Placed data later :=
  ⟨placed.spans, fun span member => (placed.before span member).trans further, placed.bytes⟩

/-- One more span, at or after the offset. -/
theorem push {start length later : Nat} (placed : collected.Placed data offset)
    (after : offset ≤ start) (occupied : 0 < length) (ends : start + length ≤ later)
    : Collected.Placed data later
        { collected with
          bytes := collected.bytes ++ (data.drop start).take length
          spans := collected.spans ++ [(start, length)] } := by
  refine ⟨⟨?_, ?_⟩, ?_, ?_⟩
  · refine List.pairwise_append.mpr ⟨placed.spans.ordered, List.pairwise_singleton _ _, ?_⟩
    intro span member last same
    rw [List.mem_singleton.mp same]
    exact (placed.before span member).trans after
  · intro span member
    rcases List.mem_append.mp member with earlier | last
    · exact placed.spans.occupied span earlier
    · rw [List.mem_singleton.mp last]
      exact occupied
  · intro span member
    rcases List.mem_append.mp member with earlier | last
    · have bound := placed.before span earlier
      omega
    · rw [List.mem_singleton.mp last]
      exact ends
  · rw [List.flatMap_append, ← placed.bytes, List.flatMap_singleton]

theorem total (placed : collected.Placed data offset) (inside : offset ≤ data.length)
    : spanTotal collected.spans = collected.bytes.length := by
  have before := placed.before
  rw [placed.bytes, List.length_flatMap]
  unfold spanTotal
  congr 1
  refine List.map_congr_left fun span member => ?_
  have bound := before span member
  rw [List.length_take, List.length_drop]
  omega

end Collected.Placed

/-- The loop over records ends inside the data, and only adds to what was collected.
Witness: induction on the fuel; a pass that goes on takes at least a record header.
-/
theorem collectLoop_placed {data : List UInt8} {fuel offset : Nat} {collected : Collected}
    (enough : data.length - offset < fuel) (inside : offset ≤ data.length)
    (placed : collected.Placed data offset)
    : Ensures (collectLoop data fuel offset collected)
        (fun ended => ended.1 ≤ data.length ∧ ended.2.Placed data ended.1
          ∧ collected.bytes <+: ended.2.bytes)
        fun _ => False := by
  induction fuel generalizing offset collected with
  | zero => exact absurd enough (Nat.not_lt_zero _)
  | succ fuel ih =>
    have stopped (truncated : Bool)
        : offset ≤ data.length ∧ Collected.Placed data offset { collected with truncated }
          ∧ collected.bytes <+: collected.bytes :=
      ⟨inside, ⟨placed.spans, placed.before, placed.bytes⟩, List.prefix_refl _⟩
    unfold collectLoop
    dsimp only
    split
    case isTrue => exact .ok (stopped collected.truncated)
    case isFalse headed =>
      split
      case isTrue => exact .ok (stopped collected.truncated)
      case isFalse valid =>
        split
        case isTrue => exact .ok (stopped collected.truncated)
        case isFalse =>
          split
          case isTrue => exact .ok (stopped true)
          case isFalse whole =>
            rw [List.length_drop, tlsRecordHeaderLength] at headed whole
            have occupied : 0 < recordLength (data.drop offset) := by
              simp only [tlsRecordHeaderValid, Bool.and_eq_true, decide_eq_true_eq, ne_eq,
                decide_not, Bool.not_eq_true', decide_eq_false_iff_not, not_not] at valid
              omega
            split
            case isTrue =>
              refine ih ?_ ?_ (placed.mono (by omega))
              · rw [tlsRecordHeaderLength]
                omega
              · rw [tlsRecordHeaderLength]
                omega
            case isFalse =>
              have pushed := @Collected.Placed.push data offset collected
                (offset + tlsRecordHeaderLength) (recordLength (data.drop offset))
                (offset + tlsRecordHeaderLength + recordLength (data.drop offset)) placed
                (Nat.le_add_right _ _) occupied (Nat.le_refl _)
              rw [List.drop_drop]
              refine Ensures.mono (ih ?_ ?_ pushed) (fun ended placed => ?_) fun _ => id
              · rw [tlsRecordHeaderLength]
                omega
              · rw [tlsRecordHeaderLength]
                omega
              · exact ⟨placed.1, placed.2.1, (List.prefix_append _ _).trans placed.2.2⟩

/-! ### Handshake bytes -/

theorem spanStarts_ordered (total : Nat) (spans : List (Nat × Nat))
    : (spanStarts total spans).Pairwise fun left right => left.1 ≤ right.1 := by
  have after (total : Nat) (spans : List (Nat × Nat))
      : ∀ span ∈ spanStarts total spans, total ≤ span.1 := by
    induction spans generalizing total with
    | nil => exact fun _ member => absurd member List.not_mem_nil
    | cons span rest ih =>
      refine List.forall_mem_cons.mpr ⟨Nat.le_refl _, fun later member => ?_⟩
      exact (Nat.le_add_right ..).trans (ih _ later member)
  induction spans generalizing total with
  | nil => exact .nil
  | cons span rest ih =>
    exact List.pairwise_cons.mpr
      ⟨fun later member => (Nat.le_add_right ..).trans (after _ rest later member), ih _⟩

/-- For the handshake bytes of any chunk from any offset on and every range of them, the search for
the first span by halving ends where a scan does, and locating the range returns the chunk range from
the position of its first byte to just past the position of its last, inside the chunk.
Witness: the spans follow each other, and a collected byte is the chunk's byte at its position.
-/
theorem locate_collected {chunk : TcpStreamChunk} {start : Nat} {collected : Collected}
    (returned : collectHandshakeBytes chunk start = .ok collected)
    : ∀ offset length, 0 < length → offset + length ≤ collected.bytes.length →
        upperBound (fun span => decide (span.1 ≤ offset)) (spanStarts 0 collected.spans)
            = ((spanStarts 0 collected.spans).takeWhile fun span => decide (span.1 ≤ offset)).length
        ∧ ∃ first last, positionAt collected.spans offset = some first
          ∧ positionAt collected.spans (offset + length - 1) = some last
          ∧ chunk.data[first]? = collected.bytes[offset]?
          ∧ chunk.data[last]? = collected.bytes[offset + length - 1]?
          ∧ first ≤ last ∧ last < chunk.data.length
          ∧ locate collected.spans offset length = .ok (first, last + 1 - first) := by
  intro offset length some_byte inside
  obtain ⟨_, open_, returned⟩ := bind_eq_ok.mp returned
  obtain ⟨ended, looped, returned⟩ := bind_eq_ok.mp returned
  obtain ⟨_, _, same⟩ := bind_eq_ok.mp returned
  obtain rfl := Except.ok.inj same
  obtain ⟨within, placed, _⟩ := Ensures.of_eq_ok looped
    (collectLoop_placed (Nat.lt_succ_of_le (Nat.sub_le ..)) (of_require open_) (.start _ _))
  have spans : ∀ span ∈ ended.2.spans, span.1 + span.2 ≤ chunk.data.length :=
    fun span member => (placed.before span member).trans within
  obtain ⟨first, last, starts, ends, ordered, located⟩ := placed.spans.locate_eq some_byte
    (inside.trans_eq (placed.total within).symm)
  have partitioned : Partitioned (fun span => decide (span.1 ≤ offset))
      (spanStarts 0 ended.2.spans) := by
    refine (spanStarts_ordered 0 _).imp fun before passes => ?_
    rw [decide_eq_true_eq] at passes ⊢
    exact before.trans passes
  obtain ⟨span, member, _, below⟩ := mem_span_of_positionAt ends
  refine ⟨partitioned.upperBound_eq, first, last, starts, ends, ?_, ?_, ordered, ?_, located⟩
  · rw [placed.bytes, getElem?_of_positionAt spans starts]
  · rw [placed.bytes, getElem?_of_positionAt spans ends]
  · exact below.trans_le (spans span member)

/-- Two handshake records, of two bytes and of one. -/
def twoRecords : TcpStreamChunk where
  data := [22, 3, 1, 0, 2, 7, 8, 22, 3, 1, 0, 1, 9]

/-- A range that starts in the first record and ends in the second. -/
theorem locate_collected_twoRecords
    : ∃ collected, collectHandshakeBytes twoRecords 0 = .ok collected
        ∧ locate collected.spans 1 2 = .ok (6, 7) := by
  have returned : collectHandshakeBytes twoRecords 0
      = .ok { bytes := [7, 8, 9], spans := [(5, 2), (12, 1)] } := by
    rfl
  obtain ⟨_, first, last, starts, ends, _, _, _, _, located⟩ :=
    locate_collected returned 1 2 (by decide) (by decide)
  obtain rfl : 6 = first := Option.some.inj starts
  obtain rfl : 12 = last := Option.some.inj ends
  exact ⟨_, returned, located⟩

end PacketQuapture.Tls
