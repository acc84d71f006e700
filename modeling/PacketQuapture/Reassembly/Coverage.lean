import PacketQuapture.Reassembly.OrderIndependence
import PacketQuapture.Reassembly.Provenance

/-! Segments that cover a byte string reassemble to it: captured with the SYN, in any order and
with any overlap, they drain to one contiguous stream that shows exactly the string.
-/

namespace PacketQuapture.Reassembly

open Library

/-- The bare SYN that opens the direction. -/
structure Packet.Opens (packet : Packet) (isn : UInt32) : Prop where
  syn : packet.has tcpSyn = true
  fin : packet.has tcpFin = false
  rst : packet.has tcpRst = false
  sequence : packet.sequence = isn
  payload : packet.payload = []
  declared : packet.declared = 0

/-- A non-empty, fully captured segment of the content, `offset` bytes into it. A FIN may only
follow the last byte.
-/
structure Packet.SegmentOf (packet : Packet) (content : List UInt8) (isn : UInt32) (offset : Nat)
    : Prop where
  syn : packet.has tcpSyn = false
  rst : packet.has tcpRst = false
  fin : packet.has tcpFin = true → offset + packet.payload.length = content.length
  sequence : packet.sequence = isn + 1 + UInt32.ofNat offset
  occupied : packet.payload ≠ []
  declared : packet.declared.toNat = packet.payload.length
  within : offset + packet.payload.length ≤ content.length
  payload : packet.payload = (content.drop offset).take packet.payload.length

/-- Packets of one direction: its SYN, and segments that cover the content. -/
structure Covers (packets : List Packet) (content : List UInt8) (isn : UInt32) : Prop where
  oneKey : ∀ left ∈ packets, ∀ right ∈ packets, left.key = right.key
  kinds : ∀ packet ∈ packets, packet.Opens isn ∨ ∃ offset, packet.SegmentOf content isn offset
  opened : ∃ packet ∈ packets, packet.Opens isn
  covered
    : ∀ pos < content.length,
        ∃ packet ∈ packets,
          ∃ offset,
            packet.SegmentOf content isn offset
            ∧ offset ≤ pos
            ∧ pos < offset + packet.payload.length

/-- The packets' distinct segments keep within the limits on their number and bytes. -/
structure WithinLimits (limits : TcpReassemblyLimits) (packets : List Packet) : Prop where
  segmentsLe : (ranges packets).card ≤ limits.maxSegments
  totalSegmentsLe : (ranges packets).card ≤ limits.maxTotalSegments
  bytesLe : (∑ range ∈ ranges packets, range.2.2.length) ≤ limits.maxStreamBytes
  totalBytesLe : (∑ range ∈ ranges packets, range.2.2.length) ≤ limits.maxTotalBytes

variable {packets : List Packet} {content : List UInt8} {isn : UInt32} {packet : Packet}
  {offset : Nat}

/-! ### Segments of the content -/

namespace Packet.SegmentOf

theorem length_pos (segment : packet.SegmentOf content isn offset) : 0 < packet.payload.length :=
  List.length_pos_iff.mpr segment.occupied

theorem declared_pos (segment : packet.SegmentOf content isn offset) : 0 < packet.declared := by
  rw [UInt32.lt_iff_toNat_lt, segment.declared]
  exact segment.length_pos

theorem dataSequence (segment : packet.SegmentOf content isn offset)
    : packet.dataSequence = isn + 1 + UInt32.ofNat offset := by
  simp [Packet.dataSequence, segment.syn, segment.sequence]

theorem getElem? (segment : packet.SegmentOf content isn offset) {index : Nat} {byte : UInt8}
    (found : packet.payload[index]? = some byte)
    : content[offset + index]? = some byte := by
  rw [segment.payload, List.getElem?_take] at found
  split at found
  · rwa [List.getElem?_drop] at found
  · cases found

end Packet.SegmentOf

theorem relativeSequence_add {base : UInt32} {distance : Nat} (near : distance < 2 ^ 31)
    : relativeSequence (base + UInt32.ofNat distance) base = distance
      ∧ (base + UInt32.ofNat distance - base).toNat = distance := by
  have small : (UInt32.ofNat distance).toNat = distance :=
    UInt32.toNat_ofNat_of_lt' (by simp only [UInt32.size]; omega)
  have difference : (base + UInt32.ofNat distance - base).toNat = distance := by
    have cancel : base + UInt32.ofNat distance - base = UInt32.ofNat distance := by
      rw [UInt32.add_comm]
      exact UInt32.add_sub_cancel _ _
    rw [cancel, small]
  refine ⟨?_, difference⟩
  simp only [relativeSequence, difference]
  rw [if_pos (by omega)]

namespace Covers

theorem finSequence_eq (covers : Covers packets content isn) (member : packet ∈ packets)
    (fin : packet.has tcpFin = true)
    : packet.finSequence = isn + 1 + UInt32.ofNat content.length := by
  rcases covers.kinds packet member with opens | ⟨offset, segment⟩
  · rw [opens.fin] at fin
    cases fin
  · have declared : packet.declared = UInt32.ofNat packet.payload.length := by
      rw [← segment.declared, UInt32.ofNat_toNat]
    rw [Packet.finSequence, segment.dataSequence, declared, UInt32.add_assoc (isn + 1),
      ← UInt32.ofNat_add, segment.fin fin]

theorem segment_of_data (covers : Covers packets content isn) (member : packet ∈ packets)
    (data : 0 < packet.declared)
    : ∃ offset, packet.SegmentOf content isn offset := by
  rcases covers.kinds packet member with opens | segment
  · rw [opens.declared] at data
    exact absurd data (lt_irrefl _)
  · exact segment

theorem oneDirection {limits : TcpReassemblyLimits} (covers : Covers packets content isn)
    (untimed : limits.tcpIdleUs = 0) (within : WithinLimits limits packets)
    : OneDirection limits packets := by
  refine ⟨covers.oneKey, .inl untimed, ?_, ?_, ?_, ?_, ?_, within.segmentsLe,
    within.totalSegmentsLe, within.bytesLe, within.totalBytesLe⟩
  · intro packet member
    rcases covers.kinds packet member with opens | ⟨_, segment⟩
    · exact opens.rst
    · exact segment.rst
  · intro packet member
    rcases covers.kinds packet member with opens | ⟨_, segment⟩
    · exact .inl opens.syn
    · exact .inr segment.declared_pos
  · intro packet member
    rcases covers.kinds packet member with opens | ⟨_, segment⟩
    · simp [opens.payload]
    · exact segment.declared.ge
  · intro left leftIn right rightIn leftSyn rightSyn
    have opens (packet : Packet) (member : packet ∈ packets) (flagged : packet.has tcpSyn = true)
        : packet.sequence = isn := by
      rcases covers.kinds packet member with opens | ⟨_, segment⟩
      · exact opens.sequence
      · rw [segment.syn] at flagged
        cases flagged
    rw [opens left leftIn leftSyn, opens right rightIn rightSyn]
  · intro left leftIn right rightIn leftFin rightFin
    rw [covers.finSequence_eq leftIn leftFin, covers.finSequence_eq rightIn rightFin]

end Covers

/-! ### The gathered direction -/

/-- The direction gathered from the packets: it saw the SYN, holds segments of the content only,
covers it, and a FIN it saw stands past it.
-/
structure Flow.Holding (flow : Flow) (content : List UInt8) (isn : UInt32) : Prop where
  live : flow.failure = ""
  syn : flow.hasSyn = true
  synSequence : flow.synSequence = isn
  fin : flow.hasFin = true → flow.finSequence = isn + 1 + UInt32.ofNat content.length
  placed
    : ∀ segment ∈ flow.segments,
        ∃ offset,
          segment.sequence = isn + 1 + UInt32.ofNat offset
          ∧ offset + segment.declared.toNat ≤ content.length
          ∧ ∀ index byte,
              segment.bytes[index]? = some byte → content[offset + index]? = some byte
  covered
    : ∀ pos byte,
        content[pos]? = some byte
        → ∃ segment ∈ flow.segments,
            ∃ offset index,
              segment.sequence = isn + 1 + UInt32.ofNat offset
              ∧ segment.bytes[index]? = some byte
              ∧ pos = offset + index
              ∧ pos < offset + segment.declared.toNat

theorem Covers.holding {key : TcpFlowKey} {state : TcpReassembler} {flow : Flow}
    (covers : Covers packets content isn) (gathered : Gathered key packets state flow)
    : flow.Holding content isn := by
  have known (segment : Segment) (stored : segment ∈ flow.segments)
      : ∃ packet ∈ packets,
          ∃ offset, packet.SegmentOf content isn offset ∧ packet.range = segment.range := by
    have member := (gathered.ranges segment.range).mp (List.mem_map_of_mem stored)
    obtain ⟨packet, packetIn, data, same⟩ := mem_ranges.mp member
    obtain ⟨offset, segmentOf⟩ := covers.segment_of_data packetIn data
    exact ⟨packet, packetIn, offset, segmentOf, same⟩
  obtain ⟨opener, openerIn, opens⟩ := covers.opened
  refine ⟨gathered.live, gathered.syn.seen_iff.mpr ⟨opener, openerIn, opens.syn⟩, ?_, ?_, ?_, ?_⟩
  · rw [gathered.syn.agrees opener openerIn opens.syn, opens.sequence]
  · intro seen
    obtain ⟨last, lastIn, flagged⟩ := gathered.fin.seen_iff.mp seen
    rw [gathered.fin.agrees last lastIn flagged, covers.finSequence_eq lastIn flagged]
  · intro segment stored
    obtain ⟨packet, packetIn, offset, segmentOf, same⟩ := known segment stored
    simp only [Packet.range, Segment.range, Prod.mk.injEq] at same
    obtain ⟨sequence, declared, bytes⟩ := same
    refine ⟨offset, ?_, ?_, ?_⟩
    · rw [← sequence, segmentOf.dataSequence]
    · rw [← declared, segmentOf.declared]
      exact segmentOf.within
    · intro index byte found
      rw [← bytes] at found
      exact segmentOf.getElem? found
  · intro pos byte found
    obtain ⟨inside, _⟩ := List.getElem?_eq_some_iff.mp found
    obtain ⟨packet, packetIn, offset, segmentOf, reached, before⟩ := covers.covered pos inside
    have member : packet.range ∈ ranges packets :=
      mem_ranges.mpr ⟨packet, packetIn, segmentOf.declared_pos, rfl⟩
    obtain ⟨segment, stored, same⟩ := List.mem_map.mp ((gathered.ranges _).mpr member)
    simp only [Packet.range, Segment.range, Prod.mk.injEq] at same
    obtain ⟨sequence, declared, bytes⟩ := same
    have read : packet.payload[pos - offset]? = some byte := by
      rw [segmentOf.payload, List.getElem?_take, if_pos (by omega), List.getElem?_drop,
        Nat.add_sub_cancel' reached]
      exact found
    refine ⟨segment, stored, offset, pos - offset, ?_, ?_, by omega, ?_⟩
    · rw [sequence, segmentOf.dataSequence]
    · rw [bytes]
      exact read
    · rw [declared, segmentOf.declared]
      exact before

namespace Flow.Holding

variable {flow : Flow} {limits : AcceptedLimits} {key : TcpFlowKey}

theorem streamBase_eq (holding : flow.Holding content isn) : streamBase flow = isn + 1 := by
  simp [streamBase, holding.syn, holding.synSequence]

theorem place_eq (holding : flow.Holding content isn) (short : content.length < 2 ^ 31)
    (fits : content.length ≤ limits.maxStreamBytes) {segment : Segment}
    (stored : segment ∈ flow.segments)
    : ∃ offset,
        place limits (isn + 1) segment = some offset
        ∧ segment.sequence = isn + 1 + UInt32.ofNat offset
        ∧ offset + segment.declared.toNat ≤ content.length := by
  obtain ⟨offset, sequence, within, _⟩ := holding.placed segment stored
  refine ⟨offset, place_eq_some_iff.mpr ⟨?_, by omega⟩, sequence, within⟩
  rw [sequence]
  exact (relativeSequence_add (by omega)).1

end Flow.Holding

theorem mapM_place_exists {limits : AcceptedLimits} {base : UInt32} {segments : List Segment}
    {bound : Nat}
    (placed
      : ∀ segment ∈ segments,
          ∃ offset,
            place limits base segment = some offset
            ∧ offset + segment.declared.toNat ≤ bound)
    : ∃ offsets,
        segments.mapM (place limits base) = some offsets
        ∧ dataExtent segments offsets ≤ bound := by
  induction segments with
  | nil => exact ⟨[], rfl, Nat.zero_le _⟩
  | cons segment rest ih =>
    obtain ⟨⟨offset, here, within⟩, later⟩ := List.forall_mem_cons.mp placed
    obtain ⟨offsets, placedRest, extent⟩ := ih later
    refine ⟨offset :: offsets, ?_, ?_⟩
    · simp [List.mapM_cons, here, placedRest]
    · refine foldl_max_le.mpr ⟨Nat.zero_le _, ?_⟩
      rw [List.zipWith_cons_cons, List.forall_mem_cons]
      exact ⟨within, (foldl_max_le.mp extent).2⟩

namespace Flow.Holding

variable {flow : Flow} {limits : AcceptedLimits} {key : TcpFlowKey}

/-- The extent of the stream is the length of the content. -/
theorem measure_eq (holding : flow.Holding content isn) (short : content.length < 2 ^ 31)
    (fits : content.length ≤ limits.maxStreamBytes)
    : ∃ offsets, measure limits key flow (isn + 1) = .ok (offsets, content.length) := by
  obtain ⟨offsets, placed, extentLe⟩ := @mapM_place_exists limits (isn + 1) flow.segments
    content.length (fun segment stored => by
      obtain ⟨offset, place, _, within⟩ := holding.place_eq short fits stored
      exact ⟨offset, place, within⟩)
  have measured : ∃ extent, measure limits key flow (isn + 1) = .ok (offsets, extent)
      ∧ extent ≤ content.length := by
    unfold measure
    rw [placed]
    dsimp only
    split
    case isTrue seen =>
      have finish : relativeSequence flow.finSequence (isn + 1) = content.length := by
        rw [holding.fin seen]
        exact (relativeSequence_add short).1
      have inside : ¬ ((content.length : Int) < 0
          ∨ limits.maxStreamBytes < (content.length : Int).toNat) := by omega
      rw [finish, if_neg inside, if_neg (by simpa using extentLe)]
      exact ⟨_, rfl, by simp⟩
    case isFalse => exact ⟨_, rfl, extentLe⟩
  obtain ⟨extent, measured, extentLe⟩ := measured
  refine ⟨offsets, ?_⟩
  rw [measured, show extent = content.length from ?_]
  by_contra differs
  obtain ⟨byte, found⟩ : ∃ byte, content[content.length - 1]? = some byte :=
    ⟨_, List.getElem?_eq_getElem (by omega)⟩
  obtain ⟨segment, stored, offset, index, sequence, _, place, before⟩ :=
    holding.covered _ byte found
  have within := measure_covers measured stored
  rw [sequence, (relativeSequence_add (by omega)).2] at within
  omega

theorem supplies (holding : flow.Holding content isn) (short : content.length < 2 ^ 31)
    {pos : Nat} {byte : UInt8} (supplied : Supplies (isn + 1) flow.segments pos byte)
    : content[pos]? = some byte := by
  obtain ⟨segment, stored, index, read, rfl⟩ := supplied
  obtain ⟨offset, sequence, within, agrees⟩ := holding.placed segment stored
  rw [sequence, (relativeSequence_add (by omega)).2]
  exact agrees index byte read

theorem supplied (holding : flow.Holding content isn) (short : content.length < 2 ^ 31)
    {pos : Nat} {byte : UInt8} (found : content[pos]? = some byte)
    : Supplies (isn + 1) flow.segments pos byte := by
  obtain ⟨inside, _⟩ := List.getElem?_eq_some_iff.mp found
  obtain ⟨segment, stored, offset, index, sequence, read, place, _⟩ := holding.covered pos byte found
  refine ⟨segment, stored, index, read, ?_⟩
  rw [sequence, (relativeSequence_add (by omega)).2]
  exact place

end Flow.Holding

/-! ### The finished stream -/

/-- What the stream of a fully captured content shows. -/
def wholeView (base : UInt32) (content : List UInt8) : StreamView :=
  { status := .contiguous
    error := ""
    sequence := base
    expectedBytes := UInt32.ofNat content.length
    capturedBytes := UInt32.ofNat content.length
    gaps := []
    chunks := [{ offset := 0, sequence := base, data := content }] }

theorem reassembled_whole (base : UInt32) (occupied : content ≠ [])
    : reassembled true base (content.map some) = wholeView base content := by
  obtain ⟨size, length⟩ := Nat.exists_eq_succ_of_ne_zero
    (List.length_pos_iff.mpr occupied).ne'
  have pieces : runs Option.isSome (content.map some).length 0 (content.map some)
      = [(0, content.map some)] := by
    rw [List.length_map, length]
    refine runs_uniform (by simpa using occupied) ?_ size 0
    intro left leftIn right rightIn
    obtain ⟨_, _, rfl⟩ := List.mem_map.mp leftIn
    obtain ⟨_, _, rfl⟩ := List.mem_map.mp rightIn
    rfl
  have held : (content.map some).any Option.isSome = true := by
    obtain ⟨byte, rest, rfl⟩ := List.exists_cons_of_ne_nil occupied
    rfl
  have bytes : (content.map some).reduceOption = content := by
    simp [List.reduceOption, List.filterMap_map]
  have gaps : gapViews (content.map some) = [] := by
    rw [gapViews, pieces, List.filter_cons, if_neg (by simp [held])]
    rfl
  have chunks : chunkViews base (content.map some)
      = [{ offset := 0, sequence := base, data := content }] := by
    rw [chunkViews, pieces, List.filter_cons, if_pos held]
    simp [bytes]
  have captured : capturedIn (content.map some) = UInt32.ofNat content.length := by
    rw [capturedIn, pieces, List.filter_cons, if_pos held]
    simp
  simp [reassembled, wholeView, gaps, chunks, captured]

/-- Finishing a direction that holds the content shows exactly the content.
Witness: the segments are placed inside it, agree with it wherever they overlap, and leave no
position out.
-/
theorem Flow.Holding.finish_views {flow : Flow} {limits : AcceptedLimits} {key : TcpFlowKey}
    {messages : List TcpStream} (holding : flow.Holding content isn) (sound : flow.Sound)
    (short : content.length < 2 ^ 31) (fits : content.length ≤ limits.maxStreamBytes)
    (occupied : content ≠ []) (finished : finish limits key flow = .ok messages)
    : ∃ stream,
        messages = [stream]
        ∧ stream.view = wholeView (isn + 1) content
        ∧ stream.synSeen = true
        ∧ stream.Traced := by
  have traced := finish_traced sound finished
  obtain ⟨offsets, measured⟩ := @measure_eq content isn flow limits key holding short fits
  have base := holding.streamBase_eq
  have positive : 0 < content.length := List.length_pos_iff.mpr occupied
  cases finish_finished finished with
  | failed failure => exact absurd holding.live failure
  | silent _ empty =>
    obtain ⟨byte, found⟩ : ∃ byte, content[0]? = some byte :=
      ⟨_, List.getElem?_eq_getElem positive⟩
    obtain ⟨_, stored, _⟩ := holding.covered 0 byte found
    rw [empty] at stored
    cases stored
  | unmeasured _ _ failed =>
    rw [base, measured] at failed
    cases failed
  | conflicting _ _ placed clash =>
    rw [base, measured] at placed
    cases placed
    have inside := sound.inside measured
    obtain ⟨pos, left, right, differs, leftSupplied, rightSupplied⟩ :=
      (overlay_blank_eq_none_iff inside sound.counted).mp clash
    have same := (holding.supplies short leftSupplied).symm.trans
      (holding.supplies short rightSupplied)
    exact absurd (Option.some.inj same) differs
  | @reassembled _ offsets' extent cells stream _ placed wrote named shown =>
    rw [base, measured] at placed
    cases placed
    obtain ⟨length, held⟩ :=
      overlay_blank_eq_some (sound.inside measured) sound.counted wrote
    have contents : cells.map Cell.content = content.map some := by
      refine List.ext_getElem? fun pos => ?_
      rw [List.getElem?_map, List.getElem?_map]
      rcases Nat.lt_or_ge pos content.length with inside | beyond
      · have found : content[pos]? = some content[pos] := List.getElem?_eq_getElem inside
        have shows := (held pos content[pos]).mpr (holding.supplied short found)
        obtain ⟨cell, stands, byte⟩ := Option.bind_eq_some_iff.mp shows
        rw [stands, found, Option.map_some, Option.map_some, byte]
      · rw [List.getElem?_eq_none beyond, List.getElem?_eq_none (by omega)]
        rfl
    rw [if_pos positive] at traced ⊢
    obtain ⟨syn, trace⟩ := traced stream List.mem_cons_self
    refine ⟨stream, rfl, ?_, syn.trans holding.syn, trace⟩
    rw [shown length, base, holding.syn, contents, reassembled_whole _ occupied]

namespace TcpReassembler

variable {limits : TcpReassemblyLimits} {initial : TcpReassembler}

/-- Scanning the SYN and segments that cover a content shows exactly the content, whatever their
order. Nothing is shown for an empty one.
-/
theorem scan_covers (accepted : new limits = .ok initial) (room : 0 < limits.maxFlows)
    (untimed : limits.tcpIdleUs = 0) (covers : Covers packets content isn)
    (within : WithinLimits limits packets) (short : content.length < 2 ^ 31)
    (fits : content.length ≤ limits.maxStreamBytes)
    : ∃ final streams,
        initial.scan packets = .ok (final, streams)
        ∧ (content = [] → streams = [])
        ∧ (content ≠ []
          → ∃ stream,
              streams = [stream]
              ∧ stream.view = wholeView (isn + 1) content
              ∧ stream.synSeen = true
              ∧ stream.Traced) := by
  obtain ⟨opener, openerIn, _⟩ := covers.opened
  have keyed (packet : Packet) (member : packet ∈ packets) : packet.key = opener.key :=
    covers.oneKey packet member opener openerIn
  obtain ⟨state, flow, final, messages, gathered, sound, finished, scans⟩ :=
    scan_gathers accepted (covers.oneDirection untimed within) room keyed
      (List.ne_nil_of_mem openerIn)
  have holding := covers.holding gathered
  obtain ⟨limited, _⟩ := new_eq accepted
  refine ⟨final, _, scans, ?_, ?_⟩
  · intro empty
    have bare : ¬ flow.Bounded := by
      intro bounded
      rcases bounded with stored | ⟨seen, _⟩
      · obtain ⟨segment, rest, segments⟩ := List.exists_cons_of_ne_nil stored
        have member : segment ∈ flow.segments := segments ▸ List.mem_cons_self
        obtain ⟨offset, _, inside, _⟩ := holding.placed segment member
        have positive := UInt32.lt_iff_toNat_lt.mp (sound.declared segment member).1
        simp only [empty, List.length_nil, UInt32.toNat_zero] at inside positive
        omega
      · obtain ⟨last, lastIn, fin⟩ := gathered.fin.seen_iff.mp seen
        rcases covers.kinds last lastIn with opens | ⟨offset, segment⟩
        · rw [opens.fin] at fin
          cases fin
        · have inside := segment.within
          have positive := segment.length_pos
          rw [empty, List.length_nil] at inside
          omega
    rw [(finish_finished finished).of_unbounded holding.live bare, List.map_nil]
  · intro occupied
    obtain ⟨stream, rfl, shown, syn, traced⟩ :=
      holding.finish_views sound short (limited ▸ fits) occupied finished
    exact ⟨{ stream with finalizedBy := "eof" }, rfl, shown, syn, traced⟩

end TcpReassembler

end PacketQuapture.Reassembly
