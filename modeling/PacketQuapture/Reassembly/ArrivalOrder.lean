import PacketQuapture.Reassembly.Delivery
import PacketQuapture.Reassembly.SegmentOrder

/-! Packets of one direction may arrive in any order: what is gathered from them is the same set
of segments and flags, so the streams finished from it show the same bytes.
-/

namespace PacketQuapture.Reassembly

open Library

def Packet.range (packet : Packet) : UInt32 × UInt32 × List UInt8 :=
  (packet.dataSequence, packet.declared, packet.payload)

/-- The distinct ranges of data the packets carry. -/
def ranges (packets : List Packet) : Finset (UInt32 × UInt32 × List UInt8) :=
  ((packets.filter fun packet => 0 < packet.declared).map Packet.range).toFinset

theorem mem_ranges {packets : List Packet} {range : UInt32 × UInt32 × List UInt8}
    : range ∈ ranges packets
      ↔ ∃ packet ∈ packets, 0 < packet.declared ∧ packet.range = range := by
  simp [ranges, and_assoc]

theorem ranges_append (packets : List Packet) (packet : Packet)
    : ranges (packets ++ [packet])
      = if 0 < packet.declared then insert packet.range (ranges packets) else ranges packets := by
  ext range
  rw [mem_ranges]
  split
  case isTrue data =>
    rw [Finset.mem_insert, mem_ranges]
    simp [or_and_right, exists_or, data, or_comm, eq_comm]
  case isFalse bare =>
    rw [mem_ranges]
    simp [or_and_right, exists_or, bare]

theorem ranges_subset {packets all : List Packet} (within : ∀ packet ∈ packets, packet ∈ all)
    : ranges packets ⊆ ranges all := by
  intro range member
  obtain ⟨packet, packetIn, data⟩ := mem_ranges.mp member
  exact mem_ranges.mpr ⟨packet, within packet packetIn, data⟩

/-- Packets of one direction, without a reset and without timing, that agree on their SYN and FIN
and whose distinct data keeps within the byte and segment limits.
-/
structure OneDirection (limits : TcpReassemblyLimits) (packets : List Packet) : Prop where
  oneKey : ∀ left ∈ packets, ∀ right ∈ packets, left.key = right.key
  untimed
    : limits.tcpIdleUs = 0 ∨ ∀ packet ∈ packets, packet.stamp.hasTimestamp = false
  noReset : ∀ packet ∈ packets, packet.has tcpRst = false
  carries : ∀ packet ∈ packets, packet.has tcpSyn = true ∨ 0 < packet.declared
  captured : ∀ packet ∈ packets, packet.payload.length ≤ packet.declared.toNat
  oneSyn
    : ∀ left ∈ packets,
        ∀ right ∈ packets,
          left.has tcpSyn = true → right.has tcpSyn = true → left.sequence = right.sequence
  oneFin
    : ∀ left ∈ packets,
        ∀ right ∈ packets,
          left.has tcpFin = true
          → right.has tcpFin = true
          → left.finSequence = right.finSequence
  segmentsLe : (ranges packets).card ≤ limits.maxSegments
  totalSegmentsLe : (ranges packets).card ≤ limits.maxTotalSegments
  bytesLe : (∑ range ∈ ranges packets, range.2.2.length) ≤ limits.maxStreamBytes
  totalBytesLe : (∑ range ∈ ranges packets, range.2.2.length) ≤ limits.maxTotalBytes

/-! ### Steps that only record -/

namespace TcpReassembler

variable {self : TcpReassembler} {key : TcpFlowKey} {flow : Flow} {packet : Packet}

theorem schedule_quiet {stamp : PacketStamp} (idle : flow.scheduled = false)
    (quiet : self.limits.tcpIdleUs = 0 ∨ stamp.hasTimestamp = false)
    : self.schedule key flow stamp
      = .ok (self, if stamp.hasTimestamp then flow else { flow with untimed := true }) := by
  cases timed : stamp.hasTimestamp with
  | true =>
    have off : self.limits.tcpIdleUs = 0 := quiet.resolve_right (by simp [timed])
    simp [schedule, timed, off, unschedule, idle]
  | false => simp [schedule, timed, unschedule, idle]

theorem recordFin_agrees
    (agrees
      : packet.has tcpFin = true → flow.hasFin = true → flow.finSequence = packet.finSequence)
    : self.recordFin flow packet
      = .ok (self,
          if packet.has tcpFin then
            { flow with hasFin := true, finSequence := packet.finSequence }
          else
            flow) := by
  unfold recordFin
  split
  case isTrue fin =>
    have same : ¬ (flow.hasFin = true ∧ flow.finSequence ≠ packet.finSequence) :=
      fun differs => differs.2 (agrees fin differs.1)
    rw [if_neg same]
    rfl
  case isFalse => rfl

theorem buffer_within (consistent : flow.Consistent self.limits) {segment : Segment}
    {payload : List UInt8} (fits : payload.length ≤ segment.declared.toNat)
    (small : payload.length ≤ self.limits.maxStreamBytes ∧ payload.length ≤ self.limits.maxTotalBytes)
    (totalLe : self.bufferedBytes ≤ self.limits.maxTotalBytes)
    (room
      : ¬ flow.Buffers segment payload
        → flow.segments.length < self.limits.maxSegments
          ∧ self.bufferedSegments < self.limits.maxTotalSegments
          ∧ flow.bytes + payload.length ≤ self.limits.maxStreamBytes
          ∧ self.bufferedBytes + payload.length ≤ self.limits.maxTotalBytes)
    : self.buffer flow segment payload
      = .ok (if flow.retransmits segment payload then
          (self, flow)
        else
          ({ self with
              bufferedSegments := self.bufferedSegments + 1
              bufferedBytes := self.bufferedBytes + payload.length },
            flow.keep segment payload)) := by
  have known := consistent.retransmits_iff segment payload
  have order := consistent.orderLength
  have bytesLe := consistent.bytesLe
  unfold buffer
  refine bind_eq_ok.mpr ⟨(), if_pos fits, ?_⟩
  rw [if_neg (by omega)]
  refine bind_eq_ok.mpr ⟨(), if_pos order, ?_⟩
  split
  · rfl
  case isFalse fresh =>
    obtain ⟨slots, totalSlots, space, totalSpace⟩ := room (mt known.mpr fresh)
    refine bind_eq_ok.mpr ⟨(), if_pos bytesLe, bind_eq_ok.mpr ⟨(), if_pos totalLe, ?_⟩⟩
    rw [if_neg (by omega)]
    rfl

end TcpReassembler

/-! ### Gathering a direction -/

/-- `seen` and `recorded` sum up the packets with a flag: whether there is one, and where all of
them put it.
-/
structure Recorded (bit : UInt16) (position : Packet → UInt32) (packets : List Packet)
    (seen : Bool) (recorded : UInt32)
    : Prop where
  seen_iff : seen = true ↔ ∃ packet ∈ packets, packet.has bit = true
  agrees : ∀ packet ∈ packets, packet.has bit = true → recorded = position packet
  unseen : seen = false → recorded = 0

theorem recorded_nil (bit : UInt16) (position : Packet → UInt32)
    : Recorded bit position [] false 0 := by
  constructor <;> simp

namespace Recorded

variable {bit : UInt16} {position : Packet → UInt32} {packets : List Packet} {seen : Bool}
  {recorded : UInt32}

theorem record (before : Recorded bit position packets seen recorded) {packet : Packet}
    (consistent
      : ∀ other ∈ packets,
          other.has bit = true → packet.has bit = true → position other = position packet)
    : Recorded bit position (packets ++ [packet]) (seen || packet.has bit)
        (if packet.has bit then position packet else recorded) := by
  constructor
  · rw [Bool.or_eq_true, before.seen_iff]
    simp [or_and_right, exists_or]
  · intro other member flagged
    split
    case isTrue own =>
      rcases List.mem_append.mp member with earlier | last
      · exact (consistent other earlier flagged own).symm
      · rw [List.mem_singleton.mp last]
    case isFalse absent =>
      rcases List.mem_append.mp member with earlier | last
      · exact before.agrees other earlier flagged
      · exact absurd (List.mem_singleton.mp last ▸ flagged) absent
  · intro absent
    rw [Bool.or_eq_false_iff] at absent
    rw [if_neg (by simp [absent.2])]
    exact before.unseen absent.1

theorem unique {other : List Packet} {otherSeen : Bool} {otherRecorded : UInt32}
    (left : Recorded bit position packets seen recorded) (same : packets.Perm other)
    (right : Recorded bit position other otherSeen otherRecorded)
    : seen = otherSeen ∧ recorded = otherRecorded := by
  have seenEq : seen = otherSeen := by
    rw [Bool.eq_iff_iff, left.seen_iff, right.seen_iff]
    simp only [same.mem_iff]
  refine ⟨seenEq, ?_⟩
  cases found : seen with
  | true =>
    obtain ⟨packet, member, flagged⟩ := left.seen_iff.mp found
    rw [left.agrees packet member flagged, right.agrees packet (same.mem_iff.mp member) flagged]
  | false => rw [left.unseen found, right.unseen (seenEq ▸ found)]

end Recorded

/-- `flow` is the only direction tracked, and holds the flags and the distinct data of `packets`.
-/
structure Gathered (key : TcpFlowKey) (packets : List Packet) (state : TcpReassembler)
    (flow : Flow)
    : Prop where
  flows : state.flows = OrderedMap.empty.insert key flow
  scopes : state.scopes = .empty
  live : flow.failure = ""
  idle : flow.scheduled = false
  syn : Recorded tcpSyn Packet.sequence packets flow.hasSyn flow.synSequence
  fin : Recorded tcpFin Packet.finSequence packets flow.hasFin flow.finSequence
  ranges : ∀ range, range ∈ flow.segments.map Segment.range ↔ range ∈ ranges packets
  distinct : (flow.segments.map Segment.range).Nodup

/-- A direction with a packet's stamp and flags recorded, before its data is buffered. -/
def Flow.marked (flow : Flow) (packet : Packet) : Flow :=
  let timed :=
    if packet.stamp.hasTimestamp then { flow with last := packet.stamp }
    else { flow with last := packet.stamp, untimed := true }
  let opened := timed.afterSyn packet
  if packet.has tcpFin then
    { opened with hasFin := true, finSequence := packet.finSequence }
  else
    opened

theorem Flow.marked_data (flow : Flow) (packet : Packet)
    : (flow.marked packet).bytes = flow.bytes
      ∧ (flow.marked packet).segments = flow.segments
      ∧ (flow.marked packet).segmentOrder = flow.segmentOrder
      ∧ (flow.marked packet).failure = flow.failure
      ∧ (flow.marked packet).scheduled = flow.scheduled := by
  unfold marked afterSyn
  dsimp only
  split <;> split <;> split <;> exact ⟨rfl, rfl, rfl, rfl, rfl⟩

theorem Flow.marked_syn (flow : Flow) (packet : Packet)
    : (flow.marked packet).hasSyn = (flow.hasSyn || packet.has tcpSyn)
      ∧ (flow.marked packet).synSequence
        = if packet.has tcpSyn then packet.sequence else flow.synSequence := by
  unfold marked afterSyn
  dsimp only
  split <;> split <;> split <;> simp_all

theorem Flow.marked_fin (flow : Flow) (packet : Packet)
    : (flow.marked packet).hasFin = (flow.hasFin || packet.has tcpFin)
      ∧ (flow.marked packet).finSequence
        = if packet.has tcpFin then packet.finSequence else flow.finSequence := by
  unfold marked afterSyn
  dsimp only
  split <;> split <;> split <;> simp_all

namespace Gathered

variable {key : TcpFlowKey} {packets : List Packet} {state : TcpReassembler} {flow : Flow}
  {packet : Packet}

theorem toFinset_ranges (gathered : Gathered key packets state flow)
    : (flow.segments.map Segment.range).toFinset = Reassembly.ranges packets :=
  Finset.ext fun range => by rw [List.mem_toFinset, gathered.ranges]

theorem segments_length (gathered : Gathered key packets state flow)
    : flow.segments.length = (Reassembly.ranges packets).card := by
  rw [← gathered.toFinset_ranges, List.toFinset_card_of_nodup gathered.distinct, List.length_map]

theorem bytes_eq (gathered : Gathered key packets state flow) {limits : AcceptedLimits}
    (consistent : flow.Consistent limits)
    : flow.bytes = ∑ range ∈ Reassembly.ranges packets, range.2.2.length := by
  rw [← gathered.toFinset_ranges, List.sum_toFinset _ gathered.distinct, List.map_map,
    consistent.bytesEq]
  rfl

theorem totals (gathered : Gathered key packets state flow) (books : Accounting state)
    : state.bufferedBytes = flow.bytes ∧ state.bufferedSegments = flow.segments.length := by
  have none : OrderedMap.empty.erase key = (OrderedMap.empty : OrderedMap TcpFlowKey Flow) :=
    OrderedMap.erase_eq_self (OrderedMap.find?_empty key)
  rw [books.bytesEq, books.segmentsEq, gathered.flows, OrderedMap.sumOf_insert,
    OrderedMap.sumOf_insert, none]
  simp

theorem found (gathered : Gathered key packets state flow)
    : state.flows.find? key = some flow := by
  rw [gathered.flows]
  exact OrderedMap.find?_insert_self _ _ _

theorem buffers_iff (gathered : Gathered key packets state flow)
    : flow.Buffers packet.segment packet.payload ↔ packet.range ∈ Reassembly.ranges packets := by
  rw [← gathered.ranges, List.mem_map]
  simp only [Flow.Buffers, Segment.range, Packet.range, Packet.segment, Prod.mk.injEq]

end Gathered

/-- Up to the buffering of its data, a packet that fits its direction is only recorded. -/
theorem TcpReassembler.absorb_eq {self : TcpReassembler} {flow : Flow} {packet : Packet}
    (idle : flow.scheduled = false)
    (quiet : self.limits.tcpIdleUs = 0 ∨ packet.stamp.hasTimestamp = false)
    (agrees
      : packet.has tcpFin = true → flow.hasFin = true → flow.finSequence = packet.finSequence)
    (captured : packet.payload.length ≤ packet.declared.toNat)
    : self.absorb flow packet
      = (do
          let (self, flow) ← self.bufferData (flow.marked packet) packet
          return { self with flows := self.flows.insert packet.key flow }) := by
  have scheduled : self.schedule packet.key { flow with last := packet.stamp } packet.stamp = _ :=
    schedule_quiet idle quiet
  have closes : self.recordFin (Flow.afterSyn (if packet.stamp.hasTimestamp then
      { flow with last := packet.stamp } else { flow with last := packet.stamp, untimed := true })
      packet) packet = .ok (self, flow.marked packet) := by
    rw [recordFin_agrees]
    · rfl
    · intro fin
      unfold Flow.afterSyn
      split <;> split <;> exact agrees fin
  have checks : self.checkCaptured (flow.marked packet) packet
      = .ok (self, flow.marked packet) := by
    unfold checkCaptured
    rw [if_neg (by omega)]
  unfold absorb
  rw [scheduled]
  change (self.recordFin (Flow.afterSyn _ packet) packet >>= _) = _
  rw [closes]
  change (self.checkCaptured _ packet >>= _) = _
  rw [checks]
  rfl

namespace Gathered

variable {limits : TcpReassemblyLimits} {all packets : List Packet} {key : TcpFlowKey}
  {state : TcpReassembler} {flow : Flow} {packet : Packet}

/-- A packet whose range is new leaves room for it within the limits. -/
theorem room (gathered : Gathered key packets state flow) (books : Accounting state)
    (direction : OneDirection state.limits.toTcpReassemblyLimits all) (member : packet ∈ all)
    (within : ∀ other ∈ packets, other ∈ all) (data : 0 < packet.declared)
    (fresh : packet.range ∉ Reassembly.ranges packets)
    : flow.segments.length < state.limits.maxSegments
      ∧ state.bufferedSegments < state.limits.maxTotalSegments
      ∧ flow.bytes + packet.payload.length ≤ state.limits.maxStreamBytes
      ∧ state.bufferedBytes + packet.payload.length ≤ state.limits.maxTotalBytes := by
  obtain ⟨totalBytes, totalSegments⟩ := gathered.totals books
  have subset : insert packet.range (Reassembly.ranges packets) ⊆ Reassembly.ranges all :=
    Finset.insert_subset (mem_ranges.mpr ⟨packet, member, data, rfl⟩) (ranges_subset within)
  have counted := Finset.card_le_card subset
  have summed : _ ≤ ∑ range ∈ Reassembly.ranges all, range.2.2.length :=
    Finset.sum_le_sum_of_subset subset
  rw [Finset.card_insert_of_notMem fresh, ← gathered.segments_length] at counted
  rw [Finset.sum_insert fresh, ← gathered.bytes_eq (books.consistent _ _ gathered.found)] at summed
  have segmentsLe := direction.segmentsLe
  have totalSegmentsLe := direction.totalSegmentsLe
  have bytesLe := direction.bytesLe
  have totalBytesLe := direction.totalBytesLe
  have captured : packet.range.2.2.length = packet.payload.length := rfl
  omega

theorem small (direction : OneDirection limits all) (member : packet ∈ all)
    (data : 0 < packet.declared)
    : packet.payload.length ≤ limits.maxStreamBytes
      ∧ packet.payload.length ≤ limits.maxTotalBytes := by
  have single : packet.payload.length ≤ ∑ range ∈ Reassembly.ranges all, range.2.2.length :=
    Finset.single_le_sum (f := fun range : UInt32 × UInt32 × List UInt8 => range.2.2.length)
      (fun _ _ => Nat.zero_le _) (mem_ranges.mpr ⟨packet, member, data, rfl⟩)
  exact ⟨single.trans direction.bytesLe, single.trans direction.totalBytesLe⟩

/-- Storing what a packet adds to its direction gathers the packet. -/
theorem absorb (gathered : Gathered key packets state flow) (books : Accounting state)
    (direction : OneDirection state.limits.toTcpReassemblyLimits all) (keyed : packet.key = key)
    (member : packet ∈ all) (within : ∀ other ∈ packets, other ∈ all)
    : ∃ next changed,
        state.absorb flow packet = .ok next
        ∧ Gathered key (packets ++ [packet]) next changed := by
  obtain ⟨bytes, segments, order, failure, scheduled⟩ := flow.marked_data packet
  obtain ⟨hasSyn, synSequence⟩ := flow.marked_syn packet
  obtain ⟨hasFin, finSequence⟩ := flow.marked_fin packet
  have consistent : (flow.marked packet).Consistent state.limits :=
    (books.consistent _ _ gathered.found).relabel bytes segments order failure
  have syn := gathered.syn.record fun other otherIn =>
    direction.oneSyn other (within other otherIn) packet member
  have fin := gathered.fin.record fun other otherIn =>
    direction.oneFin other (within other otherIn) packet member
  rw [← hasSyn, ← synSequence] at syn
  rw [← hasFin, ← finSequence] at fin
  have live := failure.trans gathered.live
  have idle := scheduled.trans gathered.idle
  have stored (changed : Flow)
      : state.flows.insert packet.key changed = OrderedMap.empty.insert key changed := by
    rw [gathered.flows, keyed, OrderedMap.insert_insert]
  have captured := direction.captured packet member
  rw [TcpReassembler.absorb_eq gathered.idle
    (direction.untimed.imp_right fun untimed => untimed packet member) ?_ captured]
  · by_cases data : 0 < packet.declared
    · have known : (flow.marked packet).Buffers packet.segment packet.payload
          ↔ packet.range ∈ Reassembly.ranges packets := by
        rw [Flow.Buffers, segments]
        exact gathered.buffers_iff
      rw [TcpReassembler.bufferData, if_pos ⟨live, data⟩,
        TcpReassembler.buffer_within consistent captured (small direction member data)
          books.bytesLe fun fresh => by
            rw [segments, bytes]
            exact gathered.room books direction member within data (mt known.mpr fresh)]
      split
      case isTrue retransmitted =>
        have old := known.mp ((consistent.retransmits_iff _ _).mp retransmitted)
        refine ⟨_, _, rfl, stored _, gathered.scopes, live, idle, syn, fin, ?_, ?_⟩
        · rw [segments, ranges_append, if_pos data, Finset.insert_eq_self.mpr old]
          exact gathered.ranges
        · rw [segments]
          exact gathered.distinct
      case isFalse kept =>
        have fresh : packet.range ∉ Reassembly.ranges packets :=
          mt known.mpr (mt (consistent.retransmits_iff _ _).mpr kept)
        have appended : ((flow.marked packet).keep packet.segment packet.payload).segments.map
            Segment.range = flow.segments.map Segment.range ++ [packet.range] := by
          rw [Flow.keep, segments, List.map_append]
          rfl
        refine ⟨_, _, rfl, stored _, gathered.scopes, live, idle, syn, fin, ?_, ?_⟩
        · intro range
          rw [appended, ranges_append, if_pos data, List.mem_append, List.mem_singleton,
            Finset.mem_insert, gathered.ranges, or_comm]
        · rw [appended, ← List.concat_eq_append, List.nodup_concat, gathered.ranges]
          exact ⟨fresh, gathered.distinct⟩
    · have skips : state.bufferData (flow.marked packet) packet = .ok (state, flow.marked packet) := by
        rw [TcpReassembler.bufferData, if_neg fun both => data both.2]
      rw [skips]
      refine ⟨_, _, rfl, stored _, gathered.scopes, live, idle, syn, fin, ?_, ?_⟩
      · rw [segments, ranges_append, if_neg data]
        exact gathered.ranges
      · rw [segments]
        exact gathered.distinct
  · intro own seen
    obtain ⟨other, otherIn, flagged⟩ := gathered.fin.seen_iff.mp seen
    rw [gathered.fin.agrees other otherIn flagged]
    exact direction.oneFin other (within other otherIn) packet member flagged own

end Gathered

end PacketQuapture.Reassembly
