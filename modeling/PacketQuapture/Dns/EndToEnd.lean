import PacketQuapture.Dns.Framer
import PacketQuapture.Reassembly.Coverage

/-! DNS over TCP from captured segments to messages: reassembling the segments of length-prefixed
messages and framing the stream gives the messages back.
-/

namespace PacketQuapture.Dns

open Library Reassembly

/-- The messages of a stream that shows whole frames. -/
theorem frameTcpDns_whole {stream : TcpStream} {limits : DnsFramingLimits} {base : UInt32}
    {messages : List (List UInt8)} (shown : stream.view = wholeView base (frames messages))
    (syn : stream.synSeen = true) (traced : stream.Traced)
    (short : (frames messages).length < 2 ^ 32)
    (frameable : ∀ message ∈ messages, Frameable message)
    (room : messages.length ≤ limits.maxMessages)
    : ∃ framed,
        frameTcpDns limits stream = .ok framed
        ∧ framed.map TcpDnsMessage.view = completeViews base 0 0 messages := by
  have status : stream.status = .contiguous := congrArg StreamView.status shown
  have sequence : stream.sequence = base := congrArg StreamView.sequence shown
  have expected : stream.expectedBytes = UInt32.ofNat (frames messages).length :=
    congrArg StreamView.expectedBytes shown
  have chunks : stream.chunks.map TcpStreamChunk.view
      = [{ offset := 0, sequence := base, data := frames messages }] :=
    congrArg StreamView.chunks shown
  obtain ⟨chunk, only, view⟩ := List.map_eq_singleton_iff.mp chunks
  have leading : chunk.offset = 0 := congrArg ChunkView.offset view
  have data : chunk.data = frames messages := congrArg ChunkView.data view
  have whole : stream.expectedBytes.toNat = chunk.data.length := by
    rw [expected, data]
    exact UInt32.toNat_ofNat_of_lt' (by simp only [UInt32.size]; omega)
  have trace : chunk.Traced := traced chunk (only ▸ List.mem_cons_self)
  rw [← sequence]
  exact frameTcpDns_frames status syn only leading data trace whole frameable room

/-- The row of the message at an index: numbered from one, at its offset past the SYN. -/
def messageRow (isn : UInt32) (messages : List (List UInt8)) (index : Nat) (message : List UInt8)
    : MessageView :=
  { status := .complete
    error := ""
    messageNumber := index + 1
    sequence := isn + 1 + UInt32.ofNat (frames (messages.take index)).length
    data := message }

/-- DNS over TCP end to end: the SYN and any segments that cover the length-prefixed messages,
added in any order, drain to a stream that frames to exactly the messages.
Witness: the segments reassemble to the frames whatever their order, and framing takes whole frames
apart.
-/
theorem scan_frames {limits : TcpReassemblyLimits} {framing : DnsFramingLimits}
    {initial : TcpReassembler} {packets : List Packet} {messages : List (List UInt8)}
    {isn : UInt32} (accepted : TcpReassembler.new limits = .ok initial)
    (room : 0 < limits.maxFlows) (idle : limits.tcpIdleUs = 0)
    (frameable : ∀ message ∈ messages, 12 ≤ message.length ∧ message.length ≤ 65535)
    (counted : messages.length ≤ framing.maxMessages)
    (short : (frames messages).length < 2 ^ 31)
    (fits : (frames messages).length ≤ limits.maxStreamBytes)
    (covers : Covers packets (frames messages) isn) (within : WithinLimits limits packets)
    : ∃ final streams framed,
        initial.scan packets = .ok (final, streams)
        ∧ frameStreams framing streams = .ok framed
        ∧ ∀ index,
            (framed.map TcpDnsMessage.view)[index]?
            = messages[index]?.map (messageRow isn messages index) := by
  obtain ⟨final, streams, scans, vacant, whole⟩ :=
    TcpReassembler.scan_covers accepted room idle covers within short fits
  have rows (framed : List TcpDnsMessage)
      (shown : framed.map TcpDnsMessage.view = completeViews (isn + 1) 0 0 messages) (index : Nat)
      : (framed.map TcpDnsMessage.view)[index]?
        = messages[index]?.map (messageRow isn messages index) := by
    rw [shown, getElem?_completeViews]
    simp only [Nat.zero_add]
    rfl
  by_cases empty : frames messages = []
  · have none : messages = [] := by
      have bound := length_le_frames messages
      rw [empty, List.length_nil] at bound
      exact List.length_eq_zero_iff.mp (Nat.le_zero.mp bound)
    refine ⟨final, streams, [], scans, ?_, rows [] (by rw [none]; rfl)⟩
    rw [vacant empty]
    rfl
  · obtain ⟨stream, only, shown, syn, traced⟩ := whole empty
    obtain ⟨framed, frames_, rowsShown⟩ :=
      @frameTcpDns_whole stream framing _ messages shown syn traced (by omega) frameable counted
    refine ⟨final, streams, framed, scans, ?_, rows framed rowsShown⟩
    rw [only]
    simp [frameStreams, frames_]

/-- A message of twelve bytes, its frame captured in two overlapping segments around the SYN. -/
def twoSegments : List Packet :=
  [{ key := {}, sequence := 106, flags := 16, payload := List.replicate 9 7, declared := 9,
     stamp := { number := 1 } },
    { key := {}, sequence := 100, flags := 2, payload := [], declared := 0,
      stamp := { number := 2 } },
    { key := {}, sequence := 101, flags := 16, payload := 0 :: 12 :: List.replicate 6 7,
      declared := 8, stamp := { number := 3 } }]

theorem twoSegments_covers : Covers twoSegments (frames [List.replicate 12 7]) 100 := by
  have late : (twoSegments[0]).SegmentOf (frames [List.replicate 12 7]) 100 5 := by
    constructor <;> decide
  have opens : (twoSegments[1]).Opens 100 := by
    constructor <;> decide
  have early : (twoSegments[2]).SegmentOf (frames [List.replicate 12 7]) 100 0 := by
    constructor <;> decide
  refine ⟨by decide, ?_, ⟨_, by decide, opens⟩, ?_⟩
  · intro packet member
    simp only [twoSegments, List.mem_cons, List.not_mem_nil, or_false] at member
    rcases member with rfl | rfl | rfl
    · exact .inr ⟨5, late⟩
    · exact .inl opens
    · exact .inr ⟨0, early⟩
  · intro pos inside
    rcases Nat.lt_or_ge pos 8 with first | second
    · exact ⟨_, by decide, 0, early, Nat.zero_le _, by simpa [twoSegments] using first⟩
    · refine ⟨_, by decide, 5, late, by omega, ?_⟩
      simpa [twoSegments, frames, frame] using inside

/-- Two overlapping segments out of order give the one message. -/
theorem scan_frames_twoSegments
    : ∃ initial,
        TcpReassembler.new { tcpIdleUs := 0 } = .ok initial
        ∧ ∃ final streams framed,
            initial.scan twoSegments = .ok (final, streams)
            ∧ frameStreams {} streams = .ok framed
            ∧ ∀ index,
                (framed.map TcpDnsMessage.view)[index]?
                = [List.replicate 12 7][index]?.map
                    (messageRow 100 [List.replicate 12 7] index) :=
  ⟨_, rfl,
    @scan_frames { tcpIdleUs := 0 } {} _ twoSegments [List.replicate 12 7] 100 rfl (by decide) rfl
      (by simp) (by decide) (by decide) (by decide) twoSegments_covers
      ⟨by decide, by decide, by decide, by decide⟩⟩

end PacketQuapture.Dns
