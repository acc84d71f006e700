import PacketQuapture.Reassembly.Exactness

/-! The packets a range of a stream came from are those that own its bytes.
A byte belongs to the packet whose segment supplied its position first; looking a range up finds the
first and the last of these packets, wherever their segments stand in the stream.
-/

namespace PacketQuapture.Reassembly

open Library

/-- The packet that owns a position of the stream: the first segment to supply it was its. -/
def Flow.owner? (flow : Flow) (pos : Nat) : Option PacketStamp :=
  (flow.segments.find? (Segment.covers (streamBase flow) pos)).map Segment.stamp

/-- The packets that own a byte of a range of a chunk. -/
def Flow.Owns (flow : Flow) (chunk : TcpStreamChunk) (offset length : Nat) (packet : PacketStamp)
    : Prop :=
  ∃ index, offset ≤ index ∧ index < offset + length
    ∧ flow.owner? (chunk.offset.toNat + index) = some packet

theorem Tiles.exists_origin {start stop index : Nat} {origins : List TcpByteOrigin}
    (tiles : Tiles start origins stop) (lower : start ≤ index) (upper : index < stop)
    : ∃ origin ∈ origins, ∃ within < origin.length.toNat, origin.offset.toNat + within = index := by
  induction tiles with
  | nil => omega
  | @cons start stop origin rest placed occupied later ih =>
    rcases Nat.lt_or_ge index (start + origin.length.toNat) with here | beyond
    · exact ⟨origin, List.mem_cons_self, index - start, by omega, by omega⟩
    · obtain ⟨other, member, within⟩ := ih beyond upper
      exact ⟨other, List.mem_cons_of_mem _ member, within⟩

/-- The origins that overlap a range name the owners of its bytes. -/
theorem Reconstructs.owns_iff {flow : Flow} {stream : TcpStream} (made : Reconstructs flow stream)
    {chunk : TcpStreamChunk} (member : chunk ∈ stream.chunks) {offset length : Nat}
    (some_byte : 0 < length) (inside : offset + length ≤ chunk.data.length) (packet : PacketStamp)
    : flow.Owns chunk offset length packet
      ↔ packet ∈ (chunk.origins.filter (TcpByteOrigin.overlaps offset (offset + length))).map
        TcpByteOrigin.stamp := by
  have named (origin : TcpByteOrigin) (among : origin ∈ chunk.origins) (within : Nat)
      (bound : within < origin.length.toNat)
      : flow.owner? (chunk.offset.toNat + (origin.offset.toNat + within)) = some origin.stamp := by
    rw [← Nat.add_assoc]
    exact made.named chunk member origin among within bound
  simp only [List.mem_map, List.mem_filter, TcpByteOrigin.overlaps, Bool.and_eq_true,
    decide_eq_true_eq]
  constructor
  · rintro ⟨index, lower, upper, owned⟩
    obtain ⟨origin, among, within, bound, rfl⟩ :=
      (made.origins chunk member).exists_origin (Nat.zero_le _) (upper.trans_le inside)
    rw [named origin among within bound] at owned
    exact ⟨origin, ⟨among, by omega, by omega⟩, Option.some.inj owned⟩
  · rintro ⟨origin, ⟨among, after, before⟩, rfl⟩
    -- the later of the two starts is a byte of both the origin and the range
    have occupied := ((made.origins chunk member).of_mem origin among).2
    refine ⟨origin.offset.toNat + (offset - origin.offset.toNat), by omega, by omega, ?_⟩
    exact named origin among _ (by omega)

/-- For every chunk of a finished stream and every range inside it, the search for the first origin
by halving ends where a scan does, and looking the range up returns the first and the last of exactly
the packets that own a byte of it.
-/
theorem finish_provenance {limits : AcceptedLimits} {key : TcpFlowKey} {flow : Flow}
    {messages : List TcpStream} (sound : flow.Sound)
    (finished : finish limits key flow = .ok messages)
    : ∀ stream ∈ messages, ∀ chunk ∈ stream.chunks, ∀ offset length, 0 < length →
        offset + length ≤ chunk.data.length →
          upperBound (fun origin => decide (origin.offset.toNat ≤ offset)) chunk.origins
              = (chunk.origins.takeWhile fun origin => decide (origin.offset.toNat ≤ offset)).length
          ∧ ∃ first last, chunk.provenance offset length = .ok (first, last)
            ∧ flow.Owns chunk offset length first ∧ flow.Owns chunk offset length last
            ∧ ∀ packet, flow.Owns chunk offset length packet →
                first.number ≤ packet.number ∧ packet.number ≤ last.number := by
  intro stream member chunk among offset length some_byte inside
  have traced := (finish_traced sound finished stream member).2 chunk among
  rcases finish_streams finished member with ⟨status, error, rfl⟩ | ⟨offsets, extent, cells,
    measured, wrote, rfl⟩
  · cases among
  · have owns := (sound.reconstructs measured wrote).owns_iff among some_byte inside
    obtain ⟨first, last, found, extremes⟩ := traced.provenance_eq some_byte inside
    refine ⟨(traced.2.partitioned offset).upperBound_eq, first, last, found, ?_, ?_, ?_⟩
    · exact (owns first).mpr extremes.starts
    · exact (owns last).mpr extremes.ends
    · exact fun packet owned => extremes.between packet ((owns packet).mp owned)

/-- The whole of a stream that two packets supplied. -/
theorem finish_provenance_overlapping
    : ∃ stream chunk first last, finish defaultLimits {} overlappingFlow = .ok [stream]
        ∧ chunk ∈ stream.chunks
        ∧ chunk.provenance 0 3 = .ok (first, last)
        ∧ overlappingFlow.Owns chunk 0 3 first
        ∧ overlappingFlow.Owns chunk 0 3 last := by
  have computed : (finish defaultLimits {} overlappingFlow).toOption.map (List.map fun stream =>
      stream.chunks.map fun chunk => chunk.data.length) = some [[3]] := by
    rfl
  cases finished : finish defaultLimits {} overlappingFlow with
  | error failure =>
    rw [finished] at computed
    cases computed
  | ok messages =>
    rw [finished] at computed
    obtain ⟨stream, rfl, chunks⟩ := List.map_eq_singleton_iff.mp (Option.some.inj computed)
    obtain ⟨chunk, only, size⟩ := List.map_eq_singleton_iff.mp chunks
    have among : chunk ∈ stream.chunks := only ▸ List.mem_cons_self
    obtain ⟨_, first, last, found, starts, ends, _⟩ := finish_provenance overlappingFlow_sound
      finished stream List.mem_cons_self chunk among 0 3 (by decide) size.ge
    exact ⟨stream, chunk, first, last, rfl, among, found, starts, ends⟩

end PacketQuapture.Reassembly
