import PacketQuapture.Reassembly.Emission

/-! What finishing a direction yields: nothing, one diagnostic, or one stream that shows every
byte the direction buffered.
-/

namespace PacketQuapture.Reassembly

open Library

/-- Every buffered segment declares data and captured no more than it declared, every index can
own a byte, and a failed direction failed for a conflict or a limit.
-/
structure Flow.Sound (flow : Flow) : Prop where
  counted : flow.segments.length ≤ unowned
  declared
    : ∀ segment ∈ flow.segments,
        0 < segment.declared ∧ segment.bytes.length ≤ segment.declared.toNat
  judged : flow.failure ≠ "" → flow.failureStatus = .conflict ∨ flow.failureStatus = .limit

/-- A stream without its provenance: no key, id, stamps or origins. -/
structure StreamView where
  status : TcpStreamStatus
  error : String
  sequence : UInt32
  expectedBytes : UInt32
  capturedBytes : UInt32
  gaps : List TcpGap
  chunks : List ChunkView
deriving DecidableEq, Repr

def TcpStream.view (stream : TcpStream) : StreamView :=
  { status := stream.status
    error := stream.error
    sequence := stream.sequence
    expectedBytes := stream.expectedBytes
    capturedBytes := stream.capturedBytes
    gaps := stream.gaps
    chunks := stream.chunks.map TcpStreamChunk.view }

/-- The view of a reassembled stream: the base, the extent and the bytes held decide it. -/
def reassembled (hasSyn : Bool) (base : UInt32) (contents : List (Option UInt8)) : StreamView :=
  { status :=
      if ¬ hasSyn then .unanchored else if gapViews contents ≠ [] then .gapped else .contiguous
    error :=
      if ¬ hasSyn then "TCP SYN was not captured; offsets start at the earliest observed sequence"
      else if gapViews contents ≠ [] then "missing TCP bytes leave sequence gaps"
      else ""
    sequence := base
    expectedBytes := UInt32.ofNat contents.length
    capturedBytes := capturedIn contents
    gaps := gapViews contents
    chunks := chunkViews base contents }

/-- Whether a direction has anything to finish. -/
abbrev Flow.Bounded (flow : Flow) : Prop :=
  flow.segments ≠ [] ∨ flow.hasFin ∧ flow.hasSyn

/-- The ways `finish` can end. -/
inductive Finished (limits : AcceptedLimits) (key : TcpFlowKey) (flow : Flow)
    : List TcpStream → Prop
  | failed (failure : flow.failure ≠ "")
    : Finished limits key flow [diagnostic key flow flow.failureStatus flow.failure]
  | silent (live : flow.failure = "") (empty : flow.segments = [])
    (unbounded : ¬ flow.hasFin ∨ ¬ flow.hasSyn)
    : Finished limits key flow []
  | unmeasured (live : flow.failure = "") {stream : TcpStream}
    (bounded : flow.Bounded)
    (measured : measure limits key flow (streamBase flow) = .error stream)
    : Finished limits key flow [stream]
  | conflicting (live : flow.failure = "") {offsets : List Nat} {extent : Nat}
    (bounded : flow.Bounded)
    (measured : measure limits key flow (streamBase flow) = .ok (offsets, extent))
    (clash : overlay 0 flow.segments offsets (List.replicate extent {}) = none)
    : Finished limits key flow
        [diagnostic key flow .conflict "overlapping TCP segments contain different bytes"]
  | reassembled (live : flow.failure = "") {offsets : List Nat} {extent : Nat}
    {cells : List Cell} {stream : TcpStream}
    (bounded : flow.Bounded)
    (measured : measure limits key flow (streamBase flow) = .ok (offsets, extent))
    (wrote : overlay 0 flow.segments offsets (List.replicate extent {}) = some cells)
    (named : stream.key = key ∧ stream.streamId = flow.id)
    (shown
      : cells.length = extent
        → stream.view = Reassembly.reassembled flow.hasSyn (streamBase flow)
            (cells.map Cell.content))
    : Finished limits key flow (if 0 < extent then [stream] else [])

theorem judge_named (flow : Flow) (stream : TcpStream)
    : (judge flow stream).key = stream.key ∧ (judge flow stream).streamId = stream.streamId := by
  unfold judge
  split
  · exact ⟨rfl, rfl⟩
  split <;> exact ⟨rfl, rfl⟩

theorem emit_frame (flow : Flow) (cells : List Cell) (stream : TcpStream)
    : (emit flow cells stream).key = stream.key
      ∧ (emit flow cells stream).streamId = stream.streamId
      ∧ (emit flow cells stream).sequence = stream.sequence
      ∧ (emit flow cells stream).expectedBytes = stream.expectedBytes
      ∧ (emit flow cells stream).status = stream.status
      ∧ (emit flow cells stream).error = stream.error := by
  rw [emit, emitFrom_eq]
  exact ⟨rfl, rfl, rfl, rfl, rfl, rfl⟩

/-- Judging what is emitted on a direction's blank stream shows the reassembled view. -/
theorem judge_emit_view (key : TcpFlowKey) (flow : Flow) (base : UInt32) (cells : List Cell)
    : (judge flow (emit flow cells
        { diagnostic key flow .contiguous "" with
          sequence := base
          expectedBytes := UInt32.ofNat cells.length })).view
      = reassembled flow.hasSyn base (cells.map Cell.content) := by
  obtain ⟨_, _, sequence, expected, status, error⟩ := emit_frame flow cells
    { diagnostic key flow .contiguous "" with
      sequence := base
      expectedBytes := UInt32.ofNat cells.length }
  obtain ⟨gaps, chunks, captured⟩ := emit_views flow cells
    { diagnostic key flow .contiguous "" with
      sequence := base
      expectedBytes := UInt32.ofNat cells.length }
    rfl rfl rfl
  generalize emit flow cells _ = stream at sequence expected status error gaps chunks captured ⊢
  unfold judge reassembled
  rw [← gaps, ← captured, ← chunks, List.length_map]
  split
  · simp [TcpStream.view, sequence, expected]
  split
  · simp [TcpStream.view, sequence, expected]
  · simp [TcpStream.view, sequence, expected, status, error, diagnostic]

theorem finish_finished {limits : AcceptedLimits} {key : TcpFlowKey} {flow : Flow}
    {messages : List TcpStream} (finished : finish limits key flow = .ok messages)
    : Finished limits key flow messages := by
  unfold finish at finished
  split at finished
  case isTrue failure =>
    cases finished
    exact .failed failure
  case isFalse live =>
  rw [ne_eq, not_not] at live
  split at finished
  case isTrue empty =>
    cases finished
    exact .silent live empty.1 (.inl empty.2)
  case isFalse open_ =>
  split at finished
  case isTrue empty =>
    cases finished
    exact .silent live empty.2 (.inr empty.1)
  case isFalse anchored =>
  have bounded : flow.Bounded := by
    by_cases empty : flow.segments = []
    · exact .inr ⟨by simpa [empty] using open_, by simpa [empty] using anchored⟩
    · exact .inl empty
  dsimp only at finished
  split at finished
  case h_1 measured =>
    cases finished
    exact .unmeasured live bounded measured
  case h_2 offsets extent measured =>
    obtain ⟨_, _, finished⟩ := bind_eq_ok.mp finished
    split at finished
    case h_1 clash =>
      cases finished
      exact .conflicting live bounded measured clash
    case h_2 cells wrote =>
      cases finished
      refine .reassembled live bounded measured wrote ?_ ?_
      · obtain ⟨named, numbered, _⟩ := emit_frame flow cells _
        exact ⟨(judge_named _ _).1.trans named, (judge_named _ _).2.trans numbered⟩
      · rintro rfl
        exact judge_emit_view key flow _ cells

variable {limits : AcceptedLimits} {key : TcpFlowKey} {flow : Flow} {messages : List TcpStream}
variable {offsets : List Nat} {extent : Nat}

theorem Finished.named (finished : Finished limits key flow messages)
    : messages = []
      ∨ ∃ stream, messages = [stream] ∧ stream.key = key ∧ stream.streamId = flow.id := by
  cases finished with
  | failed => exact .inr ⟨_, rfl, rfl, rfl⟩
  | silent => exact .inl rfl
  | unmeasured _ _ measured =>
    obtain ⟨_, _, rfl, _⟩ := measure_eq_error measured
    exact .inr ⟨_, rfl, rfl, rfl⟩
  | conflicting => exact .inr ⟨_, rfl, rfl, rfl⟩
  | reassembled _ _ _ _ named =>
    split
    · exact .inr ⟨_, rfl, named⟩
    · exact .inl rfl

theorem Finished.of_unbounded (finished : Finished limits key flow messages)
    (live : flow.failure = "") (unbounded : ¬ flow.Bounded)
    : messages = [] := by
  cases finished with
  | failed failure => exact absurd live failure
  | silent => rfl
  | unmeasured _ bounded => exact absurd bounded unbounded
  | conflicting _ bounded => exact absurd bounded unbounded
  | reassembled _ bounded => exact absurd bounded unbounded

theorem not_bounded_of_silent (empty : flow.segments = [])
    (unbounded : ¬ flow.hasFin ∨ ¬ flow.hasSyn)
    : ¬ flow.Bounded := by
  rintro (occupied | ⟨fin, syn⟩)
  · exact occupied empty
  · exact unbounded.elim (fun absent => absent fin) (fun absent => absent syn)

theorem Finished.of_error (finished : Finished limits key flow messages)
    (live : flow.failure = "") (bounded : flow.Bounded) {stream : TcpStream}
    (measured : measure limits key flow (streamBase flow) = .error stream)
    : messages = [stream] := by
  cases finished with
  | failed failure => exact absurd live failure
  | silent _ empty unbounded => exact absurd bounded (not_bounded_of_silent empty unbounded)
  | unmeasured _ _ other =>
    cases other.symm.trans measured
    rfl
  | conflicting _ _ other => cases other.symm.trans measured
  | reassembled _ _ other => cases other.symm.trans measured

/-- A measured direction shows a conflict or the reassembled view of its overlay. -/
theorem Finished.of_ok (finished : Finished limits key flow messages) (live : flow.failure = "")
    (bounded : flow.Bounded)
    (measured : measure limits key flow (streamBase flow) = .ok (offsets, extent))
    : overlay 0 flow.segments offsets (List.replicate extent {}) = none
        ∧ messages
          = [diagnostic key flow .conflict "overlapping TCP segments contain different bytes"]
      ∨ ∃ cells,
          overlay 0 flow.segments offsets (List.replicate extent {}) = some cells
          ∧ (cells.length = extent
            → messages.map TcpStream.view
              = if 0 < extent then
                  [Reassembly.reassembled flow.hasSyn (streamBase flow) (cells.map Cell.content)]
                else
                  []) := by
  cases finished with
  | failed failure => exact absurd live failure
  | silent _ empty unbounded => exact absurd bounded (not_bounded_of_silent empty unbounded)
  | unmeasured _ _ other => cases other.symm.trans measured
  | conflicting _ _ other clash =>
    cases other.symm.trans measured
    exact .inl ⟨clash, rfl⟩
  | reassembled _ _ other wrote _ shown =>
    cases other.symm.trans measured
    refine .inr ⟨_, wrote, fun length => ?_⟩
    rw [← shown length]
    split <;> rfl

theorem measure_ranges {base : UInt32}
    (measured : measure limits key flow base = .ok (offsets, extent))
    : List.Forall₂
        (fun segment offset =>
          offset = (segment.sequence - base).toNat ∧ offset + segment.declared.toNat ≤ extent)
        flow.segments offsets := by
  obtain ⟨placed, covered, _⟩ := measure_eq_ok measured
  have ends := (foldl_max_le.mp covered).2
  clear measured covered
  generalize flow.segments = segments at placed ends
  induction placed with
  | nil => exact .nil
  | cons head _ ih =>
    rw [List.zipWith_cons_cons, List.forall_mem_cons] at ends
    have distance := relativeSequence_eq_natCast (place_eq_some_iff.mp head).1
    exact .cons ⟨distance.1.symm, ends.1⟩ (ih ends.2)

theorem measure_covers {base : UInt32}
    (measured : measure limits key flow base = .ok (offsets, extent)) {segment : Segment}
    (member : segment ∈ flow.segments)
    : (segment.sequence - base).toNat + segment.declared.toNat ≤ extent := by
  have ranges := measure_ranges measured
  clear measured
  generalize flow.segments = segments at ranges member
  induction ranges with
  | nil => cases member
  | cons head _ ih =>
    rcases List.mem_cons.mp member with rfl | later
    · exact head.1 ▸ head.2
    · exact ih later

theorem Flow.Sound.inside (sound : flow.Sound) {base : UInt32}
    (measured : measure limits key flow base = .ok (offsets, extent))
    : List.Forall₂ (Inside base extent) flow.segments offsets := by
  have ranges := measure_ranges measured
  have declared := sound.declared
  clear measured
  generalize flow.segments = segments at ranges declared
  induction ranges with
  | nil => exact .nil
  | cons head _ ih =>
    rw [List.forall_mem_cons] at declared
    exact .cons ⟨head.1, by omega⟩ (ih declared.2)

end PacketQuapture.Reassembly
