import PacketQuapture.Reassembly.Lifecycle
import PacketQuapture.Reassembly.Finish

/-! No data is lost: every data packet is charged to one stream id, and the one stream emitted
under that id shows its bytes or reports why it cannot.
-/

namespace PacketQuapture.Reassembly

open Library

/-! ### Accounting for a packet -/

/-- The direction has the packet's data, or failed. -/
def Flow.Holds (flow : Flow) (packet : Packet) : Prop :=
  flow.failure ≠ "" ∨ flow.Buffers packet.segment packet.payload

/-- Every captured byte of the packet is in a chunk, at its distance from the stream's start. -/
def TcpStream.Shows (stream : TcpStream) (packet : Packet) : Prop :=
  ∀ index byte,
    packet.payload[index]? = some byte
    → ∃ chunk ∈ stream.chunks,
        ∃ within,
          chunk.data[within]? = some byte
          ∧ chunk.offset.toNat + within = (packet.dataSequence - stream.sequence).toNat + index

/-- The stream answers for the packet: it shows the packet's bytes, or it is a diagnostic. -/
def TcpStream.Accounts (stream : TcpStream) (packet : Packet) : Prop :=
  stream.key = packet.key
  ∧ ((stream.status = .contiguous ∨ stream.status = .gapped ∨ stream.status = .unanchored)
      ∧ stream.Shows packet
    ∨ stream.status = .conflict
    ∨ stream.status = .limit)

theorem reassembled_status (hasSyn : Bool) (base : UInt32) (contents : List (Option UInt8))
    : (reassembled hasSyn base contents).status = .contiguous
      ∨ (reassembled hasSyn base contents).status = .gapped
      ∨ (reassembled hasSyn base contents).status = .unanchored := by
  unfold reassembled
  dsimp only
  split
  · exact .inr (.inr rfl)
  · split
    · exact .inr (.inl rfl)
    · exact .inl rfl

variable {limits : AcceptedLimits} {key : TcpFlowKey} {flow : Flow} {packet : Packet}
  {messages : List TcpStream}

/-- A byte of a buffered segment shows in the reassembled stream.
Witness: the overlay holds what the segment supplies, and every held position is in a chunk.
-/
theorem shows_of_view {stream : TcpStream} {base : UInt32} {contents : List (Option UInt8)}
    {hasSyn : Bool} (shown : stream.view = reassembled hasSyn base contents)
    (fits : contents.length < 2 ^ 32)
    (held
      : ∀ index byte,
          packet.payload[index]? = some byte
          → contents[(packet.dataSequence - base).toNat + index]? = some (some byte))
    : stream.Shows packet := by
  intro index byte captured
  have sequence : stream.sequence = base := congrArg StreamView.sequence shown
  have chunks : stream.chunks.map TcpStreamChunk.view = chunkViews base contents :=
    congrArg StreamView.chunks shown
  obtain ⟨view, member, within, data, place⟩ :=
    exists_mem_chunkViews base fits (held index byte captured)
  rw [← chunks] at member
  obtain ⟨chunk, chunkIn, rfl⟩ := List.mem_map.mp member
  exact ⟨chunk, chunkIn, within, data, sequence ▸ place⟩

theorem Finished.accounts (finished : Finished limits key flow messages) (sound : flow.Sound)
    (holds : flow.Holds packet) (named : key = packet.key)
    : ∃ stream, messages = [stream] ∧ stream.Accounts packet := by
  cases finished with
  | failed failure => exact ⟨_, rfl, named, .inr (sound.judged failure)⟩
  | silent live empty =>
    obtain ⟨existing, member, _⟩ := holds.resolve_left (not_not.mpr live)
    rw [empty] at member
    cases member
  | unmeasured live _ measured =>
    obtain ⟨_, _, rfl, status⟩ := measure_eq_error measured
    exact ⟨_, rfl, named, .inr status.symm⟩
  | conflicting => exact ⟨_, rfl, named, .inr (.inl rfl)⟩
  | @reassembled live offsets extent cells stream _ measured wrote identified shown =>
    obtain ⟨existing, member, sequence, declared, bytes⟩ :=
      holds.resolve_left (not_not.mpr live)
    obtain ⟨length, content⟩ :=
      overlay_blank_eq_some (sound.inside measured) sound.counted wrote
    have covered := measure_covers measured member
    have positive : 0 < existing.declared.toNat :=
      UInt32.lt_iff_toNat_lt.mp (sound.declared existing member).1
    have window := (measure_eq_ok measured).2.2
    have streamFits := limits.streamBytesFit
    rw [if_pos (by omega)]
    have status := reassembled_status flow.hasSyn (streamBase flow) (cells.map Cell.content)
    rw [← shown length] at status
    refine ⟨stream, rfl, identified.1.trans named, .inl ⟨status, ?_⟩⟩
    refine shows_of_view (shown length) (by rw [List.length_map]; omega) ?_
    intro index byte captured
    have supplied : Supplies (streamBase flow) flow.segments
        ((packet.dataSequence - streamBase flow).toNat + index) byte :=
      ⟨existing, member, index, bytes ▸ captured, by rw [sequence]; rfl⟩
    obtain ⟨cell, found, held⟩ := Option.bind_eq_some_iff.mp ((content _ byte).mpr supplied)
    rw [List.getElem?_map, found, Option.map_some, held]

/-! ### Charging a packet -/

/-- A step on a direction keeps its segments and verdict, or fails it. -/
def Flow.Settles (flow changed : Flow) : Prop :=
  changed.id = flow.id
  ∧ (changed.segments = flow.segments
        ∧ changed.failure = flow.failure
        ∧ changed.failureStatus = flow.failureStatus
    ∨ changed.segments = []
        ∧ changed.failure ≠ ""
        ∧ (changed.failureStatus = .conflict ∨ changed.failureStatus = .limit))

theorem Flow.Settles.trans {first middle last : Flow} (before : first.Settles middle)
    (after : middle.Settles last)
    : first.Settles last := by
  refine ⟨after.1.trans before.1, ?_⟩
  rcases after.2 with ⟨segments, failure, status⟩ | failed
  · rw [segments, failure, status]
    exact before.2
  · exact .inr failed

theorem Flow.Settles.sound {changed : Flow} (settles : flow.Settles changed)
    (sound : flow.Sound)
    : changed.Sound := by
  rcases settles.2 with ⟨segments, failure, status⟩ | ⟨segments, _, status⟩
  · exact ⟨segments ▸ sound.counted, segments ▸ sound.declared,
      by rw [failure, status]; exact sound.judged⟩
  · exact ⟨by simp [segments], by simp [segments], fun _ => status⟩

theorem Flow.Settles.holds {changed : Flow} (settles : flow.Settles changed)
    (holds : flow.Holds packet)
    : changed.Holds packet := by
  rcases settles.2 with ⟨segments, failure, _⟩ | ⟨_, failed, _⟩
  · rw [Holds, Buffers, failure, segments]
    exact holds
  · exact .inl failed

theorem Flow.settles_ready (flow : Flow) (packet : Packet) : flow.Settles (flow.ready packet) := by
  have syn : flow.Settles (flow.afterSyn packet) := by
    unfold afterSyn
    split <;> exact ⟨rfl, .inl ⟨rfl, rfl, rfl⟩⟩
  have fin (flow : Flow) : flow.Settles (flow.afterFin packet) := by
    unfold afterFin comparedFin
    split
    · split
      · exact ⟨rfl, .inr ⟨rfl, by simp, .inl rfl⟩⟩
      · exact ⟨rfl, .inl ⟨rfl, rfl, rfl⟩⟩
    · exact ⟨rfl, .inl ⟨rfl, rfl, rfl⟩⟩
  have captured (flow : Flow) : flow.Settles (flow.afterCaptured packet) := by
    unfold afterCaptured
    split
    · exact ⟨rfl, .inr ⟨rfl, by simp, .inl rfl⟩⟩
    · exact ⟨rfl, .inl ⟨rfl, rfl, rfl⟩⟩
  exact (syn.trans (fin _)).trans (captured _)

theorem Flow.Sound.keep (sound : flow.Sound) {segment : Segment} {payload : List UInt8}
    (room : flow.segments.length < limits.maxSegments) (data : 0 < segment.declared)
    (fits : payload.length ≤ segment.declared.toNat)
    : (flow.keep segment payload).Sound := by
  have named := limits.segmentsFit
  refine ⟨?_, ?_, sound.judged⟩
  · simp only [Flow.keep, List.length_append, List.length_singleton, unowned]
    omega
  · intro stored member
    rcases List.mem_append.mp member with earlier | last
    · exact sound.declared stored earlier
    · cases List.mem_singleton.mp last
      exact ⟨data, fits⟩

/-- Absorbing a packet keeps the direction's id and what it holds, and it holds the packet. -/
theorem Absorbed.holds {absorbed : Flow} (absorbs : Absorbed limits flow packet absorbed)
    (sound : flow.Sound)
    : absorbed.id = flow.id
      ∧ absorbed.Sound
      ∧ (∀ other, flow.Holds other → absorbed.Holds other)
      ∧ (0 < packet.declared → absorbed.Holds packet) := by
  obtain ⟨scheduled, untimed, deadline, queued, absorbs⟩ := absorbs
  dsimp only at absorbs
  have settles : flow.Settles
      (Flow.ready { flow with last := packet.stamp, scheduled, untimed, deadline, queued } packet) :=
    Flow.Settles.trans ⟨rfl, .inl ⟨rfl, rfl, rfl⟩⟩ (Flow.settles_ready _ packet)
  have fits (live : (Flow.ready
      { flow with last := packet.stamp, scheduled, untimed, deadline, queued } packet).failure = "")
      : packet.payload.length ≤ packet.declared.toNat :=
    TcpReassembler.captured_le_of_afterCaptured live
  generalize Flow.ready { flow with last := packet.stamp, scheduled, untimed, deadline, queued }
    packet = ready at absorbs settles fits
  have readySound := settles.sound sound
  split at absorbs
  case isTrue data =>
    cases absorbs with
    | retransmitted known =>
      exact ⟨settles.1, readySound, fun _ => settles.holds, fun _ => .inr known⟩
    | kept _ room _ =>
      refine ⟨settles.1, readySound.keep room data.2 (fits data.1), ?_, ?_⟩
      · intro other held
        rcases settles.holds held with failed | ⟨existing, member, same⟩
        · exact .inl failed
        · exact .inr ⟨existing, List.mem_append_left _ member, same⟩
      · intro _
        exact .inr ⟨_, List.mem_append_right _ (List.mem_singleton.mpr rfl), rfl, rfl, rfl⟩
    | refused reason given =>
      have failed : ready.Settles (ready.failed reason .limit) :=
        ⟨rfl, .inr ⟨rfl, given, .inr rfl⟩⟩
      exact ⟨settles.1, failed.sound readySound, fun _ held => failed.holds (settles.holds held),
        fun _ => .inl given⟩
  case isFalse skipped =>
    subst absorbs
    refine ⟨settles.1, readySound, fun _ => settles.holds, fun data => ?_⟩
    exact .inl fun live => skipped ⟨live, data⟩

/-! ### The ledger -/

/-- Charges already made, against the tracked directions and the streams emitted so far. Ids are
never shared, and each charged packet is held by its direction or accounted by its stream.
-/
structure Ledger (flows : OrderedMap TcpFlowKey Flow) (nextId : Nat)
    (charges : List (Nat × Packet)) (emitted : List TcpStream)
    : Prop where
  below : ∀ key flow, flows.find? key = some flow → flow.id < nextId
  apart
    : ∀ key flow other stored,
        flows.find? key = some flow
        → flows.find? other = some stored
        → flow.id = stored.id
        → key = other
  emittedBelow : ∀ stream ∈ emitted, stream.streamId < nextId
  emittedApart
    : ∀ key flow, flows.find? key = some flow → ∀ stream ∈ emitted, stream.streamId ≠ flow.id
  emittedNodup : (emitted.map TcpStream.streamId).Nodup
  sound : ∀ key flow, flows.find? key = some flow → flow.Sound
  accounted
    : ∀ charge ∈ charges,
        (∃ flow,
          flows.find? charge.2.key = some flow ∧ flow.id = charge.1 ∧ flow.Holds charge.2)
        ∨ ∃ stream ∈ emitted, stream.streamId = charge.1 ∧ stream.Accounts charge.2

theorem ledger_empty : Ledger .empty 1 [] [] := by
  constructor <;> simp

namespace Ledger

variable {flows next : OrderedMap TcpFlowKey Flow} {nextId : Nat}
  {charges : List (Nat × Packet)} {emitted output : List TcpStream}

/-- Replacing a tracked direction by one with the same id that holds as much. -/
theorem replace (ledger : Ledger flows nextId charges emitted)
    (found : flows.find? key = some flow) {changed : Flow} (identified : changed.id = flow.id)
    (sound : changed.Sound) (holds : ∀ packet, flow.Holds packet → changed.Holds packet)
    : Ledger (flows.insert key changed) nextId charges emitted := by
  have before (other : TcpFlowKey) (stored : Flow)
      (at_ : (flows.insert key changed).find? other = some stored)
      : ∃ original, flows.find? other = some original ∧ stored.id = original.id := by
    rcases OrderedMap.find?_insert_eq_some at_ with ⟨rfl, rfl⟩ | ⟨_, at_⟩
    · exact ⟨flow, found, identified⟩
    · exact ⟨stored, at_, rfl⟩
  constructor
  · intro other stored at_
    obtain ⟨original, was, same⟩ := before other stored at_
    exact same ▸ ledger.below other original was
  · intro left leftFlow right rightFlow leftAt rightAt sameId
    obtain ⟨leftOriginal, leftWas, leftSame⟩ := before left leftFlow leftAt
    obtain ⟨rightOriginal, rightWas, rightSame⟩ := before right rightFlow rightAt
    exact ledger.apart _ _ _ _ leftWas rightWas (leftSame.symm.trans (sameId.trans rightSame))
  · exact ledger.emittedBelow
  · intro other stored at_ stream member
    obtain ⟨original, was, same⟩ := before other stored at_
    exact same ▸ ledger.emittedApart other original was stream member
  · exact ledger.emittedNodup
  · intro other stored at_
    rcases OrderedMap.find?_insert_eq_some at_ with ⟨_, rfl⟩ | ⟨_, at_⟩
    · exact sound
    · exact ledger.sound other stored at_
  · intro charge member
    refine (ledger.accounted charge member).imp_left ?_
    rintro ⟨held, at_, same, keeps⟩
    by_cases here : charge.2.key = key
    · rw [here, found] at at_
      cases at_
      exact ⟨changed, here ▸ OrderedMap.find?_insert_self _ _ _, identified.trans same,
        holds _ keeps⟩
    · exact ⟨held, (OrderedMap.find?_insert_of_ne _ _ here).trans at_, same, keeps⟩

/-- Retiring one direction moves what it holds to the stream it yields. -/
theorem retire (ledger : Ledger flows nextId charges emitted)
    (found : flows.find? key = some flow) (finished : Finished limits key flow messages)
    (reason : String)
    : Ledger (flows.erase key) nextId charges
        (emitted ++ messages.map fun stream => { stream with finalizedBy := reason }) := by
  have yielded (stream : TcpStream)
      (member : stream ∈ messages.map fun stream => { stream with finalizedBy := reason })
      : stream.streamId = flow.id := by
    obtain ⟨original, originalIn, rfl⟩ := List.mem_map.mp member
    rcases finished.named with rfl | ⟨only, rfl, _, identified⟩
    · cases originalIn
    · cases List.mem_singleton.mp originalIn
      exact identified
  constructor
  · intro other stored at_
    exact ledger.below other stored (OrderedMap.find?_erase_eq_some at_).2
  · intro left leftFlow right rightFlow leftAt rightAt
    exact ledger.apart left leftFlow right rightFlow (OrderedMap.find?_erase_eq_some leftAt).2
      (OrderedMap.find?_erase_eq_some rightAt).2
  · intro stream member
    rcases List.mem_append.mp member with earlier | last
    · exact ledger.emittedBelow stream earlier
    · exact yielded stream last ▸ ledger.below key flow found
  · intro other stored at_ stream member
    obtain ⟨distinct, was⟩ := OrderedMap.find?_erase_eq_some at_
    rcases List.mem_append.mp member with earlier | last
    · exact ledger.emittedApart other stored was stream earlier
    · intro same
      exact distinct (ledger.apart other stored key flow was found
        (same.symm.trans (yielded stream last)))
  · rw [List.map_append, List.nodup_append]
    refine ⟨ledger.emittedNodup, ?_, ?_⟩
    · rcases finished.named with rfl | ⟨only, rfl, _⟩ <;> simp
    · intro left leftIn right rightIn same
      obtain ⟨early, earlyIn, rfl⟩ := List.mem_map.mp leftIn
      obtain ⟨late, lateIn, rfl⟩ := List.mem_map.mp rightIn
      exact ledger.emittedApart key flow found early earlyIn (same.trans (yielded late lateIn))
  · intro other stored at_
    exact ledger.sound other stored (OrderedMap.find?_erase_eq_some at_).2
  · intro charge member
    rcases ledger.accounted charge member with ⟨held, at_, same, keeps⟩ | ⟨stream, streamIn, rest⟩
    · by_cases here : charge.2.key = key
      · rw [here, found] at at_
        cases at_
        obtain ⟨stream, rfl, accounts⟩ :=
          finished.accounts (ledger.sound key flow found) keeps here.symm
        refine .inr ⟨{ stream with finalizedBy := reason }, by simp, ?_, accounts⟩
        exact (yielded _ (by simp)).trans same
      · exact .inl ⟨held, (OrderedMap.find?_erase_of_ne _ here).trans at_, same, keeps⟩
    · exact .inr ⟨stream, List.mem_append_left _ streamIn, rest⟩

theorem retires (ledger : Ledger flows nextId charges emitted)
    (retired : Retires limits flows next output)
    : Ledger next nextId charges (emitted ++ output) := by
  induction retired generalizing emitted with
  | refl => simpa using ledger
  | requeue queued found _ ih =>
    have sound := ledger.sound _ _ found
    refine ih (ledger.replace found rfl ⟨sound.counted, sound.declared, sound.judged⟩ ?_)
    exact fun _ held => held
  | retire reason found finished _ ih =>
    rw [← List.append_assoc]
    exact ih (ledger.retire found (finish_finished finished) reason)

end Ledger

end PacketQuapture.Reassembly
