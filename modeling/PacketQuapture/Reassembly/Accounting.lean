import PacketQuapture.Reassembly.SegmentIndex

/-! The reassembler's byte and segment books over every operation.
While a packet is charged to a direction the direction is held outside the table, so the
books are stated of the table with the direction put back.
-/

namespace PacketQuapture.Reassembly

open Library

/-- The reassembler with `flow` stored under `key`. -/
abbrev TcpReassembler.attach (self : TcpReassembler) (key : TcpFlowKey) (flow : Flow)
    : TcpReassembler :=
  { self with flows := self.flows.insert key flow }

/-- The totals are the sums over the tracked directions and keep within the limits, and every
direction keeps its own books.
-/
structure Accounting (state : TcpReassembler) : Prop where
  bytesEq : state.bufferedBytes = state.flows.sumOf fun entry => entry.2.bytes
  segmentsEq : state.bufferedSegments = state.flows.sumOf fun entry => entry.2.segments.length
  bytesLe : state.bufferedBytes ≤ state.limits.maxTotalBytes
  segmentsLe : state.bufferedSegments ≤ state.limits.maxTotalSegments
  flowsLe : state.flows.size ≤ state.limits.maxFlows
  consistent
    : ∀ key flow, state.flows.find? key = some flow → flow.Consistent state.limits

theorem accounting_empty (limits : AcceptedLimits) : Accounting { limits } := by
  constructor <;> simp

theorem TcpReassembler.attach_self {self : TcpReassembler} {key : TcpFlowKey} {flow : Flow}
    (found : self.flows.find? key = some flow)
    : self.attach key flow = self := by
  simp only [attach, OrderedMap.insert_eq_self found]

namespace Accounting

variable {self : TcpReassembler} {key : TcpFlowKey} {flow : Flow}

theorem attached_consistent (books : Accounting (self.attach key flow))
    : flow.Consistent self.limits :=
  books.consistent key flow (OrderedMap.find?_insert_self _ _ _)

theorem attached_bytes_le (books : Accounting (self.attach key flow))
    : flow.bytes ≤ self.bufferedBytes := by
  rw [books.bytesEq, OrderedMap.sumOf_insert]
  exact Nat.le_add_right _ _

theorem attached_segments_le (books : Accounting (self.attach key flow))
    : flow.segments.length ≤ self.bufferedSegments := by
  rw [books.segmentsEq, OrderedMap.sumOf_insert]
  exact Nat.le_add_right _ _

/-- Replacing the attached direction moves the totals by its own change.
Witness: the other directions contribute the same sums before and after.
-/
theorem replace (books : Accounting (self.attach key flow)) {next : TcpReassembler}
    {changed : Flow}
    (limits : next.limits = self.limits) (flows : next.flows = self.flows)
    (bytes : next.bufferedBytes + flow.bytes = self.bufferedBytes + changed.bytes)
    (segments
      : next.bufferedSegments + flow.segments.length
        = self.bufferedSegments + changed.segments.length)
    (bytesLe : next.bufferedBytes ≤ self.limits.maxTotalBytes)
    (segmentsLe : next.bufferedSegments ≤ self.limits.maxTotalSegments)
    (consistent : changed.Consistent self.limits)
    : Accounting (next.attach key changed) := by
  have oldBytes := books.bytesEq
  have oldSegments := books.segmentsEq
  have size := books.flowsLe
  simp only [OrderedMap.sumOf_insert, OrderedMap.size_insert] at oldBytes oldSegments size
  constructor
  · simp only [OrderedMap.sumOf_insert, flows]
    omega
  · simp only [OrderedMap.sumOf_insert, flows]
    omega
  · simpa only [limits] using bytesLe
  · simpa only [limits] using segmentsLe
  · simpa only [OrderedMap.size_insert, flows, limits] using size
  · intro other stored found
    simp only [limits]
    rcases OrderedMap.find?_insert_eq_some found with ⟨rfl, rfl⟩ | ⟨distinct, found⟩
    · exact consistent
    · refine books.consistent other stored ?_
      rwa [OrderedMap.find?_insert_of_ne _ _ distinct, ← flows]

theorem relabel (books : Accounting (self.attach key flow)) {next : TcpReassembler}
    {changed : Flow}
    (rest : next = { self with scopes := next.scopes })
    (bytes : changed.bytes = flow.bytes) (segments : changed.segments = flow.segments)
    (order : changed.segmentOrder = flow.segmentOrder) (failure : changed.failure = flow.failure)
    : Accounting (next.attach key changed) := by
  rw [rest]
  exact books.replace rfl rfl (by simp [bytes]) (by simp [segments]) books.bytesLe
    books.segmentsLe (books.attached_consistent.relabel bytes segments order failure)

/-- Taking an attached direction out of the table and its share out of the totals keeps the
books.
-/
theorem discard (books : Accounting (self.attach key flow)) {next : TcpReassembler}
    (limits : next.limits = self.limits) (flows : next.flows = self.flows.erase key)
    (bytes : next.bufferedBytes = self.bufferedBytes - flow.bytes)
    (segments : next.bufferedSegments = self.bufferedSegments - flow.segments.length)
    : Accounting next := by
  have oldBytes := books.bytesEq
  have oldSegments := books.segmentsEq
  have size := books.flowsLe
  have bytesLe : self.bufferedBytes ≤ self.limits.maxTotalBytes := books.bytesLe
  have segmentsLe : self.bufferedSegments ≤ self.limits.maxTotalSegments := books.segmentsLe
  simp only [OrderedMap.sumOf_insert, OrderedMap.size_insert] at oldBytes oldSegments size
  constructor
  · rw [flows]
    omega
  · rw [flows]
    omega
  · rw [limits]
    omega
  · rw [limits]
    omega
  · rw [limits, flows]
    omega
  · intro other stored found
    rw [flows] at found
    obtain ⟨distinct, found⟩ := OrderedMap.find?_erase_eq_some found
    rw [limits]
    refine books.consistent other stored ?_
    rwa [OrderedMap.find?_insert_of_ne _ _ distinct]

end Accounting

/-! ### Failing and buffering -/

/-- A direction with its segments dropped and a failure recorded. -/
abbrev Flow.failed (flow : Flow) (reason : String) (status : TcpStreamStatus) : Flow :=
  { flow with
    bytes := 0
    segments := []
    segmentOrder := []
    failure := reason
    failureStatus := status }

theorem Flow.failed_consistent (limits : AcceptedLimits) (flow : Flow) (reason : String)
    (status : TcpStreamStatus)
    : (flow.failed reason status).Consistent limits := by
  constructor <;> simp

/-- What tells a direction apart and when it is due. -/
def Flow.timing (flow : Flow) : Nat × Bool × Bool × Int × Int :=
  (flow.id, flow.scheduled, flow.untimed, flow.deadline, flow.queued)

namespace TcpReassembler

/-- A step on a direction that leaves the table, the clocks and the direction's timing alone. -/
structure Untouched (before after : TcpReassembler × Flow) : Prop where
  limits : after.1.limits = before.1.limits
  nextId : after.1.nextId = before.1.nextId
  flows : after.1.flows = before.1.flows
  scopes : after.1.scopes = before.1.scopes
  timing : after.2.timing = before.2.timing

theorem Untouched.refl (state : TcpReassembler × Flow) : Untouched state state :=
  ⟨rfl, rfl, rfl, rfl, rfl⟩

theorem Untouched.trans {first middle last : TcpReassembler × Flow}
    (before : Untouched first middle) (after : Untouched middle last)
    : Untouched first last :=
  ⟨after.limits.trans before.limits, after.nextId.trans before.nextId,
    after.flows.trans before.flows, after.scopes.trans before.scopes,
    after.timing.trans before.timing⟩

variable {self : TcpReassembler} {key : TcpFlowKey} {flow : Flow}

/-- Failing a direction returns its bytes and segments to the totals. -/
theorem fail_ensures (books : Accounting (self.attach key flow)) (reason : String)
    (status : TcpStreamStatus)
    : Ensures (self.fail flow reason status)
        (fun result =>
          result.2 = flow.failed reason status
          ∧ Untouched (self, flow) result
          ∧ Accounting (result.1.attach key result.2))
        (fun _ => False) := by
  have bytes := books.attached_bytes_le
  have segments := books.attached_segments_le
  have bytesLe := books.bytesLe
  have segmentsLe := books.segmentsLe
  apply Ensures.require_bind bytes
  apply Ensures.require_bind segments
  refine Ensures.pure ⟨rfl, ⟨rfl, rfl, rfl, rfl, rfl⟩, ?_⟩
  refine books.replace rfl rfl ?_ ?_ ?_ ?_ (flow.failed_consistent self.limits reason status)
  all_goals
    simp only [List.length_nil] at *
    omega

/-- What buffering one segment does to its direction: nothing for a retransmission, an append
within the limits, or a failure.
-/
inductive Buffered (limits : AcceptedLimits) (flow : Flow) (segment : Segment)
    (payload : List UInt8)
    : Flow → Prop
  | retransmitted (known : flow.Buffers segment payload)
    : Buffered limits flow segment payload flow
  | kept (fresh : ¬ flow.Buffers segment payload)
    (room : flow.segments.length < limits.maxSegments)
    (space : payload.length ≤ limits.maxStreamBytes - flow.bytes)
    : Buffered limits flow segment payload (flow.keep segment payload)
  | refused (reason : String) (given : reason ≠ "")
    : Buffered limits flow segment payload (flow.failed reason .limit)

theorem buffer_ensures (books : Accounting (self.attach key flow)) (live : flow.failure = "")
    {segment : Segment} {payload : List UInt8} (fits : payload.length ≤ segment.declared.toNat)
    : Ensures (self.buffer flow segment payload)
        (fun result =>
          Buffered self.limits flow segment payload result.2
          ∧ Untouched (self, flow) result
          ∧ Accounting (result.1.attach key result.2))
        (fun _ => False) := by
  have consistent := books.attached_consistent
  have failing (reason : String) (given : reason ≠ "")
      : Ensures (self.fail flow reason .limit)
          (fun result =>
            Buffered self.limits flow segment payload result.2
            ∧ Untouched (self, flow) result
            ∧ Accounting (result.1.attach key result.2))
          (fun _ => False) := by
    refine (fail_ensures books reason .limit).mono ?_ (fun _ => id)
    rintro result ⟨failed, frame⟩
    exact ⟨failed ▸ .refused reason given, frame⟩
  apply Ensures.require_bind fits
  split
  · exact failing _ (by simp)
  apply Ensures.require_bind consistent.orderLength
  split
  case isTrue known =>
    have buffered := (consistent.retransmits_iff segment payload).mp known
    exact Ensures.pure ⟨.retransmitted buffered, .refl _, books⟩
  case isFalse fresh =>
  apply Ensures.require_bind consistent.bytesLe
  apply Ensures.require_bind books.bytesLe
  split
  · exact failing _ (by simp)
  case isFalse within =>
    simp only [not_or, Nat.not_le, Nat.not_lt] at within
    obtain ⟨room, totalRoom, space, totalSpace⟩ := within
    rw [consistent.retransmits_iff] at fresh
    refine Ensures.pure ⟨.kept fresh room space, ⟨rfl, rfl, rfl, rfl, rfl⟩, ?_⟩
    have bytesLe := books.bytesLe
    refine books.replace rfl rfl ?_ ?_ ?_ ?_ (consistent.keep segment payload live room space)
    all_goals
      simp only [Flow.keep, List.length_append, List.length_singleton] at *
      omega

end TcpReassembler

end PacketQuapture.Reassembly
