import PacketQuapture.Reassembly.Retirement

/-! Charging one packet to its direction: what happens to the direction, and that the books and
queues balance once it is stored back.
-/

namespace PacketQuapture.Reassembly

open Library

/-! ### The direction after each step -/

def Flow.afterSyn (flow : Flow) (packet : Packet) : Flow :=
  if packet.has tcpSyn then { flow with hasSyn := true, synSequence := packet.sequence } else flow

/-- A direction once a packet's FIN position is compared with the recorded one. -/
def Flow.comparedFin (flow : Flow) (packet : Packet) : Flow :=
  if flow.hasFin ∧ flow.finSequence ≠ packet.finSequence then
    flow.failed "conflicting TCP FIN positions" .conflict
  else
    flow

def Flow.afterFin (flow : Flow) (packet : Packet) : Flow :=
  if packet.has tcpFin then
    { flow.comparedFin packet with hasFin := true, finSequence := packet.finSequence }
  else
    flow

def Flow.afterCaptured (flow : Flow) (packet : Packet) : Flow :=
  if flow.failure = "" ∧ packet.declared.toNat < packet.payload.length then
    flow.failed "captured TCP bytes exceed declared payload length" .conflict
  else
    flow

/-- A direction just before the packet's data is buffered. -/
def Flow.ready (flow : Flow) (packet : Packet) : Flow :=
  ((flow.afterSyn packet).afterFin packet).afterCaptured packet

/-- `result` is `flow` with its schedule settled, the packet's flags recorded, and its data
buffered unless the direction failed.
-/
def Absorbed (limits : AcceptedLimits) (flow : Flow) (packet : Packet) (result : Flow) : Prop :=
  ∃ scheduled untimed deadline queued,
    let ready := Flow.ready
      { flow with last := packet.stamp, scheduled, untimed, deadline, queued } packet
    if ready.failure = "" ∧ 0 < packet.declared then
      TcpReassembler.Buffered limits ready packet.segment packet.payload result
    else
      result = ready

namespace TcpReassembler

variable {self : TcpReassembler} {key : TcpFlowKey} {flow : Flow}

theorem Untouched.queues {next : TcpReassembler} {changed : Flow}
    (untouched : Untouched (self, flow) (next, changed))
    (queues : Scheduling (self.attach key flow))
    : Scheduling (next.attach key changed) := by
  have timing := untouched.timing
  simp only [Flow.timing, Prod.mk.injEq] at timing
  obtain ⟨_, scheduled, _, deadline, queued⟩ := timing
  exact queues.relabel untouched.flows untouched.scopes scheduled queued deadline

/-- A step on the attached direction that also keeps the invariant. -/
structure Kept (key : TcpFlowKey) (before after : TcpReassembler × Flow) : Prop
    extends Untouched before after where
  invariant : Invariant (after.1.attach key after.2)

theorem Kept.trans {first middle last : TcpReassembler × Flow} (before : Kept key first middle)
    (after : Kept key middle last)
    : Kept key first last :=
  ⟨before.toUntouched.trans after.toUntouched, after.invariant⟩

theorem relabel_invariant (invariant : Invariant (self.attach key flow)) {changed : Flow}
    (bytes : changed.bytes = flow.bytes) (segments : changed.segments = flow.segments)
    (order : changed.segmentOrder = flow.segmentOrder) (failure : changed.failure = flow.failure)
    (scheduled : changed.scheduled = flow.scheduled) (queued : changed.queued = flow.queued)
    (deadline : changed.deadline = flow.deadline)
    : Invariant (self.attach key changed) :=
  ⟨invariant.books.relabel rfl bytes segments order failure,
    invariant.queues.relabel rfl rfl scheduled queued deadline⟩

theorem fail_kept (invariant : Invariant (self.attach key flow)) (reason : String)
    (status : TcpStreamStatus)
    : Ensures (self.fail flow reason status)
        (fun result =>
          result.2 = flow.failed reason status ∧ Kept key (self, flow) result)
        (fun _ => False) := by
  refine (fail_ensures invariant.books reason status).mono ?_ (fun _ impossible => impossible)
  rintro ⟨next, changed⟩ ⟨failed, untouched, books⟩
  exact ⟨failed, untouched, books, untouched.queues invariant.queues⟩

theorem recordFin_ensures (invariant : Invariant (self.attach key flow)) (packet : Packet)
    : Ensures (self.recordFin flow packet)
        (fun result => result.2 = flow.afterFin packet ∧ Kept key (self, flow) result)
        (fun _ => False) := by
  unfold recordFin Flow.afterFin
  split
  case isTrue =>
    dsimp only
    split
    case isTrue conflict =>
      have failed : flow.comparedFin packet = flow.failed _ _ := if_pos conflict
      rw [failed]
      refine (fail_kept invariant _ _).bind ?_
      rintro ⟨next, changed⟩ ⟨rfl, kept⟩
      refine Ensures.pure ⟨rfl, kept.toUntouched.trans ⟨rfl, rfl, rfl, rfl, rfl⟩, ?_⟩
      exact relabel_invariant kept.invariant rfl rfl rfl rfl rfl rfl rfl
    case isFalse agrees =>
      have unchanged : flow.comparedFin packet = flow := if_neg agrees
      rw [unchanged]
      refine Ensures.pure ⟨rfl, ⟨rfl, rfl, rfl, rfl, rfl⟩, ?_⟩
      exact relabel_invariant invariant rfl rfl rfl rfl rfl rfl rfl
  case isFalse => exact Ensures.ok ⟨rfl, .refl _, invariant⟩

theorem checkCaptured_ensures (invariant : Invariant (self.attach key flow)) (packet : Packet)
    : Ensures (self.checkCaptured flow packet)
        (fun result => result.2 = flow.afterCaptured packet ∧ Kept key (self, flow) result)
        (fun _ => False) := by
  unfold checkCaptured Flow.afterCaptured
  split
  · exact fail_kept invariant _ _
  · exact Ensures.ok ⟨rfl, .refl _, invariant⟩

theorem captured_le_of_afterCaptured {packet : Packet}
    (live : (flow.afterCaptured packet).failure = "")
    : packet.payload.length ≤ packet.declared.toNat := by
  unfold Flow.afterCaptured at live
  split at live
  · simp at live
  case isFalse within =>
    simp only [live, true_and, Nat.not_lt] at within
    exact within

theorem bufferData_ensures (invariant : Invariant (self.attach key flow)) (packet : Packet)
    (fits : flow.failure = "" → packet.payload.length ≤ packet.declared.toNat)
    : Ensures (self.bufferData flow packet)
        (fun result =>
          (if flow.failure = "" ∧ 0 < packet.declared then
            Buffered self.limits flow packet.segment packet.payload result.2
          else
            result.2 = flow)
          ∧ Kept key (self, flow) result)
        (fun _ => False) := by
  unfold bufferData
  split
  case isTrue data =>
    refine (buffer_ensures invariant.books data.1 (fits data.1)).mono ?_
      (fun _ impossible => impossible)
    rintro ⟨next, changed⟩ ⟨buffered, untouched, books⟩
    exact ⟨buffered, untouched, books, untouched.queues invariant.queues⟩
  case isFalse => exact Ensures.ok ⟨rfl, .refl _, invariant⟩

/-- A charged direction as it is stored back, with the timing `schedule` gave it. -/
structure Stored (state : TcpReassembler) (packet : Packet) (flow : Flow) (next : TcpReassembler)
    (stored : Flow)
    : Prop where
  absorbed : Absorbed state.limits flow packet stored
  flows : next.flows = state.flows.insert packet.key stored
  id : stored.id = flow.id
  scheduled : ∃ clocked timed,
    state.schedule packet.key { flow with last := packet.stamp } packet.stamp = .ok (clocked, timed)
    ∧ next.scopes = clocked.scopes
    ∧ stored.timing = timed.timing

/-- Charging a packet to a tracked direction stores the absorbed direction back and keeps the
invariant.
-/
theorem absorb_ensures (invariant : Invariant self) {packet : Packet}
    (found : self.flows.find? packet.key = some flow)
    : Ensures (self.absorb flow packet)
        (fun next =>
          next.limits = self.limits
          ∧ next.nextId = self.nextId
          ∧ Invariant next
          ∧ ∃ stored, Stored self packet flow next stored)
        (fun _ => False) := by
  have stamped : Invariant (self.attach packet.key { flow with last := packet.stamp }) := by
    rw [← attach_self found] at invariant
    exact relabel_invariant invariant rfl rfl rfl rfl rfl rfl rfl
  refine (schedule_ensures stamped.queues packet.stamp).returned.bind ?_
  rintro ⟨clocked, timed⟩ ⟨schedules, frame, shape, queues⟩
  dsimp only at frame shape queues
  generalize clocked.scopes = scopes at frame
  generalize timed.scheduled = scheduled, timed.untimed = untimed, timed.deadline = deadline,
    timed.queued = queued at shape
  subst frame shape
  have scheduledBooks : Invariant (attach { self with scopes } packet.key
      { flow with last := packet.stamp, scheduled, untimed, deadline, queued }) :=
    ⟨stamped.books.relabel rfl rfl rfl rfl rfl, queues⟩
  have opened : Kept packet.key
      ({ self with scopes },
        { flow with last := packet.stamp, scheduled, untimed, deadline, queued })
      ({ self with scopes },
        Flow.afterSyn { flow with last := packet.stamp, scheduled, untimed, deadline, queued }
          packet) := by
    unfold Flow.afterSyn
    split
    · exact ⟨⟨rfl, rfl, rfl, rfl, rfl⟩, relabel_invariant scheduledBooks rfl rfl rfl rfl rfl rfl rfl⟩
    · exact ⟨.refl _, scheduledBooks⟩
  refine (recordFin_ensures opened.invariant packet).bind ?_
  rintro ⟨finned, closed⟩ ⟨rfl, keptFin⟩
  refine (checkCaptured_ensures keptFin.invariant packet).bind ?_
  rintro ⟨checked, judged⟩ ⟨rfl, keptCheck⟩
  refine (bufferData_ensures keptCheck.invariant packet captured_le_of_afterCaptured).bind ?_
  rintro ⟨stored, absorbed⟩ ⟨data, keptData⟩
  have kept := ((opened.trans keptFin).trans keptCheck).trans keptData
  have limits : checked.limits = self.limits := (keptFin.trans keptCheck).limits
  dsimp only at data
  rw [limits] at data
  refine Ensures.pure ⟨kept.limits, kept.nextId, kept.invariant, absorbed,
    ⟨scheduled, untimed, deadline, queued, data⟩, ?_, congrArg Prod.fst kept.timing,
    _, _, schedules, kept.scopes, kept.timing⟩
  exact congrArg (fun flows => OrderedMap.insert flows packet.key absorbed) kept.flows

end TcpReassembler

end PacketQuapture.Reassembly
