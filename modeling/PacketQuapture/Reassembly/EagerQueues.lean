import PacketQuapture.Reassembly.Lifecycle

/-! A reassembler that moves a direction's entry to its new deadline at every packet.
The lazy reassembler leaves the entry behind and moves it when it reaches the front; both emit
the same streams in the same order.
-/

namespace PacketQuapture.Reassembly

open Library

namespace TcpReassembler

/-! ### The eager reassembler -/

/-- Files a direction under the deadline a packet gives it, and takes its earlier entry off. Deadlines
only move later.
-/
def scheduleEagerly (self : TcpReassembler) (key : TcpFlowKey) (flow : Flow)
    (stamp : PacketStamp)
    : Except Failure (TcpReassembler × Flow) :=
  let flow := if stamp.hasTimestamp then flow else { flow with untimed := true }
  let idle := self.limits.tcpIdleUs
  if flow.untimed ∨ idle ≤ 0 ∨ int64Max - idle < stamp.timestamp then
    self.unschedule key flow
  else
    let deadline := stamp.timestamp + idle
    if flow.scheduled ∧ deadline ≤ flow.deadline then
      .ok (self, flow)
    else
      let scope := (self.scopes.find? (scopeKey key)).getD { watermark := stamp.timestamp }
      let others :=
        if flow.scheduled then scope.expiry.erase (toLex (flow.deadline, key)) else scope.expiry
      .ok ({ self with
          scopes := self.scopes.insert (scopeKey key)
            { watermark := max scope.watermark stamp.timestamp
              expiry := insert (toLex (deadline, key)) others } },
        { flow with deadline, queued := deadline, scheduled := true })

/-- `absorb`, with the direction's entry moved along. -/
def absorbEagerly (self : TcpReassembler) (flow : Flow) (packet : Packet)
    : Except Failure TcpReassembler := do
  let (self, flow) ←
    self.scheduleEagerly packet.key { flow with last := packet.stamp } packet.stamp
  let flow :=
    if packet.has tcpSyn then { flow with hasSyn := true, synSequence := packet.sequence }
    else flow
  let (self, flow) ← self.recordFin flow packet
  let (self, flow) ← self.checkCaptured flow packet
  let (self, flow) ← self.bufferData flow packet
  return { self with flows := self.flows.insert packet.key flow }

def addEagerly (self : TcpReassembler) (packet : Packet)
    : Except Failure (TcpReassembler × List TcpStream) := do
  let (self, located, output) ← self.locate packet
  match located with
  | none => return (self, output)
  | some flow =>
    let self ← self.absorbEagerly flow packet
    let (self, ended) ← self.reset packet
    return (self, output ++ ended)

def callEagerly (self : TcpReassembler)
    : Call → Except Failure (TcpReassembler × List TcpStream)
  | .add packet => self.addEagerly packet
  | .finishNext => self.finishNext

def runEagerly : TcpReassembler → List Call → Except Failure (TcpReassembler × List TcpStream)
  | self, [] => .ok (self, [])
  | self, next :: rest => do
    let (self, streams) ← self.callEagerly next
    let (self, later) ← self.runEagerly rest
    return (self, streams ++ later)

end TcpReassembler

/-- A direction whose entry stands at its deadline. -/
def Flow.punctual (flow : Flow) : Flow :=
  { flow with queued := flow.deadline }

theorem finish_punctual (limits : AcceptedLimits) (key : TcpFlowKey) (flow : Flow)
    : finish limits key flow.punctual = finish limits key flow := rfl

/-- `eager` is `lazy` with every entry moved to its direction's deadline. -/
structure Synced (lazy eager : TcpReassembler) : Prop where
  limits : eager.limits = lazy.limits
  bufferedBytes : eager.bufferedBytes = lazy.bufferedBytes
  bufferedSegments : eager.bufferedSegments = lazy.bufferedSegments
  nextId : eager.nextId = lazy.nextId
  flows : eager.flows = lazy.flows.mapValues Flow.punctual
  clocks
    : ∀ id late prompt,
        lazy.scopes.find? id = some late
        → eager.scopes.find? id = some prompt
        → prompt.watermark = late.watermark
  lagging : Scheduling lazy
  prompt : Scheduling eager

theorem Scheduling.located_iff {state : TcpReassembler} (queues : Scheduling state)
    (id : ScopeKey)
    : (∃ scope, state.scopes.find? id = some scope)
      ↔ ∃ key flow,
          scopeKey key = id ∧ state.flows.find? key = some flow ∧ flow.scheduled = true := by
  refine ⟨?_, ?_⟩
  · intro located
    obtain ⟨scope, located⟩ := located
    obtain ⟨entry, member⟩ := Finset.nonempty_iff_ne_empty.mpr (queues.nonempty id scope located)
    have queued : toLex (ofLex entry) ∈ state.expiryAt id := by
      simpa [TcpReassembler.expiryAt, located] using member
    obtain ⟨placed, flow, found, scheduled, _⟩ := (queues.mem_iff id _ _).mp queued
    exact ⟨_, flow, placed, found, scheduled⟩
  · intro waiting
    obtain ⟨key, flow, placed, found, scheduled⟩ := waiting
    obtain ⟨scope, located, _⟩ := queues.scope_of_scheduled found scheduled
    exact ⟨scope, placed ▸ located⟩

namespace Synced

variable {lazy eager : TcpReassembler}

theorem find?_eq (synced : Synced lazy eager) (key : TcpFlowKey)
    : eager.flows.find? key = (lazy.flows.find? key).map Flow.punctual := by
  rw [synced.flows, OrderedMap.find?_mapValues]

/-- Both keep the same clocks.
Witness: a clock is kept exactly while a direction is scheduled on it.
-/
theorem located_iff (synced : Synced lazy eager) (id : ScopeKey)
    : (∃ prompt, eager.scopes.find? id = some prompt)
      ↔ ∃ late, lazy.scopes.find? id = some late := by
  rw [synced.prompt.located_iff, synced.lagging.located_iff]
  simp only [synced.find?_eq, Option.map_eq_some_iff]
  refine ⟨?_, ?_⟩
  · intro waiting
    obtain ⟨key, _, placed, ⟨flow, found, rfl⟩, scheduled⟩ := waiting
    exact ⟨key, flow, placed, found, scheduled⟩
  · intro waiting
    obtain ⟨key, flow, placed, found, scheduled⟩ := waiting
    exact ⟨key, flow.punctual, placed, ⟨flow, found, rfl⟩, scheduled⟩

theorem scope_of_lazy (synced : Synced lazy eager) {id : ScopeKey} {late : Scope}
    (located : lazy.scopes.find? id = some late)
    : ∃ prompt, eager.scopes.find? id = some prompt ∧ prompt.watermark = late.watermark := by
  obtain ⟨prompt, kept⟩ := (synced.located_iff id).mpr ⟨late, located⟩
  exact ⟨prompt, kept, synced.clocks id late prompt located kept⟩

theorem absent_of_lazy (synced : Synced lazy eager) {id : ScopeKey}
    (absent : lazy.scopes.find? id = none)
    : eager.scopes.find? id = none := by
  rw [Option.eq_none_iff_forall_ne_some]
  intro prompt located
  obtain ⟨late, kept⟩ := (synced.located_iff id).mp ⟨prompt, located⟩
  rw [absent] at kept
  cases kept

end Synced

/-- The same direction held outside two synced tables. -/
def Held (key : TcpFlowKey) (late prompt : TcpReassembler × Flow) : Prop :=
  prompt.2 = late.2.punctual ∧ Synced (late.1.attach key late.2) (prompt.1.attach key prompt.2)

namespace Held

variable {key : TcpFlowKey} {late prompt : TcpReassembler} {flow other : Flow}

theorem of_synced (synced : Synced late prompt) (found : late.flows.find? key = some flow)
    : Held key (late, flow) (prompt, flow.punctual) := by
  have mapped : prompt.flows.find? key = some flow.punctual := by
    rw [synced.find?_eq, found, Option.map_some]
  refine ⟨rfl, ?_⟩
  dsimp only
  rw [TcpReassembler.attach_self found, TcpReassembler.attach_self mapped]
  exact synced

/-- Changing the held direction and the clocks, the rest of the table left alone. -/
theorem replace (held : Held key (late, flow) (prompt, other))
    {scopes kept : OrderedMap ScopeKey Scope} {changed : Flow}
    (clocks
      : ∀ id before after,
          scopes.find? id = some before
          → kept.find? id = some after
          → after.watermark = before.watermark)
    (lagging : Scheduling ({ late with scopes }.attach key changed))
    (queues : Scheduling ({ prompt with scopes := kept }.attach key changed.punctual))
    : Held key ({ late with scopes }, changed)
        ({ prompt with scopes := kept }, changed.punctual) := by
  obtain ⟨same, synced⟩ := held
  refine ⟨rfl, synced.limits, synced.bufferedBytes, synced.bufferedSegments, synced.nextId, ?_,
    clocks, lagging, queues⟩
  have flows := synced.flows
  simp only [OrderedMap.mapValues_insert] at flows ⊢
  calc prompt.flows.insert key changed.punctual
      = (prompt.flows.insert key other).insert key changed.punctual :=
        (OrderedMap.insert_insert ..).symm
    _ = ((late.flows.mapValues Flow.punctual).insert key flow.punctual).insert key
          changed.punctual := by rw [← flows]
    _ = (late.flows.mapValues Flow.punctual).insert key changed.punctual :=
        OrderedMap.insert_insert ..

theorem marked (held : Held key (late, flow) (prompt, other)) {changed : Flow}
    (scheduled : changed.scheduled = flow.scheduled) (queued : changed.queued = flow.queued)
    (deadline : changed.deadline = flow.deadline)
    : Held key (late, changed) (prompt, changed.punctual) := by
  obtain ⟨same, synced⟩ := held
  dsimp only at same
  subst same
  exact replace ⟨rfl, synced⟩ synced.clocks
    (synced.lagging.relabel rfl rfl scheduled queued deadline)
    (synced.prompt.relabel rfl rfl scheduled deadline deadline)

theorem relabel (held : Held key (late, flow) (prompt, other)) (bytes segments : Nat)
    {changed : Flow} (scheduled : changed.scheduled = flow.scheduled)
    (queued : changed.queued = flow.queued) (deadline : changed.deadline = flow.deadline)
    : Held key ({ late with bufferedBytes := bytes, bufferedSegments := segments }, changed)
        ({ prompt with bufferedBytes := bytes, bufferedSegments := segments },
          changed.punctual) := by
  obtain ⟨_, moved⟩ := held.marked scheduled queued deadline
  exact ⟨rfl, moved.limits, rfl, rfl, moved.nextId, moved.flows, moved.clocks,
    ⟨moved.lagging.mem_iff, moved.lagging.nonempty, moved.lagging.lag⟩,
    ⟨moved.prompt.mem_iff, moved.prompt.nonempty, moved.prompt.lag⟩⟩

theorem fail (held : Held key (late, flow) (prompt, other)) (reason : String)
    (status : TcpStreamStatus)
    : Alike (Held key) (late.fail flow reason status) (prompt.fail other reason status) := by
  have bytes : prompt.bufferedBytes = late.bufferedBytes := held.2.bufferedBytes
  have segments : prompt.bufferedSegments = late.bufferedSegments := held.2.bufferedSegments
  obtain rfl : other = flow.punctual := held.1
  unfold TcpReassembler.fail
  rw [bytes, segments]
  refine .require_bind Iff.rfl (.require_bind Iff.rfl (.pure ?_))
  exact held.relabel _ _ rfl rfl rfl

theorem recordFin (held : Held key (late, flow) (prompt, other)) (packet : Packet)
    : Alike (Held key) (late.recordFin flow packet) (prompt.recordFin other packet) := by
  obtain rfl : other = flow.punctual := held.1
  unfold TcpReassembler.recordFin
  refine .ite Iff.rfl (fun _ => ?_) (fun _ => .ok held)
  refine .ite Iff.rfl (fun _ => ?_) (fun _ => ?_)
  · refine (held.fail _ _).bind ?_
    intro settled matched after
    obtain ⟨matched, mirrored⟩ := matched
    have mirror : mirrored = settled.2.punctual := after.1
    subst mirror
    exact .pure (marked after rfl rfl rfl)
  · exact .pure (held.marked rfl rfl rfl)

theorem checkCaptured (held : Held key (late, flow) (prompt, other)) (packet : Packet)
    : Alike (Held key) (late.checkCaptured flow packet) (prompt.checkCaptured other packet) := by
  obtain rfl : other = flow.punctual := held.1
  exact .ite Iff.rfl (fun _ => held.fail _ _) (fun _ => .ok held)

theorem buffer (held : Held key (late, flow) (prompt, other)) (segment : Segment)
    (payload : List UInt8)
    : Alike (Held key) (late.buffer flow segment payload)
        (prompt.buffer other segment payload) := by
  have bytes : prompt.bufferedBytes = late.bufferedBytes := held.2.bufferedBytes
  have segments : prompt.bufferedSegments = late.bufferedSegments := held.2.bufferedSegments
  have limits : prompt.limits = late.limits := held.2.limits
  obtain rfl : other = flow.punctual := held.1
  unfold TcpReassembler.buffer
  rw [bytes, segments]
  refine .require_bind Iff.rfl (.ite (limits ▸ Iff.rfl) (fun _ => held.fail _ _) (fun _ => ?_))
  refine .require_bind Iff.rfl (.ite Iff.rfl (fun _ => .pure held) (fun _ => ?_))
  refine .require_bind (limits ▸ Iff.rfl) (.require_bind (limits ▸ Iff.rfl) ?_)
  refine .ite (limits ▸ Iff.rfl) (fun _ => held.fail _ _) (fun _ => .pure ?_)
  exact @relabel _ _ _ _ _ held _ _ (flow.keep segment payload) rfl rfl rfl

theorem bufferData (held : Held key (late, flow) (prompt, other)) (packet : Packet)
    : Alike (Held key) (late.bufferData flow packet) (prompt.bufferData other packet) := by
  obtain rfl : other = flow.punctual := held.1
  exact .ite Iff.rfl (fun _ => held.buffer _ _) (fun _ => .ok held)

end Held

end PacketQuapture.Reassembly
