import PacketQuapture.Reassembly.EagerQueues
import PacketQuapture.Library.LazyQueue

/-! The lazy and the eager reassembler stay synced through every call, so they emit the same
streams in the same order.
-/

namespace PacketQuapture.Reassembly

open Library

/-- Every clock of `after` stood in `before` at the same time. -/
def ClocksFrom (after before : OrderedMap ScopeKey Scope) : Prop :=
  ∀ id later, after.find? id = some later →
    ∃ earlier, before.find? id = some earlier ∧ later.watermark = earlier.watermark

namespace TcpReassembler

variable {self : TcpReassembler} {key : TcpFlowKey} {flow : Flow}

theorem unschedule_frame {result : TcpReassembler × Flow}
    (returned : self.unschedule key flow = .ok result)
    : result.1.limits = self.limits
      ∧ result.1.nextId = self.nextId
      ∧ result.1.flows = self.flows := by
  unfold unschedule at returned
  split at returned
  · cases returned
    exact ⟨rfl, rfl, rfl⟩
  split at returned
  · cases returned
  · obtain ⟨_, _, stored⟩ := bind_eq_ok.mp returned
    cases stored
    exact ⟨rfl, rfl, rfl⟩

/-- Unscheduling sets no clock. -/
theorem unschedule_clocks {result : TcpReassembler × Flow}
    (returned : self.unschedule key flow = .ok result)
    : ClocksFrom result.1.scopes self.scopes := by
  intro id later kept
  unfold unschedule at returned
  split at returned
  · cases returned
    exact ⟨later, kept, rfl⟩
  split at returned
  · cases returned
  case h_2 scope located =>
    obtain ⟨_, _, stored⟩ := bind_eq_ok.mp returned
    cases stored
    dsimp only at kept
    split at kept
    · exact ⟨later, (OrderedMap.find?_erase_eq_some kept).2, rfl⟩
    · rcases OrderedMap.find?_insert_eq_some kept with ⟨rfl, rfl⟩ | ⟨_, kept⟩
      · exact ⟨scope, located, rfl⟩
      · exact ⟨later, kept, rfl⟩

/-- Moves a scheduled direction's entry to its deadline, where it is not there yet. -/
def requeue (self : TcpReassembler) (key : TcpFlowKey) (flow : Flow)
    : Except Failure (TcpReassembler × Flow) :=
  if flow.scheduled = false ∨ flow.queued = flow.deadline then
    .ok (self, flow)
  else
    match self.scopes.find? (scopeKey key) with
    | none => .error (.assertion .schedule)
    | some scope =>
      .ok ({ self with
          scopes := self.scopes.insert (scopeKey key)
            { scope with
              expiry := insert (toLex (flow.deadline, key))
                (scope.expiry.erase (toLex (flow.queued, key))) } },
        { flow with queued := flow.deadline })

/-- Moving the entry of a scheduled direction brings it to its deadline and sets no clock. -/
theorem requeue_ensures (queues : Scheduling (self.attach key flow))
    (idle : flow.scheduled = false → flow = flow.punctual)
    : Ensures (self.requeue key flow)
        (fun result =>
          result.1 = { self with scopes := result.1.scopes }
          ∧ result.2 = flow.punctual
          ∧ Scheduling (result.1.attach key flow.punctual)
          ∧ ClocksFrom result.1.scopes self.scopes)
        (fun _ => False) := by
  unfold requeue
  split
  case isTrue settled =>
    have punctual : flow = flow.punctual := by
      rcases settled with unscheduled | same
      · exact idle unscheduled
      · exact congrArg (fun queued => { flow with queued }) same
    exact Ensures.ok ⟨rfl, punctual, punctual ▸ queues, fun _ later kept => ⟨later, kept, rfl⟩⟩
  case isFalse busy =>
    have scheduled : flow.scheduled = true := Bool.eq_true_of_not_eq_false fun off => busy (.inl off)
    have attached : (self.attach key flow).flows.find? key = some flow :=
      OrderedMap.find?_insert_self _ _ _
    obtain ⟨scope, located, _⟩ := queues.scope_of_scheduled attached scheduled
    change self.scopes.find? (scopeKey key) = some scope at located
    rw [located]
    refine Ensures.ok ⟨rfl, rfl, requeue_scheduling queues scheduled located, ?_⟩
    intro id later kept
    rcases OrderedMap.find?_insert_eq_some kept with ⟨rfl, rfl⟩ | ⟨_, kept⟩
    · exact ⟨scope, located, rfl⟩
    · exact ⟨later, kept, rfl⟩

/-- A punctual direction is filed eagerly as if its entry were moved after the lazy schedule. -/
theorem scheduleEagerly_eq (queues : Scheduling (self.attach key flow.punctual))
    (stamp : PacketStamp)
    : self.scheduleEagerly key flow.punctual stamp
      = self.schedule key flow.punctual stamp >>= fun result => result.1.requeue key result.2 := by
  have timed : (if stamp.hasTimestamp then flow.punctual
        else { flow.punctual with untimed := true })
      = (if stamp.hasTimestamp then flow else { flow with untimed := true }).punctual := by
    split <;> rfl
  have marked : Scheduling (self.attach key
      (if stamp.hasTimestamp then flow else { flow with untimed := true }).punctual) := by
    split
    · exact queues
    · exact queues.relabel rfl rfl rfl rfl rfl
  unfold scheduleEagerly schedule
  rw [timed]
  generalize (if stamp.hasTimestamp then flow else { flow with untimed := true }) = current
    at marked
  dsimp only
  split
  · obtain ⟨⟨released, resting⟩, leaves, _, shape, _⟩ := (unschedule_ensures marked).returns
    dsimp only at shape
    rw [leaves, ok_bind, requeue, if_pos (.inl (by rw [shape]))]
  split
  · exact (if_pos (.inr rfl)).symm
  case isFalse later =>
  cases scheduled : current.punctual.scheduled with
  | false =>
    rw [if_neg Bool.false_ne_true, if_neg Bool.false_ne_true, ok_bind, requeue, if_pos (.inr rfl)]
    cases self.scopes.find? (scopeKey key) with
    | none => simp
    | some scope => rfl
  | true =>
    obtain ⟨scope, located, _⟩ :=
      marked.scope_of_scheduled (OrderedMap.find?_insert_self _ _ _) scheduled
    change self.scopes.find? (scopeKey key) = some scope at located
    have beyond : current.punctual.deadline < stamp.timestamp + self.limits.tcpIdleUs := by
      simpa [scheduled] using later
    have lags : current.punctual.queued < stamp.timestamp + self.limits.tcpIdleUs := beyond
    have busy : ¬ (true = false
        ∨ current.punctual.queued = stamp.timestamp + self.limits.tcpIdleUs) := by
      simpa using Int.ne_of_lt lags
    have present : (some scope).isSome = true := rfl
    rw [located, if_pos rfl, if_pos rfl, require_eq_ok _ present, ok_bind, require_eq_ok _ lags,
      ok_bind, pure_bind, requeue]
    dsimp only
    rw [if_neg busy, OrderedMap.find?_insert_self]
    dsimp only
    rw [OrderedMap.insert_insert]
    rfl

end TcpReassembler

/-- The clocks two tables both keep stand at the same time. -/
def SameClocks (late prompt : OrderedMap ScopeKey Scope) : Prop :=
  ∀ id before after,
    late.find? id = some before → prompt.find? id = some after → after.watermark = before.watermark

theorem SameClocks.mono {late prompt fewer kept : OrderedMap ScopeKey Scope}
    (same : SameClocks late prompt) (left : ClocksFrom fewer late) (right : ClocksFrom kept prompt)
    : SameClocks fewer kept := by
  intro id before after located mirrored
  obtain ⟨earlier, stood, agrees⟩ := left id before located
  obtain ⟨original, was, matched⟩ := right id after mirrored
  rw [matched, agrees]
  exact same id earlier original stood was

theorem SameClocks.insert {late prompt : OrderedMap ScopeKey Scope} (same : SameClocks late prompt)
    (id : ScopeKey) {before after : Scope} (agree : after.watermark = before.watermark)
    : SameClocks (late.insert id before) (prompt.insert id after) := by
  intro other first second located mirrored
  rw [OrderedMap.find?_insert] at located mirrored
  by_cases here : other = id
  · rw [if_pos here] at located mirrored
    cases located
    cases mirrored
    exact agree
  · rw [if_neg here] at located mirrored
    exact same other first second located mirrored

namespace Held

variable {key : TcpFlowKey} {late prompt : TcpReassembler} {flow other : Flow}

theorem unschedule (held : Held key (late, flow) (prompt, other))
    : Alike
        (fun left right =>
          Held key left right
          ∧ left.2 = { flow with scheduled := false }
          ∧ right.1.flows = prompt.flows)
        (late.unschedule key flow) (prompt.unschedule key other) := by
  obtain rfl : other = flow.punctual := held.1
  obtain ⟨⟨released, idle⟩, leaves, frame, shape, lagging⟩ :=
    (TcpReassembler.unschedule_ensures held.2.lagging).returns
  obtain ⟨⟨mirrored, rest⟩, follows, copied, matched, queues⟩ :=
    (TcpReassembler.unschedule_ensures held.2.prompt).returns
  have clocks : SameClocks released.scopes mirrored.scopes :=
    SameClocks.mono held.2.clocks (TcpReassembler.unschedule_clocks leaves)
      (TcpReassembler.unschedule_clocks follows)
  rw [leaves, follows]
  dsimp only at frame shape lagging copied matched queues
  generalize released.scopes = scopes at frame clocks
  generalize mirrored.scopes = kept at copied clocks
  subst frame shape copied matched
  exact .ok ⟨held.replace clocks lagging queues, rfl, rfl⟩

/-- Scheduling on both sides reaches the same deadline and the same clocks. -/
theorem schedule_alike (held : Held key (late, flow) (prompt, other)) (stamp : PacketStamp)
    : Alike
        (fun left right =>
          right.2.punctual = left.2.punctual
          ∧ (left.2.scheduled = false → right.2 = left.2.punctual)
          ∧ SameClocks left.1.scopes right.1.scopes)
        (late.schedule key flow stamp) (prompt.schedule key other stamp) := by
  obtain rfl : other = flow.punctual := held.1
  have limits : prompt.limits = late.limits := held.2.limits
  have mirrored : (if stamp.hasTimestamp then flow.punctual
        else { flow.punctual with untimed := true })
      = (if stamp.hasTimestamp then flow else { flow with untimed := true }).punctual := by
    split <;> rfl
  have timed : Held key (late, if stamp.hasTimestamp then flow else { flow with untimed := true })
      (prompt, (if stamp.hasTimestamp then flow else { flow with untimed := true }).punctual) := by
    split
    · exact held
    · exact held.marked rfl rfl rfl
  unfold TcpReassembler.schedule
  rw [mirrored]
  generalize (if stamp.hasTimestamp then flow else { flow with untimed := true }) = current
    at timed
  have clocks : SameClocks late.scopes prompt.scopes := held.2.clocks
  dsimp only
  refine .ite (limits ▸ Iff.rfl) (fun _ => ?_) (fun _ => ?_)
  · refine timed.unschedule.mono ?_
    intro left right both
    obtain ⟨⟨agrees, synced⟩, _⟩ := both
    exact ⟨by rw [agrees]; rfl, fun _ => agrees, synced.clocks⟩
  refine .ite (limits ▸ Iff.rfl) (fun _ => .ok ⟨rfl, fun _ => rfl, clocks⟩) (fun later => ?_)
  cases located : late.scopes.find? (scopeKey key) with
  | none =>
    have absent : prompt.scopes.find? (scopeKey key) = none := timed.2.absent_of_lazy located
    have unscheduled : current.scheduled = false := by
      rw [Bool.eq_false_iff]
      intro scheduled
      obtain ⟨scope, kept, _⟩ := timed.2.lagging.scope_of_scheduled
        (OrderedMap.find?_insert_self _ _ _) scheduled
      exact absurd (located.symm.trans kept) (by simp)
    rw [absent]
    refine .ite Iff.rfl (fun scheduled => ?_) (fun _ => .ok ⟨?_, ?_, ?_⟩)
    · rw [unscheduled] at scheduled
      cases scheduled
    · simp only [limits]
      rfl
    · intro impossible
      cases impossible
    · exact clocks.insert _ rfl
  | some scope =>
    obtain ⟨kept, mirror, agrees⟩ := timed.2.scope_of_lazy located
    change prompt.scopes.find? (scopeKey key) = some kept at mirror
    rw [mirror]
    simp only [Option.getD_some, Option.isNone_some, agrees, limits]
    refine .ite Iff.rfl (fun scheduled => ?_) (fun _ => .ok ⟨rfl, ?_, ?_⟩)
    · have lag := timed.2.lagging.lag key current (OrderedMap.find?_insert_self _ _ _) scheduled
      have beyond : current.deadline < stamp.timestamp + late.limits.tcpIdleUs := by
        simpa [scheduled] using later
      refine .require_bind Iff.rfl (.require_bind ?_ (.pure ⟨rfl, ?_, ?_⟩))
      · exact ⟨fun _ => beyond, fun _ => by omega⟩
      · intro unscheduled
        rw [scheduled] at unscheduled
        cases unscheduled
      · exact clocks.insert _ rfl
    · intro impossible
      cases impossible
    · exact clocks.insert _ rfl

theorem schedule (held : Held key (late, flow) (prompt, other)) (stamp : PacketStamp)
    : Alike (Held key) (late.schedule key flow stamp)
        (prompt.scheduleEagerly key other stamp) := by
  obtain ⟨⟨clocked, timed⟩, schedules, frame, _, lagging⟩ :=
    (TcpReassembler.schedule_ensures held.2.lagging stamp).returns
  obtain ⟨⟨mirrored, stale⟩, follows, copied, _, queues⟩ :=
    (TcpReassembler.schedule_ensures held.2.prompt stamp).returns
  have alike := held.schedule_alike stamp
  obtain rfl : other = flow.punctual := held.1
  rw [schedules, follows] at alike
  rw [TcpReassembler.scheduleEagerly_eq held.2.prompt, schedules, follows, ok_bind]
  cases alike with
  | ok alike =>
  obtain ⟨agree, idle, clocks⟩ := alike
  dsimp only at frame copied lagging queues agree idle clocks ⊢
  have punctual : stale.scheduled = false → stale = stale.punctual := by
    intro unscheduled
    have same := idle ((congrArg Flow.scheduled agree).symm.trans unscheduled)
    rw [same]
    rfl
  obtain ⟨⟨moved, settled⟩, requeues, refiled, shape, exact_, from_⟩ :=
    (TcpReassembler.requeue_ensures queues punctual).returns
  rw [requeues]
  dsimp only at refiled shape exact_ from_
  have kept := SameClocks.mono clocks (fun _ later stood => ⟨later, stood, rfl⟩) from_
  generalize clocked.scopes = scopes at frame kept
  generalize moved.scopes = filed at refiled kept
  generalize mirrored.scopes = unfiled at copied
  subst frame copied refiled shape
  rw [agree] at exact_ ⊢
  exact .ok (held.replace kept lagging exact_)

theorem discard (held : Held key (late, flow) (prompt, other)) (idle : flow.scheduled = false)
    : Synced
        { late with
          bufferedBytes := late.bufferedBytes - flow.bytes
          bufferedSegments := late.bufferedSegments - flow.segments.length
          flows := late.flows.erase key }
        { prompt with
          bufferedBytes := prompt.bufferedBytes - other.bytes
          bufferedSegments := prompt.bufferedSegments - other.segments.length
          flows := prompt.flows.erase key } := by
  obtain rfl : other = flow.punctual := held.1
  obtain ⟨_, synced⟩ := held
  have bytes : prompt.bufferedBytes = late.bufferedBytes := synced.bufferedBytes
  have segments : prompt.bufferedSegments = late.bufferedSegments := synced.bufferedSegments
  refine ⟨synced.limits, by rw [bytes]; rfl, by rw [segments]; rfl, synced.nextId, ?_,
    synced.clocks, synced.lagging.discard idle rfl rfl, synced.prompt.discard idle rfl rfl⟩
  have flows := congrArg (fun table => OrderedMap.erase table key) synced.flows
  simpa only [OrderedMap.mapValues_insert, OrderedMap.erase_insert, OrderedMap.mapValues_erase]
    using flows

/-- Charging the packet to the held direction and storing it back. -/
theorem absorb (held : Held key (late, flow) (prompt, other)) {packet : Packet}
    (own : packet.key = key)
    : Alike Synced (late.absorb flow packet) (prompt.absorbEagerly other packet) := by
  subst own
  obtain rfl : other = flow.punctual := held.1
  unfold TcpReassembler.absorb TcpReassembler.absorbEagerly
  have stamped : Held packet.key (late, { flow with last := packet.stamp })
      (prompt, { flow.punctual with last := packet.stamp }) :=
    held.marked rfl rfl rfl
  refine (stamped.schedule packet.stamp).bind ?_
  intro clocked mirrored scheduled
  obtain ⟨clocked, timed⟩ := clocked
  obtain ⟨mirrored, matched⟩ := mirrored
  have copy : matched = timed.punctual := scheduled.1
  subst copy
  have opened : Held packet.key
      (clocked,
        if packet.has tcpSyn then { timed with hasSyn := true, synSequence := packet.sequence }
        else timed)
      (mirrored,
        if packet.has tcpSyn then
          { timed.punctual with hasSyn := true, synSequence := packet.sequence }
        else timed.punctual) := by
    split
    · exact scheduled.marked rfl rfl rfl
    · exact scheduled
  refine (opened.recordFin packet).bind ?_
  intro finned follow closed
  refine (checkCaptured closed packet).bind ?_
  intro checked next judged
  refine (bufferData judged packet).bind ?_
  intro stored last absorbed
  exact .pure absorbed.2

end Held

/-! ### Removing directions -/

/-- The results of two synced steps: synced states and the same streams. -/
def SameOutput (late prompt : TcpReassembler × List TcpStream) : Prop :=
  Synced late.1 prompt.1 ∧ prompt.2 = late.2

namespace Synced

variable {lazy eager : TcpReassembler}

theorem remove (synced : Synced lazy eager) (key : TcpFlowKey) (reason : String)
    : Alike
        (fun late prompt => SameOutput late prompt ∧ prompt.1.flows = eager.flows.erase key)
        (lazy.remove key reason) (eager.remove key reason) := by
  unfold TcpReassembler.remove
  rw [synced.find?_eq]
  cases found : lazy.flows.find? key with
  | none =>
    have absent : eager.flows.find? key = none := by rw [synced.find?_eq, found]; rfl
    exact .ok ⟨⟨synced, rfl⟩, (OrderedMap.erase_eq_self absent).symm⟩
  | some flow =>
    have held := Held.of_synced synced found
    dsimp only [Option.map_some]
    rw [synced.limits, synced.bufferedBytes, synced.bufferedSegments, finish_punctual]
    refine .require_bind Iff.rfl (.require_bind Iff.rfl ?_)
    obtain ⟨messages, finished⟩ := finish_returns lazy.limits key flow
    rw [finished]
    refine held.unschedule.bind ?_
    intro released mirrored unscheduled
    obtain ⟨released, idle⟩ := released
    obtain ⟨mirrored, rest⟩ := mirrored
    obtain ⟨after, quiet, kept⟩ := unscheduled
    exact .pure ⟨⟨after.discard (congrArg Flow.scheduled quiet), rfl⟩, congrArg (·.erase key) kept⟩

/-! ### Idle eviction -/

end Synced

/-- When a direction of one clock is queued and when it is due. -/
def TcpReassembler.places (self : TcpReassembler) (id : ScopeKey) (key : TcpFlowKey)
    : Option (Int × Int) :=
  if scopeKey key = id then
    (self.flows.find? key).bind fun flow =>
      if flow.scheduled then some (flow.queued, flow.deadline) else none
  else
    none

theorem TcpReassembler.places_eq_some_iff {self : TcpReassembler} {id : ScopeKey}
    {key : TcpFlowKey} {queued deadline : Int}
    : self.places id key = some (queued, deadline)
      ↔ scopeKey key = id
        ∧ ∃ flow,
            self.flows.find? key = some flow
            ∧ flow.scheduled = true
            ∧ flow.queued = queued
            ∧ flow.deadline = deadline := by
  unfold places
  split
  case isTrue here => simp [here, Option.bind_eq_some_iff]
  case isFalse elsewhere => simp [elsewhere]

theorem Scheduling.entry_of_front {state : TcpReassembler} (queues : Scheduling state)
    {id : ScopeKey} {scope : Scope} {time : Int} {key : TcpFlowKey}
    (located : state.scopes.find? id = some scope)
    (front : front? scope.expiry = some (toLex (time, key)))
    : scopeKey key = id
      ∧ ∃ flow,
          state.flows.find? key = some flow ∧ flow.scheduled = true ∧ flow.queued = time := by
  have member : toLex (time, key) ∈ state.expiryAt id := by
    simpa [TcpReassembler.expiryAt, located] using (front?_eq_some_iff.mp front).1
  exact (queues.mem_iff id time key).mp member

theorem Scheduling.lags {state : TcpReassembler} (queues : Scheduling state) {id : ScopeKey}
    {scope : Scope} (located : state.scopes.find? id = some scope)
    : Lags scope.expiry (state.places id) := by
  refine ⟨?_, ?_⟩
  · intro time key
    have member := queues.mem_iff id time key
    simp only [TcpReassembler.expiryAt, located, Option.map_some, Option.getD_some] at member
    rw [member]
    simp only [TcpReassembler.places_eq_some_iff]
    refine ⟨?_, ?_⟩
    · intro waiting
      obtain ⟨placed, flow, found, scheduled, queued⟩ := waiting
      exact ⟨flow.deadline, placed, flow, found, scheduled, queued, rfl⟩
    · intro waiting
      obtain ⟨_, placed, flow, found, scheduled, queued, _⟩ := waiting
      exact ⟨placed, flow, found, scheduled, queued⟩
  · intro key time deadline place
    obtain ⟨_, flow, found, scheduled, rfl, rfl⟩ := TcpReassembler.places_eq_some_iff.mp place
    exact queues.lag key flow found scheduled

namespace TcpReassembler

variable {self : TcpReassembler} {id : ScopeKey} {scope : Scope} {watermark : Int}

/-- The clock an interface shows once a packet has been seen on it. -/
def clockAfter (limits : AcceptedLimits) (clock : Int) (stamp : PacketStamp) : Int :=
  if stamp.timestamp < clock ∧ limits.tcpIdleUs < (clock - stamp.timestamp) % 2 ^ 64 then
    stamp.timestamp
  else
    max clock stamp.timestamp

def setClock (self : TcpReassembler) (id : ScopeKey) (scope : Scope) (watermark : Int)
    : TcpReassembler :=
  { self with scopes := self.scopes.insert id { scope with watermark } }

theorem expire_untracked {key : TcpFlowKey} {stamp : PacketStamp}
    (untracked : ¬ stamp.hasTimestamp ∨ self.scopes.find? (scopeKey key) = none)
    : self.expire key stamp = .ok (self, []) := by
  unfold expire
  rcases untracked with untimed | absent
  · rw [if_pos untimed]
  · split
    · rfl
    · rw [absent]

theorem expire_tracked {key : TcpFlowKey} {stamp : PacketStamp} (timed : stamp.hasTimestamp)
    (located : self.scopes.find? (scopeKey key) = some scope)
    : self.expire key stamp
      = expireLoop (scopeKey key) (clockAfter self.limits scope.watermark stamp)
          (2 * self.flows.size + 1)
          (self.setClock (scopeKey key) scope (clockAfter self.limits scope.watermark stamp))
          [] := by
  unfold expire
  rw [if_neg (not_not.mpr timed), located]
  rfl

/-- How the sweep before a packet went: nothing was due, or the loop ran on the packet's clock. -/
inductive Sweeps (state : TcpReassembler) (key : TcpFlowKey) (stamp : PacketStamp)
    : TcpReassembler × List TcpStream → Prop
  | idle : Sweeps state key stamp (state, [])
  | swept {scope : Scope} {result : TcpReassembler × List TcpStream}
    (located : state.scopes.find? (scopeKey key) = some scope)
    (returned
      : expireLoop (scopeKey key) (clockAfter state.limits scope.watermark stamp)
          (2 * state.flows.size + 1)
          (state.setClock (scopeKey key) scope (clockAfter state.limits scope.watermark stamp)) []
        = .ok result)
    : Sweeps state key stamp result

theorem expire_sweeps {key : TcpFlowKey} {stamp : PacketStamp}
    {result : TcpReassembler × List TcpStream} (returned : self.expire key stamp = .ok result)
    : Sweeps self key stamp result := by
  by_cases timed : stamp.hasTimestamp = true
  · cases located : self.scopes.find? (scopeKey key) with
    | none =>
      cases (expire_untracked (.inr located)).symm.trans returned
      exact .idle
    | some scope => exact .swept located ((expire_tracked timed located).symm.trans returned)
  · cases (expire_untracked (.inl timed)).symm.trans returned
    exact .idle

/-- One pass of the loop: it stops, moves a stale entry, or removes the direction in front. -/
inductive Pass (id : ScopeKey) (watermark : Int) (fuel : Nat) (state : TcpReassembler)
    (output : List TcpStream) (result : TcpReassembler × List TcpStream)
    : Prop
  | vacant (absent : state.scopes.find? id = none) (done : result = (state, output))
  | early {scope : Scope} {entry : Int ×ₗ TcpFlowKey}
    (located : state.scopes.find? id = some scope) (front : front? scope.expiry = some entry)
    (later : watermark ≤ (ofLex entry).1) (done : result = (state, output))
  | stale {scope : Scope} {key : TcpFlowKey} {flow : Flow}
    (located : state.scopes.find? id = some scope)
    (front : front? scope.expiry = some (toLex (flow.queued, key)))
    (found : state.flows.find? key = some flow) (scheduled : flow.scheduled = true)
    (due : flow.queued < watermark)
    (rest : expireLoop id watermark fuel (state.requeued id scope key flow) output = .ok result)
  | removed {scope : Scope} {key : TcpFlowKey} {flow : Flow} {middle : TcpReassembler}
    {streams : List TcpStream} (located : state.scopes.find? id = some scope)
    (front : front? scope.expiry = some (toLex (flow.queued, key)))
    (found : state.flows.find? key = some flow) (scheduled : flow.scheduled = true)
    (due : flow.queued < watermark) (current : flow.queued = flow.deadline)
    (removes : state.remove key "idle_timeout" = .ok (middle, streams))
    (rest : expireLoop id watermark fuel middle (output ++ streams) = .ok result)

theorem expireLoop_pass {fuel : Nat} {output : List TcpStream}
    {result : TcpReassembler × List TcpStream}
    (returned : expireLoop id watermark (fuel + 1) self output = .ok result)
    : Pass id watermark fuel self output result := by
  unfold expireLoop at returned
  split at returned
  case h_1 absent =>
    cases returned
    exact .vacant absent rfl
  case h_2 scope located =>
    split at returned
    · cases returned
    case h_2 entry front =>
      obtain ⟨⟨time, key⟩, rfl⟩ : ∃ pair, toLex pair = entry := ⟨ofLex entry, rfl⟩
      dsimp only [ofLex_toLex] at returned
      split at returned
      case isTrue later =>
        cases returned
        exact .early located front later rfl
      case isFalse due =>
        split at returned
        · cases returned
        case h_2 flow found =>
          obtain ⟨_, scheduled, returned⟩ := bind_eq_ok.mp returned
          obtain ⟨_, same, returned⟩ := bind_eq_ok.mp returned
          obtain ⟨_, lag, returned⟩ := bind_eq_ok.mp returned
          have scheduled := of_require scheduled
          have same := of_require same
          have lag := of_require lag
          subst same
          split at returned
          · exact .stale located front found scheduled (not_le.mp due) returned
          case isFalse current =>
            obtain ⟨⟨middle, streams⟩, removes, rest⟩ := bind_eq_ok.mp returned
            exact .removed located front found scheduled (not_le.mp due)
              (le_antisymm lag (not_lt.mp current)) removes rest

theorem expireLoop_done (located : self.scopes.find? id = some scope)
    (occupied : scope.expiry ≠ ∅) (early : ∀ entry ∈ scope.expiry, watermark ≤ (ofLex entry).1)
    (fuel : Nat) (output : List TcpStream)
    : expireLoop id watermark (fuel + 1) self output = .ok (self, output) := by
  unfold expireLoop
  rw [located]
  dsimp only
  split
  case h_1 vacant => exact absurd (front?_eq_none_iff.mp vacant) occupied
  case h_2 entry front => rw [if_pos (early entry (front?_eq_some_iff.mp front).1)]

theorem expireLoop_removes (located : self.scopes.find? id = some scope) {key : TcpFlowKey}
    {flow : Flow} (front : front? scope.expiry = some (toLex (flow.queued, key)))
    (found : self.flows.find? key = some flow) (scheduled : flow.scheduled = true)
    (current : flow.queued = flow.deadline) (due : flow.queued < watermark)
    (fuel : Nat) (output : List TcpStream)
    : expireLoop id watermark (fuel + 1) self output
      = self.remove key "idle_timeout" >>= fun result =>
          expireLoop id watermark fuel result.1 (output ++ result.2) := by
  have behind : ¬ flow.queued < flow.deadline := not_lt.mpr current.ge
  rw [expireLoop.eq_def]
  simp only [located, front, ofLex_toLex, not_le.mpr due, found, if_false, behind,
    require_eq_ok _ scheduled, require_eq_ok _ current.le, ok_bind]
  rfl

end TcpReassembler

namespace Synced

variable {lazy eager : TcpReassembler}

theorem exact (synced : Synced lazy eager) {id : ScopeKey} {scope : Scope}
    (located : eager.scopes.find? id = some scope)
    : Exact scope.expiry (lazy.places id) := by
  intro deadline key
  rw [(synced.prompt.lags located).entry_iff]
  simp only [TcpReassembler.places_eq_some_iff, synced.find?_eq, Option.map_eq_some_iff]
  refine ⟨?_, ?_⟩
  · intro waiting
    obtain ⟨_, placed, _, ⟨flow, found, rfl⟩, scheduled, due, _⟩ := waiting
    exact ⟨flow.queued, placed, flow, found, scheduled, rfl, due⟩
  · intro waiting
    obtain ⟨_, placed, flow, found, scheduled, _, due⟩ := waiting
    exact ⟨deadline, placed, flow.punctual, ⟨flow, found, rfl⟩, scheduled, due, due⟩

/-- Moving a stale entry brings the lazy queue closer to the eager one. -/
theorem requeue (synced : Synced lazy eager) {key : TcpFlowKey} {flow : Flow} {scope : Scope}
    (found : lazy.flows.find? key = some flow) (scheduled : flow.scheduled = true)
    (located : lazy.scopes.find? (scopeKey key) = some scope)
    : Synced (lazy.requeued (scopeKey key) scope key flow) eager := by
  have queues : Scheduling (lazy.attach key flow) :=
    (TcpReassembler.attach_self found).symm ▸ synced.lagging
  have mapped : eager.flows.find? key = some flow.punctual := by
    rw [synced.find?_eq, found, Option.map_some]
  refine ⟨synced.limits, synced.bufferedBytes, synced.bufferedSegments, synced.nextId, ?_, ?_,
    TcpReassembler.requeue_scheduling queues scheduled located, synced.prompt⟩
  · rw [TcpReassembler.requeued, OrderedMap.mapValues_insert, ← synced.flows]
    exact (OrderedMap.insert_eq_self mapped).symm
  · intro id late prompt kept mirrored
    rcases OrderedMap.find?_insert_eq_some kept with ⟨rfl, rfl⟩ | ⟨_, kept⟩
    · exact synced.clocks _ scope prompt located mirrored
    · exact synced.clocks id late prompt kept mirrored

/-- The eager loop emits what the lazy loop emits.
Witness: induction on the lazy passes; a pass that moves a stale entry has no eager counterpart,
and a front entry at its deadline is also the eager front.
-/
theorem expireLoop (id : ScopeKey) (watermark : Int) {fuel enough : Nat}
    {output streams : List TcpStream} {after : TcpReassembler} (synced : Synced lazy eager)
    (returned : TcpReassembler.expireLoop id watermark fuel lazy output = .ok (after, streams))
    (room : eager.flows.size < enough)
    : ∃ mirrored,
        TcpReassembler.expireLoop id watermark enough eager output = .ok (mirrored, streams)
        ∧ Synced after mirrored := by
  induction fuel generalizing lazy eager enough output with
  | zero => cases returned
  | succ fuel ih =>
    obtain ⟨left, rfl⟩ : ∃ left, enough = left + 1 := ⟨enough - 1, by omega⟩
    cases TcpReassembler.expireLoop_pass returned with
    | vacant absent done =>
      cases done
      refine ⟨eager, ?_, synced⟩
      unfold TcpReassembler.expireLoop
      rw [synced.absent_of_lazy absent]
    | early located front later done =>
      cases done
      obtain ⟨prompt, mirror, _⟩ := synced.scope_of_lazy located
      have lags := synced.lagging.lags located
      refine ⟨eager, ?_, synced⟩
      apply TcpReassembler.expireLoop_done mirror (synced.prompt.nonempty id prompt mirror)
      intro other waiting
      exact later.trans
        (Prod.Lex.monotone_fst _ _ (lags.front_le (synced.exact mirror) front waiting))
    | stale located front found scheduled due rest =>
      obtain ⟨placed, _⟩ := synced.lagging.entry_of_front located front
      subst placed
      exact ih (synced.requeue found scheduled located) rest room
    | @removed scope key flow middle emitted located front found scheduled due current
        removes rest =>
        obtain ⟨prompt, mirror, _⟩ := synced.scope_of_lazy located
        obtain ⟨placed, _⟩ := synced.lagging.entry_of_front located front
        have mapped : eager.flows.find? key = some flow.punctual := by
          rw [synced.find?_eq, found, Option.map_some]
        have alike := synced.remove key "idle_timeout"
        rw [removes] at alike
        generalize cleared : eager.remove key "idle_timeout" = outcome at alike
        cases alike with
        | @ok _ settled both =>
        obtain ⟨⟨synced', emits⟩, flows⟩ := both
        have smaller : settled.1.flows.size < left := by
          have size := OrderedMap.size_erase mapped
          rw [flows]
          omega
        obtain ⟨mirrored, loops, final⟩ := ih synced' rest smaller
        have least : front? prompt.expiry = some (toLex (flow.punctual.queued, key)) := by
          have place : lazy.places id key = some (flow.queued, flow.queued) :=
            TcpReassembler.places_eq_some_iff.mpr
              ⟨placed, flow, found, scheduled, rfl, current.symm⟩
          have exactly :=
            (synced.lagging.lags located).front_exact (synced.exact mirror) front place
          rw [current] at exactly
          exact exactly
        refine ⟨mirrored, ?_, final⟩
        rw [TcpReassembler.expireLoop_removes mirror least mapped scheduled rfl
          (lt_of_eq_of_lt current.symm due), cleared, ok_bind, emits]
        exact loops

theorem advance (synced : Synced lazy eager) {id : ScopeKey} {late prompt : Scope}
    (located : lazy.scopes.find? id = some late) (mirror : eager.scopes.find? id = some prompt)
    (watermark : Int)
    : Synced (lazy.setClock id late watermark) (eager.setClock id prompt watermark) :=
  ⟨synced.limits, synced.bufferedBytes, synced.bufferedSegments, synced.nextId, synced.flows,
    SameClocks.insert synced.clocks id rfl,
    TcpReassembler.advance_scheduling synced.lagging located watermark,
    TcpReassembler.advance_scheduling synced.prompt mirror watermark⟩

theorem expire (synced : Synced lazy eager) (invariant : Invariant lazy) (key : TcpFlowKey)
    (stamp : PacketStamp)
    : Alike SameOutput (lazy.expire key stamp) (eager.expire key stamp) := by
  obtain ⟨⟨after, streams⟩, returned, _⟩ :=
    (@TcpReassembler.expire_ensures lazy key invariant stamp).returns
  rw [returned]
  by_cases timed : stamp.hasTimestamp
  · cases located : lazy.scopes.find? (scopeKey key) with
    | none =>
      rw [TcpReassembler.expire_untracked (.inr located)] at returned
      rw [TcpReassembler.expire_untracked (.inr (synced.absent_of_lazy located))]
      cases returned
      exact .ok ⟨synced, rfl⟩
    | some scope =>
      obtain ⟨prompt, mirror, agrees⟩ := synced.scope_of_lazy located
      rw [TcpReassembler.expire_tracked timed located] at returned
      rw [TcpReassembler.expire_tracked timed mirror, agrees, synced.limits]
      have room : eager.flows.size < 2 * eager.flows.size + 1 := by omega
      obtain ⟨mirrored, loops, final⟩ :=
        expireLoop _ _ (synced.advance located mirror _) returned room
      rw [loops]
      exact .ok ⟨final, rfl⟩
  · rw [TcpReassembler.expire_untracked (.inl timed)] at returned
    rw [TcpReassembler.expire_untracked (.inl timed)]
    cases returned
    exact .ok ⟨synced, rfl⟩

/-! ### One call -/

end Synced

/-- The results of two synced lookups: corresponding directions and the same streams. -/
structure SameDirection (late prompt : TcpReassembler × Option Flow × List TcpStream) : Prop where
  synced : Synced late.1 prompt.1
  direction : prompt.2.1 = late.2.1.map Flow.punctual
  streams : prompt.2.2 = late.2.2

namespace Synced

variable {lazy eager : TcpReassembler}

theorem supersede (synced : Synced lazy eager) (packet : Packet)
    : Alike
        (fun late prompt =>
          SameDirection late prompt ∧ late.1.flows.find? packet.key = late.2.1)
        (lazy.supersede packet) (eager.supersede packet) := by
  have reopened : (eager.flows.find? packet.key).all
        (fun flow => flow.hasSyn && flow.synSequence != packet.sequence)
      = (lazy.flows.find? packet.key).all
          (fun flow => flow.hasSyn && flow.synSequence != packet.sequence) := by
    rw [synced.find?_eq]
    cases lazy.flows.find? packet.key <;> rfl
  unfold TcpReassembler.supersede
  dsimp only
  rw [reopened]
  refine .ite Iff.rfl (fun _ => ?_) (fun _ => .ok ⟨⟨synced, synced.find?_eq _, rfl⟩, rfl⟩)
  refine (synced.remove packet.key "tuple_reuse").bind ?_
  intro middle mirrored removed
  obtain ⟨⟨cleared, own⟩, flows⟩ := removed
  refine .ite Iff.rfl (fun _ => ?_) (fun _ => .pure ⟨⟨cleared, rfl, own⟩, ?_⟩)
  · refine (cleared.remove packet.key.reverse "tuple_reuse").bind ?_
    intro last settled ended
    obtain ⟨⟨both, reversed⟩, rest⟩ := ended
    refine .pure ⟨⟨both, rfl, by dsimp only; rw [own, reversed]⟩, ?_⟩
    have gone := both.find?_eq packet.key
    rw [rest, flows, OrderedMap.find?_erase, OrderedMap.find?_erase_self, ite_self] at gone
    exact Option.map_eq_none_iff.mp gone.symm
  · have gone := cleared.find?_eq packet.key
    rw [flows, OrderedMap.find?_erase_self] at gone
    exact Option.map_eq_none_iff.mp gone.symm

theorem track (synced : Synced lazy eager) {packet : Packet}
    (absent : lazy.flows.find? packet.key = none)
    : Alike
        (fun late prompt =>
          SameDirection late prompt
          ∧ ∀ flow, late.2.1 = some flow → late.1.flows.find? packet.key = some flow)
        (lazy.track packet) (eager.track packet) := by
  have missing : eager.flows.find? packet.key = none := by rw [synced.find?_eq, absent]; rfl
  have size : eager.flows.size = lazy.flows.size := by
    rw [synced.flows, OrderedMap.size_mapValues]
  unfold TcpReassembler.track
  rw [synced.nextId, size]
  refine .ite Iff.rfl (fun _ => .error _) (fun _ => .ite (synced.limits ▸ Iff.rfl) ?_ ?_)
  · intro _
    refine .ok ⟨⟨?_, rfl, rfl⟩, fun _ impossible => by cases impossible⟩
    exact ⟨synced.limits, synced.bufferedBytes, synced.bufferedSegments, rfl, synced.flows,
      synced.clocks, ⟨synced.lagging.mem_iff, synced.lagging.nonempty, synced.lagging.lag⟩,
      ⟨synced.prompt.mem_iff, synced.prompt.nonempty, synced.prompt.lag⟩⟩
  · intro _
    refine .ok ⟨⟨?_, rfl, rfl⟩, ?_⟩
    · refine ⟨synced.limits, synced.bufferedBytes, synced.bufferedSegments, rfl, ?_,
        synced.clocks, synced.lagging.track absent rfl rfl rfl,
        synced.prompt.track missing rfl rfl rfl⟩
      rw [OrderedMap.mapValues_insert, ← synced.flows]
      rfl
    · intro flow started
      rw [← started]
      exact OrderedMap.find?_insert_self _ _ _

theorem locate (synced : Synced lazy eager) (invariant : Invariant lazy) (packet : Packet)
    : Alike
        (fun late prompt =>
          SameDirection late prompt
          ∧ ∀ flow, late.2.1 = some flow → late.1.flows.find? packet.key = some flow)
        (lazy.locate packet) (eager.locate packet) := by
  unfold TcpReassembler.locate
  refine (synced.expire invariant packet.key packet.stamp).bind ?_
  intro aged mirrored expired
  obtain ⟨aged, emitted⟩ := aged
  obtain ⟨mirrored, same⟩ := mirrored
  obtain ⟨idled, streams⟩ := expired
  dsimp only at idled streams
  subst streams
  refine (idled.supersede packet).bind ?_
  intro opened followed replaced
  obtain ⟨opened, located, superseded⟩ := opened
  obtain ⟨followed, direction, copies⟩ := followed
  obtain ⟨⟨both, maps, streams⟩, found⟩ := replaced
  dsimp only at both maps streams found
  subst maps streams
  cases located with
  | some flow =>
    refine .pure ⟨⟨both, rfl, rfl⟩, ?_⟩
    intro stored same
    exact found.trans same
  | none =>
    refine .ite Iff.rfl (fun _ => .ite Iff.rfl (fun _ => ?_) (fun _ => ?_)) (fun _ => ?_)
    · refine (both.remove packet.key.reverse "reset").bind ?_
      intro last settled ended
      obtain ⟨⟨after, reversed⟩, _⟩ := ended
      exact .pure ⟨⟨after, rfl, by dsimp only; rw [reversed]⟩, fun _ impossible => by
        cases impossible⟩
    · exact .pure ⟨⟨both, rfl, rfl⟩, fun _ impossible => by cases impossible⟩
    · refine (both.track found).bind ?_
      intro next settled tracked
      obtain ⟨⟨after, maps, rejected⟩, stored⟩ := tracked
      exact .pure ⟨⟨after, maps, by dsimp only; rw [rejected]⟩, stored⟩

theorem reset (synced : Synced lazy eager) (packet : Packet)
    : Alike SameOutput (lazy.reset packet) (eager.reset packet) := by
  unfold TcpReassembler.reset
  refine .ite Iff.rfl (fun _ => ?_) (fun _ => .ok ⟨synced, rfl⟩)
  refine (synced.remove packet.key "reset").bind ?_
  intro middle mirrored removed
  obtain ⟨⟨cleared, own⟩, _⟩ := removed
  refine (cleared.remove packet.key.reverse "reset").bind ?_
  intro last settled ended
  obtain ⟨⟨both, reversed⟩, _⟩ := ended
  exact .pure ⟨both, by dsimp only; rw [own, reversed]⟩

theorem add (synced : Synced lazy eager) (invariant : Invariant lazy) (packet : Packet)
    : Alike SameOutput (lazy.add packet) (eager.addEagerly packet) := by
  unfold TcpReassembler.add TcpReassembler.addEagerly
  refine (synced.locate invariant packet).bind ?_
  intro middle mirrored located
  obtain ⟨middle, direction, output⟩ := middle
  obtain ⟨mirrored, copy, streams⟩ := mirrored
  obtain ⟨⟨both, maps, same⟩, stored⟩ := located
  dsimp only at both maps same stored
  subst maps same
  cases direction with
  | none => exact .pure ⟨both, rfl⟩
  | some flow =>
    refine ((Held.of_synced both (stored flow rfl)).absorb rfl).bind ?_
    intro absorbed follows charged
    refine (charged.reset packet).bind ?_
    intro last settled ended
    exact .pure ⟨ended.1, by dsimp only; rw [ended.2]⟩

theorem finishNext (synced : Synced lazy eager)
    : Alike SameOutput lazy.finishNext eager.finishNext := by
  unfold TcpReassembler.finishNext
  rw [synced.flows, OrderedMap.first?_mapValues]
  cases lazy.flows.first? with
  | none => exact .ok ⟨synced, rfl⟩
  | some first => exact (synced.remove first.1 "eof").mono (fun _ _ removed => removed.1)

theorem call (synced : Synced lazy eager) (invariant : Invariant lazy) (next : TcpReassembler.Call)
    : Alike SameOutput (lazy.call next) (eager.callEagerly next) := by
  cases next with
  | add packet => exact synced.add invariant packet
  | finishNext => exact synced.finishNext

/-! ### Runs -/

theorem run (synced : Synced lazy eager) (invariant : Invariant lazy)
    (calls : List TcpReassembler.Call)
    : Alike SameOutput (lazy.run calls) (eager.runEagerly calls) := by
  induction calls generalizing lazy eager with
  | nil => exact .ok ⟨synced, rfl⟩
  | cons next rest ih =>
    have kept := TcpReassembler.call_invariant invariant next
    have alike := synced.call invariant next
    unfold TcpReassembler.run TcpReassembler.runEagerly
    generalize lazy.call next = outcome at kept alike ⊢
    generalize eager.callEagerly next = mirrored at alike ⊢
    cases alike with
    | error failure => exact .error failure
    | ok both =>
      refine (ih both.1 kept).bind ?_
      intro last settled later
      exact .pure ⟨later.1, by dsimp only; rw [both.2, later.2]⟩

end Synced

theorem synced_empty (limits : AcceptedLimits) : Synced { limits } { limits } :=
  ⟨rfl, rfl, rfl, rfl, rfl, fun _ _ _ absent => (by cases absent), scheduling_empty limits,
    scheduling_empty limits⟩

end PacketQuapture.Reassembly
