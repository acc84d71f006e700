import PacketQuapture.Flow.Refinement

/-! What holds of the aggregator between any two calls, and the theorem that its lazy expiry
is the naive one. A caller may push, drain and finish in any order the aggregator accepts.
-/

namespace PacketQuapture.Flow

open Library

namespace FlowAggregator

/-- The aggregators a caller can bring about. -/
inductive Reachable (limits : AcceptedLimits) : FlowAggregator → Prop where
  | start : Reachable limits { limits }
  | push {self after : FlowAggregator} {input : FlowInput} (before : Reachable limits self)
      (called : self.push input = .ok after) : Reachable limits after
  | next {self after : FlowAggregator} {row : Option FlowSummary}
      (before : Reachable limits self) (called : self.next = .ok (after, row))
      : Reachable limits after
  | finish {self after : FlowAggregator} {finalSection : UInt32}
      (before : Reachable limits self) (called : self.finish finalSection = .ok after)
      : Reachable limits after

/-- What holds between any two calls. -/
structure Sound (limits : AcceptedLimits) (aggregator : FlowAggregator) : Prop where
  limits : aggregator.limits = limits
  queued : aggregator.Queued
  bounded : aggregator.states.size ≤ aggregator.limits.maxFlows
  drained : aggregator.finishing = true → aggregator.pending = false
  working : aggregator.finishing = false → aggregator.pending = true →
    aggregator.prepared = true → aggregator.Serving aggregator.pendingInput aggregator.late

variable {limits : AcceptedLimits}
variable {self after : FlowAggregator} {key : SessionKey} {input : FlowInput}

theorem Idle.sound (idle : self.Idle) (accepted : self.limits = limits)
    : self.Sound limits :=
  ⟨accepted, idle.queued, idle.bounded, fun _ => idle.pending,
    fun _ pending => absurd (idle.pending.symm.trans pending) (by simp)⟩

/-- Closing a session keeps the aggregator sound. -/
theorem Sound.closes {reason : FinalizedBy} (sound : self.Sound limits)
    (closes : self.Closes reason key after)
    : after.Sound limits := by
  obtain ⟨session, found, _⟩ := closes.emitted
  have smaller := OrderedMap.size_erase found
  have size := congrArg (fun table => table.sessions.size) closes.view
  simp only [size_sessionizer] at smaller size
  have bounded := sound.bounded
  have control := closes.control
  refine ⟨?_, closes.queued, ?_, ?_, ?_⟩
  · rw [control]
    exact sound.limits
  · have same : after.limits = self.limits := by rw [control]
    rw [same]
    omega
  · rw [control]
    exact sound.drained
  · intro running pending prepared
    have serving : self.Serving self.pendingInput self.late := by
      rw [control] at running pending prepared
      exact sound.working running pending prepared
    have carried := serving.carry closes.queued control (by rw [closes.view])
    rwa [← carried.pendingInput, ← carried.late] at carried

/-- What a call ensures: a sound aggregator, or one of the failures a caller is told about. -/
abbrev Steps (limits : AcceptedLimits)
    (outcome : Except Failure (FlowAggregator × Option FlowSummary)) : Prop :=
  Ensures outcome (fun result => result.1.Sound limits)
    fun failure => failure = .counterOverflow ∨ failure = .scopeCapacity

theorem Sound.steps_closes {reason : FinalizedBy} (sound : self.Sound limits)
    (closes : self.Closes reason key after)
    : Steps limits self.next := by
  obtain ⟨session, _, called⟩ := closes.emitted
  rw [called]
  exact sound.closes closes

theorem Settles.steps {expected : List FlowSummary × Except Failure Sessionizer}
    (settles : self.Settles expected) (sound : self.Sound limits)
    : Steps limits self.next := by
  cases settles with
  | raises called cause =>
    rw [called]
    exact .inl cause
  | returns called idle frozen =>
    rw [called]
    exact idle.sound (frozen.trans sound.limits)

theorem Serving.steps {late : Bool} (serving : self.Serving input late) (sound : self.Sound limits)
    : Steps limits self.next := by
  cases front : front? (self.sessionizer.overdue input.interfaceId) with
  | some entry =>
    obtain ⟨after, closes⟩ := serving.closes_overdue front
    exact sound.steps_closes closes
  | none =>
    cases eligible : input.eligible with
    | false =>
      exact (serving.settles_ineligible front eligible sound.bounded).steps sound
    | true =>
      cases displaced : self.sessionizer.displaced input with
      | some pair =>
        obtain ⟨after, closes⟩ := serving.closes_displaced front eligible displaced
        exact sound.steps_closes closes
      | none =>
        exact (serving.settles_charge front eligible displaced sound.bounded).steps sound

theorem Entered.steps {entered : FlowAggregator} (entering : entered.Entered input)
    (same : self.next = entered.serve) (accepted : entered.limits = limits)
    (bounded : entered.states.size ≤ entered.limits.maxFlows)
    : Steps limits self.next := by
  rw [same]
  by_cases full : entered.scopes.find? input.interfaceId = none
      ∧ entered.limits.maxScopes ≤ entered.scopes.size
  · rw [(entering.serve_error full).1]
    exact .inr rfl
  · rw [entering.serve_eq full]
    have serving := entering.serving
    refine serving.steps ⟨accepted, serving.queued, bounded, ?_, fun _ _ _ => ?_⟩
    · intro finishing
      exact absurd (serving.running.symm.trans finishing) (by simp)
    · rw [serving.pendingInput]
      exact serving

theorem Pushed.steps (pushed : self.Pushed input) (sound : self.Sound limits)
    : Steps limits self.next := by
  by_cases turned : self.haveSection = true ∧ self.sectionNumber ≠ input.sectionNumber
  · cases start : self.states.first? with
    | some first =>
      obtain ⟨after, closes⟩ := pushed.closes_first turned start
      exact sound.steps_closes closes
    | none =>
      obtain ⟨called, entered⟩ := pushed.clears turned (OrderedMap.first?_eq_none_iff.mp start)
      exact entered.steps called sound.limits sound.bounded
  · obtain ⟨called, entered, _⟩ := pushed.enters turned
    exact entered.steps called sound.limits sound.bounded

/-- Every call keeps the aggregator sound, and raises only what its caller is told about. -/
theorem Sound.steps (sound : self.Sound limits)
    : Steps limits self.next := by
  cases finishing : self.finishing with
  | true =>
    cases start : self.states.first? with
    | none =>
      have called : self.next = .ok (self.clearScopes, none) := by
        simp only [next, finishing, if_true, start]
      have empty := OrderedMap.first?_eq_none_iff.mp start
      rw [called]
      exact ⟨sound.limits, .of_empty empty rfl, sound.bounded, sound.drained,
        fun running => absurd (finishing.symm.trans running) (by simp)⟩
    | some first =>
      obtain ⟨after, closes⟩ := closes_of_emit (.refl self) sound.queued
        (OrderedMap.find?_of_first? start)
        (show self.next = self.emit first.1
          (if self.finalSection = self.sectionNumber then .eof else .sectionBoundary) by
            simp only [next, finishing, if_true, start])
      exact sound.steps_closes closes
  | false =>
    cases pending : self.pending with
    | false =>
      have called : self.next = .ok (self, none) := by
        simp only [next, finishing, pending, Bool.false_eq_true, if_false, Bool.not_false, if_true]
      rw [called]
      exact sound
    | true =>
      cases prepared : self.prepared with
      | true => exact (sound.working finishing pending prepared).steps sound
      | false =>
        exact Pushed.steps ⟨sound.queued, finishing, pending, rfl, prepared⟩ sound

theorem sound_start (limits : AcceptedLimits) : ({ limits } : FlowAggregator).Sound limits :=
  ⟨rfl, .of_empty rfl rfl, Nat.zero_le _, fun _ => rfl, fun _ pending => absurd pending (by simp)⟩

theorem Sound.push (sound : self.Sound limits) (called : self.push input = .ok after)
    : after.Sound limits := by
  simp only [FlowAggregator.push] at called
  split at called
  · simp at called
  case isFalse free =>
    split at called
    · simp at called
    · obtain rfl := Except.ok.inj called
      simp only [Bool.or_eq_true, not_or, Bool.not_eq_true] at free
      exact ⟨sound.limits, sound.queued.congr rfl rfl rfl, sound.bounded,
        fun finishing => absurd (free.2.symm.trans finishing) (by simp),
        fun _ _ prepared => absurd prepared (by simp [accept])⟩

theorem Sound.finish {finalSection : UInt32} (sound : self.Sound limits)
    (called : self.finish finalSection = .ok after)
    : after.Sound limits := by
  simp only [FlowAggregator.finish] at called
  split at called
  · simp at called
  case isFalse drained =>
    obtain rfl := Except.ok.inj called
    exact ⟨sound.limits, sound.queued.congr rfl rfl rfl, sound.bounded,
      fun _ => by simpa [beginFinish] using drained,
      fun running => absurd running (by simp [beginFinish])⟩

theorem Reachable.sound (reachable : Reachable limits self)
    : self.Sound limits := by
  induction reachable with
  | start => exact sound_start limits
  | push _ called ih => exact ih.push called
  | next _ called ih =>
    have kept := Ensures.of_eq_ok called ih.steps
    exact kept
  | finish _ called ih => exact ih.finish called

/-! ### Queue entries and scheduled sessions -/

/-- The keys of the scheduled sessions. -/
def scheduledKeys (self : FlowAggregator) : Finset SessionKey :=
  ((self.states.entries.filter fun entry => entry.2.scheduled).map Prod.fst).toFinset

theorem mem_scheduledKeys
    : key ∈ self.scheduledKeys ↔ ∃ state, self.states.find? key = some state ∧ state.scheduled := by
  simp only [scheduledKeys, List.mem_toFinset, List.mem_map, List.mem_filter,
    OrderedMap.find?_eq_some_iff]
  refine ⟨?_, ?_⟩
  · intro held
    obtain ⟨⟨_, state⟩, ⟨stored, scheduled⟩, rfl⟩ := held
    exact ⟨state, stored, scheduled⟩
  · intro held
    obtain ⟨state, stored, scheduled⟩ := held
    exact ⟨(key, state), ⟨stored, scheduled⟩, rfl⟩

theorem Queued.mem_expiry_iff (queued : self.Queued) {interfaceId : UInt32} {scope : Scope}
    (present : self.scopes.find? interfaceId = some scope) {time : Int}
    : toLex (time, key) ∈ scope.expiry
      ↔ key.interfaceId = interfaceId
        ∧ ∃ state, self.states.find? key = some state ∧ state.scheduled = true
          ∧ state.queued = time := by
  rw [(queued.lags interfaceId scope present).entry_iff]
  simp only [places_eq_some_iff, place_eq_some_iff]
  refine ⟨?_, ?_⟩
  · intro placed
    obtain ⟨_, home, state, found, scheduled, standing, _⟩ := placed
    exact ⟨home, state, found, scheduled, standing⟩
  · intro held
    obtain ⟨home, state, found, scheduled, standing⟩ := held
    exact ⟨state.deadline, home, state, found, scheduled, standing, rfl⟩

/-- A queue has as many entries as its interface has scheduled sessions.
Witness: an entry is determined by its session.
-/
theorem Queued.card_expiry (queued : self.Queued) {interfaceId : UInt32} {scope : Scope}
    (present : self.scopes.find? interfaceId = some scope)
    : scope.expiry.card
      = (self.scheduledKeys.filter fun key => key.interfaceId = interfaceId).card := by
  refine Finset.card_bij (fun entry _ => (ofLex entry).2) ?_ ?_ ?_
  · intro entry member
    obtain ⟨⟨time, key⟩, rfl⟩ : ∃ pair, toLex pair = entry := ⟨ofLex entry, rfl⟩
    obtain ⟨home, state, found, scheduled, _⟩ := (queued.mem_expiry_iff present).mp member
    exact Finset.mem_filter.mpr ⟨mem_scheduledKeys.mpr ⟨state, found, scheduled⟩, home⟩
  · intro left first right second same
    obtain ⟨⟨early, key⟩, rfl⟩ : ∃ pair, toLex pair = left := ⟨ofLex left, rfl⟩
    obtain ⟨⟨late, other⟩, rfl⟩ : ∃ pair, toLex pair = right := ⟨ofLex right, rfl⟩
    obtain rfl : key = other := same
    obtain ⟨_, state, found, _, rfl⟩ := (queued.mem_expiry_iff present).mp first
    obtain ⟨_, again, located, _, rfl⟩ := (queued.mem_expiry_iff present).mp second
    rw [Option.some.inj (found.symm.trans located)]
  · intro key member
    obtain ⟨held, home⟩ := Finset.mem_filter.mp member
    obtain ⟨state, found, scheduled⟩ := mem_scheduledKeys.mp held
    exact ⟨toLex (state.queued, key),
      (queued.mem_expiry_iff present).mpr ⟨home, state, found, scheduled, rfl⟩, rfl⟩

theorem Queued.expiryCount_eq (queued : self.Queued)
    : self.expiryCount = self.scheduledKeys.card := by
  have homes : ∀ key ∈ self.scheduledKeys,
      key.interfaceId ∈ (self.scopes.entries.map Prod.fst).toFinset := by
    intro key member
    obtain ⟨state, found, scheduled⟩ := mem_scheduledKeys.mp member
    obtain ⟨scope, present⟩ := queued.homed key state found scheduled
    exact List.mem_toFinset.mpr
      (List.mem_map.mpr ⟨_, OrderedMap.find?_eq_some_iff.mp present, rfl⟩)
  have nodup : (self.scopes.entries.map Prod.fst).Nodup := by
    rw [List.Nodup, List.pairwise_map]
    exact self.scopes.sorted.imp fun below => below.ne
  rw [Finset.card_eq_sum_card_fiberwise homes, List.sum_toFinset _ nodup, List.map_map,
    expiryCount]
  refine congrArg List.sum (List.map_congr_left fun entry member => ?_)
  exact queued.card_expiry (OrderedMap.find?_eq_some_iff.mpr member)

/-! ### Lazy expiry is naive expiry -/

/-- Lazy expiry cannot be told from naive expiry. Between any two calls the table is within
its limit, the queue entries are the scheduled sessions, and no assertion can fail. A scan
emits the rows of the sessionizer with the same contents, order and reasons, and raises what it
raises.
-/
theorem scan_eq_sessionizer (limits : AcceptedLimits)
    : (∀ self, Reachable limits self →
        self.activeCount ≤ limits.maxFlows
        ∧ self.expiryCount = self.scheduledKeys.card
        ∧ (∀ interfaceId scope, self.scopes.find? interfaceId = some scope → ∀ time key,
          toLex (time, key) ∈ scope.expiry
            ↔ key.interfaceId = interfaceId
              ∧ ∃ state, self.states.find? key = some state ∧ state.scheduled = true
                ∧ state.queued = time)
        ∧ ∀ failure, self.next = .error failure →
          failure = .counterOverflow ∨ failure = .scopeCapacity)
      ∧ ∀ inputs finalSection,
        (({ limits } : FlowAggregator).scan inputs finalSection).1
          = (({ limits, due := deadline? limits.toFlowLimits } : Sessionizer).scan inputs
              finalSection).1
        ∧ (({ limits } : FlowAggregator).scan inputs finalSection).2.map sessionizer
          = (({ limits, due := deadline? limits.toFlowLimits } : Sessionizer).scan inputs
              finalSection).2 := by
  refine ⟨?_, ?_⟩
  · intro self reachable
    have sound := reachable.sound
    refine ⟨sound.limits ▸ sound.bounded, sound.queued.expiryCount_eq,
      fun interfaceId scope present time key => sound.queued.mem_expiry_iff present, ?_⟩
    intro failure raised
    have steps := sound.steps
    rw [raised] at steps
    exact steps
  · intro inputs finalSection
    have idle : ({ limits } : FlowAggregator).Idle :=
      ⟨.of_empty rfl rfl, rfl, rfl, Nat.zero_le _, .inr rfl⟩
    exact Prod.mk.inj (idle.scan_eq inputs finalSection)

/-- The deadline of a session if a zero timeout were a timeout like any other. -/
def summedDeadline? (limits : FlowLimits) (session : Session) : Option Int :=
  let idle := timeout limits session.row.key
  if session.row.missingTimestamps ≠ 0 ∨ ¬session.row.hasTimestamp
      ∨ int64Max - idle < session.row.lastTimestamp then
    none
  else some (session.row.lastTimestamp + idle)

def withoutTcpTimeout : AcceptedLimits :=
  { AcceptedLimits.default with tcpIdleUs := 0, tcpIdleNonneg := le_rfl }

/-- Two acknowledgements of one conversation, ten microseconds apart. -/
def spacedAcks : List FlowInput :=
  [10, 20].mapIdx fun index timestamp =>
    { stamp := { number := index + 1, hasTimestamp := true, timestamp }
      packet := { transport := true, tcp := true, tcpFlags := tcpAckFlag } }

/-- A zero timeout disables idle expiry: the aggregator keeps one session, where a deadline of
the timestamp plus zero would end it at the next packet.
-/
theorem scan_withoutTcpTimeout
    : (({ limits := withoutTcpTimeout } : FlowAggregator).scan spacedAcks 0).1.map
        (fun row => (row.total (·.packets), row.finalizedBy)) = [(2, .eof)]
      ∧ (({ limits := withoutTcpTimeout, due := summedDeadline? withoutTcpTimeout.toFlowLimits }
          : Sessionizer).scan spacedAcks 0).1.map
        (fun row => (row.total (·.packets), row.finalizedBy)) = [(1, .idleTimeout), (1, .eof)] := by
  decide +kernel

end FlowAggregator

end PacketQuapture.Flow
