import PacketQuapture.Flow.Sessionizer
import PacketQuapture.Library.LazyQueue

/-! The expiry queues of the aggregator against the exact deadlines of its sessions.
`Queued` is what every operation keeps. The sessionizer an aggregator stands for forgets its
queues, so moving an entry leaves it as it is.
-/

namespace PacketQuapture.Flow

open Library

variable {key : SessionKey} {interfaceId : UInt32}

/-- Where a scheduled session is queued, and its deadline. -/
def State.place (state : State) : Option (Int × Int) :=
  if state.scheduled then some (state.queued, state.deadline) else none

/-- The clock of a scope. -/
def Scope.clock (scope : Scope) : Option Int :=
  if scope.hasWatermark then some scope.watermark else none

namespace Sessionizer

theorem mem_waiting {self : Sessionizer} {deadline : Int}
    : toLex (deadline, key) ∈ self.waiting
      ↔ ∃ session, self.sessions.find? key = some session ∧ self.due session = some deadline := by
  simp only [waiting, List.mem_toFinset, List.mem_filterMap, Option.map_eq_some_iff,
    EmbeddingLike.apply_eq_iff_eq, Prod.mk.injEq, OrderedMap.find?_eq_some_iff]
  refine ⟨?_, ?_⟩
  · intro found
    obtain ⟨⟨stored, session⟩, member, late, known, rfl, rfl⟩ := found
    exact ⟨session, member, known⟩
  · intro found
    obtain ⟨session, member, known⟩ := found
    exact ⟨(key, session), member, deadline, known, rfl, rfl⟩

theorem mem_waitingOn {self : Sessionizer} {deadline : Int}
    : toLex (deadline, key) ∈ self.waitingOn interfaceId
      ↔ toLex (deadline, key) ∈ self.waiting ∧ key.interfaceId = interfaceId := by
  simp only [waitingOn, Finset.mem_filter, ofLex_toLex]

end Sessionizer

namespace FlowAggregator

variable {self : FlowAggregator} {scope : Scope} {state : State}

/-- The queue places of an interface's sessions. -/
def places (self : FlowAggregator) (interfaceId : UInt32) (key : SessionKey)
    : Option (Int × Int) :=
  if key.interfaceId = interfaceId then (self.states.find? key).bind State.place else none

/-- The sessions and clocks of an aggregator, without its queues. -/
def sessionizer (self : FlowAggregator) : Sessionizer :=
  { limits := self.limits
    due := deadline? self.limits.toFlowLimits
    sessions := self.states.mapValues State.toSession
    clocks := self.scopes.mapValues Scope.clock
    currentSection := if self.haveSection then some self.sectionNumber else none }

/-- Both aggregators are at the same point of the same record. -/
def SameControl (self other : FlowAggregator) : Prop :=
  other = { self with states := other.states, scopes := other.scopes }

/-- The queues putState the scheduled sessions, each on its own interface. -/
structure Placed (aggregator : FlowAggregator) : Prop where
  keyed : ∀ key state, aggregator.states.find? key = some state → state.row.key = key
  lags : ∀ interfaceId scope, aggregator.scopes.find? interfaceId = some scope →
    Lags scope.expiry (aggregator.places interfaceId)
  homed : ∀ key state, aggregator.states.find? key = some state → state.scheduled →
    ∃ scope, aggregator.scopes.find? key.interfaceId = some scope

/-- Exactly the sessions with a deadline are scheduled, at that deadline. -/
structure Queued (aggregator : FlowAggregator) : Prop extends Placed aggregator where
  timely : ∀ key state, aggregator.states.find? key = some state →
    state.place.map Prod.snd = deadline? aggregator.limits.toFlowLimits state.toSession

/-! ### Frames -/

theorem SameControl.refl (self : FlowAggregator) : self.SameControl self := rfl

theorem SameControl.trans {first second third : FlowAggregator}
    (left : first.SameControl second) (right : second.SameControl third)
    : first.SameControl third := by
  simp only [SameControl] at left right ⊢
  rw [right, left]

theorem places_putState (self : FlowAggregator) (key : SessionKey) (state : State)
    : (self.putState key state).places key.interfaceId
      = Function.update (self.places key.interfaceId) key state.place := by
  funext other
  by_cases same : other = key
  · subst same
    simp [places, putState]
  · simp [places, putState, OrderedMap.find?_insert, same]

theorem places_eraseState (self : FlowAggregator) (key : SessionKey)
    : (self.eraseState key).places key.interfaceId
      = Function.update (self.places key.interfaceId) key none := by
  funext other
  by_cases same : other = key
  · subst same
    simp [places, eraseState]
  · simp [places, eraseState, OrderedMap.find?_erase, same]

theorem places_putState_of_ne (self : FlowAggregator) (state : State)
    (elsewhere : interfaceId ≠ key.interfaceId)
    : (self.putState key state).places interfaceId = self.places interfaceId := by
  funext other
  by_cases same : other = key
  · subst same
    simp [places, elsewhere.symm]
  · simp [places, putState, OrderedMap.find?_insert, same]

theorem places_eraseState_of_ne (self : FlowAggregator) (elsewhere : interfaceId ≠ key.interfaceId)
    : (self.eraseState key).places interfaceId = self.places interfaceId := by
  funext other
  by_cases same : other = key
  · subst same
    simp [places, elsewhere.symm]
  · simp [places, eraseState, OrderedMap.find?_erase, same]

theorem clocks_putScope (present : self.scopes.find? interfaceId = some scope)
    (queue : Finset (Int ×ₗ SessionKey))
    : (self.putScope interfaceId { scope with expiry := queue }).scopes.mapValues Scope.clock
      = self.scopes.mapValues Scope.clock := by
  simp only [putScope, OrderedMap.mapValues_insert]
  refine OrderedMap.insert_eq_self ?_
  rw [OrderedMap.find?_mapValues, present]
  rfl

theorem putState_eq_self (found : self.states.find? key = some state)
    : self.putState key state = self := by
  simp only [putState, OrderedMap.insert_eq_self found]

/-! ### Moving one session -/

/-- A scope exchanged for one with the same clock; sessions and control stay. -/
structure Rescoped (before after : FlowAggregator) : Prop where
  control : before.SameControl after
  states : after.states = before.states
  clocks : after.scopes.mapValues Scope.clock = before.scopes.mapValues Scope.clock

theorem Rescoped.refl (self : FlowAggregator) : self.Rescoped self := ⟨rfl, rfl, rfl⟩

theorem putScope_rescoped (present : self.scopes.find? interfaceId = some scope)
    (queue : Finset (Int ×ₗ SessionKey))
    : self.Rescoped (self.putScope interfaceId { scope with expiry := queue }) :=
  ⟨rfl, rfl, clocks_putScope present queue⟩

/-- Exchanging a session and the queue of its interface together keeps the queues in step,
when the new queue accounts for the new session.
-/
theorem Placed.exchange {next : State} {queue : Finset (Int ×ₗ SessionKey)}
    (placed : (self.putState key state).Placed)
    (present : self.scopes.find? key.interfaceId = some scope) (named : next.row.key = key)
    (lags : Lags queue
      (Function.update ((self.putState key state).places key.interfaceId) key next.place))
    : ((self.putScope key.interfaceId { scope with expiry := queue }).putState key next).Placed := by
  have rest : ∀ other, other ≠ key →
      ((self.putScope key.interfaceId { scope with expiry := queue }).putState key next).states.find?
        other = (self.putState key state).states.find? other := by
    intro other distinct
    simp [putState, putScope, OrderedMap.find?_insert, distinct]
  refine ⟨?_, ?_, ?_⟩
  · intro other stored found
    rcases OrderedMap.find?_insert_eq_some found with ⟨rfl, rfl⟩ | ⟨distinct, _⟩
    · exact named
    · rw [rest other distinct] at found
      exact placed.keyed other stored found
  · intro interfaceId found located
    rcases OrderedMap.find?_insert_eq_some located with ⟨rfl, rfl⟩ | ⟨elsewhere, located⟩
    · rw [places_putState] at lags ⊢
      rwa [Function.update_idem] at lags
    · have kept := placed.lags interfaceId found located
      rw [places_putState_of_ne _ _ elsewhere] at kept ⊢
      exact kept
  · intro other stored found scheduled
    by_cases same : other.interfaceId = key.interfaceId
    · exact ⟨_, by rw [same]; exact OrderedMap.find?_insert_self ..⟩
    · have distinct : other ≠ key := fun equal => same (by rw [equal])
      rw [rest other distinct] at found
      obtain ⟨home, located⟩ := placed.homed other stored found scheduled
      exact ⟨home, by simpa [putState, putScope, OrderedMap.find?_insert, same] using located⟩

theorem places_putState_self (self : FlowAggregator) (key : SessionKey) (state : State)
    : (self.putState key state).places key.interfaceId key = state.place := by
  rw [places_putState, Function.update_self]

theorem scopeAt_eq_ok (present : self.scopes.find? interfaceId = some scope)
    : self.scopeAt interfaceId = .ok scope := by
  simp only [scopeAt, present]

/-- Taking a held session off its queue never fails. -/
theorem unschedule_placed (placed : (self.putState key state).Placed)
    : ∃ after, self.unschedule state = .ok (after, { state with scheduled := false })
      ∧ self.Rescoped after ∧ (after.putState key { state with scheduled := false }).Placed := by
  have stored : (self.putState key state).states.find? key = some state :=
    OrderedMap.find?_insert_self ..
  have named := placed.keyed key state stored
  by_cases scheduled : state.scheduled
  · obtain ⟨scope, present⟩ : ∃ scope, self.scopes.find? key.interfaceId = some scope :=
      placed.homed key state stored scheduled
    have lags := placed.lags key.interfaceId scope present
    have known : (self.putState key state).places key.interfaceId key
        = some (state.queued, state.deadline) := by
      rw [places_putState_self, State.place, if_pos scheduled]
    have member : toLex (state.queued, key) ∈ scope.expiry :=
      (lags.entry_iff _ _).mpr ⟨_, known⟩
    refine ⟨self.putScope key.interfaceId
      { scope with expiry := scope.expiry.erase (toLex (state.queued, key)) }, ?_,
      putScope_rescoped present _, placed.exchange present named (lags.remove known)⟩
    simp only [unschedule, scheduled, if_true, named, scopeAt_eq_ok present, ok_bind,
      require_eq_ok _ member]
  · have idle : { state with scheduled := false } = state := by
      simp only [Bool.not_eq_true] at scheduled
      rw [← scheduled]
    refine ⟨self, ?_, .refl self, idle.symm ▸ placed⟩
    simp only [unschedule, scheduled, idle]
    rfl

/-- Scheduling a held session puts it at its deadline, or off the queue if it has none. -/
theorem schedule_placed (placed : (self.putState key state).Placed)
    (home : ∃ scope, self.scopes.find? key.interfaceId = some scope)
    (grows : ∀ time former latter, state.place = some (time, former) →
      deadline? self.limits.toFlowLimits state.toSession = some latter → former ≤ latter)
    : ∃ after next, self.schedule state = .ok (after, next) ∧ self.Rescoped after
      ∧ (after.putState key next).Placed ∧ next.toSession = state.toSession
      ∧ next.place.map Prod.snd = deadline? self.limits.toFlowLimits state.toSession := by
  obtain rfl := placed.keyed key state (OrderedMap.find?_insert_self ..)
  obtain ⟨scope, present⟩ := home
  have lags := placed.lags state.row.key.interfaceId scope present
  by_cases never : timeout self.limits.toFlowLimits state.row.key = 0
      ∨ state.row.missingTimestamps ≠ 0 ∨ ¬state.row.hasTimestamp
      ∨ int64Max - timeout self.limits.toFlowLimits state.row.key < state.row.lastTimestamp
  · obtain ⟨after, returned, rescoped, kept⟩ := unschedule_placed placed
    refine ⟨after, _, ?_, rescoped, kept, rfl, ?_⟩
    · simp only [schedule, if_pos never, returned]
    · simp only [deadline?, if_pos never, State.place]
      rfl
  · have deadline : deadline? self.limits.toFlowLimits state.toSession
        = some (state.row.lastTimestamp + timeout self.limits.toFlowLimits state.row.key) := by
      simp only [deadline?, if_neg never]
    by_cases scheduled : state.scheduled
    · -- the entry stays where it is and only the recorded deadline moves
      have known : state.place = some (state.queued, state.deadline) := if_pos scheduled
      have later := grows _ _ _ known deadline
      refine ⟨self, { state with
        deadline := state.row.lastTimestamp + timeout self.limits.toFlowLimits state.row.key },
        ?_, .refl self, ?_, rfl, ?_⟩
      · simp only [schedule, if_neg never, scheduled, if_true, require_eq_ok _ later, ok_bind]
      · have moved := lags.postpone ((places_putState_self ..).trans known) later
        have same : self.putScope state.row.key.interfaceId { scope with expiry := scope.expiry }
            = self := by
          simp only [putScope, OrderedMap.insert_eq_self present]
        refine same ▸ placed.exchange present rfl ?_
        simpa only [State.place, scheduled, if_true, putScope] using moved
      · rw [deadline]
        simp only [State.place, scheduled, if_true, Option.map_some]
    · refine ⟨_, { state with
        deadline := state.row.lastTimestamp + timeout self.limits.toFlowLimits state.row.key
        queued := state.row.lastTimestamp + timeout self.limits.toFlowLimits state.row.key
        scheduled := true }, ?_, putScope_rescoped present _, placed.exchange present rfl
          (lags.place ((places_putState_self ..).trans (if_neg scheduled)) le_rfl), rfl, ?_⟩
      · simp only [schedule, if_neg never, if_neg scheduled, scopeAt_eq_ok present, ok_bind]
      · rw [deadline]
        rfl

/-- A session off the queue can leave the table. -/
theorem Placed.eraseState (placed : (self.putState key state).Placed)
    (idle : state.scheduled = false)
    : (self.eraseState key).Placed := by
  have rest : ∀ other stored, (self.eraseState key).states.find? other = some stored →
      (self.putState key state).states.find? other = some stored := by
    intro other stored found
    obtain ⟨distinct, found⟩ := OrderedMap.find?_erase_eq_some found
    exact (OrderedMap.find?_insert_of_ne _ _ distinct).trans found
  refine ⟨fun other stored found => placed.keyed other stored (rest other stored found), ?_,
    fun other stored found => placed.homed other stored (rest other stored found)⟩
  intro interfaceId scope present
  have lags := placed.lags interfaceId scope present
  by_cases same : interfaceId = key.interfaceId
  · subst same
    rw [places_putState, State.place, idle] at lags
    rw [places_eraseState]
    exact lags
  · rw [places_putState_of_ne _ _ same] at lags
    rw [places_eraseState_of_ne _ same]
    exact lags

end FlowAggregator

end PacketQuapture.Flow
