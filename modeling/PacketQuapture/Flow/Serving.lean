import PacketQuapture.Flow.Counting
import PacketQuapture.Flow.Eviction

/-! One call of `next` against the sessionizer: the session it closes, or the packet it
accounts for. No assertion fails on the way, because the queues stay in step with the
sessions.
-/

namespace PacketQuapture.Flow

open Library

variable {session : Session} {input : FlowInput}

/-- A deadline only moves later.
Witness: the latest timestamp of a session is a maximum.
-/
theorem deadline?_grows {limits : FlowLimits} {next : Session} {former latter : Int}
    (counted : Counted session.row input next.row) (before : deadline? limits session = some former)
    (after : deadline? limits next = some latter)
    : former ≤ latter := by
  simp only [deadline?, counted.key] at before after
  split at before
  · simp at before
  case isFalse started =>
    split at after
    · simp at after
    · have known : session.row.hasTimestamp = true := by
        by_contra missing
        exact started (.inr (.inr (.inl missing)))
      have later := counted.latest known
      obtain rfl := Option.some.inj before
      obtain rfl := Option.some.inj after
      omega

namespace FlowAggregator

variable {self : FlowAggregator} {key : SessionKey} {state : State} {late : Bool}

theorem Queued.congr {other : FlowAggregator} (queued : self.Queued)
    (states : other.states = self.states) (scopes : other.scopes = self.scopes)
    (limits : other.limits = self.limits)
    : other.Queued := by
  have places : other.places = self.places := by
    funext interfaceId key
    simp only [FlowAggregator.places, states]
  refine ⟨⟨?_, ?_, ?_⟩, ?_⟩
  · rw [states]
    exact queued.keyed
  · rw [scopes, places]
    exact queued.lags
  · rw [states, scopes]
    exact queued.homed
  · rw [states, limits]
    exact queued.timely

/-- A session off the queue can join the table under a free key. -/
theorem Placed.admits (placed : self.Placed) (free : self.states.find? key = none)
    (named : state.row.key = key) (idle : state.scheduled = false)
    : (self.putState key state).Placed := by
  refine ⟨?_, ?_, ?_⟩
  · intro other stored found
    rcases OrderedMap.find?_insert_eq_some found with ⟨rfl, rfl⟩ | ⟨_, found⟩
    · exact named
    · exact placed.keyed other stored found
  · intro interfaceId scope present
    have lags := placed.lags interfaceId scope present
    by_cases same : interfaceId = key.interfaceId
    · subst same
      have absent : self.places key.interfaceId key = none := by
        simp [places, free]
      have unplaced : state.place = none := by
        simp [State.place, idle]
      rw [places_putState, unplaced, ← absent, Function.update_eq_self]
      exact lags
    · rw [places_putState_of_ne _ _ same]
      exact lags
  · intro other stored found scheduled
    rcases OrderedMap.find?_insert_eq_some found with ⟨rfl, rfl⟩ | ⟨_, found⟩
    · simp [idle] at scheduled
    · exact placed.homed other stored found scheduled

/-- A session can change in place as long as it keeps its key and its queue entry. -/
theorem Placed.relabel (placed : (self.putState key state).Placed)
    (named : session.row.key = state.row.key)
    : (self.putState key { state with toSession := session }).Placed := by
  have stored : (self.putState key state).states.find? key = some state :=
    OrderedMap.find?_insert_self ..
  have rest : ∀ other found,
      (self.putState key { state with toSession := session }).states.find? other = some found →
      ∃ former, (self.putState key state).states.find? other = some former
        ∧ found.row.key = former.row.key ∧ found.scheduled = former.scheduled := by
    intro other found located
    rcases OrderedMap.find?_insert_eq_some located with ⟨rfl, rfl⟩ | ⟨distinct, located⟩
    · exact ⟨state, stored, named, rfl⟩
    · exact ⟨found, (OrderedMap.find?_insert_of_ne _ _ distinct).trans located, rfl, rfl⟩
  refine ⟨?_, ?_, ?_⟩
  · intro other found located
    obtain ⟨former, before, key, _⟩ := rest other found located
    exact key.trans (placed.keyed other former before)
  · intro interfaceId scope present
    have lags := placed.lags interfaceId scope present
    by_cases same : interfaceId = key.interfaceId
    · subst same
      rw [places_putState] at lags ⊢
      exact lags
    · rw [places_putState_of_ne _ _ same] at lags ⊢
      exact lags
  · intro other found located scheduled
    obtain ⟨former, before, _, same⟩ := rest other found located
    exact placed.homed other former before (same ▸ scheduled)

/-! ### Accounting for the pending packet -/

/-- A session ready for the pending packet: the table has room for it under its key, and its
interface has a scope.
-/
structure Holds (aggregator : FlowAggregator) (key : SessionKey) (state : State) : Prop where
  placed : (aggregator.putState key state).Placed
  timely : ∀ time deadline, state.place = some (time, deadline) →
    deadline? aggregator.limits.toFlowLimits state.toSession = some deadline
  home : ∃ scope, aggregator.scopes.find? key.interfaceId = some scope

theorem Queued.holds (queued : self.Queued) (found : self.states.find? key = some state)
    (home : ∃ scope, self.scopes.find? key.interfaceId = some scope)
    : self.Holds key state := by
  refine ⟨(putState_eq_self found).symm ▸ queued.toPlaced, ?_, home⟩
  intro time deadline place
  rw [← queued.timely key state found, place]
  rfl

theorem Queued.holds_fresh (queued : self.Queued) (free : self.states.find? key = none)
    (named : session.row.key = key) (home : ∃ scope, self.scopes.find? key.interfaceId = some scope)
    : self.Holds key { toSession := session } := by
  refine ⟨queued.toPlaced.admits free named rfl, ?_, home⟩
  intro time deadline place
  simp [State.place] at place

/-- Accounting for the packet stores the session and queues it at its new deadline; a reset
then ends it.
-/
theorem charge_eq (queued : self.Queued) {fromLow : Bool} (holds : self.Holds key state)
    (accounted : state.toSession.account self.pendingInput fromLow self.late = .ok session)
    : ∃ kept stored, kept.Queued ∧ self.settle.SameControl kept
      ∧ kept.sessionizer
        = { self.sessionizer with sessions := self.sessionizer.sessions.insert key session }
      ∧ kept.states.find? key = some stored ∧ stored.toSession = session
      ∧ self.charge key state fromLow
        = if session.row.resetSeen then kept.emit key .reset else .ok (kept, none) := by
  have counted := Session.account_counted accounted
  have placed : (self.putState key { state with toSession := session }).Placed :=
    holds.placed.relabel counted.key
  obtain ⟨after, next, returned, rescoped, settled, same, timely⟩ :=
    schedule_placed placed holds.home (by
      intro time former latter place later
      exact deadline?_grows counted (holds.timely time former place) later)
  have limits : after.limits = self.limits := by rw [rescoped.control]
  refine ⟨(after.putState key next).settle, next, ?_, ?_, ?_, OrderedMap.find?_insert_self ..,
    same, ?_⟩
  · refine Queued.congr ⟨settled, ?_⟩ rfl rfl rfl
    intro other stored found
    rcases OrderedMap.find?_insert_eq_some found with ⟨rfl, rfl⟩ | ⟨_, found⟩
    · rw [same]
      simpa only [putState, limits] using timely
    · rw [rescoped.states] at found
      simpa only [putState, limits] using queued.timely other stored found
  · have control := rescoped.control
    simp only [SameControl, settle, putState] at control ⊢
    rw [control]
  · have control := rescoped.control
    simp only [sessionizer, settle, putState, OrderedMap.mapValues_insert, rescoped.states,
      rescoped.clocks, same]
    rw [control]
  · simp only [charge, accounted, ok_bind, returned, same]

/-! ### One call -/

/-- The aggregator works on a record: its section and its clock are current. -/
structure Serving (aggregator : FlowAggregator) (input : FlowInput) (late : Bool) : Prop where
  queued : aggregator.Queued
  running : aggregator.finishing = false
  pending : aggregator.pending = true
  pendingInput : aggregator.pendingInput = input
  prepared : aggregator.prepared = true
  late : aggregator.late = late
  haveSection : aggregator.haveSection = true
  sectionNumber : aggregator.sectionNumber = input.sectionNumber
  home : ∃ scope, aggregator.scopes.find? input.interfaceId = some scope

theorem Serving.carry {after : FlowAggregator} (serving : self.Serving input late)
    (queued : after.Queued) (control : self.SameControl after)
    (clocks : after.sessionizer.clocks = self.sessionizer.clocks)
    : after.Serving input late := by
  have home : ∃ scope, after.scopes.find? input.interfaceId = some scope := by
    obtain ⟨scope, present⟩ := serving.home
    have same := congrArg (fun map => (map.find? input.interfaceId).isSome) clocks
    simp only [sessionizer, OrderedMap.find?_mapValues, Option.isSome_map, present] at same
    exact Option.isSome_iff_exists.mp same
  refine ⟨queued, ?_, ?_, ?_, ?_, ?_, ?_, ?_, home⟩
  · rw [control]; exact serving.running
  · rw [control]; exact serving.pending
  · rw [control]; exact serving.pendingInput
  · rw [control]; exact serving.prepared
  · rw [control]; exact serving.late
  · rw [control]; exact serving.haveSection
  · rw [control]; exact serving.sectionNumber

theorem Serving.requeues {after : FlowAggregator} (serving : self.Serving input late)
    (queued : after.Queued) (moved : self.Requeues after)
    : after.Serving input late :=
  serving.carry queued moved.control (congrArg Sessionizer.clocks moved.view)

theorem Serving.next_eq (serving : self.Serving input late)
    : self.next = self.serve := by
  have current : self.enterSection input.sectionNumber = self := by
    rw [enterSection, ← serving.sectionNumber, ← serving.haveSection]
  simp only [next, serving.running, serving.pending, serving.pendingInput, serving.sectionNumber,
    serving.haveSection, ne_eq, not_true_eq_false, and_false, if_false, Bool.not_true,
    Bool.false_eq_true]
  rw [current]

/-- The front of the overdue sessions is the front of the queue, once the clock is past it. -/
theorem front?_overdue {self : Sessionizer} {interfaceId : UInt32} {entry : Int ×ₗ SessionKey}
    : front? (self.overdue interfaceId) = some entry
      ↔ front? (self.waitingOn interfaceId) = some entry
        ∧ ∃ watermark, (self.clocks.find? interfaceId).join = some watermark
          ∧ (ofLex entry).1 < watermark := by
  simp only [Sessionizer.overdue]
  cases clock : (self.clocks.find? interfaceId).join with
  | none => simp [front?_eq_none_iff.mpr rfl]
  | some watermark =>
    simp only [front?_eq_some_iff, Finset.mem_filter, Option.some.injEq, exists_eq_left']
    refine ⟨?_, ?_⟩
    · intro least
      obtain ⟨⟨member, before⟩, below⟩ := least
      refine ⟨⟨member, ?_⟩, before⟩
      intro other found
      by_cases past : (ofLex other).1 < watermark
      · exact below other ⟨found, past⟩
      · exact Prod.Lex.le_iff.mpr (.inl (lt_of_lt_of_le before (not_lt.mp past)))
    · intro least
      obtain ⟨⟨member, below⟩, before⟩ := least
      exact ⟨⟨member, before⟩, fun other found => below other found.1⟩

/-- The call takes a session off the table, emits its row and stays at the same record. -/
structure Closes (before : FlowAggregator) (reason : FinalizedBy) (key : SessionKey)
    (after : FlowAggregator) : Prop where
  emitted : ∃ session, before.sessionizer.sessions.find? key = some session
    ∧ before.next = .ok (after, some { session.row with finalizedBy := reason })
  queued : after.Queued
  control : before.SameControl after
  view : after.sessionizer
    = { before.sessionizer with sessions := before.sessionizer.sessions.erase key }

theorem closes_of_emit {middle : FlowAggregator} (moved : self.Requeues middle)
    (queued : middle.Queued) (found : middle.states.find? key = some state) {reason : FinalizedBy}
    (called : self.next = middle.emit key reason)
    : ∃ after, self.Closes reason key after := by
  obtain ⟨after, returned, settled, control, view⟩ := emit_queued queued found reason
  refine ⟨after, ⟨state.toSession, ?_, called.trans returned⟩, settled, moved.control.trans control,
    ?_⟩
  · rw [← moved.view, sessionizer, OrderedMap.find?_mapValues, found]
    rfl
  · rw [view, moved.view]

/-- While a session of the interface is overdue, the call expires the first of them. -/
theorem Serving.closes_overdue (serving : self.Serving input late) {entry : Int ×ₗ SessionKey}
    (front : front? (self.sessionizer.overdue input.interfaceId) = some entry)
    : ∃ after, self.Closes .idleTimeout (ofLex entry).2 after := by
  obtain ⟨least, watermark, clock, before⟩ := front?_overdue.mp front
  obtain ⟨scope, present⟩ := serving.home
  obtain ⟨middle, refreshed, returned, settled, moved, located, same⟩ :=
    refresh_queued serving.queued present
  have waiting := (Finset.mem_filter.mp (front?_eq_some_iff.mp least).1).1
  obtain ⟨⟨state, found⟩, _⟩ := settled.of_waiting (moved.view ▸ waiting)
  have input' : middle.pendingInput = input :=
    (serving.requeues settled moved).pendingInput
  refine closes_of_emit moved settled found ?_
  have due : refreshed.hasWatermark ∧ (ofLex entry).1 < refreshed.watermark := by
    rw [← moved.view, sessionizer, OrderedMap.find?_mapValues, located] at clock
    simp only [Option.map_some, Option.join_some, Scope.clock, Option.ite_none_right_eq_some,
      Option.some.injEq] at clock
    exact ⟨clock.1, clock.2 ▸ before⟩
  rw [serving.next_eq]
  simp only [serve, prepareOnce, serving.prepared, if_true, ok_bind, serving.pendingInput, returned,
    input', scopeAt_eq_ok located, same, least, if_pos due]
  rw [require_eq_ok _ (by simp [found]), ok_bind]

/-- With no session overdue, the call assigns the packet. -/
theorem Serving.next_assign (serving : self.Serving input late)
    (none : front? (self.sessionizer.overdue input.interfaceId) = none)
    : ∃ middle, self.next = middle.assign ∧ middle.Serving input late
      ∧ self.Requeues middle := by
  obtain ⟨scope, present⟩ := serving.home
  obtain ⟨middle, refreshed, returned, settled, moved, located, same⟩ :=
    refresh_queued serving.queued present
  have working := serving.requeues settled moved
  refine ⟨middle, ?_, working, moved⟩
  rw [serving.next_eq]
  simp only [serve, prepareOnce, serving.prepared, if_true, ok_bind, serving.pendingInput, returned,
    working.pendingInput, scopeAt_eq_ok located, same]
  cases least : front? (self.sessionizer.waitingOn input.interfaceId) with
  | none => rfl
  | some entry =>
    have current : ¬(refreshed.hasWatermark ∧ (ofLex entry).1 < refreshed.watermark) := by
      intro due
      have overdue := front?_overdue.mpr ⟨least, refreshed.watermark, by
        rw [← moved.view, sessionizer, OrderedMap.find?_mapValues, located]
        simp [Scope.clock, due.1], due.2⟩
      simp [none] at overdue
    simp only [if_neg current]

theorem find?_sessionizer (self : FlowAggregator) (key : SessionKey)
    : self.sessionizer.sessions.find? key = (self.states.find? key).map State.toSession :=
  OrderedMap.find?_mapValues ..

theorem size_sessionizer (self : FlowAggregator)
    : self.sessionizer.sessions.size = self.states.size :=
  OrderedMap.size_mapValues ..

theorem exists_first?_of_full (full : self.limits.maxFlows ≤ self.states.size)
    : ∃ first, self.states.first? = some first := by
  refine Option.ne_none_iff_exists'.mp fun empty => ?_
  rw [OrderedMap.first?_eq_none_iff.mp empty] at full
  exact self.limits.someFlows (Nat.le_zero.mp full)

theorem Serving.next_ineligible (serving : self.Serving input late)
    (none : front? (self.sessionizer.overdue input.interfaceId) = none)
    (ineligible : input.eligible = false)
    : ∃ middle, self.next = .ok (middle.settle, Option.none) ∧ middle.Queued
      ∧ self.Requeues middle := by
  obtain ⟨middle, called, working, moved⟩ := serving.next_assign none
  refine ⟨middle, ?_, working.queued, moved⟩
  rw [called]
  simp only [assign, working.pendingInput, ineligible, Bool.not_false, if_true]

/-- A packet that displaces a session first closes it. -/
theorem Serving.closes_displaced (serving : self.Serving input late)
    (none : front? (self.sessionizer.overdue input.interfaceId) = none)
    (eligible : input.eligible = true) {reason : FinalizedBy}
    (displaced : self.sessionizer.displaced input = some (reason, key))
    : ∃ after, self.Closes reason key after := by
  obtain ⟨middle, called, working, moved⟩ := serving.next_assign none
  rw [← moved.view] at displaced
  simp only [Sessionizer.displaced, find?_sessionizer] at displaced
  cases found : middle.states.find? (makeKey input).1 with
  | some state =>
    simp only [found, Option.map_some, Option.ite_none_right_eq_some, Option.some.injEq,
      Prod.mk.injEq] at displaced
    obtain ⟨reused, rfl, rfl⟩ := displaced
    refine closes_of_emit moved working.queued found (called.trans ?_)
    simp only [assign, working.pendingInput, eligible, found, reused]
    rfl
  | none =>
    simp only [found, Option.map_none, Option.ite_none_right_eq_some, Option.map_eq_some_iff,
      Prod.mk.injEq] at displaced
    obtain ⟨full, victim, chosen, rfl, rfl⟩ := displaced
    rw [size_sessionizer] at full
    obtain ⟨first, start⟩ := exists_first?_of_full full
    obtain ⟨last, evicted, state, returned, settled, further, named, located⟩ :=
      evictable_queued working.queued input.interfaceId start
    obtain rfl : evicted = victim := Option.some.inj (named.symm.trans chosen)
    refine closes_of_emit (moved.trans further) settled located (called.trans ?_)
    simp only [assign, working.pendingInput, eligible, found, returned, ok_bind]
    exact if_pos full

/-- A packet that displaces no session is accounted for in its own, opened if need be. -/
theorem Serving.next_charge (serving : self.Serving input late)
    (none : front? (self.sessionizer.overdue input.interfaceId) = none)
    (eligible : input.eligible = true) (settled : self.sessionizer.displaced input = Option.none)
    : ∃ middle state, self.next = middle.charge (makeKey input).1 state (makeKey input).2
      ∧ middle.Serving input late ∧ self.Requeues middle
      ∧ middle.Holds (makeKey input).1 state
      ∧ state.toSession = (self.sessionizer.sessions.find? (makeKey input).1).getD
          (Session.open (makeKey input).1 (makeKey input).2 input.sectionNumber input) := by
  obtain ⟨middle, called, working, moved⟩ := serving.next_assign none
  have home : ∃ scope, middle.scopes.find? (makeKey input).1.interfaceId = some scope :=
    working.home
  rw [← moved.view] at settled ⊢
  simp only [Sessionizer.displaced, find?_sessionizer] at settled
  rw [find?_sessionizer]
  cases found : middle.states.find? (makeKey input).1 with
  | some state =>
    simp only [found, Option.map_some, ite_eq_right_iff, reduceCtorEq, imp_false] at settled
    refine ⟨middle, state, called.trans ?_, working, moved, working.queued.holds found home, rfl⟩
    simp only [assign, working.pendingInput, eligible, found, settled]
    rfl
  | none =>
    simp only [found, Option.map_none, ite_eq_right_iff, Option.map_eq_none_iff] at settled
    have room : ¬middle.limits.maxFlows ≤ middle.states.size := by
      intro full
      obtain ⟨first, start⟩ := exists_first?_of_full full
      obtain ⟨_, victim, _, _, _, _, chosen, _⟩ :=
        evictable_queued working.queued input.interfaceId start
      simp [settled (by rw [size_sessionizer]; exact full)] at chosen
    refine ⟨middle, { toSession := .open _ _ input.sectionNumber input }, called.trans ?_,
      working, moved, working.queued.holds_fresh found rfl home, rfl⟩
    simp only [assign, working.pendingInput, eligible, found, if_neg room, working.sectionNumber]
    rfl

end FlowAggregator

end PacketQuapture.Flow
