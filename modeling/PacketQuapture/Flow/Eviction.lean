import PacketQuapture.Flow.Expiry

/-! Reading the front of a lazy queue: once refreshed, it is the session that truly expires
first. From it, the session the aggregator gives up when its table is full is the one the
sessionizer names.
-/

namespace PacketQuapture.Flow

open Library

namespace FlowAggregator

variable {self : FlowAggregator} {interfaceId : UInt32} {key : SessionKey} {state : State}
variable {scope : Scope}

/-- Only queue entries moved: the sessions and clocks are the same. -/
structure Requeues (before after : FlowAggregator) : Prop where
  control : before.SameControl after
  view : after.sessionizer = before.sessionizer

theorem Requeues.refl (self : FlowAggregator) : self.Requeues self := ⟨rfl, rfl⟩

theorem Requeues.trans {first second third : FlowAggregator} (left : first.Requeues second)
    (right : second.Requeues third)
    : first.Requeues third :=
  ⟨left.control.trans right.control, right.view.trans left.view⟩

theorem places_eq_some_iff {place : Int × Int}
    : self.places interfaceId key = some place
      ↔ key.interfaceId = interfaceId
        ∧ ∃ state, self.states.find? key = some state ∧ state.place = some place := by
  simp only [places]
  split
  case isTrue home => simp [home, Option.bind_eq_some_iff]
  case isFalse elsewhere => simp [elsewhere]

theorem place_eq_some_iff {time deadline : Int}
    : state.place = some (time, deadline)
      ↔ state.scheduled = true ∧ state.queued = time ∧ state.deadline = deadline := by
  simp [State.place]

/-- The exact deadlines of an interface are those of the sessionizer.
Witness: a session is scheduled exactly when it has a deadline.
-/
theorem Queued.exact (queued : self.Queued) (interfaceId : UInt32)
    : Exact (self.sessionizer.waitingOn interfaceId) (self.places interfaceId) := by
  intro deadline key
  simp only [Sessionizer.mem_waitingOn, Sessionizer.mem_waiting, sessionizer,
    OrderedMap.find?_mapValues, Option.map_eq_some_iff, places_eq_some_iff]
  refine ⟨?_, ?_⟩
  · intro waiting
    obtain ⟨⟨session, ⟨state, found, rfl⟩, due⟩, home⟩ := waiting
    have timely := queued.timely key state found
    rw [due, Option.map_eq_some_iff] at timely
    obtain ⟨⟨time, later⟩, place, rfl⟩ := timely
    exact ⟨time, home, state, found, place⟩
  · intro placed
    obtain ⟨time, home, state, found, place⟩ := placed
    refine ⟨⟨_, ⟨state, found, rfl⟩, ?_⟩, home⟩
    rw [← queued.timely key state found, place]
    rfl

/-- Moving a session's entry to its deadline changes nothing but the queue. -/
theorem Queued.move (queued : self.Queued) (found : self.states.find? key = some state)
    (scheduled : state.scheduled = true) (present : self.scopes.find? key.interfaceId = some scope)
    : ((self.putScope key.interfaceId { scope with
          expiry := insert (toLex (state.deadline, key))
            (scope.expiry.erase (toLex (state.queued, key))) }).putState key
        { state with queued := state.deadline }).Queued := by
  have placed : (self.putState key state).Placed := (putState_eq_self found).symm ▸ queued.toPlaced
  have known : (self.putState key state).places key.interfaceId key
      = some (state.queued, state.deadline) :=
    (places_putState_self ..).trans (place_eq_some_iff.mpr ⟨scheduled, rfl, rfl⟩)
  have moved := (placed.lags key.interfaceId scope present).requeue known
  refine ⟨placed.exchange present (queued.keyed key state found) ?_, ?_⟩
  · simpa only [State.place, scheduled, if_true] using moved
  · intro other stored located
    rcases OrderedMap.find?_insert_eq_some located with ⟨rfl, rfl⟩ | ⟨_, located⟩
    · have timely := queued.timely other state found
      rw [State.place, if_pos scheduled] at timely ⊢
      exact timely
    · exact queued.timely other stored located

theorem requeues_move (found : self.states.find? key = some state)
    (present : self.scopes.find? key.interfaceId = some scope) (queue : Finset (Int ×ₗ SessionKey))
    (queued : Int)
    : self.Requeues ((self.putScope key.interfaceId { scope with expiry := queue }).putState key
        { state with queued }) := by
  refine ⟨rfl, ?_⟩
  have sessions : (self.states.insert key { state with queued }).mapValues State.toSession
      = self.states.mapValues State.toSession := by
    rw [OrderedMap.mapValues_insert]
    refine OrderedMap.insert_eq_self ?_
    rw [OrderedMap.find?_mapValues, found]
    rfl
  simp only [sessionizer, putState, clocks_putScope present queue]
  simp only [putScope, sessions]
  rfl

/-- Refreshing a queue returns with the least exact deadline at its front.
Witness: the loop moves a stale entry to its deadline, which leaves fewer stale entries.
-/
theorem refreshLoop_queued {fuel : Nat} (queued : self.Queued)
    (present : self.scopes.find? interfaceId = some scope)
    (enough : (stale scope.expiry (self.places interfaceId)).card < fuel)
    : ∃ after refreshed, refreshLoop fuel interfaceId self = .ok after ∧ after.Queued
      ∧ self.Requeues after ∧ after.scopes.find? interfaceId = some refreshed
      ∧ front? refreshed.expiry = front? (self.sessionizer.waitingOn interfaceId) := by
  induction fuel generalizing self scope with
  | zero => omega
  | succ fuel ih =>
    have lags := queued.lags interfaceId scope present
    simp only [refreshLoop, scopeAt_eq_ok present, ok_bind]
    cases front : front? scope.expiry with
    | none =>
      refine ⟨self, scope, rfl, queued, .refl self, present, ?_⟩
      rw [front, eq_comm, front?_eq_none_iff]
      exact (lags.exact_eq_empty_iff (queued.exact interfaceId)).mpr
        (front?_eq_none_iff.mp front)
    | some entry =>
      obtain ⟨⟨time, key⟩, rfl⟩ : ∃ pair, toLex pair = entry := ⟨ofLex entry, rfl⟩
      have member := (front?_eq_some_iff.mp front).1
      obtain ⟨deadline, known⟩ := (lags.entry_iff time key).mp member
      obtain ⟨rfl, state, found, place⟩ := places_eq_some_iff.mp known
      obtain ⟨scheduled, rfl, rfl⟩ := place_eq_some_iff.mp place
      simp only [ofLex_toLex, found]
      rw [require_eq_ok _ scheduled, ok_bind, require_eq_ok _ trivial, ok_bind]
      by_cases current : state.deadline = state.queued
      · refine ⟨self, scope, if_pos current, queued, .refl self, present, ?_⟩
        rw [front, lags.front_exact (queued.exact key.interfaceId) front (current ▸ known)]
      · have late := lt_of_le_of_ne (lags.early _ _ _ known) (Ne.symm current)
        have fewer := lags.stale_requeue known (Ne.symm current)
        obtain ⟨after, refreshed, returned, settled, moved, located, least⟩ :=
          ih (queued.move found scheduled present) (OrderedMap.find?_insert_self ..) (by
            rw [places_putState]
            simp only [State.place, scheduled, if_true]
            exact lt_of_lt_of_le fewer (Nat.lt_succ_iff.mp enough))
        have begun := requeues_move found present
          (insert (toLex (state.deadline, key)) (scope.expiry.erase (toLex (state.queued, key))))
          state.deadline
        refine ⟨after, refreshed, (if_neg current).trans ?_, settled, begun.trans moved, located,
          begun.view ▸ least⟩
        exact (congrArg (· >>= _) (require_eq_ok _ late)).trans returned

theorem refresh_queued (queued : self.Queued) (present : self.scopes.find? interfaceId = some scope)
    : ∃ after refreshed, self.refresh interfaceId = .ok after ∧ after.Queued
      ∧ self.Requeues after ∧ after.scopes.find? interfaceId = some refreshed
      ∧ front? refreshed.expiry = front? (self.sessionizer.waitingOn interfaceId) := by
  simp only [refresh, scopeAt_eq_ok present, ok_bind]
  exact refreshLoop_queued queued present (Nat.lt_succ_of_le (Finset.card_filter_le _ _))

theorem refreshedFront_queued (queued : self.Queued)
    (present : self.scopes.find? interfaceId = some scope)
    : ∃ after, self.refreshedFront interfaceId
        = .ok (after, front? (self.sessionizer.waitingOn interfaceId))
      ∧ after.Queued ∧ self.Requeues after := by
  obtain ⟨after, refreshed, returned, settled, moved, located, least⟩ :=
    refresh_queued queued present
  refine ⟨after, ?_, settled, moved⟩
  simp only [refreshedFront, returned, ok_bind, scopeAt_eq_ok located, least]

/-- The lesser of two fronts is the front of the union. -/
theorem sooner_front? (left right : Finset (Int ×ₗ SessionKey))
    : sooner (front? left) (front? right) = front? (left ∪ right) := by
  cases leftFront : front? left with
  | none =>
    rw [front?_eq_none_iff.mp leftFront, Finset.empty_union]
    cases front? right <;> rfl
  | some least =>
    obtain ⟨member, below⟩ := front?_eq_some_iff.mp leftFront
    cases rightFront : front? right with
    | none =>
      rw [front?_eq_none_iff.mp rightFront, Finset.union_empty, leftFront]
      rfl
    | some entry =>
      obtain ⟨held, under⟩ := front?_eq_some_iff.mp rightFront
      simp only [sooner]
      split
      case isTrue smaller =>
        refine (front?_eq_some_iff.mpr ⟨Finset.mem_union_right _ held, ?_⟩).symm
        intro other found
        rcases Finset.mem_union.mp found with first | second
        · exact smaller.le.trans (below other first)
        · exact under other second
      case isFalse larger =>
        refine (front?_eq_some_iff.mpr ⟨Finset.mem_union_left _ member, ?_⟩).symm
        intro other found
        rcases Finset.mem_union.mp found with first | second
        · exact below other first
        · exact (not_lt.mp larger).trans (under other second)

/-- The loop over the scopes finds the least exact deadline of all of them.
Witness: each scope adds its own exact deadlines to those already compared.
-/
theorem soonestOf_queued (queued : self.Queued) {ids : List UInt32}
    (present : ∀ id ∈ ids, ∃ scope, self.scopes.find? id = some scope)
    (seen : Finset (Int ×ₗ SessionKey))
    : ∃ after, self.soonestOf (front? seen) ids
        = .ok (after, front? (seen ∪ ids.toFinset.biUnion self.sessionizer.waitingOn))
      ∧ after.Queued ∧ self.Requeues after := by
  induction ids generalizing self seen with
  | nil => exact ⟨self, by simp [soonestOf], queued, .refl self⟩
  | cons id rest ih =>
    obtain ⟨scope, located⟩ := present id (by simp)
    obtain ⟨middle, front, settled, moved⟩ := refreshedFront_queued queued located
    have remaining : ∀ other ∈ rest, ∃ scope, middle.scopes.find? other = some scope := by
      intro other member
      obtain ⟨scope, located⟩ := present other (by simp [member])
      have clocks := congrArg (fun view => (view.clocks.find? other).isSome) moved.view
      simp only [sessionizer, OrderedMap.find?_mapValues, Option.isSome_map, located] at clocks
      exact Option.isSome_iff_exists.mp clocks
    obtain ⟨after, returned, kept, later⟩ :=
      ih settled remaining (seen ∪ self.sessionizer.waitingOn id)
    refine ⟨after, ?_, kept, moved.trans later⟩
    simp only [soonestOf, front, ok_bind, sooner_front?, returned, moved.view]
    simp only [List.toFinset_cons, Finset.biUnion_insert, Finset.union_assoc]

theorem Queued.of_waiting (queued : self.Queued) {entry : Int ×ₗ SessionKey}
    (member : entry ∈ self.sessionizer.waiting)
    : (∃ state, self.states.find? (ofLex entry).2 = some state)
      ∧ ∃ scope, self.scopes.find? (ofLex entry).2.interfaceId = some scope := by
  have here : toLex ((ofLex entry).1, (ofLex entry).2)
      ∈ self.sessionizer.waitingOn (ofLex entry).2.interfaceId :=
    Sessionizer.mem_waitingOn.mpr ⟨member, rfl⟩
  obtain ⟨time, placed⟩ := (queued.exact _ _ _).mp here
  obtain ⟨_, state, found, place⟩ := places_eq_some_iff.mp placed
  exact ⟨⟨state, found⟩, queued.homed _ state found (place_eq_some_iff.mp place).1⟩

theorem Queued.biUnion_waitingOn (queued : self.Queued)
    : (self.scopes.entries.map Prod.fst).toFinset.biUnion self.sessionizer.waitingOn
      = self.sessionizer.waiting := by
  ext entry
  simp only [Finset.mem_biUnion, List.mem_toFinset]
  refine ⟨?_, ?_⟩
  · intro held
    obtain ⟨_, _, waiting⟩ := held
    exact Finset.mem_of_mem_filter entry waiting
  · intro waiting
    obtain ⟨_, scope, present⟩ := queued.of_waiting waiting
    refine ⟨(ofLex entry).2.interfaceId, ?_, Finset.mem_filter.mpr ⟨waiting, rfl⟩⟩
    exact List.mem_map.mpr ⟨_, OrderedMap.find?_eq_some_iff.mp present, rfl⟩

theorem Queued.hasQueued_iff (queued : self.Queued) (interfaceId : UInt32)
    : self.hasQueued interfaceId = true ↔ front? (self.sessionizer.waitingOn interfaceId) ≠ none := by
  simp only [hasQueued, ne_eq, front?_eq_none_iff]
  cases present : self.scopes.find? interfaceId with
  | none =>
    have vacant : self.sessionizer.waitingOn interfaceId = ∅ := by
      refine Finset.eq_empty_of_forall_notMem fun entry member => ?_
      obtain ⟨waiting, rfl⟩ := Finset.mem_filter.mp member
      obtain ⟨_, scope, located⟩ := queued.of_waiting waiting
      simp [present] at located
    simp [vacant]
  | some scope =>
    have empty := (queued.lags interfaceId scope present).exact_eq_empty_iff
      (queued.exact interfaceId)
    simp only [empty, decide_eq_true_eq, Finset.nonempty_iff_ne_empty, ne_eq]

theorem first?_sessionizer (self : FlowAggregator)
    : self.sessionizer.sessions.first?.map Prod.fst = self.states.first?.map Prod.fst := by
  simp only [sessionizer, OrderedMap.first?_mapValues, Option.map_map]
  rfl

/-- The soonest session is the least exact deadline, of the interface or of all. -/
theorem soonest_queued (queued : self.Queued) (interfaceId : UInt32)
    : ∃ after, self.soonest interfaceId
        = .ok (after, (front? (self.sessionizer.waitingOn interfaceId)).or
          (front? self.sessionizer.waiting))
      ∧ after.Queued ∧ self.Requeues after := by
  simp only [soonest]
  cases least : front? (self.sessionizer.waitingOn interfaceId) with
  | some entry =>
    have near := (queued.hasQueued_iff interfaceId).mpr (by simp [least])
    have member := Finset.mem_filter.mp (front?_eq_some_iff.mp least).1
    obtain ⟨_, scope, located⟩ := queued.of_waiting member.1
    rw [if_pos near, Option.some_or, ← least]
    exact refreshedFront_queued queued (member.2 ▸ located)
  | none =>
    have far : ¬self.hasQueued interfaceId = true := fun near =>
      (queued.hasQueued_iff interfaceId).mp near least
    have scopes : ∀ id ∈ self.scopes.entries.map Prod.fst,
        ∃ scope, self.scopes.find? id = some scope := by
      intro id member
      obtain ⟨⟨_, scope⟩, stored, rfl⟩ := List.mem_map.mp member
      exact ⟨scope, OrderedMap.find?_eq_some_iff.mpr stored⟩
    have vacant : front? (∅ : Finset (Int ×ₗ SessionKey)) = none := front?_eq_none_iff.mpr rfl
    have looped := soonestOf_queued queued scopes ∅
    rw [vacant, Finset.empty_union, queued.biUnion_waitingOn] at looped
    rwa [if_neg far, Option.none_or]

theorem mem_waiting_of_soonest {self : Sessionizer} {entry : Int ×ₗ SessionKey}
    (least : (front? (self.waitingOn interfaceId)).or (front? self.waiting) = some entry)
    : entry ∈ self.waiting := by
  rcases Option.or_eq_some_iff.mp least with near | far
  · exact (Finset.mem_filter.mp (front?_eq_some_iff.mp near).1).1
  · exact (front?_eq_some_iff.mp far.2).1

/-- The session given up for a packet is the one the sessionizer names. -/
theorem evictable_queued (queued : self.Queued) (interfaceId : UInt32) {first : SessionKey × State}
    (nonempty : self.states.first? = some first)
    : ∃ after key state, self.evictable interfaceId = .ok (after, key) ∧ after.Queued
      ∧ self.Requeues after ∧ self.sessionizer.victim interfaceId = some key
      ∧ after.states.find? key = some state := by
  obtain ⟨after, returned, settled, moved⟩ := soonest_queued queued interfaceId
  have asserted : (require (self.states.first?.isSome) (.assertion .evictable)
      : Except Failure Unit) = .ok () :=
    require_eq_ok _ (by simp [nonempty])
  cases least : (front? (self.sessionizer.waitingOn interfaceId)).or
      (front? self.sessionizer.waiting) with
  | none =>
    -- no session can expire, so the first in key order is given up
    obtain ⟨far, away⟩ := Option.or_eq_none_iff.mp least
    have firsts : self.states.first?.map Prod.fst = after.states.first?.map Prod.fst := by
      rw [← first?_sessionizer, ← first?_sessionizer, moved.view]
    rw [nonempty, Option.map_some, eq_comm, Option.map_eq_some_iff] at firsts
    obtain ⟨⟨key, state⟩, start, same⟩ := firsts
    refine ⟨after, key, state, ?_, settled, moved, ?_, OrderedMap.find?_of_first? start⟩
    · simp only [evictable, asserted, returned, least, start, ok_bind]
    · simp only [Sessionizer.victim, far, away, first?_sessionizer, nonempty, Option.map_some]
      exact congrArg some same.symm
  | some entry =>
    have waiting := mem_waiting_of_soonest least
    obtain ⟨⟨state, found⟩, _⟩ := settled.of_waiting (moved.view ▸ waiting)
    refine ⟨after, (ofLex entry).2, state, ?_, settled, moved, ?_, found⟩
    · simp only [evictable, asserted, returned, least, ok_bind]
      rw [require_eq_ok _ (by simp [found]), ok_bind]
    · rcases Option.or_eq_some_iff.mp least with near | far
      · simp only [Sessionizer.victim, near]
      · simp only [Sessionizer.victim, far.1, far.2]

/-- Emitting a session takes it off the table and off its queue. -/
theorem emit_queued (queued : self.Queued) (found : self.states.find? key = some state)
    (reason : FinalizedBy)
    : ∃ after, self.emit key reason = .ok (after, some { state.row with finalizedBy := reason })
      ∧ after.Queued ∧ self.SameControl after
      ∧ after.sessionizer
        = { self.sessionizer with sessions := self.sessionizer.sessions.erase key } := by
  have placed : (self.putState key state).Placed := (putState_eq_self found).symm ▸ queued.toPlaced
  obtain ⟨middle, returned, rescoped, kept⟩ := unschedule_placed placed
  refine ⟨middle.eraseState key, ?_, ⟨kept.eraseState rfl, ?_⟩, ?_, ?_⟩
  · simp only [emit, found, returned, ok_bind]
  · intro other stored located
    obtain ⟨_, located⟩ := OrderedMap.find?_erase_eq_some located
    rw [rescoped.states] at located
    have limits : middle.limits = self.limits := by rw [rescoped.control]
    simp only [eraseState, limits]
    exact queued.timely other stored located
  · exact rescoped.control.trans rfl
  · have control := rescoped.control
    simp only [sessionizer, eraseState, OrderedMap.mapValues_erase, rescoped.states,
      rescoped.clocks]
    rw [control]

end FlowAggregator

end PacketQuapture.Flow
