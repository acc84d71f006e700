import PacketQuapture.Flow.Recording

/-! The lazily expiring aggregator emits the rows of the sessionizer.
Every record drains to the rows the sessionizer emits for it, in the same order, and leaves an
aggregator that stands for the sessionizer after the record; a raised failure is the same
failure. Whole scans follow by induction on the records.
-/

namespace PacketQuapture.Flow

open Library

variable {input : FlowInput}

namespace Sessionizer

theorem closeAll_frame (self : Sessionizer) (reason : FinalizedBy) (keys : List SessionKey)
    : (self.closeAll reason keys).1
      = { self with sessions := (self.closeAll reason keys).1.sessions } := by
  induction keys generalizing self with
  | nil => rfl
  | cons key rest ih =>
    simp only [closeAll]
    rw [ih]
    simp only [close]
    split <;> rfl

theorem victim_ne_none {self : Sessionizer} {interfaceId : UInt32}
    (nonempty : self.sessions.first? ≠ none)
    : self.victim interfaceId ≠ none := by
  simp only [victim]
  split
  · simp
  · split
    · simp
    · simpa using nonempty

theorem victim_of_full {self : Sessionizer} (full : self.limits.maxFlows ≤ self.sessions.size)
    (interfaceId : UInt32)
    : self.victim interfaceId ≠ none := by
  refine victim_ne_none fun empty => ?_
  rw [OrderedMap.first?_eq_none_iff.mp empty] at full
  exact self.limits.someFlows (Nat.le_zero.mp full)

theorem room_of_displaced_none {self : Sessionizer} (settled : self.displaced input = none)
    (fresh : self.sessions.find? (makeKey input).1 = none)
    : self.sessions.size < self.limits.maxFlows := by
  by_contra full
  simp only [displaced, fresh, not_lt.mp full, if_true, Option.map_eq_none_iff] at settled
  exact victim_of_full (not_lt.mp full) input.interfaceId settled

/-- One session at most makes way for a packet.
Witness: a reused tuple leaves its own key free, and any session gone leaves room.
-/
theorem displaced_erase {self : Sessionizer} {reason : FinalizedBy} {key : SessionKey}
    {session : Session} (bounded : self.sessions.size ≤ self.limits.maxFlows)
    (displaced : self.displaced input = some (reason, key))
    (found : self.sessions.find? key = some session)
    : { self with sessions := self.sessions.erase key }.displaced input = none := by
  have smaller := OrderedMap.size_erase found
  have absent : (self.sessions.erase key).find? (makeKey input).1 = none := by
    simp only [Sessionizer.displaced] at displaced
    rw [OrderedMap.find?_erase]
    split at displaced
    · simp only [Option.ite_none_right_eq_some, Option.some.injEq, Prod.mk.injEq] at displaced
      rw [if_pos displaced.2.2]
    case h_2 fresh => rw [fresh, ite_self]
  have room : ¬self.limits.maxFlows ≤ (self.sessions.erase key).size := by omega
  simp only [Sessionizer.displaced, absent, if_neg room]

end Sessionizer

namespace FlowAggregator

variable {self : FlowAggregator} {expected : List FlowSummary × Except Failure Sessionizer}
variable {late : Bool}

/-- Between two records: nothing is pending, the table is within its limit, and it is empty
until a record names a section.
-/
structure Idle (aggregator : FlowAggregator) : Prop where
  queued : aggregator.Queued
  running : aggregator.finishing = false
  pending : aggregator.pending = false
  bounded : aggregator.states.size ≤ aggregator.limits.maxFlows
  sectioned : aggregator.haveSection = true ∨ aggregator.states = .empty

/-- Both emit the same rows, and raise the same failure or end with the same sessions. -/
inductive Agrees : List FlowSummary × Except Failure FlowAggregator →
    List FlowSummary × Except Failure Sessionizer → Prop where
  | raises (rows : List FlowSummary) (failure : Failure)
      : Agrees (rows, .error failure) (rows, .error failure)
  | returns (rows : List FlowSummary) {after : FlowAggregator} (idle : after.Idle)
      : Agrees (rows, .ok after) (rows, .ok after.sessionizer)

theorem Agrees.after {outcome : List FlowSummary × Except Failure FlowAggregator}
    (agrees : Agrees outcome expected) (rows : List FlowSummary)
    : Agrees (rows ++ outcome.1, outcome.2) (rows ++ expected.1, expected.2) := by
  cases agrees with
  | raises more failure => exact .raises (rows ++ more) failure
  | returns more idle => exact .returns (rows ++ more) idle

/-- The calls emit the expected rows, and the next one ends as expected. -/
def Drains (self : FlowAggregator) (expected : List FlowSummary × Except Failure Sessionizer)
    : Prop :=
  ∃ middle, Emits self expected.1 middle
    ∧ match expected.2 with
      | .error failure => middle.next = .error failure
      | .ok next => ∃ after, middle.next = .ok (after, none) ∧ after.Idle
        ∧ after.sessionizer = next

theorem Drains.after {middle : FlowAggregator} {first rows : List FlowSummary}
    {ended : Except Failure Sessionizer} (emits : Emits self first middle)
    (drains : middle.Drains (rows, ended))
    : self.Drains (first ++ rows, ended) := by
  obtain ⟨last, more, final⟩ := drains
  exact ⟨last, emits.trans more, final⟩

theorem Drains.of_next_eq {other : FlowAggregator} (same : self.next = other.next)
    (lighter : other.weight ≤ self.weight) (drains : other.Drains expected)
    : self.Drains expected := by
  obtain ⟨last, emits, final⟩ := drains
  obtain ⟨start, begun, alike⟩ := Emits.of_next_eq same lighter emits
  exact ⟨start, begun, alike ▸ final⟩

theorem Drains.agrees (drains : self.Drains expected)
    : Agrees self.drain expected := by
  obtain ⟨rows, ended⟩ := expected
  obtain ⟨middle, emits, final⟩ := drains
  cases ended with
  | error failure =>
    rw [emits.drain_raises final]
    exact .raises rows failure
  | ok next =>
    obtain ⟨after, called, idle, view⟩ := final
    rw [emits.drain_returns called, ← view]
    exact .returns rows idle

/-- The calls free the packet's place as the sessionizer does. -/
theorem Serving.emits_makeWay (serving : self.Serving input late)
    (swept : front? (self.sessionizer.overdue input.interfaceId) = none)
    (eligible : input.eligible = true) (bounded : self.states.size ≤ self.limits.maxFlows)
    : ∃ after, Emits self (self.sessionizer.makeWay input).2 after
      ∧ after.sessionizer = (self.sessionizer.makeWay input).1 ∧ after.Serving input late
      ∧ front? (after.sessionizer.overdue input.interfaceId) = none
      ∧ after.sessionizer.displaced input = none
      ∧ after.states.size ≤ after.limits.maxFlows := by
  simp only [Sessionizer.makeWay]
  cases displaced : self.sessionizer.displaced input with
  | none => exact ⟨self, .done self, rfl, serving, swept, displaced, bounded⟩
  | some pair =>
    obtain ⟨reason, key⟩ := pair
    obtain ⟨after, closes⟩ := serving.closes_displaced swept eligible displaced
    obtain ⟨emits, view⟩ := closes.emits
    obtain ⟨session, found, _⟩ := closes.emitted
    have limits : after.limits = self.limits := by rw [closes.control]
    have smaller := OrderedMap.size_erase found
    have size := congrArg (fun state => state.sessions.size) closes.view
    simp only [size_sessionizer] at smaller size
    refine ⟨after, emits, view, serving.carry closes.queued closes.control (by rw [closes.view]),
      ?_, ?_, by rw [limits]; omega⟩
    · rw [closes.view, front?_eq_none_iff, overdue_eraseKey, front?_eq_none_iff.mp swept,
        Finset.filter_empty]
    · rw [closes.view]
      exact Sessionizer.displaced_erase (by rw [size_sessionizer]; exact bounded) displaced found

theorem size_insert_le {self : Sessionizer} {session : Session}
    (bounded : self.sessions.size ≤ self.limits.maxFlows) (settled : self.displaced input = none)
    : (self.sessions.insert (makeKey input).1 session).size ≤ self.limits.maxFlows := by
  rw [OrderedMap.size_insert]
  cases found : self.sessions.find? (makeKey input).1 with
  | some former =>
    have smaller := OrderedMap.size_erase found
    omega
  | none =>
    have room := Sessionizer.room_of_displaced_none settled found
    rw [OrderedMap.erase_eq_self found]
    exact room

theorem Idle.next_eq (idle : self.Idle)
    : self.next = .ok (self, none) := by
  simp only [next, idle.running, idle.pending, Bool.false_eq_true, if_false, Bool.not_false, if_true]

/-- The next call is the last on its record: it raises, or leaves the aggregator idle. -/
inductive Settles (self : FlowAggregator)
    : List FlowSummary × Except Failure Sessionizer → Prop where
  | raises {failure : Failure} (called : self.next = .error failure)
      (cause : failure = .counterOverflow) : Settles self ([], .error failure)
  | returns {after : FlowAggregator} {row : Option FlowSummary}
      (called : self.next = .ok (after, row)) (idle : after.Idle)
      (frozen : after.limits = self.limits) (lighter : row.isSome → after.weight < self.weight)
      : Settles self (row.toList, .ok after.sessionizer)

theorem Settles.drains (settles : self.Settles expected)
    : self.Drains expected := by
  cases settles with
  | raises called => exact ⟨self, .done self, called⟩
  | @returns after row called idle _ lighter =>
    cases row with
    | none => exact ⟨self, .done self, after, called, idle, rfl⟩
    | some row => exact ⟨after, .row called (lighter rfl) (.done after), after, idle.next_eq, idle, rfl⟩

theorem Serving.settles_ineligible (serving : self.Serving input late)
    (swept : front? (self.sessionizer.overdue input.interfaceId) = none)
    (ineligible : input.eligible = false) (bounded : self.states.size ≤ self.limits.maxFlows)
    : self.Settles ([], .ok self.sessionizer) := by
  obtain ⟨middle, called, queued, moved⟩ := serving.next_ineligible swept ineligible
  have size := congrArg (fun state => state.sessions.size) moved.view
  simp only [size_sessionizer] at size
  have frozen : middle.limits = self.limits := by rw [moved.control]
  have served := serving.requeues queued moved
  have idle : middle.settle.Idle :=
    ⟨queued.congr rfl rfl rfl, served.running, rfl, frozen ▸ size ▸ bounded, .inl served.haveSection⟩
  have same : middle.settle.sessionizer = self.sessionizer := moved.view
  rw [← same]
  exact .returns called idle frozen (by simp)

/-- The last call on an eligible packet accounts for it as the sessionizer does. -/
theorem Serving.settles_charge (serving : self.Serving input late)
    (swept : front? (self.sessionizer.overdue input.interfaceId) = none)
    (eligible : input.eligible = true) (settled : self.sessionizer.displaced input = none)
    (bounded : self.states.size ≤ self.limits.maxFlows)
    : self.Settles (self.sessionizer.charge input late) := by
  obtain ⟨middle, state, called, working, moved, holds, session⟩ :=
    serving.next_charge swept eligible settled
  simp only [Sessionizer.charge, ← session]
  cases accounted : state.toSession.account input (makeKey input).2 late with
  | error failure =>
    have cause := state.toSession.account_ensures input (makeKey input).2 late
    rw [accounted] at cause
    refine .raises (called.trans ?_) cause
    simp only [charge, working.pendingInput, working.late, accounted]
    rfl
  | ok next =>
    obtain ⟨kept, stored, queued, control, view, found, same, charged⟩ :=
      charge_eq working.queued holds
        (by rw [working.pendingInput, working.late]; exact accounted)
    rw [moved.view] at view
    have limits : kept.limits = self.limits := by
      rw [control, settle, moved.control]
    have size : kept.states.size ≤ kept.limits.maxFlows := by
      have stays : (self.sessionizer.sessions.insert (makeKey input).1 next).size
          ≤ self.limits.maxFlows :=
        size_insert_le (by rw [size_sessionizer]; exact bounded) settled
      rw [limits, ← size_sessionizer, view]
      exact stays
    have idle : kept.Idle :=
      ⟨queued, by rw [control]; exact working.running, by rw [control]; rfl, size,
        .inl (by rw [control]; exact working.haveSection)⟩
    dsimp only
    by_cases reset : next.row.resetSeen = true
    · obtain ⟨after, returned, emptied, frame, closed⟩ := emit_queued queued found .reset
      rw [if_pos reset] at charged ⊢
      have left : after.states.size = (self.sessionizer.sessions.erase (makeKey input).1).size := by
        rw [← size_sessionizer, closed, view]
        exact congrArg OrderedMap.size (OrderedMap.erase_insert ..)
      have least := self.sessionizer.sessions.size_erase_le (makeKey input).1
      rw [size_sessionizer] at least
      have pending : after.pending = false := by rw [frame]; exact idle.pending
      have lighter : after.weight < self.weight := by
        simp only [weight, pending, serving.pending, Bool.false_eq_true, if_false, if_true]
        omega
      have frozen : after.limits = self.limits := by rw [frame]; exact limits
      have ended : after.Idle :=
        ⟨emptied, by rw [frame]; exact idle.running, pending, by rw [frozen]; omega,
          .inl (by rw [frame, control]; exact working.haveSection)⟩
      rw [view] at closed
      simp only [Sessionizer.close, OrderedMap.find?_insert_self]
      rw [← closed, ← same]
      exact .returns (called.trans (charged.trans returned)) ended frozen fun _ => lighter
    · rw [if_neg reset] at charged ⊢
      rw [← view]
      exact .returns (called.trans charged) idle limits (by simp)

/-! ### One record -/

theorem Queued.of_empty (states : self.states = .empty) (scopes : self.scopes = .empty)
    : self.Queued := by
  refine ⟨⟨?_, ?_, ?_⟩, ?_⟩
  · intro key state found
    simp [states] at found
  · intro interfaceId scope present
    simp [scopes] at present
  · intro key state found
    simp [states] at found
  · intro key state found
    simp [states] at found

/-- A record was pushed, and no call has worked on it yet. -/
structure Pushed (aggregator : FlowAggregator) (input : FlowInput) : Prop where
  queued : aggregator.Queued
  running : aggregator.finishing = false
  pending : aggregator.pending = true
  pendingInput : aggregator.pendingInput = input
  prepared : aggregator.prepared = false

theorem Idle.pushed (idle : self.Idle) (input : FlowInput)
    : (self.accept input).Pushed input :=
  ⟨idle.queued.congr rfl rfl rfl, idle.running, rfl, rfl, rfl⟩

theorem Pushed.carry {after : FlowAggregator} (pushed : self.Pushed input) (queued : after.Queued)
    (control : self.SameControl after)
    : after.Pushed input := by
  refine ⟨queued, ?_, ?_, ?_, ?_⟩
  · rw [control]; exact pushed.running
  · rw [control]; exact pushed.pending
  · rw [control]; exact pushed.pendingInput
  · rw [control]; exact pushed.prepared

theorem Pushed.enters (pushed : self.Pushed input)
    (same : ¬(self.haveSection = true ∧ self.sectionNumber ≠ input.sectionNumber))
    : self.next = (self.enterSection input.sectionNumber).serve
      ∧ (self.enterSection input.sectionNumber).Entered input
      ∧ (self.enterSection input.sectionNumber).sessionizer
        = (self.sessionizer.enter input.sectionNumber).1
      ∧ (self.sessionizer.enter input.sectionNumber).2 = [] := by
  refine ⟨?_, ?_, ?_⟩
  · simp only [next, pushed.running, pushed.pending, pushed.pendingInput, if_neg same,
      Bool.false_eq_true, if_false, Bool.not_true]
  · exact ⟨pushed.queued.congr rfl rfl rfl, pushed.running, pushed.pending, pushed.pendingInput,
      pushed.prepared, rfl, rfl⟩
  · simp only [Sessionizer.enter, sessionizer, enterSection]
    cases known : self.haveSection with
    | false => exact ⟨rfl, rfl⟩
    | true =>
      have current : self.sectionNumber = input.sectionNumber := by
        by_contra distinct
        exact same ⟨known, distinct⟩
      simp [current]

theorem Pushed.closes_first (pushed : self.Pushed input)
    (turned : self.haveSection = true ∧ self.sectionNumber ≠ input.sectionNumber) {key : SessionKey}
    {state : State} (start : self.states.first? = some (key, state))
    : ∃ after, self.Closes .sectionBoundary key after := by
  refine closes_of_emit (.refl self) pushed.queued (OrderedMap.find?_of_first? start) ?_
  simp only [next, pushed.running, pushed.pending, pushed.pendingInput, if_pos turned, start,
    Bool.false_eq_true, if_false, Bool.not_true]

theorem Pushed.clears (pushed : self.Pushed input)
    (turned : self.haveSection = true ∧ self.sectionNumber ≠ input.sectionNumber)
    (empty : self.states = .empty)
    : self.next = (self.clearScopes.enterSection input.sectionNumber).serve
      ∧ (self.clearScopes.enterSection input.sectionNumber).Entered input := by
  refine ⟨?_, .of_empty empty rfl, pushed.running, pushed.pending, pushed.pendingInput,
    pushed.prepared, rfl, rfl⟩
  simp only [next, pushed.running, pushed.pending, pushed.pendingInput, if_pos turned, empty,
    OrderedMap.first?, OrderedMap.empty, List.head?_nil, Bool.false_eq_true, if_false,
    Bool.not_true]

/-- The first record of a new section ends every session, in key order, and every clock. -/
theorem Pushed.turns (pushed : self.Pushed input)
    (turned : self.haveSection = true ∧ self.sectionNumber ≠ input.sectionNumber)
    : ∃ middle : FlowAggregator, Emits self (self.sessionizer.enter input.sectionNumber).2 middle
      ∧ middle.next = (middle.clearScopes.enterSection input.sectionNumber).serve
      ∧ (middle.clearScopes.enterSection input.sectionNumber).Entered input
      ∧ (middle.clearScopes.enterSection input.sectionNumber).sessionizer
        = (self.sessionizer.enter input.sectionNumber).1
      ∧ middle.states = .empty := by
  have away : ∀ middle, self.SameControl middle →
      middle.haveSection = true ∧ middle.sectionNumber ≠ input.sectionNumber := by
    intro middle control
    rw [control]
    exact turned
  obtain ⟨middle, emits, view, settled, control, empty⟩ :=
    emits_keys pushed.queued fun middle key state control settled start =>
      (pushed.carry settled control).closes_first (away middle control) start
  have current : self.sessionizer.currentSection = some self.sectionNumber := if_pos turned.1
  have entering : self.sessionizer.enter input.sectionNumber
      = ({ (self.sessionizer.closeAll .sectionBoundary self.sessionizer.keys).1 with
            clocks := .empty, currentSection := some input.sectionNumber },
        (self.sessionizer.closeAll .sectionBoundary self.sessionizer.keys).2) := by
    simp only [Sessionizer.enter, current, if_neg turned.2]
  obtain ⟨called, entered⟩ := (pushed.carry settled control).clears (away middle control) empty
  rw [entering]
  exact ⟨middle, emits, called, entered, by rw [← view]; rfl, empty⟩

theorem Serving.size_le {after : FlowAggregator} {rows : List FlowSummary}
    (serving : self.Serving input late) (working : after.Serving input late)
    (emits : Emits self rows after)
    : after.states.size ≤ self.states.size := by
  have lighter := emits.weight_le
  simp only [weight, serving.pending, working.pending, if_true] at lighter
  omega

/-- The calls on a record whose clock has moved: expiry first, then the packet. -/
theorem Serving.drains (serving : self.Serving input late)
    (bounded : self.states.size ≤ self.limits.maxFlows)
    : self.Drains (self.sessionizer.serve input late) := by
  obtain ⟨swept, emits, view, working, none⟩ := serving.emits_expired
  have limits : swept.limits = self.limits := by
    have frame := congrArg Sessionizer.limits view
    rw [Sessionizer.closeAll_frame] at frame
    exact frame
  have stays : swept.states.size ≤ swept.limits.maxFlows := by
    rw [limits]
    exact (serving.size_le working emits).trans bounded
  simp only [Sessionizer.serve, ← view]
  cases eligible : input.eligible with
  | false =>
    have last := (working.settles_ineligible none eligible stays).drains
    simpa using Drains.after emits last
  | true =>
    simp only [Bool.not_true, Bool.false_eq_true, if_false]
    refine .after emits ?_
    obtain ⟨ready, more, cleared, able, still, settled, room⟩ :=
      working.emits_makeWay none eligible stays
    simp only [Sessionizer.assign, ← cleared]
    exact .after more (able.settles_charge still eligible settled room).drains

theorem Entered.drains {entered : FlowAggregator} (entering : entered.Entered input)
    (same : self.next = entered.serve) (lighter : entered.weight ≤ self.weight)
    (bounded : entered.states.size ≤ entered.limits.maxFlows)
    : self.Drains (entered.sessionizer.observe input) := by
  simp only [Sessionizer.observe]
  by_cases full : entered.scopes.find? input.interfaceId = none
      ∧ entered.limits.maxScopes ≤ entered.scopes.size
  · obtain ⟨raised, refused⟩ := entering.serve_error full
    rw [refused]
    exact ⟨self, .done self, same.trans raised⟩
  · rw [advance_sessionizer full]
    exact (entering.serving.drains bounded).of_next_eq (same.trans (entering.serve_eq full)) lighter

theorem Pushed.drains (pushed : self.Pushed input)
    (bounded : self.states.size ≤ self.limits.maxFlows) (numbered : input.stamp.number ≠ 0)
    : self.Drains (self.sessionizer.record input) := by
  simp only [Sessionizer.record, if_neg numbered]
  by_cases turned : self.haveSection = true ∧ self.sectionNumber ≠ input.sectionNumber
  · obtain ⟨middle, emits, called, entering, view, empty⟩ := pushed.turns turned
    rw [← view]
    refine .after emits (entering.drains called le_rfl ?_)
    simp [enterSection, clearScopes, empty, OrderedMap.size, OrderedMap.empty]
  · obtain ⟨called, entering, view, none⟩ := pushed.enters turned
    rw [← view, none]
    exact .after (.done self) (entering.drains called le_rfl bounded)

/-! ### Whole scans -/

theorem Idle.feed_agrees (idle : self.Idle) (inputs : List FlowInput)
    : Agrees (self.feed inputs) (self.sessionizer.feed inputs) := by
  induction inputs generalizing self with
  | nil => exact .returns [] idle
  | cons input rest ih =>
    simp only [feed, Sessionizer.feed, push, idle.pending, idle.running, Bool.or_self,
      Bool.false_eq_true, if_false]
    by_cases numbered : input.stamp.number = 0
    · simp only [Sessionizer.record, numbered, if_true]
      exact .raises [] .packetNumber
    · simp only [if_neg numbered]
      have agrees : Agrees (self.accept input).drain (self.sessionizer.record input) :=
        ((idle.pushed input).drains idle.bounded numbered).agrees
      generalize (self.accept input).drain = drained at agrees ⊢
      generalize self.sessionizer.record input = recorded at agrees ⊢
      cases agrees with
      | raises rows failure => exact .raises rows failure
      | returns rows settled =>
        exact (ih settled).after rows

/-- Finishing emits every session still open, in key order.
Witness: an aggregator that saw no section has no session, so the reason does not matter.
-/
theorem Idle.finish_drains (idle : self.Idle) (finalSection : UInt32)
    : ∃ after, (self.beginFinish finalSection).drain
        = ((self.sessionizer.closeAll
            (if self.sessionizer.currentSection = some finalSection then .eof else .sectionBoundary)
            self.sessionizer.keys).2, .ok after)
      ∧ after.sessionizer = { (self.sessionizer.closeAll
            (if self.sessionizer.currentSection = some finalSection then .eof else .sectionBoundary)
            self.sessionizer.keys).1 with
          clocks := .empty } := by
  have closes : ∀ middle key state, (self.beginFinish finalSection).SameControl middle →
      middle.Queued → middle.states.first? = some (key, state) →
      ∃ after, middle.Closes
        (if finalSection = self.sectionNumber then .eof else .sectionBoundary) key after := by
    intro middle key state control settled start
    refine closes_of_emit (.refl middle) settled (OrderedMap.find?_of_first? start) ?_
    have fields : middle.finishing = true ∧ middle.finalSection = finalSection
        ∧ middle.sectionNumber = self.sectionNumber := by
      rw [control]
      exact ⟨rfl, rfl, rfl⟩
    simp only [next, fields.1, if_true, start, fields.2.1, fields.2.2]
  have reasons : self.sessionizer.closeAll
        (if finalSection = self.sectionNumber then .eof else .sectionBoundary)
        self.sessionizer.keys
      = self.sessionizer.closeAll
        (if self.sessionizer.currentSection = some finalSection then .eof else .sectionBoundary)
        self.sessionizer.keys := by
    rcases idle.sectioned with known | empty
    · have current : self.sessionizer.currentSection = some self.sectionNumber := if_pos known
      simp only [current, Option.some.injEq, eq_comm]
    · have none : self.sessionizer.keys = [] := by
        simp only [Sessionizer.keys, sessionizer, empty]
        rfl
      rw [none]
      rfl
  have queued : (self.beginFinish finalSection).Queued := idle.queued.congr rfl rfl rfl
  obtain ⟨middle, emits, view, settled, control, empty⟩ := emits_keys queued closes
  have finishing : middle.finishing = true := by
    rw [control]
    rfl
  have called : middle.next = .ok (middle.clearScopes, none) := by
    simp only [next, finishing, if_true, empty, OrderedMap.first?, OrderedMap.empty,
      List.head?_nil]
  rw [← reasons]
  exact ⟨middle.clearScopes, emits.drain_returns called,
    congrArg (fun table => { table with clocks := OrderedMap.empty }) view⟩

theorem Idle.scan_eq (idle : self.Idle) (inputs : List FlowInput) (finalSection : UInt32)
    : ((self.scan inputs finalSection).1, (self.scan inputs finalSection).2.map sessionizer)
      = self.sessionizer.scan inputs finalSection := by
  simp only [scan, Sessionizer.scan]
  have agrees := idle.feed_agrees inputs
  generalize self.feed inputs = fed at agrees ⊢
  generalize self.sessionizer.feed inputs = expected at agrees ⊢
  cases agrees with
  | raises rows failure => rfl
  | returns rows settled =>
    rename_i after
    have finished : after.finish finalSection = .ok (after.beginFinish finalSection) := by
      simp only [finish, settled.pending, Bool.false_eq_true, if_false]
    obtain ⟨last, drained, view⟩ := settled.finish_drains finalSection
    simp only [finished, drained, Except.map, view]

end FlowAggregator

end PacketQuapture.Flow
