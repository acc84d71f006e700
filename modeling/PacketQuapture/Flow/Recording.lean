import PacketQuapture.Flow.Serving

/-! Draining one pushed record against the sessionizer. The calls flush an old section, advance
the clock, expire what is overdue, displace at most one session and account for the packet,
in the order in which the sessionizer emits its rows.
-/

namespace PacketQuapture.Flow

open Library

namespace FlowAggregator

variable {self middle after : FlowAggregator} {input : FlowInput} {rows : List FlowSummary}

/-! ### Advancing the clock -/

theorem clock_advance (scope : Scope) (stamp : PacketStamp)
    : (scope.advance stamp).clock
      = if stamp.hasTimestamp
        then some (scope.clock.elim stamp.timestamp (max · stamp.timestamp)) else scope.clock := by
  simp only [Scope.advance]
  split
  · cases known : scope.hasWatermark <;> simp [Scope.clock, known]
  · rfl

theorem behind_eq (scope : Scope) (stamp : PacketStamp)
    : scope.behind stamp
      = (stamp.hasTimestamp && scope.clock.any fun watermark => stamp.timestamp < watermark) := by
  simp only [Scope.behind, Scope.clock]
  cases stamp.hasTimestamp <;> cases scope.hasWatermark <;> rfl

/-- A record waiting for its clock: its section is current, and the clock has not moved. -/
structure Entered (aggregator : FlowAggregator) (input : FlowInput) : Prop where
  queued : aggregator.Queued
  running : aggregator.finishing = false
  pending : aggregator.pending = true
  pendingInput : aggregator.pendingInput = input
  prepared : aggregator.prepared = false
  haveSection : aggregator.haveSection = true
  sectionNumber : aggregator.sectionNumber = input.sectionNumber

/-- The scope of a record's interface, or a fresh one. -/
def scopeFor (self : FlowAggregator) (input : FlowInput) : Scope :=
  (self.scopes.find? input.interfaceId).getD {}

theorem clock_scopeFor (self : FlowAggregator) (input : FlowInput)
    : (self.scopeFor input).clock = (self.sessionizer.clocks.find? input.interfaceId).join := by
  simp only [scopeFor, sessionizer, OrderedMap.find?_mapValues]
  cases self.scopes.find? input.interfaceId <;> rfl

/-- A scope enters the table with no session to queue, and an advanced one keeps its queue. -/
theorem Queued.advance (queued : self.Queued) (input : FlowInput)
    : (self.putScope input.interfaceId ((self.scopeFor input).advance input.stamp)).Queued := by
  have expiry : ((self.scopeFor input).advance input.stamp).expiry
      = (self.scopeFor input).expiry := by
    simp only [Scope.advance]
    split <;> rfl
  refine ⟨⟨queued.keyed, ?_, ?_⟩, queued.timely⟩
  · intro interfaceId scope located
    rcases OrderedMap.find?_insert_eq_some located with ⟨rfl, rfl⟩ | ⟨_, located⟩
    · rw [expiry, scopeFor]
      cases present : self.scopes.find? input.interfaceId with
      | some former => exact queued.lags _ former present
      | none =>
        -- no session is scheduled on an interface without a scope
        have unplaced : ∀ key, self.places input.interfaceId key = none := by
          intro key
          cases place : self.places input.interfaceId key with
          | none => rfl
          | some pair =>
            obtain ⟨home, state, found, placed⟩ := places_eq_some_iff.mp place
            obtain ⟨scope, known⟩ :=
              queued.homed key state found (place_eq_some_iff.mp placed).1
            simp [home, present] at known
        exact Lags.vacant unplaced
    · exact queued.lags interfaceId scope located
  · intro key state found scheduled
    obtain ⟨scope, known⟩ := queued.homed key state found scheduled
    by_cases same : key.interfaceId = input.interfaceId
    · exact ⟨_, by rw [same]; exact OrderedMap.find?_insert_self ..⟩
    · exact ⟨scope, by simpa [putScope, OrderedMap.find?_insert, same] using known⟩

/-- The aggregator once the clock of a record has moved. -/
def advanced (self : FlowAggregator) (input : FlowInput) : FlowAggregator :=
  { self.putScope input.interfaceId ((self.scopeFor input).advance input.stamp) with
    late := (self.scopeFor input).behind input.stamp
    prepared := true }

theorem scopeCapacity_iff (self : FlowAggregator) (input : FlowInput)
    : self.scopes.find? input.interfaceId = none ∧ self.limits.maxScopes ≤ self.scopes.size
      ↔ self.sessionizer.clocks.find? input.interfaceId = none
        ∧ self.sessionizer.limits.maxScopes ≤ self.sessionizer.clocks.size := by
  simp only [sessionizer, OrderedMap.find?_mapValues, Option.map_eq_none_iff,
    OrderedMap.size_mapValues]

theorem advance_sessionizer
    (room : ¬(self.scopes.find? input.interfaceId = none
      ∧ self.limits.maxScopes ≤ self.scopes.size))
    : self.sessionizer.advance input
      = .ok ((self.advanced input).sessionizer, (self.advanced input).late) := by
  rw [scopeCapacity_iff] at room
  have view : (self.advanced input).sessionizer
      = { self.sessionizer with
          clocks := self.sessionizer.clocks.insert input.interfaceId
            ((self.scopeFor input).advance input.stamp).clock } := by
    simp only [sessionizer, advanced, putScope, OrderedMap.mapValues_insert]
    rfl
  have late : (self.advanced input).late = (self.scopeFor input).behind input.stamp := rfl
  rw [view, late, clock_advance, behind_eq, clock_scopeFor]
  simp only [Sessionizer.advance, if_neg room]
  split <;> simp_all

theorem Entered.serving (entered : self.Entered input)
    : (self.advanced input).Serving input (self.advanced input).late where
  queued := (entered.queued.advance input).congr rfl rfl rfl
  running := entered.running
  pending := entered.pending
  pendingInput := entered.pendingInput
  prepared := rfl
  late := rfl
  haveSection := entered.haveSection
  sectionNumber := entered.sectionNumber
  home := ⟨_, OrderedMap.find?_insert_self ..⟩

theorem Entered.serve_eq (entered : self.Entered input)
    (room : ¬(self.scopes.find? input.interfaceId = none
      ∧ self.limits.maxScopes ≤ self.scopes.size))
    : self.serve = (self.advanced input).next := by
  have prepared : self.prepare = .ok (self.advanced input) := by
    simp only [prepare, entered.pendingInput, if_neg room]
    rfl
  rw [entered.serving.next_eq]
  simp only [serve, prepareOnce, entered.prepared, entered.serving.prepared, prepared, ok_bind,
    Bool.false_eq_true, if_false, if_true]

theorem Entered.serve_error (entered : self.Entered input)
    (full : self.scopes.find? input.interfaceId = none
      ∧ self.limits.maxScopes ≤ self.scopes.size)
    : self.serve = .error .scopeCapacity
      ∧ self.sessionizer.advance input = .error .scopeCapacity := by
  have prepared : self.prepare = .error .scopeCapacity := by
    simp only [prepare, entered.pendingInput, if_pos full]
  refine ⟨?_, ?_⟩
  · simp only [serve, prepareOnce, entered.prepared, prepared, Bool.false_eq_true, if_false]
    rfl
  · simp only [Sessionizer.advance, if_pos ((scopeCapacity_iff self input).mp full)]

/-! ### Sequences of calls -/

/-- The most rows the aggregator can still emit before the next record. -/
def weight (self : FlowAggregator) : Nat :=
  self.states.size + if self.pending then 1 else 0

/-- Calls that each return a row lead from one aggregator to the other. -/
inductive Emits : FlowAggregator → List FlowSummary → FlowAggregator → Prop where
  | done (self : FlowAggregator) : Emits self [] self
  | row {self middle after : FlowAggregator} {row : FlowSummary} {rows : List FlowSummary}
      (called : self.next = .ok (middle, some row)) (lighter : middle.weight < self.weight)
      (rest : Emits middle rows after) : Emits self (row :: rows) after

theorem Emits.trans {first second : List FlowSummary} (left : Emits self first middle)
    (right : Emits middle second after)
    : Emits self (first ++ second) after := by
  induction left with
  | done => exact right
  | row called lighter _ ih => exact .row called lighter (ih right)

theorem Emits.weight_le (emits : Emits self rows after)
    : after.weight ≤ self.weight := by
  induction emits with
  | done => exact le_rfl
  | row _ lighter _ ih => exact ih.trans lighter.le

theorem Emits.of_next_eq {other : FlowAggregator} (same : self.next = other.next)
    (lighter : other.weight ≤ self.weight) (emits : Emits other rows after)
    : ∃ start, Emits self rows start ∧ start.next = after.next := by
  cases emits with
  | done => exact ⟨self, .done self, same⟩
  | row called less rest =>
    exact ⟨after, .row (same.trans called) (lt_of_lt_of_le less lighter) rest, rfl⟩

/-- Draining passes through every row emitted on the way.
Witness: each row lowers the weight, so the calls allowed never run out.
-/
theorem Emits.drainLoop_eq (emits : Emits self rows middle) {fuel : Nat}
    (enough : self.weight < fuel)
    : ∃ left, middle.weight < left ∧ drainLoop fuel self
      = (rows ++ (drainLoop left middle).1, (drainLoop left middle).2) := by
  induction emits generalizing fuel with
  | done self => exact ⟨fuel, enough, rfl⟩
  | row called lighter _ ih =>
    cases fuel with
    | zero => omega
    | succ fuel =>
      obtain ⟨left, remaining, same⟩ := @ih fuel (by omega)
      refine ⟨left, remaining, ?_⟩
      simp only [drainLoop, called, same, List.cons_append]

theorem weight_lt_drain (self : FlowAggregator) : self.weight < self.states.size + 2 := by
  simp only [weight]
  split <;> omega

theorem Emits.drain_returns (emits : Emits self rows middle)
    (called : middle.next = .ok (after, none))
    : self.drain = (rows, .ok after) := by
  obtain ⟨left, remaining, same⟩ := emits.drainLoop_eq self.weight_lt_drain
  obtain ⟨fuel, rfl⟩ : ∃ fuel, left = fuel + 1 := ⟨left - 1, by omega⟩
  rw [drain, same]
  simp only [drainLoop, called, List.append_nil]

theorem Emits.drain_raises (emits : Emits self rows middle) {failure : Failure}
    (called : middle.next = .error failure)
    : self.drain = (rows, .error failure) := by
  obtain ⟨left, remaining, same⟩ := emits.drainLoop_eq self.weight_lt_drain
  obtain ⟨fuel, rfl⟩ : ∃ fuel, left = fuel + 1 := ⟨left - 1, by omega⟩
  rw [drain, same]
  simp only [drainLoop, called, List.append_nil]

theorem Closes.emits {reason : FinalizedBy} {key : SessionKey}
    (closes : self.Closes reason key after)
    : Emits self (self.sessionizer.close reason key).2 after
      ∧ after.sessionizer = (self.sessionizer.close reason key).1 := by
  obtain ⟨session, found, called⟩ := closes.emitted
  have lighter : after.weight < self.weight := by
    have smaller := OrderedMap.size_erase found
    have sizes := congrArg (fun view => view.sessions.size) closes.view
    have pending : after.pending = self.pending := by rw [closes.control]
    simp only [size_sessionizer] at sizes smaller
    simp only [weight, pending]
    omega
  simp only [Sessionizer.close, found]
  exact ⟨.row called lighter (.done after), closes.view⟩

/-- Calls that close the keys of a list one by one emit the rows of `closeAll`.
Witness: induction on the keys; `Ready` is what the calls keep along the way.
-/
theorem emits_closeAll {reason : FinalizedBy} {Ready : FlowAggregator → List SessionKey → Prop}
    (step : ∀ self key rest, Ready self (key :: rest) →
      ∃ after, self.Closes reason key after ∧ Ready after rest)
    {keys : List SessionKey} (ready : Ready self keys)
    : ∃ after, Emits self (self.sessionizer.closeAll reason keys).2 after
      ∧ after.sessionizer = (self.sessionizer.closeAll reason keys).1 ∧ Ready after [] := by
  induction keys generalizing self with
  | nil => exact ⟨self, .done self, rfl, ready⟩
  | cons key rest ih =>
    obtain ⟨middle, closes, left⟩ := step self key rest ready
    obtain ⟨emits, view⟩ := closes.emits
    obtain ⟨after, more, settled, finished⟩ := ih left
    rw [view] at more settled
    exact ⟨after, emits.trans more, settled, finished⟩

/-- Closing every session in key order, when each call closes the first one. -/
theorem emits_keys {reason : FinalizedBy} (queued : self.Queued)
    (first : ∀ middle key state, self.SameControl middle → middle.Queued →
      middle.states.first? = some (key, state) → ∃ after, middle.Closes reason key after)
    : ∃ after, Emits self (self.sessionizer.closeAll reason self.sessionizer.keys).2 after
      ∧ after.sessionizer = (self.sessionizer.closeAll reason self.sessionizer.keys).1
      ∧ after.Queued ∧ self.SameControl after ∧ after.states = .empty := by
  let Ready := fun (aggregator : FlowAggregator) (keys : List SessionKey) =>
    aggregator.Queued ∧ self.SameControl aggregator ∧ aggregator.sessionizer.keys = keys
  have step : ∀ middle key rest, Ready middle (key :: rest) →
      ∃ after, middle.Closes reason key after ∧ Ready after rest := by
    intro middle key rest ready
    obtain ⟨settled, control, keys⟩ := ready
    obtain ⟨entry, tail, entries, rfl, rfl⟩ := List.map_eq_cons_iff.mp keys
    have start := middle.first?_sessionizer
    rw [OrderedMap.first?, entries, List.head?_cons, Option.map_some, eq_comm,
      Option.map_eq_some_iff] at start
    obtain ⟨⟨name, state⟩, start, same⟩ := start
    obtain ⟨after, closes⟩ := first middle name state control settled start
    subst same
    refine ⟨after, closes, closes.queued, control.trans closes.control, ?_⟩
    rw [Sessionizer.keys, closes.view, OrderedMap.entries_erase_head entries]
  obtain ⟨after, emits, view, settled, control, keys⟩ :=
    @emits_closeAll self reason Ready step _ ⟨queued, .refl self, rfl⟩
  refine ⟨after, emits, view, settled, control, OrderedMap.ext_entries ?_⟩
  exact List.map_eq_nil_iff.mp (List.map_eq_nil_iff.mp keys)

theorem waiting_unique {self : Sessionizer} {left right : Int ×ₗ SessionKey}
    (first : left ∈ self.waiting) (second : right ∈ self.waiting)
    (same : (ofLex left).2 = (ofLex right).2)
    : left = right := by
  obtain ⟨⟨early, key⟩, rfl⟩ : ∃ pair, toLex pair = left := ⟨ofLex left, rfl⟩
  obtain ⟨⟨late, other⟩, rfl⟩ : ∃ pair, toLex pair = right := ⟨ofLex right, rfl⟩
  obtain rfl : key = other := same
  obtain ⟨session, stored, due⟩ := Sessionizer.mem_waiting.mp first
  obtain ⟨holder, kept, deadline⟩ := Sessionizer.mem_waiting.mp second
  obtain rfl := Option.some.inj (stored.symm.trans kept)
  rw [Option.some.inj (due.symm.trans deadline)]

theorem overdue_eraseKey (self : Sessionizer) (interfaceId : UInt32) (gone : SessionKey)
    : { self with sessions := self.sessions.erase gone }.overdue interfaceId
      = (self.overdue interfaceId).filter fun other => (ofLex other).2 ≠ gone := by
  have waiting : { self with sessions := self.sessions.erase gone }.waitingOn interfaceId
      = (self.waitingOn interfaceId).filter fun other => (ofLex other).2 ≠ gone := by
    ext other
    obtain ⟨⟨time, key⟩, rfl⟩ : ∃ pair, toLex pair = other := ⟨ofLex other, rfl⟩
    simp only [Finset.mem_filter, Sessionizer.mem_waitingOn, Sessionizer.mem_waiting,
      OrderedMap.find?_erase, ofLex_toLex]
    by_cases same : key = gone <;> simp [same]
  simp only [Sessionizer.overdue]
  cases (self.clocks.find? interfaceId).join with
  | none => simp
  | some watermark => simp only [waiting, Finset.filter_comm]

theorem overdue_erase {self : Sessionizer} {interfaceId : UInt32} {entry : Int ×ₗ SessionKey}
    (member : entry ∈ self.overdue interfaceId)
    : { self with sessions := self.sessions.erase (ofLex entry).2 }.overdue interfaceId
      = (self.overdue interfaceId).erase entry := by
  have waits : ∀ other ∈ self.overdue interfaceId, other ∈ self.waiting := by
    intro other found
    simp only [Sessionizer.overdue] at found
    split at found
    · simp at found
    · exact Finset.mem_of_mem_filter _ (Finset.mem_of_mem_filter _ found)
  rw [overdue_eraseKey, ← Finset.filter_ne']
  refine Finset.filter_congr fun other found => not_congr ⟨fun same => ?_, fun same => by rw [same]⟩
  exact waiting_unique (waits other found) (waits entry member) same

/-- The calls on a record expire every overdue session, in the order of the deadlines. -/
theorem Serving.emits_expired {late : Bool} (serving : self.Serving input late)
    : ∃ after, Emits self (self.sessionizer.closeAll .idleTimeout
          (self.sessionizer.expired input.interfaceId)).2 after
      ∧ after.sessionizer = (self.sessionizer.closeAll .idleTimeout
          (self.sessionizer.expired input.interfaceId)).1
      ∧ after.Serving input late
      ∧ front? (after.sessionizer.overdue input.interfaceId) = none := by
  let Ready := fun (aggregator : FlowAggregator) (keys : List SessionKey) =>
    aggregator.Serving input late ∧ aggregator.sessionizer.expired input.interfaceId = keys
  have step : ∀ middle key rest, Ready middle (key :: rest) →
      ∃ after, middle.Closes .idleTimeout key after ∧ Ready after rest := by
    intro middle key rest ready
    obtain ⟨working, expired⟩ := ready
    cases front : front? (middle.sessionizer.overdue input.interfaceId) with
    | none =>
      rw [Sessionizer.expired, front?_eq_none_iff.mp front] at expired
      simp at expired
    | some entry =>
      rw [Sessionizer.expired, sort_of_front? front, List.map_cons, List.cons.injEq] at expired
      obtain ⟨rfl, rfl⟩ := expired
      obtain ⟨after, closes⟩ := working.closes_overdue front
      refine ⟨after, closes, working.carry closes.queued closes.control (by rw [closes.view]), ?_⟩
      rw [Sessionizer.expired, closes.view, overdue_erase (front?_eq_some_iff.mp front).1]
  obtain ⟨after, emits, view, working, expired⟩ :=
    @emits_closeAll self .idleTimeout Ready step _ ⟨serving, rfl⟩
  refine ⟨after, emits, view, working, front?_eq_none_iff.mpr ?_⟩
  have none := List.map_eq_nil_iff.mp expired
  rw [← Finset.sort_toFinset (after.sessionizer.overdue input.interfaceId) (· ≤ ·), none]
  rfl

end FlowAggregator

end PacketQuapture.Flow
