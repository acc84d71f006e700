import PacketQuapture.Flow.Session
import PacketQuapture.Library.Front
import PacketQuapture.Library.OrderedMap

/-! The flow aggregator: sessions in a bounded table, one clock and one expiry queue for
every interface. A queued session keeps its entry when its deadline moves later; `refresh`
moves the entry once it reaches the front of the queue.
-/

namespace PacketQuapture.Flow

open Library

structure FlowLimits where
  tcpIdleUs : Int := 300000000
  udpIdleUs : Int := 60000000
  maxFlows : Nat := 16384
  maxScopes : Nat := 65536
deriving DecidableEq, Repr

/-- The limits the constructor accepts. -/
structure AcceptedLimits extends FlowLimits where
  tcpIdleNonneg : 0 ≤ tcpIdleUs
  udpIdleNonneg : 0 ≤ udpIdleUs
  someFlows : maxFlows ≠ 0
  someScopes : maxScopes ≠ 0

def AcceptedLimits.default : AcceptedLimits :=
  { tcpIdleNonneg := by decide
    udpIdleNonneg := by decide
    someFlows := by decide
    someScopes := by decide }

/-- A session with its place in the expiry queue of its interface: `deadline` is when it
expires, `queued` where its entry stands.
-/
structure State extends Session where
  scheduled : Bool := false
  deadline : Int := 0
  queued : Int := 0
deriving DecidableEq

structure Scope where
  hasWatermark : Bool := false
  watermark : Int := 0
  expiry : Finset (Int ×ₗ SessionKey) := ∅
deriving DecidableEq

/-- The scope of an interface after a record's timestamp. -/
def Scope.advance (scope : Scope) (stamp : PacketStamp) : Scope :=
  if stamp.hasTimestamp then
    { scope with
      watermark :=
        if scope.hasWatermark then max scope.watermark stamp.timestamp else stamp.timestamp
      hasWatermark := true }
  else scope

/-- Whether a record lies behind the clock of its interface. -/
def Scope.behind (scope : Scope) (stamp : PacketStamp) : Bool :=
  stamp.hasTimestamp && scope.hasWatermark && stamp.timestamp < scope.watermark

structure FlowAggregator where
  limits : AcceptedLimits
  states : OrderedMap SessionKey State := .empty
  scopes : OrderedMap UInt32 Scope := .empty
  pendingInput : FlowInput := {}
  pending : Bool := false
  sectionNumber : UInt32 := 0
  finalSection : UInt32 := 0
  haveSection : Bool := false
  prepared : Bool := false
  late : Bool := false
  finishing : Bool := false

namespace FlowAggregator

/-- The aggregator with a record to work on. -/
def accept (self : FlowAggregator) (input : FlowInput) : FlowAggregator :=
  { self with pendingInput := input, pending := true, prepared := false }

def push (self : FlowAggregator) (input : FlowInput) : Except Failure FlowAggregator :=
  if self.pending || self.finishing then .error .undrained
  else if input.stamp.number = 0 then .error .packetNumber
  else .ok (self.accept input)

/-- The aggregator once no more records come. -/
def beginFinish (self : FlowAggregator) (finalSection : UInt32) : FlowAggregator :=
  { self with finishing := true, finalSection }

def finish (self : FlowAggregator) (finalSection : UInt32) : Except Failure FlowAggregator :=
  if self.pending then .error .undrained else .ok (self.beginFinish finalSection)

def activeCount (self : FlowAggregator) : Nat :=
  self.states.size

def expiryCount (self : FlowAggregator) : Nat :=
  (self.scopes.entries.map fun scope => scope.2.expiry.card).sum

/-- The scope of an interface that must have one. -/
def scopeAt (self : FlowAggregator) (interfaceId : UInt32) : Except Failure Scope :=
  match self.scopes.find? interfaceId with
  | none => .error .missingScope
  | some scope => .ok scope

def putScope (self : FlowAggregator) (interfaceId : UInt32) (scope : Scope) : FlowAggregator :=
  { self with scopes := self.scopes.insert interfaceId scope }

def putState (self : FlowAggregator) (key : SessionKey) (state : State) : FlowAggregator :=
  { self with states := self.states.insert key state }

def eraseState (self : FlowAggregator) (key : SessionKey) : FlowAggregator :=
  { self with states := self.states.erase key }

/-! ### Scheduling -/

def unschedule (self : FlowAggregator) (state : State)
    : Except Failure (FlowAggregator × State) :=
  if state.scheduled then do
    let scope ← self.scopeAt state.row.key.interfaceId
    let entry := toLex (state.queued, state.row.key)
    require (entry ∈ scope.expiry) (.assertion .unschedule)
    .ok (self.putScope state.row.key.interfaceId { scope with expiry := scope.expiry.erase entry },
      { state with scheduled := false })
  else .ok (self, state)

/-- The idle timeout of a session's protocol. -/
def timeout (limits : FlowLimits) (key : SessionKey) : Int :=
  if key.protocol = 6 then limits.tcpIdleUs else limits.udpIdleUs

/-- Called after every packet a session accounts. Its deadline only moves later, so a queued
session keeps its entry and only records the new deadline.
-/
def schedule (self : FlowAggregator) (state : State)
    : Except Failure (FlowAggregator × State) :=
  let idle := timeout self.limits.toFlowLimits state.row.key
  if idle = 0 ∨ state.row.missingTimestamps ≠ 0 ∨ ¬state.row.hasTimestamp
      ∨ int64Max - idle < state.row.lastTimestamp then
    self.unschedule state
  else
    let deadline := state.row.lastTimestamp + idle
    if state.scheduled then do
      require (state.deadline ≤ deadline) (.assertion .schedule)
      .ok (self, { state with deadline })
    else do
      let scope ← self.scopeAt state.row.key.interfaceId
      .ok (self.putScope state.row.key.interfaceId
          { scope with expiry := insert (toLex (deadline, state.row.key)) scope.expiry },
        { state with deadline, queued := deadline, scheduled := true })

/-- The loop of `refresh`: re-queues the front entry while it is stale. -/
def refreshLoop : Nat → UInt32 → FlowAggregator → Except Failure FlowAggregator
  | 0, _, _ => .error .outOfFuel
  | fuel + 1, interfaceId, self => do
    let scope ← self.scopeAt interfaceId
    match front? scope.expiry with
    | none => .ok self
    | some entry =>
      let (queued, key) := ofLex entry
      match self.states.find? key with
      | none => .error (.assertion .refresh)
      | some state =>
        require state.scheduled (.assertion .refresh)
        require (state.queued = queued) (.assertion .refresh)
        if state.deadline = queued then .ok self
        else
          require (queued < state.deadline) (.assertion .refresh)
          let moved := insert (toLex (state.deadline, key)) (scope.expiry.erase entry)
          refreshLoop fuel interfaceId
            ((self.putScope interfaceId { scope with expiry := moved }).putState key
              { state with queued := state.deadline })

/-- Re-queues stale entries at the front at their sessions' real deadlines. Each entry moves
at most once, so the loop runs at most once more than there are entries.
-/
def refresh (self : FlowAggregator) (interfaceId : UInt32) : Except Failure FlowAggregator := do
  let scope ← self.scopeAt interfaceId
  refreshLoop (scope.expiry.card + 1) interfaceId self

/-! ### Giving up a session -/

/-- The front of an interface's queue, once refreshed. -/
def refreshedFront (self : FlowAggregator) (interfaceId : UInt32)
    : Except Failure (FlowAggregator × Option (Int ×ₗ SessionKey)) := do
  let self ← self.refresh interfaceId
  let scope ← self.scopeAt interfaceId
  .ok (self, front? scope.expiry)

/-- The lesser of two optional queue entries, the first when they tie. -/
def sooner (soonest front : Option (Int ×ₗ SessionKey)) : Option (Int ×ₗ SessionKey) :=
  match soonest, front with
  | soonest, none => soonest
  | none, some entry => some entry
  | some least, some entry => if entry < least then some entry else some least

/-- The loop of `evictable` over all scopes. -/
def soonestOf (self : FlowAggregator) (soonest : Option (Int ×ₗ SessionKey))
    : List UInt32 → Except Failure (FlowAggregator × Option (Int ×ₗ SessionKey))
  | [] => .ok (self, soonest)
  | interfaceId :: rest => do
    let (self, front) ← self.refreshedFront interfaceId
    self.soonestOf (sooner soonest front) rest

/-- Whether the interface has a scope with a queued session. -/
def hasQueued (self : FlowAggregator) (interfaceId : UInt32) : Bool :=
  match self.scopes.find? interfaceId with
  | none => false
  | some scope => decide scope.expiry.Nonempty

/-- The session nearest its idle deadline on an interface, else on any interface. -/
def soonest (self : FlowAggregator) (interfaceId : UInt32)
    : Except Failure (FlowAggregator × Option (Int ×ₗ SessionKey)) :=
  if self.hasQueued interfaceId then self.refreshedFront interfaceId
  else self.soonestOf none (self.scopes.entries.map Prod.fst)

/-- The session to give up when the table is full: the one nearest its idle deadline on this
packet's interface, else on any interface, else the first in key order.
-/
def evictable (self : FlowAggregator) (interfaceId : UInt32)
    : Except Failure (FlowAggregator × SessionKey) := do
  require (self.states.first?.isSome) (.assertion .evictable)
  let (self, entry) ← self.soonest interfaceId
  match entry with
  | none =>
    match self.states.first? with
    | none => .error (.assertion .evictable)
    | some (key, _) => .ok (self, key)
  | some entry =>
    require ((self.states.find? (ofLex entry).2).isSome) (.assertion .evictable)
    .ok (self, (ofLex entry).2)

def emit (self : FlowAggregator) (key : SessionKey) (reason : FinalizedBy)
    : Except Failure (FlowAggregator × Option FlowSummary) :=
  match self.states.find? key with
  | none => .error (.assertion .emit)
  | some state => do
    let (self, state) ← self.unschedule state
    .ok (self.eraseState key, some { state.row with finalizedBy := reason })

/-! ### One record -/

/-- Advances the pending packet's scope clock, once per pushed record. -/
def prepare (self : FlowAggregator) : Except Failure FlowAggregator :=
  let input := self.pendingInput
  if self.scopes.find? input.interfaceId = none ∧ self.limits.maxScopes ≤ self.scopes.size then
    .error .scopeCapacity
  else
    let scope := (self.scopes.find? input.interfaceId).getD {}
    .ok { self.putScope input.interfaceId (scope.advance input.stamp) with
      late := scope.behind input.stamp
      prepared := true }

def prepareOnce (self : FlowAggregator) : Except Failure FlowAggregator :=
  if self.prepared then .ok self else self.prepare

/-- The aggregator once the pending packet is dealt with. -/
def settle (self : FlowAggregator) : FlowAggregator :=
  { self with pending := false }

/-- Accounts for the pending packet in a session, and ends the session on a reset. -/
def charge (self : FlowAggregator) (key : SessionKey) (state : State) (fromLow : Bool)
    : Except Failure (FlowAggregator × Option FlowSummary) := do
  let session ← state.toSession.account self.pendingInput fromLow self.late
  let (self, state) ← self.schedule { state with toSession := session }
  let self := (self.putState key state).settle
  if state.row.resetSeen then self.emit key .reset else .ok (self, none)

/-- Assigns the pending packet to a session. A session given up first leaves the packet
pending, for the next call to account in a fresh session.
-/
def assign (self : FlowAggregator) : Except Failure (FlowAggregator × Option FlowSummary) :=
  let input := self.pendingInput
  if !input.eligible then .ok (self.settle, none)
  else
    let (key, fromLow) := makeKey input
    match self.states.find? key with
    | some state =>
      if input.packet.tcp && isSyn input.packet && state.reused input.packet fromLow then
        self.emit key .tupleReuse
      else self.charge key state fromLow
    | none =>
      if self.limits.maxFlows ≤ self.states.size then do
        let (self, evicted) ← self.evictable input.interfaceId
        self.emit evicted .limit
      else
        self.charge key { toSession := .open key fromLow self.sectionNumber input } fromLow

/-- The pending packet once its section is current: expires a session, or assigns the
packet.
-/
def serve (self : FlowAggregator) : Except Failure (FlowAggregator × Option FlowSummary) := do
  let self ← self.prepareOnce
  let self ← self.refresh self.pendingInput.interfaceId
  let scope ← self.scopeAt self.pendingInput.interfaceId
  match front? scope.expiry with
  | none => self.assign
  | some entry =>
    if scope.hasWatermark ∧ (ofLex entry).1 < scope.watermark then do
      require ((self.states.find? (ofLex entry).2).isSome) (.assertion .next)
      self.emit (ofLex entry).2 .idleTimeout
    else self.assign

def clearScopes (self : FlowAggregator) : FlowAggregator :=
  { self with scopes := .empty }

def enterSection (self : FlowAggregator) (sectionNumber : UInt32) : FlowAggregator :=
  { self with sectionNumber, haveSection := true }

def next (self : FlowAggregator) : Except Failure (FlowAggregator × Option FlowSummary) :=
  if self.finishing then
    match self.states.first? with
    | none => .ok (self.clearScopes, none)
    | some (key, _) =>
      self.emit key (if self.finalSection = self.sectionNumber then .eof else .sectionBoundary)
  else if !self.pending then .ok (self, none)
  else
    let input := self.pendingInput
    if self.haveSection ∧ self.sectionNumber ≠ input.sectionNumber then
      match self.states.first? with
      | some (key, _) => self.emit key .sectionBoundary
      | none => (self.clearScopes.enterSection input.sectionNumber).serve
    else (self.enterSection input.sectionNumber).serve

/-! ### Whole scans -/

/-- Calls `next` until it returns false: the rows it emitted, and how it ended. -/
def drainLoop : Nat → FlowAggregator → List FlowSummary × Except Failure FlowAggregator
  | 0, _ => ([], .error .outOfFuel)
  | fuel + 1, self =>
    match self.next with
    | .error failure => ([], .error failure)
    | .ok (self, none) => ([], .ok self)
    | .ok (self, some row) =>
      let (rows, ended) := drainLoop fuel self
      (row :: rows, ended)

/-- Drains the output of the last call. Every row takes a session from the table, and the
pending packet adds at most one.
-/
def drain (self : FlowAggregator) : List FlowSummary × Except Failure FlowAggregator :=
  drainLoop (self.states.size + 2) self

/-- Pushes every record and drains its rows. -/
def feed (self : FlowAggregator) : List FlowInput → List FlowSummary × Except Failure FlowAggregator
  | [] => ([], .ok self)
  | input :: rest =>
    match self.push input with
    | .error failure => ([], .error failure)
    | .ok pushed =>
      match pushed.drain with
      | (rows, .error failure) => (rows, .error failure)
      | (rows, .ok drained) =>
        let (more, ended) := drained.feed rest
        (rows ++ more, ended)

/-- Feeds every record, then finishes and drains the sessions still open. -/
def scan (self : FlowAggregator) (inputs : List FlowInput) (finalSection : UInt32)
    : List FlowSummary × Except Failure FlowAggregator :=
  match self.feed inputs with
  | (rows, .error failure) => (rows, .error failure)
  | (rows, .ok fed) =>
    match fed.finish finalSection with
    | .error failure => (rows, .error failure)
    | .ok finished =>
      let (more, ended) := finished.drain
      (rows ++ more, ended)

end FlowAggregator

end PacketQuapture.Flow
