import PacketQuapture.Flow.Aggregator

/-! What the flow aggregator is for, without its queues: a table of sessions and a clock for
every interface. Each record is handled at once, by searching the table for the sessions
whose deadline has passed.
-/

namespace PacketQuapture.Flow

open Library

/-- When a session expires: its idle timeout after its latest timestamp. A zero timeout, a
packet without a timestamp or a sum beyond int64 leaves it without a deadline.
-/
def deadline? (limits : FlowLimits) (session : Session) : Option Int :=
  let idle := FlowAggregator.timeout limits session.row.key
  if idle = 0 ∨ session.row.missingTimestamps ≠ 0 ∨ ¬session.row.hasTimestamp
      ∨ int64Max - idle < session.row.lastTimestamp then
    none
  else some (session.row.lastTimestamp + idle)

/-- A table of open sessions. `due` is the deadline of a session, if it has one. -/
structure Sessionizer where
  limits : AcceptedLimits
  due : Session → Option Int
  sessions : OrderedMap SessionKey Session := .empty
  clocks : OrderedMap UInt32 (Option Int) := .empty
  currentSection : Option UInt32 := none

namespace Sessionizer

/-- The deadlines of all sessions that have one, in (deadline, key) order. -/
def waiting (self : Sessionizer) : Finset (Int ×ₗ SessionKey) :=
  (self.sessions.entries.filterMap fun entry =>
    (self.due entry.2).map fun deadline => toLex (deadline, entry.1)).toFinset

def waitingOn (self : Sessionizer) (interfaceId : UInt32) : Finset (Int ×ₗ SessionKey) :=
  self.waiting.filter fun entry => (ofLex entry).2.interfaceId = interfaceId

/-- The deadlines of an interface that lie strictly below its clock. -/
def overdue (self : Sessionizer) (interfaceId : UInt32) : Finset (Int ×ₗ SessionKey) :=
  match (self.clocks.find? interfaceId).join with
  | none => ∅
  | some watermark =>
    (self.waitingOn interfaceId).filter fun entry => (ofLex entry).1 < watermark

/-- The sessions of an interface that have expired, in the order of their deadlines. -/
def expired (self : Sessionizer) (interfaceId : UInt32) : List SessionKey :=
  ((self.overdue interfaceId).sort).map fun entry => (ofLex entry).2

/-- The session to give up: the least deadline on the packet's interface, else on any
interface, else the least key.
-/
def victim (self : Sessionizer) (interfaceId : UInt32) : Option SessionKey :=
  match front? (self.waitingOn interfaceId) with
  | some entry => some (ofLex entry).2
  | none =>
    match front? self.waiting with
    | some entry => some (ofLex entry).2
    | none => self.sessions.first?.map Prod.fst

/-- Takes a session off the table and emits its row. -/
def close (self : Sessionizer) (reason : FinalizedBy) (key : SessionKey)
    : Sessionizer × List FlowSummary :=
  match self.sessions.find? key with
  | none => (self, [])
  | some session =>
    ({ self with sessions := self.sessions.erase key },
      [{ session.row with finalizedBy := reason }])

def closeAll (self : Sessionizer) (reason : FinalizedBy)
    : List SessionKey → Sessionizer × List FlowSummary
  | [] => (self, [])
  | key :: rest =>
    let (closed, row) := self.close reason key
    let (final, rows) := closed.closeAll reason rest
    (final, row ++ rows)

def keys (self : Sessionizer) : List SessionKey :=
  self.sessions.entries.map Prod.fst

/-- Enters the section of a record: a new section ends every session and every clock. -/
def enter (self : Sessionizer) (sectionNumber : UInt32) : Sessionizer × List FlowSummary :=
  match self.currentSection with
  | none => ({ self with currentSection := some sectionNumber }, [])
  | some current =>
    if current = sectionNumber then (self, [])
    else
      let (closed, rows) := self.closeAll .sectionBoundary self.keys
      ({ closed with clocks := .empty, currentSection := some sectionNumber }, rows)

/-- Advances the clock of a record's interface, and says whether the record lies behind it. -/
def advance (self : Sessionizer) (input : FlowInput) : Except Failure (Sessionizer × Bool) :=
  if self.clocks.find? input.interfaceId = none ∧ self.limits.maxScopes ≤ self.clocks.size then
    .error .scopeCapacity
  else
    let clock := (self.clocks.find? input.interfaceId).join
    if input.stamp.hasTimestamp then
      let now := input.stamp.timestamp
      .ok ({ self with
          clocks := self.clocks.insert input.interfaceId (some (clock.elim now (max · now))) },
        clock.any fun watermark => now < watermark)
    else .ok ({ self with clocks := self.clocks.insert input.interfaceId clock }, false)

/-- The session an eligible packet displaces, and why: the one its SYN replaces, or one of a
full table.
-/
def displaced (self : Sessionizer) (input : FlowInput) : Option (FinalizedBy × SessionKey) :=
  let (key, fromLow) := makeKey input
  match self.sessions.find? key with
  | some session =>
    if input.packet.tcp && isSyn input.packet && session.reused input.packet fromLow then
      some (.tupleReuse, key)
    else none
  | none =>
    if self.limits.maxFlows ≤ self.sessions.size then
      (self.victim input.interfaceId).map fun victim => (.limit, victim)
    else none

/-- Frees the packet's place in the table. -/
def makeWay (self : Sessionizer) (input : FlowInput) : Sessionizer × List FlowSummary :=
  match self.displaced input with
  | none => (self, [])
  | some (reason, key) => self.close reason key

/-- Accounts for an eligible packet in its session, and ends the session on a reset. -/
def charge (self : Sessionizer) (input : FlowInput) (late : Bool)
    : List FlowSummary × Except Failure Sessionizer :=
  let (key, fromLow) := makeKey input
  let fresh := Session.open key fromLow input.sectionNumber input
  match ((self.sessions.find? key).getD fresh).account input fromLow late with
  | .error failure => ([], .error failure)
  | .ok session =>
    let stored := { self with sessions := self.sessions.insert key session }
    if session.row.resetSeen then ((stored.close .reset key).2, .ok (stored.close .reset key).1)
    else ([], .ok stored)

/-- Assigns an eligible packet to a session, once there is a place for it. -/
def assign (self : Sessionizer) (input : FlowInput) (late : Bool)
    : List FlowSummary × Except Failure Sessionizer :=
  let (ready, gone) := self.makeWay input
  let (rows, ended) := ready.charge input late
  (gone ++ rows, ended)

/-- Expires the sessions of the record's interface, then assigns its packet. -/
def serve (self : Sessionizer) (input : FlowInput) (late : Bool)
    : List FlowSummary × Except Failure Sessionizer :=
  let (swept, timedOut) := self.closeAll .idleTimeout (self.expired input.interfaceId)
  if !input.eligible then (timedOut, .ok swept)
  else
    let (rows, ended) := swept.assign input late
    (timedOut ++ rows, ended)

/-- Handles a record of the current section. -/
def observe (self : Sessionizer) (input : FlowInput)
    : List FlowSummary × Except Failure Sessionizer :=
  match self.advance input with
  | .error failure => ([], .error failure)
  | .ok (advanced, late) => advanced.serve input late

/-- Handles one record: the rows it makes the table emit, and the table after it. -/
def record (self : Sessionizer) (input : FlowInput)
    : List FlowSummary × Except Failure Sessionizer :=
  if input.stamp.number = 0 then ([], .error .packetNumber)
  else
    let (entered, flushed) := self.enter input.sectionNumber
    let (rows, ended) := entered.observe input
    (flushed ++ rows, ended)

def feed (self : Sessionizer) : List FlowInput → List FlowSummary × Except Failure Sessionizer
  | [] => ([], .ok self)
  | input :: rest =>
    match self.record input with
    | (rows, .error failure) => (rows, .error failure)
    | (rows, .ok recorded) =>
      let (more, ended) := recorded.feed rest
      (rows ++ more, ended)

/-- Handles every record and emits the sessions still open, in key order. -/
def scan (self : Sessionizer) (inputs : List FlowInput) (finalSection : UInt32)
    : List FlowSummary × Except Failure Sessionizer :=
  match self.feed inputs with
  | (rows, .error failure) => (rows, .error failure)
  | (rows, .ok fed) =>
    let reason := if fed.currentSection = some finalSection then .eof else .sectionBoundary
    let (closed, more) := fed.closeAll reason fed.keys
    (rows ++ more, .ok { closed with clocks := .empty })

end Sessionizer

end PacketQuapture.Flow
