import PacketQuapture.Reassembly.Stream
import PacketQuapture.Library.OrderedMap
import PacketQuapture.Library.Front

/-! The TCP reassembler as a state machine: `add` takes one packet, `finishNext` drains one
direction. A raised `Failure` ends the run, as the exception it models ends the query.
-/

namespace PacketQuapture.Reassembly

open Library

/-- The capture section and interface whose clock a direction follows. -/
abbrev ScopeKey := UInt32 ×ₗ UInt32

/-- One clock per capture interface, and the directions queued on it by deadline. -/
structure Scope where
  watermark : Int := 0
  expiry : Finset (Int ×ₗ TcpFlowKey) := ∅
deriving DecidableEq

structure TcpReassembler where
  limits : AcceptedLimits
  bufferedBytes : Nat := 0
  bufferedSegments : Nat := 0
  nextId : Nat := 1
  flows : OrderedMap TcpFlowKey Flow := .empty
  scopes : OrderedMap ScopeKey Scope := .empty

/-- One call of `add`: `payload` holds the captured bytes. -/
structure Packet where
  key : TcpFlowKey
  sequence : UInt32
  flags : UInt8
  payload : List UInt8
  declared : UInt32
  stamp : PacketStamp
deriving DecidableEq, Repr

def Packet.has (packet : Packet) (bit : UInt16) : Bool :=
  hasFlag packet.flags.toUInt16 bit

/-- The sequence number of the packet's first data byte: a SYN occupies one. -/
def Packet.dataSequence (packet : Packet) : UInt32 :=
  packet.sequence + (if packet.has tcpSyn then 1 else 0)

/-- The sequence number a FIN after the packet's data occupies. -/
def Packet.finSequence (packet : Packet) : UInt32 :=
  packet.dataSequence + packet.declared

/-- The segment a packet's data is buffered as, before its bytes are copied. -/
def Packet.segment (packet : Packet) : Segment :=
  { sequence := packet.dataSequence, declared := packet.declared, stamp := packet.stamp }

def scopeKey (key : TcpFlowKey) : ScopeKey :=
  toLex (key.sectionNumber, key.interfaceId)

/-- The constructor accepts limits whose offsets and owners fit uint32. -/
def TcpReassembler.new (limits : TcpReassemblyLimits) : Except Failure TcpReassembler :=
  if accepted : limits.maxStreamBytes ≤ 2 ^ 32 - 1 ∧ limits.maxSegments < 2 ^ 32 - 1
      ∧ 0 ≤ limits.tcpIdleUs then
    .ok { limits := ⟨limits, accepted.1, accepted.2.1, accepted.2.2⟩ }
  else
    .error (.assertion .constructor)

/-- The (sequence, declared) key `segmentOrder` sorts by. -/
def position (segment : Segment) : Nat :=
  segment.sequence.toNat <<< 32 ||| segment.declared.toNat

/-- The entries of `segmentOrder` with a segment's key, found by binary search. -/
def Flow.candidates (flow : Flow) (segment : Segment) : List (Nat ×ₗ Nat) :=
  (flow.segmentOrder.dropWhile (fun entry => entry < toLex (position segment, 0))).takeWhile
    (fun entry => (ofLex entry).1 = position segment)

/-- Whether a buffered segment has the same sequence, declared length and bytes. -/
def Flow.retransmits (flow : Flow) (segment : Segment) (payload : List UInt8) : Bool :=
  (flow.candidates segment).any fun entry =>
    flow.segments[(ofLex entry).2]?.any fun existing => existing.bytes = payload

/-- Appends a segment, its index entered after the entries of the same key. -/
def Flow.keep (flow : Flow) (segment : Segment) (payload : List UInt8) : Flow :=
  let upTo := fun entry : Nat ×ₗ Nat => decide (entry ≤ toLex (position segment, 2 ^ 32 - 1))
  { flow with
    segments := flow.segments ++ [{ segment with bytes := payload }]
    segmentOrder := flow.segmentOrder.takeWhile upTo
      ++ toLex (position segment, flow.segments.length % 2 ^ 32)
      :: flow.segmentOrder.dropWhile upTo
    bytes := flow.bytes + payload.length }

namespace TcpReassembler

/-! ### Failing and removing a direction -/

def fail (self : TcpReassembler) (flow : Flow) (reason : String) (status : TcpStreamStatus)
    : Except Failure (TcpReassembler × Flow) := do
  require (flow.bytes ≤ self.bufferedBytes) (.assertion .fail)
  require (flow.segments.length ≤ self.bufferedSegments) (.assertion .fail)
  return ({ self with
      bufferedBytes := self.bufferedBytes - flow.bytes
      bufferedSegments := self.bufferedSegments - flow.segments.length },
    { flow with
      bytes := 0
      segments := []
      segmentOrder := []
      failure := reason
      failureStatus := status })

def unschedule (self : TcpReassembler) (key : TcpFlowKey) (flow : Flow)
    : Except Failure (TcpReassembler × Flow) :=
  if ¬ flow.scheduled then
    .ok (self, flow)
  else
    match self.scopes.find? (scopeKey key) with
    | none => .error (.assertion .unschedule)
    | some scope => do
      require (toLex (flow.queued, key) ∈ scope.expiry) (.assertion .unschedule)
      let expiry := scope.expiry.erase (toLex (flow.queued, key))
      -- the scope is dropped once nothing is scheduled on it
      let scopes :=
        if expiry = ∅ then self.scopes.erase (scopeKey key)
        else self.scopes.insert (scopeKey key) { scope with expiry }
      return ({ self with scopes }, { flow with scheduled := false })

def remove (self : TcpReassembler) (key : TcpFlowKey) (reason : String)
    : Except Failure (TcpReassembler × List TcpStream) :=
  match self.flows.find? key with
  | none => .ok (self, [])
  | some flow => do
    require (flow.bytes ≤ self.bufferedBytes) (.assertion .remove)
    require (flow.segments.length ≤ self.bufferedSegments) (.assertion .remove)
    let messages ← finish self.limits key flow
    let (self, flow) ← self.unschedule key flow
    return ({ self with
        bufferedBytes := self.bufferedBytes - flow.bytes
        bufferedSegments := self.bufferedSegments - flow.segments.length
        flows := self.flows.erase key },
      messages.map (fun stream => { stream with finalizedBy := reason }))

/-! ### Idle eviction -/

/-- Deadlines only move later. A direction already queued keeps its entry and only records the
later deadline; `expire` re-queues an entry it finds stale.
-/
def schedule (self : TcpReassembler) (key : TcpFlowKey) (flow : Flow) (stamp : PacketStamp)
    : Except Failure (TcpReassembler × Flow) :=
  let flow := if stamp.hasTimestamp then flow else { flow with untimed := true }
  let timeout := self.limits.tcpIdleUs
  if flow.untimed ∨ timeout ≤ 0 ∨ int64Max - timeout < stamp.timestamp then
    self.unschedule key flow
  else
    let deadline := stamp.timestamp + timeout
    if flow.scheduled ∧ deadline ≤ flow.deadline then
      .ok (self, flow)
    else
      let found := self.scopes.find? (scopeKey key)
      let scope := found.getD {}
      let watermark :=
        if found.isNone then stamp.timestamp else max scope.watermark stamp.timestamp
      if flow.scheduled then do
        -- its queued entry keeps the scope alive
        require (found.isSome) (.assertion .schedule)
        require (flow.queued < deadline) (.assertion .schedule)
        return ({ self with scopes := self.scopes.insert (scopeKey key) { scope with watermark } },
          { flow with deadline })
      else
        .ok ({ self with
            scopes := self.scopes.insert (scopeKey key)
              { watermark, expiry := insert (toLex (deadline, key)) scope.expiry } },
          { flow with deadline, queued := deadline, scheduled := true })

/-- Finalizes the directions queued before `watermark`, one entry a pass. -/
def expireLoop (id : ScopeKey) (watermark : Int)
    : Nat → TcpReassembler → List TcpStream → Except Failure (TcpReassembler × List TcpStream)
  | 0, _, _ => .error .outOfFuel
  | fuel + 1, self, output =>
    match self.scopes.find? id with
    | none => .ok (self, output)
    | some scope =>
      match front? scope.expiry with
      | none => .error .emptyExpiry
      | some entry =>
        let queued := (ofLex entry).1
        let key := (ofLex entry).2
        if watermark ≤ queued then
          .ok (self, output)
        else
          match self.flows.find? key with
          | none => .error (.assertion .expire)
          | some flow => do
            require flow.scheduled (.assertion .expire)
            require (flow.queued = queued) (.assertion .expire)
            require (flow.queued ≤ flow.deadline) (.assertion .expire)
            if queued < flow.deadline then
              -- a stale entry moves to its direction's real deadline
              expireLoop id watermark fuel
                { self with
                  flows := self.flows.insert key { flow with queued := flow.deadline }
                  scopes := self.scopes.insert id
                    { scope with
                      expiry := insert (toLex (flow.deadline, key))
                        (scope.expiry.erase entry) } }
                output
            else do
              let (self, streams) ← self.remove key "idle_timeout"
              expireLoop id watermark fuel self (output ++ streams)

/-- Finalizes every direction on this packet's interface that has been quiet for longer than
the timeout. A packet further behind than the timeout restarts the clock from itself.
-/
def expire (self : TcpReassembler) (key : TcpFlowKey) (stamp : PacketStamp)
    : Except Failure (TcpReassembler × List TcpStream) :=
  if ¬ stamp.hasTimestamp then
    .ok (self, [])
  else
    match self.scopes.find? (scopeKey key) with
    | none => .ok (self, [])
    | some scope =>
      let clock := scope.watermark
      let steppedBack :=
        stamp.timestamp < clock ∧ self.limits.tcpIdleUs < (clock - stamp.timestamp) % 2 ^ 64
      let watermark := if steppedBack then stamp.timestamp else max clock stamp.timestamp
      -- two passes at most for each direction, and one to stop
      expireLoop (scopeKey key) watermark (2 * self.flows.size + 1)
        { self with scopes := self.scopes.insert (scopeKey key) { scope with watermark } } []

/-! ### Buffering -/

/-- Keeps a data segment for `finish`; a retransmission of the same range and bytes is dropped. -/
def buffer (self : TcpReassembler) (flow : Flow) (segment : Segment) (payload : List UInt8)
    : Except Failure (TcpReassembler × Flow) := do
  let captured := payload.length
  require (captured ≤ segment.declared.toNat) (.assertion .buffer)
  if self.limits.maxStreamBytes < captured ∨ self.limits.maxTotalBytes < captured then
    self.fail flow "TCP segment exceeds reassembly limits" .limit
  else do
    require (flow.segmentOrder.length = flow.segments.length) (.assertion .buffer)
    if flow.retransmits segment payload then
      return (self, flow)
    else do
      require (flow.bytes ≤ self.limits.maxStreamBytes) (.assertion .buffer)
      require (self.bufferedBytes ≤ self.limits.maxTotalBytes) (.assertion .buffer)
      if self.limits.maxSegments ≤ flow.segments.length
          ∨ self.limits.maxTotalSegments ≤ self.bufferedSegments
          ∨ self.limits.maxStreamBytes - flow.bytes < captured
          ∨ self.limits.maxTotalBytes - self.bufferedBytes < captured then
        self.fail flow "TCP reassembly byte or segment limit reached" .limit
      else
        return ({ self with
            bufferedSegments := self.bufferedSegments + 1
            bufferedBytes := self.bufferedBytes + captured },
          flow.keep segment payload)

/-! ### Adding a packet -/

/-- Starts tracking a direction, or reports it as a limit diagnostic when the table is full. -/
def track (self : TcpReassembler) (packet : Packet)
    : Except Failure (TcpReassembler × Option Flow × List TcpStream) :=
  if self.nextId = 2 ^ 64 - 1 then
    .error .streamIdsExhausted
  else if self.limits.maxFlows ≤ self.flows.size then
    let overflow : Flow :=
      { id := self.nextId
        first := packet.stamp
        last := packet.stamp
        hasSyn := packet.has tcpSyn
        synSequence := packet.sequence }
    .ok ({ self with nextId := self.nextId + 1 }, none,
      [{ diagnostic packet.key overflow .limit "maximum tracked TCP directions reached" with
          finalizedBy := "limit" }])
  else
    let flow : Flow := { id := self.nextId, first := packet.stamp, last := packet.stamp }
    .ok ({ self with
        nextId := self.nextId + 1
        flows := self.flows.insert packet.key flow }, some flow, [])

/-- A SYN that opens a new connection on its tuple ends the directions tracked there. Yields the
direction the packet continues, if there is one.
-/
def supersede (self : TcpReassembler) (packet : Packet)
    : Except Failure (TcpReassembler × Option Flow × List TcpStream) :=
  let existing := self.flows.find? packet.key
  let newSyn := packet.has tcpSyn
    && existing.all (fun flow => flow.hasSyn && flow.synSequence != packet.sequence)
  if newSyn then do
    let (self, own) ← self.remove packet.key "tuple_reuse"
    if ¬ packet.has tcpAckFlag then
      let (self, reversed) ← self.remove packet.key.reverse "tuple_reuse"
      return (self, none, own ++ reversed)
    else
      return (self, none, own)
  else
    .ok (self, existing, [])

/-- Records a FIN position; a second, different one fails the direction. -/
def recordFin (self : TcpReassembler) (flow : Flow) (packet : Packet)
    : Except Failure (TcpReassembler × Flow) :=
  if packet.has tcpFin then do
    let (self, flow) ←
      if flow.hasFin ∧ flow.finSequence ≠ packet.finSequence then
        self.fail flow "conflicting TCP FIN positions" .conflict
      else
        .ok (self, flow)
    return (self, { flow with hasFin := true, finSequence := packet.finSequence })
  else
    .ok (self, flow)

/-- Fails a direction whose packet captured more bytes than it declared. -/
def checkCaptured (self : TcpReassembler) (flow : Flow) (packet : Packet)
    : Except Failure (TcpReassembler × Flow) :=
  if flow.failure = "" ∧ packet.declared.toNat < packet.payload.length then
    self.fail flow "captured TCP bytes exceed declared payload length" .conflict
  else
    .ok (self, flow)

/-- Buffers the packet's data, unless its direction failed. -/
def bufferData (self : TcpReassembler) (flow : Flow) (packet : Packet)
    : Except Failure (TcpReassembler × Flow) :=
  if flow.failure = "" ∧ 0 < packet.declared then
    self.buffer flow packet.segment packet.payload
  else
    .ok (self, flow)

/-- Charges a packet to its direction and stores the direction back in the table. -/
def absorb (self : TcpReassembler) (flow : Flow) (packet : Packet)
    : Except Failure TcpReassembler := do
  let (self, flow) ← self.schedule packet.key { flow with last := packet.stamp } packet.stamp
  let flow :=
    if packet.has tcpSyn then { flow with hasSyn := true, synSequence := packet.sequence }
    else flow
  let (self, flow) ← self.recordFin flow packet
  let (self, flow) ← self.checkCaptured flow packet
  let (self, flow) ← self.bufferData flow packet
  return { self with flows := self.flows.insert packet.key flow }

/-- A reset ends both directions of its connection. -/
def reset (self : TcpReassembler) (packet : Packet)
    : Except Failure (TcpReassembler × List TcpStream) :=
  if packet.has tcpRst then do
    let (self, own) ← self.remove packet.key "reset"
    let (self, reversed) ← self.remove packet.key.reverse "reset"
    return (self, own ++ reversed)
  else
    .ok (self, [])

/-- Finds or tracks the packet's direction; `none` when the packet is not charged to any. -/
def locate (self : TcpReassembler) (packet : Packet)
    : Except Failure (TcpReassembler × Option Flow × List TcpStream) := do
  let (self, expired) ← self.expire packet.key packet.stamp
  let (self, located, superseded) ← self.supersede packet
  match located with
  | some flow => return (self, some flow, expired ++ superseded)
  | none =>
    if ¬ packet.has tcpSyn ∧ packet.declared = 0 ∧ packet.payload.length = 0 then
      if packet.has tcpRst then
        let (self, reversed) ← self.remove packet.key.reverse "reset"
        return (self, none, expired ++ superseded ++ reversed)
      else
        return (self, none, expired ++ superseded)
    else
      let (self, tracked, rejected) ← self.track packet
      return (self, tracked, expired ++ superseded ++ rejected)

def add (self : TcpReassembler) (packet : Packet)
    : Except Failure (TcpReassembler × List TcpStream) := do
  let (self, located, output) ← self.locate packet
  match located with
  | none => return (self, output)
  | some flow =>
    let self ← self.absorb flow packet
    let (self, ended) ← self.reset packet
    return (self, output ++ ended)

/-! ### Draining -/

def finishNext (self : TcpReassembler) : Except Failure (TcpReassembler × List TcpStream) :=
  match self.flows.first? with
  | none => .ok (self, [])
  | some (key, _) => self.remove key "eof"

/-- Repeats `finishNext` until no direction is left; each call removes one. -/
def drainLoop : Nat → TcpReassembler → List TcpStream
    → Except Failure (TcpReassembler × List TcpStream)
  | 0, self, output => if self.flows.size = 0 then .ok (self, output) else .error .outOfFuel
  | fuel + 1, self, output =>
    if self.flows.size = 0 then
      .ok (self, output)
    else do
      let (self, streams) ← self.finishNext
      drainLoop fuel self (output ++ streams)

def drain (self : TcpReassembler) : Except Failure (TcpReassembler × List TcpStream) :=
  drainLoop self.flows.size self []

/-- A call of the reassembler's interface. -/
inductive Call where
  | add (packet : Packet)
  | finishNext

def call (self : TcpReassembler) : Call → Except Failure (TcpReassembler × List TcpStream)
  | .add packet => self.add packet
  | .finishNext => self.finishNext

/-- The state and the streams emitted after a run of calls. -/
def run : TcpReassembler → List Call → Except Failure (TcpReassembler × List TcpStream)
  | self, [] => .ok (self, [])
  | self, next :: rest => do
    let (self, streams) ← self.call next
    let (self, later) ← self.run rest
    return (self, streams ++ later)

/-- Adds every packet, then drains what is left. -/
def scan (self : TcpReassembler) (packets : List Packet)
    : Except Failure (TcpReassembler × List TcpStream) := do
  let (self, output) ← self.run (packets.map .add)
  let (self, drained) ← self.drain
  return (self, output ++ drained)

end TcpReassembler

end PacketQuapture.Reassembly
