import PacketQuapture.Decoder.Packet
import PacketQuapture.Library.Outcome

/-! The session a flow row describes: its key, its counters and the TCP handshake it has
seen. Counters are uint64 and checked before every addition; timestamps are int64
microseconds.
-/

namespace PacketQuapture.Flow

open Library

/-! ### Keys -/

structure FlowEndpoint where
  ip : FixedBytes 16 := .zero 16
  port : UInt16 := 0
deriving Repr

/-- The fields in the order `operator<` ties them. -/
def FlowEndpoint.tied (endpoint : FlowEndpoint) : FixedBytes 16 ×ₗ UInt16 :=
  toLex (endpoint.ip, endpoint.port)

theorem FlowEndpoint.tied_injective : Function.Injective FlowEndpoint.tied := by
  intro left right same
  cases left
  cases right
  simp only [tied, EmbeddingLike.apply_eq_iff_eq, Prod.mk.injEq] at same
  simp only [FlowEndpoint.mk.injEq]
  exact same

instance linearOrderFlowEndpoint : LinearOrder FlowEndpoint :=
  LinearOrder.lift' FlowEndpoint.tied FlowEndpoint.tied_injective

/-- One conversation: both endpoints in ascending order, with the tags around them. -/
structure SessionKey where
  interfaceId : UInt32 := 0
  ipVersion : UInt8 := 0
  protocol : UInt8 := 0
  vlanCount : UInt8 := 0
  vlans : FixedArray UInt16 8 := ⟨List.replicate 8 0, rfl⟩
  low : FlowEndpoint := {}
  high : FlowEndpoint := {}
deriving Repr

/-- The fields in the order `operator<` ties them. -/
def SessionKey.tied (key : SessionKey)
    : UInt32 ×ₗ UInt8 ×ₗ UInt8 ×ₗ UInt8 ×ₗ FixedArray UInt16 8 ×ₗ FlowEndpoint
      ×ₗ FlowEndpoint :=
  toLex (key.interfaceId, toLex (key.ipVersion, toLex (key.protocol, toLex (key.vlanCount,
    toLex (key.vlans, toLex (key.low, key.high))))))

theorem SessionKey.tied_injective : Function.Injective SessionKey.tied := by
  intro left right same
  cases left
  cases right
  simp only [tied, EmbeddingLike.apply_eq_iff_eq, Prod.mk.injEq] at same
  simp only [SessionKey.mk.injEq]
  exact same

instance linearOrderSessionKey : LinearOrder SessionKey :=
  LinearOrder.lift' SessionKey.tied SessionKey.tied_injective

structure FlowInput where
  sectionNumber : UInt32 := 0
  interfaceId : UInt32 := 0
  capturedLength : UInt32 := 0
  originalLength : UInt32 := 0
  stamp : PacketStamp := {}
  packet : DecodedPacket := {}
deriving DecidableEq, Repr

/-- Whether the aggregator accounts for the packet: a whole TCP or UDP datagram. -/
def FlowInput.eligible (input : FlowInput) : Bool :=
  input.packet.transport && (input.packet.tcp || input.packet.udp)
    && input.packet.ipFragmentOffset == 0 && !input.packet.ipMoreFragments

def FlowInput.source (input : FlowInput) : FlowEndpoint :=
  { ip := input.packet.srcIp, port := input.packet.srcPort }

def FlowInput.destination (input : FlowInput) : FlowEndpoint :=
  { ip := input.packet.dstIp, port := input.packet.dstPort }

/-- The tags of a stack, padded with zeros to the capacity of a session key. -/
def padVlans (vlans : VlanStack) : FixedArray UInt16 8 :=
  ⟨vlans.val ++ List.replicate (8 - vlans.val.length) 0, by
    have bounded := vlans.property
    simp only [List.length_append, List.length_replicate]
    omega⟩

/-- The session key of an eligible packet, with its endpoints in canonical order, and
whether the packet travels from the low endpoint.
-/
def makeKey (input : FlowInput) : SessionKey × Bool :=
  let fromLow := decide ¬(input.destination < input.source)
  ({ interfaceId := input.interfaceId
     ipVersion := input.packet.ipVersion
     protocol := if input.packet.tcp then 6 else 17
     vlanCount := UInt8.ofNat input.packet.vlanIds.val.length
     vlans := padVlans input.packet.vlanIds
     low := if fromLow then input.source else input.destination
     high := if fromLow then input.destination else input.source }, fromLow)

/-! ### Rows -/

structure FlowCounters where
  packets : Nat := 0
  capturedBytes : Nat := 0
  reportedBytes : Nat := 0
  payloadBytes : Nat := 0
  flags : UInt16 := 0
deriving DecidableEq, Repr

/-- What named the originator; `unset` is the empty text of a fresh row. -/
inductive OriginatorBasis where
  | unset
  | firstPacket
  | syn
  | synAck
deriving DecidableEq, Repr

/-- Why a row was emitted; `unset` is the empty text of a session still open. -/
inductive FinalizedBy where
  | unset
  | eof
  | sectionBoundary
  | idleTimeout
  | tupleReuse
  | limit
  | reset
deriving DecidableEq, Repr

structure FlowSummary where
  key : SessionKey := {}
  sectionNumber : UInt32 := 0
  firstPacket : Nat := 0
  lastPacket : Nat := 0
  origIsLow : Bool := true
  hasTimestamp : Bool := false
  firstTimestamp : Int := 0
  lastTimestamp : Int := 0
  missingTimestamps : Nat := 0
  latePackets : Nat := 0
  orig : FlowCounters := {}
  resp : FlowCounters := {}
  handshakeComplete : Bool := false
  simultaneousOpen : Bool := false
  equalEndpoints : Bool := false
  synSeen : Bool := false
  finSeen : Bool := false
  resetSeen : Bool := false
  originatorBasis : OriginatorBasis := .unset
  finalizedBy : FinalizedBy := .unset
deriving DecidableEq, Repr

/-- The counters of one side of a row. -/
def FlowSummary.side (row : FlowSummary) (orig : Bool) : FlowCounters :=
  if orig then row.orig else row.resp

def FlowSummary.setSide (row : FlowSummary) (orig : Bool) (counts : FlowCounters)
    : FlowSummary :=
  if orig then { row with orig := counts } else { row with resp := counts }

/-- One value for the originator and one for the responder. -/
structure PerSide (α : Type) where
  orig : α
  resp : α
deriving DecidableEq, Repr

def PerSide.get {α : Type} (pair : PerSide α) (orig : Bool) : α :=
  if orig then pair.orig else pair.resp

def PerSide.set {α : Type} (pair : PerSide α) (orig : Bool) (value : α) : PerSide α :=
  if orig then { pair with orig := value } else { pair with resp := value }

/-- A session without its place in the expiry queue. -/
structure Session where
  row : FlowSummary := {}
  syn : PerSide Bool := ⟨false, false⟩
  synAck : PerSide Bool := ⟨false, false⟩
  sequence : PerSide UInt32 := ⟨0, 0⟩
  handshakeClosed : Bool := false
deriving DecidableEq, Repr

/-! ### Failures -/

/-- The operations whose PQ_ASSERT can fail. -/
inductive AssertSite where
  | unschedule
  | schedule
  | refresh
  | evictable
  | emit
  | next
deriving DecidableEq, Repr

inductive Failure where
  | assertion (site : AssertSite)
  /-- `scopes.at` of an interface without a scope. -/
  | missingScope
  /-- A loop outran the iterations its comment promises. -/
  | outOfFuel
  /-- "Drain flow output before pushing another record", or before Finish. -/
  | undrained
  /-- "Invalid flow packet number" -/
  | packetNumber
  /-- "Flow counter exceeds UBIGINT capacity" -/
  | counterOverflow
  /-- "Flow scope capacity exceeded" -/
  | scopeCapacity
deriving DecidableEq, Repr

/-! ### Accounting one packet -/

def addChecked (target amount : Nat) : Except Failure Nat :=
  if 2 ^ 64 - 1 - target < amount then .error .counterOverflow else .ok (target + amount)

/-- Counts one more occurrence when there is one. -/
def addIf (occurs : Bool) (target : Nat) : Except Failure Nat :=
  if occurs then addChecked target 1 else .ok target

/-- The counters of one side after a packet of that side. -/
def FlowCounters.count (counts : FlowCounters) (input : FlowInput)
    : Except Failure FlowCounters := do
  let packets ← addChecked counts.packets 1
  let capturedBytes ← addChecked counts.capturedBytes input.capturedLength.toNat
  let reportedBytes ← addChecked counts.reportedBytes input.originalLength.toNat
  let payloadBytes ← addChecked counts.payloadBytes input.packet.payloadLength.toNat
  let flags := if input.packet.tcp then counts.flags ||| input.packet.tcpFlags else counts.flags
  .ok { packets, capturedBytes, reportedBytes, payloadBytes, flags }

/-- The timestamps of a row after a packet; `late` says that the packet lies behind the
watermark of its interface.
-/
def FlowSummary.observeStamp (row : FlowSummary) (stamp : PacketStamp) (late : Bool)
    : Except Failure FlowSummary :=
  if stamp.hasTimestamp then do
    let latePackets ← addIf late row.latePackets
    .ok { row with
      firstTimestamp :=
        if row.hasTimestamp then min row.firstTimestamp stamp.timestamp else stamp.timestamp
      lastTimestamp :=
        if row.hasTimestamp then max row.lastTimestamp stamp.timestamp else stamp.timestamp
      hasTimestamp := true
      latePackets }
  else do
    let missingTimestamps ← addChecked row.missingTimestamps 1
    .ok { row with missingTimestamps }

/-- Whether the packet is a SYN without ACK. -/
def isSyn (packet : DecodedPacket) : Bool :=
  packet.tcpFlags &&& (tcpSyn ||| tcpAckFlag) == tcpSyn

/-- Whether the packet is a SYN with ACK. -/
def isSynAck (packet : DecodedPacket) : Bool :=
  packet.tcpFlags &&& (tcpSyn ||| tcpAckFlag) == tcpSyn ||| tcpAckFlag

/-- The three-way handshake after a segment of one side. -/
def Session.handshake (session : Session) (packet : DecodedPacket) (orig : Bool) : Session :=
  if isSyn packet then
    { session with
      row := { session.row with
        simultaneousOpen := session.row.simultaneousOpen || session.syn.get !orig }
      syn := session.syn.set orig true
      sequence := session.sequence.set orig packet.tcpSeq }
  else if isSynAck packet then
    if session.syn.get !orig && packet.tcpAck == session.sequence.get (!orig) + 1 then
      { session with
        synAck := session.synAck.set orig true
        sequence := session.sequence.set orig packet.tcpSeq }
    else session
  else if hasFlag packet.tcpFlags tcpAckFlag && session.syn.get orig && session.synAck.get (!orig)
      && packet.tcpAck == session.sequence.get (!orig) + 1
      && packet.tcpSeq == session.sequence.get orig + 1 then
    { session with row := { session.row with handshakeComplete := true } }
  else session

/-- The flags a row keeps of the segments seen. -/
def Session.observeFlags (session : Session) (packet : DecodedPacket) : Session :=
  { session with
    handshakeClosed := session.handshakeClosed
      || (!hasFlag packet.tcpFlags tcpSyn
        && (hasFlag packet.tcpFlags tcpAckFlag || packet.payloadLength != 0))
    row := { session.row with
      synSeen := session.row.synSeen || hasFlag packet.tcpFlags tcpSyn
      finSeen := session.row.finSeen || hasFlag packet.tcpFlags tcpFin
      resetSeen := session.row.resetSeen || hasFlag packet.tcpFlags tcpRst } }

def Session.account (session : Session) (input : FlowInput) (fromLow late : Bool)
    : Except Failure Session := do
  let orig := fromLow == session.row.origIsLow
  let counts ← (session.row.side orig).count input
  let counted := session.row.setSide orig counts
  let row ← { counted with lastPacket := input.stamp.number }.observeStamp input.stamp late
  let session := { session with row }
  .ok (if input.packet.tcp
    then (session.observeFlags input.packet).handshake input.packet orig else session)

/-- Whether a SYN starts a new session on a tuple already in use, rather than
retransmitting or simultaneously opening the existing one.
-/
def Session.reused (session : Session) (packet : DecodedPacket) (fromLow : Bool) : Bool :=
  let side := fromLow == session.row.origIsLow
  let activeHandshake :=
    !session.handshakeClosed && !session.row.handshakeComplete && !session.row.finSeen
  let retransmit :=
    activeHandshake && session.syn.get side && session.sequence.get side == packet.tcpSeq
  let simultaneous :=
    activeHandshake && !session.syn.get side && session.syn.get (!side)
      && !session.synAck.get side
  !retransmit && !simultaneous

/-- A session that has seen no packet yet; a SYN-ACK names its receiver the originator. -/
def Session.open (key : SessionKey) (fromLow : Bool) (sectionNumber : UInt32) (input : FlowInput)
    : Session :=
  let tcpSynSet := input.packet.tcp && hasFlag input.packet.tcpFlags tcpSyn
  let acknowledged := hasFlag input.packet.tcpFlags tcpAckFlag
  { row := {
      key
      sectionNumber
      firstPacket := input.stamp.number
      origIsLow := if tcpSynSet && acknowledged then !fromLow else fromLow
      equalEndpoints := key.low == key.high
      originatorBasis :=
        if tcpSynSet then (if acknowledged then .synAck else .syn) else .firstPacket } }

end PacketQuapture.Flow
