import PacketQuapture.Decoder.Packet
import PacketQuapture.Library.Outcome

/-! The data one TCP direction buffers, and the stream `finish` reconstructs from it.
Sequence numbers are uint32 and wrap; sizes are unbounded naturals below the limits the
constructor accepts.
-/

namespace PacketQuapture.Reassembly

open Library

/-! ### Keys -/

structure TcpFlowKey where
  sectionNumber : UInt32 := 0
  interfaceId : UInt32 := 0
  ipVersion : UInt8 := 0
  srcIp : FixedBytes 16 := .zero 16
  dstIp : FixedBytes 16 := .zero 16
  srcPort : UInt16 := 0
  dstPort : UInt16 := 0
  vlans : VlanStack := .empty
deriving DecidableEq, Repr

/-- The fields in the order `operator<` ties them. -/
def TcpFlowKey.tied (key : TcpFlowKey)
    : UInt32 ×ₗ UInt32 ×ₗ UInt8 ×ₗ FixedBytes 16 ×ₗ FixedBytes 16 ×ₗ UInt16 ×ₗ UInt16
      ×ₗ VlanStack :=
  toLex (key.sectionNumber, toLex (key.interfaceId, toLex (key.ipVersion, toLex (key.srcIp,
    toLex (key.dstIp, toLex (key.srcPort, toLex (key.dstPort, key.vlans)))))))

theorem TcpFlowKey.tied_injective : Function.Injective TcpFlowKey.tied := by
  intro left right same
  cases left
  cases right
  simp only [tied, EmbeddingLike.apply_eq_iff_eq, Prod.mk.injEq] at same
  simp only [TcpFlowKey.mk.injEq]
  exact same

instance : LinearOrder TcpFlowKey := LinearOrder.lift' TcpFlowKey.tied TcpFlowKey.tied_injective

def TcpFlowKey.reverse (key : TcpFlowKey) : TcpFlowKey :=
  { key with
    srcIp := key.dstIp
    dstIp := key.srcIp
    srcPort := key.dstPort
    dstPort := key.srcPort }

/-! ### Emitted streams -/

/-- A run of a chunk's bytes that one packet supplied; the offset is within the chunk. -/
structure TcpByteOrigin where
  offset : UInt32 := 0
  length : UInt32 := 0
  stamp : PacketStamp := {}
deriving DecidableEq, Repr

structure TcpStreamChunk where
  offset : UInt32 := 0
  sequence : UInt32 := 0
  data : List UInt8 := []
  origins : List TcpByteOrigin := []
deriving DecidableEq, Repr

structure TcpGap where
  offset : UInt32 := 0
  length : UInt32 := 0
deriving DecidableEq, Repr

inductive TcpStreamStatus where
  | unset
  | contiguous
  | gapped
  | unanchored
  | conflict
  | limit
deriving DecidableEq, Repr

structure TcpStream where
  key : TcpFlowKey := {}
  streamId : Nat := 0
  sequence : UInt32 := 0
  expectedBytes : UInt32 := 0
  capturedBytes : UInt32 := 0
  synSeen : Bool := false
  finSeen : Bool := false
  first : PacketStamp := {}
  last : PacketStamp := {}
  status : TcpStreamStatus := .unset
  error : String := ""
  finalizedBy : String := ""
  chunks : List TcpStreamChunk := []
  gaps : List TcpGap := []
deriving DecidableEq, Repr

/-! ### Limits and buffered directions -/

structure TcpReassemblyLimits where
  maxFlows : Nat := 1024
  maxTotalBytes : Nat := 32 * 1024 * 1024
  maxStreamBytes : Nat := 1024 * 1024
  maxSegments : Nat := 4096
  maxTotalSegments : Nat := 65536
  tcpIdleUs : Int := 300000000
deriving DecidableEq, Repr

/-- The limits the constructor accepts: offsets, extents and segment owners fit uint32, and
the largest uint32 is left over to mark a byte no segment owns.
-/
structure AcceptedLimits extends TcpReassemblyLimits where
  streamBytesFit : maxStreamBytes ≤ 2 ^ 32 - 1
  segmentsFit : maxSegments < 2 ^ 32 - 1
  idleNonneg : 0 ≤ tcpIdleUs

structure Segment where
  sequence : UInt32
  declared : UInt32
  stamp : PacketStamp
  bytes : List UInt8 := []
deriving DecidableEq, Repr

structure Flow where
  id : Nat := 0
  hasSyn : Bool := false
  hasFin : Bool := false
  synSequence : UInt32 := 0
  finSequence : UInt32 := 0
  first : PacketStamp := {}
  last : PacketStamp := {}
  bytes : Nat := 0
  failure : String := ""
  failureStatus : TcpStreamStatus := .unset
  segments : List Segment := []
  /-- Pairs of a segment's position and its index in `segments`, sorted. -/
  segmentOrder : List (Nat ×ₗ Nat) := []
  scheduled : Bool := false
  untimed : Bool := false
  deadline : Int := 0
  queued : Int := 0
deriving DecidableEq

/-- The functions whose assertions can fail. -/
inductive AssertSite where
  | constructor
  | fail
  | remove
  | unschedule
  | schedule
  | expire
  | buffer
  | finish
  | provenance
deriving DecidableEq, Repr

inductive Failure where
  | assertion (site : AssertSite)
  | streamIdsExhausted
  /-- `begin()` of an empty expiry set is dereferenced. -/
  | emptyExpiry
  /-- A loop outran the iterations its comment promises. -/
  | outOfFuel
deriving DecidableEq, Repr

/-! ### Finishing a direction -/

def diagnostic (key : TcpFlowKey) (flow : Flow) (status : TcpStreamStatus) (error : String)
    : TcpStream :=
  { key
    streamId := flow.id
    first := flow.first
    last := flow.last
    sequence := flow.synSequence + 1
    synSeen := flow.hasSyn
    finSeen := flow.hasFin
    status
    error }

def relativeSequence (sequence base : UInt32) : Int :=
  let difference := (sequence - base).toNat
  if difference ≤ 2 ^ 31 - 1 then difference else (difference : Int) - 2 ^ 32

/-- The sequence number of stream offset zero: just past the SYN, or without one, the earliest
sequence any segment starts at, measured from the first buffered segment.
-/
def streamBase (flow : Flow) : UInt32 :=
  if flow.hasSyn then flow.synSequence + 1
  else
    match flow.segments with
    | [] => 0
    | front :: _ =>
      let firstOffset := flow.segments.foldl
        (fun least segment => min least (relativeSequence segment.sequence front.sequence)) 0
      front.sequence + UInt32.ofInt firstOffset

/-- One segment's offset from `base`, if its declared range fits the window. -/
def place (limits : AcceptedLimits) (base : UInt32) (segment : Segment) : Option Nat :=
  let offset := relativeSequence segment.sequence base
  if offset < 0 ∨ limits.maxStreamBytes < offset.toNat
      ∨ limits.maxStreamBytes - offset.toNat < segment.declared.toNat then
    none
  else
    some offset.toNat

/-- Places every segment and the FIN relative to `base`: the segments' offsets and the stream
extent, or the diagnostic that replaces the stream.
-/
def measure (limits : AcceptedLimits) (key : TcpFlowKey) (flow : Flow) (base : UInt32)
    : Except TcpStream (List Nat × Nat) :=
  match flow.segments.mapM (place limits base) with
  | none =>
    .error (diagnostic key flow .limit "TCP sequence span exceeds bounded reassembly window")
  | some offsets =>
    let extent :=
      (List.zipWith (fun offset segment => offset + segment.declared.toNat) offsets
        flow.segments).foldl max 0
    if flow.hasFin then
      let finish := relativeSequence flow.finSequence base
      if finish < 0 ∨ limits.maxStreamBytes < finish.toNat then
        .error (diagnostic key flow .limit "TCP FIN exceeds bounded reassembly window")
      else if finish.toNat < extent then
        .error (diagnostic key flow .conflict "captured TCP data extends beyond FIN")
      else
        .ok (offsets, finish.toNat)
    else
      .ok (offsets, extent)

/-- Marks a reassembled byte that no segment supplied. -/
def unowned : Nat := 2 ^ 32 - 1

/-- One position of the overlay: its byte, and the segment that first supplied it. -/
structure Cell where
  byte : UInt8 := 0
  owner : Nat := unowned
deriving DecidableEq, Repr

def overlayByte (index pos : Nat) (byte : UInt8) (cells : List Cell) : Option (List Cell) :=
  let cell := cells.getD pos {}
  if cell.owner ≠ unowned ∧ cell.byte ≠ byte then none
  else if cell.owner = unowned then some (cells.set pos { byte, owner := index % 2 ^ 32 })
  else some cells

def overlaySegment (index : Nat) : Nat → List UInt8 → List Cell → Option (List Cell)
  | _, [], cells => some cells
  | pos, byte :: rest, cells =>
    (overlayByte index pos byte cells).bind (overlaySegment index (pos + 1) rest)

/-- Copies each segment's bytes to its offset, recording the first segment to supply each byte;
`none` when overlapping segments disagree.
-/
def overlay : Nat → List Segment → List Nat → List Cell → Option (List Cell)
  | index, segment :: segments, offset :: offsets, cells =>
    (overlaySegment index offset segment.bytes cells).bind
      (overlay (index + 1) segments offsets)
  | _, _, _, cells => some cells

/-- One origin per run of bytes from the same segment, over the cells of one chunk. -/
def emitOrigins (segments : List Segment) : Nat → Nat → List Cell → List TcpByteOrigin
  | fuel + 1, offset, cell :: rest =>
    let run := (cell :: rest).takeWhile (fun next => next.owner = cell.owner)
    { offset := UInt32.ofNat offset
      length := UInt32.ofNat run.length
      stamp := (segments[cell.owner]?.map Segment.stamp).getD {} }
      :: emitOrigins segments fuel (offset + run.length) ((cell :: rest).drop run.length)
  | _, _, _ => []

/-- Splits the overlaid bytes from `offset` on into gaps and chunks. -/
def emitFrom (segments : List Segment) : Nat → Nat → List Cell → TcpStream → TcpStream
  | fuel + 1, offset, cell :: rest, stream =>
    if cell.owner = unowned then
      let run := (cell :: rest).takeWhile (fun next => next.owner = unowned)
      emitFrom segments fuel (offset + run.length) ((cell :: rest).drop run.length)
        { stream with
          gaps := stream.gaps
            ++ [{ offset := UInt32.ofNat offset, length := UInt32.ofNat run.length }] }
    else
      let run := (cell :: rest).takeWhile (fun next => next.owner ≠ unowned)
      emitFrom segments fuel (offset + run.length) ((cell :: rest).drop run.length)
        { stream with
          capturedBytes := stream.capturedBytes + UInt32.ofNat run.length
          chunks := stream.chunks
            ++ [{ offset := UInt32.ofNat offset
                  sequence := stream.sequence + UInt32.ofNat offset
                  data := run.map Cell.byte
                  origins := emitOrigins segments run.length 0 run }] }
  | _, _, _, stream => stream

/-- Each pass takes a non-empty run, so the extent bounds the passes. -/
def emit (flow : Flow) (cells : List Cell) (stream : TcpStream) : TcpStream :=
  emitFrom flow.segments cells.length 0 cells stream

/-- Marks a stream that lacks its SYN, or else one that has gaps. -/
def judge (flow : Flow) (stream : TcpStream) : TcpStream :=
  if ¬ flow.hasSyn then
    { stream with
      status := .unanchored
      error := "TCP SYN was not captured; offsets start at the earliest observed sequence" }
  else if stream.gaps ≠ [] then
    { stream with
      status := .gapped
      error := "missing TCP bytes leave sequence gaps" }
  else
    stream

def finish (limits : AcceptedLimits) (key : TcpFlowKey) (flow : Flow)
    : Except Failure (List TcpStream) :=
  if flow.failure ≠ "" then
    .ok [diagnostic key flow flow.failureStatus flow.failure]
  else if flow.segments = [] ∧ ¬ flow.hasFin then
    .ok []
  else if ¬ flow.hasSyn ∧ flow.segments = [] then
    .ok []
  else
    let base := streamBase flow
    match measure limits key flow base with
    | .error stream => .ok [stream]
    | .ok (offsets, extent) => do
      require (extent ≤ limits.maxStreamBytes) (.assertion .finish)
      match overlay 0 flow.segments offsets (List.replicate extent {}) with
      | none =>
        return [diagnostic key flow .conflict
          "overlapping TCP segments contain different bytes"]
      | some cells =>
        let stream := emit flow cells
          { diagnostic key flow .contiguous "" with
            sequence := base
            expectedBytes := UInt32.ofNat extent }
        return if 0 < extent then [judge flow stream] else []

end PacketQuapture.Reassembly
