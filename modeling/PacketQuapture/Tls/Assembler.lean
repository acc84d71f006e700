import PacketQuapture.Library.OrderedMap
import PacketQuapture.Tls.Merge

/-! The assembler: it pairs the two directions of a connection, which arrive as separate streams.
A direction waits for its peer in a bounded table, keyed by the tuple from client to server.
-/

namespace PacketQuapture.Tls

open Library Reassembly

/-! ### State -/

/-- A stream that was plainly not TLS, keyed as a waiting find on its other side would be. -/
structure Refuter where
  key : TcpFlowKey
  clientSide : Bool
  first : PacketStamp
  last : PacketStamp
deriving DecidableEq, Repr

structure TlsHandshakeAssembler (Cert : Type) where
  limits : TlsHandshakeLimits Cert
  pending : OrderedMap TcpFlowKey (Direction Cert) := .empty
  unconfirmed : Nat := 0
  unconfirmedOrder : List TcpFlowKey := []
  refuters : List Refuter := []

/-! ### Judging streams -/

/-- Whether two spans of packets meet in capture order. -/
def overlaps (first last otherFirst otherLast : PacketStamp) : Bool :=
  first.number ≤ otherLast.number && otherFirst.number ≤ last.number

/-- Whether a first byte could be a record type. -/
def recordType (byte : UInt8) : Bool :=
  20 ≤ byte && byte ≤ 24

/-- A stream reconstructed from its first byte, which does not begin a TLS record. -/
def plainlyNotTls (stream : TcpStream) : Bool :=
  if stream.status = .conflict ∨ stream.status = .limit then false
  else
    match stream.chunks with
    | [] => false
    | chunk :: _ =>
      if chunk.offset ≠ 0 then false
      else
        match chunk.data with
        | [] => false
        | byte :: _ =>
          let headed := decide (tlsRecordHeaderLength ≤ chunk.data.length)
          !(headed && recordType byte && tlsRecordHeaderValid chunk.data)
            && !(!headed && recordType byte)

variable {Cert : Type}

/-- Whether a peer confirms a hello found by searching: the other side of the same connection,
overlapping it, with a hello that parsed and was not itself found by searching.
-/
def confirms (peer found : Direction Cert) : Bool :=
  peer.client ≠ found.client && !peer.needsConfirmation
    && peer.handshakes.head?.any (fun hello => hello.status ≠ .invalid)
    && overlaps peer.first peer.last found.first found.last

/-- Whether two opposite directions of one tuple may not be joined, since one of them was found by
searching and the other does not confirm it.
-/
def unconfirmedPair (held direction : Direction Cert) : Bool :=
  (direction.needsConfirmation && !confirms held direction)
    || (held.needsConfirmation && !confirms direction held)

namespace TlsHandshakeAssembler

/-! ### Releasing and refuting -/

/-- The assembler once the direction under a key is out of the table. -/
def removed (assembler : TlsHandshakeAssembler Cert) (key : TcpFlowKey)
    (direction : Direction Cert)
    : TlsHandshakeAssembler Cert :=
  { assembler with
    pending := assembler.pending.erase key
    unconfirmed :=
      if direction.needsConfirmation then assembler.unconfirmed - 1 else assembler.unconfirmed }

def release (assembler : TlsHandshakeAssembler Cert) (key : TcpFlowKey)
    : Except TlsFailure (TlsHandshakeAssembler Cert) :=
  match assembler.pending.find? key with
  | none => .error (.assertion .release)
  | some direction => do
    require (direction.needsConfirmation → 0 < assembler.unconfirmed) (.assertion .release)
    return assembler.removed key direction

/-- Remembers a refuter, letting the oldest go when there is no room. -/
def remember (assembler : TlsHandshakeAssembler Cert) (refuter : Refuter)
    : TlsHandshakeAssembler Cert :=
  let room := max 1 assembler.limits.maxPending
  let kept :=
    if room ≤ assembler.refuters.length then assembler.refuters.tail else assembler.refuters
  { assembler with refuters := kept ++ [refuter] }

/-- Whether the direction waiting under a key is a find on that side which the stream refutes. -/
def awaits (assembler : TlsHandshakeAssembler Cert) (stream : TcpStream)
    (key : TcpFlowKey) (clientSide : Bool)
    : Bool :=
  (assembler.pending.find? key).any fun waiting =>
    waiting.needsConfirmation && waiting.client = clientSide
      && overlaps stream.first stream.last waiting.first waiting.last

/-- Drops the find waiting on one side of a stream that is plainly not TLS, or remembers the stream
for a find that has yet to arrive.
-/
def refuteSide (assembler : TlsHandshakeAssembler Cert) (stream : TcpStream)
    (clientSide : Bool)
    : Except TlsFailure (TlsHandshakeAssembler Cert) :=
  let key := if clientSide then stream.key.reverse else stream.key
  if assembler.awaits stream key clientSide then assembler.release key
  else .ok (assembler.remember { key, clientSide, first := stream.first, last := stream.last })

def refute (assembler : TlsHandshakeAssembler Cert) (stream : TcpStream)
    : Except TlsFailure (TlsHandshakeAssembler Cert) := do
  let next ← assembler.refuteSide stream true
  next.refuteSide stream false

def refuted (assembler : TlsHandshakeAssembler Cert) (found : Direction Cert)
    : Bool :=
  assembler.refuters.any fun refuter =>
    refuter.clientSide = found.client && !(refuter.key < found.orientedKey)
      && !(found.orientedKey < refuter.key)
      && overlaps refuter.first refuter.last found.first found.last

/-! ### Holding -/

/-- Whether the direction held under a key, if any, is a find. -/
def holdsFind (assembler : TlsHandshakeAssembler Cert) (key : TcpFlowKey) : Bool :=
  (assembler.pending.find? key).any Direction.needsConfirmation

/-- Releases the oldest find whose key is still in the queue; keys no longer held are dropped. -/
def releaseOldest (assembler : TlsHandshakeAssembler Cert)
    : List TcpFlowKey → Except TlsFailure (TlsHandshakeAssembler Cert)
  | [] => .ok { assembler with unconfirmedOrder := [] }
  | key :: rest =>
    if assembler.holdsFind key then { assembler with unconfirmedOrder := rest }.release key
    else assembler.releaseOldest rest

/-- Makes room in a full table. -/
def makeRoom (assembler : TlsHandshakeAssembler Cert)
    : Except TlsFailure (TlsHandshakeAssembler Cert) :=
  if assembler.limits.maxPending ≤ assembler.pending.size then
    assembler.releaseOldest assembler.unconfirmedOrder
  else
    .ok assembler

/-- Counts a find and queues its key. A queue of more than twice the room, a product that wraps,
keeps only the keys of the finds held.
-/
def queued (assembler : TlsHandshakeAssembler Cert) (direction : Direction Cert)
    : TlsHandshakeAssembler Cert :=
  if direction.needsConfirmation then
    let order := assembler.unconfirmedOrder ++ [direction.orientedKey]
    { assembler with
      unconfirmed := assembler.unconfirmed + 1
      unconfirmedOrder :=
        if 2 * assembler.limits.maxPending % 2 ^ 64 < order.length then
          order.filter assembler.holdsFind
        else
          order }
  else
    assembler

/-- The assembler with a direction in its table. -/
def stored (assembler : TlsHandshakeAssembler Cert) (direction : Direction Cert)
    : TlsHandshakeAssembler Cert :=
  { assembler with pending := assembler.pending.insert direction.orientedKey direction }

/-- Puts a direction into the table. -/
def insert (assembler : TlsHandshakeAssembler Cert) (direction : Direction Cert)
    : Except TlsFailure (TlsHandshakeAssembler Cert) := do
  require (assembler.pending.size < assembler.limits.maxPending) (.assertion .hold)
  require (assembler.pending.find? direction.orientedKey = none) (.assertion .hold)
  let next := assembler.stored direction
  require (next.unconfirmed ≤ next.pending.size) (.assertion .hold)
  return next

/-- Whether there is no place for a direction: finds may take a quarter of the room, and only they
give way.
-/
def refuses (assembler : TlsHandshakeAssembler Cert) (direction : Direction Cert)
    : Bool :=
  assembler.limits.maxPending = 0
    || (direction.needsConfirmation
        && max 1 (assembler.limits.maxPending / 4) ≤ assembler.unconfirmed)
    || (assembler.limits.maxPending ≤ assembler.pending.size
        && (direction.needsConfirmation || assembler.unconfirmed = 0))

/-- Holds a direction for its peer, if there is room. -/
def hold (assembler : TlsHandshakeAssembler Cert) (direction : Direction Cert)
    : Except TlsFailure (Bool × TlsHandshakeAssembler Cert) :=
  if assembler.refuses direction then .ok (false, assembler)
  else do
    let room ← assembler.makeRoom
    let next ← (room.queued direction).insert direction
    return (true, next)

/-! ### Adding streams -/

/-- What becomes of a direction against the one held on its tuple. -/
inductive Meeting (Cert : Type) where
  | dropped
  /-- It is to be held, after these rows of the one it displaced. -/
  | waits (rows : List (TlsHandshake Cert)) (next : TlsHandshakeAssembler Cert)
  | pairs (held : Direction Cert)

/-- Looks at the direction held on the same tuple: the same side twice, a peer, or one from an
earlier connection or that does not confirm.
-/
def meet (assembler : TlsHandshakeAssembler Cert) (direction : Direction Cert)
    : Except TlsFailure (Meeting Cert) :=
  match assembler.pending.find? direction.orientedKey with
  | none => .ok (.waits [] assembler)
  | some held =>
    if held.client = direction.client then
      if direction.needsConfirmation ∧ ¬ held.needsConfirmation then .ok .dropped
      else do
        let next ← assembler.release direction.orientedKey
        return .waits (reportAlone held) next
    else if unconfirmedPair held direction then
      if held.last.number < direction.first.number then do
        let next ← assembler.release direction.orientedKey
        return .waits (reportAlone held) next
      else if direction.needsConfirmation then
        .ok .dropped
      else do
        let next ← assembler.release direction.orientedKey
        return .waits [] next
    else
      .ok (.pairs held)

/-- The rows of two opposite directions. -/
def pairRows (held direction : Direction Cert) : List (TlsHandshake Cert) :=
  if direction.client then merge direction (some held) else merge held (some direction)

/-- Adds a direction that has hellos. -/
def addDirection (assembler : TlsHandshakeAssembler Cert)
    (direction : Direction Cert)
    : Except TlsFailure (List (TlsHandshake Cert) × TlsHandshakeAssembler Cert) := do
  let meeting ← assembler.meet direction
  match meeting with
  | .dropped => return ([], assembler)
  | .waits rows next =>
    let held ← next.hold direction
    return (if held.1 then rows else rows ++ reportAlone direction, held.2)
  | .pairs held =>
    let next ← assembler.release direction.orientedKey
    return (pairRows held direction, next)

/-- Adds what a stream parsed as. -/
def addParsed (assembler : TlsHandshakeAssembler Cert) (stream : TcpStream)
    (direction : Direction Cert)
    : Except TlsFailure (List (TlsHandshake Cert) × TlsHandshakeAssembler Cert) :=
  if direction.handshakes = [] then
    if plainlyNotTls stream then do
      let next ← assembler.refute stream
      return ([], next)
    else
      .ok ([], assembler)
  else if direction.needsConfirmation ∧ assembler.refuted direction then
    .ok ([], assembler)
  else
    assembler.addDirection direction

/-- The handshakes a stream completes, and the assembler after it. -/
def add (x509 : X509Parser Cert) (assembler : TlsHandshakeAssembler Cert)
    (stream : TcpStream)
    : Except TlsFailure (List (TlsHandshake Cert) × TlsHandshakeAssembler Cert) := do
  let direction ← parse x509 assembler.limits stream
  assembler.addParsed stream direction

/-- The handshakes of every direction still waiting. -/
def finish (assembler : TlsHandshakeAssembler Cert)
    : List (TlsHandshake Cert) × TlsHandshakeAssembler Cert :=
  (assembler.pending.entries.flatMap fun entry => reportAlone entry.2,
    { limits := assembler.limits })

/-! ### Runs -/

/-- Adds streams one after the other. -/
def run (x509 : X509Parser Cert) (assembler : TlsHandshakeAssembler Cert)
    : List TcpStream
      → Except TlsFailure (List (TlsHandshake Cert) × TlsHandshakeAssembler Cert)
  | [] => .ok ([], assembler)
  | stream :: rest => do
    let added ← assembler.add x509 stream
    let later ← added.2.run x509 rest
    return (added.1 ++ later.1, later.2)

/-- Everything a sequence of streams is reported as, from the empty assembler to its finish. -/
def report (x509 : X509Parser Cert) (limits : TlsHandshakeLimits Cert)
    (streams : List TcpStream)
    : Except TlsFailure (List (TlsHandshake Cert)) := do
  let last ← ({ limits } : TlsHandshakeAssembler Cert).run x509 streams
  return last.1 ++ last.2.finish.1

end TlsHandshakeAssembler

end PacketQuapture.Tls
