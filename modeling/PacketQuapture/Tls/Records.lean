import PacketQuapture.Reassembly.Provenance
import PacketQuapture.Tls.Tunnel

/-! One direction of a connection, parsed: the records of its stream, the handshake messages they
carry, and the hellos and certificates of these messages.
-/

namespace PacketQuapture.Tls

open Library Reassembly

/-! ### Records -/

/-- The two length bytes of a record header. -/
def recordLength (header : List UInt8) : Nat :=
  (header.getD 3 0).toNat <<< 8 ||| (header.getD 4 0).toNat

/-- The version and length checks every record header must pass. -/
def tlsRecordHeaderValid (header : List UInt8) : Bool :=
  header.getD 1 0 = 0x03 && header.getD 2 0 ≤ 0x04 && recordLength header ≠ 0
    && recordLength header ≤ tlsMaxRecordLength

/-- The handshake bytes of a chunk's records, where each came from as offset and length, and whether
a record runs past the captured bytes.
-/
structure Collected where
  truncated : Bool := false
  bytes : List UInt8 := []
  spans : List (Nat × Nat) := []
deriving DecidableEq, Repr

/-- The loop of `collectHandshakeBytes`: a pass consumes a whole record or stops. -/
def collectLoop (data : List UInt8) : Nat → Nat → Collected → Except TlsFailure (Nat × Collected)
  | 0, _, _ => .error .outOfFuel
  | fuel + 1, offset, collected =>
    let header := data.drop offset
    if header.length < tlsRecordHeaderLength then .ok (offset, collected)
    else if ¬ tlsRecordHeaderValid header then .ok (offset, collected)
    else if header.getD 0 0 = tlsRecordChangeCipherSpec then
      -- everything after this is encrypted
      .ok (offset, collected)
    else if header.length - tlsRecordHeaderLength < recordLength header then
      .ok (offset, { collected with truncated := true })
    else
      let next := offset + tlsRecordHeaderLength + recordLength header
      if header.getD 0 0 ≠ tlsRecordHandshake then collectLoop data fuel next collected
      else
        collectLoop data fuel next
          { collected with
            bytes := collected.bytes
              ++ (header.drop tlsRecordHeaderLength).take (recordLength header)
            spans := collected.spans
              ++ [(offset + tlsRecordHeaderLength, recordLength header)] }

/-- The body of every handshake record from `start` on. -/
def collectHandshakeBytes (chunk : TcpStreamChunk) (start : Nat) : Except TlsFailure Collected := do
  require (start ≤ chunk.data.length) (.assertion .collectHandshakeBytes)
  let ended ← collectLoop chunk.data (chunk.data.length + 1) start {}
  require (ended.1 ≤ chunk.data.length) (.assertion .collectHandshakeBytes)
  return ended.2

/-- Each span with its offset in the concatenated handshake bytes. -/
def spanStarts : Nat → List (Nat × Nat) → List (Nat × Nat × Nat)
  | _, [] => []
  | total, span :: rest => (total, span) :: spanStarts (total + span.2) rest

/-- Where the last of the spans that start before `stop` is covered to. -/
def coveredTo (stop : Nat) : Nat → List (Nat × Nat × Nat) → Nat
  | last, [] => last
  | last, (start, span) :: rest =>
    if start < stop then coveredTo stop (span.1 + min span.2 (stop - start)) rest else last

/-- The chunk offset and length that cover a range of the handshake bytes. -/
def locate (spans : List (Nat × Nat)) (start length : Nat) : Except TlsFailure (Nat × Nat) := do
  require (0 < length) (.assertion .locate)
  let placed := spanStarts 0 spans
  let upper := (placed.takeWhile fun span => span.1 ≤ start).length
  require (0 < upper) (.assertion .locate)
  let covering := placed.drop (upper - 1)
  match covering with
  | [] => .error (.assertion .locate)
  | (origin, span) :: _ =>
    let first := span.1 + (start - origin)
    let last := coveredTo (start + length) first covering
    require (first < last) (.assertion .locate)
    return (first, last - first)

/-! ### Directions -/

/-- One direction's parsed handshakes, held until its peer arrives. -/
structure Direction (Cert : Type) where
  orientedKey : TcpFlowKey := {}
  streamId : Nat := 0
  client : Bool := false
  first : PacketStamp := {}
  last : PacketStamp := {}
  status : TlsStatus := .unset
  error : String := ""
  prefixBytes : Nat := 0
  needsConfirmation : Bool := false
  tunnel : Option Tunnel := none
  tunnelDestination : List UInt8 := []
  handshakes : List (TlsHandshake Cert) := []
  sessionIds : List (List UInt8) := []

/-- The direction status of a stream the transport could not reconstruct. -/
def failedStreamStatus : TcpStreamStatus → Except TlsFailure TlsStatus
  | .conflict => .ok .conflict
  | .limit => .ok .limit
  | .unset | .contiguous | .gapped | .unanchored => .error (.assertion .failedStreamStatus)

section

variable {Cert : Type}

/-- The packets that carried a range of the handshake bytes. -/
def messageStamps (chunk : TcpStreamChunk) (spans : List (Nat × Nat)) (offset length : Nat)
    : Except TlsFailure (PacketStamp × PacketStamp) := do
  let span ← locate spans offset length
  (chunk.provenance span.1 span.2).mapError .provenance

/-- A direction with one more hello. -/
def Direction.push (direction : Direction Cert) (client : Bool)
    (handshake : TlsHandshake Cert) (sessionId : List UInt8)
    (stamps : PacketStamp × PacketStamp)
    : Direction Cert :=
  { direction with
    client := direction.client || client
    handshakes := direction.handshakes ++ [{ handshake with first := stamps.1, last := stamps.2 }]
    sessionIds := direction.sessionIds ++ [sessionId] }

/-- A direction over one of its limits. -/
def Direction.limited (direction : Direction Cert) (error : String)
    : Direction Cert :=
  { direction with status := .limit, error }

/-- The chain of the hello's own side. -/
def TlsHandshake.chain (handshake : TlsHandshake Cert)
    : TlsList (TlsCertificate Cert) :=
  if handshake.hasServerHello then handshake.serverCertificates else handshake.clientCertificates

def TlsHandshake.setChain (handshake : TlsHandshake Cert)
    (chain : TlsList (TlsCertificate Cert))
    : TlsHandshake Cert :=
  if handshake.hasServerHello then { handshake with serverCertificates := chain }
  else { handshake with clientCertificates := chain }

/-- A row whose packets reach to a later one. -/
def TlsHandshake.extended (handshake : TlsHandshake Cert) (last : PacketStamp)
    : TlsHandshake Cert :=
  if handshake.last.number < last.number then { handshake with last } else handshake

/-- A direction whose latest hello is replaced. -/
def Direction.setLatest (direction : Direction Cert) (handshake : TlsHandshake Cert)
    : Direction Cert :=
  { direction with handshakes := direction.handshakes.dropLast ++ [handshake] }

/-- What a Certificate message adds to the hello before it. -/
def readCertificates (x509 : X509Parser Cert) (limits : TlsHandshakeLimits Cert)
    (body : List UInt8) (held : Nat) (handshake : TlsHandshake Cert)
    : Except TlsFailure (Nat × TlsHandshake Cert) := do
  let read ← parseCertificates x509 limits body held handshake.chain handshake
  return (read.held, read.handshake.setChain read.chain)

/-- The hello a Certificate message belongs to. -/
def Direction.certified? (direction : Direction Cert) : Option (TlsHandshake Cert) :=
  direction.handshakes.getLast?.filter fun handshake => handshake.status ≠ .invalid

/-- The state of the loop between two messages: where the next one starts, the certificate text held
and the direction so far.
-/
structure Reading (Cert : Type) where
  offset : Nat := 0
  held : Nat := 0
  direction : Direction Cert

/-- What one pass leaves. -/
inductive Pass (Cert : Type) where
  | stop (truncated : Bool) (direction : Direction Cert)
  | next (reading : Reading Cert)

/-- One message: its type, the length it announces and its bytes. -/
structure Announced where
  type : UInt8
  length : Nat
  body : List UInt8

/-- The message that some bytes begin with. -/
def announced (bytes : List UInt8) : Announced :=
  let type := ({ rest := bytes } : TlsReader).u8
  let length := type.2.u24.1
  { type := type.1, length, body := (bytes.drop 4).take length }

/-- What a hello of some bytes does to a state. -/
def helloPass (limits : TlsHandshakeLimits Cert) (chunk : TcpStreamChunk)
    (spans : List (Nat × Nat)) (message : Announced) (reading : Reading Cert)
    : Except TlsFailure (Pass Cert) :=
  let client := decide (message.type = tlsHandshakeClientHello)
  if limits.maxHandshakes ≤ reading.direction.handshakes.length then
    .ok (.stop false
      (reading.direction.limited "TLS handshake count exceeds the per-direction limit"))
  else do
    let hello ← readHello limits client message.body
    let stamps ← messageStamps chunk spans reading.offset (message.length + 4)
    return .next
      { offset := reading.offset + 4 + message.length
        held := reading.held
        direction := reading.direction.push client hello.1 hello.2 stamps }

/-- What a Certificate message does to a state. -/
def certificatePass (x509 : X509Parser Cert) (limits : TlsHandshakeLimits Cert)
    (chunk : TcpStreamChunk) (spans : List (Nat × Nat)) (message : Announced)
    (reading : Reading Cert)
    : Except TlsFailure (Pass Cert) :=
  match reading.direction.certified? with
  | none => .ok (.next { reading with offset := reading.offset + 4 + message.length })
  | some handshake => do
    let read ← readCertificates x509 limits message.body reading.held handshake
    let stamps ← messageStamps chunk spans reading.offset (message.length + 4)
    return .next
      { offset := reading.offset + 4 + message.length
        held := read.1
        direction := reading.direction.setLatest (read.2.extended stamps.2) }

/-- One pass of the loop of `parseMessages`: it consumes a whole message or stops. -/
def messagePass (x509 : X509Parser Cert) (limits : TlsHandshakeLimits Cert)
    (chunk : TcpStreamChunk) (bytes : List UInt8) (spans : List (Nat × Nat))
    (reading : Reading Cert)
    : Except TlsFailure (Pass Cert) :=
  -- the unsigned difference of an offset past the end is not below four
  if reading.offset ≤ bytes.length ∧ bytes.length - reading.offset < 4 then
    .ok (.stop false reading.direction)
  else do
    require (reading.offset ≤ bytes.length) (.assertion .parseMessages)
    let message := announced (bytes.drop reading.offset)
    if limits.maxMessageBytes < message.length then
      return .stop false
        (reading.direction.limited "TLS handshake message exceeds the per-message limit")
    else if bytes.length - reading.offset - 4 < message.length then
      return .stop true reading.direction
    else if message.type = tlsHandshakeClientHello ∨ message.type = tlsHandshakeServerHello then
      helloPass limits chunk spans message reading
    else if message.type = tlsHandshakeCertificate then
      certificatePass x509 limits chunk spans message reading
    else
      return .next { reading with offset := reading.offset + 4 + message.length }

/-- The loop of `parseMessages`. -/
def messageLoop (x509 : X509Parser Cert) (limits : TlsHandshakeLimits Cert)
    (chunk : TcpStreamChunk) (bytes : List UInt8) (spans : List (Nat × Nat))
    : Nat → Reading Cert → Except TlsFailure (Bool × Direction Cert)
  | 0, _ => .error .outOfFuel
  | fuel + 1, reading => do
    let pass ← messagePass x509 limits chunk bytes spans reading
    match pass with
    | .stop truncated direction => return (truncated, direction)
    | .next reading => messageLoop x509 limits chunk bytes spans fuel reading

/-- Frames the messages in the concatenated record bodies; whether one runs past the bytes. -/
def parseMessages (x509 : X509Parser Cert) (limits : TlsHandshakeLimits Cert)
    (chunk : TcpStreamChunk) (bytes : List UInt8) (spans : List (Nat × Nat))
    (direction : Direction Cert)
    : Except TlsFailure (Bool × Direction Cert) := do
  require (bytes ≠ []) (.assertion .parseMessages)
  messageLoop x509 limits chunk bytes spans (bytes.length + 1) { direction }

/-- The direction's status when a record or message was cut off. -/
def Direction.cut (direction : Direction Cert) (stream : TcpStream) (truncated : Bool)
    : Direction Cert :=
  if truncated ∧ direction.status = .unset then
    { direction with
      status := .incomplete
      error :=
        if stream.gaps ≠ [] then "missing TCP bytes leave a sequence gap"
        else "TLS handshake continues past the captured bytes" }
  else
    direction

/-- The direction's status when its stream lacks the SYN. -/
def Direction.anchored (direction : Direction Cert) (stream : TcpStream)
    : Direction Cert :=
  if direction.status = .unset ∧ stream.status = .unanchored then
    { direction with status := .unanchored, error := stream.error }
  else
    direction

/-- A direction with only ServerHellos runs server to client. -/
def Direction.oriented (direction : Direction Cert) (stream : TcpStream)
    : Direction Cert :=
  if ¬ direction.client ∧ direction.handshakes ≠ [] then
    { direction with orientedKey := stream.key.reverse }
  else
    direction

def parseRecords (x509 : X509Parser Cert) (limits : TlsHandshakeLimits Cert)
    (stream : TcpStream) (chunk : TcpStreamChunk) (start : Nat) (direction : Direction Cert)
    : Except TlsFailure (Direction Cert) := do
  let collected ← collectHandshakeBytes chunk start
  if collected.bytes = [] then
    return direction
  else
    let read ← parseMessages x509 limits chunk collected.bytes collected.spans direction
    return ((read.2.cut stream (collected.truncated || read.1)).anchored stream).oriented stream

/-! ### Finding the first record -/

/-- The hello that a record at an offset begins, if it is there in full and parses: `some true` for
a ClientHello.
-/
def helloAt (limits : TlsHandshakeLimits Cert) (data : List UInt8) (offset : Nat)
    : Except TlsFailure (Option Bool) :=
  let header := data.drop offset
  if header.length < tlsRecordHeaderLength + 4 then .ok none
  else
    let length := recordLength header
    let message := header.drop tlsRecordHeaderLength
    let type := message.getD 0 0
    let messageLength := (message.getD 1 0).toNat <<< 16 ||| (message.getD 2 0).toNat <<< 8
      ||| (message.getD 3 0).toNat
    if header.getD 0 0 ≠ tlsRecordHandshake ∨ ¬ tlsRecordHeaderValid header
        ∨ header.length - tlsRecordHeaderLength < length then
      .ok none
    else if (type ≠ tlsHandshakeClientHello ∧ type ≠ tlsHandshakeServerHello) ∨ length < 4
        ∨ length - 4 < messageLength ∨ limits.maxMessageBytes < messageLength then
      .ok none
    else do
      let client := decide (type = tlsHandshakeClientHello)
      let read ← parseHello limits client ((message.drop 4).take messageLength) {}
      return if read.parsed then some client else none

/-- `memchr` for the handshake record type between two offsets. -/
def findRecord (data : List UInt8) (start stop : Nat) : Option Nat :=
  (List.range' start (stop - start)).find? fun index => data[index]? = some tlsRecordHandshake

/-- The first offset that a whole hello begins at, and its kind. -/
def findHello (limits : TlsHandshakeLimits Cert) (data : List UInt8) (stop : Nat)
    : Nat → Nat → Except TlsFailure (Option (Nat × Bool))
  | 0, _ => .error .outOfFuel
  | fuel + 1, start =>
    match findRecord data start stop with
    | none => .ok none
    | some found => do
      let hello ← helloAt limits data found
      match hello with
      | none => findHello limits data stop fuel (found + 1)
      | some client => return some (found, client)

/-- Says what the bytes before the hello were. -/
def Direction.classified (direction : Direction Cert) (data : List UInt8) (start : Nat)
    (client : Bool)
    : Except TlsFailure (Direction Cert) :=
  if client then do
    let read ← (classifyClientPrefix (data.take start)).mapError .text
    return { direction with
      prefixBytes := start
      tunnel := read.tunnel
      tunnelDestination := read.destination }
  else do
    let tunnel ← (classifyServerPrefix (data.take start)).mapError .text
    return { direction with prefixBytes := start, tunnel }

/-- What a direction says of itself before its bytes are read. -/
def Direction.ofStream (stream : TcpStream) : Direction Cert :=
  { orientedKey := stream.key
    streamId := stream.streamId
    first := stream.first
    last := stream.last }

/-- The chunk the stream's first byte is in. -/
def leadingChunk? (stream : TcpStream) : Option TcpStreamChunk :=
  stream.chunks.head?.filter fun chunk => chunk.offset = 0

/-- Whether the data begins with a valid header of a handshake record. -/
def beginsHandshake (data : List UInt8) : Bool :=
  tlsRecordHeaderLength ≤ data.length && data.getD 0 0 = tlsRecordHandshake
    && tlsRecordHeaderValid data

/-- Searches a stream that does not begin with TLS for a hello after a short prefix. A find in a
stream without its SYN waits for the other direction to confirm it.
-/
def searchPrefix (x509 : X509Parser Cert) (limits : TlsHandshakeLimits Cert)
    (stream : TcpStream) (chunk : TcpStreamChunk)
    : Except TlsFailure (Direction Cert) := do
  let direction : Direction Cert :=
    { Direction.ofStream stream with needsConfirmation := ¬ stream.synSeen }
  -- the sum of machine words wraps
  let stop := min ((limits.maxTunnelPrefixBytes + 1) % 2 ^ 64) chunk.data.length
  let found ← findHello limits chunk.data stop (stop + 1) 1
  match found with
  | none => return direction
  | some (start, client) =>
    let direction ← parseRecords x509 limits stream chunk start direction
    require (start ≤ 2 ^ 32 - 1) (.assertion .parse)
    direction.classified chunk.data start client

/-- Reads the handshake messages of one direction. -/
def parse (x509 : X509Parser Cert) (limits : TlsHandshakeLimits Cert)
    (stream : TcpStream)
    : Except TlsFailure (Direction Cert) :=
  if stream.status = .conflict ∨ stream.status = .limit then do
    let status ← failedStreamStatus stream.status
    return { Direction.ofStream stream with status, error := stream.error }
  else
    match leadingChunk? stream with
    | none => .ok (Direction.ofStream stream)
    | some chunk =>
      if beginsHandshake chunk.data then
        parseRecords x509 limits stream chunk 0 (Direction.ofStream stream)
      else
        searchPrefix x509 limits stream chunk

end

end PacketQuapture.Tls
