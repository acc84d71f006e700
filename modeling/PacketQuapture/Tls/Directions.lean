import PacketQuapture.Tls.Records

/-! What a parsed direction keeps of its stream: its packets and, once it has hellos, its tuple,
turned from client to server.
-/

namespace PacketQuapture.Tls

open Library Reassembly

variable {Cert : Type} {x509 : X509Parser Cert}
variable {limits : TlsHandshakeLimits Cert} {stream : TcpStream}
variable {bytes : List UInt8}

/-! ### Messages -/

/-- The messages some bytes hold in full, up to one that exceeds the limit. -/
def framed (limits : TlsHandshakeLimits Cert) (bytes : List UInt8) : List Announced :=
  if bytes.length < 4 then []
  else if limits.maxMessageBytes < (announced bytes).length
      ∨ bytes.length - 4 < (announced bytes).length then
    []
  else
    announced bytes :: framed limits (bytes.drop (4 + (announced bytes).length))
termination_by bytes.length

theorem framed_short (short : bytes.length < 4) : framed limits bytes = [] := by
  rw [framed, if_pos short]

theorem framed_stop
    (stops : limits.maxMessageBytes < (announced bytes).length
      ∨ bytes.length - 4 < (announced bytes).length)
    : framed limits bytes = [] := by
  rw [framed, if_pos stops, ite_self]

/-- A whole message within the limit is framed. -/
theorem framed_message {offset : Nat}
    (whole : offset + 4 + (announced (bytes.drop offset)).length ≤ bytes.length)
    (small : (announced (bytes.drop offset)).length ≤ limits.maxMessageBytes)
    : framed limits (bytes.drop offset)
      = announced (bytes.drop offset)
        :: framed limits (bytes.drop (offset + 4 + (announced (bytes.drop offset)).length)) := by
  rw [framed, if_neg (by rw [List.length_drop]; omega), if_neg (by rw [List.length_drop]; omega),
    List.drop_drop, Nat.add_assoc]

def Announced.isHello (message : Announced) : Bool :=
  message.type = tlsHandshakeClientHello || message.type = tlsHandshakeServerHello

/-- A direction after the first of some messages: each adds a hello or certificates to the latest
one or is passed over, and the last may find the direction over a limit.
-/
inductive Advances (x509 : X509Parser Cert) (limits : TlsHandshakeLimits Cert)
    : List Announced → Direction Cert → Direction Cert → Prop
  | done {messages : List Announced} {direction : Direction Cert}
    : Advances x509 limits messages direction direction
  | limited {messages : List Announced} {direction : Direction Cert} (error : String)
    : Advances x509 limits messages direction (direction.limited error)
  | hello {message : Announced} {messages : List Announced} {direction result : Direction Cert}
    {read : TlsHandshake Cert × List UInt8} {stamps : PacketStamp × PacketStamp}
    (isHello : message.isHello = true)
    (parsed : readHello limits (decide (message.type = tlsHandshakeClientHello)) message.body
      = .ok read)
    (rest : Advances x509 limits messages
      (direction.push (decide (message.type = tlsHandshakeClientHello)) read.1 read.2 stamps)
      result)
    : Advances x509 limits (message :: messages) direction result
  | certificates {message : Announced} {messages : List Announced}
    {direction result : Direction Cert} {latest : TlsHandshake Cert} {held : Nat}
    {read : Nat × TlsHandshake Cert} {last : PacketStamp} (other : message.isHello = false)
    (certified : direction.certified? = some latest)
    (parsed : readCertificates x509 limits message.body held latest = .ok read)
    (rest : Advances x509 limits messages (direction.setLatest (read.2.extended last)) result)
    : Advances x509 limits (message :: messages) direction result
  | skipped {message : Announced} {messages : List Announced} {direction result : Direction Cert}
    (other : message.isHello = false) (rest : Advances x509 limits messages direction result)
    : Advances x509 limits (message :: messages) direction result

/-- The loop over the messages takes the direction through those framed in the bytes left, by
induction on the fuel.
-/
theorem messageLoop_advances {chunk : TcpStreamChunk} {spans : List (Nat × Nat)} {fuel : Nat}
    {reading : Reading Cert} {truncated : Bool} {result : Direction Cert}
    (returned : messageLoop x509 limits chunk bytes spans fuel reading = .ok (truncated, result))
    : Advances x509 limits (framed limits (bytes.drop reading.offset)) reading.direction result := by
  induction fuel generalizing reading with
  | zero => cases returned
  | succ fuel ih =>
    obtain ⟨pass, passed, returned⟩ := bind_eq_ok.mp returned
    unfold messagePass at passed
    split at passed
    case isTrue =>
      cases passed
      cases returned
      exact .done
    case isFalse long =>
      obtain ⟨_, inside, passed⟩ := bind_eq_ok.mp passed
      have inside := of_require inside
      dsimp only at passed
      split at passed
      case isTrue =>
        cases passed
        cases returned
        exact .limited _
      case isFalse small =>
        split at passed
        case isTrue =>
          cases passed
          cases returned
          exact .done
        case isFalse whole =>
          rw [framed_message (by omega) (Nat.le_of_not_lt small)]
          clear whole small
          generalize announced (bytes.drop reading.offset) = message at passed ⊢
          split at passed
          case isTrue hello =>
            unfold helloPass at passed
            dsimp only at passed
            split at passed
            case isTrue =>
              cases passed
              cases returned
              exact .limited _
            case isFalse =>
              obtain ⟨read, parsed, passed⟩ := bind_eq_ok.mp passed
              obtain ⟨stamps, _, passed⟩ := bind_eq_ok.mp passed
              cases passed
              exact .hello (by simpa [Announced.isHello] using hello) parsed (ih returned)
          case isFalse hello =>
            have other : message.isHello = false := by simpa [Announced.isHello] using hello
            split at passed
            case isTrue =>
              unfold certificatePass at passed
              split at passed
              case h_1 =>
                cases passed
                exact .skipped other (ih returned)
              case h_2 latest certified =>
                obtain ⟨read, parsed, passed⟩ := bind_eq_ok.mp passed
                obtain ⟨stamps, _, passed⟩ := bind_eq_ok.mp passed
                cases passed
                exact .certificates other certified parsed (ih returned)
            case isFalse =>
              cases passed
              exact .skipped other (ih returned)

/-! ### Directions and their streams -/

/-- What reading messages keeps: the stream's identity, and one session id for each entry. -/
structure Direction.Reads (stream : TcpStream) (direction : Direction Cert) : Prop where
  key : direction.orientedKey = stream.key
  first : direction.first = stream.first
  last : direction.last = stream.last
  aligned : direction.sessionIds.length = direction.handshakes.length

/-- A parsed direction spans its stream's packets, and with hellos it is keyed from client to
server.
-/
structure Direction.From (stream : TcpStream) (direction : Direction Cert) : Prop where
  oriented : direction.handshakes ≠ [] →
    direction.orientedKey = if direction.client then stream.key else stream.key.reverse
  first : direction.first = stream.first
  last : direction.last = stream.last
  aligned : direction.sessionIds.length = direction.handshakes.length

theorem Direction.reads_ofStream (stream : TcpStream)
    : (Direction.ofStream stream : Direction Cert).Reads stream :=
  ⟨rfl, rfl, rfl, rfl⟩

namespace Direction.Reads

variable {direction result : Direction Cert}

theorem push (reads : direction.Reads stream) (client : Bool) (handshake : TlsHandshake Cert)
    (sessionId : List UInt8) (stamps : PacketStamp × PacketStamp)
    : (direction.push client handshake sessionId stamps).Reads stream := by
  refine ⟨reads.key, reads.first, reads.last, ?_⟩
  simp only [Direction.push, List.length_append, List.length_singleton, reads.aligned]

theorem setLatest (reads : direction.Reads stream) {latest : TlsHandshake Cert}
    (certified : direction.certified? = some latest) (handshake : TlsHandshake Cert)
    : (direction.setLatest handshake).Reads stream := by
  refine ⟨reads.key, reads.first, reads.last, ?_⟩
  have occupied : 0 < direction.handshakes.length := by
    obtain ⟨member, _⟩ := Option.filter_eq_some_iff.mp certified
    exact List.length_pos_of_mem (List.mem_of_getLast? member)
  simp only [Direction.setLatest, List.length_append, List.length_dropLast, List.length_singleton,
    reads.aligned]
  omega

/-- Reading the messages keeps the identity of the stream.
Witness: each message adds an entry with its session id or replaces the latest entry.
-/
theorem advances {messages : List Announced} (steps : Advances x509 limits messages direction result)
    (reads : direction.Reads stream)
    : result.Reads stream := by
  induction steps with
  | done => exact reads
  | limited => exact ⟨reads.key, reads.first, reads.last, reads.aligned⟩
  | hello _ _ _ ih => exact ih (reads.push ..)
  | certificates _ certified _ _ ih => exact ih (reads.setLatest certified _)
  | skipped _ _ ih => exact ih reads

end Direction.Reads

theorem Direction.judged_entries (direction : Direction Cert) (stream : TcpStream)
    (truncated : Bool)
    : (((direction.cut stream truncated).anchored stream).oriented stream).handshakes
        = direction.handshakes
      ∧ (((direction.cut stream truncated).anchored stream).oriented stream).client
        = direction.client := by
  have cut : (direction.cut stream truncated).handshakes = direction.handshakes
      ∧ (direction.cut stream truncated).client = direction.client := by
    unfold Direction.cut
    split <;> exact ⟨rfl, rfl⟩
  rw [← cut.1, ← cut.2]
  generalize direction.cut stream truncated = direction
  have anchored : (direction.anchored stream).handshakes = direction.handshakes
      ∧ (direction.anchored stream).client = direction.client := by
    unfold Direction.anchored
    split <;> exact ⟨rfl, rfl⟩
  rw [← anchored.1, ← anchored.2]
  generalize direction.anchored stream = direction
  unfold Direction.oriented
  split <;> exact ⟨rfl, rfl⟩

/-- A direction in which no hello was read. -/
structure Direction.Unread (stream : TcpStream) (direction : Direction Cert) : Prop where
  reads : direction.Reads stream
  handshakes : direction.handshakes = []
  client : direction.client = false

/-- A direction as its messages left it, judged by how they ended; what came before the first record
is told afterwards.
-/
def Direction.judged (direction : Direction Cert) (stream : TcpStream) (truncated : Bool)
    (prefixBytes : Nat) (tunnel : Option Tunnel) (tunnelDestination : List UInt8)
    : Direction Cert :=
  { ((direction.cut stream truncated).anchored stream).oriented stream with
    prefixBytes, tunnel, tunnelDestination }

/-- Classifying sets the prefix fields only. -/
theorem classified_cases {direction result : Direction Cert} {data : List UInt8}
    {start : Nat} {client : Bool} (returned : direction.classified data start client = .ok result)
    : ∃ prefixBytes tunnel tunnelDestination,
        result = { direction with prefixBytes, tunnel, tunnelDestination } := by
  unfold Direction.classified at returned
  split at returned <;>
    · obtain ⟨read, _, same⟩ := bind_eq_ok.mp returned
      cases same
      exact ⟨_, _, _, rfl⟩

/-- The records have no handshake bytes, or their messages are read. -/
theorem parseRecords_cases {chunk : TcpStreamChunk} {start : Nat}
    {opened direction : Direction Cert}
    (returned : parseRecords x509 limits stream chunk start opened = .ok direction)
    : direction = opened
      ∨ ∃ collected cut read, collectHandshakeBytes chunk start = .ok collected
        ∧ parseMessages x509 limits chunk collected.bytes collected.spans opened
          = .ok (cut, read)
        ∧ direction = ((read.cut stream (collected.truncated || cut)).anchored stream).oriented
          stream := by
  obtain ⟨collected, collects, returned⟩ := bind_eq_ok.mp returned
  split at returned
  case isTrue =>
    cases returned
    exact .inl rfl
  case isFalse =>
    obtain ⟨⟨cut, read⟩, parsed, same⟩ := bind_eq_ok.mp returned
    cases same
    exact .inr ⟨collected, cut, read, collects, parsed, rfl⟩

/-- Parsing a stream finds no hello, or reads the messages in the records of its leading chunk. -/
theorem parse_cases {direction : Direction Cert}
    (parsed : parse x509 limits stream = .ok direction)
    : direction.Unread stream
      ∨ ∃ (chunk : TcpStreamChunk) (start : Nat) (collected : Collected)
          (opened read : Direction Cert) (cut : Bool) (prefixBytes : Nat)
          (tunnel : Option Tunnel) (destination : List UInt8),
          leadingChunk? stream = some chunk ∧ collectHandshakeBytes chunk start = .ok collected
          ∧ opened.Unread stream
          ∧ parseMessages x509 limits chunk collected.bytes collected.spans opened
            = .ok (cut, read)
          ∧ direction = read.judged stream (collected.truncated || cut) prefixBytes tunnel
            destination := by
  have start : (Direction.ofStream stream : Direction Cert).Unread stream :=
    ⟨Direction.reads_ofStream stream, rfl, rfl⟩
  unfold parse at parsed
  split at parsed
  case isTrue =>
    obtain ⟨status, _, same⟩ := bind_eq_ok.mp parsed
    cases same
    exact .inl ⟨⟨rfl, rfl, rfl, rfl⟩, rfl, rfl⟩
  case isFalse =>
    split at parsed
    case h_1 =>
      cases parsed
      exact .inl start
    case h_2 chunk leads =>
      split at parsed
      case isTrue =>
        rcases parseRecords_cases parsed with rfl | ⟨collected, cut, read, collects, loops, rfl⟩
        · exact .inl start
        · exact .inr ⟨chunk, 0, collected, _, read, cut, _, _, _, leads, collects, start, loops,
            rfl⟩
      case isFalse =>
        have searching : ({ Direction.ofStream stream with needsConfirmation := ¬ stream.synSeen }
            : Direction Cert).Unread stream :=
          ⟨⟨rfl, rfl, rfl, rfl⟩, rfl, rfl⟩
        obtain ⟨found, _, parsed⟩ := bind_eq_ok.mp parsed
        split at parsed
        case h_1 =>
          cases parsed
          exact .inl searching
        case h_2 place client _ =>
          obtain ⟨records, recorded, parsed⟩ := bind_eq_ok.mp parsed
          obtain ⟨_, _, classified⟩ := bind_eq_ok.mp parsed
          obtain ⟨prefixBytes, tunnel, destination, told⟩ := classified_cases classified
          rcases parseRecords_cases recorded with rfl | ⟨collected, cut, read, collects, loops, rfl⟩
          · rw [told]
            exact .inl ⟨⟨rfl, rfl, rfl, rfl⟩, rfl, rfl⟩
          · exact .inr ⟨chunk, place, collected, _, read, cut, prefixBytes, tunnel, destination,
              leads, collects, searching, loops, told⟩

/-- Every parsed direction keeps its stream's packets and tuple. -/
theorem parse_from {direction : Direction Cert}
    (parsed : parse x509 limits stream = .ok direction)
    : direction.From stream := by
  rcases parse_cases parsed with unread | ⟨chunk, start, collected, opened, read, cut, prefixBytes,
    tunnel, destination, _, _, opens, messages, same⟩
  · exact ⟨fun carries => absurd unread.handshakes carries, unread.reads.first, unread.reads.last,
      unread.reads.aligned⟩
  · obtain ⟨_, _, looped⟩ := bind_eq_ok.mp messages
    have kept := opens.reads.advances (messageLoop_advances looped)
    have judged : ((read.cut stream (collected.truncated || cut)).anchored stream).Reads stream := by
      unfold Direction.anchored Direction.cut
      split <;> split <;> exact ⟨kept.key, kept.first, kept.last, kept.aligned⟩
    rw [same, Direction.judged]
    generalize (read.cut stream (collected.truncated || cut)).anchored stream = final at judged
    unfold Direction.oriented
    split
    case isTrue serves =>
      refine ⟨fun _ => ?_, judged.first, judged.last, judged.aligned⟩
      exact (if_neg serves.1).symm
    case isFalse serves =>
      refine ⟨fun carries => ?_, judged.first, judged.last, judged.aligned⟩
      have client : final.client = true := by
        by_contra answers
        exact serves ⟨answers, carries⟩
      dsimp only
      rw [if_pos client, judged.key]

/-- Every direction is the parse of the stream at its position. -/
theorem stream_of_parsed {limits : TlsHandshakeLimits Cert} {streams : List TcpStream}
    {directions : List (Direction Cert)} {position : Nat}
    {direction : Direction Cert}
    (all : streams.Forall₂ (fun stream direction => parse x509 limits stream = .ok direction)
      directions)
    (at_ : directions[position]? = some direction)
    : ∃ stream, streams[position]? = some stream
        ∧ parse x509 limits stream = .ok direction := by
  induction all generalizing position with
  | nil => cases at_
  | @cons stream parsed streams directions first _ ih =>
    cases position with
    | zero =>
      obtain rfl := Option.some.inj at_
      exact ⟨stream, rfl, first⟩
    | succ position => exact ih at_

/-! ### Entries -/

/-- What holds of every hello read, and is kept when certificates are added to it. -/
structure EntryInvariant (x509 : X509Parser Cert) (limits : TlsHandshakeLimits Cert)
    (invariant : TlsHandshake Cert → Prop)
    : Prop where
  hello : ∀ {client : Bool} {body : List UInt8} {read : TlsHandshake Cert × List UInt8},
    readHello limits client body = .ok read →
      ∀ first last, invariant { read.1 with first, last }
  certificates : ∀ {body : List UInt8} {held : Nat} {latest : TlsHandshake Cert}
    {read : Nat × TlsHandshake Cert}, invariant latest →
      readCertificates x509 limits body held latest = .ok read →
        ∀ last, invariant (read.2.extended last)

namespace EntryInvariant

variable {invariant : TlsHandshake Cert → Prop} {direction result : Direction Cert}

/-- Messages that keep every entry's invariant keep it along the way. Witness: induction on them. -/
theorem advances (kept : EntryInvariant x509 limits invariant)
    {messages : List Announced} (steps : Advances x509 limits messages direction result)
    (before : ∀ entry ∈ direction.handshakes, invariant entry)
    : ∀ entry ∈ result.handshakes, invariant entry := by
  induction steps with
  | done => exact before
  | limited => exact before
  | skipped _ _ ih => exact ih before
  | hello _ parsed _ ih =>
    refine ih fun entry member => ?_
    rcases List.mem_append.mp member with old | new
    · exact before entry old
    · rw [List.mem_singleton.mp new]
      exact kept.hello parsed _ _
  | certificates _ certified parsed _ ih =>
    refine ih fun entry member => ?_
    rcases List.mem_append.mp member with old | new
    · exact before entry (List.mem_of_mem_dropLast old)
    · rw [List.mem_singleton.mp new]
      obtain ⟨latest, _⟩ := Option.filter_eq_some_iff.mp certified
      exact kept.certificates (before _ (List.mem_of_getLast? latest)) parsed _

theorem parse (kept : EntryInvariant x509 limits invariant)
    (parsed : parse x509 limits stream = .ok direction)
    : ∀ entry ∈ direction.handshakes, invariant entry := by
  have none (opened : Direction Cert) (unread : opened.Unread stream)
      : ∀ entry ∈ opened.handshakes, invariant entry := by
    rw [unread.handshakes]
    exact fun _ member => absurd member List.not_mem_nil
  rcases parse_cases parsed with unread | ⟨chunk, start, collected, opened, read, cut, prefixBytes,
    tunnel, destination, _, _, opens, messages, rfl⟩
  · exact none direction unread
  · obtain ⟨_, _, looped⟩ := bind_eq_ok.mp messages
    rw [Direction.judged, (Direction.judged_entries ..).1]
    exact kept.advances (messageLoop_advances looped) (none opened opens)

end EntryInvariant

end PacketQuapture.Tls
