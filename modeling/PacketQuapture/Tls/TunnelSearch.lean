import PacketQuapture.Tls.Fragmentation
import PacketQuapture.Tls.TunnelSafety
import PacketQuapture.Tls.WholeLists

/-! The search for the first hello of a stream that does not begin with TLS.
It stops at the first offset where a record holds a whole hello that parses, and the parser of
records and messages then agrees with it from that offset on.
-/

namespace PacketQuapture.Tls

open Library Reassembly

variable {Cert : Type} {x509 : X509Parser Cert}
variable {limits : TlsHandshakeLimits Cert} {data body : List UInt8} {offset : Nat}
variable {client : Bool}

/-! ### Records that hold a hello -/

/-- The type of a side's hello message. -/
def helloType (client : Bool) : UInt8 :=
  if client then tlsHandshakeClientHello else tlsHandshakeServerHello

theorem helloType_role (client : Bool)
    : (helloType client = tlsHandshakeClientHello ∨ helloType client = tlsHandshakeServerHello)
      ∧ decide (helloType client = tlsHandshakeClientHello) = client := by
  cases client <;> decide

/-- At an offset the data has a handshake record whose body begins with a whole hello that parses
within the limits.
-/
structure HelloRecord (limits : TlsHandshakeLimits Cert) (data : List UInt8) (offset : Nat)
    (client : Bool) (body : List UInt8)
    : Prop where
  record : ∃ (record : PlainRecord) (more rest : List UInt8), record.type = tlsRecordHandshake
    ∧ record.body = encodeMessage (helloType client) body ++ more
    ∧ data.drop offset = record.encode ++ rest
  fits : body.length ≤ limits.maxMessageBytes
  parses : ∃ form : HelloForm, form.Frames limits.maxExtensions client body

theorem encodeMessage_append (type : UInt8) (body rest : List UInt8)
    : encodeMessage type body ++ rest = type :: (bytes24 body.length ++ (body ++ rest)) := by
  simp [encodeMessage]

theorem messageLength_bytes24 {length : Nat} (fits : length < 2 ^ 24) (type : UInt8)
    (rest : List UInt8)
    : ((type :: (bytes24 length ++ rest)).getD 1 0).toNat <<< 16
        ||| ((type :: (bytes24 length ++ rest)).getD 2 0).toNat <<< 8
        ||| ((type :: (bytes24 length ++ rest)).getD 3 0).toNat
      = length := by
  have read := congrArg Prod.fst (TlsReader.u24_bytes24 fits rest)
  simp only [bytes24, bytes16, List.cons_append, List.nil_append, TlsReader.u24,
    TlsReader.u8_cons] at read
  exact read

/-- A valid header of a handshake record with all its bytes after it is a record. -/
theorem exists_record {header : List UInt8} (long : tlsRecordHeaderLength ≤ header.length)
    (type : header.getD 0 0 = tlsRecordHandshake) (valid : tlsRecordHeaderValid header = true)
    (whole : recordLength header ≤ header.length - tlsRecordHeaderLength)
    : ∃ (record : PlainRecord) (rest : List UInt8), record.type = tlsRecordHandshake
        ∧ header = record.encode ++ rest := by
  rw [tlsRecordHeaderLength] at long whole
  rcases header with _ | ⟨first, _ | ⟨second, _ | ⟨third, tail⟩⟩⟩
  · exact absurd long (by decide)
  · exact absurd long (by simp)
  · exact absurd long (by simp)
  rcases TlsReader.u16_cases tail with ⟨_, short⟩ | ⟨length, following, rfl, _⟩
  · simp only [List.length_cons] at long
    omega
  have size := recordLength_bytes16 length.toNat_lt first second third following
  simp only [tlsRecordHeaderValid, Bool.and_eq_true, decide_eq_true_eq, ne_eq, decide_not,
    Bool.not_eq_true', decide_eq_false_iff_not] at valid
  rw [size] at valid whole
  obtain ⟨⟨⟨major, minor⟩, occupied⟩, bound⟩ := valid
  have held : length.toNat ≤ following.length := by
    simp only [List.length_cons, List.length_append, bytes16, List.length_nil] at whole
    omega
  obtain ⟨body, rest, rfl, taken⟩ : ∃ body rest, following = body ++ rest
      ∧ body.length = length.toNat := by
    refine ⟨_, _, (List.take_append_drop length.toNat following).symm, ?_⟩
    rw [List.length_take, Nat.min_eq_left held]
  rw [← taken] at occupied bound ⊢
  refine ⟨⟨tlsRecordHandshake, third, body, minor,
    List.ne_nil_of_length_pos (Nat.pos_of_ne_zero occupied), bound, by decide⟩, rest, rfl, ?_⟩
  rw [PlainRecord.encode_append]
  obtain rfl : first = tlsRecordHandshake := type
  obtain rfl : second = 0x03 := major
  rfl

/-- The search recognises a record that holds a hello. -/
theorem HelloRecord.helloAt (hello : HelloRecord limits data offset client body)
    : helloAt limits data offset = .ok (some client) := by
  obtain ⟨record, more, rest, type, message, same⟩ := hello.record
  obtain ⟨form, frames⟩ := hello.parses
  obtain ⟨read, returned, reports⟩ := frames.parseHello_roled false false
  have size : record.body.length = 4 + body.length + more.length := by
    rw [message, encodeMessage_append]
    simp only [List.length_cons, List.length_append, bytes24, bytes16, List.length_nil]
    omega
  have bound := record.fits
  have long := record.length_encode
  rw [tlsMaxRecordLength] at bound
  rw [tlsRecordHeaderLength] at long
  have dropped : (record.encode ++ rest).drop 5
      = helloType client :: (bytes24 body.length ++ (body ++ (more ++ rest))) := by
    rw [record.encode_append, message, encodeMessage_append]
    simp [bytes16]
  unfold Tls.helloAt
  simp only [same, tlsRecordHeaderLength, dropped]
  rw [if_neg (by rw [List.length_append]; omega), record.valid_encode, record.recordLength_encode,
    messageLength_bytes24 (by omega)]
  have headed : (record.encode ++ rest).getD 0 0 = tlsRecordHandshake := type
  rw [if_neg (by rw [headed, List.length_append]; simp; omega)]
  have typed : (helloType client :: (bytes24 body.length ++ (body ++ (more ++ rest)))).getD 0 0
      = helloType client := rfl
  have taken : ((helloType client :: (bytes24 body.length ++ (body ++ (more ++ rest)))).drop 4).take
      body.length = body := by
    exact List.take_left
  have fits := hello.fits
  obtain ⟨known, role⟩ := helloType_role client
  have plain : parseHello limits client body {} = .ok read := returned
  rw [typed, taken, if_neg (by rw [not_or, not_and_or, not_not, not_not]; exact ⟨known, by omega⟩),
    role, plain, ok_bind, if_pos reports.parsed]
  rfl

/-- The search always says whether a hello is there, and what it finds is a hello. -/
theorem helloAt_returns (limits : TlsHandshakeLimits Cert) (data : List UInt8) (offset : Nat)
    : ∃ found, helloAt limits data offset = .ok found
        ∧ ∀ client, found = some client → ∃ body, HelloRecord limits data offset client body := by
  unfold helloAt
  dsimp only
  split
  case isTrue => exact ⟨none, rfl, nofun⟩
  case isFalse long =>
    split
    case isTrue => exact ⟨none, rfl, nofun⟩
    case isFalse headed =>
      split
      case isTrue => exact ⟨none, rfl, nofun⟩
      case isFalse message =>
        rw [not_or, not_or, not_not, not_not, Nat.not_lt] at headed
        obtain ⟨record, rest, type, same⟩ := exists_record (by omega) headed.1 headed.2.1 headed.2.2
        rw [same, record.recordLength_encode] at message
        have dropped : (record.encode ++ rest).drop tlsRecordHeaderLength = record.body ++ rest := by
          rw [record.encode_append]
          simp [bytes16, tlsRecordHeaderLength]
        rw [same, dropped]
        rw [dropped] at message
        obtain ⟨kind, tail, whole⟩ := List.exists_cons_of_length_pos
          (List.length_pos_of_ne_nil record.occupied)
        rcases TlsReader.u24_cases tail with ⟨_, short⟩ | ⟨length, following, fits, rfl, _⟩
        · refine absurd (Or.inr (.inl ?_)) message
          rw [whole, List.length_cons]
          omega
        have joined : record.body ++ rest
            = kind :: (bytes24 length ++ (following ++ rest)) := by
          rw [whole]
          simp
        have typed : (record.body ++ rest).getD 0 0 = kind := by
          rw [joined]
          rfl
        rw [joined, messageLength_bytes24 fits] at message ⊢
        rw [← joined, typed] at message ⊢
        have size : record.body.length = 4 + following.length := by
          rw [whole]
          simp [bytes24, bytes16]
          omega
        rw [not_or, not_or, not_or, not_and_or, not_not, not_not] at message
        obtain ⟨known, _, held, small⟩ := message
        obtain ⟨body, more, rfl, taken⟩ : ∃ body more, following = body ++ more
            ∧ body.length = length := by
          refine ⟨_, _, (List.take_append_drop length following).symm, ?_⟩
          rw [List.length_take, Nat.min_eq_left (by omega)]
        subst taken
        have found : ((record.body ++ rest).drop 4).take body.length = body := by
          rw [joined, List.append_assoc]
          exact List.take_left
        obtain ⟨read, returned, framed⟩ := parseHello_framed limits
          (decide (kind = tlsHandshakeClientHello)) body false false
        have plain : parseHello limits (decide (kind = tlsHandshakeClientHello)) body {}
            = .ok read := returned
        rw [found, plain, ok_bind]
        refine ⟨_, rfl, fun client accepted => ?_⟩
        split at accepted
        case isFalse => cases accepted
        case isTrue parsed =>
          obtain rfl := Option.some.inj accepted
          refine ⟨body, ⟨record, more, rest, type, ?_, same⟩, Nat.le_of_not_lt small,
            framed parsed⟩
          have role : helloType (decide (kind = tlsHandshakeClientHello)) = kind := by
            rcases known with rfl | rfl <;> rfl
          rw [whole, role, encodeMessage_append]

/-! ### The search -/

theorem HelloRecord.byte (hello : HelloRecord limits data offset client body)
    : data[offset]? = some tlsRecordHandshake := by
  obtain ⟨record, _, rest, type, _, same⟩ := hello.record
  have first : (data.drop offset)[0]? = some record.type := by
    rw [same]
    rfl
  rwa [List.getElem?_drop, Nat.add_zero, type] at first

/-- What the search finds between two offsets: nothing, or the first record that holds a hello. -/
inductive Finds (limits : TlsHandshakeLimits Cert) (data : List UInt8) (start stop : Nat)
    : Option (Nat × Bool) → Prop
  | nothing (absent : ∀ offset client body, start ≤ offset → offset < stop →
      ¬ HelloRecord limits data offset client body)
    : Finds limits data start stop none
  | first {offset : Nat} {client : Bool} {body : List UInt8} (after : start ≤ offset)
    (before : offset < stop) (hello : HelloRecord limits data offset client body)
    (least : ∀ earlier side other, start ≤ earlier → earlier < offset →
      ¬ HelloRecord limits data earlier side other)
    : Finds limits data start stop (some (offset, client))

/-- The search finds the first record that holds a hello.
Witness: induction on the fuel; the jump to the next byte of the right value passes no hello.
-/
theorem findHello_finds {stop fuel start : Nat} (enough : stop - start < fuel)
    : ∃ found, findHello limits data stop fuel start = .ok found
        ∧ Finds limits data start stop found := by
  induction fuel generalizing start with
  | zero => exact absurd enough (Nat.not_lt_zero _)
  | succ fuel ih =>
    unfold findHello
    cases jump : findRecord data start stop with
    | none =>
      refine ⟨none, rfl, .nothing fun offset client body after before hello => ?_⟩
      have absent := List.find?_eq_none.mp jump offset
        (List.mem_range'_1.mpr ⟨after, by omega⟩)
      exact absent (decide_eq_true hello.byte)
    | some place =>
      obtain ⟨_, member, skipped⟩ := List.find?_range'_eq_some.mp jump
      have within := List.mem_range'_1.mp member
      have passed (offset : Nat) (client : Bool) (body : List UInt8) (after : start ≤ offset)
          (before : offset < place)
          : ¬ HelloRecord limits data offset client body := by
        intro hello
        have other := skipped offset after before
        rw [decide_eq_true hello.byte] at other
        cases other
      obtain ⟨found, returned, holds⟩ := helloAt_returns limits data place
      dsimp only
      rw [returned, ok_bind]
      cases found with
      | some client =>
        obtain ⟨body, hello⟩ := holds client rfl
        exact ⟨_, rfl, .first within.1 (by omega) hello passed⟩
      | none =>
        have here (client : Bool) (body : List UInt8)
            : ¬ HelloRecord limits data place client body := by
          intro hello
          rw [hello.helloAt] at returned
          cases returned
        have earlier (offset : Nat) (client : Bool) (body : List UInt8)
            (after : start ≤ offset) (before : offset < place + 1)
            : ¬ HelloRecord limits data offset client body := by
          rcases Nat.lt_succ_iff_lt_or_eq.mp before with less | rfl
          · exact passed offset client body after less
          · exact here client body
        obtain ⟨later, searched, finds⟩ := @ih (place + 1) (by omega)
        refine ⟨later, searched, ?_⟩
        cases finds with
        | nothing absent =>
          refine .nothing fun offset client body after before => ?_
          by_cases next : place + 1 ≤ offset
          · exact absent offset client body next before
          · exact earlier offset client body after (by omega)
        | first after before hello least =>
          refine .first (by omega) before hello fun offset side other after less => ?_
          by_cases next : place + 1 ≤ offset
          · exact least offset side other next less
          · exact earlier offset side other after (by omega)

/-! ### Parsing from the hello on -/

theorem announced_encodeMessage {type : UInt8} (fits : body.length < 2 ^ 24) (rest : List UInt8)
    : announced (encodeMessage type body ++ rest) = ⟨type, body.length, body⟩ := by
  unfold announced
  rw [encodeMessage_append, TlsReader.u8_cons]
  dsimp only
  rw [TlsReader.u24_bytes24 fits]
  exact congrArg (Announced.mk type body.length) List.take_left

/-- The first hello stays the first, whatever messages follow. -/
theorem gather_cons (maxHandshakes : Nat) (first : Sent) (sent : List Sent)
    (messages : List Announced)
    : ∃ certificates others, gather maxHandshakes (first :: sent) messages
        = { first with certificates } :: others := by
  induction messages generalizing first sent with
  | nil => exact ⟨first.certificates, sent, rfl⟩
  | cons message rest ih =>
    unfold gather
    split
    case isTrue =>
      split
      case isTrue => exact ⟨first.certificates, sent, rfl⟩
      case isFalse => exact ih first _
    case isFalse =>
      split
      case isFalse => exact ih first sent
      case isTrue =>
        cases sent with
        | nil => exact ih { first with certificates := first.certificates ++ [message.body] } []
        | cons second sent =>
          obtain ⟨certificates, others, same⟩ := ih first (attach message.body (second :: sent))
          exact ⟨certificates, others, same⟩

theorem transcript_encodeMessage (room : 1 ≤ limits.maxHandshakes)
    (fits : body.length < 2 ^ 24) (small : body.length ≤ limits.maxMessageBytes)
    (rest : List UInt8)
    : ∃ certificates others,
        transcript limits (encodeMessage (helloType client) body ++ rest)
          = { client, body, certificates } :: others := by
  have long : (encodeMessage (helloType client) body ++ rest).length
      = 4 + body.length + rest.length := by
    rw [encodeMessage_append]
    simp [bytes24, bytes16]
    omega
  obtain ⟨known, role⟩ := helloType_role client
  unfold transcript
  rw [framed, announced_encodeMessage fits, if_neg (by omega), if_neg (by dsimp only; omega), gather,
    if_pos known, if_neg (by simp; omega), role]
  exact gather_cons _ { client, body } [] _

theorem HelloRecord.length_lt (hello : HelloRecord limits data offset client body)
    : body.length < 2 ^ 24 := by
  obtain ⟨record, more, _, _, message, _⟩ := hello.record
  have bound := record.fits
  rw [message, encodeMessage_append] at bound
  simp only [List.length_cons, List.length_append, tlsMaxRecordLength] at bound
  omega

theorem HelloRecord.offset_lt (hello : HelloRecord limits data offset client body)
    : offset < data.length :=
  (List.getElem?_eq_some_iff.mp hello.byte).1

/-- The handshake bytes collected from the record on begin with the hello. -/
theorem HelloRecord.collects {chunk : TcpStreamChunk}
    (hello : HelloRecord limits chunk.data offset client body)
    : ∃ collected rest, collectHandshakeBytes chunk offset = .ok collected
        ∧ collected.Placed chunk.data chunk.data.length
        ∧ collected.bytes = encodeMessage (helloType client) body ++ rest := by
  have inside := hello.offset_lt
  obtain ⟨record, more, after, type, message, same⟩ := hello.record
  have size : chunk.data.length - offset
      = tlsRecordHeaderLength + record.body.length + after.length := by
    rw [← List.length_drop, same, List.length_append, record.length_encode]
  have taken : ((chunk.data.drop offset).drop tlsRecordHeaderLength).take record.body.length
      = record.body := by
    rw [same, record.encode_append]
    exact List.take_left
  have placed := @Collected.Placed.push chunk.data offset {} (offset + tlsRecordHeaderLength)
    record.body.length (offset + tlsRecordHeaderLength + record.body.length) (.start _ _)
    (Nat.le_add_right _ _) (List.length_pos_of_ne_nil record.occupied) (Nat.le_refl _)
  rw [← List.drop_drop, taken] at placed
  have header : 0 < tlsRecordHeaderLength := by decide
  obtain ⟨⟨stop, collected⟩, looped, bound, final, more_, extends_⟩ := Ensures.returns
    (@collectLoop_placed _ chunk.data.length _ _ (by omega) (by omega) placed)
  have first : collectLoop chunk.data (chunk.data.length + 1) offset {} = .ok (stop, collected) := by
    have headed : (chunk.data.drop offset).getD 0 0 = record.type := by
      rw [same]
      rfl
    rw [← looped, collectLoop]
    dsimp only
    rw [headed, same, record.valid_encode, record.recordLength_encode, ← same, taken,
      if_neg (by rw [List.length_drop]; omega), if_neg (by simp), if_neg record.plain,
      if_neg (by rw [List.length_drop]; omega), if_neg (not_not.mpr type)]
  refine ⟨collected, more ++ more_, ?_, final.mono bound, ?_⟩
  · unfold collectHandshakeBytes
    rw [require_eq_ok _ inside.le, ok_bind, first, ok_bind, require_eq_ok _ bound]
    rfl
  · rw [← List.append_assoc, ← message, ← extends_]
    rfl

theorem Collected.Placed.located {chunk : TcpStreamChunk} {collected : Collected}
    (placed : collected.Placed chunk.data chunk.data.length) (traced : chunk.Traced)
    : Located chunk collected.bytes collected.spans fun _ => False := by
  intro offset length occupied inside
  rw [← placed.total (Nat.le_refl _)] at inside
  obtain ⟨first, last, _, _, _, located⟩ := placed.spans.locate_eq occupied inside
  obtain ⟨stamps, traced⟩ := traced.provenance_returns first (last + 1 - first)
  unfold messageStamps
  rw [located, ok_bind]
  dsimp only
  rw [traced]
  exact .ok trivial

/-- The entry of a hello that parsed: its role, its columns and a status that is not invalid. -/
structure TlsHandshake.Shows (limits : TlsHandshakeLimits Cert) (client : Bool)
    (body : List UInt8) (entry : TlsHandshake Cert)
    : Prop where
  roles : entry.hasClientHello = client ∧ entry.hasServerHello = !client
  columns : ∃ read, parseHello limits client body (.fresh client) = .ok read
    ∧ read.parsed = true
    ∧ entry.clientFields = read.handshake.clientFields
    ∧ entry.serverFields = read.handshake.serverFields
  status : entry.status ≠ .invalid

theorem Conveyed.shows {sent : Sent} {read : HelloRead Cert}
    {entry : TlsHandshake Cert} (told : Conveyed x509 limits sent read entry)
    {form : HelloForm} (frames : form.Frames limits.maxExtensions sent.client sent.body)
    : entry.Shows limits sent.client sent.body := by
  have parsed := (told.frames_parsed frames).parsed
  have client := told.supplies.client
  have server := told.supplies.server
  rw [if_pos parsed] at client server
  refine ⟨told.roles, ⟨read, told.supplies.returned, parsed, client, server⟩, fun invalid => ?_⟩
  rcases (told.parsed parsed).status with unset | limit
  · rw [invalid] at unset
    cases unset
  · rw [invalid] at limit
    cases limit

/-- From a record that holds a hello on, the first entry shows that hello. -/
theorem HelloRecord.parseRecords {chunk : TcpStreamChunk} {start : Direction Cert}
    (hello : HelloRecord limits chunk.data offset client body) (traced : chunk.Traced)
    (room : 1 ≤ limits.maxHandshakes) (fresh : start.handshakes = []) (stream : TcpStream)
    : ∃ direction entry rest, parseRecords x509 limits stream chunk offset start = .ok direction
        ∧ direction.handshakes = entry :: rest ∧ entry.Shows limits client body := by
  obtain ⟨collected, rest, collects, placed, begins⟩ := hello.collects
  obtain ⟨form, frames⟩ := hello.parses
  have occupied : collected.bytes ≠ [] := by
    rw [begins, encodeMessage_append]
    exact List.cons_ne_nil _ _
  obtain ⟨⟨truncated, read⟩, looped, transcribed⟩ := Ensures.returns
    (@messageLoop_transcribed _ x509 limits chunk collected.bytes collected.spans _ start
      (placed.located traced) fresh)
  obtain ⟨certificates, others, sent⟩ := @transcript_encodeMessage _ limits body client room
    hello.length_lt hello.fits rest
  rw [← begins] at sent
  unfold Direction.Transcribed at transcribed
  dsimp only at transcribed
  rw [sent] at transcribed
  obtain ⟨entry, later, ⟨_, hello, told⟩, _, entries⟩ := List.forall₂_cons_left_iff.mp transcribed
  refine ⟨((read.cut stream (collected.truncated || truncated)).anchored stream).oriented stream,
    entry, later, ?_, ?_, told.shows frames⟩
  · unfold Tls.parseRecords parseMessages
    rw [collects, ok_bind, if_neg occupied, require_eq_ok _ occupied, ok_bind, looped]
    rfl
  · rw [(Direction.judged_entries ..).1]
    exact entries

theorem Direction.classified_returns (direction : Direction Cert) (data : List UInt8)
    (start : Nat) (client : Bool)
    : ∃ result, direction.classified data start client = .ok result
        ∧ result.prefixBytes = start ∧ result.handshakes = direction.handshakes := by
  unfold Direction.classified
  cases client with
  | true =>
    obtain ⟨read, returned, _⟩ := Ensures.returns (classifyClientPrefix_ensures (data.take start))
    rw [if_pos rfl, returned]
    exact ⟨_, rfl, rfl, rfl⟩
  | false =>
    obtain ⟨read, returned, _⟩ := Ensures.returns (classifyServerPrefix_ensures (data.take start))
    rw [if_neg Bool.false_ne_true, returned]
    exact ⟨_, rfl, rfl, rfl⟩

/-- Parsing a stream yields a direction with hellos exactly when some offset from one on and below
an end begins a record that holds a whole hello; the first such offset is the length of the prefix,
and the direction's first entry shows that hello.
-/
def Searches (x509 : X509Parser Cert) (limits : TlsHandshakeLimits Cert) (stream : TcpStream)
    (chunk : TcpStreamChunk) (stop : Nat)
    : Prop :=
  ∃ direction, parse x509 limits stream = .ok direction
    ∧ (direction.handshakes ≠ [] ↔ ∃ offset client body, 1 ≤ offset ∧ offset < stop
        ∧ HelloRecord limits chunk.data offset client body)
    ∧ (direction.handshakes ≠ [] → ∃ client body,
        1 ≤ direction.prefixBytes ∧ direction.prefixBytes < stop
        ∧ HelloRecord limits chunk.data direction.prefixBytes client body
        ∧ (∀ earlier side other, 1 ≤ earlier → earlier < direction.prefixBytes →
            ¬ HelloRecord limits chunk.data earlier side other)
        ∧ ∃ entry rest, direction.handshakes = entry :: rest
            ∧ entry.Shows limits client body)

section Search

variable {stream : TcpStream} {chunk : TcpStreamChunk}

/-- A stream that does not begin with TLS is searched up to the end the code computes.
Witness: the search finds the first record that holds a hello, and the parser of records and
messages reads that hello first.
-/
theorem parse_searches (x509 : X509Parser Cert) (limits : TlsHandshakeLimits Cert)
    (traced : stream.Traced) (status : stream.status ≠ .conflict ∧ stream.status ≠ .limit)
    (leads : leadingChunk? stream = some chunk) (plain : beginsHandshake chunk.data = false)
    (room : 1 ≤ limits.maxHandshakes)
    : Searches x509 limits stream chunk ((limits.maxTunnelPrefixBytes + 1) % 2 ^ 64) := by
  have member : chunk ∈ stream.chunks := by
    have first := (Option.filter_eq_some_iff.mp leads).1
    exact List.mem_of_mem_head? first
  have trace := traced chunk member
  unfold Searches parse
  rw [if_neg (not_or.mpr status), leads]
  dsimp only
  rw [if_neg (by rw [plain]; exact Bool.false_ne_true)]
  unfold searchPrefix
  dsimp only
  generalize (limits.maxTunnelPrefixBytes + 1) % 2 ^ 64 = stop
  obtain ⟨found, searched, finds⟩ := @findHello_finds _ limits chunk.data
    (min stop chunk.data.length) (min stop chunk.data.length + 1) 1 (by omega)
  rw [searched, ok_bind]
  cases finds with
  | nothing absent =>
    refine ⟨_, rfl, ⟨fun carries => absurd rfl carries, ?_⟩, fun carries => absurd rfl carries⟩
    rintro ⟨offset, client, body, after, before, hello⟩
    have inside := hello.offset_lt
    exact absurd hello (absent offset client body after (by omega))
  | @first offset client body after before hello least =>
    obtain ⟨direction, entry, rest, recorded, entries, shows_⟩ :=
      @HelloRecord.parseRecords _ x509 limits body offset client chunk
        { Direction.ofStream stream with needsConfirmation := ¬ stream.synSeen } hello trace room
        rfl stream
    obtain ⟨result, classified, prefixed, kept⟩ := direction.classified_returns chunk.data offset
      client
    have small : offset ≤ 2 ^ 32 - 1 := by
      have bound := trace.1
      omega
    dsimp only
    rw [recorded, ok_bind, require_eq_ok _ small, ok_bind]
    rw [entries] at kept
    refine ⟨result, classified, ⟨fun _ => ⟨offset, client, body, after, by omega, hello⟩,
      fun _ => ?_⟩, fun _ => ⟨client, body, ?_⟩⟩
    · rw [kept]
      exact List.cons_ne_nil _ _
    · rw [prefixed]
      exact ⟨after, by omega, hello, least, entry, rest, kept, shows_⟩

/-- The search covers exactly the offsets up to the limit on the prefix, unless that limit is the
greatest machine word, so that nothing is searched, and the stream holds a hello to be found.
-/
theorem parse_searched (x509 : X509Parser Cert) (limits : TlsHandshakeLimits Cert)
    (traced : stream.Traced) (status : stream.status ≠ .conflict ∧ stream.status ≠ .limit)
    (leads : leadingChunk? stream = some chunk) (plain : beginsHandshake chunk.data = false)
    (room : 1 ≤ limits.maxHandshakes) (word : limits.maxTunnelPrefixBytes < 2 ^ 64)
    : Searches x509 limits stream chunk (limits.maxTunnelPrefixBytes + 1)
      ↔ (limits.maxTunnelPrefixBytes = 2 ^ 64 - 1 → ∀ offset client body, 1 ≤ offset →
          ¬ HelloRecord limits chunk.data offset client body) := by
  have searches := parse_searches x509 limits traced status leads plain room
  by_cases last : limits.maxTunnelPrefixBytes = 2 ^ 64 - 1
  case neg =>
    rw [Nat.mod_eq_of_lt (by omega)] at searches
    exact ⟨fun _ same => absurd same last, fun _ => searches⟩
  case pos =>
    obtain ⟨direction, parsed, searched, _⟩ := searches
    have none : direction.handshakes = [] := by
      by_contra carries
      obtain ⟨offset, _, _, _, before, _⟩ := searched.mp carries
      rw [last] at before
      exact absurd before (Nat.not_lt_zero _)
    constructor
    · rintro ⟨again, same, found, _⟩ _ offset client body after hello
      cases parsed.symm.trans same
      have inside := hello.offset_lt
      have bound := (traced chunk (List.mem_of_mem_head?
        (Option.filter_eq_some_iff.mp leads).1)).1
      exact found.mpr ⟨offset, client, body, after, by omega, hello⟩ none
    · intro absent
      refine ⟨direction, parsed, ⟨fun carries => absurd none carries, ?_⟩,
        fun carries => absurd none carries⟩
      rintro ⟨offset, client, body, after, _, hello⟩
      exact absurd hello (absent last offset client body after)

end Search

theorem searchedHello_traced : (searchedHello 1 1).Traced :=
  List.forall_mem_singleton.mpr ⟨by decide, .cons rfl (by decide) (.nil _)⟩

/-- The chunk of a stream with a ClientHello after one other byte. -/
def searchedChunk : TcpStreamChunk :=
  (searchedHello 1 1).chunks.headD {}

theorem searchedChunk_hello {limits : TlsHandshakeLimits Unit}
    (found : (helloAt limits searchedChunk.data 1).toOption = some (some true))
    : ∃ body, HelloRecord limits searchedChunk.data 1 true body := by
  obtain ⟨hello, returned, holds⟩ := helloAt_returns limits searchedChunk.data 1
  rw [returned] at found
  exact holds true (Option.some.inj found)

/-- A ClientHello after one other byte, in a stream without its SYN, is found under the default
limits.
-/
theorem parse_searched_hello
    : Searches noCertificates {} (searchedHello 1 1) searchedChunk (8 * 1024 + 1)
      ∧ ∃ body, HelloRecord ({} : TlsHandshakeLimits Unit) searchedChunk.data 1 true body :=
  ⟨(parse_searched noCertificates {} searchedHello_traced (by decide) rfl (by decide) (by decide)
      (by decide)).mpr (fun last => absurd last (by decide)),
    searchedChunk_hello (by decide +kernel)⟩

/-- The greatest limit on the prefix. -/
def unlimitedPrefix : TlsHandshakeLimits Unit :=
  { maxTunnelPrefixBytes := 2 ^ 64 - 1 }

/-- Under the greatest limit the same ClientHello is not found. -/
theorem not_searches_unlimited
    : ¬ Searches noCertificates unlimitedPrefix (searchedHello 1 1) searchedChunk
        (unlimitedPrefix.maxTunnelPrefixBytes + 1) := by
  rintro ⟨direction, parsed, found, _⟩
  obtain ⟨body, hello⟩ := @searchedChunk_hello unlimitedPrefix (by decide +kernel)
  have none : ((parse noCertificates unlimitedPrefix (searchedHello 1 1)).map fun direction =>
      direction.handshakes.length).toOption = some 0 := by
    decide +kernel
  rw [parsed] at none
  refine found.mpr ⟨1, true, body, le_rfl, by decide, hello⟩ ?_
  exact List.length_eq_zero_iff.mp (Option.some.inj none)

end PacketQuapture.Tls
