import PacketQuapture.Tls.Malformed

/-! Which side a row says was seen.
The role of a hello is recorded with its message, but a row takes it from the direction: every entry
of a direction with a ClientHello is a client half, whatever its own message was.
-/

namespace PacketQuapture.Tls

open Library Reassembly

variable {Cert : Type} {x509 : X509Parser Cert}
variable {limits : TlsHandshakeLimits Cert}
variable {messages : List Announced} {direction : Direction Cert}

/-! ### Messages -/

/-- The hello messages in some handshake bytes, in order. -/
def helloMessages (limits : TlsHandshakeLimits Cert) (bytes : List UInt8) : List Announced :=
  (framed limits bytes).filter Announced.isHello

/-- An entry keeps the role and the columns of the message it was parsed from. -/
structure ReadFrom (limits : TlsHandshakeLimits Cert) (message : Announced)
    (entry : TlsHandshake Cert)
    : Prop where
  isHello : message.isHello = true
  client : entry.hasClientHello = decide (message.type = tlsHandshakeClientHello)
  server : entry.hasServerHello = decide (message.type = tlsHandshakeServerHello)
  parsed : ∃ read, Supplies limits (decide (message.type = tlsHandshakeClientHello)) message.body
    read entry

/-! ### Roles of entries -/

section Kept

variable {client : Bool} {body : List UInt8} {handshake : TlsHandshake Cert}

theorem outline_roles
    : (handshake.outline client).hasClientHello = handshake.hasClientHello
      ∧ (handshake.outline client).hasServerHello = handshake.hasServerHello := by
  cases client <;> exact ⟨rfl, rfl⟩

theorem withVersion_roles (version : UInt16)
    : (handshake.withVersion client version).hasClientHello = handshake.hasClientHello
      ∧ (handshake.withVersion client version).hasServerHello = handshake.hasServerHello := by
  cases client <;> exact ⟨rfl, rfl⟩

/-- Parsing a hello does not change whose it is. -/
theorem parseHello_roles {read : HelloRead Cert}
    (returned : parseHello limits client body handshake = .ok read)
    : read.handshake.hasClientHello = handshake.hasClientHello
      ∧ read.handshake.hasServerHello = handshake.hasServerHello := by
  have outline := parseHello_outline returned
  rw [← (@outline_roles Cert client read.handshake).1,
    ← (@outline_roles Cert client read.handshake).2, outline, outline_roles.1,
    outline_roles.2]
  split
  · exact ⟨rfl, rfl⟩
  · exact withVersion_roles _

end Kept

namespace ReadFrom

variable {message : Announced} {entry : TlsHandshake Cert}

/-- The entry that a hello message adds. -/
theorem hello {client : Bool} {read : TlsHandshake Cert × List UInt8}
    (isHello : message.isHello = true)
    (role : client = decide (message.type = tlsHandshakeClientHello))
    (returned : readHello limits client message.body = .ok read) (first last : PacketStamp)
    : ReadFrom limits message { read.1 with first, last } := by
  subst role
  obtain ⟨parsed, parses, same⟩ := bind_eq_ok.mp returned
  cases same
  have roles := parseHello_roles parses
  have server : (!decide (message.type = tlsHandshakeClientHello))
      = decide (message.type = tlsHandshakeServerHello) := by
    rw [Announced.isHello, Bool.or_eq_true, decide_eq_true_eq, decide_eq_true_eq] at isHello
    rcases isHello with asked | answered
    · rw [asked]
      rfl
    · rw [answered]
      rfl
  refine ⟨isHello, ?_, ?_, parsed, parses, rfl, rfl⟩
  · dsimp only
    split <;> exact roles.1
  · rw [← server, ← decide_not]
    dsimp only
    split <;> exact roles.2.trans (by simp)

theorem certificates {body : List UInt8} {held : Nat} {read : Nat × TlsHandshake Cert}
    (kept : ReadFrom limits message entry)
    (returned : readCertificates x509 limits body held entry = .ok read) (last : PacketStamp)
    : ReadFrom limits message (read.2.extended last) := by
  have same := readCertificates_shown returned last
  obtain ⟨parsed, supplies⟩ := kept.parsed
  exact ⟨kept.isHello, (congrArg Shown.hasClientHello same).trans kept.client,
    (congrArg Shown.hasServerHello same).trans kept.server, parsed, supplies.of_shown same⟩

theorem server_of_not_client (from_ : ReadFrom limits message entry)
    (other : entry.hasClientHello = false)
    : entry.hasServerHello = true := by
  have isHello := from_.isHello
  rw [Announced.isHello, ← from_.client, ← from_.server, other, Bool.false_or] at isHello
  exact isHello

end ReadFrom

/-- The entries of a direction, each read from its message. -/
def EntriesFrom (limits : TlsHandshakeLimits Cert) (messages : List Announced)
    (direction : Direction Cert)
    : Prop :=
  messages.Forall₂ (ReadFrom limits) direction.handshakes

theorem EntriesFrom.read_of_mem {entry : TlsHandshake Cert}
    (entries : EntriesFrom limits messages direction) (member : entry ∈ direction.handshakes)
    : ∃ message, ReadFrom limits message entry := by
  unfold EntriesFrom at entries
  generalize direction.handshakes = read at entries member
  induction entries with
  | nil => cases member
  | @cons message first messages rest read _ ih =>
    rcases List.mem_cons.mp member with rfl | later
    · exact ⟨message, read⟩
    · exact ih later

theorem EntriesFrom.setLatest {latest : TlsHandshake Cert}
    (entries : EntriesFrom limits messages direction)
    (certified : direction.certified? = some latest) {handshake : TlsHandshake Cert}
    (kept : ∀ message, ReadFrom limits message latest → ReadFrom limits message handshake)
    : EntriesFrom limits messages (direction.setLatest handshake) := by
  obtain ⟨ends, _⟩ := Option.filter_eq_some_iff.mp certified
  obtain ⟨earlier, whole⟩ := List.getLast?_eq_some_iff.mp ends
  unfold EntriesFrom Direction.setLatest at *
  rw [whole, ← List.forall₂_reverse_iff, List.reverse_append, List.reverse_singleton,
    List.singleton_append] at entries
  rw [whole, List.dropLast_concat, ← List.forall₂_reverse_iff, List.reverse_append,
    List.reverse_singleton, List.singleton_append]
  obtain ⟨message, rest, last, others, same⟩ := List.forall₂_cons_right_iff.mp entries
  rw [same]
  exact .cons (kept message last) others

/-- Going through messages reads the new entries from the hellos among them, in order.
Witness: induction on the steps; the hellos of the messages not reached are left out at the end.
-/
theorem Advances.entries {read : List Announced} {result : Direction Cert}
    (steps : Advances x509 limits messages direction result)
    (entries : EntriesFrom limits read direction)
    : ∃ more, more <+: messages.filter Announced.isHello
        ∧ EntriesFrom limits (read ++ more) result := by
  induction steps generalizing read with
  | done => exact ⟨[], List.nil_prefix, by rwa [List.append_nil]⟩
  | limited => exact ⟨[], List.nil_prefix, by rwa [List.append_nil]⟩
  | @hello message messages direction result hello stamps isHello parsed _ ih =>
    have pushed : EntriesFrom limits (read ++ [message])
        (direction.push (decide (message.type = tlsHandshakeClientHello)) hello.1 hello.2 stamps) :=
      List.rel_append entries (.cons (ReadFrom.hello isHello rfl parsed stamps.1 stamps.2) .nil)
    obtain ⟨more, first, told⟩ := ih pushed
    refine ⟨message :: more, ?_, by rwa [List.append_cons]⟩
    rw [List.filter_cons, if_pos isHello]
    exact List.cons_prefix_cons.mpr ⟨rfl, first⟩
  | certificates other certified parsed _ ih =>
    rw [List.filter_cons, if_neg (by simp [other])]
    exact ih (entries.setLatest certified fun message kept => kept.certificates parsed _)
  | skipped other _ ih =>
    rw [List.filter_cons, if_neg (by simp [other])]
    exact ih entries

/-- Messages that a stream carries: the first hellos in the records of its leading chunk. -/
def Carries (limits : TlsHandshakeLimits Cert) (stream : TcpStream) (messages : List Announced)
    : Prop :=
  messages = []
  ∨ ∃ chunk start collected, leadingChunk? stream = some chunk
    ∧ collectHandshakeBytes chunk start = .ok collected
    ∧ messages <+: helloMessages limits collected.bytes

/-- Every entry is read from a message the stream carries. -/
theorem parse_entries {stream : TcpStream} (parsed : parse x509 limits stream = .ok direction)
    : ∃ messages, Carries limits stream messages ∧ EntriesFrom limits messages direction := by
  have none (opened : Direction Cert) (unread : opened.Unread stream)
      : EntriesFrom limits [] opened := by
    rw [EntriesFrom, unread.handshakes]
    exact .nil
  rcases parse_cases parsed with unread | ⟨chunk, start, collected, opened, read, cut, prefixBytes,
    tunnel, destination, leads, collects, opens, loops, rfl⟩
  · exact ⟨[], .inl rfl, none direction unread⟩
  · obtain ⟨_, _, looped⟩ := bind_eq_ok.mp loops
    obtain ⟨more, framed, entries⟩ := (messageLoop_advances looped).entries (none opened opens)
    refine ⟨more, .inr ⟨chunk, start, collected, leads, collects, framed⟩, ?_⟩
    rw [EntriesFrom, Direction.judged, (Direction.judged_entries ..).1]
    exact entries

/-- A direction is the client's once it holds a ClientHello. -/
def Direction.Told (direction : Direction Cert) : Prop :=
  direction.client = direction.handshakes.any TlsHandshake.hasClientHello

theorem Advances.told {result : Direction Cert}
    (steps : Advances x509 limits messages direction result) (told : direction.Told)
    : result.Told := by
  induction steps with
  | done => exact told
  | limited => exact told
  | skipped _ _ ih => exact ih told
  | @hello message messages direction result read stamps _ parsed _ ih =>
    refine ih ?_
    obtain ⟨hello, parses, same⟩ := bind_eq_ok.mp parsed
    cases same
    have role : (if hello.parsed then hello.handshake
        else hello.handshake.invalidated (decide (message.type = tlsHandshakeClientHello))
        ).hasClientHello = decide (message.type = tlsHandshakeClientHello) := by
      split <;> exact (parseHello_roles parses).1
    unfold Direction.Told Direction.push at *
    dsimp only
    rw [List.any_append, List.any_cons, List.any_nil, Bool.or_false, told]
    exact congrArg _ role.symm
  | @certificates _ _ direction result latest held read last _ certified parsed _ ih =>
    refine ih ?_
    obtain ⟨ends, _⟩ := Option.filter_eq_some_iff.mp certified
    obtain ⟨earlier, whole⟩ := List.getLast?_eq_some_iff.mp ends
    unfold Direction.Told Direction.setLatest at *
    dsimp only
    rw [told, whole, List.dropLast_concat, List.any_append, List.any_append, List.any_cons,
      List.any_cons]
    exact congrArg (fun role => _ || (role || _))
      (congrArg Shown.hasClientHello (readCertificates_shown parsed last)).symm

/-- A parsed direction is a client if one of its entries is a ClientHello. -/
theorem parse_told {stream : TcpStream} (parsed : parse x509 limits stream = .ok direction)
    : direction.Told := by
  have none (opened : Direction Cert) (unread : opened.Unread stream) : opened.Told := by
    rw [Direction.Told, unread.handshakes, unread.client, List.any_nil]
  rcases parse_cases parsed with unread | ⟨chunk, start, collected, opened, read, cut, prefixBytes,
    tunnel, destination, _, _, opens, messages, rfl⟩
  · exact none direction unread
  · obtain ⟨_, _, looped⟩ := bind_eq_ok.mp messages
    have told := (messageLoop_advances looped).told (none opened opens)
    rw [Direction.Told, Direction.judged, (Direction.judged_entries ..).1,
      (Direction.judged_entries ..).2]
    exact told

/-! ### Roles of rows -/

/-- The two flags of a row that name the sides seen. -/
def TlsHandshake.roles (handshake : TlsHandshake Cert) : Bool × Bool :=
  (handshake.hasClientHello, handshake.hasServerHello)

namespace Origin

variable {directions : List (Direction Cert)} {origin : Origin}

/-- A row that tells the roles of its halves: it names the sides whose hellos they are, and the nth
row joins the nth ClientHello with the nth ServerHello.
-/
structure Truthful (directions : List (Direction Cert)) (origin : Origin) : Prop where
  client : (origin.row directions).hasClientHello = true
    ↔ ∃ entry, origin.clientHalf directions = some entry ∧ entry.hasClientHello = true
  server : (origin.row directions).hasServerHello = true
    ↔ ∃ entry, origin.serverHalf directions = some entry ∧ entry.hasServerHello = true
  nthClient : origin.clientHalf directions ≠ none →
    ((origin.merging.clientOf directions).handshakes.take (origin.index + 1)).countP
      TlsHandshake.hasClientHello = origin.index + 1
  nthServer : ∀ source, origin.merging.serverOf directions = some source →
    origin.serverHalf directions ≠ none →
      (source.handshakes.take (origin.index + 1)).countP TlsHandshake.hasServerHello
        = origin.index + 1

/-- The client's direction holds only ClientHellos up to the row's half. -/
def Asks (directions : List (Direction Cert)) (origin : Origin) : Prop :=
  origin.clientHalf directions ≠ none →
    ∀ entry ∈ (origin.merging.clientOf directions).handshakes.take (origin.index + 1),
      entry.hasClientHello = true

theorem countP_take_succ {entries : List (TlsHandshake Cert)} {index : Nat}
    {kind : TlsHandshake Cert → Bool} (inside : entries[index]? ≠ none)
    : (entries.take (index + 1)).countP kind = index + 1
      ↔ ∀ entry ∈ entries.take (index + 1), kind entry = true := by
  have size : (entries.take (index + 1)).length = index + 1 := by
    rw [ne_eq, List.getElem?_eq_none_iff] at inside
    rw [List.length_take]
    omega
  rw [← List.countP_eq_length, size]

/-- A row tells the roles exactly when the client's direction asks up to it.
Witness: a server's direction holds no ClientHello, so only the client's half can be mistaken.
-/
theorem truthful_iff
    (answers : ∀ source, origin.merging.serverOf directions = some source →
      ∀ entry ∈ source.handshakes, entry.hasServerHello = true)
    : origin.Truthful directions ↔ origin.Asks directions := by
  refine ⟨fun truthful present entry member => ?_, fun asks => ⟨?_, ?_, ?_, ?_⟩⟩
  · exact (countP_take_succ present).mp (truthful.nthClient present) entry member
  · rw [(origin.carried directions).client, Option.isSome_iff_exists]
    refine exists_congr fun entry => (and_iff_left_of_imp fun half => ?_).symm
    refine asks (by rw [half]; exact Option.some_ne_none entry) entry ?_
    exact List.mem_of_getElem? ((List.getElem?_take_of_lt (Nat.lt_succ_self _)).trans half)
  · rw [(origin.carried directions).server, Option.isSome_iff_exists]
    refine exists_congr fun entry => (and_iff_left_of_imp fun half => ?_).symm
    obtain ⟨source, same, found⟩ := entryOf_eq_some half
    exact answers source same entry (List.mem_of_getElem? found)
  · exact fun present => (countP_take_succ present).mpr (asks present)
  · intro source same present
    have inside : source.handshakes[origin.index]? ≠ none := by
      rw [serverHalf, same] at present
      exact present
    refine (countP_take_succ inside).mpr fun entry member => ?_
    exact answers source same entry (List.mem_of_mem_take member)

end Origin

/-- Where the rows come from, with the messages their halves were parsed from, and when they tell
the roles of these messages.
-/
structure ReportsRoles (x509 : X509Parser Cert) (limits : TlsHandshakeLimits Cert)
    (streams : List TcpStream) (rows : List (TlsHandshake Cert))
    (directions : List (Direction Cert)) (origins : List Origin)
    : Prop
    extends Traces x509 limits streams rows directions origins where
  read : ∀ (position : Nat) (stream : TcpStream) (direction : Direction Cert),
    streams[position]? = some stream →
    directions[position]? = some direction →
      ∃ messages, Carries limits stream messages ∧ EntriesFrom limits messages direction
  roles : ∀ origin ∈ origins, origin.Truthful directions ↔ origin.Asks directions

/-- In every run each row tells the roles of its halves exactly when the client's direction holds
only ClientHellos up to that row.
-/
theorem TlsHandshakeAssembler.report_roles {streams : List TcpStream}
    {rows : List (TlsHandshake Cert)} (reported : report x509 limits streams = .ok rows)
    : ∃ directions origins, ReportsRoles x509 limits streams rows directions origins := by
  obtain ⟨⟨shown, last⟩, returned, same⟩ := bind_eq_ok.mp reported
  obtain ⟨directions, merges, traces, proper, _⟩ := run_traces returned
  rw [← Except.ok.inj same]
  refine ⟨directions, merges.flatMap (Merging.origins directions), traces, ?_, ?_⟩
  · intro position stream direction located found
    obtain ⟨again, place, parsed⟩ := stream_of_parsed traces.parsed found
    cases place.symm.trans located
    exact parse_entries parsed
  · intro origin member
    obtain ⟨merging, chosen, place⟩ := List.mem_flatMap.mp member
    obtain ⟨index, _, rfl⟩ := List.mem_map.mp place
    refine Origin.truthful_iff fun source at_ entry held => ?_
    -- the server's direction has no ClientHello, so every entry is a ServerHello's
    have answered : source.client = false := by
      cases proper merging chosen with
      | client => cases at_
      | @server position direction parsed _ _ answered =>
        cases parsed.symm.trans at_
        exact answered
      | @pair clientAt serverAt client server _ parsed _ _ _ _ answered =>
        cases parsed.symm.trans at_
        exact answered
    obtain ⟨position, _, located⟩ := Option.bind_eq_some_iff.mp at_
    obtain ⟨stream, _, parsed⟩ := stream_of_parsed traces.parsed located
    have told := parse_told parsed
    rw [Direction.Told, answered] at told
    obtain ⟨messages, _, entries⟩ := parse_entries parsed
    obtain ⟨message, from_⟩ := entries.read_of_mem held
    have other : entry.hasClientHello = false := by
      simpa using List.any_eq_false.mp told.symm entry held
    exact from_.server_of_not_client other

/-- A client's stream with a ServerHello after its ClientHello. -/
def mixedHellos : TcpStream :=
  streamOf { srcPort := 1 } true 1
    (encodeRecord (encodeMessage tlsHandshakeClientHello plainClientHello
      ++ encodeMessage tlsHandshakeServerHello plainServerHello.encode))

/-- A connection of two rows whose client's direction also carries a ServerHello. -/
theorem TlsHandshakeAssembler.report_roles_mixed
    : ∃ rows,
        report noCertificates {} [mixedHellos, anchoredAnswer 1 2] = .ok rows
        ∧ rows.length = 2
        ∧ ∃ directions origins,
            ReportsRoles noCertificates {} [mixedHellos, anchoredAnswer 1 2] rows directions
              origins := by
  have two : ((report noCertificates {} [mixedHellos, anchoredAnswer 1 2]).map
      List.length).toOption = some 2 := by
    decide +kernel
  cases reported : report noCertificates {} [mixedHellos, anchoredAnswer 1 2] with
  | error failure =>
    rw [reported] at two
    cases two
  | ok rows =>
    rw [reported] at two
    exact ⟨rows, rfl, Option.some.inj two, report_roles reported⟩

/-- The second row of such a stream claims a ClientHello, where its half was parsed from a
ServerHello.
-/
theorem TlsHandshakeAssembler.not_truthful_mixed
    : ((parse noCertificates {} mixedHellos).map fun direction =>
          direction.handshakes.map TlsHandshake.roles).toOption
        = some [(true, false), (false, true)]
      ∧ ((report noCertificates {} [mixedHellos]).map fun rows =>
          rows.map TlsHandshake.roles).toOption
        = some [(true, false), (true, false)] := by
  decide +kernel

end PacketQuapture.Tls
