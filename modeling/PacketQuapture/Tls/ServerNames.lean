import PacketQuapture.Tls.Fragmentation
import PacketQuapture.Tls.HelloForm
import PacketQuapture.Tls.PacketRecord
import PacketQuapture.Tls.Roles

/-! The two readers of a ClientHello agree on its server name: the one that reads a single payload
and the one that reads the reassembled stream.
-/

namespace PacketQuapture.Tls

open Library Reassembly

variable {Cert : Type} {x509 : X509Parser Cert}
variable {limits : TlsHandshakeLimits Cert}

/-! ### Hellos -/

/-- One extension is passed over or, if it is server_name, ends the walk of the payload's reader. -/
theorem clientHelloLoop_next {total fuel consumed : Nat} {extension : Extension} {rest : List UInt8}
    (fits : extension.body.length < 2 ^ 16)
    (inside : 4 + extension.body.length ≤ total - consumed)
    : clientHelloLoop total (fuel + 1) { rest := extension.encode ++ rest } consumed
      = if extension.type = tlsExtensionServerName then
          { whole := true, name := (parseTlsServerName { rest := extension.body }).name }
        else clientHelloLoop total fuel { rest } (consumed + 4 + extension.body.length) := by
  rw [clientHelloLoop, if_pos (by omega), Extension.encode, List.append_assoc, List.append_assoc,
    TlsReader.u16_bytes16]
  dsimp only
  rw [TlsReader.length_two fits]
  dsimp only
  rw [if_neg (not_or.mpr ⟨Bool.false_ne_true, by omega⟩), TlsReader.sub_append]
  dsimp only
  rw [UInt16.ofNat_toNat]

/-- The payload's reader takes the name in the first server_name of the extensions that the stream's
reader walks, and without one it walks the whole list too.
-/
theorem Walked.clientHelloLoop {total room allowed : Nat} {bytes : List UInt8}
    {extensions : List Extension} {excess : Bool}
    (walked : Walked room allowed bytes extensions excess) {fuel consumed : Nat}
    (room_eq : room = total - consumed) (enough : room < fuel)
    : (∀ body ∈ (nameBodies extensions).head?,
        clientHelloLoop total fuel { rest := bytes } consumed
          = { whole := true, name := (parseTlsServerName { rest := body }).name })
      ∧ (nameBodies extensions = [] → excess = false →
        clientHelloLoop total fuel { rest := bytes } consumed = { whole := true }) := by
  induction walked generalizing fuel consumed with
  | ended short =>
    obtain ⟨fuel, rfl⟩ := Nat.exists_eq_succ_of_ne_zero (Nat.ne_of_gt (Nat.zero_lt_of_lt enough))
    refine ⟨nofun, fun _ _ => ?_⟩
    rw [Tls.clientHelloLoop, if_neg (by omega)]
    simp
  | limited => exact ⟨nofun, nofun⟩
  | @next room allowed extension rest extensions excess fits inside later ih =>
    obtain ⟨fuel, rfl⟩ := Nat.exists_eq_succ_of_ne_zero (Nat.ne_of_gt (Nat.zero_lt_of_lt enough))
    rw [clientHelloLoop_next fits (by omega)]
    by_cases names : extension.type = tlsExtensionServerName
    · simp [nameBodies, names]
    · rw [if_neg names, show nameBodies (extension :: extensions) = nameBodies extensions by
        simp [nameBodies, names]]
      exact ih (by omega) (by omega)

/-- What the reader of a payload finds in a ClientHello that parsed. -/
structure NamesAlike (handshake : TlsHandshake Cert) (read : ClientHelloRead) : Prop where
  named : handshake.hasSni = true → read = { whole := true, name := some handshake.sni }
  unnamed : handshake.clientExtensions.overLimit = false →
    tlsExtensionServerName ∉ handshake.clientExtensions.values → read = { whole := true }

/-- The payload's reader on the block of extensions after a ClientHello's opening. -/
theorem HelloForm.Frames.parseClientHello {limit : Nat} {body : List UInt8} {form : HelloForm}
    (frames : form.Frames limit true body)
    : (∀ name ∈ (nameBodies form.extensions).head?, parseClientHello { rest := body }
        = { whole := true, name := (parseTlsServerName { rest := name }).name })
      ∧ (nameBodies form.extensions = [] → form.excess = false →
        parseClientHello { rest := body } = { whole := true }) := by
  obtain ⟨tail, rfl, block⟩ := frames.block
  have offers := frames.offers
  have side := frames.side
  cases offered : form.offers with
  | server suite compression => exact absurd side (by simp [offered, HelloOffers.isClient])
  | client suites compression =>
    rw [offered] at offers
    have random : (bytes16 form.version.toNat ++ form.random.1).length = 2 + 32 := by
      rw [List.length_append, form.random.2]
      rfl
    unfold Tls.parseClientHello
    rw [HelloForm.opening, offered, HelloOffers.encode, ← List.append_assoc, List.append_assoc,
      TlsReader.skip_append random]
    dsimp only
    rw [if_neg (by simp), List.append_assoc, TlsReader.skipVector_encodeVector frames.session]
    dsimp only
    rw [if_neg (by simp), List.append_assoc, TlsReader.skipVector_encodeVector offers.1]
    dsimp only
    rw [if_neg (by simp), TlsReader.skipVector_encodeVector offers.2]
    dsimp only
    rw [if_neg (by simp)]
    generalize form.extensions = extensions at block ⊢
    generalize form.excess = excess at block ⊢
    cases block with
    | absent => exact ⟨fun _ found => absurd found (Option.not_mem_none _), fun _ _ => rfl⟩
    | present fits walked =>
      rw [if_neg (by simp [TlsReader.remaining, bytes16]), TlsReader.length_two fits]
      dsimp only
      rw [if_neg Bool.false_ne_true]
      exact walked.clientHelloLoop (Nat.sub_zero _).symm (Nat.lt_succ_self _)

/-- A ClientHello that the stream's reader parses is read alike by the payload's reader. -/
theorem parseHello_names {body : List UInt8} {read : HelloRead Cert}
    (returned : parseHello limits true body (.fresh true) = .ok read) (parsed : read.parsed = true)
    : NamesAlike read.handshake (parseClientHello { rest := body }) := by
  obtain ⟨again, same, framed⟩ := parseHello_reports limits true body
  obtain rfl : again = read := Except.ok.inj (same.symm.trans returned)
  obtain ⟨form, frames, reports⟩ := framed parsed
  obtain ⟨first, none⟩ := frames.parseClientHello
  have name := reports.name rfl
  have types : again.handshake.clientExtensions = _ := reports.types
  refine ⟨fun named => ?_, fun within missing => ?_⟩
  · have held := congrArg (fun name => name.2.1) name
    have text := congrArg (fun name => name.2.2.1) name
    dsimp only [TlsHandshake.serverName] at held text
    rw [named] at held
    rw [text]
    generalize nameBodies form.extensions = bodies at first held ⊢
    match bodies with
    | [] => cases held
    | [body] =>
      rw [first body rfl]
      dsimp only [reportedName] at held ⊢
      split at held
      case isTrue framed =>
        obtain ⟨name, found⟩ := Option.isSome_iff_exists.mp held.symm
        rw [if_pos framed, found, Option.getD_some]
      case isFalse => cases held
    | _ :: _ :: _ => cases held
  · rw [types] at within missing
    by_cases excess : form.excess = true
    · rw [if_pos excess] at within
      cases within
    · rw [if_neg excess] at missing
      refine none ?_ (Bool.eq_false_of_not_eq_true excess)
      rw [nameBodies, List.map_eq_nil_iff, List.filter_eq_nil_iff]
      intro extension member names
      exact missing (of_decide_eq_true names ▸ List.mem_map_of_mem member)

/-! ### Payloads -/

/-- A handshake record whose body starts with a whole ClientHello message. -/
structure Asks (record : PlainRecord) (hello rest : List UInt8) : Prop where
  handshake : record.type = tlsRecordHandshake
  body : record.body = encodeMessage tlsHandshakeClientHello hello ++ rest

namespace Asks

variable {record : PlainRecord} {hello rest : List UInt8}

theorem fits (asks : Asks record hello rest) : hello.length < 2 ^ 24 := by
  have bound := record.fits
  rw [asks.body, List.length_append] at bound
  simp only [encodeMessage, bytes24, bytes16, List.cons_append, List.nil_append, List.length_cons,
    tlsMaxRecordLength] at bound
  omega

/-- The payload is read as a record whose ClientHello is walked. -/
theorem decode (asks : Asks record hello rest)
    : (decodeTlsRecord record.encode).clientHello = true
      ∧ (decodeTlsRecord record.encode).truncated = !(parseClientHello { rest := hello }).whole
      ∧ ((parseClientHello { rest := hello }).whole = true →
          (decodeTlsRecord record.encode).hasServerName
              = (parseClientHello { rest := hello }).name.isSome
            ∧ (decodeTlsRecord record.encode).serverName
              = (parseClientHello { rest := hello }).name.getD []) := by
  have valid := record.valid_encode []
  have length := record.recordLength_encode []
  rw [List.append_nil] at valid length
  have type : record.encode.getD 0 0 = tlsRecordHandshake := asks.handshake
  have body : (record.encode.drop tlsRecordHeaderLength).take record.body.length = record.body :=
    List.take_length
  have message : record.body = tlsHandshakeClientHello :: (bytes24 hello.length ++ (hello ++ rest)) := by
    rw [asks.body, encodeMessage]
    simp only [List.cons_append, List.append_assoc]
  unfold decodeTlsRecord
  rw [if_neg (by rw [record.length_encode]; omega), valid, type, length,
    if_neg (by simp [knownRecordType, tlsRecordHandshake, tlsRecordChangeCipherSpec,
      tlsRecordHeartbeat]), if_neg (by rw [record.length_encode]; omega)]
  dsimp only
  rw [if_neg (by simp), body, message, TlsReader.u8_cons]
  dsimp only
  rw [TlsReader.u24_bytes24 asks.fits]
  dsimp only
  rw [if_neg Bool.false_ne_true, if_neg (by simp), TlsReader.sub_append]
  dsimp only
  cases (parseClientHello { rest := hello }).whole with
  | true => exact ⟨rfl, rfl, fun _ => ⟨rfl, rfl⟩⟩
  | false => exact ⟨rfl, rfl, fun whole => absurd whole Bool.false_ne_true⟩

/-- The first message framed in the record's body, if any, is the ClientHello. -/
theorem leads (asks : Asks record hello rest) {message : Announced} {later : List Announced}
    (framed : framed limits record.body = message :: later)
    : message = { type := tlsHandshakeClientHello, length := hello.length, body := hello } := by
  have body : record.body = tlsHandshakeClientHello :: (bytes24 hello.length ++ (hello ++ rest)) := by
    rw [asks.body, encodeMessage]
    simp only [List.cons_append, List.append_assoc]
  have read : announced record.body
      = { type := tlsHandshakeClientHello, length := hello.length, body := hello } := by
    have dropped : (record.body.drop 4).take hello.length = hello := by
      rw [body]
      exact List.take_left
    have typed : ({ rest := record.body } : TlsReader).u8
        = (tlsHandshakeClientHello, { rest := bytes24 hello.length ++ (hello ++ rest) }) := by
      rw [body, TlsReader.u8_cons]
    rw [announced, typed]
    dsimp only
    rw [TlsReader.u24_bytes24 asks.fits, dropped]
  rw [Tls.framed] at framed
  split at framed
  case isTrue => cases framed
  case isFalse =>
    split at framed
    case isTrue => cases framed
    case isFalse => exact (List.cons.inj framed).1.symm.trans read

end Asks

/-- The first entry of a stream that is one such record was read from that ClientHello. -/
theorem Asks.first_entry {record : PlainRecord} {hello rest : List UInt8} {chunk : TcpStreamChunk}
    {stream : TcpStream} {direction : Direction Cert} {entry : TlsHandshake Cert}
    (asks : Asks record hello rest) (fragments : Fragments record.body [record] chunk stream)
    (parsed : parse x509 limits stream = .ok direction)
    (first : direction.handshakes[0]? = some entry)
    : ∃ read, Supplies limits true hello read entry := by
  rw [fragments.parse_eq] at parsed
  obtain ⟨⟨cut, read⟩, looped, same⟩ := bind_eq_ok.mp parsed
  cases same
  rw [(Direction.judged_entries ..).1] at first
  obtain ⟨more, hellos, entries⟩ := (messageLoop_advances looped).entries
    (show EntriesFrom limits [] (Direction.ofStream stream) from .nil)
  rw [List.nil_append, EntriesFrom] at entries
  dsimp only at first
  obtain ⟨others, listed⟩ : ∃ others, read.handshakes = entry :: others := by
    cases held : read.handshakes with
    | nil =>
      rw [held] at first
      cases first
    | cons head others =>
      rw [held] at first
      cases first
      exact ⟨others, rfl⟩
  rw [listed] at entries
  obtain ⟨message, messages, from_, _, rfl⟩ := List.forall₂_cons_right_iff.mp entries
  change _ <+: (framed limits record.body).filter _ at hellos
  cases framed : framed limits record.body with
  | nil =>
    rw [framed] at hellos
    cases List.prefix_nil.mp hellos
  | cons head later =>
    rw [framed, asks.leads framed, List.filter_cons, if_pos (by rfl)] at hellos
    obtain ⟨rfl, _⟩ := List.cons_prefix_cons.mp hellos
    exact from_.parsed

/-- The two readers agree on the server name of a ClientHello that lies in one record: a name the
stream's reader reports on its row is the payload's name; and a ClientHello that parses without a
server_name extension, within the limit on extensions, is read whole and without a name.
-/
theorem serverNames_agree {record : PlainRecord} {hello rest : List UInt8}
    {chunk : TcpStreamChunk} {stream : TcpStream} (asks : Asks record hello rest)
    (fragments : Fragments record.body [record] chunk stream)
    : (∀ rows, TlsHandshakeAssembler.report x509 limits [stream] = .ok rows →
        ∀ row ∈ rows, row.handshakeNumber = 1 → row.hasSni = true →
          (decodeTlsRecord record.encode).hasServerName = true
          ∧ (decodeTlsRecord record.encode).serverName = row.sni)
      ∧ ∀ read, parseHello limits true hello { hasClientHello := true } = .ok read →
          read.parsed = true → read.handshake.clientExtensions.overLimit = false →
          tlsExtensionServerName ∉ read.handshake.clientExtensions.values →
            (decodeTlsRecord record.encode).clientHello = true
            ∧ (decodeTlsRecord record.encode).hasServerName = false
            ∧ (decodeTlsRecord record.encode).truncated = false := by
  obtain ⟨client, truncated, name⟩ := asks.decode
  refine ⟨fun rows reported row member number named => ?_, fun read returned parsed within missing =>
    ?_⟩
  · obtain ⟨⟨shown, last⟩, returned, same⟩ := bind_eq_ok.mp reported
    obtain ⟨directions, _, traces, _⟩ := TlsHandshakeAssembler.run_traces returned
    rw [← Except.ok.inj same, traces.rows] at member
    obtain ⟨origin, _, rfl⟩ := List.mem_map.mp member
    have index : origin.index = 0 :=
      Nat.succ.inj ((congrArg Shown.number (origin.row_shown directions)).symm.trans number)
    have fields := congrArg ClientFields.hasSni (@Origin.row_clientFields _ directions origin)
    have texts := congrArg ClientFields.sni (@Origin.row_clientFields _ directions origin)
    -- a name comes from a client half, which is the only stream's first entry
    cases half : origin.clientHalf directions with
    | none =>
      rw [half] at fields
      exact absurd (named.symm.trans fields) (by simp)
    | some entry =>
      rw [half, Option.map_some, Option.getD_some] at fields texts
      rw [Origin.clientHalf, index, Merging.clientOf] at half
      cases at_ : origin.merging.client.bind fun position => directions[position]? with
      | none =>
        rw [at_] at half
        cases half
      | some direction =>
        rw [at_, Option.getD_some] at half
        obtain ⟨position, _, located⟩ := Option.bind_eq_some_iff.mp at_
        obtain ⟨again, place, parses⟩ := stream_of_parsed traces.parsed located
        obtain rfl : again = stream := by
          rw [List.getElem?_singleton] at place
          split at place
          · exact (Option.some.inj place).symm
          · cases place
        obtain ⟨read, supplies⟩ := asks.first_entry fragments parses half
        have hasSni := congrArg ClientFields.hasSni supplies.client
        have sni := congrArg ClientFields.sni supplies.client
        cases whole : read.parsed with
        | false =>
          rw [whole] at hasSni
          exact absurd ((named.symm.trans fields).trans hasSni)
            (by simp [TlsHandshake.invalidated, clearHello, TlsHandshake.clientFields])
        | true =>
          rw [whole, if_pos rfl] at hasSni sni
          have alike := (parseHello_names supplies.returned whole).named
            ((hasSni.symm.trans fields.symm).trans named)
          rw [alike] at name
          have found := name rfl
          refine ⟨found.1, found.2.trans ?_⟩
          exact (texts.trans sni).symm
  · have alike := (parseHello_names returned parsed).unnamed within missing
    rw [alike] at name truncated
    exact ⟨client, (name rfl).1, truncated⟩

/-- A ClientHello that names the host `a`, in a record. -/
def namingHello : List UInt8 :=
  plainClientHello
    ++ encodeBlock (some [{ type := tlsExtensionServerName
                            body := bytes16 4 ++ 0 :: bytes16 1 ++ [97] }])

def namingRecord : PlainRecord :=
  recordOf tlsRecordHandshake (encodeMessage tlsHandshakeClientHello namingHello)
    (by decide) (by decide) handshake_ne_changeCipherSpec

/-- A host that the stream's row names is the one the payload names, and a ClientHello that names
none is read whole.
-/
theorem serverNames_agree_naming
    : (∃ rows row,
        TlsHandshakeAssembler.report noCertificates {}
            [streamOf {} true 1 (encodeRecords [namingRecord])] = .ok rows
        ∧ row ∈ rows
        ∧ row.sni = [97]
        ∧ (decodeTlsRecord namingRecord.encode).serverName = row.sni)
      ∧ ∀ record, wholeRecords = [record] → (decodeTlsRecord record.encode).truncated = false := by
  refine ⟨?_, fun record whole => ?_⟩
  · obtain ⟨chunk, fragments⟩ := fragments_streamOf {} 1 ⟨_, [], rfl, rfl⟩
      (show handshakeBytes [namingRecord] = namingRecord.body by decide +kernel) (by decide +kernel)
    have shown : ((TlsHandshakeAssembler.report noCertificates {}
        [streamOf {} true 1 (encodeRecords [namingRecord])]).map fun rows =>
          rows.map fun row => (row.handshakeNumber, row.hasSni, row.sni)).toOption
          = some [(1, true, [97])] := by
      decide +kernel
    cases reported : TlsHandshakeAssembler.report noCertificates {}
        [streamOf {} true 1 (encodeRecords [namingRecord])] with
    | error failure =>
      rw [reported] at shown
      cases shown
    | ok rows =>
      rw [reported] at shown
      obtain ⟨row, others, rfl, fields, _⟩ := List.map_eq_cons_iff.mp (Option.some.inj shown)
      obtain ⟨number, named, text⟩ : row.handshakeNumber = 1 ∧ row.hasSni = true
          ∧ row.sni = [97] := by
        simpa using fields
      have asks : Asks namingRecord namingHello [] := ⟨rfl, (List.append_nil _).symm⟩
      exact ⟨_, row, rfl, List.mem_cons_self, text,
        ((serverNames_agree asks fragments).1 _ reported row List.mem_cons_self number named).2⟩
  · have asks : Asks record plainClientHello [] := by
      cases whole
      exact ⟨rfl, (List.append_nil _).symm⟩
    have bytes : handshakeBytes [record] = record.body := by
      rw [asks.body, ← whole]
      decide +kernel
    obtain ⟨chunk, fragments⟩ := fragments_streamOf {} 1 ⟨record, [], rfl, asks.handshake⟩ bytes
      (by rw [← whole]; decide +kernel)
    let limits : TlsHandshakeLimits Unit := {}
    have parsed : ((parseHello limits true plainClientHello { hasClientHello := true }).map
        fun read => (read.parsed, read.handshake.clientExtensions.overLimit,
          read.handshake.clientExtensions.values)).toOption = some (true, false, []) := by
      decide +kernel
    cases returned : parseHello limits true plainClientHello { hasClientHello := true } with
    | error failure =>
      rw [returned] at parsed
      cases parsed
    | ok read =>
      rw [returned] at parsed
      obtain ⟨whole, within, values⟩ : read.parsed = true
          ∧ read.handshake.clientExtensions.overLimit = false
          ∧ read.handshake.clientExtensions.values = [] := by
        simpa [Except.map, Except.toOption] using parsed
      have agree := @serverNames_agree _ noCertificates limits _ _ _ _ _ asks fragments
      exact (agree.2 read returned whole within (by simp [values])).2.2

end PacketQuapture.Tls
