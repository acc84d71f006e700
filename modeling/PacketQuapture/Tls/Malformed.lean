import PacketQuapture.Tls.Halves
import PacketQuapture.Tls.HelloFields

/-! The rows of hellos that failed to parse.
Clearing such a hello misses the versions and the cipher suite, so a row takes nothing from it only
when it failed before its version was read.
-/

namespace PacketQuapture.Tls

open Library Reassembly

variable {Cert : Type} {x509 : X509Parser Cert}
variable {limits : TlsHandshakeLimits Cert}

/-! ### Entries and the hellos they were read from -/

/-- An entry with the columns that a hello message left: what its body was parsed to, cleared when
that failed.
-/
structure Supplies (limits : TlsHandshakeLimits Cert) (hello : Bool) (body : List UInt8)
    (read : HelloRead Cert) (entry : TlsHandshake Cert)
    : Prop where
  returned : parseHello limits hello body { hasClientHello := hello, hasServerHello := ¬ hello }
    = .ok read
  client : entry.clientFields
    = (if read.parsed then read.handshake else read.handshake.invalidated hello).clientFields
  server : entry.serverFields
    = (if read.parsed then read.handshake else read.handshake.invalidated hello).serverFields

theorem Supplies.of_shown {hello : Bool} {body : List UInt8} {read : HelloRead Cert}
    {entry other : TlsHandshake Cert} (supplies : Supplies limits hello body read entry)
    (same : other.shown = entry.shown)
    : Supplies limits hello body read other :=
  ⟨supplies.returned, (congrArg Shown.client same).trans supplies.client,
    (congrArg Shown.server same).trans supplies.server⟩

/-- A Certificate message leaves its hello alone, but for the status of a chain over the limits. -/
theorem parseCertificates_handshake {body : List UInt8} {held : Nat}
    {chain : TlsList (TlsCertificate Cert)} {handshake : TlsHandshake Cert}
    {read : CertificatesRead Cert}
    (returned : parseCertificates x509 limits body held chain handshake = .ok read)
    : read.handshake = handshake ∨ read.handshake = handshake.overCertificateLimit := by
  obtain ⟨_, _, returned⟩ := bind_eq_ok.mp returned
  obtain ⟨_, _, returned⟩ := bind_eq_ok.mp returned
  dsimp only at returned
  generalize (if chain.present = true then held - chainTextBytes chain else held) = others
    at returned
  split at returned
  case isTrue =>
    cases returned
    exact .inl rfl
  case isFalse =>
    split at returned
    case isTrue =>
      cases returned
      exact .inl rfl
    case isFalse =>
      obtain ⟨walk, _, returned⟩ := bind_eq_ok.mp returned
      cases walk with
      | broken =>
        cases returned
        exact .inl rfl
      | excessive =>
        cases returned
        exact .inr rfl
      | whole after certificates =>
        obtain ⟨_, _, returned⟩ := bind_eq_ok.mp returned
        obtain ⟨_, _, same⟩ := bind_eq_ok.mp returned
        cases same
        exact .inl rfl

theorem readCertificates_handshake {body : List UInt8} {held : Nat}
    {handshake : TlsHandshake Cert} {read : Nat × TlsHandshake Cert}
    (returned : readCertificates x509 limits body held handshake = .ok read)
    : ∃ chain, read.2 = handshake.setChain chain
        ∨ read.2 = handshake.overCertificateLimit.setChain chain := by
  obtain ⟨certificates, parsed, same⟩ := bind_eq_ok.mp returned
  cases same
  refine ⟨certificates.chain, ?_⟩
  rcases parseCertificates_handshake parsed with kept | limited
  · exact .inl (congrArg (TlsHandshake.setChain · certificates.chain) kept)
  · exact .inr (congrArg (TlsHandshake.setChain · certificates.chain) limited)

theorem readCertificates_shown {body : List UInt8} {held : Nat}
    {handshake : TlsHandshake Cert} {read : Nat × TlsHandshake Cert}
    (returned : readCertificates x509 limits body held handshake = .ok read) (last : PacketStamp)
    : (read.2.extended last).shown = handshake.shown := by
  rw [extended_shown]
  obtain ⟨chain, kept | limited⟩ := readCertificates_handshake returned
  · rw [kept, setChain_shown]
  · rw [limited, setChain_shown, overCertificateLimit_shown]

theorem entryInvariant_supplied
    : EntryInvariant x509 limits fun entry => ∃ hello body read,
        Supplies limits hello body read entry where
  hello := by
    intro client body result returned first last
    obtain ⟨read, parsed, same⟩ := bind_eq_ok.mp returned
    cases same
    exact ⟨client, body, read, parsed, rfl, rfl⟩
  certificates := by
    intro body held latest result supplied returned last
    obtain ⟨hello, message, read, supplies⟩ := supplied
    exact ⟨hello, message, read, supplies.of_shown (readCertificates_shown returned last)⟩

/-! ### What clearing a hello leaves -/

section Cleared

variable {hello : Bool} {body : List UInt8} {read : HelloRead Cert}

theorem invalidated_clientFields
    (returned : parseHello limits hello body { hasClientHello := hello, hasServerHello := ¬ hello }
      = .ok read)
    : (read.handshake.invalidated hello).clientFields = {} ↔ (hello = true → body.length < 2) := by
  have outline := parseHello_outline returned
  have cleared : (read.handshake.invalidated hello).clientFields
      = { hasClientVersion := (read.handshake.outline hello).hasClientVersion
          clientVersion := (read.handshake.outline hello).clientVersion } := by
    cases hello <;> rfl
  rw [cleared, outline]
  cases hello with
  | false => split <;> simp [TlsHandshake.outline, TlsHandshake.withVersion]
  | true =>
    split
    case isTrue short => simpa [TlsHandshake.outline, clearHello] using short
    case isFalse long =>
      simpa [TlsHandshake.outline, clearHello, TlsHandshake.withVersion] using long

/-- A failed hello leaves the server's columns blank unless it is a ServerHello whose version was
read.
-/
theorem invalidated_serverFields
    (returned : parseHello limits hello body { hasClientHello := hello, hasServerHello := ¬ hello }
      = .ok read)
    : (read.handshake.invalidated hello).serverFields = {}
      ↔ (hello = false → body.length < 2) := by
  have outline := parseHello_outline returned
  cases hello with
  | true =>
    have cleared : (read.handshake.invalidated true).serverFields
        = { (read.handshake.outline true).serverFields with
            serverExtensions := {}
            serverAlpn := {}
            serverSupportedVersions := {} } := rfl
    rw [cleared, outline]
    split <;>
      simp [TlsHandshake.outline, TlsHandshake.withVersion, TlsHandshake.serverFields, clearHello]
  | false =>
    refine ⟨fun blank _ => ?_, fun short => ?_⟩
    · by_contra long
      rw [if_neg long] at outline
      have legacy : (read.handshake.invalidated false).serverFields.hasServerLegacyVersion
          = (read.handshake.outline false).hasServerLegacyVersion := rfl
      rw [blank, outline] at legacy
      cases legacy
    · rw [parseHello_short (short rfl)] at returned
      cases returned
      rfl

end Cleared

/-! ### Rows with a malformed half -/

namespace Origin

variable {directions : List (Direction Cert)} {origin : Origin}
variable {hello : Bool} {body : List UInt8} {read : HelloRead Cert}
variable {entry : TlsHandshake Cert}

theorem row_clientFields
    : (origin.row directions).clientFields
      = ((origin.clientHalf directions).map TlsHandshake.clientFields).getD {} :=
  congrArg Shown.client (origin.row_shown directions)

theorem row_serverFields
    : (origin.row directions).serverFields
      = ((origin.serverHalf directions).map TlsHandshake.serverFields).getD {} :=
  congrArg Shown.server (origin.row_shown directions)

theorem row_hasResumed (aligned : ∀ direction ∈ directions, direction.Aligned)
    : (origin.row directions).hasResumed = true
      ↔ origin.clientHalf directions ≠ none
        ∧ ∃ answer, origin.serverHalf directions = some answer
          ∧ answer.hasNegotiatedVersion = true ∧ answer.negotiatedVersion ≠ tlsVersion13 := by
  have found {place : Option Nat} {direction : Direction Cert}
      (at_ : (place.bind fun position => directions[position]?) = some direction)
      : direction.Aligned := by
    obtain ⟨position, _, located⟩ := Option.bind_eq_some_iff.mp at_
    exact aligned direction (List.mem_of_getElem? located)
  refine mergeRow_hasResumed ?_ fun source same => found same
  unfold Merging.clientOf
  cases at_ : origin.merging.client.bind fun position => directions[position]? with
  | none => rfl
  | some direction => exact found at_

theorem clientHalf_cleared (aligned : ∀ direction ∈ directions, direction.Aligned)
    (half : origin.clientHalf directions = some entry)
    (supplies : Supplies limits hello body read entry) (failed : read.parsed = false)
    : (origin.row directions).clientFields = {} ∧ (origin.row directions).hasResumed = false
      ↔ (hello = true → body.length < 2)
        ∧ ∀ answer, origin.serverHalf directions = some answer →
            answer.hasNegotiatedVersion = true → answer.negotiatedVersion = tlsVersion13 := by
  refine and_congr ?_ ?_
  · rw [row_clientFields, half, Option.map_some, Option.getD_some, supplies.client, failed,
      if_neg Bool.false_ne_true]
    exact invalidated_clientFields supplies.returned
  · rw [← Bool.not_eq_true, row_hasResumed aligned, half]
    simp

theorem serverHalf_cleared (aligned : ∀ direction ∈ directions, direction.Aligned)
    (half : origin.serverHalf directions = some entry)
    (supplies : Supplies limits hello body read entry) (failed : read.parsed = false)
    : (origin.row directions).serverFields = {} ∧ (origin.row directions).hasResumed = false
      ↔ (hello = false → body.length < 2) := by
  have cleared := invalidated_serverFields supplies.returned
  have blank := supplies.server
  rw [failed, if_neg Bool.false_ne_true] at blank
  rw [row_serverFields, half, Option.map_some, Option.getD_some, blank, cleared]
  refine and_iff_left_of_imp fun unread => ?_
  -- without a version there is no verdict
  rw [← Bool.not_eq_true, row_hasResumed aligned, half]
  have unknown : entry.hasNegotiatedVersion = false :=
    congrArg ServerFields.hasNegotiatedVersion (blank.trans (cleared.mpr unread))
  simp [unknown]

end Origin

/-- Where the rows come from, with what a malformed half leaves on its row: each half was read from
a hello, and one that failed to parse leaves nothing, and no verdict on resumption, exactly when it
failed before its version was read and, for a client half, the server's version is unknown or TLS
1.3. A row without a half has none of its columns.
-/
structure ReportsCleared (x509 : X509Parser Cert) (limits : TlsHandshakeLimits Cert)
    (streams : List TcpStream) (rows : List (TlsHandshake Cert))
    (directions : List (Direction Cert)) (origins : List Origin)
    : Prop
    extends Traces x509 limits streams rows directions origins where
  supplied : ∀ origin ∈ origins, ∀ entry, origin.clientHalf directions = some entry
    ∨ origin.serverHalf directions = some entry →
      ∃ hello body read, Supplies limits hello body read entry
  client : ∀ origin ∈ origins, ∀ entry hello body read,
    origin.clientHalf directions = some entry → Supplies limits hello body read entry →
      read.parsed = false →
        ((origin.row directions).clientFields = {} ∧ (origin.row directions).hasResumed = false
          ↔ (hello = true → body.length < 2)
            ∧ ∀ answer, origin.serverHalf directions = some answer →
                answer.hasNegotiatedVersion = true → answer.negotiatedVersion = tlsVersion13)
  server : ∀ origin ∈ origins, ∀ entry hello body read,
    origin.serverHalf directions = some entry → Supplies limits hello body read entry →
      read.parsed = false →
        ((origin.row directions).serverFields = {} ∧ (origin.row directions).hasResumed = false
          ↔ (hello = false → body.length < 2))
  absent : ∀ origin ∈ origins,
    (origin.clientHalf directions = none → (origin.row directions).clientFields = {})
    ∧ (origin.serverHalf directions = none → (origin.row directions).serverFields = {})

/-- In every run, the rows take nothing from a malformed hello exactly when it failed before its
version was read, and give a verdict on resumption only to a known version below TLS 1.3.
-/
theorem TlsHandshakeAssembler.report_malformed {streams : List TcpStream}
    {rows : List (TlsHandshake Cert)} (reported : report x509 limits streams = .ok rows)
    : ∃ directions origins, ReportsCleared x509 limits streams rows directions origins := by
  obtain ⟨⟨shown, last⟩, returned, same⟩ := bind_eq_ok.mp reported
  obtain ⟨directions, merges, traces, _, _⟩ := run_traces returned
  rw [← Except.ok.inj same]
  have stream_of {direction : Direction Cert} (member : direction ∈ directions)
      : ∃ stream, parse x509 limits stream = .ok direction := by
    obtain ⟨position, located⟩ := List.getElem?_of_mem member
    obtain ⟨stream, _, parsed⟩ := stream_of_parsed traces.parsed located
    exact ⟨stream, parsed⟩
  have aligned : ∀ direction ∈ directions, direction.Aligned := by
    intro direction member
    obtain ⟨stream, parsed⟩ := stream_of member
    exact (parse_from parsed).aligned
  have supplied {place : Option Nat} {direction : Direction Cert} {index : Nat}
      {entry : TlsHandshake Cert}
      (at_ : (place.bind fun position => directions[position]?) = some direction)
      (found : direction.handshakes[index]? = some entry)
      : ∃ hello body read, Supplies limits hello body read entry := by
    obtain ⟨position, _, located⟩ := Option.bind_eq_some_iff.mp at_
    obtain ⟨stream, parsed⟩ := stream_of (List.mem_of_getElem? located)
    exact entryInvariant_supplied.parse parsed entry (List.mem_of_getElem? found)
  refine ⟨directions, merges.flatMap (Merging.origins directions),
    { traces with
      supplied := ?_
      client := fun origin _ entry hello body read half supplies failed =>
        Origin.clientHalf_cleared aligned half supplies failed
      server := fun origin _ entry hello body read half supplies failed =>
        Origin.serverHalf_cleared aligned half supplies failed
      absent := ?_ }⟩
  · intro origin _ entry half
    rcases half with asked | answered
    · unfold Origin.clientHalf Merging.clientOf at asked
      cases at_ : origin.merging.client.bind fun position => directions[position]? with
      | none =>
        rw [at_] at asked
        cases asked
      | some direction =>
        rw [at_] at asked
        exact supplied at_ asked
    · obtain ⟨source, at_, found⟩ := entryOf_eq_some answered
      exact supplied at_ found
  · intro origin _
    refine ⟨fun missing => ?_, fun missing => ?_⟩
    · rw [Origin.row_clientFields, missing]
      rfl
    · rw [Origin.row_serverFields, missing]
      rfl

/-- A ClientHello cut off after its version. -/
def cutHello : TcpStream :=
  streamOf { srcPort := 1 } true 1
    (encodeRecord (encodeMessage tlsHandshakeClientHello (bytes16 0x0303)))

/-- The rows of a cut ClientHello and its answer come from the two directions. -/
theorem TlsHandshakeAssembler.report_malformed_cut
    : ∃ rows,
        report noCertificates {} [cutHello, anchoredAnswer 1 2] = .ok rows
        ∧ rows.length = 1
        ∧ ∃ directions origins,
            ReportsCleared noCertificates {} [cutHello, anchoredAnswer 1 2] rows directions
              origins := by
  have one : ((report noCertificates {} [cutHello, anchoredAnswer 1 2]).map List.length).toOption
      = some 1 := by
    decide +kernel
  cases reported : report noCertificates {} [cutHello, anchoredAnswer 1 2] with
  | error failure =>
    rw [reported] at one
    cases one
  | ok rows =>
    rw [reported] at one
    exact ⟨rows, rfl, Option.some.inj one, report_malformed reported⟩

/-- A ClientHello that fails to parse right after its version leaves that version on the row, and
its empty session id is compared with the server's.
-/
theorem TlsHandshakeAssembler.not_cleared_cut
    : ((parseHello {} true (bytes16 0x0303) { hasClientHello := true }).map
          fun read : HelloRead Unit => read.parsed).toOption = some false
      ∧ ((report noCertificates {} [cutHello, anchoredAnswer 1 2]).map fun rows =>
          rows.map fun row =>
            ((row.status, row.hasClientVersion), (row.clientVersion, row.hasResumed))).toOption
        = some [((TlsStatus.invalid, true), (0x0303, true))] := by
  decide +kernel

end PacketQuapture.Tls
