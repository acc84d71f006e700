import PacketQuapture.Tls.Records

/-! The rows two directions of a connection, or one without its peer, are reported as. -/

namespace PacketQuapture.Tls

open Library Reassembly

variable {Cert : Type}

/-- Moves the client's hello fields onto the merged row, with the tunnel that carried its
direction.
-/
def mergeClient (client : Direction Cert) (fromClient handshake : TlsHandshake Cert)
    : TlsHandshake Cert :=
  { handshake with
    hasClientHello := true
    hasSni := fromClient.hasSni
    sni := fromClient.sni
    hasClientVersion := fromClient.hasClientVersion
    clientVersion := fromClient.clientVersion
    clientCipherSuites := fromClient.clientCipherSuites
    clientExtensions := fromClient.clientExtensions
    clientSupportedGroups := fromClient.clientSupportedGroups
    clientSignatureAlgorithms := fromClient.clientSignatureAlgorithms
    clientSupportedVersions := fromClient.clientSupportedVersions
    clientEcPointFormats := fromClient.clientEcPointFormats
    clientAlpn := fromClient.clientAlpn
    clientCertificates := fromClient.clientCertificates
    first := fromClient.first
    last := fromClient.last
    status := fromClient.status
    error := fromClient.error
    clientPrefixBytes := client.prefixBytes
    clientTunnel := client.tunnel
    tunnelDestination := client.tunnelDestination }

/-- Widens a row's packets to the server's, or takes the server's when there is no client. -/
def TlsHandshake.spanning (handshake : TlsHandshake Cert) (hasClient : Bool)
    (first last : PacketStamp)
    : TlsHandshake Cert :=
  if ¬ hasClient then { handshake with first, last } else handshake.extended last

/-- Gives a row a status, unless it has one. -/
def TlsHandshake.defaultStatus (handshake : TlsHandshake Cert) (status : TlsStatus)
    (error : String)
    : TlsHandshake Cert :=
  if handshake.status = .unset then { handshake with status, error } else handshake

/-- Moves the server's hello fields onto the merged row; its status applies only when the client's
hello left none.
-/
def mergeServer (server : Direction Cert) (fromServer : TlsHandshake Cert)
    (hasClient : Bool) (handshake : TlsHandshake Cert)
    : TlsHandshake Cert :=
  let merged :=
    { handshake with
      hasServerHello := true
      hasNegotiatedVersion := fromServer.hasNegotiatedVersion
      negotiatedVersion := fromServer.negotiatedVersion
      hasServerLegacyVersion := fromServer.hasServerLegacyVersion
      serverLegacyVersion := fromServer.serverLegacyVersion
      hasCipherSuite := fromServer.hasCipherSuite
      cipherSuite := fromServer.cipherSuite
      serverExtensions := fromServer.serverExtensions
      serverAlpn := fromServer.serverAlpn
      serverSupportedVersions := fromServer.serverSupportedVersions
      serverCertificates := fromServer.serverCertificates
      serverPrefixBytes := server.prefixBytes
      serverTunnel := server.tunnel }
  (merged.spanning hasClient fromServer.first fromServer.last).defaultStatus fromServer.status
    fromServer.error

/-- Whether one of the client's lists, or its server name, was malformed. -/
def clientListMalformed (handshake : TlsHandshake Cert) : Bool :=
  handshake.sniMalformed || handshake.clientCipherSuites.malformed
    || handshake.clientSupportedGroups.malformed || handshake.clientSignatureAlgorithms.malformed
    || handshake.clientSupportedVersions.malformed || handshake.clientEcPointFormats.malformed
    || handshake.clientAlpn.malformed

def serverListMalformed (handshake : TlsHandshake Cert) : Bool :=
  handshake.serverAlpn.malformed || handshake.serverSupportedVersions.malformed

/-- Both sides recognised, as different tunnels; a SOCKS4 reply is the same for 4a. -/
def tunnelsDiffer (said answered : Option Tunnel) : Bool :=
  said.isSome && answered.isSome && said ≠ answered
    && !(said = some .socks4a && answered = some .socks4)

/-- The warning codes of a merged row, in their fixed order, each with when it applies. -/
def warningChecks (client : Direction Cert) (server : Option (Direction Cert))
    (fromClient fromServer : Option (TlsHandshake Cert))
    (handshake : TlsHandshake Cert)
    : List (Bool × TlsWarning) :=
  [(fromClient.isNone, .clientHelloMissing),
    (fromServer.isNone, .serverHelloMissing),
    (fromClient.any fun hello => hello.status = .invalid, .clientHelloInvalid),
    (fromServer.any fun hello => hello.status = .invalid, .serverHelloInvalid),
    (fromClient.any clientListMalformed, .clientListMalformed),
    (fromServer.any serverListMalformed, .serverListMalformed),
    (fromServer.isSome && unparsed handshake.serverCertificates, .serverCertificateMalformed),
    (fromClient.isSome && unparsed handshake.clientCertificates, .clientCertificateMalformed),
    (0 < handshake.clientPrefixBytes && handshake.clientTunnel.isNone, .clientTunnelUnrecognized),
    (0 < handshake.serverPrefixBytes && handshake.serverTunnel.isNone, .serverTunnelUnrecognized),
    (fromClient.isSome && client.needsConfirmation, .clientPrefixUnanchored),
    (fromServer.isSome && server.any Direction.needsConfirmation, .serverPrefixUnanchored),
    (tunnelsDiffer handshake.clientTunnel handshake.serverTunnel, .tunnelMismatch)]

def mergeWarnings (client : Direction Cert) (server : Option (Direction Cert))
    (fromClient fromServer : Option (TlsHandshake Cert))
    (handshake : TlsHandshake Cert)
    : TlsHandshake Cert :=
  { handshake with
    warnings := handshake.warnings
      ++ ((warningChecks client server fromClient fromServer handshake).filter Prod.fst).map
          Prod.snd }

/-- The nth entry of a direction that may be missing. -/
def entryOf (direction : Option (Direction Cert)) (index : Nat)
    : Option (TlsHandshake Cert) :=
  direction.bind fun present => present.handshakes[index]?

/-- The row with both sides' hello fields moved onto it. -/
def mergeHellos (client : Direction Cert) (server : Option (Direction Cert))
    (index : Nat)
    : TlsHandshake Cert :=
  let fromClient := client.handshakes[index]?
  let key :=
    match server with
    | some server => if client.handshakes = [] then server.orientedKey else client.orientedKey
    | none => client.orientedKey
  let start : TlsHandshake Cert := { key, handshakeNumber := index + 1 }
  let offered := (fromClient.map fun hello => mergeClient client hello start).getD start
  match server, entryOf server index with
  | some server, some hello => mergeServer server hello fromClient.isSome offered
  | _, _ => offered

/-- Names the streams the row's sides came from. -/
def TlsHandshake.withStreams (handshake : TlsHandshake Cert)
    (client : Direction Cert) (server : Option (Direction Cert))
    : TlsHandshake Cert :=
  let named :=
    if client.handshakes ≠ [] then
      { handshake with hasClientStream := true, clientStreamId := client.streamId }
    else
      handshake
  match server with
  | some server =>
    if server.handshakes ≠ [] then
      { named with hasServerStream := true, serverStreamId := server.streamId }
    else
      named
  | none => named

/-- Decides resumption: a server echoing a non-empty session id resumed the session. TLS 1.3 echoes
the id whether or not it resumed, and without a known version the question cannot be asked.
-/
def TlsHandshake.withResumption (handshake : TlsHandshake Cert)
    (client : Direction Cert) (server : Option (Direction Cert)) (index : Nat)
    : TlsHandshake Cert :=
  match client.handshakes[index]?, entryOf server index, client.sessionIds[index]?,
    server.bind fun server => server.sessionIds[index]? with
  | some _, some _, some offered, some echoed =>
    if handshake.hasNegotiatedVersion ∧ handshake.negotiatedVersion ≠ tlsVersion13 then
      { handshake with
        hasResumed := true
        resumed := offered ≠ [] ∧ offered = echoed }
    else
      handshake
  | _, _, _, _ => handshake

/-- Judges a row by its directions, then by whether both sides were captured. -/
def TlsHandshake.withStatus (handshake : TlsHandshake Cert)
    (client : Direction Cert) (server : Option (Direction Cert)) (index : Nat)
    : TlsHandshake Cert :=
  let hasClient := client.handshakes[index]?.isSome
  let hasServer := (entryOf server index).isSome
  let byClient :=
    if hasClient ∧ client.status ≠ .unset then handshake.defaultStatus client.status client.error
    else handshake
  let byServer :=
    match server with
    | some server =>
      if hasServer ∧ server.status ≠ TlsStatus.unset then
        byClient.defaultStatus server.status server.error
      else
        byClient
    | none => byClient
  byServer.defaultStatus (if hasClient ∧ hasServer then .complete else .oneSided) byServer.error

/-- The nth row of a connection: its nth ClientHello joined with its nth ServerHello. -/
def mergeRow (client : Direction Cert) (server : Option (Direction Cert))
    (index : Nat)
    : TlsHandshake Cert :=
  mergeWarnings client server client.handshakes[index]? (entryOf server index)
    ((((mergeHellos client server index).withStreams client server).withResumption client server
      index).withStatus client server index)

/-- How many hellos a direction that may be missing holds. -/
def entryCount (direction : Option (Direction Cert)) : Nat :=
  (direction.map fun present => present.handshakes.length).getD 0

/-- Joins the two directions by position. -/
def merge (client : Direction Cert) (server : Option (Direction Cert))
    : List (TlsHandshake Cert) :=
  (List.range (max client.handshakes.length (entryCount server))).map (mergeRow client server)

/-- The rows of a direction without a peer. One that needs confirmation has none. -/
def reportAlone (direction : Direction Cert) : List (TlsHandshake Cert) :=
  if direction.needsConfirmation then []
  else if direction.client then merge direction none
  else merge {} (some direction)

/-! ### What is decided after the hellos are joined -/

/-- The row without its streams, its verdict on resumption, its status and its warnings. -/
def TlsHandshake.joined (handshake : TlsHandshake Cert) : TlsHandshake Cert :=
  { handshake with
    hasClientStream := false
    hasServerStream := false
    clientStreamId := 0
    serverStreamId := 0
    hasResumed := false
    resumed := false
    status := .unset
    error := ""
    warnings := [] }

section Joined

variable {handshake : TlsHandshake Cert} {client : Direction Cert}
variable {server : Option (Direction Cert)} {index : Nat}

theorem defaultStatus_joined (status : TlsStatus) (error : String)
    : (handshake.defaultStatus status error).joined = handshake.joined := by
  unfold TlsHandshake.defaultStatus
  split <;> rfl

theorem withStatus_joined
    : (handshake.withStatus client server index).joined = handshake.joined := by
  unfold TlsHandshake.withStatus
  dsimp only
  rw [defaultStatus_joined]
  split
  · split <;> split <;> simp only [defaultStatus_joined]
  · split <;> simp only [defaultStatus_joined]

theorem withResumption_joined
    : (handshake.withResumption client server index).joined = handshake.joined := by
  unfold TlsHandshake.withResumption
  split
  · split <;> rfl
  · rfl

theorem withStreams_joined
    : (handshake.withStreams client server).joined = handshake.joined := by
  unfold TlsHandshake.withStreams
  dsimp only
  split
  · split <;> split <;> rfl
  · split <;> rfl

theorem mergeRow_joined
    : (mergeRow client server index).joined = (mergeHellos client server index).joined := by
  have warned (row : TlsHandshake Cert)
      : (mergeWarnings client server client.handshakes[index]? (entryOf server index)
          row).joined = row.joined := rfl
  rw [mergeRow, warned, withStatus_joined, withResumption_joined, withStreams_joined]

end Joined

end PacketQuapture.Tls
