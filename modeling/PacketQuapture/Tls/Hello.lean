import PacketQuapture.Reassembly.Stream
import PacketQuapture.Tls.Reader

/-! The hello parser: one ClientHello or ServerHello body into the fields of a handshake row.
What a hello fills in before it fails is modelled as well, since the caller keeps the row.
-/

namespace PacketQuapture.Tls

open Library Reassembly

/-! ### Certificates -/

inductive X509Result where
  | ok
  | malformed
  | overLimit
deriving DecidableEq, Repr

/-- What the handshake layer asks of the certificate parser: it parses a DER encoding under a limit
on list entries, and knows how much text a certificate holds.
-/
structure X509Parser (Cert : Type) where
  blank : Cert
  parseX509Certificate : List UInt8 → Nat → X509Result × Cert
  textBytes : Cert → Nat

/-- One certificate of a chain; one that did not parse keeps its place. -/
structure TlsCertificate (Cert : Type) where
  parsed : Bool := false
  fields : Cert
  budgetBytes : Nat := 0
deriving DecidableEq, Repr

/-! ### Rows -/

structure TlsHandshakeLimits (Cert : Type) where
  maxHandshakes : Nat := 16
  maxMessageBytes : Nat := 64 * 1024
  maxExtensions : Nat := 256
  maxListEntries : Nat := 1024
  maxCertificates : Nat := 16
  maxCertificateBytes : Nat := 32 * 1024
  maxDirectionCertificateBytes : Nat := 256 * 1024
  maxPending : Nat := 512
  maxTunnelPrefixBytes : Nat := 8 * 1024
  /-- Fills in a parsed certificate's hashes. -/
  certificateDigest : Option (List UInt8 → Cert → Cert) := none

structure TlsList (α : Type) where
  present : Bool := false
  malformed : Bool := false
  overLimit : Bool := false
  values : List α := []
deriving DecidableEq, Repr

/-- A list that was there but broken. -/
def TlsList.broken {α : Type} : TlsList α := { malformed := true }

/-- A list that was there but longer than its limit. -/
def TlsList.excessive {α : Type} : TlsList α := { overLimit := true }

inductive TlsStatus where
  | unset
  | complete
  | oneSided
  | incomplete
  | unanchored
  | invalid
  | conflict
  | limit
deriving DecidableEq, Repr

/-- What a recognised prefix parsed as. -/
inductive Tunnel where
  | socks4
  | socks4a
  | socks5
  | httpConnect
  | smtp
  | imap
  | pop3
  | ftp
deriving DecidableEq, Repr

inductive TlsWarning where
  | clientHelloMissing
  | serverHelloMissing
  | clientHelloInvalid
  | serverHelloInvalid
  | clientListMalformed
  | serverListMalformed
  | serverCertificateMalformed
  | clientCertificateMalformed
  | clientTunnelUnrecognized
  | serverTunnelUnrecognized
  | clientPrefixUnanchored
  | serverPrefixUnanchored
  | tunnelMismatch
deriving DecidableEq, Repr

structure TlsHandshake (Cert : Type) where
  key : TcpFlowKey := {}
  hasClientStream : Bool := false
  hasServerStream : Bool := false
  clientStreamId : Nat := 0
  serverStreamId : Nat := 0
  handshakeNumber : Nat := 0
  first : PacketStamp := {}
  last : PacketStamp := {}
  hasClientHello : Bool := false
  hasSni : Bool := false
  sni : List UInt8 := []
  sniSeen : Bool := false
  sniMalformed : Bool := false
  hasClientVersion : Bool := false
  clientVersion : UInt16 := 0
  clientCipherSuites : TlsList UInt16 := {}
  clientExtensions : TlsList UInt16 := {}
  clientSupportedGroups : TlsList UInt16 := {}
  clientSignatureAlgorithms : TlsList UInt16 := {}
  clientSupportedVersions : TlsList UInt16 := {}
  clientEcPointFormats : TlsList UInt8 := {}
  clientAlpn : TlsList (List UInt8) := {}
  hasServerHello : Bool := false
  hasNegotiatedVersion : Bool := false
  negotiatedVersion : UInt16 := 0
  hasServerLegacyVersion : Bool := false
  serverLegacyVersion : UInt16 := 0
  hasCipherSuite : Bool := false
  cipherSuite : UInt16 := 0
  serverExtensions : TlsList UInt16 := {}
  serverAlpn : TlsList (List UInt8) := {}
  serverSupportedVersions : TlsList UInt16 := {}
  serverCertificates : TlsList (TlsCertificate Cert) := {}
  clientCertificates : TlsList (TlsCertificate Cert) := {}
  hasResumed : Bool := false
  resumed : Bool := false
  clientPrefixBytes : Nat := 0
  serverPrefixBytes : Nat := 0
  clientTunnel : Option Tunnel := none
  serverTunnel : Option Tunnel := none
  tunnelDestination : List UInt8 := []
  status : TlsStatus := .unset
  error : String := ""
  warnings : List TlsWarning := []

/-! ### Failures -/

/-- The functions whose assertions can fail. -/
inductive AssertSite where
  | failedStreamStatus
  | parse
  | readCodes
  | readPointFormats
  | readAlpn
  | parseExtensions
  | parseCertificates
  | locate
  | collectHandshakeBytes
  | parseMessages
  | release
  | hold
deriving DecidableEq, Repr

/-- How reading text can go wrong. -/
inductive TextFailure where
  /-- A position past the end of a string or of a list of lines. -/
  | outOfRange
  /-- A number the library does not convert. -/
  | invalidArgument
  | outOfFuel
deriving DecidableEq, Repr

inductive TlsFailure where
  | assertion (site : AssertSite)
  /-- The lookup of a packet range failed an assertion. -/
  | provenance (failure : Failure)
  | text (failure : TextFailure)
  /-- A loop outran the passes its input allows. -/
  | outOfFuel
deriving DecidableEq, Repr

/-! ### Lists -/

structure ListBudget where
  capEntries : Nat
  exceeded : Bool := false
deriving DecidableEq, Repr

def ListBudget.exceed (budget : ListBudget) : ListBudget :=
  { budget with exceeded := true }

/-- What reading one list leaves: whether the reader itself held out, where it stands, the budget
and the list.
-/
structure ListRead (α : Type) where
  sound : Bool := true
  reader : TlsReader
  budget : ListBudget
  list : TlsList α

/-- Reads code points to the end; a pass takes two bytes or overruns. -/
def codesLoop : Nat → TlsReader → List UInt16 → Except TlsFailure (TlsReader × List UInt16)
  | 0, _, _ => .error .outOfFuel
  | fuel + 1, reader, values =>
    if 0 < reader.remaining then codesLoop fuel reader.u16.2 (values ++ [reader.u16.1])
    else .ok (reader, values)

/-- A length-prefixed vector of 16-bit code points; with `exactly`, it must fill the reader. -/
def readCodes (reader : TlsReader) (lengthBytes : Nat) (exactly : Bool) (budget : ListBudget)
    : Except TlsFailure (ListRead UInt16) :=
  let length := reader.length lengthBytes
  if length.2.overrun then
    .ok { sound := false, reader := length.2, budget, list := .broken }
  else
    let codes := length.2.sub length.1
    match codes.1 with
    | none => .ok { sound := false, reader := codes.2, budget, list := .broken }
    | some inner =>
      if length.1 % 2 ≠ 0 ∨ (exactly ∧ codes.2.remaining ≠ 0) then
        .ok { reader := codes.2, budget, list := .broken }
      else if budget.capEntries < length.1 / 2 then
        .ok { reader := codes.2, budget := budget.exceed, list := .excessive }
      else do
        let read ← codesLoop (inner.remaining + 1) inner []
        require (¬ read.1.overrun) (.assertion .readCodes)
        require (read.2.length ≤ budget.capEntries) (.assertion .readCodes)
        return { reader := codes.2, budget, list := { present := true, values := read.2 } }

def readPointFormats (reader : TlsReader) (budget : ListBudget)
    : Except TlsFailure (ListRead UInt8) :=
  let length := reader.length 1
  if length.2.overrun ∨ length.2.remaining ≠ length.1 then
    .ok { reader := length.2, budget, list := .broken }
  else if budget.capEntries < length.1 then
    .ok { reader := length.2, budget := budget.exceed, list := .excessive }
  else
    let taken := length.2.take length.1
    match taken.1 with
    | none => .error (.assertion .readPointFormats)
    | some values => do
      require (values.length ≤ budget.capEntries) (.assertion .readPointFormats)
      return { reader := taken.2, budget, list := { present := true, values } }

/-- Reads protocol names to the end: the reader, how many there were and those within the cap;
`none` when the framing is broken.
-/
def alpnLoop (cap : Nat)
    : Nat → TlsReader → Nat → List (List UInt8)
      → Except TlsFailure (TlsReader × Option (Nat × List (List UInt8)))
  | 0, _, _, _ => .error .outOfFuel
  | fuel + 1, reader, count, protocols =>
    if 0 < reader.remaining then
      let length := reader.length 1
      if length.2.overrun ∨ length.1 = 0 ∨ length.2.remaining < length.1 then
        .ok (length.2, none)
      else
        let taken := length.2.take length.1
        match taken.1 with
        | none => .error (.assertion .readAlpn)
        | some protocol =>
          -- past the cap a name is skipped, not kept
          if cap < count + 1 then alpnLoop cap fuel taken.2 (count + 1) protocols
          else alpnLoop cap fuel taken.2 (count + 1) (protocols ++ [protocol])
    else
      .ok (reader, some (count, protocols))

/-- A vector of non-empty protocol names; a server selects exactly one. -/
def readAlpn (reader : TlsReader) (client : Bool) (budget : ListBudget)
    : Except TlsFailure (ListRead (List UInt8)) :=
  let length := reader.length 2
  if length.2.overrun ∨ length.2.remaining ≠ length.1 then
    .ok { reader := length.2, budget, list := .broken }
  else do
    let read ← alpnLoop budget.capEntries (length.2.remaining + 1) length.2 0 []
    match read.2 with
    | none => return { reader := read.1, budget, list := .broken }
    | some (count, protocols) =>
      require (¬ read.1.overrun) (.assertion .readAlpn)
      if count = 0 ∨ (¬ client ∧ count ≠ 1) then
        return { reader := read.1, budget, list := .broken }
      else if budget.capEntries < count then
        return { reader := read.1, budget := budget.exceed, list := .excessive }
      else do
        require (protocols.length = count) (.assertion .readAlpn)
        return { reader := read.1, budget, list := { present := true, values := protocols } }

/-- Whether a list was read before; a second copy is forbidden. -/
def TlsList.seen {α : Type} (list : TlsList α) : Bool :=
  list.present || list.malformed || list.overLimit

/-- Reads an extension's list unless it was read before; a second copy breaks it. -/
def unlessDuplicate {α : Type} (budget : ListBudget) (list : TlsList α)
    (read : Except TlsFailure (ListRead α))
    : Except TlsFailure (ListBudget × TlsList α) :=
  if list.seen then .ok (budget, .broken)
  else do
    let result ← read
    return (result.budget, result.list)

/-! ### Extensions -/

section

variable {Cert : Type}

/-- Leaves the server name unset and marks it malformed. -/
def TlsHandshake.withoutServerName (handshake : TlsHandshake Cert)
    : TlsHandshake Cert :=
  { handshake with
    sniSeen := true
    hasSni := false
    sni := []
    sniMalformed := true }

def readServerName (reader : TlsReader) (handshake : TlsHandshake Cert)
    : TlsHandshake Cert :=
  if handshake.sniSeen then handshake.withoutServerName
  else
    let read := parseTlsServerName reader
    if read.framed then
      { handshake with
        sniSeen := true
        hasSni := read.name.isSome
        sni := read.name.getD [] }
    else
      handshake.withoutServerName

/-- The ServerHello's part of `parseSupportedVersions`: exactly one version in exactly two bytes,
and only once; otherwise the version is unknown.
-/
def selectVersion (reader : TlsReader) (handshake : TlsHandshake Cert)
    : TlsHandshake Cert :=
  let version := reader.u16
  if handshake.serverSupportedVersions.seen ∨ version.2.overrun ∨ version.2.remaining ≠ 0 then
    { handshake with
      serverSupportedVersions := .broken
      hasNegotiatedVersion := false
      negotiatedVersion := 0 }
  else
    { handshake with
      serverSupportedVersions :=
        { handshake.serverSupportedVersions with
          present := true
          values := handshake.serverSupportedVersions.values ++ [version.1] }
      hasNegotiatedVersion := true
      negotiatedVersion := version.1 }

def parseSupportedVersions (reader : TlsReader) (client : Bool) (budget : ListBudget)
    (handshake : TlsHandshake Cert)
    : Except TlsFailure (ListBudget × TlsHandshake Cert) :=
  if client then do
    let read ← unlessDuplicate budget handshake.clientSupportedVersions
      (readCodes reader 1 true budget)
    return (read.1, { handshake with clientSupportedVersions := read.2 })
  else
    .ok (budget, selectVersion reader handshake)

def extensionSupportedGroups : UInt16 := 10

def extensionEcPointFormats : UInt16 := 11

def extensionSignatureAlgorithms : UInt16 := 13

def extensionAlpn : UInt16 := 16

/-- Reads one extension body, if this layer reports its type. -/
def readExtension (type : UInt16) (inner : TlsReader) (client : Bool) (budget : ListBudget)
    (handshake : TlsHandshake Cert)
    : Except TlsFailure (ListBudget × TlsHandshake Cert) :=
  if type = tlsExtensionServerName ∧ client then
    .ok (budget, readServerName inner handshake)
  else if type = tlsExtensionSupportedVersions then
    parseSupportedVersions inner client budget handshake
  else if client ∧ type = extensionSupportedGroups then do
    let read ← unlessDuplicate budget handshake.clientSupportedGroups
      (readCodes inner 2 true budget)
    return (read.1, { handshake with clientSupportedGroups := read.2 })
  else if client ∧ type = extensionSignatureAlgorithms then do
    let read ← unlessDuplicate budget handshake.clientSignatureAlgorithms
      (readCodes inner 2 true budget)
    return (read.1, { handshake with clientSignatureAlgorithms := read.2 })
  else if client ∧ type = extensionEcPointFormats then do
    let read ← unlessDuplicate budget handshake.clientEcPointFormats
      (readPointFormats inner budget)
    return (read.1, { handshake with clientEcPointFormats := read.2 })
  else if type = extensionAlpn then
    if client then do
      let read ← unlessDuplicate budget handshake.clientAlpn (readAlpn inner client budget)
      return (read.1, { handshake with clientAlpn := read.2 })
    else do
      let read ← unlessDuplicate budget handshake.serverAlpn (readAlpn inner client budget)
      return (read.1, { handshake with serverAlpn := read.2 })
  else
    .ok (budget, handshake)

/-- The extension types of the hello's own side. -/
def TlsHandshake.extensionTypes (handshake : TlsHandshake Cert) (client : Bool)
    : TlsList UInt16 :=
  if client then handshake.clientExtensions else handshake.serverExtensions

def TlsHandshake.setExtensionTypes (handshake : TlsHandshake Cert) (client : Bool)
    (types : TlsList UInt16)
    : TlsHandshake Cert :=
  if client then { handshake with clientExtensions := types }
  else { handshake with serverExtensions := types }

/-- Records one more extension type, in wire order. -/
def TlsHandshake.pushExtensionType (handshake : TlsHandshake Cert) (client : Bool)
    (type : UInt16)
    : TlsHandshake Cert :=
  let types := handshake.extensionTypes client
  handshake.setExtensionTypes client { types with values := types.values ++ [type] }

/-- What walking the extension list leaves: whether it was sound, the budget and the row. -/
structure ExtensionWalk (Cert : Type) where
  sound : Bool
  budget : ListBudget
  handshake : TlsHandshake Cert

/-- The loop of `parseExtensions`: a pass consumes a whole extension or stops. -/
def extensionLoop (limits : TlsHandshakeLimits Cert) (client : Bool) (total : Nat)
    : Nat → TlsReader → Nat → Nat → ListBudget → TlsHandshake Cert
      → Except TlsFailure (ExtensionWalk Cert)
  | 0, _, _, _, _, _ => .error .outOfFuel
  | fuel + 1, reader, consumed, count, budget, handshake =>
    if consumed + 4 ≤ total then
      let type := reader.u16
      let length := type.2.length 2
      if length.2.overrun ∨ total - (consumed + 4) < length.1 then
        .ok { sound := false, budget, handshake }
      else if limits.maxExtensions < count + 1 then
        -- a limit, not a malformed hello: the list is withheld and the walk stops
        .ok
          { sound := true
            budget := budget.exceed
            handshake := handshake.setExtensionTypes client .excessive }
      else
        let inner := length.2.sub length.1
        match inner.1 with
        | none => .ok { sound := false, budget, handshake }
        | some body => do
          let read ← readExtension type.1 body client budget
            (handshake.pushExtensionType client type.1)
          extensionLoop limits client total fuel inner.2 (consumed + 4 + length.1) (count + 1)
            read.1 read.2
    else do
      require ((handshake.extensionTypes client).values.length ≤ limits.maxExtensions)
        (.assertion .parseExtensions)
      return { sound := ¬ reader.overrun, budget, handshake }

def parseExtensions (limits : TlsHandshakeLimits Cert) (client : Bool) (reader : TlsReader)
    (budget : ListBudget) (handshake : TlsHandshake Cert)
    : Except TlsFailure (ExtensionWalk Cert) :=
  let length := reader.length 2
  if length.2.overrun then .ok { sound := false, budget, handshake }
  else extensionLoop limits client length.1 (length.1 + 1) length.2 0 0 budget handshake

/-! ### Hellos -/

/-- Records the legacy_version; a ServerHello's stands for the negotiated one until
supported_versions says otherwise.
-/
def TlsHandshake.withVersion (handshake : TlsHandshake Cert) (client : Bool)
    (version : UInt16)
    : TlsHandshake Cert :=
  if client then
    { handshake with
      hasClientVersion := true
      clientVersion := version }
  else
    { handshake with
      hasNegotiatedVersion := true
      negotiatedVersion := version
      hasServerLegacyVersion := true
      serverLegacyVersion := version }

/-- What reading the suites and the compression methods leaves. -/
structure SuitesRead (Cert : Type) where
  sound : Bool
  reader : TlsReader
  budget : ListBudget
  handshake : TlsHandshake Cert

/-- The cipher suites and compression methods: lists in a ClientHello, one of each in a
ServerHello.
-/
def readSuites (client : Bool) (reader : TlsReader) (budget : ListBudget)
    (handshake : TlsHandshake Cert)
    : Except TlsFailure (SuitesRead Cert) :=
  if client then do
    let suites ← readCodes reader 2 false budget
    let handshake := { handshake with clientCipherSuites := suites.list }
    if suites.sound then
      let skipped := suites.reader.skipVector 1
      return { sound := skipped.1, reader := skipped.2, budget := suites.budget, handshake }
    else
      return { sound := false, reader := suites.reader, budget := suites.budget, handshake }
  else
    let suite := reader.u16
    if suite.2.overrun then
      .ok { sound := false, reader := suite.2, budget, handshake }
    else
      let skipped := suite.2.skip 1
      .ok
        { sound := skipped.1
          reader := skipped.2
          budget
          handshake := { handshake with hasCipherSuite := true, cipherSuite := suite.1 } }

/-- What parsing a hello leaves: whether it parsed, the row and the session id. -/
structure HelloRead (Cert : Type) where
  parsed : Bool
  handshake : TlsHandshake Cert
  sessionId : List UInt8 := []

/-- The row of a hello whose lists went over their limits. -/
def TlsHandshake.judged (handshake : TlsHandshake Cert) (budget : ListBudget)
    : TlsHandshake Cert :=
  if budget.exceeded then
    { handshake with
      status := .limit
      error := "TLS hello list exceeds the per-list limit" }
  else
    handshake

/-- The hello from its cipher suites on. -/
def parseOffers (limits : TlsHandshakeLimits Cert) (client : Bool) (reader : TlsReader)
    (sessionId : List UInt8) (handshake : TlsHandshake Cert)
    : Except TlsFailure (HelloRead Cert) := do
  let suites ← readSuites client reader { capEntries := limits.maxListEntries } handshake
  if suites.sound then
    let handshake := suites.handshake.setExtensionTypes client
      { suites.handshake.extensionTypes client with present := true }
    if suites.reader.remaining = 0 then
      return { parsed := true, handshake := handshake.judged suites.budget, sessionId }
    else
      let walk ← parseExtensions limits client suites.reader suites.budget handshake
      if walk.sound then
        return { parsed := true, handshake := walk.handshake.judged walk.budget, sessionId }
      else
        return { parsed := false, handshake := walk.handshake, sessionId }
  else
    return { parsed := false, handshake := suites.handshake, sessionId }

def parseHello (limits : TlsHandshakeLimits Cert) (client : Bool) (body : List UInt8)
    (handshake : TlsHandshake Cert)
    : Except TlsFailure (HelloRead Cert) :=
  let version := ({ rest := body } : TlsReader).u16
  if version.2.overrun then .ok { parsed := false, handshake }
  else
    let handshake := handshake.withVersion client version.1
    let random := version.2.skip 32
    if random.1 then
      let sessionLength := random.2.length 1
      if sessionLength.2.overrun then .ok { parsed := false, handshake }
      else
        let session := sessionLength.2.take sessionLength.1
        match session.1 with
        | none => .ok { parsed := false, handshake }
        | some sessionId => parseOffers limits client session.2 sessionId handshake
    else
      .ok { parsed := false, handshake }

/-- Clears the server name and the lists of a hello that failed to parse. -/
def clearHello (handshake : TlsHandshake Cert) : TlsHandshake Cert :=
  { handshake with
    hasSni := false
    sni := []
    sniSeen := false
    sniMalformed := false
    clientCipherSuites := {}
    clientExtensions := {}
    clientSupportedGroups := {}
    clientSignatureAlgorithms := {}
    clientSupportedVersions := {}
    clientEcPointFormats := {}
    clientAlpn := {}
    serverExtensions := {}
    serverAlpn := {}
    serverSupportedVersions := {} }

/-- The row of a hello that failed to parse. -/
def TlsHandshake.invalidated (handshake : TlsHandshake Cert) (client : Bool)
    : TlsHandshake Cert :=
  clearHello
    { handshake with
      status := .invalid
      error := if client then "ClientHello is malformed" else "ServerHello is malformed" }

/-- The row and session id one hello message contributes to its direction. -/
def readHello (limits : TlsHandshakeLimits Cert) (client : Bool) (body : List UInt8)
    : Except TlsFailure (TlsHandshake Cert × List UInt8) := do
  let read ← parseHello limits client body
    { hasClientHello := client, hasServerHello := ¬ client }
  return (if read.parsed then read.handshake else read.handshake.invalidated client,
    read.sessionId)

/-! ### Certificate messages -/

/-- The certificate text a chain charged against its direction's budget. -/
def chainTextBytes (chain : TlsList (TlsCertificate Cert)) : Nat :=
  (chain.values.map TlsCertificate.budgetBytes).sum

/-- One certificate of a chain: what came of it, and the text charged for it. -/
def readCertificate (x509 : X509Parser Cert) (limits : TlsHandshakeLimits Cert)
    (der : List UInt8) (before held : Nat)
    : X509Result × TlsCertificate Cert :=
  if before < limits.maxCertificates ∧ der.length ≤ limits.maxCertificateBytes then
    let read := x509.parseX509Certificate der limits.maxListEntries
    let text := x509.textBytes read.2 + (if limits.certificateDigest.isSome then 40 + 64 else 0)
    if read.1 = .ok ∧ limits.maxDirectionCertificateBytes - held < text then
      (.overLimit, { fields := read.2 })
    else if read.1 = .ok then
      (.ok,
        { parsed := true
          fields := (limits.certificateDigest.map fun digest => digest der read.2).getD read.2
          budgetBytes := text })
    else
      (read.1, { fields := read.2 })
  else
    (.overLimit, { fields := x509.blank })

/-- How the walk over a Certificate message ends. -/
inductive ChainRead (Cert : Type) where
  | broken
  | excessive
  | whole (held : Nat) (certificates : List (TlsCertificate Cert))

/-- What one pass over a chain leaves. -/
inductive ChainPass (Cert : Type) where
  | stop (read : ChainRead Cert)
  | next (reader : TlsReader) (held : Nat) (certificates : List (TlsCertificate Cert))

/-- One pass of the loop of `parseCertificates`: it takes a whole certificate or stops. -/
def chainPass (x509 : X509Parser Cert) (limits : TlsHandshakeLimits Cert)
    (reader : TlsReader) (held : Nat) (certificates : List (TlsCertificate Cert))
    : ChainPass Cert :=
  if 0 < reader.remaining then
    let length := reader.u24
    if length.2.overrun then .stop .broken
    else
      let taken := length.2.take length.1
      match taken.1 with
      | none => .stop .broken
      | some der =>
        let read := readCertificate x509 limits der certificates.length held
        if read.1 = .overLimit then .stop .excessive
        else .next taken.2 (held + read.2.budgetBytes) (certificates ++ [read.2])
  else
    .stop (.whole held certificates)

/-- The loop of `parseCertificates`. -/
def certificateLoop (x509 : X509Parser Cert) (limits : TlsHandshakeLimits Cert)
    : Nat → TlsReader → Nat → List (TlsCertificate Cert)
      → Except TlsFailure (ChainRead Cert)
  | 0, _, _, _ => .error .outOfFuel
  | fuel + 1, reader, held, certificates =>
    match chainPass x509 limits reader held certificates with
    | .stop read => .ok read
    | .next reader held certificates => certificateLoop x509 limits fuel reader held certificates

/-- What a Certificate message leaves: the text the direction holds, the chain and the row. -/
structure CertificatesRead (Cert : Type) where
  held : Nat
  chain : TlsList (TlsCertificate Cert)
  handshake : TlsHandshake Cert

/-- The row of a chain over the certificate limits. -/
def TlsHandshake.overCertificateLimit (handshake : TlsHandshake Cert)
    : TlsHandshake Cert :=
  if handshake.status = .unset then
    { handshake with
      status := .limit
      error := "TLS certificate chain exceeds the certificate limits" }
  else
    handshake

def parseCertificates (x509 : X509Parser Cert) (limits : TlsHandshakeLimits Cert)
    (body : List UInt8) (held : Nat) (chain : TlsList (TlsCertificate Cert))
    (handshake : TlsHandshake Cert)
    : Except TlsFailure (CertificatesRead Cert) := do
  require (held ≤ limits.maxDirectionCertificateBytes) (.assertion .parseCertificates)
  require (chain.present → chainTextBytes chain ≤ held) (.assertion .parseCertificates)
  let held := if chain.present then held - chainTextBytes chain else held
  if chain.seen then
    return { held, chain := .broken, handshake }
  else
    let length := ({ rest := body } : TlsReader).u24
    if length.2.overrun ∨ length.2.remaining ≠ length.1 then
      return { held, chain := { chain with malformed := true }, handshake }
    else
      let read ← certificateLoop x509 limits (length.2.remaining + 1) length.2 held []
      match read with
      | .broken => return { held, chain := { chain with malformed := true }, handshake }
      | .excessive =>
        return { held
                 chain := { chain with overLimit := true }
                 handshake := handshake.overCertificateLimit }
      | .whole after certificates =>
        let chain := { chain with present := true, values := certificates }
        require (after ≤ limits.maxDirectionCertificateBytes) (.assertion .parseCertificates)
        require (chainTextBytes chain = after - held) (.assertion .parseCertificates)
        return { held := after, chain, handshake }

/-- Whether a Certificate message was malformed or holds a certificate that did not parse. -/
def unparsed (chain : TlsList (TlsCertificate Cert)) : Bool :=
  chain.malformed || chain.values.any fun certificate => !certificate.parsed

end

end PacketQuapture.Tls
