import PacketQuapture.Tls.NegotiatedVersion

/-! Reading a hello back from its encoding.
A hello with typed extensions of pairwise distinct types, within the limits, parses to the row that
lists what it offered.
-/

namespace PacketQuapture.Tls

open Library Reassembly

variable {Cert : Type} {limits : TlsHandshakeLimits Cert}

/-! ### Server names -/

/-- One entry of a ServerNameList. -/
structure NameEntry where
  type : UInt8
  name : List UInt8
  fits : name.length < 2 ^ 16

def NameEntry.encode (entry : NameEntry) : List UInt8 :=
  entry.type :: (bytes16 entry.name.length ++ entry.name)

def encodeEntries (entries : List NameEntry) : List UInt8 := entries.flatMap NameEntry.encode

/-- The first host_name. -/
def hostName? (entries : List NameEntry) : Option (List UInt8) :=
  (entries.find? fun entry => entry.type = 0).map NameEntry.name

theorem length_encodeEntries_cons (entry : NameEntry) (entries : List NameEntry)
    : (encodeEntries (entry :: entries)).length
      = 3 + entry.name.length + (encodeEntries entries).length := by
  simp only [encodeEntries, List.flatMap_cons, NameEntry.encode, bytes16, List.length_append,
    List.length_cons, List.length_nil]
  omega

/-- The loop over the entries returns the first host_name, escaped.
Witness: induction on the entries; an entry of another type is skipped.
-/
theorem serverNameLoop_encodeEntries {entries : List NameEntry} {total fuel consumed : Nat}
    (ends : total = consumed + (encodeEntries entries).length) (enough : entries.length < fuel)
    : serverNameLoop total fuel consumed { rest := encodeEntries entries }
      = { framed := true, name := (hostName? entries).map Text.escapeTlsText } := by
  induction entries generalizing fuel consumed with
  | nil =>
    obtain ⟨fuel, rfl⟩ := Nat.exists_eq_succ_of_ne_zero (Nat.ne_of_gt enough)
    have whole : consumed = total := by rw [ends]; rfl
    rw [serverNameLoop, if_neg (by omega), decide_eq_true whole]
    rfl
  | cons entry entries ih =>
    obtain ⟨fuel, rfl⟩ := Nat.exists_eq_succ_of_ne_zero
      (Nat.ne_of_gt (Nat.zero_lt_of_lt enough))
    have written : encodeEntries (entry :: entries)
        = entry.type :: (bytes16 entry.name.length ++ (entry.name ++ encodeEntries entries)) := by
      simp only [encodeEntries, List.flatMap_cons, NameEntry.encode, List.cons_append,
        List.append_assoc]
    rw [length_encodeEntries_cons] at ends
    rw [serverNameLoop, if_pos (by omega), written, TlsReader.u8_cons]
    dsimp only
    rw [TlsReader.u16_bytes16]
    dsimp only
    rw [UInt16.toNat_ofNat_of_lt' entry.fits,
      if_neg (not_or.mpr ⟨Bool.false_ne_true, by omega⟩)]
    by_cases host : entry.type = 0
    · rw [if_pos host, TlsReader.take_append, hostName?,
        List.find?_cons_of_pos (by simpa using host)]
      rfl
    · rw [if_neg host, TlsReader.skip_append rfl, if_pos rfl,
        ih (by omega) (Nat.lt_of_succ_lt_succ enough), hostName?, hostName?,
        List.find?_cons_of_neg (by simpa using host)]

/-- A ServerNameList is read back as its first host_name, escaped. -/
theorem parseTlsServerName_encode {entries : List NameEntry}
    (fits : (encodeEntries entries).length < 2 ^ 16)
    : parseTlsServerName { rest := encodeVector 2 (encodeEntries entries) }
      = { framed := true, name := (hostName? entries).map Text.escapeTlsText } := by
  have enough : entries.length < (encodeEntries entries).length + 1 := by
    clear fits
    induction entries with
    | nil => exact Nat.succ_pos _
    | cons entry entries ih =>
      rw [length_encodeEntries_cons, List.length_cons]
      omega
  have size : (UInt16.ofNat (encodeEntries entries).length).toNat = (encodeEntries entries).length :=
    UInt16.toNat_ofNat_of_lt' fits
  have written : encodeVector 2 (encodeEntries entries)
      = bytes16 (encodeEntries entries).length ++ encodeEntries entries := rfl
  unfold parseTlsServerName
  dsimp only
  rw [written, TlsReader.u16_bytes16]
  dsimp only
  rw [size, if_neg (by simp [TlsReader.remaining]),
    serverNameLoop_encodeEntries (Nat.zero_add _).symm enough]

/-! ### Typed extensions -/

/-- What a ClientHello's extension says; the lengths fit the fields that announce them. -/
inductive ClientExtension where
  | serverName (entries : List NameEntry) (fits : (encodeEntries entries).length < 2 ^ 16)
  | supportedVersions (versions : List UInt16) (fits : 2 * versions.length < 2 ^ 8)
  | supportedGroups (groups : List UInt16) (fits : 2 * groups.length < 2 ^ 16)
  | signatureAlgorithms (algorithms : List UInt16) (fits : 2 * algorithms.length < 2 ^ 16)
  | ecPointFormats (formats : List UInt8) (fits : formats.length < 2 ^ 8)
  | alpn (protocols : List (List UInt8)) (valid : ∀ protocol ∈ protocols, IsProtocol protocol)
    (some_protocol : protocols ≠ []) (fits : (encodeNames protocols).length < 2 ^ 16)
  | other (type : UInt16) (body : List UInt8)
    (unread : type ∉ [tlsExtensionServerName, tlsExtensionSupportedVersions,
      extensionSupportedGroups, extensionSignatureAlgorithms, extensionEcPointFormats,
      extensionAlpn])

namespace ClientExtension

/-- The extension on the wire. -/
def raw : ClientExtension → Extension
  | serverName entries _ => ⟨tlsExtensionServerName, encodeVector 2 (encodeEntries entries)⟩
  | supportedVersions versions _ =>
    ⟨tlsExtensionSupportedVersions, encodeVector 1 (encodeCodes versions)⟩
  | supportedGroups groups _ => ⟨extensionSupportedGroups, encodeVector 2 (encodeCodes groups)⟩
  | signatureAlgorithms algorithms _ =>
    ⟨extensionSignatureAlgorithms, encodeVector 2 (encodeCodes algorithms)⟩
  | ecPointFormats formats _ => ⟨extensionEcPointFormats, encodeVector 1 formats⟩
  | alpn protocols _ _ _ => ⟨extensionAlpn, encodeVector 2 (encodeNames protocols)⟩
  | other type body _ => ⟨type, body⟩

/-- The entries of the list it carries. -/
def entries : ClientExtension → Nat
  | serverName .. => 0
  | supportedVersions versions _ => versions.length
  | supportedGroups groups _ => groups.length
  | signatureAlgorithms algorithms _ => algorithms.length
  | ecPointFormats formats _ => formats.length
  | alpn protocols _ _ _ => protocols.length
  | other .. => 0

/-- The values it carries for a list. -/
def carried? : (list : HelloList) → ClientExtension → Option (List list.Item)
  | .clientSupportedVersions, supportedVersions versions _ => some versions
  | .clientSupportedGroups, supportedGroups groups _ => some groups
  | .clientSignatureAlgorithms, signatureAlgorithms algorithms _ => some algorithms
  | .clientEcPointFormats, ecPointFormats formats _ => some formats
  | .clientAlpn, alpn protocols _ _ _ => some protocols
  | _, _ => none

/-- The entries of its ServerNameList. -/
def names? : ClientExtension → Option (List NameEntry)
  | serverName entries _ => some entries
  | _ => none

end ClientExtension

/-- What a ServerHello's extension says: the version or the protocol it selects, or something this
layer does not read.
-/
inductive ServerExtension where
  | supportedVersions (version : UInt16)
  | alpn (protocol : List UInt8) (valid : IsProtocol protocol)
  | other (type : UInt16) (body : List UInt8)
    (unread : type ∉ [tlsExtensionSupportedVersions, extensionAlpn])

namespace ServerExtension

def raw : ServerExtension → Extension
  | supportedVersions version => ⟨tlsExtensionSupportedVersions, bytes16 version.toNat⟩
  | alpn protocol _ => ⟨extensionAlpn, encodeVector 2 (encodeNames [protocol])⟩
  | other type body _ => ⟨type, body⟩

def entries : ServerExtension → Nat
  | supportedVersions .. => 1
  | alpn .. => 1
  | other .. => 0

def carried? : (list : HelloList) → ServerExtension → Option (List list.Item)
  | .serverSupportedVersions, supportedVersions version => some [version]
  | .serverAlpn, alpn protocol _ => some [protocol]
  | _, _ => none

/-- The version it selects. -/
def version? : ServerExtension → Option UInt16
  | supportedVersions version => some version
  | _ => none

end ServerExtension

/-! ### Lists of distinct extensions -/

/-- The list of an extension that may be absent. -/
def TlsList.ofOption {α : Type} : Option (List α) → TlsList α
  | some values => .listed values
  | none => {}

theorem bytes16_injective {left right : UInt16} (same : bytes16 left.toNat = bytes16 right.toNat)
    : left = right := by
  have read := TlsReader.u16_bytes16 left.toNat []
  rw [same, TlsReader.u16_bytes16, UInt16.ofNat_toNat, UInt16.ofNat_toNat] at read
  exact (Prod.mk.inj read).1.symm

theorem HelloList.encodes_unique {list : HelloList} {values others : List list.Item}
    {body : List UInt8} (left : list.Encodes others body) (right : list.Encodes values body)
    : others = values := by
  have names {client : Bool} {values others : List (List UInt8)}
      (left : EncodesNames client others body) (right : EncodesNames client values body)
      : others = values :=
    encodeNames_inj left.protocols right.protocols (left.vector.unique right.vector)
  cases list with
  | clientSupportedVersions => exact EncodesCodes.unique left right
  | clientSupportedGroups => exact EncodesCodes.unique left right
  | clientSignatureAlgorithms => exact EncodesCodes.unique left right
  | clientEcPointFormats => exact IsVector.unique left right
  | clientAlpn => exact names left right
  | serverSupportedVersions =>
    obtain ⟨version, rfl, same⟩ := left
    obtain ⟨other, rfl, rfl⟩ := right
    rw [bytes16_injective same]
  | serverAlpn => exact names left right

/-- An extension says of every list of its side what its body encodes, within the limits. -/
structure Extension.Conveys (limits : TlsHandshakeLimits Cert) (client : Bool)
    (extension : Extension) (carried? : (list : HelloList) → Option (List list.Item))
    : Prop where
  encodes : ∀ (list : HelloList) (values : List list.Item), carried? list = some values →
    extension.type = list.type ∧ list.Encodes values extension.body
    ∧ values.length ≤ list.cap limits
  carried : ∀ list : HelloList, list.ofClient = client → extension.type = list.type →
    carried? list ≠ none

section Distinct

variable {Typed : Type} {raw : Typed → Extension} {extensions : List Typed} {client : Bool}
variable {carried? : (list : HelloList) → Typed → Option (List list.Item)}

theorem filter_map_raw (distinct : (extensions.map fun extension => (raw extension).type).Nodup)
    {extension : Typed} (member : extension ∈ extensions)
    : (extensions.map raw).filter (fun other => other.type = (raw extension).type)
      = [raw extension] := by
  rw [List.filter_map, show ((fun other : Extension => decide (other.type = (raw extension).type))
      ∘ raw) = fun other => decide ((raw other).type = (raw extension).type) from rfl,
    filter_eq_singleton distinct member]
  rfl

/-- The list reported for distinct extensions is what the one that carries it says. -/
theorem Reported.eq_ofOption
    (conveys : ∀ extension ∈ extensions,
      (raw extension).Conveys limits client fun list => carried? list extension)
    (distinct : (extensions.map fun extension => (raw extension).type).Nodup) {list : HelloList}
    (side : list.ofClient = client) {found : TlsList list.Item}
    (reported : Reported (list.cap limits) list.Encodes
      (list.bodies client (extensions.map raw)) found)
    : found = .ofOption (extensions.findSome? (carried? list)) := by
  rw [HelloList.bodies, if_pos side] at reported
  cases first : extensions.findSome? (carried? list) with
  | none =>
    have none : (extensions.map raw).filter (fun extension => extension.type = list.type) = [] := by
      rw [List.filter_eq_nil_iff]
      intro extension member
      obtain ⟨typed, among, rfl⟩ := List.mem_map.mp member
      have uncarried := List.findSome?_eq_none_iff.mp first typed among
      simpa using fun type => (conveys typed among).carried list side type uncarried
    rw [none] at reported
    cases reported with
    | absent => rfl
    | repeated several => exact absurd several (by decide)
  | some values =>
    obtain ⟨extension, member, value⟩ := List.exists_of_findSome?_eq_some first
    obtain ⟨type, encodes, within⟩ := (conveys extension member).encodes list values value
    rw [← type, filter_map_raw distinct member] at reported
    exact reported.eq_listed (fun others other => HelloList.encodes_unique other encodes) encodes
      within

theorem not_oversized
    (conveys : ∀ extension ∈ extensions,
      (raw extension).Conveys limits client fun list => carried? list extension)
    : ¬ Oversized limits client (extensions.map raw) := by
  rintro ⟨list, values, body, member, encodes, beyond⟩
  unfold HelloList.bodies at member
  split at member
  case isFalse => exact absurd member List.not_mem_nil
  case isTrue side =>
    obtain ⟨extension, filtered, rfl⟩ := List.mem_map.mp member
    obtain ⟨among, type⟩ := List.mem_filter.mp filtered
    obtain ⟨typed, listed, rfl⟩ := List.mem_map.mp among
    obtain ⟨others, carried⟩ := Option.ne_none_iff_exists'.mp
      ((conveys typed listed).carried list side (of_decide_eq_true type))
    obtain ⟨_, encoded, within⟩ := (conveys typed listed).encodes list others carried
    rw [HelloList.encodes_unique encoded encodes] at within
    exact absurd beyond (Nat.not_lt_of_le within)

end Distinct

/-! ### Typed hellos -/

/-- What a ClientHello is encoded from; no two extensions have one type. -/
structure ClientHello where
  version : UInt16
  random : FixedBytes 32
  sessionId : List UInt8
  suites : List UInt16
  compression : List UInt8
  extensions : Option (List ClientExtension)
  sessionIdFits : sessionId.length < 2 ^ 8
  suitesFit : 2 * suites.length < 2 ^ 16
  compressionFits : compression.length < 2 ^ 8
  extensionsFit :
    (encodeExtensions ((extensions.getD []).map ClientExtension.raw)).length < 2 ^ 16
  distinct : ((extensions.getD []).map fun extension => extension.raw.type).Nodup

namespace ClientHello

def offered (hello : ClientHello) : List ClientExtension := hello.extensions.getD []

def encode (hello : ClientHello) : List UInt8 :=
  bytes16 hello.version.toNat ++ hello.random.1 ++ encodeVector 1 hello.sessionId
    ++ encodeVector 2 (encodeCodes hello.suites) ++ encodeVector 1 hello.compression
    ++ encodeBlock (hello.extensions.map (List.map ClientExtension.raw))

/-- The lists and the extensions are within the limits. -/
structure Within (limits : TlsHandshakeLimits Cert) (hello : ClientHello) : Prop where
  suites : hello.suites.length ≤ limits.maxListEntries
  lists : ∀ extension ∈ hello.offered, extension.entries ≤ limits.maxListEntries
  extensions : hello.offered.length ≤ limits.maxExtensions

def list (hello : ClientHello) (list : HelloList) : TlsList list.Item :=
  .ofOption (hello.offered.findSome? (ClientExtension.carried? list))

/-- The host_name of the hello's server_name extension. -/
def hostName? (hello : ClientHello) : Option (List UInt8) :=
  (hello.offered.findSome? ClientExtension.names?).bind Tls.hostName?

/-- The row of the hello. -/
def row (hello : ClientHello) : TlsHandshake Cert where
  hasClientHello := true
  hasSni := hello.hostName?.isSome
  sni := (hello.hostName?.map Text.escapeTlsText).getD []
  sniSeen := (hello.offered.findSome? ClientExtension.names?).isSome
  hasClientVersion := true
  clientVersion := hello.version
  clientCipherSuites := .listed hello.suites
  clientExtensions := .listed (hello.offered.map fun extension => extension.raw.type)
  clientSupportedGroups := hello.list .clientSupportedGroups
  clientSignatureAlgorithms := hello.list .clientSignatureAlgorithms
  clientSupportedVersions := hello.list .clientSupportedVersions
  clientEcPointFormats := hello.list .clientEcPointFormats
  clientAlpn := hello.list .clientAlpn

end ClientHello

/-- What a ServerHello is encoded from; no two extensions have one type. -/
structure ServerAnswer where
  legacyVersion : UInt16
  random : FixedBytes 32
  sessionId : List UInt8
  cipherSuite : UInt16
  compression : UInt8
  extensions : Option (List ServerExtension)
  sessionIdFits : sessionId.length < 2 ^ 8
  extensionsFit :
    (encodeExtensions ((extensions.getD []).map ServerExtension.raw)).length < 2 ^ 16
  distinct : ((extensions.getD []).map fun extension => extension.raw.type).Nodup

namespace ServerAnswer

def offered (answer : ServerAnswer) : List ServerExtension := answer.extensions.getD []

/-- The hello with its extensions on the wire. -/
def hello (answer : ServerAnswer) : ServerHello where
  legacyVersion := answer.legacyVersion
  random := answer.random
  sessionId := answer.sessionId
  cipherSuite := answer.cipherSuite
  compression := answer.compression
  extensions := answer.extensions.map (List.map ServerExtension.raw)
  sessionIdFits := answer.sessionIdFits
  extensionsFit := by
    have fits := answer.extensionsFit
    cases extensions : answer.extensions with
    | none => simp [encodeExtensions]
    | some _ => simpa [extensions] using fits

structure Within (limits : TlsHandshakeLimits Cert) (answer : ServerAnswer) : Prop where
  lists : ∀ extension ∈ answer.offered, extension.entries ≤ limits.maxListEntries
  extensions : answer.offered.length ≤ limits.maxExtensions

def list (answer : ServerAnswer) (list : HelloList) : TlsList list.Item :=
  .ofOption (answer.offered.findSome? (ServerExtension.carried? list))

/-- The row of the hello: its version is the one selected, or else the legacy one. -/
def row (answer : ServerAnswer) : TlsHandshake Cert where
  hasServerHello := true
  hasNegotiatedVersion := true
  negotiatedVersion :=
    (answer.offered.findSome? ServerExtension.version?).getD answer.legacyVersion
  hasServerLegacyVersion := true
  serverLegacyVersion := answer.legacyVersion
  hasCipherSuite := true
  cipherSuite := answer.cipherSuite
  serverExtensions := .listed (answer.offered.map fun extension => extension.raw.type)
  serverAlpn := answer.list .serverAlpn
  serverSupportedVersions := answer.list .serverSupportedVersions

end ServerAnswer

/-! ### Rows -/

section Rows

variable {left right : TlsHandshake Cert}

/-- A row is its outline and what a ClientHello writes. -/
theorem TlsHandshake.eq_of_clientHello (outline : left.outline true = right.outline true)
    (name : left.serverName = right.serverName)
    (suites : left.clientCipherSuites = right.clientCipherSuites)
    (types : left.clientExtensions = right.clientExtensions)
    (lists : ∀ list : HelloList, list.ofClient = true → list.get left = list.get right)
    (verdict : left.verdict = right.verdict)
    : left = right := by
  have written (row : TlsHandshake Cert)
      : row = { row.outline true with
                hasSni := row.serverName.2.1
                sni := row.serverName.2.2.1
                sniSeen := row.serverName.1
                sniMalformed := row.serverName.2.2.2
                clientCipherSuites := row.clientCipherSuites
                clientExtensions := row.clientExtensions
                clientSupportedGroups := HelloList.get row .clientSupportedGroups
                clientSignatureAlgorithms := HelloList.get row .clientSignatureAlgorithms
                clientSupportedVersions := HelloList.get row .clientSupportedVersions
                clientEcPointFormats := HelloList.get row .clientEcPointFormats
                clientAlpn := HelloList.get row .clientAlpn
                status := row.verdict.1
                error := row.verdict.2 } := rfl
  rw [written left, written right, outline, name, suites, types, verdict,
    lists .clientSupportedGroups rfl, lists .clientSignatureAlgorithms rfl,
    lists .clientSupportedVersions rfl, lists .clientEcPointFormats rfl, lists .clientAlpn rfl]

/-- A row is its outline and what a ServerHello writes. -/
theorem TlsHandshake.eq_of_serverHello (outline : left.outline false = right.outline false)
    (version : (left.hasNegotiatedVersion, left.negotiatedVersion)
      = (right.hasNegotiatedVersion, right.negotiatedVersion))
    (suites : (left.hasCipherSuite, left.cipherSuite) = (right.hasCipherSuite, right.cipherSuite))
    (types : left.serverExtensions = right.serverExtensions)
    (lists : ∀ list : HelloList, list.ofClient = false → list.get left = list.get right)
    (verdict : left.verdict = right.verdict)
    : left = right := by
  have written (row : TlsHandshake Cert)
      : row = { row.outline false with
                hasNegotiatedVersion := (row.hasNegotiatedVersion, row.negotiatedVersion).1
                negotiatedVersion := (row.hasNegotiatedVersion, row.negotiatedVersion).2
                hasCipherSuite := (row.hasCipherSuite, row.cipherSuite).1
                cipherSuite := (row.hasCipherSuite, row.cipherSuite).2
                serverExtensions := row.serverExtensions
                serverAlpn := HelloList.get row .serverAlpn
                serverSupportedVersions := HelloList.get row .serverSupportedVersions
                status := row.verdict.1
                error := row.verdict.2 } := rfl
  rw [written left, written right, outline, version, suites, types, verdict,
    lists .serverAlpn rfl, lists .serverSupportedVersions rfl]

end Rows

/-! ### Reading back -/

theorem HelloRead.Reports.unlimited {client : Bool} {form : HelloForm}
    {read : HelloRead Cert} (reports : read.Reports limits client form)
    (whole : form.excess = false) (suites : read.handshake.clientCipherSuites.overLimit = false)
    (lists : ¬ Oversized limits client form.extensions)
    : read.handshake.verdict = (.unset, "") := by
  refine reports.verdict.resolve_right fun limited => ?_
  rcases reports.spent (congrArg Prod.fst limited) with excess | oversized | spent
  · rw [whole] at excess
    cases excess
  · rw [suites] at oversized
    cases oversized
  · exact lists spent

theorem parseHello_outline_encode {client : Bool} {version : UInt16} {rest : List UInt8}
    {read : HelloRead Cert}
    (returned : parseHello limits client (bytes16 version.toNat ++ rest) (.fresh client)
      = .ok read)
    : read.handshake.outline client
      = ((TlsHandshake.fresh client).withVersion client version).outline client := by
  rw [parseHello_outline returned, if_neg (by simp [bytes16]), TlsReader.u16_bytes16,
    UInt16.ofNat_toNat]

namespace ClientExtension

variable {extension : ClientExtension}

theorem of_carried {list : HelloList} {values : List list.Item}
    (found : extension.carried? list = some values)
    : extension.raw.type = list.type ∧ list.Encodes values extension.raw.body
      ∧ values.length = extension.entries ∧ list ≠ .serverSupportedVersions := by
  cases list <;> cases extension <;> simp only [carried?, reduceCtorEq, Option.some.injEq] at found
  case clientSupportedVersions.supportedVersions fits =>
    subst found
    exact ⟨rfl, ⟨(length_encodeCodes _).trans_lt fits, rfl⟩, rfl, nofun⟩
  case clientSupportedGroups.supportedGroups fits =>
    subst found
    exact ⟨rfl, ⟨(length_encodeCodes _).trans_lt fits, rfl⟩, rfl, nofun⟩
  case clientSignatureAlgorithms.signatureAlgorithms fits =>
    subst found
    exact ⟨rfl, ⟨(length_encodeCodes _).trans_lt fits, rfl⟩, rfl, nofun⟩
  case clientEcPointFormats.ecPointFormats fits =>
    subst found
    exact ⟨rfl, ⟨fits, rfl⟩, rfl, nofun⟩
  case clientAlpn.alpn valid some_protocol fits =>
    subst found
    exact ⟨rfl, ⟨⟨fits, rfl⟩, valid, some_protocol, nofun⟩, rfl, nofun⟩

theorem carried_of_type {list : HelloList} (side : list.ofClient = true)
    (type : extension.raw.type = list.type)
    : extension.carried? list ≠ none := by
  cases extension with
  | other type' body unread =>
    refine absurd ?_ unread
    rw [show type' = list.type from type]
    revert side
    cases list <;> decide
  | _ =>
    revert side type
    cases list <;> simp [raw, HelloList.type, HelloList.ofClient, carried?] <;> decide

theorem conveys (within : extension.entries ≤ limits.maxListEntries)
    : extension.raw.Conveys limits true fun list => extension.carried? list := by
  refine ⟨fun list values found => ?_, fun list side type => carried_of_type side type⟩
  obtain ⟨type, encodes, size, capped⟩ := of_carried found
  refine ⟨type, encodes, ?_⟩
  rw [size, HelloList.cap_eq capped]
  exact within

theorem names_of_type (type : extension.raw.type = tlsExtensionServerName)
    : ∃ entries fits, extension = serverName entries fits := by
  cases extension with
  | serverName entries fits => exact ⟨entries, fits, rfl⟩
  | other type' body unread =>
    refine absurd ?_ unread
    rw [show type' = tlsExtensionServerName from type]
    decide
  | _ => exact absurd type (by simp only [raw]; decide)

end ClientExtension

/-- The server name reported for distinct extensions is the only server_name's. -/
theorem reportedName_raw {extensions : List ClientExtension}
    (distinct : (extensions.map fun extension => extension.raw.type).Nodup)
    : reportedName (nameBodies (extensions.map ClientExtension.raw))
      = let host := (extensions.findSome? ClientExtension.names?).bind hostName?
        ((extensions.findSome? ClientExtension.names?).isSome, host.isSome,
          (host.map Text.escapeTlsText).getD [], false) := by
  unfold nameBodies
  cases first : extensions.findSome? ClientExtension.names? with
  | none =>
    have none : (extensions.map ClientExtension.raw).filter
        (fun extension => extension.type = tlsExtensionServerName) = [] := by
      rw [List.filter_eq_nil_iff]
      intro extension member
      obtain ⟨typed, among, rfl⟩ := List.mem_map.mp member
      have unnamed := List.findSome?_eq_none_iff.mp first typed among
      refine fun type => ?_
      obtain ⟨entries, fits, rfl⟩ := ClientExtension.names_of_type (of_decide_eq_true type)
      cases unnamed
    rw [none]
    rfl
  | some entries =>
    obtain ⟨extension, member, names⟩ := List.exists_of_findSome?_eq_some first
    cases extension with
    | serverName listed fits =>
      obtain rfl := Option.some.inj names
      have only := filter_map_raw distinct member
      rw [show (ClientExtension.serverName listed fits).raw.type = tlsExtensionServerName
        from rfl] at only
      rw [only, List.map_singleton, show (ClientExtension.serverName listed fits).raw.body
        = encodeVector 2 (encodeEntries listed) from rfl, reportedName]
      dsimp only
      rw [parseTlsServerName_encode fits, if_pos rfl, Option.isSome_map]
      rfl
    | _ => cases names

namespace ClientHello

/-- The hello's form when its extensions are all walked. -/
def form (hello : ClientHello) : HelloForm where
  version := hello.version
  random := hello.random
  sessionId := hello.sessionId
  offers := .client (encodeCodes hello.suites) hello.compression
  extensions := hello.offered.map ClientExtension.raw
  excess := false

theorem frames {hello : ClientHello} (within : hello.Within limits)
    : hello.form.Frames limits.maxExtensions true hello.encode := by
  have block := @blockWalked_encodeBlock limits.maxExtensions
    (hello.extensions.map (List.map ClientExtension.raw))
  rw [getD_map_map hello.extensions] at block
  have walked := block hello.extensionsFit
  have size := (List.length_map ClientExtension.raw).trans_le within.extensions
  rw [offered] at size
  rw [List.take_of_length_le size, decide_eq_false (Nat.not_lt_of_le size)] at walked
  refine ⟨rfl, hello.sessionIdFits, ⟨(length_encodeCodes _).trans_lt hello.suitesFit,
    hello.compressionFits⟩, _, ?_, walked⟩
  simp only [encode, form, HelloForm.opening, HelloOffers.encode, List.append_assoc]

/-- A ClientHello within the limits is read back. -/
theorem parse_encode {hello : ClientHello} (within : hello.Within limits)
    : parseHello limits true hello.encode (.fresh true)
      = .ok { parsed := true, handshake := hello.row, sessionId := hello.sessionId } := by
  obtain ⟨read, returned, reports⟩ := (frames within).parseHello
  have conveys (extension : ClientExtension) (member : extension ∈ hello.offered) :=
    ClientExtension.conveys (within.lists extension member)
  have suites : read.handshake.clientCipherSuites = .listed hello.suites := by
    have told : EncodesCodes 2 hello.suites (encodeVector 2 (encodeCodes hello.suites)) :=
      ⟨(length_encodeCodes _).trans_lt hello.suitesFit, rfl⟩
    exact reports.suites.eq_listed (fun _ other => other.unique told) told within.suites
  have verdict := reports.unlimited rfl (congrArg TlsList.overLimit suites) (not_oversized conveys)
  have outline : read.handshake.outline true
      = (hello.row : TlsHandshake Cert).outline true := by
    have written : hello.encode = bytes16 hello.version.toNat ++ (hello.random.1
        ++ (encodeVector 1 hello.sessionId ++ (encodeVector 2 (encodeCodes hello.suites)
          ++ (encodeVector 1 hello.compression
            ++ encodeBlock (hello.extensions.map (List.map ClientExtension.raw)))))) := by
      simp only [encode, List.append_assoc]
    rw [written] at returned
    exact parseHello_outline_encode returned
  have row : read.handshake = hello.row := by
    refine TlsHandshake.eq_of_clientHello outline ?_ suites ?_ (fun list side => ?_) verdict
    · exact (reports.name rfl).trans (reportedName_raw hello.distinct)
    · refine reports.types.trans ?_
      rw [form, List.map_map]
      rfl
    · refine (Reported.eq_ofOption conveys hello.distinct side (reports.lists list)).trans ?_
      cases list <;> first | rfl | cases side
  rw [returned, ← row, ← show read.sessionId = hello.sessionId from reports.sessionId,
    ← reports.parsed]

end ClientHello

namespace ServerExtension

theorem of_carried {list : HelloList} {extension : ServerExtension} {values : List list.Item}
    (found : extension.carried? list = some values)
    : extension.raw.type = list.type ∧ list.Encodes values extension.raw.body
      ∧ values.length = 1 ∧ extension.entries = 1 := by
  cases list <;> cases extension <;> simp only [carried?, reduceCtorEq, Option.some.injEq] at found
  case serverSupportedVersions.supportedVersions version =>
    subst found
    exact ⟨rfl, ⟨version, rfl, rfl⟩, rfl, rfl⟩
  case serverAlpn.alpn protocol valid =>
    subst found
    have fits : (encodeNames [protocol]).length < 2 ^ 16 := by
      rw [encodeNames_cons, List.length_cons, List.length_append]
      have short := valid.2
      simp only [encodeNames, List.flatMap_nil, List.length_nil]
      omega
    refine ⟨rfl, ⟨⟨fits, rfl⟩, ?_, List.cons_ne_nil _ _, fun _ => rfl⟩, rfl, rfl⟩
    intro name member
    rw [List.mem_singleton.mp member]
    exact valid

theorem carried_of_type {list : HelloList} (side : list.ofClient = false)
    {extension : ServerExtension} (type : extension.raw.type = list.type)
    : extension.carried? list ≠ none := by
  cases extension with
  | other type' body unread =>
    refine absurd ?_ unread
    rw [show type' = list.type from type]
    revert side
    cases list <;> decide
  | _ =>
    revert side type
    cases list <;> simp [raw, HelloList.type, HelloList.ofClient, carried?]
    decide

theorem conveys {extension : ServerExtension} (within : extension.entries ≤ limits.maxListEntries)
    : extension.raw.Conveys limits false fun list => extension.carried? list := by
  refine ⟨fun list values found => ?_, fun list side type => carried_of_type side type⟩
  obtain ⟨type, encodes, size, entries⟩ := of_carried found
  refine ⟨type, encodes, ?_⟩
  rw [entries] at within
  rw [size]
  by_cases selects : list = .serverSupportedVersions
  · rw [selects]
    exact Nat.le_refl 1
  · rw [HelloList.cap_eq selects]
    exact within

/-- The version distinct extensions select. -/
theorem selected_raw {extensions : List ServerExtension} (legacy : UInt16)
    (distinct : (extensions.map fun extension => extension.raw.type).Nodup)
    : selected legacy ((extensions.map raw).filter Extension.selects)
      = some ((extensions.findSome? version?).getD legacy) := by
  have selecting {extension : ServerExtension} (selects : extension.raw.selects = true)
      : ∃ version, extension = supportedVersions version := by
    cases extension with
    | supportedVersions version => exact ⟨version, rfl⟩
    | alpn => cases selects
    | other type body unread =>
      refine absurd ?_ unread
      rw [show type = tlsExtensionSupportedVersions from of_decide_eq_true selects]
      decide
  cases first : extensions.findSome? version? with
  | none =>
    have none : (extensions.map raw).filter Extension.selects = [] := by
      rw [List.filter_eq_nil_iff]
      intro extension member selects
      obtain ⟨typed, among, rfl⟩ := List.mem_map.mp member
      have unselected := List.findSome?_eq_none_iff.mp first typed among
      obtain ⟨version, rfl⟩ := selecting selects
      cases unselected
    rw [none]
    rfl
  | some version =>
    obtain ⟨extension, member, selects⟩ := List.exists_of_findSome?_eq_some first
    cases extension with
    | supportedVersions other =>
      obtain rfl := Option.some.inj selects
      have only := filter_map_raw distinct member
      rw [show (extensions.map raw).filter Extension.selects = [(supportedVersions other).raw]
        from only, selected, Extension.version?,
        if_pos (show (supportedVersions other).raw.body.length = 2 from rfl)]
      have read := TlsReader.u16_bytes16 other.toNat []
      rw [List.append_nil, UInt16.ofNat_toNat] at read
      exact congrArg (fun read => some read.1) read
    | _ => cases selects

end ServerExtension

namespace ServerAnswer

theorem form_eq {answer : ServerAnswer} (within : answer.Within limits)
    : answer.hello.form limits
      = { version := answer.legacyVersion
          random := answer.random
          sessionId := answer.sessionId
          offers := .server answer.cipherSuite answer.compression
          extensions := answer.offered.map ServerExtension.raw
          excess := false } := by
  have size := (List.length_map ServerExtension.raw).trans_le within.extensions
  rw [offered] at size
  rw [ServerHello.form, hello, getD_map_map, List.take_of_length_le size,
    decide_eq_false (Nat.not_lt_of_le size)]
  rfl

/-- A ServerHello within the limits is read back. -/
theorem parse_encode {answer : ServerAnswer} (within : answer.Within limits)
    : parseHello limits false answer.hello.encode (.fresh false)
      = .ok { parsed := true, handshake := answer.row, sessionId := answer.sessionId } := by
  obtain ⟨read, returned, reports⟩ := (answer.hello.frames limits).parseHello
  rw [form_eq within] at reports
  have conveys (extension : ServerExtension) (member : extension ∈ answer.offered) :=
    ServerExtension.conveys (within.lists extension member)
  obtain ⟨unlisted, known, suite⟩ := reports.suites
  have verdict := reports.unlimited rfl (congrArg TlsList.overLimit unlisted) (not_oversized conveys)
  have outline : read.handshake.outline false
      = (answer.row : TlsHandshake Cert).outline false := by
    have written : answer.hello.encode = bytes16 answer.legacyVersion.toNat ++ (answer.random.1
        ++ (UInt8.ofNat answer.sessionId.length :: (answer.sessionId
          ++ (bytes16 answer.cipherSuite.toNat
            ++ answer.compression :: encodeBlock answer.hello.extensions)))) := by
      simp only [ServerHello.encode, hello, List.append_assoc, List.cons_append]
    rw [written] at returned
    exact parseHello_outline_encode returned
  have row : read.handshake = answer.row := by
    refine TlsHandshake.eq_of_serverHello outline ?_ (congrArg₂ Prod.mk known suite) ?_
      (fun list side => ?_) verdict
    · have version := (reports.version rfl).trans
        (ServerExtension.selected_raw answer.legacyVersion answer.distinct)
      obtain ⟨has, negotiated⟩ := TlsHandshake.version?_eq_some.mp version
      rw [has, negotiated]
      rfl
    · refine reports.types.trans ?_
      rw [List.map_map]
      rfl
    · refine (Reported.eq_ofOption conveys answer.distinct side (reports.lists list)).trans ?_
      cases list <;> first | rfl | cases side
  rw [returned, ← row, ← show read.sessionId = answer.sessionId from reports.sessionId,
    ← reports.parsed]

end ServerAnswer

/-! ### Hellos -/

/-- A hello of either side. -/
inductive Hello where
  | client (hello : ClientHello)
  | server (answer : ServerAnswer)

namespace Hello

def isClient : Hello → Bool
  | client _ => true
  | server _ => false

def encode : Hello → List UInt8
  | client hello => hello.encode
  | server answer => answer.hello.encode

def sessionId : Hello → List UInt8
  | client hello => hello.sessionId
  | server answer => answer.sessionId

def row : Hello → TlsHandshake Cert
  | client hello => hello.row
  | server answer => answer.row

def Within (limits : TlsHandshakeLimits Cert) : Hello → Prop
  | client hello => hello.Within limits
  | server answer => answer.Within limits

/-- Parsing a hello within the limits undoes its encoding: the row has its versions, suites,
extension types and lists in wire order, and the lists of absent extensions are blank.
-/
theorem parseHello_encode (limits : TlsHandshakeLimits Cert) (hello : Hello)
    (within : hello.Within limits)
    : parseHello limits hello.isClient hello.encode (.fresh hello.isClient)
      = .ok { parsed := true, handshake := hello.row, sessionId := hello.sessionId } := by
  cases hello with
  | client hello => exact ClientHello.parse_encode within
  | server answer => exact ServerAnswer.parse_encode within

/-- A ClientHello for host `a` that offers TLS 1.3, h2 and an extension of an unknown type. -/
def offering : ClientHello where
  version := 0x0303
  random := .zero 32
  sessionId := [7]
  suites := [0x1301, 0x1302]
  compression := [0]
  extensions := some
    [.serverName [⟨0, [0x61], by decide⟩] (by decide), .other 0x1234 [1, 2, 3] (by decide),
      .supportedVersions [0x0304] (by decide),
      .alpn [[0x68, 0x32]] (by simp [IsProtocol]) (by decide) (by decide)]
  sessionIdFits := by decide
  suitesFit := by decide
  compressionFits := by decide
  extensionsFit := by decide
  distinct := by decide

/-- The hello is read back with its name, version and protocol. -/
theorem parseHello_encode_offering
    : (client offering).Within ({} : TlsHandshakeLimits Unit)
      ∧ parseHello {} true offering.encode (.fresh true)
        = .ok
          { parsed := true
            handshake := (offering.row : TlsHandshake Unit)
            sessionId := [7] } := by
  have within : (client offering).Within ({} : TlsHandshakeLimits Unit) := by
    refine ⟨by decide, ?_, by decide⟩
    simp [offering, ClientHello.offered, ClientExtension.entries]
  exact ⟨within, parseHello_encode {} (client offering) within⟩

end Hello

end PacketQuapture.Tls
