import PacketQuapture.Tls.Directions
import PacketQuapture.Tls.Encoding

/-! What a hello that failed to parse leaves on the reported row.
Its server name and lists are cleared, but not the versions and the cipher suite read before the
failure, and its session id still takes part in the verdict on resumption.
-/

namespace PacketQuapture.Tls

open Library Reassembly

variable {Cert : Type} {x509 : X509Parser Cert}
variable {limits : TlsHandshakeLimits Cert}

/-! ### What the rest of a hello writes -/

/-- The row without what a hello of one side writes after its version. -/
def TlsHandshake.outline (handshake : TlsHandshake Cert) (client : Bool)
    : TlsHandshake Cert :=
  if client then
    { clearHello handshake with
      serverExtensions := handshake.serverExtensions
      serverAlpn := handshake.serverAlpn
      serverSupportedVersions := handshake.serverSupportedVersions
      status := .unset
      error := "" }
  else
    { handshake with
      hasNegotiatedVersion := false
      negotiatedVersion := 0
      hasCipherSuite := false
      cipherSuite := 0
      serverExtensions := {}
      serverAlpn := {}
      serverSupportedVersions := {}
      status := .unset
      error := "" }

section Outline

variable {handshake : TlsHandshake Cert} {client : Bool} {budget : ListBudget}
variable {reader : TlsReader}

theorem setExtensionTypes_outline (types : TlsList UInt16)
    : (handshake.setExtensionTypes client types).outline client = handshake.outline client := by
  cases client <;> rfl

/-- An extension sets only what the outline leaves out. -/
theorem readExtension_outline {type : UInt16} {inner : TlsReader}
    {result : ListBudget × TlsHandshake Cert}
    (returned : readExtension type inner client budget handshake = .ok result)
    : result.2.outline client = handshake.outline client := by
  unfold readExtension at returned
  split at returned
  case isTrue sni =>
    obtain rfl := Except.ok.inj returned
    rw [sni.2]
    dsimp only
    unfold readServerName
    dsimp only
    split
    · rfl
    · split <;> rfl
  case isFalse =>
    split at returned
    case isTrue =>
      unfold parseSupportedVersions at returned
      cases client with
      | true =>
        obtain ⟨read, _, same⟩ := bind_eq_ok.mp returned
        obtain rfl := Except.ok.inj same
        rfl
      | false =>
        obtain rfl := Except.ok.inj returned
        unfold selectVersion
        dsimp only
        split <;> rfl
    case isFalse =>
      split at returned
      case isTrue groups =>
        obtain ⟨read, _, same⟩ := bind_eq_ok.mp returned
        obtain rfl := Except.ok.inj same
        rw [groups.1]
        rfl
      case isFalse =>
        split at returned
        case isTrue algorithms =>
          obtain ⟨read, _, same⟩ := bind_eq_ok.mp returned
          obtain rfl := Except.ok.inj same
          rw [algorithms.1]
          rfl
        case isFalse =>
          split at returned
          case isTrue formats =>
            obtain ⟨read, _, same⟩ := bind_eq_ok.mp returned
            obtain rfl := Except.ok.inj same
            rw [formats.1]
            rfl
          case isFalse =>
            split at returned
            case isTrue =>
              cases client with
              | true =>
                obtain ⟨read, _, same⟩ := bind_eq_ok.mp returned
                obtain rfl := Except.ok.inj same
                rfl
              | false =>
                obtain ⟨read, _, same⟩ := bind_eq_ok.mp returned
                obtain rfl := Except.ok.inj same
                rfl
            case isFalse =>
              obtain rfl := Except.ok.inj returned
              rfl

/-- Walking the extensions keeps the outline, by induction on the fuel. -/
theorem extensionLoop_outline {total fuel consumed count : Nat} {walk : ExtensionWalk Cert}
    (returned : extensionLoop limits client total fuel reader consumed count budget handshake
      = .ok walk)
    : walk.handshake.outline client = handshake.outline client := by
  induction fuel generalizing reader consumed count budget handshake with
  | zero => cases returned
  | succ fuel ih =>
    unfold extensionLoop at returned
    split at returned
    case isTrue =>
      dsimp only at returned
      split at returned
      case isTrue =>
        obtain rfl := Except.ok.inj returned
        rfl
      case isFalse =>
        split at returned
        case isTrue =>
          obtain rfl := Except.ok.inj returned
          exact setExtensionTypes_outline _
        case isFalse =>
          split at returned
          case h_1 =>
            obtain rfl := Except.ok.inj returned
            rfl
          case h_2 body _ =>
            obtain ⟨read, extension, returned⟩ := bind_eq_ok.mp returned
            exact (ih returned).trans
              ((readExtension_outline extension).trans (setExtensionTypes_outline _))
    case isFalse =>
      obtain ⟨_, _, same⟩ := bind_eq_ok.mp returned
      obtain rfl := Except.ok.inj same
      rfl

theorem parseExtensions_outline {walk : ExtensionWalk Cert}
    (returned : parseExtensions limits client reader budget handshake = .ok walk)
    : walk.handshake.outline client = handshake.outline client := by
  unfold parseExtensions at returned
  dsimp only at returned
  split at returned
  case isTrue =>
    obtain rfl := Except.ok.inj returned
    rfl
  case isFalse => exact extensionLoop_outline returned

theorem readSuites_outline {read : SuitesRead Cert}
    (returned : readSuites client reader budget handshake = .ok read)
    : read.handshake.outline client = handshake.outline client := by
  unfold readSuites at returned
  cases client with
  | true =>
    obtain ⟨suites, _, returned⟩ := bind_eq_ok.mp returned
    dsimp only at returned
    split at returned <;>
      · obtain rfl := Except.ok.inj returned
        rfl
  | false =>
    rw [if_neg Bool.false_ne_true] at returned
    dsimp only at returned
    split at returned <;>
      · obtain rfl := Except.ok.inj returned
        rfl

theorem judged_outline : (handshake.judged budget).outline client = handshake.outline client := by
  unfold TlsHandshake.judged
  split
  · cases client <;> rfl
  · rfl

theorem parseOffers_outline {sessionId : List UInt8} {read : HelloRead Cert}
    (returned : parseOffers limits client reader sessionId handshake = .ok read)
    : read.handshake.outline client = handshake.outline client := by
  obtain ⟨suites, offered, returned⟩ := bind_eq_ok.mp returned
  have kept := readSuites_outline offered
  split at returned
  case isTrue =>
    dsimp only at returned
    split at returned
    case isTrue =>
      obtain rfl := Except.ok.inj returned
      exact judged_outline.trans ((setExtensionTypes_outline _).trans kept)
    case isFalse =>
      obtain ⟨walk, walked, returned⟩ := bind_eq_ok.mp returned
      have same := (parseExtensions_outline walked).trans
        ((setExtensionTypes_outline _).trans kept)
      split at returned
      case isTrue =>
        obtain rfl := Except.ok.inj returned
        exact judged_outline.trans same
      case isFalse =>
        obtain rfl := Except.ok.inj returned
        exact same
  case isFalse =>
    obtain rfl := Except.ok.inj returned
    exact kept

end Outline

theorem u16_overrun (bytes : List UInt8)
    : ({ rest := bytes } : TlsReader).u16.2.overrun = decide (bytes.length < 2) := by
  match bytes with
  | [] => rfl
  | [_] => rfl
  | _ :: _ :: rest => simp [TlsReader.u16, TlsReader.u8, TlsReader.remaining]

/-- A body without a version does not parse. -/
theorem parseHello_short {client : Bool} {body : List UInt8} {handshake : TlsHandshake Cert}
    (short : body.length < 2)
    : parseHello limits client body handshake = .ok { parsed := false, handshake } := by
  unfold parseHello
  dsimp only
  rw [u16_overrun, if_pos (decide_eq_true short)]

/-- A hello keeps its outline, but for the version in its first two bytes. -/
theorem parseHello_outline {client : Bool} {body : List UInt8}
    {handshake : TlsHandshake Cert} {read : HelloRead Cert}
    (returned : parseHello limits client body handshake = .ok read)
    : read.handshake.outline client
      = (if body.length < 2 then handshake
          else handshake.withVersion client ({ rest := body } : TlsReader).u16.1).outline client := by
  by_cases short : body.length < 2
  · rw [parseHello_short short] at returned
    obtain rfl := Except.ok.inj returned
    rw [if_pos short]
  · unfold parseHello at returned
    dsimp only at returned
    rw [u16_overrun, if_neg (by simpa using short)] at returned
    rw [if_neg short]
    split at returned
    case isTrue =>
      split at returned
      case isTrue =>
        obtain rfl := Except.ok.inj returned
        rfl
      case isFalse =>
        split at returned
        case h_1 =>
          obtain rfl := Except.ok.inj returned
          rfl
        case h_2 => exact parseOffers_outline returned
    case isFalse =>
      obtain rfl := Except.ok.inj returned
      rfl

/-! ### What a row takes from a hello -/

/-- The columns of a row that only a ClientHello supplies. -/
structure ClientFields where
  hasSni : Bool := false
  sni : List UInt8 := []
  hasClientVersion : Bool := false
  clientVersion : UInt16 := 0
  clientCipherSuites : TlsList UInt16 := {}
  clientExtensions : TlsList UInt16 := {}
  clientSupportedGroups : TlsList UInt16 := {}
  clientSignatureAlgorithms : TlsList UInt16 := {}
  clientSupportedVersions : TlsList UInt16 := {}
  clientEcPointFormats : TlsList UInt8 := {}
  clientAlpn : TlsList (List UInt8) := {}

/-- The columns of a row that only a ServerHello supplies. -/
structure ServerFields where
  hasNegotiatedVersion : Bool := false
  negotiatedVersion : UInt16 := 0
  hasServerLegacyVersion : Bool := false
  serverLegacyVersion : UInt16 := 0
  hasCipherSuite : Bool := false
  cipherSuite : UInt16 := 0
  serverExtensions : TlsList UInt16 := {}
  serverAlpn : TlsList (List UInt8) := {}
  serverSupportedVersions : TlsList UInt16 := {}

def TlsHandshake.clientFields (handshake : TlsHandshake Cert) : ClientFields where
  hasSni := handshake.hasSni
  sni := handshake.sni
  hasClientVersion := handshake.hasClientVersion
  clientVersion := handshake.clientVersion
  clientCipherSuites := handshake.clientCipherSuites
  clientExtensions := handshake.clientExtensions
  clientSupportedGroups := handshake.clientSupportedGroups
  clientSignatureAlgorithms := handshake.clientSignatureAlgorithms
  clientSupportedVersions := handshake.clientSupportedVersions
  clientEcPointFormats := handshake.clientEcPointFormats
  clientAlpn := handshake.clientAlpn

def TlsHandshake.serverFields (handshake : TlsHandshake Cert) : ServerFields where
  hasNegotiatedVersion := handshake.hasNegotiatedVersion
  negotiatedVersion := handshake.negotiatedVersion
  hasServerLegacyVersion := handshake.hasServerLegacyVersion
  serverLegacyVersion := handshake.serverLegacyVersion
  hasCipherSuite := handshake.hasCipherSuite
  cipherSuite := handshake.cipherSuite
  serverExtensions := handshake.serverExtensions
  serverAlpn := handshake.serverAlpn
  serverSupportedVersions := handshake.serverSupportedVersions

/-- What a row tells of its hellos: the sides seen, their columns, whether they were judged for
resumption, and their number.
-/
structure Shown where
  hasClientHello : Bool := false
  hasServerHello : Bool := false
  client : ClientFields := {}
  server : ServerFields := {}
  hasResumed : Bool := false
  number : Nat := 0

def TlsHandshake.shown (handshake : TlsHandshake Cert) : Shown where
  hasClientHello := handshake.hasClientHello
  hasServerHello := handshake.hasServerHello
  client := handshake.clientFields
  server := handshake.serverFields
  hasResumed := handshake.hasResumed
  number := handshake.handshakeNumber

section Row

variable {handshake : TlsHandshake Cert} {client : Direction Cert}
variable {server : Option (Direction Cert)} {index : Nat}

theorem extended_shown (last : PacketStamp)
    : (handshake.extended last).shown = handshake.shown := by
  unfold TlsHandshake.extended
  split <;> rfl

theorem setChain_shown (chain : TlsList (TlsCertificate Cert))
    : (handshake.setChain chain).shown = handshake.shown := by
  unfold TlsHandshake.setChain
  split <;> rfl

theorem overCertificateLimit_shown : handshake.overCertificateLimit.shown = handshake.shown := by
  unfold TlsHandshake.overCertificateLimit
  split <;> rfl

theorem defaultStatus_shown (status : TlsStatus) (error : String)
    : (handshake.defaultStatus status error).shown = handshake.shown := by
  unfold TlsHandshake.defaultStatus
  split <;> rfl

theorem withStatus_shown
    : (handshake.withStatus client server index).shown = handshake.shown := by
  unfold TlsHandshake.withStatus
  dsimp only
  rw [defaultStatus_shown]
  split
  · split <;> split <;> simp only [defaultStatus_shown]
  · split <;> simp only [defaultStatus_shown]

theorem withStreams_shown : (handshake.withStreams client server).shown = handshake.shown := by
  unfold TlsHandshake.withStreams
  dsimp only
  cases server with
  | none =>
    dsimp only
    split <;> rfl
  | some server =>
    dsimp only
    split <;> split <;> rfl

theorem spanning_shown (hasClient : Bool) (first last : PacketStamp)
    : (handshake.spanning hasClient first last).shown = handshake.shown := by
  unfold TlsHandshake.spanning
  split
  · rfl
  · exact extended_shown last

/-- Joining a ServerHello shows it beside what the row told before. -/
theorem mergeServer_shown (source : Direction Cert) (hello : TlsHandshake Cert)
    (hasClient : Bool)
    : (mergeServer source hello hasClient handshake).shown
      = { handshake.shown with hasServerHello := true, server := hello.serverFields } := by
  rw [mergeServer, defaultStatus_shown, spanning_shown]
  rfl

theorem entryOf_eq_some {entry : TlsHandshake Cert} (found : entryOf server index = some entry)
    : ∃ source, server = some source ∧ source.handshakes[index]? = some entry :=
  Option.bind_eq_some_iff.mp found

/-- What two entries show when they are joined to the row of their place. -/
def joinedShown (asked answered : Option (TlsHandshake Cert)) (index : Nat) : Shown where
  hasClientHello := asked.isSome
  hasServerHello := answered.isSome
  client := (asked.map TlsHandshake.clientFields).getD {}
  server := (answered.map TlsHandshake.serverFields).getD {}
  number := index + 1

/-- A merged row shows the two entries it joins. -/
theorem mergeHellos_shown
    : (mergeHellos client server index).shown
      = joinedShown client.handshakes[index]? (entryOf server index) index := by
  unfold mergeHellos
  dsimp only
  cases server with
  | none => cases client.handshakes[index]? <;> rfl
  | some source =>
    cases found : entryOf (some source) index with
    | none => cases client.handshakes[index]? <;> rfl
    | some hello =>
      dsimp only
      rw [mergeServer_shown]
      cases client.handshakes[index]? <;> rfl

/-- A row shows its two entries, and its verdict on resumption. -/
theorem mergeRow_shown
    : { (mergeRow client server index).shown with hasResumed := false }
      = joinedShown client.handshakes[index]? (entryOf server index) index := by
  have hellos := @mergeHellos_shown _ client server index
  refine (congrArg TlsHandshake.shown mergeRow_joined).trans ?_
  exact congrArg (fun shown : Shown => { shown with hasResumed := false }) hellos

/-- A direction keeps one session id for each of its hellos. -/
def Direction.Aligned (direction : Direction Cert) : Prop :=
  direction.sessionIds.length = direction.handshakes.length

theorem Direction.Aligned.sessionId {direction : Direction Cert}
    (aligned : direction.Aligned) {entry : TlsHandshake Cert}
    (found : direction.handshakes[index]? = some entry)
    : ∃ sessionId, direction.sessionIds[index]? = some sessionId := by
  obtain ⟨inside, _⟩ := List.getElem?_eq_some_iff.mp found
  exact ⟨_, List.getElem?_eq_getElem (aligned ▸ inside)⟩

theorem withResumption_hasResumed (unjudged : handshake.hasResumed = false)
    : (handshake.withResumption client server index).hasResumed = true
      ↔ client.handshakes[index]? ≠ none ∧ entryOf server index ≠ none
        ∧ client.sessionIds[index]? ≠ none
        ∧ (server.bind fun source => source.sessionIds[index]?) ≠ none
        ∧ handshake.hasNegotiatedVersion = true ∧ handshake.negotiatedVersion ≠ tlsVersion13 := by
  unfold TlsHandshake.withResumption
  cases client.handshakes[index]? <;> cases entryOf server index <;>
    cases client.sessionIds[index]? <;>
    cases server.bind fun source => source.sessionIds[index]? <;> simp only [unjudged]
  case some.some.some.some =>
    split
    case isTrue judged => simp [judged]
    case isFalse known => simpa [unjudged] using known
  all_goals simp

/-- The row before the verdict on resumption. -/
theorem mergeRow_hasResumed_iff
    : (mergeRow client server index).hasResumed = true
      ↔ client.handshakes[index]? ≠ none
        ∧ (∃ answer, entryOf server index = some answer ∧ answer.hasNegotiatedVersion = true
          ∧ answer.negotiatedVersion ≠ tlsVersion13)
        ∧ client.sessionIds[index]? ≠ none
        ∧ (server.bind fun source => source.sessionIds[index]?) ≠ none := by
  have judged (row : TlsHandshake Cert)
      : (mergeWarnings client server client.handshakes[index]? (entryOf server index)
          (row.withStatus client server index)).hasResumed = row.hasResumed :=
    congrArg Shown.hasResumed withStatus_shown
  have unjudged
      : ((mergeHellos client server index).withStreams client server).hasResumed = false := by
    exact congrArg Shown.hasResumed (withStreams_shown.trans mergeHellos_shown)
  have fields : ((mergeHellos client server index).withStreams client server).serverFields
      = ((entryOf server index).map TlsHandshake.serverFields).getD {} := by
    exact congrArg Shown.server (withStreams_shown.trans mergeHellos_shown)
  rw [mergeRow, judged, withResumption_hasResumed unjudged]
  cases answered : entryOf server index with
  | none => simp
  | some answer =>
    rw [answered] at fields
    generalize (mergeHellos client server index).withStreams client server = row at fields
    have known : row.hasNegotiatedVersion = answer.hasNegotiatedVersion :=
      congrArg ServerFields.hasNegotiatedVersion fields
    have version : row.negotiatedVersion = answer.negotiatedVersion :=
      congrArg ServerFields.negotiatedVersion fields
    rw [known, version]
    simp only [Option.some.injEq, exists_eq_left', ne_eq, reduceCtorEq, not_false_eq_true,
      true_and]
    tauto

theorem mergeRow_hasResumed (asks : client.Aligned) (answers : ∀ source ∈ server, source.Aligned)
    : (mergeRow client server index).hasResumed = true
      ↔ client.handshakes[index]? ≠ none
        ∧ ∃ answer, entryOf server index = some answer ∧ answer.hasNegotiatedVersion = true
          ∧ answer.negotiatedVersion ≠ tlsVersion13 := by
  rw [mergeRow_hasResumed_iff]
  refine ⟨fun resumed => ⟨resumed.1, resumed.2.1⟩, fun both => ?_⟩
  obtain ⟨asked, answer, answered, known⟩ := both
  obtain ⟨offer, offered⟩ := Option.ne_none_iff_exists'.mp asked
  obtain ⟨sessionId, offers⟩ := asks.sessionId offered
  obtain ⟨source, same, found⟩ := entryOf_eq_some answered
  obtain ⟨echoed, echoes⟩ := (answers source same).sessionId found
  refine ⟨asked, ⟨answer, answered, known⟩, by simp [offers], ?_⟩
  simp [same, echoes]

end Row

end PacketQuapture.Tls
