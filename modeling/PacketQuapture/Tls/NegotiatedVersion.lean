import PacketQuapture.Tls.HelloForm
import PacketQuapture.Tls.Malformed

/-! The version reported for a ServerHello.
Its legacy_version stands until the walk over the extensions reaches supported_versions, which it
does not past the limit on extensions.
-/

namespace PacketQuapture.Tls

open Library Reassembly

/-! ### The version the extensions select -/

variable {Cert : Type} {limits : TlsHandshakeLimits Cert}

theorem TlsHandshake.version?_eq_some {handshake : TlsHandshake Cert} {version : UInt16}
    : handshake.version? = some version
      ↔ handshake.hasNegotiatedVersion = true ∧ handshake.negotiatedVersion = version := by
  rw [TlsHandshake.version?]
  split
  case isTrue known => simp [known]
  case isFalse unknown => simp [unknown]

theorem selected_of_ne_nil {legacy version : UInt16} {extensions : List Extension}
    (some_extension : extensions ≠ []) (shown : selected legacy extensions = some version)
    : ∃ extension, extensions = [extension] ∧ extension.version? = some version := by
  cases extensions with
  | nil => exact absurd rfl some_extension
  | cons extension rest =>
    cases rest with
    | nil => exact ⟨extension, rfl, shown⟩
    | cons => cases shown

theorem selected_append_iff (legacy : UInt16) (within beyond : List Extension)
    : (∀ version, selected legacy within = some version →
          selected legacy (within ++ beyond) = some version)
      ↔ beyond = [] ∨ 1 < within.length
        ∨ (∃ extension, within = [extension] ∧ extension.body.length ≠ 2)
        ∨ within = [] ∧ ∃ extension, beyond = [extension]
          ∧ extension.version? = some legacy := by
  match within, beyond with
  | _, [] => simp
  | [], [extension] => simp [selected]
  | [], _ :: _ :: _ => simp [selected]
  | [extension], _ :: _ =>
    by_cases sound : extension.body.length = 2
    · simp [selected, Extension.version?, sound]
    · simp [selected, Extension.version?, sound]
  | _ :: _ :: _, _ :: _ => simp [selected]

/-! ### Encoded ServerHellos -/

namespace ServerHello

/-- The supported_versions extensions of the hello. -/
def selecting (hello : ServerHello) : List Extension :=
  (hello.extensions.getD []).filter Extension.selects

/-- Those the walk reaches. -/
def selectingWithin (limits : TlsHandshakeLimits Cert) (hello : ServerHello)
    : List Extension :=
  ((hello.extensions.getD []).take limits.maxExtensions).filter Extension.selects

/-- Those past the limit on extensions. -/
def selectingBeyond (limits : TlsHandshakeLimits Cert) (hello : ServerHello)
    : List Extension :=
  ((hello.extensions.getD []).drop limits.maxExtensions).filter Extension.selects

theorem selecting_eq (limits : TlsHandshakeLimits Cert) (hello : ServerHello)
    : hello.selecting = hello.selectingWithin limits ++ hello.selectingBeyond limits := by
  rw [selecting, selectingWithin, selectingBeyond, ← List.filter_append, List.take_append_drop]

/-- A TLS 1.3 hello: its one supported_versions extension names that version. -/
def IsTls13 (hello : ServerHello) : Prop :=
  ∃ extension, hello.selecting = [extension] ∧ extension.version? = some tlsVersion13

/-- The hello with the extensions a walk takes. -/
def form (limits : TlsHandshakeLimits Cert) (hello : ServerHello) : HelloForm where
  version := hello.legacyVersion
  random := hello.random
  sessionId := hello.sessionId
  offers := .server hello.cipherSuite hello.compression
  extensions := (hello.extensions.getD []).take limits.maxExtensions
  excess := decide (limits.maxExtensions < (hello.extensions.getD []).length)

theorem frames (limits : TlsHandshakeLimits Cert) (hello : ServerHello)
    : (hello.form limits).Frames limits.maxExtensions false hello.encode := by
  refine ⟨rfl, hello.sessionIdFits, trivial, encodeBlock hello.extensions, ?_,
    blockWalked_encodeBlock _ hello.extensionsFit⟩
  simp only [encode, form, HelloForm.opening, HelloOffers.encode, encodeVector, if_true,
    List.append_assoc, List.cons_append, List.nil_append]

theorem parse_encode (limits : TlsHandshakeLimits Cert) (hello : ServerHello)
    : ∃ read, parseHello limits false hello.encode { hasServerHello := true } = .ok read
        ∧ read.parsed = true
        ∧ read.handshake.version?
          = selected hello.legacyVersion (hello.selectingWithin limits) := by
  obtain ⟨read, returned, reports⟩ := (hello.frames limits).parseHello
  exact ⟨read, returned, reports.parsed, reports.version rfl⟩

/-- What the version reported for a hello must be. -/
structure Truthful (limits : TlsHandshakeLimits Cert) (hello : ServerHello)
    (read : HelloRead Cert)
    : Prop where
  supplied : hello.selecting ≠ [] → read.handshake.hasNegotiatedVersion = true →
    ∃ extension, hello.selecting = [extension]
      ∧ extension.version? = some read.handshake.negotiatedVersion
  legacy : hello.selecting = [] → read.handshake.hasNegotiatedVersion = true
    ∧ read.handshake.negotiatedVersion = hello.legacyVersion
  tls13 : hello.IsTls13 → read.handshake.hasNegotiatedVersion = true →
    read.handshake.negotiatedVersion = tlsVersion13
  unjudged : hello.IsTls13 → ∀ (directions : List (Direction Cert)) (origin : Origin)
    (entry : TlsHandshake Cert), origin.serverHalf directions = some entry →
      Supplies limits false hello.encode read entry → (origin.row directions).hasResumed = false

/-- When the limit on extensions does not change the version: no supported_versions lies past it,
those before it already leave the version unknown, or the only one names the legacy version.
-/
def SelectsWithin (limits : TlsHandshakeLimits Cert) (hello : ServerHello) : Prop :=
  hello.selectingBeyond limits = []
  ∨ 1 < (hello.selectingWithin limits).length
  ∨ (∃ extension, hello.selectingWithin limits = [extension] ∧ extension.body.length ≠ 2)
  ∨ hello.selectingWithin limits = []
    ∧ ∃ extension, hello.selectingBeyond limits = [extension]
      ∧ extension.version? = some hello.legacyVersion

/-- A version is truthful when it is what all the extensions select. -/
theorem truthful_iff {limits : TlsHandshakeLimits Cert} {hello : ServerHello}
    {read : HelloRead Cert} (parsed : read.parsed = true)
    (version : read.handshake.version?
      = selected hello.legacyVersion (hello.selectingWithin limits))
    : hello.Truthful limits read
      ↔ ∀ version, read.handshake.version? = some version →
          selected hello.legacyVersion hello.selecting = some version := by
  refine ⟨fun truthful reported shown => ?_, fun selects => ?_⟩
  · obtain ⟨known, rfl⟩ := TlsHandshake.version?_eq_some.mp shown
    by_cases plain : hello.selecting = []
    · rw [plain, selected, (truthful.legacy plain).2]
    · obtain ⟨extension, only, names⟩ := truthful.supplied plain known
      rw [only, selected, names]
  · have shown (known : read.handshake.hasNegotiatedVersion = true)
        : selected hello.legacyVersion hello.selecting = some read.handshake.negotiatedVersion :=
      selects _ (TlsHandshake.version?_eq_some.mpr ⟨known, rfl⟩)
    have tls13 (is13 : hello.IsTls13) (known : read.handshake.hasNegotiatedVersion = true)
        : read.handshake.negotiatedVersion = tlsVersion13 := by
      obtain ⟨extension, only, names⟩ := is13
      have found := shown known
      rw [only, selected, names] at found
      exact (Option.some.inj found).symm
    refine ⟨fun selecting known => ?_, fun plain => ?_, tls13, ?_⟩
    · exact selected_of_ne_nil selecting (shown known)
    · have within : hello.selectingWithin limits = [] :=
        (List.append_eq_nil_iff.mp ((hello.selecting_eq limits).symm.trans plain)).1
      rw [within, selected] at version
      exact TlsHandshake.version?_eq_some.mp version
    · intro is13 directions origin entry half supplies
      rw [← Bool.not_eq_true, Origin.row, mergeRow_hasResumed_iff]
      intro resumed
      obtain ⟨_, ⟨answer, answered, known, below⟩, _⟩ := resumed
      obtain rfl := Option.some.inj (half.symm.trans answered)
      have fields := supplies.server
      rw [parsed, if_pos rfl] at fields
      rw [show entry.hasNegotiatedVersion = read.handshake.hasNegotiatedVersion from
        congrArg ServerFields.hasNegotiatedVersion fields] at known
      rw [show entry.negotiatedVersion = read.handshake.negotiatedVersion from
        congrArg ServerFields.negotiatedVersion fields] at below
      exact below (tls13 is13 known)

/-- Every encoded ServerHello parses, and its version is truthful exactly when the limit on
extensions does not cut off a supported_versions that matters.
-/
theorem parse_encode_truthful (limits : TlsHandshakeLimits Cert) (hello : ServerHello)
    : ∃ read, parseHello limits false hello.encode { hasServerHello := true } = .ok read
        ∧ read.parsed = true
        ∧ (hello.Truthful limits read ↔ hello.SelectsWithin limits) := by
  obtain ⟨read, returned, parsed, version⟩ := hello.parse_encode limits
  refine ⟨read, returned, parsed, (truthful_iff parsed version).trans ?_⟩
  rw [version, hello.selecting_eq limits]
  exact selected_append_iff hello.legacyVersion _ _

/-- A TLS 1.3 ServerHello whose supported_versions follows another extension. -/
def padded13 : ServerHello :=
  { plainServerHello with
    cipherSuite := 0x1301
    extensions := some [⟨0x1234, []⟩, ⟨tlsExtensionSupportedVersions, bytes16 0x0304⟩]
    extensionsFit := by decide }

/-- With a limit of one extension a TLS 1.3 ServerHello is reported as TLS 1.2, and the row says
whether its session was resumed.
-/
theorem not_truthful_padded
    : padded13.IsTls13
      ∧ ((parseHello { maxExtensions := 1 } false padded13.encode { hasServerHello := true }).map
          fun read : HelloRead Unit =>
            (read.parsed, read.handshake.hasNegotiatedVersion,
              read.handshake.negotiatedVersion)).toOption
        = some (true, true, 0x0303)
      ∧ ((TlsHandshakeAssembler.report noCertificates { maxExtensions := 1 }
          [anchoredHello 1 1,
            streamOf { dstPort := 1 } true 2
              (encodeRecord (encodeMessage tlsHandshakeServerHello padded13.encode))]).map
          fun rows => rows.map fun row =>
            (row.hasNegotiatedVersion, row.negotiatedVersion, row.hasResumed)).toOption
        = some [(true, 0x0303, true)] := by
  refine ⟨⟨⟨tlsExtensionSupportedVersions, bytes16 0x0304⟩, ?_, ?_⟩, ?_, ?_⟩
  all_goals decide +kernel

end ServerHello

end PacketQuapture.Tls
