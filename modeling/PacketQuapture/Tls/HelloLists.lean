import PacketQuapture.Tls.HelloFields
import PacketQuapture.Tls.ListReaders

/-! The lists a hello's extensions carry, and what reading one extension reports.
Every list belongs to one extension of one side; reading an extension changes its own list, the
server name or the version, and nothing else.
-/

namespace PacketQuapture.Tls

open Library Reassembly

variable {Cert : Type} {limits : TlsHandshakeLimits Cert}

/-! ### The lists of a hello -/

/-- The lists that extensions carry. -/
inductive HelloList where
  | clientSupportedVersions
  | clientSupportedGroups
  | clientSignatureAlgorithms
  | clientEcPointFormats
  | clientAlpn
  | serverSupportedVersions
  | serverAlpn
deriving DecidableEq, Repr

/-- The body of a ServerHello's supported_versions: one version. -/
def EncodesVersion (versions : List UInt16) (body : List UInt8) : Prop :=
  ∃ version, versions = [version] ∧ body = bytes16 version.toNat

namespace HelloList

abbrev Item : HelloList → Type
  | clientSupportedVersions => UInt16
  | clientSupportedGroups => UInt16
  | clientSignatureAlgorithms => UInt16
  | clientEcPointFormats => UInt8
  | clientAlpn => List UInt8
  | serverSupportedVersions => UInt16
  | serverAlpn => List UInt8

/-- Whether a ClientHello carries the list. -/
def ofClient : HelloList → Bool
  | serverSupportedVersions => false
  | serverAlpn => false
  | _ => true

/-- The type of the extension that carries the list. -/
def type : HelloList → UInt16
  | clientSupportedVersions => tlsExtensionSupportedVersions
  | clientSupportedGroups => extensionSupportedGroups
  | clientSignatureAlgorithms => extensionSignatureAlgorithms
  | clientEcPointFormats => extensionEcPointFormats
  | clientAlpn => extensionAlpn
  | serverSupportedVersions => tlsExtensionSupportedVersions
  | serverAlpn => extensionAlpn

/-- How an extension body encodes the list. -/
def Encodes : (list : HelloList) → List list.Item → List UInt8 → Prop
  | clientSupportedVersions => EncodesCodes 1
  | clientSupportedGroups => EncodesCodes 2
  | clientSignatureAlgorithms => EncodesCodes 2
  | clientEcPointFormats => EncodesFormats
  | clientAlpn => EncodesNames true
  | serverSupportedVersions => EncodesVersion
  | serverAlpn => EncodesNames false

/-- The list on a row. -/
def get (handshake : TlsHandshake Cert) : (list : HelloList) → TlsList list.Item
  | clientSupportedVersions => handshake.clientSupportedVersions
  | clientSupportedGroups => handshake.clientSupportedGroups
  | clientSignatureAlgorithms => handshake.clientSignatureAlgorithms
  | clientEcPointFormats => handshake.clientEcPointFormats
  | clientAlpn => handshake.clientAlpn
  | serverSupportedVersions => handshake.serverSupportedVersions
  | serverAlpn => handshake.serverAlpn

def set (handshake : TlsHandshake Cert)
    : (list : HelloList) → TlsList list.Item → TlsHandshake Cert
  | clientSupportedVersions, value => { handshake with clientSupportedVersions := value }
  | clientSupportedGroups, value => { handshake with clientSupportedGroups := value }
  | clientSignatureAlgorithms, value => { handshake with clientSignatureAlgorithms := value }
  | clientEcPointFormats, value => { handshake with clientEcPointFormats := value }
  | clientAlpn, value => { handshake with clientAlpn := value }
  | serverSupportedVersions, value => { handshake with serverSupportedVersions := value }
  | serverAlpn, value => { handshake with serverAlpn := value }

theorem get_set (handshake : TlsHandshake Cert) (list : HelloList)
    (value : TlsList list.Item)
    : list.get (list.set handshake value) = value := by
  cases list <;> rfl

theorem get_set_of_ne (handshake : TlsHandshake Cert) {list other : HelloList}
    (different : other ≠ list) (value : TlsList list.Item)
    : other.get (list.set handshake value) = other.get handshake := by
  cases list <;> cases other <;> first | rfl | exact absurd rfl different

/-- The most entries the list is reported with; a ServerHello's supported_versions names one version
whatever the limit on list entries is.
-/
def cap (limits : TlsHandshakeLimits Cert) : HelloList → Nat
  | serverSupportedVersions => 1
  | _ => limits.maxListEntries

theorem cap_eq {list : HelloList} (capped : list ≠ serverSupportedVersions)
    : list.cap limits = limits.maxListEntries := by
  cases list <;> first | rfl | exact absurd rfl capped

/-- The bodies of the list's extension among a hello's. -/
def bodies (list : HelloList) (client : Bool) (extensions : List Extension) : List (List UInt8) :=
  if list.ofClient = client then
    (extensions.filter fun extension => extension.type = list.type).map Extension.body
  else
    []

theorem eq_of_type {list other : HelloList} (side : list.ofClient = other.ofClient)
    (type : list.type = other.type)
    : list = other := by
  revert side type
  cases list <;> cases other <;> decide

theorem bodies_append (list : HelloList) (client : Bool) (extensions : List Extension)
    (extension : Extension)
    : list.bodies client (extensions ++ [extension])
      = list.bodies client extensions
        ++ if list.ofClient = client ∧ extension.type = list.type then [extension.body] else [] := by
  unfold bodies
  by_cases side : list.ofClient = client
  · by_cases type : extension.type = list.type
    · simp [side, type]
    · simp [side, type]
  · simp [side]

end HelloList

/-! ### The server name -/

/-- What a row says of the server name: whether the extension was seen, the name and whether it is
malformed.
-/
def TlsHandshake.serverName (handshake : TlsHandshake Cert)
    : Bool × Bool × List UInt8 × Bool :=
  (handshake.sniSeen, handshake.hasSni, handshake.sni, handshake.sniMalformed)

/-- The server name of the bodies of server_name that a ClientHello carries. -/
def reportedName : List (List UInt8) → Bool × Bool × List UInt8 × Bool
  | [] => (false, false, [], false)
  | [body] =>
    let read := parseTlsServerName { rest := body }
    if read.framed then (true, read.name.isSome, read.name.getD [], false)
    else (true, false, [], true)
  | _ :: _ :: _ => (true, false, [], true)

/-- The bodies of server_name among a ClientHello's extensions. -/
def nameBodies (extensions : List Extension) : List (List UInt8) :=
  (extensions.filter fun extension => extension.type = tlsExtensionServerName).map Extension.body

/-- One more server_name: the first is taken, a second leaves the name unset. -/
theorem readServerName_reported {bodies : List (List UInt8)} {handshake : TlsHandshake Cert}
    (before : handshake.serverName = reportedName bodies) (body : List UInt8)
    : (readServerName { rest := body } handshake).serverName = reportedName (bodies ++ [body]) := by
  obtain ⟨seen, rest⟩ := Prod.mk.inj before
  unfold readServerName
  match bodies with
  | [] =>
    obtain ⟨_, rest⟩ := Prod.mk.inj rest
    obtain ⟨_, malformed⟩ := Prod.mk.inj rest
    rw [if_neg (by rw [seen]; exact Bool.false_ne_true), List.nil_append, reportedName]
    dsimp only
    split
    · rw [← malformed]
      rfl
    · rfl
  | [first] =>
    have taken : handshake.sniSeen = true := by
      rw [seen]
      dsimp only [reportedName]
      split <;> rfl
    rw [if_pos taken]
    rfl
  | _ :: _ :: _ =>
    rw [if_pos seen]
    rfl

/-! ### The version -/

/-- The version a row reports, if it knows one. -/
def TlsHandshake.version? (handshake : TlsHandshake Cert) : Option UInt16 :=
  if handshake.hasNegotiatedVersion then some handshake.negotiatedVersion else none

def Extension.selects (extension : Extension) : Bool :=
  extension.type = tlsExtensionSupportedVersions

/-- The one version in a supported_versions body of a ServerHello. -/
def Extension.version? (extension : Extension) : Option UInt16 :=
  if extension.body.length = 2 then some ({ rest := extension.body } : TlsReader).u16.1 else none

/-- The version of a ServerHello with these supported_versions extensions: the legacy one without
any, otherwise the only one's, if it is sound.
-/
def selected (legacy : UInt16) : List Extension → Option UInt16
  | [] => some legacy
  | [extension] => extension.version?
  | _ :: _ :: _ => none

theorem TlsReader.u16_exact (bytes : List UInt8)
    : (({ rest := bytes } : TlsReader).u16.2.overrun = true
        ∨ ({ rest := bytes } : TlsReader).u16.2.remaining ≠ 0) ↔ bytes.length ≠ 2 := by
  match bytes with
  | [] => simp [u16, u8, remaining, fail]
  | [_] => simp [u16, u8, remaining, fail]
  | _ :: _ :: rest => simp [u16, u8, remaining]

/-- One more extension that selects a version: the first is taken if it is sound, a second leaves
the version unknown.
-/
theorem selectVersion_version {legacy : UInt16} {extensions : List Extension}
    {extension : Extension} {handshake : TlsHandshake Cert}
    (seen : handshake.serverSupportedVersions.seen = true
      ↔ extensions.filter Extension.selects ≠ [])
    (selecting : extension.selects = true)
    : (selectVersion { rest := extension.body } handshake).version?
      = selected legacy ((extensions ++ [extension]).filter Extension.selects) := by
  have exact := TlsReader.u16_exact extension.body
  rw [List.filter_append, List.filter_singleton, selecting, cond_true]
  unfold selectVersion
  dsimp only
  cases before : extensions.filter Extension.selects with
  | nil =>
    have unseen : ¬ handshake.serverSupportedVersions.seen = true := fun found =>
      seen.mp found before
    rw [List.nil_append, selected, Extension.version?]
    by_cases sound : extension.body.length = 2
    · rw [if_neg, if_pos sound]
      · rfl
      · simpa [exact, unseen] using sound
    · rw [if_pos (.inr (exact.mpr sound)), if_neg sound]
      rfl
  | cons first rest =>
    rw [if_pos (.inl (seen.mpr (by rw [before]; exact List.cons_ne_nil _ _)))]
    cases rest <;> rfl

/-! ### One extension -/

/-- The cipher suites of a row, or the one selected. -/
def TlsHandshake.suites (handshake : TlsHandshake Cert)
    : TlsList UInt16 × Bool × UInt16 :=
  (handshake.clientCipherSuites, handshake.hasCipherSuite, handshake.cipherSuite)

/-- The versions a hello names before its extensions. -/
def TlsHandshake.versions (handshake : TlsHandshake Cert)
    : (Bool × UInt16) × Bool × UInt16 :=
  ((handshake.hasClientVersion, handshake.clientVersion), handshake.hasServerLegacyVersion,
    handshake.serverLegacyVersion)

theorem TlsHandshake.clientCipherSuites_of_suites {left right : TlsHandshake Cert}
    (same : left.suites = right.suites)
    : left.clientCipherSuites = right.clientCipherSuites :=
  congrArg Prod.fst same

/-- The status of a row and what it says is wrong. -/
def TlsHandshake.verdict (handshake : TlsHandshake Cert) : TlsStatus × String :=
  (handshake.status, handshake.error)

/-- Some extension's list is over its limit. -/
def Oversized (limits : TlsHandshakeLimits Cert) (client : Bool)
    (extensions : List Extension)
    : Prop :=
  ∃ (list : HelloList) (values : List list.Item) (body : List UInt8),
    body ∈ list.bodies client extensions ∧ list.Encodes values body
    ∧ list.cap limits < values.length

theorem Oversized.append {client : Bool} {extensions : List Extension}
    (oversized : Oversized limits client extensions) (extension : Extension)
    : Oversized limits client (extensions ++ [extension]) := by
  obtain ⟨list, values, body, member, encodes, beyond⟩ := oversized
  refine ⟨list, values, body, ?_, encodes, beyond⟩
  rw [list.bodies_append]
  exact List.mem_append_left _ member

/-- The row after some extensions: each list is reported for the bodies of its extension, and the
budget knows when one is over its limit.
-/
structure Offered (limits : TlsHandshakeLimits Cert) (client : Bool)
    (extensions : List Extension) (budget : ListBudget) (handshake : TlsHandshake Cert)
    : Prop where
  cap : budget.capEntries = limits.maxListEntries
  lists : ∀ list : HelloList, Reported (list.cap limits) list.Encodes
    (list.bodies client extensions) (list.get handshake)
  oversized : handshake.clientCipherSuites.overLimit = true → budget.exceeded = true
  exceeded : ∀ list : HelloList, (list.get handshake).overLimit = true → budget.exceeded = true
  spent : budget.exceeded = true →
    handshake.clientCipherSuites.overLimit = true ∨ Oversized limits client extensions
  name : client = true → handshake.serverName = reportedName (nameBodies extensions)
  version : client = false → handshake.version?
    = selected handshake.serverLegacyVersion (extensions.filter Extension.selects)

/-- What reading one extension leaves alone. -/
structure Opening where
  suites : TlsList UInt16 × Bool × UInt16
  versions : (Bool × UInt16) × Bool × UInt16
  clientExtensions : TlsList UInt16
  serverExtensions : TlsList UInt16
  verdict : TlsStatus × String

def TlsHandshake.opening (handshake : TlsHandshake Cert) : Opening where
  suites := handshake.suites
  versions := handshake.versions
  clientExtensions := handshake.clientExtensions
  serverExtensions := handshake.serverExtensions
  verdict := handshake.verdict

theorem TlsHandshake.extensionTypes_of_opening {left right : TlsHandshake Cert}
    (same : left.opening = right.opening) (client : Bool)
    : left.extensionTypes client = right.extensionTypes client := by
  cases client with
  | true => exact congrArg Opening.clientExtensions same
  | false => exact congrArg Opening.serverExtensions same

theorem TlsHandshake.serverLegacyVersion_of_versions {left right : TlsHandshake Cert}
    (same : left.versions = right.versions)
    : left.serverLegacyVersion = right.serverLegacyVersion :=
  congrArg (fun versions => versions.2.2) same

namespace Offered

variable {client : Bool} {extensions : List Extension} {extension : Extension}
variable {budget : ListBudget} {handshake : TlsHandshake Cert}

theorem congr {other : TlsHandshake Cert}
    (offered : Offered limits client extensions budget handshake)
    (lists : ∀ list : HelloList, list.get other = list.get handshake)
    (suites : other.suites = handshake.suites) (versions : other.versions = handshake.versions)
    (name : other.serverName = handshake.serverName) (version : other.version? = handshake.version?)
    : Offered limits client extensions budget other := by
  refine ⟨offered.cap, fun list => ?_, ?_, fun list => ?_, ?_,
    fun side => name.trans (offered.name side), fun side => ?_⟩
  · rw [lists]
    exact offered.lists list
  · rw [TlsHandshake.clientCipherSuites_of_suites suites]
    exact offered.oversized
  · rw [lists]
    exact offered.exceeded list
  · rw [TlsHandshake.clientCipherSuites_of_suites suites]
    exact offered.spent
  · rw [version, TlsHandshake.serverLegacyVersion_of_versions versions]
    exact offered.version side

theorem version_skip (other : ¬ (extension.selects = true ∧ client = false))
    (offered : Offered limits client extensions budget handshake)
    : client = false → handshake.version?
        = selected handshake.serverLegacyVersion
          ((extensions ++ [extension]).filter Extension.selects) := by
  intro side
  have skipped : (extensions ++ [extension]).filter Extension.selects
      = extensions.filter Extension.selects := by
    have type : ¬ extension.selects = true := fun selects => other ⟨selects, side⟩
    simp [type]
  rw [skipped]
  exact offered.version side

theorem nameBodies_skip (other : ¬ (extension.type = tlsExtensionServerName ∧ client = true))
    (offered : Offered limits client extensions budget handshake)
    : client = true → handshake.serverName = reportedName (nameBodies (extensions ++ [extension])) := by
  intro side
  have skipped : nameBodies (extensions ++ [extension]) = nameBodies extensions := by
    have type : ¬ extension.type = tlsExtensionServerName := fun type => other ⟨type, side⟩
    simp [nameBodies, type]
  rw [skipped]
  exact offered.name side

/-- An extension that carries no list. -/
theorem skip (offered : Offered limits client extensions budget handshake)
    {other : TlsHandshake Cert}
    (unlisted : ∀ list : HelloList, ¬ (list.ofClient = client ∧ extension.type = list.type))
    (lists : ∀ list : HelloList, list.get other = list.get handshake)
    (opening : other.opening = handshake.opening)
    (name : client = true →
      other.serverName = reportedName (nameBodies (extensions ++ [extension])))
    (version : other.version? = handshake.version?)
    : Offered limits client (extensions ++ [extension]) budget other := by
  have unselected : ¬ (extension.selects = true ∧ client = false) := fun both =>
    unlisted .serverSupportedVersions ⟨both.2.symm, of_decide_eq_true both.1⟩
  refine ⟨offered.cap, fun list => ?_, ?_, fun list => ?_, ?_, name, ?_⟩
  · rw [list.bodies_append, if_neg (unlisted list), List.append_nil, lists]
    exact offered.lists list
  · rw [TlsHandshake.clientCipherSuites_of_suites (congrArg Opening.suites opening)]
    exact offered.oversized
  · rw [lists]
    exact offered.exceeded list
  · rw [TlsHandshake.clientCipherSuites_of_suites (congrArg Opening.suites opening)]
    exact fun spent => (offered.spent spent).imp_right fun before => before.append extension
  · rw [version, TlsHandshake.serverLegacyVersion_of_versions (congrArg Opening.versions opening)]
    exact offered.version_skip unselected

/-- An extension that carries one list changes that list only. -/
theorem replace (offered : Offered limits client extensions budget handshake)
    {other : TlsHandshake Cert} {following : ListBudget} (list : HelloList)
    (side : list.ofClient = client) (type : extension.type = list.type)
    (reported : Reported (list.cap limits) list.Encodes
      (list.bodies client extensions ++ [extension.body]) (list.get other))
    (kept : ∀ another : HelloList, another ≠ list → another.get other = another.get handshake)
    (opening : other.opening = handshake.opening)
    (name : other.serverName = handshake.serverName)
    (version : client = false → other.version?
      = selected handshake.serverLegacyVersion
        ((extensions ++ [extension]).filter Extension.selects))
    (budget_eq : following
      = if (list.get other).overLimit then budget.exceed else budget)
    : Offered limits client (extensions ++ [extension]) following other := by
  have grows : following.capEntries = budget.capEntries
      ∧ (budget.exceeded = true → following.exceeded = true) := by
    rw [budget_eq]
    split
    · exact ⟨rfl, fun _ => rfl⟩
    · exact ⟨rfl, id⟩
  have unnamed : ¬ (extension.type = tlsExtensionServerName ∧ client = true) := by
    rintro ⟨names, _⟩
    revert type
    rw [names]
    cases list <;> decide
  refine ⟨grows.1.trans offered.cap, fun another => ?_, fun limit => ?_, fun another limit => ?_,
    fun spent => ?_, ?_, ?_⟩
  · rw [another.bodies_append]
    by_cases same : another = list
    · subst same
      rw [if_pos ⟨side, type⟩]
      exact reported
    · rw [if_neg, List.append_nil, kept another same]
      · exact offered.lists another
      · rintro ⟨ofSide, ofType⟩
        exact same (HelloList.eq_of_type (ofSide.trans side.symm) (ofType.symm.trans type))
  · rw [TlsHandshake.clientCipherSuites_of_suites (congrArg Opening.suites opening)] at limit
    exact grows.2 (offered.oversized limit)
  · by_cases same : another = list
    · subst same
      rw [budget_eq, if_pos limit]
      rfl
    · rw [kept another same] at limit
      exact grows.2 (offered.exceeded another limit)
  · rw [TlsHandshake.clientCipherSuites_of_suites (congrArg Opening.suites opening)]
    by_cases limit : (list.get other).overLimit = true
    · right
      obtain ⟨values, encodes, beyond⟩ := reported.of_overLimit limit
      refine ⟨list, values, extension.body, ?_, encodes, beyond⟩
      rw [list.bodies_append, if_pos ⟨side, type⟩]
      exact List.mem_append_right _ List.mem_cons_self
    · rw [budget_eq, if_neg limit] at spent
      exact (offered.spent spent).imp_right fun before => before.append extension
  · intro ofClient
    rw [name]
    exact offered.nameBodies_skip unnamed ofClient
  · rw [TlsHandshake.serverLegacyVersion_of_versions (congrArg Opening.versions opening)]
    exact version

/-- The version a ServerHello selects is its list of one version. -/
theorem selectVersion_reported {bodies : List (List UInt8)} (body : List UInt8)
    (before : Reported 1 EncodesVersion bodies handshake.serverSupportedVersions)
    : Reported 1 EncodesVersion (bodies ++ [body])
        (selectVersion { rest := body } handshake).serverSupportedVersions := by
  unfold selectVersion
  dsimp only
  by_cases seen : handshake.serverSupportedVersions.seen = true
  · rw [if_pos (.inl seen)]
    have occupied := List.length_pos_of_ne_nil (before.seen_iff.mp seen)
    refine .repeated ?_
    rw [List.length_append, List.length_singleton]
    omega
  · have none : bodies = [] := by
      by_contra some_body
      exact seen (before.seen_iff.mpr some_body)
    subst none
    rcases TlsReader.u16_cases body with ⟨cut, short⟩ | ⟨version, rest, rfl, read⟩
    · rw [if_pos (.inr (.inl cut))]
      refine .malformed ?_
      rintro _ ⟨version, rfl, rfl⟩
      exact absurd short (by simp [bytes16])
    · rw [read]
      dsimp only
      by_cases ended : rest = []
      · subst ended
        rw [if_neg (by simp [seen, TlsReader.remaining])]
        generalize handshake.serverSupportedVersions = list at before
        cases before with
        | absent => exact .present ⟨version, rfl, List.append_nil _⟩ (Nat.le_refl 1)
        | repeated several => exact absurd several (by decide)
      · rw [if_pos (.inr (.inr (by simpa [TlsReader.remaining] using ended)))]
        refine .malformed ?_
        rintro _ ⟨other, rfl, same⟩
        have lengths := congrArg List.length same
        simp [bytes16, ended] at lengths

theorem selectVersion_within {bodies : List (List UInt8)} {list : TlsList UInt16}
    (reported : Reported 1 EncodesVersion bodies list)
    : list.overLimit = false := by
  cases reported with
  | excessive encodes beyond =>
    obtain ⟨_, rfl, _⟩ := encodes
    exact absurd beyond (Nat.lt_irrefl 1)
  | _ => rfl

/-- An extension whose list a reader reports under the limit on list entries. -/
theorem listed (offered : Offered limits client extensions budget handshake) (list : HelloList)
    (capped : list ≠ .serverSupportedVersions) (side : list.ofClient = client)
    (type : extension.type = list.type) {read : Except TlsFailure (ListRead list.Item)}
    (reads : ∃ result, read = .ok result ∧ result.Reads list.Encodes extension.body budget)
    : ∃ result, (do
          let read ← unlessDuplicate budget (list.get handshake) read
          return (read.1, list.set handshake read.2))
          = .ok result
        ∧ Offered limits client (extensions ++ [extension]) result.1 result.2
        ∧ result.2.opening = handshake.opening := by
  have cap : list.cap limits = budget.capEntries :=
    (HelloList.cap_eq capped).trans offered.cap.symm
  obtain ⟨result, returned, reported, budget_eq⟩ :=
    unlessDuplicate_reports (cap ▸ offered.lists list) reads
  rw [returned, ok_bind]
  have opening : (list.set handshake result.2).opening = handshake.opening := by
    cases list <;> rfl
  have unselected : ¬ (extension.selects = true ∧ client = false) := by
    rintro ⟨selects, rfl⟩
    refine capped (HelloList.eq_of_type side ?_)
    exact type.symm.trans (of_decide_eq_true selects)
  refine ⟨_, rfl, offered.replace list side type ?_ ?_ opening ?_ ?_ ?_, opening⟩
  · rw [list.get_set, cap]
    exact reported
  · exact fun _ different => HelloList.get_set_of_ne handshake different result.2
  · cases list <;> rfl
  · intro server
    refine Eq.trans ?_ (offered.version_skip unselected server)
    cases list <;> rfl
  · rw [list.get_set]
    exact budget_eq

/-- Every extension is read, and the row then reports one extension more. -/
theorem readExtension (offered : Offered limits client extensions budget handshake)
    (extension : Extension)
    : ∃ result, readExtension extension.type { rest := extension.body } client budget handshake
          = .ok result
        ∧ Offered limits client (extensions ++ [extension]) result.1 result.2
        ∧ result.2.opening = handshake.opening := by
  unfold Tls.readExtension
  by_cases names : extension.type = tlsExtensionServerName ∧ client = true
  · rw [if_pos names]
    obtain ⟨type, rfl⟩ := names
    have kept : ∀ list : HelloList, list.get (readServerName { rest := extension.body } handshake)
        = list.get handshake := by
      intro list
      unfold readServerName
      dsimp only
      split
      · cases list <;> rfl
      · split <;> cases list <;> rfl
    have opening : (readServerName { rest := extension.body } handshake).opening
        = handshake.opening := by
      unfold readServerName
      dsimp only
      split
      · rfl
      · split <;> rfl
    have version : (readServerName { rest := extension.body } handshake).version?
        = handshake.version? := by
      unfold readServerName
      dsimp only
      split
      · rfl
      · split <;> rfl
    refine ⟨_, rfl, offered.skip ?_ kept opening (fun side => ?_) version, opening⟩
    · rintro list ⟨_, ofType⟩
      revert ofType
      rw [type]
      cases list <;> decide
    · have body : nameBodies (extensions ++ [extension])
          = nameBodies extensions ++ [extension.body] := by simp [nameBodies, type]
      rw [body]
      exact readServerName_reported (offered.name side) extension.body
  rw [if_neg names]
  by_cases versions : extension.type = tlsExtensionSupportedVersions
  · rw [if_pos versions]
    unfold parseSupportedVersions
    cases client with
    | true =>
      rw [if_pos rfl]
      exact offered.listed .clientSupportedVersions nofun rfl versions
        (readCodes_exactly 1 extension.body budget)
    | false =>
      rw [if_neg Bool.false_ne_true]
      have list := selectVersion_reported extension.body (offered.lists .serverSupportedVersions)
      have opening : (selectVersion { rest := extension.body } handshake).opening
          = handshake.opening := by
        unfold selectVersion
        dsimp only
        split <;> rfl
      have seen := (offered.lists .serverSupportedVersions).seen_iff
      have version := @selectVersion_version _ handshake.serverLegacyVersion extensions extension
        handshake (seen.trans (not_congr List.map_eq_nil_iff)) (decide_eq_true versions)
      refine ⟨_, rfl, offered.replace .serverSupportedVersions rfl versions list ?_ opening ?_
        (fun _ => version) ?_, opening⟩
      · intro another other
        unfold selectVersion
        dsimp only
        split <;> cases another <;> first | rfl | exact absurd rfl other
      · unfold selectVersion
        dsimp only
        split <;> rfl
      · exact (if_neg (by rw [HelloList.get, selectVersion_within list]; decide)).symm
  rw [if_neg versions]
  by_cases groups : client = true ∧ extension.type = extensionSupportedGroups
  · rw [if_pos groups]
    obtain ⟨rfl, type⟩ := groups
    exact offered.listed .clientSupportedGroups nofun rfl type
      (readCodes_exactly 2 extension.body budget)
  rw [if_neg groups]
  by_cases algorithms : client = true ∧ extension.type = extensionSignatureAlgorithms
  · rw [if_pos algorithms]
    obtain ⟨rfl, type⟩ := algorithms
    exact offered.listed .clientSignatureAlgorithms nofun rfl type
      (readCodes_exactly 2 extension.body budget)
  rw [if_neg algorithms]
  by_cases formats : client = true ∧ extension.type = extensionEcPointFormats
  · rw [if_pos formats]
    obtain ⟨rfl, type⟩ := formats
    exact offered.listed .clientEcPointFormats nofun rfl type
      (readPointFormats_reads extension.body budget)
  rw [if_neg formats]
  by_cases alpn : extension.type = extensionAlpn
  · rw [if_pos alpn]
    cases client with
    | true =>
      rw [if_pos rfl]
      exact offered.listed .clientAlpn nofun rfl alpn (readAlpn_reads true extension.body budget)
    | false =>
      rw [if_neg Bool.false_ne_true]
      exact offered.listed .serverAlpn nofun rfl alpn (readAlpn_reads false extension.body budget)
  · rw [if_neg alpn]
    refine ⟨_, rfl, offered.skip ?_ (fun _ => rfl) rfl (offered.nameBodies_skip names) rfl,
      rfl⟩
    rintro list ⟨side, type⟩
    cases list with
    | clientSupportedVersions => exact versions type
    | clientSupportedGroups => exact groups ⟨side.symm, type⟩
    | clientSignatureAlgorithms => exact algorithms ⟨side.symm, type⟩
    | clientEcPointFormats => exact formats ⟨side.symm, type⟩
    | clientAlpn => exact alpn type
    | serverSupportedVersions => exact versions type
    | serverAlpn => exact alpn type

theorem setTypes (offered : Offered limits client extensions budget handshake)
    (types : TlsList UInt16)
    : Offered limits client extensions budget (handshake.setExtensionTypes client types) := by
  refine offered.congr (fun list => ?_) ?_ ?_ ?_ ?_
  · cases client <;> cases list <;> rfl
  all_goals cases client <;> rfl

end Offered

end PacketQuapture.Tls
