import PacketQuapture.Tls.CertificateBudget
import PacketQuapture.Tls.NegotiatedVersion
import PacketQuapture.Tls.Roles

/-! The lists a direction's hellos are reported with, against the messages they were read from.
A list is reported in full or not at all, but for the version a ServerHello selects: it is taken
whatever the limit on list entries is.
-/

namespace PacketQuapture.Tls

open Library Reassembly

variable {Cert : Type} {x509 : X509Parser Cert}
variable {limits : TlsHandshakeLimits Cert}

/-! ### The messages of a direction -/

/-- A hello and the Certificate messages that follow it. -/
structure Sent where
  client : Bool
  body : List UInt8
  certificates : List (List UInt8) := []

/-- One more Certificate message: it follows the latest hello. -/
def attach (body : List UInt8) (sent : List Sent) : List Sent :=
  sent.dropLast ++ sent.getLast?.toList.map fun latest =>
    { latest with certificates := latest.certificates ++ [body] }

/-- The hellos of some messages, of which a direction takes only so many. -/
def gather (maxHandshakes : Nat) (sent : List Sent) : List Announced → List Sent
  | [] => sent
  | message :: rest =>
    if message.type = tlsHandshakeClientHello ∨ message.type = tlsHandshakeServerHello then
      if maxHandshakes ≤ sent.length then sent
      else
        gather maxHandshakes
          (sent ++
            [{ client := decide (message.type = tlsHandshakeClientHello), body := message.body }])
          rest
    else if message.type = tlsHandshakeCertificate then
      gather maxHandshakes (attach message.body sent) rest
    else
      gather maxHandshakes sent rest

/-- The hellos that some handshake bytes hold, each with its Certificate messages. -/
def transcript (limits : TlsHandshakeLimits Cert) (bytes : List UInt8) : List Sent :=
  gather limits.maxHandshakes [] (framed limits bytes)

theorem attach_append (body : List UInt8) (before : List Sent) (latest : Sent)
    : attach body (before ++ [latest])
      = before ++ [{ latest with certificates := latest.certificates ++ [body] }] := by
  simp [attach]

/-! ### Whole lists -/

/-- A list with at most one of its flags, whose values are there only with the list and within its
limit.
-/
structure TlsList.Sound {α : Type} (limit : Nat) (list : TlsList α) : Prop where
  present : list.present = true → list.malformed = false ∧ list.overLimit = false
  malformed : list.malformed = true → list.overLimit = false
  unlisted : list.present = false → list.values = []
  limited : list.values.length ≤ limit

/-- A list that is there holds all that the only body of its kind encodes; of several it is
malformed.
-/
structure TlsList.Whole {α : Type} (Encodes : List α → List UInt8 → Prop)
    (bodies : List (List UInt8)) (list : TlsList α)
    : Prop where
  values : list.present = true → ∃ body, bodies = [body] ∧ Encodes list.values body
  repeated : 2 ≤ bodies.length → list.malformed = true

section Lists

variable {α : Type} {limit : Nat} {Encodes : List α → List UInt8 → Prop}
variable {bodies : List (List UInt8)} {list : TlsList α}

theorem TlsList.sound_blank (limit : Nat) : ({} : TlsList α).Sound limit :=
  ⟨nofun, nofun, fun _ => rfl, Nat.zero_le _⟩

theorem TlsList.sound_broken (limit : Nat) : (TlsList.broken : TlsList α).Sound limit :=
  ⟨nofun, fun _ => rfl, fun _ => rfl, Nat.zero_le _⟩

theorem TlsList.sound_excessive (limit : Nat) : (TlsList.excessive : TlsList α).Sound limit :=
  ⟨nofun, nofun, fun _ => rfl, Nat.zero_le _⟩

theorem TlsList.sound_listed {values : List α} (within : values.length ≤ limit)
    : (TlsList.listed values).Sound limit :=
  ⟨fun _ => ⟨rfl, rfl⟩, nofun, nofun, within⟩

theorem TlsList.whole_broken : (TlsList.broken : TlsList α).Whole Encodes bodies :=
  ⟨nofun, fun _ => rfl⟩

theorem Reported.sound {cap : Nat} (reported : Reported cap Encodes bodies list)
    (within : list.values.length ≤ limit)
    : list.Sound limit := by
  cases reported with
  | absent => exact TlsList.sound_blank limit
  | present => exact TlsList.sound_listed within
  | excessive => exact TlsList.sound_excessive limit
  | malformed => exact TlsList.sound_broken limit
  | repeated => exact TlsList.sound_broken limit

theorem Reported.length_le {cap : Nat} (reported : Reported cap Encodes bodies list)
    : list.values.length ≤ cap := by
  cases reported with
  | present _ within => exact within
  | _ => exact Nat.zero_le _

theorem Reported.whole {cap : Nat} (reported : Reported cap Encodes bodies list)
    : list.Whole Encodes bodies := by
  cases reported with
  | absent => exact ⟨nofun, fun several => absurd several (by decide)⟩
  | present encodes _ => exact ⟨fun _ => ⟨_, rfl, encodes⟩, fun several => absurd several (by simp)⟩
  | excessive => exact ⟨nofun, fun several => absurd several (by simp)⟩
  | malformed => exact TlsList.whole_broken
  | repeated => exact TlsList.whole_broken

end Lists

/-- The vectors of cipher suites a hello offers. -/
def HelloOffers.suiteBodies : HelloOffers → List (List UInt8)
  | client suites _ => [encodeVector 2 suites]
  | server .. => []

/-- The lists of an entry that its hello carries say all of the hello's form. -/
structure TlsHandshake.Lists (client : Bool) (form : HelloForm) (entry : TlsHandshake Cert)
    : Prop where
  suites : entry.clientCipherSuites.Whole (EncodesCodes 2) form.offers.suiteBodies
  types : (entry.extensionTypes client).present = true → form.excess = false
    ∧ (entry.extensionTypes client).values = form.extensions.map Extension.type
  lists : ∀ list : HelloList,
    (list.get entry).Whole list.Encodes (list.bodies client form.extensions)

/-- The entry reports no list of its hello. -/
structure TlsHandshake.Unlisted (entry : TlsHandshake Cert) : Prop where
  suites : entry.clientCipherSuites = {}
  types : ∀ side, entry.extensionTypes side = {}
  lists : ∀ list : HelloList, list.get entry = {}

/-- Some list of the entry is over its limit. -/
def TlsHandshake.OverLimit (entry : TlsHandshake Cert) : Prop :=
  entry.HelloOverLimit ∨ entry.serverCertificates.overLimit = true
    ∨ entry.clientCertificates.overLimit = true

/-- Every list of an entry is whole: it says all that the hello and its Certificate messages
encode, within the limit of its kind, or nothing. A hello that does not parse has no lists at all.
-/
structure TlsHandshake.Whole (x509 : X509Parser Cert)
    (limits : TlsHandshakeLimits Cert) (sent : Sent) (entry : TlsHandshake Cert)
    : Prop where
  suites : entry.clientCipherSuites.Sound limits.maxListEntries
  types : ∀ side, (entry.extensionTypes side).Sound limits.maxExtensions
  lists : ∀ list : HelloList, (list.get entry).Sound limits.maxListEntries
  certificates : entry.serverCertificates.Sound limits.maxCertificates
    ∧ entry.clientCertificates.Sound limits.maxCertificates
  parsed : ∀ form : HelloForm, form.Frames limits.maxExtensions sent.client sent.body →
    entry.status ≠ .invalid ∧ entry.Lists sent.client form
      ∧ entry.chain.Whole (EncodesChain x509 limits) sent.certificates
      ∧ entry.peerChain = {}
  refused : (∀ form : HelloForm, ¬ form.Frames limits.maxExtensions sent.client sent.body) →
    entry.status = .invalid ∧ entry.Unlisted ∧ entry.serverCertificates = {}
      ∧ entry.clientCertificates = {}
  limited : entry.OverLimit → entry.status = .limit ∨ entry.status = .invalid

/-- A ServerHello that selects a version among the extensions that are walked. -/
def Sent.SelectsVersion (limits : TlsHandshakeLimits Cert) (sent : Sent) : Prop :=
  sent.client = false ∧ ∃ form : HelloForm, form.Frames limits.maxExtensions false sent.body
    ∧ ∃ body version,
        HelloList.bodies .serverSupportedVersions false form.extensions = [body]
        ∧ EncodesVersion [version] body

/-! ### Entries and their messages -/

/-- What the Certificate messages after a hello that parsed leave on its entry. -/
structure Certified (x509 : X509Parser Cert) (limits : TlsHandshakeLimits Cert)
    (bodies : List (List UInt8)) (read : HelloRead Cert) (entry : TlsHandshake Cert)
    : Prop where
  status : entry.status = .unset ∨ entry.status = .limit
  limited : read.handshake.status = .limit ∨ entry.chain.overLimit = true → entry.status = .limit
  seen : entry.chain.seen = true ↔ bodies ≠ []
  sound : entry.chain.Sound limits.maxCertificates
  whole : entry.chain.Whole (EncodesChain x509 limits) bodies

/-- An entry has the role and columns of its hello and the chain of its Certificate messages. -/
structure Conveyed (x509 : X509Parser Cert) (limits : TlsHandshakeLimits Cert)
    (sent : Sent) (read : HelloRead Cert) (entry : TlsHandshake Cert)
    : Prop where
  roles : entry.hasClientHello = sent.client ∧ entry.hasServerHello = !sent.client
  supplies : Supplies limits sent.client sent.body read entry
  parsed : read.parsed = true → Certified x509 limits sent.certificates read entry
  refused : read.parsed = false → entry.status = .invalid ∧ entry.chain = {}

theorem status_setChain (handshake : TlsHandshake Cert)
    (chain : TlsList (TlsCertificate Cert))
    : (handshake.setChain chain).status = handshake.status := by
  unfold TlsHandshake.setChain
  split <;> rfl

theorem extended_kept (handshake : TlsHandshake Cert) (last : PacketStamp)
    : (handshake.extended last).status = handshake.status
      ∧ (handshake.extended last).chain = handshake.chain := by
  unfold TlsHandshake.extended
  split <;> exact ⟨rfl, rfl⟩

theorem TlsHandshake.chains (handshake : TlsHandshake Cert)
    : handshake.serverCertificates = handshake.chain
        ∧ handshake.clientCertificates = handshake.peerChain
      ∨ handshake.serverCertificates = handshake.peerChain
        ∧ handshake.clientCertificates = handshake.chain := by
  unfold chain peerChain
  cases handshake.hasServerHello with
  | true => exact .inl ⟨rfl, rfl⟩
  | false => exact .inr ⟨rfl, rfl⟩

theorem status_overCertificateLimit {handshake : TlsHandshake Cert}
    (status : handshake.status = .unset ∨ handshake.status = .limit)
    : handshake.overCertificateLimit.status = .limit := by
  unfold TlsHandshake.overCertificateLimit
  rcases status with unset | limit
  · rw [if_pos unset]
  · rw [if_neg (by rw [limit]; decide), limit]

namespace Conveyed

variable {sent : Sent} {read : HelloRead Cert} {entry : TlsHandshake Cert}

/-- A hello's entry, before any Certificate message. -/
theorem hello {client : Bool} {body : List UInt8} {result : TlsHandshake Cert × List UInt8}
    (returned : readHello limits client body = .ok result) (first last : PacketStamp)
    : ∃ read, Conveyed x509 limits { client, body } read { result.1 with first, last } := by
  have blank := readHello_blank returned
  have chain : ({ result.1 with first, last } : TlsHandshake Cert).chain = {} := by
    unfold TlsHandshake.chain
    dsimp only
    rw [blank.1, blank.2, ite_self]
  obtain ⟨read, parsed, shown⟩ := bind_eq_ok.mp returned
  obtain ⟨other, same, reports⟩ := parseHello_reports limits client body
  obtain rfl : read = other := Except.ok.inj (parsed.symm.trans same)
  cases shown
  have roles := parseHello_roles parsed
  refine ⟨read, ⟨?_, ?_⟩, ⟨parsed, rfl, rfl⟩, fun accepted => ?_, fun refused => ⟨?_, chain⟩⟩
  · dsimp only
    split <;> exact roles.1
  · dsimp only
    split <;> exact roles.2.trans (by simp)
  · obtain ⟨form, _, reports⟩ := reports accepted
    have status : read.handshake.status = .unset ∨ read.handshake.status = .limit :=
      reports.verdict.imp (congrArg Prod.fst) (congrArg Prod.fst)
    refine ⟨?_, ?_, ?_, ?_, ?_⟩
    · dsimp only
      rw [if_pos accepted]
      exact status
    · rw [chain]
      dsimp only
      rw [if_pos accepted]
      rintro (limit | ⟨⟨⟩⟩)
      exact limit
    · rw [chain]
      exact ⟨nofun, fun some_body => absurd rfl some_body⟩
    · rw [chain]
      exact TlsList.sound_blank _
    · rw [chain]
      exact ⟨nofun, fun several => absurd several (by simp)⟩
  · dsimp only
    rw [if_neg (by rw [refused]; exact Bool.false_ne_true)]
    rfl

theorem parsed_of_status (told : Conveyed x509 limits sent read entry)
    (status : entry.status ≠ .invalid)
    : read.parsed = true := by
  by_contra refused
  exact status (told.refused (Bool.eq_false_iff.mpr refused)).1

theorem ignored (told : Conveyed x509 limits sent read entry) (invalid : entry.status = .invalid)
    (certificates : List (List UInt8))
    : Conveyed x509 limits { sent with certificates } read entry := by
  refine ⟨told.roles, told.supplies, fun accepted => ?_, told.refused⟩
  rcases (told.parsed accepted).status with unset | limit
  · rw [invalid] at unset
    cases unset
  · rw [invalid] at limit
    cases limit

/-- A Certificate message is reported on the entry of the hello before it.
Witness: the first message fills the chain in or fails, any other breaks it.
-/
theorem certificates {body : List UInt8} {held : Nat} {result : CertificatesRead Cert}
    (told : Conveyed x509 limits sent read entry) (status : entry.status ≠ .invalid)
    (reads : result.Reads x509 limits body held entry.chain entry) (last : PacketStamp)
    : Conveyed x509 limits { sent with certificates := sent.certificates ++ [body] } read
        ((result.handshake.setChain result.chain).extended last) := by
  have accepted := told.parsed_of_status status
  have certified := told.parsed accepted
  have shown : ((result.handshake.setChain result.chain).extended last).shown = entry.shown := by
    rw [extended_shown, setChain_shown]
    rcases reads.handshake_eq with same | ⟨same, _⟩
    · rw [same]
    · rw [same, overCertificateLimit_shown]
  have limited : (read.handshake.status = .limit ∨ result.chain.overLimit = true) →
      result.handshake.status = .limit := by
    rintro (limit | excess)
    · have before := certified.limited (.inl limit)
      rcases reads.handshake_eq with same | ⟨same, _⟩
      · rw [same]
        exact before
      · rw [same]
        exact status_overCertificateLimit (.inr before)
    · cases reads with
      | excessive => exact status_overCertificateLimit certified.status
      | _ => cases excess
  have kept : result.handshake.status = .unset ∨ result.handshake.status = .limit := by
    rcases reads.handshake_eq with same | ⟨same, _⟩
    · rw [same]
      exact certified.status
    · rw [same]
      exact .inr (status_overCertificateLimit certified.status)
  have first (blank : entry.chain = {}) : sent.certificates = [] := by
    by_contra some_body
    have seen := certified.seen.mpr some_body
    rw [blank] at seen
    cases seen
  refine ⟨⟨(congrArg Shown.hasClientHello shown).trans told.roles.1,
    (congrArg Shown.hasServerHello shown).trans told.roles.2⟩, told.supplies.of_shown shown,
    fun _ => ?_, fun refused => ?_⟩
  · refine ⟨?_, ?_, ?_, ?_, ?_⟩
    · rw [(extended_kept _ _).1, status_setChain]
      exact kept
    · rw [(extended_kept _ _).1, (extended_kept _ _).2, status_setChain,
        TlsHandshake.chain_setChain]
      exact limited
    · rw [(extended_kept _ _).2, TlsHandshake.chain_setChain, reads.seen]
      exact ⟨fun _ => List.append_ne_nil_of_right_ne_nil _ (List.cons_ne_nil _ _), fun _ => rfl⟩
    · rw [(extended_kept _ _).2, TlsHandshake.chain_setChain]
      cases reads with
      | repeated => exact TlsList.sound_broken _
      | malformed => exact TlsList.sound_broken _
      | excessive => exact TlsList.sound_excessive _
      | whole _ _ few => exact TlsList.sound_listed few
    · rw [(extended_kept _ _).2, TlsHandshake.chain_setChain]
      cases reads with
      | repeated => exact TlsList.whole_broken
      | malformed => exact TlsList.whole_broken
      | excessive blank =>
        rw [first blank]
        exact ⟨nofun, fun several => absurd several (by simp)⟩
      | whole blank written =>
        rw [first blank]
        exact ⟨fun _ => ⟨body, rfl, written⟩, fun several => absurd several (by simp)⟩
  · rw [accepted] at refused
    cases refused

end Conveyed

/-! ### Whole entries -/

theorem HelloList.get_of_fields {left right : TlsHandshake Cert} (list : HelloList)
    (client : left.clientFields = right.clientFields)
    (server : left.serverFields = right.serverFields)
    : list.get left = list.get right := by
  cases list with
  | clientSupportedVersions => exact congrArg ClientFields.clientSupportedVersions client
  | clientSupportedGroups => exact congrArg ClientFields.clientSupportedGroups client
  | clientSignatureAlgorithms => exact congrArg ClientFields.clientSignatureAlgorithms client
  | clientEcPointFormats => exact congrArg ClientFields.clientEcPointFormats client
  | clientAlpn => exact congrArg ClientFields.clientAlpn client
  | serverSupportedVersions => exact congrArg ServerFields.serverSupportedVersions server
  | serverAlpn => exact congrArg ServerFields.serverAlpn server

theorem extensionTypes_of_fields {left right : TlsHandshake Cert} (side : Bool)
    (client : left.clientFields = right.clientFields)
    (server : left.serverFields = right.serverFields)
    : left.extensionTypes side = right.extensionTypes side := by
  cases side with
  | true => exact congrArg ClientFields.clientExtensions client
  | false => exact congrArg ServerFields.serverExtensions server

theorem Walked.length_le {room allowed : Nat} {bytes : List UInt8} {extensions : List Extension}
    {excess : Bool} (walked : Walked room allowed bytes extensions excess)
    : extensions.length ≤ allowed := by
  induction walked with
  | ended => exact Nat.zero_le _
  | limited => exact Nat.zero_le _
  | next _ _ _ ih => exact Nat.succ_le_succ ih

theorem HelloForm.Frames.length_le {limit : Nat} {client : Bool} {body : List UInt8}
    {form : HelloForm} (frames : form.Frames limit client body)
    : form.extensions.length ≤ limit := by
  obtain ⟨_, _, block⟩ := frames.block
  generalize form.extensions = extensions at block
  generalize form.excess = excess at block
  cases block with
  | absent => exact Nat.zero_le _
  | present _ walked => exact walked.length_le

namespace HelloRead.Reports

variable {client : Bool} {form : HelloForm} {read : HelloRead Cert}

theorem suites_reported (reports : read.Reports limits client form)
    : Reported limits.maxListEntries (EncodesCodes 2) form.offers.suiteBodies
        read.handshake.clientCipherSuites := by
  have told := reports.suites
  cases offers : form.offers with
  | client suites compression =>
    rw [offers] at told
    exact told
  | server suite compression =>
    rw [offers] at told
    rw [told.1]
    exact .absent

/-- Every list of a hello that parses is whole. -/
theorem lists_whole (reports : read.Reports limits client form)
    : read.handshake.Lists client form := by
  refine ⟨reports.suites_reported.whole, fun present => ?_, fun list => (reports.lists list).whole⟩
  rw [reports.types] at present ⊢
  split at present
  case isTrue => cases present
  case isFalse whole =>
    rw [if_neg whole]
    exact ⟨Bool.eq_false_iff.mpr whole, rfl⟩

theorem types_sound (reports : read.Reports limits client form)
    (few : form.extensions.length ≤ limits.maxExtensions) (side : Bool)
    : (read.handshake.extensionTypes side).Sound limits.maxExtensions := by
  by_cases own : side = client
  · rw [own, reports.types]
    split
    case isTrue => exact TlsList.sound_excessive _
    case isFalse => exact TlsList.sound_listed ((List.length_map ..).trans_le few)
  · rw [Bool.eq_not_of_ne own, reports.others]
    exact TlsList.sound_blank _

/-- The only list that can outgrow the limit is the version a ServerHello selects. -/
theorem lists_sound_iff (reports : read.Reports limits client form)
    : (∀ list : HelloList, (list.get read.handshake).Sound limits.maxListEntries)
      ↔ (limits.maxListEntries = 0 → ∀ body version,
          HelloList.bodies .serverSupportedVersions client form.extensions = [body] →
            ¬ EncodesVersion [version] body) := by
  have selected := reports.lists .serverSupportedVersions
  constructor
  · intro sound none body version only encodes
    rw [only] at selected
    have listed := selected.eq_listed (fun others written => ?_) encodes (Nat.le_refl 1)
    · have limited := (sound .serverSupportedVersions).limited
      rw [listed, none] at limited
      exact absurd limited (by simp [TlsList.listed])
    · obtain ⟨left, rfl, written⟩ := written
      obtain ⟨right, same, encoded⟩ := encodes
      obtain rfl : version = right := by simpa using same
      have read := congrArg (fun bytes => ({ rest := bytes ++ [] } : TlsReader).u16.1)
        (encoded.symm.trans written)
      simp only [TlsReader.u16_bytes16, UInt16.ofNat_toNat] at read
      rw [read]
  · intro unselected list
    refine (reports.lists list).sound ?_
    by_cases capped : list = .serverSupportedVersions
    · subst capped
      cases entries : limits.maxListEntries with
      | succ more => exact selected.length_le.trans (Nat.succ_le_succ (Nat.zero_le _))
      | zero =>
        by_cases present : (HelloList.get read.handshake .serverSupportedVersions).present = true
        case pos =>
          obtain ⟨body, only, version, values, encoded⟩ := selected.whole.values present
          exact absurd ⟨version, rfl, encoded⟩ (unselected entries body version only)
        case neg =>
          have sound := selected.sound (Nat.le_refl _)
          rw [sound.unlisted (Bool.eq_false_iff.mpr present)]
          exact Nat.zero_le _
    · exact (reports.lists list).length_le.trans_eq (HelloList.cap_eq capped)

end HelloRead.Reports

namespace Conveyed

variable {sent : Sent} {read : HelloRead Cert} {entry : TlsHandshake Cert}

theorem frames_parsed {form : HelloForm} (told : Conveyed x509 limits sent read entry)
    (frames : form.Frames limits.maxExtensions sent.client sent.body)
    : read.Reports limits sent.client form := by
  obtain ⟨_, same, reports⟩ := frames.parseHello
  obtain rfl := Except.ok.inj (same.symm.trans told.supplies.returned)
  exact reports

/-- A hello that parses is framed as one. -/
theorem exists_frames (told : Conveyed x509 limits sent read entry) (accepted : read.parsed = true)
    : ∃ form : HelloForm, form.Frames limits.maxExtensions sent.client sent.body
        ∧ read.Reports limits sent.client form := by
  obtain ⟨_, same, framed⟩ := parseHello_reports limits sent.client sent.body
  obtain rfl := Except.ok.inj (same.symm.trans told.supplies.returned)
  exact framed accepted

/-- The entry of a refused hello has no lists. -/
theorem whole_refused (told : Conveyed x509 limits sent read entry) (tidy : entry.Tidy)
    (refused : read.parsed = false)
    : entry.Whole x509 limits sent := by
  have client := told.supplies.client
  have server := told.supplies.server
  rw [refused, if_neg Bool.false_ne_true] at client server
  have unlisted : entry.Unlisted := by
    refine ⟨congrArg ClientFields.clientCipherSuites client, fun side => ?_, fun list => ?_⟩
    · rw [extensionTypes_of_fields side client server]
      cases side <;> rfl
    · rw [list.get_of_fields client server]
      cases list <;> rfl
  obtain ⟨status, chain⟩ := told.refused refused
  have certificates : entry.serverCertificates = {} ∧ entry.clientCertificates = {} := by
    rcases entry.chains with ⟨own, peer⟩ | ⟨peer, own⟩
    · exact ⟨own.trans chain, peer.trans tidy.peer⟩
    · exact ⟨peer.trans tidy.peer, own.trans chain⟩
  refine ⟨?_, fun side => ?_, fun list => ?_, ⟨?_, ?_⟩, fun form frames => ?_,
    fun _ => ⟨status, unlisted, certificates⟩, fun _ => .inr status⟩
  · rw [unlisted.suites]
    exact TlsList.sound_blank _
  · rw [unlisted.types]
    exact TlsList.sound_blank _
  · rw [unlisted.lists]
    exact TlsList.sound_blank _
  · rw [certificates.1]
    exact TlsList.sound_blank _
  · rw [certificates.2]
    exact TlsList.sound_blank _
  · have parsed := (told.frames_parsed frames).parsed
    rw [refused] at parsed
    cases parsed

/-- The lists of an entry are whole unless its hello selects a version under a limit of no entries.
-/
theorem whole_iff (told : Conveyed x509 limits sent read entry) (tidy : entry.Tidy)
    : entry.Whole x509 limits sent
      ↔ (limits.maxListEntries = 0 → ¬ sent.SelectsVersion limits) := by
  by_cases accepted : read.parsed = true
  case neg =>
    have refused := Bool.eq_false_iff.mpr accepted
    refine ⟨fun _ _ => ?_, fun _ => told.whole_refused tidy refused⟩
    rintro ⟨side, form, frames, _⟩
    rw [← side] at frames
    exact accepted (told.frames_parsed frames).parsed
  case pos =>
    have client := told.supplies.client
    have server := told.supplies.server
    rw [if_pos accepted] at client server
    have certified := told.parsed accepted
    obtain ⟨form, frames, reports⟩ := told.exists_frames accepted
    have get (list : HelloList) := list.get_of_fields client server
    have types (side : Bool) := extensionTypes_of_fields side client server
    have suites : entry.clientCipherSuites = read.handshake.clientCipherSuites :=
      congrArg ClientFields.clientCipherSuites client
    have sound := reports.lists_sound_iff
    constructor
    · rintro whole none ⟨side, other, framed, body, version, only, encodes⟩
      rw [← side] at framed only
      have lists := (told.frames_parsed framed).lists_sound_iff.mp fun list => by
        rw [← get list]
        exact whole.lists list
      exact lists none body version only encodes
    · intro unselected
      refine ⟨?_, ?_, ?_, ?_, ?_, ?_, ?_⟩
      · rw [suites]
        exact reports.suites_reported.sound reports.suites_reported.length_le
      · intro side
        rw [types side]
        exact reports.types_sound frames.length_le side
      · intro list
        rw [get list]
        refine sound.mpr (fun none body version only encodes => ?_) list
        have side : sent.client = false := by
          by_contra other
          rw [Bool.not_eq_false] at other
          rw [other] at only
          cases only
        rw [side] at frames only
        exact unselected none ⟨side, form, frames, body, version, only, encodes⟩
      · have peer : entry.peerChain.Sound limits.maxCertificates := by
          rw [tidy.peer]
          exact TlsList.sound_blank _
        rcases entry.chains with ⟨server, client⟩ | ⟨server, client⟩
        · rw [server, client]
          exact ⟨certified.sound, peer⟩
        · rw [server, client]
          exact ⟨peer, certified.sound⟩
      · intro other framed
        have lists := (told.frames_parsed framed).lists_whole
        refine ⟨fun invalid => ?_, ⟨?_, ?_, fun list => ?_⟩, certified.whole, tidy.peer⟩
        · rcases certified.status with unset | limit
          · rw [invalid] at unset
            cases unset
          · rw [invalid] at limit
            cases limit
        · rw [suites]
          exact lists.suites
        · rw [types sent.client]
          exact lists.types
        · rw [get list]
          exact lists.lists list
      · intro unframed
        exact absurd frames (unframed form)
      · have hello (limit : entry.HelloOverLimit) : read.handshake.HelloOverLimit := by
          rcases limit with limit | ⟨side, limit⟩ | ⟨list, limit⟩
          · rw [suites] at limit
            exact .inl limit
          · rw [types side] at limit
            exact .inr (.inl ⟨side, limit⟩)
          · rw [get list] at limit
            exact .inr (.inr ⟨list, limit⟩)
        have chain (limit : entry.serverCertificates.overLimit = true
            ∨ entry.clientCertificates.overLimit = true)
            : entry.chain.overLimit = true := by
          have peer : ¬ entry.peerChain.overLimit = true := by
            rw [tidy.peer]
            exact Bool.false_ne_true
          rcases entry.chains with ⟨server, client⟩ | ⟨server, client⟩
          · rw [server, client] at limit
            exact limit.resolve_right peer
          · rw [server, client] at limit
            exact limit.resolve_left peer
        rintro (limit | limit)
        · exact .inl (certified.limited (.inl (reports.limited (hello limit))))
        · exact .inl (certified.limited (.inr (chain limit)))

end Conveyed

/-! ### Runs -/

/-- Some messages were told to the entries so far, and the rest are still to come. -/
structure Reading.Transcribed (x509 : X509Parser Cert)
    (limits : TlsHandshakeLimits Cert) (bytes : List UInt8) (reading : Reading Cert)
    : Prop where
  budgeted : reading.Budgeted limits
  told : ∃ sent, List.Forall₂ (fun hello entry => ∃ read, Conveyed x509 limits hello read entry) sent
      reading.direction.handshakes
    ∧ gather limits.maxHandshakes sent (framed limits (bytes.drop reading.offset))
      = transcript limits bytes

/-- The entries of a direction were all told their messages. -/
def Direction.Transcribed (x509 : X509Parser Cert)
    (limits : TlsHandshakeLimits Cert) (sent : List Sent) (direction : Direction Cert)
    : Prop :=
  List.Forall₂ (fun hello entry => entry.Tidy ∧ ∃ read, Conveyed x509 limits hello read entry) sent
    direction.handshakes

theorem exists_latest {related : Sent → TlsHandshake Cert → Prop} {sent : List Sent}
    {before : List (TlsHandshake Cert)} {entry : TlsHandshake Cert}
    (told : List.Forall₂ related sent (before ++ [entry]))
    : ∃ others latest, sent = others ++ [latest] ∧ List.Forall₂ related others before
        ∧ related latest entry := by
  have last := List.forall₂_drop_append sent before [entry] told
  cases latest : sent.drop before.length with
  | nil =>
    rw [latest] at last
    cases last
  | cons hello rest =>
    rw [latest] at last
    obtain ⟨head, ⟨⟩⟩ := List.forall₂_cons.mp last
    refine ⟨sent.take before.length, hello, ?_, List.forall₂_take_append sent before [entry] told,
      head⟩
    rw [← latest, List.take_append_drop]

namespace Reading.Transcribed

variable {bytes : List UInt8} {reading : Reading Cert}

theorem ended (transcribed : reading.Transcribed x509 limits bytes) {sent : List Sent}
    (told : List.Forall₂ (fun hello entry => ∃ read, Conveyed x509 limits hello read entry) sent
      reading.direction.handshakes)
    : reading.direction.Transcribed x509 limits sent := by
  have tidy := transcribed.budgeted.tidy
  unfold Direction.Transcribed
  generalize reading.direction.handshakes = entries at told tidy
  induction told with
  | nil => exact .nil
  | cons head _ ih =>
    exact .cons ⟨tidy _ List.mem_cons_self, head⟩
      (ih fun entry member => tidy entry (List.mem_cons_of_mem _ member))

end Reading.Transcribed

section Messages

variable {chunk : TcpStreamChunk} {bytes : List UInt8} {spans : List (Nat × Nat)}

/-- A pass tells one more message to the entries. -/
theorem messagePass_transcribed {raised : TlsFailure → Prop} {reading : Reading Cert}
    (located : Located chunk bytes spans raised) (inside : reading.offset ≤ bytes.length)
    (transcribed : reading.Transcribed x509 limits bytes)
    : Ensures (messagePass x509 limits chunk bytes spans reading)
        (Pass.Meets (Reading.Transcribed x509 limits bytes) fun ended =>
          ended.2.Transcribed x509 limits (transcript limits bytes))
        raised := by
  obtain ⟨sent, told, remaining⟩ := transcribed.told
  have count := told.length_eq
  have stopped (none : framed limits (bytes.drop reading.offset) = [])
      : reading.direction.Transcribed x509 limits (transcript limits bytes) := by
    rw [none, gather] at remaining
    rw [← remaining]
    exact transcribed.ended told
  refine messagePass_ensures inside
    (fun short => stopped (framed_short (by rwa [List.length_drop])))
    (fun _ large => stopped (framed_stop (.inl large)))
    (fun _ cut => stopped (framed_stop (.inr (by rwa [List.length_drop])))) ?_
  intro whole small
  rw [framed_message whole small] at remaining
  have stamped := located reading.offset ((announced (bytes.drop reading.offset)).length + 4)
    (Nat.succ_pos _) (by omega)
  generalize announced (bytes.drop reading.offset) = message at *
  rw [gather] at remaining
  split
  case isTrue hello =>
    rw [if_pos hello] at remaining
    unfold helloPass
    dsimp only
    split
    case isTrue full =>
      rw [if_pos (count ▸ full)] at remaining
      rw [← remaining]
      exact .ok (transcribed.ended told)
    case isFalse room =>
      rw [if_neg (count ▸ room)] at remaining
      obtain ⟨entry, returned⟩ := readHello_returns limits
        (decide (message.type = tlsHandshakeClientHello)) message.body
      rw [returned, ok_bind]
      refine Ensures.bind stamped fun stamps _ => .pure ?_
      refine ⟨transcribed.budgeted.push returned _ stamps, _, ?_, remaining⟩
      exact List.rel_append told (.cons (Conveyed.hello returned _ _) .nil)
  case isFalse other =>
    rw [if_neg other] at remaining
    split
    case isTrue certificate =>
      rw [if_pos certificate] at remaining
      unfold certificatePass
      split
      case h_1 none =>
        refine .ok ⟨transcribed.budgeted.moved _, _, ?_, remaining⟩
        dsimp only
        rcases List.eq_nil_or_concat reading.direction.handshakes with empty | ⟨before, entry, all⟩
        · rw [empty] at told ⊢
          cases told
          exact .nil
        · rw [List.concat_eq_append] at all
          have invalid : entry.status = .invalid := by
            by_contra status
            simp [Direction.certified?, all, status] at none
          rw [all] at told ⊢
          obtain ⟨others, last, rfl, same, read, entryTold⟩ := exists_latest told
          rw [attach_append]
          exact List.rel_append same (.cons ⟨read, entryTold.ignored invalid _⟩ .nil)
      case h_2 latest certified =>
        obtain ⟨read, parsed, reads⟩ := @Reading.Budgeted.parseCertificates _ x509 _ _ _
          transcribed.budgeted certified message.body
        rw [readCertificates, parsed, ok_bind, pure_bind]
        refine Ensures.bind stamped fun stamps _ => .pure ?_
        refine ⟨transcribed.budgeted.setLatest certified reads _ stamps.2, _, ?_, remaining⟩
        rw [Direction.handshakes_of_certified certified] at told
        obtain ⟨others, last, rfl, same, hello, entryTold⟩ := exists_latest told
        have status : latest.status ≠ .invalid := by
          simpa using (Option.filter_eq_some_iff.mp certified).2
        rw [attach_append]
        exact List.rel_append same (.cons ⟨hello, entryTold.certificates status reads _⟩ .nil)
    case isFalse skipped =>
      rw [if_neg skipped] at remaining
      exact .pure ⟨transcribed.budgeted.moved _, sent, told, remaining⟩

/-- The loop transcribes every message it is given. -/
theorem messageLoop_transcribed {raised : TlsFailure → Prop} {start : Direction Cert}
    (located : Located chunk bytes spans raised) (fresh : start.handshakes = [])
    : Ensures (messageLoop x509 limits chunk bytes spans (bytes.length + 1) { direction := start })
        (fun ended => ended.2.Transcribed x509 limits (transcript limits bytes)) raised := by
  have start : Reading.Transcribed x509 limits bytes { direction := start } :=
    ⟨.start fresh, [], by rw [fresh]; exact .nil, rfl⟩
  exact messageLoop_ensures (fun reading inside transcribed =>
    messagePass_transcribed located inside transcribed) (Nat.zero_le _) (Nat.lt_succ_self _) start

/-- The assertions of the list readers. -/
def listReaders : List AssertSite :=
  [.readCodes, .readPointFormats, .readAlpn, .parseExtensions, .parseCertificates]

/-- A run over the messages of a new direction fails no assertion of a list reader. It leaves every
list of every entry whole, unless lists may have no entries at all and a ServerHello among the
messages selects a version.
Witness: every pass tells its message to the entries, and an entry that was told its messages has
whole lists but for that version.
-/
theorem parseMessages_whole_iff (x509 : X509Parser Cert)
    (limits : TlsHandshakeLimits Cert) (chunk : TcpStreamChunk) (bytes : List UInt8)
    (spans : List (Nat × Nat)) (start : Direction Cert) (fresh : start.handshakes = [])
    : Ensures (parseMessages x509 limits chunk bytes spans start)
        (fun ended =>
          List.Forall₂ (fun sent entry => entry.Whole x509 limits sent) (transcript limits bytes)
              ended.2.handshakes
            ↔ (limits.maxListEntries = 0 →
                ∀ sent ∈ transcript limits bytes, ¬ sent.SelectsVersion limits))
        fun failure => ∀ site ∈ listReaders, failure ≠ .assertion site := by
  unfold parseMessages require
  split
  case isFalse =>
    refine .error fun site reader same => ?_
    cases same
    exact absurd reader (by decide)
  case isTrue =>
    have ensured := @messageLoop_transcribed _ x509 limits chunk bytes spans _ start
      (located_unlocated chunk bytes spans) fresh
    have decided (sent : Sent) (entry : TlsHandshake Cert)
        (told : entry.Tidy ∧ ∃ read, Conveyed x509 limits sent read entry)
        : entry.Whole x509 limits sent
          ↔ (limits.maxListEntries = 0 → ¬ sent.SelectsVersion limits) := by
      obtain ⟨tidy, read, told⟩ := told
      exact told.whole_iff tidy
    refine Ensures.mono ensured (fun ended transcribed => ?_) fun failure unlocated => ?_
    · refine (forall₂_iff_of_forall₂ decided transcribed).trans ?_
      exact ⟨fun whole none sent member => whole sent member none,
        fun unselected sent member none => unselected none sent member⟩
    · rcases unlocated with rfl | ⟨cause, rfl⟩
      · intro site reader same
        cases same
        exact absurd reader (by decide)
      · exact nofun

/-- A ServerHello that selects TLS 1.3, as one message. -/
def selectingMessage : List UInt8 :=
  encodeMessage tlsHandshakeServerHello ServerHello.padded13.encode

/-- The chunk that carries the message. -/
def selectingChunk : TcpStreamChunk where
  data := selectingMessage
  origins := [{ length := UInt32.ofNat selectingMessage.length }]

/-- When lists may have no entries, a selected version is reported nonetheless. -/
theorem parseMessages_uncapped
    : ∃ ended : Bool × Direction Unit,
        parseMessages noCertificates { maxListEntries := 0 } selectingChunk selectingMessage
            [(0, selectingMessage.length)] {} = .ok ended
        ∧ ended.2.handshakes.map TlsHandshake.serverSupportedVersions = [.listed [0x0304]]
        ∧ ¬ List.Forall₂ (fun sent entry => entry.Whole noCertificates { maxListEntries := 0 } sent)
            (transcript ({ maxListEntries := 0 } : TlsHandshakeLimits Unit) selectingMessage)
            ended.2.handshakes := by
  have shown : ((parseMessages noCertificates { maxListEntries := 0 } selectingChunk
      selectingMessage [(0, selectingMessage.length)] {}).map fun ended =>
        ended.2.handshakes.map TlsHandshake.serverSupportedVersions).toOption
      = some [.listed [0x0304]] := by
    decide +kernel
  cases returned : parseMessages noCertificates { maxListEntries := 0 } selectingChunk
      selectingMessage [(0, selectingMessage.length)] {} with
  | error failure =>
    rw [returned] at shown
    cases shown
  | ok ended =>
    rw [returned] at shown
    have versions : ended.2.handshakes.map TlsHandshake.serverSupportedVersions
        = [.listed [0x0304]] :=
      Option.some.inj shown
    refine ⟨ended, rfl, versions, fun whole => ?_⟩
    obtain ⟨entry, entries, version⟩ := List.map_eq_singleton_iff.mp versions
    rw [entries] at whole
    generalize transcript ({ maxListEntries := 0 } : TlsHandshakeLimits Unit) selectingMessage
      = sent at whole
    cases whole with
    | cons whole _ =>
      have limited := (whole.lists .serverSupportedVersions).limited
      rw [show HelloList.get entry .serverSupportedVersions = entry.serverSupportedVersions
        from rfl, version] at limited
      exact absurd limited (by decide)

/-- A run over one ServerHello under the default limits. -/
theorem parseMessages_whole_iff_selecting
    : ({} : Direction Unit).handshakes = []
      ∧ Ensures
          (parseMessages noCertificates {} selectingChunk selectingMessage
            [(0, selectingMessage.length)] {})
          (fun ended =>
            List.Forall₂ (fun sent entry => entry.Whole noCertificates {} sent)
                (transcript ({} : TlsHandshakeLimits Unit) selectingMessage) ended.2.handshakes
              ↔ (1024 = 0 → ∀ sent ∈ transcript ({} : TlsHandshakeLimits Unit) selectingMessage,
                  ¬ sent.SelectsVersion ({} : TlsHandshakeLimits Unit)))
          fun failure => ∀ site ∈ listReaders, failure ≠ .assertion site :=
  ⟨rfl, parseMessages_whole_iff noCertificates {} selectingChunk selectingMessage
    [(0, selectingMessage.length)] {} rfl⟩

end Messages

end PacketQuapture.Tls
