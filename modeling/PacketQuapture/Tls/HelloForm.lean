import PacketQuapture.Tls.HelloLists

/-! The form of a hello on the wire and the row it parses to.
A hello parses exactly when its bytes have the form; the row then reports each list as the bodies
of its extension say.
-/

namespace PacketQuapture.Tls

open Library Reassembly

variable {Cert : Type} {limits : TlsHandshakeLimits Cert}
variable {count : Nat} {bytes : List UInt8} {extensions : List Extension}

/-! ### The walk over the extensions -/

/-- The extensions a walk takes from bytes of which `room` belong to the extension list, when it may
take `allowed` of them; the flag says that it stopped at one more.
-/
inductive Walked : Nat → Nat → List UInt8 → List Extension → Bool → Prop
  | ended {room allowed : Nat} {bytes : List UInt8} (short : room < 4)
    : Walked room allowed bytes [] false
  | limited {room length : Nat} {type : UInt16} {rest : List UInt8} (fits : length < 2 ^ 16)
    (inside : 4 + length ≤ room)
    : Walked room 0 (bytes16 type.toNat ++ (bytes16 length ++ rest)) [] true
  | next {room allowed : Nat} {extension : Extension} {rest : List UInt8}
    {extensions : List Extension} {excess : Bool} (fits : extension.body.length < 2 ^ 16)
    (inside : 4 + extension.body.length ≤ room)
    (later : Walked (room - (4 + extension.body.length)) allowed rest extensions excess)
    : Walked room (allowed + 1) (extension.encode ++ rest) (extension :: extensions) excess

/-- What a sound walk leaves, from the row it started with. -/
structure ExtensionWalk.Reports (limits : TlsHandshakeLimits Cert) (client : Bool)
    (extensions : List Extension) (excess : Bool) (start : TlsHandshake Cert)
    (walk : ExtensionWalk Cert)
    : Prop where
  sound : walk.sound = true
  offered : ∃ budget, Offered limits client extensions budget walk.handshake
    ∧ walk.budget = if excess then budget.exceed else budget
  types : walk.handshake.extensionTypes client
    = if excess then .excessive else .listed (extensions.map Extension.type)
  others : walk.handshake.extensionTypes (!client) = start.extensionTypes (!client)
  suites : walk.handshake.suites = start.suites
  versions : walk.handshake.versions = start.versions
  verdict : walk.handshake.verdict = start.verdict

section Walk

variable {client : Bool} {total : Nat} {budget : ListBudget} {handshake : TlsHandshake Cert}
variable {before : List Extension}
variable {fuel consumed : Nat}
variable {rest : List UInt8}

theorem overrun_length {reader : TlsReader} (cut : reader.overrun = true) (lengthBytes : Nat)
    : (reader.length lengthBytes).2.overrun = true := by
  have next {reader : TlsReader} (cut : reader.overrun = true) : reader.u8.2.overrun = true := by
    rw [TlsReader.u8, if_pos (by simp [TlsReader.remaining, cut])]
    rfl
  unfold TlsReader.length
  split
  · exact next cut
  · exact next (next cut)

theorem extensionTypes_setExtensionTypes (types : TlsList UInt16)
    : (handshake.setExtensionTypes client types).extensionTypes client = types := by
  cases client <;> rfl

theorem setExtensionTypes_kept (types : TlsList UInt16)
    : (handshake.setExtensionTypes client types).extensionTypes (!client)
        = handshake.extensionTypes (!client)
      ∧ (handshake.setExtensionTypes client types).suites = handshake.suites
      ∧ (handshake.setExtensionTypes client types).versions = handshake.versions
      ∧ (handshake.setExtensionTypes client types).verdict = handshake.verdict := by
  cases client <;> exact ⟨rfl, rfl, rfl, rfl⟩

/-- A whole extension within the limits is read, and the loop goes on. -/
theorem extensionLoop_next {extension : Extension} (fits : extension.body.length < 2 ^ 16)
    (inside : 4 + extension.body.length ≤ total - consumed) (within : count < limits.maxExtensions)
    : extensionLoop limits client total (fuel + 1) { rest := extension.encode ++ rest } consumed
        count budget handshake
      = readExtension extension.type { rest := extension.body } client budget
          (handshake.pushExtensionType client extension.type)
        >>= fun read => extensionLoop limits client total fuel { rest }
          (consumed + 4 + extension.body.length) (count + 1) read.1 read.2 := by
  have written : extension.encode ++ rest
      = bytes16 extension.type.toNat
        ++ (bytes16 extension.body.length ++ (extension.body ++ rest)) := by
    simp only [Extension.encode, List.append_assoc]
  rw [extensionLoop, if_pos (by omega), written, TlsReader.u16_bytes16]
  dsimp only
  rw [TlsReader.length_two fits]
  dsimp only
  rw [if_neg (not_or.mpr ⟨Bool.false_ne_true, by omega⟩), if_neg (by omega), TlsReader.sub_append]
  dsimp only
  rw [UInt16.ofNat_toNat]

/-- The extension after the last allowed one ends the loop. -/
theorem extensionLoop_full {length : Nat} {type : UInt16} (fits : length < 2 ^ 16)
    (inside : 4 + length ≤ total - consumed) (full : limits.maxExtensions ≤ count)
    : extensionLoop limits client total (fuel + 1)
        { rest := bytes16 type.toNat ++ (bytes16 length ++ rest) } consumed count budget handshake
      = .ok
        { sound := true
          budget := budget.exceed
          handshake := handshake.setExtensionTypes client .excessive } := by
  rw [extensionLoop, if_pos (by omega), TlsReader.u16_bytes16]
  dsimp only
  rw [TlsReader.length_two fits]
  dsimp only
  rw [if_neg (not_or.mpr ⟨Bool.false_ne_true, by omega⟩), if_pos (by omega)]

/-- The next extension joins the offered ones. -/
theorem Offered.readNext (offered : Offered limits client before budget handshake)
    (types : handshake.extensionTypes client = .listed (before.map Extension.type))
    (extension : Extension)
    : ∃ result, Tls.readExtension extension.type { rest := extension.body } client budget
          (handshake.pushExtensionType client extension.type) = .ok result
        ∧ Offered limits client (before ++ [extension]) result.1 result.2
        ∧ result.2.extensionTypes client
          = .listed ((before ++ [extension]).map Extension.type)
        ∧ result.2.extensionTypes (!client) = handshake.extensionTypes (!client)
        ∧ result.2.suites = handshake.suites ∧ result.2.versions = handshake.versions
        ∧ result.2.verdict = handshake.verdict := by
  have pushed : Offered limits client before budget
      (handshake.pushExtensionType client extension.type) := offered.setTypes _
  obtain ⟨result, returned, offered, opening⟩ := pushed.readExtension extension
  have kept := @setExtensionTypes_kept _ client handshake
  refine ⟨result, returned, offered, ?_, ?_, ?_, ?_, ?_⟩
  · rw [TlsHandshake.extensionTypes_of_opening opening, TlsHandshake.pushExtensionType,
      extensionTypes_setExtensionTypes, types, List.map_append]
    rfl
  · rw [TlsHandshake.extensionTypes_of_opening opening]
    exact (kept _).1
  · exact (congrArg Opening.suites opening).trans (kept _).2.1
  · exact (congrArg Opening.versions opening).trans (kept _).2.2.1
  · exact (congrArg Opening.verdict opening).trans (kept _).2.2.2

/-- Walking extensions of the right form reports them.
Witness: induction on the form; a pass takes the next extension.
-/
theorem Walked.extensionLoop {room allowed : Nat} {excess : Bool}
    (walked : Walked room allowed bytes extensions excess) (room_eq : room = total - consumed)
    (enough : room < fuel) (counted : before.length + allowed = limits.maxExtensions)
    (offered : Offered limits client before budget handshake)
    (types : handshake.extensionTypes client = .listed (before.map Extension.type))
    : ∃ walk, extensionLoop limits client total fuel { rest := bytes } consumed before.length budget
          handshake = .ok walk
        ∧ walk.Reports limits client (before ++ extensions) excess handshake := by
  induction walked generalizing fuel consumed before budget handshake with
  | ended short =>
    obtain ⟨fuel, rfl⟩ := Nat.exists_eq_succ_of_ne_zero (Nat.ne_of_gt (Nat.zero_lt_of_lt enough))
    have listed : (handshake.extensionTypes client).values.length ≤ limits.maxExtensions := by
      rw [types]
      exact (List.length_map ..).trans_le (by omega)
    rw [Tls.extensionLoop, if_neg (by omega), require_eq_ok _ listed, ok_bind, List.append_nil]
    exact ⟨_, rfl, by simp, ⟨budget, offered, rfl⟩, types, rfl, rfl, rfl, rfl⟩
  | limited fits inside =>
    obtain ⟨fuel, rfl⟩ := Nat.exists_eq_succ_of_ne_zero (Nat.ne_of_gt (Nat.zero_lt_of_lt enough))
    rw [extensionLoop_full fits (by omega) (by omega), List.append_nil]
    obtain ⟨others, suites, versions, verdict⟩ :=
      @setExtensionTypes_kept _ client handshake .excessive
    exact ⟨_, rfl, rfl, ⟨budget, offered.setTypes _, rfl⟩, extensionTypes_setExtensionTypes _,
      others, suites, versions, verdict⟩
  | @next room allowed extension rest extensions excess fits inside later ih =>
    obtain ⟨fuel, rfl⟩ := Nat.exists_eq_succ_of_ne_zero (Nat.ne_of_gt (Nat.zero_lt_of_lt enough))
    obtain ⟨result, returned, read, listed, others, suites, versions, verdict⟩ :=
      offered.readNext types extension
    rw [extensionLoop_next fits (by omega) (by omega), returned, ok_bind]
    have counts : (before ++ [extension]).length = before.length + 1 := by simp
    obtain ⟨walk, walks, reports⟩ := @ih result.1 result.2 (before ++ [extension]) fuel
      (consumed + 4 + extension.body.length) (by omega) (by omega) (by omega) read listed
    rw [counts] at walks
    rw [List.append_assoc, List.singleton_append] at reports
    exact ⟨walk, walks, reports.sound, reports.offered, reports.types,
      reports.others.trans others, reports.suites.trans suites, reports.versions.trans versions,
      reports.verdict.trans verdict⟩

/-- Encoded extensions are walked up to the limit.
Witness: induction on the extensions; the walk stops early only when none is allowed.
-/
theorem walked_encodeExtensions (limit : Nat) (fits : (encodeExtensions extensions).length < 2 ^ 16)
    : Walked (encodeExtensions extensions).length limit (encodeExtensions extensions)
        (extensions.take limit) (decide (limit < extensions.length)) := by
  induction extensions generalizing limit with
  | nil =>
    rw [List.take_nil]
    exact .ended (by decide)
  | cons extension rest ih =>
    have written : encodeExtensions (extension :: rest)
        = extension.encode ++ encodeExtensions rest := rfl
    have size : (extension.encode ++ encodeExtensions rest).length
        = 4 + extension.body.length + (encodeExtensions rest).length := by
      simp [Extension.encode, bytes16]
      omega
    rw [written, size] at fits
    rw [written, size]
    cases limit with
    | zero =>
      have header : extension.encode ++ encodeExtensions rest
          = bytes16 extension.type.toNat ++ (bytes16 extension.body.length
            ++ (extension.body ++ encodeExtensions rest)) := by
        simp only [Extension.encode, List.append_assoc]
      rw [header, List.take_zero, List.length_cons, decide_eq_true (Nat.succ_pos _)]
      exact .limited (by omega) (by omega)
    | succ limit =>
      rw [List.take_succ_cons, List.length_cons,
        decide_eq_decide.mpr (@Nat.succ_lt_succ_iff limit rest.length)]
      refine .next (by omega) (by omega) ?_
      rw [Nat.add_sub_cancel_left]
      exact ih limit (by omega)

theorem exists_encode (type : UInt16) {length : Nat} (held : length ≤ rest.length)
    : ∃ (extension : Extension) (following : List UInt8), extension.body.length = length
        ∧ bytes16 type.toNat ++ (bytes16 length ++ rest) = extension.encode ++ following := by
  have size : (rest.take length).length = length := by
    rw [List.length_take, Nat.min_eq_left held]
  refine ⟨⟨type, rest.take length⟩, rest.drop length, size, ?_⟩
  simp only [Extension.encode, size, List.append_assoc, List.take_append_drop]

/-- The walk always ends, and when it is sound it took extensions of the right form.
Witness: induction on the fuel; a pass consumes at least the header of an extension.
-/
theorem extensionLoop_walked (bytes : List UInt8) (enough : total - consumed < fuel)
    (counted : before.length ≤ limits.maxExtensions)
    (offered : Offered limits client before budget handshake)
    (types : handshake.extensionTypes client = .listed (before.map Extension.type))
    : ∃ walk, extensionLoop limits client total fuel { rest := bytes } consumed before.length budget
          handshake = .ok walk
        ∧ (walk.sound = true → ∃ extensions excess,
            Walked (total - consumed) (limits.maxExtensions - before.length) bytes extensions
              excess) := by
  induction fuel generalizing bytes consumed before budget handshake with
  | zero => exact absurd enough (Nat.not_lt_zero _)
  | succ fuel ih =>
    by_cases more : consumed + 4 ≤ total
    case neg =>
      have listed : (handshake.extensionTypes client).values.length ≤ limits.maxExtensions := by
        rw [types]
        exact (List.length_map ..).trans_le counted
      rw [extensionLoop, if_neg more, require_eq_ok _ listed, ok_bind]
      exact ⟨_, rfl, fun _ => ⟨[], false, .ended (by omega)⟩⟩
    case pos =>
      have broken (cut : (({ rest := bytes } : TlsReader).u16.2.length 2).2.overrun = true
          ∨ total - (consumed + 4) < (({ rest := bytes } : TlsReader).u16.2.length 2).1)
          : ∃ walk, extensionLoop limits client total (fuel + 1) { rest := bytes } consumed
              before.length budget handshake = .ok walk
            ∧ (walk.sound = true → ∃ extensions excess,
              Walked (total - consumed) (limits.maxExtensions - before.length) bytes extensions
                excess) := by
        rw [extensionLoop, if_pos more]
        dsimp only
        rw [if_pos cut]
        exact ⟨_, rfl, nofun⟩
      rcases TlsReader.u16_cases bytes with ⟨cut, _⟩ | ⟨type, rest, rfl, read⟩
      · exact broken (.inl (overrun_length cut 2))
      rw [read] at broken
      rcases TlsReader.length_cases 2 rest with cut | ⟨length, rest, fits, rfl, read⟩
      · exact broken (.inl cut)
      rw [read] at broken
      by_cases inside : length ≤ total - (consumed + 4)
      case neg => exact broken (.inr (Nat.lt_of_not_le inside))
      case pos =>
        rw [if_neg (by decide)]
        by_cases full : before.length = limits.maxExtensions
        case pos =>
          rw [extensionLoop_full fits (by omega) (Nat.le_of_eq full.symm), full, Nat.sub_self]
          exact ⟨_, rfl, fun _ => ⟨[], true, .limited fits (by omega)⟩⟩
        case neg =>
          by_cases held : length ≤ rest.length
          case neg =>
            rw [extensionLoop, if_pos more, TlsReader.u16_bytes16]
            dsimp only
            rw [TlsReader.length_two fits]
            dsimp only
            rw [if_neg (not_or.mpr ⟨Bool.false_ne_true, by omega⟩), if_neg (by omega),
              TlsReader.sub_short (Nat.lt_of_not_le held)]
            exact ⟨_, rfl, nofun⟩
          case pos =>
            obtain ⟨extension, following, rfl, written⟩ := exists_encode type held
            have room : 4 + extension.body.length ≤ total - consumed := by omega
            obtain ⟨result, returned, next, listed, _⟩ := offered.readNext types extension
            have counts : (before ++ [extension]).length = before.length + 1 := by simp
            rw [written, extensionLoop_next fits room (by omega), returned, ok_bind]
            obtain ⟨walk, walks, found⟩ := @ih result.1 result.2 (before ++ [extension])
              (consumed + 4 + extension.body.length) following (by omega) (by omega) next listed
            rw [counts] at walks found
            refine ⟨walk, walks, fun sound => ?_⟩
            obtain ⟨extensions, excess, walked⟩ := found sound
            refine ⟨extension :: extensions, excess, ?_⟩
            rw [show limits.maxExtensions - before.length
              = limits.maxExtensions - (before.length + 1) + 1 by omega]
            refine .next fits room ?_
            rwa [Nat.sub_sub, ← Nat.add_assoc]

end Walk

/-! ### The form of a hello -/

/-- The suites and compression methods: vectors in a ClientHello, one of each in a ServerHello. -/
inductive HelloOffers where
  | client (suites compression : List UInt8)
  | server (suite : UInt16) (compression : UInt8)

namespace HelloOffers

def isClient : HelloOffers → Bool
  | client .. => true
  | server .. => false

def encode : HelloOffers → List UInt8
  | client suites compression => encodeVector 2 suites ++ encodeVector 1 compression
  | server suite compression => bytes16 suite.toNat ++ [compression]

/-- The lengths fit the fields that announce them. -/
def Fits : HelloOffers → Prop
  | client suites compression => suites.length < 2 ^ 16 ∧ compression.length < 2 ^ 8
  | server .. => True

/-- The suites a row reports. -/
def Told (cap : Nat) : HelloOffers → TlsList UInt16 × Bool × UInt16 → Prop
  | client suites _, (list, _, _) => Reported cap (EncodesCodes 2) [encodeVector 2 suites] list
  | server suite _, (list, known, selected) => list = {} ∧ known = true ∧ selected = suite

end HelloOffers

/-- A hello with the extensions a walk takes from it. -/
structure HelloForm where
  version : UInt16
  random : FixedBytes 32
  sessionId : List UInt8
  offers : HelloOffers
  extensions : List Extension
  excess : Bool

/-- The bytes of a hello before its extension list. -/
def HelloForm.opening (form : HelloForm) : List UInt8 :=
  bytes16 form.version.toNat
    ++ (form.random.1 ++ (encodeVector 1 form.sessionId ++ form.offers.encode))

/-- An extension list, which a hello may leave out altogether. -/
inductive BlockWalked (limit : Nat) : List UInt8 → List Extension → Bool → Prop
  | absent : BlockWalked limit [] [] false
  | present {total : Nat} {bytes : List UInt8} {extensions : List Extension} {excess : Bool}
    (fits : total < 2 ^ 16) (walked : Walked total limit bytes extensions excess)
    : BlockWalked limit (bytes16 total ++ bytes) extensions excess

theorem blockWalked_encodeBlock (limit : Nat) {extensions : Option (List Extension)}
    (fits : (encodeExtensions (extensions.getD [])).length < 2 ^ 16)
    : BlockWalked limit (encodeBlock extensions) ((extensions.getD []).take limit)
        (decide (limit < (extensions.getD []).length)) := by
  cases extensions with
  | none => simpa [encodeBlock] using BlockWalked.absent
  | some extensions => exact .present fits (walked_encodeExtensions limit fits)

/-- The body is a hello of this form, whose extensions are walked up to a limit. -/
structure HelloForm.Frames (limit : Nat) (client : Bool) (body : List UInt8) (form : HelloForm)
    : Prop where
  side : form.offers.isClient = client
  session : form.sessionId.length < 2 ^ 8
  offers : form.offers.Fits
  block : ∃ tail, body = form.opening ++ tail
    ∧ BlockWalked limit tail form.extensions form.excess

/-- A row that says only which hellos it is for. -/
def TlsHandshake.roled (asks answers : Bool) : TlsHandshake Cert :=
  { hasClientHello := asks, hasServerHello := answers }

/-- The row a hello is parsed into. -/
def TlsHandshake.fresh (client : Bool) : TlsHandshake Cert :=
  { hasClientHello := client, hasServerHello := ¬ client }

/-- Whether a list of the hello is over its limit. -/
def TlsHandshake.HelloOverLimit (handshake : TlsHandshake Cert) : Prop :=
  handshake.clientCipherSuites.overLimit = true
  ∨ (∃ client, (handshake.extensionTypes client).overLimit = true)
  ∨ ∃ list : HelloList, (list.get handshake).overLimit = true

/-- The row of a hello that parsed: what it says of the hello's form. -/
structure HelloRead.Reports (limits : TlsHandshakeLimits Cert) (client : Bool)
    (form : HelloForm) (read : HelloRead Cert)
    : Prop where
  parsed : read.parsed = true
  sessionId : read.sessionId = form.sessionId
  suites : form.offers.Told limits.maxListEntries read.handshake.suites
  lists : ∀ list : HelloList, Reported (list.cap limits) list.Encodes
    (list.bodies client form.extensions) (list.get read.handshake)
  name : client = true → read.handshake.serverName = reportedName (nameBodies form.extensions)
  versions : read.handshake.versions
    = if client then ((true, form.version), false, 0) else ((false, 0), true, form.version)
  version : client = false → read.handshake.version?
    = selected form.version (form.extensions.filter Extension.selects)
  types : read.handshake.extensionTypes client
    = if form.excess then .excessive else .listed (form.extensions.map Extension.type)
  others : read.handshake.extensionTypes (!client) = {}
  verdict : read.handshake.verdict = (.unset, "")
    ∨ read.handshake.verdict = (.limit, "TLS hello list exceeds the per-list limit")
  limited : read.handshake.HelloOverLimit → read.handshake.status = .limit
  spent : read.handshake.status = .limit → form.excess = true
    ∨ read.handshake.clientCipherSuites.overLimit = true
    ∨ Oversized limits client form.extensions

section Hello

variable {client asks answers : Bool}
variable {form : HelloForm}
variable {tail : List UInt8}

theorem TlsReader.skipVector_encodeVector {lengthBytes : Nat}
    (fits : bytes.length < vectorLimit lengthBytes) (rest : List UInt8)
    : ({ rest := encodeVector lengthBytes bytes ++ rest } : TlsReader).skipVector lengthBytes
      = (true, { rest }) := by
  rw [skipVector, length_encodeVector fits]
  dsimp only
  rw [if_neg Bool.false_ne_true, skip, take_append]
  rfl

/-- What reading the suites leaves on a row that has none yet. -/
structure SuitesRead.Reports (limits : TlsHandshakeLimits Cert) (client : Bool)
    (offers : HelloOffers) (version : UInt16) (tail : List UInt8) (read : SuitesRead Cert)
    : Prop where
  sound : read.sound = true
  reader : read.reader = { rest := tail }
  suites : offers.Told limits.maxListEntries read.handshake.suites
  offered : Offered limits client [] read.budget read.handshake
  versions : read.handshake.versions
    = if client then ((true, version), false, 0) else ((false, 0), true, version)
  types : ∀ side, read.handshake.extensionTypes side = {}
  verdict : read.handshake.verdict = (.unset, "")

theorem offered_blank {budget : ListBudget} {handshake : TlsHandshake Cert}
    (cap : budget.capEntries = limits.maxListEntries)
    (oversized : budget.exceeded = true ↔ handshake.clientCipherSuites.overLimit = true)
    (blank : ∀ list : HelloList, list.get handshake = {})
    (name : handshake.serverName = (false, false, [], false))
    (version : client = false → handshake.version? = some handshake.serverLegacyVersion)
    : Offered limits client [] budget handshake := by
  refine ⟨cap, fun list => ?_, oversized.mpr, fun list limit => ?_,
    fun spent => .inl (oversized.mp spent), fun _ => name, version⟩
  · have none : list.bodies client [] = [] := by
      unfold HelloList.bodies
      split <;> rfl
    rw [blank, none]
    exact .absent
  · rw [blank] at limit
    cases limit

/-- Suites of the right form are read, with what follows them left. -/
theorem HelloOffers.readSuites (limits : TlsHandshakeLimits Cert) {offers : HelloOffers}
    (side : offers.isClient = client) (fits : offers.Fits) (version : UInt16) (tail : List UInt8)
    : ∃ read, readSuites client { rest := offers.encode ++ tail }
          { capEntries := limits.maxListEntries }
          ((TlsHandshake.roled asks answers).withVersion client version) = .ok read
        ∧ read.Reports limits client offers version tail := by
  subst side
  cases offers with
  | client suites compression =>
    obtain ⟨read, returned, reads⟩ := readCodes_reads 2 false
      (encodeVector 2 suites ++ (encodeVector 1 compression ++ tail))
      { capEntries := limits.maxListEntries }
    unfold Tls.readSuites
    rw [isClient, if_pos rfl, encode, List.append_assoc, returned, ok_bind]
    dsimp only
    cases reads with
    | unframed _ _ _ unwritten => exact absurd rfl (unwritten suites _ fits.1)
    | framed sound bounds written reader _ alone =>
      obtain ⟨rfl, rfl⟩ := encodeVector_inj fits.1 bounds written
      have told := alone nofun
      rw [if_pos sound, reader, TlsReader.skipVector_encodeVector fits.2]
      refine ⟨_, rfl, rfl, rfl, told.reported, offered_blank ?_ ?_ ?_ rfl nofun, rfl, ?_, rfl⟩
      · rw [told.budget_eq]
        split <;> rfl
      · rw [told.budget_eq]
        by_cases limit : read.list.overLimit = true
        · rw [if_pos limit]
          exact ⟨fun _ => limit, fun _ => rfl⟩
        · rw [if_neg limit]
          exact ⟨nofun, fun over_ => absurd over_ limit⟩
      · intro list
        cases list <;> rfl
      · intro side
        cases side <;> rfl
  | server suite compression =>
    have skipped := TlsReader.take_append [compression] tail
    unfold Tls.readSuites
    rw [isClient, if_neg Bool.false_ne_true, encode, List.append_assoc, TlsReader.u16_bytes16]
    dsimp only
    rw [if_neg Bool.false_ne_true, TlsReader.skip, show 1 = [compression].length from rfl, skipped,
      UInt16.ofNat_toNat]
    refine ⟨_, rfl, rfl, rfl, ⟨rfl, rfl, rfl⟩, offered_blank rfl Iff.rfl ?_ rfl (fun _ => rfl), rfl, ?_,
      rfl⟩
    · intro list
      cases list <;> rfl
    · intro side
      cases side <;> rfl

/-- The suites are always read, and when they are sound they have the right form. -/
theorem readSuites_framed (version : UInt16) (bytes : List UInt8)
    : ∃ read : SuitesRead Cert,
        readSuites client { rest := bytes } { capEntries := limits.maxListEntries }
          ((TlsHandshake.roled asks answers).withVersion client version) = .ok read
        ∧ (read.sound = true → ∃ (offers : HelloOffers) (tail : List UInt8),
            offers.isClient = client ∧ offers.Fits ∧ bytes = offers.encode ++ tail) := by
  unfold Tls.readSuites
  cases client with
  | true =>
    obtain ⟨read, returned, reads⟩ := readCodes_reads 2 false bytes
      { capEntries := limits.maxListEntries }
    rw [if_pos rfl, returned, ok_bind]
    dsimp only
    cases reads with
    | unframed unsound =>
      rw [if_neg (by rw [unsound]; decide)]
      exact ⟨_, rfl, nofun⟩
    | @framed suites rest sound fits written reader =>
      rw [if_pos sound, reader]
      refine ⟨_, rfl, fun skipped => ?_⟩
      rcases TlsReader.vector_cases 1 rest with ⟨compression, tail, short, rfl⟩ | cut
      · refine ⟨.client suites compression, tail, rfl, ⟨fits, short⟩, ?_⟩
        rw [written, HelloOffers.encode, List.append_assoc]
      · exfalso
        revert skipped
        dsimp only
        unfold TlsReader.skipVector
        rcases cut with cut | ⟨whole, cut⟩
        · rw [if_pos cut]
          exact Bool.false_ne_true
        · rw [if_neg (by rw [whole]; decide), TlsReader.skip, TlsReader.take_short cut]
          exact Bool.false_ne_true
  | false =>
    rw [if_neg Bool.false_ne_true]
    dsimp only
    rcases TlsReader.u16_cases bytes with ⟨cut, _⟩ | ⟨suite, rest, rfl, read⟩
    · rw [if_pos cut]
      exact ⟨_, rfl, nofun⟩
    · rw [read]
      dsimp only
      rw [if_neg Bool.false_ne_true]
      refine ⟨_, rfl, fun skipped => ?_⟩
      cases rest with
      | nil => cases skipped
      | cons compression tail =>
        refine ⟨.server suite compression, tail, rfl, trivial, ?_⟩
        rw [HelloOffers.encode, List.append_assoc, List.singleton_append]

section Block

variable {budget : ListBudget} {handshake : TlsHandshake Cert}

theorem BlockWalked.parseExtensions {excess : Bool}
    (walked : BlockWalked limits.maxExtensions tail extensions excess) (occupied : tail ≠ [])
    (offered : Offered limits client [] budget handshake)
    (types : handshake.extensionTypes client = .listed [])
    : ∃ walk, parseExtensions limits client { rest := tail } budget handshake = .ok walk
        ∧ walk.Reports limits client extensions excess handshake := by
  cases walked with
  | absent => exact absurd rfl occupied
  | present fits walked =>
    unfold Tls.parseExtensions
    dsimp only
    rw [TlsReader.length_two fits]
    dsimp only
    rw [if_neg Bool.false_ne_true]
    exact walked.extensionLoop (Nat.sub_zero _).symm (Nat.lt_succ_self _) (Nat.zero_add _) offered
      types

theorem parseExtensions_walked (tail : List UInt8)
    (offered : Offered limits client [] budget handshake)
    (types : handshake.extensionTypes client = .listed [])
    : ∃ walk, parseExtensions limits client { rest := tail } budget handshake = .ok walk
        ∧ (walk.sound = true → ∃ extensions excess,
            BlockWalked limits.maxExtensions tail extensions excess) := by
  unfold Tls.parseExtensions
  dsimp only
  rcases TlsReader.length_cases 2 tail with cut | ⟨total, bytes, fits, rfl, read⟩
  · rw [if_pos cut]
    exact ⟨_, rfl, nofun⟩
  · rw [read]
    dsimp only
    rw [if_neg Bool.false_ne_true]
    obtain ⟨walk, walks, found⟩ := extensionLoop_walked bytes (Nat.lt_succ_self (total - 0))
      (Nat.zero_le _) offered types
    refine ⟨walk, walks, fun sound => ?_⟩
    obtain ⟨extensions, excess, walked⟩ := found sound
    exact ⟨extensions, excess, .present fits walked⟩

end Block

theorem SuitesRead.Reports.typed {offers : HelloOffers} {version : UInt16} {read : SuitesRead Cert}
    (reports : read.Reports limits client offers version tail)
    : Offered limits client [] read.budget
        (read.handshake.setExtensionTypes client
          { read.handshake.extensionTypes client with present := true })
      ∧ (read.handshake.setExtensionTypes client
          { read.handshake.extensionTypes client with present := true }).extensionTypes client
        = .listed [] := by
  refine ⟨reports.offered.setTypes _, ?_⟩
  · rw [extensionTypes_setExtensionTypes, reports.types]
    rfl

/-- A row judged by the budget its lists were read under. -/
theorem judged_reports {before budget : ListBudget} {handshake : TlsHandshake Cert}
    (offered : Offered limits client form.extensions before handshake)
    (budget_eq : budget = if form.excess then before.exceed else before)
    (suites : form.offers.Told limits.maxListEntries handshake.suites)
    (versions : handshake.versions
      = if client then ((true, form.version), false, 0) else ((false, 0), true, form.version))
    (types : handshake.extensionTypes client
      = if form.excess then .excessive else .listed (form.extensions.map Extension.type))
    (others : handshake.extensionTypes (!client) = {}) (verdict : handshake.verdict = (.unset, ""))
    : HelloRead.Reports limits client form
        { parsed := true, handshake := handshake.judged budget, sessionId := form.sessionId } := by
  have kept {Field : Type} (field : TlsHandshake Cert → Field)
      (same : ∀ status error, field { handshake with status, error } = field handshake)
      : field (handshake.judged budget) = field handshake := by
    unfold TlsHandshake.judged
    split
    · exact same _ _
    · rfl
  have lists (list : HelloList) : list.get (handshake.judged budget) = list.get handshake :=
    kept (fun row => list.get row) fun _ _ => by cases list <;> rfl
  have sides (side : Bool)
      : (handshake.judged budget).extensionTypes side = handshake.extensionTypes side :=
    kept (fun row => row.extensionTypes side) fun _ _ => by cases side <;> rfl
  have judged : (handshake.judged budget).verdict
      = if budget.exceeded then (.limit, "TLS hello list exceeds the per-list limit")
        else (.unset, "") := by
    unfold TlsHandshake.judged
    split
    · rfl
    · exact verdict
  have status : (handshake.judged budget).status
      = if budget.exceeded then .limit else .unset := by
    refine (congrArg Prod.fst judged).trans ?_
    split <;> rfl
  have grows : before.exceeded = true → budget.exceeded = true := by
    rw [budget_eq]
    split
    · exact fun _ => rfl
    · exact id
  refine ⟨rfl, rfl, ?_, fun list => ?_, fun side => ?_, ?_, fun side => ?_, ?_, ?_, ?_, ?_, ?_⟩
  · exact (kept TlsHandshake.suites fun _ _ => rfl).symm ▸ suites
  · exact (lists list).symm ▸ offered.lists list
  · exact (kept TlsHandshake.serverName fun _ _ => rfl).trans (offered.name side)
  · exact (kept TlsHandshake.versions fun _ _ => rfl).trans versions
  · refine (kept TlsHandshake.version? fun _ _ => rfl).trans ((offered.version side).trans ?_)
    rw [side] at versions
    rw [show handshake.serverLegacyVersion = form.version from
      congrArg (fun versions => versions.2.2) versions]
  · exact (sides client).trans types
  · exact (sides _).trans others
  · rw [judged]
    split
    · exact .inr rfl
    · exact .inl rfl
  · intro limit
    refine status.trans (if_pos ?_)
    rcases limit with limit | ⟨side, limit⟩ | ⟨list, limit⟩
    · exact grows (offered.oversized ((congrArg TlsList.overLimit
        (kept TlsHandshake.clientCipherSuites fun _ _ => rfl)).symm.trans limit))
    · dsimp only at limit
      rw [sides] at limit
      by_cases same : side = client
      · subst same
        rw [types] at limit
        by_cases excess : form.excess = true
        · rw [budget_eq, if_pos excess]
          rfl
        · rw [if_neg excess] at limit
          cases limit
      · rw [Bool.eq_not_of_ne same, others] at limit
        cases limit
    · dsimp only at limit
      rw [lists] at limit
      exact grows (offered.exceeded list limit)
  · intro limit
    by_cases excess : form.excess = true
    · exact .inl excess
    · right
      have spent : before.exceeded = true := by
        by_contra unspent
        rw [if_neg excess] at budget_eq
        have known := status.symm.trans limit
        rw [budget_eq, if_neg unspent] at known
        cases known
      refine (offered.spent spent).imp_left fun limit => ?_
      exact (congrArg TlsList.overLimit
        (kept TlsHandshake.clientCipherSuites fun _ _ => rfl)).trans limit

/-- A hello of the right form, from its cipher suites on. -/
theorem parseOffers_frames (side : form.offers.isClient = client) (fits : form.offers.Fits)
    (block : BlockWalked limits.maxExtensions tail form.extensions form.excess)
    : ∃ read, parseOffers limits client { rest := form.offers.encode ++ tail } form.sessionId
          ((TlsHandshake.roled asks answers).withVersion client form.version) = .ok read
        ∧ read.Reports limits client form := by
  obtain ⟨suites, returned, reports⟩ := HelloOffers.readSuites limits side fits form.version tail
  obtain ⟨offered, types⟩ := reports.typed
  have kept := @setExtensionTypes_kept _ client suites.handshake
  unfold parseOffers
  rw [returned, ok_bind, if_pos reports.sound, reports.reader]
  dsimp only
  by_cases empty : tail = []
  · subst empty
    rw [if_pos (by rfl)]
    generalize extensions_eq : form.extensions = extensions at block
    generalize excess_eq : form.excess = excess at block
    cases block
    refine ⟨_, rfl, @judged_reports _ limits client form suites.budget suites.budget _ ?_ ?_ ?_ ?_ ?_ ?_ ?_⟩
    · rw [extensions_eq]
      exact offered
    · rw [excess_eq]
      rfl
    · rw [(kept _).2.1]
      exact reports.suites
    · rw [(kept _).2.2.1]
      exact reports.versions
    · rw [excess_eq, extensions_eq]
      exact types
    · rw [(kept _).1]
      exact reports.types _
    · rw [(kept _).2.2.2]
      exact reports.verdict
  · obtain ⟨walk, walks, walked⟩ := block.parseExtensions empty offered types
    rw [if_neg (by simpa [TlsReader.remaining] using empty), walks, ok_bind, if_pos walked.sound]
    obtain ⟨before, read, budget_eq⟩ := walked.offered
    refine ⟨_, rfl, judged_reports read budget_eq ?_ ?_ walked.types ?_ ?_⟩
    · rw [walked.suites, (kept _).2.1]
      exact reports.suites
    · rw [walked.versions, (kept _).2.2.1]
      exact reports.versions
    · rw [walked.others, (kept _).1]
      exact reports.types _
    · rw [walked.verdict, (kept _).2.2.2]
      exact reports.verdict

/-- The hello from its cipher suites on is always read, and when it parses it has the right form. -/
theorem parseOffers_framed (version : UInt16) (sessionId bytes : List UInt8)
    : ∃ read : HelloRead Cert, parseOffers limits client { rest := bytes } sessionId
          ((TlsHandshake.roled asks answers).withVersion client version) = .ok read
        ∧ (read.parsed = true → ∃ (offers : HelloOffers) (tail : List UInt8)
            (extensions : List Extension) (excess : Bool),
            offers.isClient = client ∧ offers.Fits ∧ bytes = offers.encode ++ tail
            ∧ BlockWalked limits.maxExtensions tail extensions excess) := by
  obtain ⟨suites, returned, framed⟩ := @readSuites_framed _ limits client asks answers version bytes
  unfold parseOffers
  rw [returned, ok_bind]
  by_cases sound : suites.sound = true
  case neg =>
    rw [if_neg sound]
    exact ⟨_, rfl, fun parsed => absurd parsed Bool.false_ne_true⟩
  case pos =>
    obtain ⟨offers, tail, side, fits, rfl⟩ := framed sound
    obtain ⟨_, same, reports⟩ := HelloOffers.readSuites limits side fits version tail
    obtain rfl := Except.ok.inj (same.symm.trans returned)
    obtain ⟨offered, types⟩ := reports.typed
    rw [if_pos sound, reports.reader]
    dsimp only
    by_cases empty : tail = []
    · subst empty
      rw [if_pos (by rfl)]
      exact ⟨_, rfl, fun _ => ⟨offers, [], [], false, side, fits, rfl, .absent⟩⟩
    · obtain ⟨walk, walks, walked⟩ := parseExtensions_walked tail offered types
      rw [if_neg (by simpa [TlsReader.remaining] using empty), walks, ok_bind]
      by_cases whole : walk.sound = true
      · rw [if_pos whole]
        obtain ⟨extensions, excess, block⟩ := walked whole
        exact ⟨_, rfl, fun _ => ⟨offers, tail, extensions, excess, side, fits, rfl, block⟩⟩
      · rw [if_neg whole]
        exact ⟨_, rfl, fun parsed => absurd parsed Bool.false_ne_true⟩

theorem TlsReader.skip_append (size : bytes.length = count) (rest : List UInt8)
    : ({ rest := bytes ++ rest } : TlsReader).skip count = (true, { rest }) := by
  rw [skip, ← size, take_append]
  rfl

theorem HelloForm.Frames.parseHello_roled {body : List UInt8}
    (frames : form.Frames limits.maxExtensions client body) (asks answers : Bool)
    : ∃ read, parseHello limits client body (.roled asks answers) = .ok read
        ∧ read.Reports limits client form := by
  obtain ⟨tail, rfl, block⟩ := frames.block
  unfold Tls.parseHello
  dsimp only
  rw [HelloForm.opening, List.append_assoc, TlsReader.u16_bytes16, UInt16.ofNat_toNat]
  dsimp only
  rw [if_neg Bool.false_ne_true, List.append_assoc, TlsReader.skip_append form.random.2]
  dsimp only
  rw [if_pos rfl, List.append_assoc, TlsReader.length_encodeVector frames.session]
  dsimp only
  rw [if_neg Bool.false_ne_true, TlsReader.take_append]
  exact parseOffers_frames frames.side frames.offers block

theorem HelloForm.Frames.parseHello {body : List UInt8}
    (frames : form.Frames limits.maxExtensions client body)
    : ∃ read, parseHello limits client body (.fresh client) = .ok read
        ∧ read.Reports limits client form :=
  frames.parseHello_roled client (¬ client)

/-- Every body is parsed or refused, and what parses has the right form. -/
theorem parseHello_framed (limits : TlsHandshakeLimits Cert) (client : Bool)
    (body : List UInt8) (asks answers : Bool)
    : ∃ read, parseHello limits client body (.roled asks answers) = .ok read
        ∧ (read.parsed = true → ∃ form : HelloForm,
            form.Frames limits.maxExtensions client body) := by
  unfold Tls.parseHello
  dsimp only
  rcases TlsReader.u16_cases body with ⟨cut, _⟩ | ⟨version, rest, rfl, read⟩
  · rw [if_pos cut]
    exact ⟨_, rfl, nofun⟩
  rw [read]
  dsimp only
  rw [if_neg Bool.false_ne_true]
  by_cases short : rest.length < 32
  · rw [if_neg (by rw [TlsReader.skip, TlsReader.take_short short]; exact Bool.false_ne_true)]
    exact ⟨_, rfl, nofun⟩
  obtain ⟨random, rest, rfl, size⟩ : ∃ random following, rest = random ++ following
      ∧ random.length = 32 := by
    refine ⟨_, _, (List.take_append_drop 32 rest).symm, ?_⟩
    rw [List.length_take, Nat.min_eq_left (Nat.le_of_not_lt short)]
  rw [TlsReader.skip_append size]
  dsimp only
  rw [if_pos rfl]
  rcases TlsReader.vector_cases 1 rest with ⟨sessionId, rest, fits, rfl⟩ | cut | ⟨whole, cut⟩
  · rw [TlsReader.length_encodeVector fits]
    dsimp only
    rw [if_neg Bool.false_ne_true, TlsReader.take_append]
    dsimp only
    obtain ⟨result, returned, framed⟩ := @parseOffers_framed _ limits client asks answers version sessionId rest
    refine ⟨result, returned, fun parsed => ?_⟩
    obtain ⟨offers, tail, extensions, excess, side, offersFit, rfl, block⟩ := framed parsed
    refine ⟨⟨version, ⟨random, size⟩, sessionId, offers, extensions, excess⟩, side, fits, offersFit,
      tail, ?_, block⟩
    simp only [HelloForm.opening, List.append_assoc]
  · rw [if_pos cut]
    exact ⟨_, rfl, nofun⟩
  · rw [if_neg (by rw [whole]; decide), TlsReader.take_short cut]
    exact ⟨_, rfl, nofun⟩

/-- A hello that parses is framed as one and reported so. -/
theorem parseHello_reports (limits : TlsHandshakeLimits Cert) (client : Bool)
    (body : List UInt8)
    : ∃ read, parseHello limits client body (.fresh client) = .ok read
        ∧ (read.parsed = true → ∃ form : HelloForm,
            form.Frames limits.maxExtensions client body ∧ read.Reports limits client form) := by
  obtain ⟨read, returned, framed⟩ := parseHello_framed limits client body client (¬ client)
  refine ⟨read, returned, fun parsed => ?_⟩
  obtain ⟨form, frames⟩ := framed parsed
  obtain ⟨_, same, reports⟩ := frames.parseHello
  obtain rfl := Except.ok.inj (same.symm.trans returned)
  exact ⟨form, frames, reports⟩

end Hello

end PacketQuapture.Tls
