import PacketQuapture.Tls.CertificateBudget
import PacketQuapture.Tls.Encoding
import PacketQuapture.Tls.Locate

/-! How handshake bytes are cut into records does not show.
The records of a stream are collected to the bytes of their messages, and the messages are parsed
from these bytes alone; only the packets they are traced to depend on the records.
-/

namespace PacketQuapture.Tls

open Library Reassembly

/-! ### Records -/

/-- A whole valid record other than a ChangeCipherSpec. -/
structure PlainRecord where
  type : UInt8
  minorVersion : UInt8
  body : List UInt8
  versionValid : minorVersion ≤ 0x04
  occupied : body ≠ []
  fits : body.length ≤ tlsMaxRecordLength
  plain : type ≠ tlsRecordChangeCipherSpec

namespace PlainRecord

def encode (record : PlainRecord) : List UInt8 :=
  [record.type, 0x03, record.minorVersion] ++ bytes16 record.body.length ++ record.body

def isHandshake (record : PlainRecord) : Bool :=
  record.type = tlsRecordHandshake

end PlainRecord

def encodeRecords (records : List PlainRecord) : List UInt8 :=
  records.flatMap PlainRecord.encode

/-- The bodies of the handshake records, joined. -/
def handshakeBytes (records : List PlainRecord) : List UInt8 :=
  (records.filter PlainRecord.isHandshake).flatMap PlainRecord.body

/-- The spans of the handshake records, from an offset on. -/
def handshakeSpans : Nat → List PlainRecord → List (Nat × Nat)
  | _, [] => []
  | offset, record :: rest =>
    if record.isHandshake then
      (offset + tlsRecordHeaderLength, record.body.length)
        :: handshakeSpans (offset + tlsRecordHeaderLength + record.body.length) rest
    else
      handshakeSpans (offset + tlsRecordHeaderLength + record.body.length) rest

theorem PlainRecord.length_encode (record : PlainRecord)
    : record.encode.length = tlsRecordHeaderLength + record.body.length := by
  simp [encode, bytes16, tlsRecordHeaderLength]
  omega

theorem recordLength_bytes16 {length : Nat} (fits : length < 2 ^ 16) (type major minor : UInt8)
    (rest : List UInt8)
    : recordLength (type :: major :: minor :: (bytes16 length ++ rest)) = length := by
  have high : (UInt8.ofNat (length / 256)).toNat = length / 256 := by
    rw [UInt8.toNat_ofNat']
    omega
  have low : (UInt8.ofNat length).toNat = length % 256 := by
    rw [UInt8.toNat_ofNat']
  have joined : recordLength (type :: major :: minor :: (bytes16 length ++ rest))
      = (UInt8.ofNat (length / 256)).toNat <<< 8 ||| (UInt8.ofNat length).toNat := rfl
  rw [joined, high, low, ← Nat.shiftLeft_add_eq_or_of_lt (Nat.mod_lt _ (by decide)),
    Nat.shiftLeft_eq]
  omega

theorem PlainRecord.encode_append (record : PlainRecord) (rest : List UInt8)
    : record.encode ++ rest
      = record.type :: 0x03 :: record.minorVersion
        :: (bytes16 record.body.length ++ (record.body ++ rest)) := by
  simp [encode]

theorem PlainRecord.recordLength_encode (record : PlainRecord) (rest : List UInt8)
    : recordLength (record.encode ++ rest) = record.body.length := by
  have fits : record.body.length < 2 ^ 16 := by
    have bound := record.fits
    simp only [tlsMaxRecordLength] at bound
    omega
  rw [record.encode_append, recordLength_bytes16 fits]

theorem PlainRecord.valid_encode (record : PlainRecord) (rest : List UInt8)
    : tlsRecordHeaderValid (record.encode ++ rest) = true := by
  have occupied := List.length_pos_of_ne_nil record.occupied
  have fits := record.fits
  rw [tlsRecordHeaderValid, record.recordLength_encode]
  simp only [Bool.and_eq_true, decide_eq_true_eq, ne_eq, decide_not, Bool.not_eq_true',
    decide_eq_false_iff_not]
  exact ⟨⟨⟨rfl, record.versionValid⟩, by omega⟩, fits⟩

/-- Collecting whole records takes the bodies of the handshake records and notes their spans.
Witness: induction on the records left, which the chunk ends with.
-/
theorem collectLoop_encoded {data : List UInt8} {records : List PlainRecord} {fuel offset : Nat}
    (enough : records.length < fuel) (inside : offset ≤ data.length)
    (ends : data.drop offset = encodeRecords records) (collected : Collected)
    : collectLoop data fuel offset collected
      = .ok (data.length,
          { collected with
            bytes := collected.bytes ++ handshakeBytes records
            spans := collected.spans ++ handshakeSpans offset records }) := by
  induction records generalizing fuel offset collected with
  | nil =>
    obtain ⟨fuel, rfl⟩ := Nat.exists_eq_succ_of_ne_zero (Nat.ne_of_gt enough)
    have stop : data.length = offset := by
      have short := congrArg List.length ends
      rw [List.length_drop] at short
      simp only [encodeRecords, List.flatMap_nil, List.length_nil] at short
      omega
    unfold collectLoop
    dsimp only
    rw [ends, if_pos (by simp [encodeRecords, tlsRecordHeaderLength]), stop]
    simp [handshakeBytes, handshakeSpans]
  | cons record rest ih =>
    obtain ⟨fuel, rfl⟩ := Nat.exists_eq_succ_of_ne_zero (Nat.ne_of_gt (Nat.zero_lt_of_lt enough))
    have headed : data.drop offset = record.encode ++ encodeRecords rest := ends
    have size : data.length - offset
        = tlsRecordHeaderLength + record.body.length + (encodeRecords rest).length := by
      rw [← List.length_drop, headed, List.length_append, record.length_encode]
    have next : data.drop (offset + tlsRecordHeaderLength + record.body.length)
        = encodeRecords rest := by
      rw [Nat.add_assoc, ← List.drop_drop, headed, ← record.length_encode, List.drop_left]
    have body : ((record.encode ++ encodeRecords rest).drop tlsRecordHeaderLength).take
        record.body.length = record.body := by
      have split : record.encode
          = [record.type, 0x03, record.minorVersion] ++ bytes16 record.body.length
            ++ record.body := rfl
      rw [split, List.append_assoc, List.drop_left' (by rfl), List.take_left]
    have first : (record.encode ++ encodeRecords rest).getD 0 0 = record.type := rfl
    unfold collectLoop
    dsimp only
    rw [headed, record.valid_encode, record.recordLength_encode, first, body,
      if_neg (by rw [List.length_append, record.length_encode]; omega), if_neg (by simp),
      if_neg record.plain, if_neg (by rw [List.length_append, record.length_encode]; omega)]
    have again (collected : Collected) := @ih fuel
      (offset + tlsRecordHeaderLength + record.body.length) (Nat.lt_of_succ_lt_succ enough)
      (by omega) next collected
    rw [handshakeSpans, handshakeBytes, List.filter_cons]
    by_cases kept : record.type = tlsRecordHandshake
    · have handshake : record.isHandshake = true := decide_eq_true kept
      rw [if_neg (not_not.mpr kept), again, if_pos handshake, if_pos handshake,
        List.flatMap_cons, handshakeBytes]
      simp only [List.append_assoc, List.singleton_append]
    · rw [if_pos kept, again, if_neg (by simpa [PlainRecord.isHandshake] using kept),
        if_neg (by simpa [PlainRecord.isHandshake] using kept), handshakeBytes]

/-- The spans of records laid end to end follow one another. -/
theorem handshakeSpans_placed (offset : Nat) (records : List PlainRecord)
    : SpansPlaced (handshakeSpans offset records)
      ∧ ∀ span ∈ handshakeSpans offset records, offset ≤ span.1 := by
  induction records generalizing offset with
  | nil => exact ⟨⟨.nil, fun _ member => absurd member List.not_mem_nil⟩,
      fun _ member => absurd member List.not_mem_nil⟩
  | cons record rest ih =>
    obtain ⟨placed, after⟩ := ih (offset + tlsRecordHeaderLength + record.body.length)
    rw [handshakeSpans]
    split
    case isTrue =>
      have occupied := List.length_pos_of_ne_nil record.occupied
      refine ⟨⟨List.pairwise_cons.mpr ⟨after, placed.ordered⟩, ?_⟩, ?_⟩
      · intro span member
        rcases List.mem_cons.mp member with rfl | later
        · exact occupied
        · exact placed.occupied span later
      · intro span member
        rcases List.mem_cons.mp member with rfl | later
        · exact Nat.le_add_right _ _
        · exact le_trans (by omega) (after span later)
    case isFalse =>
      exact ⟨placed, fun span member => le_trans (by omega) (after span member)⟩

theorem spanTotal_handshakeSpans (offset : Nat) (records : List PlainRecord)
    : spanTotal (handshakeSpans offset records) = (handshakeBytes records).length := by
  induction records generalizing offset with
  | nil => rfl
  | cons record rest ih =>
    rw [handshakeSpans, handshakeBytes, List.filter_cons]
    split
    case isTrue =>
      rw [List.flatMap_cons, List.length_append, ← handshakeBytes, ← ih, spanTotal, List.map_cons,
        List.sum_cons, spanTotal]
    case isFalse => exact ih _

/-! ### What the packets do not decide -/

section Untraced

variable {Cert : Type} {x509 : X509Parser Cert}
variable {limits : TlsHandshakeLimits Cert}
variable {held : Nat} {left right : Direction Cert}

/-- The row without the packets it is traced to. -/
def TlsHandshake.unstamped (handshake : TlsHandshake Cert) : TlsHandshake Cert :=
  { handshake with first := {}, last := {} }

/-- The direction without its stream's identity and the packets its entries are traced to. -/
def Direction.untraced (direction : Direction Cert) : Direction Cert :=
  { direction with
    orientedKey := {}
    streamId := 0
    first := {}
    last := {}
    handshakes := direction.handshakes.map TlsHandshake.unstamped }

theorem unstamped_extended (handshake : TlsHandshake Cert) (last : PacketStamp)
    : (handshake.extended last).unstamped = handshake.unstamped := by
  unfold TlsHandshake.extended
  split <;> rfl

/-- A chain reads alike under other packet stamps. -/
theorem parseCertificates_alike {body : List UInt8} {chain : TlsList (TlsCertificate Cert)}
    (handshake : TlsHandshake Cert) (first last : PacketStamp)
    : Alike (fun read other => read.held = other.held ∧ read.chain = other.chain
          ∧ read.handshake.unstamped = other.handshake.unstamped)
        (parseCertificates x509 limits body held chain handshake)
        (parseCertificates x509 limits body held chain { handshake with first, last }) := by
  unfold parseCertificates
  refine Alike.require_bind Iff.rfl (Alike.require_bind Iff.rfl ?_)
  refine Alike.ite Iff.rfl (fun _ => .ok ⟨rfl, rfl, rfl⟩) fun _ => ?_
  refine Alike.ite Iff.rfl (fun _ => .ok ⟨rfl, rfl, rfl⟩) fun _ => ?_
  refine Alike.bind (Alike.refl _) fun walk other same => ?_
  subst same
  cases walk with
  | broken => exact .ok ⟨rfl, rfl, rfl⟩
  | excessive =>
    refine .ok ⟨rfl, rfl, ?_⟩
    unfold TlsHandshake.overCertificateLimit
    dsimp only
    split <;> rfl
  | whole after certificates =>
    exact Alike.require_bind Iff.rfl (Alike.require_bind Iff.rfl (.ok ⟨rfl, rfl, rfl⟩))

theorem eq_stamped_of_unstamped {left right : TlsHandshake Cert}
    (same : left.unstamped = right.unstamped)
    : right = { left with first := right.first, last := right.last } := by
  have whole : right = { right.unstamped with first := right.first, last := right.last } := rfl
  rw [← same] at whole
  exact whole

theorem unstamped_setChain {left right : TlsHandshake Cert}
    (same : left.unstamped = right.unstamped) (chain : TlsList (TlsCertificate Cert))
    : (left.setChain chain).unstamped = (right.setChain chain).unstamped := by
  rw [eq_stamped_of_unstamped same]
  unfold TlsHandshake.setChain
  dsimp only
  split <;> rfl

theorem readCertificates_alike {body : List UInt8} {left right : TlsHandshake Cert}
    (same : left.unstamped = right.unstamped)
    : Alike (fun read other => read.1 = other.1 ∧ read.2.unstamped = other.2.unstamped)
        (readCertificates x509 limits body held left)
        (readCertificates x509 limits body held right) := by
  rw [eq_stamped_of_unstamped same]
  refine Alike.bind (parseCertificates_alike left right.first right.last) fun read other agree => ?_
  obtain ⟨held, chain, handshake⟩ := agree
  exact .ok ⟨held, chain ▸ unstamped_setChain handshake read.chain⟩

/-! ### Messages -/

theorem untraced_push (same : left.untraced = right.untraced) (client : Bool)
    (handshake : TlsHandshake Cert) (sessionId : List UInt8)
    (stamps others : PacketStamp × PacketStamp)
    : (left.push client handshake sessionId stamps).untraced
      = (right.push client handshake sessionId others).untraced := by
  have pushed (direction : Direction Cert) (stamps : PacketStamp × PacketStamp)
      : (direction.push client handshake sessionId stamps).untraced
        = { direction.untraced with
            client := direction.untraced.client || client
            handshakes := direction.untraced.handshakes ++ [handshake.unstamped]
            sessionIds := direction.untraced.sessionIds ++ [sessionId] } := by
    simp [Direction.push, Direction.untraced, TlsHandshake.unstamped]
  rw [pushed, pushed, same]

theorem untraced_setLatest (same : left.untraced = right.untraced)
    {latest other : TlsHandshake Cert} (agree : latest.unstamped = other.unstamped)
    : (left.setLatest latest).untraced = (right.setLatest other).untraced := by
  have set (direction : Direction Cert) (latest : TlsHandshake Cert)
      : (direction.setLatest latest).untraced
        = { direction.untraced with
            handshakes := direction.untraced.handshakes.dropLast ++ [latest.unstamped] } := by
    simp [Direction.setLatest, Direction.untraced, List.map_dropLast]
  rw [set, set, same, agree]

theorem untraced_limited (same : left.untraced = right.untraced) (error : String)
    : (left.limited error).untraced = (right.limited error).untraced :=
  congrArg (fun direction => direction.limited error) same

theorem untraced_certified (same : left.untraced = right.untraced)
    : left.certified?.map TlsHandshake.unstamped = right.certified?.map TlsHandshake.unstamped := by
  have kept (direction : Direction Cert)
      : direction.certified?.map TlsHandshake.unstamped = direction.untraced.certified? := by
    unfold Direction.certified? Direction.untraced
    dsimp only
    rw [List.getLast?_map, Option.filter_map]
    rfl
  rw [kept, kept, same]

/-- The stamps of every message are found. -/
def Stamps (chunk : TcpStreamChunk) (bytes : List UInt8) (spans : List (Nat × Nat)) : Prop :=
  ∀ offset length, 0 < length → offset + length ≤ bytes.length →
    ∃ stamps, messageStamps chunk spans offset length = .ok stamps

/-- Two passes end alike, or go on from states that agree but for their packets. -/
inductive Pass.Agrees : Pass Cert → Pass Cert → Prop
  | stop {left right : Direction Cert} (truncated : Bool) (same : left.untraced = right.untraced)
    : Pass.Agrees (.stop truncated left) (.stop truncated right)
  | next {left right : Direction Cert} (offset held : Nat) (same : left.untraced = right.untraced)
    : Pass.Agrees (.next { offset, held, direction := left })
        (.next { offset, held, direction := right })

/-- Reading one message in states that agree but for their packets. -/
theorem messagePass_alike {chunk other : TcpStreamChunk} {bytes : List UInt8}
    {spans places : List (Nat × Nat)} (stamps : Stamps chunk bytes spans)
    (others : Stamps other bytes places) {offset : Nat} (same : left.untraced = right.untraced)
    : Alike Pass.Agrees
        (messagePass x509 limits chunk bytes spans { offset, held, direction := left })
        (messagePass x509 limits other bytes places { offset, held, direction := right }) := by
  unfold messagePass
  dsimp only
  refine Alike.ite Iff.rfl (fun _ => .ok (.stop _ same)) fun unfinished => ?_
  by_cases inside : offset ≤ bytes.length
  case neg =>
    rw [require, if_neg inside]
    exact .error _
  rw [require_eq_ok _ inside, ok_bind, ok_bind]
  refine Alike.ite Iff.rfl (fun _ => .ok (.stop _ (untraced_limited same _))) fun _ => ?_
  refine Alike.ite Iff.rfl (fun _ => .ok (.stop _ same)) fun whole => ?_
  generalize announced (bytes.drop offset) = message at whole
  -- a whole message has its stamps in both chunks
  obtain ⟨first, stamped⟩ := stamps offset (message.length + 4) (by omega) (by omega)
  obtain ⟨second, again⟩ := others offset (message.length + 4) (by omega) (by omega)
  refine Alike.ite Iff.rfl (fun _ => ?_) fun _ => ?_
  · have count : left.handshakes.length = right.handshakes.length := by
      have sizes := congrArg (fun direction => direction.handshakes.length) same
      simpa [Direction.untraced] using sizes
    unfold helloPass
    dsimp only
    refine Alike.ite (by rw [count]) (fun _ => .ok (.stop _ (untraced_limited same _))) fun _ => ?_
    refine Alike.bind (Alike.refl _) fun hello read equal => ?_
    subst equal
    rw [stamped, again]
    exact .ok (.next _ _ (untraced_push same _ hello.1 hello.2 first second))
  · refine Alike.ite Iff.rfl (fun _ => ?_) fun _ => .ok (.next _ _ same)
    unfold certificatePass
    have certified := untraced_certified same
    cases asked : left.certified? with
    | none =>
      rw [asked, Option.map_none, eq_comm, Option.map_eq_none_iff] at certified
      rw [certified]
      exact .ok (.next _ _ same)
    | some latest =>
      rw [asked, Option.map_some, eq_comm, Option.map_eq_some_iff] at certified
      obtain ⟨entry, answered, agree⟩ := certified
      rw [answered]
      dsimp only
      refine Alike.bind (readCertificates_alike agree.symm) fun read reread equal => ?_
      rw [stamped, again, ok_bind, ok_bind, equal.1]
      refine .ok (.next _ _ (untraced_setLatest same ?_))
      rw [unstamped_extended, unstamped_extended, equal.2]

/-- Reading the same bytes leaves directions that agree but for their packets, by induction on the
fuel.
-/
theorem messageLoop_alike {chunk other : TcpStreamChunk} {bytes : List UInt8}
    {spans places : List (Nat × Nat)} (stamps : Stamps chunk bytes spans)
    (others : Stamps other bytes places) {fuel offset : Nat} (same : left.untraced = right.untraced)
    : Alike (fun read again => read.1 = again.1 ∧ read.2.untraced = again.2.untraced)
        (messageLoop x509 limits chunk bytes spans fuel { offset, held, direction := left })
        (messageLoop x509 limits other bytes places fuel { offset, held, direction := right }) := by
  induction fuel generalizing offset held left right with
  | zero => exact .error _
  | succ fuel ih =>
    refine Alike.bind (messagePass_alike stamps others same) fun pass again agrees => ?_
    cases agrees with
    | stop truncated same => exact .ok ⟨rfl, same⟩
    | next offset held same => exact ih same

theorem Stamps.located {chunk : TcpStreamChunk} {bytes : List UInt8} {spans : List (Nat × Nat)}
    (stamps : Stamps chunk bytes spans)
    : Located chunk bytes spans fun _ => False := by
  intro offset length some_ inside
  obtain ⟨found, stamped⟩ := stamps offset length some_ inside
  rw [stamped]
  exact .ok trivial

/-! ### Streams -/

/-- A SYN-anchored stream of one chunk that carries some handshake bytes, cut into records of which
the first is a handshake record.
-/
structure Fragments (bytes : List UInt8) (records : List PlainRecord) (chunk : TcpStreamChunk)
    (stream : TcpStream)
    : Prop where
  leading : ∃ first rest, records = first :: rest ∧ first.type = tlsRecordHandshake
  bytes : handshakeBytes records = bytes
  single : stream.chunks = [chunk]
  placed : chunk.offset = 0
  data : chunk.data = encodeRecords records
  traced : chunk.Traced
  anchored : stream.synSeen = true
  status : stream.status = .contiguous ∨ stream.status = .gapped

namespace Fragments

variable {bytes : List UInt8} {records : List PlainRecord} {chunk : TcpStreamChunk}
variable {stream : TcpStream}

/-- Collecting joins the bodies of the handshake records. -/
theorem collects (fragments : Fragments bytes records chunk stream)
    : collectHandshakeBytes chunk 0
      = .ok { truncated := false, bytes, spans := handshakeSpans 0 records } := by
  have count : records.length ≤ chunk.data.length := by
    rw [fragments.data]
    refine (List.length_flatMap ▸ ?_ : records.length ≤ (records.flatMap PlainRecord.encode).length)
    refine List.length_le_sum_of_one_le _ ?_ |>.trans_eq' (by simp)
    intro size member
    obtain ⟨record, _, rfl⟩ := List.mem_map.mp member
    rw [record.length_encode, tlsRecordHeaderLength]
    omega
  unfold collectHandshakeBytes
  rw [require_eq_ok _ (Nat.zero_le _), ok_bind,
    collectLoop_encoded (Nat.lt_succ_of_le count) (Nat.zero_le _)
      (show chunk.data.drop 0 = encodeRecords records from fragments.data) {}, ok_bind,
    require_eq_ok _ le_rfl, ok_bind, fragments.bytes]
  rfl

/-- The packets of any handshake bytes are found. -/
theorem stamps (fragments : Fragments bytes records chunk stream)
    : Stamps chunk bytes (handshakeSpans 0 records) := by
  intro offset length some_ inside
  have total : offset + length ≤ spanTotal (handshakeSpans 0 records) := by
    rw [spanTotal_handshakeSpans, fragments.bytes]
    exact inside
  obtain ⟨first, last, _, _, _, located⟩ :=
    (handshakeSpans_placed 0 records).1.locate_eq some_ total
  obtain ⟨stamps, traced⟩ := fragments.traced.provenance_returns first (last + 1 - first)
  unfold messageStamps
  rw [located, ok_bind]
  dsimp only
  rw [traced]
  exact ⟨stamps, rfl⟩

theorem begins (fragments : Fragments bytes records chunk stream)
    : beginsHandshake chunk.data = true := by
  obtain ⟨first, rest, rfl, handshake⟩ := fragments.leading
  have headed : chunk.data = first.encode ++ encodeRecords rest := fragments.data
  rw [beginsHandshake, headed, first.valid_encode, List.length_append, first.length_encode]
  have type : (first.encode ++ encodeRecords rest).getD 0 0 = tlsRecordHandshake := handshake
  rw [type]
  simp only [decide_true, Bool.and_true, decide_eq_true_eq]
  omega

theorem occupied (fragments : Fragments bytes records chunk stream) : bytes ≠ [] := by
  obtain ⟨first, rest, rfl, handshake⟩ := fragments.leading
  have leads : first.isHandshake = true := decide_eq_true handshake
  rw [← fragments.bytes, handshakeBytes, List.filter_cons, if_pos leads, List.flatMap_cons]
  exact List.append_ne_nil_of_left_ne_nil first.occupied _

/-- Parsing the stream parses the messages in its bytes. -/
theorem parse_eq (fragments : Fragments bytes records chunk stream)
    : parse x509 limits stream = (do
        let read ← messageLoop x509 limits chunk bytes (handshakeSpans 0 records)
          (bytes.length + 1) { direction := Direction.ofStream stream }
        return ((read.2.cut stream read.1).anchored stream).oriented stream) := by
  have sound : ¬ (stream.status = .conflict ∨ stream.status = .limit) := by
    rcases fragments.status with contiguous | gapped
    · simp [contiguous]
    · simp [gapped]
  have leads : leadingChunk? stream = some chunk := by
    rw [leadingChunk?, fragments.single]
    simp [fragments.placed]
  unfold parse
  rw [if_neg sound, leads]
  dsimp only
  rw [if_pos fragments.begins]
  unfold parseRecords
  rw [fragments.collects, ok_bind, if_neg fragments.occupied]
  unfold parseMessages
  rw [require_eq_ok _ fragments.occupied, ok_bind]
  rfl

/-- How the messages ended is judged by the bytes and by whether a gap follows them. -/
theorem untraced_judged (fragments : Fragments bytes records chunk stream)
    (direction : Direction Cert) (truncated : Bool)
    : (((direction.cut stream truncated).anchored stream).oriented stream).untraced
      = if truncated ∧ direction.untraced.status = .unset then
          { direction.untraced with
            status := .incomplete
            error :=
              if stream.gaps ≠ [] then "missing TCP bytes leave a sequence gap"
              else "TLS handshake continues past the captured bytes" }
        else direction.untraced := by
  have anchored (other : Direction Cert) : other.anchored stream = other := by
    refine if_neg fun unanchored => ?_
    rcases fragments.status with contiguous | gapped
    · rw [contiguous] at unanchored
      cases unanchored.2
    · rw [gapped] at unanchored
      cases unanchored.2
  have oriented (other : Direction Cert)
      : (other.oriented stream).untraced = other.untraced := by
    unfold Direction.oriented
    split <;> rfl
  rw [anchored, oriented]
  unfold Direction.cut
  split
  case isTrue ended => exact (if_pos ended).symm
  case isFalse whole => exact (if_neg whole).symm

end Fragments

/-- How handshake bytes are cut into records, and what other records stand between them, changes
nothing but the packets the entries are traced to. Only the text of the error tells whether a gap
follows the bytes.
-/
theorem parse_fragments {bytes : List UInt8} {records others : List PlainRecord}
    {chunk another : TcpStreamChunk} {left right : TcpStream}
    (cut : Fragments bytes records chunk left) (recut : Fragments bytes others another right)
    : (collectHandshakeBytes chunk 0).map (fun collected => (collected.truncated, collected.bytes))
        = (collectHandshakeBytes another 0).map
            (fun collected => (collected.truncated, collected.bytes))
      ∧ ∃ direction other, parse x509 limits left = .ok direction
        ∧ parse x509 limits right = .ok other
        ∧ { direction.untraced with error := "" } = { other.untraced with error := "" }
        ∧ ((left.gaps = [] ↔ right.gaps = []) → direction.untraced = other.untraced) := by
  refine ⟨?_, ?_⟩
  · rw [cut.collects, recut.collects]
    rfl
  · obtain ⟨read, first, _⟩ := Ensures.returns (@messageLoop_budgeted _ x509 limits _ _ _ _
      (Direction.ofStream left) cut.stamps.located rfl)
    obtain ⟨again, second, _⟩ := Ensures.returns (@messageLoop_budgeted _ x509 limits _ _ _ _
      (Direction.ofStream right) recut.stamps.located rfl)
    have alike := @messageLoop_alike _ x509 limits 0 (Direction.ofStream left)
      (Direction.ofStream right) _ _ _ _ _ cut.stamps recut.stamps (bytes.length + 1) 0 rfl
    rw [first, second] at alike
    cases alike with
    | ok same =>
      rw [cut.parse_eq, recut.parse_eq, first, second]
      refine ⟨_, _, rfl, rfl, ?_, fun gaps => ?_⟩
      · rw [cut.untraced_judged, recut.untraced_judged, same.1, same.2]
        split <;> rfl
      · rw [cut.untraced_judged, recut.untraced_judged, same.1, same.2]
        simp only [ne_eq, gaps]

end Untraced

theorem handshake_ne_changeCipherSpec : tlsRecordHandshake ≠ tlsRecordChangeCipherSpec := by
  decide

/-- A record of the given type, version 3.1. -/
def recordOf (type : UInt8) (body : List UInt8) (occupied : body ≠ [])
    (fits : body.length ≤ tlsMaxRecordLength) (plain : type ≠ tlsRecordChangeCipherSpec)
    : PlainRecord where
  type
  minorVersion := 1
  body
  versionValid := by decide
  occupied
  fits
  plain

theorem fragments_streamOf {bytes : List UInt8} {records : List PlainRecord} (key : TcpFlowKey)
    (number : Nat)
    (leading : ∃ first rest, records = first :: rest ∧ first.type = tlsRecordHandshake)
    (joined : handshakeBytes records = bytes) (fits : (encodeRecords records).length < 2 ^ 32)
    : ∃ chunk, Fragments bytes records chunk (streamOf key true number (encodeRecords records)) := by
  have occupied : 0 < (encodeRecords records).length := by
    obtain ⟨first, rest, rfl, _⟩ := leading
    rw [encodeRecords, List.flatMap_cons, List.length_append, first.length_encode,
      tlsRecordHeaderLength]
    omega
  have size : (UInt32.ofNat (encodeRecords records).length).toNat = (encodeRecords records).length :=
    UInt32.toNat_ofNat_of_lt' fits
  refine ⟨_, leading, joined, rfl, rfl, rfl, ⟨fits, ?_⟩, rfl, .inl rfl⟩
  refine .cons rfl (by rw [size]; exact occupied) ?_
  dsimp only
  rw [size, Nat.zero_add]
  exact .nil _

/-- The message in one record. -/
def wholeRecords : List PlainRecord :=
  [recordOf tlsRecordHandshake (encodeMessage tlsHandshakeClientHello plainClientHello)
    (by decide) (by decide) handshake_ne_changeCipherSpec]

/-- The message in two records with an alert between them. -/
def splitRecords : List PlainRecord :=
  [recordOf tlsRecordHandshake ((encodeMessage tlsHandshakeClientHello plainClientHello).take 9)
      (by decide) (by decide) handshake_ne_changeCipherSpec,
    recordOf 21 [1, 0] (by decide) (by decide) (by decide),
    recordOf tlsRecordHandshake ((encodeMessage tlsHandshakeClientHello plainClientHello).drop 9)
      (by decide) (by decide) handshake_ne_changeCipherSpec]

/-- A ClientHello is parsed the same from one record as from two with an alert between them. -/
theorem parse_fragments_split
    : ∃ direction other,
        parse noCertificates {} (streamOf {} true 1 (encodeRecords wholeRecords)) = .ok direction
        ∧ parse noCertificates {} (streamOf {} true 2 (encodeRecords splitRecords)) = .ok other
        ∧ direction.untraced = other.untraced := by
  obtain ⟨chunk, whole⟩ := fragments_streamOf {} 1 ⟨_, [], rfl, rfl⟩
    (show handshakeBytes wholeRecords
      = encodeMessage tlsHandshakeClientHello plainClientHello by decide +kernel)
    (by decide +kernel)
  obtain ⟨other, split⟩ := fragments_streamOf {} 2 ⟨_, _, rfl, rfl⟩
    (show handshakeBytes splitRecords
      = encodeMessage tlsHandshakeClientHello plainClientHello by decide +kernel)
    (by decide +kernel)
  obtain ⟨_, direction, again, first, second, _, same⟩ := parse_fragments whole split
  exact ⟨direction, again, first, second, same Iff.rfl⟩

end PacketQuapture.Tls
