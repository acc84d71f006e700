import PacketQuapture.Tls.HelloForm
import PacketQuapture.Tls.MessageRuns

/-! The certificate text a direction holds.
Between two messages it is exactly what the chains on the direction's entries charged, and a chain
that is dropped gives its charge back.
-/

namespace PacketQuapture.Tls

open Library Reassembly

variable {Cert : Type} {x509 : X509Parser Cert}
variable {limits : TlsHandshakeLimits Cert}

/-! ### Chains on the wire -/

/-- The certificates of a Certificate message. -/
def encodeDers (ders : List (List UInt8)) : List UInt8 :=
  ders.flatMap fun der => bytes24 der.length ++ der

/-- The certificate a DER encoding is reported as: what it parses to and what its text charges, or
its place in the chain.
-/
def CertificateOf (x509 : X509Parser Cert) (limits : TlsHandshakeLimits Cert)
    (der : List UInt8) (certificate : TlsCertificate Cert)
    : Prop :=
  let read := x509.parseX509Certificate der limits.maxListEntries
  read.1 = .ok
    ∧ certificate =
      { parsed := true
        fields := (limits.certificateDigest.map fun digest => digest der read.2).getD read.2
        budgetBytes := x509.textBytes read.2
          + (if limits.certificateDigest.isSome then 40 + 64 else 0) }
  ∨ read.1 = .malformed ∧ certificate = { fields := read.2 }

/-- The body of a Certificate message encodes this chain. -/
def EncodesChain (x509 : X509Parser Cert) (limits : TlsHandshakeLimits Cert)
    (chain : List (TlsCertificate Cert)) (body : List UInt8)
    : Prop :=
  ∃ ders, (∀ der ∈ ders, der.length < 2 ^ 24) ∧ (encodeDers ders).length < 2 ^ 24
    ∧ body = bytes24 (encodeDers ders).length ++ encodeDers ders
    ∧ List.Forall₂ (CertificateOf x509 limits) ders chain

theorem encodeDers_cons (der : List UInt8) (ders : List (List UInt8))
    : encodeDers (der :: ders) = bytes24 der.length ++ (der ++ encodeDers ders) := by
  rw [encodeDers, List.flatMap_cons, List.append_assoc]
  rfl

theorem bytes24_append_inj {first second : Nat} {left right : List UInt8} (fits : first < 2 ^ 24)
    (bounded : second < 2 ^ 24) (same : bytes24 first ++ left = bytes24 second ++ right)
    : first = second ∧ left = right := by
  have read := TlsReader.u24_bytes24 fits left
  rw [same, TlsReader.u24_bytes24 bounded, Prod.mk.injEq, TlsReader.mk.injEq] at read
  exact ⟨read.1.symm, read.2.1.symm⟩

/-- The text some certificates charge. -/
def textOf (certificates : List (TlsCertificate Cert)) : Nat :=
  (certificates.map TlsCertificate.budgetBytes).sum

theorem textOf_append (first second : List (TlsCertificate Cert))
    : textOf (first ++ second) = textOf first + textOf second := by
  rw [textOf, List.map_append, List.sum_append]
  rfl

/-- A certificate within the limits is reported, and its charge stays within the budget. -/
theorem readCertificate_within {der : List UInt8} {before held : Nat}
    (bounded : held ≤ limits.maxDirectionCertificateBytes)
    (within : (readCertificate x509 limits der before held).1 ≠ .overLimit)
    : CertificateOf x509 limits der (readCertificate x509 limits der before held).2
      ∧ before < limits.maxCertificates
      ∧ held + (readCertificate x509 limits der before held).2.budgetBytes
        ≤ limits.maxDirectionCertificateBytes := by
  unfold CertificateOf
  unfold readCertificate at within ⊢
  generalize x509.parseX509Certificate der limits.maxListEntries = read at within ⊢
  generalize (if limits.certificateDigest.isSome = true then 40 + 64 else 0) = hashes at within ⊢
  dsimp only at within ⊢
  by_cases few : before < limits.maxCertificates ∧ der.length ≤ limits.maxCertificateBytes
  case neg =>
    rw [if_neg few] at within
    exact absurd rfl within
  case pos =>
    rw [if_pos few] at within ⊢
    by_cases long : read.1 = .ok ∧ limits.maxDirectionCertificateBytes - held
        < x509.textBytes read.2 + hashes
    case pos =>
      rw [if_pos long] at within
      exact absurd rfl within
    case neg =>
      rw [if_neg long] at within ⊢
      by_cases parsed : read.1 = .ok
      case pos =>
        rw [if_pos parsed]
        have room := Nat.le_of_not_lt fun short => long ⟨parsed, short⟩
        exact ⟨.inl ⟨parsed, rfl⟩, few.1, (by dsimp only; omega)⟩
      case neg =>
        rw [if_neg parsed] at within ⊢
        refine ⟨.inr ⟨?_, rfl⟩, few.1, bounded⟩
        cases result : read.1 with
        | ok => exact absurd result parsed
        | malformed => rfl
        | overLimit => exact absurd result within

/-- What a pass over the rest of a chain does: it ends, breaks off or takes the next certificate. -/
inductive ChainPass.Takes (x509 : X509Parser Cert) (limits : TlsHandshakeLimits Cert)
    (bytes : List UInt8) (held : Nat) (certificates : List (TlsCertificate Cert))
    : ChainPass Cert → Prop
  | ended (none : bytes = [])
    : ChainPass.Takes x509 limits bytes held certificates (.stop (.whole held certificates))
  | broken (unwritten : ∀ ders, (∀ der ∈ ders, der.length < 2 ^ 24) → bytes ≠ encodeDers ders)
    : ChainPass.Takes x509 limits bytes held certificates (.stop .broken)
  | excessive : ChainPass.Takes x509 limits bytes held certificates (.stop .excessive)
  | next {der rest : List UInt8} (fits : der.length < 2 ^ 24)
    (split : bytes = bytes24 der.length ++ (der ++ rest))
    (within : (readCertificate x509 limits der certificates.length held).1 ≠ .overLimit)
    : ChainPass.Takes x509 limits bytes held certificates
        (.next { rest }
          (held + (readCertificate x509 limits der certificates.length held).2.budgetBytes)
          (certificates ++ [(readCertificate x509 limits der certificates.length held).2]))

/-- A pass ends the walk, breaks it off or takes a certificate. -/
theorem chainPass_takes (x509 : X509Parser Cert) (limits : TlsHandshakeLimits Cert)
    (bytes : List UInt8) (held : Nat) (certificates : List (TlsCertificate Cert))
    : (chainPass x509 limits { rest := bytes } held certificates).Takes x509 limits bytes held
        certificates := by
  unfold chainPass
  by_cases ended : bytes = []
  · rw [ended, if_neg (by simp [TlsReader.remaining])]
    exact .ended rfl
  rw [if_pos (by simpa [TlsReader.remaining] using List.length_pos_of_ne_nil ended)]
  dsimp only
  -- bytes that encode certificates begin with the length of the first
  have unwritten (short : ∀ (der : List UInt8) (rest : List UInt8), der.length < 2 ^ 24 →
      bytes ≠ bytes24 der.length ++ (der ++ rest)) (ders : List (List UInt8))
      (valid : ∀ der ∈ ders, der.length < 2 ^ 24)
      : bytes ≠ encodeDers ders := by
    cases ders with
    | nil => exact ended
    | cons der ders =>
      rw [encodeDers_cons]
      exact short der _ (valid der List.mem_cons_self)
  rcases TlsReader.u24_cases bytes with ⟨overrun, few⟩ | ⟨length, rest, fits, rfl, read⟩
  · rw [if_pos overrun]
    refine .broken (unwritten fun der rest _ same => ?_)
    rw [same] at few
    simp only [bytes24, bytes16, List.length_append, List.length_cons] at few
    omega
  rw [read]
  dsimp only
  rw [if_neg Bool.false_ne_true]
  by_cases cut : rest.length < length
  · rw [TlsReader.take_short cut]
    refine .broken (unwritten fun der following valid same => ?_)
    obtain ⟨rfl, rfl⟩ := bytes24_append_inj fits valid same
    rw [List.length_append] at cut
    omega
  obtain ⟨der, rest, rfl, rfl⟩ : ∃ der following, rest = der ++ following
      ∧ der.length = length := by
    refine ⟨_, _, (List.take_append_drop length rest).symm, ?_⟩
    rw [List.length_take, Nat.min_eq_left (Nat.le_of_not_lt cut)]
  rw [TlsReader.take_append]
  dsimp only
  split
  case isTrue => exact .excessive
  case isFalse within => exact .next fits rfl within

/-- How the walk over a Certificate message ends, from the certificates before it on. -/
inductive ChainRead.Reads (x509 : X509Parser Cert) (limits : TlsHandshakeLimits Cert)
    (bytes : List UInt8) (held : Nat) (certificates : List (TlsCertificate Cert))
    : ChainRead Cert → Prop
  | broken (unwritten : ∀ ders, (∀ der ∈ ders, der.length < 2 ^ 24) → bytes ≠ encodeDers ders)
    : ChainRead.Reads x509 limits bytes held certificates .broken
  | excessive : ChainRead.Reads x509 limits bytes held certificates .excessive
  | whole {ders : List (List UInt8)} {more : List (TlsCertificate Cert)}
    (valid : ∀ der ∈ ders, der.length < 2 ^ 24) (written : bytes = encodeDers ders)
    (reported : List.Forall₂ (CertificateOf x509 limits) ders more)
    (few : (certificates ++ more).length ≤ limits.maxCertificates)
    (bounded : held + textOf more ≤ limits.maxDirectionCertificateBytes)
    : ChainRead.Reads x509 limits bytes held certificates
        (.whole (held + textOf more) (certificates ++ more))

/-- The loop over certificates ends within its fuel.
Witness: induction on the fuel; a pass takes at least the bytes of the length.
-/
theorem certificateLoop_reads {fuel : Nat} {bytes : List UInt8} (enough : bytes.length < fuel)
    {held : Nat} {certificates : List (TlsCertificate Cert)}
    (bounded : held ≤ limits.maxDirectionCertificateBytes)
    (few : certificates.length ≤ limits.maxCertificates)
    : ∃ read, certificateLoop x509 limits fuel { rest := bytes } held certificates = .ok read
        ∧ read.Reads x509 limits bytes held certificates := by
  induction fuel generalizing bytes held certificates with
  | zero => exact absurd enough (Nat.not_lt_zero _)
  | succ fuel ih =>
    rw [certificateLoop]
    have takes := chainPass_takes x509 limits bytes held certificates
    generalize chainPass x509 limits { rest := bytes } held certificates = pass at takes
    cases takes with
    | ended none =>
      refine ⟨_, rfl, ?_⟩
      have reads := @ChainRead.Reads.whole _ x509 limits bytes held certificates [] []
        (fun _ member => absurd member List.not_mem_nil) none .nil
        (by rw [List.append_nil]; exact few) bounded
      rwa [List.append_nil] at reads
    | broken unwritten => exact ⟨_, rfl, .broken unwritten⟩
    | excessive => exact ⟨_, rfl, .excessive⟩
    | @next der rest fits split within =>
      subst split
      obtain ⟨certificate, room, fitting⟩ := readCertificate_within bounded within
      generalize readCertificate x509 limits der certificates.length held = reported
        at certificate fitting ⊢
      have fewer : rest.length < fuel := by
        simp only [bytes24, bytes16, List.length_append, List.length_cons] at enough
        omega
      obtain ⟨result, looped, reads⟩ := @ih rest fewer (held + reported.2.budgetBytes)
        (certificates ++ [reported.2]) fitting (by simp; omega)
      refine ⟨result, looped, ?_⟩
      cases reads with
      | broken unwritten =>
        refine .broken fun ders valid same => ?_
        cases ders with
        | nil => exact absurd same (by simp [encodeDers, bytes24])
        | cons other ders =>
          rw [encodeDers_cons] at same
          obtain ⟨long, same⟩ := bytes24_append_inj fits (valid other List.mem_cons_self) same
          obtain ⟨_, following⟩ := List.append_inj same long
          exact unwritten ders
            (fun der member => valid der (List.mem_cons_of_mem _ member)) following
      | excessive => exact .excessive
      | @whole ders more valid same reports few bounded =>
        rw [same, ← encodeDers_cons, List.append_assoc, List.singleton_append, Nat.add_assoc]
        rw [List.append_assoc, List.singleton_append] at few
        rw [Nat.add_assoc] at bounded
        exact @ChainRead.Reads.whole _ x509 limits _ held certificates (der :: ders)
          (reported.2 :: more) (List.forall_mem_cons.mpr ⟨fits, valid⟩) rfl
          (.cons certificate reports) few bounded

/-! ### Points inside a chain -/

/-- The points of the walk over a chain: the bytes left, the text held and the certificates so far.
-/
inductive Walks (x509 : X509Parser Cert) (limits : TlsHandshakeLimits Cert)
    (start : List UInt8) (before : Nat)
    : List UInt8 → Nat → List (TlsCertificate Cert) → Prop
  | start : Walks x509 limits start before start before []
  | pass {bytes rest : List UInt8} {held after : Nat}
    {certificates more : List (TlsCertificate Cert)}
    (walks : Walks x509 limits start before bytes held certificates)
    (passed : chainPass x509 limits { rest := bytes } held certificates
      = .next { rest } after more)
    : Walks x509 limits start before rest after more

/-- A pass that goes on takes bytes, and charges the certificate it adds within the budget. -/
theorem chainPass_charges {bytes rest : List UInt8} {held after : Nat}
    {certificates more : List (TlsCertificate Cert)}
    (bounded : held ≤ limits.maxDirectionCertificateBytes)
    (passed : chainPass x509 limits { rest := bytes } held certificates
      = .next { rest } after more)
    : rest.length < bytes.length
      ∧ ∃ certificate, more = certificates ++ [certificate]
        ∧ after = held + certificate.budgetBytes
        ∧ after ≤ limits.maxDirectionCertificateBytes := by
  have takes := chainPass_takes x509 limits bytes held certificates
  rw [passed] at takes
  cases takes with
  | next fits split within =>
    refine ⟨?_, _, rfl, rfl, (readCertificate_within bounded within).2.2⟩
    rw [split]
    simp only [bytes24, bytes16, List.length_append, List.length_cons]
    omega

/-- The points of a walk are those of the loop over the certificates, and the text held at each is
what the certificates so far charged on top of the text before.
-/
theorem Walks.charged {start bytes : List UInt8} {before held : Nat}
    {certificates : List (TlsCertificate Cert)}
    (bounded : before ≤ limits.maxDirectionCertificateBytes)
    (walks : Walks x509 limits start before bytes held certificates)
    : (∃ fuel, bytes.length < fuel
        ∧ certificateLoop x509 limits (start.length + 1) { rest := start } before []
          = certificateLoop x509 limits fuel { rest := bytes } held certificates)
      ∧ held = before + textOf certificates ∧ held ≤ limits.maxDirectionCertificateBytes := by
  induction walks with
  | start => exact ⟨⟨_, Nat.lt_succ_self _, rfl⟩, rfl, bounded⟩
  | pass _ passed ih =>
    obtain ⟨⟨fuel, enough, same⟩, charged, within⟩ := ih
    obtain ⟨shorter, certificate, rfl, rfl, within⟩ := chainPass_charges within passed
    refine ⟨?_, ?_, within⟩
    · obtain ⟨fuel, rfl⟩ := Nat.exists_eq_succ_of_ne_zero (Nat.ne_of_gt (Nat.zero_lt_of_lt enough))
      refine ⟨fuel, by omega, same.trans ?_⟩
      rw [certificateLoop, passed]
    · rw [charged, textOf_append, Nat.add_assoc]
      rfl

/-! ### Certificate messages -/

/-- What a chain holds of its direction's budget. -/
def charge (chain : TlsList (TlsCertificate Cert)) : Nat :=
  if chain.present then chainTextBytes chain else 0

/-- A list not yet read is blank. -/
def TlsList.Untouched {α : Type} (list : TlsList α) : Prop :=
  list.seen = false → list = {}

/-- What a Certificate message comes to, by the chain before it. -/
inductive CertificatesRead.Reads (x509 : X509Parser Cert)
    (limits : TlsHandshakeLimits Cert) (body : List UInt8) (held : Nat)
    (chain : TlsList (TlsCertificate Cert)) (handshake : TlsHandshake Cert)
    : CertificatesRead Cert → Prop
  | repeated (seen : chain.seen = true)
    : CertificatesRead.Reads x509 limits body held chain handshake
        { held := held - charge chain, chain := .broken, handshake }
  | malformed (blank : chain = {})
    (unwritten : ∀ certificates, ¬ EncodesChain x509 limits certificates body)
    : CertificatesRead.Reads x509 limits body held chain handshake
        { held, chain := .broken, handshake }
  | excessive (blank : chain = {})
    : CertificatesRead.Reads x509 limits body held chain handshake
        { held, chain := .excessive, handshake := handshake.overCertificateLimit }
  | whole {certificates : List (TlsCertificate Cert)} (blank : chain = {})
    (written : EncodesChain x509 limits certificates body)
    (few : certificates.length ≤ limits.maxCertificates)
    (bounded : held + textOf certificates ≤ limits.maxDirectionCertificateBytes)
    : CertificatesRead.Reads x509 limits body held chain handshake
        { held := held + textOf certificates
          chain := { present := true, values := certificates }
          handshake }

/-- Within the budget a Certificate message fails no assertion.
Witness: the walk over the chain, from the text the rest of the direction holds.
-/
theorem parseCertificates_reads {held : Nat} {chain : TlsList (TlsCertificate Cert)}
    (body : List UInt8) (handshake : TlsHandshake Cert)
    (bounded : held ≤ limits.maxDirectionCertificateBytes) (charged : charge chain ≤ held)
    (untouched : chain.Untouched)
    : ∃ read, parseCertificates x509 limits body held chain handshake = .ok read
        ∧ read.Reads x509 limits body held chain handshake := by
  have others : (if chain.present then held - chainTextBytes chain else held)
      = held - charge chain := by
    unfold charge
    split <;> rfl
  unfold parseCertificates
  rw [require_eq_ok _ bounded, ok_bind, require_eq_ok _ (fun present => by
    rwa [charge, if_pos present] at charged), ok_bind]
  dsimp only
  rw [others]
  by_cases seen : chain.seen = true
  · rw [if_pos seen]
    exact ⟨_, rfl, .repeated seen⟩
  rw [if_neg seen]
  obtain rfl := untouched (Bool.eq_false_iff.mpr seen)
  have unwritten (short : ∀ ders, (encodeDers ders).length < 2 ^ 24 →
      body ≠ bytes24 (encodeDers ders).length ++ encodeDers ders)
      (certificates : List (TlsCertificate Cert))
      : ¬ EncodesChain x509 limits certificates body := by
    rintro ⟨ders, _, fits, written, _⟩
    exact short ders fits written
  rcases TlsReader.u24_cases body with ⟨overrun, few⟩ | ⟨length, rest, fits, rfl, read⟩
  · rw [if_pos (.inl overrun)]
    refine ⟨_, rfl, .malformed rfl (unwritten fun ders _ written => ?_)⟩
    rw [written] at few
    simp only [bytes24, bytes16, List.length_append, List.length_cons] at few
    omega
  rw [read]
  by_cases framed : rest.length = length
  case neg =>
    rw [if_pos (.inr framed)]
    refine ⟨_, rfl, .malformed rfl (unwritten fun ders within written => ?_)⟩
    obtain ⟨rfl, rfl⟩ := bytes24_append_inj fits within written
    exact framed rfl
  case pos =>
    subst framed
    rw [if_neg (by simp [TlsReader.remaining])]
    obtain ⟨walk, looped, reads⟩ := @certificateLoop_reads _ x509 limits (rest.length + 1) rest
      (Nat.lt_succ_self _) held [] bounded (Nat.zero_le _)
    have same : held - charge ({} : TlsList (TlsCertificate Cert)) = held := rfl
    rw [show ({ rest := rest } : TlsReader).remaining = rest.length from rfl, same, looped, ok_bind]
    cases reads with
    | broken unread =>
      refine ⟨_, rfl, .malformed rfl ?_⟩
      rintro certificates ⟨ders, valid, within, written, _⟩
      obtain ⟨_, written⟩ := bytes24_append_inj fits within written
      exact unread ders valid written
    | excessive => exact ⟨_, rfl, .excessive rfl⟩
    | @whole ders more valid written reported few room =>
      dsimp only
      rw [require_eq_ok _ room, ok_bind, require_eq_ok _ (by
        rw [Nat.add_sub_cancel_left]
        rfl), ok_bind]
      subst written
      exact ⟨_, rfl, .whole rfl ⟨ders, valid, fits, rfl, reported⟩ few room⟩

namespace CertificatesRead.Reads

variable {body : List UInt8} {held : Nat} {chain : TlsList (TlsCertificate Cert)}
variable {handshake : TlsHandshake Cert} {read : CertificatesRead Cert}

/-- A read moves the budget as it moves the chain's charge. -/
theorem exact (reads : read.Reads x509 limits body held chain handshake)
    (charged : charge chain ≤ held)
    : read.held + charge chain = held + charge read.chain := by
  cases reads with
  | repeated => exact Nat.sub_add_cancel charged
  | malformed blank _ => rw [blank]; rfl
  | excessive blank => rw [blank]; rfl
  | whole blank => rw [blank]; rfl

/-- A read stays within the budget of its direction. -/
theorem bounded (reads : read.Reads x509 limits body held chain handshake)
    (before : held ≤ limits.maxDirectionCertificateBytes)
    : read.held ≤ limits.maxDirectionCertificateBytes := by
  cases reads with
  | repeated => exact (Nat.sub_le _ _).trans before
  | malformed => exact before
  | excessive => exact before
  | whole _ _ _ bounded => exact bounded

theorem seen (reads : read.Reads x509 limits body held chain handshake)
    : read.chain.seen = true := by
  cases reads <;> rfl

/-- A read changes the handshake only to mark it over the limit. -/
theorem handshake_eq (reads : read.Reads x509 limits body held chain handshake)
    : read.handshake = handshake
      ∨ read.handshake = handshake.overCertificateLimit ∧ read.chain.overLimit = true := by
  cases reads with
  | repeated => exact .inl rfl
  | malformed => exact .inl rfl
  | excessive => exact .inr ⟨rfl, rfl⟩
  | whole => exact .inl rfl

end CertificatesRead.Reads

/-! ### Directions -/

/-- What the chains of an entry hold. -/
def TlsHandshake.charged (handshake : TlsHandshake Cert) : Nat :=
  charge handshake.serverCertificates + charge handshake.clientCertificates

/-- What the chains of a direction hold. -/
def Direction.charged (direction : Direction Cert) : Nat :=
  (direction.handshakes.map TlsHandshake.charged).sum

/-- The chain of the side the hello is not from. -/
def TlsHandshake.peerChain (handshake : TlsHandshake Cert)
    : TlsList (TlsCertificate Cert) :=
  if handshake.hasServerHello then handshake.clientCertificates else handshake.serverCertificates

/-- An entry has at most the chain of its own side. -/
structure TlsHandshake.Tidy (handshake : TlsHandshake Cert) : Prop where
  own : handshake.chain.Untouched
  peer : handshake.peerChain = {}

namespace TlsHandshake

variable {handshake : TlsHandshake Cert}

theorem chain_setChain (handshake : TlsHandshake Cert)
    (chain : TlsList (TlsCertificate Cert))
    : (handshake.setChain chain).chain = chain := by
  by_cases server : handshake.hasServerHello = true <;> simp [setChain, TlsHandshake.chain, server]

theorem peerChain_setChain (handshake : TlsHandshake Cert)
    (chain : TlsList (TlsCertificate Cert))
    : (handshake.setChain chain).peerChain = handshake.peerChain := by
  by_cases server : handshake.hasServerHello = true <;> simp [setChain, peerChain, server]

theorem Tidy.charged_eq (tidy : handshake.Tidy) : handshake.charged = charge handshake.chain := by
  have peer := tidy.peer
  unfold charged TlsHandshake.chain
  unfold peerChain at peer
  split at peer
  case isTrue server =>
    rw [peer, if_pos server]
    exact Nat.add_zero _
  case isFalse server =>
    rw [peer, if_neg server]
    exact Nat.zero_add _

theorem Tidy.setChain (tidy : handshake.Tidy) {chain : TlsList (TlsCertificate Cert)}
    (untouched : chain.Untouched)
    : (handshake.setChain chain).Tidy := by
  refine ⟨?_, ?_⟩
  · rw [chain_setChain]
    exact untouched
  · rw [peerChain_setChain]
    exact tidy.peer

theorem Tidy.overCertificateLimit (tidy : handshake.Tidy)
    : handshake.overCertificateLimit.Tidy := by
  unfold TlsHandshake.overCertificateLimit
  split
  case isTrue => exact ⟨tidy.own, tidy.peer⟩
  case isFalse => exact tidy

theorem Tidy.extended (tidy : handshake.Tidy) (last : PacketStamp)
    : (handshake.extended last).Tidy := by
  unfold TlsHandshake.extended
  split
  case isTrue => exact ⟨tidy.own, tidy.peer⟩
  case isFalse => exact tidy

theorem charged_extended (handshake : TlsHandshake Cert) (last : PacketStamp)
    : (handshake.extended last).charged = handshake.charged := by
  unfold TlsHandshake.extended
  split <;> rfl

end TlsHandshake

/-- A hello comes without certificates. -/
theorem readHello_blank {client : Bool} {body : List UInt8}
    {hello : TlsHandshake Cert × List UInt8}
    (returned : readHello limits client body = .ok hello)
    : hello.1.serverCertificates = {} ∧ hello.1.clientCertificates = {} := by
  obtain ⟨read, parsed, same⟩ := bind_eq_ok.mp returned
  cases same
  have outline := parseHello_outline parsed
  have kept (handshake : TlsHandshake Cert)
      : (handshake.outline client).serverCertificates = handshake.serverCertificates
        ∧ (handshake.outline client).clientCertificates = handshake.clientCertificates := by
    cases client <;> exact ⟨rfl, rfl⟩
  have blank : (read.handshake.outline client).serverCertificates = {}
      ∧ (read.handshake.outline client).clientCertificates = {} := by
    rw [outline, (kept _).1, (kept _).2]
    cases client <;> split <;> exact ⟨rfl, rfl⟩
  rw [(kept _).1, (kept _).2] at blank
  split
  case isTrue => exact blank
  case isFalse => exact blank

namespace Direction

variable {direction : Direction Cert} {latest handshake : TlsHandshake Cert}

theorem handshakes_of_certified (certified : direction.certified? = some latest)
    : direction.handshakes = direction.handshakes.dropLast ++ [latest] := by
  have last := (Option.filter_eq_some_iff.mp certified).1
  obtain ⟨before, same⟩ := List.getLast?_eq_some_iff.mp last
  rw [same, List.dropLast_concat]

theorem charged_push (client : Bool) (sessionId : List UInt8) (stamps : PacketStamp × PacketStamp)
    (server : handshake.serverCertificates = {}) (peer : handshake.clientCertificates = {})
    : (direction.push client handshake sessionId stamps).charged = direction.charged := by
  unfold charged push
  rw [List.map_append, List.sum_append]
  simp [TlsHandshake.charged, server, peer, charge]

/-- Replacing the latest handshake moves the charge by the difference. -/
theorem charged_setLatest (certified : direction.certified? = some latest)
    : (direction.setLatest handshake).charged + latest.charged
      = direction.charged + handshake.charged := by
  have split : direction.charged
      = (direction.handshakes.dropLast.map TlsHandshake.charged).sum + latest.charged := by
    unfold charged
    rw [handshakes_of_certified certified, List.map_append, List.sum_append, List.dropLast_concat]
    simp
  unfold setLatest
  rw [split]
  simp only [charged, List.map_append, List.sum_append, List.map_cons, List.map_nil, List.sum_cons,
    List.sum_nil]
  omega

end Direction

/-! ### Runs -/

/-- Between two messages the text held is what the direction's chains charged. -/
structure Reading.Budgeted (limits : TlsHandshakeLimits Cert) (reading : Reading Cert)
    : Prop where
  held : reading.held = reading.direction.charged
  bounded : reading.held ≤ limits.maxDirectionCertificateBytes
  tidy : ∀ handshake ∈ reading.direction.handshakes, handshake.Tidy

namespace Reading.Budgeted

variable {reading : Reading Cert} {latest : TlsHandshake Cert}

theorem start {direction : Direction Cert} (fresh : direction.handshakes = [])
    : Reading.Budgeted limits { direction } where
  held := by simp [Direction.charged, fresh]
  bounded := Nat.zero_le _
  tidy := by simp [fresh]

theorem latest_tidy (budgeted : reading.Budgeted limits)
    (certified : reading.direction.certified? = some latest)
    : latest.Tidy := by
  refine budgeted.tidy latest ?_
  rw [Direction.handshakes_of_certified certified]
  exact List.mem_append_right _ (List.mem_singleton_self latest)

theorem charge_le (budgeted : reading.Budgeted limits)
    (certified : reading.direction.certified? = some latest)
    : charge latest.chain ≤ reading.held := by
  have replaced := @Direction.charged_setLatest _ reading.direction latest {} certified
  have nothing : ({} : TlsHandshake Cert).charged = 0 := rfl
  rw [← (budgeted.latest_tidy certified).charged_eq, budgeted.held]
  omega

theorem parseCertificates (budgeted : reading.Budgeted limits)
    (certified : reading.direction.certified? = some latest) (body : List UInt8)
    : ∃ read, parseCertificates x509 limits body reading.held latest.chain latest = .ok read
        ∧ read.Reads x509 limits body reading.held latest.chain latest :=
  parseCertificates_reads body latest budgeted.bounded (budgeted.charge_le certified)
    (budgeted.latest_tidy certified).own

theorem moved (budgeted : reading.Budgeted limits) (offset : Nat)
    : Reading.Budgeted limits { reading with offset } :=
  ⟨budgeted.held, budgeted.bounded, budgeted.tidy⟩

/-- A further hello keeps the budget. -/
theorem push (budgeted : reading.Budgeted limits) {client : Bool} {body : List UInt8}
    {hello : TlsHandshake Cert × List UInt8}
    (returned : readHello limits client body = .ok hello) (offset : Nat)
    (stamps : PacketStamp × PacketStamp)
    : Reading.Budgeted limits
        { offset
          held := reading.held
          direction := reading.direction.push client hello.1 hello.2 stamps } := by
  have blank := readHello_blank returned
  refine ⟨?_, budgeted.bounded, fun handshake member => ?_⟩
  · rw [Direction.charged_push client hello.2 stamps blank.1 blank.2]
    exact budgeted.held
  · rcases List.mem_append.mp member with before | latest
    · exact budgeted.tidy handshake before
    · rw [List.mem_singleton.mp latest]
      have untouched : ({} : TlsList (TlsCertificate Cert)).Untouched := fun _ => rfl
      refine ⟨?_, ?_⟩
      · unfold TlsHandshake.chain
        dsimp only
        rw [blank.1, blank.2, ite_self]
        exact untouched
      · unfold TlsHandshake.peerChain
        dsimp only
        rw [blank.1, blank.2, ite_self]

/-- Reading a chain keeps the budget. -/
theorem setLatest (budgeted : reading.Budgeted limits)
    (certified : reading.direction.certified? = some latest) {body : List UInt8}
    {read : CertificatesRead Cert}
    (reads : read.Reads x509 limits body reading.held latest.chain latest) (offset : Nat)
    (last : PacketStamp)
    : Reading.Budgeted limits
        { offset
          held := read.held
          direction := reading.direction.setLatest
            ((read.handshake.setChain read.chain).extended last) } := by
  have tidy := budgeted.latest_tidy certified
  have certificates : (read.handshake.setChain read.chain).Tidy := by
    have untouched : read.chain.Untouched := by
      intro unseen
      rw [reads.seen] at unseen
      cases unseen
    rcases reads.handshake_eq with same | ⟨same, _⟩
    · rw [same]
      exact tidy.setChain untouched
    · rw [same]
      exact tidy.overCertificateLimit.setChain untouched
  refine ⟨?_, reads.bounded budgeted.bounded, fun handshake member => ?_⟩
  · have replaced := @Direction.charged_setLatest _ reading.direction latest
      ((read.handshake.setChain read.chain).extended last) certified
    rw [TlsHandshake.charged_extended, certificates.charged_eq, TlsHandshake.chain_setChain,
      tidy.charged_eq] at replaced
    have exchanged := reads.exact (budgeted.charge_le certified)
    rw [budgeted.held] at exchanged
    dsimp only
    omega
  · rcases List.mem_append.mp member with before | only
    · exact budgeted.tidy handshake (List.mem_of_mem_dropLast before)
    · rw [List.mem_singleton.mp only]
      exact certificates.extended last

end Reading.Budgeted

/-- The failures of a run: those of locating a message's packets. -/
def Unlocated (failure : TlsFailure) : Prop :=
  failure = .assertion .locate ∨ ∃ cause, failure = .provenance cause

theorem locate_ensures (spans : List (Nat × Nat)) (start length : Nat)
    : Ensures (locate spans start length) (fun _ => True) Unlocated := by
  have checked (condition : Prop) [Decidable condition]
      : Ensures (require condition (TlsFailure.assertion .locate)) (fun _ => True) Unlocated := by
    unfold require
    exact .ite (fun _ => .ok trivial) fun _ => .error (.inl rfl)
  refine Ensures.bind (checked _) fun _ _ => ?_
  refine Ensures.bind (checked _) fun _ _ => ?_
  dsimp only
  split
  case h_1 => exact .error (.inl rfl)
  case h_2 => exact Ensures.bind (checked _) fun _ _ => .pure trivial

theorem messageStamps_ensures (chunk : TcpStreamChunk) (spans : List (Nat × Nat))
    (offset length : Nat)
    : Ensures (messageStamps chunk spans offset length) (fun _ => True) Unlocated := by
  refine Ensures.bind (locate_ensures spans offset length) fun span _ => ?_
  cases chunk.provenance span.1 span.2 with
  | ok => exact .ok trivial
  | error cause => exact .error (.inr ⟨cause, rfl⟩)

theorem readHello_returns (limits : TlsHandshakeLimits Cert) (client : Bool)
    (body : List UInt8)
    : ∃ hello, readHello limits client body = .ok hello := by
  obtain ⟨read, parsed, _⟩ := parseHello_reports limits client body
  refine ⟨(if read.parsed then read.handshake else read.handshake.invalidated client,
    read.sessionId), ?_⟩
  rw [readHello]
  exact bind_eq_ok.mpr ⟨read, parsed, rfl⟩

section Messages

variable {chunk : TcpStreamChunk} {bytes : List UInt8} {spans : List (Nat × Nat)}

/-- A pass keeps the text held exact, and raises only what locating its packets raises. -/
theorem messagePass_budgeted {raised : TlsFailure → Prop} {reading : Reading Cert}
    (located : Located chunk bytes spans raised) (inside : reading.offset ≤ bytes.length)
    (budgeted : reading.Budgeted limits)
    : Ensures (messagePass x509 limits chunk bytes spans reading)
        (Pass.Meets (Reading.Budgeted limits) fun ended => ended.2.charged
          ≤ limits.maxDirectionCertificateBytes)
        raised := by
  have stopped (truncated : Bool) : Pass.Meets (Reading.Budgeted limits)
      (fun ended => ended.2.charged ≤ limits.maxDirectionCertificateBytes)
      (.stop truncated reading.direction) :=
    budgeted.held.symm.trans_le budgeted.bounded
  refine messagePass_ensures inside (fun _ => stopped false) (fun _ _ => stopped false)
    (fun _ _ => stopped true) ?_
  intro whole _
  have stamped := located reading.offset ((announced (bytes.drop reading.offset)).length + 4)
    (Nat.succ_pos _) (by omega)
  generalize announced (bytes.drop reading.offset) = message at stamped ⊢
  split
  case isTrue =>
    unfold helloPass
    dsimp only
    refine .ite (fun _ => .ok (stopped false)) fun _ => ?_
    obtain ⟨hello, returned⟩ := readHello_returns limits
      (decide (message.type = tlsHandshakeClientHello)) message.body
    rw [returned, ok_bind]
    exact Ensures.bind stamped fun stamps _ => .pure (budgeted.push returned _ stamps)
  case isFalse =>
    refine .ite (fun _ => ?_) fun _ => .pure (budgeted.moved _)
    unfold certificatePass
    split
    case h_1 => exact .ok (budgeted.moved _)
    case h_2 latest certified =>
      obtain ⟨read, parsed, reads⟩ := @Reading.Budgeted.parseCertificates _ x509 _ _ _ budgeted
        certified message.body
      rw [readCertificates, parsed, ok_bind, pure_bind]
      exact Ensures.bind stamped fun stamps _ => .pure (budgeted.setLatest certified reads _ stamps.2)

theorem located_unlocated (chunk : TcpStreamChunk) (bytes : List UInt8) (spans : List (Nat × Nat))
    : Located chunk bytes spans Unlocated :=
  fun offset length _ _ => messageStamps_ensures chunk spans offset length

/-- A run over the messages of a new direction raises only what locating their packets raises. -/
theorem messageLoop_budgeted {raised : TlsFailure → Prop} {start : Direction Cert}
    (located : Located chunk bytes spans raised) (fresh : start.handshakes = [])
    : Ensures (messageLoop x509 limits chunk bytes spans (bytes.length + 1) { direction := start })
        (fun ended => ended.2.charged ≤ limits.maxDirectionCertificateBytes) raised :=
  messageLoop_ensures (fun _ inside budgeted => messagePass_budgeted located inside budgeted)
    (Nat.zero_le _) (Nat.lt_succ_self _) (.start fresh)

/-- Every reading the loop reaches is within the budget. -/
theorem Reaches.budgeted {start : Direction Cert} {reading : Reading Cert}
    (fresh : start.handshakes = []) (reaches : Reaches x509 limits chunk bytes spans start reading)
    : reading.Budgeted limits := by
  refine reaches.invariant (.start fresh) fun inside budgeted passed => ?_
  have meets := Ensures.of_eq_ok passed
    (messagePass_budgeted (located_unlocated chunk bytes spans) inside budgeted)
  exact meets

/-- At every point of a run over the messages of a new direction the certificate text held is what
the present chains charged, and within the limit. A Certificate message gives back what the chain
before it charged and takes what the chain after it does, with the text held within the limit at
every certificate on the way, and its assertions hold.
Witness: what every pass keeps, and within a message what every certificate keeps.
-/
theorem parseMessages_charges (x509 : X509Parser Cert)
    (limits : TlsHandshakeLimits Cert) (chunk : TcpStreamChunk) (bytes : List UInt8)
    (spans : List (Nat × Nat)) (start : Direction Cert) (fresh : start.handshakes = [])
    : (∀ reading, Reaches x509 limits chunk bytes spans start reading →
        (bytes ≠ [] → ∃ fuel, parseMessages x509 limits chunk bytes spans start
          = messageLoop x509 limits chunk bytes spans fuel reading)
        ∧ reading.held = reading.direction.charged
        ∧ reading.held ≤ limits.maxDirectionCertificateBytes
        ∧ ∀ latest, reading.direction.certified? = some latest → ∀ body,
            charge latest.chain ≤ reading.held
            ∧ (∀ chain bytes held certificates,
                ({ rest := body } : TlsReader).u24 = (chain.length, { rest := chain }) →
                Walks x509 limits chain (reading.held - charge latest.chain) bytes held
                    certificates →
                  (∃ fuel, certificateLoop x509 limits (chain.length + 1) { rest := chain }
                      (reading.held - charge latest.chain) []
                    = certificateLoop x509 limits fuel { rest := bytes } held certificates)
                  ∧ held = reading.held - charge latest.chain + textOf certificates
                  ∧ held ≤ limits.maxDirectionCertificateBytes)
            ∧ ∃ read, parseCertificates x509 limits body reading.held latest.chain latest = .ok read
                ∧ read.held = reading.held - charge latest.chain + charge read.chain
                ∧ read.held ≤ limits.maxDirectionCertificateBytes)
      ∧ Ensures (parseMessages x509 limits chunk bytes spans start)
          (fun ended => ended.2.charged ≤ limits.maxDirectionCertificateBytes)
          fun failure => failure ≠ .assertion .parseCertificates ∧ failure ≠ .outOfFuel := by
  refine ⟨fun reading reaches => ⟨fun some_bytes => ?_, ?_⟩, ?_⟩
  · obtain ⟨_, fuel, _, same⟩ := reaches.loops
    refine ⟨fuel, ?_⟩
    rw [parseMessages, require_eq_ok _ some_bytes, ok_bind, same]
  · have budgeted := reaches.budgeted fresh
    refine ⟨budgeted.held, budgeted.bounded, fun latest certified body => ?_⟩
    have charged := budgeted.charge_le certified
    refine ⟨charged, fun chain bytes held certificates _ walks => ?_, ?_⟩
    · obtain ⟨⟨fuel, _, same⟩, exact_, within⟩ :=
        walks.charged ((Nat.sub_le _ _).trans budgeted.bounded)
      exact ⟨⟨fuel, same⟩, exact_, within⟩
    · obtain ⟨read, parsed, reads⟩ := @Reading.Budgeted.parseCertificates _ x509 _ _ _ budgeted
        certified body
      have exchanged := reads.exact charged
      exact ⟨read, parsed, by omega, reads.bounded budgeted.bounded⟩
  · unfold parseMessages require
    split
    case isFalse => exact .error ⟨nofun, nofun⟩
    case isTrue =>
      have ensured := @messageLoop_budgeted _ x509 limits _ _ _ _ start
        (located_unlocated chunk bytes spans) fresh
      refine Ensures.mono ensured (fun _ bounded => bounded) fun failure unlocated => ?_
      rcases unlocated with rfl | ⟨cause, rfl⟩
      · exact ⟨nofun, nofun⟩
      · exact ⟨nofun, nofun⟩

/-- A parser that reports a certificate by its size and charges that. -/
def sizes : X509Parser Nat where
  blank := 0
  parseX509Certificate der _ := (.ok, der.length)
  textBytes := id

/-- A Certificate message of one certificate. -/
def certificateMessage (der : List UInt8) : List UInt8 :=
  encodeMessage tlsHandshakeCertificate (bytes24 (encodeDers [der]).length ++ encodeDers [der])

/-- Two ServerHellos with their chains, of which the second is sent twice. -/
def chainMessages : List UInt8 :=
  encodeMessage tlsHandshakeServerHello plainServerHello.encode ++ certificateMessage [1, 2, 3]
    ++ encodeMessage tlsHandshakeServerHello plainServerHello.encode ++ certificateMessage [4, 5]
    ++ certificateMessage [6]

def chainChunk : TcpStreamChunk where
  data := chainMessages
  origins := [{ length := UInt32.ofNat chainMessages.length }]

/-- The two chains are charged five bytes; the second is dropped when it is sent again, which leaves
the three bytes of the first.
-/
theorem parseMessages_charges_dropped
    : ∃ charged dropped : Reading Nat,
        passes sizes {} chainChunk chainMessages [(0, chainMessages.length)] 4 { direction := {} }
          = some charged
        ∧ passes sizes {} chainChunk chainMessages [(0, chainMessages.length)] 5 { direction := {} }
          = some dropped
        ∧ charged.held = 5 ∧ charged.direction.charged = 5
        ∧ dropped.held = 3 ∧ dropped.direction.charged = 3
        ∧ dropped.direction.handshakes.map (fun entry => entry.chain.malformed) = [false, true] := by
  have facts : ((passes sizes {} chainChunk chainMessages [(0, chainMessages.length)] 4
        { direction := {} }).map fun reading => reading.held) = some 5
      ∧ ((passes sizes {} chainChunk chainMessages [(0, chainMessages.length)] 5
        { direction := {} }).map fun reading =>
          (reading.held, reading.direction.handshakes.map fun entry => entry.chain.malformed))
        = some (3, [false, true]) := by
    decide +kernel
  obtain ⟨charged, reached, five⟩ := Option.map_eq_some_iff.mp facts.1
  obtain ⟨dropped, ended, three⟩ := Option.map_eq_some_iff.mp facts.2
  obtain ⟨three, broken⟩ := Prod.mk.inj three
  have points := (parseMessages_charges sizes {} chainChunk chainMessages
    [(0, chainMessages.length)] {} rfl).1
  exact ⟨charged, dropped, reached, ended, five,
    (points charged (.passes .start reached)).2.1.symm.trans five, three,
    (points dropped (.passes .start ended)).2.1.symm.trans three, broken⟩

end Messages

end PacketQuapture.Tls
