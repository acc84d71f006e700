import PacketQuapture.Tls.Directions
import PacketQuapture.Tls.Halves

/-! A guessed hello is never reported unconfirmed: a row with a half from a find joins it with the
other side of its connection, which stands on its own.
-/

namespace PacketQuapture.Tls

open Library Reassembly

variable {Cert : Type} {x509 : X509Parser Cert}

theorem reverse_reverse (key : TcpFlowKey) : key.reverse.reverse = key := rfl

/-- The merge of a row joins the find of one stream with a direction that confirms it: of the
opposite role on the reversed tuple, not found by searching, with a first hello that parsed, and with
packets that overlap the searched stream's.
-/
def Confirmed (streams : List TcpStream) (directions : List (Direction Cert))
    (merging : Merging) (position : Nat) (found : Direction Cert)
    : Prop :=
  ∃ other peer searched peerStream,
    (merging.client = some position ∧ merging.server = some other
      ∨ merging.client = some other ∧ merging.server = some position)
    ∧ directions[other]? = some peer
    ∧ streams[position]? = some searched
    ∧ streams[other]? = some peerStream
    ∧ peer.client = !found.client
    ∧ peerStream.key = searched.key.reverse
    ∧ peer.needsConfirmation = false
    ∧ (∃ hello, peer.handshakes.head? = some hello ∧ hello.status ≠ .invalid)
    ∧ overlaps peerStream.first peerStream.last searched.first searched.last = true

/-- What confirming a find asks of the peer. -/
theorem of_confirms {peer found : Direction Cert} (confirmed : confirms peer found = true)
    : peer.needsConfirmation = false
      ∧ (∃ hello, peer.handshakes.head? = some hello ∧ hello.status ≠ .invalid)
      ∧ overlaps peer.first peer.last found.first found.last = true := by
  rw [confirms, Bool.and_eq_true, Bool.and_eq_true, Bool.and_eq_true] at confirmed
  obtain ⟨⟨⟨_, anchored⟩, parsed⟩, meets⟩ := confirmed
  obtain ⟨hello, first, sound⟩ := (Option.any_eq_true _ _).mp parsed
  exact ⟨by simpa using anchored, ⟨hello, first, by simpa using sound⟩, meets⟩

/-- Opposite roles on one tuple come from reversed streams. -/
theorem reversed_of_opposite {left right : Direction Cert} {stream other : TcpStream}
    (leftFrom : left.From stream) (rightFrom : right.From other) (carries : left.handshakes ≠ [])
    (nonempty : right.handshakes ≠ []) (opposite : right.client = !left.client)
    (sameTuple : left.orientedKey = right.orientedKey)
    : other.key = stream.key.reverse := by
  rw [leftFrom.oriented carries, rightFrom.oriented nonempty, opposite] at sameTuple
  cases role : left.client with
  | true =>
    simp only [role, Bool.not_true, Bool.false_eq_true, if_true, if_false] at sameTuple
    rw [sameTuple, reverse_reverse]
  | false =>
    simp only [role, Bool.not_false, Bool.false_eq_true, if_true, if_false] at sameTuple
    exact sameTuple.symm

/-- A find in a proper merge is confirmed by the other side.
Witness: a direction merged alone is no find, and a pair was not refused.
-/
theorem Merging.Proper.confirmed {limits : TlsHandshakeLimits Cert}
    {streams : List TcpStream} {directions : List (Direction Cert)} {merging : Merging}
    {position : Nat} {found : Direction Cert}
    (all : streams.Forall₂ (fun stream direction => parse x509 limits stream = .ok direction)
      directions)
    (proper : merging.Proper directions) (used : merging.uses position = true)
    (at_ : directions[position]? = some found) (needs : found.needsConfirmation = true)
    : Confirmed streams directions merging position found := by
  rw [Merging.uses, Bool.or_eq_true, decide_eq_true_eq, decide_eq_true_eq] at used
  obtain ⟨searched, located, searchedParsed⟩ := stream_of_parsed all at_
  have fromSearched := parse_from searchedParsed
  have alone {direction : Direction Cert} {place : Nat} (same : place = position)
      (parsed : directions[place]? = some direction)
      (anchored : direction.needsConfirmation = false)
      : Confirmed streams directions merging position found := by
    rw [same, at_] at parsed
    rw [Option.some.inj parsed, anchored] at needs
    cases needs
  cases proper with
  | @client place direction parsed _ anchored => exact alone (by simpa using used) parsed anchored
  | @server place direction parsed _ anchored => exact alone (by simpa using used) parsed anchored
  | @pair clientAt serverAt client server clientParsed serverParsed distinct clientCarries
      serverCarries asked answered sameTuple joined =>
      rw [unconfirmedPair, Bool.or_eq_false_iff] at joined
      simp only [Option.some.injEq] at used
      rcases used with rfl | rfl
      · obtain rfl := Option.some.inj (clientParsed.symm.trans at_)
        have confirmed : confirms server client = true := by
          have confirmed := joined.2
          rw [needs, Bool.true_and] at confirmed
          simpa using confirmed
        obtain ⟨peerStream, peerLocated, peerParsed⟩ := stream_of_parsed all serverParsed
        have fromPeer := parse_from peerParsed
        obtain ⟨anchored, hello, meets⟩ := of_confirms confirmed
        have opposite : server.client = !client.client := by rw [asked, answered]; rfl
        rw [fromPeer.first, fromPeer.last, fromSearched.first, fromSearched.last] at meets
        exact ⟨serverAt, server, searched, peerStream, .inl ⟨rfl, rfl⟩, serverParsed, located,
          peerLocated, opposite,
          reversed_of_opposite fromSearched fromPeer clientCarries serverCarries opposite sameTuple,
          anchored, hello, meets⟩
      · obtain rfl := Option.some.inj (serverParsed.symm.trans at_)
        have confirmed : confirms client server = true := by
          have confirmed := joined.1
          rw [needs, Bool.true_and] at confirmed
          simpa using confirmed
        obtain ⟨peerStream, peerLocated, peerParsed⟩ := stream_of_parsed all clientParsed
        have fromPeer := parse_from peerParsed
        obtain ⟨anchored, hello, meets⟩ := of_confirms confirmed
        have opposite : client.client = !server.client := by rw [asked, answered]; rfl
        rw [fromPeer.first, fromPeer.last, fromSearched.first, fromSearched.last] at meets
        exact ⟨clientAt, client, searched, peerStream, .inr ⟨rfl, rfl⟩, clientParsed, located,
          peerLocated, opposite,
          reversed_of_opposite fromSearched fromPeer serverCarries clientCarries opposite
            sameTuple.symm,
          anchored, hello, meets⟩

/-- Where the rows come from, with every half from a find confirmed. -/
structure AllConfirmed (x509 : X509Parser Cert) (limits : TlsHandshakeLimits Cert)
    (streams : List TcpStream) (rows : List (TlsHandshake Cert))
    (directions : List (Direction Cert)) (origins : List Origin)
    : Prop
    extends Traces x509 limits streams rows directions origins where
  confirmed : ∀ origin ∈ origins, ∀ position found, directions[position]? = some found →
    found.needsConfirmation = true → origin.halfOf directions position = true →
      Confirmed streams directions origin.merging position found

/-- Everything reported while streams are added and at the finish: each row has its origin, and one
with a half from a find comes from a merge that confirms it.
-/
theorem TlsHandshakeAssembler.run_confirmed {limits : TlsHandshakeLimits Cert}
    {streams : List TcpStream} {rows : List (TlsHandshake Cert)}
    {last : TlsHandshakeAssembler Cert}
    (returned : ({ limits } : TlsHandshakeAssembler Cert).run x509 streams
      = .ok (rows, last))
    : ∃ directions origins,
        AllConfirmed x509 limits streams (rows ++ last.finish.1) directions origins := by
  obtain ⟨directions, merges, traces, proper, _⟩ := run_traces returned
  refine ⟨directions, merges.flatMap (Merging.origins directions), traces, ?_⟩
  intro origin member position found at_ needs half
  obtain ⟨merging, chosen, place⟩ := List.mem_flatMap.mp member
  obtain ⟨index, _, rfl⟩ := List.mem_map.mp place
  rw [Origin.halfOf, Bool.and_eq_true] at half
  exact (proper merging chosen).confirmed traces.parsed half.1 at_ needs

/-- A find whose packets surround its peer's. -/
def surroundingFind : TcpStream :=
  { searchedHello 1 1 with last := { number := 3 } }

/-- A find and the answer that confirms it are reported as one row. -/
theorem TlsHandshakeAssembler.run_confirmed_answered
    : ∃ rows last,
        ({ limits := {} } : TlsHandshakeAssembler Unit).run noCertificates
          [surroundingFind, anchoredAnswer 1 2] = .ok (rows, last)
        ∧ rows.length = 1
        ∧ ∃ directions origins,
            AllConfirmed noCertificates {} [surroundingFind, anchoredAnswer 1 2]
              (rows ++ last.finish.1) directions origins := by
  have one : ((({ limits := {} } : TlsHandshakeAssembler Unit).run noCertificates
      [surroundingFind, anchoredAnswer 1 2]).map fun result => result.1.length).toOption
        = some 1 := by
    decide +kernel
  cases returned : ({ limits := {} } : TlsHandshakeAssembler Unit).run noCertificates
      [surroundingFind, anchoredAnswer 1 2] with
  | error failure =>
    rw [returned] at one
    cases one
  | ok result =>
    rw [returned] at one
    exact ⟨result.1, result.2, rfl, Option.some.inj one, run_confirmed returned⟩

end PacketQuapture.Tls
