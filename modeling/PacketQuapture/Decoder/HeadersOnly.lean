import PacketQuapture.Decoder.Safety

/-! No payload byte influences what is decoded.
A run is the same on any packet of the same size that agrees on what the run requested; and what
is requested of a packet with a transport header ends where its payload starts.
-/

namespace PacketQuapture.Decoder

open Library

/-- `DecodePacket` on a packet in memory: the longest prefix it requested, and what it decoded. -/
def decodeView (data : List UInt8) (linkType : UInt32) (depth : DecodeDepth)
    : Except Misuse (Nat × DecodedPacket) := do
  let (memory, packet) ← (decodePacket data.length linkType depth).run Memory.handle
    (.ofPacket data)
  .ok (memory.requested, packet)

variable {α : Type} {memory after : Memory} {result : α}

theorem handle_grows (command : DecoderCommand) (memory : Memory)
    : Ensures (Memory.handle command memory) (fun answered => memory.Grows answered.1)
        fun _ => True := by
  cases command with
  | readPrefix requested =>
    rw [Memory.handle]
    split
    · exact .ok ⟨rfl, Nat.le_max_left ..⟩
    · exact .error trivial
  | byte index =>
    rw [Memory.handle]
    split
    · exact .ok (.refl memory)
    · exact .error trivial
  | difference | pushBack =>
    rw [Memory.handle]
    split
    · exact .ok (.refl memory)
    · exact .error trivial

theorem run_grows {program : Decoding α}
    (returned : program.run Memory.handle memory = .ok (after, result))
    : memory.Grows after := by
  have kept : Ensures (program.run Memory.handle memory) (fun ended => memory.Grows ended.1)
      fun _ => True :=
    Interaction.run_keeps
      (fun command state grown => (handle_grows command state).mono (fun _ => grown.trans)
        fun _ => id) program memory (.refl memory)
  rw [returned] at kept
  exact kept

/-- A run looks only at what it requests. -/
theorem run_agrees (program : Decoding α) {other : Memory}
    (returned : program.run Memory.handle memory = .ok (after, result))
    (sized : other.data.length = memory.data.length) (same : other.requested = memory.requested)
    (agree : ∀ index < after.requested, other.data.getD index 0 = memory.data.getD index 0)
    : ∃ reached : Memory, program.run Memory.handle other = .ok (reached, result)
        ∧ reached.requested = after.requested := by
  induction program generalizing memory other with
  | done value =>
    cases returned
    exact ⟨other, rfl, same⟩
  | ask command next ih =>
    obtain ⟨⟨middle, answer⟩, answered, rest⟩ := bind_eq_ok.mp returned
    have grown := run_grows rest
    have more := grown.requested
    cases command with
    | readPrefix requested =>
      rw [Memory.handle] at answered
      split at answered
      case isTrue fits =>
        cases answered
        have room : requested ≤ other.data.length := by omega
        rw [Interaction.run, Memory.handle, dif_pos room]
        refine ih () rest sized ?_ agree
        show max other.requested requested = max memory.requested requested
        rw [same]
      case isFalse => cases answered
    | byte index =>
      rw [Memory.handle] at answered
      split at answered
      case isTrue readable =>
        cases answered
        have looked : index < after.requested := Nat.lt_of_lt_of_le readable more
        rw [Interaction.run, Memory.handle, if_pos (by omega), agree index looked]
        exact ih _ rest sized same agree
      case isFalse => cases answered
    | difference left right =>
      rw [Memory.handle] at answered
      split at answered
      case isTrue ordered =>
        cases answered
        rw [Interaction.run, Memory.handle, if_pos ordered]
        exact ih _ rest sized same agree
      case isFalse => cases answered
    | pushBack stack id =>
      rw [Memory.handle] at answered
      split at answered
      case isTrue room =>
        cases answered
        rw [Interaction.run, Memory.handle, dif_pos room]
        exact ih _ rest sized same agree
      case isFalse => cases answered

/-- No depth requests more than the deepest. -/
theorem requested_le_transport {size : Nat} {linkType : UInt32} {depth : DecodeDepth}
    {shallow deep : Memory} {part whole : DecodedPacket}
    (left : (decodePacket size linkType depth).run Memory.handle memory = .ok (shallow, part))
    (right : (decodePacket size linkType .transport).run Memory.handle memory
      = .ok (deep, whole))
    : shallow.requested ≤ deep.requested := by
  unfold decodePacket at left right
  split at left
  · cases left
    exact (run_grows right).requested
  · split at left
    · cases left
      exact (run_grows right).requested
    · -- both runs decode the link layer alike, and the shallower one may end there
      simp only [reduceCtorEq, false_and, or_false, if_false] at right
      rw [Interaction.run_bind] at left right
      obtain ⟨⟨linked, outcome, result, cursor⟩, reached, left⟩ := bind_eq_ok.mp left
      obtain ⟨_, same, right⟩ := bind_eq_ok.mp right
      obtain rfl := Except.ok.inj (reached.symm.trans same)
      dsimp only at left right
      split at left
      · cases left
        exact (run_grows right).requested
      case isFalse goes =>
        rw [not_or, not_not] at goes
        rw [if_neg (not_not.mpr goes.1)] at right
        rw [Interaction.run_bind] at left right
        obtain ⟨⟨networked, outcome, result, cursor⟩, reached, left⟩ := bind_eq_ok.mp left
        obtain ⟨_, same, right⟩ := bind_eq_ok.mp right
        obtain rfl := Except.ok.inj (reached.symm.trans same)
        dsimp only at left right
        split at left
        · cases left
          exact (run_grows right).requested
        case isFalse decoded =>
          rw [if_neg decoded] at right
          split at left
          · cases left
            exact (run_grows right).requested
          case isFalse goes =>
            rw [not_or] at goes
            rw [if_neg (fun ends => ends.elim id goes.2), left] at right
            cases right
            exact le_rfl

/-- A packet in which a transport header is found and any other packet of its size that has the
same bytes up to the payload are decoded alike to every depth, and neither is requested any
further than where the payload starts.
Witness: what is requested ends before the payload, and a run looks only at what it requests.
-/
theorem decodeView_headers_only {data other : List UInt8} {linkType : UInt32} {requested : Nat}
    {packet : DecodedPacket}
    (decoded : decodeView data linkType .transport = .ok (requested, packet))
    (reported : packet.transport = true) (sized : other.length = data.length)
    (agree : other.take packet.payloadOffset.toNat = data.take packet.payloadOffset.toNat)
    (depth : DecodeDepth)
    : ∃ asked result, decodeView data linkType depth = .ok (asked, result)
        ∧ decodeView other linkType depth = .ok (asked, result)
        ∧ asked ≤ packet.payloadOffset.toNat := by
  obtain ⟨⟨deep, _⟩, whole, same⟩ := bind_eq_ok.mp decoded
  cases same
  obtain ⟨⟨_, _⟩, returned, _, sound⟩ :=
    (@decodePacket_sound (.ofPacket data) data.length linkType .transport rfl rfl).returns
  cases Except.ok.inj (returned.symm.trans whole)
  have limit := (sound.located reported).requested
  obtain ⟨⟨reached, result⟩, shallow, _, _⟩ :=
    (@decodePacket_sound (.ofPacket data) data.length linkType depth rfl rfl).returns
  have asked : reached.requested ≤ packet.payloadOffset.toNat :=
    (requested_le_transport shallow whole).trans limit
  have looked (index : Nat) (inside : index < reached.requested)
      : other.getD index 0 = data.getD index 0 := by
    have below : index < packet.payloadOffset.toNat := Nat.lt_of_lt_of_le inside asked
    have taken := congrArg (·.getD index 0) agree
    simpa [List.getElem?_take, below] using taken
  obtain ⟨last, alike, count⟩ := @run_agrees _ _ _ _ _ (.ofPacket other) shallow sized rfl looked
  refine ⟨reached.requested, result, ?_, ?_, asked⟩
  · rw [decodeView, shallow]
    rfl
  · rw [decodeView, sized, alike, ok_bind]
    dsimp only
    rw [count]

/-- A raw packet: a UDP datagram with a payload of one byte. -/
def datagram (payload : UInt8) : List UInt8 :=
  [0x45, 0, 0, 29, 0, 0, 0, 0, 64, 17, 0, 0, 10, 0, 0, 1, 10, 0, 0, 2] ++
  [0, 53, 0, 53, 0, 9, 0, 0, payload]

/-- Two datagrams that differ in their payload decode alike. -/
theorem decodeView_headers_only_datagram
    : ∃ asked result, decodeView (datagram 1) 101 .network = .ok (asked, result)
        ∧ decodeView (datagram 2) 101 .network = .ok (asked, result) ∧ asked ≤ 28 := by
  have decoded : decodeView (datagram 1) 101 .transport
      = .ok (28,
        { outcome := .decoded, network := true, transport := true, udp := true
          ipVersion := 4, ipProtocol := 17, ipTtl := 64, hasIpId := true
          srcIp := copyInto (.zero 16) [10, 0, 0, 1]
          dstIp := copyInto (.zero 16) [10, 0, 0, 2]
          srcPort := 53, dstPort := 53, udpLength := 9
          payloadOffset := 28, payloadLength := 1, payloadDeclaredLength := 1 }) := by
    rfl
  exact decodeView_headers_only decoded rfl rfl rfl .network

end PacketQuapture.Decoder
