import PacketQuapture.Decoder.Decode

/-! Decoding a packet in memory.
The decoder asks for no more than the packet has, looks at no byte it has not asked for, and puts
the payload inside the packet, past everything it asked for. What each layer leaves alone is told
along with it.
-/

namespace PacketQuapture.Decoder

open Library

/-! ### A packet in memory -/

/-- A packet of which the first `requested` bytes may be looked at. -/
structure Memory where
  data : List UInt8
  requested : Nat
  inside : requested ≤ data.length

inductive Misuse where
  /-- More bytes were requested than the packet has. -/
  | overrun
  /-- A byte was looked at that was not requested. -/
  | outOfBounds
  /-- A difference of sizes wrapped. -/
  | underflow
  /-- A tag was put on a full stack. -/
  | fullStack
deriving DecidableEq, Repr

namespace Memory

def ofPacket (data : List UInt8) : Memory :=
  { data, requested := 0, inside := Nat.zero_le _ }

/-- The packet with the first `requested` bytes readable too. -/
def grow (memory : Memory) (requested : Nat) (fits : requested ≤ memory.data.length) : Memory :=
  { memory with
    requested := max memory.requested requested
    inside := Nat.max_le.mpr ⟨memory.inside, fits⟩ }

def handle : Interaction.Handler DecoderAnswer Memory Misuse
  | .readPrefix requested, memory =>
    if fits : requested ≤ memory.data.length then .ok (memory.grow requested fits, ())
    else .error .overrun
  | .byte index, memory =>
    if index < memory.requested then .ok (memory, memory.data.getD index 0)
    else .error .outOfBounds
  | .difference left right, memory =>
    if right ≤ left then .ok (memory, left - right) else .error .underflow
  | .pushBack stack id, memory =>
    if room : stack.1.length < VlanStack.capacity then
      .ok (memory, ⟨stack.1 ++ [id], by rw [List.length_append]; exact room⟩)
    else .error .fullStack

/-- The same packet, of which no less may be looked at. -/
structure Grows (before after : Memory) : Prop where
  data : after.data = before.data
  requested : before.requested ≤ after.requested

namespace Grows

variable {first second third : Memory}

theorem refl (memory : Memory) : memory.Grows memory :=
  ⟨rfl, le_rfl⟩

theorem trans (former : first.Grows second) (latter : second.Grows third) : first.Grows third :=
  ⟨latter.data.trans former.data, former.requested.trans latter.requested⟩

end Grows

end Memory

/-- The program misuses nothing, only asks for more, and returns a value in `post`. -/
def Safely {α : Type} (program : Decoding α) (memory : Memory) (post : Memory → α → Prop)
    : Prop :=
  Ensures (program.run Memory.handle memory)
    (fun result => memory.Grows result.1 ∧ post result.1 result.2) fun _ => False

namespace Safely

variable {α β : Type} {memory : Memory} {program : Decoding α} {post : Memory → α → Prop}

theorem pure {value : α} (holds : post memory value)
    : Safely (Pure.pure value) memory post :=
  Ensures.ok ⟨.refl memory, holds⟩

theorem bind {next : α → Decoding β} {final : Memory → β → Prop}
    (first : Safely program memory post)
    (second : ∀ after value, memory.Grows after → post after value →
      Safely (next value) after final)
    : Safely (program >>= next) memory final := by
  rw [Safely, Interaction.run_bind]
  refine Ensures.bind first fun result reached => ?_
  refine (second result.1 result.2 reached.1 reached.2).mono (fun last ended => ?_) fun _ => id
  exact ⟨reached.1.trans ended.1, ended.2⟩

theorem look {next : α → Decoding β} {final : Memory → β → Prop}
    (first : Safely program memory fun after _ => after = memory)
    (second : ∀ value, Safely (next value) memory final)
    : Safely (program >>= next) memory final := by
  refine first.bind fun after value _ same => ?_
  rw [same]
  exact second value

theorem ite {condition : Prop} [Decidable condition] {other : Decoding α}
    (holds : condition → Safely program memory post)
    (fails : ¬ condition → Safely other memory post)
    : Safely (if condition then program else other) memory post := by
  split
  case isTrue yes => exact holds yes
  case isFalse no => exact fails no

theorem mono {weaker : Memory → α → Prop} (safe : Safely program memory post)
    (returned : ∀ after value, memory.Grows after → post after value → weaker after value)
    : Safely program memory weaker :=
  Ensures.mono safe (fun _ reached => ⟨reached.1, returned _ _ reached.1 reached.2⟩)
    fun _ => id

end Safely

/-! ### Bytes and headers -/

variable {memory : Memory} {index count : Nat}
variable {length : Nat}

theorem byte_safe (inside : index < memory.requested)
    : Safely (byte index) memory fun after _ => after = memory := by
  rw [Safely, byte, Interaction.run_request, Memory.handle, if_pos inside]
  exact .ok ⟨.refl memory, rfl⟩

theorem difference_safe {left right : Nat} (ordered : right ≤ left)
    : Safely (difference left right) memory
        fun after value => after = memory ∧ value = left - right := by
  rw [Safely, difference, Interaction.run_request, Memory.handle, if_pos ordered]
  exact .ok ⟨.refl memory, rfl, rfl⟩

theorem pushBack_safe {stack : VlanStack} {id : UInt16} (room : stack.1.length < 8)
    : Safely (pushBack stack id) memory
        fun after value => after = memory ∧ value.1 = stack.1 ++ [id] := by
  have free : stack.1.length < VlanStack.capacity := room
  rw [Safely, pushBack, Interaction.run_request, Memory.handle, dif_pos free]
  exact .ok ⟨.refl memory, rfl, rfl⟩

theorem bytes_safe (inside : index + count ≤ memory.requested)
    : Safely (bytes index count) memory fun after _ => after = memory := by
  induction count generalizing index with
  | zero => exact .pure rfl
  | succ count ih =>
    refine (byte_safe (by omega)).look fun first => ?_
    exact (ih (by omega)).look fun rest => .pure rfl

theorem readBigEndian16_safe (inside : index + 2 ≤ memory.requested)
    : Safely (readBigEndian16 index) memory fun after _ => after = memory := by
  refine (byte_safe (by omega)).look fun high => ?_
  exact (byte_safe (by omega)).look fun low => .pure rfl

theorem readBigEndian32_safe (inside : index + 4 ≤ memory.requested)
    : Safely (readBigEndian32 index) memory fun after _ => after = memory := by
  refine (readBigEndian16_safe (by omega)).look fun high => ?_
  exact (readBigEndian16_safe (by omega)).look fun low => .pure rfl

theorem has_iff {size offset : Nat}
    : has size offset length = true ↔ offset + length ≤ size := by
  simp only [has, Bool.and_eq_true, decide_eq_true_eq]
  omega

/-- What a check for a header leads to: the header is readable, and nothing past it that was not
readable before.
-/
structure Held (before after : Memory) (reach : Nat) : Prop where
  readable : reach ≤ after.requested
  exact_ : after.requested = max before.requested reach
  sized : after.data.length = before.data.length

theorem readPrefix_safe {reach : Nat} (fits : reach ≤ memory.data.length)
    : Safely (readPrefix reach) memory fun after _ => Held memory after reach := by
  rw [Safely, readPrefix, Interaction.run_request, Memory.handle, dif_pos fits]
  exact .ok ⟨⟨rfl, Nat.le_max_left ..⟩, Nat.le_max_right .., rfl, rfl⟩

theorem ensure_safe {size start : Nat} (sized : memory.data.length = size)
    : Safely (ensure size start length) memory
        fun after held => held = true → Held memory after (start + length) := by
  unfold ensure
  refine .ite (fun _ => .pure (by simp)) fun inside => ?_
  rw [Bool.not_eq_true', Bool.not_eq_false, has_iff] at inside
  have fits : start + length ≤ memory.data.length := by omega
  exact (readPrefix_safe fits).bind fun _ _ _ held => .pure fun _ => held

theorem ensureWithin_safe {size stop start : Nat} (sized : memory.data.length = size)
    : Safely (ensureWithin size stop start length) memory
        fun after held =>
          held = true → Held memory after (start + length) ∧ start + length ≤ stop := by
  unfold ensureWithin
  split
  case isTrue within =>
    exact (ensure_safe sized).mono fun _ _ _ held taken => ⟨held taken, has_iff.mp within⟩
  · exact .pure (by simp)

section Rules

variable {α : Type} {refused next : Decoding α} {post : Memory → α → Prop}
  {size stop start length : Nat}

/-- Goes on only with a header that is there, which is then readable. -/
theorem ensure_then (sized : memory.data.length = size)
    (refuses : ∀ after : Memory, after.data.length = size → Safely refused after post)
    (goes : ∀ after : Memory, after.data.length = size → start + length ≤ after.requested →
      after.requested = max memory.requested (start + length) → Safely next after post)
    : Safely (do if !(← ensure size start length) then refused else next) memory post := by
  refine (ensure_safe sized).bind fun after held grown reached => ?_
  have same : after.data.length = size := by rw [grown.data, sized]
  refine .ite (fun _ => refuses after same) fun whole => ?_
  have headed := reached (by simpa using whole)
  exact goes after same headed.readable headed.exact_

theorem ensureWithin_then (sized : memory.data.length = size)
    (refuses : ∀ after : Memory, after.data.length = size → Safely refused after post)
    (goes : ∀ after : Memory, after.data.length = size → start + length ≤ after.requested →
      after.requested = max memory.requested (start + length) → start + length ≤ stop →
        Safely next after post)
    : Safely (do if !(← ensureWithin size stop start length) then refused else next) memory
        post := by
  refine (ensureWithin_safe sized).bind fun after held grown reached => ?_
  have same : after.data.length = size := by rw [grown.data, sized]
  refine .ite (fun _ => refuses after same) fun whole => ?_
  obtain ⟨headed, within⟩ := reached (by simpa using whole)
  exact goes after same headed.readable headed.exact_ within

end Rules

/-! ### The fields of each layer -/

/-- What the link layer reports. -/
def linkFields (packet : DecodedPacket) :=
  (packet.ethernet, packet.srcMac, packet.dstMac, packet.etherType, packet.vlanIds)

/-- What the network layer reports. -/
def networkFields (packet : DecodedPacket) :=
  (packet.network, packet.ipVersion, packet.ipProtocol, packet.ipTtl, packet.srcIp, packet.dstIp,
    packet.ipFragmentOffset, packet.ipId, packet.ipMoreFragments, packet.hasIpId)

/-- What the transport layer reports. -/
def transportFields (packet : DecodedPacket) :=
  (packet.transport, packet.tcp, packet.udp, packet.srcPort, packet.dstPort, packet.tcpFlags,
    packet.udpLength, packet.tcpSeq, packet.tcpAck, packet.tcpHeaderLength, packet.payloadOffset,
    packet.payloadLength, packet.payloadDeclaredLength)

/-! ### Link layer -/

/-- What the link layer leads to: nothing of the later layers, and a header to go on with that
starts where the requests end, or a byte before.
-/
structure Linked (memory : Memory) (size : Nat)
    (reached : DecodeOutcome × DecodedPacket × Cursor) : Prop where
  sized : memory.data.length = size
  network : networkFields reached.2.1 = networkFields {}
  transport : transportFields reached.2.1 = transportFields {}
  requested : reached.1 = .decoded → memory.requested ≤ reached.2.2.offset + 1
  offset : reached.1 = .decoded → reached.2.2.offset ≤ 46
  outcome : reached.1 = .decoded ∨ reached.1 = .malformed ∨ reached.1 = .unsupported

section Layers

variable {size : Nat}
variable {result : DecodedPacket} {outcome : DecodeOutcome}

theorem Linked.rejected {cursor : Cursor} (sized : memory.data.length = size)
    (network : networkFields result = networkFields {})
    (transport : transportFields result = transportFields {})
    (rejects : outcome = .malformed ∨ outcome = .unsupported)
    : Linked memory size (outcome, result, cursor) where
  sized := sized
  network := network
  transport := transport
  requested decoded := by rcases rejects with rfl | rfl <;> cases decoded
  offset decoded := by rcases rejects with rfl | rfl <;> cases decoded
  outcome := .inr rejects

theorem vlanLoop_safe {room : Nat} {cursor : Cursor} (sized : memory.data.length = size)
    (network : networkFields result = networkFields {})
    (transport : transportFields result = transportFields {})
    (requested : memory.requested ≤ cursor.offset) (offset : cursor.offset + 4 * room ≤ 46)
    (stacked : result.vlanIds.1.length + room ≤ 8)
    : Safely (vlanLoop size room result cursor) memory fun after => Linked after size := by
  induction room generalizing memory result cursor with
  | zero =>
    rw [vlanLoop]
    refine .ite (fun _ => .pure (.rejected sized rfl rfl (.inr rfl))) fun _ => ?_
    exact .pure ⟨sized, network, transport, fun _ => Nat.le_succ_of_le requested,
      fun _ => offset, .inl rfl⟩
  | succ room ih =>
    rw [vlanLoop]
    split
    · refine ensure_then sized (fun _ same => .pure (.rejected same rfl rfl (.inl rfl)))
        fun after same readable exactly => ?_
      refine (readBigEndian16_safe (by omega)).look fun tag => ?_
      refine (readBigEndian16_safe (by omega)).look fun type => ?_
      refine (pushBack_safe (by omega)).bind fun _ vlanIds _ pushed => ?_
      obtain ⟨rfl, pushed⟩ := pushed
      refine ih same network transport (by dsimp only; omega) (by dsimp only; omega) ?_
      rw [pushed, List.length_append, List.length_singleton]
      omega
    · exact .pure ⟨sized, network, transport, fun _ => Nat.le_succ_of_le requested,
        fun _ => by dsimp only; omega, .inl rfl⟩

theorem decodeEthernet_safe (sized : memory.data.length = size) (fresh : memory.requested = 0)
    : Safely (decodeEthernet size {} {}) memory fun after => Linked after size := by
  refine ensure_then sized (fun _ same => .pure (.rejected same rfl rfl (.inl rfl)))
    fun after same readable exactly => ?_
  refine (bytes_safe (by omega)).look fun dstMac => ?_
  refine (bytes_safe (by omega)).look fun srcMac => ?_
  refine (readBigEndian16_safe (by omega)).look fun type => ?_
  exact vlanLoop_safe same rfl rfl (by dsimp only; omega) (show 14 + 4 * 8 ≤ 46 by decide) le_rfl

theorem decodeLink_safe (linkType : UInt32) (sized : memory.data.length = size)
    (fresh : memory.requested = 0)
    : Safely (decodeLink size linkType {} {}) memory fun after => Linked after size := by
  unfold decodeLink
  refine .ite (fun _ => decodeEthernet_safe sized fresh) fun _ => ?_
  split
  · refine ensure_then sized (fun _ same => .pure (.rejected same rfl rfl (.inl rfl)))
      fun after same readable exactly => ?_
    refine (byte_safe (by omega)).look fun first => ?_
    exact .pure ⟨same, rfl, rfl, fun _ => by dsimp only; omega, fun _ => Nat.zero_le _, .inl rfl⟩
  · split
    · exact .pure ⟨sized, rfl, rfl, fun _ => by dsimp only; omega, fun _ => Nat.zero_le _, .inl rfl⟩
    · refine .ite (fun _ => ?_) fun _ => .pure (.rejected sized rfl rfl (.inr rfl))
      have place : (if linkType = 113 then 14 else 0) + 2 ≤ (if linkType = 113 then 16 else 20)
          ∧ (if linkType = 113 then 16 else 20) ≤ 46 := by
        split <;> decide
      generalize (if linkType = 113 then 16 else 20) = length at place ⊢
      generalize (if linkType = 113 then 14 else 0) = index at place ⊢
      refine ensure_then sized (fun _ same => .pure (.rejected same rfl rfl (.inl rfl)))
        fun after same readable exactly => ?_
      refine (readBigEndian16_safe (by omega)).look fun type => ?_
      exact .pure ⟨same, rfl, rfl, fun _ => by dsimp only; omega, fun _ => place.2, .inl rfl⟩

/-! ### Network layer -/

/-- What the network layer leads to: the link layer untouched, and a header to go on with that
starts where the requests end, in a datagram of a bounded size.
-/
structure Networked (memory : Memory) (size : Nat) (before : DecodedPacket)
    (reached : DecodedPacket × Cursor) : Prop where
  sized : memory.data.length = size
  link : linkFields reached.1 = linkFields before
  transport : transportFields reached.1 = transportFields before
  requested : memory.requested ≤ reached.2.offset
  offset : reached.2.offset ≤ reached.2.stop
  stop : reached.2.stop ≤ 65621

variable {before : DecodedPacket} {cursor : Cursor}

theorem decodeIPv4_safe (sized : memory.data.length = size)
    (requested : memory.requested ≤ cursor.offset + 1) (offset : cursor.offset ≤ 46)
    : Safely (decodeIPv4 size before cursor) memory fun after reached =>
        after.data.length = size ∧ (reached.1 = true → Networked after size before reached.2) := by
  refine ensure_then sized (fun _ same => .pure ⟨same, by simp⟩)
    fun after same readable exactly => ?_
  refine (byte_safe (by omega)).look fun first => ?_
  refine .ite (fun _ => .pure ⟨same, by simp⟩) fun _ => ?_
  refine (readBigEndian16_safe (by omega)).look fun total => ?_
  dsimp only
  refine .ite (fun _ => .pure ⟨same, by simp⟩) fun lengths => ?_
  rw [not_or, not_lt, not_lt] at lengths
  refine ensure_then same (fun _ sized => .pure ⟨sized, by simp⟩)
    fun later sized reach only => ?_
  refine (byte_safe (by omega)).look fun ipProtocol => ?_
  refine (byte_safe (by omega)).look fun ipTtl => ?_
  refine (readBigEndian16_safe (by omega)).look fun ipId => ?_
  refine (readBigEndian16_safe (by omega)).look fun fragment => ?_
  refine (bytes_safe (by omega)).look fun srcIp => ?_
  refine (bytes_safe (by omega)).look fun dstIp => ?_
  have small := total.toNat_lt
  refine .pure ⟨sized, fun _ => ⟨sized, rfl, rfl, ?_, ?_, ?_⟩⟩
  · dsimp only
    omega
  · dsimp only
    omega
  · dsimp only
    omega

theorem extension_finish_safe {network : DecodedPacket} (sized : memory.data.length = size)
    (requested : memory.requested ≤ cursor.offset + 8) (long : 8 ≤ length)
    (stop : cursor.stop ≤ 65621) (link : linkFields network = linkFields before)
    (transport : transportFields network = transportFields before)
    : Safely (decodeIPv6Extension.finish size cursor cursor.offset length network) memory
        fun after reached =>
          after.data.length = size ∧ (reached.1 = true → Networked after size before reached.2) := by
  refine ensureWithin_then sized (fun _ same => .pure ⟨same, by simp⟩)
    fun after same readable exactly within => ?_
  refine (byte_safe (by omega)).look fun ipProtocol => ?_
  exact .pure ⟨same, fun _ => ⟨same, link, transport, by dsimp only; omega, within, stop⟩⟩

theorem decodeIPv6Extension_safe {network : DecodedPacket} (sized : memory.data.length = size)
    (readable : cursor.offset + 8 ≤ memory.requested)
    (requested : memory.requested ≤ cursor.offset + 8) (stop : cursor.stop ≤ 65621)
    (link : linkFields network = linkFields before)
    (transport : transportFields network = transportFields before)
    : Safely (decodeIPv6Extension size network cursor) memory fun after reached =>
        after.data.length = size ∧ (reached.1 = true → Networked after size before reached.2) := by
  refine (byte_safe (by omega)).look fun units => ?_
  split
  · refine .ite (fun _ => .pure ⟨sized, by simp⟩) fun _ => ?_
    refine (readBigEndian16_safe (by omega)).look fun fragment => ?_
    refine (readBigEndian32_safe (by omega)).look fun ipId => ?_
    exact extension_finish_safe sized requested le_rfl stop link transport
  · refine .ite (fun _ => ?_)
      fun _ => extension_finish_safe sized requested (by omega) stop link transport
    exact .ite (fun _ => .pure ⟨sized, by simp⟩)
      fun _ => extension_finish_safe sized requested (by omega) stop link transport

/-- What the headers of a datagram lead to. -/
def HeadersRead (memory : Memory) (size : Nat) (before : DecodedPacket)
    (reached : DecodeOutcome × DecodedPacket × Cursor) : Prop :=
  memory.data.length = size
    ∧ (reached.1 = .decoded ∨ reached.1 = .malformed ∨ reached.1 = .unsupported)
    ∧ (reached.1 = .decoded → Networked memory size before reached.2)

theorem HeadersRead.rejected (sized : memory.data.length = size)
    (rejects : outcome = .malformed ∨ outcome = .unsupported)
    : HeadersRead memory size before (outcome, result, cursor) :=
  ⟨sized, .inr rejects, fun decoded => by rcases rejects with rfl | rfl <;> cases decoded⟩

theorem extensionLoop_safe {left : Nat} {network : DecodedPacket}
    (networked : Networked memory size before (network, cursor))
    : Safely (extensionLoop size left network cursor) memory
        fun after => HeadersRead after size before := by
  induction left generalizing memory network cursor with
  | zero =>
    rw [extensionLoop]
    exact .ite (fun _ => .pure (.rejected networked.sized (.inr rfl)))
      fun _ => .pure ⟨networked.sized, .inl rfl, fun _ => networked⟩
  | succ left ih =>
    rw [extensionLoop]
    refine .ite (fun _ => ?_) fun _ => .pure ⟨networked.sized, .inl rfl, fun _ => networked⟩
    refine ensureWithin_then networked.sized (fun _ same => .pure (.rejected same (.inl rfl)))
      fun after same readable exactly within => ?_
    have requested := networked.requested
    dsimp only at requested
    refine (decodeIPv6Extension_safe same readable (by omega) networked.stop
      networked.link networked.transport).bind fun later result further taken => ?_
    obtain ⟨extended, network, cursor⟩ := result
    dsimp only at taken ⊢
    refine .ite (fun _ => .pure (.rejected taken.1 (.inl rfl))) fun whole => ?_
    have networked := taken.2 (by simpa using whole)
    exact .ite (fun _ => .pure ⟨taken.1, .inl rfl, fun _ => networked⟩) fun _ => ih networked

theorem decodeIPv6_safe (sized : memory.data.length = size)
    (requested : memory.requested ≤ cursor.offset + 1) (offset : cursor.offset ≤ 46)
    : Safely (decodeIPv6 size before cursor) memory fun after => HeadersRead after size before := by
  refine ensure_then sized (fun _ same => .pure (.rejected same (.inl rfl)))
    fun after same readable exactly => ?_
  refine (byte_safe (by omega)).look fun first => ?_
  refine .ite (fun _ => .pure (.rejected same (.inl rfl))) fun _ => ?_
  refine (readBigEndian16_safe (by omega)).look fun length => ?_
  refine (byte_safe (by omega)).look fun ipProtocol => ?_
  refine (byte_safe (by omega)).look fun ipTtl => ?_
  refine (bytes_safe (by omega)).look fun srcIp => ?_
  refine (bytes_safe (by omega)).look fun dstIp => ?_
  have small := length.toNat_lt
  refine extensionLoop_safe ⟨same, rfl, rfl, ?_, Nat.le_add_right .., ?_⟩
  · dsimp only
    omega
  · dsimp only
    omega

theorem headers_safe (linkType : UInt32) (sized : memory.data.length = size)
    (requested : memory.requested ≤ cursor.offset + 1) (offset : cursor.offset ≤ 46)
    : Safely (decodeNetwork.headers size linkType before cursor) memory
        fun after => HeadersRead after size before := by
  unfold decodeNetwork.headers
  split
  · refine (decodeIPv4_safe sized requested offset).bind fun after result _ reached => ?_
    obtain ⟨whole, network, cursor⟩ := result
    cases whole with
    | false => exact .pure (.rejected reached.1 (.inl rfl))
    | true => exact .pure ⟨reached.1, .inl rfl, fun _ => reached.2 rfl⟩
  · split
    · exact decodeIPv6_safe sized requested offset
    · refine .pure (.rejected sized ?_)
      split
      · exact .inl rfl
      · exact .inr rfl

theorem decodeNetwork_safe (linkType : UInt32) (sized : memory.data.length = size)
    (requested : memory.requested ≤ cursor.offset + 1) (offset : cursor.offset ≤ 46)
    : Safely (decodeNetwork size linkType before cursor) memory fun after reached =>
        after.data.length = size
        ∧ (reached.1 = .decoded ∨ reached.1 = .malformed ∨ reached.1 = .unsupported)
        ∧ (reached.1 ≠ .decoded → reached.2.1 = before)
        ∧ (reached.1 = .decoded →
            reached.2.1.network = true ∧ Networked after size before reached.2) := by
  refine (headers_safe linkType sized requested offset).bind fun after result _ reached => ?_
  obtain ⟨outcome, network, cursor⟩ := result
  obtain ⟨same, outcomes, networked⟩ := reached
  dsimp only at outcomes networked ⊢
  split
  case isTrue rejects =>
    exact .pure ⟨same, outcomes, fun _ => rfl, fun decoded => absurd decoded rejects⟩
  case isFalse decoded =>
    have whole := networked (not_not.mp decoded)
    exact .pure ⟨same, .inl rfl, fun rejects => absurd rfl rejects, fun _ => ⟨rfl,
      ⟨same, whole.link, whole.transport, whole.requested, whole.offset, whole.stop⟩⟩⟩

/-! ### Transport layer -/

/-- Where the payload of a packet of `size` bytes lies: inside it, past everything requested. -/
structure Located (memory : Memory) (size : Nat) (packet : DecodedPacket) : Prop where
  requested : memory.requested ≤ packet.payloadOffset.toNat
  inside : packet.payloadOffset.toNat + packet.payloadLength.toNat ≤ size
  captured : packet.payloadLength.toNat
    = min packet.payloadDeclaredLength.toNat (size - packet.payloadOffset.toNat)

/-- What the transport layer leads to. -/
structure Transported (memory : Memory) (size : Nat) (before : DecodedPacket)
    (reached : DecodeOutcome × DecodedPacket) : Prop where
  link : linkFields reached.2 = linkFields before
  network : networkFields reached.2 = networkFields before
  outcome : reached.1 = .decoded ∨ reached.1 = .malformed ∨ reached.1 = .unsupported
  rejected : reached.1 ≠ .decoded → reached.2 = before
  located : reached.1 = .decoded → reached.2.transport = true ∧ Located memory size reached.2
  kind : reached.1 = .decoded → (reached.2.tcp = true ∧ reached.2.udp = before.udp)
    ∨ (reached.2.tcp = before.tcp ∧ reached.2.udp = true)

theorem Transported.refused (rejects : outcome = .malformed ∨ outcome = .unsupported)
    : Transported memory size before (outcome, before) where
  link := rfl
  network := rfl
  outcome := .inr rejects
  rejected _ := rfl
  located decoded := by rcases rejects with rfl | rfl <;> cases decoded
  kind decoded := by rcases rejects with rfl | rfl <;> cases decoded

theorem locatePayload_safe {offset stop headerLength : Nat}
    (readable : offset + headerLength ≤ memory.requested)
    (requested : memory.requested ≤ offset + headerLength) (header : 4 ≤ headerLength)
    (inside : offset + headerLength ≤ size) (within : offset + headerLength ≤ stop)
    (bounded : stop < 2 ^ 32) (link : linkFields result = linkFields before)
    (network : networkFields result = networkFields before)
    (kind : (result.tcp = true ∧ result.udp = before.udp)
      ∨ (result.tcp = before.tcp ∧ result.udp = true))
    : Safely (locatePayload size result offset stop headerLength) memory
        fun after reached => Transported after size before reached := by
  refine (readBigEndian16_safe (by omega)).look fun srcPort => ?_
  refine (readBigEndian16_safe (by omega)).look fun dstPort => ?_
  refine (difference_safe (by omega)).bind fun first span _ same => ?_
  obtain ⟨rfl, rfl⟩ := same
  refine (difference_safe (by omega)).bind fun second declared _ same => ?_
  obtain ⟨rfl, rfl⟩ := same
  refine (difference_safe (by omega)).bind fun third reach _ same => ?_
  obtain ⟨rfl, rfl⟩ := same
  refine (difference_safe (by omega)).bind fun fourth captured _ same => ?_
  obtain ⟨rfl, rfl⟩ := same
  have place : (UInt32.ofNat (offset + headerLength)).toNat = offset + headerLength := by
    rw [UInt32.toNat_ofNat', Nat.mod_eq_of_lt (by omega)]
  have long : (UInt32.ofNat (stop - offset - headerLength)).toNat
      = stop - offset - headerLength := by
    rw [UInt32.toNat_ofNat', Nat.mod_eq_of_lt (by omega)]
  have held : (UInt32.ofNat (min stop size - offset - headerLength)).toNat
      = min stop size - offset - headerLength := by
    rw [UInt32.toNat_ofNat', Nat.mod_eq_of_lt (by omega)]
  refine .pure ⟨link, network, .inl rfl, fun rejects => absurd rfl rejects, fun _ => ⟨rfl, ?_⟩,
    fun _ => kind⟩
  refine ⟨?_, ?_, ?_⟩
  · dsimp only
    omega
  · dsimp only
    omega
  · dsimp only
    omega

theorem decodeTransport_safe (networked : Networked memory size before (before, cursor))
    : Safely (decodeTransport size before cursor) memory fun after reached =>
        Transported after size before reached := by
  have sized := networked.sized
  have requested := networked.requested
  have stop := networked.stop
  dsimp only at requested stop
  unfold decodeTransport
  dsimp only
  split
  · refine ensureWithin_then sized (fun _ same => .pure (.refused (.inl rfl)))
      fun after same readable exactly within => ?_
    refine (byte_safe (by omega)).look fun words => ?_
    refine .ite (fun _ => .pure (.refused (.inl rfl))) fun long => ?_
    refine ensureWithin_then same (fun _ sized => .pure (.refused (.inl rfl)))
      fun later sized reach only within => ?_
    have inside := later.inside
    refine (byte_safe (by omega)).look fun flags => ?_
    refine (readBigEndian32_safe (by omega)).look fun tcpSeq => ?_
    refine (readBigEndian32_safe (by omega)).look fun tcpAck => ?_
    exact locatePayload_safe reach (by omega) (by omega) (by omega) within (by omega) rfl
      rfl (.inl ⟨rfl, rfl⟩)
  · refine .ite (fun _ => ?_) fun _ => .pure (.refused (.inr rfl))
    refine ensureWithin_then sized (fun _ same => .pure (.refused (.inl rfl)))
      fun after same readable exactly within => ?_
    have inside := after.inside
    refine (readBigEndian16_safe (by omega)).look fun length => ?_
    refine .ite (fun _ => .pure (.refused (.inl rfl))) fun lengths => ?_
    rw [not_or, UInt16.not_lt, UInt16.le_iff_toNat_le, Bool.not_eq_false, has_iff] at lengths
    have eight : UInt16.toNat 8 = 8 := rfl
    exact locatePayload_safe readable (by omega) (by decide) (by omega) (by omega)
      (by omega) rfl rfl (.inr ⟨rfl, rfl⟩)

/-! ### Packets -/

/-- What is known of a packet however far it was decoded. -/
structure Sound (memory : Memory) (size : Nat) (depth : DecodeDepth) (packet : DecodedPacket)
    : Prop where
  located : packet.transport = true → Located memory size packet
  requested : depth = .transport → packet.outcome ≠ .notRequested
  kind : depth = .transport → packet.outcome = .decoded → packet.tcp = !packet.udp
  plain : packet.outcome ≠ .decoded → packet.tcp = false ∧ packet.udp = false

theorem Sound.headless {depth : DecodeDepth} {packet : DecodedPacket}
    (transport : transportFields packet = transportFields {})
    (requested : depth = .transport → packet.outcome ≠ .notRequested)
    (shallow : depth = .transport → packet.outcome ≠ .decoded)
    : Sound memory size depth packet := by
  simp only [transportFields, Prod.mk.injEq] at transport
  refine ⟨fun reported => ?_, requested, fun deep decoded => ?_, fun _ => ?_⟩
  · rw [transport.1] at reported
    cases reported
  · exact absurd decoded (shallow deep)
  · exact ⟨transport.2.1, transport.2.2.1⟩

/-- A packet whose transport header was looked for. -/
theorem Sound.transported {depth : DecodeDepth} {packet : DecodedPacket}
    (reached : Transported memory size before (outcome, packet))
    (transport : transportFields before = transportFields {})
    : Sound memory size depth { packet with outcome } := by
  simp only [transportFields, Prod.mk.injEq] at transport
  have plain : outcome ≠ .decoded →
      packet.transport = false ∧ packet.tcp = false ∧ packet.udp = false := by
    intro rejects
    have same : packet = before := reached.rejected rejects
    rw [same]
    exact ⟨transport.1, transport.2.1, transport.2.2.1⟩
  refine ⟨fun reported => ?_, fun _ => ?_, fun _ decoded => ?_, fun rejects => (plain rejects).2⟩
  · by_cases decoded : outcome = .decoded
    · have located := (reached.located decoded).2
      exact ⟨located.requested, located.inside, located.captured⟩
    · rw [show packet.transport = true from reported] at plain
      cases (plain decoded).1
  · rcases reached.outcome with same | same | same
    · simp only at same
      simp [same]
    · simp only at same
      simp [same]
    · simp only at same
      simp [same]
  · rcases reached.kind decoded with ⟨tcp, udp⟩ | ⟨tcp, udp⟩
    · simp only at tcp udp
      rw [tcp, udp, transport.2.2.1]
      rfl
    · simp only at tcp udp
      rw [tcp, udp, transport.2.1]
      rfl

theorem decodePacket_sound (linkType : UInt32) (depth : DecodeDepth)
    (sized : memory.data.length = size) (fresh : memory.requested = 0)
    : Safely (decodePacket size linkType depth) memory fun after => Sound after size depth := by
  unfold decodePacket
  split
  case isTrue none =>
    subst none
    exact .pure (.headless rfl (fun deep => nomatch deep) fun deep => nomatch deep)
  · split
    case isTrue shallow =>
      obtain ⟨rfl, _⟩ := shallow
      exact .pure (.headless rfl (fun deep => nomatch deep) fun deep => nomatch deep)
    · refine (decodeLink_safe linkType sized fresh).bind fun after result _ linked => ?_
      obtain ⟨outcome, result, cursor⟩ := result
      have outcomes := linked.outcome
      dsimp only at outcomes ⊢
      split
      case isTrue ends =>
        refine .pure (.headless linked.transport (fun _ => ?_) fun deep => ?_)
        · rcases outcomes with rfl | rfl | rfl <;> simp
        · rcases ends with rejects | rfl
          · exact rejects
          · cases deep
      case isFalse goes =>
        rw [not_or, not_not] at goes
        obtain ⟨rfl, deeper⟩ := goes
        refine (decodeNetwork_safe linkType linked.sized (linked.requested rfl)
          (linked.offset rfl)).bind fun later result _ networked => ?_
        obtain ⟨outcome, network, cursor⟩ := result
        obtain ⟨same, outcomes, rejected, validated⟩ := networked
        dsimp only at outcomes rejected validated ⊢
        split
        case isTrue rejects =>
          refine .pure (.headless ?_ (fun _ => ?_) fun _ => rejects)
          · rw [rejected rejects]
            exact linked.transport
          · rcases outcomes with rfl | rfl | rfl <;> simp
        case isFalse decoded =>
          obtain ⟨_, whole⟩ := validated (not_not.mp decoded)
          have transport := whole.transport.trans linked.transport
          split
          case isTrue ends =>
            refine .pure (.headless transport (fun _ => ?_) fun deep => ?_)
            · dsimp only
              split <;> simp
            · rcases ends with rfl | fragment
              · cases deep
              · rw [fragment]
                simp
          case isFalse goes =>
            have networked : Networked later size { network with outcome }
                ({ network with outcome }, cursor) :=
              ⟨same, rfl, rfl, whole.requested, whole.offset, whole.stop⟩
            refine (decodeTransport_safe networked).bind fun last result _ transported => ?_
            obtain ⟨outcome, packet⟩ := result
            exact .pure (.transported transported transport)

end Layers

/-- Decoding any packet to any depth requests no more than the packet has, looks only at what was
requested and lets no difference wrap; a payload it reports lies inside the packet, and is what
was captured of the declared payload.
-/
theorem decodePacket_safe (data : List UInt8) (linkType : UInt32) (depth : DecodeDepth)
    : ∃ memory packet,
        (decodePacket data.length linkType depth).run Memory.handle (.ofPacket data)
          = .ok (memory, packet)
        ∧ (packet.transport = true →
            packet.payloadOffset.toNat + packet.payloadLength.toNat ≤ data.length
            ∧ packet.payloadLength ≤ packet.payloadDeclaredLength
            ∧ packet.payloadLength.toNat = min packet.payloadDeclaredLength.toNat
                (data.length - packet.payloadOffset.toNat)) := by
  obtain ⟨⟨memory, packet⟩, returned, _, sound⟩ :=
    (@decodePacket_sound (.ofPacket data) data.length linkType depth rfl rfl).returns
  refine ⟨memory, packet, returned, fun reported => ?_⟩
  have located := sound.located reported
  refine ⟨located.inside, ?_, located.captured⟩
  rw [UInt32.le_iff_toNat_le, located.captured]
  exact Nat.min_le_left ..

end PacketQuapture.Decoder
