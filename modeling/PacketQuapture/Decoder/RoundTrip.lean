import PacketQuapture.Decoder.Encoding
import PacketQuapture.Decoder.HeadersOnly
import PacketQuapture.Library.PartAt

/-! Decoding undoes encoding.
Each layer's reader finds what its header was written from, and leaves the cursor where the next
header starts. What was captured of the payload only decides the reported length of it.
-/

namespace PacketQuapture.Decoder

open Library

/-! ### Reading what is known to stand there -/

variable {α β : Type} {memory : Memory} {data : List UInt8} {index : Nat}

/-- The program only looks, and finds `value`. -/
def Yields (program : Decoding α) (memory : Memory) (value : α) : Prop :=
  Safely program memory fun after result => after = memory ∧ result = value

/-- What a program yields is what the next one goes on from. -/
theorem Yields.bind {program : Decoding α} {value : α} {next : α → Decoding β}
    {final : Memory → β → Prop} (first : Yields program memory value)
    (second : Safely (next value) memory final)
    : Safely (program >>= next) memory final := by
  refine Safely.bind first fun after result _ found => ?_
  obtain ⟨rfl, rfl⟩ := found
  exact second

theorem Yields.pure (value : α) : Yields (Pure.pure value) memory value :=
  Safely.pure ⟨rfl, rfl⟩

/-- A requested byte that stands in the data is read. -/
theorem byte_yields {found : UInt8} {rest : List UInt8} (held : memory.data = data)
    (at_ : PartAt data index (found :: rest)) (inside : index < memory.requested)
    : Yields (byte index) memory found := by
  have same : memory.data.getD index 0 = found := by
    rw [held, List.getD_eq_getElem?_getD, at_.head, Option.getD_some]
  rw [Yields, Safely, byte, Interaction.run_request, Memory.handle, if_pos inside]
  exact .ok ⟨.refl memory, rfl, same⟩

/-- Requested bytes that stand in the data are read.
Witness: induction on the part, one byte at a time.
-/
theorem bytes_yields {part : List UInt8} {count : Nat} (held : memory.data = data)
    (at_ : PartAt data index part) (sized : part.length = count)
    (inside : index + count ≤ memory.requested)
    : Yields (bytes index count) memory part := by
  induction part generalizing index count with
  | nil =>
    subst sized
    exact Yields.pure []
  | cons found rest ih =>
    subst sized
    rw [List.length_cons] at inside
    rw [List.length_cons, bytes]
    refine (byte_yields held at_ (by omega)).bind ?_
    exact (ih at_.tail rfl (by omega)).bind (Yields.pure (found :: rest))

/-- A requested 16-bit field is read back. -/
theorem readBigEndian16_yields {value : Nat} (held : memory.data = data)
    (at_ : PartAt data index (bigEndian 2 value)) (inside : index + 2 ≤ memory.requested)
    : Yields (readBigEndian16 index) memory (UInt16.ofNat value) := by
  have bytes : bigEndian 2 value = [UInt8.ofNat (value / 256), UInt8.ofNat value] := rfl
  rw [bytes] at at_
  refine (byte_yields held at_ (by omega)).bind ?_
  refine (byte_yields held at_.tail (by omega)).bind ?_
  rw [uint16_of_bytes]
  exact Yields.pure _

/-- A requested 32-bit field is read back. -/
theorem readBigEndian32_yields {value : Nat} (held : memory.data = data)
    (at_ : PartAt data index (bigEndian 4 value)) (inside : index + 4 ≤ memory.requested)
    : Yields (readBigEndian32 index) memory (UInt32.ofNat value) := by
  rw [bigEndian_four, PartAt.append_iff, length_bigEndian] at at_
  refine (readBigEndian16_yields held at_.1 (by omega)).bind ?_
  refine (readBigEndian16_yields held at_.2 (by omega)).bind ?_
  rw [uint32_of_words]
  exact Yields.pure _

section Headers

variable {stop start length : Nat} {next : Bool → Decoding β} {final : Memory → β → Prop}

/-- A prefix inside the data is there once it is requested. -/
theorem ensure_bind (held : memory.data = data) (fits : start + length ≤ data.length)
    (second : ∀ after : Memory, after.data = data → start + length ≤ after.requested →
      Safely (next true) after final)
    : Safely (ensure data.length start length >>= next) memory final := by
  have checked : Safely (ensure data.length start length) memory fun after taken =>
      taken = true ∧ start + length ≤ after.requested := by
    rw [ensure, has_iff.mpr fits, if_neg (by simp)]
    refine (readPrefix_safe (by rw [held]; exact fits)).bind fun after _ _ reached => ?_
    exact .pure ⟨rfl, reached.readable⟩
  refine checked.bind fun after taken grown reached => ?_
  rw [reached.1]
  exact second after (grown.data.trans held) reached.2

/-- The same within the end of a header. -/
theorem ensureWithin_bind (held : memory.data = data) (fits : start + length ≤ data.length)
    (within : start + length ≤ stop)
    (second : ∀ after : Memory, after.data = data → start + length ≤ after.requested →
      Safely (next true) after final)
    : Safely (ensureWithin data.length stop start length >>= next) memory final := by
  rw [ensureWithin, if_pos (has_iff.mpr within)]
  exact ensure_bind held fits second

end Headers

/-! ### Fields of a byte or a word -/

/-- A byte of two nibbles splits into them. -/
theorem nibbles_of_byte {high low : Nat} (highFits : high < 16) (lowFits : low < 16)
    : (UInt8.ofNat (high * 16 + low) >>> 4).toNat = high
      ∧ (UInt8.ofNat (high * 16 + low) &&& 0x0f).toNat = low := by
  have places : UInt8.toNat 4 % 8 = 4 := rfl
  have mask : UInt8.toNat 0x0f = 2 ^ 4 - 1 := rfl
  rw [UInt8.toNat_shiftRight, UInt8.toNat_and, places, mask, Nat.shiftRight_eq_div_pow,
    Nat.and_two_pow_sub_one_eq_mod, UInt8.toNat_ofNat']
  omega

/-- The identifier is the low twelve bits of a tag's control word. -/
theorem VlanTag.control_id (tag : VlanTag)
    : UInt16.ofNat tag.control &&& 0x0fff = UInt16.ofNat tag.id.1 := by
  have priority := tag.priority.2
  have id := tag.id.2
  have mask : UInt16.toNat 0x0fff = 2 ^ 12 - 1 := rfl
  rw [← UInt16.toNat_inj, UInt16.toNat_and, mask, Nat.and_two_pow_sub_one_eq_mod,
    UInt16.toNat_ofNat', UInt16.toNat_ofNat', VlanTag.control]
  omega

/-! ### Link layer -/

theorem VlanTag.type_is_tag (tag : VlanTag) : tag.type = 0x8100 ∨ tag.type = 0x88a8 := by
  rw [VlanTag.type]
  split
  · exact .inr rfl
  · exact .inl rfl

theorem leadingType_ofNat (last : UInt16) (tags : List VlanTag)
    : UInt16.ofNat (leadingType last tags).toNat = leadingType last tags :=
  UInt16.ofNat_toNat

/-- No network header has the type of a tag, so the loop over tags ends before it. -/
theorem NetworkHeader.etherType_not_tag (network : NetworkHeader)
    : ¬ (network.etherType = 0x8100 ∨ network.etherType = 0x88a8) := by
  cases network with
  | ipv4 header => exact show ¬ ((0x0800 : UInt16) = 0x8100 ∨ (0x0800 : UInt16) = 0x88a8) by decide
  | ipv6 header => exact show ¬ ((0x86dd : UInt16) = 0x8100 ∨ (0x86dd : UInt16) = 0x88a8) by decide

/-- The loop takes the tags one by one; the type after the last one ends it. -/
theorem vlanLoop_reads {last : UInt16} (plain : ¬ (last = 0x8100 ∨ last = 0x88a8))
    {tags : List VlanTag} {room : Nat} {result : DecodedPacket} {cursor : Cursor}
    (held : memory.data = data) (enough : tags.length ≤ room)
    (fits : result.vlanIds.1.length + tags.length ≤ 8)
    (type : cursor.type = leadingType last tags)
    (at_ : PartAt data cursor.offset (encodeTags last tags))
    : Safely (vlanLoop data.length room result cursor) memory fun _ reached =>
        ∃ stack : VlanStack,
          stack.1 = result.vlanIds.1 ++ tags.map (fun tag => UInt16.ofNat tag.id.1)
          ∧ reached = (.decoded,
              { result with ethernet := true, etherType := last, vlanIds := stack },
              { cursor with
                type := last, offset := cursor.offset + (encodeTags last tags).length }) := by
  induction tags generalizing memory room result cursor with
  | nil =>
    rw [leadingType] at type
    subst type
    unfold vlanLoop
    rw [if_neg plain]
    exact .pure ⟨result.vlanIds, (List.append_nil _).symm, rfl⟩
  | cons tag rest ih =>
    obtain ⟨room, rfl⟩ := Nat.exists_eq_add_one_of_ne_zero
      (Nat.ne_of_gt (Nat.lt_of_lt_of_le (Nat.zero_lt_succ _) enough))
    have inside := at_.inside
    rw [List.length_cons] at enough fits
    simp only [encodeTags, List.append_assoc, PartAt.append_iff, length_bigEndian] at at_
    obtain ⟨control, typed, rest_⟩ := at_
    simp only [encodeTags, List.length_append, length_bigEndian] at inside
    rw [leadingType] at type
    rw [vlanLoop, if_pos (by rw [type]; exact tag.type_is_tag)]
    refine ensure_bind held (by omega) fun after held readable => ?_
    rw [if_neg (by simp)]
    refine (readBigEndian16_yields held control (by omega)).bind ?_
    refine (readBigEndian16_yields held typed (by omega)).bind ?_
    rw [leadingType_ofNat, tag.control_id]
    refine (pushBack_safe (by omega)).bind fun _ vlanIds _ pushed => ?_
    obtain ⟨rfl, stacked⟩ := pushed
    refine (ih held (Nat.le_of_succ_le_succ enough) ?_ rfl ?_).mono
      fun _ reached _ found => ?_
    · rw [stacked, List.length_append]
      simp only [List.length_singleton]
      omega
    · rw [Nat.add_assoc] at rest_
      exact rest_
    · obtain ⟨stack, ids, same⟩ := found
      refine ⟨stack, ?_, ?_⟩
      · rw [ids, stacked, List.append_assoc]
        rfl
      · rw [same]
        simp only [encodeTags, List.length_append, length_bigEndian, Nat.add_assoc,
          Nat.reduceAdd]

theorem copyInto_self {count : Nat} (target found : FixedBytes count)
    : copyInto target found.1 = found := by
  refine Subtype.ext ?_
  have whole : found.1.take count = found.1 := List.take_of_length_le (by rw [found.2])
  have none : target.1.drop found.1.length = [] := List.drop_eq_nil_of_le (by rw [found.2, target.2])
  rw [copyInto]
  simp only
  rw [whole, none, List.append_nil]

/-- The version a datagram starts with, which is all that a raw packet tells of its type. -/
def NetworkHeader.version : NetworkHeader → UInt8
  | .ipv4 _ => 4
  | .ipv6 _ => 6

/-- The link layer finds its header, and the type of the datagram after it. -/
theorem decodeLink_reads (link : LinkHeader) (network : NetworkHeader) {first : UInt8}
    {rest : List UInt8} (held : memory.data = data)
    (at_ : PartAt data 0 (link.encode network.etherType))
    (next : PartAt data (link.encode network.etherType).length (first :: rest))
    (version : first >>> 4 = network.version)
    : Safely (decodeLink data.length (link.linkType network) {} {}) memory fun _ reached =>
        reached = (.decoded, link.describe network.etherType,
          { offset := (link.encode network.etherType).length, type := network.etherType }) := by
  have inside := at_.inside
  have further := next.inside
  rw [List.length_cons] at further
  cases link with
  | ethernet dst src tags few =>
    rw [LinkHeader.linkType, decodeLink, if_pos rfl, decodeEthernet]
    simp only [LinkHeader.encode, List.append_assoc, PartAt.append_iff, length_bigEndian,
      List.length_append, dst.2, src.2, Nat.zero_add, Nat.reduceAdd] at at_ inside ⊢
    obtain ⟨dstAt, srcAt, typeAt, tagsAt⟩ := at_
    refine ensure_bind held (by omega) fun after held readable => ?_
    rw [if_neg (by simp)]
    refine (bytes_yields held dstAt dst.2 (by omega)).bind ?_
    refine (bytes_yields held srcAt src.2 (by omega)).bind ?_
    refine (readBigEndian16_yields held typeAt (by omega)).bind ?_
    rw [leadingType_ofNat, copyInto_self, copyInto_self]
    refine (vlanLoop_reads network.etherType_not_tag held few ?_ rfl tagsAt).mono
      fun _ reached _ found => ?_
    · exact (Nat.zero_add _).trans_le few
    · obtain ⟨stack, ids, same⟩ := found
      obtain rfl : stack = ⟨tags.map fun tag => UInt16.ofNat tag.id.1, by simpa using few⟩ :=
        Subtype.ext ids
      rw [same, ← Nat.add_assoc, ← Nat.add_assoc]
      rfl
  | raw =>
    rw [LinkHeader.linkType, decodeLink, if_neg (by decide), if_pos rfl]
    refine ensure_bind held (by omega) fun after held readable => ?_
    rw [if_neg (by simp)]
    refine (byte_yields held next (by exact readable)).bind ?_
    rw [version]
    cases network with
    | ipv4 header => exact .pure rfl
    | ipv6 header => exact .pure rfl
  | rawFamily =>
    cases network with
    | ipv4 header => exact .pure rfl
    | ipv6 header => exact .pure rfl
  | cooked start =>
    rw [LinkHeader.linkType, decodeLink, if_neg (by decide), if_neg (by decide),
      if_neg (by decide), if_pos (.inl rfl)]
    simp only [LinkHeader.encode, PartAt.append_iff, length_bigEndian, List.length_append,
      start.2, Nat.zero_add, Nat.reduceAdd] at at_ inside ⊢
    refine ensure_bind held inside fun after held readable => ?_
    rw [if_neg (by simp)]
    refine (readBigEndian16_yields held at_.2 readable).bind ?_
    rw [UInt16.ofNat_toNat]
    exact .pure rfl
  | cookedV2 after =>
    rw [LinkHeader.linkType, decodeLink, if_neg (by decide), if_neg (by decide),
      if_neg (by decide), if_pos (.inr rfl)]
    simp only [LinkHeader.encode, PartAt.append_iff, length_bigEndian, List.length_append,
      after.2, Nat.zero_add, Nat.reduceAdd] at at_ inside ⊢
    refine ensure_bind held inside fun after held readable => ?_
    rw [if_neg (by simp)]
    have whole : 20 ≤ after.requested := readable
    refine (readBigEndian16_yields held at_.1 (Nat.le_trans (by decide) whole)).bind ?_
    rw [UInt16.ofNat_toNat]
    exact .pure rfl

/-! ### Network layer -/

variable {network : DecodedPacket} {cursor : Cursor} {carried : Nat}
variable {protocol : UInt8}

/-- An IPv4 address fills the start of its field. -/
theorem copyInto_zero (address : FixedBytes 4)
    : copyInto (.zero 16) address.1 = paddedAddress address := by
  refine Subtype.ext ?_
  have whole : address.1.take 16 = address.1 := List.take_of_length_le (by rw [address.2]; decide)
  rw [copyInto]
  simp only
  rw [whole, address.2]
  rfl

/-- Neither the offset nor the more-fragments bit of a whole datagram is set. -/
theorem plain_fragment_word (reserved dontFragment : Bool)
    : UInt16.ofNat (reserved.toNat * 32768 + dontFragment.toNat * 16384) &&& 0x1fff = 0
      ∧ UInt16.ofNat (reserved.toNat * 32768 + dontFragment.toNat * 16384) &&& 0x2000 = 0 := by
  revert reserved dontFragment
  decide

theorem IPv4Header.length_encode (header : IPv4Header) (protocol : UInt8)
    : (header.encode protocol carried).length = header.length := by
  simp only [IPv4Header.encode, IPv4Header.length, List.length_append, List.length_cons,
    List.length_nil, length_bigEndian, header.src.2, header.dst.2]

/-- An IPv4 header that stands at the cursor is read back. -/
theorem decodeIPv4_reads (header : IPv4Header) (held : memory.data = data)
    (fresh : networkFields network = networkFields {})
    (at_ : PartAt data cursor.offset (header.encode protocol carried))
    (fits : header.length + carried < 65536)
    : Safely (decodeIPv4 data.length network cursor) memory fun _ reached =>
        reached.1 = true
        ∧ { reached.2.1 with network := true } = header.describe protocol network
        ∧ reached.2.2 = { cursor with
            offset := cursor.offset + header.length
            stop := cursor.offset + header.length + carried } := by
  have inside := at_.inside
  have words := header.options.wholeWords
  have few := header.options.few
  have long : header.length = 20 + header.options.bytes.length := rfl
  rw [header.length_encode] at inside
  simp only [IPv4Header.encode, List.append_assoc, PartAt.append_iff, length_bigEndian,
    List.length_cons, List.length_nil, header.src.2, header.dst.2, Nat.add_assoc,
    Nat.reduceAdd] at at_
  obtain ⟨start, total, id, fragment, protocols, _, src, dst, _⟩ := at_
  obtain ⟨version, words⟩ := @nibbles_of_byte 4 (header.length / 4) (by decide) (by omega)
  have length : (UInt8.ofNat (4 * 16 + header.length / 4) &&& 0x0f).toNat * 4 = header.length := by
    rw [words]
    omega
  rw [decodeIPv4]
  refine ensure_bind held (by omega) fun after held readable => ?_
  rw [if_neg (by simp)]
  refine (byte_yields held start (by omega)).bind ?_
  rw [if_neg (not_not.mpr (UInt8.toNat_inj.mp version))]
  refine (readBigEndian16_yields held total (by omega)).bind ?_
  dsimp only
  rw [length, UInt16.toNat_ofNat_of_lt' fits, if_neg (by omega)]
  refine ensure_bind held inside fun later held readable => ?_
  rw [if_neg (by simp)]
  refine (byte_yields held protocols.tail (by omega)).bind ?_
  refine (byte_yields held protocols (by omega)).bind ?_
  refine (readBigEndian16_yields held id (by omega)).bind ?_
  refine (readBigEndian16_yields held fragment (by omega)).bind ?_
  refine (bytes_yields held src header.src.2 (by omega)).bind ?_
  refine (bytes_yields held dst header.dst.2 (by omega)).bind ?_
  obtain ⟨offset, more⟩ := plain_fragment_word header.reserved header.dontFragment
  simp only [networkFields, Prod.mk.injEq] at fresh
  refine .pure ⟨rfl, ?_, ?_⟩
  · obtain ⟨_, _, _, _, srcIp, dstIp, fragmentOffset, _, moreFragments, _⟩ := fresh
    rw [offset, more, srcIp, dstIp, copyInto_zero, copyInto_zero, IPv4Header.describe,
      fragmentOffset, moreFragments, UInt16.ofNat_toNat]
    rfl
  · rw [Nat.add_assoc]

namespace ExtensionHeader

theorem length_encode (header : ExtensionHeader) (follow : UInt8)
    : (header.encode follow).length = header.kind.length header.units := by
  rw [← header.sized]
  rfl

/-- An extension header has the eight bytes that are requested first. -/
theorem eight_le_length (header : ExtensionHeader) : 8 ≤ header.kind.length header.units := by
  have fixed := header.fixed
  cases kind : header.kind with
  | authentication =>
    rw [kind] at fixed
    exact Nat.le_trans (by decide) (fixed rfl)
  | hopByHop | routing | destination =>
    rw [ExtensionKind.length]
    omega

end ExtensionHeader

/-- The end of an extension header moves the cursor past it. -/
theorem extension_finish_reads (header : ExtensionHeader) {follow : UInt8}
    (held : memory.data = data) (at_ : PartAt data cursor.offset (header.encode follow))
    (within : cursor.offset + header.kind.length header.units ≤ cursor.stop)
    : Safely (decodeIPv6Extension.finish data.length cursor cursor.offset
          (header.kind.length header.units) network) memory fun _ reached =>
        reached = (true, { network with ipProtocol := follow },
          { cursor with offset := cursor.offset + header.kind.length header.units }) := by
  have inside := at_.inside
  have long := header.eight_le_length
  rw [header.length_encode] at inside
  refine ensureWithin_bind held inside within fun after held readable => ?_
  rw [if_neg (by simp)]
  refine (byte_yields held at_ (by omega)).bind ?_
  exact .pure rfl

/-- An extension header that stands at the cursor is read back.
Witness: one case for each of its kinds, which compute their lengths differently.
-/
theorem decodeIPv6Extension_reads (header : ExtensionHeader) {follow : UInt8}
    (held : memory.data = data) (typed : network.ipProtocol = header.kind.code)
    (at_ : PartAt data cursor.offset (header.encode follow))
    (readable : cursor.offset + 8 ≤ memory.requested)
    (within : cursor.offset + header.kind.length header.units ≤ cursor.stop)
    : Safely (decodeIPv6Extension data.length network cursor) memory fun _ reached =>
        reached = (true, { network with ipProtocol := follow },
          { cursor with offset := cursor.offset + header.kind.length header.units }) := by
  have finish := @extension_finish_reads memory data network cursor header follow held at_ within
  rw [decodeIPv6Extension]
  refine (byte_yields held (PartAt.tail at_) (by omega)).bind ?_
  rw [typed]
  have fixed := header.fixed
  cases kind : header.kind with
  | authentication =>
    rw [kind] at fixed finish
    have long : 12 ≤ (header.units.toNat + 2) * 4 := fixed rfl
    rw [if_neg (by decide), if_pos (by rfl), if_neg (Nat.not_lt.mpr long)]
    exact finish
  | hopByHop =>
    rw [kind] at finish
    rw [if_neg (by decide), if_neg (by decide)]
    exact finish
  | routing =>
    rw [kind] at finish
    rw [if_neg (by decide), if_neg (by decide)]
    exact finish
  | destination =>
    rw [kind] at finish
    rw [if_neg (by decide), if_neg (by decide)]
    exact finish

theorem ExtensionKind.isExtension_code (kind : ExtensionKind) : isExtension kind.code = true := by
  cases kind <;> rfl

/-- The loop takes the headers one by one; the protocol after the last one ends it. -/
theorem extensionLoop_reads (last : isExtension protocol = false)
    {extensions : List ExtensionHeader} {left : Nat} (held : memory.data = data)
    (enough : extensions.length ≤ left)
    (typed : network.ipProtocol = leadingProtocol protocol extensions)
    (whole : network.ipFragmentOffset = 0)
    (at_ : PartAt data cursor.offset (encodeChain protocol extensions))
    (within : cursor.offset + (encodeChain protocol extensions).length ≤ cursor.stop)
    : Safely (extensionLoop data.length left network cursor) memory fun _ reached =>
        reached = (.decoded, { network with ipProtocol := protocol },
          { cursor with offset := cursor.offset + (encodeChain protocol extensions).length }) := by
  induction extensions generalizing memory left network cursor with
  | nil =>
    rw [leadingProtocol] at typed
    subst typed
    unfold extensionLoop
    rw [if_neg (by rw [last]; simp)]
    exact .pure rfl
  | cons header rest ih =>
    obtain ⟨left, rfl⟩ := Nat.exists_eq_add_one_of_ne_zero
      (Nat.ne_of_gt (Nat.lt_of_lt_of_le (Nat.zero_lt_succ _) enough))
    rw [encodeChain, List.length_append, header.length_encode] at within ⊢
    rw [encodeChain, PartAt.append_iff, header.length_encode] at at_
    have inside := at_.1.inside
    have long := header.eight_le_length
    rw [header.length_encode] at inside
    rw [leadingProtocol] at typed
    rw [extensionLoop, typed, if_pos header.kind.isExtension_code]
    refine ensureWithin_bind held (by omega) (by omega) fun after held readable => ?_
    rw [if_neg (by simp)]
    refine (decodeIPv6Extension_reads header held typed at_.1 readable (by omega)).bind
      fun later reached grown same => ?_
    subst same
    dsimp only
    rw [if_neg (by simp), if_neg (not_not.mpr whole)]
    refine Safely.mono (ih (grown.data.trans held) (Nat.le_of_succ_le_succ enough) rfl whole at_.2
      (by dsimp only; omega)) fun _ reached _ same => ?_
    rw [same, ← Nat.add_assoc]

theorem IPv6Header.length_encode (header : IPv6Header) (protocol : UInt8)
    : (header.encode protocol carried).length = 40 + (header.chain protocol).length := by
  simp only [IPv6Header.encode, List.length_append, List.length_cons, List.length_nil,
    length_bigEndian, header.flow.2, header.src.2, header.dst.2]

/-- An IPv6 header that stands at the cursor is read back with its chain of extensions. -/
theorem decodeIPv6_reads (header : IPv6Header) (last : isExtension protocol = false)
    (held : memory.data = data) (fresh : networkFields network = networkFields {})
    (at_ : PartAt data cursor.offset (header.encode protocol carried))
    (fits : (header.chain protocol).length + carried < 65536)
    : Safely (decodeIPv6 data.length network cursor) memory fun _ reached =>
        reached.1 = .decoded
        ∧ { reached.2.1 with network := true } = header.describe protocol network
        ∧ reached.2.2 = { cursor with
            offset := cursor.offset + (40 + (header.chain protocol).length)
            stop := cursor.offset + (40 + (header.chain protocol).length) + carried } := by
  have inside := at_.inside
  rw [header.length_encode] at inside
  have first : header.encode protocol carried
      = [UInt8.ofNat (6 * 16 + header.traffic.1)] ++ (header.flow.1
        ++ (bigEndian 2 ((header.chain protocol).length + carried)
        ++ ([leadingProtocol protocol header.extensions, header.ttl]
        ++ (header.src.1 ++ (header.dst.1 ++ header.chain protocol))))) := by
    simp only [IPv6Header.encode, List.cons_append, List.nil_append, List.append_assoc]
  rw [first] at at_
  simp only [PartAt.append_iff, length_bigEndian, List.length_cons, List.length_nil,
    header.flow.2, header.src.2, header.dst.2, Nat.add_assoc, Nat.reduceAdd] at at_
  obtain ⟨start, _, length, protocols, src, dst, chain⟩ := at_
  obtain ⟨version, _⟩ := nibbles_of_byte (show 6 < 16 by decide) header.traffic.2
  simp only [networkFields, Prod.mk.injEq] at fresh
  rw [decodeIPv6]
  refine ensure_bind held (by omega) fun after held readable => ?_
  rw [if_neg (by simp)]
  refine (byte_yields held start (by omega)).bind ?_
  rw [if_neg (not_not.mpr (UInt8.toNat_inj.mp version))]
  refine (readBigEndian16_yields held length (by omega)).bind ?_
  refine (byte_yields held protocols (by omega)).bind ?_
  refine (byte_yields held protocols.tail (by omega)).bind ?_
  refine (bytes_yields held src header.src.2 (by omega)).bind ?_
  refine (bytes_yields held dst header.dst.2 (by omega)).bind ?_
  rw [copyInto_self, copyInto_self, UInt16.toNat_ofNat_of_lt' fits]
  rw [IPv6Header.chain] at *
  refine Safely.mono (extensionLoop_reads last held header.few rfl fresh.2.2.2.2.2.2.1 chain
    (by dsimp only; omega)) fun _ reached _ same => ?_
  rw [same]
  refine ⟨rfl, rfl, ?_⟩
  simp only [Nat.add_assoc]

/-- A network header of either version that stands at the cursor is read back. -/
theorem headers_reads (header : NetworkHeader) (linkType : UInt32)
    (last : isExtension protocol = false) (held : memory.data = data)
    (fresh : networkFields network = networkFields {}) (typed : cursor.type = header.etherType)
    (at_ : PartAt data cursor.offset (header.encode protocol carried))
    (fits : header.declared protocol carried < 65536)
    : Safely (decodeNetwork.headers data.length linkType network cursor) memory fun _ reached =>
        reached.1 = .decoded
        ∧ { reached.2.1 with network := true } = header.describe protocol network
        ∧ reached.2.2 = { cursor with
            offset := cursor.offset + (header.encode protocol carried).length
            stop := cursor.offset + (header.encode protocol carried).length + carried } := by
  rw [decodeNetwork.headers]
  cases header with
  | ipv4 header =>
    rw [if_pos (show cursor.type = 0x0800 from typed), NetworkHeader.encode, header.length_encode]
    refine (decodeIPv4_reads header held fresh at_ fits).bind fun after reached _ found => ?_
    obtain ⟨whole, network, cursor⟩ := reached
    obtain ⟨rfl, described, moved⟩ := found
    exact .pure ⟨rfl, described, moved⟩
  | ipv6 header =>
    have type : cursor.type = 0x86dd := typed
    rw [if_neg (by rw [type]; decide), if_pos type, NetworkHeader.encode, header.length_encode]
    exact decodeIPv6_reads header last held fresh at_ fits

/-- The network layer is read back, and the cursor moves past its header. -/
theorem decodeNetwork_reads (header : NetworkHeader) (linkType : UInt32)
    (last : isExtension protocol = false) (held : memory.data = data)
    (fresh : networkFields network = networkFields {}) (typed : cursor.type = header.etherType)
    (at_ : PartAt data cursor.offset (header.encode protocol carried))
    (fits : header.declared protocol carried < 65536)
    : Safely (decodeNetwork data.length linkType network cursor) memory fun _ reached =>
        reached = (.decoded, header.describe protocol network,
          { cursor with
            offset := cursor.offset + (header.encode protocol carried).length
            stop := cursor.offset + (header.encode protocol carried).length + carried }) := by
  refine (headers_reads header linkType last held fresh typed at_ fits).bind
    fun after reached _ found => ?_
  obtain ⟨outcome, result, moved⟩ := reached
  obtain ⟨rfl, described, rfl⟩ := found
  dsimp only at described ⊢
  rw [if_neg (by simp), described]
  exact .pure rfl

/-! ### Transport layer -/

theorem TcpHeader.length_encode (header : TcpHeader) : header.encode.length = header.length := by
  simp only [TcpHeader.encode, TcpHeader.length, List.length_append, List.length_cons,
    List.length_nil, length_bigEndian]

theorem TransportHeader.length_encode (header : TransportHeader)
    : (header.encode carried).length = header.length := by
  cases header with
  | tcp header => exact header.length_encode
  | udp header => rfl

/-- The ports, and the payload of which the packet holds what `data` has left. -/
theorem locatePayload_reads {srcPort dstPort : UInt16} {offset headerLength : Nat}
    (held : memory.data = data) (srcAt : PartAt data offset (bigEndian 2 srcPort.toNat))
    (dstAt : PartAt data (offset + 2) (bigEndian 2 dstPort.toNat))
    (long : 4 ≤ headerLength) (readable : offset + headerLength ≤ memory.requested)
    : Safely (locatePayload data.length network offset (offset + headerLength + carried)
          headerLength) memory fun _ reached =>
        reached = (.decoded,
          { network with
            transport := true
            srcPort
            dstPort
            payloadOffset := UInt32.ofNat (offset + headerLength)
            payloadDeclaredLength := UInt32.ofNat carried
            payloadLength := UInt32.ofNat
              (min carried (data.length - (offset + headerLength))) }) := by
  have inside := memory.inside
  rw [held] at inside
  refine (readBigEndian16_yields held srcAt (by omega)).bind ?_
  refine (readBigEndian16_yields held dstAt (by omega)).bind ?_
  refine Yields.bind (difference_safe (by omega)) ?_
  refine Yields.bind (difference_safe (by omega)) ?_
  refine Yields.bind (difference_safe (by omega)) ?_
  refine Yields.bind (difference_safe (by omega)) ?_
  have declared : offset + headerLength + carried - offset - headerLength = carried := by omega
  have captured : min (offset + headerLength + carried) data.length - offset - headerLength
      = min carried (data.length - (offset + headerLength)) := by omega
  rw [UInt16.ofNat_toNat, UInt16.ofNat_toNat, declared, captured]
  exact .pure rfl

/-- A transport header that stands at the cursor is read back.
Witness: one case for each protocol.
-/
theorem decodeTransport_reads (header : TransportHeader) (held : memory.data = data)
    (protocol : network.ipProtocol = header.protocol)
    (at_ : PartAt data cursor.offset (header.encode carried))
    (stop : cursor.stop = cursor.offset + header.length + carried)
    (fits : header.length + carried < 65536)
    : Safely (decodeTransport data.length network cursor) memory fun _ reached =>
        reached = (.decoded, header.describe (cursor.offset + header.length) carried
          (min carried (data.length - (cursor.offset + header.length))) network) := by
  have inside := at_.inside
  rw [header.length_encode] at inside
  rw [decodeTransport]
  cases header with
  | tcp header =>
    have few := header.options.few
    have words := header.options.wholeWords
    have long : header.length = 20 + header.options.bytes.length := rfl
    have length : (TransportHeader.tcp header).length = header.length := rfl
    rw [length] at inside stop
    simp only [TransportHeader.encode, TcpHeader.encode, List.append_assoc, PartAt.append_iff,
      length_bigEndian, List.length_cons, List.length_nil, Nat.add_assoc, Nat.reduceAdd] at at_
    obtain ⟨srcAt, dstAt, seq, ack, flags, _⟩ := at_
    obtain ⟨offset, _⟩ := @nibbles_of_byte (header.length / 4) header.reserved.1 (by omega)
      header.reserved.2
    have whole : header.length / 4 * 4 = header.length := by omega
    dsimp only
    rw [if_pos (show network.ipProtocol = 6 from protocol)]
    refine ensureWithin_bind held (by omega) (by omega) fun after held readable => ?_
    rw [if_neg (by simp)]
    refine (byte_yields held flags (by omega)).bind ?_
    rw [offset, whole, if_neg (by omega)]
    refine ensureWithin_bind held inside (by omega) fun later held readable => ?_
    rw [if_neg (by simp)]
    refine (byte_yields held flags.tail (by omega)).bind ?_
    refine (readBigEndian32_yields held seq (by omega)).bind ?_
    refine (readBigEndian32_yields held ack (by omega)).bind ?_
    rw [stop, UInt32.ofNat_toNat, UInt32.ofNat_toNat]
    exact locatePayload_reads held srcAt dstAt (by omega) readable
  | udp header =>
    have length : (TransportHeader.udp header).length = 8 := rfl
    rw [length] at inside stop fits
    simp only [TransportHeader.encode, UdpHeader.encode, List.append_assoc, PartAt.append_iff,
      length_bigEndian, Nat.add_assoc, Nat.reduceAdd] at at_
    obtain ⟨srcAt, dstAt, sized, _⟩ := at_
    have udp : network.ipProtocol = 17 := protocol
    dsimp only
    rw [if_neg (by rw [udp]; decide), if_pos udp]
    refine ensureWithin_bind held inside (by omega) fun after held readable => ?_
    rw [if_neg (by simp)]
    refine (readBigEndian16_yields held sized (by omega)).bind ?_
    have announced : (UInt16.ofNat (8 + carried)).toNat = 8 + carried :=
      UInt16.toNat_ofNat_of_lt' fits
    have valid : ¬ (UInt16.ofNat (8 + carried) < 8
        ∨ has cursor.stop cursor.offset (UInt16.ofNat (8 + carried)).toNat = false) := by
      rw [not_or, UInt16.not_lt, UInt16.le_iff_toNat_le, Bool.not_eq_false, has_iff, announced]
      exact ⟨Nat.le_add_right .., by omega⟩
    rw [if_neg valid, announced, ← Nat.add_assoc]
    exact locatePayload_reads held srcAt dstAt (by decide) readable

/-! ### Packets -/

/-- A network header starts with its version, which names it on a raw link. -/
theorem NetworkHeader.encode_version (header : NetworkHeader) (protocol : UInt8) (carried : Nat)
    : ∃ first rest, header.encode protocol carried = first :: rest
        ∧ first >>> 4 = header.version := by
  cases header with
  | ipv4 header =>
    have few := header.options.few
    have long : header.length = 20 + header.options.bytes.length := rfl
    obtain ⟨version, _⟩ := @nibbles_of_byte 4 (header.length / 4) (by decide) (by omega)
    exact ⟨_, _, rfl, UInt8.toNat_inj.mp version⟩
  | ipv6 header =>
    obtain ⟨version, _⟩ := nibbles_of_byte (show 6 < 16 by decide) header.traffic.2
    exact ⟨_, _, rfl, UInt8.toNat_inj.mp version⟩

theorem TransportHeader.not_extension (header : TransportHeader)
    : isExtension header.protocol = false := by
  cases header <;> rfl

theorem LinkHeader.describe_network (link : LinkHeader) (etherType : UInt16)
    (outcome : DecodeOutcome)
    : networkFields { link.describe etherType with outcome } = networkFields {} := by
  cases link <;> rfl

/-- A header read back is of a whole datagram. -/
theorem NetworkHeader.describe_whole (header : NetworkHeader) (protocol : UInt8)
    (outcome : DecodeOutcome) (fresh : networkFields network = networkFields {})
    : fragmented { header.describe protocol network with outcome } = false := by
  simp only [networkFields, Prod.mk.injEq] at fresh
  obtain ⟨_, _, _, _, _, _, offset, _, more, _⟩ := fresh
  cases header with
  | ipv4 header =>
    simp only [NetworkHeader.describe, IPv4Header.describe, fragmented, offset, more]
    rfl
  | ipv6 header =>
    simp only [NetworkHeader.describe, IPv6Header.describe, fragmented, offset, more]
    rfl

theorem NetworkHeader.describe_protocol (header : NetworkHeader) (protocol : UInt8)
    : (header.describe protocol network).ipProtocol = protocol := by
  cases header <;> rfl

namespace Packet

variable (packet : Packet)

/-- The layers' descriptions make up that of the packet. -/
theorem decoded_outcome (captured : Nat) (first second : DecodeOutcome)
    : { packet.transport.describe packet.headers.length packet.payload.length captured
          { packet.network.describe packet.transport.protocol
              { packet.link.describe packet.network.etherType with outcome := first }
            with outcome := second }
        with outcome := .decoded }
      = packet.decoded captured := by
  rw [decoded]
  cases packet.transport <;> cases packet.network <;> rfl

/-- The network header declares the transport header and the payload. -/
theorem declared_ge
    : packet.transport.length + packet.payload.length
      ≤ packet.network.declared packet.transport.protocol
          (packet.transport.length + packet.payload.length) := by
  cases packet.network with
  | ipv4 header => exact Nat.le_add_left ..
  | ipv6 header => exact Nat.le_add_left ..

/-- Each layer's header stands after those before it. -/
theorem headers_at (captured : Nat)
    : PartAt (packet.headers ++ packet.payload.take captured) 0
        (packet.link.encode packet.network.etherType)
      ∧ PartAt (packet.headers ++ packet.payload.take captured)
        (packet.link.encode packet.network.etherType).length
        (packet.network.encode packet.transport.protocol
          (packet.transport.length + packet.payload.length))
      ∧ PartAt (packet.headers ++ packet.payload.take captured)
        ((packet.link.encode packet.network.etherType).length
          + (packet.network.encode packet.transport.protocol
            (packet.transport.length + packet.payload.length)).length)
        (packet.transport.encode packet.payload.length) := by
  have whole := PartAt.of_append [] packet.headers (packet.payload.take captured)
  rw [List.nil_append, List.length_nil, headers, PartAt.append_iff, PartAt.append_iff] at whole
  simp only [Nat.zero_add, List.length_append] at whole
  exact ⟨whole.1.1, whole.1.2, whole.2⟩

/-- All layers of a packet whose payload may be cut short are read back. -/
theorem decodePacket_reads (captured : Nat)
    (held : memory.data = packet.headers ++ packet.payload.take captured)
    : Safely (decodePacket (packet.headers ++ packet.payload.take captured).length
          packet.linkType .transport) memory fun _ result =>
        result = packet.decoded (min captured packet.payload.length) := by
  obtain ⟨linkAt, networkAt, transportAt⟩ := packet.headers_at captured
  have last := packet.transport.not_extension
  have fits := packet.fits
  have small := Nat.lt_of_le_of_lt packet.declared_ge fits
  have long : packet.headers.length = (packet.link.encode packet.network.etherType).length
      + (packet.network.encode packet.transport.protocol
        (packet.transport.length + packet.payload.length)).length
      + packet.transport.length := by
    rw [headers, List.length_append, List.length_append, packet.transport.length_encode]
  have left : min packet.payload.length
      ((packet.headers ++ packet.payload.take captured).length - packet.headers.length)
      = min captured packet.payload.length := by
    rw [List.length_append, List.length_take]
    omega
  obtain ⟨first, rest, start, version⟩ := packet.network.encode_version
    packet.transport.protocol (packet.transport.length + packet.payload.length)
  rw [decodePacket, if_neg (by simp), if_neg (by simp)]
  refine (decodeLink_reads packet.link packet.network held linkAt (start ▸ networkAt) version).bind
    fun after reached grown same => ?_
  subst same
  dsimp only
  rw [if_neg (by simp)]
  refine (decodeNetwork_reads packet.network _ last (grown.data.trans held)
    (packet.link.describe_network _ _) rfl networkAt fits).bind
    fun later reached further same => ?_
  subst same
  dsimp only
  rw [if_neg (by simp), packet.network.describe_whole _ _ (packet.link.describe_network _ _),
    if_neg (by simp)]
  refine Safely.bind (decodeTransport_reads packet.transport
    (further.data.trans (grown.data.trans held)) (packet.network.describe_protocol _) transportAt
    (Nat.add_assoc ..).symm small) fun last reached _ same => ?_
  subst same
  dsimp only
  rw [← long, left]
  exact .pure (packet.decoded_outcome _ _ _)

/-- A packet encoded with consistent lengths, with any part of its payload captured, is decoded to
what it was encoded from; the declared length of the payload is the length of all of it.
Witness: each layer's reader finds its header where the layer before left the cursor.
-/
theorem decodeView_encode (captured : Nat)
    : ∃ requested result,
        decodeView (packet.headers ++ packet.payload.take captured) packet.linkType .transport
          = .ok (requested, result)
        ∧ result = packet.decoded (min captured packet.payload.length)
        ∧ result.payloadDeclaredLength.toNat = packet.payload.length := by
  obtain ⟨⟨reached, result⟩, returned, _, same⟩ :=
    (@decodePacket_reads (.ofPacket (packet.headers ++ packet.payload.take captured)) packet
      captured rfl).returns
  have small := Nat.lt_of_le_of_lt packet.declared_ge packet.fits
  refine ⟨reached.requested, result, ?_, same, ?_⟩
  · rw [decodeView, returned]
    rfl
  · dsimp only at same
    have declared : (packet.decoded (min captured packet.payload.length)).payloadDeclaredLength
        = UInt32.ofNat packet.payload.length := by
      rw [decoded]
      cases packet.transport <;> rfl
    rw [same, declared, UInt32.toNat_ofNat_of_lt' (by rw [UInt32.size]; omega)]

end Packet

end PacketQuapture.Decoder
