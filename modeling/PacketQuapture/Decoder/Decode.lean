import PacketQuapture.Decoder.Packet
import PacketQuapture.Library.Interaction

/-! The packet decoder.
It asks its source for as much of the packet as the next header needs and looks at single bytes
of what it has asked for. The rest of the packet is never requested.
-/

namespace PacketQuapture.Decoder

open Library

/-! ### What the decoder asks for -/

/-- What the decoder does that may go wrong. -/
inductive DecoderCommand where
  /-- `ReadPrefix`: make this many bytes of the packet readable. -/
  | readPrefix (requested : Nat)
  /-- A look at one byte of the storage `ReadPrefix` returned. -/
  | byte (index : Nat)
  /-- A difference of sizes, which must not wrap. -/
  | difference (left right : Nat)
  /-- `push_back`, which asserts that the stack is not full. -/
  | pushBack (stack : VlanStack) (id : UInt16)
deriving DecidableEq, Repr

abbrev DecoderAnswer : DecoderCommand → Type
  | .readPrefix _ => Unit
  | .byte _ => UInt8
  | .difference .. => Nat
  | .pushBack .. => VlanStack

abbrev Decoding := Interaction DecoderCommand DecoderAnswer

def readPrefix (requested : Nat) : Decoding Unit :=
  .request (DecoderCommand.readPrefix requested)

def byte (index : Nat) : Decoding UInt8 :=
  .request (DecoderCommand.byte index)

def difference (left right : Nat) : Decoding Nat :=
  .request (DecoderCommand.difference left right)

def pushBack (stack : VlanStack) (id : UInt16) : Decoding VlanStack :=
  .request (DecoderCommand.pushBack stack id)

def bytes (index : Nat) : Nat → Decoding (List UInt8)
  | 0 => pure []
  | count + 1 => do
    let first ← byte index
    let rest ← bytes (index + 1) count
    pure (first :: rest)

def readBigEndian16 (index : Nat) : Decoding UInt16 := do
  let high ← byte index
  let low ← byte (index + 1)
  pure (high.toUInt16 <<< 8 ||| low.toUInt16)

def readBigEndian32 (index : Nat) : Decoding UInt32 := do
  let high ← readBigEndian16 index
  let low ← readBigEndian16 (index + 2)
  pure (high.toUInt32 <<< 16 ||| low.toUInt32)

def has (size offset length : Nat) : Bool :=
  offset ≤ size && length ≤ size - offset

def ensure (size start length : Nat) : Decoding Bool :=
  if !has size start length then pure false
  else do
    readPrefix (start + length)
    pure true

/-- As `ensure`, but the header must also lie within the IP datagram ending at `stop`. -/
def ensureWithin (size stop start length : Nat) : Decoding Bool :=
  if has stop start length then ensure size start length else pure false

/-- `std::copy_n` to the start of an array. -/
def copyInto {size : Nat} (target : FixedBytes size) (source : List UInt8) : FixedBytes size :=
  ⟨source.take size ++ target.1.drop source.length, by
    have length := target.2
    rw [List.length_append, List.length_take, List.length_drop]
    omega⟩

/-! ### Link layer -/

/-- The position of the next header and the end of the IP datagram that holds it. -/
structure Cursor where
  offset : Nat := 0
  stop : Nat := 0
  type : UInt16 := 0
deriving DecidableEq, Repr

/-- The loop of `decodeEthernet` over the tags; `room` is what the stack has left. A rejected
stack reports nothing decoded before it.
-/
def vlanLoop (size : Nat) : Nat → DecodedPacket → Cursor
    → Decoding (DecodeOutcome × DecodedPacket × Cursor)
  | room, result, cursor =>
    if cursor.type = 0x8100 ∨ cursor.type = 0x88a8 then
      match room with
      | 0 => pure (.unsupported, {}, cursor)
      | room + 1 => do
        if !(← ensure size cursor.offset 4) then pure (.malformed, {}, cursor)
        else
          let tag ← readBigEndian16 cursor.offset
          let type ← readBigEndian16 (cursor.offset + 2)
          let vlanIds ← pushBack result.vlanIds (tag &&& 0x0fff)
          vlanLoop size room { result with vlanIds }
            { cursor with type, offset := cursor.offset + 4 }
    else pure (.decoded, { result with ethernet := true, etherType := cursor.type }, cursor)

def decodeEthernet (size : Nat) (result : DecodedPacket) (cursor : Cursor)
    : Decoding (DecodeOutcome × DecodedPacket × Cursor) := do
  if !(← ensure size 0 14) then pure (.malformed, result, cursor)
  else
    let dstMac ← bytes 0 6
    let srcMac ← bytes 6 6
    let type ← readBigEndian16 12
    vlanLoop size (VlanStack.capacity - result.vlanIds.1.length)
      { result with
        dstMac := copyInto result.dstMac dstMac
        srcMac := copyInto result.srcMac srcMac }
      { cursor with type, offset := 14 }

def decodeLink (size : Nat) (linkType : UInt32) (result : DecodedPacket) (cursor : Cursor)
    : Decoding (DecodeOutcome × DecodedPacket × Cursor) := do
  if linkType = 1 then decodeEthernet size result cursor
  else if linkType = 101 then
    -- LINKTYPE_RAW
    if !(← ensure size 0 1) then pure (.malformed, result, cursor)
    else
      let version := (← byte 0) >>> 4
      pure (.decoded, result,
        { cursor with type := if version = 4 then 0x0800 else if version = 6 then 0x86dd else 0 })
  else if linkType = 228 ∨ linkType = 229 then
    pure (.decoded, result, { cursor with type := if linkType = 228 then 0x0800 else 0x86dd })
  else if linkType = 113 ∨ linkType = 276 then
    -- Linux cooked v1/v2
    let length := if linkType = 113 then 16 else 20
    if !(← ensure size 0 length) then pure (.malformed, result, cursor)
    else
      let type ← readBigEndian16 (if linkType = 113 then 14 else 0)
      pure (.decoded, result, { cursor with type, offset := length })
  else pure (.unsupported, result, cursor)

/-! ### Network layer -/

def isExtension (protocol : UInt8) : Bool :=
  protocol = 0 || protocol = 43 || protocol = 60 || protocol = 44 || protocol = 51

def decodeIPv4 (size : Nat) (network : DecodedPacket) (cursor : Cursor)
    : Decoding (Bool × DecodedPacket × Cursor) := do
  let offset := cursor.offset
  if !(← ensure size offset 20) then pure (false, network, cursor)
  else
    let first ← byte offset
    if first >>> 4 ≠ 4 then pure (false, network, cursor)
    else
      let headerLength := (first &&& 0x0f).toNat * 4
      let totalLength := (← readBigEndian16 (offset + 2)).toNat
      if headerLength < 20 ∨ totalLength < headerLength then pure (false, network, cursor)
      else if !(← ensure size offset headerLength) then pure (false, network, cursor)
      else
        let ipProtocol ← byte (offset + 9)
        let ipTtl ← byte (offset + 8)
        let ipId ← readBigEndian16 (offset + 4)
        let fragment ← readBigEndian16 (offset + 6)
        let srcIp ← bytes (offset + 12) 4
        let dstIp ← bytes (offset + 16) 4
        pure (true,
          { network with
            ipVersion := 4
            ipProtocol
            ipTtl
            ipId := ipId.toUInt32
            hasIpId := true
            ipFragmentOffset := (fragment &&& 0x1fff).toUInt32 * 8
            ipMoreFragments := fragment &&& 0x2000 != 0
            srcIp := copyInto network.srcIp srcIp
            dstIp := copyInto network.dstIp dstIp },
          { cursor with offset := offset + headerLength, stop := offset + totalLength })

/-- Consumes one IPv6 extension header, whose type is `network.ipProtocol`. -/
def decodeIPv6Extension (size : Nat) (network : DecodedPacket) (cursor : Cursor)
    : Decoding (Bool × DecodedPacket × Cursor) := do
  let offset := cursor.offset
  let protocol := network.ipProtocol
  let units ← byte (offset + 1)
  if protocol = 44 then
    if network.hasIpId then pure (false, network, cursor)
    else
      let fragment ← readBigEndian16 (offset + 2)
      let ipId ← readBigEndian32 (offset + 4)
      finish offset 8
        { network with
          ipFragmentOffset := (fragment &&& 0xfff8).toUInt32
          ipMoreFragments := fragment &&& 1 != 0
          ipId
          hasIpId := true }
  else if protocol = 51 then
    if (units.toNat + 2) * 4 < 12 then pure (false, network, cursor)
    else finish offset ((units.toNat + 2) * 4) network
  else finish offset ((units.toNat + 1) * 8) network
where
  /-- Past a header of `length` bytes. -/
  finish (offset length : Nat) (network : DecodedPacket)
      : Decoding (Bool × DecodedPacket × Cursor) := do
    if !(← ensureWithin size cursor.stop offset length) then pure (false, network, cursor)
    else
      let ipProtocol ← byte offset
      pure (true, { network with ipProtocol }, { cursor with offset := offset + length })

/-- The loop of `decodeIPv6` over the extension headers; at most `left` more are taken. -/
def extensionLoop (size : Nat) : Nat → DecodedPacket → Cursor
    → Decoding (DecodeOutcome × DecodedPacket × Cursor)
  | left, network, cursor =>
    if isExtension network.ipProtocol then
      match left with
      | 0 => pure (.unsupported, network, cursor)
      | left + 1 => do
        if !(← ensureWithin size cursor.stop cursor.offset 8) then
          pure (.malformed, network, cursor)
        else
          let (taken, network, cursor) ← decodeIPv6Extension size network cursor
          if !taken then pure (.malformed, network, cursor)
          -- later fragments do not start with the header the fragment header indicates
          else if network.ipFragmentOffset ≠ 0 then pure (.decoded, network, cursor)
          else extensionLoop size left network cursor
    else pure (.decoded, network, cursor)

def decodeIPv6 (size : Nat) (network : DecodedPacket) (cursor : Cursor)
    : Decoding (DecodeOutcome × DecodedPacket × Cursor) := do
  let offset := cursor.offset
  if !(← ensure size offset 40) then pure (.malformed, network, cursor)
  else
    let first ← byte offset
    if first >>> 4 ≠ 6 then pure (.malformed, network, cursor)
    else
      let length ← readBigEndian16 (offset + 4)
      let ipProtocol ← byte (offset + 6)
      let ipTtl ← byte (offset + 7)
      let srcIp ← bytes (offset + 8) 16
      let dstIp ← bytes (offset + 24) 16
      extensionLoop size 16
        { network with
          ipVersion := 6
          ipProtocol
          ipTtl
          srcIp := copyInto network.srcIp srcIp
          dstIp := copyInto network.dstIp dstIp }
        { cursor with offset := offset + 40, stop := offset + 40 + length.toNat }

/-- Leaves `result` untouched unless the complete IP header chain validates. -/
def decodeNetwork (size : Nat) (linkType : UInt32) (result : DecodedPacket) (cursor : Cursor)
    : Decoding (DecodeOutcome × DecodedPacket × Cursor) := do
  let (outcome, network, cursor) ← headers
  if outcome ≠ .decoded then pure (outcome, result, cursor)
  else pure (.decoded, { network with network := true }, cursor)
where
  headers : Decoding (DecodeOutcome × DecodedPacket × Cursor) := do
    if cursor.type = 0x0800 then
      let (whole, network, cursor) ← decodeIPv4 size result cursor
      pure (if whole then .decoded else .malformed, network, cursor)
    else if cursor.type = 0x86dd then decodeIPv6 size result cursor
    else
      pure (if linkType = 101 ∧ cursor.type = 0 then .malformed else .unsupported, result, cursor)

/-! ### Transport layer -/

/-- The ports and the place of the payload, after a header of `headerLength` bytes in a segment
that ends at `stop`.
-/
def locatePayload (size : Nat) (result : DecodedPacket) (offset stop headerLength : Nat)
    : Decoding (DecodeOutcome × DecodedPacket) := do
  let srcPort ← readBigEndian16 offset
  let dstPort ← readBigEndian16 (offset + 2)
  let declared ← difference (← difference stop offset) headerLength
  let captured ← difference (← difference (min stop size) offset) headerLength
  pure (.decoded,
    { result with
      transport := true
      srcPort
      dstPort
      payloadOffset := UInt32.ofNat (offset + headerLength)
      payloadDeclaredLength := UInt32.ofNat declared
      payloadLength := UInt32.ofNat captured })

def decodeTransport (size : Nat) (result : DecodedPacket) (cursor : Cursor)
    : Decoding (DecodeOutcome × DecodedPacket) := do
  let offset := cursor.offset
  let stop := cursor.stop
  if result.ipProtocol = 6 then
    if !(← ensureWithin size stop offset 20) then pure (.malformed, result)
    else
      let headerLength := ((← byte (offset + 12)) >>> 4).toNat * 4
      if headerLength < 20 then pure (.malformed, result)
      else if !(← ensureWithin size stop offset headerLength) then pure (.malformed, result)
      else
        let flags ← byte (offset + 13)
        let tcpSeq ← readBigEndian32 (offset + 4)
        let tcpAck ← readBigEndian32 (offset + 8)
        locatePayload size
          { result with
            tcp := true
            tcpFlags := flags.toUInt16
            tcpSeq
            tcpAck
            tcpHeaderLength := UInt8.ofNat headerLength }
          offset stop headerLength
  else if result.ipProtocol = 17 then
    if !(← ensureWithin size stop offset 8) then pure (.malformed, result)
    else
      let length ← readBigEndian16 (offset + 4)
      if length < 8 ∨ has stop offset length.toNat = false then pure (.malformed, result)
      else
        locatePayload size { result with udp := true, udpLength := length } offset
          (offset + length.toNat) 8
  else pure (.unsupported, result)

/-! ### Packets -/

/-- Whether the network header says that the packet is part of a datagram. -/
def fragmented (packet : DecodedPacket) : Bool :=
  packet.ipFragmentOffset ≠ 0 || packet.ipMoreFragments

/-- The packet of `size` bytes, decoded as far as `depth`. -/
def decodePacket (size : Nat) (linkType : UInt32) (depth : DecodeDepth)
    : Decoding DecodedPacket := do
  if depth = .none then pure {}
  else if depth = .link ∧ linkType ≠ 1 then pure { outcome := .unsupported }
  else
    let (outcome, result, cursor) ← decodeLink size linkType {} {}
    let result := { result with outcome }
    if outcome ≠ .decoded ∨ depth = .link then pure result
    else
      let (outcome, result, cursor) ← decodeNetwork size linkType result cursor
      let result := { result with outcome }
      if outcome ≠ .decoded then pure result
      else if depth = .network ∨ fragmented result then
        pure { result with outcome := if fragmented result then .fragment else .decoded }
      else
        let (outcome, result) ← decodeTransport size result cursor
        pure { result with outcome }

end PacketQuapture.Decoder
