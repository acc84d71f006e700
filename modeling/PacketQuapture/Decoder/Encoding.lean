import PacketQuapture.Decoder.Packet
import PacketQuapture.Library.ByteOrder

/-! Packets as their senders build them.
Each layer is a header that carries what makes it well formed and is written with the lengths of
what it carries; beside its encoding stands what a decoder should report for it.
-/

namespace PacketQuapture.Decoder

open Library

/-! ### Transport layer -/

/-- Header options: whole words, at most ten. -/
structure Options where
  bytes : List UInt8
  wholeWords : bytes.length % 4 = 0
  few : bytes.length ≤ 40

structure TcpHeader where
  srcPort : UInt16
  dstPort : UInt16
  seq : UInt32
  ack : UInt32
  /-- The bits between the header length and the flags. -/
  reserved : Fin 16
  flags : UInt8
  window : UInt16
  checksum : UInt16
  urgent : UInt16
  options : Options

namespace TcpHeader

def length (header : TcpHeader) : Nat :=
  20 + header.options.bytes.length

def encode (header : TcpHeader) : List UInt8 :=
  bigEndian 2 header.srcPort.toNat ++ bigEndian 2 header.dstPort.toNat
    ++ bigEndian 4 header.seq.toNat ++ bigEndian 4 header.ack.toNat
    ++ [UInt8.ofNat (header.length / 4 * 16 + header.reserved.1), header.flags]
    ++ bigEndian 2 header.window.toNat ++ bigEndian 2 header.checksum.toNat
    ++ bigEndian 2 header.urgent.toNat ++ header.options.bytes

end TcpHeader

structure UdpHeader where
  srcPort : UInt16
  dstPort : UInt16
  checksum : UInt16

/-- The header of a datagram that carries this many bytes. -/
def UdpHeader.encode (header : UdpHeader) (carried : Nat) : List UInt8 :=
  bigEndian 2 header.srcPort.toNat ++ bigEndian 2 header.dstPort.toNat
    ++ bigEndian 2 (8 + carried) ++ bigEndian 2 header.checksum.toNat

inductive TransportHeader where
  | tcp (header : TcpHeader)
  | udp (header : UdpHeader)

namespace TransportHeader

def protocol : TransportHeader → UInt8
  | tcp _ => 6
  | udp _ => 17

def length : TransportHeader → Nat
  | tcp header => header.length
  | udp _ => 8

def encode (header : TransportHeader) (carried : Nat) : List UInt8 :=
  match header with
  | tcp header => header.encode
  | udp header => header.encode carried

/-- What is reported of a payload of `carried` bytes at `offset`, of which `captured` are at
hand.
-/
def describe (header : TransportHeader) (offset carried captured : Nat) (packet : DecodedPacket)
    : DecodedPacket :=
  let packet :=
    { packet with
      transport := true
      payloadOffset := UInt32.ofNat offset
      payloadLength := UInt32.ofNat captured
      payloadDeclaredLength := UInt32.ofNat carried }
  match header with
  | tcp header =>
    { packet with
      tcp := true
      srcPort := header.srcPort
      dstPort := header.dstPort
      tcpSeq := header.seq
      tcpAck := header.ack
      tcpFlags := header.flags.toUInt16
      tcpHeaderLength := UInt8.ofNat header.length }
  | udp header =>
    { packet with
      udp := true
      srcPort := header.srcPort
      dstPort := header.dstPort
      udpLength := UInt16.ofNat (8 + carried) }

end TransportHeader

/-! ### Network layer -/

/-- The header of a datagram that is not a fragment. -/
structure IPv4Header where
  service : UInt8
  id : UInt16
  reserved : Bool
  dontFragment : Bool
  ttl : UInt8
  checksum : UInt16
  src : FixedBytes 4
  dst : FixedBytes 4
  options : Options

/-- An address as the decoder keeps it, at the start of sixteen bytes. -/
def paddedAddress (address : FixedBytes 4) : FixedBytes 16 :=
  ⟨address.1 ++ List.replicate 12 0, by rw [List.length_append, address.2, List.length_replicate]⟩

namespace IPv4Header

def length (header : IPv4Header) : Nat :=
  20 + header.options.bytes.length

def encode (header : IPv4Header) (protocol : UInt8) (carried : Nat) : List UInt8 :=
  [UInt8.ofNat (4 * 16 + header.length / 4), header.service]
    ++ bigEndian 2 (header.length + carried) ++ bigEndian 2 header.id.toNat
    ++ bigEndian 2 (header.reserved.toNat * 32768 + header.dontFragment.toNat * 16384)
    ++ [header.ttl, protocol] ++ bigEndian 2 header.checksum.toNat ++ header.src.1 ++ header.dst.1
    ++ header.options.bytes

def describe (header : IPv4Header) (protocol : UInt8) (packet : DecodedPacket) : DecodedPacket :=
  { packet with
    network := true
    ipVersion := 4
    ipProtocol := protocol
    ipTtl := header.ttl
    ipId := header.id.toUInt32
    hasIpId := true
    srcIp := paddedAddress header.src
    dstIp := paddedAddress header.dst }

end IPv4Header

/-- The extension headers of a datagram that is not a fragment. -/
inductive ExtensionKind where
  | hopByHop
  | routing
  | destination
  | authentication
deriving DecidableEq, Repr

namespace ExtensionKind

def code : ExtensionKind → UInt8
  | hopByHop => 0
  | routing => 43
  | destination => 60
  | authentication => 51

/-- The length its length field announces; authentication counts words, without two of them. -/
def length (kind : ExtensionKind) (units : UInt8) : Nat :=
  match kind with
  | authentication => (units.toNat + 2) * 4
  | hopByHop | routing | destination => (units.toNat + 1) * 8

end ExtensionKind

/-- An extension header, whose content follows the type of the next header and the length. An
authentication header has at least its twelve fixed bytes.
-/
structure ExtensionHeader where
  kind : ExtensionKind
  units : UInt8
  content : List UInt8
  sized : content.length + 2 = kind.length units
  fixed : kind = .authentication → 12 ≤ kind.length units

/-- The header, which announces what is next. -/
def ExtensionHeader.encode (header : ExtensionHeader) (follow : UInt8) : List UInt8 :=
  follow :: header.units :: header.content

/-- The type of the first header of a chain that ends with `protocol`. -/
def leadingProtocol (protocol : UInt8) : List ExtensionHeader → UInt8
  | [] => protocol
  | header :: _ => header.kind.code

def encodeChain (protocol : UInt8) : List ExtensionHeader → List UInt8
  | [] => []
  | header :: rest =>
    header.encode (leadingProtocol protocol rest) ++ encodeChain protocol rest

structure IPv6Header where
  /-- The bits after the version. -/
  traffic : Fin 16
  flow : FixedBytes 3
  ttl : UInt8
  src : FixedBytes 16
  dst : FixedBytes 16
  extensions : List ExtensionHeader
  few : extensions.length ≤ 16

namespace IPv6Header

def chain (header : IPv6Header) (protocol : UInt8) : List UInt8 :=
  encodeChain protocol header.extensions

def encode (header : IPv6Header) (protocol : UInt8) (carried : Nat) : List UInt8 :=
  UInt8.ofNat (6 * 16 + header.traffic.1) :: header.flow.1
    ++ bigEndian 2 ((header.chain protocol).length + carried)
    ++ [leadingProtocol protocol header.extensions, header.ttl] ++ header.src.1 ++ header.dst.1
    ++ header.chain protocol

def describe (header : IPv6Header) (protocol : UInt8) (packet : DecodedPacket) : DecodedPacket :=
  { packet with
    network := true
    ipVersion := 6
    ipProtocol := protocol
    ipTtl := header.ttl
    srcIp := header.src
    dstIp := header.dst }

end IPv6Header

inductive NetworkHeader where
  | ipv4 (header : IPv4Header)
  | ipv6 (header : IPv6Header)

namespace NetworkHeader

def etherType : NetworkHeader → UInt16
  | ipv4 _ => 0x0800
  | ipv6 _ => 0x86dd

/-- What the length field counts for this many carried bytes. -/
def declared (header : NetworkHeader) (protocol : UInt8) (carried : Nat) : Nat :=
  match header with
  | ipv4 header => header.length + carried
  | ipv6 header => (header.chain protocol).length + carried

def encode (header : NetworkHeader) (protocol : UInt8) (carried : Nat) : List UInt8 :=
  match header with
  | ipv4 header => header.encode protocol carried
  | ipv6 header => header.encode protocol carried

def describe (header : NetworkHeader) (protocol : UInt8) (packet : DecodedPacket)
    : DecodedPacket :=
  match header with
  | ipv4 header => header.describe protocol packet
  | ipv6 header => header.describe protocol packet

end NetworkHeader

/-! ### Link layer -/

/-- An 802.1Q tag, or an 802.1ad one. -/
structure VlanTag where
  service : Bool
  priority : Fin 16
  id : Fin 4096

def VlanTag.type (tag : VlanTag) : UInt16 :=
  if tag.service then 0x88a8 else 0x8100

def VlanTag.control (tag : VlanTag) : Nat :=
  tag.priority.1 * 4096 + tag.id.1

/-- The type a stack of tags over `last` starts with. -/
def leadingType (last : UInt16) : List VlanTag → UInt16
  | [] => last
  | tag :: _ => tag.type

/-- The tags, each with the type of what follows it. -/
def encodeTags (last : UInt16) : List VlanTag → List UInt8
  | [] => []
  | tag :: rest =>
    bigEndian 2 tag.control ++ bigEndian 2 (leadingType last rest).toNat ++ encodeTags last rest

inductive LinkHeader where
  | ethernet (dst src : FixedBytes 6) (tags : List VlanTag) (few : tags.length ≤ 8)
  /-- No header; the version tells which datagram it is. -/
  | raw
  /-- No header; the link type tells which datagram it is. -/
  | rawFamily
  /-- Linux cooked: what comes before the type. -/
  | cooked (start : FixedBytes 14)
  /-- Linux cooked v2: what comes after the type. -/
  | cookedV2 (rest : FixedBytes 18)

namespace LinkHeader

def linkType (header : LinkHeader) (network : NetworkHeader) : UInt32 :=
  match header, network with
  | ethernet .., _ => 1
  | raw, _ => 101
  | rawFamily, .ipv4 _ => 228
  | rawFamily, .ipv6 _ => 229
  | cooked _, _ => 113
  | cookedV2 _, _ => 276

def encode (header : LinkHeader) (etherType : UInt16) : List UInt8 :=
  match header with
  | ethernet dst src tags _ =>
    dst.1 ++ src.1 ++ bigEndian 2 (leadingType etherType tags).toNat ++ encodeTags etherType tags
  | raw => []
  | rawFamily => []
  | cooked start => start.1 ++ bigEndian 2 etherType.toNat
  | cookedV2 rest => bigEndian 2 etherType.toNat ++ rest.1

def describe (header : LinkHeader) (etherType : UInt16) : DecodedPacket :=
  match header with
  | ethernet dst src tags few =>
    { ethernet := true
      dstMac := dst
      srcMac := src
      etherType
      vlanIds := ⟨tags.map fun tag => UInt16.ofNat tag.id.1, by rw [List.length_map]; exact few⟩ }
  | raw | rawFamily | cooked _ | cookedV2 _ => {}

end LinkHeader

/-! ### Packets -/

structure Packet where
  link : LinkHeader
  network : NetworkHeader
  transport : TransportHeader
  payload : List UInt8
  /-- The length field holds the length. -/
  fits : network.declared transport.protocol (transport.length + payload.length) < 65536

namespace Packet

def linkType (packet : Packet) : UInt32 :=
  packet.link.linkType packet.network

def headers (packet : Packet) : List UInt8 :=
  packet.link.encode packet.network.etherType
    ++ packet.network.encode packet.transport.protocol
      (packet.transport.length + packet.payload.length)
    ++ packet.transport.encode packet.payload.length

/-- What is reported when `captured` bytes of the payload are at hand. -/
def decoded (packet : Packet) (captured : Nat) : DecodedPacket :=
  let link := packet.link.describe packet.network.etherType
  let network := packet.network.describe packet.transport.protocol link
  let transport := packet.transport.describe packet.headers.length packet.payload.length captured
    network
  { transport with outcome := .decoded }

end Packet

end PacketQuapture.Decoder
