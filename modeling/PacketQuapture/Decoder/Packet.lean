import PacketQuapture.Library.MachineOrder

/-! The decoded packet and the capture stamp shared by the decoder, the reassembler and
the flow aggregator.
-/

namespace PacketQuapture

/-- A fixed-size array, compared lexicographically. -/
abbrev FixedArray (α : Type) (size : Nat) := { items : List α // items.length = size }

abbrev FixedBytes (size : Nat) := FixedArray UInt8 size

def FixedBytes.zero (size : Nat) : FixedBytes size :=
  ⟨List.replicate size 0, by simp⟩

/-- The 802.1Q tags of one packet, outermost first; only the tags in use take part in
comparisons.
-/
abbrev VlanStack := { ids : List UInt16 // ids.length ≤ 8 }

def VlanStack.capacity : Nat := 8

def VlanStack.empty : VlanStack := ⟨[], by simp⟩

/-- Where a packet stands in its capture. Timestamps are int64 microseconds. -/
structure PacketStamp where
  number : Nat := 0
  hasTimestamp : Bool := false
  timestamp : Int := 0
deriving DecidableEq, Repr

/-- INT64_MAX, the bound every deadline is kept under. -/
def int64Max : Int := 2 ^ 63 - 1

inductive DecodeDepth where
  | none
  | link
  | network
  | transport
deriving DecidableEq, Repr

inductive DecodeOutcome where
  | notRequested
  | decoded
  | malformed
  | unsupported
  | fragment
deriving DecidableEq, Repr

structure DecodedPacket where
  outcome : DecodeOutcome := .notRequested
  ethernet : Bool := false
  network : Bool := false
  transport : Bool := false
  tcp : Bool := false
  udp : Bool := false
  srcMac : FixedBytes 6 := .zero 6
  dstMac : FixedBytes 6 := .zero 6
  etherType : UInt16 := 0
  vlanIds : VlanStack := .empty
  ipVersion : UInt8 := 0
  ipProtocol : UInt8 := 0
  ipTtl : UInt8 := 0
  srcIp : FixedBytes 16 := .zero 16
  dstIp : FixedBytes 16 := .zero 16
  ipFragmentOffset : UInt32 := 0
  ipId : UInt32 := 0
  ipMoreFragments : Bool := false
  hasIpId : Bool := false
  srcPort : UInt16 := 0
  dstPort : UInt16 := 0
  tcpFlags : UInt16 := 0
  udpLength : UInt16 := 0
  tcpSeq : UInt32 := 0
  tcpAck : UInt32 := 0
  tcpHeaderLength : UInt8 := 0
  payloadOffset : UInt32 := 0
  payloadLength : UInt32 := 0
  payloadDeclaredLength : UInt32 := 0
deriving DecidableEq, Repr

/-! ### TCP header flag bits -/

def tcpFin : UInt16 := 0x01

def tcpSyn : UInt16 := 0x02

def tcpRst : UInt16 := 0x04

def tcpAckFlag : UInt16 := 0x10

/-- Whether a flag bit is set. -/
def hasFlag (flags bit : UInt16) : Bool :=
  flags &&& bit != 0

end PacketQuapture
