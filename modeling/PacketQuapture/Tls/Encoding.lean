import PacketQuapture.Tls.Assembler

/-! How a peer writes what the parser reads: hellos, handshake messages and records. -/

namespace PacketQuapture.Tls

open Library Reassembly

/-! ### Numbers -/

/-- A number in two bytes, most significant first. -/
def bytes16 (value : Nat) : List UInt8 :=
  [UInt8.ofNat (value / 256), UInt8.ofNat value]

def bytes24 (value : Nat) : List UInt8 :=
  UInt8.ofNat (value / 65536) :: bytes16 value

/-! ### Hellos -/

structure Extension where
  type : UInt16
  body : List UInt8
deriving DecidableEq, Repr

def Extension.encode (extension : Extension) : List UInt8 :=
  bytes16 extension.type.toNat ++ bytes16 extension.body.length ++ extension.body

def encodeExtensions (extensions : List Extension) : List UInt8 :=
  extensions.flatMap Extension.encode

/-- The extension list of a hello, which may leave it out altogether. -/
def encodeBlock : Option (List Extension) → List UInt8
  | none => []
  | some extensions =>
    bytes16 (encodeExtensions extensions).length ++ encodeExtensions extensions

/-- What a ServerHello is encoded from; the lengths fit the fields that announce them. -/
structure ServerHello where
  legacyVersion : UInt16
  random : FixedBytes 32
  sessionId : List UInt8
  cipherSuite : UInt16
  compression : UInt8
  extensions : Option (List Extension)
  sessionIdFits : sessionId.length < 2 ^ 8
  extensionsFit : (encodeExtensions (extensions.getD [])).length < 2 ^ 16

def ServerHello.encode (hello : ServerHello) : List UInt8 :=
  bytes16 hello.legacyVersion.toNat ++ hello.random.1
    ++ UInt8.ofNat hello.sessionId.length :: hello.sessionId
    ++ bytes16 hello.cipherSuite.toNat ++ hello.compression :: encodeBlock hello.extensions

/-- A ClientHello of one suite that offers nothing else. -/
def plainClientHello : List UInt8 :=
  bytes16 0x0303 ++ List.replicate 32 0 ++ [0] ++ bytes16 2 ++ bytes16 0x2f ++ [1, 0]

/-! ### Messages, records and streams -/

def encodeMessage (type : UInt8) (body : List UInt8) : List UInt8 :=
  type :: bytes24 body.length ++ body

def encodeRecord (body : List UInt8) : List UInt8 :=
  [tlsRecordHandshake, 3, 1] ++ bytes16 body.length ++ body

/-- A whole stream of some bytes that one packet carried. -/
def streamOf (key : TcpFlowKey) (synSeen : Bool) (number : Nat) (data : List UInt8) : TcpStream :=
  { key
    synSeen
    first := { number }
    last := { number }
    status := if synSeen then .contiguous else .unanchored
    chunks := [{ data
                 origins := [{ length := UInt32.ofNat data.length, stamp := { number } }] }] }

/-- A ClientHello from the stream's first byte on. -/
def anchoredHello (port : UInt16) (number : Nat) : TcpStream :=
  streamOf { srcPort := port } true number
    (encodeRecord (encodeMessage tlsHandshakeClientHello plainClientHello))

/-- A ClientHello after one other byte, in a stream without its SYN. -/
def searchedHello (port : UInt16) (number : Nat) : TcpStream :=
  streamOf { srcPort := port } false number
    (0 :: encodeRecord (encodeMessage tlsHandshakeClientHello plainClientHello))

/-- A ServerHello without extensions. -/
def plainServerHello : ServerHello where
  legacyVersion := 0x0303
  random := .zero 32
  sessionId := []
  cipherSuite := 0x2f
  compression := 0
  extensions := none
  sessionIdFits := by decide
  extensionsFit := by decide

/-- The ServerHello that answers an anchored ClientHello. -/
def anchoredAnswer (port : UInt16) (number : Nat) : TcpStream :=
  streamOf { dstPort := port } true number
    (encodeRecord (encodeMessage tlsHandshakeServerHello plainServerHello.encode))

/-- A certificate parser that accepts nothing, for streams that carry no certificate. -/
def noCertificates : X509Parser Unit where
  blank := ()
  parseX509Certificate := fun _ _ => (.malformed, ())
  textBytes := fun _ => 0

/-! ### Reading back what was written -/

namespace TlsReader

theorem u8_cons (byte : UInt8) (rest : List UInt8)
    : ({ rest := byte :: rest } : TlsReader).u8 = (byte, { rest }) := by
  simp [u8, remaining]

theorem u16_bytes16 (value : Nat) (rest : List UInt8)
    : ({ rest := bytes16 value ++ rest } : TlsReader).u16 = (UInt16.ofNat value, { rest }) := by
  have joined : (UInt8.ofNat (value / 256)).toUInt16 <<< 8 ||| (UInt8.ofNat value).toUInt16
      = UInt16.ofNat value := by
    refine UInt16.toNat.inj ?_
    have low : value % 256 < 2 ^ 8 := Nat.mod_lt _ (by decide)
    have high : (value / 256 % 256) <<< 8 < 2 ^ 16 := by
      rw [Nat.shiftLeft_eq]
      have := Nat.mod_lt (value / 256) (show 0 < 256 by decide)
      omega
    have shift : UInt16.toNat 8 % 16 = 8 := rfl
    simp only [UInt16.toNat_or, UInt16.toNat_shiftLeft, UInt8.toNat_toUInt16, UInt8.toNat_ofNat',
      UInt16.toNat_ofNat', shift]
    rw [Nat.mod_eq_of_lt high, ← Nat.shiftLeft_add_eq_or_of_lt low, Nat.shiftLeft_eq]
    omega
  simp only [bytes16, List.cons_append, List.nil_append, u16, u8_cons, joined]

theorem u24_bytes24 {value : Nat} (fits : value < 2 ^ 24) (rest : List UInt8)
    : ({ rest := bytes24 value ++ rest } : TlsReader).u24 = (value, { rest }) := by
  have joined (high low : Nat) (small : low < 2 ^ 8) : high <<< 8 ||| low = high * 2 ^ 8 + low := by
    rw [← Nat.shiftLeft_add_eq_or_of_lt small, Nat.shiftLeft_eq]
  have shifted (high mid : Nat) : high <<< 16 ||| mid <<< 8 = (high <<< 8 ||| mid) <<< 8 := by
    rw [Nat.shiftLeft_or_distrib, ← Nat.shiftLeft_add]
  have byte (number : Nat) : (UInt8.ofNat number).toNat < 2 ^ 8 := UInt8.toNat_lt _
  simp only [bytes24, bytes16, List.cons_append, List.nil_append, u24, u8_cons]
  rw [shifted, joined _ _ (byte _), joined _ _ (byte _)]
  simp only [UInt8.toNat_ofNat']
  congr 1
  omega

theorem length_one (byte : UInt8) (rest : List UInt8)
    : ({ rest := byte :: rest } : TlsReader).length 1 = (byte.toNat, { rest }) := by
  rw [length, if_pos rfl, u8_cons]

theorem length_two {value : Nat} (fits : value < 2 ^ 16) (rest : List UInt8)
    : ({ rest := bytes16 value ++ rest } : TlsReader).length 2 = (value, { rest }) := by
  rw [length, if_neg (by decide), u16_bytes16, UInt16.toNat_ofNat_of_lt' fits]

theorem take_append (bytes rest : List UInt8)
    : ({ rest := bytes ++ rest } : TlsReader).take bytes.length = (some bytes, { rest }) := by
  simp [take, remaining]

theorem sub_append (bytes rest : List UInt8)
    : ({ rest := bytes ++ rest } : TlsReader).sub bytes.length
      = (some { rest := bytes }, { rest }) := by
  rw [sub, take_append]
  rfl

end TlsReader

end PacketQuapture.Tls
