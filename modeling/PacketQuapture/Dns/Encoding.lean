import PacketQuapture.Decoder.Packet
import PacketQuapture.Dns.Decoder
import PacketQuapture.Library.ByteOrder

/-! DNS messages and their encoding without compression.
A message is built from names, records and flags that carry what makes them well formed; what
the decoder should return for it is stated beside its encoding.
-/

namespace PacketQuapture.Dns

open Library Text

/-! ### Names -/

def encodeLabels (labels : List (List UInt8)) : List UInt8 :=
  labels.flatMap fun label => UInt8.ofNat label.length :: label

/-- A name of at most 255 octets, in labels of 1 to 63 bytes. -/
structure DnsName where
  labels : List (List UInt8)
  bounded : ∀ label ∈ labels, 1 ≤ label.length ∧ label.length ≤ 63
  fits : (encodeLabels labels).length + 1 ≤ 255

namespace DnsName

def encode (name : DnsName) : List UInt8 :=
  encodeLabels name.labels ++ [0]

/-- A byte of a label as text. -/
def escaped (byte : UInt8) : List UInt8 :=
  if 33 ≤ byte ∧ byte ≤ 126 ∧ byte ≠ 46 ∧ byte ≠ 92 then [byte]
  else [92, 48 + byte / 100, 48 + byte / 10 % 10, 48 + byte % 10]

/-- The labels as text with dots between them; the root is a dot. -/
def text (name : DnsName) : List UInt8 :=
  match name.labels with
  | [] => [46]
  | first :: rest => first.flatMap escaped ++ rest.flatMap fun label => 46 :: label.flatMap escaped

end DnsName

/-! ### Questions and records -/

structure Question where
  name : DnsName
  type : UInt16
  klass : UInt16

namespace Question

def encode (question : Question) : List UInt8 :=
  question.name.encode ++ bigEndian 2 question.type.toNat ++ bigEndian 2 question.klass.toNat

def decoded (question : Question) : DnsQuestion :=
  { name := question.name.text, type := question.type, klass := question.klass }

end Question

/-- The types whose data is a name. -/
inductive NameType where
  | ns
  | cname
  | ptr
deriving DecidableEq, Repr

def NameType.code : NameType → UInt16
  | .ns => Parser.typeNs
  | .cname => Parser.typeCname
  | .ptr => Parser.typePtr

/-- The type, class and data of a record: an address of class IN, one name, or anything else of
another type.
-/
inductive RecordBody where
  | ipv4 (address : FixedBytes 4)
  | ipv6 (address : FixedBytes 16)
  | target (type : NameType) (klass : UInt16) (name : DnsName)
  | other (type klass : UInt16) (data : List UInt8)
      (noAddress : klass = Parser.classIn → type ≠ Parser.typeA ∧ type ≠ Parser.typeAaaa)
      (noName : ∀ named : NameType, type ≠ named.code)

namespace RecordBody

def type : RecordBody → UInt16
  | .ipv4 _ => Parser.typeA
  | .ipv6 _ => Parser.typeAaaa
  | .target type _ _ => type.code
  | .other type _ _ _ _ => type

def klass : RecordBody → UInt16
  | .ipv4 _ => Parser.classIn
  | .ipv6 _ => Parser.classIn
  | .target _ klass _ => klass
  | .other _ klass _ _ _ => klass

def data : RecordBody → List UInt8
  | .ipv4 address => address.1
  | .ipv6 address => address.1
  | .target _ _ name => name.encode
  | .other _ _ data _ _ => data

/-- The big-endian 16-bit groups of a list of bytes. -/
def pairs : List UInt8 → List UInt16
  | high :: low :: rest => (high.toUInt16 <<< 8 ||| low.toUInt16) :: pairs rest
  | _ => []

/-- The text the decoder shows for the data. -/
def text : RecordBody → Option (List UInt8)
  | .ipv4 address => some (Parser.ipv4Text address.1)
  | .ipv6 address => some (Parser.ipv6Text (pairs address.1))
  | .target _ _ name => some name.text
  | .other _ _ _ _ _ => none

end RecordBody

structure Record where
  name : DnsName
  ttl : UInt32
  body : RecordBody

namespace Record

def encode (record : Record) : List UInt8 :=
  record.name.encode ++ bigEndian 2 record.body.type.toNat ++ bigEndian 2 record.body.klass.toNat
    ++ bigEndian 4 record.ttl.toNat ++ bigEndian 2 record.body.data.length ++ record.body.data

def decoded (record : Record) : DnsRecord :=
  { name := record.name.text
    type := record.body.type
    klass := record.body.klass
    ttl := record.ttl
    hasText := record.body.text.isSome
    text := record.body.text.getD []
    data := record.body.data }

end Record

/-! ### Messages -/

/-- The second word of a header. -/
structure Flags where
  response : Bool
  opcode : Fin 16
  authoritative : Bool
  truncated : Bool
  recursionDesired : Bool
  recursionAvailable : Bool
  reserved : Fin 8
  rcode : Fin 16
deriving DecidableEq, Repr

def Flags.word (flags : Flags) : Nat :=
  32768 * flags.response.toNat + 2048 * flags.opcode.1 + 1024 * flags.authoritative.toNat
    + 512 * flags.truncated.toNat + 256 * flags.recursionDesired.toNat
    + 128 * flags.recursionAvailable.toNat + 16 * flags.reserved.1 + flags.rcode.1

structure MessageParts where
  id : UInt16
  flags : Flags
  questions : List Question
  answers : List Record
  authorities : List Record
  additionals : List Record

namespace MessageParts

def count (message : MessageParts) : Nat :=
  message.questions.length + message.answers.length + message.authorities.length
    + message.additionals.length

def encodeHeader (message : MessageParts) : List UInt8 :=
  bigEndian 2 message.id.toNat ++ bigEndian 2 message.flags.word
    ++ bigEndian 2 message.questions.length ++ bigEndian 2 message.answers.length
    ++ bigEndian 2 message.authorities.length ++ bigEndian 2 message.additionals.length

def encodeBody (message : MessageParts) : List UInt8 :=
  message.questions.flatMap Question.encode ++ message.answers.flatMap Record.encode
    ++ message.authorities.flatMap Record.encode ++ message.additionals.flatMap Record.encode

def encode (message : MessageParts) : List UInt8 :=
  message.encodeHeader ++ message.encodeBody

def decoded (message : MessageParts) : DnsMessage :=
  { valid := true
    id := message.id
    response := message.flags.response
    truncated := message.flags.truncated
    opcode := UInt8.ofNat message.flags.opcode.1
    rcode := UInt8.ofNat message.flags.rcode.1
    questions := message.questions.map Question.decoded
    answers := message.answers.map Record.decoded
    authorities := message.authorities.map Record.decoded
    additionals := message.additionals.map Record.decoded }

end MessageParts

/-- A message of at most 4096 questions and records in at most 65535 bytes. -/
structure Message extends MessageParts where
  counted : toMessageParts.count ≤ 4096
  fits : toMessageParts.encode.length ≤ 65535

end PacketQuapture.Dns
