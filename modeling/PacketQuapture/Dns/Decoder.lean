import PacketQuapture.Library.Outcome
import PacketQuapture.Text.Format

/-! Decoding a DNS message. Names may be compressed: a pointer continues a name at an earlier
offset of the message. Every read is checked here, so a read outside the message would show.
-/

namespace PacketQuapture.Dns

open Library Text

/-! ### Messages -/

structure DnsQuestion where
  name : List UInt8 := []
  type : UInt16 := 0
  klass : UInt16 := 0
deriving DecidableEq, Repr

structure DnsRecord where
  name : List UInt8 := []
  type : UInt16 := 0
  klass : UInt16 := 0
  ttl : UInt32 := 0
  hasText : Bool := false
  text : List UInt8 := []
  data : List UInt8 := []
deriving DecidableEq, Repr

structure DnsMessage where
  valid : Bool := false
  error : String := ""
  id : UInt16 := 0
  response : Bool := false
  truncated : Bool := false
  opcode : UInt8 := 0
  rcode : UInt8 := 0
  questions : List DnsQuestion := []
  answers : List DnsRecord := []
  authorities : List DnsRecord := []
  additionals : List DnsRecord := []
deriving DecidableEq, Repr

/-! ### Reading -/

inductive StopReason where
  /-- The parser returned false. -/
  | rejected
  /-- A PQ_ASSERT failed. -/
  | assertion
  /-- A byte outside the message was read. -/
  | outOfBounds
deriving DecidableEq, Repr

/-- Why the parser gave up, and the name steps it took until then. -/
structure Stop where
  reason : StopReason
  work : Nat
deriving DecidableEq, Repr

structure Parser where
  data : List UInt8
  work : Nat := 0
deriving DecidableEq, Repr

namespace Parser

def size (self : Parser) : Nat :=
  self.data.length

def stop {α : Type} (self : Parser) (reason : StopReason) : Except Stop α :=
  .error { reason, work := self.work }

def has (self : Parser) (offset length : Nat) : Bool :=
  offset ≤ self.size && length ≤ self.size - offset

def byte (self : Parser) (offset : Nat) : Except Stop UInt8 :=
  match self.data[offset]? with
  | some byte => .ok byte
  | none => self.stop .outOfBounds

def bytes (self : Parser) : Nat → Nat → Except Stop (List UInt8)
  | _, 0 => .ok []
  | offset, count + 1 => do
    let byte ← self.byte offset
    let rest ← self.bytes (offset + 1) count
    .ok (byte :: rest)

def readBigEndian16 (self : Parser) (offset : Nat) : Except Stop UInt16 := do
  let high ← self.byte offset
  let low ← self.byte (offset + 1)
  .ok (high.toUInt16 <<< 8 ||| low.toUInt16)

def readBigEndian32 (self : Parser) (offset : Nat) : Except Stop UInt32 := do
  let high ← self.readBigEndian16 offset
  let low ← self.readBigEndian16 (offset + 2)
  .ok (high.toUInt32 <<< 16 ||| low.toUInt32)

/-! ### Names -/

/-- The name steps one message may take. -/
def workMax : Nat := 262144

/-- A name takes at most 127 labels, 127 pointers and the terminator. -/
def stepsMax : Nat := 127 + 127 + 1

/-- Printable ASCII other than the dot and the backslash passes through; every other byte is
escaped.
-/
def appendNameByte (name : List UInt8) (byte : UInt8) : List UInt8 :=
  if 33 ≤ byte ∧ byte ≤ 126 ∧ byte ≠ 46 ∧ byte ≠ 92 then name ++ [byte]
  else appendDecimalEscape name byte

/-- The text of a name with one more label. -/
def appendLabel (name label : List UInt8) : List UInt8 :=
  label.foldl appendNameByte (if name = [] then name else name ++ [46])

/-- Where the walk along a name stands. `segment` is the start of the run of labels it is in,
`offset` where the message continues after the name, once a pointer was followed.
-/
structure NameWalk where
  cursor : Nat
  segment : Nat
  offset : Nat
  expanded : Nat := 1
  labels : Nat := 0
  pointers : Nat := 0
  jumped : Bool := false
  name : List UInt8 := []
deriving DecidableEq, Repr

/-- What a step along a name comes to. -/
inductive NameMove where
  | onto (walk : NameWalk)
  | finished (offset : Nat) (text : List UInt8)
deriving DecidableEq, Repr

/-- One pass of the loop of `name`. Each pointer must target a prior occurrence, before the segment
that holds it.
-/
def nameStep (before : Parser) (walk : NameWalk) : Except Stop (Parser × NameMove) := do
  let self := { before with work := before.work + 1 }
  if workMax < self.work || !self.has walk.cursor 1 then self.stop .rejected
  else
    let length : UInt8 ← self.byte walk.cursor
    let cursor := walk.cursor + 1
    if length &&& 0xc0 = 0xc0 then
      if !self.has cursor 1 then self.stop .rejected
      else
        let low : UInt8 ← self.byte cursor
        let target := (length &&& 0x3f).toNat <<< 8 ||| low.toNat
        if target < 12 ∨ walk.segment ≤ target then self.stop .rejected
        else if 127 < walk.pointers + 1 then self.stop .rejected
        else
          .ok (self, .onto
            { walk with
              cursor := target
              segment := target
              offset := if walk.jumped then walk.offset else cursor + 1
              pointers := walk.pointers + 1
              jumped := true })
    else if 63 < length ∨ self.has cursor length.toNat = false then self.stop .rejected
    else if length = 0 then
      .ok (self, .finished (if walk.jumped then walk.offset else cursor)
        (if walk.name = [] then [46] else walk.name))
    else if 255 < walk.expanded + (length.toNat + 1) then self.stop .rejected
    else do
      require (walk.labels + 1 ≤ 127) { reason := .assertion, work := self.work }
      let label ← self.bytes cursor length.toNat
      .ok (self, .onto
        { walk with
          cursor := cursor + length.toNat
          expanded := walk.expanded + (length.toNat + 1)
          labels := walk.labels + 1
          name := appendLabel walk.name label })

/-- The loop of `name`. -/
def nameLoop : Nat → Parser → NameWalk → Except Stop (Parser × Nat × List UInt8)
  | 0, self, _ => self.stop .assertion
  | fuel + 1, before, walk => do
    let (self, move) ← nameStep before walk
    match move with
    | .onto next => nameLoop fuel self next
    | .finished offset text => .ok (self, offset, text)

/-- The name at an offset: the parser after it, the offset past it, and its text. -/
def name (self : Parser) (offset : Nat) : Except Stop (Parser × Nat × List UInt8) :=
  nameLoop stepsMax self { cursor := offset, segment := offset, offset }

/-! ### Questions and records -/

def question (self : Parser) (offset : Nat) : Except Stop (Parser × Nat × DnsQuestion) := do
  let (self, offset, name) ← self.name offset
  if !self.has offset 4 then self.stop .rejected
  else
    let type ← self.readBigEndian16 offset
    let klass ← self.readBigEndian16 (offset + 2)
    .ok (self, offset + 4, { name, type, klass })

def typeA : UInt16 := 1

def typeNs : UInt16 := 2

def typeCname : UInt16 := 5

def typePtr : UInt16 := 12

def typeAaaa : UInt16 := 28

def classIn : UInt16 := 1

/-- `%u.%u.%u.%u` of four bytes. -/
def ipv4Text (address : List UInt8) : List UInt8 :=
  [46].intercalate (address.map fun byte => decimal byte.toNat)

/-- `%04x` -/
def hexGroup (value : UInt16) : List UInt8 :=
  [digit (value.toNat / 4096), digit (value.toNat / 256 % 16), digit (value.toNat / 16 % 16),
    digit (value.toNat % 16)]

def groups (self : Parser) : Nat → Nat → Except Stop (List UInt16)
  | _, 0 => .ok []
  | offset, count + 1 => do
    let group ← self.readBigEndian16 offset
    let rest ← self.groups (offset + 2) count
    .ok (group :: rest)

/-- Eight `%04x`, with colons between them. -/
def ipv6Text (groups : List UInt16) : List UInt8 :=
  [58].intercalate (groups.map hexGroup)

/-- The text of a record's data, for the types that have one. -/
def recordText (self : Parser) (type klass : UInt16) (offset length : Nat)
    : Except Stop (Parser × Option (List UInt8)) :=
  if type = typeA ∧ klass = classIn then
    if length ≠ 4 then self.stop .rejected
    else do
      let address ← self.bytes offset 4
      .ok (self, some (ipv4Text address))
  else if type = typeAaaa ∧ klass = classIn then
    if length ≠ 16 then self.stop .rejected
    else do
      let groups ← self.groups offset 8
      .ok (self, some (ipv6Text groups))
  else if type = typeNs ∨ type = typeCname ∨ type = typePtr then do
    let (self, cursor, text) ← self.name offset
    if cursor ≠ offset + length then self.stop .rejected else .ok (self, some text)
  else .ok (self, none)

def record (self : Parser) (offset : Nat) : Except Stop (Parser × Nat × DnsRecord) := do
  let (self, offset, name) ← self.name offset
  if !self.has offset 10 then self.stop .rejected
  else
    let type ← self.readBigEndian16 offset
    let klass ← self.readBigEndian16 (offset + 2)
    let ttl ← self.readBigEndian32 (offset + 4)
    let length ← self.readBigEndian16 (offset + 8)
    let offset := offset + 10
    if !self.has offset length.toNat then self.stop .rejected
    else
      let data ← self.bytes offset length.toNat
      let (self, text) ← self.recordText type klass offset length.toNat
      .ok (self, offset + length.toNat,
        { name, type, klass, ttl, hasText := text.isSome, text := text.getD [], data })

/-- Reads `count` items in a row. -/
def several {Item : Type} (item : Parser → Nat → Except Stop (Parser × Nat × Item))
    : Nat → Parser → Nat → Except Stop (Parser × Nat × List Item)
  | 0, self, offset => .ok (self, offset, [])
  | count + 1, self, offset => do
    let (self, offset, head) ← item self offset
    let (self, offset, rest) ← several item count self offset
    .ok (self, offset, head :: rest)

def records (self : Parser) (offset : Nat) (count : UInt16)
    : Except Stop (Parser × Nat × List DnsRecord) :=
  several record count.toNat self offset

/-- The counts of a message's header. -/
structure Counts where
  questions : UInt16
  answers : UInt16
  authorities : UInt16
  additionals : UInt16
deriving DecidableEq, Repr

/-- What follows the header: the questions and the three lists of records. -/
def body (self : Parser) (counts : Counts) (header : DnsMessage)
    : Except Stop (Parser × Nat × DnsMessage) := do
  let (self, offset, questions) ← several question counts.questions.toNat self 12
  let (self, offset, answers) ← self.records offset counts.answers
  let (self, offset, authorities) ← self.records offset counts.authorities
  let (self, offset, additionals) ← self.records offset counts.additionals
  .ok (self, offset, { header with questions, answers, authorities, additionals })

/-- The message, if it ends with its last record. -/
def sections (self : Parser) (counts : Counts) (header : DnsMessage) : Except Stop DnsMessage := do
  let (self, offset, message) ← self.body counts header
  if offset ≠ self.size then self.stop .rejected else .ok { message with valid := true }

end Parser

/-! ### Whole messages -/

def invalidMessage (error : String) : DnsMessage :=
  { error }

/-- What the caller of a parser that returned false reports. -/
def rejectedAs (invalid : DnsMessage) (outcome : Except Stop DnsMessage)
    : Except Stop DnsMessage :=
  match outcome with
  | .error { reason := .rejected, .. } => .ok invalid
  | other => other

def decodeDns (data : List UInt8) : Except Stop DnsMessage :=
  let invalid := invalidMessage "malformed or truncated DNS message"
  if data.length < 12 ∨ 65535 < data.length then .ok invalid
  else do
    let parser : Parser := { data }
    let id ← parser.readBigEndian16 0
    let flags ← parser.readBigEndian16 2
    let questions ← parser.readBigEndian16 4
    let answers ← parser.readBigEndian16 6
    let authorities ← parser.readBigEndian16 8
    let additionals ← parser.readBigEndian16 10
    if 4096 < questions.toNat + answers.toNat + authorities.toNat + additionals.toNat then
      .ok (invalidMessage "DNS record count exceeds safety limit")
    else
      rejectedAs invalid (parser.sections { questions, answers, authorities, additionals }
        { id
          response := flags &&& 0x8000 != 0
          truncated := flags &&& 0x0200 != 0
          opcode := (flags >>> 11 &&& 15).toUInt8
          rcode := (flags &&& 15).toUInt8 })

end PacketQuapture.Dns
