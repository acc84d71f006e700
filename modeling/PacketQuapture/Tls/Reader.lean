import PacketQuapture.Text.Format

/-! The bounds-checked reader over one buffer of peer-supplied bytes.
Once a read runs past the end the reader stays overrun and every later read fails.
-/

namespace PacketQuapture.Tls

/-! ### Record and message types -/

def tlsMaxRecordLength : Nat := 16384 + 2048

def tlsRecordHeaderLength : Nat := 5

def tlsRecordChangeCipherSpec : UInt8 := 20

def tlsRecordHandshake : UInt8 := 22

def tlsRecordHeartbeat : UInt8 := 24

def tlsHandshakeClientHello : UInt8 := 1

def tlsHandshakeServerHello : UInt8 := 2

def tlsHandshakeCertificate : UInt8 := 11

def tlsExtensionServerName : UInt16 := 0

def tlsExtensionSupportedVersions : UInt16 := 43

def tlsVersion13 : UInt16 := 0x0304

/-! ### Reading -/

/-- The bytes from the current offset on, and whether a read has run past the end. -/
structure TlsReader where
  rest : List UInt8
  overrun : Bool := false
deriving DecidableEq, Repr

namespace TlsReader

def remaining (reader : TlsReader) : Nat :=
  if reader.overrun then 0 else reader.rest.length

def fail (reader : TlsReader) : TlsReader :=
  { reader with overrun := true }

def u8 (reader : TlsReader) : UInt8 × TlsReader :=
  if reader.remaining < 1 then (0, reader.fail)
  else (reader.rest.headD 0, { reader with rest := reader.rest.tail })

def u16 (reader : TlsReader) : UInt16 × TlsReader :=
  let high := reader.u8
  let low := high.2.u8
  (high.1.toUInt16 <<< 8 ||| low.1.toUInt16, low.2)

/-- Three bytes; only ever a length, so a natural number. -/
def u24 (reader : TlsReader) : Nat × TlsReader :=
  let high := reader.u8
  let mid := high.2.u8
  let low := mid.2.u8
  (high.1.toNat <<< 16 ||| mid.1.toNat <<< 8 ||| low.1.toNat, low.2)

/-- The next `count` bytes, or `none` and an overrun. -/
def take (reader : TlsReader) (count : Nat) : Option (List UInt8) × TlsReader :=
  if reader.remaining < count then (none, reader.fail)
  else (some (reader.rest.take count), { reader with rest := reader.rest.drop count })

def skip (reader : TlsReader) (count : Nat) : Bool × TlsReader :=
  let taken := reader.take count
  (taken.1.isSome, taken.2)

/-- The next `count` bytes as a reader of their own. -/
def sub (reader : TlsReader) (count : Nat) : Option TlsReader × TlsReader :=
  let taken := reader.take count
  (taken.1.map fun bytes => { rest := bytes }, taken.2)

/-- A length in one or two bytes. -/
def length (reader : TlsReader) (lengthBytes : Nat) : Nat × TlsReader :=
  if lengthBytes = 1 then (reader.u8.1.toNat, reader.u8.2)
  else (reader.u16.1.toNat, reader.u16.2)

/-- Consumes a block that its length in one or two bytes precedes. -/
def skipVector (reader : TlsReader) (lengthBytes : Nat) : Bool × TlsReader :=
  let length := reader.length lengthBytes
  if length.2.overrun then (false, length.2) else length.2.skip length.1

end TlsReader

/-! ### The server name -/

/-- What a server_name extension body holds: whether its framing is sound, and the escaped
host_name.
-/
structure ServerName where
  framed : Bool
  name : Option (List UInt8) := none
deriving DecidableEq, Repr

/-- The loop of `parseTlsServerName`; each pass consumes an entry or stops, so the list's length
bounds the passes.
-/
def serverNameLoop (listLength : Nat) : Nat → Nat → TlsReader → ServerName
  | fuel + 1, consumed, reader =>
    if consumed + 3 ≤ listLength then
      let nameType := reader.u8
      let nameLength := nameType.2.u16
      let consumed := consumed + 3
      if nameLength.2.overrun ∨ listLength - consumed < nameLength.1.toNat then
        { framed := false }
      else if nameType.1 = 0 then
        match (nameLength.2.take nameLength.1.toNat).1 with
        | none => { framed := false }
        | some raw => { framed := true, name := some (Text.escapeTlsText raw) }
      else
        let skipped := nameLength.2.skip nameLength.1.toNat
        if skipped.1 then
          serverNameLoop listLength fuel (consumed + nameLength.1.toNat) skipped.2
        else
          { framed := false }
    else
      { framed := consumed = listLength }
  | 0, _, _ => { framed := false }

/-- A ServerNameList with at most one host_name; other name types are skipped. -/
def parseTlsServerName (reader : TlsReader) : ServerName :=
  let listLength := reader.u16
  if listLength.2.overrun ∨ listLength.2.remaining ≠ listLength.1.toNat then
    { framed := false }
  else
    serverNameLoop listLength.1.toNat (listLength.1.toNat + 1) 0 listLength.2

end PacketQuapture.Tls
