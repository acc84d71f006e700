import PacketQuapture.Tls.Records

/-! One TCP payload read as the start of a TLS record. Nothing here spans packets: a field that needs
bytes beyond the payload is reported absent with `truncated` set.
-/

namespace PacketQuapture.Tls

/-- What one payload says as a TLS record. -/
structure TlsRecord where
  valid : Bool := false
  recordType : UInt8 := 0
  recordVersion : UInt16 := 0
  recordLength : Nat := 0
  hasHandshakeType : Bool := false
  handshakeType : UInt8 := 0
  clientHello : Bool := false
  hasServerName : Bool := false
  serverName : List UInt8 := []
  truncated : Bool := false
deriving DecidableEq, Repr

def knownRecordType (type : UInt8) : Bool :=
  tlsRecordChangeCipherSpec ≤ type && type ≤ tlsRecordHeartbeat

/-- What walking a ClientHello finds: whether it stays within its own length, and the name. -/
structure ClientHelloRead where
  whole : Bool
  name : Option (List UInt8) := none
deriving DecidableEq, Repr

/-- The loop of `parseClientHello` over the extensions; a pass consumes one or stops, so the length of
the list bounds the passes.
-/
def clientHelloLoop (total : Nat) : Nat → TlsReader → Nat → ClientHelloRead
  | 0, _, _ => { whole := false }
  | fuel + 1, reader, consumed =>
    if consumed + 4 ≤ total then
      let type := reader.u16
      let length := type.2.length 2
      if length.2.overrun ∨ total - (consumed + 4) < length.1 then { whole := false }
      else
        let extension := length.2.sub length.1
        match extension.1 with
        | none => { whole := false }
        | some body =>
          if type.1 = tlsExtensionServerName then
            -- a malformed name list leaves the name absent; the hello itself is still whole
            { whole := true, name := (parseTlsServerName body).name }
          else
            clientHelloLoop total fuel extension.2 (consumed + 4 + length.1)
    else
      { whole := ¬ reader.overrun }

/-- Walks a ClientHello body far enough to reach the server_name extension. -/
def parseClientHello (reader : TlsReader) : ClientHelloRead :=
  let random := reader.skip (2 + 32)
  if ¬ random.1 then { whole := false }
  else
    let session := random.2.skipVector 1
    if ¬ session.1 then { whole := false }
    else
      let suites := session.2.skipVector 2
      if ¬ suites.1 then { whole := false }
      else
        let compression := suites.2.skipVector 1
        if ¬ compression.1 then { whole := false }
        else if compression.2.remaining = 0 then { whole := true }
        else
          let length := compression.2.length 2
          if length.2.overrun then { whole := false }
          else clientHelloLoop length.1 (length.1 + 1) length.2 0

def decodeTlsRecord (data : List UInt8) : TlsRecord :=
  if data.length < tlsRecordHeaderLength then {}
  else if ¬ knownRecordType (data.getD 0 0) ∨ ¬ tlsRecordHeaderValid data then {}
  else if data.length < recordLength data + tlsRecordHeaderLength then {}
  else
    let valid : TlsRecord :=
      { valid := true
        recordType := data.getD 0 0
        recordVersion := (data.getD 1 0).toUInt16 <<< 8 ||| (data.getD 2 0).toUInt16
        recordLength := recordLength data }
    if data.getD 0 0 ≠ tlsRecordHandshake then valid
    else
      let record : TlsReader :=
        { rest := (data.drop tlsRecordHeaderLength).take (recordLength data) }
      let type := record.u8
      let length := type.2.u24
      if length.2.overrun then valid
      else
        let typed := { valid with hasHandshakeType := true, handshakeType := type.1 }
        if type.1 ≠ tlsHandshakeClientHello then typed
        else
          let asked := { typed with clientHello := true }
          match (length.2.sub length.1).1 with
          | none => { asked with truncated := true }
          | some hello =>
            let read := parseClientHello hello
            if read.whole then
              { asked with hasServerName := read.name.isSome, serverName := read.name.getD [] }
            else
              { asked with truncated := true }

end PacketQuapture.Tls
