import PacketQuapture.Text.Format
import PacketQuapture.Tls.Hello

/-! The strings that fingerprints of a hello are hashed from.
A string is its bytes; a fingerprint that cannot be taken is `none`.
-/

namespace PacketQuapture.Fingerprint

open Library Text Tls

variable {Cert : Type}

/-- The code points reserved for GREASE: two equal bytes that end in `A`. -/
def isTlsGrease (value : UInt16) : Bool :=
  value >>> 8 = value &&& 0xFF && value &&& 0x0F = 0x0A

/-- Whether the hello's value for a list is known: present, or not sent. -/
def known {α : Type} (list : TlsList α) : Bool :=
  !list.malformed && !list.overLimit

/-! ### JA3 -/

/-- How writing a number can go wrong. -/
inductive FingerprintFailure where
  /-- More digits than the buffer holds. -/
  | appendNumber
  | outOfFuel
deriving DecidableEq, Repr

/-- The digits of a number into a buffer of five, least significant first. -/
def numberLoop : Nat → UInt16 → List UInt8 → Except FingerprintFailure (List UInt8)
  | 0, _, _ => .error .outOfFuel
  | fuel + 1, value, buffer => do
    require (buffer.length < 5) .appendNumber
    let buffer := buffer ++ [48 + (value % 10).toUInt8]
    if value / 10 ≠ 0 then numberLoop fuel (value / 10) buffer else return buffer

/-- Every JA3 field is a 16-bit wire value, so five digits always suffice. -/
def appendNumber (out : List UInt8) (value : UInt16) : Except FingerprintFailure (List UInt8) := do
  let buffer ← numberLoop (value.toNat + 1) value []
  return out ++ buffer.reverse

/-- The loop of `appendList`: `first` until a value was written. -/
def appendValues (skipGrease : Bool)
    : List UInt16 → Bool → List UInt8 → Except FingerprintFailure (List UInt8)
  | [], _, out => .ok out
  | value :: rest, first, out =>
    if skipGrease && isTlsGrease value then appendValues skipGrease rest first out
    else do
      let out ← appendNumber (if first then out else out ++ [45]) value
      appendValues skipGrease rest false out

def appendList (out : List UInt8) (values : List UInt16) (skipGrease : Bool)
    : Except FingerprintFailure (List UInt8) :=
  appendValues skipGrease values true out

/-- The string that JA3 hashes: version, ciphers, extensions, groups and point formats. -/
def ja3String (handshake : TlsHandshake Cert)
    : Except FingerprintFailure (Option (List UInt8)) :=
  if ¬ handshake.hasClientHello ∨ ¬ handshake.hasClientVersion
      ∨ ¬ handshake.clientCipherSuites.present ∨ ¬ handshake.clientExtensions.present
      ∨ ¬ known handshake.clientSupportedGroups ∨ ¬ known handshake.clientEcPointFormats then
    .ok none
  else do
    let out ← appendNumber [] handshake.clientVersion
    let out ← appendList (out ++ [44]) handshake.clientCipherSuites.values true
    let out ← appendList (out ++ [44]) handshake.clientExtensions.values true
    let out ← appendList (out ++ [44]) handshake.clientSupportedGroups.values true
    -- point formats are single bytes and have no GREASE values
    let out ← appendList (out ++ [44])
      (handshake.clientEcPointFormats.values.map fun format => format.toUInt16) false
    return some out

/-! ### JA4 -/

/-- The pieces of a JA4 fingerprint: the part in the clear and the two that are hashed. -/
structure Ja4Parts where
  prefixText : List UInt8 := []
  first : List UInt8 := []
  second : List UInt8 := []
deriving DecidableEq, Repr

def ja4Version (version : UInt16) : List UInt8 :=
  if version = tlsVersion13 then ascii "13"
  else if version = 0x0303 then ascii "12"
  else if version = 0x0302 then ascii "11"
  else if version = 0x0301 then ascii "10"
  else if version = 0x0300 then ascii "s3"
  else if version = 0x0002 then ascii "s2"
  else ascii "00"

/-- A code point as four hexadecimal digits. -/
def hex4 (value : UInt16) : List UInt8 :=
  [digit (value >>> 12 &&& 0xF).toNat, digit (value >>> 8 &&& 0xF).toNat,
    digit (value >>> 4 &&& 0xF).toNat, digit (value &&& 0xF).toNat]

/-- A count in two digits, at most 99. -/
def countText (count : Nat) : List UInt8 :=
  [digit (min count 99 / 10), digit (min count 99 % 10)]

/-- The loop of `joinHex`: `first` until a value was written. -/
def joinValues : List UInt16 → Bool → List UInt8 → List UInt8
  | [], _, out => out
  | value :: rest, first, out =>
    joinValues rest false ((if first then out else out ++ [44]) ++ hex4 value)

def joinHex (values : List UInt16) : List UInt8 :=
  joinValues values true []

def withoutGrease (values : List UInt16) : List UInt16 :=
  values.filter fun value => !isTlsGrease value

def isAlphanumeric (byte : UInt8) : Bool :=
  48 ≤ byte && byte ≤ 57 || 65 ≤ byte && byte ≤ 90 || 97 ≤ byte && byte ≤ 122

/-- The two characters that stand for a protocol name. -/
def ja4Alpn (protocol : List UInt8) : List UInt8 :=
  match protocol.head?, protocol.getLast? with
  | some first, some last =>
    if isAlphanumeric first && isAlphanumeric last then [first, last]
    else [digit (first >>> 4).toNat, digit (last &&& 0xF).toNat]
  | _, _ => ascii "00"

/-- `std::sort` of code points. -/
def sortCodes (values : List UInt16) : List UInt16 :=
  values.insertionSort fun left right => left ≤ right

/-- The version JA4 names: the highest real one offered, else the hello's own; `none` when
supported_versions offers no real version.
-/
def offeredVersion (handshake : TlsHandshake Cert) : Option UInt16 :=
  if handshake.clientSupportedVersions.present then
    (withoutGrease handshake.clientSupportedVersions.values).max?
  else
    some handshake.clientVersion

def ja4Strings (handshake : TlsHandshake Cert) : Option Ja4Parts :=
  if ¬ handshake.hasClientHello ∨ ¬ handshake.hasClientVersion
      ∨ ¬ handshake.clientCipherSuites.present ∨ ¬ handshake.clientExtensions.present
      ∨ ¬ known handshake.clientSupportedVersions ∨ ¬ known handshake.clientSignatureAlgorithms
      ∨ ¬ known handshake.clientAlpn then
    none
  else
    (offeredVersion handshake).map fun version =>
      let ciphers := withoutGrease handshake.clientCipherSuites.values
      let extensions := withoutGrease handshake.clientExtensions.values
      let hashed := extensions.filter fun type =>
        type ≠ tlsExtensionServerName && type ≠ extensionAlpn
      let signatures := withoutGrease handshake.clientSignatureAlgorithms.values
      { prefixText := ascii "t" ++ ja4Version version
          ++ (if tlsExtensionServerName ∈ extensions then ascii "d" else ascii "i")
          ++ countText ciphers.length ++ countText extensions.length
          -- the first value as sent, GREASE or not
          ++ (if handshake.clientAlpn.present ∧ handshake.clientAlpn.values ≠ [] then
                ja4Alpn (handshake.clientAlpn.values.headD [])
              else ascii "00")
        first := joinHex (sortCodes ciphers)
        second := joinHex (sortCodes hashed)
          ++ if signatures ≠ [] then ascii "_" ++ joinHex signatures else [] }

/-- The part in the clear. -/
def prefixOf (handshake : TlsHandshake Cert) (version : UInt16) : List UInt8 :=
  ascii "t" ++ ja4Version version
    ++ (if tlsExtensionServerName ∈ withoutGrease handshake.clientExtensions.values then ascii "d"
        else ascii "i")
    ++ countText (withoutGrease handshake.clientCipherSuites.values).length
    ++ countText (withoutGrease handshake.clientExtensions.values).length
    ++ (if handshake.clientAlpn.present ∧ handshake.clientAlpn.values ≠ [] then
          ja4Alpn (handshake.clientAlpn.values.headD [])
        else ascii "00")

end PacketQuapture.Fingerprint
