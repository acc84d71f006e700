import PacketQuapture.Fingerprint.Ja4

/-! JA4S tells apart the ServerHellos that differ in what it reads.
Unlike JA4 it neither sorts the extension types nor leaves GREASE out.
-/

namespace PacketQuapture.Fingerprint

open Library Text Tls

variable {Cert : Type}

/-- The two characters of the protocol the server selected. -/
def selectedAlpn (handshake : TlsHandshake Cert) : List UInt8 :=
  if handshake.serverAlpn.present ∧ handshake.serverAlpn.values ≠ [] then
    ja4Alpn (handshake.serverAlpn.values.headD [])
  else ascii "00"

def ja4sStrings (handshake : TlsHandshake Cert) : Option Ja4Parts :=
  if ¬ handshake.hasServerHello ∨ ¬ handshake.hasNegotiatedVersion ∨ ¬ handshake.hasCipherSuite
      ∨ ¬ handshake.serverExtensions.present ∨ ¬ known handshake.serverAlpn then
    none
  else
    some
      { prefixText := ascii "t" ++ ja4Version handshake.negotiatedVersion
          ++ countText handshake.serverExtensions.values.length ++ selectedAlpn handshake
        first := hex4 handshake.cipherSuite
        second := joinHex handshake.serverExtensions.values }

theorem length_ja4Version (version : UInt16) : (ja4Version version).length = 2 := by
  unfold ja4Version
  repeat' split
  all_goals rfl

/-- Two fingerprints are equal exactly when the suite, the extension types in their order, the
version's name and the selected protocol's characters are.
Witness: the parts are read back; equal extension types are counted alike, so the texts before
and behind the count are too.
-/
theorem ja4sStrings_identifies {left right : TlsHandshake Cert} {first second : Ja4Parts}
    (leftWritten : ja4sStrings left = some first) (rightWritten : ja4sStrings right = some second)
    : first = second
      ↔ left.cipherSuite = right.cipherSuite
        ∧ left.serverExtensions.values = right.serverExtensions.values
        ∧ ja4Version left.negotiatedVersion = ja4Version right.negotiatedVersion
        ∧ selectedAlpn left = selectedAlpn right := by
  obtain ⟨-, leftParts⟩ := Option.ite_none_left_eq_some.mp leftWritten
  obtain ⟨-, rightParts⟩ := Option.ite_none_left_eq_some.mp rightWritten
  rw [← Option.some.inj leftParts, ← Option.some.inj rightParts, Ja4Parts.mk.injEq, hex4_inj,
    joinHex_inj]
  constructor
  · rintro ⟨texts, suite, extensions⟩
    rw [extensions] at texts
    obtain ⟨fronts, alpn⟩ := List.append_inj texts (by simp [length_ja4Version])
    have versions := List.append_cancel_left (List.append_cancel_right fronts)
    exact ⟨suite, extensions, versions, alpn⟩
  · rintro ⟨suite, extensions, version, alpn⟩
    exact ⟨by rw [extensions, version, alpn], suite, extensions⟩

/-- A TLS 1.3 server's answer with some extensions. -/
def answering (extensions : List UInt16) : TlsHandshake Unit :=
  { hasServerHello := true
    hasNegotiatedVersion := true
    negotiatedVersion := 0x0304
    hasCipherSuite := true
    cipherSuite := 0x1301
    serverExtensions := { present := true, values := extensions } }

/-- The same extensions in the other order are told apart. -/
theorem ja4sStrings_identifies_reordered
    : ja4sStrings (answering [43, 51]) ≠ ja4sStrings (answering [51, 43]) := by
  intro same
  obtain ⟨parts, written⟩ : ∃ parts, ja4sStrings (answering [43, 51]) = some parts := ⟨_, rfl⟩
  have told := (ja4sStrings_identifies written (same ▸ written)).mp rfl
  exact absurd told.2.1 (by decide)

end PacketQuapture.Fingerprint
