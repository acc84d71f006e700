import PacketQuapture.Fingerprint.Strings
import PacketQuapture.Library.Joined
import PacketQuapture.Text.Decimal

/-! JA3 tells apart exactly the hellos that differ in what it reads.
The text joins five fields by commas, each but the first a list of decimals joined by dashes; a
decimal holds neither separator, so the text is read back field by field.
-/

namespace PacketQuapture.Fingerprint

open Library Text Tls

variable {Cert : Type}

/-! ### Writing -/

theorem digit_mod (value : UInt16) : 48 + (value % 10).toUInt8 = digit (value.toNat % 10) := by
  have small : value.toNat % 10 < 10 := Nat.mod_lt _ (by decide)
  have same : (value % 10).toUInt8 = UInt8.ofNat (value.toNat % 10) := by
    apply UInt8.toNat_inj.mp
    simp
  rw [digit, if_pos small, same]

/-- The buffer collects the decimal backwards, and it fits.
Witness: induction on the fuel; each turn takes the last digit of the decimal.
-/
theorem numberLoop_writes {fuel : Nat} {value : UInt16} {buffer : List UInt8}
    (enough : value.toNat < fuel) (room : buffer.length + (decimal value.toNat).length ≤ 5)
    : numberLoop fuel value buffer = .ok (buffer ++ (decimal value.toNat).reverse) := by
  induction fuel generalizing value buffer with
  | zero => omega
  | succ fuel ih =>
    have tenth : (value / 10).toNat = value.toNat / 10 := by simp
    have occupied := List.length_pos_iff.mpr (decimal_ne_nil value.toNat)
    rw [numberLoop, require_eq_ok _ (by omega), ok_bind, digit_mod]
    by_cases large : 10 ≤ value.toNat
    · have more : value / 10 ≠ 0 := fun none => by
        have : (value / 10).toNat = 0 := by rw [none]; rfl
        omega
      rw [decimal_of_le large, List.length_append, List.length_singleton] at room
      rw [if_pos more, ih (by omega)
        (by rw [tenth, List.length_append, List.length_singleton]; omega),
        decimal_of_le large, tenth, List.reverse_append, List.append_assoc]
      rfl
    · have last : ¬ value / 10 ≠ 0 := by
        rw [not_not]
        apply UInt16.toNat_inj.mp
        rw [tenth, Nat.div_eq_of_lt (by omega)]
        rfl
      rw [if_neg last, decimal_of_lt (by omega), Nat.mod_eq_of_lt (by omega)]
      rfl

theorem appendNumber_writes (out : List UInt8) (value : UInt16)
    : appendNumber out value = .ok (out ++ decimal value.toNat) := by
  have short : (decimal value.toNat).length ≤ 5 :=
    length_decimal_le (by decide) (value.toNat_lt.trans (by decide))
  rw [appendNumber, numberLoop_writes (Nat.lt_succ_self _) (by simpa using short), ok_bind,
    List.nil_append, List.reverse_reverse]
  rfl

/-- Code points as decimals joined by dashes. -/
def codes (values : List UInt16) : List UInt8 :=
  [45].intercalate (values.map fun value => decimal value.toNat)

/-- The values that are written. -/
def listed (skipGrease : Bool) (values : List UInt16) : List UInt16 :=
  if skipGrease then withoutGrease values else values

theorem listed_cons (skipGrease : Bool) (value : UInt16) (rest : List UInt16)
    : listed skipGrease (value :: rest)
      = if skipGrease && isTlsGrease value then listed skipGrease rest
        else value :: listed skipGrease rest := by
  cases skipGrease with
  | false => rfl
  | true =>
    cases grease : isTlsGrease value with
    | false => simp [listed, withoutGrease, grease]
    | true => simp [listed, withoutGrease, grease]

theorem appendValues_follows (skipGrease : Bool) (values : List UInt16) (out : List UInt8)
    : appendValues skipGrease values false out
      = .ok (out ++ ((listed skipGrease values).map fun value => decimal value.toNat).flatMap
          (45 :: ·)) := by
  induction values generalizing out with
  | nil => cases skipGrease <;> simp [appendValues, listed, withoutGrease]
  | cons value rest ih =>
    rw [appendValues, listed_cons]
    split
    case isTrue => exact ih out
    case isFalse =>
      rw [if_neg Bool.false_ne_true, appendNumber_writes, ok_bind, ih, List.map_cons,
        List.flatMap_cons]
      simp only [List.append_assoc, List.cons_append, List.nil_append]

theorem appendList_writes (skipGrease : Bool) (values : List UInt16) (out : List UInt8)
    : appendList out values skipGrease = .ok (out ++ codes (listed skipGrease values)) := by
  unfold appendList
  induction values with
  | nil => cases skipGrease <;> simp [appendValues, listed, withoutGrease, codes]
  | cons value rest ih =>
    rw [appendValues, listed_cons]
    split
    case isTrue => exact ih
    case isFalse =>
      rw [if_pos rfl, appendNumber_writes, ok_bind, appendValues_follows, codes, List.map_cons,
        intercalate_cons, List.append_assoc]

/-- The fields of the text, in their order. -/
def ja3Fields (handshake : TlsHandshake Cert) : List (List UInt8) :=
  [decimal handshake.clientVersion.toNat,
    codes (withoutGrease handshake.clientCipherSuites.values),
    codes (withoutGrease handshake.clientExtensions.values),
    codes (withoutGrease handshake.clientSupportedGroups.values),
    codes (handshake.clientEcPointFormats.values.map fun format => format.toUInt16)]

/-- What a JA3 text needs of the hello. -/
def Ja3Ready (handshake : TlsHandshake Cert) : Prop :=
  handshake.hasClientHello ∧ handshake.hasClientVersion ∧ handshake.clientCipherSuites.present
    ∧ handshake.clientExtensions.present ∧ known handshake.clientSupportedGroups
    ∧ known handshake.clientEcPointFormats

instance (handshake : TlsHandshake Cert) : Decidable (Ja3Ready handshake) := by
  unfold Ja3Ready
  infer_instance

theorem ja3String_writes (handshake : TlsHandshake Cert)
    : ja3String handshake
      = .ok (if Ja3Ready handshake then some ([44].intercalate (ja3Fields handshake))
          else none) := by
  unfold ja3String
  by_cases ready : Ja3Ready handshake
  · obtain ⟨hello, version, suites, extensions, groups, formats⟩ := ready
    rw [if_neg (by simp [hello, version, suites, extensions, groups, formats]),
      if_pos ⟨hello, version, suites, extensions, groups, formats⟩]
    simp only [appendNumber_writes, appendList_writes, ok_bind, listed, if_true, Bool.false_eq_true,
      if_false, ja3Fields, intercalate_cons, List.flatMap_cons, List.flatMap_nil, List.append_nil,
      List.nil_append, List.append_assoc, List.cons_append]
    rfl
  · rw [if_neg ready, if_pos]
    simpa only [Ja3Ready, not_and_or] using ready

/-! ### Reading -/

theorem codes_inj {left right : List UInt16} : codes left = codes right ↔ left = right := by
  have fielded (values : List UInt16)
      : ∀ part ∈ values.map fun value => decimal value.toNat, Fielded (45 : UInt8) part := by
    intro part member
    obtain ⟨value, -, rfl⟩ := List.mem_map.mp member
    exact ⟨decimal_ne_nil _, decimal_plain _ (by decide)⟩
  have injective : Function.Injective fun value : UInt16 => decimal value.toNat :=
    fun first second same => UInt16.toNat_inj.mp (decimal_inj.mp same)
  rw [codes, codes, intercalate_fielded_inj (fielded left) (fielded right),
    (List.map_injective_iff.mpr injective).eq_iff]

theorem codes_plain (values : List UInt16) : (44 : UInt8) ∉ codes values := by
  intro member
  rcases mem_intercalate _ member with same | ⟨part, among, inside⟩
  · exact absurd same (by decide)
  · obtain ⟨value, -, rfl⟩ := List.mem_map.mp among
    exact decimal_plain _ (by decide) inside

theorem ja3Fields_plain (handshake : TlsHandshake Cert)
    : ∀ field ∈ ja3Fields handshake, (44 : UInt8) ∉ field := by
  intro field member
  simp only [ja3Fields, List.mem_cons, List.not_mem_nil, or_false] at member
  rcases member with rfl | rfl | rfl | rfl | rfl
  · exact decimal_plain _ (by decide)
  all_goals exact codes_plain _

/-- What JA3 identifies a hello by. -/
def SameJa3 (left right : TlsHandshake Cert) : Prop :=
  left.clientVersion = right.clientVersion
    ∧ withoutGrease left.clientCipherSuites.values = withoutGrease right.clientCipherSuites.values
    ∧ withoutGrease left.clientExtensions.values = withoutGrease right.clientExtensions.values
    ∧ withoutGrease left.clientSupportedGroups.values
      = withoutGrease right.clientSupportedGroups.values
    ∧ left.clientEcPointFormats.values = right.clientEcPointFormats.values

theorem ja3Fields_inj {left right : TlsHandshake Cert}
    : ja3Fields left = ja3Fields right ↔ SameJa3 left right := by
  have widened : Function.Injective fun format : UInt8 => format.toUInt16 :=
    fun first second same => UInt8.toUInt16_inj.mp same
  simp only [ja3Fields, List.cons.injEq, and_true, decimal_inj, UInt16.toNat_inj, codes_inj,
    (List.map_injective_iff.mpr widened).eq_iff, SameJa3]

/-! ### Editing code points -/

/-- The lists of code points of a ClientHello. -/
structure CodePoints where
  cipherSuites : List UInt16
  extensions : List UInt16
  supportedGroups : List UInt16
  signatureAlgorithms : List UInt16
  supportedVersions : List UInt16
deriving DecidableEq, Repr

def codePoints (handshake : TlsHandshake Cert) : CodePoints where
  cipherSuites := handshake.clientCipherSuites.values
  extensions := handshake.clientExtensions.values
  supportedGroups := handshake.clientSupportedGroups.values
  signatureAlgorithms := handshake.clientSignatureAlgorithms.values
  supportedVersions := handshake.clientSupportedVersions.values

/-- The same hello with other code points in its lists. -/
def withCodePoints (handshake : TlsHandshake Cert) (points : CodePoints)
    : TlsHandshake Cert :=
  { handshake with
    clientCipherSuites := { handshake.clientCipherSuites with values := points.cipherSuites }
    clientExtensions := { handshake.clientExtensions with values := points.extensions }
    clientSupportedGroups :=
      { handshake.clientSupportedGroups with values := points.supportedGroups }
    clientSignatureAlgorithms :=
      { handshake.clientSignatureAlgorithms with values := points.signatureAlgorithms }
    clientSupportedVersions :=
      { handshake.clientSupportedVersions with values := points.supportedVersions } }

def CodePoints.withoutGrease (points : CodePoints) : CodePoints where
  cipherSuites := Fingerprint.withoutGrease points.cipherSuites
  extensions := Fingerprint.withoutGrease points.extensions
  supportedGroups := Fingerprint.withoutGrease points.supportedGroups
  signatureAlgorithms := Fingerprint.withoutGrease points.signatureAlgorithms
  supportedVersions := Fingerprint.withoutGrease points.supportedVersions

/-- JA3 always ends without a failed assertion; two texts are equal exactly when the hellos agree
on what JA3 identifies them by; and GREASE values inserted into or removed from any list of code
points change nothing.
Witness: the text is five fields joined by commas that no field holds, each read back from
decimals joined by dashes that no decimal holds.
-/
theorem ja3String_identifies
    : (∀ handshake : TlsHandshake Cert, ∃ text, ja3String handshake = .ok text)
      ∧ (∀ left right : TlsHandshake Cert, ∀ first second : List UInt8,
          ja3String left = .ok (some first) → ja3String right = .ok (some second) →
            (first = second ↔ SameJa3 left right))
      ∧ ∀ (handshake : TlsHandshake Cert) (points : CodePoints),
          points.withoutGrease = (codePoints handshake).withoutGrease →
            ja3String (withCodePoints handshake points) = ja3String handshake := by
  refine ⟨fun handshake => ⟨_, ja3String_writes handshake⟩, ?_, ?_⟩
  · intro left right first second leftWritten rightWritten
    rw [ja3String_writes] at leftWritten rightWritten
    obtain ⟨-, leftText⟩ := Option.ite_none_right_eq_some.mp (Except.ok.inj leftWritten)
    obtain ⟨-, rightText⟩ := Option.ite_none_right_eq_some.mp (Except.ok.inj rightWritten)
    rw [← Option.some.inj leftText, ← Option.some.inj rightText,
      intercalate_inj (ja3Fields_plain left) (ja3Fields_plain right) (List.cons_ne_nil _ _)
      (List.cons_ne_nil _ _), ja3Fields_inj]
  · intro handshake points same
    obtain ⟨suites, extensions, groups, -, -⟩ := CodePoints.mk.inj same
    have fields : ja3Fields (withCodePoints handshake points) = ja3Fields handshake :=
      ja3Fields_inj.mpr ⟨rfl, suites, extensions, groups, rfl⟩
    rw [ja3String_writes, ja3String_writes, fields]
    rfl

/-- A hello that offers TLS 1.2 with one suite and one group. -/
def plainHello : TlsHandshake Unit :=
  { hasClientHello := true
    hasClientVersion := true
    clientVersion := 0x0303
    clientCipherSuites := { present := true, values := [0x1301] }
    clientExtensions := { present := true, values := [10] }
    clientSupportedGroups := { present := true, values := [29] } }

/-- GREASE leaves the text of a hello as it was; an older version is told apart. -/
theorem ja3String_identifies_plain
    : ja3String (withCodePoints plainHello ⟨[0x0A0A, 0x1301], [10, 0xFAFA], [29], [], []⟩)
        = ja3String plainHello
      ∧ ¬ SameJa3 plainHello { plainHello with clientVersion := 0x0302 } :=
  ⟨ja3String_identifies.2.2 plainHello _ (by decide),
    fun same => absurd
      ((ja3String_identifies.2.1 plainHello { plainHello with clientVersion := 0x0302 }
        (ascii "771,4865,10,29,") (ascii "770,4865,10,29,") (by rfl) (by rfl)).mpr same)
      (by decide)⟩

end PacketQuapture.Fingerprint
