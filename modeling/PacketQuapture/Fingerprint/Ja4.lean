import PacketQuapture.Fingerprint.Ja3

/-! JA4 ignores order and GREASE, and nothing else of the lists it hashes.
A hashed part is the sorted code points in hexadecimal, joined by commas; sorting forgets the order
and nothing else, and four digits hold no separator.
-/

namespace PacketQuapture.Fingerprint

open Library Text Tls

variable {Cert : Type}
variable {left right : List UInt16} {handshake : TlsHandshake Cert}

/-! ### Code points in hexadecimal -/

theorem digit_inj {left right : Nat} (leftSmall : left < 16) (rightSmall : right < 16)
    : digit left = digit right ↔ left = right := by
  refine ⟨fun same => ?_, congrArg digit⟩
  rw [← digitValue_digit leftSmall, same, digitValue_digit rightSmall]

theorem hex4_eq (value : UInt16)
    : hex4 value
      = [digit (value.toNat / 4096 % 16), digit (value.toNat / 256 % 16),
          digit (value.toNat / 16 % 16), digit (value.toNat % 16)] := by
  have nibble (number : Nat) : number &&& 15 = number % 16 := Nat.and_two_pow_sub_one_eq_mod number 4
  simp only [hex4, UInt16.toNat_and, UInt16.toNat_shiftRight, Nat.shiftRight_eq_div_pow,
    UInt16.reduceToNat, nibble, Nat.reduceMod, Nat.reducePow]

theorem hex4_inj {left right : UInt16} : hex4 left = hex4 right ↔ left = right := by
  refine ⟨fun same => UInt16.toNat_inj.mp ?_, congrArg hex4⟩
  have small (number : Nat) : number % 16 < 16 := Nat.mod_lt _ (by decide)
  rw [hex4_eq, hex4_eq] at same
  simp only [List.cons.injEq, digit_inj (small _) (small _), and_true] at same
  have leftBound := left.toNat_lt
  have rightBound := right.toNat_lt
  omega

theorem mem_hex4 {byte : UInt8} {value : UInt16} (member : byte ∈ hex4 value)
    : ∃ number < 16, byte = digit number := by
  have small (number : Nat) : number % 16 < 16 := Nat.mod_lt _ (by decide)
  rw [hex4_eq] at member
  simp only [List.mem_cons, List.not_mem_nil, or_false] at member
  rcases member with rfl | rfl | rfl | rfl
  all_goals exact ⟨_, small _, rfl⟩

theorem hex4_plain {separator : UInt8} (value : UInt16)
    (foreign : ∀ number < 16, separator ≠ digit number)
    : separator ∉ hex4 value := by
  intro member
  obtain ⟨number, small, same⟩ := mem_hex4 member
  exact foreign number small same

theorem joinValues_follows (values : List UInt16) (out : List UInt8)
    : joinValues values false out = out ++ (values.map hex4).flatMap (44 :: ·) := by
  induction values generalizing out with
  | nil => simp [joinValues]
  | cons value rest ih => simp [joinValues, ih]

theorem joinHex_eq (values : List UInt16) : joinHex values = [44].intercalate (values.map hex4) := by
  cases values with
  | nil => rfl
  | cons value rest =>
    rw [joinHex, joinValues, if_pos rfl, joinValues_follows, List.map_cons, intercalate_cons,
      List.nil_append]

theorem joinHex_inj : joinHex left = joinHex right ↔ left = right := by
  have fielded (values : List UInt16) : ∀ part ∈ values.map hex4, Fielded (44 : UInt8) part := by
    intro part member
    obtain ⟨value, -, rfl⟩ := List.mem_map.mp member
    exact ⟨List.cons_ne_nil _ _, hex4_plain value (by decide)⟩
  have injective : Function.Injective hex4 := fun first second same => hex4_inj.mp same
  rw [joinHex_eq, joinHex_eq, intercalate_fielded_inj (fielded left) (fielded right),
    (List.map_injective_iff.mpr injective).eq_iff]

theorem joinHex_plain (values : List UInt16) : (95 : UInt8) ∉ joinHex values := by
  intro member
  rw [joinHex_eq] at member
  rcases mem_intercalate _ member with same | ⟨part, among, inside⟩
  · exact absurd same (by decide)
  · obtain ⟨value, -, rfl⟩ := List.mem_map.mp among
    exact hex4_plain value (by decide) inside

/-! ### Sorted code points -/

theorem sortCodes_eq_iff
    : sortCodes left = sortCodes right ↔ left.Perm right := by
  have leftPerm : (sortCodes left).Perm left := List.perm_insertionSort _ _
  have rightPerm : (sortCodes right).Perm right := List.perm_insertionSort _ _
  constructor
  · intro same
    exact leftPerm.symm.trans (same ▸ rightPerm)
  · intro perm
    exact (leftPerm.trans (perm.trans rightPerm.symm)).eq_of_pairwise
      (fun _ _ _ _ => UInt16.le_antisymm) (List.pairwise_insertionSort _ _)
      (List.pairwise_insertionSort _ _)

/-! ### Parts -/

/-- The extension types that are hashed. -/
def hashedExtensions (values : List UInt16) : List UInt16 :=
  (withoutGrease values).filter fun type => type ≠ tlsExtensionServerName && type ≠ extensionAlpn

/-- The second part: the sorted extensions, and the signature algorithms when there are some. -/
def secondPart (extensions signatures : List UInt16) : List UInt8 :=
  joinHex (sortCodes extensions)
    ++ if signatures ≠ [] then ascii "_" ++ joinHex signatures else []

theorem secondPart_eq (extensions signatures : List UInt16)
    : secondPart extensions signatures
      = [95].intercalate (joinHex (sortCodes extensions)
          :: if signatures ≠ [] then [joinHex signatures] else []) := by
  rw [secondPart, intercalate_cons]
  split
  case isTrue => simp [ascii]
  case isFalse => simp

/-- The second part is read back: its extensions but for their order, its signatures in order. -/
theorem secondPart_inj {first second : List UInt16}
    : secondPart left first = secondPart right second ↔ left.Perm right ∧ first = second := by
  have plain (extensions signatures : List UInt16)
      : ∀ part ∈ joinHex (sortCodes extensions)
          :: if signatures ≠ [] then [joinHex signatures] else [], (95 : UInt8) ∉ part := by
    intro part member
    rcases List.mem_cons.mp member with rfl | later
    · exact joinHex_plain _
    · split at later
      case isTrue =>
        rw [List.mem_singleton.mp later]
        exact joinHex_plain _
      case isFalse => exact absurd later List.not_mem_nil
  rw [secondPart_eq, secondPart_eq, intercalate_inj (plain left first) (plain right second)
    (List.cons_ne_nil _ _) (List.cons_ne_nil _ _), List.cons.injEq, joinHex_inj, sortCodes_eq_iff]
  refine and_congr_right fun _ => ⟨fun same => ?_, fun same => by rw [same]⟩
  -- an empty list leaves no field, so both lists are empty or both are joined
  split at same
  case isTrue =>
    split at same
    case isTrue => exact joinHex_inj.mp (List.singleton_inj.mp same)
    case isFalse => exact absurd same (List.cons_ne_nil _ _)
  case isFalse leftEmpty =>
    split at same
    case isTrue => exact absurd same.symm (List.cons_ne_nil _ _)
    case isFalse rightEmpty => rw [not_not.mp leftEmpty, not_not.mp rightEmpty]

/-- What the parts of a JA4 fingerprint need of the hello. -/
def Ja4Ready (handshake : TlsHandshake Cert) : Prop :=
  handshake.hasClientHello ∧ handshake.hasClientVersion ∧ handshake.clientCipherSuites.present
    ∧ handshake.clientExtensions.present ∧ known handshake.clientSupportedVersions
    ∧ known handshake.clientSignatureAlgorithms ∧ known handshake.clientAlpn

instance (handshake : TlsHandshake Cert) : Decidable (Ja4Ready handshake) := by
  unfold Ja4Ready
  infer_instance

theorem ja4Strings_eq (handshake : TlsHandshake Cert)
    : ja4Strings handshake
      = if Ja4Ready handshake then
          (offeredVersion handshake).map fun version =>
            { prefixText := prefixOf handshake version
              first := joinHex (sortCodes (withoutGrease handshake.clientCipherSuites.values))
              second := secondPart (hashedExtensions handshake.clientExtensions.values)
                (withoutGrease handshake.clientSignatureAlgorithms.values) }
        else none := by
  unfold ja4Strings
  by_cases ready : Ja4Ready handshake
  · rw [if_pos ready]
    obtain ⟨hello, version, suites, extensions, versions, signatures, alpn⟩ := ready
    rw [if_neg (by simp [hello, version, suites, extensions, versions, signatures, alpn])]
    rfl
  · rw [if_neg ready, if_pos]
    simpa only [Ja4Ready, not_and_or] using ready

theorem ja4Strings_parts {parts : Ja4Parts} (written : ja4Strings handshake = some parts)
    : parts.first = joinHex (sortCodes (withoutGrease handshake.clientCipherSuites.values))
      ∧ parts.second = secondPart (hashedExtensions handshake.clientExtensions.values)
          (withoutGrease handshake.clientSignatureAlgorithms.values) := by
  rw [ja4Strings_eq] at written
  obtain ⟨-, mapped⟩ := Option.ite_none_right_eq_some.mp written
  obtain ⟨version, -, rfl⟩ := Option.map_eq_some_iff.mp mapped
  exact ⟨rfl, rfl⟩

/-- Code points that JA4 cannot tell from those of a hello. -/
structure Ja4Alike (points others : CodePoints) : Prop where
  cipherSuites : (withoutGrease points.cipherSuites).Perm (withoutGrease others.cipherSuites)
  extensions : (withoutGrease points.extensions).Perm (withoutGrease others.extensions)
  signatureAlgorithms
    : withoutGrease points.signatureAlgorithms = withoutGrease others.signatureAlgorithms
  supportedVersions
    : withoutGrease points.supportedVersions = withoutGrease others.supportedVersions

theorem prefixOf_withCodePoints {points : CodePoints}
    (alike : Ja4Alike points (codePoints handshake)) (version : UInt16)
    : prefixOf (withCodePoints handshake points) version = prefixOf handshake version := by
  have named : tlsExtensionServerName
        ∈ withoutGrease (withCodePoints handshake points).clientExtensions.values
      ↔ tlsExtensionServerName ∈ withoutGrease handshake.clientExtensions.values :=
    alike.extensions.mem_iff
  have suites : (withoutGrease (withCodePoints handshake points).clientCipherSuites.values).length
      = (withoutGrease handshake.clientCipherSuites.values).length :=
    alike.cipherSuites.length_eq
  have extensions
      : (withoutGrease (withCodePoints handshake points).clientExtensions.values).length
        = (withoutGrease handshake.clientExtensions.values).length :=
    alike.extensions.length_eq
  rw [prefixOf, prefixOf, if_congr named rfl rfl, suites, extensions]
  rfl

theorem ja4Strings_withCodePoints {points : CodePoints}
    (alike : Ja4Alike points (codePoints handshake))
    : ja4Strings (withCodePoints handshake points) = ja4Strings handshake := by
  have offered : offeredVersion (withCodePoints handshake points) = offeredVersion handshake := by
    have versions : withoutGrease points.supportedVersions
        = withoutGrease handshake.clientSupportedVersions.values := alike.supportedVersions
    simp only [offeredVersion, withCodePoints, versions]
  have first : sortCodes (withoutGrease (withCodePoints handshake points).clientCipherSuites.values)
      = sortCodes (withoutGrease handshake.clientCipherSuites.values) :=
    sortCodes_eq_iff.mpr alike.cipherSuites
  have second : secondPart
        (hashedExtensions (withCodePoints handshake points).clientExtensions.values)
        (withoutGrease (withCodePoints handshake points).clientSignatureAlgorithms.values)
      = secondPart (hashedExtensions handshake.clientExtensions.values)
          (withoutGrease handshake.clientSignatureAlgorithms.values) :=
    secondPart_inj.mpr ⟨alike.extensions.filter _, alike.signatureAlgorithms⟩
  rw [ja4Strings_eq, ja4Strings_eq, offered, first, second]
  simp only [prefixOf_withCodePoints alike]
  rfl

/-- First parts are equal exactly when the suites but for GREASE and order are, second parts
exactly when the hashed extension types are but for order and the signature algorithms in order;
and reordered suites or extension types, or GREASE in any list of code points, change neither the
outcome nor any part.
Witness: the joined digits are read back, and two lists sort alike exactly when they are
permutations of each other.
-/
theorem ja4Strings_identifies
    : (∀ left right : TlsHandshake Cert, ∀ first second : Ja4Parts,
        ja4Strings left = some first → ja4Strings right = some second →
          (first.first = second.first
            ↔ (withoutGrease left.clientCipherSuites.values).Perm
                (withoutGrease right.clientCipherSuites.values))
          ∧ (first.second = second.second
            ↔ (hashedExtensions left.clientExtensions.values).Perm
                (hashedExtensions right.clientExtensions.values)
              ∧ withoutGrease left.clientSignatureAlgorithms.values
                = withoutGrease right.clientSignatureAlgorithms.values))
      ∧ ∀ (handshake : TlsHandshake Cert) (points : CodePoints),
          Ja4Alike points (codePoints handshake) →
            ja4Strings (withCodePoints handshake points) = ja4Strings handshake := by
  refine ⟨?_, fun handshake points => ja4Strings_withCodePoints⟩
  intro left right first second leftWritten rightWritten
  obtain ⟨leftFirst, leftSecond⟩ := ja4Strings_parts leftWritten
  obtain ⟨rightFirst, rightSecond⟩ := ja4Strings_parts rightWritten
  rw [leftFirst, rightFirst, joinHex_inj, sortCodes_eq_iff, leftSecond, rightSecond, secondPart_inj]
  exact ⟨Iff.rfl, Iff.rfl⟩

/-- Two suites in either order, with GREASE or without, are one to JA4; a further extension is
told apart.
-/
theorem ja4Strings_identifies_plain
    : ja4Strings (withCodePoints
          (withCodePoints plainHello ⟨[0x1301, 0x1302], [10], [29], [], []⟩)
          ⟨[0x1302, 0x0A0A, 0x1301], [10, 0xFAFA], [29], [0x2A2A], []⟩)
        = ja4Strings (withCodePoints plainHello ⟨[0x1301, 0x1302], [10], [29], [], []⟩)
      ∧ ¬ (hashedExtensions [10]).Perm (hashedExtensions [10, 11]) := by
  refine ⟨ja4Strings_identifies.2 _ _ ⟨by decide, by decide, by decide, by decide⟩, fun perm => ?_⟩
  have told := (ja4Strings_identifies.1 plainHello
    (withCodePoints plainHello ⟨[0x1301], [10, 11], [29], [], []⟩)
    ⟨ascii "t12i010100", ascii "1301", ascii "000a"⟩
    ⟨ascii "t12i010200", ascii "1301", ascii "000a,000b"⟩ (by rfl) (by rfl)).2
  exact absurd (told.mpr ⟨perm, rfl⟩) (by decide)

end PacketQuapture.Fingerprint
