import PacketQuapture.Tls.Encoding

/-! What the list readers report for any bytes.
Each list has an encoding; a reader reports the list the bytes encode, or that they encode a list
over the limit, or that they encode none.
-/

namespace PacketQuapture.Tls

open Library Reassembly

variable {reader : TlsReader}

/-! ### Numbers -/

namespace TlsReader

/-- Reading two bytes overruns, or they are the number read. -/
theorem u16_cases (bytes : List UInt8)
    : ({ rest := bytes } : TlsReader).u16.2.overrun = true ∧ bytes.length < 2
      ∨ ∃ value rest, bytes = bytes16 (UInt16.toNat value) ++ rest
        ∧ ({ rest := bytes } : TlsReader).u16 = (value, { rest }) := by
  match bytes with
  | [] => exact .inl ⟨rfl, by decide⟩
  | [_] => exact .inl ⟨rfl, Nat.lt_succ_self _⟩
  | high :: low :: rest =>
    refine .inr ⟨UInt16.ofNat (high.toNat * 256 + low.toNat), rest, ?_⟩
    have bounds := And.intro (UInt8.toNat_lt high) (UInt8.toNat_lt low)
    have written : bytes16 (high.toNat * 256 + low.toNat) = [high, low] := by
      rw [bytes16, show (high.toNat * 256 + low.toNat) / 256 = high.toNat by omega,
        UInt8.ofNat_toNat]
      congr
      refine UInt8.toNat.inj ?_
      rw [UInt8.toNat_ofNat']
      omega
    have back := u16_bytes16 (high.toNat * 256 + low.toNat) rest
    rw [written] at back
    refine ⟨?_, back⟩
    rw [UInt16.toNat_ofNat_of_lt' (show _ < 2 ^ 16 by omega), written]
    rfl

/-- Reading three bytes overruns, or they are the number read. -/
theorem u24_cases (bytes : List UInt8)
    : ({ rest := bytes } : TlsReader).u24.2.overrun = true ∧ bytes.length < 3
      ∨ ∃ value rest, value < 2 ^ 24 ∧ bytes = bytes24 value ++ rest
        ∧ ({ rest := bytes } : TlsReader).u24 = (value, { rest }) := by
  match bytes with
  | [] => exact .inl ⟨rfl, by decide⟩
  | [_] => exact .inl ⟨rfl, by simp⟩
  | [_, _] => exact .inl ⟨rfl, by simp⟩
  | high :: mid :: low :: rest =>
    have bounds := And.intro (UInt8.toNat_lt high) (And.intro (UInt8.toNat_lt mid)
      (UInt8.toNat_lt low))
    have fits : (high.toNat * 256 + mid.toNat) * 256 + low.toNat < 2 ^ 24 := by omega
    have written : bytes24 ((high.toNat * 256 + mid.toNat) * 256 + low.toNat)
        = [high, mid, low] := by
      have top : UInt8.ofNat (((high.toNat * 256 + mid.toNat) * 256 + low.toNat) / 65536)
          = high := by
        rw [show ((high.toNat * 256 + mid.toNat) * 256 + low.toNat) / 65536 = high.toNat by omega,
          UInt8.ofNat_toNat]
      have middle : UInt8.ofNat (((high.toNat * 256 + mid.toNat) * 256 + low.toNat) / 256)
          = mid := by
        refine UInt8.toNat.inj ?_
        rw [UInt8.toNat_ofNat']
        omega
      have bottom : UInt8.ofNat ((high.toNat * 256 + mid.toNat) * 256 + low.toNat) = low := by
        refine UInt8.toNat.inj ?_
        rw [UInt8.toNat_ofNat']
        omega
      rw [bytes24, bytes16, top, middle, bottom]
    refine .inr ⟨_, rest, fits, ?_, ?_⟩
    · rw [written]
      rfl
    · have back := u24_bytes24 fits rest
      rwa [written] at back

theorem take_short {count : Nat} (short : reader.remaining < count)
    : reader.take count = (none, reader.fail) :=
  if_pos short

theorem sub_short {count : Nat} (short : reader.remaining < count)
    : reader.sub count = (none, reader.fail) := by
  rw [sub, take_short short]
  rfl

end TlsReader

/-! ### Vectors -/

/-- Bytes after their count, which takes one or two bytes. -/
def encodeVector (lengthBytes : Nat) (bytes : List UInt8) : List UInt8 :=
  (if lengthBytes = 1 then [UInt8.ofNat bytes.length] else bytes16 bytes.length) ++ bytes

/-- The counts that fit. -/
def vectorLimit (lengthBytes : Nat) : Nat := if lengthBytes = 1 then 2 ^ 8 else 2 ^ 16

/-- The body is a vector of these bytes and nothing else. -/
def IsVector (lengthBytes : Nat) (bytes body : List UInt8) : Prop :=
  bytes.length < vectorLimit lengthBytes ∧ body = encodeVector lengthBytes bytes

section Vectors

variable {lengthBytes : Nat} {bytes other rest following : List UInt8}

theorem TlsReader.length_encodeVector (fits : bytes.length < vectorLimit lengthBytes)
    (rest : List UInt8)
    : ({ rest := encodeVector lengthBytes bytes ++ rest } : TlsReader).length lengthBytes
      = (bytes.length, { rest := bytes ++ rest }) := by
  rw [encodeVector, List.append_assoc]
  by_cases one : lengthBytes = 1
  · subst one
    rw [if_pos rfl, List.singleton_append, length_one, UInt8.toNat_ofNat_of_lt' fits]
  · rw [vectorLimit, if_neg one] at fits
    rw [if_neg one, length, if_neg one, u16_bytes16, UInt16.toNat_ofNat_of_lt' fits]

/-- A vector and what follows it are determined by their bytes. -/
theorem encodeVector_inj (fits : bytes.length < vectorLimit lengthBytes)
    (others : other.length < vectorLimit lengthBytes)
    (same : encodeVector lengthBytes bytes ++ rest = encodeVector lengthBytes other ++ following)
    : bytes = other ∧ rest = following := by
  have read := TlsReader.length_encodeVector fits rest
  rw [same, TlsReader.length_encodeVector others, Prod.mk.injEq, TlsReader.mk.injEq] at read
  have swapped := List.append_inj read.2.1 read.1
  exact ⟨swapped.1.symm, swapped.2.symm⟩

theorem IsVector.unique {body : List UInt8} (left : IsVector lengthBytes bytes body)
    (right : IsVector lengthBytes other body)
    : bytes = other := by
  have same := left.2.symm.trans right.2
  rw [← List.append_nil (encodeVector lengthBytes bytes),
    ← List.append_nil (encodeVector lengthBytes other)] at same
  exact (encodeVector_inj left.1 right.1 same).1

theorem TlsReader.length_cases (lengthBytes : Nat) (bytes : List UInt8)
    : (({ rest := bytes } : TlsReader).length lengthBytes).2.overrun = true
      ∨ ∃ count rest, count < vectorLimit lengthBytes
        ∧ bytes = (if lengthBytes = 1 then [UInt8.ofNat count] else bytes16 count) ++ rest
        ∧ ({ rest := bytes } : TlsReader).length lengthBytes = (count, { rest }) := by
  by_cases one : lengthBytes = 1
  · subst one
    cases bytes with
    | nil => exact .inl rfl
    | cons byte rest =>
      refine .inr ⟨byte.toNat, rest, UInt8.toNat_lt byte, ?_, length_one byte rest⟩
      rw [if_pos rfl, UInt8.ofNat_toNat, List.singleton_append]
  · rw [length, if_neg one]
    rcases u16_cases bytes with ⟨cut, _⟩ | ⟨value, rest, written, read⟩
    · exact .inl cut
    · refine .inr ⟨value.toNat, rest, ?_, ?_, by rw [read]⟩
      · rw [vectorLimit, if_neg one]
        exact UInt16.toNat_lt value
      · rw [if_neg one]
        exact written

theorem TlsReader.vector_cases (lengthBytes : Nat) (bytes : List UInt8)
    : (∃ inner rest, inner.length < vectorLimit lengthBytes
        ∧ bytes = encodeVector lengthBytes inner ++ rest)
      ∨ (({ rest := bytes } : TlsReader).length lengthBytes).2.overrun = true
      ∨ (({ rest := bytes } : TlsReader).length lengthBytes).2.overrun = false
        ∧ (({ rest := bytes } : TlsReader).length lengthBytes).2.remaining
          < (({ rest := bytes } : TlsReader).length lengthBytes).1 := by
  rcases length_cases lengthBytes bytes with cut | ⟨count, rest, fits, written, read⟩
  · exact .inr (.inl cut)
  · by_cases short : rest.length < count
    · rw [read]
      exact .inr (.inr ⟨rfl, short⟩)
    · have size : (rest.take count).length = count := by
        rw [List.length_take, Nat.min_eq_left (Nat.le_of_not_lt short)]
      refine .inl ⟨rest.take count, rest.drop count, size.symm ▸ fits, ?_⟩
      rw [encodeVector, size, List.append_assoc, List.take_append_drop]
      exact written

/-- The body is a vector, or what follows the count is not what it announces. -/
theorem TlsReader.vector_exact (lengthBytes : Nat) (body : List UInt8)
    : (∃ inner, IsVector lengthBytes inner body
        ∧ ({ rest := body } : TlsReader).length lengthBytes = (inner.length, { rest := inner }))
      ∨ ((({ rest := body } : TlsReader).length lengthBytes).2.overrun = true
          ∨ (({ rest := body } : TlsReader).length lengthBytes).2.remaining
            ≠ (({ rest := body } : TlsReader).length lengthBytes).1)
        ∧ ∀ inner, ¬ IsVector lengthBytes inner body := by
  have reads {inner : List UInt8} (vector : IsVector lengthBytes inner body)
      : ({ rest := body } : TlsReader).length lengthBytes = (inner.length, { rest := inner }) := by
    have read := length_encodeVector vector.1 []
    rwa [List.append_nil, List.append_nil, ← vector.2] at read
  by_cases vector : ∃ inner, IsVector lengthBytes inner body
  · obtain ⟨inner, vector⟩ := vector
    exact .inl ⟨inner, vector, reads vector⟩
  · refine .inr ⟨?_, not_exists.mp vector⟩
    rcases length_cases lengthBytes body with cut | ⟨count, rest, fits, written, read⟩
    · exact .inl cut
    · refine .inr fun whole => vector ⟨rest, ?_⟩
      rw [read] at whole
      have size : rest.length = count := whole
      exact ⟨size.symm ▸ fits, by rw [encodeVector, size]; exact written⟩

end Vectors

/-! ### Reported lists -/

variable {α : Type}

/-- A list reported in full. -/
def TlsList.listed (values : List α) : TlsList α := { present := true, values }

/-- The list reported for the bodies of one kind that a hello carries: none of them, the only one's
values, a limit or a failure of the only one, or that there are several.
-/
inductive Reported (cap : Nat) (Encodes : List α → List UInt8 → Prop)
    : List (List UInt8) → TlsList α → Prop
  | absent : Reported cap Encodes [] {}
  | present {values : List α} {body : List UInt8} (encodes : Encodes values body)
    (within : values.length ≤ cap)
    : Reported cap Encodes [body] (.listed values)
  | excessive {values : List α} {body : List UInt8} (encodes : Encodes values body)
    (beyond : cap < values.length)
    : Reported cap Encodes [body] .excessive
  | malformed {body : List UInt8} (unwritten : ∀ values, ¬ Encodes values body)
    : Reported cap Encodes [body] .broken
  | repeated {bodies : List (List UInt8)} (several : 2 ≤ bodies.length)
    : Reported cap Encodes bodies .broken

namespace Reported

variable {cap : Nat} {Encodes : List α → List UInt8 → Prop} {bodies : List (List UInt8)}
variable {list : TlsList α}

theorem seen_iff (reported : Reported cap Encodes bodies list)
    : list.seen = true ↔ bodies ≠ [] := by
  cases reported with
  | absent => simp [TlsList.seen]
  | present => simp [TlsList.seen, TlsList.listed]
  | excessive => simp [TlsList.seen, TlsList.excessive]
  | malformed => simp [TlsList.seen, TlsList.broken]
  | repeated several =>
    have some_body : bodies ≠ [] := by
      rintro rfl
      exact absurd several (by decide)
    simp [TlsList.seen, TlsList.broken, some_body]

theorem eq_listed {values : List α} {body : List UInt8}
    (reported : Reported cap Encodes [body] list)
    (unique : ∀ others, Encodes others body → others = values) (encodes : Encodes values body)
    (within : values.length ≤ cap)
    : list = .listed values := by
  cases reported with
  | present written _ => rw [unique _ written]
  | excessive written beyond =>
    rw [unique _ written] at beyond
    exact absurd within (Nat.not_le_of_lt beyond)
  | malformed unwritten => exact absurd encodes (unwritten values)
  | repeated several => exact absurd several (by simp)

theorem of_overLimit {body : List UInt8} (reported : Reported cap Encodes (bodies ++ [body]) list)
    (limit : list.overLimit = true)
    : ∃ values, Encodes values body ∧ cap < values.length := by
  generalize whole : bodies ++ [body] = all at reported
  cases reported with
  | @excessive values only encodes beyond =>
    obtain rfl : body = only := (List.append_eq_singleton_iff.mp whole).elim
      (fun last => by simpa using last.2) (fun first => by simp at first)
    exact ⟨values, encodes, beyond⟩
  | _ => cases limit

end Reported

/-- What a reader makes of one body: its list, and the limit recorded when it is exceeded. -/
structure ListRead.Reads (Encodes : List α → List UInt8 → Prop) (body : List UInt8)
    (budget : ListBudget) (read : ListRead α)
    : Prop where
  reported : Reported budget.capEntries Encodes [body] read.list
  budget_eq : read.budget = if read.list.overLimit then budget.exceed else budget

namespace ListRead.Reads

variable {Encodes : List α → List UInt8 → Prop} {body : List UInt8} {budget : ListBudget}

theorem broken {sound : Bool} (unwritten : ∀ values, ¬ Encodes values body)
    : ListRead.Reads Encodes body budget { sound, reader, budget, list := .broken } :=
  ⟨.malformed unwritten, rfl⟩

theorem excessive {values : List α} (encodes : Encodes values body)
    (beyond : budget.capEntries < values.length)
    : ListRead.Reads Encodes body budget
        { reader, budget := budget.exceed, list := .excessive } :=
  ⟨.excessive encodes beyond, rfl⟩

theorem listed {values : List α} (encodes : Encodes values body)
    (within : values.length ≤ budget.capEntries)
    : ListRead.Reads Encodes body budget
        { reader, budget, list := { present := true, values } } :=
  ⟨.present encodes within, rfl⟩

end ListRead.Reads

/-- A list read unless it was seen before is reported for one body more. -/
theorem unlessDuplicate_reports {Encodes : List α → List UInt8 → Prop} {body : List UInt8}
    {bodies : List (List UInt8)} {budget : ListBudget} {list : TlsList α}
    {read : Except TlsFailure (ListRead α)}
    (before : Reported budget.capEntries Encodes bodies list)
    (reads : ∃ result, read = .ok result ∧ result.Reads Encodes body budget)
    : ∃ result, unlessDuplicate budget list read = .ok result
        ∧ Reported budget.capEntries Encodes (bodies ++ [body]) result.2
        ∧ result.1 = if result.2.overLimit then budget.exceed else budget := by
  unfold unlessDuplicate
  split
  case isTrue seen =>
    refine ⟨_, rfl, .repeated ?_, rfl⟩
    have occupied := List.length_pos_of_ne_nil (before.seen_iff.mp seen)
    rw [List.length_append, List.length_singleton]
    omega
  case isFalse unseen =>
    obtain ⟨result, rfl, reads⟩ := reads
    have none : bodies = [] := by
      by_contra some_body
      exact unseen (before.seen_iff.mpr some_body)
    refine ⟨_, rfl, ?_, reads.budget_eq⟩
    rw [none]
    exact reads.reported

/-! ### Code points -/

def encodeCodes (codes : List UInt16) : List UInt8 :=
  codes.flatMap fun code => bytes16 code.toNat

/-- The body is a vector of these code points. -/
def EncodesCodes (lengthBytes : Nat) (codes : List UInt16) (body : List UInt8) : Prop :=
  IsVector lengthBytes (encodeCodes codes) body

theorem length_encodeCodes (codes : List UInt16)
    : (encodeCodes codes).length = 2 * codes.length := by
  induction codes with
  | nil => rfl
  | cons code rest ih =>
    rw [encodeCodes, List.flatMap_cons, List.length_append, List.length_cons]
    rw [encodeCodes] at ih
    rw [ih, bytes16, List.length_cons, List.length_singleton]
    omega

/-- The loop over code points reads them all back.
Witness: induction on the codes; a pass takes the two bytes of one.
-/
theorem codesLoop_encodeCodes {codes : List UInt16} {fuel : Nat} (enough : codes.length < fuel)
    (before : List UInt16)
    : codesLoop fuel { rest := encodeCodes codes } before
      = .ok ({ rest := [] }, before ++ codes) := by
  induction codes generalizing fuel before with
  | nil =>
    obtain ⟨fuel, rfl⟩ := Nat.exists_eq_succ_of_ne_zero (Nat.ne_of_gt enough)
    rw [codesLoop, if_neg (by simp [TlsReader.remaining, encodeCodes]), List.append_nil]
    rfl
  | cons code rest ih =>
    obtain ⟨fuel, rfl⟩ := Nat.exists_eq_succ_of_ne_zero
      (Nat.ne_of_gt (Nat.zero_lt_of_lt enough))
    have written : encodeCodes (code :: rest) = bytes16 code.toNat ++ encodeCodes rest := rfl
    rw [codesLoop, if_pos (by simp [TlsReader.remaining, written, bytes16]), written,
      TlsReader.u16_bytes16, UInt16.ofNat_toNat, ih (Nat.lt_of_succ_lt_succ enough),
      List.append_assoc, List.singleton_append]

theorem encodeCodes_injective : Function.Injective encodeCodes := by
  intro left right same
  have sizes : left.length = right.length := by
    have lengths := congrArg List.length same
    rw [length_encodeCodes, length_encodeCodes] at lengths
    omega
  have read := codesLoop_encodeCodes (Nat.lt_succ_self left.length) []
  rw [same, codesLoop_encodeCodes (sizes ▸ Nat.lt_succ_self right.length)] at read
  exact (Prod.mk.inj (Except.ok.inj read)).2.symm

theorem exists_encodeCodes {bytes : List UInt8} (even : bytes.length % 2 = 0)
    : ∃ codes, bytes = encodeCodes codes := by
  induction size : bytes.length using Nat.strongRecOn generalizing bytes with
  | _ _ ih =>
    rcases TlsReader.u16_cases bytes with ⟨_, short⟩ | ⟨code, rest, rfl, _⟩
    · have none : bytes = [] := List.length_eq_zero_iff.mp (by omega)
      exact ⟨[], none⟩
    · have sizes : (bytes16 code.toNat ++ rest).length = rest.length + 2 := by simp [bytes16]
      obtain ⟨codes, rfl⟩ := ih rest.length (by omega) (by omega) rfl
      exact ⟨code :: codes, rfl⟩

theorem EncodesCodes.unique {lengthBytes : Nat} {codes others : List UInt16} {body : List UInt8}
    (left : EncodesCodes lengthBytes others body) (right : EncodesCodes lengthBytes codes body)
    : others = codes :=
  encodeCodes_injective (IsVector.unique left right)

/-- What reading code points leaves: the bytes start with no vector, or one is consumed and what it
holds reported; in an extension nothing may follow it.
-/
inductive CodesRead (lengthBytes : Nat) (exactly : Bool) (bytes : List UInt8) (budget : ListBudget)
    (read : ListRead UInt16)
    : Prop
  | unframed (unsound : read.sound = false) (list : read.list = .broken)
    (kept : read.budget = budget)
    (unwritten : ∀ inner rest, inner.length < vectorLimit lengthBytes →
      bytes ≠ encodeVector lengthBytes inner ++ rest)
    : CodesRead lengthBytes exactly bytes budget read
  | framed {inner rest : List UInt8} (sound : read.sound = true)
    (fits : inner.length < vectorLimit lengthBytes)
    (written : bytes = encodeVector lengthBytes inner ++ rest) (reader : read.reader = { rest })
    (trailing : exactly = true → rest ≠ [] → read.list = .broken ∧ read.budget = budget)
    (alone : (exactly = true → rest = []) →
      read.Reads (EncodesCodes lengthBytes) (encodeVector lengthBytes inner) budget)
    : CodesRead lengthBytes exactly bytes budget read

/-- Reading codes reports the list they encode. -/
theorem readCodes_reads (lengthBytes : Nat) (exactly : Bool) (bytes : List UInt8)
    (budget : ListBudget)
    : ∃ read, readCodes { rest := bytes } lengthBytes exactly budget = .ok read
        ∧ CodesRead lengthBytes exactly bytes budget read := by
  have unframed (cut : (({ rest := bytes } : TlsReader).length lengthBytes).2.overrun = true
      ∨ (({ rest := bytes } : TlsReader).length lengthBytes).2.remaining
          < (({ rest := bytes } : TlsReader).length lengthBytes).1)
      : ∀ inner rest, inner.length < vectorLimit lengthBytes →
        bytes ≠ encodeVector lengthBytes inner ++ rest := by
    rintro inner rest fits rfl
    rw [TlsReader.length_encodeVector fits] at cut
    rcases cut with cut | cut
    · cases cut
    · simp [TlsReader.remaining] at cut
  unfold readCodes
  dsimp only
  rcases TlsReader.vector_cases lengthBytes bytes with ⟨inner, rest, fits, rfl⟩ | cut | ⟨whole, cut⟩
  · rw [TlsReader.length_encodeVector fits]
    dsimp only
    rw [if_neg Bool.false_ne_true, TlsReader.sub_append]
    dsimp only
    have notCodes (odd : inner.length % 2 ≠ 0) (values : List UInt16)
        : ¬ EncodesCodes lengthBytes values (encodeVector lengthBytes inner) := by
      intro encodes
      obtain rfl := IsVector.unique (⟨fits, rfl⟩ : IsVector lengthBytes inner _) encodes
      rw [length_encodeCodes] at odd
      omega
    split
    case isTrue wrong =>
      refine ⟨_, rfl, .framed rfl fits rfl rfl (fun _ _ => ⟨rfl, rfl⟩) ?_⟩
      intro alone
      refine .broken (notCodes ?_)
      rcases wrong with odd | ⟨exact_, more⟩
      · exact odd
      · exact absurd (by rw [alone exact_]; rfl) more
    case isFalse right =>
      obtain ⟨even, ends⟩ := not_or.mp right
      obtain ⟨codes, rfl⟩ := exists_encodeCodes (not_not.mp even)
      have encodes : EncodesCodes lengthBytes codes (encodeVector lengthBytes (encodeCodes codes)) :=
        ⟨fits, rfl⟩
      have ended (exact_ : exactly = true) : rest = [] := by
        by_contra more
        refine ends ⟨exact_, ?_⟩
        simpa [TlsReader.remaining] using more
      have half : (encodeCodes codes).length / 2 = codes.length := by
        rw [length_encodeCodes]
        omega
      rw [half]
      split
      case isTrue beyond =>
        exact ⟨_, rfl, .framed rfl fits rfl rfl (fun exact_ more => absurd (ended exact_) more)
          fun _ => .excessive encodes beyond⟩
      case isFalse within =>
        have enough : codes.length < (encodeCodes codes).length + 1 := by
          rw [length_encodeCodes]
          omega
        rw [show ({ rest := encodeCodes codes } : TlsReader).remaining
          = (encodeCodes codes).length from rfl, codesLoop_encodeCodes enough, ok_bind]
        dsimp only
        rw [require_eq_ok _ Bool.false_ne_true, ok_bind, List.nil_append,
          require_eq_ok _ (Nat.le_of_not_lt within), ok_bind]
        exact ⟨_, rfl, .framed rfl fits rfl rfl (fun exact_ more => absurd (ended exact_) more)
          fun _ => .listed encodes (Nat.le_of_not_lt within)⟩
  · rw [if_pos cut]
    exact ⟨_, rfl, .unframed rfl rfl rfl (unframed (.inl cut))⟩
  · rw [if_neg (by simp [whole]), TlsReader.sub_short cut]
    exact ⟨_, rfl, .unframed rfl rfl rfl (unframed (.inr cut))⟩

/-- In an extension body the code points are a list of the whole body. -/
theorem readCodes_exactly (lengthBytes : Nat) (body : List UInt8) (budget : ListBudget)
    : ∃ read, readCodes { rest := body } lengthBytes true budget = .ok read
        ∧ read.Reads (EncodesCodes lengthBytes) body budget := by
  obtain ⟨read, returned, reads⟩ := readCodes_reads lengthBytes true body budget
  refine ⟨read, returned, ?_⟩
  cases reads with
  | unframed _ list kept unwritten =>
    refine ⟨?_, by rw [kept, list]; rfl⟩
    rw [list]
    refine .malformed fun values encodes => unwritten _ [] encodes.1 ?_
    rw [List.append_nil]
    exact encodes.2
  | @framed inner rest _ fits written _ trailing alone =>
    by_cases ended : rest = []
    · rw [ended, List.append_nil] at written
      rw [written]
      exact alone fun _ => ended
    · obtain ⟨list, kept⟩ := trailing rfl ended
      refine ⟨?_, by rw [kept, list]; rfl⟩
      rw [list]
      refine .malformed fun values encodes => ended ?_
      have same := written.symm.trans encodes.2
      rw [← List.append_nil (encodeVector lengthBytes (encodeCodes values))] at same
      exact (encodeVector_inj fits encodes.1 same).2

/-! ### Point formats -/

/-- The body is a vector of these point formats. -/
def EncodesFormats (formats body : List UInt8) : Prop := IsVector 1 formats body

/-- Reading point formats reports the list they encode. -/
theorem readPointFormats_reads (body : List UInt8) (budget : ListBudget)
    : ∃ read, readPointFormats { rest := body } budget = .ok read
        ∧ read.Reads EncodesFormats body budget := by
  unfold readPointFormats
  dsimp only
  rcases TlsReader.vector_exact 1 body with ⟨formats, vector, read⟩ | ⟨wrong, unwritten⟩
  · rw [read]
    dsimp only
    rw [if_neg (by simp [TlsReader.remaining])]
    have taken : ({ rest := formats } : TlsReader).take formats.length
        = (some formats, { rest := [] }) := by
      have all := TlsReader.take_append formats []
      rwa [List.append_nil] at all
    split
    case isTrue beyond => exact ⟨_, rfl, .excessive vector beyond⟩
    case isFalse within =>
      rw [taken]
      dsimp only
      rw [require_eq_ok _ (Nat.le_of_not_lt within), ok_bind]
      exact ⟨_, rfl, .listed vector (Nat.le_of_not_lt within)⟩
  · rw [if_pos wrong]
    exact ⟨_, rfl, .broken unwritten⟩

/-! ### Protocol names -/

/-- A name that a one-byte count can precede, and not an empty one. -/
def IsProtocol (name : List UInt8) : Prop := name ≠ [] ∧ name.length < 2 ^ 8

def encodeNames (names : List (List UInt8)) : List UInt8 := names.flatMap (encodeVector 1)

/-- The body is a vector of these protocol names; a server selects exactly one. -/
structure EncodesNames (client : Bool) (names : List (List UInt8)) (body : List UInt8) : Prop where
  vector : IsVector 2 (encodeNames names) body
  protocols : ∀ name ∈ names, IsProtocol name
  some_name : names ≠ []
  selected : client = false → names.length = 1

theorem encodeNames_cons (name : List UInt8) (names : List (List UInt8))
    : encodeNames (name :: names) = UInt8.ofNat name.length :: (name ++ encodeNames names) := by
  rw [encodeNames, List.flatMap_cons, encodeVector, if_pos rfl]
  rfl

theorem encodeNames_inj {left right : List (List UInt8)} (lefts : ∀ name ∈ left, IsProtocol name)
    (rights : ∀ name ∈ right, IsProtocol name) (same : encodeNames left = encodeNames right)
    : left = right := by
  induction left generalizing right with
  | nil =>
    cases right with
    | nil => rfl
    | cons name names =>
      rw [encodeNames_cons] at same
      cases same
  | cons name names ih =>
    cases right with
    | nil =>
      rw [encodeNames_cons] at same
      cases same
    | cons other others =>
      obtain ⟨rfl, rest⟩ := encodeVector_inj (lefts name List.mem_cons_self).2
        (rights other List.mem_cons_self).2 same
      rw [ih (fun name member => lefts name (List.mem_cons_of_mem _ member))
        (fun name member => rights name (List.mem_cons_of_mem _ member)) rest]

/-- The loop over protocol names finds broken framing, or counts the names the bytes encode and
keeps those within the cap.
Witness: induction on the fuel; a pass takes at least the byte of the length.
-/
theorem alpnLoop_reads (cap : Nat) {fuel : Nat} {bytes : List UInt8} (enough : bytes.length < fuel)
    {count : Nat} (protocols : List (List UInt8))
    : ∃ after found, alpnLoop cap fuel { rest := bytes } count protocols = .ok (after, found)
        ∧ (found = none
            ∧ (∀ names, (∀ name ∈ names, IsProtocol name) → bytes ≠ encodeNames names)
          ∨ after.overrun = false ∧ ∃ names, (∀ name ∈ names, IsProtocol name)
            ∧ bytes = encodeNames names
            ∧ found = some (count + names.length, protocols ++ names.take (cap - count))) := by
  induction fuel generalizing bytes count protocols with
  | zero => exact absurd enough (Nat.not_lt_zero _)
  | succ fuel ih =>
    unfold alpnLoop
    cases bytes with
    | nil =>
      refine ⟨{ rest := [] }, some (count, protocols),
        if_neg (by simp [TlsReader.remaining]), .inr ⟨rfl, [], ?_, rfl, ?_⟩⟩
      · exact fun _ member => absurd member List.not_mem_nil
      · simp
    | cons byte rest =>
      rw [if_pos (by simp [TlsReader.remaining]), TlsReader.length_one]
      dsimp only
      split
      case isTrue wrong =>
        refine ⟨_, none, rfl, .inl ⟨rfl, fun names valid same => ?_⟩⟩
        cases names with
        | nil => cases same
        | cons name names =>
          obtain ⟨some_byte, short⟩ := valid name List.mem_cons_self
          rw [encodeNames_cons] at same
          obtain ⟨rfl, rfl⟩ := List.cons.inj same
          rw [UInt8.toNat_ofNat_of_lt' short] at wrong
          simp [TlsReader.remaining, some_byte] at wrong
      case isFalse sound =>
        obtain ⟨_, nonzero, inside⟩ :
            ¬ ({ rest } : TlsReader).overrun = true ∧ byte.toNat ≠ 0
              ∧ byte.toNat ≤ rest.length := by
          simpa [TlsReader.remaining] using sound
        have taken : ({ rest } : TlsReader).take byte.toNat
            = (some (rest.take byte.toNat), { rest := rest.drop byte.toNat }) :=
          if_neg (by simpa [TlsReader.remaining] using inside)
        have size : (rest.take byte.toNat).length = byte.toNat := by
          rw [List.length_take, Nat.min_eq_left inside]
        have protocol : IsProtocol (rest.take byte.toNat) := by
          refine ⟨fun none => nonzero ?_, size.symm ▸ UInt8.toNat_lt byte⟩
          rw [none] at size
          exact size.symm
        have written (names : List (List UInt8))
            : encodeNames (rest.take byte.toNat :: names)
              = byte :: (rest.take byte.toNat ++ encodeNames names) := by
          rw [encodeNames_cons, size, UInt8.ofNat_toNat]
        have fewer : (rest.drop byte.toNat).length < fuel := by
          simp only [List.length_cons, List.length_drop] at enough ⊢
          omega
        -- the names after this one decide; those past the cap are counted but not kept
        have next (kept : List (List UInt8))
            (keeps : ∀ names : List (List UInt8), kept ++ names.take (cap - (count + 1))
              = protocols ++ (rest.take byte.toNat :: names).take (cap - count))
            : ∃ after found, alpnLoop cap fuel { rest := rest.drop byte.toNat } (count + 1) kept
                = .ok (after, found)
              ∧ (found = none
                  ∧ (∀ names, (∀ name ∈ names, IsProtocol name) →
                    byte :: rest ≠ encodeNames names)
                ∨ after.overrun = false ∧ ∃ names, (∀ name ∈ names, IsProtocol name)
                  ∧ byte :: rest = encodeNames names
                  ∧ found = some (count + names.length,
                    protocols ++ names.take (cap - count))) := by
          obtain ⟨after, found, looped, ⟨none, unwritten⟩ | ⟨whole, names, valid, same, counted⟩⟩
            := @ih (rest.drop byte.toNat) fewer (count + 1) kept
          · refine ⟨after, found, looped, .inl ⟨none, fun names valid same => ?_⟩⟩
            cases names with
            | nil => cases same
            | cons name names =>
              refine unwritten names
                (fun name member => valid name (List.mem_cons_of_mem _ member)) ?_
              rw [encodeNames_cons] at same
              obtain ⟨rfl, rfl⟩ := List.cons.inj same
              rw [UInt8.toNat_ofNat_of_lt' (valid name List.mem_cons_self).2, List.drop_left]
          · refine ⟨after, found, looped, .inr ⟨whole, rest.take byte.toNat :: names, ?_, ?_, ?_⟩⟩
            · intro name member
              rcases List.mem_cons.mp member with rfl | later
              · exact protocol
              · exact valid name later
            · rw [written, ← same, List.take_append_drop]
            · rw [counted, keeps, List.length_cons, Nat.add_assoc, Nat.add_comm 1]
        rw [taken]
        dsimp only
        split
        case isTrue beyond =>
          refine next protocols fun names => ?_
          rw [show cap - (count + 1) = 0 by omega, show cap - count = 0 by omega,
            List.take_zero, List.take_zero]
        case isFalse within =>
          refine next (protocols ++ [rest.take byte.toNat]) fun names => ?_
          rw [show cap - count = (cap - (count + 1)) + 1 by omega, List.take_succ_cons,
            List.append_assoc, List.singleton_append]

/-- Reading protocols reports the list they encode. -/
theorem readAlpn_reads (client : Bool) (body : List UInt8) (budget : ListBudget)
    : ∃ read, readAlpn { rest := body } client budget = .ok read
        ∧ read.Reads (EncodesNames client) body budget := by
  unfold readAlpn
  dsimp only
  rcases TlsReader.vector_exact 2 body with ⟨inner, vector, read⟩ | ⟨wrong, unwritten⟩
  · rw [read]
    dsimp only
    rw [if_neg (by simp [TlsReader.remaining])]
    obtain ⟨after, found, looped, ⟨rfl, broken⟩ | ⟨whole, names, valid, rfl, rfl⟩⟩ :=
      @alpnLoop_reads budget.capEntries _ _ (Nat.lt_succ_self inner.length) 0 []
    · rw [show ({ rest := inner } : TlsReader).remaining = inner.length from rfl, looped, ok_bind]
      refine ⟨_, rfl, .broken fun names encodes => ?_⟩
      exact broken names encodes.protocols (vector.unique encodes.vector)
    · rw [show ({ rest := encodeNames names } : TlsReader).remaining = (encodeNames names).length
        from rfl, looped, ok_bind]
      dsimp only
      rw [require_eq_ok _ (by simp [whole]), ok_bind, Nat.zero_add, Nat.sub_zero, List.nil_append]
      have same {others : List (List UInt8)} (encodes : EncodesNames client others body)
          : others = names :=
        encodeNames_inj encodes.protocols valid (encodes.vector.unique vector)
      split
      case isTrue wrong =>
        refine ⟨_, rfl, .broken fun others encodes => ?_⟩
        obtain rfl := same encodes
        rcases wrong with none | ⟨server, several⟩
        · exact encodes.some_name (List.length_eq_zero_iff.mp none)
        · exact several (encodes.selected (by simpa using server))
      case isFalse right =>
        obtain ⟨some_name, selected⟩ := not_or.mp right
        have encodes : EncodesNames client names body :=
          ⟨vector, valid, fun none => some_name (congrArg List.length none),
            fun server => by simpa [server] using selected⟩
        split
        case isTrue beyond => exact ⟨_, rfl, .excessive encodes beyond⟩
        case isFalse within =>
          have kept : names.take budget.capEntries = names :=
            List.take_of_length_le (Nat.le_of_not_lt within)
          rw [kept, require_eq_ok _ rfl, ok_bind]
          exact ⟨_, rfl, .listed encodes (Nat.le_of_not_lt within)⟩
  · rw [if_pos wrong]
    exact ⟨_, rfl, .broken fun names encodes => unwritten _ encodes.vector⟩

end PacketQuapture.Tls
