import PacketQuapture.Library.Joined
import PacketQuapture.Text.Decimal
import PacketQuapture.X509.Oid

/-! The text of an object identifier is exactly that of the arcs it encodes.
A group of bytes is one arc in base 128, most significant digit first; the reader walks the groups
of a content one by one, so a content is accepted exactly when its groups are those of some arcs.
-/

namespace PacketQuapture.X509

open Library Text

variable {value digit : Nat}

/-! ### Arcs and their encoding -/

/-- A digit in base 128 that another one follows. -/
def mark (digit : Nat) : UInt8 :=
  UInt8.ofNat (128 + digit)

/-- The digits of an arc in base 128, most significant first, but for the last. -/
def leadingDigits (value : Nat) : List Nat :=
  (Nat.digits 128 (value / 128)).reverse

/-- The minimal encoding of an arc. -/
def arcBytes (value : Nat) : List UInt8 :=
  (leadingDigits value).map mark ++ [UInt8.ofNat (value % 128)]

/-- The arcs an object identifier can have here: the first two share one encoded value. -/
structure Arcs where
  top : Nat
  second : Nat
  rest : List Nat
  topBound : top ≤ 2
  secondBound : top < 2 → second < 40
  firstFits : top * 40 + second < 2 ^ 63
  restFit : ∀ arc ∈ rest, arc < 2 ^ 140

def Arcs.encode (arcs : Arcs) : List UInt8 :=
  arcBytes (arcs.top * 40 + arcs.second) ++ arcs.rest.flatMap arcBytes

/-- Dotted decimal. -/
def Arcs.text (arcs : Arcs) : List UInt8 :=
  [46].intercalate ((arcs.top :: arcs.second :: arcs.rest).map decimal)

/-- The number some digits in base 128 stand for, most significant first. -/
def ofBase128 (digits : List Nat) (value : Nat) : Nat :=
  digits.foldl (fun value digit => value * 128 + digit) value

theorem ofBase128_eq (digits : List Nat) (value : Nat)
    : ofBase128 digits value = value * 128 ^ digits.length + Nat.ofDigits 128 digits.reverse := by
  induction digits generalizing value with
  | nil => simp [ofBase128]
  | cons digit digits ih =>
    change ofBase128 digits (value * 128 + digit) = _
    rw [ih, List.reverse_cons, Nat.ofDigits_append, List.length_reverse, List.length_cons,
      Nat.ofDigits_singleton, Nat.pow_succ]
    ring

/-- A group of bytes: the digits of one value in base 128, most significant first, and the last. -/
structure Group where
  digits : List Nat
  last : Nat
  small : ∀ digit ∈ digits ++ [last], digit < 128

namespace Group

variable {group : Group}

theorem digits_small (member : digit ∈ group.digits) : digit < 128 :=
  group.small digit (List.mem_append_left _ member)

theorem last_small (group : Group) : group.last < 128 :=
  group.small group.last (List.mem_append_right _ List.mem_cons_self)

def bytes (group : Group) : List UInt8 :=
  group.digits.map mark ++ [UInt8.ofNat group.last]

def number (group : Group) : Nat :=
  ofBase128 (group.digits ++ [group.last]) 0

/-- No leading zero. -/
def Minimal (group : Group) : Prop :=
  group.digits.head? ≠ some 0

theorem number_eq (group : Group) : group.number = ofBase128 group.digits 0 * 128 + group.last := by
  rw [number, ofBase128, List.foldl_append]
  rfl

theorem number_lt (group : Group) : group.number < 128 ^ (group.digits.length + 1) := by
  have bound := Nat.ofDigits_lt_base_pow_length (by decide : 1 < 128)
    fun digit member => group.small digit (List.mem_reverse.mp member)
  rw [number, ofBase128_eq, Nat.zero_mul, Nat.zero_add]
  simpa using bound

/-- A group without a leading zero is the encoding of its value. -/
theorem Minimal.arcBytes_number (minimal : group.Minimal) : arcBytes group.number = group.bytes := by
  have last := group.last_small
  have quotient : group.number / 128 = Nat.ofDigits 128 group.digits.reverse := by
    rw [number_eq, ofBase128_eq]
    omega
  have remainder : group.number % 128 = group.last := by
    rw [number_eq]
    omega
  have whole : Nat.digits 128 (Nat.ofDigits 128 group.digits.reverse) = group.digits.reverse := by
    refine Nat.digits_ofDigits 128 (by decide) _ (fun digit member => ?_) fun occupied => ?_
    · exact digits_small (List.mem_reverse.mp member)
    · have some : group.digits ≠ [] := List.reverse_ne_nil_iff.mp occupied
      rw [List.getLast_reverse]
      intro zero
      exact minimal (by rw [List.head?_eq_some_head some, zero])
  rw [arcBytes, leadingDigits, quotient, remainder, whole, List.reverse_reverse, bytes]

/-- The group that encodes an arc. -/
def ofArc (value : Nat) : Group where
  digits := leadingDigits value
  last := value % 128
  small := by
    intro digit member
    rcases List.mem_append.mp member with leading | last
    · exact Nat.digits_lt_base (by decide) (List.mem_reverse.mp leading)
    · rw [List.mem_singleton.mp last]
      exact Nat.mod_lt _ (by decide)

theorem number_ofArc (value : Nat) : (ofArc value).number = value := by
  rw [number_eq, ofBase128_eq]
  simp only [ofArc, leadingDigits, List.reverse_reverse, Nat.ofDigits_digits]
  omega

theorem minimal_ofArc (value : Nat) : (ofArc value).Minimal := by
  intro zero
  change (leadingDigits value).head? = some 0 at zero
  rw [leadingDigits, List.head?_reverse] at zero
  have occupied : Nat.digits 128 (value / 128) ≠ [] := by
    intro empty
    rw [empty] at zero
    cases zero
  rw [List.getLast?_eq_some_getLast occupied] at zero
  exact Nat.getLast_digit_ne_zero 128 (fun none => occupied (by rw [none, Nat.digits_zero]))
    (Option.some.inj zero)

theorem length_ofArc {count : Nat} (fits : value < 128 ^ (count + 1))
    : (ofArc value).digits.length ≤ count := by
  change (leadingDigits value).length ≤ count
  rw [leadingDigits, List.length_reverse, Nat.digits_length_le_iff (by decide)]
  rw [Nat.pow_succ] at fits
  omega

end Group

/-! ### Wide arcs -/

theorem wideLoop_spec (digits : List Nat) (carry : Nat)
    : (wideLoop digits carry).1.length = digits.length
      ∧ (∀ digit ∈ (wideLoop digits carry).1, digit < 10)
      ∧ Nat.ofDigits 10 (wideLoop digits carry).1 + 10 ^ digits.length * (wideLoop digits carry).2
        = Nat.ofDigits 10 digits * 128 + carry := by
  induction digits generalizing carry with
  | nil => simp [wideLoop]
  | cons digit digits ih =>
    obtain ⟨size, small, value⟩ := ih ((digit * 128 + carry) / 10)
    have split := Nat.mod_add_div (digit * 128 + carry) 10
    refine ⟨congrArg (· + 1) size, ?_, ?_⟩
    · exact List.forall_mem_cons.mpr ⟨Nat.mod_lt _ (by decide), small⟩
    · rw [wideLoop, Nat.ofDigits_cons, Nat.ofDigits_cons, List.length_cons, Nat.pow_succ]
      linear_combination 10 * value + split

theorem wideLoop_carry (positive : value ≠ 0) (carry : Nat)
    : (wideLoop (Nat.digits 10 value) carry).2 ≠ 0 := by
  obtain ⟨size, small, spec⟩ := wideLoop_spec (Nat.digits 10 value) carry
  intro none
  have bound := Nat.ofDigits_lt_base_pow_length (by decide : 1 < 10) small
  have large := Nat.base_pow_length_digits_le 10 value (by decide) positive
  rw [none, Nat.mul_zero, Nat.add_zero, Nat.ofDigits_digits] at spec
  rw [size, spec] at bound
  omega

/-- One more digit in base 128 onto a positive number.
Witness: the digits are below ten, the highest is that of a carry and not zero, and their value is
the one asked for.
-/
theorem wideStep_digits (positive : value ≠ 0) (byte : UInt8)
    : wideStep (Nat.digits 10 value) byte
      = Nat.digits 10 (value * 128 + (byte &&& 0x7F).toNat) := by
  obtain ⟨size, small, spec⟩ := wideLoop_spec (Nat.digits 10 value) (byte &&& 0x7F).toNat
  have carried := wideLoop_carry positive (byte &&& 0x7F).toNat
  have step : wideStep (Nat.digits 10 value) byte
      = (wideLoop (Nat.digits 10 value) (byte &&& 0x7F).toNat).1
        ++ Nat.digits 10 (wideLoop (Nat.digits 10 value) (byte &&& 0x7F).toNat).2 := rfl
  generalize wideLoop (Nat.digits 10 value) (byte &&& 0x7F).toNat = loop
    at size small spec carried step
  have occupied : Nat.digits 10 loop.2 ≠ [] := Nat.digits_ne_nil_iff_ne_zero.mpr carried
  have whole : Nat.ofDigits 10 (loop.1 ++ Nat.digits 10 loop.2)
      = value * 128 + (byte &&& 0x7F).toNat := by
    rw [Nat.ofDigits_append, size, Nat.ofDigits_digits, spec, Nat.ofDigits_digits]
  rw [step, ← whole, Nat.digits_ofDigits 10 (by decide)]
  · intro digit member
    rcases List.mem_append.mp member with low | high
    · exact small digit low
    · exact Nat.digits_lt_base (by decide) high
  · intro _
    rw [List.getLast_append_of_ne_nil _ occupied]
    exact Nat.getLast_digit_ne_zero 10 carried

/-- Bytes as the digits they hold. -/
def lowBits (bytes : List UInt8) : List Nat :=
  bytes.map fun byte => (byte &&& 0x7F).toNat

theorem foldl_wideStep (positive : value ≠ 0) (bytes : List UInt8)
    : bytes.foldl wideStep (Nat.digits 10 value)
      = Nat.digits 10 (ofBase128 (lowBits bytes) value) := by
  induction bytes generalizing value with
  | nil => rfl
  | cons byte bytes ih =>
    rw [List.foldl_cons, wideStep_digits positive]
    exact ih (by omega)

theorem wideArc_text {bytes : List UInt8} (leading : (lowBits bytes).head? ≠ some 0)
    (occupied : bytes ≠ [])
    : wideArc bytes = decimal (ofBase128 (lowBits bytes) 0) := by
  cases bytes with
  | nil => exact absurd rfl occupied
  | cons byte bytes =>
    have positive : (byte &&& 0x7F).toNat ≠ 0 := fun zero => leading (congrArg some zero)
    have first : wideStep [0] byte = Nat.digits 10 (byte &&& 0x7F).toNat := by
      rw [Nat.digits_def' (by decide) (Nat.pos_of_ne_zero positive)]
      simp [wideStep, wideLoop]
    have value : ofBase128 (lowBits (byte :: bytes)) 0
        = ofBase128 (lowBits bytes) (byte &&& 0x7F).toNat := by
      simp [ofBase128, lowBits]
    have large : ofBase128 (lowBits bytes) (byte &&& 0x7F).toNat ≠ 0 := by
      rw [ofBase128_eq]
      have := Nat.mul_pos (Nat.pos_of_ne_zero positive)
        (Nat.pow_pos (by decide : 0 < 128) : 0 < 128 ^ (lowBits bytes).length)
      omega
    rw [wideArc, List.foldl_cons, first, foldl_wideStep positive, value, decimal, if_neg large,
      Text.digits]

/-! ### Groups -/

theorem mark_facts (small : digit < 128)
    : mark digit &&& 0x80 ≠ 0 ∧ (mark digit &&& 0x7F).toNat = digit
      ∧ (mark digit = 0x80 ↔ digit = 0) := by
  have facts : ∀ digit < 128, mark digit &&& 0x80 ≠ 0 ∧ (mark digit &&& 0x7F).toNat = digit
      ∧ (mark digit = 0x80 ↔ digit = 0) := by decide
  exact facts digit small

theorem last_facts (small : digit < 128)
    : UInt8.ofNat digit &&& 0x80 = 0 ∧ (UInt8.ofNat digit &&& 0x7F).toNat = digit
      ∧ UInt8.ofNat digit ≠ 0x80 := by
  have facts : ∀ digit < 128, UInt8.ofNat digit &&& 0x80 = 0
      ∧ (UInt8.ofNat digit &&& 0x7F).toNat = digit ∧ UInt8.ofNat digit ≠ 0x80 := by decide
  exact facts digit small

theorem byte_cases (byte : UInt8)
    : (byte &&& 0x80 = 0 ∧ ∃ digit < 128, byte = UInt8.ofNat digit)
      ∨ byte &&& 0x80 ≠ 0 ∧ ∃ digit < 128, byte = mark digit := by
  have whole : UInt8.ofNat byte.toNat = byte := UInt8.ofNat_toNat
  by_cases low : byte.toNat < 128
  · exact .inl ⟨whole ▸ (last_facts low).1, byte.toNat, low, whole.symm⟩
  · have bound := byte.toNat_lt
    have marked : byte = mark (byte.toNat - 128) := by
      rw [mark, Nat.add_sub_cancel' (Nat.not_lt.mp low), whole]
    exact .inr ⟨marked ▸ (mark_facts (by omega)).1, byte.toNat - 128, by omega, marked⟩

/-- Bytes that do not end inside a group. -/
def Ends (bytes : List UInt8) : Prop :=
  ∀ byte, bytes.getLast? = some byte → byte &&& 0x80 = 0

theorem Ends.tail {byte : UInt8} {bytes : List UInt8} (ends : Ends (byte :: bytes)) : Ends bytes := by
  intro last found
  refine ends last ?_
  rw [List.getLast?_cons, found]
  rfl

/-- Bytes that do not end inside a group start with a whole one. -/
theorem Ends.group {bytes : List UInt8} (ends : Ends bytes) (occupied : bytes ≠ [])
    : ∃ (group : Group) (more : List UInt8), bytes = group.bytes ++ more ∧ Ends more := by
  induction bytes with
  | nil => exact absurd rfl occupied
  | cons byte bytes ih =>
    rcases byte_cases byte with ⟨-, last, small, rfl⟩ | ⟨marked, digit, small, rfl⟩
    · exact ⟨⟨[], last, by simpa using small⟩, bytes, rfl, ends.tail⟩
    · have continued : bytes ≠ [] := by
        rintro rfl
        exact marked (ends _ rfl)
      obtain ⟨⟨digits, last, smalls⟩, more, rfl, moreEnds⟩ := ih ends.tail continued
      exact ⟨⟨digit :: digits, last, List.forall_mem_cons.mpr ⟨small, smalls⟩⟩, more, rfl, moreEnds⟩

/-- How many digits an arc may have. -/
def digitLimit (first : Bool) : Nat :=
  if first then 9 else 20

theorem within_limit_iff {count : Nat} {first : Bool}
    : ¬ (20 < count ∨ first = true ∧ 9 < count) ↔ count ≤ digitLimit first := by
  cases first with
  | false => simp [digitLimit]
  | true =>
    simp only [digitLimit, if_true, true_and]
    omega

/-- The accumulator after some digits; it keeps the low 64 bits. -/
def pushed (value : UInt64) (digits : List Nat) : UInt64 :=
  digits.foldl (fun value digit => value <<< 7 ||| UInt64.ofNat digit) value

theorem toUInt64_mask (byte : UInt8)
    : (byte &&& 0x7F).toUInt64 = UInt64.ofNat (byte &&& 0x7F).toNat := by
  apply UInt64.toNat_inj.mp
  have bound := (byte &&& 0x7F).toNat_lt
  rw [UInt8.toNat_toUInt64, UInt64.toNat_ofNat', Nat.mod_eq_of_lt (by omega)]

/-- Nothing is lost while the digits fit. -/
theorem pushed_toNat {digits : List Nat} {value : UInt64} (small : ∀ digit ∈ digits, digit < 128)
    (fits : (value.toNat + 1) * 128 ^ digits.length ≤ 2 ^ 64)
    : (pushed value digits).toNat = ofBase128 digits value.toNat := by
  induction digits generalizing value with
  | nil => rfl
  | cons digit digits ih =>
    have bound := small digit List.mem_cons_self
    have room : (value.toNat + 1) * 128 ≤ 2 ^ 64 := by
      refine le_trans ?_ fits
      rw [List.length_cons, Nat.pow_succ, Nat.mul_comm (128 ^ _), ← Nat.mul_assoc]
      exact Nat.le_mul_of_pos_right _ (Nat.pow_pos (by decide))
    have next : (value <<< 7 ||| UInt64.ofNat digit).toNat = value.toNat * 128 + digit := by
      have shift : UInt64.toNat 7 % 64 = 7 := rfl
      rw [UInt64.toNat_or, UInt64.toNat_shiftLeft, UInt64.toNat_ofNat', shift,
        Nat.mod_eq_of_lt (by omega : digit < 2 ^ 64),
        Nat.mod_eq_of_lt (by rw [Nat.shiftLeft_eq]; omega),
        ← Nat.shiftLeft_add_eq_or_of_lt (by omega), Nat.shiftLeft_eq]
    change (pushed (value <<< 7 ||| UInt64.ofNat digit) digits).toNat = _
    rw [ih (fun other member => small other (List.mem_cons_of_mem _ member)), next]
    · rfl
    · rw [next]
      refine le_trans ?_ fits
      rw [List.length_cons, Nat.pow_succ, Nat.mul_comm (128 ^ _), ← Nat.mul_assoc]
      exact Nat.mul_le_mul_right _ (by omega)

section Loop

variable {content tail out text before : List UInt8} {digits : List Nat} {index count : Nat}
  {value : UInt64} {first : Bool} {group : Group}

theorem oidLoop_mark (small : digit < 128)
    : oidLoop content (mark digit :: tail) index value count first out
      = if (count = 0 → digit ≠ 0) ∧ count + 1 ≤ digitLimit first then
          oidLoop content tail (index + 1) (pushed value [digit]) (count + 1) first out
        else .error .malformed := by
  obtain ⟨marked, low, zero⟩ := mark_facts small
  rw [oidLoop, toUInt64_mask, low]
  by_cases leading : count = 0 ∧ mark digit = 0x80
  · rw [if_pos leading, if_neg fun allowed => allowed.1 leading.1 (zero.mp leading.2)]
  · have starts : count = 0 → digit ≠ 0 := fun none same => leading ⟨none, zero.mpr same⟩
    rw [if_neg leading]
    by_cases fits : count + 1 ≤ digitLimit first
    · rw [if_neg (within_limit_iff.mpr fits), if_pos marked, if_pos ⟨starts, fits⟩]
      rfl
    · rw [if_pos (not_not.mp fun within => fits (within_limit_iff.mp within)),
        if_neg fun allowed => fits allowed.2]

/-- The digits before the last of a group.
Witness: induction on the digits, each a turn of the loop.
-/
theorem oidLoop_marks (small : ∀ digit ∈ digits, digit < 128)
    : oidLoop content (digits.map mark ++ tail) index value count first out
      = if (count = 0 → digits.head? ≠ some 0)
            ∧ (digits ≠ [] → count + digits.length ≤ digitLimit first) then
          oidLoop content tail (index + digits.length) (pushed value digits)
            (count + digits.length) first out
        else .error .malformed := by
  induction digits generalizing index value count with
  | nil =>
    rw [if_pos ⟨fun _ => Option.some_ne_none 0 ∘ Eq.symm, fun never => absurd rfl never⟩]
    rfl
  | cons digit digits ih =>
    rw [List.map_cons, List.cons_append, oidLoop_mark (small digit List.mem_cons_self),
      ih fun other member => small other (List.mem_cons_of_mem _ member)]
    have moved : index + 1 + digits.length = index + (digit :: digits).length := by
      rw [List.length_cons]
      omega
    have counted : count + 1 + digits.length = count + (digit :: digits).length := by
      rw [List.length_cons]
      omega
    have accumulated : pushed (pushed value [digit]) digits = pushed value (digit :: digits) := rfl
    rw [moved, counted, accumulated]
    by_cases allowed : (count = 0 → digit ≠ 0) ∧ count + 1 ≤ digitLimit first
    · rw [if_pos allowed]
      refine if_congr ⟨fun rest => ?_, fun whole => ?_⟩ rfl rfl
      · refine ⟨fun none same => allowed.1 none (Option.some.inj same), fun _ => ?_⟩
        by_cases single : digits = []
        · rw [single]
          exact allowed.2
        · exact rest.2 single
      · exact ⟨fun never => absurd never (Nat.succ_ne_zero count),
          fun _ => whole.2 (List.cons_ne_nil _ _)⟩
    · rw [if_neg allowed, if_neg]
      refine fun whole => allowed ⟨fun none zero => whole.1 none (congrArg some zero), ?_⟩
      have fits := whole.2 (List.cons_ne_nil _ _)
      rw [List.length_cons] at fits
      omega

/-- What a group adds to the text: the first one holds two arcs. -/
def groupText (first : Bool) (out : List UInt8) (value : Nat) : List UInt8 :=
  if first then
    let top := if value < 40 then 0 else if value < 80 then 1 else 2
    decimal top ++ [46] ++ decimal (value - top * 40)
  else
    out ++ [46] ++ decimal value

theorem Group.pushed_toNat (fits : group.digits.length + 1 ≤ 9)
    : (pushed 0 (group.digits ++ [group.last])).toNat = group.number := by
  rw [X509.pushed_toNat group.small, number]
  · rfl
  · rw [List.length_append, List.length_singleton]
    exact le_trans (Nat.mul_le_mul_left _ (Nat.pow_le_pow_right (by decide) fits)) (by decide)

theorem Group.lowBits_bytes (group : Group)
    : lowBits group.bytes = group.digits ++ [group.last] := by
  have same : group.digits.map ((fun byte : UInt8 => (byte &&& 0x7F).toNat) ∘ mark)
      = group.digits :=
    (List.map_congr_left fun digit member => (mark_facts (digits_small member)).2.1).trans
      (List.map_id _)
  rw [lowBits, bytes, List.map_append, List.map_map, List.map_singleton,
    (last_facts group.last_small).2.1, same]

/-- The text of an arc that is not the first: the accumulator is exact up to nine digits, and
beyond them the group itself is read again.
-/
theorem arcText_group {more : List UInt8} (minimal : group.Minimal)
    (whole : content = before ++ group.bytes ++ more)
    : arcText content (before.length + group.digits.length) (group.digits.length + 1)
        (pushed 0 (group.digits ++ [group.last]))
      = .ok (decimal group.number) := by
  rw [arcText]
  split
  case isTrue wide =>
    have size : group.bytes.length = group.digits.length + 1 := by simp [Group.bytes]
    have start : before.length + group.digits.length + 1 - (group.digits.length + 1)
        = before.length := by omega
    have bytes : content.drop before.length = group.bytes ++ more := by
      rw [whole, List.append_assoc, List.drop_left]
    have inside : before.length ≤ content.length := by
      rw [whole, List.length_append, List.length_append]
      omega
    have starts : (lowBits group.bytes).head? ≠ some 0 := by
      rw [group.lowBits_bytes, List.head?_append_of_ne_nil]
      · exact minimal
      · exact List.ne_nil_of_length_pos (by omega)
    rw [require_eq_ok _ (by omega), ok_bind, start, ← size, span_of_drop inside bytes, ok_bind,
      wideArc_text starts (by simp [Group.bytes]), group.lowBits_bytes]
    rfl
  case isFalse narrow =>
    rw [Group.pushed_toNat (by omega)]

/-- The first group: the top arc is told by the value. -/
theorem firstText {value : UInt64} {number : Nat} (same : value.toNat = number)
    : decimal (if value < 40 then 0 else if value < 80 then 1 else 2 : UInt64).toNat ++ [46]
        ++ decimal (value - (if value < 40 then 0 else if value < 80 then 1 else 2) * 40).toNat
      = groupText true out number := by
  have below (bound : UInt64) : value < bound ↔ number < bound.toNat := by
    rw [UInt64.lt_iff_toNat_lt, same]
  have less (bound : UInt64) (large : ¬ number < bound.toNat)
      : (value - bound).toNat = number - bound.toNat := by
    rw [UInt64.toNat_sub_of_le _ _ (UInt64.le_iff_toNat_le.mpr (by omega)), same]
  rw [groupText, if_pos rfl]
  by_cases zero : number < 40
  · rw [if_pos ((below 40).mpr zero), if_pos zero]
    change _ = decimal 0 ++ [46] ++ decimal number
    rw [UInt64.zero_mul, UInt64.sub_zero, same]
    rfl
  · rw [if_neg fun low => zero ((below 40).mp low), if_neg zero]
    by_cases one : number < 80
    · rw [if_pos ((below 80).mpr one), if_pos one]
      exact congrArg (decimal 1 ++ [46] ++ decimal ·) (less 40 zero)
    · rw [if_neg fun low => one ((below 80).mp low), if_neg one]
      exact congrArg (decimal 2 ++ [46] ++ decimal ·) (less 80 one)

/-- A whole group.
Witness: the digits before the last, then the last one, which ends the arc.
-/
theorem oidLoop_group {more : List UInt8} (whole : content = before ++ group.bytes ++ more)
    : oidLoop content (group.bytes ++ more) before.length 0 0 first out
      = if group.digits.head? ≠ some 0 ∧ group.digits.length + 1 ≤ digitLimit first then
          oidLoop content more (before ++ group.bytes).length 0 0 false
            (groupText first out group.number)
        else .error .malformed := by
  obtain ⟨low, digit, other⟩ := last_facts group.last_small
  have moved : before.length + group.digits.length + 1 = (before ++ group.bytes).length := by
    simp only [Group.bytes, List.length_append, List.length_map, List.length_singleton]
    omega
  have accumulated : pushed 0 group.digits <<< 7 ||| UInt64.ofNat group.last
      = pushed 0 (group.digits ++ [group.last]) := by
    rw [pushed, pushed, List.foldl_append]
    rfl
  rw [show group.bytes ++ more = group.digits.map mark ++ UInt8.ofNat group.last :: more from
    List.append_assoc .., oidLoop_marks fun _ => Group.digits_small]
  by_cases leading : group.digits.head? ≠ some 0
  · by_cases fits : group.digits.length + 1 ≤ digitLimit first
    · rw [if_pos ⟨fun _ => leading, fun _ => by omega⟩, if_pos ⟨leading, fits⟩, oidLoop,
        if_neg fun both => other both.2, if_neg (within_limit_iff.mpr (by omega)), toUInt64_mask,
        digit, accumulated, if_neg (not_not.mpr low), Nat.zero_add]
      cases first with
      | true =>
        rw [if_pos rfl]
        dsimp only
        rw [firstText (Group.pushed_toNat fits), moved]
      | false =>
        rw [if_neg Bool.false_ne_true, arcText_group leading whole, ok_bind, moved]
        rfl
    · rw [if_neg fun allowed : _ ∧ _ => fits allowed.2]
      split
      case isTrue =>
        rw [oidLoop, if_neg fun both => other both.2, Nat.zero_add,
          if_pos (not_not.mp fun within => fits (within_limit_iff.mp within))]
      case isFalse => rfl
  · rw [if_neg fun allowed => leading (allowed.1 rfl), if_neg fun allowed => leading allowed.1]

/-- The group of an arc, which has no more digits than are allowed. -/
theorem oidLoop_ofArc {more : List UInt8} {arc limit : Nat} (fits : arc < 128 ^ (limit + 1))
    (few : limit + 1 = digitLimit first) (whole : content = before ++ (arcBytes arc ++ more))
    : oidLoop content (arcBytes arc ++ more) before.length 0 0 first out
      = oidLoop content more (before ++ arcBytes arc).length 0 0 false
          (groupText first out arc) := by
  have group := @oidLoop_group content out before first (.ofArc arc) more
    (by rw [whole, ← List.append_assoc]; rfl)
  rw [if_pos ⟨Group.minimal_ofArc arc, few ▸ Nat.succ_le_succ (Group.length_ofArc fits)⟩,
    Group.number_ofArc] at group
  exact group

/-- The text of arcs behind the first two. -/
def arcsText (arcs : List Nat) : List UInt8 :=
  (arcs.map decimal).flatMap (46 :: ·)

/-- The groups of arcs are read one after another.
Witness: induction on the arcs.
-/
theorem oidLoop_arcs {arcs : List Nat} (fit : ∀ arc ∈ arcs, arc < 2 ^ 140)
    (whole : content = before ++ arcs.flatMap arcBytes)
    : oidLoop content (arcs.flatMap arcBytes) before.length 0 0 false out
      = .ok (out ++ arcsText arcs) := by
  induction arcs generalizing before out with
  | nil => simp [oidLoop, arcsText]
  | cons arc arcs ih =>
    have bound := fit arc List.mem_cons_self
    rw [List.flatMap_cons] at whole ⊢
    rw [oidLoop_ofArc (lt_of_lt_of_eq bound (by decide : 2 ^ 140 = 128 ^ (19 + 1))) rfl whole,
      ih (fun other member => fit other (List.mem_cons_of_mem _ member))
        (by rw [whole, List.append_assoc])]
    simp [groupText, arcsText]

/-- What is read without an error is the groups of arcs.
Witness: induction on the length of what is left, one group at a time.
-/
theorem arcs_of_oidLoop {rest : List UInt8} (ends : Ends rest) (whole : content = before ++ rest)
    (returned : oidLoop content rest before.length 0 0 false out = .ok text)
    : ∃ arcs : List Nat, (∀ arc ∈ arcs, arc < 2 ^ 140) ∧ rest = arcs.flatMap arcBytes
        ∧ text = out ++ arcsText arcs := by
  induction size : rest.length using Nat.strong_induction_on generalizing before rest out with
  | _ length ih =>
  by_cases empty : rest = []
  · subst empty
    obtain ⟨⟩ := returned
    exact ⟨[], fun _ never => absurd never List.not_mem_nil, rfl, (List.append_nil _).symm⟩
  · obtain ⟨group, more, rfl, moreEnds⟩ := ends.group empty
    rw [← List.append_assoc] at whole
    rw [oidLoop_group whole] at returned
    split at returned
    case isTrue allowed =>
      obtain ⟨minimal, few⟩ := allowed
      have bound : group.number < 2 ^ 140 :=
        group.number_lt.trans_le
          (le_of_le_of_eq (Nat.pow_le_pow_right (by decide) few) (by decide))
      have shorter : more.length < length := by
        rw [← size, Group.bytes, List.length_append, List.length_append, List.length_singleton]
        omega
      obtain ⟨arcs, fit, rfl, rfl⟩ := ih more.length shorter moreEnds whole returned rfl
      refine ⟨group.number :: arcs, List.forall_mem_cons.mpr ⟨bound, fit⟩, ?_, ?_⟩
      · rw [List.flatMap_cons, Group.Minimal.arcBytes_number minimal]
      · simp [groupText, arcsText]
    case isFalse => cases returned

end Loop

/-! ### Contents -/

theorem ends_iff {content : List UInt8} (occupied : content ≠ [])
    : Ends content ↔ content.getLast occupied &&& 0x80 = 0 := by
  rw [Ends, List.getLast?_eq_some_getLast occupied]
  exact ⟨fun ends => ends _ rfl, fun low byte same => Option.some.inj same ▸ low⟩

theorem decodeOid_eq_ok {element : Element} {text : List UInt8}
    : decodeOid element = .ok text
      ↔ element.content ≠ [] ∧ Ends element.content
        ∧ oidLoop element.content element.content 0 0 0 true [] = .ok text := by
  have read (occupied : element.content ≠ [])
      : readByte element.content (element.content.length - 1)
        = .ok (element.content.getLast occupied) := by
    rw [readByte, ← List.getLast?_eq_getElem?, List.getLast?_eq_some_getLast occupied]
  constructor
  · intro returned
    obtain ⟨_, first, returned⟩ := bind_eq_ok.mp returned
    have occupied := of_require first
    rw [read occupied, ok_bind] at returned
    obtain ⟨_, second, returned⟩ := bind_eq_ok.mp returned
    exact ⟨occupied, (ends_iff occupied).mpr (of_require second), returned⟩
  · rintro ⟨occupied, ends, returned⟩
    rw [decodeOid, require_eq_ok _ occupied, ok_bind, read occupied, ok_bind,
      require_eq_ok _ ((ends_iff occupied).mp ends), ok_bind, returned]

theorem arcBytes_ends (value : Nat) (before : List UInt8) : Ends (before ++ arcBytes value) := by
  intro byte found
  rw [arcBytes, ← List.append_assoc, List.getLast?_append_of_ne_nil _ (List.cons_ne_nil _ _)] at found
  rw [← Option.some.inj found]
  exact (last_facts (Nat.mod_lt _ (by decide))).1

theorem Arcs.encode_ne_nil (arcs : Arcs) : arcs.encode ≠ [] := by
  rw [Arcs.encode, arcBytes]
  simp

theorem Arcs.encode_ends (arcs : Arcs) : Ends arcs.encode := by
  rw [Arcs.encode]
  rcases List.eq_nil_or_concat' arcs.rest with none | ⟨rest, last, some⟩
  · rw [none, List.flatMap_nil, List.append_nil]
    exact arcBytes_ends _ []
  · rw [some, List.flatMap_append, List.flatMap_singleton, ← List.append_assoc]
    exact arcBytes_ends last _

theorem Arcs.text_eq (arcs : Arcs)
    : arcs.text = groupText true [] (arcs.top * 40 + arcs.second) ++ arcsText arcs.rest := by
  have bound := arcs.topBound
  have second := arcs.secondBound
  have joined : arcs.text = decimal arcs.top ++ [46] ++ decimal arcs.second ++ arcsText arcs.rest := by
    rw [Arcs.text, List.map_cons, List.map_cons, intercalate_cons, List.flatMap_cons, arcsText]
    simp
  have top : (if arcs.top * 40 + arcs.second < 40 then 0
      else if arcs.top * 40 + arcs.second < 80 then 1 else 2) = arcs.top := by
    split
    case isTrue low => omega
    case isFalse high =>
      split
      case isTrue low => omega
      case isFalse highest => omega
  rw [joined, groupText, if_pos rfl, top]
  dsimp only
  rw [Nat.add_sub_cancel_left]

theorem exists_arcs {rest : List Nat} (fits : value < 2 ^ 63)
    (restFit : ∀ arc ∈ rest, arc < 2 ^ 140)
    : ∃ arcs : Arcs, arcs.top * 40 + arcs.second = value ∧ arcs.rest = rest := by
  by_cases zero : value < 40
  · exact ⟨⟨0, value, rest, by decide, fun _ => zero, by omega, restFit⟩,
      by dsimp only; omega, rfl⟩
  · by_cases one : value < 80
    · exact ⟨⟨1, value - 40, rest, by decide, fun _ => by omega, by omega, restFit⟩,
      by dsimp only; omega, rfl⟩
    · exact ⟨⟨2, value - 80, rest, by decide, fun never => absurd never (by decide), by omega,
        restFit⟩, by dsimp only; omega, rfl⟩

/-- A content is accepted exactly when it encodes arcs, and its text is theirs. -/
theorem decodeOid_eq_ok_iff {element : Element} {text : List UInt8}
    : decodeOid element = .ok text
      ↔ ∃ arcs : Arcs, element.content = arcs.encode ∧ text = arcs.text := by
  rw [decodeOid_eq_ok]
  constructor
  · rintro ⟨occupied, ends, returned⟩
    obtain ⟨group, more, whole, moreEnds⟩ := ends.group occupied
    have read := @oidLoop_group element.content [] [] true group more whole
    rw [← whole, List.length_nil, returned] at read
    split at read
    case isTrue allowed =>
      obtain ⟨minimal, few⟩ := allowed
      have bound : group.number < 2 ^ 63 :=
        group.number_lt.trans_le
          (le_of_le_of_eq (Nat.pow_le_pow_right (by decide) few) (by decide))
      obtain ⟨rest, restFit, rfl, rfl⟩ := arcs_of_oidLoop moreEnds whole read.symm
      obtain ⟨arcs, value, rfl⟩ := exists_arcs bound restFit
      refine ⟨arcs, ?_, ?_⟩
      · rw [Arcs.encode, value, Group.Minimal.arcBytes_number minimal, whole]
      · rw [Arcs.text_eq, value]
    case isFalse => cases read
  · rintro ⟨arcs, encoded, rfl⟩
    refine ⟨encoded ▸ arcs.encode_ne_nil, encoded ▸ arcs.encode_ends, ?_⟩
    have first := @oidLoop_ofArc element.content [] [] true (arcs.rest.flatMap arcBytes)
      (arcs.top * 40 + arcs.second) 8 (lt_of_lt_of_eq arcs.firstFits (by decide)) rfl encoded
    rw [List.length_nil, ← Arcs.encode, ← encoded, List.nil_append] at first
    rw [first, oidLoop_arcs arcs.restFit encoded, ← Arcs.text_eq]

theorem Arcs.text_inj {left right : Arcs} : left.text = right.text ↔ left = right := by
  refine ⟨fun same => ?_, congrArg Arcs.text⟩
  have plain (arcs : Arcs)
      : ∀ part ∈ (arcs.top :: arcs.second :: arcs.rest).map decimal, (46 : UInt8) ∉ part := by
    intro part member
    obtain ⟨arc, -, rfl⟩ := List.mem_map.mp member
    exact decimal_plain arc (by decide)
  have parts := (intercalate_inj (plain left) (plain right) (List.cons_ne_nil _ _)
    (List.cons_ne_nil _ _)).mp same
  have arcs := List.map_injective_iff.mpr (fun _ _ => decimal_inj.mp) parts
  obtain ⟨top, tail⟩ := List.cons.inj arcs
  obtain ⟨second, rest⟩ := List.cons.inj tail
  cases left
  cases right
  congr

/-- Reading an OID is exact: the minimal encoding of arcs gives their dotted text, every other
content is refused as malformed, and two accepted contents with one text are the same.
Witness: a content is a sequence of groups, each the minimal encoding of its value when it has no
leading zero; the accumulator is exact up to nine digits, and the long multiplication beyond.
-/
theorem decodeOid_exact
    : (∀ (element : Element) (arcs : Arcs), element.content = arcs.encode →
        decodeOid element = .ok arcs.text)
      ∧ (∀ element : Element, (∀ arcs : Arcs, element.content ≠ arcs.encode) →
          decodeOid element = .error .malformed)
      ∧ ∀ (left right : Element) (text : List UInt8), decodeOid left = .ok text →
          decodeOid right = .ok text → left.content = right.content := by
  refine ⟨fun element arcs encoded => decodeOid_eq_ok_iff.mpr ⟨arcs, encoded, rfl⟩, ?_, ?_⟩
  · intro element foreign
    have givesUp := decodeOid_givesUp element
    cases outcome : decodeOid element with
    | ok text =>
      obtain ⟨arcs, encoded, -⟩ := decodeOid_eq_ok_iff.mp outcome
      exact absurd encoded (foreign arcs)
    | error stop =>
      rw [outcome] at givesUp
      exact congrArg Except.error givesUp
  · intro left right text leftRead rightRead
    obtain ⟨leftArcs, leftEncoded, leftText⟩ := decodeOid_eq_ok_iff.mp leftRead
    obtain ⟨rightArcs, rightEncoded, rightText⟩ := decodeOid_eq_ok_iff.mp rightRead
    rw [leftEncoded, rightEncoded, Arcs.text_inj.mp (leftText.symm.trans rightText)]

/-- The arcs of id-at-commonName. -/
def commonNameArcs : Arcs where
  top := 2
  second := 5
  rest := [4, 3]
  topBound := by decide
  secondBound := fun never => absurd never (by decide)
  firstFits := by decide
  restFit := by decide

/-- id-at-commonName is read from its three bytes, and only from them; no content is refused. -/
theorem decodeOid_exact_commonName
    : decodeOid ⟨6, [0x55, 0x04, 0x03]⟩ = .ok (ascii "2.5.4.3")
      ∧ decodeOid ⟨6, []⟩ = .error .malformed
      ∧ commonNameArcs.encode = [0x55, 0x04, 0x03] := by
  have encoded : [0x55, 0x04, 0x03] = commonNameArcs.encode := by
    simp [commonNameArcs, Arcs.encode, arcBytes, leadingDigits]
  have text : commonNameArcs.text = ascii "2.5.4.3" := by
    simp [commonNameArcs, Arcs.text, decimal, Text.digits, digit, ascii]
  have read : decodeOid ⟨6, [0x55, 0x04, 0x03]⟩ = .ok (ascii "2.5.4.3") :=
    text ▸ decodeOid_exact.1 ⟨6, _⟩ commonNameArcs encoded
  have written : decodeOid ⟨6, commonNameArcs.encode⟩ = .ok (ascii "2.5.4.3") :=
    text ▸ decodeOid_exact.1 ⟨6, _⟩ commonNameArcs rfl
  exact ⟨read, decodeOid_exact.2.1 ⟨6, []⟩ fun arcs never => arcs.encode_ne_nil never.symm,
    decodeOid_exact.2.2 _ _ _ written read⟩

end PacketQuapture.X509
