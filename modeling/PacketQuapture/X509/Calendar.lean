import PacketQuapture.Text.Format
import PacketQuapture.X509.Time

/-! Certificate times are exact.
The days of a date count the steps of the proleptic Gregorian calendar from the epoch: a closed form
without eras gives the day after each day, and the starts of the months are in their order.
-/

namespace PacketQuapture.X509

open Library

variable {year month : Int} {data : List UInt8} {count index : Nat} {element : Element}

/-! ### The calendar -/

/-- Every fourth year but for three centuries in four. -/
def LeapYear (year : Int) : Prop :=
  4 ∣ year ∧ ¬ 100 ∣ year ∨ 400 ∣ year

instance (year : Int) : Decidable (LeapYear year) := by
  unfold LeapYear
  infer_instance

/-- How many days a month has. -/
def monthLength (year month : Int) : Int :=
  if month = 2 then if LeapYear year then 29 else 28
  else if month = 4 ∨ month = 6 ∨ month = 9 ∨ month = 11 then 30
  else 31

/-- A day of the proleptic Gregorian calendar. -/
@[ext]
structure Date where
  year : Int
  month : Int
  day : Int
  monthStart : 1 ≤ month
  monthEnd : month ≤ 12
  dayStart : 1 ≤ day
  dayEnd : day ≤ monthLength year month

theorem monthLength_pos (year month : Int) : 1 ≤ monthLength year month := by
  unfold monthLength
  split_ifs <;> decide

theorem monthLength_le (year month : Int) : monthLength year month ≤ 31 := by
  unfold monthLength
  split_ifs <;> decide

/-- The first day of the month after a month of a year. -/
def Date.nextMonth (date : Date) : Date :=
  if last : date.month = 12 then
    { year := date.year + 1
      month := 1
      day := 1
      monthStart := by decide
      monthEnd := by decide
      dayStart := by decide
      dayEnd := monthLength_pos _ _ }
  else
    { year := date.year
      month := date.month + 1
      day := 1
      monthStart := by have := date.monthStart; omega
      monthEnd := by have := date.monthEnd; omega
      dayStart := by decide
      dayEnd := monthLength_pos _ _ }

/-- The day after a day. -/
def Date.next (date : Date) : Date :=
  if within : date.day < monthLength date.year date.month then
    { date with
      day := date.day + 1
      dayStart := by have := date.dayStart; omega
      dayEnd := by omega }
  else
    date.nextMonth

def epoch : Date where
  year := 1970
  month := 1
  day := 1
  monthStart := by decide
  monthEnd := by decide
  dayStart := by decide
  dayEnd := by decide

/-- How many days lie between two dates: that many steps lead from one to the other. -/
inductive DaysBetween (first second : Date) : Int → Prop
  | after {count : Nat} (reached : Date.next^[count] first = second) : DaysBetween first second count
  | before {count : Nat} (reached : Date.next^[count] second = first)
    : DaysBetween first second (-count)

/-! ### The closed form -/

/-- The days before a year that begins in March, counted from the year 0. -/
def daysBeforeYear (year : Int) : Int :=
  365 * year + year / 4 - year / 100 + year / 400

/-- The source's count without eras. -/
theorem daysFromCivil_eq {day : Int} (start : 1 ≤ month) (last : month ≤ 12)
    : daysFromCivil year month day
      = if month ≤ 2 then daysBeforeYear (year - 1) + (153 * (month + 9) + 2) / 5 + day - 719469
        else daysBeforeYear year + (153 * (month - 3) + 2) / 5 + day - 719469 := by
  have eras (year : Int) : (if 0 ≤ year then year else year - 399).tdiv 400 = year / 400 := by
    split
    case isTrue positive => exact Int.tdiv_eq_ediv_of_nonneg positive
    case isFalse negative =>
      have flipped : year - 399 = -(399 - year) := by omega
      rw [flipped, Int.neg_tdiv, Int.tdiv_eq_ediv_of_nonneg (by omega)]
      omega
  have closed (year : Int) : year / 400 * 146097 + ((year - year / 400 * 400) * 365
      + (year - year / 400 * 400).tdiv 4 - (year - year / 400 * 400).tdiv 100)
      = daysBeforeYear year := by
    have positive : 0 ≤ year - year / 400 * 400 := by omega
    rw [Int.tdiv_eq_ediv_of_nonneg positive, Int.tdiv_eq_ediv_of_nonneg positive, daysBeforeYear]
    omega
  unfold daysFromCivil
  simp only [eras]
  split
  case isTrue early =>
    have offset : (153 * (month + 9) + 2).tdiv 5 = (153 * (month + 9) + 2) / 5 :=
      Int.tdiv_eq_ediv_of_nonneg (by omega)
    rw [if_neg (by omega : ¬ 2 < month), offset, ← closed]
    omega
  case isFalse late =>
    have offset : (153 * (month + -3) + 2).tdiv 5 = (153 * (month - 3) + 2) / 5 :=
      Int.tdiv_eq_ediv_of_nonneg (by omega)
    rw [if_pos (by omega : 2 < month), offset, ← closed, Int.sub_zero]
    omega

theorem daysBeforeYear_succ (year : Int)
    : daysBeforeYear year = daysBeforeYear (year - 1) + if LeapYear year then 366 else 365 := by
  by_cases leap : LeapYear year
  · rw [if_pos leap]
    unfold LeapYear at leap
    unfold daysBeforeYear
    omega
  · rw [if_neg leap]
    unfold LeapYear at leap
    unfold daysBeforeYear
    omega

/-- The first day of the next month follows the last day of a month.
Witness: the offsets of the months differ by their lengths, and February's by the leap day.
-/
theorem daysFromCivil_month (start : 1 ≤ month) (before : month < 12)
    : daysFromCivil year (month + 1) 1
      = daysFromCivil year month 1 + monthLength year month := by
  rw [daysFromCivil_eq (by omega) (by omega), daysFromCivil_eq start (by omega)]
  have leap := daysBeforeYear_succ year
  unfold monthLength
  interval_cases month
  all_goals
    split_ifs at leap ⊢
    all_goals omega

theorem daysFromCivil_year (year : Int)
    : daysFromCivil (year + 1) 1 1 = daysFromCivil year 12 1 + monthLength year 12 := by
  rw [daysFromCivil_eq (by decide) (by decide), daysFromCivil_eq (by decide) (by decide),
    if_pos (by decide), if_neg (by decide), Int.add_sub_cancel]
  simp [monthLength]
  omega

theorem daysFromCivil_day (start : 1 ≤ month) (last : month ≤ 12) (day : Int)
    : daysFromCivil year month day = daysFromCivil year month 1 + (day - 1) := by
  rw [daysFromCivil_eq start last, daysFromCivil_eq start last]
  split_ifs <;> omega

/-- The days of a date. -/
def Date.days (date : Date) : Int :=
  daysFromCivil date.year date.month date.day

theorem Date.days_eq (date : Date)
    : date.days = daysFromCivil date.year date.month 1 + (date.day - 1) :=
  daysFromCivil_day date.monthStart date.monthEnd date.day

theorem Date.days_nextMonth (date : Date)
    : date.nextMonth.days
      = daysFromCivil date.year date.month 1 + monthLength date.year date.month := by
  unfold Date.nextMonth
  split
  case isTrue last => rw [last, ← daysFromCivil_year]; rfl
  case isFalse =>
    have before : date.month < 12 := by have := date.monthEnd; omega
    rw [← daysFromCivil_month date.monthStart before]
    rfl

theorem Date.days_next (date : Date) : date.next.days = date.days + 1 := by
  have dayEnd := date.dayEnd
  rw [date.days_eq]
  unfold Date.next
  split
  case isTrue =>
    rw [Date.days_eq]
    dsimp only
    omega
  case isFalse full =>
    rw [Date.days_nextMonth]
    omega

theorem days_epoch : epoch.days = 0 := by decide

/-! ### Order -/

/-- The first day of a month, by the number of the month since the year 0. -/
def monthFirst (index : Int) : Int :=
  daysFromCivil ((index - 1) / 12) ((index - 1) % 12 + 1) 1

theorem monthFirst_eq (start : 1 ≤ month) (last : month ≤ 12)
    : monthFirst (12 * year + month) = daysFromCivil year month 1 := by
  have quotient : (12 * year + month - 1) / 12 = year := by omega
  have remainder : (12 * year + month - 1) % 12 + 1 = month := by omega
  rw [monthFirst, quotient, remainder]

theorem monthFirst_succ (start : 1 ≤ month) (last : month ≤ 12)
    : monthFirst (12 * year + month + 1)
      = daysFromCivil year month 1 + monthLength year month := by
  by_cases december : month = 12
  · have index : 12 * year + month + 1 = 12 * (year + 1) + 1 := by omega
    rw [index, monthFirst_eq (by decide) (by decide), december, daysFromCivil_year]
  · rw [Int.add_assoc, monthFirst_eq (by omega) (by omega), daysFromCivil_month start (by omega)]

theorem monthFirst_monotone : Monotone monthFirst := by
  refine monotone_int_of_le_succ fun index => ?_
  have split : index = 12 * ((index - 1) / 12) + ((index - 1) % 12 + 1) := by omega
  rw [split, monthFirst_eq (by omega) (by omega), monthFirst_succ (by omega) (by omega)]
  have := monthLength_pos ((index - 1) / 12) ((index - 1) % 12 + 1)
  omega

/-- A later date has more days.
Witness: a day lies before the first of the next month, and the firsts are in their order.
-/
theorem Date.days_lt {left right : Date}
    (earlier : [left.year, left.month, left.day] < [right.year, right.month, right.day])
    : left.days < right.days := by
  have leftStart := left.monthStart
  have leftEnd := left.monthEnd
  have rightStart := right.monthStart
  have rightEnd := right.monthEnd
  have dayEnd := left.dayEnd
  have dayStart := right.dayStart
  rw [left.days_eq, right.days_eq]
  simp only [List.cons_lt_cons_iff, List.lt_irrefl, and_false, or_false] at earlier
  by_cases same : left.year = right.year ∧ left.month = right.month
  · rw [same.1, same.2]
    omega
  · have behind : 12 * left.year + left.month + 1 ≤ 12 * right.year + right.month := by omega
    have firsts := monthFirst_monotone behind
    rw [monthFirst_succ leftStart leftEnd, monthFirst_eq rightStart rightEnd] at firsts
    omega

theorem Date.days_injective : Function.Injective Date.days := by
  intro left right same
  rcases lt_trichotomy [left.year, left.month, left.day] [right.year, right.month, right.day]
    with earlier | equal | later
  · exact absurd same (ne_of_lt (Date.days_lt earlier))
  · simp only [List.cons.injEq, and_true] at equal
    exact Date.ext equal.1 equal.2.1 equal.2.2
  · exact absurd same.symm (ne_of_lt (Date.days_lt later))

theorem Date.days_iterate (date : Date) (count : Nat)
    : (Date.next^[count] date).days = date.days + count := by
  induction count with
  | zero => simp
  | succ count ih =>
    rw [Function.iterate_succ_apply', Date.days_next, ih]
    push_cast
    ring

/-- The days of a date are those between the epoch and it.
Witness: so many steps lead to a date with as many days, and there is only one.
-/
theorem Date.daysBetween (date : Date) : DaysBetween epoch date date.days := by
  rcases Int.le_total 0 date.days with positive | negative
  · obtain ⟨count, counted⟩ := Int.eq_ofNat_of_zero_le positive
    rw [counted]
    refine .after (Date.days_injective ?_)
    rw [Date.days_iterate, days_epoch, counted, Int.zero_add]
  · obtain ⟨count, counted⟩ := Int.exists_eq_neg_ofNat negative
    rw [counted]
    refine .before (Date.days_injective ?_)
    rw [Date.days_iterate, days_epoch, counted, Int.add_left_neg]

/-! ### Times as text -/

/-- A number in so many decimal digits. -/
def padded : Nat → Nat → List UInt8
  | 0, _ => []
  | count + 1, value => UInt8.ofNat (48 + value / 10 ^ count) :: padded count (value % 10 ^ count)

theorem length_padded (count value : Nat) : (padded count value).length = count := by
  induction count generalizing value with
  | zero => rfl
  | succ count ih => rw [padded, List.length_cons, ih]

/-- A second of the calendar. -/
structure Instant where
  date : Date
  hour : Nat
  minute : Nat
  second : Nat
  hourEnd : hour ≤ 23
  minuteEnd : minute ≤ 59
  secondEnd : second ≤ 59

/-- What both forms write behind the year. -/
def Instant.tail (instant : Instant) : List UInt8 :=
  padded 2 instant.date.month.toNat ++ (padded 2 instant.date.day.toNat
    ++ (padded 2 instant.hour ++ (padded 2 instant.minute ++ (padded 2 instant.second ++ [90]))))

/-- An instant as a certificate writes it, in either form. -/
inductive Written (element : Element) (instant : Instant) : Prop
  | utc (tag : element.tag = tagUtcTime) (first : 1950 ≤ instant.date.year)
    (last : instant.date.year ≤ 2049)
    (content : element.content = padded 2 (instant.date.year % 100).toNat ++ instant.tail)
  | generalized (tag : element.tag = tagGeneralizedTime) (first : 0 ≤ instant.date.year)
    (last : instant.date.year ≤ 9999)
    (content : element.content = padded 4 instant.date.year.toNat ++ instant.tail)

def Instant.microseconds (instant : Instant) : Int :=
  (instant.date.days * 86400 + instant.hour * 3600 + instant.minute * 60 + instant.second) * 1000000

/-- The fields of an instant, most significant first. -/
def Instant.fields (instant : Instant) : List Int :=
  [instant.date.year, instant.date.month, instant.date.day, instant.hour, instant.minute,
    instant.second]

theorem digit_byte (byte : UInt8) (value : Nat) (small : value < 10)
    : byte = UInt8.ofNat (48 + value)
      ↔ (48 ≤ byte ∧ byte ≤ 57) ∧ (byte - 48).toNat = value := by
  constructor
  · rintro rfl
    interval_cases value <;> decide
  · rintro ⟨⟨low, high⟩, rfl⟩
    apply UInt8.toNat_inj.mp
    have lower := UInt8.le_iff_toNat_le.mp low
    have upper := UInt8.le_iff_toNat_le.mp high
    have bound := byte.toNat_lt
    change 48 ≤ byte.toNat at lower
    rw [UInt8.toNat_sub_of_le _ _ low, UInt8.toNat_ofNat']
    change byte.toNat = (48 + (byte.toNat - 48)) % 256
    omega

theorem digitsLoop_succ_eq_ok {out value : Int}
    : digitsLoop data (count + 1) index out = .ok value
      ↔ ∃ digit < 10, data.drop index = UInt8.ofNat (48 + digit) :: data.drop (index + 1)
        ∧ digitsLoop data count (index + 1) (out * 10 + digit) = .ok value := by
  constructor
  · intro returned
    obtain ⟨byte, read, returned⟩ := bind_eq_ok.mp returned
    obtain ⟨_, checked, continued⟩ := bind_eq_ok.mp returned
    have inside := of_require checked
    have small : (byte - 48).toNat < 10 := by
      rw [UInt8.toNat_sub_of_le _ _ inside.1]
      have upper := UInt8.le_iff_toNat_le.mp inside.2
      change byte.toNat ≤ 57 at upper
      change byte.toNat - 48 < 10
      omega
    have same := (digit_byte byte _ small).mpr ⟨inside, rfl⟩
    exact ⟨(byte - 48).toNat, small, same ▸ readByte_eq_ok.mp read, continued⟩
  · rintro ⟨digit, small, left, continued⟩
    obtain ⟨inside, same⟩ := (digit_byte _ digit small).mp rfl
    rw [digitsLoop, readByte_of_drop left, ok_bind, require_eq_ok _ inside, ok_bind, same]
    exact continued

/-- Digits are read exactly where a number is written.
Witness: induction on the count, the most significant digit first.
-/
theorem digitsLoop_eq_ok {out value : Int}
    : digitsLoop data count index out = .ok value
      ↔ ∃ number : Nat, number < 10 ^ count ∧ value = out * 10 ^ count + number
        ∧ data.drop index = padded count number ++ data.drop (index + count) := by
  induction count generalizing index out with
  | zero =>
    constructor
    · intro returned
      obtain rfl := Except.ok.inj returned
      exact ⟨0, by decide, by simp, rfl⟩
    · rintro ⟨number, small, rfl, -⟩
      obtain rfl : number = 0 := by omega
      simp [digitsLoop]
  | succ count ih =>
    have power : 0 < 10 ^ count := Nat.pow_pos (by decide)
    have behind : index + 1 + count = index + (count + 1) := by omega
    rw [digitsLoop_succ_eq_ok]
    constructor
    · rintro ⟨digit, digitSmall, left, continued⟩
      obtain ⟨number, small, rfl, rest⟩ := ih.mp continued
      have quotient : (digit * 10 ^ count + number) / 10 ^ count = digit := by
        rw [Nat.mul_comm, Nat.mul_add_div power, Nat.div_eq_of_lt small, Nat.add_zero]
      have remainder : (digit * 10 ^ count + number) % 10 ^ count = number := by
        rw [Nat.mul_comm, Nat.mul_add_mod, Nat.mod_eq_of_lt small]
      refine ⟨digit * 10 ^ count + number, ?_, ?_, ?_⟩
      · rw [Nat.pow_succ]
        nlinarith
      · push_cast
        ring
      · rw [left, rest, behind, padded, quotient, remainder]
        rfl
    · rintro ⟨number, small, rfl, left⟩
      have digitSmall : number / 10 ^ count < 10 := by
        rw [Nat.div_lt_iff_lt_mul power, ← Nat.pow_succ']
        exact small
      have tail : data.drop (index + 1)
          = padded count (number % 10 ^ count) ++ data.drop (index + 1 + count) := by
        rw [← List.drop_drop, left, behind]
        rfl
      refine ⟨number / 10 ^ count, digitSmall, ?_, ih.mpr ⟨number % 10 ^ count,
        Nat.mod_lt _ power, ?_, tail⟩⟩
      · rw [tail, left, behind]
        rfl
      · have split := Nat.div_add_mod number (10 ^ count)
        have cast : (number : Int)
            = 10 ^ count * (number / 10 ^ count : Nat) + (number % 10 ^ count : Nat) := by
          exact_mod_cast split.symm
        linear_combination cast

theorem digits_eq_ok {value : Int}
    : digits data index count = .ok value
      ↔ ∃ number : Nat, number < 10 ^ count ∧ value = number
        ∧ data.drop index = padded count number ++ data.drop (index + count) := by
  rw [digits, digitsLoop_eq_ok]
  simp only [Int.zero_mul, Int.zero_add]

theorem digits_of_drop {rest : List UInt8} {number : Nat} (small : number < 10 ^ count)
    (left : data.drop index = padded count number ++ rest)
    : digits data index count = .ok (number : Int) ∧ data.drop (index + count) = rest := by
  have behind : data.drop (index + count) = rest := by
    rw [← List.drop_drop, left, List.drop_left' (length_padded count number)]
  exact ⟨digits_eq_ok.mpr ⟨number, small, rfl, by rw [behind, left]⟩, behind⟩

theorem isLeap_iff (year : Int) : isLeap year = true ↔ LeapYear year := by
  rw [isLeap, decide_eq_true_iff, LeapYear, Int.dvd_iff_tmod_eq_zero, Int.dvd_iff_tmod_eq_zero,
    Int.dvd_iff_tmod_eq_zero]

theorem daysInMonth_eq (start : 1 ≤ month) (last : month ≤ 12)
    : daysInMonth year month = monthLength year month := by
  unfold daysInMonth monthLength
  by_cases leap : LeapYear year
  · simp only [(isLeap_iff year).mpr leap, if_pos leap]
    interval_cases month <;> rfl
  · simp only [mt (isLeap_iff year).mp leap, if_neg leap]
    interval_cases month <;> rfl

/-- The year of either form, and what stands behind it. -/
inductive YearRead (element : Element) : Int × Nat → Prop
  | utc {number : Nat} (tag : element.tag = tagUtcTime) (size : element.content.length = 13)
    (small : number < 100) (content : element.content = padded 2 number ++ element.content.drop 2)
    : YearRead element (number + (if (number : Int) < 50 then 2000 else 1900), 2)
  | generalized {number : Nat} (tag : element.tag = tagGeneralizedTime)
    (size : element.content.length = 15) (small : number < 10000)
    (content : element.content = padded 4 number ++ element.content.drop 4)
    : YearRead element (number, 4)

theorem decodeYear_eq_ok {year : Int × Nat}
    : decodeYear element = .ok year ↔ YearRead element year := by
  constructor
  · intro returned
    unfold decodeYear at returned
    split at returned
    case isTrue utc =>
      obtain ⟨value, read, returned⟩ := bind_eq_ok.mp returned
      obtain ⟨number, small, rfl, left⟩ := digits_eq_ok.mp read
      obtain rfl := Except.ok.inj returned
      exact .utc utc.1 utc.2 small left
    case isFalse =>
      split at returned
      case isTrue generalized =>
        obtain ⟨value, read, returned⟩ := bind_eq_ok.mp returned
        obtain ⟨number, small, rfl, left⟩ := digits_eq_ok.mp read
        obtain rfl := Except.ok.inj returned
        exact .generalized generalized.1 generalized.2 small left
      case isFalse => cases returned
  · intro read
    cases read with
    | utc tag size small content =>
      have read : digits element.content 0 2 = .ok _ := digits_eq_ok.mpr ⟨_, small, rfl, content⟩
      rw [decodeYear, if_pos ⟨tag, size⟩, read]
      rfl
    | generalized tag size small content =>
      have other : ¬ (element.tag = tagUtcTime ∧ element.content.length = 13) :=
        fun utc => absurd (tag.symm.trans utc.1) (by decide)
      have read : digits element.content 0 4 = .ok _ := digits_eq_ok.mpr ⟨_, small, rfl, content⟩
      rw [decodeYear, if_neg other, if_pos ⟨tag, size⟩, read]
      rfl

theorem YearRead.size {year : Int × Nat} (read : YearRead element year)
    : element.content.length = year.2 + 11 := by
  cases read with
  | utc tag size => exact size
  | generalized tag size => exact size

theorem YearRead.written {instant : Instant} {start : Nat}
    (read : YearRead element (instant.date.year, start))
    (behind : element.content.drop start = instant.tail)
    : Written element instant := by
  generalize same : (instant.date.year, start) = year at read
  cases read with
  | @utc number tag size small content =>
    obtain ⟨year, rfl⟩ := Prod.mk.inj same
    rw [behind] at content
    have bounds : 1950 ≤ instant.date.year ∧ instant.date.year ≤ 2049
        ∧ (instant.date.year % 100).toNat = number := by
      rw [year]
      split_ifs <;> omega
    exact .utc tag bounds.1 bounds.2.1 (by rw [bounds.2.2]; exact content)
  | @generalized number tag size small content =>
    obtain ⟨year, rfl⟩ := Prod.mk.inj same
    rw [behind] at content
    exact .generalized tag (by omega) (by omega) (by rw [year]; exact content)

theorem Instant.length_tail (instant : Instant) : instant.tail.length = 11 := by
  simp [Instant.tail, length_padded]

theorem Written.yearRead {instant : Instant} (written : Written element instant)
    : ∃ start, YearRead element (instant.date.year, start)
        ∧ element.content.drop start = instant.tail := by
  cases written with
  | utc tag first last content =>
    have behind : element.content.drop 2 = instant.tail := by
      rw [content, List.drop_left' (length_padded 2 _)]
    have size : element.content.length = 13 := by
      rw [content, List.length_append, length_padded, instant.length_tail]
    have year : instant.date.year
        = ((instant.date.year % 100).toNat : Int)
          + (if ((instant.date.year % 100).toNat : Int) < 50 then 2000 else 1900) := by
      split_ifs <;> omega
    refine ⟨2, ?_, behind⟩
    rw [year]
    exact .utc tag size (by omega) (by rw [behind]; exact content)
  | generalized tag first last content =>
    have behind : element.content.drop 4 = instant.tail := by
      rw [content, List.drop_left' (length_padded 4 _)]
    have size : element.content.length = 15 := by
      rw [content, List.length_append, length_padded, instant.length_tail]
    refine ⟨4, ?_, behind⟩
    rw [← Int.toNat_of_nonneg first]
    exact .generalized tag size (by omega) (by rw [behind]; exact content)

/-- A time is accepted exactly when it writes an instant, and gives its microseconds. -/
theorem decodeTime_eq_ok {time : Int}
    : decodeTime element = .ok time
      ↔ ∃ instant : Instant, Written element instant ∧ time = instant.microseconds := by
  constructor
  · intro returned
    obtain ⟨⟨year, start⟩, yearRead, returned⟩ := bind_eq_ok.mp returned
    obtain ⟨month, monthRead, returned⟩ := bind_eq_ok.mp returned
    obtain ⟨day, dayRead, returned⟩ := bind_eq_ok.mp returned
    obtain ⟨hour, hourRead, returned⟩ := bind_eq_ok.mp returned
    obtain ⟨minute, minuteRead, returned⟩ := bind_eq_ok.mp returned
    obtain ⟨second, secondRead, returned⟩ := bind_eq_ok.mp returned
    obtain ⟨zone, zoneRead, returned⟩ := bind_eq_ok.mp returned
    obtain ⟨_, zoneCheck, returned⟩ := bind_eq_ok.mp returned
    obtain ⟨_, rangeCheck, result⟩ := bind_eq_ok.mp returned
    have yearOk := decodeYear_eq_ok.mp yearRead
    obtain ⟨monthNumber, -, rfl, monthLeft⟩ := digits_eq_ok.mp monthRead
    obtain ⟨dayNumber, -, rfl, dayLeft⟩ := digits_eq_ok.mp dayRead
    obtain ⟨hourNumber, -, rfl, hourLeft⟩ := digits_eq_ok.mp hourRead
    obtain ⟨minuteNumber, -, rfl, minuteLeft⟩ := digits_eq_ok.mp minuteRead
    obtain ⟨secondNumber, -, rfl, secondLeft⟩ := digits_eq_ok.mp secondRead
    have zoneLeft := readByte_eq_ok.mp zoneRead
    obtain rfl := of_require zoneCheck
    have range := of_require rangeCheck
    have months : 1 ≤ (monthNumber : Int) ∧ (monthNumber : Int) ≤ 12 := by omega
    rw [daysInMonth_eq months.1 months.2] at range
    let instant : Instant := {
      date := {
        year
        month := monthNumber
        day := dayNumber
        monthStart := months.1
        monthEnd := months.2
        dayStart := by omega
        dayEnd := by omega }
      hour := hourNumber
      minute := minuteNumber
      second := secondNumber
      hourEnd := by omega
      minuteEnd := by omega
      secondEnd := by omega }
    have behind : element.content.drop start = instant.tail := by
      have ended : element.content.drop (start + 10 + 1) = [] :=
        List.drop_eq_nil_of_le (le_of_eq yearOk.size)
      rw [ended] at zoneLeft
      rw [monthLeft, dayLeft, hourLeft, minuteLeft, secondLeft, zoneLeft]
      rfl
    exact ⟨instant, yearOk.written behind, (Except.ok.inj result).symm⟩
  · rintro ⟨instant, written, rfl⟩
    obtain ⟨start, yearRead, behind⟩ := written.yearRead
    have monthStart := instant.date.monthStart
    have monthEnd := instant.date.monthEnd
    have dayStart := instant.date.dayStart
    have dayEnd := instant.date.dayEnd
    have days := monthLength_le instant.date.year instant.date.month
    have hourEnd := instant.hourEnd
    have minuteEnd := instant.minuteEnd
    have secondEnd := instant.secondEnd
    obtain ⟨monthRead, dayLeft⟩ := digits_of_drop (by omega) behind
    obtain ⟨dayRead, hourLeft⟩ := digits_of_drop (by omega) dayLeft
    obtain ⟨hourRead, minuteLeft⟩ := digits_of_drop (by omega) hourLeft
    obtain ⟨minuteRead, secondLeft⟩ := digits_of_drop (by omega) minuteLeft
    obtain ⟨secondRead, zoneLeft⟩ := digits_of_drop (by omega) secondLeft
    have range : ¬ (instant.date.month < 1 ∨ 12 < instant.date.month ∨ instant.date.day < 1
        ∨ daysInMonth instant.date.year instant.date.month < instant.date.day
        ∨ 23 < (instant.hour : Int) ∨ 59 < (instant.minute : Int) ∨ 59 < (instant.second : Int)) := by
      rw [daysInMonth_eq monthStart monthEnd]
      omega
    rw [Int.toNat_of_nonneg (by omega)] at monthRead dayRead
    rw [decodeTime, decodeYear_eq_ok.mpr yearRead, ok_bind]
    dsimp only
    rw [monthRead, ok_bind, dayRead, ok_bind, hourRead, ok_bind, minuteRead, ok_bind, secondRead,
      ok_bind, readByte_of_drop zoneLeft, ok_bind, require_eq_ok _ rfl, ok_bind,
      require_eq_ok _ range, ok_bind]
    rfl

/-! ### Exactness -/

/-- A later instant has more microseconds.
Witness: a day holds more than the seconds of any time of it.
-/
theorem Instant.microseconds_lt {left right : Instant} (earlier : left.fields < right.fields)
    : left.microseconds < right.microseconds := by
  have leftHour := left.hourEnd
  have leftMinute := left.minuteEnd
  have leftSecond := left.secondEnd
  have rightMinute := right.minuteEnd
  have rightSecond := right.secondEnd
  unfold Instant.microseconds
  by_cases same : left.date = right.date
  · simp only [Instant.fields, same, List.cons_lt_cons_iff, and_false, or_false, lt_irrefl,
      true_and, false_or] at earlier
    rw [same]
    omega
  · have dates : [left.date.year, left.date.month, left.date.day]
        < [right.date.year, right.date.month, right.date.day] := by
      have different : ¬ (left.date.year = right.date.year ∧ left.date.month = right.date.month
          ∧ left.date.day = right.date.day) :=
        fun equal => same (Date.ext equal.1 equal.2.1 equal.2.2)
      simp only [Instant.fields, List.cons_lt_cons_iff, List.lt_irrefl, and_false,
        or_false] at earlier ⊢
      omega
    have days := Date.days_lt dates
    omega

theorem DaysBetween.eq_days {date : Date} {days : Int} (between : DaysBetween epoch date days)
    : days = date.days := by
  cases between with
  | after reached =>
    rw [← reached, Date.days_iterate, days_epoch, Int.zero_add]
  | before reached =>
    have stepped := Date.days_iterate date
    have count := stepped _ ▸ congrArg Date.days reached
    rw [days_epoch] at count
    omega

theorem Written.decodes {instant : Instant} {time : Int} (written : Written element instant)
    (returned : decodeTime element = .ok time)
    : time = instant.microseconds :=
  Except.ok.inj (returned.symm.trans (decodeTime_eq_ok.mpr ⟨instant, written, rfl⟩))

/-- Times are exact. Each day of the proleptic Gregorian calendar has one day more than the day
before it, and the epoch has none. A UTCTime or GeneralizedTime is accepted exactly when it writes
an existing instant, and gives the microseconds from the epoch to it; and a later instant gives a
larger number.
Witness: the closed form of the days steps by one at every day and every end of a month, so the
days of a date are the steps from the epoch; the digits of either form are read where they are
written.
-/
theorem decodeTime_exact
    : (∀ date : Date, daysFromCivil date.next.year date.next.month date.next.day
          = daysFromCivil date.year date.month date.day + 1)
      ∧ daysFromCivil 1970 1 1 = 0
      ∧ (∀ (element : Element) (time : Int), decodeTime element = .ok time
          ↔ ∃ (instant : Instant) (days : Int), Written element instant
            ∧ DaysBetween epoch instant.date days
            ∧ time = (days * 86400 + instant.hour * 3600 + instant.minute * 60 + instant.second)
              * 1000000)
      ∧ ∀ (left right : Element) (first second : Instant) (firstTime secondTime : Int),
          Written left first → Written right second → decodeTime left = .ok firstTime →
          decodeTime right = .ok secondTime → first.fields < second.fields →
            firstTime < secondTime := by
  refine ⟨Date.days_next, by decide, fun element time => ?_, ?_⟩
  · rw [decodeTime_eq_ok]
    constructor
    · rintro ⟨instant, written, rfl⟩
      exact ⟨instant, instant.date.days, written, instant.date.daysBetween, rfl⟩
    · rintro ⟨instant, days, written, between, rfl⟩
      exact ⟨instant, written, by rw [between.eq_days]; rfl⟩
  · intro left right first second firstTime secondTime leftWritten rightWritten leftRead rightRead
      earlier
    rw [leftWritten.decodes leftRead, rightWritten.decodes rightRead]
    exact Instant.microseconds_lt earlier

/-- The first second after the epoch, and the last of the year 2049. -/
def firstSecond : Instant := ⟨epoch, 0, 0, 1, by decide, by decide, by decide⟩

def lastSecond : Instant :=
  ⟨⟨2049, 12, 31, by decide, by decide, by decide, by decide⟩, 23, 59, 59, by decide, by decide,
    by decide⟩

/-- The two are written as UTCTimes and read in their order. -/
theorem decodeTime_exact_ends
    : decodeTime ⟨tagUtcTime, Text.ascii "700101000001Z"⟩ = .ok 1000000
      ∧ decodeTime ⟨tagUtcTime, Text.ascii "491231235959Z"⟩ = .ok 2524607999000000
      ∧ (1000000 : Int) < 2524607999000000 := by
  have first : decodeTime ⟨tagUtcTime, Text.ascii "700101000001Z"⟩ = .ok 1000000 := rfl
  have last : decodeTime ⟨tagUtcTime, Text.ascii "491231235959Z"⟩ = .ok 2524607999000000 := rfl
  exact ⟨first, last, decodeTime_exact.2.2.2 _ _ firstSecond lastSecond _ _
    (.utc rfl (by decide) (by decide) (by decide)) (.utc rfl (by decide) (by decide) (by decide))
    first last (by decide)⟩

end PacketQuapture.X509
