import PacketQuapture.X509.Element

/-! Certificate times: the two forms a certificate may write, and the days of a date. -/

namespace PacketQuapture.X509

open Library

def tagUtcTime : UInt8 := 0x17
def tagGeneralizedTime : UInt8 := 0x18

/-- The loop of `digits`: `count` more digits from `index` on. -/
def digitsLoop (data : List UInt8) : Nat → Nat → Int → Except X509Stop Int
  | 0, _, out => .ok out
  | count + 1, index, out => do
    let byte ← readByte data index
    require (48 ≤ byte ∧ byte ≤ 57) .malformed
    digitsLoop data count (index + 1) (out * 10 + (byte - 48).toNat)

/-- A number of `count` decimal digits. -/
def digits (data : List UInt8) (index count : Nat) : Except X509Stop Int :=
  digitsLoop data count index 0

/-- Days from 1970-01-01 to a proleptic Gregorian date; division truncates. -/
def daysFromCivil (year month day : Int) : Int :=
  let year := year - if month ≤ 2 then 1 else 0
  let era := (if 0 ≤ year then year else year - 399).tdiv 400
  let yoe := year - era * 400
  let doy := (153 * (month + if 2 < month then -3 else 9) + 2).tdiv 5 + day - 1
  let doe := yoe * 365 + yoe.tdiv 4 - yoe.tdiv 100 + doy
  era * 146097 + doe - 719468

def monthDays : List Int := [31, 28, 31, 30, 31, 30, 31, 31, 30, 31, 30, 31]

def isLeap (year : Int) : Bool :=
  year.tmod 4 = 0 ∧ year.tmod 100 ≠ 0 ∨ year.tmod 400 = 0

/-- The days of a month that is in range. -/
def daysInMonth (year month : Int) : Int :=
  monthDays.getD (month - 1).toNat 0 + if month = 2 ∧ isLeap year then 1 else 0

/-- The year of either form, and where the rest of the text begins. -/
def decodeYear (element : Element) : Except X509Stop (Int × Nat) :=
  if element.tag = tagUtcTime ∧ element.content.length = 13 then do
    let year ← digits element.content 0 2
    return (year + (if year < 50 then 2000 else 1900), 2)
  else if element.tag = tagGeneralizedTime ∧ element.content.length = 15 then do
    let year ← digits element.content 0 4
    return (year, 4)
  else
    .error .malformed

/-- RFC 5280 4.1.2.5: UTCTime YYMMDDHHMMSSZ, where YY below 50 is 20YY, and GeneralizedTime
YYYYMMDDHHMMSSZ; in microseconds since the Unix epoch.
-/
def decodeTime (element : Element) : Except X509Stop Int := do
  let (year, start) ← decodeYear element
  let month ← digits element.content start 2
  let day ← digits element.content (start + 2) 2
  let hour ← digits element.content (start + 4) 2
  let minute ← digits element.content (start + 6) 2
  let second ← digits element.content (start + 8) 2
  let zone ← readByte element.content (start + 10)
  require (zone = 90) .malformed
  require (¬ (month < 1 ∨ 12 < month ∨ day < 1 ∨ daysInMonth year month < day ∨ 23 < hour
    ∨ 59 < minute ∨ 59 < second)) .malformed
  return (daysFromCivil year month day * 86400 + hour * 3600 + minute * 60 + second) * 1000000

end PacketQuapture.X509
