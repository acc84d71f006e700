import Mathlib

/-! Text the program prints, as the bytes of its strings: peer-supplied bytes escaped, addresses,
and plain decimals.
-/

namespace PacketQuapture.Text

/-- The bytes of an ASCII literal. -/
def ascii (literal : String) : List UInt8 :=
  literal.toList.map fun char => UInt8.ofNat char.toNat

/-- A decimal or hexadecimal digit, in lower case. -/
def digit (value : Nat) : UInt8 :=
  if value < 10 then 48 + UInt8.ofNat value else 87 + UInt8.ofNat value

/-- A number in a base, without leading zeros. -/
def digits (base value : Nat) : List UInt8 :=
  (Nat.digits base value).reverse.map digit

/-- `std::to_string` of an unsigned number. -/
def decimal (value : Nat) : List UInt8 :=
  if value = 0 then [48] else digits 10 value

def hexadecimal (value : Nat) : List UInt8 :=
  if value = 0 then [48] else digits 16 value

/-! ### Escapes -/

/-- A backslash and three decimal digits. -/
def appendDecimalEscape (out : List UInt8) (byte : UInt8) : List UInt8 :=
  out ++ [92, 48 + byte / 100, 48 + byte / 10 % 10, 48 + byte % 10]

/-- Printable ASCII other than the backslash passes through; every other byte is escaped. -/
def escapeTlsText (raw : List UInt8) : List UInt8 :=
  raw.foldl
    (fun text byte =>
      if 33 ≤ byte ∧ byte ≤ 126 ∧ byte ≠ 92 then text ++ [byte]
      else appendDecimalEscape text byte)
    []

/-! ### Addresses -/

/-- The eight groups of an IPv6 address. -/
def groups (address : List UInt8) : List Nat :=
  (List.range 8).map fun index =>
    (address.getD (2 * index) 0).toNat <<< 8 ||| (address.getD (2 * index + 1) 0).toNat

/-- The first of the longest runs of two or more zero groups: where it starts and its length;
`(8, 0)` when there is none. `fuel` bounds the groups still to visit.
-/
def longestZeros (parts : List Nat) : Nat → Nat → Nat × Nat → Nat × Nat
  | fuel + 1, index, best =>
    if index < 8 then
      let run := ((parts.drop index).takeWhile fun part => part = 0).length
      let best := if best.2 < run ∧ 2 ≤ run then (index, run) else best
      longestZeros parts fuel (if run = 0 then index + 1 else index + run) best
    else
      best
  | 0, _, best => best

/-- Writes the groups from `index` on, the run `best` as `::`. -/
def writeGroups (parts : List Nat) (best : Nat × Nat) : Nat → Nat → List UInt8 → List UInt8
  | fuel + 1, index, out =>
    if index < 8 then
      if index = best.1 then
        writeGroups parts best fuel (index + best.2) (out ++ [58, 58])
      else
        let out := if out ≠ [] ∧ out.getLast? ≠ some 58 then out ++ [58] else out
        writeGroups parts best fuel (index + 1) (out ++ hexadecimal (parts.getD index 0))
    else
      out
  | 0, _, out => out

/-- Dotted decimal for four bytes, the RFC 5952 text for sixteen. -/
def formatIp (address : List UInt8) : List UInt8 :=
  if address.length = 4 then
    [46].intercalate (address.map fun byte => decimal byte.toNat)
  else
    let parts := groups address
    writeGroups parts (longestZeros parts 8 0 (8, 0)) 8 0 []

end PacketQuapture.Text
