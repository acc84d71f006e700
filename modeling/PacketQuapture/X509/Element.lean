import PacketQuapture.Library.Outcome

/-! One DER element of a certificate, and the reads its decoders make.
A pointer and a length are the bytes of that range. A range is only ever formed inside the bytes it
is taken from, and a byte is only read inside its range; doing otherwise would be an error of its
own.
-/

namespace PacketQuapture.X509

open Library

/-- Why decoding stops: what the source reports, then what it must never do. -/
inductive X509Stop where
  | malformed
  /-- A range or a read outside the bytes it is taken from. -/
  | outOfBounds
deriving DecidableEq, Repr

/-- One byte of a range. -/
def readByte (data : List UInt8) (index : Nat) : Except X509Stop UInt8 :=
  match data[index]? with
  | some byte => .ok byte
  | none => .error .outOfBounds

/-- A range inside another. -/
def span (data : List UInt8) (start length : Nat) : Except X509Stop (List UInt8) := do
  require (start + length ≤ data.length) .outOfBounds
  return (data.drop start).take length

/-- One DER element. -/
structure Element where
  tag : UInt8 := 0
  content : List UInt8 := []
deriving DecidableEq, Repr

/-! ### Reads -/

theorem readByte_of_drop {data rest : List UInt8} {index : Nat} {byte : UInt8}
    (left : data.drop index = byte :: rest)
    : readByte data index = .ok byte := by
  have found : data[index]? = some byte := by
    rw [← List.head?_drop, left]
    rfl
  rw [readByte, found]

theorem readByte_eq_ok {data : List UInt8} {index : Nat} {byte : UInt8}
    : readByte data index = .ok byte ↔ data.drop index = byte :: data.drop (index + 1) := by
  refine ⟨fun read => ?_, readByte_of_drop⟩
  unfold readByte at read
  cases found : data[index]? with
  | none =>
    rw [found] at read
    cases read
  | some other =>
    rw [found] at read
    obtain ⟨inside, same⟩ := List.getElem?_eq_some_iff.mp found
    rw [List.drop_eq_getElem_cons inside, same, Except.ok.inj read]

theorem span_of_drop {data content rest : List UInt8} {start : Nat} (within : start ≤ data.length)
    (left : data.drop start = content ++ rest)
    : span data start content.length = .ok content := by
  have size := congrArg List.length left
  rw [List.length_drop, List.length_append] at size
  rw [span, require_eq_ok _ (by omega), ok_bind, left, List.take_left]
  rfl

end PacketQuapture.X509
