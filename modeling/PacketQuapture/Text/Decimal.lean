import PacketQuapture.Text.Format

/-! What decimals and hexadecimals look like: digits alone, at least one, and their value is read
back.
-/

namespace PacketQuapture.Text

variable {base value : Nat} {byte : UInt8}

/-- The value of a digit in lower case. -/
def digitValue (byte : UInt8) : Nat :=
  if byte < 58 then (byte - 48).toNat else (byte - 87).toNat

/-- The value of some digits, most significant first. -/
def readDigits (base : Nat) (text : List UInt8) : Nat :=
  text.foldl (fun value byte => value * base + digitValue byte) 0

theorem digitValue_digit (small : value < 16) : digitValue (digit value) = value := by
  interval_cases value <;> rfl

theorem readDigits_digits (positive : 1 < base) (small : base ≤ 16)
    : readDigits base (digits base value) = value := by
  have folded (numbers : List Nat) (bounded : ∀ number ∈ numbers, number < 16)
      : readDigits base (numbers.reverse.map digit) = Nat.ofDigits base numbers := by
    unfold readDigits
    rw [List.foldl_map, List.foldl_reverse]
    induction numbers with
    | nil => rfl
    | cons number rest ih =>
      rw [List.foldr_cons, Nat.ofDigits_cons,
        ih fun other member => bounded other (List.mem_cons_of_mem _ member),
        digitValue_digit (bounded number List.mem_cons_self), Nat.mul_comm, Nat.add_comm]
  rw [digits, folded _ fun number member =>
    (Nat.digits_lt_base positive member).trans_le small, Nat.ofDigits_digits]

theorem readDigits_decimal (value : Nat) : readDigits 10 (decimal value) = value := by
  unfold decimal
  split
  case isTrue zero => rw [zero]; rfl
  case isFalse => exact readDigits_digits (by decide) (by decide)

theorem decimal_inj {left right : Nat} : decimal left = decimal right ↔ left = right := by
  refine ⟨fun same => ?_, congrArg decimal⟩
  rw [← readDigits_decimal left, same, readDigits_decimal]

theorem digits_ne_nil (positive : value ≠ 0) : digits base value ≠ [] := by
  rw [digits, Ne, List.map_eq_nil_iff, List.reverse_eq_nil_iff]
  exact Nat.digits_ne_nil_iff_ne_zero.mpr positive

theorem decimal_ne_nil (value : Nat) : decimal value ≠ [] := by
  unfold decimal
  split
  case isTrue => exact List.cons_ne_nil _ _
  case isFalse positive => exact digits_ne_nil positive

theorem decimal_of_le (large : 10 ≤ value)
    : decimal value = decimal (value / 10) ++ [digit (value % 10)] := by
  have positive : value ≠ 0 := by omega
  have more : value / 10 ≠ 0 := by omega
  rw [decimal, decimal, if_neg positive, if_neg more, digits, digits,
    Nat.digits_def' (by decide) (Nat.pos_of_ne_zero positive), List.reverse_cons, List.map_append]
  rfl

theorem decimal_of_lt (small : value < 10) : decimal value = [digit value] := by
  interval_cases value <;> rfl

theorem length_decimal_le {count : Nat} (positive : 0 < count) (small : value < 10 ^ count)
    : (decimal value).length ≤ count := by
  unfold decimal
  split
  case isTrue => exact positive
  case isFalse =>
    rw [digits, List.length_map, List.length_reverse]
    exact (Nat.digits_length_le_iff (by decide) value).mpr small

theorem mem_decimal (member : byte ∈ decimal value) : 48 ≤ byte ∧ byte ≤ 57 := by
  unfold decimal at member
  split at member
  case isTrue =>
    rw [List.mem_singleton.mp member]
    decide
  case isFalse =>
    obtain ⟨number, among, rfl⟩ := List.mem_map.mp member
    have small := Nat.digits_lt_base (by decide : 1 < 10) (List.mem_reverse.mp among)
    interval_cases number <;> decide

theorem decimal_plain {separator : UInt8} (value : Nat) (low : separator < 48)
    : separator ∉ decimal value := by
  intro member
  exact absurd (mem_decimal member).1 (UInt8.not_le.mpr low)

end PacketQuapture.Text
