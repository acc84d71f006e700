import Mathlib

/-! Unsigned integers as bytes, in either order. -/

namespace PacketQuapture.Library

/-- The lowest `width` bytes of a number, least significant first. -/
def littleEndian : Nat → Nat → List UInt8
  | 0, _ => []
  | width + 1, value => UInt8.ofNat value :: littleEndian width (value / 256)

/-- The lowest `width` bytes of a number, most significant first. -/
def bigEndian (width value : Nat) : List UInt8 :=
  (littleEndian width value).reverse

@[simp]
theorem length_littleEndian (width value : Nat) : (littleEndian width value).length = width := by
  induction width generalizing value with
  | zero => rfl
  | succ width ih => rw [littleEndian, List.length_cons, ih]

@[simp]
theorem length_bigEndian (width value : Nat) : (bigEndian width value).length = width := by
  rw [bigEndian, List.length_reverse, length_littleEndian]

theorem uint16_of_bytes (value : Nat)
    : (UInt8.ofNat (value / 256)).toUInt16 <<< 8 ||| (UInt8.ofNat value).toUInt16
      = UInt16.ofNat value := by
  have shift : UInt16.toNat 8 % 16 = 8 := rfl
  rw [← UInt16.toNat_inj]
  simp only [UInt16.toNat_or, UInt16.toNat_shiftLeft, UInt8.toNat_toUInt16, UInt8.toNat_ofNat',
    UInt16.toNat_ofNat', shift]
  rw [Nat.mod_eq_of_lt (by rw [Nat.shiftLeft_eq]; omega),
    ← Nat.shiftLeft_add_eq_or_of_lt (by omega), Nat.shiftLeft_eq]
  omega

theorem uint32_of_words (value : Nat)
    : (UInt16.ofNat (value / 65536)).toUInt32 <<< 16 ||| (UInt16.ofNat value).toUInt32
      = UInt32.ofNat value := by
  have shift : UInt32.toNat 16 % 32 = 16 := rfl
  rw [← UInt32.toNat_inj]
  simp only [UInt32.toNat_or, UInt32.toNat_shiftLeft, UInt16.toNat_toUInt32, UInt16.toNat_ofNat',
    UInt32.toNat_ofNat', shift]
  rw [Nat.mod_eq_of_lt (by rw [Nat.shiftLeft_eq]; omega),
    ← Nat.shiftLeft_add_eq_or_of_lt (by omega), Nat.shiftLeft_eq]
  omega

theorem bigEndian_four (value : Nat)
    : bigEndian 4 value = bigEndian 2 (value / 65536) ++ bigEndian 2 value := by
  simp only [bigEndian, littleEndian, List.reverse_cons, List.reverse_nil, List.nil_append,
    List.cons_append, Nat.div_div_eq_div_mul]

end PacketQuapture.Library
