import PacketQuapture.Text.Format
import PacketQuapture.X509.Element

/-! Object identifiers as text. -/

namespace PacketQuapture.X509

open Library Text

/-! ### Decoding -/

/-- The inner loop of `wideArc`: the digits times 128 plus a carry, least significant first, and
the carry that is left.
-/
def wideLoop : List Nat → Nat → List Nat × Nat
  | [], carry => ([], carry)
  | digit :: rest, carry =>
    let value := digit * 128 + carry
    let (more, carry) := wideLoop rest (value / 10)
    (value % 10 :: more, carry)

/-- One base-128 digit onto a number in decimal, least significant digit first; the carry that is
left adds its own digits.
-/
def wideStep (decimal : List Nat) (byte : UInt8) : List Nat :=
  let (decimal, carry) := wideLoop decimal (byte &&& 0x7F).toNat
  decimal ++ Nat.digits 10 carry

/-- An arc wider than 64 bits as decimal, from its base-128 digits. -/
def wideArc (digits : List UInt8) : List UInt8 :=
  (digits.foldl wideStep [0]).reverse.map digit

/-- The text of an arc whose last digit is at `index`. -/
def arcText (content : List UInt8) (index digits : Nat) (value : UInt64)
    : Except X509Stop (List UInt8) :=
  if 9 < digits then do
    require (digits ≤ index + 1) .outOfBounds
    let wide ← span content (index + 1 - digits) digits
    return wideArc wide
  else
    .ok (decimal value.toNat)

/-- The loop of `decodeOid` from `index` on. -/
def oidLoop (content : List UInt8)
    : List UInt8 → Nat → UInt64 → Nat → Bool → List UInt8 → Except X509Stop (List UInt8)
  | [], _, _, _, _, out => .ok out
  | byte :: rest, index, value, digits, first, out =>
    -- a leading zero in an arc
    if digits = 0 ∧ byte = 0x80 then
      .error .malformed
    -- the first arc, which also encodes the top arc, must fit
    else if 20 < digits + 1 ∨ first ∧ 9 < digits + 1 then
      .error .malformed
    else
      let value := value <<< 7 ||| (byte &&& 0x7F).toUInt64
      if byte &&& 0x80 ≠ 0 then
        oidLoop content rest (index + 1) value (digits + 1) first out
      else if first then
        let top : UInt64 := if value < 40 then 0 else if value < 80 then 1 else 2
        oidLoop content rest (index + 1) 0 0 false
          (decimal top.toNat ++ [46] ++ decimal (value - top * 40).toNat)
      else do
        let arc ← arcText content index (digits + 1) value
        oidLoop content rest (index + 1) 0 0 false (out ++ [46] ++ arc)

/-- The dotted text of an OID. -/
def decodeOid (element : Element) : Except X509Stop (List UInt8) := do
  require (element.content ≠ []) .malformed
  let last ← readByte element.content (element.content.length - 1)
  require (last &&& 0x80 = 0) .malformed
  oidLoop element.content element.content 0 0 0 true []

/-! ### Reads in range -/

theorem readByte_returns {data : List UInt8} {index : Nat} (inside : index < data.length)
    : Ensures (readByte data index) (fun _ => True) fun _ => False := by
  rw [readByte, List.getElem?_eq_getElem inside]
  exact .ok trivial

theorem arcText_returns {content : List UInt8} {index digits : Nat} (value : UInt64)
    (enough : digits ≤ index + 1) (inside : index < content.length)
    : Ensures (arcText content index digits value) (fun _ => True) fun _ => False := by
  unfold arcText
  refine .ite (fun _ => ?_) fun _ => .ok trivial
  have fits : index + 1 - digits + digits ≤ content.length := by omega
  have formed : Ensures (span content (index + 1 - digits) digits) (fun _ => True) fun _ => False :=
    Ensures.require_bind fits (.pure trivial)
  exact Ensures.require_bind enough (Ensures.bind formed fun _ _ => .pure trivial)

/-- The digits of an arc are never more than the bytes read.
Witness: induction on the bytes that are left.
-/
theorem oidLoop_givesUp {content rest : List UInt8} {index digits : Nat} {value : UInt64}
    {first : Bool} {out : List UInt8} (enough : digits ≤ index)
    (inside : index + rest.length = content.length)
    : Ensures (oidLoop content rest index value digits first out) (fun _ => True)
        fun stop => stop = .malformed := by
  induction rest generalizing index digits value first out with
  | nil => exact .ok trivial
  | cons byte rest ih =>
    rw [List.length_cons] at inside
    unfold oidLoop
    refine .ite (fun _ => .error rfl) fun _ => .ite (fun _ => .error rfl) fun _ => ?_
    dsimp only
    refine .ite (fun _ => ih (by omega) (by omega)) fun _ => ?_
    refine .ite (fun _ => ih (by omega) (by omega)) fun _ => ?_
    refine Ensures.bind ((arcText_returns _ (by omega) (by omega)).mono (fun _ => id)
      fun _ => False.elim) fun _ _ => ?_
    exact ih (by omega) (by omega)

theorem decodeOid_givesUp (element : Element)
    : Ensures (decodeOid element) (fun _ => True) fun stop => stop = .malformed := by
  refine Ensures.bind (Ensures.check rfl) fun _ occupied => ?_
  have last := Nat.sub_lt (List.length_pos_iff.mpr occupied) Nat.one_pos
  refine Ensures.bind ((readByte_returns last).mono (fun _ => id) fun _ => False.elim)
    fun _ _ => ?_
  exact Ensures.bind (Ensures.check rfl) fun _ _ =>
    oidLoop_givesUp (Nat.le_refl 0) (Nat.zero_add _)

end PacketQuapture.X509
