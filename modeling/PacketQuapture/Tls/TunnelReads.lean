import PacketQuapture.Tls.TunnelSafety

/-! Classifying a prefix indexes no string and no list of lines out of range.
The model reads by position without failing; here each condition of the source that indexes is
written out with reads that raise outside their list, evaluated from left to right and only as far
as they decide, and shown to return what the model has for it.
-/

namespace PacketQuapture.Tls

open Library Text

/-! ### Reads by position -/

section Reads

variable {α : Type} {values : List α} {index : Nat} {test : α → Bool}

/-- The element at a position, which the source does not check. -/
def elementAt (values : List α) (index : Nat) : Except TextFailure α :=
  match values[index]? with
  | some value => .ok value
  | none => .error .outOfRange

/-- A test of the element at a position. -/
def holdsAt (test : α → Bool) (values : List α) (index : Nat) : Except TextFailure Bool := do
  return test (← elementAt values index)

/-- `left && right`. -/
def andThen (left : Bool) (right : Except TextFailure Bool) : Except TextFailure Bool :=
  if left then right else .ok false

/-- `left || right`. -/
def orElse (left : Bool) (right : Except TextFailure Bool) : Except TextFailure Bool :=
  if left then .ok true else right

theorem elementAt_eq {value : α} (found : values[index]? = some value)
    : elementAt values index = .ok value := by
  rw [elementAt, found]

theorem holdsAt_eq (inside : index < values.length)
    : holdsAt test values index = .ok ((values[index]?.map test).getD false) := by
  rw [holdsAt, List.getElem?_eq_getElem inside, elementAt_eq (List.getElem?_eq_getElem inside)]
  rfl

theorem holdsAt_eq_getElem? {value : α} [DecidableEq α] (inside : index < values.length)
    : holdsAt (fun other => other = value) values index
      = .ok (values[index]? = some value) := by
  rw [holdsAt_eq inside, List.getElem?_eq_getElem inside]
  simp

/-- The right side of `&&` may rely on the left one. -/
theorem andThen_eq {left right : Bool} {outcome : Except TextFailure Bool}
    (reads : left = true → outcome = .ok right)
    : andThen left outcome = .ok (left && right) := by
  cases left with
  | false => rfl
  | true => exact reads rfl

/-- The right side of `||` may rely on the left one failing. -/
theorem orElse_eq {left right : Bool} {outcome : Except TextFailure Bool}
    (reads : left = false → outcome = .ok right)
    : orElse left outcome = .ok (left || right) := by
  cases left with
  | false => exact reads rfl
  | true => rfl

end Reads

/-! ### The conditions that index -/

namespace Indexed

/-- `Command` and `PopStatus`. -/
def startsWord (text word : List UInt8) : Except TextFailure Bool :=
  andThen (word.isPrefixOf text) <|
    orElse (text.length = word.length) (holdsAt (fun byte => byte = 32) text word.length)

/-- Digits at successive positions. -/
def digitsAt (text : List UInt8) : Nat → Nat → Except TextFailure Bool
  | _, 0 => .ok true
  | index, count + 1 => do
    let digit ← holdsAt isDigit text index
    andThen digit (digitsAt text (index + 1) count)

/-- `ReplyCode`. -/
def replyCode (text : List UInt8) : Except TextFailure Bool :=
  andThen (3 ≤ text.length) do
    let digits ← digitsAt text 0 3
    andThen digits <| orElse (text.length = 3) do
      let space ← holdsAt (fun byte => byte = 32) text 3
      orElse space (holdsAt (fun byte => byte = 45) text 3)

/-- `StatusCode`. -/
def statusCode (line : List UInt8) : Except TextFailure Nat :=
  if line.length < 12
      ∨ (¬ (ascii "HTTP/1.0 ").isPrefixOf line ∧ ¬ (ascii "HTTP/1.1 ").isPrefixOf line) then
    .ok 0
  else do
    let digits ← digitsAt line 9 3
    let coded ← andThen digits <|
      orElse (line.length ≤ 12) (holdsAt (fun byte => byte = 32) line 12)
    if coded then
      let hundreds ← elementAt line 9
      let tens ← elementAt line 10
      let units ← elementAt line 11
      return (hundreds - 48).toNat * 100 + (tens - 48).toNat * 10 + (units - 48).toNat
    else
      return 0

/-- Whether a line opens a multi-line reply. -/
def opensReply (text : List UInt8) : Except TextFailure Bool :=
  andThen (3 < text.length) (holdsAt (fun byte => byte = 45) text 3)

/-- Whether a line closes the reply of a code. -/
def closesReply (code text : List UInt8) : Except TextFailure Bool :=
  andThen (text.take 3 = code) <|
    orElse (text.length = 3) (holdsAt (fun byte => byte = 32) text 3)

/-- Whether a line cannot stand inside an SMTP reply of a code. -/
def breaksReply (code text : List UInt8) : Except TextFailure Bool :=
  orElse (text.take 3 ≠ code) <|
    orElse (text.length < 4) (holdsAt (fun byte => byte ≠ 45) text 3)

/-- The loop over the body of a POP3 reply: where it stops. -/
def skipBody (lines : List (List UInt8)) : Nat → Nat → Except TextFailure Nat
  | 0, _ => .error .outOfFuel
  | fuel + 1, index =>
    if index + 1 < lines.length then do
      let goes ← holdsAt (fun line => line ≠ ascii ".") lines index
      if goes then skipBody lines fuel (index + 1) else return index
    else
      .ok index

/-- The position of the lone dot that ends a POP3 reply's body, which starts at `index`. -/
def popBody (lines : List (List UInt8)) (index : Nat) : Except TextFailure (Option Nat) := do
  let stop ← skipBody lines lines.length index
  let ended ← holdsAt (fun line => line = ascii ".") lines stop
  return if ended then some stop else none

/-- The first byte of an exchange that is long enough. -/
def opens (enough : Bool) (first : UInt8) (data : List UInt8) : Except TextFailure Bool :=
  andThen enough (holdsAt (fun byte => byte = first) data 0)

/-- The first two bytes of an exchange that is long enough. -/
def opensWith (enough : Bool) (first second : UInt8) (data : List UInt8)
    : Except TextFailure Bool := do
  let opened ← opens enough first data
  andThen opened (holdsAt (fun byte => byte = second) data 1)

/-- Whether a SOCKS5 login follows what a reader has read of the data. -/
def loginFollows (data : List UInt8) (reader : TlsReader) : Except TextFailure Bool :=
  andThen (0 < reader.remaining) <|
    holdsAt (fun byte => byte = 1) data (data.length - reader.remaining)

/-- Whether a SOCKS4 address is 0.0.0.x. -/
def namesHost (ip : List UInt8) : Except TextFailure Bool := do
  let first ← holdsAt (fun byte => byte = 0) ip 0
  let second ← andThen first (holdsAt (fun byte => byte = 0) ip 1)
  let third ← andThen second (holdsAt (fun byte => byte = 0) ip 2)
  andThen third (holdsAt (fun byte => byte ≠ 0) ip 3)

/-- The first and the last of enough reply codes. -/
def codesEnd (enough first last : Nat) (codes : List Nat) : Except TextFailure Bool :=
  andThen (enough ≤ codes.length) do
    let opened ← holdsAt (fun code => code = first) codes 0
    andThen opened (holdsAt (fun code => code = last) codes (codes.length - 1))

end Indexed

/-! ### They return -/

theorem Indexed.startsWord_eq (text word : List UInt8)
    : Indexed.startsWord text word = .ok (Tls.startsWord text word) := by
  refine andThen_eq fun begins => orElse_eq fun longer => holdsAt_eq_getElem? ?_
  have short := (List.isPrefixOf_iff_prefix.mp begins).length_le
  have differ := of_decide_eq_false longer
  omega

theorem Indexed.digitsAt_eq {text : List UInt8} {index count : Nat}
    (inside : index + count ≤ text.length)
    : Indexed.digitsAt text index count = .ok (((text.drop index).take count).all isDigit) := by
  induction count generalizing index with
  | zero => rfl
  | succ count ih =>
    have here : index < text.length := by omega
    rw [digitsAt, holdsAt_eq here, ok_bind, andThen_eq fun _ => ih (by omega),
      List.drop_eq_getElem_cons here, List.take_succ_cons, List.all_cons,
      List.getElem?_eq_getElem here]
    rfl

theorem Indexed.replyCode_eq (text : List UInt8)
    : Indexed.replyCode text = .ok (Tls.replyCode text) := by
  rw [Tls.replyCode, Bool.and_assoc]
  refine andThen_eq fun long => ?_
  have size := of_decide_eq_true long
  rw [digitsAt_eq (by omega), ok_bind, List.drop_zero]
  refine andThen_eq fun _ => ?_
  rw [Bool.or_assoc]
  refine orElse_eq fun longer => ?_
  have inside : 3 < text.length := lt_of_le_of_ne size fun same =>
    of_decide_eq_false longer same.symm
  rw [holdsAt_eq_getElem? inside, ok_bind]
  exact orElse_eq fun _ => holdsAt_eq_getElem? inside

theorem exists_three {text : List UInt8} {index : Nat} (long : index + 3 ≤ text.length)
    : ∃ first second third rest, text.drop index = first :: second :: third :: rest := by
  refine ⟨text.get ⟨index, by omega⟩, text.get ⟨index + 1, by omega⟩,
    text.get ⟨index + 2, by omega⟩, text.drop (index + 3), ?_⟩
  rw [List.drop_eq_getElem_cons (by omega), List.drop_eq_getElem_cons (by omega),
    List.drop_eq_getElem_cons (by omega)]
  rfl

/-- The source adds up the three digits it has tested, the model converts them. -/
theorem Indexed.statusCode_eq (text : List UInt8)
    : Indexed.statusCode text = Tls.statusCode text := by
  unfold Indexed.statusCode Tls.statusCode
  split
  case isTrue => rfl
  case isFalse long =>
    have size : 12 ≤ text.length := Nat.le_of_not_lt fun short => long (.inl short)
    obtain ⟨hundreds, tens, units, rest, from9⟩ := @exists_three text 9 size
    have found (offset : Nat) (small : offset < 3)
        : text[9 + offset]? = [hundreds, tens, units][offset]? := by
      rw [← List.getElem?_drop, from9]
      exact @List.getElem?_append_left _ [hundreds, tens, units] rest offset small
    have code : substr text 9 3 = .ok [hundreds, tens, units] := by
      rw [substr, if_pos (by omega), from9]
      rfl
    have spaced : orElse (text.length ≤ 12) (holdsAt (fun byte => byte = 32) text 12)
        = .ok (text.length ≤ 12 || text[12]? = some 32) :=
      orElse_eq fun longer => holdsAt_eq_getElem? (by simpa using longer)
    have after : (text.length ≤ 12 || text[12]? = some 32) = true
        ↔ (12 < text.length → text.getD 12 0 = 32) := by
      rw [Bool.or_eq_true, decide_eq_true_eq, decide_eq_true_eq, or_iff_not_imp_left, not_le]
      refine forall_congr' fun inside => ?_
      rw [List.getD_eq_getElem?_getD, List.getElem?_eq_getElem inside, Option.some_inj]
      rfl
    have tested : ([hundreds, tens, units].all isDigit
          && (text.length ≤ 12 || text[12]? = some 32)) = true
        ↔ [hundreds, tens, units].all isDigit ∧ (12 < text.length → text.getD 12 0 = 32) := by
      rw [Bool.and_eq_true, after]
    have digits : digitsAt text 9 3 = .ok ([hundreds, tens, units].all isDigit) := by
      rw [digitsAt_eq (by omega), from9]
      rfl
    rw [digits, ok_bind, andThen_eq fun _ => spaced, ok_bind, code, ok_bind,
      elementAt_eq (found 0 (by decide)), elementAt_eq (found 1 (by decide)),
      elementAt_eq (found 2 (by decide))]
    by_cases coded : [hundreds, tens, units].all isDigit
        ∧ (12 < text.length → text.getD 12 0 = 32)
    · rw [if_pos (tested.mpr coded), if_pos coded, parseNumber,
        if_pos ⟨List.cons_ne_nil _ _, coded.1, by simp⟩]
      simp only [ok_bind, List.foldl_cons, List.foldl_nil]
      exact congrArg Except.ok (by ring)
    · rw [if_neg (mt tested.mp coded), if_neg coded]

theorem Indexed.opensReply_eq (text : List UInt8)
    : Indexed.opensReply text = .ok (3 < text.length ∧ text[3]? = some 45) := by
  rw [Bool.decide_and]
  exact andThen_eq fun long => holdsAt_eq_getElem? (of_decide_eq_true long)

theorem Indexed.closesReply_eq {code : List UInt8} (three : code.length = 3) (text : List UInt8)
    : Indexed.closesReply code text
      = .ok (text.take 3 = code ∧ (text.length = 3 ∨ text[3]? = some 32)) := by
  rw [Bool.decide_and, Bool.decide_or]
  refine andThen_eq fun same => orElse_eq fun longer => holdsAt_eq_getElem? ?_
  have size := congrArg List.length (of_decide_eq_true same)
  have differ := of_decide_eq_false longer
  rw [List.length_take] at size
  omega

theorem Indexed.breaksReply_eq (code text : List UInt8)
    : Indexed.breaksReply code text
      = .ok (¬ text.take 3 = code ∨ text.length < 4 ∨ text[3]? ≠ some 45) := by
  rw [Bool.decide_or, Bool.decide_or]
  refine orElse_eq fun _ => orElse_eq fun long => ?_
  have inside : 3 < text.length := Nat.le_of_not_lt (of_decide_eq_false long)
  rw [holdsAt_eq inside, List.getElem?_eq_getElem inside]
  simp

/-- The loop stops at the lone dot, or else at the last line.
Witness: induction on the lines that are left.
-/
theorem Indexed.skipBody_eq {lines : List (List UInt8)} {fuel index : Nat}
    (inside : index < lines.length) (enough : lines.length - index ≤ fuel)
    : Indexed.skipBody lines fuel index
      = .ok (min (index + ((lines.drop index).takeWhile fun line => line ≠ ascii ".").length)
          (lines.length - 1)) := by
  induction fuel generalizing index with
  | zero => omega
  | succ fuel ih =>
    rw [skipBody, List.drop_eq_getElem_cons inside, List.takeWhile_cons]
    by_cases more : index + 1 < lines.length
    · rw [if_pos more, holdsAt_eq inside, List.getElem?_eq_getElem inside, ok_bind]
      by_cases dot : lines[index] = ascii "."
      · simp only [Option.map_some, Option.getD_some, dot, ne_eq, not_true, decide_false,
          Bool.false_eq_true, if_false, List.length_nil, Nat.add_zero]
        rw [Nat.min_eq_left (by omega)]
        rfl
      · simp only [Option.map_some, Option.getD_some, dot, ne_eq, not_false_eq_true, decide_true,
          if_true, List.length_cons]
        rw [ih more (by omega), Nat.add_right_comm, Nat.add_assoc]
    · rw [if_neg more, Nat.min_eq_right (by omega)]
      exact congrArg Except.ok (by omega)

/-- The body's end is the lone dot, if there is one.
Witness: what stops the body is a dot, and without one the last line is part of the body.
-/
theorem Indexed.popBody_eq {lines : List (List UInt8)} {index : Nat} (inside : index < lines.length)
    : Indexed.popBody lines index
      = .ok (let body := (lines.drop index).takeWhile fun line => line ≠ ascii "."
        if index + body.length < lines.length then some (index + body.length) else none) := by
  dsimp only
  rw [popBody, skipBody_eq inside (by omega), ok_bind]
  have split := @List.takeWhile_append_dropWhile _ (fun line => decide (line ≠ ascii "."))
    (lines.drop index)
  have plain : ∀ line ∈ (lines.drop index).takeWhile (fun line => line ≠ ascii "."),
      line ≠ ascii "." := by
    intro line member
    simpa using List.mem_takeWhile_imp member
  have stops := @List.head?_dropWhile_not _ (fun line => decide (line ≠ ascii "."))
    (lines.drop index)
  generalize (lines.drop index).takeWhile (fun line => line ≠ ascii ".") = body at split plain ⊢
  generalize (lines.drop index).dropWhile (fun line => line ≠ ascii ".") = rest at split stops
  have size := congrArg List.length split
  rw [List.length_append, List.length_drop] at size
  have found (offset : Nat) : lines[index + offset]? = (body ++ rest)[offset]? := by
    rw [split, List.getElem?_drop]
  cases rest with
  | nil =>
    rw [List.length_nil] at size
    have held : body.length - 1 < body.length := by omega
    have other := plain _ (List.getElem_mem held)
    rw [show min (index + body.length) (lines.length - 1) = index + (body.length - 1) by omega,
      holdsAt_eq (by omega), found, List.append_nil, List.getElem?_eq_getElem held,
      if_neg (by omega), Option.map_some, Option.getD_some, decide_eq_false other]
    rfl
  | cons dot rest =>
    have ended : dot = ascii "." := by simpa using stops
    rw [List.length_cons] at size
    rw [Nat.min_eq_left (by omega), if_pos (by omega), holdsAt_eq (by omega), found,
      List.getElem?_append_right (Nat.le_refl _), Nat.sub_self, ended]
    rfl

theorem Indexed.opens_eq {enough : Bool} {data : List UInt8} (first : UInt8)
    (long : enough = true → 0 < data.length)
    : Indexed.opens enough first data = .ok (enough && data[0]? = some first) :=
  andThen_eq fun held => holdsAt_eq_getElem? (long held)

theorem Indexed.opensWith_eq {enough : Bool} {data : List UInt8} (first second : UInt8)
    (long : enough = true → 1 < data.length)
    : Indexed.opensWith enough first second data
      = .ok (enough && data[0]? = some first && data[1]? = some second) := by
  rw [opensWith, opens_eq first fun held => Nat.zero_lt_of_lt (long held), ok_bind]
  exact andThen_eq fun opened => holdsAt_eq_getElem? (long (Bool.and_eq_true_iff.mp opened).1)

theorem TlsReader.u8_suffix (reader : TlsReader) : reader.u8.2.rest <:+ reader.rest := by
  unfold TlsReader.u8
  split
  case isTrue => exact List.suffix_refl _
  case isFalse => exact List.tail_suffix _

theorem TlsReader.take_suffix (reader : TlsReader) (count : Nat)
    : (reader.take count).2.rest <:+ reader.rest := by
  unfold TlsReader.take
  split
  case isTrue => exact List.suffix_refl _
  case isFalse => exact List.drop_suffix _ _

/-- What a reader has left ends the data, so its next byte is that far from the end. -/
theorem Indexed.loginFollows_eq {data : List UInt8} {reader : TlsReader}
    (suffix : reader.rest <:+ data)
    : Indexed.loginFollows data reader = .ok (0 < reader.remaining ∧ reader.u8.1 = 1) := by
  rw [Bool.decide_and]
  refine andThen_eq fun left => ?_
  have some_left := of_decide_eq_true left
  obtain ⟨before, rfl⟩ := suffix
  have whole : reader.remaining = reader.rest.length := by
    unfold TlsReader.remaining at some_left ⊢
    split at some_left
    case isTrue => exact absurd some_left (Nat.lt_irrefl 0)
    case isFalse sound => rw [if_neg sound]
  rw [whole] at some_left ⊢
  rw [List.length_append, Nat.add_sub_cancel, holdsAt_eq_getElem?
    (by rw [List.length_append]; omega), List.getElem?_append_right (Nat.le_refl _), Nat.sub_self,
    TlsReader.u8, if_neg (by omega)]
  cases rest : reader.rest with
  | nil => simp [rest] at some_left
  | cons byte rest => simp

theorem Indexed.namesHost_eq {ip : List UInt8} (four : ip.length = 4)
    : Indexed.namesHost ip = .ok (ip.take 3 = [0, 0, 0] ∧ ip.getD 3 0 ≠ 0) := by
  obtain ⟨first, second, third, fourth, rfl⟩ := List.length_eq_four.mp four
  change (do
    let second ← andThen (decide (first = 0)) (.ok (decide (second = 0)))
    let third ← andThen second (.ok (decide (third = 0)))
    andThen third (.ok (decide (fourth ≠ 0)))) = _
  rw [andThen_eq fun _ => rfl, ok_bind, andThen_eq fun _ => rfl, ok_bind, andThen_eq fun _ => rfl]
  exact congrArg Except.ok (by simp [Bool.and_assoc])

theorem Indexed.codesEnd_eq {enough : Nat} (some_code : 0 < enough) (first last : Nat)
    (codes : List Nat)
    : Indexed.codesEnd enough first last codes
      = .ok (enough ≤ codes.length && codes.head? = some first && codes.getLast? = some last) := by
  rw [Bool.and_assoc]
  refine andThen_eq fun long => ?_
  have size := of_decide_eq_true long
  rw [holdsAt_eq_getElem? (by omega), ok_bind, List.head?_eq_getElem?, List.getLast?_eq_getElem?]
  exact andThen_eq fun _ => holdsAt_eq_getElem? (by omega)

/-- Every condition that indexes returns what the model has in its place, so it stays in range. -/
structure ReadsInRange : Prop where
  startsWord : ∀ text word, Indexed.startsWord text word = .ok (startsWord text word)
  replyCode : ∀ text, Indexed.replyCode text = .ok (replyCode text)
  statusCode : ∀ line, Indexed.statusCode line = statusCode line
  opensReply : ∀ text, Indexed.opensReply text = .ok (3 < text.length ∧ text[3]? = some 45)
  closesReply : ∀ code text, code.length = 3 → Indexed.closesReply code text
    = .ok (text.take 3 = code ∧ (text.length = 3 ∨ text[3]? = some 32))
  breaksReply : ∀ code text, Indexed.breaksReply code text
    = .ok (¬ text.take 3 = code ∨ text.length < 4 ∨ text[3]? ≠ some 45)
  popBody : ∀ lines index, index < lines.length → Indexed.popBody lines index
    = .ok (let body := (lines.drop index).takeWhile fun line => line ≠ ascii "."
      if index + body.length < lines.length then some (index + body.length) else none)
  opens : ∀ data : List UInt8, Indexed.opens (2 ≤ data.length) 5 data
    = .ok (2 ≤ data.length && data[0]? = some 5)
  opensRequest : ∀ data : List UInt8, Indexed.opensWith (9 ≤ data.length) 4 1 data
    = .ok (9 ≤ data.length && data[0]? = some 4 && data[1]? = some 1)
  opensReplied : ∀ data : List UInt8, Indexed.opensWith (data.length = 8) 0 0x5A data
    = .ok (data.length = 8 && data[0]? = some 0 && data[1]? = some 0x5A)
  loginFollows : ∀ data,
    let count := ({ rest := data } : TlsReader).u8.2.length 1
    let reader := (count.2.take count.1).2
    Indexed.loginFollows data reader = .ok (0 < reader.remaining ∧ reader.u8.1 = 1)
  namesHost : ∀ (reader : TlsReader) (ip : List UInt8), (reader.take 4).1 = some ip →
    Indexed.namesHost ip = .ok (ip.take 3 = [0, 0, 0] ∧ ip.getD 3 0 ≠ 0)
  codesEnd : ∀ enough first last codes, 0 < enough → Indexed.codesEnd enough first last codes
    = .ok (enough ≤ codes.length && codes.head? = some first && codes.getLast? = some last)

theorem readsInRange : ReadsInRange where
  startsWord := Indexed.startsWord_eq
  replyCode := Indexed.replyCode_eq
  statusCode := Indexed.statusCode_eq
  opensReply := Indexed.opensReply_eq
  closesReply _ text three := Indexed.closesReply_eq three text
  breaksReply := Indexed.breaksReply_eq
  popBody _ _ inside := Indexed.popBody_eq inside
  opens _ := Indexed.opens_eq 5 fun long => by have := of_decide_eq_true long; omega
  opensRequest _ := Indexed.opensWith_eq 4 1 fun long => by have := of_decide_eq_true long; omega
  opensReplied _ := Indexed.opensWith_eq 0 0x5A fun long => by
    have := of_decide_eq_true long
    omega
  loginFollows data := Indexed.loginFollows_eq <|
    (TlsReader.take_suffix _ _).trans ((TlsReader.u8_suffix _).trans (TlsReader.u8_suffix _))
  namesHost reader ip taken := by
    refine Indexed.namesHost_eq ?_
    unfold TlsReader.take at taken
    split at taken
    case isTrue => cases taken
    case isFalse enough =>
      have within : reader.remaining ≤ reader.rest.length := by
        unfold TlsReader.remaining
        split <;> omega
      rw [← Option.some.inj taken, List.length_take]
      omega
  codesEnd _ first last codes some_code := Indexed.codesEnd_eq some_code first last codes

/-- Classifying any bytes returns: every loop ends, every substring starts inside its text, every
number is one the library converts, and no condition indexes out of range.
Witness: each parser's contract rules its failures out, from the positions its searches return.
-/
theorem classification_returns
    : (∀ data, ∃ class_, classifyClientPrefix data = .ok class_)
      ∧ (∀ data, ∃ tunnel, classifyServerPrefix data = .ok tunnel)
      ∧ ReadsInRange := by
  refine ⟨fun data => ?_, fun data => ?_, readsInRange⟩
  · obtain ⟨class_, returned, -⟩ := (classifyClientPrefix_ensures data).returns
    exact ⟨class_, returned⟩
  · obtain ⟨tunnel, returned, -⟩ := (classifyServerPrefix_ensures data).returns
    exact ⟨tunnel, returned⟩

end PacketQuapture.Tls
