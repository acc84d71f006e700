import PacketQuapture.Dns.NameSteps
import PacketQuapture.Dns.RoundTrip

/-! The text of a name stands for its labels.
What a name denotes is read off the message itself, through its pointers; a walk that succeeds
returns the text of just those labels, and the text of labels can be read back.
-/

namespace PacketQuapture.Dns

open Library

variable {next : Nat}

/-! ### What a name denotes -/

/-- The name at an offset has these labels, and the message continues at `next`: past the first
pointer, or past the terminator where there is none.
-/
inductive Denotes (data : List UInt8) : (offset : Nat) → List (List UInt8) → (next : Nat) → Prop
  | root {offset : Nat} (found : data[offset]? = some 0) : Denotes data offset [] (offset + 1)
  | label {offset : Nat} {length : UInt8} {label : List UInt8} {labels : List (List UInt8)}
    {next : Nat} (found : data[offset]? = some length) (positive : length ≠ 0)
    (short : length ≤ 63) (taken : PartAt data (offset + 1) label)
    (whole : label.length = length.toNat)
    (rest : Denotes data (offset + 1 + length.toNat) labels next)
    : Denotes data offset (label :: labels) next
  | pointer {offset : Nat} {high low : UInt8} {labels : List (List UInt8)} {next : Nat}
    (found : data[offset]? = some high) (marked : high &&& 0xc0 = 0xc0)
    (second : data[offset + 1]? = some low)
    (rest : Denotes data (Parser.pointerTarget high low) labels next)
    : Denotes data offset labels (offset + 2)

theorem not_marked_of_short {length : UInt8} (short : length ≤ 63) : ¬ length &&& 0xc0 = 0xc0 := by
  have plain := Parser.length_not_pointer length.toNat
    (Nat.lt_succ_of_le (UInt8.le_iff_toNat_le.mp short))
  rw [UInt8.ofNat_toNat] at plain
  exact plain.1

/-- A name denotes one list of labels. -/
theorem Denotes.unique {data : List UInt8} {offset past : Nat} {labels others : List (List UInt8)}
    (left : Denotes data offset labels next) (right : Denotes data offset others past)
    : labels = others ∧ next = past := by
  induction left generalizing others past with
  | root found =>
    cases right with
    | root => exact ⟨rfl, rfl⟩
    | label again positive =>
      rw [found] at again
      exact absurd (Option.some.inj again).symm positive
    | pointer again marked =>
      rw [found] at again
      cases again
      exact absurd marked (by decide)
  | label found positive short taken whole rest ih =>
    cases right with
    | root again =>
      rw [found] at again
      exact absurd (Option.some.inj again) positive
    | label again _ _ retaken rewhole others =>
      rw [found] at again
      cases again
      obtain ⟨rfl, rfl⟩ := ih others
      have same := taken.taken
      rw [whole, ← rewhole, retaken.taken] at same
      exact ⟨by rw [same], rfl⟩
    | pointer again marked =>
      rw [found] at again
      cases again
      exact absurd marked (not_marked_of_short short)
  | pointer found marked second rest ih =>
    cases right with
    | root again =>
      rw [found] at again
      cases again
      exact absurd marked (by decide)
    | label again _ short =>
      rw [found] at again
      cases again
      exact absurd marked (not_marked_of_short short)
    | pointer again _ resecond others =>
      rw [found] at again
      rw [second] at resecond
      cases again
      cases resecond
      exact ⟨(ih others).1, rfl⟩

namespace Parser

/-- What a walk that succeeds has still to add: the labels from its cursor on.
Witness: the walk's own steps, each a clause of what the name denotes.
-/
theorem nameLoop_denotes {fuel : Nat} {self after : Parser} {walk : NameWalk} {text : List UInt8}
    (returned : nameLoop fuel self walk = .ok (after, next, text)) (expanded : walk.expanded ≤ 255)
    : ∃ labels past, Denotes self.data walk.cursor labels past
        ∧ next = (if walk.jumped then walk.offset else past)
        ∧ text = (if labels.foldl appendLabel walk.name = [] then [46]
            else labels.foldl appendLabel walk.name)
        ∧ (∀ label ∈ labels, 1 ≤ label.length ∧ label.length ≤ 63)
        ∧ walk.expanded + (encodeLabels labels).length ≤ 255 := by
  induction fuel generalizing self walk with
  | zero => cases returned
  | succ fuel ih =>
    rw [nameLoop] at returned
    obtain ⟨⟨moved, move⟩, stepped, rest⟩ := bind_eq_ok.mp returned
    obtain ⟨rfl, _, moves⟩ := nameStep_moves.of_eq_ok stepped
    cases moves with
    | terminator found =>
      cases rest
      exact ⟨[], walk.cursor + 1, .root found, rfl, rfl, by simp, expanded⟩
    | @label length label found positive short taken whole fits =>
      obtain ⟨labels, past, denotes, ends, spelled, bounded, sum⟩ := ih rest fits
      have occupied : 1 ≤ length.toNat := by
        rw [Nat.one_le_iff_ne_zero]
        exact fun zero => positive (UInt8.toNat_inj.mp zero)
      have small : length.toNat ≤ 63 := UInt8.le_iff_toNat_le.mp short
      refine ⟨label :: labels, past, .label found positive short taken whole denotes, ends,
        spelled, fun other member => ?_, ?_⟩
      · rcases List.mem_cons.mp member with rfl | later
        · rw [whole]
          exact ⟨occupied, small⟩
        · exact bounded other later
      · rw [length_encodeLabels_cons, whole]
        dsimp only at sum
        omega
    | pointer found marked second =>
      obtain ⟨labels, past, denotes, ends, spelled, bounded, sum⟩ := ih rest expanded
      exact ⟨labels, walk.cursor + 2, .pointer found marked second denotes, ends, spelled,
        bounded, sum⟩

theorem name_denotes {self after : Parser} {offset : Nat} {text : List UInt8}
    (returned : self.name offset = .ok (after, next, text))
    : ∃ name : DnsName, Denotes self.data offset name.labels next ∧ text = name.text := by
  obtain ⟨labels, past, denotes, ends, spelled, bounded, sum⟩ :=
    nameLoop_denotes returned (by dsimp only; omega)
  dsimp only at sum
  refine ⟨{ labels, bounded, fits := by omega }, ?_, ?_⟩
  · rw [ends]
    exact denotes
  · rw [← text_eq]
    exact spelled

end Parser

/-! ### Reading the text back -/

namespace DnsName

theorem escaped_cases (byte : UInt8)
    : (escaped byte = [byte] ∧ byte ≠ 46 ∧ byte ≠ 92)
      ∨ escaped byte = [92, 48 + byte / 100, 48 + byte / 10 % 10, 48 + byte % 10] := by
  unfold escaped
  split
  case isTrue plain => exact .inl ⟨rfl, plain.2.2.1, plain.2.2.2⟩
  case isFalse => exact .inr rfl

theorem eq_of_digits {left right : UInt8} (hundreds : 48 + left / 100 = 48 + right / 100)
    (tens : 48 + left / 10 % 10 = 48 + right / 10 % 10) (ones : 48 + left % 10 = 48 + right % 10)
    : left = right := by
  have first := congrArg UInt8.toNat hundreds
  have second := congrArg UInt8.toNat tens
  have third := congrArg UInt8.toNat ones
  simp only [UInt8.toNat_add, UInt8.toNat_div, UInt8.toNat_mod, UInt8.reduceToNat]
    at first second third
  rw [← UInt8.toNat_inj]
  have small := left.toNat_lt
  have little := right.toNat_lt
  omega

theorem escaped_append_inj {left right : UInt8} {rest others : List UInt8}
    (same : escaped left ++ rest = escaped right ++ others)
    : left = right ∧ rest = others := by
  rcases escaped_cases left with ⟨plain, _, unescaped⟩ | escape <;>
    rcases escaped_cases right with ⟨other, _, bare⟩ | slash
  · rw [plain, other] at same
    exact List.cons.inj same
  · rw [plain, slash] at same
    exact absurd (List.cons.inj same).1 unescaped
  · rw [escape, other] at same
    exact absurd (List.cons.inj same).1.symm bare
  · rw [escape, slash] at same
    simp only [List.cons_append, List.nil_append, List.cons.injEq, true_and] at same
    exact ⟨eq_of_digits same.1 same.2.1 same.2.2.1, same.2.2.2⟩

theorem head_escaped_ne_dot (byte : UInt8) (rest : List UInt8)
    : (escaped byte ++ rest).head? ≠ some 46 := by
  rcases escaped_cases byte with ⟨plain, undotted, _⟩ | escape
  · rw [plain]
    exact fun same => undotted (Option.some.inj same)
  · rw [escape]
    exact fun same => absurd (Option.some.inj same) (by decide)

/-- What follows a label in a text: nothing, or a dot. -/
def Ended (rest : List UInt8) : Prop :=
  rest = [] ∨ rest.head? = some 46

/-- The text of a label ends at the next dot. -/
theorem label_append_inj {left right rest others : List UInt8} (ended : Ended rest)
    (finished : Ended others)
    (same : left.flatMap escaped ++ rest = right.flatMap escaped ++ others)
    : left = right ∧ rest = others := by
  -- a label cannot end where the other goes on: the next byte's text is not a dot
  have longer : ∀ {byte : UInt8} {more rest others : List UInt8}, Ended rest →
      rest ≠ (byte :: more).flatMap escaped ++ others := by
    intro byte more rest others ended same
    rw [List.flatMap_cons, List.append_assoc] at same
    rcases ended with rfl | dotted
    · have empty := congrArg List.length same
      rcases escaped_cases byte with ⟨plain, _⟩ | escape
      · simp [plain] at empty
      · simp [escape] at empty
    · rw [same] at dotted
      exact head_escaped_ne_dot byte _ dotted
  induction left generalizing right with
  | nil =>
    cases right with
    | nil => exact ⟨rfl, same⟩
    | cons byte more => exact absurd same (longer ended)
  | cons byte more ih =>
    cases right with
    | nil => exact absurd same.symm (longer finished)
    | cons other others =>
      rw [List.flatMap_cons, List.flatMap_cons, List.append_assoc, List.append_assoc] at same
      obtain ⟨rfl, tails⟩ := escaped_append_inj same
      obtain ⟨rfl, rests⟩ := ih tails
      exact ⟨rfl, rests⟩

theorem ended_labels (labels : List (List UInt8))
    : Ended (labels.flatMap fun label => 46 :: label.flatMap escaped) := by
  cases labels with
  | nil => exact .inl rfl
  | cons label rest => exact .inr rfl

theorem labels_inj {left right : List (List UInt8)}
    (same : left.flatMap (fun label => 46 :: label.flatMap escaped)
      = right.flatMap fun label => 46 :: label.flatMap escaped)
    : left = right := by
  induction left generalizing right with
  | nil =>
    cases right with
    | nil => rfl
    | cons label rest => cases same
  | cons label rest ih =>
    cases right with
    | nil => cases same
    | cons other others =>
      rw [List.flatMap_cons, List.flatMap_cons, List.cons_append, List.cons_append,
        List.cons.injEq] at same
      obtain ⟨rfl, tails⟩ := label_append_inj (ended_labels rest) (ended_labels others) same.2
      rw [ih tails]

theorem text_ne_dot (name : DnsName) {first : List UInt8} {rest : List (List UInt8)}
    (labels : name.labels = first :: rest)
    : name.text ≠ [46] := by
  have occupied := (name.bounded first (by rw [labels]; exact List.mem_cons_self)).1
  cases first with
  | nil => cases occupied
  | cons byte more =>
    intro same
    rw [text, labels] at same
    dsimp only at same
    rw [List.flatMap_cons, List.append_assoc] at same
    exact head_escaped_ne_dot byte _ (congrArg List.head? same)

theorem text_inj (left right : DnsName) : left.text = right.text ↔ left.labels = right.labels := by
  constructor
  · intro same
    cases labels : left.labels with
    | nil =>
      cases others : right.labels with
      | nil => rfl
      | cons other more =>
        have dot : left.text = [46] := by rw [text, labels]
        exact absurd (same.symm.trans dot) (right.text_ne_dot others)
    | cons first rest =>
      cases others : right.labels with
      | nil =>
        have dot : right.text = [46] := by rw [text, others]
        exact absurd (same.trans dot) (left.text_ne_dot labels)
      | cons other more =>
        rw [text, text, labels, others] at same
        obtain ⟨rfl, tails⟩ := label_append_inj (ended_labels rest) (ended_labels more) same
        rw [labels_inj tails]
  · intro same
    rw [text, text, same]

end DnsName

/-- Two names that are read, in any messages, have the same text just when they denote the same
labels, however pointers cut them up; and reading goes on where each name ends.
-/
theorem name_text_faithful {first second after later : Parser} {offset place next past : Nat}
    {text other : List UInt8} (left : first.name offset = .ok (after, next, text))
    (right : second.name place = .ok (later, past, other))
    : ∃ labels others,
        (∀ found finish, Denotes first.data offset found finish ↔ found = labels ∧ finish = next)
        ∧ (∀ found finish, Denotes second.data place found finish
            ↔ found = others ∧ finish = past)
        ∧ (text = other ↔ labels = others) := by
  obtain ⟨name, denotes, spelled⟩ := Parser.name_denotes left
  obtain ⟨peer, denoted, written⟩ := Parser.name_denotes right
  refine ⟨name.labels, peer.labels, fun found finish => ?_, fun found finish => ?_, ?_⟩
  · exact ⟨fun read => read.unique denotes, fun same => by rw [same.1, same.2]; exact denotes⟩
  · exact ⟨fun read => read.unique denoted, fun same => by rw [same.1, same.2]; exact denoted⟩
  · rw [spelled, written]
    exact name.text_inj peer

/-- A message in which one name stands at 12 and a pointer to it at 15. -/
def pointedMessage : Parser :=
  { data := List.replicate 12 0 ++ [1, 97, 0, 192, 12] }

/-- The name and the pointer to it have one text. -/
theorem name_text_faithful_pointed
    : ∃ labels others,
        (∀ found finish, Denotes pointedMessage.data 12 found finish
          ↔ found = labels ∧ finish = 15)
        ∧ (∀ found finish, Denotes pointedMessage.data 15 found finish
          ↔ found = others ∧ finish = 17)
        ∧ (([97] : List UInt8) = [97] ↔ labels = others) :=
  @name_text_faithful pointedMessage pointedMessage { pointedMessage with work := 2 }
    { pointedMessage with work := 3 } 12 15 15 17 [97] [97] (by decide) (by decide)

end PacketQuapture.Dns
