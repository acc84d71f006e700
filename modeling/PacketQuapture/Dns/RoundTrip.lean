import PacketQuapture.Dns.Encoding
import PacketQuapture.Dns.Extension
import PacketQuapture.Library.PartAt

/-! Decoding a DNS message undoes its encoding.
The parser is followed through the message part by part. Each step along a name takes a byte of
the message that no other step takes, so the cap on all steps is never reached.
-/

namespace PacketQuapture.Dns

open Library Text

namespace Parser

variable {self : Parser} {offset : Nat}
variable {part : List UInt8} {labels : List (List UInt8)} {fuel : Nat} {walk : NameWalk}

/-! ### Reading what stands at an offset -/

theorem has_at (at_ : PartAt self.data offset part)
    : self.has offset part.length = true :=
  has_iff.mpr at_.inside

/-- A byte that stands in the message is read. -/
theorem byte_at {byte : UInt8} {rest : List UInt8} (at_ : PartAt self.data offset (byte :: rest))
    : self.byte offset = .ok byte := by
  rw [Parser.byte, at_.head]

/-- Bytes that stand in the message are read. -/
theorem bytes_at (at_ : PartAt self.data offset part)
    : self.bytes offset part.length = .ok part := by
  induction part generalizing offset with
  | nil => rfl
  | cons byte rest ih =>
    rw [List.length_cons, bytes, byte_at at_, ok_bind, ih at_.tail, ok_bind]

/-- A 16-bit field that stands in the message is read. -/
theorem readBigEndian16_at {value : Nat} (at_ : PartAt self.data offset (bigEndian 2 value))
    : self.readBigEndian16 offset = .ok (UInt16.ofNat value) := by
  have bytes : bigEndian 2 value = [UInt8.ofNat (value / 256), UInt8.ofNat value] := rfl
  rw [bytes] at at_
  rw [readBigEndian16, byte_at at_, ok_bind, byte_at at_.tail, ok_bind, uint16_of_bytes]

/-- A 32-bit field that stands in the message is read. -/
theorem readBigEndian32_at {value : Nat} (at_ : PartAt self.data offset (bigEndian 4 value))
    : self.readBigEndian32 offset = .ok (UInt32.ofNat value) := by
  rw [bigEndian_four, PartAt.append_iff, length_bigEndian] at at_
  rw [readBigEndian32, readBigEndian16_at at_.1, ok_bind, readBigEndian16_at at_.2, ok_bind,
    uint32_of_words]

/-- The 16-bit groups of an even part are read. -/
theorem groups_at {count : Nat} (at_ : PartAt self.data offset part)
    (even : part.length = 2 * count)
    : self.groups offset count = .ok (RecordBody.pairs part) := by
  induction count generalizing offset part with
  | zero =>
    rw [List.eq_nil_of_length_eq_zero even]
    rfl
  | succ count ih =>
    cases part with
    | nil => cases even
    | cons high rest =>
      cases rest with
      | nil =>
        rw [List.length_singleton] at even
        omega
      | cons low rest =>
        rw [List.length_cons, List.length_cons] at even
        rw [groups, readBigEndian16, byte_at at_, ok_bind, byte_at at_.tail, ok_bind, ok_bind,
          ih at_.tail.tail (by omega), ok_bind]
        rfl

/-! ### Names -/

/-- The bytes of a label are appended as their escapes. -/
theorem foldl_appendNameByte (label start : List UInt8)
    : label.foldl appendNameByte start = start ++ label.flatMap DnsName.escaped := by
  induction label generalizing start with
  | nil => simp
  | cons byte rest ih =>
    rw [List.foldl_cons, ih, List.flatMap_cons, ← List.append_assoc]
    congr 1
    simp only [appendNameByte, DnsName.escaped, appendDecimalEscape]
    split <;> rfl

/-- A label is appended after a dot, unless it is the first. -/
theorem appendLabel_eq (start label : List UInt8)
    : appendLabel start label
      = (if start = [] then [] else start ++ [46]) ++ label.flatMap DnsName.escaped := by
  rw [appendLabel, foldl_appendNameByte]
  split
  case isTrue empty => rw [empty]
  case isFalse => rfl

theorem flatMap_escaped_ne_nil {label : List UInt8} (occupied : 1 ≤ label.length)
    : label.flatMap DnsName.escaped ≠ [] := by
  cases label with
  | nil => cases occupied
  | cons byte rest =>
    rw [List.flatMap_cons, DnsName.escaped]
    split <;> exact List.cons_ne_nil _ _

/-- Further labels are each appended after a dot. -/
theorem foldl_appendLabel {start : List UInt8} (begun : start ≠ [])
    : labels.foldl appendLabel start
      = start ++ labels.flatMap fun label => 46 :: label.flatMap DnsName.escaped := by
  induction labels generalizing start with
  | nil => simp
  | cons label rest ih =>
    rw [List.foldl_cons, appendLabel_eq, if_neg begun, ih (by simp), List.flatMap_cons]
    simp

/-- The walk over the labels of a name spells its text. -/
theorem text_eq (name : DnsName)
    : (if name.labels.foldl appendLabel [] = [] then [46] else name.labels.foldl appendLabel [])
      = name.text := by
  rw [DnsName.text]
  cases labels : name.labels with
  | nil => rfl
  | cons first rest =>
    have occupied := flatMap_escaped_ne_nil (name.bounded first (by simp [labels])).1
    rw [List.foldl_cons, appendLabel_eq, if_pos rfl, List.nil_append,
      foldl_appendLabel occupied, if_neg (by simp [occupied])]

theorem length_encodeLabels_cons (label : List UInt8) (rest : List (List UInt8))
    : (encodeLabels (label :: rest)).length = label.length + 1 + (encodeLabels rest).length := by
  rw [encodeLabels, List.flatMap_cons, List.length_append, List.length_cons]
  rfl

/-- Each label takes two octets at least. -/
theorem two_mul_length_le (bounded : ∀ label ∈ labels, 1 ≤ label.length ∧ label.length ≤ 63)
    : 2 * labels.length ≤ (encodeLabels labels).length := by
  induction labels with
  | nil => exact Nat.zero_le _
  | cons label rest ih =>
    have first := (bounded label List.mem_cons_self).1
    have others := ih fun other member => bounded other (List.mem_cons_of_mem _ member)
    rw [length_encodeLabels_cons, List.length_cons]
    omega

theorem length_not_pointer
    : ∀ length < 64, ¬UInt8.ofNat length &&& 0xc0 = 0xc0 ∧ ¬63 < UInt8.ofNat length := by
  decide

/-- The terminator ends the walk. -/
theorem nameLoop_end (work : self.work + 1 ≤ workMax) (at_ : PartAt self.data walk.cursor [0])
    : nameLoop (fuel + 1) self walk
      = .ok ({ self with work := self.work + 1 },
          if walk.jumped then walk.offset else walk.cursor + 1,
          if walk.name = [] then [46] else walk.name) := by
  have started : ({ self with work := self.work + 1 } : Parser).has walk.cursor 1 = true :=
    has_iff.mpr at_.inside
  have ended : ({ self with work := self.work + 1 } : Parser).has (walk.cursor + 1) 0 = true :=
    has_iff.mpr at_.inside
  have byte : ({ self with work := self.work + 1 } : Parser).byte walk.cursor = .ok 0 :=
    byte_at at_
  have nothing : UInt8.toNat 0 = 0 := rfl
  have plain : ¬(0 : UInt8) &&& 0xc0 = 0xc0 := by decide
  rw [nameLoop, nameStep]
  dsimp only
  rw [started, byte, ok_bind, if_neg (by simp; omega), if_neg plain, nothing, ended,
    if_neg (by simp), if_pos rfl]
  rfl

/-- A label takes the walk past it. -/
theorem nameLoop_label {label : List UInt8} (work : self.work + 1 ≤ workMax)
    (at_ : PartAt self.data walk.cursor (UInt8.ofNat label.length :: label))
    (bounded : 1 ≤ label.length ∧ label.length ≤ 63)
    (expanded : walk.expanded + (label.length + 1) ≤ 255) (counted : walk.labels + 1 ≤ 127)
    : nameLoop (fuel + 1) self walk
      = nameLoop fuel { self with work := self.work + 1 }
          { walk with
            cursor := walk.cursor + 1 + label.length
            expanded := walk.expanded + (label.length + 1)
            labels := walk.labels + 1
            name := appendLabel walk.name label } := by
  have inside := at_.inside
  rw [List.length_cons] at inside
  have started : ({ self with work := self.work + 1 } : Parser).has walk.cursor 1 = true :=
    has_iff.mpr (by rw [size]; dsimp only; omega)
  have byte : ({ self with work := self.work + 1 } : Parser).byte walk.cursor
      = .ok (UInt8.ofNat label.length) :=
    byte_at at_
  have length : (UInt8.ofNat label.length).toNat = label.length :=
    UInt8.toNat_ofNat_of_lt' (by rw [UInt8.size]; omega)
  have occupied : UInt8.ofNat label.length ≠ 0 := by
    intro zero
    rw [zero] at length
    have nothing : UInt8.toNat 0 = 0 := rfl
    omega
  have plain := length_not_pointer label.length (by omega)
  have whole : ({ self with work := self.work + 1 } : Parser).has (walk.cursor + 1) label.length
      = true :=
    has_at at_.tail
  have read : ({ self with work := self.work + 1 } : Parser).bytes (walk.cursor + 1) label.length
      = .ok label :=
    bytes_at at_.tail
  rw [nameLoop, nameStep]
  dsimp only
  rw [started, byte, ok_bind, if_neg (by simp; omega), if_neg plain.1, length, whole,
    if_neg (by simp [plain.2]), if_neg occupied, if_neg (by omega), require_eq_ok _ counted, ok_bind,
    read, ok_bind]
  rfl

/-- The walk reads the labels that stand at its cursor to the end of the name. -/
theorem nameLoop_at (at_ : PartAt self.data walk.cursor (encodeLabels labels ++ [0]))
    (bounded : ∀ label ∈ labels, 1 ≤ label.length ∧ label.length ≤ 63)
    (enough : labels.length < fuel) (work : self.work + labels.length + 1 ≤ workMax)
    (expanded : walk.expanded + (encodeLabels labels).length ≤ 255)
    (counted : walk.labels + labels.length ≤ 127) (direct : walk.jumped = false)
    : nameLoop fuel self walk
      = .ok ({ self with work := self.work + labels.length + 1 },
          walk.cursor + (encodeLabels labels).length + 1,
          if labels.foldl appendLabel walk.name = [] then [46]
            else labels.foldl appendLabel walk.name) := by
  induction labels generalizing fuel self walk with
  | nil =>
    obtain ⟨left, rfl⟩ := Nat.exists_eq_add_one_of_ne_zero (Nat.ne_of_gt enough)
    rw [nameLoop_end work at_, direct]
    rfl
  | cons label rest ih =>
    obtain ⟨left, rfl⟩ := Nat.exists_eq_add_one_of_ne_zero (Nat.ne_of_gt (by omega : 0 < fuel))
    have parts : encodeLabels (label :: rest) ++ [0]
        = (UInt8.ofNat label.length :: label) ++ (encodeLabels rest ++ [0]) := by
      rw [encodeLabels, List.flatMap_cons, List.append_assoc]
      rfl
    rw [parts, PartAt.append_iff, List.length_cons] at at_
    rw [length_encodeLabels_cons] at expanded ⊢
    rw [List.length_cons] at enough work counted ⊢
    rw [nameLoop_label (by omega) at_.1 (bounded label List.mem_cons_self) (by omega) (by omega)]
    refine (ih ?_ (fun other member => bounded other (List.mem_cons_of_mem _ member)) ?_ ?_ ?_ ?_
      ?_).trans ?_
    · dsimp only
      rw [Nat.add_assoc, Nat.add_comm 1]
      exact at_.2
    · omega
    · dsimp only
      omega
    · dsimp only
      omega
    · dsimp only
      omega
    · exact direct
    · dsimp only
      rw [List.foldl_cons]
      congr 3
      · omega
      · omega

/-- A name that stands in the message is read without following a pointer. -/
theorem name_at {name : DnsName} (at_ : PartAt self.data offset name.encode)
    (work : self.work + name.labels.length + 1 ≤ workMax)
    : self.name offset
      = .ok ({ self with work := self.work + name.labels.length + 1 },
          offset + name.encode.length, name.text) := by
  have octets := two_mul_length_le name.bounded
  have fits := name.fits
  refine (nameLoop_at at_ name.bounded (by rw [stepsMax]; omega) work (by dsimp only; omega)
    (by dsimp only; omega) rfl).trans ?_
  rw [text_eq, DnsName.encode, List.length_append, ← Nat.add_assoc]
  rfl

/-! ### Questions and records -/

/-- The parser reads an item back from where it stands in a message of at most 65535 bytes. It has
taken no more steps than the bytes before the item, and takes no more than the bytes of the item.
-/
def Reads {Source Item : Type} (item : Parser → Nat → Except Stop (Parser × Nat × Item))
    (encode : Source → List UInt8) (decoded : Source → Item)
    : Prop :=
  ∀ (source : Source) (self : Parser) (offset : Nat), PartAt self.data offset (encode source) →
    self.work ≤ offset → self.size ≤ 65535 →
    ∃ work, work ≤ offset + (encode source).length
      ∧ item self offset
        = .ok ({ self with work }, offset + (encode source).length, decoded source)

theorem name_reads : Reads name DnsName.encode DnsName.text := by
  intro source self offset at_ spent sized
  have octets := two_mul_length_le source.bounded
  have inside := at_.inside
  have length : source.encode.length = (encodeLabels source.labels).length + 1 := by
    rw [DnsName.encode, List.length_append]
    rfl
  refine ⟨_, ?_, name_at at_ ?_⟩
  · omega
  · rw [size] at sized
    rw [workMax]
    omega

theorem readBigEndian16_value {value : UInt16}
    (at_ : PartAt self.data offset (bigEndian 2 value.toNat))
    : self.readBigEndian16 offset = .ok value := by
  rw [readBigEndian16_at at_, UInt16.ofNat_toNat]

theorem readBigEndian32_value {value : UInt32}
    (at_ : PartAt self.data offset (bigEndian 4 value.toNat))
    : self.readBigEndian32 offset = .ok value := by
  rw [readBigEndian32_at at_, UInt32.ofNat_toNat]

/-- A question is read back. -/
theorem question_reads : Reads question Question.encode Question.decoded := by
  intro source self offset at_ spent sized
  rw [Question.encode, List.append_assoc, PartAt.append_iff] at at_
  obtain ⟨named, fixed⟩ := at_
  have inside := fixed.inside
  rw [PartAt.append_iff, length_bigEndian] at fixed
  rw [List.length_append, length_bigEndian, length_bigEndian] at inside
  obtain ⟨work, bound, read⟩ := name_reads source.name self offset named spent sized
  have whole : ({ self with work } : Parser).has (offset + source.name.encode.length) 4 = true :=
    has_iff.mpr inside
  have type : ({ self with work } : Parser).readBigEndian16 (offset + source.name.encode.length)
      = .ok source.type :=
    readBigEndian16_value fixed.1
  have klass : ({ self with work } : Parser).readBigEndian16
      (offset + source.name.encode.length + 2) = .ok source.klass :=
    readBigEndian16_value fixed.2
  have length : source.encode.length = source.name.encode.length + 4 := by
    rw [Question.encode, List.length_append, List.length_append, length_bigEndian,
      length_bigEndian]
  refine ⟨work, by omega, ?_⟩
  rw [question, read, ok_bind]
  dsimp only
  rw [whole, type, klass, length, ← Nat.add_assoc]
  rfl

/-- The text of a record's data is read from where the data stand. -/
theorem recordText_at (body : RecordBody) (self : Parser) (offset : Nat)
    (at_ : PartAt self.data offset body.data)
    (spent : self.work ≤ offset) (sized : self.size ≤ 65535)
    : ∃ work, work ≤ offset + body.data.length
        ∧ self.recordText body.type body.klass offset body.data.length
          = .ok ({ self with work }, body.text) := by
  cases body with
  | ipv4 address =>
    have length : (RecordBody.ipv4 address).data.length = 4 := address.2
    have read := bytes_at at_
    rw [length] at read
    refine ⟨self.work, by omega, ?_⟩
    rw [recordText, if_pos ⟨rfl, rfl⟩, length, if_neg (by simp), read, ok_bind]
    rfl
  | ipv6 address =>
    have length : (RecordBody.ipv6 address).data.length = 16 := address.2
    have read : self.groups offset 8 = .ok (RecordBody.pairs address.1) := groups_at at_ length
    refine ⟨self.work, by omega, ?_⟩
    have type : (RecordBody.ipv6 address).type = typeAaaa := rfl
    rw [recordText, type, if_neg (fun isA => absurd isA.1 (by decide)), if_pos ⟨rfl, rfl⟩, length,
      if_neg (by simp), read, ok_bind]
    rfl
  | target kind klass name =>
    have code : kind.code ≠ typeA ∧ kind.code ≠ typeAaaa
        ∧ (kind.code = typeNs ∨ kind.code = typeCname ∨ kind.code = typePtr) := by
      cases kind <;> decide
    obtain ⟨work, bound, read⟩ := name_reads name self offset at_ spent sized
    refine ⟨work, bound, ?_⟩
    have type : (RecordBody.target kind klass name).type = kind.code := rfl
    rw [recordText, type, if_neg (fun isA => code.1 isA.1),
      if_neg (fun isAaaa => code.2.1 isAaaa.1), if_pos code.2.2, read, ok_bind]
    dsimp only
    rw [if_neg (by simp [RecordBody.data])]
    rfl
  | other type klass data noAddress noName =>
    refine ⟨self.work, by omega, ?_⟩
    rw [recordText, if_neg (fun isA => (noAddress isA.2).1 isA.1),
      if_neg (fun isAaaa => (noAddress isAaaa.2).2 isAaaa.1), if_neg ?_]
    · rfl
    · rintro (isNs | isCname | isPtr)
      · exact noName .ns isNs
      · exact noName .cname isCname
      · exact noName .ptr isPtr

/-- A record is read back, whatever its type. -/
theorem record_reads : Reads record Record.encode Record.decoded := by
  intro source self offset at_ spent sized
  simp only [Record.encode, List.append_assoc, PartAt.append_iff, length_bigEndian] at at_
  obtain ⟨named, typed, classed, timed, measured, held⟩ := at_
  obtain ⟨work, bound, read⟩ := name_reads source.name self offset named spent sized
  have inside := held.inside
  have size : self.size = self.data.length := rfl
  have length : source.encode.length
      = source.name.encode.length + 10 + source.body.data.length := by
    simp only [Record.encode, List.length_append, length_bigEndian]
  have short : (UInt16.ofNat source.body.data.length).toNat = source.body.data.length := by
    rw [UInt16.toNat_ofNat', Nat.mod_eq_of_lt (by omega)]
  generalize start : offset + source.name.encode.length = from_ at *
  have starts : from_ + 2 + 2 + 4 + 2 = from_ + 10 := rfl
  rw [starts] at held inside
  obtain ⟨final, limit, text⟩ := recordText_at source.body { self with work } (from_ + 10) held
    (by dsimp only; omega) sized
  have whole : ({ self with work } : Parser).has from_ 10 = true :=
    has_iff.mpr (show from_ + 10 ≤ self.data.length by omega)
  have contents : ({ self with work } : Parser).has (from_ + 10) source.body.data.length = true :=
    has_iff.mpr inside
  have type : ({ self with work } : Parser).readBigEndian16 from_ = .ok source.body.type :=
    readBigEndian16_value typed
  have klass : ({ self with work } : Parser).readBigEndian16 (from_ + 2) = .ok source.body.klass :=
    readBigEndian16_value classed
  have ttl : ({ self with work } : Parser).readBigEndian32 (from_ + 4) = .ok source.ttl :=
    readBigEndian32_value timed
  have measure : ({ self with work } : Parser).readBigEndian16 (from_ + 8)
      = .ok (UInt16.ofNat source.body.data.length) :=
    readBigEndian16_at measured
  have bytes : ({ self with work } : Parser).bytes (from_ + 10) source.body.data.length
      = .ok source.body.data :=
    bytes_at held
  refine ⟨final, by omega, ?_⟩
  rw [record, read, ok_bind]
  dsimp only
  rw [whole, type, klass, ttl, measure]
  simp only [ok_bind, short]
  rw [contents, bytes, text, length]
  simp only [ok_bind, ← Nat.add_assoc, start]
  rfl

/-- Items in a row are read back one by one. Witness: induction on them. -/
theorem several_reads {Source Item : Type}
    {item : Parser → Nat → Except Stop (Parser × Nat × Item)} {encode : Source → List UInt8}
    {decoded : Source → Item} (reads : Reads item encode decoded)
    (sources : List Source) (self : Parser) (offset : Nat)
    (at_ : PartAt self.data offset (sources.flatMap encode)) (spent : self.work ≤ offset)
    (sized : self.size ≤ 65535)
    : ∃ work, work ≤ offset + (sources.flatMap encode).length
        ∧ several item sources.length self offset
          = .ok ({ self with work }, offset + (sources.flatMap encode).length,
              sources.map decoded) := by
  induction sources generalizing self offset with
  | nil => exact ⟨self.work, spent, rfl⟩
  | cons source rest ih =>
    rw [List.flatMap_cons, PartAt.append_iff] at at_
    obtain ⟨work, bound, read⟩ := reads source self offset at_.1 spent sized
    obtain ⟨final, limit, others⟩ := ih { self with work } (offset + (encode source).length) at_.2
      bound sized
    rw [List.flatMap_cons, List.length_append, ← Nat.add_assoc]
    refine ⟨final, limit, ?_⟩
    rw [List.length_cons, several, read, ok_bind]
    dsimp only
    rw [others]
    rfl

end Parser

/-! ### The header -/

/-- A flag of the header is a bit of its word. -/
theorem bit_of_word (word : Nat) {index : Nat} (inside : index < 16)
    : (UInt16.ofNat word &&& UInt16.ofNat (2 ^ index) != 0) = word.testBit index := by
  have small : 2 ^ index < 2 ^ 16 := Nat.pow_lt_pow_right (by decide) inside
  rw [Bool.eq_iff_iff, bne_iff_ne, ne_eq, ← UInt16.toNat_inj, UInt16.toNat_and,
    UInt16.toNat_ofNat', UInt16.toNat_ofNat', Nat.mod_eq_of_lt small, Nat.and_two_pow,
    Nat.testBit_mod_two_pow, decide_eq_true inside, Bool.true_and]
  cases word.testBit index <;> simp

theorem nibble_of_word (word : Nat)
    : (UInt16.ofNat word &&& 15).toUInt8 = UInt8.ofNat (word % 16) := by
  have low : UInt16.toNat 15 = 2 ^ 4 - 1 := rfl
  rw [← UInt8.toNat_inj, UInt16.toNat_toUInt8, UInt16.toNat_and, low,
    Nat.and_two_pow_sub_one_eq_mod, UInt16.toNat_ofNat', UInt8.toNat_ofNat']
  omega

theorem shifted_word {word : Nat} (small : word < 65536)
    : UInt16.ofNat word >>> 11 = UInt16.ofNat (word / 2048) := by
  have places : UInt16.toNat 11 % 16 = 11 := rfl
  rw [← UInt16.toNat_inj, UInt16.toNat_shiftRight, places, Nat.shiftRight_eq_div_pow,
    UInt16.toNat_ofNat', UInt16.toNat_ofNat']
  omega

/-- The word of the flags holds each of them at its place. -/
theorem Flags.word_fields (flags : Flags)
    : flags.word / 32768 = flags.response.toNat ∧ flags.word / 2048 % 16 = flags.opcode.1
      ∧ flags.word / 512 % 2 = flags.truncated.toNat ∧ flags.word % 16 = flags.rcode.1 := by
  have response := flags.response.toNat_le
  have opcode := flags.opcode.2
  have authoritative := flags.authoritative.toNat_le
  have truncated := flags.truncated.toNat_le
  have recursionDesired := flags.recursionDesired.toNat_le
  have recursionAvailable := flags.recursionAvailable.toNat_le
  have reserved := flags.reserved.2
  have rcode := flags.rcode.2
  rw [Flags.word]
  omega

theorem decide_toNat (bit : Bool) : decide (bit.toNat = 1) = bit := by
  cases bit <;> rfl

/-- What the decoder keeps of the header. -/
def MessageParts.header (message : MessageParts) : DnsMessage :=
  { id := message.id
    response := message.flags.response
    truncated := message.flags.truncated
    opcode := UInt8.ofNat message.flags.opcode.1
    rcode := UInt8.ofNat message.flags.rcode.1 }

def MessageParts.counts (message : MessageParts) : Parser.Counts :=
  { questions := UInt16.ofNat message.questions.length
    answers := UInt16.ofNat message.answers.length
    authorities := UInt16.ofNat message.authorities.length
    additionals := UInt16.ofNat message.additionals.length }

/-- The fields masked out of the word are the message's own. -/
theorem MessageParts.header_eq (message : MessageParts)
    : { id := message.id
        response := UInt16.ofNat message.flags.word &&& 0x8000 != 0
        truncated := UInt16.ofNat message.flags.word &&& 0x0200 != 0
        opcode := (UInt16.ofNat message.flags.word >>> 11 &&& 15).toUInt8
        rcode := (UInt16.ofNat message.flags.word &&& 15).toUInt8 } = message.header := by
  obtain ⟨response, opcode, truncated, rcode⟩ := message.flags.word_fields
  have first : (UInt16.ofNat message.flags.word &&& 0x8000 != 0) = message.flags.response := by
    have bit := bit_of_word message.flags.word (show 15 < 16 by decide)
    rw [Nat.testBit_eq_decide_div_mod_eq, response, Nat.mod_eq_of_lt (Bool.toNat_lt _),
      decide_toNat] at bit
    exact bit
  have second : (UInt16.ofNat message.flags.word &&& 0x0200 != 0) = message.flags.truncated := by
    have bit := bit_of_word message.flags.word (show 9 < 16 by decide)
    rw [Nat.testBit_eq_decide_div_mod_eq, truncated, decide_toNat] at bit
    exact bit
  have word : message.flags.word < 65536 := by
    have small := message.flags.response.toNat_le
    omega
  rw [first, second, shifted_word word, nibble_of_word, nibble_of_word, opcode, rcode]
  rfl

/-! ### Messages -/

namespace Message

variable (message : Message) {data : List UInt8}

theorem toNat_length {length : Nat} (counted : length ≤ message.count)
    : (UInt16.ofNat length).toNat = length := by
  have most := message.counted
  rw [UInt16.toNat_ofNat', Nat.mod_eq_of_lt (by omega)]

theorem length_encodeHeader : message.encodeHeader.length = 12 := by
  simp only [MessageParts.encodeHeader, List.length_append, length_bigEndian]

/-- The twelve bytes of the header are read back, and the sections are left to be read. -/
theorem decodeDns_header (at_ : PartAt data 0 message.encodeHeader) (sized : data.length ≤ 65535)
    : decodeDns data = rejectedAs (invalidMessage "malformed or truncated DNS message")
        (({ data } : Parser).sections message.counts message.header) := by
  have inside := at_.inside
  rw [length_encodeHeader] at inside
  simp only [MessageParts.encodeHeader, List.append_assoc, PartAt.append_iff, length_bigEndian]
    at at_
  obtain ⟨id, flags, questions, answers, authorities, additionals⟩ := at_
  have counted := message.counted
  have count : message.count = message.questions.length + message.answers.length
      + message.authorities.length + message.additionals.length := rfl
  have read := fun {offset value} => @Parser.readBigEndian16_at { data } offset value
  rw [decodeDns, if_neg (by omega)]
  dsimp only
  rw [read id, read flags, read questions, read answers, read authorities, read additionals]
  simp only [ok_bind]
  rw [message.toNat_length (by omega), message.toNat_length (by omega),
    message.toNat_length (by omega), message.toNat_length (by omega), if_neg (by omega),
    UInt16.ofNat_toNat, message.header_eq]
  rfl

/-- The questions and records are read to where the encoding ends. -/
theorem body_at {self : Parser} (at_ : PartAt self.data 0 message.encode) (idle : self.work = 0)
    (sized : self.size ≤ 65535) (header : DnsMessage)
    : ∃ work, self.body message.counts header
        = .ok ({ self with work }, message.encode.length,
            { header with
              questions := message.questions.map Question.decoded
              answers := message.answers.map Record.decoded
              authorities := message.authorities.map Record.decoded
              additionals := message.additionals.map Record.decoded }) := by
  simp only [MessageParts.encode, MessageParts.encodeBody, List.append_assoc, PartAt.append_iff,
    length_encodeHeader, Nat.zero_add] at at_
  obtain ⟨_, questions, answers, authorities, additionals⟩ := at_
  have count : message.count = message.questions.length + message.answers.length
      + message.authorities.length + message.additionals.length := rfl
  have length : message.encode.length = 12 + (message.questions.flatMap Question.encode).length
      + (message.answers.flatMap Record.encode).length
      + (message.authorities.flatMap Record.encode).length
      + (message.additionals.flatMap Record.encode).length := by
    simp only [MessageParts.encode, MessageParts.encodeBody, List.length_append,
      length_encodeHeader, Nat.add_assoc]
  obtain ⟨first, spent, asked⟩ := Parser.several_reads Parser.question_reads message.questions
    self 12 questions (by omega) sized
  obtain ⟨second, used, answered⟩ := Parser.several_reads Parser.record_reads message.answers
    { self with work := first } _ answers spent sized
  obtain ⟨third, worn, authorised⟩ := Parser.several_reads Parser.record_reads message.authorities
    { self with work := second } _ authorities used sized
  obtain ⟨fourth, _, added⟩ := Parser.several_reads Parser.record_reads message.additionals
    { self with work := third } _ additionals worn sized
  refine ⟨fourth, ?_⟩
  simp only [Parser.body, Parser.records, MessageParts.counts]
  rw [message.toNat_length (by omega), message.toNat_length (by omega),
    message.toNat_length (by omega), message.toNat_length (by omega)]
  simp only [asked, answered, authorised, added, ok_bind, length]

/-- The sections are read back where they stand; bytes left over are refused. -/
theorem sections_at {self : Parser} (at_ : PartAt self.data 0 message.encode)
    (idle : self.work = 0) (sized : self.size ≤ 65535)
    : ∃ work, self.sections message.counts message.header
        = if message.encode.length ≠ self.size then .error { reason := .rejected, work }
          else .ok message.decoded := by
  obtain ⟨work, read⟩ := message.body_at at_ idle sized message.header
  refine ⟨work, ?_⟩
  rw [Parser.sections, read, ok_bind]
  rfl

/-- No sections are read back from a message that lacks its last byte.
Witness: the same sections are read from the whole message, which ends one byte later.
-/
theorem sections_shorter {last : UInt8} (encoded : data ++ [last] = message.encode)
    (decoded : DnsMessage)
    : ({ data } : Parser).sections message.counts message.header ≠ .ok decoded := by
  intro returned
  obtain ⟨⟨after, past, begun⟩, read, ended⟩ := bind_eq_ok.mp returned
  have again : ({ data := message.encode } : Parser).body message.counts message.header
      = .ok (after.extend [last], past, begun) := by
    rw [← encoded]
    exact Parser.body_extend _ read
  have whole : PartAt message.encode 0 message.encode := ⟨by simp, by simp⟩
  obtain ⟨work, reached⟩ := @body_at message { data := message.encode } whole rfl message.fits
    message.header
  rw [reached, Except.ok.injEq, Prod.mk.injEq, Prod.mk.injEq] at again
  have longer : after.data.length + 1 = message.encode.length := by
    have same := congrArg (fun parser => parser.data.length) again.1
    rw [Parser.extend, List.length_append] at same
    exact same.symm
  dsimp only at ended
  rw [if_pos (by rw [Parser.size]; omega)] at ended
  cases ended

/-- A message that lacks its last byte is malformed. -/
theorem decodeDns_dropLast
    : decodeDns message.encode.dropLast
      = .ok (invalidMessage "malformed or truncated DNS message") := by
  have length : message.encode.length = 12 + message.encodeBody.length := by
    rw [MessageParts.encode, List.length_append, length_encodeHeader]
  have fits := message.fits
  have shorter := message.encode.length_dropLast
  by_cases empty : message.encodeBody = []
  · rw [empty, List.length_nil] at length
    rw [decodeDns, if_pos (by omega)]
  · have header : PartAt message.encode.dropLast 0 message.encodeHeader := by
      rw [MessageParts.encode, List.dropLast_append_of_ne_nil empty]
      exact PartAt.of_append [] message.encodeHeader message.encodeBody.dropLast
    have ended := message.sections_shorter
      (List.dropLast_append_getLast (List.ne_nil_of_length_pos (by omega)))
    have safe := @Parser.sections_rejects { data := message.encode.dropLast } message.counts
      message.header
    rw [message.decodeDns_header header (by omega)]
    cases outcome : ({ data := message.encode.dropLast } : Parser).sections message.counts
      message.header with
    | ok decoded => exact absurd outcome (ended decoded)
    | error stop =>
      rw [outcome] at safe
      obtain ⟨reason, work⟩ := stop
      obtain rfl : reason = .rejected := safe
      rfl

/-- Decoding undoes encoding, and takes nothing that is a byte longer or a byte shorter. -/
theorem decodeDns_encode (message : Message)
    : decodeDns message.encode = .ok message.decoded
      ∧ (∀ byte : UInt8, decodeDns (message.encode ++ [byte])
          = .ok (invalidMessage "malformed or truncated DNS message"))
      ∧ decodeDns message.encode.dropLast
          = .ok (invalidMessage "malformed or truncated DNS message") := by
  have fits := message.fits
  have whole : PartAt message.encode 0 message.encode := ⟨by simp, by simp⟩
  have header := (PartAt.append_iff.mp whole).1
  refine ⟨?_, fun byte => ?_, message.decodeDns_dropLast⟩
  · obtain ⟨work, read⟩ := @sections_at message { data := message.encode } whole rfl fits
    rw [message.decodeDns_header header fits, read, if_neg (fun longer => longer rfl)]
    rfl
  · have length : (message.encode ++ [byte]).length = message.encode.length + 1 := by simp
    have size : ({ data := message.encode ++ [byte] } : Parser).size = message.encode.length + 1 :=
      length
    by_cases tooLong : 65535 < message.encode.length + 1
    · rw [decodeDns, if_pos (by omega)]
    · obtain ⟨work, read⟩ := @sections_at message { data := message.encode ++ [byte] }
        (whole.extend [byte]) rfl (by omega)
      rw [message.decodeDns_header (header.extend [byte]) (by omega), read,
        if_pos (by omega)]
      rfl

end Message

end PacketQuapture.Dns
