import PacketQuapture.Dns.Safety

/-! What the parser reads of a message it reads again when more bytes follow.
Only the check that a message ends with its last record looks at where the bytes end.
-/

namespace PacketQuapture.Dns

open Library

namespace Parser

def extend (self : Parser) (more : List UInt8) : Parser :=
  { self with data := self.data ++ more }

/-- What a parser returned, with the bytes that follow. -/
def extended {Rest : Type} (more : List UInt8) (result : Parser × Rest) : Parser × Rest :=
  (result.1.extend more, result.2)

/-- An item that is read stays as it was read when more bytes follow. -/
def Extends {Item : Type} (item : Parser → Nat → Except Stop (Parser × Nat × Item)) : Prop :=
  ∀ (more : List UInt8) (self : Parser) (offset : Nat),
    Carries (extended more) (item self offset) (item (self.extend more) offset)

variable {self : Parser} {offset length : Nat} {more : List UInt8}

theorem has_extend (inside : self.has offset length = true)
    : (self.extend more).has offset length = true := by
  rw [has_iff] at inside ⊢
  rw [size, extend, List.length_append]
  exact inside.trans (Nat.le_add_right ..)

theorem lacks_of_extend (lacks : (self.extend more).has offset length = false)
    : self.has offset length = false := by
  rw [← Bool.not_eq_true] at lacks ⊢
  exact fun inside => lacks (has_extend inside)

theorem byte_extend : Carries id (self.byte offset) ((self.extend more).byte offset) := by
  intro value returned
  rw [byte] at returned
  split at returned
  case h_1 found present =>
    cases returned
    obtain ⟨inside, _⟩ := List.getElem?_eq_some_iff.mp present
    rw [byte, extend, List.getElem?_append_left inside, present]
    rfl
  case h_2 => cases returned

theorem bytes_extend
    : Carries id (self.bytes offset length) ((self.extend more).bytes offset length) := by
  induction length generalizing offset with
  | zero => exact .ok id _
  | succ count ih =>
    refine byte_extend.bind fun byte => ?_
    exact ih.bind fun rest => .ok id _

theorem readBigEndian16_extend
    : Carries id (self.readBigEndian16 offset) ((self.extend more).readBigEndian16 offset) :=
  byte_extend.bind fun _ => byte_extend.bind fun _ => .ok id _

theorem readBigEndian32_extend
    : Carries id (self.readBigEndian32 offset) ((self.extend more).readBigEndian32 offset) :=
  readBigEndian16_extend.bind fun _ => readBigEndian16_extend.bind fun _ => .ok id _

theorem groups_extend
    : Carries id (self.groups offset length) ((self.extend more).groups offset length) := by
  induction length generalizing offset with
  | zero => exact .ok id _
  | succ count ih =>
    refine readBigEndian16_extend.bind fun group => ?_
    exact ih.bind fun rest => .ok id _

theorem nameStep_extend {walk : NameWalk}
    : Carries (extended more) (nameStep self walk) (nameStep (self.extend more) walk) := by
  refine .guard ?_ fun _ => ?_
  · simp only [Bool.or_eq_true, Bool.not_eq_true']
    exact Or.imp_right lacks_of_extend
  · refine byte_extend.bind fun first => .ite (fun _ => ?_) fun _ => ?_
    · refine .guard ?_ fun _ => byte_extend.bind fun low => ?_
      · simp only [Bool.not_eq_true']
        exact lacks_of_extend
      · exact .guard id fun _ => .guard id fun _ => .ok (extended more) _
    · refine .guard (Or.imp_right lacks_of_extend) fun _ => ?_
      refine .ite (fun _ => .ok (extended more) _) fun _ => .guard id fun _ => ?_
      exact (Carries.refl _).bind fun _ => bytes_extend.bind fun label => .ok (extended more) _

theorem nameLoop_extend {fuel : Nat} {walk : NameWalk}
    : Carries (extended more) (nameLoop fuel self walk)
        (nameLoop fuel (self.extend more) walk) := by
  induction fuel generalizing self walk with
  | zero => exact .error _
  | succ fuel ih =>
    refine nameStep_extend.bind fun moved => ?_
    obtain ⟨after, move⟩ := moved
    cases move with
    | onto next => exact ih
    | finished offset text => exact .ok (extended more) _

theorem name_extends : Extends name :=
  fun _ _ _ => nameLoop_extend

theorem question_extends : Extends question := by
  intro more self offset
  refine (name_extends more self offset).bind fun result => ?_
  obtain ⟨after, past, name⟩ := result
  refine .guard ?_ fun _ => ?_
  · simp only [Bool.not_eq_true']
    exact lacks_of_extend
  · refine readBigEndian16_extend.bind fun type => readBigEndian16_extend.bind fun klass => ?_
    exact .ok (extended more) _

theorem recordText_extend {type klass : UInt16}
    : Carries (extended more) (self.recordText type klass offset length)
        ((self.extend more).recordText type klass offset length) := by
  unfold recordText
  refine .ite (fun _ => .guard id fun _ => ?_) fun _ => .ite (fun _ => .guard id fun _ => ?_)
    fun _ => .ite (fun _ => ?_) fun _ => .ok (extended more) _
  · exact bytes_extend.bind fun address => .ok (extended more) _
  · exact groups_extend.bind fun groups => .ok (extended more) _
  · refine (name_extends more self offset).bind fun result => ?_
    obtain ⟨after, cursor, text⟩ := result
    exact .guard id fun _ => .ok (extended more) _

theorem record_extends : Extends record := by
  intro more self offset
  refine (name_extends more self offset).bind fun result => ?_
  obtain ⟨after, past, name⟩ := result
  refine .guard ?_ fun _ => ?_
  · simp only [Bool.not_eq_true']
    exact lacks_of_extend
  · refine readBigEndian16_extend.bind fun type => readBigEndian16_extend.bind fun klass => ?_
    refine readBigEndian32_extend.bind fun ttl => readBigEndian16_extend.bind fun length => ?_
    refine .guard ?_ fun _ => ?_
    · simp only [Bool.not_eq_true']
      exact lacks_of_extend
    · refine bytes_extend.bind fun data => recordText_extend.bind fun result => ?_
      exact .ok (extended more) _

theorem several_extends {Item : Type} {item : Parser → Nat → Except Stop (Parser × Nat × Item)}
    (extends_ : Extends item) (count : Nat)
    : Extends (several item count) := by
  intro more self offset
  induction count generalizing self offset with
  | zero => exact .ok (extended more) _
  | succ count ih =>
    refine (extends_ more self offset).bind fun first => ?_
    refine (ih first.1 first.2.1).bind fun rest => ?_
    exact .ok (extended more) _

theorem body_extend {counts : Counts} {header : DnsMessage}
    : Carries (extended more) (self.body counts header)
        ((self.extend more).body counts header) := by
  have questions := several_extends question_extends counts.questions.toNat
  have records := fun count => several_extends record_extends count
  refine (questions more self 12).bind fun first => ?_
  refine (records _ more first.1 first.2.1).bind fun second => ?_
  refine (records _ more second.1 second.2.1).bind fun third => ?_
  refine (records _ more third.1 third.2.1).bind fun fourth => ?_
  exact .ok (extended more) _

end Parser

end PacketQuapture.Dns
