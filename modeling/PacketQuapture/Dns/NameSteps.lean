import PacketQuapture.Dns.Decoder
import PacketQuapture.Library.PartAt

/-! The steps of a walk along a name.
A step ends the name, takes a label or follows a pointer. Each is counted, so a name takes few of
them and a message no more than its cap; and each pointer leads before the run of labels that
holds it, so no pointer is followed twice.
-/

namespace PacketQuapture.Dns

open Library

namespace Parser

/-! ### Reads inside the message -/

variable {self : Parser} {offset length : Nat} {raised : Stop → Prop}

theorem has_iff : self.has offset length = true ↔ offset + length ≤ self.size := by
  simp only [has, Bool.and_eq_true, decide_eq_true_eq]
  omega

theorem byte_safe (inside : offset < self.size)
    : Ensures (self.byte offset) (fun _ => True) raised := by
  rw [byte, List.getElem?_eq_getElem inside]
  exact .ok trivial

theorem bytes_safe (inside : offset + length ≤ self.size)
    : Ensures (self.bytes offset length) (fun _ => True) raised := by
  induction length generalizing offset with
  | zero => exact .ok trivial
  | succ count ih =>
    refine (byte_safe (by omega)).bind fun byte _ => ?_
    exact (ih (by omega)).bind fun rest _ => .ok trivial

theorem readBigEndian16_safe (inside : offset + 2 ≤ self.size)
    : Ensures (self.readBigEndian16 offset) (fun _ => True) raised := by
  refine (byte_safe (by omega)).bind fun high _ => ?_
  exact (byte_safe (by omega)).bind fun low _ => .ok trivial

theorem readBigEndian32_safe (inside : offset + 4 ≤ self.size)
    : Ensures (self.readBigEndian32 offset) (fun _ => True) raised := by
  refine (readBigEndian16_safe (by omega)).bind fun high _ => ?_
  exact (readBigEndian16_safe (by omega)).bind fun low _ => .ok trivial

theorem groups_safe {count : Nat} (inside : offset + 2 * count ≤ self.size)
    : Ensures (self.groups offset count) (fun _ => True) raised := by
  induction count generalizing offset with
  | zero => exact .ok trivial
  | succ count ih =>
    refine (readBigEndian16_safe (by omega)).bind fun group _ => ?_
    exact (ih (by omega)).bind fun rest _ => .ok trivial

/-! ### One step -/

/-- Where a pointer leads. -/
def pointerTarget (high low : UInt8) : Nat :=
  (high &&& 0x3f).toNat <<< 8 ||| low.toNat

/-- What a step that is not refused finds in the message, and where it leads. -/
inductive Moves (data : List UInt8) (walk : NameWalk) : NameMove → Prop
  | terminator (found : data[walk.cursor]? = some 0)
    : Moves data walk
        (.finished (if walk.jumped then walk.offset else walk.cursor + 1)
          (if walk.name = [] then [46] else walk.name))
  | label {length : UInt8} {label : List UInt8} (found : data[walk.cursor]? = some length)
    (positive : length ≠ 0) (short : length ≤ 63) (taken : PartAt data (walk.cursor + 1) label)
    (whole : label.length = length.toNat) (fits : walk.expanded + (length.toNat + 1) ≤ 255)
    : Moves data walk
        (.onto
          { walk with
            cursor := walk.cursor + 1 + length.toNat
            expanded := walk.expanded + (length.toNat + 1)
            labels := walk.labels + 1
            name := appendLabel walk.name label })
  | pointer {high low : UInt8} (found : data[walk.cursor]? = some high)
    (marked : high &&& 0xc0 = 0xc0) (second : data[walk.cursor + 1]? = some low)
    (before : pointerTarget high low < walk.segment) (few : walk.pointers + 1 ≤ 127)
    : Moves data walk
        (.onto
          { walk with
            cursor := pointerTarget high low
            segment := pointerTarget high low
            offset := if walk.jumped then walk.offset else walk.cursor + 2
            pointers := walk.pointers + 1
            jumped := true })

theorem byte_eq_ok {byte : UInt8}
    (read : self.byte offset = .ok byte)
    : self.data[offset]? = some byte := by
  rw [Parser.byte] at read
  split at read
  case h_1 found present =>
    cases read
    exact present
  · cases read

theorem bytes_eq_ok {count : Nat} {bytes : List UInt8}
    (inside : offset + count ≤ self.size) (read : self.bytes offset count = .ok bytes)
    : PartAt self.data offset bytes ∧ bytes.length = count := by
  induction count generalizing offset bytes with
  | zero =>
    cases read
    exact ⟨.nil inside, rfl⟩
  | succ count ih =>
    obtain ⟨first, head, read⟩ := bind_eq_ok.mp read
    obtain ⟨rest, tail, read⟩ := bind_eq_ok.mp read
    cases read
    obtain ⟨at_, length⟩ := ih (by omega) tail
    exact ⟨.cons (byte_eq_ok head) at_, congrArg (· + 1) length⟩

/-- A step is counted, and is refused or is one of three. Labels of two octets or more stay below
their cap.
-/
theorem nameStep_moves {walk : NameWalk}
    : Ensures (nameStep self walk)
        (fun moved => moved.1 = { self with work := self.work + 1 } ∧ self.work < workMax
          ∧ Moves self.data walk moved.2)
        fun stop => stop.work = self.work + 1
          ∧ (1 + 2 * walk.labels ≤ walk.expanded → stop.reason = .rejected) := by
  rw [nameStep]
  dsimp only
  split
  · exact .error ⟨rfl, fun _ => rfl⟩
  case isFalse started =>
    simp only [Bool.or_eq_true, decide_eq_true_eq, Bool.not_eq_true', not_or, Bool.not_eq_false,
      has_iff] at started
    have spent : self.work < workMax := by omega
    refine (byte_safe started.2).returned.bind fun length found => ?_
    have first := byte_eq_ok found.1
    split
    case isTrue marked =>
      split
      · exact .error ⟨rfl, fun _ => rfl⟩
      case isFalse more =>
        simp only [Bool.not_eq_true', Bool.not_eq_false, has_iff] at more
        refine (byte_safe more).returned.bind fun low found => ?_
        have second := byte_eq_ok found.1
        split
        · exact .error ⟨rfl, fun _ => rfl⟩
        case isFalse prior =>
          rw [not_or, not_le] at prior
          split
          · exact .error ⟨rfl, fun _ => rfl⟩
          case isFalse few =>
            exact .ok ⟨rfl, spent, .pointer first marked second prior.2 (by omega)⟩
    case isFalse plain =>
      split
      · exact .error ⟨rfl, fun _ => rfl⟩
      case isFalse inside =>
        simp only [not_or, UInt8.not_lt, Bool.not_eq_false, has_iff] at inside
        split
        case isTrue zero =>
          subst zero
          exact .ok ⟨rfl, spent, .terminator first⟩
        case isFalse positive =>
          split
          · exact .error ⟨rfl, fun _ => rfl⟩
          case isFalse fits =>
            unfold require
            split
            · refine (bytes_safe inside.2).returned.bind fun label taken => ?_
              obtain ⟨at_, whole⟩ := bytes_eq_ok inside.2 taken.1
              exact .ok ⟨rfl, spent, .label first positive inside.1 at_ whole (by omega)⟩
            case isFalse many =>
              -- so many labels leave no room for this one
              have occupied : length.toNat ≠ 0 := fun zero => positive (UInt8.toNat_inj.mp zero)
              exact .error ⟨rfl, fun octets => absurd fits (by omega)⟩

/-! ### Counting steps -/

/-- What the walk along a name keeps: each step so far was a label or a pointer, each label took
two octets at least, and both are capped.
-/
structure NameWalk.Bounded (walk : NameWalk) (fuel : Nat) : Prop where
  steps : fuel + walk.labels + walk.pointers = stepsMax
  octets : 1 + 2 * walk.labels ≤ walk.expanded
  expanded : walk.expanded ≤ 255
  pointers : walk.pointers ≤ 127

/-- The loop ends before its steps are used up: the parser keeps its message, and a message that has
steps left goes at most one over its cap.
Witness: induction on the steps, each of which uses up a label or a pointer.
-/
theorem nameLoop_steps {fuel : Nat} {walk : NameWalk} (bounded : walk.Bounded fuel)
    : Ensures (nameLoop fuel self walk)
        (fun result => result.1.data = self.data ∧ result.1.work ≤ self.work + fuel
          ∧ result.1.work ≤ workMax)
        fun stop => stop.reason = .rejected ∧ stop.work ≤ self.work + fuel
          ∧ (self.work ≤ workMax → stop.work ≤ workMax + 1) := by
  induction fuel generalizing self walk with
  | zero =>
    -- 127 labels and 127 pointers are fewer than the steps
    obtain ⟨steps, octets, expanded, pointers⟩ := bounded
    rw [stepsMax] at steps
    omega
  | succ fuel ih =>
    obtain ⟨steps, octets, expanded, pointers⟩ := bounded
    rw [nameLoop]
    refine (nameStep_moves.mono (fun _ => id) fun stop counted => ?_).bind fun moved made => ?_
    · exact ⟨counted.2 octets, by omega, by omega⟩
    · obtain ⟨after, move⟩ := moved
      obtain ⟨rfl, left, moves⟩ := made
      cases moves with
      | terminator => exact .ok ⟨rfl, by dsimp only; omega, left⟩
      | label _ positive _ _ _ fits =>
        have occupied := mt UInt8.toNat_inj.mp positive
        rw [UInt8.toNat_zero] at occupied
        refine Ensures.mono (ih ⟨?_, ?_, fits, pointers⟩) ?_ ?_
        · dsimp only; omega
        · dsimp only; omega
        · rintro result ⟨same, counted, below⟩
          exact ⟨same, by dsimp only at counted; omega, below⟩
        · rintro stop ⟨rejected, counted, below⟩
          exact ⟨rejected, by dsimp only at counted; omega, fun _ => below left⟩
      | pointer _ _ _ _ few =>
        refine Ensures.mono (ih ⟨?_, octets, expanded, few⟩) ?_ ?_
        · dsimp only; omega
        · rintro result ⟨same, counted, below⟩
          exact ⟨same, by dsimp only at counted; omega, below⟩
        · rintro stop ⟨rejected, counted, below⟩
          exact ⟨rejected, by dsimp only at counted; omega, fun _ => below left⟩

theorem name_steps
    : Ensures (self.name offset)
        (fun result => result.1.data = self.data ∧ result.1.work ≤ self.work + stepsMax
          ∧ result.1.work ≤ workMax)
        fun stop => stop.reason = .rejected ∧ stop.work ≤ self.work + stepsMax
          ∧ (self.work ≤ workMax → stop.work ≤ workMax + 1) :=
  nameLoop_steps ⟨rfl, le_rfl, by dsimp only; decide, by dsimp only; decide⟩

/-! ### Pointers -/

/-- The targets of the pointers a walk follows, in order. -/
def followed : Nat → Parser → NameWalk → List Nat
  | 0, _, _ => []
  | fuel + 1, self, walk =>
    match nameStep self walk with
    | .ok (after, .onto next) =>
      if next.pointers = walk.pointers then followed fuel after next
      else next.cursor :: followed fuel after next
    | _ => []

def pointersFollowed (self : Parser) (offset : Nat) : List Nat :=
  followed stepsMax self { cursor := offset, segment := offset, offset }

theorem followed_decreasing (fuel : Nat) (self : Parser) (walk : NameWalk)
    : (followed fuel self walk).Pairwise (· > ·)
      ∧ ∀ target ∈ followed fuel self walk, target < walk.segment := by
  induction fuel generalizing self walk with
  | zero => exact ⟨.nil, fun _ member => nomatch member⟩
  | succ fuel ih =>
    rw [followed]
    split
    case h_2 => exact ⟨.nil, fun _ member => nomatch member⟩
    case h_1 after next stepped =>
      obtain ⟨decreasing, below⟩ := ih after next
      cases (nameStep_moves.of_eq_ok stepped).2.2 with
      | label => rw [if_pos rfl]; exact ⟨decreasing, below⟩
      | pointer _ _ _ before =>
        rw [if_neg (by dsimp only; omega)]
        refine ⟨List.pairwise_cons.mpr ⟨below, decreasing⟩, fun target member => ?_⟩
        rcases List.mem_cons.mp member with rfl | later
        · exact before
        · exact (below target later).trans before

end Parser

end PacketQuapture.Dns
