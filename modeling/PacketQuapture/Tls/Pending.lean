import PacketQuapture.Tls.Encoding
import PacketQuapture.Tls.Steps

/-! The table of waiting directions.
The assembler counts the finds it holds and queues their keys, oldest first. As long as the queue
covers the finds, a full table always has one to release and no assertion of it fails.
-/

namespace PacketQuapture.Tls

open Library Reassembly

namespace TlsHandshakeAssembler

variable {Cert : Type} {x509 : X509Parser Cert}
variable {assembler : TlsHandshakeAssembler Cert} {direction : Direction Cert}
variable {key : TcpFlowKey}

/-! ### Finds -/

/-- How many of the held directions were found by searching and still need confirmation. -/
def finds (assembler : TlsHandshakeAssembler Cert) : Nat :=
  assembler.pending.entries.countP fun entry => entry.2.needsConfirmation

theorem finds_of_find? (found : assembler.pending.find? key = some direction)
    : assembler.finds
      = (assembler.pending.erase key).entries.countP (fun entry => entry.2.needsConfirmation)
        + if direction.needsConfirmation then 1 else 0 := by
  rw [finds, (OrderedMap.perm_of_find? found).countP_eq, List.countP_cons]

/-- There is a find exactly when some key holds one. -/
theorem finds_pos_iff : 0 < assembler.finds ↔ ∃ key, assembler.holdsFind key = true := by
  simp only [finds, List.countP_pos_iff, holdsFind_iff, OrderedMap.find?_eq_some_iff]
  constructor
  · intro some_find
    obtain ⟨⟨key, direction⟩, stored, needs⟩ := some_find
    exact ⟨key, direction, stored, needs⟩
  · intro some_find
    obtain ⟨key, direction, stored, needs⟩ := some_find
    exact ⟨(key, direction), stored, needs⟩

/-! ### The invariant -/

/-- Every direction waits under its own tuple, the finds are counted and the table fits its room. -/
structure Counted (assembler : TlsHandshakeAssembler Cert) : Prop where
  keyed : ∀ key direction, assembler.pending.find? key = some direction →
    direction.orientedKey = key
  counted : assembler.unconfirmed = assembler.finds
  bounded : assembler.pending.size ≤ assembler.limits.maxPending

/-- The table, its count of finds and their queue agree, and the table fits its room. -/
structure Tallied (assembler : TlsHandshakeAssembler Cert) : Prop
    extends Counted assembler where
  queued : ∀ key direction, assembler.pending.find? key = some direction →
    direction.needsConfirmation = true → direction.orientedKey ∈ assembler.unconfirmedOrder

theorem tallied_start (limits : TlsHandshakeLimits Cert)
    : ({ limits } : TlsHandshakeAssembler Cert).Tallied :=
  ⟨⟨fun _ _ found => (nomatch found), rfl, Nat.zero_le _⟩, fun _ _ found => (nomatch found)⟩

/-- The key of a held find is queued. -/
theorem Tallied.covers (tallied : assembler.Tallied) (held : assembler.holdsFind key = true)
    : key ∈ assembler.unconfirmedOrder := by
  obtain ⟨direction, found, needs⟩ := holdsFind_iff.mp held
  rw [← tallied.keyed key direction found]
  exact tallied.queued key direction found needs

/-- Releasing a direction that is held returns, as its find is counted. -/
theorem release_eq (counted : assembler.unconfirmed = assembler.finds)
    (found : assembler.pending.find? key = some direction)
    : assembler.release key = .ok (assembler.removed key direction) := by
  have positive : direction.needsConfirmation = true → 0 < assembler.unconfirmed := by
    intro needs
    rw [counted]
    exact finds_pos_iff.mpr ⟨key, holdsFind_iff.mpr ⟨direction, found, needs⟩⟩
  rw [release, found]
  dsimp only
  rw [require_eq_ok _ positive, ok_bind]
  rfl

/-- Taking a find out takes one off the finds. -/
theorem finds_removed (found : assembler.pending.find? key = some direction)
    : assembler.finds
      = (assembler.removed key direction).finds + if direction.needsConfirmation then 1 else 0 :=
  finds_of_find? found

theorem counted_removed (counted : assembler.unconfirmed = assembler.finds)
    (found : assembler.pending.find? key = some direction)
    : (assembler.removed key direction).unconfirmed = (assembler.removed key direction).finds := by
  have total := finds_removed found
  rw [← counted] at total
  cases needs : direction.needsConfirmation <;>
    simp only [needs, Bool.false_eq_true, if_true, if_false] at total <;>
    simp only [removed, needs, Bool.false_eq_true, if_true, if_false] at total ⊢ <;>
    omega

/-! ### Directions that leave -/

/-- Directions leave the table and the count follows them; their keys stay in the queue. -/
structure Drains (before after : TlsHandshakeAssembler Cert) : Prop where
  limits : after.limits = before.limits
  order : after.unconfirmedOrder = before.unconfirmedOrder
  counted : after.unconfirmed = after.finds
  held : ∀ key direction, after.pending.find? key = some direction →
    before.pending.find? key = some direction
  size : after.pending.size ≤ before.pending.size

namespace Drains

variable {middle next : TlsHandshakeAssembler Cert}

theorem same (counted : assembler.unconfirmed = assembler.finds) : Drains assembler assembler :=
  ⟨rfl, rfl, counted, fun _ _ found => found, le_rfl⟩

theorem trans (first : Drains assembler middle) (second : Drains middle next)
    : Drains assembler next :=
  ⟨second.limits.trans first.limits, second.order.trans first.order, second.counted,
    fun key held found => first.held key held (second.held key held found),
    second.size.trans first.size⟩

theorem counts (drains : Drains assembler next) (counted : assembler.Counted) : next.Counted := by
  refine ⟨fun key held found => counted.keyed key held (drains.held key held found),
    drains.counted, drains.size.trans ?_⟩
  rw [drains.limits]
  exact counted.bounded

theorem tallied (drains : Drains assembler next) (tallied : assembler.Tallied) : next.Tallied := by
  refine ⟨drains.counts tallied.toCounted, fun key held found needs => ?_⟩
  rw [drains.order]
  exact tallied.queued key held (drains.held key held found) needs

theorem removed (counted : assembler.unconfirmed = assembler.finds)
    (found : assembler.pending.find? key = some direction)
    : Drains assembler (assembler.removed key direction) :=
  ⟨rfl, rfl, counted_removed counted found, fun _ _ stored => (find?_of_removed stored).2,
    OrderedMap.size_erase_le ..⟩

end Drains

/-- Refuting one side returns and only takes directions out. -/
theorem refuteSide_drains (counted : assembler.unconfirmed = assembler.finds) (stream : TcpStream)
    (clientSide : Bool)
    : ∃ next, assembler.refuteSide stream clientSide = .ok next ∧ Drains assembler next := by
  unfold refuteSide
  dsimp only
  generalize (if clientSide = true then stream.key.reverse else stream.key) = key
  split
  case isTrue waits =>
    obtain ⟨waiting, found, _⟩ := (Option.any_eq_true _ _).mp waits
    exact ⟨_, release_eq counted found, .removed counted found⟩
  case isFalse => exact ⟨_, rfl, rfl, rfl, counted, fun _ _ found => found, le_rfl⟩

/-- Refuting returns and keeps the count of finds. -/
theorem refute_drains (counted : assembler.unconfirmed = assembler.finds) (stream : TcpStream)
    : ∃ next, assembler.refute stream = .ok next ∧ Drains assembler next := by
  obtain ⟨middle, first, between⟩ := refuteSide_drains counted stream true
  obtain ⟨next, second, after⟩ := refuteSide_drains between.counted stream false
  refine ⟨next, ?_, between.trans after⟩
  rw [refute, first, ok_bind]
  exact second

/-! ### Making room -/

/-- The oldest find in a queue that names one: keys no longer held are passed over. -/
theorem releaseOldest_eq (assembler : TlsHandshakeAssembler Cert)
    {order : List TcpFlowKey} (named : ∃ key ∈ order, assembler.holdsFind key = true)
    : ∃ skipped key rest,
        order = skipped ++ key :: rest
        ∧ (∀ other ∈ skipped, assembler.holdsFind other = false)
        ∧ assembler.holdsFind key = true
        ∧ assembler.releaseOldest order
            = { assembler with unconfirmedOrder := rest }.release key := by
  induction order with
  | nil => simp at named
  | cons head rest ih =>
    cases held : assembler.holdsFind head with
    | true =>
      refine ⟨[], head, rest, rfl, by simp, held, ?_⟩
      rw [releaseOldest, if_pos held]
    | false =>
      have later : ∃ key ∈ rest, assembler.holdsFind key = true := by
        obtain ⟨key, member, found⟩ := named
        rcases List.mem_cons.mp member with rfl | member
        · rw [held] at found
          cases found
        · exact ⟨key, member, found⟩
      obtain ⟨skipped, key, tail, split, unheld, found, released⟩ := ih later
      refine ⟨head :: skipped, key, tail, by rw [split]; rfl, ?_, found, ?_⟩
      · intro other member
        rcases List.mem_cons.mp member with rfl | member
        · exact held
        · exact unheld other member
      · rw [releaseOldest, if_neg (by rw [held]; decide)]
        exact released

/-- The find under a key gives way: the first of the queue that is still held, the keys before it
being dropped from the queue with it.
-/
inductive Displaces (assembler : TlsHandshakeAssembler Cert)
    : TcpFlowKey → TlsHandshakeAssembler Cert → Prop
  | first {skipped rest : List TcpFlowKey} {key : TcpFlowKey} {direction : Direction Cert}
    (split : assembler.unconfirmedOrder = skipped ++ key :: rest)
    (unheld : ∀ other ∈ skipped, assembler.holdsFind other = false)
    (found : assembler.pending.find? key = some direction)
    (needs : direction.needsConfirmation = true)
    : Displaces assembler key ({ assembler with unconfirmedOrder := rest }.removed key direction)

/-- A full table that holds a find lets one go. Witness: the queue covers it. -/
theorem Tallied.makeRoom (tallied : assembler.Tallied)
    (full : assembler.limits.maxPending ≤ assembler.pending.size)
    (some_find : assembler.unconfirmed ≠ 0)
    : ∃ key room, assembler.makeRoom = .ok room ∧ assembler.Displaces key room := by
  have positive : 0 < assembler.finds := by
    rw [← tallied.counted]
    exact Nat.pos_of_ne_zero some_find
  obtain ⟨oldest, held⟩ := finds_pos_iff.mp positive
  obtain ⟨skipped, key, rest, split, unheld, found, released⟩ :=
    assembler.releaseOldest_eq ⟨oldest, tallied.covers held, held⟩
  obtain ⟨direction, stored, needs⟩ := holdsFind_iff.mp found
  refine ⟨key, { assembler with unconfirmedOrder := rest }.removed key direction, ?_,
    .first split unheld stored needs⟩
  rw [TlsHandshakeAssembler.makeRoom, if_pos full, released]
  exact release_eq tallied.counted stored

namespace Displaces

variable {room : TlsHandshakeAssembler Cert}

theorem limits (displaces : assembler.Displaces key room) : room.limits = assembler.limits := by
  cases displaces
  rfl

theorem absent (displaces : assembler.Displaces key room) {other : TcpFlowKey}
    (absent : assembler.pending.find? other = none)
    : room.pending.find? other = none := by
  cases displaces
  exact find?_removed_none absent

theorem smaller (displaces : assembler.Displaces key room)
    : room.pending.size < assembler.pending.size := by
  cases displaces with
  | @first _ rest key _ _ _ found =>
    have size := OrderedMap.size_erase found
    change (assembler.pending.erase key).size < assembler.pending.size
    omega

theorem tallied (displaces : assembler.Displaces key room) (tallied : assembler.Tallied)
    : room.Tallied := by
  cases displaces with
  | first split unheld found needs =>
    refine ⟨⟨?_, counted_removed tallied.counted found, ?_⟩, ?_⟩
    · intro other waiting found
      exact tallied.keyed other waiting (find?_of_removed found).2
    · exact (OrderedMap.size_erase_le ..).trans tallied.bounded
    · intro other waiting found waits
      obtain ⟨distinct, before⟩ := find?_of_removed found
      have member := tallied.queued other waiting before waits
      rw [tallied.keyed other waiting before] at member ⊢
      rw [split] at member
      rcases List.mem_append.mp member with passed | member
      · have alive : assembler.holdsFind other = true :=
          holdsFind_iff.mpr ⟨waiting, before, waits⟩
        rw [unheld other passed] at alive
        cases alive
      · exact (List.mem_cons.mp member).resolve_left distinct

end Displaces

/-! ### Holding -/

/-- Whether a find may be queued without the queue being cut down to the keys of the finds held,
among which its own key is not yet. Twice the room is a product of machine words.
-/
def Spacious (assembler : TlsHandshakeAssembler Cert) : Prop :=
  assembler.unconfirmedOrder.length < 2 * assembler.limits.maxPending % 2 ^ 64

theorem queued_of_anchored (anchored : direction.needsConfirmation = false)
    : assembler.queued direction = assembler := by
  rw [queued, if_neg (by rw [anchored]; decide)]

theorem queued_of_spacious (needs : direction.needsConfirmation = true)
    (spacious : assembler.Spacious)
    : assembler.queued direction
      = { assembler with
          unconfirmed := assembler.unconfirmed + 1
          unconfirmedOrder := assembler.unconfirmedOrder ++ [direction.orientedKey] } := by
  have fits : ¬ 2 * assembler.limits.maxPending % 2 ^ 64
      < (assembler.unconfirmedOrder ++ [direction.orientedKey]).length := by
    rw [List.length_append, List.length_singleton]
    exact Nat.not_lt.mpr spacious
  rw [queued, if_pos needs]
  dsimp only
  rw [if_neg fits]

theorem queued_unconfirmed
    : (assembler.queued direction).unconfirmed
      = assembler.unconfirmed + if direction.needsConfirmation then 1 else 0 := by
  unfold queued
  split <;> rfl

/-- Storing a find adds one to the finds. -/
theorem finds_stored (absent : assembler.pending.find? direction.orientedKey = none)
    : (assembler.stored direction).finds
      = assembler.finds + if direction.needsConfirmation then 1 else 0 := by
  rw [finds, finds, stored, (OrderedMap.insert_perm ..).countP_eq, List.countP_cons,
    OrderedMap.erase_eq_self absent]

/-- A direction on a free tuple is inserted, and counted if it is a find. -/
theorem Counted.insert (counted : assembler.Counted)
    (absent : assembler.pending.find? direction.orientedKey = none)
    (room : assembler.pending.size < assembler.limits.maxPending)
    : (assembler.queued direction).insert direction
        = .ok ((assembler.queued direction).stored direction)
      ∧ ((assembler.queued direction).stored direction).Counted := by
  have vacant : (assembler.queued direction).pending.find? direction.orientedKey = none := by
    rw [queued_pending]
    exact absent
  have size : ((assembler.queued direction).stored direction).pending.size
      = assembler.pending.size + 1 := by
    rw [stored, OrderedMap.size_insert, OrderedMap.erase_eq_self vacant, queued_pending]
  have total : ((assembler.queued direction).stored direction).unconfirmed
      = ((assembler.queued direction).stored direction).finds := by
    rw [finds_stored vacant, finds, queued_pending]
    exact queued_unconfirmed.trans (congrArg (· + _) counted.counted)
  refine ⟨?_, ?_, total, ?_⟩
  · have fewer : ((assembler.queued direction).stored direction).unconfirmed
        ≤ ((assembler.queued direction).stored direction).pending.size := by
      rw [total]
      exact List.countP_le_length
    unfold TlsHandshakeAssembler.insert
    rw [require_eq_ok _ (by rw [queued_pending, queued_limits]; exact room), ok_bind,
      require_eq_ok _ vacant, ok_bind]
    exact (congrArg (· >>= _) (require_eq_ok _ fewer)).trans (ok_bind _ _)
  · intro other held found
    rcases find?_stored direction other found with ⟨rfl, rfl⟩ | ⟨_, before⟩
    · rfl
    · rw [queued_pending] at before
      exact counted.keyed other held before
  · rw [size]
    change _ ≤ (assembler.queued direction).limits.maxPending
    rw [queued_limits]
    exact room

/-- Inserting a direction keeps the tally, if a find among them can be queued. -/
theorem Tallied.insert (tallied : assembler.Tallied)
    (absent : assembler.pending.find? direction.orientedKey = none)
    (room : assembler.pending.size < assembler.limits.maxPending)
    (spacious : direction.needsConfirmation = true → assembler.Spacious)
    : ((assembler.queued direction).stored direction).Tallied := by
  refine ⟨(tallied.toCounted.insert absent room).2, fun other held found needs => ?_⟩
  change held.orientedKey ∈ (assembler.queued direction).unconfirmedOrder
  rcases find?_stored direction other found with ⟨rfl, rfl⟩ | ⟨_, before⟩
  · rw [queued_of_spacious needs (spacious needs)]
    exact List.mem_append_right _ List.mem_cons_self
  · rw [queued_pending] at before
    have member := tallied.queued other held before needs
    cases finding : direction.needsConfirmation with
    | false =>
      rw [queued_of_anchored finding]
      exact member
    | true =>
      rw [queued_of_spacious finding (spacious finding)]
      exact List.mem_append_left _ member

/-- What holding a direction does: nothing when there is no place for it; otherwise it goes into the
table, where a find gives way to it if the table is full.
-/
inductive Holds (assembler : TlsHandshakeAssembler Cert)
    (direction : Direction Cert)
    : Bool → TlsHandshakeAssembler Cert → Prop
  | refused (refuses : assembler.refuses direction = true)
    : Holds assembler direction false assembler
  | placed (some_room : assembler.limits.maxPending ≠ 0)
    (admitted : assembler.refuses direction = false)
    (room : assembler.pending.size < assembler.limits.maxPending)
    : Holds assembler direction true ((assembler.queued direction).stored direction)
  | displaced {key : TcpFlowKey} {room : TlsHandshakeAssembler Cert}
    (full : assembler.limits.maxPending ≤ assembler.pending.size)
    (anchored : direction.needsConfirmation = false) (displaces : assembler.Displaces key room)
    : Holds assembler direction true (room.stored direction)

/-- Room is made for a direction that is admitted.
Witness: a table that is full then has a find, whose key is in the queue.
-/
theorem Tallied.makeRoom_holds (tallied : assembler.Tallied)
    (admitted : assembler.refuses direction = false)
    : ∃ room, assembler.makeRoom = .ok room
        ∧ Holds assembler direction true ((room.queued direction).stored direction)
        ∧ room.Tallied
        ∧ room.pending.size < room.limits.maxPending
        ∧ (assembler.pending.find? direction.orientedKey = none →
            room.pending.find? direction.orientedKey = none)
        ∧ (direction.needsConfirmation = true → room = assembler) := by
  have place := admitted
  simp only [refuses, Bool.or_eq_false_iff, Bool.and_eq_false_iff, decide_eq_false_iff_not] at place
  obtain ⟨⟨some_room, _⟩, notStuck⟩ := place
  by_cases full : assembler.limits.maxPending ≤ assembler.pending.size
  · have stuck := notStuck.resolve_left fun short => short full
    obtain ⟨key, room, made, displaces⟩ := tallied.makeRoom full stuck.2
    refine ⟨room, made, ?_, displaces.tallied tallied, ?_, displaces.absent, ?_⟩
    · rw [queued_of_anchored stuck.1]
      exact .displaced full stuck.1 displaces
    · have smaller := displaces.smaller
      have bounded := tallied.bounded
      rw [displaces.limits]
      omega
    · intro needs
      rw [stuck.1] at needs
      cases needs
  · exact ⟨assembler, if_neg full, .placed some_room admitted (Nat.not_le.mp full), tallied,
      Nat.not_le.mp full, fun absent => absent, fun _ => rfl⟩

theorem hold_of_refuses (refuses : assembler.refuses direction = true)
    : assembler.hold direction = .ok (false, assembler) :=
  if_pos refuses

theorem hold_of_makeRoom {room : TlsHandshakeAssembler Cert}
    (admitted : assembler.refuses direction = false) (made : assembler.makeRoom = .ok room)
    (counted : room.Counted) (absent : room.pending.find? direction.orientedKey = none)
    (smaller : room.pending.size < room.limits.maxPending)
    : assembler.hold direction = .ok (true, (room.queued direction).stored direction) := by
  rw [hold, if_neg (by rw [admitted]; decide), made, ok_bind, (counted.insert absent smaller).1]
  rfl

/-- Holding a direction on a free tuple returns and keeps the tally, if a find that is admitted can
be queued.
-/
theorem Tallied.hold (tallied : assembler.Tallied)
    (absent : assembler.pending.find? direction.orientedKey = none)
    (spacious : direction.needsConfirmation = true → assembler.refuses direction = false →
      assembler.Spacious)
    : ∃ result, assembler.hold direction = .ok result ∧ result.2.Tallied := by
  cases admitted : assembler.refuses direction with
  | true => exact ⟨_, hold_of_refuses admitted, tallied⟩
  | false =>
    obtain ⟨room, made, _, after, smaller, vacant, same⟩ := tallied.makeRoom_holds admitted
    refine ⟨_, hold_of_makeRoom admitted made after.toCounted (vacant absent) smaller,
      after.insert (vacant absent) smaller fun needs => ?_⟩
    rw [same needs]
    exact spacious needs admitted

/-- Whatever holding returns is one of its outcomes. -/
theorem Tallied.hold_holds (tallied : assembler.Tallied) {held : Bool}
    {next : TlsHandshakeAssembler Cert}
    (returned : assembler.hold direction = .ok (held, next))
    : Holds assembler direction held next := by
  cases admitted : assembler.refuses direction with
  | true =>
    rw [hold_of_refuses admitted] at returned
    cases returned
    exact .refused admitted
  | false =>
    obtain ⟨room, made, holds, _⟩ := tallied.makeRoom_holds admitted
    rw [TlsHandshakeAssembler.hold, if_neg (by rw [admitted]; decide), made, ok_bind] at returned
    obtain ⟨stored, inserted, same⟩ := bind_eq_ok.mp returned
    cases same
    rw [insert_returned inserted]
    exact holds

/-! ### Adding a stream -/

/-- The key of the find that adding a direction puts into the table, if it does. -/
def heldKey (assembler : TlsHandshakeAssembler Cert) (direction : Direction Cert)
    : Option TcpFlowKey :=
  if direction.handshakes = [] ∨ direction.needsConfirmation = false
      ∨ assembler.refuted direction = true then
    none
  else
    match assembler.meet direction with
    | .ok (.waits _ next) =>
      if next.refuses direction then none else some direction.orientedKey
    | _ => none

/-- Meeting the held direction returns, as its find is counted. -/
theorem meet_returns (counted : assembler.unconfirmed = assembler.finds)
    (direction : Direction Cert)
    : ∃ meeting, assembler.meet direction = .ok meeting ∧ Meets assembler direction meeting := by
  refine (meet_meets.mono (fun _ => id) fun failure => ?_).returns
  rintro ⟨held, found, failed⟩
  rw [release_eq counted found] at failed
  cases failed

/-- Clearing a tuple only takes directions out. -/
theorem Clears.drains {rows : List (TlsHandshake Cert)} {middle : TlsHandshakeAssembler Cert}
    (clears : Clears assembler direction rows middle)
    (counted : assembler.unconfirmed = assembler.finds)
    : Drains assembler middle := by
  cases clears with
  | free => exact .same counted
  | displaced found => exact .removed counted found

/-- The call of `hold` that adding a direction comes down to. -/
structure Waits (assembler : TlsHandshakeAssembler Cert) (direction : Direction Cert)
    (rows : List (TlsHandshake Cert)) (middle : TlsHandshakeAssembler Cert)
    : Prop where
  drains : Drains assembler middle
  absent : middle.pending.find? direction.orientedKey = none
  find : direction.needsConfirmation = true → assembler.heldKey direction
    = if middle.refuses direction then none else some direction.orientedKey
  anchored : direction.needsConfirmation = false → assembler.heldKey direction = none
  added : ∀ stream, assembler.addParsed stream direction = do
    let held ← middle.hold direction
    return (if held.1 then rows else rows ++ reportAlone direction, held.2)

/-- Adding a parsed stream takes directions out of the table and holds no find, or comes down to
holding its direction.
-/
theorem addParsed_waits (counted : assembler.unconfirmed = assembler.finds) (stream : TcpStream)
    (direction : Direction Cert)
    : (∃ result, assembler.addParsed stream direction = .ok result ∧ Drains assembler result.2
        ∧ assembler.heldKey direction = none)
      ∨ ∃ rows middle, assembler.Waits direction rows middle := by
  by_cases blank : direction.handshakes = []
  · left
    rw [addParsed, if_pos blank]
    split
    case isTrue =>
      obtain ⟨next, refuted, drains⟩ := refute_drains counted stream
      rw [refuted]
      exact ⟨_, rfl, drains, if_pos (.inl blank)⟩
    case isFalse => exact ⟨_, rfl, .same counted, if_pos (.inl blank)⟩
  · by_cases found : direction.needsConfirmation = true ∧ assembler.refuted direction = true
    · left
      rw [addParsed, if_neg blank, if_pos found]
      exact ⟨_, rfl, .same counted, if_pos (.inr (.inr found.2))⟩
    · have adds (stream : TcpStream)
          : assembler.addParsed stream direction = assembler.addDirection direction := by
        rw [addParsed, if_neg blank, if_neg found]
      obtain ⟨meeting, met, meets⟩ := meet_returns counted direction
      have unheld (other : ∀ rows next, meeting ≠ .waits rows next)
          : assembler.heldKey direction = none := by
        unfold heldKey
        rw [met]
        split
        · rfl
        · split
          · next rows middle same => exact absurd (Except.ok.inj same) (other rows middle)
          · rfl
      rw [adds]
      cases meets with
      | dropped =>
        refine .inl ⟨([], assembler), ?_, .same counted, unheld nofun⟩
        rw [addDirection, met]
        rfl
      | @pairs held found =>
        refine .inl ⟨(pairRows held direction, _), ?_, .removed counted found, unheld nofun⟩
        rw [addDirection, met, ok_bind]
        dsimp only
        rw [release_eq counted found]
        rfl
      | @waits rows middle clears =>
        refine .inr ⟨rows, middle, clears.drains counted, clears.absent, fun needs => ?_,
          fun anchored => if_pos (.inr (.inl anchored)), fun stream => ?_⟩
        · rw [heldKey, if_neg (by simp [blank, needs, not_and.mp found needs]), met]
        · rw [adds, addDirection, met]
          rfl

/-- Adding a parsed stream keeps the tally and fails no assertion. -/
theorem Tallied.addParsed (tallied : assembler.Tallied) (direction : Direction Cert)
    (stream : TcpStream)
    (spacious : assembler.heldKey direction ≠ none → assembler.Spacious)
    : ∃ result, assembler.addParsed stream direction = .ok result ∧ result.2.Tallied := by
  rcases addParsed_waits tallied.counted stream direction with
    ⟨result, added, drains, _⟩ | ⟨rows, middle, waits⟩
  · exact ⟨result, added, drains.tallied tallied⟩
  · obtain ⟨held, holds, final⟩ := (waits.drains.tallied tallied).hold waits.absent
      fun needs admitted => by
        rw [Spacious, waits.drains.order, waits.drains.limits]
        refine spacious ?_
        rw [waits.find needs, admitted]
        exact Option.some_ne_none _
    rw [waits.added, holds]
    exact ⟨_, rfl, final⟩

/-- Before a stream with a find that is to be held is added, its key can be queued. -/
def AddsSpaciously (x509 : X509Parser Cert) (assembler : TlsHandshakeAssembler Cert)
    (stream : TcpStream)
    : Prop :=
  ∀ direction, parse x509 assembler.limits stream = .ok direction →
    assembler.heldKey direction ≠ none → assembler.Spacious

/-- Adding a stream keeps the tally, and raises only what parsing it raises. -/
theorem Tallied.add (tallied : assembler.Tallied) {stream : TcpStream}
    (spacious : assembler.AddsSpaciously x509 stream)
    : Ensures (assembler.add x509 stream) (fun result => result.2.Tallied)
        (fun failure => parse x509 assembler.limits stream = .error failure) := by
  unfold TlsHandshakeAssembler.add
  cases parsed : parse x509 assembler.limits stream with
  | error failure => exact .error rfl
  | ok direction =>
    obtain ⟨result, added, after⟩ := tallied.addParsed direction stream
      (spacious direction parsed)
    rw [ok_bind, added]
    exact .ok after

/-! ### Runs -/

/-- Every stream of a run whose find is held is added while its key can be queued. -/
def RunsSpaciously (x509 : X509Parser Cert)
    : TlsHandshakeAssembler Cert → List TcpStream → Prop
  | _, [] => True
  | assembler, stream :: rest =>
    assembler.AddsSpaciously x509 stream
    ∧ ∀ added, assembler.add x509 stream = .ok added → RunsSpaciously x509 added.2 rest

/-- A run keeps the tally. Witness: induction on the streams. -/
theorem Tallied.run {streams : List TcpStream} (tallied : assembler.Tallied)
    (spacious : assembler.RunsSpaciously x509 streams)
    : Ensures (assembler.run x509 streams) (fun result => result.2.Tallied)
        (fun failure =>
          ∃ stream ∈ streams, parse x509 assembler.limits stream = .error failure) := by
  induction streams generalizing assembler with
  | nil => exact .ok tallied
  | cons stream rest ih =>
    obtain ⟨adds, later⟩ := spacious
    have first : Ensures (assembler.add x509 stream)
        (fun added => assembler.add x509 stream = .ok added ∧ added.2.Tallied)
        (fun failure => ∃ other ∈ stream :: rest,
          parse x509 assembler.limits other = .error failure) :=
      (tallied.add adds).returned.mono (fun _ holds => holds)
        fun _ raised => ⟨stream, List.mem_cons_self, raised⟩
    refine first.bind fun added holds => ?_
    obtain ⟨returned, after⟩ := holds
    have second := (ih after (later added returned)).mono (fun _ holds => holds) (fun failure
      (raised : ∃ other ∈ rest, parse x509 added.2.limits other = .error failure) => (by
        obtain ⟨other, member, raised⟩ := raised
        rw [add_limits returned] at raised
        exact ⟨other, List.mem_cons_of_mem _ member, raised⟩
        : ∃ other ∈ stream :: rest, parse x509 assembler.limits other = .error failure))
    exact second.bind fun _ holds => .pure holds

/-- In a run that never cuts its queue of finds down, the count of finds, their queue and the table
agree after every stream, and adding a stream raises only what parsing one raises: no assertion of
the table fails.
-/
theorem run_tallied (x509 : X509Parser Cert) (limits : TlsHandshakeLimits Cert)
    (streams : List TcpStream)
    (spacious : ({ limits } : TlsHandshakeAssembler Cert).RunsSpaciously x509 streams)
    : Ensures (({ limits } : TlsHandshakeAssembler Cert).run x509 streams)
        (fun result => result.2.Tallied)
        (fun failure => ∃ stream ∈ streams, parse x509 limits stream = .error failure) :=
  (tallied_start limits).run spacious

/-- An empty assembler with room for one direction. -/
def single : TlsHandshakeAssembler Unit :=
  { limits := { maxPending := 1 } }

/-- A find, and then a direction that takes its place. -/
theorem run_tallied_displaced
    : single.RunsSpaciously noCertificates [searchedHello 1 1, anchoredHello 2 2]
      ∧ Ensures (single.run noCertificates [searchedHello 1 1, anchoredHello 2 2])
          (fun result => result.2.Tallied)
          (fun failure => ∃ stream ∈ [searchedHello 1 1, anchoredHello 2 2],
            parse noCertificates single.limits stream = .error failure) := by
  have queue : ((single.add noCertificates (searchedHello 1 1)).map fun added =>
      (added.2.unconfirmedOrder.length, added.2.limits.maxPending)).toOption = some (1, 1) := by
    decide +kernel
  have spacious : single.RunsSpaciously noCertificates [searchedHello 1 1, anchoredHello 2 2] := by
    refine ⟨fun _ _ _ => ?_, fun added returned => ⟨fun _ _ _ => ?_, fun _ _ => trivial⟩⟩
    · unfold Spacious
      decide
    · rw [returned] at queue
      obtain ⟨short, limits⟩ := Prod.mk.inj (Option.some.inj queue)
      rw [Spacious, short, limits]
      decide
  exact ⟨spacious, run_tallied noCertificates single.limits _ spacious⟩

/-- The third find on one tuple cuts the queue down before it is in the table, so its key is not in
the queue; the next direction that needs room then fails an assertion of the table.
-/
theorem not_tallied_cut
    : (∃ result, single.run noCertificates
          [searchedHello 1 1, searchedHello 1 2, searchedHello 1 3] = .ok result
        ∧ result.2.holdsFind (searchedHello 1 3).key = true
        ∧ result.2.unconfirmedOrder = []
        ∧ ¬ result.2.Tallied)
      ∧ single.run noCertificates
          [searchedHello 1 1, searchedHello 1 2, searchedHello 1 3, anchoredHello 2 4]
        = .error (.assertion .hold) := by
  refine ⟨?_, ?_⟩
  · have state : ((single.run noCertificates
        [searchedHello 1 1, searchedHello 1 2, searchedHello 1 3]).map fun result =>
          (result.2.holdsFind (searchedHello 1 3).key, result.2.unconfirmedOrder)).toOption
        = some (true, []) := by
      decide +kernel
    cases returned : single.run noCertificates
        [searchedHello 1 1, searchedHello 1 2, searchedHello 1 3] with
    | error failure =>
      rw [returned] at state
      cases state
    | ok result =>
      rw [returned] at state
      obtain ⟨held, order⟩ := Prod.mk.inj (Option.some.inj state)
      refine ⟨result, rfl, held, order, fun tallied => ?_⟩
      have covered := tallied.covers held
      rw [order] at covered
      cases covered
  · rfl

end TlsHandshakeAssembler

end PacketQuapture.Tls
