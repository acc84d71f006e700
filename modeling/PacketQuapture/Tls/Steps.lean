import PacketQuapture.Tls.Assembler

/-! What one added stream does to the table of waiting directions.
A direction is dropped, held, reported alone or joined with its peer; the only others that leave the
table are the one on the same tuple and finds that give way.
-/

namespace PacketQuapture.Tls

open Library Reassembly

namespace TlsHandshakeAssembler

variable {Cert : Type} {x509 : X509Parser Cert}
variable {assembler middle next room : TlsHandshakeAssembler Cert}
variable {direction : Direction Cert} {rows : List (TlsHandshake Cert)}
variable {key : TcpFlowKey}
variable {held : Direction Cert} {stream : TcpStream}

/-! ### Lookups -/

theorem holdsFind_iff
    : assembler.holdsFind key = true
      ↔ ∃ direction, assembler.pending.find? key = some direction
          ∧ direction.needsConfirmation = true := by
  simp only [holdsFind, Option.any_eq_true]

theorem find?_of_removed {other : TcpFlowKey}
    (found : (assembler.removed key direction).pending.find? other = some held)
    : other ≠ key ∧ assembler.pending.find? other = some held :=
  OrderedMap.find?_erase_eq_some found

theorem find?_removed_none {other : TcpFlowKey}
    (absent : assembler.pending.find? other = none)
    : (assembler.removed key direction).pending.find? other = none := by
  refine Option.eq_none_iff_forall_ne_some.mpr fun held found => ?_
  rw [(find?_of_removed found).2] at absent
  cases absent

theorem find?_removed_self : (assembler.removed key direction).pending.find? key = none :=
  OrderedMap.find?_erase_self ..

/-- What is held after storing is the stored direction or was held. -/
theorem find?_stored (direction : Direction Cert) (other : TcpFlowKey)
    (found : (assembler.stored direction).pending.find? other = some held)
    : (other = direction.orientedKey ∧ held = direction)
      ∨ (other ≠ direction.orientedKey ∧ assembler.pending.find? other = some held) :=
  OrderedMap.find?_insert_eq_some found

/-- Releasing takes the held direction out. -/
theorem release_returned (returned : assembler.release key = .ok next)
    : ∃ direction, assembler.pending.find? key = some direction
        ∧ next = assembler.removed key direction := by
  unfold release at returned
  split at returned
  case h_1 => cases returned
  case h_2 direction found =>
    obtain ⟨_, _, same⟩ := bind_eq_ok.mp returned
    exact ⟨direction, found, (Except.ok.inj same).symm⟩

/-! ### Finds that give way -/

/-- The limits stay, and every direction stays in the table or is a find that left it. -/
structure Sheds (before after : TlsHandshakeAssembler Cert) : Prop where
  limits : after.limits = before.limits
  pending : ∀ key, after.pending.find? key = before.pending.find? key
    ∨ (after.pending.find? key = none ∧ before.holdsFind key = true)

theorem Sheds.of_pending_eq (limits : next.limits = assembler.limits)
    (same : next.pending = assembler.pending)
    : Sheds assembler next :=
  ⟨limits, fun key => .inl (by rw [same])⟩

/-- What gives way in two steps gives way. -/
theorem Sheds.trans (first : Sheds assembler middle) (second : Sheds middle next)
    : Sheds assembler next := by
  refine ⟨second.limits.trans first.limits, fun key => ?_⟩
  rcases second.pending key with kept | ⟨gone, found⟩
  · rw [kept]
    exact first.pending key
  · rcases first.pending key with kept | ⟨_, found⟩
    · refine .inr ⟨gone, ?_⟩
      rw [← found, holdsFind, holdsFind, kept]
    · exact .inr ⟨gone, found⟩

theorem Sheds.find? (sheds : Sheds assembler next) (found : next.pending.find? key = some held)
    : assembler.pending.find? key = some held := by
  rcases sheds.pending key with kept | ⟨gone, _⟩
  · rw [← kept, found]
  · rw [found] at gone
    cases gone

theorem Sheds.absent (sheds : Sheds assembler next) (absent : assembler.pending.find? key = none)
    : next.pending.find? key = none := by
  rcases sheds.pending key with kept | ⟨gone, _⟩
  · rw [kept, absent]
  · exact gone

theorem removed_sheds (found : assembler.holdsFind key = true) (direction : Direction Cert)
    : Sheds assembler (assembler.removed key direction) := by
  refine ⟨rfl, fun other => ?_⟩
  by_cases same : other = key
  · subst same
    exact .inr ⟨find?_removed_self, found⟩
  · exact .inl (OrderedMap.find?_erase_of_ne _ same)

theorem release_sheds (found : assembler.holdsFind key = true)
    (returned : assembler.release key = .ok next)
    : Sheds assembler next := by
  obtain ⟨direction, _, rfl⟩ := release_returned returned
  exact removed_sheds found direction

/-- Plain data on a tuple lets only a find on it go. -/
theorem refuteSide_sheds {clientSide : Bool}
    (returned : assembler.refuteSide stream clientSide = .ok next)
    : Sheds assembler next := by
  unfold refuteSide at returned
  dsimp only at returned
  generalize (if clientSide = true then stream.key.reverse else stream.key) = key at returned
  split at returned
  case isTrue waits =>
    refine release_sheds ?_ returned
    obtain ⟨waiting, found, refutable⟩ := (Option.any_eq_true _ _).mp waits
    rw [Bool.and_eq_true, Bool.and_eq_true] at refutable
    exact holdsFind_iff.mpr ⟨waiting, found, refutable.1.1⟩
  case isFalse =>
    obtain rfl := Except.ok.inj returned
    exact .of_pending_eq rfl rfl

/-- Refuting lets finds go only. -/
theorem refute_sheds (returned : assembler.refute stream = .ok next)
    : Sheds assembler next := by
  obtain ⟨middle, first, second⟩ := bind_eq_ok.mp returned
  exact (refuteSide_sheds first).trans (refuteSide_sheds second)

/-- Making room lets one find go, past keys that hold none. -/
theorem releaseOldest_sheds {order : List TcpFlowKey}
    (returned : assembler.releaseOldest order = .ok next)
    : Sheds assembler next := by
  induction order with
  | nil =>
    obtain rfl := Except.ok.inj returned
    exact .of_pending_eq rfl rfl
  | cons key rest ih =>
    rw [releaseOldest] at returned
    split at returned
    case isTrue held =>
      have skipped : Sheds assembler { assembler with unconfirmedOrder := rest } :=
        .of_pending_eq rfl rfl
      exact skipped.trans (release_sheds held returned)
    case isFalse => exact ih returned

/-- Making room lets finds go only. -/
theorem makeRoom_sheds (returned : assembler.makeRoom = .ok room) : Sheds assembler room := by
  unfold makeRoom at returned
  split at returned
  case isTrue => exact releaseOldest_sheds returned
  case isFalse =>
    obtain rfl := Except.ok.inj returned
    exact .of_pending_eq rfl rfl

/-! ### Steps -/

/-- The tuple of a direction is free, or is cleared by reporting the direction held there alone. A
find has no rows alone, so dropping one is the same.
-/
inductive Clears (assembler : TlsHandshakeAssembler Cert)
    (direction : Direction Cert)
    : List (TlsHandshake Cert) → TlsHandshakeAssembler Cert → Prop
  | free (absent : assembler.pending.find? direction.orientedKey = none)
    : Clears assembler direction [] assembler
  | displaced {held : Direction Cert}
    (found : assembler.pending.find? direction.orientedKey = some held)
    : Clears assembler direction (reportAlone held)
        (assembler.removed direction.orientedKey held)

theorem Clears.limits (clears : Clears assembler direction rows middle)
    : middle.limits = assembler.limits := by
  cases clears <;> rfl

theorem Clears.absent (clears : Clears assembler direction rows middle)
    : middle.pending.find? direction.orientedKey = none := by
  cases clears with
  | free absent => exact absent
  | displaced => exact find?_removed_self

/-- What adding a stream that parsed as a direction reports and leaves. -/
inductive Adds (assembler : TlsHandshakeAssembler Cert)
    (direction : Direction Cert)
    : List (TlsHandshake Cert) → TlsHandshakeAssembler Cert → Prop
  | drops {next : TlsHandshakeAssembler Cert}
    (unreported : direction.handshakes = [] ∨ direction.needsConfirmation = true)
    (sheds : Sheds assembler next)
    : Adds assembler direction [] next
  | holds {rows : List (TlsHandshake Cert)}
    {middle room : TlsHandshakeAssembler Cert} (carries : direction.handshakes ≠ [])
    (clears : Clears assembler direction rows middle) (sheds : Sheds middle room)
    : Adds assembler direction rows ((room.queued direction).stored direction)
  | refuses {rows : List (TlsHandshake Cert)}
    {middle : TlsHandshakeAssembler Cert} (carries : direction.handshakes ≠ [])
    (clears : Clears assembler direction rows middle)
    : Adds assembler direction (rows ++ reportAlone direction) middle
  | pairs {held : Direction Cert} (carries : direction.handshakes ≠ [])
    (found : assembler.pending.find? direction.orientedKey = some held)
    (opposite : held.client ≠ direction.client)
    (joined : unconfirmedPair held direction = false)
    : Adds assembler direction (pairRows held direction)
        (assembler.removed direction.orientedKey held)

/-- Inserting stores the direction. -/
theorem insert_returned (returned : assembler.insert direction = .ok next)
    : next = assembler.stored direction := by
  obtain ⟨_, _, returned⟩ := bind_eq_ok.mp returned
  obtain ⟨_, _, returned⟩ := bind_eq_ok.mp returned
  obtain ⟨_, _, returned⟩ := bind_eq_ok.mp returned
  exact (Except.ok.inj returned).symm

/-- A direction is refused, or is stored after making room. -/
theorem hold_returned {held : Bool} (returned : assembler.hold direction = .ok (held, next))
    : (held = false ∧ next = assembler)
      ∨ (held = true ∧ ∃ room, assembler.makeRoom = .ok room
          ∧ next = (room.queued direction).stored direction) := by
  unfold hold at returned
  split at returned
  case isTrue =>
    cases returned
    exact .inl ⟨rfl, rfl⟩
  case isFalse =>
    obtain ⟨room, made, returned⟩ := bind_eq_ok.mp returned
    obtain ⟨stored, inserted, returned⟩ := bind_eq_ok.mp returned
    cases returned
    exact .inr ⟨rfl, room, made, insert_returned inserted⟩

theorem reportAlone_find (needs : direction.needsConfirmation = true)
    : reportAlone direction = [] :=
  if_pos needs

/-- A pair that an anchored direction does not confirm has a find in it. -/
theorem unconfirmedPair_find (refused : unconfirmedPair held direction = true)
    (anchored : direction.needsConfirmation ≠ true)
    : held.needsConfirmation = true := by
  rw [unconfirmedPair, Bool.or_eq_true, Bool.and_eq_true, Bool.and_eq_true] at refused
  exact (refused.resolve_left fun both => anchored both.1).1

/-- What a direction comes to against the one held on its tuple. -/
inductive Meets (assembler : TlsHandshakeAssembler Cert) (direction : Direction Cert)
    : Meeting Cert → Prop
  | dropped (needs : direction.needsConfirmation = true) : Meets assembler direction .dropped
  | waits {rows : List (TlsHandshake Cert)} {next : TlsHandshakeAssembler Cert}
    (clears : Clears assembler direction rows next)
    : Meets assembler direction (.waits rows next)
  | pairs {held : Direction Cert}
    (found : assembler.pending.find? direction.orientedKey = some held)
    (opposite : held.client ≠ direction.client)
    (joined : unconfirmedPair held direction = false)
    : Meets assembler direction (.pairs held)

/-- A direction that is to be held has its tuple cleared first; meeting the one held there fails
only where letting it go does.
-/
theorem meet_meets
    : Ensures (assembler.meet direction) (Meets assembler direction)
        fun failure => ∃ held, assembler.pending.find? direction.orientedKey = some held
          ∧ assembler.release direction.orientedKey = .error failure := by
  unfold meet
  split
  case h_1 absent => exact .ok (.waits (.free absent))
  case h_2 held found =>
    have cleared {shown : List (TlsHandshake Cert)} (shows : shown = reportAlone held)
        : Ensures (do
            let next ← assembler.release direction.orientedKey
            return Meeting.waits shown next) (Meets assembler direction)
          fun failure => ∃ held, assembler.pending.find? direction.orientedKey = some held
            ∧ assembler.release direction.orientedKey = .error failure := by
      subst shows
      cases released : assembler.release direction.orientedKey with
      | error failure => exact ⟨held, found, rfl⟩
      | ok next =>
        obtain ⟨other, stored, rfl⟩ := release_returned released
        obtain rfl := Option.some.inj (found.symm.trans stored)
        exact .waits (.displaced found)
    refine .ite (fun _ => .ite (fun both => .ok (.dropped both.1)) fun _ => cleared rfl)
      fun opposite => .ite (fun refused => ?_)
        fun joined => .ok (.pairs found opposite (by simpa using joined))
    refine .ite (fun _ => cleared rfl)
      fun _ => .ite (fun needs => .ok (.dropped needs)) fun anchored => ?_
    exact cleared (reportAlone_find (unconfirmedPair_find refused anchored)).symm

/-- Every returned call is one of the four steps. -/
theorem addParsed_adds (returned : assembler.addParsed stream direction = .ok (rows, next))
    : Adds assembler direction rows next := by
  unfold addParsed at returned
  split at returned
  case isTrue blank =>
    split at returned
    case isTrue =>
      obtain ⟨after, refuted, same⟩ := bind_eq_ok.mp returned
      cases same
      exact .drops (.inl blank) (refute_sheds refuted)
    case isFalse =>
      cases returned
      exact .drops (.inl blank) (.of_pending_eq rfl rfl)
  case isFalse carries =>
    split at returned
    case isTrue found =>
      cases returned
      exact .drops (.inr found.1) (.of_pending_eq rfl rfl)
    case isFalse =>
      obtain ⟨meeting, met, returned⟩ := bind_eq_ok.mp returned
      cases meet_meets.of_eq_ok met with
      | dropped needs =>
        cases returned
        exact .drops (.inr needs) (.of_pending_eq rfl rfl)
      | waits clears =>
        obtain ⟨⟨held, after⟩, holds, same⟩ := bind_eq_ok.mp returned
        cases same
        rcases hold_returned holds with ⟨rfl, rfl⟩ | ⟨rfl, room, made, rfl⟩
        · exact .refuses carries clears
        · exact .holds carries clears (makeRoom_sheds made)
      | pairs found opposite joined =>
        obtain ⟨after, released, same⟩ := bind_eq_ok.mp returned
        cases same
        obtain ⟨other, stored, rfl⟩ := release_returned released
        obtain rfl := Option.some.inj (found.symm.trans stored)
        exact .pairs carries found opposite joined

theorem queued_limits (assembler : TlsHandshakeAssembler Cert)
    (direction : Direction Cert)
    : (assembler.queued direction).limits = assembler.limits := by
  unfold queued
  split <;> rfl

theorem queued_pending (assembler : TlsHandshakeAssembler Cert)
    (direction : Direction Cert)
    : (assembler.queued direction).pending = assembler.pending := by
  unfold queued
  split <;> rfl

theorem Adds.limits (adds : Adds assembler direction rows next)
    : next.limits = assembler.limits := by
  cases adds with
  | drops _ sheds => exact sheds.limits
  | holds _ clears sheds => exact (queued_limits ..).trans (sheds.limits.trans clears.limits)
  | refuses _ clears => exact clears.limits
  | pairs => rfl

/-- Adding parses the stream and adds its direction. -/
theorem add_returned (returned : assembler.add x509 stream = .ok (rows, next))
    : ∃ direction, parse x509 assembler.limits stream = .ok direction
        ∧ assembler.addParsed stream direction = .ok (rows, next) :=
  bind_eq_ok.mp returned

theorem add_limits (returned : assembler.add x509 stream = .ok (rows, next))
    : next.limits = assembler.limits := by
  obtain ⟨direction, _, added⟩ := add_returned returned
  exact (addParsed_adds added).limits

/-- A run over directions that have been parsed. -/
inductive Runs
    : TlsHandshakeAssembler Cert → List (Direction Cert)
      → List (TlsHandshake Cert) → TlsHandshakeAssembler Cert → Prop
  | nil (assembler : TlsHandshakeAssembler Cert) : Runs assembler [] [] assembler
  | cons {assembler next last : TlsHandshakeAssembler Cert}
    {direction : Direction Cert} {rest : List (Direction Cert)}
    {rows more : List (TlsHandshake Cert)} (adds : Adds assembler direction rows next)
    (later : Runs next rest more last)
    : Runs assembler (direction :: rest) (rows ++ more) last

/-- A run parses every stream and adds their directions.
Witness: induction on the streams; the limits stay, so all are parsed under the first ones.
-/
theorem run_returned {assembler last : TlsHandshakeAssembler Cert}
    {streams : List TcpStream} {rows : List (TlsHandshake Cert)}
    (returned : assembler.run x509 streams = .ok (rows, last))
    : ∃ directions,
        streams.Forall₂ (fun stream direction =>
          parse x509 assembler.limits stream = .ok direction) directions
        ∧ Runs assembler directions rows last := by
  induction streams generalizing assembler rows with
  | nil =>
    cases returned
    exact ⟨[], .nil, .nil _⟩
  | cons stream rest ih =>
    obtain ⟨⟨shown, next⟩, added, returned⟩ := bind_eq_ok.mp returned
    obtain ⟨⟨more, final⟩, later, same⟩ := bind_eq_ok.mp returned
    cases same
    obtain ⟨direction, parsed, adds⟩ := add_returned added
    obtain ⟨directions, all, runs⟩ := ih later
    rw [add_limits added] at all
    exact ⟨direction :: directions, .cons parsed all, .cons (addParsed_adds adds) runs⟩

/-- A run that returns parses every stream. -/
theorem run_parses {assembler last : TlsHandshakeAssembler Cert} {streams : List TcpStream}
    {rows : List (TlsHandshake Cert)} (returned : assembler.run x509 streams = .ok (rows, last))
    (member : stream ∈ streams)
    : ∃ direction, parse x509 assembler.limits stream = .ok direction := by
  obtain ⟨directions, all, runs⟩ := run_returned returned
  clear returned runs
  induction all with
  | nil => cases member
  | cons parsed _ ih =>
    rcases List.mem_cons.mp member with rfl | later
    · exact ⟨_, parsed⟩
    · exact ih later

end TlsHandshakeAssembler

end PacketQuapture.Tls
