import PacketQuapture.Library.Lists
import PacketQuapture.Tls.Pending

/-! When a full table makes room, the finds give way oldest first.
The queue of finds holds their keys in the order they were held. A key stays in it when its find
leaves the table, so the order is only right while no find comes back on a key still queued.
-/

namespace PacketQuapture.Tls

open Library Reassembly

namespace TlsHandshakeAssembler

variable {Cert : Type} {x509 : X509Parser Cert}
variable {limits : TlsHandshakeLimits Cert}
variable {assembler next : TlsHandshakeAssembler Cert}
variable {direction : Direction Cert} {log : List TcpFlowKey}

/-! ### Histories -/

/-- The assemblers that adding streams brings about, with the keys of the finds held so far, in the
order they were held. Each stream is added in a state that allows it.
-/
inductive History (x509 : X509Parser Cert) (limits : TlsHandshakeLimits Cert)
    (allowed : TlsHandshakeAssembler Cert → TcpStream → Prop)
    : TlsHandshakeAssembler Cert → List TcpFlowKey → Prop
  | start : History x509 limits allowed { limits } []
  | add {assembler next : TlsHandshakeAssembler Cert} {log : List TcpFlowKey}
    {stream : TcpStream} {direction : Direction Cert}
    {rows : List (TlsHandshake Cert)} (before : History x509 limits allowed assembler log)
    (allows : allowed assembler stream)
    (parsed : parse x509 assembler.limits stream = .ok direction)
    (added : assembler.addParsed stream direction = .ok (rows, next))
    : History x509 limits allowed next (log ++ (assembler.heldKey direction).toList)

/-- Whenever holding the next direction takes a find out of the table, no other find in the table
was held before it.
-/
def ReleasesOldest (x509 : X509Parser Cert) (assembler : TlsHandshakeAssembler Cert)
    (log : List TcpFlowKey)
    : Prop :=
  ∀ stream direction rows middle next released other,
    parse x509 assembler.limits stream = .ok direction →
    assembler.meet direction = .ok (.waits rows middle) →
    middle.hold direction = .ok (true, next) →
    middle.holdsFind released = true → next.pending.find? released = none →
    middle.holdsFind other = true →
      lastOccurrence log released ≤ lastOccurrence log other

/-- Before a stream with a find that is to be held is added, its key can be queued and is not in the
queue.
-/
def AddsFresh (x509 : X509Parser Cert) (assembler : TlsHandshakeAssembler Cert)
    (stream : TcpStream)
    : Prop :=
  ∀ direction key, parse x509 assembler.limits stream = .ok direction →
    assembler.heldKey direction = some key →
      assembler.Spacious ∧ key ∉ assembler.unconfirmedOrder

/-! ### The queue is the end of the history -/

/-- The queue holds the latest of the finds' keys, each once. -/
structure Aged (assembler : TlsHandshakeAssembler Cert) (log : List TcpFlowKey) : Prop where
  tallied : assembler.Tallied
  suffix : assembler.unconfirmedOrder <:+ log
  nodup : assembler.unconfirmedOrder.Nodup

theorem Aged.unheld (aged : assembler.Aged log) (tallied : next.Tallied)
    (shorter : next.unconfirmedOrder <:+ assembler.unconfirmedOrder)
    (none : assembler.heldKey direction = none)
    : next.Aged (log ++ (assembler.heldKey direction).toList) := by
  rw [none]
  refine ⟨tallied, ?_, aged.nodup.sublist shorter.sublist⟩
  simpa using shorter.trans aged.suffix

/-- The queue after a direction is held or refused. -/
theorem Holds.order {held : Bool} {middle : TlsHandshakeAssembler Cert}
    (holds : Holds middle direction held next)
    (spacious : direction.needsConfirmation = true → middle.refuses direction = false →
      middle.Spacious)
    : (direction.needsConfirmation = true ∧ middle.refuses direction = false
        ∧ next.unconfirmedOrder = middle.unconfirmedOrder ++ [direction.orientedKey])
      ∨ ((direction.needsConfirmation = false ∨ middle.refuses direction = true)
        ∧ next.unconfirmedOrder <:+ middle.unconfirmedOrder) := by
  cases holds with
  | refused refuses => exact .inr ⟨.inr refuses, List.suffix_rfl⟩
  | placed some_room admitted room =>
    cases needs : direction.needsConfirmation with
    | true =>
      refine .inl ⟨rfl, admitted, ?_⟩
      rw [queued_of_spacious needs (spacious needs admitted)]
      rfl
    | false =>
      refine .inr ⟨.inl rfl, ?_⟩
      rw [queued_of_anchored needs]
      exact List.suffix_rfl
  | displaced full anchored displaces =>
    refine .inr ⟨.inl anchored, ?_⟩
    cases displaces with
    | first split unheld found needs =>
      rw [split]
      exact (List.suffix_cons _ _).trans (List.suffix_append _ _)

/-- Adding a stream keeps the queue the end of the history.
Witness: only a find that is held is queued, and its key is then the latest of the history.
-/
theorem Aged.add {stream : TcpStream} {rows : List (TlsHandshake Cert)}
    (aged : assembler.Aged log)
    (fresh : ∀ key, assembler.heldKey direction = some key →
      assembler.Spacious ∧ key ∉ assembler.unconfirmedOrder)
    (added : assembler.addParsed stream direction = .ok (rows, next))
    : next.Aged (log ++ (assembler.heldKey direction).toList) := by
  obtain ⟨result, same, tallied⟩ := aged.tallied.addParsed direction stream fun held => by
    obtain ⟨key, held⟩ := Option.ne_none_iff_exists'.mp held
    exact (fresh key held).1
  cases added.symm.trans same
  rcases addParsed_waits aged.tallied.counted stream direction with
    ⟨result, same, drains, none⟩ | ⟨shown, middle, waits⟩
  · cases added.symm.trans same
    refine aged.unheld tallied ?_ none
    rw [drains.order]
  · rw [waits.added] at added
    obtain ⟨⟨held, after⟩, returned, same⟩ := bind_eq_ok.mp added
    cases same
    have key (needs : direction.needsConfirmation = true)
        (admitted : middle.refuses direction = false)
        : assembler.heldKey direction = some direction.orientedKey := by
      rw [waits.find needs, admitted]
      rfl
    have spacious (needs : direction.needsConfirmation = true)
        (admitted : middle.refuses direction = false)
        : middle.Spacious := by
      rw [Spacious, waits.drains.order, waits.drains.limits]
      exact (fresh _ (key needs admitted)).1
    have queue := ((waits.drains.tallied aged.tallied).hold_holds returned).order spacious
    rw [waits.drains.order] at queue
    rcases queue with ⟨needs, admitted, queued⟩ | ⟨none, shorter⟩
    · rw [key needs admitted]
      refine ⟨tallied, ?_, ?_⟩
      · rw [queued]
        exact (List.suffix_append_inj_of_length_eq rfl).mpr ⟨aged.suffix, rfl⟩
      · rw [queued]
        exact List.nodup_append_comm.mp
          (List.nodup_cons.mpr ⟨(fresh _ (key needs admitted)).2, aged.nodup⟩)
    · refine aged.unheld tallied shorter ?_
      cases needs : direction.needsConfirmation with
      | false => exact waits.anchored needs
      | true =>
        rw [waits.find needs, none.resolve_left (by rw [needs]; decide)]
        rfl

/-- In a fresh history the queue is the end of the log. Witness: induction on the history. -/
theorem History.aged (history : History x509 limits (AddsFresh x509) assembler log)
    : assembler.Aged log := by
  induction history with
  | start => exact ⟨tallied_start limits, List.suffix_rfl, List.nodup_nil⟩
  | add before allows parsed added ih => exact ih.add (fun key => allows _ key parsed) added

/-! ### Oldest first -/

theorem stored_keeps {key : TcpFlowKey} {held : Direction Cert}
    (absent : assembler.pending.find? direction.orientedKey = none)
    (found : assembler.pending.find? key = some held)
    : (assembler.stored direction).pending.find? key = some held := by
  have distinct : key ≠ direction.orientedKey := by
    intro same
    rw [same, absent] at found
    cases found
  exact (OrderedMap.find?_insert_of_ne _ _ distinct).trans found

theorem Displaces.released {room : TlsHandshakeAssembler Cert}
    {key released : TcpFlowKey} (displaces : assembler.Displaces key room)
    (absent : assembler.pending.find? direction.orientedKey = none)
    (held : assembler.holdsFind released = true)
    (gone : (room.stored direction).pending.find? released = none)
    : released = key := by
  by_contra distinct
  obtain ⟨waiting, found, _⟩ := holdsFind_iff.mp held
  have kept : room.pending.find? released = some waiting := by
    cases displaces
    exact (OrderedMap.find?_erase_of_ne _ distinct).trans found
  rw [stored_keeps (displaces.absent absent) kept] at gone
  cases gone

/-- The find that gives way was held before every other find in the table.
Witness: the queue is the end of the history without repetition, so the first live key of the queue
is the live key whose latest hold is the earliest.
-/
theorem Displaces.oldest {room : TlsHandshakeAssembler Cert} {key other : TcpFlowKey}
    (displaces : assembler.Displaces key room) (tallied : assembler.Tallied)
    (suffix : assembler.unconfirmedOrder <:+ log) (nodup : assembler.unconfirmedOrder.Nodup)
    (held : assembler.holdsFind other = true)
    : lastOccurrence log key ≤ lastOccurrence log other := by
  cases displaces with
  | @first skipped rest key direction split unheld found needs =>
    obtain ⟨front, whole⟩ := suffix
    have member := tallied.covers held
    rw [split] at whole nodup member
    rcases List.mem_append.mp member with passed | member
    · rw [unheld other passed] at held
      cases held
    · rcases List.mem_cons.mp member with rfl | later
      · exact le_rfl
      · have once : key ∉ rest :=
          (List.nodup_cons.mp (List.nodup_append.mp nodup).2.1).1
        rw [← whole, ← List.append_assoc]
        exact (lastOccurrence_lt once later).le

/-- In a history that holds no find on a key still queued, and never cuts its queue down, the find
that makes room in a full table is the one that was held earliest.
-/
theorem releases_oldest (history : History x509 limits (AddsFresh x509) assembler log)
    : assembler.ReleasesOldest x509 log := by
  intro stream direction rows middle next released other _ met returned held gone stays
  have aged := history.aged
  have clears : Clears assembler direction rows middle := by
    cases meet_meets.of_eq_ok met with
    | waits clears => exact clears
  have drains := clears.drains aged.tallied.counted
  have tallied := drains.tallied aged.tallied
  cases tallied.hold_holds returned with
  | placed some_room admitted room =>
    obtain ⟨waiting, found, _⟩ := holdsFind_iff.mp held
    have kept : ((middle.queued direction).stored direction).pending.find? released
        = some waiting := by
      refine stored_keeps ?_ ?_ <;> rw [queued_pending]
      · exact clears.absent
      · exact found
    rw [kept] at gone
    cases gone
  | displaced full anchored displaces =>
    rw [displaces.released clears.absent held gone]
    have suffix := aged.suffix
    have nodup := aged.nodup
    rw [← drains.order] at suffix nodup
    exact displaces.oldest tallied suffix nodup stays

/-- Adds streams one after the other as far as they are allowed, recording the keys of the finds
held.
-/
def replay (x509 : X509Parser Cert)
    (allows : TlsHandshakeAssembler Cert → Direction Cert → Bool)
    : TlsHandshakeAssembler Cert → List TcpFlowKey → List TcpStream
      → Option (TlsHandshakeAssembler Cert × List TcpFlowKey)
  | assembler, log, [] => some (assembler, log)
  | assembler, log, stream :: rest => do
    let direction ← (parse x509 assembler.limits stream).toOption
    guard (allows assembler direction)
    let added ← (assembler.addParsed stream direction).toOption
    replay x509 allows added.2 (log ++ (assembler.heldKey direction).toList) rest

theorem History.replay {allows : TlsHandshakeAssembler Cert → Direction Cert → Bool}
    {allowed : TlsHandshakeAssembler Cert → TcpStream → Prop} {streams : List TcpStream}
    {full : List TcpFlowKey}
    (sound : ∀ assembler stream direction, parse x509 assembler.limits stream = .ok direction →
      allows assembler direction = true → allowed assembler stream)
    (history : History x509 limits allowed assembler log)
    (replayed : replay x509 allows assembler log streams = some (next, full))
    : History x509 limits allowed next full := by
  induction streams generalizing assembler log with
  | nil =>
    cases replayed
    exact history
  | cons stream rest ih =>
    obtain ⟨direction, parsed, replayed⟩ := Option.bind_eq_some_iff.mp replayed
    obtain ⟨_, guarded, replayed⟩ := Option.bind_eq_some_iff.mp replayed
    obtain ⟨added, returned, replayed⟩ := Option.bind_eq_some_iff.mp replayed
    have parsed := eq_ok_of_toOption parsed
    refine ih (history.add ?_ parsed (eq_ok_of_toOption returned)) replayed
    exact sound assembler stream direction parsed (by simpa using guarded)

/-- Whether a find that is to be held can be queued and is not in the queue. -/
def fresh (assembler : TlsHandshakeAssembler Cert) (direction : Direction Cert) : Bool :=
  (assembler.heldKey direction).all fun key =>
    assembler.unconfirmedOrder.length < 2 * assembler.limits.maxPending % 2 ^ 64
      && key ∉ assembler.unconfirmedOrder

theorem addsFresh_of_fresh (assembler : TlsHandshakeAssembler Cert) (stream : TcpStream)
    (direction : Direction Cert) (parsed : parse x509 assembler.limits stream = .ok direction)
    (checked : assembler.fresh direction = true)
    : assembler.AddsFresh x509 stream := by
  intro other key again held
  cases parsed.symm.trans again
  rw [fresh, held, Option.all_some, Bool.and_eq_true, decide_eq_true_eq, decide_eq_true_eq]
    at checked
  exact checked

/-- Whether a stream takes the find under one key out of the table, past the one under another. -/
def releasesPast (x509 : X509Parser Cert) (assembler : TlsHandshakeAssembler Cert)
    (stream : TcpStream) (released other : TcpFlowKey)
    : Bool :=
  match parse x509 assembler.limits stream with
  | .error _ => false
  | .ok direction =>
    (assembler.pending.find? direction.orientedKey).isNone
      && match assembler.hold direction with
        | .ok (true, next) =>
          assembler.holdsFind released && (next.pending.find? released).isNone
            && assembler.holdsFind other
        | _ => false

theorem ReleasesOldest.of_releasesPast {stream : TcpStream} {released other : TcpFlowKey}
    (oldest : assembler.ReleasesOldest x509 log)
    (checked : assembler.releasesPast x509 stream released other = true)
    : lastOccurrence log released ≤ lastOccurrence log other := by
  unfold releasesPast at checked
  split at checked
  case h_1 => cases checked
  case h_2 direction parsed =>
    rw [Bool.and_eq_true, Option.isNone_iff_eq_none] at checked
    obtain ⟨absent, checked⟩ := checked
    split at checked
    case h_1 next returned =>
      rw [Bool.and_eq_true, Bool.and_eq_true, Option.isNone_iff_eq_none] at checked
      obtain ⟨⟨held, gone⟩, stays⟩ := checked
      have met : assembler.meet direction = .ok (.waits [] assembler) := by
        rw [meet, absent]
      exact oldest stream direction [] assembler next _ _ parsed met returned held gone stays
    case h_2 => cases checked

/-- An empty assembler with room for eight directions, two of them finds. -/
def eight : TlsHandshakeAssembler Unit :=
  { limits := { maxPending := 8 } }

/-- Six directions that leave a table of eight room for two finds. -/
def filling : List TcpStream :=
  [anchoredHello 3 4, anchoredHello 4 5, anchoredHello 5 6, anchoredHello 6 7, anchoredHello 7 8,
    anchoredHello 8 9]

/-- Two finds in a full table: the next direction takes the place of the one held first. -/
theorem releases_oldest_full
    : ∃ assembler log,
        History noCertificates eight.limits (AddsFresh noCertificates) assembler log
        ∧ assembler.pending.size = 8
        ∧ assembler.releasesPast noCertificates (anchoredHello 9 10) (searchedHello 1 1).key
            (searchedHello 2 2).key = true
        ∧ lastOccurrence log (searchedHello 1 1).key ≤ lastOccurrence log (searchedHello 2 2).key
        ∧ lastOccurrence log (searchedHello 1 1).key
          ≠ lastOccurrence log (searchedHello 2 2).key := by
  have facts : ((replay noCertificates fresh eight []
      (searchedHello 1 1 :: searchedHello 2 2 :: filling)).map fun state =>
        (state.1.pending.size,
          state.1.releasesPast noCertificates (anchoredHello 9 10) (searchedHello 1 1).key
            (searchedHello 2 2).key,
          decide (lastOccurrence state.2 (searchedHello 1 1).key
            = lastOccurrence state.2 (searchedHello 2 2).key)))
      = some (8, true, false) := by
    decide +kernel
  obtain ⟨⟨assembler, log⟩, replayed, same⟩ := Option.map_eq_some_iff.mp facts
  obtain ⟨size, same⟩ := Prod.mk.inj same
  obtain ⟨displaced, apart⟩ := Prod.mk.inj same
  have history := History.replay addsFresh_of_fresh .start replayed
  exact ⟨assembler, log, history, size, displaced,
    (releases_oldest history).of_releasesPast displaced, of_decide_eq_false apart⟩

/-- The find held last gives way, since the key of the one it replaced still leads the queue. -/
theorem not_releasesOldest_reheld
    : ∃ assembler log,
        History noCertificates eight.limits (fun _ _ => True) assembler log
        ∧ ¬ assembler.ReleasesOldest noCertificates log := by
  have facts : ((replay noCertificates (fun _ _ => true) eight []
      (searchedHello 1 1 :: searchedHello 2 2 :: searchedHello 1 3 :: filling)).map fun state =>
        (state.1.releasesPast noCertificates (anchoredHello 9 10) (searchedHello 1 3).key
            (searchedHello 2 2).key,
          decide (lastOccurrence state.2 (searchedHello 2 2).key
            < lastOccurrence state.2 (searchedHello 1 3).key)))
      = some (true, true) := by
    decide +kernel
  obtain ⟨⟨assembler, log⟩, replayed, same⟩ := Option.map_eq_some_iff.mp facts
  obtain ⟨displaced, later⟩ := Prod.mk.inj same
  refine ⟨assembler, log, History.replay (fun _ _ _ _ _ => trivial) .start replayed,
    fun oldest => ?_⟩
  exact Nat.not_le.mpr (of_decide_eq_true later) (oldest.of_releasesPast displaced)

end TlsHandshakeAssembler

end PacketQuapture.Tls
