import PacketQuapture.Flow.Invariants

/-! Flow rows do not depend on which endpoint of a conversation sorts lower.
Swapping source and destination of every record keeps the key of each packet and turns its
direction round. A table turned round in the same way handles the swapped record as the table
handles the record itself.
-/

namespace PacketQuapture.Flow

open Library

/-! ### Swapped records -/

/-- The record with source and destination swapped, address and port. -/
def FlowInput.swapped (input : FlowInput) : FlowInput :=
  { input with
    packet := { input.packet with
      srcIp := input.packet.dstIp
      srcPort := input.packet.dstPort
      dstIp := input.packet.srcIp
      dstPort := input.packet.srcPort } }

/-- A direction between the endpoints of a key, turned round when there are two of them. -/
def SessionKey.turn (key : SessionKey) (fromLow : Bool) : Bool :=
  if key.low = key.high then fromLow else !fromLow

theorem SessionKey.turn_beq_turn (key : SessionKey) (left right : Bool)
    : (key.turn left == key.turn right) = (left == right) := by
  simp only [turn]
  split <;> cases left <;> cases right <;> rfl

theorem makeKey_swapped (input : FlowInput)
    : makeKey input.swapped = ((makeKey input).1, (makeKey input).1.turn (makeKey input).2) := by
  have source : input.swapped.source = input.destination := rfl
  have destination : input.swapped.destination = input.source := rfl
  simp only [makeKey, SessionKey.turn, source, destination]
  rcases lt_trichotomy input.source input.destination with less | same | greater
  · simp only [less, less.not_gt, less.ne, not_true_eq_false, not_false_eq_true, decide_true,
      decide_false, if_true, Bool.false_eq_true, if_false, Bool.not_true]
    rfl
  · simp only [same, lt_irrefl, not_false_eq_true, decide_true, if_true]
    rfl
  · simp only [greater, greater.not_gt, greater.ne, not_true_eq_false, not_false_eq_true,
      decide_true, decide_false, if_true, Bool.false_eq_true, if_false, Bool.not_false]
    rfl

/-! ### Mirrored sessions -/

/-- The row with its originator at the other end of the order. -/
def FlowSummary.mirrored (row : FlowSummary) : FlowSummary :=
  { row with origIsLow := row.key.turn row.origIsLow }

def Session.mirrored (session : Session) : Session :=
  { session with row := session.row.mirrored }

theorem FlowSummary.mirrored_observeStamp (row : FlowSummary) (stamp : PacketStamp) (late : Bool)
    : row.mirrored.observeStamp stamp late = (row.observeStamp stamp late).map mirrored := by
  simp only [observeStamp]
  split
  · have same : row.mirrored.latePackets = row.latePackets := rfl
    rw [same]
    cases addIf late row.latePackets <;> rfl
  · have same : row.mirrored.missingTimestamps = row.missingTimestamps := rfl
    rw [same]
    cases addChecked row.missingTimestamps 1 <;> rfl

theorem Session.mirrored_handshake (session : Session) (packet : DecodedPacket) (orig : Bool)
    : (session.handshake packet orig).mirrored = session.mirrored.handshake packet orig := by
  simp only [handshake]
  have syn : session.mirrored.syn = session.syn := rfl
  have synAck : session.mirrored.synAck = session.synAck := rfl
  have sequence : session.mirrored.sequence = session.sequence := rfl
  rw [syn, synAck, sequence]
  split
  · rfl
  · split
    · split <;> rfl
    · split <;> rfl

/-- A mirrored session accounts for a swapped packet as the session does for the packet. -/
theorem Session.mirrored_account (session : Session) (input : FlowInput) (fromLow late : Bool)
    : session.mirrored.account input.swapped (session.row.key.turn fromLow) late
      = (session.account input fromLow late).map mirrored := by
  have orig : (session.row.key.turn fromLow == session.mirrored.row.origIsLow)
      = (fromLow == session.row.origIsLow) :=
    session.row.key.turn_beq_turn ..
  have side : session.mirrored.row.side (fromLow == session.row.origIsLow)
      = session.row.side (fromLow == session.row.origIsLow) := by
    cases fromLow == session.row.origIsLow <;> rfl
  have count : ∀ counts : FlowCounters, counts.count input.swapped = counts.count input :=
    fun counts => rfl
  simp only [account]
  rw [orig, side, count]
  cases (session.row.side (fromLow == session.row.origIsLow)).count input with
  | error failure => rfl
  | ok counts =>
    have counted : { session.mirrored.row.setSide (fromLow == session.row.origIsLow) counts with
          lastPacket := input.stamp.number }
        = { session.row.setSide (fromLow == session.row.origIsLow) counts with
            lastPacket := input.stamp.number }.mirrored := by
      cases fromLow == session.row.origIsLow <;> rfl
    have stamp : input.swapped.stamp = input.stamp := rfl
    simp only [ok_bind, stamp, counted, FlowSummary.mirrored_observeStamp]
    generalize FlowSummary.observeStamp _ input.stamp late = stamped
    cases stamped with
    | error failure => rfl
    | ok row =>
      simp only [Except.map, ok_bind]
      have tcp : input.swapped.packet.tcp = input.packet.tcp := rfl
      rw [tcp]
      split
      · rw [mirrored_handshake]
        rfl
      · rfl

theorem Session.mirrored_reused (session : Session) (packet : DecodedPacket) (fromLow : Bool)
    : session.mirrored.reused packet (session.row.key.turn fromLow)
      = session.reused packet fromLow := by
  have orig : (session.row.key.turn fromLow == session.mirrored.row.origIsLow)
      = (fromLow == session.row.origIsLow) :=
    session.row.key.turn_beq_turn ..
  simp only [reused, orig]
  rfl

theorem Session.mirrored_open (key : SessionKey) (fromLow : Bool) (sectionNumber : UInt32)
    (input : FlowInput)
    : Session.open key (key.turn fromLow) sectionNumber input.swapped
      = (Session.open key fromLow sectionNumber input).mirrored := by
  have turned : key.turn (!fromLow) = !key.turn fromLow := by
    simp only [SessionKey.turn]
    split <;> rfl
  have packet : input.swapped.packet.tcp = input.packet.tcp
      ∧ input.swapped.packet.tcpFlags = input.packet.tcpFlags
      ∧ input.swapped.stamp = input.stamp := ⟨rfl, rfl, rfl⟩
  simp only [Session.open, Session.mirrored, FlowSummary.mirrored, packet.1, packet.2.1,
    packet.2.2, ← turned]
  split <;> rfl

/-! ### Mirrored tables -/

namespace Sessionizer

def mirrored (table : Sessionizer) : Sessionizer :=
  { table with sessions := table.sessions.mapValues Session.mirrored }

/-- Rows and table of an outcome, mirrored. -/
def mirrorOutcome (outcome : List FlowSummary × Except Failure Sessionizer)
    : List FlowSummary × Except Failure Sessionizer :=
  (outcome.1.map FlowSummary.mirrored, outcome.2.map mirrored)

/-- Every session is filed under its key, and its deadline does not depend on which end its
originator is at.
-/
structure Keyed (table : Sessionizer) : Prop where
  key : ∀ key session, table.sessions.find? key = some session → session.row.key = key
  unopened : table.currentSection = none → table.sessions = .empty
  even : ∀ session : Session, table.due session.mirrored = table.due session

variable {table : Sessionizer}

theorem keyed_preserves : Preserves fun table _ _ => table.Keyed where
  unopened := fun keyed current => keyed.unopened current
  congr := fun keyed sessions due current => by
    refine ⟨sessions ▸ keyed.key, fun none => ?_, due ▸ keyed.even⟩
    rcases current with same | empty
    · exact sessions.trans (keyed.unopened (same.symm.trans none))
    · exact sessions.trans empty
  close := fun reason keyed found => by
    refine ⟨fun other stored located => ?_, fun none => ?_, keyed.even⟩
    · exact keyed.key other stored (OrderedMap.find?_erase_eq_some located).2
    · rw [keyed.unopened none] at found
      cases found
  ignore := fun keyed _ => keyed
  store := fun {table _ _ input _ session} keyed _ current _ accounted => by
    refine ⟨fun key stored found => ?_, fun none => ?_, keyed.even⟩
    · rcases OrderedMap.find?_insert_eq_some found with ⟨rfl, rfl⟩ | ⟨_, found⟩
      · rw [(Session.account_counted accounted).key, sessionFor]
        cases held : table.sessions.find? (makeKey input).1 with
        | none => rfl
        | some former => exact keyed.key _ former held
      · exact keyed.key key stored found
    · rw [none] at current
      cases current

theorem find?_mirrored (table : Sessionizer) (key : SessionKey)
    : table.mirrored.sessions.find? key = (table.sessions.find? key).map Session.mirrored :=
  OrderedMap.find?_mapValues ..

theorem keys_mirrored (table : Sessionizer) : table.mirrored.keys = table.keys := by
  simp only [keys, mirrored, OrderedMap.mapValues, List.map_map]
  rfl

theorem close_mirrored (table : Sessionizer) (reason : FinalizedBy) (key : SessionKey)
    : table.mirrored.close reason key
      = ((table.close reason key).1.mirrored,
          (table.close reason key).2.map FlowSummary.mirrored) := by
  simp only [close, find?_mirrored]
  cases table.sessions.find? key with
  | none => rfl
  | some session =>
    simp only [Option.map_some, mirrored, OrderedMap.mapValues_erase]
    rfl

theorem closeAll_mirrored (table : Sessionizer) (reason : FinalizedBy) (keys : List SessionKey)
    : table.mirrored.closeAll reason keys
      = ((table.closeAll reason keys).1.mirrored,
          (table.closeAll reason keys).2.map FlowSummary.mirrored) := by
  induction keys generalizing table with
  | nil => rfl
  | cons key rest ih =>
    simp only [closeAll, close_mirrored, ih, List.map_append]

theorem enter_mirrored (table : Sessionizer) (sectionNumber : UInt32)
    : table.mirrored.enter sectionNumber
      = ((table.enter sectionNumber).1.mirrored,
          (table.enter sectionNumber).2.map FlowSummary.mirrored) := by
  have current : table.mirrored.currentSection = table.currentSection := rfl
  simp only [enter, current, keys_mirrored, closeAll_mirrored]
  split
  · rfl
  · split <;> rfl

theorem advance_mirrored (table : Sessionizer) (input : FlowInput)
    : table.mirrored.advance input.swapped
      = (table.advance input).map fun advanced => (advanced.1.mirrored, advanced.2) := by
  have interfaceId : input.swapped.interfaceId = input.interfaceId := rfl
  have stamp : input.swapped.stamp = input.stamp := rfl
  have clocks : table.mirrored.clocks = table.clocks := rfl
  have limits : table.mirrored.limits = table.limits := rfl
  simp only [advance, interfaceId, stamp, clocks, limits]
  split
  · rfl
  · split <;> rfl

theorem waiting_mirrored (keyed : table.Keyed) : table.mirrored.waiting = table.waiting := by
  simp only [waiting, mirrored, OrderedMap.mapValues, List.filterMap_map]
  congr 2
  funext entry
  exact congrArg (Option.map _) (keyed.even entry.2)

theorem expired_mirrored (keyed : table.Keyed) (interfaceId : UInt32)
    : table.mirrored.expired interfaceId = table.expired interfaceId := by
  have clocks : table.mirrored.clocks = table.clocks := rfl
  simp only [expired, overdue, waitingOn, waiting_mirrored keyed, clocks]

theorem victim_mirrored (keyed : table.Keyed) (interfaceId : UInt32)
    : table.mirrored.victim interfaceId = table.victim interfaceId := by
  have first : table.mirrored.sessions.first?.map Prod.fst = table.sessions.first?.map Prod.fst := by
    simp only [mirrored, OrderedMap.first?_mapValues, Option.map_map]
    rfl
  simp only [victim, waitingOn, waiting_mirrored keyed, first]

theorem displaced_mirrored (keyed : table.Keyed) (input : FlowInput)
    : table.mirrored.displaced input.swapped = table.displaced input := by
  have size : table.mirrored.sessions.size = table.sessions.size := OrderedMap.size_mapValues ..
  have interfaceId : input.swapped.interfaceId = input.interfaceId := rfl
  have limits : table.mirrored.limits = table.limits := rfl
  have tcp : input.swapped.packet.tcp = input.packet.tcp := rfl
  have syn : isSyn input.swapped.packet = isSyn input.packet := rfl
  simp only [displaced, makeKey_swapped, find?_mirrored, size, interfaceId, limits, tcp, syn,
    victim_mirrored keyed]
  cases found : table.sessions.find? (makeKey input).1 with
  | none => rfl
  | some session =>
    have same := session.mirrored_reused input.packet (makeKey input).2
    rw [keyed.key _ session found] at same
    simp only [Option.map_some]
    exact congrArg (fun reused =>
      if (input.packet.tcp && isSyn input.packet && reused) = true
        then some (FinalizedBy.tupleReuse, (makeKey input).1) else none) same

theorem makeWay_mirrored (keyed : table.Keyed) (input : FlowInput)
    : table.mirrored.makeWay input.swapped
      = ((table.makeWay input).1.mirrored,
          (table.makeWay input).2.map FlowSummary.mirrored) := by
  simp only [makeWay, displaced_mirrored keyed]
  cases table.displaced input with
  | none => rfl
  | some pair => exact close_mirrored ..

theorem charge_mirrored (keyed : table.Keyed) (input : FlowInput) (late : Bool)
    : table.mirrored.charge input.swapped late = mirrorOutcome (table.charge input late) := by
  have accounted : ((table.mirrored.sessions.find? (makeKey input).1).getD
        (.open (makeKey input).1 ((makeKey input).1.turn (makeKey input).2) input.sectionNumber
          input.swapped)).account input.swapped ((makeKey input).1.turn (makeKey input).2) late
      = (((table.sessions.find? (makeKey input).1).getD
          (.open (makeKey input).1 (makeKey input).2 input.sectionNumber input)).account input
            (makeKey input).2 late).map Session.mirrored := by
    rw [find?_mirrored]
    cases found : table.sessions.find? (makeKey input).1 with
    | none =>
      rw [Option.map_none, Option.getD_none, Option.getD_none, Session.mirrored_open]
      exact Session.mirrored_account ..
    | some session =>
      have same := session.mirrored_account input (makeKey input).2 late
      rw [keyed.key _ session found] at same
      exact same
  have sectionNumber : input.swapped.sectionNumber = input.sectionNumber := rfl
  simp only [charge, makeKey_swapped, sectionNumber, accounted]
  generalize Session.account _ input (makeKey input).2 late = outcome
  cases outcome with
  | error failure => rfl
  | ok session =>
    have reset : session.mirrored.row.resetSeen = session.row.resetSeen := rfl
    have stored : { table.mirrored with
          sessions := table.mirrored.sessions.insert (makeKey input).1 session.mirrored }
        = { table with sessions := table.sessions.insert (makeKey input).1 session }.mirrored := by
      simp only [mirrored, OrderedMap.mapValues_insert]
    simp only [Except.map, reset, stored, close_mirrored]
    split <;> rfl

theorem serve_mirrored (keyed : table.Keyed) (input : FlowInput) (late : Bool)
    : table.mirrored.serve input.swapped late = mirrorOutcome (table.serve input late) := by
  have interfaceId : input.swapped.interfaceId = input.interfaceId := rfl
  have eligible : input.swapped.eligible = input.eligible := rfl
  have swept : (table.closeAll .idleTimeout (table.expired input.interfaceId)).1.Keyed :=
    @Preserves.closeAll _ _ [] [] keyed_preserves keyed ..
  have ready : ((table.closeAll .idleTimeout (table.expired input.interfaceId)).1.makeWay
      input).1.Keyed :=
    @Preserves.makeWay _ _ [] [] keyed_preserves swept input
  simp only [serve, assign, eligible, interfaceId, expired_mirrored keyed,
    closeAll_mirrored, makeWay_mirrored swept, charge_mirrored ready]
  split
  · rfl
  · simp only [mirrorOutcome, List.map_append]

theorem record_mirrored (keyed : table.Keyed) (input : FlowInput)
    : table.mirrored.record input.swapped = mirrorOutcome (table.record input) := by
  have stamp : input.swapped.stamp = input.stamp := rfl
  have sectionNumber : input.swapped.sectionNumber = input.sectionNumber := rfl
  have entered : (table.enter input.sectionNumber).1.Keyed :=
    (@Preserves.enter _ _ [] [] keyed_preserves keyed input.sectionNumber).2
  simp only [record, observe, stamp, sectionNumber, enter_mirrored, advance_mirrored]
  split
  · rfl
  · cases advanced : (table.enter input.sectionNumber).1.advance input with
    | error failure =>
      simp only [Except.map, mirrorOutcome, List.map_append]
      rfl
    | ok pair =>
      obtain ⟨moved, late⟩ := pair
      obtain ⟨sessions, due, inside⟩ := advance_eq_ok advanced
      have movedKeyed : moved.Keyed :=
        @Preserves.congr _ keyed_preserves _ _ [] [] entered sessions due (.inl inside)
      simp only [Except.map, serve_mirrored movedKeyed, mirrorOutcome, List.map_append]

theorem feed_mirrored (keyed : table.Keyed) (inputs : List FlowInput)
    : table.mirrored.feed (inputs.map FlowInput.swapped) = mirrorOutcome (table.feed inputs) := by
  induction inputs generalizing table with
  | nil => rfl
  | cons input rest ih =>
    obtain ⟨last, handled, _, reached, ends⟩ :=
      @Preserves.record _ _ [] [] keyed_preserves keyed input
    simp only [List.map_cons, feed, record_mirrored keyed]
    cases recorded : table.record input with
    | mk rows outcome =>
      cases outcome with
      | error failure => rfl
      | ok next =>
        rw [recorded] at ends
        obtain ⟨rfl, _⟩ := ends next rfl
        simp only [mirrorOutcome, Except.map, ih reached, List.map_append]

theorem scan_mirrored (keyed : table.Keyed) (inputs : List FlowInput) (finalSection : UInt32)
    : table.mirrored.scan (inputs.map FlowInput.swapped) finalSection
      = mirrorOutcome (table.scan inputs finalSection) := by
  simp only [scan, feed_mirrored keyed]
  cases table.feed inputs with
  | mk rows outcome =>
    cases outcome with
    | error failure => rfl
    | ok fed =>
      have current : fed.mirrored.currentSection = fed.currentSection := rfl
      simp only [mirrorOutcome, Except.map, current, keys_mirrored, closeAll_mirrored,
        List.map_append]
      rfl

end Sessionizer

/-- Flow rows do not depend on which endpoint sorts lower. Swapping source and destination of
every record leaves every row as it is, in order and in every field, but for the end its
originator is at, which changes when the row has two endpoints. The scan ends as before.
-/
theorem FlowAggregator.scan_swapped (limits : AcceptedLimits) (inputs : List FlowInput)
    (finalSection : UInt32)
    : (({ limits } : FlowAggregator).scan (inputs.map FlowInput.swapped) finalSection).1
        = (({ limits } : FlowAggregator).scan inputs finalSection).1.map (fun row =>
            { row with
              origIsLow := if row.key.low = row.key.high then row.origIsLow else !row.origIsLow })
      ∧ ∀ failure,
          (({ limits } : FlowAggregator).scan (inputs.map FlowInput.swapped) finalSection).2
              = .error failure
            ↔ (({ limits } : FlowAggregator).scan inputs finalSection).2 = .error failure := by
  have keyed : ({ limits } : FlowAggregator).sessionizer.Keyed :=
    ⟨fun key session found => absurd found (by simp [sessionizer]), fun _ => rfl,
      fun session => rfl⟩
  have same := Sessionizer.scan_mirrored keyed inputs finalSection
  have start : ({ limits } : FlowAggregator).sessionizer.mirrored
      = ({ limits } : FlowAggregator).sessionizer := rfl
  rw [start, ← (idle_start limits).scan_eq, ← (idle_start limits).scan_eq] at same
  obtain ⟨rows, ended⟩ := Prod.mk.inj same
  refine ⟨rows, fun failure => ?_⟩
  generalize (({ limits } : FlowAggregator).scan (inputs.map FlowInput.swapped) finalSection).2
    = swapped at ended ⊢
  generalize (({ limits } : FlowAggregator).scan inputs finalSection).2 = plain at ended ⊢
  cases swapped with
  | error raised =>
    cases plain with
    | error other =>
      cases ended
      rfl
    | ok after => cases ended
  | ok next =>
    cases plain with
    | error other => cases ended
    | ok after => exact iff_of_false (by simp) (by simp)

end PacketQuapture.Flow
