import PacketQuapture.Flow.Refinement

/-! The induction behind every fact about a whole scan of the sessionizer.
An invariant speaks of the table, the records handled and the rows emitted. It needs one proof
for each way the table changes; the order in which a record makes these changes is gone through
here, once.
-/

namespace PacketQuapture.Flow

open Library

namespace Sessionizer

/-- The packet fits the session it finds open under its key: it is no SYN that starts another. -/
def Fits (table : Sessionizer) (input : FlowInput) : Prop :=
  ∀ session, table.sessions.find? (makeKey input).1 = some session →
    (input.packet.tcp && isSyn input.packet && session.reused input.packet (makeKey input).2)
      = false

/-- The session a packet is accounted in: the one open under its key, or a fresh one. -/
def sessionFor (table : Sessionizer) (input : FlowInput) : Session :=
  (table.sessions.find? (makeKey input).1).getD
    (.open (makeKey input).1 (makeKey input).2 input.sectionNumber input)

/-- Every way the table changes keeps the invariant. -/
structure Preserves (Inv : Sessionizer → List FlowInput → List FlowSummary → Prop) : Prop where
  unopened : ∀ {table seen rows}, Inv table seen rows → table.currentSection = none →
    table.sessions = .empty
  congr : ∀ {table other seen rows}, Inv table seen rows → other.sessions = table.sessions →
    other.due = table.due →
    other.currentSection = table.currentSection ∨ table.sessions = .empty → Inv other seen rows
  close : ∀ {table seen rows key session} (reason : FinalizedBy), Inv table seen rows →
    table.sessions.find? key = some session →
    Inv { table with sessions := table.sessions.erase key } seen
      (rows ++ [{ session.row with finalizedBy := reason }])
  ignore : ∀ {table seen rows input}, Inv table seen rows → input.eligible = false →
    Inv table (seen ++ [input]) rows
  store : ∀ {table seen rows input late session}, Inv table seen rows → input.eligible = true →
    table.currentSection = some input.sectionNumber → table.Fits input →
    (table.sessionFor input).account input (makeKey input).2 late = .ok session →
    Inv { table with sessions := table.sessions.insert (makeKey input).1 session }
      (seen ++ [input]) rows

/-- The rows of an outcome, after those emitted before, belong to a table that has handled a
prefix of the records: all of them, when no failure was raised.
-/
def Reaches (Inv : Sessionizer → List FlowInput → List FlowSummary → Prop)
    (records : List FlowInput) (rows : List FlowSummary)
    (outcome : List FlowSummary × Except Failure Sessionizer)
    : Prop :=
  ∃ last handled, handled <+: records ∧ Inv last handled (rows ++ outcome.1)
    ∧ ∀ next, outcome.2 = .ok next → next = last ∧ handled = records

theorem close_currentSection (self : Sessionizer) (reason : FinalizedBy) (key : SessionKey)
    : (self.close reason key).1.currentSection = self.currentSection := by
  simp only [close]
  split <;> rfl

theorem makeWay_currentSection (self : Sessionizer) (input : FlowInput)
    : (self.makeWay input).1.currentSection = self.currentSection := by
  simp only [makeWay]
  split
  · rfl
  · exact close_currentSection ..

/-- Once way is made for a packet, it fits.
Witness: a session that its SYN replaces is gone, and a victim was none of its key.
-/
theorem makeWay_fits (self : Sessionizer) (input : FlowInput)
    : (self.makeWay input).1.Fits input := by
  intro session found
  simp only [makeWay] at found
  cases displaced : self.displaced input with
  | none =>
    rw [displaced] at found
    simp only [Sessionizer.displaced, found] at displaced
    simpa using displaced
  | some pair =>
    obtain ⟨reason, key⟩ := pair
    rw [displaced] at found
    simp only [Sessionizer.displaced] at displaced
    simp only [close] at found
    cases held : self.sessions.find? (makeKey input).1 with
    | none =>
      cases gone : self.sessions.find? key with
      | none => simp [gone, held] at found
      | some victim => simp [gone, OrderedMap.find?_erase, held] at found
    | some former =>
      simp only [held, Option.ite_none_right_eq_some, Option.some.injEq, Prod.mk.injEq]
        at displaced
      obtain ⟨_, _, rfl⟩ := displaced
      simp [held] at found

theorem advance_eq_ok {self next : Sessionizer} {input : FlowInput} {late : Bool}
    (returned : self.advance input = .ok (next, late))
    : next.sessions = self.sessions ∧ next.due = self.due
      ∧ next.currentSection = self.currentSection := by
  simp only [advance] at returned
  split at returned
  · simp at returned
  · split at returned
    · obtain ⟨rfl, _⟩ := Prod.mk.inj (Except.ok.inj returned)
      exact ⟨rfl, rfl, rfl⟩
    · obtain ⟨rfl, _⟩ := Prod.mk.inj (Except.ok.inj returned)
      exact ⟨rfl, rfl, rfl⟩

/-- Closing every key empties the table.
Witness: induction along the entries, each of which is the first in its turn.
-/
theorem closeAll_keys (self : Sessionizer) (reason : FinalizedBy)
    : (self.closeAll reason self.keys).1.sessions = .empty := by
  generalize same : self.keys = keys
  induction keys generalizing self with
  | nil => exact OrderedMap.ext_entries (List.map_eq_nil_iff.mp same)
  | cons key rest ih =>
    obtain ⟨entry, tail, entries, rfl, rfl⟩ := List.map_eq_cons_iff.mp same
    have found : self.sessions.find? entry.1 = some entry.2 :=
      OrderedMap.find?_eq_some_iff.mpr (by rw [entries]; exact List.mem_cons_self)
    simp only [closeAll, close, found]
    refine ih _ ?_
    rw [keys, OrderedMap.entries_erase_head entries]

namespace Preserves

variable {Inv : Sessionizer → List FlowInput → List FlowSummary → Prop} {table : Sessionizer}
variable {seen : List FlowInput} {rows : List FlowSummary} {input : FlowInput}

theorem closes (rule : Preserves Inv) (holds : Inv table seen rows) (reason : FinalizedBy)
    (key : SessionKey)
    : Inv (table.close reason key).1 seen (rows ++ (table.close reason key).2) := by
  simp only [Sessionizer.close]
  cases found : table.sessions.find? key with
  | none =>
    rw [List.append_nil]
    exact holds
  | some session => exact rule.close reason holds found

theorem closeAll (rule : Preserves Inv) (holds : Inv table seen rows) (reason : FinalizedBy)
    (keys : List SessionKey)
    : Inv (table.closeAll reason keys).1 seen (rows ++ (table.closeAll reason keys).2) := by
  induction keys generalizing table rows with
  | nil =>
    rw [Sessionizer.closeAll, List.append_nil]
    exact holds
  | cons key rest ih =>
    have all := ih (rule.closes holds reason key)
    rw [List.append_assoc] at all
    exact all

theorem enter (rule : Preserves Inv) (holds : Inv table seen rows) (sectionNumber : UInt32)
    : (table.enter sectionNumber).1.currentSection = some sectionNumber
      ∧ Inv (table.enter sectionNumber).1 seen (rows ++ (table.enter sectionNumber).2) := by
  simp only [Sessionizer.enter]
  cases current : table.currentSection with
  | none =>
    rw [List.append_nil]
    exact ⟨rfl, rule.congr holds rfl rfl (.inr (rule.unopened holds current))⟩
  | some former =>
    dsimp only
    split
    case isTrue same =>
      rw [List.append_nil]
      exact ⟨by rw [current, same], holds⟩
    case isFalse distinct =>
      exact ⟨rfl, rule.congr (rule.closeAll holds .sectionBoundary table.keys) rfl rfl
        (.inr (closeAll_keys table .sectionBoundary))⟩

theorem makeWay (rule : Preserves Inv) (holds : Inv table seen rows) (input : FlowInput)
    : Inv (table.makeWay input).1 seen (rows ++ (table.makeWay input).2) := by
  simp only [Sessionizer.makeWay]
  split
  · rw [List.append_nil]
    exact holds
  · exact rule.closes holds ..

theorem charge (rule : Preserves Inv) (holds : Inv table seen rows)
    (eligible : input.eligible = true)
    (current : table.currentSection = some input.sectionNumber) (fits : table.Fits input)
    (late : Bool)
    : Reaches Inv (seen ++ [input]) rows (table.charge input late) := by
  simp only [Sessionizer.charge]
  split
  case h_1 failure raised =>
    rw [Reaches, List.append_nil]
    exact ⟨table, seen, List.prefix_append .., holds, fun next ended => by cases ended⟩
  case h_2 session accounted =>
    have stored := rule.store holds eligible current fits accounted
    split
    · exact ⟨_, _, List.prefix_rfl, rule.closes stored .reset (makeKey input).1,
        fun next ended => ⟨(Except.ok.inj ended).symm, rfl⟩⟩
    · rw [Reaches, List.append_nil]
      exact ⟨_, _, List.prefix_rfl, stored, fun next ended => ⟨(Except.ok.inj ended).symm, rfl⟩⟩

theorem serve (rule : Preserves Inv) (holds : Inv table seen rows)
    (current : table.currentSection = some input.sectionNumber) (late : Bool)
    : Reaches Inv (seen ++ [input]) rows (table.serve input late) := by
  have swept := rule.closeAll holds .idleTimeout (table.expired input.interfaceId)
  have inside : (table.closeAll .idleTimeout (table.expired input.interfaceId)).1.currentSection
      = some input.sectionNumber := by
    rw [closeAll_frame]
    exact current
  simp only [Sessionizer.serve]
  cases eligible : input.eligible with
  | false =>
    exact ⟨_, _, List.prefix_rfl, rule.ignore swept eligible,
      fun next ended => ⟨(Except.ok.inj ended).symm, rfl⟩⟩
  | true =>
    have ready := rule.makeWay swept input
    obtain ⟨last, handled, before, reached, ends⟩ := rule.charge ready eligible
      ((makeWay_currentSection ..).trans inside) (makeWay_fits _ _) late
    refine ⟨last, handled, before, ?_, ends⟩
    simp only [List.append_assoc] at reached
    exact reached

theorem record (rule : Preserves Inv) (holds : Inv table seen rows) (input : FlowInput)
    : Reaches Inv (seen ++ [input]) rows (table.record input) := by
  simp only [Sessionizer.record]
  split
  · rw [Reaches, List.append_nil]
    exact ⟨table, seen, List.prefix_append .., holds, fun next ended => by cases ended⟩
  · obtain ⟨current, entered⟩ := rule.enter holds input.sectionNumber
    simp only [Sessionizer.observe]
    cases advanced : (table.enter input.sectionNumber).1.advance input with
    | error failure =>
      rw [Reaches, List.append_nil]
      exact ⟨_, seen, List.prefix_append .., entered, fun next ended => by cases ended⟩
    | ok pair =>
      obtain ⟨moved, late⟩ := pair
      obtain ⟨sessions, due, inside⟩ := advance_eq_ok advanced
      obtain ⟨last, handled, before, reached, ends⟩ := rule.serve
        (rule.congr entered sessions due (.inl inside)) (inside.trans current) late
      rw [List.append_assoc] at reached
      exact ⟨last, handled, before, reached, ends⟩

/-- Feeding records keeps the invariant, record by record. -/
theorem feed (rule : Preserves Inv) (holds : Inv table seen rows) (inputs : List FlowInput)
    : Reaches Inv (seen ++ inputs) rows (table.feed inputs) := by
  induction inputs generalizing table seen rows with
  | nil =>
    rw [Reaches, Sessionizer.feed, List.append_nil, List.append_nil]
    exact ⟨table, seen, List.prefix_rfl, holds, fun next ended => ⟨(Except.ok.inj ended).symm, rfl⟩⟩
  | cons input rest ih =>
    obtain ⟨last, handled, before, reached, ends⟩ := rule.record holds input
    have whole : seen ++ [input] ++ rest = seen ++ input :: rest := by simp
    simp only [Sessionizer.feed]
    split
    case h_1 first failure handledRecord =>
      rw [handledRecord] at reached
      refine ⟨last, handled, before.trans ?_, reached, fun next ended => by cases ended⟩
      rw [← whole]
      exact List.prefix_append ..
    case h_2 first next handledRecord =>
      rw [handledRecord] at reached ends
      obtain ⟨rfl, rfl⟩ := ends next rfl
      have all := ih reached
      rw [whole] at all
      obtain ⟨final, more, begun, kept, finished⟩ := all
      rw [List.append_assoc] at kept
      exact ⟨final, more, begun, kept, finished⟩

theorem scan (rule : Preserves Inv) (start : Inv table [] []) (inputs : List FlowInput)
    (finalSection : UInt32)
    : ∃ last handled, handled <+: inputs
        ∧ Inv last handled (table.scan inputs finalSection).1
        ∧ ∀ next, (table.scan inputs finalSection).2 = .ok next →
            last.sessions = .empty ∧ handled = inputs := by
  obtain ⟨last, handled, before, reached, ends⟩ := rule.feed start inputs
  simp only [Sessionizer.scan]
  split
  case h_1 fedRows failure fed =>
    rw [fed] at reached
    exact ⟨last, handled, before, reached, fun next ended => by cases ended⟩
  case h_2 fedRows fed handledAll =>
    rw [handledAll] at reached ends
    obtain ⟨rfl, rfl⟩ := ends fed rfl
    generalize (if fed.currentSection = some finalSection then FinalizedBy.eof
      else FinalizedBy.sectionBoundary) = reason
    exact ⟨_, _, before, rule.closeAll reached reason fed.keys,
      fun next ended => ⟨closeAll_keys fed reason, rfl⟩⟩

end Preserves

end Sessionizer

namespace FlowAggregator

theorem idle_start (limits : AcceptedLimits) : ({ limits } : FlowAggregator).Idle :=
  ⟨.of_empty rfl rfl, rfl, rfl, Nat.zero_le _, .inr rfl⟩

theorem scan_invariant {Inv : Sessionizer → List FlowInput → List FlowSummary → Prop}
    (rule : Sessionizer.Preserves Inv) {limits : AcceptedLimits}
    (start : Inv ({ limits } : FlowAggregator).sessionizer [] []) (inputs : List FlowInput)
    (finalSection : UInt32)
    : ∃ last handled, handled <+: inputs
        ∧ Inv last handled (({ limits } : FlowAggregator).scan inputs finalSection).1
        ∧ ∀ next, (({ limits } : FlowAggregator).scan inputs finalSection).2 = .ok next →
            last.sessions = .empty ∧ handled = inputs := by
  obtain ⟨last, handled, before, reached, ends⟩ := rule.scan start inputs finalSection
  rw [← (idle_start limits).scan_eq inputs finalSection] at reached ends
  refine ⟨last, handled, before, reached, fun next returned => ends next.sessionizer ?_⟩
  rw [returned]
  rfl

end FlowAggregator

end PacketQuapture.Flow
