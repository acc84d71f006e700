import PacketQuapture.Flow.Counting
import PacketQuapture.Flow.Invariants

/-! The packets behind a flow row, in the order in which its session accounted for them.
The packets of one conversation are cut into consecutive sessions; how long each is, its row
says.
-/

namespace PacketQuapture.Flow

open Library

variable {input : FlowInput} {key : SessionKey}

/-- The session has accounted for the packets, in this order, since it was opened. -/
inductive Session.Follows : List FlowInput → Session → Prop where
  | opened {input : FlowInput} {late : Bool} {session : Session}
      (accounted : (Session.open (makeKey input).1 (makeKey input).2 input.sectionNumber
        input).account input (makeKey input).2 late = .ok session)
      : Follows [input] session
  | continued {packets : List FlowInput} {session next : Session} {input : FlowInput}
      {late : Bool} (before : Follows packets session) (key : (makeKey input).1 = session.row.key)
      (inside : input.sectionNumber = session.row.sectionNumber)
      (fits : (input.packet.tcp && isSyn input.packet
        && session.reused input.packet (makeKey input).2) = false)
      (accounted : session.account input (makeKey input).2 late = .ok next)
      : Follows (packets ++ [input]) next

namespace Session.Follows

variable {packets : List FlowInput} {session : Session}

theorem key_of_mem (follows : Follows packets session) (member : input ∈ packets)
    : (makeKey input).1 = session.row.key := by
  induction follows with
  | opened accounted =>
    rw [(account_counted accounted).key, List.mem_singleton.mp member]
    rfl
  | continued _ key _ _ accounted ih =>
    rw [(account_counted accounted).key]
    rcases List.mem_append.mp member with earlier | last
    · exact ih earlier
    · rw [List.mem_singleton.mp last, key]

theorem length_eq (follows : Follows packets session)
    : packets.length = session.row.total (·.packets) := by
  induction follows with
  | opened accounted => rw [(account_counted accounted).packets]; rfl
  | continued _ _ _ _ accounted ih =>
    rw [(account_counted accounted).packets, List.length_append, ih]
    rfl

end Session.Follows

/-- The row was emitted for a session of these packets. -/
def FlowSummary.Ends (row : FlowSummary) (packets : List FlowInput) : Prop :=
  ∃ session reason, Session.Follows packets session ∧ row = { session.row with finalizedBy := reason }

/-- The packets of a list that belong to one conversation. -/
def conversation (key : SessionKey) (inputs : List FlowInput) : List FlowInput :=
  inputs.filter fun input => (makeKey input).1 = key

theorem conversation_eq_self {inputs : List FlowInput}
    (same : ∀ input ∈ inputs, (makeKey input).1 = key)
    : conversation key inputs = inputs :=
  List.filter_eq_self.mpr fun input member => decide_eq_true (same input member)

theorem conversation_eq_nil {inputs : List FlowInput}
    (other : ∀ input ∈ inputs, (makeKey input).1 ≠ key)
    : conversation key inputs = [] :=
  List.filter_eq_nil_iff.mpr fun input member => by simpa using other input member

theorem conversation_append (key : SessionKey) (inputs more : List FlowInput)
    : conversation key (inputs ++ more) = conversation key inputs ++ conversation key more :=
  List.filter_append ..

namespace Sessionizer

/-- The packets of every conversation, in order, are those of its emitted rows and then those of
its open session.
-/
structure Traced (table : Sessionizer) (group : SessionKey → List FlowInput)
    (processed : List FlowInput) (rows : List FlowSummary) (closed : List (List FlowInput))
    : Prop where
  held : ∀ key session, table.sessions.find? key = some session →
    session.row.key = key ∧ table.currentSection = some session.row.sectionNumber
      ∧ Session.Follows (group key) session
  vacant : ∀ key, table.sessions.find? key = none → group key = []
  emitted : List.Forall₂ FlowSummary.Ends rows closed
  runs : ∀ key, conversation key closed.flatten ++ group key
    = conversation key (processed.filter (·.eligible))

section

variable {table : Sessionizer} {group : SessionKey → List FlowInput}
  {processed : List FlowInput} {rows : List FlowSummary} {closed : List (List FlowInput)}

theorem Traced.key_of_mem (traced : table.Traced group processed rows closed)
    (member : input ∈ group key)
    : (makeKey input).1 = key := by
  cases found : table.sessions.find? key with
  | none =>
    rw [traced.vacant key found] at member
    cases member
  | some session =>
    obtain ⟨named, _, follows⟩ := traced.held key session found
    rw [← named]
    exact follows.key_of_mem member

theorem Traced.unopened (traced : table.Traced group processed rows closed)
    (current : table.currentSection = none)
    : table.sessions = .empty := by
  refine OrderedMap.ext_find? fun key => ?_
  cases found : table.sessions.find? key with
  | none => simp
  | some session => simpa [current] using (traced.held key session found).2.1

theorem Traced.close (traced : table.Traced group processed rows closed) {session : Session}
    (reason : FinalizedBy) (found : table.sessions.find? key = some session)
    : { table with sessions := table.sessions.erase key }.Traced (Function.update group key [])
        processed (rows ++ [{ session.row with finalizedBy := reason }]) (closed ++ [group key]) := by
  obtain ⟨_, _, follows⟩ := traced.held key session found
  refine ⟨?_, ?_, ?_, ?_⟩
  · intro other stored located
    obtain ⟨distinct, located⟩ := OrderedMap.find?_erase_eq_some located
    rw [Function.update_of_ne distinct]
    exact traced.held other stored located
  · intro other missing
    by_cases same : other = key
    · rw [same, Function.update_self]
    · rw [OrderedMap.find?_erase_of_ne _ same] at missing
      rw [Function.update_of_ne same]
      exact traced.vacant other missing
  · exact List.rel_append traced.emitted (.cons ⟨session, reason, follows, rfl⟩ .nil)
  · intro other
    rw [← traced.runs other, List.flatten_append, List.flatten_singleton, conversation_append]
    by_cases same : other = key
    · rw [same, Function.update_self, List.append_nil,
        conversation_eq_self fun input member => traced.key_of_mem member]
    · rw [Function.update_of_ne same, conversation_eq_nil fun input member distinct =>
        same (distinct.symm.trans (traced.key_of_mem member)), List.append_nil]

theorem Traced.ignore (traced : table.Traced group processed rows closed)
    (ineligible : input.eligible = false)
    : table.Traced group (processed ++ [input]) rows closed where
  held := traced.held
  vacant := traced.vacant
  emitted := traced.emitted
  runs key := by
    rw [traced.runs key, List.filter_append,
      List.filter_cons_of_neg (by rw [ineligible]; exact Bool.false_ne_true), List.filter_nil,
      List.append_nil]

/-- Accounting for a packet adds it to the packets of its session. -/
theorem Traced.store (traced : table.Traced group processed rows closed) {late : Bool}
    {session : Session} (eligible : input.eligible = true)
    (current : table.currentSection = some input.sectionNumber) (fits : table.Fits input)
    (accounted : (table.sessionFor input).account input (makeKey input).2 late = .ok session)
    : { table with sessions := table.sessions.insert (makeKey input).1 session }.Traced
        (Function.update group (makeKey input).1 (group (makeKey input).1 ++ [input]))
        (processed ++ [input]) rows closed := by
  have follows : session.row.key = (makeKey input).1
      ∧ table.currentSection = some session.row.sectionNumber
      ∧ Session.Follows (group (makeKey input).1 ++ [input]) session := by
    have counted := Session.account_counted accounted
    rw [counted.key, counted.sectionNumber]
    cases found : table.sessions.find? (makeKey input).1 with
    | none =>
      rw [sessionFor, found] at accounted ⊢
      rw [traced.vacant _ found]
      exact ⟨rfl, current, .opened accounted⟩
    | some former =>
      obtain ⟨named, inside, before⟩ := traced.held _ former found
      rw [sessionFor, found] at accounted ⊢
      exact ⟨named, inside, .continued before named.symm
        (Option.some.inj (current.symm.trans inside)) (fits former found) accounted⟩
  refine ⟨?_, ?_, traced.emitted, ?_⟩
  · intro key stored found
    rcases OrderedMap.find?_insert_eq_some found with ⟨rfl, rfl⟩ | ⟨distinct, found⟩
    · rw [Function.update_self]
      exact follows
    · rw [Function.update_of_ne distinct]
      exact traced.held key stored found
  · intro key missing
    by_cases same : key = (makeKey input).1
    · rw [same, OrderedMap.find?_insert_self] at missing
      cases missing
    · rw [OrderedMap.find?_insert_of_ne _ _ same] at missing
      rw [Function.update_of_ne same]
      exact traced.vacant key missing
  · intro key
    rw [List.filter_append, List.filter_cons_of_pos eligible, List.filter_nil, conversation_append,
      ← traced.runs key]
    by_cases same : key = (makeKey input).1
    · have own : conversation key [input] = [input] :=
        conversation_eq_self fun packet member => by rw [List.mem_singleton.mp member, same]
      rw [own, same, Function.update_self, List.append_assoc]
    · have other : conversation key [input] = [] :=
        conversation_eq_nil fun packet member named => by
          rw [List.mem_singleton.mp member] at named
          exact same named.symm
      rw [other, Function.update_of_ne same, List.append_nil]

/-- Every way the table changes keeps the trace. -/
theorem traced_preserves
    : Preserves fun table processed rows =>
        ∃ group closed, table.Traced group processed rows closed where
  unopened := fun holds current => by
    obtain ⟨_, _, traced⟩ := holds
    exact traced.unopened current
  congr := fun holds sessions _ current => by
    obtain ⟨group, closed, traced⟩ := holds
    refine ⟨group, closed, fun key session found => ?_, ?_, traced.emitted, traced.runs⟩
    · rw [sessions] at found
      rcases current with same | empty
      · rw [same]
        exact traced.held key session found
      · simp [empty] at found
    · rw [sessions]
      exact traced.vacant
  close := fun reason holds found => by
    obtain ⟨_, _, traced⟩ := holds
    exact ⟨_, _, traced.close reason found⟩
  ignore := fun holds ineligible => by
    obtain ⟨group, closed, traced⟩ := holds
    exact ⟨group, closed, traced.ignore ineligible⟩
  store := fun holds eligible current fits accounted => by
    obtain ⟨_, closed, traced⟩ := holds
    exact ⟨_, closed, traced.store eligible current fits accounted⟩

end

end Sessionizer

/-- The packets behind each row: those of a conversation, in the order of their arrival, are cut
into the sessions of its rows, each as long as its row counts.
-/
structure SessionPackets (inputs : List FlowInput) (rows : List FlowSummary)
    (groups : List (List FlowInput))
    : Prop where
  counted : List.Forall₂ (fun row packets =>
    (∀ input ∈ packets, (makeKey input).1 = row.key)
      ∧ packets.length = row.total (·.packets)) rows groups
  runs : ∀ key, conversation key groups.flatten <+: conversation key (inputs.filter (·.eligible))

/-- A scan is traced as far as it got; one that returns leaves nothing open. -/
theorem FlowAggregator.scan_traced (limits : AcceptedLimits) (inputs : List FlowInput)
    (finalSection : UInt32)
    : ∃ (last : Sessionizer) (handled : List FlowInput) (group : SessionKey → List FlowInput)
        (closed : List (List FlowInput)), handled <+: inputs
        ∧ last.Traced group handled
            (({ limits } : FlowAggregator).scan inputs finalSection).1 closed
        ∧ ∀ next, (({ limits } : FlowAggregator).scan inputs finalSection).2 = .ok next →
            last.sessions = .empty ∧ handled = inputs := by
  have start : ({ limits } : FlowAggregator).sessionizer.Traced (fun _ => []) [] [] [] :=
    ⟨fun key session found => absurd found (by simp [sessionizer]), fun key _ => rfl, .nil,
      fun key => rfl⟩
  obtain ⟨last, handled, before, ⟨group, closed, traced⟩, ends⟩ :=
    scan_invariant Sessionizer.traced_preserves ⟨_, _, start⟩ inputs finalSection
  exact ⟨last, handled, group, closed, before, traced, ends⟩

theorem FlowAggregator.scan_histories (limits : AcceptedLimits) (inputs : List FlowInput)
    (finalSection : UInt32)
    : ∃ groups,
        SessionPackets inputs (({ limits } : FlowAggregator).scan inputs finalSection).1 groups
        ∧ List.Forall₂ FlowSummary.Ends
            (({ limits } : FlowAggregator).scan inputs finalSection).1 groups := by
  obtain ⟨_, _, group, closed, before, traced, _⟩ := scan_traced limits inputs finalSection
  refine ⟨closed, ⟨traced.emitted.imp fun row packets ends => ?_, fun key => ?_⟩, traced.emitted⟩
  · obtain ⟨session, reason, follows, rfl⟩ := ends
    exact ⟨fun input member => follows.key_of_mem member, follows.length_eq⟩
  · have whole := traced.runs key
    refine List.IsPrefix.trans (List.prefix_append _ (group key)) ?_
    rw [whole]
    exact (before.filter _).filter _

end PacketQuapture.Flow
