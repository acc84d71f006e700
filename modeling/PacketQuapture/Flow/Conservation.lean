import PacketQuapture.Flow.Histories
import PacketQuapture.Library.Lists

/-! Every eligible packet is accounted for in exactly one row.
A row counts the packets behind its session, and the packets of every conversation are those behind
its rows.
-/

namespace PacketQuapture.Flow

open Library

/-- The row is the account of the packets, given in the order of their arrival. -/
structure Summarises (row : FlowSummary) (group : List FlowInput) : Prop where
  keys : ∀ input ∈ group, (makeKey input).1 = row.key
  sections : ∀ input ∈ group, input.sectionNumber = row.sectionNumber
  first : group.head?.map (·.stamp.number) = some row.firstPacket
  last : group.getLast?.map (·.stamp.number) = some row.lastPacket
  packets : row.total (·.packets) = group.length
  capturedBytes : row.total (·.capturedBytes) = (group.map (·.capturedLength.toNat)).sum
  reportedBytes : row.total (·.reportedBytes) = (group.map (·.originalLength.toNat)).sum
  payloadBytes : row.total (·.payloadBytes) = (group.map (·.packet.payloadLength.toNat)).sum
  missingTimestamps : row.missingTimestamps = group.countP (!·.stamp.hasTimestamp)

theorem Summarises.finalized {row : FlowSummary} {group : List FlowInput}
    (account : Summarises row group) (reason : FinalizedBy)
    : Summarises { row with finalizedBy := reason } group :=
  { account with }

/-- A row that accounts for a packet more. -/
theorem Summarises.counted {row next : FlowSummary} {group : List FlowInput}
    {input : FlowInput} (account : Summarises row group) (counted : Counted row input next)
    (key : (makeKey input).1 = row.key) (sectionNumber : input.sectionNumber = row.sectionNumber)
    : Summarises next (group ++ [input]) where
  keys := by
    intro packet member
    rw [counted.key]
    rcases List.mem_append.mp member with held | rest
    · exact account.keys packet held
    · exact List.mem_singleton.mp rest ▸ key
  sections := by
    intro packet member
    rw [counted.sectionNumber]
    rcases List.mem_append.mp member with held | rest
    · exact account.sections packet held
    · exact List.mem_singleton.mp rest ▸ sectionNumber
  first := by
    rw [counted.firstPacket, ← account.first]
    cases group with
    | nil => simpa using account.first
    | cons head rest => rfl
  last := by simp [counted.lastPacket]
  packets := by simp [counted.packets, account.packets]
  capturedBytes := by simp [counted.capturedBytes, account.capturedBytes]
  reportedBytes := by simp [counted.reportedBytes, account.reportedBytes]
  payloadBytes := by simp [counted.payloadBytes, account.payloadBytes]
  missingTimestamps := by
    rw [counted.missingTimestamps, account.missingTimestamps, List.countP_append]
    cases stamped : input.stamp.hasTimestamp <;> simp [stamped]

theorem Summarises.opened {input : FlowInput} {next : FlowSummary} {fromLow : Bool}
    (counted : Counted (Session.open (makeKey input).1 fromLow input.sectionNumber input).row
      input next)
    : Summarises next [input] where
  keys := by simp [counted.key, Session.open]
  sections := by simp [counted.sectionNumber, Session.open]
  first := by simp [counted.firstPacket, Session.open]
  last := by simp [counted.lastPacket]
  packets := by rw [counted.packets]; simp [Session.open, FlowSummary.total]
  capturedBytes := by rw [counted.capturedBytes]; simp [Session.open, FlowSummary.total]
  reportedBytes := by rw [counted.reportedBytes]; simp [Session.open, FlowSummary.total]
  payloadBytes := by rw [counted.payloadBytes]; simp [Session.open, FlowSummary.total]
  missingTimestamps := by
    rw [counted.missingTimestamps]
    cases stamped : input.stamp.hasTimestamp <;> simp [Session.open, stamped]

/-- The row of a session accounts for the packets behind it.
Witness: induction on the packets; each adds to every counter.
-/
theorem Session.Follows.summarises {packets : List FlowInput} {session : Session}
    (follows : Follows packets session)
    : Summarises session.row packets := by
  induction follows with
  | opened accounted => exact .opened (account_counted accounted)
  | continued _ key inside _ accounted ih => exact ih.counted (account_counted accounted) key inside

theorem FlowSummary.Ends.summarises {row : FlowSummary} {packets : List FlowInput}
    (ends : row.Ends packets)
    : Summarises row packets := by
  obtain ⟨session, reason, follows, rfl⟩ := ends
  exact follows.summarises.finalized reason

theorem countP_eq_sum (test : FlowInput → Bool) (inputs : List FlowInput)
    : inputs.countP test = (inputs.map fun input => if test input then 1 else 0).sum := by
  induction inputs with
  | nil => rfl
  | cons head rest ih => simp [List.countP_cons, ih, Nat.add_comm]

theorem sum_of_summarises {rows : List FlowSummary} {groups : List (List FlowInput)}
    {counter : FlowSummary → Nat} {amount : FlowInput → Nat}
    (each : ∀ row group, Summarises row group → counter row = (group.map amount).sum)
    (accounts : List.Forall₂ Summarises rows groups)
    : (rows.map counter).sum = (groups.flatten.map amount).sum := by
  induction accounts with
  | nil => rfl
  | cons account _ ih =>
    simp only [List.map_cons, List.sum_cons, List.flatten_cons, List.map_append, List.sum_append,
      each _ _ account, ih]

namespace FlowAggregator

/-- Every eligible packet is accounted for in exactly one row: the rows summarise groups that
together are the eligible packets, each group in order of arrival, with the key and the section
of its row. The counters of all rows therefore add up to those of the eligible packets.
-/
theorem scan_conserves (limits : AcceptedLimits) {inputs : List FlowInput}
    {finalSection : UInt32} {rows : List FlowSummary} {after : FlowAggregator}
    (returned : ({ limits } : FlowAggregator).scan inputs finalSection = (rows, .ok after))
    : (∃ groups, List.Forall₂ Summarises rows groups
        ∧ groups.flatten.Perm (inputs.filter (·.eligible))
        ∧ ∀ group ∈ groups, group.Sublist inputs)
      ∧ (rows.map (·.total (·.packets))).sum = (inputs.filter (·.eligible)).length
      ∧ (rows.map (·.total (·.capturedBytes))).sum
        = ((inputs.filter (·.eligible)).map (·.capturedLength.toNat)).sum
      ∧ (rows.map (·.total (·.reportedBytes))).sum
        = ((inputs.filter (·.eligible)).map (·.originalLength.toNat)).sum
      ∧ (rows.map (·.total (·.payloadBytes))).sum
        = ((inputs.filter (·.eligible)).map (·.packet.payloadLength.toNat)).sum
      ∧ (rows.map (·.missingTimestamps)).sum
        = (inputs.filter (·.eligible)).countP (!·.stamp.hasTimestamp) := by
  obtain ⟨last, handled, _, groups, _, traced, ends⟩ := scan_traced limits inputs finalSection
  rw [returned] at traced ends
  obtain ⟨empty, rfl⟩ := ends _ rfl
  have accounts : List.Forall₂ Summarises rows groups :=
    traced.emitted.imp fun _ _ ended => ended.summarises
  -- nothing is left open, so the rows hold every packet of every conversation
  have runs (key : SessionKey)
      : conversation key groups.flatten = conversation key (handled.filter (·.eligible)) := by
    rw [← traced.runs key, traced.vacant key (by simp [empty]), List.append_nil]
  have partition : groups.flatten.Perm (handled.filter (·.eligible)) :=
    perm_of_filter_eq (fun input => (makeKey input).1) runs
  have ordered (packets : List FlowInput) (member : packets ∈ groups)
      : packets.Sublist handled := by
    obtain ⟨row, account⟩ := exists_left_of_forall₂ accounts member
    have part := (List.sublist_flatten_of_mem member).filter
      fun input => decide ((makeKey input).1 = row.key)
    change (conversation row.key packets).Sublist (conversation row.key groups.flatten) at part
    rw [conversation_eq_self account.keys, runs] at part
    exact part.trans (List.filter_sublist.trans List.filter_sublist)
  have sums : ∀ (counter : FlowSummary → Nat) (amount : FlowInput → Nat),
      (∀ row group, Summarises row group → counter row = (group.map amount).sum) →
      (rows.map counter).sum = ((handled.filter (·.eligible)).map amount).sum := by
    intro counter amount each
    rw [sum_of_summarises each accounts]
    exact (partition.map amount).sum_eq
  refine ⟨⟨groups, accounts, partition, ordered⟩, ?_,
    sums _ _ fun row group account => account.capturedBytes,
    sums _ _ fun row group account => account.reportedBytes,
    sums _ _ fun row group account => account.payloadBytes, ?_⟩
  · have each := sums (·.total (·.packets)) (fun _ => 1) fun row group account => by
      simp [account.packets]
    simpa using each
  · rw [countP_eq_sum]
    refine sums _ _ fun row group account => ?_
    rw [account.missingTimestamps, countP_eq_sum]

/-- A query and its answer, with a fragment between them. -/
def queryAndAnswer : List FlowInput :=
  [{ stamp := { number := 1 }, packet := { transport := true, udp := true, dstPort := 53 } },
    { stamp := { number := 2 }, packet := { ipMoreFragments := true } },
    { stamp := { number := 3 }, packet := { transport := true, udp := true, srcPort := 53 } }]

/-- The rows count the query and its answer, and not the fragment. -/
theorem scan_conserves_queryAndAnswer
    : ∃ rows after, ({ limits := AcceptedLimits.default } : FlowAggregator).scan queryAndAnswer 0
        = (rows, .ok after)
      ∧ (rows.map (·.total (·.packets))).sum = 2 := by
  have ends : (({ limits := AcceptedLimits.default } : FlowAggregator).scan queryAndAnswer 0).2.isOk = true := by
    decide +kernel
  cases ended : ({ limits := AcceptedLimits.default } : FlowAggregator).scan queryAndAnswer 0 with
  | mk rows outcome =>
    rw [ended] at ends
    cases outcome with
    | error failure => simp [Except.isOk, Except.toBool] at ends
    | ok after => exact ⟨rows, after, rfl, (scan_conserves AcceptedLimits.default ended).2.1⟩

end FlowAggregator

end PacketQuapture.Flow
