import PacketQuapture.Flow.Session

/-! What accounting for one packet does to the row of its session. The handshake a row
records never touches its counters, its timestamps or its place in the capture.
-/

namespace PacketQuapture.Flow

open Library

/-- A counter of a row, over both sides. -/
def FlowSummary.total (row : FlowSummary) (counter : FlowCounters → Nat) : Nat :=
  counter row.orig + counter row.resp

/-- `next` is `row` after one more packet. -/
structure Counted (row : FlowSummary) (input : FlowInput) (next : FlowSummary) : Prop where
  key : next.key = row.key
  sectionNumber : next.sectionNumber = row.sectionNumber
  firstPacket : next.firstPacket = row.firstPacket
  lastPacket : next.lastPacket = input.stamp.number
  packets : next.total (·.packets) = row.total (·.packets) + 1
  capturedBytes : next.total (·.capturedBytes)
    = row.total (·.capturedBytes) + input.capturedLength.toNat
  reportedBytes : next.total (·.reportedBytes)
    = row.total (·.reportedBytes) + input.originalLength.toNat
  payloadBytes : next.total (·.payloadBytes)
    = row.total (·.payloadBytes) + input.packet.payloadLength.toNat
  missingTimestamps : next.missingTimestamps
    = row.missingTimestamps + if input.stamp.hasTimestamp then 0 else 1
  latest : row.hasTimestamp → row.lastTimestamp ≤ next.lastTimestamp

theorem FlowSummary.setSide_frame (row : FlowSummary) (orig : Bool) (counts : FlowCounters)
    : row.setSide orig counts
      = { row with
          orig := (row.setSide orig counts).orig
          resp := (row.setSide orig counts).resp } := by
  cases orig <;> rfl

theorem FlowSummary.total_setSide {row : FlowSummary} {orig : Bool} {counts : FlowCounters}
    {counter : FlowCounters → Nat} {amount : Nat}
    (added : counter counts = counter (row.side orig) + amount)
    : (row.setSide orig counts).total counter = row.total counter + amount := by
  cases orig with
  | true =>
    simp only [side, if_true] at added
    simp only [total, setSide, if_true, added]
    omega
  | false =>
    simp only [side, Bool.false_eq_true, if_false] at added
    simp only [total, setSide, Bool.false_eq_true, if_false, added]
    omega

theorem addChecked_eq_ok {target amount result : Nat}
    (returned : addChecked target amount = .ok result)
    : result = target + amount := by
  simp only [addChecked] at returned
  split at returned
  · simp at returned
  · exact (Except.ok.inj returned).symm

theorem FlowCounters.count_eq_ok {counts result : FlowCounters} {input : FlowInput}
    (returned : counts.count input = .ok result)
    : result.packets = counts.packets + 1
      ∧ result.capturedBytes = counts.capturedBytes + input.capturedLength.toNat
      ∧ result.reportedBytes = counts.reportedBytes + input.originalLength.toNat
      ∧ result.payloadBytes = counts.payloadBytes + input.packet.payloadLength.toNat := by
  obtain ⟨packets, first, returned⟩ := bind_eq_ok.mp returned
  obtain ⟨captured, second, returned⟩ := bind_eq_ok.mp returned
  obtain ⟨reported, third, returned⟩ := bind_eq_ok.mp returned
  obtain ⟨payload, fourth, returned⟩ := bind_eq_ok.mp returned
  obtain rfl := Except.ok.inj returned
  exact ⟨addChecked_eq_ok first, addChecked_eq_ok second, addChecked_eq_ok third,
    addChecked_eq_ok fourth⟩

/-- The stamp of a packet changes only the timestamps of a row. -/
theorem FlowSummary.observeStamp_eq_ok {row result : FlowSummary} {stamp : PacketStamp}
    {late : Bool} (returned : row.observeStamp stamp late = .ok result)
    : result = { row with
        hasTimestamp := result.hasTimestamp
        firstTimestamp := result.firstTimestamp
        lastTimestamp := result.lastTimestamp
        latePackets := result.latePackets
        missingTimestamps := row.missingTimestamps + if stamp.hasTimestamp then 0 else 1 }
      ∧ (row.hasTimestamp → row.lastTimestamp ≤ result.lastTimestamp) := by
  simp only [observeStamp] at returned
  split at returned
  case isTrue stamped =>
    obtain ⟨latePackets, _, returned⟩ := bind_eq_ok.mp returned
    obtain rfl := Except.ok.inj returned
    refine ⟨by simp [stamped], ?_⟩
    intro known
    simp [known]
  case isFalse blank =>
    obtain ⟨missing, added, returned⟩ := bind_eq_ok.mp returned
    obtain rfl := Except.ok.inj returned
    exact ⟨by simp [addChecked_eq_ok added, blank], fun _ => le_rfl⟩

theorem Session.handshake_row (session : Session) (packet : DecodedPacket) (orig : Bool)
    : (session.handshake packet orig).row = { session.row with
        simultaneousOpen := (session.handshake packet orig).row.simultaneousOpen
        handshakeComplete := (session.handshake packet orig).row.handshakeComplete } := by
  simp only [handshake]
  split
  · rfl
  · split
    · split <;> rfl
    · split <;> rfl

theorem Counted.of_verdicts {row middle next : FlowSummary} {input : FlowInput}
    (counted : Counted row input middle)
    (frame : next = { middle with
      handshakeComplete := next.handshakeComplete
      simultaneousOpen := next.simultaneousOpen
      synSeen := next.synSeen
      finSeen := next.finSeen
      resetSeen := next.resetSeen })
    : Counted row input next := by
  rw [frame]
  exact { counted with }

/-- Accounting for a packet counts it once, on the side it travels from. -/
theorem Session.account_counted {session next : Session} {input : FlowInput}
    {fromLow late : Bool} (returned : session.account input fromLow late = .ok next)
    : Counted session.row input next.row := by
  obtain ⟨counts, counted, returned⟩ := bind_eq_ok.mp returned
  obtain ⟨row, stamped, returned⟩ := bind_eq_ok.mp returned
  obtain ⟨packets, captured, reported, payload⟩ := FlowCounters.count_eq_ok counted
  obtain ⟨frame, latest⟩ := FlowSummary.observeStamp_eq_ok stamped
  have base : Counted session.row input row := by
    rw [FlowSummary.setSide_frame] at frame latest
    rw [frame]
    exact {
      key := rfl
      sectionNumber := rfl
      firstPacket := rfl
      lastPacket := rfl
      packets := FlowSummary.total_setSide packets
      capturedBytes := FlowSummary.total_setSide captured
      reportedBytes := FlowSummary.total_setSide reported
      payloadBytes := FlowSummary.total_setSide payload
      missingTimestamps := rfl
      latest }
  obtain rfl := Except.ok.inj returned
  split
  case isTrue tcp =>
    refine base.of_verdicts ?_
    rw [Session.handshake_row]
    rfl
  case isFalse other => exact base

theorem addChecked_eq_error {target amount : Nat} {failure : Failure}
    (raised : addChecked target amount = .error failure)
    : failure = .counterOverflow := by
  simp only [addChecked] at raised
  split at raised
  · exact (Except.error.inj raised).symm
  · simp at raised

theorem addChecked_ensures (target amount : Nat)
    : Ensures (addChecked target amount) (fun _ => True) (· = .counterOverflow) := by
  cases added : addChecked target amount with
  | ok total => trivial
  | error failure => exact addChecked_eq_error added

theorem addIf_ensures (occurs : Bool) (target : Nat)
    : Ensures (addIf occurs target) (fun _ => True) (· = .counterOverflow) := by
  cases occurs with
  | true => exact addChecked_ensures target 1
  | false => trivial

theorem FlowCounters.count_ensures (counts : FlowCounters) (input : FlowInput)
    : Ensures (counts.count input) (fun _ => True) (· = .counterOverflow) := by
  refine (addChecked_ensures _ _).bind fun _ _ => ?_
  refine (addChecked_ensures _ _).bind fun _ _ => ?_
  refine (addChecked_ensures _ _).bind fun _ _ => ?_
  exact (addChecked_ensures _ _).bind fun _ _ => trivial

theorem FlowSummary.observeStamp_ensures (row : FlowSummary) (stamp : PacketStamp) (late : Bool)
    : Ensures (row.observeStamp stamp late) (fun _ => True) (· = .counterOverflow) := by
  simp only [observeStamp]
  split
  · exact (addIf_ensures _ _).bind fun _ _ => trivial
  · exact (addChecked_ensures _ _).bind fun _ _ => trivial

theorem Session.account_ensures (session : Session) (input : FlowInput) (fromLow late : Bool)
    : Ensures (session.account input fromLow late) (fun _ => True) (· = .counterOverflow) := by
  refine (FlowCounters.count_ensures _ _).bind fun counts _ => ?_
  exact (FlowSummary.observeStamp_ensures _ _ _).bind fun row _ => trivial

end PacketQuapture.Flow
