import PacketQuapture.Reassembly.Charging

/-! Runs of the reassembler: the books balance and the queues match after every call, and the
only failure a run can end in is the exhaustion of stream ids.
-/

namespace PacketQuapture.Reassembly

open Library

namespace TcpReassembler

variable {self : TcpReassembler} {packet : Packet}

/-! ### Finding the packet's direction -/

/-- Superseding retires the tuple's directions, or yields the one the packet continues. -/
theorem supersede_ensures (invariant : Invariant self) (packet : Packet)
    : Ensures (self.supersede packet)
        (fun result =>
          Retired self result.1 result.2.2
          ∧ result.1.flows.find? packet.key = result.2.1)
        (fun _ => False) := by
  unfold supersede
  dsimp only
  split
  case isTrue =>
    refine (remove_ensures invariant "tuple_reuse").bind ?_
    rintro ⟨middle, own⟩ ⟨removed, flows⟩
    dsimp only at removed flows ⊢
    split
    case isTrue =>
      refine (remove_ensures removed.invariant "tuple_reuse").bind ?_
      rintro ⟨next, reversed⟩ ⟨cleared, rest⟩
      refine Ensures.pure ⟨removed.trans cleared, ?_⟩
      dsimp only at rest ⊢
      rw [rest, flows, OrderedMap.find?_erase, OrderedMap.find?_erase_self, ite_self]
    case isFalse =>
      refine Ensures.pure ⟨removed, ?_⟩
      dsimp only
      rw [flows, OrderedMap.find?_erase_self]
  case isFalse => exact Ensures.ok ⟨.refl invariant, rfl⟩

/-- The direction `track` starts for a packet. -/
def fresh (self : TcpReassembler) (packet : Packet) : Flow :=
  { id := self.nextId, first := packet.stamp, last := packet.stamp }

/-- The diagnostic `track` reports instead when the table is full. -/
def rejection (self : TcpReassembler) (packet : Packet) : TcpStream :=
  { diagnostic packet.key
      { id := self.nextId
        first := packet.stamp
        last := packet.stamp
        hasSyn := packet.has tcpSyn
        synSequence := packet.sequence }
      .limit "maximum tracked TCP directions reached" with
    finalizedBy := "limit" }

/-- What `track` does: a full table hands out the id with a diagnostic, a free slot takes a new
direction.
-/
inductive Tracked (state : TcpReassembler) (packet : Packet)
    : TcpReassembler → Option Flow → List TcpStream → Prop
  | rejected
    : Tracked state packet { state with nextId := state.nextId + 1 } none
        [state.rejection packet]
  | started
    : Tracked state packet
        (attach { state with nextId := state.nextId + 1 } packet.key (state.fresh packet))
        (some (state.fresh packet)) []

theorem fresh_consistent (self : TcpReassembler) (packet : Packet) (limits : AcceptedLimits)
    : (self.fresh packet).Consistent limits := by
  constructor <;> simp [fresh]

theorem track_ensures (invariant : Invariant self)
    (absent : self.flows.find? packet.key = none)
    : Ensures (self.track packet)
        (fun result =>
          Tracked self packet result.1 result.2.1 result.2.2 ∧ Invariant result.1)
        (fun failure => failure = .streamIdsExhausted ∧ self.nextId = 2 ^ 64 - 1) := by
  obtain ⟨books, queues⟩ := invariant
  unfold track
  split
  case isTrue exhausted => exact Ensures.error ⟨rfl, exhausted⟩
  split
  case isTrue =>
    refine Ensures.ok ⟨.rejected, ?_, ?_⟩
    · exact ⟨books.bytesEq, books.segmentsEq, books.bytesLe, books.segmentsLe, books.flowsLe,
        books.consistent⟩
    · exact ⟨queues.mem_iff, queues.nonempty, queues.lag⟩
  case isFalse room =>
    refine Ensures.ok ⟨.started, ?_, queues.track absent rfl rfl rfl⟩
    have unchanged : self.flows.erase packet.key = self.flows := OrderedMap.erase_eq_self absent
    constructor
    · simp [OrderedMap.sumOf_insert, unchanged, books.bytesEq]
    · simp [OrderedMap.sumOf_insert, unchanged, books.segmentsEq]
    · exact books.bytesLe
    · exact books.segmentsLe
    · simp only [OrderedMap.size_insert, unchanged]
      omega
    · intro key flow found
      rcases OrderedMap.find?_insert_eq_some found with ⟨rfl, rfl⟩ | ⟨_, found⟩
      · exact fresh_consistent self packet self.limits
      · exact books.consistent key flow found

/-- How `locate` settles which direction a packet is charged to. -/
inductive Admitted (state : TcpReassembler) (packet : Packet)
    : TcpReassembler → Option Flow → List TcpStream → Prop
  | located {next : TcpReassembler} {flow : Flow} {output : List TcpStream}
    (retired : Retired state next output) (found : next.flows.find? packet.key = some flow)
    : Admitted state packet next (some flow) output
  | ignored {next : TcpReassembler} {output : List TcpStream}
    (retired : Retired state next output) (bare : packet.declared = 0)
    : Admitted state packet next none output
  | tracked {middle next : TcpReassembler} {tracked : Option Flow}
    {output rejected : List TcpStream} (retired : Retired state middle output)
    (absent : middle.flows.find? packet.key = none)
    (tracks : Tracked middle packet next tracked rejected)
    : Admitted state packet next tracked (output ++ rejected)

theorem Admitted.found {next : TcpReassembler} {flow : Flow} {output : List TcpStream}
    (admitted : Admitted self packet next (some flow) output)
    : next.flows.find? packet.key = some flow := by
  cases admitted with
  | located _ found => exact found
  | tracked _ _ tracks =>
    cases tracks
    exact OrderedMap.find?_insert_self _ _ _

theorem locate_ensures (invariant : Invariant self) (packet : Packet)
    : Ensures (self.locate packet)
        (fun result =>
          Admitted self packet result.1 result.2.1 result.2.2 ∧ Invariant result.1)
        (fun failure => failure = .streamIdsExhausted ∧ self.nextId = 2 ^ 64 - 1) := by
  unfold locate
  refine ((expire_ensures invariant packet.stamp).mono (fun _ => id)
    (fun _ impossible => impossible.elim)).bind ?_
  rintro ⟨aged, expired⟩ idled
  refine ((supersede_ensures idled.invariant packet).mono (fun _ => id)
    (fun _ impossible => impossible.elim)).bind ?_
  rintro ⟨opened, located, superseded⟩ ⟨replaced, found⟩
  dsimp only at replaced found ⊢
  have retired := idled.trans replaced
  cases located with
  | some flow => exact Ensures.pure ⟨.located retired found, retired.invariant⟩
  | none =>
    dsimp only
    split
    case isTrue bare =>
      split
      case isTrue =>
        refine ((remove_ensures retired.invariant "reset").mono (fun _ => id)
          (fun _ impossible => impossible.elim)).bind ?_
        rintro ⟨next, reversed⟩ ⟨cleared, _⟩
        exact Ensures.pure ⟨.ignored (retired.trans cleared) bare.2.1, cleared.invariant⟩
      case isFalse =>
        exact Ensures.pure ⟨.ignored retired bare.2.1, retired.invariant⟩
    case isFalse =>
      refine ((track_ensures retired.invariant found).mono (fun _ => id) ?_).bind ?_
      · rintro failure ⟨exhausted, last⟩
        exact ⟨exhausted, retired.nextId ▸ last⟩
      rintro ⟨next, tracked, rejected⟩ ⟨tracks, settled⟩
      exact Ensures.pure ⟨.tracked retired found tracks, settled⟩

/-! ### One call -/

/-- What one `add` does: a packet that is not charged ends with its admission, a charged one is
absorbed by its direction before a reset may end it.
-/
inductive Added (state : TcpReassembler) (packet : Packet)
    : TcpReassembler → List TcpStream → Prop
  | uncharged {next : TcpReassembler} {output : List TcpStream}
    (admits : state.locate packet = .ok (next, none, output))
    (admitted : Admitted state packet next none output)
    : Added state packet next output
  | charged {middle stored next : TcpReassembler} {flow absorbed : Flow}
    {output ended : List TcpStream}
    (admits : state.locate packet = .ok (middle, some flow, output))
    (admitted : Admitted state packet middle (some flow) output)
    (absorbs : Absorbed middle.limits flow packet absorbed)
    (limits : stored.limits = middle.limits) (nextId : stored.nextId = middle.nextId)
    (flows : stored.flows = middle.flows.insert packet.key absorbed)
    (reset : Retired stored next ended)
    : Added state packet next (output ++ ended)

theorem reset_ensures (invariant : Invariant self) (packet : Packet)
    : Ensures (self.reset packet) (fun result => Retired self result.1 result.2)
        (fun _ => False) := by
  unfold reset
  split
  · refine (remove_ensures invariant "reset").bind ?_
    rintro ⟨middle, own⟩ ⟨removed, _⟩
    refine (remove_ensures removed.invariant "reset").bind ?_
    rintro ⟨next, reversed⟩ ⟨cleared, _⟩
    exact Ensures.pure (removed.trans cleared)
  · exact Ensures.ok (.refl invariant)

theorem add_ensures (invariant : Invariant self) (packet : Packet)
    : Ensures (self.add packet)
        (fun result => Added self packet result.1 result.2 ∧ Invariant result.1)
        (fun failure => failure = .streamIdsExhausted ∧ self.nextId = 2 ^ 64 - 1) := by
  unfold add
  refine (locate_ensures invariant packet).returned.bind ?_
  rintro ⟨middle, located, output⟩ ⟨admits, admitted, settled⟩
  dsimp only at admitted settled ⊢
  cases located with
  | none => exact Ensures.pure ⟨.uncharged admits admitted, settled⟩
  | some flow =>
    refine ((absorb_ensures settled admitted.found).mono (fun _ => id)
      (fun _ impossible => impossible.elim)).bind ?_
    rintro stored ⟨limits, nextId, kept, absorbed, absorbs, flows⟩
    refine ((reset_ensures kept packet).mono (fun _ => id)
      (fun _ impossible => impossible.elim)).bind ?_
    rintro ⟨next, ended⟩ ends
    exact Ensures.pure ⟨.charged admits admitted absorbs limits nextId flows ends,
      ends.invariant⟩

theorem finishNext_ensures (invariant : Invariant self)
    : Ensures self.finishNext
        (fun result =>
          Retired self result.1 result.2
          ∧ (self.flows.size ≠ 0 → result.1.flows.size < self.flows.size))
        (fun _ => False) := by
  unfold finishNext
  split
  case h_1 drained =>
    rw [OrderedMap.first?_eq_none_iff] at drained
    exact Ensures.ok ⟨.refl invariant, by simp [drained]⟩
  case h_2 key flow first =>
    refine (remove_ensures invariant "eof").mono ?_ (fun _ impossible => impossible)
    rintro result ⟨retired, flows⟩
    have size := OrderedMap.size_erase (OrderedMap.find?_of_first? first)
    exact ⟨retired, fun _ => by rw [flows]; omega⟩

/-! ### Runs -/

theorem call_invariant (invariant : Invariant self) (next : Call)
    : Ensures (self.call next) (fun result => Invariant result.1)
        (fun failure => failure = .streamIdsExhausted) := by
  cases next with
  | add packet =>
    exact (add_ensures invariant packet).mono (fun _ added => added.2)
      (fun _ exhausted => exhausted.1)
  | finishNext =>
    exact (finishNext_ensures invariant).mono (fun _ drained => drained.1.invariant)
      (fun _ impossible => impossible.elim)

theorem run_invariant (invariant : Invariant self) (calls : List Call)
    : Ensures (self.run calls) (fun result => Invariant result.1)
        (fun failure => failure = .streamIdsExhausted) := by
  induction calls generalizing self with
  | nil => exact Ensures.ok invariant
  | cons next rest ih =>
    refine (call_invariant invariant next).bind ?_
    rintro ⟨middle, streams⟩ kept
    refine (ih kept).bind ?_
    rintro ⟨last, later⟩ settled
    exact Ensures.pure settled

/-- An accepted reassembler starts empty, under the limits asked for. -/
theorem new_eq_ok {limits : TcpReassemblyLimits} (accepted : new limits = .ok self)
    : ∃ admitted : AcceptedLimits,
        admitted.toTcpReassemblyLimits = limits ∧ self = { limits := admitted } := by
  unfold new at accepted
  split at accepted
  · cases accepted
    exact ⟨_, rfl, rfl⟩
  · cases accepted

theorem new_invariant {limits : TcpReassemblyLimits} (accepted : new limits = .ok self)
    : Invariant self := by
  obtain ⟨_, _, rfl⟩ := new_eq_ok accepted
  exact ⟨accounting_empty _, scheduling_empty _⟩

/-- After every run of calls the books balance within the limits, and no run fails an assertion:
the only exception left is the exhaustion of stream ids.
-/
theorem run_accounting {limits : TcpReassemblyLimits} {initial : TcpReassembler}
    (accepted : new limits = .ok initial) (calls : List Call)
    : Ensures (initial.run calls) (fun result => Accounting result.1)
        (fun failure => failure = .streamIdsExhausted) :=
  (run_invariant (new_invariant accepted) calls).mono (fun _ settled => settled.books)
    (fun _ exhausted => exhausted)

/-- A segment of two bytes. -/
def segmentCall (port : UInt16) (sequence : UInt32) : Call :=
  .add
    { key := { srcPort := port }, sequence, flags := 16, payload := [1, 2], declared := 2,
      stamp := { number := 1 } }

/-- With room for three bytes a direction, one direction keeps its segment buffered and the other
fails at its second.
-/
theorem run_accounting_overfull
    : ∃ initial,
        new { maxStreamBytes := 3 } = .ok initial
        ∧ ((initial.run [segmentCall 1 7, segmentCall 2 7, segmentCall 2 9]).map fun result =>
              (result.1.bufferedBytes, result.1.bufferedSegments,
                result.1.flows.entries.map fun entry =>
                  (entry.2.bytes, entry.2.segments.length, entry.2.failureStatus))).toOption
          = some (2, 1, [(2, 1, .unset), (0, 0, .limit)])
        ∧ Ensures (initial.run [segmentCall 1 7, segmentCall 2 7, segmentCall 2 9])
            (fun result => Accounting result.1) (fun failure => failure = .streamIdsExhausted) :=
  ⟨_, rfl, by decide +kernel, @run_accounting { maxStreamBytes := 3 } _ rfl _⟩

end TcpReassembler

end PacketQuapture.Reassembly
