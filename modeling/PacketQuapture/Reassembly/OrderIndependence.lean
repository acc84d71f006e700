import PacketQuapture.Reassembly.ArrivalOrder

/-! Scanning the packets of one direction in any two orders shows the same streams. -/

namespace PacketQuapture.Reassembly

open Library

namespace TcpReassembler

variable {self : TcpReassembler} {key : TcpFlowKey} {flow : Flow} {packet : Packet}

/-! ### Steps that change nothing -/

theorem expire_quiet (scopes : self.scopes = .empty) (stamp : PacketStamp)
    : self.expire key stamp = .ok (self, []) := by
  simp [expire, scopes]

theorem remove_absent (absent : self.flows.find? key = none) (reason : String)
    : self.remove key reason = .ok (self, []) := by
  simp [remove, absent]

theorem supersede_empty (empty : self.flows = .empty)
    : self.supersede packet = .ok (self, none, []) := by
  have absent (other : TcpFlowKey) : self.flows.find? other = none := by simp [empty]
  unfold supersede
  rw [absent]
  dsimp only
  split
  · rw [remove_absent (absent _)]
    change (if _ then _ else _) = _
    split
    · rw [remove_absent (absent _)]
      rfl
    · rfl
  · rfl

theorem supersede_continues (found : self.flows.find? packet.key = some flow)
    (agrees
      : packet.has tcpSyn = true → flow.hasSyn = true → flow.synSequence = packet.sequence)
    : self.supersede packet = .ok (self, some flow, []) := by
  have kept : (packet.has tcpSyn && (flow.hasSyn && flow.synSequence != packet.sequence)) = false := by
    cases syn : packet.has tcpSyn with
    | false => rfl
    | true =>
      cases seen : flow.hasSyn with
      | false => rfl
      | true => simp [agrees syn seen]
  simp [supersede, found, kept]

theorem reset_quiet (noReset : packet.has tcpRst = false)
    : self.reset packet = .ok (self, []) := by
  simp [reset, noReset]

theorem locate_first (flows : self.flows = .empty) (scopes : self.scopes = .empty)
    (carries : packet.has tcpSyn = true ∨ 0 < packet.declared)
    : self.locate packet
      = (do
          let (self, tracked, rejected) ← self.track packet
          return (self, tracked, rejected)) := by
  have charged : ¬ (¬ packet.has tcpSyn ∧ packet.declared = 0 ∧ packet.payload.length = 0) := by
    rintro ⟨noSyn, bare, _⟩
    rcases carries with syn | data
    · exact noSyn syn
    · exact absurd bare (UInt32.pos_iff_ne_zero.mp data)
  unfold locate
  rw [expire_quiet scopes]
  change (self.supersede packet >>= _) = _
  rw [supersede_empty flows]
  change (if _ then _ else _) = _
  rw [if_neg charged]
  rfl

theorem locate_continues (scopes : self.scopes = .empty)
    (found : self.flows.find? packet.key = some flow)
    (agrees
      : packet.has tcpSyn = true → flow.hasSyn = true → flow.synSequence = packet.sequence)
    : self.locate packet = .ok (self, some flow, []) := by
  unfold locate
  rw [expire_quiet scopes]
  change (self.supersede packet >>= _) = _
  rw [supersede_continues found agrees]
  rfl

end TcpReassembler

/-! ### Gathering every packet -/

namespace Gathered

variable {limits : TcpReassemblyLimits} {all packets : List Packet} {key : TcpFlowKey}
  {state : TcpReassembler} {flow : Flow} {packet : Packet}

/-- Charging an admitted packet of the direction emits nothing and gathers it. -/
theorem charge {start : TcpReassembler} (gathered : Gathered key packets state flow)
    (invariant : Invariant state)
    (direction : OneDirection state.limits.toTcpReassemblyLimits all) (keyed : packet.key = key)
    (member : packet ∈ all) (within : ∀ other ∈ packets, other ∈ all)
    (admits : start.locate packet = .ok (state, some flow, []))
    : ∃ next changed,
        start.add packet = .ok (next, [])
        ∧ next.limits = state.limits
        ∧ Invariant next
        ∧ Gathered key (packets ++ [packet]) next changed := by
  obtain ⟨next, changed, absorbs, gathers⟩ :=
    gathered.absorb invariant.books direction keyed member within
  obtain ⟨limits, _, settled, _⟩ :=
    (TcpReassembler.absorb_ensures invariant (keyed ▸ gathered.found)).of_eq_ok absorbs
  refine ⟨next, changed, ?_, limits, settled, gathers⟩
  unfold TcpReassembler.add
  rw [admits]
  change (state.absorb flow packet >>= _) = _
  rw [absorbs]
  change (next.reset packet >>= _) = _
  rw [TcpReassembler.reset_quiet (direction.noReset packet member)]
  rfl

/-- Further packets of the direction are gathered one by one. -/
theorem run (gathered : Gathered key packets state flow) (invariant : Invariant state)
    (direction : OneDirection state.limits.toTcpReassemblyLimits all)
    (within : ∀ other ∈ packets, other ∈ all) (keyed : ∀ other ∈ all, other.key = key)
    (rest : List Packet) (restWithin : ∀ other ∈ rest, other ∈ all)
    : ∃ final changed,
        state.run (rest.map .add) = .ok (final, [])
        ∧ final.limits = state.limits
        ∧ Invariant final
        ∧ Gathered key (packets ++ rest) final changed := by
  induction rest generalizing packets state flow with
  | nil => exact ⟨state, flow, rfl, rfl, invariant, by simpa using gathered⟩
  | cons packet rest ih =>
    rw [List.forall_mem_cons] at restWithin
    obtain ⟨member, later⟩ := restWithin
    have admits : state.locate packet = .ok (state, some flow, []) := by
      refine TcpReassembler.locate_continues gathered.scopes
        (keyed packet member ▸ gathered.found) fun own seen => ?_
      obtain ⟨other, otherIn, flagged⟩ := gathered.syn.seen_iff.mp seen
      rw [gathered.syn.agrees other otherIn flagged]
      exact direction.oneSyn other (within other otherIn) packet member flagged own
    obtain ⟨next, changed, adds, limits, settled, gathers⟩ :=
      gathered.charge invariant direction (keyed packet member) member within admits
    have extended : ∀ other ∈ packets ++ [packet], other ∈ all := by
      intro other otherIn
      rcases List.mem_append.mp otherIn with earlier | last
      · exact within other earlier
      · exact List.mem_singleton.mp last ▸ member
    obtain ⟨final, last, runs, finalLimits, finalSettled, finalGathers⟩ :=
      ih gathers settled (limits ▸ direction) extended later
    refine ⟨final, last, ?_, finalLimits.trans limits, finalSettled, ?_⟩
    · have adds' : state.call (.add packet) = .ok (next, []) := adds
      rw [List.map_cons, TcpReassembler.run, adds']
      change (next.run _ >>= _) = _
      rw [runs]
      rfl
    · simpa only [List.append_assoc, List.singleton_append] using finalGathers

/-- Draining the one direction yields what finishing it yields. -/
theorem drain (gathered : Gathered key packets state flow) (invariant : Invariant state)
    : ∃ final messages,
        finish state.limits key flow = .ok messages
        ∧ state.drain
          = .ok (final, messages.map fun stream => { stream with finalizedBy := "eof" }) := by
  obtain ⟨messages, finished⟩ := finish_returns state.limits key flow
  have found := gathered.found
  obtain ⟨bytes, segments⟩ := gathered.totals invariant.books
  have vacant : OrderedMap.empty.erase key = (OrderedMap.empty : OrderedMap TcpFlowKey Flow) :=
    OrderedMap.erase_eq_self (OrderedMap.find?_empty key)
  have erased : state.flows.erase key = .empty := by
    rw [gathered.flows, OrderedMap.erase_insert, vacant]
  have removes : state.remove key "eof" = .ok
      ({ state with bufferedBytes := 0, bufferedSegments := 0, flows := .empty },
        messages.map fun stream => { stream with finalizedBy := "eof" }) := by
    unfold TcpReassembler.remove
    rw [found]
    refine bind_eq_ok.mpr ⟨(), if_pos bytes.ge, bind_eq_ok.mpr ⟨(), if_pos segments.ge, ?_⟩⟩
    refine bind_eq_ok.mpr ⟨messages, finished, bind_eq_ok.mpr ⟨(state, flow), ?_, ?_⟩⟩
    · simp [TcpReassembler.unschedule, gathered.idle]
    · simp [bytes, segments, erased, pure, Except.pure]
  have size : state.flows.size = 1 := by
    rw [gathered.flows, OrderedMap.size_insert, vacant]
    rfl
  have first : state.finishNext = state.remove key "eof" := by
    have least : state.flows.first? = some (key, flow) := by
      rw [gathered.flows]
      rfl
    simp only [TcpReassembler.finishNext, least]
  refine ⟨{ state with bufferedBytes := 0, bufferedSegments := 0, flows := .empty }, messages,
    finished, ?_⟩
  rw [TcpReassembler.drain, size, TcpReassembler.drainLoop, if_neg (by omega), first, removes]
  rfl

end Gathered

/-! ### Any two orders -/

theorem Gathered.sameData {key : TcpFlowKey} {left right : List Packet}
    {leftState rightState : TcpReassembler} {leftFlow rightFlow : Flow}
    (leftGathered : Gathered key left leftState leftFlow)
    (rightGathered : Gathered key right rightState rightFlow) (same : left.Perm right)
    : SameData leftFlow rightFlow := by
  obtain ⟨hasSyn, synSequence⟩ := leftGathered.syn.unique same rightGathered.syn
  obtain ⟨hasFin, finSequence⟩ := leftGathered.fin.unique same rightGathered.fin
  refine ⟨hasSyn, synSequence, hasFin, finSequence, fun range => ?_⟩
  rw [leftGathered.ranges, rightGathered.ranges, mem_ranges, mem_ranges]
  simp only [same.mem_iff]

theorem OneDirection.perm {limits : TcpReassemblyLimits} {left right : List Packet}
    (direction : OneDirection limits left) (same : left.Perm right)
    : OneDirection limits right := by
  have equal : ranges right = ranges left := by
    ext range
    rw [mem_ranges, mem_ranges]
    simp only [same.mem_iff]
  obtain ⟨oneKey, untimed, noReset, carries, captured, oneSyn, oneFin, counts, totalCounts, bytes,
    totalBytes⟩ := direction
  simp only [same.mem_iff] at oneKey untimed noReset carries captured oneSyn oneFin
  rw [← equal] at counts totalCounts bytes totalBytes
  exact ⟨oneKey, untimed, noReset, carries, captured, oneSyn, oneFin, counts, totalCounts, bytes,
    totalBytes⟩

namespace TcpReassembler

variable {limits : TcpReassemblyLimits} {initial : TcpReassembler} {packets : List Packet}

theorem new_eq (accepted : new limits = .ok initial)
    : initial.limits.toTcpReassemblyLimits = limits
      ∧ initial.flows = .empty
      ∧ initial.scopes = .empty
      ∧ initial.nextId = 1 := by
  obtain ⟨_, rfl, rfl⟩ := new_eq_ok accepted
  exact ⟨rfl, rfl, rfl, rfl⟩

/-- Scanning the packets of one direction with room for it gathers them all and shows what
finishing them shows.
-/
theorem scan_gathers (accepted : new limits = .ok initial)
    (direction : OneDirection limits packets) (room : 0 < limits.maxFlows) {key : TcpFlowKey}
    (keyed : ∀ packet ∈ packets, packet.key = key) (occupied : packets ≠ [])
    : ∃ state flow final messages,
        Gathered key packets state flow
        ∧ flow.Sound
        ∧ finish initial.limits key flow = .ok messages
        ∧ initial.scan packets
          = .ok (final, messages.map fun stream => { stream with finalizedBy := "eof" }) := by
  obtain ⟨limited, flows, scopes, nextId⟩ := new_eq accepted
  have invariant := new_invariant accepted
  obtain ⟨first, rest, rfl⟩ := List.exists_cons_of_ne_nil occupied
  have member : first ∈ first :: rest := List.mem_cons_self
  have tracks : initial.track first = .ok
      (attach { initial with nextId := initial.nextId + 1 } first.key (initial.fresh first),
        some (initial.fresh first), []) := by
    have space : ¬ initial.limits.maxFlows ≤ initial.flows.size := by
      rw [flows, limited]
      exact Nat.not_le.mpr room
    rw [track, if_neg (by omega), if_neg space]
    rfl
  have admits := locate_first flows scopes (direction.carries first member)
  rw [tracks] at admits
  obtain ⟨_, opened⟩ := (locate_ensures invariant first).of_eq_ok admits
  have opens : Gathered key []
      (attach { initial with nextId := initial.nextId + 1 } first.key (initial.fresh first))
      (initial.fresh first) :=
    ⟨by rw [flows, keyed first member], scopes, rfl, rfl, recorded_nil _ _, recorded_nil _ _,
      by simp [fresh, ranges], by simp [fresh]⟩
  obtain ⟨next, charged, adds, nextLimits, settled, gathers⟩ :=
    opens.charge opened (limited ▸ direction) (keyed first member) member (by simp) admits
  obtain ⟨state, flow, runs, stateLimits, stateSettled, gathered⟩ :=
    gathers.run settled (nextLimits ▸ limited ▸ direction) (by simp) keyed rest
      (fun other later => List.mem_cons_of_mem _ later)
  obtain ⟨final, messages, finished, drains⟩ := gathered.drain stateSettled
  have ran : initial.run ((first :: rest).map .add) = .ok (state, []) := by
    have adds' : initial.call (.add first) = .ok (next, []) := adds
    rw [List.map_cons, run, adds']
    change (next.run _ >>= _) = _
    rw [runs]
    rfl
  obtain ⟨_, _, ledger, _⟩ :=
    (run_ledger invariant (new_ledger accepted).1 (first :: rest)).of_eq_ok ran
  rw [stateLimits, nextLimits] at finished
  refine ⟨state, flow, final, messages, by simpa using gathered,
    ledger.sound key flow gathered.found, finished, ?_⟩
  unfold scan
  rw [ran]
  change (state.drain >>= _) = _
  rw [drains]
  rfl

theorem drain_empty {self : TcpReassembler} (flows : self.flows = .empty)
    : self.drain = .ok (self, []) := by
  simp [drain, flows, drainLoop]

/-- What a packet of a direction the full table rejects shows. -/
def rejectedView (packet : Packet) : StreamView :=
  { status := .limit
    error := "maximum tracked TCP directions reached"
    sequence := packet.sequence + 1
    expectedBytes := 0
    capturedBytes := 0
    gaps := []
    chunks := [] }

/-- A table without room rejects every packet on its own. -/
theorem run_rejects {self : TcpReassembler} (full : self.limits.maxFlows = 0)
    (flows : self.flows = .empty) (scopes : self.scopes = .empty)
    (carries : ∀ packet ∈ packets, packet.has tcpSyn = true ∨ 0 < packet.declared)
    : Ensures (self.run (packets.map .add))
        (fun result =>
          result.1.flows = .empty ∧ result.2.map TcpStream.view = packets.map rejectedView)
        (fun _ => True) := by
  induction packets generalizing self with
  | nil => exact Ensures.ok ⟨flows, rfl⟩
  | cons packet rest ih =>
    rw [List.forall_mem_cons] at carries
    rw [List.map_cons, run]
    have adds : Ensures (self.call (.add packet))
        (fun result =>
          result.1.limits = self.limits
          ∧ result.1.flows = .empty
          ∧ result.1.scopes = .empty
          ∧ result.2.map TcpStream.view = [rejectedView packet])
        (fun _ => True) := by
      change Ensures (self.add packet) _ _
      unfold add
      rw [locate_first flows scopes carries.1, track]
      split
      · exact Ensures.error trivial
      · rw [if_pos (by omega)]
        exact Ensures.ok ⟨rfl, flows, scopes, rfl⟩
    refine adds.bind ?_
    rintro ⟨middle, streams⟩ ⟨limits, nextFlows, nextScopes, shown⟩
    refine (ih (limits ▸ full) nextFlows nextScopes carries.2).bind ?_
    rintro ⟨last, later⟩ ⟨lastFlows, laterShown⟩
    refine Ensures.pure ⟨lastFlows, ?_⟩
    dsimp only at shown laterShown ⊢
    rw [List.map_append, shown, laterShown, List.map_cons, List.singleton_append]

theorem scan_rejects (accepted : new limits = .ok initial) (full : limits.maxFlows = 0)
    (carries : ∀ packet ∈ packets, packet.has tcpSyn = true ∨ 0 < packet.declared)
    {final : TcpReassembler} {streams : List TcpStream}
    (scans : initial.scan packets = .ok (final, streams))
    : streams.map TcpStream.view = packets.map rejectedView := by
  obtain ⟨limited, flows, scopes, _⟩ := new_eq accepted
  obtain ⟨⟨added, early⟩, ran, rest⟩ := bind_eq_ok.mp scans
  obtain ⟨empty, shown⟩ :=
    (run_rejects (limited ▸ full) flows scopes carries).of_eq_ok ran
  dsimp only at empty shown rest
  rw [drain_empty empty] at rest
  cases rest
  rw [List.append_nil, shown]

theorem map_view_finalized (messages : List TcpStream) (reason : String)
    : (messages.map fun stream => { stream with finalizedBy := reason }).map TcpStream.view
      = messages.map TcpStream.view := by
  rw [List.map_map]
  rfl

/-- Scanning the packets of one direction in two orders shows the same streams, whatever the
sequence numbers. A table with no room at all rejects each packet on its own, in its order.
-/
theorem scan_order_independent {left right : List Packet} (accepted : new limits = .ok initial)
    (direction : OneDirection limits left) (same : left.Perm right)
    : (0 < limits.maxFlows
        → ∃ leftFinal leftStreams rightFinal rightStreams,
            initial.scan left = .ok (leftFinal, leftStreams)
            ∧ initial.scan right = .ok (rightFinal, rightStreams)
            ∧ leftStreams.map TcpStream.view = rightStreams.map TcpStream.view)
      ∧ (limits.maxFlows = 0
        → ∀ leftFinal leftStreams rightFinal rightStreams,
            initial.scan left = .ok (leftFinal, leftStreams)
            → initial.scan right = .ok (rightFinal, rightStreams)
            → (leftStreams.map TcpStream.view).Perm (rightStreams.map TcpStream.view)) := by
  have rightDirection := direction.perm same
  constructor
  · intro room
    cases left with
    | nil =>
      obtain ⟨_, flows, _⟩ := new_eq accepted
      have scans : initial.scan [] = .ok (initial, []) := by
        change (initial.drain >>= _) = _
        rw [drain_empty flows]
        rfl
      rw [List.nil_perm.mp same]
      exact ⟨initial, [], initial, [], scans, scans, rfl⟩
    | cons first rest =>
      have member : first ∈ first :: rest := List.mem_cons_self
      have keyed (packet : Packet) (packetIn : packet ∈ first :: rest)
          : packet.key = first.key :=
        direction.oneKey packet packetIn first member
      obtain ⟨leftState, leftFlow, leftFinal, leftMessages, leftGathered, leftSound, leftFinished,
        leftScans⟩ := scan_gathers accepted direction room keyed (List.cons_ne_nil _ _)
      obtain ⟨rightState, rightFlow, rightFinal, rightMessages, rightGathered, rightSound,
        rightFinished, rightScans⟩ :=
        scan_gathers accepted rightDirection room
          (fun packet packetIn => keyed packet (same.mem_iff.mpr packetIn))
          (List.ne_nil_of_mem (same.mem_iff.mp member))
      refine ⟨leftFinal, _, rightFinal, _, leftScans, rightScans, ?_⟩
      rw [map_view_finalized, map_view_finalized]
      exact (leftGathered.sameData rightGathered same).finished_views leftSound rightSound
        leftGathered.live rightGathered.live (finish_finished leftFinished)
        (finish_finished rightFinished)
  · intro full leftFinal leftStreams rightFinal rightStreams leftScans rightScans
    rw [scan_rejects accepted full direction.carries leftScans,
      scan_rejects accepted full rightDirection.carries rightScans]
    exact same.map rejectedView

theorem lateSyn_oneDirection : OneDirection {} lateSyn := by
  constructor <;> decide

/-- Data and its SYN, captured in either order, show the same stream. -/
theorem scan_order_independent_lateSyn
    : ∃ initial,
        new {} = .ok initial
        ∧ ∃ leftFinal leftStreams rightFinal rightStreams,
            initial.scan lateSyn = .ok (leftFinal, leftStreams)
            ∧ initial.scan lateSyn.reverse = .ok (rightFinal, rightStreams)
            ∧ leftStreams.map TcpStream.view = rightStreams.map TcpStream.view :=
  ⟨_, rfl,
    (@scan_order_independent {} _ _ _ rfl lateSyn_oneDirection
      (List.reverse_perm lateSyn).symm).1 (by decide)⟩

end TcpReassembler

end PacketQuapture.Reassembly
