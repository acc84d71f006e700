import PacketQuapture.Reassembly.Deadlines

/-! Idle eviction over whole runs: the lazy queues behave like eager ones, a packet leaves its
clock with nothing overdue on it, and no direction is ended before it has been idle.
-/

namespace PacketQuapture.Reassembly

open Library

/-- The times an int64 timestamp can give. -/
def InInt64 (time : Int) : Prop :=
  -2 ^ 63 ≤ time ∧ time ≤ int64Max

/-- Every clock stands at a time a timestamp gave. -/
def Ranged (scopes : OrderedMap ScopeKey Scope) : Prop :=
  ∀ id scope, scopes.find? id = some scope → InInt64 scope.watermark

theorem Ranged.mono {after before : OrderedMap ScopeKey Scope} (ranged : Ranged before)
    (clocks : ClocksFrom after before)
    : Ranged after := by
  intro id scope located
  obtain ⟨earlier, stood, same⟩ := clocks id scope located
  rw [same]
  exact ranged id earlier stood

namespace TcpReassembler

variable {self next aged middle : TcpReassembler} {packet : Packet} {flow stored : Flow}
  {output : List TcpStream} {located : Option Flow}
variable {stamp : PacketStamp} {key : TcpFlowKey}

/-! ### Clocks stay in range -/

theorem inInt64_clockAfter (limits : AcceptedLimits) {clock : Int} (clocked : InInt64 clock)
    (stamped : InInt64 stamp.timestamp)
    : InInt64 (clockAfter limits clock stamp) := by
  unfold clockAfter
  split
  · exact stamped
  · rcases max_choice clock stamp.timestamp with same | same
    · rw [same]
      exact clocked
    · rw [same]
      exact stamped

theorem expire_ranged (ranged : Ranged self.scopes) (stamped : InInt64 stamp.timestamp)
    (returned : self.expire key stamp = .ok (next, output))
    : Ranged next.scopes := by
  cases expire_sweeps returned with
  | idle =>
    exact ranged
  | @swept scope _ located returned =>
    refine Ranged.mono ?_ (expireLoop_thins returned).clocks
    intro id later kept
    rcases OrderedMap.find?_insert_eq_some kept with ⟨rfl, rfl⟩ | ⟨_, kept⟩
    · exact inInt64_clockAfter _ (ranged _ scope located) stamped
    · exact ranged id later kept

theorem Arrived.ranged (arrived : Arrived aged packet next located) (ranged : Ranged aged.scopes)
    : Ranged next.scopes := by
  cases arrived with
  | continued => exact ranged
  | ignored thins => exact ranged.mono thins.clocks
  | rejected thins => exact ranged.mono thins.clocks
  | started thins => exact ranged.mono thins.clocks

theorem Charged.ranged (charged : Charged middle packet flow next stored)
    (ranged : Ranged middle.scopes) (stamped : InInt64 packet.stamp.timestamp)
    : Ranged next.scopes := by
  cases charged.timing with
  | off _ clocks => exact ranged.mono clocks
  | on _ _ _ _ _ clocks =>
    intro id later kept
    rcases clocks id later kept with ⟨earlier, stood, same | moved⟩ | ⟨_, set⟩
    · rw [same]
      exact ranged id earlier stood
    · rw [moved]
      rcases max_choice earlier.watermark packet.stamp.timestamp with same | same
      · rw [same]
        exact ranged id earlier stood
      · rw [same]
        exact stamped
    · rw [set]
      exact stamped

theorem Paced.ranged (paced : Paced self packet next) (ranged : Ranged self.scopes)
    (stamped : InInt64 packet.stamp.timestamp)
    : Ranged next.scopes := by
  cases paced with
  | uncharged _ expires arrived => exact arrived.ranged (expire_ranged ranged stamped expires)
  | charged _ expires arrived _ charges thins =>
    refine Ranged.mono ?_ thins.clocks
    exact charges.ranged (arrived.ranged (expire_ranged ranged stamped expires)) stamped

/-! ### A timestamped packet leaves its clock prompt -/

theorem Arrived.prompt {id : ScopeKey} {watermark : Int}
    (arrived : Arrived aged packet next located) (prompt : Prompt aged id watermark)
    : Prompt next id watermark := by
  cases arrived with
  | continued => exact prompt
  | ignored thins => exact prompt.thins thins
  | rejected thins => exact ⟨(prompt.thins thins).clock, (prompt.thins thins).due⟩
  | @started middle thins absent =>
    have settled := prompt.thins thins
    refine ⟨settled.clock, ?_⟩
    intro key flow placed found scheduled
    rcases OrderedMap.find?_insert_eq_some found with ⟨rfl, rfl⟩ | ⟨_, found⟩
    · cases scheduled
    · exact settled.due key flow placed found scheduled

/-- Scheduling the packet's direction leaves its clock prompt. -/
theorem Charged.prompt {watermark : Int} (charged : Charged middle packet flow next stored)
    (queues : Scheduling middle) (prompt : Prompt middle (scopeKey packet.key) watermark)
    (reached : packet.stamp.timestamp ≤ watermark)
    (near : watermark ≤ packet.stamp.timestamp + middle.limits.tcpIdleUs)
    : ∃ clock, Prompt next (scopeKey packet.key) clock := by
  have others (clock : Int) (before : Prompt middle (scopeKey packet.key) clock)
      (own : stored.scheduled = true → clock ≤ stored.deadline) (key : TcpFlowKey) (kept : Flow)
      (placed : scopeKey key = scopeKey packet.key) (stands : next.flows.find? key = some kept)
      (scheduled : kept.scheduled = true)
      : clock ≤ kept.deadline := by
    rw [charged.flows] at stands
    rcases OrderedMap.find?_insert_eq_some stands with ⟨rfl, rfl⟩ | ⟨_, stands⟩
    · exact own scheduled
    · exact before.due key kept placed stands scheduled
  cases charged.timing with
  | off idle clocks =>
    refine ⟨watermark, ?_, others watermark prompt (fun scheduled => ?_)⟩
    · intro scope kept
      obtain ⟨earlier, stood, same⟩ := clocks _ scope kept
      rw [same]
      exact prompt.clock earlier stood
    · rw [idle] at scheduled
      cases scheduled
  | on timed fits tracked deadline postponed clocks =>
    cases kept : middle.scopes.find? (scopeKey packet.key) with
    | none =>
      have idle := middle.limits.idleNonneg
      have absent := Prompt.of_absent queues kept packet.stamp.timestamp
      refine ⟨packet.stamp.timestamp, ?_, others _ absent (fun _ => by omega)⟩
      intro scope stands
      rcases clocks _ scope stands with ⟨earlier, stood, _⟩ | ⟨_, set⟩
      · rw [kept] at stood
        cases stood
      · exact set
    | some before =>
      have clock := prompt.clock before kept
      refine ⟨watermark, ?_, others _ prompt (fun _ => by omega)⟩
      intro scope stands
      rcases clocks _ scope stands with ⟨earlier, stood, same | moved⟩ | ⟨absent, _⟩
      · rw [same]
        exact prompt.clock earlier stood
      · rw [moved, prompt.clock earlier stood]
        exact max_eq_left reached
      · rw [kept] at absent
        cases absent

theorem Arrived.limits (arrived : Arrived aged packet next located)
    : next.limits = aged.limits := by
  cases arrived with
  | continued => rfl
  | ignored thins => exact thins.limits
  | rejected thins => exact thins.limits
  | started thins => exact thins.limits

theorem Arrived.found (arrived : Arrived aged packet next (some flow))
    : next.flows.find? packet.key = some flow := by
  cases arrived with
  | continued found => exact found
  | started => exact OrderedMap.find?_insert_self _ _ _

theorem Paced.prompt (paced : Paced self packet next) (invariant : Invariant self)
    (timed : packet.stamp.hasTimestamp) (ranged : Ranged self.scopes)
    (stamped : InInt64 packet.stamp.timestamp)
    : ∃ watermark, Prompt next (scopeKey packet.key) watermark := by
  have near (scope : Scope) (located : self.scopes.find? (scopeKey packet.key) = some scope)
      : scope.watermark - packet.stamp.timestamp < 2 ^ 64 := by
    obtain ⟨_, high⟩ := ranged _ scope located
    obtain ⟨low, _⟩ := stamped
    simp only [int64Max] at high
    omega
  cases paced with
  | uncharged _ expires arrived =>
    obtain ⟨watermark, prompt, _⟩ := expire_prompt invariant timed near expires
    exact ⟨watermark, arrived.prompt prompt⟩
  | @charged aged middle stored next expired early flow changed _ expires arrived kept charges
      thins =>
      obtain ⟨watermark, prompt, reached, close⟩ := expire_prompt invariant timed near expires
      have limits : middle.limits = self.limits :=
        arrived.limits.trans ((expire_ensures invariant packet.stamp).of_eq_ok expires).limits
      obtain ⟨clock, settled⟩ := charges.prompt kept.queues (arrived.prompt prompt) reached
        (limits ▸ close)
      exact ⟨clock, settled.thins thins⟩

/-! ### The lazy queues over runs -/

/-- A run of calls keeps the clocks in range. -/
theorem run_ranged {calls : List Call} (invariant : Invariant self) (ranged : Ranged self.scopes)
    (stamped : ∀ packet, Call.add packet ∈ calls → InInt64 packet.stamp.timestamp)
    (returned : self.run calls = .ok (next, output))
    : Ranged next.scopes := by
  induction calls generalizing self output with
  | nil =>
    cases returned
    exact ranged
  | cons call rest ih =>
    obtain ⟨⟨middle, early⟩, calls, returned⟩ := bind_eq_ok.mp returned
    obtain ⟨⟨last, late⟩, runs, returned⟩ := bind_eq_ok.mp returned
    cases returned
    have kept := (call_invariant invariant call).of_eq_ok calls
    have fewer (packet : Packet) (member : Call.add packet ∈ rest) :=
      stamped packet (List.mem_cons_of_mem _ member)
    refine ih kept ?_ fewer runs
    cases call with
    | add packet =>
      exact (add_paced invariant calls).ranged ranged (stamped packet (List.mem_cons_self ..))
    | finishNext =>
      change self.finishNext = _ at calls
      unfold finishNext at calls
      split at calls
      · cases calls
        exact ranged
      · exact ranged.mono (remove_thins calls).clocks

/-- No direction scheduled on an interface is due before the time its clock shows. -/
def NoneOverdue (self : TcpReassembler) (id : ScopeKey) : Prop :=
  ∀ key flow scope,
    scopeKey key = id
    → self.flows.find? key = some flow
    → flow.scheduled = true
    → self.scopes.find? id = some scope
    → scope.watermark ≤ flow.deadline

theorem Prompt.noneOverdue {id : ScopeKey} {watermark : Int} (prompt : Prompt self id watermark)
    : self.NoneOverdue id := by
  intro key flow scope placed found scheduled located
  rw [prompt.clock scope located]
  exact prompt.due key flow placed found scheduled

/-- Over every run the lazily kept queues act as eager ones: they list the scheduled directions one
to one and never past their deadlines, no clock is kept without an entry, a timestamped packet
leaves nothing overdue on its clock, no assertion fails and the loop ends, and the streams are
those of the eager reassembler in the same order.
Witness: the run invariants, and the simulation that keeps both reassemblers synced.
-/
theorem run_eq_runEagerly {limits : TcpReassemblyLimits} {initial : TcpReassembler}
    (accepted : new limits = .ok initial) (calls : List Call)
    (stamped : ∀ packet, Call.add packet ∈ calls → InInt64 packet.stamp.timestamp)
    : (initial.run calls).map Prod.snd = (initial.runEagerly calls).map Prod.snd
      ∧ Ensures (initial.run calls)
          (fun result =>
            Scheduling result.1
            ∧ ∀ packet,
                packet.stamp.hasTimestamp
                → InInt64 packet.stamp.timestamp
                → Ensures (result.1.add packet)
                    (fun after => after.1.NoneOverdue (scopeKey packet.key))
                    (fun failure => failure = .streamIdsExhausted))
          (fun failure => failure = .streamIdsExhausted) := by
  have invariant := new_invariant accepted
  obtain ⟨admitted, _, rfl⟩ := new_eq_ok accepted
  refine ⟨?_, ?_⟩
  · exact ((synced_empty admitted).run invariant calls).map_eq (fun _ _ same => same.2.symm)
  · refine (run_invariant invariant calls).returned.mono ?_ (fun _ exhausted => exhausted)
    intro result ran
    obtain ⟨returned, kept⟩ := ran
    refine ⟨kept.queues, ?_⟩
    intro packet timed ranged
    have clocks : Ranged result.1.scopes :=
      run_ranged invariant (fun _ _ absent => by cases absent) stamped returned
    refine (add_ensures kept packet).returned.mono ?_ (fun _ exhausted => exhausted.1)
    intro after added
    obtain ⟨watermark, prompt⟩ := (add_paced kept added.1).prompt kept timed clocks ranged
    exact prompt.noneOverdue

/-- A byte of one of the directions on an interface. -/
def quietPacket (port : UInt16) (timestamp : Int) : Call :=
  .add
    { key := { srcPort := port }, sequence := 7, flags := 16, payload := [1], declared := 1,
      stamp := { number := 1, hasTimestamp := true, timestamp } }

def quietCalls : List Call :=
  [quietPacket 1 0, quietPacket 1 5, quietPacket 2 12, quietPacket 2 20]

/-- Where each direction is queued, with its deadline. -/
def queuePlaces (self : TcpReassembler) : List (Int × Int) :=
  self.flows.entries.map fun entry => (entry.2.queued, entry.2.deadline)

/-- At a timeout of ten the second packet leaves the first direction's entry behind its deadline,
the third moves the stale entry there, and the fourth ends the direction. The eager reassembler
emits the same stream.
-/
theorem run_eq_runEagerly_stale
    : ∃ initial,
        new { tcpIdleUs := 10 } = .ok initial
        ∧ ((initial.run (quietCalls.take 2)).map fun result => result.1.queuePlaces).toOption
          = some [(10, 15)]
        ∧ ((initial.run (quietCalls.take 3)).map fun result => result.1.queuePlaces).toOption
          = some [(15, 15), (22, 22)]
        ∧ ((initial.run quietCalls).map fun result =>
              (result.1.queuePlaces, result.2.map fun stream => (stream.streamId, stream.finalizedBy))
            ).toOption
          = some ([(22, 30)], [(1, "idle_timeout")])
        ∧ (initial.run quietCalls).map Prod.snd = (initial.runEagerly quietCalls).map Prod.snd := by
  refine ⟨_, rfl, by decide +kernel, by decide +kernel, by decide +kernel,
    (@run_eq_runEagerly { tcpIdleUs := 10 } _ rfl _ ?_).1⟩
  intro packet member
  simp only [quietCalls, quietPacket, List.mem_cons, Call.add.injEq, List.not_mem_nil,
    or_false] at member
  rcases member with rfl | rfl | rfl | rfl <;> exact ⟨by decide, by decide⟩

/-! ### No direction is ended early -/

/-- The direction a packet is accounted to, by its stream id. -/
def accountedTo (self : TcpReassembler) (packet : Packet) : Option Nat :=
  (self.locate packet).toOption.bind fun result => result.2.1.map Flow.id

/-- The stamps of the packets added, each with the direction it was accounted to. -/
def accounts : TcpReassembler → List Packet → List (Nat × PacketStamp)
  | _, [] => []
  | self, packet :: rest =>
    ((self.accountedTo packet).map fun id => (id, packet.stamp)).toList
      ++ ((self.add packet).toOption.map fun result => result.1.accounts rest).getD []

/-- The packet puts a direction back on its queue that a timestamp too late for any deadline had
taken off: the direction has only timestamped packets and is not scheduled.
-/
def Resumes (self : TcpReassembler) (packet : Packet) : Prop :=
  ∃ flow,
    self.flows.find? packet.key = some flow
    ∧ flow.scheduled = false
    ∧ flow.untimed = false
    ∧ ¬ (packet.has tcpSyn = true ∧ flow.hasSyn = true ∧ flow.synSequence ≠ packet.sequence)
    ∧ packet.stamp.hasTimestamp = true
    ∧ packet.stamp.timestamp ≤ int64Max - self.limits.tcpIdleUs

/-- No packet of the run puts such a direction back. -/
def Steady : TcpReassembler → List Packet → Prop
  | _, [] => True
  | self, packet :: rest =>
    ¬ self.Resumes packet
    ∧ ∀ next output, self.add packet = .ok (next, output) → next.Steady rest

/-- After the packets, a direction that `expire` ends at the next one had only timestamped
packets, and its clock is past the latest of them by more than the timeout.
-/
def NotEarly (initial : TcpReassembler) (packets : List Packet) (late : Packet) : Prop :=
  ∀ state output after ended key flow,
    initial.run (packets.map .add) = .ok (state, output)
    → state.expire late.key late.stamp = .ok (after, ended)
    → state.flows.find? key = some flow
    → after.flows.find? key = none
    → ∃ scope,
        state.scopes.find? (scopeKey key) = some scope
        ∧ scopeKey key = scopeKey late.key
        ∧ ∀ stamp,
            (flow.id, stamp) ∈ initial.accounts packets
            → stamp.hasTimestamp = true
              ∧ stamp.timestamp + state.limits.tcpIdleUs
                < clockAfter state.limits scope.watermark late.stamp

/-- Ids name one direction each, and a scheduled direction is due no earlier than the timeout after
any packet accounted to it.
-/
structure Dated (state : TcpReassembler) (accounts : List (Nat × PacketStamp)) : Prop where
  below : ∀ key flow, state.flows.find? key = some flow → flow.id < state.nextId
  apart
    : ∀ key flow other stored,
        state.flows.find? key = some flow
        → state.flows.find? other = some stored
        → flow.id = stored.id
        → key = other
  known : ∀ account ∈ accounts, account.1 < state.nextId
  due
    : ∀ key flow stamp,
        state.flows.find? key = some flow
        → flow.scheduled = true
        → (flow.id, stamp) ∈ accounts
        → stamp.hasTimestamp = true
          ∧ stamp.timestamp + state.limits.tcpIdleUs ≤ flow.deadline

namespace Dated

variable {accounts : List (Nat × PacketStamp)}

theorem thins (dated : Dated self accounts) (thins : Thins next self) : Dated next accounts := by
  refine ⟨?_, ?_, ?_, ?_⟩
  · intro key flow found
    obtain ⟨stored, was, same⟩ := thins.flows key flow found
    rw [thins.nextId, same]
    exact dated.below key stored was
  · intro key flow other stored found stands same
    obtain ⟨first, was, agrees⟩ := thins.flows key flow found
    obtain ⟨second, stood, matches_⟩ := thins.flows other stored stands
    rw [agrees, matches_] at same
    exact dated.apart key first other second was stood same
  · rw [thins.nextId]
    exact dated.known
  · intro key flow stamp found scheduled member
    obtain ⟨stored, was, same⟩ := thins.flows key flow found
    rw [same] at scheduled member ⊢
    rw [thins.limits]
    exact dated.due key stored stamp was scheduled member

theorem expire (dated : Dated self accounts) (returned : self.expire key stamp = .ok (next, output))
    : Dated next accounts := by
  cases expire_sweeps returned with
  | idle =>
    exact dated
  | @swept scope _ located returned =>
    refine thins ?_ (expireLoop_thins returned)
    exact ⟨dated.below, dated.apart, dated.known, dated.due⟩

theorem arrived (dated : Dated aged accounts) (arrived : Arrived aged packet next located)
    : Dated next accounts := by
  cases arrived with
  | continued => exact dated
  | ignored thinned => exact dated.thins thinned
  | rejected thinned =>
    obtain ⟨below, apart, known, due⟩ := dated.thins thinned
    exact ⟨fun key flow found => (below key flow found).trans (Nat.lt_succ_self _), apart,
      fun account member => (known account member).trans (Nat.lt_succ_self _), due⟩
  | @started middle thinned absent =>
    obtain ⟨below, apart, known, due⟩ := dated.thins thinned
    have fresh (key : TcpFlowKey) (flow : Flow) (found : middle.flows.find? key = some flow)
        : flow.id ≠ (middle.fresh packet).id :=
      (below key flow found).ne
    refine ⟨?_, ?_, ?_, ?_⟩
    · intro key flow found
      rcases OrderedMap.find?_insert_eq_some found with ⟨rfl, rfl⟩ | ⟨_, found⟩
      · exact Nat.lt_succ_self _
      · exact (below key flow found).trans (Nat.lt_succ_self _)
    · intro key flow other stored found stands same
      rcases OrderedMap.find?_insert_eq_some found with ⟨rfl, rfl⟩ | ⟨_, found⟩
      · rcases OrderedMap.find?_insert_eq_some stands with ⟨rfl, _⟩ | ⟨_, stands⟩
        · rfl
        · exact absurd same.symm (fresh other stored stands)
      · rcases OrderedMap.find?_insert_eq_some stands with ⟨rfl, rfl⟩ | ⟨_, stands⟩
        · exact absurd same (fresh key flow found)
        · exact apart key flow other stored found stands same
    · intro account member
      exact (known account member).trans (Nat.lt_succ_self _)
    · intro key flow stamp found scheduled member
      rcases OrderedMap.find?_insert_eq_some found with ⟨rfl, rfl⟩ | ⟨_, found⟩
      · cases scheduled
      · exact due key flow stamp found scheduled member

/-- Accounting the packet to its direction dates the direction.
Witness: a direction that stays on its queue only moves its deadline later, and one that joins the
queue has no earlier packet.
-/
theorem charged (dated : Dated middle accounts) (found : middle.flows.find? packet.key = some flow)
    (charged : Charged middle packet flow next stored)
    (joins
      : packet.stamp.hasTimestamp = true
        → packet.stamp.timestamp ≤ int64Max - middle.limits.tcpIdleUs
        → flow.untimed = false
        → flow.scheduled = true ∨ ∀ stamp, (flow.id, stamp) ∉ accounts)
    : Dated next (accounts ++ [(flow.id, packet.stamp)]) := by
  obtain ⟨below, apart, known, due⟩ := dated
  obtain ⟨limits, nextId, flows, id, timing⟩ := charged
  refine ⟨?_, ?_, ?_, ?_⟩
  · intro key kept stands
    rw [flows] at stands
    rw [nextId]
    rcases OrderedMap.find?_insert_eq_some stands with ⟨rfl, rfl⟩ | ⟨_, stands⟩
    · rw [id]
      exact below packet.key flow found
    · exact below key kept stands
  · intro key kept other matched stands mirrors same
    rw [flows] at stands mirrors
    rcases OrderedMap.find?_insert_eq_some stands with ⟨rfl, rfl⟩ | ⟨_, stood⟩
    · rcases OrderedMap.find?_insert_eq_some mirrors with ⟨rfl, _⟩ | ⟨_, mirrors⟩
      · rfl
      · exact apart packet.key flow other matched found mirrors (id.symm.trans same)
    · rcases OrderedMap.find?_insert_eq_some mirrors with ⟨rfl, rfl⟩ | ⟨_, mirrors⟩
      · exact apart key kept packet.key flow stood found (same.trans id)
      · exact apart key kept other matched stood mirrors same
  · intro account member
    rw [nextId]
    rcases List.mem_append.mp member with old | new
    · exact known account old
    · cases List.mem_singleton.mp new
      exact below packet.key flow found
  · intro key kept stamp stands scheduled member
    rw [flows, OrderedMap.find?_insert] at stands
    rw [limits]
    split at stands
    case isFalse other =>
      rcases List.mem_append.mp member with old | new
      · exact due key kept stamp stands scheduled old
      · simp only [List.mem_singleton, Prod.mk.injEq] at new
        exact absurd (apart key kept packet.key flow stands found new.1) other
    case isTrue =>
      cases stands
      cases timing with
      | off idle =>
        rw [idle] at scheduled
        cases scheduled
      | on timed fits tracked deadline postponed =>
        rcases List.mem_append.mp member with old | new
        · rw [id] at old
          rcases joins timed fits tracked with stays | fresh
          · obtain ⟨stamped, earlier⟩ := due packet.key flow stamp found stays old
            exact ⟨stamped, earlier.trans (postponed stays)⟩
          · exact absurd old (fresh stamp)
        · simp only [List.mem_singleton, Prod.mk.injEq] at new
          rw [new.2]
          exact ⟨timed, deadline⟩

end Dated

theorem expire_stored {other : TcpFlowKey} (returned : self.expire key stamp = .ok (next, output))
    (found : next.flows.find? other = some flow)
    : ∃ kept, self.flows.find? other = some kept ∧ flow = { kept with queued := flow.queued } := by
  cases expire_sweeps returned with
  | idle =>
    exact ⟨flow, found, rfl⟩
  | @swept scope _ located returned =>
    exact (expireLoop_thins returned).flows other flow found

/-- One packet that resumes nothing keeps every direction dated. -/
theorem Paced.dated {accounts : List (Nat × PacketStamp)} (paced : Paced self packet next)
    (invariant : Invariant self) (dated : Dated self accounts) (steady : ¬ self.Resumes packet)
    : Dated next
        (accounts ++ ((self.accountedTo packet).map fun id => (id, packet.stamp)).toList) := by
  cases paced with
  | uncharged locates expires arrived =>
    have unaccounted : self.accountedTo packet = none := by
      simp [accountedTo, locates, Except.toOption]
    rw [unaccounted, Option.map_none, Option.toList_none, List.append_nil]
    exact (dated.expire expires).arrived arrived
  | @charged aged middle stored next expired early flow changed locates expires arrived kept
      charges thins =>
      have account : self.accountedTo packet = some flow.id := by
        simp [accountedTo, locates, Except.toOption]
      have aging := (dated.expire expires)
      rw [account, Option.map_some, Option.toList_some]
      refine Dated.thins ?_ thins
      refine (aging.arrived arrived).charged arrived.found charges ?_
      intro timed fits tracked
      have limits : middle.limits = self.limits :=
        arrived.limits.trans ((expire_ensures invariant packet.stamp).of_eq_ok expires).limits
      cases arrived with
      | continued found same =>
        obtain ⟨original, was, agrees⟩ := expire_stored expires found
        by_contra unresumed
        rw [not_or] at unresumed
        apply steady
        rw [agrees] at tracked same unresumed
        exact ⟨original, was, by simpa using unresumed.1, tracked, same, timed, limits ▸ fits⟩
      | started thinned absent =>
        refine .inr fun stamp member => ?_
        exact absurd ((aging.thins thinned).known _ member) (Nat.lt_irrefl _)

theorem run_dated {accounts : List (Nat × PacketStamp)} {packets : List Packet}
    (invariant : Invariant self) (dated : Dated self accounts) (steady : self.Steady packets)
    (returned : self.run (packets.map .add) = .ok (next, output))
    : Dated next (accounts ++ self.accounts packets) := by
  induction packets generalizing self accounts output with
  | nil =>
    cases returned
    simpa [TcpReassembler.accounts] using dated
  | cons packet rest ih =>
    obtain ⟨⟨middle, early⟩, adds, returned⟩ := bind_eq_ok.mp returned
    obtain ⟨⟨last, late⟩, runs, returned⟩ := bind_eq_ok.mp returned
    cases returned
    change self.add packet = _ at adds
    have kept := ((add_ensures invariant packet).of_eq_ok adds).2
    have step := (add_paced invariant adds).dated invariant dated steady.1
    have settled := ih kept step (steady.2 middle early adds) runs
    simpa [TcpReassembler.accounts, adds, Except.toOption, List.append_assoc] using settled

theorem expire_overdue {other : TcpFlowKey} (invariant : Invariant self)
    (returned : self.expire key stamp = .ok (next, output))
    (found : self.flows.find? other = some flow) (gone : next.flows.find? other = none)
    : ∃ scope,
        self.scopes.find? (scopeKey key) = some scope
        ∧ flow.scheduled = true
        ∧ scopeKey other = scopeKey key
        ∧ flow.deadline < clockAfter self.limits scope.watermark stamp := by
  cases expire_sweeps returned with
  | idle =>
    rw [found] at gone
    cases gone
  | @swept scope _ located returned =>
    exact ⟨scope, located,
      expireLoop_overdue (advance_invariant invariant located _) returned found gone⟩

/-- In a run in which no packet resumes a direction, idle eviction is never early.
Witness: a direction ended by `expire` is past its deadline, and a dated direction's deadline is
the timeout after each of its packets.
-/
theorem steady_notEarly {limits : TcpReassemblyLimits} {initial : TcpReassembler}
    (accepted : new limits = .ok initial) {packets : List Packet}
    (steady : initial.Steady packets) (late : Packet)
    : initial.NotEarly packets late := by
  intro state output after ended key flow ran expires found gone
  have invariant := new_invariant accepted
  have kept := (run_invariant invariant _).of_eq_ok ran
  have fresh : Dated initial [] := by
    obtain ⟨_, _, rfl⟩ := new_eq_ok accepted
    constructor <;> simp
  have dated := run_dated invariant fresh steady ran
  obtain ⟨scope, located, scheduled, placed, overdue⟩ := expire_overdue kept expires found gone
  refine ⟨scope, placed ▸ located, placed, ?_⟩
  intro stamp member
  obtain ⟨timed, due⟩ := dated.due key flow stamp found scheduled member
  exact ⟨timed, lt_of_le_of_lt due overdue⟩

/-- A packet with payload `[1]` at a time. -/
def packetAt (number : Nat) (time : Int) : Packet :=
  { key := {}, sequence := 7, flags := 16, payload := [1], declared := 1,
    stamp := { number, hasTimestamp := true, timestamp := time } }

/-- Two packets of a direction, ten minutes apart. -/
theorem steady_notEarly_spaced
    : ∃ initial,
        new {} = .ok initial
        ∧ initial.Steady [packetAt 1 5]
        ∧ initial.NotEarly [packetAt 1 5] (packetAt 2 600000000) := by
  have steady (initial : TcpReassembler) (vacant : initial.flows = .empty)
      : initial.Steady [packetAt 1 5] := by
    refine ⟨?_, fun _ _ _ => trivial⟩
    intro resumes
    obtain ⟨flow, found, _⟩ := resumes
    rw [vacant] at found
    cases found
  exact ⟨_, rfl, steady _ rfl, @steady_notEarly {} _ rfl _ (steady _ rfl) _⟩

/-- A packet at the last representable time takes its direction off the queue, and a packet at
time zero puts it back with a deadline of its own. A packet just past that deadline ends the
direction, long before the timeout has passed since the first packet.
-/
theorem not_notEarly_resumed
    : ∃ initial,
        new {} = .ok initial
        ∧ ¬ initial.NotEarly [packetAt 1 int64Max, packetAt 2 0] (packetAt 3 300000001) := by
  have evaluated : (do
      let initial ← new {}
      let added ← initial.run ([packetAt 1 int64Max, packetAt 2 0].map .add)
      let aged ← added.1.expire {} (packetAt 3 300000001).stamp
      return (initial.accounts [packetAt 1 int64Max, packetAt 2 0],
        (added.1.flows.find? {}).map Flow.id, aged.1.flows.find? {},
        (added.1.scopes.find? (scopeKey {})).map Scope.watermark,
        added.1.limits.tcpIdleUs)).toOption
      = some ([(1, (packetAt 1 int64Max).stamp), (1, (packetAt 2 0).stamp)], some 1, none, some 0,
          300000000) := by
    decide +kernel
  obtain ⟨initial, made, rest⟩ := bind_eq_ok.mp (eq_ok_of_toOption evaluated)
  obtain ⟨⟨state, output⟩, ran, rest⟩ := bind_eq_ok.mp rest
  obtain ⟨⟨after, ended⟩, expires, rest⟩ := bind_eq_ok.mp rest
  simp only [pure, Except.pure, Except.ok.injEq, Prod.mk.injEq, Option.map_eq_some_iff] at rest
  obtain ⟨accounted, ⟨flow, found, id⟩, gone, ⟨scope, located, clock⟩, idle⟩ := rest
  refine ⟨initial, made, ?_⟩
  intro notEarly
  obtain ⟨stored, same, _, latest⟩ :=
    notEarly state output after ended {} flow ran expires found gone
  cases located.symm.trans same
  obtain ⟨_, early⟩ := latest (packetAt 1 int64Max).stamp (by simp [accounted, id])
  rw [clock, idle] at early
  simp [clockAfter, packetAt, int64Max] at early

end TcpReassembler

end PacketQuapture.Reassembly
