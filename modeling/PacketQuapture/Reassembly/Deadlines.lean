import PacketQuapture.Reassembly.LazyExpiry

/-! What each step of `add` does to the clocks and to the deadlines.
Most steps only take directions away; one step schedules the packet's own direction.
-/

namespace PacketQuapture.Reassembly

open Library

theorem ClocksFrom.refl (scopes : OrderedMap ScopeKey Scope) : ClocksFrom scopes scopes :=
  fun _ later kept => ⟨later, kept, rfl⟩

theorem ClocksFrom.trans {first middle last : OrderedMap ScopeKey Scope}
    (after : ClocksFrom last middle) (before : ClocksFrom middle first)
    : ClocksFrom last first := by
  intro id later kept
  obtain ⟨between, stood, same⟩ := after id later kept
  obtain ⟨earlier, was, agrees⟩ := before id between stood
  exact ⟨earlier, was, same.trans agrees⟩

/-! ### Steps that only take directions away -/

/-- `after` has some of the directions and clocks of `before`; a direction that stays changes at
most its place in the queue.
-/
structure Thins (after before : TcpReassembler) : Prop where
  limits : after.limits = before.limits
  nextId : after.nextId = before.nextId
  flows
    : ∀ key flow,
        after.flows.find? key = some flow
        → ∃ stored,
            before.flows.find? key = some stored
            ∧ flow = { stored with queued := flow.queued }
  clocks : ClocksFrom after.scopes before.scopes

namespace Thins

theorem refl (state : TcpReassembler) : Thins state state :=
  ⟨rfl, rfl, fun _ flow found => ⟨flow, found, rfl⟩, .refl _⟩

theorem trans {first middle last : TcpReassembler} (after : Thins last middle)
    (before : Thins middle first)
    : Thins last first := by
  refine ⟨after.limits.trans before.limits, after.nextId.trans before.nextId, ?_,
    after.clocks.trans before.clocks⟩
  intro key flow found
  obtain ⟨between, stood, same⟩ := after.flows key flow found
  obtain ⟨stored, was, agrees⟩ := before.flows key between stood
  refine ⟨stored, was, ?_⟩
  rw [same, agrees]

end Thins

namespace TcpReassembler

variable {self next : TcpReassembler} {key : TcpFlowKey} {packet : Packet}
  {output : List TcpStream}
variable {id : ScopeKey} {watermark : Int}
variable {scope : Scope} {fuel : Nat} {early : List TcpStream} {stamp : PacketStamp}

theorem remove_thins {reason : String} (returned : self.remove key reason = .ok (next, output))
    : Thins next self := by
  unfold remove at returned
  split at returned
  · cases returned
    exact .refl self
  case h_2 flow found =>
    obtain ⟨_, _, returned⟩ := bind_eq_ok.mp returned
    obtain ⟨_, _, returned⟩ := bind_eq_ok.mp returned
    obtain ⟨_, _, returned⟩ := bind_eq_ok.mp returned
    obtain ⟨⟨released, idle⟩, leaves, returned⟩ := bind_eq_ok.mp returned
    obtain ⟨limits, nextId, flows⟩ := unschedule_frame leaves
    cases returned
    refine ⟨limits, nextId, ?_, unschedule_clocks leaves⟩
    intro other stored kept
    dsimp only at kept
    rw [flows] at kept
    exact ⟨stored, (OrderedMap.find?_erase_eq_some kept).2, rfl⟩

theorem requeued_thins {flow : Flow} (located : self.scopes.find? id = some scope)
    (found : self.flows.find? key = some flow)
    : Thins (self.requeued id scope key flow) self := by
  refine ⟨rfl, rfl, ?_, ?_⟩
  · intro other stored kept
    rcases OrderedMap.find?_insert_eq_some kept with ⟨rfl, rfl⟩ | ⟨_, kept⟩
    · exact ⟨flow, found, rfl⟩
    · exact ⟨stored, kept, rfl⟩
  · intro other later kept
    rcases OrderedMap.find?_insert_eq_some kept with ⟨rfl, rfl⟩ | ⟨_, kept⟩
    · exact ⟨scope, located, rfl⟩
    · exact ⟨later, kept, rfl⟩

theorem expireLoop_thins (returned : expireLoop id watermark fuel self early = .ok (next, output))
    : Thins next self := by
  induction fuel generalizing self early with
  | zero => cases returned
  | succ fuel ih =>
    cases expireLoop_pass returned with
    | vacant _ done =>
      cases done
      exact .refl _
    | early _ _ _ done =>
      cases done
      exact .refl _
    | stale located _ found _ _ rest => exact (ih rest).trans (requeued_thins located found)
    | removed _ _ _ _ _ _ removes rest => exact (ih rest).trans (remove_thins removes)

/-- A direction the loop takes away was scheduled on this clock and past its deadline.
Witness: induction on the passes; another direction's pass leaves this one as it is, up to its
place in the queue.
-/
theorem expireLoop_overdue (invariant : Invariant self)
    (returned : expireLoop id watermark fuel self early = .ok (next, output)) {flow : Flow}
    (found : self.flows.find? key = some flow) (gone : next.flows.find? key = none)
    : flow.scheduled = true ∧ scopeKey key = id ∧ flow.deadline < watermark := by
  induction fuel generalizing self early flow with
  | zero => cases returned
  | succ fuel ih =>
    cases expireLoop_pass returned with
    | vacant _ done =>
      cases done
      rw [found] at gone
      cases gone
    | early _ _ _ done =>
      cases done
      rw [found] at gone
      cases gone
    | @stale scope other stored located front was scheduled due rest =>
      obtain ⟨placed, _⟩ := invariant.queues.entry_of_front located front
      subst placed
      have kept := requeue_invariant invariant was scheduled located
      by_cases same : key = other
      · subst same
        cases found.symm.trans was
        have moved : (self.requeued (scopeKey key) scope key flow).flows.find? key
            = some { flow with queued := flow.deadline } :=
          OrderedMap.find?_insert_self _ _ _
        have overdue := ih kept rest moved
        exact overdue
      · refine ih kept rest ?_
        exact (OrderedMap.find?_insert_of_ne _ _ same).trans found
    | @removed scope other stored middle streams located front was scheduled due current
        removes rest =>
        obtain ⟨placed, _⟩ := invariant.queues.entry_of_front located front
        obtain ⟨retired, flows⟩ := (remove_ensures invariant "idle_timeout").of_eq_ok removes
        by_cases same : key = other
        · subst same
          cases found.symm.trans was
          exact ⟨scheduled, placed, current ▸ due⟩
        · refine ih retired.invariant rest ?_
          dsimp only at flows
          rw [flows, OrderedMap.find?_erase_of_ne _ same]
          exact found

/-! ### A prompt clock -/

/-- The clock of an interface stands at `watermark` if it is kept, and no direction scheduled on it
is overdue.
-/
structure Prompt (state : TcpReassembler) (id : ScopeKey) (watermark : Int) : Prop where
  clock : ∀ scope, state.scopes.find? id = some scope → scope.watermark = watermark
  due
    : ∀ key flow,
        scopeKey key = id
        → state.flows.find? key = some flow
        → flow.scheduled = true
        → watermark ≤ flow.deadline

theorem Prompt.thins (prompt : Prompt self id watermark) (thins : Thins next self)
    : Prompt next id watermark := by
  refine ⟨?_, ?_⟩
  · intro scope located
    obtain ⟨earlier, stood, same⟩ := thins.clocks id scope located
    rw [same]
    exact prompt.clock earlier stood
  · intro key flow placed found scheduled
    obtain ⟨stored, was, same⟩ := thins.flows key flow found
    rw [same] at scheduled ⊢
    exact prompt.due key stored placed was scheduled

theorem Prompt.of_absent (queues : Scheduling self) (absent : self.scopes.find? id = none)
    (watermark : Int)
    : Prompt self id watermark := by
  refine ⟨?_, ?_⟩
  · intro scope located
    rw [absent] at located
    cases located
  · intro key flow placed found scheduled
    obtain ⟨scope, located, _⟩ := queues.scope_of_scheduled found scheduled
    rw [placed, absent] at located
    cases located

/-- The loop leaves its clock prompt.
Witness: it stops when the least queued deadline has not passed, and no real one is earlier.
-/
theorem expireLoop_prompt (invariant : Invariant self)
    (clock : ∀ scope, self.scopes.find? id = some scope → scope.watermark = watermark)
    (returned : expireLoop id watermark fuel self early = .ok (next, output))
    : Prompt next id watermark := by
  induction fuel generalizing self early with
  | zero => cases returned
  | succ fuel ih =>
    cases expireLoop_pass returned with
    | vacant absent done =>
      cases done
      exact .of_absent invariant.queues absent watermark
    | @early scope entry located front later done =>
      cases done
      refine ⟨clock, ?_⟩
      intro key flow placed found scheduled
      have member := (invariant.queues.mem_iff id flow.queued key).mpr
        ⟨placed, flow, found, scheduled, rfl⟩
      simp only [expiryAt, located, Option.map_some, Option.getD_some] at member
      have least := (front?_eq_some_iff.mp front).2 _ member
      calc watermark ≤ (ofLex entry).1 := later
        _ ≤ flow.queued := Prod.Lex.monotone_fst _ _ least
        _ ≤ flow.deadline := invariant.queues.lag key flow found scheduled
    | @stale scope key flow located front found scheduled due rest =>
      obtain ⟨placed, _⟩ := invariant.queues.entry_of_front located front
      subst placed
      refine ih (requeue_invariant invariant found scheduled located) ?_ rest
      intro later kept
      obtain ⟨stood, was, same⟩ := (requeued_thins located found).clocks _ later kept
      rw [same]
      exact clock stood was
    | removed located front found scheduled due current removes rest =>
      refine ih ((remove_ensures invariant "idle_timeout").of_eq_ok removes).1.invariant ?_ rest
      intro later kept
      obtain ⟨stood, was, same⟩ := (remove_thins removes).clocks _ later kept
      rw [same]
      exact clock stood was

theorem setClock_find? (watermark : Int) {later : Scope}
    (kept : (self.setClock id scope watermark).scopes.find? id = some later)
    : later.watermark = watermark := by
  simp only [setClock, OrderedMap.find?_insert_self, Option.some.injEq] at kept
  rw [← kept]

theorem le_clockAfter (limits : AcceptedLimits) (clock : Int) (stamp : PacketStamp)
    : stamp.timestamp ≤ clockAfter limits clock stamp := by
  unfold clockAfter
  split
  · exact le_rfl
  · exact le_max_right _ _

theorem clockAfter_le (limits : AcceptedLimits) {clock : Int}
    (near : clock - stamp.timestamp < 2 ^ 64)
    : clockAfter limits clock stamp ≤ stamp.timestamp + limits.tcpIdleUs := by
  have idle := limits.idleNonneg
  unfold clockAfter
  split
  · omega
  case isFalse steady =>
    rcases le_or_gt clock stamp.timestamp with behind | ahead
    · rw [max_eq_right behind]
      omega
    · rw [Int.emod_eq_of_lt (by omega) near] at steady
      rw [max_eq_left ahead.le]
      omega

/-- After `expire` the packet's clock is prompt, and stands between the packet and its deadline. -/
theorem expire_prompt (invariant : Invariant self) (timed : stamp.hasTimestamp)
    (near
      : ∀ scope,
          self.scopes.find? (scopeKey key) = some scope
          → scope.watermark - stamp.timestamp < 2 ^ 64)
    (returned : self.expire key stamp = .ok (next, output))
    : ∃ watermark,
        Prompt next (scopeKey key) watermark
        ∧ stamp.timestamp ≤ watermark
        ∧ watermark ≤ stamp.timestamp + self.limits.tcpIdleUs := by
  cases located : self.scopes.find? (scopeKey key) with
  | none =>
    rw [expire_untracked (.inr located)] at returned
    cases returned
    have idle := self.limits.idleNonneg
    exact ⟨stamp.timestamp, .of_absent invariant.queues located _, le_rfl, by omega⟩
  | some scope =>
    rw [expire_tracked timed located] at returned
    exact ⟨_, expireLoop_prompt (advance_invariant invariant located _)
      (fun _ kept => setClock_find? _ kept) returned, le_clockAfter _ _ _,
      clockAfter_le _ (near scope located)⟩

/-! ### Scheduling the packet's direction -/

/-- What scheduling a direction at a packet's stamp does to its clock and deadline. -/
inductive Timing (state : TcpReassembler) (key : TcpFlowKey) (flow : Flow) (stamp : PacketStamp)
    : TcpReassembler → Flow → Prop
  | off {next : TcpReassembler} {changed : Flow} (idle : changed.scheduled = false)
    (clocks : ClocksFrom next.scopes state.scopes)
    : Timing state key flow stamp next changed
  | on {next : TcpReassembler} {changed : Flow} (timed : stamp.hasTimestamp)
    (fits : stamp.timestamp ≤ int64Max - state.limits.tcpIdleUs)
    (tracked : flow.untimed = false)
    (deadline : stamp.timestamp + state.limits.tcpIdleUs ≤ changed.deadline)
    (postponed : flow.scheduled = true → flow.deadline ≤ changed.deadline)
    (clocks
      : ∀ id later,
          next.scopes.find? id = some later
          → (∃ earlier,
              state.scopes.find? id = some earlier
              ∧ (later.watermark = earlier.watermark
                  ∨ later.watermark = max earlier.watermark stamp.timestamp))
            ∨ state.scopes.find? id = none ∧ later.watermark = stamp.timestamp)
    : Timing state key flow stamp next changed

theorem unschedule_idle {flow : Flow} {result : TcpReassembler × Flow}
    (returned : self.unschedule key flow = .ok result)
    : result.2.scheduled = false := by
  unfold unschedule at returned
  split at returned
  case isTrue idle =>
    cases returned
    simpa using idle
  split at returned
  · cases returned
  · obtain ⟨_, _, stored⟩ := bind_eq_ok.mp returned
    cases stored
    rfl

/-- The clocks after `schedule` set the one of its interface. -/
theorem clocks_of_insert {scopes : OrderedMap ScopeKey Scope} {own : ScopeKey} {time : Int}
    (clock
      : scope.watermark
        = if (scopes.find? own).isNone then time
          else max ((scopes.find? own).getD {}).watermark time)
    (id : ScopeKey) (later : Scope) (kept : (scopes.insert own scope).find? id = some later)
    : (∃ earlier,
        scopes.find? id = some earlier
        ∧ (later.watermark = earlier.watermark ∨ later.watermark = max earlier.watermark time))
      ∨ scopes.find? id = none ∧ later.watermark = time := by
  rcases OrderedMap.find?_insert_eq_some kept with ⟨rfl, rfl⟩ | ⟨_, kept⟩
  · cases located : scopes.find? id with
    | none =>
      rw [located] at clock
      exact .inr ⟨rfl, clock⟩
    | some earlier =>
      rw [located] at clock
      exact .inl ⟨earlier, rfl, .inr clock⟩
  · exact .inl ⟨later, kept, .inl rfl⟩

theorem schedule_timing {flow : Flow} {changed : Flow}
    (returned : self.schedule key flow stamp = .ok (next, changed))
    : Timing self key flow stamp next changed := by
  unfold schedule at returned
  dsimp only at returned
  cases timed : stamp.hasTimestamp with
  | false =>
    simp only [timed, Bool.false_eq_true, if_false, true_or, if_true] at returned
    exact .off (unschedule_idle returned) (unschedule_clocks returned)
  | true =>
    simp only [timed, if_true] at returned
    split at returned
    · exact .off (unschedule_idle returned) (unschedule_clocks returned)
    case isFalse live =>
      have tracked : flow.untimed = false := by
        rw [Bool.eq_false_iff]
        exact fun untimed => live (.inl untimed)
      have fits : stamp.timestamp ≤ int64Max - self.limits.tcpIdleUs :=
        not_lt.mp fun beyond => live (.inr (.inr beyond))
      split at returned
      case isTrue kept =>
        cases returned
        exact .on timed fits tracked kept.2 (fun _ => le_rfl)
          (fun _ later stood => .inl ⟨later, stood, .inl rfl⟩)
      case isFalse later =>
        split at returned
        case isTrue scheduled =>
          obtain ⟨_, _, returned⟩ := bind_eq_ok.mp returned
          obtain ⟨_, _, returned⟩ := bind_eq_ok.mp returned
          cases returned
          refine .on timed fits tracked le_rfl ?_ (clocks_of_insert rfl)
          intro _
          exact (not_le.mp fun within => later ⟨scheduled, within⟩).le
        case isFalse idle =>
          cases returned
          exact .on timed fits tracked le_rfl (fun scheduled => absurd scheduled idle)
            (clocks_of_insert rfl)

/-! ### Charging a packet -/

variable {flow : Flow}

/-- A charged direction: stored back with the deadline `schedule` gave it. -/
structure Charged (state : TcpReassembler) (packet : Packet) (flow : Flow) (next : TcpReassembler)
    (stored : Flow)
    : Prop where
  limits : next.limits = state.limits
  nextId : next.nextId = state.nextId
  flows : next.flows = state.flows.insert packet.key stored
  id : stored.id = flow.id
  timing : Timing state packet.key flow packet.stamp next stored

/-- Charging a packet schedules its direction and stores it back.
Witness: the later steps of the charge leave the clocks and the timing alone.
-/
theorem absorb_charged (invariant : Invariant self) (found : self.flows.find? packet.key = some flow)
    (returned : self.absorb flow packet = .ok next)
    : ∃ stored, Charged self packet flow next stored := by
  obtain ⟨limits, nextId, _, stored, kept⟩ := (absorb_ensures invariant found).of_eq_ok returned
  obtain ⟨clocked, timed, schedules, scopes, timing⟩ := kept.scheduled
  refine ⟨stored, limits, nextId, kept.flows, kept.id, ?_⟩
  simp only [Flow.timing, Prod.mk.injEq] at timing
  obtain ⟨_, scheduled, _, deadline, _⟩ := timing
  cases schedule_timing schedules with
  | off idle clocks => exact .off (scheduled.trans idle) (scopes ▸ clocks)
  | on timed fits tracked due postponed clocks =>
    refine .on timed fits tracked (deadline ▸ due) (deadline ▸ postponed) ?_
    rw [scopes]
    exact clocks

/-! ### One packet -/

/-- How a packet finds its direction once the overdue ones are gone. -/
inductive Arrived (aged : TcpReassembler) (packet : Packet) : TcpReassembler → Option Flow → Prop
  | continued {flow : Flow} (found : aged.flows.find? packet.key = some flow)
    (same
      : ¬ (packet.has tcpSyn = true
          ∧ flow.hasSyn = true
          ∧ flow.synSequence ≠ packet.sequence))
    : Arrived aged packet aged (some flow)
  | ignored {next : TcpReassembler} (thins : Thins next aged) : Arrived aged packet next none
  | rejected {middle : TcpReassembler} (thins : Thins middle aged)
    : Arrived aged packet { middle with nextId := middle.nextId + 1 } none
  | started {middle : TcpReassembler} (thins : Thins middle aged)
    (absent : middle.flows.find? packet.key = none)
    : Arrived aged packet
        (attach { middle with nextId := middle.nextId + 1 } packet.key (middle.fresh packet))
        (some (middle.fresh packet))

theorem supersede_none (returned : self.supersede packet = .ok (next, none, output))
    : Thins next self := by
  unfold supersede at returned
  dsimp only at returned
  split at returned
  · obtain ⟨⟨middle, own⟩, removes, returned⟩ := bind_eq_ok.mp returned
    split at returned
    · obtain ⟨⟨last, reversed⟩, clears, returned⟩ := bind_eq_ok.mp returned
      cases returned
      exact (remove_thins clears).trans (remove_thins removes)
    · cases returned
      exact remove_thins removes
  · simp only [Except.ok.injEq, Prod.mk.injEq] at returned
    exact returned.1 ▸ .refl _

theorem supersede_some {located : Flow}
    (returned : self.supersede packet = .ok (next, some located, output))
    : next = self
      ∧ self.flows.find? packet.key = some located
      ∧ ¬ (packet.has tcpSyn = true
          ∧ located.hasSyn = true
          ∧ located.synSequence ≠ packet.sequence) := by
  unfold supersede at returned
  dsimp only at returned
  split at returned
  · obtain ⟨⟨middle, own⟩, removes, returned⟩ := bind_eq_ok.mp returned
    split at returned
    · obtain ⟨_, _, returned⟩ := bind_eq_ok.mp returned
      cases returned
    · cases returned
  case isFalse same =>
    simp only [Except.ok.injEq, Prod.mk.injEq] at returned
    obtain ⟨rfl, found, _⟩ := returned
    refine ⟨rfl, found, ?_⟩
    intro reopened
    rw [found] at same
    apply same
    simp [reopened]

theorem locate_arrived (invariant : Invariant self) {located : Option Flow}
    (returned : self.locate packet = .ok (next, located, output))
    : ∃ aged expired,
        self.expire packet.key packet.stamp = .ok (aged, expired)
        ∧ Arrived aged packet next located := by
  obtain ⟨⟨aged, expired⟩, expires, returned⟩ := bind_eq_ok.mp returned
  refine ⟨aged, expired, expires, ?_⟩
  obtain ⟨⟨opened, continued, superseded⟩, supersedes, returned⟩ := bind_eq_ok.mp returned
  cases continued with
  | some flow =>
    obtain ⟨unchanged, found, same⟩ := supersede_some supersedes
    cases returned
    rw [unchanged]
    exact .continued found same
  | none =>
    have thins := supersede_none supersedes
    dsimp only at returned
    split at returned
    · split at returned
      · obtain ⟨⟨last, reversed⟩, clears, returned⟩ := bind_eq_ok.mp returned
        cases returned
        exact .ignored ((remove_thins clears).trans thins)
      · cases returned
        exact .ignored thins
    · obtain ⟨⟨last, tracked, rejected⟩, tracks, returned⟩ := bind_eq_ok.mp returned
      have aging := (expire_ensures invariant packet.stamp).of_eq_ok expires
      obtain ⟨cleared, absent⟩ :=
        (supersede_ensures aging.invariant packet).of_eq_ok supersedes
      obtain ⟨tracks, _⟩ := ((track_ensures cleared.invariant absent).mono (fun _ => id)
        (fun _ => id)).of_eq_ok tracks
      cases returned
      cases tracks with
      | rejected => exact .rejected thins
      | started => exact .started thins absent

/-- What one `add` does to clocks and deadlines. -/
inductive Paced (state : TcpReassembler) (packet : Packet) : TcpReassembler → Prop
  | uncharged {aged next : TcpReassembler} {expired early : List TcpStream}
    (locates : state.locate packet = .ok (next, none, early))
    (expires : state.expire packet.key packet.stamp = .ok (aged, expired))
    (arrived : Arrived aged packet next none)
    : Paced state packet next
  | charged {aged middle stored next : TcpReassembler} {expired early : List TcpStream}
    {flow changed : Flow} (locates : state.locate packet = .ok (middle, some flow, early))
    (expires : state.expire packet.key packet.stamp = .ok (aged, expired))
    (arrived : Arrived aged packet middle (some flow))
    (invariant : Invariant middle)
    (charges : Charged middle packet flow stored changed) (thins : Thins next stored)
    : Paced state packet next

theorem reset_thins (returned : self.reset packet = .ok (next, output)) : Thins next self := by
  unfold reset at returned
  split at returned
  · obtain ⟨⟨middle, own⟩, removes, returned⟩ := bind_eq_ok.mp returned
    obtain ⟨⟨last, reversed⟩, clears, returned⟩ := bind_eq_ok.mp returned
    cases returned
    exact (remove_thins clears).trans (remove_thins removes)
  · cases returned
    exact .refl _

theorem add_paced (invariant : Invariant self) (returned : self.add packet = .ok (next, output))
    : Paced self packet next := by
  obtain ⟨⟨middle, located, early⟩, locates, returned⟩ := bind_eq_ok.mp returned
  obtain ⟨aged, expired, expires, arrived⟩ := locate_arrived invariant locates
  obtain ⟨admitted, kept⟩ := (locate_ensures invariant packet).of_eq_ok locates
  cases located with
  | none =>
    cases returned
    exact .uncharged locates expires arrived
  | some flow =>
    obtain ⟨stored, absorbs, returned⟩ := bind_eq_ok.mp returned
    obtain ⟨⟨last, ended⟩, resets, returned⟩ := bind_eq_ok.mp returned
    cases returned
    obtain ⟨changed, charges⟩ := absorb_charged kept admitted.found absorbs
    exact .charged locates expires arrived kept charges (reset_thins resets)

end TcpReassembler

end PacketQuapture.Reassembly
