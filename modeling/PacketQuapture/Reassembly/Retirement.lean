import PacketQuapture.Reassembly.Scheduling
import PacketQuapture.Reassembly.Measure

/-! Removing directions: one at a time, and in the idle-eviction loop, which ends after at most
two passes for each queued direction.
-/

namespace PacketQuapture.Reassembly

open Library

/-- The books balance and the queues match the scheduled directions. -/
structure Invariant (state : TcpReassembler) : Prop where
  books : Accounting state
  queues : Scheduling state

/-- `next` is `flows` after some directions were finished, each contributing its streams in
turn to the output; a direction that stays changes at most its place in the expiry queue.
-/
inductive Retires (limits : AcceptedLimits)
    : OrderedMap TcpFlowKey Flow → OrderedMap TcpFlowKey Flow → List TcpStream → Prop
  | refl (flows : OrderedMap TcpFlowKey Flow) : Retires limits flows flows []
  | requeue {flows next : OrderedMap TcpFlowKey Flow} {key : TcpFlowKey} {flow : Flow}
    {output : List TcpStream} (queued : Int) (found : flows.find? key = some flow)
    (later : Retires limits (flows.insert key { flow with queued }) next output)
    : Retires limits flows next output
  | retire {flows next : OrderedMap TcpFlowKey Flow} {key : TcpFlowKey} {flow : Flow}
    {messages output : List TcpStream} (reason : String)
    (found : flows.find? key = some flow) (finished : finish limits key flow = .ok messages)
    (later : Retires limits (flows.erase key) next output)
    : Retires limits flows next
        (messages.map (fun stream => { stream with finalizedBy := reason }) ++ output)

theorem Retires.trans {limits : AcceptedLimits} {first middle last : OrderedMap TcpFlowKey Flow}
    {early late : List TcpStream} (before : Retires limits first middle early)
    (after : Retires limits middle last late)
    : Retires limits first last (early ++ late) := by
  induction before with
  | refl => exact after
  | requeue queued found _ ih => exact .requeue queued found (ih after)
  | retire reason found finished _ ih =>
    rw [List.append_assoc]
    exact .retire reason found finished (ih after)

/-- A step that keeps the invariant and at most retires directions. -/
structure Retired (state next : TcpReassembler) (output : List TcpStream) : Prop where
  invariant : Invariant next
  limits : next.limits = state.limits
  nextId : next.nextId = state.nextId
  flows : Retires state.limits state.flows next.flows output

theorem Retired.refl {self : TcpReassembler} (invariant : Invariant self)
    : Retired self self [] :=
  ⟨invariant, rfl, rfl, .refl _⟩

theorem Retired.trans {self middle next : TcpReassembler} {early late : List TcpStream}
    (before : Retired self middle early) (after : Retired middle next late)
    : Retired self next (early ++ late) where
  invariant := after.invariant
  limits := after.limits.trans before.limits
  nextId := after.nextId.trans before.nextId
  flows := before.flows.trans (before.limits ▸ after.flows)

namespace TcpReassembler

variable {self : TcpReassembler} {key : TcpFlowKey}
variable {scope : Scope}

/-- Removing a direction retires it and leaves its key free.
Witness: its share is covered by the totals, and unscheduling takes its entry first.
-/
theorem remove_ensures (invariant : Invariant self) (reason : String)
    : Ensures (self.remove key reason)
        (fun result => Retired self result.1 result.2 ∧ result.1.flows = self.flows.erase key)
        (fun _ => False) := by
  unfold remove
  split
  case h_1 absent =>
    exact Ensures.ok ⟨.refl invariant, (OrderedMap.erase_eq_self absent).symm⟩
  case h_2 flow found =>
    have books : Accounting (self.attach key flow) :=
      (attach_self found).symm ▸ invariant.books
    have queues : Scheduling (self.attach key flow) :=
      (attach_self found).symm ▸ invariant.queues
    apply Ensures.require_bind books.attached_bytes_le
    apply Ensures.require_bind books.attached_segments_le
    obtain ⟨messages, finished⟩ := finish_returns self.limits key flow
    rw [finished]
    refine (unschedule_ensures queues).bind ?_
    rintro ⟨released, idle⟩ ⟨frame, unscheduled, after⟩
    dsimp only at frame unscheduled after
    generalize released.scopes = scopes at frame
    subst frame unscheduled
    refine Ensures.pure ⟨⟨⟨?_, ?_⟩, rfl, rfl, ?_⟩, rfl⟩
    · exact Accounting.discard books rfl rfl rfl rfl
    · exact after.discard rfl rfl rfl
    · have retired := Retires.retire reason found finished (.refl (self.flows.erase key))
      simpa only [List.append_nil] using retired

/-! ### The idle-eviction loop -/

/-- The passes a direction can still cost the loop: two while its entry is stale, one once it is
current, none when it is not due on this clock.
-/
def passes (id : ScopeKey) (watermark : Int) (entry : TcpFlowKey × Flow) : Nat :=
  if entry.2.scheduled = true ∧ scopeKey entry.1 = id ∧ entry.2.queued < watermark then
    if entry.2.queued < entry.2.deadline then 2 else 1
  else
    0

theorem passes_le (id : ScopeKey) (watermark : Int) (entry : TcpFlowKey × Flow)
    : passes id watermark entry ≤ 2 := by
  unfold passes
  split
  · split <;> omega
  · omega

/-- The state after a stale entry moved to its direction's deadline. -/
def requeued (self : TcpReassembler) (id : ScopeKey) (scope : Scope) (key : TcpFlowKey)
    (flow : Flow)
    : TcpReassembler :=
  attach
    { self with
      scopes := self.scopes.insert id
        { scope with
          expiry := insert (toLex (flow.deadline, key))
            (scope.expiry.erase (toLex (flow.queued, key))) } }
    key { flow with queued := flow.deadline }

/-- Moving an entry to its direction's deadline keeps the queues. -/
theorem requeue_scheduling {flow : Flow} (queues : Scheduling (self.attach key flow))
    (scheduled : flow.scheduled = true) (located : self.scopes.find? (scopeKey key) = some scope)
    : Scheduling (self.requeued (scopeKey key) scope key flow) := by
  have attached : (self.attach key flow).flows.find? key = some flow :=
    OrderedMap.find?_insert_self _ _ _
  have mine (queued : Int) (entry : toLex (queued, key) ∈ scope.expiry)
      : queued = flow.queued := by
    have member : toLex (queued, key) ∈ (self.attach key flow).expiryAt (scopeKey key) := by
      simpa [expiryAt, located] using entry
    obtain ⟨_, stored, same, _, rfl⟩ := (queues.mem_iff _ queued key).mp member
    rw [attached] at same
    cases same
    rfl
  refine queues.replace rfl ?_ ?_ ?_ ?_ (fun _ => le_rfl)
  · intro id elsewhere
    exact OrderedMap.find?_insert_of_ne _ _ elsewhere
  · intro stored same
    simp only [OrderedMap.find?_insert_self, Option.some.injEq] at same
    subst same
    exact Finset.insert_ne_empty _ _
  · intro queued
    simp only [expiryAt, OrderedMap.find?_insert_self, Option.map_some, Option.getD_some,
      Finset.mem_insert, Finset.mem_erase, EmbeddingLike.apply_eq_iff_eq, Prod.mk.injEq,
      and_true, scheduled, true_and]
    constructor
    · rintro (rfl | ⟨other, entry⟩)
      · rfl
      · exact absurd (congrArg (fun at_ => toLex (at_, key)) (mine queued entry)) other
    · rintro rfl
      exact .inl rfl
  · intro queued other distinct
    simp [expiryAt, located, distinct]

theorem requeue_invariant (invariant : Invariant self) {flow : Flow}
    (found : self.flows.find? key = some flow) (scheduled : flow.scheduled = true)
    (located : self.scopes.find? (scopeKey key) = some scope)
    : Invariant (self.requeued (scopeKey key) scope key flow) := by
  have books : Accounting (self.attach key flow) := (attach_self found).symm ▸ invariant.books
  have queues : Scheduling (self.attach key flow) := (attach_self found).symm ▸ invariant.queues
  exact ⟨books.relabel rfl rfl rfl rfl rfl, requeue_scheduling queues scheduled located⟩

/-- The loop retires directions only, within the passes the queued directions allow.
Witness: induction on the fuel; a re-queued entry is no longer stale and a removed one is gone.
-/
theorem expireLoop_ensures (id : ScopeKey) (watermark : Int) (fuel : Nat)
    (output : List TcpStream) (invariant : Invariant self)
    (enough : self.flows.sumOf (passes id watermark) < fuel)
    : Ensures (expireLoop id watermark fuel self output)
        (fun result => ∃ later, result.2 = output ++ later ∧ Retired self result.1 later)
        (fun _ => False) := by
  induction fuel generalizing self output with
  | zero => omega
  | succ fuel ih =>
    unfold expireLoop
    split
    · exact Ensures.ok ⟨[], by simp, .refl invariant⟩
    case h_2 scope located =>
      have occupied := invariant.queues.nonempty id scope located
      split
      case h_1 vacant => exact absurd (front?_eq_none_iff.mp vacant) occupied
      case h_2 entry front =>
        dsimp only
        split
        · exact Ensures.ok ⟨[], by simp, .refl invariant⟩
        case isFalse due =>
          obtain ⟨member, _⟩ := front?_eq_some_iff.mp front
          have queuedEntry : toLex (ofLex entry) ∈ self.expiryAt id := by
            simpa [expiryAt, located] using member
          obtain ⟨placed, flow, found, scheduled, queued⟩ :=
            (invariant.queues.mem_iff id (ofLex entry).1 (ofLex entry).2).mp queuedEntry
          have lag := invariant.queues.lag _ flow found scheduled
          have cost : passes id watermark ((ofLex entry).2, flow)
              = if flow.queued < flow.deadline then 2 else 1 :=
            if_pos ⟨scheduled, placed, by simp only [queued]; omega⟩
          have split_ := OrderedMap.sumOf_erase (passes id watermark) found
          rw [found]
          apply Ensures.require_bind scheduled
          apply Ensures.require_bind queued
          apply Ensures.require_bind lag
          split
          case isTrue stale =>
            have entryEq : entry = toLex (flow.queued, (ofLex entry).2) := by rw [queued]; rfl
            have kept := requeue_invariant invariant found scheduled (placed ▸ located)
            have once : passes id watermark
                ((ofLex entry).2, { flow with queued := flow.deadline }) ≤ 1 := by
              unfold passes
              split
              · simp
              · omega
            have fewer := OrderedMap.sumOf_insert (passes id watermark) self.flows
              (ofLex entry).2 { flow with queued := flow.deadline }
            subst placed
            rw [entryEq]
            rw [if_pos (by omega)] at cost
            refine (ih output kept (by simp only [requeued]; omega)).mono ?_
              (fun _ impossible => impossible)
            rintro result ⟨later, emitted, retired⟩
            exact ⟨later, emitted, retired.invariant, retired.limits, retired.nextId,
              .requeue flow.deadline found retired.flows⟩
          case isFalse current =>
            refine (remove_ensures invariant "idle_timeout").bind ?_
            rintro ⟨next, streams⟩ ⟨removed, flows⟩
            dsimp only at removed flows
            rw [if_neg (by omega)] at cost
            refine (ih (output ++ streams) removed.invariant (by rw [flows]; omega)).mono ?_
              (fun _ impossible => impossible)
            rintro result ⟨later, emitted, retired⟩
            exact ⟨streams ++ later, by rw [emitted, List.append_assoc], removed.trans retired⟩

theorem advance_scheduling (queues : Scheduling self) {id : ScopeKey}
    (located : self.scopes.find? id = some scope) (watermark : Int)
    : Scheduling { self with scopes := self.scopes.insert id { scope with watermark } } := by
  have expiry (other : ScopeKey)
      : expiryAt { self with scopes := self.scopes.insert id { scope with watermark } } other
        = self.expiryAt other := by
    by_cases same : other = id
    · simp [expiryAt, same, located]
    · simp [expiryAt, OrderedMap.find?_insert_of_ne _ _ same]
  refine ⟨?_, ?_, queues.lag⟩
  · intro other queued key
    rw [expiry]
    exact queues.mem_iff other queued key
  · intro other stored found
    rcases OrderedMap.find?_insert_eq_some found with ⟨rfl, rfl⟩ | ⟨_, found⟩
    · exact queues.nonempty _ scope located
    · exact queues.nonempty other stored found

theorem advance_invariant (invariant : Invariant self) {id : ScopeKey}
    (located : self.scopes.find? id = some scope) (watermark : Int)
    : Invariant { self with scopes := self.scopes.insert id { scope with watermark } } := by
  obtain ⟨books, queues⟩ := invariant
  exact ⟨⟨books.bytesEq, books.segmentsEq, books.bytesLe, books.segmentsLe, books.flowsLe,
    books.consistent⟩, advance_scheduling queues located watermark⟩

theorem expire_ensures (invariant : Invariant self) (stamp : PacketStamp)
    : Ensures (self.expire key stamp) (fun result => Retired self result.1 result.2)
        (fun _ => False) := by
  unfold expire
  split
  · exact Ensures.ok (.refl invariant)
  split
  · exact Ensures.ok (.refl invariant)
  case h_2 scope located =>
    dsimp only
    have bound := OrderedMap.sumOf_le_mul_size (passes (scopeKey key)
      (if stamp.timestamp < scope.watermark
          ∧ self.limits.tcpIdleUs < (scope.watermark - stamp.timestamp) % 2 ^ 64 then
        stamp.timestamp
      else max scope.watermark stamp.timestamp)) self.flows
      (fun entry _ => passes_le _ _ entry)
    refine (expireLoop_ensures _ _ _ [] (advance_invariant invariant located _)
      (by simp only; omega)).mono ?_ (fun _ impossible => impossible)
    rintro result ⟨later, emitted, retired⟩
    rw [emitted, List.nil_append]
    exact ⟨retired.invariant, retired.limits, retired.nextId, retired.flows⟩

end TcpReassembler

end PacketQuapture.Reassembly
