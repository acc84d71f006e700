import PacketQuapture.Reassembly.Accounting

/-! The expiry queues list every scheduled direction once, under the deadline it was queued
with. That deadline may lag behind the direction's real one.
-/

namespace PacketQuapture.Reassembly

open Library

/-- The entries queued on one interface's clock; none when the clock is not kept. -/
def TcpReassembler.expiryAt (self : TcpReassembler) (id : ScopeKey)
    : Finset (Int ×ₗ TcpFlowKey) :=
  ((self.scopes.find? id).map Scope.expiry).getD ∅

@[simp] theorem TcpReassembler.expiryAt_attach (self : TcpReassembler) (key : TcpFlowKey)
    (flow : Flow) (id : ScopeKey)
    : (self.attach key flow).expiryAt id = self.expiryAt id := rfl

/-- Queue entries correspond one to one to scheduled directions, no clock is kept without an
entry, and no entry lies past its direction's deadline.
-/
structure Scheduling (state : TcpReassembler) : Prop where
  mem_iff
    : ∀ id queued key,
        toLex (queued, key) ∈ state.expiryAt id
        ↔ scopeKey key = id
          ∧ ∃ flow,
              state.flows.find? key = some flow ∧ flow.scheduled = true ∧ flow.queued = queued
  nonempty : ∀ id scope, state.scopes.find? id = some scope → scope.expiry ≠ ∅
  lag
    : ∀ key flow,
        state.flows.find? key = some flow → flow.scheduled = true → flow.queued ≤ flow.deadline

theorem scheduling_empty (limits : AcceptedLimits) : Scheduling { limits } := by
  constructor <;> simp [TcpReassembler.expiryAt]

namespace Scheduling

variable {self next : TcpReassembler} {key : TcpFlowKey} {flow changed : Flow}

theorem scope_of_scheduled (queues : Scheduling self)
    (found : self.flows.find? key = some flow) (scheduled : flow.scheduled = true)
    : ∃ scope,
        self.scopes.find? (scopeKey key) = some scope
        ∧ toLex (flow.queued, key) ∈ scope.expiry := by
  have member := (queues.mem_iff (scopeKey key) flow.queued key).mpr
    ⟨rfl, flow, found, scheduled, rfl⟩
  cases located : self.scopes.find? (scopeKey key) with
  | none => simp [TcpReassembler.expiryAt, located] at member
  | some scope => exact ⟨scope, rfl, by simpa [TcpReassembler.expiryAt, located] using member⟩

/-- Changing one direction together with its own entry keeps the correspondence.
Witness: other interfaces are untouched, and on this one only the direction's entries differ.
-/
theorem replace (queues : Scheduling (self.attach key flow)) (flows : next.flows = self.flows)
    (others
      : ∀ id, id ≠ scopeKey key → next.scopes.find? id = self.scopes.find? id)
    (occupied
      : ∀ scope, next.scopes.find? (scopeKey key) = some scope → scope.expiry ≠ ∅)
    (own
      : ∀ queued,
          toLex (queued, key) ∈ next.expiryAt (scopeKey key)
          ↔ changed.scheduled = true ∧ changed.queued = queued)
    (rest
      : ∀ queued other,
          other ≠ key
          → (toLex (queued, other) ∈ next.expiryAt (scopeKey key)
              ↔ toLex (queued, other) ∈ self.expiryAt (scopeKey key)))
    (lag : changed.scheduled = true → changed.queued ≤ changed.deadline)
    : Scheduling (next.attach key changed) := by
  have before := queues.mem_iff
  simp only [TcpReassembler.expiryAt, OrderedMap.find?_insert] at before
  constructor
  · intro id queued other
    simp only [TcpReassembler.expiryAt, flows, OrderedMap.find?_insert] at own rest ⊢
    by_cases here : id = scopeKey key
    · subst here
      by_cases same : other = key
      · subst same
        simp [own]
      · rw [rest queued other same, before]
        simp only [if_neg same]
    · rw [others id here, before]
      by_cases same : other = key
      · subst same
        constructor
        · rintro ⟨placed, _⟩
          exact absurd placed.symm here
        · rintro ⟨placed, _⟩
          exact absurd placed.symm here
      · simp only [if_neg same]
  · intro id scope found
    by_cases here : id = scopeKey key
    · exact occupied scope (here ▸ found)
    · refine queues.nonempty id scope ?_
      rw [← others id here]
      exact found
  · intro other stored found scheduled
    rcases OrderedMap.find?_insert_eq_some found with ⟨rfl, rfl⟩ | ⟨distinct, found⟩
    · exact lag scheduled
    · refine queues.lag other stored ?_ scheduled
      rwa [OrderedMap.find?_insert_of_ne _ _ distinct, ← flows]

/-- The queues ignore everything but a direction's schedule. -/
theorem relabel (queues : Scheduling (self.attach key flow))
    (flows : next.flows = self.flows) (scopes : next.scopes = self.scopes)
    (scheduled : changed.scheduled = flow.scheduled) (queued : changed.queued = flow.queued)
    (deadline : changed.deadline = flow.deadline)
    : Scheduling (next.attach key changed) := by
  have expiry (id : ScopeKey) : next.expiryAt id = self.expiryAt id := by
    simp only [TcpReassembler.expiryAt, scopes]
  have found : (self.attach key flow).flows.find? key = some flow :=
    OrderedMap.find?_insert_self _ _ _
  refine queues.replace flows (fun id _ => by rw [scopes]) ?_ ?_ ?_ ?_
  · intro scope located
    exact queues.nonempty _ scope (scopes ▸ located)
  · intro position
    rw [expiry]
    have member := queues.mem_iff (scopeKey key) position key
    rw [found] at member
    simpa [scheduled, queued] using member
  · intro position other _
    rw [expiry]
  · intro isScheduled
    rw [queued, deadline]
    exact queues.lag key flow found (scheduled ▸ isScheduled)

/-- Taking an unscheduled direction out of the table keeps the correspondence. -/
theorem discard (queues : Scheduling (self.attach key flow)) (idle : flow.scheduled = false)
    (flows : next.flows = self.flows.erase key) (scopes : next.scopes = self.scopes)
    : Scheduling next := by
  have before := queues.mem_iff
  simp only [TcpReassembler.expiryAt, OrderedMap.find?_insert] at before
  constructor
  · intro id queued other
    simp only [TcpReassembler.expiryAt, scopes, flows, OrderedMap.find?_erase]
    rw [before]
    by_cases same : other = key
    · simp [same, idle]
    · simp [same]
  · intro id scope found
    exact queues.nonempty id scope (scopes ▸ found)
  · intro other stored found scheduled
    rw [flows] at found
    obtain ⟨distinct, found⟩ := OrderedMap.find?_erase_eq_some found
    refine queues.lag other stored ?_ scheduled
    rwa [OrderedMap.find?_insert_of_ne _ _ distinct]

/-- Tracking a fresh, unscheduled direction keeps the correspondence. -/
theorem track (queues : Scheduling self) (absent : self.flows.find? key = none)
    (idle : flow.scheduled = false) (flows : next.flows = self.flows.insert key flow)
    (scopes : next.scopes = self.scopes)
    : Scheduling next := by
  have before := queues.mem_iff
  simp only [TcpReassembler.expiryAt] at before
  constructor
  · intro id queued other
    simp only [TcpReassembler.expiryAt, scopes, flows, OrderedMap.find?_insert]
    rw [before]
    by_cases same : other = key
    · simp [same, idle, absent]
    · simp [same]
  · intro id scope found
    exact queues.nonempty id scope (scopes ▸ found)
  · intro other stored found scheduled
    rw [flows] at found
    rcases OrderedMap.find?_insert_eq_some found with ⟨rfl, rfl⟩ | ⟨_, found⟩
    · rw [idle] at scheduled
      cases scheduled
    · exact queues.lag other stored found scheduled

end Scheduling

namespace TcpReassembler

variable {self : TcpReassembler} {key : TcpFlowKey} {flow : Flow}

/-! ### Leaving and joining a queue -/

/-- Unscheduling removes the direction's entry, and its clock with the last entry. -/
theorem unschedule_ensures (queues : Scheduling (self.attach key flow))
    : Ensures (self.unschedule key flow)
        (fun result =>
          result.1 = { self with scopes := result.1.scopes }
          ∧ result.2 = { flow with scheduled := false }
          ∧ Scheduling (result.1.attach key result.2))
        (fun _ => False) := by
  unfold unschedule
  split
  case isTrue idle =>
    have unscheduled : flow.scheduled = false := by simpa using idle
    refine Ensures.ok ⟨rfl, ?_, queues⟩
    cases flow
    cases unscheduled
    rfl
  case isFalse busy =>
    have scheduled : flow.scheduled = true := by simpa using busy
    have attached : (self.attach key flow).flows.find? key = some flow :=
      OrderedMap.find?_insert_self _ _ _
    obtain ⟨scope, located, member⟩ := queues.scope_of_scheduled attached scheduled
    change self.scopes.find? (scopeKey key) = some scope at located
    rw [located]
    apply Ensures.require_bind member
    refine Ensures.pure ⟨rfl, rfl, ?_⟩
    have expiry : self.expiryAt (scopeKey key) = scope.expiry := by
      simp [expiryAt, located]
    have mine (queued : Int) (entry : toLex (queued, key) ∈ scope.expiry)
        : queued = flow.queued := by
      have known := (queues.mem_iff (scopeKey key) queued key).mp (by
        change toLex (queued, key) ∈ self.expiryAt (scopeKey key)
        rwa [expiry])
      rw [attached] at known
      obtain ⟨_, _, ⟨⟩, _, rfl⟩ := known
      rfl
    -- both ways of storing the shrunken queue read back the same entries
    have after (queued : Int) (other : TcpFlowKey)
        : toLex (queued, other)
            ∈ expiryAt
                { self with
                  scopes :=
                    if scope.expiry.erase (toLex (flow.queued, key)) = ∅ then
                      self.scopes.erase (scopeKey key)
                    else
                      self.scopes.insert (scopeKey key)
                        { scope with
                          expiry := scope.expiry.erase (toLex (flow.queued, key)) } }
                (scopeKey key)
          ↔ toLex (queued, other) ∈ scope.expiry.erase (toLex (flow.queued, key)) := by
      by_cases vacant : scope.expiry.erase (toLex (flow.queued, key)) = ∅
      · simp [expiryAt, vacant]
      · simp [expiryAt, vacant]
    refine queues.replace rfl ?_ ?_ ?_ ?_ (by simp)
    · intro id elsewhere
      split
      · exact OrderedMap.find?_erase_of_ne _ elsewhere
      · exact OrderedMap.find?_insert_of_ne _ _ elsewhere
    · intro stored found
      split at found
      · simp at found
      case isFalse occupied =>
        simp only [OrderedMap.find?_insert_self, Option.some.injEq] at found
        subst found
        exact occupied
    · intro queued
      rw [after]
      simp only [Finset.mem_erase, ne_eq, Bool.false_eq_true, false_and, iff_false, not_and]
      intro other entry
      exact other (by rw [mine queued entry])
    · intro queued other distinct
      rw [after, expiry]
      simp [distinct]

/-- Scheduling touches the queues and the direction's schedule only. -/
theorem schedule_ensures (queues : Scheduling (self.attach key flow)) (stamp : PacketStamp)
    : Ensures (self.schedule key flow stamp)
        (fun result =>
          result.1 = { self with scopes := result.1.scopes }
          ∧ result.2
              = { flow with
                  scheduled := result.2.scheduled
                  untimed := result.2.untimed
                  deadline := result.2.deadline
                  queued := result.2.queued }
          ∧ Scheduling (result.1.attach key result.2))
        (fun _ => False) := by
  unfold schedule
  have marked : Scheduling (self.attach key
      (if stamp.hasTimestamp then flow else { flow with untimed := true })) := by
    split
    · exact queues
    · exact queues.relabel rfl rfl rfl rfl rfl
  have shape : (if stamp.hasTimestamp then flow else { flow with untimed := true })
      = { flow with
          untimed := (if stamp.hasTimestamp then flow else { flow with untimed := true }).untimed } := by
    split <;> rfl
  generalize (if stamp.hasTimestamp then flow else { flow with untimed := true }) = timed
    at marked shape
  dsimp only
  split
  · refine (unschedule_ensures marked).mono ?_ (fun _ => id)
    rintro result ⟨frame, changed, after⟩
    refine ⟨frame, ?_, after⟩
    rw [changed, shape]
  split
  · exact Ensures.ok ⟨rfl, by rw [shape], marked⟩
  case isFalse later =>
  have attached : (self.attach key timed).flows.find? key = some timed :=
    OrderedMap.find?_insert_self _ _ _
  split
  case isTrue scheduled =>
    obtain ⟨scope, located, member⟩ := marked.scope_of_scheduled attached scheduled
    change self.scopes.find? (scopeKey key) = some scope at located
    have lag := marked.lag key timed attached scheduled
    simp only [scheduled, true_and, not_le] at later
    apply Ensures.require_bind (by simp [located])
    apply Ensures.require_bind (by omega)
    refine Ensures.pure ⟨rfl, by rw [shape], ?_⟩
    have expiry : self.expiryAt (scopeKey key) = scope.expiry := by
      simp [expiryAt, located]
    have known := fun queued => marked.mem_iff (scopeKey key) queued key
    simp only [attached, expiryAt, located] at known
    refine marked.replace rfl ?_ ?_ ?_ ?_ (fun _ => by simp only; omega)
    · intro id elsewhere
      exact OrderedMap.find?_insert_of_ne _ _ elsewhere
    · intro stored found
      simp only [OrderedMap.find?_insert_self, Option.some.injEq, located] at found
      subst found
      exact marked.nonempty (scopeKey key) scope located
    · intro queued
      simpa [expiryAt, located] using known queued
    · intro queued other _
      simp [expiryAt, located]
  case isFalse idle =>
    have unscheduled : timed.scheduled = false := by simpa using idle
    refine Ensures.ok ⟨rfl, by rw [shape], ?_⟩
    have expiry : ((self.scopes.find? (scopeKey key)).getD {}).expiry
        = self.expiryAt (scopeKey key) := by
      cases located : self.scopes.find? (scopeKey key) <;> simp [expiryAt, located]
    have absent (queued : Int) : toLex (queued, key) ∉ self.expiryAt (scopeKey key) := by
      intro member
      obtain ⟨_, stored, found, busy, _⟩ := (marked.mem_iff (scopeKey key) queued key).mp member
      rw [attached] at found
      cases found
      rw [unscheduled] at busy
      cases busy
    refine marked.replace rfl ?_ ?_ ?_ ?_ (by simp)
    · intro id elsewhere
      exact OrderedMap.find?_insert_of_ne _ _ elsewhere
    · intro stored found
      simp only [OrderedMap.find?_insert_self, Option.some.injEq] at found
      subst found
      exact Finset.insert_ne_empty _ _
    · intro queued
      have fresh := absent queued
      rw [← expiry] at fresh
      simp only [expiryAt, OrderedMap.find?_insert_self, Option.map_some, Option.getD_some,
        Finset.mem_insert, fresh, or_false, EmbeddingLike.apply_eq_iff_eq, Prod.mk.injEq,
        and_true, true_and]
      exact eq_comm
    · intro queued other distinct
      rw [← expiry]
      simp [expiryAt, distinct]

end TcpReassembler

end PacketQuapture.Reassembly
