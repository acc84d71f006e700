import PacketQuapture.Reassembly.Ledger

/-! The ledger over whole scans: packets are added in any order and number, then every direction
is drained, and exactly one stream answers for each data packet.
-/

namespace PacketQuapture.Reassembly

open Library

/-! ### Charges -/

/-- The stream id a data packet is charged to: its direction's, or the one its rejection took. -/
def TcpReassembler.chargedId (self : TcpReassembler) (packet : Packet) : Option Nat :=
  match self.locate packet with
  | .ok (_, some flow, _) => some flow.id
  | .ok (next, none, _) => some (next.nextId - 1)
  | .error _ => none

variable {self next : TcpReassembler} {packet : Packet} {charges : List (Nat × Packet)}
  {emitted output : List TcpStream}

namespace Ledger

variable {flows : OrderedMap TcpFlowKey Flow} {nextId : Nat}

/-- Handing out an id to a stream emitted at once charges its packet to it. -/
theorem reject (ledger : Ledger flows nextId charges emitted) {stream : TcpStream}
    (numbered : stream.streamId = nextId) (accounts : stream.Accounts packet)
    : Ledger flows (nextId + 1) (charges ++ [(nextId, packet)]) (emitted ++ [stream]) := by
  constructor
  · intro key flow found
    exact Nat.lt_succ_of_lt (ledger.below key flow found)
  · exact ledger.apart
  · intro other member
    rcases List.mem_append.mp member with earlier | last
    · exact Nat.lt_succ_of_lt (ledger.emittedBelow other earlier)
    · cases List.mem_singleton.mp last
      omega
  · intro key flow found other member
    have below := ledger.below key flow found
    rcases List.mem_append.mp member with earlier | last
    · exact ledger.emittedApart key flow found other earlier
    · cases List.mem_singleton.mp last
      omega
  · rw [List.map_append, List.map_cons, List.map_nil, ← List.concat_eq_append,
      List.nodup_concat]
    refine ⟨?_, ledger.emittedNodup⟩
    intro member
    obtain ⟨other, earlier, same⟩ := List.mem_map.mp member
    have below := ledger.emittedBelow other earlier
    omega
  · exact ledger.sound
  · intro charge member
    rcases List.mem_append.mp member with earlier | last
    · refine (ledger.accounted charge earlier).imp_right ?_
      rintro ⟨other, otherIn, rest⟩
      exact ⟨other, List.mem_append_left _ otherIn, rest⟩
    · cases List.mem_singleton.mp last
      exact .inr ⟨stream, by simp, numbered, accounts⟩

/-- Tracking a fresh direction takes the next id and charges nothing yet. -/
theorem start (ledger : Ledger flows nextId charges emitted) {key : TcpFlowKey}
    (absent : flows.find? key = none) {fresh : Flow} (numbered : fresh.id = nextId)
    (sound : fresh.Sound)
    : Ledger (flows.insert key fresh) (nextId + 1) charges emitted := by
  constructor
  · intro other stored at_
    rcases OrderedMap.find?_insert_eq_some at_ with ⟨_, rfl⟩ | ⟨_, was⟩
    · omega
    · exact Nat.lt_succ_of_lt (ledger.below other stored was)
  · intro left leftFlow right rightFlow leftAt rightAt same
    rcases OrderedMap.find?_insert_eq_some leftAt with ⟨rfl, rfl⟩ | ⟨_, leftWas⟩
    · rcases OrderedMap.find?_insert_eq_some rightAt with ⟨rfl, _⟩ | ⟨_, rightWas⟩
      · rfl
      · have below := ledger.below right rightFlow rightWas
        omega
    · rcases OrderedMap.find?_insert_eq_some rightAt with ⟨rfl, rfl⟩ | ⟨_, rightWas⟩
      · have below := ledger.below left leftFlow leftWas
        omega
      · exact ledger.apart _ _ _ _ leftWas rightWas same
  · intro stream member
    exact Nat.lt_succ_of_lt (ledger.emittedBelow stream member)
  · intro other stored at_ stream member
    rcases OrderedMap.find?_insert_eq_some at_ with ⟨_, rfl⟩ | ⟨_, was⟩
    · have below := ledger.emittedBelow stream member
      omega
    · exact ledger.emittedApart other stored was stream member
  · exact ledger.emittedNodup
  · intro other stored at_
    rcases OrderedMap.find?_insert_eq_some at_ with ⟨_, rfl⟩ | ⟨_, was⟩
    · exact sound
    · exact ledger.sound other stored was
  · intro charge member
    refine (ledger.accounted charge member).imp_left ?_
    rintro ⟨held, at_, rest⟩
    have elsewhere : charge.2.key ≠ key := by
      intro same
      rw [same, absent] at at_
      cases at_
    exact ⟨held, (OrderedMap.find?_insert_of_ne _ _ elsewhere).trans at_, rest⟩

theorem charge (ledger : Ledger flows nextId charges emitted) {flow : Flow}
    (found : flows.find? packet.key = some flow) (holds : flow.Holds packet)
    : Ledger flows nextId (charges ++ [(flow.id, packet)]) emitted := by
  refine { ledger with accounted := fun charge member => ?_ }
  rcases List.mem_append.mp member with earlier | last
  · exact ledger.accounted charge earlier
  · cases List.mem_singleton.mp last
    exact .inl ⟨flow, found, rfl, holds⟩

theorem rejection_accounts (state : TcpReassembler) (packet : Packet)
    : (state.rejection packet).streamId = state.nextId
      ∧ (state.rejection packet).Accounts packet :=
  ⟨rfl, rfl, .inr (.inr rfl)⟩

theorem fresh_sound (state : TcpReassembler) (packet : Packet)
    : (state.fresh packet).Sound := by
  constructor <;> simp [TcpReassembler.fresh]

/-- Admission keeps the ledger; a packet it does not charge to a direction but that carries data
is charged to its rejection.
-/
theorem admitted (ledger : Ledger self.flows self.nextId charges emitted)
    {located : Option Flow}
    (admitted : TcpReassembler.Admitted self packet next located output)
    : next.nextId ≤ self.nextId + 1
      ∧ ∃ fresh,
          Ledger next.flows next.nextId (charges ++ fresh) (emitted ++ output)
          ∧ (located = none → 0 < packet.declared → (next.nextId - 1, packet) ∈ fresh) := by
  cases admitted with
  | located retired found =>
    have kept := ledger.retires retired.flows
    rw [← retired.nextId] at kept
    exact ⟨by rw [retired.nextId]; omega, [], by simpa using kept, by simp⟩
  | ignored retired bare =>
    have kept := ledger.retires retired.flows
    rw [← retired.nextId] at kept
    exact ⟨by rw [retired.nextId]; omega, [], by simpa using kept, by simp [bare]⟩
  | tracked retired absent tracks =>
    have kept := ledger.retires retired.flows
    rw [← retired.nextId] at kept ⊢
    cases tracks with
    | rejected =>
      obtain ⟨numbered, accounts⟩ := rejection_accounts _ packet
      rw [← List.append_assoc]
      exact ⟨le_rfl, _, kept.reject numbered accounts, by simp⟩
    | started =>
      have started := kept.start absent rfl (fresh_sound _ packet)
      exact ⟨le_rfl, [], by simpa using started, by simp⟩

/-- One `add` keeps the ledger and charges the packet's data to its stream id. -/
theorem added (ledger : Ledger self.flows self.nextId charges emitted)
    (added : TcpReassembler.Added self packet next output)
    : next.nextId ≤ self.nextId + 1
      ∧ ∃ fresh,
          Ledger next.flows next.nextId (charges ++ fresh) (emitted ++ output)
          ∧ (0 < packet.declared
              → ∃ id, self.chargedId packet = some id ∧ (id, packet) ∈ fresh) := by
  cases added with
  | uncharged admits admitted =>
    obtain ⟨bound, fresh, kept, rejected⟩ := ledger.admitted admitted
    refine ⟨bound, fresh, kept, fun data => ⟨next.nextId - 1, ?_, rejected rfl data⟩⟩
    simp only [TcpReassembler.chargedId, admits]
  | @charged middle stored _ flow absorbed early ended admits admitted absorbs limits nextId flows
      reset =>
      obtain ⟨bound, fresh, kept, _⟩ := ledger.admitted admitted
      have found := admitted.found
      obtain ⟨identified, sound, holds, own⟩ := absorbs.holds (kept.sound _ _ found)
      have replaced := kept.replace found identified sound holds
      have stays : (middle.flows.insert packet.key absorbed).find? packet.key = some absorbed :=
        OrderedMap.find?_insert_self _ _ _
      refine ⟨by rw [reset.nextId, nextId]; exact bound, ?_⟩
      rw [reset.nextId, nextId, ← List.append_assoc]
      have retired := reset.flows
      rw [flows] at retired
      by_cases data : 0 < packet.declared
      · refine ⟨fresh ++ [(absorbed.id, packet)], ?_, fun _ => ⟨absorbed.id, ?_, by simp⟩⟩
        · rw [← List.append_assoc]
          exact (replaced.charge stays (own data)).retires retired
        · simp only [TcpReassembler.chargedId, admits, identified]
      · exact ⟨fresh, replaced.retires retired, fun data' => absurd data' data⟩

end Ledger

/-! ### Scans -/

namespace TcpReassembler

/-- Draining retires every direction, one call each. -/
theorem drainLoop_ensures (fuel : Nat) (output : List TcpStream) (invariant : Invariant self)
    (enough : self.flows.size ≤ fuel)
    : Ensures (drainLoop fuel self output)
        (fun result =>
          ∃ later,
            result.2 = output ++ later
            ∧ Retired self result.1 later
            ∧ result.1.flows.size = 0)
        (fun _ => False) := by
  induction fuel generalizing self output with
  | zero =>
    have empty : self.flows.size = 0 := Nat.le_zero.mp enough
    rw [drainLoop, if_pos empty]
    exact Ensures.ok ⟨[], by simp, .refl invariant, empty⟩
  | succ fuel ih =>
    rw [drainLoop]
    split
    case isTrue empty => exact Ensures.ok ⟨[], by simp, .refl invariant, empty⟩
    case isFalse occupied =>
      refine (finishNext_ensures invariant).bind ?_
      rintro ⟨middle, streams⟩ ⟨retired, smaller⟩
      have fewer := smaller occupied
      dsimp only at retired fewer
      refine (ih (output ++ streams) retired.invariant (by omega)).mono ?_
        (fun _ impossible => impossible)
      rintro result ⟨later, emits, rest, drained⟩
      exact ⟨streams ++ later, by rw [emits, List.append_assoc], retired.trans rest, drained⟩

/-- Adding packets one by one keeps the ledger and charges the data of each.
Witness: induction over the packets; ids grow by at most one a packet, so exhausting them takes
as many packets.
-/
theorem run_ledger (invariant : Invariant self)
    (ledger : Ledger self.flows self.nextId charges emitted) (packets : List Packet)
    : Ensures (self.run (packets.map .add))
        (fun result =>
          Invariant result.1
          ∧ ∃ fresh,
              Ledger result.1.flows result.1.nextId (charges ++ fresh) (emitted ++ result.2)
              ∧ ∀ earlier packet later,
                  packets = earlier ++ packet :: later
                  → 0 < packet.declared
                  → ∃ before emits id,
                      self.run (earlier.map .add) = .ok (before, emits)
                      ∧ before.chargedId packet = some id
                      ∧ (id, packet) ∈ fresh)
        (fun failure =>
          failure = .streamIdsExhausted ∧ 2 ^ 64 - 1 < self.nextId + packets.length) := by
  induction packets generalizing self charges emitted with
  | nil => exact Ensures.ok ⟨invariant, [], by simpa using ledger, by simp⟩
  | cons packet rest ih =>
    rw [List.map_cons, run]
    refine ((add_ensures invariant packet).returned.mono (fun _ => id) ?_).bind ?_
    · rintro failure ⟨exhausted, last⟩
      exact ⟨exhausted, by rw [last, List.length_cons]; omega⟩
    rintro ⟨middle, streams⟩ ⟨adds, added, kept⟩
    dsimp only at added kept ⊢
    obtain ⟨bound, fresh, ledgerNext, charged⟩ := ledger.added added
    refine ((ih kept ledgerNext).mono (fun _ => id) ?_).bind ?_
    · rintro failure ⟨exhausted, last⟩
      exact ⟨exhausted, by rw [List.length_cons]; omega⟩
    rintro ⟨final, later⟩ ⟨settled, more, ledgerLast, chargedLater⟩
    refine Ensures.pure ⟨settled, fresh ++ more, ?_, ?_⟩
    · simpa only [List.append_assoc] using ledgerLast
    · intro earlier item suffix split data
      cases earlier with
      | nil =>
        cases split
        obtain ⟨id, chargedId, member⟩ := charged data
        exact ⟨self, [], id, rfl, chargedId, List.mem_append_left _ member⟩
      | cons first earlier =>
        cases split
        obtain ⟨before, emits, id, ran, chargedId, member⟩ :=
          chargedLater earlier item suffix rfl data
        refine ⟨before, streams ++ emits, id, ?_, chargedId, List.mem_append_right _ member⟩
        have adds' : self.call (.add packet) = .ok (middle, streams) := adds
        rw [List.map_cons, run, adds']
        change (middle.run _ >>= _) = _
        rw [ran]
        rfl

theorem new_ledger {limits : TcpReassemblyLimits} (accepted : new limits = .ok self)
    : Ledger self.flows self.nextId [] [] ∧ self.nextId = 1 := by
  obtain ⟨_, _, rfl⟩ := new_eq_ok accepted
  exact ⟨ledger_empty, rfl⟩

theorem filter_streamId_eq_singleton {streams : List TcpStream}
    (distinct : (streams.map TcpStream.streamId).Nodup) {stream : TcpStream}
    (member : stream ∈ streams)
    : streams.filter (fun other => other.streamId = stream.streamId) = [stream] := by
  induction streams with
  | nil => cases member
  | cons head rest ih =>
    obtain ⟨absent, distinctRest⟩ := List.nodup_cons.mp distinct
    rcases List.mem_cons.mp member with rfl | later
    · rw [List.filter_cons_of_pos (by simp), List.filter_eq_nil_iff.mpr]
      intro other otherIn same
      exact absent (List.mem_map.mpr ⟨other, otherIn, by simpa using same⟩)
    · rw [List.filter_cons_of_neg, ih distinctRest later]
      intro same
      exact absent (List.mem_map.mpr ⟨stream, later, (of_decide_eq_true same).symm⟩)

theorem filter_streamId_length_le_one {streams : List TcpStream}
    (distinct : (streams.map TcpStream.streamId).Nodup) (id : Nat)
    : (streams.filter fun stream => stream.streamId = id).length ≤ 1 := by
  by_cases present : ∃ stream ∈ streams, stream.streamId = id
  · obtain ⟨stream, member, rfl⟩ := present
    rw [filter_streamId_eq_singleton distinct member]
    exact le_rfl
  · rw [List.filter_eq_nil_iff.mpr]
    · exact Nat.zero_le _
    · intro stream member same
      exact present ⟨stream, member, by simpa using same⟩

/-- What a scan of `packets` from `initial` delivers. The table ends empty and ids are pairwise
distinct. Every data packet is answered for by the one stream emitted under the id the packet
was charged to when it arrived. Directions tracked at once differ in their ids, so each is
emitted at most once.
-/
structure Delivers (initial : TcpReassembler) (packets : List Packet)
    (result : TcpReassembler × List TcpStream)
    : Prop where
  emptied : result.1.flows.size = 0
  distinct : (result.2.map TcpStream.streamId).Nodup
  accounted
    : ∀ earlier packet later,
        packets = earlier ++ packet :: later
        → 0 < packet.declared
        → packet.payload.length ≤ packet.declared.toNat
        → ∃ before emits id stream,
            initial.run (earlier.map .add) = .ok (before, emits)
            ∧ before.chargedId packet = some id
            ∧ result.2.filter (fun other => other.streamId = id) = [stream]
            ∧ stream.Accounts packet
  once
    : ∀ earlier later before emits,
        packets = earlier ++ later
        → initial.run (earlier.map .add) = .ok (before, emits)
        → ∀ key flow,
            before.flows.find? key = some flow
            → (∀ other stored,
                before.flows.find? other = some stored → stored.id = flow.id → other = key)
              ∧ (result.2.filter fun stream => stream.streamId = flow.id).length ≤ 1

/-- Every scan delivers, unless it runs out of ids, which takes 2^64 - 1 packets. -/
theorem scan_delivers {limits : TcpReassemblyLimits} {initial : TcpReassembler}
    (accepted : new limits = .ok initial) (packets : List Packet)
    : Ensures (initial.scan packets) (Delivers initial packets)
        (fun failure => failure = .streamIdsExhausted ∧ 2 ^ 64 - 1 ≤ packets.length) := by
  have invariant := new_invariant accepted
  obtain ⟨ledger, first⟩ := new_ledger accepted
  rw [scan]
  refine ((run_ledger invariant ledger packets).mono (fun _ => id) ?_).bind ?_
  · rintro failure ⟨exhausted, last⟩
    exact ⟨exhausted, by omega⟩
  rintro ⟨added, streams⟩ ⟨settled, charges, kept, charged⟩
  refine ((drainLoop_ensures added.flows.size [] settled le_rfl).mono (fun _ => id)
    (fun _ impossible => impossible.elim)).bind ?_
  rintro ⟨final, drained⟩ ⟨later, emits, retired, empty⟩
  rw [List.nil_append] at emits
  dsimp only at kept charged emits retired empty
  subst emits
  have closed := kept.retires retired.flows
  rw [List.nil_append, List.nil_append] at closed
  refine Ensures.pure ⟨empty, closed.emittedNodup, ?_, ?_⟩
  · intro earlier packet later split data _
    obtain ⟨before, emits, id, ran, chargedId, member⟩ := charged earlier packet later split data
    refine ⟨before, emits, id, ?_⟩
    rcases closed.accounted (id, packet) member with ⟨flow, found, _⟩ | ⟨stream, streamIn, rfl, rest⟩
    · have vacant : final.flows = .empty := OrderedMap.ext_entries (List.length_eq_zero_iff.mp empty)
      rw [vacant] at found
      simp at found
    · exact ⟨stream, ran, chargedId, filter_streamId_eq_singleton closed.emittedNodup streamIn,
        rest⟩
  · intro earlier later before emits _ ran key flow found
    obtain ⟨_, _, reached, _⟩ := (run_ledger invariant ledger earlier).of_eq_ok ran
    exact ⟨fun other stored at_ same => reached.apart other stored key flow at_ found same,
      filter_streamId_length_le_one closed.emittedNodup flow.id⟩

/-- Two bytes of data, and the SYN they follow captured after them. -/
def lateSyn : List Packet :=
  [{ key := {}, sequence := 8, flags := 16, payload := [1, 2], declared := 2,
      stamp := { number := 1 } },
    { key := {}, sequence := 7, flags := 2, payload := [], declared := 0,
      stamp := { number := 2 } }]

/-- Under the default limits, data that arrives before its SYN is delivered. -/
theorem scan_delivers_lateSyn
    : ∃ initial,
        new {} = .ok initial
        ∧ Ensures (initial.scan lateSyn) (Delivers initial lateSyn)
            (fun failure => failure = .streamIdsExhausted ∧ 2 ^ 64 - 1 ≤ lateSyn.length) :=
  ⟨_, rfl, @scan_delivers {} _ rfl _⟩

end TcpReassembler

end PacketQuapture.Reassembly
