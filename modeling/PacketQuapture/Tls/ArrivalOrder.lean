import PacketQuapture.Tls.Pending

/-! Two streams are reported as the same rows whichever arrives first.
Every step but a joining moves a direction's rows between the report and the table; a joining is
decided by the two directions alone.
-/

namespace PacketQuapture.Tls

open Library Reassembly

namespace TlsHandshakeAssembler

variable {Cert : Type} {x509 : X509Parser Cert}
variable {assembler middle next : TlsHandshakeAssembler Cert}
variable {direction held : Direction Cert} {rows : List (TlsHandshake Cert)}
variable {key : TcpFlowKey}

/-! ### What is still to be reported -/

/-- The finds that give way had nothing to report. -/
theorem Sheds.finish_perm (sheds : Sheds assembler next)
    : next.finish.1.Perm assembler.finish.1 := by
  refine OrderedMap.flatMap_perm_of_left_out fun key => ?_
  rcases sheds.pending key with kept | ⟨gone, isFind⟩
  · exact .inl kept
  · obtain ⟨waiting, found, needs⟩ := holdsFind_iff.mp isFind
    exact .inr ⟨gone, waiting, found, reportAlone_find needs⟩

/-- A direction taken out is one fewer to report at the end. -/
theorem finish_removed (found : assembler.pending.find? key = some held)
    : assembler.finish.1.Perm (reportAlone held ++ (assembler.removed key held).finish.1) := by
  have split := (OrderedMap.perm_of_find? found).flatMap_right fun entry => reportAlone entry.2
  rw [List.flatMap_cons] at split
  exact split

/-- A stored direction is one more to report at the end. -/
theorem finish_stored (absent : assembler.pending.find? direction.orientedKey = none)
    : (assembler.stored direction).finish.1.Perm (reportAlone direction ++ assembler.finish.1) := by
  have split := (OrderedMap.insert_perm assembler.pending direction.orientedKey
    direction).flatMap_right fun entry => reportAlone entry.2
  rw [OrderedMap.erase_eq_self absent, List.flatMap_cons] at split
  exact split

/-- Clearing the way reports what the end would have reported. -/
theorem Clears.balance (clears : Clears assembler direction rows middle)
    : (rows ++ middle.finish.1).Perm assembler.finish.1 := by
  cases clears with
  | free => exact .refl _
  | displaced found => exact (finish_removed found).symm

theorem reportAlone_blank (blank : direction.handshakes = []) : reportAlone direction = [] := by
  unfold reportAlone
  split
  · rfl
  · split <;> simp [merge, entryCount, blank]

/-- A step that joins nothing adds the direction's own rows to what was reported or is still to be
reported; one that joins takes the peer's rows out of it.
-/
theorem Adds.balance (adds : Adds assembler direction rows next)
    : (rows ++ next.finish.1).Perm (assembler.finish.1 ++ reportAlone direction)
      ∨ ∃ held, assembler.pending.find? direction.orientedKey = some held
          ∧ direction.handshakes ≠ []
          ∧ held.client ≠ direction.client
          ∧ unconfirmedPair held direction = false
          ∧ rows = pairRows held direction
          ∧ assembler.finish.1.Perm (reportAlone held ++ next.finish.1) := by
  cases adds with
  | drops unreported sheds =>
    left
    have nothing : reportAlone direction = [] :=
      unreported.elim reportAlone_blank reportAlone_find
    rw [nothing, List.append_nil]
    exact sheds.finish_perm
  | @holds rows middle room carries clears sheds =>
    left
    have absent : (room.queued direction).pending.find? direction.orientedKey = none := by
      rw [queued_pending]
      exact sheds.absent clears.absent
    have queued : (room.queued direction).finish.1 = room.finish.1 := by
      rw [finish, finish, queued_pending]
    have placed := finish_stored absent
    rw [queued] at placed
    have moved : (rows ++ ((room.queued direction).stored direction).finish.1).Perm
        (rows ++ (room.finish.1 ++ reportAlone direction)) :=
      (placed.trans List.perm_append_comm).append_left rows
    have thinned : (rows ++ (room.finish.1 ++ reportAlone direction)).Perm
        (rows ++ middle.finish.1 ++ reportAlone direction) := by
      rw [List.append_assoc]
      exact (sheds.finish_perm.append_right _).append_left rows
    exact (moved.trans thinned).trans (clears.balance.append_right _)
  | @refuses rows middle carries clears =>
    left
    rw [List.append_assoc]
    refine (List.perm_append_comm.append_left rows).trans ?_
    rw [← List.append_assoc]
    exact clears.balance.append_right _
  | @pairs held carries found opposite joined =>
    exact .inr ⟨held, found, carries, opposite, joined, rfl, finish_removed found⟩

/-! ### The first stream -/

variable {limits : TlsHandshakeLimits Cert}

theorem refute_start (limits : TlsHandshakeLimits Cert) (stream : TcpStream)
    : ∃ refuters, ({ limits } : TlsHandshakeAssembler Cert).refute stream
        = .ok { limits, refuters } :=
  ⟨_, rfl⟩

/-- What the first stream leaves: nothing in the table, or its direction if there is any room. -/
theorem addParsed_start (limits : TlsHandshakeLimits Cert) (stream : TcpStream)
    (direction : Direction Cert)
    : (∃ refuters, direction.handshakes = []
        ∧ ({ limits } : TlsHandshakeAssembler Cert).addParsed stream direction
          = .ok ([], { limits, refuters }))
      ∨ (direction.handshakes ≠ [] ∧ limits.maxPending = 0
        ∧ ({ limits } : TlsHandshakeAssembler Cert).addParsed stream direction
          = .ok (reportAlone direction, { limits }))
      ∨ (direction.handshakes ≠ [] ∧ limits.maxPending ≠ 0
        ∧ ({ limits } : TlsHandshakeAssembler Cert).addParsed stream direction
          = .ok ([], (({ limits } : TlsHandshakeAssembler Cert).queued direction).stored
              direction)) := by
  unfold addParsed
  by_cases blank : direction.handshakes = []
  · left
    rw [if_pos blank]
    split
    case isTrue =>
      obtain ⟨refuters, refuted⟩ := refute_start limits stream
      rw [refuted]
      exact ⟨refuters, blank, rfl⟩
    case isFalse => exact ⟨[], blank, rfl⟩
  · right
    rw [if_neg blank, if_neg (fun both => by cases both.2), addDirection]
    have met : ({ limits } : TlsHandshakeAssembler Cert).meet direction
        = .ok (.waits [] { limits }) := rfl
    rw [met, ok_bind]
    dsimp only
    by_cases none : limits.maxPending = 0
    · left
      have refused : ({ limits } : TlsHandshakeAssembler Cert).refuses direction = true := by
        simp [refuses, none]
      rw [hold, if_pos refused]
      exact ⟨blank, none, rfl⟩
    · right
      refine ⟨blank, none, ?_⟩
      have refused : ({ limits } : TlsHandshakeAssembler Cert).refuses direction = false := by
        simp [refuses, none, OrderedMap.size_empty]
      have made : ({ limits } : TlsHandshakeAssembler Cert).makeRoom = .ok { limits } :=
        if_neg (fun full : limits.maxPending ≤ 0 => none (Nat.le_zero.mp full))
      rw [hold_of_makeRoom refused made (tallied_start limits).toCounted rfl
        (Nat.pos_of_ne_zero none)]
      rfl

/-! ### Two streams -/

/-- Whether two directions are joined when nothing else is around. -/
def Joins (limits : TlsHandshakeLimits Cert) (left right : Direction Cert) : Prop :=
  limits.maxPending ≠ 0 ∧ left.handshakes ≠ [] ∧ right.handshakes ≠ []
    ∧ left.orientedKey = right.orientedKey ∧ left.client ≠ right.client
    ∧ unconfirmedPair left right = false

theorem Joins.symm {left right : Direction Cert} (joins : Joins limits left right)
    : Joins limits right left := by
  obtain ⟨room, left_carries, right_carries, sameTuple, opposite, joined⟩ := joins
  refine ⟨room, right_carries, left_carries, sameTuple.symm, opposite.symm, ?_⟩
  rw [unconfirmedPair, Bool.or_comm]
  exact joined

/-- A pair of opposite roles is reported alike from either side. -/
theorem pairRows_comm {left right : Direction Cert} (opposite : left.client ≠ right.client)
    : pairRows left right = pairRows right left := by
  cases asked : right.client with
  | true =>
    have answered : left.client = false := by simpa [asked] using opposite
    simp [pairRows, asked, answered]
  | false =>
    have answered : left.client = true := by simpa [asked] using opposite
    simp [pairRows, asked, answered]

/-- Whether a direction can be added: the finds are queued, or the table is not full. -/
def Ready (assembler : TlsHandshakeAssembler Cert) : Prop :=
  assembler.Counted
    ∧ (assembler.Tallied ∨ assembler.pending.size < assembler.limits.maxPending)

/-- Adding to such a table returns.
Witness: it stays ready as directions leave it, and a table that is not full needs no room made.
-/
theorem Ready.addParsed (ready : assembler.Ready) (stream : TcpStream)
    (direction : Direction Cert)
    : ∃ result, assembler.addParsed stream direction = .ok result := by
  obtain ⟨counted, room⟩ := ready
  rcases addParsed_waits counted.counted stream direction with
    ⟨result, added, _⟩ | ⟨rows, middle, waits⟩
  · exact ⟨result, added⟩
  · rw [waits.added]
    have middleCounted := waits.drains.counts counted
    have held : ∃ result, middle.hold direction = .ok result := by
      cases admitted : middle.refuses direction with
      | true => exact ⟨_, hold_of_refuses admitted⟩
      | false =>
        rcases room with tallied | vacant
        · obtain ⟨room, made, _, after, smaller, absent, _⟩ :=
            (waits.drains.tallied tallied).makeRoom_holds admitted
          exact ⟨_, hold_of_makeRoom admitted made after.toCounted (absent waits.absent) smaller⟩
        · have smaller : middle.pending.size < middle.limits.maxPending := by
            rw [waits.drains.limits]
            exact waits.drains.size.trans_lt vacant
          exact ⟨_, hold_of_makeRoom admitted (if_neg (Nat.not_le.mpr smaller)) middleCounted
            waits.absent smaller⟩
    obtain ⟨result, held⟩ := held
    rw [held]
    exact ⟨_, rfl⟩

/-- What the first stream leaves behind for the second. -/
structure Opened (limits : TlsHandshakeLimits Cert) (direction : Direction Cert)
    (rows : List (TlsHandshake Cert)) (next : TlsHandshakeAssembler Cert)
    : Prop where
  ready : next.Ready
  sameLimits : next.limits = limits
  balance : (rows ++ next.finish.1).Perm (reportAlone direction)
  found : ∀ key held, next.pending.find? key = some held →
    limits.maxPending ≠ 0 ∧ direction.handshakes ≠ [] ∧ held = direction
      ∧ key = direction.orientedKey
  kept : limits.maxPending ≠ 0 → direction.handshakes ≠ [] →
    rows = [] ∧ next.refuters = [] ∧ next.pending.find? direction.orientedKey = some direction

/-- One direction leaves a table ready: it is full only if it has room for one, and then the key of
a find is queued.
-/
theorem ready_stored (limits : TlsHandshakeLimits Cert) (direction : Direction Cert)
    (room : limits.maxPending ≠ 0)
    : ((queued { limits } direction).stored direction).Ready := by
  have start := tallied_start limits
  have positive := Nat.pos_of_ne_zero room
  refine ⟨(start.toCounted.insert rfl positive).2, ?_⟩
  by_cases one : limits.maxPending = 1
  · refine .inl (start.insert rfl positive fun _ => ?_)
    change 0 < 2 * limits.maxPending % 2 ^ 64
    rw [one]
    decide
  · right
    change ((queued { limits } direction).pending.insert direction.orientedKey direction).size
      < (queued { limits } direction).limits.maxPending
    rw [queued_limits, queued_pending, OrderedMap.size_insert]
    change 1 < limits.maxPending
    omega

/-- What the first direction leaves in the assembler. -/
theorem addParsed_opened (limits : TlsHandshakeLimits Cert) (stream : TcpStream)
    (direction : Direction Cert)
    : ∃ result,
        ({ limits } : TlsHandshakeAssembler Cert).addParsed stream direction = .ok result
        ∧ Opened limits direction result.1 result.2 := by
  have start := tallied_start limits
  obtain ⟨⟨rows, next⟩, added⟩ :=
    Ready.addParsed ⟨start.toCounted, .inl start⟩ stream direction
  have balance : (rows ++ next.finish.1).Perm (reportAlone direction) := by
    rcases (addParsed_adds added).balance with same | ⟨_, impossible, _⟩
    · exact same
    · cases impossible
  refine ⟨(rows, next), added, ?_⟩
  rcases addParsed_start limits stream direction with
    ⟨refuters, blank, same⟩ | ⟨carries, none, same⟩ | ⟨carries, some, same⟩
  · cases added.symm.trans same
    have tallied : ({ limits, refuters } : TlsHandshakeAssembler Cert).Tallied :=
      ⟨⟨start.keyed, start.counted, start.bounded⟩, start.queued⟩
    exact ⟨⟨tallied.toCounted, .inl tallied⟩, rfl, balance, fun _ _ found => (nomatch found),
      fun _ carries => absurd blank carries⟩
  · cases added.symm.trans same
    exact ⟨⟨start.toCounted, .inl start⟩, rfl, balance, fun _ _ found => (nomatch found),
      fun room => absurd none room⟩
  · cases added.symm.trans same
    refine ⟨ready_stored limits direction some, queued_limits .., balance, ?_, ?_⟩
    · intro key held found
      rcases find?_stored direction key found with ⟨rfl, rfl⟩ | ⟨_, before⟩
      · exact ⟨some, carries, rfl, rfl⟩
      · rw [queued_pending] at before
        cases before
    · intro _ _
      refine ⟨rfl, ?_, ?_⟩
      · change (queued { limits } direction).refuters = []
        unfold queued
        split <;> rfl
      · exact OrderedMap.find?_insert_self ..

/-- A direction that meets its held peer is reported with it. -/
theorem addParsed_joins (counted : assembler.Counted) (unrefuted : assembler.refuters = [])
    (found : assembler.pending.find? direction.orientedKey = some held)
    (carries : direction.handshakes ≠ []) (opposite : held.client ≠ direction.client)
    (joined : unconfirmedPair held direction = false) (stream : TcpStream)
    : assembler.addParsed stream direction
      = .ok (pairRows held direction, assembler.removed direction.orientedKey held) := by
  have free : ¬ (direction.needsConfirmation = true ∧ assembler.refuted direction = true) := by
    intro both
    rw [refuted, unrefuted] at both
    cases both.2
  have met : assembler.meet direction = .ok (.pairs held) := by
    rw [meet, found]
    dsimp only
    rw [if_neg opposite, if_neg (by rw [joined]; decide)]
  rw [addParsed, if_neg carries, if_neg free, addDirection, met, ok_bind]
  dsimp only
  rw [release_eq counted.counted found]
  rfl

/-- Two streams that parse are joined, or reported each on its own. -/
theorem report_two {first second : TcpStream} {left right : Direction Cert}
    (leftParsed : parse x509 limits first = .ok left)
    (rightParsed : parse x509 limits second = .ok right)
    : ∃ rows, report x509 limits [first, second] = .ok rows
        ∧ (Joins limits left right ∧ rows = pairRows left right
          ∨ ¬ Joins limits left right ∧ rows.Perm (reportAlone left ++ reportAlone right)) := by
  obtain ⟨⟨shown, middle⟩, added, opened⟩ := addParsed_opened limits first left
  obtain ⟨⟨more, last⟩, added_second⟩ := opened.ready.addParsed second right
  have returned : report x509 limits [first, second]
      = .ok (shown ++ (more ++ []) ++ last.finish.1) := by
    have reparsed : parse x509 middle.limits second = .ok right := by
      rw [opened.sameLimits]
      exact rightParsed
    rw [report, run, add, leftParsed, ok_bind, added, ok_bind, run, add, reparsed, ok_bind,
      added_second]
    rfl
  rw [List.append_nil] at returned
  refine ⟨_, returned, ?_⟩
  by_cases joins : Joins limits left right
  · obtain ⟨room, leftCarries, rightCarries, sameTuple, opposite, joined⟩ := joins
    obtain ⟨nothing, unrefuted, found⟩ := opened.kept room leftCarries
    dsimp only at nothing
    rw [sameTuple] at found
    have joins := addParsed_joins opened.ready.1 unrefuted found rightCarries opposite joined second
    cases added_second.symm.trans joins
    refine .inl ⟨⟨room, leftCarries, rightCarries, sameTuple, opposite, joined⟩, ?_⟩
    have emptied : (middle.removed right.orientedKey left).pending = .empty := by
      refine OrderedMap.ext_find? fun key => ?_
      refine Option.eq_none_iff_forall_ne_some.mpr fun other stored => ?_
      obtain ⟨distinct, stored⟩ := find?_of_removed stored
      obtain ⟨_, _, _, same⟩ := opened.found key other stored
      exact distinct (same.trans sameTuple)
    rw [finish, emptied, nothing]
    simp [OrderedMap.empty]
  · refine .inr ⟨joins, ?_⟩
    rcases (addParsed_adds added_second).balance with
      same | ⟨held, found, rightCarries, opposite, joined, _, _⟩
    · rw [List.append_assoc]
      refine (same.append_left shown).trans ?_
      rw [← List.append_assoc]
      exact opened.balance.append_right _
    · obtain ⟨room, leftCarries, rfl, sameTuple⟩ := opened.found _ held found
      exact absurd ⟨room, leftCarries, rightCarries, sameTuple.symm, opposite, joined⟩ joins

/-- The rows of two streams, as a multiset, do not depend on which of them is added first. When one
of them does not parse, both orders fail.
-/
theorem report_swap (x509 : X509Parser Cert) (limits : TlsHandshakeLimits Cert)
    (first second : TcpStream)
    : (report x509 limits [first, second]).toOption.map Multiset.ofList
      = (report x509 limits [second, first]).toOption.map Multiset.ofList := by
  -- a run that returns has parsed both
  have fails {streams : List TcpStream} {stream : TcpStream} {failure : TlsFailure}
      (member : stream ∈ streams) (raised : parse x509 limits stream = .error failure)
      : (report x509 limits streams).toOption.map Multiset.ofList = none := by
    cases returned : report x509 limits streams with
    | error _ => rfl
    | ok rows =>
      obtain ⟨⟨_, _⟩, ran, _⟩ := bind_eq_ok.mp returned
      obtain ⟨direction, parsed⟩ := run_parses ran member
      rw [raised] at parsed
      cases parsed
  cases leftParsed : parse x509 limits first with
  | error => rw [fails (by simp) leftParsed, fails (by simp) leftParsed]
  | ok left =>
    cases rightParsed : parse x509 limits second with
    | error => rw [fails (by simp) rightParsed, fails (by simp) rightParsed]
    | ok right =>
      obtain ⟨rows, returned, outcome⟩ := report_two leftParsed rightParsed
      obtain ⟨others, reversed, mirrored⟩ := report_two rightParsed leftParsed
      rw [returned, reversed]
      refine congrArg some (Multiset.coe_eq_coe.mpr ?_)
      rcases outcome with ⟨joins, rfl⟩ | ⟨apart, rows_perm⟩
      · rcases mirrored with ⟨_, rfl⟩ | ⟨apart, _⟩
        · rw [pairRows_comm joins.2.2.2.2.1]
        · exact absurd joins.symm apart
      · rcases mirrored with ⟨joins, _⟩ | ⟨_, others_perm⟩
        · exact absurd joins.symm apart
        · exact (rows_perm.trans List.perm_append_comm).trans others_perm.symm

end TlsHandshakeAssembler

end PacketQuapture.Tls
