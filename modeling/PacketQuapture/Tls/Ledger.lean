import PacketQuapture.Tls.Steps

/-! The ledger of merges behind the reported rows.
Every row comes from one merge of the directions of one or two streams. A direction takes part in at
most one merge, and in exactly one unless it is a find that was dropped.
-/

namespace PacketQuapture.Tls

open Library Reassembly

variable {Cert : Type}

/-! ### Merges -/

/-- One merge: the positions in the run of the streams that gave its client and server sides. -/
structure Merging where
  client : Option Nat := none
  server : Option Nat := none
deriving DecidableEq, Repr

namespace Merging

/-- Whether a stream's direction takes part in the merge. -/
def uses (position : Nat) (merging : Merging) : Bool :=
  merging.client = some position || merging.server = some position

def clientOf (directions : List (Direction Cert)) (merging : Merging)
    : Direction Cert :=
  (merging.client.bind fun position => directions[position]?).getD {}

def serverOf (directions : List (Direction Cert)) (merging : Merging)
    : Option (Direction Cert) :=
  merging.server.bind fun position => directions[position]?

/-- The rows of a merge. -/
def rows (directions : List (Direction Cert)) (merging : Merging)
    : List (TlsHandshake Cert) :=
  merge (merging.clientOf directions) (merging.serverOf directions)

/-- The merges the assembler makes: a direction that stands on its own, in its role, or two opposite
directions of one tuple of which neither is an unconfirmed find.
-/
inductive Proper (directions : List (Direction Cert)) : Merging → Prop
  | client {position : Nat} {direction : Direction Cert}
    (parsed : directions[position]? = some direction) (carries : direction.handshakes ≠ [])
    (anchored : direction.needsConfirmation = false) (asked : direction.client = true)
    : Proper directions { client := some position }
  | server {position : Nat} {direction : Direction Cert}
    (parsed : directions[position]? = some direction) (carries : direction.handshakes ≠ [])
    (anchored : direction.needsConfirmation = false) (answered : direction.client = false)
    : Proper directions { server := some position }
  | pair {clientAt serverAt : Nat} {client server : Direction Cert}
    (clientParsed : directions[clientAt]? = some client)
    (serverParsed : directions[serverAt]? = some server) (distinct : clientAt ≠ serverAt)
    (clientCarries : client.handshakes ≠ []) (serverCarries : server.handshakes ≠ [])
    (asked : client.client = true) (answered : server.client = false)
    (sameTuple : client.orientedKey = server.orientedKey)
    (joined : unconfirmedPair client server = false)
    : Proper directions { client := some clientAt, server := some serverAt }

end Merging

theorem unconfirmedPair_comm (left right : Direction Cert)
    : unconfirmedPair left right = unconfirmedPair right left := by
  rw [unconfirmedPair, unconfirmedPair, Bool.or_comm]

/-- The merge, if any, that reports a stream's direction alone. -/
def aloneMerging (position : Nat) (direction : Direction Cert) : List Merging :=
  if direction.needsConfirmation then []
  else if direction.client then [{ client := some position }]
  else [{ server := some position }]

section Alone

variable {directions : List (Direction Cert)} {position : Nat}
variable {direction : Direction Cert}

theorem aloneMerging_rows (parsed : directions[position]? = some direction)
    : (aloneMerging position direction).flatMap (Merging.rows directions)
      = reportAlone direction := by
  rw [aloneMerging, reportAlone]
  split
  case isTrue => rfl
  case isFalse =>
    split
    case isTrue =>
      simp [Merging.rows, Merging.clientOf, Merging.serverOf, parsed]
    case isFalse =>
      simp [Merging.rows, Merging.clientOf, Merging.serverOf, parsed]

theorem aloneMerging_proper (parsed : directions[position]? = some direction)
    (carries : direction.handshakes ≠ [])
    : ∀ merging ∈ aloneMerging position direction, merging.Proper directions := by
  intro merging member
  unfold aloneMerging at member
  split at member
  case isTrue => cases member
  case isFalse finds =>
    have anchored : direction.needsConfirmation = false := by simpa using finds
    split at member
    case isTrue asked =>
      rw [List.mem_singleton.mp member]
      exact .client parsed carries anchored asked
    case isFalse answered =>
      rw [List.mem_singleton.mp member]
      exact .server parsed carries anchored (by simpa using answered)

theorem uses_aloneMerging {other : Nat} {merging : Merging}
    (member : merging ∈ aloneMerging position direction) (used : merging.uses other = true)
    : other = position := by
  unfold aloneMerging at member
  split at member
  case isTrue => cases member
  case isFalse =>
    split at member <;>
      · rw [List.mem_singleton.mp member] at used
        simpa [Merging.uses, eq_comm] using used

theorem countP_aloneMerging (other : Nat)
    : (aloneMerging position direction).countP (Merging.uses other)
      = if other = position ∧ direction.needsConfirmation = false then 1 else 0 := by
  unfold aloneMerging
  cases needs : direction.needsConfirmation with
  | true => simp
  | false =>
    by_cases same : other = position
    · cases direction.client <;> simp [Merging.uses, same]
    · have different : position ≠ other := fun reverse => same reverse.symm
      cases direction.client <;> simp [Merging.uses, same, different]

end Alone

/-! ### The ledger -/

/-- After `count` streams, what the merges so far and the table of waiting directions make of them:
`owner` names the stream whose direction waits under a key.
-/
structure Ledger (directions : List (Direction Cert)) (count : Nat)
    (pending : OrderedMap TcpFlowKey (Direction Cert)) (owner : TcpFlowKey → Nat)
    (merges : List Merging)
    : Prop where
  proper : ∀ merging ∈ merges, merging.Proper directions
  past : ∀ merging ∈ merges, ∀ position, merging.uses position = true → position < count
  owned : ∀ key direction, pending.find? key = some direction → owner key < count
    ∧ directions[owner key]? = some direction ∧ direction.orientedKey = key
    ∧ direction.handshakes ≠ []
  waiting : ∀ key direction, pending.find? key = some direction →
    merges.countP (Merging.uses (owner key)) = 0
  fate : ∀ position direction, position < count → directions[position]? = some direction →
    direction.handshakes ≠ [] →
      merges.countP (Merging.uses position) = 1
      ∨ merges.countP (Merging.uses position) = 0
        ∧ (direction.needsConfirmation = true
          ∨ pending.find? direction.orientedKey = some direction
            ∧ owner direction.orientedKey = position)

namespace Ledger

variable {directions : List (Direction Cert)} {count : Nat}
variable {pending : OrderedMap TcpFlowKey (Direction Cert)} {owner : TcpFlowKey → Nat}
variable {merges : List Merging} {key : TcpFlowKey} {direction held : Direction Cert}

theorem start (directions : List (Direction Cert))
    : Ledger directions 0 .empty (fun _ => 0) [] :=
  ⟨by simp, by simp, fun _ _ found => (nomatch found), fun _ _ found => (nomatch found),
    fun _ _ impossible => absurd impossible (Nat.not_lt_zero _)⟩

/-- A direction that is still to come is in no row. -/
theorem unused (ledger : Ledger directions count pending owner merges) {position : Nat}
    (later : count ≤ position)
    : merges.countP (Merging.uses position) = 0 := by
  refine List.countP_eq_zero.mpr fun merging member used => ?_
  have earlier := ledger.past merging member position used
  omega

/-- No two keys hold the same direction. -/
theorem owner_injective (ledger : Ledger directions count pending owner merges)
    {other : TcpFlowKey} (found : pending.find? key = some held)
    (stored : pending.find? other = some direction) (same : owner key = owner other)
    : key = other := by
  obtain ⟨_, parsed, keyed, _⟩ := ledger.owned key held found
  obtain ⟨_, reparsed, rekeyed, _⟩ := ledger.owned other direction stored
  rw [same, reparsed] at parsed
  rw [← keyed, ← rekeyed, Option.some.inj parsed]

theorem sheds {before after : TlsHandshakeAssembler Cert}
    (ledger : Ledger directions count before.pending owner merges)
    (sheds : TlsHandshakeAssembler.Sheds before after)
    : Ledger directions count after.pending owner merges := by
  refine ⟨ledger.proper, ledger.past, ?_, ?_, ?_⟩
  · exact fun key direction found => ledger.owned key direction (sheds.find? found)
  · exact fun key direction found => ledger.waiting key direction (sheds.find? found)
  · intro position direction earlier parsed carries
    rcases ledger.fate position direction earlier parsed carries with
      once | ⟨none, needs | ⟨found, owns⟩⟩
    · exact .inl once
    · exact .inr ⟨none, .inl needs⟩
    · rcases sheds.pending direction.orientedKey with kept | ⟨_, isFind⟩
      · exact .inr ⟨none, .inr ⟨kept.trans found, owns⟩⟩
      · obtain ⟨other, stored, needs⟩ := TlsHandshakeAssembler.holdsFind_iff.mp isFind
        rw [found] at stored
        rw [← Option.some.inj stored] at needs
        exact .inr ⟨none, .inl needs⟩

/-- A waiting direction is reported alone and leaves the table; a find leaves without a row. -/
theorem report (ledger : Ledger directions count pending owner merges)
    (found : pending.find? key = some held)
    : Ledger directions count (pending.erase key) owner
        (merges ++ aloneMerging (owner key) held) := by
  obtain ⟨earlier, parsed, keyed, carries⟩ := ledger.owned key held found
  refine ⟨?_, ?_, ?_, ?_, ?_⟩
  · intro merging member
    rcases List.mem_append.mp member with old | new
    · exact ledger.proper merging old
    · exact aloneMerging_proper parsed carries merging new
  · intro merging member position used
    rcases List.mem_append.mp member with old | new
    · exact ledger.past merging old position used
    · rw [uses_aloneMerging new used]
      exact earlier
  · exact fun other direction stored => ledger.owned other direction
      (OrderedMap.find?_erase_eq_some stored).2
  · intro other direction stored
    obtain ⟨distinct, stored⟩ := OrderedMap.find?_erase_eq_some stored
    have different : ¬ (owner other = owner key ∧ held.needsConfirmation = false) :=
      fun both => distinct (ledger.owner_injective stored found both.1)
    rw [List.countP_append, ledger.waiting other direction stored, countP_aloneMerging,
      if_neg different]
  · intro position direction before known nonempty
    have before_count := ledger.waiting key held found
    rw [List.countP_append, countP_aloneMerging]
    rcases ledger.fate position direction before known nonempty with
      once | ⟨none, needs | ⟨stored, owns⟩⟩
    · have different : ¬ (position = owner key ∧ held.needsConfirmation = false) := by
        intro both
        rw [both.1, before_count] at once
        cases once
      rw [once, if_neg different]
      exact .inl rfl
    · by_cases same : position = owner key ∧ held.needsConfirmation = false
      · rw [none, if_pos same]
        exact .inl rfl
      · rw [none, if_neg same]
        exact .inr ⟨rfl, .inl needs⟩
    · by_cases same : direction.orientedKey = key
      · rw [same] at stored owns
        obtain rfl := Option.some.inj (stored.symm.trans found)
        cases needs : direction.needsConfirmation with
        | true =>
          rw [none, if_neg (fun both => Bool.noConfusion both.2)]
          exact .inr ⟨rfl, .inl rfl⟩
        | false =>
          rw [none, if_pos ⟨owns.symm, rfl⟩]
          exact .inl rfl
      · have different : ¬ (position = owner key ∧ held.needsConfirmation = false) := by
          intro both
          rw [← owns] at both
          exact same (ledger.owner_injective stored found both.1)
        rw [none, if_neg different]
        exact .inr ⟨rfl, .inr ⟨(OrderedMap.find?_erase_of_ne _ same).trans stored, owns⟩⟩

/-- A direction without rows leaves the ledger as it is. -/
theorem drop (ledger : Ledger directions count pending owner merges)
    (parsed : directions[count]? = some direction)
    (unreported : direction.handshakes = [] ∨ direction.needsConfirmation = true)
    : Ledger directions (count + 1) pending owner merges := by
  refine ⟨ledger.proper, ?_, ?_, ledger.waiting, ?_⟩
  · exact fun merging member position used =>
      Nat.lt_succ_of_lt (ledger.past merging member position used)
  · intro key held found
    obtain ⟨earlier, rest⟩ := ledger.owned key held found
    exact ⟨Nat.lt_succ_of_lt earlier, rest⟩
  · intro position other before known carries
    rcases Nat.lt_succ_iff_lt_or_eq.mp before with earlier | rfl
    · exact ledger.fate position other earlier known carries
    · obtain rfl := Option.some.inj (known.symm.trans parsed)
      exact .inr ⟨ledger.unused le_rfl, .inl (unreported.resolve_left carries)⟩

/-- A direction goes into the table on a free tuple. -/
theorem hold (ledger : Ledger directions count pending owner merges)
    (parsed : directions[count]? = some direction) (carries : direction.handshakes ≠ [])
    (absent : pending.find? direction.orientedKey = none)
    : Ledger directions (count + 1) (pending.insert direction.orientedKey direction)
        (Function.update owner direction.orientedKey count) merges := by
  refine ⟨ledger.proper, ?_, ?_, ?_, ?_⟩
  · exact fun merging member position used =>
      Nat.lt_succ_of_lt (ledger.past merging member position used)
  · intro key held found
    rcases OrderedMap.find?_insert_eq_some found with ⟨rfl, rfl⟩ | ⟨distinct, found⟩
    · rw [Function.update_self]
      exact ⟨Nat.lt_succ_self _, parsed, rfl, carries⟩
    · rw [Function.update_of_ne distinct]
      obtain ⟨earlier, rest⟩ := ledger.owned key held found
      exact ⟨Nat.lt_succ_of_lt earlier, rest⟩
  · intro key held found
    rcases OrderedMap.find?_insert_eq_some found with ⟨rfl, rfl⟩ | ⟨distinct, found⟩
    · rw [Function.update_self]
      exact ledger.unused le_rfl
    · rw [Function.update_of_ne distinct]
      exact ledger.waiting key held found
  · intro position other before known nonempty
    rcases Nat.lt_succ_iff_lt_or_eq.mp before with earlier | rfl
    · rcases ledger.fate position other earlier known nonempty with
        once | ⟨none, needs | ⟨found, owns⟩⟩
      · exact .inl once
      · exact .inr ⟨none, .inl needs⟩
      · have distinct : other.orientedKey ≠ direction.orientedKey := by
          intro same
          rw [same, absent] at found
          cases found
        refine .inr ⟨none, .inr ⟨?_, ?_⟩⟩
        · rw [OrderedMap.find?_insert_of_ne _ _ distinct, found]
        · rw [Function.update_of_ne distinct, owns]
    · obtain rfl := Option.some.inj (known.symm.trans parsed)
      refine .inr ⟨ledger.unused le_rfl, .inr ⟨?_, Function.update_self ..⟩⟩
      exact OrderedMap.find?_insert_self ..

/-- A direction that finds no room is reported alone.
Witness: it is as if it were held and then reported.
-/
theorem refuse (ledger : Ledger directions count pending owner merges)
    (parsed : directions[count]? = some direction) (carries : direction.handshakes ≠ [])
    (absent : pending.find? direction.orientedKey = none)
    : Ledger directions (count + 1) pending (Function.update owner direction.orientedKey count)
        (merges ++ aloneMerging count direction) := by
  have reported := (ledger.hold parsed carries absent).report (OrderedMap.find?_insert_self ..)
  rw [Function.update_self, OrderedMap.erase_insert, OrderedMap.erase_eq_self absent] at reported
  exact reported

/-- The merge of a direction with the one that waits on its tuple. -/
def pairMerging (waits count : Nat) (direction : Direction Cert) : Merging :=
  if direction.client then { client := some count, server := some waits }
  else { client := some waits, server := some count }

theorem uses_pairMerging {waits position : Nat}
    : (pairMerging waits count direction).uses position = true
      ↔ position = count ∨ position = waits := by
  unfold pairMerging Merging.uses
  split
  case isTrue =>
    simp only [Bool.or_eq_true, decide_eq_true_eq, Option.some.injEq]
    exact ⟨fun used => used.imp Eq.symm Eq.symm, fun used => used.imp Eq.symm Eq.symm⟩
  case isFalse =>
    simp only [Bool.or_eq_true, decide_eq_true_eq, Option.some.injEq]
    exact ⟨fun used => (used.imp Eq.symm Eq.symm).symm, fun used => (used.imp Eq.symm Eq.symm).symm⟩

theorem pairMerging_rows {waits : Nat} (parsed : directions[count]? = some direction)
    (known : directions[waits]? = some held)
    : (pairMerging waits count direction).rows directions
      = TlsHandshakeAssembler.pairRows held direction := by
  unfold pairMerging TlsHandshakeAssembler.pairRows
  split <;> simp [Merging.rows, Merging.clientOf, Merging.serverOf, parsed, known]

theorem countP_pairMerging (waits position : Nat)
    : [pairMerging waits count direction].countP (Merging.uses position)
      = if position = count ∨ position = waits then 1 else 0 := by
  rw [List.countP_singleton]
  by_cases used : position = count ∨ position = waits
  · rw [if_pos used, if_pos (uses_pairMerging.mpr used)]
  · rw [if_neg used, if_neg fun both => used (uses_pairMerging.mp both)]

theorem pairMerging_proper {waits : Nat} (parsed : directions[count]? = some direction)
    (carries : direction.handshakes ≠ []) (known : directions[waits]? = some held)
    (nonempty : held.handshakes ≠ []) (earlier : waits < count)
    (keyed : held.orientedKey = direction.orientedKey) (opposite : held.client ≠ direction.client)
    (joined : unconfirmedPair held direction = false)
    : (pairMerging waits count direction).Proper directions := by
  rw [pairMerging]
  split
  case isTrue asked =>
    have answered : held.client = false := by
      rw [asked] at opposite
      simpa using opposite
    exact .pair parsed known (Nat.ne_of_gt earlier) carries nonempty asked answered keyed.symm
      ((unconfirmedPair_comm ..).trans joined)
  case isFalse answered =>
    rw [Bool.not_eq_true] at answered
    have asked : held.client = true := by
      rw [answered] at opposite
      simpa using opposite
    exact .pair known parsed (Nat.ne_of_lt earlier) nonempty carries asked answered keyed joined

/-- A direction is joined with the one that waits on its tuple. -/
theorem pair (ledger : Ledger directions count pending owner merges)
    (parsed : directions[count]? = some direction) (carries : direction.handshakes ≠ [])
    (found : pending.find? direction.orientedKey = some held)
    (opposite : held.client ≠ direction.client)
    (joined : unconfirmedPair held direction = false)
    : Ledger directions (count + 1) (pending.erase direction.orientedKey) owner
        (merges ++ [pairMerging (owner direction.orientedKey) count direction]) := by
  obtain ⟨earlier, known, keyed, nonempty⟩ := ledger.owned _ held found
  refine ⟨?_, ?_, ?_, ?_, ?_⟩
  · intro merging member
    rcases List.mem_append.mp member with old | new
    · exact ledger.proper merging old
    · rw [List.mem_singleton.mp new]
      exact pairMerging_proper parsed carries known nonempty earlier keyed opposite joined
  · intro merging member position used
    rcases List.mem_append.mp member with old | new
    · exact Nat.lt_succ_of_lt (ledger.past merging old position used)
    · rw [List.mem_singleton.mp new] at used
      rcases uses_pairMerging.mp used with rfl | rfl
      · exact Nat.lt_succ_self _
      · exact Nat.lt_succ_of_lt earlier
  · intro key other stored
    obtain ⟨before, rest⟩ := ledger.owned key other (OrderedMap.find?_erase_eq_some stored).2
    exact ⟨Nat.lt_succ_of_lt before, rest⟩
  · intro key other stored
    obtain ⟨distinct, stored⟩ := OrderedMap.find?_erase_eq_some stored
    have before := (ledger.owned key other stored).1
    have unused : ¬ (owner key = count ∨ owner key = owner direction.orientedKey) := by
      intro used
      rcases used with same | same
      · omega
      · exact distinct (ledger.owner_injective stored found same)
    rw [List.countP_append, ledger.waiting key other stored, countP_pairMerging, if_neg unused]
  · intro position other before known' nonempty'
    rw [List.countP_append, countP_pairMerging]
    by_cases used : position = count ∨ position = owner direction.orientedKey
    · have fresh : merges.countP (Merging.uses position) = 0 := by
        rcases used with rfl | rfl
        · exact ledger.unused le_rfl
        · exact ledger.waiting _ held found
      rw [fresh, if_pos used]
      exact .inl rfl
    · rw [not_or] at used
      have earlier' : position < count := by omega
      rw [if_neg (not_or.mpr used)]
      rcases ledger.fate position other earlier' known' nonempty' with
        one | ⟨none, needs | ⟨stored, owns⟩⟩
      · exact .inl one
      · exact .inr ⟨none, .inl needs⟩
      · refine .inr ⟨none, .inr ⟨?_, owns⟩⟩
        have distinct : other.orientedKey ≠ direction.orientedKey := by
          intro same
          rw [same] at owns
          exact used.2 owns.symm
        exact (OrderedMap.find?_erase_of_ne _ distinct).trans stored

end Ledger

end PacketQuapture.Tls
