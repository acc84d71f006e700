import PacketQuapture.Library.Lists
import PacketQuapture.Tls.HelloFields
import PacketQuapture.Tls.Ledger

/-! No hello is lost or reported twice: the rows of a run are exactly the entries of its directions,
joined by position, and only finds may be left out.
-/

namespace PacketQuapture.Tls

open Library Reassembly

variable {Cert : Type} {x509 : X509Parser Cert}

/-! ### The ledger along a run -/

namespace Ledger

open TlsHandshakeAssembler (Clears Adds)

variable {directions : List (Direction Cert)} {count : Nat}
variable {assembler next : TlsHandshakeAssembler Cert} {owner : TcpFlowKey → Nat}
variable {merges : List Merging} {direction : Direction Cert}
variable {rows : List (TlsHandshake Cert)}

/-- Clearing the way keeps the ledger. -/
theorem clears (ledger : Ledger directions count assembler.pending owner merges)
    (clears : Clears assembler direction rows next)
    : ∃ added, rows = added.flatMap (Merging.rows directions)
        ∧ Ledger directions count next.pending owner (merges ++ added) := by
  cases clears with
  | free => exact ⟨[], rfl, by rwa [List.append_nil]⟩
  | displaced found =>
    obtain ⟨_, parsed, _⟩ := ledger.owned _ _ found
    exact ⟨_, (aloneMerging_rows parsed).symm, ledger.report found⟩

/-- Every step of the assembler keeps the ledger, and its rows are those of the merges it adds. -/
theorem adds (ledger : Ledger directions count assembler.pending owner merges)
    (parsed : directions[count]? = some direction) (adds : Adds assembler direction rows next)
    : ∃ owner added, rows = added.flatMap (Merging.rows directions)
        ∧ Ledger directions (count + 1) next.pending owner (merges ++ added) := by
  cases adds with
  | drops unreported sheds =>
    refine ⟨owner, [], rfl, ?_⟩
    rw [List.append_nil]
    exact (ledger.drop parsed unreported).sheds sheds
  | holds carries clears sheds =>
    obtain ⟨added, shown, cleared⟩ := ledger.clears clears
    have placed := (cleared.sheds sheds).hold parsed carries (sheds.absent clears.absent)
    refine ⟨Function.update owner direction.orientedKey count, added, shown, ?_⟩
    rw [TlsHandshakeAssembler.stored, TlsHandshakeAssembler.queued_pending]
    exact placed
  | @refuses shown middle carries clears =>
    obtain ⟨added, same, cleared⟩ := ledger.clears clears
    refine ⟨Function.update owner direction.orientedKey count,
      added ++ aloneMerging count direction, ?_, ?_⟩
    · rw [List.flatMap_append, same, aloneMerging_rows parsed]
    · rw [← List.append_assoc]
      exact cleared.refuse parsed carries clears.absent
  | @pairs held carries found opposite joined =>
    obtain ⟨_, known, _⟩ := ledger.owned _ _ found
    refine ⟨owner, [pairMerging (owner direction.orientedKey) count direction], ?_,
      ledger.pair parsed carries found opposite joined⟩
    rw [List.flatMap_singleton, pairMerging_rows parsed known]

/-- The directions still waiting at the end are reported alone, one after the other. -/
theorem finish {pending : OrderedMap TcpFlowKey (Direction Cert)}
    (ledger : Ledger directions count pending owner merges)
    : ∃ added, (pending.entries.flatMap fun entry => reportAlone entry.2)
          = added.flatMap (Merging.rows directions)
        ∧ Ledger directions count .empty owner (merges ++ added) := by
  obtain ⟨size, bound⟩ : ∃ size, pending.entries.length = size := ⟨_, rfl⟩
  induction size generalizing pending merges with
  | zero =>
    have empty : pending = .empty :=
      OrderedMap.ext_entries (List.eq_nil_of_length_eq_zero bound)
    subst empty
    exact ⟨[], rfl, by rwa [List.append_nil]⟩
  | succ size ih =>
    obtain ⟨head, rest, entries⟩ := List.exists_cons_of_length_eq_add_one bound
    have found : pending.find? head.1 = some head.2 :=
      OrderedMap.find?_eq_some_iff.mpr (by rw [entries]; exact List.mem_cons_self)
    have tail := OrderedMap.entries_erase_head entries
    obtain ⟨_, parsed, _⟩ := ledger.owned _ _ found
    obtain ⟨added, shown, final⟩ := ih (ledger.report found) (by
      rw [tail]
      simpa [entries] using bound)
    refine ⟨aloneMerging (owner head.1) head.2 ++ added, ?_, ?_⟩
    · rw [entries, List.flatMap_cons, List.flatMap_append, aloneMerging_rows parsed, ← shown, tail]
    · rw [← List.append_assoc]
      exact final

end Ledger

/-- A run keeps the ledger.
Witness: induction on the run; the directions still to come are those past the count.
-/
theorem Ledger.runs {directions rest : List (Direction Cert)} {count : Nat}
    {assembler last : TlsHandshakeAssembler Cert} {owner : TcpFlowKey → Nat}
    {merges : List Merging} {rows : List (TlsHandshake Cert)}
    (ledger : Ledger directions count assembler.pending owner merges)
    (coming : directions.drop count = rest)
    (runs : TlsHandshakeAssembler.Runs assembler rest rows last)
    : ∃ owner added, rows = added.flatMap (Merging.rows directions)
        ∧ Ledger directions (count + rest.length) last.pending owner (merges ++ added) := by
  induction runs generalizing count owner merges with
  | nil => exact ⟨owner, [], rfl, by rwa [List.append_nil]⟩
  | @cons assembler next last direction rest shown more adds later ih =>
    have parsed : directions[count]? = some direction := by
      rw [← List.head?_drop, coming]
      rfl
    have left : directions.drop (count + 1) = rest := by
      rw [← List.tail_drop, coming]
      rfl
    obtain ⟨_, added, same, stepped⟩ := ledger.adds parsed adds
    obtain ⟨owner, others, equal, final⟩ := ih stepped left
    refine ⟨owner, added ++ others, ?_, ?_⟩
    · rw [List.flatMap_append, same, equal]
    · rw [List.append_assoc, Nat.add_assoc, Nat.add_comm 1] at final
      exact final

/-! ### Rows and their halves -/

/-- Where one row comes from: a merge, and the place of the joined entries in their directions. -/
structure Origin where
  merging : Merging
  index : Nat
deriving DecidableEq, Repr

namespace Origin

variable {directions : List (Direction Cert)}

/-- The row an origin stands for. -/
def row (directions : List (Direction Cert)) (origin : Origin) : TlsHandshake Cert :=
  mergeRow (origin.merging.clientOf directions) (origin.merging.serverOf directions) origin.index

/-- The entry that is the row's client half. -/
def clientHalf (directions : List (Direction Cert)) (origin : Origin)
    : Option (TlsHandshake Cert) :=
  (origin.merging.clientOf directions).handshakes[origin.index]?

/-- The entry that is the row's server half. -/
def serverHalf (directions : List (Direction Cert)) (origin : Origin)
    : Option (TlsHandshake Cert) :=
  entryOf (origin.merging.serverOf directions) origin.index

/-- A row shows its two halves. -/
theorem row_shown (directions : List (Direction Cert)) (origin : Origin)
    : { (origin.row directions).shown with hasResumed := false }
      = joinedShown (origin.clientHalf directions) (origin.serverHalf directions) origin.index :=
  mergeRow_shown

/-- Whether an entry of a stream's direction is the client or the server half of the row. -/
def halfOf (directions : List (Direction Cert)) (position : Nat) (origin : Origin) : Bool :=
  origin.merging.uses position && origin.index < entryCount directions[position]?

end Origin

namespace Merging

variable {directions : List (Direction Cert)} {position : Nat} {merging : Merging}

/-- How many rows a merge has. -/
def size (directions : List (Direction Cert)) (merging : Merging) : Nat :=
  max (merging.clientOf directions).handshakes.length (entryCount (merging.serverOf directions))

def origins (directions : List (Direction Cert)) (merging : Merging) : List Origin :=
  (List.range (merging.size directions)).map fun index => { merging, index }

/-- A merge reports one row for each origin. -/
theorem origins_row (directions : List (Direction Cert)) (merging : Merging)
    : (merging.origins directions).map (Origin.row directions) = merging.rows directions := by
  rw [origins, List.map_map]
  rfl

theorem flatMap_origins_row (directions : List (Direction Cert)) (merges : List Merging)
    : (merges.flatMap (origins directions)).map (Origin.row directions)
      = merges.flatMap (rows directions) := by
  rw [List.map_flatMap]
  exact List.flatMap_congr fun merging _ => merging.origins_row directions

theorem entryCount_le_size (used : merging.uses position = true)
    : entryCount directions[position]? ≤ merging.size directions := by
  rw [uses, Bool.or_eq_true, decide_eq_true_eq, decide_eq_true_eq] at used
  rcases used with same | same
  · refine le_trans ?_ (Nat.le_max_left ..)
    rw [clientOf, same]
    cases found : directions[position]? <;> simp [entryCount, found]
  · refine le_trans ?_ (Nat.le_max_right ..)
    rw [serverOf, same]
    exact le_rfl

/-- A merge gives each hello of a direction it uses one row. -/
theorem origins_halfOf (used : merging.uses position = true)
    : (merging.origins directions).filter (Origin.halfOf directions position)
      = (List.range (entryCount directions[position]?)).map fun index => { merging, index } := by
  rw [origins, List.filter_map, ← range_filter_lt (entryCount_le_size used)]
  congr 1
  refine List.filter_congr fun index _ => ?_
  simp [Origin.halfOf, used]

theorem origins_unused (unused : merging.uses position = false)
    : (merging.origins directions).filter (Origin.halfOf directions position) = [] := by
  rw [origins, List.filter_map, List.map_eq_nil_iff, List.filter_eq_nil_iff]
  intro index _
  simp [Origin.halfOf, unused]

theorem flatMap_origins_halfOf (merges : List Merging)
    : (merges.flatMap (origins directions)).filter (Origin.halfOf directions position)
      = (merges.filter (uses position)).flatMap fun merging =>
          (List.range (entryCount directions[position]?)).map fun index => { merging, index } := by
  induction merges with
  | nil => rfl
  | cons merging rest ih =>
    rw [List.flatMap_cons, List.filter_append, ih, List.filter_cons]
    cases used : merging.uses position with
    | true => rw [origins_halfOf used, if_pos rfl, List.flatMap_cons]
    | false =>
      rw [origins_unused used, if_neg Bool.false_ne_true]
      rfl

/-- A proper merge joins different streams, and every one of its rows has a half. -/
theorem Proper.halves (proper : merging.Proper directions)
    : merging.client ≠ merging.server
      ∧ ∀ index < merging.size directions, ∃ position,
          Origin.halfOf directions position { merging, index } = true := by
  -- a row lies within the larger of the two sides
  have within {position index : Nat} (used : merging.uses position = true)
      (inside : index < entryCount directions[position]?)
      : Origin.halfOf directions position { merging, index } = true := by
    simp [Origin.halfOf, used, inside]
  cases proper with
  | @client position direction parsed =>
    refine ⟨by simp, fun index inside => ⟨position, within (by simp [uses]) ?_⟩⟩
    simpa [size, clientOf, serverOf, parsed, entryCount] using inside
  | @server position direction parsed =>
    refine ⟨by simp, fun index inside => ⟨position, within (by simp [uses]) ?_⟩⟩
    simpa [size, clientOf, serverOf, parsed, entryCount] using inside
  | @pair clientAt serverAt client server clientParsed serverParsed distinct =>
    refine ⟨by simpa using distinct, fun index inside => ?_⟩
    rcases lt_max_iff.mp inside with asked | answered
    · refine ⟨clientAt, within (by simp [uses]) ?_⟩
      simpa [clientOf, clientParsed, entryCount] using asked
    · refine ⟨serverAt, within (by simp [uses]) ?_⟩
      simpa [serverOf] using answered

end Merging

/-! ### Every hello is reported once -/

/-- Where the rows reported on a sequence of streams come from. -/
structure Traces (x509 : X509Parser Cert) (limits : TlsHandshakeLimits Cert)
    (streams : List TcpStream) (rows : List (TlsHandshake Cert))
    (directions : List (Direction Cert)) (origins : List Origin)
    : Prop where
  parsed : streams.Forall₂ (fun stream direction => parse x509 limits stream = .ok direction)
    directions
  rows : rows = origins.map (Origin.row directions)

/-- The merges behind everything that was reported, during a run and at its finish: each is proper,
and each direction with hellos takes part in one, or is a find that was dropped.
-/
theorem TlsHandshakeAssembler.run_traces {limits : TlsHandshakeLimits Cert}
    {streams : List TcpStream} {rows : List (TlsHandshake Cert)}
    {last : TlsHandshakeAssembler Cert}
    (returned : ({ limits } : TlsHandshakeAssembler Cert).run x509 streams
      = .ok (rows, last))
    : ∃ (directions : List (Direction Cert)) (merges : List Merging),
        Traces x509 limits streams (rows ++ last.finish.1) directions
          (merges.flatMap (Merging.origins directions))
        ∧ (∀ merging ∈ merges, merging.Proper directions)
        ∧ ∀ position direction, directions[position]? = some direction →
            direction.handshakes ≠ [] →
              merges.countP (Merging.uses position) = 1
              ∨ merges.countP (Merging.uses position) = 0
                ∧ direction.needsConfirmation = true := by
  obtain ⟨directions, all, runs⟩ := run_returned returned
  obtain ⟨owner, added, same, ledger⟩ := (Ledger.start directions).runs List.drop_zero runs
  obtain ⟨others, equal, final⟩ := ledger.finish
  refine ⟨directions, added ++ others, ⟨all, ?_⟩, ?_, ?_⟩
  · rw [Merging.flatMap_origins_row, List.flatMap_append, same, finish, equal]
  · simpa using final.proper
  · intro position direction parsed carries
    have inside := (List.getElem?_eq_some_iff.mp parsed).1
    rcases final.fate position direction (by simpa using inside) parsed carries with
      once | ⟨none, needs | ⟨impossible, _⟩⟩
    · exact .inl (by simpa using once)
    · exact .inr ⟨by simpa using none, needs⟩
    · cases impossible

/-- A row tells its halves: it names their sides and has their columns, and a half from a stream is
the entry of that stream's direction in the row's place.
-/
structure Origin.Carried (directions : List (Direction Cert)) (origin : Origin) : Prop where
  client : (origin.row directions).hasClientHello = (origin.clientHalf directions).isSome
  server : (origin.row directions).hasServerHello = (origin.serverHalf directions).isSome
  clientFields : ∀ entry, origin.clientHalf directions = some entry →
    (origin.row directions).clientFields = entry.clientFields
  serverFields : ∀ entry, origin.serverHalf directions = some entry →
    (origin.row directions).serverFields = entry.serverFields
  half : ∀ position direction, directions[position]? = some direction →
    (origin.merging.client = some position →
      origin.clientHalf directions = direction.handshakes[origin.index]?)
    ∧ (origin.merging.server = some position →
      origin.serverHalf directions = direction.handshakes[origin.index]?)

theorem Origin.carried (directions : List (Direction Cert)) (origin : Origin)
    : origin.Carried directions := by
  have shown := origin.row_shown directions
  refine ⟨congrArg Shown.hasClientHello shown, congrArg Shown.hasServerHello shown,
    fun entry half => ?_, fun entry half => ?_, fun position direction at_ => ⟨?_, ?_⟩⟩
  · rw [half] at shown
    exact congrArg Shown.client shown
  · rw [half] at shown
    exact congrArg Shown.server shown
  · intro same
    rw [clientHalf, Merging.clientOf, same, Option.bind_some, at_]
    rfl
  · intro same
    rw [serverHalf, Merging.serverOf, same, Option.bind_some, at_]
    rfl

/-- The account of the rows reported on a sequence of streams. Every row tells its halves. The rows
with a half from one direction are numbered 1, 2, 3 up to its last entry, so each of its entries is
a half of exactly one row; only a find may have no row at all.
-/
structure Accounts (x509 : X509Parser Cert) (limits : TlsHandshakeLimits Cert)
    (streams : List TcpStream) (rows : List (TlsHandshake Cert))
    (directions : List (Direction Cert)) (origins : List Origin)
    : Prop
    extends Traces x509 limits streams rows directions origins where
  carried : ∀ origin ∈ origins, origin.Carried directions
  joined : ∀ origin ∈ origins, origin.merging.client ≠ origin.merging.server
    ∧ ∃ position, origin.halfOf directions position = true
  numbered : ∀ position direction, directions[position]? = some direction →
    (origins.filter (Origin.halfOf directions position)).map
        (fun origin => (origin.row directions).handshakeNumber)
      = List.range' 1 direction.handshakes.length
    ∨ direction.needsConfirmation = true
      ∧ origins.filter (Origin.halfOf directions position) = []

/-- Everything reported on a sequence of streams comes from the entries of their directions, joined
by position: none is lost, but for a find's, and none is reported twice. Every row has a half, and
joins different streams.
-/
theorem TlsHandshakeAssembler.report_halves {limits : TlsHandshakeLimits Cert}
    {streams : List TcpStream} {rows : List (TlsHandshake Cert)}
    (reported : report x509 limits streams = .ok rows)
    : ∃ directions origins, Accounts x509 limits streams rows directions origins := by
  obtain ⟨⟨shown, last⟩, returned, same⟩ := bind_eq_ok.mp reported
  obtain ⟨directions, merges, traces, proper, fate⟩ := run_traces returned
  rw [← Except.ok.inj same]
  refine ⟨directions, merges.flatMap (Merging.origins directions), traces,
    fun origin _ => origin.carried directions, ?_, ?_⟩
  · intro origin member
    obtain ⟨merging, chosen, place⟩ := List.mem_flatMap.mp member
    obtain ⟨index, inside, rfl⟩ := List.mem_map.mp place
    obtain ⟨distinct, halves⟩ := (proper merging chosen).halves
    exact ⟨distinct, halves index (List.mem_range.mp inside)⟩
  · intro position direction parsed
    have entries : entryCount directions[position]? = direction.handshakes.length := by
      rw [parsed]
      rfl
    rw [Merging.flatMap_origins_halfOf, entries]
    by_cases carries : direction.handshakes = []
    · left
      rw [carries]
      simp
    · rcases fate position direction parsed carries with once | ⟨none, needs⟩
      · left
        rw [List.countP_eq_length_filter] at once
        obtain ⟨merging, single⟩ := List.length_eq_one_iff.mp once
        rw [single, List.flatMap_singleton, List.map_map, List.range'_eq_map_range]
        refine List.map_congr_left fun index _ => ?_
        have number := congrArg Shown.number (Origin.row_shown directions { merging, index })
        exact number.trans (Nat.add_comm ..)
      · right
        rw [List.countP_eq_length_filter] at none
        rw [List.eq_nil_of_length_eq_zero none]
        exact ⟨needs, rfl⟩

/-- Both directions of one connection are joined to one row, and a find without a peer has none. -/
theorem TlsHandshakeAssembler.report_halves_paired
    : ∃ rows,
        report noCertificates {} [anchoredHello 1 1, searchedHello 2 2, anchoredAnswer 1 3]
          = .ok rows
        ∧ rows.length = 1
        ∧ ∃ directions origins,
            Accounts noCertificates {}
              [anchoredHello 1 1, searchedHello 2 2, anchoredAnswer 1 3] rows directions
              origins := by
  have one : ((report noCertificates {}
      [anchoredHello 1 1, searchedHello 2 2, anchoredAnswer 1 3]).map List.length).toOption
        = some 1 := by
    decide +kernel
  cases reported : report noCertificates {}
      [anchoredHello 1 1, searchedHello 2 2, anchoredAnswer 1 3] with
  | error failure =>
    rw [reported] at one
    cases one
  | ok rows =>
    rw [reported] at one
    exact ⟨rows, rfl, Option.some.inj one, report_halves reported⟩

end PacketQuapture.Tls
