import PacketQuapture.Reassembly.Provenance

/-! A finished stream is exactly what the direction's segments say.
The window, the FIN and the bytes supplied for each position decide whether there is a stream at
all; its chunks and gaps are the maximal runs of covered and uncovered positions, and each origin
names the first segment that supplied its bytes.
-/

namespace PacketQuapture.Reassembly

open Library

/-! ### What the segments say -/

/-- Some segment has a byte at the position. -/
def Covered (base : UInt32) (segments : List Segment) (pos : Nat) : Prop :=
  ∃ byte, Supplies base segments pos byte

namespace Segment

/-- Whether the segment has a byte at the position. -/
def covers (base : UInt32) (pos : Nat) (segment : Segment) : Bool :=
  let start := (segment.sequence - base).toNat
  start ≤ pos && pos - start < segment.bytes.length

/-- Where the segment's declared range ends. -/
def declaredEnd (base : UInt32) (segment : Segment) : Int :=
  relativeSequence segment.sequence base + segment.declared.toNat

end Segment

namespace Flow

variable (flow : Flow)

/-- A declared range or the FIN lies outside the window. -/
def OutsideWindow (limits : TcpReassemblyLimits) : Prop :=
  (∃ segment ∈ flow.segments,
      relativeSequence segment.sequence (streamBase flow) < 0
      ∨ (limits.maxStreamBytes : Int) < segment.declaredEnd (streamBase flow))
    ∨ flow.hasFin
      ∧ (relativeSequence flow.finSequence (streamBase flow) < 0
        ∨ (limits.maxStreamBytes : Int) < relativeSequence flow.finSequence (streamBase flow))

/-- A segment extends past the FIN, or two give different values for one position. -/
def Contradictory : Prop :=
  (flow.hasFin ∧ ∃ segment ∈ flow.segments,
      relativeSequence flow.finSequence (streamBase flow)
        < segment.declaredEnd (streamBase flow))
    ∨ ∃ pos left right, left ≠ right
      ∧ Supplies (streamBase flow) flow.segments pos left
      ∧ Supplies (streamBase flow) flow.segments pos right

/-- Where the stream ends: at the FIN, or else at the furthest declared end. -/
def expectedEnd : Int :=
  if flow.hasFin then relativeSequence flow.finSequence (streamBase flow)
  else (flow.segments.map (Segment.declaredEnd (streamBase flow))).foldl max 0

end Flow

/-- Chunks and gaps that follow each other from `start` to `stop` without a hole, none empty. -/
inductive Tiling : Nat → List TcpStreamChunk → List TcpGap → Nat → Prop
  | done (stop : Nat) : Tiling stop [] [] stop
  | chunk {start stop : Nat} {chunk : TcpStreamChunk} {chunks : List TcpStreamChunk}
    {gaps : List TcpGap} (placed : chunk.offset.toNat = start) (occupied : chunk.data ≠ [])
    (later : Tiling (start + chunk.data.length) chunks gaps stop)
    : Tiling start (chunk :: chunks) gaps stop
  | gap {start stop : Nat} {gap : TcpGap} {chunks : List TcpStreamChunk} {gaps : List TcpGap}
    (placed : gap.offset.toNat = start) (occupied : 0 < gap.length.toNat)
    (later : Tiling (start + gap.length.toNat) chunks gaps stop)
    : Tiling start chunks (gap :: gaps) stop

/-- The stream that the segments of a direction make up. -/
structure Reconstructs (flow : Flow) (stream : TcpStream) : Prop where
  judged : stream.status ≠ .limit ∧ stream.status ≠ .conflict
  based : stream.sequence = streamBase flow
  expected : (stream.expectedBytes.toNat : Int) = flow.expectedEnd
  tiled : Tiling 0 stream.chunks stream.gaps stream.expectedBytes.toNat
  chunks
    : ∀ start length,
        MaximalRun (Covered (streamBase flow) flow.segments) stream.expectedBytes.toNat start length
        ↔ ∃ chunk ∈ stream.chunks, chunk.offset.toNat = start ∧ chunk.data.length = length
  carried
    : ∀ chunk ∈ stream.chunks, ∀ index byte, chunk.data[index]? = some byte →
        Supplies (streamBase flow) flow.segments (chunk.offset.toNat + index) byte
  gaps
    : ∀ start length,
        MaximalRun (fun pos => ¬ Covered (streamBase flow) flow.segments pos)
          stream.expectedBytes.toNat start length
        ↔ ∃ gap ∈ stream.gaps, gap.offset.toNat = start ∧ gap.length.toNat = length
  captured
    : stream.capturedBytes.toNat = (stream.chunks.map fun chunk => chunk.data.length).sum
  origins : ∀ chunk ∈ stream.chunks, Tiles 0 chunk.origins chunk.data.length
  named
    : ∀ chunk ∈ stream.chunks, ∀ origin ∈ chunk.origins, ∀ within < origin.length.toNat,
        (flow.segments.find? (Segment.covers (streamBase flow)
          (chunk.offset.toNat + origin.offset.toNat + within))).map Segment.stamp
        = some origin.stamp

section Tiling

variable {start stop : Nat} {chunks : List TcpStreamChunk} {gaps : List TcpGap}

theorem Tiling.le (tiling : Tiling start chunks gaps stop) : start ≤ stop := by
  induction tiling with
  | done => exact le_rfl
  | chunk _ _ _ ih => omega
  | gap _ _ _ ih => omega

theorem Tiling.start_le (tiling : Tiling start chunks gaps stop)
    : (∀ chunk ∈ chunks, start ≤ chunk.offset.toNat)
      ∧ ∀ gap ∈ gaps, start ≤ gap.offset.toNat := by
  induction tiling with
  | done => exact ⟨by simp, by simp⟩
  | chunk placed _ _ ih =>
    obtain ⟨later, gaps⟩ := ih
    refine ⟨List.forall_mem_cons.mpr ⟨placed.ge, fun chunk member => ?_⟩, fun gap member => ?_⟩
    · exact (Nat.le_add_right ..).trans (later chunk member)
    · exact (Nat.le_add_right ..).trans (gaps gap member)
  | gap placed _ _ ih =>
    obtain ⟨chunks, later⟩ := ih
    refine ⟨fun chunk member => ?_, List.forall_mem_cons.mpr ⟨placed.ge, fun gap member => ?_⟩⟩
    · exact (Nat.le_add_right ..).trans (chunks chunk member)
    · exact (Nat.le_add_right ..).trans (later gap member)

theorem Tiling.sum_le (tiling : Tiling start chunks gaps stop)
    : start + (chunks.map fun chunk => chunk.data.length).sum ≤ stop := by
  induction tiling with
  | done => simp
  | chunk _ _ _ ih =>
    rw [List.map_cons, List.sum_cons]
    omega
  | gap _ _ _ ih => omega

end Tiling

/-! ### Owners -/

/-- The segment that owns a position, if one does. -/
def ownerAt (cells : List Cell) (pos : Nat) : Option Nat :=
  cells[pos]?.bind fun cell => if cell.owner = unowned then none else some cell.owner

variable {index pos at_ : Nat} {cells next : List Cell}

theorem overlayByte_owner {byte : UInt8} (inside : pos < cells.length) (named : index < unowned)
    (wrote : overlayByte index pos byte cells = some next)
    : ownerAt next at_ = (ownerAt cells at_).or (if at_ = pos then some index else none) := by
  have small : index % 2 ^ 32 = index := Nat.mod_eq_of_lt (by unfold unowned at named; omega)
  simp only [overlayByte, List.getD_eq_getElem?_getD, List.getElem?_eq_getElem inside,
    Option.getD_some] at wrote
  split at wrote
  · cases wrote
  · split at wrote
    case isTrue free =>
      cases wrote
      by_cases here : at_ = pos
      · subst here
        rw [small]
        simp [ownerAt, inside, free, Nat.ne_of_lt named]
      · simp [ownerAt, List.getElem?_set_ne (Ne.symm here), here]
    case isFalse taken =>
      cases wrote
      by_cases here : at_ = pos
      · subst here
        simp [ownerAt, List.getElem?_eq_getElem inside, taken]
      · simp [here]

theorem overlaySegment_owner {bytes : List UInt8} (inside : pos + bytes.length ≤ cells.length)
    (named : index < unowned) (wrote : overlaySegment index pos bytes cells = some next)
    : ownerAt next at_ = (ownerAt cells at_).or
        (if pos ≤ at_ && at_ - pos < bytes.length then some index else none) := by
  induction bytes generalizing pos cells with
  | nil =>
    cases wrote
    simp
  | cons head rest ih =>
    rw [List.length_cons] at inside
    obtain ⟨middle, first, later⟩ := Option.bind_eq_some_iff.mp wrote
    obtain ⟨length, _⟩ := overlayByte_eq_some (by omega) named first
    rw [ih (by omega) later, overlayByte_owner (by omega) named first, Option.or_assoc,
      List.length_cons]
    congr 1
    simp only [Bool.and_eq_true, decide_eq_true_eq]
    by_cases here : at_ = pos
    · rw [if_pos here, Option.some_or, if_pos (by omega)]
    · rw [if_neg here, Option.none_or]
      exact if_congr (by omega) rfl rfl

variable {base : UInt32} {extent : Nat} {segments : List Segment} {offsets : List Nat}
variable {piece : Nat × List Cell} {key : TcpFlowKey}

theorem overlay_owner (inside : List.Forall₂ (Inside base extent) segments offsets)
    (sized : cells.length = extent) (named : index + segments.length ≤ unowned)
    (wrote : overlay index segments offsets cells = some next)
    : ownerAt next pos = (ownerAt cells pos).or
        ((segments.findIdx? (Segment.covers base pos)).map (index + ·)) := by
  induction inside generalizing index cells with
  | nil =>
    cases wrote
    simp
  | @cons segment offset rest offsets head tail ih =>
    rw [List.length_cons] at named
    obtain ⟨middle, first, later⟩ := Option.bind_eq_some_iff.mp wrote
    obtain ⟨length, _⟩ := overlaySegment_eq_some (by omega) (by omega) first
    rw [ih (length.trans sized) (by omega) later,
      @overlaySegment_owner _ _ pos _ _ _ (by omega) (by omega) first, Option.or_assoc,
      List.findIdx?_cons, head.1]
    congr 1
    rw [Segment.covers]
    split
    · rfl
    · rw [Option.none_or, Option.map_map]
      congr 1
      funext later
      simp only [Function.comp_apply]
      omega

theorem overlay_blank_owner (inside : List.Forall₂ (Inside base extent) segments offsets)
    (named : segments.length ≤ unowned)
    (wrote : overlay 0 segments offsets (List.replicate extent {}) = some cells)
    : ownerAt cells pos = segments.findIdx? (Segment.covers base pos) := by
  have blank : ownerAt (List.replicate extent ({} : Cell)) pos = none := by
    simp only [ownerAt, List.getElem?_replicate]
    split <;> simp
  rw [overlay_owner inside List.length_replicate (by omega) wrote, blank, Option.none_or]
  simp

theorem find?_of_owner {owner : Nat}
    (owned : segments.findIdx? (Segment.covers base pos) = some owner)
    : segments.find? (Segment.covers base pos) = segments[owner]? := by
  rw [List.find?_eq_getElem?_findIdx, (List.findIdx?_eq_some_iff_findIdx_eq.mp owned).2]

/-! ### Chunks and gaps -/

/-- The runs of the overlay tile the stream.
Witness: induction on the fuel; each pass takes the leading run.
-/
theorem runs_tiling (segments : List Segment) (sequence : UInt32) {fuel offset : Nat}
    (enough : cells.length ≤ fuel) (fits : offset + cells.length < 2 ^ 32)
    : Tiling offset
        ((chunkRuns (runs Cell.owned fuel offset cells)).map (chunkOf segments sequence))
        ((gapRuns (runs Cell.owned fuel offset cells)).map gapOf) (offset + cells.length) := by
  induction fuel generalizing offset cells with
  | zero =>
    obtain rfl := List.length_eq_zero_iff.mp (Nat.le_zero.mp enough)
    exact .done offset
  | succ fuel ih =>
    cases cells with
    | nil => exact .done offset
    | cons cell rest =>
      have positive := leadingRun_cons_length_pos Cell.owned cell rest
      have split := congrArg List.length (leadingRun_append_drop Cell.owned (cell :: rest))
      have leads := any_owned_leadingRun cell rest
      rw [List.length_append] at split
      rw [runs]
      generalize leadingRun Cell.owned (cell :: rest) = run at positive split leads ⊢
      have later := @ih ((cell :: rest).drop run.length) (offset + run.length)
        (by rw [List.length_drop]; omega) (by omega)
      rw [show offset + run.length + ((cell :: rest).drop run.length).length
        = offset + (cell :: rest).length by omega] at later
      have place : (UInt32.ofNat offset).toNat = offset :=
        UInt32.toNat_ofNat_of_lt' (by simp only [UInt32.size]; omega)
      have size : (UInt32.ofNat run.length).toNat = run.length :=
        UInt32.toNat_ofNat_of_lt' (by simp only [UInt32.size]; omega)
      cases owned : cell.owned with
      | true =>
        rw [owned] at leads
        simp only [chunkRuns, gapRuns, List.filter_cons, leads, Bool.not_true, if_true,
          Bool.false_eq_true, if_false, List.map_cons]
        refine .chunk place ?_ ?_
        · simpa [chunkOf] using List.ne_nil_of_length_pos positive
        · simpa [chunkOf, chunkRuns, gapRuns] using later
      | false =>
        rw [owned] at leads
        simp only [chunkRuns, gapRuns, List.filter_cons, leads, Bool.not_false, if_true,
          Bool.false_eq_true, if_false, List.map_cons]
        refine .gap place ?_ ?_
        · rw [gapOf, size]
          exact positive
        · rw [gapOf, size]
          exact later

theorem mem_chunkRuns
    : piece ∈ chunkRuns (runs Cell.owned cells.length 0 cells)
      ↔ piece ∈ runs Cell.owned cells.length 0 cells ∧ ∀ cell ∈ piece.2, cell.owned = true := by
  refine ⟨fun member => ⟨(List.mem_filter.mp member).1, owned_of_mem_chunkRuns member⟩, ?_⟩
  rintro ⟨member, owned⟩
  obtain ⟨cell, cellIn⟩ := List.exists_mem_of_ne_nil _ (mem_runs member).1
  exact List.mem_filter.mpr ⟨member, List.any_eq_true.mpr ⟨cell, cellIn, owned cell cellIn⟩⟩

theorem mem_gapRuns
    : piece ∈ gapRuns (runs Cell.owned cells.length 0 cells)
      ↔ piece ∈ runs Cell.owned cells.length 0 cells ∧ ∀ cell ∈ piece.2, cell.owned = false := by
  simp only [gapRuns, List.mem_filter, Bool.not_eq_true', List.any_eq_false, Bool.not_eq_true]

section Contents

variable (content : ∀ pos byte, contentAt cells pos = some byte ↔ Supplies base segments pos byte)

include content

theorem owned_iff_covered : cells[pos]?.map Cell.owned = some true ↔ Covered base segments pos := by
  simp only [Covered, ← content, contentAt]
  cases cells[pos]? with
  | none => simp
  | some cell =>
    rw [Option.map_some, Option.bind_some, Option.some.injEq, ← cell.isSome_content,
      Option.isSome_iff_exists]

theorem unowned_iff_uncovered (inside : pos < cells.length)
    : cells[pos]?.map Cell.owned = some false ↔ ¬ Covered base segments pos := by
  rw [← owned_iff_covered content, List.getElem?_eq_getElem inside, Option.map_some,
    Option.some.injEq, Option.some.injEq, Bool.not_eq_true]

theorem covered_runs {start length : Nat}
    : MaximalRun (Covered base segments) cells.length start length
      ↔ ∃ piece ∈ chunkRuns (runs Cell.owned cells.length 0 cells),
          piece.1 = start ∧ piece.2.length = length := by
  have same : MaximalRun (Covered base segments) cells.length start length
      ↔ MaximalRun (fun pos => cells[pos]?.map Cell.owned = some true) cells.length start length :=
    ⟨.congr fun pos _ => (owned_iff_covered content).symm,
      .congr fun pos _ => owned_iff_covered content⟩
  simp only [same, maximalRun_iff_mem_runs, mem_chunkRuns, and_assoc]

theorem uncovered_runs {start length : Nat}
    : MaximalRun (fun pos => ¬ Covered base segments pos) cells.length start length
      ↔ ∃ piece ∈ gapRuns (runs Cell.owned cells.length 0 cells),
          piece.1 = start ∧ piece.2.length = length := by
  have same : MaximalRun (fun pos => ¬ Covered base segments pos) cells.length start length
      ↔ MaximalRun (fun pos => cells[pos]?.map Cell.owned = some false) cells.length start length :=
    ⟨.congr fun pos inside => (unowned_iff_uncovered content inside).symm,
      .congr fun pos inside => unowned_iff_uncovered content inside⟩
  simp only [same, maximalRun_iff_mem_runs, mem_gapRuns, and_assoc]

theorem chunk_carries {within : Nat} {byte : UInt8}
    (member : piece ∈ chunkRuns (runs Cell.owned cells.length 0 cells))
    (found : (piece.2.map Cell.byte)[within]? = some byte)
    : Supplies base segments (piece.1 + within) byte := by
  rw [List.getElem?_map] at found
  obtain ⟨cell, there, rfl⟩ := Option.map_eq_some_iff.mp found
  obtain ⟨inside, _⟩ := List.getElem?_eq_some_iff.mp there
  obtain ⟨run, owned⟩ := mem_chunkRuns.mp member
  have taken : cell.owner ≠ unowned := by
    simpa [Cell.owned] using owned cell (List.mem_of_getElem? there)
  rw [← content, contentAt, ← Nat.sub_zero piece.1, getElem?_of_mem_runs run inside, there,
    Option.bind_some, Cell.content, if_neg taken]

end Contents

/-! ### Origins -/

/-- The origin of a run of cells of one owner. -/
def originOf (segments : List Segment) (piece : Nat × List Cell) : TcpByteOrigin :=
  { offset := UInt32.ofNat piece.1
    length := UInt32.ofNat piece.2.length
    stamp := (segments[(piece.2.headD {}).owner]?.map Segment.stamp).getD {} }

theorem emitOrigins_eq (segments : List Segment) (fuel offset : Nat) (cells : List Cell)
    : emitOrigins segments fuel offset cells
      = (runs Cell.owner fuel offset cells).map (originOf segments) := by
  induction fuel generalizing offset cells with
  | zero => cases cells <;> rfl
  | succ fuel ih =>
    cases cells with
    | nil => rfl
    | cons cell rest =>
      have leads : (leadingRun Cell.owner (cell :: rest)).headD {} = cell := by
        simp [leadingRun]
      rw [emitOrigins, runs, List.map_cons, originOf, leads, ih]
      rfl

/-- An origin names the owner of each of its bytes. -/
theorem emitOrigins_named {fuel : Nat} {origin : TcpByteOrigin} (fits : cells.length < 2 ^ 32)
    (member : origin ∈ emitOrigins segments fuel 0 cells) {within : Nat}
    (inside : within < origin.length.toNat)
    : ∃ cell, cells[origin.offset.toNat + within]? = some cell
        ∧ origin.stamp = (segments[cell.owner]?.map Segment.stamp).getD {} := by
  rw [emitOrigins_eq] at member
  obtain ⟨piece, run, rfl⟩ := List.mem_map.mp member
  obtain ⟨occupied, _, upper, uniform⟩ := mem_runs run
  have place : (UInt32.ofNat piece.1).toNat = piece.1 :=
    UInt32.toNat_ofNat_of_lt' (by simp only [UInt32.size]; omega)
  have size : (UInt32.ofNat piece.2.length).toNat = piece.2.length :=
    UInt32.toNat_ofNat_of_lt' (by simp only [UInt32.size]; omega)
  rw [originOf, size] at inside
  have there := getElem?_of_mem_runs run inside
  rw [Nat.sub_zero, List.getElem?_eq_getElem inside] at there
  refine ⟨piece.2[within], by rw [originOf, place, there], ?_⟩
  obtain ⟨head, rest, cons⟩ := List.exists_cons_of_ne_nil occupied
  have first : (piece.2.headD {}).owner = piece.2[within].owner := by
    refine uniform _ ?_ _ (List.getElem_mem inside)
    simp [cons]
  rw [originOf, first]

/-- An origin of a chunk names the packet of the first segment to supply each of its bytes. -/
theorem chunk_named {origin : TcpByteOrigin} {within : Nat}
    (owners : ∀ pos, ownerAt cells pos = segments.findIdx? (Segment.covers base pos))
    (fits : cells.length < 2 ^ 32)
    (member : piece ∈ chunkRuns (runs Cell.owned cells.length 0 cells))
    (named : origin ∈ emitOrigins segments piece.2.length 0 piece.2)
    (inside : within < origin.length.toNat)
    : (segments.find? (Segment.covers base (piece.1 + origin.offset.toNat + within))).map
        Segment.stamp = some origin.stamp := by
  obtain ⟨run, owned⟩ := mem_chunkRuns.mp member
  have upper := (mem_runs run).2.2.1
  obtain ⟨cell, found, stamped⟩ := emitOrigins_named (by omega) named inside
  obtain ⟨within', _⟩ := List.getElem?_eq_some_iff.mp found
  have taken : cell.owner ≠ unowned := by
    simpa [Cell.owned] using owned cell (List.mem_of_getElem? found)
  have there := getElem?_of_mem_runs run within'
  rw [Nat.sub_zero, found] at there
  have owner := owners (piece.1 + (origin.offset.toNat + within))
  rw [ownerAt, there, Option.bind_some, if_neg taken] at owner
  obtain ⟨counted, _⟩ := List.findIdx?_eq_some_iff_findIdx_eq.mp owner.symm
  rw [Nat.add_assoc, find?_of_owner owner.symm, stamped, List.getElem?_eq_getElem counted]
  rfl

/-! ### Captured bytes -/

theorem sum_ofNat (lengths : List Nat)
    : (lengths.map UInt32.ofNat).sum = UInt32.ofNat lengths.sum := by
  induction lengths with
  | nil => rfl
  | cons head rest ih => rw [List.map_cons, List.sum_cons, List.sum_cons, ih, UInt32.ofNat_add]

theorem Reconstructs.judge {flow : Flow} {stream : TcpStream} (made : Reconstructs flow stream)
    : Reconstructs flow (judge flow stream) := by
  unfold Reassembly.judge
  split
  · exact ⟨by simp, made.based, made.expected, made.tiled, made.chunks, made.carried, made.gaps,
      made.captured, made.origins, made.named⟩
  · split
    · exact ⟨by simp, made.based, made.expected, made.tiled, made.chunks, made.carried, made.gaps,
        made.captured, made.origins, made.named⟩
    · exact made

/-- What is emitted on a blank stream is what the segments make up. -/
theorem emit_reconstructs {flow : Flow} {stream : TcpStream}
    (content
      : ∀ pos byte, contentAt cells pos = some byte
          ↔ Supplies (streamBase flow) flow.segments pos byte)
    (owners
      : ∀ pos, ownerAt cells pos
          = flow.segments.findIdx? (Segment.covers (streamBase flow) pos))
    (fits : cells.length < 2 ^ 32) (judged : stream.status ≠ .limit ∧ stream.status ≠ .conflict)
    (based : stream.sequence = streamBase flow)
    (sized : stream.expectedBytes = UInt32.ofNat cells.length)
    (expected : (cells.length : Int) = flow.expectedEnd)
    (blank : stream.chunks = [] ∧ stream.gaps = [] ∧ stream.capturedBytes = 0)
    : Reconstructs flow (emit flow cells stream) := by
  have extent : stream.expectedBytes.toNat = cells.length := by
    rw [sized]
    exact UInt32.toNat_ofNat_of_lt' (by simp only [UInt32.size]; omega)
  have tiling := @runs_tiling cells flow.segments stream.sequence cells.length 0 le_rfl (by omega)
  have placed {piece : Nat × List Cell} (member : piece ∈ runs Cell.owned cells.length 0 cells)
      : (UInt32.ofNat piece.1).toNat = piece.1
        ∧ (UInt32.ofNat piece.2.length).toNat = piece.2.length := by
    have upper := (mem_runs member).2.2.1
    exact ⟨UInt32.toNat_ofNat_of_lt' (by simp only [UInt32.size]; omega),
      UInt32.toNat_ofNat_of_lt' (by simp only [UInt32.size]; omega)⟩
  rw [emit, emitFrom_eq, blank.1, blank.2.1, blank.2.2]
  simp only [List.nil_append, UInt32.zero_add]
  rw [Nat.zero_add] at tiling
  refine ⟨judged, based, ?_, ?_, ?_, ?_, ?_, ?_, ?_, ?_⟩
  · rw [extent, expected]
  · rw [extent]
    exact tiling
  · intro start length
    rw [extent, covered_runs content]
    simp only [List.mem_map, exists_exists_and_eq_and, chunkOf, List.length_map]
    refine exists_congr fun piece => and_congr_right fun kept => ?_
    rw [(placed (mem_chunkRuns.mp kept).1).1]
  · intro chunk member index byte found
    obtain ⟨piece, kept, rfl⟩ := List.mem_map.mp member
    rw [chunkOf, (placed (mem_chunkRuns.mp kept).1).1]
    exact chunk_carries content kept found
  · intro start length
    rw [extent, uncovered_runs content]
    simp only [List.mem_map, exists_exists_and_eq_and, gapOf]
    refine exists_congr fun piece => and_congr_right fun kept => ?_
    obtain ⟨offset, size⟩ := placed (mem_gapRuns.mp kept).1
    rw [offset, size]
  · have bound := tiling.sum_le
    simp only [List.map_map, Function.comp_def, chunkOf, List.length_map, Nat.zero_add] at bound ⊢
    have total := sum_ofNat ((chunkRuns (runs Cell.owned cells.length 0 cells)).map
      fun piece => piece.2.length)
    rw [List.map_map] at total
    exact (congrArg UInt32.toNat total).trans
      (UInt32.toNat_ofNat_of_lt' (Nat.lt_of_le_of_lt bound fits))
  · intro chunk member
    obtain ⟨piece, kept, rfl⟩ := List.mem_map.mp member
    have upper := (mem_runs (mem_chunkRuns.mp kept).1).2.2.1
    exact (chunkOf_traced flow.segments stream.sequence (by omega)).2
  · intro chunk member origin origined within inside
    obtain ⟨piece, kept, rfl⟩ := List.mem_map.mp member
    rw [chunkOf, (placed (mem_chunkRuns.mp kept).1).1]
    exact chunk_named owners fits kept origined inside

/-! ### Measuring -/

section Measuring

variable {limits : AcceptedLimits} {flow : Flow}

theorem place_eq_none_iff {segment : Segment}
    : place limits base segment = none
      ↔ relativeSequence segment.sequence base < 0
        ∨ (limits.maxStreamBytes : Int) < segment.declaredEnd base := by
  simp only [place, Segment.declaredEnd]
  split
  · simp only [true_iff]
    omega
  · simp only [reduceCtorEq, false_iff]
    omega

theorem mapM_place_eq_none_iff
    : segments.mapM (place limits base) = none
      ↔ ∃ segment ∈ segments, place limits base segment = none := by
  induction segments with
  | nil => simp
  | cons segment rest ih =>
    simp only [List.mapM_cons, List.mem_cons, exists_eq_or_imp, ← ih]
    cases place limits base segment with
    | none => simp
    | some offset =>
      cases rest.mapM (place limits base) with
      | none => simp
      | some offsets => simp

theorem dataExtent_eq
    (placed
      : List.Forall₂ (fun segment offset => place limits base segment = some offset) segments
          offsets) (start : Nat)
    : (((List.zipWith (fun offset segment => offset + segment.declared.toNat) offsets
          segments).foldl max start : Nat) : Int)
      = (segments.map (Segment.declaredEnd base)).foldl max (start : Int) := by
  induction placed generalizing start with
  | nil => rfl
  | @cons segment offset _ _ head _ ih =>
    have ends : segment.declaredEnd base = ((offset + segment.declared.toNat : Nat) : Int) := by
      rw [Segment.declaredEnd, (place_eq_some_iff.mp head).1, Nat.cast_add]
    rw [List.zipWith_cons_cons, List.foldl_cons, ih, List.map_cons, List.foldl_cons, ends,
      Nat.cast_max]

theorem le_dataExtent_iff
    (placed
      : List.Forall₂ (fun segment offset => place limits base segment = some offset) segments
          offsets) {bound : Nat}
    : dataExtent segments offsets ≤ bound
      ↔ ∀ segment ∈ segments, segment.declaredEnd base ≤ bound := by
  rw [foldl_max_le, and_iff_right (Nat.zero_le _)]
  induction placed with
  | nil => simp
  | @cons segment offset _ _ head _ ih =>
    have ends : segment.declaredEnd base = ((offset + segment.declared.toNat : Nat) : Int) := by
      rw [Segment.declaredEnd, (place_eq_some_iff.mp head).1, Nat.cast_add]
    rw [List.zipWith_cons_cons, List.forall_mem_cons, List.forall_mem_cons, ih, ends,
      Nat.cast_le]

/-- The ways measuring a direction can end, as the segments and the FIN decide. -/
inductive Measured (limits : AcceptedLimits) (key : TcpFlowKey) (flow : Flow)
    : Except TcpStream (List Nat × Nat) → Prop
  | outside (error : String) (outside : flow.OutsideWindow limits.toTcpReassemblyLimits)
    : Measured limits key flow (.error (diagnostic key flow .limit error))
  | beyond (error : String) (within : ¬ flow.OutsideWindow limits.toTcpReassemblyLimits)
    (fin : flow.hasFin)
    (beyond
      : ∃ segment ∈ flow.segments,
          relativeSequence flow.finSequence (streamBase flow)
            < segment.declaredEnd (streamBase flow))
    : Measured limits key flow (.error (diagnostic key flow .conflict error))
  | whole (offsets : List Nat) (extent : Nat)
    (within : ¬ flow.OutsideWindow limits.toTcpReassemblyLimits)
    (behind
      : flow.hasFin → ∀ segment ∈ flow.segments,
          segment.declaredEnd (streamBase flow)
            ≤ relativeSequence flow.finSequence (streamBase flow))
    (expected : (extent : Int) = flow.expectedEnd)
    : Measured limits key flow (.ok (offsets, extent))

theorem measure_measured (key : TcpFlowKey)
    : Measured limits key flow (measure limits key flow (streamBase flow)) := by
  unfold measure
  split
  case h_1 missing =>
    obtain ⟨segment, member, out⟩ := mapM_place_eq_none_iff.mp missing
    exact .outside _ (.inl ⟨segment, member, place_eq_none_iff.mp out⟩)
  case h_2 offsets found =>
    have placed := mapM_place_eq_some_iff.mp found
    have inside : ¬ ∃ segment ∈ flow.segments,
        relativeSequence segment.sequence (streamBase flow) < 0
        ∨ (limits.maxStreamBytes : Int) < segment.declaredEnd (streamBase flow) := by
      rintro ⟨segment, member, out⟩
      have missing := mapM_place_eq_none_iff.mpr ⟨segment, member, place_eq_none_iff.mpr out⟩
      rw [found] at missing
      cases missing
    dsimp only
    split
    case isTrue fin =>
      split
      case isTrue out => exact .outside _ (.inr ⟨fin, by omega⟩)
      case isFalse finInside =>
        have within : ¬ flow.OutsideWindow limits.toTcpReassemblyLimits := by
          rintro (out | ⟨_, out⟩)
          · exact inside out
          · omega
        have position : ((relativeSequence flow.finSequence (streamBase flow)).toNat : Int)
            = relativeSequence flow.finSequence (streamBase flow) := by omega
        have ends := @le_dataExtent_iff _ _ _ _ placed
          (relativeSequence flow.finSequence (streamBase flow)).toNat
        rw [position] at ends
        split
        case isTrue beyond =>
          rw [← Nat.not_le, ends] at beyond
          simp only [not_forall, Int.not_le, exists_prop] at beyond
          exact .beyond _ within fin beyond
        case isFalse behind =>
          refine .whole _ _ within (fun _ => ends.mp (Nat.not_lt.mp behind)) ?_
          rw [position, Flow.expectedEnd, if_pos fin]
    case isFalse open_ =>
      refine .whole _ _ ?_ (fun fin => absurd fin open_) ?_
      · rintro (out | ⟨fin, _⟩)
        · exact inside out
        · exact open_ fin
      · rw [Flow.expectedEnd, if_neg open_]
        exact dataExtent_eq placed 0

end Measuring

/-! ### Finishing -/

/-- A diagnostic with this status stands for the stream. -/
def Diagnosed (key : TcpFlowKey) (flow : Flow) (status : TcpStreamStatus) (stream : TcpStream)
    : Prop :=
  ∃ error, stream = diagnostic key flow status error

theorem Reconstructs.not_diagnosed {flow : Flow} {stream : TcpStream}
    (made : Reconstructs flow stream)
    : ¬ Diagnosed key flow .limit stream ∧ ¬ Diagnosed key flow .conflict stream := by
  constructor
  · rintro ⟨error, rfl⟩
    exact made.judged.1 rfl
  · rintro ⟨error, rfl⟩
    exact made.judged.2 rfl

theorem Flow.Sound.extent_pos {limits : AcceptedLimits} {flow : Flow} {offsets : List Nat}
    {extent : Nat} (sound : flow.Sound) (occupied : flow.segments ≠ [])
    (measured : measure limits key flow (streamBase flow) = .ok (offsets, extent))
    : 0 < extent := by
  obtain ⟨segment, member⟩ := List.exists_mem_of_ne_nil _ occupied
  have covered := measure_covers measured member
  have positive := UInt32.lt_iff_toNat_lt.mp (sound.declared segment member).1
  rw [UInt32.toNat_zero] at positive
  omega

/-- What the overlay of a direction's segments emits is the stream they make up. -/
theorem Flow.Sound.reconstructs {limits : AcceptedLimits} {flow : Flow} {offsets : List Nat}
    {extent : Nat} {cells : List Cell} (sound : flow.Sound)
    (measured : measure limits key flow (streamBase flow) = .ok (offsets, extent))
    (wrote : overlay 0 flow.segments offsets (List.replicate extent {}) = some cells)
    : Reconstructs flow (judge flow (emit flow cells
        { diagnostic key flow .contiguous "" with
          sequence := streamBase flow
          expectedBytes := UInt32.ofNat extent })) := by
  have decided := @measure_measured limits flow key
  rw [measured] at decided
  have window := (measure_eq_ok measured).2.2
  have inside := sound.inside measured
  have room := limits.streamBytesFit
  obtain ⟨length, content⟩ := overlay_blank_eq_some inside sound.counted wrote
  have owners (pos : Nat) := @overlay_blank_owner pos _ _ _ _ _ inside sound.counted wrote
  subst length
  cases decided with
  | whole _ _ _ _ expected =>
    exact (emit_reconstructs content owners (by omega) ⟨by simp [diagnostic], by simp [diagnostic]⟩
      rfl rfl expected ⟨rfl, rfl, rfl⟩).judge

/-- Finishing a direction that has segments and did not fail yields one stream: a LIMIT
diagnostic exactly when a declared range or the FIN lies outside the window; otherwise a CONFLICT
diagnostic exactly when the segments contradict the FIN or each other; otherwise the stream that
the segments make up. Every direction the reassembler keeps is sound.
Witness: measuring and overlaying decide which it is, and emission takes the maximal runs.
-/
theorem finish_exact {limits : AcceptedLimits} {key : TcpFlowKey} {flow : Flow}
    (live : flow.failure = "") (occupied : flow.segments ≠ []) (sound : flow.Sound)
    : ∃ stream, finish limits key flow = .ok [stream]
        ∧ (Diagnosed key flow .limit stream ↔ flow.OutsideWindow limits.toTcpReassemblyLimits)
        ∧ (¬ flow.OutsideWindow limits.toTcpReassemblyLimits →
            ((Diagnosed key flow .conflict stream ↔ flow.Contradictory)
              ∧ (¬ flow.Contradictory → Reconstructs flow stream))) := by
  have decided := @measure_measured limits flow key
  rw [finish, if_neg (not_not.mpr live), if_neg (fun none => occupied none.1),
    if_neg (fun none => occupied none.2)]
  dsimp only
  cases measured : measure limits key flow (streamBase flow) with
  | error stream =>
    rw [measured] at decided
    refine ⟨stream, rfl, ?_⟩
    cases decided with
    | outside error outside =>
      exact ⟨⟨fun _ => outside, fun _ => ⟨error, rfl⟩⟩, fun within => absurd outside within⟩
    | beyond error within fin beyond =>
      have contradictory : flow.Contradictory := .inl ⟨fin, beyond⟩
      refine ⟨⟨?_, fun outside => absurd outside within⟩, fun _ => ⟨⟨fun _ => contradictory,
        fun _ => ⟨error, rfl⟩⟩, fun agree => absurd contradictory agree⟩⟩
      rintro ⟨_, same⟩
      cases congrArg TcpStream.status same
  | ok reached =>
    obtain ⟨offsets, extent⟩ := reached
    rw [measured] at decided
    cases decided with
    | whole _ _ within behind expected =>
      have window := (measure_eq_ok measured).2.2
      have inside := sound.inside measured
      have positive := sound.extent_pos occupied measured
      dsimp only
      rw [require_eq_ok _ window, ok_bind]
      cases wrote : overlay 0 flow.segments offsets (List.replicate extent {}) with
      | none =>
        have contradictory : flow.Contradictory :=
          .inr ((overlay_blank_eq_none_iff inside sound.counted).mp wrote)
        refine ⟨_, rfl, ⟨?_, fun outside => absurd outside within⟩, fun _ =>
          ⟨⟨fun _ => contradictory, fun _ => ⟨_, rfl⟩⟩,
            fun agree => absurd contradictory agree⟩⟩
        rintro ⟨_, same⟩
        cases congrArg TcpStream.status same
      | some cells =>
        have agree : ¬ flow.Contradictory := by
          rintro (⟨fin, segment, member, past⟩ | clash)
          · exact absurd (behind fin segment member) (Int.not_le.mpr past)
          · rw [(overlay_blank_eq_none_iff inside sound.counted).mpr clash] at wrote
            cases wrote
        have made := sound.reconstructs measured wrote
        obtain ⟨notLimit, notConflict⟩ := @Reconstructs.not_diagnosed key _ _ made
        dsimp only
        rw [if_pos positive]
        exact ⟨_, rfl, ⟨fun limited => absurd limited notLimit, fun outside =>
          absurd outside within⟩, fun _ => ⟨⟨fun conflict => absurd conflict notConflict,
          fun clash => absurd clash agree⟩, fun _ => made⟩⟩

/-- A direction with its SYN and two segments that overlap in one byte, the second of them only
captured in part.
-/
def overlappingFlow : Flow :=
  { hasSyn := true
    segments := [{ sequence := 1, declared := 2, stamp := { number := 2 }, bytes := [7, 8] },
      { sequence := 2, declared := 4, stamp := { number := 3 }, bytes := [8, 9] }] }

theorem overlappingFlow_sound : overlappingFlow.Sound where
  counted := by decide
  declared := by decide
  judged failed := absurd rfl failed

theorem defaultLimits_accepted
    : ({} : TcpReassemblyLimits).maxStreamBytes ≤ 2 ^ 32 - 1
      ∧ ({} : TcpReassemblyLimits).maxSegments < 2 ^ 32 - 1
      ∧ 0 ≤ ({} : TcpReassemblyLimits).tcpIdleUs := by
  decide

def defaultLimits : AcceptedLimits :=
  { ({} : TcpReassemblyLimits) with
    streamBytesFit := defaultLimits_accepted.1
    segmentsFit := defaultLimits_accepted.2.1
    idleNonneg := defaultLimits_accepted.2.2 }

/-- The overlapping direction is reconstructed. -/
theorem finish_exact_overlapping
    : ∃ stream, finish defaultLimits {} overlappingFlow = .ok [stream]
        ∧ Reconstructs overlappingFlow stream := by
  have computed : (finish defaultLimits {} overlappingFlow).toOption.map
      (List.map TcpStream.status) = some [.gapped] := by
    rfl
  obtain ⟨stream, returned, limited, agreed⟩ :=
    @finish_exact defaultLimits {} overlappingFlow rfl (by decide) overlappingFlow_sound
  rw [returned] at computed
  have status : stream.status = .gapped := by simpa [Except.toOption] using computed
  have within : ¬ overlappingFlow.OutsideWindow defaultLimits.toTcpReassemblyLimits := by
    rw [← limited]
    rintro ⟨error, rfl⟩
    cases status
  refine ⟨stream, returned, (agreed within).2 ?_⟩
  rw [← (agreed within).1]
  rintro ⟨error, rfl⟩
  cases status

end PacketQuapture.Reassembly
