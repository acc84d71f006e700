import PacketQuapture.Reassembly.Overlay
import PacketQuapture.Library.Runs

/-! Emitting a stream: its chunks are the maximal owned runs of the overlay and its gaps the
maximal unowned ones, so offsets, sequences and data depend on the bytes alone and not on which
segment supplied them.
-/

namespace PacketQuapture.Reassembly

open Library

def Cell.owned (cell : Cell) : Bool :=
  cell.owner ≠ unowned

theorem Cell.isSome_content (cell : Cell) : cell.content.isSome = cell.owned := by
  unfold content owned
  split <;> simp [*]

/-! ### Emission as runs -/

def chunkRuns (pieces : List (Nat × List Cell)) : List (Nat × List Cell) :=
  pieces.filter fun piece => piece.2.any Cell.owned

def gapRuns (pieces : List (Nat × List Cell)) : List (Nat × List Cell) :=
  pieces.filter fun piece => !piece.2.any Cell.owned

def chunkOf (segments : List Segment) (sequence : UInt32) (piece : Nat × List Cell)
    : TcpStreamChunk :=
  { offset := UInt32.ofNat piece.1
    sequence := sequence + UInt32.ofNat piece.1
    data := piece.2.map Cell.byte
    origins := emitOrigins segments piece.2.length 0 piece.2 }

def gapOf (piece : Nat × List Cell) : TcpGap :=
  { offset := UInt32.ofNat piece.1, length := UInt32.ofNat piece.2.length }

theorem leadingRun_unowned {cell : Cell} (rest : List Cell) (free : cell.owner = unowned)
    : leadingRun Cell.owned (cell :: rest)
      = (cell :: rest).takeWhile fun next => next.owner = unowned := by
  simp [leadingRun, Cell.owned, free]

theorem leadingRun_owned {cell : Cell} (rest : List Cell) (taken : cell.owner ≠ unowned)
    : leadingRun Cell.owned (cell :: rest)
      = (cell :: rest).takeWhile fun next => next.owner ≠ unowned := by
  simp [leadingRun, Cell.owned, taken]

theorem any_owned_leadingRun (cell : Cell) (rest : List Cell)
    : (leadingRun Cell.owned (cell :: rest)).any Cell.owned = cell.owned := by
  cases owned : cell.owned with
  | true =>
    refine List.any_eq_true.mpr ⟨cell, ?_, owned⟩
    simp [leadingRun]
  | false =>
    refine List.any_eq_false.mpr fun next member => ?_
    rw [key_of_mem_leadingRun member, owned]
    exact Bool.false_ne_true

/-- The loop appends one gap or chunk per maximal run.
Witness: induction on the fuel; one pass takes the leading run.
-/
theorem emitFrom_eq (segments : List Segment) (fuel offset : Nat) (cells : List Cell)
    (stream : TcpStream)
    : emitFrom segments fuel offset cells stream
      = { stream with
          gaps := stream.gaps ++ (gapRuns (runs Cell.owned fuel offset cells)).map gapOf
          chunks := stream.chunks
            ++ (chunkRuns (runs Cell.owned fuel offset cells)).map
              (chunkOf segments stream.sequence)
          capturedBytes := stream.capturedBytes
            + ((chunkRuns (runs Cell.owned fuel offset cells)).map
              fun piece => UInt32.ofNat piece.2.length).sum } := by
  induction fuel generalizing offset cells stream with
  | zero => simp [emitFrom, runs, gapRuns, chunkRuns]
  | succ fuel ih =>
    cases cells with
    | nil => simp [emitFrom, runs, gapRuns, chunkRuns]
    | cons cell rest =>
      have leads := any_owned_leadingRun cell rest
      unfold emitFrom
      dsimp only
      split
      case isTrue free =>
        have unownedLead : cell.owned = false := by simp [Cell.owned, free]
        rw [← leadingRun_unowned rest free, ih]
        simp [runs, gapRuns, chunkRuns, leads, unownedLead, gapOf]
      case isFalse taken =>
        have ownedLead : cell.owned = true := by simp [Cell.owned, taken]
        rw [← leadingRun_owned rest taken, ih]
        simp [runs, gapRuns, chunkRuns, leads, ownedLead, chunkOf, UInt32.add_assoc]

/-! ### What does not depend on the owners -/

/-- A chunk without its origins. -/
structure ChunkView where
  offset : UInt32
  sequence : UInt32
  data : List UInt8
deriving DecidableEq, Repr

def TcpStreamChunk.view (chunk : TcpStreamChunk) : ChunkView :=
  { offset := chunk.offset, sequence := chunk.sequence, data := chunk.data }

/-- The chunk views a list of contents gives, in order. -/
def chunkViews (sequence : UInt32) (contents : List (Option UInt8)) : List ChunkView :=
  ((runs Option.isSome contents.length 0 contents).filter fun piece =>
    piece.2.any Option.isSome).map fun piece =>
      { offset := UInt32.ofNat piece.1
        sequence := sequence + UInt32.ofNat piece.1
        data := piece.2.reduceOption }

def gapViews (contents : List (Option UInt8)) : List TcpGap :=
  ((runs Option.isSome contents.length 0 contents).filter fun piece =>
    !piece.2.any Option.isSome).map fun piece =>
      { offset := UInt32.ofNat piece.1, length := UInt32.ofNat piece.2.length }

def capturedIn (contents : List (Option UInt8)) : UInt32 :=
  (((runs Option.isSome contents.length 0 contents).filter fun piece =>
    piece.2.any Option.isSome).map fun piece => UInt32.ofNat piece.2.length).sum

theorem runs_content (cells : List Cell)
    : runs Option.isSome cells.length 0 (cells.map Cell.content)
      = (runs Cell.owned cells.length 0 cells).map
          fun piece => (piece.1, piece.2.map Cell.content) := by
  rw [runs_map]
  simp only [Cell.isSome_content]

theorem reduceOption_content {run : List Cell} (owned : ∀ cell ∈ run, cell.owned = true)
    : (run.map Cell.content).reduceOption = run.map Cell.byte := by
  induction run with
  | nil => rfl
  | cons cell rest ih =>
    have taken : cell.owner ≠ unowned := by
      simpa [Cell.owned] using owned cell List.mem_cons_self
    have here : cell.content = some cell.byte := if_neg taken
    rw [List.map_cons, List.map_cons, here, List.reduceOption_cons_of_some,
      ih fun next member => owned next (List.mem_cons_of_mem _ member)]

theorem owned_of_mem_chunkRuns {fuel offset : Nat} {cells : List Cell} {piece : Nat × List Cell}
    (member : piece ∈ chunkRuns (runs Cell.owned fuel offset cells))
    : ∀ cell ∈ piece.2, cell.owned = true := by
  obtain ⟨run, some⟩ := List.mem_filter.mp member
  obtain ⟨owner, ownerIn, owned⟩ := List.any_eq_true.mp some
  obtain ⟨_, _, _, uniform⟩ := mem_runs run
  intro cell cellIn
  rw [uniform cell cellIn owner ownerIn, owned]

/-- Emitting on a blank stream shows exactly the views of the overlay's contents. -/
theorem emit_views (flow : Flow) (cells : List Cell) (stream : TcpStream)
    (noGaps : stream.gaps = []) (noChunks : stream.chunks = [])
    (noBytes : stream.capturedBytes = 0)
    : (emit flow cells stream).gaps = gapViews (cells.map Cell.content)
      ∧ (emit flow cells stream).chunks.map TcpStreamChunk.view
        = chunkViews stream.sequence (cells.map Cell.content)
      ∧ (emit flow cells stream).capturedBytes = capturedIn (cells.map Cell.content) := by
  have pulled (piece : Nat × List Cell)
      : (piece.2.map Cell.content).any Option.isSome = piece.2.any Cell.owned := by
    rw [List.any_map]
    exact congrArg piece.2.any (funext Cell.isSome_content)
  have pieces := runs_content cells
  unfold emit
  rw [emitFrom_eq]
  refine ⟨?_, ?_, ?_⟩
  · simp only [noGaps, List.nil_append, gapViews, pieces, List.filter_map, Function.comp_def,
      pulled, List.map_map, List.length_map]
    rfl
  · simp only [noChunks, List.nil_append, List.map_map, chunkViews, List.length_map, pieces,
      List.filter_map, Function.comp_def, pulled]
    refine List.map_congr_left fun piece member => ?_
    simp only [TcpStreamChunk.view, chunkOf, reduceOption_content (owned_of_mem_chunkRuns member)]
  · simp only [noBytes, UInt32.zero_add, capturedIn, pieces, List.filter_map, Function.comp_def,
      pulled, List.map_map, List.length_map]
    rfl

theorem map_some_reduceOption {list : List (Option UInt8)}
    (full : ∀ item ∈ list, item.isSome = true)
    : list.reduceOption.map some = list := by
  induction list with
  | nil => rfl
  | cons head rest ih =>
    obtain ⟨byte, rfl⟩ := Option.isSome_iff_exists.mp (full head List.mem_cons_self)
    rw [List.reduceOption_cons_of_some, List.map_cons,
      ih fun item member => full item (List.mem_cons_of_mem _ member)]

theorem exists_mem_chunkViews {contents : List (Option UInt8)} {pos : Nat} {byte : UInt8}
    (sequence : UInt32) (fits : contents.length < 2 ^ 32)
    (held : contents[pos]? = some (some byte))
    : ∃ view ∈ chunkViews sequence contents,
        ∃ within, view.data[within]? = some byte ∧ view.offset.toNat + within = pos := by
  obtain ⟨piece, run, within, place, found⟩ :=
    exists_mem_runs Option.isSome 0 (le_refl contents.length) held
  obtain ⟨_, _, upper, uniform⟩ := mem_runs run
  have member := List.mem_of_getElem? found
  have full : ∀ item ∈ piece.2, item.isSome = true := fun item itemIn =>
    uniform item itemIn (some byte) member
  refine ⟨_, List.mem_map.mpr ⟨piece, List.mem_filter.mpr ⟨run, ?_⟩, rfl⟩, within, ?_, ?_⟩
  · exact List.any_eq_true.mpr ⟨some byte, member, rfl⟩
  · rw [← map_some_reduceOption full, List.getElem?_map] at found
    simpa using found
  · dsimp only
    rw [UInt32.toNat_ofNat_of_lt' (by simp only [UInt32.size]; omega)]
    omega

end PacketQuapture.Reassembly
