import PacketQuapture.Library.Bisection
import PacketQuapture.Reassembly.Finish

/-! The packets a range of a chunk came from.
The origins `finish` records tile the chunk without a gap, so looking a range up in them fails no
assertion.
-/

namespace PacketQuapture.Reassembly

open Library

variable {start stop : Nat} {origins : List TcpByteOrigin}

/-! ### Looking up a range -/

/-- Widens the earliest and latest stamp seen so far by one more. -/
def widen (seen : Option (PacketStamp × PacketStamp)) (stamp : PacketStamp)
    : PacketStamp × PacketStamp :=
  match seen with
  | none => (stamp, stamp)
  | some (first, last) =>
    (if stamp.number < first.number then stamp else first,
      if last.number < stamp.number then stamp else last)

/-- Visits the origins that start before `stop`, each where the one before it ended. -/
def provenanceFrom (stop : Nat)
    : Nat → Option (PacketStamp × PacketStamp) → List TcpByteOrigin
      → Except Failure (Option (PacketStamp × PacketStamp))
  | _, seen, [] => .ok seen
  | expected, seen, origin :: rest =>
    if stop ≤ origin.offset.toNat then
      .ok seen
    else do
      require (origin.offset.toNat = expected) (.assertion .provenance)
      require (0 < origin.length) (.assertion .provenance)
      provenanceFrom stop (origin.offset + origin.length).toNat
        (some (widen seen origin.stamp)) rest

/-- The earliest and the latest packet that supplied a byte of the range; blank stamps for a range
outside the chunk.
-/
def TcpStreamChunk.provenance (chunk : TcpStreamChunk) (offset length : Nat)
    : Except Failure (PacketStamp × PacketStamp) :=
  if length = 0 ∨ chunk.data.length < offset ∨ chunk.data.length - offset < length then
    .ok ({}, {})
  else do
    -- the last origin that starts at the range's first byte or before it
    let upper := (chunk.origins.takeWhile fun origin => origin.offset.toNat ≤ offset).length
    require (upper ≠ 0) (.assertion .provenance)
    let origins := chunk.origins.drop (upper - 1)
    let expected := (origins.head?.map fun origin => origin.offset.toNat).getD 0
    let seen ← provenanceFrom (offset + length) expected none origins
    match seen with
    | none => .error (.assertion .provenance)
    | some stamps => return stamps

/-! ### Origins that tile a chunk -/

/-- The origins follow each other from `start` to `stop` without a gap, none of them empty. -/
inductive Tiles : Nat → List TcpByteOrigin → Nat → Prop
  | nil (start : Nat) : Tiles start [] start
  | cons {start stop : Nat} {origin : TcpByteOrigin} {rest : List TcpByteOrigin}
    (placed : origin.offset.toNat = start) (occupied : 0 < origin.length.toNat)
    (later : Tiles (start + origin.length.toNat) rest stop)
    : Tiles start (origin :: rest) stop

theorem Tiles.le (tiles : Tiles start origins stop)
    : start ≤ stop := by
  induction tiles with
  | nil => exact le_rfl
  | cons _ _ _ ih => omega

/-- The origins of a chunk tile it.
Witness: induction on the fuel; each pass takes a non-empty run.
-/
theorem emitOrigins_tiles (segments : List Segment) {fuel offset : Nat} {cells : List Cell}
    (enough : cells.length ≤ fuel) (fits : offset + cells.length < 2 ^ 32)
    : Tiles offset (emitOrigins segments fuel offset cells) (offset + cells.length) := by
  induction fuel generalizing offset cells with
  | zero =>
    obtain rfl := List.length_eq_zero_iff.mp (Nat.le_zero.mp enough)
    exact .nil offset
  | succ fuel ih =>
    cases cells with
    | nil => exact .nil offset
    | cons cell rest =>
      unfold emitOrigins
      dsimp only
      have sublist := List.takeWhile_prefix (p := fun next => decide (next.owner = cell.owner))
        (l := cell :: rest)
      have shorter := sublist.length_le
      have occupied : 0 < ((cell :: rest).takeWhile
          fun next => decide (next.owner = cell.owner)).length := by
        simp
      generalize ((cell :: rest).takeWhile
        fun next => decide (next.owner = cell.owner)).length = size at shorter occupied ⊢
      have left := List.length_drop (i := size) (l := cell :: rest)
      simp only [List.length_cons] at enough fits shorter left
      have rest_tiles := @ih (offset + size) ((cell :: rest).drop size) (by omega) (by omega)
      refine .cons ?_ ?_ ?_
      · exact UInt32.toNat_ofNat_of_lt' (by simp only [UInt32.size]; omega)
      · rw [UInt32.toNat_ofNat_of_lt' (by simp only [UInt32.size]; omega)]
        exact occupied
      · rw [UInt32.toNat_ofNat_of_lt' (by simp only [UInt32.size]; omega)]
        have whole : offset + size + ((cell :: rest).drop size).length
            = offset + (cell :: rest).length := by
          simp only [List.length_cons]
          omega
        rw [← whole]
        exact rest_tiles

theorem Tiles.of_mem (tiles : Tiles start origins stop)
    : ∀ origin ∈ origins, start ≤ origin.offset.toNat ∧ 0 < origin.length.toNat := by
  induction tiles with
  | nil => exact fun _ member => absurd member List.not_mem_nil
  | cons placed occupied _ ih =>
    refine List.forall_mem_cons.mpr ⟨⟨placed.ge, occupied⟩, fun origin member => ?_⟩
    exact (ih origin member).imp_left (Nat.le_add_right ..).trans

/-- The origins that start at a place or before it come first. -/
theorem Tiles.partitioned (tiles : Tiles start origins stop) (limit : Nat)
    : Partitioned (fun origin => decide (origin.offset.toNat ≤ limit)) origins := by
  induction tiles with
  | nil => exact .nil
  | cons placed _ later ih =>
    refine List.pairwise_cons.mpr ⟨fun origin member before => ?_, ih⟩
    have after := later.of_mem origin member
    rw [decide_eq_true_eq] at before ⊢
    omega

/-- Whether an origin supplied a byte from `offset` on and before `stop`. -/
def TcpByteOrigin.overlaps (offset stop : Nat) (origin : TcpByteOrigin) : Bool :=
  offset < origin.offset.toNat + origin.length.toNat && origin.offset.toNat < stop

/-- Visiting the origins from the last one that starts at the range's first byte or before it scans
all that overlap the range.
-/
theorem Tiles.visited {offset limit : Nat} (tiles : Tiles start origins stop)
    (reached : start ≤ offset) (inside : offset < stop) (before : offset < limit)
    : ∃ origin rest earlier,
        (origins.takeWhile fun origin => decide (origin.offset.toNat ≤ offset)).length = earlier + 1
        ∧ origins.drop earlier = origin :: rest
        ∧ Tiles origin.offset.toNat (origin :: rest) stop
        ∧ (origin :: rest).takeWhile (fun origin => decide (origin.offset.toNat < limit))
          = origins.filter (TcpByteOrigin.overlaps offset limit)
        ∧ origin.offset.toNat < limit := by
  induction tiles with
  | nil => omega
  | @cons start stop origin rest placed occupied later ih =>
    rw [List.takeWhile_cons_of_pos (by simpa [placed] using reached), List.length_cons]
    rcases Nat.lt_or_ge offset (start + origin.length.toNat) with here | beyond
    · have after := later.of_mem
      have tail : Tiles origin.offset.toNat (origin :: rest) stop :=
        .cons rfl occupied (placed ▸ later)
      have none_after : rest.takeWhile (fun origin => decide (origin.offset.toNat ≤ offset)) = [] := by
        refine List.takeWhile_eq_nil_iff.mpr fun some_origin found => ?_
        have bound := after _ (List.get_mem rest ⟨0, some_origin⟩)
        rw [decide_eq_true_eq] at found
        omega
      refine ⟨origin, rest, 0, by rw [none_after]; rfl, rfl, tail, ?_, by omega⟩
      have same : (fun other : TcpByteOrigin => decide (other.offset.toNat < limit))
          = fun other => decide (other.offset.toNat ≤ limit - 1) := by
        funext other
        exact decide_eq_decide.mpr (by omega)
      rw [same, (tail.partitioned _).takeWhile_eq_filter]
      refine List.filter_congr fun other member => ?_
      rw [TcpByteOrigin.overlaps, Bool.eq_iff_iff, Bool.and_eq_true, decide_eq_true_eq,
        decide_eq_true_eq, decide_eq_true_eq]
      rcases List.mem_cons.mp member with rfl | later
      · omega
      · have bound := after other later
        omega
    · obtain ⟨next, following, earlier, count, dropped, rest⟩ := ih beyond inside
      refine ⟨next, following, earlier + 1, by rw [count], dropped, ?_⟩
      rw [List.filter_cons_of_neg]
      · exact rest
      · simp only [TcpByteOrigin.overlaps, Bool.and_eq_true, decide_eq_true_eq]
        omega

/-- The first and the last of some packets by number. -/
structure Extremes (packets : List PacketStamp) (first last : PacketStamp) : Prop where
  starts : first ∈ packets
  ends : last ∈ packets
  between : ∀ packet ∈ packets, first.number ≤ packet.number ∧ packet.number ≤ last.number

/-- What the loop has seen after some more packets. -/
def widened (seen : Option (PacketStamp × PacketStamp)) (packets : List PacketStamp)
    : Option (PacketStamp × PacketStamp) :=
  packets.foldl (fun seen packet => some (widen seen packet)) seen

theorem Extremes.widened {packets : List PacketStamp} {first last : PacketStamp}
    (extremes : Extremes packets first last) (more : List PacketStamp)
    : ∃ earliest latest, widened (some (first, last)) more = some (earliest, latest)
        ∧ Extremes (packets ++ more) earliest latest := by
  induction more generalizing packets first last with
  | nil => exact ⟨first, last, rfl, by rwa [List.append_nil]⟩
  | cons packet more ih =>
    rw [List.append_cons]
    refine ih ⟨?_, ?_, ?_⟩
    · split
      · exact List.mem_append_right _ List.mem_cons_self
      · exact List.mem_append_left _ extremes.starts
    · split
      · exact List.mem_append_right _ List.mem_cons_self
      · exact List.mem_append_left _ extremes.ends
    · intro other member
      have bounds : first.number ≤ other.number ∧ other.number ≤ last.number ∨ other = packet := by
        simpa [or_imp] using (List.mem_append.mp member).imp_left (extremes.between other)
      have ordered := (extremes.between first extremes.starts).2
      rcases bounds with bounds | rfl
      · constructor <;> split <;> omega
      · constructor <;> split <;> omega

/-- The visit takes the packets of the origins that start before its end. -/
theorem provenanceFrom_eq {limit : Nat} {seen : Option (PacketStamp × PacketStamp)}
    (tiles : Tiles start origins stop) (fits : stop < 2 ^ 32)
    : provenanceFrom limit start seen origins
      = .ok (widened seen ((origins.takeWhile fun origin =>
          decide (origin.offset.toNat < limit)).map TcpByteOrigin.stamp)) := by
  induction tiles generalizing seen with
  | nil => rfl
  | @cons start stop origin rest placed occupied later ih =>
    have bound := later.le
    have sum : (origin.offset + origin.length).toNat = start + origin.length.toNat := by
      rw [UInt32.toNat_add, placed]
      exact Nat.mod_eq_of_lt (by omega)
    have positive : 0 < origin.length := UInt32.lt_iff_toNat_lt.mpr (by simpa using occupied)
    rw [provenanceFrom]
    by_cases ended : limit ≤ origin.offset.toNat
    · rw [if_pos ended, List.takeWhile_cons_of_neg (by simpa using ended)]
      rfl
    · rw [if_neg ended, require_eq_ok _ placed, require_eq_ok _ positive, ok_bind, ok_bind, sum,
        ih fits, List.takeWhile_cons_of_pos (by simpa using ended)]
      rfl

/-- The origins of a chunk cover its data. -/
def TcpStreamChunk.Traced (chunk : TcpStreamChunk) : Prop :=
  chunk.data.length < 2 ^ 32 ∧ Tiles 0 chunk.origins chunk.data.length

/-- Looking up a range of a traced chunk finds the first and the last of the packets whose origins
overlap it.
-/
theorem TcpStreamChunk.Traced.provenance_eq {chunk : TcpStreamChunk} (traced : chunk.Traced)
    {offset length : Nat} (some_byte : 0 < length) (inside : offset + length ≤ chunk.data.length)
    : ∃ first last, chunk.provenance offset length = .ok (first, last)
        ∧ Extremes ((chunk.origins.filter (TcpByteOrigin.overlaps offset (offset + length))).map
          TcpByteOrigin.stamp) first last := by
  obtain ⟨fits, tiles⟩ := traced
  obtain ⟨origin, rest, earlier, count, dropped, tail, scanned, before⟩ :=
    @Tiles.visited 0 chunk.data.length chunk.origins offset (offset + length) tiles
      (Nat.zero_le _) (by omega) (by omega)
  rw [List.takeWhile_cons_of_pos (by simpa using before)] at scanned
  have alone : Extremes [origin.stamp] origin.stamp origin.stamp :=
    ⟨List.mem_singleton_self _, List.mem_singleton_self _, by simp⟩
  obtain ⟨first, last, found, extremes⟩ := alone.widened
    ((rest.takeWhile fun origin => decide (origin.offset.toNat < offset + length)).map
      TcpByteOrigin.stamp)
  rw [← scanned]
  refine ⟨first, last, ?_, extremes⟩
  unfold TcpStreamChunk.provenance
  rw [if_neg (by omega)]
  dsimp only
  rw [count, require_eq_ok _ (Nat.succ_ne_zero _), ok_bind, Nat.add_sub_cancel, dropped,
    List.head?_cons, Option.map_some, Option.getD_some, provenanceFrom_eq tail fits, ok_bind,
    List.takeWhile_cons_of_pos (by simpa using before), List.map_cons]
  exact congrArg (fun seen => (match seen with
    | none => .error (.assertion .provenance)
    | some stamps => return stamps : Except Failure (PacketStamp × PacketStamp))) found

/-- Looking up any range of a traced chunk returns. -/
theorem TcpStreamChunk.Traced.provenance_returns {chunk : TcpStreamChunk} (traced : chunk.Traced)
    (offset length : Nat)
    : ∃ stamps, chunk.provenance offset length = .ok stamps := by
  by_cases outside : length = 0 ∨ chunk.data.length < offset ∨ chunk.data.length - offset < length
  · exact ⟨_, if_pos outside⟩
  · have inside : offset + length ≤ chunk.data.length := by omega
    obtain ⟨first, last, found, _⟩ := traced.provenance_eq (by omega) inside
    exact ⟨_, found⟩

/-! ### Finished streams -/

/-- Every chunk of the stream can be traced to its packets. -/
def TcpStream.Traced (stream : TcpStream) : Prop :=
  ∀ chunk ∈ stream.chunks, chunk.Traced

theorem chunkOf_traced (segments : List Segment) (sequence : UInt32) {piece : Nat × List Cell}
    (fits : piece.2.length < 2 ^ 32)
    : (chunkOf segments sequence piece).Traced := by
  refine ⟨by simpa [chunkOf] using fits, ?_⟩
  have tiles := @emitOrigins_tiles segments piece.2.length 0 piece.2 le_rfl (by omega)
  simpa [chunkOf] using tiles

theorem emit_traced (flow : Flow) {cells : List Cell} {stream : TcpStream}
    (blank : stream.chunks = []) (fits : cells.length < 2 ^ 32)
    : (emit flow cells stream).Traced := by
  intro chunk member
  rw [emit, emitFrom_eq, blank, List.nil_append] at member
  obtain ⟨piece, kept, rfl⟩ := List.mem_map.mp member
  obtain ⟨run, _⟩ := List.mem_filter.mp kept
  obtain ⟨_, _, upper, _⟩ := mem_runs run
  exact chunkOf_traced _ _ (by omega)

theorem judge_traced (flow : Flow) {stream : TcpStream} (traced : stream.Traced)
    : (judge flow stream).synSeen = stream.synSeen ∧ (judge flow stream).Traced := by
  unfold judge
  split
  · exact ⟨rfl, traced⟩
  split
  · exact ⟨rfl, traced⟩
  · exact ⟨rfl, traced⟩

theorem diagnostic_traced (key : TcpFlowKey) (flow : Flow) (status : TcpStreamStatus)
    (error : String)
    : (diagnostic key flow status error).synSeen = flow.hasSyn
      ∧ (diagnostic key flow status error).Traced :=
  ⟨rfl, fun _ absent => by cases absent⟩

/-- A stream that finishing yields is a diagnostic, or what the overlay of its direction's segments
emits.
-/
theorem finish_streams {limits : AcceptedLimits} {key : TcpFlowKey} {flow : Flow}
    {messages : List TcpStream} (finished : finish limits key flow = .ok messages)
    {stream : TcpStream} (member : stream ∈ messages)
    : (∃ status error, stream = diagnostic key flow status error)
      ∨ ∃ offsets extent cells, measure limits key flow (streamBase flow) = .ok (offsets, extent)
        ∧ overlay 0 flow.segments offsets (List.replicate extent {}) = some cells
        ∧ stream = judge flow (emit flow cells
          { diagnostic key flow .contiguous "" with
            sequence := streamBase flow
            expectedBytes := UInt32.ofNat extent }) := by
  unfold finish at finished
  split at finished
  · cases finished
    exact .inl ⟨_, _, List.mem_singleton.mp member⟩
  split at finished
  · cases finished
    cases member
  split at finished
  · cases finished
    cases member
  dsimp only at finished
  split at finished
  case h_1 failed measured =>
    obtain ⟨status, error, rfl, _⟩ := measure_eq_error measured
    cases finished
    exact .inl ⟨status, error, List.mem_singleton.mp member⟩
  case h_2 offsets extent measured =>
    obtain ⟨_, _, finished⟩ := bind_eq_ok.mp finished
    split at finished
    · cases finished
      exact .inl ⟨_, _, List.mem_singleton.mp member⟩
    case h_2 cells wrote =>
      cases finished
      split at member
      · exact .inr ⟨offsets, extent, cells, measured, wrote, List.mem_singleton.mp member⟩
      · cases member

/-- A finished stream tells whether its SYN was seen, and its chunks can be traced. -/
theorem finish_traced {limits : AcceptedLimits} {key : TcpFlowKey} {flow : Flow}
    {messages : List TcpStream} (sound : flow.Sound)
    (finished : finish limits key flow = .ok messages)
    : ∀ stream ∈ messages, stream.synSeen = flow.hasSyn ∧ stream.Traced := by
  intro stream member
  rcases finish_streams finished member with ⟨status, error, rfl⟩ | ⟨offsets, extent, cells,
    measured, wrote, rfl⟩
  · exact diagnostic_traced _ _ _ _
  · obtain ⟨length, _⟩ := overlay_blank_eq_some (sound.inside measured) sound.counted wrote
    have window := (measure_eq_ok measured).2.2
    have room := limits.streamBytesFit
    have traced := @emit_traced flow cells
      { diagnostic key flow .contiguous "" with
        sequence := streamBase flow
        expectedBytes := UInt32.ofNat extent } rfl (by omega)
    obtain ⟨seen, kept⟩ := judge_traced flow traced
    refine ⟨seen.trans ?_, kept⟩
    rw [emit, emitFrom_eq]
    rfl

end PacketQuapture.Reassembly
