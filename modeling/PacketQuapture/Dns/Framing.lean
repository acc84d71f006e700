import PacketQuapture.Dns.Framer
import PacketQuapture.Reassembly.Exactness

/-! Framing any reconstructed stream.
The data from the stream's first byte to its first gap splits in one way into whole frames and a
rest that starts no whole frame; the frames become the messages, and what stopped them decides the
diagnostic.
-/

namespace PacketQuapture.Dns

open Library Reassembly

/-! ### Splitting data into frames -/

/-- The data is whole frames and then bytes that start no whole frame. -/
structure Splits (data : List UInt8) (messages : List (List UInt8)) (rest : List UInt8) : Prop where
  joined : data = frames messages ++ rest
  frameable : ∀ message ∈ messages, Frameable message
  stopped : Unframed rest

variable {data rest : List UInt8} {messages : List (List UInt8)}
variable {stream : TcpStream}

theorem frameLength_lt (data : List UInt8) (offset : Nat) : frameLength data offset < 65536 := by
  have high := (data.getD offset 0).toNat_lt
  have low := (data.getD (offset + 1) 0).toNat_lt
  rw [frameLength, ← Nat.shiftLeft_add_eq_or_of_lt low, Nat.shiftLeft_eq]
  omega

/-- Bytes that start with a whole frame are that frame and the bytes after it. -/
theorem exists_frame (framed : ¬ Unframed data)
    : ∃ message after, data = frame message ++ after ∧ Frameable message := by
  simp only [Unframed, not_or, Nat.not_lt] at framed
  obtain ⟨two, long, whole⟩ := framed
  obtain ⟨high, low, tail, rfl⟩ : ∃ high low tail, data = high :: low :: tail := by
    cases data with
    | nil => cases two
    | cons high rest =>
      cases rest with
      | nil => simp at two
      | cons low tail => exact ⟨high, low, tail, rfl⟩
  have size : frameLength (high :: low :: tail) 0 = high.toNat * 256 + low.toNat := by
    show high.toNat <<< 8 ||| low.toNat = _
    rw [← Nat.shiftLeft_add_eq_or_of_lt low.toNat_lt, Nat.shiftLeft_eq]
  have limit := frameLength_lt (high :: low :: tail) 0
  have lowBound := low.toNat_lt
  simp only [List.length_cons] at whole
  have length : (tail.take (frameLength (high :: low :: tail) 0)).length
      = frameLength (high :: low :: tail) 0 := by
    rw [List.length_take]
    omega
  refine ⟨tail.take (frameLength (high :: low :: tail) 0),
    tail.drop (frameLength (high :: low :: tail) 0), ?_, by rw [Frameable, length]; omega⟩
  have highByte : UInt8.ofNat ((high.toNat * 256 + low.toNat) / 256) = high := by
    rw [show (high.toNat * 256 + low.toNat) / 256 = high.toNat by omega, UInt8.ofNat_toNat]
  have lowByte : UInt8.ofNat ((high.toNat * 256 + low.toNat) % 256) = low := by
    rw [show (high.toNat * 256 + low.toNat) % 256 = low.toNat by omega, UInt8.ofNat_toNat]
  rw [frame, length, size, highByte, lowByte, List.cons_append, List.cons_append,
    List.take_append_drop]

theorem not_unframed_frame {message : List UInt8} (fits : Frameable message) (after : List UInt8)
    : ¬ Unframed (frame message ++ after) := by
  have length := @frameLength_frame message fits.2 [] after
  simp only [List.nil_append, List.length_nil] at length
  have long := fits.1
  simp only [Unframed, length, List.length_append, length_frame]
  omega

theorem frame_inj {message other after further : List UInt8} (fits : Frameable message)
    (alsoFits : Frameable other) (same : frame message ++ after = frame other ++ further)
    : message = other ∧ after = further := by
  have length := @frameLength_frame message fits.2 [] after
  have otherLength := @frameLength_frame other alsoFits.2 [] further
  rw [List.nil_append, same] at length
  rw [List.nil_append, length] at otherLength
  obtain ⟨framed, rest⟩ := List.append_inj same (by rw [length_frame, length_frame, otherLength])
  simp only [frame, List.cons.injEq] at framed
  exact ⟨framed.2.2, rest⟩

theorem frames_cons_append (message : List UInt8) (later : List (List UInt8)) (rest : List UInt8)
    : frames (message :: later) ++ rest = frame message ++ (frames later ++ rest) := by
  rw [frames, List.flatMap_cons, List.append_assoc]
  rfl

theorem frames_nil_append (rest : List UInt8) : frames [] ++ rest = rest := rfl

/-- Data splits in one way only.
Witness: the first length says where the first frame ends.
-/
theorem Splits.unique {others : List (List UInt8)} {left : List UInt8}
    (splits : Splits data messages rest) (fellow : Splits data others left)
    : messages = others := by
  have joined := splits.joined.symm.trans fellow.joined
  have frameable := splits.frameable
  have alsoFrameable := fellow.frameable
  have stopped := splits.stopped
  have alsoStopped := fellow.stopped
  clear splits fellow
  induction messages generalizing others with
  | nil =>
    cases others with
    | nil => rfl
    | cons other later =>
      rw [frames_cons_append, frames_nil_append] at joined
      rw [joined] at stopped
      exact absurd stopped (not_unframed_frame (alsoFrameable other List.mem_cons_self) _)
  | cons message later ih =>
    have fits := frameable message List.mem_cons_self
    cases others with
    | nil =>
      rw [frames_cons_append, frames_nil_append] at joined
      rw [← joined] at alsoStopped
      exact absurd alsoStopped (not_unframed_frame fits _)
    | cons other further =>
      rw [frames_cons_append, frames_cons_append] at joined
      obtain ⟨rfl, rest⟩ := frame_inj fits (alsoFrameable other List.mem_cons_self) joined
      rw [ih rest (fun next member => frameable next (List.mem_cons_of_mem _ member))
        fun next member => alsoFrameable next (List.mem_cons_of_mem _ member)]

/-- Any data splits.
Witness: induction on its length; a whole frame is taken off the front.
-/
theorem exists_splits (data : List UInt8) : ∃ messages rest, Splits data messages rest := by
  induction size : data.length using Nat.strong_induction_on generalizing data with
  | _ size ih =>
    by_cases stopped : Unframed data
    · exact ⟨[], data, rfl, by simp, stopped⟩
    · obtain ⟨message, after, rfl, fits⟩ := exists_frame stopped
      rw [List.length_append, length_frame] at size
      obtain ⟨messages, rest, splits⟩ := ih after.length (by omega) after rfl
      refine ⟨message :: messages, rest, ?_, ?_, splits.stopped⟩
      · rw [frames_cons_append, ← splits.joined]
      · exact List.forall_mem_cons.mpr ⟨fits, splits.frameable⟩

/-! ### The leading chunk of a tiled stream -/

/-- The leading chunk ends before any gap, and inside the stream. -/
theorem leadingChunk_le (tiling : Tiling 0 stream.chunks stream.gaps stream.expectedBytes.toNat)
    : (leadingChunk stream).data.length ≤ stream.expectedBytes.toNat
      ∧ ∀ gap ∈ stream.gaps, (leadingChunk stream).data.length ≤ gap.offset.toNat := by
  unfold leadingChunk
  generalize stream.chunks = chunks at tiling ⊢
  generalize stream.gaps = gaps at tiling ⊢
  generalize stream.expectedBytes.toNat = stop at tiling ⊢
  cases tiling with
  | done => simp
  | @chunk _ _ chunk chunks gaps placed _ later =>
    have leading : chunk.offset = 0 := UInt32.toNat_inj.mp placed
    have ends := later.le
    have gapped := later.start_le.2
    rw [Nat.zero_add] at ends gapped
    dsimp only
    rw [if_pos leading]
    exact ⟨ends, gapped⟩
  | @gap _ _ gap chunks gaps placed occupied later =>
    have blank : ∀ chunk ∈ chunks, chunk.offset ≠ 0 := by
      intro chunk member leading
      have after := later.start_le.1 chunk member
      rw [leading, UInt32.toNat_zero] at after
      omega
    cases chunks with
    | nil => simp
    | cons chunk later =>
      dsimp only
      rw [if_neg (blank chunk List.mem_cons_self)]
      simp

/-! ### Framing -/

theorem leadingChunk_traced (traced : stream.Traced)
    : (leadingChunk stream).Traced := by
  have blank : ({} : TcpStreamChunk).Traced := ⟨by decide, .nil 0⟩
  unfold leadingChunk
  split
  case h_1 chunk chunks found =>
    split
    · exact traced chunk (by rw [found]; exact List.mem_cons_self)
    · exact blank
  · exact blank

/-- The row of a stream that ends inside a frame, or lacks bytes, at a stream offset. -/
def incompleteAt (stream : TcpStream) (offset : Nat) : TcpDnsMessage :=
  let cut := diagnostic stream .incomplete
    (if stream.gaps ≠ [] then "missing TCP bytes leave a sequence gap"
      else if stream.finalizedBy = "idle_timeout" then "incomplete DNS TCP frame at idle timeout"
      else "incomplete DNS TCP frame at end of stream")
  { cut with sequence := cut.sequence + UInt32.ofNat offset }

/-- The diagnostic after the whole frames of a stream that stopped at `offset`. -/
def closing (stream : TcpStream) (offset : Nat) (rest : List UInt8) : List TcpDnsMessage :=
  if Undersized rest then [invalidAt stream offset]
  else if offset < stream.expectedBytes.toNat then [incompleteAt stream offset]
  else []

/-- What framing a stream returns: its whole frames as messages and the closing diagnostic, or a
diagnostic alone when there are too many of them.
-/
structure Framed (limits : DnsFramingLimits) (stream : TcpStream) (messages : List (List UInt8))
    (rest : List UInt8) (result : List TcpDnsMessage) : Prop where
  splits : Splits (leadingChunk stream).data messages rest
  only : ∀ others left, Splits (leadingChunk stream).data others left → others = messages
  before : ∀ gap ∈ stream.gaps, (frames messages).length ≤ gap.offset.toNat
  excess : limits.maxMessages < messages.length → result = [limitReached stream]
  rows : messages.length ≤ limits.maxMessages → ∃ framed,
    result = framed ++ closing stream (frames messages).length rest
    ∧ framed.map TcpDnsMessage.view = completeViews stream.sequence 0 0 messages
  whole : messages.length ≤ limits.maxMessages →
    closing stream (frames messages).length rest = [] →
      (frames messages).length = stream.expectedBytes.toNat

theorem frameTcpDns_framed (limits : DnsFramingLimits)
    (live : ¬ (stream.status = .conflict ∨ stream.status = .limit)) (syn : stream.synSeen = true)
    (tiled : Tiling 0 stream.chunks stream.gaps stream.expectedBytes.toNat) (traced : stream.Traced)
    : ∃ messages rest result, frameTcpDns limits stream = .ok result
        ∧ Framed limits stream messages rest result := by
  obtain ⟨messages, rest, splits⟩ := exists_splits (leadingChunk stream).data
  obtain ⟨ends, gapped⟩ := leadingChunk_le tiled
  have trace := leadingChunk_traced traced
  have size : (leadingChunk stream).data.length = (frames messages).length + rest.length := by
    rw [splits.joined, List.length_append]
  have count := length_le_frames messages
  have before (gap : TcpGap) (member : gap ∈ stream.gaps)
      : (frames messages).length ≤ gap.offset.toNat := by
    have bound := gapped gap member
    omega
  have whole (silent : closing stream (frames messages).length rest = [])
      : (frames messages).length = stream.expectedBytes.toNat := by
    unfold closing at silent
    split at silent
    · cases silent
    · split at silent
      · cases silent
      · omega
  have unique (others : List (List UInt8)) (left : List UInt8)
      (fellow : Splits (leadingChunk stream).data others left) : others = messages :=
    fellow.unique splits
  unfold frameTcpDns
  rw [if_neg live, if_neg (by simp [syn])]
  dsimp only
  by_cases room : messages.length ≤ limits.maxMessages
  · obtain ⟨framed, loops, shown⟩ := @frameLoop_frames stream (leadingChunk stream) limits [] rest
      messages ((leadingChunk stream).data.length + 1) 0 trace []
      (by rw [List.nil_append]; exact splits.joined) splits.frameable splits.stopped (by omega)
      (by omega)
    rw [List.length_nil, Nat.zero_add, List.nil_append] at loops
    refine ⟨messages, rest, framed ++ closing stream (frames messages).length rest, ?_, splits,
      unique, before, fun excess => absurd room (Nat.not_le.mpr excess),
      fun _ => ⟨framed, rfl, shown⟩, fun _ => whole⟩
    rw [loops, ok_bind, closing]
    by_cases under : Undersized rest
    · rw [if_pos under, if_pos under]
      rfl
    · rw [if_neg under, if_neg under]
      dsimp only
      by_cases left : (frames messages).length < stream.expectedBytes.toNat
      · rw [if_pos (by omega), if_pos left]
        rfl
      · rw [if_neg (by omega), if_neg left, List.append_nil]
        rfl
  · have loops := @frameLoop_excess stream (leadingChunk stream) limits [] rest
      messages ((leadingChunk stream).data.length + 1) 0 trace []
      (by rw [List.nil_append]; exact splits.joined) splits.frameable (Nat.zero_le _) (by omega)
      (by omega)
    rw [List.length_nil] at loops
    refine ⟨messages, rest, [limitReached stream], ?_, splits, unique, before, fun _ => rfl,
      fun few => absurd few room, fun _ => whole⟩
    rw [loops]
    rfl

/-- Framing a stream that has its SYN returns its whole frames and at most one diagnostic, or the
limit diagnostic alone; one that the transport could not reconstruct only passes its own diagnostic
on.
Witness: the loop takes the frames off the leading chunk one by one.
-/
theorem frameTcpDns_exact {stream : TcpStream} (limits : DnsFramingLimits)
    (syn : stream.synSeen = true)
    (tiled : Tiling 0 stream.chunks stream.gaps stream.expectedBytes.toNat)
    (traced : stream.Traced)
    : (stream.status = .conflict →
        frameTcpDns limits stream = .ok [diagnostic stream .conflict stream.error])
      ∧ (stream.status = .limit →
        frameTcpDns limits stream = .ok [diagnostic stream .limit stream.error])
      ∧ (¬ (stream.status = .conflict ∨ stream.status = .limit) →
        ∃ messages rest result, frameTcpDns limits stream = .ok result
          ∧ Framed limits stream messages rest result) := by
  refine ⟨fun conflict => ?_, fun limit => ?_, fun live => frameTcpDns_framed limits live syn tiled
    traced⟩
  · rw [frameTcpDns, if_pos (.inl conflict), conflict]
    rfl
  · rw [frameTcpDns, if_pos (.inr limit), limit]
    rfl

/-- A stream of one frame with nothing but a DNS header, and a byte missing after it. -/
def headerStream : TcpStream :=
  { synSeen := true
    expectedBytes := 15
    status := .gapped
    chunks := [{ data := frame (List.replicate 12 0)
                 origins := [{ length := 14, stamp := { number := 1 } }] }]
    gaps := [{ offset := 14, length := 1 }] }

theorem headerStream_tiled
    : Tiling 0 headerStream.chunks headerStream.gaps headerStream.expectedBytes.toNat :=
  .chunk rfl (by decide) (.gap rfl (by decide) (.done 15))

theorem headerStream_traced : headerStream.Traced :=
  List.forall_mem_singleton.mpr ⟨by decide, .cons rfl (by decide) (.nil 14)⟩

/-- One header is framed from a stream that ends in a gap. -/
theorem frameTcpDns_exact_header
    : ∃ messages rest result, frameTcpDns {} headerStream = .ok result
        ∧ Framed {} headerStream messages rest result :=
  (frameTcpDns_exact {} rfl headerStream_tiled headerStream_traced).2.2 (by decide)

/-- A direction with its SYN whose two segments differ in their only byte. -/
def clashingFlow : Flow :=
  { hasSyn := true
    segments := [{ sequence := 1, declared := 1, stamp := {}, bytes := [1] },
      { sequence := 1, declared := 1, stamp := {}, bytes := [2] }] }

/-- A stream the transport could not reconstruct has its SYN, and no byte is expected of it, but
framing returns neither nothing nor one of the framer's own diagnostics.
-/
theorem frameTcpDns_conflict
    : ∃ stream, finish defaultLimits {} clashingFlow = .ok [stream]
        ∧ stream.synSeen = true
        ∧ Tiling 0 stream.chunks stream.gaps stream.expectedBytes.toNat
        ∧ stream.Traced
        ∧ ¬ ∃ messages rest result, frameTcpDns {} stream = .ok result
            ∧ Framed {} stream messages rest result := by
  refine ⟨Reassembly.diagnostic {} clashingFlow .conflict
    "overlapping TCP segments contain different bytes", rfl, rfl, .done 0,
    (diagnostic_traced _ _ _ _).2, ?_⟩
  rintro ⟨messages, rest, result, returned, framed⟩
  cases returned
  have empty : frames messages ++ rest = [] := framed.splits.joined.symm
  obtain ⟨none, rfl⟩ := List.append_eq_nil_iff.mp empty
  have silent : messages = [] := by
    have count := length_le_frames messages
    rw [none] at count
    exact List.eq_nil_of_length_eq_zero (Nat.le_zero.mp count)
  subst silent
  obtain ⟨rows, same, shown⟩ := framed.rows (Nat.zero_le _)
  obtain rfl : rows = [] := List.map_eq_nil_iff.mp shown
  cases same

end PacketQuapture.Dns
