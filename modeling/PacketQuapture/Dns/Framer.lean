import PacketQuapture.Reassembly.Provenance

/-! DNS messages framed over a TCP stream: each is preceded by its length in two bytes, most
significant first. Framing a stream of whole frames yields the messages.
-/

namespace PacketQuapture.Dns

open Library Reassembly

/-! ### Framed messages -/

inductive DnsFrameStatus where
  | unset
  | complete
  | incomplete
  | invalid
  | unanchored
  | conflict
  | limit
deriving DecidableEq, Repr

structure TcpDnsMessage where
  key : TcpFlowKey := {}
  tcp : Bool := true
  streamId : Nat := 0
  messageNumber : Nat := 0
  sequence : UInt32 := 0
  first : PacketStamp := {}
  last : PacketStamp := {}
  status : DnsFrameStatus := .unset
  error : String := ""
  data : List UInt8 := []
deriving DecidableEq, Repr

structure DnsFramingLimits where
  maxMessages : Nat := 4096

inductive FramingFailure where
  /-- The stream status has no message status. -/
  | status
  /-- The framing position passed the end of the data. -/
  | offset
  | provenance (failure : Failure)
  | outOfFuel
deriving DecidableEq, Repr

/-- The message status of a stream the transport could not reconstruct. -/
def failedStreamStatus : TcpStreamStatus → Except FramingFailure DnsFrameStatus
  | .conflict => .ok .conflict
  | .limit => .ok .limit
  | .unset | .contiguous | .gapped | .unanchored => .error .status

def diagnostic (stream : TcpStream) (status : DnsFrameStatus) (error : String) : TcpDnsMessage :=
  { key := stream.key
    streamId := stream.streamId
    sequence := stream.sequence
    first := stream.first
    last := stream.last
    status
    error }

/-- Looks a range up in the chunk, raising the lookup's assertion as the framer's own. -/
def provenanceOf (chunk : TcpStreamChunk) (offset length : Nat)
    : Except FramingFailure (PacketStamp × PacketStamp) :=
  (chunk.provenance offset length).mapError .provenance

/-- The length a frame starts with. -/
def frameLength (data : List UInt8) (offset : Nat) : Nat :=
  (data.getD offset 0).toNat <<< 8 ||| (data.getD (offset + 1) 0).toNat

/-- The row of a whole frame at a stream offset. -/
def completed (stream : TcpStream) (offset number : Nat) (stamps : PacketStamp × PacketStamp)
    (data : List UInt8)
    : TcpDnsMessage :=
  let message := diagnostic stream .complete ""
  { message with
    messageNumber := number
    sequence := message.sequence + UInt32.ofNat offset
    first := stamps.1
    last := stamps.2
    data }

/-- The loop of `frameTcpDns`: each pass consumes one whole frame or stops. On the left the messages
it returns at once, on the right where it stopped and the messages before.
-/
def frameLoop (stream : TcpStream) (chunk : TcpStreamChunk) (limits : DnsFramingLimits)
    : Nat → Nat → Nat → List TcpDnsMessage
      → Except FramingFailure (List TcpDnsMessage ⊕ Nat × List TcpDnsMessage)
  | 0, _, _, _ => .error .outOfFuel
  | fuel + 1, offset, number, result =>
    let available := chunk.data.length
    -- the unsigned difference of an offset past the end is not below two
    if offset ≤ available ∧ available - offset < 2 then
      .ok (.inr (offset, result))
    else do
      require (offset ≤ available) .offset
      let length := frameLength chunk.data offset
      if length < 12 then
        let invalid :=
          diagnostic stream .invalid "DNS TCP frame length is shorter than the DNS header"
        return .inl (result
          ++ [{ invalid with sequence := invalid.sequence + UInt32.ofNat offset }])
      else if available - offset - 2 < length then
        return .inr (offset, result)
      else if limits.maxMessages ≤ number then
        return .inl [diagnostic stream .limit "DNS message count exceeds per-direction limit"]
      else do
        let stamps ← provenanceOf chunk offset (length + 2)
        frameLoop stream chunk limits fuel (offset + length + 2) (number + 1)
          (result
            ++ [completed stream offset (number + 1) stamps
                  ((chunk.data.drop (offset + 2)).take length)])

/-- The chunk the stream's first byte is in; a blank one when that byte is missing. -/
def leadingChunk (stream : TcpStream) : TcpStreamChunk :=
  match stream.chunks with
  | chunk :: _ => if chunk.offset = 0 then chunk else {}
  | [] => {}

def frameTcpDns (limits : DnsFramingLimits) (stream : TcpStream)
    : Except FramingFailure (List TcpDnsMessage) :=
  if stream.status = .conflict ∨ stream.status = .limit then do
    let status ← failedStreamStatus stream.status
    return [diagnostic stream status stream.error]
  else if ¬ stream.synSeen then
    .ok [diagnostic stream .unanchored
      "TCP SYN was not captured; DNS message alignment is unknown"]
  else do
    let chunk := leadingChunk stream
    let stopped ← frameLoop stream chunk limits (chunk.data.length + 1) 0 0 []
    match stopped with
    | .inl messages => return messages
    | .inr (offset, messages) =>
      if offset ≠ stream.expectedBytes.toNat then
        -- a message cut by the idle timeout may resume later, so it is named for it
        let error :=
          if stream.gaps ≠ [] then "missing TCP bytes leave a sequence gap"
          else if stream.finalizedBy = "idle_timeout" then
            "incomplete DNS TCP frame at idle timeout"
          else "incomplete DNS TCP frame at end of stream"
        let cut := diagnostic stream .incomplete error
        return messages ++ [{ cut with sequence := cut.sequence + UInt32.ofNat offset }]
      else
        return messages

/-- Frames the streams one after the other. -/
def frameStreams (limits : DnsFramingLimits) (streams : List TcpStream)
    : Except FramingFailure (List TcpDnsMessage) := do
  let messages ← streams.mapM (frameTcpDns limits)
  return messages.flatten

/-! ### Whole frames -/

/-- A message as it travels: its length in two bytes, then its bytes. -/
def frame (message : List UInt8) : List UInt8 :=
  UInt8.ofNat (message.length / 256) :: UInt8.ofNat (message.length % 256) :: message

def frames (messages : List (List UInt8)) : List UInt8 :=
  messages.flatMap frame

/-- A message that fits a frame and has room for the DNS header. -/
def Frameable (message : List UInt8) : Prop :=
  12 ≤ message.length ∧ message.length ≤ 65535

@[simp] theorem length_frame (message : List UInt8)
    : (frame message).length = message.length + 2 := rfl

theorem length_frames_cons (message : List UInt8) (rest : List (List UInt8))
    : (frames (message :: rest)).length = message.length + 2 + (frames rest).length := by
  simp [frames]

theorem length_le_frames (messages : List (List UInt8))
    : messages.length ≤ (frames messages).length := by
  induction messages with
  | nil => exact Nat.zero_le _
  | cons message rest ih =>
    rw [length_frames_cons, List.length_cons]
    omega

theorem frameLength_frame {message : List UInt8} (fits : message.length ≤ 65535)
    (before after : List UInt8)
    : frameLength (before ++ frame message ++ after) before.length = message.length := by
  have high : (UInt8.ofNat (message.length / 256)).toNat = message.length / 256 :=
    UInt8.toNat_ofNat_of_lt' (by simp only [UInt8.size]; omega)
  have low : (UInt8.ofNat (message.length % 256)).toNat = message.length % 256 :=
    UInt8.toNat_ofNat_of_lt' (by simp only [UInt8.size]; omega)
  have first : (before ++ frame message ++ after).getD before.length 0
      = UInt8.ofNat (message.length / 256) := by
    simp [frame, List.getD_eq_getElem?_getD]
  have second : (before ++ frame message ++ after).getD (before.length + 1) 0
      = UInt8.ofNat (message.length % 256) := by
    simp [frame, List.getD_eq_getElem?_getD]
  unfold frameLength
  rw [first, second, high, low, ← Nat.shiftLeft_add_eq_or_of_lt (by omega), Nat.shiftLeft_eq]
  omega

/-- What a message row shows, without its stamps and its stream. -/
structure MessageView where
  status : DnsFrameStatus
  error : String
  messageNumber : Nat
  sequence : UInt32
  data : List UInt8
deriving DecidableEq, Repr

def TcpDnsMessage.view (message : TcpDnsMessage) : MessageView :=
  { status := message.status
    error := message.error
    messageNumber := message.messageNumber
    sequence := message.sequence
    data := message.data }

/-- The rows whole frames give: numbered from one, each at its frame's place in the stream. -/
def completeViews (base : UInt32) : Nat → Nat → List (List UInt8) → List MessageView
  | _, _, [] => []
  | number, offset, message :: rest =>
    { status := .complete
      error := ""
      messageNumber := number + 1
      sequence := base + UInt32.ofNat offset
      data := message }
      :: completeViews base (number + 1) (offset + (message.length + 2)) rest

theorem getElem?_completeViews (base : UInt32) (number offset : Nat)
    (messages : List (List UInt8)) (index : Nat)
    : (completeViews base number offset messages)[index]?
      = messages[index]?.map fun message =>
          { status := .complete
            error := ""
            messageNumber := number + index + 1
            sequence := base + UInt32.ofNat (offset + (frames (messages.take index)).length)
            data := message } := by
  induction messages generalizing number offset index with
  | nil => simp [completeViews]
  | cons message rest ih =>
    cases index with
    | zero => simp [completeViews, frames]
    | succ index =>
      rw [completeViews, List.getElem?_cons_succ, List.getElem?_cons_succ, ih,
        List.take_succ_cons, length_frames_cons]
      congr 1
      funext message
      rw [Nat.add_right_comm number 1 index, Nat.add_assoc offset, Nat.add_assoc number]

theorem frameLength_append (before rest : List UInt8)
    : frameLength (before ++ rest) before.length = frameLength rest 0 := by
  have shifted (index : Nat)
      : (before ++ rest).getD (before.length + index) 0 = rest.getD index 0 := by
    rw [List.getD_eq_getElem?_getD, List.getD_eq_getElem?_getD,
      List.getElem?_append_right (Nat.le_add_right ..), Nat.add_sub_cancel_left]
  unfold frameLength
  rw [shifted 1, ← Nat.add_zero before.length, shifted 0]

/-- Bytes that do not start with a whole frame. -/
def Unframed (rest : List UInt8) : Prop :=
  rest.length < 2 ∨ frameLength rest 0 < 12 ∨ rest.length < frameLength rest 0 + 2

/-- Bytes that announce a frame without room for the DNS header. -/
def Undersized (rest : List UInt8) : Prop :=
  2 ≤ rest.length ∧ frameLength rest 0 < 12

instance (rest : List UInt8) : Decidable (Undersized rest) :=
  inferInstanceAs (Decidable (_ ∧ _))

/-- The row of a frame length that is too small, at a stream offset. -/
def invalidAt (stream : TcpStream) (offset : Nat) : TcpDnsMessage :=
  let invalid := diagnostic stream .invalid "DNS TCP frame length is shorter than the DNS header"
  { invalid with sequence := invalid.sequence + UInt32.ofNat offset }

def limitReached (stream : TcpStream) : TcpDnsMessage :=
  diagnostic stream .limit "DNS message count exceeds per-direction limit"

section Loop

variable {stream : TcpStream} {chunk : TcpStreamChunk} {limits : DnsFramingLimits}
  {before after rest message : List UInt8} {messages : List (List UInt8)} {fuel number : Nat}

theorem frameLoop_rest (data : chunk.data = before ++ rest) (stopped : Unframed rest)
    (result : List TcpDnsMessage)
    : frameLoop stream chunk limits (fuel + 1) before.length number result
      = .ok (if Undersized rest then .inl (result ++ [invalidAt stream before.length])
          else .inr (before.length, result)) := by
  have size : chunk.data.length = before.length + rest.length := by
    rw [data, List.length_append]
  have length : frameLength chunk.data before.length = frameLength rest 0 := by
    rw [data, frameLength_append]
  unfold frameLoop
  dsimp only
  by_cases short : rest.length < 2
  · rw [if_pos (by omega), if_neg fun under => Nat.not_le.mpr short under.1]
  · rw [if_neg (by omega), require_eq_ok _ (by omega), ok_bind, length]
    by_cases under : frameLength rest 0 < 12
    · rw [if_pos under, if_pos ⟨Nat.not_lt.mp short, under⟩]
      rfl
    · have longer := (stopped.resolve_left short).resolve_left under
      rw [if_neg under, if_pos (by omega), if_neg fun small => under small.2]
      rfl

/-- A whole frame is taken off, unless it is one too many. -/
theorem frameLoop_frame (traced : chunk.Traced) (fits : Frameable message)
    (data : chunk.data = before ++ frame message ++ after) (result : List TcpDnsMessage)
    : (limits.maxMessages ≤ number
        ∧ frameLoop stream chunk limits (fuel + 1) before.length number result
          = .ok (.inl [limitReached stream]))
      ∨ (number < limits.maxMessages
        ∧ ∃ stamps, frameLoop stream chunk limits (fuel + 1) before.length number result
          = frameLoop stream chunk limits fuel (before ++ frame message).length (number + 1)
              (result ++ [completed stream before.length (number + 1) stamps message])) := by
  have long := fits.1
  have size : chunk.data.length = before.length + (message.length + 2) + after.length := by
    rw [data, List.length_append, List.length_append, length_frame]
  have length : frameLength chunk.data before.length = message.length := by
    rw [data]
    exact frameLength_frame fits.2 before after
  have body : (chunk.data.drop (before.length + 2)).take message.length = message := by
    have apart : chunk.data
        = (before ++ [UInt8.ofNat (message.length / 256), UInt8.ofNat (message.length % 256)])
          ++ (message ++ after) := by
      simp [data, frame]
    rw [apart, List.drop_left' (by simp), List.take_left]
  obtain ⟨stamps, traces⟩ := traced.provenance_returns before.length (message.length + 2)
  have lookup : provenanceOf chunk before.length (message.length + 2) = .ok stamps := by
    rw [provenanceOf, traces]
    rfl
  rw [frameLoop]
  dsimp only
  rw [if_neg (by omega), require_eq_ok _ (by omega), ok_bind, length, if_neg (by omega),
    if_neg (by omega)]
  by_cases full : limits.maxMessages ≤ number
  · rw [if_pos full]
    exact .inl ⟨full, rfl⟩
  · refine .inr ⟨Nat.not_le.mp full, stamps, ?_⟩
    rw [if_neg full, lookup, ok_bind, body, List.length_append, length_frame, Nat.add_assoc]

/-- The loop takes whole frames apart one by one and stops at what is left.
Witness: induction on the messages left, with the frames before them already consumed.
-/
theorem frameLoop_frames (traced : chunk.Traced) (result : List TcpDnsMessage)
    (data : chunk.data = before ++ frames messages ++ rest)
    (frameable : ∀ message ∈ messages, Frameable message) (stopped : Unframed rest)
    (room : number + messages.length ≤ limits.maxMessages) (enough : messages.length < fuel)
    : ∃ framed,
        frameLoop stream chunk limits fuel before.length number result
          = .ok (if Undersized rest then
              .inl (result ++ framed ++ [invalidAt stream (before.length + (frames messages).length)])
            else .inr (before.length + (frames messages).length, result ++ framed))
        ∧ framed.map TcpDnsMessage.view
          = completeViews stream.sequence number before.length messages := by
  induction messages generalizing before fuel number result with
  | nil =>
    obtain ⟨fuel, rfl⟩ : ∃ left, fuel = left + 1 := ⟨fuel - 1, by omega⟩
    have left : chunk.data = before ++ rest := by simpa [frames] using data
    refine ⟨[], ?_, rfl⟩
    rw [frameLoop_rest left stopped, List.append_nil]
    rfl
  | cons message later ih =>
    obtain ⟨fuel, rfl⟩ : ∃ left, fuel = left + 1 := ⟨fuel - 1, by omega⟩
    obtain ⟨fits, others⟩ := List.forall_mem_cons.mp frameable
    have apart : chunk.data = before ++ frame message ++ (frames later ++ rest) := by
      simp [data, frames]
    simp only [List.length_cons] at room enough
    rcases @frameLoop_frame stream chunk limits before _ message fuel number traced fits apart
      result with ⟨full, _⟩ | ⟨_, stamps, steps⟩
    · omega
    · obtain ⟨framed, loops, shown⟩ := @ih (before ++ frame message) fuel (number + 1)
        (result ++ [completed stream before.length (number + 1) stamps message])
        (by rw [apart, List.append_assoc (before ++ frame message)]) others (by omega) (by omega)
      refine ⟨completed stream before.length (number + 1) stamps message :: framed, ?_, ?_⟩
      · rw [steps, loops, length_frames_cons, List.length_append, length_frame]
        simp only [List.append_assoc, List.cons_append, List.nil_append, Nat.add_assoc]
      · rw [List.map_cons, shown, List.length_append, length_frame]
        rfl

/-- With more whole frames than may be returned only a diagnostic is. -/
theorem frameLoop_excess (traced : chunk.Traced) (result : List TcpDnsMessage)
    (data : chunk.data = before ++ frames messages ++ rest)
    (frameable : ∀ message ∈ messages, Frameable message)
    (some : number ≤ limits.maxMessages) (excess : limits.maxMessages < number + messages.length)
    (enough : messages.length < fuel)
    : frameLoop stream chunk limits fuel before.length number result
      = .ok (.inl [limitReached stream]) := by
  induction messages generalizing before fuel number result with
  | nil =>
    rw [List.length_nil] at excess
    omega
  | cons message later ih =>
    obtain ⟨fuel, rfl⟩ : ∃ left, fuel = left + 1 := ⟨fuel - 1, by omega⟩
    obtain ⟨fits, others⟩ := List.forall_mem_cons.mp frameable
    have apart : chunk.data = before ++ frame message ++ (frames later ++ rest) := by
      simp [data, frames]
    simp only [List.length_cons] at excess enough
    rcases @frameLoop_frame stream chunk limits before _ message fuel number traced fits apart
      result with ⟨_, stops⟩ | ⟨below, stamps, steps⟩
    · exact stops
    · rw [steps]
      exact ih _ (by rw [apart, List.append_assoc (before ++ frame message)]) others below
        (by omega) (by omega)

end Loop

/-- Framing a contiguous stream of whole frames yields their messages and no diagnostic. -/
theorem frameTcpDns_frames {stream : TcpStream} {chunk : TcpStreamChunk}
    {limits : DnsFramingLimits} {messages : List (List UInt8)}
    (status : stream.status = .contiguous) (syn : stream.synSeen = true)
    (chunks : stream.chunks = [chunk]) (leading : chunk.offset = 0)
    (data : chunk.data = frames messages) (traced : chunk.Traced)
    (whole : stream.expectedBytes.toNat = chunk.data.length)
    (frameable : ∀ message ∈ messages, Frameable message)
    (room : messages.length ≤ limits.maxMessages)
    : ∃ framed,
        frameTcpDns limits stream = .ok framed
        ∧ framed.map TcpDnsMessage.view = completeViews stream.sequence 0 0 messages := by
  have chunk_eq : leadingChunk stream = chunk := by simp [leadingChunk, chunks, leading]
  have enough : messages.length < chunk.data.length + 1 := by
    rw [data]
    exact Nat.lt_succ_of_le (length_le_frames messages)
  have unframed : Unframed [] := .inl (by decide)
  obtain ⟨framed, loops, shown⟩ := @frameLoop_frames stream chunk limits [] [] messages
    (chunk.data.length + 1) 0 traced [] (by simpa using data) frameable unframed (by omega) enough
  have ended : 0 + (frames messages).length = chunk.data.length := by rw [data, Nat.zero_add]
  rw [if_neg (by decide), List.length_nil, ended] at loops
  refine ⟨framed, ?_, shown⟩
  unfold frameTcpDns
  rw [if_neg (by simp [status]), if_neg (by simp [syn]), chunk_eq]
  refine bind_eq_ok.mpr ⟨_, loops, ?_⟩
  dsimp only
  rw [if_neg (by simp [whole])]
  rfl

end PacketQuapture.Dns
