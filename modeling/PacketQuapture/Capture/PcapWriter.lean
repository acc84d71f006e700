import PacketQuapture.Library.Effect
import PacketQuapture.Library.Outcome
import PacketQuapture.Library.Storage

/-! The writer of a classic PCAP file over an output that may fail at any call.
An output stores exactly the bytes it validly reports as written; a call that throws or reports
invalid progress may leave anything behind.
-/

namespace PacketQuapture.Capture

open Library

/-! ### The output -/

/-- What `Write` does: it reports how much it wrote, or throws. -/
inductive WriteAnswer where
  /-- `spoiled` is what an invalid report leaves behind. -/
  | reports (count : Nat) (spoiled : Storage)
  | throws (spoiled : Storage)

inductive SeekAnswer where
  | moves
  | throws (spoiled : Storage)

/-- An output: what it answers to each of its calls, by their number. -/
structure PcapOutput where
  write : Nat → WriteAnswer
  seek : Nat → SeekAnswer

/-! ### The writer -/

inductive PcapFailure where
  | invalidArgument (message : String)
  /-- "PCAP output counters overflow". -/
  | overflowError
  /-- "PCAP output made invalid write progress". -/
  | invalidProgress
  /-- "PCAP writer is finalized or failed". -/
  | notOpen
  /-- What the output throws. -/
  | outputThrew
  | outOfFuel
deriving DecidableEq, Repr

structure PcapWriterOptions where
  linkType : UInt32
  hasSnaplen : Bool := false
  snaplen : UInt32 := 0
deriving DecidableEq, Repr

inductive WriterState where
  | open_
  | finished
  | failed
deriving DecidableEq, Repr

structure PcapWriter where
  options : PcapWriterOptions
  state : WriterState := .open_
  packets : Nat := 0
  bytes : Nat := 24
  /-- The largest captured length written, the default snaplen; a snaplen of 0 is invalid. -/
  maximumCapture : UInt32 := 1
deriving DecidableEq, Repr

def PcapWriter.snaplen (writer : PcapWriter) : UInt32 :=
  if writer.options.hasSnaplen then writer.options.snaplen else writer.maximumCapture

/-- The payload of a packet: a null pointer and a size, or the bytes it points to. -/
inductive Payload where
  | null (size : Nat)
  | bytes (data : List UInt8)
deriving DecidableEq, Repr

def Payload.size : Payload → Nat
  | null size => size
  | bytes data => data.length

def Payload.data : Payload → List UInt8
  | null _ => []
  | bytes data => data

/-- What `WritePacket` is called with. -/
structure PcapPacket where
  timestampUs : Int
  capturedLength : Nat
  originalLength : Nat
  linkType : UInt32
  payload : Payload
deriving DecidableEq, Repr

/-- The writer, its output and how often the output was called. -/
structure Export where
  writer : PcapWriter
  output : Storage := {}
  calls : Nat := 0

abbrev Exporting (α : Type) : Type := Effect Export PcapFailure α

/-! ### Encoding -/

/-- Least significant byte first. -/
def put32 (value : UInt32) : List UInt8 :=
  [value.toUInt8, (value >>> 8).toUInt8, (value >>> 16).toUInt8, (value >>> 24).toUInt8]

/-- The magic number, version 2.4 and two reserved words. -/
def preamble : List UInt8 :=
  put32 0xa1b2c3d4 ++ [2, 0, 4, 0, 0, 0, 0, 0, 0, 0, 0, 0]

def fileHeader (snaplen linkType : UInt32) : List UInt8 :=
  preamble ++ put32 snaplen ++ put32 linkType

def recordHeader (packet : PcapPacket) : List UInt8 :=
  put32 (UInt32.ofNat (packet.timestampUs.toNat / 1000000))
    ++ put32 (UInt32.ofNat (packet.timestampUs.toNat % 1000000))
    ++ put32 (UInt32.ofNat packet.capturedLength) ++ put32 (UInt32.ofNat packet.originalLength)

/-- A record: its header and the captured bytes. -/
def record (packet : PcapPacket) : List UInt8 :=
  recordHeader packet ++ packet.payload.data

/-! ### Writing -/

section Calls

variable (behaviour : PcapOutput)

/-- `output.Write`. -/
def write (data : List UInt8) : Exporting Nat := do
  let session ← get
  match behaviour.write session.calls with
  | .throws spoiled =>
    modify fun session => { session with output := spoiled, calls := session.calls + 1 }
    throw .outputThrew
  | .reports count spoiled =>
    modify fun session =>
      { session with
        output :=
          if 0 < count ∧ count ≤ data.length then session.output.store (data.take count)
          else spoiled
        calls := session.calls + 1 }
    return count

/-- `output.Seek`. -/
def seek (offset : Nat) : Exporting Unit := do
  let session ← get
  match behaviour.seek session.calls with
  | .throws spoiled =>
    modify fun session => { session with output := spoiled, calls := session.calls + 1 }
    throw .outputThrew
  | .moves =>
    modify fun session =>
      { session with output := session.output.seek offset, calls := session.calls + 1 }

def writeChunkSize : Nat := 64 * 1024

/-- The loop of `WriteAll`; each pass writes at least a byte. -/
def writeLoop : Nat → List UInt8 → Exporting Unit
  | _, [] => return ()
  | 0, _ :: _ => throw .outOfFuel
  | fuel + 1, data@(_ :: _) => do
    let requested := min data.length writeChunkSize
    let written ← write behaviour (data.take requested)
    if written = 0 ∨ requested < written then throw .invalidProgress
    else writeLoop fuel (data.drop written)

def writeAll (data : List UInt8) : Exporting Unit :=
  writeLoop behaviour data.length data

def requireOpen : Exporting Unit := do
  let session ← get
  if session.writer.state ≠ .open_ then throw .notOpen

/-- A body whose failure also fails the writer. -/
def failing (body : Exporting Unit) : Exporting Unit :=
  tryCatch body fun failure => do
    modify fun session => { session with writer := { session.writer with state := .failed } }
    throw failure

/-- The checks of a packet, before any byte of it is written. -/
def validate (writer : PcapWriter) (packet : PcapPacket) : Except PcapFailure Unit := do
  let limit := 2 ^ 32 - 1
  require (¬ (packet.timestampUs < 0 ∨ limit < packet.timestampUs.toNat / 1000000))
    (.invalidArgument "PCAP timestamp is outside unsigned 32-bit seconds range")
  require (packet.linkType = writer.options.linkType)
    (.invalidArgument "PCAP packet LINKTYPE does not match output LINKTYPE")
  require (¬ (limit < packet.capturedLength ∨ limit < packet.originalLength
      ∨ packet.originalLength < packet.capturedLength))
    (.invalidArgument "PCAP packet lengths are invalid or exceed 32 bits")
  require (¬ (packet.capturedLength ≠ packet.payload.size
      ∨ (packet.payload.size ≠ 0 ∧ packet.payload = .null packet.payload.size)))
    (.invalidArgument "PCAP captured_length must equal the present payload size")
  require (¬ (writer.options.hasSnaplen ∧ writer.options.snaplen.toNat < packet.capturedLength))
    (.invalidArgument "PCAP captured_length exceeds SNAPLEN")
  require (¬ (2 ^ 64 - 1 - 16 - packet.capturedLength < writer.bytes
      ∨ writer.packets = 2 ^ 64 - 1)) .overflowError

def writePacket (packet : PcapPacket) : Exporting Unit := do
  requireOpen
  failing do
    let session ← get
    liftExcept (validate session.writer packet)
    writeAll behaviour (recordHeader packet)
    writeAll behaviour packet.payload.data
    modify fun session =>
      { session with
        writer :=
          { session.writer with
            maximumCapture :=
              max session.writer.maximumCapture (UInt32.ofNat packet.capturedLength)
            bytes := session.writer.bytes + (16 + packet.capturedLength)
            packets := session.writer.packets + 1 } }

/-- Overwrites the inferred snaplen and restores the end, unless the snaplen was given. -/
def patchSnaplen : Exporting Unit := do
  let session ← get
  if session.writer.options.hasSnaplen then return ()
  else
    seek behaviour 16
    writeAll behaviour (put32 session.writer.maximumCapture)
    seek behaviour session.writer.bytes

def finish : Exporting Unit := do
  requireOpen
  failing do
    patchSnaplen behaviour
    modify fun session => { session with writer := { session.writer with state := .finished } }

/-- The constructor's checks. -/
def checkOptions (options : PcapWriterOptions) : Except PcapFailure Unit := do
  require (options.linkType ≤ 0xffff) (.invalidArgument
    "PCAP LINKTYPE must fit 16 bits; FCS and additional metadata are unsupported")
  require (¬ (options.hasSnaplen ∧ options.snaplen = 0))
    (.invalidArgument "PCAP SNAPLEN must be positive")

/-- The constructor's body, over a new writer and an empty output. -/
def construct : Exporting Unit := do
  let session ← get
  liftExcept (checkOptions session.writer.options)
  writeAll behaviour (fileHeader session.writer.snaplen session.writer.options.linkType)

/-- A call of the writer. -/
inductive Call where
  | writePacket (packet : PcapPacket)
  | finish

def Call.perform : Call → Exporting Unit
  | writePacket packet => Capture.writePacket behaviour packet
  | finish => Capture.finish behaviour

/-- What is reached from a new writer by calls, each with how it ended. -/
inductive Reached (options : PcapWriterOptions)
    : List (Call × Except PcapFailure Unit) → Export → Prop
  | opened {session : Export}
    (constructed : (construct behaviour).outcome { writer := { options } } = (.ok (), session))
    : Reached options [] session
  | called {history : List (Call × Except PcapFailure Unit)} {session after : Export} {call : Call}
    {result : Except PcapFailure Unit} (reached : Reached options history session)
    (performed : (call.perform behaviour).outcome session = (result, after))
    : Reached options (history ++ [(call, result)]) after

end Calls

/-- The packets whose call returned. -/
def written (history : List (Call × Except PcapFailure Unit)) : List PcapPacket :=
  history.filterMap fun
    | (.writePacket packet, .ok _) => some packet
    | _ => none

/-- The snaplen given, or else the largest captured length, and at least 1. -/
def finalSnaplen (options : PcapWriterOptions) (packets : List PcapPacket) : UInt32 :=
  if options.hasSnaplen then options.snaplen
  else packets.foldl (fun most packet => max most (UInt32.ofNat packet.capturedLength)) 1

/-! ### Calls of the output -/

section Contracts

open Effect

variable {behaviour : PcapOutput} {session : Export} {before behind data : List UInt8}

/-- What is validly reported as written is stored. -/
theorem write_leads (at_ : session.output.At before behind)
    : Leads (write behaviour data) session
        (fun count after => after.writer = session.writer
          ∧ (0 < count ∧ count ≤ data.length →
            after.output.At (before ++ data.take count) (behind.drop count)))
        fun _ after => after.writer = session.writer := by
  refine .get_bind ?_
  cases behaviour.write session.calls with
  | throws spoiled => exact rfl
  | reports count spoiled =>
    refine ⟨rfl, fun valid => ?_⟩
    have stored := at_.store (data.take count)
    rw [List.length_take, Nat.min_eq_left valid.2] at stored
    change (if 0 < count ∧ count ≤ data.length then session.output.store (data.take count)
      else spoiled).At _ _
    rw [if_pos valid]
    exact stored

theorem seek_leads (at_ : session.output.At before behind) {front rest : List UInt8}
    (split : before ++ behind = front ++ rest)
    : Leads (seek behaviour front.length) session
        (fun _ after => after.writer = session.writer ∧ after.output.At front rest)
        fun _ after => after.writer = session.writer := by
  refine .get_bind ?_
  cases behaviour.seek session.calls with
  | throws spoiled => exact rfl
  | moves => exact ⟨rfl, at_.seek split⟩

/-- Writing returns only when all bytes are stored.
Witness: induction on the bytes that are left; a pass that goes on has stored some of them.
-/
theorem writeLoop_leads {fuel : Nat} (at_ : session.output.At before behind)
    (enough : data.length ≤ fuel)
    : Leads (writeLoop behaviour fuel data) session
        (fun _ after => after.writer = session.writer
          ∧ after.output.At (before ++ data) (behind.drop data.length))
        fun _ after => after.writer = session.writer := by
  induction fuel generalizing data session before behind with
  | zero =>
    obtain rfl := List.eq_nil_of_length_eq_zero (Nat.le_zero.mp enough)
    exact .pure ⟨rfl, by simpa using at_⟩
  | succ fuel ih =>
    cases data with
    | nil => exact .pure ⟨rfl, by simpa using at_⟩
    | cons first rest =>
      unfold writeLoop
      refine .bind (write_leads at_) fun count after stored => ?_
      obtain ⟨same, stores⟩ := stored
      refine .ite (fun _ => .throw same) fun valid => ?_
      rw [not_or, not_lt] at valid
      have chunk : ((first :: rest).take (min (first :: rest).length writeChunkSize)).length
          = min (first :: rest).length writeChunkSize := by
        rw [List.length_take, Nat.min_eq_left (Nat.min_le_left _ _)]
      have next := stores ⟨Nat.pos_of_ne_zero valid.1, chunk.symm ▸ valid.2⟩
      rw [List.take_take, Nat.min_eq_left valid.2] at next
      have shorter : ((first :: rest).drop count).length ≤ fuel := by
        rw [List.length_drop]
        omega
      refine (ih next shorter).mono (fun _ last held => ?_) fun _ last held => held.trans same
      refine ⟨held.1.trans same, ?_⟩
      have within : count ≤ (first :: rest).length := valid.2.trans (Nat.min_le_left _ _)
      have all := held.2
      rwa [List.append_assoc, List.take_append_drop, List.drop_drop, List.length_drop,
        Nat.add_sub_cancel' within] at all

theorem writeAll_leads (at_ : session.output.At before behind)
    : Leads (writeAll behaviour data) session
        (fun _ after => after.writer = session.writer
          ∧ after.output.At (before ++ data) (behind.drop data.length))
        fun _ after => after.writer = session.writer :=
  writeLoop_leads at_ (Nat.le_refl _)

/-! ### Calls of the writer -/

/-- What an open writer has written: the header and the records of these packets. -/
structure Recorded (session : Export) (packets : List PcapPacket) : Prop where
  output : session.output.At
    (fileHeader (finalSnaplen session.writer.options []) session.writer.options.linkType
      ++ packets.flatMap record) []
  bytes : session.writer.bytes = 24 + (packets.flatMap record).length
  counted : session.writer.packets = packets.length
  maximum : session.writer.maximumCapture
    = packets.foldl (fun most packet => max most (UInt32.ofNat packet.capturedLength)) 1

variable {packets : List PcapPacket} {packet : PcapPacket}

theorem outcome_closed (closed : session.writer.state ≠ .open_) (next : Unit → Exporting Unit)
    : (requireOpen >>= next).outcome session = (.error .notOpen, session) := by
  have refused : requireOpen.outcome session = (.error .notOpen, session) := by
    change outcome (if session.writer.state ≠ .open_ then throw PcapFailure.notOpen else pure ())
      session = _
    rw [if_pos closed]
    rfl
  change ExceptT.bindCont next (requireOpen.outcome session).1 (requireOpen.outcome session).2 = _
  rw [refused]
  rfl

/-- A call of an open writer runs its body, and a failure fails the writer. -/
theorem failing_leads {post : Unit → Export → Prop} {raised : PcapFailure → Export → Prop}
    {body : Exporting Unit} (opened : session.writer.state = .open_)
    (leads : Leads body session post fun failure after =>
      raised failure { after with writer := { after.writer with state := .failed } })
    : Leads (do requireOpen; failing body) session post raised := by
  have opens : Leads requireOpen session (fun _ after => after = session) raised :=
    .get_bind (.ite (fun closed => absurd opened closed) fun _ => .pure rfl)
  refine .bind opens ?_
  rintro _ _ rfl
  exact .tryCatch leads fun failure after kept => kept

theorem length_record (valid : validate session.writer packet = .ok ())
    : (recordHeader packet).length = 16 ∧ packet.payload.data.length = packet.capturedLength := by
  obtain ⟨_, _, valid⟩ := bind_eq_ok.mp valid
  obtain ⟨_, _, valid⟩ := bind_eq_ok.mp valid
  obtain ⟨_, _, valid⟩ := bind_eq_ok.mp valid
  obtain ⟨_, present, _⟩ := bind_eq_ok.mp valid
  have present := of_require present
  rw [not_or, not_not] at present
  refine ⟨rfl, ?_⟩
  rw [present.1]
  cases payload : packet.payload with
  | bytes data => rfl
  | null size =>
    have empty : size = 0 := by
      by_contra some_byte
      refine present.2 ?_
      rw [payload]
      exact ⟨some_byte, rfl⟩
    rw [empty]
    rfl

theorem writePacket_leads (opened : session.writer.state = .open_)
    (recorded : Recorded session packets)
    : Leads (writePacket behaviour packet) session
        (fun _ after => after.writer.options = session.writer.options
          ∧ after.writer.state = .open_ ∧ Recorded after (packets ++ [packet]))
        fun _ after =>
          after.writer.options = session.writer.options ∧ after.writer.state = .failed := by
  refine failing_leads opened (.get_bind ?_)
  refine .bind (.lift fun _ _ => ⟨rfl, rfl⟩) ?_
  rintro _ _ ⟨valid, rfl⟩
  obtain ⟨sixteen, captured⟩ := length_record valid
  refine .bind (writeAll_leads recorded.output |>.mono (fun _ _ => id)
    fun _ _ same => ⟨by rw [same], rfl⟩) fun _ middle headed => ?_
  refine .bind (writeAll_leads headed.2 |>.mono (fun _ _ => id)
    fun _ _ same => ⟨by rw [same, headed.1], rfl⟩) fun _ last stored => ?_
  have same := stored.1.trans headed.1
  refine .modify ⟨by rw [same], by rw [same]; exact opened, ?_⟩
  have whole : (packets ++ [packet]).flatMap record
      = packets.flatMap record ++ (recordHeader packet ++ packet.payload.data) := by
    rw [List.flatMap_append, List.flatMap_singleton]
    rfl
  refine ⟨?_, ?_, ?_, ?_⟩
  · have output := stored.2
    rw [List.append_assoc, List.append_assoc, ← whole, List.drop_nil, List.drop_nil] at output
    rw [same]
    exact output
  · rw [whole, List.length_append, List.length_append, sixteen, captured]
    dsimp only
    rw [same, recorded.bytes, Nat.add_assoc]
  · rw [List.length_append, List.length_singleton]
    dsimp only
    rw [same, recorded.counted]
  · rw [List.foldl_append]
    dsimp only
    rw [same, recorded.maximum]
    rfl

theorem length_fileHeader (snaplen linkType : UInt32)
    : (fileHeader snaplen linkType).length = 24 := rfl

/-- A finished file: the header with the final snaplen and the records, counted. -/
structure Complete (session : Export) (packets : List PcapPacket) : Prop where
  contents : session.output.contents
    = fileHeader (finalSnaplen session.writer.options packets) session.writer.options.linkType
      ++ packets.flatMap record
  bytes : session.writer.bytes = session.output.contents.length
  counted : session.writer.packets = packets.length

/-- Patching the snaplen leaves the records alone. -/
theorem patchSnaplen_leads (recorded : Recorded session packets)
    : Leads (patchSnaplen behaviour) session
        (fun _ after => after.writer = session.writer ∧ Complete after packets)
        fun _ after => after.writer = session.writer := by
  refine .get_bind (.ite (fun given => .pure ⟨rfl, ?_⟩) fun inferred => ?_)
  · have output := recorded.output.contents
    rw [List.append_nil, finalSnaplen, if_pos given] at output
    refine ⟨?_, ?_, recorded.counted⟩
    · rw [output, finalSnaplen, if_pos given]
    · rw [output, List.length_append, length_fileHeader, recorded.bytes]
  · have patched : fileHeader (finalSnaplen session.writer.options packets)
          session.writer.options.linkType ++ packets.flatMap record
        = preamble ++ put32 session.writer.maximumCapture
          ++ (put32 session.writer.options.linkType ++ packets.flatMap record) := by
      rw [finalSnaplen, if_neg inferred, ← recorded.maximum, fileHeader, List.append_assoc]
    have placed : session.writer.bytes
        = (preamble ++ put32 session.writer.maximumCapture
          ++ (put32 session.writer.options.linkType ++ packets.flatMap record)).length := by
      rw [← patched, List.length_append, length_fileHeader, recorded.bytes]
    have opening : fileHeader (finalSnaplen session.writer.options [])
          session.writer.options.linkType ++ packets.flatMap record ++ []
        = preamble ++ (put32 (finalSnaplen session.writer.options [])
          ++ (put32 session.writer.options.linkType ++ packets.flatMap record)) := by
      rw [List.append_nil, fileHeader, List.append_assoc, List.append_assoc]
    refine .bind (seek_leads recorded.output opening) fun _ first sought => ?_
    refine .bind (writeAll_leads sought.2 |>.mono (fun _ _ => id) fun _ _ same =>
      same.trans sought.1) fun _ second stored => ?_
    have same := stored.1.trans sought.1
    rw [placed]
    refine (seek_leads stored.2 (List.append_nil _).symm).mono (fun _ last ended => ?_)
      fun _ _ kept => kept.trans same
    have kept := ended.1.trans same
    have contents := ended.2.contents
    rw [List.append_nil] at contents
    refine ⟨kept, ?_, ?_, ?_⟩
    · rw [kept, patched]
      exact contents
    · rw [kept, placed, contents]
      rfl
    · rw [kept, recorded.counted]

theorem finish_leads (opened : session.writer.state = .open_)
    (recorded : Recorded session packets)
    : Leads (finish behaviour) session
        (fun _ after => after.writer.options = session.writer.options
          ∧ after.writer.state = .finished ∧ Complete after packets)
        fun _ after =>
          after.writer.options = session.writer.options ∧ after.writer.state = .failed := by
  refine failing_leads opened (.bind ((patchSnaplen_leads recorded).mono (fun _ _ => id)
    fun _ _ same => ⟨by rw [same], rfl⟩) fun _ after patched => ?_)
  obtain ⟨same, complete⟩ := patched
  exact .modify ⟨by rw [same], rfl, complete.contents, complete.bytes, complete.counted⟩

/-! ### Runs -/

/-- What holds of every reached session: an open writer has failed no call and has written the
packets whose calls returned.
-/
structure Sound (options : PcapWriterOptions) (history : List (Call × Except PcapFailure Unit))
    (session : Export) : Prop where
  options : session.writer.options = options
  recorded : session.writer.state = .open_ → Recorded session (written history)
  unfailed : session.writer.state = .open_ → ∀ call failure, (call, .error failure) ∉ history

variable {options : PcapWriterOptions} {history : List (Call × Except PcapFailure Unit)}

theorem construct_sound
    (constructed : (construct behaviour).outcome { writer := { options } } = (.ok (), session))
    : Sound options [] session := by
  have leads : Leads (construct behaviour) { writer := { options } }
      (fun _ after => after.writer = { options } ∧ Recorded after []) fun _ _ => True := by
    refine .get_bind (.bind (.lift fun _ _ => trivial) ?_)
    rintro _ _ ⟨_, rfl⟩
    have blank : ({} : Storage).At [] [] := ⟨rfl, rfl⟩
    refine (writeAll_leads blank).mono (fun _ after stored => ⟨stored.1, ?_⟩) fun _ _ _ => trivial
    obtain ⟨same, output⟩ := stored
    refine ⟨?_, ?_, ?_, ?_⟩ <;> rw [same]
    · exact output
    · rfl
    · rfl
    · rfl
  obtain ⟨same, recorded⟩ := leads.of_returned constructed
  exact ⟨by rw [same], fun _ => recorded, fun _ _ _ => List.not_mem_nil⟩

/-- A writer that is not open refuses every call and is left as it is. -/
theorem perform_closed (closed : session.writer.state ≠ .open_) (call : Call)
    : (call.perform behaviour).outcome session = (.error .notOpen, session) := by
  cases call with
  | writePacket packet => exact outcome_closed closed _
  | finish => exact outcome_closed closed _

/-- A call that ends with a closed writer keeps the rest. -/
theorem Sound.of_closed {after : Export} (kept : after.writer.options = options)
    (closed : after.writer.state ≠ .open_)
    : Sound options history after :=
  ⟨kept, fun opened => absurd opened closed, fun opened => absurd opened closed⟩

/-- One call keeps what holds of a reached session.
Witness: a closed writer refuses; an open one records the packet, finishes, or fails.
-/
theorem Sound.perform (sound : Sound options history session) {call : Call}
    {result : Except PcapFailure Unit} {after : Export}
    (performed : (call.perform behaviour).outcome session = (result, after))
    : Sound options (history ++ [(call, result)]) after := by
  by_cases opened : session.writer.state = .open_
  case neg =>
    obtain ⟨rfl, rfl⟩ := Prod.mk.inj ((perform_closed opened call).symm.trans performed)
    exact .of_closed sound.options opened
  have recorded := sound.recorded opened
  cases call with
  | writePacket packet =>
    have leads := @writePacket_leads behaviour session _ packet opened recorded
    cases result with
    | error failure =>
      obtain ⟨kept, failed⟩ := leads.of_raised performed
      exact .of_closed (kept.trans sound.options) (by rw [failed]; nofun)
    | ok =>
      obtain ⟨kept, still, records⟩ := leads.of_returned performed
      refine ⟨kept.trans sound.options, fun _ => ?_, fun _ call failure member => ?_⟩
      · rw [written, List.filterMap_append]
        exact records
      · rcases List.mem_append.mp member with earlier | last
        · exact sound.unfailed opened call failure earlier
        · cases List.mem_singleton.mp last
  | finish =>
    have leads := @finish_leads behaviour session _ opened recorded
    cases result with
    | error failure =>
      obtain ⟨kept, failed⟩ := leads.of_raised performed
      exact .of_closed (kept.trans sound.options) (by rw [failed]; nofun)
    | ok =>
      obtain ⟨kept, finished, _⟩ := leads.of_returned performed
      exact .of_closed (kept.trans sound.options) (by rw [finished]; nofun)

theorem Reached.sound (reached : Reached behaviour options history session)
    : Sound options history session := by
  induction reached with
  | opened constructed => exact construct_sound constructed
  | called _ performed ih => exact ih.perform performed

theorem writePacket_rejected {failure : PcapFailure}
    (rejected : validate session.writer packet = .error failure)
    : ∃ raised after, (writePacket behaviour packet).outcome session = (.error raised, after)
      ∧ after.output = session.output ∧ after.calls = session.calls := by
  by_cases opened : session.writer.state = .open_
  case neg => exact ⟨_, _, outcome_closed opened _, rfl, rfl⟩
  refine Leads.raises (failing_leads opened (.get_bind (.bind (.lift fun _ _ => ⟨rfl, rfl⟩) ?_)))
  rintro _ _ ⟨valid, _⟩
  cases rejected.symm.trans valid

/-- A failed export is never mistaken for a finished one. Of every session reached over any output:
a packet that validation rejects is refused without a call of the output; after a failed call every
call is refused and changes nothing; and finishing returns only when the output holds the header
with the final snaplen and the whole records of the packets whose calls returned, as counted.
-/
theorem reached_never_mistaken (reached : Reached behaviour options history session)
    : (∀ packet failure, validate session.writer packet = .error failure →
        ∃ raised after, (writePacket behaviour packet).outcome session = (.error raised, after)
          ∧ after.output = session.output ∧ after.calls = session.calls)
      ∧ (∀ call failure, (call, .error failure) ∈ history →
          ∀ later : Call, (later.perform behaviour).outcome session = (.error .notOpen, session))
      ∧ (∀ after, (finish behaviour).outcome session = (.ok (), after) →
          after.output.contents
              = fileHeader (finalSnaplen options (written history)) options.linkType
                ++ (written history).flatMap record
            ∧ after.writer.bytes = after.output.contents.length
            ∧ after.writer.packets = (written history).length) := by
  have sound := reached.sound
  refine ⟨fun packet failure rejected => writePacket_rejected rejected, ?_, ?_⟩
  · intro call failure member later
    refine perform_closed (fun opened => ?_) later
    exact sound.unfailed opened call failure member
  · intro after finished
    have opened : session.writer.state = .open_ := by
      by_contra closed
      cases (outcome_closed closed _).symm.trans finished
    obtain ⟨kept, _, complete⟩ :=
      (finish_leads opened (sound.recorded opened)).of_returned finished
    rw [← sound.options, ← kept]
    exact ⟨complete.contents, complete.bytes, complete.counted⟩

/-- An output that writes a byte at a time. -/
def oneByte : PcapOutput where
  write _ := .reports 1 {}
  seek _ := .moves

/-- A packet of three bytes, two of them captured. -/
def twoBytes : PcapPacket where
  timestampUs := 1000001
  capturedLength := 2
  originalLength := 3
  linkType := 1
  payload := .bytes [7, 8]

def begun : Export := ((construct oneByte).outcome { writer := { options := { linkType := 1 } } }).2

def exported : Export := ((writePacket oneByte twoBytes).outcome begun).2

def completed : Export := ((finish oneByte).outcome exported).2

/-- Written byte by byte, a packet makes a file of one record with its snaplen patched. -/
theorem reached_never_mistaken_twoBytes
    : Reached oneByte { linkType := 1 } [(.writePacket twoBytes, .ok ())] exported
      ∧ (finish oneByte).outcome exported = (.ok (), completed)
      ∧ completed.output.contents = fileHeader 2 1 ++ record twoBytes
      ∧ completed.writer.packets = 1 := by
  have reached : Reached oneByte { linkType := 1 } [(.writePacket twoBytes, .ok ())] exported :=
    .called (.opened (Prod.ext rfl rfl)) (Prod.ext rfl rfl)
  have finished : (finish oneByte).outcome exported = (.ok (), completed) := Prod.ext rfl rfl
  obtain ⟨contents, _, counted⟩ := (reached_never_mistaken reached).2.2 completed finished
  exact ⟨reached, finished, contents, counted⟩

end Contracts

end PacketQuapture.Capture
