import PacketQuapture.Capture.PcapWriter

/-! `COPY ... TO` a PCAP file: a staging file is written, synced, closed and moved to its
destination, or removed. The file system and the client may fail or interrupt at any point.
-/

namespace PacketQuapture.Capture

open Library

/-- What may stop a copy between calls of the writer. -/
inductive Hurdle where
  | interrupt
  /-- "PCAP output requires a local regular-file destination". -/
  | destination
  /-- "PCAP staging is disabled by file access configuration". -/
  | access
  /-- "Cannot exclusively create PCAP staging file". -/
  | creation
  /-- "PCAP export required columns must not contain NULL". -/
  | null
  /-- "PCAP staging sync failed". -/
  | sync
  /-- "PCAP staging close failed". -/
  | close
  | move
deriving DecidableEq

inductive CopyFailure where
  | stopped (hurdle : Hurdle)
  | writer (failure : PcapFailure)
deriving DecidableEq

/-- The files at the two paths of a copy. -/
structure Files where
  staging : Option (List UInt8) := none
  destination : Option (List UInt8) := none
deriving DecidableEq

/-- DuckDB's file system at the two paths: whether a call succeeds, and the files it leaves. -/
structure FileSystem where
  moveFile : Files → Bool × Files
  tryRemoveFile : Files → Bool × Files

/-- A move is one action: the file is at its destination whole, or both paths are as they were. -/
structure FileSystem.MovesWhole (fileSystem : FileSystem) : Prop where
  moved : ∀ files, (fileSystem.moveFile files).1 = true →
    (fileSystem.moveFile files).2 = { destination := files.staging }
  unmoved : ∀ files, (fileSystem.moveFile files).1 = false → (fileSystem.moveFile files).2 = files

/-- A removal concerns the path it is given. -/
structure FileSystem.RemovesOne (fileSystem : FileSystem) : Prop where
  removed : ∀ files, (fileSystem.tryRemoveFile files).1 = true →
    (fileSystem.tryRemoveFile files).2.staging = none
  elsewhere : ∀ files, (fileSystem.tryRemoveFile files).2.destination = files.destination

/-- How the output, the client and the file system answer, by the number of the question. -/
structure CopyWorld where
  output : PcapOutput
  passes : Hurdle → Nat → Bool
  /-- How often a signal cuts `fsync` short. -/
  signals : Nat
  fileSystem : FileSystem

/-- The required columns of a row, each of which may be NULL. -/
structure CopyRow where
  timestamp : Option Int
  capturedLength : Option UInt32
  originalLength : Option UInt32
  linkType : Option UInt32
  packetData : Option (List UInt8)

def CopyRow.packet? (row : CopyRow) : Option PcapPacket := do
  return {
    timestampUs := ← row.timestamp
    capturedLength := (← row.capturedLength).toNat
    originalLength := (← row.originalLength).toNat
    linkType := ← row.linkType
    payload := .bytes (← row.packetData) }

/-- The writer with its staging file, and the files as the copy leaves them. -/
structure PcapCopyGlobal where
  session : Export
  asked : Nat := 0
  owned : Bool := false
  files : Files

abbrev Copying (α : Type) : Type := Effect PcapCopyGlobal CopyFailure α

section Copy

variable (world : CopyWorld)

def pass (hurdle : Hurdle) : Copying Unit := do
  let copy ← get
  modify fun copy => { copy with asked := copy.asked + 1 }
  if world.passes hurdle copy.asked then return () else throw (.stopped hurdle)

/-- A call of the writer, which writes to the staging file. -/
def onWriter (call : Exporting Unit) : Copying Unit := do
  let copy ← get
  let ended := call.outcome copy.session
  modify fun copy =>
    { copy with
      session := ended.2
      files := { copy.files with staging := some ended.2.output.contents } }
  match ended.1 with
  | .ok _ => return ()
  | .error failure => throw (.writer failure)

def start : Copying Unit := do
  pass world .destination
  pass world .access
  pass world .creation
  -- `O_EXCL`: a file that is there is never opened.
  let copy ← get
  if copy.files.staging.isSome then throw (.stopped .creation)
  else
    modify fun copy =>
      { copy with owned := true, files := { copy.files with staging := some [] } }
    onWriter (construct world.output)

def sink : List CopyRow → Copying Unit
  | [] => return ()
  | row :: rows => do
    pass world .interrupt
    match row.packet? with
    | none => throw (.stopped .null)
    | some packet => onWriter (writePacket world.output packet)
    sink rows

/-- `fsync`, again after each signal. -/
def sync : Nat → Copying Unit
  | 0 => pass world .sync
  | signals + 1 => do
    pass world .interrupt
    sync signals

/-- What precedes the move: the file is finished, synced and closed. -/
def prepare : Copying Unit := do
  pass world .interrupt
  onWriter (finish world.output)
  sync world world.signals
  pass world .close
  pass world .interrupt
  pass world .destination

def publish : Copying Unit := do
  prepare world
  let copy ← get
  let ended := world.fileSystem.moveFile copy.files
  modify fun copy => { copy with files := ended.2 }
  if ended.1 then modify fun copy => { copy with owned := false } else throw (.stopped .move)

/-- The destructor removes a staging file that is still owned, and ignores how that ends. -/
def destroy (copy : PcapCopyGlobal) : Files :=
  if copy.owned then (world.fileSystem.tryRemoveFile copy.files).2 else copy.files

/-- A whole copy of some rows, in order, and the files at its end. -/
def copyTo (options : PcapWriterOptions) (rows : List CopyRow) (files : Files)
    : Except CopyFailure Unit × Files :=
  let ended := Effect.outcome (do start world; sink world rows; publish world)
    { session := { writer := { options } }, files }
  (ended.1, destroy world ended.2)

end Copy

/-- The file of some packets: the header with the final snaplen and the records. -/
def wholeFile (options : PcapWriterOptions) (packets : List PcapPacket) : List UInt8 :=
  fileHeader (finalSnaplen options packets) options.linkType ++ packets.flatMap record

/-! ### Files -/

section Contracts

open Effect

variable {world : CopyWorld} {copy : PcapCopyGlobal} {options : PcapWriterOptions}
variable {history : List (Call × Except PcapFailure Unit)} {packets : List PcapPacket}
variable {files : Files} {middle post : Export → Prop}

/-- The copy made the staging file, which has what the writer has written, and changed no other. -/
def Staged (files : Files) (copy : PcapCopyGlobal) : Prop :=
  copy.owned = true ∧ files.staging = none
    ∧ copy.files = { files with staging := some copy.session.output.contents }

/-- The files are as they were, but for the copy's own. -/
def Untouched (files : Files) (copy : PcapCopyGlobal) : Prop :=
  copy.owned = false ∧ copy.files = files ∨ Staged files copy

/-- A program that writes to the staging file only and, if it returns, leaves the writer in
`post`.
-/
def Steady (files : Files) (program : Copying Unit) (copy : PcapCopyGlobal)
    (post : Export → Prop) : Prop :=
  Staged files copy →
    Leads program copy (fun _ after => Staged files after ∧ post after.session)
      fun _ after => Staged files after

theorem Steady.bind {program next : Copying Unit}
    (first : Steady files program copy middle)
    (second : ∀ after, middle after.session → Steady files next after post)
    : Steady files (do program; next) copy post :=
  fun staged => Leads.bind (first staged) fun _ after ended => second after ended.2 ended.1

theorem pass_leads (hurdle : Hurdle)
    : Leads (pass world hurdle) copy (fun _ after => ∃ asked, after = { copy with asked })
        fun _ after => ∃ asked, after = { copy with asked } :=
  .get_bind (.modify_bind (.ite (fun _ => .pure ⟨_, rfl⟩) fun _ => .throw ⟨_, rfl⟩))

theorem pass_steady (hurdle : Hurdle)
    : Steady files (pass world hurdle) copy (· = copy.session) := by
  intro staged
  refine (pass_leads hurdle).mono ?_ ?_
  · rintro _ _ ⟨_, rfl⟩
    exact ⟨staged, rfl⟩
  · rintro _ _ ⟨_, rfl⟩
    exact staged

theorem pass_then {hurdle : Hurdle} {next : Copying Unit}
    (second : ∀ after, after.session = copy.session → Steady files next after post)
    : Steady files (do pass world hurdle; next) copy post :=
  (pass_steady hurdle).bind second

theorem onWriter_steady {call : Exporting Unit}
    (returned : ∀ after, call.outcome copy.session = (.ok (), after) → post after)
    : Steady files (onWriter call) copy post := by
  intro staged
  obtain ⟨owned, absent, kept⟩ := staged
  refine .get_bind (.modify_bind ?_)
  rcases ended : call.outcome copy.session with ⟨result, session⟩
  dsimp only
  rw [kept]
  cases result with
  | ok => exact .pure ⟨⟨owned, absent, rfl⟩, returned session ended⟩
  | error failure => exact .throw ⟨owned, absent, rfl⟩

/-- A question before the staging file is made leaves the files alone. -/
theorem pass_before {hurdle : Hurdle} {next : Copying Unit} {final : Unit → PcapCopyGlobal → Prop}
    (unowned : copy.owned = false) (same : copy.files = files)
    (rest : ∀ asked, Leads next { copy with asked } final fun _ after => Untouched files after)
    : Leads (do pass world hurdle; next) copy final fun _ after => Untouched files after := by
  refine Leads.bind ((pass_leads hurdle).mono (fun _ _ => id) ?_) ?_
  · rintro _ _ ⟨_, rfl⟩
    exact .inl ⟨unowned, same⟩
  · rintro _ _ ⟨asked, rfl⟩
    exact rest asked

/-- The staging file is the copy's own: there was none at its path. -/
theorem start_leads
    : Leads (start world) { session := { writer := { options } }, files }
        (fun _ after => Staged files after ∧ Sound options [] after.session)
        fun _ after => Untouched files after := by
  refine pass_before rfl rfl fun _ => pass_before rfl rfl fun _ => pass_before rfl rfl fun _ => ?_
  refine .get_bind (.ite (fun _ => .throw (.inl ⟨rfl, rfl⟩)) fun absent => ?_)
  have unstaged : files.staging = none := by simpa using absent
  refine .modify_bind (Leads.mono (onWriter_steady (fun after constructed => ?_)
    ⟨rfl, unstaged, rfl⟩) (fun _ _ done => done) fun _ _ => .inr)
  exact construct_sound constructed

/-- The history of calls that wrote some packets. -/
def calls (packets : List PcapPacket) : List (Call × Except PcapFailure Unit) :=
  packets.map fun packet => (.writePacket packet, .ok ())

/-- Rows that are all taken have all been written.
Witness: induction on the rows; each adds its packet to the history.
-/
theorem sink_steady (rows : List CopyRow) (sound : Sound options history copy.session)
    : Steady files (sink world rows) copy fun session => ∃ packets,
        rows.map CopyRow.packet? = packets.map some
        ∧ Sound options (history ++ calls packets) session := by
  induction rows generalizing copy history with
  | nil =>
    intro staged
    exact .pure ⟨staged, [], rfl, by rwa [calls, List.map_nil, List.append_nil]⟩
  | cons row rows ih =>
    refine pass_then fun first same => ?_
    cases filled : row.packet? with
    | none => exact fun staged => .throw staged
    | some packet =>
      rw [← same] at sound
      refine Steady.bind (onWriter_steady fun after written =>
        @Sound.perform _ _ _ _ sound (.writePacket packet) _ _ written) fun second sound => ?_
      refine fun staged => (ih sound staged).mono (fun _ _ done => ⟨done.1, ?_⟩) fun _ _ => id
      obtain ⟨packets, taken, sound⟩ := done.2
      refine ⟨packet :: packets, by rw [List.map_cons, List.map_cons, filled, taken], ?_⟩
      rwa [List.append_assoc] at sound

theorem sync_steady (signals : Nat)
    : Steady files (sync world signals) copy (· = copy.session) := by
  induction signals generalizing copy with
  | zero => exact pass_steady .sync
  | succ signals ih => exact pass_then fun after same => same ▸ ih

theorem finish_whole {session after : Export} (sound : Sound options (calls packets) session)
    (finished : (finish world.output).outcome session = (.ok (), after))
    : after.output.contents = wholeFile options packets := by
  have opened : session.writer.state = .open_ := by
    by_contra closed
    cases (outcome_closed closed _).symm.trans finished
  have wrote : written (calls packets) = packets := by
    rw [written, calls, List.filterMap_map]
    exact List.filterMap_some
  obtain ⟨kept, _, complete⟩ := (finish_leads opened (sound.recorded opened)).of_returned finished
  rw [complete.contents, kept, sound.options, wrote, wholeFile]

/-- The staging file is whole before it is moved. -/
theorem prepare_steady (sound : Sound options (calls packets) copy.session)
    : Steady files (prepare world) copy
        fun session => session.output.contents = wholeFile options packets := by
  refine pass_then fun first same => ?_
  rw [← same] at sound
  refine Steady.bind (onWriter_steady fun after finished => finish_whole sound finished)
    fun second whole => ?_
  refine (sync_steady _).bind fun third kept => pass_then fun fourth still => ?_
  refine pass_then fun fifth next staged => ?_
  refine (pass_steady .destination staged).mono (fun _ _ done => ⟨done.1, ?_⟩) fun _ _ => id
  rwa [done.2, next, still, kept]

/-- The staging file is moved whole, or stays the copy's own. -/
theorem publish_leads (moves : world.fileSystem.MovesWhole)
    (sound : Sound options (calls packets) copy.session) (staged : Staged files copy)
    : Leads (publish world) copy
        (fun _ after => after.owned = false
          ∧ after.files = { destination := some (wholeFile options packets) })
        fun _ after => Staged files after := by
  refine Leads.bind (prepare_steady sound staged) fun _ after prepared => ?_
  obtain ⟨⟨owned, absent, kept⟩, whole⟩ := prepared
  refine .get_bind (.modify_bind (.ite (fun moved => .modify ⟨rfl, ?_⟩) fun failed => .throw ?_))
  · exact (moves.moved _ moved).trans (by rw [kept, whole])
  · exact ⟨owned, absent, (moves.unmoved _ (Bool.eq_false_of_not_eq_true failed)).trans kept⟩

/-- A copy publishes the whole file or nothing, whatever fails, in a file system that moves a file
whole and removes no other. If it returns, no row had a NULL and the destination is the file of all
rows; if it raises, the destination is what it was. No staging file of the copy stays unless its
removal fails, and one that was there before is kept.
-/
theorem copyTo_atomic (world : CopyWorld) (options : PcapWriterOptions) (rows : List CopyRow)
    (files : Files) (moves : world.fileSystem.MovesWhole) (removes : world.fileSystem.RemovesOne)
    : match copyTo world options rows files with
      | (.ok _, after) => files.staging = none ∧ after.staging = none ∧ ∃ packets,
          rows.map CopyRow.packet? = packets.map some
          ∧ after.destination = some (wholeFile options packets)
      | (.error _, after) => after.destination = files.destination
          ∧ (files.staging ≠ none → after.staging = files.staging)
          ∧ (files.staging = none → after.staging ≠ none →
              ∃ left, world.fileSystem.tryRemoveFile left = (false, after)) := by
  have leads : Leads (do start world; sink world rows; publish world)
      { session := { writer := { options } }, files }
      (fun _ after => files.staging = none ∧ after.owned = false ∧ ∃ packets,
        rows.map CopyRow.packet? = packets.map some
        ∧ after.files = { destination := some (wholeFile options packets) })
      fun _ after => Untouched files after := by
    refine Leads.bind start_leads fun _ first started => ?_
    obtain ⟨staged, sound⟩ := started
    refine (Leads.bind (sink_steady rows sound staged) fun _ second filled => ?_).mono
      (fun _ _ => id) fun _ _ => .inr
    obtain ⟨still, packets, taken, wrote⟩ := filled
    exact (publish_leads moves wrote still).mono
      (fun _ _ ended => ⟨staged.2.1, ended.1, packets, taken, ended.2⟩) fun _ _ => id
  unfold Leads at leads
  unfold copyTo
  dsimp only
  generalize Effect.outcome _ _ = ended at leads ⊢
  obtain ⟨result, after⟩ := ended
  cases result with
  | ok =>
    obtain ⟨absent, unowned, packets, taken, published⟩ := leads
    dsimp only at unowned published ⊢
    rw [destroy, unowned, published]
    exact ⟨absent, rfl, packets, taken, rfl⟩
  | error failure =>
    dsimp only at leads ⊢
    rw [destroy]
    rcases leads with ⟨unowned, same⟩ | ⟨owned, absent, kept⟩
    · rw [unowned, same]
      exact ⟨rfl, fun _ => rfl, fun absent stays => absurd absent stays⟩
    · rw [owned, if_pos rfl]
      refine ⟨(removes.elsewhere _).trans (by rw [kept]), fun there => absurd absent there,
        fun _ stays => ⟨after.files, ?_⟩⟩
      have failed : (world.fileSystem.tryRemoveFile after.files).1 = false :=
        Bool.eq_false_of_not_eq_true fun done => stays (removes.removed _ done)
      exact Prod.ext failed rfl

/-- A file system where both calls succeed. -/
def disk : FileSystem where
  moveFile files := (true, { destination := files.staging })
  tryRemoveFile files := (true, { files with staging := none })

/-- Nothing stops the copy, but `fsync` is cut short once. -/
def calm : CopyWorld where
  output := oneByte
  passes _ _ := true
  signals := 1
  fileSystem := disk

def twoByteRow : CopyRow where
  timestamp := some 1000001
  capturedLength := some 2
  originalLength := some 3
  linkType := some 1
  packetData := some [7, 8]

/-- A file that was there is replaced by the one of the copied row. -/
theorem copyTo_atomic_replaces
    : ∃ after,
        copyTo calm { linkType := 1 } [twoByteRow] { destination := some [9] } = (.ok (), after)
        ∧ after.staging = none
        ∧ after.destination = some (wholeFile { linkType := 1 } [twoBytes]) := by
  have atomic := copyTo_atomic calm { linkType := 1 } [twoByteRow] { destination := some [9] }
    ⟨fun _ _ => rfl, fun _ failed => by cases failed⟩ ⟨fun _ _ => rfl, fun _ => rfl⟩
  have returned : (copyTo calm { linkType := 1 } [twoByteRow]
      { destination := some [9] }).1.isOk = true := by
    decide +kernel
  rcases ended : copyTo calm { linkType := 1 } [twoByteRow] { destination := some [9] } with
    ⟨result, after⟩
  rw [ended] at atomic returned
  cases result with
  | error failure => cases returned
  | ok =>
    obtain ⟨_, gone, packets, taken, published⟩ := atomic
    have same : [twoBytes] = packets :=
      List.map_injective_iff.mpr (Option.some_injective _) taken
    exact ⟨after, rfl, gone, by rw [published, same]⟩

end Contracts

end PacketQuapture.Capture
