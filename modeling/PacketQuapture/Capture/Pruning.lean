import PacketQuapture.Library.Outcome
import PacketQuapture.Text.Format

/-! Pruning the capture files of a scan by their paths.
DuckDB's filter hands back files, not positions, so the positions are found again by matching the
paths of a batch from left to right. Positions of files are indices into their list.
-/

namespace PacketQuapture.Capture

open Library Text

/-- A file to open; the filter may look at more than the path. -/
structure OpenFileInfo (Info : Type) where
  path : List UInt8
  extendedInfo : Info

/-- What EXPLAIN shows of the pruning. -/
structure ExtraOperatorInfo where
  fileFilters : List UInt8 := []
  totalFiles : Option Nat := none
  filteredFiles : Option Nat := none

inductive PruneFailure where
  | interrupted
  /-- "Capture pruning did not preserve input occurrence order". -/
  | orderNotPreserved
  | outOfFuel
deriving DecidableEq, Repr

/-- `ApplyFiltersToFileList`: the files of a batch that are left, and the text of the filters that
were applied.
-/
abbrev FileFilter (Info : Type) : Type :=
  List (OpenFileInfo Info) → List (OpenFileInfo Info) × List UInt8

section Pruning

variable {Info : Type} (files : List (OpenFileInfo Info))

/-- The positions of the files that are left, in a batch whose cursor only moves on. -/
def matchFiles : List (OpenFileInfo Info) → List (Fin files.length) → List (Fin files.length)
    → Except PruneFailure (List (Fin files.length))
  | [], _, selected => .ok selected
  | file :: rest, batch, selected =>
    match batch.dropWhile fun index => (files.get index).path ≠ file.path with
    | [] => .error .orderNotPreserved
    | index :: batch => matchFiles rest batch (selected ++ [index])

/-- The text of the applied filters is shown once. -/
def noteFilters (applied : List UInt8) (extra : ExtraOperatorInfo) : ExtraOperatorInfo :=
  if applied ≠ [] ∧ ¬ applied <:+: extra.fileFilters then
    let shown :=
      if extra.fileFilters ≠ [] then extra.fileFilters ++ ascii "; " else extra.fileFilters
    { extra with fileFilters := shown ++ applied }
  else
    extra

def batchSize : Nat := 512

/-- The batches from `start` on; `interrupted` is what the context says before each. -/
def pruneLoop (interrupted : Nat → Bool) (filter : FileFilter Info)
    (indices : List (Fin files.length))
    : Nat → Nat → List (Fin files.length) → ExtraOperatorInfo
      → Except PruneFailure (List (Fin files.length) × ExtraOperatorInfo)
  | 0, _, _, _ => .error .outOfFuel
  | fuel + 1, start, selected, extra =>
    if start < indices.length then
      if interrupted start then .error .interrupted
      else do
        let batch := (indices.drop start).take batchSize
        let (left, applied) := filter (batch.map files.get)
        let selected ← matchFiles files left batch selected
        pruneLoop interrupted filter indices fuel (start + batchSize) selected
          (noteFilters applied extra)
    else
      .ok (selected, extra)

/-- The selected positions after pruning. -/
def pruneCaptureFiles (interrupted : Nat → Bool) (filter : FileFilter Info)
    (indices : List (Fin files.length)) (extra : ExtraOperatorInfo)
    : Except PruneFailure (List (Fin files.length) × ExtraOperatorInfo) := do
  let (selected, extra) ← pruneLoop files interrupted filter indices (indices.length + 1) 0 [] extra
  return (selected,
    { extra with totalFiles := some files.length, filteredFiles := some selected.length })

variable {files}

/-- Files kept by their path are found again where they were: an index that is passed over has a
path that is not kept, so it is not the one looked for.
Witness: induction on the batch.
-/
theorem matchFiles_filter (keep : List UInt8 → Bool) (batch selected : List (Fin files.length))
    : matchFiles files ((batch.map files.get).filter fun file => keep file.path) batch selected
      = .ok (selected ++ batch.filter fun index => keep (files.get index).path) := by
  induction batch generalizing selected with
  | nil => rw [List.filter_nil, List.append_nil]; rfl
  | cons index batch ih =>
    rw [List.map_cons, List.filter_cons, List.filter_cons]
    cases kept : keep (files.get index).path with
    | true =>
      rw [if_pos rfl, matchFiles, List.dropWhile_cons_of_neg (by simp)]
      dsimp only
      rw [ih, List.append_assoc]
      rfl
    | false =>
      rw [if_neg Bool.false_ne_true, if_neg Bool.false_ne_true, ← ih]
      cases left : (batch.map files.get).filter fun file => keep file.path with
      | nil => rfl
      | cons file rest =>
        have member : file ∈ (batch.map files.get).filter fun file => keep file.path :=
          left ▸ List.mem_cons_self
        have wanted : keep file.path = true := (List.mem_filter.mp member).2
        have other : (files.get index).path ≠ file.path := by
          intro same
          rw [same, wanted] at kept
          cases kept
        rw [matchFiles, List.dropWhile_cons_of_pos (by simpa using other)]
        rfl

section Exact

variable {filter : FileFilter Info} {keep : List UInt8 → Bool} {interrupted : Nat → Bool}
  {indices : List (Fin files.length)}

/-- The batches from `start` on select the kept indices from there on.
Witness: induction on the batches; a batch and what follows it are all that was left.
-/
theorem pruneLoop_ensures
    (exactly : ∀ batch, (filter batch).1 = batch.filter fun file => keep file.path)
    {fuel start : Nat} (selected : List (Fin files.length)) (extra : ExtraOperatorInfo)
    (enough : indices.length - start < fuel)
    : Ensures (pruneLoop files interrupted filter indices fuel start selected extra)
        (fun result => result.1
          = selected ++ (indices.drop start).filter fun index => keep (files.get index).path)
        fun failure => failure = .interrupted ∧ ∃ start, interrupted start = true := by
  induction fuel generalizing start selected extra with
  | zero => exact absurd enough (Nat.not_lt_zero _)
  | succ fuel ih =>
    unfold pruneLoop
    refine .ite (fun more => ?_) fun ended => ?_
    · refine .ite (fun stopped => .error ⟨rfl, start, stopped⟩) fun _ => ?_
      dsimp only
      rw [exactly, matchFiles_filter, ok_bind]
      have step : indices.length - (start + batchSize) < fuel := by
        rw [batchSize]
        omega
      refine (ih _ _ step).mono (fun result same => ?_) fun _ => id
      rw [same, List.append_assoc, ← List.filter_append, ← List.drop_drop,
        List.take_append_drop]
    · rw [List.drop_eq_nil_of_le (Nat.le_of_not_lt ended), List.filter_nil, List.append_nil]
      exact .ok rfl

/-- Pruning with a filter that goes by the path alone selects exactly the indices whose path it
keeps, in their order and as often as they were selected, and never reports a lost order.
Witness: equal paths share the verdict, so the match finds each kept occurrence where it is.
-/
theorem pruneCaptureFiles_selects
    (exactly : ∀ batch, (filter batch).1 = batch.filter fun file => keep file.path)
    (extra : ExtraOperatorInfo)
    : pruneCaptureFiles files interrupted filter indices extra ≠ .error .orderNotPreserved
      ∧ ((∀ start, interrupted start = false) →
          ∃ after, pruneCaptureFiles files interrupted filter indices extra
              = .ok (indices.filter fun index => keep (files.get index).path, after)
            ∧ after.totalFiles = some files.length
            ∧ after.filteredFiles
              = some (indices.filter fun index => keep (files.get index).path).length) := by
  have looped := @pruneLoop_ensures _ files filter keep interrupted indices exactly
    (indices.length + 1) 0 [] extra (Nat.lt_succ_self _)
  unfold pruneCaptureFiles
  cases outcome : pruneLoop files interrupted filter indices (indices.length + 1) 0 [] extra with
  | ok result =>
    rw [outcome] at looped
    obtain ⟨selected, noted⟩ := result
    obtain rfl : selected = indices.filter fun index => keep (files.get index).path := looped
    exact ⟨nofun, fun _ => ⟨_, rfl, rfl, rfl⟩⟩
  | error failure =>
    rw [outcome] at looped
    obtain ⟨rfl, start, stopped⟩ := looped
    refine ⟨nofun, fun never => ?_⟩
    rw [never start] at stopped
    cases stopped

end Exact

/-- Three captures, two of one path. -/
def captures : List (OpenFileInfo Unit) :=
  [⟨ascii "a", ()⟩, ⟨ascii "b", ()⟩, ⟨ascii "a", ()⟩]

theorem length_captures : captures.length = 3 := rfl

/-- Pruned to one path, both its occurrences stay, each as often as it was selected. -/
theorem pruneCaptureFiles_selects_twice
    : ∃ after, pruneCaptureFiles captures (fun _ => false)
        (fun batch => (batch.filter fun file => file.path = ascii "a", []))
        ([2, 0, 1, 2].map (Fin.cast length_captures.symm)) {}
      = .ok ([2, 0, 2].map (Fin.cast length_captures.symm), after) := by
  obtain ⟨after, pruned, -⟩ :=
    (@pruneCaptureFiles_selects _ captures
      (fun batch => (batch.filter fun file => file.path = ascii "a", []))
      (fun path => path = ascii "a") (fun _ => false)
      ([2, 0, 1, 2].map (Fin.cast length_captures.symm)) (fun _ => rfl) {}).2 fun _ => rfl
  exact ⟨after, pruned⟩

end Pruning

end PacketQuapture.Capture
