import PacketQuapture.Flow.Conservation

/-! The ids of the flow rows of one query: the number of a session's first packet, interleaved
over the files of the scan.
-/

namespace PacketQuapture.Flow

open Library

/-! ### Row ids -/

/-- Interleaves per-file row ids into one query-wide id space: local id n of file f out of count
files becomes (n - 1) * count + f + 1.
-/
def scanRowId (localId fileIndex fileCount : Nat) (what : String) : Except String Nat :=
  let maximum := 2 ^ 64 - 1
  if localId = 0 ∨ fileCount = 0 ∨ fileCount ≤ fileIndex
      ∨ (maximum - (fileIndex + 1)) / fileCount < localId - 1 then
    .error s!"PacketQuapture {what} ID exceeds UBIGINT capacity"
  else .ok ((localId - 1) * fileCount + fileIndex + 1)

def flowScanId (localId fileIndex fileCount : Nat) : Except String Nat :=
  scanRowId localId fileIndex fileCount "flow"

theorem scanRowId_eq_ok {localId fileIndex fileCount id : Nat} {what : String}
    (returned : scanRowId localId fileIndex fileCount what = .ok id)
    : localId ≠ 0 ∧ fileIndex < fileCount ∧ id = (localId - 1) * fileCount + fileIndex + 1 := by
  simp only [scanRowId] at returned
  split at returned
  · cases returned
  case isFalse accepted =>
    simp only [not_or, not_le] at accepted
    exact ⟨accepted.1, accepted.2.2.1, (Except.ok.inj returned).symm⟩

/-- Two rows of one id have the same local id in the same file.
Witness: the file is the remainder of the id by the number of files, the local id the quotient.
-/
theorem scanRowId_injective {localId otherId fileIndex otherIndex fileCount id : Nat}
    {what : String} (left : scanRowId localId fileIndex fileCount what = .ok id)
    (right : scanRowId otherId otherIndex fileCount what = .ok id)
    : localId = otherId ∧ fileIndex = otherIndex := by
  obtain ⟨positive, inside, same⟩ := scanRowId_eq_ok left
  obtain ⟨otherPositive, otherInside, otherSame⟩ := scanRowId_eq_ok right
  have equal : (localId - 1) * fileCount + fileIndex = (otherId - 1) * fileCount + otherIndex := by
    omega
  have index := congrArg (· % fileCount) equal
  simp only [Nat.mul_add_mod_self_right, Nat.mod_eq_of_lt inside, Nat.mod_eq_of_lt otherInside]
    at index
  have quotient : localId - 1 = otherId - 1 :=
    Nat.eq_of_mul_eq_mul_right (by omega : 0 < fileCount) (by omega)
  exact ⟨by omega, index⟩

/-! ### The rows of all files -/

/-- The records of one file, and the section its scan ends in. -/
structure ScannedFile where
  records : List FlowInput
  finalSection : UInt32 := 0

namespace ScannedFile

/-- The rows of a file, which an aggregator of its own emits. -/
def rows (file : ScannedFile) (limits : AcceptedLimits) : List FlowSummary :=
  (({ limits } : FlowAggregator).scan file.records file.finalSection).1

def Numbered (file : ScannedFile) : Prop :=
  (file.records.map (·.stamp.number)).Pairwise (· < ·)

end ScannedFile

/-- The ids of the rows of all files, in the order of the files. -/
def flowIds (limits : AcceptedLimits) (files : List ScannedFile) : List (Except String Nat) :=
  (files.mapIdx fun index file =>
    (file.rows limits).map fun row => flowScanId row.firstPacket index files.length).flatten

/-- Rows of different packets start at different packets.
Witness: each row starts at the first packet of its group, and no number occurs in two groups.
-/
theorem firstPackets_nodup {rows : List FlowSummary} {groups : List (List FlowInput)}
    (accounts : List.Forall₂ Summarises rows groups)
    (distinct : (groups.flatten.map (·.stamp.number)).Nodup)
    : (rows.map (·.firstPacket)).Nodup
      ∧ ∀ number ∈ rows.map (·.firstPacket), number ∈ groups.flatten.map (·.stamp.number) := by
  induction accounts with
  | nil => exact ⟨.nil, fun number member => by cases member⟩
  | @cons row group rows groups account _ ih =>
    rw [List.flatten_cons, List.map_append, List.nodup_append] at distinct
    obtain ⟨_, later, apart⟩ := distinct
    obtain ⟨unique, inside⟩ := ih later
    have first : row.firstPacket ∈ group.map (·.stamp.number) := by
      obtain ⟨head, found, number⟩ := Option.map_eq_some_iff.mp account.first
      rw [← number]
      exact List.mem_map_of_mem (List.mem_of_head? found)
    rw [List.map_cons, List.flatten_cons, List.map_append]
    refine ⟨List.nodup_cons.mpr ⟨fun repeated => ?_, unique⟩, fun number member => ?_⟩
    · exact apart _ first _ (inside _ repeated) rfl
    · rcases List.mem_cons.mp member with rfl | rest
      · exact List.mem_append_left _ first
      · exact List.mem_append_right _ (inside number rest)

theorem ScannedFile.Numbered.firstPackets_nodup {file : ScannedFile} (numbered : file.Numbered)
    (limits : AcceptedLimits)
    : ((file.rows limits).map (·.firstPacket)).Nodup := by
  obtain ⟨groups, sessions, ends⟩ :=
    FlowAggregator.scan_histories limits file.records file.finalSection
  refine (Flow.firstPackets_nodup (ends.imp fun _ _ ended => ended.summarises) ?_).1
  obtain ⟨part, same, inside⟩ := subperm_of_filter_prefix _ sessions.runs
  have distinct : (part.map (·.stamp.number)).Nodup :=
    (numbered.imp ne_of_lt).sublist ((inside.trans List.filter_sublist).map _)
  exact ((same.map (·.stamp.number)).nodup_iff).mp distinct

/-- The ids of all flow rows of a query are distinct: in a file whose packet numbers increase no
two rows share their first packet, and no two rows of any files share an id.
-/
theorem flowIds_distinct (limits : AcceptedLimits) {files : List ScannedFile}
    (numbered : ∀ file ∈ files, file.Numbered)
    : (∀ file ∈ files, ((file.rows limits).map (·.firstPacket)).Nodup)
      ∧ (flowIds limits files).Pairwise fun left right => ∀ id, left = .ok id → right ≠ .ok id := by
  refine ⟨fun file member => (numbered file member).firstPackets_nodup limits, ?_⟩
  rw [flowIds, List.pairwise_flatten]
  refine ⟨fun ids member => ?_, ?_⟩
  · obtain ⟨index, inside, rfl⟩ := List.mem_mapIdx.mp member
    rw [List.pairwise_map]
    have unique := (numbered _ (List.getElem_mem inside)).firstPackets_nodup limits
    refine (List.pairwise_map.mp unique).imp fun distinct id left right => ?_
    exact distinct (scanRowId_injective left right).1
  · rw [List.pairwise_iff_getElem]
    intro first second inFirst inSecond earlier left leftIn right rightIn id leftId rightId
    rw [List.getElem_mapIdx] at leftIn rightIn
    obtain ⟨row, _, rfl⟩ := List.mem_map.mp leftIn
    obtain ⟨other, _, rfl⟩ := List.mem_map.mp rightIn
    exact absurd (scanRowId_injective leftId rightId).2 (Nat.ne_of_lt earlier)

/-- A conversation seen in two files has two ids. -/
theorem flowIds_distinct_twice
    : (flowIds .default [⟨FlowAggregator.queryAndAnswer, 0⟩, ⟨FlowAggregator.queryAndAnswer, 0⟩]).map
          Except.toOption = [some 1, some 2]
      ∧ (flowIds .default
            [⟨FlowAggregator.queryAndAnswer, 0⟩, ⟨FlowAggregator.queryAndAnswer, 0⟩]).Pairwise
          fun left right => ∀ id, left = .ok id → right ≠ .ok id := by
  refine ⟨by decide +kernel, (flowIds_distinct .default fun file member => ?_).2⟩
  have same : file = ⟨FlowAggregator.queryAndAnswer, 0⟩ := by simpa using member
  rw [same]
  simp [ScannedFile.Numbered, FlowAggregator.queryAndAnswer]

end PacketQuapture.Flow
