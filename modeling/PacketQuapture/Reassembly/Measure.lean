import PacketQuapture.Reassembly.Reassembler

/-! Placing a direction's segments: every accepted segment lies inside the reassembly window,
so the extent does too and `finish` raises nothing.
-/

namespace PacketQuapture.Reassembly

open Library

variable {limits : AcceptedLimits} {base : UInt32}

theorem place_eq_some_iff {segment : Segment} {offset : Nat}
    : place limits base segment = some offset
      ↔ relativeSequence segment.sequence base = offset
        ∧ offset + segment.declared.toNat ≤ limits.maxStreamBytes := by
  simp only [place]
  split
  · simp only [reduceCtorEq, false_iff, not_and]
    intro distance
    omega
  · simp only [Option.some.injEq]
    omega

theorem relativeSequence_eq_natCast {sequence : UInt32} {offset : Nat}
    (distance : relativeSequence sequence base = offset)
    : (sequence - base).toNat = offset ∧ offset < 2 ^ 31 := by
  have bound := (sequence - base).toNat_lt
  simp only [relativeSequence] at distance
  split at distance <;> omega

theorem foldl_max_le {values : List Nat} {start bound : Nat}
    : values.foldl max start ≤ bound ↔ start ≤ bound ∧ ∀ value ∈ values, value ≤ bound := by
  induction values generalizing start with
  | nil => simp
  | cons head rest ih =>
    rw [List.foldl_cons, ih, List.forall_mem_cons, Nat.max_le, and_assoc]

/-- Where the segments end, before the FIN is considered. -/
abbrev dataExtent (segments : List Segment) (offsets : List Nat) : Nat :=
  (List.zipWith (fun offset segment => offset + segment.declared.toNat) offsets segments).foldl
    max 0

theorem mapM_place_eq_some_iff {segments : List Segment} {offsets : List Nat}
    : segments.mapM (place limits base) = some offsets
      ↔ List.Forall₂ (fun segment offset => place limits base segment = some offset) segments
          offsets := by
  induction segments generalizing offsets with
  | nil => simp [eq_comm]
  | cons head rest ih =>
    rw [List.mapM_cons, List.forall₂_cons_left_iff]
    simp only [Option.pure_def, Option.bind_eq_bind, Option.bind_eq_some_iff,
      Option.some.injEq]
    constructor
    · rintro ⟨offset, placed, tail, tailPlaced, rfl⟩
      exact ⟨offset, tail, placed, ih.mp tailPlaced, rfl⟩
    · rintro ⟨offset, tail, placed, tailPlaced, rfl⟩
      exact ⟨offset, placed, tail, ih.mpr tailPlaced, rfl⟩

theorem dataExtent_le {segments : List Segment} {offsets : List Nat}
    (placed
      : List.Forall₂ (fun segment offset => place limits base segment = some offset) segments
          offsets)
    : dataExtent segments offsets ≤ limits.maxStreamBytes := by
  refine foldl_max_le.mpr ⟨Nat.zero_le _, ?_⟩
  induction placed with
  | nil => simp
  | cons head _ ih =>
    rw [List.zipWith_cons_cons, List.forall_mem_cons]
    exact ⟨(place_eq_some_iff.mp head).2, ih⟩

/-- A measured direction has every segment placed, and its extent covers the data and fits the
window; without a FIN it is exactly the data's extent.
-/
theorem measure_eq_ok {key : TcpFlowKey} {flow : Flow} {offsets : List Nat} {extent : Nat}
    (measured : measure limits key flow base = .ok (offsets, extent))
    : List.Forall₂ (fun segment offset => place limits base segment = some offset) flow.segments
        offsets
      ∧ dataExtent flow.segments offsets ≤ extent
      ∧ extent ≤ limits.maxStreamBytes := by
  unfold measure at measured
  split at measured
  · cases measured
  case h_2 placed =>
    have each := mapM_place_eq_some_iff.mp placed
    have within := dataExtent_le each
    dsimp only at measured
    split at measured
    · split at measured
      · cases measured
      split at measured
      · cases measured
      case isFalse outside covered =>
        cases measured
        refine ⟨each, Nat.not_lt.mp covered, ?_⟩
        omega
    · cases measured
      exact ⟨each, le_rfl, within⟩

theorem measure_eq_error {key : TcpFlowKey} {flow : Flow} {stream : TcpStream}
    (measured : measure limits key flow base = .error stream)
    : ∃ status error,
        stream = diagnostic key flow status error ∧ (status = .limit ∨ status = .conflict) := by
  unfold measure at measured
  split at measured
  · cases measured
    exact ⟨_, _, rfl, .inl rfl⟩
  · dsimp only at measured
    split at measured
    · split at measured
      · cases measured
        exact ⟨_, _, rfl, .inl rfl⟩
      · split at measured <;> cases measured
        exact ⟨_, _, rfl, .inr rfl⟩
    · cases measured

theorem finish_returns (limits : AcceptedLimits) (key : TcpFlowKey) (flow : Flow)
    : ∃ messages, finish limits key flow = .ok messages := by
  unfold finish
  split
  · exact ⟨_, rfl⟩
  split
  · exact ⟨_, rfl⟩
  split
  · exact ⟨_, rfl⟩
  dsimp only
  split
  · exact ⟨_, rfl⟩
  case h_2 offsets extent measured =>
    rw [require, if_pos (measure_eq_ok measured).2.2]
    cases wrote : overlay 0 flow.segments offsets (List.replicate extent {}) with
    | none => exact ⟨_, rfl⟩
    | some cells => exact ⟨_, rfl⟩

end PacketQuapture.Reassembly
