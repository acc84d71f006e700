import PacketQuapture.Tls.Directions

/-! The loop over handshake messages, one pass at a time.
A pass stops or leaves a new state; what every pass keeps holds at every point of the run.
-/

namespace PacketQuapture.Tls

open Library Reassembly

variable {Cert : Type}

section Runs

variable {x509 : X509Parser Cert} {limits : TlsHandshakeLimits Cert}
variable {chunk : TcpStreamChunk} {bytes : List UInt8} {spans : List (Nat × Nat)}
variable {reading : Reading Cert}

/-- What a pass ensures, from what each kind of message does. -/
theorem messagePass_ensures {post : Pass Cert → Prop} {raised : TlsFailure → Prop}
    (inside : reading.offset ≤ bytes.length)
    (ended : bytes.length - reading.offset < 4 → post (.stop false reading.direction))
    (oversized : 4 ≤ bytes.length - reading.offset →
      limits.maxMessageBytes < (announced (bytes.drop reading.offset)).length →
        post (.stop false
          (reading.direction.limited "TLS handshake message exceeds the per-message limit")))
    (cut : 4 ≤ bytes.length - reading.offset →
      bytes.length - reading.offset - 4 < (announced (bytes.drop reading.offset)).length →
        post (.stop true reading.direction))
    (message : reading.offset + 4 + (announced (bytes.drop reading.offset)).length ≤ bytes.length →
      (announced (bytes.drop reading.offset)).length ≤ limits.maxMessageBytes →
        Ensures
          (if (announced (bytes.drop reading.offset)).type = tlsHandshakeClientHello
              ∨ (announced (bytes.drop reading.offset)).type = tlsHandshakeServerHello then
            helloPass limits chunk spans (announced (bytes.drop reading.offset)) reading
          else if (announced (bytes.drop reading.offset)).type = tlsHandshakeCertificate then
            certificatePass x509 limits chunk spans (announced (bytes.drop reading.offset)) reading
          else
            return .next
              { reading with
                offset := reading.offset + 4 + (announced (bytes.drop reading.offset)).length })
          post raised)
    : Ensures (messagePass x509 limits chunk bytes spans reading) post raised := by
  unfold messagePass
  refine .ite (fun short => .ok (ended short.2)) fun long => ?_
  have room : 4 ≤ bytes.length - reading.offset := by
    by_contra short
    exact long ⟨inside, Nat.lt_of_not_le short⟩
  refine .require_bind inside ?_
  dsimp only
  refine .ite (fun large => .pure (oversized room large)) fun small => ?_
  exact .ite (fun short => .pure (cut room short))
    fun whole => message (by omega) (Nat.le_of_not_lt small)

/-- Where a pass that goes on leaves the offset. -/
def Pass.Moves (offset size : Nat) : Pass Cert → Prop
  | .stop _ _ => True
  | .next reading => offset + 4 ≤ reading.offset ∧ reading.offset ≤ size

/-- A pass that goes on moves past a whole message. -/
theorem messagePass_moves (inside : reading.offset ≤ bytes.length)
    : Ensures (messagePass x509 limits chunk bytes spans reading)
        (Pass.Moves reading.offset bytes.length) (fun _ => True) := by
  refine messagePass_ensures inside (fun _ => trivial) (fun _ _ => trivial) (fun _ _ => trivial) ?_
  intro whole _
  have moved (held : Nat) (direction : Direction Cert)
      : Pass.Moves reading.offset bytes.length (.next
          { offset := reading.offset + 4 + (announced (bytes.drop reading.offset)).length
            held
            direction }) :=
    ⟨Nat.le_add_right _ _, whole⟩
  split
  case isTrue =>
    unfold helloPass
    dsimp only
    refine .ite (fun _ => .ok trivial) fun _ => ?_
    refine Ensures.bind (Ensures.trivial _) fun hello _ => ?_
    exact Ensures.bind (Ensures.trivial _) fun stamps _ => .pure (moved _ _)
  case isFalse =>
    refine .ite (fun _ => ?_) fun _ => .pure (moved _ _)
    unfold certificatePass
    split
    case h_1 => exact .ok (moved _ _)
    case h_2 =>
      refine Ensures.bind (Ensures.trivial _) fun read _ => ?_
      exact Ensures.bind (Ensures.trivial _) fun stamps _ => .pure (moved _ _)

/-- A pass that goes on moves past a whole message. -/
theorem messagePass_advances {next : Reading Cert} (inside : reading.offset ≤ bytes.length)
    (passed : messagePass x509 limits chunk bytes spans reading = .ok (.next next))
    : reading.offset + 4 ≤ next.offset ∧ next.offset ≤ bytes.length := by
  have moved := Ensures.of_eq_ok passed (messagePass_moves inside)
  exact moved

/-! ### Runs -/

/-- The states between the messages of a run. -/
inductive Reaches (x509 : X509Parser Cert) (limits : TlsHandshakeLimits Cert)
    (chunk : TcpStreamChunk) (bytes : List UInt8) (spans : List (Nat × Nat))
    (start : Direction Cert)
    : Reading Cert → Prop
  | start : Reaches x509 limits chunk bytes spans start { direction := start }
  | pass {reading next : Reading Cert}
    (before : Reaches x509 limits chunk bytes spans start reading)
    (passed : messagePass x509 limits chunk bytes spans reading = .ok (.next next))
    : Reaches x509 limits chunk bytes spans start next

/-- The points of a run are those of the loop over the messages.
Witness: induction on the passes, each of which moves past at least a message's header.
-/
theorem Reaches.loops {start : Direction Cert}
    (reaches : Reaches x509 limits chunk bytes spans start reading)
    : reading.offset ≤ bytes.length
      ∧ ∃ fuel, bytes.length - reading.offset < fuel
        ∧ messageLoop x509 limits chunk bytes spans (bytes.length + 1) { direction := start }
          = messageLoop x509 limits chunk bytes spans fuel reading := by
  induction reaches with
  | start => exact ⟨Nat.zero_le _, _, Nat.lt_succ_self _, rfl⟩
  | pass _ passed ih =>
    obtain ⟨inside, fuel, enough, same⟩ := ih
    obtain ⟨forward, within⟩ := messagePass_advances inside passed
    obtain ⟨fuel, rfl⟩ := Nat.exists_eq_succ_of_ne_zero (Nat.ne_of_gt (Nat.zero_lt_of_lt enough))
    refine ⟨within, fuel, by omega, same.trans ?_⟩
    rw [messageLoop, passed]
    rfl

/-- What each pass keeps holds of every reading reached. -/
theorem Reaches.invariant {start : Direction Cert} {invariant : Reading Cert → Prop}
    (initial : invariant { direction := start })
    (kept : ∀ {reading next}, reading.offset ≤ bytes.length → invariant reading →
      messagePass x509 limits chunk bytes spans reading = .ok (.next next) → invariant next)
    (reaches : Reaches x509 limits chunk bytes spans start reading)
    : invariant reading := by
  induction reaches with
  | start => exact initial
  | pass before passed ih => exact kept before.loops.1 ih passed

/-- The state after some passes. -/
def passes (x509 : X509Parser Cert) (limits : TlsHandshakeLimits Cert) (chunk : TcpStreamChunk)
    (bytes : List UInt8) (spans : List (Nat × Nat))
    : Nat → Reading Cert → Option (Reading Cert)
  | 0, reading => some reading
  | count + 1, reading =>
    match messagePass x509 limits chunk bytes spans reading with
    | .ok (.next next) => passes x509 limits chunk bytes spans count next
    | _ => none

theorem Reaches.passes {start : Direction Cert} {last : Reading Cert} {count : Nat}
    (reaches : Reaches x509 limits chunk bytes spans start reading)
    (passed : passes x509 limits chunk bytes spans count reading = some last)
    : Reaches x509 limits chunk bytes spans start last := by
  induction count generalizing reading with
  | zero =>
    cases passed
    exact reaches
  | succ count ih =>
    rw [Tls.passes] at passed
    split at passed
    case h_1 next same => exact ih (reaches.pass same) passed
    case h_2 => cases passed

/-- Locating the packets of a message raises at most some failures. -/
def Located (chunk : TcpStreamChunk) (bytes : List UInt8) (spans : List (Nat × Nat))
    (raised : TlsFailure → Prop)
    : Prop :=
  ∀ offset length, 0 < length → offset + length ≤ bytes.length →
    Ensures (messageStamps chunk spans offset length) (fun _ => True) raised

/-- A pass that stops meets a postcondition, and one that goes on an invariant. -/
def Pass.Meets (invariant : Reading Cert → Prop) (post : Bool × Direction Cert → Prop)
    : Pass Cert → Prop
  | .stop truncated direction => post (truncated, direction)
  | .next reading => invariant reading

/-- A run raises only what a pass raises, and ends as a pass ends it.
Witness: induction on the fuel; every pass moves past at least a message's header.
-/
theorem messageLoop_ensures {invariant : Reading Cert → Prop} {post : Bool × Direction Cert → Prop}
    {raised : TlsFailure → Prop}
    (kept : ∀ reading, reading.offset ≤ bytes.length → invariant reading →
      Ensures (messagePass x509 limits chunk bytes spans reading) (Pass.Meets invariant post)
        raised)
    {fuel : Nat} (inside : reading.offset ≤ bytes.length)
    (enough : bytes.length - reading.offset < fuel) (before : invariant reading)
    : Ensures (messageLoop x509 limits chunk bytes spans fuel reading) post raised := by
  induction fuel generalizing reading with
  | zero => exact absurd enough (Nat.not_lt_zero _)
  | succ fuel ih =>
    refine Ensures.bind (Ensures.returned (kept reading inside before)) fun pass passed => ?_
    obtain ⟨passed, meets⟩ := passed
    cases pass with
    | stop truncated direction => exact .ok meets
    | next next =>
      obtain ⟨forward, within⟩ := messagePass_advances inside passed
      exact ih within (by omega) meets

end Runs

end PacketQuapture.Tls
