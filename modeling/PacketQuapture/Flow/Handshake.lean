import PacketQuapture.Flow.Histories

/-! The handshake verdict of a TCP row, against the packets of its session.
The verdict is kept by a state machine with one state for each side. A SYN that neither repeats
the first one nor opens the other side ends the session before it is accounted, so the machine
only ever sees one initial sequence number of the originator.
-/

namespace PacketQuapture.Flow

open Library

/-! ### Flags -/

theorem and_bit (flags : UInt16) {bit : UInt16} {place : Nat} (power : bit.toNat = 2 ^ place)
    : flags &&& bit = 0 ∨ flags &&& bit = bit := by
  rw [← UInt16.toNat_inj, ← UInt16.toNat_inj, UInt16.toNat_and, power, Nat.and_two_pow]
  cases flags.toNat.testBit place with
  | false => exact .inl (Nat.zero_mul _)
  | true => exact .inr (Nat.one_mul _)

theorem and_or_bits (flags left right : UInt16)
    : flags &&& (left ||| right) = flags &&& left ||| flags &&& right := by
  rw [← UInt16.toNat_inj]
  simp only [UInt16.toNat_and, UInt16.toNat_or, Nat.and_or_distrib_left]

theorem isSyn_eq (packet : DecodedPacket)
    : isSyn packet = (hasFlag packet.tcpFlags tcpSyn && !hasFlag packet.tcpFlags tcpAckFlag) := by
  simp only [isSyn, hasFlag, and_or_bits]
  rcases and_bit packet.tcpFlags (show tcpSyn.toNat = 2 ^ 1 from rfl) with syn | syn <;>
    rcases and_bit packet.tcpFlags (show tcpAckFlag.toNat = 2 ^ 4 from rfl) with ack | ack <;>
    rw [syn, ack] <;> decide

theorem isSynAck_eq (packet : DecodedPacket)
    : isSynAck packet
      = (hasFlag packet.tcpFlags tcpSyn && hasFlag packet.tcpFlags tcpAckFlag) := by
  simp only [isSynAck, hasFlag, and_or_bits]
  rcases and_bit packet.tcpFlags (show tcpSyn.toNat = 2 ^ 1 from rfl) with syn | syn <;>
    rcases and_bit packet.tcpFlags (show tcpAckFlag.toNat = 2 ^ 4 from rfl) with ack | ack <;>
    rw [syn, ack] <;> decide

/-! ### What a completed handshake is -/

/-- The endpoint a row names as the originator. -/
def FlowSummary.originator (row : FlowSummary) : FlowEndpoint :=
  if row.origIsLow then row.key.low else row.key.high

/-- The endpoint a row names as the responder. -/
def FlowSummary.responder (row : FlowSummary) : FlowEndpoint :=
  if row.origIsLow then row.key.high else row.key.low

/-- A SYN-ACK from the responder that acknowledges a SYN of the given sequence. -/
def answers (responder : FlowEndpoint) (sequence : UInt32) (input : FlowInput) : Bool :=
  isSynAck input.packet && input.source = responder && input.packet.tcpAck == sequence + 1

/-- A non-SYN ACK from the originator that follows its SYN and acknowledges the SYN-ACK. -/
def concludes (originator : FlowEndpoint) (sequence answer : UInt32) (input : FlowInput) : Bool :=
  !hasFlag input.packet.tcpFlags tcpSyn && hasFlag input.packet.tcpFlags tcpAckFlag
    && input.source = originator && input.packet.tcpSeq == sequence + 1
    && input.packet.tcpAck == answer + 1

/-- The packets contain, in this order, a SYN, a SYN-ACK that answers it and an ACK that
acknowledges the latest such SYN-ACK before it.
-/
def Completes (originator responder : FlowEndpoint) (packets : List FlowInput) : Prop :=
  ∃ before synAck between ack after syn,
    packets = before ++ synAck :: (between ++ ack :: after)
    ∧ syn ∈ before
    ∧ isSyn syn.packet = true
    ∧ answers responder syn.packet.tcpSeq synAck = true
    ∧ (∀ input ∈ between, answers responder syn.packet.tcpSeq input = false)
    ∧ concludes originator syn.packet.tcpSeq synAck.packet.tcpSeq ack = true

/-- What a TCP row says about the opening of its session. -/
structure HandshakeVerdict (row : FlowSummary) (packets : List FlowInput) : Prop where
  opening : ∀ input ∈ packets, isSyn input.packet = true →
    ∃ first rest, packets = first :: rest ∧ isSyn first.packet = true
  syns : ∀ input ∈ packets, isSyn input.packet = true → input.source = row.originator
    ∧ ∀ other ∈ packets, isSyn other.packet = true → other.packet.tcpSeq = input.packet.tcpSeq
  complete : row.handshakeComplete = true ↔ Completes row.originator row.responder packets

/-! ### The latest answer -/

/-- The latest SYN-ACK that answers a SYN of the given sequence. -/
def latestAnswer (responder : FlowEndpoint) (sequence : UInt32) (packets : List FlowInput)
    : Option FlowInput :=
  packets.reverse.find? (answers responder sequence)

/-- The packets contain an answer and then an ACK that acknowledges the latest answer before
it.
-/
def Concluded (originator responder : FlowEndpoint) (sequence : UInt32)
    (packets : List FlowInput)
    : Prop :=
  ∃ before ack after answer, packets = before ++ ack :: after
    ∧ latestAnswer responder sequence before = some answer
    ∧ concludes originator sequence answer.packet.tcpSeq ack = true

variable {originator responder : FlowEndpoint} {sequence : UInt32} {packets : List FlowInput}
variable {input : FlowInput}
variable {session : Session} {orig : Bool}

theorem latestAnswer_snoc
    : latestAnswer responder sequence (packets ++ [input])
      = if answers responder sequence input then some input
        else latestAnswer responder sequence packets := by
  rw [latestAnswer, List.reverse_append, List.reverse_singleton, List.singleton_append,
    List.find?_cons]
  cases answers responder sequence input <;> rfl

theorem latestAnswer_eq_some_iff {answer : FlowInput}
    : latestAnswer responder sequence packets = some answer
      ↔ answers responder sequence answer = true
        ∧ ∃ before between, packets = before ++ answer :: between
          ∧ ∀ input ∈ between, answers responder sequence input = false := by
  rw [latestAnswer, List.find?_eq_some_iff_append]
  refine and_congr_right fun _ => ⟨?_, ?_⟩
  · intro split
    obtain ⟨after, before, whole, none⟩ := split
    refine ⟨before.reverse, after.reverse, ?_, fun input member => ?_⟩
    · rw [← List.reverse_reverse packets, whole]
      simp
    · simpa using none input (List.mem_reverse.mp member)
  · intro split
    obtain ⟨before, between, rfl, none⟩ := split
    refine ⟨between.reverse, before.reverse, by simp, fun input member => ?_⟩
    simpa using none input (List.mem_reverse.mp member)

theorem concluded_snoc
    : Concluded originator responder sequence (packets ++ [input])
      ↔ Concluded originator responder sequence packets
        ∨ ∃ answer, latestAnswer responder sequence packets = some answer
            ∧ concludes originator sequence answer.packet.tcpSeq input = true := by
  refine ⟨?_, ?_⟩
  · intro concluded
    obtain ⟨before, ack, after, answer, whole, latest, last⟩ := concluded
    rcases List.eq_nil_or_concat after with rfl | ⟨rest, final, rfl⟩
    · obtain ⟨rfl, same⟩ := List.append_inj' whole rfl
      cases same
      exact .inr ⟨answer, latest, last⟩
    · rw [List.concat_eq_append, ← List.cons_append, ← List.append_assoc] at whole
      obtain ⟨rfl, _⟩ := List.append_inj' whole rfl
      exact .inl ⟨before, ack, rest, answer, rfl, latest, last⟩
  · intro either
    rcases either with concluded | ⟨answer, latest, last⟩
    · obtain ⟨before, ack, after, answer, rfl, latest, last⟩ := concluded
      exact ⟨before, ack, after ++ [input], answer, by simp, latest, last⟩
    · exact ⟨packets, input, [], answer, rfl, latest, last⟩

/-- A session whose SYNs all have one sequence and start it completes its handshake when an ACK
acknowledges the latest answer to that sequence.
-/
theorem completes_iff_concluded {first : FlowInput} {rest : List FlowInput}
    (syn : isSyn first.packet = true)
    (same : ∀ input ∈ first :: rest, isSyn input.packet = true →
      input.packet.tcpSeq = first.packet.tcpSeq)
    : Completes originator responder (first :: rest)
      ↔ Concluded originator responder first.packet.tcpSeq (first :: rest) := by
  refine ⟨?_, ?_⟩
  · intro completes
    obtain ⟨before, synAck, between, ack, after, asked, whole, earlier, starts, answered, none,
      last⟩ := completes
    have sequence : asked.packet.tcpSeq = first.packet.tcpSeq := by
      refine same asked ?_ starts
      rw [whole]
      exact List.mem_append_left _ earlier
    rw [sequence] at answered none last
    refine ⟨before ++ synAck :: between, ack, after, synAck, by simpa using whole, ?_, last⟩
    exact latestAnswer_eq_some_iff.mpr ⟨answered, before, between, rfl, none⟩
  · intro concluded
    obtain ⟨history, ack, after, synAck, whole, latest, last⟩ := concluded
    obtain ⟨answered, before, between, rfl, none⟩ := latestAnswer_eq_some_iff.mp latest
    refine ⟨before, synAck, between, ack, after, first, by simpa using whole, ?_, syn, answered,
      none, last⟩
    cases before with
    | nil =>
      -- the session starts with a SYN, so the answer is not its first packet
      simp only [List.nil_append, List.cons_append, List.cons.injEq] at whole
      rw [whole.1] at syn
      simp only [answers, Bool.and_eq_true] at answered
      simp [isSyn_eq, isSynAck_eq] at syn answered
      exact absurd answered.1.1.2 (by simp [syn.2])
    | cons head tail =>
      simp only [List.cons_append, List.cons.injEq] at whole
      rw [whole.1]
      exact List.mem_cons_self

/-! ### The state machine -/

/-- What the handshake of a session depends on. -/
structure HandshakeView where
  originator : FlowEndpoint
  responder : FlowEndpoint
  syn : PerSide Bool
  synAck : PerSide Bool
  sequence : PerSide UInt32
  simultaneousOpen : Bool
  complete : Bool

def Session.view (session : Session) : HandshakeView where
  originator := session.row.originator
  responder := session.row.responder
  syn := session.syn
  synAck := session.synAck
  sequence := session.sequence
  simultaneousOpen := session.row.simultaneousOpen
  complete := session.row.handshakeComplete

/-- A session without a simultaneous open is where its packets have brought the handshake: it
waits for a SYN, or holds the sequence of the originator's SYNs and of the latest answer.
-/
inductive HandshakeView.Tracks (view : HandshakeView) (packets : List FlowInput) : Prop where
  | unasked (silent : view.syn = ⟨false, false⟩) (unanswered : view.synAck.resp = false)
      (incomplete : view.complete = false)
      (none : ∀ input ∈ packets, isSyn input.packet = false)
  | asked {first : FlowInput} {rest : List FlowInput} (silent : view.syn = ⟨true, false⟩)
      (starts : packets = first :: rest) (syn : isSyn first.packet = true)
      (held : first.packet.tcpSeq = view.sequence.orig)
      (syns : ∀ input ∈ packets, isSyn input.packet = true →
        input.source = view.originator ∧ input.packet.tcpSeq = view.sequence.orig)
      (answer : (latestAnswer view.responder view.sequence.orig packets).map (·.packet.tcpSeq)
        = if view.synAck.resp then some view.sequence.resp else Option.none)
      (complete : view.complete = true
        ↔ Concluded view.originator view.responder view.sequence.orig packets)

theorem Session.account_view {next : Session} {input : FlowInput} {fromLow late : Bool}
    (tcp : input.packet.tcp = true) (returned : session.account input fromLow late = .ok next)
    : ∃ counted : Session, counted.view = session.view
        ∧ next = counted.handshake input.packet (fromLow == session.row.origIsLow) := by
  obtain ⟨counts, _, returned⟩ := bind_eq_ok.mp returned
  obtain ⟨row, stamped, returned⟩ := bind_eq_ok.mp returned
  obtain ⟨frame, _⟩ := FlowSummary.observeStamp_eq_ok stamped
  rw [FlowSummary.setSide_frame] at frame
  dsimp only at returned
  rw [if_pos tcp] at returned
  refine ⟨_, ?_, (Except.ok.inj returned).symm⟩
  rw [frame]
  rfl

theorem source_eq {input : FlowInput} {row : FlowSummary} (key : (makeKey input).1 = row.key)
    : input.source
      = if (makeKey input).2 == row.origIsLow then row.originator else row.responder := by
  rw [FlowSummary.originator, FlowSummary.responder, ← key]
  by_cases lower : input.destination < input.source <;>
    cases row.origIsLow <;> simp [makeKey, lower]

namespace HandshakeView.Tracks

variable {view : HandshakeView} {packets : List FlowInput} {input : FlowInput}

/-- A packet that repeats the SYN at most, is no answer and acknowledges none changes nothing. -/
theorem quiet (tracks : view.Tracks packets)
    (repeats : isSyn input.packet = true → view.syn.orig = true
      ∧ input.source = view.originator ∧ input.packet.tcpSeq = view.sequence.orig)
    (unanswering : view.syn.orig = true →
      answers view.responder view.sequence.orig input = false)
    (inconclusive : view.syn.orig = true → view.synAck.resp = true →
      concludes view.originator view.sequence.orig view.sequence.resp input = false)
    : view.Tracks (packets ++ [input]) := by
  cases tracks with
  | unasked silent unanswered incomplete none =>
    refine .unasked silent unanswered incomplete fun packet member => ?_
    rcases List.mem_append.mp member with earlier | last
    · exact none packet earlier
    · rw [List.mem_singleton.mp last]
      cases isSyn : isSyn input.packet with
      | false => rfl
      | true =>
        have started := (repeats isSyn).1
        rw [silent] at started
        cases started
  | @asked first rest silent starts syn held syns answer complete =>
    have started : view.syn.orig = true := by rw [silent]
    refine .asked silent (by rw [starts, List.cons_append]) syn held ?_ ?_ ?_
    · intro packet member isSyn
      rcases List.mem_append.mp member with earlier | last
      · exact syns packet earlier isSyn
      · rw [List.mem_singleton.mp last] at isSyn ⊢
        exact (repeats isSyn).2
    · rw [latestAnswer_snoc, unanswering started, if_neg Bool.false_ne_true]
      exact answer
    · rw [complete, concluded_snoc]
      refine ⟨.inl, fun either => either.resolve_right fun last => ?_⟩
      obtain ⟨found, latest, concluding⟩ := last
      rw [latest, Option.map_some] at answer
      split at answer
      case isTrue answered =>
        rw [Option.some.inj answer, inconclusive started answered] at concluding
        cases concluding
      case isFalse => cases answer

theorem syn_neither (isSyn : isSyn input.packet = true)
    : (∀ responder sequence, answers responder sequence input = false)
      ∧ ∀ originator sequence answer, concludes originator sequence answer input = false := by
  rw [isSyn_eq, Bool.and_eq_true, Bool.not_eq_true'] at isSyn
  refine ⟨fun responder sequence => ?_, fun originator sequence answer => ?_⟩
  · simp [answers, isSynAck_eq, isSyn.2]
  · simp [concludes, isSyn.2]

theorem start (silent : view.syn = ⟨true, false⟩) (unanswered : view.synAck.resp = false)
    (incomplete : view.complete = false) (syn : isSyn input.packet = true)
    (held : input.packet.tcpSeq = view.sequence.orig) (source : input.source = view.originator)
    : view.Tracks [input] := by
  have none : latestAnswer view.responder view.sequence.orig [input] = none := by
    rw [latestAnswer, List.reverse_singleton, List.find?_singleton, (syn_neither syn).1]
    rfl
  refine .asked silent rfl syn held ?_ (by rw [none, unanswered]; rfl) ?_
  · intro packet member _
    rw [List.mem_singleton.mp member]
    exact ⟨source, held⟩
  · rw [incomplete]
    refine iff_of_false Bool.false_ne_true fun concluded => ?_
    rw [← List.nil_append [input], concluded_snoc] at concluded
    rcases concluded with ⟨before, _, _, _, whole, _, _⟩ | ⟨answer, latest, _⟩
    · simp at whole
    · cases latest

/-- A SYN starts the handshake, or repeats the SYN that started it.
Witness: the responder's SYN would be a simultaneous open, or start a session of its own.
-/
theorem syn (tracks : session.view.Tracks packets) (isSyn : isSyn input.packet = true)
    (source : input.source = if orig then session.row.originator else session.row.responder)
    (fits : packets = [] ∧ orig = true
      ∨ session.syn.get orig = true ∧ session.sequence.get orig = input.packet.tcpSeq
      ∨ session.syn.get orig = false ∧ session.syn.get (!orig) = true)
    (single : (session.handshake input.packet orig).row.simultaneousOpen = false)
    : (session.handshake input.packet orig).view.Tracks (packets ++ [input]) := by
  simp only [Session.handshake, if_pos isSyn] at single ⊢
  have synOf : session.view.syn = session.syn := rfl
  cases tracks with
  | unasked silent unanswered incomplete none =>
    rw [synOf] at silent
    rcases fits with ⟨rfl, rfl⟩ | ⟨repeated, _⟩ | ⟨_, opposite⟩
    · refine start ?_ unanswered incomplete isSyn rfl source
      simp [Session.view, silent, PerSide.set]
    · cases orig <;> simp [silent, PerSide.get] at repeated
    · cases orig <;> simp [silent, PerSide.get] at opposite
  | @asked first rest silent starts syn held syns answer complete =>
    rw [synOf] at silent
    rcases fits with ⟨rfl, _⟩ | ⟨repeated, same⟩ | ⟨fresh, opposite⟩
    · cases starts
    · cases orig with
      | false => simp [silent, PerSide.get] at repeated
      | true =>
        -- nothing changes: the SYN has the sequence already held
        have unchanged : session.sequence.set true input.packet.tcpSeq = session.sequence := by
          rw [← same]
          rfl
        have asking : session.syn.set true true = session.syn := by
          rw [silent]
          rfl
        have again : session.view.Tracks (packets ++ [input]) :=
          quiet (.asked silent starts syn held syns answer complete)
            (fun _ => ⟨congrArg PerSide.orig silent, source, same.symm⟩)
            (fun _ => (syn_neither isSyn).1 ..) fun _ _ => (syn_neither isSyn).2 ..
        rw [unchanged, asking]
        simpa [Session.view, silent, PerSide.get, FlowSummary.originator,
          FlowSummary.responder] using again
    · cases orig with
      | true => simp [silent, PerSide.get] at fresh
      | false => simp [silent, PerSide.get] at single

/-- A SYN-ACK is an answer when the responder acknowledges the originator's SYN. -/
theorem synAck (tracks : session.view.Tracks packets) (both : isSynAck input.packet = true)
    (distinct : session.row.originator ≠ session.row.responder)
    (source : input.source = if orig then session.row.originator else session.row.responder)
    : (session.handshake input.packet orig).view.Tracks (packets ++ [input]) := by
  have flags := both
  rw [isSynAck_eq, Bool.and_eq_true] at flags
  have other : isSyn input.packet = false := by simp [isSyn_eq, flags.2]
  have inconclusive : ∀ originator sequence answer,
      concludes originator sequence answer input = false := by
    intro originator sequence answer
    simp [concludes, flags.1]
  have synOf : session.view.syn = session.syn := rfl
  simp only [Session.handshake, other, Bool.false_eq_true, if_false, if_pos both]
  split
  case isTrue accepted =>
    rw [Bool.and_eq_true, beq_iff_eq] at accepted
    cases tracks with
    | unasked silent unanswered incomplete none =>
      rw [synOf] at silent
      cases orig <;> simp [silent, PerSide.get] at accepted
    | @asked first rest silent starts syn held syns answer complete =>
      rw [synOf] at silent
      cases orig with
      | true => simp [silent, PerSide.get] at accepted
      | false =>
        have answered : answers session.row.responder session.sequence.orig input = true := by
          simp only [answers, both, Bool.true_and, Bool.and_eq_true, decide_eq_true_eq,
            beq_iff_eq]
          exact ⟨source, accepted.2⟩
        refine .asked silent (by rw [starts, List.cons_append]) syn held ?_ ?_ ?_
        · intro packet member isSyn
          rcases List.mem_append.mp member with earlier | last
          · exact syns packet earlier isSyn
          · rw [List.mem_singleton.mp last, other] at isSyn
            cases isSyn
        · have latest : latestAnswer session.row.responder session.sequence.orig
              (packets ++ [input]) = some input := by
            rw [latestAnswer_snoc, if_pos answered]
          exact congrArg (Option.map _) latest
        · refine complete.trans (Iff.trans ?_ concluded_snoc.symm)
          refine ⟨.inl, fun either => either.resolve_right fun last => ?_⟩
          obtain ⟨_, _, concluding⟩ := last
          rw [inconclusive] at concluding
          cases concluding
  case isFalse refused =>
    refine quiet tracks (fun isSyn => ?_) (fun started => ?_) fun _ _ => inconclusive ..
    · rw [other] at isSyn
      cases isSyn
    · simp only [answers, both, Bool.true_and, Bool.and_eq_false_iff, decide_eq_false_iff_not,
        beq_eq_false_iff_ne]
      cases orig with
      | true => exact .inl fun same => distinct (source.symm.trans same)
      | false =>
        refine .inr fun same => refused ?_
        rw [Bool.and_eq_true, beq_iff_eq]
        exact ⟨started, same⟩

/-- Any other segment completes the handshake when the originator acknowledges the latest
answer.
-/
theorem ack (tracks : session.view.Tracks packets) (notSyn : isSyn input.packet = false)
    (notSynAck : isSynAck input.packet = false)
    (distinct : session.row.originator ≠ session.row.responder)
    (source : input.source = if orig then session.row.originator else session.row.responder)
    : (session.handshake input.packet orig).view.Tracks (packets ++ [input]) := by
  have synOf : session.view.syn = session.syn := rfl
  have unanswering : ∀ responder sequence, answers responder sequence input = false := by
    intro responder sequence
    simp [answers, notSynAck]
  have repeats : isSyn input.packet = true → session.view.syn.orig = true
      ∧ input.source = session.view.originator
      ∧ input.packet.tcpSeq = session.view.sequence.orig := by
    intro isSyn
    rw [notSyn] at isSyn
    cases isSyn
  simp only [Session.handshake, notSyn, notSynAck, Bool.false_eq_true, if_false]
  split
  case isTrue accepted =>
    simp only [Bool.and_eq_true, beq_iff_eq] at accepted
    obtain ⟨⟨⟨⟨acknowledged, asking⟩, answered⟩, latest⟩, next⟩ := accepted
    have plain : hasFlag input.packet.tcpFlags tcpSyn = false := by
      rw [isSynAck_eq, acknowledged, Bool.and_true] at notSynAck
      exact notSynAck
    cases tracks with
    | unasked silent unanswered incomplete none =>
      rw [synOf] at silent
      cases orig <;> simp [silent, PerSide.get] at asking
    | @asked first rest silent starts syn held syns answer complete =>
      rw [synOf] at silent
      cases orig with
      | false => simp [silent, PerSide.get] at asking
      | true =>
        refine .asked silent (by rw [starts, List.cons_append]) syn held ?_ ?_ ?_
        · intro packet member isSyn
          rcases List.mem_append.mp member with earlier | last
          · exact syns packet earlier isSyn
          · rw [List.mem_singleton.mp last, notSyn] at isSyn
            cases isSyn
        · refine (congrArg _ ?_).trans answer
          rw [latestAnswer_snoc, unanswering, if_neg Bool.false_ne_true]
          rfl
        · refine iff_of_true rfl (concluded_snoc.mpr (.inr ?_))
          have held : session.view.synAck.resp = true := answered
          rw [held, if_pos rfl] at answer
          obtain ⟨found, latestFound, number⟩ := Option.map_eq_some_iff.mp answer
          refine ⟨found, latestFound, ?_⟩
          simp only [concludes, plain, acknowledged, Bool.not_false, Bool.true_and,
            Bool.and_eq_true, decide_eq_true_eq, beq_iff_eq]
          exact ⟨⟨source, next⟩, by rw [number]; exact latest⟩
  case isFalse refused =>
    refine quiet tracks repeats (fun _ => unanswering ..) fun asking answered => ?_
    refine Bool.eq_false_iff.mpr fun concluding => refused ?_
    simp only [concludes, Bool.and_eq_true, decide_eq_true_eq, beq_iff_eq] at concluding
    obtain ⟨⟨⟨⟨_, acknowledged⟩, from_⟩, next⟩, latest⟩ := concluding
    cases orig with
    | false => exact absurd (from_.symm.trans source) distinct
    | true =>
      simp only [Bool.and_eq_true, beq_iff_eq]
      exact ⟨⟨⟨⟨acknowledged, asking⟩, answered⟩, latest⟩, next⟩

theorem handshake (tracks : session.view.Tracks packets)
    (distinct : session.row.originator ≠ session.row.responder)
    (source : input.source = if orig then session.row.originator else session.row.responder)
    (fits : isSyn input.packet = true → packets = [] ∧ orig = true
      ∨ session.syn.get orig = true ∧ session.sequence.get orig = input.packet.tcpSeq
      ∨ session.syn.get orig = false ∧ session.syn.get (!orig) = true)
    (single : (session.handshake input.packet orig).row.simultaneousOpen = false)
    : (session.handshake input.packet orig).view.Tracks (packets ++ [input]) := by
  cases isSyn : isSyn input.packet with
  | true => exact tracks.syn isSyn source (fits isSyn) single
  | false =>
    cases both : isSynAck input.packet with
    | true => exact tracks.synAck both distinct source
    | false => exact tracks.ack isSyn both distinct source

end HandshakeView.Tracks

theorem Session.simultaneousOpen_handshake {packet : DecodedPacket}
    (single : (session.handshake packet orig).row.simultaneousOpen = false)
    : session.row.simultaneousOpen = false := by
  simp only [handshake] at single
  split at single
  · exact (Bool.or_eq_false_iff.mp single).1
  · split at single
    · split at single <;> exact single
    · split at single <;> exact single

theorem Session.fits_of_not_reused {packet : DecodedPacket} {fromLow : Bool}
    (fits : session.reused packet fromLow = false)
    : session.syn.get (fromLow == session.row.origIsLow) = true
        ∧ session.sequence.get (fromLow == session.row.origIsLow) = packet.tcpSeq
      ∨ session.syn.get (fromLow == session.row.origIsLow) = false
        ∧ session.syn.get (!(fromLow == session.row.origIsLow)) = true := by
  simp only [reused, Bool.and_eq_false_iff, Bool.not_eq_false', Bool.and_eq_true, beq_iff_eq,
    Bool.not_eq_true'] at fits
  rcases fits with ⟨⟨_, asking⟩, same⟩ | ⟨⟨⟨_, fresh⟩, opposite⟩, _⟩
  · exact .inl ⟨asking, same⟩
  · exact .inr ⟨fresh, opposite⟩

theorem tcp_of_protocol {input : FlowInput} (protocol : (makeKey input).1.protocol = 6)
    : input.packet.tcp = true := by
  simp only [makeKey] at protocol
  by_contra other
  rw [if_neg other] at protocol
  cases protocol

theorem originator_ne_responder {row : FlowSummary} (distinct : row.key.low ≠ row.key.high)
    : row.originator ≠ row.responder := by
  rw [FlowSummary.originator, FlowSummary.responder]
  cases row.origIsLow with
  | true => exact distinct
  | false => exact distinct.symm

/-- Accounting for a packet keeps a session where its packets have brought it. -/
theorem HandshakeView.Tracks.account {next : Session} {packets : List FlowInput} {input : FlowInput}
    {late : Bool} (tracks : session.view.Tracks packets) (tcp : input.packet.tcp = true)
    (key : (makeKey input).1 = session.row.key)
    (distinct : session.row.key.low ≠ session.row.key.high)
    (fits : isSyn input.packet = true →
      packets = [] ∧ ((makeKey input).2 == session.row.origIsLow) = true
      ∨ session.reused input.packet (makeKey input).2 = false)
    (accounted : session.account input (makeKey input).2 late = .ok next)
    (single : next.row.simultaneousOpen = false)
    : next.view.Tracks (packets ++ [input]) := by
  obtain ⟨counted, view, rfl⟩ := Session.account_view tcp accounted
  have originator : counted.row.originator = session.row.originator :=
    congrArg HandshakeView.originator view
  have responder : counted.row.responder = session.row.responder :=
    congrArg HandshakeView.responder view
  have syn : counted.syn = session.syn := congrArg HandshakeView.syn view
  have sequence : counted.sequence = session.sequence := congrArg HandshakeView.sequence view
  rw [← view] at tracks
  refine tracks.handshake ?_ ?_ (fun isSyn => ?_) single
  · rw [originator, responder]
    exact originator_ne_responder distinct
  · rw [originator, responder]
    exact source_eq key
  · rw [syn, sequence]
    exact (fits isSyn).imp_right Session.fits_of_not_reused

theorem Session.single_of_account {next : Session} {input : FlowInput} {fromLow late : Bool}
    (tcp : input.packet.tcp = true) (accounted : session.account input fromLow late = .ok next)
    (single : next.row.simultaneousOpen = false)
    : session.row.simultaneousOpen = false := by
  obtain ⟨counted, view, rfl⟩ := account_view tcp accounted
  exact (congrArg HandshakeView.simultaneousOpen view).symm.trans
    (simultaneousOpen_handshake single)

/-- The handshake of a session is where its packets have brought it. -/
theorem Session.Follows.tracks {packets : List FlowInput} (follows : Follows packets session)
    (protocol : session.row.key.protocol = 6)
    (distinct : session.row.key.low ≠ session.row.key.high)
    (single : session.row.simultaneousOpen = false)
    : session.view.Tracks packets := by
  induction follows with
  | @opened input late session accounted =>
    rw [(account_counted accounted).key] at protocol distinct
    have fresh : (Session.open (makeKey input).1 (makeKey input).2 input.sectionNumber
        input).view.Tracks [] :=
      .unasked rfl rfl rfl fun input member => by cases member
    refine fresh.account (tcp_of_protocol protocol) rfl distinct (fun isSyn => .inl ⟨rfl, ?_⟩)
      accounted single
    rw [isSyn_eq, Bool.and_eq_true, Bool.not_eq_true'] at isSyn
    simp [Session.open, isSyn.2]
  | @continued packets session next input late before key _ fits accounted ih =>
    rw [(account_counted accounted).key] at protocol distinct
    have tcp := tcp_of_protocol (key ▸ protocol)
    refine (ih protocol distinct (single_of_account tcp accounted single)).account tcp key
      distinct (fun isSyn => .inr ?_) accounted single
    simpa [tcp, isSyn] using fits

/-- Where the packets have brought the handshake is what the row says of it. -/
theorem HandshakeView.Tracks.verdict {packets : List FlowInput}
    (tracks : session.view.Tracks packets) (reason : FinalizedBy)
    : HandshakeVerdict { session.row with finalizedBy := reason } packets := by
  cases tracks with
  | unasked silent unanswered incomplete none =>
    have absent : ∀ input ∈ packets, isSyn input.packet ≠ true := by
      intro input member
      rw [none input member]
      exact Bool.false_ne_true
    refine ⟨fun input member isSyn => absurd isSyn (absent input member),
      fun input member isSyn => absurd isSyn (absent input member), ?_⟩
    refine iff_of_false (fun complete => ?_) fun completes => ?_
    · exact Bool.false_ne_true (incomplete.symm.trans complete)
    · obtain ⟨before, synAck, between, ack, after, syn, rfl, member, isSyn, _⟩ := completes
      exact absent syn (List.mem_append_left _ member) isSyn
  | @asked first rest silent starts syn held syns answer complete =>
    refine ⟨fun _ _ _ => ⟨first, rest, starts, syn⟩, fun input member isSyn => ?_, ?_⟩
    · obtain ⟨source, number⟩ := syns input member isSyn
      exact ⟨source, fun other inside also => (syns other inside also).2.trans number.symm⟩
    · refine complete.trans ?_
      rw [← held, starts]
      refine (completes_iff_concluded syn fun input member isSyn => ?_).symm
      rw [← starts] at member
      exact (syns input member isSyn).2.trans held.symm

/-- The handshake verdict of a TCP row is exact. Each row of a scan, between two endpoints that
did not open simultaneously, stands for packets that hold a SYN only if they start with one, and
no SYN but the originator's of that sequence; it says that the handshake completed exactly when
they hold the SYN, an answer to it and an ACK of the latest answer, in this order.
-/
theorem FlowAggregator.scan_handshakes (limits : AcceptedLimits) (inputs : List FlowInput)
    (finalSection : UInt32)
    : ∃ groups,
        SessionPackets inputs (({ limits } : FlowAggregator).scan inputs finalSection).1 groups
        ∧ List.Forall₂ (fun row packets => row.key.protocol = 6 → row.key.low ≠ row.key.high →
              row.simultaneousOpen = false → HandshakeVerdict row packets)
            (({ limits } : FlowAggregator).scan inputs finalSection).1 groups := by
  obtain ⟨groups, sessions, ends⟩ := scan_histories limits inputs finalSection
  refine ⟨groups, sessions, ends.imp fun row packets ended protocol distinct single => ?_⟩
  obtain ⟨session, reason, follows, rfl⟩ := ended
  exact (follows.tracks protocol distinct single).verdict reason

/-- A three-way handshake whose SYN-ACK is sent twice, with another sequence the second time. -/
def answeredTwice : List FlowInput :=
  [{ stamp := { number := 1 }
     packet := { transport := true, tcp := true, dstPort := 80, tcpFlags := tcpSyn, tcpSeq := 5 } },
    { stamp := { number := 2 }
      packet := { transport := true, tcp := true, srcPort := 80, tcpFlags := tcpSyn ||| tcpAckFlag
                  tcpSeq := 8, tcpAck := 6 } },
    { stamp := { number := 3 }
      packet := { transport := true, tcp := true, srcPort := 80, tcpFlags := tcpSyn ||| tcpAckFlag
                  tcpSeq := 9, tcpAck := 6 } },
    { stamp := { number := 4 }
      packet := { transport := true, tcp := true, dstPort := 80, tcpFlags := tcpAckFlag
                  tcpSeq := 6, tcpAck := 10 } }]

/-- Its row says that the handshake completed, and its packets say so too. -/
theorem FlowAggregator.scan_handshakes_answeredTwice
    : ∃ row packets,
        (({ limits := AcceptedLimits.default } : FlowAggregator).scan answeredTwice 0).1 = [row]
        ∧ row.handshakeComplete = true
        ∧ Completes row.originator row.responder packets := by
  obtain ⟨groups, _, verdicts⟩ := scan_handshakes AcceptedLimits.default answeredTwice 0
  have shown : (({ limits := AcceptedLimits.default } : FlowAggregator).scan answeredTwice 0).1.map
      (fun row => (row.key.protocol, decide (row.key.low = row.key.high), row.simultaneousOpen,
        row.handshakeComplete)) = [(6, false, false, true)] := by
    decide +kernel
  obtain ⟨row, rest, rows, fields, none⟩ := List.map_eq_cons_iff.mp shown
  simp only [Prod.mk.injEq, decide_eq_false_iff_not] at fields
  rw [List.map_eq_nil_iff.mp none] at rows
  rw [rows] at verdicts
  obtain ⟨packets, _, verdict, _, _⟩ := List.forall₂_cons_left_iff.mp verdicts
  refine ⟨row, packets, rows, fields.2.2.2, ?_⟩
  exact (verdict fields.1 fields.2.1 fields.2.2.1).complete.mp fields.2.2.2

end PacketQuapture.Flow
