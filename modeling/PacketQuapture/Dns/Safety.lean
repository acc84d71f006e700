import PacketQuapture.Dns.NameSteps

/-! Whatever the bytes, decoding a DNS message reads none outside the message, fails no assertion
and takes no more steps along names than its cap allows.
-/

namespace PacketQuapture.Dns

open Library

namespace Parser

/-- The parser returns, or returns false. Either way it keeps its message, and when it had steps
left it has some still, or stopped at the first one over the cap.
-/
def Careful {α : Type} (self : Parser) (outcome : Except Stop (Parser × α)) : Prop :=
  Ensures outcome
    (fun result => result.1.data = self.data ∧ (self.work ≤ workMax → result.1.work ≤ workMax))
    fun stop => stop.reason = .rejected ∧ (self.work ≤ workMax → stop.work ≤ workMax + 1)

variable {self : Parser} {offset length : Nat} {α β : Type}

namespace Careful

theorem stop : Careful self (self.stop .rejected : Except Stop (Parser × α)) :=
  Ensures.error ⟨rfl, Nat.le_succ_of_le⟩

theorem ok (value : α) : Careful self (.ok (self, value)) :=
  Ensures.ok ⟨rfl, id⟩

/-- One careful reading after the other is careful. -/
theorem bind {first : Except Stop (Parser × α)} {next : Parser × α → Except Stop (Parser × β)}
    (careful : Careful self first)
    (rest : ∀ after value, after.data = self.data → Careful after (next (after, value)))
    : Careful self (first >>= next) := by
  refine Ensures.bind careful fun result kept => ?_
  refine (rest result.1 result.2 kept.1).mono (fun final done => ?_) fun stop stopped => ?_
  · exact ⟨done.1.trans kept.1, fun left => done.2 (kept.2 left)⟩
  · exact ⟨stopped.1, fun left => stopped.2 (kept.2 left)⟩

end Careful

theorem name_careful : Careful self (self.name offset) :=
  name_steps.mono (fun _ done => ⟨done.1, fun _ => done.2.2⟩)
    fun _ stopped => ⟨stopped.1, stopped.2.2⟩

theorem question_careful : Careful self (self.question offset) := by
  refine name_careful.bind fun after result _ => ?_
  obtain ⟨past, name⟩ := result
  refine .ite (fun _ => Careful.stop) fun inside => ?_
  simp only [Bool.not_eq_true', Bool.not_eq_false, has_iff] at inside
  refine (readBigEndian16_safe (by omega)).bind fun type _ => ?_
  exact (readBigEndian16_safe (by omega)).bind fun klass _ => Careful.ok _

theorem recordText_careful {type klass : UInt16} (inside : offset + length ≤ self.size)
    : Careful self (self.recordText type klass offset length) := by
  unfold recordText
  split
  · exact .ite (fun _ => Careful.stop)
      fun _ => (bytes_safe (by omega)).bind fun address _ => Careful.ok _
  · split
    · exact .ite (fun _ => Careful.stop)
        fun _ => (groups_safe (by omega)).bind fun groups _ => Careful.ok _
    · refine .ite (fun _ => ?_) fun _ => Careful.ok _
      refine name_careful.bind fun after result _ => ?_
      obtain ⟨cursor, text⟩ := result
      exact .ite (fun _ => Careful.stop) fun _ => Careful.ok _

theorem record_careful : Careful self (self.record offset) := by
  refine name_careful.bind fun after result _ => ?_
  obtain ⟨past, name⟩ := result
  refine .ite (fun _ => Careful.stop) fun inside => ?_
  simp only [Bool.not_eq_true', Bool.not_eq_false, has_iff] at inside
  refine (readBigEndian16_safe (by omega)).bind fun type _ => ?_
  refine (readBigEndian16_safe (by omega)).bind fun klass _ => ?_
  refine (readBigEndian32_safe (by omega)).bind fun ttl _ => ?_
  refine (readBigEndian16_safe (by omega)).bind fun length _ => ?_
  refine .ite (fun _ => Careful.stop) fun whole => ?_
  simp only [Bool.not_eq_true', Bool.not_eq_false, has_iff] at whole
  refine (bytes_safe whole).bind fun data _ => ?_
  exact (recordText_careful whole).bind fun after text _ => Careful.ok _

theorem several_careful {Item : Type} {item : Parser → Nat → Except Stop (Parser × Nat × Item)}
    (careful : ∀ self offset, Careful self (item self offset))
    (count : Nat) (self : Parser) (offset : Nat)
    : Careful self (several item count self offset) := by
  induction count generalizing self offset with
  | zero => exact .ok _
  | succ count ih =>
    refine (careful self offset).bind fun after first _ => ?_
    exact (ih after first.1).bind fun final rest _ => Careful.ok _

theorem body_careful {counts : Counts} {header : DnsMessage}
    : Careful self (self.body counts header) := by
  have records := several_careful fun self offset => @record_careful self offset
  refine (several_careful (fun self offset => @question_careful self offset) ..).bind
    fun after first _ => ?_
  refine (records ..).bind fun after second _ => ?_
  refine (records ..).bind fun after third _ => ?_
  exact (records ..).bind fun after fourth _ => Careful.ok _

theorem sections_rejects {counts : Counts} {header : DnsMessage}
    : Ensures (self.sections counts header) (fun _ => True) fun stop => stop.reason = .rejected := by
  refine (body_careful.mono (fun _ _ => trivial) fun _ stopped => stopped.1).bind
    fun result _ => ?_
  obtain ⟨after, past, message⟩ := result
  exact .ite (fun _ => .error rfl) fun _ => .ok trivial

end Parser

theorem rejectedAs_returns {invalid : DnsMessage} {outcome : Except Stop DnsMessage}
    (safe : Ensures outcome (fun _ => True) fun stop => stop.reason = .rejected)
    : Ensures (rejectedAs invalid outcome) (fun _ => True) fun _ => False := by
  cases outcome with
  | ok message => exact .ok trivial
  | error stop =>
    obtain ⟨reason, work⟩ := stop
    obtain rfl : reason = .rejected := safe
    exact .ok trivial

/-- Decoding any bytes returns a message. -/
theorem decodeDns_returns (data : List UInt8) : ∃ message, decodeDns data = .ok message := by
  have safe : Ensures (decodeDns data) (fun _ => True) fun _ => False := by
    unfold decodeDns
    dsimp only
    refine .ite (fun _ => .ok trivial) fun sized => ?_
    have header : 12 ≤ ({ data } : Parser).size := by
      rw [not_or, not_lt] at sized
      exact sized.1
    refine (Parser.readBigEndian16_safe (by omega)).bind fun id _ => ?_
    refine (Parser.readBigEndian16_safe (by omega)).bind fun flags _ => ?_
    refine (Parser.readBigEndian16_safe (by omega)).bind fun questions _ => ?_
    refine (Parser.readBigEndian16_safe (by omega)).bind fun answers _ => ?_
    refine (Parser.readBigEndian16_safe (by omega)).bind fun authorities _ => ?_
    refine (Parser.readBigEndian16_safe (by omega)).bind fun additionals _ => ?_
    exact .ite (fun _ => .ok trivial) fun _ => rejectedAs_returns Parser.sections_rejects
  obtain ⟨message, returned, _⟩ := safe.returns
  exact ⟨message, returned⟩

/-- Decoding any bytes looks at none outside them and fails no assertion. A name takes at most
255 steps, the names of the message at most 262145, and the pointers of a name lead ever further
back.
-/
theorem decodeDns_safe (data : List UInt8)
    : (∃ message, decodeDns data = .ok message)
      ∧ (∀ (counts : Parser.Counts) (header : DnsMessage),
          Ensures (({ data } : Parser).body counts header) (fun result => result.1.work ≤ 262145)
            fun stop => stop.reason = .rejected ∧ stop.work ≤ 262145)
      ∧ ∀ work offset : Nat,
          Ensures (({ data, work } : Parser).name offset)
            (fun result => result.1.work ≤ work + 255)
            (fun stop => stop.reason = .rejected ∧ stop.work ≤ work + 255)
          ∧ (({ data, work } : Parser).pointersFollowed offset).Pairwise (· > ·) := by
  refine ⟨decodeDns_returns data, fun counts header => ?_, fun work offset => ⟨?_, ?_⟩⟩
  · refine (@Parser.body_careful { data } counts header).mono ?_ ?_
    · intro result kept
      exact Nat.le_succ_of_le (kept.2 (Nat.zero_le _))
    · intro stop stopped
      exact ⟨stopped.1, stopped.2 (Nat.zero_le _)⟩
  · refine (@Parser.name_steps { data, work } offset).mono ?_ ?_
    · exact fun result counted => counted.2.1
    · exact fun stop counted => ⟨counted.1, counted.2.1⟩
  · exact (Parser.followed_decreasing ..).1

end PacketQuapture.Dns
