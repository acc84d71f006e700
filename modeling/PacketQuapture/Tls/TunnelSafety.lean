import PacketQuapture.Tls.Tunnel

/-! Classifying the bytes before the first record raises nothing.
Every position the parsers use lies in their text, every number they convert is one the library
takes, and every loop moves on.
-/

namespace PacketQuapture.Tls

open Library Text

/-! ### Strings -/

variable {text needle : List UInt8} {pos index : Nat} {test : UInt8 → Bool}
variable {fuel : Nat}

theorem findText_bounds (found : findText text needle pos = some index)
    : pos ≤ index ∧ index + needle.length ≤ text.length := by
  obtain ⟨occurs, member, _⟩ := List.find?_range'_eq_some.mp found
  have within := List.mem_range'_1.mp member
  have short := (List.isPrefixOf_iff_prefix.mp occurs).length_le
  rw [List.length_drop] at short
  omega

theorem findText_of_occurs (after : pos ≤ index)
    (occurs : needle <+: text.drop index) (inside : index ≤ text.length)
    : ∃ found, findText text needle pos = some found ∧ pos ≤ found ∧ found ≤ index := by
  cases found : findText text needle pos with
  | none =>
    have absent := List.find?_eq_none.mp found index
      (List.mem_range'_1.mpr ⟨after, by omega⟩)
    exact absurd (List.isPrefixOf_iff_prefix.mpr occurs) absent
  | some first =>
    refine ⟨first, rfl, (findText_bounds found).1, ?_⟩
    by_contra later
    have skipped := (List.find?_range'_eq_some.mp found).2.2 index after (by omega)
    rw [List.isPrefixOf_iff_prefix.mpr occurs] at skipped
    cases skipped

theorem findByte_bounds (found : findByte test text pos = some index)
    : pos ≤ index ∧ index < text.length := by
  obtain ⟨passes, member, _⟩ := List.find?_range'_eq_some.mp found
  have within := List.mem_range'_1.mp member
  omega

theorem findByte_before {byte : UInt8} (after : pos ≤ index)
    (before : ∀ found, findByte test text pos = some found → index < found)
    (here : text[index]? = some byte)
    : test byte = false := by
  have inside : index < text.length := (List.getElem?_eq_some_iff.mp here).1
  have fails : ((text[index]?.map test).getD false) = false := by
    cases found : findByte test text pos with
    | none =>
      have absent := List.find?_eq_none.mp found index
        (List.mem_range'_1.mpr ⟨after, by omega⟩)
      exact Bool.eq_false_iff.mpr absent
    | some first =>
      have skipped := (List.find?_range'_eq_some.mp found).2.2 index after (before first found)
      simpa using skipped
  rw [here] at fails
  exact fails

theorem findLastByte_lt (found : findLastByte test text = some index) : index < text.length := by
  have member := List.mem_of_find?_eq_some found
  rw [List.mem_reverse, List.mem_range] at member
  exact member

theorem findByte_passes (found : findByte test text pos = some index)
    : (text[index]?.map test).getD false = true :=
  (List.find?_range'_eq_some.mp found).1

/-- No byte after the last one passes the test. -/
theorem findLastByte_ge {last : Nat} (found : findLastByte test text = some last)
    (passes : (text[index]?.map test).getD false = true)
    : index ≤ last := by
  have inside : index < text.length := by
    by_contra outside
    rw [List.getElem?_eq_none (Nat.le_of_not_lt outside)] at passes
    cases passes
  obtain ⟨_, later, earlier, split, fails⟩ := List.find?_eq_some_iff_append.mp found
  have descending : (List.range text.length).reverse.Pairwise fun left right => right < left := by
    rw [List.pairwise_reverse]
    exact List.pairwise_lt_range
  have member : index ∈ (List.range text.length).reverse := by
    rw [List.mem_reverse, List.mem_range]
    exact inside
  rw [split] at descending member
  rcases List.mem_append.mp member with before | after
  · have failed := fails index before
    rw [passes] at failed
    cases failed
  · rcases List.mem_cons.mp after with rfl | below
    · exact Nat.le_refl _
    · exact Nat.le_of_lt
        ((List.pairwise_cons.mp (List.pairwise_append.mp descending).2.1).1 index below)

theorem substr_ensures (inside : pos ≤ text.length) (count : Nat)
    : Ensures (substr text pos count) (fun result => result = (text.drop pos).take count)
        fun _ => False := by
  rw [substr, if_pos inside]
  exact .ok rfl

theorem parseNumber_ensures (occupied : text ≠ []) (digits : ∀ byte ∈ text, isDigit byte = true)
    (short : text.length ≤ 9)
    : Ensures (parseNumber text) (fun _ => True) fun _ => False := by
  rw [parseNumber, if_pos ⟨occupied, List.all_eq_true.mpr digits, short⟩]
  exact .ok trivial

/-! ### HTTP CONNECT -/

/-- A length is converted only when it is up to nine digits.
Witness: between the first and the last byte that is no blank there is nothing but digits.
-/
theorem contentLength_ensures (value : List UInt8)
    : Ensures (contentLength value) (fun _ => True) fun _ => False := by
  unfold contentLength
  dsimp only
  split
  case h_2 => exact .ok trivial
  case h_1 first last opens closes =>
    refine .ite (fun _ => .ok trivial) fun plain => ?_
    obtain ⟨digits, short⟩ := not_or.mp plain
    have starts := findByte_bounds opens
    have ends := findLastByte_lt closes
    have ordered := findLastByte_ge closes (findByte_passes opens)
    refine Ensures.bind (substr_ensures starts.2.le _) fun run same => ?_
    refine Ensures.bind (parseNumber_ensures ?_ ?_ ?_) fun _ _ => .pure trivial
    · rw [same]
      refine List.ne_nil_of_length_pos ?_
      rw [List.length_take, List.length_drop]
      omega
    · intro byte member
      rw [same] at member
      obtain ⟨place, inside, here⟩ := List.mem_iff_getElem.mp member
      rw [List.length_take, List.length_drop] at inside
      have digit := @findByte_before value first (first + place) (fun byte => !isDigit byte) byte
        (Nat.le_add_right _ _) (fun found other => ?_) ?_
      · simpa using digit
      · by_contra late
        refine digits ?_
        rw [other]
        simp only [Option.map_some, Option.getD_some, decide_eq_true_eq]
        omega
      · rw [← here, List.getElem_take, List.getElem_drop]
        exact List.getElem?_eq_getElem _
    · rw [same, List.length_take]
      omega

/-- The header lines up to the blank one are read.
Witness: induction on the fuel; from a line before the blank one the next line end is found at the
blank line's own at the latest.
-/
theorem httpHeaders_ensures {stop line : Nat} {head : HttpHead}
    (blank : crlf ++ crlf <+: text.drop stop) (enough : stop + 2 - line < fuel)
    : Ensures (httpHeaders text stop fuel line head)
        (fun read => ∀ after, read = some after → after.next = head.next) fun _ => False := by
  have ends : stop + 4 ≤ text.length := by
    have short := blank.length_le
    rw [List.length_drop] at short
    simp only [crlf, List.length_append, List.length_cons, List.length_nil] at short
    omega
  have last : crlf <+: text.drop (stop + 2) := by
    obtain ⟨rest, same⟩ := blank
    refine ⟨rest, ?_⟩
    rw [← List.drop_drop, ← same, List.append_assoc]
    rfl
  induction fuel generalizing line head with
  | zero => exact absurd enough (Nat.not_lt_zero _)
  | succ fuel ih =>
    unfold httpHeaders
    split
    case isFalse => exact .ok fun _ same => (Option.some.inj same) ▸ rfl
    case isTrue before =>
      obtain ⟨next, found, after, within⟩ :=
        @findText_of_occurs text crlf line (stop + 2) (by omega) last (by omega)
      rw [found]
      dsimp only
      refine Ensures.bind (substr_ensures (by omega) _) fun raw _ => ?_
      split
      case isTrue named =>
        have long := (List.isPrefixOf_iff_prefix.mp named).length_le
        refine Ensures.bind (substr_ensures long _) fun value _ => ?_
        refine Ensures.bind (contentLength_ensures value) fun length _ => ?_
        cases length with
        | none => exact .pure nofun
        | some length => exact @ih (next + 2) _ (by omega)
      case isFalse =>
        exact .ite (fun _ => @ih (next + 2) _ (by omega)) fun _ => @ih (next + 2) _ (by omega)

/-- A head ends inside the text, past at least its blank line. -/
theorem nextHttpHead_ensures (text : List UInt8) (pos : Nat)
    : Ensures (nextHttpHead text pos)
        (fun read => ∀ head, read = some head → pos + 4 ≤ head.next ∧ head.next ≤ text.length)
        fun _ => False := by
  unfold nextHttpHead
  cases stops : findText text (crlf ++ crlf) pos with
  | none => exact .ok nofun
  | some stop =>
    obtain ⟨after, inside⟩ := findText_bounds stops
    have blank := List.isPrefixOf_iff_prefix.mp (List.find?_range'_eq_some.mp stops).1
    have first : crlf <+: text.drop stop := (List.prefix_append crlf crlf).trans blank
    simp only [crlf, List.length_append, List.length_cons, List.length_nil] at inside
    obtain ⟨lineEnd, found, starts, within⟩ := findText_of_occurs after first (by omega)
    dsimp only
    rw [found]
    dsimp only
    refine Ensures.bind (substr_ensures (by omega) _) fun firstLine _ => ?_
    refine Ensures.mono (httpHeaders_ensures blank (by omega)) (fun read same head returned => ?_)
      fun _ => id
    rw [same head returned]
    exact ⟨Nat.add_le_add_right after 4, inside⟩

theorem connectTarget_ensures (line : List UInt8)
    : Ensures (connectTarget line) (fun _ => True) fun _ => False := by
  unfold connectTarget
  refine .ite (fun _ => ?_) fun _ => .ok trivial
  cases found : findText line (ascii " ") 8 with
  | none => exact .ok trivial
  | some space =>
    obtain ⟨after, inside⟩ := findText_bounds found
    dsimp only
    refine .ite (fun _ => .ok trivial) fun _ => ?_
    refine Ensures.bind (substr_ensures (by omega) _) fun rest _ => ?_
    split
    case isTrue =>
      exact Ensures.mono (substr_ensures (by omega) _) (fun _ _ => trivial) fun _ => id
    case isFalse => exact .pure trivial

theorem statusCode_ensures (line : List UInt8)
    : Ensures (statusCode line) (fun _ => True) fun _ => False := by
  unfold statusCode
  refine .ite (fun _ => .ok trivial) fun long => ?_
  have size := Nat.le_of_not_lt fun short => long (.inl short)
  refine Ensures.bind (substr_ensures (by omega) _) fun code same => ?_
  have length : code.length = 3 := by
    rw [same, List.length_take, List.length_drop]
    omega
  refine .ite (fun digits => ?_) fun _ => .pure trivial
  exact parseNumber_ensures (List.ne_nil_of_length_pos (by omega))
    (List.all_eq_true.mp digits.1) (by omega)

theorem httpClientPrefix_ensures (target : List UInt8) (enough : text.length - pos < fuel)
    : Ensures (httpClientPrefix text fuel pos target) (fun _ => True) fun _ => False := by
  induction fuel generalizing pos target with
  | zero => exact absurd enough (Nat.not_lt_zero _)
  | succ fuel ih =>
    unfold httpClientPrefix
    split
    case isFalse =>
      split <;> exact .ok trivial
    case isTrue =>
      refine Ensures.bind (nextHttpHead_ensures text pos) fun read moved => ?_
      cases read with
      | none => exact .pure trivial
      | some head =>
        obtain ⟨forward, _⟩ := moved head rfl
        dsimp only
        refine .ite (fun _ => .pure trivial) fun _ => ?_
        refine Ensures.bind (connectTarget_ensures _) fun request _ => ?_
        exact .ite (fun _ => .pure trivial) fun _ => ih request (by omega)

theorem httpServerPrefix_ensures (enough : text.length - pos < fuel)
    : Ensures (httpServerPrefix text fuel pos) (fun _ => True) fun _ => False := by
  induction fuel generalizing pos with
  | zero => exact absurd enough (Nat.not_lt_zero _)
  | succ fuel ih =>
    unfold httpServerPrefix
    refine .ite (fun _ => ?_) fun _ => .ok trivial
    refine Ensures.bind (nextHttpHead_ensures text pos) fun read moved => ?_
    cases read with
    | none => exact .pure trivial
    | some head =>
      obtain ⟨forward, _⟩ := moved head rfl
      refine Ensures.bind (statusCode_ensures _) fun status _ => ?_
      refine .ite (fun _ => .pure trivial) fun _ => ?_
      refine .ite (fun _ => .pure trivial) fun _ => ?_
      exact .ite (fun _ => .pure trivial) fun _ => ih (by omega)

/-! ### STARTTLS -/

/-- The lines of a text are read, and there is at least one. -/
theorem linesFrom_ensures (lines : List (List UInt8)) (enough : text.length - pos < fuel)
    : Ensures (linesFrom text fuel pos lines) (fun read => ∀ all, read = some all → all ≠ [])
        fun _ => False := by
  induction fuel generalizing pos lines with
  | zero => exact absurd enough (Nat.not_lt_zero _)
  | succ fuel ih =>
    unfold linesFrom
    split
    case isFalse =>
      split
      case isTrue => exact .ok nofun
      case isFalse some_line => exact .ok fun all same => (Option.some.inj same) ▸ some_line
    case isTrue =>
      cases found : findText text crlf pos with
      | none => exact .ok nofun
      | some stop =>
        obtain ⟨after, inside⟩ := findText_bounds found
        dsimp only
        refine Ensures.bind (substr_ensures (by omega) _) fun line _ => ?_
        split
        case isTrue => exact .pure nofun
        case isFalse => exact ih _ (by omega)

theorem crlfLines_ensures (text : List UInt8)
    : Ensures (crlfLines text) (fun read => ∀ lines, read = some lines → lines ≠ [])
        fun _ => False :=
  linesFrom_ensures [] (by omega)

theorem closeReply_length {smtp : Bool} {code : List UInt8} {lines rest : List (List UInt8)}
    (closed : closeReply smtp code lines = some rest)
    : rest.length < lines.length := by
  induction lines with
  | nil => cases closed
  | cons line lines ih =>
    unfold closeReply at closed
    dsimp only at closed
    split at closed
    case isTrue =>
      obtain rfl := Option.some.inj closed
      exact Nat.lt_succ_self _
    case isFalse =>
      split at closed
      case isTrue => cases closed
      case isFalse => exact (ih closed).trans (Nat.lt_succ_self _)

theorem replyCodes_ensures (smtp : Bool) {lines : List (List UInt8)} (codes : List Nat)
    (enough : lines.length ≤ fuel)
    : Ensures (replyCodes smtp fuel lines codes) (fun _ => True) fun _ => False := by
  induction fuel generalizing lines codes with
  | zero =>
    obtain rfl := List.eq_nil_of_length_eq_zero (Nat.le_zero.mp enough)
    exact .ok trivial
  | succ fuel ih =>
    cases lines with
    | nil => exact .ok trivial
    | cons line rest =>
      have fewer : rest.length ≤ fuel := Nat.le_of_succ_le_succ enough
      unfold replyCodes
      refine .ite (fun _ => .ok trivial) fun coded => ?_
      simp only [replyCode, Bool.and_eq_true, decide_eq_true_eq, not_not] at coded
      refine Ensures.bind (substr_ensures (Nat.zero_le _) _) fun digits same => ?_
      rw [List.drop_zero] at same
      have length : digits.length = 3 := by
        rw [same, List.length_take]
        omega
      refine Ensures.bind (parseNumber_ensures (List.ne_nil_of_length_pos (by omega))
        (same ▸ List.all_eq_true.mp coded.1.2) (by omega)) fun code _ => ?_
      refine .ite (fun _ => ?_) fun _ => ih _ fewer
      cases closed : closeReply smtp digits rest with
      | none => exact .pure trivial
      | some after => exact ih _ ((closeReply_length closed).le.trans fewer)

theorem imapLine_ensures (line : List UInt8)
    : Ensures (imapLine line) (fun _ => True) fun _ => False := by
  unfold imapLine
  cases found : findText line (ascii " ") 0 with
  | none => exact .ok trivial
  | some space =>
    obtain ⟨_, inside⟩ := findText_bounds found
    have one : (ascii " ").length = 1 := by decide
    dsimp only
    refine .ite (fun _ => .ok trivial) fun _ => ?_
    refine Ensures.bind (substr_ensures (Nat.zero_le _) _) fun tag _ => ?_
    exact Ensures.bind (substr_ensures (by omega) _) fun rest _ => .pure trivial

theorem imapClient_ensures (lines : List (List UInt8))
    : Ensures (imapClient lines) (fun _ => True) fun _ => False := by
  induction lines with
  | nil => exact .ok trivial
  | cons line rest ih =>
    unfold imapClient
    refine Ensures.bind (imapLine_ensures line) fun read _ => ?_
    split
    case h_1 => exact .pure trivial
    case h_2 =>
      refine .ite (fun _ => .pure trivial) fun _ => ?_
      refine .ite (fun _ => .pure trivial) fun _ => ?_
      exact .ite (fun _ => ih) fun _ => .pure trivial

theorem imapServer_ensures (lines : List (List UInt8))
    : Ensures (imapServer lines) (fun _ => True) fun _ => False := by
  induction lines with
  | nil => exact .ok trivial
  | cons line rest ih =>
    unfold imapServer
    refine Ensures.bind (imapLine_ensures line) fun read _ => ?_
    split
    case h_1 => exact .pure trivial
    case h_2 =>
      refine .ite (fun _ => .pure trivial) fun _ => ?_
      split
      case isTrue =>
        exact .ite (fun _ => ih) fun _ => .pure trivial
      case isFalse =>
        exact .ite (fun _ => ih) fun _ => .pure trivial

theorem popReplies_ensures {lines : List (List UInt8)} {place : Nat}
    (enough : lines.length - place < fuel)
    : Ensures (popReplies lines fuel place) (fun _ => True) fun _ => False := by
  induction fuel generalizing place with
  | zero => exact absurd enough (Nat.not_lt_zero _)
  | succ fuel ih =>
    unfold popReplies
    refine .ite (fun inside => ?_) fun _ => .ok trivial
    rw [List.getElem?_eq_getElem (show place < lines.length by omega),
      List.getElem?_eq_getElem inside]
    dsimp only
    refine .ite (fun _ => .ok trivial) fun _ => ?_
    refine .ite (fun _ => ?_) fun _ => ih (by omega)
    exact .ite (fun _ => ih (by omega)) fun _ => .ok trivial

theorem startTlsClient_ensures (text : List UInt8)
    : Ensures (startTlsClient text) (fun _ => True) fun _ => False := by
  unfold startTlsClient
  refine Ensures.bind (crlfLines_ensures text) fun read occupied => ?_
  cases read with
  | none => exact .pure trivial
  | some lines =>
    dsimp only
    split
    case h_2 unmatched =>
      have some_line : lines.map upper ≠ [] := by
        rw [Ne, List.map_eq_nil_iff]
        exact occupied lines rfl
      exact absurd (List.head?_eq_some_head some_line)
        (unmatched _ _ (List.getLast?_eq_some_getLast some_line))
    case h_1 =>
      refine .ite (fun _ => .pure trivial) fun _ => ?_
      refine .ite (fun _ => .pure trivial) fun _ => ?_
      exact .ite (fun _ => .pure trivial)
        fun _ => Ensures.bind (imapClient_ensures lines) fun imap _ => .pure trivial

theorem startTlsServer_ensures (text : List UInt8)
    : Ensures (startTlsServer text) (fun _ => True) fun _ => False := by
  unfold startTlsServer
  refine Ensures.bind (crlfLines_ensures text) fun read occupied => ?_
  cases read with
  | none => exact .pure trivial
  | some lines =>
    refine Ensures.bind (replyCodes_ensures true [] (Nat.le_refl _)) fun smtp _ => ?_
    refine .ite (fun _ => .pure trivial) fun _ => ?_
    refine Ensures.bind (replyCodes_ensures false [] (Nat.le_refl _)) fun ftp _ => ?_
    refine .ite (fun _ => .pure trivial) fun _ => ?_
    split
    case h_2 unmatched =>
      have some_line := occupied lines rfl
      exact absurd (List.getLast?_eq_some_getLast some_line)
        (unmatched _ _ (List.head?_eq_some_head some_line))
    case h_1 first last _ _ =>
      split
      case isTrue =>
        exact .ite (fun _ => .pure trivial)
          fun _ => Ensures.bind (popReplies_ensures (by omega)) fun pop _ => .pure trivial
      case isFalse =>
        refine .ite (fun _ => .pure trivial) fun _ => ?_
        refine Ensures.bind (imapLine_ensures first) fun greeting _ => ?_
        split
        case h_1 => exact .pure trivial
        case h_2 =>
          exact .ite (fun _ => .pure trivial)
            fun _ => Ensures.bind (imapServer_ensures _) fun imap _ => .pure trivial

/-! ### Classification -/

theorem classifyClientPrefix_ensures (data : List UInt8)
    : Ensures (classifyClientPrefix data) (fun _ => True) fun _ => False := by
  unfold classifyClientPrefix
  split
  case isTrue =>
    split <;> exact .ok trivial
  case isFalse =>
    split
    case isTrue =>
      split <;> exact .ok trivial
    case isFalse =>
      refine Ensures.bind (httpClientPrefix_ensures [] (by omega)) fun target _ => ?_
      cases target with
      | some target => exact .pure trivial
      | none => exact Ensures.bind (startTlsClient_ensures data) fun tunnel _ => .pure trivial

theorem classifyServerPrefix_ensures (data : List UInt8)
    : Ensures (classifyServerPrefix data) (fun _ => True) fun _ => False := by
  unfold classifyServerPrefix
  refine .ite (fun _ => .ok trivial) fun _ => ?_
  refine .ite (fun _ => .ok trivial) fun _ => ?_
  refine Ensures.bind (httpServerPrefix_ensures (by omega)) fun http _ => ?_
  exact .ite (fun _ => .pure trivial) fun _ => startTlsServer_ensures data

end PacketQuapture.Tls
