import Mathlib.Data.List.Induction
import MiniBasic.Proofs.LexicalGrammar

/-!
# Asking a scanner

A scanner can be asked in two ways, in any order and as often as one likes, and it goes on after a
fault. Each answer moves it over some characters (`Scanner.exists_skip`), so it always stands
between two characters of its buffer and knows the line and the column there, and what it answers is
what stands ahead of it. When it stops moving it has come to rest and repeats itself for ever
(`scanner_answers`).
-/

namespace MiniBasic

/-- The location behind these characters: one line more than there are newlines, and one column more
than there are characters behind the last of them. -/
def Location.behind (past : List Char) : Location :=
  ⟨past.count '\n' + 1, (past.reverse.takeWhile (· ≠ '\n')).length + 1⟩

theorem Location.advance_start (past : List Char) : start.advance past = behind past := by
  induction past using List.reverseRecOn with
  | nil => rfl
  | append_singleton past c ih =>
    rw [advance_append, ih, advance_cons, advance_nil]
    by_cases newline : c = '\n'
    · subst newline
      simp [next, behind]
    · simp [next, behind, newline]

/-- What stands ahead, behind `past`, bears out the answer: behind a gap there is the token, or the
characters that explain the fault, and it is located where its first character stands. Behind the
end of the input there is nothing. -/
def BornOut (past ahead : List Char) : Reading → Prop
  | .ok t => ∃ gap rest, ahead = gap ++ (t.value.written ++ rest) ∧
    Gap gap (t.value.written ++ rest) ∧ t.location = .behind (past ++ gap) ∧
    (t.kind = .eof → rest = [])
  | .error e => ∃ gap cs offset, ahead = gap ++ cs ∧ Gap gap cs ∧ e.value.Explains cs offset ∧
    e.location = .behind (past ++ gap ++ cs.take offset)

namespace Scanner

/-- A way to ask a scanner. -/
inductive Ask where
  | next
  | next?
  deriving DecidableEq, Repr

/-- What is answered, if anything, and the scanner after it. -/
def ask (s : Scanner) : Ask → Option Reading × Scanner
  | .next => (some s.next.1, s.next.2)
  | .next? => s.next?

/-- The answers to questions in a row, and the scanner after them. -/
def askAll (s : Scanner) : List Ask → List (Option Reading) × Scanner
  | [] => ([], s)
  | a :: asks =>
    let more := (s.ask a).2.askAll asks
    ((s.ask a).1 :: more.1, more.2)

/-- How many bytes of the source are read. -/
def offset (s : Scanner) : String.Pos.Raw :=
  ⟨s.source.utf8ByteSize - (String.ofList s.rest).utf8ByteSize⟩

/-- The scanner has read `past` of its buffer. -/
structure Behind (past : List Char) (s : Scanner) : Prop where
  buffer_eq : s.buffer = past ++ s.rest
  location_eq : s.location = .behind past

/-- Asking the scanner moves it no more. -/
def AtRest (s : Scanner) : Prop := s.next.2 = s

/-- The answer without the end of the input. -/
def item : Reading → Option Reading
  | .ok t => if t.kind = .eof then none else some (.ok t)
  | .error e => some (.error e)

/-- The answer is the end of the input or a fault. -/
def Ends (answer : Option Reading) : Prop := answer = none ∨ ∃ e, answer = some (.error e)

/-- The token that is answered, if it is one and not the end of the input. -/
def token? : Option Reading → Option (Located Token)
  | some (.ok t) => if t.kind = .eof then none else some t
  | _ => none

section
variable (s : Scanner)

@[simp] theorem skip_zero : s.skip 0 = s := rfl

theorem skip_skip (m n : Nat) : (s.skip m).skip n = s.skip (m + n) := by
  simp [skip, List.take_add, Location.advance_append]

theorem skip_of_nil (nil : s.rest = []) (n : Nat) : s.skip n = s := by
  obtain ⟨buffer, rest, location, exhausted⟩ := s
  obtain rfl : rest = [] := nil
  simp [skip]

/-- An answer moves the scanner over some characters. -/
theorem exists_skip : ∃ n, s.next.2 = s.skip n := by
  unfold next skipGap
  fun_cases read (s.skip (gapLength s.rest)) with
  | case1 => exact ⟨_, rfl⟩
  | case2 t length => exact ⟨_, s.skip_skip _ length⟩
  | case3 e offset length => exact ⟨_, s.skip_skip _ length⟩

theorem read_exhausted (b : Bool) : ({ s with exhausted := b } : Scanner).read =
    (s.read.1, { s.read.2 with exhausted := b }) := by
  unfold read
  cases lexeme s.rest <;> rfl

theorem next_exhausted (b : Bool) : ({ s with exhausted := b } : Scanner).next =
    (s.next.1, { s.next.2 with exhausted := b }) :=
  s.skipGap.read_exhausted b

end

/-! ## One question -/

section
variable {s : Scanner}

theorem next?_of_exhausted (exhausted : s.exhausted = true) : s.next? = (none, s) := by
  simp [next?, exhausted]

/-- Before it has met the end or a fault, the second way to ask is the first one. -/
theorem next?_of_not_exhausted (not_exhausted : s.exhausted = false) :
    ∃ b, s.next? = (item s.next.1, { s.next.2 with exhausted := b }) ∧
      (b = true ↔ Ends (item s.next.1)) := by
  obtain ⟨n, moved⟩ := s.exists_skip
  have kept : s.next.2.exhausted = false := by rw [moved, skip, not_exhausted]
  cases read : s.next with
  | mk r s' =>
    rw [read] at kept
    have same : s' = { s' with exhausted := false } := by
      rw [← kept]
    cases r with
    | error e => exact ⟨true, by simp [next?, not_exhausted, read, item], by simp [Ends, item]⟩
    | ok t =>
      by_cases eof : t.kind = .eof
      · exact ⟨true, by simp [next?, not_exhausted, read, item, eof], by simp [Ends, item, eof]⟩
      · refine ⟨false, ?_, by simp [Ends, item, eof]⟩
        simpa [next?, not_exhausted, read, item, eof] using same

/-- A question moves the scanner over some characters. -/
theorem exists_ask (s : Scanner) (a : Ask) :
    ∃ n b, (s.ask a).2 = { s.skip n with exhausted := b } := by
  obtain ⟨n, moved⟩ := s.exists_skip
  cases a with
  | next => exact ⟨n, _, moved⟩
  | next? =>
    cases exhausted : s.exhausted with
    | true => exact ⟨0, s.exhausted, by rw [ask, next?_of_exhausted exhausted]; rfl⟩
    | false =>
      obtain ⟨b, asked, -⟩ := next?_of_not_exhausted exhausted
      exact ⟨n, b, by rw [ask, asked, moved]⟩

theorem Behind.skip {past : List Char} (h : Behind past s) (n : Nat) :
    Behind (past ++ s.rest.take n) (s.skip n) where
  buffer_eq := by
    rw [List.append_assoc, skip_rest, List.take_append_drop]
    exact h.buffer_eq
  location_eq := by
    rw [← Location.advance_start, Location.advance_append, Location.advance_start, ← h.location_eq]
    rfl

theorem Behind.ask {past : List Char} (h : Behind past s) (a : Ask) :
    ∃ past', Behind past' (s.ask a).2 := by
  obtain ⟨n, b, moved⟩ := s.exists_ask a
  obtain ⟨buffer_eq, location_eq⟩ := h.skip n
  rw [moved]
  exact ⟨_, buffer_eq, location_eq⟩

theorem Behind.bornOut {past : List Char} (h : Behind past s) (closed : Closed s.buffer) :
    BornOut past s.rest s.next.1 := by
  have advance (cs : List Char) : s.location.advance cs = .behind (past ++ cs) := by
    rw [h.location_eq, ← Location.advance_start, ← Location.advance_append, Location.advance_start]
  have closed_rest : Closed s.rest := (h.buffer_eq ▸ closed).of_append
  cases read : s.next with
  | mk r s' =>
    cases r with
    | error e =>
      have remainder := remainder_of_error read closed_rest
      generalize s.rest = rest at remainder ⊢
      cases remainder with
      | @fault gap cs _ offset blank explains here =>
        rw [advance, ← List.append_assoc] at here
        exact ⟨gap, cs, offset, rfl, blank, explains, here⟩
    | ok t =>
      by_cases eof : t.kind = .eof
      · obtain ⟨rfl, -⟩ := next_eof read eof
        have remainder := remainder_of_eof read
        generalize stop_eq : s.stop = l at remainder ⊢
        generalize s.rest = rest at remainder ⊢
        cases remainder with
        | finished blank =>
          exact ⟨rest, [], by simp [endToken, Token.written], blank, advance rest, fun _ => rfl⟩
      · obtain ⟨gap, w, rest_eq, blank, longest, here, -⟩ := exists_longest_of_next read eof
        rw [advance] at here
        rw [← longest.isLexeme.written_eq] at rest_eq blank
        exact ⟨gap, s'.rest, rest_eq, blank, here, fun kind => absurd kind eof⟩

/-! ## Where the scanner stands -/

theorem Behind.offset_eq {past : List Char} (h : Behind past s) :
    s.offset = (String.ofList past).rawEndPos := by
  unfold offset source
  rw [h.buffer_eq, String.ofList_append, String.utf8ByteSize_append, Nat.add_sub_cancel]
  rfl

theorem Behind.isValid_offset {past : List Char} (h : Behind past s) :
    s.offset.IsValid s.source := by
  apply String.Pos.Raw.isValid_iff_exists_append.mpr
  refine ⟨String.ofList past, String.ofList s.rest, ?_, h.offset_eq⟩
  rw [source, h.buffer_eq, String.ofList_append]

/-- An answer moves the scanner forward, or else it is at rest. -/
theorem atRest_or_length_lt (s : Scanner) :
    s.AtRest ∨ s.next.2.rest.length < s.rest.length := by
  obtain ⟨n, moved⟩ := s.exists_skip
  by_cases nil : s.rest = []
  · exact .inl (moved.trans (s.skip_of_nil nil n))
  · rcases Nat.eq_zero_or_pos n with rfl | pos
    · exact .inl moved
    · right
      have ahead : 0 < s.rest.length := List.length_pos_iff.mpr nil
      rw [moved, skip_rest, List.length_drop]
      omega

theorem Behind.offset_lt {past : List Char} (h : Behind past s)
    (lt : s.next.2.rest.length < s.rest.length) : s.offset < s.next.2.offset := by
  obtain ⟨n, moved⟩ := s.exists_skip
  have h' := h.skip n
  rw [moved] at lt ⊢
  have moves : s.rest.take n ≠ [] := by
    intro none
    have split := congrArg List.length (List.take_append_drop n s.rest)
    rw [none, List.nil_append] at split
    rw [skip_rest] at lt
    omega
  have read : (String.ofList (s.rest.take n)).utf8ByteSize ≠ 0 := by
    rw [ne_eq, String.utf8ByteSize_eq_zero_iff]
    intro none
    exact moves (by simpa using congrArg String.toList none)
  rw [h.offset_eq, h'.offset_eq, String.ofList_append, String.Pos.Raw.lt_iff]
  simp only [String.byteIdx_rawEndPos, String.utf8ByteSize_append]
  omega

/-! ## At rest -/

/-- The faults behind which a scanner stays where it is. -/
theorem fault_of_length_zero {cs : List Char} {e : ScanError} {offset : Nat}
    (h : lexeme cs = .fault e offset 0) :
    offset = 0 ∧ ((∃ c, e = .unexpectedChar c) ∨ ∃ c, e = .malformedNotEqual c) := by
  revert h
  fun_cases lexeme cs with
  | case14 =>
    rintro ⟨⟩
    exact ⟨rfl, .inr ⟨_, rfl⟩⟩
  | case15 rest => fun_cases stringLexeme rest <;> rintro ⟨⟩
  | case16 c rest =>
    fun_cases numberLexeme (c :: rest) with
    | case1 whole rest tail digits text =>
      intro eq
      have empty : text.length = 0 := (Lexeme.fault.inj eq).2.2
      simp [text] at empty
    | _ => rintro ⟨⟩
  | case17 => rintro ⟨⟩
  | case18 =>
    rintro ⟨⟩
    exact ⟨rfl, .inl ⟨_, rfl⟩⟩
  | _ => rintro ⟨⟩

/-- What a scanner at rest answers: the end of the input, or a character right ahead that starts no
token. -/
theorem AtRest.answer (h : s.AtRest) :
    s.next.1 = .ok (endToken s.location) ∨
    (∃ c, s.next.1 = .error ⟨s.location, .unexpectedChar c⟩) ∨
    ∃ c, s.next.1 = .error ⟨s.location, .malformedNotEqual c⟩ := by
  have skipped : s.skipGap.rest.length ≤ s.rest.length := by simp [skipGap]
  unfold AtRest next at h
  unfold next
  revert h
  fun_cases read s.skipGap with
  | case1 =>
    intro (stays : s.skipGap = s)
    rw [stays]
    exact .inl rfl
  | case2 t length token =>
    intro stays
    obtain ⟨pos, le⟩ := lexeme_token_length token
    have kept := congrArg (·.rest.length) stays
    simp only [skip_rest, List.length_drop] at kept
    omega
  | case3 e offset length fault =>
    intro (stays : s.skipGap.skip length = s)
    have ahead : 0 < s.skipGap.rest.length := by
      rw [List.length_pos_iff]
      intro nil
      rw [nil] at fault
      cases fault
    have kept := congrArg (·.rest.length) stays
    simp only [skip_rest, List.length_drop] at kept
    obtain rfl : length = 0 := by omega
    rw [skip_zero] at stays
    obtain ⟨rfl, ⟨c, rfl⟩ | ⟨c, rfl⟩⟩ := fault_of_length_zero fault
    · rw [skip_zero, stays]
      exact .inr (.inl ⟨c, rfl⟩)
    · rw [skip_zero, stays]
      exact .inr (.inr ⟨c, rfl⟩)

theorem AtRest.exhausted (h : s.AtRest) (b : Bool) :
    ({ s with exhausted := b } : Scanner).AtRest := by
  rw [AtRest, next_exhausted, h]

/-- A scanner at rest does not move when it is asked. -/
theorem AtRest.ask (h : s.AtRest) (a : Ask) : ∃ b, (s.ask a).2 = { s with exhausted := b } := by
  cases a with
  | next => exact ⟨s.exhausted, h⟩
  | next? =>
    cases exhausted : s.exhausted with
    | true => exact ⟨true, by rw [Scanner.ask, next?_of_exhausted exhausted, ← exhausted]⟩
    | false =>
      obtain ⟨b, asked, -⟩ := next?_of_not_exhausted exhausted
      exact ⟨b, by rw [Scanner.ask, asked, h]⟩

/-- A scanner at rest stays there and repeats itself for ever. -/
theorem AtRest.askAll (h : s.AtRest) (asks : List Ask) :
    (∃ b, (s.askAll asks).2 = { s with exhausted := b }) ∧
    ∀ r, (Ask.next, r) ∈ asks.zip (s.askAll asks).1 → r = some s.next.1 := by
  induction asks generalizing s with
  | nil => exact ⟨⟨s.exhausted, rfl⟩, nofun⟩
  | cons a asks ih =>
    obtain ⟨b, asked⟩ := h.ask a
    obtain ⟨⟨b', after⟩, repeats⟩ := ih (asked ▸ h.exhausted b)
    have same : (s.ask a).2.next.1 = s.next.1 := by rw [asked, next_exhausted]
    refine ⟨⟨b', by rw [Scanner.askAll, after, asked]⟩, fun r mem => ?_⟩
    rcases List.mem_cons.mp mem with eq | mem
    · cases eq
      rfl
    · rw [← same]
      exact repeats r mem

/-! ## All questions -/

theorem askAll_atRest_of_count (asks : List Ask) (enough : s.rest.length ≤ asks.count .next) :
    (s.askAll asks).2.AtRest := by
  induction asks generalizing s with
  | nil =>
    have nil : s.rest = [] := by simpa using enough
    obtain ⟨n, moved⟩ := s.exists_skip
    exact moved.trans (s.skip_of_nil nil n)
  | cons a asks ih =>
    rcases s.atRest_or_length_lt with rest | lt
    · obtain ⟨⟨b, after⟩, -⟩ := rest.askAll (a :: asks)
      rw [after]
      exact rest.exhausted b
    · apply ih
      cases a with
      | next =>
        rw [List.count_cons_self] at enough
        exact Nat.le_of_lt_succ (lt.trans_le enough)
      | next? =>
        obtain ⟨n, b, moved⟩ := s.exists_ask .next?
        rw [moved]
        have : asks.count .next = (Ask.next? :: asks).count .next := by simp
        exact (Nat.le_trans (by simp) enough).trans this.ge

theorem ask_exhausted (s : Scanner) (a : Ask) :
    (s.ask a).2.exhausted = true ↔ s.exhausted = true ∨ a = .next? ∧ Ends (s.ask a).1 := by
  cases a with
  | next =>
    obtain ⟨n, moved⟩ := s.exists_skip
    simp [ask, moved, skip]
  | next? =>
    cases exhausted : s.exhausted with
    | true => simp [ask, next?_of_exhausted exhausted, exhausted]
    | false =>
      obtain ⟨b, asked, ends⟩ := next?_of_not_exhausted exhausted
      simp [ask, asked, ends]

/-- The second way to ask is closed once it has answered the end of the input or a fault. -/
theorem askAll_exhausted (s : Scanner) (asks : List Ask) :
    (s.askAll asks).2.exhausted = true ↔ s.exhausted = true ∨
      ∃ r, (Ask.next?, r) ∈ asks.zip (s.askAll asks).1 ∧ Ends r := by
  induction asks generalizing s with
  | nil => simp [askAll]
  | cons a asks ih =>
    rw [askAll, ih, ask_exhausted, List.zip_cons_cons]
    constructor
    · rintro ((closed | ⟨rfl, ends⟩) | ⟨r, mem, ends⟩)
      · exact .inl closed
      · exact .inr ⟨_, List.mem_cons_self, ends⟩
      · exact .inr ⟨r, List.mem_cons_of_mem _ mem, ends⟩
    · rintro (closed | ⟨r, mem, ends⟩)
      · exact .inl (.inl closed)
      · rcases List.mem_cons.mp mem with eq | mem
        · cases eq
          exact .inl (.inr ⟨rfl, ends⟩)
        · exact .inr ⟨r, mem, ends⟩

theorem token?_item (r : Reading) : token? (item r) = token? (some r) := by
  cases r with
  | error => rfl
  | ok t => by_cases eof : t.kind = .eof <;> simp [item, token?, eof]

/-- A token that is answered stands between where the scanner was and where it is. -/
theorem ask_token {s : Scanner} {a : Ask} {t : Located Token} (h : token? (s.ask a).1 = some t) :
    s.location ≤ t.location ∧ t.location < (s.ask a).2.location := by
  have read (ok : token? (some s.next.1) = some t) :
      s.location ≤ t.location ∧ t.location < s.next.2.location := by
    cases read : s.next with
    | mk r s' =>
      rw [read] at ok
      cases r with
      | error e => cases ok
      | ok t' =>
        by_cases eof : t'.kind = .eof
        · simp [token?, eof] at ok
        · obtain rfl : t' = t := by simpa [token?, eof] using ok
          obtain ⟨le, lt, -⟩ := next_token read eof
          exact ⟨le, lt⟩
  cases a with
  | next => exact read h
  | next? =>
    cases exhausted : s.exhausted with
    | true => simp [ask, next?_of_exhausted exhausted, token?] at h
    | false =>
      obtain ⟨b, asked, -⟩ := next?_of_not_exhausted exhausted
      rw [ask, asked] at h ⊢
      exact read (by rwa [token?_item] at h)

theorem askAll_increasing (s : Scanner) (asks : List Ask) :
    ((s.askAll asks).1.filterMap token?).Pairwise (·.location < ·.location) ∧
    ∀ t ∈ (s.askAll asks).1.filterMap token?, s.location ≤ t.location := by
  induction asks generalizing s with
  | nil => exact ⟨.nil, nofun⟩
  | cons a asks ih =>
    obtain ⟨increasing, behind⟩ := ih (s.ask a).2
    have forward : s.location ≤ (s.ask a).2.location := by
      obtain ⟨n, b, moved⟩ := s.exists_ask a
      rw [moved]
      exact le_location_skip s n
    rw [askAll]
    cases answer : token? (s.ask a).1 with
    | none =>
      rw [List.filterMap_cons_none answer]
      exact ⟨increasing, fun t mem => forward.trans (behind t mem)⟩
    | some t =>
      obtain ⟨le, lt⟩ := ask_token answer
      rw [List.filterMap_cons_some answer, List.pairwise_cons, List.forall_mem_cons]
      exact ⟨⟨fun t' mem => lt.trans_le (behind t' mem), increasing⟩, le,
        fun t' mem => forward.trans (behind t' mem)⟩

theorem Behind.askAll {past : List Char} (h : Behind past s) (asks : List Ask) :
    ∃ past', Behind past' (s.askAll asks).2 := by
  induction asks generalizing s past with
  | nil => exact ⟨past, h⟩
  | cons a asks ih =>
    obtain ⟨past', h'⟩ := h.ask a
    exact ih h'

theorem buffer_askAll (s : Scanner) (asks : List Ask) : (s.askAll asks).2.buffer = s.buffer := by
  induction asks generalizing s with
  | nil => rfl
  | cons a asks ih =>
    obtain ⟨n, b, moved⟩ := s.exists_ask a
    rw [Scanner.askAll, ih, moved]
    rfl

/-- A scanner that has been asked anything in any order stands at a character of its buffer and
knows the line and the column there, and what stands ahead bears out its next answer. The tokens
that it has answered stand one behind the other. Its next answer moves it forward, or else it is at
rest: at the end of the input or at a character that starts no token, where it gives this answer for
ever. As many answers as there are characters bring it to rest. The second way to ask gives the same
answers, without the end of the input, up to the first that ends it. -/
theorem scanner_answers {source : String} {asks : List Ask} {answers : List (Option Reading)}
    {s : Scanner} (run : (ofSource source).askAll asks = (answers, s)) :
    (s.buffer = terminated source.toList ∧ s.offset.IsValid s.source ∧
      ∃ past, s.buffer = past ++ s.rest ∧ s.offset = (String.ofList past).rawEndPos ∧
        s.location = .behind past ∧ BornOut past s.rest s.next.1) ∧
    ((answers.filterMap token?).map (·.location)).Pairwise (· < ·) ∧
    (s.offset < s.next.2.offset ∨ s.AtRest) ∧
    (s.AtRest →
      (s.next.1 = .ok (endToken s.location) ∨
        (∃ c, s.next.1 = .error ⟨s.location, .unexpectedChar c⟩) ∨
        ∃ c, s.next.1 = .error ⟨s.location, .malformedNotEqual c⟩) ∧
      ∀ more, (s.askAll more).2.offset = s.offset ∧ (s.askAll more).2.location = s.location ∧
        ∀ r, (Ask.next, r) ∈ more.zip (s.askAll more).1 → r = some s.next.1) ∧
    (s.buffer.length ≤ asks.count .next → s.AtRest) ∧
    ((∃ r, (Ask.next?, r) ∈ asks.zip answers ∧ Ends r) → s.next? = (none, s)) ∧
    ((¬∃ r, (Ask.next?, r) ∈ asks.zip answers ∧ Ends r) →
      ∃ b, s.next? = (item s.next.1, { s.next.2 with exhausted := b })) := by
  have started : Behind [] (ofSource source) := ⟨rfl, rfl⟩
  have increasing := ((ofSource source).askAll_increasing asks).1
  have buffer_eq := (ofSource source).buffer_askAll asks
  have closes := (ofSource source).askAll_exhausted asks
  have comes := (ofSource source).askAll_atRest_of_count asks
  obtain ⟨past, stands⟩ := started.askAll asks
  rw [run] at increasing buffer_eq closes comes stands
  have closed : Closed s.buffer := buffer_eq ▸ closed_terminated source.toList
  refine ⟨⟨buffer_eq, stands.isValid_offset, past, stands.buffer_eq, stands.offset_eq,
    stands.location_eq, stands.bornOut closed⟩, List.pairwise_map.mpr increasing, ?_,
    fun rests => ⟨rests.answer, fun more => ?_⟩, ?_, fun met => ?_, fun not_met => ?_⟩
  · exact s.atRest_or_length_lt.symm.imp_left stands.offset_lt
  · obtain ⟨⟨b, after⟩, repeats⟩ := rests.askAll more
    rw [after]
    exact ⟨rfl, rfl, repeats⟩
  · rw [buffer_eq]
    exact comes
  · exact next?_of_exhausted (closes.mpr (.inr met))
  · have open_still : s.exhausted = false :=
      Bool.eq_false_iff.mpr fun exhausted => not_met ((closes.mp exhausted).resolve_left nofun)
    obtain ⟨b, asked, -⟩ := next?_of_not_exhausted open_still
    exact ⟨b, asked⟩

/-- No token starts with `@`, so a scanner that has got there is at rest, and the second way to ask
is closed. -/
theorem at_sign_answers : ∃ s, (ofSource "A @").askAll [.next, .next?] =
    ([some (.ok ⟨⟨1, 1⟩, ⟨.ident, "A"⟩⟩), some (.error ⟨⟨1, 3⟩, .unexpectedChar '@'⟩)], s) ∧
    s.AtRest ∧ s.next? = (none, s) ∧ (s.askAll [.next, .next?, .next]).2.location = ⟨1, 3⟩ := by
  have run : (ofSource "A @").askAll [.next, .next?] =
      ([some (.ok ⟨⟨1, 1⟩, ⟨.ident, "A"⟩⟩), some (.error ⟨⟨1, 3⟩, .unexpectedChar '@'⟩)],
        ⟨"A @\n".toList, "@\n".toList, ⟨1, 3⟩, true⟩) := rfl
  obtain ⟨-, -, -, stays, -, closed, -⟩ := scanner_answers run
  obtain ⟨-, ever⟩ := stays rfl
  exact ⟨_, run, rfl, closed ⟨_, List.mem_of_getElem? (i := 1) rfl, .inr ⟨_, rfl⟩⟩,
    (ever [.next, .next?, .next]).2.1⟩

end

end Scanner

end MiniBasic
