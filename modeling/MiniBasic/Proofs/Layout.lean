import MiniBasic.Proofs.TokenStream

/-!
# The layout of a source

Tokens and faults carry a location, and there the buffer of the source bears them out. Each token
is written behind a gap, one after the other, which is the relation `Layout`; what is left behind
the last one is a gap before the end, or before the characters that make up the fault (`Remainder`).
Together they are all that was read (`Scanner.Reads.exists_layout`).

For whole sources this becomes a statement about locations: `Ahead source l cs` says that the buffer
goes on as `cs` from `l` on, of which there is only one (`Ahead.eq`).
-/

namespace MiniBasic

/-- The characters that a token is written with. -/
def Token.written (t : Token) : List Char :=
  if t.kind = .string then '"' :: (t.text.toList ++ ['"']) else t.text.toList

/-- Digits, and if there is a point then digits behind it. -/
def IsNumeral (cs : List Char) : Prop :=
  ∃ whole fraction, cs = whole ++ fraction ∧ whole ≠ [] ∧ (∀ c ∈ whole, c.isDigit) ∧
    (fraction = [] ∨
      ∃ digits, fraction = '.' :: digits ∧ digits ≠ [] ∧ ∀ c ∈ digits, c.isDigit)

/-- A letter, then letters and digits. -/
def IsWord (cs : List Char) : Prop :=
  ∃ c rest, cs = c :: rest ∧ c.isAlpha ∧ ∀ d ∈ rest, d.isAlphanum

theorem isWord_cons_iff {c : Char} {rest : List Char} :
    IsWord (c :: rest) ↔ c.isAlpha ∧ rest.all Char.isAlphanum := by
  rw [List.all_eq_true]
  constructor
  · rintro ⟨_, _, ⟨⟩, h⟩
    exact h
  · exact fun h => ⟨c, rest, rfl, h⟩

instance : DecidablePred IsWord
  | [] => isFalse fun ⟨_, _, eq, _⟩ => absurd eq.symm (List.cons_ne_nil _ _)
  | _ :: _ => decidable_of_iff' _ isWord_cons_iff

theorem IsWord.isAlphanum {cs : List Char} (h : IsWord cs) : ∀ c ∈ cs, c.isAlphanum := by
  obtain ⟨c, rest, rfl, letter, alphanum⟩ := h
  exact List.forall_mem_cons.mpr ⟨by simp [Char.isAlphanum, letter], alphanum⟩

theorem IsWord.not_mem {cs : List Char} (h : IsWord cs) {c : Char} (other : c.isAlphanum = false) :
    c ∉ cs := by
  intro mem
  simp [h.isAlphanum c mem] at other

theorem not_isAlpha_of_isDigit {c : Char} (digit : c.isDigit) : ¬c.isAlpha := by
  have low : c.val ≤ '9'.val := of_decide_eq_true (Bool.and_eq_true_iff.mp digit).2
  intro letter
  rcases Bool.or_eq_true_iff.mp letter with upper | lower
  · have high : 'A'.val ≤ c.val := (of_decide_eq_true upper).1
    exact absurd (UInt32.le_trans high low) (by decide)
  · have high : 'a'.val ≤ c.val := of_decide_eq_true (Bool.and_eq_true_iff.mp lower).1
    exact absurd (UInt32.le_trans high low) (by decide)

theorem exists_digit_of_isNumeral {cs : List Char} (h : IsNumeral cs) :
    ∃ d ds, cs = d :: ds ∧ d.isDigit ∧ ∀ c ∈ ds, c.isDigit ∨ c = '.' := by
  obtain ⟨whole, fraction, rfl, whole_ne, whole_digits, fraction_digits⟩ := h
  obtain ⟨d, ds, rfl⟩ := List.exists_cons_of_ne_nil whole_ne
  obtain ⟨first, others⟩ := List.forall_mem_cons.mp whole_digits
  refine ⟨d, ds ++ fraction, rfl, first, fun c mem => ?_⟩
  rcases List.mem_append.mp mem with mem | mem
  · exact .inl (others c mem)
  · rcases fraction_digits with rfl | ⟨digits, rfl, -, digits_digits⟩
    · cases mem
    · rcases List.mem_cons.mp mem with rfl | mem
      · exact .inr rfl
      · exact .inl (digits_digits c mem)

theorem IsNumeral.not_mem {cs : List Char} (h : IsNumeral cs) {c : Char}
    (not_digit : c.isDigit = false) (not_point : c ≠ '.') : c ∉ cs := by
  obtain ⟨whole, fraction, rfl, -, whole_digits, fraction_digits⟩ := h
  intro mem
  rcases List.mem_append.mp mem with mem | mem
  · simp [whole_digits c mem] at not_digit
  · rcases fraction_digits with rfl | ⟨digits, rfl, -, digits_digits⟩
    · cases mem
    · rcases List.mem_cons.mp mem with rfl | mem
      · contradiction
      · simp [digits_digits c mem] at not_digit

/-- The text of a token is one that its kind may have. -/
structure Token.Lexical (t : Token) : Prop where
  number : t.kind = .number → IsNumeral t.text.toList
  ident : t.kind = .ident → IsWord t.text.toList
  string : t.kind = .string → ∀ c ∈ t.text.toList, isStringChar c

/-- Only the texts of numbers, identifiers and strings vary. -/
theorem Token.Lexical.of_kind {t : Token} (number : t.kind ≠ .number) (ident : t.kind ≠ .ident)
    (string : t.kind ≠ .string) : t.Lexical :=
  ⟨fun h => absurd h number, fun h => absurd h ident, fun h => absurd h string⟩

theorem Token.Lexical.of_number {text : String} (h : IsNumeral text.toList) :
    Token.Lexical ⟨.number, text⟩ :=
  ⟨fun _ => h, nofun, nofun⟩

theorem Token.Lexical.of_string {text : String} (h : ∀ c ∈ text.toList, isStringChar c) :
    Token.Lexical ⟨.string, text⟩ :=
  ⟨nofun, nofun, fun _ => h⟩

/-! ## Tokens -/

theorem forall_mem_takeWhile {α : Type} (p : α → Bool) (l : List α) : ∀ x ∈ l.takeWhile p, p x :=
  List.all_eq_true.mp List.all_takeWhile

section
variable {cs : List Char} {t : Token} {n : Nat}

theorem written_stringLexeme (h : stringLexeme cs = .token t n) :
    t.Lexical ∧ ∃ rest, '"' :: cs = t.written ++ rest ∧ n = t.written.length := by
  have split := List.takeWhile_append_dropWhile (p := isStringChar) (l := cs)
  revert h
  fun_cases stringLexeme cs with
  | case1 body rest tail =>
    intro eq
    cases eq
    refine ⟨.of_string ?_, rest, ?_, ?_⟩
    · simpa using forall_mem_takeWhile isStringChar cs
    · rw [tail] at split
      simpa [Token.written, body] using split.symm
    · simp [Token.written]
  | case2 | case3 | case4 =>
    intro eq
    cases eq

theorem written_numberLexeme (digit : (cs.headD ' ').isDigit) (h : numberLexeme cs = .token t n) :
    t.Lexical ∧ ∃ rest, cs = t.written ++ rest ∧ n = t.written.length := by
  have split := List.takeWhile_append_dropWhile (p := Char.isDigit) (l := cs)
  have whole_digits := forall_mem_takeWhile Char.isDigit cs
  have whole_ne : cs.takeWhile Char.isDigit ≠ [] := by
    cases cs with
    | nil => exact absurd digit (by decide)
    | cons c cs => simpa [List.takeWhile_cons] using digit
  revert h
  fun_cases numberLexeme cs with
  | case1 =>
    intro eq
    cases eq
  | case2 whole rest tail digits text digits_ne =>
    intro eq
    cases eq
    have digits_digits := forall_mem_takeWhile Char.isDigit rest
    have split' := List.takeWhile_append_dropWhile (p := Char.isDigit) (l := rest)
    refine ⟨.of_number ?_, rest.dropWhile Char.isDigit, ?_, ?_⟩
    · refine ⟨whole, '.' :: digits, by simp [text], whole_ne, whole_digits, .inr ⟨digits, rfl, ?_⟩⟩
      exact ⟨by simpa using digits_ne, digits_digits⟩
    · rw [tail] at split
      simpa [Token.written, text, whole, digits, split'] using split.symm
    · simp [Token.written]
  | case3 whole =>
    intro eq
    cases eq
    refine ⟨.of_number ?_, cs.dropWhile Char.isDigit, ?_, ?_⟩
    · exact ⟨whole, [], by simp, whole_ne, whole_digits, .inl rfl⟩
    · simp [Token.written, whole]
    · simp [Token.written]

theorem wordKind_ne_string (word : String) : wordKind word ≠ .string := by
  unfold wordKind
  split <;> nofun

theorem written_wordLexeme {c : Char} (letter : c.isAlpha) (h : wordLexeme (c :: cs) = .token t n) :
    t.Lexical ∧ ∃ rest, c :: cs = t.written ++ rest ∧ n = t.written.length := by
  have chars := forall_mem_takeWhile Char.isAlphanum cs
  have first : (c :: cs).takeWhile Char.isAlphanum = c :: cs.takeWhile Char.isAlphanum := by
    simp [Char.isAlphanum, letter]
  cases h
  have not_string := wordKind_ne_string (String.ofList ((c :: cs).takeWhile Char.isAlphanum))
  refine ⟨⟨fun number => ?_, fun _ => ?_, fun string => absurd string not_string⟩,
    (c :: cs).dropWhile Char.isAlphanum, ?_, ?_⟩
  · unfold wordKind at number
    split at number <;> cases number
  · exact ⟨c, cs.takeWhile Char.isAlphanum, by simp [first], letter, chars⟩
  · simp [Token.written, not_string]
  · simp [Token.written, not_string]

/-- A token is read off the front of the input, where it is written. -/
theorem written_lexeme (h : lexeme cs = .token t n) :
    t.Lexical ∧ ∃ rest, cs = t.written ++ rest ∧ n = t.written.length := by
  revert h
  fun_cases lexeme cs with
  | case1 | case14 | case18 =>
    intro eq
    cases eq
  | case15 rest => exact written_stringLexeme
  | case16 c rest _ _ _ _ _ _ _ _ _ _ _ _ _ _ digit => exact written_numberLexeme digit
  | case17 c rest _ _ _ _ _ _ _ _ _ _ _ _ _ _ _ letter => exact written_wordLexeme letter
  | _ =>
    intro eq
    cases eq
    exact ⟨.of_kind (by decide) (by decide) (by decide), _, rfl, rfl⟩

end

/-! ## Faults -/

/-- The fault is what is wrong with the characters `cs`, at whose front no token can be read. Its
place is behind the first `offset` of them. -/
def ScanError.Explains (cs : List Char) (offset : Nat) : ScanError → Prop
  | unexpectedChar c => offset = 0 ∧ ∃ rest, cs = c :: rest
  | malformedNotEqual c => offset = 0 ∧ c ≠ '=' ∧ ∃ rest, cs = '!' :: c :: rest
  | illegalStringChar c =>
    ∃ body rest, cs = '"' :: (body ++ c :: rest) ∧ offset = body.length + 1 ∧
      (∀ b ∈ body, isStringChar b) ∧ '\n' ∉ body ∧ ¬isStringChar c ∧ c ≠ '"' ∧ c ≠ '\n'
  | unterminatedString =>
    offset = 0 ∧ ∃ body rest, cs = '"' :: (body ++ '\n' :: rest) ∧ '"' ∉ body ∧ '\n' ∉ body
  | malformedNumber raw =>
    offset = 0 ∧ ∃ digits rest, cs = digits ++ '.' :: rest ∧ digits ≠ [] ∧
      (∀ d ∈ digits, d.isDigit) ∧ raw.toList = digits ++ ['.'] ∧ ∀ c ∈ rest.head?, ¬c.isDigit

section
variable {cs : List Char} {e : ScanError} {offset n : Nat}

theorem explains_stringLexeme (closed : cs.getLast? = some '\n')
    (h : stringLexeme cs = .fault e offset n) : e.Explains ('"' :: cs) offset := by
  have split := List.takeWhile_append_dropWhile (p := isStringChar) (l := cs)
  have legal := forall_mem_takeWhile isStringChar cs
  have no_newline : '\n' ∉ cs.takeWhile isStringChar := fun mem => by
    simpa [isStringChar, Text.isControl] using legal _ mem
  have no_quote : '"' ∉ cs.takeWhile isStringChar := fun mem => by
    simpa [isStringChar] using legal _ mem
  revert h
  fun_cases stringLexeme cs with
  | case1 =>
    intro eq
    cases eq
  | case2 body all_legal =>
    -- The newline at the end of the input is not legal.
    rw [all_legal, List.append_nil] at split
    rw [split] at no_newline
    exact absurd (List.mem_of_getLast? closed) no_newline
  | case3 body rest tail =>
    intro eq
    cases eq
    rw [tail] at split
    exact ⟨rfl, body, rest, by rw [split], no_quote, no_newline⟩
  | case4 body c rest not_quote not_newline tail =>
    intro eq
    cases eq
    have illegal := List.head?_dropWhile_not isStringChar cs
    rw [tail] at split illegal
    exact ⟨body, rest, by rw [split], rfl, legal, no_newline, by simpa using illegal, not_quote,
      not_newline⟩

theorem explains_numberLexeme (digit : (cs.headD ' ').isDigit)
    (h : numberLexeme cs = .fault e offset n) : e.Explains cs offset := by
  have split := List.takeWhile_append_dropWhile (p := Char.isDigit) (l := cs)
  revert h
  fun_cases numberLexeme cs with
  | case1 whole rest tail digits text no_digits =>
    intro eq
    cases eq
    rw [tail] at split
    have digits_nil : digits = [] := by simpa using no_digits
    refine ⟨rfl, whole, rest, split.symm, ?_, forall_mem_takeWhile Char.isDigit cs, ?_, ?_⟩
    · cases cs with
      | nil => exact absurd digit (by decide)
      | cons c cs => simpa [whole, List.takeWhile_cons] using digit
    · simp [text, digits_nil]
    · cases rest with
      | nil => simp
      | cons c rest => simpa [digits, List.takeWhile_cons] using digits_nil
  | case2 | case3 =>
    intro eq
    cases eq

/-- What a fault says is so, in an input that ends with a newline. -/
theorem explains_lexeme (closed : cs.getLast? = some '\n') (h : lexeme cs = .fault e offset n) :
    e.Explains cs offset := by
  revert h
  fun_cases lexeme cs with
  | case14 rest not_equal =>
    intro eq
    cases eq
    cases rest with
    | nil => simp at closed
    | cons c rest => exact ⟨rfl, fun equal : c = '=' => not_equal rest (by rw [equal]), rest, rfl⟩
  | case15 rest =>
    refine explains_stringLexeme ?_
    cases rest with
    | nil => simp at closed
    | cons c rest => simpa using closed
  | case16 c rest _ _ _ _ _ _ _ _ _ _ _ _ _ _ digit => exact explains_numberLexeme digit
  | case18 c rest =>
    intro eq
    cases eq
    exact ⟨rfl, rest, rfl⟩
  | _ =>
    intro eq
    cases eq

end

/-! ## Gaps -/

/-- What may stand between tokens, in front of `rest`: blanks, then a comment up to the end of its
line. -/
def Gap (cs rest : List Char) : Prop :=
  ∃ blanks comment, cs = blanks ++ comment ∧ (∀ c ∈ blanks, isGap c) ∧
    (comment = [] ∨ ∃ text, comment = '#' :: text ∧ '\n' ∉ text ∧ ∀ c ∈ rest.head?, c = '\n')

theorem Gap.of_append {cs as bs : List Char} (h : Gap cs (as ++ bs)) : Gap cs as := by
  obtain ⟨blanks, comment, eq, blank, text⟩ := h
  refine ⟨blanks, comment, eq, blank, text.imp_right ?_⟩
  rintro ⟨text, comment_eq, no_newline, next⟩
  refine ⟨text, comment_eq, no_newline, fun c head => next c ?_⟩
  rw [List.head?_append, Option.mem_def.mp head]
  rfl

theorem gap_take_gapLength (cs : List Char) :
    Gap (cs.take (gapLength cs)) (cs.drop (gapLength cs)) := by
  have split := List.takeWhile_append_dropWhile (p := isGap) (l := cs)
  have blank := forall_mem_takeWhile isGap cs
  fun_cases gapLength cs with
  | case1 blanks rest comment =>
    have text := forall_mem_takeWhile (· ≠ '\n') rest
    have next := List.head?_dropWhile_not (· ≠ '\n') rest
    have split' := List.takeWhile_append_dropWhile (p := (· ≠ '\n')) (l := rest)
    have cs_eq : cs = (blanks ++ '#' :: rest.takeWhile (· ≠ '\n')) ++
        rest.dropWhile (· ≠ '\n') := by
      rw [List.append_assoc, List.cons_append, split', ← comment, split]
    rw [← List.length_append]
    conv => congr <;> rw [cs_eq]
    rw [List.take_left, List.drop_left]
    refine ⟨blanks, _, rfl, blank, .inr ⟨_, rfl, fun mem => ?_, fun c head => ?_⟩⟩
    · simpa using text _ mem
    · rw [Option.mem_def.mp head] at next
      simpa using next
  | case2 blanks =>
    refine ⟨blanks, [], ?_, blank, .inl rfl⟩
    rw [List.append_nil]
    exact (List.prefix_iff_eq_take.mp (List.takeWhile_prefix isGap)).symm

/-! ## The layout of a source -/

/-- The characters end with a newline, if there are any. -/
def Closed (cs : List Char) : Prop := cs ≠ [] → cs.getLast? = some '\n'

theorem Closed.of_append {as bs : List Char} (h : Closed (as ++ bs)) : Closed bs := by
  intro ne_nil
  have last := h (by simp [ne_nil])
  rwa [List.getLast?_append, List.getLast?_eq_some_getLast ne_nil, Option.some_or,
    ← List.getLast?_eq_some_getLast ne_nil] at last

/-- The tokens in their places, each behind a gap, make up the characters, of which the first stands
at `l`. -/
inductive Layout : Location → List (Located Token) → List Char → Prop
  | nil {l : Location} : Layout l [] []
  | cons {l : Location} {gap cs : List Char} {t : Located Token} {ts : List (Located Token)}
    (blank : Gap gap (t.value.written ++ cs)) (here : t.location = l.advance gap)
    (lexical : t.value.Lexical) (rest : Layout (l.advance (gap ++ t.value.written)) ts cs) :
    Layout l (t :: ts) (gap ++ t.value.written ++ cs)

/-- What stands behind the last token, given that it starts at `l`. -/
inductive Remainder (l : Location) : List Char → Except (Located ScanError) Location → Prop
  | finished {gap : List Char} (blank : Gap gap []) : Remainder l gap (.ok (l.advance gap))
  | fault {gap cs : List Char} {e : Located ScanError} {offset : Nat} (blank : Gap gap cs)
    (explains : e.value.Explains cs offset)
    (here : e.location = l.advance (gap ++ cs.take offset)) : Remainder l (gap ++ cs) (.error e)

namespace Scanner
variable {s s' : Scanner}

private theorem read_written {t : Located Token} (h : s.read = (.ok t, s'))
    (ne_eof : t.kind ≠ .eof) : t.value.Lexical ∧ t.location = s.location ∧
      s.rest = t.value.written ++ s'.rest ∧ s'.location = s.location.advance t.value.written := by
  revert h
  fun_cases read s with
  | case1 =>
    intro eq
    cases eq
    contradiction
  | case2 token length token_eq =>
    intro eq
    cases eq
    obtain ⟨lexical, rest, rest_eq, rfl⟩ := written_lexeme token_eq
    refine ⟨lexical, rfl, ?_, ?_⟩
    · simp [rest_eq]
    · simp [skip, rest_eq]
  | case3 =>
    intro eq
    cases eq

private theorem read_fault {e : Located ScanError} (h : s.read = (.error e, s'))
    (closed : Closed s.rest) :
    ∃ offset, e.value.Explains s.rest offset ∧
      e.location = s.location.advance (s.rest.take offset) := by
  revert h
  fun_cases read s with
  | case1 | case2 =>
    intro eq
    cases eq
  | case3 fault offset length fault_eq =>
    intro eq
    cases eq
    have ne_nil : s.rest ≠ [] := by
      intro nil
      simp [lexeme_eq_finished_iff.mpr nil] at fault_eq
    exact ⟨offset, explains_lexeme (closed ne_nil) fault_eq, rfl⟩

/-- What is skipped and what is left. -/
theorem exists_gap (s : Scanner) :
    ∃ gap, Gap gap s.skipGap.rest ∧ s.rest = gap ++ s.skipGap.rest ∧
      s.skipGap.location = s.location.advance gap :=
  ⟨_, gap_take_gapLength s.rest, (List.take_append_drop _ _).symm, rfl⟩

theorem remainder_of_error {e : Located ScanError} (h : s.next = (.error e, s'))
    (closed : Closed s.rest) : Remainder s.location s.rest (.error e) := by
  obtain ⟨gap, blank, rest_eq, here⟩ := s.exists_gap
  obtain ⟨offset, explains, place⟩ := read_fault h (rest_eq ▸ closed).of_append
  rw [rest_eq]
  refine .fault blank explains ?_
  rw [place, here, ← Location.advance_append]

theorem remainder_of_eof {l : Location} (h : s.next = (.ok (endToken l), s')) :
    Remainder s.location s.rest (.ok l) := by
  obtain ⟨gap, blank, rest_eq, here⟩ := s.exists_gap
  obtain ⟨end_eq, rfl, nil⟩ := read_eof h rfl
  rw [nil] at blank
  rw [nil, List.append_nil] at rest_eq
  obtain rfl : l = s.skipGap.stop := congrArg Located.location end_eq
  rw [stop, nil, here, rest_eq]
  exact .finished blank

/-- Where the answers of a scanner stand in what it reads. -/
theorem Reads.exists_layout {ts : List (Located Token)}
    {r : Except (Located ScanError) Location} (h : s.Reads ts r) (closed : Closed s.rest) :
    ∃ past rest, s.rest = past ++ rest ∧ Layout s.location ts past ∧
      Remainder (s.location.advance past) rest r := by
  induction h with
  | @fault s s' e read => exact ⟨[], s.rest, rfl, .nil, remainder_of_error read closed⟩
  | @finished s s' l read => exact ⟨[], s.rest, rfl, .nil, remainder_of_eof read⟩
  | @token s s' t ts r read ne_eof rest ih =>
    obtain ⟨gap, blank, rest_eq, here⟩ := s.exists_gap
    obtain ⟨lexical, place, written, here'⟩ := read_written read ne_eof
    rw [written] at blank
    rw [written, ← List.append_assoc] at rest_eq
    obtain ⟨past, more, more_eq, layout, ending⟩ := ih (rest_eq ▸ closed).of_append
    have start : s'.location = s.location.advance (gap ++ t.value.written) := by
      rw [here', here, Location.advance_append]
    rw [start] at layout ending
    rw [more_eq, ← List.append_assoc] at blank
    refine ⟨gap ++ t.value.written ++ past, more, by rw [rest_eq, more_eq]; simp,
      .cons blank.of_append (place.trans here) lexical layout, ?_⟩
    rwa [Location.advance_append]

end Scanner

/-! ## Whole sources -/

/-- The buffer of the source goes on as `cs` from the location `l` on. -/
def Ahead (source : String) (l : Location) (cs : List Char) : Prop :=
  ∃ before, terminated source.toList = before ++ cs ∧ l = Location.start.advance before

/-- A location is that of one place in the buffer. -/
theorem Ahead.eq {source : String} {l : Location} {cs ds : List Char} (h : Ahead source l cs)
    (h' : Ahead source l ds) : cs = ds := by
  obtain ⟨before, split, rfl⟩ := h
  obtain ⟨before', split', same⟩ := h'
  rw [split] at split'
  rcases List.append_eq_append_iff.mp split' with ⟨more, rfl, rfl⟩ | ⟨more, rfl, rfl⟩
  · rw [Location.advance_append] at same
    rw [Location.eq_nil_of_advance_eq same.symm, List.nil_append]
  · rw [Location.advance_append] at same
    rw [Location.eq_nil_of_advance_eq same, List.nil_append]

theorem closed_terminated (cs : List Char) : Closed (terminated cs) := by
  intro _
  unfold terminated
  split
  next last => exact last
  next => simp

/-- The buffer consists of the tokens in front of the first fault, and of what is left behind
them. -/
theorem exists_layout (source : String) :
    ∃ past rest, terminated source.toList = past ++ rest ∧
      Layout .start (leadingTokens source) past ∧
      Remainder (Location.start.advance past) rest (Scanner.ofSource source).ending :=
  (Scanner.ofSource source).reads_scan.exists_layout (closed_terminated _)

namespace Layout
variable {l : Location} {ts : List (Located Token)} {cs : List Char}

theorem lexical (h : Layout l ts cs) : ∀ t ∈ ts, t.value.Lexical := by
  induction h with
  | nil => simp
  | cons _ _ lexical _ ih => exact List.forall_mem_cons.mpr ⟨lexical, ih⟩

/-- A token is written where it stands. -/
theorem exists_split (h : Layout l ts cs) : ∀ t ∈ ts, ∃ before after,
    cs = before ++ (t.value.written ++ after) ∧ t.location = l.advance before := by
  induction h with
  | nil => simp
  | @cons l gap cs t ts _ here _ _ ih =>
    refine List.forall_mem_cons.mpr ⟨⟨gap, cs, by simp, here⟩, fun u mem => ?_⟩
    obtain ⟨before, after, rfl, place⟩ := ih u mem
    refine ⟨gap ++ t.value.written ++ before, after, by simp, ?_⟩
    rw [place, ← Location.advance_append]

end Layout

theorem lexical_leadingTokens (source : String) :
    ∀ t ∈ leadingTokens source, t.value.Lexical := by
  obtain ⟨_, _, _, layout, _⟩ := exists_layout source
  exact layout.lexical

theorem ahead_of_mem {source : String} {t : Located Token} (mem : t ∈ leadingTokens source) :
    ∃ rest, Ahead source t.location (t.value.written ++ rest) := by
  obtain ⟨past, rest, split, layout, _⟩ := exists_layout source
  obtain ⟨before, after, rfl, here⟩ := layout.exists_split t mem
  exact ⟨after ++ rest, before, by rw [split]; simp, here⟩

theorem ahead_endLocation (source : String) : Ahead source (endLocation source) [] :=
  ⟨_, (List.append_nil _).symm, rfl⟩

end MiniBasic
