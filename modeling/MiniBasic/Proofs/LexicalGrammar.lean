import MiniBasic.Proofs.Layout
import MiniBasic.Proofs.Spelling

/-!
# The lexical grammar

What a token may be written as is said by `IsLexeme`, without a word about reading. A text falls
into lexemes, each behind a gap and the longest one possible where it stands, in one way at most,
which is the relation `Lexed`. Scanning finds these lexemes: it succeeds if and only if the whole
buffer falls into lexemes (`tokens_are_longest_lexemes`).

The longest lexeme is not always what a scanner answers. In front of a point without a digit behind
it the digits are a number, and the scanner refuses them. But then nothing goes on from the point,
so the buffer does not fall into lexemes either.
-/

namespace MiniBasic

/-- The token is written as these characters. -/
inductive IsLexeme : List Char → Token → Prop
  | number {w : List Char} (numeral : IsNumeral w) : IsLexeme w ⟨.number, String.ofList w⟩
  | string {body : List Char} (legal : ∀ c ∈ body, isStringChar c) :
    IsLexeme ('"' :: (body ++ ['"'])) ⟨.string, String.ofList body⟩
  /-- A word that no keyword is spelled like. -/
  | ident {w : List Char} (word : IsWord w) (free : ∀ k : Keyword, k.spelling.toList ≠ w) :
    IsLexeme w ⟨.ident, String.ofList w⟩
  /-- A keyword, an operator or a newline. -/
  | fixed {k : Kind} {text : String} (spelling : k.spelling? = some text) :
    IsLexeme text.toList ⟨k, text⟩

/-- In front of `rest`, no lexeme is longer than `w`, which the token `t` is written as. -/
structure Longest (w rest : List Char) (t : Token) : Prop where
  isLexeme : IsLexeme w t
  longest : ∀ w' t', IsLexeme w' t' → w' <+: w ++ rest → w'.length ≤ w.length

/-- From the location `l` on the characters `cs` are the tokens `ts`, each behind a gap, and then
`rest`. -/
inductive Lexed : Location → List Char → List (Located Token) → List Char → Prop
  | nil {l : Location} {cs : List Char} : Lexed l cs [] cs
  | cons {l : Location} {gap w cs rest : List Char} {t : Located Token} {ts : List (Located Token)}
    (blank : Gap gap (w ++ cs)) (here : t.location = l.advance gap)
    (lexeme : Longest w cs t.value) (behind : Lexed (l.advance (gap ++ w)) cs ts rest) :
    Lexed l (gap ++ (w ++ cs)) (t :: ts) rest

/-! ## What is read in front of a lexeme -/

section
variable {cs w rest : List Char} {t : Token} {n : Nat}

theorem lexeme_of_isDigit (digit : (cs.headD ' ').isDigit) : lexeme cs = numberLexeme cs := by
  revert digit
  fun_cases lexeme cs with
  | case16 => exact fun _ => rfl
  | case17 c rest _ _ _ _ _ _ _ _ _ _ _ _ _ _ other => exact fun digit => absurd digit other
  | case18 c rest _ _ _ _ _ _ _ _ _ _ _ _ _ _ other => exact fun digit => absurd digit other
  | _ => exact fun digit => absurd digit Bool.false_ne_true

theorem lexeme_of_isAlpha (letter : (cs.headD ' ').isAlpha) : lexeme cs = wordLexeme cs := by
  revert letter
  fun_cases lexeme cs with
  | case16 c rest _ _ _ _ _ _ _ _ _ _ _ _ _ _ digit =>
    exact fun letter => absurd letter (not_isAlpha_of_isDigit digit)
  | case17 => exact fun _ => rfl
  | case18 c rest _ _ _ _ _ _ _ _ _ _ _ _ _ _ _ other => exact fun letter => absurd letter other
  | _ => exact fun letter => absurd letter Bool.false_ne_true

/-- Where the lexeme `w` of the token `t` stands in front of `rest`, this is read, or something
longer, or else there are digits with nothing but a point behind them. -/
def Lexeme.Covers (w rest : List Char) (t : Token) : Lexeme → Prop
  | token t' n => w.length ≤ n ∧ (n = w.length → t' = t)
  | fault _ _ _ => IsNumeral w ∧ (∀ c ∈ w, c.isDigit) ∧
    ∃ digits more, rest = digits ++ '.' :: more ∧ ∀ c ∈ digits, c.isDigit
  | finished => False

theorem covers_number (numeral : IsNumeral w) (rest : List Char) :
    (lexeme (w ++ rest)).Covers w rest ⟨.number, String.ofList w⟩ := by
  have digit : ((w ++ rest).headD ' ').isDigit := by
    obtain ⟨d, ds, rfl, digit, -⟩ := exists_digit_of_isNumeral numeral
    exact digit
  have split := List.takeWhile_append_dropWhile (p := Char.isDigit) (l := rest)
  rw [lexeme_of_isDigit digit]
  have whole_numeral := numeral
  obtain ⟨whole, fraction, rfl, whole_ne, whole_digits, fraction_digits⟩ := numeral
  unfold numberLexeme
  rcases fraction_digits with rfl | ⟨digits, rfl, digits_ne, digits_digits⟩
  · rw [List.append_nil] at whole_numeral ⊢
    simp only [List.takeWhile_append_of_pos whole_digits,
      List.dropWhile_append_of_pos whole_digits]
    split
    next more tail =>
      split
      next =>
        rw [tail] at split
        exact ⟨whole_numeral, whole_digits, _, more, split.symm,
          forall_mem_takeWhile Char.isDigit rest⟩
      next =>
        constructor
        · simp
        · intro same
          simp at same
    next =>
      constructor
      · simp
      · intro same
        have none : rest.takeWhile Char.isDigit = [] := by simpa using same
        simp [none]
  · have point : Char.isDigit '.' = false := by decide
    have goes_on : (digits ++ rest).takeWhile Char.isDigit =
        digits ++ rest.takeWhile Char.isDigit := List.takeWhile_append_of_pos digits_digits
    simp only [List.append_assoc, List.cons_append, List.takeWhile_append_of_pos whole_digits,
      List.dropWhile_append_of_pos whole_digits, List.takeWhile_cons, List.dropWhile_cons, point,
      Bool.false_eq_true, if_false, goes_on, List.append_nil]
    split
    next empty => simp [digits_ne] at empty
    next =>
      constructor
      · simp
      · intro same
        have none : rest.takeWhile Char.isDigit = [] := by simpa using same
        simp [none]

theorem covers_string {body : List Char} (legal : ∀ c ∈ body, isStringChar c) (rest : List Char) :
    (lexeme ('"' :: (body ++ ['"']) ++ rest)).Covers ('"' :: (body ++ ['"'])) rest
      ⟨.string, String.ofList body⟩ := by
  have quote : isStringChar '"' = false := by decide
  have read : lexeme ('"' :: (body ++ ['"']) ++ rest) =
      .token ⟨.string, String.ofList body⟩ (body.length + 2) := by
    simp [lexeme, stringLexeme, List.takeWhile_append_of_pos legal,
      List.dropWhile_append_of_pos legal, quote]
  rw [read]
  exact ⟨by simp, fun _ => rfl⟩

theorem wordKind_of_free (free : ∀ k : Keyword, k.spelling.toList ≠ w) :
    wordKind (String.ofList w) = .ident := by
  unfold wordKind
  split
  next k found =>
    have spelled := Keyword.spelling_of_ofSpelling? found
    exact absurd (by rw [spelled, String.toList_ofList]) (free k)
  next => rfl

theorem wordKind_spelling (k : Keyword) : wordKind k.spelling = .keyword k := by
  cases k <;> decide

theorem covers_word (word : IsWord w) (rest : List Char) :
    (lexeme (w ++ rest)).Covers w rest ⟨wordKind (String.ofList w), String.ofList w⟩ := by
  have letter : ((w ++ rest).headD ' ').isAlpha := by
    obtain ⟨c, cs, rfl, letter, -⟩ := word
    exact letter
  rw [lexeme_of_isAlpha letter]
  simp only [wordLexeme, List.takeWhile_append_of_pos word.isAlphanum]
  constructor
  · simp
  · intro same
    have none : rest.takeWhile Char.isAlphanum = [] := by simpa using same
    simp [none]

theorem isWord_spelling (k : Keyword) : IsWord k.spelling.toList := by
  cases k <;> decide

/-- An operator of one character is read, unless a `=` behind it makes it one of two. -/
theorem covers_char {c : Char} {u : Token}
    (alone : ∀ cs : List Char, cs.head? ≠ some '=' → lexeme (c :: cs) = .token t 1)
    (followed : ∀ cs, lexeme (c :: '=' :: cs) = .token u 2) (rest : List Char) :
    (lexeme ([c] ++ rest)).Covers [c] rest t := by
  by_cases next : rest.head? = some '='
  · obtain ⟨cs, rfl⟩ := List.head?_eq_some_iff.mp next
    have read : lexeme ([c] ++ '=' :: cs) = .token u 2 := followed cs
    rw [read]
    exact ⟨by simp, fun same => absurd same (by simp)⟩
  · have read : lexeme ([c] ++ rest) = .token t 1 := alone rest next
    rw [read]
    exact ⟨le_rfl, fun _ => rfl⟩

theorem lexeme_alone {cs : List Char} (other : cs.head? ≠ some '=') :
    lexeme ('=' :: cs) = .token ⟨.assign, "="⟩ 1 ∧
      lexeme ('<' :: cs) = .token ⟨.relation .less, "<"⟩ 1 ∧
      lexeme ('>' :: cs) = .token ⟨.relation .greater, ">"⟩ 1 := by
  cases cs with
  | nil => exact ⟨rfl, rfl, rfl⟩
  | cons d ds =>
    have ne : d ≠ '=' := fun same => other (congrArg some same)
    simp [lexeme, ne]

theorem covers_fixed {k : Kind} {text : String} (spelling : k.spelling? = some text)
    (rest : List Char) : (lexeme (text.toList ++ rest)).Covers text.toList rest ⟨k, text⟩ := by
  cases k with
  | eof | number | ident | string => cases spelling
  | newline | plus | minus | times | divide =>
    cases spelling
    exact ⟨le_rfl, fun _ => rfl⟩
  | keyword k =>
    cases spelling
    have covers := covers_word (isWord_spelling k) rest
    rwa [String.ofList_toList, wordKind_spelling] at covers
  | assign =>
    cases spelling
    exact covers_char (fun _ other => (lexeme_alone other).1) (fun _ => rfl) rest
  | relation r =>
    cases spelling
    cases r with
    | equal | notEqual | lessEqual | greaterEqual => exact ⟨le_rfl, fun _ => rfl⟩
    | less => exact covers_char (fun _ other => (lexeme_alone other).2.1) (fun _ => rfl) rest
    | greater => exact covers_char (fun _ other => (lexeme_alone other).2.2) (fun _ => rfl) rest

theorem IsLexeme.covers (h : IsLexeme w t) (rest : List Char) :
    (lexeme (w ++ rest)).Covers w rest t := by
  cases h with
  | number numeral => exact covers_number numeral rest
  | string legal => exact covers_string legal rest
  | ident word free =>
    have covers := covers_word word rest
    rwa [wordKind_of_free free] at covers
  | fixed spelling => exact covers_fixed spelling rest

/-! ## What is read is the longest lexeme -/

theorem ne_spelling_of_ident (h : lexeme (w ++ rest) = .token ⟨.ident, String.ofList w⟩ w.length)
    (k : Keyword) : k.spelling.toList ≠ w := by
  rintro rfl
  have covers := covers_word (isWord_spelling k) rest
  rw [h, String.ofList_toList, wordKind_spelling] at covers
  cases covers.2 rfl

theorem exists_isLexeme (h : lexeme cs = .token t n) :
    ∃ w rest, cs = w ++ rest ∧ n = w.length ∧ IsLexeme w t := by
  obtain ⟨lexical, rest, rfl, rfl⟩ := written_lexeme h
  have spelled := lexeme_token_spelled h
  refine ⟨t.written, rest, rfl, rfl, ?_⟩
  obtain ⟨kind, text⟩ := t
  cases kind with
  | eof => exact absurd rfl spelled.ne_eof
  | number => simpa [Token.written] using IsLexeme.number (lexical.number rfl)
  | string => simpa [Token.written] using IsLexeme.string (lexical.string rfl)
  | ident =>
    have written : (⟨.ident, text⟩ : Token).written = text.toList := rfl
    rw [written] at h ⊢
    have free := ne_spelling_of_ident (w := text.toList) (by rwa [String.ofList_toList])
    simpa using IsLexeme.ident (lexical.ident rfl) free
  | newline | keyword | assign | plus | minus | times | divide | relation =>
    obtain rfl := spelled.text_eq _ rfl
    exact .fixed rfl

theorem exists_longest (h : lexeme cs = .token t n) :
    ∃ w rest, cs = w ++ rest ∧ n = w.length ∧ Longest w rest t := by
  obtain ⟨w, rest, rfl, rfl, isLexeme⟩ := exists_isLexeme h
  refine ⟨w, rest, rfl, rfl, isLexeme, fun w' t' isLexeme' fits => ?_⟩
  obtain ⟨rest', same⟩ := fits
  have covers := isLexeme'.covers rest'
  rw [same, h] at covers
  exact covers.1

theorem Longest.lexeme_eq (h : Longest w rest t) (no_point : ∀ more, rest ≠ '.' :: more) :
    lexeme (w ++ rest) = .token t w.length := by
  have covers := h.isLexeme.covers rest
  cases read : lexeme (w ++ rest) with
  | finished =>
    rw [read] at covers
    exact covers.elim
  | token t' n =>
    rw [read] at covers
    obtain ⟨le, same⟩ := covers
    obtain ⟨w', rest', split, rfl, isLexeme'⟩ := exists_isLexeme read
    have ge := h.longest w' t' isLexeme' ⟨rest', split.symm⟩
    have length_eq := le_antisymm ge le
    rw [same length_eq, length_eq]
  | fault e offset n =>
    rw [read] at covers
    obtain ⟨numeral, w_digits, digits, more, rfl, digits_digits⟩ := covers
    have longer : IsNumeral (w ++ digits) := by
      obtain ⟨d, ds, rfl, -, -⟩ := exists_digit_of_isNumeral numeral
      exact ⟨d :: ds ++ digits, [], by simp, by simp,
        List.forall_mem_append.mpr ⟨w_digits, digits_digits⟩, .inl rfl⟩
    have le := h.longest _ _ (.number longer) ⟨'.' :: more, List.append_assoc ..⟩
    rw [List.length_append] at le
    obtain rfl : digits = [] := List.length_eq_zero_iff.mp (by omega)
    exact absurd rfl (no_point more)

end

/-! ## Gaps -/

theorem Closed.eq_nil {cs : List Char} (h : Closed cs) (no_newline : '\n' ∉ cs) : cs = [] := by
  by_contra ne_nil
  exact no_newline (List.mem_of_getLast? (h ne_nil))

section
variable {gap cs w : List Char} {t : Token}

theorem Gap.nil (cs : List Char) : Gap [] cs := ⟨[], [], rfl, nofun, .inl rfl⟩

theorem Gap.head {c : Char} (h : Gap (c :: gap) cs) : isGap c ∨ c = '#' := by
  obtain ⟨blanks, comment, eq, blank, text⟩ := h
  cases blanks with
  | cons b blanks =>
    obtain ⟨rfl, -⟩ := List.cons.inj eq
    exact .inl (blank c List.mem_cons_self)
  | nil =>
    rcases text with rfl | ⟨text, rfl, -, -⟩
    · cases eq
    · exact .inr (List.cons.inj eq).1

theorem Gap.not_mem_newline (h : Gap gap cs) : '\n' ∉ gap := by
  obtain ⟨blanks, comment, rfl, blank, text⟩ := h
  intro mem
  rcases List.mem_append.mp mem with mem | mem
  · exact absurd (blank _ mem) (by decide)
  · rcases text with rfl | ⟨text, rfl, no_newline, -⟩
    · cases mem
    · exact no_newline (by simpa using mem)

/-- No lexeme begins like a gap, or with a point. -/
theorem IsLexeme.head (h : IsLexeme w t) :
    ∃ c cs, w = c :: cs ∧ isGap c = false ∧ c ≠ '#' ∧ c ≠ '.' := by
  have other {c : Char} (own : c.isAlphanum) : isGap c = false ∧ c ≠ '#' ∧ c ≠ '.' := by
    refine ⟨Bool.eq_false_iff.mpr fun gap => ?_, ?_, ?_⟩
    · simp only [isGap, Bool.or_eq_true, decide_eq_true_eq] at gap
      rcases gap with (rfl | rfl) | rfl <;> cases own
    · rintro rfl
      cases own
    · rintro rfl
      cases own
  have word (h : IsWord w) : ∃ c cs, w = c :: cs ∧ isGap c = false ∧ c ≠ '#' ∧ c ≠ '.' := by
    obtain ⟨c, cs, rfl, letter, -⟩ := h
    exact ⟨c, cs, rfl, other (by simp [Char.isAlphanum, letter])⟩
  cases h with
  | number numeral =>
    obtain ⟨d, ds, rfl, digit, -⟩ := exists_digit_of_isNumeral numeral
    exact ⟨d, ds, rfl, other (by simp [Char.isAlphanum, digit])⟩
  | string legal => exact ⟨_, _, rfl, by decide⟩
  | ident h => exact word h
  | @fixed k text spelling =>
    cases k with
    | eof | number | ident | string => cases spelling
    | keyword k =>
      cases spelling
      exact word (isWord_spelling k)
    | newline | assign | plus | minus | times | divide =>
      cases spelling
      exact ⟨_, _, rfl, by decide⟩
    | relation r =>
      cases spelling
      cases r <;> exact ⟨_, _, rfl, by decide⟩

theorem IsLexeme.ne_eof (h : IsLexeme w t) : t.kind ≠ .eof := by
  cases h with
  | fixed spelling =>
    rintro rfl
    cases spelling
  | _ => nofun

theorem gapLength_append (blank : Gap gap cs) (head : ∀ c ∈ cs.head?, isGap c = false ∧ c ≠ '#') :
    gapLength (gap ++ cs) = gap.length := by
  obtain ⟨blanks, comment, rfl, blank, text⟩ := blank
  unfold gapLength
  simp only [List.append_assoc, List.takeWhile_append_of_pos blank,
    List.dropWhile_append_of_pos blank]
  rcases text with rfl | ⟨text, rfl, no_newline, next⟩
  · cases cs with
    | nil => simp
    | cons c cs =>
      obtain ⟨not_gap, not_comment⟩ := head c rfl
      simp [not_gap, not_comment]
  · have sharp : isGap '#' = false := by decide
    have taken : (text ++ cs).takeWhile (· ≠ '\n') = text := by
      rw [List.takeWhile_append_of_pos fun c mem => ?_]
      · cases cs with
        | nil => simp
        | cons c cs => simp [next c rfl]
      · rw [decide_eq_true_eq]
        rintro rfl
        exact no_newline mem
    simp only [List.cons_append, List.takeWhile_cons, List.dropWhile_cons, sharp,
      Bool.false_eq_true, if_false, taken]
    simp

/-- A token is written as its lexeme. -/
theorem IsLexeme.written_eq (h : IsLexeme w t) : t.written = w := by
  cases h with
  | string legal => simp [Token.written]
  | number | ident => exact String.toList_ofList
  | @fixed k text spelling =>
    refine if_neg fun string : k = .string => ?_
    subst string
    cases spelling

/-- The only lexeme with a newline is the newline. -/
theorem IsLexeme.newline_or (h : IsLexeme w t) :
    w = ['\n'] ∧ t = .newline ∨ '\n' ∉ w ∧ t.kind ≠ .newline := by
  cases h with
  | number numeral => exact .inr ⟨numeral.not_mem (by decide) (by decide), nofun⟩
  | @string body legal =>
    have body_line : '\n' ∉ body := fun mem => absurd (legal _ mem) (by decide)
    exact .inr ⟨by simp [body_line], nofun⟩
  | ident word => exact .inr ⟨word.not_mem (by decide), nofun⟩
  | @fixed k text spelling =>
    cases k with
    | eof | number | ident | string => cases spelling
    | newline =>
      cases spelling
      exact .inl ⟨rfl, rfl⟩
    | keyword k =>
      cases spelling
      exact .inr ⟨(isWord_spelling k).not_mem (by decide), nofun⟩
    | assign | plus | minus | times | divide =>
      cases spelling
      exact .inr (by decide)
    | relation r =>
      cases spelling
      cases r <;> exact .inr (by decide)

/-- A lexeme is the longest one in front of a character that no lexeme goes on with behind it. -/
theorem IsLexeme.longest_of_not_beyond (h : IsLexeme w t) {c : Char}
    (stops : ∀ w' t', IsLexeme w' t' → ¬w ++ [c] <+: w') (rest : List Char) :
    Longest w (c :: rest) t := by
  refine ⟨h, fun w' t' isLexeme' fits => ?_⟩
  by_contra longer
  apply stops w' t' isLexeme'
  refine List.prefix_of_prefix_length_le ⟨rest, by simp⟩ fits ?_
  simpa using Nat.succ_le_of_lt (Nat.lt_of_not_le longer)

/-- No lexeme goes on beyond the end of its line. -/
theorem IsLexeme.longest_newline (h : IsLexeme w t) (rest : List Char) :
    Longest w ('\n' :: rest) t := by
  obtain ⟨c, w_tail, w_eq, -⟩ := h.head
  refine h.longest_of_not_beyond (fun w' t' isLexeme' beyond => ?_) rest
  rcases isLexeme'.newline_or with ⟨rfl, -⟩ | ⟨not_mem, -⟩
  · simpa [w_eq] using beyond.length_le
  · exact not_mem (beyond.subset (by simp))

end

/-! ## Scanning -/

namespace Scanner

section
variable {s s' : Scanner}

theorem Reads.unique {ts ts' : List (Located Token)} {r r' : Except (Located ScanError) Location}
    (h : s.Reads ts r) (h' : s.Reads ts' r') : ts = ts' ∧ r = r' := by
  induction h generalizing ts' with
  | fault read =>
    cases h' with
    | fault read' =>
      cases read.symm.trans read'
      exact ⟨rfl, rfl⟩
    | finished read' | token read' => cases read.symm.trans read'
  | finished read =>
    cases h' with
    | fault read' => cases read.symm.trans read'
    | finished read' =>
      cases read.symm.trans read'
      exact ⟨rfl, rfl⟩
    | token read' ne_eof =>
      cases read.symm.trans read'
      exact absurd rfl ne_eof
  | token read ne_eof _ ih =>
    cases h' with
    | fault read' => cases read.symm.trans read'
    | finished read' =>
      cases read.symm.trans read'
      exact absurd rfl ne_eof
    | token read' _ rest' =>
      cases read.symm.trans read'
      obtain ⟨rfl, rfl⟩ := ih rest'
      exact ⟨rfl, rfl⟩

theorem Reads.eq_stop {ts : List (Located Token)} {l : Location} (h : s.Reads ts (.ok l)) :
    l = s.stop := by
  obtain ⟨-, ok⟩ := h.unique s.reads_scan
  unfold ending at ok
  split at ok
  next => cases ok
  next => exact Except.ok.inj ok

/-- The token that is read is the longest lexeme behind the gap. -/
theorem exists_longest_of_next {t : Located Token} (h : s.next = (.ok t, s'))
    (ne_eof : t.kind ≠ .eof) : ∃ gap w, s.rest = gap ++ (w ++ s'.rest) ∧
      Gap gap (w ++ s'.rest) ∧ Longest w s'.rest t.value ∧ t.location = s.location.advance gap ∧
      s'.location = s.location.advance (gap ++ w) := by
  obtain ⟨gap, blank, rest_eq, here⟩ := s.exists_gap
  unfold next at h
  revert h
  fun_cases read s.skipGap with
  | case1 =>
    intro eq
    cases eq
    contradiction
  | case2 token length token_eq =>
    intro eq
    cases eq
    obtain ⟨w, rest, ahead, rfl, longest⟩ := exists_longest token_eq
    have behind : (s.skipGap.skip w.length).rest = rest := by simp [ahead]
    have place : (s.skipGap.skip w.length).location = s.location.advance (gap ++ w) := by
      rw [Location.advance_append, ← here]
      simp [skip, ahead]
    rw [behind]
    rw [ahead] at blank rest_eq
    exact ⟨gap, w, rest_eq, blank, longest, here, place⟩
  | case3 =>
    intro eq
    cases eq

/-- The longest lexeme behind the gap is read, unless it is a number that a point is left of. -/
theorem next_of_longest {gap w rest : List Char} {t : Token} (rest_eq : s.rest = gap ++ (w ++ rest))
    (blank : Gap gap (w ++ rest)) (longest : Longest w rest t)
    (no_point : ∀ more, rest ≠ '.' :: more) :
    ∃ s', s.next = (.ok ⟨s.location.advance gap, t⟩, s') ∧ s'.rest = rest ∧
      s'.location = s.location.advance (gap ++ w) := by
  have skipped : gapLength s.rest = gap.length := by
    rw [rest_eq]
    refine gapLength_append blank fun c head => ?_
    obtain ⟨d, ds, rfl, not_gap, not_comment, -⟩ := longest.isLexeme.head
    cases head
    exact ⟨not_gap, not_comment⟩
  have ahead : s.skipGap.rest = w ++ rest := by
    rw [skipGap, skip_rest, skipped, rest_eq, List.drop_left]
  have here : s.skipGap.location = s.location.advance gap := by
    change s.location.advance (s.rest.take (gapLength s.rest)) = s.location.advance gap
    rw [skipped, rest_eq, List.take_left]
  refine ⟨s.skipGap.skip w.length, ?_, by simp [ahead], ?_⟩
  · rw [next, read, ahead, longest.lexeme_eq no_point]
    simp only [here]
  · rw [Location.advance_append, ← here]
    simp [skip, ahead]

/-- What is read falls into lexemes, up to a gap in front of the fault or of the end. -/
theorem Reads.exists_lexed {ts : List (Located Token)} {r : Except (Located ScanError) Location}
    (h : s.Reads ts r) (closed : Closed s.rest) :
    ∃ past rest, s.rest = past ++ rest ∧ Lexed s.location s.rest ts rest ∧
      Remainder (s.location.advance past) rest r := by
  induction h with
  | @fault s s' e read => exact ⟨[], s.rest, rfl, .nil, remainder_of_error read closed⟩
  | @finished s s' l read => exact ⟨[], s.rest, rfl, .nil, remainder_of_eof read⟩
  | @token s s' t ts r read ne_eof rest ih =>
    obtain ⟨gap, w, rest_eq, blank, longest, here, place⟩ := exists_longest_of_next read ne_eof
    rw [rest_eq, ← List.append_assoc] at closed
    obtain ⟨past, more, more_eq, lexed, remainder⟩ := ih closed.of_append
    rw [place] at lexed remainder
    refine ⟨gap ++ w ++ past, more, by rw [rest_eq, more_eq]; simp, ?_, ?_⟩
    · rw [rest_eq]
      exact .cons blank here longest lexed
    · rwa [Location.advance_append]

end

end Scanner

/-! ## Texts that fall into lexemes -/

namespace Lexed
variable {l : Location} {cs rest : List Char} {ts : List (Located Token)}

theorem eq_nil (h : Lexed l [] ts rest) : ts = [] := by
  generalize eq : ([] : List Char) = cs at h
  cases h with
  | nil => rfl
  | cons _ _ longest =>
    obtain ⟨c, w, rfl, -⟩ := longest.isLexeme.head
    simp at eq

theorem no_point (h : Lexed l cs ts []) : ∀ more, cs ≠ '.' :: more := by
  rintro more rfl
  generalize eq : '.' :: more = cs at h
  cases h with
  | nil => cases eq
  | @cons _ gap w _ _ _ _ blank _ longest =>
    cases gap with
    | nil =>
      obtain ⟨c, w', rfl, -, -, not_point⟩ := longest.isLexeme.head
      exact not_point (List.cons.inj eq).1.symm
    | cons c gap =>
      obtain rfl := (List.cons.inj eq).1
      exact absurd blank.head (by decide)

/-- A text that falls into lexemes is read to its end. -/
theorem reads (h : Lexed l cs ts []) {s : Scanner} (rest_eq : s.rest = cs)
    (here : s.location = l) : s.Reads ts (.ok s.stop) := by
  generalize nil : ([] : List Char) = rest at h
  induction h generalizing s with
  | nil =>
    subst nil
    have read := Scanner.next_of_rest_eq_nil rest_eq
    exact .finished read read
  | @cons l gap w cs rest t ts blank place longest behind ih =>
    subst nil here
    obtain ⟨s', read, rest_eq', here'⟩ :=
      Scanner.next_of_longest rest_eq blank longest behind.no_point
    rw [← place] at read
    have ne_eof : t.kind ≠ .eof := longest.isLexeme.ne_eof
    have stop_eq := (Scanner.next_token read ne_eof).2.2
    rw [← stop_eq]
    exact .token read ne_eof (ih rest_eq' here' rfl)

/-- There is a newline token for each newline. -/
theorem countP_newline (h : Lexed l cs ts rest) :
    ts.countP (·.kind = .newline) + rest.count '\n' = cs.count '\n' := by
  induction h with
  | nil => simp
  | @cons l gap w cs rest t ts blank _ longest _ ih =>
    have none := List.count_eq_zero.mpr blank.not_mem_newline
    simp only [List.countP_cons, List.count_append, decide_eq_true_eq, none]
    rcases longest.isLexeme.newline_or with ⟨rfl, newline⟩ | ⟨not_mem, other⟩
    · have one : t.kind = .newline := congrArg Token.kind newline
      simp only [one, if_true, List.count_singleton_self]
      omega
    · simp only [other, if_false, List.count_eq_zero.mpr not_mem]
      omega

/-- A text that ends with a newline has that newline as its last token. -/
theorem exists_last (h : Lexed l cs ts []) (ne_nil : cs ≠ []) (closed : Closed cs) :
    ∃ front last, ts = front ++ [last] ∧ last.value = .newline ∧
      last.location.next '\n' = l.advance cs := by
  generalize nil : ([] : List Char) = rest at h
  induction h with
  | nil => exact absurd nil.symm ne_nil
  | @cons l gap w cs rest t ts blank here longest behind ih =>
    subst nil
    have closed' : Closed (w ++ cs) := closed.of_append
    rcases eq_or_ne cs [] with rfl | more
    · have last : (gap ++ (w ++ [])).getLast? = some '\n' := closed ne_nil
      have w_ne : w ≠ [] := by
        obtain ⟨c, cs, rfl, -⟩ := longest.isLexeme.head
        exact List.cons_ne_nil c cs
      have mem : '\n' ∈ w := by
        rw [List.append_nil] at closed'
        exact List.mem_of_getLast? (closed' w_ne)
      rcases longest.isLexeme.newline_or with ⟨rfl, newline⟩ | ⟨not_mem, -⟩
      · obtain rfl := behind.eq_nil
        refine ⟨[], t, rfl, newline, ?_⟩
        rw [here, List.append_nil, Location.advance_append]
        rfl
      · exact absurd mem not_mem
    · obtain ⟨front, last, rfl, newline, place⟩ := ih more closed'.of_append rfl
      refine ⟨t :: front, last, rfl, newline, ?_⟩
      rw [place, ← Location.advance_append, List.append_assoc]

/-- A lexeme that ends a text together with a newline. -/
theorem line {gap w : List Char} {t : Token} (blank : Gap gap (w ++ ['\n'])) (h : IsLexeme w t)
    (l : Location) : Lexed l (gap ++ (w ++ ['\n']))
      [⟨l.advance gap, t⟩, ⟨l.advance (gap ++ w), .newline⟩] [] := by
  have newline : Longest ['\n'] [] .newline :=
    ⟨.fixed (k := .newline) rfl, fun _ _ _ fits => fits.length_le⟩
  have behind : Lexed (l.advance (gap ++ w)) ['\n'] [⟨l.advance (gap ++ w), .newline⟩] [] :=
    @cons _ [] ['\n'] [] [] _ _ (Gap.nil _) rfl newline .nil
  exact .cons blank rfl (h.longest_newline []) behind

end Lexed

theorem terminated_of_not_mem {cs : List Char} (no_newline : '\n' ∉ cs) :
    terminated cs = cs ++ ['\n'] :=
  if_neg fun last => no_newline (List.mem_of_getLast? last)

theorem terminated_ne_nil (cs : List Char) : terminated cs ≠ [] := by
  unfold terminated
  split
  next last =>
    rintro rfl
    cases last
  next => simp

theorem tokensOf_eq_of_reads {source : String} {ts : List (Located Token)}
    {r : Except (Located ScanError) Location} (h : (Scanner.ofSource source).Reads ts r) :
    tokensOf source = r.map fun _ => ts := by
  obtain ⟨rfl, rfl⟩ := h.unique (Scanner.ofSource source).reads_scan
  unfold tokensOf Scanner.ending
  cases fault : (Scanner.ofSource source).scan.fault <;> simp [fault, Except.map]

/-- Scanning finds the longest lexemes that the whole buffer falls into. The last of them is the
newline at the end. -/
theorem tokensOf_eq_ok_iff_lexed {source : String} {ts : List (Located Token)} :
    tokensOf source = .ok ts ↔ Lexed .start (terminated source.toList) ts [] := by
  constructor
  · intro ok
    have closed : Closed (terminated source.toList) := closed_terminated _
    obtain ⟨past, rest, split, lexed, remainder⟩ := (reads_of_tokensOf_ok ok).exists_lexed closed
    generalize endLocation source = l at remainder
    cases remainder with
    | finished blank =>
      rw [show (Scanner.ofSource source).rest = terminated source.toList from rfl] at split lexed
      rw [split] at closed
      rwa [closed.of_append.eq_nil blank.not_mem_newline] at lexed
  · exact fun lexed => tokensOf_eq_of_reads (lexed.reads rfl rfl)

/-- Scanning succeeds if and only if the whole buffer falls into lexemes, each behind a gap and the
longest one possible, and these are the tokens. There is one for each newline, and the last is the
newline at the end of the buffer. Otherwise the tokens in front of the fault are such lexemes, and
what stands behind them and a gap explains the fault. -/
theorem tokens_are_longest_lexemes (source : String) :
    (∀ ts, tokensOf source = .ok ts ↔ Lexed .start (terminated source.toList) ts []) ∧
    (∀ ts, tokensOf source = .ok ts →
      ts.countP (·.kind = .newline) = (terminated source.toList).count '\n' ∧
      ∃ front last, ts = front ++ [last] ∧ last.value = .newline ∧
        last.location.next '\n' = endLocation source) ∧
    ((∃ e, tokensOf source = .error e) ↔
      ¬∃ ts, Lexed .start (terminated source.toList) ts []) ∧
    ∀ e, tokensOf source = .error e → ∃ past gap cs offset,
      terminated source.toList = past ++ (gap ++ cs) ∧
      Lexed .start (terminated source.toList) (leadingTokens source) (gap ++ cs) ∧ Gap gap cs ∧
      e.value.Explains cs offset ∧
      e.location = Location.start.advance (past ++ gap ++ cs.take offset) := by
  have closed : Closed (terminated source.toList) := closed_terminated _
  refine ⟨fun ts => tokensOf_eq_ok_iff_lexed, fun ts ok => ?_, ?_, fun e error => ?_⟩
  · have lexed := tokensOf_eq_ok_iff_lexed.mp ok
    exact ⟨lexed.countP_newline, lexed.exists_last (terminated_ne_nil _) closed⟩
  · simp only [← tokensOf_eq_ok_iff_lexed]
    cases tokensOf source <;> simp
  · obtain ⟨past, rest, split, lexed, remainder⟩ :=
      (reads_of_tokensOf_error error).exists_lexed closed
    cases remainder with
    | @fault gap cs e offset blank explains here =>
      refine ⟨past, gap, cs, offset, split, lexed, blank, explains, ?_⟩
      rw [here, ← Location.advance_append, List.append_assoc]
      rfl

end MiniBasic
