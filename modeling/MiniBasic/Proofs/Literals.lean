import MiniBasic.Proofs.Arithmetic
import MiniBasic.Proofs.LexicalGrammar

/-!
# Literals

Numbers are decimal in the language, and C gets them as they are written. There, digits without a
point that start with a zero are octal: they are no constant at all if one of them is an eight or a
nine, and otherwise a smaller number as soon as more than the last of them counts. So C gives a
literal its value if and only if it has a point, or no leading zero, or a value below eight
(`literals_keep_value_iff`).
-/

namespace MiniBasic

/-! ## Digits in two bases -/

/-- Octal digits are the same number in both bases as long as it is below eight, and from then on
less in base eight. -/
theorem foldl_octal_lt {cs : List Char} (octal : ∀ c ∈ cs, c < '8') {m n : ℕ}
    (h : m = n ∧ n < 8 ∨ m < n) :
    let inEight := cs.foldl (fun n c => 8 * n + (c.toNat - '0'.toNat)) m
    let inTen := cs.foldl (fun n c => 10 * n + (c.toNat - '0'.toNat)) n
    inEight = inTen ∧ inTen < 8 ∨ inEight < inTen := by
  induction cs generalizing m n with
  | nil => exact h
  | cons c cs ih =>
    obtain ⟨low, others⟩ := List.forall_mem_cons.mp octal
    have digit : c.toNat - '0'.toNat < 8 := by
      have zero : '0'.toNat = 48 := rfl
      have eight : '8'.toNat = 56 := rfl
      have : c.toNat < '8'.toNat := low
      omega
    refine ih others ?_
    simp only
    omega

theorem digitsValue_octal_lt {cs : List Char} (octal : ∀ c ∈ cs, c < '8')
    (large : 8 ≤ digitsValue 10 cs) : digitsValue 8 cs < digitsValue 10 cs := by
  rcases foldl_octal_lt octal (m := 0) (n := 0) (.inl ⟨rfl, by decide⟩) with ⟨-, small⟩ | lt
  · exact absurd small (Nat.not_lt.mpr large)
  · exact lt

/-! ## Constants -/

/-- No constant has an eight or a nine behind a leading zero, unless it has a point. -/
def OutOfOctal (text : String) : Prop :=
  '.' ∉ text.toList ∧ text.toList.head? = some '0' ∧ ∃ c ∈ text.toList, '8' ≤ c

section
variable {text : String} {ds : List Char}

/-- What C makes of digits behind a leading zero. -/
theorem constant_of_zero (eq : text.toList = '0' :: ds) (digits : ∀ c ∈ ds, c.isDigit) :
    C.constant? text =
      if ds.all (· < '8') then some (.int (digitsValue 8 ds)) else none := by
  have all_digits : ∀ c ∈ '0' :: ds, c.isDigit := List.forall_mem_cons.mpr ⟨rfl, digits⟩
  simp [C.constant?, eq, List.takeWhile_eq_self_iff.mpr all_digits,
    List.dropWhile_eq_nil_iff.mpr all_digits]

/-- A literal that C could read as another number is such digits, and its value is theirs. -/
theorem exists_digits_of_not_readsAlike (numeral : IsNumeral text.toList)
    (not_alike : ¬ReadsAlike text) : ∃ ds, text.toList = '0' :: ds ∧ (∀ c ∈ ds, c.isDigit) ∧
      literalValue text = digitsValue 10 ds ∧ 8 ≤ digitsValue 10 ds := by
  obtain ⟨no_point, head, large⟩ : '.' ∉ text.toList ∧ text.toList.head? = some '0' ∧
      8 ≤ literalValue text := by
    simpa [ReadsAlike] using not_alike
  obtain ⟨ds, eq⟩ := List.head?_eq_some_iff.mp head
  have digits : ∀ c ∈ text.toList, c.isDigit := by
    intro c mem
    by_contra not_digit
    exact numeral.not_mem (Bool.eq_false_iff.mpr not_digit)
      (fun point => no_point (point ▸ mem)) mem
  have value : literalValue text = digitsValue 10 ds := by
    rw [literalValue_of_whole digits, eq]
    rfl
  rw [eq] at digits
  exact ⟨ds, eq, (List.forall_mem_cons.mp digits).2, value, by exact_mod_cast value ▸ large⟩

/-- C gives the literal its value. -/
theorem constant_eq_literalValue_iff (numeral : IsNumeral text.toList) :
    (∃ v, C.constant? text = some v ∧ v.toRat = literalValue text) ↔ ReadsAlike text := by
  constructor
  · rintro ⟨v, constant, value⟩
    by_contra not_alike
    obtain ⟨ds, eq, digits, decimal, large⟩ := exists_digits_of_not_readsAlike numeral not_alike
    rw [constant_of_zero eq digits] at constant
    split at constant
    next octal =>
      cases constant
      have lt := digitsValue_octal_lt (by simpa using octal) large
      have same : digitsValue 8 ds = digitsValue 10 ds := by
        rw [decimal] at value
        simpa [C.Value.toRat] using value
      omega
    next => cases constant
  · exact fun alike => constant_agrees numeral alike fun _ => 0

theorem constant_eq_none_iff (numeral : IsNumeral text.toList) :
    C.constant? text = none ↔ OutOfOctal text := by
  constructor
  · intro none_
    have not_alike : ¬ReadsAlike text := by
      intro alike
      obtain ⟨v, constant, -⟩ := constant_agrees numeral alike fun _ => 0
      cases none_.symm.trans constant
    obtain ⟨ds, eq, digits, -⟩ := exists_digits_of_not_readsAlike numeral not_alike
    have no_point : '.' ∉ text.toList := fun point => not_alike (.inl point)
    rw [constant_of_zero eq digits] at none_
    split at none_
    next => cases none_
    next not_octal =>
      obtain ⟨c, mem, high⟩ : ∃ c ∈ ds, '8' ≤ c := by simpa using not_octal
      exact ⟨no_point, by rw [eq]; rfl, c, eq ▸ List.mem_cons_of_mem _ mem, high⟩
  · rintro ⟨no_point, head, c, mem, high⟩
    obtain ⟨ds, eq⟩ := List.head?_eq_some_iff.mp head
    rw [eq] at mem no_point numeral
    have digits : ∀ c ∈ ds, c.isDigit := by
      intro d mem
      by_contra not_digit
      exact numeral.not_mem (Bool.eq_false_iff.mpr not_digit)
        (fun point => no_point (point ▸ List.mem_cons_of_mem _ mem)) (List.mem_cons_of_mem _ mem)
    rw [constant_of_zero eq digits, if_neg]
    intro octal
    rcases List.mem_cons.mp mem with rfl | mem
    · exact absurd high (by decide)
    · exact absurd (of_decide_eq_true (List.all_eq_true.mp octal c mem)) (Char.not_lt.mpr high)

end

/-! ## Tokens -/

/-- A numeral by itself is a source whose first token it is. -/
theorem exists_number_of_isNumeral {text : String} (numeral : IsNumeral text.toList) :
    ∃ t ∈ leadingTokens text, t.value = ⟨.number, text⟩ := by
  have no_newline : '\n' ∉ text.toList := numeral.not_mem (by decide) (by decide)
  have isLexeme := IsLexeme.number numeral
  rw [String.ofList_toList] at isLexeme
  have lexed := Lexed.line (Gap.nil _) isLexeme .start
  rw [List.nil_append, ← terminated_of_not_mem no_newline, ← tokensOf_eq_ok_iff_lexed] at lexed
  rw [leadingTokens_of_tokensOf_ok lexed]
  exact ⟨_, List.mem_cons_self, rfl⟩

/-- The tokens that are numbers are the numerals, and an operand is emitted as it is written. To C
it is a constant of the same value if and only if it has a point, no leading zero or a value below
eight, and it is none if there is an eight or a nine behind a leading zero. -/
theorem literals_keep_value_iff (text : String) :
    (IsNumeral text.toList ↔
      ∃ source, ∃ t ∈ leadingTokens source, t.value = ⟨.number, text⟩) ∧
    ∀ source, ∀ t ∈ leadingTokens source, t.value = ⟨.number, text⟩ →
      (∀ names, Goal.primary.meet t names = .take [.enter (.primary text), .fragment text] []) ∧
      ((∃ v, C.constant? text = some v ∧ v.toRat = literalValue text) ↔ ReadsAlike text) ∧
      (C.constant? text = none ↔ OutOfOctal text) := by
  have numeral_of {source : String} {t : Located Token} (mem : t ∈ leadingTokens source)
      (number : t.value = ⟨.number, text⟩) : IsNumeral text.toList := by
    have text_eq : t.text = text := congrArg Token.text number
    exact text_eq ▸ (lexical_leadingTokens source t mem).number (congrArg Token.kind number)
  refine ⟨⟨fun numeral => ⟨text, exists_number_of_isNumeral numeral⟩,
    fun ⟨source, t, mem, number⟩ => numeral_of mem number⟩, fun source t mem number => ?_⟩
  have numeral := numeral_of mem number
  refine ⟨fun names => ?_, constant_eq_literalValue_iff numeral, constant_eq_none_iff numeral⟩
  have kind : t.kind = .number := congrArg Token.kind number
  have text_eq : t.text = text := congrArg Token.text number
  simp [Goal.meet, Meeting.primary, kind, text_eq]

/-- Zeros in front do not matter to a literal with a point. -/
theorem zero_in_front_of_point :
    let t : Located Token := ⟨⟨1, 9⟩, ⟨.number, "010.50"⟩⟩
    t ∈ leadingTokens "LET x = 010.50\n" ∧ IsNumeral "010.50".toList ∧
      ∃ v, C.constant? "010.50" = some v ∧ v.toRat = 21 / 2 := by
  intro t
  have mem : t ∈ leadingTokens "LET x = 010.50\n" := by decide +kernel
  obtain ⟨numeral_iff, emitted⟩ := literals_keep_value_iff "010.50"
  obtain ⟨-, kept, -⟩ := emitted _ t mem rfl
  obtain ⟨v, constant, value⟩ := kept.mpr (.inl (by decide))
  have decimal : literalValue "010.50" = 21 / 2 := by decide +kernel
  exact ⟨mem, numeral_iff.mpr ⟨_, t, mem, rfl⟩, v, constant, value.trans decimal⟩

/-- Without a point the digits are octal. -/
theorem zero_in_front_of_digits :
    compile "PRINT 010\n" = .ok ("#include <stdio.h>\nint main(void)\x7b\n" ++
        "printf(\"%.2f\\n\", (float)(010));\nreturn 0;\n\x7d\n") ∧
      ⟨⟨1, 7⟩, ⟨.number, "010"⟩⟩ ∈ leadingTokens "PRINT 010\n" ∧
      literalValue "010" = 10 ∧ C.constant? "010" = some (.int 8) ∧
      ⟨⟨1, 7⟩, ⟨.number, "08"⟩⟩ ∈ leadingTokens "PRINT 08\n" ∧
      literalValue "08" = 8 ∧ C.constant? "08" = none := by
  refine ⟨by decide +kernel, by decide +kernel, by decide +kernel, by decide +kernel,
    by decide +kernel, by decide +kernel, by decide +kernel⟩

end MiniBasic
