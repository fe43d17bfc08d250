import Mathlib.Data.List.Find
import MiniBasic.Proofs.TargetTokens

/-!
# Tokens of C in lines

How C splits whole lines into tokens, texts in quotes included. No token goes on beyond the end of
its line, so the tokens of a text are those of its lines (`C.codeTokens_line`).
-/

namespace MiniBasic

namespace C

/-- A token, or a string literal with what stands between its quotes. A quote comes behind no word,
so prefixes of literals are left out. -/
inductive CodeToken where
  | plain (t : Token)
  | literal (text : String)
  deriving DecidableEq, Repr

/-- The length of a literal without its quotes, given what follows the first of them. A backslash
takes the character behind it along. -/
def literalLength : List Char → Option Nat
  | [] => none
  | '"' :: _ => some 0
  | '\\' :: c :: cs => if c = '\n' then none else (literalLength cs).map (· + 2)
  | c :: cs => if c = '\n' then none else (literalLength cs).map (· + 1)

/-- The tokens of a text with string literals, if it can be read. -/
def codeTokens : List Char → Option (List CodeToken)
  | [] => some []
  | c :: cs =>
    match piece c cs with
    | .blank more => codeTokens (cs.drop more)
    | .token t more => (codeTokens (cs.drop more)).map (.plain t :: ·)
    | .stuck =>
      if c = '"' then
        match literalLength cs with
        | some n => (codeTokens (cs.drop (n + 1))).map (.literal (String.ofList (cs.take n)) :: ·)
        | none => none
      else none
termination_by cs => cs.length
decreasing_by all_goals simp only [List.length_drop, List.length_cons]; omega

section
variable {c : Char} {cs rest : List Char} {t : Token} {n : Nat}

@[simp] theorem codeTokens_nil : codeTokens [] = some [] := by
  rw [codeTokens]

@[simp] theorem codeTokens_blank (blank : piece c cs = .blank 0) :
    codeTokens (c :: cs) = codeTokens cs := by
  rw [codeTokens, blank]
  rfl

theorem codeTokens_of_piece (cs : List Char) (h : piece c (cs ++ rest) = .token t cs.length) :
    codeTokens (c :: (cs ++ rest)) = (codeTokens rest).map (.plain t :: ·) := by
  rw [codeTokens, h]
  simp

theorem codeTokens_of_char (h : piece c rest = .token t 0) :
    codeTokens (c :: rest) = (codeTokens rest).map (.plain t :: ·) :=
  codeTokens_of_piece [] h

theorem codeTokens_quote (length : literalLength cs = some n) :
    codeTokens ('"' :: cs) =
      (codeTokens (cs.drop (n + 1))).map (.literal (String.ofList (cs.take n)) :: ·) := by
  have stuck : piece '"' cs = .stuck := rfl
  rw [codeTokens, stuck]
  simp only [if_true, length]

/-- Without literals these are the tokens. -/
theorem codeTokens_of_tokens {ts : List Token} (h : tokens cs = some ts) :
    codeTokens cs = some (ts.map .plain) := by
  fun_induction tokens cs generalizing ts with
  | case1 =>
    cases h
    exact codeTokens_nil
  | case2 c cs more blank ih =>
    rw [codeTokens, blank]
    exact ih h
  | case3 c cs t more token ih =>
    obtain ⟨us, read, rfl⟩ := Option.map_eq_some_iff.mp h
    rw [codeTokens, token]
    simp only [ih read, Option.map_some, List.map_cons]
  | case4 => cases h

/-! ## The end of a line -/

theorem takeWhile_append_stop {p : Char → Bool} (stop : p '\n' = false) (cs rest : List Char) :
    (cs ++ '\n' :: rest).takeWhile p = cs.takeWhile p := by
  induction cs with
  | nil => simp [stop]
  | cons c cs ih => rw [List.cons_append, List.takeWhile_cons, List.takeWhile_cons, ih]

theorem numberTail_newline (exponent : Bool) (cs rest : List Char) :
    numberTail exponent (cs ++ '\n' :: rest) = numberTail exponent cs := by
  fun_induction numberTail exponent cs with
  | case1 => simp [numberTail, isWordChar]
  | case2 exponent c cs goes_on ih => rw [List.cons_append, numberTail, if_pos goes_on, ih]
  | case3 exponent c cs other sign ih =>
    rw [List.cons_append, numberTail, if_neg other, if_pos sign, ih]
  | case4 exponent c cs other no_sign =>
    rw [List.cons_append, numberTail, if_neg other, if_neg no_sign]

theorem isPrefixOf_newline {p : List Char} (one_line : '\n' ∉ p) (cs rest : List Char) :
    p.isPrefixOf (cs ++ '\n' :: rest) = p.isPrefixOf cs := by
  induction p generalizing cs with
  | nil => simp
  | cons d p ih =>
    obtain ⟨other, others⟩ := not_or.mp (mt List.mem_cons.mpr one_line)
    cases cs with
    | nil => simpa [List.isPrefixOf] using fun same => absurd same.symm other
    | cons c cs => rw [List.cons_append, List.isPrefixOf, List.isPrefixOf, ih others]

theorem commentLength_append (h : commentLength cs = some n) (rest : List Char) :
    commentLength (cs ++ rest) = some n := by
  fun_induction commentLength cs generalizing n with
  | case1 => cases h
  | case2 cs => exact h
  | case3 c cs other ih =>
    obtain ⟨m, read, rfl⟩ := Option.map_eq_some_iff.mp h
    have other' : ∀ ds, c = '*' → cs ++ rest = '/' :: ds → False := by
      intro ds star slash
      cases cs with
      | nil => cases read
      | cons d cs => exact other cs star (by rw [(List.cons.inj slash).1])
    rw [List.cons_append, commentLength.eq_3 _ _ other', ih read]
    rfl

theorem head?_newline {d : Char} (other : d ≠ '\n') (cs rest : List Char) :
    (cs ++ '\n' :: rest).head? = some d ↔ cs.head? = some d := by
  cases cs <;> simp [other.symm]

theorem find?_newline (c : Char) (cs rest : List Char) :
    (punctuators.find? fun p => p.toList.isPrefixOf (c :: (cs ++ '\n' :: rest))) =
      punctuators.find? fun p => p.toList.isPrefixOf (c :: cs) := by
  have one_line : ∀ p ∈ punctuators, '\n' ∉ p.toList := by decide
  apply List.find?_congr
  intro p mem
  exact isPrefixOf_newline (one_line p mem) (c :: cs) rest

/-- What a line starts with does not depend on the lines behind it. -/
theorem piece_newline (c : Char) (cs rest : List Char) (read : piece c cs ≠ .stuck) :
    piece c (cs ++ '\n' :: rest) = piece c cs := by
  have digit : (cs ++ '\n' :: rest).head?.any Char.isDigit = cs.head?.any Char.isDigit := by
    cases cs <;> simp
  by_cases comment : c = '/' ∧ cs.head? = some '*'
  · -- Only a comment that is closed on this line is read.
    obtain ⟨rfl, head⟩ := comment
    obtain ⟨cs, rfl⟩ := List.head?_eq_some_iff.mp head
    cases length : commentLength cs with
    | none => exact absurd (by simp [piece, isBlank, length]) read
    | some n =>
      have length' := commentLength_append length ('\n' :: rest)
      simp [piece, isBlank, length, length']
  · have comment' : ¬(c = '/' ∧ (cs ++ '\n' :: rest).head? = some '*') := by
      rwa [head?_newline (by decide)]
    simp only [piece, if_neg comment, if_neg comment', head?_newline (show '/' ≠ '\n' by decide),
      digit, find?_newline, numberTail_newline, takeWhile_append_stop (p := isWordChar) (by decide),
      takeWhile_append_stop (p := (· ≠ '\n')) (by decide)]

theorem length_numberTail_le (exponent : Bool) (cs : List Char) :
    (numberTail exponent cs).length ≤ cs.length := by
  fun_induction numberTail exponent cs <;> simp_all

theorem commentLength_le (h : commentLength cs = some n) : n ≤ cs.length := by
  fun_induction commentLength cs generalizing n with
  | case1 => cases h
  | case2 cs =>
    cases h
    simp
  | case3 c cs _ ih =>
    obtain ⟨m, read, rfl⟩ := Option.map_eq_some_iff.mp h
    exact Nat.succ_le_succ (ih read)

/-- How many characters a piece has besides the first. -/
def Piece.more : Piece → Nat
  | blank more | token _ more => more
  | stuck => 0

/-- A piece takes no character that is not there. -/
theorem more_piece_le (c : Char) (cs : List Char) : (piece c cs).more ≤ cs.length := by
  fun_cases piece c cs with
  | case1 | case4 | case8 => exact Nat.zero_le _
  | case2 | case5 => exact (List.takeWhile_sublist _).length_le
  | case3 _ _ comment n length =>
    obtain ⟨cs, rfl⟩ := List.head?_eq_some_iff.mp comment.2
    exact Nat.succ_le_succ (commentLength_le length)
  | case6 => exact length_numberTail_le false cs
  | case7 _ _ _ _ _ p found =>
    have starts : p.toList.isPrefixOf (c :: cs) = true := by simpa using List.find?_some found
    have le := (List.isPrefixOf_iff_prefix.mp starts).length_le
    rw [String.length_toList, List.length_cons] at le
    exact Nat.sub_le_of_le_add le

theorem literalLength_append (h : literalLength cs = some n) (rest : List Char) :
    n < cs.length ∧ literalLength (cs ++ rest) = some n := by
  fun_induction literalLength cs generalizing n with
  | case1 | case3 | case5 => cases h
  | case2 cs =>
    cases h
    simp [literalLength]
  | case4 c cs other ih =>
    obtain ⟨m, read, rfl⟩ := Option.map_eq_some_iff.mp h
    obtain ⟨lt, read'⟩ := ih read
    refine ⟨by simpa using lt, ?_⟩
    simp [literalLength, other, read']
  | case6 c cs not_quote not_backslash other ih =>
    obtain ⟨m, read, rfl⟩ := Option.map_eq_some_iff.mp h
    obtain ⟨lt, read'⟩ := ih read
    have not_backslash' : ∀ d ds, c = '\\' → cs ++ rest = d :: ds → False := by
      cases cs with
      | nil => cases read
      | cons e es => exact fun _ _ backslash _ => not_backslash e es backslash rfl
    refine ⟨by simpa using lt, ?_⟩
    rw [List.cons_append, literalLength.eq_4 _ _ not_quote not_backslash', if_neg other, read']
    rfl

/-- The tokens of a line are read in front of other lines as well. -/
theorem codeTokens_line {ts : List CodeToken} (h : codeTokens cs = some ts) (rest : List Char) :
    codeTokens (cs ++ '\n' :: rest) = (codeTokens rest).map (ts ++ ·) := by
  fun_induction codeTokens cs generalizing ts with
  | case1 =>
    cases h
    rw [List.nil_append, codeTokens_blank rfl]
    simp
  | case2 c cs more blank ih =>
    have le := more_piece_le c cs
    rw [blank] at le
    have blank' := piece_newline c cs rest (by rw [blank]; nofun)
    rw [List.cons_append, codeTokens, blank', blank]
    simp only [List.drop_append_of_le_length (show more ≤ cs.length from le)]
    exact ih h
  | case3 c cs t more token ih =>
    obtain ⟨us, read, rfl⟩ := Option.map_eq_some_iff.mp h
    have le := more_piece_le c cs
    rw [token] at le
    have token' := piece_newline c cs rest (by rw [token]; nofun)
    rw [List.cons_append, codeTokens, token', token]
    simp only [List.drop_append_of_le_length (show more ≤ cs.length from le), ih read]
    cases codeTokens rest <;> rfl
  | case4 cs n length stuck ih =>
    obtain ⟨us, read, rfl⟩ := Option.map_eq_some_iff.mp h
    obtain ⟨lt, length'⟩ := literalLength_append length ('\n' :: rest)
    rw [List.cons_append, codeTokens_quote length', List.take_append_of_le_length lt.le,
      List.drop_append_of_le_length lt, ih read]
    cases codeTokens rest <;> rfl
  | case5 => cases h
  | case6 => cases h

end

end C

end MiniBasic
