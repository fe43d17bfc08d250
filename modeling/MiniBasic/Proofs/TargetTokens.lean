import MiniBasic.Proofs.CodeLines

/-!
# Tokens of C

How C splits a text into tokens: always the longest that it can read. Words and numbers go on as far
as their characters do, and of the punctuators the longest is taken, so what comes behind a token
decides where it ends. Texts in quotes are left out, since there are none in expressions.
-/

namespace MiniBasic.C

inductive Token where
  | word (text : String)
  | number (text : String)
  | punctuator (text : String)
  deriving DecidableEq, Repr

/-- The punctuators of C11 that have more than one character, longer ones first. -/
def longPunctuators : List String :=
  ["%:%:", "...", "<<=", ">>=", "->", "++", "--", "<<", ">>", "<=", ">=", "==", "!=", "&&", "||",
    "*=", "/=", "%=", "+=", "-=", "&=", "^=", "|=", "##", "<:", ":>", "<%", "%>", "%:"]

/-- The punctuators of C11, longer ones first. -/
def punctuators : List String :=
  longPunctuators ++ ["[", "]", "(", ")", "\x7b", "\x7d", ".", "&", "*", "+", "-", "~", "!", "/",
    "%", "<", ">", "^", "|", "?", ":", ";", "=", ",", "#"]

def isBlank (c : Char) : Bool := [' ', '\t', '\n', '\x0b', '\x0c'].contains c

def isWordChar (c : Char) : Bool := c.isAlphanum || c == '_'

/-- What goes on with a number. A sign does so behind the letter of an exponent. -/
def numberTail (exponent : Bool) : List Char → List Char
  | [] => []
  | c :: cs =>
    if isWordChar c || c == '.' then c :: numberTail (['e', 'E', 'p', 'P'].contains c) cs
    else if exponent && (c == '+' || c == '-') then c :: numberTail false cs
    else []

/-- The length of a comment behind its first two characters. -/
def commentLength : List Char → Option Nat
  | [] => none
  | '*' :: '/' :: _ => some 2
  | _ :: cs => (commentLength cs).map (· + 1)

/-- What a text starts with. -/
inductive Piece where
  /-- White space or a comment, of one character and `more`. -/
  | blank (more : Nat)
  /-- A token, of one character and `more`. -/
  | token (t : Token) (more : Nat)
  | stuck
  deriving DecidableEq, Repr

def piece (c : Char) (cs : List Char) : Piece :=
  if isBlank c then .blank 0
  else if c = '/' ∧ cs.head? = some '/' then .blank (cs.takeWhile (· ≠ '\n')).length
  else if c = '/' ∧ cs.head? = some '*' then
    match commentLength cs.tail with
    | some n => .blank (n + 1)
    | none => .stuck
  else if c.isAlpha ∨ c = '_' then
    let more := cs.takeWhile isWordChar
    .token (.word (String.ofList (c :: more))) more.length
  else if c.isDigit ∨ c = '.' ∧ cs.head?.any Char.isDigit then
    let more := numberTail false cs
    .token (.number (String.ofList (c :: more))) more.length
  else
    match punctuators.find? fun p => p.toList.isPrefixOf (c :: cs) with
    | some p => .token (.punctuator p) (p.length - 1)
    | none => .stuck

/-- The tokens of a text, if it can be read. -/
def tokens : List Char → Option (List Token)
  | [] => some []
  | c :: cs =>
    match piece c cs with
    | .blank more => tokens (cs.drop more)
    | .token t more => (tokens (cs.drop more)).map (t :: ·)
    | .stuck => none
termination_by cs => cs.length
decreasing_by all_goals simp only [List.length_drop, List.length_cons]; omega

/-- No word and no number goes on with these characters. -/
def Boundary (rest : List Char) : Prop := ∀ c ∈ rest.head?, isWordChar c = false ∧ c ≠ '.'

theorem boundary_cons {c : Char} (other : isWordChar c = false ∧ c ≠ '.') (rest : List Char) :
    Boundary (c :: rest) := by
  rintro d ⟨⟩
  exact other

section
variable {text : String} {rest : List Char}

@[simp] theorem tokens_nil : tokens [] = some [] := by
  rw [tokens]

@[simp] theorem tokens_space (rest : List Char) : tokens (' ' :: rest) = tokens rest := by
  rw [tokens]
  rfl

theorem tokens_of_piece {t : Token} {c : Char} (cs : List Char)
    (h : piece c (cs ++ rest) = .token t cs.length) :
    tokens (c :: (cs ++ rest)) = (tokens rest).map (t :: ·) := by
  rw [tokens, h]
  simp

theorem tokens_of_char {t : Token} {c : Char} (h : piece c rest = .token t 0) :
    tokens (c :: rest) = (tokens rest).map (t :: ·) :=
  tokens_of_piece [] h

theorem numberTail_append {cs : List Char} (digits : ∀ c ∈ cs, c.isDigit ∨ c = '.')
    (boundary : Boundary rest) : numberTail false (cs ++ rest) = cs := by
  induction cs with
  | nil =>
    cases rest with
    | nil => rfl
    | cons c rest =>
      obtain ⟨other, not_point⟩ := boundary c rfl
      simp [numberTail, other, not_point]
  | cons c cs ih =>
    obtain ⟨first, others⟩ := List.forall_mem_cons.mp digits
    have goes_on : (isWordChar c || c == '.') = true := by
      rcases first with digit | rfl
      · simp [isWordChar, Char.isAlphanum, digit]
      · rfl
    have no_exponent : ['e', 'E', 'p', 'P'].contains c = false := by
      rw [List.contains_eq_mem, decide_eq_false_iff_not]
      intro mem
      rcases first with digit | rfl
      · simp only [List.mem_cons, List.not_mem_nil, or_false] at mem
        rcases mem with rfl | rfl | rfl | rfl <;> simp at digit
      · simp at mem
    rw [List.cons_append, numberTail, if_pos goes_on, no_exponent, ih others]

theorem takeWhile_append_boundary {cs : List Char} (chars : ∀ c ∈ cs, c.isAlphanum)
    (boundary : Boundary rest) : (cs ++ rest).takeWhile isWordChar = cs := by
  have word_chars : ∀ c ∈ cs, isWordChar c := fun c mem => by simp [isWordChar, chars c mem]
  rw [List.takeWhile_append_of_pos word_chars]
  cases rest with
  | nil => simp
  | cons c rest => simp [(boundary c rfl).1]

theorem not_isBlank_of_isAlphanum {c : Char} (h : c.isAlphanum) : isBlank c = false := by
  unfold isBlank
  rw [List.contains_eq_mem, decide_eq_false_iff_not]
  intro mem
  simp only [List.mem_cons, List.not_mem_nil, or_false] at mem
  rcases mem with rfl | rfl | rfl | rfl | rfl <;> cases h

theorem piece_word {c : Char} {cs : List Char} (letter : c.isAlpha)
    (alphanum : ∀ d ∈ cs, d.isAlphanum) (boundary : Boundary rest) :
    piece c (cs ++ rest) = .token (.word (String.ofList (c :: cs))) cs.length := by
  have not_blank := not_isBlank_of_isAlphanum (c := c) (by simp [Char.isAlphanum, letter])
  have not_slash : c ≠ '/' := by
    rintro rfl
    simp at letter
  simp [piece, not_blank, not_slash, letter, takeWhile_append_boundary alphanum boundary]

/-- A word is read as one. -/
theorem tokens_word (word : IsWord text.toList) (boundary : Boundary rest) :
    tokens (text.toList ++ rest) = (tokens rest).map (.word text :: ·) := by
  obtain ⟨c, cs, eq, letter, alphanum⟩ := word
  have text_eq : String.ofList (c :: cs) = text := by rw [← eq, String.ofList_toList]
  rw [eq, List.cons_append, ← text_eq]
  exact tokens_of_piece cs (piece_word letter alphanum boundary)

/-- A number is read as one. -/
theorem tokens_number (numeral : IsNumeral text.toList) (boundary : Boundary rest) :
    tokens (text.toList ++ rest) = (tokens rest).map (.number text :: ·) := by
  obtain ⟨c, cs, eq, digit, digits⟩ := exists_digit_of_isNumeral numeral
  have not_blank := not_isBlank_of_isAlphanum (c := c) (by simp [Char.isAlphanum, digit])
  have not_slash : c ≠ '/' := by
    rintro rfl
    simp at digit
  have not_letter : ¬(c.isAlpha ∨ c = '_') := by
    rintro (letter | rfl)
    · exact not_isAlpha_of_isDigit digit letter
    · simp at digit
  rw [eq, List.cons_append]
  refine tokens_of_piece cs ?_
  have text_eq : String.ofList (c :: cs) = text := by rw [← eq, String.ofList_toList]
  simp [piece, not_blank, not_slash, not_letter, digit, numberTail_append digits boundary, text_eq]

/-- The operators of expressions. -/
def operators : List String := ["+", "-", "*", "/", "==", "!=", "<", "<=", ">", ">="]

/-- An operator in front of a space is read as one. -/
theorem tokens_operator (mem : text ∈ operators) (rest : List Char) :
    tokens (text.toList ++ ' ' :: rest) = (tokens rest).map (.punctuator text :: ·) := by
  simp only [operators, List.mem_cons, List.not_mem_nil, or_false] at mem
  rw [← tokens_space rest]
  rcases mem with rfl | rfl | rfl | rfl | rfl | rfl | rfl | rfl | rfl | rfl
  · exact tokens_of_char rfl
  · exact tokens_of_char rfl
  · exact tokens_of_char rfl
  · exact tokens_of_char rfl
  · exact tokens_of_piece ['='] rfl
  · exact tokens_of_piece ['='] rfl
  · exact tokens_of_char rfl
  · exact tokens_of_piece ['='] rfl
  · exact tokens_of_char rfl
  · exact tokens_of_piece ['='] rfl

/-- In front of a letter or digit a punctuator has one character. -/
theorem find?_punctuators {c : Char} (alphanum : c.isAlphanum) (d : Char) (rest : List Char) :
    longPunctuators.find? (fun p => p.toList.isPrefixOf (d :: c :: rest)) = none := by
  have second : ∀ p ∈ longPunctuators, (p.toList.drop 1).head?.any (!·.isAlphanum) := by decide
  rw [List.find?_eq_none]
  intro p mem starts
  obtain ⟨more, eq⟩ := List.isPrefixOf_iff_prefix.mp starts
  have second := second p mem
  match chars : p.toList with
  | [] => simp [chars] at second
  | [a] => simp [chars] at second
  | a :: b :: cs =>
    simp only [chars, List.cons_append, List.cons.injEq] at eq
    simp [chars, eq.2.1, alphanum] at second

/-- A sign in front of its operand is read as one. -/
theorem tokens_sign (sign : Sign) {c : Char} (alphanum : c.isAlphanum) (rest : List Char) :
    tokens (sign.token.text.toList ++ c :: rest) =
      (tokens (c :: rest)).map (.punctuator sign.token.text :: ·) := by
  cases sign with
  | plus =>
    have plus : piece '+' (c :: rest) = .token (.punctuator "+") 0 := by
      simp only [piece, punctuators, List.find?_append, find?_punctuators alphanum]
      rfl
    exact tokens_of_char plus
  | minus =>
    have minus : piece '-' (c :: rest) = .token (.punctuator "-") 0 := by
      simp only [piece, punctuators, List.find?_append, find?_punctuators alphanum]
      rfl
    exact tokens_of_char minus

end

end MiniBasic.C
