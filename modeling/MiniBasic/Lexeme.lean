import MiniBasic.Token

/-!
# Lexemes

What stands at the front of a piece of the source, once blanks and comments are out of the way.
The lexical grammar is

```text
number ::= digit+ ("." digit+)?
word   ::= letter (letter | digit)*
string ::= '"' (any character but a quote, a control character, "\" and "%")* '"'
```

together with the operators and the newline. Letters and digits are those of ASCII. A word that is
spelled like a keyword is that keyword. Each lexeme is the longest one possible.

`lexeme` reads one lexeme and says how many characters it takes, or names the fault that it met and
how far into the input reading went. `lexeme_token_length` says that a token takes at least one
character and no more than there are.
-/

namespace MiniBasic

/-- Why no token can be read. -/
inductive ScanError where
  /-- No token starts with this character. -/
  | unexpectedChar (c : Char)
  /-- The character after `!` is not `=`. -/
  | malformedNotEqual (c : Char)
  | illegalStringChar (c : Char)
  /-- The line ends inside a string. -/
  | unterminatedString
  /-- The digits and the point of a number that has no digit after its point. -/
  | malformedNumber (digits : String)
  deriving DecidableEq, Repr

def ScanError.message : ScanError → String
  | unexpectedChar c => s!"Unknown token: {Text.quoteChar c}"
  | malformedNotEqual c => s!"Expected !=, got !{Text.escapeChar c}"
  | illegalStringChar c => s!"Illegal character {Text.quoteChar c} used in string literal"
  | unterminatedString => "String literal runs past end of line"
  | malformedNumber digits => s!"Illegal char in number '{digits}'"

inductive Lexeme where
  | finished
  | token (t : Token) (length : Nat)
  /-- The fault lies `offset` characters in, and reading stopped after `length` characters. -/
  | fault (e : ScanError) (offset length : Nat)
  deriving DecidableEq, Repr

/-- Blanks within a line. -/
def isGap (c : Char) : Bool := c = ' ' || c = '\t' || c = '\r'

/-- How many characters to skip before the next lexeme: blanks, then a comment up to the end of
its line. -/
def gapLength (cs : List Char) : Nat :=
  let blanks := cs.takeWhile isGap
  match cs.dropWhile isGap with
  | '#' :: rest => blanks.length + ('#' :: rest.takeWhile (· ≠ '\n')).length
  | _ => blanks.length

/-- The characters that stand for themselves both in a string of the language and in the format
string of the generated `printf`. -/
def isStringChar (c : Char) : Bool :=
  !(Text.isControl c || c = '"' || c = '\\' || c = '%')

/-- A string, given what follows its opening quote. -/
def stringLexeme (cs : List Char) : Lexeme :=
  let body := cs.takeWhile isStringChar
  match cs.dropWhile isStringChar with
  | '"' :: _ => .token ⟨.string, String.ofList body⟩ (body.length + 2)
  | [] | '\n' :: _ => .fault .unterminatedString 0 (body.length + 1)
  | c :: _ => .fault (.illegalStringChar c) (body.length + 1) (body.length + 1)

/-- A number, given from its first digit on. -/
def numberLexeme (cs : List Char) : Lexeme :=
  let whole := cs.takeWhile Char.isDigit
  match cs.dropWhile Char.isDigit with
  | '.' :: rest =>
    let digits := rest.takeWhile Char.isDigit
    let text := whole ++ '.' :: digits
    if digits.isEmpty then .fault (.malformedNumber (String.ofList text)) 0 text.length
    else .token ⟨.number, String.ofList text⟩ text.length
  | _ => .token ⟨.number, String.ofList whole⟩ whole.length

def wordKind (word : String) : Kind :=
  match Keyword.ofSpelling? word with
  | some k => .keyword k
  | none => .ident

/-- A keyword or an identifier, given from its first letter on. -/
def wordLexeme (cs : List Char) : Lexeme :=
  let word := cs.takeWhile Char.isAlphanum
  .token ⟨wordKind (String.ofList word), String.ofList word⟩ word.length

def lexeme : List Char → Lexeme
  | [] => .finished
  | '\n' :: _ => .token ⟨.newline, "\n"⟩ 1
  | '+' :: _ => .token ⟨.plus, "+"⟩ 1
  | '-' :: _ => .token ⟨.minus, "-"⟩ 1
  | '*' :: _ => .token ⟨.times, "*"⟩ 1
  | '/' :: _ => .token ⟨.divide, "/"⟩ 1
  | '=' :: '=' :: _ => .token ⟨.relation .equal, "=="⟩ 2
  | '=' :: _ => .token ⟨.assign, "="⟩ 1
  | '>' :: '=' :: _ => .token ⟨.relation .greaterEqual, ">="⟩ 2
  | '>' :: _ => .token ⟨.relation .greater, ">"⟩ 1
  | '<' :: '=' :: _ => .token ⟨.relation .lessEqual, "<="⟩ 2
  | '<' :: _ => .token ⟨.relation .less, "<"⟩ 1
  | '!' :: '=' :: _ => .token ⟨.relation .notEqual, "!="⟩ 2
  | '!' :: rest => .fault (.malformedNotEqual (rest.headD '\x00')) 0 0
  | '"' :: rest => stringLexeme rest
  | c :: rest =>
    if c.isDigit then numberLexeme (c :: rest)
    else if c.isAlpha then wordLexeme (c :: rest)
    else .fault (.unexpectedChar c) 0 0

private theorem stringLexeme_token_length {cs : List Char} {t : Token} {n : Nat}
    (h : stringLexeme cs = .token t n) : 0 < n ∧ n ≤ cs.length + 1 := by
  have split := congrArg List.length (List.takeWhile_append_dropWhile (p := isStringChar) (l := cs))
  simp only [List.length_append] at split
  revert h
  fun_cases stringLexeme cs with
  | case1 body rest tail =>
    simp only [tail, List.length_cons] at split
    rintro ⟨⟩
    simp only [body]
    omega
  | case2 | case3 | case4 => nofun

private theorem numberLexeme_token_length {c : Char} {cs : List Char} {t : Token} {n : Nat}
    (hc : c.isDigit = true) (h : numberLexeme (c :: cs) = .token t n) :
    0 < n ∧ n ≤ cs.length + 1 := by
  have split := congrArg List.length
    (List.takeWhile_append_dropWhile (p := Char.isDigit) (l := c :: cs))
  simp only [List.length_append, List.length_cons] at split
  have first : 0 < ((c :: cs).takeWhile Char.isDigit).length := by simp [hc]
  revert h
  fun_cases numberLexeme (c :: cs) with
  | case1 => nofun
  | case2 whole rest tail digits text =>
    have : (rest.takeWhile Char.isDigit).length ≤ rest.length :=
      (List.takeWhile_sublist _).length_le
    simp only [tail, List.length_cons] at split
    rintro ⟨⟩
    simp only [text, digits, whole, List.length_append, List.length_cons]
    omega
  | case3 whole =>
    rintro ⟨⟩
    simp only [whole]
    omega

private theorem wordLexeme_token_length {c : Char} {cs : List Char} {t : Token} {n : Nat}
    (hc : c.isAlpha = true) (h : wordLexeme (c :: cs) = .token t n) :
    0 < n ∧ n ≤ cs.length + 1 := by
  obtain ⟨⟩ := h
  exact ⟨by simp [Char.isAlphanum, hc], (List.takeWhile_sublist _).length_le⟩

/-- A token takes at least one character, and none that is not there. -/
theorem lexeme_token_length {cs : List Char} {t : Token} {n : Nat}
    (h : lexeme cs = .token t n) : 0 < n ∧ n ≤ cs.length := by
  revert h
  fun_cases lexeme cs with
  | case1 | case14 | case18 => nofun
  | case15 rest => exact stringLexeme_token_length
  | case16 c rest _ _ _ _ _ _ _ _ _ _ _ _ _ _ digit => exact numberLexeme_token_length digit
  | case17 c rest _ _ _ _ _ _ _ _ _ _ _ _ _ _ _ letter => exact wordLexeme_token_length letter
  | _ =>
    rintro ⟨⟩
    simp

/-- No token is the end of the input: that is what `Lexeme.finished` says. -/
theorem lexeme_token_ne_eof {cs : List Char} {t : Token} {n : Nat}
    (h : lexeme cs = .token t n) : t.kind ≠ .eof := by
  revert h
  fun_cases lexeme cs with
  | case1 | case14 | case18 => nofun
  | case15 rest =>
    fun_cases stringLexeme rest with
    | case1 =>
      rintro ⟨⟩
      nofun
    | _ => nofun
  | case16 c rest =>
    fun_cases numberLexeme (c :: rest) with
    | case1 => nofun
    | _ =>
      rintro ⟨⟩
      nofun
  | case17 c rest =>
    rintro ⟨⟩
    unfold wordKind
    split <;> nofun
  | _ =>
    rintro ⟨⟩
    nofun

end MiniBasic
