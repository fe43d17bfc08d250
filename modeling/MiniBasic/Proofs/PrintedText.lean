import MiniBasic.Proofs.LexicalGrammar
import MiniBasic.Proofs.Lookahead
import MiniBasic.Proofs.SinglePass
import MiniBasic.Proofs.TargetTokens

/-!
# Printed text

A text to print goes through two encodings of C. It stands in a string literal, where a backslash
starts an escape sequence, and what the literal stands for is the format of a `printf`, where a
percent sign starts a conversion. The code that is generated escapes nothing. It need not: a string
of the language has none of these characters, so the literal stands for the text of the string and
the one newline that is put behind it, and they are what is printed (`printed_text_as_written`).
-/

namespace MiniBasic

namespace C

/-! ## String literals -/

/-- The number that a digit is, in a base up to sixteen. -/
def digit? (base : Nat) (c : Char) : Option Nat :=
  let n :=
    if c.isDigit then c.toNat - '0'.toNat
    else if 'a' ≤ c ∧ c ≤ 'f' then c.toNat - 'a'.toNat + 10
    else if 'A' ≤ c ∧ c ≤ 'F' then c.toNat - 'A'.toNat + 10
    else base
  if n < base then some n else none

/-- The digits at the front of a text, at most `limit` of them. -/
def digits (base limit : Nat) (cs : List Char) : List Nat :=
  ((cs.take limit).map (digit? base)).takeWhile Option.isSome |>.reduceOption

def ofDigits (base : Nat) (ds : List Nat) : Nat := ds.foldl (fun n d => base * n + d) 0

/-- The character that a byte is by itself. -/
def ofByte? (n : Nat) : Option Char := if n < 128 then some (Char.ofNat n) else none

def ofCodePoint? (n : Nat) : Option Char := if n.isValidChar then some (Char.ofNat n) else none

/-- The characters that a backslash gives another meaning, or takes theirs from. -/
def simpleEscapes : List (Char × Char) :=
  [('\'', '\''), ('"', '"'), ('?', '?'), ('\\', '\\'), ('a', '\x07'), ('b', '\x08'), ('f', '\x0c'),
    ('n', '\n'), ('r', '\r'), ('t', '\t'), ('v', '\x0b')]

/-- The character that an escape sequence stands for, and how many characters there are of it behind
the backslash. Octal and hexadecimal digits are a byte. -/
def escape? : List Char → Option (Char × Nat)
  | [] => none
  | c :: cs =>
    match simpleEscapes.lookup c with
    | some d => some (d, 1)
    | none =>
      if c = 'u' ∨ c = 'U' then
        let length := if c = 'u' then 4 else 8
        let ds := digits 16 length cs
        if ds.length = length then (ofCodePoint? (ofDigits 16 ds)).map (·, length + 1) else none
      else
        let ds := if c = 'x' then digits 16 cs.length cs else digits 8 3 (c :: cs)
        let base := if c = 'x' then 16 else 8
        let length := if c = 'x' then ds.length + 1 else ds.length
        if ds = [] then none else (ofByte? (ofDigits base ds)).map (·, length)

/-- What a string literal stands for and what comes behind it, given what comes behind its opening
quote. There are no trigraphs. -/
def literal? : List Char → Option (List Char × List Char)
  | [] | '\n' :: _ => none
  | '"' :: rest => some ([], rest)
  | '\\' :: cs =>
    match escape? cs with
    | none => none
    | some (c, length) => (literal? (cs.drop length)).map fun (text, rest) => (c :: text, rest)
  | c :: cs => (literal? cs).map fun (text, rest) => (c :: text, rest)
termination_by cs => cs.length
decreasing_by all_goals simp only [List.length_drop, List.length_cons]; omega

/-- The function that a line calls and the text that it is called with, if the line is a statement
that calls a function with a string literal and nothing else. -/
def call? (line : String) : Option (String × String) :=
  match line.toList.dropWhile isWordChar with
  | '(' :: '"' :: cs =>
    match literal? cs with
    | some (text, [')', ';']) =>
      some (String.ofList (line.toList.takeWhile isWordChar), String.ofList text)
    | _ => none
  | _ => none

/-- Characters that stand for themselves in a string literal. -/
def Unescaped (cs : List Char) : Prop := ∀ c ∈ cs, c ≠ '"' ∧ c ≠ '\\' ∧ c ≠ '\n'

theorem literal_append {cs : List Char} (plain : Unescaped cs) {rest text rest' : List Char}
    (behind : literal? rest = some (text, rest')) :
    literal? (cs ++ rest) = some (cs ++ text, rest') := by
  induction cs with
  | nil => exact behind
  | cons c cs ih =>
    obtain ⟨⟨not_quote, not_backslash, not_newline⟩, others⟩ := List.forall_mem_cons.mp plain
    rw [List.cons_append, literal?.eq_def]
    split
    case h_5 =>
      rename_i eq
      obtain ⟨rfl, rfl⟩ := List.cons.inj eq
      rw [ih others]
      rfl
    all_goals simp_all

theorem call_of_literal {line : String} {f text cs : List Char} (word : ∀ c ∈ f, isWordChar c)
    (literal : literal? cs = some (text, [')', ';'])) (eq : line.toList = f ++ '(' :: '"' :: cs) :
    call? line = some (String.ofList f, String.ofList text) := by
  have parenthesis : isWordChar '(' = false := by decide
  have called : line.toList.takeWhile isWordChar = f := by
    rw [eq, List.takeWhile_append_of_pos word, List.takeWhile_cons_of_neg (by simp [parenthesis]),
      List.append_nil]
  have behind : line.toList.dropWhile isWordChar = '(' :: '"' :: cs := by
    rw [eq, List.dropWhile_append_of_pos word, List.dropWhile_cons_of_neg (by simp [parenthesis])]
  simp only [call?, behind, literal, called]

/-! ## Formats -/

/-- What `printf` prints for a format and no further arguments, if the format asks for none. It ends
at the first null character. -/
def printed? : List Char → Option (List Char)
  | [] | '\x00' :: _ => some []
  | '%' :: '%' :: cs => (printed? cs).map ('%' :: ·)
  | '%' :: _ => none
  | c :: cs => (printed? cs).map (c :: ·)

/-- Without conversions a format is printed as it is. -/
theorem printed_eq_self {cs : List Char} (no_conversion : '%' ∉ cs) (no_null : '\x00' ∉ cs) :
    printed? cs = some cs := by
  induction cs with
  | nil => rfl
  | cons c cs ih =>
    obtain ⟨not_percent, others⟩ := not_or.mp (mt List.mem_cons.mpr no_conversion)
    obtain ⟨not_null, others'⟩ := not_or.mp (mt List.mem_cons.mpr no_null)
    rw [printed?.eq_def]
    split <;> simp_all

/-- The line is a call of `printf` with one string literal, and what it prints is the text and a
newline: its format asks for no argument. -/
structure Prints (line text : String) : Prop where
  call : call? line = some ("printf", text ++ "\n")
  no_conversion : '%' ∉ (text ++ "\n").toList
  printed : printed? (text ++ "\n").toList = some (text ++ "\n").toList

end C

/-! ## Strings of the language -/

/-- The line that prints a string. -/
def printLine (text : String) : String := "printf(\"" ++ text ++ "\\n\");"

theorem isStringChar_iff {c : Char} :
    isStringChar c ↔ c ≠ '"' ∧ c ≠ '\\' ∧ c ≠ '%' ∧ ¬Text.isControl c := by
  simp only [isStringChar, Bool.not_eq_true', Bool.or_eq_false_iff, decide_eq_false_iff_not,
    Bool.not_eq_true]
  tauto

theorem prints_printLine {text : String} (legal : ∀ c ∈ text.toList, isStringChar c) :
    C.Prints (printLine text) text := by
  have ne_of {d : Char} (illegal : isStringChar d = false) {c : Char} (mem : c ∈ text.toList) :
      c ≠ d := by
    rintro rfl
    exact absurd (legal c mem) (Bool.eq_false_iff.mp illegal)
  have unescaped : C.Unescaped text.toList := fun c mem =>
    ⟨ne_of (by decide) mem, ne_of (by decide) mem, ne_of (by decide) mem⟩
  have no_conversion : '%' ∉ (text ++ "\n").toList := by
    rw [String.toList_append, List.mem_append, not_or]
    exact ⟨fun mem => ne_of (by decide) mem rfl, by decide⟩
  have no_null : '\x00' ∉ (text ++ "\n").toList := by
    rw [String.toList_append, List.mem_append, not_or]
    exact ⟨fun mem => ne_of (by decide) mem rfl, by decide⟩
  have behind : C.literal? ['\\', 'n', '"', ')', ';'] = some (['\n'], [')', ';']) := by
    decide +kernel
  have literal := C.literal_append unescaped behind
  have line_eq : (printLine text).toList =
      "printf".toList ++ '(' :: '"' :: (text.toList ++ ['\\', 'n', '"', ')', ';']) := by
    simp [printLine]
  refine ⟨?_, no_conversion, C.printed_eq_self no_conversion no_null⟩
  rw [C.call_of_literal (f := "printf".toList) (by simp [C.isWordChar]) literal line_eq]
  simp [String.ofList_append]

/-! ## Tokens -/

/-- A keyword is the longest lexeme in front of a gap. -/
theorem longest_keyword (k : Keyword) {c : Char} (other : c.isAlphanum = false) (cs : List Char) :
    Longest k.spelling.toList (c :: cs) ⟨.keyword k, k.spelling⟩ := by
  have word := isWord_spelling k
  have read : lexeme (k.spelling.toList ++ c :: cs) =
      .token ⟨.keyword k, k.spelling⟩ k.spelling.toList.length := by
    obtain ⟨d, ds, eq, letter, -⟩ := isWord_spelling k
    rw [lexeme_of_isAlpha (by rw [eq]; exact letter)]
    have whole : (k.spelling.toList ++ c :: cs).takeWhile Char.isAlphanum = k.spelling.toList := by
      rw [List.takeWhile_append_of_pos word.isAlphanum,
        List.takeWhile_cons_of_neg (by simp [other]), List.append_nil]
    rw [wordLexeme, whole, String.ofList_toList, wordKind_spelling]
  obtain ⟨w, rest, split, length_eq, longest⟩ := exists_longest read
  obtain ⟨rfl, rfl⟩ := List.append_inj split length_eq
  exact longest

/-- The tokens of a line that prints a string. -/
theorem tokensOf_print {text : String} (legal : ∀ c ∈ text.toList, isStringChar c) :
    ∃ l l', tokensOf ("PRINT \"" ++ text ++ "\"") =
      .ok [⟨.start, ⟨.keyword .print, "PRINT"⟩⟩, ⟨l, ⟨.string, text⟩⟩, ⟨l', .newline⟩] := by
  have written : ("PRINT \"" ++ text ++ "\"").toList =
      "PRINT".toList ++ ' ' :: ('"' :: (text.toList ++ ['"'])) := by
    simp
  have no_newline : '\n' ∉ ("PRINT \"" ++ text ++ "\"").toList := by
    have : '\n' ∉ text.toList := fun mem => absurd (legal _ mem) (by decide)
    rw [written]
    simp [this]
  have string := IsLexeme.string legal
  rw [String.ofList_toList] at string
  have blank : Gap [' '] ('"' :: (text.toList ++ ['"']) ++ ['\n']) :=
    ⟨[' '], [], rfl, List.forall_mem_singleton.mpr rfl, .inl rfl⟩
  have behind := Lexed.line blank string (Location.start.advance ([] ++ "PRINT".toList))
  have lexed := Lexed.cons (t := ⟨.start, ⟨.keyword .print, "PRINT"⟩⟩) (Gap.nil _) rfl
    (longest_keyword .print (by decide) _) behind
  have split : terminated ("PRINT \"" ++ text ++ "\"").toList =
      [] ++ ("PRINT".toList ++ ([' '] ++ ('"' :: (text.toList ++ ['"']) ++ ['\n']))) := by
    rw [terminated_of_not_mem no_newline, written]
    simp
  exact ⟨_, _, tokensOf_eq_ok_iff_lexed.mpr (split ▸ lexed)⟩

/-- A program that prints a string and nothing else. -/
theorem compile_print {text : String} (legal : ∀ c ∈ text.toList, isStringChar c) :
    compile ("PRINT \"" ++ text ++ "\"") =
      .ok ("#include <stdio.h>\nint main(void)\x7b\n" ++ printLine text ++
        "\nreturn 0;\n\x7d\n") := by
  obtain ⟨l, l', scanned⟩ := tokensOf_print legal
  have recognized : Recognition.ofSource ("PRINT \"" ++ text ++ "\"") =
      ⟨[.enter .program, .header "#include <stdio.h>", .line "int main(void)\x7b",
        .enter (.statement (.keyword .print)), .line (printLine text), .enter .newline,
        .line "return 0;", .line "\x7d"], .empty, .ok ()⟩ := by
    rw [Recognition.ofSource_of_tokensOf_ok scanned]
    rfl
  simp only [compile, compilation, recognized, Except.map]
  refine congrArg Except.ok (String.toList_inj.mp ?_)
  simp [Output.ofEvents, Output.push, Output.text, Output.empty]

/-- The goals that a statement can begin at. -/
def Goal.statementGoals : List Goal :=
  [.statements, .block .endIf, .block .endWhile, .blockRest .endIf, .blockRest .endWhile]

/-- Wherever a string is printed, its line is what is emitted. -/
theorem takes_print {p t : Located Token} (print : p.kind = .keyword .print)
    (string : t.kind = .string) {goal : Goal} (mem : goal ∈ Goal.statementGoals)
    (goals : List Goal) (names : Names) : ∃ rest, Takes (goal :: goals) names [p, t]
      [[.enter (.statement (.keyword .print))], [.line (printLine t.text)]]
      (.lineEnd :: rest ++ goals) names := by
  have second (goals : List Goal) : step t (.printed :: goals) names =
      ⟨[.line (printLine t.text)], names, .consumed goals⟩ := by
    simp [step, Goal.meet, string, printLine]
  have first (rest : List Goal) : Meeting.statement p rest =
      .take [.enter (.statement (.keyword .print))] (.printed :: .lineEnd :: rest) := by
    simp [Meeting.statement, print, Goal.ofKeyword?]
  have meet : ∃ rest, goal.meet p names = Meeting.statement p rest := by
    simp only [Goal.statementGoals, List.mem_cons, List.not_mem_nil, or_false] at mem
    rcases mem with rfl | rfl | rfl | rfl | rfl <;>
      exact ⟨_, if_neg (by rw [print]; decide)⟩
  obtain ⟨rest, meet⟩ := meet
  exact ⟨rest, .step (step_of_take (meet.trans (first rest))) (.step (second _) .refl)⟩

/-- The texts of string tokens are those without quotes, backslashes, percent signs and control
characters. Such a text is accepted where something is printed, and what is emitted for it is a line
that prints the text as it is and a newline. -/
theorem printed_text_as_written (text : String) :
    ((∃ source, ∃ t ∈ leadingTokens source, t.value = ⟨.string, text⟩) ↔
      ∀ c ∈ text.toList, c ≠ '"' ∧ c ≠ '\\' ∧ c ≠ '%' ∧ ¬Text.isControl c) ∧
    ((∀ c ∈ text.toList, c ≠ '"' ∧ c ≠ '\\' ∧ c ≠ '%' ∧ ¬Text.isControl c) →
      C.Prints (printLine text) text ∧
      compile ("PRINT \"" ++ text ++ "\"") =
        .ok ("#include <stdio.h>\nint main(void)\x7b\n" ++ printLine text ++
          "\nreturn 0;\n\x7d\n")) ∧
    ∀ p t : Located Token, p.kind = .keyword .print → t.value = ⟨.string, text⟩ →
      ∀ goal ∈ Goal.statementGoals, ∀ goals names, ∃ rest, Takes (goal :: goals) names [p, t]
        [[.enter (.statement (.keyword .print))], [.line (printLine text)]]
        (.lineEnd :: rest ++ goals) names := by
  have legal_iff : (∀ c ∈ text.toList, isStringChar c) ↔
      ∀ c ∈ text.toList, c ≠ '"' ∧ c ≠ '\\' ∧ c ≠ '%' ∧ ¬Text.isControl c :=
    forall₂_congr fun _ _ => isStringChar_iff
  rw [← legal_iff]
  refine ⟨⟨?_, fun legal => ?_⟩, fun legal => ⟨prints_printLine legal, compile_print legal⟩, ?_⟩
  · rintro ⟨source, ⟨l, t⟩, mem, rfl⟩
    exact (lexical_leadingTokens source _ mem).string rfl
  · obtain ⟨l, l', scanned⟩ := tokensOf_print legal
    refine ⟨"PRINT \"" ++ text ++ "\"", ⟨l, ⟨.string, text⟩⟩, ?_, rfl⟩
    rw [leadingTokens_of_tokensOf_ok scanned]
    exact List.mem_cons_of_mem _ List.mem_cons_self
  · rintro p ⟨l, t⟩ print rfl goal mem goals names
    exact takes_print print rfl mem goals names

/-- Characters beyond ASCII are no different. -/
theorem question_as_written :
    (∀ c ∈ "¿qué? 'yes'".toList, c ≠ '"' ∧ c ≠ '\\' ∧ c ≠ '%' ∧ ¬Text.isControl c) ∧
      C.Prints "printf(\"¿qué? 'yes'\\n\");" "¿qué? 'yes'" ∧
      ∃ goals, Takes [.statements] .empty
        [⟨⟨1, 1⟩, ⟨.keyword .print, "PRINT"⟩⟩, ⟨⟨1, 7⟩, ⟨.string, "¿qué? 'yes'"⟩⟩]
        [[.enter (.statement (.keyword .print))], [.line "printf(\"¿qué? 'yes'\\n\");"]]
        goals .empty := by
  have legal : ∀ c ∈ "¿qué? 'yes'".toList, c ≠ '"' ∧ c ≠ '\\' ∧ c ≠ '%' ∧ ¬Text.isControl c := by
    simp [Text.isControl]
  obtain ⟨-, as_written, emitted⟩ := printed_text_as_written "¿qué? 'yes'"
  obtain ⟨rest, takes⟩ := emitted ⟨⟨1, 1⟩, ⟨.keyword .print, "PRINT"⟩⟩
    ⟨⟨1, 7⟩, ⟨.string, "¿qué? 'yes'"⟩⟩ rfl rfl .statements (by decide) [] .empty
  have line_eq : printLine "¿qué? 'yes'" = "printf(\"¿qué? 'yes'\\n\");" := by decide +kernel
  rw [line_eq] at as_written takes
  exact ⟨legal, (as_written legal).1, _, takes⟩

end MiniBasic
