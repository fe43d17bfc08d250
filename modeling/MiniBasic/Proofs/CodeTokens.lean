import MiniBasic.Proofs.LosslessCode
import MiniBasic.Proofs.TargetLines

/-!
# Tokens of the generated code

The code of a program as tokens of C, statement by statement (`Tree.codeTokens`). Expressions and
comparisons are in it as the tokens they are made of, one for one. C splits the code into these
tokens (`codeTokens_program`): what a line starts with is read in front of anything, which is what
`C.Opens` says, and so is a whole line.
-/

namespace MiniBasic

namespace C

/-! ## Beginnings of lines -/

def plain (ts : List Token) : List CodeToken := ts.map .plain

/-- What a text comes to, whatever stands behind it. -/
def Opens (text : String) (ts : List CodeToken) : Prop :=
  ∀ rest, codeTokens (text.toList ++ rest) = (codeTokens rest).map (ts ++ ·)

section
variable {a b text : String} {ts us : List CodeToken} {rest : List Char}

theorem Opens.nil : Opens "" [] := by
  intro rest
  simp

theorem Opens.append (first : Opens a ts) (second : Opens b us) : Opens (a ++ b) (ts ++ us) := by
  intro rest
  rw [String.toList_append, List.append_assoc, first, second]
  cases codeTokens rest <;> simp

theorem Opens.read (h : Opens a ts) {plains : List Token} (read : tokens b.toList = some plains) :
    codeTokens (a ++ b).toList = some (ts ++ plain plains) := by
  rw [String.toList_append, h, codeTokens_of_tokens read]
  rfl

theorem Opens.line (h : codeTokens text.toList = some ts) : Opens (text ++ "\n") ts := by
  intro rest
  rw [String.toList_append, List.append_assoc]
  exact codeTokens_line h rest

theorem Opens.plain_line {plains : List Token} (h : tokens text.toList = some plains) :
    Opens (text ++ "\n") (plain plains) :=
  .line (codeTokens_of_tokens h)

/-- The punctuators that no other goes on from. -/
def solitary : List Char := ['(', ')', '\x7b', '\x7d', ';', ',']

theorem piece_solitary {c : Char} (mem : c ∈ solitary) (cs : List Char) :
    piece c cs = .token (.punctuator (String.singleton c)) 0 := by
  simp only [solitary, List.mem_cons, List.not_mem_nil, or_false] at mem
  rcases mem with rfl | rfl | rfl | rfl | rfl | rfl <;> rfl

theorem tokens_solitary {c : Char} (mem : c ∈ solitary) (rest : List Char) :
    tokens (c :: rest) = (tokens rest).map (.punctuator (String.singleton c) :: ·) :=
  tokens_of_char (piece_solitary mem rest)

theorem boundary_solitary {c : Char} (mem : c ∈ solitary) (rest : List Char) :
    Boundary (c :: rest) := by
  apply boundary_cons
  simp only [solitary, List.mem_cons, List.not_mem_nil, or_false] at mem
  rcases mem with rfl | rfl | rfl | rfl | rfl | rfl <;> decide

/-- A word is read in front of a character that goes on with no word. -/
theorem tokens_word_before {name : String} (word : IsWord name.toList) {c : Char}
    (other : isWordChar c = false ∧ c ≠ '.') (rest : List Char) :
    tokens (name.toList ++ c :: rest) = (tokens (c :: rest)).map (.word name :: ·) :=
  tokens_word word (boundary_cons other rest)

/-- An ampersand in front of a name is read as one. -/
theorem tokens_ampersand {name : String} (word : IsWord name.toList) (rest : List Char) :
    tokens ('&' :: (name.toList ++ rest)) =
      (tokens (name.toList ++ rest)).map (.punctuator "&" :: ·) := by
  obtain ⟨c, cs, eq, letter, -⟩ := word
  have alphanum : c.isAlphanum := by simp [Char.isAlphanum, letter]
  have piece : piece '&' (c :: (cs ++ rest)) = .token (.punctuator "&") 0 := by
    simp only [C.piece, punctuators, List.find?_append, find?_punctuators alphanum]
    rfl
  rw [eq]
  exact tokens_of_char piece

theorem tokens_assign (rest : List Char) :
    tokens ('=' :: ' ' :: rest) = (tokens rest).map (.punctuator "=" :: ·) := by
  rw [← tokens_space rest]
  exact tokens_of_char rfl

theorem tokens_zero : tokens ['0', ';'] = some [.number "0", .punctuator ";"] := by
  have zero : tokens ['0', ';'] = (tokens [';']).map (.number "0" :: ·) := tokens_of_char rfl
  rw [zero, tokens_solitary (by decide), tokens_nil]
  rfl

theorem tokens_colon : tokens [':'] = some [.punctuator ":"] := by
  have colon : tokens [':'] = (tokens []).map (.punctuator ":" :: ·) := tokens_of_char rfl
  rw [colon, tokens_nil]
  rfl

/-- A word, a name behind it and a semicolon. -/
theorem tokens_keyword_name {keyword name : String} (first : IsWord keyword.toList)
    (second : IsWord name.toList) : tokens (keyword ++ " " ++ name ++ ";").toList =
      some [.word keyword, .word name, .punctuator ";"] := by
  have split : (keyword ++ " " ++ name ++ ";").toList =
      keyword.toList ++ ' ' :: (name.toList ++ [';']) := by
    simp
  rw [split]
  simp (disch := decide) only [tokens_word_before first, tokens_word_before second, tokens_space,
    tokens_solitary, tokens_nil]
  rfl

theorem tokens_call_end : tokens ");".toList = some [.punctuator ")", .punctuator ";"] := by
  have split : ");".toList = [')', ';'] := by simp
  rw [split]
  simp (disch := decide) only [tokens_solitary, tokens_nil]
  rfl

theorem literalLength_plain {cs : List Char} (chars : ∀ c ∈ cs, c ≠ '"' ∧ c ≠ '\\' ∧ c ≠ '\n')
    (rest : List Char) : literalLength (cs ++ rest) = (literalLength rest).map (· + cs.length) := by
  induction cs with
  | nil => simp
  | cons c cs ih =>
    obtain ⟨⟨not_quote, not_backslash, not_newline⟩, others⟩ := List.forall_mem_cons.mp chars
    have no_escape : ∀ d ds, c = '\\' → cs ++ rest = d :: ds → False :=
      fun _ _ backslash _ => not_backslash backslash
    rw [List.cons_append, literalLength.eq_4 _ _ not_quote no_escape, if_neg not_newline, ih others,
      Option.map_map]
    rfl

/-- The beginning of a call, up to the literal that it starts with. -/
def call (f literal : String) : List CodeToken :=
  [.plain (.word f), .plain (.punctuator "("), .literal literal]

theorem opens_call {f : String} (word : IsWord f.toList)
    (length : ∀ rest, literalLength (text.toList ++ '"' :: rest) = some text.length) :
    Opens (f ++ "(\"" ++ text ++ "\"") (call f text) := by
  intro rest
  obtain ⟨c, cs, eq, letter, alphanum⟩ := word
  have text_eq : String.ofList (c :: cs) = f := by rw [← eq, String.ofList_toList]
  have split : (f ++ "(\"" ++ text ++ "\"").toList ++ rest =
      c :: (cs ++ '(' :: '"' :: (text.toList ++ '"' :: rest)) := by
    simp [eq]
  have parenthesis : '(' ∈ solitary := by decide
  have boundary := boundary_solitary parenthesis ('"' :: (text.toList ++ '"' :: rest))
  have taken : (text.toList ++ '"' :: rest).take text.length = text.toList :=
    List.take_left' String.length_toList
  have dropped : (text.toList ++ '"' :: rest).drop (text.length + 1) = rest := by
    rw [← List.drop_drop, List.drop_left' String.length_toList]
    rfl
  rw [split, codeTokens_of_piece cs (piece_word letter alphanum boundary), text_eq,
    codeTokens_of_char (piece_solitary parenthesis _), codeTokens_quote (length rest), taken, dropped,
    String.ofList_toList]
  cases codeTokens rest <;> rfl

end

end C

/-! ## The tokens of a tree -/

open C (plain call)

/-- The tokens of the code of a statement. -/
def Statement.codeTokens : Statement → List C.CodeToken
  | printText text => call "printf" (text ++ "\\n") ++ plain [.punctuator ")", .punctuator ";"]
  | print e =>
    call "printf" "%.2f\\n" ++ plain ([.punctuator ",", .punctuator "(", .word "float",
      .punctuator ")", .punctuator "("] ++ e.tokens.map Token.toC ++
      [.punctuator ")", .punctuator ")", .punctuator ";"])
  | label name => plain [.word name, .punctuator ":"]
  | goto name => plain [.word "goto", .word name, .punctuator ";"]
  | assign name e =>
    plain ([.word name, .punctuator "="] ++ e.tokens.map Token.toC ++ [.punctuator ";"])
  | input name =>
    plain [.word "if", .punctuator "(", .number "0", .punctuator "=="] ++ call "scanf" "%f" ++
      plain [.punctuator ",", .punctuator "&", .word name, .punctuator ")", .punctuator ")",
        .punctuator "\x7b", .word name, .punctuator "=", .number "0", .punctuator ";"] ++
      call "scanf" "%*s" ++ plain [.punctuator ")", .punctuator ";", .punctuator "\x7d"]

namespace Tree

/-- The tokens of the lines that a tree contributes to `main`. -/
def codeTokens : Tree → List C.CodeToken
  | nil => []
  | simple s next => s.codeTokens ++ next.codeTokens
  | branch c body next =>
    plain ([.word "if", .punctuator "("] ++ c.tokens.map Token.toC ++
      [.punctuator ")", .punctuator "\x7b"]) ++ body.codeTokens ++ plain [.punctuator "\x7d"] ++
      next.codeTokens
  | loop c body next =>
    plain ([.word "while", .punctuator "("] ++ c.tokens.map Token.toC ++
      [.punctuator ")", .punctuator "\x7b"]) ++ body.codeTokens ++ plain [.punctuator "\x7d"] ++
      next.codeTokens

/-- The tokens behind the first line of a program, which includes the header of `printf`. -/
def mainTokens (t : Tree) : List C.CodeToken :=
  (t.assigned.eraseDups.flatMap fun name =>
    plain [.word "float", .word name, .punctuator ";"]) ++
  plain [.word "int", .word "main", .punctuator "(", .word "void", .punctuator ")",
    .punctuator "\x7b"] ++ t.codeTokens ++
  plain [.word "return", .number "0", .punctuator ";", .punctuator "\x7d"]

end Tree

section
open C

theorem opens_printText {text : String} (legal : ∀ c ∈ text.toList, isStringChar c) :
    Opens (Statement.printText text).code (Statement.printText text).codeTokens := by
  have unescaped : ∀ c ∈ text.toList, c ≠ '"' ∧ c ≠ '\\' ∧ c ≠ '\n' := by
    intro c mem
    have c_legal := legal c mem
    refine ⟨?_, ?_, ?_⟩
    all_goals
      rintro rfl
      exact absurd c_legal (by decide)
  have length (rest : List Char) :
      literalLength ((text ++ "\\n").toList ++ '"' :: rest) = some (text ++ "\\n").length := by
    rw [String.toList_append, List.append_assoc, literalLength_plain unescaped,
      ← String.length_toList, String.toList_append, List.length_append, Nat.add_comm]
    rfl
  have opens : Opens ("printf" ++ "(\"" ++ (text ++ "\\n") ++ "\"")
      (call "printf" (text ++ "\\n")) := opens_call (by decide) length
  have line := Opens.line (opens.read tokens_call_end)
  have code_eq : (Statement.printText text).code = "printf" ++ "(\"" ++ (text ++ "\\n") ++ "\"" ++
      ");" ++ "\n" := String.toList_inj.mp (by simp)
  rw [code_eq]
  exact line

theorem opens_print {e : Expression} (lexical : ∀ u ∈ e.tokens, u.Lexical) :
    Opens (Statement.print e).code (Statement.print e).codeTokens := by
  have opens : Opens ("printf" ++ "(\"" ++ "%.2f\\n" ++ "\"") (call "printf" "%.2f\\n") :=
    opens_call (by decide) fun _ => rfl
  have boundary := boundary_solitary (c := ')') (by decide) [')', ';']
  have word : IsWord "float".toList := by decide
  have split : (", (float)(" ++ e.code ++ "));").toList = ',' :: ' ' :: '(' ::
      ("float".toList ++ ')' :: '(' :: (e.code.toList ++ [')', ')', ';'])) := by
    simp
  have tail : tokens (", (float)(" ++ e.code ++ "));").toList = some ([.punctuator ",",
      .punctuator "(", .word "float", .punctuator ")", .punctuator "("] ++
      e.tokens.map Token.toC ++ [.punctuator ")", .punctuator ")", .punctuator ";"]) := by
    rw [split]
    simp (disch := decide) only [tokens_solitary, tokens_space, tokens_nil, tokens_word_before word,
      reads_expression lexical _ boundary]
    simp
  have line := Opens.line (opens.read tail)
  have code_eq : (Statement.print e).code = "printf" ++ "(\"" ++ "%.2f\\n" ++ "\"" ++
      (", (float)(" ++ e.code ++ "));") ++ "\n" := String.toList_inj.mp (by simp)
  rw [code_eq]
  exact line

theorem opens_assign {name : String} {e : Expression} (word : IsWord name.toList)
    (lexical : ∀ u ∈ e.tokens, u.Lexical) :
    Opens (Statement.assign name e).code (Statement.assign name e).codeTokens := by
  have boundary := boundary_solitary (c := ';') (by decide) []
  have split : (name ++ " = " ++ e.code ++ ";").toList =
      name.toList ++ ' ' :: '=' :: ' ' :: (e.code.toList ++ [';']) := by
    simp
  have read : tokens (name ++ " = " ++ e.code ++ ";").toList =
      some ([.word name, .punctuator "="] ++ e.tokens.map Token.toC ++ [.punctuator ";"]) := by
    rw [split]
    simp (disch := decide) only [tokens_word_before word, tokens_space, tokens_assign,
      reads_expression lexical _ boundary, tokens_solitary, tokens_nil]
    simp
  have code_eq : (Statement.assign name e).code = name ++ " = " ++ e.code ++ ";" ++ "\n" :=
    String.toList_inj.mp (by simp)
  rw [code_eq]
  exact .plain_line read

theorem opens_label {name : String} (word : IsWord name.toList) :
    Opens (Statement.label name).code (Statement.label name).codeTokens := by
  have read : tokens (name ++ ":").toList = some [.word name, .punctuator ":"] := by
    have split : (name ++ ":").toList = name.toList ++ [':'] := by simp
    rw [split, tokens_word_before word (by decide), tokens_colon]
    rfl
  have code_eq : (Statement.label name).code = name ++ ":" ++ "\n" :=
    String.toList_inj.mp (by simp)
  rw [code_eq]
  exact .plain_line read

theorem opens_goto {name : String} (word : IsWord name.toList) :
    Opens (Statement.goto name).code (Statement.goto name).codeTokens := by
  have code_eq : (Statement.goto name).code = "goto" ++ " " ++ name ++ ";" ++ "\n" :=
    String.toList_inj.mp (by simp)
  rw [code_eq]
  exact .plain_line (tokens_keyword_name (by decide) word)

theorem opens_test : Opens "if(0 == "
    (plain [.word "if", .punctuator "(", .number "0", .punctuator "=="]) := by
  intro rest
  have keyword :
      codeTokens ('i' :: (['f'] ++ '(' :: '0' :: ' ' :: '=' :: '=' :: ' ' :: rest)) = _ :=
    codeTokens_of_piece ['f'] rfl
  have parenthesis : codeTokens ('(' :: '0' :: ' ' :: '=' :: '=' :: ' ' :: rest) = _ :=
    codeTokens_of_char rfl
  have zero : codeTokens ('0' :: ' ' :: '=' :: '=' :: ' ' :: rest) = _ := codeTokens_of_char rfl
  have equal : codeTokens ('=' :: (['='] ++ ' ' :: rest)) = _ := codeTokens_of_piece ['='] rfl
  simp only [List.cons_append, List.nil_append] at keyword equal
  have split : "if(0 == ".toList ++ rest =
      'i' :: 'f' :: '(' :: '0' :: ' ' :: '=' :: '=' :: ' ' :: rest := by
    simp
  rw [split, keyword, parenthesis, zero, codeTokens_blank rfl, equal, codeTokens_blank rfl]
  cases codeTokens rest <;> rfl

theorem opens_brace : Opens ("\x7d" ++ "\n") (plain [.punctuator "\x7d"]) :=
  .plain_line (by simp (disch := decide) [tokens_solitary])

theorem opens_input {name : String} (word : IsWord name.toList) :
    Opens (Statement.input name).code (Statement.input name).codeTokens := by
  have asks : Opens ("scanf" ++ "(\"" ++ "%f" ++ "\"") (call "scanf" "%f") :=
    opens_call (by decide) fun _ => rfl
  have drops : Opens ("scanf" ++ "(\"" ++ "%*s" ++ "\"") (call "scanf" "%*s") :=
    opens_call (by decide) fun _ => rfl
  have tail : tokens (", &" ++ name ++ ")) \x7b").toList = some [.punctuator ",", .punctuator "&",
      .word name, .punctuator ")", .punctuator ")", .punctuator "\x7b"] := by
    have split : (", &" ++ name ++ ")) \x7b").toList =
        ',' :: ' ' :: '&' :: (name.toList ++ [')', ')', ' ', '\x7b']) := by
      simp
    rw [split]
    simp (disch := decide) [tokens_solitary, tokens_ampersand word, tokens_word_before word]
  have reset : tokens (name ++ " = 0;").toList =
      some [.word name, .punctuator "=", .number "0", .punctuator ";"] := by
    have split : (name ++ " = 0;").toList =
        name.toList ++ ' ' :: '=' :: ' ' :: ['0', ';'] := by
      simp
    rw [split]
    simp (disch := decide) [tokens_word_before word, tokens_assign, tokens_zero]
  have code_eq : (Statement.input name).code =
      "if(0 == " ++ ("scanf" ++ "(\"" ++ "%f" ++ "\"" ++ (", &" ++ name ++ ")) \x7b") ++ "\n") ++
      (name ++ " = 0;" ++ "\n") ++ ("scanf" ++ "(\"" ++ "%*s" ++ "\"" ++ ");" ++ "\n") ++
      ("\x7d" ++ "\n") := String.toList_inj.mp (by simp)
  have lines := (((opens_test.append (Opens.line (asks.read tail))).append
    (Opens.plain_line reset)).append (Opens.line (drops.read tokens_call_end))).append
    opens_brace
  rw [code_eq]
  simpa [Statement.codeTokens, plain] using lines

theorem opens_head {keyword : String} {c : Comparison} (word : IsWord keyword.toList)
    (lexical : ∀ u ∈ c.tokens, u.Lexical) : Opens (keyword ++ "(" ++ c.code ++ ")\x7b" ++ "\n")
      (plain ([.word keyword, .punctuator "("] ++ c.tokens.map Token.toC ++
        [.punctuator ")", .punctuator "\x7b"])) := by
  have boundary := boundary_solitary (c := ')') (by decide) ['\x7b']
  have split : (keyword ++ "(" ++ c.code ++ ")\x7b").toList =
      keyword.toList ++ '(' :: (c.code.toList ++ [')', '\x7b']) := by
    simp
  apply Opens.plain_line
  rw [split]
  simp (disch := decide) [tokens_word_before word, tokens_solitary,
    Comparison.reads_code lexical _ boundary]

theorem Statement.opens {s : Statement} (lexical : ∀ u ∈ s.tokens, u.Lexical) :
    Opens s.code s.codeTokens := by
  have word {name : String} (mem : ⟨.ident, name⟩ ∈ s.tokens) : IsWord name.toList :=
    (lexical _ mem).ident rfl
  cases s with
  | printText text =>
    exact opens_printText ((lexical ⟨.string, text⟩ (by simp [tokens])).string rfl)
  | print e => exact opens_print (List.forall_mem_cons.mp lexical).2
  | label name => exact opens_label (word (by simp [tokens]))
  | goto name => exact opens_goto (word (by simp [tokens]))
  | assign name e =>
    exact opens_assign (word (by simp [tokens])) fun u mem => lexical u (by simp [tokens, mem])
  | input name => exact opens_input (word (by simp [tokens]))

/-- A statement with a block is opened by its head. -/
theorem opens_block {keyword : String} {c : Comparison} {body next : Tree}
    (word : IsWord keyword.toList) (lexical : ∀ u ∈ c.tokens, u.Lexical)
    (body_opens : Opens body.code body.codeTokens) (next_opens : Opens next.code next.codeTokens) :
    Opens (keyword ++ "(" ++ c.code ++ ")\x7b\n" ++ body.code ++ "\x7d\n" ++ next.code)
      (plain ([.word keyword, .punctuator "("] ++ c.tokens.map Token.toC ++
        [.punctuator ")", .punctuator "\x7b"]) ++ body.codeTokens ++ plain [.punctuator "\x7d"] ++
        next.codeTokens) := by
  have block := (((opens_head word lexical).append body_opens).append opens_brace).append next_opens
  have code_eq : keyword ++ "(" ++ c.code ++ ")\x7b\n" ++ body.code ++ "\x7d\n" ++ next.code =
      keyword ++ "(" ++ c.code ++ ")\x7b" ++ "\n" ++ body.code ++ ("\x7d" ++ "\n") ++ next.code :=
    String.toList_inj.mp (by simp)
  rwa [code_eq]

theorem Tree.opens {t : Tree} (lexical : ∀ u ∈ t.tokens, u.Lexical) :
    Opens t.code t.codeTokens := by
  induction t with
  | nil => exact .nil
  | simple s next ih =>
    simp only [tokens, List.forall_mem_append, List.forall_mem_cons] at lexical
    exact (s.opens lexical.1).append (ih lexical.2.2)
  | branch c body next ih_body ih =>
    simp only [tokens, List.cons_append, List.append_assoc, List.forall_mem_append,
      List.forall_mem_cons] at lexical
    obtain ⟨-, condition, -, -, body_lexical, -, -, next_lexical⟩ := lexical
    have word : IsWord "if".toList := by decide
    have opening : "if" ++ "(" = "if(" := by decide
    have block := opens_block word condition (ih_body body_lexical) (ih next_lexical)
    rwa [opening] at block
  | loop c body next ih_body ih =>
    simp only [tokens, List.cons_append, List.append_assoc, List.forall_mem_append,
      List.forall_mem_cons] at lexical
    obtain ⟨-, condition, -, -, body_lexical, -, -, next_lexical⟩ := lexical
    have word : IsWord "while".toList := by decide
    have opening : "while" ++ "(" = "while(" := by decide
    have block := opens_block word condition (ih_body body_lexical) (ih next_lexical)
    rwa [opening] at block

theorem opens_declarations {names : List String} (words : ∀ name ∈ names, IsWord name.toList) :
    Opens (String.join (names.map fun name => "float " ++ name ++ ";\n"))
      (names.flatMap fun name => plain [.word "float", .word name, .punctuator ";"]) := by
  induction names with
  | nil => exact .nil
  | cons name names ih =>
    obtain ⟨first, others⟩ := List.forall_mem_cons.mp words
    have word : IsWord "float".toList := by decide
    have declared := Opens.plain_line (tokens_keyword_name word first)
    have code_eq : "float " ++ name ++ ";\n" = "float" ++ " " ++ name ++ ";" ++ "\n" :=
      String.toList_inj.mp (by simp)
    rw [List.map_cons, String.join_cons, List.flatMap_cons, code_eq]
    exact declared.append (ih others)

theorem opens_main : Opens ("int main(void)\x7b" ++ "\n") (plain [.word "int", .word "main",
    .punctuator "(", .word "void", .punctuator ")", .punctuator "\x7b"]) := by
  have split : "int main(void)\x7b".toList =
      "int".toList ++ ' ' :: ("main".toList ++ '(' :: ("void".toList ++ [')', '\x7b'])) := by
    simp
  have int : IsWord "int".toList := by decide
  have main : IsWord "main".toList := by decide
  have void : IsWord "void".toList := by decide
  apply Opens.plain_line
  rw [split]
  simp (disch := decide) only [tokens_word_before int, tokens_word_before main,
    tokens_word_before void, tokens_space, tokens_solitary, tokens_nil]
  rfl

theorem opens_return :
    Opens ("return 0;" ++ "\n") (plain [.word "return", .number "0", .punctuator ";"]) := by
  have split : "return 0;".toList = "return".toList ++ ' ' :: ['0', ';'] := by simp
  have word : IsWord "return".toList := by decide
  apply Opens.plain_line
  rw [split, tokens_word_before word (by decide), tokens_space, tokens_zero]
  rfl

/-- The tokens of a program behind its first line. -/
theorem codeTokens_program {t : Tree} (lexical : ∀ u ∈ t.tokens, u.Lexical) :
    ∃ main, t.program = "#include <stdio.h>\n" ++ main ∧
      C.codeTokens main.toList = some t.mainTokens := by
  have words : ∀ name ∈ t.assigned.eraseDups, IsWord name.toList := fun name mem =>
    t.isWord_of_mem lexical (.inl (List.mem_eraseDups.mp mem))
  have declared := opens_declarations words
  have main := ((declared.append opens_main).append (t.opens lexical)).append
    (opens_return.append opens_brace)
  generalize declarations : String.join (t.assigned.eraseDups.map fun name =>
    "float " ++ name ++ ";\n") = header at main
  have code_eq : t.program = "#include <stdio.h>\n" ++ (header ++ ("int main(void)\x7b" ++ "\n") ++
      t.code ++ ("return 0;" ++ "\n" ++ ("\x7d" ++ "\n"))) := by
    have opening : "int main(void)\x7b" ++ "\n" = "int main(void)\x7b\n" := by decide
    have ending : "return 0;" ++ "\n" ++ ("\x7d" ++ "\n") = "return 0;\n\x7d\n" := by decide
    unfold Tree.program
    rw [declarations, opening, ending]
    simp only [String.append_assoc]
  have read := main []
  rw [List.append_nil, codeTokens_nil] at read
  refine ⟨_, code_eq, ?_⟩
  rw [read, Option.map_some, List.append_nil]
  simp only [Tree.mainTokens, plain, List.append_assoc, List.map_cons, List.map_nil,
    List.cons_append, List.nil_append]

end

end MiniBasic
