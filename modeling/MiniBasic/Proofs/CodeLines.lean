import MiniBasic.Proofs.AcceptedTree

/-!
# Lines of the generated code

The generated C is read line by line. Every piece of it that a tree contributes consists of whole
lines (`Tree.lines`), since no token has a newline in its text, so the lines of the code are those
of the tree between a header and an ending (`CompilesAs.linesOf_code`).
-/

namespace MiniBasic

/-- The lines of a text without their newlines, and at last what stands behind the last newline. -/
def linesOf (text : String) : List String := (text.toList.splitOn '\n').map String.ofList

/-- The text that consists of these lines. -/
def unlines (lines : List String) : String := String.join (lines.map (· ++ "\n"))

/-- The text has no newline. -/
def OneLine (text : String) : Prop := '\n' ∉ text.toList

instance (text : String) : Decidable (OneLine text) := inferInstanceAs (Decidable (_ ∉ _))

@[simp] theorem unlines_nil : unlines [] = "" := rfl

@[simp] theorem unlines_cons (line : String) (lines : List String) :
    unlines (line :: lines) = line ++ "\n" ++ unlines lines := by
  simp [unlines]

@[simp] theorem unlines_append (lines lines' : List String) :
    unlines (lines ++ lines') = unlines lines ++ unlines lines' := by
  simp [unlines]

theorem linesOf_append {line : String} (h : OneLine line) (text : String) :
    linesOf (line ++ "\n" ++ text) = line :: linesOf text := by
  have other (c : Char) (mem : c ∈ line.toList) : (c == '\n') = false := by
    rw [beq_eq_false_iff_ne]
    rintro rfl
    exact h mem
  have split := List.splitOnP_append_cons_of_forall_mem other '\n' (by decide) text.toList
  simp only [linesOf, List.splitOn, String.toList_append] at split ⊢
  simp [split]

theorem linesOf_unlines {lines : List String} (h : ∀ line ∈ lines, OneLine line) :
    linesOf (unlines lines) = lines ++ [""] := by
  induction lines with
  | nil => rfl
  | cons line lines ih =>
    obtain ⟨first, rest⟩ := List.forall_mem_cons.mp h
    rw [unlines_cons, linesOf_append first, ih rest, List.cons_append]

/-! ## The lines of a tree -/

def Statement.lines : Statement → List String
  | printText text => ["printf(\"" ++ text ++ "\\n\");"]
  | print e => ["printf(\"%.2f\\n\", (float)(" ++ e.code ++ "));"]
  | label name => [name ++ ":"]
  | goto name => ["goto " ++ name ++ ";"]
  | assign name e => [name ++ " = " ++ e.code ++ ";"]
  | input name =>
    ["if(0 == scanf(\"%f\", &" ++ name ++ ")) \x7b", name ++ " = 0;", "scanf(\"%*s\");", "\x7d"]

namespace Tree

def lines : Tree → List String
  | nil => []
  | simple s next => s.lines ++ next.lines
  | branch c body next => ("if(" ++ c.code ++ ")\x7b") :: body.lines ++ "\x7d" :: next.lines
  | loop c body next => ("while(" ++ c.code ++ ")\x7b") :: body.lines ++ "\x7d" :: next.lines

def declarationLines (t : Tree) : List String :=
  t.assigned.eraseDups.map fun name => "float " ++ name ++ ";"

/-- All lines of the code of a tree. -/
def programLines (t : Tree) : List String :=
  "#include <stdio.h>" :: t.declarationLines ++ "int main(void)\x7b" :: t.lines ++
    ["return 0;", "\x7d"]

end Tree

theorem Statement.code_eq_unlines (s : Statement) : s.code = unlines s.lines := by
  cases s <;> simp [lines, String.append_assoc]

theorem Tree.code_eq_unlines (t : Tree) : t.code = unlines t.lines := by
  induction t with
  | nil => rfl
  | simple s next ih => simp [code, lines, s.code_eq_unlines, ih]
  | branch c body next ih_body ih | loop c body next ih_body ih =>
    have opening : ")\x7b\n" = ")\x7b" ++ "\n" := by decide
    have closing : "\x7d\n" = "\x7d" ++ "\n" := by decide
    simp only [code, lines, unlines_cons, unlines_append, List.cons_append, ih_body, ih, opening,
      closing, String.append_assoc]

theorem Tree.program_eq_unlines (t : Tree) : t.program = unlines t.programLines := by
  have newline : ";\n" = ";" ++ "\n" := by decide
  have including : "#include <stdio.h>\n" = "#include <stdio.h>" ++ "\n" := by decide
  have opening : "int main(void)\x7b\n" = "int main(void)\x7b" ++ "\n" := by decide
  have ending : "return 0;\n\x7d\n" = "return 0;" ++ ("\n" ++ ("\x7d" ++ "\n")) := by decide
  unfold program programLines declarationLines
  simp only [unlines_append, unlines_cons, unlines_nil, t.code_eq_unlines, newline, including,
    opening, ending, String.append_assoc, List.cons_append, String.append_empty]
  simp [unlines, Function.comp_def, String.append_assoc]

/-! ## Texts that are no longer than a line -/

section
variable {a b : String}

@[simp] theorem oneLine_append : OneLine (a ++ b) ↔ OneLine a ∧ OneLine b := by
  simp [OneLine]

end

theorem Token.Lexical.oneLine {t : Token} (h : t.Lexical)
    (kind : t.kind = .number ∨ t.kind = .ident ∨ t.kind = .string) : OneLine t.text := by
  rcases kind with number | ident | string
  · exact (h.number number).not_mem (by decide) (by decide)
  · exact (h.ident ident).not_mem (by decide)
  · intro mem
    exact absurd (h.string string '\n' mem) (by decide)

theorem Sign.oneLine (op : Sign) : OneLine op.token.text := by
  cases op <;> decide

theorem Scale.oneLine (op : Scale) : OneLine op.token.text := by
  cases op <;> decide

theorem Relation.oneLine (op : Relation) : OneLine op.token.text := by
  cases op <;> decide

theorem Factor.oneLine {f : Factor} (h : ∀ u ∈ f.tokens, u.Lexical) : OneLine f.code := by
  obtain ⟨sign, operand⟩ := f
  have lexical : operand.token.Lexical := h _ (by simp [tokens])
  have operand_line : OneLine operand.code := by
    cases operand with
    | number text => exact lexical.oneLine (.inl rfl)
    | variable_ name => exact lexical.oneLine (.inr (.inl rfl))
  rw [code, oneLine_append]
  refine ⟨?_, operand_line⟩
  cases sign with
  | none => exact List.not_mem_nil
  | some op => exact op.oneLine

section
variable {α β : Type} (op : α → Token) (tokens : β → List Token) (code : β → String)

theorem oneLine_repeated (op_line : ∀ a, OneLine (op a).text)
    (one : ∀ b, (∀ u ∈ tokens b, u.Lexical) → OneLine (code b)) {xs : List (α × β)}
    (h : ∀ u ∈ xs.flatMap (fun x => op x.1 :: tokens x.2), u.Lexical) :
    OneLine (String.join (xs.map fun x => " " ++ (op x.1).text ++ " " ++ code x.2)) := by
  have space : OneLine " " := by decide
  induction xs with
  | nil => exact nofun
  | cons x xs ih =>
    rw [List.flatMap_cons, List.forall_mem_append] at h
    have operand := one x.2 (List.forall_mem_cons.mp h.1).2
    rw [List.map_cons, String.join_cons]
    simp only [oneLine_append]
    exact ⟨⟨⟨⟨space, op_line x.1⟩, space⟩, operand⟩, ih h.2⟩

end

theorem Term.oneLine {t : Term} (h : ∀ u ∈ t.tokens, u.Lexical) : OneLine t.code := by
  obtain ⟨first, rest⟩ := List.forall_mem_append.mp h
  rw [code_eq, oneLine_append]
  exact ⟨Factor.oneLine first, oneLine_repeated Scale.token Factor.tokens Factor.code Scale.oneLine
    (fun _ => Factor.oneLine) rest⟩

theorem Expression.oneLine {e : Expression} (h : ∀ u ∈ e.tokens, u.Lexical) : OneLine e.code := by
  obtain ⟨first, rest⟩ := List.forall_mem_append.mp h
  rw [code_eq, oneLine_append]
  exact ⟨Term.oneLine first, oneLine_repeated Sign.token Term.tokens Term.code Sign.oneLine
    (fun _ => Term.oneLine) rest⟩

theorem Comparison.oneLine {c : Comparison} (h : ∀ u ∈ c.tokens, u.Lexical) : OneLine c.code := by
  obtain ⟨first, rest⟩ := List.forall_mem_append.mp h
  rw [code_eq, oneLine_append]
  exact ⟨Expression.oneLine first, oneLine_repeated Relation.token Expression.tokens
    Expression.code Relation.oneLine (fun _ => Expression.oneLine) rest⟩

theorem Token.Lexical.oneLine_name {name : String} (h : Token.Lexical ⟨.ident, name⟩) :
    OneLine name := h.oneLine (.inr (.inl rfl))

theorem Statement.oneLine {s : Statement} (h : ∀ u ∈ s.tokens, u.Lexical) :
    ∀ line ∈ s.lines, OneLine line := by
  cases s with
  | printText text =>
    have text_line : OneLine text :=
      Token.Lexical.oneLine (h ⟨.string, text⟩ (by simp [tokens])) (.inr (.inr rfl))
    have : OneLine "printf(\"" ∧ OneLine "\\n\");" := by decide
    simp [lines, text_line, this]
  | print e =>
    have code_line : OneLine e.code := Expression.oneLine (List.forall_mem_cons.mp h).2
    have : OneLine "printf(\"%.2f\\n\", (float)(" ∧ OneLine "));" := by decide
    simp [lines, code_line, this]
  | label name =>
    have name_line := Token.Lexical.oneLine_name (h ⟨.ident, name⟩ (by simp [tokens]))
    have : OneLine ":" := by decide
    simp [lines, name_line, this]
  | goto name =>
    have name_line := Token.Lexical.oneLine_name (h ⟨.ident, name⟩ (by simp [tokens]))
    have : OneLine "goto " ∧ OneLine ";" := by decide
    simp [lines, name_line, this]
  | assign name e =>
    have name_line := Token.Lexical.oneLine_name (h ⟨.ident, name⟩ (by simp [tokens]))
    have code_line : OneLine e.code := Expression.oneLine fun u mem => h u (by simp [tokens, mem])
    have : OneLine " = " ∧ OneLine ";" := by decide
    simp [lines, name_line, code_line, this]
  | input name =>
    have name_line := Token.Lexical.oneLine_name (h ⟨.ident, name⟩ (by simp [tokens]))
    have : OneLine "if(0 == scanf(\"%f\", &" ∧ OneLine ")) \x7b" ∧ OneLine " = 0;" ∧
      OneLine "scanf(\"%*s\");" ∧ OneLine "\x7d" := by decide
    simp [lines, name_line, this]

theorem oneLine_head {keyword : String} (keyword_line : OneLine keyword) {c : Comparison}
    (h : ∀ u ∈ c.tokens, u.Lexical) : OneLine (keyword ++ c.code ++ ")\x7b") := by
  have : OneLine ")\x7b" := by decide
  simp [keyword_line, Comparison.oneLine h, this]

namespace Tree
variable {t : Tree}

theorem oneLine (h : ∀ u ∈ t.tokens, u.Lexical) : ∀ line ∈ t.lines, OneLine line := by
  have closing : OneLine "\x7d" := by decide
  induction t with
  | nil => simp [lines]
  | simple s next ih =>
    simp only [tokens, List.forall_mem_append, List.forall_mem_cons] at h
    exact List.forall_mem_append.mpr ⟨s.oneLine h.1, ih h.2.2⟩
  | branch c body next ih_body ih | loop c body next ih_body ih =>
    simp only [tokens, List.cons_append, List.append_assoc, List.forall_mem_append,
      List.forall_mem_cons] at h
    obtain ⟨-, condition, -, -, body_lexical, -, -, next_lexical⟩ := h
    simp only [lines, List.cons_append, List.forall_mem_append, List.forall_mem_cons]
    exact ⟨oneLine_head (by decide) condition, ih_body body_lexical, closing, ih next_lexical⟩

theorem ident_mem_tokens {name : String}
    (h : name ∈ t.assigned ∨ name ∈ t.labels ∨ name ∈ t.jumps) : ⟨.ident, name⟩ ∈ t.tokens := by
  induction t with
  | nil => simp [assigned, labels, jumps] at h
  | simple s next ih =>
    cases s <;> simp only [assigned, labels, jumps, List.mem_cons] at h <;>
      simp only [tokens, Statement.tokens, List.mem_append, List.mem_cons] <;> tauto
  | branch c body next ih_body ih | loop c body next ih_body ih =>
    simp only [assigned, labels, jumps, List.mem_append] at h
    simp only [tokens, List.cons_append, List.mem_append, List.mem_cons]
    tauto

/-- Names are words. -/
theorem isWord_of_mem (lexical : ∀ u ∈ t.tokens, u.Lexical) {name : String}
    (h : name ∈ t.assigned ∨ name ∈ t.labels ∨ name ∈ t.jumps) : IsWord name.toList :=
  (lexical _ (ident_mem_tokens h)).ident rfl

theorem oneLine_programLines (lexical : ∀ u ∈ t.tokens, u.Lexical) :
    ∀ line ∈ t.programLines, OneLine line := by
  have declared : ∀ line ∈ t.declarationLines, OneLine line := by
    intro line mem
    obtain ⟨name, known, rfl⟩ := List.mem_map.mp mem
    have name_line : OneLine name :=
      (isWord_of_mem lexical (.inl (List.mem_eraseDups.mp known))).not_mem (by decide)
    have : OneLine "float " ∧ OneLine ";" := by decide
    simp [name_line, this]
  have : OneLine "#include <stdio.h>" ∧ OneLine "int main(void)\x7b" ∧ OneLine "return 0;" ∧
    OneLine "\x7d" := by decide
  simp only [programLines, List.cons_append, List.forall_mem_append, List.forall_mem_cons]
  exact ⟨this.1, ⟨declared, this.2.1, oneLine lexical⟩, this.2.2.1, this.2.2.2, nofun⟩

end Tree

theorem CompilesAs.linesOf_code {source code : String} {t : Tree} (h : CompilesAs source t code) :
    linesOf code = t.programLines ++ [""] := by
  rw [h.code_eq, t.program_eq_unlines, linesOf_unlines (t.oneLine_programLines h.lexical)]

/-! ## Shapes of lines -/

/-- The two characters behind the letters and digits that a line starts with. -/
def shape (line : String) : List Char := (line.toList.dropWhile Char.isAlphanum).take 2

section
variable {a b name : String}

theorem shape_append (long : 2 ≤ (a.toList.dropWhile Char.isAlphanum).length) (b : String) :
    shape (a ++ b) = shape a := by
  have ne_nil : a.toList.dropWhile Char.isAlphanum ≠ [] := by
    intro nil
    simp [nil] at long
  simp only [shape, String.toList_append]
  rw [List.dropWhile_append, if_neg (by simpa using ne_nil), List.take_append_of_le_length long]

theorem shape_word (word : IsWord name.toList) (b : String) : shape (name ++ b) = shape b := by
  simp only [shape, String.toList_append]
  rw [List.dropWhile_append_of_pos word.isAlphanum]

theorem shape_label (word : IsWord name.toList) : shape (name ++ ":") = [':'] :=
  shape_word word ":"

theorem shape_assign (word : IsWord name.toList) (b : String) :
    shape (name ++ " = " ++ b) = [' ', '='] := by
  rw [String.append_assoc, shape_word word, shape_append (by decide)]
  decide

/-- Behind a keyword with a space comes the first letter of the name. -/
theorem shape_keyword (a : String) (keyword : a.toList.dropWhile Char.isAlphanum = [' '])
    (word : IsWord name.toList) (b : String) :
    ∃ c, c.isAlpha ∧ shape (a ++ name ++ b) = [' ', c] := by
  obtain ⟨c, rest, eq, letter, -⟩ := word
  refine ⟨c, letter, ?_⟩
  simp only [shape, String.toList_append, List.append_assoc]
  rw [List.dropWhile_append, keyword, eq]
  rfl

end

end MiniBasic
