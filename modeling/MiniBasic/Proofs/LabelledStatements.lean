import MiniBasic.Proofs.CodeLines

/-!
# Labelled statements

A label of C stands in front of a statement, in the same block. The generated code has a line for
each label, and the next line that is not a label has to begin a statement. At the end of `main`
there is always one. A block of the source may end with a label though, and then the brace that
closes the block comes next. `labelsStatements_programLines_iff` says that nothing else goes wrong.
-/

namespace MiniBasic

/-! ## Lines -/

def IsLabelLine (line : String) : Prop := ∃ name : String, IsWord name.toList ∧ line = name ++ ":"

/-- What the statements begin with that the generated code consists of, apart from assignments. -/
def statementOpenings : List String := ["printf(", "scanf(", "goto ", "if(", "while(", "return "]

/-- The line begins a statement of C. -/
inductive BeginsStatement : String → Prop
  | opening {opening : String} (mem : opening ∈ statementOpenings) (rest : String) :
    BeginsStatement (opening ++ rest)
  | assignment {name : String} (word : IsWord name.toList) (rest : String) :
    BeginsStatement (name ++ " = " ++ rest)

/-- The first line that is not that of a label begins a statement. -/
def StatementAhead : List String → Prop
  | [] => False
  | line :: lines => BeginsStatement line ∨ IsLabelLine line ∧ StatementAhead lines

/-- Every label has a statement ahead. -/
def LabelsStatements : List String → Prop
  | [] => True
  | line :: lines => (IsLabelLine line → StatementAhead lines) ∧ LabelsStatements lines

theorem IsLabelLine.shape {line : String} (h : IsLabelLine line) : shape line = [':'] := by
  obtain ⟨name, word, rfl⟩ := h
  exact shape_label word

/-- Lines that are not those of labels do not matter. -/
theorem labelsStatements_append_iff {lines : List String} (h : ∀ line ∈ lines, shape line ≠ [':'])
    (rest : List String) : LabelsStatements (lines ++ rest) ↔ LabelsStatements rest := by
  induction lines with
  | nil => rfl
  | cons line lines ih =>
    obtain ⟨first, others⟩ := List.forall_mem_cons.mp h
    rw [List.cons_append, LabelsStatements, ih others]
    exact and_iff_right fun label => absurd label.shape first

/-! ## Statements -/

/-- The statement places a label. -/
def Statement.IsLabel : Statement → Prop
  | label _ => True
  | _ => False

theorem beginsStatement_of_eq {line : String} (opening rest : String)
    (mem : opening ∈ statementOpenings) (eq : line = opening ++ rest) : BeginsStatement line :=
  eq ▸ .opening mem rest

theorem BeginsStatement.head_shape {line : String} (h : BeginsStatement line) :
    (shape line).head? = some ' ' ∨ (shape line).head? = some '(' := by
  cases h with
  | @opening opening mem rest =>
    simp only [statementOpenings, List.mem_cons, List.not_mem_nil, or_false] at mem
    rcases mem with rfl | rfl | rfl | rfl | rfl | rfl <;> simp [shape]
  | assignment word rest => simp [shape_assign word]

theorem BeginsStatement.not_isLabelLine {line : String} (h : BeginsStatement line) :
    ¬IsLabelLine line := by
  intro label
  have head := h.head_shape
  simp [label.shape] at head

theorem BeginsStatement.append {line : String} (h : BeginsStatement line) (rest : String) :
    BeginsStatement (line ++ rest) := by
  cases h with
  | opening mem rest' =>
    rw [String.append_assoc]
    exact .opening mem (rest' ++ rest)
  | assignment word rest' =>
    rw [String.append_assoc]
    exact .assignment word (rest' ++ rest)

namespace Statement
variable {s : Statement}

theorem shape_ne_of_not_isLabel (h : ¬s.IsLabel) (lexical : ∀ u ∈ s.tokens, u.Lexical) :
    ∀ line ∈ s.lines, shape line ≠ [':'] := by
  cases s with
  | label name => exact absurd trivial h
  | printText text =>
    have printed : shape ("printf(\"" ++ text ++ "\\n\");") = ['(', '"'] := by
      rw [String.append_assoc, shape_append (by decide)]
      decide
    simp [lines, printed]
  | print e =>
    have printed : shape ("printf(\"%.2f\\n\", (float)(" ++ e.code ++ "));") = ['(', '"'] := by
      rw [String.append_assoc, shape_append (by decide)]
      decide
    simp [lines, printed]
  | goto name =>
    have word := (lexical ⟨.ident, name⟩ (by simp [tokens])).ident rfl
    obtain ⟨c, -, jump⟩ := shape_keyword "goto " (by decide) word ";"
    simp [lines, jump]
  | assign name e =>
    have word := (lexical ⟨.ident, name⟩ (by simp [tokens])).ident rfl
    have assigned : shape (name ++ " = " ++ e.code ++ ";") = [' ', '='] := by
      rw [String.append_assoc, shape_assign word]
    simp [lines, assigned]
  | input name =>
    have word := (lexical ⟨.ident, name⟩ (by simp [tokens])).ident rfl
    have read : shape ("if(0 == scanf(\"%f\", &" ++ name ++ ")) \x7b") = ['(', '0'] := by
      rw [String.append_assoc, shape_append (by decide)]
      decide
    have assigned : shape (name ++ " = 0;") = [' ', '='] := shape_word word " = 0;"
    have others : shape "scanf(\"%*s\");" = ['(', '"'] ∧ shape "\x7d" = ['\x7d'] := by decide
    simp [lines, read, assigned, others]

theorem statementAhead_of_not_isLabel (h : ¬s.IsLabel) (lexical : ∀ u ∈ s.tokens, u.Lexical)
    (rest : List String) : StatementAhead (s.lines ++ rest) := by
  cases s with
  | label name => exact absurd trivial h
  | printText text =>
    have printed : BeginsStatement "printf(\"" :=
      beginsStatement_of_eq "printf(" "\"" (by decide) (by decide)
    exact .inl ((printed.append text).append "\\n\");")
  | print e =>
    have printed : BeginsStatement "printf(\"%.2f\\n\", (float)(" :=
      beginsStatement_of_eq "printf(" "\"%.2f\\n\", (float)(" (by decide) (by decide)
    exact .inl ((printed.append e.code).append "));")
  | goto name =>
    have jump : BeginsStatement ("goto " ++ name) := .opening (by decide) name
    exact .inl (jump.append ";")
  | assign name e =>
    have word := (lexical ⟨.ident, name⟩ (by simp [tokens])).ident rfl
    exact .inl ((BeginsStatement.assignment word e.code).append ";")
  | input name =>
    have read : BeginsStatement "if(0 == scanf(\"%f\", &" :=
      beginsStatement_of_eq "if(" "0 == scanf(\"%f\", &" (by decide) (by decide)
    exact .inl ((read.append name).append ")) \x7b")

end Statement

namespace Tree

/-- The last statement is a label. -/
def EndsWithLabel : Tree → Prop
  | nil => False
  | simple s next => s.IsLabel ∧ next = nil ∨ next.EndsWithLabel
  | branch _ _ next | loop _ _ next => next.EndsWithLabel

/-- No block ends with a label. -/
def BlocksEndWithStatement : Tree → Prop
  | nil => True
  | simple _ next => next.BlocksEndWithStatement
  | branch _ body next | loop _ body next =>
    ¬body.EndsWithLabel ∧ body.BlocksEndWithStatement ∧ next.BlocksEndWithStatement

variable {t : Tree} {rest : List String}

theorem beginsStatement_head {keyword : String} (mem : keyword ∈ statementOpenings)
    (c : Comparison) : BeginsStatement (keyword ++ c.code ++ ")\x7b") :=
  (BeginsStatement.opening mem c.code).append ")\x7b"

/-- Unless all is labels up to the last line, a statement is ahead. -/
theorem statementAhead_lines (lexical : ∀ u ∈ t.tokens, u.Lexical)
    (h : t = nil ∨ t.EndsWithLabel → StatementAhead rest) : StatementAhead (t.lines ++ rest) := by
  induction t with
  | nil => exact h (.inl rfl)
  | simple s next ih =>
    simp only [tokens, List.forall_mem_append, List.forall_mem_cons] at lexical
    rw [lines, List.append_assoc]
    by_cases label : s.IsLabel
    · cases s with
      | label name =>
        have word := (lexical.1 ⟨.ident, name⟩ (by simp [Statement.tokens])).ident rfl
        refine .inr ⟨⟨name, word, rfl⟩, ih lexical.2.2 fun last => h (.inr ?_)⟩
        exact last.imp_left fun nil => ⟨label, nil⟩
      | _ => exact label.elim
    · exact Statement.statementAhead_of_not_isLabel label lexical.1 _
  | branch c body next | loop c body next => exact .inl (beginsStatement_head (by decide) c)

theorem not_statementAhead_brace (lines : List String) : ¬StatementAhead ("\x7d" :: lines) := by
  have brace : shape "\x7d" = ['\x7d'] := by decide
  rintro (begins | ⟨label, -⟩)
  · have head := begins.head_shape
    simp [brace] at head
  · simp [label.shape] at brace

/-- Behind the last statement of a block comes a brace. -/
theorem labelsStatements_block_iff (keyword : String) (mem : keyword ∈ statementOpenings)
    (c : Comparison) {body : Tree} (ih : ∀ {rest : List String},
      LabelsStatements (body.lines ++ rest) ↔ body.BlocksEndWithStatement ∧
        (body.EndsWithLabel → StatementAhead rest) ∧ LabelsStatements rest)
    (lines : List String) :
    LabelsStatements ((keyword ++ c.code ++ ")\x7b") :: (body.lines ++ "\x7d" :: lines)) ↔
      ¬body.EndsWithLabel ∧ body.BlocksEndWithStatement ∧ LabelsStatements lines := by
  have opening : ¬IsLabelLine (keyword ++ c.code ++ ")\x7b") :=
    (beginsStatement_head mem c).not_isLabelLine
  have closing : ¬IsLabelLine "\x7d" := by
    intro label
    have brace : shape "\x7d" = ['\x7d'] := by decide
    simp [label.shape] at brace
  simp only [LabelsStatements, opening, closing, ih, not_statementAhead_brace, imp_false,
    false_imp_iff, true_and]
  tauto

theorem labelsStatements_lines_iff (lexical : ∀ u ∈ t.tokens, u.Lexical) :
    LabelsStatements (t.lines ++ rest) ↔ t.BlocksEndWithStatement ∧
      (t.EndsWithLabel → StatementAhead rest) ∧ LabelsStatements rest := by
  induction t generalizing rest with
  | nil => simp [lines, BlocksEndWithStatement, EndsWithLabel]
  | simple s next ih =>
    simp only [tokens, List.forall_mem_append, List.forall_mem_cons] at lexical
    rw [lines, List.append_assoc]
    by_cases label : s.IsLabel
    · cases s with
      | label name =>
        have word := (lexical.1 ⟨.ident, name⟩ (by simp [Statement.tokens])).ident rfl
        have label_line : IsLabelLine (name ++ ":") := ⟨name, word, rfl⟩
        have ahead : (next = nil ∨ next.EndsWithLabel → StatementAhead rest) →
            StatementAhead (next.lines ++ rest) := statementAhead_lines lexical.2.2
        simp only [Statement.lines, List.singleton_append, LabelsStatements, label_line,
          true_imp_iff, ih lexical.2.2, BlocksEndWithStatement, EndsWithLabel, label, true_and]
        constructor
        · rintro ⟨here, blocks, last, others⟩
          refine ⟨blocks, ?_, others⟩
          rintro (rfl | last')
          · exact here
          · exact last last'
        · rintro ⟨blocks, last, others⟩
          exact ⟨ahead last, blocks, fun last' => last (.inr last'), others⟩
      | _ => exact label.elim
    · have shapes := Statement.shape_ne_of_not_isLabel label lexical.1
      rw [labelsStatements_append_iff shapes, ih lexical.2.2]
      simp [BlocksEndWithStatement, EndsWithLabel, label]
  | branch c body next ih_body ih | loop c body next ih_body ih =>
    simp only [tokens, List.cons_append, List.append_assoc, List.forall_mem_append,
      List.forall_mem_cons] at lexical
    obtain ⟨-, -, -, -, body_lexical, -, -, next_lexical⟩ := lexical
    simp only [lines, List.cons_append, List.append_assoc]
    rw [labelsStatements_block_iff _ ?_ c (ih_body body_lexical), ih next_lexical]
    · simp only [BlocksEndWithStatement, EndsWithLabel, and_assoc]
    · decide

theorem labelsStatements_programLines_iff (lexical : ∀ u ∈ t.tokens, u.Lexical) :
    LabelsStatements (t.programLines ++ [""]) ↔ t.BlocksEndWithStatement := by
  have header : ∀ line ∈ "#include <stdio.h>" :: t.declarationLines ++ ["int main(void)\x7b"],
      shape line ≠ [':'] := by
    have declared : ∀ line ∈ t.declarationLines, shape line ≠ [':'] := by
      intro line mem
      obtain ⟨name, known, rfl⟩ := List.mem_map.mp mem
      have word := isWord_of_mem lexical (.inl (List.mem_eraseDups.mp known))
      obtain ⟨c, -, declares⟩ := shape_keyword "float " (by decide) word ";"
      simp [declares]
    simp only [List.cons_append, List.forall_mem_cons, List.forall_mem_append]
    exact ⟨by decide, declared, by decide, nofun⟩
  have ending : ∀ line ∈ ["return 0;", "\x7d", ""], shape line ≠ [':'] := by decide
  have ahead : StatementAhead ["return 0;", "\x7d", ""] :=
    .inl (beginsStatement_of_eq "return " "0;" (by decide) (by decide))
  have nothing : LabelsStatements ["return 0;", "\x7d", ""] := by
    rw [← List.append_nil ["return 0;", "\x7d", ""], labelsStatements_append_iff ending]
    trivial
  have lines_eq : t.programLines ++ [""] =
      ("#include <stdio.h>" :: t.declarationLines ++ ["int main(void)\x7b"]) ++
        (t.lines ++ ["return 0;", "\x7d", ""]) := by simp [programLines]
  rw [lines_eq, labelsStatements_append_iff header, labelsStatements_lines_iff lexical]
  simp [ahead, nothing]

end Tree

/-- Every label of an accepted source labels a statement of the generated code, if and only if no
block of the source ends with a label. -/
theorem labels_label_statements_iff {source code : String} (h : compile source = .ok code) :
    ∃ t, Spells source t ∧ (LabelsStatements (linesOf code) ↔ t.BlocksEndWithStatement) := by
  obtain ⟨t, compiles⟩ := exists_tree h
  refine ⟨t, compiles.spelled, ?_⟩
  rw [compiles.linesOf_code]
  exact Tree.labelsStatements_programLines_iff compiles.lexical

/-- A label at the end of `main` is followed by the final `return`. -/
theorem label_before_return :
    LabelsStatements (linesOf "#include <stdio.h>\nint main(void)\x7b\na:\nreturn 0;\n\x7d\n") := by
  have compiled : compile "LABEL a" =
      .ok "#include <stdio.h>\nint main(void)\x7b\na:\nreturn 0;\n\x7d\n" := by decide +kernel
  obtain ⟨t, spelled, labels⟩ := labels_label_statements_iff compiled
  have tree : Spells "LABEL a" (.simple (.label "a") .nil) :=
    ⟨leadingTokens "LABEL a", by decide +kernel, by decide +kernel⟩
  obtain rfl := spelled.unique tree
  exact labels.mpr trivial

/-- The brace that closes a block comes right behind a label at its end. -/
theorem label_before_brace :
    let code := "#include <stdio.h>\nint main(void)\x7b\nif(1 > 0)\x7b\na:\n\x7d\nreturn 0;\n\x7d\n"
    compile "IF 1 > 0 THEN\nLABEL a\nENDIF\n" = .ok code ∧ ¬LabelsStatements (linesOf code) := by
  intro code
  have lines : linesOf code = ["#include <stdio.h>", "int main(void)\x7b", "if(1 > 0)\x7b", "a:",
      "\x7d", "return 0;", "\x7d", ""] := by decide +kernel
  refine ⟨by decide +kernel, ?_⟩
  rw [lines]
  intro labels
  have label : IsLabelLine "a:" := ⟨"a", ⟨'a', [], rfl, by decide, nofun⟩, rfl⟩
  exact Tree.not_statementAhead_brace _ (labels.2.2.2.1 label)

end MiniBasic
