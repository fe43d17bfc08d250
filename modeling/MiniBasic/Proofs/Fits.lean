import MiniBasic.Goal
import MiniBasic.Proofs.Grammar

/-!
# What goals stand for

A goal is read as a phrase of the grammar, and a list of goals as the phrases of its goals in turn.
`Fits` says that kinds of tokens meet a list of goals. For each goal there is a lemma that says what
its phrase starts with, after which the goals are again a list; these follow the productions of the
grammar, and all that comes later is said in terms of them. The goals of a program stand for the
programs that the grammar derives (`fits_program`), and any goals can be met (`exists_fits`).
-/

namespace MiniBasic

/-! ## What goals stand for -/

namespace Goal

open Phrase in
/-- What a goal is read as. -/
def phrase : Goal → Phrase
  | event _ | introduce _ | placeLabel _ | jumpTo _ | checkJumps => .empty
  | keyword k => word k
  | assign => token .assign
  | name .assigned => token .ident ++ token .assign ++ rule .expression
  | name _ => token .ident
  | lineEnd => rule .nl
  | newlines => many (token .newline)
  | statements => many (rule .statement)
  | block closing => Phrase.some (rule .statement) ++ word closing
  | blockRest closing => many (rule .statement) ++ word closing
  | printed => token .string ||| rule .expression
  | comparison => rule .comparison
  | relation => Phrase.some (Phrase.relation ++ rule .expression)
  | relations => many (Phrase.relation ++ rule .expression)
  | expression => rule .expression
  | sums => many ((token .minus ||| token .plus) ++ rule .term)
  | term => rule .term
  | factors => many ((token .divide ||| token .times) ++ rule .unary)
  | unary => rule .unary
  | primary => rule .primary

end Goal

/-- The kinds `ks` meet the goals. -/
def Fits : List Goal → List Kind → Prop
  | [], ks => ks = []
  | goal :: goals, ks => goal.phrase.Before (Fits goals) ks

section
variable {goals : List Goal} {ks : List Kind}

theorem fits_cons (goal : Goal) (goals : List Goal) :
    Fits (goal :: goals) = goal.phrase.Before (Fits goals) := rfl

theorem fits_of_phrase_eq_empty {goal : Goal} (h : goal.phrase = .empty) :
    Fits (goal :: goals) ks ↔ Fits goals ks := by
  rw [Fits, h, Phrase.before_empty]

theorem fits_keyword {k : Keyword} :
    Fits (.keyword k :: goals) ks ↔ ∃ ks', ks = .keyword k :: ks' ∧ Fits goals ks' :=
  Phrase.before_token

theorem fits_assign :
    Fits (.assign :: goals) ks ↔ ∃ ks', ks = .assign :: ks' ∧ Fits goals ks' :=
  Phrase.before_token

theorem fits_name {use : NameUse} (x : Located String) :
    Fits (.name use :: goals) ks ↔
      ∃ ks', ks = .ident :: ks' ∧ Fits (Goal.ofName use x ++ goals) ks' := by
  cases use <;> simp [Fits, Goal.phrase, Goal.ofName, Goal.fragment, Goal.line]

theorem fits_newlines :
    Fits (.newlines :: goals) ks ↔ Fits goals ks ∨
      ∃ k ks', k = .newline ∧ ks = k :: ks' ∧ Fits (.newlines :: goals) ks' := by
  rw [Fits, Goal.phrase, Phrase.before_many, Phrase.before_token]
  simp only [exists_and_left, exists_eq_left]
  rfl

theorem fits_lineEnd :
    Fits (.lineEnd :: goals) ks ↔ ∃ ks', ks = .newline :: ks' ∧ Fits (.newlines :: goals) ks' := by
  rw [Fits, Goal.phrase, Phrase.before_rule, Nonterminal.production, Phrase.before_some,
    Phrase.before_token]
  rfl

theorem fits_statements :
    Fits (.statements :: goals) ks ↔
      Fits goals ks ∨ (Phrase.rule .statement).Before (Fits (.statements :: goals)) ks :=
  Phrase.before_many

theorem fits_blockRest {closing : Keyword} :
    Fits (.blockRest closing :: goals) ks ↔
      (∃ ks', ks = .keyword closing :: ks' ∧ Fits goals ks') ∨
        (Phrase.rule .statement).Before (Fits (.blockRest closing :: goals)) ks := by
  simp only [Fits, Goal.phrase, Phrase.before_append]
  rw [Phrase.before_many, Phrase.word, Phrase.before_token]

theorem fits_block {closing : Keyword} :
    Fits (.block closing :: goals) ks ↔
      (Phrase.rule .statement).Before (Fits (.blockRest closing :: goals)) ks := by
  simp only [Fits, Goal.phrase, Phrase.before_append, Phrase.before_some]

theorem fits_printed :
    Fits (.printed :: goals) ks ↔
      (∃ ks', ks = .string :: ks' ∧ Fits goals ks') ∨ Fits (.expression :: goals) ks := by
  simp only [Fits, Goal.phrase, Phrase.before_or, Phrase.before_token]

theorem fits_comparison :
    Fits (.comparison :: goals) ks ↔ Fits (.expression :: .relation :: goals) ks := by
  rw [Fits, Goal.phrase, Phrase.before_rule, Nonterminal.production, Phrase.before_append]
  rfl

theorem fits_relation :
    Fits (.relation :: goals) ks ↔
      ∃ k ks', k.isRelation = true ∧ ks = k :: ks' ∧
        Fits (.expression :: .relations :: goals) ks' := by
  rw [Fits, Goal.phrase, Phrase.before_some, Phrase.before_append, Phrase.before_relation]
  rfl

theorem fits_relations :
    Fits (.relations :: goals) ks ↔ Fits goals ks ∨
      ∃ k ks', k.isRelation = true ∧ ks = k :: ks' ∧
        Fits (.expression :: .relations :: goals) ks' := by
  rw [Fits, Goal.phrase, Phrase.before_many, Phrase.before_append, Phrase.before_relation]
  rfl

theorem fits_expression :
    Fits (.expression :: goals) ks ↔ Fits (.term :: .sums :: goals) ks := by
  rw [Fits, Goal.phrase, Phrase.before_rule, Nonterminal.production, Phrase.before_append]
  rfl

theorem fits_sums :
    Fits (.sums :: goals) ks ↔ Fits goals ks ∨
      ∃ k ks', (k = .plus ∨ k = .minus) ∧ ks = k :: ks' ∧ Fits (.term :: .sums :: goals) ks' := by
  rw [Fits, Goal.phrase, Phrase.before_many, Phrase.before_append, Phrase.before_either_token]
  simp only [or_comm (b := _ = Kind.plus)]
  rfl

theorem fits_term :
    Fits (.term :: goals) ks ↔ Fits (.unary :: .factors :: goals) ks := by
  rw [Fits, Goal.phrase, Phrase.before_rule, Nonterminal.production, Phrase.before_append]
  rfl

theorem fits_factors :
    Fits (.factors :: goals) ks ↔ Fits goals ks ∨
      ∃ k ks', (k = .times ∨ k = .divide) ∧ ks = k :: ks' ∧
        Fits (.unary :: .factors :: goals) ks' := by
  rw [Fits, Goal.phrase, Phrase.before_many, Phrase.before_append, Phrase.before_either_token]
  simp only [or_comm (b := _ = Kind.times)]
  rfl

theorem fits_unary :
    Fits (.unary :: goals) ks ↔ Fits (.primary :: goals) ks ∨
      ∃ k ks', (k = .plus ∨ k = .minus) ∧ ks = k :: ks' ∧ Fits (.primary :: goals) ks' := by
  rw [Fits, Goal.phrase, Phrase.before_rule, Nonterminal.production, Phrase.before_append,
    Phrase.optional, Phrase.before_or, Phrase.before_empty, Phrase.before_either_token]
  rfl

theorem fits_primary :
    Fits (.primary :: goals) ks ↔
      ∃ k ks', (k = .number ∨ k = .ident) ∧ ks = k :: ks' ∧ Fits goals ks' := by
  rw [Fits, Goal.phrase, Phrase.before_rule, Nonterminal.production, Phrase.before_either_token]

theorem not_before_statement_nil : ¬(Phrase.rule .statement).Before (Fits goals) [] := by
  simp [Phrase.before_rule, Nonterminal.production, Phrase.word]

/-- A statement is a keyword and what the goals of the keyword are read as. -/
theorem before_statement_cons {k : Kind} :
    (Phrase.rule .statement).Before (Fits goals) (k :: ks) ↔
      ∃ word parts, k = .keyword word ∧ Goal.ofKeyword? word = some parts ∧
        Fits (parts ++ goals) ks := by
  simp only [Phrase.before_rule (n := .statement), Nonterminal.production, Phrase.before_append,
    Phrase.before_or, Phrase.word, Phrase.before_token]
  cases k with
  | keyword word =>
    cases word <;>
      simp [Goal.ofKeyword?, fits_cons, Goal.phrase, Goal.fragment, Goal.line, Phrase.word]
  | _ => simp

end

/-! ## All goals can be met -/

/-- One way to meet a goal. -/
def Goal.shortest : Goal → List Kind
  | event _ | introduce _ | placeLabel _ | jumpTo _ | checkJumps => []
  | keyword k => [.keyword k]
  | assign => [.assign]
  | name .assigned => [.ident, .assign, .number]
  | name _ => [.ident]
  | lineEnd => [.newline]
  | newlines | statements | relations | sums | factors => []
  | block closing => [.keyword .input, .ident, .newline, .keyword closing]
  | blockRest closing => [.keyword closing]
  | printed => [.string]
  | comparison => [.number, .relation .equal, .number]
  | relation => [.relation .equal, .number]
  | expression | term | unary | primary => [.number]

theorem fits_shortest_append (goal : Goal) {goals : List Goal} {ks : List Kind}
    (h : Fits goals ks) : Fits (goal :: goals) (goal.shortest ++ ks) := by
  have term {goals : List Goal} {ks : List Kind} (h : Fits goals ks) :
      Fits (.term :: goals) (.number :: ks) := by
    refine fits_term.mpr (fits_unary.mpr (.inl (fits_primary.mpr ?_)))
    exact ⟨.number, ks, .inl rfl, rfl, fits_factors.mpr (.inl h)⟩
  have expression {goals : List Goal} {ks : List Kind} (h : Fits goals ks) :
      Fits (.expression :: goals) (.number :: ks) :=
    fits_expression.mpr (term (fits_sums.mpr (.inl h)))
  have relation {goals : List Goal} {ks : List Kind} (h : Fits goals ks) :
      Fits (.relation :: goals) (.relation .equal :: .number :: ks) :=
    fits_relation.mpr ⟨_, _, rfl, rfl, expression (fits_relations.mpr (.inl h))⟩
  have lineEnd {goals : List Goal} {ks : List Kind} (h : Fits goals ks) :
      Fits (.lineEnd :: goals) (.newline :: ks) :=
    fits_lineEnd.mpr ⟨ks, rfl, fits_newlines.mpr (.inl h)⟩
  have name {goals : List Goal} {ks : List Kind} (use : NameUse) (h : Fits goals ks) :
      Fits (.name use :: goals) ((Goal.name use).shortest ++ ks) := by
    refine (fits_name ⟨.start, ""⟩).mpr ?_
    cases use with
    | assigned =>
      refine ⟨_, rfl, (fits_of_phrase_eq_empty rfl).mpr (fits_assign.mpr ⟨_, rfl, ?_⟩)⟩
      exact (fits_of_phrase_eq_empty rfl).mpr (expression ((fits_of_phrase_eq_empty rfl).mpr h))
    | label | target | input => exact ⟨ks, rfl, by
      simpa [Goal.ofName, Goal.line, fits_cons, Goal.phrase] using h⟩
  cases goal with
  | event | introduce | placeLabel | jumpTo | checkJumps =>
    exact (fits_of_phrase_eq_empty rfl).mpr h
  | keyword => exact fits_keyword.mpr ⟨ks, rfl, h⟩
  | assign => exact fits_assign.mpr ⟨ks, rfl, h⟩
  | name use => exact name use h
  | lineEnd => exact lineEnd h
  | newlines => exact fits_newlines.mpr (.inl h)
  | statements => exact fits_statements.mpr (.inl h)
  | block =>
    refine fits_block.mpr (before_statement_cons.mpr ⟨.input, _, rfl, rfl, name .input ?_⟩)
    exact lineEnd (fits_blockRest.mpr (.inl ⟨ks, rfl, h⟩))
  | blockRest => exact fits_blockRest.mpr (.inl ⟨ks, rfl, h⟩)
  | printed => exact fits_printed.mpr (.inl ⟨ks, rfl, h⟩)
  | comparison => exact fits_comparison.mpr (expression (relation h))
  | relation => exact relation h
  | relations => exact fits_relations.mpr (.inl h)
  | expression => exact expression h
  | sums => exact fits_sums.mpr (.inl h)
  | term => exact term h
  | factors => exact fits_factors.mpr (.inl h)
  | unary => exact fits_unary.mpr (.inl (fits_primary.mpr ⟨.number, ks, .inl rfl, rfl, h⟩))
  | primary => exact fits_primary.mpr ⟨.number, ks, .inl rfl, rfl, h⟩

theorem exists_fits (goals : List Goal) : ∃ ks, Fits goals ks := by
  induction goals with
  | nil => exact ⟨[], rfl⟩
  | cons goal goals ih =>
    obtain ⟨ks, h⟩ := ih
    exact ⟨_, fits_shortest_append goal h⟩

/-- The goals of a program are read as the grammar says. -/
theorem fits_program {ks : List Kind} :
    Fits Goal.program ks ↔ (Phrase.rule .program).Derives ks := by
  rw [← Phrase.before_nil, Phrase.before_rule, Nonterminal.production, Phrase.before_append]
  simp only [Fits, Goal.program, Goal.line, Goal.phrase, Phrase.before_empty]
  simp only [Phrase.Before, Phrase.derives_many_nl_iff]

end MiniBasic
