import MiniBasic.Proofs.Arithmetic
import MiniBasic.Proofs.CodeTokens

/-!
# How C reads comparisons

C compares in two levels, so relations that stand in a row are not always associated to the left:
`<` binds closer than `==`. But it does not touch what is compared. A chain at the inner level goes
on up to the next `==` or `!=` (`C.chain_relational`), and in what comes out of both levels the
operands and the relations are those of the source, in order (`C.equality_comparison`).
-/

namespace MiniBasic

def Relation.toC : Relation → C.BinaryOp
  | equal => .equal
  | notEqual => .notEqual
  | less => .less
  | lessEqual => .lessEqual
  | greater => .greater
  | greaterEqual => .greaterEqual

def Comparison.relations (c : Comparison) : List Relation := c.relation :: c.rest.map (·.1)

/-- The comparisons of a program. -/
def Tree.comparisons : Tree → List Comparison
  | nil => []
  | simple _ next => next.comparisons
  | branch c body next | loop c body next => c :: body.comparisons ++ next.comparisons

/-- The expressions that are printed or assigned. -/
def Tree.computed : Tree → List Expression
  | nil => []
  | simple (.print e) next | simple (.assign _ e) next => e :: next.computed
  | simple _ next => next.computed
  | branch _ body next | loop _ body next => body.computed ++ next.computed

namespace C

/-- The operator compares its operands. -/
def BinaryOp.Compares (op : BinaryOp) : Prop := ∃ r : Relation, r.toC = op

instance : DecidablePred BinaryOp.Compares
  | .less => isTrue ⟨.less, rfl⟩
  | .greater => isTrue ⟨.greater, rfl⟩
  | .lessEqual => isTrue ⟨.lessEqual, rfl⟩
  | .greaterEqual => isTrue ⟨.greaterEqual, rfl⟩
  | .equal => isTrue ⟨.equal, rfl⟩
  | .notEqual => isTrue ⟨.notEqual, rfl⟩
  | .mul | .div | .add | .sub => isFalse fun ⟨r, same⟩ => by cases r <;> cases same

namespace Expression

/-- What is compared in an expression: the parts that are joined by comparing operators. -/
def comparands : Expression → List Expression
  | binary op a b => if op.Compares then a.comparands ++ b.comparands else [binary op a b]
  | e => [e]

/-- The operators that join them. -/
def comparing : Expression → List BinaryOp
  | binary op a b => if op.Compares then a.comparing ++ op :: b.comparing else []
  | _ => []

/-- The expression compares these parts, in order, by these operators. -/
structure Joins (e : Expression) (parts : List Expression) (ops : List BinaryOp) : Prop where
  comparands_eq : e.comparands = parts
  comparing_eq : e.comparing = ops

theorem Joins.binary {a b : Expression} {parts parts' : List Expression} {ops ops' : List BinaryOp}
    (left : a.Joins parts ops) (right : b.Joins parts' ops') (r : Relation) :
    (Expression.binary r.toC a b).Joins (parts ++ parts') (ops ++ r.toC :: ops') where
  comparands_eq := by
    have compares : r.toC.Compares := ⟨r, rfl⟩
    rw [comparands, if_pos compares, left.comparands_eq, right.comparands_eq]
  comparing_eq := by
    have compares : r.toC.Compares := ⟨r, rfl⟩
    rw [comparing, if_pos compares, left.comparing_eq, right.comparing_eq]

theorem joins_binary_self {op : BinaryOp} (other : ¬op.Compares) (a b : Expression) :
    (binary op a b).Joins [binary op a b] [] :=
  ⟨if_neg other, if_neg other⟩

/-- A chain of other operators compares nothing. -/
theorem joins_foldl_self {α β : Type} {op : α → BinaryOp} (others : ∀ a, ¬(op a).Compares)
    (tree : β → Expression) {e : Expression} (first : e.Joins [e] []) (xs : List (α × β)) :
    (xs.foldl (fun e x => binary (op x.1) e (tree x.2)) e).Joins
      [xs.foldl (fun e x => binary (op x.1) e (tree x.2)) e] [] := by
  induction xs generalizing e with
  | nil => exact first
  | cons x xs ih => exact ih (joins_binary_self (others x.1) _ _)

end Expression

end C

theorem Factor.joins_toC (f : Factor) : f.toC.Joins [f.toC] [] := by
  obtain ⟨sign, operand⟩ := f
  rcases sign with _ | _ | _ <;> cases operand <;> exact ⟨rfl, rfl⟩

theorem Term.joins_toC (t : Term) : t.toC.Joins [t.toC] [] :=
  C.Expression.joins_foldl_self (fun op => by cases op <;> decide) _ t.first.joins_toC t.rest

theorem Expression.joins_toC (e : Expression) : e.toC.Joins [e.toC] [] :=
  C.Expression.joins_foldl_self (fun op => by cases op <;> decide) _ e.first.joins_toC e.rest

namespace C

/-- Behind an expression or a comparison its line goes on like this. -/
def Closes (rest : List Token) : Prop :=
  rest.head? = some (.punctuator ")") ∨ rest.head? = some (.punctuator ";")

/-- Relations with an expression each, as tokens of C. -/
def relationTokens (xs : List (Relation × MiniBasic.Expression)) : List Token :=
  xs.flatMap fun x => x.1.token.toC :: x.2.tokens.map MiniBasic.Token.toC

section
variable {rest : List Token} {xs : List (Relation × MiniBasic.Expression)}

theorem Closes.stops (h : Closes rest) : Stops multiplicativeOp? rest ∧ Stops additiveOp? rest ∧
    Stops relationalOp? rest ∧ Stops equalityOp? rest := by
  have stops {op? : Token → Option BinaryOp} (parenthesis : op? (.punctuator ")") = none)
      (semicolon : op? (.punctuator ";") = none) : Stops op? rest := by
    intro t head
    rcases h with h | h
    · cases head.symm.trans h
      exact parenthesis
    · cases head.symm.trans h
      exact semicolon
  exact ⟨stops rfl rfl, stops rfl rfl, stops rfl rfl, stops rfl rfl⟩

/-- No expression goes on behind itself with a relation. -/
theorem stops_relationTokens (h : Closes rest) (xs : List (Relation × MiniBasic.Expression)) :
    Stops multiplicativeOp? (relationTokens xs ++ rest) ∧
      Stops additiveOp? (relationTokens xs ++ rest) := by
  cases xs with
  | nil => exact ⟨h.stops.1, h.stops.2.1⟩
  | cons x xs =>
    obtain ⟨r, e⟩ := x
    constructor
    all_goals
      rintro t ⟨⟩
      cases r <;> rfl

/-- The relation is one of the outer level. -/
def Outer (r : Relation) : Prop := r = .equal ∨ r = .notEqual

theorem relationTokens_cons (r : Relation) (e : MiniBasic.Expression)
    (xs : List (Relation × MiniBasic.Expression)) (rest : List Token) :
    relationTokens ((r, e) :: xs) ++ rest =
      r.token.toC :: (e.tokens.map MiniBasic.Token.toC ++ (relationTokens xs ++ rest)) := by
  simp [relationTokens]

/-- At the inner level C reads relations up to the first of the outer one. -/
theorem chain_relational (closes : Closes rest) (xs : List (Relation × MiniBasic.Expression))
    {e : Expression} {parts : List Expression} {ops : List BinaryOp} (joins : e.Joins parts ops) :
    ∃ e' run more, xs = run ++ more ∧ (∀ x ∈ more.head?, Outer x.1) ∧
      chain relationalOp? additive e (relationTokens xs ++ rest) =
        some (e', relationTokens more ++ rest) ∧
      e'.Joins (parts ++ run.map (·.2.toC)) (ops ++ run.map (·.1.toC)) := by
  induction xs generalizing e parts ops with
  | nil =>
    refine ⟨e, [], [], rfl, nofun, chain_of_stops closes.stops.2.2.1 _ _, by simpa using joins⟩
  | cons x xs ih =>
    obtain ⟨r, operand⟩ := x
    by_cases outer : Outer r
    · have stops : Stops relationalOp? (relationTokens ((r, operand) :: xs) ++ rest) := by
        rintro t ⟨⟩
        rcases outer with rfl | rfl <;> rfl
      refine ⟨e, [], (r, operand) :: xs, rfl, ?_, chain_of_stops stops _ _, by simpa using joins⟩
      rintro x ⟨⟩
      exact outer
    · have inner : relationalOp? r.token.toC = some r.toC := by
        cases r with
        | equal => exact absurd (.inl rfl) outer
        | notEqual => exact absurd (.inr rfl) outer
        | less | lessEqual | greater | greaterEqual => rfl
      obtain ⟨factors, terms⟩ := stops_relationTokens closes xs
      obtain ⟨e', run, more, rfl, next, read, joins'⟩ := ih (joins.binary operand.joins_toC r)
      refine ⟨e', (r, operand) :: run, more, rfl, next, ?_, by simpa using joins'⟩
      rw [relationTokens_cons, chain, inner]
      simp only [additive_expression operand factors terms]
      rw [if_pos (by simp), read]

theorem relational_relationTokens (closes : Closes rest) (e : MiniBasic.Expression)
    (xs : List (Relation × MiniBasic.Expression)) :
    ∃ e' run more, xs = run ++ more ∧ (∀ x ∈ more.head?, Outer x.1) ∧
      relational (e.tokens.map MiniBasic.Token.toC ++ (relationTokens xs ++ rest)) =
        some (e', relationTokens more ++ rest) ∧
      e'.Joins (e.toC :: run.map (·.2.toC)) (run.map (·.1.toC)) := by
  obtain ⟨factors, terms⟩ := stops_relationTokens closes xs
  obtain ⟨e', run, more, split, next, read, joins⟩ := chain_relational closes xs e.joins_toC
  refine ⟨e', run, more, split, next, ?_, by simpa using joins⟩
  simp only [relational, level, additive_expression e factors terms, read]

/-- At the outer level C reads all relations that are left. -/
theorem chain_equality (closes : Closes rest) {n : Nat}
    {xs : List (Relation × MiniBasic.Expression)} (le : xs.length ≤ n)
    (next : ∀ x ∈ xs.head?, Outer x.1) {e : Expression} {parts : List Expression}
    {ops : List BinaryOp} (joins : e.Joins parts ops) :
    ∃ e', chain equalityOp? relational e (relationTokens xs ++ rest) = some (e', rest) ∧
      e'.Joins (parts ++ xs.map (·.2.toC)) (ops ++ xs.map (·.1.toC)) := by
  induction n generalizing xs e parts ops with
  | zero =>
    obtain rfl : xs = [] := List.length_eq_zero_iff.mp (Nat.le_zero.mp le)
    exact ⟨e, chain_of_stops closes.stops.2.2.2 _ _, by simpa using joins⟩
  | succ n ih =>
    cases xs with
    | nil => exact ⟨e, chain_of_stops closes.stops.2.2.2 _ _, by simpa using joins⟩
    | cons x xs =>
      obtain ⟨r, operand⟩ := x
      have outer : equalityOp? r.token.toC = some r.toC := by
        rcases next (r, operand) rfl with rfl | rfl <;> rfl
      obtain ⟨e₁, run, more, rfl, next', read, joins₁⟩ :=
        relational_relationTokens closes operand xs
      have le' : more.length ≤ n := by
        simp only [List.length_cons, List.length_append] at le
        omega
      obtain ⟨e', read', joins'⟩ := ih le' next' (joins.binary joins₁ r)
      refine ⟨e', ?_, by simpa using joins'⟩
      rw [relationTokens_cons, chain, outer]
      simp only [read]
      rw [if_pos (by simp [relationTokens]; omega), read']

/-- C compares the operands of a comparison, as they are and in order. -/
theorem equality_comparison (closes : Closes rest) (c : Comparison) :
    ∃ e, equality (c.tokens.map MiniBasic.Token.toC ++ rest) = some (e, rest) ∧
      e.Joins (c.operands.map (·.toC)) (c.relations.map (·.toC)) := by
  obtain ⟨e₁, run, more, split, next, read, joins⟩ :=
    relational_relationTokens closes c.left ((c.relation, c.right) :: c.rest)
  obtain ⟨e, read', joins'⟩ := chain_equality closes le_rfl next joins
  have tokens_eq : c.tokens.map MiniBasic.Token.toC ++ rest =
      c.left.tokens.map MiniBasic.Token.toC ++
        (relationTokens ((c.relation, c.right) :: c.rest) ++ rest) := by
    simp [Comparison.tokens, relationTokens, List.map_flatMap]
  have parts_eq : c.operands.map (·.toC) =
      c.left.toC :: run.map (·.2.toC) ++ more.map (·.2.toC) := by
    rw [List.cons_append, ← List.map_append, ← split]
    simp [Comparison.operands]
  have ops_eq : c.relations.map (·.toC) = run.map (·.1.toC) ++ more.map (·.1.toC) := by
    rw [← List.map_append, ← split]
    simp [Comparison.relations]
  refine ⟨e, ?_, ?_⟩
  · rw [tokens_eq]
    simp only [equality, level, read, read']
  · rwa [parts_eq, ops_eq]

example : parse "1 == 2 < 3 - -4" = some (.binary .equal (.constant "1") (.binary .less
    (.constant "2") (.binary .sub (.constant "3") (.signed .minus (.constant "4"))))) := by
  decide +kernel

/-- C reads an expression as its tree. -/
theorem equality_expression (closes : Closes rest) (e : MiniBasic.Expression) :
    equality (e.tokens.map MiniBasic.Token.toC ++ rest) = some (e.toC, rest) := by
  obtain ⟨factors, terms, relations, equalities⟩ := closes.stops
  simp only [equality, relational, level, additive_expression e factors terms,
    chain_of_stops relations, chain_of_stops equalities]

end

/-! ## Places -/

/-- These tokens stand somewhere in the code, in front of a closing parenthesis or a semicolon. -/
def Stands (ts : List Token) (code : List CodeToken) : Prop :=
  ∃ before rest after, Closes rest ∧ code = before ++ plain (ts ++ rest) ++ after

section
variable {ts : List Token} {code : List CodeToken}

theorem Stands.append_left (h : Stands ts code) (front : List CodeToken) :
    Stands ts (front ++ code) := by
  obtain ⟨before, rest, after, closes, rfl⟩ := h
  exact ⟨front ++ before, rest, after, closes, by simp⟩

theorem Stands.append_right (h : Stands ts code) (more : List CodeToken) :
    Stands ts (code ++ more) := by
  obtain ⟨before, rest, after, closes, rfl⟩ := h
  exact ⟨before, rest, after ++ more, closes, by simp⟩

theorem stands_plain {rest : List Token} (closes : Closes rest) (before : List Token) :
    Stands ts (plain (before ++ ts ++ rest)) :=
  ⟨plain before, rest, [], closes, by simp [plain]⟩

end

end C

namespace Tree
open C

theorem stands_comparison {t : Tree} {c : Comparison} (mem : c ∈ t.comparisons) :
    Stands (c.tokens.map Token.toC) t.codeTokens := by
  induction t with
  | nil => cases mem
  | simple s next ih => exact (ih mem).append_left _
  | branch c' body next ih_body ih | loop c' body next ih_body ih =>
    rw [comparisons, List.mem_append, List.mem_cons] at mem
    rw [codeTokens, List.append_assoc, List.append_assoc]
    rcases mem with (rfl | mem) | mem
    · exact (stands_plain (.inl rfl) _).append_right _
    · exact ((ih_body mem).append_right _).append_left _
    · exact ((ih mem).append_left _).append_left _ |>.append_left _

theorem stands_expression {t : Tree} {e : Expression} (mem : e ∈ t.computed) :
    Stands (e.tokens.map Token.toC) t.codeTokens := by
  induction t with
  | nil => cases mem
  | simple s next ih =>
    rw [codeTokens]
    cases s with
    | print e' =>
      rcases List.mem_cons.mp mem with rfl | mem
      · exact ((stands_plain (.inl rfl) _).append_left _).append_right _
      · exact (ih mem).append_left _
    | assign name e' =>
      rcases List.mem_cons.mp mem with rfl | mem
      · exact (stands_plain (.inr rfl) _).append_right _
      · exact (ih mem).append_left _
    | printText | label | goto | input => exact (ih mem).append_left _
  | branch c body next ih_body ih | loop c body next ih_body ih =>
    rw [codeTokens]
    rcases List.mem_append.mp mem with mem | mem
    · exact (((ih_body mem).append_left _).append_right _).append_right _
    · exact (ih mem).append_left _

end Tree

/-- C splits the code of a program, behind the line that includes a header, into tokens among which
those of the source stand for each expression and each comparison, one for one. An expression that
is printed or assigned is parsed as its tree where it stands, and a comparison as one in which the
trees of its operands are compared by its relations, in order. -/
theorem expressions_read_as_written {source code : String} (accepted : compile source = .ok code) :
    ∃ t, Spells source t ∧
      (∃ main, code = "#include <stdio.h>\n" ++ main ∧
        C.codeTokens main.toList = some t.mainTokens) ∧
      (∀ e ∈ t.computed, C.Stands (e.tokens.map Token.toC) t.mainTokens ∧
        ∀ rest, C.Closes rest →
          C.equality (e.tokens.map Token.toC ++ rest) = some (e.toC, rest)) ∧
      ∀ c ∈ t.comparisons, C.Stands (c.tokens.map Token.toC) t.mainTokens ∧
        ∀ rest, C.Closes rest → ∃ e,
          C.equality (c.tokens.map Token.toC ++ rest) = some (e, rest) ∧
            e.Joins (c.operands.map (·.toC)) (c.relations.map (·.toC)) := by
  obtain ⟨t, compiles⟩ := exists_tree accepted
  have in_main {ts : List C.Token} (stands : C.Stands ts t.codeTokens) :
      C.Stands ts t.mainTokens := by
    rw [Tree.mainTokens]
    exact (stands.append_left _).append_right _
  refine ⟨t, compiles.spelled, ?_, fun e mem => ⟨in_main (t.stands_expression mem), ?_⟩,
    fun c mem => ⟨in_main (t.stands_comparison mem), ?_⟩⟩
  · rw [compiles.code_eq]
    exact codeTokens_program compiles.lexical
  · exact fun rest closes => C.equality_expression closes e
  · exact fun rest closes => C.equality_comparison closes c

/-- No token is lost between the two signs of `3 - -4`. -/
theorem difference_read_as_written :
    ∃ t main, Spells "IF 1 == 2 < 3 - -4 THEN\nPRINT +5\nENDIF" t ∧
      "#include <stdio.h>\nint main(void)\x7b\nif(1 == 2 < 3 - -4)\x7b\n" ++
        "printf(\"%.2f\\n\", (float)(+5));\n\x7d\nreturn 0;\n\x7d\n" =
          "#include <stdio.h>\n" ++ main ∧
      C.codeTokens main.toList = some t.mainTokens := by
  have accepted : compile "IF 1 == 2 < 3 - -4 THEN\nPRINT +5\nENDIF" =
      .ok ("#include <stdio.h>\nint main(void)\x7b\nif(1 == 2 < 3 - -4)\x7b\n" ++
        "printf(\"%.2f\\n\", (float)(+5));\n\x7d\nreturn 0;\n\x7d\n") := by decide +kernel
  obtain ⟨t, spelled, ⟨main, code_eq, read⟩, -⟩ := expressions_read_as_written accepted
  exact ⟨t, main, spelled, code_eq, read⟩

end MiniBasic
