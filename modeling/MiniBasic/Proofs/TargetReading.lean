import MiniBasic.Proofs.TargetExpressions

/-!
# How C reads the generated expressions

The code of an expression is split into the tokens of the expression, since operators have spaces
around them and a sign stands in front of a letter or a digit. They are parsed into the tree of the
expression, since C knows the same operators with the same precedence (`parse_code`).
-/

namespace MiniBasic

/-! ## Tokens -/

/-- The token of C that a token of an expression comes to. -/
def Token.toC (t : Token) : C.Token :=
  match t.kind with
  | .number => .number t.text
  | .ident => .word t.text
  | _ => .punctuator t.text

namespace C

theorem boundary_space (cs : List Char) : Boundary (' ' :: cs) := boundary_cons (by decide) cs

/-- What a text comes to that stands in front of `rest`. -/
def Reads (text : String) (ts : List MiniBasic.Token) : Prop :=
  ∀ rest, Boundary rest →
    tokens (text.toList ++ rest) = (tokens rest).map (ts.map MiniBasic.Token.toC ++ ·)

theorem Reads.append {a b : String} {ts us : List MiniBasic.Token} (first : Reads a ts)
    (second : Reads b us) (boundary : ∀ rest, Boundary rest → Boundary (b.toList ++ rest)) :
    Reads (a ++ b) (ts ++ us) := by
  intro rest end_
  rw [String.toList_append, List.append_assoc, first _ (boundary rest end_), second rest end_]
  cases tokens rest <;> simp

theorem reads_operand {o : Operand} (lexical : o.token.Lexical) : Reads o.code [o.token] := by
  intro rest boundary
  cases o with
  | number text => exact tokens_number (lexical.number rfl) boundary
  | variable_ name => exact tokens_word (lexical.ident rfl) boundary

theorem exists_alphanum {o : Operand} (lexical : o.token.Lexical) :
    ∃ c cs, o.code.toList = c :: cs ∧ c.isAlphanum := by
  cases o with
  | number text =>
    obtain ⟨d, ds, eq, digit, -⟩ := exists_digit_of_isNumeral (lexical.number rfl)
    exact ⟨d, ds, eq, by simp [Char.isAlphanum, digit]⟩
  | variable_ name =>
    obtain ⟨c, cs, eq, letter, -⟩ := lexical.ident rfl
    exact ⟨c, cs, eq, by simp [Char.isAlphanum, letter]⟩

theorem reads_factor {f : Factor} (lexical : ∀ u ∈ f.tokens, u.Lexical) :
    Reads f.code f.tokens := by
  obtain ⟨sign, operand⟩ := f
  have operand_lexical : operand.token.Lexical := lexical _ (by simp [Factor.tokens])
  have reads := reads_operand operand_lexical
  cases sign with
  | none => simpa [Factor.code, Factor.tokens] using reads
  | some sign =>
    obtain ⟨c, cs, eq, alphanum⟩ := exists_alphanum operand_lexical
    intro rest boundary
    have read := reads rest boundary
    rw [eq, List.cons_append] at read
    simp only [Factor.code, Factor.tokens, Option.map_some, Option.getD_some, String.toList_append,
      eq, List.append_assoc, List.cons_append]
    rw [tokens_sign sign alphanum, read]
    cases tokens rest <;> cases sign <;> simp [Sign.token, Token.toC]

section
variable {α β : Type} (op : α → MiniBasic.Token) (toks : β → List MiniBasic.Token)
  (code : β → String)

/-- The operators of a chain and their operands. -/
def chainCode (xs : List (α × β)) : String :=
  String.join (xs.map fun x => " " ++ (op x.1).text ++ " " ++ code x.2)

theorem boundary_chainCode (xs : List (α × β)) {rest : List Char} (boundary : Boundary rest) :
    Boundary ((chainCode op code xs).toList ++ rest) := by
  cases xs with
  | nil => simpa [chainCode] using boundary
  | cons x xs =>
    simp only [chainCode, List.map_cons, String.join_cons, String.toList_append, List.append_assoc]
    exact boundary_space _

theorem reads_chainCode (ops : ∀ a, (op a).text ∈ operators)
    (kinds : ∀ a, (op a).toC = .punctuator (op a).text)
    (one : ∀ b, (∀ u ∈ toks b, u.Lexical) → Reads (code b) (toks b)) {xs : List (α × β)}
    (lexical : ∀ u ∈ xs.flatMap (fun x => op x.1 :: toks x.2), u.Lexical) :
    Reads (chainCode op code xs) (xs.flatMap fun x => op x.1 :: toks x.2) := by
  intro rest boundary
  induction xs with
  | nil => simp [chainCode]
  | cons x xs ih =>
    rw [List.flatMap_cons, List.forall_mem_append] at lexical
    have operand := one x.2 (List.forall_mem_cons.mp lexical.1).2
    have code_eq : (chainCode op code (x :: xs)).toList ++ rest =
        ' ' :: ((op x.1).text.toList ++ ' ' ::
          ((code x.2).toList ++ ((chainCode op code xs).toList ++ rest))) := by
      simp [chainCode, String.toList_append]
    rw [code_eq, tokens_space, tokens_operator (ops x.1),
      operand _ (boundary_chainCode op code xs boundary), ih lexical.2]
    cases tokens rest <;> simp [kinds]

end

theorem reads_term {t : Term} (lexical : ∀ u ∈ t.tokens, u.Lexical) : Reads t.code t.tokens := by
  obtain ⟨first, rest⟩ := List.forall_mem_append.mp lexical
  have others := reads_chainCode Scale.token Factor.tokens Factor.code
    (fun op => by cases op <;> decide) (fun op => by cases op <;> rfl) (fun _ => reads_factor) rest
  rw [Term.code_eq]
  exact (reads_factor first).append others fun _ =>
    boundary_chainCode Scale.token Factor.code t.rest

theorem reads_expression {e : MiniBasic.Expression} (lexical : ∀ u ∈ e.tokens, u.Lexical) :
    Reads e.code e.tokens := by
  obtain ⟨first, rest⟩ := List.forall_mem_append.mp lexical
  have others := reads_chainCode Sign.token Term.tokens Term.code
    (fun op => by cases op <;> decide) (fun op => by cases op <;> rfl) (fun _ => reads_term) rest
  rw [Expression.code_eq]
  exact (reads_term first).append others fun _ => boundary_chainCode Sign.token Term.code e.rest

end C

/-! ## Trees -/

def Scale.toC : Scale → C.BinaryOp
  | times => .mul
  | divide => .div

def Sign.toC : Sign → C.BinaryOp
  | plus => .add
  | minus => .sub

def Operand.toC : Operand → C.Expression
  | number text => .constant text
  | variable_ name => .variable_ name

/-- The expression of C that a factor comes to. -/
def Factor.toC (f : Factor) : C.Expression :=
  match f.sign with
  | none => f.operand.toC
  | some sign => .signed sign f.operand.toC

def Term.toC (t : Term) : C.Expression :=
  t.rest.foldl (fun e x => .binary x.1.toC e x.2.toC) t.first.toC

def Expression.toC (e : Expression) : C.Expression :=
  e.rest.foldl (fun e x => .binary x.1.toC e x.2.toC) e.first.toC

namespace C

theorem unary_factor (f : Factor) (rest : List Token) :
    unary (f.tokens.map MiniBasic.Token.toC ++ rest) = some (f.toC, rest) := by
  obtain ⟨sign, operand⟩ := f
  rcases sign with _ | _ | _ <;> cases operand <;> rfl

theorem multiplicative_term (t : Term) {rest : List Token} (stops : Stops multiplicativeOp? rest) :
    multiplicative (t.tokens.map MiniBasic.Token.toC ++ rest) = some (t.toC, rest) := by
  have read := level_repeated (P := fun _ => True) (fun op : Scale => op.token.toC) Scale.toC
    (fun f : Factor => f.tokens.map MiniBasic.Token.toC) Factor.toC
    (fun op => by cases op <;> rfl) (fun _ _ => trivial) (fun f ts _ => unary_factor f ts) trivial
    stops t.first t.rest
  simpa [multiplicative, Term.tokens, Term.toC, List.map_flatMap] using read

theorem additive_expression (e : MiniBasic.Expression) {rest : List Token}
    (factors : Stops multiplicativeOp? rest) (terms : Stops additiveOp? rest) :
    additive (e.tokens.map MiniBasic.Token.toC ++ rest) = some (e.toC, rest) := by
  have behind (op : Sign) (ts : List Token) : Stops multiplicativeOp? (op.token.toC :: ts) := by
    intro t head
    obtain rfl : op.token.toC = t := by simpa using head
    cases op <;> rfl
  have read := level_repeated (fun op : Sign => op.token.toC) Sign.toC
    (fun t : Term => t.tokens.map MiniBasic.Token.toC) Term.toC
    (fun op => by cases op <;> rfl) behind (fun t ts => multiplicative_term t) factors
    terms e.first e.rest
  simpa [additive, Expression.tokens, Expression.toC, List.map_flatMap] using read

/-- C reads the code of an expression as the tree of the expression. -/
theorem parse_code {e : MiniBasic.Expression} (lexical : ∀ u ∈ e.tokens, u.Lexical) :
    parse e.code = some e.toC := by
  have stops (op? : Token → Option BinaryOp) : Stops op? [] := nofun
  have read := reads_expression lexical [] nofun
  have sum := additive_expression e (stops _) (stops _)
  rw [List.append_nil] at read sum
  simp [parse, read, equality, relational, level, sum, chain_of_stops (stops _)]

end C

end MiniBasic
