import MiniBasic.Event
import MiniBasic.Names

/-!
# Trees

Programs as trees, with what a tree stands for before and after it is compiled: the tokens that
spell it, the C that it means and the rules of the grammar that it consists of. Nothing here reads a
source. A tree says what a program is, to compare with what is made of it while it is being read.

Sources may end a line with any number of newlines. A tree is spelled with one, so it has to be
compared with the tokens of a source in their normal form.
-/

namespace MiniBasic

inductive Sign where
  | plus | minus
  deriving DecidableEq, Repr

inductive Scale where
  | times | divide
  deriving DecidableEq, Repr

def Sign.token : Sign → Token
  | plus => ⟨.plus, "+"⟩
  | minus => ⟨.minus, "-"⟩

def Scale.token : Scale → Token
  | times => ⟨.times, "*"⟩
  | divide => ⟨.divide, "/"⟩

def Relation.symbol : Relation → String
  | equal => "=="
  | notEqual => "!="
  | less => "<"
  | lessEqual => "<="
  | greater => ">"
  | greaterEqual => ">="

def Relation.token (r : Relation) : Token := ⟨.relation r, r.symbol⟩

def Keyword.token (k : Keyword) : Token := ⟨.keyword k, k.spelling⟩

def Token.newline : Token := ⟨.newline, "\n"⟩

inductive Operand where
  | number (text : String)
  | variable_ (name : String)
  deriving DecidableEq, Repr

/-- An operand with its sign, if it has one. -/
structure Factor where
  sign : Option Sign
  operand : Operand
  deriving DecidableEq, Repr

/-- Factors that are multiplied and divided from left to right. -/
structure Term where
  first : Factor
  rest : List (Scale × Factor)
  deriving DecidableEq, Repr

/-- Terms that are added and subtracted from left to right. -/
structure Expression where
  first : Term
  rest : List (Sign × Term)
  deriving DecidableEq, Repr

/-- Expressions with relations between them, of which there is at least one. -/
structure Comparison where
  left : Expression
  relation : Relation
  right : Expression
  rest : List (Relation × Expression)
  deriving DecidableEq, Repr

/-- A statement without a block. -/
inductive Statement where
  | printText (text : String)
  | print (e : Expression)
  | label (name : String)
  | goto (name : String)
  | assign (name : String) (e : Expression)
  | input (name : String)
  deriving DecidableEq, Repr

/-- A sequence of statements, of which those with a block hold another sequence. -/
inductive Tree where
  | nil
  | simple (s : Statement) (next : Tree)
  | branch (c : Comparison) (body next : Tree)
  | loop (c : Comparison) (body next : Tree)
  deriving DecidableEq, Repr

/-! ## Tokens -/

def Operand.token : Operand → Token
  | number text => ⟨.number, text⟩
  | variable_ name => ⟨.ident, name⟩

def Factor.tokens (f : Factor) : List Token :=
  (f.sign.map Sign.token).toList ++ [f.operand.token]

def Term.tokens (t : Term) : List Token :=
  t.first.tokens ++ t.rest.flatMap fun (op, f) => op.token :: f.tokens

def Expression.tokens (e : Expression) : List Token :=
  e.first.tokens ++ e.rest.flatMap fun (op, t) => op.token :: t.tokens

def Comparison.tokens (c : Comparison) : List Token :=
  c.left.tokens ++
    ((c.relation, c.right) :: c.rest).flatMap fun (op, e) => op.token :: e.tokens

def Statement.tokens : Statement → List Token
  | printText text => [Keyword.print.token, ⟨.string, text⟩]
  | print e => Keyword.print.token :: e.tokens
  | label name => [Keyword.label.token, ⟨.ident, name⟩]
  | goto name => [Keyword.goto.token, ⟨.ident, name⟩]
  | assign name e => Keyword.let_.token :: ⟨.ident, name⟩ :: ⟨.assign, "="⟩ :: e.tokens
  | input name => [Keyword.input.token, ⟨.ident, name⟩]

namespace Tree

def tokens : Tree → List Token
  | nil => []
  | simple s next => s.tokens ++ .newline :: next.tokens
  | branch c body next =>
    Keyword.if_.token :: c.tokens ++ Keyword.then_.token :: .newline :: body.tokens ++
      Keyword.endIf.token :: .newline :: next.tokens
  | loop c body next =>
    Keyword.while_.token :: c.tokens ++ Keyword.repeat_.token :: .newline :: body.tokens ++
      Keyword.endWhile.token :: .newline :: next.tokens

/-- No block is empty. -/
def Filled : Tree → Prop
  | nil => True
  | simple _ next => next.Filled
  | branch _ body next | loop _ body next => body ≠ nil ∧ body.Filled ∧ next.Filled

end Tree

/-- The tokens after `t` without the newlines that follow a newline. -/
def collapseNewlines (t : Token) : List Token → List Token
  | [] => []
  | u :: us =>
    if t.kind = .newline ∧ u.kind = .newline then collapseNewlines u us
    else u :: collapseNewlines u us

/-- The tokens of a source without the newlines in front, and each run of newlines as one. -/
def normalForm (ts : List Token) : List Token := collapseNewlines .newline ts

/-! ## Code -/

def Operand.code : Operand → String
  | number text => text
  | variable_ name => name

def Factor.code (f : Factor) : String :=
  (f.sign.map (·.token.text)).getD "" ++ f.operand.code

def Term.code (t : Term) : String :=
  t.rest.foldl (fun code (op, f) => code ++ " " ++ op.token.text ++ " " ++ f.code) t.first.code

def Expression.code (e : Expression) : String :=
  e.rest.foldl (fun code (op, t) => code ++ " " ++ op.token.text ++ " " ++ t.code) e.first.code

def Comparison.code (c : Comparison) : String :=
  ((c.relation, c.right) :: c.rest).foldl
    (fun code (op, e) => code ++ " " ++ op.symbol ++ " " ++ e.code) c.left.code

def Statement.code : Statement → String
  | printText text => "printf(\"" ++ text ++ "\\n\");\n"
  | print e => "printf(\"%.2f\\n\", (float)(" ++ e.code ++ "));\n"
  | label name => name ++ ":\n"
  | goto name => "goto " ++ name ++ ";\n"
  | assign name e => name ++ " = " ++ e.code ++ ";\n"
  | input name =>
    "if(0 == scanf(\"%f\", &" ++ name ++ ")) \x7b\n" ++ name ++ " = 0;\nscanf(\"%*s\");\n\x7d\n"

namespace Tree

/-- The lines that a tree contributes to `main`. -/
def code : Tree → String
  | nil => ""
  | simple s next => s.code ++ next.code
  | branch c body next => "if(" ++ c.code ++ ")\x7b\n" ++ body.code ++ "\x7d\n" ++ next.code
  | loop c body next => "while(" ++ c.code ++ ")\x7b\n" ++ body.code ++ "\x7d\n" ++ next.code

/-- The variables that are assigned to or read from the input, as often as they are. -/
def assigned : Tree → List String
  | nil => []
  | simple (.assign name _) next | simple (.input name) next => name :: next.assigned
  | simple _ next => next.assigned
  | branch _ body next | loop _ body next => body.assigned ++ next.assigned

/-- The C code of a whole program. A variable is declared where it first appears. -/
def program (t : Tree) : String :=
  "#include <stdio.h>\n" ++
    String.join (t.assigned.eraseDups.map fun name => "float " ++ name ++ ";\n") ++
    "int main(void)\x7b\n" ++ t.code ++ "return 0;\n\x7d\n"

end Tree

/-! ## Rules -/

def Factor.rules (f : Factor) : List Rule :=
  [.unary (f.sign.map (·.token.text)), .primary f.operand.code]

def Term.rules (t : Term) : List Rule :=
  .term :: t.first.rules ++ t.rest.flatMap (·.2.rules)

def Expression.rules (e : Expression) : List Rule :=
  .expression :: e.first.rules ++ e.rest.flatMap (·.2.rules)

def Comparison.rules (c : Comparison) : List Rule :=
  .comparison :: c.left.rules ++ c.right.rules ++ c.rest.flatMap (·.2.rules)

def Statement.rules : Statement → List Rule
  | printText _ => [.statement (.keyword .print)]
  | print e => .statement (.keyword .print) :: e.rules
  | label _ => [.statement (.keyword .label)]
  | goto _ => [.statement (.keyword .goto)]
  | assign _ e => .statement (.keyword .let_) :: e.rules
  | input _ => [.statement (.keyword .input)]

namespace Tree

/-- The rules that a tree consists of, each before its parts. -/
def rules : Tree → List Rule
  | nil => []
  | simple s next => s.rules ++ .newline :: next.rules
  | branch c body next =>
    .statement (.keyword .if_) :: c.rules ++ .newline :: body.rules ++ .newline :: next.rules
  | loop c body next =>
    .statement (.keyword .while_) :: c.rules ++ .newline :: body.rules ++ .newline :: next.rules

end Tree

/-! ## Names -/

def Factor.vars (f : Factor) : List String :=
  match f.operand with
  | .number _ => []
  | .variable_ name => [name]

def Term.vars (t : Term) : List String :=
  t.first.vars ++ t.rest.flatMap (·.2.vars)

def Expression.vars (e : Expression) : List String :=
  e.first.vars ++ e.rest.flatMap (·.2.vars)

def Comparison.vars (c : Comparison) : List String :=
  c.left.vars ++ c.right.vars ++ c.rest.flatMap (·.2.vars)

namespace Tree

/-- Every variable in an expression is one of `known` or has been assigned to further up, which it
has in the expression that it is assigned. -/
def VarsKnown (known : List String) : Tree → Prop
  | nil => True
  | simple (.print e) next => e.vars ⊆ known ∧ next.VarsKnown known
  | simple (.assign name e) next =>
    e.vars ⊆ name :: known ∧ next.VarsKnown (name :: known)
  | simple (.input name) next => next.VarsKnown (name :: known)
  | simple _ next => next.VarsKnown known
  | branch c body next | loop c body next =>
    c.vars ⊆ known ∧ body.VarsKnown known ∧ next.VarsKnown (body.assigned ++ known)

/-- The labels that are placed, in order. -/
def labels : Tree → List String
  | nil => []
  | simple (.label name) next => name :: next.labels
  | simple _ next => next.labels
  | branch _ body next | loop _ body next => body.labels ++ next.labels

/-- The labels that are jumped to, as often as they are. -/
def jumps : Tree → List String
  | nil => []
  | simple (.goto name) next => name :: next.jumps
  | simple _ next => next.jumps
  | branch _ body next | loop _ body next => body.jumps ++ next.jumps

/-- The names of a program may stand where they do. -/
structure WellNamed (t : Tree) : Prop where
  vars_known : t.VarsKnown []
  assigned_free : ∀ name ∈ t.assigned, name ∉ targetKeywords ++ targetGlobals
  labels_free : ∀ name ∈ t.labels, name ∉ targetKeywords
  labels_nodup : t.labels.Nodup
  jumps_placed : t.jumps ⊆ t.labels

end Tree

end MiniBasic
