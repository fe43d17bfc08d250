import Mathlib.Algebra.Field.Rat
import MiniBasic.Proofs.TargetTokens

/-!
# Expressions of C

How C parses the tokens of an expression, and what its value is. Binary operators associate to the
left, and each level of precedence is a chain of operands of the next higher level (`chain`). An
operator on two integers is integer arithmetic; otherwise the operands are converted to floating
point first, which is taken to be exact, as integers are taken to have no bounds.

Only the operators that the expressions of a program come to are read, and no parentheses.
-/

namespace MiniBasic

/-- The number that the digits are in this base. -/
def digitsValue (base : ℕ) (cs : List Char) : ℕ :=
  cs.foldl (fun n c => base * n + (c.toNat - '0'.toNat)) 0

/-- The number with these digits in front of its point and behind it. -/
def decimalValue (whole fraction : List Char) : ℚ :=
  digitsValue 10 whole + digitsValue 10 fraction / 10 ^ fraction.length

namespace C

/-! ## Syntax -/

inductive BinaryOp where
  | mul | div | add | sub
  | less | greater | lessEqual | greaterEqual
  | equal | notEqual
  deriving DecidableEq, Repr

inductive Expression where
  | constant (text : String)
  | variable_ (name : String)
  | signed (sign : Sign) (e : Expression)
  | binary (op : BinaryOp) (a b : Expression)
  deriving DecidableEq, Repr

abbrev Parser := List Token → Option (Expression × List Token)

/-- An operand with any number of signs. -/
def unary : Parser
  | .punctuator "+" :: ts => (unary ts).map fun (e, rest) => (.signed .plus e, rest)
  | .punctuator "-" :: ts => (unary ts).map fun (e, rest) => (.signed .minus e, rest)
  | .number text :: ts => some (.constant text, ts)
  | .word name :: ts => some (.variable_ name, ts)
  | _ => none

/-- Goes on with a chain of operands behind `e`, as long as there are operators. -/
def chain (op? : Token → Option BinaryOp) (operand : Parser) (e : Expression) (ts : List Token) :
    Option (Expression × List Token) :=
  match ts with
  | [] => some (e, [])
  | t :: ts =>
    match op? t with
    | none => some (e, t :: ts)
    | some op =>
      match operand ts with
      | none => none
      | some (e', rest) =>
        if rest.length ≤ ts.length then chain op? operand (.binary op e e') rest else none
termination_by ts.length

/-- A chain of operands with operators between them. -/
def level (op? : Token → Option BinaryOp) (operand : Parser) : Parser := fun ts =>
  match operand ts with
  | none => none
  | some (e, rest) => chain op? operand e rest

def multiplicativeOp? : Token → Option BinaryOp
  | .punctuator "*" => some .mul
  | .punctuator "/" => some .div
  | _ => none

def additiveOp? : Token → Option BinaryOp
  | .punctuator "+" => some .add
  | .punctuator "-" => some .sub
  | _ => none

def relationalOp? : Token → Option BinaryOp
  | .punctuator "<" => some .less
  | .punctuator ">" => some .greater
  | .punctuator "<=" => some .lessEqual
  | .punctuator ">=" => some .greaterEqual
  | _ => none

def equalityOp? : Token → Option BinaryOp
  | .punctuator "==" => some .equal
  | .punctuator "!=" => some .notEqual
  | _ => none

def multiplicative : Parser := level multiplicativeOp? unary

def additive : Parser := level additiveOp? multiplicative

def relational : Parser := level relationalOp? additive

def equality : Parser := level equalityOp? relational

/-- The expression that a text is. -/
def parse (text : String) : Option Expression :=
  match (tokens text.toList).bind equality with
  | some (e, []) => some e
  | _ => none

/-- The tokens start with no such operator. -/
def Stops (op? : Token → Option BinaryOp) (ts : List Token) : Prop := ∀ t ∈ ts.head?, op? t = none

theorem chain_of_stops {op? : Token → Option BinaryOp} {ts : List Token} (stops : Stops op? ts)
    (operand : Parser) (e : Expression) : chain op? operand e ts = some (e, ts) := by
  cases ts with
  | nil => rw [chain]
  | cons t ts => rw [chain, stops t rfl]

section
variable {α β : Type} {op? : Token → Option BinaryOp} {operand : Parser} {P : List Token → Prop}
  (op : α → Token) (toOp : α → BinaryOp) (toks : β → List Token) (tree : β → Expression)

theorem behind_operand (behind : ∀ a ts, P (op a :: ts)) {rest : List Token} (last : P rest)
    (xs : List (α × β)) : P (xs.flatMap (fun x => op x.1 :: toks x.2) ++ rest) := by
  cases xs with
  | nil => exact last
  | cons x xs => exact behind x.1 _

/-- A chain is read as what it means, if every operand is that has an operator or `rest` behind
it. -/
theorem chain_repeated (ops : ∀ a, op? (op a) = some (toOp a)) (behind : ∀ a ts, P (op a :: ts))
    (one : ∀ b ts, P ts → operand (toks b ++ ts) = some (tree b, ts)) {rest : List Token}
    (last : P rest) (stops : Stops op? rest) (xs : List (α × β)) (e : Expression) :
    chain op? operand e (xs.flatMap (fun x => op x.1 :: toks x.2) ++ rest) =
      some (xs.foldl (fun e x => .binary (toOp x.1) e (tree x.2)) e, rest) := by
  induction xs generalizing e with
  | nil => exact chain_of_stops stops operand e
  | cons x xs ih =>
    have next := behind_operand op toks behind last xs
    simp only [List.flatMap_cons, List.cons_append, List.append_assoc, List.foldl_cons]
    rw [chain, ops]
    simp only [one x.2 _ next]
    rw [if_pos (by simp), ih]

theorem level_repeated (ops : ∀ a, op? (op a) = some (toOp a)) (behind : ∀ a ts, P (op a :: ts))
    (one : ∀ b ts, P ts → operand (toks b ++ ts) = some (tree b, ts)) {rest : List Token}
    (last : P rest) (stops : Stops op? rest) (first : β) (xs : List (α × β)) :
    level op? operand (toks first ++ (xs.flatMap (fun x => op x.1 :: toks x.2) ++ rest)) =
      some (xs.foldl (fun e x => .binary (toOp x.1) e (tree x.2)) (tree first), rest) := by
  have next := behind_operand op toks behind last xs
  simp only [level, one first _ next]
  exact chain_repeated op toOp toks tree ops behind one last stops xs (tree first)

end

/-! ## Values -/

inductive Value where
  | int (n : ℤ)
  | floating (q : ℚ)
  deriving DecidableEq

namespace Value

/-- The value converted to floating point. -/
def toRat : Value → ℚ
  | int n => n
  | floating q => q

/-- The value that an operator has if it is a number on two numbers of either type. -/
def arithmetic (onInt : ℤ → ℤ → ℤ) (onRat : ℚ → ℚ → ℚ) : Value → Value → Value
  | int m, int n => int (onInt m n)
  | a, b => floating (onRat a.toRat b.toRat)

/-- Integers are divided towards zero. -/
def divide (a b : Value) : Option Value :=
  if b.toRat = 0 then none else some (arithmetic Int.tdiv (· / ·) a b)

/-- The truth of a comparison is an integer. -/
def ofBool (b : Bool) : Value := int (if b then 1 else 0)

end Value

def BinaryOp.apply : BinaryOp → Value → Value → Option Value
  | mul, a, b => some (Value.arithmetic (· * ·) (· * ·) a b)
  | div, a, b => Value.divide a b
  | add, a, b => some (Value.arithmetic (· + ·) (· + ·) a b)
  | sub, a, b => some (Value.arithmetic (· - ·) (· - ·) a b)
  | less, a, b => some (.ofBool (a.toRat < b.toRat))
  | greater, a, b => some (.ofBool (b.toRat < a.toRat))
  | lessEqual, a, b => some (.ofBool (a.toRat ≤ b.toRat))
  | greaterEqual, a, b => some (.ofBool (b.toRat ≤ a.toRat))
  | equal, a, b => some (.ofBool (a.toRat = b.toRat))
  | notEqual, a, b => some (.ofBool (a.toRat ≠ b.toRat))

def applySign : Sign → Value → Value
  | .plus, v => v
  | .minus, .int n => .int (-n)
  | .minus, .floating q => .floating (-q)

/-- The value of a constant without exponent and suffix. One with a point is a `double`. Without a
point it is an integer, and a leading zero says that its digits are octal. -/
def constant? (text : String) : Option Value :=
  let whole := text.toList.takeWhile Char.isDigit
  match text.toList.dropWhile Char.isDigit with
  | [] =>
    match whole with
    | [] => none
    | '0' :: octal =>
      if octal.all (· < '8') then some (.int (digitsValue 8 octal)) else none
    | _ => some (.int (digitsValue 10 whole))
  | '.' :: fraction =>
    if fraction.all Char.isDigit ∧ whole ++ fraction ≠ [] then
      some (.floating (decimalValue whole fraction))
    else none
  | _ => none

/-- The value of an expression. Variables are floating point. -/
def Expression.value (env : String → ℚ) : Expression → Option Value
  | constant text => constant? text
  | variable_ name => some (.floating (env name))
  | signed sign e => (e.value env).map (applySign sign)
  | binary op a b => (a.value env).bind fun x => (b.value env).bind fun y => op.apply x y

/-- The value of the expression that a text is. -/
def evaluate (text : String) (env : String → ℚ) : Option Value :=
  (parse text).bind (·.value env)

end C

end MiniBasic
