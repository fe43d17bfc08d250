import Mathlib.Data.List.TakeWhile
import Mathlib.Tactic.FieldSimp
import MiniBasic.Proofs.AcceptedTree
import MiniBasic.Proofs.TargetReading

/-!
# Arithmetic

The language has one type of numbers, and its operators are those of the rationals. The generated C
has integers besides, since literals are copied. What an expression comes to in C is its value if
no division of two integers has a remainder and no literal is read as octal
(`Expression.agrees`).
-/

namespace MiniBasic

/-! ## Values -/

def literalValue (text : String) : ℚ :=
  decimalValue (text.toList.takeWhile Char.isDigit) ((text.toList.dropWhile Char.isDigit).drop 1)

def Operand.value (env : String → ℚ) : Operand → ℚ
  | number text => literalValue text
  | variable_ name => env name

def Factor.value (env : String → ℚ) (f : Factor) : ℚ :=
  match f.sign with
  | some .minus => -f.operand.value env
  | _ => f.operand.value env

/-- Nothing can be divided by zero. -/
def Scale.apply : Scale → ℚ → ℚ → Option ℚ
  | times, a, b => some (a * b)
  | divide, a, b => if b = 0 then none else some (a / b)

def Sign.apply : Sign → ℚ → ℚ → ℚ
  | plus, a, b => a + b
  | minus, a, b => a - b

def Term.value (env : String → ℚ) (t : Term) : Option ℚ :=
  t.rest.foldlM (fun a x => x.1.apply a (x.2.value env)) (t.first.value env)

def Expression.value (env : String → ℚ) (e : Expression) : Option ℚ :=
  (e.first.value env).bind fun a =>
    e.rest.foldlM (fun a x => (x.2.value env).map (x.1.apply a)) a

/-! ## Literals -/

def Factor.literals (f : Factor) : List String :=
  match f.operand with
  | .number text => [text]
  | .variable_ _ => []

def Term.literals (t : Term) : List String :=
  t.first.literals ++ t.rest.flatMap (·.2.literals)

def Expression.literals (e : Expression) : List String :=
  e.first.literals ++ e.rest.flatMap (·.2.literals)

/-- A literal that C does not read as another number. Digits behind a leading zero are octal, which
makes no difference to a number below eight. -/
def ReadsAlike (text : String) : Prop :=
  '.' ∈ text.toList ∨ text.toList.head? ≠ some '0' ∨ literalValue text < 8

instance (text : String) : Decidable (ReadsAlike text) := inferInstanceAs (Decidable (_ ∨ _ ∨ _))

/-- The value of the expression in C is the number `v`. -/
def C.Expression.Agrees (env : String → ℚ) (e : C.Expression) (v : ℚ) : Prop :=
  ∃ w, e.value env = some w ∧ w.toRat = v

theorem le_foldl_digits (cs : List Char) (n : ℕ) :
    n ≤ cs.foldl (fun n c => 10 * n + (c.toNat - '0'.toNat)) n := by
  induction cs generalizing n with
  | nil => exact le_refl n
  | cons c cs ih =>
    have := ih (10 * n + (c.toNat - '0'.toNat))
    rw [List.foldl_cons]
    omega

/-- Below eight the base does not matter. -/
theorem foldl_digits_eq {cs : List Char} {n : ℕ} (digits : ∀ c ∈ cs, c.isDigit)
    (small : cs.foldl (fun n c => 10 * n + (c.toNat - '0'.toNat)) n < 8) :
    (∀ c ∈ cs, c < '8') ∧ cs.foldl (fun n c => 8 * n + (c.toNat - '0'.toNat)) n =
      cs.foldl (fun n c => 10 * n + (c.toNat - '0'.toNat)) n := by
  induction cs generalizing n with
  | nil => exact ⟨nofun, rfl⟩
  | cons c cs ih =>
    rw [List.foldl_cons] at small
    obtain ⟨digit, others⟩ := List.forall_mem_cons.mp digits
    have le := le_foldl_digits cs (10 * n + (c.toNat - '0'.toNat))
    obtain rfl : n = 0 := by omega
    obtain ⟨octal, same⟩ := ih others small
    have low : c < '8' := by
      have zero : '0'.toNat = 48 := rfl
      have eight : '8'.toNat = 56 := rfl
      rw [Char.lt_def, UInt32.lt_iff_toNat_lt]
      change c.toNat < '8'.toNat
      omega
    exact ⟨List.forall_mem_cons.mpr ⟨low, octal⟩, same⟩

/-- A literal with a point is a `double` of the same value. -/
theorem constant_of_point {text : String} {whole digits : List Char}
    (eq : text.toList = whole ++ '.' :: digits) (whole_ne : whole ≠ [])
    (whole_digits : ∀ c ∈ whole, c.isDigit) (digits_digits : ∀ c ∈ digits, c.isDigit) :
    C.constant? text = some (.floating (decimalValue whole digits)) ∧
      literalValue text = decimalValue whole digits := by
  have taken : text.toList.takeWhile Char.isDigit = whole := by
    rw [eq, List.takeWhile_append_of_pos whole_digits]
    simp
  have dropped : text.toList.dropWhile Char.isDigit = '.' :: digits := by
    rw [eq, List.dropWhile_append_of_pos whole_digits]
    rfl
  constructor
  · simp [C.constant?, taken, dropped, whole_ne]
    exact digits_digits
  · rw [literalValue, taken, dropped]
    rfl

theorem literalValue_of_whole {text : String} (digits : ∀ c ∈ text.toList, c.isDigit) :
    literalValue text = digitsValue 10 text.toList := by
  have taken : text.toList.takeWhile Char.isDigit = text.toList :=
    List.takeWhile_eq_self_iff.mpr digits
  have dropped : text.toList.dropWhile Char.isDigit = [] :=
    List.dropWhile_eq_nil_iff.mpr digits
  rw [literalValue, taken, dropped]
  simp [decimalValue, digitsValue]

/-- A literal without a point is an integer, of the same value unless octal digits matter. -/
theorem constant_of_whole {text : String} (ne_nil : text.toList ≠ [])
    (digits : ∀ c ∈ text.toList, c.isDigit)
    (alike : text.toList.head? ≠ some '0' ∨ literalValue text < 8) :
    C.constant? text = some (.int (digitsValue 10 text.toList)) := by
  have taken : text.toList.takeWhile Char.isDigit = text.toList :=
    List.takeWhile_eq_self_iff.mpr digits
  have dropped : text.toList.dropWhile Char.isDigit = [] :=
    List.dropWhile_eq_nil_iff.mpr digits
  rw [literalValue_of_whole digits] at alike
  simp only [C.constant?, taken, dropped]
  generalize text.toList = cs at *
  cases cs with
  | nil => contradiction
  | cons c cs =>
    by_cases zero : c = '0'
    · subst zero
      have small : digitsValue 10 ('0' :: cs) < 8 := by
        have := alike.resolve_left (by simp)
        exact_mod_cast this
      obtain ⟨octal, same⟩ := foldl_digits_eq digits small
      have all : cs.all (· < '8') := by simpa using (List.forall_mem_cons.mp octal).2
      have value : digitsValue 8 cs = digitsValue 10 ('0' :: cs) := same
      simp [all, value]
    · simp [zero]

theorem constant_agrees {text : String} (numeral : IsNumeral text.toList)
    (alike : ReadsAlike text) (env : String → ℚ) :
    (C.Expression.constant text).Agrees env (literalValue text) := by
  obtain ⟨whole, fraction, eq, whole_ne, whole_digits, fraction_digits⟩ := numeral
  rcases fraction_digits with rfl | ⟨digits, rfl, -, digits_digits⟩
  · rw [List.append_nil] at eq
    subst eq
    have no_point : '.' ∉ text.toList := fun mem => by simpa using whole_digits _ mem
    have constant := constant_of_whole whole_ne whole_digits (alike.resolve_left no_point)
    exact ⟨_, constant, by simp [C.Value.toRat, literalValue_of_whole whole_digits]⟩
  · obtain ⟨constant, value⟩ := constant_of_point eq whole_ne whole_digits digits_digits
    exact ⟨_, constant, value.symm⟩

/-! ## Operators -/

namespace C

/-- No division of two integers has a remainder. -/
def Expression.Exact (env : String → ℚ) : Expression → Prop
  | constant _ | variable_ _ => True
  | signed _ e => e.Exact env
  | binary op a b => a.Exact env ∧ b.Exact env ∧
    (op = .div → ∀ m n, a.value env = some (.int m) → b.value env = some (.int n) → n ∣ m)

namespace Value
variable {a b : Value}

theorem toRat_arithmetic {onInt : ℤ → ℤ → ℤ} {onRat : ℚ → ℚ → ℚ}
    (same : ∀ m n : ℤ, (onInt m n : ℚ) = onRat m n) :
    (arithmetic onInt onRat a b).toRat = onRat a.toRat b.toRat := by
  cases a <;> cases b <;> simp [arithmetic, toRat, same]

theorem divide_of_exact (ne_zero : b.toRat ≠ 0)
    (exact_ : ∀ m n, a = int m → b = int n → n ∣ m) :
    ∃ w, divide a b = some w ∧ w.toRat = a.toRat / b.toRat := by
  refine ⟨_, if_neg ne_zero, ?_⟩
  cases a with
  | floating => rfl
  | int m =>
    cases b with
    | floating => rfl
    | int n =>
      obtain ⟨k, rfl⟩ := exact_ m n rfl rfl
      have ne_zero' : n ≠ 0 := by simpa [toRat] using ne_zero
      have : (n : ℚ) ≠ 0 := by simpa [toRat] using ne_zero
      simp only [arithmetic, toRat, Int.mul_tdiv_cancel_left k ne_zero', Int.cast_mul]
      field_simp

end Value

variable {env : String → ℚ} {a b : Expression} {x y : ℚ}

theorem Expression.Agrees.signed (sign : Sign) (h : a.Agrees env x) :
    (Expression.signed sign a).Agrees env (match sign with | .plus => x | .minus => -x) := by
  obtain ⟨v, value, rfl⟩ := h
  refine ⟨applySign sign v, by simp [Expression.value, value], ?_⟩
  cases sign <;> cases v <;> simp [applySign, Value.toRat]

theorem Expression.value_binary {v w : Value} (left : a.value env = some v)
    (right : b.value env = some w) (op : BinaryOp) :
    (Expression.binary op a b).value env = op.apply v w := by
  simp [Expression.value, left, right]

theorem Expression.Agrees.scale {op : Scale} {q : ℚ} (first : a.Agrees env x)
    (second : b.Agrees env y) (apply : op.apply x y = some q)
    (exact_ : (Expression.binary op.toC a b).Exact env) :
    (Expression.binary op.toC a b).Agrees env q := by
  obtain ⟨v, left, rfl⟩ := first
  obtain ⟨w, right, rfl⟩ := second
  cases op with
  | times =>
    obtain rfl : v.toRat * w.toRat = q := by simpa [Scale.apply] using apply
    exact ⟨_, value_binary left right .mul, Value.toRat_arithmetic Int.cast_mul⟩
  | divide =>
    obtain ⟨ne_zero, rfl⟩ : w.toRat ≠ 0 ∧ v.toRat / w.toRat = q := by
      simpa [Scale.apply] using apply
    obtain ⟨u, divided, same⟩ := Value.divide_of_exact ne_zero fun m n left' right' =>
      exact_.2.2 rfl m n (left.trans (congrArg some left')) (right.trans (congrArg some right'))
    exact ⟨u, (value_binary left right .div).trans divided, same⟩

theorem Expression.Agrees.add (op : Sign) (first : a.Agrees env x) (second : b.Agrees env y) :
    (Expression.binary op.toC a b).Agrees env (op.apply x y) := by
  obtain ⟨v, left, rfl⟩ := first
  obtain ⟨w, right, rfl⟩ := second
  cases op with
  | plus => exact ⟨_, value_binary left right .add, Value.toRat_arithmetic Int.cast_add⟩
  | minus => exact ⟨_, value_binary left right .sub, Value.toRat_arithmetic Int.cast_sub⟩

/-- A chain is exact only if what it starts with is. -/
theorem Expression.Exact.of_foldl {α : Type} {op : α → BinaryOp} {operand : α → Expression}
    {xs : List α} {e : Expression}
    (h : (xs.foldl (fun e x => .binary (op x) e (operand x)) e).Exact env) : e.Exact env := by
  induction xs generalizing e with
  | nil => exact h
  | cons x xs ih => exact (ih h).1

/-- A chain has its value, if every operator has. -/
theorem Expression.Agrees.foldl {α : Type} {op : α → BinaryOp} {operand : α → Expression}
    {apply : ℚ → α → Option ℚ} {xs : List α} {e : Expression} {p q : ℚ}
    (one : ∀ x ∈ xs, ∀ {e p q}, e.Agrees env p → apply p x = some q →
      (Expression.binary (op x) e (operand x)).Exact env →
      (Expression.binary (op x) e (operand x)).Agrees env q)
    (first : e.Agrees env p)
    (exact_ : (xs.foldl (fun e x => .binary (op x) e (operand x)) e).Exact env)
    (value : xs.foldlM apply p = some q) :
    (xs.foldl (fun e x => .binary (op x) e (operand x)) e).Agrees env q := by
  induction xs generalizing e p with
  | nil =>
    cases value
    exact first
  | cons x xs ih =>
    obtain ⟨here, others⟩ := List.forall_mem_cons.mp one
    rw [List.foldlM_cons] at value
    obtain ⟨p', applied, rest⟩ := Option.bind_eq_some_iff.mp value
    rw [List.foldl_cons] at exact_
    exact ih others (here first applied exact_.of_foldl) exact_ rest

end C

/-! ## Expressions -/

section
variable {env : String → ℚ} {v : ℚ}

theorem Factor.agrees {f : Factor} (lexical : ∀ u ∈ f.tokens, u.Lexical)
    (alike : ∀ text ∈ f.literals, ReadsAlike text) : f.toC.Agrees env (f.value env) := by
  obtain ⟨sign, operand⟩ := f
  have operand_agrees : operand.toC.Agrees env (operand.value env) := by
    cases operand with
    | number text =>
      have literal : (Operand.number text).token.Lexical := lexical _ (by simp [tokens])
      exact constant_agrees (literal.number rfl) (alike text (by simp [literals])) env
    | variable_ name => exact ⟨_, rfl, rfl⟩
  rcases sign with _ | _ | _
  · exact operand_agrees
  · exact operand_agrees.signed .plus
  · exact operand_agrees.signed .minus

theorem Term.agrees {t : Term} (lexical : ∀ u ∈ t.tokens, u.Lexical)
    (alike : ∀ text ∈ t.literals, ReadsAlike text) (exact_ : t.toC.Exact env)
    (value : t.value env = some v) : t.toC.Agrees env v := by
  obtain ⟨first, rest⟩ := List.forall_mem_append.mp lexical
  obtain ⟨first_alike, rest_alike⟩ := List.forall_mem_append.mp alike
  refine C.Expression.Agrees.foldl (fun x mem e p q agrees applied exact_ => ?_)
    (Factor.agrees first first_alike) exact_ value
  have factor : x.2.toC.Agrees env (x.2.value env) := Factor.agrees
    (fun u mem' => rest u (List.mem_flatMap.mpr ⟨x, mem, List.mem_cons_of_mem _ mem'⟩))
    (fun text mem' => rest_alike text (List.mem_flatMap.mpr ⟨x, mem, mem'⟩))
  exact agrees.scale factor applied exact_

/-- In C the expression has its value. -/
theorem Expression.agrees {e : Expression} (lexical : ∀ u ∈ e.tokens, u.Lexical)
    (alike : ∀ text ∈ e.literals, ReadsAlike text) (exact_ : e.toC.Exact env)
    (value : e.value env = some v) : e.toC.Agrees env v := by
  obtain ⟨first, rest⟩ := List.forall_mem_append.mp lexical
  obtain ⟨first_alike, rest_alike⟩ := List.forall_mem_append.mp alike
  obtain ⟨x, first_value, rest_value⟩ := Option.bind_eq_some_iff.mp value
  refine C.Expression.Agrees.foldl (fun y mem e p q agrees applied sum_exact => ?_)
    (Term.agrees first first_alike exact_.of_foldl first_value) exact_ rest_value
  obtain ⟨z, term_value, rfl⟩ := Option.map_eq_some_iff.mp applied
  have term : y.2.toC.Agrees env z := Term.agrees
    (fun u mem' => rest u (List.mem_flatMap.mpr ⟨y, mem, List.mem_cons_of_mem _ mem'⟩))
    (fun text mem' => rest_alike text (List.mem_flatMap.mpr ⟨y, mem, mem'⟩))
    sum_exact.2.1 term_value
  exact agrees.add y.1 term

end

/-! ## Programs -/

def Comparison.operands (c : Comparison) : List Expression := c.left :: c.right :: c.rest.map (·.2)

/-- The expressions that are printed, assigned and compared. -/
def Tree.expressions : Tree → List Expression
  | nil => []
  | simple (.print e) next | simple (.assign _ e) next => e :: next.expressions
  | simple _ next => next.expressions
  | branch c body next | loop c body next => c.operands ++ body.expressions ++ next.expressions

/-- The text `a` is somewhere in the text `b`. -/
def Within (a b : String) : Prop := ∃ before after, b = before ++ a ++ after

namespace Within
variable {a b : String}

theorem self (a : String) : Within a a := ⟨"", "", by simp⟩

theorem append_right (h : Within a b) (after : String) : Within a (b ++ after) := by
  obtain ⟨before, after', rfl⟩ := h
  exact ⟨before, after' ++ after, by simp only [String.append_assoc]⟩

theorem append_left (h : Within a b) (before : String) : Within a (before ++ b) := by
  obtain ⟨before', after, rfl⟩ := h
  exact ⟨before ++ before', after, by simp only [String.append_assoc]⟩

end Within

theorem Comparison.within_code {c : Comparison} : ∀ e ∈ c.operands, Within e.code c.code := by
  have later {xs : List (Relation × Expression)} {x : Relation × Expression} (mem : x ∈ xs) :
      Within x.2.code
        (String.join (xs.map fun y => " " ++ y.1.token.text ++ " " ++ y.2.code)) := by
    obtain ⟨as, bs, rfl⟩ := List.append_of_mem mem
    rw [List.map_append, List.map_cons, String.join_append, String.join_cons]
    exact (((Within.self x.2.code).append_left _).append_right _).append_left _
  rw [operands, code_eq]
  refine List.forall_mem_cons.mpr ⟨(Within.self c.left.code).append_right _, fun e mem => ?_⟩
  obtain ⟨x, mem_x, rfl⟩ : ∃ x ∈ (c.relation, c.right) :: c.rest, x.2 = e := List.mem_map.mp mem
  exact (later mem_x).append_left _

theorem Comparison.mem_tokens {c : Comparison} {e : Expression} (mem : e ∈ c.operands) :
    e.tokens ⊆ c.tokens := by
  intro u mem_u
  rcases List.mem_cons.mp mem with rfl | mem
  · exact List.mem_append_left _ mem_u
  · obtain ⟨x, mem_x, rfl⟩ : ∃ x ∈ (c.relation, c.right) :: c.rest, x.2 = e := List.mem_map.mp mem
    exact List.mem_append_right _ (List.mem_flatMap.mpr ⟨x, mem_x, List.mem_cons_of_mem _ mem_u⟩)

namespace Tree
variable {t : Tree} {e : Expression}

theorem mem_tokens (mem : e ∈ t.expressions) : e.tokens ⊆ t.tokens := by
  intro u mem_u
  induction t with
  | nil => cases mem
  | simple s next ih =>
    cases s <;> simp only [expressions, List.mem_cons] at mem <;>
      simp only [tokens, Statement.tokens, List.mem_append, List.mem_cons]
    case print =>
      rcases mem with rfl | mem
      · simp [mem_u]
      · simp [ih mem]
    case assign =>
      rcases mem with rfl | mem
      · simp [mem_u]
      · simp [ih mem]
    all_goals simp [ih mem]
  | branch c body next ih_body ih | loop c body next ih_body ih =>
    simp only [expressions, List.mem_append] at mem
    simp only [tokens, List.cons_append, List.mem_append, List.mem_cons]
    rcases mem with (mem | mem) | mem
    · simp [Comparison.mem_tokens mem mem_u]
    · simp [ih_body mem]
    · simp [ih mem]

theorem within_code (mem : e ∈ t.expressions) : Within e.code t.code := by
  induction t with
  | nil => cases mem
  | simple s next ih =>
    rw [code]
    cases s with
    | print e' =>
      rcases List.mem_cons.mp mem with rfl | mem
      · rw [Statement.code_print]
        exact (((Within.self e.code).append_left _).append_right _).append_right _
      · exact (ih mem).append_left _
    | assign name e' =>
      rcases List.mem_cons.mp mem with rfl | mem
      · rw [Statement.code_assign]
        exact (((Within.self e.code).append_left _).append_right _).append_right _
      · exact (ih mem).append_left _
    | printText | label | goto | input => exact (ih mem).append_left _
  | branch c body next ih_body ih | loop c body next ih_body ih =>
    rw [code]
    rcases List.mem_append.mp mem with mem | mem
    · rcases List.mem_append.mp mem with mem | mem
      · have condition := c.within_code e mem
        exact ((((condition.append_left _).append_right _).append_right _).append_right _)
          |>.append_right _
      · exact (((ih_body mem).append_left _).append_right _).append_right _
    · exact (ih mem).append_left _

end Tree

/-- Every expression of an accepted source is read by C as it stands in the source. Where no divisor
is zero C gives it the value that it has in the language, if no literal is octal to C and no
division of two integers has a remainder. -/
theorem expressions_evaluate {source code : String} (h : compile source = .ok code) :
    ∃ t, Spells source t ∧ ∀ e ∈ t.expressions,
      Within e.code code ∧ C.parse e.code = some e.toC ∧
      ∀ env v, e.value env = some v → (∀ text ∈ e.literals, ReadsAlike text) → e.toC.Exact env →
        ∃ w, C.evaluate e.code env = some w ∧ w.toRat = v := by
  obtain ⟨t, compiles⟩ := exists_tree h
  refine ⟨t, compiles.spelled, fun e mem => ?_⟩
  have lexical : ∀ u ∈ e.tokens, u.Lexical := fun u mem' =>
    compiles.lexical u (Tree.mem_tokens mem mem')
  have parsed := C.parse_code lexical
  refine ⟨?_, parsed, fun env v value alike exact_ => ?_⟩
  · rw [compiles.code_eq, Tree.program_eq]
    exact (((Tree.within_code mem).append_left _).append_right _).append_left _
  · rw [C.evaluate, parsed]
    exact Expression.agrees lexical alike exact_ value

/-- With a point in front of the division it is one of floating point. -/
theorem half_with_point :
    ∃ w, C.evaluate "1.0 / 2 - 3" (fun _ => 0) = some w ∧ w.toRat = -5 / 2 := by
  let half : Expression :=
    ⟨⟨⟨none, .number "1.0"⟩, [(.divide, ⟨none, .number "2"⟩)]⟩,
      [(.minus, ⟨⟨none, .number "3"⟩, []⟩)]⟩
  have compiled : compile "PRINT 1.0 / 2 - 3" =
      .ok ("#include <stdio.h>\nint main(void)\x7b\n" ++
        "printf(\"%.2f\\n\", (float)(1.0 / 2 - 3));\nreturn 0;\n\x7d\n") := by decide +kernel
  obtain ⟨t, spelled, expressions⟩ := expressions_evaluate compiled
  have tree : Spells "PRINT 1.0 / 2 - 3" (.simple (.print half) .nil) :=
    ⟨leadingTokens "PRINT 1.0 / 2 - 3", by decide +kernel, by decide +kernel⟩
  obtain rfl := spelled.unique tree
  obtain ⟨-, -, evaluates⟩ := expressions half (by simp [Tree.expressions])
  have floating : C.constant? "1.0" = some (.floating 1) := by decide +kernel
  have exact_ : half.toC.Exact (fun _ => 0) := by
    refine ⟨⟨trivial, trivial, fun _ m n left _ => ?_⟩, trivial, nofun⟩
    exact absurd (floating.symm.trans left) (by simp)
  exact evaluates (fun _ => 0) (-5 / 2) (by decide +kernel) (by decide +kernel) exact_

/-- Without one it is a division of integers. -/
theorem half_without_point :
    let half : Expression := ⟨⟨⟨none, .number "1"⟩, [(.divide, ⟨none, .number "2"⟩)]⟩, []⟩
    Spells "PRINT 1 / 2\n" (.simple (.print half) .nil) ∧
      compile "PRINT 1 / 2\n" = .ok ("#include <stdio.h>\nint main(void)\x7b\n" ++
        "printf(\"%.2f\\n\", (float)(1 / 2));\nreturn 0;\n\x7d\n") ∧
      half.value (fun _ => 0) = some (1 / 2) ∧ half.code = "1 / 2" ∧
      C.evaluate "1 / 2" (fun _ => 0) = some (.int 0) := by
  intro half
  refine ⟨⟨leadingTokens "PRINT 1 / 2\n", by decide +kernel, by decide +kernel⟩,
    by decide +kernel, by decide +kernel, by decide +kernel, by decide +kernel⟩

end MiniBasic
