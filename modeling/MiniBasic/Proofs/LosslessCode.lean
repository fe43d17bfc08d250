import MiniBasic.Proofs.NameClashes
import MiniBasic.Proofs.TargetReading
import MiniBasic.Proofs.Unambiguous

/-!
# Nothing is lost in the code

The code of a program tells the program. Expressions are read back token by token
(`Expression.code_injective`). Statements are told apart by their first lines, of which `formOf`
reads which statement it is: a variable is not called like a keyword or a function that a line may
start with, a label ends in a colon, and the text of a string has no `%`. A block ends at its brace,
which no statement starts with, so trees are compared together with the lines behind them, as it is
done for their tokens (`Tree.lines_append_inj`).
-/

namespace MiniBasic

/-! ## Expressions -/

namespace C

/-- The operators of expressions as tokens. -/
def operatorTokens : List MiniBasic.Token :=
  [Sign.plus.token, Sign.minus.token, Scale.times.token, Scale.divide.token] ++
    Relation.all.map Relation.token

/-- The token of an expression that comes to this token of C. -/
def Token.origin : Token → MiniBasic.Token
  | number text => ⟨.number, text⟩
  | word text => ⟨.ident, text⟩
  | punctuator text => (operatorTokens.find? (·.text = text)).getD ⟨.eof, ""⟩

theorem Reads.map_toC_eq {text : String} {ts us : List MiniBasic.Token} (h : Reads text ts)
    (h' : Reads text us) : ts.map MiniBasic.Token.toC = us.map MiniBasic.Token.toC := by
  have read := h [] nofun
  rw [h' [] nofun] at read
  simpa using read.symm

theorem Reads.eq {text : String} {ts us : List MiniBasic.Token} (h : Reads text ts)
    (h' : Reads text us) (origins : ∀ u ∈ ts, u.toC.origin = u)
    (origins' : ∀ u ∈ us, u.toC.origin = u) : ts = us := by
  have back {vs : List MiniBasic.Token} (origins : ∀ u ∈ vs, u.toC.origin = u) :
      (vs.map MiniBasic.Token.toC).map Token.origin = vs := by
    rw [List.map_map]
    exact (List.map_congr_left origins).trans (List.map_id vs)
  rw [← back origins, h.map_toC_eq h', back origins']

end C

/-- Operators with an operand each, in all tokens of which `P` holds. -/
theorem forall_mem_repeated {α β : Type} {op : α → Token} {tokens : β → List Token}
    {P : Token → Prop} (ops : ∀ a, P (op a)) (operands : ∀ b, ∀ u ∈ tokens b, P u)
    (xs : List (α × β)) : ∀ u ∈ xs.flatMap (fun x => op x.1 :: tokens x.2), P u := by
  simp only [List.forall_mem_flatMap, List.forall_mem_cons]
  exact fun x _ => ⟨ops x.1, operands x.2⟩

theorem Factor.origin_toC (f : Factor) : ∀ u ∈ f.tokens, u.toC.origin = u := by
  obtain ⟨sign, operand⟩ := f
  have operand_origin : operand.token.toC.origin = operand.token := by
    cases operand <;> rfl
  rcases sign with _ | _ | _ <;> simp [tokens, operand_origin] <;> decide

theorem Term.origin_toC (t : Term) : ∀ u ∈ t.tokens, u.toC.origin = u :=
  List.forall_mem_append.mpr ⟨t.first.origin_toC,
    forall_mem_repeated (fun op => by cases op <;> decide) Factor.origin_toC t.rest⟩

namespace Expression
variable {e e' : Expression}

theorem origin_toC (e : Expression) : ∀ u ∈ e.tokens, u.toC.origin = u :=
  List.forall_mem_append.mpr ⟨e.first.origin_toC,
    forall_mem_repeated (fun op => by cases op <;> decide) Term.origin_toC e.rest⟩

/-- The code of an expression tells the expression. -/
theorem code_injective (h : ∀ u ∈ e.tokens, u.Lexical) (h' : ∀ u ∈ e'.tokens, u.Lexical)
    (same : e.code = e'.code) : e = e' := by
  have read := C.reads_expression h
  rw [same] at read
  have tokens_eq := read.eq (C.reads_expression h') e.origin_toC e'.origin_toC
  exact (tokens_append_inj notAhead_nil notAhead_nil (congrArg (· ++ []) tokens_eq)).1

end Expression

namespace Comparison
variable {c c' : Comparison}

theorem origin_toC (c : Comparison) : ∀ u ∈ c.tokens, u.toC.origin = u :=
  List.forall_mem_append.mpr ⟨c.left.origin_toC,
    forall_mem_repeated (fun op => by cases op <;> decide) Expression.origin_toC _⟩

theorem reads_code (h : ∀ u ∈ c.tokens, u.Lexical) : C.Reads c.code c.tokens := by
  obtain ⟨left, right⟩ := List.forall_mem_append.mp h
  have others := C.reads_chainCode Relation.token Expression.tokens Expression.code
    (fun op => by cases op <;> decide) (fun op => by cases op <;> rfl)
    (fun _ => C.reads_expression) right
  rw [code_eq]
  exact (C.reads_expression left).append others fun _ =>
    C.boundary_chainCode Relation.token Expression.code _

theorem code_injective (h : ∀ u ∈ c.tokens, u.Lexical) (h' : ∀ u ∈ c'.tokens, u.Lexical)
    (same : c.code = c'.code) : c = c' := by
  have read := reads_code h
  rw [same] at read
  have tokens_eq := read.eq (reads_code h') c.origin_toC c'.origin_toC
  exact (tokens_append_inj notAhead_nil notAhead_nil (congrArg (· ++ []) tokens_eq)).1

end Comparison

/-! ## First lines -/

/-- What the first line of a statement shows it to be. -/
inductive Form where
  | printText | print | label | goto | assign | input | branch | loop
  /-- The line is not the first one of a statement. -/
  | none
  deriving DecidableEq, Repr

/-- The last two characters of a line, the last one first. -/
def ending (line : String) : List Char := line.toList.reverse.take 2

theorem ending_append (a : String) {b : String} (long : 2 ≤ b.toList.length) :
    ending (a ++ b) = ending b := by
  unfold ending
  rw [String.toList_append, List.reverse_append,
    List.take_append_of_le_length (by simpa using long)]

def formOf (line : String) : Form :=
  if lastChar line = some ':' then .label
  else if lead line = "printf".toList then
    if line.toList[8]? = some '%' then .print else .printText
  else if lead line = "goto".toList then .goto
  else if lead line = "if".toList then
    if ending line = ['\x7b', ' '] then .input else .branch
  else if lead line = "while".toList then .loop
  else if lead line = [] ∨ lead line = "return".toList then .none
  else .assign

theorem lead_between {a : String} (ne : lead a ≠ a.toList) (middle b : String) :
    lead (a ++ middle ++ b) = lead a := by
  rw [String.append_assoc, lead_append ne]

theorem formOf_printText {text : String} (h : Token.Lexical ⟨.string, text⟩) :
    formOf ("printf(\"" ++ text ++ "\\n\");") = .printText := by
  have no_percent : ("printf(\"" ++ text ++ "\\n\");").toList[8]? ≠ some '%' := by
    simp only [String.toList_append]
    cases chars : text.toList with
    | nil => decide
    | cons c cs =>
      intro percent
      obtain rfl : c = '%' := Option.some.inj percent
      have := h.string rfl '%' (by simp [chars])
      exact absurd this (by decide)
  rw [formOf, lastChar_append (by decide), lead_between (by decide), if_neg no_percent]
  rfl

theorem formOf_print (code : String) :
    formOf ("printf(\"%.2f\\n\", (float)(" ++ code ++ "));") = .print := by
  have percent : ("printf(\"%.2f\\n\", (float)(" ++ code ++ "));").toList[8]? = some '%' := by
    simp only [String.toList_append]
    rfl
  rw [formOf, lastChar_append (by decide), lead_between (by decide), if_pos percent]
  rfl

theorem formOf_label (name : String) : formOf (name ++ ":") = .label := by
  rw [formOf, lastChar_label]
  rfl

theorem formOf_goto (name : String) : formOf ("goto " ++ name ++ ";") = .goto := by
  rw [formOf, lastChar_semicolon, lead_jump]
  rfl

theorem formOf_assign {name : String} (word : IsWord name.toList)
    (free : name ∉ targetKeywords ++ targetGlobals) (rest : String) :
    formOf (name ++ " = " ++ rest ++ ";") = .assign := by
  have other {keyword : String} (reserved : keyword ∈ targetKeywords ++ targetGlobals) :
      name.toList ≠ keyword.toList := by
    intro same
    rw [String.toList_inj.mp same] at free
    exact free reserved
  have ne_nil : name.toList ≠ [] := by
    obtain ⟨c, cs, eq, -⟩ := word
    simp [eq]
  rw [formOf, lastChar_semicolon, lead_assignment word, if_neg (by decide),
    if_neg (other (by decide)), if_neg (other (by decide)), if_neg (other (by decide)),
    if_neg (other (by decide)), if_neg (not_or.mpr ⟨ne_nil, other (by decide)⟩)]

theorem formOf_input (name : String) :
    formOf ("if(0 == scanf(\"%f\", &" ++ name ++ ")) \x7b") = .input := by
  rw [formOf, lastChar_append (by decide), lead_between (by decide), ending_append _ (by decide)]
  rfl

theorem formOf_branch (code : String) : formOf ("if(" ++ code ++ ")\x7b") = .branch := by
  rw [formOf, lastChar_append (by decide), lead_between (by decide), ending_append _ (by decide)]
  rfl

theorem formOf_loop (code : String) : formOf ("while(" ++ code ++ ")\x7b") = .loop := by
  rw [formOf, lastChar_append (by decide), lead_between (by decide)]
  rfl

/-- What the first of the lines shows, when it is the first line of a statement. -/
def headForm (lines : List String) : Form := (lines.head?.map formOf).getD .none

def Statement.form : Statement → Form
  | printText _ => .printText
  | print _ => .print
  | label _ => .label
  | goto _ => .goto
  | assign _ _ => .assign
  | input _ => .input

theorem Statement.form_ne (s : Statement) : s.form ≠ .none ∧ s.form ≠ .branch ∧ s.form ≠ .loop := by
  cases s <;> exact ⟨nofun, nofun, nofun⟩

namespace Tree

def form : Tree → Form
  | nil => .none
  | simple s _ => s.form
  | branch _ _ _ => .branch
  | loop _ _ _ => .loop

/-- The texts in a tree and the variables that it assigns to are as in an accepted program. -/
structure Readable (t : Tree) : Prop where
  lexical : ∀ u ∈ t.tokens, u.Lexical
  assigned_free : ∀ name ∈ t.assigned, name ∉ targetKeywords ++ targetGlobals

end Tree

theorem Statement.headForm_lines {s : Statement} {next : Tree} (h : (Tree.simple s next).Readable)
    (tail : List String) : headForm (s.lines ++ tail) = s.form := by
  have lexical := (List.forall_mem_append.mp h.lexical).1
  cases s with
  | printText text => exact formOf_printText (lexical ⟨.string, text⟩ (by simp [tokens]))
  | print e => exact formOf_print e.code
  | label name => exact formOf_label name
  | goto name => exact formOf_goto name
  | assign name e =>
    have word : IsWord name.toList := (lexical ⟨.ident, name⟩ (by simp [tokens])).ident rfl
    exact formOf_assign word (h.assigned_free name (by simp [Tree.assigned])) e.code
  | input name => exact formOf_input name

/-! ## Statements -/

section
variable {as bs : List String}

theorem Statement.lines_append_inj {s s' : Statement} {next next' : Tree}
    (h : (Tree.simple s next).Readable) (h' : (Tree.simple s' next').Readable)
    (same : s.lines ++ as = s'.lines ++ bs) : s = s' ∧ as = bs := by
  have form_eq : s.form = s'.form := by
    rw [← headForm_lines h as, same, headForm_lines h' bs]
  have lexical := (List.forall_mem_append.mp h.lexical).1
  have lexical' := (List.forall_mem_append.mp h'.lexical).1
  cases s <;> cases s' <;> simp only [form, reduceCtorEq] at form_eq
  case printText.printText | label.label | goto.goto | input.input =>
    simpa [lines] using same
  case print.print e e' =>
    obtain ⟨code_eq, tail⟩ : e.code = e'.code ∧ as = bs := by simpa [lines] using same
    obtain rfl := Expression.code_injective (List.forall_mem_cons.mp lexical).2
      (List.forall_mem_cons.mp lexical').2 code_eq
    exact ⟨rfl, tail⟩
  case assign.assign name e name' e' =>
    obtain ⟨line_eq, tail⟩ := List.cons.inj same
    have word : IsWord name.toList := (lexical ⟨.ident, name⟩ (by simp [tokens])).ident rfl
    have word' : IsWord name'.toList := (lexical' ⟨.ident, name'⟩ (by simp [tokens])).ident rfl
    have name_eq := congrArg lead line_eq
    rw [lead_assignment word, lead_assignment word', String.toList_inj] at name_eq
    subst name_eq
    have code_eq : e.code = e'.code := by simpa using line_eq
    obtain rfl := Expression.code_injective (fun u mem => lexical u (by simp [tokens, mem]))
      (fun u mem => lexical' u (by simp [tokens, mem])) code_eq
    exact ⟨rfl, tail⟩

end

/-! ## Trees -/

namespace Tree
variable {as bs : List String}

theorem Readable.of_subset {t u : Tree} (h : t.Readable) (tokens : u.tokens ⊆ t.tokens)
    (assigned : u.assigned ⊆ t.assigned) : u.Readable :=
  ⟨fun v mem => h.lexical v (tokens mem), fun name mem => h.assigned_free name (assigned mem)⟩

theorem Readable.of_simple {s : Statement} {next : Tree} (h : (simple s next).Readable) :
    next.Readable :=
  h.of_subset (fun u mem => by simp [tokens, mem]) fun name mem => by
    cases s <;> simp [assigned, mem]

theorem Readable.of_branch {c : Comparison} {body next : Tree} (h : (branch c body next).Readable) :
    (∀ u ∈ c.tokens, u.Lexical) ∧ body.Readable ∧ next.Readable :=
  ⟨fun u mem => h.lexical u (by simp [tokens, mem]),
    h.of_subset (fun u mem => by simp [tokens, mem]) (by simp [assigned]),
    h.of_subset (fun u mem => by simp [tokens, mem]) (by simp [assigned])⟩

theorem Readable.of_loop {c : Comparison} {body next : Tree} (h : (loop c body next).Readable) :
    (∀ u ∈ c.tokens, u.Lexical) ∧ body.Readable ∧ next.Readable :=
  ⟨fun u mem => h.lexical u (by simp [tokens, mem]),
    h.of_subset (fun u mem => by simp [tokens, mem]) (by simp [assigned]),
    h.of_subset (fun u mem => by simp [tokens, mem]) (by simp [assigned])⟩

theorem headForm_lines {t : Tree} (h : t.Readable) (ends : headForm as = .none) :
    headForm (t.lines ++ as) = t.form := by
  cases t with
  | nil => exact ends
  | simple s next =>
    rw [lines, List.append_assoc]
    exact Statement.headForm_lines h _
  | branch c => exact formOf_branch c.code
  | loop c => exact formOf_loop c.code

/-- What a statement with a block comes to. -/
theorem block_lines_append_inj {keyword : String} {c c' : Comparison} {body body' next next' : Tree}
    (lexical : ∀ u ∈ c.tokens, u.Lexical) (lexical' : ∀ u ∈ c'.tokens, u.Lexical)
    (body_inj : ∀ {as bs}, headForm as = .none → headForm bs = .none →
      body.lines ++ as = body'.lines ++ bs → body = body' ∧ as = bs)
    (next_inj : next.lines ++ as = next'.lines ++ bs → next = next' ∧ as = bs)
    (same : (keyword ++ c.code ++ ")\x7b") :: (body.lines ++ "\x7d" :: (next.lines ++ as)) =
      (keyword ++ c'.code ++ ")\x7b") :: (body'.lines ++ "\x7d" :: (next'.lines ++ bs))) :
    (c = c' ∧ body = body' ∧ next = next') ∧ as = bs := by
  have closing (ls : List String) : headForm ("\x7d" :: ls) = .none := by
    rw [headForm, List.head?_cons]
    decide
  obtain ⟨line_eq, behind⟩ := List.cons.inj same
  have code_eq : c.code = c'.code := by simpa using line_eq
  obtain rfl := Comparison.code_injective lexical lexical' code_eq
  obtain ⟨rfl, next_eq⟩ := body_inj (closing _) (closing _) behind
  obtain ⟨rfl, tail⟩ := next_inj (List.cons.inj next_eq).2
  exact ⟨⟨rfl, rfl, rfl⟩, tail⟩

theorem form_eq {t u : Tree} (ht : t.Readable) (hu : u.Readable) (ha : headForm as = .none)
    (hb : headForm bs = .none) (same : t.lines ++ as = u.lines ++ bs) : t.form = u.form := by
  rw [← headForm_lines ht ha, same, headForm_lines hu hb]

theorem lines_append_inj {t u : Tree} (ht : t.Readable) (hu : u.Readable)
    (ha : headForm as = .none) (hb : headForm bs = .none) (same : t.lines ++ as = u.lines ++ bs) :
    t = u ∧ as = bs := by
  induction t generalizing u as bs with
  | nil =>
    have form_eq := form_eq ht hu ha hb same
    cases u with
    | nil => exact ⟨rfl, same⟩
    | simple s => exact absurd form_eq.symm s.form_ne.1
    | branch | loop => cases form_eq
  | simple s next ih =>
    have form_eq := form_eq ht hu ha hb same
    cases u with
    | nil => exact absurd form_eq s.form_ne.1
    | branch => exact absurd form_eq s.form_ne.2.1
    | loop => exact absurd form_eq s.form_ne.2.2
    | simple s' next' =>
      simp only [lines, List.append_assoc] at same
      obtain ⟨rfl, behind⟩ := Statement.lines_append_inj ht hu same
      obtain ⟨rfl, tail⟩ := ih ht.of_simple hu.of_simple ha hb behind
      exact ⟨rfl, tail⟩
  | branch c body next ih_body ih =>
    have form_eq := form_eq ht hu ha hb same
    cases u with
    | nil | loop => cases form_eq
    | simple s => exact absurd form_eq.symm s.form_ne.2.1
    | branch c' body' next' =>
      obtain ⟨lexical, body_readable, next_readable⟩ := ht.of_branch
      obtain ⟨lexical', body_readable', next_readable'⟩ := hu.of_branch
      simp only [lines, List.append_assoc, List.cons_append] at same
      obtain ⟨⟨rfl, rfl, rfl⟩, tail⟩ := block_lines_append_inj lexical lexical'
        (ih_body body_readable body_readable') (ih next_readable next_readable' ha hb) same
      exact ⟨rfl, tail⟩
  | loop c body next ih_body ih =>
    have form_eq := form_eq ht hu ha hb same
    cases u with
    | nil | branch => cases form_eq
    | simple s => exact absurd form_eq.symm s.form_ne.2.2
    | loop c' body' next' =>
      obtain ⟨lexical, body_readable, next_readable⟩ := ht.of_loop
      obtain ⟨lexical', body_readable', next_readable'⟩ := hu.of_loop
      simp only [lines, List.append_assoc, List.cons_append] at same
      obtain ⟨⟨rfl, rfl, rfl⟩, tail⟩ := block_lines_append_inj lexical lexical'
        (ih_body body_readable body_readable') (ih next_readable next_readable' ha hb) same
      exact ⟨rfl, tail⟩

theorem linesOf_code_append {t : Tree} (h : t.Readable) (rest : String) :
    linesOf (t.code ++ rest) = t.lines ++ linesOf rest := by
  rw [t.code_eq_unlines]
  have one_line := t.oneLine h.lexical
  generalize t.lines = lines at one_line
  induction lines with
  | nil => rw [unlines_nil, String.empty_append, List.nil_append]
  | cons line lines ih =>
    obtain ⟨first, others⟩ := List.forall_mem_cons.mp one_line
    rw [unlines_cons, String.append_assoc, linesOf_append first, ih others, List.cons_append]

/-- The code of a simple statement is the beginning of nothing but this statement. -/
theorem eq_simple_of_code_append {s : Statement} {u : Tree} {rest rest' : String}
    (h : (simple s nil).Readable) (hu : u.Readable) (ne_nil : u ≠ nil)
    (same : s.code ++ rest = u.code ++ rest') : ∃ next, u = simple s next := by
  have alone : (simple s nil).code = s.code := String.append_empty
  have lines_eq := linesOf_code_append h rest
  rw [alone, same, linesOf_code_append hu, lines, lines, List.append_nil] at lines_eq
  have form_eq := Statement.headForm_lines h (linesOf rest)
  rw [← lines_eq] at form_eq
  cases u with
  | nil => contradiction
  | simple s' next =>
    rw [lines, List.append_assoc] at lines_eq
    obtain ⟨rfl, -⟩ := Statement.lines_append_inj hu h lines_eq
    exact ⟨next, rfl⟩
  | branch c => exact absurd (form_eq.symm.trans (formOf_branch c.code)) s.form_ne.2.1
  | loop c => exact absurd (form_eq.symm.trans (formOf_loop c.code)) s.form_ne.2.2

end Tree

namespace CompilesAs
variable {source code : String} {t : Tree}

theorem readable (h : CompilesAs source t code) : t.Readable :=
  ⟨h.lexical, h.well_named.assigned_free⟩

/-- The lines from the beginning of `main` on. -/
theorem mainLines_code (h : CompilesAs source t code) :
    (linesOf code).dropWhile (· ≠ "int main(void)\x7b") =
      "int main(void)\x7b" :: (t.lines ++ ["return 0;", "\x7d", ""]) := by
  have before : ∀ line ∈ "#include <stdio.h>" :: t.declarationLines,
      decide (line ≠ "int main(void)\x7b") = true := by
    refine List.forall_mem_cons.mpr ⟨by decide, fun line mem => decide_eq_true ?_⟩
    obtain ⟨name, -, rfl⟩ := List.mem_map.mp mem
    intro same
    have := lead_declaration name
    rw [same] at this
    exact absurd this (by decide)
  rw [h.linesOf_code, Tree.programLines, List.append_assoc, List.append_assoc,
    List.dropWhile_append_of_pos before]
  simp

end CompilesAs

/-- Sources with the same code have the same normal form. What is code of a simple statement is code
of nothing else, be it the text of a string that is printed or an input with its test and its zero,
and what is code of an expression is code of no other, whichever of its signs stand in front of an
operand and which between two. -/
theorem code_determines_source :
    (∀ {source₁ source₂ code : String}, compile source₁ = .ok code → compile source₂ = .ok code →
      ∃ ts₁ ts₂, tokensOf source₁ = .ok ts₁ ∧ tokensOf source₂ = .ok ts₂ ∧
        normalForm (ts₁.map (·.value)) = normalForm (ts₂.map (·.value))) ∧
    (∀ {s : Statement} {u : Tree} {rest rest' : String}, (Tree.simple s .nil).Readable →
      u.Readable → u ≠ .nil → s.code ++ rest = u.code ++ rest' → ∃ next, u = .simple s next) ∧
    ∀ {e e' : Expression}, (∀ u ∈ e.tokens, u.Lexical) → (∀ u ∈ e'.tokens, u.Lexical) →
      e.code = e'.code → e = e' := by
  refine ⟨fun h₁ h₂ => ?_, Tree.eq_simple_of_code_append, Expression.code_injective⟩
  obtain ⟨t, t_compiles⟩ := exists_tree h₁
  obtain ⟨u, u_compiles⟩ := exists_tree h₂
  have main_eq := t_compiles.mainLines_code
  rw [u_compiles.mainLines_code] at main_eq
  obtain ⟨rfl, -⟩ := Tree.lines_append_inj u_compiles.readable t_compiles.readable (by decide)
    (by decide) (List.cons.inj main_eq).2
  obtain ⟨ts₁, scanned₁, tokens₁⟩ := t_compiles.spelled
  obtain ⟨ts₂, scanned₂, tokens₂⟩ := u_compiles.spelled
  exact ⟨ts₁, ts₂, scanned₁, scanned₂, tokens₁.symm.trans tokens₂⟩

/-- Blanks, a comment and blank lines leave the code of `1 - -2` as it is. -/
theorem difference_determined :
    let two : Term := ⟨⟨some .minus, .number "2"⟩, []⟩
    let difference : Expression := ⟨⟨⟨none, .number "1"⟩, []⟩, [(.minus, two)]⟩
    (∃ ts₁ ts₂, tokensOf "PRINT 1 - -2" = .ok ts₁ ∧
      tokensOf "\n\tPRINT 1--2 # three\n\n" = .ok ts₂ ∧
      normalForm (ts₁.map (·.value)) = normalForm (ts₂.map (·.value))) ∧
    (∃ next, Tree.simple (.print difference) .nil = .simple (.print difference) next) ∧
    difference = difference := by
  intro two difference
  have accepted : compile "PRINT 1 - -2" =
      .ok (Tree.simple (.print difference) .nil).program := by decide +kernel
  have accepted' : compile "\n\tPRINT 1--2 # three\n\n" =
      .ok (Tree.simple (.print difference) .nil).program := by decide +kernel
  have readable : (Tree.simple (.print difference) .nil).Readable := by
    obtain ⟨t, compiles⟩ := exists_tree accepted
    have spelled : Spells "PRINT 1 - -2" (.simple (.print difference) .nil) :=
      ⟨[⟨⟨1, 1⟩, Keyword.print.token⟩, ⟨⟨1, 7⟩, ⟨.number, "1"⟩⟩, ⟨⟨1, 9⟩, Sign.minus.token⟩,
        ⟨⟨1, 11⟩, Sign.minus.token⟩, ⟨⟨1, 12⟩, ⟨.number, "2"⟩⟩, ⟨⟨1, 13⟩, .newline⟩],
        by decide +kernel, by decide⟩
    exact compiles.spelled.unique spelled ▸ compiles.readable
  have lexical : ∀ u ∈ difference.tokens, u.Lexical := fun u mem =>
    readable.lexical u (by simp [Tree.tokens, Statement.tokens, mem])
  have alone : (Statement.print difference).code ++ "" =
      (Tree.simple (.print difference) .nil).code ++ "" := by decide
  obtain ⟨sources, statements, expressions⟩ := code_determines_source
  exact ⟨sources accepted accepted', statements readable readable (by simp) alone,
    expressions lexical lexical rfl⟩

end MiniBasic
