import MiniBasic.Proofs.Sinks
import MiniBasic.Proofs.TargetTokens

/-!
# Declarations come first

A variable is declared in the header when it is introduced, and only then does the code speak of it.
This holds at every moment of every recognition, however it ends: what has been declared so far is
what the names know (`Declares`), and a piece of code that carries a variable comes after the
declaration. The goals see to it, since a goal that writes down a variable has the goal in front of
it that introduces the variable, unless it is known already (`Backed`).
-/

namespace MiniBasic

/-! ## Pieces of code -/

section
variable {name : String}

theorem shape_self (word : IsWord name.toList) : shape name = [] := by
  have shape_eq := shape_word word ""
  rwa [String.append_empty] at shape_eq

theorem shape_zero (word : IsWord name.toList) : shape (name ++ " = 0;") = [' ', '='] := by
  rw [shape_word word]
  decide

theorem shape_target (word : IsWord name.toList) : shape (name ++ " = ") = [' ', '='] := by
  rw [shape_word word]
  decide

theorem shape_address (name : String) :
    shape ("if(0 == scanf(\"%f\", &" ++ name ++ ")) \x7b") = ['(', '0'] := by
  rw [String.append_assoc, shape_append (by decide)]
  decide

end

namespace Event

/-- The line of the header that declares the variable. -/
def declaration (name : String) : Event := header ("float " ++ name ++ ";")

/-- The pieces of the body that a variable stands in: as an operand, assigned to, read from the
input, and set to zero when there is nothing to read. -/
inductive Carries (name : String) : Event → Prop
  | operand : Carries name (fragment name)
  | target : Carries name (fragment (name ++ " = "))
  | address : Carries name (line ("if(0 == scanf(\"%f\", &" ++ name ++ ")) \x7b"))
  | zero : Carries name (line (name ++ " = 0;"))

/-- The event declares nothing, and it carries known variables only. -/
structure Plain (known : List String) (e : Event) : Prop where
  not_declaration : ∀ name, e ≠ declaration name
  carried : ∀ name, IsWord name.toList → e.Carries name → name ∈ known

section
variable {known : List String} {text name : String}

theorem declaration_injective : Function.Injective declaration := by
  intro name name' h
  simpa [declaration] using h

theorem plain_enter (rule : Rule) : (enter rule).Plain known :=
  ⟨nofun, nofun⟩

theorem plain_fragment (word : IsWord text.toList → text ∈ known)
    (target : ∀ name, IsWord name.toList → text = name ++ " = " → name ∈ known) :
    (fragment text).Plain known := by
  refine ⟨nofun, fun name is_word carries => ?_⟩
  cases carries with
  | operand => exact word is_word
  | target => exact target name is_word rfl

theorem plain_fragment_of_shape (ne_nil : shape text ≠ []) (ne_target : shape text ≠ [' ', '=']) :
    (fragment text).Plain known :=
  plain_fragment (fun word => absurd (shape_self word) ne_nil)
    (fun _ word eq => absurd (eq ▸ shape_target word) ne_target)

theorem plain_line_of_shape (ne_address : shape text ≠ ['(', '0'])
    (ne_zero : shape text ≠ [' ', '=']) : (line text).Plain known := by
  refine ⟨nofun, fun name is_word carries => ?_⟩
  cases carries with
  | address => exact absurd (shape_address name) ne_address
  | zero => exact absurd (shape_zero is_word) ne_zero

theorem plain_include : (header "#include <stdio.h>").Plain known := by
  refine ⟨fun name same => ?_, nofun⟩
  have line_eq : "#include <stdio.h>" = "float " ++ name ++ ";" := by
    simpa [declaration] using same
  have first := congrArg (·.toList.head?) line_eq
  simp at first

theorem plain_number (numeral : IsNumeral text.toList) : (fragment text).Plain known := by
  refine plain_fragment (fun word => ?_) (fun name _ eq => ?_)
  · obtain ⟨c, cs, chars, letter, -⟩ := word
    obtain ⟨d, ds, chars', digit, -⟩ := exists_digit_of_isNumeral numeral
    obtain ⟨rfl, -⟩ := List.cons.inj (chars.symm.trans chars')
    exact absurd letter (by simp [not_isAlpha_of_isDigit digit])
  · refine absurd ?_ (numeral.not_mem (c := ' ') (by decide) (by decide))
    simp [eq]

theorem plain_operand (word : IsWord text.toList) (mem : text ∈ known) :
    (fragment text).Plain known := by
  refine plain_fragment (fun _ => mem) fun name _ eq => ?_
  refine absurd ?_ (word.not_mem (c := ' ') (by decide))
  simp [eq]

/-- Operators have a space in front. -/
theorem plain_operator (text : String) : (fragment (" " ++ text ++ " ")).Plain known := by
  have not_word {cs : List Char} (rest : List Char) (word : IsWord cs) :
      cs ++ rest ≠ ' ' :: text.toList ++ [' '] := by
    obtain ⟨c, cs, rfl, letter, -⟩ := word
    intro same
    obtain ⟨rfl, -⟩ := List.cons.inj same
    exact absurd letter (by decide)
  refine plain_fragment (fun word => ?_) (fun name word eq => ?_)
  · exact absurd (by simp) (not_word [] word)
  · have chars := congrArg String.toList eq
    exact absurd (by simpa using chars.symm) (not_word " = ".toList word)

theorem plain_assigned (mem : name ∈ known) : (fragment (name ++ " = ")).Plain known := by
  refine plain_fragment (fun word => ?_) (fun name' _ eq => ?_)
  · exact absurd (by simp) (word.not_mem (c := ' ') (by decide))
  · obtain rfl : name = name' := by simpa using eq
    exact mem

theorem plain_address (mem : name ∈ known) :
    (line ("if(0 == scanf(\"%f\", &" ++ name ++ ")) \x7b")).Plain known := by
  refine ⟨nofun, fun name' word carries => ?_⟩
  generalize text_eq : "if(0 == scanf(\"%f\", &" ++ name ++ ")) \x7b" = text at carries
  cases carries with
  | address =>
    obtain rfl : name = name' := by simpa using text_eq
    exact mem
  | zero =>
    have shape_eq := shape_zero word
    rw [← text_eq, shape_address] at shape_eq
    exact absurd shape_eq (by decide)

theorem plain_zero (word : IsWord name.toList) (mem : name ∈ known) :
    (line (name ++ " = 0;")).Plain known := by
  refine ⟨nofun, fun name' _ carries => ?_⟩
  generalize text_eq : name ++ " = 0;" = text at carries
  cases carries with
  | zero =>
    obtain rfl : name = name' := by simpa using text_eq
    exact mem
  | address =>
    have shape_eq := shape_zero word
    rw [text_eq, shape_address] at shape_eq
    exact absurd shape_eq (by decide)

theorem plain_label (word : IsWord name.toList) : (line (name ++ ":")).Plain known := by
  have shape_eq := shape_label word
  exact plain_line_of_shape (by simp [shape_eq]) (by simp [shape_eq])

theorem plain_goto (word : IsWord name.toList) : (line ("goto " ++ name ++ ";")).Plain known := by
  obtain ⟨c, letter, shape_eq⟩ := shape_keyword "goto " (by decide) word ";"
  refine plain_line_of_shape (by simp [shape_eq]) ?_
  rw [shape_eq]
  rintro same
  obtain rfl : c = '=' := by simpa using same
  exact absurd letter (by decide)

theorem plain_printText (text : String) :
    (line ("printf(\"" ++ text ++ "\\n\");")).Plain known := by
  have shape_eq : shape ("printf(\"" ++ text ++ "\\n\");") = ['(', '"'] := by
    rw [String.append_assoc, shape_append (by decide)]
    decide
  exact plain_line_of_shape (by simp [shape_eq]) (by simp [shape_eq])

end

end Event

/-! ## Scanned tokens -/

/-- The token is one that a scanner can read, or the end of the input. -/
structure Token.Scanned (t : Token) : Prop where
  lexical : t.Lexical
  text_eq : ∀ text, t.kind.spelling? = some text → t.text = text

theorem Token.Scanned.text_of_kind {t : Token} (h : t.Scanned) {k : Kind} {text : String}
    (kind : t.kind = k) (spelling : k.spelling? = some text) : t.text = text :=
  h.text_eq text (kind ▸ spelling)

theorem Token.Scanned.eof : Token.Scanned ⟨.eof, ""⟩ :=
  ⟨.of_kind (by decide) (by decide) (by decide), fun _ spelling => by cases spelling⟩

theorem Scanner.scanned_of_next {s s' : Scanner} {t : Located Token} (h : s.next = (.ok t, s')) :
    t.value.Scanned := by
  unfold next at h
  revert h
  fun_cases read s.skipGap with
  | case1 =>
    intro eq
    cases eq
    exact .eof
  | case2 token length token_eq =>
    intro eq
    cases eq
    exact ⟨(written_lexeme token_eq).1, (lexeme_token_spelled token_eq).text_eq⟩
  | case3 =>
    intro eq
    cases eq

structure Window.Scanned (w : Window) : Prop where
  current : w.current.value.Scanned
  ahead : w.ahead.value.Scanned

namespace Window
variable {w w' : Window}

theorem scanned_ofSource {source : String} (h : ofSource source = .ok w) : w.Scanned := by
  revert h
  fun_cases ofSource source with
  | case1 | case2 =>
    intro eq
    cases eq
  | case3 current scanner first ahead scanner' second =>
    intro eq
    cases eq
    exact ⟨Scanner.scanned_of_next first, Scanner.scanned_of_next second⟩

theorem Scanned.advance (scanned : w.Scanned) (h : w.advance = .ok w') : w'.Scanned := by
  revert h
  fun_cases Window.advance w with
  | case1 =>
    intro eq
    cases eq
  | case2 t scanner read =>
    intro eq
    cases eq
    exact ⟨scanned.ahead, Scanner.scanned_of_next read⟩

end Window

/-! ## Goals -/

/-- Whatever variable a goal writes down is known, or introduced by a goal in front of it. -/
def Backed : List String → List Goal → Prop
  | _, [] => True
  | known, .introduce x :: goals => Backed (x.value :: known) goals
  | known, .event e :: goals => e.Plain known ∧ Backed known goals
  | known, .placeLabel x :: goals | known, .jumpTo x :: goals =>
    IsWord x.value.toList ∧ Backed known goals
  | known, _ :: goals => Backed known goals

theorem Event.Plain.mono {known known' : List String} {e : Event} (h : e.Plain known)
    (sub : known ⊆ known') : e.Plain known' :=
  ⟨h.not_declaration, fun name word carries => sub (h.carried name word carries)⟩

namespace Backed
variable {known known' : List String} {goals goals' : List Goal}

theorem mono (h : Backed known goals) (sub : known ⊆ known') : Backed known' goals := by
  induction goals generalizing known known' with
  | nil => trivial
  | cons goal goals ih =>
    cases goal with
    | introduce x =>
      have behind : Backed (x.value :: known) goals := h
      exact ih behind (List.cons_subset_cons x.value sub)
    | event e => exact ⟨h.1.mono sub, ih h.2 sub⟩
    | placeLabel x | jumpTo x => exact ⟨h.1, ih h.2 sub⟩
    | _ =>
      have behind : Backed known goals := h
      exact ih behind sub

theorem append (h : Backed known goals) (h' : Backed known goals') :
    Backed known (goals ++ goals') := by
  induction goals generalizing known with
  | nil => exact h'
  | cons goal goals ih =>
    cases goal with
    | introduce x =>
      have behind : Backed (x.value :: known) goals := h
      exact ih behind (h'.mono (List.subset_cons_self x.value known))
    | event e => exact ⟨h.1, ih h.2 h'⟩
    | placeLabel x | jumpTo x => exact ⟨h.1, ih h.2 h'⟩
    | _ =>
      have behind : Backed known goals := h
      exact ih behind h'

theorem ofKeyword {k : Keyword} {parts : List Goal} (h : Goal.ofKeyword? k = some parts) :
    Backed known parts := by
  cases k with
  | print | label | goto | let_ | input =>
    cases h
    trivial
  | if_ | while_ =>
    cases h
    exact ⟨Event.plain_fragment_of_shape (by decide) (by decide),
      Event.plain_line_of_shape (by decide) (by decide),
      Event.plain_line_of_shape (by decide) (by decide), trivial⟩
  | then_ | endIf | repeat_ | endWhile => cases h

theorem ofName (use : NameUse) {x : Located String} (word : IsWord x.value.toList) :
    Backed known (Goal.ofName use x) := by
  have mem : x.value ∈ x.value :: known := List.mem_cons_self
  cases use with
  | label | target => exact ⟨word, trivial⟩
  | assigned =>
    exact ⟨Event.plain_assigned mem, Event.plain_line_of_shape (by decide) (by decide), trivial⟩
  | input =>
    exact ⟨Event.plain_address mem, Event.plain_zero word mem,
      Event.plain_line_of_shape (by decide) (by decide),
      Event.plain_line_of_shape (by decide) (by decide), trivial⟩

theorem program : Backed known Goal.program :=
  ⟨Event.plain_enter _, Event.plain_include, Event.plain_line_of_shape (by decide) (by decide),
    Event.plain_line_of_shape (by decide) (by decide),
    Event.plain_line_of_shape (by decide) (by decide), trivial⟩

end Backed

/-! ## Meetings -/

theorem Names.mem_of_requireVariable {names : Names} {x : Located String}
    (h : names.requireVariable x = .ok ()) : x.value ∈ names.vars := by
  unfold requireVariable at h
  split at h
  next known => simpa [hasVariable] using known
  next => cases h

namespace Meeting

/-- Nothing is declared, and what is written down is known. -/
def Quiet (names : Names) : Meeting → Prop
  | pass events names' => names'.vars = names.vars ∧ ∀ e ∈ events, e.Plain names.vars
  | take events parts => (∀ e ∈ events, e.Plain names.vars) ∧ Backed names.vars parts
  | fail events _ => ∀ e ∈ events, e.Plain names.vars

variable {t : Located Token} {names : Names} {rest : List Goal} {m : Meeting}

theorem Quiet.after {e : Event} (h : m.Quiet names) (plain : e.Plain names.vars) :
    (m.after e).Quiet names := by
  cases m with
  | pass events names' => exact ⟨h.1, List.forall_mem_cons.mpr ⟨plain, h.2⟩⟩
  | take events parts => exact ⟨List.forall_mem_cons.mpr ⟨plain, h.1⟩, h.2⟩
  | fail events d => exact List.forall_mem_cons.mpr ⟨plain, h⟩

theorem quiet_refuse {events : List Event} (plain : ∀ e ∈ events, e.Plain names.vars)
    (e : GrammarError) : (refuse events t e).Quiet names :=
  plain

theorem quiet_ite {p : Prop} [Decidable p] {m m' : Meeting} (h : m.Quiet names)
    (h' : m'.Quiet names) : (if p then m else m').Quiet names := by
  split <;> assumption

theorem quiet_statement (backed : Backed names.vars rest) : (statement t rest).Quiet names := by
  unfold statement
  split
  next k kind =>
    split
    next parts parts_eq =>
      exact ⟨List.forall_mem_singleton.mpr (Event.plain_enter _),
        (Backed.ofKeyword parts_eq).append backed⟩
    next => exact List.forall_mem_nil _
  next => exact List.forall_mem_nil _

theorem quiet_primary (scanned : t.value.Scanned) (backed : Backed names.vars rest) :
    (primary t names rest).Quiet names := by
  have rule : (Event.enter (.primary t.text)).Plain names.vars := Event.plain_enter _
  have operand (plain : (Event.fragment t.text).Plain names.vars) :
      (take [.enter (.primary t.text), .fragment t.text] rest).Quiet names :=
    ⟨List.forall_mem_cons.mpr ⟨rule, List.forall_mem_singleton.mpr plain⟩, backed⟩
  unfold primary
  split
  next number => exact operand (Event.plain_number (scanned.lexical.number number))
  next ident =>
    split
    next known =>
      exact operand (Event.plain_operand (scanned.lexical.ident ident)
        (Names.mem_of_requireVariable known))
    next => exact List.forall_mem_singleton.mpr rule
  next => exact List.forall_mem_singleton.mpr rule

theorem quiet_unary (scanned : t.value.Scanned) (backed : Backed names.vars rest) :
    (unary t names rest).Quiet names := by
  have sign {text : String} (same : t.text = text)
      (plain : (Event.fragment text).Plain names.vars) :
      (take [.enter (.unary (some t.text)), .fragment t.text] (.primary :: rest)).Quiet names :=
    ⟨List.forall_mem_cons.mpr ⟨Event.plain_enter _, List.forall_mem_singleton.mpr (same ▸ plain)⟩,
      backed⟩
  unfold unary
  split
  next plus =>
    exact sign (scanned.text_of_kind plus rfl)
      (Event.plain_fragment_of_shape (by decide) (by decide))
  next minus =>
    exact sign (scanned.text_of_kind minus rfl)
      (Event.plain_fragment_of_shape (by decide) (by decide))
  next => exact (quiet_primary scanned backed).after (Event.plain_enter _)

theorem quiet_term (scanned : t.value.Scanned) (backed : Backed names.vars rest) :
    (term t names rest).Quiet names := by
  have behind : Backed names.vars (.factors :: rest) := backed
  exact (quiet_unary scanned behind).after (Event.plain_enter _)

theorem quiet_expression (scanned : t.value.Scanned) (backed : Backed names.vars rest) :
    (expression t names rest).Quiet names := by
  have behind : Backed names.vars (.sums :: rest) := backed
  exact (quiet_term scanned behind).after (Event.plain_enter _)

theorem quiet_operator {operand : List Goal} (backed : Backed names.vars operand) :
    (operator t operand).Quiet names :=
  ⟨List.forall_mem_singleton.mpr (Event.plain_operator t.text), backed⟩

end Meeting

/-- Every goal is met quietly but one that introduces a variable. -/
theorem Goal.quiet_meet {t : Located Token} {names : Names} {goal : Goal}
    (scanned : t.value.Scanned) (not_introduce : ∀ x, goal ≠ .introduce x)
    (backed : Backed names.vars [goal]) : (goal.meet t names).Quiet names := by
  have nothing : ∀ e ∈ ([] : List Event), e.Plain names.vars := List.forall_mem_nil _
  cases goal with
  | introduce x => exact absurd rfl (not_introduce x)
  | event e => exact ⟨rfl, List.forall_mem_singleton.mpr backed.1⟩
  | placeLabel x =>
    simp only [meet]
    split
    next => exact nothing
    next names' placed =>
      obtain ⟨-, -, rfl⟩ := Names.placeLabel_ok placed
      exact ⟨rfl, List.forall_mem_singleton.mpr (Event.plain_label backed.1)⟩
  | jumpTo x =>
    exact ⟨Names.vars_jumpTo, List.forall_mem_singleton.mpr (Event.plain_goto backed.1)⟩
  | checkJumps =>
    simp only [meet]
    split
    next => exact nothing
    next => exact ⟨rfl, nothing⟩
  | keyword | assign =>
    refine Meeting.quiet_ite ⟨nothing, trivial⟩ (Meeting.quiet_refuse nothing _)
  | name use =>
    simp only [meet]
    split
    next ident => exact ⟨nothing, .ofName use (scanned.lexical.ident ident)⟩
    next => exact nothing
  | lineEnd =>
    have rule : (Event.enter .newline).Plain names.vars := Event.plain_enter _
    exact Meeting.quiet_ite ⟨List.forall_mem_singleton.mpr rule, trivial⟩
      (Meeting.quiet_refuse (List.forall_mem_singleton.mpr rule) _)
  | newlines => exact Meeting.quiet_ite ⟨nothing, trivial⟩ ⟨rfl, nothing⟩
  | statements => exact Meeting.quiet_ite ⟨rfl, nothing⟩ (Meeting.quiet_statement trivial)
  | block closing =>
    exact Meeting.quiet_ite (Meeting.quiet_refuse nothing _) (Meeting.quiet_statement trivial)
  | blockRest closing =>
    exact Meeting.quiet_ite ⟨nothing, trivial⟩ (Meeting.quiet_statement trivial)
  | printed =>
    refine Meeting.quiet_ite
      ⟨List.forall_mem_singleton.mpr (Event.plain_printText t.text), trivial⟩ ?_
    have closing : Backed names.vars [.line "));"] :=
      ⟨Event.plain_line_of_shape (by decide) (by decide), trivial⟩
    exact (Meeting.quiet_expression scanned closing).after
      (Event.plain_fragment_of_shape (by decide) (by decide))
  | comparison =>
    have relation : Backed names.vars [.relation] := trivial
    exact (Meeting.quiet_expression scanned relation).after (Event.plain_enter _)
  | relation =>
    exact Meeting.quiet_ite (Meeting.quiet_operator trivial) (Meeting.quiet_refuse nothing _)
  | relations | sums | factors =>
    exact Meeting.quiet_ite (Meeting.quiet_operator trivial) ⟨rfl, nothing⟩
  | expression => exact Meeting.quiet_expression scanned trivial
  | term => exact Meeting.quiet_term scanned trivial
  | unary => exact Meeting.quiet_unary scanned trivial
  | primary => exact Meeting.quiet_primary scanned trivial

/-! ## Moments -/

/-- The variables that are known are those that the events declare, each once. -/
structure Declares (past : List Event) (names : Names) : Prop where
  once : ∀ name, past.count (Event.declaration name) ≤ 1
  vars : ∀ name, name ∈ names.vars ↔ Event.declaration name ∈ past

namespace Declares
variable {past : List Event} {names names' : Names} {e : Event}

theorem nil : Declares [] .empty :=
  ⟨fun _ => Nat.zero_le 1, fun _ => by simp [Names.empty]⟩

theorem congr (h : Declares past names) (same : ∀ name, name ∈ names'.vars ↔ name ∈ names.vars) :
    Declares past names' :=
  ⟨h.once, fun name => (same name).trans (h.vars name)⟩

theorem plain (h : Declares past names) (plain : e.Plain names.vars) :
    Declares (past ++ [e]) names := by
  constructor
  · intro name
    rw [List.count_append, List.count_singleton]
    simpa [plain.not_declaration name] using h.once name
  · intro name
    simpa [(plain.not_declaration name).symm] using h.vars name

theorem introduce {name : String} (h : Declares past names) (new : name ∉ names.vars)
    (vars : ∀ y, y ∈ names'.vars ↔ y ∈ names.vars ∨ y = name) :
    Declares (past ++ [.declaration name]) names' := by
  constructor
  · intro y
    rw [List.count_append, List.count_singleton]
    by_cases same : y = name
    · subst same
      rw [List.count_eq_zero_of_not_mem fun mem => new ((h.vars y).mpr mem)]
      simp
    · simpa [Event.declaration_injective.eq_iff, Ne.symm same] using h.once y
  · intro y
    simp [vars, h.vars, Event.declaration_injective.eq_iff]

end Declares

namespace Observer

/-- Keeps the events, each with the names that are known right after it. -/
def timeline : Observer (List (Event × Names)) := fun past e names => past ++ [(e, names)]

end Observer

/-- The events of a recognition, each with the names that are known right after it. -/
def timeline (source : String) : List (Event × Names) :=
  (Observer.timeline.ofSource source []).state

/-- At every moment of the past, what had been declared was what was known, and what was carried had
been declared. -/
def Orderly (past : List (Event × Names)) : Prop :=
  ∀ before e names after, past = before ++ (e, names) :: after →
    Declares (before.map (·.1) ++ [e]) names ∧
      ∀ name, IsWord name.toList → e.Carries name → .declaration name ∈ before.map (·.1)

/-- The names that are known account for the past. -/
structure Accounted (past : List (Event × Names)) (names : Names) : Prop where
  orderly : Orderly past
  declares : Declares (past.map (·.1)) names

namespace Accounted
variable {past : List (Event × Names)} {names names' : Names} {e : Event} {events : List Event}

theorem nil : Accounted [] .empty :=
  ⟨fun before _ _ _ eq => absurd eq.symm (by simp), .nil⟩

theorem congr (h : Accounted past names) (same : ∀ name, name ∈ names'.vars ↔ name ∈ names.vars) :
    Accounted past names' :=
  ⟨h.orderly, h.declares.congr same⟩

theorem append_singleton (h : Accounted past names)
    (declares : Declares (past.map (·.1) ++ [e]) names')
    (carried : ∀ name, IsWord name.toList → e.Carries name → name ∈ names.vars) :
    Accounted (past ++ [(e, names')]) names' := by
  refine ⟨fun before e' names'' after eq => ?_, by simpa using declares⟩
  rcases List.eq_nil_or_concat after with rfl | ⟨after, last, rfl⟩
  · obtain ⟨rfl, same⟩ := List.append_inj' eq rfl
    cases same
    exact ⟨declares, fun name word carries =>
      (h.declares.vars name).mp (carried name word carries)⟩
  · rw [List.concat_eq_append, ← List.cons_append, ← List.append_assoc] at eq
    obtain ⟨rfl, -⟩ := List.append_inj' eq rfl
    exact h.orderly before e' names'' after rfl

theorem tell (h : Accounted past names) (plain : ∀ e ∈ events, e.Plain names.vars) :
    Accounted (Observer.timeline.tell names events past) names := by
  induction events generalizing past with
  | nil => exact h
  | cons e events ih =>
    obtain ⟨first, others⟩ := List.forall_mem_cons.mp plain
    exact ih (h.append_singleton (h.declares.plain first) first.carried) others

/-- Meeting a goal that introduces a variable. -/
theorem introduce {x : Located String} {new : Bool} (h : Accounted past names)
    (ok : names.introduce x = .ok (new, names')) :
    Accounted (Observer.timeline.tell names' (if new then [.declaration x.value] else []) past)
      names' := by
  obtain ⟨-, new_iff, vars, -⟩ := Names.introduce_ok ok
  cases new with
  | false =>
    have known : x.value ∈ names.vars := by simpa using new_iff
    refine h.congr fun name => (vars name).trans ?_
    simp only [or_iff_left_iff_imp]
    rintro rfl
    exact known
  | true => exact h.append_singleton (h.declares.introduce (new_iff.mp rfl) vars) nofun

end Accounted

theorem Backed.uncons {known : List String} {goal : Goal} {goals : List Goal}
    (not_introduce : ∀ x, goal ≠ .introduce x) (h : Backed known (goal :: goals)) :
    Backed known [goal] ∧ Backed known goals := by
  cases goal with
  | introduce x => exact absurd rfl (not_introduce x)
  | event e => exact ⟨⟨h.1, trivial⟩, h.2⟩
  | placeLabel x | jumpTo x => exact ⟨⟨h.1, trivial⟩, h.2⟩
  | _ => exact ⟨trivial, h⟩

/-- What one token preserves. -/
theorem Accounted.step {t : Located Token} {goals : List Goal} {names : Names}
    {past : List (Event × Names)} (scanned : t.value.Scanned) (h : Accounted past names)
    (backed : Backed names.vars goals) :
    let s := Observer.timeline.step t goals names past
    Accounted s.state s.names ∧
      ∀ goals', s.ending = .consumed goals' → Backed s.names.vars goals' := by
  induction goals generalizing names past with
  | nil => exact ⟨h, fun _ consumed => by cases consumed⟩
  | cons goal goals ih =>
    rw [Observer.step]
    -- Only a goal that introduces a variable changes what is known, and `goals` count on it.
    by_cases introduces : ∃ x, goal = .introduce x
    · obtain ⟨x, rfl⟩ := introduces
      cases ok : names.introduce x with
      | error e =>
        simp only [Goal.meet, ok]
        exact ⟨h, fun _ consumed => by cases consumed⟩
      | ok introduced =>
        obtain ⟨new, names'⟩ := introduced
        have next := h.introduce ok
        have known : x.value :: names.vars ⊆ names'.vars := by
          obtain ⟨-, -, vars, -⟩ := Names.introduce_ok ok
          intro name mem
          exact (vars name).mpr ((List.mem_cons.mp mem).symm)
        have behind : Backed names'.vars goals := Backed.mono backed known
        cases new <;> simp only [Goal.meet, ok] <;> exact ih next behind
    · have not_introduce := not_exists.mp introduces
      obtain ⟨first, others⟩ := backed.uncons not_introduce
      have quiet := Goal.quiet_meet scanned not_introduce first
      cases meet : goal.meet t names with
      | pass events names' =>
        rw [meet] at quiet
        obtain ⟨same, plain⟩ := quiet
        have next := h.congr fun name => iff_of_eq (congrArg (name ∈ ·) same)
        exact ih (next.tell (same ▸ plain)) (same ▸ others)
      | take events parts =>
        rw [meet] at quiet
        refine ⟨h.tell quiet.1, fun goals' consumed => ?_⟩
        cases consumed
        exact quiet.2.append others
      | fail events e =>
        rw [meet] at quiet
        exact ⟨h.tell quiet, fun _ consumed => by cases consumed⟩

/-! ## Whole recognitions -/

theorem Accounted.run {w : Window} {goals : List Goal} {names : Names}
    {past : List (Event × Names)} (scanned : w.Scanned) (h : Accounted past names)
    (backed : Backed names.vars goals) :
    let r := Observer.timeline.run w goals names past
    Accounted r.state r.names := by
  induction size : w.size using Nat.strong_induction_on generalizing w goals names past with
  | _ n ih =>
  obtain ⟨accounted, behind⟩ := h.step scanned.current backed
  rw [Observer.run_eq]
  dsimp only
  cases ending : (Observer.timeline.step w.current goals names past).ending with
  | failed e | finished => exact accounted
  | consumed goals' =>
    cases advance : w.advance with
    | error e => exact accounted
    | ok w' =>
      have taken := ending
      rw [Observer.ending_step] at taken
      have lt := Window.size_advance advance (Step.ne_eof_of_consumed taken)
      exact ih w'.size (size ▸ lt) (scanned.advance advance) accounted (behind goals' ending) rfl

/-- The events of the timeline are those that are recognized. -/
theorem timeline_eq (source : String) :
    let o := Observer.timeline.ofSource source []
    (timeline source).map (·.1) = (Recognition.ofSource source).events ∧
      o.names = (Recognition.ofSource source).names := by
  have kept {past : List (Event × Names)} {events : List Event} (e : Event) (names : Names)
      (h : past.map (·.1) = events) :
      (Observer.timeline past e names).map (·.1) = Observer.history events e names := by
    simp [Observer.timeline, Observer.history, h]
  obtain ⟨state, names, -⟩ := Observer.ofSource_rel
    (R := fun (past : List (Event × Names)) (events : List Event) => past.map (·.1) = events)
    (a := []) (b := []) kept source rfl
  rw [Observer.ofSource_history] at state names
  exact ⟨state, names⟩

theorem accounted_timeline (source : String) :
    Accounted (timeline source) (Recognition.ofSource source).names := by
  rw [← (timeline_eq source).2, timeline, Observer.ofSource]
  cases window : Window.ofSource source with
  | error e => exact .nil
  | ok w => exact Accounted.nil.run (Window.scanned_ofSource window) .program

/-- Whether a source is accepted or refused, at every moment of its recognition the variables that
are known are those that the header declares so far, each in one line, and every variable that has
been written into the body so far had been declared before. -/
theorem declared_once_before_use (source : String) :
    (timeline source).map (·.1) = (Recognition.ofSource source).events ∧
    (∀ before e names after, timeline source = before ++ (e, names) :: after →
      Declares (before.map (·.1) ++ [e]) names ∧
        ∀ name, IsWord name.toList → e.Carries name →
          Event.declaration name ∈ before.map (·.1)) ∧
    Declares (Recognition.ofSource source).events (Recognition.ofSource source).names := by
  obtain ⟨orderly, declares⟩ := accounted_timeline source
  rw [(timeline_eq source).1] at declares
  exact ⟨(timeline_eq source).1, orderly, declares⟩

/-- In a program that is refused in its second line, the operand of its first is declared. -/
theorem operand_declared :
    compile "LET x = x\nPRINT 2 2" =
        .error (.grammar ⟨⟨2, 9⟩, .unexpectedToken .newline .number⟩) ∧
      (timeline "LET x = x\nPRINT 2 2")[10]? = some (.fragment "x", ⟨["x"], [], []⟩) ∧
      Event.declaration "x" ∈ ((timeline "LET x = x\nPRINT 2 2").take 10).map (·.1) := by
  obtain ⟨-, orderly, -⟩ := declared_once_before_use "LET x = x\nPRINT 2 2"
  have word : IsWord "x".toList := ⟨'x', [], rfl, by decide, List.forall_mem_nil _⟩
  have carrying :
      (timeline "LET x = x\nPRINT 2 2")[10]? = some (.fragment "x", ⟨["x"], [], []⟩) := by
    decide +kernel
  refine ⟨by decide +kernel, carrying, ?_⟩
  generalize timeline "LET x = x\nPRINT 2 2" = past at orderly carrying ⊢
  obtain ⟨lt, here⟩ := List.getElem?_eq_some_iff.mp carrying
  have split : past = past.take 10 ++ past[10] :: past.drop 11 := by
    rw [List.getElem_cons_drop, List.take_append_drop]
  rw [here] at split
  exact (orderly _ _ _ _ split).2 "x" word .operand

end MiniBasic
