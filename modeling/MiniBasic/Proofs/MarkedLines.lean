import MiniBasic.Proofs.Accuracy

/-!
# Lines that place labels and lines that jump

A label and a jump are a line of the body each, and no other line looks like one of these: it has a
character in it that they lack, or it ends and begins otherwise. So of all goals only those that
look at a label write such a line, and the others leave no such line to write (`step_unmarked`).
-/

namespace MiniBasic

namespace Event

/-- The line that places the label. -/
def label (name : String) : Event := line (name ++ ":")

/-- The line that jumps to the label. -/
def jump (name : String) : Event := line ("goto " ++ name ++ ";")

/-- The event neither places a label nor jumps to one. -/
def Unmarked (e : Event) : Prop := ∀ name, IsWord name.toList → e ≠ label name ∧ e ≠ jump name

section
variable {name name' text : String}

theorem label_injective : Function.Injective label := by
  intro name name' same
  simpa [label] using same

theorem jump_injective : Function.Injective jump := by
  intro name name' same
  simpa [jump] using same

theorem label_ne_jump (name name' : String) : label name ≠ jump name' := by
  intro same
  have text_eq : name ++ ":" = "goto " ++ name' ++ ";" := by simpa [label, jump] using same
  have last := congrArg (·.toList.reverse.head?) text_eq
  simp at last

theorem unmarked_enter (rule : Rule) : (enter rule).Unmarked := fun _ _ => ⟨nofun, nofun⟩

theorem unmarked_fragment (text : String) : (fragment text).Unmarked := fun _ _ => ⟨nofun, nofun⟩

theorem unmarked_header (text : String) : (header text).Unmarked := fun _ _ => ⟨nofun, nofun⟩

/-- A line with a character that is none of a name, a space, a colon and a semicolon. -/
theorem unmarked_line {c : Char} (mem : c ∈ text.toList) (not_own : c.isAlphanum = false)
    (other : c ∉ [' ', ':', ';']) : (line text).Unmarked := by
  intro name word
  have not_mem := word.not_mem not_own
  simp only [List.mem_cons, List.not_mem_nil, or_false, not_or] at other
  constructor
  · intro same
    obtain rfl : text = name ++ ":" := by simpa [label] using same
    simp [not_mem, other] at mem
  · intro same
    obtain rfl : text = "goto " ++ name ++ ";" := by simpa [jump] using same
    simp [not_mem, other] at mem
    rcases mem with rfl | rfl | rfl | rfl <;> cases not_own

/-- A line that ends with a semicolon and does not begin as a jump does. -/
theorem unmarked_of_head (last : text.toList.getLast? = some ';')
    (first : text.toList.head? ≠ some 'g') : (line text).Unmarked := by
  intro name _
  constructor
  · intro same
    obtain rfl : text = name ++ ":" := by simpa [label] using same
    simp at last
  · intro same
    obtain rfl : text = "goto " ++ name ++ ";" := by simpa [jump] using same
    simp at first

theorem unmarked_brace : (line "\x7d").Unmarked :=
  unmarked_line (c := '\x7d') (by decide) rfl (by decide)

end

end Event

/-! ## Goals -/

/-- What the goal announces is unmarked, and it looks at no label. -/
def Goal.Unmarked : Goal → Prop
  | event e => e.Unmarked
  | placeLabel _ | jumpTo _ => False
  | _ => True

namespace Goal

theorem unmarked_ofKeyword {k : Keyword} {parts : List Goal} (h : ofKeyword? k = some parts) :
    ∀ g ∈ parts, g.Unmarked := by
  have opening : (Event.line ")\x7b").Unmarked :=
    Event.unmarked_line (c := ')') (by decide) rfl (by decide)
  cases k <;> cases h <;>
    simp [Unmarked, line, Goal.fragment, opening, Event.unmarked_brace, Event.unmarked_fragment]

/-- Behind the goal that looks at a name no other one does. -/
theorem unmarked_ofName (use : NameUse) (x : Located String) :
    ∀ g ∈ (ofName use x).tail, g.Unmarked := by
  have semicolon : (Event.line ";").Unmarked := Event.unmarked_of_head rfl (by decide)
  have address : (Event.line ("if(0 == scanf(\"%f\", &" ++ x.value ++ ")) \x7b")).Unmarked :=
    Event.unmarked_line (c := '(') (by simp) rfl (by decide)
  have zero : (Event.line (x.value ++ " = 0;")).Unmarked :=
    Event.unmarked_line (c := '=') (by simp) rfl (by decide)
  have skip : (Event.line "scanf(\"%*s\");").Unmarked :=
    Event.unmarked_line (c := '(') (by decide) rfl (by decide)
  cases use <;> simp [ofName, Unmarked, line, fragment, Event.unmarked_fragment, semicolon, address,
    zero, skip, Event.unmarked_brace]

theorem unmarked_ending : ∀ g ∈ ending, g.Unmarked := by
  have return_ : (Event.line "return 0;").Unmarked := Event.unmarked_of_head rfl (by decide)
  simp [ending, Unmarked, line, return_, Event.unmarked_brace]

theorem unmarked_program : ∀ g ∈ program.take 4, g.Unmarked := by
  have opening : (Event.line "int main(void)\x7b").Unmarked :=
    Event.unmarked_line (c := '(') (by decide) rfl (by decide)
  simp [program, Unmarked, line, opening, Event.unmarked_enter, Event.unmarked_header]

end Goal

/-! ## Meetings -/

/-- Nothing that is announced is marked, nor will be. -/
def Meeting.Unmarked : Meeting → Prop
  | pass events _ | fail events _ => ∀ e ∈ events, e.Unmarked
  | take events parts => (∀ e ∈ events, e.Unmarked) ∧ ∀ g ∈ parts, g.Unmarked

namespace Meeting
variable {t : Located Token} {names : Names} {rest : List Goal} {m : Meeting}

theorem Unmarked.after {e : Event} (h : m.Unmarked) (unmarked : e.Unmarked) :
    (m.after e).Unmarked := by
  cases m with
  | pass | fail => exact List.forall_mem_cons.mpr ⟨unmarked, h⟩
  | take => exact ⟨List.forall_mem_cons.mpr ⟨unmarked, h.1⟩, h.2⟩

theorem unmarked_statement (unmarked : ∀ g ∈ rest, g.Unmarked) : (statement t rest).Unmarked := by
  unfold statement
  split
  next =>
    split
    next parts_eq =>
      refine ⟨List.forall_mem_singleton.mpr (Event.unmarked_enter _), ?_⟩
      exact List.forall_mem_append.mpr ⟨Goal.unmarked_ofKeyword parts_eq, unmarked⟩
    next => exact List.forall_mem_nil _
  next => exact List.forall_mem_nil _

theorem unmarked_primary (unmarked : ∀ g ∈ rest, g.Unmarked) :
    (primary t names rest).Unmarked := by
  have rule := Event.unmarked_enter (.primary t.text)
  have written := Event.unmarked_fragment t.text
  unfold primary
  split
  next => exact ⟨by simp [rule, written], unmarked⟩
  next =>
    split
    next => exact ⟨by simp [rule, written], unmarked⟩
    next => exact List.forall_mem_singleton.mpr rule
  next => exact List.forall_mem_singleton.mpr rule

theorem unmarked_unary (unmarked : ∀ g ∈ rest, g.Unmarked) : (unary t names rest).Unmarked := by
  have sign : (take [.enter (.unary (some t.text)), .fragment t.text]
      (.primary :: rest)).Unmarked :=
    ⟨by simp [Event.unmarked_enter, Event.unmarked_fragment],
      List.forall_mem_cons.mpr ⟨trivial, unmarked⟩⟩
  unfold unary
  split
  next => exact sign
  next => exact sign
  next => exact (unmarked_primary unmarked).after (Event.unmarked_enter _)

theorem unmarked_term (unmarked : ∀ g ∈ rest, g.Unmarked) : (term t names rest).Unmarked := by
  have behind : ∀ g ∈ Goal.factors :: rest, g.Unmarked :=
    List.forall_mem_cons.mpr ⟨trivial, unmarked⟩
  exact (unmarked_unary behind).after (Event.unmarked_enter _)

theorem unmarked_expression (unmarked : ∀ g ∈ rest, g.Unmarked) :
    (expression t names rest).Unmarked := by
  have behind : ∀ g ∈ Goal.sums :: rest, g.Unmarked :=
    List.forall_mem_cons.mpr ⟨trivial, unmarked⟩
  exact (unmarked_term behind).after (Event.unmarked_enter _)

theorem unmarked_operator {operand : List Goal} (unmarked : ∀ g ∈ operand, g.Unmarked) :
    (operator t operand).Unmarked :=
  ⟨List.forall_mem_singleton.mpr (Event.unmarked_fragment _), unmarked⟩

end Meeting

/-- Every goal is met so but one for a name. -/
theorem Goal.unmarked_meet {goal : Goal} (h : goal.Unmarked) (not_name : ∀ use, goal ≠ .name use)
    (t : Located Token) (names : Names) : (goal.meet t names).Unmarked := by
  have nothing : ∀ e ∈ ([] : List Event), e.Unmarked := List.forall_mem_nil _
  cases goal with
  | placeLabel | jumpTo => exact h.elim
  | name use => exact absurd rfl (not_name use)
  | event e => exact List.forall_mem_singleton.mpr h
  | introduce x =>
    simp only [meet]
    split
    next => exact nothing
    next => exact nothing
    next => exact List.forall_mem_singleton.mpr (Event.unmarked_header _)
  | checkJumps =>
    simp only [meet]
    split <;> exact nothing
  | keyword | assign =>
    simp only [meet]
    split
    next => exact ⟨nothing, List.forall_mem_nil _⟩
    next => exact nothing
  | lineEnd =>
    have rule : ∀ e ∈ [Event.enter .newline], e.Unmarked :=
      List.forall_mem_singleton.mpr (Event.unmarked_enter _)
    simp only [meet]
    split
    next => exact ⟨rule, List.forall_mem_singleton.mpr trivial⟩
    next => exact rule
  | newlines =>
    simp only [meet]
    split
    next => exact ⟨nothing, List.forall_mem_singleton.mpr trivial⟩
    next => exact nothing
  | statements =>
    simp only [meet]
    split
    next => exact nothing
    next => exact Meeting.unmarked_statement (List.forall_mem_singleton.mpr trivial)
  | block closing =>
    simp only [meet]
    split
    next => exact nothing
    next => exact Meeting.unmarked_statement (List.forall_mem_singleton.mpr trivial)
  | blockRest closing =>
    simp only [meet]
    split
    next => exact ⟨nothing, List.forall_mem_nil _⟩
    next => exact Meeting.unmarked_statement (List.forall_mem_singleton.mpr trivial)
  | printed =>
    have closing : (Event.line "));").Unmarked := Event.unmarked_of_head rfl (by decide)
    have behind : ∀ g ∈ [line "));"], g.Unmarked := List.forall_mem_singleton.mpr closing
    simp only [meet]
    split
    next =>
      refine ⟨List.forall_mem_singleton.mpr ?_, List.forall_mem_nil _⟩
      exact Event.unmarked_line (c := '(') (by simp) rfl (by decide)
    next =>
      exact (Meeting.unmarked_expression behind).after (Event.unmarked_fragment _)
  | comparison =>
    have behind : ∀ g ∈ [relation], g.Unmarked := List.forall_mem_singleton.mpr trivial
    exact (Meeting.unmarked_expression behind).after (Event.unmarked_enter _)
  | relation =>
    simp only [meet]
    split
    next => exact Meeting.unmarked_operator (by simp [Unmarked])
    next => exact nothing
  | relations | sums | factors =>
    simp only [meet]
    split
    next => exact Meeting.unmarked_operator (by simp [Unmarked])
    next => exact nothing
  | expression => exact Meeting.unmarked_expression (List.forall_mem_nil _)
  | term => exact Meeting.unmarked_term (List.forall_mem_nil _)
  | unary => exact Meeting.unmarked_unary (List.forall_mem_nil _)
  | primary => exact Meeting.unmarked_primary (List.forall_mem_nil _)

/-- What a step announces in front of a token, and the goals that it leaves. -/
theorem step_unmarked {goals : List Goal} (h : ∀ g ∈ goals, g.Unmarked)
    (not_name : ∀ g ∈ goals, ∀ use, g ≠ .name use) (t : Located Token) (names : Names) :
    (∀ e ∈ (step t goals names).events, e.Unmarked) ∧
      ∀ goals', (step t goals names).outcome = .consumed goals' → ∀ g ∈ goals', g.Unmarked := by
  induction goals generalizing names with
  | nil => exact ⟨List.forall_mem_nil _, nofun⟩
  | cons goal goals ih =>
    obtain ⟨first, behind⟩ := List.forall_mem_cons.mp h
    obtain ⟨first_not_name, behind_not_name⟩ := List.forall_mem_cons.mp not_name
    have met := goal.unmarked_meet first first_not_name t names
    cases meet : goal.meet t names with
    | pass events names' =>
      rw [meet] at met
      obtain ⟨unmarked, kept⟩ := ih behind behind_not_name names'
      rw [step_of_pass meet]
      exact ⟨List.forall_mem_append.mpr ⟨met, unmarked⟩, kept⟩
    | take events parts =>
      rw [meet] at met
      rw [step_of_take meet]
      refine ⟨met.1, fun goals' consumed => ?_⟩
      cases consumed
      exact List.forall_mem_append.mpr ⟨met.2, behind⟩
    | fail events e =>
      rw [meet] at met
      rw [step_of_fail meet]
      exact ⟨met, nofun⟩

end MiniBasic
