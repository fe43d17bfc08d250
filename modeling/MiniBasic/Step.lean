import MiniBasic.Diagnostic
import MiniBasic.Goal

/-!
# Steps

One step brings a list of goals forward by one token. The goals that need no token, or that the
token does not belong to, are met on the way; the goal that the token belongs to takes it. What a
single goal does about the token is `Goal.meet`, and `step` asks the goals one after the other until
one of them takes the token or refuses it.

`ne_eof_of_consumed` says that the end of the input is never taken: there the goals are all met or
the program is refused.
-/

namespace MiniBasic

/-- What a goal does about a token. -/
inductive Meeting where
  /-- The goal is met, and the token is left to the goals behind it. -/
  | pass (events : List Event) (names : Names)
  /-- The goal takes the token, and these goals come in its place. -/
  | take (events : List Event) (goals : List Goal)
  | fail (events : List Event) (e : Diagnostic)
  deriving DecidableEq, Repr

namespace Meeting

/-- The meeting with one more event at its beginning. -/
def after (e : Event) : Meeting → Meeting
  | pass events names => pass (e :: events) names
  | take events goals => take (e :: events) goals
  | fail events d => fail (e :: events) d

/-- The token is not one that may stand here. -/
def refuse (events : List Event) (t : Located Token) (e : GrammarError) : Meeting :=
  fail events (.grammar (t.replace e))

/-- The keyword that starts a statement, behind which the goals are `rest`. -/
def statement (t : Located Token) (rest : List Goal) : Meeting :=
  match t.kind with
  | .keyword k =>
    match Goal.ofKeyword? k with
    | some parts => take [.enter (.statement t.kind)] (parts ++ rest)
    | none => refuse [] t (.invalidStatement t.text t.kind)
  | _ => refuse [] t (.invalidStatement t.text t.kind)

def primary (t : Located Token) (names : Names) (rest : List Goal) : Meeting :=
  match t.kind with
  | .number => take [.enter (.primary t.text), .fragment t.text] rest
  | .ident =>
    match names.requireVariable (t.replace t.text) with
    | .ok () => take [.enter (.primary t.text), .fragment t.text] rest
    | .error e => fail [.enter (.primary t.text)] (.names e)
  | _ => refuse [.enter (.primary t.text)] t (.unexpectedPrimary t.text)

def unary (t : Located Token) (names : Names) (rest : List Goal) : Meeting :=
  match t.kind with
  | .plus | .minus => take [.enter (.unary (some t.text)), .fragment t.text] (.primary :: rest)
  | _ => (primary t names rest).after (.enter (.unary none))

def term (t : Located Token) (names : Names) (rest : List Goal) : Meeting :=
  (unary t names (.factors :: rest)).after (.enter .term)

def expression (t : Located Token) (names : Names) (rest : List Goal) : Meeting :=
  (term t names (.sums :: rest)).after (.enter .expression)

/-- An operator between two operands, of which the right one has the goals `operand`. -/
def operator (t : Located Token) (operand : List Goal) : Meeting :=
  take [.fragment (" " ++ t.text ++ " ")] operand

end Meeting

open Meeting in
/-- What the goal does about the token `t`, when `names` are known. -/
def Goal.meet (t : Located Token) (names : Names) : Goal → Meeting
  | .event e => pass [e] names
  | .introduce x =>
    match names.introduce x with
    | .error e => fail [] (.names e)
    | .ok (false, names) => pass [] names
    | .ok (true, names) => pass [.header ("float " ++ x.value ++ ";")] names
  | .placeLabel x =>
    match names.placeLabel x with
    | .error e => fail [] (.names e)
    | .ok names => pass [.line (x.value ++ ":")] names
  | .jumpTo x => pass [.line ("goto " ++ x.value ++ ";")] (names.jumpTo x)
  | .checkJumps =>
    match names.checkJumps with
    | .error e => fail [] (.names e)
    | .ok () => pass [] names
  | .keyword k =>
    if t.kind = .keyword k then take [] []
    else refuse [] t (.unexpectedToken (.keyword k) t.kind)
  | .assign =>
    if t.kind = .assign then take [] [] else refuse [] t (.unexpectedToken .assign t.kind)
  | .name use =>
    if t.kind = .ident then take [] (Goal.ofName use (t.replace t.text))
    else refuse [] t (.unexpectedToken .ident t.kind)
  | .lineEnd =>
    if t.kind = .newline then take [.enter .newline] [.newlines]
    else refuse [.enter .newline] t (.unexpectedToken .newline t.kind)
  | .newlines => if t.kind = .newline then take [] [.newlines] else pass [] names
  | .statements => if t.kind = .eof then pass [] names else statement t [.statements]
  | .block closing =>
    if t.kind = .keyword closing then refuse [] t (.emptyBody (.keyword closing))
    else statement t [.blockRest closing]
  | .blockRest closing =>
    if t.kind = .keyword closing then take [] [] else statement t [.blockRest closing]
  | .printed =>
    if t.kind = .string then take [.line ("printf(\"" ++ t.text ++ "\\n\");")] []
    else (Meeting.expression t names [.line "));"]).after (.fragment "printf(\"%.2f\\n\", (float)(")
  | .comparison => (Meeting.expression t names [.relation]).after (.enter .comparison)
  | .relation =>
    if t.kind.isRelation then operator t [.expression, .relations]
    else refuse [] t (.expectedComparison t.text)
  | .relations =>
    if t.kind.isRelation then operator t [.expression, .relations] else pass [] names
  | .expression => Meeting.expression t names []
  | .sums =>
    if t.kind = .plus ∨ t.kind = .minus then operator t [.term, .sums] else pass [] names
  | .term => Meeting.term t names []
  | .factors =>
    if t.kind = .times ∨ t.kind = .divide then operator t [.unary, .factors] else pass [] names
  | .unary => Meeting.unary t names []
  | .primary => Meeting.primary t names []

inductive Outcome where
  /-- The token was taken, and these goals remain. -/
  | consumed (goals : List Goal)
  /-- All goals were met. -/
  | finished
  | failed (e : Diagnostic)
  deriving DecidableEq, Repr

structure Step where
  events : List Event
  /-- The names that are known after the events. -/
  names : Names
  outcome : Outcome
  deriving DecidableEq, Repr

/-- Brings the goals forward by the token `t`. -/
def step (t : Located Token) : List Goal → Names → Step
  | [], names => ⟨[], names, .finished⟩
  | goal :: goals, names =>
    match goal.meet t names with
    | .pass events names =>
      let more := step t goals names
      { more with events := events ++ more.events }
    | .take events parts => ⟨events, names, .consumed (parts ++ goals)⟩
    | .fail events e => ⟨events, names, .failed e⟩

namespace Meeting

/-- Whether the token is taken. -/
def takes : Meeting → Bool
  | take .. => true
  | _ => false

@[simp] theorem takes_after (m : Meeting) (e : Event) : (m.after e).takes = m.takes := by
  cases m <;> rfl

section
variable {t : Located Token} {names : Names} {rest : List Goal} (eof : t.kind = .eof)
include eof

private theorem takes_statement_eof : (statement t rest).takes = false := by
  simp [statement, eof, refuse, takes]

private theorem takes_unary_eof : (unary t names rest).takes = false := by
  simp [unary, primary, eof, refuse, after, takes]

private theorem takes_expression_eof : (expression t names rest).takes = false := by
  simpa [expression, term] using takes_unary_eof eof

end

end Meeting

/-- No goal takes the end of the input. -/
private theorem Goal.takes_meet_eof {t : Located Token} (eof : t.kind = .eof) (names : Names)
    (goal : Goal) : (goal.meet t names).takes = false := by
  cases goal with
  | introduce | placeLabel | checkJumps =>
    simp only [Goal.meet]
    split <;> rfl
  | block | blockRest => simpa [Goal.meet, eof] using Meeting.takes_statement_eof eof
  | printed | comparison | expression =>
    simpa [Goal.meet, eof] using Meeting.takes_expression_eof eof
  | term => simpa [Goal.meet, Meeting.term] using Meeting.takes_unary_eof eof
  | unary => exact Meeting.takes_unary_eof eof
  | _ => simp [Goal.meet, Meeting.primary, eof, Kind.isRelation, Meeting.refuse, Meeting.takes]

namespace Step

/-- The end of the input is never taken. -/
theorem ne_eof_of_consumed {t : Located Token} {names : Names} {goals gs : List Goal}
    (h : (step t goals names).outcome = .consumed gs) : t.kind ≠ .eof := by
  intro eof
  fun_induction step t goals names with
  | case1 | case4 => contradiction
  | case2 goal goals names events names' pass more ih => exact ih h
  | case3 goal goals names events parts take =>
    simpa [take, Meeting.takes] using goal.takes_meet_eof eof names

end Step

end MiniBasic
