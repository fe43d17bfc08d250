import MiniBasic.Proofs.Meetings
import MiniBasic.Proofs.Pass

/-!
# Relocation

A pass hands the locations of its tokens on and never looks at them. Moving all tokens to other
places, by any function on locations, therefore moves what the pass says about them and changes
nothing else: `Goal.meet_relocate` says so of one goal, `step_relocate` of one token and
`Pass.run_relocate` of a whole pass.
-/

namespace MiniBasic

section
variable (f : Location → Location)

def Located.relocate {α : Type} (x : Located α) : Located α := ⟨f x.location, x.value⟩

def Names.relocate (s : Names) : Names := { s with jumps := s.jumps.map (·.relocate f) }

def Diagnostic.relocate : Diagnostic → Diagnostic
  | scan e => scan (e.relocate f)
  | grammar e => grammar (e.relocate f)
  | names e => names (e.relocate f)

/-- The goal with the names that it waits to look at in their new places. -/
def Goal.relocate : Goal → Goal
  | introduce x => introduce (x.relocate f)
  | placeLabel x => placeLabel (x.relocate f)
  | jumpTo x => jumpTo (x.relocate f)
  | goal => goal

def Meeting.relocate : Meeting → Meeting
  | pass events names => pass events (names.relocate f)
  | take events goals => take events (goals.map (·.relocate f))
  | fail events d => fail events (d.relocate f)

def Outcome.relocate : Outcome → Outcome
  | consumed goals => consumed (goals.map (·.relocate f))
  | finished => finished
  | failed d => failed (d.relocate f)

def Step.relocate (s : Step) : Step := ⟨s.events, s.names.relocate f, s.outcome.relocate f⟩

def Pass.relocate (p : Pass) : Pass :=
  { p with names := p.names.relocate f, result := p.result.mapError (·.relocate f) }

end

variable {f : Location → Location}

namespace Located

@[simp] theorem value_relocate {α : Type} (x : Located α) : (x.relocate f).value = x.value := rfl

@[simp] theorem kind_relocate (t : Located Token) : (t.relocate f).kind = t.kind := rfl

@[simp] theorem text_relocate (t : Located Token) : (t.relocate f).text = t.text := rfl

@[simp] theorem relocate_replace {α β : Type} (x : Located α) (b : β) :
    (x.relocate f).replace b = (x.replace b).relocate f := rfl

end Located

@[simp] theorem Diagnostic.location_relocate (d : Diagnostic) :
    (d.relocate f).location = f d.location := by
  cases d <;> rfl

/-! ## Names -/

namespace Names
variable (s : Names) (x : Located String)

@[simp] theorem hasVariable_relocate (name : String) :
    (s.relocate f).hasVariable name = s.hasVariable name := rfl

theorem introduce_relocate : (s.relocate f).introduce (x.relocate f) =
    ((s.introduce x).map fun (new, names) => (new, names.relocate f)).mapError
      (·.relocate f) := by
  unfold introduce
  by_cases reserved : x.value ∈ targetKeywords ++ targetGlobals
  · simp [reserved, -List.mem_append, Except.map, Except.mapError]
  · by_cases known : s.hasVariable x.value
    · simp [reserved, -List.mem_append, known, Except.map, Except.mapError]
    · simp only [Located.value_relocate, List.contains_eq_mem, reserved, decide_false,
        hasVariable_relocate, known]
      rfl

theorem placeLabel_relocate : (s.relocate f).placeLabel (x.relocate f) =
    ((s.placeLabel x).map (relocate f)).mapError (·.relocate f) := by
  unfold placeLabel
  by_cases reserved : x.value ∈ targetKeywords
  · simp [reserved, Except.map, Except.mapError]
  · by_cases placed : x.value ∈ s.labels <;>
      simp [reserved, placed, Except.map, Except.mapError, relocate]

theorem jumpTo_relocate : (s.relocate f).jumpTo (x.relocate f) = (s.jumpTo x).relocate f := by
  have same : (s.relocate f).jumps.any (·.value = x.value) = s.jumps.any (·.value = x.value) :=
    List.any_map
  unfold jumpTo
  rw [apply_ite (relocate f)]
  refine if_congr (iff_of_eq (congrArg (· = true) same)) rfl ?_
  simp [relocate]

theorem checkJumps_relocate :
    (s.relocate f).checkJumps = s.checkJumps.mapError (·.relocate f) := by
  have found : (s.relocate f).jumps.find? (fun jump => !(s.relocate f).labels.contains jump.value) =
      (s.jumps.find? fun jump => !s.labels.contains jump.value).map (·.relocate f) :=
    List.find?_map
  unfold checkJumps
  rw [found]
  cases s.jumps.find? fun jump => !s.labels.contains jump.value <;> rfl

end Names

/-! ## Meetings -/

theorem Goal.relocate_of_ofKeyword? {k : Keyword} {parts : List Goal}
    (h : ofKeyword? k = some parts) : parts.map (·.relocate f) = parts := by
  cases k <;> simp only [ofKeyword?, reduceCtorEq, Option.some.injEq] at h <;> subst h <;> rfl

theorem Goal.map_relocate_ofName (use : NameUse) (x : Located String) :
    (ofName use x).map (·.relocate f) = ofName use (x.relocate f) := by
  cases use <;> rfl

namespace Meeting
variable (t : Located Token) (names : Names) (rest : List Goal)

theorem relocate_after (m : Meeting) (e : Event) :
    (m.after e).relocate f = (m.relocate f).after e := by
  cases m <;> rfl

theorem relocate_ite {p : Prop} [Decidable p] {a b a' b' : Meeting} (ha : a' = a.relocate f)
    (hb : b' = b.relocate f) : (if p then a' else b') = (if p then a else b).relocate f := by
  rw [apply_ite (relocate f), ha, hb]

theorem statement_relocate :
    statement (t.relocate f) (rest.map (·.relocate f)) = (statement t rest).relocate f := by
  unfold statement
  rw [Located.kind_relocate]
  cases t.kind with
  | keyword k =>
    cases parts_eq : Goal.ofKeyword? k with
    | some parts => simp [parts_eq, relocate, Goal.relocate_of_ofKeyword? parts_eq]
    | none => simp [parts_eq, relocate, refuse, Diagnostic.relocate]
  | _ => rfl

theorem primary_relocate : primary (t.relocate f) (names.relocate f) (rest.map (·.relocate f)) =
    (primary t names rest).relocate f := by
  unfold primary
  rw [Located.kind_relocate]
  cases t.kind with
  | ident =>
    by_cases known : names.hasVariable t.text
    · simp [Names.requireVariable, Located.replace, known, relocate]
    · simp [Names.requireVariable, Located.replace, known, relocate, Diagnostic.relocate,
        Located.relocate]
  | _ => rfl

theorem unary_relocate : unary (t.relocate f) (names.relocate f) (rest.map (·.relocate f)) =
    (unary t names rest).relocate f := by
  unfold unary
  rw [Located.kind_relocate, primary_relocate, ← relocate_after]
  cases t.kind <;> rfl

theorem expression_relocate :
    expression (t.relocate f) (names.relocate f) (rest.map (·.relocate f)) =
      (expression t names rest).relocate f := by
  simp only [expression, term, relocate_after, ← unary_relocate]
  rfl

end Meeting

theorem Goal.meet_relocate (t : Located Token) (names : Names) (goal : Goal) :
    (goal.relocate f).meet (t.relocate f) (names.relocate f) = (goal.meet t names).relocate f := by
  cases goal with
  | introduce x =>
    simp only [relocate, meet, Names.introduce_relocate]
    rcases names.introduce x with e | ⟨_ | _, names'⟩ <;> rfl
  | placeLabel x =>
    simp only [relocate, meet, Names.placeLabel_relocate]
    cases names.placeLabel x <;> rfl
  | jumpTo x =>
    simp only [relocate, meet, Names.jumpTo_relocate]
    rfl
  | checkJumps =>
    simp only [relocate, meet, Names.checkJumps_relocate]
    cases names.checkJumps <;> rfl
  | name use =>
    refine Meeting.relocate_ite ?_ rfl
    rw [Meeting.relocate, map_relocate_ofName]
    rfl
  | keyword | assign | lineEnd | newlines | relation | relations | sums | factors =>
    exact Meeting.relocate_ite rfl rfl
  | statements => exact Meeting.relocate_ite rfl (Meeting.statement_relocate t [.statements])
  | block closing | blockRest closing =>
    exact Meeting.relocate_ite rfl (Meeting.statement_relocate t [.blockRest closing])
  | printed =>
    refine Meeting.relocate_ite rfl ?_
    rw [Meeting.relocate_after, ← Meeting.expression_relocate]
    rfl
  | comparison =>
    simp only [meet, Meeting.relocate_after, ← Meeting.expression_relocate]
    rfl
  | expression => exact Meeting.expression_relocate t names []
  | term =>
    simp only [meet, Meeting.term, Meeting.relocate_after, ← Meeting.unary_relocate]
    rfl
  | unary => exact Meeting.unary_relocate t names []
  | primary => exact Meeting.primary_relocate t names []
  | event => rfl

/-! ## Passes -/

theorem step_relocate (t : Located Token) (goals : List Goal) (names : Names) :
    step (t.relocate f) (goals.map (·.relocate f)) (names.relocate f) =
      (step t goals names).relocate f := by
  induction goals generalizing names with
  | nil => rfl
  | cons goal goals ih =>
    have met := goal.meet_relocate (f := f) t names
    rw [List.map_cons]
    cases meet : goal.meet t names with
    | pass events names' =>
      rw [meet] at met
      rw [step_of_pass met, step_of_pass meet, ih]
      rfl
    | take events parts =>
      rw [meet] at met
      rw [step_of_take met, step_of_take meet, ← List.map_append]
      rfl
    | fail events e =>
      rw [meet] at met
      rw [step_of_fail met, step_of_fail meet]
      rfl

namespace Pass

theorem relocate_after (events : List Event) (p : Pass) :
    (p.after events).relocate f = (p.relocate f).after events := rfl

theorem run_relocate (stop : Location) (ts : List (Located Token)) (goals : List Goal)
    (names : Names) :
    run (f stop) (ts.map (·.relocate f)) (goals.map (·.relocate f)) (names.relocate f) =
      (run stop ts goals names).relocate f := by
  induction ts generalizing goals names with
  | nil =>
    have first : step (endToken (f stop)) _ _ = _ := step_relocate (endToken stop) goals names
    rw [List.map_nil, run_eq, run_eq stop, List.headD_nil, List.headD_nil, first]
    cases last : step (endToken stop) goals names with
    | mk events names' outcome =>
      cases outcome with
      | consumed => exact absurd rfl (Step.ne_eof_of_consumed (congrArg Step.outcome last))
      | finished => rfl
      | failed e => rfl
  | cons t ts ih =>
    have first := step_relocate (f := f) t goals names
    rw [List.map_cons, run, run, first]
    rcases step t goals names with ⟨events, names', goals' | _ | e⟩
    · exact congrArg (after events) (ih goals' names')
    · rfl
    · rfl

end Pass

end MiniBasic
