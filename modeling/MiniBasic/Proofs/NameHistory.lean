import Mathlib.Data.List.Induction
import MiniBasic.Proofs.NameTracking

/-!
# The history of names

Whatever is asked of the names of a program can be answered from what was asked before. A history
keeps all calls, each with its answer, and forgets nothing; `Names` keeps no more of it than later
answers depend on, which is `Represents`. Both answer alike, call after call
(`answers_from_history`).
-/

namespace MiniBasic

namespace Names

/-- What can be asked of names. -/
inductive Call where
  | introduce (x : Located String)
  | hasVariable (name : String)
  | requireVariable (x : Located String)
  | placeLabel (x : Located String)
  | jumpTo (x : Located String)
  | checkJumps
  deriving DecidableEq, Repr

inductive Answer where
  | yes
  | no
  /-- There is nothing to say. -/
  | done
  | refused (e : Located NameError)
  deriving DecidableEq, Repr

namespace Answer

def ofBool (b : Bool) : Answer := if b then yes else no

def ofCheck : Except (Located NameError) Unit → Answer
  | .ok () => done
  | .error e => refused e

end Answer

/-- The answer to a call, and the names after it. A call that is refused leaves them alone. -/
def ask (s : Names) : Call → Answer × Names
  | .introduce x =>
    match s.introduce x with
    | .ok (new, s') => (.ofBool new, s')
    | .error e => (.refused e, s)
  | .hasVariable name => (.ofBool (s.hasVariable name), s)
  | .requireVariable x => (.ofCheck (s.requireVariable x), s)
  | .placeLabel x =>
    match s.placeLabel x with
    | .ok s' => (.done, s')
    | .error e => (.refused e, s)
  | .jumpTo x => (.done, s.jumpTo x)
  | .checkJumps => (.ofCheck s.checkJumps, s)

/-- The answers to calls in a row. -/
def answers (s : Names) : List Call → List Answer
  | [] => []
  | c :: cs => (s.ask c).1 :: (s.ask c).2.answers cs

/-- The names after calls in a row. -/
def after (s : Names) (cs : List Call) : Names := cs.foldl (fun s c => (s.ask c).2) s

/-- The call is about labels. All others are about variables. -/
def Call.isAboutLabels : Call → Bool
  | placeLabel _ | jumpTo _ | checkJumps => true
  | introduce _ | hasVariable _ | requireVariable _ => false

end Names

/-! ## Histories -/

/-- All calls so far, each with its answer. -/
abbrev History := List (Names.Call × Names.Answer)

namespace History
open Names

/-- The variables that were introduced, as often as they were. -/
def introduced (h : History) : List String :=
  h.filterMap fun
    | (.introduce x, .yes) | (.introduce x, .no) => some x.value
    | _ => none

/-- The labels that were placed. -/
def placed (h : History) : List String :=
  h.filterMap fun
    | (.placeLabel x, .done) => some x.value
    | _ => none

/-- All jumps, with those to the same label. -/
def jumps (h : History) : List (Located String) :=
  h.filterMap fun
    | (.jumpTo x, _) => some x
    | _ => none

/-- What a call is answered after this history. -/
def answer (h : History) : Call → Answer
  | .introduce x =>
    if x.value ∈ targetKeywords ++ targetGlobals then .refused ⟨x.location, .reservedName x.value⟩
    else if x.value ∈ h.introduced then .no
    else .yes
  | .hasVariable name => if name ∈ h.introduced then .yes else .no
  | .requireVariable x =>
    if x.value ∈ h.introduced then .done else .refused ⟨x.location, .undeclaredVariable x.value⟩
  | .placeLabel x =>
    if x.value ∈ targetKeywords then .refused ⟨x.location, .reservedName x.value⟩
    else if x.value ∈ h.placed then .refused ⟨x.location, .duplicateLabel x.value⟩
    else .done
  | .jumpTo _ => .done
  | .checkJumps =>
    match h.jumps.find? (·.value ∉ h.placed) with
    | some x => .refused ⟨x.location, .unknownLabel x.value⟩
    | none => .done

/-- The history of calls in a row, each answered from those in front of it. -/
def ofCalls (cs : List Call) : History := cs.foldl (fun h c => h ++ [(c, h.answer c)]) []

theorem ofCalls_append_singleton (cs : List Call) (c : Call) :
    ofCalls (cs ++ [c]) = ofCalls cs ++ [(c, (ofCalls cs).answer c)] := by
  simp [ofCalls]

theorem introduced_append (h h' : History) : introduced (h ++ h') = h.introduced ++ h'.introduced :=
  List.filterMap_append

theorem placed_append (h h' : History) : placed (h ++ h') = h.placed ++ h'.placed :=
  List.filterMap_append

theorem jumps_append (h h' : History) : jumps (h ++ h') = h.jumps ++ h'.jumps :=
  List.filterMap_append

end History

/-! ## Both answer alike -/

/-- The names know of a history what can still be asked of it. Of the jumps to one label they know
the first, so it matters that jumps are only searched for by their labels. -/
structure Represents (h : History) (s : Names) : Prop where
  vars (name : String) : name ∈ s.vars ↔ name ∈ h.introduced
  labels (name : String) : name ∈ s.labels ↔ name ∈ h.placed
  jumps (p : String → Bool) : s.jumps.find? (p ·.value) = h.jumps.find? (p ·.value)

theorem represents_nil : Represents [] .empty := by
  constructor <;> simp [Names.empty, History.introduced, History.placed, History.jumps]

namespace Represents
open Names
variable {h : History} {s s' : Names}

theorem hasVariable_eq (represents : Represents h s) (name : String) :
    s.hasVariable name = decide (name ∈ h.introduced) := by
  simp [hasVariable, represents.vars]

theorem checkJumps_eq (represents : Represents h s) :
    Answer.ofCheck s.checkJumps = h.answer .checkJumps := by
  have found := represents.jumps fun name => decide (name ∉ h.placed)
  have same : (fun jump : Located String => !s.labels.contains jump.value) =
      fun jump => decide (jump.value ∉ h.placed) := by
    funext jump
    simp [represents.labels]
  simp only [checkJumps, History.answer, same, found]
  cases h.jumps.find? fun jump => decide (jump.value ∉ h.placed) <;> rfl

theorem answer_eq (represents : Represents h s) (c : Call) : (s.ask c).1 = h.answer c := by
  cases c with
  | introduce x =>
    cases outcome : s.introduce x with
    | error e =>
      obtain ⟨reserved, rfl⟩ := introduce_eq_error_iff.mp outcome
      simp only [ask, outcome, History.answer, if_pos reserved, Located.replace]
    | ok result =>
      obtain ⟨new, s'⟩ := result
      obtain ⟨free, new_iff, -⟩ := introduce_ok outcome
      rw [represents.vars] at new_iff
      simp only [ask, outcome, History.answer, if_neg free]
      cases new <;> simp_all [Answer.ofBool]
  | hasVariable name =>
    simp [ask, History.answer, represents.hasVariable_eq, Answer.ofBool]
  | requireVariable x =>
    simp only [ask, requireVariable, History.answer, represents.hasVariable_eq, decide_eq_true_eq]
    split <;> rfl
  | placeLabel x =>
    cases outcome : s.placeLabel x with
    | error e =>
      rcases placeLabel_eq_error_iff.mp outcome with ⟨reserved, rfl⟩ | ⟨free, placed, rfl⟩
      · simp only [ask, outcome, History.answer, if_pos reserved, Located.replace]
      · rw [represents.labels] at placed
        simp only [ask, outcome, History.answer, if_neg free, if_pos placed, Located.replace]
    | ok s' =>
      obtain ⟨free, new, -⟩ := placeLabel_ok outcome
      rw [represents.labels] at new
      simp only [ask, outcome, History.answer, if_neg free, if_neg new]
  | jumpTo x => rfl
  | checkJumps => exact represents.checkJumps_eq

/-- One more call, and what it adds. -/
theorem append_singleton (represents : Represents h s) {c : Call} {a : Answer}
    (vars : ∀ name, name ∈ s'.vars ↔ name ∈ s.vars ∨ name ∈ History.introduced [(c, a)])
    (labels : ∀ name, name ∈ s'.labels ↔ name ∈ s.labels ∨ name ∈ History.placed [(c, a)])
    (jumps : ∀ p : String → Bool, s'.jumps.find? (p ·.value) =
      (s.jumps.find? (p ·.value)).or ((History.jumps [(c, a)]).find? (p ·.value))) :
    Represents (h ++ [(c, a)]) s' where
  vars name := by rw [vars, represents.vars, History.introduced_append, List.mem_append]
  labels name := by rw [labels, represents.labels, History.placed_append, List.mem_append]
  jumps p := by rw [jumps, represents.jumps, History.jumps_append, List.find?_append]

/-- One more call that adds nothing. -/
theorem unchanged (represents : Represents h s) {c : Call} {a : Answer}
    (introduced : History.introduced [(c, a)] = []) (placed : History.placed [(c, a)] = [])
    (jumps : History.jumps [(c, a)] = []) : Represents (h ++ [(c, a)]) s :=
  represents.append_singleton (by simp [introduced]) (by simp [placed]) (by simp [jumps])

theorem ask (represents : Represents h s) (c : Call) :
    Represents (h ++ [(c, (s.ask c).1)]) (s.ask c).2 := by
  cases c with
  | introduce x =>
    cases outcome : s.introduce x with
    | error e =>
      simp only [Names.ask, outcome]
      exact represents.unchanged rfl rfl rfl
    | ok result =>
      obtain ⟨new, s'⟩ := result
      obtain ⟨-, -, vars, labels, jumps⟩ := introduce_ok outcome
      simp only [Names.ask, outcome]
      have added : History.introduced [(.introduce x, Answer.ofBool new)] = [x.value] := by
        cases new <;> rfl
      apply represents.append_singleton
      · simpa [added] using vars
      · cases new <;> simp [labels, History.placed, Answer.ofBool]
      · cases new <;> simp [jumps, History.jumps, Answer.ofBool]
  | placeLabel x =>
    cases outcome : s.placeLabel x with
    | error e =>
      simp only [Names.ask, outcome]
      exact represents.unchanged rfl rfl rfl
    | ok s' =>
      obtain ⟨-, -, rfl⟩ := placeLabel_ok outcome
      simp only [Names.ask, outcome]
      apply represents.append_singleton
      · simp [History.introduced]
      · simp [History.placed, or_comm]
      · simp [History.jumps]
  | jumpTo x =>
    apply represents.append_singleton
    · simp [Names.ask, vars_jumpTo, History.introduced]
    · simp [Names.ask, labels_jumpTo, History.placed]
    · exact find?_jumps_jumpTo s x
  | hasVariable name => exact represents.unchanged rfl rfl rfl
  | requireVariable x => exact represents.unchanged rfl rfl rfl
  | checkJumps => exact represents.unchanged rfl rfl rfl

end Represents

/-! ## Calls in a row -/

namespace Names

section
variable (s : Names) (c : Call) (cs ds : List Call)

theorem after_cons : s.after (c :: cs) = (s.ask c).2.after cs := rfl

theorem after_append_singleton : s.after (cs ++ [c]) = ((s.after cs).ask c).2 := by
  simp [after]

theorem answers_append : s.answers (cs ++ ds) = s.answers cs ++ (s.after cs).answers ds := by
  induction cs generalizing s with
  | nil => rfl
  | cons c cs ih => rw [List.cons_append, answers, ih, answers, after_cons, List.cons_append]

end

theorem represents_after (cs : List Call) : Represents (.ofCalls cs) (empty.after cs) := by
  induction cs using List.reverseRecOn with
  | nil => exact represents_nil
  | append_singleton cs c ih =>
    rw [History.ofCalls_append_singleton, after_append_singleton, ← ih.answer_eq]
    exact ih.ask c

theorem answers_eq (cs : List Call) : empty.answers cs = (History.ofCalls cs).map (·.2) := by
  induction cs using List.reverseRecOn with
  | nil => rfl
  | append_singleton cs c ih =>
    have answer := (represents_after cs).answer_eq c
    rw [answers_append, ih, answers, answer, answers, History.ofCalls_append_singleton,
      List.map_append, List.map_singleton]

/-- A call that is refused leaves the names as they are. -/
theorem ask_of_refused {s : Names} {c : Call} {e : Located NameError}
    (refused : (s.ask c).1 = .refused e) : (s.ask c).2 = s := by
  cases c with
  | introduce x =>
    cases outcome : s.introduce x with
    | error => simp only [ask, outcome]
    | ok result =>
      obtain ⟨new, s'⟩ := result
      cases new <;> simp [ask, outcome, Answer.ofBool] at refused
  | placeLabel x =>
    cases outcome : s.placeLabel x with
    | error => simp only [ask, outcome]
    | ok => simp [ask, outcome] at refused
  | jumpTo => simp [ask] at refused
  | hasVariable | requireVariable | checkJumps => rfl

/-! ## Variables and labels -/

/-- Both know the same labels and jumps, or else the same variables. -/
def Agree (aboutLabels : Bool) (s s' : Names) : Prop :=
  if aboutLabels then s.labels = s'.labels ∧ s.jumps = s'.jumps else s.vars = s'.vars

namespace Agree
variable {aboutLabels : Bool} {s s' s'' : Names} {c : Call}

theorem refl (aboutLabels : Bool) (s : Names) : Agree aboutLabels s s := by
  cases aboutLabels with
  | true => exact ⟨rfl, rfl⟩
  | false => exact rfl

theorem trans (h : Agree aboutLabels s s') (h' : Agree aboutLabels s' s'') :
    Agree aboutLabels s s'' := by
  cases aboutLabels with
  | true => exact ⟨h.1.trans h'.1, h.2.trans h'.2⟩
  | false => exact Eq.trans h h'

/-- A call gets the same answer from both, and they still agree. -/
theorem ask (agree : Agree aboutLabels s s') (about : c.isAboutLabels = aboutLabels) :
    (s.ask c).1 = (s'.ask c).1 ∧ Agree aboutLabels (s.ask c).2 (s'.ask c).2 := by
  subst about
  obtain ⟨vars, labels, jumps⟩ := s
  obtain ⟨vars', labels', jumps'⟩ := s'
  cases c with
  | introduce x =>
    obtain rfl : vars = vars' := agree
    by_cases reserved : x.value ∈ targetKeywords ++ targetGlobals <;>
      by_cases known : x.value ∈ vars <;>
      simp [Names.ask, Names.introduce, hasVariable, reserved, known, Agree, Call.isAboutLabels,
        -List.mem_append]
  | hasVariable name | requireVariable x =>
    obtain rfl : vars = vars' := agree
    exact ⟨rfl, rfl⟩
  | placeLabel x =>
    obtain ⟨rfl, rfl⟩ : labels = labels' ∧ jumps = jumps' := agree
    by_cases reserved : x.value ∈ targetKeywords <;> by_cases known : x.value ∈ labels <;>
      simp [Names.ask, Names.placeLabel, reserved, known, Agree, Call.isAboutLabels]
  | jumpTo x =>
    obtain ⟨rfl, rfl⟩ : labels = labels' ∧ jumps = jumps' := agree
    refine ⟨rfl, ?_⟩
    simp only [Names.ask, Names.jumpTo]
    split <;> exact ⟨rfl, rfl⟩
  | checkJumps =>
    obtain ⟨rfl, rfl⟩ : labels = labels' ∧ jumps = jumps' := agree
    exact ⟨rfl, rfl, rfl⟩

/-- A call about the others makes no difference. -/
theorem ask_of_other (s : Names) (other : c.isAboutLabels ≠ aboutLabels) :
    Agree aboutLabels (s.ask c).2 s := by
  obtain rfl : (!c.isAboutLabels) = aboutLabels := Bool.not_eq.mpr other
  cases c with
  | introduce x =>
    cases outcome : s.introduce x with
    | error =>
      simp only [Names.ask, outcome]
      exact ⟨rfl, rfl⟩
    | ok result =>
      obtain ⟨-, -, -, labels, jumps⟩ := introduce_ok outcome
      simp only [Names.ask, outcome]
      exact ⟨labels, jumps⟩
  | placeLabel x =>
    cases outcome : s.placeLabel x with
    | error =>
      simp only [Names.ask, outcome]
      exact rfl
    | ok s' =>
      obtain ⟨-, -, rfl⟩ := placeLabel_ok outcome
      simp only [Names.ask, outcome]
      exact rfl
  | jumpTo x => exact vars_jumpTo
  | hasVariable | requireVariable => exact ⟨rfl, rfl⟩
  | checkJumps => exact rfl

/-- The calls about the others can be left out. -/
theorem answers_filter (agree : Agree aboutLabels s s') (cs : List Call) :
    ((cs.zip (s.answers cs)).filter (·.1.isAboutLabels = aboutLabels)).map (·.2) =
      s'.answers (cs.filter (·.isAboutLabels = aboutLabels)) := by
  induction cs generalizing s s' with
  | nil => rfl
  | cons c cs ih =>
    by_cases about : c.isAboutLabels = aboutLabels
    · obtain ⟨same, agree'⟩ := agree.ask about
      simp [answers, about, same, ih agree']
    · have behind := ih ((ask_of_other s about).trans agree)
      simpa [answers, about] using behind

end Agree

/-- Every call is answered as it is from the full history of the calls in front of it. A call that
is refused can be left out, and so can all calls about variables when it comes to labels, and all
calls about labels when it comes to variables. -/
theorem answers_from_history :
    (∀ calls, empty.answers calls = (History.ofCalls calls).map (·.2)) ∧
    (∀ before c after e, (History.ofCalls before).answer c = .refused e →
      ∃ later, empty.answers (before ++ c :: after) = empty.answers before ++ .refused e :: later ∧
        empty.answers (before ++ after) = empty.answers before ++ later) ∧
    ∀ (aboutLabels : Bool) (calls : List Call),
      ((calls.zip (empty.answers calls)).filter (·.1.isAboutLabels = aboutLabels)).map (·.2) =
        empty.answers (calls.filter (·.isAboutLabels = aboutLabels)) := by
  refine ⟨answers_eq, fun before c after e refused => ?_,
    fun aboutLabels calls => (Agree.refl aboutLabels empty).answers_filter calls⟩
  have answer := (represents_after before).answer_eq c
  rw [refused] at answer
  refine ⟨(empty.after before).answers after, ?_, answers_append ..⟩
  rw [answers_append, answers, answer, ask_of_refused answer]

/-- A label that is placed a second time can still be jumped to. -/
theorem second_label_refused :
    let before : List Call := [.jumpTo ⟨⟨1, 6⟩, "b"⟩, .placeLabel ⟨⟨2, 7⟩, "a"⟩,
      .jumpTo ⟨⟨3, 6⟩, "b"⟩]
    let after : List Call := [.checkJumps, .placeLabel ⟨⟨5, 7⟩, "b"⟩, .checkJumps]
    (History.ofCalls before).answer (.placeLabel ⟨⟨4, 7⟩, "a"⟩) =
        .refused ⟨⟨4, 7⟩, .duplicateLabel "a"⟩ ∧
      empty.answers (before ++ .placeLabel ⟨⟨4, 7⟩, "a"⟩ :: after) =
        [.done, .done, .done, .refused ⟨⟨4, 7⟩, .duplicateLabel "a"⟩,
          .refused ⟨⟨1, 6⟩, .unknownLabel "b"⟩, .done, .done] := by
  intro before after
  have refused : (History.ofCalls before).answer (.placeLabel ⟨⟨4, 7⟩, "a"⟩) =
      .refused ⟨⟨4, 7⟩, .duplicateLabel "a"⟩ := by decide
  obtain ⟨later, with_it, without⟩ := answers_from_history.2.1 before _ after _ refused
  have behind : empty.answers (before ++ after) = empty.answers before ++
      [.refused ⟨⟨1, 6⟩, .unknownLabel "b"⟩, .done, .done] := by decide
  rw [List.append_cancel_left (without.symm.trans behind)] at with_it
  exact ⟨refused, with_it⟩

end Names

end MiniBasic
