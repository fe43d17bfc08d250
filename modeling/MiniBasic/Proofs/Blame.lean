import Mathlib.Data.List.Basic
import MiniBasic.Proofs.Meetings
import MiniBasic.Proofs.Pass

/-!
# Where a diagnostic points

A token that the grammar does not allow is reported where it stands. A name is reported where it
stands as well, but that may be further up: names that have been read wait in the goals until they
are looked at, and jumps wait in the names until the end. `mentions` are the places of the names
that wait, and `step_blames` says how one step changes them and what it may point to. For a whole
pass this gives `Pass.blame`.
-/

namespace MiniBasic

/-- The place of the name that a goal waits to look at. -/
def Goal.location? : Goal → Option Location
  | introduce x | placeLabel x | jumpTo x => some x.location
  | _ => none

def Names.jumpLocations (names : Names) : List Location := names.jumps.map (·.location)

/-- The places of all names that wait to be looked at. -/
def mentions (goals : List Goal) (names : Names) : List Location :=
  goals.filterMap Goal.location? ++ names.jumpLocations

/-! ## Names -/

namespace Names
variable {names names' : Names} {x : Located String} {e : Located NameError}

theorem location_of_introduce_error (h : names.introduce x = .error e) :
    e.location = x.location := by
  unfold introduce at h
  split at h
  · cases h; rfl
  · split at h <;> cases h

theorem jumps_of_introduce {new : Bool} (h : names.introduce x = .ok (new, names')) :
    names'.jumps = names.jumps := by
  unfold introduce at h
  split at h
  · cases h
  · split at h <;> cases h <;> rfl

theorem location_of_placeLabel_error (h : names.placeLabel x = .error e) :
    e.location = x.location := by
  unfold placeLabel at h
  split at h
  · cases h; rfl
  · split at h <;> cases h; rfl

theorem jumps_of_placeLabel (h : names.placeLabel x = .ok names') :
    names'.jumps = names.jumps := by
  unfold placeLabel at h
  split at h
  · cases h
  · split at h <;> cases h; rfl

theorem jumpLocations_jumpTo_subset :
    (names.jumpTo x).jumpLocations ⊆ x.location :: names.jumpLocations := by
  unfold jumpTo jumpLocations
  split <;> simp

theorem location_of_checkJumps_error (h : names.checkJumps = .error e) :
    e.location ∈ names.jumpLocations := by
  unfold checkJumps at h
  split at h
  next jump found =>
    cases h
    exact List.mem_map_of_mem (List.mem_of_find?_eq_some found)
  next => cases h

end Names

/-! ## One step -/

namespace Meeting

/-- What a meeting may mention and point to, when the places in `known` are mentioned before. -/
def Blames (t : Located Token) (known : List Location) : Meeting → Prop
  | pass _ names => names.jumpLocations ⊆ known
  | take _ parts => parts.filterMap Goal.location? ⊆ [t.location]
  | fail _ (.grammar e) => e.location = t.location
  | fail _ (.names e) => e.location ∈ t.location :: known
  | fail _ (.scan _) => False

variable {t : Located Token} {known : List Location} {names : Names} {rest : List Goal}

theorem Operand.blames {m : Meeting} (h : Operand t names rest m)
    (hrest : rest.filterMap Goal.location? = []) : m.Blames t known := by
  cases h with
  | number | variable_ => simp [Blames, hrest]
  | unknown => exact List.mem_cons_self
  | other => rfl

theorem Signed.blames {m : Meeting} (h : Signed t names rest m)
    (hrest : rest.filterMap Goal.location? = []) : m.Blames t known := by
  cases h with
  | sign => simp [Blames, List.filterMap_cons, Goal.location?, hrest]
  | operand _ h => exact h.blames hrest

theorem Opening.blames {m : Meeting} (h : Opening t rest m)
    (hrest : rest.filterMap Goal.location? = []) : m.Blames t known := by
  cases h with
  | other => rfl
  | @keyword _ k parts _ parts_eq =>
    have : parts.filterMap Goal.location? = [] := by
      cases k <;> simp only [Goal.ofKeyword?, reduceCtorEq, Option.some.injEq] at parts_eq <;>
        subst parts_eq <;> rfl
    simp [Blames, this, hrest]

end Meeting

theorem Goal.blames_meet (t : Located Token) (names : Names) (goal : Goal) :
    (goal.meet t names).Blames t (goal.location?.toList ++ names.jumpLocations) := by
  cases goal with
  | introduce x =>
    simp only [meet]
    split
    next e error => simp [Meeting.Blames, Names.location_of_introduce_error error, location?]
    next names' known => simp [Meeting.Blames, Names.jumpLocations, Names.jumps_of_introduce known]
    next names' new => simp [Meeting.Blames, Names.jumpLocations, Names.jumps_of_introduce new]
  | placeLabel x =>
    simp only [meet]
    split
    next e error => simp [Meeting.Blames, Names.location_of_placeLabel_error error, location?]
    next names' ok => simp [Meeting.Blames, Names.jumpLocations, Names.jumps_of_placeLabel ok]
  | jumpTo x => exact Names.jumpLocations_jumpTo_subset
  | checkJumps =>
    simp only [meet]
    split
    next e error => simp [Meeting.Blames, Names.location_of_checkJumps_error error]
    next => simp [Meeting.Blames]
  | event => simp [meet, Meeting.Blames]
  | keyword | assign | lineEnd | newlines | relation | relations | sums | factors =>
    simp only [meet]
    split <;> simp [Meeting.Blames, Meeting.refuse, Meeting.operator, location?, Located.replace]
  | name use =>
    simp only [meet]
    split
    · cases use <;> simp [Meeting.Blames, ofName, location?, fragment, line, Located.replace]
    · rfl
  | statements =>
    simp only [meet]
    split
    · simp [Meeting.Blames]
    · exact (Meeting.opening_statement t _).blames rfl
  | block closing | blockRest closing =>
    simp only [meet]
    split
    · simp [Meeting.Blames, Meeting.refuse, Located.replace]
    · exact (Meeting.opening_statement t _).blames rfl
  | printed =>
    simp only [meet]
    split
    · simp [Meeting.Blames]
    · exact ((Meeting.signed_expression t names _).after _).blames rfl
  | comparison => exact ((Meeting.signed_expression t names _).after _).blames rfl
  | expression => exact (Meeting.signed_expression t names _).blames rfl
  | term => exact (Meeting.signed_term t names _).blames rfl
  | unary => exact (Meeting.signed_unary t names _).blames rfl
  | primary => exact (Meeting.operand_primary t names _).blames rfl

theorem mentions_cons (goal : Goal) (goals : List Goal) (names : Names) :
    mentions (goal :: goals) names =
      goal.location?.toList ++ (goals.filterMap Goal.location? ++ names.jumpLocations) := by
  cases h : goal.location? <;> simp [mentions, h]

theorem mentions_pass {t : Located Token} {goal : Goal} {names names' : Names} {events : List Event}
    (pass : goal.meet t names = .pass events names') (goals : List Goal) :
    mentions goals names' ⊆ mentions (goal :: goals) names := by
  have met : names'.jumpLocations ⊆ goal.location?.toList ++ names.jumpLocations := by
    simpa [pass, Meeting.Blames] using goal.blames_meet t names
  rw [mentions_cons]
  intro l hl
  have := @met l
  simp only [mentions, List.mem_append] at hl this ⊢
  tauto

/-- What a step may mention and point to, when the places in `known` are mentioned before. -/
def Step.Blames (t : Located Token) (known : List Location) (s : Step) : Prop :=
  match s.outcome with
  | .consumed goals => mentions goals s.names ⊆ t.location :: known
  | .finished => True
  | .failed (.grammar e) => e.location = t.location
  | .failed (.names e) => e.location ∈ t.location :: known
  | .failed (.scan _) => False

theorem Step.Blames.mono {t : Located Token} {known known' : List Location} {s : Step}
    (h : s.Blames t known) (sub : known ⊆ known') : s.Blames t known' := by
  have sub' := List.cons_subset_cons t.location sub
  unfold Blames at *
  split at h
  · exact List.Subset.trans h sub'
  · trivial
  · exact h
  · exact sub' h
  · exact h

theorem step_blames (t : Located Token) (goals : List Goal) (names : Names) :
    (step t goals names).Blames t (mentions goals names) := by
  fun_induction step t goals names with
  | case1 => trivial
  | case2 goal goals names events names' pass more ih =>
    exact Step.Blames.mono (s := more) ih (mentions_pass pass goals)
  | case3 goal goals names events parts take =>
    have met : parts.filterMap Goal.location? ⊆ [t.location] := by
      simpa [take, Meeting.Blames] using goal.blames_meet t names
    rw [mentions_cons]
    intro l hl
    have := @met l
    simp only [mentions, List.filterMap_append, List.mem_append, List.mem_cons, List.not_mem_nil,
      or_false] at hl this ⊢
    tauto
  | case4 goal goals names events e fail =>
    have met := goal.blames_meet t names
    rw [fail] at met
    rw [mentions_cons]
    cases e with
    | scan => exact met
    | grammar => exact met
    | names e =>
      simp only [Step.Blames, Meeting.Blames, List.mem_cons, List.mem_append] at met ⊢
      tauto

/-! ## A whole pass -/

/-- Only the tokens in `past` are mentioned. -/
def OnlyTaken (past : List (Located Token)) (goals : List Goal) (names : Names) : Prop :=
  mentions goals names ⊆ past.map (·.location)

theorem OnlyTaken.take {past : List (Located Token)} {t : Located Token} {events : List Event}
    {goals goals' : List Goal} {names names' : Names} (before : OnlyTaken past goals names)
    (h : step t goals names = ⟨events, names', .consumed goals'⟩) :
    OnlyTaken (past ++ [t]) goals' names' := by
  have blames := step_blames t goals names
  rw [h] at blames
  intro l hl
  rw [List.map_append, List.mem_append]
  rcases List.mem_cons.mp (blames hl) with rfl | hl
  · exact .inr List.mem_cons_self
  · exact .inl (before hl)

theorem onlyTaken_program : OnlyTaken [] Goal.program .empty := List.nil_subset _

/-- A pass over a program is refused at the first token that it does not take, or for a name that
it has taken. -/
theorem Pass.blame {stop : Location} {ts : List (Located Token)} {e : Diagnostic}
    (h : (ofTokens stop ts).result = .error e) :
    ∃ past rest, ts = past ++ rest ∧ past.length = (ofTokens stop ts).taken.length ∧
      match e with
      | .scan _ => False
      | .grammar e => e.location = (rest.headD (endToken stop)).location
      | .names e =>
        e.location ∈ (rest.headD (endToken stop)).location :: past.map (·.location) := by
  obtain ⟨past, rest, goals, names, eq, takes, last⟩ :=
    exists_takes stop ts Goal.program .empty
  refine ⟨past, rest, eq, takes.length_eq.symm, ?_⟩
  have blames := step_blames (rest.headD (endToken stop)) goals names
  rw [last, ← ofTokens, h] at blames
  cases e with
  | scan => exact blames
  | grammar => exact blames
  | names =>
    have only_taken : OnlyTaken past goals names := takes.preserves _ onlyTaken_program .take
    exact List.cons_subset_cons _ only_taken blames

end MiniBasic
