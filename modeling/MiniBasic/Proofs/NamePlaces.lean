import MiniBasic.Proofs.Acceptance

/-!
# Where names stand

The names of a program are known by what has been read of them. Here they are followed together
with their places: every jump that is remembered, and every name that is refused, is an identifier
among the tokens (`IdentifierAt`), with the keyword in front of it that says what it is there for.
`Traced` is what each token preserves.
-/

namespace MiniBasic

/-- `x` is an identifier among the tokens `ts`, behind the tokens `before`, and is there for
`use`. -/
def IdentifierAt (ts before : List (Located Token)) (use : Option NameUse) (x : Located String) :
    Prop :=
  ∃ t after, ts = before ++ t :: after ∧ t.kind = .ident ∧ x = t.replace t.text ∧
    NameUse.after? (lastKind .newline before) = use

theorem IdentifierAt.append {ts before : List (Located Token)} {use : Option NameUse}
    {x : Located String} (h : IdentifierAt ts before use x) (us : List (Located Token)) :
    IdentifierAt (ts ++ us) before use x := by
  obtain ⟨t, after, rfl, ident, name, use_eq⟩ := h
  exact ⟨t, after ++ us, by simp, ident, name, use_eq⟩

/-- The error is right about the name at `l` among the tokens `ts`, which are all tokens of the
program if `complete`. -/
def NameError.Accurate (ts : List (Located Token)) (complete : Prop) (l : Location) :
    NameError → Prop
  | duplicateLabel name =>
    ∃ before, IdentifierAt ts before (some .label) ⟨l, name⟩ ∧ name ∈ placed (occurrences before)
  | unknownLabel name =>
    ∃ before, IdentifierAt ts before (some .target) ⟨l, name⟩ ∧
      complete ∧ name ∉ placed (occurrences ts)
  | undeclaredVariable name =>
    ∃ before, IdentifierAt ts before none ⟨l, name⟩ ∧ name ∉ introduced (occurrences before)
  | reservedName name =>
    ∃ before use, IdentifierAt ts before (some use) ⟨l, name⟩ ∧
      match use with
      | .label => name ∈ targetKeywords
      | .target => False
      | .assigned | .input => name ∈ targetKeywords ++ targetGlobals

/-- The name that the error is about. -/
def NameError.name : NameError → String
  | duplicateLabel name | unknownLabel name | undeclaredVariable name | reservedName name => name

theorem NameError.Accurate.mem {ts : List (Located Token)} {complete : Prop} {l : Location}
    {e : NameError} (h : e.Accurate ts complete l) : ⟨l, ⟨.ident, e.name⟩⟩ ∈ ts := by
  have mem {before : List (Located Token)} {use : Option NameUse} {x : Located String}
      (here : IdentifierAt ts before use x) : ⟨x.location, ⟨.ident, x.value⟩⟩ ∈ ts := by
    obtain ⟨⟨l, k, text⟩, after, rfl, rfl, rfl, -⟩ := here
    simp [Located.replace]
  cases e with
  | duplicateLabel | unknownLabel | undeclaredVariable =>
    obtain ⟨before, here, -⟩ := h
    exact mem here
  | reservedName name =>
    obtain ⟨before, use, here, -⟩ := h
    exact mem here

theorem NameError.Accurate.mono {ts : List (Located Token)} {p q : Prop} {l : Location}
    {e : NameError} (h : e.Accurate ts p l) (imp : p → q) : e.Accurate ts q l := by
  cases e with
  | unknownLabel name =>
    obtain ⟨before, here, complete, missing⟩ := h
    exact ⟨before, here, imp complete, missing⟩
  | _ => exact h

namespace Names
variable {names : Names} {x : Located String} {e : Located NameError}

theorem missing_of_checkJumps_error (h : names.checkJumps = .error e) :
    ∃ jump ∈ names.jumps, jump.value ∉ names.labels ∧
      e = jump.replace (.unknownLabel jump.value) := by
  unfold checkJumps at h
  split at h
  next jump found =>
    cases h
    exact ⟨jump, List.mem_of_find?_eq_some found, by simpa using List.find?_some found, rfl⟩
  next => cases h

end Names

/-- The jumps are identifiers among the tokens `past`. -/
def JumpsAt (past : List (Located Token)) (names : Names) : Prop :=
  ∀ x ∈ names.jumps, ∃ before, IdentifierAt past before (some .target) x

theorem JumpsAt.append {past : List (Located Token)} {names : Names} (h : JumpsAt past names)
    (us : List (Located Token)) : JumpsAt (past ++ us) names := by
  intro x mem
  obtain ⟨before, here⟩ := h x mem
  exact ⟨before, here.append us⟩

/-- The names in the tokens `past` are known, together with their places, except for one that was
read last and that the first goal looks at. -/
inductive Traced : List (Located Token) → List Goal → Names → Prop
  | known {past : List (Located Token)} {front : List Goal} {names : Names}
    (leaves : Leaves (lastKind .newline past) front) (tracks : Tracks (occurrences past) names)
    (jumps : JumpsAt past names) : Traced past (front ++ Goal.ending) names
  | waiting {before : List (Located Token)} {t : Located Token} {use : NameUse} {front : List Goal}
    {names : Names} (ident : t.kind = .ident)
    (after : NameUse.after? (lastKind .newline before) = some use) (plain : ∀ g ∈ front, g.Plain)
    (tracks : Tracks (occurrences before) names) (jumps : JumpsAt before names) :
    Traced (before ++ [t]) (.register use (t.replace t.text) :: (front ++ Goal.ending)) names

section
variable {past before : List (Located Token)} {front goals goals' : List Goal}
  {names names' : Names} {t : Located Token} {events : List Event} {use : NameUse}

theorem traced_program : Traced [] Goal.program .empty := by
  have front : ∀ g ∈ Goal.program.take 4, g.Plain := by simp [Goal.program, Goal.Plain, Goal.line]
  exact .known (.plain rfl front) tracks_empty (List.forall_mem_nil _)

/-- A name that was read last is looked at. -/
theorem JumpsAt.register (h : JumpsAt before names) (ident : t.kind = .ident)
    (after : NameUse.after? (lastKind .newline before) = some use) {u : Located Token}
    (pass : (Goal.register use (t.replace t.text)).meet u names = .pass events names') :
    JumpsAt (before ++ [t]) names' := by
  have here : IdentifierAt (before ++ [t]) before (some use) (t.replace t.text) :=
    ⟨t, [], rfl, ident, rfl, after⟩
  have same (jumps_eq : names'.jumps = names.jumps) : JumpsAt (before ++ [t]) names' := by
    intro x mem
    exact h.append [t] x (jumps_eq ▸ mem)
  cases use with
  | label =>
    simp only [Goal.register, Goal.meet] at pass
    split at pass
    next => cases pass
    next outcome =>
      cases pass
      exact same (Names.jumps_of_placeLabel outcome)
  | assigned | input =>
    simp only [Goal.register, Goal.meet] at pass
    split at pass
    next => cases pass
    next outcome =>
      cases pass
      exact same (Names.jumps_of_introduce outcome)
    next outcome =>
      cases pass
      exact same (Names.jumps_of_introduce outcome)
  | target =>
    cases pass
    unfold Names.jumpTo
    split
    next => exact h.append [t]
    next =>
      intro x mem
      rcases List.mem_append.mp mem with mem | mem
      · exact h.append [t] x mem
      · obtain rfl := List.mem_singleton.mp mem
        exact ⟨before, here⟩

theorem Traced.of_plain (tracks : Tracks (occurrences past) names) (jumps : JumpsAt past names)
    (after : NameUse.after? (lastKind .newline past) = none) (plain : ∀ g ∈ front, g.Plain)
    (taken : (step t (front ++ Goal.ending) names).outcome = .consumed goals') :
    Traced (past ++ [t]) goals' (step t (front ++ Goal.ending) names).names := by
  have plain := step_plain plain t names
  simp only [Step.Plain, taken] at plain
  obtain ⟨names_eq, known, front', rfl, leaves⟩ := plain
  rw [names_eq]
  refine .known (by simpa using leaves) ?_ (jumps.append [t])
  by_cases ident : t.kind = .ident
  · rw [occurrences_append_ident ident, after]
    exact tracks.operand (known ident)
  · rwa [occurrences_append_other ident]

theorem Traced.take (h : Traced past goals names)
    (taken : step t goals names = ⟨events, names', .consumed goals'⟩) :
    Traced (past ++ [t]) goals' names' := by
  cases h with
  | known leaves tracks jumps =>
    cases leaves with
    | plain after plain =>
      have traced := Traced.of_plain tracks jumps after plain (congrArg Step.outcome taken)
      rwa [taken] at traced
    | @name use front after plain =>
      rw [List.cons_append] at taken
      by_cases ident : t.kind = .ident
      · have take : (Goal.name use).meet t names =
            .take [] (Goal.ofName use (t.replace t.text)) := by simp [Goal.meet, ident]
        obtain ⟨parts, parts_eq, parts_plain⟩ := plain_ofName use (t.replace t.text)
        rw [step_of_take take, parts_eq, List.cons_append, ← List.append_assoc] at taken
        cases taken
        exact .waiting ident after (List.forall_mem_append.mpr ⟨parts_plain, plain⟩) tracks jumps
      · have fail : (Goal.name use).meet t names =
            .refuse [] t (.unexpectedToken .ident t.kind) := by simp [Goal.meet, ident]
        rw [step_of_fail fail] at taken
        cases taken
  | @waiting before u use front _ ident after plain tracks jumps =>
    have registered := tracks.register use (u.replace u.text) t
    cases meet : (Goal.register use (u.replace u.text)).meet t names with
    | pass events names'' =>
      rw [meet] at registered
      rw [step_of_pass meet] at taken
      have tracks' : Tracks (occurrences (before ++ [u])) names'' := by
        rwa [occurrences_append_ident ident, after]
      have traced := Traced.of_plain tracks' (jumps.register ident after meet)
        (by simp [ident, NameUse.after?]) plain (congrArg Step.outcome taken)
      rwa [show (step t (front ++ Goal.ending) names'').names = names' from
        congrArg Step.names taken] at traced
    | take events parts =>
      rw [meet] at registered
      exact registered.elim
    | fail events e =>
      rw [step_of_fail meet] at taken
      cases taken

/-- A name that was read last is refused. -/
theorem Tracks.accurate_register {u : Located Token} {e : Diagnostic}
    (tracks : Tracks (occurrences before) names) (ident : t.kind = .ident)
    (after : NameUse.after? (lastKind .newline before) = some use)
    (fail : (Goal.register use (t.replace t.text)).meet u names = .fail events e)
    (rest : List (Located Token)) (complete : Prop) :
    ∃ ne, e = .names ne ∧ ne.value.Accurate (before ++ [t] ++ rest) complete ne.location := by
  have here : IdentifierAt (before ++ [t] ++ rest) before (some use) (t.replace t.text) :=
    ⟨t, rest, by simp, ident, rfl, after⟩
  cases use with
  | target => cases fail
  | label =>
    simp only [Goal.register, Goal.meet] at fail
    split at fail
    next ne error =>
      cases fail
      rcases Names.placeLabel_eq_error_iff.mp error with ⟨reserved, rfl⟩ | ⟨_, placed, rfl⟩
      · exact ⟨_, rfl, before, .label, here, reserved⟩
      · exact ⟨_, rfl, before, here, (tracks.labels _).mp placed⟩
    next => cases fail
  | assigned | input =>
    simp only [Goal.register, Goal.meet] at fail
    split at fail
    next ne error =>
      cases fail
      obtain ⟨reserved, rfl⟩ := Names.introduce_eq_error_iff.mp error
      exact ⟨_, rfl, before, _, here, reserved⟩
    next => cases fail
    next => cases fail

end

end MiniBasic
