import MiniBasic.Proofs.NameTracking
import MiniBasic.Proofs.ViablePrefix

/-!
# Accepted sources

A source is accepted if and only if it can be scanned, the grammar derives its tokens and its names
observe the rules. The grammar's part is `Pass.verdict`; this module adds what a pass finds out
about the names (`Pass.verdict_names`).

Between two tokens the first goal may be one for a name, or look at the name that was just read. All
goals behind it are plain, up to the four that a program ends with.
-/

namespace MiniBasic

/-! ## Plain goals -/

namespace Goal

/-- The goal leaves the names alone, and takes an identifier only as an operand. -/
def Plain : Goal → Prop
  | introduce _ | placeLabel _ | jumpTo _ | checkJumps | name _ | statements => False
  | keyword k | block k | blockRest k => ofKeyword? k = none
  | _ => True

/-- The goals that a program ends with. -/
def ending : List Goal := [statements, checkJumps, line "return 0;", line "\x7d"]

end Goal

/-- The goals that a token of kind `k` leaves: a name comes next only behind the keywords that say
what it is there for. -/
inductive Leaves (k : Kind) : List Goal → Prop
  | name {use : NameUse} {goals : List Goal} (after : NameUse.after? k = some use)
    (plain : ∀ g ∈ goals, g.Plain) : Leaves k (.name use :: goals)
  | plain {goals : List Goal} (after : NameUse.after? k = none) (plain : ∀ g ∈ goals, g.Plain) :
    Leaves k goals

theorem Leaves.append {k : Kind} {parts goals : List Goal} (h : Leaves k parts)
    (plain : ∀ g ∈ goals, g.Plain) : Leaves k (parts ++ goals) := by
  cases h with
  | name after plain' => exact .name after (List.forall_mem_append.mpr ⟨plain', plain⟩)
  | plain after plain' => exact .plain after (List.forall_mem_append.mpr ⟨plain', plain⟩)

theorem NameUse.after?_keyword_of_none {k : Keyword} (h : Goal.ofKeyword? k = none) :
    NameUse.after? (.keyword k) = none := by
  cases k <;> first | rfl | cases h

theorem leaves_ofKeyword {k : Keyword} {parts : List Goal} (h : Goal.ofKeyword? k = some parts) :
    Leaves (.keyword k) parts := by
  have lineEnd : ∀ g ∈ [Goal.lineEnd], g.Plain := by simp [Goal.Plain]
  cases k <;> simp only [Goal.ofKeyword?, reduceCtorEq, Option.some.injEq] at h <;> subst h
  case label | goto | let_ | input => exact .name rfl lineEnd
  all_goals exact .plain rfl (by simp [Goal.Plain, Goal.fragment, Goal.line, Goal.ofKeyword?])

theorem plain_ofName (use : NameUse) (x : Located String) :
    ∃ goals, Goal.ofName use x = .register use x :: goals ∧ ∀ g ∈ goals, g.Plain := by
  cases use <;> exact ⟨_, rfl, by simp [Goal.Plain, Goal.fragment, Goal.line]⟩

/-- How a goal is met that is plain. -/
def Meeting.Plain (t : Located Token) (names : Names) : Meeting → Prop
  | pass _ names' => names' = names
  | take _ parts => Leaves t.kind parts ∧ (t.kind = .ident → t.text ∈ names.vars)
  | fail _ (.names _) => t.kind = .ident ∧ t.text ∉ names.vars
  | fail _ _ => True

namespace Meeting
variable {t : Located Token} {names : Names} {rest : List Goal} {m : Meeting}

theorem Plain.after (e : Event) (h : m.Plain t names) : (m.after e).Plain t names := by
  match m with
  | pass _ _ => exact h
  | take _ _ => exact h
  | fail _ (.names _) => exact h
  | fail _ (.grammar _) => trivial
  | fail _ (.scan _) => trivial

theorem Operand.plain (h : Operand t names rest m) (hrest : ∀ g ∈ rest, g.Plain) :
    m.Plain t names := by
  cases h with
  | number kind => exact ⟨.plain (by rw [kind]; rfl) hrest, by simp [kind]⟩
  | variable_ kind known =>
    exact ⟨.plain (by rw [kind]; rfl) hrest, fun _ => by simpa [Names.hasVariable] using known⟩
  | unknown kind unknown => exact ⟨kind, by simpa [Names.hasVariable] using unknown⟩
  | other => trivial

theorem Signed.plain (h : Signed t names rest m) (hrest : ∀ g ∈ rest, g.Plain) :
    m.Plain t names := by
  cases h with
  | sign kind =>
    have primary : ∀ g ∈ Goal.primary :: rest, g.Plain := List.forall_mem_cons.mpr ⟨trivial, hrest⟩
    rcases kind with kind | kind <;> exact ⟨.plain (by rw [kind]; rfl) primary, by simp [kind]⟩
  | operand _ h => exact h.plain hrest

theorem Opening.plain (h : Opening t rest m) (hrest : ∀ g ∈ rest, g.Plain) : m.Plain t names := by
  cases h with
  | keyword kind parts_eq =>
    refine ⟨?_, by simp [kind]⟩
    rw [kind]
    exact (leaves_ofKeyword parts_eq).append hrest
  | other => trivial

end Meeting

theorem Meeting.plain_take {t : Located Token} {names : Names} {events : List Event}
    {parts : List Goal} (after : NameUse.after? t.kind = none) (not_ident : t.kind ≠ .ident)
    (plain : ∀ g ∈ parts, g.Plain) : (take events parts).Plain t names :=
  ⟨.plain after plain, fun ident => absurd ident not_ident⟩

theorem Goal.Plain.meet {goal : Goal} (h : goal.Plain) (t : Located Token) (names : Names) :
    (goal.meet t names).Plain t names := by
  have relation (own : t.kind.isRelation) : NameUse.after? t.kind = none ∧ t.kind ≠ .ident := by
    cases kind : t.kind <;> simp_all [Kind.isRelation, NameUse.after?]
  cases goal with
  | introduce | placeLabel | jumpTo | checkJumps | name | statements => exact h.elim
  | event => rfl
  | keyword k =>
    simp only [Goal.meet]
    split
    next kind =>
      refine Meeting.plain_take ?_ (by simp [kind]) (by simp)
      rw [kind]
      exact NameUse.after?_keyword_of_none h
    next => trivial
  | assign | lineEnd | newlines =>
    simp only [Goal.meet]
    split
    next kind =>
      exact Meeting.plain_take (by simp [kind, NameUse.after?]) (by simp [kind]) (by simp [Plain])
    next => trivial
  | block closing =>
    simp only [Goal.meet]
    split
    next => trivial
    next => exact (Meeting.opening_statement t _).plain (by simpa [Plain] using h)
  | blockRest closing =>
    simp only [Goal.meet]
    split
    next kind =>
      refine Meeting.plain_take ?_ (by simp [kind]) (by simp)
      rw [kind]
      exact NameUse.after?_keyword_of_none h
    next => exact (Meeting.opening_statement t _).plain (by simpa [Plain] using h)
  | printed =>
    simp only [Goal.meet]
    split
    next kind =>
      exact Meeting.plain_take (by simp [kind, NameUse.after?]) (by simp [kind]) (by simp)
    next => exact ((Meeting.signed_expression t names _).plain (by simp [Plain, line])).after _
  | comparison => exact ((Meeting.signed_expression t names _).plain (by simp [Plain])).after _
  | relation | relations =>
    simp only [Goal.meet]
    split
    next own => exact Meeting.plain_take (relation own).1 (relation own).2 (by simp [Plain])
    next => trivial
  | sums | factors =>
    simp only [Goal.meet]
    split
    next kind =>
      rcases kind with kind | kind <;>
        exact Meeting.plain_take (by simp [kind, NameUse.after?]) (by simp [kind]) (by simp [Plain])
    next => trivial
  | expression => exact (Meeting.signed_expression t names []).plain (by simp [Plain])
  | term => exact (Meeting.signed_term t names []).plain (by simp [Plain])
  | unary => exact (Meeting.signed_unary t names []).plain (by simp)
  | primary => exact (Meeting.operand_primary t names []).plain (by simp)

/-! ## One step -/

/-- What a step does from plain goals on. -/
def Step.Plain (t : Located Token) (names : Names) (s : Step) : Prop :=
  match s.outcome with
  | .consumed goals => s.names = names ∧ (t.kind = .ident → t.text ∈ names.vars) ∧
    ∃ front, goals = front ++ Goal.ending ∧ Leaves t.kind front
  | .finished => names.jumps.map (·.value) ⊆ names.labels
  | .failed (.names _) => t.kind = .ident ∧ t.text ∉ names.vars ∨
    t.kind = .eof ∧ ¬names.jumps.map (·.value) ⊆ names.labels
  | .failed _ => True

theorem step_ending (t : Located Token) (names : Names) :
    (step t Goal.ending names).Plain t names := by
  by_cases eof : t.kind = .eof
  · have pass : Goal.statements.meet t names = .pass [] names := by simp [Goal.meet, eof]
    rw [Goal.ending, step_of_pass pass]
    cases check : names.checkJumps with
    | ok =>
      have pass : Goal.checkJumps.meet t names = .pass [] names := by simp [Goal.meet, check]
      rw [step_of_pass pass]
      exact Names.checkJumps_eq_ok_iff.mp check
    | error e =>
      have fail : Goal.checkJumps.meet t names = .fail [] (.names e) := by simp [Goal.meet, check]
      rw [step_of_fail fail]
      refine .inr ⟨eof, fun placed => ?_⟩
      simp [Names.checkJumps_eq_ok_iff.mpr placed] at check
  · have meet : Goal.statements.meet t names = Meeting.statement t [.statements] := by
      simp [Goal.meet, eof]
    have opening := Meeting.opening_statement t [.statements]
    rw [← meet] at opening
    generalize met : Goal.statements.meet t names = m at opening
    cases opening with
    | @keyword events k parts kind parts_eq =>
      rw [Goal.ending, step_of_take met]
      refine ⟨rfl, by simp [kind], parts, by simp [Goal.ending], ?_⟩
      rw [kind]
      exact leaves_ofKeyword parts_eq
    | other =>
      rw [Goal.ending, step_of_fail met]
      trivial

theorem step_plain {front : List Goal} (plain : ∀ g ∈ front, g.Plain) (t : Located Token)
    (names : Names) : (step t (front ++ Goal.ending) names).Plain t names := by
  induction front with
  | nil => exact step_ending t names
  | cons goal front ih =>
    obtain ⟨goal_plain, front_plain⟩ := List.forall_mem_cons.mp plain
    have met := goal_plain.meet t names
    rw [List.cons_append]
    cases meet : goal.meet t names with
    | pass events names' =>
      rw [meet] at met
      obtain rfl : names' = names := met
      rw [step_of_pass meet]
      exact ih front_plain
    | take events parts =>
      rw [meet] at met
      rw [step_of_take meet, ← List.append_assoc]
      exact ⟨rfl, met.2, _, rfl, met.1.append front_plain⟩
    | fail events e =>
      rw [meet] at met
      rw [step_of_fail meet]
      cases e with
      | names e => exact .inl met
      | grammar => trivial
      | scan => trivial

/-- The names in the tokens `past` are known, except for one that the first goal looks at. -/
inductive Named (past : List (Located Token)) : List Goal → Names → Prop
  | known {front : List Goal} {names : Names} (leaves : Leaves (lastKind .newline past) front)
    (tracks : Tracks (occurrences past) names) : Named past (front ++ Goal.ending) names
  | waiting {os : List Occurrence} {use : NameUse} {x : Located String} {front : List Goal}
    {names : Names} (occurrences_eq : occurrences past = os ++ [⟨some use, x.value⟩])
    (after : NameUse.after? (lastKind .newline past) = none) (plain : ∀ g ∈ front, g.Plain)
    (tracks : Tracks os names) : Named past (.register use x :: (front ++ Goal.ending)) names

/-- What a step finds out about the names in the tokens `past`, behind which `t` comes next. -/
def Step.Named (past : List (Located Token)) (t : Located Token) (s : Step) : Prop :=
  match s.outcome with
  | .consumed goals => MiniBasic.Named (past ++ [t]) goals s.names
  | .finished => StaticRules (occurrences past)
  | .failed (.names _) => if t.kind = .eof then ¬StaticRules (occurrences past)
    else ¬NamesAllowed (occurrences (past ++ [t]))
  | .failed _ => True

section
variable {past : List (Located Token)} {front : List Goal} {names : Names}

theorem Tracks.step_plain (tracks : Tracks (occurrences past) names)
    (after : NameUse.after? (lastKind .newline past) = none) (plain : ∀ g ∈ front, g.Plain)
    (t : Located Token) : (step t (front ++ Goal.ending) names).Named past t := by
  have plain := MiniBasic.step_plain plain t names
  unfold Step.Plain at plain
  unfold Step.Named
  split at plain
  next goals taken =>
    obtain ⟨names_eq, known, front', rfl, leaves⟩ := plain
    rw [names_eq]
    refine .known (by simpa using leaves) ?_
    by_cases ident : t.kind = .ident
    · rw [occurrences_append_ident ident, after]
      exact tracks.operand (known ident)
    · rwa [occurrences_append_other ident]
  next finished =>
    refine ⟨tracks.allowed, fun x mem => ?_⟩
    exact (tracks.labels x).mp (plain ((tracks.jumps x).mpr mem))
  next e failed =>
    rcases plain with ⟨ident, unknown⟩ | ⟨eof, missing⟩
    · have ne_eof : t.kind ≠ .eof := by simp [ident]
      simp only [ne_eof, if_false, occurrences_append_ident ident, after]
      intro allowed
      have introduced := (namesAllowed_append_singleton_iff.mp allowed).2.operand_introduced rfl
      exact unknown ((tracks.vars _).mpr introduced)
    · simp only [eof, if_true]
      refine fun rules => missing fun x mem => ?_
      exact (tracks.labels x).mpr (rules.targets_placed ((tracks.jumps x).mp mem))
  next => trivial

theorem step_named {goals : List Goal} (h : Named past goals names) (t : Located Token) :
    (step t goals names).Named past t := by
  cases h with
  | known leaves tracks =>
    cases leaves with
    | plain after plain => exact tracks.step_plain after plain t
    | @name use front after plain =>
      rw [List.cons_append]
      by_cases ident : t.kind = .ident
      · have take : (Goal.name use).meet t names =
            .take [] (Goal.ofName use (t.replace t.text)) := by simp [Goal.meet, ident]
        obtain ⟨parts, parts_eq, parts_plain⟩ := plain_ofName use (t.replace t.text)
        rw [step_of_take take, parts_eq, List.cons_append, ← List.append_assoc]
        refine .waiting ?_ ?_ (List.forall_mem_append.mpr ⟨parts_plain, plain⟩) tracks
        · rw [occurrences_append_ident ident, after]
          rfl
        · simp [ident, NameUse.after?]
      · have fail : (Goal.name use).meet t names =
            .refuse [] t (.unexpectedToken .ident t.kind) := by simp [Goal.meet, ident]
        rw [step_of_fail fail]
        trivial
  | @waiting os use x front _ occurrences_eq after plain tracks =>
    have registered := tracks.register use x t
    cases meet : (Goal.register use x).meet t names with
    | pass events names' =>
      rw [meet, ← occurrences_eq] at registered
      rw [step_of_pass meet]
      exact registered.step_plain after plain t
    | take events parts =>
      rw [meet] at registered
      exact registered.elim
    | fail events e =>
      rw [meet, ← occurrences_eq] at registered
      rw [step_of_fail meet]
      cases e with
      | names e =>
        simp only [Step.Named]
        split
        · intro rules
          exact registered rules.toNamesAllowed
        · rw [occurrences_append]
          exact fun allowed => registered allowed.of_append
      | grammar => trivial
      | scan => trivial

end

/-! ## A whole pass -/

theorem named_program : Named [] Goal.program .empty := by
  have front : ∀ g ∈ Goal.program.take 4, g.Plain := by simp [Goal.program, Goal.Plain, Goal.line]
  exact .known (.plain rfl front) tracks_empty

theorem Named.take {past : List (Located Token)} {t : Located Token} {events : List Event}
    {goals goals' : List Goal} {names names' : Names} (before : Named past goals names)
    (h : step t goals names = ⟨events, names', .consumed goals'⟩) :
    Named (past ++ [t]) goals' names' := by
  have named := step_named before t
  rwa [h] at named

/-- How the result of a pass over a program bears on the rules for names. -/
theorem Pass.verdict_names {ts : List (Located Token)} (stop : Location)
    (ne_eof : ∀ t ∈ ts, t.kind ≠ .eof) :
    match (ofTokens stop ts).result with
    | .ok () => StaticRules (occurrences ts)
    | .error (.names _) => ¬StaticRules (occurrences ts)
    | .error _ => True := by
  have all_taken := length_taken_of_ok stop ne_eof
  obtain ⟨past, rest, goals, names, rfl, takes, last⟩ :=
    exists_takes stop ts Goal.program .empty
  have named : Named past goals names := takes.preserves Named named_program .take
  have named := step_named named (rest.headD (endToken stop))
  rw [last] at named
  rw [← ofTokens] at takes named
  revert all_taken named
  rcases (ofTokens stop (past ++ rest)).result with (_ | e | e) | _
  · intro _ _
    exact trivial
  · intro _ _
    exact trivial
  · intro _ wrong
    simp only [Step.Named, lastOutcome] at wrong
    cases rest with
    | nil =>
      simpa [endToken] using wrong
    | cons t rest =>
      have not_eof : t.kind ≠ .eof := ne_eof t (by simp)
      simp only [List.headD_cons, not_eof, if_false] at wrong
      rw [List.append_cons, occurrences_append]
      exact fun rules => wrong rules.toNamesAllowed.of_append
  · intro all_taken rules
    obtain rfl : rest = [] := by simpa [takes.length_eq] using all_taken rfl
    rw [List.append_nil]
    exact rules

/-- A pass over a program ends well if and only if the grammar and the rules for names allow it. -/
theorem Pass.result_eq_ok_iff {ts : List (Located Token)} (stop : Location)
    (ne_eof : ∀ t ∈ ts, t.kind ≠ .eof) :
    (ofTokens stop ts).result = .ok () ↔ IsProgram ts ∧ StaticRules (occurrences ts) := by
  have grammar := verdict stop ne_eof
  have names := verdict_names stop ne_eof
  cases result : (ofTokens stop ts).result with
  | ok =>
    rw [result] at grammar names
    exact iff_of_true rfl ⟨grammar, names⟩
  | error d =>
    rw [result] at grammar names
    refine iff_of_false nofun fun ⟨program, rules⟩ => ?_
    match d, grammar, names with
    | .grammar e, ⟨k, misplaced, _⟩, _ => exact misplaced.not_isProgram program
    | .names e, _, wrong => exact wrong rules
    | .scan e, wrong, _ => exact wrong

/-- A source compiles if and only if it can be scanned, the grammar derives its tokens and its names
observe the rules. -/
theorem compile_ok_iff (source : String) :
    (∃ code, compile source = .ok code) ↔ ∃ ts, tokensOf source = .ok ts ∧
      (Phrase.rule .program).Derives (ts.map (·.kind)) ∧ StaticRules (occurrences ts) := by
  cases scanned : tokensOf source with
  | error fault =>
    obtain ⟨d, error⟩ := exists_error_of_fault scanned
    simp [error]
  | ok ts =>
    have ne_eof := (reads_of_tokensOf_ok scanned).ne_eof
    have pass := Pass.result_eq_ok_iff (endLocation source) ne_eof
    have same := compile_eq_error_iff_ofTokens scanned
    constructor
    · rintro ⟨code, ok⟩
      refine ⟨ts, rfl, pass.mp ?_⟩
      cases result : (Pass.ofTokens (endLocation source) ts).result with
      | ok => rfl
      | error d => simp [(same d).mpr result] at ok
    · rintro ⟨_, ⟨⟩, allowed⟩
      cases result : compile source with
      | ok code => exact ⟨code, rfl⟩
      | error d =>
        have refused := (same d).mp result
        simp [pass.mpr allowed] at refused

end MiniBasic
