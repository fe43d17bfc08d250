import MiniBasic.Proofs.Blame
import MiniBasic.Proofs.Fits

/-!
# Goals predict

One token tells which of the goals takes it: the goals that follow a goal cannot start with a token
that the goal would take itself. This is what `Predictive` says of a list of goals. Every step keeps
it, and the goals that a step leaves stand for just what may follow the token (`step_predicts`).
-/

namespace MiniBasic

/-! ## One token tells -/

/-- The goal could take one more token of this kind at its end. -/
def Goal.Extends (k : Kind) : Goal → Prop
  | lineEnd | newlines => k = .newline
  | factors | term => k = .times ∨ k = .divide
  | sums | expression | printed | name .assigned =>
    k = .times ∨ k = .divide ∨ k = .plus ∨ k = .minus
  | relations | relation | comparison =>
    k = .times ∨ k = .divide ∨ k = .plus ∨ k = .minus ∨ k.isRelation
  | statements => True
  | _ => False

/-- The keyword that closes a block does not start a statement. -/
def Goal.Closes : Goal → Prop
  | block closing | blockRest closing => ofKeyword? closing = none
  | _ => True

/-- The goals do not start with what the goal before them could go on with. -/
def Apart (goal : Goal) (goals : List Goal) : Prop :=
  ∀ k ks, goal.Extends k → ¬Fits goals (k :: ks)

inductive Predictive : List Goal → Prop
  | nil : Predictive []
  | cons {goal : Goal} {goals : List Goal} (apart : Apart goal goals) (closes : goal.Closes)
    (rest : Predictive goals) : Predictive (goal :: goals)

/-- A goal that never takes one more token is apart from whatever follows it. -/
theorem Predictive.fixed {goal : Goal} {goals : List Goal} (fixed : ∀ k, ¬goal.Extends k)
    (closes : goal.Closes) (rest : Predictive goals) : Predictive (goal :: goals) :=
  .cons (fun k _ extends_ => absurd extends_ (fixed k)) closes rest

/-- No statement and no block starts with a blank line, and nothing else follows a line. -/
def NoBlank (goals : List Goal) : Prop := ∀ ks, ¬Fits goals (.newline :: ks)

theorem Predictive.lineEnd {goals : List Goal} (h : Predictive goals) (no_blank : NoBlank goals) :
    Predictive (.lineEnd :: goals) := by
  refine .cons (fun k ks extends_ => ?_) trivial h
  obtain rfl : k = .newline := extends_
  exact no_blank ks

theorem not_fits_lineEnd {goals : List Goal} {k : Kind} {ks : List Kind} (h : k ≠ .newline) :
    ¬Fits (.lineEnd :: goals) (k :: ks) := by
  simp [fits_lineEnd, h]

theorem not_fits_keyword {goals : List Goal} {word : Keyword} {k : Kind} {ks : List Kind}
    (h : k ≠ .keyword word) : ¬Fits (.keyword word :: goals) (k :: ks) := by
  simp [fits_keyword, h]

theorem noBlank_block {closing : Keyword} {goals : List Goal} :
    NoBlank (.block closing :: goals) := by
  simp [NoBlank, fits_block, before_statement_cons]

/-- The goals of a statement with a block. -/
private theorem predictive_block {open_ closing : Keyword} {first second third : Event}
    {goals : List Goal} (closes : Goal.ofKeyword? closing = none) (h : Predictive goals)
    (no_blank : NoBlank goals) :
    Predictive (.event first :: .comparison :: .keyword open_ :: .lineEnd :: .event second ::
      .block closing :: .event third :: .lineEnd :: goals) := by
  have after : Predictive (.event third :: .lineEnd :: goals) :=
    .fixed (fun _ => id) trivial (h.lineEnd no_blank)
  have block : Predictive (.lineEnd :: .event second :: .block closing :: .event third ::
      .lineEnd :: goals) := by
    refine .lineEnd (.fixed (fun _ => id) trivial (.fixed (fun _ => id) closes after)) fun ks => ?_
    rw [fits_of_phrase_eq_empty rfl]
    exact noBlank_block ks
  have comparison : Predictive (.comparison :: .keyword open_ :: .lineEnd :: .event second ::
      .block closing :: .event third :: .lineEnd :: goals) := by
    refine .cons (fun k ks extends_ => ?_) trivial (.fixed (fun _ => id) trivial block)
    apply not_fits_keyword
    rintro rfl
    simp [Goal.Extends, Kind.isRelation] at extends_
  exact .fixed (fun _ => id) trivial comparison

theorem predictive_parts {k : Keyword} {parts goals : List Goal}
    (parts_eq : Goal.ofKeyword? k = some parts) (h : Predictive goals)
    (no_blank : NoBlank goals) : Predictive (parts ++ goals) := by
  have tail := h.lineEnd no_blank
  cases k <;> simp only [Goal.ofKeyword?, reduceCtorEq, Option.some.injEq] at parts_eq <;>
    subst parts_eq
  case if_ => exact predictive_block rfl h no_blank
  case while_ => exact predictive_block rfl h no_blank
  case print =>
    refine .cons (fun k ks extends_ => not_fits_lineEnd ?_) trivial tail
    rintro rfl
    simp [Goal.Extends] at extends_
  case let_ =>
    refine .cons (fun k ks extends_ => not_fits_lineEnd ?_) trivial tail
    rintro rfl
    simp [Goal.Extends] at extends_
  all_goals exact .fixed (fun _ => id) trivial tail

theorem forall_headD_iff {k : Kind} {p : List Kind → Prop} :
    (∀ ks, ks.headD .eof = k → p ks) ↔ (k = .eof → p []) ∧ ∀ ks, p (k :: ks) := by
  constructor
  · intro h
    exact ⟨fun eof => h [] eof.symm, fun ks => h (k :: ks) rfl⟩
  · rintro ⟨nil, cons⟩ (_ | ⟨k', ks⟩) hks
    · exact nil hks.symm
    · obtain rfl : k' = k := hks
      exact cons ks

/-- What is read as `read` goes on as the goals do, as far as the token `t` tells. -/
def Meeting.Predicts (t : Located Token) (read : List Kind → Prop) (known : List Location)
    (goals : List Goal) : Meeting → Prop
  | pass _ _ => ∀ ks, ks.headD .eof = t.kind → (read ks ↔ Fits goals ks)
  | take _ parts =>
    Predictive (parts ++ goals) ∧ ∀ ks, read (t.kind :: ks) ↔ Fits (parts ++ goals) ks
  | fail _ (.grammar _) => ∀ ks, ks.headD .eof = t.kind → ¬read ks
  | fail _ (.names e) => e.location ∈ known ∨ t.kind ≠ .eof ∧ ∃ ks, read (t.kind :: ks)
  | fail _ (.scan _) => True

namespace Meeting
variable {t : Located Token} {names : Names} {known : List Location} {goals rest : List Goal}
  {m : Meeting}

theorem Predicts.congr {read read' : List Kind → Prop} (h : m.Predicts t read known goals)
    (same : ∀ ks, ks.headD .eof = t.kind → (read' ks ↔ read ks)) :
    m.Predicts t read' known goals := by
  match m with
  | pass _ _ =>
    intro ks hks
    exact (same ks hks).trans (h ks hks)
  | take _ _ => exact ⟨h.1, fun ks => (same _ rfl).trans (h.2 ks)⟩
  | fail _ (.grammar _) =>
    intro ks hks
    exact (not_congr (same ks hks)).mpr (h ks hks)
  | fail _ (.names _) =>
    exact h.imp_right fun ⟨ne, ks, hks⟩ => ⟨ne, ks, (same _ rfl).mpr hks⟩
  | fail _ (.scan _) => trivial

theorem Predicts.after {read : List Kind → Prop} (e : Event)
    (h : m.Predicts t read known goals) : (m.after e).Predicts t read known goals := by
  match m with
  | pass _ _ => exact h
  | take _ _ => exact h
  | fail _ (.grammar _) => exact h
  | fail _ (.names _) => exact h
  | fail _ (.scan _) => trivial

theorem Operand.predicts (h : Operand t names rest m) (hrest : Predictive (rest ++ goals)) :
    m.Predicts t (Fits (.primary :: (rest ++ goals))) known goals := by
  cases h with
  | number kind => exact ⟨hrest, fun ks => by simp [fits_primary, kind]⟩
  | variable_ kind => exact ⟨hrest, fun ks => by simp [fits_primary, kind]⟩
  | unknown kind =>
    obtain ⟨ks, fits⟩ := exists_fits (rest ++ goals)
    exact .inr ⟨by simp [kind], _, fits_primary.mpr ⟨_, ks, .inr kind, rfl, fits⟩⟩
  | other not_number not_ident =>
    intro ks hks fits
    obtain ⟨k, ks', kind, rfl, -⟩ := fits_primary.mp fits
    obtain rfl : k = t.kind := hks
    exact kind.elim not_number not_ident

theorem Signed.predicts (h : Signed t names rest m) (hrest : Predictive (rest ++ goals)) :
    m.Predicts t (Fits (.unary :: (rest ++ goals))) known goals := by
  cases h with
  | sign kind =>
    refine ⟨.fixed (fun _ => id) trivial hrest, fun ks => ?_⟩
    rcases kind with kind | kind <;> simp [fits_unary, fits_primary, kind]
  | operand not_sign h =>
    refine (h.predicts hrest).congr fun ks hks => ?_
    rw [fits_unary, or_iff_left]
    rintro ⟨k, ks', kind, rfl, -⟩
    obtain rfl : k = t.kind := hks
    exact not_sign kind

theorem Opening.predicts (h : Opening t rest m) (hrest : Predictive (rest ++ goals))
    (no_blank : NoBlank (rest ++ goals)) :
    m.Predicts t ((Phrase.rule .statement).Before (Fits (rest ++ goals))) known goals := by
  cases h with
  | keyword kind parts_eq =>
    refine ⟨?_, fun ks => ?_⟩
    · simpa using predictive_parts parts_eq hrest no_blank
    · simp [before_statement_cons, kind, parts_eq]
  | other not_keyword =>
    intro ks hks before
    cases ks with
    | nil => exact not_before_statement_nil before
    | cons k ks =>
      obtain ⟨word, parts, rfl, parts_eq, -⟩ := before_statement_cons.mp before
      exact not_keyword word parts hks.symm parts_eq

end Meeting

/-- A goal that takes one token after the other, as long as they are of its kind. -/
private theorem predicts_repeated {goal : Goal} {goals parts : List Goal} {own : Kind → Prop}
    [DecidablePred own] {t : Located Token} {known : List Location} {events : List Event}
    {names : Names}
    (fits : ∀ {ks}, Fits (goal :: goals) ks ↔ Fits goals ks ∨
      ∃ k ks', own k ∧ ks = k :: ks' ∧ Fits (parts ++ goals) ks')
    (apart : ∀ k ks, own k → ¬Fits goals (k :: ks)) (h : Predictive (parts ++ goals)) :
    (if own t.kind then Meeting.take events parts else .pass [] names).Predicts t
      (Fits (goal :: goals)) known goals := by
  split
  next kind => exact ⟨h, fun ks => by simp [fits, apart _ ks kind, kind]⟩
  next kind => exact forall_headD_iff.mpr (by simp [fits, kind])

section
variable {goals : List Goal}

theorem apart_factors_sums (apart : Apart .sums goals) : Apart .factors (.sums :: goals) := by
  intro k ks product fits
  rcases fits_sums.mp fits with fits | ⟨k, ks, sum, ⟨⟩, -⟩
  · exact apart k ks (by unfold Goal.Extends at *; tauto) fits
  · rcases product with rfl | rfl <;> simp at sum

theorem Predictive.factors_sums (h : Predictive goals) (apart : Apart .sums goals) :
    Predictive (.factors :: .sums :: goals) :=
  .cons (apart_factors_sums apart) trivial (.cons apart trivial h)

theorem apart_sums_relations (apart : Apart .relations goals) :
    Apart .sums (.relations :: goals) := by
  intro k ks operator fits
  rcases fits_relations.mp fits with fits | ⟨k, ks, relation, ⟨⟩, -⟩
  · exact apart k ks (by unfold Goal.Extends at *; tauto) fits
  · rcases operator with rfl | rfl | rfl | rfl <;> simp [Kind.isRelation] at relation

theorem apart_sums_relation : Apart .sums (.relation :: goals) := by
  intro k ks operator fits
  obtain ⟨k, ks, relation, ⟨⟩, -⟩ := fits_relation.mp fits
  rcases operator with rfl | rfl | rfl | rfl <;> simp [Kind.isRelation] at relation

theorem Predictive.expression_relations (h : Predictive goals) (apart : Apart .relations goals) :
    Predictive (.expression :: .relations :: goals) :=
  .cons (apart_sums_relations apart) trivial (.cons apart trivial h)

/-- The goals behind a name. -/
theorem predictive_ofName {use : NameUse} {x : Located String} (apart : Apart (.name use) goals)
    (h : Predictive goals) : Predictive (Goal.ofName use x ++ goals) := by
  have event {e : Event} {goals : List Goal} (h : Predictive goals) :
      Predictive (.event e :: goals) := .fixed (fun _ => id) trivial h
  cases use with
  | label | target => exact .fixed (fun _ => id) trivial h
  | input => exact .fixed (fun _ => id) trivial (event (event (event (event h))))
  | assigned =>
    have expression : Predictive (.expression :: .event (.line ";") :: goals) := by
      refine .cons (fun k ks operator => ?_) trivial (event h)
      rw [fits_of_phrase_eq_empty rfl]
      exact apart k ks operator
    exact .fixed (fun _ => id) trivial (.fixed (fun _ => id) trivial (event expression))

theorem predicts_expression {rest : List Goal} (h : Predictive (rest ++ goals))
    (apart : Apart .sums (rest ++ goals)) (t : Located Token) (names : Names)
    {known : List Location} :
    (Meeting.expression t names rest).Predicts t (Fits (.expression :: (rest ++ goals))) known
      goals :=
  ((Meeting.signed_expression t names rest).predicts (h.factors_sums apart)).congr fun _ _ =>
    fits_expression.trans fits_term

theorem Predictive.blockRest {closing : Keyword} (h : Predictive goals)
    (closes : Goal.ofKeyword? closing = none) : Predictive (.blockRest closing :: goals) :=
  .fixed (fun _ => id) closes h

theorem noBlank_statements (apart : Apart .statements goals) :
    NoBlank (.statements :: goals) := by
  simp [NoBlank, fits_statements, before_statement_cons, apart _ _ trivial]

theorem noBlank_blockRest {closing : Keyword} : NoBlank (.blockRest closing :: goals) := by
  simp [NoBlank, fits_blockRest, before_statement_cons]

end

namespace Goal
variable {goals : List Goal} {goal : Goal}

theorem predicts_meet (h : Predictive (goal :: goals)) (t : Located Token) (names : Names) :
    (goal.meet t names).Predicts t (Fits (goal :: goals)) (mentions (goal :: goals) names)
      goals := by
  cases h with
  | cons apart closes rest =>
  cases goal with
  | event | jumpTo =>
    intro ks _
    exact fits_of_phrase_eq_empty rfl
  | introduce x =>
    simp only [meet]
    split
    next e error =>
      exact .inl (by simp [mentions, location?, Names.location_of_introduce_error error])
    all_goals exact fun ks _ => fits_of_phrase_eq_empty rfl
  | placeLabel x =>
    simp only [meet]
    split
    next e error =>
      exact .inl (by simp [mentions, location?, Names.location_of_placeLabel_error error])
    next => exact fun ks _ => fits_of_phrase_eq_empty rfl
  | checkJumps =>
    simp only [meet]
    split
    next e error =>
      exact .inl (List.mem_append_right _ (Names.location_of_checkJumps_error error))
    next => exact fun ks _ => fits_of_phrase_eq_empty rfl
  | keyword k =>
    simp only [meet]
    split
    next kind => exact ⟨rest, fun ks => by simp [fits_keyword, kind]⟩
    next ne => exact forall_headD_iff.mpr (by simp [fits_keyword, ne])
  | assign =>
    simp only [meet]
    split
    next kind => exact ⟨rest, fun ks => by simp [fits_assign, kind]⟩
    next ne => exact forall_headD_iff.mpr (by simp [fits_assign, ne])
  | name use =>
    simp only [meet]
    split
    next kind =>
      refine ⟨predictive_ofName apart rest, fun ks => ?_⟩
      simp [fits_name (t.replace t.text), kind]
    next ne => exact forall_headD_iff.mpr (by simp [fits_name (t.replace t.text), ne])
  | lineEnd =>
    simp only [meet]
    split
    next kind => exact ⟨.cons apart trivial rest, fun ks => by simp [fits_lineEnd, kind]⟩
    next ne => exact forall_headD_iff.mpr (by simp [fits_lineEnd, ne])
  | newlines =>
    have taken : Predictive ([.newlines] ++ goals) := .cons apart trivial rest
    refine predicts_repeated fits_newlines (fun k ks own => apart k ks ?_) taken
    exact own
  | statements =>
    simp only [meet]
    split
    next eof =>
      refine forall_headD_iff.mpr ⟨fun _ => ?_, fun ks => ?_⟩
      · simp [fits_statements, not_before_statement_nil]
      · simp [fits_statements, before_statement_cons, eof]
    next ne =>
      have opening := Meeting.opening_statement t [.statements]
      refine (opening.predicts (.cons apart trivial rest) (noBlank_statements apart)).congr
        (forall_headD_iff.mpr ⟨fun eof => absurd eof ne, fun ks => ?_⟩)
      simp [fits_statements, apart _ ks trivial]
  | block closing =>
    simp only [meet]
    split
    next kind =>
      refine forall_headD_iff.mpr ⟨by simp [kind], fun ks => ?_⟩
      simp [fits_block, before_statement_cons, kind, show ofKeyword? closing = none from closes]
    next ne =>
      have opening := Meeting.opening_statement t [.blockRest closing]
      exact (opening.predicts (rest.blockRest closes) noBlank_blockRest).congr fun ks _ =>
        fits_block
  | blockRest closing =>
    simp only [meet]
    split
    next kind =>
      refine ⟨rest, fun ks => ?_⟩
      simp [fits_blockRest, before_statement_cons, kind,
        show ofKeyword? closing = none from closes]
    next ne =>
      have opening := Meeting.opening_statement t [.blockRest closing]
      refine (opening.predicts (rest.blockRest closes) noBlank_blockRest).congr
        (forall_headD_iff.mpr ⟨fun _ => by simp [fits_blockRest], fun ks => ?_⟩)
      simp [fits_blockRest, ne]
  | printed =>
    simp only [meet]
    split
    next kind =>
      refine ⟨rest, fun ks => ?_⟩
      simp [fits_printed, fits_expression, fits_term, fits_unary, fits_primary, kind]
    next ne =>
      have line : Fits (.line "));" :: goals) = Fits goals :=
        funext fun ks => propext (fits_of_phrase_eq_empty rfl)
      have tail : Predictive ([.line "));"] ++ goals) := .fixed (fun _ => id) trivial rest
      have apart : Apart .sums ([.line "));"] ++ goals) := by
        intro k ks operator
        rw [List.singleton_append, line]
        exact apart k ks operator
      refine ((predicts_expression tail apart t names).congr fun ks hks => ?_).after _
      rw [fits_printed, or_iff_right, fits_cons, fits_cons, List.singleton_append, line]
      rintro ⟨ks', rfl, -⟩
      exact ne hks.symm
  | comparison =>
    have relation : Predictive ([.relation] ++ goals) := .cons apart trivial rest
    refine ((predicts_expression relation ?_ t names).congr fun ks _ => fits_comparison).after _
    exact apart_sums_relation
  | relation =>
    simp only [meet]
    split
    next own =>
      refine ⟨rest.expression_relations apart, fun ks => ?_⟩
      simp [fits_relation, own]
    next ne => exact forall_headD_iff.mpr (by simp [fits_relation, ne])
  | relations =>
    have taken : Predictive ([.expression, .relations] ++ goals) := rest.expression_relations apart
    refine predicts_repeated fits_relations (fun k ks own => apart k ks ?_) taken
    exact .inr (.inr (.inr (.inr own)))
  | expression =>
    have goals_only : Predictive ([] ++ goals) := rest
    exact predicts_expression goals_only apart t names
  | sums =>
    have taken : Predictive ([.term, .sums] ++ goals) :=
      .cons (apart_factors_sums apart) trivial (.cons apart trivial rest)
    refine predicts_repeated fits_sums (fun k ks own => apart k ks ?_) taken
    exact .inr (.inr own)
  | term =>
    have factors : Predictive ([.factors] ++ goals) := .cons apart trivial rest
    exact ((Meeting.signed_term t names []).predicts factors).congr fun ks _ => fits_term
  | factors =>
    have taken : Predictive ([.unary, .factors] ++ goals) :=
      .fixed (fun _ => id) trivial (.cons apart trivial rest)
    refine predicts_repeated fits_factors (fun k ks own => apart k ks ?_) taken
    exact own
  | unary => exact (Meeting.signed_unary t names []).predicts rest
  | primary => exact (Meeting.operand_primary t names []).predicts rest

end Goal

/-! ## Steps -/

/-- What is read as `read` goes on as the step says, as far as the token `t` tells. -/
def Step.Predicts (t : Located Token) (read : List Kind → Prop) (known : List Location)
    (s : Step) : Prop :=
  match s.outcome with
  | .consumed goals => Predictive goals ∧ ∀ ks, read (t.kind :: ks) ↔ Fits goals ks
  | .finished => ∀ ks, ks.headD .eof = t.kind → (read ks ↔ ks = [])
  | .failed (.grammar _) => ∀ ks, ks.headD .eof = t.kind → ¬read ks
  | .failed (.names e) => e.location ∈ known ∨ t.kind ≠ .eof ∧ ∃ ks, read (t.kind :: ks)
  | .failed (.scan _) => True

theorem Step.Predicts.weaken {t : Located Token} {read read' : List Kind → Prop}
    {known known' : List Location} {s : Step} (h : s.Predicts t read known)
    (same : ∀ ks, ks.headD .eof = t.kind → (read' ks ↔ read ks)) (sub : known ⊆ known') :
    s.Predicts t read' known' := by
  unfold Predicts at *
  split at h
  · exact ⟨h.1, fun ks => (same _ rfl).trans (h.2 ks)⟩
  · intro ks hks
    exact (same ks hks).trans (h ks hks)
  · intro ks hks
    exact (not_congr (same ks hks)).mpr (h ks hks)
  · exact h.imp (@sub _) fun ⟨ne, ks, hks⟩ => ⟨ne, ks, (same _ rfl).mpr hks⟩
  · trivial

theorem step_predicts {goals : List Goal} (h : Predictive goals) (t : Located Token)
    (names : Names) : (step t goals names).Predicts t (Fits goals) (mentions goals names) := by
  fun_induction step t goals names with
  | case1 =>
    intro ks _
    exact Iff.rfl
  | case2 goal goals names events names' pass more ih =>
    have met : ∀ ks, ks.headD .eof = t.kind → (Fits (goal :: goals) ks ↔ Fits goals ks) := by
      simpa [pass, Meeting.Predicts] using Goal.predicts_meet h t names
    cases h with
    | cons _ _ rest =>
      exact Step.Predicts.weaken (s := more) (ih rest) met (mentions_pass pass goals)
  | case3 goal goals names events parts take =>
    have met := Goal.predicts_meet h t names
    rw [take] at met
    exact met
  | case4 goal goals names events e fail =>
    have met := Goal.predicts_meet h t names
    rw [fail] at met
    cases e <;> exact met

/-! ## Programs -/

theorem predictive_program : Predictive Goal.program := by
  have events : Predictive [.checkJumps, .line "return 0;", .line "\x7d"] :=
    .fixed (fun _ => id) trivial (.fixed (fun _ => id) trivial (.fixed (fun _ => id) trivial .nil))
  have statements : Predictive [.statements, .checkJumps, .line "return 0;", .line "\x7d"] := by
    refine .cons (fun k ks _ => ?_) trivial events
    simp [Goal.phrase, Goal.line, Fits]
  have newlines : Predictive
      [.newlines, .statements, .checkJumps, .line "return 0;", .line "\x7d"] := by
    refine .cons ?_ trivial statements
    rintro _ ks rfl
    rw [fits_statements, before_statement_cons]
    simp [Goal.phrase, Goal.line, Fits]
  exact .fixed (fun _ => id) trivial
    (.fixed (fun _ => id) trivial (.fixed (fun _ => id) trivial newlines))

/-- The goals take the tokens in `past` from a program on, and stand for what may follow them. -/
structure Predicted (past : List (Located Token)) (goals : List Goal) : Prop where
  predictive : Predictive goals
  fits_iff (ks : List Kind) :
    (Phrase.rule .program).Derives (past.map (·.kind) ++ ks) ↔ Fits goals ks

theorem Predicted.program : Predicted [] Goal.program :=
  ⟨predictive_program, fun _ => fits_program.symm⟩

theorem Predicted.take {past : List (Located Token)} {t : Located Token} {events : List Event}
    {goals goals' : List Goal} {names names' : Names} (before : Predicted past goals)
    (h : step t goals names = ⟨events, names', .consumed goals'⟩) :
    Predicted (past ++ [t]) goals' := by
  have predicts := step_predicts before.predictive t names
  rw [h] at predicts
  refine ⟨predicts.1, fun ks => ?_⟩
  rw [← predicts.2, ← before.fits_iff]
  simp

end MiniBasic
