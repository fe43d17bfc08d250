import MiniBasic.Proofs.Layout
import MiniBasic.Proofs.NamePlaces

/-!
# Diagnostics are accurate

What a diagnostic says of a source is so at the place it points to. Each phase has its own share.
A fault is explained by the characters in front of which scanning stopped (`accurate_scan`). A
goal that refuses a token describes that token (`Meeting.Accurate`). A name may be refused when
other tokens have been taken behind it, so its place comes from `Traced`.

`Diagnostic.AccurateAt` speaks about the tokens of a pass, and `Diagnostic.Accurate` about the
buffer of the source as well.
-/

namespace MiniBasic

/-- The token is what the error says of it, and does not belong where it stands. -/
def GrammarError.Describes (t : Token) : GrammarError → Prop
  | unexpectedToken expected found => found = t.kind ∧ expected ≠ t.kind
  | expectedComparison text => text = t.text ∧ ¬t.kind.isRelation
  | invalidStatement text kind => text = t.text ∧ kind = t.kind
  | unexpectedPrimary text => text = t.text ∧ t.kind ≠ .number ∧ t.kind ≠ .ident
  | emptyBody closing => closing = t.kind

/-! ## Refusals -/

/-- The goal does not look at a name that has been read before. -/
def Goal.Blind : Goal → Prop
  | introduce _ | placeLabel _ | checkJumps => False
  | _ => True

theorem Goal.Plain.blind {goal : Goal} (h : goal.Plain) : goal.Blind := by
  cases goal <;> trivial

/-- The diagnostic is right about the token, in front of which the names are known. -/
def Diagnostic.AccurateOf (t : Located Token) (known : Names) : Diagnostic → Prop
  | scan _ => False
  | grammar e => e.location = t.location ∧ e.value.Describes t.value
  | .names e =>
    e = t.replace (.undeclaredVariable t.text) ∧ t.kind = .ident ∧ t.text ∉ known.vars ∨
      t.kind = .eof ∧ known.checkJumps = .error e

def Meeting.Accurate (t : Located Token) (names : Names) : Meeting → Prop
  | fail _ d => d.AccurateOf t names
  | _ => True

namespace Meeting
variable {t : Located Token} {names : Names} {rest : List Goal} {m : Meeting}

theorem Accurate.after (e : Event) (h : m.Accurate t names) : (m.after e).Accurate t names := by
  cases m <;> exact h

theorem accurate_refuse {events : List Event} {e : GrammarError} (h : e.Describes t.value) :
    (refuse events t e).Accurate t names := ⟨rfl, h⟩

theorem Operand.accurate (h : Operand t names rest m) : m.Accurate t names := by
  cases h with
  | number | variable_ => trivial
  | unknown kind unknown => exact .inl ⟨rfl, kind, by simpa [Names.hasVariable] using unknown⟩
  | other not_number not_ident => exact ⟨rfl, rfl, not_number, not_ident⟩

theorem Signed.accurate (h : Signed t names rest m) : m.Accurate t names := by
  cases h with
  | sign => trivial
  | operand _ h => exact h.accurate

theorem Opening.accurate (h : Opening t rest m) : m.Accurate t names := by
  cases h with
  | keyword => trivial
  | other => exact ⟨rfl, rfl, rfl⟩

end Meeting

theorem Goal.Blind.accurate_meet {goal : Goal} (h : goal.Blind) (t : Located Token)
    (names : Names) : (goal.meet t names).Accurate t names := by
  cases goal with
  | introduce | placeLabel | checkJumps => exact h.elim
  | event | jumpTo => trivial
  | keyword k | assign | name | lineEnd =>
    simp only [Goal.meet]
    split
    next => trivial
    next other => exact Meeting.accurate_refuse ⟨rfl, Ne.symm other⟩
  | newlines | relations | sums | factors =>
    simp only [Goal.meet]
    split <;> trivial
  | relation =>
    simp only [Goal.meet]
    split
    next => trivial
    next other => exact Meeting.accurate_refuse ⟨rfl, other⟩
  | statements =>
    simp only [Goal.meet]
    split
    next => trivial
    next => exact (Meeting.opening_statement t _).accurate
  | block closing =>
    simp only [Goal.meet]
    split
    next closes => exact Meeting.accurate_refuse closes.symm
    next => exact (Meeting.opening_statement t _).accurate
  | blockRest closing =>
    simp only [Goal.meet]
    split
    next => trivial
    next => exact (Meeting.opening_statement t _).accurate
  | printed =>
    simp only [Goal.meet]
    split
    next => trivial
    next => exact (Meeting.signed_expression t names _).accurate.after _
  | comparison => exact (Meeting.signed_expression t names _).accurate.after _
  | expression => exact (Meeting.signed_expression t names []).accurate
  | term => exact (Meeting.signed_term t names []).accurate
  | unary => exact (Meeting.signed_unary t names []).accurate
  | primary => exact (Meeting.operand_primary t names []).accurate

/-- The failure of a step is accurate, when the names in front of the token are known. -/
def Step.Accurate (t : Located Token) (names : Names) (s : Step) : Prop :=
  ∀ d, s.outcome = .failed d → d.AccurateOf t names

theorem Meeting.Accurate.step {t : Located Token} {names : Names} {goal : Goal} {goals : List Goal}
    {events : List Event} {e : Diagnostic} (h : (goal.meet t names).Accurate t names)
    (fail : goal.meet t names = .fail events e) :
    (step t (goal :: goals) names).Accurate t names := by
  rw [step_of_fail fail]
  rw [fail] at h
  intro d failed
  cases failed
  exact h

theorem step_accurate_ending (t : Located Token) (names : Names) :
    (step t Goal.ending names).Accurate t names := by
  have blind : Goal.statements.Blind := trivial
  have statements := blind.accurate_meet t names
  cases met : Goal.statements.meet t names with
  | pass events names' =>
    have eof := meet_statements_pass met
    obtain ⟨rfl, rfl⟩ : [] = events ∧ names = names' := by simpa [Goal.meet, eof] using met
    rw [Goal.ending, step_of_pass met]
    cases check : names.checkJumps with
    | ok =>
      have pass : Goal.checkJumps.meet t names = .pass [] names := by simp [Goal.meet, check]
      rw [step_of_pass pass]
      intro d failed
      simp [step, Goal.line, Goal.meet] at failed
    | error e =>
      have fail : Goal.checkJumps.meet t names = .fail [] (.names e) := by simp [Goal.meet, check]
      rw [step_of_fail fail]
      intro d failed
      cases failed
      exact .inr ⟨eof, check⟩
  | take events parts =>
    rw [Goal.ending, step_of_take met]
    intro d failed
    cases failed
  | fail events e => exact statements.step met

theorem step_accurate_plain {front : List Goal} (plain : ∀ g ∈ front, g.Plain) (t : Located Token)
    (names : Names) : (step t (front ++ Goal.ending) names).Accurate t names := by
  induction front with
  | nil => exact step_accurate_ending t names
  | cons goal front ih =>
    obtain ⟨goal_plain, front_plain⟩ := List.forall_mem_cons.mp plain
    have accurate := goal_plain.blind.accurate_meet t names
    have met := goal_plain.meet t names
    rw [List.cons_append]
    cases meet : goal.meet t names with
    | pass events names' =>
      rw [meet] at met
      obtain rfl : names' = names := met
      rw [step_of_pass meet]
      exact ih front_plain
    | take events parts =>
      rw [step_of_take meet]
      intro d failed
      cases failed
    | fail events e => exact accurate.step meet

section
variable {past rest : List (Located Token)} {front goals : List Goal} {names : Names}
  {stop : Location}

theorem exists_cons_of_headD_kind {k : Kind} (kind : (rest.headD (endToken stop)).kind = k)
    (ne_eof : k ≠ .eof) : ∃ us, rest = rest.headD (endToken stop) :: us := by
  cases rest with
  | nil => exact absurd kind.symm ne_eof
  | cons t us => exact ⟨us, rfl⟩

/-- The diagnostic is right about the tokens of the program, of which those in `past` were taken. -/
def Diagnostic.AccurateAt (past rest : List (Located Token)) (stop : Location) :
    Diagnostic → Prop
  | scan _ => False
  | grammar e =>
    e.location = (rest.headD (endToken stop)).location ∧
      e.value.Describes (rest.headD (endToken stop)).value
  | .names e => e.value.Accurate (past ++ rest) (rest = []) e.location

def Step.AccurateAt (past rest : List (Located Token)) (stop : Location) (s : Step) : Prop :=
  ∀ d, s.outcome = .failed d → d.AccurateAt past rest stop

theorem Tracks.accurateAt {s : Step} (tracks : Tracks (occurrences past) names)
    (jumps : JumpsAt past names) (after : NameUse.after? (lastKind .newline past) = none)
    (ne_eof : ∀ t ∈ rest, t.kind ≠ .eof)
    (h : s.Accurate (rest.headD (endToken stop)) names) : s.AccurateAt past rest stop := by
  intro d failed
  have accurate := h d failed
  cases d with
  | scan e => exact accurate
  | grammar e => exact accurate
  | names e =>
    rcases accurate with ⟨rfl, ident, unknown⟩ | ⟨eof, error⟩
    · obtain ⟨us, rest_eq⟩ := exists_cons_of_headD_kind ident nofun
      refine ⟨past, ⟨rest.headD (endToken stop), us, ?_, ident, rfl, after⟩, ?_⟩
      · rw [← rest_eq]
      · exact fun introduced => unknown ((tracks.vars _).mpr introduced)
    · obtain ⟨jump, mem, missing, rfl⟩ := Names.missing_of_checkJumps_error error
      obtain rfl : rest = [] := by
        cases rest with
        | nil => rfl
        | cons t us => exact absurd eof (ne_eof t (by simp))
      obtain ⟨before, here⟩ := jumps jump mem
      refine ⟨before, here.append [], rfl, fun placed => missing ((tracks.labels _).mpr ?_)⟩
      rwa [List.append_nil] at placed

theorem Traced.accurateAt (h : Traced past goals names) (ne_eof : ∀ t ∈ rest, t.kind ≠ .eof) :
    (step (rest.headD (endToken stop)) goals names).AccurateAt past rest stop := by
  cases h with
  | known leaves tracks jumps =>
    cases leaves with
    | plain after plain =>
      exact tracks.accurateAt jumps after ne_eof (step_accurate_plain plain _ _)
    | @name use front after plain =>
      rw [List.cons_append]
      by_cases ident : (rest.headD (endToken stop)).kind = .ident
      · have take : (Goal.name use).meet (rest.headD (endToken stop)) names =
            .take [] (Goal.ofName use ((rest.headD (endToken stop)).replace
              (rest.headD (endToken stop)).text)) := if_pos ident
        rw [step_of_take take]
        intro d failed
        cases failed
      · have fail : (Goal.name use).meet (rest.headD (endToken stop)) names =
            .refuse [] (rest.headD (endToken stop))
              (.unexpectedToken .ident (rest.headD (endToken stop)).kind) := if_neg ident
        rw [step_of_fail fail]
        intro d failed
        cases failed
        exact ⟨rfl, rfl, Ne.symm ident⟩
  | @waiting before u use front _ ident after plain tracks jumps =>
    have registered := tracks.register use (u.replace u.text) (rest.headD (endToken stop))
    cases meet : (Goal.register use (u.replace u.text)).meet (rest.headD (endToken stop)) names with
    | pass events names'' =>
      rw [meet] at registered
      rw [step_of_pass meet]
      have tracks' : Tracks (occurrences (before ++ [u])) names'' := by
        rwa [occurrences_append_ident ident, after]
      exact tracks'.accurateAt (jumps.register ident after meet)
        (by simp [ident, NameUse.after?]) ne_eof (step_accurate_plain plain _ _)
    | take events parts =>
      rw [meet] at registered
      exact registered.elim
    | fail events e =>
      rw [step_of_fail meet]
      obtain ⟨ne, rfl, accurate⟩ := tracks.accurate_register ident after meet rest (rest = [])
      intro d failed
      cases failed
      exact accurate

end

/-! ## A whole pass -/

/-- The diagnostic of a pass is right about the tokens, and about the one it stopped at. -/
theorem Pass.accurateAt {stop : Location} {ts : List (Located Token)} {d : Diagnostic}
    (ne_eof : ∀ t ∈ ts, t.kind ≠ .eof) (h : (ofTokens stop ts).result = .error d) :
    ∃ past rest, ts = past ++ rest ∧ past.length = (ofTokens stop ts).taken.length ∧
      d.AccurateAt past rest stop := by
  obtain ⟨past, rest, goals, names, rfl, takes, last⟩ :=
    exists_takes stop ts Goal.program .empty
  have traced : Traced past goals names := takes.preserves Traced traced_program .take
  have accurate : (step (rest.headD (endToken stop)) goals names).AccurateAt past rest stop :=
    traced.accurateAt fun t mem => ne_eof t (List.mem_append_right past mem)
  rw [last, ← ofTokens, h] at accurate
  exact ⟨past, rest, rfl, takes.length_eq.symm, accurate d rfl⟩

/-! ## Whole sources -/

/-- A token of the source starts at `l`, or the source can be read to its end, which is at `l`. -/
inductive Standing (source : String) (l : Location) : Token → Prop
  | token {t : Token} (mem : ⟨l, t⟩ ∈ leadingTokens source) : Standing source l t
  | ending (scanned : tokensOf source = .ok (leadingTokens source))
    (here : l = endLocation source) : Standing source l ⟨.eof, ""⟩

theorem Standing.ahead {source : String} {l : Location} {t : Token} (h : Standing source l t) :
    ∃ rest, Ahead source l (t.written ++ rest) := by
  cases h with
  | token mem => exact ahead_of_mem mem
  | ending scanned here =>
    subst here
    exact ⟨[], ahead_endLocation source⟩

/-- What the diagnostic says is so, in the buffer and among the tokens of the source. -/
def Diagnostic.Accurate (source : String) : Diagnostic → Prop
  | scan e =>
    ∃ past gap cs offset, terminated source.toList = past ++ (gap ++ cs) ∧
      Layout .start (leadingTokens source) past ∧ Gap gap cs ∧ e.value.Explains cs offset ∧
      Ahead source e.location (cs.drop offset)
  | grammar e =>
    ∃ t rest, Standing source e.location t ∧ Ahead source e.location (t.written ++ rest) ∧
      e.value.Describes t
  | names e =>
    (∃ rest, Ahead source e.location (e.value.name.toList ++ rest)) ∧
      e.value.Accurate (leadingTokens source) (tokensOf source = .ok (leadingTokens source))
        e.location

theorem accurate_scan {source : String} {e : Located ScanError}
    (h : tokensOf source = .error e) : (Diagnostic.scan e).Accurate source := by
  obtain ⟨past, rest, split, layout, remainder⟩ := exists_layout source
  rw [ending_of_tokensOf_error h] at remainder
  cases remainder with
  | @fault gap cs _ offset blank explains here =>
    refine ⟨past, gap, cs, offset, split, layout, blank, explains,
      past ++ (gap ++ cs.take offset), ?_, ?_⟩
    · rw [split]
      simp
    · rw [here, ← Location.advance_append]

theorem Diagnostic.AccurateAt.accurate {source : String} {past rest : List (Located Token)}
    {stop : Location} {d : Diagnostic} (h : d.AccurateAt past rest stop)
    (tokens_eq : leadingTokens source = past ++ rest)
    (ending : rest = [] →
      tokensOf source = .ok (leadingTokens source) ∧ stop = endLocation source) :
    d.Accurate source := by
  cases d with
  | scan e => exact h.elim
  | grammar e =>
    obtain ⟨here, describes⟩ := h
    have standing : Standing source e.location (rest.headD (endToken stop)).value := by
      rw [here]
      cases rest with
      | nil =>
        obtain ⟨scanned, rfl⟩ := ending rfl
        exact .ending scanned rfl
      | cons t rest =>
        refine .token ?_
        rw [tokens_eq]
        exact List.mem_append_right past List.mem_cons_self
    obtain ⟨rest', ahead⟩ := standing.ahead
    exact ⟨_, rest', standing, ahead, describes⟩
  | names e =>
    have accurate : e.value.Accurate (leadingTokens source)
        (tokensOf source = .ok (leadingTokens source)) e.location := by
      rw [tokens_eq]
      refine NameError.Accurate.mono (p := rest = []) h fun all => ?_
      rw [← tokens_eq]
      exact (ending all).1
    exact ⟨ahead_of_mem accurate.mem, accurate⟩

/-- An error is the fault of scanning, or a pass over the leading tokens is refused with it; where
that pass has taken them all, they are all tokens of the source. -/
theorem fault_or_accurateAt_of_compile_error {source : String} {d : Diagnostic}
    (h : compile source = .error d) :
    (∃ fault, tokensOf source = .error fault ∧ d = .scan fault) ∨
      ∃ past rest stop, leadingTokens source = past ++ rest ∧ d.AccurateAt past rest stop ∧
        (rest = [] → tokensOf source = .ok (leadingTokens source) ∧ stop = endLocation source) := by
  cases scanned : tokensOf source with
  | ok ts =>
    obtain rfl := leadingTokens_of_tokensOf_ok scanned
    have ne_eof := (reads_of_tokensOf_ok scanned).ne_eof
    have refused := (compile_eq_error_iff_ofTokens scanned d).mp h
    obtain ⟨past, rest, tokens_eq, -, accurate⟩ := Pass.accurateAt ne_eof refused
    exact .inr ⟨past, rest, _, tokens_eq, accurate, fun _ => ⟨rfl, rfl⟩⟩
  | error fault =>
    have ne_eof := (reads_of_tokensOf_error scanned).ne_eof
    obtain ⟨late, early⟩ := compile_of_fault scanned .start
    rcases le_or_gt ((leadingTokens source).length - 1) _ with far | near
    · exact .inl ⟨fault, rfl, by simpa [late far, eq_comm] using h⟩
    · obtain ⟨d', error, refused, -⟩ := early near
      obtain rfl : d' = d := by simpa [h, eq_comm] using error
      obtain ⟨past, rest, tokens_eq, length, accurate⟩ := Pass.accurateAt ne_eof refused
      refine .inr ⟨past, rest, .start, tokens_eq, accurate, fun nil => ?_⟩
      have := congrArg List.length tokens_eq
      simp only [nil, List.append_nil] at this
      omega

/-- Every error is right about the source, whichever phase it is from. -/
theorem compile_error_accurate {source : String} {d : Diagnostic}
    (h : compile source = .error d) : d.Accurate source := by
  rcases fault_or_accurateAt_of_compile_error h with
    ⟨fault, scanned, rfl⟩ | ⟨past, rest, stop, tokens_eq, accurate, ending⟩
  · exact accurate_scan scanned
  · exact accurate.accurate tokens_eq ending

theorem duplicate_label_accurate :
    compile "LABEL a\nLABEL a" = .error (.names ⟨⟨2, 7⟩, .duplicateLabel "a"⟩) ∧
      (Diagnostic.names ⟨⟨2, 7⟩, .duplicateLabel "a"⟩).Accurate "LABEL a\nLABEL a" := by
  have refused : compile "LABEL a\nLABEL a" =
      .error (.names ⟨⟨2, 7⟩, .duplicateLabel "a"⟩) := by decide +kernel
  exact ⟨refused, compile_error_accurate refused⟩

end MiniBasic
