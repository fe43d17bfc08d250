import MiniBasic.Proofs.Leading
import MiniBasic.Proofs.NameTracking
import MiniBasic.Proofs.Unambiguous

/-!
# A single pass writes what the tree means

The tokens of an accepted source are those of a tree, newlines squeezed, and the code and the rules
that were written while they were read are those of the tree. `Writes` says this of two
configurations with a sequence of statements between them. A statement may hold a block, which is a
sequence of shorter statements, so the induction is on the number of tokens ahead.
-/

namespace MiniBasic

/-! ## Tokens and lines -/

section
variable {stop : Location} {ts : List (Located Token)} {goals : List Goal} {names : Names}
  {b : Bool}

theorem leads_newlines (stop : Location) (ts : List (Located Token)) (goals : List Goal)
    (names : Names) :
    ∃ us, Leads stop ⟨true, ts, .newlines :: goals, names⟩ [] .empty ⟨true, us, goals, names⟩ := by
  induction ts with
  | nil =>
    have pass : Goal.newlines.meet (List.headD [] (endToken stop)) names = .pass [] names := rfl
    exact ⟨[], leads_of_pass pass⟩
  | cons t ts ih =>
    by_cases newline : t.kind = .newline
    · have take : Goal.newlines.meet t names = .take [] [.newlines] := if_pos newline
      obtain ⟨us, leads⟩ := ih
      exact ⟨us, (leads_of_take_newline take newline).trans leads⟩
    · have pass : Goal.newlines.meet (List.headD (t :: ts) (endToken stop)) names =
          .pass [] names := if_neg newline
      exact ⟨t :: ts, leads_of_pass pass⟩

theorem leads_lineEnd (ok : Config.Accepted stop ⟨false, ts, .lineEnd :: goals, names⟩) :
    ∃ us, Leads stop ⟨false, ts, .lineEnd :: goals, names⟩ [.newline] ⟨"", "", [.newline]⟩
      ⟨true, us, goals, names⟩ := by
  by_cases newline : (ts.headD (endToken stop)).kind = .newline
  · have take : Goal.lineEnd.meet (ts.headD (endToken stop)) names =
        .take [.enter .newline] [.newlines] := if_pos newline
    obtain ⟨t, us, rfl, -⟩ := exists_cons_of_take take
    rw [List.headD_cons] at take newline
    obtain ⟨us', leads⟩ := leads_newlines stop us goals names
    refine ⟨us', ((leads_of_take_newline take newline).trans leads).of_eq ?_ rfl⟩
    simp [(ok.spelled t (by simp)).eq newline rfl, Token.newline]
  · exact absurd (if_neg newline) (ok.not_fail _ _)

/-- A goal for one kind of token, of which there is only one. -/
theorem leads_token {goal : Goal} {k : Kind} {text : String} {e : Located Token → GrammarError}
    (meet : ∀ t names, goal.meet t names = if t.kind = k then .take [] [] else .refuse [] t (e t))
    (spelling : k.spelling? = some text) (ne_newline : k ≠ .newline)
    (ok : Config.Accepted stop ⟨b, ts, goal :: goals, names⟩) :
    ∃ us, Leads stop ⟨b, ts, goal :: goals, names⟩ [⟨k, text⟩] .empty
      ⟨false, us, goals, names⟩ := by
  have met := meet (ts.headD (endToken stop)) names
  by_cases kind : (ts.headD (endToken stop)).kind = k
  · rw [if_pos kind] at met
    obtain ⟨t, us, rfl, -⟩ := exists_cons_of_take met
    rw [List.headD_cons] at met kind
    refine ⟨us, (leads_of_take met (by rwa [kind])).of_eq ?_ rfl⟩
    rw [(ok.spelled t (by simp)).eq kind spelling]
  · rw [if_neg kind] at met
    exact absurd met (ok.not_fail _ _)

theorem leads_keyword {k : Keyword}
    (ok : Config.Accepted stop ⟨b, ts, .keyword k :: goals, names⟩) :
    ∃ us, Leads stop ⟨b, ts, .keyword k :: goals, names⟩ [k.token] .empty
      ⟨false, us, goals, names⟩ :=
  leads_token (fun _ _ => rfl) rfl nofun ok

theorem leads_assign (ok : Config.Accepted stop ⟨b, ts, .assign :: goals, names⟩) :
    ∃ us, Leads stop ⟨b, ts, .assign :: goals, names⟩ [⟨.assign, "="⟩] .empty
      ⟨false, us, goals, names⟩ :=
  leads_token (fun _ _ => rfl) rfl nofun ok

theorem leads_name {use : NameUse} (ok : Config.Accepted stop ⟨b, ts, .name use :: goals, names⟩) :
    ∃ (x : Located String) (us : List (Located Token)),
      Leads stop ⟨b, ts, .name use :: goals, names⟩ [⟨.ident, x.value⟩] .empty
        ⟨false, us, Goal.ofName use x ++ goals, names⟩ := by
  by_cases ident : (ts.headD (endToken stop)).kind = .ident
  · have take : (Goal.name use).meet (ts.headD (endToken stop)) names =
        .take [] (Goal.ofName use ((ts.headD (endToken stop)).replace
          (ts.headD (endToken stop)).text)) := if_pos ident
    obtain ⟨t, us, rfl, -⟩ := exists_cons_of_take take
    rw [List.headD_cons] at take ident
    refine ⟨t.replace t.text, us, (leads_of_take take (by simp [ident])).of_eq ?_ rfl⟩
    rw [Token.eq_of_kind ident]
    rfl
  · exact absurd (if_neg ident) (ok.not_fail _ _)

theorem leads_introduce {x : Located String}
    (ok : Config.Accepted stop ⟨b, ts, .introduce x :: goals, names⟩) :
    ∃ names', (∀ y, y ∈ names'.vars ↔ y ∈ x.value :: names.vars) ∧
      Leads stop ⟨b, ts, .introduce x :: goals, names⟩ []
        ⟨declarations names.vars [x.value], "", []⟩ ⟨b, ts, goals, names'⟩ := by
  cases outcome : names.introduce x with
  | error e => exact absurd (by simp [Goal.meet, outcome]) (ok.not_fail [] (.names e))
  | ok known =>
    obtain ⟨new, names'⟩ := known
    obtain ⟨-, new_iff, vars, -⟩ := Names.introduce_ok outcome
    refine ⟨names', fun y => by rw [vars, List.mem_cons, or_comm], ?_⟩
    cases new with
    | false =>
      have pass : (Goal.introduce x).meet (ts.headD (endToken stop)) names = .pass [] names' := by
        simp [Goal.meet, outcome]
      refine (leads_of_pass pass).of_eq rfl ?_
      have known : x.value ∈ names.vars := by simpa using new_iff
      simp [declarations_singleton, known, Translation.empty]
    | true =>
      have pass : (Goal.introduce x).meet (ts.headD (endToken stop)) names =
          .pass [.header ("float " ++ x.value ++ ";")] names' := by simp [Goal.meet, outcome]
      refine (leads_of_pass pass).of_eq rfl ?_
      have unknown : x.value ∉ names.vars := by simpa using new_iff
      simp [declarations_singleton, unknown, Translation.ofEvent, String.append_assoc]

theorem leads_placeLabel {x : Located String}
    (ok : Config.Accepted stop ⟨b, ts, .placeLabel x :: goals, names⟩) :
    ∃ names', names'.vars = names.vars ∧
      Leads stop ⟨b, ts, .placeLabel x :: goals, names⟩ [] ⟨"", x.value ++ ":\n", []⟩
        ⟨b, ts, goals, names'⟩ := by
  cases outcome : names.placeLabel x with
  | error e => exact absurd (by simp [Goal.meet, outcome]) (ok.not_fail [] (.names e))
  | ok names' =>
    obtain ⟨-, -, rfl⟩ := Names.placeLabel_ok outcome
    have pass : (Goal.placeLabel x).meet (ts.headD (endToken stop)) names =
        .pass [.line (x.value ++ ":")] { names with labels := x.value :: names.labels } := by
      simp [Goal.meet, outcome]
    refine ⟨{ names with labels := x.value :: names.labels }, rfl,
      (leads_of_pass pass).of_eq rfl ?_⟩
    simp [Translation.ofEvent, String.append_assoc]

theorem leads_jumpTo {x : Located String} :
    Leads stop ⟨b, ts, .jumpTo x :: goals, names⟩ [] ⟨"", "goto " ++ x.value ++ ";\n", []⟩
      ⟨b, ts, goals, names.jumpTo x⟩ := by
  have pass : (Goal.jumpTo x).meet (ts.headD (endToken stop)) names =
      .pass [.line ("goto " ++ x.value ++ ";")] (names.jumpTo x) := rfl
  refine (leads_of_pass pass).of_eq rfl ?_
  simp [Translation.ofEvent, String.append_assoc]

end

/-! ## Statements without a block -/

section
variable (stop : Location)

/-- With the goals `goals`, the rest of a statement is written whose keyword `k` was read last. Then
the goals `rest` remain. -/
def WritesBehind (k : Keyword) (ts : List (Located Token)) (goals rest : List Goal)
    (names : Names) : Prop :=
  ∃ (t : Tree) (toks : List Token) (rules : List Rule) (us : List (Located Token))
    (names' : Names), t.Filled ∧ t.tokens = k.token :: toks ∧
      t.rules = .statement (.keyword k) :: rules ∧
      (∀ y, y ∈ names'.vars ↔ y ∈ t.assigned ++ names.vars) ∧
      Leads stop ⟨false, ts, goals, names⟩ toks ⟨declarations names.vars t.assigned, t.code, rules⟩
        ⟨true, us, rest, names'⟩

end

section
variable {stop : Location} {ts us : List (Located Token)} {goals rest : List Goal}
  {names names' : Names}

theorem writesBehind_simple {s : Statement} {k : Keyword} {toks : List Token} {rules : List Rule}
    (ok : Config.Accepted stop ⟨false, ts, goals, names⟩) (tokens_eq : s.tokens = k.token :: toks)
    (rules_eq : s.rules = .statement (.keyword k) :: rules)
    (vars : ∀ y, y ∈ names'.vars ↔ y ∈ (Tree.simple s .nil).assigned ++ names.vars)
    (leads : Leads stop ⟨false, ts, goals, names⟩ toks
      ⟨declarations names.vars (Tree.simple s .nil).assigned, s.code, rules⟩
      ⟨false, us, .lineEnd :: rest, names'⟩) : WritesBehind stop k ts goals rest names := by
  obtain ⟨us', line⟩ := leads_lineEnd (leads.accepted ok)
  refine ⟨.simple s .nil, toks ++ [.newline], rules ++ [.newline], us', names', trivial, ?_, ?_,
    vars, (leads.trans line).of_eq rfl ?_⟩
  · simp [Tree.tokens, tokens_eq]
  · simp [Tree.rules, rules_eq]
  · simp [Tree.code]

theorem writesBehind_label
    (ok : Config.Accepted stop ⟨false, ts, .name .label :: .lineEnd :: rest, names⟩) :
    WritesBehind stop .label ts (.name .label :: .lineEnd :: rest) rest names := by
  obtain ⟨x, us, first⟩ := leads_name ok
  obtain ⟨names', vars, second⟩ := leads_placeLabel (first.accepted ok)
  refine writesBehind_simple (s := .label x.value) ok rfl rfl ?_ ((first.trans second).of_eq rfl ?_)
  · simp [vars, Tree.assigned]
  · simp [Tree.assigned]

theorem writesBehind_goto
    (ok : Config.Accepted stop ⟨false, ts, .name .target :: .lineEnd :: rest, names⟩) :
    WritesBehind stop .goto ts (.name .target :: .lineEnd :: rest) rest names := by
  obtain ⟨x, us, first⟩ := leads_name ok
  refine writesBehind_simple (s := .goto x.value) ok rfl rfl ?_
    ((first.trans leads_jumpTo).of_eq rfl ?_)
  · simp [Names.vars_jumpTo, Tree.assigned]
  · simp [Tree.assigned]

theorem writesBehind_let
    (ok : Config.Accepted stop ⟨false, ts, .name .assigned :: .lineEnd :: rest, names⟩) :
    WritesBehind stop .let_ ts (.name .assigned :: .lineEnd :: rest) rest names := by
  obtain ⟨x, us, name⟩ := leads_name ok
  obtain ⟨names', vars, introduce⟩ := leads_introduce (name.accepted ok)
  have first := name.trans introduce
  obtain ⟨us, assign⟩ := leads_assign (first.accepted ok)
  have second := (first.trans assign).trans (leads_event _)
  obtain ⟨e, us, expression⟩ := leads_expression [] [] (second.accepted ok)
    (Meeting.prepend_nil _).symm
  refine writesBehind_simple (s := .assign x.value e) ok rfl rfl ?_
    (((second.trans expression).trans (leads_event _)).of_eq ?_ ?_)
  · simpa [Tree.assigned] using vars
  · simp
  · simp [Tree.assigned, Translation.ofEvent, String.append_assoc]

theorem writesBehind_input
    (ok : Config.Accepted stop ⟨false, ts, .name .input :: .lineEnd :: rest, names⟩) :
    WritesBehind stop .input ts (.name .input :: .lineEnd :: rest) rest names := by
  obtain ⟨x, us, name⟩ := leads_name ok
  obtain ⟨names', vars, introduce⟩ := leads_introduce (name.accepted ok)
  have lines := ((((name.trans introduce).trans (leads_event _)).trans (leads_event _)).trans
    (leads_event _)).trans (leads_event _)
  refine writesBehind_simple (s := .input x.value) ok rfl rfl ?_ (lines.of_eq rfl ?_)
  · simpa [Tree.assigned] using vars
  · simp [Tree.assigned, Translation.ofEvent, String.append_assoc]

theorem writesBehind_print
    (ok : Config.Accepted stop ⟨false, ts, .printed :: .lineEnd :: rest, names⟩) :
    WritesBehind stop .print ts (.printed :: .lineEnd :: rest) rest names := by
  by_cases string : (ts.headD (endToken stop)).kind = .string
  · have take : Goal.printed.meet (ts.headD (endToken stop)) names = .take
        [.line ("printf(\"" ++ (ts.headD (endToken stop)).text ++ "\\n\");")] [] := if_pos string
    obtain ⟨t, us, rfl, -⟩ := exists_cons_of_take take
    rw [List.headD_cons] at take string
    refine writesBehind_simple (s := .printText t.text) ok rfl rfl ?_
      ((leads_of_take take (by simp [string])).of_eq ?_ ?_)
    · simp [Tree.assigned]
    · rw [Token.eq_of_kind string]
    · simp [Tree.assigned, Translation.ofEvent, String.append_assoc]
  · have meet : Goal.printed.meet (ts.headD (endToken stop)) names =
        (Meeting.expression (ts.headD (endToken stop)) names [.line "));"]).prepend
          [.fragment "printf(\"%.2f\\n\", (float)("] :=
      (if_neg string).trans (Meeting.after_eq_prepend _ _)
    obtain ⟨e, us, expression⟩ := leads_expression _ _ ok meet
    refine writesBehind_simple (s := .print e) ok rfl rfl ?_
      ((expression.trans (leads_event _)).of_eq ?_ ?_)
    · simp [Tree.assigned]
    · simp
    · simp [Tree.assigned, Translation.ofEvent, String.append_assoc]

end

/-! ## Sequences of statements -/

section
variable (stop : Location)

/-- Between the configurations the statements of `t` are read and written. -/
structure Writes (c : Config) (t : Tree) (c' : Config) : Prop where
  filled : t.Filled
  leads : Leads stop c t.tokens (t.translation c.names.vars) c'
  vars (y : String) : y ∈ c'.names.vars ↔ y ∈ t.assigned ++ c.names.vars

/-- A statement is written behind its keyword when fewer than `n` tokens are ahead. -/
def StatementsWrite (n : Nat) : Prop :=
  ∀ ⦃k parts ts goals names⦄, ts.length < n → Goal.ofKeyword? k = some parts →
    Config.Accepted stop ⟨false, ts, parts ++ goals, names⟩ →
    WritesBehind stop k ts (parts ++ goals) goals names

end

section
variable {stop : Location} {n : Nat} {ts : List (Located Token)} {goal : Goal}
  {goals rest : List Goal} {names : Names} {closing : Keyword}

theorem Writes.append {c c' c'' : Config} {t u : Tree} (h : Writes stop c t c')
    (h' : Writes stop c' u c'') : Writes stop c (t.append u) c'' where
  filled := (Tree.filled_append t u).mpr ⟨h.filled, h'.filled⟩
  leads := by
    refine (h.leads.trans h'.leads).of_eq (Tree.tokens_append t u).symm ?_
    rw [Tree.translation_append]
    congr 1
    simp only [Tree.translation, declarations_congr h.vars]
  vars y := by
    rw [h'.vars, List.mem_append, h.vars]
    simp [Tree.assigned_append, or_left_comm]

theorem writes_statement (ih : StatementsWrite stop n) (len : ts.length ≤ n)
    (ok : Config.Accepted stop ⟨true, ts, goal :: goals, names⟩)
    (meet : goal.meet (ts.headD (endToken stop)) names =
      Meeting.statement (ts.headD (endToken stop)) rest) :
    ∃ (t : Tree) (us : List (Located Token)) (names' : Names), t ≠ .nil ∧ us.length < ts.length ∧
      Writes stop ⟨true, ts, goal :: goals, names⟩ t ⟨true, us, rest ++ goals, names'⟩ := by
  unfold Meeting.statement at meet
  split at meet
  next k kind =>
    split at meet
    next parts parts_eq =>
      obtain ⟨t, us, rfl, -⟩ := exists_cons_of_take meet
      rw [List.headD_cons] at meet kind
      have first : Leads stop ⟨true, t :: us, goal :: goals, names⟩ _ _ ⟨false, us, _, names⟩ :=
        leads_of_take meet (by simp [kind])
      have ok' := first.accepted ok
      rw [List.append_assoc] at ok' first
      obtain ⟨tree, toks, rules, us', names', filled, tokens_eq, rules_eq, vars, second⟩ :=
        ih (Nat.lt_of_succ_le len) parts_eq ok'
      refine ⟨tree, us', names', ?_, ?_, filled, (first.trans second).of_eq ?_ ?_, vars⟩
      · rintro rfl
        simp [Tree.tokens] at tokens_eq
      · have := second.length_le
        simp only [List.length_cons] at *
        omega
      · rw [tokens_eq, (ok.spelled t (by simp)).eq kind rfl]
        rfl
      · simp [Tree.translation, Translation.ofEvent, rules_eq, kind]
    next => exact absurd meet (ok.not_fail _ _)
  next => exact absurd meet (ok.not_fail _ _)

theorem writes_blockRest (ih : StatementsWrite stop n) (len : ts.length ≤ n)
    (ok : Config.Accepted stop ⟨true, ts, .blockRest closing :: goals, names⟩) :
    ∃ (t : Tree) (us us' : List (Located Token)) (names' : Names),
      Writes stop ⟨true, ts, .blockRest closing :: goals, names⟩ t
        ⟨true, us, .blockRest closing :: goals, names'⟩ ∧
      Leads stop ⟨true, us, .blockRest closing :: goals, names'⟩ [closing.token] .empty
        ⟨false, us', goals, names'⟩ := by
  induction m : ts.length using Nat.strong_induction_on generalizing ts names with
  | _ m ih_length =>
  by_cases closes : (ts.headD (endToken stop)).kind = .keyword closing
  · have take : (Goal.blockRest closing).meet (ts.headD (endToken stop)) names = .take [] [] :=
      if_pos closes
    obtain ⟨t, us, rfl, -⟩ := exists_cons_of_take take
    rw [List.headD_cons] at take closes
    refine ⟨.nil, t :: us, us, names, ⟨trivial, ?_, by simp [Tree.assigned]⟩,
      (leads_of_take take (by simp [closes])).of_eq ?_ rfl⟩
    · refine (Leads.refl _ _).of_eq rfl ?_
      simp [Tree.translation, Tree.assigned, Tree.code, Tree.rules, Translation.empty]
    · rw [(ok.spelled t (by simp)).eq closes rfl]
      rfl
  · have meet : (Goal.blockRest closing).meet (ts.headD (endToken stop)) names =
        Meeting.statement (ts.headD (endToken stop)) [.blockRest closing] := if_neg closes
    obtain ⟨t, us, names', -, shorter, first⟩ := writes_statement ih len ok meet
    obtain ⟨u, us', us'', names'', second, close⟩ :=
      ih_length us.length (m ▸ shorter) (by omega) (first.leads.accepted ok) rfl
    exact ⟨t.append u, us', us'', names'', first.append second, close⟩

theorem writes_block (ih : StatementsWrite stop n) (len : ts.length ≤ n)
    (ok : Config.Accepted stop ⟨true, ts, .block closing :: goals, names⟩) :
    ∃ (t : Tree) (us us' : List (Located Token)) (names' : Names), t ≠ .nil ∧
      Writes stop ⟨true, ts, .block closing :: goals, names⟩ t
        ⟨true, us, .blockRest closing :: goals, names'⟩ ∧
      Leads stop ⟨true, us, .blockRest closing :: goals, names'⟩ [closing.token] .empty
        ⟨false, us', goals, names'⟩ := by
  by_cases closes : (ts.headD (endToken stop)).kind = .keyword closing
  · exact absurd (if_pos closes) (ok.not_fail _ _)
  · have meet : (Goal.block closing).meet (ts.headD (endToken stop)) names =
        Meeting.statement (ts.headD (endToken stop)) [.blockRest closing] := if_neg closes
    obtain ⟨t, us, names', ne_nil, shorter, first⟩ := writes_statement ih len ok meet
    obtain ⟨u, us', us'', names'', second, close⟩ :=
      writes_blockRest ih (by omega) (first.leads.accepted ok)
    exact ⟨t.append u, us', us'', names'', Tree.append_ne_nil ne_nil, first.append second, close⟩

/-- What a statement with a block has behind its keyword. -/
def branchGoals (middle closing : Keyword) : List Goal :=
  [.comparison, .keyword middle, .lineEnd, .line ")\x7b", .block closing, .line "\x7d", .lineEnd]

theorem leads_branch (ih : StatementsWrite stop n) (len : ts.length ≤ n) {middle closing : Keyword}
    (ok : Config.Accepted stop ⟨false, ts, branchGoals middle closing ++ goals, names⟩) :
    ∃ (c : Comparison) (body : Tree) (us : List (Located Token)) (names' : Names),
      body ≠ .nil ∧ body.Filled ∧ (∀ y, y ∈ names'.vars ↔ y ∈ body.assigned ++ names.vars) ∧
      Leads stop ⟨false, ts, branchGoals middle closing ++ goals, names⟩
        (c.tokens ++ middle.token :: .newline :: body.tokens ++ [closing.token, .newline])
        ⟨declarations names.vars body.assigned, c.code ++ ")\x7b\n" ++ body.code ++ "\x7d\n",
          c.rules ++ .newline :: body.rules ++ [.newline]⟩ ⟨true, us, goals, names'⟩ := by
  obtain ⟨c, us, comparison⟩ := leads_comparison ok
  obtain ⟨us, keyword⟩ := leads_keyword (comparison.accepted ok)
  have first := comparison.trans keyword
  obtain ⟨us, line⟩ := leads_lineEnd (first.accepted ok)
  have second := (first.trans line).trans (leads_event _)
  obtain ⟨body, us, us', names', ne_nil, written, close⟩ :=
    writes_block ih (second.length_le.trans len) (second.accepted ok)
  have third := ((second.trans written.leads).trans close).trans (leads_event _)
  obtain ⟨us'', line'⟩ := leads_lineEnd (third.accepted ok)
  refine ⟨c, body, us'', names', ne_nil, written.filled, written.vars,
    (third.trans line').of_eq ?_ ?_⟩
  · simp
  · simp [Tree.translation, Translation.ofEvent, String.append_assoc]

theorem writesBehind_branch (ih : StatementsWrite stop n) (len : ts.length ≤ n)
    {k middle closing : Keyword} {opening : String} (make : Comparison → Tree → Tree)
    (filled : ∀ c body, body ≠ .nil → body.Filled → (make c body).Filled)
    (tokens_eq : ∀ c body, (make c body).tokens =
      k.token :: (c.tokens ++ middle.token :: .newline :: body.tokens ++ [closing.token, .newline]))
    (rules_eq : ∀ c body, (make c body).rules =
      .statement (.keyword k) :: (c.rules ++ .newline :: body.rules ++ [.newline]))
    (assigned_eq : ∀ c body, (make c body).assigned = body.assigned)
    (code_eq : ∀ c body, (make c body).code =
      opening ++ (c.code ++ ")\x7b\n" ++ body.code ++ "\x7d\n"))
    (ok : Config.Accepted stop
      ⟨false, ts, Goal.fragment opening :: (branchGoals middle closing ++ goals), names⟩) :
    WritesBehind stop k ts (Goal.fragment opening :: (branchGoals middle closing ++ goals)) goals
      names := by
  have opened : Leads stop
      ⟨false, ts, Goal.fragment opening :: (branchGoals middle closing ++ goals), names⟩ [] _
      ⟨false, ts, branchGoals middle closing ++ goals, names⟩ := leads_event (.fragment opening)
  obtain ⟨c, body, us, names', ne_nil, body_filled, vars, leads⟩ :=
    leads_branch ih len (opened.accepted ok)
  refine ⟨make c body, _, _, us, names', filled c body ne_nil body_filled, tokens_eq c body,
    rules_eq c body, by rwa [assigned_eq], (opened.trans leads).of_eq rfl ?_⟩
  simp [Translation.ofEvent, assigned_eq, code_eq]

theorem statementsWrite (n : Nat) : StatementsWrite stop n := by
  induction n with
  | zero =>
    intro _ _ _ _ _ len
    exact absurd len (Nat.not_lt_zero _)
  | succ n ih =>
    intro k parts ts goals names len parts_eq ok
    have len := Nat.le_of_lt_succ len
    cases k <;> simp only [Goal.ofKeyword?, reduceCtorEq, Option.some.injEq] at parts_eq <;>
      subst parts_eq
    case label => exact writesBehind_label ok
    case goto => exact writesBehind_goto ok
    case print => exact writesBehind_print ok
    case input => exact writesBehind_input ok
    case let_ => exact writesBehind_let ok
    case if_ =>
      refine writesBehind_branch ih len (fun c body => .branch c body .nil)
        (fun _ _ ne_nil filled => ⟨ne_nil, filled, trivial⟩) (fun _ _ => rfl) (fun _ _ => rfl)
        (fun _ _ => ?_) (fun _ _ => ?_) ok
      · simp [Tree.assigned]
      · simp [Tree.code, String.append_assoc]
    case while_ =>
      refine writesBehind_branch ih len (fun c body => .loop c body .nil)
        (fun _ _ ne_nil filled => ⟨ne_nil, filled, trivial⟩) (fun _ _ => rfl) (fun _ _ => rfl)
        (fun _ _ => ?_) (fun _ _ => ?_) ok
      · simp [Tree.assigned]
      · simp [Tree.code, String.append_assoc]

theorem writes_statements
    (ok : Config.Accepted stop ⟨true, ts, .statements :: goals, names⟩) :
    ∃ (t : Tree) (names' : Names),
      Writes stop ⟨true, ts, .statements :: goals, names⟩ t ⟨true, [], goals, names'⟩ := by
  induction m : ts.length using Nat.strong_induction_on generalizing ts names with
  | _ m ih_length =>
  by_cases eof : (ts.headD (endToken stop)).kind = .eof
  · cases ts with
    | nil =>
      have pass : Goal.statements.meet (List.headD [] (endToken stop)) names = .pass [] names := rfl
      refine ⟨.nil, names, trivial, (leads_of_pass pass).of_eq rfl ?_, by simp [Tree.assigned]⟩
      simp [Tree.translation, Tree.assigned, Tree.code, Tree.rules, Translation.empty]
    | cons t us => exact absurd eof (ok.spelled t (by simp)).ne_eof
  · have meet : Goal.statements.meet (ts.headD (endToken stop)) names =
        Meeting.statement (ts.headD (endToken stop)) [.statements] := if_neg eof
    obtain ⟨t, us, names', -, shorter, first⟩ := writes_statement (statementsWrite _) le_rfl ok meet
    obtain ⟨u, names'', second⟩ :=
      ih_length us.length (m ▸ shorter) (first.leads.accepted ok) rfl
    exact ⟨t.append u, names'', first.append second⟩

end

/-! ## Programs -/

section
variable {stop : Location} {ts : List (Located Token)} {goals : List Goal} {names : Names}
  {b : Bool}

theorem leads_checkJumps (ok : Config.Accepted stop ⟨b, ts, .checkJumps :: goals, names⟩) :
    Leads stop ⟨b, ts, .checkJumps :: goals, names⟩ [] .empty ⟨b, ts, goals, names⟩ := by
  cases outcome : names.checkJumps with
  | error e => exact absurd (by simp [Goal.meet, outcome]) (ok.not_fail [] (.names e))
  | ok =>
    have pass : Goal.checkJumps.meet (ts.headD (endToken stop)) names = .pass [] names := by
      simp [Goal.meet, outcome]
    exact leads_of_pass pass

theorem Leads.all_read {c : Config} {toks : List Token} {tr : Translation}
    (h : Leads stop c toks tr ⟨b, [], [], names⟩) :
    squeeze c.blank (c.tokens.map (·.value)) = toks ∧
      Translation.ofEvents (c.recognition stop).events = tr := by
  obtain ⟨⟨past, eq, squeezed⟩, ⟨events, same, translated⟩⟩ := h
  constructor
  · simpa [eq, squeeze] using squeezed []
  · have last : (Config.recognition stop ⟨b, [], [], names⟩).events = [] := rfl
    simp [same, Recognition.after, last, translated]

/-- What the events of a whole program come to. -/
theorem Pass.translation_ofTokens (spelled : ∀ t ∈ ts, t.value.Spelled)
    (ok : (ofTokens stop ts).result = .ok ()) :
    ∃ t : Tree, t.Filled ∧ t.tokens = normalForm (ts.map (·.value)) ∧
      Translation.ofEvents (ofTokens stop ts).events =
        ⟨"#include <stdio.h>\n" ++ declarations [] t.assigned,
          "int main(void)\x7b\n" ++ t.code ++ "return 0;\n\x7d\n", .program :: t.rules⟩ := by
  have ok : Config.Accepted stop ⟨true, ts, Goal.program, .empty⟩ := ⟨spelled, ok⟩
  have opened : Leads stop ⟨true, ts, Goal.program, .empty⟩ _ _
      ⟨true, ts, Goal.program.drop 3, .empty⟩ :=
    ((leads_event _).trans (leads_event _)).trans (leads_event _)
  obtain ⟨us, blank⟩ := leads_newlines stop ts (Goal.program.drop 4) .empty
  have first := opened.trans blank
  obtain ⟨t, names, written⟩ := writes_statements (first.accepted ok)
  have second := first.trans written.leads
  have third := second.trans (leads_checkJumps (second.accepted ok))
  obtain ⟨tokens_eq, translated⟩ :=
    ((third.trans (leads_event _)).trans (leads_event _)).all_read
  refine ⟨t, written.filled, ?_, ?_⟩
  · rw [normalForm_eq_squeeze, tokens_eq]
    simp
  · refine translated.trans ?_
    simp [Tree.translation, Translation.ofEvent, String.append_assoc, Names.empty]

end

theorem Tree.program_eq (t : Tree) : t.program =
    "#include <stdio.h>\n" ++ declarations [] t.assigned ++
      ("int main(void)\x7b\n" ++ t.code ++ "return 0;\n\x7d\n") := by
  unfold program
  simp [declarations, String.append_assoc]

/-- An accepted source has one tree, and what a single pass makes of the source is what the tree
means. -/
theorem compilation_eq_tree {source : String} {c : Compilation} (h : compilation source = .ok c) :
    ∃ ts t, tokensOf source = .ok ts ∧ t.Filled ∧ t.tokens = normalForm (ts.map (·.value)) ∧
      (∀ u : Tree, u.tokens = normalForm (ts.map (·.value)) → u = t) ∧
      c = ⟨t.program, .program :: t.rules⟩ := by
  cases scanned : tokensOf source with
  | error fault =>
    obtain ⟨d, error⟩ := exists_error_of_fault scanned
    simp [compile, h, Except.map] at error
  | ok ts =>
    have same := Recognition.ofSource_of_tokensOf_ok scanned
    rw [compilation, same] at h
    cases result : (Pass.ofTokens (endLocation source) ts).result with
    | error d => simp [Pass.recognition, result, Except.map] at h
    | ok =>
      obtain ⟨t, filled, tokens_eq, translated⟩ :=
        Pass.translation_ofTokens (reads_of_tokensOf_ok scanned).spelled result
      refine ⟨ts, t, rfl, filled, tokens_eq, fun u spelled => ?_, ?_⟩
      · exact Tree.tokens_injective (spelled.trans tokens_eq.symm)
      · simp only [Pass.recognition, result, Except.map, Except.ok.injEq] at h
        rw [← h, Output.text_ofEvents, Recognition.rules, filterMap_rule?_eq, translated,
          Tree.program_eq]

/-- The tree of `LET a = 1` has the tokens of its source, so the source compiles to what it
means. -/
theorem compilation_of_assignment :
    let tree : Tree := .simple (.assign "a" ⟨⟨⟨none, .number "1"⟩, []⟩, []⟩) .nil
    compilation "LET a = 1" = .ok ⟨tree.program, .program :: tree.rules⟩ := by
  intro tree
  have scanned : (tokensOf "LET a = 1").map (·.map (·.value)) =
      .ok [⟨.keyword .let_, "LET"⟩, ⟨.ident, "a"⟩, ⟨.assign, "="⟩, ⟨.number, "1"⟩,
        ⟨.newline, "\n"⟩] := by decide +kernel
  cases compiled : compilation "LET a = 1" with
  | error d =>
    have accepted : (compilation "LET a = 1").isOk = true := by decide +kernel
    simp [compiled, Except.isOk, Except.toBool] at accepted
  | ok c =>
    obtain ⟨ts, t, scanned', -, -, unique, rfl⟩ := compilation_eq_tree compiled
    rw [scanned', Except.map, Except.ok.injEq] at scanned
    have tokens_eq : tree.tokens = normalForm (ts.map (·.value)) := by
      rw [scanned]
      decide +kernel
    rw [unique tree tokens_eq]

end MiniBasic
