import MiniBasic.Proofs.Lookahead
import MiniBasic.Proofs.Spelling
import MiniBasic.Proofs.Translation

/-!
# From one goal to the next

A pass that ends well is followed goal by goal. `Leads` relates two configurations of it, with the
tokens that were read between them, newlines squeezed, and what they were translated to. From a
configuration that is accepted, an expression goal leads to the goals behind it, and what is read
and written on the way is that of the tree of an expression; so it is for the parts of an
expression.
-/

namespace MiniBasic

section
variable {stop : Location} {t : Located Token} {ts : List (Located Token)} {goal : Goal}
  {goals : List Goal} {names names' : Names} {events : List Event}

theorem recognition_run_of_pass
    (h : goal.meet (ts.headD (endToken stop)) names = .pass events names') :
    (Pass.run stop ts (goal :: goals) names).recognition =
      (Pass.run stop ts goals names').recognition.after events := by
  rw [Pass.run_eq, step_of_pass h, Pass.run_eq stop ts goals names']
  rcases step (ts.headD (endToken stop)) goals names' with ⟨more, names'', _ | _ | e⟩ <;>
    simp [Pass.recognition, Pass.events, Pass.after, Recognition.after]

theorem recognition_run_of_take {parts : List Goal}
    (h : goal.meet t names = .take events parts) :
    (Pass.run stop (t :: ts) (goal :: goals) names).recognition =
      (Pass.run stop ts (parts ++ goals) names).recognition.after events := by
  rw [Pass.run_eq, List.headD_cons, step_of_take h]
  exact Pass.recognition_after events _

theorem result_run_of_fail {e : Diagnostic}
    (h : goal.meet (ts.headD (endToken stop)) names = .fail events e) :
    (Pass.run stop ts (goal :: goals) names).result = .error e := by
  rw [Pass.run_eq, step_of_fail h]

end

/-! ## Configurations -/

/-- Where a pass stands. -/
structure Config where
  /-- Whether a newline was read last. -/
  blank : Bool
  tokens : List (Located Token)
  goals : List Goal
  names : Names

section
variable (stop : Location)

def Config.recognition (c : Config) : Recognition :=
  (Pass.run stop c.tokens c.goals c.names).recognition

/-- A pass ends well from here on. -/
structure Config.Accepted (c : Config) : Prop where
  spelled : ∀ t ∈ c.tokens, t.value.Spelled
  result : (c.recognition stop).result = .ok ()

/-- On the way from `c` to `c'` the tokens `toks` are read, newlines squeezed, and translated to
`tr`. -/
structure Leads (c : Config) (toks : List Token) (tr : Translation) (c' : Config) : Prop where
  reads : ∃ past, c.tokens = past ++ c'.tokens ∧ ∀ more,
    squeeze c.blank (past.map (·.value) ++ more) = toks ++ squeeze c'.blank more
  writes : ∃ events, c.recognition stop = (c'.recognition stop).after events ∧
    Translation.ofEvents events = tr

end

namespace Leads
variable {stop : Location} {c c' c'' : Config} {toks toks' : List Token} {tr tr' : Translation}

theorem refl (stop : Location) (c : Config) : Leads stop c [] .empty c :=
  ⟨⟨[], rfl, fun _ => rfl⟩, ⟨[], rfl, rfl⟩⟩

theorem trans (h : Leads stop c toks tr c') (h' : Leads stop c' toks' tr' c'') :
    Leads stop c (toks ++ toks') (tr ++ tr') c'' := by
  obtain ⟨⟨past, eq, squeezed⟩, ⟨events, same, translated⟩⟩ := h
  obtain ⟨⟨past', eq', squeezed'⟩, ⟨events', same', translated'⟩⟩ := h'
  constructor
  · refine ⟨past ++ past', by rw [eq, eq', List.append_assoc], fun more => ?_⟩
    rw [List.map_append, List.append_assoc, squeezed, squeezed', List.append_assoc]
  · refine ⟨events ++ events', ?_, by rw [Translation.ofEvents_append, translated, translated']⟩
    simp [same, same', Recognition.after]

theorem of_eq (h : Leads stop c toks tr c') (toks_eq : toks = toks') (tr_eq : tr = tr') :
    Leads stop c toks' tr' c' :=
  toks_eq ▸ tr_eq ▸ h

theorem accepted (h : Leads stop c toks tr c') (ok : c.Accepted stop) : c'.Accepted stop := by
  obtain ⟨⟨past, eq, _⟩, ⟨events, same, _⟩⟩ := h
  obtain ⟨spelled, result⟩ := ok
  refine ⟨fun t mem => spelled t ?_, ?_⟩
  · rw [eq]
    exact List.mem_append_right _ mem
  · rwa [same] at result

theorem length_le (h : Leads stop c toks tr c') : c'.tokens.length ≤ c.tokens.length := by
  obtain ⟨past, eq, _⟩ := h.reads
  simp [eq]

end Leads

section
variable {stop : Location} {t : Located Token} {ts : List (Located Token)} {goal : Goal}
  {goals parts : List Goal} {names names' : Names} {events : List Event} {b : Bool}

theorem leads_of_pass (h : goal.meet (ts.headD (endToken stop)) names = .pass events names') :
    Leads stop ⟨b, ts, goal :: goals, names⟩ [] (.ofEvents events) ⟨b, ts, goals, names'⟩ :=
  ⟨⟨[], rfl, fun _ => rfl⟩, ⟨events, recognition_run_of_pass h, rfl⟩⟩

theorem leads_of_take (h : goal.meet t names = .take events parts) (ne : t.kind ≠ .newline) :
    Leads stop ⟨b, t :: ts, goal :: goals, names⟩ [t.value] (.ofEvents events)
      ⟨false, ts, parts ++ goals, names⟩ :=
  ⟨⟨[t], rfl, fun more => by simp [squeeze, ne]⟩, ⟨events, recognition_run_of_take h, rfl⟩⟩

theorem leads_of_take_newline (h : goal.meet t names = .take events parts)
    (newline : t.kind = .newline) :
    Leads stop ⟨b, t :: ts, goal :: goals, names⟩ (if b then [] else [t.value]) (.ofEvents events)
      ⟨true, ts, parts ++ goals, names⟩ :=
  ⟨⟨[t], rfl, fun more => by simp [squeeze, newline]⟩, ⟨events, recognition_run_of_take h, rfl⟩⟩

theorem leads_event (e : Event) :
    Leads stop ⟨b, ts, .event e :: goals, names⟩ [] (.ofEvent e) ⟨b, ts, goals, names⟩ := by
  have pass : (Goal.event e).meet (ts.headD (endToken stop)) names = .pass [e] names := rfl
  exact (leads_of_pass pass).of_eq rfl (by simp)

theorem Config.Accepted.not_fail (ok : Config.Accepted stop ⟨b, ts, goal :: goals, names⟩)
    (events : List Event) (e : Diagnostic) :
    goal.meet (ts.headD (endToken stop)) names ≠ .fail events e := by
  intro fail
  have := ok.result
  rw [Config.recognition, Pass.recognition, result_run_of_fail fail] at this
  cases this

theorem exists_cons_of_take
    (h : goal.meet (ts.headD (endToken stop)) names = .take events parts) :
    ∃ t us, ts = t :: us ∧ goal.meet t names = .take events parts := by
  cases ts with
  | nil =>
    have taken : step (endToken stop) [goal] names = ⟨events, names, .consumed (parts ++ [])⟩ :=
      step_of_take h
    exact (Step.ne_eof_of_consumed (congrArg Step.outcome taken) rfl).elim
  | cons t us => exact ⟨t, us, rfl, h⟩

end

/-! ## Expressions -/

namespace Meeting

/-- The meeting with more events at its beginning. -/
def prepend (es : List Event) : Meeting → Meeting
  | pass events names => pass (es ++ events) names
  | take events goals => take (es ++ events) goals
  | fail events d => fail (es ++ events) d

@[simp] theorem prepend_nil (m : Meeting) : m.prepend [] = m := by
  cases m <;> rfl

theorem prepend_after (es : List Event) (e : Event) (m : Meeting) :
    (m.after e).prepend es = m.prepend (es ++ [e]) := by
  cases m <;> simp [after, prepend]

theorem after_eq_prepend (e : Event) (m : Meeting) : m.after e = m.prepend [e] := by
  cases m <;> rfl

end Meeting

section
variable {stop : Location} {ts : List (Located Token)} {goal : Goal} {goals : List Goal}
  {names : Names} {b : Bool}

theorem Token.eq_of_kind {t : Token} {k : Kind} (kind : t.kind = k) : t = ⟨k, t.text⟩ := by
  rw [← kind]

theorem leads_operand (es : List Event) (rest : List Goal)
    (ok : Config.Accepted stop ⟨b, ts, goal :: goals, names⟩)
    (meet : goal.meet (ts.headD (endToken stop)) names =
      (Meeting.primary (ts.headD (endToken stop)) names rest).prepend es) :
    ∃ (o : Operand) (us : List (Located Token)),
      Leads stop ⟨b, ts, goal :: goals, names⟩ [o.token]
        (.ofEvents es ++ ⟨"", o.code, [.primary o.code]⟩) ⟨false, us, rest ++ goals, names⟩ := by
  cases ts with
  | nil => exact absurd meet (ok.not_fail _ _)
  | cons t us =>
    rw [List.headD_cons] at meet
    unfold Meeting.primary at meet
    split at meet
    next kind =>
      refine ⟨.number t.text, us, (leads_of_take meet (by simp [kind])).of_eq ?_ ?_⟩
      · rw [Token.eq_of_kind kind]
        rfl
      · simp [Translation.ofEvents_append, Translation.ofEvent, Operand.code]
    next kind =>
      split at meet
      next =>
        refine ⟨.variable_ t.text, us, (leads_of_take meet (by simp [kind])).of_eq ?_ ?_⟩
        · rw [Token.eq_of_kind kind]
          rfl
        · simp [Translation.ofEvents_append, Translation.ofEvent, Operand.code]
      next => exact absurd meet (ok.not_fail _ _)
    next => exact absurd meet (ok.not_fail _ _)

theorem leads_factor (es : List Event) (rest : List Goal)
    (ok : Config.Accepted stop ⟨b, ts, goal :: goals, names⟩)
    (meet : goal.meet (ts.headD (endToken stop)) names =
      (Meeting.unary (ts.headD (endToken stop)) names rest).prepend es) :
    ∃ (f : Factor) (us : List (Located Token)),
      Leads stop ⟨b, ts, goal :: goals, names⟩ f.tokens (.ofEvents es ++ ⟨"", f.code, f.rules⟩)
        ⟨false, us, rest ++ goals, names⟩ := by
  cases ts with
  | nil => exact absurd meet (ok.not_fail _ _)
  | cons t us =>
    rw [List.headD_cons] at meet
    have signed (sign : Sign) (kind : t.kind = sign.token.kind) (meet : goal.meet t names = .take
        (es ++ [.enter (.unary (some t.text)), .fragment t.text]) (.primary :: rest)) :
        ∃ (f : Factor) (us' : List (Located Token)),
          Leads stop ⟨b, t :: us, goal :: goals, names⟩ f.tokens
            (.ofEvents es ++ ⟨"", f.code, f.rules⟩) ⟨false, us', rest ++ goals, names⟩ := by
      have value : t.value = sign.token :=
        (ok.spelled t (by simp)).eq kind (by cases sign <;> rfl)
      have text : t.text = sign.token.text := congrArg Token.text value
      have ne : t.kind ≠ .newline := by rw [kind]; cases sign <;> nofun
      have first : Leads stop ⟨b, t :: us, goal :: goals, names⟩ _ _ ⟨false, us, _, names⟩ :=
        leads_of_take meet ne
      obtain ⟨o, us', second⟩ := leads_operand [] [] (first.accepted ok)
        (Meeting.prepend_nil _).symm
      refine ⟨⟨some sign, o⟩, us', (first.trans second).of_eq ?_ ?_⟩
      · simp [Factor.tokens, value]
      · simp [Translation.ofEvents_append, Translation.ofEvent, Factor.code, Factor.rules,
          Translation.append_assoc, text]
    unfold Meeting.unary at meet
    split at meet
    next kind => exact signed .plus kind meet
    next kind => exact signed .minus kind meet
    next =>
      rw [Meeting.prepend_after] at meet
      obtain ⟨o, us', leads⟩ := leads_operand _ _ ok meet
      refine ⟨⟨none, o⟩, us', leads.of_eq rfl ?_⟩
      simp [Translation.ofEvents_append, Translation.ofEvent, Factor.code, Factor.rules,
        Translation.append_assoc]

end

/-- The code of operands with operators between them. -/
private theorem foldl_code {α β : Type} (op : α → String) (code : β → String) (first : String)
    (xs : List (α × β)) :
    xs.foldl (fun c x => c ++ " " ++ op x.1 ++ " " ++ code x.2) first =
      first ++ String.join (xs.map fun x => " " ++ op x.1 ++ " " ++ code x.2) := by
  induction xs generalizing first with
  | nil => simp
  | cons x xs ih =>
    rw [List.foldl_cons, ih, List.map_cons, String.join_cons]
    simp [String.append_assoc]

theorem Term.code_eq (x : Term) : x.code =
    x.first.code ++ String.join (x.rest.map fun y => " " ++ y.1.token.text ++ " " ++ y.2.code) :=
  foldl_code (fun op : Scale => op.token.text) Factor.code _ _

theorem Expression.code_eq (e : Expression) : e.code =
    e.first.code ++ String.join (e.rest.map fun y => " " ++ y.1.token.text ++ " " ++ y.2.code) :=
  foldl_code (fun op : Sign => op.token.text) Term.code _ _

theorem Comparison.code_eq (c : Comparison) : c.code = c.left.code ++
    String.join (((c.relation, c.right) :: c.rest).map fun y =>
      " " ++ y.1.token.text ++ " " ++ y.2.code) :=
  foldl_code Relation.symbol Expression.code _ _

section
variable {stop : Location} {α β : Type} {op : α → Token} {tokens : β → List Token}
  {code : β → String} {rules : β → List Rule} {goal operand : Goal}

/-- A goal that takes an operator and an operand, as long as there is an operator of its own. -/
theorem leads_repeated (own : Kind → Prop) [DecidablePred own]
    (meet : ∀ t names, goal.meet t names =
      if own t.kind then Meeting.operator t [operand, goal] else .pass [] names)
    (read_op : ∀ t : Token, t.Spelled → own t.kind → ∃ a, t = op a)
    (ne_newline : ∀ a, (op a).kind ≠ .newline)
    (read_operand : ∀ {ts goals names}, Config.Accepted stop ⟨false, ts, operand :: goals, names⟩ →
      ∃ x us, Leads stop ⟨false, ts, operand :: goals, names⟩ (tokens x) ⟨"", code x, rules x⟩
        ⟨false, us, goals, names⟩)
    {ts : List (Located Token)} {goals : List Goal} {names : Names}
    (ok : Config.Accepted stop ⟨false, ts, goal :: goals, names⟩) :
    ∃ (xs : List (α × β)) (us : List (Located Token)),
      Leads stop ⟨false, ts, goal :: goals, names⟩ (xs.flatMap fun y => op y.1 :: tokens y.2)
        ⟨"", String.join (xs.map fun y => " " ++ (op y.1).text ++ " " ++ code y.2),
          xs.flatMap fun y => rules y.2⟩ ⟨false, us, goals, names⟩ := by
  induction n : ts.length using Nat.strong_induction_on generalizing ts with
  | _ n ih =>
  by_cases mine : own (ts.headD (endToken stop)).kind
  · have take := meet (ts.headD (endToken stop)) names
    rw [if_pos mine] at take
    obtain ⟨t, us, rfl, -⟩ := exists_cons_of_take take
    rw [List.headD_cons] at take mine
    obtain ⟨a, value⟩ := read_op t.value (ok.spelled t (by simp)) mine
    have ne : t.kind ≠ .newline := by
      rw [show t.kind = (op a).kind from congrArg Token.kind value]
      exact ne_newline a
    have text : t.text = (op a).text := congrArg Token.text value
    have first : Leads stop ⟨false, t :: us, goal :: goals, names⟩ _ _ ⟨false, us, _, names⟩ :=
      leads_of_take take ne
    obtain ⟨x, us', second⟩ := read_operand (first.accepted ok)
    have both := first.trans second
    obtain ⟨xs, us'', third⟩ :=
      ih us'.length (by have := second.length_le; simp_all; omega) (both.accepted ok) rfl
    refine ⟨(a, x) :: xs, us'', (both.trans third).of_eq ?_ ?_⟩
    · simp [value]
    · simp [Translation.ofEvent, text, String.append_assoc]
  · have pass := meet (ts.headD (endToken stop)) names
    rw [if_neg mine] at pass
    exact ⟨[], ts, leads_of_pass pass⟩

end

section
variable {stop : Location} {ts : List (Located Token)} {goal : Goal} {goals : List Goal}
  {names : Names} {b : Bool}

theorem leads_factors (ok : Config.Accepted stop ⟨false, ts, .factors :: goals, names⟩) :
    ∃ (xs : List (Scale × Factor)) (us : List (Located Token)),
      Leads stop ⟨false, ts, .factors :: goals, names⟩
        (xs.flatMap fun y => y.1.token :: y.2.tokens)
        ⟨"", String.join (xs.map fun y => " " ++ y.1.token.text ++ " " ++ y.2.code),
          xs.flatMap fun y => y.2.rules⟩ ⟨false, us, goals, names⟩ := by
  refine leads_repeated (fun k => k = .times ∨ k = .divide) (fun t names => rfl)
    (fun t spelled own => ?_) (fun op => ?_) ?_ ok
  · rcases own with kind | kind
    · exact ⟨.times, spelled.eq kind rfl⟩
    · exact ⟨.divide, spelled.eq kind rfl⟩
  · cases op <;> nofun
  · intro ts goals names ok
    exact leads_factor [] [] ok (Meeting.prepend_nil _).symm

theorem leads_term (es : List Event) (rest : List Goal)
    (ok : Config.Accepted stop ⟨b, ts, goal :: goals, names⟩)
    (meet : goal.meet (ts.headD (endToken stop)) names =
      (Meeting.term (ts.headD (endToken stop)) names rest).prepend es) :
    ∃ (x : Term) (us : List (Located Token)),
      Leads stop ⟨b, ts, goal :: goals, names⟩ x.tokens (.ofEvents es ++ ⟨"", x.code, x.rules⟩)
        ⟨false, us, rest ++ goals, names⟩ := by
  rw [Meeting.term, Meeting.prepend_after] at meet
  obtain ⟨first, us, leads⟩ := leads_factor _ _ ok meet
  obtain ⟨xs, us', leads'⟩ := leads_factors (leads.accepted ok)
  refine ⟨⟨first, xs⟩, us', (leads.trans leads').of_eq rfl ?_⟩
  simp [Translation.ofEvents_append, Translation.ofEvent, Translation.append_assoc, Term.code_eq,
    Term.rules]

theorem leads_sums (ok : Config.Accepted stop ⟨false, ts, .sums :: goals, names⟩) :
    ∃ (xs : List (Sign × Term)) (us : List (Located Token)),
      Leads stop ⟨false, ts, .sums :: goals, names⟩
        (xs.flatMap fun y => y.1.token :: y.2.tokens)
        ⟨"", String.join (xs.map fun y => " " ++ y.1.token.text ++ " " ++ y.2.code),
          xs.flatMap fun y => y.2.rules⟩ ⟨false, us, goals, names⟩ := by
  refine leads_repeated (fun k => k = .plus ∨ k = .minus) (fun t names => rfl)
    (fun t spelled own => ?_) (fun op => ?_) ?_ ok
  · rcases own with kind | kind
    · exact ⟨.plus, spelled.eq kind rfl⟩
    · exact ⟨.minus, spelled.eq kind rfl⟩
  · cases op <;> nofun
  · intro ts goals names ok
    exact leads_term [] [] ok (Meeting.prepend_nil _).symm

theorem leads_expression (es : List Event) (rest : List Goal)
    (ok : Config.Accepted stop ⟨b, ts, goal :: goals, names⟩)
    (meet : goal.meet (ts.headD (endToken stop)) names =
      (Meeting.expression (ts.headD (endToken stop)) names rest).prepend es) :
    ∃ (x : Expression) (us : List (Located Token)),
      Leads stop ⟨b, ts, goal :: goals, names⟩ x.tokens (.ofEvents es ++ ⟨"", x.code, x.rules⟩)
        ⟨false, us, rest ++ goals, names⟩ := by
  rw [Meeting.expression, Meeting.prepend_after] at meet
  obtain ⟨first, us, leads⟩ := leads_term _ _ ok meet
  obtain ⟨xs, us', leads'⟩ := leads_sums (leads.accepted ok)
  refine ⟨⟨first, xs⟩, us', (leads.trans leads').of_eq rfl ?_⟩
  simp [Translation.ofEvents_append, Translation.ofEvent, Translation.append_assoc,
    Expression.code_eq, Expression.rules]

theorem Token.Spelled.exists_relation {t : Token} (h : t.Spelled) (own : t.kind.isRelation) :
    ∃ r : Relation, t = r.token := by
  cases kind : t.kind with
  | relation r => exact ⟨r, h.eq kind rfl⟩
  | _ => simp [kind, Kind.isRelation] at own

theorem leads_relations (ok : Config.Accepted stop ⟨false, ts, .relations :: goals, names⟩) :
    ∃ (xs : List (Relation × Expression)) (us : List (Located Token)),
      Leads stop ⟨false, ts, .relations :: goals, names⟩
        (xs.flatMap fun y => y.1.token :: y.2.tokens)
        ⟨"", String.join (xs.map fun y => " " ++ y.1.token.text ++ " " ++ y.2.code),
          xs.flatMap fun y => y.2.rules⟩ ⟨false, us, goals, names⟩ := by
  refine leads_repeated (fun k => k.isRelation) (fun t names => rfl)
    (fun t spelled own => ?_) (fun op => by simp [Relation.token]) ?_ ok
  · exact spelled.exists_relation own
  · intro ts goals names ok
    exact leads_expression [] [] ok (Meeting.prepend_nil _).symm

theorem leads_relation (ok : Config.Accepted stop ⟨false, ts, .relation :: goals, names⟩) :
    ∃ (r : Relation) (us : List (Located Token)),
      Leads stop ⟨false, ts, .relation :: goals, names⟩ [r.token] ⟨"", " " ++ r.symbol ++ " ", []⟩
        ⟨false, us, .expression :: .relations :: goals, names⟩ := by
  by_cases own : (ts.headD (endToken stop)).kind.isRelation
  · have take : Goal.relation.meet (ts.headD (endToken stop)) names =
        Meeting.operator (ts.headD (endToken stop)) [.expression, .relations] := if_pos own
    obtain ⟨t, us, rfl, -⟩ := exists_cons_of_take take
    rw [List.headD_cons] at take
    obtain ⟨r, value⟩ := (ok.spelled t (by simp)).exists_relation own
    have kind : t.kind = .relation r := congrArg Token.kind value
    have text : t.text = r.symbol := congrArg Token.text value
    refine ⟨r, us, (leads_of_take take (by simp [kind])).of_eq (by rw [value]) ?_⟩
    simp [Translation.ofEvent, text]
  · exact absurd (if_neg own) (ok.not_fail _ _)

/-- A comparison has the operator that `relation` insists on, and then as many as there are. -/
theorem leads_comparison (ok : Config.Accepted stop ⟨b, ts, .comparison :: goals, names⟩) :
    ∃ (c : Comparison) (us : List (Located Token)),
      Leads stop ⟨b, ts, .comparison :: goals, names⟩ c.tokens ⟨"", c.code, c.rules⟩
        ⟨false, us, goals, names⟩ := by
  obtain ⟨left, us, first⟩ := leads_expression _ [.relation] ok
    (Meeting.after_eq_prepend _ _)
  obtain ⟨relation, us, second⟩ := leads_relation (first.accepted ok)
  have two := first.trans second
  obtain ⟨right, us, third⟩ := leads_expression [] [] (two.accepted ok)
    (Meeting.prepend_nil _).symm
  have three := two.trans third
  obtain ⟨rest, us, fourth⟩ := leads_relations (three.accepted ok)
  refine ⟨⟨left, relation, right, rest⟩, us, (three.trans fourth).of_eq ?_ ?_⟩
  · simp [Comparison.tokens]
  · simp [Translation.ofEvent, Comparison.code_eq, Comparison.rules, Relation.token,
      String.append_assoc]

end

end MiniBasic
