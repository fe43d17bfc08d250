import MiniBasic.Proofs.NormalForm
import MiniBasic.Proofs.Renaming

/-!
# Names may be renamed

A recognition compares names and hands them on, and it does nothing else with them. So with other
names the same goals are met and the same events announced, but for the names in them:
`Goal.Renamed.meet` says so of one goal, `step_renamed` of one token, `Pass.run_renamed` of a whole
pass and `recognition_renamed` of two sources.
-/

namespace MiniBasic

/-! ## Two recognitions -/

/-- The events in front of a token that is not taken. When the rule of an operand has been entered
for it, and it is no identifier, then its text stays. -/
inductive Told (r : String → String) (t : Token) : List Event → List Event → Prop
  | renamed {events events' : List Event} (told : List.Forall₂ (Event.Renamed r) events events') :
    Told r t events events'
  | operand {events events' : List Event} (not_ident : t.kind ≠ .ident)
    (told : List.Forall₂ (Event.Renamed r) events events') :
    Told r t (events ++ [.enter (.primary t.text)]) (events' ++ [.enter (.primary t.text)])

/-- How both are refused at a token: for a name, or for the token. -/
inductive Refused (r : String → String) (t : Located Token) :
    List Event → Diagnostic → List Event → Diagnostic → Prop
  | names {events events' : List Event} (told : List.Forall₂ (Event.Renamed r) events events')
    (e : Located NameError) : Refused r t events (.names e) events' (.names (e.map (·.rename r)))
  | grammar {events events' : List Event} (told : Told r t.value events events')
    (e : GrammarError) : Refused r t events (.grammar (t.replace e)) events'
      (.grammar (t.replace (e.rename r t.kind)))

section
variable {r : String → String} {events events' front front' : List Event}

theorem Told.append {t : Token} (h : Told r t events events')
    (told : List.Forall₂ (Event.Renamed r) front front') :
    Told r t (front ++ events) (front' ++ events') := by
  cases h with
  | renamed h => exact .renamed (List.rel_append told h)
  | operand not_ident h =>
    rw [← List.append_assoc, ← List.append_assoc]
    exact .operand not_ident (List.rel_append told h)

theorem Told.of_ident {t : Token} (h : Told r t events events') (ident : t.kind = .ident) :
    List.Forall₂ (Event.Renamed r) events events' := by
  cases h with
  | renamed told => exact told
  | operand not_ident => exact absurd ident not_ident

theorem Refused.append {t : Located Token} {d d' : Diagnostic} (h : Refused r t events d events' d')
    (told : List.Forall₂ (Event.Renamed r) front front') :
    Refused r t (front ++ events) d (front' ++ events') d' := by
  cases h with
  | names h e => exact .names (List.rel_append told h) e
  | grammar h e => exact .grammar (h.append told) e

end

/-! ## Meetings -/

namespace Located
variable {r : String → String} {t : Located Token}

@[simp] theorem kind_map_rename : (t.map (·.rename r)).kind = t.kind := rfl

theorem text_map_rename_of_ident (ident : t.kind = .ident) :
    (t.map (·.rename r)).text = r t.text :=
  if_pos ident

theorem text_map_rename (not_ident : t.kind ≠ .ident) : (t.map (·.rename r)).text = t.text :=
  if_neg not_ident

end Located

namespace Meeting

/-- The two meetings of a token are the same but for the names in them. -/
inductive Renamed (r : String → String) (t : Located Token) : Meeting → Meeting → Prop
  | pass {events events' : List Event} {names : Names}
    (told : List.Forall₂ (Event.Renamed r) events events') (words : names.Words) :
    Renamed r t (pass events names) (pass events' (names.rename r))
  | take {events events' : List Event} {parts parts' : List Goal}
    (told : List.Forall₂ (Event.Renamed r) events events')
    (goals : List.Forall₂ (Goal.Renamed r) parts parts') :
    Renamed r t (take events parts) (take events' parts')
  | fail {events events' : List Event} {d d' : Diagnostic}
    (refused : Refused r t events d events' d') : Renamed r t (fail events d) (fail events' d')

variable {r : String → String} {t : Located Token} {names : Names} {rest rest' : List Goal}

theorem Renamed.after {m m' : Meeting} (h : Renamed r t m m') {e : Event} (nameless : e.Nameless) :
    Renamed r t (m.after e) (m'.after e) := by
  have told : List.Forall₂ (Event.Renamed r) [e] [e] := .cons (.nameless nameless) .nil
  cases h with
  | pass h words => exact .pass (List.rel_append told h) words
  | take h goals => exact .take (List.rel_append told h) goals
  | fail refused => exact .fail (refused.append told)

theorem renamed_refuse (e : GrammarError) :
    Renamed r t (refuse [] t e) (refuse [] (t.map (·.rename r)) (e.rename r t.kind)) :=
  .fail (.grammar (.renamed .nil) e)

theorem renamed_statement (behind : List.Forall₂ (Goal.Renamed r) rest rest') :
    Renamed r t (statement t rest) (statement (t.map (·.rename r)) rest') := by
  have refused : Renamed r t (refuse [] t (.invalidStatement t.text t.kind))
      (refuse [] (t.map (·.rename r)) (.invalidStatement (t.map (·.rename r)).text t.kind)) :=
    renamed_refuse (.invalidStatement t.text t.kind)
  have rule : (Event.enter (.statement t.kind)).Nameless := Event.nameless_enter nofun
  simp only [statement, Located.kind_map_rename]
  cases kind : t.kind with
  | keyword k =>
    rw [kind] at refused rule
    cases parts_eq : Goal.ofKeyword? k with
    | some parts =>
      have same := Goal.renamed_of_nameless (r := r) (Goal.nameless_ofKeyword parts_eq)
      simp only [parts_eq]
      exact .take (.cons (.nameless rule) .nil) (List.rel_append same behind)
    | none =>
      simp only [parts_eq]
      exact refused
  | _ =>
    rw [kind] at refused
    exact refused

theorem renamed_primary (renames : Renaming r) (scanned : t.value.Scanned) (words : names.Words)
    (behind : List.Forall₂ (Goal.Renamed r) rest rest') :
    Renamed r t (primary t names rest) (primary (t.map (·.rename r)) (names.rename r) rest') := by
  simp only [primary, Located.kind_map_rename]
  cases kind : t.kind with
  | number =>
    obtain ⟨rule, written⟩ := Event.nameless_number (scanned.lexical.number kind)
    rw [Located.text_map_rename (by simp [kind])]
    exact .take (.cons (.nameless rule) (.cons (.nameless written) .nil)) behind
  | ident =>
    have word := scanned.lexical.ident kind
    have rule : Event.Renamed r (.enter (.primary t.text)) (.enter (.primary (r t.text))) :=
      .named .rule word
    have written : Event.Renamed r (.fragment t.text) (.fragment (r t.text)) := .named .operand word
    have required : (names.rename r).requireVariable
        ((t.map (·.rename r)).replace (r t.text)) = _ :=
      Names.requireVariable_rename renames words (x := t.replace t.text) word
    rw [Located.text_map_rename_of_ident kind, required]
    cases names.requireVariable (t.replace t.text) with
    | ok => exact .take (.cons rule (.cons written .nil)) behind
    | error e => exact .fail (.names (.cons rule .nil) e)
  | _ =>
    -- The text of a string may look like a name, and it stays in the rule nevertheless.
    have not_ident : t.kind ≠ .ident := by simp [kind]
    have told : Told r t.value [.enter (.primary t.text)]
        [.enter (.primary (t.map (·.rename r)).text)] := by
      rw [Located.text_map_rename not_ident]
      exact .operand not_ident .nil
    exact .fail (.grammar told (.unexpectedPrimary t.text))

theorem renamed_unary (renames : Renaming r) (scanned : t.value.Scanned) (words : names.Words)
    (behind : List.Forall₂ (Goal.Renamed r) rest rest') :
    Renamed r t (unary t names rest) (unary (t.map (·.rename r)) (names.rename r) rest') := by
  have sign (not_ident : t.kind ≠ .ident) (written : (Event.fragment t.text).Nameless) :
      Renamed r t (take [.enter (.unary (some t.text)), .fragment t.text] (.primary :: rest))
        (take [.enter (.unary (some (t.map (·.rename r)).text)),
          .fragment (t.map (·.rename r)).text] (.primary :: rest')) := by
    have rule : (Event.enter (.unary (some t.text))).Nameless := Event.nameless_enter nofun
    rw [Located.text_map_rename not_ident]
    exact .take (.cons (.nameless rule) (.cons (.nameless written) .nil))
      (.cons (.nameless trivial) behind)
  have unsigned : (Event.enter (.unary none)).Nameless := Event.nameless_enter nofun
  have operand := (renamed_primary renames scanned words behind).after unsigned
  simp only [unary, Located.kind_map_rename]
  cases kind : t.kind with
  | plus | minus =>
    have text_eq : t.text = _ := scanned.text_of_kind kind rfl
    refine sign (by simp [kind]) ?_
    rw [text_eq]
    exact Event.nameless_fragment (Event.plain_fragment_of_shape (by decide) (by decide))
  | _ => exact operand

theorem renamed_term (renames : Renaming r) (scanned : t.value.Scanned) (words : names.Words)
    (behind : List.Forall₂ (Goal.Renamed r) rest rest') :
    Renamed r t (term t names rest) (term (t.map (·.rename r)) (names.rename r) rest') := by
  have factors : Goal.Nameless .factors := trivial
  exact (renamed_unary renames scanned words (.cons (.nameless factors) behind)).after
    (Event.nameless_enter nofun)

theorem renamed_expression (renames : Renaming r) (scanned : t.value.Scanned) (words : names.Words)
    (behind : List.Forall₂ (Goal.Renamed r) rest rest') :
    Renamed r t (expression t names rest)
      (expression (t.map (·.rename r)) (names.rename r) rest') := by
  have sums : Goal.Nameless .sums := trivial
  exact (renamed_term renames scanned words (.cons (.nameless sums) behind)).after
    (Event.nameless_enter nofun)

theorem renamed_operator (not_ident : t.kind ≠ .ident) {operand : List Goal}
    (nameless : ∀ g ∈ operand, g.Nameless) :
    Renamed r t (operator t operand) (operator (t.map (·.rename r)) operand) := by
  have written : (Event.fragment (" " ++ t.text ++ " ")).Nameless :=
    Event.nameless_fragment (Event.plain_operator t.text)
  simp only [operator, Located.text_map_rename not_ident]
  exact .take (.cons (.nameless written) .nil) (Goal.renamed_of_nameless nameless)

theorem renamed_ite {p : Prop} [Decidable p] {a b a' b' : Meeting} (ha : p → Renamed r t a a')
    (hb : ¬p → Renamed r t b b') : Renamed r t (if p then a else b) (if p then a' else b') := by
  split
  next h => exact ha h
  next h => exact hb h

end Meeting

namespace Goal
variable {r : String → String} {t : Located Token} {goal goal' : Goal} {names : Names}

open Meeting in
theorem Nameless.meet (h : goal.Nameless) (renames : Renaming r) (scanned : t.value.Scanned)
    (words : names.Words) : Meeting.Renamed r t (goal.meet t names)
      (goal.meet (t.map (·.rename r)) (names.rename r)) := by
  have same {parts : List Goal} (nameless : ∀ g ∈ parts, g.Nameless) :=
    renamed_of_nameless (r := r) nameless
  cases goal with
  | introduce | placeLabel | jumpTo => exact h.elim
  | event e => exact .pass (.cons (.nameless h) .nil) words
  | checkJumps =>
    simp only [Goal.meet, Names.checkJumps_rename renames words]
    cases names.checkJumps with
    | error e => exact .fail (.names .nil e)
    | ok => exact .pass .nil words
  | keyword k =>
    exact renamed_ite (fun _ => .take .nil .nil) fun _ =>
      renamed_refuse (.unexpectedToken (.keyword k) t.kind)
  | assign =>
    exact renamed_ite (fun _ => .take .nil .nil) fun _ =>
      renamed_refuse (.unexpectedToken .assign t.kind)
  | name use =>
    refine renamed_ite (fun ident => ?_) fun _ => renamed_refuse (.unexpectedToken .ident t.kind)
    rw [Located.text_map_rename_of_ident ident]
    exact .take .nil (renamed_ofName use (x := t.replace t.text) (scanned.lexical.ident ident))
  | lineEnd =>
    have told : List.Forall₂ (Event.Renamed r) [.enter .newline] [.enter .newline] :=
      .cons (.nameless (Event.nameless_enter (by simp))) .nil
    exact renamed_ite (fun _ => .take told (same (by simp [Nameless]))) fun _ =>
      .fail (.grammar (.renamed told) (.unexpectedToken .newline t.kind))
  | newlines =>
    exact renamed_ite (fun _ => .take .nil (same (by simp [Nameless]))) fun _ => .pass .nil words
  | statements =>
    exact renamed_ite (fun _ => .pass .nil words) fun _ =>
      renamed_statement (same (by simp [Nameless]))
  | block closing =>
    exact renamed_ite (fun _ => renamed_refuse (.emptyBody (.keyword closing))) fun _ =>
      renamed_statement (same (by simp [Nameless]))
  | blockRest closing =>
    exact renamed_ite (fun _ => .take .nil .nil) fun _ =>
      renamed_statement (same (by simp [Nameless]))
  | printed =>
    refine renamed_ite (fun string => ?_) fun _ => ?_
    · have written : (Event.line ("printf(\"" ++ t.text ++ "\\n\");")).Nameless :=
        Event.nameless_line (Event.plain_printText t.text)
          (Event.unmarked_line (c := '(') (by simp) rfl (by decide))
      rw [Located.text_map_rename (by simp [string])]
      exact .take (.cons (.nameless written) .nil) .nil
    · have closing : (Event.line "));").Nameless :=
        Event.nameless_of_head (by decide) (by decide) rfl (by decide)
      have behind : ∀ g ∈ [line "));"], g.Nameless := List.forall_mem_singleton.mpr closing
      exact (renamed_expression renames scanned words (same behind)).after
        (Event.nameless_fragment (Event.plain_fragment_of_shape (by decide) (by decide)))
  | comparison =>
    exact (renamed_expression renames scanned words (same (by simp [Nameless]))).after
      (Event.nameless_enter (by simp))
  | relation =>
    refine renamed_ite (fun own => renamed_operator ?_ (by simp [Nameless])) fun _ =>
      renamed_refuse (.expectedComparison t.text)
    intro ident
    simp [ident, Kind.isRelation] at own
  | relations =>
    refine renamed_ite (fun own => renamed_operator ?_ (by simp [Nameless])) fun _ =>
      .pass .nil words
    intro ident
    simp [ident, Kind.isRelation] at own
  | sums | factors =>
    refine renamed_ite (fun own => renamed_operator ?_ (by simp [Nameless])) fun _ =>
      .pass .nil words
    intro ident
    simp [ident] at own
  | expression => exact renamed_expression renames scanned words .nil
  | term => exact renamed_term renames scanned words .nil
  | unary => exact renamed_unary renames scanned words .nil
  | primary => exact renamed_primary renames scanned words .nil

theorem Renamed.meet (h : goal.Renamed r goal') (renames : Renaming r) (scanned : t.value.Scanned)
    (words : names.Words) : Meeting.Renamed r t (goal.meet t names)
      (goal'.meet (t.map (·.rename r)) (names.rename r)) := by
  cases h with
  | event h => exact .pass (.cons h .nil) words
  | @introduce x word =>
    have renamed := Names.introduce_rename renames words word
    simp only [Goal.meet, renamed]
    cases ok : names.introduce x with
    | error e => exact .fail (.names .nil e)
    | ok known =>
      obtain ⟨_ | _, names'⟩ := known
      · exact .pass .nil (words.introduce word ok)
      · exact .pass (.cons (.named .declaration word) .nil) (words.introduce word ok)
  | @placeLabel x word =>
    have renamed := Names.placeLabel_rename renames words word
    simp only [Goal.meet, renamed]
    cases ok : names.placeLabel x with
    | error e => exact .fail (.names .nil e)
    | ok names' => exact .pass (.cons (.named .label word) .nil) (words.placeLabel word ok)
  | @jumpTo x word =>
    simp only [Goal.meet, Names.jumpTo_rename renames words word]
    exact .pass (.cons (.named .jump word) .nil) (words.jumpTo word)
  | nameless h => exact h.meet renames scanned words

end Goal

/-! ## Passes -/

/-- The two steps over a token are the same but for the names in them. -/
inductive Step.Renamed (r : String → String) (t : Located Token) : Step → Step → Prop
  | consumed {events events' : List Event} {names : Names} {goals goals' : List Goal}
    (told : List.Forall₂ (Event.Renamed r) events events') (words : names.Words)
    (left : List.Forall₂ (Goal.Renamed r) goals goals') :
    Renamed r t ⟨events, names, .consumed goals⟩ ⟨events', names.rename r, .consumed goals'⟩
  | finished {events events' : List Event} {names names' : Names}
    (told : List.Forall₂ (Event.Renamed r) events events') :
    Renamed r t ⟨events, names, .finished⟩ ⟨events', names', .finished⟩
  | failed {events events' : List Event} {names names' : Names} {d d' : Diagnostic}
    (refused : Refused r t events d events' d') :
    Renamed r t ⟨events, names, .failed d⟩ ⟨events', names', .failed d'⟩

section
variable {r : String → String} {t : Located Token}

theorem Step.Renamed.prepend {s s' : Step} (h : s.Renamed r t s') {front front' : List Event}
    (told : List.Forall₂ (Event.Renamed r) front front') :
    Step.Renamed r t { s with events := front ++ s.events }
      { s' with events := front' ++ s'.events } := by
  cases h with
  | consumed h words left => exact .consumed (List.rel_append told h) words left
  | finished h => exact .finished (List.rel_append told h)
  | failed refused => exact .failed (refused.append told)

theorem step_renamed (renames : Renaming r) (scanned : t.value.Scanned) {goals goals' : List Goal}
    (h : List.Forall₂ (Goal.Renamed r) goals goals') {names : Names} (words : names.Words) :
    Step.Renamed r t (step t goals names)
      (step (t.map (·.rename r)) goals' (names.rename r)) := by
  induction h generalizing names with
  | nil => exact .finished .nil
  | @cons goal goal' goals goals' first behind ih =>
    have met := first.meet renames scanned words
    generalize meet : goal.meet t names = m at met
    generalize meet' : goal'.meet (t.map (·.rename r)) (names.rename r) = m' at met
    cases met with
    | pass told words =>
      rw [step_of_pass meet, step_of_pass meet']
      exact (ih words).prepend told
    | take told parts =>
      rw [step_of_take meet, step_of_take meet']
      exact .consumed told words (List.rel_append parts behind)
    | fail refused =>
      rw [step_of_fail meet, step_of_fail meet']
      exact .failed refused

end

namespace Pass

/-- Both passes are accepted, or both are refused at the same one of the tokens, and they are the
same but for the names in them. -/
inductive Renamed (r : String → String) (ts : List (Located Token)) (p p' : Pass) : Prop
  | accepted (told : List.Forall₂ (Event.Renamed r) p.events p'.events) (ok : p.result = .ok ())
    (ok' : p'.result = .ok ())
  | refused {t : Located Token} (mem : t ∈ ts) {d d' : Diagnostic}
    (refused : Refused r t p.events d p'.events d') (error : p.result = .error d)
    (error' : p'.result = .error d')

section
variable {r : String → String} {ts : List (Located Token)} {p p' : Pass}

theorem events_after (events : List Event) (p : Pass) :
    (p.after events).events = events ++ p.events :=
  congrArg Recognition.events (recognition_after events p)

theorem Renamed.after (h : Renamed r ts p p') {events events' : List Event}
    (told : List.Forall₂ (Event.Renamed r) events events') (t : Located Token) :
    Renamed r (t :: ts) (p.after events) (p'.after events') := by
  cases h with
  | accepted h ok ok' =>
    refine .accepted ?_ ok ok'
    rw [events_after, events_after]
    exact List.rel_append told h
  | refused mem refused error error' =>
    refine .refused (List.mem_cons_of_mem t mem) ?_ error error'
    rw [events_after, events_after]
    exact refused.append told

theorem run_renamed (renames : Renaming r) (stop : Location) (scanned : ∀ t ∈ ts, t.value.Scanned)
    {goals goals' : List Goal} (h : List.Forall₂ (Goal.Renamed r) goals goals') {names : Names}
    (words : names.Words) : Renamed r (ts ++ [endToken stop]) (run stop ts goals names)
      (run stop (ts.map (·.map (·.rename r))) goals' (names.rename r)) := by
  induction ts generalizing goals goals' names with
  | nil =>
    have first := step_renamed renames (t := endToken stop) .eof h words
    rw [List.map_nil, run_eq, run_eq stop, List.headD_nil]
    generalize last : step (endToken stop) goals names = s at first ⊢
    change Step.Renamed r _ s (step (endToken stop) goals' (names.rename r)) at first
    generalize step (endToken stop) goals' (names.rename r) = s' at first ⊢
    -- The end of the input has no text to rename, so both passes are at the same token.
    cases first with
    | consumed => exact absurd rfl (Step.ne_eof_of_consumed (congrArg Step.outcome last))
    | finished told => exact .accepted told rfl rfl
    | failed refused => exact .refused List.mem_cons_self refused rfl rfl
  | cons t ts ih =>
    obtain ⟨here, behind⟩ := List.forall_mem_cons.mp scanned
    have first := step_renamed renames here h words
    rw [List.map_cons, run, run]
    generalize step t goals names = s at first ⊢
    generalize step (t.map (·.rename r)) goals' (names.rename r) = s' at first ⊢
    cases first with
    | consumed told words left => exact (ih behind left words).after told t
    | finished told => exact .accepted told rfl rfl
    | failed refused => exact .refused List.mem_cons_self refused rfl rfl

end

end Pass

/-! ## Two sources -/

theorem positioned_map (f : Token → Token) (ts : List Token) :
    positioned (ts.map f) = (positioned ts).map (·.map f) :=
  List.ext_getElem (by simp [positioned]) fun i _ _ => by simp [positioned, Located.map]

theorem exists_position_of_mem (stop : Location) {ts : List (Located Token)} {t : Located Token}
    (mem : t ∈ positioned (ts.map (·.value)) ++ [endToken ⟨ts.length, 0⟩]) :
    ∃ i ≤ ts.length, t = ⟨⟨i, 0⟩, (tokenAt stop ts i).value⟩ := by
  rcases List.mem_append.mp mem with mem | mem
  · obtain ⟨i, lt, rfl⟩ := List.mem_mapIdx.mp mem
    rw [List.length_map] at lt
    exact ⟨i, lt.le, by simp [tokenAt, List.headD_eq_head?_getD, lt]⟩
  · obtain rfl := List.mem_singleton.mp mem
    exact ⟨ts.length, le_rfl, by simp [tokenAt, endToken]⟩

@[simp] theorem Diagnostic.location_rename (r : String → String) (kind : Kind) (d : Diagnostic) :
    (d.rename r kind).location = d.location := by
  cases d <;> rfl

theorem Refused.exists_position {r : String → String} {ts : List (Located Token)}
    {t : Located Token} {events events' : List Event} {d d' : Diagnostic}
    (h : Refused r t events d events' d') (stop : Location)
    (mem : t ∈ positioned (ts.map (·.value)) ++ [endToken ⟨ts.length, 0⟩])
    (place : d.location ∈ (positioned (ts.map (·.value))).map (·.location) ++ [⟨ts.length, 0⟩]) :
    ∃ i ≤ ts.length, d.location = ⟨i, 0⟩ ∧ d' = d.rename r (tokenAt stop ts i).kind ∧
      Told r (tokenAt stop ts i).value events events' := by
  cases h with
  | names told e =>
    rw [← List.length_map (f := (·.value))] at place
    obtain ⟨i, le, here⟩ := MiniBasic.exists_position place
    rw [List.length_map] at le
    exact ⟨i, le, here, rfl, .renamed told⟩
  | grammar told e =>
    obtain ⟨i, le, rfl⟩ := exists_position_of_mem stop mem
    exact ⟨i, le, rfl, rfl, told⟩

theorem Pass.positioned_renamed {r : String → String} (renames : Renaming r) (stop : Location)
    {ts : List Token} (scanned : ∀ t ∈ ts, t.Scanned) :
    Renamed r (positioned ts ++ [endToken stop]) (ofTokens stop (positioned ts))
      (ofTokens stop (positioned (ts.map (·.rename r)))) := by
  have scanned' : ∀ t ∈ positioned ts, t.value.Scanned := by
    intro t mem
    obtain ⟨i, lt, rfl⟩ := List.mem_mapIdx.mp mem
    exact scanned _ (List.getElem_mem lt)
  rw [positioned_map]
  exact run_renamed renames stop scanned' (Goal.renamed_of_nameless Goal.nameless_program) .empty

theorem scanned_of_tokensOf_ok {source : String} {ts : List (Located Token)}
    (h : tokensOf source = .ok ts) : ∀ t ∈ ts.map (·.value), t.Scanned := by
  rw [List.forall_mem_map]
  intro t mem
  have lexical := lexical_leadingTokens source t (leadingTokens_of_tokensOf_ok h ▸ mem)
  exact ⟨lexical, ((reads_of_tokensOf_ok h).spelled t mem).text_eq⟩

/-- A source is recognized as the positions of its tokens are, and refused where the token in the
position stands. -/
theorem compile_of_positions {source : String} {ts : List (Located Token)}
    (h : tokensOf source = .ok ts) :
    let p := Pass.ofTokens ⟨ts.length, 0⟩ (positioned (ts.map (·.value)))
    (Recognition.ofSource source).events = p.events ∧
      (p.result = .ok () → ∃ code, compile source = .ok code) ∧
      ∀ d, p.result = .error d →
        compile source = .error (d.moveTo (placeOf (endLocation source) ts d.location)) := by
  intro p
  have recognized : Recognition.ofSource source =
      (p.relocate (placeOf (endLocation source) ts)).recognition := by
    rw [Recognition.ofSource_of_tokensOf_ok h, Pass.ofTokens_eq_relocate]
  have verdict : (Recognition.ofSource source).result =
      p.result.mapError (·.relocate (placeOf (endLocation source) ts)) := by
    rw [recognized]
    rfl
  refine ⟨by rw [recognized]; rfl, fun ok => ?_, fun d error => ?_⟩
  · rw [compile, compilation, verdict, ok]
    exact ⟨_, rfl⟩
  · rw [compile_eq_error_iff, verdict, error, ← Diagnostic.relocate_eq_moveTo]
    rfl

/-- A source with other names, but for the reserved ones, is recognized by the same events with the
other names in them. Then either both are accepted or both are refused, at the same token and for
the same reason, with the other names in it. -/
theorem recognition_renamed {r : String → String} (renames : Renaming r) {source source' : String}
    {ts ts' : List (Located Token)} (h : tokensOf source = .ok ts) (h' : tokensOf source' = .ok ts')
    (same : ts'.map (·.value) = ts.map (·.value.rename r)) :
    let events := (Recognition.ofSource source).events
    let events' := (Recognition.ofSource source').events
    ((∃ code, compile source = .ok code) ∧ (∃ code', compile source' = .ok code') ∧
      List.Forall₂ (Event.Renamed r) events events') ∨
    ∃ (d : Diagnostic) (i : Nat), i ≤ ts.length ∧
      let t := tokenAt (endLocation source) ts i
      let t' := tokenAt (endLocation source') ts' i
      compile source = .error (d.moveTo t.location) ∧
      compile source' = .error ((d.rename r t.kind).moveTo t'.location) ∧
      Told r t.value events events' := by
  intro events events'
  have length : ts'.length = ts.length := by simpa using congrArg List.length same
  have values : ts'.map (·.value) = (ts.map (·.value)).map (·.rename r) := by
    rw [same, List.map_map]
    rfl
  obtain ⟨events_eq, accepts, refuses⟩ := compile_of_positions h
  obtain ⟨events_eq', accepts', refuses'⟩ := compile_of_positions h'
  rw [length, values] at events_eq' accepts' refuses'
  rw [show events = _ from events_eq, show events' = _ from events_eq']
  cases Pass.positioned_renamed renames ⟨ts.length, 0⟩ (scanned_of_tokensOf_ok h) with
  | accepted told ok ok' => exact .inl ⟨accepts ok, accepts' ok', told⟩
  | @refused _ mem d _ refused error error' =>
    obtain ⟨i, le, here, rfl, told⟩ :=
      refused.exists_position (endLocation source) mem (Pass.location_mem_of_error error)
    have first := refuses d error
    have second := refuses' _ error'
    rw [here] at first
    rw [Diagnostic.location_rename, here] at second
    exact .inr ⟨d, i, le, first, second, told⟩

/-- Of two labels that are missing, the one that is jumped to first is reported, whatever the labels
are called. -/
theorem swapped_names :
    let source := "LET b = 1\nLET a = b\nGOTO b\nGOTO a"
    let source' := "LET a=1\nLET b=a\n\tGOTO a\nGOTO b"
    compile source = .error (.names ⟨⟨3, 6⟩, .unknownLabel "b"⟩) ∧
    compile source' = .error (.names ⟨⟨3, 7⟩, .unknownLabel "a"⟩) ∧
    List.Forall₂ (Event.Renamed (Equiv.swap "a" "b")) (Recognition.ofSource source).events
      (Recognition.ofSource source').events := by
  intro source source'
  have renames : Renaming (Equiv.swap "a" "b") := renaming_swap (by decide) (by decide) (by decide)
  have scanned : tokensOf source = .ok (leadingTokens source) := by decide +kernel
  have scanned' : tokensOf source' = .ok (leadingTokens source') := by decide +kernel
  have same : (leadingTokens source').map (·.value) =
      (leadingTokens source).map (·.value.rename (Equiv.swap "a" "b")) := by decide +kernel
  have refused : compile source = .error (.names ⟨⟨3, 6⟩, .unknownLabel "b"⟩) := by decide +kernel
  obtain ⟨⟨code, accepted⟩, -⟩ | ⟨d, i, le, first, second, told⟩ :=
    recognition_renamed renames scanned scanned' same
  · rw [refused] at accepted
    cases accepted
  · rw [refused] at first
    have here := congrArg Diagnostic.location (Except.error.inj first)
    rw [Diagnostic.location_moveTo] at here
    -- Only one token stands where the error does.
    obtain rfl : i = 11 := by
      clear first second told
      revert i
      decide +kernel
    have ident : (tokenAt (endLocation source) (leadingTokens source) 11).kind = .ident := by
      decide +kernel
    have moved : (tokenAt (endLocation source') (leadingTokens source') 11).location = ⟨3, 7⟩ := by
      decide +kernel
    refine ⟨refused, ?_, ?_⟩
    · cases d with
      | scan | grammar => cases first
      | names e =>
        have value : e.value = .unknownLabel "b" :=
          congrArg Located.value (Diagnostic.names.inj (Except.error.inj first)).symm
        rw [second, moved]
        simp [Diagnostic.rename, Located.map, value, NameError.rename, Diagnostic.moveTo,
          Diagnostic.relocate, Located.relocate]
    · exact told.of_ident ident

end MiniBasic
