import MiniBasic.Proofs.Leading
import MiniBasic.Proofs.Relocation
import MiniBasic.Proofs.ViablePrefix

/-!
# Only the normal form matters

Blanks, comments and blank lines change where the tokens of a source stand, and how many newlines
come in a run. A pass goes through the tokens that the normal form is made of just as through all of
them (`Pass.recognition_withoutBlankLines`), and where these tokens stand matters for the place of a
diagnostic only. So sources with the same normal form are recognized alike, and what is wrong with
one of them is wrong with the other, at the same token of the normal form.
-/

namespace MiniBasic

/-- The tokens that the normal form is made of: of each run of newlines the first, and none of a run
that a newline stands in front of, which is so at the beginning when `blank`. -/
def withoutBlankLines (blank : Bool) : List (Located Token) → List (Located Token)
  | [] => []
  | t :: ts =>
    if t.kind = .newline then (if blank then [] else [t]) ++ withoutBlankLines true ts
    else t :: withoutBlankLines false ts

theorem map_value_withoutBlankLines (blank : Bool) (ts : List (Located Token)) :
    (withoutBlankLines blank ts).map (·.value) = squeeze blank (ts.map (·.value)) := by
  induction ts generalizing blank with
  | nil => rfl
  | cons t ts ih =>
    by_cases newline : t.kind = .newline
    · cases blank <;> simp [withoutBlankLines, squeeze, newline, ih]
    · simp [withoutBlankLines, squeeze, newline, ih]

theorem map_value_withoutBlankLines_true (ts : List (Located Token)) :
    (withoutBlankLines true ts).map (·.value) = normalForm (ts.map (·.value)) := by
  rw [map_value_withoutBlankLines, normalForm_eq_squeeze]

/-! ## Blank lines -/

section
variable {t : Located Token} {names names' : Names} {events : List Event}

namespace Meeting
variable {rest parts : List Goal}

theorem Operand.ne_newline_of_take (h : Operand t names rest (take events parts)) :
    t.kind ≠ .newline := by
  cases h with
  | number kind | variable_ kind => simp [kind]

theorem Signed.ne_newline_of_take (h : Signed t names rest (take events parts)) :
    t.kind ≠ .newline := by
  cases h with
  | sign kind => rcases kind with kind | kind <;> simp [kind]
  | operand _ h => exact h.ne_newline_of_take

theorem Opening.ne_newline_of_take (h : Opening t rest (take events parts)) :
    t.kind ≠ .newline := by
  cases h with
  | keyword kind => simp [kind]

end Meeting

/-- A goal that takes a newline takes all that follow it. -/
theorem Goal.eq_newlines_of_take {goal : Goal} {parts : List Goal} (newline : t.kind = .newline)
    (h : goal.meet t names = .take events parts) : parts = [.newlines] := by
  have signed {rest : List Goal} {m : Meeting} (signed : Meeting.Signed t names rest m)
      (take : m = .take events parts) : parts = [.newlines] :=
    absurd newline (take ▸ signed).ne_newline_of_take
  have opening {rest : List Goal} (take : Meeting.statement t rest = .take events parts) :
      parts = [.newlines] :=
    absurd newline (take ▸ Meeting.opening_statement t rest).ne_newline_of_take
  cases goal with
  | lineEnd | newlines =>
    simp only [meet, newline, if_true] at h
    cases h
    rfl
  | statements =>
    simp only [meet, newline, reduceCtorEq, if_false] at h
    exact opening h
  | block | blockRest =>
    simp only [meet, newline, reduceCtorEq, if_false] at h
    exact opening h
  | printed =>
    simp only [meet, newline, reduceCtorEq, if_false] at h
    exact signed ((Meeting.signed_expression t names _).after _) h
  | comparison => exact signed ((Meeting.signed_expression t names _).after _) h
  | expression => exact signed (Meeting.signed_expression t names _) h
  | term => exact signed (Meeting.signed_term t names _) h
  | unary => exact signed (Meeting.signed_unary t names _) h
  | primary =>
    have operand := Meeting.operand_primary t names []
    rw [show Meeting.primary t names [] = _ from h] at operand
    exact absurd newline operand.ne_newline_of_take
  | introduce | placeLabel | checkJumps =>
    simp only [meet] at h
    split at h <;> cases h
  | event | jumpTo => cases h
  | keyword | assign | name | relation | relations | sums | factors =>
    simp [meet, newline, Kind.isRelation, Meeting.refuse] at h

theorem exists_newlines_of_take {goals goals' : List Goal} (newline : t.kind = .newline)
    (h : (step t goals names).outcome = .consumed goals') :
    ∃ rest, goals' = .newlines :: rest := by
  fun_induction step t goals names with
  | case1 | case4 => cases h
  | case2 goal goals names events names' pass more ih => exact ih h
  | case3 goal goals names events parts take =>
    rw [Goal.eq_newlines_of_take newline take] at h
    cases h
    exact ⟨goals, rfl⟩

end

namespace Pass

/-- When a newline stands in front, which `blank` says, the goals begin with the blank lines. -/
def BlankLinesFirst (blank : Bool) (goals : List Goal) : Prop :=
  blank = true → ∃ rest, goals = .newlines :: rest

theorem recognition_run_withoutBlankLines (stop : Location) {blank : Bool} {goals : List Goal}
    (first : BlankLinesFirst blank goals) (ts : List (Located Token)) (names : Names) :
    (run stop (withoutBlankLines blank ts) goals names).recognition =
      (run stop ts goals names).recognition := by
  induction ts generalizing blank goals names with
  | nil => rfl
  | cons t ts ih =>
    -- The two passes go on alike when both take `t`.
    have both (blank' : Bool)
        (next : ∀ goals', (step t goals names).outcome = .consumed goals' →
          BlankLinesFirst blank' goals') :
        (run stop (t :: withoutBlankLines blank' ts) goals names).recognition =
          (run stop (t :: ts) goals names).recognition := by
      rw [run, run]
      cases taken : step t goals names with
      | mk events names' outcome =>
        cases outcome with
        | consumed goals' =>
          simp only [recognition_after, ih (next goals' (congrArg Step.outcome taken))]
        | finished | failed => rfl
    by_cases newline : t.kind = .newline
    · cases blank with
      | false =>
        simp only [withoutBlankLines, newline, if_true]
        exact both true fun goals' taken _ => exists_newlines_of_take newline taken
      | true =>
        simp only [withoutBlankLines, newline, if_true]
        obtain ⟨rest, rfl⟩ := first rfl
        have take : Goal.newlines.meet t names = .take [] [.newlines] := if_pos newline
        rw [recognition_run_of_take take]
        exact ih first names
    · simp only [withoutBlankLines, newline, if_false]
      exact both false fun _ _ blank => absurd blank (by decide)

/-- Blank lines do not matter to a pass over a program. -/
theorem recognition_ofTokens_withoutBlankLines (stop : Location) (ts : List (Located Token)) :
    (ofTokens stop (withoutBlankLines true ts)).recognition = (ofTokens stop ts).recognition := by
  have announce (us : List (Located Token)) (e : Event) (goals : List Goal) :
      (run stop us (.event e :: goals) .empty).recognition =
        (run stop us goals .empty).recognition.after [e] :=
    recognition_run_of_pass rfl
  simp only [ofTokens, Goal.program, Goal.line, announce]
  rw [recognition_run_withoutBlankLines stop fun _ => ⟨_, rfl⟩]

end Pass

/-! ## Places -/

/-- Tokens in a row, each at its position. -/
def positioned (ts : List Token) : List (Located Token) := ts.mapIdx fun i t => ⟨⟨i, 0⟩, t⟩

/-- Takes the positions of the tokens `ts` to the places of these tokens. -/
def placeOf (stop : Location) (ts : List (Located Token)) (l : Location) : Location :=
  (tokenAt stop ts l.line).location

theorem relocate_positioned (stop : Location) (ts : List (Located Token)) :
    (positioned (ts.map (·.value))).map (·.relocate (placeOf stop ts)) = ts := by
  refine List.ext_getElem (by simp [positioned]) fun i _ h => ?_
  simp [positioned, placeOf, tokenAt, Located.relocate, List.headD_eq_head?_getD, h]

theorem placeOf_length (stop : Location) (ts : List (Located Token)) :
    placeOf stop ts ⟨ts.length, 0⟩ = stop := by
  simp [placeOf, tokenAt, endToken]

theorem exists_position {ts : List Token} {l : Location}
    (h : l ∈ (positioned ts).map (·.location) ++ [⟨ts.length, 0⟩]) :
    ∃ i ≤ ts.length, l = ⟨i, 0⟩ := by
  rw [List.mem_append, List.mem_singleton] at h
  rcases h with h | rfl
  · obtain ⟨t, mem, rfl⟩ := List.mem_map.mp h
    obtain ⟨i, lt, rfl⟩ := List.mem_mapIdx.mp mem
    exact ⟨i, lt.le, rfl⟩
  · exact ⟨_, le_rfl, rfl⟩

/-- The same diagnostic at another place. -/
def Diagnostic.moveTo (l : Location) (d : Diagnostic) : Diagnostic := d.relocate fun _ => l

@[simp] theorem Diagnostic.location_moveTo (l : Location) (d : Diagnostic) :
    (d.moveTo l).location = l := d.location_relocate

theorem Diagnostic.relocate_eq_moveTo (f : Location → Location) (d : Diagnostic) :
    d.relocate f = d.moveTo (f d.location) := by
  cases d <;> rfl

namespace Pass

/-- A pass over tokens in their places is one over their positions. -/
theorem ofTokens_eq_relocate (stop : Location) (ts : List (Located Token)) :
    ofTokens stop ts = (ofTokens ⟨ts.length, 0⟩ (positioned (ts.map (·.value)))).relocate
      (placeOf stop ts) := by
  have moved := run_relocate (f := placeOf stop ts) ⟨ts.length, 0⟩
    (positioned (ts.map (·.value))) Goal.program .empty
  rwa [placeOf_length, relocate_positioned] at moved

theorem location_mem_of_error {stop : Location} {ts : List (Located Token)} {e : Diagnostic}
    (h : (ofTokens stop ts).result = .error e) :
    e.location ∈ ts.map (·.location) ++ [stop] := by
  obtain ⟨past, rest, rfl, -, blame⟩ := blame h
  have here : (rest.headD (endToken stop)).location ∈ rest.map (·.location) ++ [stop] := by
    cases rest <;> simp [endToken]
  rw [List.map_append, List.append_assoc]
  cases e with
  | scan => exact blame.elim
  | grammar e => exact List.mem_append_right _ (blame.symm ▸ here :)
  | names e =>
    rcases List.mem_cons.mp blame with blame | above
    · exact List.mem_append_right _ (blame.symm ▸ here :)
    · exact List.mem_append_left _ above

end Pass

/-! ## Two sources -/

/-- Where the token at position `i` of the normal form stands in a source with the tokens `ts`. -/
def normalPlace (source : String) (ts : List (Located Token)) (i : Nat) : Location :=
  (tokenAt (endLocation source) (withoutBlankLines true ts) i).location

/-- The pass over the positions of a normal form. -/
def Pass.ofNormalForm (ts : List Token) : Pass := ofTokens ⟨ts.length, 0⟩ (positioned ts)

theorem recognition_eq_relocate {source : String} {ts : List (Located Token)}
    (h : tokensOf source = .ok ts) :
    Recognition.ofSource source = ((Pass.ofNormalForm (normalForm (ts.map (·.value)))).relocate
      fun l => normalPlace source ts l.line).recognition := by
  rw [Recognition.ofSource_of_tokensOf_ok h, ← Pass.recognition_ofTokens_withoutBlankLines,
    Pass.ofTokens_eq_relocate, Pass.ofNormalForm, ← map_value_withoutBlankLines_true,
    List.length_map]
  rfl

/-- A source is accepted or refused as its normal form is, and refused at a token of it. -/
theorem compilation_of_recognition {source : String} {ts : List (Located Token)}
    (h : tokensOf source = .ok ts) :
    let p := Pass.ofNormalForm (normalForm (ts.map (·.value)))
    compilation source = match p.result with
      | .ok () => .ok ⟨(Output.ofEvents p.events).text, p.recognition.rules⟩
      | .error d => .error (d.moveTo (normalPlace source ts d.location.line)) := by
  intro p
  rw [compilation, recognition_eq_relocate h]
  change (p.result.mapError _).map _ = _
  cases p.result with
  | ok => rfl
  | error d => exact congrArg Except.error (d.relocate_eq_moveTo _)

/-- Two sources with the same normal form are recognized by the same events, and then either both
are accepted, with the same code and the same rules, or both are refused for the same reason, each
at its own token in the same position of the normal form, the end of the input counted as one. -/
theorem normalForm_decides {source₁ source₂ : String} {ts₁ ts₂ : List (Located Token)}
    (h₁ : tokensOf source₁ = .ok ts₁) (h₂ : tokensOf source₂ = .ok ts₂)
    (same : normalForm (ts₁.map (·.value)) = normalForm (ts₂.map (·.value))) :
    (Recognition.ofSource source₁).events = (Recognition.ofSource source₂).events ∧
    ((∃ c, compilation source₁ = .ok c ∧ compilation source₂ = .ok c) ∨
      ∃ (d : Diagnostic) (i : Nat), i ≤ (normalForm (ts₁.map (·.value))).length ∧
        compilation source₁ = .error (d.moveTo (normalPlace source₁ ts₁ i)) ∧
        compilation source₂ = .error (d.moveTo (normalPlace source₂ ts₂ i))) := by
  have comes₁ := compilation_of_recognition h₁
  have comes₂ := compilation_of_recognition h₂
  rw [← same] at comes₂
  constructor
  · rw [recognition_eq_relocate h₁, recognition_eq_relocate h₂, same]
    rfl
  · cases result : (Pass.ofNormalForm (normalForm (ts₁.map (·.value)))).result with
    | ok =>
      simp only [result] at comes₁ comes₂
      exact .inl ⟨_, comes₁, comes₂⟩
    | error d =>
      simp only [result] at comes₁ comes₂
      obtain ⟨i, le, here⟩ := exists_position (Pass.location_mem_of_error result)
      rw [here] at comes₁ comes₂
      exact .inr ⟨d, i, le, comes₁, comes₂⟩

/-- A number behind `LET` is refused wherever it stands. -/
theorem number_behind_let_refused : ∃ d : Diagnostic,
    compilation "LET 1" = .error (d.moveTo ⟨1, 5⟩) ∧
      compilation "\n# no name\n\tLET  1\r\n\n" = .error (d.moveTo ⟨3, 7⟩) := by
  have scanned : tokensOf "LET 1" = .ok [⟨⟨1, 1⟩, ⟨.keyword .let_, "LET"⟩⟩,
      ⟨⟨1, 5⟩, ⟨.number, "1"⟩⟩, ⟨⟨1, 6⟩, ⟨.newline, "\n"⟩⟩] := by decide +kernel
  have scanned' : tokensOf "\n# no name\n\tLET  1\r\n\n" = .ok [⟨⟨1, 1⟩, ⟨.newline, "\n"⟩⟩,
      ⟨⟨2, 10⟩, ⟨.newline, "\n"⟩⟩, ⟨⟨3, 2⟩, ⟨.keyword .let_, "LET"⟩⟩,
      ⟨⟨3, 7⟩, ⟨.number, "1"⟩⟩, ⟨⟨3, 9⟩, ⟨.newline, "\n"⟩⟩, ⟨⟨4, 1⟩, ⟨.newline, "\n"⟩⟩] := by
    decide +kernel
  have refused : compilation "LET 1" =
      .error (.grammar ⟨⟨1, 5⟩, .unexpectedToken .ident .number⟩) := by decide +kernel
  obtain ⟨-, ⟨c, accepted, -⟩ | ⟨d, i, le, first, second⟩⟩ :=
    normalForm_decides scanned scanned' (by decide +kernel)
  · rw [refused] at accepted
    cases accepted
  · rw [refused] at first
    have here := congrArg Diagnostic.location (Except.error.inj first)
    rw [Diagnostic.location_moveTo] at here
    -- Of the four places only the second is where the error stands.
    obtain rfl : i = 1 := by
      clear first second
      revert i
      decide +kernel
    rw [← here] at first
    exact ⟨d, refused.trans first, second⟩

end MiniBasic
