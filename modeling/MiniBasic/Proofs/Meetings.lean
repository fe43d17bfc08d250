import MiniBasic.Step

/-!
# What the goals do about a token

Most goals look for one kind of token. The others begin with an operand or with a statement, and
what these two do is said here once: `Meeting.Operand`, with or without a sign in front, and
`Meeting.Opening`. The events do not matter here, so a predicate holds of a meeting whatever is
added to its events.
-/

namespace MiniBasic

namespace Meeting

/-- How an operand is met, behind which the goals are `rest`. -/
inductive Operand (t : Located Token) (names : Names) (rest : List Goal) : Meeting → Prop
  | number {events : List Event} (kind : t.kind = .number) : Operand t names rest (take events rest)
  | variable_ {events : List Event} (kind : t.kind = .ident) (known : names.hasVariable t.text) :
    Operand t names rest (take events rest)
  | unknown {events : List Event} (kind : t.kind = .ident) (unknown : ¬names.hasVariable t.text) :
    Operand t names rest (fail events (.names (t.replace (.undeclaredVariable t.text))))
  | other {events : List Event} (not_number : t.kind ≠ .number) (not_ident : t.kind ≠ .ident) :
    Operand t names rest (fail events (.grammar (t.replace (.unexpectedPrimary t.text))))

/-- How an operand is met that may have a sign. -/
inductive Signed (t : Located Token) (names : Names) (rest : List Goal) : Meeting → Prop
  | sign {events : List Event} (kind : t.kind = .plus ∨ t.kind = .minus) :
    Signed t names rest (take events (.primary :: rest))
  | operand {m : Meeting} (not_sign : ¬(t.kind = .plus ∨ t.kind = .minus))
    (operand : Operand t names rest m) : Signed t names rest m

/-- How a statement is met, behind which the goals are `rest`. -/
inductive Opening (t : Located Token) (rest : List Goal) : Meeting → Prop
  | keyword {events : List Event} {k : Keyword} {parts : List Goal} (kind : t.kind = .keyword k)
    (parts_eq : Goal.ofKeyword? k = some parts) : Opening t rest (take events (parts ++ rest))
  | other {events : List Event}
    (not_keyword : ∀ k parts, t.kind = .keyword k → Goal.ofKeyword? k ≠ some parts) :
    Opening t rest (fail events (.grammar (t.replace (.invalidStatement t.text t.kind))))

variable {t : Located Token} {names : Names} {rest : List Goal} {m : Meeting}

theorem Operand.after (e : Event) : Operand t names rest m → Operand t names rest (m.after e)
  | number kind => number kind
  | variable_ kind known => variable_ kind known
  | unknown kind h => unknown kind h
  | other not_number not_ident => other not_number not_ident

theorem Signed.after (e : Event) : Signed t names rest m → Signed t names rest (m.after e)
  | sign kind => sign kind
  | operand not_sign h => operand not_sign (h.after e)

theorem operand_primary (t : Located Token) (names : Names) (rest : List Goal) :
    Operand t names rest (primary t names rest) := by
  unfold primary
  split
  next number => exact .number number
  next ident =>
    by_cases known : names.hasVariable t.text
    · simpa [Names.requireVariable, Located.replace, known] using .variable_ ident known
    · simpa [Names.requireVariable, Located.replace, known] using .unknown ident known
  next not_number not_ident => exact .other not_number not_ident

theorem signed_unary (t : Located Token) (names : Names) (rest : List Goal) :
    Signed t names rest (unary t names rest) := by
  unfold unary
  split
  next plus => exact .sign (.inl plus)
  next minus => exact .sign (.inr minus)
  next not_plus not_minus =>
    exact .operand (not_or.mpr ⟨not_plus, not_minus⟩) ((operand_primary t names rest).after _)

theorem signed_term (t : Located Token) (names : Names) (rest : List Goal) :
    Signed t names (.factors :: rest) (term t names rest) :=
  (signed_unary t names _).after _

theorem signed_expression (t : Located Token) (names : Names) (rest : List Goal) :
    Signed t names (.factors :: .sums :: rest) (expression t names rest) :=
  (signed_term t names _).after _

theorem opening_statement (t : Located Token) (rest : List Goal) :
    Opening t rest (statement t rest) := by
  unfold statement
  split
  next k kind =>
    split
    next parts parts_eq => exact .keyword kind parts_eq
    next none =>
      refine .other fun k' parts kind' => ?_
      obtain rfl : k = k' := by simpa [kind] using kind'
      simp [none]
  next not_keyword => exact .other fun k _ kind => absurd kind (not_keyword k)

end Meeting

/-! ## The first goal of a step -/

section
variable {t : Located Token} {goal : Goal} {goals : List Goal} {names names' : Names}
  {events : List Event}

theorem step_of_pass (h : goal.meet t names = .pass events names') :
    step t (goal :: goals) names =
      { step t goals names' with events := events ++ (step t goals names').events } := by
  rw [step, h]

theorem step_of_take {parts : List Goal} (h : goal.meet t names = .take events parts) :
    step t (goal :: goals) names = ⟨events, names, .consumed (parts ++ goals)⟩ := by
  rw [step, h]

theorem step_of_fail {e : Diagnostic} (h : goal.meet t names = .fail events e) :
    step t (goal :: goals) names = ⟨events, names, .failed e⟩ := by
  rw [step, h]

end

end MiniBasic
