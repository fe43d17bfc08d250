import Mathlib.Data.List.Basic
import MiniBasic.Goal
import MiniBasic.Tree

/-!
# Trees are unambiguous

Different trees are spelled differently. Parts of a tree are compared together with the tokens
behind them: two parts with the same tokens are the same when neither is followed by a token that
could go on with it. For an expression these are the operators that it may hold; for a sequence of
statements they are the keywords that a statement starts with.
-/

namespace MiniBasic

/-- The tokens do not start with a kind of which `p` holds. -/
def NotAhead (p : Kind → Prop) (ts : List Token) : Prop := ∀ t ∈ ts.head?, ¬p t.kind

section
variable {p q : Kind → Prop} {t : Token} {ts us : List Token}

@[simp] theorem notAhead_nil : NotAhead p [] := by simp [NotAhead]

@[simp] theorem notAhead_cons : NotAhead p (t :: ts) ↔ ¬p t.kind := by simp [NotAhead]

theorem NotAhead.mono (h : NotAhead p ts) (sub : ∀ k, q k → p k) : NotAhead q ts :=
  fun t mem own => h t mem (sub _ own)

end

/-! ## Expressions -/

def Kind.IsScale (k : Kind) : Prop := k = .times ∨ k = .divide

def Kind.IsSum (k : Kind) : Prop := k = .plus ∨ k = .minus ∨ k.IsScale

def Kind.IsOperator (k : Kind) : Prop := k.isRelation ∨ k.IsSum

theorem Operand.token_injective : Function.Injective Operand.token := by
  intro o o' h
  cases o <;> cases o' <;> simp_all [Operand.token]

theorem Sign.token_ne (s : Sign) (o : Operand) : s.token ≠ o.token := by
  cases s <;> cases o <;> simp [Sign.token, Operand.token]

theorem Sign.token_injective : Function.Injective Sign.token := by
  intro s s' h
  cases s <;> cases s' <;> simp_all [Sign.token]

theorem Scale.token_injective : Function.Injective Scale.token := by
  intro s s' h
  cases s <;> cases s' <;> simp_all [Scale.token]

theorem Relation.token_injective : Function.Injective Relation.token := by
  intro r r' h
  simpa [Relation.token] using congrArg Token.kind h

section
variable {as bs : List Token}

theorem Factor.tokens_append_inj {f g : Factor} (h : f.tokens ++ as = g.tokens ++ bs) :
    f = g ∧ as = bs := by
  obtain ⟨_ | s, o⟩ := f <;> obtain ⟨_ | s', o'⟩ := g <;>
    simp only [tokens, Option.map_none, Option.map_some, Option.toList_none, Option.toList_some,
      List.nil_append, List.cons_append, List.cons.injEq] at h
  · exact ⟨by rw [Operand.token_injective h.1], h.2⟩
  · exact absurd h.1.symm (Sign.token_ne _ _)
  · exact absurd h.1 (Sign.token_ne _ _)
  · exact ⟨by rw [Sign.token_injective h.1, Operand.token_injective h.2.1], h.2.2⟩

theorem notAhead_repeated {α β : Type} {op : α → Token} {tokens : β → List Token}
    {other : Kind → Prop} (not_other : ∀ a, ¬other (op a).kind) (xs : List (α × β))
    (h : NotAhead other as) :
    NotAhead other ((xs.flatMap fun x => op x.1 :: tokens x.2) ++ as) := by
  cases xs with
  | nil => exact h
  | cons x xs => simpa using not_other x.1

/-- Operators with an operand each, of which the operators are the tokens of kind `own`. -/
theorem repeated_append_inj {α β : Type} {op : α → Token} {tokens : β → List Token}
    (own other : Kind → Prop) (op_injective : Function.Injective op)
    (own_op : ∀ a, own (op a).kind) (not_other : ∀ a, ¬other (op a).kind)
    (operand : ∀ {x y as bs}, NotAhead other as → NotAhead other bs →
      tokens x ++ as = tokens y ++ bs → x = y ∧ as = bs) {xs ys : List (α × β)}
    (ha : NotAhead (fun k => own k ∨ other k) as) (hb : NotAhead (fun k => own k ∨ other k) bs)
    (h : (xs.flatMap fun x => op x.1 :: tokens x.2) ++ as =
      (ys.flatMap fun y => op y.1 :: tokens y.2) ++ bs) : xs = ys ∧ as = bs := by
  have behind (xs : List (α × β)) {as : List Token} (h : NotAhead (fun k => own k ∨ other k) as) :
      NotAhead other ((xs.flatMap fun x => op x.1 :: tokens x.2) ++ as) :=
    notAhead_repeated not_other xs (h.mono fun _ => .inr)
  induction xs generalizing ys with
  | nil =>
    cases ys with
    | nil => exact ⟨rfl, h⟩
    | cons y ys =>
      rw [show as = op y.1 :: _ from h, notAhead_cons] at ha
      exact absurd (.inl (own_op y.1)) ha
  | cons x xs ih =>
    cases ys with
    | nil =>
      rw [show bs = op x.1 :: _ from h.symm, notAhead_cons] at hb
      exact absurd (.inl (own_op x.1)) hb
    | cons y ys =>
      simp only [List.flatMap_cons, List.cons_append, List.append_assoc, List.cons.injEq] at h
      obtain ⟨operand_eq, rest⟩ := operand (behind xs ha) (behind ys hb) h.2
      obtain ⟨rest_eq, tail⟩ := ih rest
      exact ⟨by rw [Prod.ext (op_injective h.1) operand_eq, rest_eq], tail⟩

theorem Term.tokens_append_inj {x y : Term} (ha : NotAhead Kind.IsScale as)
    (hb : NotAhead Kind.IsScale bs) (h : x.tokens ++ as = y.tokens ++ bs) : x = y ∧ as = bs := by
  obtain ⟨first, rest⟩ := x
  obtain ⟨first', rest'⟩ := y
  simp only [tokens, List.append_assoc] at h
  obtain ⟨rfl, behind⟩ := Factor.tokens_append_inj h
  obtain ⟨rfl, tail⟩ := repeated_append_inj Kind.IsScale (fun _ => False) Scale.token_injective
    (fun a => by cases a <;> simp [Scale.token, Kind.IsScale]) (fun _ => id)
    (fun _ _ => Factor.tokens_append_inj) (by simpa using ha) (by simpa using hb) behind
  exact ⟨rfl, tail⟩

theorem Expression.tokens_append_inj {x y : Expression} (ha : NotAhead Kind.IsSum as)
    (hb : NotAhead Kind.IsSum bs) (h : x.tokens ++ as = y.tokens ++ bs) : x = y ∧ as = bs := by
  obtain ⟨first, rest⟩ := x
  obtain ⟨first', rest'⟩ := y
  have not_scale (s : Sign) : ¬s.token.kind.IsScale := by
    cases s <;> simp [Sign.token, Kind.IsScale]
  simp only [tokens, List.append_assoc] at h
  obtain ⟨rfl, rest_eq⟩ := Term.tokens_append_inj
    (notAhead_repeated not_scale rest (ha.mono fun _ scale => .inr (.inr scale)))
    (notAhead_repeated not_scale rest' (hb.mono fun _ scale => .inr (.inr scale))) h
  obtain ⟨rfl, tail⟩ := repeated_append_inj (fun k => k = .plus ∨ k = .minus) Kind.IsScale
    Sign.token_injective (fun s => by cases s <;> simp [Sign.token]) not_scale
    Term.tokens_append_inj
    (ha.mono fun _ => by simp [Kind.IsSum, or_assoc])
    (hb.mono fun _ => by simp [Kind.IsSum, or_assoc]) rest_eq
  exact ⟨rfl, tail⟩

theorem Comparison.tokens_append_inj {x y : Comparison} (ha : NotAhead Kind.IsOperator as)
    (hb : NotAhead Kind.IsOperator bs) (h : x.tokens ++ as = y.tokens ++ bs) : x = y ∧ as = bs := by
  obtain ⟨left, relation, right, rest⟩ := x
  obtain ⟨left', relation', right', rest'⟩ := y
  have not_sum (r : Relation) : ¬r.token.kind.IsSum := by
    simp [Relation.token, Kind.IsSum, Kind.IsScale]
  simp only [tokens, List.append_assoc] at h
  obtain ⟨rfl, rest_eq⟩ := Expression.tokens_append_inj
    (notAhead_repeated not_sum ((relation, right) :: rest) (ha.mono fun _ => .inr))
    (notAhead_repeated not_sum ((relation', right') :: rest') (hb.mono fun _ => .inr)) h
  obtain ⟨eq, tail⟩ := repeated_append_inj (fun k => k.isRelation) Kind.IsSum
    Relation.token_injective (fun _ => rfl) not_sum Expression.tokens_append_inj ha hb rest_eq
  cases eq
  exact ⟨rfl, tail⟩

/-! ## Statements -/

theorem Expression.tokens_append_ne_string {e : Expression} {text : String} :
    e.tokens ++ as ≠ ⟨.string, text⟩ :: bs := by
  obtain ⟨⟨⟨sign, operand⟩, rest⟩, rest'⟩ := e
  cases sign with
  | none => cases operand <;> simp [tokens, Term.tokens, Factor.tokens, Operand.token]
  | some sign => cases sign <;> simp [tokens, Term.tokens, Factor.tokens, Sign.token]

theorem Statement.tokens_append_inj {s u : Statement} (ha : NotAhead Kind.IsSum as)
    (hb : NotAhead Kind.IsSum bs) (h : s.tokens ++ as = u.tokens ++ bs) : s = u ∧ as = bs := by
  cases s <;> cases u <;>
    simp only [tokens, Keyword.token, List.cons_append, List.nil_append, List.cons.injEq,
      Token.mk.injEq, Kind.keyword.injEq, reduceCtorEq, false_and, true_and] at h
  case printText.printText | label.label | goto.goto | input.input =>
    exact ⟨by rw [h.1], h.2⟩
  case printText.print => exact absurd h.symm Expression.tokens_append_ne_string
  case print.printText => exact absurd h Expression.tokens_append_ne_string
  case print.print =>
    obtain ⟨rfl, tail⟩ := Expression.tokens_append_inj ha hb h
    exact ⟨rfl, tail⟩
  case assign.assign =>
    obtain ⟨rfl, tail⟩ := Expression.tokens_append_inj ha hb h.2
    exact ⟨by rw [h.1], tail⟩

end

/-! ## Trees -/

/-- A statement starts with a keyword of this kind. -/
def Kind.IsOpening (k : Kind) : Prop := ∃ word parts, k = .keyword word ∧
  Goal.ofKeyword? word = some parts

namespace Tree
variable {as bs : List Token}

theorem exists_opening {t : Tree} (h : t ≠ nil) :
    ∃ u us, t.tokens = u :: us ∧ u.kind.IsOpening := by
  cases t with
  | nil => contradiction
  | branch | loop => exact ⟨_, _, rfl, _, _, rfl, rfl⟩
  | simple s => cases s <;> exact ⟨_, _, rfl, _, _, rfl, rfl⟩

theorem eq_nil_of_append_eq {t : Tree} (ha : NotAhead Kind.IsOpening as)
    (h : t.tokens ++ bs = as) : t = nil := by
  by_contra ne_nil
  obtain ⟨v, vs, tokens_eq, opening⟩ := exists_opening ne_nil
  rw [← h, tokens_eq, List.cons_append, notAhead_cons] at ha
  exact ha opening

/-- What a statement with a block has behind its first keyword. -/
theorem branch_append_inj {c c' : Comparison} {body body' next next' : Tree}
    {middle closing : Keyword} (closes : Goal.ofKeyword? closing = none)
    (body_inj : ∀ {u as bs}, NotAhead Kind.IsOpening as → NotAhead Kind.IsOpening bs →
      body.tokens ++ as = u.tokens ++ bs → body = u ∧ as = bs)
    (next_inj : next.tokens ++ as = next'.tokens ++ bs → next = next' ∧ as = bs)
    (h : c.tokens ++ middle.token :: .newline :: (body.tokens ++
        closing.token :: .newline :: (next.tokens ++ as)) =
      c'.tokens ++ middle.token :: .newline :: (body'.tokens ++
        closing.token :: .newline :: (next'.tokens ++ bs))) :
    (c = c' ∧ body = body' ∧ next = next') ∧ as = bs := by
  have not_operator : ¬middle.token.kind.IsOperator := by
    simp [Keyword.token, Kind.IsOperator, Kind.IsSum, Kind.IsScale, Kind.isRelation]
  have not_opening : ¬closing.token.kind.IsOpening := by
    rintro ⟨_, parts, ⟨⟩, opening⟩
    simp [closes] at opening
  obtain ⟨rfl, body_eq⟩ := Comparison.tokens_append_inj (notAhead_cons.mpr not_operator)
    (notAhead_cons.mpr not_operator) h
  simp only [List.cons.injEq, true_and] at body_eq
  obtain ⟨rfl, next_eq⟩ := body_inj (notAhead_cons.mpr not_opening) (notAhead_cons.mpr not_opening)
    body_eq
  simp only [List.cons.injEq, true_and] at next_eq
  obtain ⟨rfl, tail⟩ := next_inj next_eq
  exact ⟨⟨rfl, rfl, rfl⟩, tail⟩

theorem tokens_append_inj {t u : Tree} (ha : NotAhead Kind.IsOpening as)
    (hb : NotAhead Kind.IsOpening bs) (h : t.tokens ++ as = u.tokens ++ bs) : t = u ∧ as = bs := by
  induction t generalizing u as bs with
  | nil =>
    obtain rfl := eq_nil_of_append_eq ha h.symm
    exact ⟨rfl, h⟩
  | simple s next ih =>
    cases u with
    | nil => exact absurd (eq_nil_of_append_eq hb h) nofun
    | branch | loop => cases s <;> simp [tokens, Statement.tokens, Keyword.token] at h
    | simple s' next' =>
      simp only [tokens, List.append_assoc, List.cons_append] at h
      have not_sum : ¬Token.newline.kind.IsSum := by simp [Token.newline, Kind.IsSum, Kind.IsScale]
      obtain ⟨rfl, behind⟩ := Statement.tokens_append_inj (notAhead_cons.mpr not_sum)
        (notAhead_cons.mpr not_sum) h
      obtain ⟨rfl, tail⟩ := ih ha hb (List.cons.inj behind).2
      exact ⟨rfl, tail⟩
  | branch c body next ih_body ih =>
    cases u with
    | nil => exact absurd (eq_nil_of_append_eq hb h) nofun
    | simple s' => cases s' <;> simp [tokens, Statement.tokens, Keyword.token] at h
    | loop => simp [tokens, Keyword.token] at h
    | branch c' body' next' =>
      simp only [tokens, List.append_assoc, List.cons_append, List.cons.injEq, true_and] at h
      obtain ⟨⟨rfl, rfl, rfl⟩, tail⟩ := branch_append_inj rfl ih_body (ih ha hb) h
      exact ⟨rfl, tail⟩
  | loop c body next ih_body ih =>
    cases u with
    | nil => exact absurd (eq_nil_of_append_eq hb h) nofun
    | simple s' => cases s' <;> simp [tokens, Statement.tokens, Keyword.token] at h
    | branch => simp [tokens, Keyword.token] at h
    | loop c' body' next' =>
      simp only [tokens, List.append_assoc, List.cons_append, List.cons.injEq, true_and] at h
      obtain ⟨⟨rfl, rfl, rfl⟩, tail⟩ := branch_append_inj rfl ih_body (ih ha hb) h
      exact ⟨rfl, tail⟩

theorem tokens_injective : Function.Injective tokens := by
  intro t u h
  have same : t.tokens ++ [] = u.tokens ++ [] := by rw [h]
  exact (tokens_append_inj notAhead_nil notAhead_nil same).1

end Tree

end MiniBasic
