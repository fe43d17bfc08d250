import Mathlib.Data.List.Basic
import MiniBasic.Token

/-!
# The grammar of programs

A grammar rule is a phrase of tokens and other rules, and `Phrase.Derives` says which kinds of
tokens a phrase can come to, one constructor for each way to build a phrase.
`Nonterminal.production` is the grammar of programs, in which a block holds at least one statement.

Phrases are read from left to right, so most of what follows is about a phrase and what comes behind
it: `p.Before rest ks` says that `ks` starts with the phrase `p` and goes on as `rest` says.
-/

namespace MiniBasic

inductive Nonterminal where
  | program | statement | comparison | expression | term | unary | primary | nl
  deriving DecidableEq, Repr

inductive Phrase where
  | empty
  | token (k : Kind)
  | rule (n : Nonterminal)
  | sequence (p q : Phrase)
  | either (p q : Phrase)
  /-- Any number of times. -/
  | many (p : Phrase)
  deriving DecidableEq, Repr

namespace Phrase

instance : Append Phrase := ⟨sequence⟩

instance : OrOp Phrase := ⟨either⟩

def word (k : Keyword) : Phrase := token (.keyword k)

def optional (p : Phrase) : Phrase := empty ||| p

/-- At least once. -/
def some (p : Phrase) : Phrase := p ++ many p

/-- An operator that compares. -/
def relation : Phrase :=
  token (.relation .equal) ||| token (.relation .notEqual) ||| token (.relation .greater) |||
    token (.relation .greaterEqual) ||| token (.relation .less) ||| token (.relation .lessEqual)

end Phrase

open Phrase in
/-- The right-hand side of each rule. -/
def Nonterminal.production : Nonterminal → Phrase
  | program => many (rule nl) ++ many (rule statement)
  | statement =>
    (word .print ++ (token .string ||| rule expression) |||
      word .if_ ++ rule comparison ++ word .then_ ++ rule nl ++ Phrase.some (rule statement) ++
        word .endIf |||
      word .while_ ++ rule comparison ++ word .repeat_ ++ rule nl ++ Phrase.some (rule statement) ++
        word .endWhile |||
      word .label ++ token .ident |||
      word .goto ++ token .ident |||
      word .let_ ++ token .ident ++ token .assign ++ rule expression |||
      word .input ++ token .ident) ++ rule nl
  | comparison => rule expression ++ Phrase.some (relation ++ rule expression)
  | expression => rule term ++ many ((token .minus ||| token .plus) ++ rule term)
  | term => rule unary ++ many ((token .divide ||| token .times) ++ rule unary)
  | unary => optional (token .plus ||| token .minus) ++ rule primary
  | primary => token .number ||| token .ident
  | nl => Phrase.some (token .newline)

namespace Phrase

/-- The kinds of tokens that a phrase can come to. -/
inductive Derives : Phrase → List Kind → Prop
  | empty : Derives empty []
  | token {k : Kind} : Derives (token k) [k]
  | rule {n : Nonterminal} {ks : List Kind} (body : Derives n.production ks) : Derives (rule n) ks
  | sequence {p q : Phrase} {as bs : List Kind} (left : Derives p as) (right : Derives q bs) :
    Derives (sequence p q) (as ++ bs)
  | left {p q : Phrase} {ks : List Kind} (h : Derives p ks) : Derives (either p q) ks
  | right {p q : Phrase} {ks : List Kind} (h : Derives q ks) : Derives (either p q) ks
  | stop {p : Phrase} : Derives (many p) []
  | more {p : Phrase} {as bs : List Kind} (first : Derives p as) (rest : Derives (many p) bs) :
    Derives (many p) (as ++ bs)

theorem derives_many_of_forall {p : Phrase} {k : Kind} (one : p.Derives [k]) {ks : List Kind}
    (h : ∀ x ∈ ks, x = k) : (many p).Derives ks := by
  induction ks with
  | nil => exact .stop
  | cons x ks ih =>
    obtain ⟨rfl, h⟩ := List.forall_mem_cons.mp h
    exact .more one (ih h)

theorem Derives.forall_of_many {p : Phrase} {P : Kind → Prop}
    (each : ∀ ks, p.Derives ks → ∀ x ∈ ks, P x) {ks : List Kind} (h : (many p).Derives ks) :
    ∀ x ∈ ks, P x := by
  generalize eq : many p = q at h
  induction h with
  | stop => simp
  | more first rest _ ih =>
    obtain rfl : p = _ := by injection eq
    exact List.forall_mem_append.mpr ⟨each _ first, ih rfl⟩
  | _ => cases eq

/-- Blank lines in front of a program may be counted one by one. -/
theorem derives_many_nl_iff {ks : List Kind} :
    (many (rule .nl)).Derives ks ↔ (many (token .newline)).Derives ks := by
  have single : ∀ ks, (token .newline).Derives ks → ∀ x ∈ ks, x = .newline := by
    rintro _ ⟨⟩
    simp
  have one : (rule .nl).Derives [.newline] := .rule (.sequence .token .stop)
  refine ⟨fun h => derives_many_of_forall .token (h.forall_of_many ?_),
    fun h => derives_many_of_forall one (h.forall_of_many single)⟩
  rintro _ (_ | _ | body)
  cases body with
  | sequence first rest =>
    exact List.forall_mem_append.mpr ⟨single _ first, rest.forall_of_many single⟩

/-- The kinds `ks` start with the phrase and go on as `rest` says. -/
def Before (p : Phrase) (rest : List Kind → Prop) (ks : List Kind) : Prop :=
  ∃ as bs, ks = as ++ bs ∧ p.Derives as ∧ rest bs

variable {p q : Phrase} {rest : List Kind → Prop} {k : Kind} {ks : List Kind}

theorem before_nil : p.Before (· = []) ks ↔ p.Derives ks := by
  simp [Before]

@[simp] theorem before_empty : empty.Before rest = rest := by
  ext ks
  constructor
  · rintro ⟨_, _, rfl, ⟨⟩, h⟩
    exact h
  · intro h
    exact ⟨[], ks, rfl, .empty, h⟩

@[simp] theorem before_token : (token k).Before rest ks ↔ ∃ ks', ks = k :: ks' ∧ rest ks' := by
  constructor
  · rintro ⟨_, bs, rfl, ⟨⟩, h⟩
    exact ⟨bs, rfl, h⟩
  · rintro ⟨ks', rfl, h⟩
    exact ⟨[k], ks', rfl, .token, h⟩

theorem before_rule {n : Nonterminal} : (rule n).Before rest = n.production.Before rest := by
  ext ks
  constructor
  · rintro ⟨as, bs, rfl, derives, h⟩
    cases derives with
    | rule body => exact ⟨as, bs, rfl, body, h⟩
  · rintro ⟨as, bs, rfl, body, h⟩
    exact ⟨as, bs, rfl, .rule body, h⟩

@[simp] theorem before_append : (p ++ q).Before rest = p.Before (q.Before rest) := by
  ext ks
  constructor
  · rintro ⟨_, cs, rfl, derives, h⟩
    cases derives with
    | sequence left right => exact ⟨_, _, List.append_assoc .., left, _, cs, rfl, right, h⟩
  · rintro ⟨as, _, rfl, left, bs, cs, rfl, right, h⟩
    exact ⟨as ++ bs, cs, (List.append_assoc ..).symm, .sequence left right, h⟩

@[simp] theorem before_or :
    (p ||| q).Before rest ks ↔ p.Before rest ks ∨ q.Before rest ks := by
  constructor
  · rintro ⟨as, bs, rfl, derives, h⟩
    cases derives with
    | left derives => exact .inl ⟨as, bs, rfl, derives, h⟩
    | right derives => exact .inr ⟨as, bs, rfl, derives, h⟩
  · rintro (⟨as, bs, rfl, left, h⟩ | ⟨as, bs, rfl, right, h⟩)
    · exact ⟨as, bs, rfl, .left left, h⟩
    · exact ⟨as, bs, rfl, .right right, h⟩

theorem before_either_token {a b : Kind} :
    (token a ||| token b).Before rest ks ↔
      ∃ k ks', (k = a ∨ k = b) ∧ ks = k :: ks' ∧ rest ks' := by
  simp only [before_or, before_token]
  constructor
  · rintro (⟨ks', rfl, h⟩ | ⟨ks', rfl, h⟩)
    · exact ⟨a, ks', .inl rfl, rfl, h⟩
    · exact ⟨b, ks', .inr rfl, rfl, h⟩
  · rintro ⟨_, ks', rfl | rfl, rfl, h⟩
    · exact .inl ⟨ks', rfl, h⟩
    · exact .inr ⟨ks', rfl, h⟩

theorem before_many :
    (many p).Before rest ks ↔ rest ks ∨ p.Before ((many p).Before rest) ks := by
  constructor
  · rintro ⟨_, cs, rfl, derives, h⟩
    cases derives with
    | stop => exact .inl h
    | more first more => exact .inr ⟨_, _, List.append_assoc .., first, _, cs, rfl, more, h⟩
  · rintro (h | ⟨as, _, rfl, first, bs, cs, rfl, more, h⟩)
    · exact ⟨[], ks, rfl, .stop, h⟩
    · exact ⟨as ++ bs, cs, (List.append_assoc ..).symm, .more first more, h⟩

@[simp] theorem before_some : (some p).Before rest = p.Before ((many p).Before rest) :=
  before_append

theorem before_relation :
    relation.Before rest ks ↔ ∃ k ks', k.isRelation = true ∧ ks = k :: ks' ∧ rest ks' := by
  simp only [relation, before_or, before_token]
  constructor
  · rintro (((((⟨ks', rfl, h⟩ | ⟨ks', rfl, h⟩) | ⟨ks', rfl, h⟩) | ⟨ks', rfl, h⟩) | ⟨ks', rfl, h⟩) |
      ⟨ks', rfl, h⟩) <;> exact ⟨_, ks', rfl, rfl, h⟩
  · rintro ⟨k, ks', isRelation, rfl, h⟩
    cases k with
    | relation r => cases r <;> simp [h]
    | _ => cases isRelation

end Phrase

end MiniBasic
