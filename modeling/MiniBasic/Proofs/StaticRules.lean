import Mathlib.Data.List.Basic
import MiniBasic.Goal
import MiniBasic.Token

/-!
# Rules for names

What a program has to observe beyond the grammar. All of it is about the identifiers of the source
in their order, each with what it is there for, which the keyword in front of it tells: an
identifier that no such keyword stands in front of is an operand. Blocks do not matter.

`NamesAllowed` is what can be seen from the beginning of a program on and stays wrong whatever
follows; that each jump has a label is only decided at the end.
-/

namespace MiniBasic

/-- What an identifier behind a token of this kind is there for, unless it is an operand. -/
def NameUse.after? : Kind → Option NameUse
  | .keyword .label => some .label
  | .keyword .goto => some .target
  | .keyword .let_ => some .assigned
  | .keyword .input => some .input
  | _ => none

/-- An identifier of the source. -/
structure Occurrence where
  /-- What it is there for, unless it is an operand. -/
  use : Option NameUse
  name : String
  deriving DecidableEq, Repr

/-- The identifiers in the tokens, in front of which a token of kind `prev` stands. -/
def occurrencesAfter (prev : Kind) : List (Located Token) → List Occurrence
  | [] => []
  | t :: ts =>
    if t.kind = .ident then ⟨NameUse.after? prev, t.text⟩ :: occurrencesAfter t.kind ts
    else occurrencesAfter t.kind ts

def occurrences (ts : List (Located Token)) : List Occurrence := occurrencesAfter .newline ts

namespace Occurrence

def introduced? : Occurrence → Option String
  | ⟨some .assigned, name⟩ | ⟨some .input, name⟩ => some name
  | _ => none

def placed? : Occurrence → Option String
  | ⟨some .label, name⟩ => some name
  | _ => none

def target? : Occurrence → Option String
  | ⟨some .target, name⟩ => some name
  | _ => none

end Occurrence

/-- The variables that are assigned to or read from the input. -/
def introduced (os : List Occurrence) : List String := os.filterMap Occurrence.introduced?

/-- The labels that are placed. -/
def placed (os : List Occurrence) : List String := os.filterMap Occurrence.placed?

/-- The labels that are jumped to. -/
def targets (os : List Occurrence) : List String := os.filterMap Occurrence.target?

structure NamesAllowed (os : List Occurrence) : Prop where
  operands_introduced : ∀ before name after, os = before ++ ⟨none, name⟩ :: after →
    name ∈ introduced before
  introduced_free : ∀ name ∈ introduced os, name ∉ targetKeywords ++ targetGlobals
  placed_free : ∀ name ∈ placed os, name ∉ targetKeywords
  placed_nodup : (placed os).Nodup

structure StaticRules (os : List Occurrence) : Prop extends NamesAllowed os where
  targets_placed : targets os ⊆ placed os

/-! ## One more identifier -/

section
variable {os ps : List Occurrence} {o : Occurrence}

@[simp] theorem introduced_append : introduced (os ++ ps) = introduced os ++ introduced ps :=
  List.filterMap_append

@[simp] theorem placed_append : placed (os ++ ps) = placed os ++ placed ps :=
  List.filterMap_append

@[simp] theorem targets_append : targets (os ++ ps) = targets os ++ targets ps :=
  List.filterMap_append

theorem NamesAllowed.of_append (h : NamesAllowed (os ++ ps)) : NamesAllowed os where
  operands_introduced before name after eq := by
    refine h.operands_introduced before name (after ++ ps) ?_
    rw [eq, List.append_assoc, List.cons_append]
  introduced_free name mem := h.introduced_free name (by simp [mem])
  placed_free name mem := h.placed_free name (by simp [mem])
  placed_nodup := (List.nodup_append.mp (placed_append ▸ h.placed_nodup)).1

theorem namesAllowed_nil : NamesAllowed [] where
  operands_introduced before name after eq := by simp at eq
  introduced_free := by simp [introduced]
  placed_free := by simp [placed]
  placed_nodup := by simp [placed]

/-- Whether an identifier may stand behind the identifiers `os`. -/
structure Occurrence.Allowed (os : List Occurrence) (o : Occurrence) : Prop where
  operand_introduced : o.use = none → o.name ∈ introduced os
  introduced_free : ∀ name ∈ introduced [o], name ∉ targetKeywords ++ targetGlobals
  placed_free : ∀ name ∈ placed [o], name ∉ targetKeywords
  placed_new : ∀ name ∈ placed [o], name ∉ placed os

theorem placed_singleton_nodup : (placed [o]).Nodup := by
  unfold placed
  cases h : o.placed? <;> simp [h]

theorem namesAllowed_append_singleton_iff :
    NamesAllowed (os ++ [o]) ↔ NamesAllowed os ∧ o.Allowed os := by
  constructor
  · intro h
    refine ⟨h.of_append, fun operand => ?_, fun name mem => ?_, fun name mem => ?_, ?_⟩
    · refine h.operands_introduced os o.name [] ?_
      rw [← operand]
    · exact h.introduced_free name (by simp [mem])
    · exact h.placed_free name (by simp [mem])
    · intro name mem mem'
      have nodup := h.placed_nodup
      rw [placed_append] at nodup
      exact (List.nodup_append.mp nodup).2.2 name mem' name mem rfl
  · rintro ⟨h, allowed⟩
    refine ⟨fun before name after eq => ?_, ?_, ?_, ?_⟩
    · rcases after.eq_nil_or_concat with rfl | ⟨after, last, rfl⟩
      · obtain ⟨rfl, last_eq⟩ := List.append_inj' eq rfl
        cases last_eq
        exact allowed.operand_introduced rfl
      · rw [List.concat_eq_append, ← List.cons_append, ← List.append_assoc] at eq
        exact h.operands_introduced before name after (List.append_inj' eq rfl).1
    · rw [introduced_append]
      exact List.forall_mem_append.mpr ⟨h.introduced_free, allowed.introduced_free⟩
    · rw [placed_append]
      exact List.forall_mem_append.mpr ⟨h.placed_free, allowed.placed_free⟩
    · rw [placed_append, List.nodup_append]
      refine ⟨h.placed_nodup, placed_singleton_nodup, ?_⟩
      rintro name mem _ mem' rfl
      exact allowed.placed_new name mem' mem

end

/-! ## One more token -/

/-- The kind of the last token, behind a token of kind `prev`. -/
def lastKind (prev : Kind) : List (Located Token) → Kind
  | [] => prev
  | t :: ts => lastKind t.kind ts

@[simp] theorem lastKind_append_singleton {prev : Kind} {ts : List (Located Token)}
    {t : Located Token} : lastKind prev (ts ++ [t]) = t.kind := by
  induction ts generalizing prev with
  | nil => rfl
  | cons u ts ih => exact ih

private theorem occurrencesAfter_append {prev : Kind} {ts us : List (Located Token)} :
    occurrencesAfter prev (ts ++ us) =
      occurrencesAfter prev ts ++ occurrencesAfter (lastKind prev ts) us := by
  induction ts generalizing prev with
  | nil => rfl
  | cons t ts ih =>
    simp only [List.cons_append, occurrencesAfter, lastKind, ih]
    split <;> rfl

theorem occurrences_append (ts us : List (Located Token)) :
    occurrences (ts ++ us) = occurrences ts ++ occurrencesAfter (lastKind .newline ts) us :=
  occurrencesAfter_append

theorem occurrences_append_ident {ts : List (Located Token)} {t : Located Token}
    (ident : t.kind = .ident) :
    occurrences (ts ++ [t]) =
      occurrences ts ++ [⟨NameUse.after? (lastKind .newline ts), t.text⟩] := by
  simp [occurrences_append, occurrencesAfter, ident]

theorem occurrences_append_other {ts : List (Located Token)} {t : Located Token}
    (other : t.kind ≠ .ident) : occurrences (ts ++ [t]) = occurrences ts := by
  simp [occurrences_append, occurrencesAfter, other]

end MiniBasic
