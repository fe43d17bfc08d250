import Mathlib.Data.List.Forall2
import MiniBasic.Proofs.Declarations
import MiniBasic.Proofs.MarkedLines

/-!
# Events that carry a name

A name stands in an event in one of eight ways (`NameSlot`), and an event that carries a name tells
both the way and the name (`NameSlot.event_inj`). So it makes sense to rename what events carry, and
`Event.Renamed r` relates an event to the one with the name `r` gives, and an event without a name
to itself. What the goals will announce is related likewise.
-/

namespace MiniBasic

/-- How a name stands in an event. -/
inductive NameSlot where
  /-- In the rule that is entered for an operand. -/
  | rule
  /-- In the line of the header that declares a variable. -/
  | declaration
  | operand
  /-- In front of what is assigned. -/
  | target
  /-- Where a variable is read from the input. -/
  | address
  /-- Where a variable becomes zero because nothing could be read. -/
  | zero
  | label
  | jump
  deriving DecidableEq

namespace NameSlot

def event : NameSlot → String → Event
  | rule, name => .enter (.primary name)
  | declaration, name => .declaration name
  | operand, name => .fragment name
  | target, name => .fragment (name ++ " = ")
  | address, name => .line ("if(0 == scanf(\"%f\", &" ++ name ++ ")) \x7b")
  | zero, name => .line (name ++ " = 0;")
  | label, name => .label name
  | jump, name => .jump name

theorem event_injective (slot : NameSlot) : Function.Injective slot.event := by
  intro name name' same
  cases slot <;> simpa [event, Event.declaration, Event.label, Event.jump] using same

/-- Two slots in fragments, or two slots in lines, differ in the shape of their code. -/
theorem eq_of_event_eq {slot slot' : NameSlot} {name name' : String} (word : IsWord name.toList)
    (word' : IsWord name'.toList) (same : slot.event name = slot'.event name') : slot = slot' := by
  obtain ⟨c, letter, jump_shape⟩ := shape_keyword "goto " (by decide) word ";"
  obtain ⟨c', letter', jump_shape'⟩ := shape_keyword "goto " (by decide) word' ";"
  have ne : c ≠ '=' := by
    rintro rfl
    exact absurd letter (by decide)
  have ne' : '=' ≠ c' := by
    rintro rfl
    exact absurd letter' (by decide)
  cases slot <;> cases slot' <;>
    simp only [event, Event.declaration, Event.label, Event.jump, Event.fragment.injEq,
      Event.line.injEq, reduceCtorEq] at same ⊢ <;>
    (have shapes := congrArg shape same
     simp [shape_self, shape_target, shape_address, shape_zero, shape_label, jump_shape,
      jump_shape', word, word', ne, ne'] at shapes)

end NameSlot

/-! ## Events -/

namespace Event

/-- No name stands in the event. -/
def Nameless (e : Event) : Prop :=
  ∀ (slot : NameSlot) (name : String), IsWord name.toList → e ≠ slot.event name

section
variable {e : Event} {text : String}

theorem nameless (plain : e.Plain []) (unmarked : e.Unmarked)
    (not_rule : ∀ name, IsWord name.toList → e ≠ enter (.primary name)) : e.Nameless := by
  intro slot name word same
  cases slot with
  | rule => exact not_rule name word same
  | declaration => exact plain.not_declaration name same
  | label => exact (unmarked name word).1 same
  | jump => exact (unmarked name word).2 same
  | operand => exact List.not_mem_nil (plain.carried name word (same ▸ .operand))
  | target => exact List.not_mem_nil (plain.carried name word (same ▸ .target))
  | address => exact List.not_mem_nil (plain.carried name word (same ▸ .address))
  | zero => exact List.not_mem_nil (plain.carried name word (same ▸ .zero))

theorem nameless_enter {rule : Rule} (not_primary : ∀ name, rule ≠ .primary name) :
    (enter rule).Nameless :=
  nameless (plain_enter rule) (unmarked_enter rule) fun name _ same =>
    not_primary name (enter.inj same)

theorem nameless_fragment (plain : (fragment text).Plain []) : (fragment text).Nameless :=
  nameless plain (unmarked_fragment text) nofun

theorem nameless_line (plain : (line text).Plain []) (unmarked : (line text).Unmarked) :
    (line text).Nameless :=
  nameless plain unmarked nofun

theorem nameless_include : (header "#include <stdio.h>").Nameless :=
  nameless plain_include (unmarked_header _) nofun

theorem nameless_brace : (line "\x7d").Nameless :=
  nameless_line (plain_line_of_shape (by decide) (by decide)) unmarked_brace

/-- A line that ends with a semicolon and does not begin as a jump does. -/
theorem nameless_of_head (ne_address : shape text ≠ ['(', '0']) (ne_zero : shape text ≠ [' ', '='])
    (last : text.toList.getLast? = some ';') (first : text.toList.head? ≠ some 'g') :
    (line text).Nameless :=
  nameless_line (plain_line_of_shape ne_address ne_zero) (unmarked_of_head last first)

theorem nameless_number (numeral : IsNumeral text.toList) :
    (enter (.primary text)).Nameless ∧ (fragment text).Nameless := by
  have plain : (fragment text).Plain [] := plain_number numeral
  refine ⟨nameless (plain_enter _) (unmarked_enter _) ?_, nameless_fragment plain⟩
  rintro name word ⟨⟩
  exact List.not_mem_nil (plain.carried text word .operand)

end

/-- The two events are the same but for the name in them, which `r` takes to the other one. -/
inductive Renamed (r : String → String) : Event → Event → Prop
  | named (slot : NameSlot) {name : String} (word : IsWord name.toList) :
    Renamed r (slot.event name) (slot.event (r name))
  | nameless {e : Event} (nameless : e.Nameless) : Renamed r e e

/-- What an event is renamed to is determined. -/
theorem Renamed.unique {r : String → String} {e e₁ e₂ : Event} (h₁ : e.Renamed r e₁)
    (h₂ : e.Renamed r e₂) : e₁ = e₂ := by
  cases h₁ with
  | nameless nameless₁ =>
    cases h₂ with
    | nameless => rfl
    | named slot word => exact absurd rfl (nameless₁ slot _ word)
  | @named slot name word =>
    generalize same : slot.event name = e at h₂
    cases h₂ with
    | nameless nameless₂ => exact absurd same.symm (nameless₂ slot name word)
    | named slot' word' =>
      obtain rfl := NameSlot.eq_of_event_eq word word' same
      rw [slot.event_injective same]

end Event

/-! ## Goals -/

/-- What `f` makes of the value, at the same place. -/
def Located.map {α β : Type} (f : α → β) (x : Located α) : Located β := ⟨x.location, f x.value⟩

namespace Goal

/-- No name stands in what the goal announces, and the goal looks at none. -/
def Nameless : Goal → Prop
  | event e => e.Nameless
  | introduce _ | placeLabel _ | jumpTo _ => False
  | _ => True

/-- The two goals are the same but for the name that they wait to look at or to announce. -/
inductive Renamed (r : String → String) : Goal → Goal → Prop
  | event {e e' : Event} (h : e.Renamed r e') : Renamed r (event e) (event e')
  | introduce {x : Located String} (word : IsWord x.value.toList) :
    Renamed r (introduce x) (introduce (x.map r))
  | placeLabel {x : Located String} (word : IsWord x.value.toList) :
    Renamed r (placeLabel x) (placeLabel (x.map r))
  | jumpTo {x : Located String} (word : IsWord x.value.toList) :
    Renamed r (jumpTo x) (jumpTo (x.map r))
  | nameless {goal : Goal} (h : goal.Nameless) : Renamed r goal goal

section
variable {r : String → String}

theorem renamed_of_nameless {goals : List Goal} (h : ∀ g ∈ goals, g.Nameless) :
    List.Forall₂ (Renamed r) goals goals :=
  List.forall₂_same.mpr fun g mem => .nameless (h g mem)

theorem nameless_ofKeyword {k : Keyword} {parts : List Goal} (h : ofKeyword? k = some parts) :
    ∀ g ∈ parts, g.Nameless := by
  have opening : (Event.line ")\x7b").Nameless :=
    Event.nameless_line (Event.plain_line_of_shape (by decide) (by decide))
      (Event.unmarked_line (c := ')') (by decide) rfl (by decide))
  have if_ : (Event.fragment "if(").Nameless :=
    Event.nameless_fragment (Event.plain_fragment_of_shape (by decide) (by decide))
  have while_ : (Event.fragment "while(").Nameless :=
    Event.nameless_fragment (Event.plain_fragment_of_shape (by decide) (by decide))
  cases k <;> cases h <;>
    simp [Nameless, line, Goal.fragment, opening, if_, while_, Event.nameless_brace]

theorem nameless_program : ∀ g ∈ program, g.Nameless := by
  have rule : (Event.enter .program).Nameless := Event.nameless_enter nofun
  have opening : (Event.line "int main(void)\x7b").Nameless :=
    Event.nameless_line (Event.plain_line_of_shape (by decide) (by decide))
      (Event.unmarked_line (c := '(') (by decide) rfl (by decide))
  have return_ : (Event.line "return 0;").Nameless :=
    Event.nameless_of_head (by decide) (by decide) rfl (by decide)
  simp [program, Nameless, line, rule, Event.nameless_include, opening, return_,
    Event.nameless_brace]

theorem renamed_ofName (use : NameUse) {x : Located String} (word : IsWord x.value.toList) :
    List.Forall₂ (Renamed r) (ofName use x) (ofName use (x.map r)) := by
  have carrying (slot : NameSlot) :
      Renamed r (.event (slot.event x.value)) (.event (slot.event (x.map r).value)) :=
    .event (.named slot word)
  cases use with
  | label => exact .cons (.placeLabel word) .nil
  | target => exact .cons (.jumpTo word) .nil
  | assigned =>
    have semicolon : (Event.line ";").Nameless :=
      Event.nameless_of_head (by decide) (by decide) rfl (by decide)
    have rest : ∀ g ∈ [expression, line ";"], g.Nameless := by simp [Nameless, line, semicolon]
    exact .cons (.introduce word) (.cons (.nameless trivial)
      (.cons (carrying .target) (renamed_of_nameless rest)))
  | input =>
    have skip : (Event.line "scanf(\"%*s\");").Nameless :=
      Event.nameless_of_head (by decide) (by decide) rfl (by decide)
    have rest : ∀ g ∈ [line "scanf(\"%*s\");", line "\x7d"], g.Nameless := by
      simp [Nameless, line, skip, Event.nameless_brace]
    exact .cons (.introduce word) (.cons (carrying .address)
      (.cons (carrying .zero) (renamed_of_nameless rest)))

end

end Goal

end MiniBasic
