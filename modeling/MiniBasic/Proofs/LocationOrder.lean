import Mathlib.Data.Prod.Lex
import MiniBasic.Location

/-!
# The order of locations

Locations are ordered as the characters of a source are: by line, then by column. Moving over
characters moves the location forward.
-/

namespace MiniBasic.Location

theorem key_injective : Function.Injective fun l : Location => toLex (l.line, l.col) := by
  rintro ⟨_, _⟩ ⟨_, _⟩ h
  simpa using h

instance : LinearOrder Location := LinearOrder.lift' _ key_injective

theorem lt_iff {a b : Location} : a < b ↔ a.line < b.line ∨ a.line = b.line ∧ a.col < b.col :=
  Prod.Lex.lt_iff

theorem lt_next (l : Location) (c : Char) : l < l.next c := by
  rw [lt_iff, next]
  split <;> simp

theorem le_advance (l : Location) (cs : List Char) : l ≤ l.advance cs := by
  induction cs generalizing l with
  | nil => exact le_refl l
  | cons c cs ih => exact (lt_next l c).le.trans (ih (l.next c))

theorem lt_advance (l : Location) {cs : List Char} (h : cs ≠ []) : l < l.advance cs := by
  cases cs with
  | nil => contradiction
  | cons c cs => exact (lt_next l c).trans_le (le_advance _ cs)

theorem eq_nil_of_advance_eq {l : Location} {cs : List Char} (h : l.advance cs = l) : cs = [] := by
  by_contra ne_nil
  have lt := lt_advance l ne_nil
  simp [h] at lt

end MiniBasic.Location
