/-!
# Sets of code points

The properties of characters that a text format consults are sets of code points. A set is kept
as the list of its maximal runs, each given by its first and its last member.
-/

namespace MiniBasic.Text

/-- Runs of code points, ascending and apart. -/
abbrev CodePoints := List (Nat × Nat)

namespace CodePoints

def contains (runs : CodePoints) (c : Char) : Bool :=
  runs.any fun run => run.1 ≤ c.toNat && c.toNat ≤ run.2

theorem contains_iff {runs : CodePoints} {c : Char} :
    runs.contains c = true ↔ ∃ run ∈ runs, run.1 ≤ c.toNat ∧ c.toNat ≤ run.2 := by
  simp [contains]

end CodePoints

end MiniBasic.Text
