/-!
# Locations

A location is the line and the column of a character of the source, both counted from one. A
newline belongs to the line that it ends.
-/

namespace MiniBasic

structure Location where
  line : Nat
  col : Nat
  deriving DecidableEq, Repr

namespace Location

/-- The location of the first character of a source. -/
def start : Location := ⟨1, 1⟩

/-- The location right after a character that stands at `l`. -/
def next (l : Location) (c : Char) : Location :=
  if c = '\n' then ⟨l.line + 1, 1⟩ else ⟨l.line, l.col + 1⟩

/-- The location right after the characters `cs`, of which the first stands at `l`. -/
def advance (l : Location) (cs : List Char) : Location :=
  cs.foldl next l

@[simp] theorem advance_nil (l : Location) : l.advance [] = l := rfl

@[simp] theorem advance_cons (l : Location) (c : Char) (cs : List Char) :
    l.advance (c :: cs) = (l.next c).advance cs := rfl

theorem advance_append (l : Location) (cs ds : List Char) :
    l.advance (cs ++ ds) = (l.advance cs).advance ds :=
  List.foldl_append

def render (l : Location) : String :=
  s!"(line: {l.line}, col: {l.col})"

end Location

/-- A value together with the place of the source that it speaks about. -/
structure Located (α : Type) where
  location : Location
  value : α
  deriving DecidableEq, Repr

namespace Located

/-- Another value at the same place. -/
def replace {α β : Type} (x : Located α) (b : β) : Located β := ⟨x.location, b⟩

/-- The place, then the value as `text` writes it. -/
def render {α : Type} (text : α → String) (x : Located α) : String :=
  s!"@{x.location.render}: {text x.value}"

end Located

end MiniBasic
