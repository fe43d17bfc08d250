import MiniBasic.Location

/-!
# Names

The names that a program has introduced so far. Variables and labels live apart: a variable becomes
a global of the generated C and a label is local to its `main`, so they exclude different names. A
label may be jumped to before it is placed, hence jumps are kept and checked at the end.
-/

namespace MiniBasic

/-- Why a name cannot stand where it does. -/
inductive NameError where
  | duplicateLabel (name : String)
  | unknownLabel (name : String)
  | undeclaredVariable (name : String)
  | reservedName (name : String)
  deriving DecidableEq, Repr

def NameError.message : NameError → String
  | duplicateLabel name => s!"Label already exists: {name}"
  | unknownLabel name => s!"Attempting to GOTO to undeclared label: {name}"
  | undeclaredVariable name => s!"Referencing variable before assignment: {name}"
  | reservedName name => s!"Name is reserved in generated C: {name}"

/-- Keywords of C that an identifier could be spelled like. -/
def targetKeywords : List String :=
  ["auto", "break", "case", "char", "const", "continue", "default", "do", "double", "else",
    "enum", "extern", "float", "for", "goto", "if", "inline", "int", "long", "register",
    "restrict", "return", "short", "signed", "sizeof", "static", "struct", "switch", "typedef",
    "union", "unsigned", "void", "volatile", "while"]

/-- The globals that the generated C itself speaks of. -/
def targetGlobals : List String := ["main", "printf", "scanf"]

structure Names where
  vars : List String
  labels : List String
  /-- The first jump to each label, in the order of the source. -/
  jumps : List (Located String)
  deriving DecidableEq, Repr

namespace Names

def empty : Names := ⟨[], [], []⟩

def hasVariable (s : Names) (name : String) : Bool := s.vars.contains name

/-- Introduces a variable, and says whether it is new. -/
def introduce (s : Names) (x : Located String) : Except (Located NameError) (Bool × Names) :=
  if (targetKeywords ++ targetGlobals).contains x.value then
    .error (x.replace (.reservedName x.value))
  else if s.hasVariable x.value then .ok (false, s)
  else .ok (true, { s with vars := x.value :: s.vars })

/-- A variable may be used once it has been introduced. -/
def requireVariable (s : Names) (x : Located String) : Except (Located NameError) Unit :=
  if s.hasVariable x.value then .ok () else .error (x.replace (.undeclaredVariable x.value))

def placeLabel (s : Names) (x : Located String) : Except (Located NameError) Names :=
  if targetKeywords.contains x.value then .error (x.replace (.reservedName x.value))
  else if s.labels.contains x.value then .error (x.replace (.duplicateLabel x.value))
  else .ok { s with labels := x.value :: s.labels }

def jumpTo (s : Names) (x : Located String) : Names :=
  if s.jumps.any (·.value = x.value) then s else { s with jumps := s.jumps ++ [x] }

/-- Every jump has a label to go to. Of the labels that are missing, the one that is jumped to first
is reported, at that jump. -/
def checkJumps (s : Names) : Except (Located NameError) Unit :=
  match s.jumps.find? fun jump => !s.labels.contains jump.value with
  | some jump => .error (jump.replace (.unknownLabel jump.value))
  | none => .ok ()

end Names

end MiniBasic
