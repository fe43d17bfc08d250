/-!
# Paths

A path is a text of pieces between slashes. The name of a file is split at its last point into a
stem and an extension, where a point in front of all else does not count: `.profile` is all stem.
-/

namespace MiniBasic.Path

def splitSlashes : List Char → List (List Char)
  | [] => [[]]
  | c :: cs =>
    match c == '/', splitSlashes cs with
    | true, pieces => [] :: pieces
    | false, piece :: pieces => (c :: piece) :: pieces
    | false, [] => [[c]]

/-- What stands between the slashes. There is one piece more than there are slashes. -/
def pieces (path : String) : List String :=
  (splitSlashes path.toList).map String.ofList

/-- The pieces that lead somewhere, which an empty piece and a lone point do not. -/
def steps (path : String) : List String :=
  (pieces path).filter fun piece => piece ≠ "" ∧ piece ≠ "."

/-- The last step, unless it leads upwards. -/
def fileName? (path : String) : Option String :=
  match (steps path).getLast? with
  | some name => if name = ".." then none else some name
  | none => none

/-- The stem of a name and its extension, if it has one. -/
def splitName (name : String) : String × Option String :=
  let reversed := name.toList.reverse
  match reversed.dropWhile (· ≠ '.') with
  | '.' :: c :: cs =>
    if name = ".." then (name, none)
    else
      (String.ofList (c :: cs).reverse,
        some (String.ofList (reversed.takeWhile (· ≠ '.')).reverse))
  | _ => (name, none)

/-- The name up to its last point. -/
def stem (name : String) : String := (splitName name).1

/-- The name after its last point. -/
def extension? (name : String) : Option String := (splitName name).2

/-- The name with another extension in place of its own. The names `.` and `..` of directories have
no extension, and a name that is one of them, or is `..` once its extension is gone, gets none. -/
def withExtension (name extension : String) : String :=
  let kept := if (extension? name).isSome then stem name ++ "." else name
  if kept = "." ∨ kept = ".." then kept else stem kept ++ "." ++ extension

def join (directory name : String) : String :=
  if directory.toList.getLast? = some '/' then directory ++ name
  else directory ++ "/" ++ name

end MiniBasic.Path
