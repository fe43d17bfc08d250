import MiniBasic.Path

/-!
# File trees

The files that a command may meet. A tree lists its files and its empty directories by the names
on the way to them from the root; all that lies on such a way, or on the way to the working
directory, is a directory as well. The order of the list is the order in which a directory shows
its entries.

`Files` is what commands need of the place where they run. A tree is one such place.
-/

namespace MiniBasic

inductive FileError where
  | notFound
  | notADirectory
  | isADirectory
  /-- The path, or a name on it, is longer than any can be. -/
  | nameTooLong
  /-- The path contains the character that ends the paths of the system. -/
  | nulInPath
  /-- The content is not UTF-8. -/
  | notText
  | other (message : String)
  deriving DecidableEq, Repr

def FileError.message : FileError → String
  | notFound => "No such file or directory (os error 2)"
  | notADirectory => "Not a directory (os error 20)"
  | isADirectory => "Is a directory (os error 21)"
  | nameTooLong => "File name too long (os error 36)"
  | nulInPath => "file name contained an unexpected NUL byte"
  | notText => "stream did not contain valid UTF-8"
  | other message => message

inductive Entry where
  | file (content : ByteArray)
  | directory

structure FileTree where
  workingDirectory : List String
  entries : List (List String × Entry)

namespace FileTree

def entry? (tree : FileTree) (place : List String) : Option Entry :=
  match tree.entries.find? (·.1 = place) with
  | some (_, entry) => some entry
  | none =>
    if place.isPrefixOf tree.workingDirectory || tree.entries.any (place.isPrefixOf ·.1) then
      some .directory
    else none

def directory (tree : FileTree) (place : List String) : Except FileError Unit :=
  match tree.entry? place with
  | none => .error .notFound
  | some (.file _) => .error .notADirectory
  | some .directory => .ok ()

/-- The most bytes that a path can have. -/
def maxPathSize : Nat := 4095

/-- The most bytes that a name on a path can have. -/
def maxNameSize : Nat := 255

/-- The pieces of a path that can be followed at all. -/
def pathPieces (path : String) : Except FileError (List String) :=
  if '\x00' ∈ path.toList then .error .nulInPath
  else if path = "" then .error .notFound
  else if maxPathSize < path.utf8ByteSize then .error .nameTooLong
  else .ok (Path.pieces path)

/-- Follows the pieces of a path from a directory on. Where they lead to need not exist. -/
def walk (tree : FileTree) (here : List String) : List String → Except FileError (List String)
  | [] => .ok here
  | piece :: pieces =>
    match tree.directory here with
    | .error e => .error e
    | .ok () =>
      if piece = "" ∨ piece = "." then tree.walk here pieces
      else if piece = ".." then tree.walk here.dropLast pieces
      else if maxNameSize < piece.utf8ByteSize then .error .nameTooLong
      else tree.walk (here ++ [piece]) pieces

/-- Follows the pieces of a path from the root on if the first is empty, otherwise from the working
directory on. -/
def walkPath (tree : FileTree) : List String → Except FileError (List String)
  | "" :: pieces => tree.walk [] pieces
  | pieces => tree.walk tree.workingDirectory pieces

/-- The place that a path leads to. -/
def resolve (tree : FileTree) (path : String) : Except FileError (List String) :=
  match pathPieces path with
  | .error e => .error e
  | .ok pieces => tree.walkPath pieces

def find (tree : FileTree) (path : String) : Except FileError Entry :=
  match tree.resolve path with
  | .error e => .error e
  | .ok place =>
    match tree.entry? place with
    | none => .error .notFound
    | some entry => .ok entry

def read (tree : FileTree) (path : String) : Except FileError String :=
  match tree.find path with
  | .error e => .error e
  | .ok .directory => .error .isADirectory
  | .ok (.file content) =>
    match String.fromUTF8? content with
    | none => .error .notText
    | some text => .ok text

/-- The names of the entries of a directory. -/
def list (tree : FileTree) (path : String) : Except FileError (List String) :=
  match tree.resolve path with
  | .error e => .error e
  | .ok place =>
    match tree.directory place with
    | .error e => .error e
    | .ok () =>
      .ok (tree.entries.filterMap fun entry =>
        if place.isPrefixOf entry.1 then entry.1[place.length]? else none).eraseDups

def isFile (tree : FileTree) (path : String) : Bool :=
  match tree.find path with
  | .ok (.file _) => true
  | _ => false

def isPresent (tree : FileTree) (path : String) : Bool :=
  match tree.find path with
  | .ok _ => true
  | .error _ => false

def put (tree : FileTree) (place : List String) (content : ByteArray) : FileTree :=
  { tree with
    entries :=
      if tree.entries.any (·.1 = place) then
        tree.entries.map fun entry => if entry.1 = place then (place, .file content) else entry
      else tree.entries ++ [(place, .file content)] }

/-- The place that a path names for a file to be written, which need not exist yet. A slash at the
end or a last piece that is no name asks for a directory. -/
def placeToWrite (tree : FileTree) (path : String) : Except FileError (List String) :=
  match pathPieces path with
  | .error e => .error e
  | .ok pieces =>
    match pieces.reverse.dropWhile (· = "") with
    | [] => .error .isADirectory
    | last :: before =>
      match tree.walkPath before.reverse with
      | .error e => .error e
      | .ok place =>
        match tree.directory place with
        | .error e => .error e
        | .ok () =>
          if pieces.getLast? = some "" ∨ last = "." ∨ last = ".." then .error .isADirectory
          else if maxNameSize < last.utf8ByteSize then .error .nameTooLong
          else
            match tree.entry? (place ++ [last]) with
            | some .directory => .error .isADirectory
            | _ => .ok (place ++ [last])

def write (tree : FileTree) (path : String) (text : String) : Except FileError FileTree :=
  (tree.placeToWrite path).map fun place => tree.put place text.toUTF8

/-- The entries of a tree below its working directory, given by their paths from there. -/
def ofPaths (paths : List (String × Entry)) (workingDirectory : List String) : FileTree :=
  ⟨workingDirectory, paths.map fun (path, entry) => (workingDirectory ++ Path.steps path, entry)⟩

/-- Whether there is a file with this content. -/
def holds (tree : FileTree) (place : List String) (content : ByteArray) : Bool :=
  match tree.entry? place with
  | some (.file old) => old.data = content.data
  | _ => false

/-- The files below the working directory that are new or have another content than in `before`. -/
def changedFiles (before after : FileTree) : List (String × ByteArray) :=
  after.entries.filterMap fun (place, entry) =>
    match entry with
    | .directory => none
    | .file content =>
      if after.workingDirectory.isPrefixOf place && !before.holds place content then
        some ("/".intercalate (place.drop after.workingDirectory.length), content)
      else none

end FileTree

/-- Files that can be read. -/
class Files (m : Type → Type) where
  read : String → m (Except FileError String)
  list : String → m (Except FileError (List String))
  isFile : String → m Bool
  isPresent : String → m Bool

/-- Files that can be read and written. -/
class WritableFiles (m : Type → Type) extends Files m where
  write : String → String → m (Except FileError Unit)

instance : WritableFiles (StateM FileTree) where
  read path := fun tree => (tree.read path, tree)
  list path := fun tree => (tree.list path, tree)
  isFile path := fun tree => (tree.isFile path, tree)
  isPresent path := fun tree => (tree.isPresent path, tree)
  write path text := fun tree =>
    match tree.write path text with
    | .error e => (.error e, tree)
    | .ok tree => (.ok (), tree)

end MiniBasic
