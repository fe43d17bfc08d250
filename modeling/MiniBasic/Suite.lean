import MiniBasic.FileTree
import MiniBasic.Log
import MiniBasic.Text.Blank
import MiniBasic.Text.Color
import MiniBasic.Text.Indent
import MiniBasic.Text.Search

/-!
# Suites

A suite is a directory of programs. What is expected of a program is said by the file beside it: the
code that it must compile to, a part of the message that it must be refused with, or nothing, and
then it only has to compile. `Suite.run` compiles all programs in the order of their names and
reports on each of them.
-/

namespace MiniBasic

namespace Suite

inductive Expectation where
  | accepted
  /-- Accepted, with this code. -/
  | code (text : String)
  /-- Refused, with a message that contains this text. -/
  | refused (text : String)
  deriving DecidableEq, Repr

/-- What is wrong with the result of compiling, if anything. -/
def Expectation.complaint? (e : Expectation) (result : Except Diagnostic String) : Option String :=
  match e, result with
  | accepted, .ok _ => none
  | code expected, .ok text =>
    if text = expected then none else some "generated code differs from the expected output"
  | refused part, .error d =>
    if Text.occursIn part.toList d.message.toList then none
    else some s!"expected an error containing '{part}', got: {d.message}"
  | refused part, .ok _ => some s!"compiled, but expected an error containing '{part}'"
  | _, .error d => some d.message

structure Program where
  name : String
  path : String
  expectation : Expectation
  deriving DecidableEq, Repr

section
variable {m : Type → Type} [Monad m] [Files m]

/-- What is expected of the program with the given file name. -/
def readExpectation (directory name : String) : m (Except FileError Expectation) := do
  let code := Path.join directory (Path.withExtension name "c")
  let message := Path.join directory (Path.withExtension name "err")
  if ← Files.isPresent code then
    return (← Files.read code).map .code
  else if ← Files.isPresent message then
    return (← Files.read message).map fun text => .refused (Text.trim text)
  else
    return .ok .accepted

/-- The programs among the entries of a directory: the files with the extension of the language. -/
def findPrograms (directory : String) : List String → m (Except FileError (List Program))
  | [] => return .ok []
  | name :: names => do
    let path := Path.join directory name
    if Path.extension? name = some "teeny" && (← Files.isFile path) then
      match ← readExpectation directory name with
      | .error e => return .error e
      | .ok expectation =>
        return (← findPrograms directory names).map (⟨Path.stem name, path, expectation⟩ :: ·)
    else findPrograms directory names

end

/-- Puts a program in front of the first one whose name is not smaller. -/
def insertByName (p : Program) : List Program → List Program
  | [] => [p]
  | q :: qs => if p.name ≤ q.name then p :: q :: qs else q :: insertByName p qs

def sortByName : List Program → List Program
  | [] => []
  | p :: ps => insertByName p (sortByName ps)

/-- What a suite says while it runs, and its verdict. -/
structure Report where
  output : String
  log : List LogEntry
  /-- Whether all programs did what was expected of them. -/
  result : Except FileError Bool

namespace Report

def failed (e : FileError) : Report := ⟨"", [], .error e⟩

def before (output : String) (log : List LogEntry) (r : Report) : Report :=
  { r with output := output ++ r.output, log := log ++ r.log }

end Report

def spaces (n : Nat) : String := String.ofList (List.replicate n ' ')

def ruler (width : Nat) : String :=
  String.ofList (List.replicate (width + 45) '-') ++ "\n"

/-- The line on a program, which is the `number`th. Names take `width` bytes. -/
def programLine (width number : Nat) (p : Program) (complaint : Option String) : String :=
  let digits := toString number
  let verdict :=
    match complaint with
    | none => Text.green "PASS"
    | some why => Text.red "FAIL" ++ ":\n\t" ++ Text.indent "\t" why
  s!"Unit {spaces (2 - digits.length)}{digits}: {p.name} " ++
    spaces (width - p.name.utf8ByteSize) ++ verdict ++ "\n"

def summary (width passes total : Nat) : String :=
  let verdict := if passes = total then Text.green "SUCCESS" else Text.red "FAILED"
  ruler width ++ s!"Suite Result: {verdict}, {passes}/{total} passes\n"

section
variable {m : Type → Type} [Monad m] [Files m]

/-- Runs programs one after the other, of which the first is the `number`th and `passes` passed
before it. A program is read when its turn comes. -/
def runPrograms (width number passes : Nat) : List Program → m Report
  | [] => return ⟨summary width passes (number - 1), [], .ok (passes = number - 1)⟩
  | p :: ps => do
    match ← Files.read p.path with
    | .error e => return .failed e
    | .ok source =>
      let complaint := p.expectation.complaint? (compile source)
      let passes := if complaint.isNone then passes + 1 else passes
      return (← runPrograms width (number + 1) passes ps).before
        (programLine width number p complaint) (Recognition.ofSource source).compileLog

def run (directory : String) : m Report := do
  match ← Files.list directory with
  | .error e => return .failed e
  | .ok names =>
    match ← findPrograms directory names with
    | .error e => return .failed e
    | .ok programs =>
      let programs := sortByName programs
      let width := programs.foldl (fun width p => max width p.name.utf8ByteSize) 0
      return (← runPrograms width 1 0 programs).before
        (s!"Running suite: '{directory}' ({programs.length} units)\n" ++ ruler width) []

end

end Suite

end MiniBasic
