import MiniBasic.Suite

/-!
# Commands

What the program can be asked to do, and what there is to see of it afterwards. A command ends well
or for one cause, of which the user is told at the end.
-/

namespace MiniBasic

inductive Command where
  | compile (source : String) (output : Option String)
  | check (trace : Bool) (source : String)
  /-- Lists the tokens of a source. -/
  | lex (source : String)
  | suite (directory : Option String)
  deriving DecidableEq, Repr

inductive Failure where
  | unreadable (path : String) (e : FileError)
  | unwritable (path : String) (e : FileError)
  /-- The path names no file that an output could be named after. -/
  | noFileName (path : String)
  | rejected (d : Diagnostic)
  | suiteUnreadable (directory : String) (e : FileError)
  | suiteFailed (directory : String)
  deriving DecidableEq, Repr

def Failure.message : Failure → String
  | unreadable path e => s!"could not read '{path}': {e.message}"
  | unwritable path e => s!"could not write '{path}': {e.message}"
  | noFileName path => s!"'{path}' does not name a file"
  | rejected d => d.message
  | suiteUnreadable directory e => s!"could not run suite '{directory}': {e.message}"
  | suiteFailed directory => s!"suite '{directory}' did not pass"

structure Report where
  output : String
  log : List LogEntry
  failure : Option Failure

namespace Report

def status (r : Report) : Nat := if r.failure.isSome then 1 else 0

/-- The log up to the given level of detail, then the failure. -/
def errorOutput (r : Report) (level : LogLevel) : String :=
  let failure :=
    match r.failure with
    | none => ""
    | some failure => Text.red "Error:" ++ " " ++ failure.message ++ "\n"
  renderLog level r.log ++ failure

end Report

/-- Where a source is compiled to by default: a file named after it, in the working directory. -/
def defaultOutput (source : String) : Except Failure String :=
  match Path.fileName? source with
  | none => .error (.noFileName source)
  | some name => .ok (Path.withExtension (Path.stem name) "c")

section
variable {m : Type → Type} [Monad m]

/-- Compiles a source and writes the code. Nothing is written unless the whole program was
accepted. -/
def compileTo [WritableFiles m] (source output : String) : m (Except Failure Unit) := do
  match compile source with
  | .error d => return .error (.rejected d)
  | .ok code => return (← WritableFiles.write output code).mapError (.unwritable output)

/-- What a command tells when it is done. -/
def doneEntry (text : String) : LogEntry := ⟨.info, .command, text⟩

namespace Command

def runCompile [WritableFiles m] (path : String) (output : Option String) : m Report := do
  match ← Files.read path with
  | .error e => return ⟨"", [], some (.unreadable path e)⟩
  | .ok source =>
    match output.elim (defaultOutput path) .ok with
    | .error failure => return ⟨"", [], some failure⟩
    | .ok output =>
      let log := (Recognition.ofSource source).log
      match ← compileTo source output with
      | .error failure => return ⟨"", log, some failure⟩
      | .ok () => return ⟨"", log ++ [doneEntry s!"compiling done: {output}"], none⟩

section
variable [Files m]

def runCheck (trace : Bool) (path : String) : m Report := do
  match ← Files.read path with
  | .error e => return ⟨"", [], some (.unreadable path e)⟩
  | .ok source =>
    let log := (Recognition.ofSource source).log
    match MiniBasic.check source with
    | .error d => return ⟨"", log, some (.rejected d)⟩
    | .ok rules =>
      let output := if trace then String.join (rules.map fun rule => rule.name ++ "\n") else ""
      return ⟨output, log ++ [doneEntry s!"'{path}' is a valid program"], none⟩

def runLex (path : String) : m Report := do
  match ← Files.read path with
  | .error e => return ⟨"", [], some (.unreadable path e)⟩
  | .ok source =>
    let scan := (Scanner.ofSource source).scan
    let tokens := String.join (scan.tokens.map fun t => t.kind.name ++ "\n")
    match scan.fault with
    | some e => return ⟨tokens, [], some (.rejected (.scan e))⟩
    | none => return ⟨tokens ++ Kind.eof.name ++ "\n\n" ++ scan.scanner.source, [], none⟩

def runSuite (directory : String) : m Report := do
  let r ← Suite.run directory
  match r.result with
  | .error e => return ⟨r.output, r.log, some (.suiteUnreadable directory e)⟩
  | .ok false => return ⟨r.output, r.log, some (.suiteFailed directory)⟩
  | .ok true => return ⟨r.output, r.log, none⟩

end

def run [WritableFiles m] : Command → m Report
  | compile source output => runCompile source output
  | check trace source => runCheck trace source
  | lex source => runLex source
  | suite directory => runSuite (directory.getD "programs/suite")

end Command

end

end MiniBasic
