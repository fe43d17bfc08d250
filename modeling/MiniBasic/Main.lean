import MiniBasic.CommandLine

/-!
# Main

The tools on the command line. The name that the program is called by says which of the two it is,
and the environment variable `LOG_LEVEL` how detailed its log is.
-/

namespace MiniBasic

/-- What the system has to say about a file. The number of an error comes with either sign. -/
private def FileError.ofSystem : IO.Error → FileError
  | .noFileOrDirectory .. => .notFound
  | e@(.inappropriateType _ code _) =>
    if code = 20 ∨ code = -20 then .notADirectory
    else if code = 21 ∨ code = -21 then .isADirectory
    else .other (toString e)
  | e => .other (toString e)

private def attempt {α : Type} (action : IO α) : IO (Except FileError α) :=
  return (← action.toBaseIO).mapError .ofSystem

/-- A path as an entry of a directory, which is how the system answers questions about it. -/
private def entryAt (path : String) : IO.FS.DirEntry := ⟨path, ""⟩

instance : WritableFiles IO where
  read path := do
    match ← attempt (IO.FS.readBinFile path) with
    | .error e => return .error e
    | .ok content => return (String.fromUTF8? content).elim (.error .notText) .ok
  list path := attempt do return (← (entryAt path).root.readDir).toList.map (·.fileName)
  isFile path := do
    match ← attempt (entryAt path).root.metadata with
    | .error _ => return false
    | .ok data => return data.type == .file
  isPresent path := return (← attempt (entryAt path).root.metadata).isOk
  write path text := attempt (IO.FS.writeFile path text)

private def usage : Tool → String
  | .compiler => "usage: teenyc IN [OUT]\n"
  | .full =>
    "usage: teeny compile IN [OUT]\n" ++
    "       teeny check [-t | --trace] IN\n" ++
    "       teeny lex IN\n" ++
    "       teeny suite [DIR]\n"

private def calledTool : IO Tool := do
  return if (← IO.appPath).fileStem = some "teenyc" then .compiler else .full

private def logLevel : IO LogLevel := do
  return ((← IO.getEnv "LOG_LEVEL").bind LogLevel.ofName?).getD .info

end MiniBasic

open MiniBasic in
def main (words : List String) : IO UInt32 := do
  let tool ← calledTool
  match Command.ofWords? tool words with
  | none =>
    IO.eprint (usage tool)
    return 1
  | some command =>
    let report ← (command.run : IO Report)
    IO.print report.output
    IO.eprint (report.errorOutput (← logLevel))
    return report.status.toUInt32
