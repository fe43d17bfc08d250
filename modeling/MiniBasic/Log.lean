import MiniBasic.Recognition
import MiniBasic.Text.Indent

/-!
# Log

Commands tell what they do in a log, of which the user sees the entries up to a level of detail.
-/

namespace MiniBasic

/-- Levels of detail. `error` is the least. -/
inductive LogLevel where
  | error | info | debug | trace
  deriving DecidableEq, Repr

namespace LogLevel

def rank : LogLevel → Nat
  | error => 0
  | info => 1
  | debug => 2
  | trace => 3

/-- The name, as wide as all others. -/
def label : LogLevel → String
  | error => "ERROR"
  | info => "INFO "
  | debug => "DEBUG"
  | trace => "TRACE"

def ofName? : String → Option LogLevel
  | "error" => some error
  | "info" => some info
  | "debug" => some debug
  | "trace" => some trace
  | _ => none

end LogLevel

/-- Who speaks in the log. -/
inductive LogSource where
  | command | compiler | grammar
  deriving DecidableEq, Repr

def LogSource.name : LogSource → String
  | command => "teeny::cli::command"
  | compiler => "teeny::compiler"
  | grammar => "teeny::compiler::phases::parse"

structure LogEntry where
  level : LogLevel
  source : LogSource
  text : String
  deriving DecidableEq, Repr

/-- The entry, of which all lines but the first are indented. -/
def LogEntry.render (entry : LogEntry) : String :=
  s!"[{entry.level.label} {entry.source.name}] " ++ Text.indent "    " entry.text ++ "\n"

/-- The entries up to the given level, each on lines of its own. -/
def renderLog (level : LogLevel) (log : List LogEntry) : String :=
  String.join ((log.filter (·.level.rank ≤ level.rank)).map LogEntry.render)

/-- The rules of a program, as they are entered. -/
def Recognition.log (r : Recognition) : List LogEntry :=
  r.rules.map fun rule => ⟨.trace, .grammar, rule.name⟩

/-- What `compile` tells: the rules, then how many there are if the program is accepted. -/
def Recognition.compileLog (r : Recognition) : List LogEntry :=
  match r.result with
  | .error _ => r.log
  | .ok () => r.log ++ [⟨.debug, .compiler, s!"recognized {r.rules.length} rules"⟩]

end MiniBasic
