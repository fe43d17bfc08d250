import MiniBasic.Output
import MiniBasic.Step
import MiniBasic.Window

/-!
# Recognition

Recognizing a source moves a window over it, one step for each token, until all goals are met or
something stands in the way. What remains of it are its events, the names that were introduced and
how it ended; whatever else is of interest about a program is read off these.
-/

namespace MiniBasic

structure Recognition where
  events : List Event
  names : Names
  result : Except Diagnostic Unit

namespace Recognition

/-- Recognizes the goals in what the window moves over. -/
def run (w : Window) (goals : List Goal) (names : Names) : Recognition :=
  match h : step w.current goals names with
  | ⟨events, names, .failed e⟩ => ⟨events, names, .error e⟩
  | ⟨events, names, .finished⟩ => ⟨events, names, .ok ()⟩
  | ⟨events, names, .consumed goals⟩ =>
    match hw : w.advance with
    | .error e => ⟨events, names, .error (.scan e)⟩
    | .ok w' =>
      have := Window.size_advance hw (Step.ne_eof_of_consumed (congrArg Step.outcome h))
      let more := run w' goals names
      { more with events := events ++ more.events }
termination_by w.size

def ofSource (source : String) : Recognition :=
  match Window.ofSource source with
  | .error e => ⟨[], .empty, .error (.scan e)⟩
  | .ok w => run w Goal.program .empty

/-- The rules that were entered, in order. -/
def rules (r : Recognition) : List Rule := r.events.filterMap Event.rule?

end Recognition

/-- What an accepted program comes to. -/
structure Compilation where
  code : String
  rules : List Rule
  deriving DecidableEq, Repr

def compilation (source : String) : Except Diagnostic Compilation :=
  let r := Recognition.ofSource source
  r.result.map fun () => ⟨(Output.ofEvents r.events).text, r.rules⟩

/-- The C code that a source compiles to. -/
def compile (source : String) : Except Diagnostic String :=
  (compilation source).map Compilation.code

/-- The rules that a source goes through. No code is generated. -/
def check (source : String) : Except Diagnostic (List Rule) :=
  let r := Recognition.ofSource source
  r.result.map fun () => r.rules

end MiniBasic
