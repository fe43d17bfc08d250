import MiniBasic.Event

/-!
# Output

The generated C grows at two places, since a variable is declared ahead of `main` when the body of
`main` is already under way. The rules that are entered leave no mark in it.
-/

namespace MiniBasic

structure Output where
  header : String
  body : String
  deriving DecidableEq, Repr

namespace Output

def empty : Output := ⟨"", ""⟩

def push (out : Output) : Event → Output
  | .enter _ => out
  | .fragment text => { out with body := out.body ++ text }
  | .line text => { out with body := out.body ++ text ++ "\n" }
  | .header text => { out with header := out.header ++ text ++ "\n" }

def ofEvents (events : List Event) : Output := events.foldl push empty

def text (out : Output) : String := out.header ++ out.body

end Output

end MiniBasic
