import MiniBasic.Token

/-!
# Events

Recognizing a program is a sequence of events: the grammar rules that it goes through and the
pieces of C that it gives rise to, each written as soon as what it stands for has been read.
-/

namespace MiniBasic

/-- A rule of the grammar, as it is entered. -/
inductive Rule where
  | program
  | statement (kind : Kind)
  | newline
  | comparison
  | expression
  | term
  | unary (sign : Option String)
  | primary (text : String)
  deriving DecidableEq, Repr

def Rule.name : Rule → String
  | program => "PROGRAM"
  | statement kind => s!"STATEMENT-{kind.name}"
  | newline => "NEWLINE"
  | comparison => "COMPARISON"
  | expression => "EXPRESSION"
  | term => "TERM"
  | unary none => "UNARY"
  | unary (some sign) => s!"UNARY ({sign})"
  | primary text => s!"PRIMARY ({Text.escapeText text})"

inductive Event where
  | enter (rule : Rule)
  /-- A piece of the current line of the body. -/
  | fragment (text : String)
  /-- The end of the current line of the body. -/
  | line (text : String)
  /-- A whole line of the header, which comes before the body. -/
  | header (text : String)
  deriving DecidableEq, Repr

def Event.rule? : Event → Option Rule
  | enter rule => some rule
  | _ => none

end MiniBasic
