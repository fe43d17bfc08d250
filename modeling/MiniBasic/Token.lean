import MiniBasic.Location
import MiniBasic.Text.Escape

/-!
# Tokens

The words of the language. A token has a kind and keeps the text it was written with; the text of
a string is what stands between its quotes, and the text of the end of the input is empty.
-/

namespace MiniBasic

/-- The reserved words, in capitals in a source. -/
inductive Keyword where
  | label | goto | print | input | let_ | if_ | then_ | endIf | while_ | repeat_ | endWhile
  deriving DecidableEq, Repr

namespace Keyword

def all : List Keyword :=
  [label, goto, print, input, let_, if_, then_, endIf, while_, repeat_, endWhile]

def spelling : Keyword → String
  | label => "LABEL"
  | goto => "GOTO"
  | print => "PRINT"
  | input => "INPUT"
  | let_ => "LET"
  | if_ => "IF"
  | then_ => "THEN"
  | endIf => "ENDIF"
  | while_ => "WHILE"
  | repeat_ => "REPEAT"
  | endWhile => "ENDWHILE"

/-- The keyword that is spelled `s`, letter by letter and in the same case. -/
def ofSpelling? (s : String) : Option Keyword :=
  all.find? fun k => k.spelling = s

end Keyword

/-- The operators that compare two expressions. -/
inductive Relation where
  | equal | notEqual | less | lessEqual | greater | greaterEqual
  deriving DecidableEq, Repr

namespace Relation

def all : List Relation := [equal, notEqual, less, lessEqual, greater, greaterEqual]

def name : Relation → String
  | equal => "EQEQ"
  | notEqual => "NOTEQ"
  | less => "LT"
  | lessEqual => "LTEQ"
  | greater => "GT"
  | greaterEqual => "GTEQ"

end Relation

inductive Kind where
  | eof
  | newline
  | number
  | ident
  | string
  | keyword (k : Keyword)
  | assign
  | plus
  | minus
  | times
  | divide
  | relation (r : Relation)
  deriving DecidableEq, Repr

namespace Kind

def all : List Kind :=
  [eof, newline, number, ident, string] ++ Keyword.all.map keyword ++
    [assign, plus, minus, times, divide] ++ Relation.all.map relation

/-- The name that diagnostics use. -/
def name : Kind → String
  | eof => "EOF"
  | newline => "NEWLINE"
  | number => "NUMBER"
  | ident => "IDENT"
  | string => "STRING"
  | keyword k => k.spelling
  | assign => "EQ"
  | plus => "PLUS"
  | minus => "MINUS"
  | times => "ASTERISK"
  | divide => "SLASH"
  | relation r => r.name

def isKeyword : Kind → Bool
  | keyword _ => true
  | _ => false

def isRelation : Kind → Bool
  | relation _ => true
  | _ => false

end Kind

structure Token where
  kind : Kind
  text : String
  deriving DecidableEq, Repr

/-- The kind, then the text in a form that shows on one line. -/
def Token.render (t : Token) : String :=
  s!"{t.kind.name}({Text.escapeText t.text})"

/-- The kind of a token that has come with its place. -/
abbrev Located.kind (t : Located Token) : Kind := t.value.kind

abbrev Located.text (t : Located Token) : String := t.value.text

end MiniBasic
