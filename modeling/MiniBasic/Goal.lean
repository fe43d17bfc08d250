import MiniBasic.Event
import MiniBasic.Names

/-!
# Goals

The grammar of programs, together with the C that the parts of a program compile to.

```text
program    ::= newline* statement*
statement  ::= "PRINT" (string | expression) nl
             | "IF" comparison "THEN" nl statement+ "ENDIF" nl
             | "WHILE" comparison "REPEAT" nl statement+ "ENDWHILE" nl
             | "LABEL" ident nl
             | "GOTO" ident nl
             | "LET" ident "=" expression nl
             | "INPUT" ident nl
comparison ::= expression (relation expression)+
expression ::= term (("+" | "-") term)*
term       ::= unary (("*" | "/") unary)*
unary      ::= ("+" | "-")? primary
primary    ::= number | ident
nl         ::= newline+
```

A goal is a part of a program that has yet to be read, or something to do once all before it has
been read. A list of goals stands for the programs that can still follow, in the manner of the
stack of a predictive parser: a goal is met by the next tokens, and meeting it replaces it by the
goals of what it consists of. Repetitions are goals of their own: an expression is a `term` and then
`sums`, which is any number of `("+" | "-") term`.
-/

namespace MiniBasic

/-- What a name is read for. -/
inductive NameUse where
  /-- A label is placed. -/
  | label
  /-- A label is jumped to. -/
  | target
  /-- A variable is assigned to. -/
  | assigned
  /-- A variable is read from the input. -/
  | input
  deriving DecidableEq, Repr

inductive Goal where
  /-- Something to announce. It needs no token. -/
  | event (e : Event)
  /-- A variable to introduce, unless it has been. -/
  | introduce (name : Located String)
  | placeLabel (name : Located String)
  | jumpTo (name : Located String)
  /-- All labels that are jumped to exist. -/
  | checkJumps
  | keyword (k : Keyword)
  | assign
  | name (use : NameUse)
  /-- The end of a line, with the blank lines after it. -/
  | lineEnd
  /-- Any number of newlines. -/
  | newlines
  /-- Statements up to the end of the input. -/
  | statements
  /-- At least one statement, then the keyword that closes the block. -/
  | block (closing : Keyword)
  /-- Any number of statements, then the keyword that closes the block. -/
  | blockRest (closing : Keyword)
  /-- What a `PRINT` prints. -/
  | printed
  | comparison
  /-- At least one relation, each with the expression on its right. -/
  | relation
  /-- Any number of relations, each with the expression on its right. -/
  | relations
  | expression
  /-- Any number of terms, each after a `+` or a `-`. -/
  | sums
  | term
  /-- Any number of unary expressions, each after a `*` or a `/`. -/
  | factors
  | unary
  | primary
  deriving DecidableEq, Repr

namespace Goal

def fragment (text : String) : Goal := event (.fragment text)

def line (text : String) : Goal := event (.line text)

/-- A whole program, at the end of which `main` returns. -/
def program : List Goal :=
  [event (.enter .program), event (.header "#include <stdio.h>"), line "int main(void)\x7b",
    newlines, statements, checkJumps, line "return 0;", line "\x7d"]

/-- What follows the keyword that a statement starts with. -/
def ofKeyword? : Keyword → Option (List Goal)
  | .print => some [printed, lineEnd]
  | .if_ => some [fragment "if(", comparison, keyword .then_, lineEnd, line ")\x7b",
      block .endIf, line "\x7d", lineEnd]
  | .while_ => some [fragment "while(", comparison, keyword .repeat_, lineEnd, line ")\x7b",
      block .endWhile, line "\x7d", lineEnd]
  | .label => some [name .label, lineEnd]
  | .goto => some [name .target, lineEnd]
  | .let_ => some [name .assigned, lineEnd]
  | .input => some [name .input, lineEnd]
  | .then_ | .endIf | .repeat_ | .endWhile => none

/-- What follows a name. A variable exists from its name on, so it may appear in the very expression
that it is assigned. When nothing can be read into a variable, it becomes zero and the offending
word of the input is dropped. -/
def ofName (use : NameUse) (x : Located String) : List Goal :=
  match use with
  | .label => [placeLabel x]
  | .target => [jumpTo x]
  | .assigned => [introduce x, assign, fragment (x.value ++ " = "), expression, line ";"]
  | .input => [introduce x, line ("if(0 == scanf(\"%f\", &" ++ x.value ++ ")) \x7b"),
      line (x.value ++ " = 0;"), line "scanf(\"%*s\");", line "\x7d"]

end Goal

end MiniBasic
