import MiniBasic.Lexeme
import MiniBasic.Names

/-!
# Diagnostics

A program is refused for one cause: a fault of scanning, a token that the grammar does not allow,
or a name. Its message is a single line that starts with the place of the cause.
-/

namespace MiniBasic

inductive GrammarError where
  | unexpectedToken (expected found : Kind)
  | expectedComparison (text : String)
  | invalidStatement (text : String) (kind : Kind)
  | unexpectedPrimary (text : String)
  /-- A block that is closed before its first statement. -/
  | emptyBody (closing : Kind)
  deriving DecidableEq, Repr

def GrammarError.message : GrammarError → String
  | unexpectedToken expected found => s!"Expected {expected.name}, got {found.name}"
  | expectedComparison text => s!"Expected comparison operator, got: {Text.escapeText text}"
  | invalidStatement text kind => s!"Invalid statement at {Text.escapeText text} ({kind.name})"
  | unexpectedPrimary text => s!"Unexpected token at {Text.escapeText text}"
  | emptyBody closing => s!"Expected at least one statement before {closing.name}"

inductive Diagnostic where
  | scan (e : Located ScanError)
  | grammar (e : Located GrammarError)
  | names (e : Located NameError)
  deriving DecidableEq, Repr

namespace Diagnostic

def isLexical : Diagnostic → Bool
  | scan _ => true
  | _ => false

def location : Diagnostic → Location
  | scan e => e.location
  | grammar e => e.location
  | names e => e.location

def message : Diagnostic → String
  | scan e => s!"Compile Error (in Tokenizer): {e.render ScanError.message}"
  | grammar e => s!"Compile Error (in Parser): {e.render GrammarError.message}"
  | names e => s!"Compile Error (in Resolver): {e.render NameError.message}"

end Diagnostic

end MiniBasic
