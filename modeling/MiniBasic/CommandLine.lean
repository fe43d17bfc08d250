import MiniBasic.Command

/-!
# Command lines

The words that a tool is called with. An option starts with a hyphen and may stand anywhere after
the name of its command; after a lone `--` all words are operands, whatever they start with. A lone
hyphen is an operand. An option that starts with two hyphens or more is a long one. It is known by
the name between its hyphens and the first `=`; what comes after that is ignored, because no option
takes a value.
-/

namespace MiniBasic

/-- A tool with all commands, and one that only compiles and needs no name of a command. -/
inductive Tool where
  | full | compiler
  deriving DecidableEq, Repr

structure Arguments where
  options : List String
  operands : List String
  deriving DecidableEq, Repr

namespace Arguments

def ofWords : List String → Arguments
  | [] => ⟨[], []⟩
  | word :: words =>
    if word = "--" then ⟨[], words⟩
    else
      let rest := ofWords words
      if word.toList.head? = some '-' && word ≠ "-" then
        { rest with options := word :: rest.options }
      else { rest with operands := word :: rest.operands }

/-- The name of a long option. -/
def longName? (option : String) : Option String :=
  match option.toList with
  | '-' :: '-' :: cs => some (String.ofList ((cs.dropWhile (· = '-')).takeWhile (· ≠ '=')))
  | _ => none

end Arguments

namespace Command

def parseCompile? (words : List String) : Option Command :=
  match Arguments.ofWords words with
  | ⟨[], [source]⟩ => some (.compile source none)
  | ⟨[], [source, output]⟩ => some (.compile source (some output))
  | _ => none

def parseCheck? (words : List String) : Option Command :=
  match Arguments.ofWords words with
  | ⟨[], [source]⟩ => some (.check false source)
  | ⟨[option], [source]⟩ =>
    if option = "-t" ∨ Arguments.longName? option = some "trace" then some (.check true source)
    else none
  | _ => none

def parseLex? (words : List String) : Option Command :=
  match Arguments.ofWords words with
  | ⟨[], [source]⟩ => some (.lex source)
  | _ => none

def parseSuite? (words : List String) : Option Command :=
  match Arguments.ofWords words with
  | ⟨[], []⟩ => some (.suite none)
  | ⟨[], [directory]⟩ => some (.suite (some directory))
  | _ => none

/-- The command that a tool is asked for, or nothing if it cannot be called like that. -/
def ofWords? : Tool → List String → Option Command
  | .compiler, words => parseCompile? words
  | .full, "compile" :: words => parseCompile? words
  | .full, "check" :: words => parseCheck? words
  | .full, "lex" :: words => parseLex? words
  | .full, "suite" :: words => parseSuite? words
  | .full, _ => none

end Command

end MiniBasic
