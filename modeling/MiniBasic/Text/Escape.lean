import MiniBasic.Text.Printable
import MiniBasic.Text.Extender

/-!
# Escaped text

Diagnostics quote pieces of the source. Escaping keeps such a quotation on one line and free of
characters that do not show: a control character, or any other that is not printable, appears as
its code point in braces or in a shorter form. A grapheme extender would merge with whatever is
printed before the quotation, so at the front of a text it is escaped as well.
-/

namespace MiniBasic.Text

/-- Which characters an escaped text may not show as they are, besides the unprintable ones. -/
structure EscapeStyle where
  quotes : List Char
  extenders : Bool

/-- The letter that stands for a character after a backslash. -/
def shortEscape? : Char → Option Char
  | '\x00' => some '0'
  | '\t' => some 't'
  | '\r' => some 'r'
  | '\n' => some 'n'
  | '\\' => some '\\'
  | _ => none

/-- The code point in lower-case hexadecimal digits, without leading zeros. -/
def codePointEscape (c : Char) : List Char :=
  ['\\', 'u', '\x7b'] ++ Nat.toDigits 16 c.toNat ++ ['\x7d']

def EscapeStyle.escape (style : EscapeStyle) (c : Char) : List Char :=
  match shortEscape? c with
  | some letter => ['\\', letter]
  | none =>
    if style.quotes.contains c then ['\\', c]
    else if style.extenders && isExtender c then codePointEscape c
    else if isPrintable c then [c]
    else codePointEscape c

/-- Both kinds of quotes are escaped, so that the text may stand between either of them. -/
def bare : EscapeStyle := ⟨['\'', '"'], true⟩

/-- The character by itself. -/
def escapeChar (c : Char) : String :=
  String.ofList (bare.escape c)

/-- The character between apostrophes. A double quote needs no escape there. -/
def quoteChar (c : Char) : String :=
  String.ofList (['\''] ++ EscapeStyle.escape ⟨['\''], true⟩ c ++ ['\''])

/-- The text, in which only the first character has nothing before it to merge with. -/
def escapeText (s : String) : String :=
  match s.toList with
  | [] => ""
  | c :: cs => String.ofList (bare.escape c ++ cs.flatMap (EscapeStyle.escape ⟨bare.quotes, false⟩))

end MiniBasic.Text
