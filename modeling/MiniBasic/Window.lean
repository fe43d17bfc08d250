import MiniBasic.Scanner

/-!
# Windows

A program is read through a window of two tokens: the current one and the one ahead of it. A fault
of the source is therefore met one token before the token that it hides would become the current
one. Every move of the window takes a token from the source as long as there is one, which
`size_advance` states.
-/

namespace MiniBasic

structure Window where
  current : Located Token
  ahead : Located Token
  scanner : Scanner
  deriving DecidableEq, Repr

namespace Window

def ofSource (source : String) : Except (Located ScanError) Window :=
  match (Scanner.ofSource source).next with
  | (.error e, _) => .error e
  | (.ok current, scanner) =>
    match scanner.next with
    | (.error e, _) => .error e
    | (.ok ahead, scanner) => .ok ⟨current, ahead, scanner⟩

/-- Moves the window over its current token. -/
def advance (w : Window) : Except (Located ScanError) Window :=
  match w.scanner.next with
  | (.error e, _) => .error e
  | (.ok t, scanner) => .ok ⟨w.ahead, t, scanner⟩

/-- The end of the input does not count. -/
def weight (t : Located Token) : Nat := if t.kind = .eof then 0 else 1

/-- A bound on the tokens that are left. -/
def size (w : Window) : Nat := weight w.current + weight w.ahead + w.scanner.rest.length

theorem size_advance {w w' : Window} (h : w.advance = .ok w') (ne : w.current.kind ≠ .eof) :
    w'.size < w.size := by
  revert h
  fun_cases advance w with
  | case1 => nofun
  | case2 t scanner read =>
    rintro ⟨⟩
    have le : scanner.rest.length ≤ w.scanner.rest.length := by
      simpa only [read] using Scanner.length_next_le w.scanner
    have lt := Scanner.length_next_lt read
    simp only [size, weight, if_neg ne]
    by_cases last : t.kind = .eof
    · simp only [if_pos last]
      omega
    · have := lt last
      simp only [if_neg last]
      omega

end Window

end MiniBasic
