import MiniBasic.Lexeme

/-!
# Scanner

A scanner stands somewhere in the buffer, the source with a newline at its end, and hands out one
token after the other. After a fault it stays where reading stopped, so it can be asked again: at a
character that starts no token it repeats itself, and from within a string or after the point of a
number it goes on.

There are two ways to ask. `Scanner.next` always answers, at the end of the input with the token
`eof` again and again. `Scanner.next?` answers until it has met the end or a fault itself.
`Scanner.scan` collects the tokens up to the end or the first fault.
-/

namespace MiniBasic

/-- The characters with a newline at their end. -/
def terminated (cs : List Char) : List Char :=
  if cs.getLast? = some '\n' then cs else cs ++ ['\n']

structure Scanner where
  /-- All that there is to scan. -/
  buffer : List Char
  /-- What is still ahead. -/
  rest : List Char
  /-- Where `rest` starts. -/
  location : Location
  /-- Whether `Scanner.next?` has met the end or a fault. -/
  exhausted : Bool
  deriving DecidableEq, Repr

abbrev Reading := Except (Located ScanError) (Located Token)

namespace Scanner

def ofSource (source : String) : Scanner :=
  let buffer := terminated source.toList
  ⟨buffer, buffer, .start, false⟩

/-- The buffer as a text. -/
def source (s : Scanner) : String := String.ofList s.buffer

/-- Moves over `n` characters. -/
def skip (s : Scanner) (n : Nat) : Scanner :=
  { s with rest := s.rest.drop n, location := s.location.advance (s.rest.take n) }

@[simp] theorem skip_rest (s : Scanner) (n : Nat) : (s.skip n).rest = s.rest.drop n := rfl

/-- Moves over blanks and a comment. -/
def skipGap (s : Scanner) : Scanner := s.skip (gapLength s.rest)

/-- Reads the lexeme that starts right here. -/
def read (s : Scanner) : Reading × Scanner :=
  match lexeme s.rest with
  | .finished => (.ok ⟨s.location, ⟨.eof, ""⟩⟩, s)
  | .token t length => (.ok ⟨s.location, t⟩, s.skip length)
  | .fault e offset length => (.error ⟨(s.skip offset).location, e⟩, s.skip length)

def next (s : Scanner) : Reading × Scanner := s.skipGap.read

private theorem length_read_lt {s s' : Scanner} {t : Located Token} (h : s.read = (.ok t, s'))
    (ht : t.kind ≠ .eof) : s'.rest.length < s.rest.length := by
  revert h
  fun_cases read s with
  | case1 =>
    rintro ⟨⟩
    contradiction
  | case2 token length lexeme_eq =>
    rintro ⟨⟩
    have := lexeme_token_length lexeme_eq
    simp only [skip_rest, List.length_drop]
    omega
  | case3 => nofun

/-- Reading a token other than the end of the input moves the scanner forward. -/
theorem length_next_lt {s s' : Scanner} {t : Located Token} (h : s.next = (.ok t, s'))
    (ht : t.kind ≠ .eof) : s'.rest.length < s.rest.length := by
  have := length_read_lt h ht
  simp only [skipGap, skip_rest, List.length_drop] at this
  omega

theorem length_next_le (s : Scanner) : s.next.2.rest.length ≤ s.rest.length := by
  have : s.skipGap.read.2.rest.length ≤ s.skipGap.rest.length := by
    fun_cases read s.skipGap <;> simp
  simp only [skipGap, skip_rest, List.length_drop] at this
  simp only [next, skipGap]
  omega

def next? (s : Scanner) : Option Reading × Scanner :=
  if s.exhausted then (none, s)
  else
    match s.next with
    | (.ok t, s') =>
      if t.kind = .eof then (none, { s' with exhausted := true }) else (some (.ok t), s')
    | (.error e, s') => (some (.error e), { s' with exhausted := true })

end Scanner

/-- All that a scanner reads from where it stands. -/
structure Scan where
  /-- The tokens before the end of the input or the first fault. -/
  tokens : List (Located Token)
  /-- The fault, unless the end was reached. -/
  fault : Option (Located ScanError)
  /-- The scanner afterwards. -/
  scanner : Scanner

namespace Scanner

def scan (s : Scanner) : Scan :=
  match h : s.next with
  | (.error e, s') => ⟨[], some e, s'⟩
  | (.ok t, s') =>
    if ht : t.kind = .eof then ⟨[], none, s'⟩
    else
      have := length_next_lt h ht
      let more := s'.scan
      { more with tokens := t :: more.tokens }
termination_by s.rest.length

/-- All that `Scanner.next?` still answers. -/
def drain (s : Scanner) : List Reading × Scanner :=
  if s.exhausted then ([], s)
  else
    let scan := s.scan
    (scan.tokens.map .ok ++ scan.fault.toList.map .error, { scan.scanner with exhausted := true })

end Scanner

/-- The tokens of a source, without the end of the input, or the first fault in it. -/
def tokensOf (source : String) : Except (Located ScanError) (List (Located Token)) :=
  let scan := (Scanner.ofSource source).scan
  match scan.fault with
  | some e => .error e
  | none => .ok scan.tokens

end MiniBasic
