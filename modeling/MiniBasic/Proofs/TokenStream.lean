import MiniBasic.Proofs.LocationOrder
import MiniBasic.Scanner

/-!
# What a scanner reads

From where it stands a scanner reads some tokens and then meets either a fault or the end of the
input, where it stays. `Scanner.Reads` says so one answer at a time, and `Scanner.reads_scan` that
`Scanner.scan` collects just these tokens. The tokens stand one after the other in the source, and
what stops the scanner stands after all of them (`Scanner.Reads.increasing`).
-/

namespace MiniBasic

/-- The end of the input as a token. -/
def endToken (l : Location) : Located Token := ⟨l, ⟨.eof, ""⟩⟩

/-- Where the input ends. -/
def endLocation (source : String) : Location := Location.start.advance (terminated source.toList)

/-- The tokens of a source up to its end or to the first fault in it. -/
def leadingTokens (source : String) : List (Located Token) := (Scanner.ofSource source).scan.tokens

/-- Only at the end of the input there is nothing more to read. -/
theorem lexeme_eq_finished_iff {cs : List Char} : lexeme cs = .finished ↔ cs = [] := by
  refine ⟨?_, fun h => h ▸ rfl⟩
  fun_cases lexeme cs with
  | case1 => exact fun _ => rfl
  | case15 rest => fun_cases stringLexeme rest <;> simp
  | case16 c rest => fun_cases numberLexeme (c :: rest) <;> simp
  | case17 => simp [wordLexeme]
  | _ => simp

namespace Scanner

/-- Where the input ends that is still ahead. -/
def stop (s : Scanner) : Location := s.location.advance s.rest

@[simp] theorem stop_skip (s : Scanner) (n : Nat) : (s.skip n).stop = s.stop := by
  simp only [stop, skip, ← Location.advance_append, List.take_append_drop]

theorem le_location_skip (s : Scanner) (n : Nat) : s.location ≤ (s.skip n).location :=
  Location.le_advance _ _

theorem lt_location_skip {s : Scanner} {n : Nat} (pos : 0 < n) (le : n ≤ s.rest.length) :
    s.location < (s.skip n).location := by
  apply Location.lt_advance
  rw [ne_eq, List.take_eq_nil_iff, not_or, ← List.length_eq_zero_iff]
  omega

theorem next_of_rest_eq_nil {s : Scanner} (h : s.rest = []) :
    s.next = (.ok (endToken s.stop), s) := by
  obtain ⟨buffer, rest, location, exhausted⟩ := s
  subst h
  rfl

private theorem read_error {s s' : Scanner} {e : Located ScanError}
    (h : s.read = (.error e, s')) : s.location ≤ e.location := by
  revert h
  fun_cases read s with
  | case1 | case2 =>
    intro read_eq
    cases read_eq
  | case3 =>
    intro read_eq
    cases read_eq
    exact le_location_skip s _

theorem read_eof {s s' : Scanner} {t : Located Token} (h : s.read = (.ok t, s'))
    (ht : t.kind = .eof) : t = endToken s.stop ∧ s' = s ∧ s.rest = [] := by
  revert h
  fun_cases read s with
  | case1 finished =>
    intro read_eq
    cases read_eq
    have empty := lexeme_eq_finished_iff.mp finished
    exact ⟨by simp [endToken, stop, empty], rfl, empty⟩
  | case2 token length token_eq =>
    intro read_eq
    cases read_eq
    exact absurd ht (lexeme_token_ne_eof token_eq)
  | case3 =>
    intro read_eq
    cases read_eq

private theorem read_token {s s' : Scanner} {t : Located Token} (h : s.read = (.ok t, s'))
    (ht : t.kind ≠ .eof) :
    t.location = s.location ∧ s.location < s'.location ∧ s'.stop = s.stop := by
  revert h
  fun_cases read s with
  | case1 =>
    intro read_eq
    cases read_eq
    contradiction
  | case2 token length token_eq =>
    intro read_eq
    cases read_eq
    obtain ⟨pos, le⟩ := lexeme_token_length token_eq
    exact ⟨rfl, lt_location_skip pos le, stop_skip s length⟩
  | case3 =>
    intro read_eq
    cases read_eq

theorem le_location_of_next_error {s s' : Scanner} {e : Located ScanError}
    (h : s.next = (.error e, s')) : s.location ≤ e.location :=
  (le_location_skip s _).trans (read_error h)

/-- At the end of the input a scanner says so, and says so again. -/
theorem next_eof {s s' : Scanner} {t : Located Token} (h : s.next = (.ok t, s'))
    (ht : t.kind = .eof) : t = endToken s.stop ∧ s'.next = (.ok t, s') := by
  obtain ⟨rfl, rfl, empty⟩ := read_eof h ht
  exact ⟨by rw [skipGap, stop_skip], next_of_rest_eq_nil empty⟩

theorem next_token {s s' : Scanner} {t : Located Token} (h : s.next = (.ok t, s'))
    (ht : t.kind ≠ .eof) :
    s.location ≤ t.location ∧ t.location < s'.location ∧ s'.stop = s.stop := by
  obtain ⟨here, lt, stop_eq⟩ := read_token h ht
  rw [here]
  exact ⟨le_location_skip s _, lt, stop_eq.trans (stop_skip s _)⟩

/-! ## All answers of a scanner -/

/-- What a scanner answers from `s` on: the tokens in turn, then a fault, or the end of the input
over and over. -/
inductive Reads : Scanner → List (Located Token) → Except (Located ScanError) Location → Prop
  | fault {s s' : Scanner} {e : Located ScanError} (read : s.next = (.error e, s')) :
    Reads s [] (.error e)
  | finished {s s' : Scanner} {l : Location} (read : s.next = (.ok (endToken l), s'))
    (again : s'.next = (.ok (endToken l), s')) : Reads s [] (.ok l)
  | token {s s' : Scanner} {t : Located Token} {ts : List (Located Token)}
    {r : Except (Located ScanError) Location} (read : s.next = (.ok t, s')) (ne_eof : t.kind ≠ .eof)
    (rest : Reads s' ts r) : Reads s (t :: ts) r

/-- How a scan ends: with a fault, or at the end of the input. -/
def ending (s : Scanner) : Except (Located ScanError) Location :=
  match s.scan.fault with
  | some e => .error e
  | none => .ok s.stop

theorem reads_scan (s : Scanner) : s.Reads s.scan.tokens s.ending := by
  unfold ending
  fun_induction scan s with
  | case1 s e s' read => exact .fault read
  | case2 s t s' read eof =>
    obtain ⟨rfl, again⟩ := next_eof read eof
    exact .finished read again
  | case3 s t s' read ne_eof lt more ih =>
    rw [← (next_token read ne_eof).2.2]
    exact .token read ne_eof ih

/-- Where the answer stands that ends a scan. -/
def endingLocation : Except (Located ScanError) Location → Location
  | .error e => e.location
  | .ok l => l

namespace Reads
variable {s : Scanner} {ts : List (Located Token)} {r : Except (Located ScanError) Location}

theorem ne_eof (h : s.Reads ts r) : ∀ t ∈ ts, t.kind ≠ .eof := by
  induction h with
  | fault | finished => simp
  | token _ ne_eof _ ih => exact List.forall_mem_cons.mpr ⟨ne_eof, ih⟩

theorem le_location (h : s.Reads ts r) :
    ∀ l ∈ ts.map (·.location) ++ [endingLocation r], s.location ≤ l := by
  induction h with
  | fault read => simpa [endingLocation] using le_location_of_next_error read
  | finished read _ =>
    obtain rfl := congrArg Located.location (next_eof read rfl).1
    simpa [endingLocation, endToken, stop] using Location.le_advance _ _
  | token read ne_eof _ ih =>
    obtain ⟨le, lt, _⟩ := next_token read ne_eof
    rw [List.map_cons, List.cons_append, List.forall_mem_cons]
    exact ⟨le, fun l hl => le.trans (lt.le.trans (ih l hl))⟩

/-- The tokens and what ends them come one after the other in the source. -/
theorem increasing (h : s.Reads ts r) :
    (ts.map (·.location) ++ [endingLocation r]).Pairwise (· < ·) := by
  induction h with
  | fault | finished => simp
  | token read ne_eof rest ih =>
    have lt := (next_token read ne_eof).2.1
    rw [List.map_cons, List.cons_append, List.pairwise_cons]
    exact ⟨fun l hl => lt.trans_le (rest.le_location l hl), ih⟩

end Reads

end Scanner

theorem reads_of_tokensOf_ok {source : String} {ts : List (Located Token)}
    (h : tokensOf source = .ok ts) :
    (Scanner.ofSource source).Reads ts (.ok (endLocation source)) := by
  have reads := (Scanner.ofSource source).reads_scan
  simp only [tokensOf] at h
  split at h
  · contradiction
  · next no_fault => rwa [Scanner.ending, no_fault, Except.ok.inj h] at reads

theorem reads_of_tokensOf_error {source : String} {e : Located ScanError}
    (h : tokensOf source = .error e) :
    (Scanner.ofSource source).Reads (leadingTokens source) (.error e) := by
  have reads := (Scanner.ofSource source).reads_scan
  simp only [tokensOf] at h
  split at h
  · next fault => rwa [Scanner.ending, fault, Except.error.inj h] at reads
  · contradiction

theorem ending_of_tokensOf_error {source : String} {e : Located ScanError}
    (h : tokensOf source = .error e) : (Scanner.ofSource source).ending = .error e := by
  simp only [tokensOf] at h
  split at h
  next fault => rw [Scanner.ending, fault, Except.error.inj h]
  next => cases h

theorem leadingTokens_of_tokensOf_ok {source : String} {ts : List (Located Token)}
    (h : tokensOf source = .ok ts) : leadingTokens source = ts := by
  simp only [tokensOf] at h
  split at h
  next => cases h
  next => exact Except.ok.inj h

end MiniBasic
