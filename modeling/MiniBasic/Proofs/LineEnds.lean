import MiniBasic.Proofs.Relocation
import MiniBasic.Proofs.ScannerCalls

/-!
# Line ends

Scanning never looks beyond the next newline, so what follows a line has no part in how the line is
read (`lexeme_append`, `gapLength_append`). Behind a text that ends with a newline another text is
read as if it stood alone, some lines further down (`tokensOf_append`).
-/

namespace MiniBasic

/-! ## Up to the next newline -/

section
variable {p : Char → Bool} {cs : List Char}

theorem takeWhile_append_of_mem {c : Char} (mem : c ∈ cs) (stop : p c = false) (ds : List Char) :
    (cs ++ ds).takeWhile p = cs.takeWhile p := by
  induction cs with
  | nil => cases mem
  | cons d cs ih =>
    rw [List.cons_append, List.takeWhile_cons, List.takeWhile_cons]
    rcases List.mem_cons.mp mem with rfl | mem
    · simp [stop]
    · rw [ih mem]

theorem dropWhile_append_of_mem {c : Char} (mem : c ∈ cs) (stop : p c = false) (ds : List Char) :
    (cs ++ ds).dropWhile p = cs.dropWhile p ++ ds ∧ c ∈ cs.dropWhile p := by
  induction cs with
  | nil => cases mem
  | cons d cs ih =>
    rw [List.cons_append, List.dropWhile_cons, List.dropWhile_cons]
    by_cases pd : p d
    · have mem : c ∈ cs :=
        (List.mem_cons.mp mem).resolve_left fun same => by simp [← same, stop] at pd
      simpa [pd] using ih mem
    · simpa [pd] using mem

theorem stringLexeme_append (newline : '\n' ∈ cs) (ds : List Char) :
    stringLexeme (cs ++ ds) = stringLexeme cs := by
  have take_eq := takeWhile_append_of_mem newline (p := isStringChar) rfl ds
  obtain ⟨drop_eq, mem⟩ := dropWhile_append_of_mem newline (p := isStringChar) rfl ds
  obtain ⟨c, rest, tail⟩ := List.exists_cons_of_ne_nil (List.ne_nil_of_mem mem)
  simp only [stringLexeme, take_eq, drop_eq, tail, List.cons_append]
  split <;> simp_all

theorem numberLexeme_append (newline : '\n' ∈ cs) (ds : List Char) :
    numberLexeme (cs ++ ds) = numberLexeme cs := by
  have take_eq := takeWhile_append_of_mem newline (p := Char.isDigit) rfl ds
  obtain ⟨drop_eq, mem⟩ := dropWhile_append_of_mem newline (p := Char.isDigit) rfl ds
  obtain ⟨c, rest, tail⟩ := List.exists_cons_of_ne_nil (List.ne_nil_of_mem mem)
  simp only [numberLexeme, take_eq, drop_eq, tail, List.cons_append]
  rw [tail] at mem
  by_cases point : c = '.'
  · subst point
    have newline' : '\n' ∈ rest := by simpa using mem
    simp only [takeWhile_append_of_mem newline' (p := Char.isDigit) rfl]
  · simp [point]

theorem lexeme_append (newline : '\n' ∈ cs) (ds : List Char) : lexeme (cs ++ ds) = lexeme cs := by
  fun_cases lexeme cs with
  | case1 => cases newline
  | case2 => rfl
  | case15 rest => exact stringLexeme_append (by simpa using newline) ds
  | case16 c rest _ _ _ _ _ _ _ _ _ _ _ _ _ _ digit =>
    rw [lexeme_of_isDigit (by simpa using digit)]
    exact numberLexeme_append newline ds
  | case17 c rest _ _ _ _ _ _ _ _ _ _ _ _ _ _ _ letter =>
    rw [lexeme_of_isAlpha (by simpa using letter)]
    unfold wordLexeme
    rw [takeWhile_append_of_mem newline rfl]
  | case18 c rest => simp_all [lexeme]
  | case8 rest alone | case10 rest alone | case12 rest alone | case14 rest alone =>
    obtain ⟨c, rest, rfl⟩ : ∃ c more, rest = c :: more :=
      List.exists_cons_of_ne_nil (List.ne_nil_of_mem (by simpa using newline))
    simp_all [lexeme]
  | _ => rfl

theorem gapLength_append_of_mem (newline : '\n' ∈ cs) (ds : List Char) :
    gapLength (cs ++ ds) = gapLength cs := by
  have take_eq := takeWhile_append_of_mem newline (p := isGap) rfl ds
  obtain ⟨drop_eq, mem⟩ := dropWhile_append_of_mem newline (p := isGap) rfl ds
  obtain ⟨c, rest, tail⟩ := List.exists_cons_of_ne_nil (List.ne_nil_of_mem mem)
  simp only [gapLength, take_eq, drop_eq, tail, List.cons_append]
  rw [tail] at mem
  by_cases comment : c = '#'
  · subst comment
    have newline' : '\n' ∈ rest := by simpa using mem
    have text_eq := takeWhile_append_of_mem newline' (p := (· ≠ '\n')) (by simp) ds
    simp only [text_eq]
  · simp [comment]

theorem gapLength_lt (newline : '\n' ∈ cs) :
    gapLength cs < cs.length ∧ '\n' ∈ cs.drop (gapLength cs) := by
  have not_mem := (gap_take_gapLength cs).not_mem_newline
  have mem : '\n' ∈ cs.drop (gapLength cs) := by
    rw [← List.take_append_drop (gapLength cs) cs, List.mem_append] at newline
    exact newline.resolve_left not_mem
  have pos := List.length_pos_of_mem mem
  rw [List.length_drop] at pos
  exact ⟨by omega, mem⟩

/-- A fault lies within what is ahead. -/
theorem ScanError.Explains.le_length {e : ScanError} {offset : Nat} (h : e.Explains cs offset) :
    offset ≤ cs.length := by
  cases e with
  | illegalStringChar c =>
    obtain ⟨body, rest, rfl, rfl, -⟩ := h
    simp
  | _ => simp [h.1]

theorem Closed.mem_newline (closed : Closed cs) (ne_nil : cs ≠ []) : '\n' ∈ cs :=
  List.mem_of_getLast? (closed ne_nil)

theorem Closed.drop (closed : Closed cs) (n : Nat) : Closed (cs.drop n) := by
  rw [← List.take_append_drop n cs] at closed
  exact closed.of_append

end

/-! ## In lock-step -/

namespace Location

/-- The location `n` lines further down. -/
def below (n : Nat) (l : Location) : Location := ⟨l.line + n, l.col⟩

theorem advance_below (n : Nat) (l : Location) (cs : List Char) :
    (l.below n).advance cs = (l.advance cs).below n := by
  induction cs generalizing l with
  | nil => rfl
  | cons c cs ih =>
    have next_eq : (l.below n).next c = (l.next c).below n := by
      unfold next
      split
      next => simp [below, Nat.add_right_comm]
      next => rfl
    rw [advance_cons, advance_cons, next_eq, ih]

end Location

theorem map_relocate_below_zero (ts : List (Located Token)) :
    ts.map (·.relocate (.below 0)) = ts :=
  List.map_id'' (fun _ => rfl) ts

namespace Scanner

/-- The scanner `s'` has ahead what `s` has, and `ds` behind that. It stands `n` lines below. -/
structure Continued (n : Nat) (ds : List Char) (s s' : Scanner) : Prop where
  rest_eq : s'.rest = s.rest ++ ds
  location_eq : s'.location = s.location.below n

section
variable {n : Nat} {ds : List Char} {s s' s₁ : Scanner}

theorem Continued.skip (h : Continued n ds s s') {m : Nat} (le : m ≤ s.rest.length) :
    Continued n ds (s.skip m) (s'.skip m) where
  rest_eq := by
    rw [skip_rest, skip_rest, h.rest_eq, List.drop_append_of_le_length le]
  location_eq := by
    change s'.location.advance (s'.rest.take m) = (s.location.advance (s.rest.take m)).below n
    rw [h.rest_eq, h.location_eq, List.take_append_of_le_length le, Location.advance_below]

theorem Continued.skipGap (h : Continued n ds s s') (newline : '\n' ∈ s.rest) :
    Continued n ds s.skipGap s'.skipGap := by
  have same : gapLength s'.rest = gapLength s.rest := by
    rw [h.rest_eq, gapLength_append_of_mem newline]
  rw [Scanner.skipGap, Scanner.skipGap, same]
  exact h.skip (gapLength_lt newline).1.le

theorem Continued.lexeme_eq (h : Continued n ds s s') (newline : '\n' ∈ s.rest) :
    lexeme s'.rest = lexeme s.rest := by
  rw [h.rest_eq, lexeme_append newline]

/-- One token in lock-step. -/
theorem Continued.next_ok (h : Continued n ds s s') (closed : Closed s.rest) {t : Located Token}
    (read : s.next = (.ok t, s₁)) (ne_eof : t.kind ≠ .eof) :
    ∃ s₁', s'.next = (.ok (t.relocate (.below n)), s₁') ∧ Continued n ds s₁ s₁' ∧
      Closed s₁.rest := by
  have ne_nil : s.rest ≠ [] := fun nil => by
    cases read.symm.trans (next_of_rest_eq_nil nil)
    exact ne_eof rfl
  have newline := closed.mem_newline ne_nil
  have gap := h.skipGap newline
  have lexeme_eq := gap.lexeme_eq (gapLength_lt newline).2
  unfold next at read
  revert read
  fun_cases Scanner.read s.skipGap with
  | case1 =>
    intro eq
    cases eq
    exact absurd rfl ne_eof
  | case2 token length token_eq =>
    intro eq
    cases eq
    refine ⟨s'.skipGap.skip length, ?_, gap.skip (lexeme_token_length token_eq).2,
      (closed.drop _).drop length⟩
    rw [next, Scanner.read, lexeme_eq, token_eq, gap.location_eq]
    rfl
  | case3 =>
    intro eq
    cases eq

theorem Continued.next_error (h : Continued n ds s s') (closed : Closed s.rest)
    {e : Located ScanError} (read : s.next = (.error e, s₁)) :
    ∃ s₁', s'.next = (.error (e.relocate (.below n)), s₁') := by
  have ne_nil : s.rest ≠ [] := fun nil => by cases read.symm.trans (next_of_rest_eq_nil nil)
  have newline := closed.mem_newline ne_nil
  have gap := h.skipGap newline
  have lexeme_eq := gap.lexeme_eq (gapLength_lt newline).2
  unfold next at read
  revert read
  fun_cases Scanner.read s.skipGap with
  | case1 | case2 =>
    intro eq
    cases eq
  | case3 fault offset length fault_eq =>
    intro eq
    cases eq
    have last := closed.drop (gapLength s.rest) (List.ne_nil_of_mem (gapLength_lt newline).2)
    have place := (gap.skip (explains_lexeme last fault_eq).le_length).location_eq
    refine ⟨s'.skipGap.skip length, ?_⟩
    rw [next, Scanner.read, lexeme_eq, fault_eq]
    simp only [place]
    rfl

end

/-- The scanner reads these tokens `n` lines further down. Then it meets the same fault, or else it
goes on as any scanner does that has `ds` ahead. -/
def ReadsOn (n : Nat) (ds : List Char) (s : Scanner) (ts : List (Located Token)) :
    Except (Located ScanError) Location → Prop
  | .error e => s.Reads (ts.map (·.relocate (.below n))) (.error (e.relocate (.below n)))
  | .ok l => ∀ us r, (∀ s' : Scanner, s'.rest = ds → s'.location = l.below n → s'.Reads us r) →
    s.Reads (ts.map (·.relocate (.below n)) ++ us) r

theorem Reads.continued {n : Nat} {ds : List Char} {s s' : Scanner} {ts : List (Located Token)}
    {r : Except (Located ScanError) Location} (h : s.Reads ts r) (closed : Closed s.rest)
    (continued : Continued n ds s s') : s'.ReadsOn n ds ts r := by
  induction h generalizing s' with
  | fault read =>
    obtain ⟨s₁', read'⟩ := continued.next_error closed read
    exact .fault read'
  | @finished s s₁ l read =>
    intro us r behind
    have remainder := remainder_of_eof read
    obtain ⟨rest_eq, location_eq⟩ := continued
    generalize s.rest = rest at remainder closed rest_eq
    cases remainder with
    | finished blank =>
      obtain rfl := closed.eq_nil blank.not_mem_newline
      exact behind s' rest_eq location_eq
  | @token s s₁ t ts r read ne_eof _ ih =>
    obtain ⟨s₁', read', continued', closed'⟩ := continued.next_ok closed read ne_eof
    have more := ih closed' continued'
    cases r with
    | error e => exact .token read' ne_eof more
    | ok l => exact fun us r behind => .token read' ne_eof (more us r behind)

/-- The answers of a scanner that stands further down. -/
theorem Reads.further_down {n : Nat} {s s' : Scanner} {ts : List (Located Token)}
    {r : Except (Located ScanError) Location} (h : s.Reads ts r) (closed : Closed s.rest)
    (continued : Continued n [] s s') : s'.Reads (ts.map (·.relocate (.below n)))
      ((r.map (Location.below n)).mapError (·.relocate (.below n))) := by
  cases r with
  | error e => exact h.continued closed continued
  | ok l =>
    have reads := h.continued closed continued [] (.ok (l.below n)) fun s₁ nil here => by
      have read := next_of_rest_eq_nil nil
      rw [stop, nil, here] at read
      exact .finished read read
    rwa [List.append_nil] at reads

end Scanner

/-! ## Whole sources -/

theorem terminated_append {cs ds : List Char} (ne_nil : ds ≠ []) :
    terminated (cs ++ ds) = cs ++ terminated ds := by
  have last : (cs ++ ds).getLast? = ds.getLast? := by
    rw [List.getLast?_append, List.getLast?_eq_some_getLast ne_nil, Option.some_or]
  simp only [terminated, last]
  split
  next => rfl
  next => exact List.append_assoc ..

/-- A text that ends with a newline ends in front of the first column, one line further down for
each newline. -/
theorem Location.advance_start_of_closed {cs : List Char} (closed : cs.getLast? = some '\n') :
    start.advance cs = start.below (cs.count '\n') := by
  obtain ⟨front, rfl⟩ := List.getLast?_eq_some_iff.mp closed
  rw [advance_start, behind, below, start]
  simp [Nat.add_comm]

section
variable {source₁ source₂ : String} (closed : source₁.toList.getLast? = some '\n')
  (ne : source₂ ≠ "")
include closed ne

theorem Scanner.continued_append : Continued 0 (terminated source₂.toList)
    (ofSource source₁) (ofSource (source₁ ++ source₂)) where
  rest_eq := by
    have buffer_eq : (ofSource source₁).rest = source₁.toList := if_pos closed
    change terminated (source₁ ++ source₂).toList = _
    rw [String.toList_append, terminated_append (by simpa using ne), buffer_eq]
  location_eq := rfl

namespace Scanner.Reads

variable {ts us : List (Located Token)}

theorem append_of_error {e : Located ScanError} (h : (ofSource source₁).Reads ts (.error e)) :
    (ofSource (source₁ ++ source₂)).Reads ts (.error e) := by
  have together : ReadsOn 0 _ _ ts (.error e) :=
    h.continued (closed_terminated _) (continued_append closed ne)
  rwa [ReadsOn, map_relocate_below_zero] at together

theorem append_of_ok {l : Location} {r : Except (Located ScanError) Location}
    (h : (ofSource source₁).Reads ts (.ok l)) (h' : (ofSource source₂).Reads us r) :
    let n := source₁.toList.count '\n'
    (ofSource (source₁ ++ source₂)).Reads (ts ++ us.map (·.relocate (.below n)))
      ((r.map (Location.below n)).mapError (·.relocate (.below n))) := by
  intro n
  have here : l = Location.start.below n := by
    rw [h.eq_stop, ← Location.advance_start_of_closed closed, ← (if_pos closed : terminated _ = _)]
    rfl
  have together := h.continued (closed_terminated _) (continued_append closed ne) _ _
    fun s rest_eq place => h'.further_down (n := n) (closed_terminated _)
      ⟨rest_eq.trans (List.append_nil _).symm, place.trans here⟩
  rwa [map_relocate_below_zero] at together

end Scanner.Reads

end

/-- Behind a source that ends with a newline, the tokens of another source follow, one line further
down for each newline of the first. The first fault is that of the first source, where it is, or
else that of the second one, as many lines further down. -/
theorem tokensOf_append {source₁ source₂ : String}
    (closed : source₁.toList.getLast? = some '\n') (ne : source₂ ≠ "") :
    tokensOf (source₁ ++ source₂) =
      match tokensOf source₁, tokensOf source₂ with
      | .error e, _ => .error e
      | .ok _, .error e => .error (e.relocate (.below (source₁.toList.count '\n')))
      | .ok ts, .ok us => .ok (ts ++ us.map (·.relocate (.below (source₁.toList.count '\n')))) := by
  have reads₁ := (Scanner.ofSource source₁).reads_scan
  have reads₂ := (Scanner.ofSource source₂).reads_scan
  rw [tokensOf_eq_of_reads reads₁, tokensOf_eq_of_reads reads₂]
  cases ending₁ : (Scanner.ofSource source₁).ending with
  | error e =>
    rw [ending₁] at reads₁
    rw [tokensOf_eq_of_reads (reads₁.append_of_error closed ne)]
    rfl
  | ok l =>
    rw [ending₁] at reads₁
    rw [tokensOf_eq_of_reads (reads₁.append_of_ok closed ne reads₂)]
    cases (Scanner.ofSource source₂).ending <;> rfl

/-- The comment and the blank line count, and the columns are those of the second source. -/
theorem tokensOf_behind_comment :
    "A # \"\n\n".toList.getLast? = some '\n' ∧ " 1 1." ≠ "" ∧
      tokensOf "A # \"\n\n" = .ok [⟨⟨1, 1⟩, ⟨.ident, "A"⟩⟩, ⟨⟨1, 6⟩, ⟨.newline, "\n"⟩⟩,
        ⟨⟨2, 1⟩, ⟨.newline, "\n"⟩⟩] ∧
      tokensOf " 1 1." = .error ⟨⟨1, 4⟩, .malformedNumber "1."⟩ ∧
      tokensOf ("A # \"\n\n" ++ " 1 1.") = .error ⟨⟨3, 4⟩, .malformedNumber "1."⟩ := by
  have scanned₁ : tokensOf "A # \"\n\n" = .ok [⟨⟨1, 1⟩, ⟨.ident, "A"⟩⟩,
      ⟨⟨1, 6⟩, ⟨.newline, "\n"⟩⟩, ⟨⟨2, 1⟩, ⟨.newline, "\n"⟩⟩] := by decide +kernel
  have scanned₂ : tokensOf " 1 1." = .error ⟨⟨1, 4⟩, .malformedNumber "1."⟩ := by decide +kernel
  refine ⟨rfl, by decide, scanned₁, scanned₂, ?_⟩
  rw [tokensOf_append rfl (by decide), scanned₁, scanned₂]
  rfl

end MiniBasic
