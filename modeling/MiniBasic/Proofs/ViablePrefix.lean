import MiniBasic.Proofs.Lookahead
import MiniBasic.Proofs.Prediction

/-!
# The first token out of place

A token is out of place when the tokens before it are the beginning of a program and with it they
are not. In tokens that do not form a program there is exactly one such place, the end of the input
counted as a token. There the grammar refuses the source, unless the names are at fault further up.

The tokens that a pass has taken can be completed, since its goals can always be met. What a pass
ends with is then told by what its goals stand for (`Pass.verdict`).
-/

namespace MiniBasic

/-- The tokens form a program, as far as the grammar is concerned. -/
def IsProgram (ts : List (Located Token)) : Prop :=
  (Phrase.rule .program).Derives (ts.map (·.kind))

/-- The tokens are the beginning of a program. -/
def Completable (ts : List (Located Token)) : Prop :=
  ∃ ks, (Phrase.rule .program).Derives (ts.map (·.kind) ++ ks)

/-- The token at `k`, which behind the last one is the end of the input. -/
def tokenAt (stop : Location) (ts : List (Located Token)) (k : Nat) : Located Token :=
  (ts.drop k).headD (endToken stop)

/-- The tokens before `k` are the beginning of a program, and the token at `k` does not go on with
it. -/
structure Misplaced (ts : List (Located Token)) (k : Nat) : Prop where
  le : k ≤ ts.length
  before : Completable (ts.take k)
  token : k < ts.length → ¬Completable (ts.take (k + 1))
  stop : k = ts.length → ¬IsProgram ts

section
variable {ts : List (Located Token)} {k n : Nat}

theorem IsProgram.completable (h : IsProgram ts) : Completable ts :=
  ⟨[], by simpa [IsProgram] using h⟩

theorem Completable.take (h : Completable ts) (n : Nat) : Completable (ts.take n) := by
  obtain ⟨ks, derives⟩ := h
  refine ⟨(ts.drop n).map (·.kind) ++ ks, ?_⟩
  rwa [← List.append_assoc, ← List.map_append, List.take_append_drop]

theorem completable_nil : Completable [] :=
  (exists_fits Goal.program).imp fun _ => fits_program.mp

theorem Misplaced.length_le (h : Misplaced ts k) (le : n ≤ ts.length)
    (completable : Completable (ts.take n)) : n ≤ k := by
  by_contra lt
  refine h.token (by omega) ?_
  have := completable.take (k + 1)
  rwa [List.take_take, min_eq_left (by omega)] at this

theorem Misplaced.unique {j : Nat} (hj : Misplaced ts j) (hk : Misplaced ts k) : j = k :=
  le_antisymm (hk.length_le hj.le hj.before) (hj.length_le hk.le hk.before)

theorem Misplaced.not_isProgram (h : Misplaced ts k) : ¬IsProgram ts := by
  intro program
  rcases h.le.lt_or_eq with lt | eq
  · exact h.token lt (program.completable.take _)
  · exact h.stop eq program

theorem exists_misplaced (h : ¬IsProgram ts) : ∃ k, Misplaced ts k := by
  by_contra! none
  have all (n : Nat) (le : n ≤ ts.length) : Completable (ts.take n) := by
    induction n with
    | zero => exact completable_nil
    | succ n ih =>
      by_contra not
      exact none n ⟨Nat.le_of_succ_le le, ih (Nat.le_of_succ_le le), fun _ => not, by omega⟩
  exact none ts.length ⟨le_rfl, all _ le_rfl, fun lt => absurd lt (lt_irrefl _), fun _ => h⟩

end

/-! ## What a pass finds -/

section
variable {past rest : List (Located Token)} {goals : List Goal}

theorem Predicted.completable (h : Predicted past goals) : Completable past := by
  obtain ⟨ks, fits⟩ := exists_fits goals
  exact ⟨ks, (h.fits_iff ks).mpr fits⟩

theorem Predicted.isProgram_iff (h : Predicted past goals) : IsProgram past ↔ Fits goals [] := by
  simpa [IsProgram] using h.fits_iff []

theorem Predicted.completable_append_iff (h : Predicted past goals) (t : Located Token) :
    Completable (past ++ [t]) ↔ ∃ ks, Fits goals (t.kind :: ks) := by
  simp [Completable, ← h.fits_iff]

private theorem take_length_succ_append_cons (t : Located Token) :
    (past ++ t :: rest).take (past.length + 1) = past ++ [t] := by
  rw [List.append_cons]
  exact List.take_left' (by simp)

theorem Predicted.misplaced {stop : Location} (h : Predicted past goals)
    (refused : ∀ ks, ks.headD .eof = (rest.headD (endToken stop)).kind → ¬Fits goals ks) :
    Misplaced (past ++ rest) past.length := by
  refine ⟨by simp, by simpa using h.completable, fun lt => ?_, fun eq => ?_⟩
  · cases rest with
    | nil => simp at lt
    | cons t rest =>
      rw [take_length_succ_append_cons, h.completable_append_iff]
      rintro ⟨ks, fits⟩
      exact refused _ rfl fits
  · obtain rfl : rest = [] := by simpa using eq
    rw [List.append_nil, h.isProgram_iff]
    exact refused [] rfl

end

/-- How the result of a pass over a program bears on the grammar. -/
theorem Pass.verdict {ts : List (Located Token)} (stop : Location)
    (ne_eof : ∀ t ∈ ts, t.kind ≠ .eof) :
    match (ofTokens stop ts).result with
    | .ok () => IsProgram ts
    | .error (.grammar e) => ∃ k, Misplaced ts k ∧ e.location = (tokenAt stop ts k).location
    | .error (.names e) =>
      ∃ n ≤ ts.length, Completable (ts.take n) ∧ e.location ∈ (ts.take n).map (·.location)
    | .error (.scan _) => False := by
  have all_taken := length_taken_of_ok stop ne_eof
  obtain ⟨past, rest, goals, names, rfl, takes, last⟩ :=
    exists_takes stop ts Goal.program .empty
  have predicted : Predicted past goals :=
    takes.preserves (fun past goals _ => Predicted past goals) .program .take
  have only_taken : OnlyTaken past goals names := takes.preserves OnlyTaken onlyTaken_program .take
  have predicts := step_predicts predicted.predictive (rest.headD (endToken stop)) names
  have blames := step_blames (rest.headD (endToken stop)) goals names
  rw [last] at predicts blames
  rw [← ofTokens] at takes predicts blames
  revert all_taken predicts blames
  rcases (ofTokens stop (past ++ rest)).result with (_ | e | e) | _
  · intro _ _ blames
    exact blames
  · intro _ refused here
    refine ⟨past.length, predicted.misplaced refused, ?_⟩
    rwa [tokenAt, List.drop_left]
  · intro _ predicts blames
    rcases predicts with known | ⟨ne, ks, fits⟩
    · exact ⟨past.length, by simp, by simpa using predicted.completable,
        by simpa using only_taken known⟩
    · cases rest with
      | nil => exact absurd rfl ne
      | cons t rest =>
        refine ⟨past.length + 1, by simp, ?_, ?_⟩ <;> rw [take_length_succ_append_cons]
        · exact (predicted.completable_append_iff t).mpr ⟨ks, fits⟩
        · rcases List.mem_cons.mp blames with here | known
          · simp [here]
          · simpa using Or.inl (List.mem_map.mp (only_taken known))
  · intro all_taken met _
    obtain rfl : rest = [] := by simpa [takes.length_eq] using all_taken rfl
    rw [List.append_nil, predicted.isProgram_iff]
    exact (met [] rfl).mpr rfl

theorem compile_eq_error_iff_ofTokens {source : String} {ts : List (Located Token)}
    (h : tokensOf source = .ok ts) (d : Diagnostic) :
    compile source = .error d ↔ (Pass.ofTokens (endLocation source) ts).result = .error d := by
  rw [compile_eq_error_iff, Recognition.ofSource_of_tokensOf_ok h]
  rfl

/-- The tokens before the one at `k` stand before it. -/
theorem lt_location_tokenAt {source : String} {ts : List (Located Token)}
    (h : tokensOf source = .ok ts) {n k : Nat} (le : n ≤ k) {l : Location}
    (hl : l ∈ (ts.take n).map (·.location)) :
    l < (tokenAt (endLocation source) ts k).location := by
  have increasing := (reads_of_tokensOf_ok h).increasing
  rw [← List.take_append_drop k ts, List.map_append, List.append_assoc] at increasing
  refine (List.pairwise_append.mp increasing).2.2 l ?_ _ ?_
  · exact List.map_subset _ (List.take_subset_take_left ts le) hl
  · unfold tokenAt
    cases ts.drop k <;> simp [endToken, Scanner.endingLocation]

/-- A syntax error is reported at the first token out of place, and where there is one, either a
syntax error is reported there or a name is that stands further up. -/
theorem grammar_error_at_misplaced {source : String} {ts : List (Located Token)}
    (h : tokensOf source = .ok ts) :
    let place := fun k => (tokenAt (endLocation source) ts k).location
    (∀ e, compile source = .error (.grammar e) → ∃ k, Misplaced ts k ∧ e.location = place k) ∧
    (¬IsProgram ts → ∃! k, Misplaced ts k) ∧
    ∀ k, Misplaced ts k →
      (∃ e, compile source = .error (.grammar e) ∧ e.location = place k) ∨
      ∃ e, compile source = .error (.names e) ∧ e.location < place k := by
  intro place
  have verdict := Pass.verdict (endLocation source) (reads_of_tokensOf_ok h).ne_eof
  refine ⟨fun e error => ?_, fun not_program => ?_, fun k misplaced => ?_⟩
  · rw [(compile_eq_error_iff_ofTokens h _).mp error] at verdict
    exact verdict
  · obtain ⟨k, misplaced⟩ := exists_misplaced not_program
    exact ⟨k, misplaced, fun j other => other.unique misplaced⟩
  · simp only [compile_eq_error_iff_ofTokens h]
    split at verdict
    next ok => exact absurd verdict misplaced.not_isProgram
    next e error =>
      obtain ⟨j, misplaced_j, here⟩ := verdict
      obtain rfl : j = k := misplaced_j.unique misplaced
      exact .inl ⟨e, error, here⟩
    next e error =>
      obtain ⟨n, le, completable, mem⟩ := verdict
      exact .inr ⟨e, error, lt_location_tokenAt h (misplaced.length_le le completable) mem⟩
    next => exact verdict.elim

/-- `LET` is followed by a name, so that a number there is out of place. -/
theorem number_misplaced_behind_let :
    compile "LET 1" = .error (.grammar ⟨⟨1, 5⟩, .unexpectedToken .ident .number⟩) ∧
      Misplaced [⟨⟨1, 1⟩, ⟨.keyword .let_, "LET"⟩⟩, ⟨⟨1, 5⟩, ⟨.number, "1"⟩⟩,
        ⟨⟨1, 6⟩, ⟨.newline, "\n"⟩⟩] 1 := by
  have scanned : tokensOf "LET 1" = .ok [⟨⟨1, 1⟩, ⟨.keyword .let_, "LET"⟩⟩,
      ⟨⟨1, 5⟩, ⟨.number, "1"⟩⟩, ⟨⟨1, 6⟩, ⟨.newline, "\n"⟩⟩] := by decide +kernel
  have refused : compile "LET 1" =
      .error (.grammar ⟨⟨1, 5⟩, .unexpectedToken .ident .number⟩) := by decide +kernel
  obtain ⟨k, misplaced, here⟩ := (grammar_error_at_misplaced scanned).1 _ refused
  have le := misplaced.le
  -- Of the four places only the second is where the error stands.
  match k with
  | 0 => simp [tokenAt] at here
  | 1 => exact ⟨refused, misplaced⟩
  | 2 => simp [tokenAt] at here
  | 3 =>
    have stop : endLocation "LET 1" = ⟨2, 1⟩ := by decide +kernel
    simp [tokenAt, endToken, stop] at here
  | k + 4 => simp at le

end MiniBasic
