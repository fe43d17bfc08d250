import MiniBasic.Proofs.Blame

/-!
# The window does not matter

Recognition moves a window of two tokens over a source that is scanned on the way. A source without
a fault is recognized as by a pass over its tokens. A fault is met when it comes into the window,
before the token in front of it is taken: recognition goes as far as the pass over the tokens before
the fault, unless the pass takes all of these tokens but the last.
-/

namespace MiniBasic

/-! ## One move of the window -/

namespace Recognition
variable {w w' : Window} {goals goals' : List Goal} {names names' : Names} {events : List Event}

/-- The recognition with more events at its beginning. -/
def after (events : List Event) (r : Recognition) : Recognition :=
  { r with events := events ++ r.events }

theorem run_of_failed {e : Diagnostic}
    (h : step w.current goals names = ⟨events, names', .failed e⟩) :
    run w goals names = ⟨events, names', .error e⟩ := by
  rw [run]
  split <;> simp_all

theorem run_of_finished (h : step w.current goals names = ⟨events, names', .finished⟩) :
    run w goals names = ⟨events, names', .ok ()⟩ := by
  rw [run]
  split <;> simp_all

theorem run_of_fault {e : Located ScanError}
    (h : step w.current goals names = ⟨events, names', .consumed goals'⟩)
    (fault : w.advance = .error e) :
    run w goals names = ⟨events, names', .error (.scan e)⟩ := by
  rw [run]
  split
  · simp_all
  · simp_all
  · split <;> simp_all

theorem run_of_consumed (h : step w.current goals names = ⟨events, names', .consumed goals'⟩)
    (advance : w.advance = .ok w') :
    run w goals names = (run w' goals' names').after events := by
  rw [run]
  split
  · simp_all
  · simp_all
  · split <;> simp_all [after]

end Recognition

namespace Window
variable {w : Window} {s' : Scanner}

theorem advance_of_ok {t : Located Token} (h : w.scanner.next = (.ok t, s')) :
    w.advance = .ok ⟨w.ahead, t, s'⟩ := by
  rw [advance, h]

theorem advance_of_error {e : Located ScanError} (h : w.scanner.next = (.error e, s')) :
    w.advance = .error e := by
  rw [advance, h]

end Window

theorem Pass.recognition_after (events : List Event) (p : Pass) :
    (p.after events).recognition = p.recognition.after events := by
  simp [recognition, after, Pass.events, Recognition.after]

namespace Scanner.Reads
variable {s : Scanner} {ts : List (Located Token)}

theorem next_of_ok {l : Location} (h : s.Reads ts (.ok l)) :
    ∃ s', s.next = (.ok (ts.headD (endToken l)), s') ∧ s'.Reads ts.tail (.ok l) := by
  cases h with
  | finished read again => exact ⟨_, read, .finished again again⟩
  | token read _ rest => exact ⟨_, read, rest⟩

end Scanner.Reads

/-! ## A source without a fault -/

namespace Recognition

theorem run_of_reads_ok {s : Scanner} {ts : List (Located Token)} {stop : Location}
    (h : s.Reads ts.tail.tail (.ok stop)) (goals : List Goal) (names : Names) :
    run ⟨ts.headD (endToken stop), ts.tail.headD (endToken stop), s⟩ goals names =
      (Pass.run stop ts goals names).recognition := by
  induction ts generalizing s goals names with
  | nil =>
    rw [Pass.run]
    split
    next last => exact run_of_failed last
    next last => exact run_of_finished last
    next taken => exact absurd rfl (Step.ne_eof_of_consumed (congrArg Step.outcome taken))
  | cons t ts ih =>
    obtain ⟨s', read, rest⟩ := h.next_of_ok
    rw [Pass.run]
    split
    next last => exact run_of_failed last
    next last => exact run_of_finished last
    next events names' goals' first =>
      rw [run_of_consumed first (Window.advance_of_ok read), Pass.recognition_after, ← ih rest]
      simp

theorem ofSource_of_tokensOf_ok {source : String} {ts : List (Located Token)}
    (h : tokensOf source = .ok ts) :
    ofSource source = (Pass.ofTokens (endLocation source) ts).recognition := by
  obtain ⟨s, current, rest⟩ := (reads_of_tokensOf_ok h).next_of_ok
  obtain ⟨s', ahead, rest'⟩ := rest.next_of_ok
  rw [ofSource, Window.ofSource, current]
  simp only [ahead]
  exact run_of_reads_ok rest' _ _

/-! ## A source with a fault -/

/-- With `n` tokens behind the two in the window and a fault behind these, the window can be moved
`n` times. -/
theorem run_of_reads_error {s : Scanner} {ts : List (Located Token)} {fault : Located ScanError}
    (h : s.Reads ts (.error fault)) (stop : Location) (t u : Located Token) (goals : List Goal)
    (names : Names) :
    let r := run ⟨t, u, s⟩ goals names
    let p := Pass.run stop (t :: u :: ts) goals names
    (ts.length < p.taken.length → r.result = .error (.scan fault) ∧
      r.events = (p.taken.take (ts.length + 1)).flatten) ∧
    (p.taken.length ≤ ts.length → r = p.recognition) := by
  induction ts generalizing s t u goals names with
  | nil =>
    cases h with
    | fault read =>
    have advance := Window.advance_of_error (w := ⟨t, u, s⟩) read
    rw [Pass.run]
    split
    next last => simp [run_of_failed (w := ⟨t, u, s⟩) last, Pass.recognition, Pass.events]
    next last => simp [run_of_finished (w := ⟨t, u, s⟩) last, Pass.recognition, Pass.events]
    next events names' goals' first => simp [run_of_fault first advance, Pass.after]
  | cons v ts ih =>
    cases h with
    | token read _ rest =>
    have advance := Window.advance_of_ok (w := ⟨t, u, s⟩) read
    rw [Pass.run]
    split
    next last => simp [run_of_failed (w := ⟨t, u, s⟩) last, Pass.recognition, Pass.events]
    next last => simp [run_of_finished (w := ⟨t, u, s⟩) last, Pass.recognition, Pass.events]
    next events names' goals' first =>
      obtain ⟨cut, same⟩ := ih rest u v goals' names'
      rw [run_of_consumed first advance]
      constructor
      · intro h
        obtain ⟨result, events⟩ := cut (by simpa [Pass.after] using h)
        simp [after, Pass.after, result, events]
      · intro h
        rw [Pass.recognition_after, ← same (by simpa [Pass.after] using h)]

end Recognition

/-! ## Programs end at the end of the input -/

/-- The statements of a program may still go on. -/
def Unfinished (goals : List Goal) : Prop := .statements ∈ goals

theorem meet_statements_take {t : Located Token} {names : Names} {events : List Event}
    {parts : List Goal} (h : Goal.statements.meet t names = .take events parts) :
    .statements ∈ parts := by
  simp only [Goal.meet] at h
  split at h
  · cases h
  · have opening := Meeting.opening_statement t [.statements]
    rw [h] at opening
    cases opening
    simp

theorem meet_statements_pass {t : Located Token} {names names' : Names} {events : List Event}
    (h : Goal.statements.meet t names = .pass events names') : t.kind = .eof := by
  simp only [Goal.meet] at h
  split at h
  · assumption
  · have opening := Meeting.opening_statement t [.statements]
    rw [h] at opening
    cases opening

theorem step_unfinished {goals : List Goal} (h : Unfinished goals) (t : Located Token)
    (names : Names) :
    match (step t goals names).outcome with
    | .consumed goals' => Unfinished goals'
    | .finished => t.kind = .eof
    | .failed _ => True := by
  fun_induction step t goals names with
  | case1 => cases h
  | case2 goal goals names events names' pass more ih =>
    rcases List.mem_cons.mp h with rfl | h
    · have eof := meet_statements_pass pass
      split
      next taken => exact absurd eof (Step.ne_eof_of_consumed taken)
      next => exact eof
      next => trivial
    · exact ih h
  | case3 goal goals names events parts take =>
    refine List.mem_append.mpr ?_
    rcases List.mem_cons.mp h with rfl | h
    · exact .inl (meet_statements_take take)
    · exact .inr h
  | case4 => trivial

theorem unfinished_program : Unfinished Goal.program := by
  simp [Unfinished, Goal.program]

theorem Unfinished.take {t : Located Token} {goals goals' : List Goal} {names names' : Names}
    {events : List Event} (before : Unfinished goals)
    (h : step t goals names = ⟨events, names', .consumed goals'⟩) : Unfinished goals' := by
  have := step_unfinished before t names
  rwa [h] at this

/-- A pass over a program ends well only when it has taken all tokens. -/
theorem Pass.length_taken_of_ok {ts : List (Located Token)} (stop : Location)
    (ne_eof : ∀ t ∈ ts, t.kind ≠ .eof) (h : (ofTokens stop ts).result = .ok ()) :
    (ofTokens stop ts).taken.length = ts.length := by
  obtain ⟨past, rest, goals, names, rfl, takes, last⟩ :=
    exists_takes stop ts Goal.program .empty
  have before : Unfinished goals :=
    takes.preserves (fun _ goals _ => Unfinished goals) unfinished_program .take
  have eof := step_unfinished before (rest.headD (endToken stop)) names
  rw [last, ← ofTokens, h] at eof
  cases rest with
  | nil => simpa [ofTokens] using takes.length_eq
  | cons t rest => exact absurd eof (ne_eof t (by simp))

/-! ## All sources -/

theorem compile_eq_error_iff {source : String} {d : Diagnostic} :
    compile source = .error d ↔ (Recognition.ofSource source).result = .error d := by
  simp only [compile, compilation]
  cases (Recognition.ofSource source).result <;> simp [Except.map]

theorem Recognition.ofSource_of_fault {source : String} {fault : Located ScanError}
    (h : tokensOf source = .error fault) (stop : Location) :
    let n := (leadingTokens source).length
    let p := Pass.ofTokens stop (leadingTokens source)
    let r := ofSource source
    (n - 1 ≤ p.taken.length → r.result = .error (.scan fault) ∧
      r.events = (p.taken.take (n - 1)).flatten) ∧
    (p.taken.length < n - 1 → r = p.recognition) := by
  have reads := reads_of_tokensOf_error h
  generalize leadingTokens source = ts at reads
  match ts, reads with
  | [], .fault read => simp [ofSource, Window.ofSource, read]
  | [t], .token read _ (.fault read') => simp [ofSource, Window.ofSource, read, read']
  | t :: u :: ts, .token read _ (.token read' _ rest) =>
    simp only [ofSource, Window.ofSource, read, read', List.length_cons, Nat.add_sub_cancel,
      Nat.lt_succ_iff, Nat.succ_le_iff]
    exact run_of_reads_error rest stop t u Goal.program .empty

/-- A pass over the tokens before a fault that does not take all of them but one is refused further
up than the fault. -/
theorem Pass.refused_before {ts : List (Located Token)} {fault : Located ScanError} {s : Scanner}
    (h : s.Reads ts (.error fault)) (stop : Location)
    (early : (ofTokens stop ts).taken.length < ts.length) :
    ∃ d, (ofTokens stop ts).result = .error d ∧ d.isLexical = false ∧
      d.location < fault.location := by
  cases result : (ofTokens stop ts).result with
  | ok => exact absurd (length_taken_of_ok stop h.ne_eof result) early.ne
  | error d =>
    obtain ⟨past, rest, rfl, length, blame⟩ := blame result
    have before : ∀ l ∈ (past ++ rest).map (·.location), l < fault.location := by
      intro l hl
      exact (List.pairwise_append.mp h.increasing).2.2 l hl _ List.mem_cons_self
    cases rest with
    | nil => simp [length] at early
    | cons t rest =>
      refine ⟨d, rfl, ?_⟩
      cases d with
      | scan => exact blame.elim
      | grammar e => exact ⟨rfl, before _ (by simp [Diagnostic.location, blame])⟩
      | names e =>
        refine ⟨rfl, before _ ?_⟩
        rw [List.map_append, List.map_cons, List.mem_append, List.mem_cons]
        rcases List.mem_cons.mp blame with here | above
        · exact .inr (.inl here)
        · exact .inl above

theorem compile_of_fault {source : String} {fault : Located ScanError}
    (h : tokensOf source = .error fault) (stop : Location) :
    let n := (leadingTokens source).length
    let p := Pass.ofTokens stop (leadingTokens source)
    (n - 1 ≤ p.taken.length → compile source = .error (.scan fault)) ∧
    (p.taken.length < n - 1 → ∃ d, compile source = .error d ∧ p.result = .error d ∧
      d.isLexical = false ∧ d.location < fault.location) := by
  obtain ⟨late, early⟩ := Recognition.ofSource_of_fault h stop
  intro n p
  refine ⟨fun far => compile_eq_error_iff.mpr (late far).1, fun near => ?_⟩
  obtain ⟨d, refused, not_lexical, before⟩ :=
    Pass.refused_before (reads_of_tokensOf_error h) stop (near.trans_le (Nat.sub_le n 1))
  refine ⟨d, ?_, refused, not_lexical, before⟩
  rw [compile_eq_error_iff, early near]
  exact refused

theorem exists_error_of_fault {source : String} {fault : Located ScanError}
    (h : tokensOf source = .error fault) : ∃ d, compile source = .error d := by
  obtain ⟨late, early⟩ := compile_of_fault h .start
  rcases le_or_gt ((leadingTokens source).length - 1) _ with far | near
  · exact ⟨_, late far⟩
  · obtain ⟨d, error, _⟩ := early near
    exact ⟨d, error⟩

/-- Recognizing a source as it is scanned comes to what a pass over its tokens comes to. A fault of
the source is reported if and only if the pass over the `n` tokens before it takes `n - 1` of them,
wherever the input is thought to end, and what has happened by then is what the pass did before the
last of these was taken. Otherwise the source is refused as by the pass, further up than the
fault. -/
theorem recognition_ofSource_eq_pass (source : String) :
    (∀ ts, tokensOf source = .ok ts →
      Recognition.ofSource source = (Pass.ofTokens (endLocation source) ts).recognition) ∧
    ∀ fault, tokensOf source = .error fault → ∀ stop,
      let n := (leadingTokens source).length
      let p := Pass.ofTokens stop (leadingTokens source)
      let r := Recognition.ofSource source
      (∀ code, compile source ≠ .ok code) ∧
      (compile source = .error (.scan fault) ↔ n - 1 ≤ p.taken.length) ∧
      (n - 1 ≤ p.taken.length → r.events = (p.taken.take (n - 1)).flatten) ∧
      (p.taken.length < n - 1 → r = p.recognition ∧ ∃ d, compile source = .error d ∧
        p.result = .error d ∧ d.isLexical = false ∧ d.location < fault.location) := by
  refine ⟨fun ts h => Recognition.ofSource_of_tokensOf_ok h, fun fault h stop => ?_⟩
  obtain ⟨late, early⟩ := Recognition.ofSource_of_fault h stop
  obtain ⟨scan, other⟩ := compile_of_fault h stop
  intro n p r
  refine ⟨fun code ok => ?_, ⟨fun error => ?_, scan⟩, fun far => (late far).2,
    fun near => ⟨early near, other near⟩⟩
  · obtain ⟨d, error⟩ := exists_error_of_fault h
    simp [error] at ok
  · by_contra! near
    obtain ⟨d, error', _, not_lexical, _⟩ := other near
    obtain rfl : d = .scan fault := by simpa [error] using error'.symm
    cases not_lexical

end MiniBasic
