import MiniBasic.Proofs.LexicalGrammar
import MiniBasic.Proofs.Lookahead

/-!
# Progress

Recognition asks one goal after the other about the current token. A goal that lets the token be is
done with, and a goal that takes it moves the window. So between two moves there are fewer goals
from question to question, each move takes the next token of the source, and no move goes beyond the
end of the input: recognition comes to its end, and an accepted source has been read once, token by
token (`recognition_takes_each_token_once`).

`Asks` is one question, `Reaches` any number of them, and `Halts` says where there is none left.
-/

namespace MiniBasic

/-- Recognition under way. -/
structure Stage where
  window : Window
  goals : List Goal
  names : Names

/-- The first goal is asked about the current token, and these tokens are taken. -/
inductive Asks : Stage → List Event → List (Located Token) → Stage → Prop
  | pass {w : Window} {goal : Goal} {goals : List Goal} {names names' : Names}
    {events : List Event} (met : goal.meet w.current names = .pass events names') :
    Asks ⟨w, goal :: goals, names⟩ events [] ⟨w, goals, names'⟩
  | take {w w' : Window} {goal : Goal} {goals parts : List Goal} {names : Names}
    {events : List Event} (met : goal.meet w.current names = .take events parts)
    (moved : w.advance = .ok w') :
    Asks ⟨w, goal :: goals, names⟩ events [w.current] ⟨w', parts ++ goals, names⟩

/-- Any number of questions. -/
inductive Reaches : Stage → List Event → List (Located Token) → Stage → Prop
  | refl {a : Stage} : Reaches a [] [] a
  | step {a b c : Stage} {events events' : List Event} {ts ts' : List (Located Token)}
    (first : Asks a events ts b) (rest : Reaches b events' ts' c) :
    Reaches a (events ++ events') (ts ++ ts') c

/-- There is nothing left to ask, or the last answer ends it. -/
inductive Halts : Stage → List Event → Except Diagnostic Unit → Prop
  | finished {w : Window} {names : Names} : Halts ⟨w, [], names⟩ [] (.ok ())
  | refused {w : Window} {goal : Goal} {goals : List Goal} {names : Names} {events : List Event}
    {e : Diagnostic} (met : goal.meet w.current names = .fail events e) :
    Halts ⟨w, goal :: goals, names⟩ events (.error e)
  | fault {w : Window} {goal : Goal} {goals parts : List Goal} {names : Names}
    {events : List Event} {e : Located ScanError}
    (met : goal.meet w.current names = .take events parts) (stuck : w.advance = .error e) :
    Halts ⟨w, goal :: goals, names⟩ events (.error (.scan e))

/-- The goals that stand for any number of something. -/
def Goal.IsLoop : Goal → Prop
  | newlines | statements | blockRest _ | relations | sums | factors => True
  | _ => False

/-! ## One question -/

theorem Goal.ne_eof_of_take {goal : Goal} {t : Located Token} {names : Names}
    {events : List Event} {parts : List Goal} (met : goal.meet t names = .take events parts) :
    t.kind ≠ .eof := by
  have taken : step t [goal] names = ⟨events, names, .consumed (parts ++ [])⟩ := step_of_take met
  exact Step.ne_eof_of_consumed (congrArg Step.outcome taken)

/-- A loop that takes the token is left, or is still there behind what the token begins. -/
theorem Goal.IsLoop.eq_nil_or_of_take {loop : Goal} (h : loop.IsLoop) {t : Located Token}
    {names : Names} {events : List Event} {parts : List Goal}
    (met : loop.meet t names = .take events parts) :
    parts = [] ∨ ∃ front, parts = front ++ [loop] := by
  have statement {events : List Event} {parts : List Goal}
      (met : Meeting.statement t [loop] = .take events parts) :
      ∃ front, parts = front ++ [loop] := by
    have opening := Meeting.opening_statement t [loop]
    rw [met] at opening
    cases opening with
    | @keyword _ k parts => exact ⟨parts, rfl⟩
  cases loop with
  | newlines =>
    simp only [meet] at met
    split at met
    next =>
      cases met
      exact .inr ⟨[], rfl⟩
    next => cases met
  | relations | sums | factors =>
    simp only [meet] at met
    split at met
    next =>
      cases met
      exact .inr ⟨[_], rfl⟩
    next => cases met
  | statements =>
    simp only [meet] at met
    split at met
    next => cases met
    next => exact .inr (statement met)
  | blockRest closing =>
    simp only [meet] at met
    split at met
    next =>
      cases met
      exact .inl rfl
    next => exact .inr (statement met)
  | _ => exact h.elim

namespace Stage

/-- A question comes before another one. -/
def Before (b a : Stage) : Prop := ∃ events ts, Asks a events ts b

theorem wellFounded_before : WellFounded Before := by
  have descends (b a : Stage) (h : Before b a) :
      toLex (b.window.size, b.goals.length) < toLex (a.window.size, a.goals.length) := by
    obtain ⟨events, ts, asks⟩ := h
    rw [Prod.Lex.toLex_lt_toLex]
    cases asks with
    | pass met => exact .inr ⟨rfl, Nat.lt_succ_self _⟩
    | take met moved => exact .inl (Window.size_advance moved (Goal.ne_eof_of_take met))
  exact Subrelation.wf (descends _ _) (InvImage.wf _ wellFounded_lt)

end Stage

/-! ## All questions -/

namespace Reaches
variable {a b c : Stage} {events events' : List Event} {ts ts' : List (Located Token)}

theorem trans (h : Reaches a events ts b) (h' : Reaches b events' ts' c) :
    Reaches a (events ++ events') (ts ++ ts') c := by
  induction h with
  | refl => exact h'
  | step first _ ih =>
    rw [List.append_assoc, List.append_assoc]
    exact .step first (ih h')

/-- Without a token, goals are only done with. -/
theorem length_goals_le (h : Reaches a events [] b) : b.goals.length ≤ a.goals.length := by
  generalize nil : [] = ts at h
  induction h with
  | refl => exact le_refl _
  | step first _ ih =>
    obtain ⟨rfl, rfl⟩ := List.append_eq_nil_iff.mp nil.symm
    cases first with
    | pass => exact (ih rfl).trans (Nat.le_succ _)

/-- To come back to the same goals takes a token. -/
theorem ne_nil_of_goals_eq (first : Asks a events ts b) (rest : Reaches b events' ts' c)
    (back : c.goals = a.goals) : ts ++ ts' ≠ [] := by
  intro nil
  obtain ⟨rfl, rfl⟩ := List.append_eq_nil_iff.mp nil
  have le := rest.length_goals_le
  rw [back] at le
  cases first with
  | pass => exact absurd le (Nat.not_succ_le_self _)

end Reaches

/-- One step asks all goals up to the one that takes the token or refuses it. -/
theorem exists_reaches_of_step (w : Window) (goals : List Goal) (names : Names) :
    let s := step w.current goals names
    ∃ events told rest, s.events = events ++ told ∧
      Reaches ⟨w, goals, names⟩ events [] ⟨w, rest, s.names⟩ ∧
      match s.outcome with
      | .finished => rest = [] ∧ told = []
      | .failed e => ∃ goal more, rest = goal :: more ∧ goal.meet w.current s.names = .fail told e
      | .consumed goals' => ∃ goal more parts, rest = goal :: more ∧
        goal.meet w.current s.names = .take told parts ∧ goals' = parts ++ more := by
  induction goals generalizing names with
  | nil => exact ⟨[], [], [], rfl, .refl, rfl, rfl⟩
  | cons goal goals ih =>
    cases met : goal.meet w.current names with
    | pass events names' =>
      obtain ⟨more, told, rest, events_eq, reaches, ending⟩ := ih names'
      rw [step_of_pass met]
      refine ⟨events ++ more, told, rest, ?_, .step (.pass met) reaches, ending⟩
      rw [List.append_assoc, ← events_eq]
    | take events parts =>
      rw [step_of_take met]
      exact ⟨[], events, goal :: goals, rfl, .refl, goal, goals, parts, rfl, met, rfl⟩
    | fail events e =>
      rw [step_of_fail met]
      exact ⟨[], events, goal :: goals, rfl, .refl, goal, goals, rfl, met⟩

/-- Recognition asks until there is nothing left to ask, and comes to what was announced on the way,
the names that are known then and the last answer. -/
theorem exists_halts (w : Window) (goals : List Goal) (names : Names) :
    ∃ events ts b told result, Reaches ⟨w, goals, names⟩ events ts b ∧ Halts b told result ∧
      Recognition.run w goals names = ⟨events ++ told, b.names, result⟩ := by
  fun_induction Recognition.run w goals names with
  | case1 w goals names events names' e stepped =>
    obtain ⟨front, told, rest, events_eq, reaches, ending⟩ := exists_reaches_of_step w goals names
    rw [stepped] at events_eq reaches ending
    obtain ⟨goal, more, rfl, met⟩ := ending
    exact ⟨front, [], _, told, _, reaches, .refused met, by rw [← events_eq]⟩
  | case2 w goals names events names' stepped =>
    obtain ⟨front, told, rest, events_eq, reaches, ending⟩ := exists_reaches_of_step w goals names
    rw [stepped] at events_eq reaches ending
    obtain ⟨rfl, rfl⟩ := ending
    exact ⟨front, [], _, [], _, reaches, .finished, by rw [← events_eq]⟩
  | case3 w goals names events names' goals' stepped e stuck =>
    obtain ⟨front, told, rest, events_eq, reaches, ending⟩ := exists_reaches_of_step w goals names
    rw [stepped] at events_eq reaches ending
    obtain ⟨goal, more, parts, rfl, met, -⟩ := ending
    exact ⟨front, [], _, told, _, reaches, .fault met stuck, by rw [← events_eq]⟩
  | case4 w goals names events names' goals' stepped w' moved lt more ih =>
    obtain ⟨front, told, rest, events_eq, reaches, ending⟩ := exists_reaches_of_step w goals names
    rw [stepped] at events_eq reaches ending
    obtain ⟨goal, behind, parts, rfl, met, rfl⟩ := ending
    obtain ⟨events', ts, b, told', result, reaches', halts, run_eq⟩ := ih
    refine ⟨_, _, b, told', result, reaches.trans (.step (.take met moved) reaches'), halts, ?_⟩
    obtain rfl : events = front ++ told := events_eq
    simp only [more, run_eq, List.append_assoc]

/-! ## What the window shows -/

/-- The tokens `us` are in the window and behind it, up to the fault or the end of the input. -/
inductive Window.Shows : Window → List (Located Token) → Except (Located ScanError) Location → Prop
  | both {t u : Located Token} {s : Scanner} {us : List (Located Token)}
    {r : Except (Located ScanError) Location} (t_ne : t.kind ≠ .eof) (u_ne : u.kind ≠ .eof)
    (reads : s.Reads us r) : Shows ⟨t, u, s⟩ (t :: u :: us) r
  | last {t : Located Token} {s : Scanner} {l : Location} (t_ne : t.kind ≠ .eof)
    (reads : s.Reads [] (.ok l)) : Shows ⟨t, endToken l, s⟩ [t] (.ok l)
  | none {s : Scanner} {l : Location} (reads : s.Reads [] (.ok l)) :
    Shows ⟨endToken l, endToken l, s⟩ [] (.ok l)

namespace Window.Shows
variable {w w' : Window} {us : List (Located Token)} {r : Except (Located ScanError) Location}

theorem exists_eq_cons (h : w.Shows us r) (ne_eof : w.current.kind ≠ .eof) :
    ∃ rest, us = w.current :: rest := by
  cases h with
  | both | last => exact ⟨_, rfl⟩
  | none => exact absurd rfl ne_eof

/-- The window shows the end of the input when there is nothing more to read. -/
theorem eof (h : w.Shows us r) (eof : w.current.kind = .eof) :
    us = [] ∧ ∃ l, r = .ok l ∧ w.current = endToken l := by
  cases h with
  | both t_ne | last t_ne => exact absurd eof t_ne
  | @none s l => exact ⟨rfl, l, rfl, rfl⟩

/-- A move is over the current token. -/
theorem advance {t : Located Token} (h : w.Shows (t :: us) r) (moved : w.advance = .ok w') :
    w'.Shows us r := by
  cases h with
  | @both t u s us r t_ne u_ne reads =>
    unfold Window.advance at moved
    cases reads with
    | fault read =>
      simp only [read] at moved
      cases moved
    | finished read again =>
      simp only [read] at moved
      cases moved
      exact .last u_ne (.finished again again)
    | token read ne_eof rest =>
      simp only [read] at moved
      cases moved
      exact .both u_ne ne_eof rest
  | @last t s l t_ne reads =>
    unfold Window.advance at moved
    cases reads with
    | finished read again =>
      simp only [read] at moved
      cases moved
      exact .none (.finished again again)

end Window.Shows

theorem Window.scanner_of_advance {w w' : Window} (moved : w.advance = .ok w') :
    w'.scanner = w.scanner.next.2 := by
  revert moved
  fun_cases Window.advance w with
  | case1 =>
    intro eq
    cases eq
  | case2 t scanner read =>
    intro eq
    cases eq
    rw [read]

/-- The scanner after so many questions. -/
def Scanner.asked (s : Scanner) (n : Nat) : Scanner := (fun s => s.next.2)^[n] s

/-- At the beginning the scanner has been asked twice, or a fault is met with the first question or
the second one. -/
theorem Window.shows_ofSource (source : String) :
    match Window.ofSource source with
    | .error e => (leadingTokens source).length ≤ 1 ∧
      ((Scanner.ofSource source).asked (leadingTokens source).length).next.1 = .error e
    | .ok w => w.Shows (leadingTokens source) (Scanner.ofSource source).ending ∧
      w.scanner = (Scanner.ofSource source).asked 2 := by
  have reads := (Scanner.ofSource source).reads_scan
  unfold ofSource leadingTokens
  generalize (Scanner.ofSource source).scan.tokens = ts at reads
  generalize (Scanner.ofSource source).ending = r at reads
  generalize Scanner.ofSource source = s at reads
  cases reads with
  | fault read => simp [read, Scanner.asked]
  | finished read again => simp [read, again, Scanner.asked, Shows.none (.finished again again)]
  | token read t_ne rest =>
    cases rest with
    | fault read' => simp [read, read', Scanner.asked]
    | finished read' again =>
      simp [read, read', Scanner.asked, Shows.last t_ne (.finished again again)]
    | token read' u_ne rest' => simp [read, read', Scanner.asked, Shows.both t_ne u_ne rest']

namespace Reaches
variable {a b : Stage} {events : List Event} {ts us : List (Located Token)}
  {r : Except (Located ScanError) Location}

/-- What is taken is what the window has shown. -/
theorem shows (h : Reaches a events ts b) (shown : a.window.Shows us r) :
    ∃ rest, us = ts ++ rest ∧ b.window.Shows rest r ∧
      b.window.scanner = a.window.scanner.asked ts.length := by
  induction h generalizing us with
  | refl => exact ⟨us, rfl, shown, rfl⟩
  | step first _ ih =>
    cases first with
    | pass => exact ih shown
    | take met moved =>
      obtain ⟨rest, rfl⟩ := shown.exists_eq_cons (Goal.ne_eof_of_take met)
      obtain ⟨rest', rfl, shown', scanner⟩ := ih (shown.advance moved)
      refine ⟨rest', rfl, shown', ?_⟩
      rw [scanner, Window.scanner_of_advance moved]
      rfl

/-- The statements of a program are done with at the end of the input. -/
theorem unfinished (h : Reaches a events ts b)
    (before : Unfinished a.goals ∨ a.window.current.kind = .eof) :
    Unfinished b.goals ∨ b.window.current.kind = .eof := by
  induction h with
  | refl => exact before
  | step first _ ih =>
    refine ih ?_
    cases first with
    | pass met =>
      rcases before with unfinished | eof
      · rcases List.mem_cons.mp unfinished with rfl | behind
        · exact .inr (meet_statements_pass met)
        · exact .inl behind
      · exact .inr eof
    | take met moved =>
      refine .inl (List.mem_append.mpr ?_)
      have unfinished := before.resolve_right (Goal.ne_eof_of_take met)
      rcases List.mem_cons.mp unfinished with rfl | behind
      · exact .inl (meet_statements_take met)
      · exact .inr behind

end Reaches

/-! ## A whole source -/

/-- Where recognition of the source is when it has taken the tokens `ts`. They are the first ones of
the source, and the scanner was asked for them and for the two in the window. Any token that is
taken is the next one of the source, not its end. A loop is left, or it takes the current token and
comes again behind what that begins; and until it has come again it has taken a token. -/
structure Stage.OnCourse (source : String) (ts : List (Located Token)) (a : Stage) : Prop where
  taken : ts <+: leadingTokens source
  asked : a.window.scanner = (Scanner.ofSource source).asked (ts.length + 2)
  takes : ∀ goal goals events parts, a.goals = goal :: goals →
    goal.meet a.window.current a.names = .take events parts →
      a.window.current.kind ≠ .eof ∧ ts ++ [a.window.current] <+: leadingTokens source
  begins : ∀ loop rest events us b, loop.IsLoop → a.goals = loop :: rest → Asks a events us b →
    b.goals = rest ∨ us = [a.window.current] ∧ ∃ front, b.goals = front ++ loop :: rest
  iterates : ∀ events us b events' us' c, Asks a events us b → Reaches b events' us' c →
    c.goals = a.goals → us ++ us' ≠ []

theorem Reaches.onCourse {source : String} {w : Window} {goals : List Goal} {names : Names}
    {events : List Event} {ts : List (Located Token)} {a : Stage}
    (made : Window.ofSource source = .ok w) (h : Reaches ⟨w, goals, names⟩ events ts a) :
    a.OnCourse source ts := by
  have begun := Window.shows_ofSource source
  rw [made] at begun
  obtain ⟨shown, twice⟩ := begun
  obtain ⟨rest, tokens_eq, shows, asked⟩ := h.shows shown
  refine ⟨⟨rest, tokens_eq.symm⟩, ?_, fun goal goals events parts goals_eq met => ?_,
    fun loop rest events us b isLoop goals_eq asks => ?_,
    fun events us b events' us' c first rest back => Reaches.ne_nil_of_goals_eq first rest back⟩
  · rw [asked, twice, Scanner.asked, Scanner.asked, ← Function.iterate_add_apply]
    rfl
  · have ne_eof := Goal.ne_eof_of_take met
    obtain ⟨rest, rfl⟩ := shows.exists_eq_cons ne_eof
    refine ⟨ne_eof, rest, ?_⟩
    rw [tokens_eq, List.append_assoc]
    rfl
  · cases asks with
    | pass met =>
      cases goals_eq
      exact .inl rfl
    | take met moved =>
      cases goals_eq
      rcases isLoop.eq_nil_or_of_take met with rfl | ⟨front, rfl⟩
      · exact .inl rfl
      · exact .inr ⟨rfl, front, by simp⟩

/-- Recognition ends, and its questions come to what it is. On the way it takes the tokens of the
source one by one, never more than there are in front of the end or of the first fault, and asks the
scanner for two more at most. If the source is accepted then all tokens have been taken and the
window stands at the end. -/
theorem recognition_takes_each_token_once (source : String) :
    (∀ e, Window.ofSource source = .error e →
      Recognition.ofSource source = ⟨[], .empty, .error (.scan e)⟩ ∧
      (leadingTokens source).length ≤ 1 ∧
      ((Scanner.ofSource source).asked (leadingTokens source).length).next.1 = .error e) ∧
    ∀ w, Window.ofSource source = .ok w →
      let start : Stage := ⟨w, Goal.program, .empty⟩
      Acc Stage.Before start ∧
      (∀ events ts a, Reaches start events ts a → a.OnCourse source ts) ∧
      ∃ events ts a told result, Reaches start events ts a ∧ Halts a told result ∧
        Recognition.ofSource source = ⟨events ++ told, a.names, result⟩ ∧
        (result = .ok () →
          tokensOf source = .ok ts ∧ a.window.current = endToken (endLocation source)) := by
  have begun := Window.shows_ofSource source
  constructor
  · intro e made
    rw [made] at begun
    exact ⟨by rw [Recognition.ofSource, made], begun⟩
  · intro w made start
    rw [made] at begun
    obtain ⟨events, ts, a, told, result, reaches, halts, run_eq⟩ :=
      exists_halts w Goal.program .empty
    have recognized : Recognition.ofSource source = ⟨events ++ told, a.names, result⟩ := by
      simp only [Recognition.ofSource, made, run_eq]
    refine ⟨Stage.wellFounded_before.apply start, fun events ts a h => h.onCourse made,
      events, ts, a, told, result, reaches, halts, recognized, ?_⟩
    rintro rfl
    cases halts with
    | @finished w' names =>
      have eof : w'.current.kind = .eof :=
        (reaches.unfinished (.inl unfinished_program)).resolve_left List.not_mem_nil
      obtain ⟨rest, tokens_eq, shows, -⟩ := reaches.shows begun.1
      obtain ⟨rfl, l, ending, current⟩ := shows.eof eof
      have reads := (Scanner.ofSource source).reads_scan
      rw [ending] at reads
      rw [List.append_nil] at tokens_eq
      obtain rfl : l = endLocation source := reads.eq_stop
      exact ⟨tokens_eq ▸ tokensOf_eq_of_reads reads, current⟩

end MiniBasic
