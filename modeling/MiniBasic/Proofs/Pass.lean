import MiniBasic.Proofs.TokenStream
import MiniBasic.Recognition

/-!
# Passes

A pass recognizes a list of tokens that has been read to its end beforehand. It looks at the current
token only, and behind the last one it finds the end of the input, however often it looks.

What a pass does splits in two. First its goals take some of the tokens, which is the relation
`Takes`; then they are all met, or there is something that they do not allow (`Pass.exists_takes`).
Whatever one step preserves, a pass preserves (`Takes.preserves`).
-/

namespace MiniBasic

structure Pass where
  /-- For each token that was taken, the events from the token before it on. -/
  taken : List (List Event)
  /-- The events behind the last token that was taken. -/
  pending : List Event
  names : Names
  result : Except Diagnostic Unit

namespace Pass

/-- The pass with one more token in front, that was taken after these events. -/
def after (events : List Event) (p : Pass) : Pass := { p with taken := events :: p.taken }

def events (p : Pass) : List Event := p.taken.flatten ++ p.pending

def recognition (p : Pass) : Recognition := ⟨p.events, p.names, p.result⟩

/-- Recognizes the goals in the tokens, behind which the input ends at `stop`. -/
def run (stop : Location) : List (Located Token) → List Goal → Names → Pass
  | [], goals, names =>
    match h : step (endToken stop) goals names with
    | ⟨events, names, .failed e⟩ => ⟨[], events, names, .error e⟩
    | ⟨events, names, .finished⟩ => ⟨[], events, names, .ok ()⟩
    | ⟨_, _, .consumed _⟩ => absurd rfl (Step.ne_eof_of_consumed (congrArg Step.outcome h))
  | t :: ts, goals, names =>
    match step t goals names with
    | ⟨events, names, .failed e⟩ => ⟨[], events, names, .error e⟩
    | ⟨events, names, .finished⟩ => ⟨[], events, names, .ok ()⟩
    | ⟨events, names, .consumed goals⟩ => (run stop ts goals names).after events

theorem run_eq (stop : Location) (ts : List (Located Token)) (goals : List Goal) (names : Names) :
    run stop ts goals names =
      match step (ts.headD (endToken stop)) goals names with
      | ⟨events, names, .failed e⟩ => ⟨[], events, names, .error e⟩
      | ⟨events, names, .finished⟩ => ⟨[], events, names, .ok ()⟩
      | ⟨events, names, .consumed goals⟩ => (run stop ts.tail goals names).after events := by
  cases ts with
  | cons t ts => rw [run]; rfl
  | nil =>
    rw [run]
    split <;> simp_all
    next taken => exact (Step.ne_eof_of_consumed (congrArg Step.outcome taken) rfl).elim

/-- Recognizes a program in the tokens. -/
def ofTokens (stop : Location) (ts : List (Located Token)) : Pass := run stop ts Goal.program .empty

end Pass

/-- The goals take the tokens `ts` one after the other, each after the events in `taken`. -/
inductive Takes : List Goal → Names → List (Located Token) → List (List Event) → List Goal →
    Names → Prop
  | refl {goals : List Goal} {names : Names} : Takes goals names [] [] goals names
  | step {t : Located Token} {ts : List (Located Token)} {events : List Event}
    {taken : List (List Event)} {goals goals' goals'' : List Goal} {names names' names'' : Names}
    (first : step t goals names = ⟨events, names', .consumed goals'⟩)
    (rest : Takes goals' names' ts taken goals'' names'') :
    Takes goals names (t :: ts) (events :: taken) goals'' names''

namespace Takes
variable {goals goals' : List Goal} {names names' : Names} {ts : List (Located Token)}
  {taken : List (List Event)}

theorem length_eq (h : Takes goals names ts taken goals' names') : taken.length = ts.length := by
  induction h with
  | refl => rfl
  | step _ _ ih => simp [ih]

private theorem preserves_from (h : Takes goals names ts taken goals' names')
    {Inv : List (Located Token) → List Event → List Goal → Names → Prop}
    (kept : ∀ {past told t goals names events names' goals'}, Inv past told goals names →
      MiniBasic.step t goals names = ⟨events, names', .consumed goals'⟩ →
      Inv (past ++ [t]) (told ++ events) goals' names')
    {past : List (Located Token)} {told : List Event} (before : Inv past told goals names) :
    Inv (past ++ ts) (told ++ taken.flatten) goals' names' := by
  induction h generalizing past told with
  | refl => simpa using before
  | step first _ ih =>
    have := ih (kept before first)
    rwa [List.append_assoc, List.append_assoc] at this

/-- What holds of the goals, the events and the names when no token has been taken, and is preserved
by every token, holds after all of them. -/
theorem preserves_events (h : Takes goals names ts taken goals' names')
    (Inv : List (Located Token) → List Event → List Goal → Names → Prop)
    (before : Inv [] [] goals names)
    (kept : ∀ {past told t goals names events names' goals'}, Inv past told goals names →
      MiniBasic.step t goals names = ⟨events, names', .consumed goals'⟩ →
      Inv (past ++ [t]) (told ++ events) goals' names') : Inv ts taken.flatten goals' names' :=
  h.preserves_from kept before

/-- What holds of the goals and the names when no token has been taken, and is preserved by every
token, holds after all of them. -/
theorem preserves (h : Takes goals names ts taken goals' names')
    (Inv : List (Located Token) → List Goal → Names → Prop) (before : Inv [] goals names)
    (kept : ∀ {past t goals names events names' goals'}, Inv past goals names →
      MiniBasic.step t goals names = ⟨events, names', .consumed goals'⟩ →
      Inv (past ++ [t]) goals' names') : Inv ts goals' names' :=
  h.preserves_events (fun past _ => Inv past) before kept

end Takes

namespace Pass

/-- How a step ends that leads to the result of a pass. -/
def lastOutcome : Except Diagnostic Unit → Outcome
  | .ok () => .finished
  | .error e => .failed e

/-- Some tokens are taken, and there the pass ends at the next one. -/
theorem exists_takes (stop : Location) (ts : List (Located Token)) (goals : List Goal)
    (names : Names) :
    let p := run stop ts goals names
    ∃ past rest goals' names', ts = past ++ rest ∧
      Takes goals names past p.taken goals' names' ∧
      step (rest.headD (endToken stop)) goals' names' =
        ⟨p.pending, p.names, lastOutcome p.result⟩ := by
  fun_induction run stop ts goals names with
  | case1 goals names events names' e last | case2 goals names events names' last =>
    exact ⟨[], [], goals, names, rfl, .refl, last⟩
  | case3 t ts goals names events names' e last | case4 t ts goals names events names' last =>
    exact ⟨[], t :: ts, goals, names, rfl, .refl, last⟩
  | case5 t ts goals names events names' goals' first ih =>
    obtain ⟨past, rest, goals'', names'', rfl, takes, last⟩ := ih
    exact ⟨t :: past, rest, goals'', names'', rfl, .step first takes, last⟩

end Pass

end MiniBasic
