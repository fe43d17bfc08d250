import MiniBasic.Proofs.Lookahead
import MiniBasic.Proofs.Translation

/-!
# Sinks

The code of a program goes into a sink, every piece of it as soon as the program has been read that
far. What the sink makes of the pieces is its own affair: nothing that it holds flows back. Here an
observer is told the events one by one while they happen. Two observers of the same source are told
the same (`Observer.ofSource_rel`), which is what is recognized without any
(`Observer.ofSource_history`). A sink is told of the pieces of code only.
-/

namespace MiniBasic

/-- What is told every event in turn, with the names that are known right after it. -/
abbrev Observer (α : Type) := α → Event → Names → α

/-- What an observer has come to by the end. -/
structure Observed (α ending : Type) where
  state : α
  names : Names
  ending : ending

namespace Observer

section
variable {α : Type} (o : Observer α)

def tell (names : Names) (events : List Event) (a : α) : α :=
  events.foldl (fun a e => o a e names) a

/-- Brings the goals forward by the token `t`, as `step` does, and tells what happens. -/
def step (t : Located Token) : List Goal → Names → α → Observed α Outcome
  | [], names, a => ⟨a, names, .finished⟩
  | goal :: goals, names, a =>
    match goal.meet t names with
    | .pass events names => step t goals names (o.tell names events a)
    | .take events parts => ⟨o.tell names events a, names, .consumed (parts ++ goals)⟩
    | .fail events e => ⟨o.tell names events a, names, .failed e⟩

theorem ending_step (t : Located Token) (goals : List Goal) (names : Names) (a : α) :
    (o.step t goals names a).ending = (MiniBasic.step t goals names).outcome := by
  induction goals generalizing names a with
  | nil => rfl
  | cons goal goals ih =>
    rw [step]
    cases meet : goal.meet t names with
    | pass events names' => rw [step_of_pass meet]; exact ih names' _
    | take events parts => rw [step_of_take meet]
    | fail events e => rw [step_of_fail meet]

/-- Recognizes the goals in what the window moves over, as `Recognition.run` does. -/
def run (w : Window) (goals : List Goal) (names : Names) (a : α) :
    Observed α (Except Diagnostic Unit) :=
  match h : o.step w.current goals names a with
  | ⟨a, names, .failed e⟩ => ⟨a, names, .error e⟩
  | ⟨a, names, .finished⟩ => ⟨a, names, .ok ()⟩
  | ⟨a, names, .consumed goals⟩ =>
    match hw : w.advance with
    | .error e => ⟨a, names, .error (.scan e)⟩
    | .ok w' =>
      have := Window.size_advance hw
        (Step.ne_eof_of_consumed ((o.ending_step _ _ _ _).symm.trans (congrArg Observed.ending h)))
      run w' goals names a
termination_by w.size

theorem run_eq (w : Window) (goals : List Goal) (names : Names) (a : α) :
    o.run w goals names a =
      let s := o.step w.current goals names a
      match s.ending with
      | .failed e => ⟨s.state, s.names, .error e⟩
      | .finished => ⟨s.state, s.names, .ok ()⟩
      | .consumed goals' =>
        match w.advance with
        | .error e => ⟨s.state, s.names, .error (.scan e)⟩
        | .ok w' => o.run w' goals' s.names s.state := by
  rw [run]
  split
  next last => simp [last]
  next last => simp [last]
  next first =>
    simp only [first]
    split <;> simp_all

def ofSource (source : String) (a : α) : Observed α (Except Diagnostic Unit) :=
  match Window.ofSource source with
  | .error e => ⟨a, .empty, .error (.scan e)⟩
  | .ok w => o.run w Goal.program .empty a

end

end Observer

/-! ## Two observers -/

/-- Two observers have come to related states, and otherwise to the same. -/
structure Observed.Related {α β ending : Type} (R : α → β → Prop) (p : Observed α ending)
    (q : Observed β ending) : Prop where
  state : R p.state q.state
  names : p.names = q.names
  ending : p.ending = q.ending

namespace Observer

section
variable {α β : Type} {o : Observer α} {o' : Observer β} {R : α → β → Prop}
  (kept : ∀ {a b} e names, R a b → R (o a e names) (o' b e names))
include kept

theorem tell_rel (names : Names) (events : List Event) {a : α} {b : β} (h : R a b) :
    R (o.tell names events a) (o'.tell names events b) := by
  induction events generalizing a b with
  | nil => exact h
  | cons e events ih => exact ih (kept e names h)

theorem step_rel (t : Located Token) (goals : List Goal) (names : Names) {a : α} {b : β}
    (h : R a b) : (o.step t goals names a).Related R (o'.step t goals names b) := by
  induction goals generalizing names a b with
  | nil => exact ⟨h, rfl, rfl⟩
  | cons goal goals ih =>
    rw [step, step]
    cases goal.meet t names with
    | pass events names' => exact ih names' (tell_rel kept names' events h)
    | take events parts | fail events e => exact ⟨tell_rel kept names events h, rfl, rfl⟩

theorem run_rel (w : Window) (goals : List Goal) (names : Names) {a : α} {b : β} (h : R a b) :
    (o.run w goals names a).Related R (o'.run w goals names b) := by
  induction size : w.size using Nat.strong_induction_on generalizing w goals names a b with
  | _ n ih =>
  obtain ⟨state, same_names, same_ending⟩ := step_rel kept w.current goals names h
  rw [run_eq, run_eq]
  simp only [same_names, same_ending]
  cases ending : (o'.step w.current goals names b).ending with
  | failed e | finished => exact ⟨state, rfl, rfl⟩
  | consumed goals' =>
    cases advance : w.advance with
    | error e => exact ⟨state, rfl, rfl⟩
    | ok w' =>
      rw [ending_step] at ending
      have lt := Window.size_advance advance (Step.ne_eof_of_consumed ending)
      exact ih w'.size (size ▸ lt) w' goals' _ state rfl

/-- What relates the states of two observers at first, and goes on to do so with every event, still
relates them in the end. -/
theorem ofSource_rel (source : String) {a : α} {b : β} (h : R a b) :
    (o.ofSource source a).Related R (o'.ofSource source b) := by
  rw [ofSource, ofSource]
  cases Window.ofSource source with
  | error e => exact ⟨h, rfl, rfl⟩
  | ok w => exact run_rel kept w _ _ h

end

/-! ## No observer -/

/-- Keeps the events. -/
def history : Observer (List Event) := fun past e _ => past ++ [e]

theorem tell_history (names : Names) (events past : List Event) :
    history.tell names events past = past ++ events := by
  induction events generalizing past with
  | nil => exact (List.append_nil past).symm
  | cons e events ih => exact (ih (past ++ [e])).trans (by simp)

theorem step_history (t : Located Token) (goals : List Goal) (names : Names) (past : List Event) :
    let s := MiniBasic.step t goals names
    history.step t goals names past = ⟨past ++ s.events, s.names, s.outcome⟩ := by
  induction goals generalizing names past with
  | nil => simp [step, MiniBasic.step]
  | cons goal goals ih =>
    rw [step]
    cases meet : goal.meet t names with
    | pass events names' => simp [step_of_pass meet, tell_history, ih]
    | take events parts => simp [step_of_take meet, tell_history]
    | fail events e => simp [step_of_fail meet, tell_history]

theorem run_history (w : Window) (goals : List Goal) (names : Names) (past : List Event) :
    let r := Recognition.run w goals names
    history.run w goals names past = ⟨past ++ r.events, r.names, r.result⟩ := by
  induction size : w.size using Nat.strong_induction_on generalizing w goals names past with
  | _ n ih =>
  rw [run_eq, step_history]
  cases first : MiniBasic.step w.current goals names with
  | mk events names' outcome =>
    cases outcome with
    | failed e => simp [Recognition.run_of_failed first]
    | finished => simp [Recognition.run_of_finished first]
    | consumed goals' =>
      cases advance : w.advance with
      | error e => simp [Recognition.run_of_fault first advance]
      | ok w' =>
        have lt := Window.size_advance advance
          (Step.ne_eof_of_consumed (congrArg Step.outcome first))
        simp only [Recognition.run_of_consumed first advance]
        rw [ih w'.size (size ▸ lt) w' goals' names' _ rfl]
        simp [Recognition.after]

/-- What an observer is told is what is recognized without one. -/
theorem ofSource_history (source : String) :
    let r := Recognition.ofSource source
    history.ofSource source [] = ⟨r.events, r.names, r.result⟩ := by
  rw [ofSource, Recognition.ofSource]
  cases Window.ofSource source with
  | error e => rfl
  | ok w => exact run_history w _ _ []

end Observer

/-! ## Sinks -/

/-- What becomes of a sink when a piece of code goes into it. -/
structure Sink (σ : Type) where
  fragment : σ → String → σ
  line : σ → String → σ
  header : σ → String → σ

/-- A recognized source, with the sink that its code went into. -/
structure Parse (σ : Type) where
  sink : σ
  /-- The rules that were entered and the pieces that went into the sink, in order. -/
  history : List Event
  names : Names
  result : Except Diagnostic Unit

def Parse.trace {σ : Type} (p : Parse σ) : List Rule := p.history.filterMap Event.rule?

namespace Sink

section
variable {σ : Type} (k : Sink σ)

def receive (s : σ) : Event → σ
  | .enter _ => s
  | .fragment text => k.fragment s text
  | .line text => k.line s text
  | .header text => k.header s text

/-- Hands the pieces on to the sink and keeps all events. -/
def observer : Observer (σ × List Event) := fun (s, past) e _ => (k.receive s e, past ++ [e])

/-- Recognizes the source while its code goes into the sink, which holds `s` at first. -/
def parse (s : σ) (source : String) : Parse σ :=
  let seen := k.observer.ofSource source (s, [])
  ⟨seen.state.1, seen.state.2, seen.names, seen.ending⟩

end

/-- The generated code. -/
def output : Sink Output where
  fragment out text := out.push (.fragment text)
  line out text := out.push (.line text)
  header out text := out.push (.header text)

/-- Drops everything. -/
def discard : Sink Unit := ⟨fun _ _ => (), fun _ _ => (), fun _ _ => ()⟩

/-- Keeps the pieces. -/
def recorder : Sink (List Event) where
  fragment pieces text := pieces ++ [.fragment text]
  line pieces text := pieces ++ [.line text]
  header pieces text := pieces ++ [.header text]

end Sink

/-- The text that the event adds to the header. -/
def Event.headerText? : Event → Option String
  | header text => some (text ++ "\n")
  | _ => none

/-- The text that the event adds to the body. -/
def Event.bodyText? : Event → Option String
  | fragment text => some text
  | line text => some (text ++ "\n")
  | _ => none

/-- The header, then the body. -/
def codeOf (events : List Event) : String :=
  String.join (events.filterMap Event.headerText?) ++ String.join (events.filterMap Event.bodyText?)

/-- Whatever the sink, the source is recognized as without one, and all pieces go into the sink in
order. -/
theorem Sink.parse_eq {σ : Type} (k : Sink σ) (s : σ) (source : String) :
    let r := Recognition.ofSource source
    k.parse s source = ⟨r.events.foldl k.receive s, r.events, r.names, r.result⟩ := by
  have kept {a : σ × List Event} {past : List Event} (e : Event) (names : Names)
      (h : a = (past.foldl k.receive s, past)) :
      k.observer a e names =
        ((Observer.history past e names).foldl k.receive s, Observer.history past e names) := by
    rw [h]
    simp [observer, Observer.history]
  obtain ⟨state, names, ending⟩ := Observer.ofSource_rel
    (R := fun (a : σ × List Event) (past : List Event) => a = (past.foldl k.receive s, past))
    (a := (s, [])) (b := []) kept source rfl
  rw [Observer.ofSource_history] at state names ending
  simp only [Sink.parse]
  rw [state, names, ending]

theorem Sink.foldl_output (events : List Event) (out : Output) :
    events.foldl output.receive out = events.foldl Output.push out := by
  refine congrFun₂ (congrArg List.foldl ?_) out events
  funext out e
  cases e <;> rfl

theorem Sink.foldl_recorder (events pieces : List Event) :
    events.foldl recorder.receive pieces = pieces ++ events.filter (·.rule? = none) := by
  induction events generalizing pieces with
  | nil => exact (List.append_nil pieces).symm
  | cons e events ih =>
    rw [List.foldl_cons, ih]
    cases e <;> simp [receive, recorder, Event.rule?]

theorem Translation.header_ofEvents (events : List Event) :
    (ofEvents events).header = String.join (events.filterMap Event.headerText?) := by
  induction events with
  | nil => rfl
  | cons e events ih =>
    cases e <;> simp [List.filterMap_cons, ofEvent, Event.headerText?, ih]

theorem Translation.body_ofEvents (events : List Event) :
    (ofEvents events).body = String.join (events.filterMap Event.bodyText?) := by
  induction events with
  | nil => rfl
  | cons e events ih =>
    cases e <;> simp [List.filterMap_cons, ofEvent, Event.bodyText?, ih]

theorem Output.text_eq_codeOf (events : List Event) : (ofEvents events).text = codeOf events := by
  rw [text_ofEvents, Translation.header_ofEvents, Translation.body_ofEvents, codeOf]

theorem codeOf_filter (events : List Event) :
    codeOf (events.filter (·.rule? = none)) = codeOf events := by
  have same {text? : Event → Option String} (silent : ∀ rule, text? (.enter rule) = none) :
      (events.filter (·.rule? = none)).filterMap text? = events.filterMap text? := by
    rw [List.filterMap_filter]
    refine List.filterMap_congr fun e _ => ?_
    cases e <;> simp [Event.rule?, silent]
  rw [codeOf, codeOf, same fun _ => rfl, same fun _ => rfl]

/-- Every sink is given the same pieces, between the same rules, and no sink changes how the source
is recognized. With the generated code as the sink this is compilation, and with one that drops
everything it is the check, so that these accept and refuse alike; the code consists of the pieces
that a sink has kept. -/
theorem recognition_independent_of_sink (source : String) :
    (∀ {σ τ : Type} (k : Sink σ) (l : Sink τ) (s : σ) (t : τ),
      let p := k.parse s source
      let q := l.parse t source
      p.history = q.history ∧ p.trace = q.trace ∧ p.names = q.names ∧ p.result = q.result ∧
        p.sink = p.history.foldl k.receive s ∧ q.sink = p.history.foldl l.receive t) ∧
    (compilation source =
      let p := Sink.output.parse .empty source
      p.result.map fun () => ⟨p.sink.text, p.trace⟩) ∧
    (check source =
      let p := Sink.discard.parse () source
      p.result.map fun () => p.trace) ∧
    check source = (compilation source).map Compilation.rules ∧
    (∀ d, check source = .error d ↔ compile source = .error d) ∧
    compile source =
      let p := Sink.recorder.parse [] source
      p.result.map fun () => codeOf p.sink := by
  refine ⟨fun k l s t => ?_, ?_, ?_, ?_, fun d => ?_, ?_⟩
  · simp [Sink.parse_eq, Parse.trace]
  · simp only [Sink.parse_eq, Sink.foldl_output]
    rfl
  · simp only [Sink.parse_eq]
    rfl
  · rw [check, compilation]
    cases (Recognition.ofSource source).result <;> rfl
  · rw [compile_eq_error_iff, check]
    cases (Recognition.ofSource source).result <;> simp [Except.map]
  · simp only [Sink.parse_eq, Sink.foldl_recorder, List.nil_append, codeOf_filter]
    rw [compile, compilation, Output.text_eq_codeOf]
    cases (Recognition.ofSource source).result <;> rfl

end MiniBasic
