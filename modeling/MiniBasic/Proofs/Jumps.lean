import Mathlib.Data.List.Nodup
import MiniBasic.Proofs.MarkedLines

/-!
# Jumps have their labels

What has been written of labels and jumps is what has been read of them (`Emitted`): each line as
often as its statement, and of the jumps that are remembered, the first with a given property is the
first in the source. So the jumps of an accepted program have their labels, and of the jumps whose
label is missing the first is reported (`jumps_closed`).
-/

namespace MiniBasic

/-! ## What has been written -/

/-- The names that are jumped to, in their places, behind a token of kind `prev`. -/
def jumpsAfter (prev : Kind) : List (Located Token) → List (Located String)
  | [] => []
  | t :: ts =>
    if t.kind = .ident ∧ NameUse.after? prev = some .target then
      t.replace t.text :: jumpsAfter t.kind ts
    else jumpsAfter t.kind ts

def jumpsOf (ts : List (Located Token)) : List (Located String) := jumpsAfter .newline ts

theorem jumpsOf_append_singleton (ts : List (Located Token)) (t : Located Token) :
    jumpsOf (ts ++ [t]) = jumpsOf ts ++
      if t.kind = .ident ∧ NameUse.after? (lastKind .newline ts) = some .target then
        [t.replace t.text] else [] := by
  unfold jumpsOf
  generalize Kind.newline = prev
  induction ts generalizing prev with
  | nil => rfl
  | cons u ts ih =>
    simp only [List.cons_append, jumpsAfter, lastKind, ih]
    split <;> rfl

/-- The names that are jumped to are those that the static rules speak of. -/
theorem map_value_jumpsOf (ts : List (Located Token)) :
    (jumpsOf ts).map (·.value) = targets (occurrences ts) := by
  unfold jumpsOf occurrences
  generalize Kind.newline = prev
  induction ts generalizing prev with
  | nil => rfl
  | cons t ts ih =>
    rw [jumpsAfter, occurrencesAfter]
    by_cases ident : t.kind = .ident
    · by_cases jump : NameUse.after? prev = some .target
      · simp [ident, jump, ih, targets, Occurrence.target?, Located.replace]
      · simp [ident, jump, ih, targets, Occurrence.target?]
    · simp [ident, ih]

/-- What has been written of the labels and jumps in the tokens `past`, and what is remembered of
them. -/
structure Emitted (past : List (Located Token)) (told : List Event) (names : Names) : Prop where
  labels : ∀ name, IsWord name.toList →
    told.count (.label name) = (placed (occurrences past)).count name
  jumps : ∀ name, IsWord name.toList →
    told.count (.jump name) = (targets (occurrences past)).count name
  known : ∀ name, name ∈ names.labels ↔ name ∈ placed (occurrences past)
  first : ∀ p : String → Bool, names.jumps.find? (p ·.value) = (jumpsOf past).find? (p ·.value)

namespace Emitted
variable {past : List (Located Token)} {told events : List Event} {names names' : Names}
  {t u : Located Token} {use : NameUse}

theorem nil : Emitted [] [] .empty :=
  ⟨fun _ _ => rfl, fun _ _ => rfl, fun _ => Iff.rfl, fun _ => rfl⟩

theorem tell (h : Emitted past told names) (unmarked : ∀ e ∈ events, e.Unmarked) :
    Emitted past (told ++ events) names := by
  refine ⟨fun name word => ?_, fun name word => ?_, h.known, h.first⟩
  · have none : events.count (.label name) = 0 :=
      List.count_eq_zero.mpr fun mem => (unmarked _ mem name word).1 rfl
    rw [List.count_append, none, h.labels name word, Nat.add_zero]
  · have none : events.count (.jump name) = 0 :=
      List.count_eq_zero.mpr fun mem => (unmarked _ mem name word).2 rfl
    rw [List.count_append, none, h.jumps name word, Nat.add_zero]

/-- A token that is no name. -/
theorem other (h : Emitted past told names) (not_ident : t.kind ≠ .ident) :
    Emitted (past ++ [t]) told names := by
  have same : occurrences (past ++ [t]) = occurrences past := occurrences_append_other not_ident
  have no_jump : jumpsOf (past ++ [t]) = jumpsOf past := by
    rw [jumpsOf_append_singleton, if_neg fun jump => not_ident jump.1, List.append_nil]
  exact ⟨same ▸ h.labels, same ▸ h.jumps, same ▸ h.known, no_jump ▸ h.first⟩

/-- A name, with the events and the names that come of it. -/
theorem name (h : Emitted past told names) (ident : t.kind = .ident) {use : Option NameUse}
    (after : NameUse.after? (lastKind .newline past) = use)
    (labels : ∀ name, events.count (.label name) = (placed [⟨use, t.text⟩]).count name)
    (jumps : ∀ name, events.count (.jump name) = (targets [⟨use, t.text⟩]).count name)
    (known : ∀ name, name ∈ names'.labels ↔ name ∈ names.labels ∨ name ∈ placed [⟨use, t.text⟩])
    (first : ∀ p : String → Bool, names'.jumps.find? (p ·.value) =
      (names.jumps.find? (p ·.value)).or
        ((if use = some .target then [t.replace t.text] else []).find? (p ·.value))) :
    Emitted (past ++ [t]) (told ++ events) names' := by
  have append : occurrences (past ++ [t]) = _ := occurrences_append_ident ident
  rw [after] at append
  refine ⟨fun name word => ?_, fun name word => ?_, fun name => ?_, fun p => ?_⟩
  · rw [append, placed_append, List.count_append, List.count_append, h.labels name word, labels]
  · rw [append, targets_append, List.count_append, List.count_append, h.jumps name word, jumps]
  · rw [append, placed_append, List.mem_append, known, h.known]
  · rw [jumpsOf_append_singleton, after, List.find?_append, ← h.first, first]
    simp only [ident, true_and]

/-- A token that is no name to look at. -/
theorem take (h : Emitted past told names)
    (operand : t.kind = .ident → NameUse.after? (lastKind .newline past) = none) :
    Emitted (past ++ [t]) told names := by
  by_cases ident : t.kind = .ident
  · have emitted : Emitted (past ++ [t]) (told ++ []) names :=
      h.name ident (operand ident) (fun _ => rfl) (fun _ => rfl)
        (by simp [placed, Occurrence.placed?]) (by simp)
    rwa [List.append_nil] at emitted
  · exact h.other ident

variable (ident : t.kind = .ident) (after : NameUse.after? (lastKind .newline past) = some use)
include ident after

theorem placeLabel (h : Emitted past told names) (label : use = .label)
    (ok : names.placeLabel (t.replace t.text) = .ok names') :
    Emitted (past ++ [t]) (told ++ [.label t.text]) names' := by
  obtain ⟨-, -, rfl⟩ := Names.placeLabel_ok ok
  subst label
  refine h.name ident after (fun name => ?_) (fun name => ?_) (fun name => ?_) (by simp)
  · simp [placed, Occurrence.placed?, List.count_singleton, Event.label_injective.eq_iff]
  · simp [targets, List.filterMap_cons, Occurrence.target?, Event.label_ne_jump]
  · simp [placed, Occurrence.placed?, Located.replace, or_comm]

theorem jumpTo (h : Emitted past told names) (target : use = .target) :
    Emitted (past ++ [t]) (told ++ [.jump t.text]) (names.jumpTo (t.replace t.text)) := by
  subst target
  refine h.name ident after (fun name => ?_) (fun name => ?_) (fun name => ?_)
    (names.find?_jumps_jumpTo _)
  · simp [placed, List.filterMap_cons, Occurrence.placed?, Ne.symm (Event.label_ne_jump _ _)]
  · simp [targets, Occurrence.target?, List.count_singleton, Event.jump_injective.eq_iff]
  · simp [placed, Occurrence.placed?, Names.labels_jumpTo]

theorem introduce (h : Emitted past told names) (variable_ : use = .assigned ∨ use = .input)
    {new : Bool} (ok : names.introduce (t.replace t.text) = .ok (new, names')) :
    Emitted (past ++ [t]) told names' := by
  obtain ⟨-, -, -, labels_eq, jumps_eq⟩ := Names.introduce_ok ok
  have emitted : Emitted (past ++ [t]) (told ++ []) names' := by
    rcases variable_ with rfl | rfl <;>
      exact h.name ident after (fun _ => rfl) (fun _ => rfl)
        (by simp [labels_eq, placed, Occurrence.placed?]) (by simp [jumps_eq])
  rwa [List.append_nil] at emitted

/-- A name that was read last is looked at. -/
theorem register (h : Emitted past told names) {u : Located Token}
    (pass : (Goal.register use (t.replace t.text)).meet u names = .pass events names') :
    Emitted (past ++ [t]) (told ++ events) names' := by
  cases use with
  | target =>
    cases pass
    exact h.jumpTo ident after rfl
  | label =>
    simp only [Goal.register, Goal.meet] at pass
    split at pass
    next => cases pass
    next ok =>
      cases pass
      exact h.placeLabel ident after rfl ok
  | assigned | input =>
    simp only [Goal.register, Goal.meet] at pass
    split at pass
    next => cases pass
    next ok =>
      cases pass
      exact (h.introduce ident after (by simp) ok).tell (List.forall_mem_nil _)
    next ok =>
      cases pass
      exact (h.introduce ident after (by simp) ok).tell
        (List.forall_mem_singleton.mpr (Event.unmarked_header _))

end Emitted

/-! ## A whole pass -/

/-- What has been written of the labels and jumps in the tokens `past`, except for a name that was
read last and that the first goal looks at. -/
inductive Follows : List (Located Token) → List Event → List Goal → Names → Prop
  | known {past : List (Located Token)} {told : List Event} {front : List Goal} {names : Names}
    (leaves : Leaves (lastKind .newline past) front) (unmarked : ∀ g ∈ front, g.Unmarked)
    (emitted : Emitted past told names) : Follows past told (front ++ Goal.ending) names
  | waiting {past : List (Located Token)} {told : List Event} {t : Located Token} {use : NameUse}
    {front : List Goal} {names : Names} (ident : t.kind = .ident)
    (after : NameUse.after? (lastKind .newline past) = some use) (plain : ∀ g ∈ front, g.Plain)
    (unmarked : ∀ g ∈ front, g.Unmarked) (emitted : Emitted past told names) :
    Follows (past ++ [t]) told (.register use (t.replace t.text) :: (front ++ Goal.ending)) names

section
variable {past : List (Located Token)} {told events : List Event} {front goals goals' : List Goal}
  {names names' : Names} {t : Located Token}

theorem follows_program : Follows [] [] Goal.program .empty := by
  have front : ∀ g ∈ Goal.program.take 4, g.Plain := by simp [Goal.program, Goal.Plain, Goal.line]
  exact .known (.plain rfl front) Goal.unmarked_program .nil

theorem Goal.Plain.ne_name {goal : Goal} (h : goal.Plain) (use : NameUse) : goal ≠ .name use := by
  rintro rfl
  exact h

/-- What a step comes to, behind the tokens `past`. -/
def Step.Follows (past : List (Located Token)) (told : List Event) (t : Located Token) (s : Step) :
    Prop :=
  match s.outcome with
  | .consumed goals => MiniBasic.Follows (past ++ [t]) (told ++ s.events) goals s.names
  | .finished => ∃ names, Emitted past (told ++ s.events) names
  | .failed (.names e) => t.kind = .eof → ∀ name, e.value = .unknownLabel name →
    ∃ names, Emitted past (told ++ s.events) names ∧ names.checkJumps = .error e
  | .failed _ => True

theorem Emitted.step_plain (emitted : Emitted past told names)
    (after : NameUse.after? (lastKind .newline past) = none) (plain : ∀ g ∈ front, g.Plain)
    (unmarked : ∀ g ∈ front, g.Unmarked) (t : Located Token) :
    (step t (front ++ Goal.ending) names).Follows past told t := by
  have not_name : ∀ g ∈ front ++ Goal.ending, ∀ use, g ≠ .name use :=
    List.forall_mem_append.mpr
      ⟨fun g mem => (plain g mem).ne_name, by simp [Goal.ending, Goal.line]⟩
  have all_unmarked : ∀ g ∈ front ++ Goal.ending, g.Unmarked :=
    List.forall_mem_append.mpr ⟨unmarked, Goal.unmarked_ending⟩
  obtain ⟨events_unmarked, kept⟩ := step_unmarked all_unmarked not_name t names
  have accurate := step_accurate_plain plain t names
  have plain := MiniBasic.step_plain plain t names
  rcases outcome : (step t (front ++ Goal.ending) names).outcome with goals | _ | (e | e | e) <;>
    simp only [Step.Plain, outcome] at plain <;> simp only [Step.Follows, outcome]
  case consumed =>
    obtain ⟨names_eq, -, front', rfl, leaves⟩ := plain
    rw [names_eq]
    refine .known (by simpa using leaves) ?_ ((emitted.take fun _ => after).tell events_unmarked)
    exact fun g mem => kept _ outcome g (List.mem_append_left _ mem)
  case finished => exact ⟨names, emitted.tell events_unmarked⟩
  case failed.names =>
    intro eof name unknown
    rcases accurate _ outcome with ⟨-, ident, -⟩ | ⟨-, error⟩
    · rw [eof] at ident
      cases ident
    · exact ⟨names, emitted.tell events_unmarked, error⟩

/-- A name that was read last is looked at without a token, and not refused for being missing. -/
theorem Goal.meet_register (use : NameUse) (x : Located String) (u : Located Token)
    (names : Names) : (∃ events names', (register use x).meet u names = .pass events names') ∨
      ∃ e, (register use x).meet u names = .fail [] (.names e) ∧
        ∀ name, e.value ≠ .unknownLabel name := by
  cases use with
  | target => exact .inl ⟨_, _, rfl⟩
  | label =>
    cases outcome : names.placeLabel x with
    | ok names' => exact .inl ⟨_, _, by simp only [register, meet, outcome]; rfl⟩
    | error e =>
      refine .inr ⟨e, by simp only [register, meet, outcome], ?_⟩
      rcases Names.placeLabel_eq_error_iff.mp outcome with ⟨-, rfl⟩ | ⟨-, -, rfl⟩ <;>
        simp [Located.replace]
  | assigned | input =>
    cases outcome : names.introduce x with
    | ok known =>
      obtain ⟨new, names'⟩ := known
      cases new <;> exact .inl ⟨_, _, by simp only [register, meet, outcome]; rfl⟩
    | error e =>
      refine .inr ⟨e, by simp only [register, meet, outcome], ?_⟩
      obtain ⟨-, rfl⟩ := Names.introduce_eq_error_iff.mp outcome
      simp [Located.replace]

/-- Events in front of a step. -/
theorem Step.Follows.after {s : Step} (h : s.Follows past (told ++ events) t) :
    Step.Follows past told t { s with events := events ++ s.events } := by
  unfold Step.Follows at h ⊢
  simpa only [List.append_assoc] using h

theorem step_follows (h : Follows past told goals names) (t : Located Token) :
    (step t goals names).Follows past told t := by
  cases h with
  | known leaves unmarked emitted =>
    cases leaves with
    | plain after plain => exact emitted.step_plain after plain unmarked t
    | @name use front after plain =>
      obtain ⟨-, unmarked⟩ := List.forall_mem_cons.mp unmarked
      rw [List.cons_append]
      by_cases ident : t.kind = .ident
      · have take : (Goal.name use).meet t names =
            .take [] (Goal.ofName use (t.replace t.text)) := if_pos ident
        obtain ⟨parts, parts_eq, parts_plain⟩ := plain_ofName use (t.replace t.text)
        have parts_unmarked := Goal.unmarked_ofName use (t.replace t.text)
        rw [parts_eq, List.tail_cons] at parts_unmarked
        rw [step_of_take take, parts_eq, List.cons_append, ← List.append_assoc]
        simp only [Step.Follows, List.append_nil]
        exact .waiting ident after (List.forall_mem_append.mpr ⟨parts_plain, plain⟩)
          (List.forall_mem_append.mpr ⟨parts_unmarked, unmarked⟩) emitted
      · have fail : (Goal.name use).meet t names =
            .refuse [] t (.unexpectedToken .ident t.kind) := if_neg ident
        rw [step_of_fail fail]
        trivial
  | @waiting past _ u use front _ ident after plain unmarked emitted =>
    rcases Goal.meet_register use (u.replace u.text) t names with
      ⟨events, names', pass⟩ | ⟨e, fail, refused⟩
    · have registered := emitted.register ident after pass
      rw [step_of_pass pass]
      exact (registered.step_plain (by simp [ident, NameUse.after?]) plain unmarked t).after
    · rw [step_of_fail fail]
      exact fun _ name unknown => absurd unknown (refused name)

theorem Follows.take (h : Follows past told goals names)
    (taken : step t goals names = ⟨events, names', .consumed goals'⟩) :
    Follows (past ++ [t]) (told ++ events) goals' names' := by
  have follows := step_follows h t
  rwa [taken] at follows

end

/-- What a whole pass comes to, of which the last step is at the token behind `past`. -/
theorem Pass.follows (stop : Location) (ts : List (Located Token)) :
    let p := ofTokens stop ts
    ∃ past rest, ts = past ++ rest ∧ past.length = p.taken.length ∧
      Step.Follows past p.taken.flatten (rest.headD (endToken stop))
        ⟨p.pending, p.names, lastOutcome p.result⟩ := by
  intro p
  obtain ⟨past, rest, goals, names, rfl, takes, last⟩ :=
    exists_takes stop ts Goal.program .empty
  have follows : Follows past p.taken.flatten goals names :=
    takes.preserves_events Follows follows_program .take
  refine ⟨past, rest, rfl, takes.length_eq.symm, ?_⟩
  rw [show p = run stop (past ++ rest) Goal.program .empty from rfl, ← last]
  exact step_follows follows _

theorem Pass.emitted_of_ok {stop : Location} {ts : List (Located Token)}
    (ne_eof : ∀ t ∈ ts, t.kind ≠ .eof) (ok : (ofTokens stop ts).result = .ok ()) :
    ∃ names, Emitted ts (ofTokens stop ts).events names := by
  obtain ⟨past, rest, split, length, follows⟩ := follows stop ts
  have all_taken := length_taken_of_ok stop ne_eof ok
  have lengths := congrArg List.length split
  rw [List.length_append] at lengths
  obtain rfl : rest = [] := List.length_eq_zero_iff.mp (by omega)
  rw [List.append_nil] at split
  rw [ok, ← split] at follows
  exact follows

/-! ## Missing labels -/

section
variable {ts before : List (Located Token)} {use : Option NameUse} {x : Located String}

theorem IdentifierAt.occurrences_eq (h : IdentifierAt ts before use x) :
    ∃ os, occurrences ts = occurrences before ++ ⟨use, x.value⟩ :: os := by
  obtain ⟨t, after, rfl, ident, rfl, rfl⟩ := h
  refine ⟨occurrencesAfter t.kind after, ?_⟩
  rw [occurrences_append, occurrencesAfter, if_pos ident]
  rfl

/-- Where every name may stand, nothing but the label of a jump can be missing. -/
theorem NameError.Accurate.exists_unknownLabel {complete : Prop} {l : Location} {e : NameError}
    (h : e.Accurate ts complete l) (allowed : NamesAllowed (occurrences ts)) :
    (∃ name, e = .unknownLabel name) ∧ complete := by
  cases e with
  | unknownLabel name =>
    obtain ⟨before, here, complete, missing⟩ := h
    exact ⟨⟨name, rfl⟩, complete⟩
  | duplicateLabel name =>
    obtain ⟨before, here, known⟩ := h
    obtain ⟨os, split⟩ := here.occurrences_eq
    have nodup := allowed.placed_nodup
    rw [split, placed_append] at nodup
    exact absurd rfl ((List.nodup_append.mp nodup).2.2 name known name List.mem_cons_self)
  | undeclaredVariable name =>
    obtain ⟨before, here, unknown⟩ := h
    obtain ⟨os, split⟩ := here.occurrences_eq
    exact absurd (allowed.operands_introduced _ name os split) unknown
  | reservedName name =>
    obtain ⟨before, use, here, reserved⟩ := h
    obtain ⟨os, split⟩ := here.occurrences_eq
    cases use with
    | label =>
      have mem : name ∈ placed (occurrences ts) := by
        rw [split, placed_append]
        exact List.mem_append_right _ List.mem_cons_self
      exact absurd reserved (allowed.placed_free name mem)
    | assigned | input =>
      have mem : name ∈ introduced (occurrences ts) := by
        rw [split, introduced_append]
        exact List.mem_append_right _ List.mem_cons_self
      exact absurd reserved (allowed.introduced_free name mem)
    | target => exact reserved.elim

/-- The first of the jumps in the source whose label is missing. -/
theorem Emitted.exists_first_missing {told : List Event} {names : Names} {e : Located NameError}
    (h : Emitted ts told names) (error : names.checkJumps = .error e) :
    ∃ front x back, jumpsOf ts = front ++ x :: back ∧
      (∀ y ∈ front, y.value ∈ placed (occurrences ts)) ∧ x.value ∉ placed (occurrences ts) ∧
      e = x.replace (.unknownLabel x.value) := by
  unfold Names.checkJumps at error
  split at error
  next jump found =>
    cases error
    rw [h.first (fun name => !names.labels.contains name)] at found
    obtain ⟨missing, front, back, split, others⟩ := List.find?_eq_some_iff_append.mp found
    refine ⟨front, jump, back, split, fun y mem => ?_, ?_, rfl⟩
    · simpa [h.known] using others y mem
    · simpa [h.known] using missing
  next => cases error

/-- Where the rules for names are observed, no label is written twice, and one that is jumped to is
written. -/
theorem Emitted.closed {told : List Event} {names : Names} (h : Emitted ts told names)
    (rules : StaticRules (occurrences ts)) {name : String} (word : IsWord name.toList) :
    told.count (.label name) ≤ 1 ∧ (.jump name ∈ told → told.count (.label name) = 1) := by
  rw [h.labels name word]
  refine ⟨List.nodup_iff_count_le_one.mp rules.placed_nodup name, fun jumped => ?_⟩
  have target : name ∈ targets (occurrences ts) := by
    rw [← List.count_pos_iff, ← h.jumps name word]
    exact List.count_pos_iff.mpr jumped
  exact List.count_eq_one_of_mem rules.placed_nodup (rules.targets_placed target)

/-- A program that is otherwise in order is refused for the first jump whose label is missing. -/
theorem Pass.exists_first_missing (stop : Location) (ne_eof : ∀ t ∈ ts, t.kind ≠ .eof)
    (program : IsProgram ts) (allowed : NamesAllowed (occurrences ts))
    (missing : ¬targets (occurrences ts) ⊆ placed (occurrences ts)) :
    ∃ front x back, jumpsOf ts = front ++ x :: back ∧
      (∀ y ∈ front, y.value ∈ placed (occurrences ts)) ∧ x.value ∉ placed (occurrences ts) ∧
      (ofTokens stop ts).result = .error (.names (x.replace (.unknownLabel x.value))) := by
  cases result : (ofTokens stop ts).result with
  | ok => exact absurd ((result_eq_ok_iff stop ne_eof).mp result).2.targets_placed missing
  | error d =>
    have verdict := verdict stop ne_eof
    obtain ⟨past, rest, split, length, accurate⟩ := accurateAt ne_eof result
    obtain ⟨past', rest', split', length', follows⟩ := Pass.follows stop ts
    obtain ⟨rfl, rfl⟩ := List.append_inj (split.symm.trans split') (length.trans length'.symm)
    rw [result] at verdict follows
    cases d with
    | scan e => exact accurate.elim
    | grammar e =>
      obtain ⟨k, misplaced, -⟩ := verdict
      exact absurd program misplaced.not_isProgram
    | names e =>
      have accurate : e.value.Accurate (past ++ rest) (rest = []) e.location := accurate
      rw [← split] at accurate
      obtain ⟨⟨name, unknown⟩, rfl⟩ := accurate.exists_unknownLabel allowed
      obtain ⟨names, emitted, error⟩ := follows rfl name unknown
      rw [List.append_nil] at split
      rw [← split] at emitted
      obtain ⟨front, x, back, jumps_eq, others, first, rfl⟩ := emitted.exists_first_missing error
      exact ⟨front, x, back, jumps_eq, others, first, rfl⟩

end

/-- In an accepted program a label is placed and jumped to by as many lines as statements. No label
is placed twice, and one that is jumped to is placed. Of a program that is otherwise in order, the
first jump to a label that is not placed is reported. -/
theorem jumps_closed {source : String} {ts : List (Located Token)} (h : tokensOf source = .ok ts) :
    ((∃ code, compile source = .ok code) → ∀ name, IsWord name.toList →
      let events := (Recognition.ofSource source).events
      events.count (.label name) = (placed (occurrences ts)).count name ∧
      events.count (.jump name) = (targets (occurrences ts)).count name ∧
      events.count (.label name) ≤ 1 ∧
      (.jump name ∈ events → events.count (.label name) = 1)) ∧
    (IsProgram ts → NamesAllowed (occurrences ts) →
      ¬targets (occurrences ts) ⊆ placed (occurrences ts) →
      ∃ front x back, jumpsOf ts = front ++ x :: back ∧
        (∀ y ∈ front, y.value ∈ placed (occurrences ts)) ∧ x.value ∉ placed (occurrences ts) ∧
        compile source = .error (.names (x.replace (.unknownLabel x.value)))) := by
  have ne_eof := (reads_of_tokensOf_ok h).ne_eof
  have same := compile_eq_error_iff_ofTokens h
  constructor
  · rintro ⟨code, compiled⟩ name word events
    have ok : (Pass.ofTokens (endLocation source) ts).result = .ok () := by
      cases result : (Pass.ofTokens (endLocation source) ts).result with
      | ok => rfl
      | error d => simp [(same d).mpr result] at compiled
    obtain ⟨names, emitted⟩ := Pass.emitted_of_ok ne_eof ok
    have events_eq : events = (Pass.ofTokens (endLocation source) ts).events :=
      congrArg Recognition.events (Recognition.ofSource_of_tokensOf_ok h)
    rw [← events_eq] at emitted
    have rules := ((Pass.result_eq_ok_iff (endLocation source) ne_eof).mp ok).2
    exact ⟨emitted.labels name word, emitted.jumps name word, emitted.closed rules word⟩
  · intro program allowed missing
    obtain ⟨front, x, back, split, others, first, error⟩ :=
      Pass.exists_first_missing (endLocation source) ne_eof program allowed missing
    exact ⟨front, x, back, split, others, first, (same _).mpr error⟩

/-- A jump may come before its label. Of two labels that are missing, the one that is jumped to
first is reported, though the other one comes first in the alphabet. -/
theorem jump_to_missing_label :
    let source := "LABEL c\nGOTO c\nGOTO b\nGOTO a\nGOTO b"
    (Recognition.ofSource "GOTO a\nLABEL a").events.count (.label "a") = 1 ∧
    compile source = .error (.names ⟨⟨3, 6⟩, .unknownLabel "b"⟩) ∧
    ∃ front back, jumpsOf (leadingTokens source) = front ++ ⟨⟨3, 6⟩, "b"⟩ :: back ∧
      ∀ y ∈ front, y.value ∈ placed (occurrences (leadingTokens source)) := by
  intro source
  have scanned : tokensOf "GOTO a\nLABEL a" = .ok (leadingTokens "GOTO a\nLABEL a") := by
    decide +kernel
  have accepted : ∃ code, compile "GOTO a\nLABEL a" = .ok code :=
    ⟨"#include <stdio.h>\nint main(void)\x7b\ngoto a;\na:\nreturn 0;\n\x7d\n", by decide +kernel⟩
  have jumped : .jump "a" ∈ (Recognition.ofSource "GOTO a\nLABEL a").events := by decide +kernel
  have word : IsWord "a".toList := by decide
  refine ⟨((jumps_closed scanned).1 accepted "a" word).2.2.2 jumped, ?_⟩
  have scanned' : tokensOf source = .ok (leadingTokens source) := by decide +kernel
  have refused : compile source = .error (.names ⟨⟨3, 6⟩, .unknownLabel "b"⟩) := by decide +kernel
  have program : IsProgram (leadingTokens source) := by
    -- With one name only, the same kinds of tokens are accepted.
    have accepted : (Pass.ofTokens .start
        ((leadingTokens source).map fun t => { t with value.text := "c" })).result = .ok () := by
      decide +kernel
    have derived := ((Pass.result_eq_ok_iff .start (by decide +kernel)).mp accepted).1
    rwa [IsProgram, List.map_map] at derived
  have occurrences_eq : occurrences (leadingTokens source) =
      [⟨some .label, "c"⟩, ⟨some .target, "c"⟩, ⟨some .target, "b"⟩, ⟨some .target, "a"⟩,
        ⟨some .target, "b"⟩] := by decide +kernel
  have names : NamesAllowed (occurrences (leadingTokens source)) := by
    rw [occurrences_eq]
    refine ⟨fun before name after eq => ?_, by decide, by decide, by decide⟩
    have mem : (⟨none, name⟩ : Occurrence) ∈ before ++ ⟨none, name⟩ :: after := by simp
    rw [← eq] at mem
    simp at mem
  obtain ⟨front, x, back, split, others, -, reported⟩ :=
    (jumps_closed scanned').2 program names (by decide +kernel)
  rw [refused] at reported
  obtain ⟨location, value⟩ := x
  simp only [Located.replace, Except.error.injEq, Diagnostic.names.injEq, Located.mk.injEq,
    NameError.unknownLabel.injEq] at reported
  obtain ⟨rfl, rfl⟩ := reported
  exact ⟨refused, front, back, split, others⟩

end MiniBasic
