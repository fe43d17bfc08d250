import MiniBasic.Proofs.Meetings
import MiniBasic.Proofs.StaticRules

/-!
# Names are tracked

The names that are known after some tokens are those of the identifiers in them, and the identifiers
may stand where they do (`Tracks`). An identifier behind one of the keywords that introduce names is
looked at one token later; until then it waits as the first goal. All other goals are `Plain`: they
leave the names alone, and they take an identifier only as an operand.
-/

namespace MiniBasic

/-- The names that are known when the identifiers `os` have been looked at, without a fault. -/
structure Tracks (os : List Occurrence) (names : Names) : Prop where
  vars (x : String) : x ∈ names.vars ↔ x ∈ introduced os
  labels (x : String) : x ∈ names.labels ↔ x ∈ placed os
  jumps (x : String) : x ∈ names.jumps.map (·.value) ↔ x ∈ targets os
  allowed : NamesAllowed os

theorem tracks_empty : Tracks [] .empty := by
  refine ⟨?_, ?_, ?_, namesAllowed_nil⟩ <;>
    simp [Names.empty, introduced, placed, targets]

/-! ## Looking at a name -/

namespace Names
variable {names names' : Names} {x : Located String} {e : Located NameError}

theorem introduce_eq_error_iff : names.introduce x = .error e ↔
    x.value ∈ targetKeywords ++ targetGlobals ∧ e = x.replace (.reservedName x.value) := by
  unfold introduce
  split
  next reserved =>
    have mem : x.value ∈ targetKeywords ++ targetGlobals := by simpa using reserved
    simp [mem, eq_comm]
  next free =>
    have not_mem : x.value ∉ targetKeywords ++ targetGlobals := by simpa using free
    split <;> simp [not_mem]

theorem introduce_ok {new : Bool} (h : names.introduce x = .ok (new, names')) :
    x.value ∉ targetKeywords ++ targetGlobals ∧ (new = true ↔ x.value ∉ names.vars) ∧
      (∀ y, y ∈ names'.vars ↔ y ∈ names.vars ∨ y = x.value) ∧
      names'.labels = names.labels ∧ names'.jumps = names.jumps := by
  unfold introduce at h
  split at h
  next => cases h
  next free =>
    refine ⟨by simpa using free, ?_⟩
    split at h <;> cases h
    next known =>
      have mem : x.value ∈ names.vars := by simpa [hasVariable] using known
      refine ⟨by simp [mem], fun y => ⟨.inl, ?_⟩, rfl, rfl⟩
      rintro (known | rfl)
      · exact known
      · exact mem
    next unknown =>
      exact ⟨by simpa [hasVariable] using unknown, fun y => by simp [or_comm], rfl, rfl⟩

theorem placeLabel_eq_error_iff : names.placeLabel x = .error e ↔
    x.value ∈ targetKeywords ∧ e = x.replace (.reservedName x.value) ∨
      x.value ∉ targetKeywords ∧ x.value ∈ names.labels ∧
        e = x.replace (.duplicateLabel x.value) := by
  unfold placeLabel
  split
  next reserved =>
    have mem : x.value ∈ targetKeywords := by simpa using reserved
    simp [mem, eq_comm]
  next free =>
    have not_mem : x.value ∉ targetKeywords := by simpa using free
    split
    next placed =>
      have mem : x.value ∈ names.labels := by simpa using placed
      simp [not_mem, mem, eq_comm]
    next new =>
      have new : x.value ∉ names.labels := by simpa using new
      simp [not_mem, new]

theorem placeLabel_ok (h : names.placeLabel x = .ok names') :
    x.value ∉ targetKeywords ∧ x.value ∉ names.labels ∧
      names' = { names with labels := x.value :: names.labels } := by
  unfold placeLabel at h
  split at h
  next => cases h
  next free =>
    split at h
    next => cases h
    next new =>
      cases h
      exact ⟨by simpa using free, by simpa using new, rfl⟩

theorem mem_jumps_jumpTo {y : String} :
    y ∈ (names.jumpTo x).jumps.map (·.value) ↔ y ∈ names.jumps.map (·.value) ∨ y = x.value := by
  unfold jumpTo
  split
  next known =>
    have mem : x.value ∈ names.jumps.map (·.value) := by simpa using known
    refine ⟨.inl, ?_⟩
    rintro (known | rfl)
    · exact known
    · exact mem
  next => simp

theorem vars_jumpTo : (names.jumpTo x).vars = names.vars := by
  unfold jumpTo
  split <;> rfl

theorem labels_jumpTo : (names.jumpTo x).labels = names.labels := by
  unfold jumpTo
  split <;> rfl

/-- A jump is only remembered if none to its label is. -/
theorem find?_jumps_jumpTo (names : Names) (x : Located String) (p : String → Bool) :
    (names.jumpTo x).jumps.find? (p ·.value) =
      (names.jumps.find? (p ·.value)).or ([x].find? (p ·.value)) := by
  unfold jumpTo
  split
  next known =>
    obtain ⟨y, mem, same⟩ := List.any_eq_true.mp known
    have same : y.value = x.value := by simpa using same
    cases found : names.jumps.find? (p ·.value) with
    | some z => rfl
    | none =>
      have not_y := List.find?_eq_none.mp found y mem
      rw [same] at not_y
      simp [not_y]
  next => exact List.find?_append

theorem checkJumps_eq_ok_iff :
    names.checkJumps = .ok () ↔ names.jumps.map (·.value) ⊆ names.labels := by
  unfold checkJumps
  split
  next jump found =>
    have missing := List.find?_some found
    simp only [reduceCtorEq, false_iff]
    intro placed
    have mem := placed (List.mem_map_of_mem (List.mem_of_find?_eq_some found))
    simp [mem] at missing
  next none =>
    rw [List.find?_eq_none] at none
    simpa [List.subset_def] using none

end Names

namespace Tracks
variable {os : List Occurrence} {o : Occurrence} {names names' : Names} {x : Located String}

/-- One more identifier, looked at without a fault. -/
theorem append_singleton (h : Tracks os names) (allowed : o.Allowed os)
    (vars : ∀ y, y ∈ names'.vars ↔ y ∈ names.vars ∨ y ∈ introduced [o])
    (labels : ∀ y, y ∈ names'.labels ↔ y ∈ names.labels ∨ y ∈ placed [o])
    (jumps : ∀ y, y ∈ names'.jumps.map (·.value) ↔
      y ∈ names.jumps.map (·.value) ∨ y ∈ targets [o]) : Tracks (os ++ [o]) names' where
  vars y := by rw [vars, h.vars, introduced_append, List.mem_append]
  labels y := by rw [labels, h.labels, placed_append, List.mem_append]
  jumps y := by rw [jumps, h.jumps, targets_append, List.mem_append]
  allowed := namesAllowed_append_singleton_iff.mpr ⟨h.allowed, allowed⟩

theorem introduce (h : Tracks os names) {use : NameUse} (variable_ : use = .assigned ∨ use = .input)
    {new : Bool} (ok : names.introduce x = .ok (new, names')) :
    Tracks (os ++ [⟨some use, x.value⟩]) names' := by
  obtain ⟨free, -, vars, labels, jumps⟩ := Names.introduce_ok ok
  rcases variable_ with rfl | rfl <;> refine h.append_singleton ⟨nofun, ?_, ?_, ?_⟩ ?_ ?_ ?_ <;>
    simp_all [introduced, placed, targets, Occurrence.introduced?, Occurrence.placed?,
      Occurrence.target?]

theorem placeLabel (h : Tracks os names) (ok : names.placeLabel x = .ok names') :
    Tracks (os ++ [⟨some .label, x.value⟩]) names' := by
  obtain ⟨free, new, rfl⟩ := Names.placeLabel_ok ok
  rw [h.labels] at new
  refine h.append_singleton ⟨nofun, ?_, ?_, ?_⟩ ?_ ?_ ?_ <;>
    simp_all [introduced, placed, targets, Occurrence.introduced?, Occurrence.placed?,
      Occurrence.target?, or_comm]

theorem jumpTo (h : Tracks os names) :
    Tracks (os ++ [⟨some .target, x.value⟩]) (names.jumpTo x) := by
  refine h.append_singleton ⟨nofun, ?_, ?_, ?_⟩ ?_ ?_ fun y => Names.mem_jumps_jumpTo.trans ?_ <;>
    simp [introduced, placed, targets, Occurrence.introduced?, Occurrence.placed?,
      Occurrence.target?, Names.vars_jumpTo, Names.labels_jumpTo]

theorem operand (h : Tracks os names) {name : String} (known : name ∈ names.vars) :
    Tracks (os ++ [⟨none, name⟩]) names := by
  refine h.append_singleton ⟨fun _ => (h.vars name).mp known, ?_, ?_, ?_⟩ ?_ ?_ ?_ <;>
    simp [introduced, placed, targets, Occurrence.introduced?, Occurrence.placed?,
      Occurrence.target?]

end Tracks

/-! ## Goals that look at names -/

/-- The goal that looks at a name. -/
def Goal.register : NameUse → Located String → Goal
  | .label => placeLabel
  | .target => jumpTo
  | .assigned | .input => introduce

theorem Tracks.register {os : List Occurrence} {names : Names} (h : Tracks os names) (use : NameUse)
    (x : Located String) (t : Located Token) :
    match (Goal.register use x).meet t names with
    | .pass _ names' => Tracks (os ++ [⟨some use, x.value⟩]) names'
    | .take _ _ => False
    | .fail _ _ => ¬NamesAllowed (os ++ [⟨some use, x.value⟩]) := by
  have not_allowed (h : ¬Occurrence.Allowed os ⟨some use, x.value⟩) :
      ¬NamesAllowed (os ++ [⟨some use, x.value⟩]) :=
    fun allowed => h (namesAllowed_append_singleton_iff.mp allowed).2
  cases use with
  | target => exact h.jumpTo
  | label =>
    cases outcome : names.placeLabel x with
    | ok names' => simpa [Goal.register, Goal.meet, outcome] using h.placeLabel outcome
    | error e =>
      simp only [Goal.register, Goal.meet, outcome]
      refine not_allowed fun allowed => ?_
      rcases Names.placeLabel_eq_error_iff.mp outcome with ⟨reserved, -⟩ | ⟨-, known, -⟩
      · exact allowed.placed_free x.value (by simp [placed, Occurrence.placed?]) reserved
      · exact allowed.placed_new x.value (by simp [placed, Occurrence.placed?])
          ((h.labels x.value).mp known)
  | assigned | input =>
    cases outcome : names.introduce x with
    | ok known =>
      obtain ⟨new, names'⟩ := known
      cases new <;> simp only [Goal.register, Goal.meet, outcome] <;>
        exact h.introduce (by simp) outcome
    | error e =>
      simp only [Goal.register, Goal.meet, outcome]
      refine not_allowed fun allowed => ?_
      exact allowed.introduced_free x.value (by simp [introduced, Occurrence.introduced?])
        (Names.introduce_eq_error_iff.mp outcome).1

end MiniBasic
