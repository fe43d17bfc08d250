import Mathlib.Data.List.Find
import Mathlib.Data.Set.Function
import Mathlib.Logic.Equiv.Basic
import MiniBasic.Diagnostic
import MiniBasic.Proofs.NamedEvents

/-!
# Renaming

The names of a program do not matter but for whether they are the same and whether C reserves them.
A `Renaming` takes names to names, keeps different ones apart and leaves the reserved ones alone.
Here it is said what it makes of tokens, of the known names and of what is reported, and that the
known names answer for the new names as they did for the old ones.
-/

namespace MiniBasic

/-- A choice of other names. What is a keyword or reserved in C stays as it is. -/
structure Renaming (r : String → String) : Prop where
  bijective : Set.BijOn r {name | IsWord name.toList} {name | IsWord name.toList}
  keyword (k : Keyword) : r k.spelling = k.spelling
  reserved : ∀ name ∈ targetKeywords ++ targetGlobals, r name = name

section
variable (r : String → String)

/-- The text of a token of this kind. Only identifiers are renamed. -/
def renamedText (kind : Kind) (text : String) : String := if kind = .ident then r text else text

def Token.rename (t : Token) : Token := { t with text := renamedText r t.kind t.text }

def Names.rename (s : Names) : Names := ⟨s.vars.map r, s.labels.map r, s.jumps.map (·.map r)⟩

def NameError.rename : NameError → NameError
  | duplicateLabel name => duplicateLabel (r name)
  | unknownLabel name => unknownLabel (r name)
  | undeclaredVariable name => undeclaredVariable (r name)
  | reservedName name => reservedName (r name)

/-- The error at a token of this kind, whose text it may quote. -/
def GrammarError.rename (kind : Kind) : GrammarError → GrammarError
  | expectedComparison text => expectedComparison (renamedText r kind text)
  | invalidStatement text found => invalidStatement (renamedText r kind text) found
  | unexpectedPrimary text => unexpectedPrimary (renamedText r kind text)
  | unexpectedToken expected found => unexpectedToken expected found
  | emptyBody closing => emptyBody closing

/-- The diagnostic at a token of this kind. -/
def Diagnostic.rename (kind : Kind) : Diagnostic → Diagnostic
  | scan e => scan e
  | grammar e => grammar (e.map (·.rename r kind))
  | names e => names (e.map (·.rename r))

end

/-! ## Names -/

theorem isWord_reserved : ∀ name ∈ targetKeywords ++ targetGlobals, IsWord name.toList := by
  decide

namespace Renaming
variable {r : String → String} {name : String} (renames : Renaming r)
include renames

theorem mem_map_iff {names : List String} (words : ∀ x ∈ names, IsWord x.toList)
    (word : IsWord name.toList) : r name ∈ names.map r ↔ name ∈ names := by
  refine ⟨fun mem => ?_, List.mem_map_of_mem⟩
  obtain ⟨x, mem, same⟩ := List.mem_map.mp mem
  rwa [← renames.bijective.injOn (words x mem) word same]

theorem contains_map {names : List String} (words : ∀ x ∈ names, IsWord x.toList)
    (word : IsWord name.toList) : (names.map r).contains (r name) = names.contains name := by
  rw [Bool.eq_iff_iff, List.contains_iff_mem, List.contains_iff_mem]
  exact renames.mem_map_iff words word

/-- Neither is a reserved word renamed nor does another name become one. -/
theorem contains_reserved {words : List String} (reserved : words ⊆ targetKeywords ++ targetGlobals)
    (word : IsWord name.toList) : words.contains (r name) = words.contains name := by
  have same : words.map r = words :=
    List.map_congr_left (fun x mem => renames.reserved x (reserved mem)) |>.trans (List.map_id _)
  have renamed := renames.contains_map (fun x mem => isWord_reserved x (reserved mem)) word
  rwa [same] at renamed

end Renaming

/-- Any two names may be exchanged, unless they are reserved. -/
theorem renaming_swap {name name' : String} (word : IsWord name.toList)
    (word' : IsWord name'.toList)
    (free : ∀ x ∈ Keyword.all.map Keyword.spelling ++ (targetKeywords ++ targetGlobals),
      x ≠ name ∧ x ≠ name') : Renaming (Equiv.swap name name') := by
  have fixed (x : String)
      (mem : x ∈ Keyword.all.map Keyword.spelling ++ (targetKeywords ++ targetGlobals)) :
      Equiv.swap name name' x = x :=
    Equiv.swap_apply_of_ne_of_ne (free x mem).1 (free x mem).2
  have maps : Set.MapsTo (Equiv.swap name name') {x | IsWord x.toList} {x | IsWord x.toList} := by
    intro x is_word
    rw [Equiv.swap_apply_def]
    split
    next => exact word'
    next =>
      split
      next => exact word
      next => exact is_word
  refine ⟨?_, fun k => fixed _ ?_, fun x mem => fixed x (List.mem_append_right _ mem)⟩
  · refine Set.InvOn.bijOn ⟨?_, ?_⟩ maps maps <;> exact fun x _ => Equiv.swap_apply_self ..
  · exact List.mem_append_left _ (List.mem_map_of_mem (by cases k <;> decide))

namespace Names

/-- All names are words. -/
structure Words (s : Names) : Prop where
  vars : ∀ x ∈ s.vars, IsWord x.toList
  labels : ∀ x ∈ s.labels, IsWord x.toList
  jumps : ∀ x ∈ s.jumps.map (·.value), IsWord x.toList

namespace Words
variable {s s' : Names} {x : Located String}

theorem empty : Names.empty.Words := ⟨nofun, nofun, nofun⟩

theorem introduce (words : s.Words) (word : IsWord x.value.toList) {new : Bool}
    (ok : s.introduce x = .ok (new, s')) : s'.Words := by
  obtain ⟨-, -, vars, labels, jumps⟩ := introduce_ok ok
  refine ⟨fun y mem => ?_, labels ▸ words.labels, jumps ▸ words.jumps⟩
  rcases (vars y).mp mem with known | rfl
  · exact words.vars y known
  · exact word

theorem placeLabel (words : s.Words) (word : IsWord x.value.toList)
    (ok : s.placeLabel x = .ok s') : s'.Words := by
  obtain ⟨-, -, rfl⟩ := placeLabel_ok ok
  exact ⟨words.vars, List.forall_mem_cons.mpr ⟨word, words.labels⟩, words.jumps⟩

theorem jumpTo (words : s.Words) (word : IsWord x.value.toList) : (s.jumpTo x).Words := by
  refine ⟨?_, ?_, fun y mem => ?_⟩
  · rw [vars_jumpTo]
    exact words.vars
  · rw [labels_jumpTo]
    exact words.labels
  · rcases mem_jumps_jumpTo.mp mem with known | rfl
    · exact words.jumps y known
    · exact word

end Words

theorem any_jumps (s : Names) (name : String) :
    s.jumps.any (·.value = name) = (s.jumps.map (·.value)).contains name := by
  rw [Bool.eq_iff_iff]
  simp

theorem map_value_jumps_rename (r : String → String) (s : Names) :
    (s.rename r).jumps.map (·.value) = (s.jumps.map (·.value)).map r := by
  simp [rename, Located.map]

section
variable {r : String → String} (renames : Renaming r) {s : Names} (words : s.Words)
  {x : Located String} (word : IsWord x.value.toList)
include renames words

theorem checkJumps_rename :
    (s.rename r).checkJumps = s.checkJumps.mapError (·.map (·.rename r)) := by
  have found : (s.rename r).jumps.find? (fun jump => !(s.rename r).labels.contains jump.value) =
      (s.jumps.find? fun jump => !s.labels.contains jump.value).map (·.map r) := by
    refine List.find?_map.trans (congrArg _ (List.find?_congr fun jump mem => ?_))
    have word := words.jumps jump.value (List.mem_map_of_mem mem)
    exact congrArg (!·) (renames.contains_map words.labels word)
  unfold checkJumps
  rw [found]
  cases s.jumps.find? fun jump => !s.labels.contains jump.value <;> rfl

include word

theorem hasVariable_rename : (s.rename r).hasVariable (x.map r).value = s.hasVariable x.value :=
  renames.contains_map words.vars word

theorem requireVariable_rename : (s.rename r).requireVariable (x.map r) =
    (s.requireVariable x).mapError (·.map (·.rename r)) := by
  unfold requireVariable
  rw [hasVariable_rename renames words word]
  split <;> rfl

theorem introduce_rename : (s.rename r).introduce (x.map r) =
    ((s.introduce x).map fun (new, names) => (new, names.rename r)).mapError
      (·.map (·.rename r)) := by
  have free : (targetKeywords ++ targetGlobals).contains (x.map r).value =
      (targetKeywords ++ targetGlobals).contains x.value :=
    renames.contains_reserved (List.Subset.refl _) word
  unfold introduce
  rw [free, hasVariable_rename renames words word]
  split
  next => rfl
  next => split <;> rfl

theorem placeLabel_rename : (s.rename r).placeLabel (x.map r) =
    ((s.placeLabel x).map (rename r)).mapError (·.map (·.rename r)) := by
  have free : targetKeywords.contains (x.map r).value = targetKeywords.contains x.value :=
    renames.contains_reserved (List.subset_append_left _ _) word
  have placed : (s.rename r).labels.contains (x.map r).value = s.labels.contains x.value :=
    renames.contains_map words.labels word
  unfold placeLabel
  rw [free, placed]
  split
  next => rfl
  next => split <;> rfl

theorem jumpTo_rename : (s.rename r).jumpTo (x.map r) = (s.jumpTo x).rename r := by
  have known : (s.rename r).jumps.any (·.value = (x.map r).value) =
      s.jumps.any (·.value = x.value) := by
    rw [any_jumps, any_jumps, map_value_jumps_rename]
    exact renames.contains_map words.jumps word
  unfold jumpTo
  rw [known]
  split
  next => rfl
  next => simp [rename]

end

end Names

end MiniBasic
