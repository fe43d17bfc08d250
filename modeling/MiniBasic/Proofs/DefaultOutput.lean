import MiniBasic.Command
import MiniBasic.Proofs.FileNames

/-!
# Default outputs

The default output is meant to be named by the stem of its input. It is made from that stem by
another change of extension, so a stem that looks like a name with an extension is cut once more:
`a.tar.gz` and `a.zip.gz` both go to `a.c`, while the code that a suite expects of them stands in
`a.tar.c` and `a.zip.c`. The outputs that are named by the stem are those of inputs whose stem has
no extension and is neither `.` nor `..` (`defaultOutput_by_stem_iff`).
-/

namespace MiniBasic

namespace Path

variable {path name s : String}

/-! ## Names of files -/

/-- The name may be that of a file. -/
structure IsFileName (name : String) : Prop where
  ne_empty : name ≠ ""
  ne_here : name ≠ "."
  ne_up : name ≠ ".."
  no_slash : '/' ∉ name.toList

theorem not_mem_of_mem_splitSlashes (cs : List Char) :
    ∀ piece ∈ splitSlashes cs, '/' ∉ piece := by
  induction cs with
  | nil => simp [splitSlashes]
  | cons c cs ih =>
    by_cases slash : c = '/'
    · subst slash
      exact List.forall_mem_cons.mpr ⟨List.not_mem_nil, ih⟩
    · obtain ⟨piece, pieces, eq, cons_eq⟩ := exists_splitSlashes_cons slash cs
      rw [eq, List.forall_mem_cons] at ih
      rw [cons_eq, List.forall_mem_cons, List.mem_cons, not_or]
      exact ⟨⟨Ne.symm slash, ih.1⟩, ih.2⟩

theorem isFileName_of_fileName? (h : fileName? path = some name) : IsFileName name := by
  unfold fileName? at h
  split at h
  next last last_eq =>
    split_ifs at h with up
    obtain rfl : last = name := Option.some.inj h
    obtain ⟨mem, leads⟩ := List.mem_filter.mp (List.mem_of_getLast? last_eq)
    obtain ⟨ne_empty, ne_here⟩ := of_decide_eq_true leads
    obtain ⟨piece, piece_mem, rfl⟩ := List.mem_map.mp mem
    refine ⟨ne_empty, ne_here, up, ?_⟩
    rw [String.toList_ofList]
    exact not_mem_of_mem_splitSlashes path.toList piece piece_mem
  next => cases h

theorem pieces_of_no_slash (no_slash : '/' ∉ name.toList) : pieces name = [name] := by
  simp [pieces, splitSlashes_of_not_mem no_slash]

theorem IsFileName.fileName? (h : IsFileName name) : fileName? name = some name := by
  simp [Path.fileName?, steps, pieces_of_no_slash h.no_slash, h.ne_empty, h.ne_here, h.ne_up]

/-- An extension makes a name that is no directory's. -/
theorem isFileName_append {extension : String} (ne_empty : s ≠ "") (no_slash : '/' ∉ s.toList)
    (extension_ne : extension ≠ "") (extension_no_slash : '/' ∉ extension.toList) :
    IsFileName (s ++ "." ++ extension) := by
  have length : 3 ≤ (s ++ "." ++ extension).length := by
    have := Nat.pos_of_ne_zero (mt String.length_eq_zero_iff.mp ne_empty)
    have := Nat.pos_of_ne_zero (mt String.length_eq_zero_iff.mp extension_ne)
    have point : ".".length = 1 := rfl
    simp only [String.length_append, point]
    omega
  refine ⟨fun same => ?_, fun same => ?_, fun same => ?_, ?_⟩
  · exact absurd (same ▸ length) (by decide)
  · exact absurd (same ▸ length) (by decide)
  · exact absurd (same ▸ length) (by decide)
  · simp [no_slash, extension_no_slash]

/-! ## Other extensions -/

theorem stem_append {extension : String} (ne_empty : s ≠ "") (no_point : '.' ∉ extension.toList)
    (not_up : s ++ "." ++ extension ≠ "..") : stem (s ++ "." ++ extension) = s := by
  rw [stem, splitName_append ne_empty no_point not_up]

theorem extension?_eq_none_iff : extension? name = none ↔ stem name = name := by
  constructor
  · intro none_
    unfold extension? at none_
    unfold stem
    revert none_
    fun_cases splitName name with
    | case2 =>
      intro eq
      cases eq
    | case1 | case3 => exact fun _ => rfl
  · intro same
    rw [Option.eq_none_iff_forall_ne_some]
    intro extension extended
    obtain ⟨front, rfl, front_ne, no_point, not_up⟩ := extension_eq_some_iff.mp extended
    rw [stem_append front_ne no_point not_up] at same
    have length := congrArg String.length same
    have point : ".".length = 1 := rfl
    simp only [String.length_append, point] at length
    omega

/-- The name has no extension to be cut off, and is not that of a directory. -/
structure IsBare (name : String) : Prop where
  no_extension : extension? name = none
  ne_here : name ≠ "."
  ne_up : name ≠ ".."

/-- Without its extension the name is that of a directory. -/
def IsLost (name : String) : Prop := name = ".." ∨ stem name = "."

theorem isBare_iff : IsBare name ↔ stem name = name ∧ ¬IsLost name := by
  constructor
  · rintro ⟨no_extension, ne_here, ne_up⟩
    have same := extension?_eq_none_iff.mp no_extension
    exact ⟨same, not_or.mpr ⟨ne_up, by rwa [same]⟩⟩
  · rintro ⟨same, not_lost⟩
    obtain ⟨ne_up, ne_here⟩ := not_or.mp not_lost
    rw [same] at ne_here
    exact ⟨extension?_eq_none_iff.mpr same, ne_here, ne_up⟩

/-- The stem of a name stands at its front. -/
theorem exists_eq_stem_append (ne_empty : name ≠ "") :
    stem name ≠ "" ∧ ∃ more, name = stem name ++ more := by
  cases old_eq : extension? name with
  | none =>
    rw [extension?_eq_none_iff.mp old_eq]
    exact ⟨ne_empty, "", by simp⟩
  | some old =>
    obtain ⟨front, rfl, front_ne, no_point, not_up⟩ := extension_eq_some_iff.mp old_eq
    rw [stem_append front_ne no_point not_up]
    exact ⟨front_ne, "." ++ old, String.append_assoc⟩

theorem withExtension_of_not_lost (not_lost : ¬IsLost s) (extension : String) :
    withExtension s extension = stem s ++ "." ++ extension := by
  obtain ⟨ne_up, ne_here⟩ := not_or.mp not_lost
  cases old_eq : extension? s with
  | none =>
    have same := extension?_eq_none_iff.mp old_eq
    rw [same] at ne_here
    simp [withExtension, old_eq, same, ne_here, ne_up]
  | some old =>
    obtain ⟨front, rfl, front_ne, no_point, not_up⟩ := extension_eq_some_iff.mp old_eq
    rw [stem_append front_ne no_point not_up] at ne_here ⊢
    rw [withExtension_append front_ne no_point not_up, if_neg ne_here]

/-- Another extension does not make a file of it. -/
theorem withExtension_of_lost (lost : IsLost s) (extension : String) :
    withExtension s extension = if s = "." then "." else ".." := by
  cases old_eq : extension? s with
  | none =>
    have same := extension?_eq_none_iff.mp old_eq
    rw [IsLost, same] at lost
    rcases lost with rfl | rfl <;> rfl
  | some old =>
    obtain ⟨front, rfl, front_ne, no_point, not_up⟩ := extension_eq_some_iff.mp old_eq
    rw [IsLost, stem_append front_ne no_point not_up] at lost
    have not_here : front ++ "." ++ old ≠ "." := fun here => by
      rw [here] at old_eq
      cases old_eq
    rw [withExtension_append front_ne no_point not_up, if_pos (lost.resolve_left not_up),
      if_neg not_here]

section
variable {extension : String} (ne_empty : s ≠ "") (no_slash : '/' ∉ s.toList)
  (extension_ne : extension ≠ "") (extension_no_slash : '/' ∉ extension.toList)
include ne_empty no_slash extension_ne extension_no_slash

theorem isFileName_withExtension_iff : IsFileName (withExtension s extension) ↔ ¬IsLost s := by
  by_cases lost : IsLost s
  · refine iff_of_false (fun isFileName => ?_) (not_not_intro lost)
    rw [withExtension_of_lost lost] at isFileName
    split_ifs at isFileName with here
    · exact isFileName.ne_here rfl
    · exact isFileName.ne_up rfl
  · refine iff_of_true ?_ lost
    obtain ⟨stem_ne, more, s_eq⟩ := exists_eq_stem_append ne_empty
    rw [s_eq, String.toList_append, List.mem_append, not_or] at no_slash
    rw [withExtension_of_not_lost lost]
    exact isFileName_append stem_ne no_slash.1 extension_ne extension_no_slash

theorem withExtension_eq_append_iff :
    withExtension s extension = s ++ "." ++ extension ↔ IsBare s := by
  rw [isBare_iff]
  constructor
  · intro same
    have isFileName := isFileName_append ne_empty no_slash extension_ne extension_no_slash
    rw [← same, isFileName_withExtension_iff ne_empty no_slash extension_ne extension_no_slash]
      at isFileName
    rw [withExtension_of_not_lost isFileName] at same
    exact ⟨by simpa using same, isFileName⟩
  · rintro ⟨same, not_lost⟩
    rw [withExtension_of_not_lost not_lost, same]

end

/-- The stem of a file and the file itself become the same with another extension if there is only
one extension to cut off. -/
theorem withExtension_stem_eq_iff (isFileName : IsFileName name) {extension : String}
    (extension_ne : extension ≠ "") (extension_no_slash : '/' ∉ extension.toList) :
    withExtension (stem name) extension = withExtension name extension ↔ IsBare (stem name) := by
  obtain ⟨stem_ne, more, name_eq⟩ := exists_eq_stem_append isFileName.ne_empty
  have no_slash := isFileName.no_slash
  rw [name_eq, String.toList_append, List.mem_append, not_or] at no_slash
  by_cases lost : IsLost name
  · have here : stem name = "." := lost.resolve_left isFileName.ne_up
    rw [withExtension_of_lost lost, if_neg isFileName.ne_here, here]
    refine iff_of_false ?_ fun bare => bare.ne_here rfl
    rw [withExtension_of_lost (.inr rfl), if_pos rfl]
    decide
  · rw [withExtension_of_not_lost lost,
      withExtension_eq_append_iff stem_ne no_slash.1 extension_ne extension_no_slash]

end Path

section
variable {path name : String}

theorem defaultOutput_of_fileName? (named : Path.fileName? path = some name) :
    defaultOutput path = .ok (Path.withExtension (Path.stem name) "c") := by
  rw [defaultOutput, named]

/-- The default output of a file is a name in the working directory. It is the stem of the file with
the extension behind it, and the name of the file that a suite looks for beside the input, if and
only if the stem has no extension itself and is not the name of a directory. It may be no file at
all. If it is one, it goes by the stem of the stem, and so do the default outputs of other files. -/
theorem defaultOutput_by_stem_iff (named : Path.fileName? path = some name) :
    ∃ output, defaultOutput path = .ok output ∧ Path.pieces output = [output] ∧
      (output = Path.stem name ++ ".c" ↔ Path.IsBare (Path.stem name)) ∧
      (output = Path.withExtension name "c" ↔ Path.IsBare (Path.stem name)) ∧
      (Path.fileName? output = some output ↔ ¬Path.IsLost (Path.stem name)) ∧
      ∀ path' name', Path.fileName? path' = some name' → ¬Path.IsLost (Path.stem name) →
        ¬Path.IsLost (Path.stem name') → (defaultOutput path' = .ok output ↔
          Path.stem (Path.stem name') = Path.stem (Path.stem name)) := by
  have isFileName := Path.isFileName_of_fileName? named
  obtain ⟨stem_ne, more, name_eq⟩ := Path.exists_eq_stem_append isFileName.ne_empty
  have no_slash : '/' ∉ (Path.stem name).toList := by
    have no_slash := isFileName.no_slash
    rw [name_eq, String.toList_append, List.mem_append, not_or] at no_slash
    exact no_slash.1
  have file_iff : Path.IsFileName (Path.withExtension (Path.stem name) "c") ↔ _ :=
    Path.isFileName_withExtension_iff stem_ne no_slash (by decide) (by decide)
  have append_iff : Path.withExtension (Path.stem name) "c" = _ ↔ _ :=
    Path.withExtension_eq_append_iff stem_ne no_slash (by decide) (by decide)
  refine ⟨_, defaultOutput_of_fileName? named, ?_, ?_,
    Path.withExtension_stem_eq_iff isFileName (by decide) (by decide), ?_, ?_⟩
  · by_cases lost : Path.IsLost (Path.stem name)
    · rw [Path.withExtension_of_lost lost]
      split_ifs <;> decide
    · exact Path.pieces_of_no_slash (file_iff.mpr lost).no_slash
  · rwa [String.append_assoc] at append_iff
  · rw [← file_iff]
    exact ⟨Path.isFileName_of_fileName?, Path.IsFileName.fileName?⟩
  · intro path' name' named' not_lost not_lost'
    rw [defaultOutput_of_fileName? named', Path.withExtension_of_not_lost not_lost,
      Path.withExtension_of_not_lost not_lost', Except.ok.injEq]
    simp

/-- Only the last step of the path and its last extension matter. -/
theorem defaultOutput_of_profile :
    Path.fileName? "src/.profile.teeny" = some ".profile.teeny" ∧
      Path.IsBare (Path.stem ".profile.teeny") ∧
      defaultOutput "src/.profile.teeny" = .ok ".profile.c" := by
  have named : Path.fileName? "src/.profile.teeny" = some ".profile.teeny" := rfl
  have bare : Path.IsBare (Path.stem ".profile.teeny") := ⟨rfl, nofun, nofun⟩
  obtain ⟨output, made, -, stem_iff, -⟩ := defaultOutput_by_stem_iff named
  rw [made, stem_iff.mpr bare]
  exact ⟨named, bare, rfl⟩

/-- A stem with an extension is cut once more, so that inputs of different stems share an output,
and of a stem that starts with two points no file may be left. -/
theorem defaultOutput_cuts_stem :
    Path.fileName? "a.tar.gz" = some "a.tar.gz" ∧ Path.stem "a.tar.gz" = "a.tar" ∧
      Path.withExtension "a.tar.gz" "c" = "a.tar.c" ∧ defaultOutput "a.tar.gz" = .ok "a.c" ∧
      Path.fileName? "a.zip.gz" = some "a.zip.gz" ∧ Path.stem "a.zip.gz" = "a.zip" ∧
      defaultOutput "a.zip.gz" = .ok "a.c" ∧
      Path.fileName? "..x.teeny" = some "..x.teeny" ∧ Path.stem "..x.teeny" = "..x" ∧
      defaultOutput "..x.teeny" = .ok ".." ∧ Path.fileName? ".." = none :=
  ⟨rfl, rfl, rfl, rfl, rfl, rfl, rfl, rfl, rfl, rfl, rfl⟩

end

end MiniBasic
