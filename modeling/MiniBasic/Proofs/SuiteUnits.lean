import MiniBasic.Proofs.FileNames
import MiniBasic.Proofs.Reordering
import MiniBasic.Proofs.SuiteRuns

/-!
# The units of a suite

A unit is a file with the extension of the language and goes by its stem. The files of the same stem
say what is expected of it (`Meets`), and finding the programs of a directory reads them
(`exists_expectationIn_iff`, `complaint_eq_none_iff`). A unit whose stem is a point is not found:
what is taken for a file beside it is the directory above.
-/

namespace MiniBasic

namespace FileTree

variable {tree : FileTree} {directory path : String} {place : List String}

/-! ## The directory above -/

theorem pathPieces_eq_ok_iff {pieces : List String} :
    pathPieces path = .ok pieces ↔ '\x00' ∉ path.toList ∧ path ≠ "" ∧
      path.utf8ByteSize ≤ maxPathSize ∧ pieces = Path.pieces path := by
  unfold pathPieces
  split_ifs with nul empty long
  · simp [nul]
  · simp [empty]
  · simp [Nat.not_le.mpr long]
  · simp [nul, empty, Nat.not_lt.mp long, eq_comm]

/-- If one name in a directory makes a path, so does another that is not longer. -/
theorem pathPieces_join {name other : String} {pieces : List String}
    (split : pathPieces (Path.join directory name) = .ok pieces) (ne : other ≠ "")
    (no_nul : '\x00' ∉ other.toList) (size : other.utf8ByteSize ≤ name.utf8ByteSize) :
    pathPieces (Path.join directory other) = .ok (Path.pieces (Path.join directory other)) := by
  obtain ⟨no_nul', -, fits, -⟩ := pathPieces_eq_ok_iff.mp split
  obtain ⟨front, join_eq⟩ := Path.exists_join_eq directory
  rw [join_eq] at no_nul' fits ⊢
  rw [String.toList_append, List.mem_append, not_or] at no_nul'
  rw [String.utf8ByteSize_append] at fits
  refine pathPieces_eq_ok_iff.mpr ⟨?_, ?_, ?_, rfl⟩
  · rw [String.toList_append, List.mem_append, not_or]
    exact ⟨no_nul'.1, no_nul⟩
  · exact fun empty => ne (String.append_eq_empty_iff.mp empty).2
  · rw [String.utf8ByteSize_append]
    omega

theorem exists_file_of_isFile (h : tree.isFile path) :
    ∃ place content, tree.resolve path = .ok place ∧ tree.entry? place = some (.file content) := by
  unfold FileTree.isFile find at h
  cases resolved : tree.resolve path with
  | error e => simp [resolved] at h
  | ok place =>
    cases entry : tree.entry? place with
    | none => simp [resolved, entry] at h
    | some e =>
      cases e with
      | directory => simp [resolved, entry] at h
      | file content => exact ⟨place, content, rfl, entry⟩

/-- A path that leads somewhere leads there through a directory. -/
theorem exists_directory_of_resolve {front : List String} {name : String}
    (resolved : tree.resolve path = .ok place) (split : pathPieces path = .ok (front ++ [name]))
    (ne : name ≠ "") : ∃ here, tree.walkPath front = .ok here ∧ tree.directory here = .ok () := by
  rw [resolve, split] at resolved
  simp only [walkPath_concat ne] at resolved
  split at resolved
  next => cases resolved
  next here way =>
    refine ⟨here, way, ?_⟩
    unfold walk at resolved
    split at resolved
    next => cases resolved
    next found => exact found

theorem Sound.entry_dropLast (sound : tree.Sound) (found : tree.entry? place = some .directory) :
    tree.entry? place.dropLast = some .directory := by
  have above : place.dropLast <+: place := List.dropLast_prefix place
  have taken : tree.entry? place ≠ none := by simp [found]
  cases entry : tree.entry? place.dropLast with
  | none => exact absurd entry (entry_ne_none_of_way above taken)
  | some e =>
    cases e with
    | directory => rfl
    | file content =>
      rw [← sound.nothing_below _ _ entry place above taken, found] at entry
      cases entry

/-- Where a file can be found in a directory, the directory above can be found too. -/
theorem Sound.find_up (sound : tree.Sound) {name : String}
    (isFile : tree.isFile (Path.join directory name)) (no_slash : '/' ∉ name.toList)
    (size : "..".utf8ByteSize ≤ name.utf8ByteSize) :
    tree.find (Path.join directory "..") = .ok .directory := by
  obtain ⟨place, content, resolved, -⟩ := exists_file_of_isFile isFile
  obtain ⟨pieces, split⟩ : ∃ pieces, pathPieces (Path.join directory name) = .ok pieces := by
    unfold resolve at resolved
    split at resolved
    next => cases resolved
    next pieces split => exact ⟨pieces, split⟩
  obtain ⟨front, pieces_eq⟩ := Path.exists_pieces_join directory
  have up_split : pathPieces (Path.join directory "..") = .ok (front ++ [".."]) := by
    rw [pathPieces_join split (by decide) (by decide) size, pieces_eq ".." (by decide)]
  have ne : name ≠ "" := by
    rintro rfl
    exact absurd size (by decide)
  obtain rfl : pieces = front ++ [name] :=
    (pathPieces_eq_ok_iff.mp split).2.2.2.trans (pieces_eq name no_slash)
  obtain ⟨here, way, found⟩ := exists_directory_of_resolve resolved split ne
  have up_resolved : tree.resolve (Path.join directory "..") = .ok here.dropLast := by
    rw [resolve, up_split]
    simp only [walkPath_concat (show ".." ≠ "" by decide), way]
    rw [walk, found]
    rfl
  rw [find, up_resolved]
  simp only [sound.entry_dropLast (directory_eq_ok_iff.mp found)]

end FileTree

namespace Suite

open FileTree

variable {tree : FileTree} {directory : String} {names : List String}

/-! ## Units -/

/-- The path of a file in the directory, by its stem and its extension. -/
def fileIn (directory stem extension : String) : String :=
  Path.join directory (stem ++ "." ++ extension)

/-- A unit is a file with the extension of the language, and it is known by its stem. -/
structure IsUnit (tree : FileTree) (directory : String) (names : List String) (stem : String) :
    Prop where
  stem_ne : stem ≠ ""
  listed : stem ++ "." ++ "teeny" ∈ names
  isFile : tree.isFile (fileIn directory stem "teeny")

/-- What is expected of a unit can be read, if a file says it. -/
def CanExpect (tree : FileTree) (directory stem : String) : Prop :=
  if tree.isPresent (fileIn directory stem "c") then
    ∃ code, tree.read (fileIn directory stem "c") = .ok code
  else if tree.isPresent (fileIn directory stem "err") then
    ∃ text, tree.read (fileIn directory stem "err") = .ok text
  else True

/-- What is expected of the unit is true of its source. -/
def Meets (tree : FileTree) (directory stem source : String) : Prop :=
  if tree.isPresent (fileIn directory stem "c") then
    ∃ code, tree.read (fileIn directory stem "c") = .ok code ∧ compile source = .ok code
  else if tree.isPresent (fileIn directory stem "err") then
    ∃ text d, tree.read (fileIn directory stem "err") = .ok text ∧ compile source = .error d ∧
      (Text.trim text).toList <:+: d.message.toList
  else ∃ code, compile source = .ok code

/-- All that is expected can be read. A unit named by a point asks for the directory above. -/
def CanFind (tree : FileTree) (directory : String) (stems : List String) : Prop :=
  ∀ stem ∈ stems, stem ≠ "." ∧ CanExpect tree directory stem

section
variable {stem name : String}

theorem teeny_ne_up (stem : String) : stem ++ "." ++ "teeny" ≠ ".." := by
  intro same
  have last := congrArg (fun s => s.toList.getLast?) same
  simp at last

theorem no_point_teeny : '.' ∉ "teeny".toList := by decide

/-- The programs that are found are the units. -/
theorem mem_filter_isProgramIn : name ∈ names.filter (isProgramIn tree directory) ↔
    ∃ stem, IsUnit tree directory names stem ∧ name = stem ++ "." ++ "teeny" := by
  rw [List.mem_filter, isProgramIn, Bool.and_eq_true, decide_eq_true_eq,
    Path.extension_eq_some_iff]
  constructor
  · rintro ⟨listed, ⟨stem, rfl, stem_ne, -⟩, isFile⟩
    exact ⟨stem, ⟨stem_ne, listed, isFile⟩, rfl⟩
  · rintro ⟨stem, unit, rfl⟩
    exact ⟨unit.listed, ⟨stem, rfl, unit.stem_ne, no_point_teeny, teeny_ne_up stem⟩, unit.isFile⟩

theorem stem_teeny (stem_ne : stem ≠ "") : Path.stem (stem ++ "." ++ "teeny") = stem := by
  rw [Path.stem, Path.splitName_append stem_ne no_point_teeny (teeny_ne_up stem)]

theorem expectationIn_teeny (stem_ne : stem ≠ "") (other : stem ≠ ".") :
    expectationIn tree directory (stem ++ "." ++ "teeny") =
      if tree.isPresent (fileIn directory stem "c") then
        (tree.read (fileIn directory stem "c")).map .code
      else if tree.isPresent (fileIn directory stem "err") then
        (tree.read (fileIn directory stem "err")).map fun text => .refused (Text.trim text)
      else .ok .accepted := by
  have sibling := Path.withExtension_append stem_ne no_point_teeny (teeny_ne_up stem)
  simp only [expectationIn, sibling, other, if_false]
  rfl

/-- The stem that is a point has no siblings: the directory above is asked for. -/
theorem exists_error_of_point (sound : tree.Sound)
    (isFile : tree.isFile (fileIn directory "." "teeny")) :
    ∃ e, expectationIn tree directory ("." ++ "." ++ "teeny") = .error e := by
  have up : tree.find (Path.join directory "..") = .ok .directory :=
    sound.find_up isFile (by decide) (by decide)
  have withExtension_eq (extension : String) :
      Path.withExtension ("." ++ "." ++ "teeny") extension = ".." :=
    Path.withExtension_append (by decide) no_point_teeny (teeny_ne_up ".") extension
  have present : tree.isPresent (Path.join directory "..") = true := by
    rw [isPresent, up]
  refine ⟨.isADirectory, ?_⟩
  simp only [expectationIn, withExtension_eq, present, if_true, FileTree.read, up]
  rfl

theorem exists_expectationIn_iff (sound : tree.Sound) (unit : IsUnit tree directory names stem) :
    (∃ e, expectationIn tree directory (stem ++ "." ++ "teeny") = .ok e) ↔
      stem ≠ "." ∧ CanExpect tree directory stem := by
  by_cases point : stem = "."
  · subst point
    obtain ⟨e, unreadable⟩ := exists_error_of_point sound unit.isFile
    simp only [unreadable]
    simp
  · rw [expectationIn_teeny unit.stem_ne point]
    unfold CanExpect
    split_ifs with code message
    · cases tree.read (fileIn directory stem "c") <;> simp [Except.map, point]
    · cases tree.read (fileIn directory stem "err") <;> simp [Except.map, point]
    · simp [point]

theorem occursIn_iff_isInfix (part text : List Char) :
    Text.occursIn part text = true ↔ part <:+: text := by
  rw [Text.occursIn_iff]
  exact exists₂_congr fun _ _ => eq_comm

theorem complaint_eq_none_iff (stem_ne : stem ≠ "") (other : stem ≠ ".") {e : Expectation}
    (expected : expectationIn tree directory (stem ++ "." ++ "teeny") = .ok e) (source : String) :
    e.complaint? (compile source) = none ↔ Meets tree directory stem source := by
  rw [expectationIn_teeny stem_ne other] at expected
  unfold Meets
  split_ifs at expected ⊢ with code message
  · cases found : tree.read (fileIn directory stem "c") with
    | error e => simp [found, Except.map] at expected
    | ok text =>
      rw [found] at expected
      cases expected
      cases compile source <;> simp [Expectation.complaint?, eq_comm]
  · cases found : tree.read (fileIn directory stem "err") with
    | error e => simp [found, Except.map] at expected
    | ok text =>
      rw [found] at expected
      cases expected
      cases compile source with
      | error d => simp [Expectation.complaint?, occursIn_iff_isInfix]
      | ok code => simp [Expectation.complaint?]
  · cases expected
    cases compile source <;> simp [Expectation.complaint?]

end

end Suite

end MiniBasic
