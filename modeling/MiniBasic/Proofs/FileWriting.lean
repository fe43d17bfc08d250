import Mathlib.Data.List.Basic
import MiniBasic.FileTree

/-!
# Writing files

A file can be written to a place in a directory, and neither is a missing directory made for it nor
another one replaced by it (`CanWrite`). What is at this place is all that is different afterwards
(`exists_written`).
-/

namespace MiniBasic.FileTree

variable {tree tree' : FileTree} {here place other parent : List String} {pieces : List String}
  {path text : String}

/-! ## Entries -/

theorem directory_eq_ok_iff :
    tree.directory place = .ok () ↔ tree.entry? place = some .directory := by
  unfold directory
  split <;> simp_all

/-- There is something at a place if and only if the place lies on the way to something. -/
theorem entry_ne_none_iff : tree.entry? place ≠ none ↔
    place <+: tree.workingDirectory ∨ ∃ e ∈ tree.entries, place <+: e.1 := by
  unfold entry?
  split
  next key entry found =>
    have mem := List.mem_of_find?_eq_some found
    obtain rfl : key = place := by simpa using List.find?_some found
    exact iff_of_true nofun (.inr ⟨_, mem, List.prefix_refl _⟩)
  next => simp [or_iff_not_imp_left]

/-- All places on the way to a place with something at it are taken. -/
theorem entry_ne_none_of_way (way : other <+: place) (h : tree.entry? place ≠ none) :
    tree.entry? other ≠ none := by
  rw [entry_ne_none_iff] at h ⊢
  exact h.imp way.trans fun ⟨e, mem, h⟩ => ⟨e, mem, way.trans h⟩

/-! ## Putting a file -/

section
variable {content : ByteArray}

/-- One entry with the file that is put in place of what stands there. -/
private def replaced (place : List String) (content : ByteArray) (entry : List String × Entry) :
    List String × Entry :=
  if entry.1 = place then (place, .file content) else entry

private theorem replaced_fst (entry : List String × Entry) :
    (replaced place content entry).1 = entry.1 := by
  unfold replaced
  split <;> simp_all

theorem entries_put : (tree.put place content).entries =
    if tree.entries.any (·.1 = place) then tree.entries.map (replaced place content)
    else tree.entries ++ [(place, .file content)] := rfl

private theorem find?_replaced (entries : List (List String × Entry)) :
    (entries.map (replaced place content)).find? (·.1 = other) =
      (entries.find? (·.1 = other)).map (replaced place content) := by
  rw [List.find?_map]
  congr 2
  funext e
  simp [replaced_fst]

theorem find?_put_self :
    (tree.put place content).entries.find? (·.1 = place) = some (place, .file content) := by
  rw [entries_put]
  split
  next taken =>
    have isSome : (tree.entries.find? (·.1 = place)).isSome :=
      List.find?_isSome.mpr (List.any_eq_true.mp taken)
    obtain ⟨e, found⟩ := Option.isSome_iff_exists.mp isSome
    have key : e.1 = place := by simpa using List.find?_some found
    rw [find?_replaced, found]
    simp [replaced, key]
  next free =>
    have none : tree.entries.find? (·.1 = place) = none :=
      List.find?_eq_none.mpr fun e mem key => free (List.any_eq_true.mpr ⟨e, mem, key⟩)
    rw [List.find?_append, none]
    simp

theorem find?_put_of_ne (ne : other ≠ place) :
    (tree.put place content).entries.find? (·.1 = other) =
      tree.entries.find? (·.1 = other) := by
  rw [entries_put]
  split
  next =>
    rw [find?_replaced]
    cases found : tree.entries.find? (·.1 = other) with
    | none => rfl
    | some e =>
      have key : e.1 = other := by simpa using List.find?_some found
      simp [replaced, key, ne]
  next => simp [List.find?_append, ne.symm]

theorem exists_prefix_put : (∃ e ∈ (tree.put place content).entries, other <+: e.1) ↔
    other <+: place ∨ ∃ e ∈ tree.entries, other <+: e.1 := by
  rw [entries_put]
  split
  next taken =>
    obtain ⟨e, mem, key⟩ := List.any_eq_true.mp taken
    have key : e.1 = place := by simpa using key
    simp only [List.mem_map, exists_exists_and_eq_and, replaced_fst]
    exact ⟨.inr, fun h => h.elim (fun way => ⟨e, mem, key ▸ way⟩) id⟩
  next => simp [or_comm]

theorem entry_put_self : entry? (tree.put place content) place = some (.file content) := by
  unfold entry?
  rw [find?_put_self]

/-- Nothing else is different when a file is put into a directory. -/
theorem entry_put_of_ne {name : String} (ne : other ≠ parent ++ [name])
    (directory : tree.entry? parent ≠ none) :
    entry? (tree.put (parent ++ [name]) content) other = tree.entry? other := by
  have way_iff : (other <+: tree.workingDirectory ∨
      ∃ e ∈ (tree.put (parent ++ [name]) content).entries, other <+: e.1) ↔
      other <+: tree.workingDirectory ∨ ∃ e ∈ tree.entries, other <+: e.1 := by
    rw [exists_prefix_put, List.prefix_concat_iff]
    constructor
    · rintro (way | (eq | way) | way)
      · exact .inl way
      · exact absurd eq ne
      · exact entry_ne_none_iff.mp (entry_ne_none_of_way way directory)
      · exact .inr way
    · exact fun h => h.imp_right .inr
  have same : (other.isPrefixOf tree.workingDirectory ||
      (tree.put (parent ++ [name]) content).entries.any (other.isPrefixOf ·.1)) =
      (other.isPrefixOf tree.workingDirectory || tree.entries.any (other.isPrefixOf ·.1)) := by
    rw [Bool.eq_iff_iff]
    simpa using way_iff
  unfold entry?
  rw [find?_put_of_ne ne, ← same]
  rfl

end

/-! ## Walking -/

theorem walk_append (here : List String) (front back : List String) :
    tree.walk here (front ++ back) =
      match tree.walk here front with
      | .error e => .error e
      | .ok place => tree.walk place back := by
  fun_induction tree.walk here front with
  | case1 => rfl
  | case2 here piece pieces e missing => simp [walk, missing]
  | case3 | case4 | case5 => simp_all [walk]
  | case6 here piece pieces found no_skip no_up fits ih =>
    rw [List.cons_append, walk, found, ← ih]
    simp [no_skip, no_up, fits]

/-- Where all directories are kept, a walk is not stopped. -/
theorem walk_of_directories (keep : ∀ place, tree.directory place = .ok () →
      tree'.directory place = .ok ()) (h : tree.walk here pieces = .ok place) :
    tree'.walk here pieces = .ok place := by
  revert h
  fun_induction tree.walk here pieces with
  | case1 => exact id
  | case2 => nofun
  | case3 here piece pieces found skip ih =>
    intro h
    simpa only [walk, keep here found, skip, if_true] using ih h
  | case4 here pieces found no_skip ih =>
    intro h
    simpa [walk, keep here found] using ih h
  | case5 => nofun
  | case6 here piece pieces found no_skip no_up fits ih =>
    intro h
    simpa only [walk, keep here found, no_skip, no_up, fits, if_false] using ih h

theorem walkPath_of_directories (keep : ∀ place, tree.directory place = .ok () →
      tree'.directory place = .ok ()) (here : tree'.workingDirectory = tree.workingDirectory)
    (h : tree.walkPath pieces = .ok place) : tree'.walkPath pieces = .ok place := by
  unfold walkPath at h ⊢
  split at h
  · exact walk_of_directories keep h
  · rw [here]
    exact walk_of_directories keep h

theorem walkPath_of_head {piece : String} (ne : piece ≠ "") (pieces : List String) :
    tree.walkPath (piece :: pieces) = tree.walk tree.workingDirectory (piece :: pieces) := by
  unfold walkPath
  split
  next eq => exact absurd (List.cons.inj eq).1 ne
  next => rfl

/-- A path leads where its last name leads from where the rest of it leads. -/
theorem walkPath_concat {name : String} (ne : name ≠ "") (pieces : List String) :
    tree.walkPath (pieces ++ [name]) =
      match tree.walkPath pieces with
      | .error e => .error e
      | .ok place => tree.walk place [name] := by
  cases pieces with
  | nil => simp [walkPath, walk, ne]
  | cons piece pieces =>
    by_cases root : piece = ""
    · subst root
      exact walk_append ..
    · rw [List.cons_append, walkPath_of_head root, walkPath_of_head root]
      exact walk_append _ (piece :: pieces) _

/-! ## Writing -/

/-- A path names a place that can be written to: it ends with a name, the rest of it leads to a
directory, and there is no directory of that name in it. -/
structure CanWrite (tree : FileTree) (path : String) (place : List String) : Prop where
  exists_name : ∃ pieces parent name, pathPieces path = .ok (pieces ++ [name]) ∧
    place = parent ++ [name] ∧ tree.walkPath pieces = .ok parent ∧ tree.directory parent = .ok () ∧
    name ≠ "" ∧ name ≠ "." ∧ name ≠ ".." ∧ name.utf8ByteSize ≤ maxNameSize
  not_directory : tree.entry? place ≠ some .directory

theorem canWrite_of_placeToWrite (h : tree.placeToWrite path = .ok place) :
    CanWrite tree path place := by
  revert h
  fun_cases tree.placeToWrite path with
  | case8 all split last before last_eq parent way found no_directory fits other =>
    rintro ⟨⟩
    obtain ⟨no_slash, no_point, no_points⟩ : all.getLast? ≠ some "" ∧ last ≠ "." ∧ last ≠ ".." := by
      simpa using no_directory
    -- no slash at the end, so no piece is dropped
    have reverse_eq : all.reverse = last :: before := by
      rw [← List.head?_reverse] at no_slash
      cases eq : all.reverse with
      | nil => simp [eq] at last_eq
      | cons a as =>
        have ne : a ≠ "" := by simpa [eq] using no_slash
        rwa [eq, List.dropWhile_cons_of_neg (by simpa using ne)] at last_eq
    have ne : last ≠ "" := by
      rw [← List.head?_reverse, reverse_eq] at no_slash
      simpa using no_slash
    have all_eq : all = before.reverse ++ [last] := by
      rw [← List.reverse_reverse all, reverse_eq, List.reverse_cons]
    exact ⟨⟨before.reverse, parent, last, all_eq ▸ split, rfl, way, found, ne, no_point, no_points,
      Nat.not_lt.mp fits⟩, other⟩
  | _ => nofun

theorem CanWrite.placeToWrite_eq (h : CanWrite tree path place) :
    tree.placeToWrite path = .ok place := by
  obtain ⟨⟨pieces, parent, name, split, rfl, way, found, ne, no_point, no_points, fits⟩, other⟩ := h
  have reverse_eq : (pieces ++ [name]).reverse.dropWhile (· = "") = name :: pieces.reverse := by
    rw [List.reverse_append, List.reverse_singleton, List.singleton_append,
      List.dropWhile_cons_of_neg (by simpa using ne)]
  rw [placeToWrite, split]
  simp only [reverse_eq, List.reverse_reverse, way, found, List.getLast?_concat, Option.some.injEq,
    ne, no_point, no_points, or_self, if_false, Nat.not_lt.mpr fits]

/-- The path leads to the place that is written to, as long as all directories are kept. -/
theorem CanWrite.resolve_eq (h : CanWrite tree path place)
    (keep : ∀ place, tree.directory place = .ok () → tree'.directory place = .ok ())
    (here : tree'.workingDirectory = tree.workingDirectory) : tree'.resolve path = .ok place := by
  obtain ⟨⟨pieces, parent, name, split, rfl, way, found, ne, no_point, no_points, fits⟩, -⟩ := h
  rw [resolve, split]
  simp only [walkPath_concat ne, walkPath_of_directories keep here way]
  rw [walk, keep parent found]
  simp [walk, ne, no_point, no_points, Nat.not_lt.mpr fits]

/-- The text is at the place, and all else is as it was. -/
structure Written (tree : FileTree) (place : List String) (text : String) (tree' : FileTree) :
    Prop where
  content : tree'.entry? place = some (.file text.toUTF8)
  others : ∀ other ≠ place, tree'.entry? other = tree.entry? other
  workingDirectory : tree'.workingDirectory = tree.workingDirectory

theorem fromUTF8?_toUTF8 (text : String) : String.fromUTF8? text.toUTF8 = some text :=
  dif_pos text.isValidUTF8

theorem read_eq_ok (resolved : tree.resolve path = .ok place)
    (entry : tree.entry? place = some (.file text.toUTF8)) : tree.read path = .ok text := by
  simp only [read, find, resolved, entry, fromUTF8?_toUTF8]

/-- What is written to a path is at its place, and can be read from there. -/
theorem exists_written (h : CanWrite tree path place) (text : String) : ∃ tree',
    tree.write path text = .ok tree' ∧ Written tree place text tree' ∧
      tree'.read path = .ok text := by
  have written : Written tree place text (tree.put place text.toUTF8) := by
    obtain ⟨-, parent, name, -, rfl, -, found, -⟩ := h.exists_name
    rw [directory_eq_ok_iff] at found
    exact ⟨entry_put_self, fun _ ne => entry_put_of_ne ne (by rw [found]; nofun), rfl⟩
  -- a directory is not what is written over
  have keep (other : List String) (found : tree.directory other = .ok ()) :
      (tree.put place text.toUTF8).directory other = .ok () := by
    rw [directory_eq_ok_iff] at found ⊢
    have ne : other ≠ place := by
      rintro rfl
      exact h.not_directory found
    rw [written.others other ne, found]
  refine ⟨tree.put place text.toUTF8, ?_, written, ?_⟩
  · rw [write, h.placeToWrite_eq]
    rfl
  · exact read_eq_ok (h.resolve_eq keep rfl) written.content

/-- Otherwise nothing is. -/
theorem exists_write_error (h : ¬∃ place, CanWrite tree path place) (text : String) :
    ∃ e, tree.write path text = .error e := by
  cases placed : tree.placeToWrite path with
  | error e => exact ⟨e, by rw [write, placed]; rfl⟩
  | ok place => exact absurd ⟨place, canWrite_of_placeToWrite placed⟩ h

/-! ## Actions on a tree -/

section
variable (tree : FileTree) (path : String)

@[simp] theorem run_read :
    (Files.read path : StateM FileTree _).run tree = pure (tree.read path, tree) := rfl

@[simp] theorem run_list :
    (Files.list path : StateM FileTree _).run tree = pure (tree.list path, tree) := rfl

@[simp] theorem run_isFile :
    (Files.isFile path : StateM FileTree _).run tree = pure (tree.isFile path, tree) := rfl

@[simp] theorem run_isPresent :
    (Files.isPresent path : StateM FileTree _).run tree = pure (tree.isPresent path, tree) := rfl

end

theorem run_write_of_ok (h : tree.write path text = .ok tree') :
    (WritableFiles.write path text : StateM FileTree _).run tree = pure (.ok (), tree') := by
  simp only [WritableFiles.write, StateT.run, h]
  rfl

theorem run_write_of_error {e : FileError} (h : tree.write path text = .error e) :
    (WritableFiles.write path text : StateM FileTree _).run tree = pure (.error e, tree) := by
  simp only [WritableFiles.write, StateT.run, h]
  rfl

end MiniBasic.FileTree
