import Mathlib.Data.List.TakeWhile
import MiniBasic.Path

/-!
# File names

The name of a file is a stem and an extension around its last point, which is not in front of all
else (`extension_eq_some_iff`). So the files that belong together are named by one stem, and their
extensions tell them apart. There is one exception: without its extension, `..teeny` would be the
directory above (`withExtension_append`).
-/

namespace MiniBasic.Path

variable {name stem extension : String}

/-! ## Stems and extensions -/

theorem splitName_append (stem_ne : stem ≠ "") (no_point : '.' ∉ extension.toList)
    (not_up : stem ++ "." ++ extension ≠ "..") :
    splitName (stem ++ "." ++ extension) = (stem, some extension) := by
  have reverse_eq : (stem ++ "." ++ extension).toList.reverse =
      extension.toList.reverse ++ '.' :: stem.toList.reverse := by
    simp
  have plain : ∀ c ∈ extension.toList.reverse, decide (c ≠ '.') = true := by
    intro c mem
    rw [List.mem_reverse] at mem
    exact decide_eq_true fun point => no_point (point ▸ mem)
  obtain ⟨c, cs, stem_eq⟩ : ∃ c cs, stem.toList.reverse = c :: cs := by
    refine List.exists_cons_of_ne_nil fun empty => stem_ne ?_
    rwa [List.reverse_eq_nil_iff, String.toList_eq_nil_iff] at empty
  have behind : (stem ++ "." ++ extension).toList.reverse.dropWhile (· ≠ '.') = '.' :: c :: cs := by
    rw [reverse_eq, List.dropWhile_append_of_pos plain, stem_eq]
    rfl
  have front : (stem ++ "." ++ extension).toList.reverse.takeWhile (· ≠ '.') =
      extension.toList.reverse := by
    rw [reverse_eq, List.takeWhile_append_of_pos plain]
    simp
  unfold splitName
  simp only [behind, front, not_up, if_false]
  rw [← stem_eq, List.reverse_reverse, List.reverse_reverse, String.ofList_toList,
    String.ofList_toList]

theorem splitName_eq_some_iff : splitName name = (stem, some extension) ↔
    name = stem ++ "." ++ extension ∧ stem ≠ "" ∧ '.' ∉ extension.toList ∧ name ≠ ".." := by
  constructor
  · fun_cases splitName name with
    | case1 reversed c cs behind => nofun
    | case2 reversed c cs behind not_up =>
      rintro ⟨⟩
      have split := List.takeWhile_append_dropWhile (p := (· ≠ '.')) (l := reversed)
      rw [behind] at split
      have toList_eq : name.toList =
          (c :: cs).reverse ++ '.' :: (reversed.takeWhile (· ≠ '.')).reverse := by
        calc name.toList = reversed.reverse := (List.reverse_reverse _).symm
          _ = (reversed.takeWhile (· ≠ '.') ++ '.' :: c :: cs).reverse := by rw [split]
          _ = _ := by simp
      refine ⟨String.toList_inj.mp ?_, ?_, ?_, not_up⟩
      · rw [toList_eq, String.toList_append, String.toList_append]
        simp
      · exact fun empty => by simpa using congrArg String.toList empty
      · intro mem
        rw [String.toList_ofList, List.mem_reverse] at mem
        simpa using List.mem_takeWhile_imp mem
    | case3 => nofun
  · rintro ⟨rfl, stem_ne, no_point, not_up⟩
    exact splitName_append stem_ne no_point not_up

theorem extension_eq_some_iff : extension? name = some extension ↔
    ∃ stem, name = stem ++ "." ++ extension ∧ stem ≠ "" ∧ '.' ∉ extension.toList ∧ name ≠ ".." := by
  simp only [← splitName_eq_some_iff]
  unfold extension?
  constructor
  · exact fun h => ⟨(splitName name).1, Prod.ext rfl h⟩
  · rintro ⟨stem, split⟩
    rw [split]

/-- The name that another extension gives. -/
theorem withExtension_append {old : String} (stem_ne : stem ≠ "") (no_point : '.' ∉ old.toList)
    (not_up : stem ++ "." ++ old ≠ "..") (extension : String) :
    withExtension (stem ++ "." ++ old) extension =
      if stem = "." then ".." else stem ++ "." ++ extension := by
  have split := splitName_append stem_ne no_point not_up
  have kept_ne : stem ++ "." ≠ "." := fun same => stem_ne (by simpa using same)
  have kept_up : stem ++ "." = ".." ↔ stem = "." := by
    have up : "..".toList = ".".toList ++ ".".toList := by decide
    rw [← String.toList_inj, ← String.toList_inj, String.toList_append, up, List.append_left_inj]
  unfold withExtension extension? Path.stem
  rw [split]
  simp only [Option.isSome_some, if_true, kept_ne, false_or, kept_up]
  split_ifs with point
  · rw [point]
    rfl
  · have again : splitName (stem ++ "." ++ "") = (stem, some "") :=
      splitName_append stem_ne (by simp) fun same => point (kept_up.mp (by simpa using same))
    rw [String.append_empty] at again
    rw [again]

/-! ## Paths of files in a directory -/

theorem exists_splitSlashes_cons {c : Char} (ne : c ≠ '/') (cs : List Char) :
    ∃ piece pieces, splitSlashes cs = piece :: pieces ∧
      splitSlashes (c :: cs) = (c :: piece) :: pieces := by
  have other : (c == '/') = false := beq_false_of_ne ne
  have ne_nil : splitSlashes cs ≠ [] := by
    fun_cases splitSlashes cs <;> simp
  obtain ⟨piece, pieces, eq⟩ := List.exists_cons_of_ne_nil ne_nil
  refine ⟨piece, pieces, eq, ?_⟩
  rw [splitSlashes, other, eq]

theorem splitSlashes_append (cs ds : List Char) :
    splitSlashes (cs ++ '/' :: ds) = splitSlashes cs ++ splitSlashes ds := by
  induction cs with
  | nil => rfl
  | cons c cs ih =>
    by_cases slash : c = '/'
    · subst slash
      exact congrArg ([] :: ·) ih
    · obtain ⟨piece, pieces, eq, cons_eq⟩ := exists_splitSlashes_cons slash cs
      obtain ⟨piece', pieces', eq', cons_eq'⟩ := exists_splitSlashes_cons slash (cs ++ '/' :: ds)
      rw [ih, eq] at eq'
      cases eq'
      rw [List.cons_append, cons_eq', cons_eq]
      rfl

theorem splitSlashes_of_not_mem {cs : List Char} (h : '/' ∉ cs) : splitSlashes cs = [cs] := by
  induction cs with
  | nil => rfl
  | cons c cs ih =>
    obtain ⟨ne, others⟩ := not_or.mp (mt List.mem_cons.mpr h)
    obtain ⟨piece, pieces, eq, cons_eq⟩ := exists_splitSlashes_cons (Ne.symm ne) cs
    rw [ih others] at eq
    cases eq
    exact cons_eq

theorem exists_join_eq (directory : String) :
    ∃ front, ∀ name, join directory name = front ++ name := by
  by_cases slash : directory.toList.getLast? = some '/'
  · exact ⟨directory, fun name => if_pos slash⟩
  · exact ⟨directory ++ "/", fun name => if_neg slash⟩

/-- Paths of files in one directory differ in their last piece only. -/
theorem exists_pieces_join (directory : String) : ∃ front, ∀ name : String, '/' ∉ name.toList →
    pieces (join directory name) = front ++ [name] := by
  have at_slash (front : List Char) {path name : String}
      (eq : path.toList = front ++ '/' :: name.toList) (no_slash : '/' ∉ name.toList) :
      pieces path = (splitSlashes front).map String.ofList ++ [name] := by
    rw [pieces, eq, splitSlashes_append, splitSlashes_of_not_mem no_slash, List.map_append]
    simp
  by_cases slash : directory.toList.getLast? = some '/'
  · obtain ⟨front, eq⟩ := List.getLast?_eq_some_iff.mp slash
    refine ⟨_, fun name => at_slash front ?_⟩
    rw [join, if_pos slash, String.toList_append, eq]
    simp
  · refine ⟨_, fun name => at_slash directory.toList ?_⟩
    rw [join, if_neg slash, String.toList_append, String.toList_append]
    simp

end MiniBasic.Path
