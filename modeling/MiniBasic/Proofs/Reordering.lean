import Mathlib.Data.List.Induction
import Mathlib.Data.List.Nodup
import MiniBasic.Proofs.FileWriting

/-!
# Orders of directories

A directory shows its entries in an order of its own. Trees that differ in nothing else give the
same answers to all other questions (`SameEntries`). The order is that of the entries of the tree,
so every order can be had (`exists_reordered`).
-/

namespace MiniBasic

open FileTree

/-- Nothing is listed twice, and there is nothing below a file. -/
structure FileTree.Sound (tree : FileTree) : Prop where
  distinct : (tree.entries.map Prod.fst).Nodup
  nothing_below : ∀ place content, tree.entry? place = some (.file content) →
    ∀ other, place <+: other → tree.entry? other ≠ none → other = place

/-- There is the same everywhere in both trees. -/
structure FileTree.SameEntries (tree tree' : FileTree) : Prop where
  entry_eq : ∀ place, tree'.entry? place = tree.entry? place
  workingDirectory_eq : tree'.workingDirectory = tree.workingDirectory

/-- `tree'` shows the entries of its directories in another order than `tree`. -/
structure FileTree.Reordered (tree tree' : FileTree) : Prop extends SameEntries tree tree' where
  list_perm : ∀ path names, tree.list path = .ok names →
    ∃ names', tree'.list path = .ok names' ∧ names'.Perm names

variable {tree tree' : FileTree} {path : String}

namespace FileTree

/-- Entries that are not below each other, and not on the way to the working directory. -/
theorem sound_of_apart (distinct : (tree.entries.map Prod.fst).Nodup)
    (apart : ∀ e ∈ tree.entries, ∀ f ∈ tree.entries, e.1 <+: f.1 → f.1 = e.1)
    (away : ∀ e ∈ tree.entries, ¬e.1 <+: tree.workingDirectory) : tree.Sound where
  distinct := distinct
  nothing_below place content file other below taken := by
    obtain ⟨e, mem, rfl⟩ : ∃ e ∈ tree.entries, e.1 = place := by
      unfold entry? at file
      split at file
      next key entry found =>
        exact ⟨_, List.mem_of_find?_eq_some found, by simpa using List.find?_some found⟩
      next => split at file <;> cases file
    rcases entry_ne_none_iff.mp taken with way | ⟨f, mem', way⟩
    · exact absurd (below.trans way) (away e mem)
    · have same := apart e mem f mem' (below.trans way)
      rw [same] at way
      exact way.eq_of_length (Nat.le_antisymm way.length_le below.length_le)

namespace SameEntries
variable (h : SameEntries tree tree')
include h

theorem directory_eq (place : List String) : tree'.directory place = tree.directory place := by
  rw [directory, h.entry_eq, directory]

theorem walk_eq (here pieces : List String) : tree'.walk here pieces = tree.walk here pieces := by
  induction pieces generalizing here with
  | nil => rfl
  | cons piece pieces ih => simp only [walk, h.directory_eq, ih]

theorem resolve_eq (path : String) : tree'.resolve path = tree.resolve path := by
  unfold resolve walkPath
  simp only [h.walk_eq, h.workingDirectory_eq]

theorem find_eq (path : String) : tree'.find path = tree.find path := by
  unfold find
  simp only [h.resolve_eq, h.entry_eq]

theorem read_eq (path : String) : tree'.read path = tree.read path := by
  unfold FileTree.read
  rw [h.find_eq]

theorem isFile_eq (path : String) : tree'.isFile path = tree.isFile path := by
  unfold FileTree.isFile
  rw [h.find_eq]

theorem isPresent_eq (path : String) : tree'.isPresent path = tree.isPresent path := by
  unfold FileTree.isPresent
  rw [h.find_eq]

end SameEntries

/-! ## Entries in another order -/

section
variable {α : Type} [DecidableEq α] (l : List α)

theorem eraseDups_concat (x : α) :
    (l ++ [x]).eraseDups = if x ∈ l then l.eraseDups else l.eraseDups ++ [x] := by
  by_cases mem : x ∈ l <;> simp [List.eraseDups_append, List.removeAll, List.eraseDups_cons, mem]

theorem nodup_eraseDups : l.eraseDups.Nodup := by
  induction l using List.reverseRecOn with
  | nil => exact List.nodup_nil
  | append_singleton l x ih =>
    rw [eraseDups_concat]
    split
    next => exact ih
    next new =>
      rw [← List.concat_eq_append]
      exact ih.concat (by simpa using new)

theorem eraseDups_sublist : l.eraseDups.Sublist l := by
  induction l using List.reverseRecOn with
  | nil => exact .slnil
  | append_singleton l x ih =>
    rw [eraseDups_concat]
    split
    next => exact ih.trans (List.sublist_append_left l [x])
    next => exact ih.append (.refl [x])

end

/-- The name by which a directory shows an entry, if it is below the directory. -/
def shownAs (place : List String) (entry : List String × Entry) : Option String :=
  if place.isPrefixOf entry.1 then entry.1[place.length]? else none

theorem list_eq_ok_iff {names : List String} : tree.list path = .ok names ↔
    ∃ place, tree.resolve path = .ok place ∧ tree.directory place = .ok () ∧
      names = (tree.entries.filterMap (shownAs place)).eraseDups := by
  unfold list
  cases tree.resolve path with
  | error e => simp
  | ok place =>
    simp only [Except.ok.injEq, exists_eq_left']
    cases tree.directory place with
    | error e => simp
    | ok =>
      simp only [Except.ok.injEq, true_and]
      exact eq_comm

section
variable (distinct : (tree.entries.map Prod.fst).Nodup) (perm : tree'.entries.Perm tree.entries)
  (here : tree'.workingDirectory = tree.workingDirectory)
include distinct perm

theorem find?_entries_of_perm (place : List String) :
    tree'.entries.find? (·.1 = place) = tree.entries.find? (·.1 = place) := by
  cases found : tree.entries.find? (·.1 = place) with
  | none =>
    rw [List.find?_eq_none] at found ⊢
    exact fun e mem => found e (perm.mem_iff.mp mem)
  | some e =>
    have mem := List.mem_of_find?_eq_some found
    have key : e.1 = place := by simpa using List.find?_some found
    have isSome : (tree'.entries.find? (·.1 = place)).isSome :=
      List.find?_isSome.mpr ⟨e, perm.mem_iff.mpr mem, by simpa using key⟩
    obtain ⟨e', found'⟩ := Option.isSome_iff_exists.mp isSome
    have mem' := perm.mem_iff.mp (List.mem_of_find?_eq_some found')
    have key' : e'.1 = place := by simpa using List.find?_some found'
    rw [found', List.inj_on_of_nodup_map distinct mem' mem (key'.trans key.symm)]

include here

theorem sameEntries_of_perm : SameEntries tree tree' where
  entry_eq place := by
    have any_eq : tree'.entries.any (place.isPrefixOf ·.1) =
        tree.entries.any (place.isPrefixOf ·.1) := by
      rw [Bool.eq_iff_iff]
      simp only [List.any_eq_true, perm.mem_iff]
    unfold entry?
    rw [find?_entries_of_perm distinct perm, any_eq, here]
  workingDirectory_eq := here

/-- What a directory shows is in the order of the entries of the tree. -/
theorem reordered_of_perm : Reordered tree tree' where
  toSameEntries := sameEntries_of_perm distinct perm here
  list_perm path names listed := by
    have same := sameEntries_of_perm distinct perm here
    obtain ⟨place, resolved, found, rfl⟩ := list_eq_ok_iff.mp listed
    refine ⟨_, list_eq_ok_iff.mpr ⟨place, ?_, ?_, rfl⟩, ?_⟩
    · rw [same.resolve_eq, resolved]
    · rw [same.directory_eq, found]
    · rw [List.perm_ext_iff_of_nodup (nodup_eraseDups _) (nodup_eraseDups _)]
      intro name
      rw [List.mem_eraseDups, List.mem_eraseDups]
      exact (perm.filterMap _).mem_iff

end

/-- A directory can show its entries in every order. -/
theorem exists_reordered {names names' : List String} (distinct : (tree.entries.map Prod.fst).Nodup)
    (listed : tree.list path = .ok names) (perm : names'.Perm names) :
    ∃ tree', Reordered tree tree' ∧ tree'.list path = .ok names' := by
  obtain ⟨place, resolved, found, rfl⟩ := list_eq_ok_iff.mp listed
  -- the entries, by the positions of their names
  let rank (entry : List String × Entry) : ℕ :=
    ((shownAs place entry).map names'.idxOf).getD 0
  let sorted := tree.entries.mergeSort fun e f => rank e ≤ rank f
  have entries_perm : sorted.Perm tree.entries := List.mergeSort_perm _ _
  have reordered : Reordered tree { tree with entries := sorted } :=
    reordered_of_perm distinct entries_perm rfl
  refine ⟨_, reordered, list_eq_ok_iff.mpr ⟨place, ?_, ?_, ?_⟩⟩
  · rw [reordered.resolve_eq, resolved]
  · rw [reordered.directory_eq, found]
  · have nodup : names'.Nodup := perm.nodup_iff.mpr (nodup_eraseDups _)
    have shown_perm : names'.Perm (sorted.filterMap (shownAs place)).eraseDups := by
      refine perm.trans ((List.perm_ext_iff_of_nodup (nodup_eraseDups _) (nodup_eraseDups _)).mpr
        fun name => ?_)
      rw [List.mem_eraseDups, List.mem_eraseDups]
      exact (entries_perm.symm.filterMap _).mem_iff
    have names_sorted : names'.Pairwise fun a b => names'.idxOf a ≤ names'.idxOf b := by
      rw [List.pairwise_iff_getElem]
      intro i j hi hj lt
      rw [nodup.idxOf_getElem, nodup.idxOf_getElem]
      exact Nat.le_of_lt lt
    have shown_sorted : (sorted.filterMap (shownAs place)).eraseDups.Pairwise
        fun a b => names'.idxOf a ≤ names'.idxOf b := by
      refine List.Pairwise.sublist (eraseDups_sublist _) (List.pairwise_filterMap.mpr ?_)
      have ranks : sorted.Pairwise fun e f => decide (rank e ≤ rank f) :=
        List.pairwise_mergeSort (fun _ _ _ => by simpa using Nat.le_trans)
          (fun e f => by simpa using Nat.le_total (rank e) (rank f)) _
      refine ranks.imp fun le a shown b shown' => ?_
      simpa [rank, shown, shown'] using le
    exact List.Perm.eq_of_pairwise
      (fun a b mem _ le ge => (List.idxOf_inj mem).mp (Nat.le_antisymm le ge))
      names_sorted shown_sorted shown_perm

end FileTree

end MiniBasic
