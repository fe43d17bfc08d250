import MiniBasic.Proofs.ByteOrder
import MiniBasic.Proofs.SuiteUnits

/-!
# The verdict of a suite

A suite passes if and only if each of its units does what the files beside it say. The units, their
order and all that is printed depend on what is in the directory, and not on the order in which the
directory shows it (`verdict_of_suite`).

Finding the programs reads what is expected of them, so if that cannot be read nothing is printed.
The sources are read later, each when its turn comes.
-/

namespace MiniBasic.Suite

open FileTree

variable {tree tree' : FileTree} {directory : String} {names : List String} {ps : List Program}

/-! ## In another order -/

section
variable (h : SameEntries tree tree')
include h

theorem expectationIn_eq (directory name : String) :
    expectationIn tree' directory name = expectationIn tree directory name := by
  simp only [expectationIn, h.isPresent_eq, h.read_eq]

theorem isProgramIn_eq (directory : String) :
    isProgramIn tree' directory = isProgramIn tree directory := by
  funext name
  simp only [isProgramIn, h.isFile_eq]

theorem programsIn_eq (directory : String) (names : List String) :
    programsIn tree' directory names = programsIn tree directory names := by
  have program_eq : programIn tree' directory = programIn tree directory := by
    funext name
    simp only [programIn, expectationIn_eq h]
  simp only [programsIn, isProgramIn_eq h, program_eq]

theorem complaintIn_eq (p : Program) : complaintIn? tree' p = complaintIn? tree p := by
  simp only [complaintIn?, sourceIn, h.read_eq]

theorem programLines_eq (width number : ℕ) (ps : List Program) :
    programLines tree' width number ps = programLines tree width number ps := by
  simp only [programLines, complaintIn_eq h]

theorem programLogs_eq (ps : List Program) : programLogs tree' ps = programLogs tree ps := by
  simp only [programLogs, sourceIn, h.read_eq]

theorem passesIn_eq (ps : List Program) : passesIn tree' ps = passesIn tree ps := by
  simp only [passesIn, complaintIn_eq h]

theorem readable_iff (p : Program) : Readable tree' p ↔ Readable tree p := by
  simp only [Readable, h.read_eq]

end

/-! ## Sorting -/

theorem insertByName_perm (p : Program) (ps : List Program) :
    (insertByName p ps).Perm (p :: ps) := by
  fun_induction insertByName p ps with
  | case1 | case2 => rfl
  | case3 q qs _ ih => exact (ih.cons q).trans (.swap p q qs)

theorem sortByName_perm (ps : List Program) : (sortByName ps).Perm ps := by
  induction ps with
  | nil => rfl
  | cons p ps ih => exact (insertByName_perm p _).trans (ih.cons p)

theorem pairwise_insertByName {p : Program} (sorted : ps.Pairwise (·.name ≤ ·.name)) :
    (insertByName p ps).Pairwise (·.name ≤ ·.name) := by
  fun_induction insertByName p ps with
  | case1 => exact List.pairwise_singleton _ p
  | case2 q qs le =>
    refine List.pairwise_cons.mpr ⟨fun r mem => ?_, sorted⟩
    rcases List.mem_cons.mp mem with rfl | mem
    · exact le
    · exact String.le_trans le ((List.pairwise_cons.mp sorted).1 r mem)
  | case3 q qs gt ih =>
    obtain ⟨first, others⟩ := List.pairwise_cons.mp sorted
    refine List.pairwise_cons.mpr ⟨fun r mem => ?_, ih others⟩
    rcases List.mem_cons.mp ((insertByName_perm p qs).mem_iff.mp mem) with rfl | mem
    · exact (String.le_total _ _).resolve_left gt
    · exact first r mem

theorem pairwise_sortByName (ps : List Program) :
    (sortByName ps).Pairwise (·.name ≤ ·.name) := by
  induction ps with
  | nil => exact .nil
  | cons p ps ih => exact pairwise_insertByName ih

/-- Programs with names of their own are put in the order of the bytes of their names. -/
theorem pairwise_bytes_sortByName (distinct : (ps.map Program.name).Nodup) :
    (sortByName ps).Pairwise fun p q => bytes p.name < bytes q.name := by
  have names_perm := (sortByName_perm ps).map Program.name
  have distinct' : (sortByName ps).Pairwise fun p q => p.name ≠ q.name :=
    List.pairwise_map.mp (names_perm.nodup_iff.mpr distinct)
  refine ((pairwise_sortByName ps).and distinct').imp fun ⟨le, ne⟩ => ?_
  exact (lt_iff_bytes_lt _ _).mp (lt_of_le_of_ne le ne)

/-- In which order programs were found does not matter. -/
theorem sortByName_eq_of_perm {ps' : List Program} (distinct : (ps.map Program.name).Nodup)
    (perm : ps'.Perm ps) : sortByName ps' = sortByName ps := by
  have distinct' : (ps'.map Program.name).Nodup := (perm.map Program.name).nodup_iff.mpr distinct
  have sorted_perm : (sortByName ps').Perm (sortByName ps) :=
    ((sortByName_perm ps').trans perm).trans (sortByName_perm ps).symm
  exact List.Perm.eq_of_pairwise (fun p q _ _ lt gt => absurd gt (List.lt_asymm lt))
    (pairwise_bytes_sortByName distinct') (pairwise_bytes_sortByName distinct) sorted_perm

/-! ## Programs -/

section
variable {α β ε : Type} {f : α → Except ε β} {l : List α}

theorem mapM_eq_ok {g : α → β} (h : ∀ a ∈ l, f a = .ok (g a)) : l.mapM f = .ok (l.map g) := by
  induction l with
  | nil => rfl
  | cons a l ih =>
    obtain ⟨first, others⟩ := List.forall_mem_cons.mp h
    rw [List.mapM_cons, first, ih others]
    rfl

theorem exists_mapM_eq_error (h : ∃ a ∈ l, ∃ e, f a = .error e) : ∃ e, l.mapM f = .error e := by
  induction l with
  | nil =>
    obtain ⟨a, mem, -⟩ := h
    cases mem
  | cons a l ih =>
    rw [List.mapM_cons]
    cases first : f a with
    | error e => exact ⟨e, rfl⟩
    | ok b =>
      obtain ⟨a', mem, e, failed⟩ := h
      rcases List.mem_cons.mp mem with rfl | mem
      · cases first.symm.trans failed
      · obtain ⟨e, failed⟩ := ih ⟨a', mem, e, failed⟩
        exact ⟨e, by rw [failed]; rfl⟩

end

/-- The program with the given file name. It only has to compile if what is expected of it cannot be
read. -/
def programOf (tree : FileTree) (directory name : String) : Program :=
  ⟨Path.stem name, Path.join directory name,
    match expectationIn tree directory name with
    | .ok e => e
    | .error _ => .accepted⟩

/-- The programs among the names, in their order. -/
def programsOf (tree : FileTree) (directory : String) (names : List String) : List Program :=
  sortByName ((names.filter (isProgramIn tree directory)).map (programOf tree directory))

section
variable {stem : String}

theorem programOf_teeny (stem_ne : stem ≠ "") :
    (programOf tree directory (stem ++ "." ++ "teeny")).name = stem :=
  stem_teeny stem_ne

theorem mem_programsOf {p : Program} : p ∈ programsOf tree directory names ↔
    ∃ stem, IsUnit tree directory names stem ∧
      p = programOf tree directory (stem ++ "." ++ "teeny") := by
  rw [programsOf, (sortByName_perm _).mem_iff, List.mem_map]
  simp only [mem_filter_isProgramIn]
  constructor
  · rintro ⟨_, ⟨stem, unit, rfl⟩, rfl⟩
    exact ⟨stem, unit, rfl⟩
  · rintro ⟨stem, unit, rfl⟩
    exact ⟨_, ⟨stem, unit, rfl⟩, rfl⟩

theorem mem_map_name_programsOf :
    stem ∈ (programsOf tree directory names).map Program.name ↔
      IsUnit tree directory names stem := by
  rw [List.mem_map]
  simp only [mem_programsOf]
  constructor
  · rintro ⟨_, ⟨stem, unit, rfl⟩, rfl⟩
    rwa [programOf_teeny unit.stem_ne]
  · exact fun unit => ⟨_, ⟨stem, unit, rfl⟩, programOf_teeny unit.stem_ne⟩

end

theorem distinct_programs (distinct : names.Nodup) :
    (((names.filter (isProgramIn tree directory)).map (programOf tree directory)).map
      Program.name).Nodup := by
  rw [List.map_map]
  refine (distinct.filter _).map_on fun name mem name' mem' same => ?_
  obtain ⟨stem, unit, rfl⟩ := mem_filter_isProgramIn.mp mem
  obtain ⟨stem', unit', rfl⟩ := mem_filter_isProgramIn.mp mem'
  rw [Function.comp_apply, Function.comp_apply, programOf_teeny unit.stem_ne,
    programOf_teeny unit'.stem_ne] at same
  rw [same]

theorem programsOf_eq_of_perm {names' : List String} (distinct : names.Nodup)
    (perm : names'.Perm names) :
    programsOf tree directory names' = programsOf tree directory names :=
  sortByName_eq_of_perm (distinct_programs distinct) ((perm.filter _).map _)

theorem programsIn_of_canFind (sound : tree.Sound)
    (can : CanFind tree directory ((programsOf tree directory names).map Program.name)) :
    programsIn tree directory names =
      .ok ((names.filter (isProgramIn tree directory)).map (programOf tree directory)) := by
  refine mapM_eq_ok fun name mem => ?_
  obtain ⟨stem, unit, rfl⟩ := mem_filter_isProgramIn.mp mem
  obtain ⟨e, expected⟩ := (exists_expectationIn_iff sound unit).mpr
    (can stem (mem_map_name_programsOf.mpr unit))
  simp only [programIn, programOf, expected]
  rfl

theorem exists_programsIn_error (sound : tree.Sound)
    (cannot : ¬CanFind tree directory ((programsOf tree directory names).map Program.name)) :
    ∃ e, programsIn tree directory names = .error e := by
  obtain ⟨stem, mem, unreadable⟩ : ∃ stem ∈ (programsOf tree directory names).map Program.name,
      ¬(stem ≠ "." ∧ CanExpect tree directory stem) := by
    simpa only [CanFind, not_forall, exists_prop] using cannot
  have unit := mem_map_name_programsOf.mp mem
  refine exists_mapM_eq_error ⟨_, mem_filter_isProgramIn.mpr ⟨stem, unit, rfl⟩, ?_⟩
  cases expected : expectationIn tree directory (stem ++ "." ++ "teeny") with
  | error e => exact ⟨e, by rw [programIn, expected]; rfl⟩
  | ok e => exact absurd ((exists_expectationIn_iff sound unit).mp ⟨e, expected⟩) unreadable

theorem nodup_of_list (listed : tree.list directory = .ok names) : names.Nodup := by
  obtain ⟨place, -, -, rfl⟩ := list_eq_ok_iff.mp listed
  exact nodup_eraseDups _

section
variable (sound : tree.Sound) (listed : tree.list directory = .ok names)
  (reordered : Reordered tree tree')
include sound listed reordered

/-- If not all that is expected can be read, then it does not matter which of it is read first. -/
theorem run_of_cannotFind
    (cannot : ¬CanFind tree directory ((programsOf tree directory names).map Program.name)) :
    ∃ e, (run directory : StateM FileTree _).run tree' = pure (.failed e, tree') := by
  obtain ⟨names', listed', perm⟩ := reordered.list_perm _ _ listed
  rw [← programsOf_eq_of_perm (nodup_of_list listed) perm] at cannot
  obtain ⟨e, failed⟩ := exists_programsIn_error sound cannot
  rw [← programsIn_eq reordered.toSameEntries] at failed
  exact ⟨e, run_run_of_programsIn_error listed' failed⟩

/-- Otherwise the same programs run in the same order. -/
theorem run_of_canFind
    (can : CanFind tree directory ((programsOf tree directory names).map Program.name))
    {r : Report} (h : (runPrograms (nameWidth (programsOf tree directory names)) 1 0
      (programsOf tree directory names) : StateM FileTree _).run tree' = pure (r, tree')) :
    (run directory : StateM FileTree _).run tree' =
      pure (r.before (announcement directory (nameWidth (programsOf tree directory names))
        (programsOf tree directory names).length) [], tree') := by
  obtain ⟨names', listed', perm⟩ := reordered.list_perm _ _ listed
  have same : programsOf tree directory names' = programsOf tree directory names :=
    programsOf_eq_of_perm (nodup_of_list listed) perm
  rw [← same] at can h ⊢
  have found := programsIn_of_canFind sound can
  rw [← programsIn_eq reordered.toSameEntries] at found
  exact run_run_of_programsIn_ok listed' found h

end

/-! ## The verdict -/

/-- The suite runs these programs on `tree'`, which it finds in `tree`, up to the first that cannot
be read. It passes if there is none and each of them meets what is expected of it. -/
structure Runs (tree tree' : FileTree) (directory : String) (ps : List Program) : Prop where
  finished : (∀ p ∈ ps, Readable tree p) → ∃ passed,
    (passed = true ↔ ∀ p ∈ ps, Meets tree directory p.name (sourceIn tree p)) ∧
    (run directory : StateM FileTree _).run tree' =
      pure (⟨announcement directory (nameWidth ps) ps.length ++
        programLines tree (nameWidth ps) 1 ps ++
        summary (nameWidth ps) (passesIn tree ps) ps.length,
        programLogs tree ps, .ok passed⟩, tree')
  stopped : ∀ before p after e, ps = before ++ p :: after → (∀ q ∈ before, Readable tree q) →
    tree.read p.path = .error e →
    (run directory : StateM FileTree _).run tree' =
      pure (⟨announcement directory (nameWidth ps) ps.length ++
        programLines tree (nameWidth ps) 1 before,
        programLogs tree before, .error e⟩, tree')

section
variable (sound : tree.Sound)
  (can : CanFind tree directory ((programsOf tree directory names).map Program.name))
include sound can

theorem complaint_of_mem_programsOf {p : Program} (mem : p ∈ programsOf tree directory names) :
    p.path = fileIn directory p.name "teeny" ∧ ∀ source,
      p.expectation.complaint? (compile source) = none ↔
        Meets tree directory p.name source := by
  obtain ⟨stem, unit, rfl⟩ := mem_programsOf.mp mem
  have found := can stem (mem_map_name_programsOf.mpr unit)
  obtain ⟨e, expected⟩ := (exists_expectationIn_iff sound unit).mpr found
  rw [programOf_teeny unit.stem_ne]
  refine ⟨rfl, fun source => ?_⟩
  rw [← complaint_eq_none_iff unit.stem_ne found.1 expected]
  simp only [programOf, expected]

theorem runs_programsOf (listed : tree.list directory = .ok names)
    (reordered : Reordered tree tree') :
    Runs tree tree' directory (programsOf tree directory names) := by
  have same := reordered.toSameEntries
  have run_eq {r : Report} := run_of_canFind sound listed reordered can (r := r)
  have passed_iff : decide (passesIn tree (programsOf tree directory names) =
      (programsOf tree directory names).length) = true ↔
        ∀ p ∈ programsOf tree directory names, Meets tree directory p.name (sourceIn tree p) := by
    rw [decide_eq_true_iff, passesIn, List.countP_eq_length]
    refine forall₂_congr fun p mem => ?_
    rw [Option.isNone_iff_eq_none]
    exact (complaint_of_mem_programsOf sound can mem).2 _
  generalize programsOf tree directory names = ps at run_eq passed_iff ⊢
  constructor
  · intro readable
    have readable' : ∀ p ∈ ps, Readable tree' p :=
      fun p mem => (readable_iff same p).mpr (readable p mem)
    have ran := run_eq (run_runPrograms_of_readable readable')
    rw [programLines_eq same, passesIn_eq same, programLogs_eq same] at ran
    refine ⟨_, passed_iff, ran.trans ?_⟩
    simp only [Report.before, String.append_assoc, List.nil_append]
  · rintro before p after e rfl readable unreadable
    have readable' : ∀ q ∈ before, Readable tree' q :=
      fun q mem => (readable_iff same q).mpr (readable q mem)
    have unreadable' : tree'.read p.path = .error e := by rw [same.read_eq, unreadable]
    have ran := run_eq (run_runPrograms_of_unreadable readable' unreadable')
    rw [programLines_eq same, programLogs_eq same] at ran
    exact ran

end

/-- The units of a suite are in the order of the bytes of their names, in whatever order the
directory shows them. If what is expected of one of them cannot be read, nothing is printed.
Otherwise they run as programs of their names. -/
theorem verdict_of_suite (sound : tree.Sound) (listed : tree.list directory = .ok names) :
    ∃ stems : List String,
      stems.Pairwise (fun s t => bytes s < bytes t) ∧
      (∀ stem, stem ∈ stems ↔ IsUnit tree directory names stem) ∧
      (∀ names', names'.Perm names →
        ∃ tree', Reordered tree tree' ∧ tree'.list directory = .ok names') ∧
      (¬CanFind tree directory stems → ∀ tree', Reordered tree tree' →
        ∃ e, (run directory : StateM FileTree _).run tree' = pure (⟨"", [], .error e⟩, tree')) ∧
      (CanFind tree directory stems → ∃ ps : List Program, ps.map Program.name = stems ∧
        (∀ p ∈ ps, p.path = fileIn directory p.name "teeny" ∧ ∀ source,
          p.expectation.complaint? (compile source) = none ↔
            Meets tree directory p.name source) ∧
        ∀ tree', Reordered tree tree' → Runs tree tree' directory ps) := by
  refine ⟨(programsOf tree directory names).map Program.name, ?_,
    fun stem => mem_map_name_programsOf,
    fun names' perm => exists_reordered sound.distinct listed perm,
    fun cannot tree' reordered => run_of_cannotFind sound listed reordered cannot,
    fun can => ⟨programsOf tree directory names, rfl,
      fun p mem => complaint_of_mem_programsOf sound can mem,
      fun tree' reordered => runs_programsOf sound can listed reordered⟩⟩
  have distinct := nodup_of_list listed
  exact List.pairwise_map.mpr (pairwise_bytes_sortByName (distinct_programs distinct))

/-- A unit that is refused as it should be, and one that only has to compile. -/
theorem two_units_in_another_order :
    let tree : FileTree := ⟨["work"], [(["work", "s", "b.teeny"], .file "GOTO x".toUTF8),
      (["work", "s", "b.err"], .file " label: x\n".toUTF8),
      (["work", "s", "a.teeny"], .file "".toUTF8)]⟩
    tree.Sound ∧ tree.list "s" = .ok ["b.teeny", "b.err", "a.teeny"] ∧
      ∃ tree', Reordered tree tree' ∧ tree'.list "s" = .ok ["a.teeny", "b.teeny", "b.err"] ∧
        ∃ output log, (run "s" : StateM FileTree _).run tree' =
          pure (⟨output, log, .ok true⟩, tree') := by
  intro tree
  have sound : tree.Sound := sound_of_apart (by decide) (by decide) (by decide)
  have listed : tree.list "s" = .ok ["b.teeny", "b.err", "a.teeny"] := by decide +kernel
  obtain ⟨stems, -, mem_iff, orders, -, found⟩ := verdict_of_suite sound listed
  obtain ⟨tree', reordered, listed'⟩ := orders ["a.teeny", "b.teeny", "b.err"] (by decide)
  have read_a : tree.read (fileIn "s" "a" "teeny") = .ok "" :=
    read_eq_ok (by decide +kernel : tree.resolve _ = .ok ["work", "s", "a.teeny"]) rfl
  have read_b : tree.read (fileIn "s" "b" "teeny") = .ok "GOTO x" :=
    read_eq_ok (by decide +kernel : tree.resolve _ = .ok ["work", "s", "b.teeny"]) rfl
  have read_err : tree.read (fileIn "s" "b" "err") = .ok " label: x\n" :=
    read_eq_ok (by decide +kernel : tree.resolve _ = .ok ["work", "s", "b.err"]) rfl
  have absent : tree.isPresent (fileIn "s" "a" "c") = false ∧
      tree.isPresent (fileIn "s" "a" "err") = false ∧
      tree.isPresent (fileIn "s" "b" "c") = false := by decide +kernel
  have present : tree.isPresent (fileIn "s" "b" "err") = true := by decide +kernel
  have stem_eq (stem : String) (mem : stem ∈ stems) : stem = "a" ∨ stem = "b" := by
    have named := ((mem_iff stem).mp mem).listed
    have of_same {s : String} (same : stem ++ "." ++ "teeny" = s ++ "." ++ "teeny") : stem = s :=
      (String.append_left_inj _).mp ((String.append_left_inj _).mp same)
    simp only [List.mem_cons, List.not_mem_nil, or_false] at named
    rcases named with same | same | same
    · exact .inr (of_same (same.trans (by decide)))
    · exact absurd (congrArg (fun s => s.toList.getLast?) same) (by simp)
    · exact .inl (of_same (same.trans (by decide)))
  have can : CanFind tree "s" stems := by
    intro stem mem
    rcases stem_eq stem mem with rfl | rfl
    · exact ⟨by decide, by simp [CanExpect, absent]⟩
    · exact ⟨by decide, by simp [CanExpect, absent, present, read_err]⟩
  have meets_a : Meets tree "s" "a" "" := by
    have accepted :
        compile "" = .ok "#include <stdio.h>\nint main(void)\x7b\nreturn 0;\n\x7d\n" := by
      decide +kernel
    simp [Meets, absent, accepted]
  have meets_b : Meets tree "s" "b" "GOTO x" := by
    have refused : compile "GOTO x" = .error (.names ⟨⟨1, 6⟩, .unknownLabel "x"⟩) := by
      decide +kernel
    have contained : (Text.trim " label: x\n").toList <:+:
        (Diagnostic.names ⟨⟨1, 6⟩, .unknownLabel "x"⟩).message.toList :=
      (occursIn_iff_isInfix _ _).mp (by decide +kernel)
    simpa [Meets, absent, present, read_err, refused] using contained
  obtain ⟨ps, names_eq, expected, runs⟩ := found can
  have source_of (p : Program) (mem : p ∈ ps) :
      ∃ source, tree.read p.path = .ok source ∧ Meets tree "s" p.name source := by
    rw [(expected p mem).1]
    rcases stem_eq p.name (names_eq ▸ List.mem_map_of_mem mem) with eq | eq <;> rw [eq]
    · exact ⟨_, read_a, meets_a⟩
    · exact ⟨_, read_b, meets_b⟩
  obtain ⟨passed, passed_iff, ran⟩ := (runs tree' reordered).finished fun p mem =>
    (source_of p mem).imp fun _ h => h.1
  have all_met : passed = true := passed_iff.mpr fun p mem => by
    obtain ⟨source, read, meets⟩ := source_of p mem
    rwa [sourceIn_eq read]
  rw [all_met] at ran
  exact ⟨sound, listed, tree', reordered, listed', _, _, ran⟩

end MiniBasic.Suite
