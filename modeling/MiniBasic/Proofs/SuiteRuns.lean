import MiniBasic.Proofs.FileWriting
import MiniBasic.Suite

/-!
# Suites on a tree

What a suite does is a function of the tree that it runs on, and it leaves the tree as it is. The
programs are found first, with what is expected of each; then they run one after the other up to the
first that cannot be read (`run_runPrograms_append`), and each adds its line to the output.
-/

namespace MiniBasic.Suite

open FileTree

variable {tree : FileTree} {directory : String} {width number passes : ℕ} {ps : List Program}

/-! ## Finding programs -/

/-- What is expected of the program with the given file name, as the files of the tree have it. -/
def expectationIn (tree : FileTree) (directory name : String) : Except FileError Expectation :=
  let code := Path.join directory (Path.withExtension name "c")
  let message := Path.join directory (Path.withExtension name "err")
  if tree.isPresent code then (tree.read code).map .code
  else if tree.isPresent message then
    (tree.read message).map fun text => .refused (Text.trim text)
  else .ok .accepted

/-- Whether an entry of a directory is a program. -/
def isProgramIn (tree : FileTree) (directory name : String) : Bool :=
  Path.extension? name = some "teeny" && tree.isFile (Path.join directory name)

def programIn (tree : FileTree) (directory name : String) : Except FileError Program :=
  (expectationIn tree directory name).map (⟨Path.stem name, Path.join directory name, ·⟩)

def programsIn (tree : FileTree) (directory : String) (names : List String) :
    Except FileError (List Program) :=
  (names.filter (isProgramIn tree directory)).mapM (programIn tree directory)

theorem run_readExpectation (tree : FileTree) (directory name : String) :
    (readExpectation directory name : StateM FileTree _).run tree =
      pure (expectationIn tree directory name, tree) := by
  simp only [readExpectation, expectationIn, StateT.run_bind, run_isPresent, pure_bind]
  split
  · rfl
  · simp only [StateT.run_bind, run_isPresent, pure_bind]
    split <;> rfl

theorem run_findPrograms (tree : FileTree) (directory : String) (names : List String) :
    (findPrograms directory names : StateM FileTree _).run tree =
      pure (programsIn tree directory names, tree) := by
  induction names with
  | nil => rfl
  | cons name names ih =>
    have isProgram : isProgramIn tree directory name =
        (decide (Path.extension? name = some "teeny") &&
          tree.isFile (Path.join directory name)) := rfl
    unfold programsIn at ih ⊢
    rw [findPrograms, List.filter_cons, isProgram]
    by_cases extension : Path.extension? name = some "teeny"
    · cases file : tree.isFile (Path.join directory name) with
      | false => simpa [extension, file] using ih
      | true =>
        simp only [extension, file, StateT.run_bind, run_isFile, run_readExpectation, pure_bind,
          decide_true, Bool.and_self, if_true, List.mapM_cons, programIn]
        cases expectationIn tree directory name with
        | error e => rfl
        | ok expectation =>
          simp only [StateT.run_bind, ih, pure_bind]
          rfl
    · simpa [extension] using ih

/-! ## Running programs -/

/-- The source of a program. It is empty if there is none that can be read. -/
def sourceIn (tree : FileTree) (p : Program) : String :=
  match tree.read p.path with
  | .ok source => source
  | .error _ => ""

/-- What is wrong with a program, if anything. -/
def complaintIn? (tree : FileTree) (p : Program) : Option String :=
  p.expectation.complaint? (compile (sourceIn tree p))

/-- The lines on programs, of which the first is the `number`th. -/
def programLines (tree : FileTree) (width number : ℕ) (ps : List Program) : String :=
  String.join (ps.mapIdx fun i p => programLine width (number + i) p (complaintIn? tree p))

def programLogs (tree : FileTree) (ps : List Program) : List LogEntry :=
  ps.flatMap fun p => (Recognition.ofSource (sourceIn tree p)).compileLog

/-- The number of programs that did what was expected of them. -/
def passesIn (tree : FileTree) (ps : List Program) : ℕ :=
  ps.countP fun p => (complaintIn? tree p).isNone

def Readable (tree : FileTree) (p : Program) : Prop := ∃ source, tree.read p.path = .ok source

theorem sourceIn_eq {p : Program} {source : String} (h : tree.read p.path = .ok source) :
    sourceIn tree p = source := by
  simp [sourceIn, h]

@[simp] theorem before_before (r : Report) (output output' : String) (log log' : List LogEntry) :
    (r.before output log).before output' log' = r.before (output' ++ output) (log' ++ log) := by
  simp [Report.before, String.append_assoc]

@[simp] theorem before_empty (r : Report) : r.before "" [] = r := by
  simp [Report.before]

theorem run_runPrograms_cons {p : Program} (readable : Readable tree p) {r : Report}
    (h : (runPrograms width (number + 1) (passes + passesIn tree [p]) ps : StateM FileTree _).run
      tree = pure (r, tree)) :
    (runPrograms width number passes (p :: ps) : StateM FileTree _).run tree =
      pure (r.before (programLine width number p (complaintIn? tree p))
        (Recognition.ofSource (sourceIn tree p)).compileLog, tree) := by
  obtain ⟨source, found⟩ := readable
  have passes_eq : passes + passesIn tree [p] =
      if (complaintIn? tree p).isNone then passes + 1 else passes := by
    unfold passesIn
    rw [List.countP_singleton]
    split <;> rfl
  rw [passes_eq] at h
  unfold complaintIn? at h ⊢
  rw [sourceIn_eq found] at h ⊢
  simp only [runPrograms, StateT.run_bind, run_read, pure_bind, found, h]
  rfl

/-- Programs that can be read leave their lines and their logs, and then the others run. -/
theorem run_runPrograms_append {before : List Program} (readable : ∀ p ∈ before, Readable tree p)
    {r : Report} (h : (runPrograms width (number + before.length) (passes + passesIn tree before)
      ps : StateM FileTree _).run tree = pure (r, tree)) :
    (runPrograms width number passes (before ++ ps) : StateM FileTree _).run tree =
      pure (r.before (programLines tree width number before) (programLogs tree before), tree) := by
  induction before generalizing number passes with
  | nil =>
    have none : r.before (programLines tree width number []) (programLogs tree []) = r :=
      before_empty r
    rw [none]
    exact h
  | cons p before ih =>
    obtain ⟨first, others⟩ := List.forall_mem_cons.mp readable
    have number_eq : number + (p :: before).length = number + 1 + before.length := by
      rw [List.length_cons]
      omega
    have passes_eq : passes + passesIn tree (p :: before) =
        passes + passesIn tree [p] + passesIn tree before := by
      unfold passesIn
      rw [← List.singleton_append, List.countP_append, Nat.add_assoc]
    rw [number_eq, passes_eq] at h
    rw [List.cons_append, run_runPrograms_cons first (ih others h), before_before]
    have lines : programLines tree width number (p :: before) =
        programLine width number p (complaintIn? tree p) ++
          programLines tree width (number + 1) before := by
      simp only [programLines, List.mapIdx_cons, String.join_cons, Nat.add_zero, Nat.add_assoc,
        Nat.add_comm 1]
    rw [lines]
    rfl

/-- All programs ran. -/
theorem run_runPrograms_of_readable (readable : ∀ p ∈ ps, Readable tree p) :
    (runPrograms width 1 0 ps : StateM FileTree _).run tree =
      pure (⟨programLines tree width 1 ps ++ summary width (passesIn tree ps) ps.length,
        programLogs tree ps, .ok (passesIn tree ps = ps.length)⟩, tree) := by
  have last : (runPrograms width (1 + ps.length) (0 + passesIn tree ps) [] :
      StateM FileTree _).run tree =
        pure (⟨summary width (passesIn tree ps) ps.length, [],
          .ok (passesIn tree ps = ps.length)⟩, tree) := by
    simp [runPrograms]
  have run := run_runPrograms_append readable last
  rw [List.append_nil] at run
  rw [run]
  simp [Report.before]

/-- A program could not be read, and none behind it ran. -/
theorem run_runPrograms_of_unreadable {before : List Program} {p : Program} {e : FileError}
    (readable : ∀ p ∈ before, Readable tree p) (unreadable : tree.read p.path = .error e) :
    (runPrograms width 1 0 (before ++ p :: ps) : StateM FileTree _).run tree =
      pure (⟨programLines tree width 1 before, programLogs tree before, .error e⟩, tree) := by
  have last : (runPrograms width (1 + before.length) (0 + passesIn tree before) (p :: ps) :
      StateM FileTree _).run tree = pure (.failed e, tree) := by
    simp only [runPrograms, StateT.run_bind, run_read, pure_bind, unreadable]
    rfl
  rw [run_runPrograms_append readable last]
  simp [Report.before, Report.failed]

theorem exists_first_unreadable (h : ¬∀ p ∈ ps, Readable tree p) : ∃ before p after e,
    ps = before ++ p :: after ∧ (∀ q ∈ before, Readable tree q) ∧
      tree.read p.path = .error e := by
  induction ps with
  | nil => exact absurd nofun h
  | cons p ps ih =>
    cases found : tree.read p.path with
    | error e => exact ⟨[], p, ps, e, rfl, nofun, found⟩
    | ok source =>
      have first : Readable tree p := ⟨source, found⟩
      obtain ⟨before, q, after, e, rfl, readable, unreadable⟩ :=
        ih fun others => h (List.forall_mem_cons.mpr ⟨first, others⟩)
      exact ⟨p :: before, q, after, e, rfl, List.forall_mem_cons.mpr ⟨first, readable⟩, unreadable⟩

theorem exists_report_runPrograms (tree : FileTree) (width : ℕ) (ps : List Program) :
    ∃ r, (runPrograms width 1 0 ps : StateM FileTree _).run tree = pure (r, tree) := by
  by_cases readable : ∀ p ∈ ps, Readable tree p
  · exact ⟨_, run_runPrograms_of_readable readable⟩
  · obtain ⟨before, p, after, e, rfl, readable, unreadable⟩ := exists_first_unreadable readable
    exact ⟨_, run_runPrograms_of_unreadable readable unreadable⟩

/-! ## Running a suite -/

/-- What a suite says first. -/
def announcement (directory : String) (width total : ℕ) : String :=
  s!"Running suite: '{directory}' ({total} units)\n" ++ ruler width

/-- The bytes of the longest name. -/
def nameWidth (ps : List Program) : ℕ :=
  ps.foldl (fun width p => max width p.name.utf8ByteSize) 0

section
variable {names : List String} {e : FileError}

theorem run_run_of_list_error (h : tree.list directory = .error e) :
    (run directory : StateM FileTree _).run tree = pure (.failed e, tree) := by
  simp only [run, StateT.run_bind, run_list, pure_bind, h]
  rfl

theorem run_run_of_programsIn_error (listed : tree.list directory = .ok names)
    (h : programsIn tree directory names = .error e) :
    (run directory : StateM FileTree _).run tree = pure (.failed e, tree) := by
  simp only [run, StateT.run_bind, run_list, run_findPrograms, pure_bind, listed, h]
  rfl

/-- The programs that were found run in the order of their names. -/
theorem run_run_of_programsIn_ok (listed : tree.list directory = .ok names)
    (found : programsIn tree directory names = .ok ps) {r : Report}
    (h : (runPrograms (nameWidth (sortByName ps)) 1 0 (sortByName ps) : StateM FileTree _).run
      tree = pure (r, tree)) :
    (run directory : StateM FileTree _).run tree = pure (r.before
      (announcement directory (nameWidth (sortByName ps)) (sortByName ps).length) [], tree) := by
  simp only [run, StateT.run_bind, run_list, run_findPrograms, pure_bind, listed, found]
  unfold nameWidth at h
  simp only [h]
  rfl

end

/-- A suite leaves the tree as it is. -/
theorem exists_report_run (tree : FileTree) (directory : String) :
    ∃ r, (run directory : StateM FileTree _).run tree = pure (r, tree) := by
  cases listed : tree.list directory with
  | error e => exact ⟨_, run_run_of_list_error listed⟩
  | ok names =>
    cases found : programsIn tree directory names with
    | error e => exact ⟨_, run_run_of_programsIn_error listed found⟩
    | ok ps =>
      obtain ⟨r, ran⟩ := exists_report_runPrograms tree _ (sortByName ps)
      exact ⟨_, run_run_of_programsIn_ok listed found ran⟩

end MiniBasic.Suite
