import MiniBasic.CommandLine
import MiniBasic.Proofs.FileWriting
import MiniBasic.Proofs.SuiteRuns

/-!
# Effects of commands

Only compiling writes a file, and it writes the code of the source that was there before, to the one
place that its output path names. It does so if all that comes before goes well: the source can be
read, there is a path for the output, the whole program is accepted, and the place can be written
to. Otherwise the tree is as it was, and so it is after all other commands
(`only_accepted_code_is_written`).
-/

namespace MiniBasic

open FileTree

variable {tree tree' : FileTree} {path target code : String} {output : Option String}
  {place : List String}

/-! ## Compiling to a path -/

section
variable {source : String}

theorem run_compileTo_of_rejected {d : Diagnostic} (rejected : compile source = .error d) :
    (compileTo source target : StateM FileTree _).run tree = pure (.error (.rejected d), tree) := by
  unfold compileTo
  simp only [rejected, StateT.run_pure]

theorem run_compileTo_of_unwritable {e : FileError} (accepted : compile source = .ok code)
    (refused : tree.write target code = .error e) :
    (compileTo source target : StateM FileTree _).run tree =
      pure (.error (.unwritable target e), tree) := by
  unfold compileTo
  simp only [accepted, StateT.run_bind, run_write_of_error refused, pure_bind, StateT.run_pure]
  rfl

theorem run_compileTo_of_written (accepted : compile source = .ok code)
    (written : tree.write target code = .ok tree') :
    (compileTo source target : StateM FileTree _).run tree = pure (.ok (), tree') := by
  unfold compileTo
  simp only [accepted, StateT.run_bind, run_write_of_ok written, pure_bind, StateT.run_pure]
  rfl

end

/-! ## Commands -/

/-- The programs that are valid are those that compile. -/
theorem check_eq_ok_iff (source : String) :
    (∃ rules, check source = .ok rules) ↔ ∃ code, compile source = .ok code := by
  simp only [check, compile, compilation]
  cases (Recognition.ofSource source).result <;> simp [Except.map]

/-- The code that a source file compiles to, and the place that it goes to. -/
structure CanCompile (tree : FileTree) (path : String) (output : Option String)
    (target code : String) (place : List String) : Prop where
  accepted : ∃ source, tree.read path = .ok source ∧ compile source = .ok code
  target_eq : output.elim (defaultOutput path) .ok = .ok target
  canWrite : tree.CanWrite target place

theorem CanCompile.unique (h : CanCompile tree path output target code place)
    {target' code' : String} {place' : List String}
    (h' : CanCompile tree path output target' code' place') :
    target = target' ∧ code = code' ∧ place = place' := by
  obtain ⟨⟨source, found, accepted⟩, target_eq, canWrite⟩ := h
  obtain ⟨⟨source', found', accepted'⟩, target_eq', canWrite'⟩ := h'
  cases found.symm.trans found'
  cases accepted.symm.trans accepted'
  cases target_eq.symm.trans target_eq'
  cases canWrite.placeToWrite_eq.symm.trans canWrite'.placeToWrite_eq
  exact ⟨rfl, rfl, rfl⟩

/-- What a command leaves behind, by its report `r` and the tree `tree'`. -/
def Command.Effect (tree : FileTree) (r : Report) (tree' : FileTree) : Command → Prop
  | compile path output =>
    (r.status = 0 ↔ ∃ target code place, CanCompile tree path output target code place) ∧
    (r.status ≠ 0 → tree' = tree) ∧
    ∀ target code place, CanCompile tree path output target code place →
      Written tree place code tree' ∧ tree'.read target = .ok code
  | check _ path => tree' = tree ∧
    (r.status = 0 ↔
      ∃ source code, tree.read path = .ok source ∧ MiniBasic.compile source = .ok code)
  | lex path => tree' = tree ∧
    (r.status = 0 ↔ ∃ source ts, tree.read path = .ok source ∧ tokensOf source = .ok ts)
  | suite directory => tree' = tree ∧
    (r.status = 0 ↔ ∃ s : Suite.Report, s.result = .ok true ∧
      (Suite.run (directory.getD "programs/suite") : StateM FileTree _).run tree = pure (s, tree))

namespace Command

theorem exists_effect_check (tree : FileTree) (trace : Bool) (path : String) :
    ∃ r, (runCheck trace path : StateM FileTree _).run tree = pure (r, tree) ∧
      (check trace path).Effect tree r tree := by
  unfold runCheck
  simp only [StateT.run_bind, run_read, pure_bind]
  cases found : tree.read path with
  | error e => exact ⟨_, rfl, rfl, by simp [Report.status, found]⟩
  | ok source =>
    have accepted_iff := check_eq_ok_iff source
    simp only
    cases checked : MiniBasic.check source with
    | error d => exact ⟨_, rfl, rfl, by simp_all [Report.status]⟩
    | ok rules => exact ⟨_, rfl, rfl, by simp_all [Report.status]⟩

theorem exists_effect_lex (tree : FileTree) (path : String) :
    ∃ r, (runLex path : StateM FileTree _).run tree = pure (r, tree) ∧
      (lex path).Effect tree r tree := by
  unfold runLex
  simp only [StateT.run_bind, run_read, pure_bind]
  cases found : tree.read path with
  | error e => exact ⟨_, rfl, rfl, by simp [Report.status, found]⟩
  | ok source =>
    simp only
    cases fault : (Scanner.ofSource source).scan.fault with
    | some e => exact ⟨_, rfl, rfl, by simp [Report.status, found, tokensOf, fault]⟩
    | none => exact ⟨_, rfl, rfl, by simp [Report.status, found, tokensOf, fault]⟩

theorem exists_effect_suite (tree : FileTree) (directory : Option String) :
    ∃ r, (runSuite (directory.getD "programs/suite") : StateM FileTree _).run tree =
      pure (r, tree) ∧ (suite directory).Effect tree r tree := by
  obtain ⟨s, ran⟩ := Suite.exists_report_run tree (directory.getD "programs/suite")
  have verdict_iff : (∃ s' : Suite.Report, s'.result = .ok true ∧
      (Suite.run (directory.getD "programs/suite") : StateM FileTree _).run tree =
        pure (s', tree)) ↔ s.result = .ok true := by
    rw [ran]
    constructor
    · rintro ⟨s', passed, same⟩
      obtain rfl : s = s' := congrArg Prod.fst same
      exact passed
    · exact fun passed => ⟨s, passed, rfl⟩
  unfold runSuite
  simp only [StateT.run_bind, ran, pure_bind]
  cases result : s.result with
  | error e => exact ⟨_, rfl, rfl, by rw [verdict_iff, result]; simp [Report.status]⟩
  | ok passed =>
    cases passed with
    | false => exact ⟨_, rfl, rfl, by rw [verdict_iff, result]; simp [Report.status]⟩
    | true => exact ⟨_, rfl, rfl, by rw [verdict_iff, result]; simp [Report.status]⟩

theorem exists_effect_compile (tree : FileTree) (path : String) (output : Option String) :
    ∃ r tree', (runCompile path output : StateM FileTree _).run tree = pure (r, tree') ∧
      (compile path output).Effect tree r tree' := by
  unfold runCompile
  simp only [StateT.run_bind, run_read, pure_bind]
  -- all that fails before the write is one of the conditions
  have effect_of_failed {r : Report} (failed : r.status ≠ 0)
      (cannot : ∀ target code place, ¬CanCompile tree path output target code place) :
      (compile path output).Effect tree r tree :=
    ⟨iff_of_false failed fun ⟨target, code, place, can⟩ => cannot target code place can,
      fun _ => rfl, fun target code place can => absurd can (cannot target code place)⟩
  cases found : tree.read path with
  | error e =>
    refine ⟨_, tree, rfl, effect_of_failed Nat.one_ne_zero fun target code place can => ?_⟩
    obtain ⟨source, read, -⟩ := can.accepted
    cases found.symm.trans read
  | ok source =>
    simp only
    cases target_eq : output.elim (defaultOutput path) .ok with
    | error failure =>
      refine ⟨_, tree, rfl, effect_of_failed Nat.one_ne_zero fun target code place can => ?_⟩
      cases target_eq.symm.trans can.target_eq
    | ok target =>
      simp only
      cases accepted : MiniBasic.compile source with
      | error d =>
        simp only [StateT.run_bind, run_compileTo_of_rejected accepted, pure_bind]
        refine ⟨_, tree, rfl, effect_of_failed Nat.one_ne_zero fun target code place can => ?_⟩
        obtain ⟨source', read, accepted'⟩ := can.accepted
        cases found.symm.trans read
        cases accepted.symm.trans accepted'
      | ok code =>
        by_cases can : ∃ place, tree.CanWrite target place
        · obtain ⟨place, canWrite⟩ := can
          obtain ⟨tree', written, content, again⟩ := exists_written canWrite code
          simp only [StateT.run_bind, run_compileTo_of_written accepted written, pure_bind]
          have can : CanCompile tree path output target code place :=
            ⟨⟨source, found, accepted⟩, target_eq, canWrite⟩
          refine ⟨_, tree', rfl, iff_of_true rfl ⟨target, code, place, can⟩, fun failed => ?_, ?_⟩
          · exact absurd rfl failed
          · intro target' code' place' can'
            obtain ⟨rfl, rfl, rfl⟩ := can.unique can'
            exact ⟨content, again⟩
        · obtain ⟨e, refused⟩ := exists_write_error can code
          simp only [StateT.run_bind, run_compileTo_of_unwritable accepted refused, pure_bind]
          refine ⟨_, tree, rfl, effect_of_failed Nat.one_ne_zero fun target' code place can' => ?_⟩
          cases target_eq.symm.trans can'.target_eq
          exact can ⟨place, can'.canWrite⟩

theorem exists_effect (tree : FileTree) (command : Command) :
    ∃ r tree', (command.run : StateM FileTree _).run tree = pure (r, tree') ∧
      command.Effect tree r tree' := by
  cases command with
  | compile path output => exact exists_effect_compile tree path output
  | check trace path =>
    obtain ⟨r, ran, effect⟩ := exists_effect_check tree trace path
    exact ⟨r, tree, ran, effect⟩
  | lex path =>
    obtain ⟨r, ran, effect⟩ := exists_effect_lex tree path
    exact ⟨r, tree, ran, effect⟩
  | suite directory =>
    obtain ⟨r, ran, effect⟩ := exists_effect_suite tree directory
    exact ⟨r, tree, ran, effect⟩

/-! ## Command lines -/

/-- The word that asks for a command. -/
def name : Command → String
  | compile .. => "compile"
  | check .. => "check"
  | lex .. => "lex"
  | suite .. => "suite"

section
variable {words : List String} {command : Command}

theorem name_of_parseCompile (h : parseCompile? words = some command) :
    command.name = "compile" := by
  revert h
  fun_cases parseCompile? words <;> rintro ⟨⟩ <;> rfl

theorem name_of_parseCheck (h : parseCheck? words = some command) : command.name = "check" := by
  revert h
  fun_cases parseCheck? words <;> rintro ⟨⟩ <;> rfl

theorem name_of_parseLex (h : parseLex? words = some command) : command.name = "lex" := by
  revert h
  fun_cases parseLex? words <;> rintro ⟨⟩
  rfl

theorem name_of_parseSuite (h : parseSuite? words = some command) : command.name = "suite" := by
  revert h
  fun_cases parseSuite? words <;> rintro ⟨⟩ <;> rfl

/-- A tool does what its first word says, and the compiler needs no word for that. -/
theorem name_of_ofWords {tool : Tool} (h : ofWords? tool words = some command) :
    (tool = .compiler → command.name = "compile") ∧
      (tool = .full → words.head? = some command.name) := by
  revert h
  fun_cases ofWords? tool words with
  | case1 => exact fun h => ⟨fun _ => name_of_parseCompile h, nofun⟩
  | case2 words => exact fun h => ⟨nofun, fun _ => congrArg some (name_of_parseCompile h).symm⟩
  | case3 words => exact fun h => ⟨nofun, fun _ => congrArg some (name_of_parseCheck h).symm⟩
  | case4 words => exact fun h => ⟨nofun, fun _ => congrArg some (name_of_parseLex h).symm⟩
  | case5 words => exact fun h => ⟨nofun, fun _ => congrArg some (name_of_parseSuite h).symm⟩
  | case6 => nofun

end

end Command

/-- A source goes to its target as code or not at all. Of the commands, only those that compile
change a file, and it is the one that the output path names. -/
theorem only_accepted_code_is_written :
    (∀ (tree : FileTree) (source target : String),
      (∀ d, compile source = .error d → (Failure.rejected d).message = d.message ∧
        (compileTo source target : StateM FileTree _).run tree =
          pure (.error (.rejected d), tree)) ∧
      ∀ code, compile source = .ok code →
        ((¬∃ place, tree.CanWrite target place) → ∃ e,
          (compileTo source target : StateM FileTree _).run tree =
            pure (.error (.unwritable target e), tree)) ∧
        ∀ place, tree.CanWrite target place → ∃ tree',
          (compileTo source target : StateM FileTree _).run tree = pure (.ok (), tree') ∧
            Written tree place code tree' ∧ tree'.read target = .ok code) ∧
    ∀ tool words command, Command.ofWords? tool words = some command →
      (tool = .compiler → command.name = "compile") ∧
      (tool = .full → words.head? = some command.name) ∧
      ∀ tree, ∃ r tree', (command.run : StateM FileTree _).run tree = pure (r, tree') ∧
        command.Effect tree r tree' := by
  refine ⟨fun tree source target => ⟨fun d rejected => ?_, fun code accepted => ⟨?_, ?_⟩⟩,
    fun tool words command parsed => ?_⟩
  · exact ⟨rfl, run_compileTo_of_rejected rejected⟩
  · intro cannot
    obtain ⟨e, refused⟩ := exists_write_error cannot code
    exact ⟨e, run_compileTo_of_unwritable accepted refused⟩
  · intro place canWrite
    obtain ⟨tree', written, content, again⟩ := exists_written canWrite code
    exact ⟨tree', run_compileTo_of_written accepted written, content, again⟩
  · obtain ⟨compiler, full⟩ := Command.name_of_ofWords parsed
    exact ⟨compiler, full, fun tree => Command.exists_effect tree command⟩

/-- A source that is compiled to its own file, and one with a jump that leads nowhere, which is
not. -/
theorem compiled_in_place :
    let tree : FileTree :=
      ⟨["work"], [(["work", "a.teeny"], .file "PRINT \"hi\"".toUTF8), (["work", "b"], .directory)]⟩
    Command.ofWords? .compiler ["a.teeny", "./a.teeny"] =
        some (.compile "a.teeny" (some "./a.teeny")) ∧
      ∃ r tree', (Command.run (.compile "a.teeny" (some "./a.teeny")) : StateM FileTree _).run
          tree = pure (r, tree') ∧ r.status = 0 ∧
        tree'.read "./a.teeny" = .ok ("#include <stdio.h>\nint main(void)\x7b\n" ++
          "printf(\"hi\\n\");\nreturn 0;\n\x7d\n") ∧
        tree'.entry? ["work", "b"] = some .directory ∧
      ∃ d, compile "GOTO a" = .error d ∧
        (compileTo "GOTO a" "a.teeny" : StateM FileTree _).run tree =
          pure (.error (.rejected d), tree) := by
  intro tree
  have parsed : Command.ofWords? .compiler ["a.teeny", "./a.teeny"] =
      some (.compile "a.teeny" (some "./a.teeny")) := by decide +kernel
  obtain ⟨-, -, effect⟩ := only_accepted_code_is_written.2 _ _ _ parsed
  obtain ⟨r, tree', ran, status_iff, -, written⟩ := effect tree
  have can : CanCompile tree "a.teeny" (some "./a.teeny") "./a.teeny"
      ("#include <stdio.h>\nint main(void)\x7b\n" ++
        "printf(\"hi\\n\");\nreturn 0;\n\x7d\n") ["work", "a.teeny"] := by
    refine ⟨⟨"PRINT \"hi\"", ?_, by decide +kernel⟩, rfl, canWrite_of_placeToWrite ?_⟩
    · have resolved : tree.resolve "a.teeny" = .ok ["work", "a.teeny"] := by decide +kernel
      exact read_eq_ok resolved rfl
    · decide +kernel
  obtain ⟨written, content⟩ := written _ _ _ can
  have other : tree'.entry? ["work", "b"] = some .directory := by
    rw [written.others ["work", "b"] (by decide)]
    rfl
  have rejected : compile "GOTO a" = .error (.names ⟨⟨1, 6⟩, .unknownLabel "a"⟩) := by
    decide +kernel
  exact ⟨parsed, r, tree', ran, status_iff.mpr ⟨_, _, _, can⟩, content, other, _, rejected,
    ((only_accepted_code_is_written.1 tree "GOTO a" "a.teeny").1 _ rejected).2⟩

end MiniBasic
