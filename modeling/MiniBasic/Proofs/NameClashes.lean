import MiniBasic.Proofs.CodeLines

/-!
# Names of the generated code

The generated code declares a variable at file scope where `<stdio.h>` has declared its own names,
and its labels are read after the macros of `<stdio.h>` have been replaced. Every name comes from an
identifier of the source, in a line of its own: `mem_declaration_iff`, `mem_label_iff` and
`mem_jump_iff` say which. The rules for names keep out the keywords and the names that the generated
code speaks of itself, but not what else is in `<stdio.h>` (`clashFree_iff`).
-/

namespace MiniBasic

/-- The keywords of C11. -/
def standardKeywords : List String :=
  targetKeywords ++ ["_Alignas", "_Alignof", "_Atomic", "_Bool", "_Complex", "_Generic",
    "_Imaginary", "_Noreturn", "_Static_assert", "_Thread_local"]

/-- The types and functions that `<stdio.h>` declares. -/
def stdioDeclarations : List String :=
  ["size_t", "FILE", "fpos_t", "remove", "rename", "tmpfile", "tmpnam", "fclose", "fflush", "fopen",
    "freopen", "setbuf", "setvbuf", "fprintf", "fscanf", "printf", "scanf", "snprintf", "sprintf",
    "sscanf", "vfprintf", "vfscanf", "vprintf", "vscanf", "vsnprintf", "vsprintf", "vsscanf",
    "fgetc", "fgets", "fputc", "fputs", "getc", "getchar", "putc", "putchar", "puts", "ungetc",
    "fread", "fwrite", "fgetpos", "fseek", "fsetpos", "ftell", "rewind", "clearerr", "feof",
    "ferror", "perror"]

/-- The macros that `<stdio.h>` defines. -/
def stdioMacros : List String :=
  ["NULL", "_IOFBF", "_IOLBF", "_IONBF", "BUFSIZ", "EOF", "FOPEN_MAX", "FILENAME_MAX", "L_tmpnam",
    "SEEK_CUR", "SEEK_END", "SEEK_SET", "TMP_MAX", "stderr", "stdin", "stdout"]

/-- The names that a global variable cannot have. -/
def takenGlobals : List String := standardKeywords ++ "main" :: stdioDeclarations ++ stdioMacros

/-- The names that a label cannot have. -/
def takenLabels : List String := standardKeywords ++ stdioMacros

/-- The lines of the code declare no name that is taken. -/
structure ClashFree (lines : List String) : Prop where
  globals : ∀ name, "float " ++ name ++ ";" ∈ lines → name ∉ takenGlobals
  labels : ∀ name, name ++ ":" ∈ lines → name ∉ takenLabels
  jumps : ∀ name, "goto " ++ name ++ ";" ∈ lines → name ∉ takenLabels

/-! ## The lines of a tree -/

/-- The letters and digits that a line starts with. -/
def lead (line : String) : List Char := line.toList.takeWhile Char.isAlphanum

section
variable {a b name : String}

theorem lead_append (ne : lead a ≠ a.toList) (b : String) : lead (a ++ b) = lead a := by
  have short : (lead a).length ≠ a.toList.length := fun length =>
    ne ((List.takeWhile_prefix Char.isAlphanum).eq_of_length length)
  unfold lead at short ⊢
  rw [String.toList_append, List.takeWhile_append, if_neg short]

theorem lead_word (word : IsWord name.toList) (b : String) :
    lead (name ++ b) = name.toList ++ lead b := by
  simp only [lead, String.toList_append]
  exact List.takeWhile_append_of_pos word.isAlphanum

/-- The last character of a line. -/
def lastChar (line : String) : Option Char := line.toList.getLast?

theorem lastChar_append (ne : lastChar b ≠ none) (a : String) :
    lastChar (a ++ b) = lastChar b := by
  unfold lastChar at ne ⊢
  rw [String.toList_append, List.getLast?_append, Option.or_of_isSome]
  exact Option.isSome_iff_ne_none.mpr ne

end

/-- What the lines start with that have no name in front. -/
def leadingWords : List String := ["", "printf", "scanf", "if", "while", "int", "return"]

/-- What a line of the code of a tree is there for. -/
inductive LineOf (t : Tree) : String → Prop
  | declaration {name : String} (mem : name ∈ t.assigned) : LineOf t ("float " ++ name ++ ";")
  | label {name : String} (mem : name ∈ t.labels) : LineOf t (name ++ ":")
  | jump {name : String} (mem : name ∈ t.jumps) : LineOf t ("goto " ++ name ++ ";")
  | assignment {name : String} (mem : name ∈ t.assigned) (rest : String) :
    LineOf t (name ++ " = " ++ rest ++ ";")
  | other {line : String} (opening : lead line ∈ leadingWords.map (·.toList))
    (closing : lastChar line ≠ some ':') : LineOf t line

theorem LineOf.mono {t u : Tree} {line : String} (h : LineOf t line)
    (assigned : t.assigned ⊆ u.assigned) (labels : t.labels ⊆ u.labels)
    (jumps : t.jumps ⊆ u.jumps) : LineOf u line := by
  cases h with
  | declaration mem => exact .declaration (assigned mem)
  | label mem => exact .label (labels mem)
  | jump mem => exact .jump (jumps mem)
  | assignment mem rest => exact .assignment (assigned mem) rest
  | other opening closing => exact .other opening closing

/-- A line that starts with `a` and ends with `b`. -/
theorem lineOf_between {a b : String} {t : Tree} (ne : lead a ≠ a.toList)
    (opening : lead a ∈ leadingWords.map (·.toList)) (ne_none : lastChar b ≠ none)
    (closing : lastChar b ≠ some ':') (middle : String) : LineOf t (a ++ middle ++ b) := by
  refine .other ?_ ?_
  · rwa [String.append_assoc, lead_append ne]
  · rwa [lastChar_append ne_none]

theorem Statement.lineOf (s : Statement) : ∀ line ∈ s.lines, LineOf (.simple s .nil) line := by
  cases s with
  | printText text =>
    simp only [lines, List.forall_mem_singleton]
    exact lineOf_between (by decide) (by decide) (by decide) (by decide) text
  | print e =>
    simp only [lines, List.forall_mem_singleton]
    exact lineOf_between (by decide) (by decide) (by decide) (by decide) e.code
  | label name =>
    simp only [lines, List.forall_mem_singleton]
    exact .label (by simp [Tree.labels])
  | goto name =>
    simp only [lines, List.forall_mem_singleton]
    exact .jump (by simp [Tree.jumps])
  | assign name e =>
    simp only [lines, List.forall_mem_singleton]
    exact .assignment (by simp [Tree.assigned]) e.code
  | input name =>
    simp only [lines, List.forall_mem_cons]
    have zero : name ++ " = 0;" = name ++ " = " ++ "0" ++ ";" := by
      rw [String.append_assoc, String.append_assoc]
      rfl
    refine ⟨lineOf_between (by decide) (by decide) (by decide) (by decide) name, ?_,
      .other (by decide) (by decide), .other (by decide) (by decide), List.forall_mem_nil _⟩
    rw [zero]
    exact .assignment (by simp [Tree.assigned]) "0"

namespace Tree

theorem lineOf_lines (t : Tree) : ∀ line ∈ t.lines, LineOf t line := by
  induction t with
  | nil => simp [lines]
  | simple s next ih =>
    rw [lines, List.forall_mem_append]
    refine ⟨fun line mem => (s.lineOf line mem).mono ?_ ?_ ?_,
      fun line mem => (ih line mem).mono ?_ ?_ ?_⟩ <;>
    cases s <;> simp [assigned, labels, jumps]
  | branch c body next ih_body ih | loop c body next ih_body ih =>
    simp only [lines, List.cons_append, List.forall_mem_cons, List.forall_mem_append]
    refine ⟨lineOf_between (by decide) (by decide) (by decide) (by decide) c.code,
      fun line mem => (ih_body line mem).mono ?_ ?_ ?_, .other (by decide) (by decide),
      fun line mem => (ih line mem).mono ?_ ?_ ?_⟩ <;>
    simp [assigned, labels, jumps]

theorem lineOf_programLines (t : Tree) : ∀ line ∈ t.programLines ++ [""], LineOf t line := by
  have declared : ∀ line ∈ t.declarationLines, LineOf t line := by
    intro line mem
    obtain ⟨name, known, rfl⟩ := List.mem_map.mp mem
    exact .declaration (List.mem_eraseDups.mp known)
  simp only [programLines, List.cons_append, List.forall_mem_append, List.forall_mem_cons]
  have including : LineOf t "#include <stdio.h>" := .other (by decide) (by decide)
  have opening : LineOf t "int main(void)\x7b" := .other (by decide) (by decide)
  have result : LineOf t "return 0;" := .other (by decide) (by decide)
  have closing : LineOf t "\x7d" := .other (by decide) (by decide)
  have nothing : LineOf t "" := .other (by decide) (by decide)
  exact ⟨including, ⟨⟨declared, opening, t.lineOf_lines⟩, result, closing, List.forall_mem_nil _⟩,
    nothing, List.forall_mem_nil _⟩

end Tree

/-! ## Lines with names -/

section
variable {t : Tree} {name : String}

theorem Tree.label_mem_lines (h : name ∈ t.labels) : name ++ ":" ∈ t.lines := by
  induction t with
  | nil => simp [labels] at h
  | simple s next ih =>
    cases s <;> simp only [labels, List.mem_cons] at h <;>
      simp only [lines, Statement.lines, List.mem_append, List.mem_cons] <;> tauto
  | branch c body next ih_body ih | loop c body next ih_body ih =>
    simp only [labels, List.mem_append] at h
    simp only [lines, List.cons_append, List.mem_cons, List.mem_append]
    tauto

theorem Tree.jump_mem_lines (h : name ∈ t.jumps) : "goto " ++ name ++ ";" ∈ t.lines := by
  induction t with
  | nil => simp [jumps] at h
  | simple s next ih =>
    cases s <;> simp only [jumps, List.mem_cons] at h <;>
      simp only [lines, Statement.lines, List.mem_append, List.mem_cons] <;> tauto
  | branch c body next ih_body ih | loop c body next ih_body ih =>
    simp only [jumps, List.mem_append] at h
    simp only [lines, List.cons_append, List.mem_cons, List.mem_append]
    tauto

theorem Tree.declaration_mem_programLines (h : name ∈ t.assigned) :
    "float " ++ name ++ ";" ∈ t.programLines := by
  have declared : "float " ++ name ++ ";" ∈ t.declarationLines :=
    List.mem_map.mpr ⟨name, List.mem_eraseDups.mpr h, rfl⟩
  simp [programLines, declared]

end

theorem lead_declaration (name : String) : lead ("float " ++ name ++ ";") = "float".toList := by
  rw [String.append_assoc, lead_append (by decide)]
  decide

theorem lead_jump (name : String) : lead ("goto " ++ name ++ ";") = "goto".toList := by
  rw [String.append_assoc, lead_append (by decide)]
  decide

theorem lead_assignment {name : String} (word : IsWord name.toList) (rest : String) :
    lead (name ++ " = " ++ rest ++ ";") = name.toList := by
  have space : lead (" = " ++ (rest ++ ";")) = [] := by
    rw [lead_append (by decide)]
    decide
  rw [String.append_assoc, String.append_assoc, lead_word word, space, List.append_nil]

theorem lastChar_semicolon (line : String) : lastChar (line ++ ";") = some ';' :=
  lastChar_append (by decide) line

theorem lastChar_label (name : String) : lastChar (name ++ ":") = some ':' :=
  lastChar_append (by decide) name

namespace CompilesAs
variable {source code : String} {t : Tree}

/-- No variable is called like a keyword that starts a line. -/
theorem lead_assignment_ne (h : CompilesAs source t code) {name : String} (mem : name ∈ t.assigned)
    {keyword : String} (reserved : keyword ∈ targetKeywords) (rest : String) :
    lead (name ++ " = " ++ rest ++ ";") ≠ keyword.toList := by
  rw [lead_assignment (t.isWord_of_mem h.lexical (.inl mem))]
  intro same
  obtain rfl := String.toList_inj.mp same
  exact h.well_named.assigned_free name mem (List.mem_append_left _ reserved)

/-- Declarations and jumps are the lines that start with another keyword. -/
theorem declaration_or_jump (h : CompilesAs source t code) {line keyword : String}
    (mem : line ∈ linesOf code) (lead_eq : lead line = keyword.toList)
    (reserved : keyword ∈ targetKeywords)
    (other : keyword.toList ∉ leadingWords.map (·.toList)) (closing : lastChar line = some ';') :
    (∃ name ∈ t.assigned, line = "float " ++ name ++ ";") ∨
      ∃ name ∈ t.jumps, line = "goto " ++ name ++ ";" := by
  rw [h.linesOf_code] at mem
  cases t.lineOf_programLines line mem with
  | declaration assigned => exact .inl ⟨_, assigned, rfl⟩
  | jump jump => exact .inr ⟨_, jump, rfl⟩
  | label => simp [lastChar_label] at closing
  | assignment assigned rest => exact absurd lead_eq (h.lead_assignment_ne assigned reserved rest)
  | other opening _ => exact absurd (lead_eq ▸ opening) other

theorem mem_declaration_iff (h : CompilesAs source t code) (name : String) :
    "float " ++ name ++ ";" ∈ linesOf code ↔ name ∈ t.assigned := by
  constructor
  · intro mem
    rcases h.declaration_or_jump mem (lead_declaration name) (by decide) (by decide)
      (lastChar_semicolon _) with ⟨name', assigned, eq⟩ | ⟨name', -, eq⟩
    · obtain rfl : name = name' := by simpa using eq
      exact assigned
    · have lead_eq := congrArg lead eq
      rw [lead_declaration, lead_jump] at lead_eq
      exact absurd lead_eq (by decide)
  · intro assigned
    rw [h.linesOf_code]
    exact List.mem_append_left _ (Tree.declaration_mem_programLines assigned)

theorem mem_jump_iff (h : CompilesAs source t code) (name : String) :
    "goto " ++ name ++ ";" ∈ linesOf code ↔ name ∈ t.jumps := by
  constructor
  · intro mem
    rcases h.declaration_or_jump mem (lead_jump name) (by decide) (by decide)
      (lastChar_semicolon _) with ⟨name', -, eq⟩ | ⟨name', jump, eq⟩
    · have lead_eq := congrArg lead eq
      rw [lead_declaration, lead_jump] at lead_eq
      exact absurd lead_eq (by decide)
    · obtain rfl : name = name' := by simpa using eq
      exact jump
  · intro jump
    rw [h.linesOf_code]
    simp [Tree.programLines, Tree.jump_mem_lines jump]

theorem mem_label_iff (h : CompilesAs source t code) (name : String) :
    name ++ ":" ∈ linesOf code ↔ name ∈ t.labels := by
  rw [h.linesOf_code]
  constructor
  · intro mem
    have line := t.lineOf_programLines _ mem
    generalize line_eq : name ++ ":" = line at line
    have last := lastChar_label name
    rw [line_eq] at last
    cases line with
    | label mem =>
      obtain rfl : name = _ := by simpa using line_eq
      exact mem
    | declaration | jump | assignment => simp [lastChar_semicolon] at last
    | other opening closing => exact absurd last closing
  · intro label
    simp [Tree.programLines, Tree.label_mem_lines label]

end CompilesAs

/-! ## Clashes -/

/-- Words are not among the keywords that start with an underscore. -/
theorem mem_targetKeywords {name : String} (word : IsWord name.toList)
    (h : name ∈ standardKeywords) : name ∈ targetKeywords := by
  rcases List.mem_append.mp h with mem | mem
  · exact mem
  · have underscore : ∀ keyword ∈ ["_Alignas", "_Alignof", "_Atomic", "_Bool", "_Complex",
        "_Generic", "_Imaginary", "_Noreturn", "_Static_assert", "_Thread_local"],
        '_' ∈ keyword.toList := by decide
    exact absurd (underscore name mem) (word.not_mem (by decide))

namespace CompilesAs
variable {source code : String} {t : Tree}

theorem assigned_not_mem (h : CompilesAs source t code) {name : String} (mem : name ∈ t.assigned) :
    name ∉ standardKeywords ++ targetGlobals := by
  have free := h.well_named.assigned_free name mem
  rw [List.mem_append, not_or] at free ⊢
  have word := t.isWord_of_mem h.lexical (.inl mem)
  exact ⟨fun reserved => free.1 (mem_targetKeywords word reserved), free.2⟩

theorem label_not_mem (h : CompilesAs source t code) {name : String} (mem : name ∈ t.labels) :
    name ∉ standardKeywords := by
  have word := t.isWord_of_mem h.lexical (.inr (.inl mem))
  exact fun reserved => h.well_named.labels_free name mem (mem_targetKeywords word reserved)

theorem clashFree_iff (h : CompilesAs source t code) : ClashFree (linesOf code) ↔
    (∀ name ∈ t.assigned, name ∉ stdioDeclarations ++ stdioMacros) ∧
      ∀ name ∈ t.labels, name ∉ stdioMacros := by
  constructor
  · intro free
    refine ⟨fun name mem taken => ?_, fun name mem taken => ?_⟩
    · refine free.globals name ((h.mem_declaration_iff name).mpr mem) ?_
      rw [takenGlobals, List.append_assoc]
      exact List.mem_append_right _ (List.mem_cons_of_mem _ taken)
    · exact free.labels name ((h.mem_label_iff name).mpr mem) (List.mem_append_right _ taken)
  · rintro ⟨globals, labels⟩
    have free (name : String) (mem : name ∈ t.labels) : name ∉ takenLabels := by
      rw [takenLabels, List.mem_append, not_or]
      exact ⟨h.label_not_mem mem, labels name mem⟩
    refine ⟨fun name line => ?_, fun name line => free name ((h.mem_label_iff name).mp line),
      fun name line => free name ?_⟩
    · have mem := (h.mem_declaration_iff name).mp line
      have reserved := h.assigned_not_mem mem
      have declared := globals name mem
      simp only [takenGlobals, targetGlobals, List.mem_append, List.mem_cons] at reserved declared ⊢
      tauto
    · exact h.well_named.jumps_placed ((h.mem_jump_iff name).mp line)

end CompilesAs

/-- The code of an accepted source declares no variable that is called like a keyword, `main`,
`printf` or `scanf`, and has no label that is called like a keyword. It is free of clashes if and
only if besides the source gives no variable a name from `<stdio.h>`, and no label that of a
macro. -/
theorem clashFree_code_iff {source code : String} {ts : List (Located Token)}
    (h : compile source = .ok code) (scanned : tokensOf source = .ok ts) :
    (∀ name, "float " ++ name ++ ";" ∈ linesOf code →
      name ∉ standardKeywords ++ ["main", "printf", "scanf"]) ∧
    (∀ name, name ++ ":" ∈ linesOf code ∨ "goto " ++ name ++ ";" ∈ linesOf code →
      name ∉ standardKeywords) ∧
    (ClashFree (linesOf code) ↔
      (∀ name ∈ introduced (occurrences ts), name ∉ stdioDeclarations ++ stdioMacros) ∧
      ∀ name ∈ placed (occurrences ts), name ∉ stdioMacros) := by
  obtain ⟨t, compiles⟩ := exists_tree h
  rw [← compiles.spelled.occurrences_eq scanned, t.introduced_occurrences, t.placed_occurrences]
  simp only [compiles.mem_declaration_iff, compiles.mem_label_iff, compiles.mem_jump_iff]
  refine ⟨fun name mem => compiles.assigned_not_mem mem, fun name mem => ?_,
    compiles.clashFree_iff⟩
  rcases mem with placed | jump
  · exact compiles.label_not_mem placed
  · exact compiles.label_not_mem (compiles.well_named.jumps_placed jump)

/-- A label may be called like a function of `<stdio.h>`. -/
theorem clashFree_label_remove :
    ClashFree (linesOf "#include <stdio.h>\nint main(void)\x7b\nremove:\nreturn 0;\n\x7d\n") := by
  have compiled : compile "LABEL remove" =
      .ok "#include <stdio.h>\nint main(void)\x7b\nremove:\nreturn 0;\n\x7d\n" := by
    decide +kernel
  have scanned : tokensOf "LABEL remove" = .ok (leadingTokens "LABEL remove") := by decide +kernel
  have names : occurrences (leadingTokens "LABEL remove") = [⟨some .label, "remove"⟩] := by
    decide +kernel
  refine (clashFree_code_iff compiled scanned).2.2.mpr ?_
  rw [names]
  decide

/-- A variable may be called like one too, and then it is declared twice. -/
theorem declares_remove :
    let code := "#include <stdio.h>\nfloat remove;\n" ++
      "int main(void)\x7b\nremove = 1;\nreturn 0;\n\x7d\n"
    compile "LET remove = 1\n" = .ok code ∧ ¬ClashFree (linesOf code) := by
  intro code
  refine ⟨by decide +kernel, fun free => ?_⟩
  have declared : "float " ++ "remove" ++ ";" ∈ linesOf code := by decide +kernel
  exact free.globals "remove" declared (by decide)

end MiniBasic
