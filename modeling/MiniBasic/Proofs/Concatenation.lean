import Mathlib.Data.List.Induction
import MiniBasic.Proofs.CodeLines
import MiniBasic.Proofs.LineEnds

/-!
# One source behind another

A source that ends with a newline is cut from whatever follows it: scanning does not go on beyond
the newline, no phrase but a blank line does, and the names that it introduces are known to what
follows. So two accepted sources that place different labels are accepted as one, and what this
compiles to is what they compile to, one behind the other (`compilation_append`).
-/

namespace MiniBasic

/-! ## Tokens -/

section
variable {source₁ source₂ : String} {ts us : List (Located Token)}

/-- Behind a source that ends with a newline, the tokens of another one are the same. -/
theorem exists_tokensOf_append (closed : source₁.toList.getLast? = some '\n') (ne : source₂ ≠ "")
    (h₁ : tokensOf source₁ = .ok ts) (h₂ : tokensOf source₂ = .ok us) :
    ∃ vs, tokensOf (source₁ ++ source₂) = .ok vs ∧
      vs.map (·.value) = ts.map (·.value) ++ us.map (·.value) := by
  have reads := (reads_of_tokensOf_ok h₁).append_of_ok closed ne (reads_of_tokensOf_ok h₂)
  exact ⟨_, tokensOf_eq_of_reads reads, by simp⟩

end

/-! ## Phrases -/

namespace Phrase
variable {as bs ks ns : List Kind}

theorem derives_many_append {p : Phrase} (h : (many p).Derives as) (h' : (many p).Derives bs) :
    (many p).Derives (as ++ bs) := by
  generalize eq : many p = q at h
  induction h with
  | stop =>
    obtain rfl : p = _ := by injection eq
    exact h'
  | more first _ _ ih =>
    obtain rfl : p = _ := by injection eq
    rw [List.append_assoc]
    exact .more first (ih rfl)
  | _ => cases eq

/-- A line may be followed by any number of blank lines. -/
theorem derives_nl_append (h : (rule .nl).Derives ks) (blank : (many (rule .nl)).Derives ns) :
    (rule .nl).Derives (ks ++ ns) := by
  have newlines : (many (token .newline)).Derives ns := derives_many_nl_iff.mp blank
  cases h with
  | rule body =>
    cases body with
    | sequence first rest =>
      rw [List.append_assoc]
      exact .rule (.sequence first (derives_many_append rest newlines))

theorem derives_statement_append (h : (rule .statement).Derives ks)
    (blank : (many (rule .nl)).Derives ns) : (rule .statement).Derives (ks ++ ns) := by
  cases h with
  | rule body =>
    cases body with
    | sequence statement line =>
      rw [List.append_assoc]
      exact .rule (.sequence statement (derives_nl_append line blank))

/-- The last statement takes the blank lines behind it. -/
theorem derives_statements_append (h : (many (rule .statement)).Derives ks)
    (blank : (many (rule .nl)).Derives ns) :
    ks = [] ∨ (many (rule .statement)).Derives (ks ++ ns) := by
  generalize eq : many (rule .statement) = q at h
  induction h with
  | stop => exact .inl rfl
  | @more _ as bs first rest _ ih =>
    obtain rfl : rule .statement = _ := by injection eq
    refine .inr ?_
    rcases ih rfl with rfl | more
    · rw [List.append_nil, ← List.append_nil (as ++ ns)]
      exact .more (derives_statement_append first blank) .stop
    · rw [List.append_assoc]
      exact .more first more
  | _ => cases eq

theorem derives_program_append (h : (rule .program).Derives as) (h' : (rule .program).Derives bs) :
    (rule .program).Derives (as ++ bs) := by
  cases h with
  | rule body =>
    cases h' with
    | rule body' =>
      cases body with
      | @sequence _ _ _ ss lines statements =>
        cases body' with
        | @sequence _ _ ls' ss' lines' statements' =>
          refine .rule ?_
          rcases derives_statements_append statements lines' with rfl | more
          · rw [List.append_nil, ← List.append_assoc]
            exact .sequence (derives_many_append lines lines') statements'
          · rw [List.append_assoc, ← List.append_assoc ss]
            exact .sequence lines (derives_many_append more statements')

end Phrase

/-! ## Names -/

section
variable {os ps : List Occurrence} {ts us : List (Located Token)}

/-- Programs that observe the rules observe them together, unless they place the same label. -/
theorem StaticRules.append (h : StaticRules os) (h' : StaticRules ps)
    (disjoint : ∀ name ∈ placed os, name ∉ placed ps) : StaticRules (os ++ ps) where
  operands_introduced before name after eq := by
    rcases List.append_eq_append_iff.mp eq with ⟨more, rfl, split⟩ | ⟨more, split, rest⟩
    · have mem := h'.operands_introduced more name after split
      simp [mem]
    · cases more with
      | nil =>
        have mem := h'.operands_introduced [] name after (by simpa using rest.symm)
        simp [introduced] at mem
      | cons o more =>
        obtain ⟨rfl, rfl⟩ := List.cons.inj rest
        exact h.operands_introduced before name more split
  introduced_free := by
    rw [introduced_append]
    exact List.forall_mem_append.mpr ⟨h.introduced_free, h'.introduced_free⟩
  placed_free := by
    rw [placed_append]
    exact List.forall_mem_append.mpr ⟨h.placed_free, h'.placed_free⟩
  placed_nodup := by
    rw [placed_append, List.nodup_append]
    refine ⟨h.placed_nodup, h'.placed_nodup, ?_⟩
    rintro name mem _ mem' rfl
    exact disjoint name mem mem'
  targets_placed := by
    rw [targets_append, placed_append]
    refine List.append_subset.mpr ⟨?_, ?_⟩
    · exact List.subset_append_of_subset_left _ h.targets_placed
    · exact List.subset_append_of_subset_right _ h'.targets_placed

/-- A newline cuts the identifiers of a source from those of what follows. -/
theorem occurrences_append_of_newline {t : Located Token} (newline : t.kind = .newline) :
    occurrences (ts ++ [t] ++ us) = occurrences (ts ++ [t]) ++ occurrences us := by
  rw [occurrences_append, lastKind_append_singleton, newline]
  rfl

end

/-! ## Trees -/

theorem squeeze_append_newline (blank : Bool) (ts us : List Token) :
    squeeze blank (ts ++ .newline :: us) = squeeze blank (ts ++ [.newline]) ++ squeeze true us := by
  induction ts generalizing blank with
  | nil => cases blank <;> simp [squeeze, Token.newline]
  | cons t ts ih =>
    simp only [List.cons_append, squeeze, ih]
    split <;> simp

theorem filter_eraseDups {α : Type} [DecidableEq α] (p : α → Bool) (l : List α) :
    l.eraseDups.filter p = (l.filter p).eraseDups := by
  induction l using List.reverseRecOn with
  | nil => rfl
  | append_singleton l x ih =>
    by_cases px : p x <;> by_cases mem : x ∈ l <;>
      simp [List.eraseDups_append, List.removeAll, List.eraseDups_cons, px, mem, ih]

/-- The line that declares the variable. -/
def declarationLine (name : String) : String := "float " ++ name ++ ";"

theorem declarationLine_injective : Function.Injective declarationLine := by
  intro name name' h
  simpa [declarationLine] using h

theorem declarationLine_head (name : String) : (declarationLine name).toList.head? = some 'f' := by
  simp [declarationLine]

theorem declarations_eq_unlines (known names : List String) :
    declarations known names =
      unlines ((names.eraseDups.filter (· ∉ known)).map declarationLine) := by
  have newline : ";\n" = ";" ++ "\n" := by decide
  rw [filter_eraseDups]
  simp [declarations, unlines, declarationLine, Function.comp_def, newline, String.append_assoc]

namespace Tree
variable {t u : Tree}

theorem append_nil (t : Tree) : t.append nil = t := by
  induction t <;> simp_all [append]

def headerLines (t : Tree) : List String := "#include <stdio.h>" :: t.declarationLines

theorem declarationLines_eq (t : Tree) :
    t.declarationLines = t.assigned.eraseDups.map declarationLine := rfl

theorem header_eq_unlines (t : Tree) :
    "#include <stdio.h>\n" ++ declarations [] t.assigned = unlines t.headerLines := by
  have newline : "#include <stdio.h>\n" = "#include <stdio.h>" ++ "\n" := by decide
  rw [headerLines, declarationLines_eq, unlines_cons, declarations_eq_unlines, newline]
  simp

theorem linesOf_header (lexical : ∀ u ∈ t.tokens, u.Lexical) :
    linesOf (unlines t.headerLines) = t.headerLines ++ [""] := by
  refine linesOf_unlines fun line mem => t.oneLine_programLines lexical line ?_
  exact List.mem_append_left _ (List.mem_append_left _ mem)

theorem declarationLine_mem_header {name : String} :
    declarationLine name ∈ t.headerLines ++ [""] ↔ name ∈ t.assigned := by
  have head := declarationLine_head name
  have ne_include : declarationLine name ≠ "#include <stdio.h>" := by
    intro same
    simp [same] at head
  have ne_empty : declarationLine name ≠ "" := by
    intro same
    simp [same] at head
  simp [headerLines, declarationLines_eq, ne_include, ne_empty,
    declarationLine_injective.eq_iff]

/-- Of the lines of a header, another header lacks those that declare other variables. -/
theorem filter_headerLines (t u : Tree) :
    (u.headerLines ++ [""]).filter (· ∉ t.headerLines ++ [""]) =
      (u.assigned.eraseDups.filter (· ∉ t.assigned)).map declarationLine := by
  have first : "#include <stdio.h>" ∈ t.headerLines ++ [""] := List.mem_cons_self
  rw [headerLines.eq_def u, declarationLines_eq u, List.cons_append, List.filter_cons,
    List.filter_append, List.filter_map]
  simp only [Function.comp_def, declarationLine_mem_header]
  simp [first]

theorem exists_declarationLine (hu : ∀ v ∈ u.tokens, v.Lexical) {line : String}
    (mem : line ∈ (u.headerLines ++ [""]).filter (· ∉ t.headerLines ++ [""])) :
    ∃ name : String, IsWord name.toList ∧ line = declarationLine name := by
  rw [filter_headerLines] at mem
  obtain ⟨name, declared, rfl⟩ := List.mem_map.mp mem
  have assigned := List.mem_eraseDups.mp (List.mem_of_mem_filter declared)
  exact ⟨name, isWord_of_mem hu (.inl assigned), rfl⟩

theorem unlines_headerLines_append (ht : ∀ v ∈ t.tokens, v.Lexical)
    (hu : ∀ v ∈ u.tokens, v.Lexical) :
    unlines (t.append u).headerLines = unlines t.headerLines ++
      unlines ((linesOf (unlines u.headerLines)).filter
        (· ∉ linesOf (unlines t.headerLines))) := by
  rw [linesOf_header ht, linesOf_header hu, filter_headerLines, ← declarations_eq_unlines,
    ← header_eq_unlines, ← header_eq_unlines, assigned_append, declarations_append,
    List.append_nil, String.append_assoc]

end Tree

/-! ## Whole sources -/

section
variable {source source₁ source₂ : String} {c c₁ c₂ : Compilation} {t t₁ t₂ : Tree}

theorem exists_compilation {code : String} (h : compile source = .ok code) :
    ∃ c, compilation source = .ok c ∧ c.code = code := by
  cases result : compilation source with
  | error d => simp [compile, result, Except.map] at h
  | ok c => exact ⟨c, rfl, by simpa [compile, result, Except.map] using h⟩

/-- What an accepted source is translated to is what its tree means. -/
theorem output_of_spells (h : compilation source = .ok c) (spelled : Spells source t) :
    Output.ofEvents (Recognition.ofSource source).events =
        ⟨unlines t.headerLines, "int main(void)\x7b\n" ++ (t.code ++ "return 0;\n\x7d\n")⟩ ∧
      c = ⟨(Output.ofEvents (Recognition.ofSource source).events).text, .program :: t.rules⟩ := by
  obtain ⟨ts, scanned, tokens_eq⟩ := spelled
  have same := Recognition.ofSource_of_tokensOf_ok scanned
  rw [compilation, same] at h
  rw [same]
  cases result : (Pass.ofTokens (endLocation source) ts).result with
  | error d => simp [Pass.recognition, result, Except.map] at h
  | ok =>
    obtain ⟨t', -, tokens_eq', translated⟩ :=
      Pass.translation_ofTokens (reads_of_tokensOf_ok scanned).spelled result
    obtain rfl := Tree.tokens_injective (tokens_eq'.trans tokens_eq.symm)
    simp only [Pass.recognition, result, Except.map, Except.ok.injEq] at h
    constructor
    · rw [Output.ofEvents_eq, Pass.recognition, translated, Tree.header_eq_unlines]
      simp [String.append_assoc]
    · rw [← h, Recognition.rules, filterMap_rule?_eq, translated]
      rfl

theorem exists_compilation_iff {ts : List (Located Token)} (scanned : tokensOf source = .ok ts) :
    (∃ c, compilation source = .ok c) ↔ IsProgram ts ∧ StaticRules (occurrences ts) := by
  have ne_eof := (reads_of_tokensOf_ok scanned).ne_eof
  rw [← Pass.result_eq_ok_iff (endLocation source) ne_eof, compilation,
    Recognition.ofSource_of_tokensOf_ok scanned, Pass.recognition]
  cases (Pass.ofTokens (endLocation source) ts).result <;> simp [Except.map]

theorem occurrences_congr {ts us : List (Located Token)}
    (same : ts.map (·.value) = us.map (·.value)) : occurrences ts = occurrences us := by
  rw [occurrences, occurrences, occurrencesAfter_eq, occurrencesAfter_eq, same]

/-- An accepted source that ends with a newline and another one behind it are accepted together,
unless they place the same label, and they spell the tree of the first followed by that of the
second. -/
theorem spells_append (closed : source₁.toList.getLast? = some '\n')
    (h₁ : compilation source₁ = .ok c₁) (h₂ : compilation source₂ = .ok c₂)
    (spelled₁ : Spells source₁ t₁) (spelled₂ : Spells source₂ t₂)
    (disjoint : ∀ name ∈ placed (occurrences (leadingTokens source₁)),
      name ∉ placed (occurrences (leadingTokens source₂))) :
    Spells (source₁ ++ source₂) (t₁.append t₂) ∧ ∃ c, compilation (source₁ ++ source₂) = .ok c := by
  by_cases empty : source₂ = ""
  · subst empty
    have spelled : Spells "" .nil := ⟨[⟨.start, .newline⟩], by decide +kernel, rfl⟩
    obtain rfl := spelled₂.unique spelled
    rw [String.append_empty, Tree.append_nil]
    exact ⟨spelled₁, c₁, h₁⟩
  · obtain ⟨ts, scanned₁, tokens₁⟩ := spelled₁
    obtain ⟨us, scanned₂, tokens₂⟩ := spelled₂
    obtain ⟨program₁, rules₁⟩ := (exists_compilation_iff scanned₁).mp ⟨c₁, h₁⟩
    obtain ⟨program₂, rules₂⟩ := (exists_compilation_iff scanned₂).mp ⟨c₂, h₂⟩
    rw [leadingTokens_of_tokensOf_ok scanned₁, leadingTokens_of_tokensOf_ok scanned₂] at disjoint
    obtain ⟨vs, scanned, values⟩ := exists_tokensOf_append closed empty scanned₁ scanned₂
    obtain ⟨front, last, rfl, newline, -⟩ :=
      (tokensOf_eq_ok_iff_lexed.mp scanned₁).exists_last (terminated_ne_nil _) (closed_terminated _)
    have kind : last.kind = .newline := congrArg Token.kind newline
    constructor
    · refine ⟨vs, scanned, ?_⟩
      rw [Tree.tokens_append, tokens₁, tokens₂, values]
      simp only [normalForm_eq_squeeze, List.map_append, List.map_cons, List.map_nil, newline,
        List.append_assoc, List.singleton_append, ← squeeze_append_newline]
    · refine (exists_compilation_iff scanned).mpr ⟨?_, ?_⟩
      · have kinds := congrArg (List.map Token.kind) values
        simp only [List.map_append, List.map_map, Function.comp_def] at kinds
        rw [IsProgram, kinds]
        exact Phrase.derives_program_append (by simpa [IsProgram] using program₁) program₂
      · rw [← List.map_append] at values
        rw [occurrences_congr values, occurrences_append_of_newline kind]
        exact rules₁.append rules₂ disjoint

/-- Two accepted sources, of which the first ends with a newline, are accepted one behind the other,
unless they place the same label. The body is that of the first up to its ending, and then that of
the second behind its opening. The header is that of the first, and then those lines of the second
that the first does not have, all of which declare variables. The rules are those of the first, and
then those of the second but for the program. -/
theorem compilation_append (closed : source₁.toList.getLast? = some '\n')
    (h₁ : compilation source₁ = .ok c₁) (h₂ : compilation source₂ = .ok c₂)
    (disjoint : ∀ name ∈ placed (occurrences (leadingTokens source₁)),
      name ∉ placed (occurrences (leadingTokens source₂))) :
    ∃ header₁ header₂ main₁ main₂ : String,
      Output.ofEvents (Recognition.ofSource source₁).events =
        ⟨header₁, "int main(void)\x7b\n" ++ (main₁ ++ "return 0;\n\x7d\n")⟩ ∧
      Output.ofEvents (Recognition.ofSource source₂).events =
        ⟨header₂, "int main(void)\x7b\n" ++ (main₂ ++ "return 0;\n\x7d\n")⟩ ∧
      Output.ofEvents (Recognition.ofSource (source₁ ++ source₂)).events =
        ⟨header₁ ++ unlines ((linesOf header₂).filter (· ∉ linesOf header₁)),
          "int main(void)\x7b\n" ++ (main₁ ++ (main₂ ++ "return 0;\n\x7d\n"))⟩ ∧
      (∀ line ∈ linesOf header₂, line ∉ linesOf header₁ →
        ∃ name : String, IsWord name.toList ∧ line = declarationLine name) ∧
      c₂.rules.head? = some .program ∧
      compilation (source₁ ++ source₂) =
        .ok ⟨(Output.ofEvents (Recognition.ofSource (source₁ ++ source₂)).events).text,
          c₁.rules ++ c₂.rules.tail⟩ := by
  have code₁ : compile source₁ = .ok c₁.code := by simp [compile, h₁, Except.map]
  have code₂ : compile source₂ = .ok c₂.code := by simp [compile, h₂, Except.map]
  obtain ⟨t₁, tree₁⟩ := exists_tree code₁
  obtain ⟨t₂, tree₂⟩ := exists_tree code₂
  obtain ⟨spelled, c, h⟩ := spells_append closed h₁ h₂ tree₁.spelled tree₂.spelled disjoint
  obtain ⟨output₁, rfl⟩ := output_of_spells h₁ tree₁.spelled
  obtain ⟨output₂, rfl⟩ := output_of_spells h₂ tree₂.spelled
  obtain ⟨output, rfl⟩ := output_of_spells h spelled
  refine ⟨_, _, _, _, output₁, output₂, ?_, fun line mem other => ?_, rfl, ?_⟩
  · rw [output, Tree.unlines_headerLines_append tree₁.lexical tree₂.lexical, Tree.code_append,
      String.append_assoc]
  · rw [Tree.linesOf_header tree₁.lexical] at other
    rw [Tree.linesOf_header tree₂.lexical] at mem
    exact Tree.exists_declarationLine tree₂.lexical
      (List.mem_filter.mpr ⟨mem, decide_eq_true other⟩)
  · rw [h, Tree.rules_append]
    rfl

/-- The second source assigns to a variable that is declared already, and jumps to its own label. -/
theorem code_of_jump_behind_label :
    let ending := ["return 0;", "\x7d"]
    compile "LABEL a\nLET x = 1\n" = .ok (unlines
      (["#include <stdio.h>", "float x;", "int main(void)\x7b", "a:", "x = 1;"] ++ ending)) ∧
    compile "\nLET y = 2\nLET x = y\nGOTO b\nLABEL b" = .ok (unlines
      (["#include <stdio.h>", "float y;", "float x;", "int main(void)\x7b", "y = 2;", "x = y;",
        "goto b;", "b:"] ++ ending)) ∧
    compile ("LABEL a\nLET x = 1\n" ++ "\nLET y = 2\nLET x = y\nGOTO b\nLABEL b") = .ok (unlines
      (["#include <stdio.h>", "float x;", "float y;", "int main(void)\x7b", "a:", "x = 1;",
        "y = 2;", "x = y;", "goto b;", "b:"] ++ ending)) := by
  intro ending
  have code₁ : compile "LABEL a\nLET x = 1\n" = .ok (unlines
      (["#include <stdio.h>", "float x;", "int main(void)\x7b", "a:", "x = 1;"] ++ ending)) := by
    decide +kernel
  have code₂ : compile "\nLET y = 2\nLET x = y\nGOTO b\nLABEL b" = .ok (unlines
      (["#include <stdio.h>", "float y;", "float x;", "int main(void)\x7b", "y = 2;", "x = y;",
        "goto b;", "b:"] ++ ending)) := by decide +kernel
  obtain ⟨c₁, h₁, -⟩ := exists_compilation code₁
  obtain ⟨c₂, h₂, -⟩ := exists_compilation code₂
  obtain ⟨header₁, header₂, main₁, main₂, -, -, -, -, -, joined⟩ :=
    compilation_append (by decide) h₁ h₂ (by decide +kernel)
  refine ⟨code₁, code₂, ?_⟩
  rw [compile, joined, Except.map, Except.ok.injEq]
  dsimp only
  decide +kernel

end

end MiniBasic
