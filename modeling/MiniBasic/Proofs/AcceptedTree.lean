import MiniBasic.Proofs.Acceptance
import MiniBasic.Proofs.Layout
import MiniBasic.Proofs.SinglePass

/-!
# Accepted trees

An accepted source spells a tree, its code is that of the tree, and whatever is known of the tokens
of the source is known of the tree: their texts are those of words, numerals and strings, and their
names observe the rules (`Tree.WellNamed`). `exists_tree` gathers this for theorems about what is
generated.

The rules for names speak about the identifiers of a source in their order. So do the names of a
tree, once it is clear which identifiers it has (`occurrencesOf_tree`).
-/

namespace MiniBasic

/-! ## Occurrences -/

/-- The identifiers in the tokens, of which one in front would be there for `use`. -/
def occurrencesOf (use : Option NameUse) : List Token → List Occurrence
  | [] => []
  | t :: ts =>
    if t.kind = .ident then ⟨use, t.text⟩ :: occurrencesOf (NameUse.after? t.kind) ts
    else occurrencesOf (NameUse.after? t.kind) ts

theorem occurrencesAfter_eq (prev : Kind) (ts : List (Located Token)) :
    occurrencesAfter prev ts = occurrencesOf (NameUse.after? prev) (ts.map (·.value)) := by
  induction ts generalizing prev with
  | nil => rfl
  | cons t ts ih => simp only [occurrencesAfter, List.map_cons, occurrencesOf, ih]

/-- Newlines do not matter. -/
theorem occurrencesOf_squeeze {blank : Bool} {use : Option NameUse} (h : blank → use = none)
    (ts : List Token) : occurrencesOf use (squeeze blank ts) = occurrencesOf use ts := by
  induction ts generalizing blank use with
  | nil => rfl
  | cons t ts ih =>
    by_cases newline : t.kind = .newline
    · cases blank with
      | false => simp [squeeze, occurrencesOf, newline, NameUse.after?, ih]
      | true =>
        obtain rfl := h rfl
        simp [squeeze, occurrencesOf, newline, NameUse.after?, ih]
    · simp [squeeze, occurrencesOf, newline, ih]

theorem occurrencesOf_normalForm (ts : List (Located Token)) :
    occurrencesOf none (normalForm (ts.map (·.value))) = occurrences ts := by
  rw [normalForm_eq_squeeze, occurrencesOf_squeeze fun _ => rfl]
  exact (occurrencesAfter_eq .newline ts).symm

/-- Variables as operands. -/
def operands (names : List String) : List Occurrence := names.map fun name => ⟨none, name⟩

def Statement.occurrences : Statement → List Occurrence
  | printText _ => []
  | print e => operands e.vars
  | label name => [⟨some .label, name⟩]
  | goto name => [⟨some .target, name⟩]
  | assign name e => ⟨some .assigned, name⟩ :: operands e.vars
  | input name => [⟨some .input, name⟩]

def Tree.occurrences : Tree → List Occurrence
  | nil => []
  | simple s next => s.occurrences ++ next.occurrences
  | branch c body next | loop c body next =>
    operands c.vars ++ body.occurrences ++ next.occurrences

section
variable (rest : List Token)

theorem occurrencesOf_factor (f : Factor) :
    occurrencesOf none (f.tokens ++ rest) = operands f.vars ++ occurrencesOf none rest := by
  obtain ⟨sign, operand⟩ := f
  cases operand <;> rcases sign with _ | _ | _ <;> rfl

variable {α β : Type} (op : α → Token) (tokens : β → List Token) (vars : β → List String)

theorem occurrencesOf_repeated (op_kind : ∀ a, (op a).kind ≠ .ident)
    (op_after : ∀ a, NameUse.after? (op a).kind = none)
    (one : ∀ b rest, occurrencesOf none (tokens b ++ rest) =
      operands (vars b) ++ occurrencesOf none rest) (xs : List (α × β)) :
    occurrencesOf none (xs.flatMap (fun x => op x.1 :: tokens x.2) ++ rest) =
      operands (xs.flatMap fun x => vars x.2) ++ occurrencesOf none rest := by
  induction xs with
  | nil => rfl
  | cons x xs ih =>
    simp only [List.flatMap_cons, List.cons_append, List.append_assoc, occurrencesOf, op_kind,
      op_after, if_false, one, ih]
    simp [operands]

theorem occurrencesOf_term (t : Term) :
    occurrencesOf none (t.tokens ++ rest) = operands t.vars ++ occurrencesOf none rest := by
  have repeated := occurrencesOf_repeated rest Scale.token Factor.tokens Factor.vars
    (by rintro (_ | _) <;> nofun) (by rintro (_ | _) <;> rfl)
    (fun f rest => occurrencesOf_factor rest f) t.rest
  simp [Term.tokens, Term.vars, occurrencesOf_factor, repeated, operands]

theorem occurrencesOf_expression (e : Expression) :
    occurrencesOf none (e.tokens ++ rest) = operands e.vars ++ occurrencesOf none rest := by
  have repeated := occurrencesOf_repeated rest Sign.token Term.tokens Term.vars
    (by rintro (_ | _) <;> nofun) (by rintro (_ | _) <;> rfl)
    (fun t rest => occurrencesOf_term rest t) e.rest
  simp [Expression.tokens, Expression.vars, occurrencesOf_term, repeated, operands]

theorem occurrencesOf_comparison (c : Comparison) :
    occurrencesOf none (c.tokens ++ rest) = operands c.vars ++ occurrencesOf none rest := by
  have repeated := occurrencesOf_repeated rest Relation.token Expression.tokens Expression.vars
    (by nofun) (fun _ => rfl) (fun e rest => occurrencesOf_expression rest e)
    ((c.relation, c.right) :: c.rest)
  simp only [Comparison.tokens, Comparison.vars, List.append_assoc, occurrencesOf_expression,
    repeated]
  simp [operands]

theorem occurrencesOf_statement (s : Statement) :
    occurrencesOf none (s.tokens ++ rest) = s.occurrences ++ occurrencesOf none rest := by
  cases s with
  | print e | assign name e =>
    simp [Statement.tokens, Statement.occurrences, occurrencesOf, Keyword.token, NameUse.after?,
      occurrencesOf_expression]
  | _ => rfl

theorem occurrencesOf_tree (t : Tree) :
    occurrencesOf none (t.tokens ++ rest) = t.occurrences ++ occurrencesOf none rest := by
  induction t generalizing rest with
  | nil => rfl
  | simple s next ih =>
    simp [Tree.tokens, Tree.occurrences, occurrencesOf_statement, occurrencesOf, Token.newline,
      NameUse.after?, ih]
  | branch c body next ih_body ih | loop c body next ih_body ih =>
    simp [Tree.tokens, Tree.occurrences, occurrencesOf_comparison, occurrencesOf, Token.newline,
      Keyword.token, NameUse.after?, ih_body, ih]

end

/-! ## Names -/

@[simp] theorem introduced_operands (names : List String) : introduced (operands names) = [] := by
  simp [introduced, operands, List.filterMap_eq_nil_iff, Occurrence.introduced?]

@[simp] theorem placed_operands (names : List String) : placed (operands names) = [] := by
  simp [placed, operands, List.filterMap_eq_nil_iff, Occurrence.placed?]

@[simp] theorem targets_operands (names : List String) : targets (operands names) = [] := by
  simp [targets, operands, List.filterMap_eq_nil_iff, Occurrence.target?]

section
variable (o : Occurrence) (os : List Occurrence)

@[simp] theorem introduced_cons :
    introduced (o :: os) = o.introduced?.toList ++ introduced os := by
  simp only [introduced, List.filterMap_cons]
  cases o.introduced? <;> rfl

@[simp] theorem placed_cons : placed (o :: os) = o.placed?.toList ++ placed os := by
  simp only [placed, List.filterMap_cons]
  cases o.placed? <;> rfl

@[simp] theorem targets_cons : targets (o :: os) = o.target?.toList ++ targets os := by
  simp only [targets, List.filterMap_cons]
  cases o.target? <;> rfl

end

namespace Tree
variable (t : Tree)

theorem introduced_occurrences : introduced t.occurrences = t.assigned := by
  induction t with
  | nil => rfl
  | simple s next ih =>
    cases s <;> simp [occurrences, Statement.occurrences, assigned, Occurrence.introduced?, ih]
  | branch c body next ih_body ih | loop c body next ih_body ih =>
    simp [occurrences, assigned, ih_body, ih]

theorem placed_occurrences : placed t.occurrences = t.labels := by
  induction t with
  | nil => rfl
  | simple s next ih =>
    cases s <;> simp [occurrences, Statement.occurrences, labels, Occurrence.placed?, ih]
  | branch c body next ih_body ih | loop c body next ih_body ih =>
    simp [occurrences, labels, ih_body, ih]

theorem targets_occurrences : targets t.occurrences = t.jumps := by
  induction t with
  | nil => rfl
  | simple s next ih =>
    cases s <;> simp [occurrences, Statement.occurrences, jumps, Occurrence.target?, ih]
  | branch c body next ih_body ih | loop c body next ih_body ih =>
    simp [occurrences, jumps, ih_body, ih]

end Tree

/-- Every operand is known or is introduced in front of it. -/
def OperandsKnown (known : List String) (os : List Occurrence) : Prop :=
  ∀ before name after, os = before ++ ⟨none, name⟩ :: after → name ∈ introduced before ++ known

namespace OperandsKnown
variable {known : List String} {os ps : List Occurrence}

theorem of_append_left (h : OperandsKnown known (os ++ ps)) : OperandsKnown known os := by
  intro before name after eq
  refine h before name (after ++ ps) ?_
  rw [eq, List.append_assoc, List.cons_append]

theorem of_append_right (h : OperandsKnown known (os ++ ps)) :
    OperandsKnown (introduced os ++ known) ps := by
  intro before name after eq
  have mem := h (os ++ before) name after (by rw [eq, List.append_assoc])
  simp only [introduced_append, List.mem_append] at mem ⊢
  tauto

theorem subset (names : List String) (h : OperandsKnown known (operands names ++ os)) :
    names ⊆ known := by
  intro name mem
  obtain ⟨before, after, rfl⟩ := List.append_of_mem mem
  have mem := h (operands before) name (operands after ++ os) (by simp [operands])
  simpa using mem

end OperandsKnown

theorem Tree.varsKnown_of_operandsKnown {known : List String} {t : Tree}
    (h : OperandsKnown known t.occurrences) : t.VarsKnown known := by
  induction t generalizing known with
  | nil => trivial
  | simple s next ih =>
    have behind := ih h.of_append_right
    cases s with
    | printText | label | goto => exact behind
    | print e =>
      exact ⟨OperandsKnown.subset e.vars h, by simpa [Statement.occurrences] using behind⟩
    | assign name e =>
      have all_known : OperandsKnown known
        ([⟨some .assigned, name⟩] ++ (operands e.vars ++ next.occurrences)) := h
      exact ⟨all_known.of_append_right.subset,
        by simpa [Statement.occurrences, Occurrence.introduced?] using behind⟩
    | input name => exact behind
  | branch c body next ih_body ih | loop c body next ih_body ih =>
    have in_front := h.of_append_left
    have behind := ih h.of_append_right
    rw [introduced_append, introduced_operands, List.nil_append, introduced_occurrences] at behind
    refine ⟨OperandsKnown.subset c.vars in_front, ih_body ?_, behind⟩
    simpa using in_front.of_append_right

theorem StaticRules.wellNamed {t : Tree} (h : StaticRules t.occurrences) : t.WellNamed where
  vars_known := by
    refine Tree.varsKnown_of_operandsKnown fun before name after eq => ?_
    simpa using h.operands_introduced before name after eq
  assigned_free := t.introduced_occurrences ▸ h.introduced_free
  labels_free := t.placed_occurrences ▸ h.placed_free
  labels_nodup := t.placed_occurrences ▸ h.placed_nodup
  jumps_placed := t.placed_occurrences ▸ t.targets_occurrences ▸ h.targets_placed

/-! ## Accepted sources -/

/-- The source has the tokens of the tree, except that newlines come in runs. -/
def Spells (source : String) (t : Tree) : Prop :=
  ∃ ts, tokensOf source = .ok ts ∧ t.tokens = normalForm (ts.map (·.value))

theorem Spells.unique {source : String} {t u : Tree} (h : Spells source t) (h' : Spells source u) :
    t = u := by
  obtain ⟨ts, scanned, tokens_eq⟩ := h
  obtain ⟨_, scanned', tokens_eq'⟩ := h'
  cases scanned.symm.trans scanned'
  exact Tree.tokens_injective (tokens_eq.trans tokens_eq'.symm)

/-- The identifiers of the source are those of the tree. -/
theorem Spells.occurrences_eq {source : String} {t : Tree} (h : Spells source t)
    {ts : List (Located Token)} (scanned : tokensOf source = .ok ts) :
    t.occurrences = occurrences ts := by
  obtain ⟨_, scanned', tokens_eq⟩ := h
  cases scanned.symm.trans scanned'
  rw [← occurrencesOf_normalForm, ← tokens_eq, ← List.append_nil t.tokens, occurrencesOf_tree]
  simp [occurrencesOf]

theorem mem_squeeze {blank : Bool} {ts : List Token} {t : Token} (h : t ∈ squeeze blank ts) :
    t ∈ ts := by
  induction ts generalizing blank with
  | nil => exact h
  | cons u us ih =>
    unfold squeeze at h
    split at h
    next =>
      rcases List.mem_append.mp h with mem | mem
      · cases blank with
        | false => exact List.mem_singleton.mp mem ▸ List.mem_cons_self
        | true => cases mem
      · exact List.mem_cons_of_mem u (ih mem)
    next =>
      rcases List.mem_cons.mp h with rfl | mem
      · exact List.mem_cons_self
      · exact List.mem_cons_of_mem u (ih mem)

/-- The source is accepted and compiles to the code of the tree. -/
structure CompilesAs (source : String) (t : Tree) (code : String) : Prop where
  spelled : Spells source t
  filled : t.Filled
  well_named : t.WellNamed
  lexical : ∀ u ∈ t.tokens, u.Lexical
  code_eq : code = t.program

theorem exists_tree {source code : String} (h : compile source = .ok code) :
    ∃ t, CompilesAs source t code := by
  cases scanned : tokensOf source with
  | error fault =>
    obtain ⟨d, error⟩ := exists_error_of_fault scanned
    simp [h] at error
  | ok ts =>
    have reads := reads_of_tokensOf_ok scanned
    have same := Recognition.ofSource_of_tokensOf_ok scanned
    simp only [compile, compilation, same, Pass.recognition] at h
    cases result : (Pass.ofTokens (endLocation source) ts).result with
    | error d => simp [result, Except.map] at h
    | ok =>
      obtain ⟨t, filled, tokens_eq, translated⟩ := Pass.translation_ofTokens reads.spelled result
      have rules := ((Pass.result_eq_ok_iff (endLocation source) reads.ne_eof).mp result).2
      simp only [result, Except.map, Except.ok.injEq, Output.text_ofEvents, translated] at h
      have spelled : Spells source t := ⟨ts, scanned, tokens_eq⟩
      refine ⟨t, spelled, filled, StaticRules.wellNamed ?_, ?_, ?_⟩
      · rwa [spelled.occurrences_eq scanned]
      · intro u mem
        rw [tokens_eq, normalForm_eq_squeeze] at mem
        obtain ⟨x, mem', rfl⟩ := List.mem_map.mp (mem_squeeze mem)
        have leading := leadingTokens_of_tokensOf_ok scanned
        exact lexical_leadingTokens source x (leading ▸ mem')
      · rw [← h, Tree.program_eq]

end MiniBasic
