import MiniBasic.Proofs.LexicalGrammar
import MiniBasic.Proofs.NormalForm

/-!
# Spelling out tokens

The tokens of a source can be spelled out with a space in front of each, and the text that comes out
is scanned into the same tokens again. No two of them run together, because a lexeme with a space in
it is a string, which is over at its second quote (`IsLexeme.longest_space`). As blanks and
comments do not matter, the text compiles as the source does.
-/

namespace MiniBasic

/-- The tokens as they are written, with a space in front of each. -/
def spelledOut (ts : List Token) : List Char := ts.flatMap fun t => ' ' :: t.written

theorem spelledOut_cons (t : Token) (ts : List Token) :
    spelledOut (t :: ts) = [' '] ++ (t.written ++ spelledOut ts) := rfl

/-! ## Lexemes in front of a space -/

section
variable {w : List Char} {t : Token}

/-- Only a string has a quote in it, or a space. -/
theorem IsLexeme.string_or (h : IsLexeme w t) :
    (∃ body, w = '"' :: (body ++ ['"']) ∧ '"' ∉ body) ∨ '"' ∉ w ∧ ' ' ∉ w := by
  have word (h : IsWord w) : '"' ∉ w ∧ ' ' ∉ w := ⟨h.not_mem (by decide), h.not_mem (by decide)⟩
  cases h with
  | number numeral =>
    exact .inr ⟨numeral.not_mem (by decide) (by decide), numeral.not_mem (by decide) (by decide)⟩
  | @string body legal => exact .inl ⟨body, rfl, fun mem => absurd (legal _ mem) (by decide)⟩
  | ident free => exact .inr (word free)
  | @fixed k text spelling =>
    right
    cases k with
    | eof | number | ident | string => cases spelling
    | keyword k =>
      cases spelling
      exact word (isWord_spelling k)
    | newline | assign | plus | minus | times | divide =>
      cases spelling
      decide
    | relation r =>
      cases spelling
      cases r <;> decide

/-- No lexeme goes on beyond a space that is not in it. -/
theorem IsLexeme.longest_space (h : IsLexeme w t) (rest : List Char) :
    Longest w (' ' :: rest) t := by
  refine h.longest_of_not_beyond (fun w' t' h' beyond => ?_) rest
  obtain ⟨c, w_tail, w_eq, -⟩ := h.head
  rcases h'.string_or with ⟨body', rfl, no_quote⟩ | ⟨-, no_space⟩
  · -- The longer one is a string, so that `w` begins with its quote and is a string as well.
    have quoted : '"' ∈ w := by
      rw [w_eq, List.cons_append, List.cons_prefix_cons] at beyond
      rw [w_eq, beyond.1]
      exact List.mem_cons_self
    rcases h.string_or with ⟨body, rfl, -⟩ | ⟨no_quote', -⟩
    · have inner : body ++ ['"'] ++ [' '] <+: body' ++ ['"'] := (List.cons_prefix_cons.mp beyond).2
      have shorter : (body ++ ['"']).length ≤ body'.length := by
        simpa using inner.length_le
      have within : body ++ ['"'] <+: body' :=
        List.prefix_of_prefix_length_le ((List.prefix_append _ _).trans inner)
          (List.prefix_append _ _) shorter
      exact no_quote (within.subset (by simp))
    · exact no_quote' quoted
  · exact no_space (beyond.subset (by simp))

end

/-! ## Spelling out -/

theorem Lexed.isLexeme {l : Location} {cs rest : List Char} {ts : List (Located Token)}
    (h : Lexed l cs ts rest) : ∀ t ∈ ts, IsLexeme t.value.written t.value := by
  induction h with
  | nil => nofun
  | cons _ _ longest _ ih =>
    refine List.forall_mem_cons.mpr ⟨?_, ih⟩
    rw [longest.isLexeme.written_eq]
    exact longest.isLexeme

/-- Tokens that are spelled out fall into their lexemes again. -/
theorem exists_lexed_spelledOut {ts : List Token} (lexemes : ∀ t ∈ ts, IsLexeme t.written t)
    (l : Location) : ∃ us, us.map (·.value) = ts ∧ Lexed l (spelledOut ts) us [] := by
  induction ts generalizing l with
  | nil => exact ⟨[], rfl, .nil⟩
  | cons t ts ih =>
    obtain ⟨here, behind⟩ := List.forall_mem_cons.mp lexemes
    have gap : Gap [' '] (t.written ++ spelledOut ts) :=
      ⟨[' '], [], rfl, List.forall_mem_singleton.mpr rfl, .inl rfl⟩
    have longest : Longest t.written (spelledOut ts) t := by
      cases ts with
      | nil => exact ⟨here, fun _ _ _ fits => by simpa [spelledOut] using fits.length_le⟩
      | cons u us => exact here.longest_space _
    obtain ⟨us, values, lexed⟩ := ih behind (l.advance ([' '] ++ t.written))
    refine ⟨⟨l.advance [' '], t⟩ :: us, by rw [List.map_cons, values], ?_⟩
    rw [spelledOut_cons]
    exact .cons gap rfl longest lexed

/-- A source that is spelled out ends in a newline and has the same tokens. -/
theorem exists_tokensOf_spelledOut {source : String} {ts : List (Located Token)}
    (scanned : tokensOf source = .ok ts) :
    (spelledOut (ts.map (·.value))).getLast? = some '\n' ∧
      ∃ us, tokensOf (String.ofList (spelledOut (ts.map (·.value)))) = .ok us ∧
        us.map (·.value) = ts.map (·.value) := by
  have lexed := tokensOf_eq_ok_iff_lexed.mp scanned
  have last : (spelledOut (ts.map (·.value))).getLast? = some '\n' := by
    obtain ⟨front, newline, rfl, value, -⟩ :=
      lexed.exists_last (terminated_ne_nil _) (closed_terminated _)
    have written : newline.value.written = ['\n'] := by
      rw [value]
      rfl
    simp [spelledOut, written]
  refine ⟨last, ?_⟩
  obtain ⟨us, values, lexed'⟩ := exists_lexed_spelledOut
    (List.forall_mem_map.mpr lexed.isLexeme) Location.start
  refine ⟨us, tokensOf_eq_ok_iff_lexed.mpr ?_, values⟩
  rwa [String.toList_ofList, terminated, if_pos last]

/-- When the tokens of a source are spelled out with a space in front of each, the text ends in a
newline and is scanned into the same tokens. So it compiles to the same code, or is refused for the
same reason, but maybe at another place. -/
theorem spelledOut_compiles_alike {source : String} {ts : List (Located Token)}
    (scanned : tokensOf source = .ok ts) :
    let source' := String.ofList (spelledOut (ts.map (·.value)))
    source'.toList.getLast? = some '\n' ∧
    (∃ ts', tokensOf source' = .ok ts' ∧ ts'.map (·.value) = ts.map (·.value)) ∧
    ((∃ code, compile source = .ok code ∧ compile source' = .ok code) ∨
      ∃ (d : Diagnostic) (l l' : Location),
        compile source = .error (d.moveTo l) ∧ compile source' = .error (d.moveTo l')) := by
  intro source'
  obtain ⟨last, ts', scanned', same⟩ := exists_tokensOf_spelledOut scanned
  refine ⟨by rwa [String.toList_ofList], ⟨ts', scanned', same⟩, ?_⟩
  unfold compile
  have comes := compilation_of_recognition scanned
  have comes' := compilation_of_recognition scanned'
  rw [same] at comes'
  cases result : (Pass.ofNormalForm (normalForm (ts.map (·.value)))).result with
  | ok =>
    simp only [result] at comes comes'
    exact .inl ⟨_, congrArg (Except.map _) comes, congrArg (Except.map _) comes'⟩
  | error d =>
    simp only [result] at comes comes'
    exact .inr ⟨d, _, _, congrArg (Except.map _) comes, congrArg (Except.map _) comes'⟩

/-- The `#` in the string stays, and the comment goes. -/
theorem comment_not_spelled_out : ∃ ts',
    tokensOf " PRINT \"# a\" \n" = .ok ts' ∧
      ts'.map (·.value) = [⟨.keyword .print, "PRINT"⟩, ⟨.string, "# a"⟩, .newline] := by
  have scanned : tokensOf "PRINT\"# a\"# b" = .ok [⟨⟨1, 1⟩, ⟨.keyword .print, "PRINT"⟩⟩,
      ⟨⟨1, 6⟩, ⟨.string, "# a"⟩⟩, ⟨⟨1, 14⟩, .newline⟩] := by decide +kernel
  obtain ⟨-, again, -⟩ := spelledOut_compiles_alike scanned
  exact again

end MiniBasic
