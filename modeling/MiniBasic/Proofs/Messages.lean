import MiniBasic.Proofs.Accuracy

/-!
# Messages stay on one line

A message is put together from words of its own, numbers and what it quotes of the source
(`Diagnostic.message_eq_joined`). Most quotations are escaped. Names and malformed numbers stand in
it as they are in the source, and are harmless only because of what the scanner lets through.

A message therefore shows on one line: each piece of it consists of printable characters
(`Piece.Safe.isPrintable`), and no control character is printable.
-/

namespace MiniBasic

namespace Text

/-! ## Printable characters -/

theorem isPrintable_of_ascii {c : Char} (low : 0x20 ≤ c.toNat) (high : c.toNat < 0x7F) :
    isPrintable c := by
  simp [isPrintable, Nat.not_lt.mpr low, high]

theorem isPrintable_of_between {a c z : Char} (low : a.val ≤ c.val) (high : c.val ≤ z.val)
    (a_low : 0x20 ≤ a.toNat) (z_high : z.toNat < 0x7F) : isPrintable c :=
  isPrintable_of_ascii (a_low.trans (UInt32.le_iff_toNat_le.mp low))
    ((UInt32.le_iff_toNat_le.mp high).trans_lt z_high)

theorem isPrintable_of_isAlphanum {c : Char} (h : c.isAlphanum) : isPrintable c := by
  rcases Bool.or_eq_true_iff.mp h with letter | digit
  · rcases Bool.or_eq_true_iff.mp letter with upper | lower
    · obtain ⟨low, high⟩ : 'A'.val ≤ c.val ∧ c.val ≤ 'Z'.val := of_decide_eq_true upper
      exact isPrintable_of_between low high (by decide) (by decide)
    · obtain ⟨low, high⟩ := Bool.and_eq_true_iff.mp lower
      exact isPrintable_of_between (of_decide_eq_true low) (of_decide_eq_true high) (by decide)
        (by decide)
  · obtain ⟨low, high⟩ := Bool.and_eq_true_iff.mp digit
    exact isPrintable_of_between (of_decide_eq_true low) (of_decide_eq_true high) (by decide)
      (by decide)

theorem isPrintable_digitChar : ∀ k < 16, isPrintable (Nat.digitChar k) := by decide

theorem isPrintable_of_mem_toDigits {b : Nat} (one_lt : 1 < b) (le : b ≤ 16) (n : Nat) :
    ∀ c ∈ Nat.toDigits b n, isPrintable c := by
  induction n using Nat.strong_induction_on with
  | _ n ih =>
    rw [Nat.toDigits_eq_if one_lt]
    split
    next small => simpa using isPrintable_digitChar n (small.trans_le le)
    next large =>
      have smaller : n / b < n := Nat.div_lt_self (by omega) one_lt
      have last : n % b < 16 := (Nat.mod_lt n (by omega)).trans_le le
      rw [List.forall_mem_append]
      exact ⟨ih _ smaller, by simpa using isPrintable_digitChar _ last⟩

/-! ## Escapes -/

theorem isPrintable_of_mem_codePointEscape {c d : Char} (mem : d ∈ codePointEscape c) :
    isPrintable d := by
  have digits := isPrintable_of_mem_toDigits (by decide : 1 < 16) le_rfl c.toNat
  have front : ∀ d ∈ ['\\', 'u', '\x7b'], isPrintable d := List.all_eq_true.mp rfl
  have back : ∀ d ∈ ['\x7d'], isPrintable d := List.all_eq_true.mp rfl
  simp only [codePointEscape, List.mem_append] at mem
  rcases mem with (opening | digit) | closing
  · exact front d opening
  · exact digits d digit
  · exact back d closing

theorem isPrintable_of_shortEscape? {c letter : Char} (h : shortEscape? c = some letter) :
    isPrintable letter := by
  unfold shortEscape? at h
  split at h <;> cases h <;> decide

/-- No style shows a character that is not printable, but for the quotes that it is told of. -/
theorem EscapeStyle.isPrintable_of_mem_escape {style : EscapeStyle}
    (quotes : ∀ q ∈ style.quotes, isPrintable q) {c d : Char} (mem : d ∈ style.escape c) :
    isPrintable d := by
  have backslash : isPrintable '\\' := rfl
  unfold escape at mem
  split at mem
  next letter short =>
    rcases List.mem_pair.mp mem with rfl | rfl
    · exact backslash
    · exact isPrintable_of_shortEscape? short
  next =>
    split at mem
    next quote =>
      rcases List.mem_pair.mp mem with rfl | rfl
      · exact backslash
      · exact quotes _ (by simpa using quote)
    next =>
      split at mem
      next => exact isPrintable_of_mem_codePointEscape mem
      next =>
        split at mem
        next printable => rwa [List.mem_singleton.mp mem]
        next => exact isPrintable_of_mem_codePointEscape mem

theorem isPrintable_of_mem_quoteChar {c d : Char} (mem : d ∈ (quoteChar c).toList) :
    isPrintable d := by
  have quotes : ∀ q ∈ ['\''], isPrintable q := List.all_eq_true.mp rfl
  simp only [quoteChar, String.toList_ofList, List.mem_append] at mem
  rcases mem with (opening | inside) | closing
  · exact quotes d opening
  · exact EscapeStyle.isPrintable_of_mem_escape quotes inside
  · exact quotes d closing

theorem isPrintable_bare : ∀ q ∈ bare.quotes, isPrintable q := List.all_eq_true.mp rfl

theorem isPrintable_of_mem_escapeChar {c d : Char} (mem : d ∈ (escapeChar c).toList) :
    isPrintable d := by
  rw [escapeChar, String.toList_ofList] at mem
  exact EscapeStyle.isPrintable_of_mem_escape isPrintable_bare mem

theorem isPrintable_of_mem_escapeText {s : String} {d : Char} (mem : d ∈ (escapeText s).toList) :
    isPrintable d := by
  unfold escapeText at mem
  split at mem
  next => cases mem
  next c cs _ =>
    rw [String.toList_ofList, List.mem_append, List.mem_flatMap] at mem
    have later_quotes : ∀ q ∈ (EscapeStyle.mk bare.quotes false).quotes, isPrintable q :=
      isPrintable_bare
    rcases mem with first | ⟨e, -, later⟩
    · exact EscapeStyle.isPrintable_of_mem_escape isPrintable_bare first
    · exact EscapeStyle.isPrintable_of_mem_escape later_quotes later

end Text

/-! ## Pieces -/

/-- A part of a message. -/
inductive Piece where
  /-- Words that no source has a say in. -/
  | own (text : String)
  | number (n : Nat)
  | kind (k : Kind)
  | quotedChar (c : Char)
  | escapedChar (c : Char)
  | escaped (text : String)
  /-- A text just as it is in the source. -/
  | verbatim (text : String)

namespace Piece

def text : Piece → String
  | own text => text
  | number n => toString n
  | kind k => k.name
  | quotedChar c => Text.quoteChar c
  | escapedChar c => Text.escapeChar c
  | escaped text => Text.escapeText text
  | verbatim text => text

/-- All that a message says in words of its own, besides the names of token kinds. -/
def phrases : List String :=
  ["Compile Error (in Tokenizer): ", "Compile Error (in Parser): ",
    "Compile Error (in Resolver): ", "@", "(line: ", ", col: ", ")", ": ", "Unknown token: ",
    "Expected !=, got !", "Illegal character ", " used in string literal",
    "String literal runs past end of line", "Illegal char in number '", "'", "Expected ", ", got ",
    "Expected comparison operator, got: ", "Invalid statement at ", " (", ")",
    "Unexpected token at ", "Expected at least one statement before ", "Label already exists: ",
    "Attempting to GOTO to undeclared label: ", "Referencing variable before assignment: ",
    "Name is reserved in generated C: "]

/-- The piece is from the list of phrases or escapes what it shows, unless that has nothing in it
but letters, digits and points. -/
def Safe : Piece → Prop
  | own text => text ∈ phrases
  | verbatim text => ∀ c ∈ text.toList, c.isAlphanum ∨ c = '.'
  | number _ | kind _ | quotedChar _ | escapedChar _ | escaped _ => True

theorem isPrintable_phrases : ∀ phrase ∈ phrases, ∀ c ∈ phrase.toList, Text.isPrintable c := by
  have all : phrases.all (·.toList.all Text.isPrintable) := by decide +kernel
  simpa only [List.all_eq_true] using all

theorem isPrintable_name (k : Kind) : ∀ c ∈ k.name.toList, Text.isPrintable c := by
  rw [← List.all_eq_true]
  cases k with
  | keyword k => cases k <;> rfl
  | relation r => cases r <;> rfl
  | _ => rfl

theorem Safe.isPrintable {p : Piece} (h : p.Safe) : ∀ c ∈ p.text.toList, Text.isPrintable c := by
  intro c mem
  cases p with
  | own text => exact isPrintable_phrases text h c mem
  | number n =>
    have digit : c ∈ Nat.toDigits 10 n := by simpa [text] using mem
    exact Text.isPrintable_of_mem_toDigits (by decide) (by decide) n c digit
  | kind k => exact isPrintable_name k c mem
  | quotedChar => exact Text.isPrintable_of_mem_quoteChar mem
  | escapedChar => exact Text.isPrintable_of_mem_escapeChar mem
  | escaped => exact Text.isPrintable_of_mem_escapeText mem
  | verbatim text =>
    rcases h c mem with alphanum | rfl
    · exact Text.isPrintable_of_isAlphanum alphanum
    · rfl

end Piece

/-! ## The pieces of a message -/

section
open Piece

def ScanError.pieces : ScanError → List Piece
  | unexpectedChar c => [own "Unknown token: ", quotedChar c]
  | malformedNotEqual c => [own "Expected !=, got !", escapedChar c]
  | illegalStringChar c =>
    [own "Illegal character ", quotedChar c, own " used in string literal"]
  | unterminatedString => [own "String literal runs past end of line"]
  | malformedNumber digits => [own "Illegal char in number '", verbatim digits, own "'"]

def GrammarError.pieces : GrammarError → List Piece
  | unexpectedToken expected found =>
    [own "Expected ", kind expected, own ", got ", kind found]
  | expectedComparison text => [own "Expected comparison operator, got: ", escaped text]
  | invalidStatement text k =>
    [own "Invalid statement at ", escaped text, own " (", kind k, own ")"]
  | unexpectedPrimary text => [own "Unexpected token at ", escaped text]
  | emptyBody closing => [own "Expected at least one statement before ", kind closing]

def NameError.pieces : NameError → List Piece
  | duplicateLabel name => [own "Label already exists: ", verbatim name]
  | unknownLabel name => [own "Attempting to GOTO to undeclared label: ", verbatim name]
  | undeclaredVariable name => [own "Referencing variable before assignment: ", verbatim name]
  | reservedName name => [own "Name is reserved in generated C: ", verbatim name]

def Location.pieces (l : Location) : List Piece :=
  [own "(line: ", number l.line, own ", col: ", number l.col, own ")"]

def Located.pieces {α : Type} (parts : α → List Piece) (x : Located α) : List Piece :=
  own "@" :: (x.location.pieces ++ own ": " :: parts x.value)

def Diagnostic.pieces : Diagnostic → List Piece
  | scan e => own "Compile Error (in Tokenizer): " :: e.pieces ScanError.pieces
  | grammar e => own "Compile Error (in Parser): " :: e.pieces GrammarError.pieces
  | names e => own "Compile Error (in Resolver): " :: e.pieces NameError.pieces

end

/-- The text that the pieces make up. -/
def Piece.joined (ps : List Piece) : String :=
  String.join (ps.map text)

theorem Piece.joined_cons (p : Piece) (ps : List Piece) : joined (p :: ps) = p.text ++ joined ps :=
  String.join_cons

theorem Piece.joined_append (ps qs : List Piece) : joined (ps ++ qs) = joined ps ++ joined qs := by
  simp [joined]

theorem Piece.isPrintable_joined {ps : List Piece} (safe : ∀ p ∈ ps, p.Safe) :
    ∀ c ∈ (joined ps).toList, Text.isPrintable c := by
  intro c mem
  rw [joined, String.toList_join, List.mem_flatMap] at mem
  obtain ⟨_, here, mem⟩ := mem
  obtain ⟨p, p_mem, rfl⟩ := List.mem_map.mp here
  exact (safe p p_mem).isPrintable c mem

theorem ScanError.message_eq_joined (e : ScanError) : e.message = Piece.joined e.pieces := by
  cases e <;> rfl

theorem GrammarError.message_eq_joined (e : GrammarError) : e.message = Piece.joined e.pieces := by
  cases e <;> rfl

theorem NameError.message_eq_joined (e : NameError) : e.message = Piece.joined e.pieces := by
  cases e <;> rfl

theorem Location.render_eq_joined (l : Location) : l.render = Piece.joined l.pieces := rfl

theorem Located.render_eq_joined {α : Type} {text : α → String} {parts : α → List Piece}
    (h : ∀ a, text a = Piece.joined (parts a)) (x : Located α) :
    x.render text = Piece.joined (x.pieces parts) := by
  have render : x.render text = "@" ++ x.location.render ++ ": " ++ text x.value := rfl
  rw [render, Location.render_eq_joined, h, pieces, Piece.joined_cons, Piece.joined_append,
    Piece.joined_cons, Piece.text, Piece.text, String.append_assoc, String.append_assoc]

/-- The pieces of a diagnostic are all that its message consists of. -/
theorem Diagnostic.message_eq_joined (d : Diagnostic) : d.message = Piece.joined d.pieces := by
  cases d with
  | scan e =>
    rw [pieces, Piece.joined_cons, ← e.render_eq_joined ScanError.message_eq_joined]
    rfl
  | grammar e =>
    rw [pieces, Piece.joined_cons, ← e.render_eq_joined GrammarError.message_eq_joined]
    rfl
  | names e =>
    rw [pieces, Piece.joined_cons, ← e.render_eq_joined NameError.message_eq_joined]
    rfl

/-! ## Pieces are safe -/

theorem GrammarError.safe (e : GrammarError) : ∀ p ∈ e.pieces, p.Safe := by
  cases e <;> simp [pieces, Piece.Safe, Piece.phrases]

/-- A fault shows the text of a malformed number, which has nothing in it but digits and a point. -/
theorem ScanError.Explains.safe {e : ScanError} {cs : List Char} {offset : Nat}
    (h : e.Explains cs offset) : ∀ p ∈ e.pieces, p.Safe := by
  cases e with
  | malformedNumber raw =>
    obtain ⟨-, digits, rest, -, -, digits_digits, raw_eq, -⟩ := h
    have plain : (Piece.verbatim raw).Safe := by
      rw [Piece.Safe, raw_eq, List.forall_mem_append]
      exact ⟨fun c mem => .inl (by simp [Char.isAlphanum, digits_digits c mem]), by simp⟩
    simpa [pieces, Piece.Safe, Piece.phrases] using plain
  | _ => simp [pieces, Piece.Safe, Piece.phrases]

/-- A name that is a word may be shown as it is. -/
theorem NameError.safe {e : NameError} (h : IsWord e.name.toList) : ∀ p ∈ e.pieces, p.Safe := by
  have plain : (Piece.verbatim e.name).Safe := fun c mem => .inl (h.isAlphanum c mem)
  cases e <;> simpa [pieces, Piece.Safe, Piece.phrases, name] using plain

theorem Located.safe {α : Type} {parts : α → List Piece} {x : Located α} {phrase : String}
    (mem : phrase ∈ Piece.phrases) (h : ∀ p ∈ parts x.value, p.Safe) :
    ∀ p ∈ .own phrase :: x.pieces parts, p.Safe := by
  refine List.forall_mem_cons.mpr ⟨mem, ?_⟩
  simpa [pieces, Location.pieces, Piece.Safe, Piece.phrases] using h

/-- Of the error of a pass over tokens, only a name is shown as it is, and that name is a word. -/
theorem Diagnostic.AccurateAt.safe {past rest : List (Located Token)} {stop : Location}
    {d : Diagnostic} (h : d.AccurateAt past rest stop)
    (lexical : ∀ t ∈ past ++ rest, t.value.Lexical) : ∀ p ∈ d.pieces, p.Safe := by
  cases d with
  | scan e => exact h.elim
  | grammar e => exact Located.safe (by decide) e.value.safe
  | names e =>
    have mem : ⟨e.location, ⟨.ident, e.value.name⟩⟩ ∈ past ++ rest := NameError.Accurate.mem h
    have word : IsWord e.value.name.toList := (lexical _ mem).ident rfl
    exact Located.safe (by decide) (NameError.safe word)

theorem Diagnostic.safe_of_compile_error {source : String} {d : Diagnostic}
    (h : compile source = .error d) : ∀ p ∈ d.pieces, p.Safe := by
  rcases fault_or_accurateAt_of_compile_error h with
    ⟨fault, scanned, rfl⟩ | ⟨past, rest, stop, tokens_eq, accurate, -⟩
  · obtain ⟨_, _, cs, offset, -, -, -, explains, -⟩ := accurate_scan scanned
    exact Located.safe (by decide) explains.safe
  · exact accurate.safe (tokens_eq ▸ lexical_leadingTokens source)

/-- No control character gets into the message of a source that is refused, whatever there is in
the source. The message consists of phrases, numbers, names of kinds, and quotations; these are
escaped, or else they have nothing in them but letters, digits and points. -/
theorem compile_error_message_oneLine {source : String} {d : Diagnostic}
    (h : compile source = .error d) :
    (∀ c ∈ d.message.toList, ¬Text.isControl c) ∧
      d.message = Piece.joined d.pieces ∧ ∀ p ∈ d.pieces, p.Safe := by
  have safe := Diagnostic.safe_of_compile_error h
  refine ⟨fun c mem control => ?_, d.message_eq_joined, safe⟩
  rw [d.message_eq_joined] at mem
  have printable : Text.isPrintable c := Piece.isPrintable_joined safe c mem
  rw [Text.not_isPrintable_of_isControl control] at printable
  cases printable

theorem message_of_tab :
    compile "!\t" = .error (.scan ⟨⟨1, 1⟩, .malformedNotEqual '\t'⟩) ∧
      (Diagnostic.scan ⟨⟨1, 1⟩, .malformedNotEqual '\t'⟩).message =
        "Compile Error (in Tokenizer): @(line: 1, col: 1): Expected !=, got !\\t" ∧
      ∀ c ∈ (Diagnostic.scan ⟨⟨1, 1⟩, .malformedNotEqual '\t'⟩).message.toList,
        ¬Text.isControl c := by
  have refused : compile "!\t" = .error (.scan ⟨⟨1, 1⟩, .malformedNotEqual '\t'⟩) := by
    decide +kernel
  exact ⟨refused, by decide +kernel, (compile_error_message_oneLine refused).1⟩

end MiniBasic
