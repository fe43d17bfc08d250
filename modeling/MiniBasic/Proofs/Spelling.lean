import MiniBasic.Proofs.TokenStream
import MiniBasic.Tree

/-!
# Spelling

A keyword, an operator or a newline is written in one way only, so the kind of such a token tells
its text. The tokens that a scanner reads are spelled this way, as are those of a tree.

The newlines of a source come in runs, of which a tree has one newline each. `squeeze` leaves out
the others, given whether a newline stands in front.
-/

namespace MiniBasic

/-- The text of a token of this kind, if there is only one. -/
def Kind.spelling? : Kind → Option String
  | newline => some "\n"
  | keyword k => some k.spelling
  | assign => some "="
  | plus => some "+"
  | minus => some "-"
  | times => some "*"
  | divide => some "/"
  | relation r => some r.symbol
  | eof | number | ident | string => none

structure Token.Spelled (t : Token) : Prop where
  ne_eof : t.kind ≠ .eof
  text_eq : ∀ text, t.kind.spelling? = some text → t.text = text

theorem Token.Spelled.eq {t : Token} (h : t.Spelled) {k : Kind} {text : String} (kind : t.kind = k)
    (spelling : k.spelling? = some text) : t = ⟨k, text⟩ := by
  obtain ⟨k', text'⟩ := t
  obtain rfl : k' = k := kind
  rw [show text' = text from h.text_eq text spelling]

theorem Keyword.spelling_of_ofSpelling? {k : Keyword} {word : String}
    (h : Keyword.ofSpelling? word = some k) : k.spelling = word := by
  simpa using List.find?_some h

theorem lexeme_token_spelled {cs : List Char} {t : Token} {n : Nat} (h : lexeme cs = .token t n) :
    t.Spelled := by
  refine ⟨lexeme_token_ne_eof h, fun text spelling => ?_⟩
  revert h
  fun_cases lexeme cs with
  | case1 | case14 | case18 =>
    intro eq
    cases eq
  | case15 rest =>
    fun_cases stringLexeme rest with
    | case1 =>
      intro eq
      cases eq
      cases spelling
    | _ =>
      intro eq
      cases eq
  | case16 c rest =>
    fun_cases numberLexeme (c :: rest) with
    | case1 =>
      intro eq
      cases eq
    | _ =>
      intro eq
      cases eq
      cases spelling
  | case17 c rest =>
    intro eq
    cases eq
    unfold wordKind at spelling
    split at spelling
    next k word =>
      cases spelling
      exact (Keyword.spelling_of_ofSpelling? word).symm
    next => cases spelling
  | _ =>
    intro eq
    cases eq
    cases spelling
    rfl

namespace Scanner

theorem spelled_of_next {s s' : Scanner} {t : Located Token} (h : s.next = (.ok t, s'))
    (ne_eof : t.kind ≠ .eof) : t.value.Spelled := by
  unfold next at h
  revert h
  fun_cases read s.skipGap with
  | case1 =>
    intro eq
    cases eq
    contradiction
  | case2 token length token_eq =>
    intro eq
    cases eq
    exact lexeme_token_spelled token_eq
  | case3 =>
    intro eq
    cases eq

theorem Reads.spelled {s : Scanner} {ts : List (Located Token)}
    {r : Except (Located ScanError) Location} (h : s.Reads ts r) : ∀ t ∈ ts, t.value.Spelled := by
  induction h with
  | fault | finished => simp
  | token read ne_eof _ ih => exact List.forall_mem_cons.mpr ⟨spelled_of_next read ne_eof, ih⟩

end Scanner

/-! ## Runs of newlines -/

/-- The tokens without the newlines that follow a newline, of which there is one in front when
`blank`. -/
def squeeze (blank : Bool) : List Token → List Token
  | [] => []
  | t :: ts =>
    if t.kind = .newline then (if blank then [] else [t]) ++ squeeze true ts
    else t :: squeeze false ts

theorem collapseNewlines_eq_squeeze (t : Token) (ts : List Token) :
    collapseNewlines t ts = squeeze (t.kind = .newline) ts := by
  induction ts generalizing t with
  | nil => rfl
  | cons u us ih =>
    by_cases blank : t.kind = .newline <;> by_cases newline : u.kind = .newline <;>
      simp [collapseNewlines, squeeze, blank, newline, ih]

theorem normalForm_eq_squeeze (ts : List Token) : normalForm ts = squeeze true ts :=
  collapseNewlines_eq_squeeze .newline ts

end MiniBasic
