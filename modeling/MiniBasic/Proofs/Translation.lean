import MiniBasic.Output
import MiniBasic.Tree

/-!
# Translations

What a sequence of events comes to, piece by piece: the text that it adds to the header, the text
that it adds to the body and the rules that it enters. Translations are joined as the events are,
and so are those of a tree that consists of one tree after another. The header of a tree depends on
the variables that are known in front of it.
-/

namespace MiniBasic

@[ext] structure Translation where
  header : String
  body : String
  rules : List Rule
  deriving DecidableEq, Repr

namespace Translation

def empty : Translation := ⟨"", "", []⟩

instance : Append Translation :=
  ⟨fun a b => ⟨a.header ++ b.header, a.body ++ b.body, a.rules ++ b.rules⟩⟩

def ofEvent : Event → Translation
  | .enter rule => ⟨"", "", [rule]⟩
  | .fragment text => ⟨"", text, []⟩
  | .line text => ⟨"", text ++ "\n", []⟩
  | .header text => ⟨text ++ "\n", "", []⟩

def ofEvents : List Event → Translation
  | [] => empty
  | e :: events => ofEvent e ++ ofEvents events

@[simp] theorem mk_append_mk {h h' b b' : String} {r r' : List Rule} :
    (⟨h, b, r⟩ ++ ⟨h', b', r'⟩ : Translation) = ⟨h ++ h', b ++ b', r ++ r'⟩ := rfl

section
variable (a b c : Translation)

@[simp] theorem header_append : (a ++ b).header = a.header ++ b.header := rfl

@[simp] theorem body_append : (a ++ b).body = a.body ++ b.body := rfl

@[simp] theorem rules_append : (a ++ b).rules = a.rules ++ b.rules := rfl

@[simp] theorem append_empty : a ++ empty = a := by
  ext <;> simp [empty]

@[simp] theorem empty_append : empty ++ a = a := by
  ext <;> simp [empty]

theorem append_assoc : a ++ b ++ c = a ++ (b ++ c) := by
  ext <;> simp [String.append_assoc]

end

@[simp] theorem ofEvents_nil : ofEvents [] = empty := rfl

@[simp] theorem ofEvents_cons (e : Event) (events : List Event) :
    ofEvents (e :: events) = ofEvent e ++ ofEvents events := rfl

theorem ofEvents_append (es fs : List Event) :
    ofEvents (es ++ fs) = ofEvents es ++ ofEvents fs := by
  induction es with
  | nil => simp
  | cons e es ih => simp [ih, append_assoc]

end Translation

theorem Output.foldl_push (events : List Event) (out : Output) :
    events.foldl Output.push out =
      ⟨out.header ++ (Translation.ofEvents events).header,
        out.body ++ (Translation.ofEvents events).body⟩ := by
  induction events generalizing out with
  | nil => simp [Translation.empty]
  | cons e events ih =>
    rw [List.foldl_cons, ih]
    cases e <;> simp [Output.push, Translation.ofEvent, String.append_assoc]

theorem Output.ofEvents_eq (events : List Event) :
    Output.ofEvents events =
      ⟨(Translation.ofEvents events).header, (Translation.ofEvents events).body⟩ := by
  simp [Output.ofEvents, Output.foldl_push, Output.empty]

theorem Output.text_ofEvents (events : List Event) :
    (Output.ofEvents events).text =
      (Translation.ofEvents events).header ++ (Translation.ofEvents events).body := by
  rw [Output.ofEvents_eq, Output.text]

theorem filterMap_rule?_eq (events : List Event) :
    events.filterMap Event.rule? = (Translation.ofEvents events).rules := by
  induction events with
  | nil => rfl
  | cons e events ih =>
    rw [List.filterMap_cons]
    cases e <;> simp [Event.rule?, Translation.ofEvent, ih]

/-! ## Statements -/

namespace Statement

@[simp] theorem code_printText (text : String) :
    (printText text).code = "printf(\"" ++ text ++ "\\n\");\n" := rfl

@[simp] theorem code_print (e : Expression) :
    (print e).code = "printf(\"%.2f\\n\", (float)(" ++ e.code ++ "));\n" := rfl

@[simp] theorem code_label (name : String) : (label name).code = name ++ ":\n" := rfl

@[simp] theorem code_goto (name : String) : (goto name).code = "goto " ++ name ++ ";\n" := rfl

@[simp] theorem code_assign (name : String) (e : Expression) :
    (assign name e).code = name ++ " = " ++ e.code ++ ";\n" := rfl

@[simp] theorem code_input (name : String) : (input name).code =
    "if(0 == scanf(\"%f\", &" ++ name ++ ")) \x7b\n" ++ name ++
      " = 0;\nscanf(\"%*s\");\n\x7d\n" := rfl

end Statement

/-! ## Trees, one after another -/

/-- The lines that declare the variables where they first appear, unless they are known. -/
def declarations (known names : List String) : String :=
  String.join ((names.filter (· ∉ known)).eraseDups.map fun name => "float " ++ name ++ ";\n")

section
variable {known known' names names' : List String} {name : String}

@[simp] theorem declarations_nil : declarations known [] = "" := by
  simp [declarations]

theorem declarations_singleton :
    declarations known [name] = if name ∈ known then "" else "float " ++ name ++ ";\n" := by
  by_cases h : name ∈ known <;> simp [declarations, h, List.eraseDups_cons]

theorem declarations_append :
    declarations known (names ++ names') =
      declarations known names ++ declarations (names ++ known) names' := by
  simp only [declarations, List.filter_append, List.eraseDups_append, List.map_append,
    String.join_append, List.removeAll, List.filter_filter]
  congr 5
  ext x
  by_cases h : x ∈ known <;> simp [h]

theorem declarations_congr (same : ∀ x, x ∈ known ↔ x ∈ known') :
    declarations known names = declarations known' names := by
  simp only [declarations, same]

end

namespace Tree

def append : Tree → Tree → Tree
  | nil, u => u
  | simple s next, u => simple s (next.append u)
  | branch c body next, u => branch c body (next.append u)
  | loop c body next, u => loop c body (next.append u)

section
variable (t u : Tree)

theorem tokens_append : (t.append u).tokens = t.tokens ++ u.tokens := by
  induction t <;> simp_all [append, tokens]

theorem code_append : (t.append u).code = t.code ++ u.code := by
  induction t <;> simp_all [append, code, String.append_assoc]

theorem rules_append : (t.append u).rules = t.rules ++ u.rules := by
  induction t <;> simp_all [append, rules]

theorem assigned_append : (t.append u).assigned = t.assigned ++ u.assigned := by
  induction t with
  | simple s => cases s <;> simp_all [append, assigned]
  | _ => simp_all [append, assigned]

theorem filled_append : (t.append u).Filled ↔ t.Filled ∧ u.Filled := by
  induction t <;> simp_all [append, Filled, and_assoc]

end

theorem append_ne_nil {t u : Tree} (h : t ≠ nil) : t.append u ≠ nil := by
  cases t <;> simp_all [append]

/-- What a tree comes to behind the variables `known`. -/
def translation (known : List String) (t : Tree) : Translation :=
  ⟨declarations known t.assigned, t.code, t.rules⟩

theorem translation_append (known : List String) (t u : Tree) :
    (t.append u).translation known =
      t.translation known ++ u.translation (t.assigned ++ known) := by
  simp [translation, code_append, rules_append, assigned_append, declarations_append]

end Tree

end MiniBasic
