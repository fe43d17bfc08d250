/-!
# Indented text

A text of several lines is set apart from what surrounds it by a margin before each of its lines but
the first, which goes on in a line that is there already.
-/

namespace MiniBasic.Text

/-- The text with the margin after each of its newlines. -/
def indent (margin text : String) : String :=
  String.ofList (text.toList.flatMap fun c => if c = '\n' then c :: margin.toList else [c])

theorem indent_of_not_mem {text : String} (h : '\n' ∉ text.toList) (margin : String) :
    indent margin text = text := by
  have (cs : List Char) (hcs : '\n' ∉ cs) :
      (cs.flatMap fun c => if c = '\n' then c :: margin.toList else [c]) = cs := by
    induction cs with
    | nil => rfl
    | cons c cs ih =>
      rw [List.mem_cons, not_or] at hcs
      rw [List.flatMap_cons, if_neg (Ne.symm hcs.1), ih hcs.2, List.singleton_append]
  rw [indent, this _ h, String.ofList_toList]

end MiniBasic.Text
