import MiniBasic.Proofs.Sinks

/-!
# Header and body

A line of the header comes in while the body is under way, and a line of the body comes in as any
number of pieces. Neither shows in the code, which is the header lines in their order and then the
text of the body (`Output.text_by_header_and_body`). Pieces can be exchanged for others, whatever
comes before and after them, exactly if both come to the same header and the same body
(`Output.interchangeable_iff`): so much of the past can still be told from the code, and no more.
-/

namespace MiniBasic.Output

/-- What the events come to in the header. -/
def headerText (events : List Event) : String := String.join (events.filterMap Event.headerText?)

/-- What the events come to in the body. -/
def bodyText (events : List Event) : String := String.join (events.filterMap Event.bodyText?)

section
variable (es fs : List Event)

theorem headerText_append : headerText (es ++ fs) = headerText es ++ headerText fs := by
  simp [headerText]

theorem bodyText_append : bodyText (es ++ fs) = bodyText es ++ bodyText fs := by
  simp [bodyText]

theorem text_eq : (ofEvents es).text = headerText es ++ bodyText es := text_eq_codeOf es

/-- What comes behind other events adds to the header behind their header lines, and to the body
behind their body. -/
theorem text_append :
    (ofEvents (es ++ fs)).text =
      headerText es ++ headerText fs ++ (bodyText es ++ bodyText fs) := by
  rw [text_eq, headerText_append, bodyText_append]

end

@[simp] theorem headerText_singleton (e : Event) : headerText [e] = e.headerText?.getD "" := by
  cases e <;> simp [headerText, List.filterMap_cons, Event.headerText?]

@[simp] theorem bodyText_singleton (e : Event) : bodyText [e] = e.bodyText?.getD "" := by
  cases e <;> simp [bodyText, List.filterMap_cons, Event.bodyText?]

section
variable (events : List Event) (text : String)

theorem text_fragment :
    (ofEvents (events ++ [.fragment text])).text = (ofEvents events).text ++ text := by
  rw [text_append, text_eq]
  simp [Event.headerText?, Event.bodyText?, String.append_assoc]

theorem text_line :
    (ofEvents (events ++ [.line text])).text = (ofEvents events).text ++ (text ++ "\n") := by
  rw [text_append, text_eq]
  simp [Event.headerText?, Event.bodyText?, String.append_assoc]

theorem text_header :
    (ofEvents (events ++ [.header text])).text =
      headerText events ++ (text ++ "\n") ++ bodyText events := by
  rw [text_append]
  simp [Event.headerText?, Event.bodyText?]

end

/-- The code is the header lines, each of them ended, and then the pieces of the body. Two runs of
events with the same header lines and with bodies that read the same give the same code, wherever
the header lines come in and however the body is cut into pieces. A further piece of the body goes
to the end of the code, and a further header line goes to where header and body meet. -/
theorem text_by_header_and_body :
    (∀ events : List Event, (ofEvents events).text = headerText events ++ bodyText events) ∧
    (∀ es fs : List Event,
      es.filterMap Event.headerText? = fs.filterMap Event.headerText? →
      bodyText es = bodyText fs → (ofEvents es).text = (ofEvents fs).text) ∧
    ∀ (events : List Event) (text : String),
      (ofEvents (events ++ [.fragment text])).text = (ofEvents events).text ++ text ∧
      (ofEvents (events ++ [.line text])).text = (ofEvents events).text ++ (text ++ "\n") ∧
      (ofEvents (events ++ [.header text])).text =
        headerText events ++ (text ++ "\n") ++ bodyText events := by
  refine ⟨text_eq, fun es fs headers bodies => ?_, fun events text => ?_⟩
  · have header : headerText es = headerText fs := congrArg String.join headers
    rw [text_eq, text_eq, header, bodies]
  · exact ⟨text_fragment events text, text_line events text, text_header events text⟩

/-- A declaration that comes in between the pieces of an assignment leaves the assignment whole. -/
theorem late_declaration :
    let es : List Event := [.fragment "x = ", .header "#include <stdio.h>", .fragment "5",
      .line ";", .header "float x;", .line "return 0;"]
    let fs : List Event := [.header "#include <stdio.h>", .header "float x;", .line "x = 5;",
      .line "return 0;"]
    es.filterMap Event.headerText? = fs.filterMap Event.headerText? ∧ bodyText es = bodyText fs ∧
      (ofEvents es).text = (ofEvents fs).text :=
  ⟨rfl, by decide, text_by_header_and_body.2.1 _ _ rfl (by decide)⟩

/-! ## Exchanging pieces -/

/-- Either may stand for the other, whatever comes before and after. -/
def Interchangeable (es fs : List Event) : Prop :=
  ∀ before after,
    (ofEvents (before ++ es ++ after)).text = (ofEvents (before ++ fs ++ after)).text

/-- Whatever is put between two texts shows where they meet. -/
private theorem length_le_of_parted {h h' b b' : List Char}
    (same : ∀ c, h ++ c :: '\n' :: b = h' ++ c :: '\n' :: b') : h'.length ≤ h.length := by
  by_contra longer
  have meets (c : Char) : some c = h'[h.length]? :=
    calc some c = (h ++ c :: '\n' :: b)[h.length]? := by simp
      _ = (h' ++ c :: '\n' :: b')[h.length]? := by rw [same c]
      _ = h'[h.length]? := List.getElem?_append_left (Nat.lt_of_not_le longer)
  exact absurd ((meets 'a').trans (meets 'b').symm) (by decide)

private theorem eq_of_parted {h h' b b' : String}
    (same : ∀ line, h ++ (line ++ "\n") ++ b = h' ++ (line ++ "\n") ++ b') : h = h' ∧ b = b' := by
  have parted (c : Char) :
      h.toList ++ c :: '\n' :: b.toList = h'.toList ++ c :: '\n' :: b'.toList := by
    simpa using congrArg String.toList (same (String.singleton c))
  have same_length : h.toList.length = h'.toList.length :=
    le_antisymm (length_le_of_parted fun c => (parted c).symm) (length_le_of_parted parted)
  obtain ⟨header, rest⟩ := List.append_inj (parted 'a') same_length
  exact ⟨String.toList_injective header, String.toList_injective (by simpa using rest)⟩

theorem interchangeable_iff {es fs : List Event} :
    Interchangeable es fs ↔ headerText es = headerText fs ∧ bodyText es = bodyText fs := by
  constructor
  · intro same
    -- one more header line comes in where header and body meet
    refine eq_of_parted fun line => ?_
    simpa only [List.nil_append, text_header] using same [] [.header line]
  · rintro ⟨header, body⟩ before after
    simp only [text_append, headerText_append, bodyText_append, header, body]

/-- All header lines first, and then the body at once. -/
def settled (events : List Event) : List Event :=
  events.filter (·.headerText?.isSome) ++ [.fragment (bodyText events)]

/-- Every run of events might as well have been a settled one. -/
theorem interchangeable_settled (events : List Event) : Interchangeable events (settled events) := by
  have headers : headerText (events.filter (·.headerText?.isSome)) = headerText events := by
    rw [headerText, headerText, List.filterMap_filter]
    refine congrArg _ (List.filterMap_congr fun e _ => ?_)
    cases e <;> rfl
  have bodies : bodyText (events.filter (·.headerText?.isSome)) = "" := by
    rw [bodyText, List.filterMap_filter, List.filterMap_eq_nil_iff.2]
    · rfl
    · rintro (_ | _ | _ | _) _ <;> rfl
  refine interchangeable_iff.2 ⟨?_, ?_⟩
  · rw [settled, headerText_append, headers, headerText_singleton]
    exact String.append_empty.symm
  · rw [settled, bodyText_append, bodies, bodyText_singleton]
    exact String.empty_append.symm

end MiniBasic.Output
