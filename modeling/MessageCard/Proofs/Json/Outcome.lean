import MessageCard.Json.Reader

/-!
# Reading without places

What a document is does not depend on the places that faults are reported at. Here the reader is
followed by its states alone: `after?` is the state after some text, `outcome?` the document that
comes of a state and the rest of the text. Both split where the text splits.
-/
namespace MessageCard.Json
namespace ReaderState

/-- The state after some text, if the reader takes all of it. -/
def after? (s : ReaderState) (text : List Char) : Option ReaderState :=
  text.foldlM (fun s c => (s.step c).toOption) s

/-- The document that a state and the rest of the text come to. -/
def outcome? (s : ReaderState) (text : List Char) : Option Json :=
  (s.after? text).bind fun s => s.finish.toOption

@[simp] theorem after?_nil (s : ReaderState) : s.after? [] = some s := rfl

theorem after?_cons (s : ReaderState) (c : Char) (rest : List Char) :
    s.after? (c :: rest) = (s.step c).toOption.bind (·.after? rest) := rfl

theorem after?_append (s : ReaderState) (a b : List Char) :
    s.after? (a ++ b) = (s.after? a).bind (·.after? b) := by
  rw [after?, List.foldlM_append]
  rfl

theorem outcome?_nil (s : ReaderState) : s.outcome? [] = s.finish.toOption := rfl

theorem outcome?_append (s : ReaderState) (a b : List Char) :
    s.outcome? (a ++ b) = (s.after? a).bind (·.outcome? b) := by
  rw [outcome?, after?_append, Option.bind_assoc]
  rfl

/-- One more character that the reader takes. -/
theorem after?_cons_of_ok {s t : ReaderState} {c : Char} (h : s.step c = .ok t)
    (rest : List Char) : s.after? (c :: rest) = t.after? rest := by
  rw [after?_cons, h]
  rfl

/-- A character that the reader does not take ends the reading. -/
theorem after?_cons_of_error {s : ReaderState} {c : Char} {f : StepFault}
    (h : s.step c = .error f) (rest : List Char) : s.after? (c :: rest) = none := by
  rw [after?_cons, h]
  rfl

end ReaderState

theorem readChars_toOption (s : ReaderState) (p : Position) (text : List Char) :
    (readChars s p text).toOption.map (·.1) = s.after? text := by
  induction text generalizing s p with
  | nil => rfl
  | cons c rest ih =>
    rw [readChars]
    cases h : s.step c with
    | ok t => rw [ReaderState.after?_cons_of_ok h, ← ih t (p.after c c.utf8Size)]
    | error f => rw [ReaderState.after?_cons_of_error h]; rfl

/-- A text is read as a document exactly when the reader comes to it from its first state. -/
theorem ofChars_eq_ok_iff {text : List Char} {j : Json} :
    ofChars text = .ok j ↔ ReaderState.initial.outcome? text = some j := by
  rw [ReaderState.outcome?, ← readChars_toOption .initial ⟨1, 0⟩, ofChars]
  cases h : readChars .initial ⟨1, 0⟩ text with
  | error f => simp [bind, Except.bind, Except.toOption]
  | ok r =>
    obtain ⟨s, p⟩ := r
    simp only [bind, Except.bind, Except.toOption, Option.map_some, Option.bind_some]
    cases hf : s.finish <;> simp

end MessageCard.Json
