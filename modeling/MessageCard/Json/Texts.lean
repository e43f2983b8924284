import MessageCard.Json.Reader
import MessageCard.Json.Shape
import MessageCard.TextMap

/-!
# Reading an object of texts

Where only an object of texts will do, a value of another kind is an error as soon as it is
recognised: a word, a number or a string at its end, a container at its opening bracket. What comes
after it is not looked at, so a mistake in the text only counts when it comes first.
-/
namespace MessageCard.Json

/-- Why a text holds no object of texts. -/
inductive TextsFault where
  /-- The text is no JSON. -/
  | malformed (f : SyntaxFault)
  /-- A value of the wrong kind. -/
  | misfit (found expected : String) (position : Position)
  deriving DecidableEq

/-- The text of a fault, with its place. -/
def TextsFault.message : TextsFault → String
  | .malformed f => f.message
  | .misfit found expected p =>
    (ShapeError.wrongKind found expected).message ++ " at line " ++ toString p.line ++
      " column " ++ toString p.column

/-- What the next value has to be. -/
def expectedKind (s : ReaderState) : String := if s.containers.isEmpty then "a map" else "a string"

/-- A value of the wrong kind that the next character completes or begins. -/
def misfit? (s : ReaderState) (p : Position) (c : Char) : Option TextsFault :=
  let found (v : String) (p : Position) : TextsFault := .misfit v (expectedKind s) p
  match s.mode with
  | .value =>
    if c = '[' then some (found (Json.array []).kindName p)
    else if c = '\x7b' ∧ !s.containers.isEmpty then some (found (Json.object []).kindName p)
    else none
  | .word [w] v => if c = w then some (found v.kindName (p.after c 1)) else none
  | .text false chars .none =>
    if c = '"' ∧ s.containers.isEmpty then
      some (found (Json.string (.ofList chars.reverse)).kindName (p.after c 1))
    else none
  | .number scan =>
    match scan.step c with
    | .complete => scan.finish.map fun n => found (Json.number n).kindName p
    | _ => none
  | _ => none

/-- A number at the end of the text. -/
def lastMisfit? (s : ReaderState) (p : Position) : Option TextsFault :=
  match s.mode with
  | .number scan =>
    if scan.mayEnd then
      scan.finish.map fun n => .misfit (Json.number n).kindName (expectedKind s) p
    else none
  | _ => none

/-- The state and the place after some text. -/
def readTexts : ReaderState → Position → List Char → Except TextsFault (ReaderState × Position)
  | s, p, [] =>
    match lastMisfit? s p with
    | some f => .error f
    | none => .ok (s, p)
  | s, p, c :: rest =>
    match misfit? s p c with
    | some f => .error f
    | none =>
      match s.step c with
      | .ok s => readTexts s (p.after c c.utf8Size) rest
      | .error f => .error (.malformed ⟨f.error, p.after c f.bytes⟩)

/-- The texts of the object that a text holds. -/
def texts (text : String) : Except TextsFault TextMap := do
  let (s, p) ← readTexts .initial ⟨1, 0⟩ text.toList
  match s.finish with
  | .ok (.object members) => .ok (.ofMembers members)
  | .ok _ => .ok .empty
  | .error e => .error (.malformed ⟨e, p⟩)

end MessageCard.Json
