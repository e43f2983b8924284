import MessageCard.Json.Reader
import MessageCard.Json.Shape

/-!
# What can be wrong with a template

A fault names its cause and its place: the place in the text for a text that is no JSON, and
otherwise the path of the item from the root of the document.
-/
namespace MessageCard

/-- Why a document is no template. -/
inductive TemplateFault where
  | malformed (line column : Nat) (message : String)
  | notAnObject
  | missingField (field path : String)
  | unknownItemType (tag path : String)
  | invalidItem (path message : String)
  | unsupportedVersion (version : Int)
  deriving DecidableEq, Repr

/-- Bytes from `start` up to `stop`. -/
structure Span where
  start : Nat
  stop : Nat
  deriving DecidableEq, Repr

namespace TemplateFault

/-- The fault of a text that is no JSON. -/
def ofSyntax (f : Json.SyntaxFault) : TemplateFault :=
  .malformed f.position.line f.position.column f.message

def message : TemplateFault → String
  | .malformed line column text =>
    "malformed template JSON at line " ++ toString line ++ ", column " ++ toString column ++ ": " ++
      text
  | .notAnObject => "template root must be a JSON object"
  | .missingField field path => "missing required field `" ++ field ++ "` at " ++ path
  | .unknownItemType tag path => "unknown item type `" ++ tag ++ "` at " ++ path
  | .invalidItem path text => "invalid item at " ++ path ++ ": " ++ text
  | .unsupportedVersion v => "unsupported template version " ++ toString v

end TemplateFault

/-- The number of bytes of a text. -/
def byteLength (s : List Char) : Nat := s.foldl (fun n c => n + c.utf8Size) 0

theorem foldl_utf8Size (n : Nat) (s : List Char) :
    s.foldl (fun n c => n + c.utf8Size) n = n + byteLength s := by
  induction s generalizing n with
  | nil => rfl
  | cons c rest ih =>
    rw [byteLength, List.foldl_cons, List.foldl_cons, ih, ih]
    omega

@[simp] theorem byteLength_nil : byteLength [] = 0 := rfl

@[simp] theorem byteLength_cons (c : Char) (rest : List Char) :
    byteLength (c :: rest) = c.utf8Size + byteLength rest := by
  rw [byteLength, List.foldl_cons, foldl_utf8Size, Nat.zero_add]

@[simp] theorem byteLength_append (s t : List Char) :
    byteLength (s ++ t) = byteLength s + byteLength t := by
  rw [byteLength, List.foldl_append, foldl_utf8Size]
  rfl

/-- The lines of a text, each with the line break that ends it. -/
def linesWithBreaks : List Char → List (List Char)
  | [] => []
  | c :: rest =>
    if c = '\n' then [c] :: linesWithBreaks rest
    else match linesWithBreaks rest with
      | [] => [[c]]
      | line :: lines => (c :: line) :: lines

/-- The byte where a column of a line starts, counting lines from the first of a list and bytes from
`offset`. -/
def lineOffset (column offset : Nat) : Nat → List (List Char) → Nat
  | _, [] => offset
  | 0, line :: _ => offset + min (column - 1) (byteLength line)
  | n + 1, line :: rest => lineOffset column (offset + byteLength line) n rest

/-- The byte at a line and a column, both counted from one; a place outside the text moves to the
end of its line, or of the text. -/
def byteOffset (source : List Char) (line column : Nat) : Nat :=
  match line with
  | 0 => 0
  | n + 1 => lineOffset column 0 n (linesWithBreaks source)

/-- The bytes of a text that a fault is about: one byte for a text that is no JSON, none
otherwise. -/
def TemplateFault.span (f : TemplateFault) (source : List Char) : Span :=
  match f with
  | .malformed line column _ =>
    let start := byteOffset source line column
    ⟨start, max (min (start + 1) (byteLength source)) start⟩
  | _ => ⟨0, 0⟩

end MessageCard
